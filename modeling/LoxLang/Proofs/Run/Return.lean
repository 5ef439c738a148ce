import LoxLang.Proofs.Run.Task
import LoxLang.Proofs.Scope.Binding

/-!
# Statements that return

A statement ends in a `return` only if it has one outside of the functions and
classes that it declares.  In a program that is bound at the top level there is
none, so that its run never ends in a `return`.
-/

namespace LoxLang

mutual

/-- The statement has a `return` of its own. -/
def Stmt.Returns : Stmt → Prop
  | .ret .. => True
  | .block body => Stmt.ReturnsAny body
  | .branch _ yes none => yes.Returns
  | .branch _ yes (some no) => yes.Returns ∨ no.Returns
  | .loop _ body => body.Returns
  | .expression _ | .print _ | .var .. | .function _ | .classDecl .. => False

def Stmt.ReturnsAny : List Stmt → Prop
  | [] => False
  | stmt :: stmts => stmt.Returns ∨ Stmt.ReturnsAny stmts

end

namespace Step

/-- Where the step gives a completion, it is not a `return`. -/
def FallsThrough (step : Step Completion) : Prop :=
  ∀ m, step.Ends m (fun completion _ => completion = .normal) fun _ _ => True

theorem fallsThrough_normal : (pure .normal : Step Completion).FallsThrough :=
  fun _ => rfl

theorem fallsThrough_bind
    {α : Type} {step : Step α} {next : α → Step Completion}
    (hnext : ∀ a, (next a).FallsThrough) : (step >>= next).FallsThrough := by
  intro m
  have hstep : step.Ends m (fun _ _ => True) fun _ _ => True :=
    ends_of (fun _ _ _ => trivial) fun _ _ _ => trivial
  exact hstep.bind fun a m₁ _ _ => hnext a m₁

/-- The rest is carried out after a normal completion only. -/
theorem FallsThrough.andThen
    {step : Step Completion} {next : Completion → Step Completion}
    (hstep : step.FallsThrough) (hnext : (next .normal).FallsThrough) :
    (step >>= next).FallsThrough := by
  intro m
  refine (hstep m).bind fun completion m₁ _ hnormal => ?_
  rw [hnormal]
  exact hnext m₁

theorem FallsThrough.nested
    {step : Step Completion} (hstep : step.FallsThrough)
    (parent : Option FrameId) (names : Bindings Value) :
    (nested parent names step).FallsThrough :=
  fun m => ends_nested (hstep (m.within parent names))

mutual

theorem exec_fallsThrough :
    (fuel : Nat) → (stmt : Stmt) → ¬ stmt.Returns →
      (exec fuel stmt).FallsThrough
  | 0, _, _ => fun _ => trivial
  | _ + 1, .expression _, _ => fallsThrough_bind fun _ => fallsThrough_normal
  | _ + 1, .print _, _ =>
      fallsThrough_bind fun _ => fallsThrough_bind fun _ => fallsThrough_normal
  | _ + 1, .var _ none, _ => fallsThrough_bind fun _ => fallsThrough_normal
  | _ + 1, .var _ (some _), _ =>
      fallsThrough_bind fun _ => fallsThrough_bind fun _ => fallsThrough_normal
  | fuel + 1, .block body, hreturns => by
      rw [exec_block]
      have hbody := execAll_fallsThrough fuel body hreturns
      exact fallsThrough_bind fun current => hbody.nested (some current) .empty
  | fuel + 1, .branch condition yes none, hreturns => by
      refine fallsThrough_bind fun value => ?_
      split
      · exact exec_fallsThrough fuel yes hreturns
      · exact fallsThrough_normal
  | fuel + 1, .branch condition yes (some no), hreturns => by
      refine fallsThrough_bind fun value => ?_
      split
      · exact exec_fallsThrough fuel yes fun h => hreturns (.inl h)
      · exact exec_fallsThrough fuel no fun h => hreturns (.inr h)
  | fuel + 1, .loop condition body, hreturns =>
      repeatWhile_fallsThrough fuel condition body hreturns
  | _ + 1, .function _, _ => fallsThrough_bind fun _ => fallsThrough_normal
  | _ + 1, .ret _ _, hreturns => absurd trivial hreturns
  | _ + 1, .classDecl name none methods, _ =>
      fallsThrough_bind fun _ => fallsThrough_bind fun _ => fallsThrough_normal
  | fuel + 1, .classDecl name (some superclass) methods, _ => by
      refine fallsThrough_bind fun _ => fallsThrough_bind fun value => ?_
      cases value with
      | classRef id => exact fallsThrough_bind fun _ => fallsThrough_normal
      | _ => exact fallsThrough_bind fun _ => fallsThrough_normal

theorem execAll_fallsThrough :
    (fuel : Nat) → (stmts : List Stmt) → ¬ Stmt.ReturnsAny stmts →
      (execAll fuel stmts).FallsThrough
  | 0, _, _ => fun _ => trivial
  | _ + 1, [], _ => fallsThrough_normal
  | fuel + 1, stmt :: stmts, hreturns => by
      have hfirst := exec_fallsThrough fuel stmt fun h => hreturns (.inl h)
      have hrest := execAll_fallsThrough fuel stmts fun h => hreturns (.inr h)
      exact hfirst.andThen hrest

theorem repeatWhile_fallsThrough :
    (fuel : Nat) → (condition : Expr) → (body : Stmt) → ¬ body.Returns →
      (repeatWhile fuel condition body).FallsThrough
  | 0, _, _, _ => fun _ => trivial
  | fuel + 1, condition, body, hreturns => by
      have hround := exec_fallsThrough fuel body hreturns
      have hrest := repeatWhile_fallsThrough fuel condition body hreturns
      refine fallsThrough_bind fun value => ?_
      split
      · exact hround.andThen hrest
      · exact fallsThrough_normal

end

end Step

open Scope (Stack Chart)

mutual

theorem Stmt.Bound.not_returns {chart : Chart} :
    (stmt : Stmt) → {stack : Stack} → stmt.Bound chart false stack →
      ¬ stmt.Returns
  | .expression _, _, _ => id
  | .print _, _, _ => id
  | .var _ none, _, _ => id
  | .var _ (some _), _, _ => id
  | .block body, _, h => Stmt.BoundAll.not_returnsAny body h
  | .branch _ yes none, _, h => Stmt.Bound.not_returns yes h.2.1
  | .branch _ yes (some no), _, h => fun hreturns =>
      hreturns.elim (Stmt.Bound.not_returns yes h.2.1.1)
        (Stmt.Bound.not_returns no h.2.2.1)
  | .loop _ body, _, h => Stmt.Bound.not_returns body h.2.1
  | .function _, _, _ => id
  | .ret _ none, _, h => fun _ => absurd h Bool.false_ne_true
  | .ret _ (some _), _, h => fun _ => absurd h.1 Bool.false_ne_true
  | .classDecl _ none _, _, _ => id
  | .classDecl _ (some _) _, _, _ => id

/-- No statement outside of all functions has a `return`. -/
theorem Stmt.BoundAll.not_returnsAny {chart : Chart} :
    (stmts : List Stmt) → {stack : Stack} →
      Stmt.BoundAll chart false stack stmts → ¬ Stmt.ReturnsAny stmts
  | [], _, _ => id
  | stmt :: stmts, _, h => fun hreturns =>
      hreturns.elim (Stmt.Bound.not_returns stmt h.1)
        (Stmt.BoundAll.not_returnsAny stmts h.2)

end

end LoxLang
