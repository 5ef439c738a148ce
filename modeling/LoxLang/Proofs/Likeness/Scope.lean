import LoxLang.Scope.Resolution
import LoxLang.Proofs.Coupling
import LoxLang.Proofs.Likeness.Tree

/-!
# Walking over alike trees

Over two trees that are alike, the walk that binds names keeps the same
scopes, reports the same errors and gives places that stand for each other the
same distances, provided that no place stands for two others.
-/

namespace LoxLang

/-- No place stands for two places of the other text. -/
def Likeness.OneToOne (like : Likeness) : Prop :=
  ∀ ⦃id id' other other'⦄, like.place id id' → like.place other other' →
    (id = other ↔ id' = other')

/-- Places that stand for each other have the same distance. -/
def Distances.Alike (like : Likeness) (distances other : Distances) : Prop :=
  ∀ ⦃id id'⦄, like.place id id' → distances.find? id = other.find? id'

structure ScopeError.Alike (like : Likeness) (e e' : ScopeError) : Prop where
  cause : e.cause = e'.cause
  line : like.line e.line e'.line

namespace Scope

structure Resolution.Alike (like : Likeness) (r r' : Resolution) :
    Prop where
  scopes : r.scopes = r'.scopes
  distances : r.distances.Alike like r'.distances
  errors : List.Forall₂ (ScopeError.Alike like) r.errors r'.errors

namespace Resolution.Alike

variable {like : Likeness} {r r' : Resolution}

protected theorem start : Resolution.start.Alike like .start :=
  ⟨rfl, fun _ _ _ => (Distances.find?_empty _).trans
    (Distances.find?_empty _).symm, .nil⟩

theorem report
    {line line' : Nat} (h : r.Alike like r') (cause : ScopeError.Cause)
    (hline : like.line line line') :
    (r.report cause line).Alike like (r'.report cause line') :=
  ⟨h.scopes, h.distances,
    List.rel_append h.errors (.cons ⟨rfl, hline⟩ .nil)⟩

theorem enter (h : r.Alike like r') (scope : Bindings Bool) :
    (r.enter scope).Alike like (r'.enter scope) :=
  ⟨congrArg (scope :: ·) h.scopes, h.distances, h.errors⟩

theorem leave (h : r.Alike like r') : r.leave.Alike like r'.leave :=
  ⟨congrArg List.tail h.scopes, h.distances, h.errors⟩

theorem declare
    {name name' : Ident} (h : r.Alike like r')
    (hname : name.Alike like name') :
    (r.declare name).Alike like (r'.declare name') := by
  unfold Resolution.declare
  rw [← h.scopes, ← hname.name]
  split
  · exact h
  · split
    · exact h.report _ hname.line
    · exact ⟨rfl, h.distances, h.errors⟩

theorem define
    {name name' : Ident} (h : r.Alike like r')
    (hname : name.Alike like name') :
    (r.define name).Alike like (r'.define name') := by
  unfold Resolution.define
  rw [← h.scopes, ← hname.name]
  split
  · exact h
  · exact ⟨rfl, h.distances, h.errors⟩

private theorem bind
    {id id' : PlaceId} (h : r.Alike like r') (hone : like.OneToOne)
    (hplace : like.place id id') (name : String) :
    (r.bind id name).Alike like (r'.bind id' name) := by
  unfold Resolution.bind
  rw [← h.scopes]
  split
  · refine ⟨rfl, ?_, h.errors⟩
    intro other other' hother
    rw [Distances.find?_record, Distances.find?_record, h.distances hother]
    simp only [hone hother hplace]
  · exact h

private theorem inOwnInitializer (h : r.Alike like r') (name : String) :
    r.inOwnInitializer name = r'.inOwnInitializer name := by
  unfold Resolution.inOwnInitializer
  rw [h.scopes]

end Resolution.Alike

/-! ## Expressions -/

section
variable {like : Likeness}

mutual

theorem resolveExpr_alike
    {r r' : Resolution} {expr expr' : Expr} (hone : like.OneToOne)
    (around : Surroundings) (hexpr : expr.Alike like expr')
    (h : r.Alike like r') :
    (resolveExpr around expr r).Alike like
      (resolveExpr around expr' r') := by
  cases hexpr with
  | literal =>
      unfold resolveExpr
      exact h
  | group inner =>
      unfold resolveExpr
      exact resolveExpr_alike hone around inner h
  | unary operand _ =>
      unfold resolveExpr
      exact resolveExpr_alike hone around operand h
  | binary left right _ =>
      unfold resolveExpr
      have hleft := resolveExpr_alike hone around left h
      exact resolveExpr_alike hone around right hleft
  | logical left right =>
      unfold resolveExpr
      have hleft := resolveExpr_alike hone around left h
      exact resolveExpr_alike hone around right hleft
  | read place name =>
      unfold resolveExpr
      rw [← name.name, ← h.inOwnInitializer]
      dsimp only
      split
      · exact (h.report _ name.line).bind hone place _
      · exact h.bind hone place _
  | assign place name value =>
      unfold resolveExpr
      rw [← name.name]
      exact (resolveExpr_alike hone around value h).bind hone place _
  | call callee _ arguments =>
      unfold resolveExpr
      have hcallee := resolveExpr_alike hone around callee h
      exact resolveExprs_alike hone around arguments hcallee
  | get object _ =>
      unfold resolveExpr
      exact resolveExpr_alike hone around object h
  | set object _ value =>
      unfold resolveExpr
      have hobject := resolveExpr_alike hone around object h
      exact resolveExpr_alike hone around value hobject
  | this place line =>
      unfold resolveExpr
      cases around.classKind with
      | none => exact h.report _ line
      | base => exact h.bind hone place "this"
      | derived => exact h.bind hone place "this"
  | super place line _ =>
      unfold resolveExpr
      cases around.classKind with
      | none => exact h.report _ line
      | base => exact h.report _ line
      | derived => exact h.bind hone place "super"

theorem resolveExprs_alike
    {r r' : Resolution} {exprs exprs' : List Expr} (hone : like.OneToOne)
    (around : Surroundings) (hexprs : Expr.AllAlike like exprs exprs')
    (h : r.Alike like r') :
    (resolveExprs around exprs r).Alike like
      (resolveExprs around exprs' r') := by
  cases hexprs with
  | nil =>
      unfold resolveExprs
      exact h
  | cons first rest =>
      unfold resolveExprs
      have hfirst := resolveExpr_alike hone around first h
      exact resolveExprs_alike hone around rest hfirst

end

theorem resolveOption_alike
    {r r' : Resolution} {expr expr' : Option Expr} (hone : like.OneToOne)
    (around : Surroundings) (hexpr : Expr.OptionAlike like expr expr')
    (h : r.Alike like r') :
    (resolveOption around expr r).Alike like
      (resolveOption around expr' r') := by
  cases hexpr with
  | none => exact h
  | some hexpr => exact resolveExpr_alike hone around hexpr h

private theorem declareParams_alike
    {params params' : List Ident} {r r' : Resolution}
    (hparams : List.Forall₂ (Ident.Alike like) params params')
    (h : r.Alike like r') :
    (declareParams params r).Alike like (declareParams params' r') := by
  induction hparams generalizing r r' with
  | nil => exact h
  | cons hparam _ ih => exact ih ((h.declare hparam).define hparam)

private theorem checkSuperclass_alike
    {name name' : Ident} {superclass superclass' : Expr} {r r' : Resolution}
    (hname : name.Alike like name')
    (hsuperclass : superclass.Alike like superclass')
    (h : r.Alike like r') :
    (checkSuperclass name superclass r).Alike like
      (checkSuperclass name' superclass' r') := by
  cases hsuperclass with
  | read _ hsuper =>
      unfold checkSuperclass
      dsimp only
      rw [← hname.name, ← hsuper.name]
      split
      · exact h.report _ hsuper.line
      · exact h
  | _ => exact h

private theorem checkReturn_alike
    {line line' : Nat} {value value' : Option Expr} {r r' : Resolution}
    (around : Surroundings) (hline : like.line line line')
    (hvalue : Expr.OptionAlike like value value') (h : r.Alike like r') :
    (checkReturn around line value r).Alike like
      (checkReturn around line' value' r') := by
  have hsome : value.isSome = value'.isSome := by cases hvalue <;> rfl
  have hfirst :
      (if around.function = .none then r.report .returnAtTop line
        else r).Alike like
        (if around.function = .none then r'.report .returnAtTop line'
          else r') := by
    split
    · exact h.report _ hline
    · exact h
  unfold checkReturn
  rw [← hsome]
  dsimp only
  split
  · exact hfirst.report _ hline
  · exact hfirst

/-! ## Statements -/

mutual

theorem resolveStmt_alike
    {r r' : Resolution} {stmt stmt' : Stmt} (hone : like.OneToOne)
    (around : Surroundings) (hstmt : stmt.Alike like stmt')
    (h : r.Alike like r') :
    (resolveStmt around stmt r).Alike like
      (resolveStmt around stmt' r') := by
  cases hstmt with
  | expression expr =>
      unfold resolveStmt
      exact resolveExpr_alike hone around expr h
  | print expr =>
      unfold resolveStmt
      exact resolveExpr_alike hone around expr h
  | var name initial =>
      unfold resolveStmt
      have hinitial := resolveOption_alike hone around initial (h.declare name)
      exact hinitial.define name
  | block body =>
      unfold resolveStmt
      exact (resolveStmts_alike hone around body (h.enter .empty)).leave
  | branch test yes no =>
      have htest := resolveExpr_alike hone around test h
      have hyes := resolveStmt_alike hone around yes htest
      cases no with
      | none =>
          unfold resolveStmt
          exact hyes
      | some no =>
          unfold resolveStmt
          exact resolveStmt_alike hone around no hyes
  | loop test body =>
      unfold resolveStmt
      have htest := resolveExpr_alike hone around test h
      exact resolveStmt_alike hone around body htest
  | function declaration =>
      unfold resolveStmt
      have hname := declaration.name
      exact resolveFunction_alike hone _ declaration
        ((h.declare hname).define hname)
  | ret line value =>
      unfold resolveStmt
      have hchecked := checkReturn_alike around line value h
      exact resolveOption_alike hone around value hchecked
  | classDecl name parent methods =>
      have hnamed := (h.declare name).define name
      cases parent with
      | none =>
          unfold resolveStmt
          exact (resolveMethods_alike hone _ methods (hnamed.enter _)).leave
      | some parent =>
          unfold resolveStmt
          have hchecked := checkSuperclass_alike name parent hnamed
          have hparent := resolveExpr_alike hone
            { around with classKind := .derived } parent hchecked
          have hmethods := resolveMethods_alike hone
            { around with classKind := .derived } methods
            ((hparent.enter (Bindings.empty.put "super" true)).enter
              (Bindings.empty.put "this" true))
          exact hmethods.leave.leave
termination_by sizeOf stmt

theorem resolveStmts_alike
    {r r' : Resolution} {stmts stmts' : List Stmt} (hone : like.OneToOne)
    (around : Surroundings) (hstmts : Stmt.AllAlike like stmts stmts')
    (h : r.Alike like r') :
    (resolveStmts around stmts r).Alike like
      (resolveStmts around stmts' r') := by
  cases hstmts with
  | nil =>
      unfold resolveStmts
      exact h
  | cons first rest =>
      unfold resolveStmts
      have hfirst := resolveStmt_alike hone around first h
      exact resolveStmts_alike hone around rest hfirst
termination_by sizeOf stmts

theorem resolveFunction_alike
    {r r' : Resolution} {declaration declaration' : FunctionDecl}
    (hone : like.OneToOne) (around : Surroundings)
    (hdeclaration : declaration.Alike like declaration')
    (h : r.Alike like r') :
    (resolveFunction around declaration r).Alike like
      (resolveFunction around declaration' r') := by
  cases hdeclaration with
  | mk _ params body =>
      unfold resolveFunction
      have hparams := declareParams_alike params (h.enter .empty)
      exact (resolveStmts_alike hone around body hparams).leave
termination_by sizeOf declaration

theorem resolveMethods_alike
    {r r' : Resolution} {methods methods' : List FunctionDecl}
    (hone : like.OneToOne) (around : Surroundings)
    (hmethods : FunctionDecl.AllAlike like methods methods')
    (h : r.Alike like r') :
    (resolveMethods around methods r).Alike like
      (resolveMethods around methods' r') := by
  cases hmethods with
  | nil =>
      unfold resolveMethods
      exact h
  | cons first rest =>
      unfold resolveMethods
      rw [← first.name.name]
      exact resolveMethods_alike hone around rest
        (resolveFunction_alike hone _ first h)
termination_by sizeOf methods

end

end

/-- Over alike programs, the walk accepts both and gives places that stand for
each other the same distances, or it reports the same errors. -/
theorem resolve_alike
    {like : Likeness} {program program' : Program} (hone : like.OneToOne)
    (h : Stmt.AllAlike like program program') :
    ExceptRelated (List.Forall₂ (ScopeError.Alike like))
      (Distances.Alike like) (resolve program) (resolve program') := by
  have hwalked := resolveStmts_alike hone .top h .start
  have herrors := hwalked.errors
  unfold resolve
  dsimp only
  generalize (resolveStmts .top program .start).errors = errors at herrors ⊢
  generalize (resolveStmts .top program' .start).errors = errors'
    at herrors ⊢
  cases herrors with
  | nil => exact .ok hwalked.distances
  | cons first rest => exact .error (.cons first rest)

end Scope
end LoxLang
