import LoxLang.Session
import LoxLang.Proofs.Likeness.Grammar
import LoxLang.Proofs.Likeness.Run

/-!
# Analysing and running alike texts

Texts with alike tokens are both accepted, as programs that are alike, or both
rejected with alike errors.  Alike programs end alike.  In particular, the
number from which the places of a text are counted decides neither whether it
is accepted nor what is reported of it.
-/

namespace LoxLang

inductive Diagnostic.Alike (like : Likeness) :
    Diagnostic → Diagnostic → Prop where
  | lexical : Diagnostic.Alike like (.lexical e) (.lexical e)
  | grammatical :
      e.Alike like e' →
      Diagnostic.Alike like (.grammatical e) (.grammatical e')
  | scoping :
      e.Alike like e' → Diagnostic.Alike like (.scoping e) (.scoping e')
  | runtime :
      e.Alike like e' → Diagnostic.Alike like (.runtime e) (.runtime e')
  | output : Diagnostic.Alike like (.output e) (.output e)

structure Checked.Alike (like : Likeness) (c c' : Checked) : Prop where
  program : Stmt.AllAlike like c.program c'.program
  distances : c.distances.Alike like c'.distances

structure Analysis.Alike (like : Likeness) (a a' : Analysis) : Prop where
  verdict : ExceptRelated (List.Forall₂ (Diagnostic.Alike like))
    (Checked.Alike like) a.verdict a'.verdict
  nextId : like.place a.nextId a'.nextId

inductive Outcome.Alike (like : Likeness) : Outcome → Outcome → Prop where
  | finished : Outcome.Alike like .finished .finished
  | failed :
      List.Forall₂ (Diagnostic.Alike like) errors errors' →
      Outcome.Alike like (.failed errors) (.failed errors')
  | broken : d.Alike like d' → Outcome.Alike like (.broken d) (.broken d')
  | outOfFuel : Outcome.Alike like .outOfFuel .outOfFuel

/-! ## Analyses -/

section
variable {like : Likeness}

theorem Grammar.Reading.Alike.program
    {a b : Reading} (h : a.Alike like b) :
    ExceptRelated (List.Forall₂ (ParseError.Alike like))
      (Stmt.AllAlike like) a.program b.program := by
  have herrors := h.errors
  unfold Reading.program
  generalize a.errors = errors at herrors ⊢
  generalize b.errors = errors' at herrors ⊢
  cases herrors with
  | nil => exact .ok h.statements
  | cons first rest => exact .error (.cons first rest)

theorem Analysis.check_alike
    {program program' : Program} (hone : like.OneToOne)
    (h : Stmt.AllAlike like program program') :
    ExceptRelated (List.Forall₂ (Diagnostic.Alike like))
      (Checked.Alike like) (check program) (check program') := by
  have hresolve := Scope.resolve_alike hone h
  unfold check
  generalize Scope.resolve program = result at hresolve ⊢
  generalize Scope.resolve program' = result' at hresolve ⊢
  cases hresolve with
  | ok hdistances => exact .ok ⟨h, hdistances⟩
  | error herrors =>
      refine .error ?_
      rw [List.forall₂_map_left_iff, List.forall₂_map_right_iff]
      exact herrors.imp fun _ _ he => .scoping he

theorem Analysis.ofSource_alike
    {source source' : String} {firstId firstId' : PlaceId}
    (hcounts : like.Counts) (hone : like.OneToOne) (hstart : like.line 0 0)
    (htokens : ExceptRelated Eq (List.Forall₂ (Token.Alike like))
      (Token.ofSource source) (Token.ofSource source'))
    (hfirst : like.place firstId firstId') :
    (ofSource source firstId).Alike like (ofSource source' firstId') := by
  unfold ofSource
  generalize Token.ofSource source = result at htokens ⊢
  generalize Token.ofSource source' = result' at htokens ⊢
  cases htokens with
  | error herrors =>
      subst herrors
      refine ⟨.error ?_, hfirst⟩
      rw [List.forall₂_map_left_iff, List.forall₂_map_right_iff]
      exact List.forall₂_same.mpr fun _ _ => .lexical
  | @ok tokens tokens' htokens =>
      have hreading := Grammar.read_alike hcounts htokens hfirst hstart
      have hprogram := hreading.program
      have hnext := hreading.nextId
      dsimp only
      generalize (Grammar.read tokens firstId).program = program
        at hprogram ⊢
      generalize (Grammar.read tokens' firstId').program = program'
        at hprogram ⊢
      cases hprogram with
      | ok hprogram => exact ⟨check_alike hone hprogram, hnext⟩
      | error herrors =>
          refine ⟨.error ?_, hnext⟩
          rw [List.forall₂_map_left_iff, List.forall₂_map_right_iff]
          exact herrors.imp fun _ _ he => .grammatical he

/-! ## Runs -/

theorem Outcome.ofHalt_alike
    {halt halt' : Halt} (h : halt.Alike like halt') :
    (ofHalt halt).Alike like (ofHalt halt') := by
  cases h with
  | fault he => exact .failed (.cons (.runtime he) .nil)
  | output => exact .failed (.cons .output .nil)
  | defect hd => exact .broken hd
  | outOfFuel => exact .outOfFuel

theorem Machine.run_alike
    {m m' : Machine} {c c' : Checked} (fuel : Nat)
    (h : (m.extend c.distances).Alike like (m'.extend c'.distances))
    (hprogram : Stmt.AllAlike like c.program c'.program) :
    (m.run fuel c).1.Alike like (m'.run fuel c').1 ∧
      (m.run fuel c).2.Alike like (m'.run fuel c').2 := by
  have hrun := Step.runProgram_alike fuel hprogram _ _ h
  unfold Machine.run
  generalize Step.runProgram fuel c.program (m.extend c.distances) = result
    at hrun ⊢
  generalize Step.runProgram fuel c'.program (m'.extend c'.distances) =
    result' at hrun ⊢
  cases hrun with
  | ok _ hafter => exact ⟨.finished, hafter⟩
  | error hhalt hafter => exact ⟨Outcome.ofHalt_alike hhalt, hafter⟩

end

/-! ## The same lines -/

section
variable {place : PlaceId → PlaceId → Prop}

theorem Diagnostic.Alike.eq
    {d d' : Diagnostic} (h : d.Alike (.places place) d') : d = d' := by
  cases h with
  | lexical => rfl
  | @grammatical e e' he =>
      obtain ⟨cause, line⟩ := e
      obtain ⟨cause', line'⟩ := e'
      obtain ⟨rfl, rfl⟩ := he
      rfl
  | @scoping e e' he =>
      obtain ⟨cause, line⟩ := e
      obtain ⟨cause', line'⟩ := e'
      obtain ⟨rfl, rfl⟩ := he
      rfl
  | @runtime e e' he =>
      obtain ⟨cause, line⟩ := e
      obtain ⟨cause', line'⟩ := e'
      obtain ⟨rfl, rfl⟩ := he
      rfl
  | output => rfl

theorem Diagnostic.Alike.all_eq
    {errors errors' : List Diagnostic}
    (h : List.Forall₂ (Diagnostic.Alike (.places place)) errors errors') :
    errors = errors' := by
  rw [← List.forall₂_eq_eq_eq]
  exact h.imp fun _ _ he => he.eq

theorem Outcome.Alike.eq
    {o o' : Outcome} (h : o.Alike (.places place) o') : o = o' := by
  cases h with
  | finished => rfl
  | failed herrors => rw [Diagnostic.Alike.all_eq herrors]
  | broken hd =>
      cases hd with
      | same => rfl
      | superSlots hline =>
          cases hline
          rfl
  | outOfFuel => rfl

end

/-- Where the numbering of the places starts makes no difference but a
shift. -/
theorem Analysis.ofSource_shifted
    (source : String) (firstId firstId' : PlaceId) :
    (ofSource source firstId).Alike
      (.places (Grammar.Shifted firstId firstId'))
      (ofSource source firstId') := by
  refine ofSource_alike ?_ ?_ rfl ?_ ⟨0, rfl, rfl⟩
  · exact Grammar.shifted_counts firstId firstId'
  · rintro id id' other other' ⟨k, rfl, rfl⟩ ⟨l, rfl, rfl⟩
    simp only [Nat.add_left_cancel_iff]
  · cases Token.ofSource source with
    | error errors => exact .error rfl
    | ok tokens =>
        exact .ok (List.forall₂_same.mpr fun token _ => ⟨rfl, rfl, rfl⟩)

end LoxLang
