import LoxLang.Proofs.Scope.Rules

/-!
# One program behind another

A statement at the top level leaves no trace in the scopes: each scope that was
entered has been left, and the kinds of the enclosing function and class are
what they were.  What is found in a statement does not depend on what has been
found in front of it either.  So the walk over two programs, one behind the
other, finds what the two walks over each of them find, whether there are
errors or not.
-/

namespace LoxLang
namespace Scope

/-! ## What has been found before -/

/-- The walk `joined` stands in the same scopes as `r`, and has found what
`earlier` has found and then what `r` has found. -/
structure Resolution.Continues (earlier r joined : Resolution) : Prop where
  scopes : joined.scopes = r.scopes
  errors : joined.errors = earlier.errors ++ r.errors
  distances : ∀ id, joined.distances.find? id =
    (r.distances.find? id).or (earlier.distances.find? id)

namespace Resolution.Continues

variable {earlier r joined : Resolution}

/-- A walk that has left all scopes stands where every walk starts. -/
theorem start (hscopes : earlier.scopes = []) :
    Continues earlier .start earlier where
  scopes := hscopes
  errors := (List.append_nil _).symm
  distances id := by
    rw [Resolution.start, Distances.find?_empty, Option.none_or]

theorem inOwnInitializer (h : Continues earlier r joined) (name : String) :
    joined.inOwnInitializer name = r.inOwnInitializer name := by
  unfold Resolution.inOwnInitializer
  rw [h.scopes]

theorem report
    (h : Continues earlier r joined) (cause : ScopeError.Cause) (line : Nat) :
    Continues earlier (r.report cause line) (joined.report cause line) where
  scopes := h.scopes
  errors := by
    simp only [Resolution.report, h.errors, List.append_assoc]
  distances := h.distances

theorem enter (h : Continues earlier r joined) (scope : Bindings Bool) :
    Continues earlier (r.enter scope) (joined.enter scope) where
  scopes := congrArg (scope :: ·) h.scopes
  errors := h.errors
  distances := h.distances

theorem leave (h : Continues earlier r joined) :
    Continues earlier r.leave joined.leave where
  scopes := congrArg List.tail h.scopes
  errors := h.errors
  distances := h.distances

private theorem declare (h : Continues earlier r joined) (name : Ident) :
    Continues earlier (r.declare name) (joined.declare name) := by
  unfold Resolution.declare
  rw [h.scopes]
  cases r.scopes with
  | nil => exact h
  | cons scope outer =>
      dsimp only
      by_cases hhas : scope.has name.name = true
      · rw [if_pos hhas, if_pos hhas]
        exact h.report _ _
      · rw [if_neg hhas, if_neg hhas]
        constructor
        · rfl
        · exact h.errors
        · exact h.distances

private theorem define (h : Continues earlier r joined) (name : Ident) :
    Continues earlier (r.define name) (joined.define name) := by
  unfold Resolution.define
  rw [h.scopes]
  cases r.scopes with
  | nil => exact h
  | cons scope outer =>
      constructor
      · rfl
      · exact h.errors
      · exact h.distances

private theorem bind
    (h : Continues earlier r joined) (id : PlaceId) (name : String) :
    Continues earlier (r.bind id name) (joined.bind id name) := by
  unfold Resolution.bind
  rw [h.scopes]
  cases r.scopes.findIdx? fun scope => scope.has name with
  | none => exact h
  | some distance =>
      constructor
      · rfl
      · exact h.errors
      · intro other
        rw [Distances.find?_record, Distances.find?_record]
        by_cases hother : other = id
        · rw [if_pos hother, if_pos hother, Option.some_or]
        · rw [if_neg hother, if_neg hother]
          exact h.distances other

/-- Every part of a walk finds the same, whatever has been found before. -/
theorem moves
    {ids : List PlaceId} {f : Resolution → Resolution}
    (h : Continues earlier r joined) (hf : Moves ids f) :
    Continues earlier (f r) (f joined) := by
  induction hf generalizing r joined with
  | stay => exact h
  | report cause line => exact h.report cause line
  | checkRead name =>
      dsimp only
      rw [h.inOwnInitializer]
      split
      · exact h.report _ _
      · exact h
  | enter scope => exact h.enter scope
  | leave => exact h.leave
  | declare name => exact h.declare name
  | define name => exact h.define name
  | bind id name => exact h.bind id name
  | andThen _ _ hfirst hsecond => exact hsecond (hfirst h)

end Resolution.Continues

/-! ## Kinds that are set and set back -/

/-- A walk that itself keeps the kinds of the enclosing function and class: it
sets them in front of a body and sets them back behind it. -/
structure Walker where
  found : Resolution
  around : Surroundings

namespace Walker

/-- Outside of everything. -/
def start : Walker :=
  ⟨.start, .top⟩

def on (walker : Walker) (change : Resolution → Resolution) : Walker :=
  { walker with found := change walker.found }

def setFunction (walker : Walker) (kind : FunctionKind) : Walker :=
  { walker with around := { walker.around with function := kind } }

def setClass (walker : Walker) (kind : ClassKind) : Walker :=
  { walker with around := { walker.around with classKind := kind } }

mutual

def stmt : Stmt → Walker → Walker
  | .expression expr, walker => walker.on (resolveExpr walker.around expr)
  | .print expr, walker => walker.on (resolveExpr walker.around expr)
  | .var name initializer, walker =>
      walker.on fun r =>
        (resolveOption walker.around initializer (r.declare name)).define name
  | .block body, walker =>
      (stmts body (walker.on (·.enter .empty))).on (·.leave)
  | .branch condition yes none, walker =>
      stmt yes (walker.on (resolveExpr walker.around condition))
  | .branch condition yes (some no), walker =>
      stmt no (stmt yes (walker.on (resolveExpr walker.around condition)))
  | .loop condition body, walker =>
      stmt body (walker.on (resolveExpr walker.around condition))
  | .function declaration, walker =>
      function .function declaration
        (walker.on fun r =>
          (r.declare declaration.name).define declaration.name)
  | .ret line value, walker =>
      walker.on fun r => resolveOption walker.around value
        (checkReturn walker.around line value r)
  | .classDecl name none declarations, walker =>
      let outer := walker.around.classKind
      let walker := (walker.setClass .base).on fun r =>
        (r.declare name).define name
      let walker := walker.on (·.enter (Bindings.empty.put "this" true))
      ((methods declarations walker).on (·.leave)).setClass outer
  | .classDecl name (some superclass) declarations, walker =>
      let outer := walker.around.classKind
      let walker := (walker.setClass .base).on fun r =>
        checkSuperclass name superclass ((r.declare name).define name)
      let walker := walker.setClass .derived
      let walker := walker.on (resolveExpr walker.around superclass)
      let walker := walker.on (·.enter (Bindings.empty.put "super" true))
      let walker := walker.on (·.enter (Bindings.empty.put "this" true))
      ((methods declarations walker).on (·.leave.leave)).setClass outer

def stmts : List Stmt → Walker → Walker
  | [], walker => walker
  | first :: rest, walker => stmts rest (stmt first walker)

def function (kind : FunctionKind) : FunctionDecl → Walker → Walker
  | ⟨_, params, body⟩, walker =>
      let outer := walker.around.function
      let walker := (walker.setFunction kind).on fun r =>
        declareParams params (r.enter .empty)
      ((stmts body walker).on (·.leave)).setFunction outer

def methods : List FunctionDecl → Walker → Walker
  | [], walker => walker
  | method :: rest, walker =>
      methods rest (function (methodKind method.name.name) method walker)

end

mutual

/-- However a statement is built and whatever is wrong with it, the kinds behind
it are those in front of it. -/
theorem stmt_eq (around : Surroundings) (r : Resolution) :
    (s : Stmt) → stmt s ⟨r, around⟩ = ⟨resolveStmt around s r, around⟩
  | .expression _ => rfl
  | .print _ => rfl
  | .var _ _ => rfl
  | .block body => by
      have hbody := stmts_eq around (r.enter .empty) body
      unfold stmt on
      rw [hbody]
      rfl
  | .branch condition yes none =>
      stmt_eq around (resolveExpr around condition r) yes
  | .branch condition yes (some no) => by
      have hyes := stmt_eq around (resolveExpr around condition r) yes
      unfold stmt on
      rw [hyes]
      exact stmt_eq around _ no
  | .loop condition body =>
      stmt_eq around (resolveExpr around condition r) body
  | .function declaration =>
      function_eq .function around
        ((r.declare declaration.name).define declaration.name) declaration
  | .ret _ _ => rfl
  | .classDecl name none declarations => by
      have hmethods := methods_eq { around with classKind := .base }
        (((r.declare name).define name).enter
          (Bindings.empty.put "this" true)) declarations
      simp only [stmt, on, setClass, hmethods]
      rfl
  | .classDecl name (some superclass) declarations => by
      have hmethods := methods_eq { around with classKind := .derived }
        (((resolveExpr { around with classKind := .derived } superclass
          (checkSuperclass name superclass
            ((r.declare name).define name))).enter
              (Bindings.empty.put "super" true)).enter
                (Bindings.empty.put "this" true)) declarations
      simp only [stmt, on, setClass, hmethods]
      rfl

theorem stmts_eq (around : Surroundings) (r : Resolution) :
    (ss : List Stmt) → stmts ss ⟨r, around⟩ = ⟨resolveStmts around ss r, around⟩
  | [] => rfl
  | first :: rest => by
      have hfirst := stmt_eq around r first
      unfold stmts
      rw [hfirst]
      exact stmts_eq around _ rest

theorem function_eq
    (kind : FunctionKind) (around : Surroundings) (r : Resolution) :
    (declaration : FunctionDecl) →
      function kind declaration ⟨r, around⟩ =
        ⟨resolveFunction { around with function := kind } declaration r, around⟩
  | ⟨_, params, body⟩ => by
      have hbody := stmts_eq { around with function := kind }
        (declareParams params (r.enter .empty)) body
      simp only [function, on, setFunction, hbody]
      rfl

theorem methods_eq (around : Surroundings) (r : Resolution) :
    (declarations : List FunctionDecl) →
      methods declarations ⟨r, around⟩ =
        ⟨resolveMethods around declarations r, around⟩
  | [] => rfl
  | method :: rest => by
      have hmethod :=
        function_eq (methodKind method.name.name) around r method
      unfold methods
      rw [hmethod]
      exact methods_eq around _ rest

end

end Walker

/-! ## Two programs -/

/-- What a program does against the rules, if anything. -/
def reported : Except (List ScopeError) Distances → List ScopeError
  | .ok _ => []
  | .error errors => errors

section
variable {program : Program} {distances : Distances}

theorem reported_resolve (program : Program) :
    reported (resolve program) = (resolveStmts .top program .start).errors := by
  unfold resolve
  cases herrors : (resolveStmts .top program .start).errors with
  | nil => simp [herrors, reported]
  | cons e errors => simp [herrors, reported]

theorem resolve_eq_ok_iff :
    resolve program = .ok distances ↔
      (resolveStmts .top program .start).errors = [] ∧
        (resolveStmts .top program .start).distances = distances := by
  unfold resolve
  cases herrors : (resolveStmts .top program .start).errors with
  | nil => simp [herrors]
  | cons e errors => simp [herrors]

theorem resolve_eq_error_iff :
    (∃ errors, resolve program = .error errors) ↔
      (resolveStmts .top program .start).errors ≠ [] := by
  unfold resolve
  cases herrors : (resolveStmts .top program .start).errors with
  | nil => simp [herrors]
  | cons e errors => simp [herrors]

end

/-- Behind every statement at the top level, all scopes have been left. -/
theorem resolveStmts_top_scopes (program : Program) :
    (resolveStmts .top program .start).scopes = [] := by
  have hfits : Fits [] (resolveStmts .top program .start).scopes :=
    (resolveStmts_walks .start .top program).fits
  generalize (resolveStmts .top program .start).scopes = scopes at hfits
  cases hfits
  rfl

private theorem resolveStmts_append
    (around : Surroundings) (front rest : List Stmt) (r : Resolution) :
    resolveStmts around (front ++ rest) r =
      resolveStmts around rest (resolveStmts around front r) := by
  induction front generalizing r with
  | nil => rfl
  | cons stmt front ih => exact ih (resolveStmt around stmt r)

/-- The walk over two programs finds what is in the first one and then what is
in the second one, as if it had just started. -/
theorem resolveStmts_top_append (front rest : Program) :
    Resolution.Continues (resolveStmts .top front .start)
      (resolveStmts .top rest .start)
      (resolveStmts .top (front ++ rest) .start) := by
  rw [resolveStmts_append]
  exact Resolution.Continues.moves (.start (resolveStmts_top_scopes front))
    (resolveStmts_moves .top rest)

theorem resolve_append_of_ok
    {front rest : Program} {older newer : Distances}
    (hfront : resolve front = .ok older) (hrest : resolve rest = .ok newer) :
    ∃ joined, resolve (front ++ rest) = .ok joined ∧
      ∀ id, joined.find? id = (older.merge newer).find? id := by
  have hjoined := resolveStmts_top_append front rest
  obtain ⟨hfrontErrors, rfl⟩ := resolve_eq_ok_iff.mp hfront
  obtain ⟨hrestErrors, rfl⟩ := resolve_eq_ok_iff.mp hrest
  have herrors : (resolveStmts .top (front ++ rest) .start).errors = [] := by
    rw [hjoined.errors, hfrontErrors, hrestErrors, List.append_nil]
  refine ⟨_, resolve_eq_ok_iff.mpr ⟨herrors, rfl⟩, ?_⟩
  intro id
  rw [Distances.find?_merge]
  exact hjoined.distances id

/-- Two programs of any shape, one behind the other, are rejected if and only if
one of them is.  The errors are those of the first one and then those of the
second one; and if there are none, the places have the distances that they have
in the second program, and otherwise in the first one.  For wherever a program
is cut in two, the walk has left all scopes behind the first part, and the kinds
of the enclosing function and class are back to none. -/
theorem resolve_is_compositional (front rest : Program) :
    ((∃ errors, resolve (front ++ rest) = .error errors) ↔
      (∃ errors, resolve front = .error errors) ∨
        ∃ errors, resolve rest = .error errors) ∧
    reported (resolve (front ++ rest)) =
      reported (resolve front) ++ reported (resolve rest) ∧
    (∀ older newer, resolve front = .ok older → resolve rest = .ok newer →
      ∃ joined, resolve (front ++ rest) = .ok joined ∧
        ∀ id, joined.find? id = (older.merge newer).find? id) ∧
    Walker.stmts front .start = ⟨resolveStmts .top front .start, .top⟩ ∧
    (resolveStmts .top front .start).scopes = [] := by
  have hjoined := resolveStmts_top_append front rest
  refine ⟨?_, ?_, fun older newer => resolve_append_of_ok,
    Walker.stmts_eq .top .start front, resolveStmts_top_scopes front⟩
  · rw [resolve_eq_error_iff, resolve_eq_error_iff, resolve_eq_error_iff,
      hjoined.errors, ne_eq, List.append_eq_nil_iff,
      Classical.not_and_iff_not_or_not]
  · rw [reported_resolve, reported_resolve, reported_resolve, hjoined.errors]

-- The walk goes on behind an erroneous class as if there had been none.
example :
    resolve
      ([.classDecl ⟨"A", 1⟩ (some (.read 0 ⟨"A", 1⟩)) []] ++
        [.print (.this 1 2)]) =
      .error [⟨.inheritsFromItself, 1⟩, ⟨.thisOutsideClass, 2⟩] := by
  rfl

/-- A block that reads its own variable. -/
def shallow : Program :=
  [.block [.var ⟨"a", 1⟩ none, .print (.read 0 ⟨"a", 1⟩)]]

/-- A block in a block that reads, in the same place, the variable around it. -/
def deep : Program :=
  [.block [.var ⟨"a", 2⟩ none, .block [.print (.read 0 ⟨"a", 2⟩)]]]

/-- The place has its distance in the later program. -/
theorem overlapping_programs_compose :
    ∃ older newer joined, resolve shallow = .ok older ∧
      resolve deep = .ok newer ∧ resolve (shallow ++ deep) = .ok joined ∧
      older.find? 0 = some 0 ∧ newer.find? 0 = some 1 ∧
      joined.find? 0 = some 1 := by
  obtain ⟨older, holder⟩ : ∃ older, resolve shallow = .ok older := ⟨_, rfl⟩
  obtain ⟨newer, hnewer⟩ : ∃ newer, resolve deep = .ok newer := ⟨_, rfl⟩
  obtain ⟨joined, hjoined, hfind⟩ :=
    (resolve_is_compositional shallow deep).2.2.1 older newer holder hnewer
  cases holder
  cases hnewer
  exact ⟨_, _, joined, rfl, rfl, hjoined, rfl, rfl, hfind 0⟩

end Scope
end LoxLang
