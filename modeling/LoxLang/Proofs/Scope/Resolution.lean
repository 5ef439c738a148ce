import LoxLang.Proofs.Scope.Binding
import LoxLang.Scope.Resolution

/-!
# A walk without errors binds every place

The walk over a program keeps its scopes in step with the text and records a
distance only for the places it passes.  When it reports nothing, and no two
places have the same number, the tree it has walked over is bound.
-/

namespace LoxLang
namespace Scope

namespace Resolution

/-! ## What a walk changes -/

/-- A part of a walk that passes only the given places. -/
structure Passes (ids : List PlaceId) (r next : Resolution) : Prop where
  errors : next.errors = [] → r.errors = []
  distances : ∀ {id}, id ∉ ids →
    next.distances.find? id = r.distances.find? id

namespace Passes

variable {r middle next : Resolution} {ids others : List PlaceId}

protected theorem refl : Passes ids r r :=
  ⟨fun h => h, fun _ => rfl⟩

protected theorem trans
    (hfirst : Passes ids r middle) (hsecond : Passes others middle next) :
    Passes (ids ++ others) r next where
  errors h := hfirst.errors (hsecond.errors h)
  distances {id} hid := by
    have hids : id ∉ ids := fun h => hid (List.mem_append_left _ h)
    have hothers : id ∉ others := fun h => hid (List.mem_append_right _ h)
    rw [hsecond.distances hothers, hfirst.distances hids]

/-- A step behind the last place. -/
theorem before
    (hfirst : Passes ids r middle) (hsecond : Passes [] middle next) :
    Passes ids r next := by
  simpa using hfirst.trans hsecond

theorem report (cause : ScopeError.Cause) (line : Nat) :
    Passes ids r (r.report cause line) :=
  ⟨fun h => by simp [Resolution.report] at h, fun _ => rfl⟩

theorem enter (scope : Bindings Bool) : Passes [] r (r.enter scope) :=
  ⟨fun h => h, fun _ => rfl⟩

theorem leave : Passes [] r r.leave :=
  ⟨fun h => h, fun _ => rfl⟩

theorem declare (name : Ident) : Passes [] r (r.declare name) := by
  unfold Resolution.declare
  split
  · exact .refl
  · split
    · exact .report _ _
    · exact ⟨fun h => h, fun _ => rfl⟩

theorem define (name : Ident) : Passes [] r (r.define name) := by
  unfold Resolution.define
  split
  · exact .refl
  · exact ⟨fun h => h, fun _ => rfl⟩

theorem bind (id : PlaceId) (name : String) :
    Passes [id] r (r.bind id name) := by
  unfold Resolution.bind
  split
  · refine ⟨fun h => h, fun {other} hother => ?_⟩
    have hne : other ≠ id := by simpa using hother
    simp [Distances.find?_record, hne]
  · exact .refl

end Passes

/-- A part of a walk that passes only the given places.  It is made of moves
that depend on nothing but the scopes. -/
inductive Moves : List PlaceId → (Resolution → Resolution) → Prop where
  | stay {ids : List PlaceId} : Moves ids fun r => r
  | report {ids : List PlaceId} (cause : ScopeError.Cause) (line : Nat) :
      Moves ids (·.report cause line)
  | checkRead (name : Ident) :
      Moves [] fun r =>
        if r.inOwnInitializer name.name then
          r.report (.readInOwnInitializer name.name) name.line
        else r
  | enter (scope : Bindings Bool) : Moves [] (·.enter scope)
  | leave : Moves [] (·.leave)
  | declare (name : Ident) : Moves [] (·.declare name)
  | define (name : Ident) : Moves [] (·.define name)
  | bind (id : PlaceId) (name : String) : Moves [id] (·.bind id name)
  | andThen {ids others : List PlaceId} {f g : Resolution → Resolution} :
      Moves ids f → Moves others g → Moves (ids ++ others) fun r => g (f r)

namespace Moves

variable {ids : List PlaceId} {f g : Resolution → Resolution}

/-- A move behind the last place. -/
theorem before (hfirst : Moves ids f) (hsecond : Moves [] g) :
    Moves ids fun r => g (f r) := by
  simpa using hfirst.andThen hsecond

theorem passes (h : Moves ids f) (r : Resolution) : Passes ids r (f r) := by
  induction h generalizing r with
  | stay => exact .refl
  | report cause line => exact .report cause line
  | checkRead name =>
      dsimp only
      split
      · exact .report _ _
      · exact .refl
  | enter scope => exact .enter scope
  | leave => exact .leave
  | declare name => exact .declare name
  | define name => exact .define name
  | bind id name => exact .bind id name
  | andThen _ _ hfirst hsecond => exact (hfirst r).trans (hsecond _)

end Moves
end Resolution

open Resolution (Passes Moves)

mutual

theorem resolveExpr_moves (around : Surroundings) :
    (expr : Expr) → Moves expr.places (resolveExpr around expr)
  | .literal _ => .stay
  | .group inner => resolveExpr_moves around inner
  | .unary _ operand _ => resolveExpr_moves around operand
  | .binary left _ right _ =>
      (resolveExpr_moves around left).andThen (resolveExpr_moves around right)
  | .logical left _ right =>
      (resolveExpr_moves around left).andThen (resolveExpr_moves around right)
  | .read id name => (Moves.checkRead name).andThen (.bind id name.name)
  | .assign id name value =>
      (resolveExpr_moves around value).andThen (.bind id name.name)
  | .call callee _ arguments =>
      (resolveExpr_moves around callee).andThen
        (resolveExprs_moves around arguments)
  | .get object _ => resolveExpr_moves around object
  | .set object _ value =>
      (resolveExpr_moves around object).andThen
        (resolveExpr_moves around value)
  | .this id line => by
      change Moves [id] fun r => resolveExpr around (.this id line) r
      unfold resolveExpr
      cases around.classKind with
      | none => exact .report _ _
      | base => exact .bind id "this"
      | derived => exact .bind id "this"
  | .super id line method => by
      change Moves [id] fun r => resolveExpr around (.super id line method) r
      unfold resolveExpr
      cases around.classKind with
      | none => exact .report _ _
      | base => exact .report _ _
      | derived => exact .bind id "super"

theorem resolveExprs_moves (around : Surroundings) :
    (exprs : List Expr) →
      Moves (Expr.placesAll exprs) (resolveExprs around exprs)
  | [] => .stay
  | expr :: exprs =>
      (resolveExpr_moves around expr).andThen (resolveExprs_moves around exprs)

end

theorem declareParams_moves : (params : List Ident) →
    Moves [] (declareParams params)
  | [] => .stay
  | param :: params =>
      ((Moves.declare param).andThen (.define param)).andThen
        (declareParams_moves params)

theorem checkSuperclass_moves (name : Ident) (superclass : Expr) :
    Moves [] (checkSuperclass name superclass) := by
  cases superclass with
  | read id superName =>
      change Moves [] fun r =>
        if superName.name = name.name then
          r.report .inheritsFromItself superName.line
        else r
      split
      · exact .report _ _
      · exact .stay
  | _ => exact .stay

theorem checkReturn_moves
    (around : Surroundings) (line : Nat) (value : Option Expr) :
    Moves [] (checkReturn around line value) := by
  have hplace :
      Moves [] fun r =>
        if around.function = .none then r.report .returnAtTop line else r := by
    split
    · exact .report _ _
    · exact .stay
  unfold checkReturn
  dsimp only
  split
  · exact hplace.andThen (.report _ _)
  · exact hplace

mutual

theorem resolveStmt_moves (around : Surroundings) :
    (stmt : Stmt) → Moves stmt.places (resolveStmt around stmt)
  | .expression expr => resolveExpr_moves around expr
  | .print expr => resolveExpr_moves around expr
  | .var name none => (Moves.declare name).before (.define name)
  | .var name (some initializer) =>
      ((Moves.declare name).andThen
        (resolveExpr_moves around initializer)).before (.define name)
  | .block body =>
      ((Moves.enter .empty).andThen (resolveStmts_moves around body)).before
        .leave
  | .branch condition yes none =>
      (resolveExpr_moves around condition).andThen
        (resolveStmt_moves around yes)
  | .branch condition yes (some no) =>
      (resolveExpr_moves around condition).andThen
        ((resolveStmt_moves around yes).andThen (resolveStmt_moves around no))
  | .loop condition body =>
      (resolveExpr_moves around condition).andThen
        (resolveStmt_moves around body)
  | .function declaration =>
      ((Moves.declare declaration.name).andThen
        (.define declaration.name)).andThen
        (resolveFunction_moves _ declaration)
  | .ret line none => checkReturn_moves around line none
  | .ret line (some value) =>
      (checkReturn_moves around line (some value)).andThen
        (resolveExpr_moves around value)
  | .classDecl name none methods =>
      ((Moves.declare name).andThen (.define name)).andThen
        (((Moves.enter _).andThen (resolveMethods_moves _ methods)).before
          .leave)
  | .classDecl name (some superclass) methods =>
      (((Moves.declare name).andThen (.define name)).andThen
        (checkSuperclass_moves name superclass)).andThen
        ((resolveExpr_moves _ superclass).andThen
          (((Moves.enter _).andThen (((Moves.enter _).andThen
            (resolveMethods_moves _ methods)).before .leave)).before .leave))

theorem resolveStmts_moves (around : Surroundings) :
    (stmts : List Stmt) →
      Moves (Stmt.placesAll stmts) (resolveStmts around stmts)
  | [] => .stay
  | stmt :: stmts =>
      (resolveStmt_moves around stmt).andThen (resolveStmts_moves around stmts)

theorem resolveFunction_moves (around : Surroundings) :
    (declaration : FunctionDecl) →
      Moves declaration.places (resolveFunction around declaration)
  | ⟨_, params, body⟩ =>
      (((Moves.enter .empty).andThen (declareParams_moves params)).andThen
        (resolveStmts_moves around body)).before .leave

theorem resolveMethods_moves (around : Surroundings) :
    (methods : List FunctionDecl) →
      Moves (FunctionDecl.placesAll methods) (resolveMethods around methods)
  | [] => .stay
  | method :: methods =>
      (resolveFunction_moves _ method).andThen
        (resolveMethods_moves around methods)

end

/-! ## Scopes in step with the text -/

/-- The scopes of a walk hold the names of a stack.  A pending name is the
only one whose declaration is not complete. -/
def Tracks (pending : Option String) : List (Bindings Bool) → Stack → Prop
  | [], [] => pending = none
  | scope :: scopes, names :: stack =>
      (∀ name, scope.find? name =
        if pending = some name then some false
        else if name ∈ names then some true else none) ∧
        Tracks none scopes stack
  | _, _ => False

namespace Tracks

variable {pending : Option String} {scopes : List (Bindings Bool)}
variable {stack : Stack}

theorem has_iff
    {scope : Bindings Bool} {names : List String}
    (h : Tracks pending (scope :: scopes) (names :: stack)) (name : String) :
    scope.has name = true ↔ pending = some name ∨ name ∈ names := by
  rw [Bindings.has, h.1]
  by_cases hpending : pending = some name
  · simp [hpending]
  · by_cases hname : name ∈ names <;> simp [hpending, hname]

/-- Only which names a scope holds is of concern. -/
theorem congr
    {names others : List String}
    (h : Tracks pending scopes (names :: stack))
    (hnames : ∀ name, name ∈ names ↔ name ∈ others) :
    Tracks pending scopes (others :: stack) := by
  cases scopes with
  | nil => cases h
  | cons scope scopes =>
      refine ⟨fun name => ?_, h.2⟩
      simp only [h.1, hnames]

theorem findIdx?_eq
    (h : Tracks pending scopes stack) (name : String) :
    (scopes.findIdx? fun scope => scope.has name) =
      if pending = some name then some 0 else stack.distance? name := by
  induction scopes generalizing pending stack with
  | nil =>
      cases stack with
      | nil =>
          have hpending : pending = none := h
          simp [hpending]
      | cons names stack => cases h
  | cons scope scopes ih =>
      cases stack with
      | nil => cases h
      | cons names stack =>
          have houter := ih h.2
          have hhas := h.has_iff name
          rw [List.findIdx?_cons, Stack.distance?_cons]
          by_cases hpending : pending = some name
          · simp [hhas.mpr (.inl hpending), hpending]
          · by_cases hname : name ∈ names
            · simp [hhas.mpr (.inr hname), hpending, hname]
            · have hnot : ¬ scope.has name = true := by
                simp [hhas, hpending, hname]
              simp only [hnot, hpending, hname, if_false]
              simpa using congrArg (Option.map (· + 1)) houter

theorem inOwnInitializer_iff
    {r : Resolution} (h : Tracks pending r.scopes stack) (name : String) :
    r.inOwnInitializer name = true ↔ pending = some name := by
  unfold Resolution.inOwnInitializer
  cases hscopes : r.scopes with
  | nil =>
      rw [hscopes] at h
      cases stack with
      | nil =>
          have hpending : pending = none := h
          simp [hpending]
      | cons names stack => cases h
  | cons scope scopes =>
      rw [hscopes] at h
      cases stack with
      | nil => cases h
      | cons names stack =>
          simp only [h.1, decide_eq_true_eq]
          by_cases hpending : pending = some name
          · simp [hpending]
          · by_cases hname : name ∈ names <;> simp [hpending, hname]

theorem enter
    {r : Resolution} {scope : Bindings Bool} {names : List String}
    (h : Tracks none r.scopes stack)
    (hscope : ∀ name, scope.find? name =
      if name ∈ names then some true else none) :
    Tracks none (r.enter scope).scopes (names :: stack) :=
  ⟨fun name => by simp [hscope], h⟩

theorem leave
    {r : Resolution} {names : List String}
    (h : Tracks none r.scopes (names :: stack)) :
    Tracks none r.leave.scopes stack := by
  unfold Resolution.leave
  cases hscopes : r.scopes with
  | nil =>
      rw [hscopes] at h
      cases h
  | cons scope scopes =>
      rw [hscopes] at h
      exact h.2

/-- A declaration that is not reported is that of a new name, which is then
pending. -/
theorem declare
    {r : Resolution} {name : Ident} (h : Tracks none r.scopes stack)
    (herrors : (r.declare name).errors = []) :
    stack.Fresh name.name ∧
      Tracks (stack.pending name.name) (r.declare name).scopes stack := by
  unfold Resolution.declare at herrors ⊢
  cases hscopes : r.scopes with
  | nil =>
      rw [hscopes] at h
      simp only [hscopes]
      cases stack with
      | nil => exact ⟨trivial, rfl⟩
      | cons names stack => cases h
  | cons scope scopes =>
      rw [hscopes] at h
      simp only [hscopes] at herrors ⊢
      cases stack with
      | nil => cases h
      | cons names stack =>
          by_cases hhas : scope.has name.name = true
          · simp [hhas, Resolution.report] at herrors
          · have hfresh : name.name ∉ names := by
              intro hname
              exact hhas ((h.has_iff name.name).mpr (.inr hname))
            rw [if_neg hhas]
            refine ⟨hfresh, fun other => ?_, h.2⟩
            rw [Bindings.find?_put, h.1]
            by_cases hother : other = name.name
            · simp [hother, Stack.pending]
            · simp [hother, Stack.pending, Ne.symm hother]

/-- A complete declaration is one of the names of its scope. -/
theorem define
    {r : Resolution} {name : Ident}
    (h : Tracks (stack.pending name.name) r.scopes stack) :
    Tracks none (r.define name).scopes (stack.declare [name.name]) := by
  unfold Resolution.define
  cases hscopes : r.scopes with
  | nil =>
      rw [hscopes] at h
      simp only [hscopes]
      cases stack with
      | nil => rfl
      | cons names stack => cases h
  | cons scope scopes =>
      rw [hscopes] at h
      cases stack with
      | nil => cases h
      | cons names stack =>
          refine ⟨fun other => ?_, h.2⟩
          rw [Bindings.find?_put, h.1]
          by_cases hother : other = name.name
          · simp [hother]
          · simp [hother, Stack.pending, Ne.symm hother]

end Tracks

/-! ## Parts of a walk without errors -/

/-- A part of a walk without errors, in which the places it passes get the
distances of a chart. -/
structure Walked
    (chart : Chart) (ids : List PlaceId) (r next : Resolution) : Prop where
  errors : next.errors = []
  nodup : ids.Nodup
  unseen : ∀ id ∈ ids, r.distances.find? id = none
  recorded : ∀ id ∈ ids, chart.distance id (next.distances.find? id)

namespace Walked

variable {chart : Chart} {ids others : List PlaceId}
variable {r middle next : Resolution}

theorem split
    (h : Walked chart (ids ++ others) r next)
    (hfirst : Passes ids r middle) (hsecond : Passes others middle next) :
    Walked chart ids r middle ∧ Walked chart others middle next := by
  have hnodup := List.nodup_append.mp h.nodup
  constructor
  · refine ⟨hsecond.errors h.errors, hnodup.1, fun id hid => ?_,
      fun id hid => ?_⟩
    · exact h.unseen id (List.mem_append_left _ hid)
    · have hother : id ∉ others := fun hmem => hnodup.2.2 id hid id hmem rfl
      rw [← hsecond.distances hother]
      exact h.recorded id (List.mem_append_left _ hid)
  · refine ⟨h.errors, hnodup.2.1, fun id hid => ?_, fun id hid => ?_⟩
    · have hother : id ∉ ids := fun hmem => hnodup.2.2 id hmem id hid rfl
      rw [hfirst.distances hother]
      exact h.unseen id (List.mem_append_right _ hid)
    · exact h.recorded id (List.mem_append_right _ hid)

/-- The part in front of a step that passes no place. -/
theorem front
    (h : Walked chart ids r next)
    (hfirst : Passes ids r middle) (hsecond : Passes [] middle next) :
    Walked chart ids r middle := by
  have happend : Walked chart (ids ++ []) r next := by
    simpa using h
  exact (happend.split hfirst hsecond).1

/-- The part behind a step that passes no place. -/
theorem back
    (h : Walked chart ids r next)
    (hfirst : Passes [] r middle) (hsecond : Passes ids middle next) :
    Walked chart ids middle next := by
  have happend : Walked chart ([] ++ ids) r next := h
  exact (happend.split hfirst hsecond).2

/-- A bound place has the distance that the scopes give its name. -/
theorem bind
    {id : PlaceId} {name : String} {pending : Option String} {stack : Stack}
    (h : Walked chart [id] r (r.bind id name))
    (htracks : Tracks pending r.scopes stack) :
    chart.distance id
      (if pending = some name then some 0 else stack.distance? name) := by
  have hid : id ∈ [id] := List.mem_singleton.mpr rfl
  have hplace :
      (r.bind id name).distances.find? id =
        r.scopes.findIdx? fun scope => scope.has name := by
    unfold Resolution.bind
    cases hfound : r.scopes.findIdx? fun scope => scope.has name with
    | none => exact h.unseen id hid
    | some distance => simp [Distances.find?_record]
  rw [← htracks.findIdx?_eq name, ← hplace]
  exact h.recorded id hid

end Walked

/-! ## Walks over expressions -/

/-- Inside of a class the scopes hold what its kind promises. -/
structure Surroundings.Fit (around : Surroundings) (stack : Stack) :
    Prop where
  this : around.classKind ≠ .none →
    ∃ distance, stack.distance? "this" = some distance
  super : around.classKind = .derived →
    ∃ distance, stack.distance? "this" = some distance ∧
      stack.distance? "super" = some (distance + 1)

@[simp]
theorem bind_scopes (r : Resolution) (id : PlaceId) (name : String) :
    (r.bind id name).scopes = r.scopes := by
  unfold Resolution.bind
  split <;> rfl

mutual

theorem resolveExpr_scopes (around : Surroundings) (r : Resolution) :
    (expr : Expr) → (resolveExpr around expr r).scopes = r.scopes
  | .literal _ => rfl
  | .group inner => resolveExpr_scopes around r inner
  | .unary _ operand _ => resolveExpr_scopes around r operand
  | .binary left _ right _ =>
      (resolveExpr_scopes around _ right).trans
        (resolveExpr_scopes around r left)
  | .logical left _ right =>
      (resolveExpr_scopes around _ right).trans
        (resolveExpr_scopes around r left)
  | .read id name => by
      simp only [resolveExpr, bind_scopes]
      split <;> rfl
  | .assign id name value => by
      simp only [resolveExpr, bind_scopes]
      exact resolveExpr_scopes around r value
  | .call callee _ arguments =>
      (resolveExprs_scopes around _ arguments).trans
        (resolveExpr_scopes around r callee)
  | .get object _ => resolveExpr_scopes around r object
  | .set object _ value =>
      (resolveExpr_scopes around _ value).trans
        (resolveExpr_scopes around r object)
  | .this id line => by
      unfold resolveExpr
      split
      · rfl
      · exact bind_scopes r id "this"
  | .super id line _ => by
      unfold resolveExpr
      split
      · rfl
      · rfl
      · exact bind_scopes r id "super"

theorem resolveExprs_scopes (around : Surroundings) (r : Resolution) :
    (exprs : List Expr) → (resolveExprs around exprs r).scopes = r.scopes
  | [] => rfl
  | expr :: exprs =>
      (resolveExprs_scopes around _ exprs).trans
        (resolveExpr_scopes around r expr)

end

section
variable {around : Surroundings} {stack : Stack} {pending : Option String}
variable {chart : Chart}

theorem bound_read
    {r : Resolution} {id : PlaceId} {name : Ident}
    (htracks : Tracks pending r.scopes stack)
    (h : Walked chart [id] r (resolveExpr around (.read id name) r)) :
    (Expr.read id name).Bound chart stack pending := by
  by_cases hown : r.inOwnInitializer name.name = true
  · -- The report of the read is never taken back.
    have hreport :
        (r.report (.readInOwnInitializer name.name) name.line).errors = [] := by
      apply (Passes.bind id name.name).errors
      simpa [resolveExpr, hown] using h.errors
    simp [Resolution.report] at hreport
  · have hpending : pending ≠ some name.name := fun hpending =>
      hown ((htracks.inOwnInitializer_iff name.name).mpr hpending)
    have hbind : Walked chart [id] r (r.bind id name.name) := by
      simpa [resolveExpr, hown] using h
    have hplace := hbind.bind htracks
    rw [if_neg hpending] at hplace
    exact ⟨hpending, hplace⟩

theorem bound_this
    {r : Resolution} {id : PlaceId} {line : Nat} (haround : around.Fit stack)
    (hordinary : ∀ name, pending = some name → Ordinary name)
    (htracks : Tracks pending r.scopes stack)
    (h : Walked chart [id] r (resolveExpr around (.this id line) r)) :
    (Expr.this id line).Bound chart stack pending := by
  by_cases hkind : around.classKind = .none
  · have herrors := h.errors
    simp [resolveExpr, hkind, Resolution.report] at herrors
  · have hbind : Walked chart [id] r (r.bind id "this") := by
      rw [resolveExpr] at h
      cases hclass : around.classKind with
      | none => exact absurd hclass hkind
      | base => simpa [hclass] using h
      | derived => simpa [hclass] using h
    have hpending : pending ≠ some "this" := fun hname =>
      (hordinary "this" hname).1 rfl
    obtain ⟨distance, hdistance⟩ := haround.this hkind
    have hplace := hbind.bind htracks
    rw [if_neg hpending, hdistance] at hplace
    exact ⟨distance, hdistance, hplace⟩

theorem bound_super
    {r : Resolution} {id : PlaceId} {line : Nat} {method : Ident}
    (haround : around.Fit stack)
    (hordinary : ∀ name, pending = some name → Ordinary name)
    (htracks : Tracks pending r.scopes stack)
    (h : Walked chart [id] r
      (resolveExpr around (.super id line method) r)) :
    (Expr.super id line method).Bound chart stack
      pending := by
  cases hkind : around.classKind with
  | none =>
      have herrors := h.errors
      simp [resolveExpr, hkind, Resolution.report] at herrors
  | base =>
      have herrors := h.errors
      simp [resolveExpr, hkind, Resolution.report] at herrors
  | derived =>
      have hbind : Walked chart [id] r (r.bind id "super") := by
        simpa [resolveExpr, hkind] using h
      have hpending : pending ≠ some "super" := fun hname =>
        (hordinary "super" hname).2 rfl
      obtain ⟨distance, hthis, hsuper⟩ := haround.super hkind
      have hplace := hbind.bind htracks
      rw [if_neg hpending, hsuper] at hplace
      exact ⟨distance, hthis, hsuper, hplace⟩

/-- A walk over an expression and what stands behind it. -/
theorem walked_behind
    {first : Expr} {ids : List PlaceId} {f : Resolution → Resolution}
    {r : Resolution} (hrest : Moves ids f)
    (htracks : Tracks pending r.scopes stack)
    (h : Walked chart (first.places ++ ids) r
      (f (resolveExpr around first r))) :
    Walked chart first.places r (resolveExpr around first r) ∧
      Tracks pending (resolveExpr around first r).scopes stack ∧
      Walked chart ids (resolveExpr around first r)
        (f (resolveExpr around first r)) := by
  have hparts := h.split ((resolveExpr_moves around first).passes r)
    (hrest.passes _)
  exact ⟨hparts.1, resolveExpr_scopes around r first ▸ htracks, hparts.2⟩

/-- A walk without errors over a part of an expression, from scopes that are in
step with the text. -/
structure Passage
    (chart : Chart) (stack : Stack) (pending : Option String)
    (ids : List PlaceId) (assignments : String → List Expr)
    (r next : Resolution) : Prop where
  tracks : Tracks pending r.scopes stack
  walked : Walked chart ids r next
  allowed : ∀ name, pending = some name → chart.Allows (assignments name)

theorem Passage.parts
    {first : Expr} {ids : List PlaceId} {assignments : String → List Expr}
    {f : Resolution → Resolution} {r : Resolution} (hrest : Moves ids f)
    (h : Passage chart stack pending (first.places ++ ids)
      (fun name => first.assignmentsTo name ++ assignments name) r
      (f (resolveExpr around first r))) :
    Passage chart stack pending first.places (first.assignmentsTo ·) r
        (resolveExpr around first r) ∧
      Passage chart stack pending ids assignments
        (resolveExpr around first r) (f (resolveExpr around first r)) := by
  obtain ⟨hfirst, hmiddle, hsecond⟩ := walked_behind hrest h.tracks h.walked
  have hallows := fun name hname =>
    Chart.allows_append.mp (h.allowed name hname)
  exact ⟨⟨h.tracks, hfirst, fun name hname => (hallows name hname).1⟩,
    hmiddle, hsecond, fun name hname => (hallows name hname).2⟩

private theorem bound_assign
    {r : Resolution} {id : PlaceId} {name : Ident} {value : Expr}
    (h : Passage chart stack pending [id]
      (fun other => if name.name = other then [.assign id name value] else [])
      r (r.bind id name.name)) :
    if pending = some name.name then
      chart.distance id (some 0) ∧ chart.mayAssign (.assign id name value)
    else chart.distance id (stack.distance? name.name) := by
  have hplace := h.walked.bind h.tracks
  by_cases hpending : pending = some name.name
  · rw [if_pos hpending] at hplace ⊢
    have hself := h.allowed name.name hpending
    rw [if_pos rfl] at hself
    exact ⟨hplace, hself _ (List.mem_singleton.mpr rfl)⟩
  · rw [if_neg hpending] at hplace ⊢
    exact hplace

mutual

theorem resolveExpr_bound (haround : around.Fit stack)
    (hordinary : ∀ name, pending = some name → Ordinary name) :
    (expr : Expr) → ∀ {r : Resolution},
      Passage chart stack pending expr.places (expr.assignmentsTo ·) r
        (resolveExpr around expr r) →
      expr.Shaped → expr.Bound chart stack pending
  | .literal _, _, _, _ => trivial
  | .group inner, _, h, hshaped =>
      resolveExpr_bound haround hordinary inner h hshaped
  | .unary _ operand _, _, h, hshaped =>
      resolveExpr_bound haround hordinary operand h hshaped
  | .binary left _ right _, _, h, hshaped =>
      have hparts := Passage.parts (resolveExpr_moves around right) h
      ⟨resolveExpr_bound haround hordinary left hparts.1 hshaped.1,
        resolveExpr_bound haround hordinary right hparts.2 hshaped.2⟩
  | .logical left _ right, _, h, hshaped =>
      have hparts := Passage.parts (resolveExpr_moves around right) h
      ⟨resolveExpr_bound haround hordinary left hparts.1 hshaped.1,
        resolveExpr_bound haround hordinary right hparts.2 hshaped.2⟩
  | .read _ _, _, h, _ => bound_read h.tracks h.walked
  | .assign id name value, _, h, hshaped =>
      have hparts := Passage.parts (.bind id name.name) h
      ⟨resolveExpr_bound haround hordinary value hparts.1 hshaped.2, hshaped.1,
        bound_assign hparts.2⟩
  | .call callee _ arguments, _, h, hshaped =>
      have hparts := Passage.parts (resolveExprs_moves around arguments) h
      ⟨resolveExpr_bound haround hordinary callee hparts.1 hshaped.1,
        resolveExprs_bound haround hordinary arguments hparts.2 hshaped.2⟩
  | .get object _, _, h, hshaped =>
      resolveExpr_bound haround hordinary object h hshaped
  | .set object _ value, _, h, hshaped =>
      have hparts := Passage.parts (resolveExpr_moves around value) h
      ⟨resolveExpr_bound haround hordinary object hparts.1 hshaped.1,
        resolveExpr_bound haround hordinary value hparts.2 hshaped.2⟩
  | .this _ _, _, h, _ => bound_this haround hordinary h.tracks h.walked
  | .super _ _ _, _, h, _ => bound_super haround hordinary h.tracks h.walked

theorem resolveExprs_bound (haround : around.Fit stack)
    (hordinary : ∀ name, pending = some name → Ordinary name) :
    (exprs : List Expr) → ∀ {r : Resolution},
      Passage chart stack pending (Expr.placesAll exprs)
        (Expr.assignmentsToAll · exprs) r (resolveExprs around exprs r) →
      Expr.ShapedAll exprs → Expr.BoundAll chart stack pending exprs
  | [], _, _, _ => trivial
  | expr :: exprs, _, h, hshaped =>
      have hparts := Passage.parts (resolveExprs_moves around exprs) h
      ⟨resolveExpr_bound haround hordinary expr hparts.1 hshaped.1,
        resolveExprs_bound haround hordinary exprs hparts.2 hshaped.2⟩

end

/-- No name is pending outside of initializers. -/
theorem resolveExpr_bound_none
    {r : Resolution} {expr : Expr} (haround : around.Fit stack)
    (htracks : Tracks none r.scopes stack)
    (h : Walked chart expr.places r (resolveExpr around expr r))
    (hshaped : expr.Shaped) :
    expr.Bound chart stack none :=
  resolveExpr_bound haround (by simp) expr ⟨htracks, h, by simp⟩ hshaped

end

/-! ## Walks over statements -/

namespace Surroundings.Fit

variable {around : Surroundings} {stack : Stack}

theorem inFunction (h : around.Fit stack) (kind : FunctionKind) :
    Surroundings.Fit { around with function := kind } stack :=
  ⟨h.this, h.super⟩

theorem enter
    {names : List String} (h : around.Fit stack)
    (hnames : ∀ name ∈ names, Ordinary name) : around.Fit (names :: stack) where
  this hkind := by
    have hthis : "this" ∉ names := fun hmem => (hnames _ hmem).1 rfl
    obtain ⟨distance, hdistance⟩ := h.this hkind
    exact ⟨distance + 1, by simp [Stack.distance?_cons, hthis, hdistance]⟩
  super hkind := by
    have hthis : "this" ∉ names := fun hmem => (hnames _ hmem).1 rfl
    have hsuper : "super" ∉ names := fun hmem => (hnames _ hmem).2 rfl
    obtain ⟨distance, hdistance, hdistance'⟩ := h.super hkind
    exact ⟨distance + 1,
      by simp [Stack.distance?_cons, hthis, hdistance],
      by simp [Stack.distance?_cons, hsuper, hdistance']⟩

theorem declare
    {names : List String} (h : around.Fit stack)
    (hnames : ∀ name ∈ names, Ordinary name) :
    around.Fit (stack.declare names) := by
  have hthis : "this" ∉ names := fun hmem => (hnames _ hmem).1 rfl
  have hsuper : "super" ∉ names := fun hmem => (hnames _ hmem).2 rfl
  constructor
  · rw [Stack.distance?_declare _ hthis]
    exact h.this
  · rw [Stack.distance?_declare _ hthis, Stack.distance?_declare _ hsuper]
    exact h.super

theorem base (around : Surroundings) (stack : Stack) :
    Surroundings.Fit { around with classKind := .base }
      (["this"] :: stack) where
  this _ := ⟨0, by simp [Stack.distance?_cons]⟩
  super hkind := by simp at hkind

theorem derived (around : Surroundings) (stack : Stack) :
    Surroundings.Fit { around with classKind := .derived }
      (["this"] :: ["super"] :: stack) where
  this _ := ⟨0, by simp [Stack.distance?_cons]⟩
  super _ :=
    ⟨0, by simp [Stack.distance?_cons], by simp [Stack.distance?_cons]⟩

end Surroundings.Fit

/-- The scope of one name that the language itself gives a meaning. -/
theorem find?_single (word name : String) :
    ((Bindings.empty : Bindings Bool).put word true).find? name =
      if name ∈ [word] then some true else none := by
  by_cases h : name = word <;> simp [Bindings.find?_put, h]

/-- A new name is declared, and its declaration is complete. -/
theorem Tracks.declareDefine
    {r : Resolution} {stack : Stack} {name : Ident}
    (h : Tracks none r.scopes stack)
    (herrors : (r.declare name).errors = []) :
    stack.Fresh name.name ∧
      Tracks none ((r.declare name).define name).scopes
        (stack.declare [name.name]) :=
  ⟨(h.declare herrors).1, (h.declare herrors).2.define⟩

theorem Tracks.declare_append
    {scopes : List (Bindings Bool)} {stack : Stack} {names others : List String}
    (h : Tracks none scopes ((stack.declare names).declare others)) :
    Tracks none scopes (stack.declare (names ++ others)) := by
  cases stack with
  | nil => exact h
  | cons scope outer =>
      refine h.congr fun name => ?_
      simp only [List.mem_append]
      grind

theorem isEmpty_declare (stack : Stack) (names : List String) :
    (stack.declare names).isEmpty = stack.isEmpty := by
  cases stack <;> rfl

/-- Parameters that are not reported are different from each other and from
the names before them. -/
theorem declareParams_tracks
    {params : List Ident} {r : Resolution} {names : List String}
    {stack : Stack} (h : Tracks none r.scopes (names :: stack))
    (herrors : (declareParams params r).errors = []) :
    (params.map Ident.name).Nodup ∧
      (∀ param ∈ params, param.name ∉ names) ∧
      Tracks none (declareParams params r).scopes
        ((params.map Ident.name ++ names) :: stack) := by
  induction params generalizing r names with
  | nil => exact ⟨.nil, by simp, h⟩
  | cons param params ih =>
      have hdeclare : (r.declare param).errors = [] :=
        (((Moves.define param).andThen (declareParams_moves params)).passes
          _).errors herrors
      have hfirst := h.declareDefine hdeclare
      obtain ⟨hnodup, hothers, htracks⟩ := ih hfirst.2 herrors
      have hparam : param.name ∉ params.map Ident.name := by
        intro hmem
        obtain ⟨other, hother, hname⟩ := List.mem_map.mp hmem
        exact hothers other hother (by simp [hname])
      refine ⟨List.nodup_cons.mpr ⟨hparam, hnodup⟩, ?_, ?_⟩
      · intro other hother
        cases hother with
        | head => exact hfirst.1
        | tail _ hother =>
            exact fun hmem =>
              hothers other hother (List.mem_append_right _ hmem)
      · exact htracks.congr fun name => by
          simp only [List.map_cons, List.cons_append, List.nil_append,
            List.mem_append, List.mem_cons]
          grind

theorem checkReturn_scopes
    (around : Surroundings) (line : Nat) (value : Option Expr)
    (r : Resolution) : (checkReturn around line value r).scopes = r.scopes := by
  unfold checkReturn
  dsimp only
  split <;> split <;> rfl

theorem function_ne_none_of_checkReturn
    {around : Surroundings} {line : Nat} {value : Option Expr}
    {r : Resolution} (h : (checkReturn around line value r).errors = []) :
    around.function ≠ .none := by
  intro hnone
  simp [checkReturn, hnone, Resolution.report] at h

theorem checkSuperclass_scopes
    (name : Ident) (superclass : Expr) (r : Resolution) :
    (checkSuperclass name superclass r).scopes = r.scopes := by
  unfold checkSuperclass
  split
  · split <;> rfl
  · rfl

section
variable {chart : Chart}

/-! ### Classes -/

section
variable {around : Surroundings} {stack : Stack} {inFunction : Bool}
variable {name : Ident} {methods : List FunctionDecl} {r : Resolution}

/-- Methods are bound wherever a walk without errors passes them. -/
def MethodsBound
    (chart : Chart) (inside : Surroundings) (stack : Stack)
    (methods : List FunctionDecl) : Prop :=
  ∀ {r : Resolution}, Tracks none r.scopes stack →
    Walked chart (FunctionDecl.placesAll methods) r
      (resolveMethods inside methods r) →
    FunctionDecl.BoundAll chart stack methods ∧
      Tracks none (resolveMethods inside methods r).scopes stack

private theorem resolveBody_moves (inside : Surroundings)
    (methods : List FunctionDecl) :
    Moves (FunctionDecl.placesAll methods) fun r =>
      (resolveMethods inside methods
        (r.enter (Bindings.empty.put "this" true))).leave :=
  ((Moves.enter _).andThen (resolveMethods_moves inside methods)).before .leave

/-- The methods of a class, in the scope of `this`. -/
theorem bound_body
    {inside : Surroundings}
    (hmethods : MethodsBound chart inside (["this"] :: stack) methods)
    (htracks : Tracks none r.scopes stack)
    (h : Walked chart (FunctionDecl.placesAll methods) r
      (resolveMethods inside methods
        (r.enter (Bindings.empty.put "this" true))).leave) :
    FunctionDecl.BoundAll chart (["this"] :: stack) methods ∧
      Tracks none (resolveMethods inside methods
        (r.enter (Bindings.empty.put "this" true))).leave.scopes stack := by
  have hwalk := (resolveMethods_moves inside methods).passes
    (r.enter (Bindings.empty.put "this" true))
  have hinside :=
    (h.back (.enter _) (hwalk.before .leave)).front hwalk .leave
  have hbound := hmethods (htracks.enter (find?_single "this")) hinside
  exact ⟨hbound.1, hbound.2.leave⟩

private theorem bound_class
    (hmethods : MethodsBound chart { around with classKind := .base }
      (["this"] :: stack.declare [name.name]) methods)
    (htracks : Tracks none r.scopes stack)
    (h : Walked chart (Stmt.classDecl name none methods).places r
      (resolveStmt around (.classDecl name none methods) r))
    (hordinary : Ordinary name.name) :
    (Stmt.classDecl name none methods).Bound chart inFunction stack ∧
      Tracks none (resolveStmt around (.classDecl name none methods) r).scopes
        (stack.declare [name.name]) := by
  have hbody := (resolveBody_moves { around with classKind := .base }
    methods).passes ((r.declare name).define name)
  have hnew := htracks.declareDefine
    ((Passes.define name).errors (hbody.errors h.errors))
  have hbound := bound_body hmethods hnew.2
    (h.back ((Passes.declare name).trans (.define name)) hbody)
  exact ⟨⟨⟨hordinary, hnew.1⟩, hbound.1⟩, hbound.2⟩

/-- The scope of `super` stands between the class and the scope of `this`. -/
theorem bound_derived
    {id : PlaceId} {superName : Ident}
    (hmethods : MethodsBound chart { around with classKind := .derived }
      (["this"] :: ["super"] :: stack.declare [name.name]) methods)
    (htracks : Tracks none r.scopes stack)
    (h : Walked chart
      (Stmt.classDecl name (some (.read id superName)) methods).places r
      (resolveStmt around
        (.classDecl name (some (.read id superName)) methods) r))
    (hordinary : Ordinary name.name) :
    (Stmt.classDecl name (some (.read id superName)) methods).Bound chart
        inFunction stack ∧
      Tracks none (resolveStmt around
        (.classDecl name (some (.read id superName)) methods) r).scopes
        (stack.declare [name.name]) := by
  let inside : Surroundings := { around with classKind := .derived }
  let r₁ := (r.declare name).define name
  let r₂ := checkSuperclass name (.read id superName) r₁
  let r₃ := resolveExpr inside (.read id superName) r₂
  have hcheck : Passes [] r₁ r₂ := (checkSuperclass_moves name _).passes r₁
  have hsuper : Passes [id] r₂ r₃ :=
    (resolveExpr_moves inside (.read id superName)).passes r₂
  have hbody := (resolveBody_moves inside methods).passes
    (r₃.enter (Bindings.empty.put "super" true))
  have hbehind := (Passes.enter (Bindings.empty.put "super" true)).trans
    (hbody.before .leave)
  have hparts := (h.back (((Passes.declare name).trans (.define name)).trans
    hcheck) (hsuper.trans hbehind)).split hsuper hbehind
  have hinside := (hparts.2.back (.enter _) (hbody.before .leave)).front hbody
    .leave
  have hnew := htracks.declareDefine ((Passes.define name).errors
    (hcheck.errors (hsuper.errors hparts.1.errors)))
  have hnamed : Tracks none r₂.scopes (stack.declare [name.name]) :=
    checkSuperclass_scopes name _ r₁ ▸ hnew.2
  have hscopes : Tracks none r₃.scopes (stack.declare [name.name]) :=
    resolveExpr_scopes inside r₂ _ ▸ hnamed
  have hbound := bound_body hmethods (hscopes.enter (find?_single "super"))
    hinside
  exact ⟨⟨⟨hordinary, hnew.1⟩, bound_read hnamed hparts.1, hbound.1⟩,
    hbound.2.leave⟩

end

/-! ### All statements -/

mutual

theorem resolveStmt_bound
    {around : Surroundings} {inFunction : Bool} {stack : Stack}
    (haround : around.Fit stack)
    (hfunction : around.function ≠ .none → inFunction = true) :
    (stmt : Stmt) → ∀ {r : Resolution}, Tracks none r.scopes stack →
      Walked chart stmt.places r (resolveStmt around stmt r) →
      stmt.Shaped →
      chart.Allows (stmt.selfAssignments (!stack.isEmpty)) →
      stmt.Bound chart inFunction stack ∧
        Tracks none (resolveStmt around stmt r).scopes
          (stack.declare stmt.declares)
  | .expression expr, r, htracks, h, hshaped, _ => by
      refine ⟨resolveExpr_bound_none haround htracks h hshaped, ?_⟩
      simpa [resolveStmt, resolveExpr_scopes, Stmt.declares] using htracks
  | .print expr, r, htracks, h, hshaped, _ => by
      refine ⟨resolveExpr_bound_none haround htracks h hshaped, ?_⟩
      simpa [resolveStmt, resolveExpr_scopes, Stmt.declares] using htracks
  | .var name none, r, htracks, h, hshaped, _ => by
      have hdeclare : (r.declare name).errors = [] :=
        (Passes.define name).errors h.errors
      have hnew := htracks.declareDefine hdeclare
      exact ⟨⟨hshaped, hnew.1⟩, hnew.2⟩
  | .var name (some initializer), r, htracks, h, hshaped, hallowed => by
      have hwalk := (resolveExpr_moves around initializer).passes
        (r.declare name)
      have hback := h.back (.declare name) (hwalk.before (.define name))
      have hinitializer := hback.front hwalk (.define name)
      have hnew := htracks.declare (hwalk.errors hinitializer.errors)
      have hpending : ∀ other, stack.pending name.name = some other →
          other = name.name ∧ stack.isEmpty = false := by
        intro other hother
        cases stack with
        | nil => cases hother
        | cons scope outer => exact ⟨(Option.some.inj hother).symm, rfl⟩
      refine ⟨⟨⟨hshaped.1, hnew.1⟩, ?_⟩, ?_⟩
      · refine resolveExpr_bound haround ?_ initializer
          ⟨hnew.2, hinitializer, ?_⟩ hshaped.2
        · intro other hother
          exact (hpending other hother).1 ▸ hshaped.1
        · intro other hother
          simpa [Stmt.selfAssignments, (hpending other hother).1,
            (hpending other hother).2] using hallowed
      · apply Tracks.define
        rw [resolveOption, resolveExpr_scopes]
        exact hnew.2
  | .block body, r, htracks, h, hshaped, hallowed => by
      have hwalk := (resolveStmts_moves around body).passes (r.enter .empty)
      have hbody :=
        (h.back (.enter _) (hwalk.before .leave)).front hwalk .leave
      have hscope : Tracks none (r.enter .empty).scopes ([] :: stack) :=
        htracks.enter (by simp)
      have hstmts := resolveStmts_bound hfunction body
        (haround.enter (by simp)) hscope hbody hshaped hallowed
      exact ⟨hstmts.1,
        by simpa [resolveStmt, Stmt.declares] using hstmts.2.leave⟩
  | .branch condition yes none, r, htracks, h, hshaped, hallowed => by
      have hparts := walked_behind (resolveStmt_moves around yes) htracks h
      have hcondition : condition.Bound chart stack none :=
        resolveExpr_bound_none haround htracks hparts.1 hshaped.1
      have hyes := resolveStmt_bound haround hfunction yes hparts.2.1
        hparts.2.2 hshaped.2.1 hallowed
      exact ⟨⟨hcondition, hyes.1, hshaped.2.2⟩, hyes.2⟩
  | .branch condition yes (some no), r, htracks, h, hshaped, hallowed => by
      have hyesMoves := resolveStmt_moves around yes
      have hnoMoves := resolveStmt_moves around no
      have hparts := walked_behind (hyesMoves.andThen hnoMoves) htracks h
      have hbranches := hparts.2.2.split (hyesMoves.passes _)
        (hnoMoves.passes _)
      have hallows := Chart.allows_append.mp hallowed
      have hcondition : condition.Bound chart stack none :=
        resolveExpr_bound_none haround htracks hparts.1 hshaped.1
      have hyes := resolveStmt_bound haround hfunction yes hparts.2.1
        hbranches.1 hshaped.2.1.1 hallows.1
      rw [hshaped.2.1.2, Stack.declare_nil_names] at hyes
      have hno := resolveStmt_bound haround hfunction no hyes.2 hbranches.2
        hshaped.2.2.1 hallows.2
      refine ⟨⟨hcondition, ⟨hyes.1, hshaped.2.1.2⟩, hno.1, hshaped.2.2.2⟩, ?_⟩
      rw [Stmt.declares, hshaped.2.1.2]
      exact hno.2
  | .loop condition body, r, htracks, h, hshaped, hallowed => by
      have hparts := walked_behind (resolveStmt_moves around body) htracks h
      have hcondition : condition.Bound chart stack none :=
        resolveExpr_bound_none haround htracks hparts.1 hshaped.1
      have hbody := resolveStmt_bound haround hfunction body hparts.2.1
        hparts.2.2 hshaped.2.1 hallowed
      exact ⟨⟨hcondition, hbody.1, hshaped.2.2⟩, hbody.2⟩
  | .function declaration, r, htracks, h, hshaped, hallowed => by
      have hwalk := (resolveFunction_moves
        { around with function := .function } declaration).passes
        ((r.declare declaration.name).define declaration.name)
      have hbody := h.back
        ((Passes.declare declaration.name).trans (.define declaration.name))
        hwalk
      have hnew := htracks.declareDefine
        ((Passes.define declaration.name).errors (hwalk.errors h.errors))
      have hordinary : ∀ name ∈ [declaration.name.name], Ordinary name := by
        simpa using hshaped.1
      have hfit := (haround.inFunction .function).declare hordinary
      have hdeclaration := resolveFunction_bound hfit declaration hnew.2
        hbody hshaped.2 hallowed
      exact ⟨⟨⟨hshaped.1, hnew.1⟩, hdeclaration.1⟩, hdeclaration.2⟩
  | .ret line none, r, htracks, h, _, _ => by
      have hreturn := hfunction (function_ne_none_of_checkReturn h.errors)
      refine ⟨hreturn, ?_⟩
      simpa [resolveStmt, resolveOption, checkReturn_scopes, Stmt.declares]
        using htracks
  | .ret line (some value), r, htracks, h, hshaped, _ => by
      have hcheck := (checkReturn_moves around line (some value)).passes r
      have hwalk := (resolveExpr_moves around value).passes
        (checkReturn around line (some value) r)
      have hreturn := hfunction
        (function_ne_none_of_checkReturn (hwalk.errors h.errors))
      have hscopes :
          Tracks none (checkReturn around line (some value) r).scopes stack :=
        checkReturn_scopes around line (some value) r ▸ htracks
      refine ⟨⟨hreturn, resolveExpr_bound_none haround hscopes
        (h.back hcheck hwalk) hshaped⟩, ?_⟩
      simpa [resolveStmt, resolveOption, resolveExpr_scopes, Stmt.declares]
        using hscopes
  | .classDecl name none methods, r, htracks, h, hshaped, hallowed =>
      bound_class (fun hscopes hwalked => resolveMethods_bound (.base around _)
        methods hscopes hwalked hshaped.2 hallowed) htracks h hshaped.1
  | .classDecl name (some superclass) methods, r, htracks, h, hshaped,
      hallowed => by
      obtain ⟨id, superName, rfl⟩ := hshaped.2.1
      exact bound_derived (fun hscopes hwalked => resolveMethods_bound
        (.derived around _) methods hscopes hwalked hshaped.2.2 hallowed)
        htracks h hshaped.1

theorem resolveStmts_bound
    {around : Surroundings} {inFunction : Bool}
    (hfunction : around.function ≠ .none → inFunction = true) :
    (stmts : List Stmt) → ∀ {stack : Stack} {r : Resolution},
      around.Fit stack → Tracks none r.scopes stack →
      Walked chart (Stmt.placesAll stmts) r
        (resolveStmts around stmts r) →
      Stmt.ShapedAll stmts →
      chart.Allows (Stmt.selfAssignmentsAll (!stack.isEmpty) stmts) →
      Stmt.BoundAll chart inFunction stack stmts ∧
        Tracks none (resolveStmts around stmts r).scopes
          (stack.declare (stmts.flatMap Stmt.declares))
  | [], stack, r, _, htracks, _, _, _ => by
      refine ⟨trivial, ?_⟩
      simpa [resolveStmts] using htracks
  | stmt :: stmts, stack, r, haround, htracks, h, hshaped, hallowed => by
      have hparts := h.split ((resolveStmt_moves around stmt).passes r)
        ((resolveStmts_moves around stmts).passes _)
      have hallows := Chart.allows_append.mp hallowed
      have hfirst := resolveStmt_bound haround hfunction stmt htracks
        hparts.1 hshaped.1 hallows.1
      have hrest := resolveStmts_bound hfunction stmts
        (haround.declare hshaped.1.ordinary) hfirst.2 hparts.2 hshaped.2
        (by simpa [isEmpty_declare] using hallows.2)
      exact ⟨⟨hfirst.1, hrest.1⟩, hrest.2.declare_append⟩

theorem resolveFunction_bound
    {around : Surroundings} {stack : Stack} (haround : around.Fit stack) :
    (declaration : FunctionDecl) → ∀ {r : Resolution},
      Tracks none r.scopes stack →
      Walked chart declaration.places r
        (resolveFunction around declaration r) →
      declaration.Shaped → chart.Allows declaration.selfAssignments →
      declaration.Bound chart stack ∧
        Tracks none (resolveFunction around declaration r).scopes stack
  | ⟨name, params, body⟩, r, htracks, h, hshaped, hallowed => by
      have hdeclare := (declareParams_moves params).passes (r.enter .empty)
      have hwalk := (resolveStmts_moves around body).passes
        (declareParams params (r.enter .empty))
      have hbody := (h.back ((Passes.enter _).trans hdeclare)
        (hwalk.before .leave)).front hwalk .leave
      have hscope : Tracks none (r.enter .empty).scopes ([] :: stack) :=
        htracks.enter (by simp)
      have hparams := declareParams_tracks hscope
        (hwalk.errors hbody.errors)
      rw [List.append_nil] at hparams
      have hordinary : ∀ param ∈ params.map Ident.name, Ordinary param := by
        simpa using hshaped.1
      have hstmts := resolveStmts_bound (fun _ => rfl) body
        (haround.enter hordinary) hparams.2.2 hbody hshaped.2 hallowed
      exact ⟨⟨hparams.1, hshaped.1, hstmts.1⟩, hstmts.2.leave⟩

theorem resolveMethods_bound
    {around : Surroundings} {stack : Stack} (haround : around.Fit stack) :
    (methods : List FunctionDecl) → ∀ {r : Resolution},
      Tracks none r.scopes stack →
      Walked chart (FunctionDecl.placesAll methods) r
        (resolveMethods around methods r) →
      FunctionDecl.ShapedAll methods →
      chart.Allows (FunctionDecl.selfAssignmentsAll methods) →
      FunctionDecl.BoundAll chart stack methods ∧
        Tracks none (resolveMethods around methods r).scopes stack
  | [], r, htracks, _, _, _ => ⟨trivial, htracks⟩
  | method :: methods, r, htracks, h, hshaped, hallowed => by
      have hparts := h.split ((resolveFunction_moves _ method).passes r)
        ((resolveMethods_moves around methods).passes _)
      have hallows := Chart.allows_append.mp hallowed
      have hfirst := resolveFunction_bound
        (haround.inFunction (methodKind method.name.name))
        method htracks hparts.1 hshaped.1 hallows.1
      have hrest := resolveMethods_bound haround methods hfirst.2 hparts.2
        hshaped.2 hallows.2
      exact ⟨⟨hfirst.1, hrest.1⟩, hrest.2⟩

end

/-- The walk over a program without errors binds it in every chart that has
the recorded distances of its places, and comes back to the top level. -/
theorem resolve_walked
    {program : Program} {distances : Distances}
    (hresolve : resolve program = .ok distances)
    (hshaped : Stmt.ShapedAll program)
    (hnodup : (Stmt.placesAll program).Nodup)
    (hchart : ∀ id ∈ Stmt.placesAll program,
      chart.distance id (distances.find? id))
    (hallowed : chart.Allows program.selfAssignments) :
    Stmt.BoundAll chart false [] program ∧
      Tracks none (resolveStmts .top program .start).scopes [] := by
  have hwalked :
      Walked chart (Stmt.placesAll program) .start
        (resolveStmts .top program .start) := by
    unfold resolve at hresolve
    cases herrors : (resolveStmts .top program .start).errors with
    | cons e errors => simp [herrors] at hresolve
    | nil =>
        simp only [herrors, Except.ok.injEq] at hresolve
        refine ⟨herrors, hnodup, fun id _ => Distances.find?_empty id, ?_⟩
        rw [hresolve]
        exact hchart
  have htop : Surroundings.top.Fit [] :=
    ⟨fun h => absurd rfl h, fun h => by simp [Surroundings.top] at h⟩
  have hstart : Tracks none Resolution.start.scopes [] := rfl
  have hfunction : Surroundings.top.function ≠ .none → false = true :=
    fun h => absurd rfl h
  exact resolveStmts_bound hfunction program htop hstart hwalked hshaped
    hallowed

/-- A program without errors is bound by every chart that has the recorded
distances of its places. -/
theorem resolve_bound
    {program : Program} {distances : Distances}
    (hresolve : resolve program = .ok distances)
    (hshaped : Stmt.ShapedAll program)
    (hnodup : (Stmt.placesAll program).Nodup)
    (hchart : ∀ id ∈ Stmt.placesAll program,
      chart.distance id (distances.find? id))
    (hallowed : chart.Allows program.selfAssignments) :
    Stmt.BoundAll chart false [] program :=
  (resolve_walked hresolve hshaped hnodup hchart hallowed).1

end

/-- A walk records distances for the places of the program only. -/
theorem resolve_find?
    {program : Program} {distances : Distances} {id : PlaceId}
    (hresolve : resolve program = .ok distances)
    (hid : id ∉ Stmt.placesAll program) : distances.find? id = none := by
  unfold resolve at hresolve
  cases herrors : (resolveStmts .top program .start).errors with
  | cons e errors => simp [herrors] at hresolve
  | nil =>
      simp only [herrors, Except.ok.injEq] at hresolve
      rw [← hresolve,
        ((resolveStmts_moves .top program).passes .start).distances hid]
      exact Distances.find?_empty id

end Scope
end LoxLang
