import LoxLang.Proofs.Scope.Binding

/-!
# Where `this` and `super` stand

Inside of a class, the depth of a place is the number of scopes between the
place and the scope of `this`: one for the body of a method, and one more for
every block and every function in it.  A class inside of the method counts
anew.  In a bound tree, `this` has its depth for a distance, and `super` one
more, since its scope lies right around the one of `this`.
-/

namespace LoxLang

/-- The words that a class gives a meaning. -/
inductive Word where
  | this
  | super
deriving DecidableEq, Repr

/-- A use of one of the words. -/
structure Mark where
  word : Word
  id : PlaceId
  /-- The number of scopes up to the scope of `this`. -/
  depth : Nat
deriving DecidableEq, Repr

/-- How far the scope of the word is away. -/
def Mark.distance (mark : Mark) : Nat :=
  match mark.word with
  | .this => mark.depth
  | .super => mark.depth + 1

/-! ## Marks of trees -/

mutual

/-- The uses of the words in an expression. -/
def Expr.marks (depth : Nat) : Expr → List Mark
  | .literal _ | .read _ _ => []
  | .group inner => inner.marks depth
  | .unary _ operand _ => operand.marks depth
  | .binary left _ right _ => left.marks depth ++ right.marks depth
  | .logical left _ right => left.marks depth ++ right.marks depth
  | .assign _ _ value => value.marks depth
  | .call callee _ arguments =>
      callee.marks depth ++ Expr.marksAll depth arguments
  | .get object _ => object.marks depth
  | .set object _ value => object.marks depth ++ value.marks depth
  | .this id _ => [⟨.this, id, depth⟩]
  | .super id _ _ => [⟨.super, id, depth⟩]

def Expr.marksAll (depth : Nat) : List Expr → List Mark
  | [] => []
  | expr :: exprs => expr.marks depth ++ Expr.marksAll depth exprs

end

mutual

/-- The uses of the words in a statement, those in the classes that it
declares included. -/
def Stmt.marks (depth : Nat) : Stmt → List Mark
  | .expression expr => expr.marks depth
  | .print expr => expr.marks depth
  | .var _ none => []
  | .var _ (some initializer) => initializer.marks depth
  | .block body => Stmt.marksAll (depth + 1) body
  | .branch condition yes none => condition.marks depth ++ yes.marks depth
  | .branch condition yes (some no) =>
      condition.marks depth ++ (yes.marks depth ++ no.marks depth)
  | .loop condition body => condition.marks depth ++ body.marks depth
  | .function declaration => declaration.marks depth
  | .ret _ none => []
  | .ret _ (some value) => value.marks depth
  | .classDecl _ none methods => FunctionDecl.marksAll 0 methods
  | .classDecl _ (some superclass) methods =>
      superclass.marks depth ++ FunctionDecl.marksAll 0 methods

def Stmt.marksAll (depth : Nat) : List Stmt → List Mark
  | [] => []
  | stmt :: stmts => stmt.marks depth ++ Stmt.marksAll depth stmts

/-- The uses of the words in a function whose name stands at the depth. -/
def FunctionDecl.marks (depth : Nat) : FunctionDecl → List Mark
  | ⟨_, _, body⟩ => Stmt.marksAll (depth + 1) body

def FunctionDecl.marksAll (depth : Nat) : List FunctionDecl → List Mark
  | [] => []
  | declaration :: declarations =>
      declaration.marks depth ++ FunctionDecl.marksAll depth declarations

end

/-! ## Marks of bound trees -/

namespace Scope

/-- If there is a scope of `this` at all, then it is as many scopes away. -/
def Stack.AtDepth (stack : Stack) (depth : Nat) : Prop :=
  ∀ distance, stack.distance? "this" = some distance → distance = depth

namespace Stack.AtDepth

variable {stack : Stack} {depth : Nat}

theorem declare
    {names : List String} (h : stack.AtDepth depth)
    (hnames : ∀ name ∈ names, Ordinary name) :
    (stack.declare names).AtDepth depth := by
  intro distance hdistance
  apply h
  rw [distance?_declare] at hdistance
  · exact hdistance
  · intro hmem
    exact (hnames "this" hmem).1 rfl

theorem enter
    {names : List String} (h : stack.AtDepth depth)
    (hnames : ∀ name ∈ names, Ordinary name) :
    Stack.AtDepth (names :: stack) (depth + 1) := by
  intro distance hdistance
  have hthis : "this" ∉ names := fun hmem => (hnames "this" hmem).1 rfl
  rw [distance?_cons, if_neg hthis] at hdistance
  obtain ⟨outer, houter, rfl⟩ := Option.map_eq_some_iff.mp hdistance
  rw [h outer houter]

theorem this (stack : Stack) : Stack.AtDepth (["this"] :: stack) 0 := by
  intro distance hdistance
  rw [distance?_cons, if_pos (List.mem_singleton.mpr rfl)] at hdistance
  exact (Option.some.inj hdistance).symm

end Stack.AtDepth

/-- The marks have their distances in the chart. -/
def Chart.Marks (chart : Chart) (marks : List Mark) : Prop :=
  ∀ mark ∈ marks, chart.distance mark.id (some mark.distance)

theorem Chart.marks_append {chart : Chart} {marks others : List Mark} :
    chart.Marks (marks ++ others) ↔ chart.Marks marks ∧ chart.Marks others :=
  List.forall_mem_append

theorem Chart.marks_nil (chart : Chart) : chart.Marks [] :=
  fun _ h => nomatch h

end Scope

open Scope (Stack Chart)

section
variable {chart : Chart} {pending : Option String}

mutual

theorem Expr.Bound.marks
    {stack : Stack} {depth : Nat} (hdepth : stack.AtDepth depth) :
    (expr : Expr) → expr.Bound chart stack pending →
      chart.Marks (expr.marks depth)
  | .literal _, _ => chart.marks_nil
  | .group inner, h => Expr.Bound.marks hdepth inner h
  | .unary _ operand _, h => Expr.Bound.marks hdepth operand h
  | .binary left _ right _, h =>
      Chart.marks_append.mpr ⟨Expr.Bound.marks hdepth left h.1,
        Expr.Bound.marks hdepth right h.2⟩
  | .logical left _ right, h =>
      Chart.marks_append.mpr ⟨Expr.Bound.marks hdepth left h.1,
        Expr.Bound.marks hdepth right h.2⟩
  | .read _ _, _ => chart.marks_nil
  | .assign _ _ value, h => Expr.Bound.marks hdepth value h.1
  | .call callee _ arguments, h =>
      Chart.marks_append.mpr ⟨Expr.Bound.marks hdepth callee h.1,
        Expr.BoundAll.marks hdepth arguments h.2⟩
  | .get object _, h => Expr.Bound.marks hdepth object h
  | .set object _ value, h =>
      Chart.marks_append.mpr ⟨Expr.Bound.marks hdepth object h.1,
        Expr.Bound.marks hdepth value h.2⟩
  | .this id _, h => by
      obtain ⟨distance, hthis, hplace⟩ := h
      rw [hdepth distance hthis] at hplace
      intro mark hmark
      rw [List.mem_singleton.mp hmark]
      exact hplace
  | .super id _ _, h => by
      obtain ⟨distance, hthis, -, hplace⟩ := h
      rw [hdepth distance hthis] at hplace
      intro mark hmark
      rw [List.mem_singleton.mp hmark]
      exact hplace

theorem Expr.BoundAll.marks
    {stack : Stack} {depth : Nat} (hdepth : stack.AtDepth depth) :
    (exprs : List Expr) → Expr.BoundAll chart stack pending exprs →
      chart.Marks (Expr.marksAll depth exprs)
  | [], _ => chart.marks_nil
  | expr :: exprs, h =>
      Chart.marks_append.mpr ⟨Expr.Bound.marks hdepth expr h.1,
        Expr.BoundAll.marks hdepth exprs h.2⟩

end

end

section
variable {chart : Chart}

/-- The names that a bound statement declares are ordinary ones. -/
theorem Stmt.Bound.ordinary
    {inFunction : Bool} {stack : Stack} :
    (stmt : Stmt) → stmt.Bound chart inFunction stack →
      ∀ name ∈ stmt.declares, Ordinary name
  | .expression _, _ => by simp [Stmt.declares]
  | .print _, _ => by simp [Stmt.declares]
  | .block _, _ => by simp [Stmt.declares]
  | .ret _ _, _ => by simp [Stmt.declares]
  | .var _ none, h => by simpa [Stmt.declares] using h.1
  | .var _ (some _), h => by simpa [Stmt.declares] using h.1.1
  | .branch _ yes none, h => by simp [Stmt.declares, h.2.2]
  | .branch _ yes (some no), h => by
      simp [Stmt.declares, h.2.1.2, h.2.2.2]
  | .loop _ _, h => by simp [Stmt.declares, h.2.2]
  | .function _, h => by simpa [Stmt.declares] using h.1.1
  | .classDecl _ none _, h => by simpa [Stmt.declares] using h.1.1
  | .classDecl _ (some _) _, h => by simpa [Stmt.declares] using h.1.1

mutual

theorem Stmt.Bound.marks
    {inFunction : Bool} {stack : Stack} {depth : Nat}
    (hdepth : stack.AtDepth depth) :
    (stmt : Stmt) → stmt.Bound chart inFunction stack →
      chart.Marks (stmt.marks depth)
  | .expression expr, h => Expr.Bound.marks hdepth expr h
  | .print expr, h => Expr.Bound.marks hdepth expr h
  | .var _ none, _ => chart.marks_nil
  | .var _ (some initializer), h => Expr.Bound.marks hdepth initializer h.2
  | .block body, h =>
      Stmt.BoundAll.marks (hdepth.enter (List.forall_mem_nil _)) body h
  | .branch condition yes none, h =>
      Chart.marks_append.mpr ⟨Expr.Bound.marks hdepth condition h.1,
        Stmt.Bound.marks hdepth yes h.2.1⟩
  | .branch condition yes (some no), h =>
      Chart.marks_append.mpr ⟨Expr.Bound.marks hdepth condition h.1,
        Chart.marks_append.mpr ⟨Stmt.Bound.marks hdepth yes h.2.1.1,
          Stmt.Bound.marks hdepth no h.2.2.1⟩⟩
  | .loop condition body, h =>
      Chart.marks_append.mpr ⟨Expr.Bound.marks hdepth condition h.1,
        Stmt.Bound.marks hdepth body h.2.1⟩
  | .function declaration, h =>
      FunctionDecl.Bound.marks
        (hdepth.declare fun name hname => by
          rw [List.mem_singleton.mp hname]
          exact h.1.1)
        declaration h.2
  | .ret _ none, _ => chart.marks_nil
  | .ret _ (some value), h => Expr.Bound.marks hdepth value h.2
  | .classDecl _ none methods, h =>
      FunctionDecl.BoundAll.marks (.this _) methods h.2
  | .classDecl _ (some superclass) methods, h =>
      Chart.marks_append.mpr
        ⟨Expr.Bound.marks
          (hdepth.declare fun name hname => by
            rw [List.mem_singleton.mp hname]
            exact h.1.1)
          superclass h.2.1,
        FunctionDecl.BoundAll.marks (.this _) methods h.2.2⟩

theorem Stmt.BoundAll.marks
    {inFunction : Bool} {stack : Stack} {depth : Nat}
    (hdepth : stack.AtDepth depth) :
    (stmts : List Stmt) → Stmt.BoundAll chart inFunction stack stmts →
      chart.Marks (Stmt.marksAll depth stmts)
  | [], _ => chart.marks_nil
  | stmt :: stmts, h =>
      Chart.marks_append.mpr ⟨Stmt.Bound.marks hdepth stmt h.1,
        Stmt.BoundAll.marks (hdepth.declare (Stmt.Bound.ordinary stmt h.1))
          stmts h.2⟩

theorem FunctionDecl.Bound.marks
    {stack : Stack} {depth : Nat} (hdepth : stack.AtDepth depth) :
    (declaration : FunctionDecl) → declaration.Bound chart stack →
      chart.Marks (declaration.marks depth)
  | ⟨_, params, body⟩, h =>
      Stmt.BoundAll.marks
        (hdepth.enter fun name hname => by
          obtain ⟨param, hparam, rfl⟩ := List.mem_map.mp hname
          exact h.2.1 param hparam)
        body h.2.2

theorem FunctionDecl.BoundAll.marks
    {stack : Stack} {depth : Nat} (hdepth : stack.AtDepth depth) :
    (declarations : List FunctionDecl) →
      FunctionDecl.BoundAll chart stack declarations →
      chart.Marks (FunctionDecl.marksAll depth declarations)
  | [], _ => chart.marks_nil
  | declaration :: declarations, h =>
      Chart.marks_append.mpr
        ⟨FunctionDecl.Bound.marks hdepth declaration h.1,
          FunctionDecl.BoundAll.marks hdepth declarations h.2⟩

end

end

end LoxLang
