import LoxLang.Proofs.Tree.Shape

/-!
# Bound trees

A tree is bound in a stack of scopes when every place in it has the distance
of the nearest scope that declares its name, or none where no scope does.  The
scopes of a place are those around it in the text, with the names declared so
far.  While the initializer of a local variable is walked over, its name is
pending: it may not be read, and it may be assigned to only where the chart
allows it.
-/

namespace LoxLang
namespace Scope

/-- The names that the scopes around a place declare in front of it, the
innermost scope first. -/
abbrev Stack := List (List String)

namespace Stack

/-- The distance of the nearest scope that declares a name. -/
def distance? (stack : Stack) (name : String) : Option Nat :=
  stack.findIdx? fun names => decide (name ∈ names)

/-- The stack after a declaration in its innermost scope; at the top level
there is no scope to declare anything in. -/
def declare (names : List String) : Stack → Stack
  | [] => []
  | scope :: outer => (names ++ scope) :: outer

/-- The innermost scope does not declare the name. -/
def Fresh (name : String) : Stack → Prop
  | [] => True
  | scope :: _ => name ∉ scope

/-- The name that is pending in the initializer of a declaration. -/
def pending (name : String) : Stack → Option String
  | [] => none
  | _ :: _ => some name

@[simp]
theorem declare_nil_names (stack : Stack) : stack.declare [] = stack := by
  cases stack <;> rfl

@[simp]
theorem distance?_nil (name : String) : distance? [] name = none :=
  rfl

theorem distance?_cons (scope : List String) (outer : Stack) (name : String) :
    distance? (scope :: outer) name =
      if name ∈ scope then some 0 else (distance? outer name).map (· + 1) := by
  by_cases h : name ∈ scope <;> simp [distance?, List.findIdx?_cons, h]

theorem distance?_declare
    {names : List String} {name : String} (stack : Stack)
    (h : name ∉ names) :
    (stack.declare names).distance? name = stack.distance? name := by
  cases stack with
  | nil => rfl
  | cons scope outer => simp [declare, distance?_cons, h]

end Stack

/-- What is known of places: their distances, and the assignments that may be
made to a pending name. -/
structure Chart where
  distance : PlaceId → Option Nat → Prop
  mayAssign : Expr → Prop

/-- All of some assignments may be made to a pending name. -/
def Chart.Allows (chart : Chart) (exprs : List Expr) : Prop :=
  ∀ expr ∈ exprs, chart.mayAssign expr

theorem Chart.allows_append {chart : Chart} {exprs others : List Expr} :
    chart.Allows (exprs ++ others) ↔
      chart.Allows exprs ∧ chart.Allows others := by
  simp [Chart.Allows, or_imp, forall_and]

end Scope

open Scope (Stack Chart)

/-! ## Bound expressions -/

mutual

/-- The places of an expression have the distances that its scopes give
them. -/
def Expr.Bound (chart : Chart) (stack : Stack) (pending : Option String) :
    Expr → Prop
  | .literal _ => True
  | .group inner => inner.Bound chart stack pending
  | .unary _ operand _ => operand.Bound chart stack pending
  | .binary left _ right _ =>
      left.Bound chart stack pending ∧ right.Bound chart stack pending
  | .logical left _ right =>
      left.Bound chart stack pending ∧ right.Bound chart stack pending
  | .read id name =>
      pending ≠ some name.name ∧
        chart.distance id (stack.distance? name.name)
  | .assign id name value =>
      value.Bound chart stack pending ∧ Ordinary name.name ∧
        if pending = some name.name then
          chart.distance id (some 0) ∧ chart.mayAssign (.assign id name value)
        else chart.distance id (stack.distance? name.name)
  | .call callee _ arguments =>
      callee.Bound chart stack pending ∧
        Expr.BoundAll chart stack pending arguments
  | .get object _ => object.Bound chart stack pending
  | .set object _ value =>
      object.Bound chart stack pending ∧ value.Bound chart stack pending
  | .this id _ =>
      ∃ distance, stack.distance? "this" = some distance ∧
        chart.distance id (some distance)
  | .super id _ _ =>
      -- The scope of `this` lies just inside the one of `super`.
      ∃ distance, stack.distance? "this" = some distance ∧
        stack.distance? "super" = some (distance + 1) ∧
        chart.distance id (some (distance + 1))

def Expr.BoundAll (chart : Chart) (stack : Stack) (pending : Option String) :
    List Expr → Prop
  | [] => True
  | expr :: exprs =>
      expr.Bound chart stack pending ∧ Expr.BoundAll chart stack pending exprs

end

/-! ## Bound statements -/

mutual

/-- A statement is bound in the scopes around it; `inFunction` tells whether
it stands in a function. -/
def Stmt.Bound (chart : Chart) (inFunction : Bool) (stack : Stack) :
    Stmt → Prop
  | .expression expr => expr.Bound chart stack none
  | .print expr => expr.Bound chart stack none
  | .var name none => Ordinary name.name ∧ stack.Fresh name.name
  | .var name (some initializer) =>
      (Ordinary name.name ∧ stack.Fresh name.name) ∧
        initializer.Bound chart stack (stack.pending name.name)
  | .block body => Stmt.BoundAll chart inFunction ([] :: stack) body
  | .branch condition yes none =>
      condition.Bound chart stack none ∧
        yes.Bound chart inFunction stack ∧ yes.declares = []
  | .branch condition yes (some no) =>
      condition.Bound chart stack none ∧
        (yes.Bound chart inFunction stack ∧ yes.declares = []) ∧
        no.Bound chart inFunction stack ∧ no.declares = []
  | .loop condition body =>
      condition.Bound chart stack none ∧
        body.Bound chart inFunction stack ∧ body.declares = []
  | .function declaration =>
      (Ordinary declaration.name.name ∧
          stack.Fresh declaration.name.name) ∧
        declaration.Bound chart (stack.declare [declaration.name.name])
  | .ret _ none => inFunction = true
  | .ret _ (some value) => inFunction = true ∧ value.Bound chart stack none
  | .classDecl name none methods =>
      (Ordinary name.name ∧ stack.Fresh name.name) ∧
        FunctionDecl.BoundAll chart (["this"] :: stack.declare [name.name])
          methods
  | .classDecl name (some superclass) methods =>
      (Ordinary name.name ∧ stack.Fresh name.name) ∧
        superclass.Bound chart (stack.declare [name.name]) none ∧
        FunctionDecl.BoundAll chart
          (["this"] :: ["super"] :: stack.declare [name.name]) methods

def Stmt.BoundAll (chart : Chart) (inFunction : Bool) :
    Stack → List Stmt → Prop
  | _, [] => True
  | stack, stmt :: stmts =>
      stmt.Bound chart inFunction stack ∧
        Stmt.BoundAll chart inFunction (stack.declare stmt.declares) stmts

/-- The parameters and the body of a function share one scope. -/
def FunctionDecl.Bound (chart : Chart) (stack : Stack) :
    FunctionDecl → Prop
  | ⟨_, params, body⟩ =>
      (params.map Ident.name).Nodup ∧
        (∀ param ∈ params, Ordinary param.name) ∧
        Stmt.BoundAll chart true (params.map Ident.name :: stack) body

def FunctionDecl.BoundAll (chart : Chart) (stack : Stack) :
    List FunctionDecl → Prop
  | [] => True
  | declaration :: declarations =>
      declaration.Bound chart stack ∧
        FunctionDecl.BoundAll chart stack declarations

end

theorem FunctionDecl.BoundAll.mem
    {chart : Chart} {stack : Stack} {declarations : List FunctionDecl}
    {declaration : FunctionDecl}
    (h : FunctionDecl.BoundAll chart stack declarations)
    (hmem : declaration ∈ declarations) : declaration.Bound chart stack := by
  induction declarations with
  | nil => cases hmem
  | cons first rest ih =>
      cases hmem with
      | head => exact h.1
      | tail _ hmem => exact ih h.2 hmem

theorem FunctionDecl.Bound.ordinary
    {chart : Chart} {stack : Stack} :
    (declaration : FunctionDecl) → declaration.Bound chart stack →
      ∀ param ∈ declaration.params, Ordinary param.name
  | ⟨_, _, _⟩, h => h.2.1

/-! ## Another chart -/

/-- Whatever one chart says, the other one says too. -/
structure Scope.Chart.Below (chart other : Chart) : Prop where
  distance : ∀ {id distance}, chart.distance id distance →
    other.distance id distance
  mayAssign : ∀ {expr}, chart.mayAssign expr → other.mayAssign expr

section
variable {chart other : Chart}

mutual

theorem Expr.Bound.mono {stack : Stack} {pending : Option String}
    (hle : chart.Below other) :
    (expr : Expr) → expr.Bound chart stack pending →
      expr.Bound other stack pending
  | .literal _, _ => trivial
  | .group inner, h => Expr.Bound.mono hle inner h
  | .unary _ operand _, h => Expr.Bound.mono hle operand h
  | .binary left _ right _, h =>
      ⟨Expr.Bound.mono hle left h.1, Expr.Bound.mono hle right h.2⟩
  | .logical left _ right, h =>
      ⟨Expr.Bound.mono hle left h.1, Expr.Bound.mono hle right h.2⟩
  | .read _ _, h => ⟨h.1, hle.distance h.2⟩
  | .assign id name value, ⟨hvalue, hname, hplace⟩ => by
      refine ⟨Expr.Bound.mono hle value hvalue, hname, ?_⟩
      by_cases hpending : pending = some name.name
      · rw [if_pos hpending] at hplace ⊢
        exact ⟨hle.distance hplace.1, hle.mayAssign hplace.2⟩
      · rw [if_neg hpending] at hplace ⊢
        exact hle.distance hplace
  | .call callee _ arguments, h =>
      ⟨Expr.Bound.mono hle callee h.1, Expr.BoundAll.mono hle arguments h.2⟩
  | .get object _, h => Expr.Bound.mono hle object h
  | .set object _ value, h =>
      ⟨Expr.Bound.mono hle object h.1, Expr.Bound.mono hle value h.2⟩
  | .this _ _, ⟨distance, hthis, hplace⟩ =>
      ⟨distance, hthis, hle.distance hplace⟩
  | .super _ _ _, ⟨distance, hthis, hsuper, hplace⟩ =>
      ⟨distance, hthis, hsuper, hle.distance hplace⟩

theorem Expr.BoundAll.mono {stack : Stack} {pending : Option String}
    (hle : chart.Below other) :
    (exprs : List Expr) → Expr.BoundAll chart stack pending exprs →
      Expr.BoundAll other stack pending exprs
  | [], _ => trivial
  | expr :: exprs, h =>
      ⟨Expr.Bound.mono hle expr h.1, Expr.BoundAll.mono hle exprs h.2⟩

end

mutual

theorem Stmt.Bound.mono {inFunction : Bool} {stack : Stack}
    (hle : chart.Below other) :
    (stmt : Stmt) → stmt.Bound chart inFunction stack →
      stmt.Bound other inFunction stack
  | .expression expr, h => Expr.Bound.mono hle expr h
  | .print expr, h => Expr.Bound.mono hle expr h
  | .var _ none, h => h
  | .var _ (some initializer), h =>
      ⟨h.1, Expr.Bound.mono hle initializer h.2⟩
  | .block body, h => Stmt.BoundAll.mono hle body h
  | .branch condition yes none, h =>
      ⟨Expr.Bound.mono hle condition h.1, Stmt.Bound.mono hle yes h.2.1,
        h.2.2⟩
  | .branch condition yes (some no), ⟨hcondition, hyes, hno⟩ =>
      ⟨Expr.Bound.mono hle condition hcondition,
        ⟨Stmt.Bound.mono hle yes hyes.1, hyes.2⟩,
        Stmt.Bound.mono hle no hno.1, hno.2⟩
  | .loop condition body, h =>
      ⟨Expr.Bound.mono hle condition h.1, Stmt.Bound.mono hle body h.2.1,
        h.2.2⟩
  | .function declaration, h =>
      ⟨h.1, FunctionDecl.Bound.mono hle declaration h.2⟩
  | .ret _ none, h => h
  | .ret _ (some value), h => ⟨h.1, Expr.Bound.mono hle value h.2⟩
  | .classDecl _ none methods, h =>
      ⟨h.1, FunctionDecl.BoundAll.mono hle methods h.2⟩
  | .classDecl _ (some superclass) methods, h =>
      ⟨h.1, Expr.Bound.mono hle superclass h.2.1,
        FunctionDecl.BoundAll.mono hle methods h.2.2⟩

theorem Stmt.BoundAll.mono {inFunction : Bool} {stack : Stack}
    (hle : chart.Below other) :
    (stmts : List Stmt) → Stmt.BoundAll chart inFunction stack stmts →
      Stmt.BoundAll other inFunction stack stmts
  | [], _ => trivial
  | stmt :: stmts, h =>
      ⟨Stmt.Bound.mono hle stmt h.1, Stmt.BoundAll.mono hle stmts h.2⟩

theorem FunctionDecl.Bound.mono {stack : Stack} (hle : chart.Below other) :
    (declaration : FunctionDecl) → declaration.Bound chart stack →
      declaration.Bound other stack
  | ⟨_, _, body⟩, h => ⟨h.1, h.2.1, Stmt.BoundAll.mono hle body h.2.2⟩

theorem FunctionDecl.BoundAll.mono {stack : Stack}
    (hle : chart.Below other) :
    (declarations : List FunctionDecl) →
      FunctionDecl.BoundAll chart stack declarations →
      FunctionDecl.BoundAll other stack declarations
  | [], _ => trivial
  | declaration :: declarations, h =>
      ⟨FunctionDecl.Bound.mono hle declaration h.1,
        FunctionDecl.BoundAll.mono hle declarations h.2⟩

end

end

end LoxLang
