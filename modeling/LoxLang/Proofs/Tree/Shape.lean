import LoxLang.Tree.Basic

/-!
# The shape of trees

The places of a tree, the rules that every tree read from tokens obeys beyond
its type, and the assignments that a tree makes to a name while the name is
being declared.
-/

namespace LoxLang

/-! ## Places -/

mutual

/-- The numbers of the places of an expression. -/
def Expr.places : Expr → List PlaceId
  | .literal _ => []
  | .group inner => inner.places
  | .unary _ operand _ => operand.places
  | .binary left _ right _ => left.places ++ right.places
  | .logical left _ right => left.places ++ right.places
  | .read id _ => [id]
  | .assign id _ value => value.places ++ [id]
  | .call callee _ arguments => callee.places ++ Expr.placesAll arguments
  | .get object _ => object.places
  | .set object _ value => object.places ++ value.places
  | .this id _ => [id]
  | .super id _ _ => [id]

def Expr.placesAll : List Expr → List PlaceId
  | [] => []
  | expr :: exprs => expr.places ++ Expr.placesAll exprs

end

mutual

/-- The numbers of the places of a statement. -/
def Stmt.places : Stmt → List PlaceId
  | .expression expr => expr.places
  | .print expr => expr.places
  | .var _ none => []
  | .var _ (some initializer) => initializer.places
  | .block body => Stmt.placesAll body
  | .branch condition yes none => condition.places ++ yes.places
  | .branch condition yes (some no) =>
      condition.places ++ (yes.places ++ no.places)
  | .loop condition body => condition.places ++ body.places
  | .function declaration => declaration.places
  | .ret _ none => []
  | .ret _ (some value) => value.places
  | .classDecl _ none methods => FunctionDecl.placesAll methods
  | .classDecl _ (some superclass) methods =>
      superclass.places ++ FunctionDecl.placesAll methods

def Stmt.placesAll : List Stmt → List PlaceId
  | [] => []
  | stmt :: stmts => stmt.places ++ Stmt.placesAll stmts

def FunctionDecl.places : FunctionDecl → List PlaceId
  | ⟨_, _, body⟩ => Stmt.placesAll body

def FunctionDecl.placesAll : List FunctionDecl → List PlaceId
  | [] => []
  | declaration :: declarations =>
      declaration.places ++ FunctionDecl.placesAll declarations

end

/-! ## Declared names -/

/-- The names that a statement may declare in the frame in which it is
carried out. -/
def Stmt.declares : Stmt → List String
  | .var name _ => [name.name]
  | .function declaration => [declaration.name.name]
  | .classDecl name _ _ => [name.name]
  | .branch _ yes none => yes.declares
  | .branch _ yes (some no) => yes.declares ++ no.declares
  | .loop _ body => body.declares
  | .expression _ | .print _ | .block _ | .ret .. => []

/-- The name is not one that the language itself gives a meaning. -/
def Ordinary (name : String) : Prop :=
  name ≠ "this" ∧ name ≠ "super"

instance (name : String) : Decidable (Ordinary name) :=
  inferInstanceAs (Decidable (_ ∧ _))

mutual

/-- All assignments are to ordinary names. -/
def Expr.Shaped : Expr → Prop
  | .literal _ => True
  | .group inner => inner.Shaped
  | .unary _ operand _ => operand.Shaped
  | .binary left _ right _ => left.Shaped ∧ right.Shaped
  | .logical left _ right => left.Shaped ∧ right.Shaped
  | .read _ _ => True
  | .assign _ name value => Ordinary name.name ∧ value.Shaped
  | .call callee _ arguments => callee.Shaped ∧ Expr.ShapedAll arguments
  | .get object _ => object.Shaped
  | .set object _ value => object.Shaped ∧ value.Shaped
  | .this _ _ => True
  | .super _ _ _ => True

def Expr.ShapedAll : List Expr → Prop
  | [] => True
  | expr :: exprs => expr.Shaped ∧ Expr.ShapedAll exprs

end

mutual

/-- Only ordinary names are declared, a superclass is a name, and what a
branch or a loop carries out is no declaration. -/
def Stmt.Shaped : Stmt → Prop
  | .expression expr => expr.Shaped
  | .print expr => expr.Shaped
  | .var name none => Ordinary name.name
  | .var name (some initializer) => Ordinary name.name ∧ initializer.Shaped
  | .block body => Stmt.ShapedAll body
  | .branch condition yes none =>
      condition.Shaped ∧ yes.Shaped ∧ yes.declares = []
  | .branch condition yes (some no) =>
      condition.Shaped ∧ (yes.Shaped ∧ yes.declares = []) ∧
        no.Shaped ∧ no.declares = []
  | .loop condition body =>
      condition.Shaped ∧ body.Shaped ∧ body.declares = []
  | .function declaration =>
      Ordinary declaration.name.name ∧ declaration.Shaped
  | .ret _ none => True
  | .ret _ (some value) => value.Shaped
  | .classDecl name none methods =>
      Ordinary name.name ∧ FunctionDecl.ShapedAll methods
  | .classDecl name (some superclass) methods =>
      Ordinary name.name ∧ (∃ id name, superclass = .read id name) ∧
        FunctionDecl.ShapedAll methods

def Stmt.ShapedAll : List Stmt → Prop
  | [] => True
  | stmt :: stmts => stmt.Shaped ∧ Stmt.ShapedAll stmts

def FunctionDecl.Shaped : FunctionDecl → Prop
  | ⟨_, params, body⟩ =>
      (∀ param ∈ params, Ordinary param.name) ∧ Stmt.ShapedAll body

def FunctionDecl.ShapedAll : List FunctionDecl → Prop
  | [] => True
  | declaration :: declarations =>
      declaration.Shaped ∧ FunctionDecl.ShapedAll declarations

end

theorem Stmt.Shaped.ordinary
    {stmt : Stmt} (h : stmt.Shaped) :
    ∀ name ∈ stmt.declares, Ordinary name := by
  cases stmt with
  | var declared initializer =>
      cases initializer with
      | none => simpa [Stmt.declares, Stmt.Shaped] using h
      | some initializer => simpa [Stmt.declares] using h.1
  | function declaration => simpa [Stmt.declares] using h.1
  | classDecl declared superclass methods =>
      cases superclass <;> simpa [Stmt.declares] using h.1
  | branch condition yes no =>
      cases no with
      | none => simp [Stmt.declares, h.2.2]
      | some no => simp [Stmt.declares, h.2.1.2, h.2.2.2]
  | loop condition body => simp [Stmt.declares, h.2.2]
  | expression | print | block | ret => simp [Stmt.declares]

/-! ## Assignments to a name that is being declared -/

mutual

/-- The assignments to a name inside an expression. -/
def Expr.assignmentsTo (name : String) : Expr → List Expr
  | .literal _ => []
  | .group inner => inner.assignmentsTo name
  | .unary _ operand _ => operand.assignmentsTo name
  | .binary left _ right _ =>
      left.assignmentsTo name ++ right.assignmentsTo name
  | .logical left _ right =>
      left.assignmentsTo name ++ right.assignmentsTo name
  | .read _ _ => []
  | .assign id target value =>
      value.assignmentsTo name ++
        if target.name = name then [.assign id target value] else []
  | .call callee _ arguments =>
      callee.assignmentsTo name ++ Expr.assignmentsToAll name arguments
  | .get object _ => object.assignmentsTo name
  | .set object _ value =>
      object.assignmentsTo name ++ value.assignmentsTo name
  | .this _ _ => []
  | .super _ _ _ => []

def Expr.assignmentsToAll (name : String) : List Expr → List Expr
  | [] => []
  | expr :: exprs =>
      expr.assignmentsTo name ++ Expr.assignmentsToAll name exprs

end

mutual

/-- The assignments that lie inside the initializer of a local variable and
are made to that very variable; `isLocal` tells whether the statement itself
stands in a local scope. -/
def Stmt.selfAssignments (isLocal : Bool) : Stmt → List Expr
  | .var name (some initializer) =>
      if isLocal then initializer.assignmentsTo name.name else []
  | .block body => Stmt.selfAssignmentsAll true body
  | .branch _ yes none => yes.selfAssignments isLocal
  | .branch _ yes (some no) =>
      yes.selfAssignments isLocal ++ no.selfAssignments isLocal
  | .loop _ body => body.selfAssignments isLocal
  | .function declaration => declaration.selfAssignments
  | .classDecl _ _ methods => FunctionDecl.selfAssignmentsAll methods
  | .var _ none | .expression _ | .print _ | .ret .. => []

def Stmt.selfAssignmentsAll (isLocal : Bool) : List Stmt → List Expr
  | [] => []
  | stmt :: stmts =>
      stmt.selfAssignments isLocal ++ Stmt.selfAssignmentsAll isLocal stmts

def FunctionDecl.selfAssignments : FunctionDecl → List Expr
  | ⟨_, _, body⟩ => Stmt.selfAssignmentsAll true body

def FunctionDecl.selfAssignmentsAll : List FunctionDecl → List Expr
  | [] => []
  | declaration :: declarations =>
      declaration.selfAssignments ++
        FunctionDecl.selfAssignmentsAll declarations

end

/-- The assignments of a program that lie inside the initializer of a local
variable and are made to that very variable. -/
def Program.selfAssignments (program : Program) : List Expr :=
  Stmt.selfAssignmentsAll false program

end LoxLang
