import Mathlib.Data.List.Forall2
import LoxLang.Proofs.Tree.Shape

/-!
# Trees that differ in lines and places

Two trees are alike when they have the same shape, the same names and the same
constants.  Which lines and which places may stand for each other is given by
a likeness.
-/

namespace LoxLang

/-- Which lines and which places stand for each other in two texts. -/
structure Likeness where
  line : Nat → Nat → Prop
  place : PlaceId → PlaceId → Prop

/-- The lines are the same. -/
def Likeness.places (place : PlaceId → PlaceId → Prop) : Likeness :=
  ⟨Eq, place⟩

structure Ident.Alike (like : Likeness) (a b : Ident) : Prop where
  name : a.name = b.name
  line : like.line a.line b.line

mutual

inductive Expr.Alike (like : Likeness) : Expr → Expr → Prop where
  | literal : Expr.Alike like (.literal value) (.literal value)
  | group :
      Expr.Alike like expr expr' →
      Expr.Alike like (.group expr) (.group expr')
  | unary :
      Expr.Alike like operand operand' → like.line line line' →
      Expr.Alike like (.unary op operand line) (.unary op operand' line')
  | binary :
      Expr.Alike like left left' → Expr.Alike like right right' →
      like.line line line' →
      Expr.Alike like (.binary left op right line)
        (.binary left' op right' line')
  | logical :
      Expr.Alike like left left' → Expr.Alike like right right' →
      Expr.Alike like (.logical left op right) (.logical left' op right')
  | read :
      like.place place place' → name.Alike like name' →
      Expr.Alike like (.read place name) (.read place' name')
  | assign :
      like.place place place' → name.Alike like name' →
      Expr.Alike like value value' →
      Expr.Alike like (.assign place name value) (.assign place' name' value')
  | call :
      Expr.Alike like callee callee' → like.line line line' →
      Expr.AllAlike like arguments arguments' →
      Expr.Alike like (.call callee line arguments)
        (.call callee' line' arguments')
  | get :
      Expr.Alike like object object' → name.Alike like name' →
      Expr.Alike like (.get object name) (.get object' name')
  | set :
      Expr.Alike like object object' → name.Alike like name' →
      Expr.Alike like value value' →
      Expr.Alike like (.set object name value) (.set object' name' value')
  | this :
      like.place place place' → like.line line line' →
      Expr.Alike like (.this place line) (.this place' line')
  | super :
      like.place place place' → like.line line line' →
      name.Alike like name' →
      Expr.Alike like (.super place line name) (.super place' line' name')

inductive Expr.AllAlike (like : Likeness) : List Expr → List Expr → Prop where
  | nil : Expr.AllAlike like [] []
  | cons :
      Expr.Alike like expr expr' → Expr.AllAlike like exprs exprs' →
      Expr.AllAlike like (expr :: exprs) (expr' :: exprs')

end

/-- Both expressions are absent, or they are alike. -/
inductive Expr.OptionAlike (like : Likeness) :
    Option Expr → Option Expr → Prop where
  | none : Expr.OptionAlike like none none
  | some :
      Expr.Alike like expr expr' →
      Expr.OptionAlike like (some expr) (some expr')

mutual

inductive Stmt.Alike (like : Likeness) : Stmt → Stmt → Prop where
  | expression :
      expr.Alike like expr' →
      Stmt.Alike like (.expression expr) (.expression expr')
  | print :
      expr.Alike like expr' → Stmt.Alike like (.print expr) (.print expr')
  | var :
      name.Alike like name' → Expr.OptionAlike like initial initial' →
      Stmt.Alike like (.var name initial) (.var name' initial')
  | block :
      Stmt.AllAlike like body body' →
      Stmt.Alike like (.block body) (.block body')
  | branch :
      Expr.Alike like test test' → Stmt.Alike like yes yes' →
      Stmt.OptionAlike like no no' →
      Stmt.Alike like (.branch test yes no) (.branch test' yes' no')
  | loop :
      Expr.Alike like test test' → Stmt.Alike like body body' →
      Stmt.Alike like (.loop test body) (.loop test' body')
  | function :
      FunctionDecl.Alike like declaration declaration' →
      Stmt.Alike like (.function declaration) (.function declaration')
  | ret :
      like.line line line' → Expr.OptionAlike like value value' →
      Stmt.Alike like (.ret line value) (.ret line' value')
  | classDecl :
      name.Alike like name' → Expr.OptionAlike like parent parent' →
      FunctionDecl.AllAlike like methods methods' →
      Stmt.Alike like (.classDecl name parent methods)
        (.classDecl name' parent' methods')

inductive Stmt.AllAlike (like : Likeness) : List Stmt → List Stmt → Prop where
  | nil : Stmt.AllAlike like [] []
  | cons :
      Stmt.Alike like stmt stmt' → Stmt.AllAlike like stmts stmts' →
      Stmt.AllAlike like (stmt :: stmts) (stmt' :: stmts')

inductive Stmt.OptionAlike (like : Likeness) :
    Option Stmt → Option Stmt → Prop where
  | none : Stmt.OptionAlike like none none
  | some :
      Stmt.Alike like stmt stmt' →
      Stmt.OptionAlike like (some stmt) (some stmt')

inductive FunctionDecl.Alike (like : Likeness) :
    FunctionDecl → FunctionDecl → Prop where
  | mk :
      name.Alike like name' → List.Forall₂ (Ident.Alike like) params params' →
      Stmt.AllAlike like body body' →
      FunctionDecl.Alike like ⟨name, params, body⟩ ⟨name', params', body'⟩

inductive FunctionDecl.AllAlike (like : Likeness) :
    List FunctionDecl → List FunctionDecl → Prop where
  | nil : FunctionDecl.AllAlike like [] []
  | cons :
      FunctionDecl.Alike like declaration declaration' →
      FunctionDecl.AllAlike like declarations declarations' →
      FunctionDecl.AllAlike like (declaration :: declarations)
        (declaration' :: declarations')

end

section
variable {like : Likeness} {declaration declaration' : FunctionDecl}

theorem FunctionDecl.Alike.name (h : declaration.Alike like declaration') :
    declaration.name.Alike like declaration'.name := by
  cases h with
  | mk name _ _ => exact name

theorem FunctionDecl.Alike.params (h : declaration.Alike like declaration') :
    List.Forall₂ (Ident.Alike like) declaration.params
      declaration'.params := by
  cases h with
  | mk _ params _ => exact params

theorem FunctionDecl.Alike.body (h : declaration.Alike like declaration') :
    Stmt.AllAlike like declaration.body declaration'.body := by
  cases h with
  | mk _ _ body => exact body

end

/-! ## Another likeness -/

/-- The other likeness has all the lines of this one. -/
def Likeness.LinesBelow (like other : Likeness) : Prop :=
  ∀ ⦃line line'⦄, like.line line line' → other.line line line'

theorem Likeness.linesBelow_places (place other : PlaceId → PlaceId → Prop) :
    (Likeness.places place).LinesBelow (.places other) :=
  fun _ _ hline => hline

/-- What stands for each other does so in the other likeness too. -/
structure Likeness.Below (like other : Likeness) : Prop where
  line : like.LinesBelow other
  place : ∀ ⦃id id'⦄, like.place id id' → other.place id id'

section
variable {like other : Likeness}

theorem Ident.Alike.imp
    {a b : Ident} (h : a.Alike like b) (hline : like.LinesBelow other) :
    a.Alike other b :=
  ⟨h.name, hline h.line⟩

mutual

theorem Expr.Alike.imp
    {expr expr' : Expr} (hline : like.LinesBelow other) :
    expr.Alike like expr' →
      (∀ id ∈ expr.places, ∀ id', like.place id id' → other.place id id') →
      expr.Alike other expr'
  | .literal, _ => .literal
  | .group inner, hplace => .group (inner.imp hline hplace)
  | .unary operand line, hplace =>
      .unary (operand.imp hline hplace) (hline line)
  | .binary left right line, hplace =>
      have hparts := List.forall_mem_append.mp hplace
      .binary (left.imp hline hparts.1) (right.imp hline hparts.2) (hline line)
  | .logical left right, hplace =>
      have hparts := List.forall_mem_append.mp hplace
      .logical (left.imp hline hparts.1) (right.imp hline hparts.2)
  | .read place name, hplace =>
      .read (hplace _ (List.mem_singleton.mpr rfl) _ place) (name.imp hline)
  | .assign place name value, hplace =>
      have hparts := List.forall_mem_append.mp hplace
      .assign (hparts.2 _ (List.mem_singleton.mpr rfl) _ place)
        (name.imp hline) (value.imp hline hparts.1)
  | .call callee line arguments, hplace =>
      have hparts := List.forall_mem_append.mp hplace
      .call (callee.imp hline hparts.1) (hline line)
        (arguments.imp hline hparts.2)
  | .get object name, hplace => .get (object.imp hline hplace) (name.imp hline)
  | .set object name value, hplace =>
      have hparts := List.forall_mem_append.mp hplace
      .set (object.imp hline hparts.1) (name.imp hline)
        (value.imp hline hparts.2)
  | .this place line, hplace =>
      .this (hplace _ (List.mem_singleton.mpr rfl) _ place) (hline line)
  | .super place line name, hplace =>
      .super (hplace _ (List.mem_singleton.mpr rfl) _ place) (hline line)
        (name.imp hline)

theorem Expr.AllAlike.imp
    {exprs exprs' : List Expr} (hline : like.LinesBelow other) :
    Expr.AllAlike like exprs exprs' →
      (∀ id ∈ Expr.placesAll exprs, ∀ id',
        like.place id id' → other.place id id') →
      Expr.AllAlike other exprs exprs'
  | .nil, _ => .nil
  | .cons first rest, hplace =>
      have hparts := List.forall_mem_append.mp hplace
      .cons (first.imp hline hparts.1) (rest.imp hline hparts.2)

end

mutual

theorem Stmt.Alike.imp
    {stmt stmt' : Stmt} (hline : like.LinesBelow other) :
    stmt.Alike like stmt' →
      (∀ id ∈ stmt.places, ∀ id', like.place id id' → other.place id id') →
      stmt.Alike other stmt'
  | .expression expr, hplace => .expression (expr.imp hline hplace)
  | .print expr, hplace => .print (expr.imp hline hplace)
  | .var name .none, _ => .var (name.imp hline) .none
  | .var name (.some initial), hplace =>
      .var (name.imp hline) (.some (initial.imp hline hplace))
  | .block body, hplace => .block (body.imp hline hplace)
  | .branch test yes .none, hplace =>
      have hparts := List.forall_mem_append.mp hplace
      .branch (test.imp hline hparts.1) (yes.imp hline hparts.2) .none
  | .branch test yes (.some no), hplace =>
      have hparts := List.forall_mem_append.mp hplace
      have hbranches := List.forall_mem_append.mp hparts.2
      .branch (test.imp hline hparts.1) (yes.imp hline hbranches.1)
        (.some (no.imp hline hbranches.2))
  | .loop test body, hplace =>
      have hparts := List.forall_mem_append.mp hplace
      .loop (test.imp hline hparts.1) (body.imp hline hparts.2)
  | .function declaration, hplace => .function (declaration.imp hline hplace)
  | .ret line .none, _ => .ret (hline line) .none
  | .ret line (.some value), hplace =>
      .ret (hline line) (.some (value.imp hline hplace))
  | .classDecl name .none methods, hplace =>
      .classDecl (name.imp hline) .none (methods.imp hline hplace)
  | .classDecl name (.some parent) methods, hplace =>
      have hparts := List.forall_mem_append.mp hplace
      .classDecl (name.imp hline) (.some (parent.imp hline hparts.1))
        (methods.imp hline hparts.2)

theorem Stmt.AllAlike.imp
    {stmts stmts' : List Stmt} (hline : like.LinesBelow other) :
    Stmt.AllAlike like stmts stmts' →
      (∀ id ∈ Stmt.placesAll stmts, ∀ id',
        like.place id id' → other.place id id') →
      Stmt.AllAlike other stmts stmts'
  | .nil, _ => .nil
  | .cons first rest, hplace =>
      have hparts := List.forall_mem_append.mp hplace
      .cons (first.imp hline hparts.1) (rest.imp hline hparts.2)

theorem FunctionDecl.Alike.imp
    {declaration declaration' : FunctionDecl} (hline : like.LinesBelow other) :
    declaration.Alike like declaration' →
      (∀ id ∈ declaration.places, ∀ id',
        like.place id id' → other.place id id') →
      declaration.Alike other declaration'
  | .mk name params body, hplace =>
      .mk (name.imp hline) (params.imp fun _ _ h => h.imp hline)
        (body.imp hline hplace)

theorem FunctionDecl.AllAlike.imp
    {declarations declarations' : List FunctionDecl}
    (hline : like.LinesBelow other) :
    FunctionDecl.AllAlike like declarations declarations' →
      (∀ id ∈ FunctionDecl.placesAll declarations, ∀ id',
        like.place id id' → other.place id id') →
      FunctionDecl.AllAlike other declarations declarations'
  | .nil, _ => .nil
  | .cons first rest, hplace =>
      have hparts := List.forall_mem_append.mp hplace
      .cons (first.imp hline hparts.1) (rest.imp hline hparts.2)

end

end

/-! ## The same lines and places -/

theorem Ident.Alike.eq {a b : Ident} (h : a.Alike (.places Eq) b) : a = b := by
  cases a
  cases b
  obtain ⟨rfl, rfl⟩ := h
  rfl

mutual

theorem Expr.Alike.eq
    {expr expr' : Expr} (h : expr.Alike (.places Eq) expr') : expr = expr' := by
  cases h with
  | literal => rfl
  | group inner => rw [inner.eq]
  | unary operand line => cases line; rw [operand.eq]
  | binary left right line => cases line; rw [left.eq, right.eq]
  | logical left right => rw [left.eq, right.eq]
  | read place name => cases place; rw [name.eq]
  | assign place name value => cases place; rw [name.eq, value.eq]
  | call callee line arguments => cases line; rw [callee.eq, arguments.eq]
  | get object name => rw [object.eq, name.eq]
  | set object name value => rw [object.eq, name.eq, value.eq]
  | this place line => cases place; cases line; rfl
  | super place line name => cases place; cases line; rw [name.eq]

theorem Expr.AllAlike.eq
    {exprs exprs' : List Expr} (h : Expr.AllAlike (.places Eq) exprs exprs') :
    exprs = exprs' := by
  cases h with
  | nil => rfl
  | cons first rest => rw [first.eq, rest.eq]

end

theorem Expr.OptionAlike.eq
    {expr expr' : Option Expr} (h : Expr.OptionAlike (.places Eq) expr expr') :
    expr = expr' := by
  cases h with
  | none => rfl
  | some h => rw [h.eq]

mutual

theorem Stmt.Alike.eq
    {stmt stmt' : Stmt} (h : stmt.Alike (.places Eq) stmt') : stmt = stmt' := by
  cases h with
  | expression expr => rw [expr.eq]
  | print expr => rw [expr.eq]
  | var name initial => rw [name.eq, initial.eq]
  | block body => rw [body.eq]
  | branch test yes no =>
      cases no with
      | none => rw [test.eq, yes.eq]
      | some no => rw [test.eq, yes.eq, no.eq]
  | loop test body => rw [test.eq, body.eq]
  | function declaration => rw [declaration.eq]
  | ret line value => cases line; rw [value.eq]
  | classDecl name parent methods => rw [name.eq, parent.eq, methods.eq]

theorem Stmt.AllAlike.eq
    {stmts stmts' : List Stmt} (h : Stmt.AllAlike (.places Eq) stmts stmts') :
    stmts = stmts' := by
  cases h with
  | nil => rfl
  | cons first rest => rw [first.eq, rest.eq]

theorem FunctionDecl.Alike.eq
    {declaration declaration' : FunctionDecl}
    (h : declaration.Alike (.places Eq) declaration') :
    declaration = declaration' := by
  cases h with
  | mk name params body =>
      have hparams := params.imp fun _ _ => Ident.Alike.eq
      rw [List.forall₂_eq_eq_eq] at hparams
      rw [name.eq, hparams, body.eq]

theorem FunctionDecl.AllAlike.eq
    {declarations declarations' : List FunctionDecl}
    (h : FunctionDecl.AllAlike (.places Eq) declarations declarations') :
    declarations = declarations' := by
  cases h with
  | nil => rfl
  | cons first rest => rw [first.eq, rest.eq]

end

end LoxLang
