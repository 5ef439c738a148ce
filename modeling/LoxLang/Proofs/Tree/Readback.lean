import LoxLang.Proofs.Tree.Forms

/-!
# Trees from forms

The form of a tree tells the tree, up to its lines and places.  This takes
leaves whose texts tell them apart.
-/

namespace LoxLang

open Grammar (AllGood)

/-- Lines and places do not matter. -/
def Likeness.shape : Likeness :=
  ⟨fun _ _ => True, fun _ _ => True⟩

/-- The leaves can be told apart by their texts, which are single words. -/
structure Leaf.Telling (good : Leaf → Prop) : Prop where
  nonempty : ∀ leaf, good leaf → leaf.text ≠ ""
  unbroken : ∀ leaf, good leaf → Form.Unbroken leaf.text
  distinct : ∀ leaf other, good leaf → good other →
    leaf.text = other.text → leaf = other

/-! ## The kinds of expressions -/

namespace Expr

/-- The kind of an expression. -/
inductive Kind where
  | leaf (value : Leaf)
  | group
  | unary (op : UnaryOp)
  | binary (op : BinaryOp)
  | logical (op : LogicalOp)
  | assign
  | call
  | get
  | set
  | super

def kind : Expr → Kind
  | .literal value => .leaf (.literal value)
  | .group _ => .group
  | .unary op _ _ => .unary op
  | .binary _ op _ _ => .binary op
  | .logical _ op _ => .logical op
  | .read _ name => .leaf name.leaf
  | .assign _ _ _ => .assign
  | .call _ _ _ => .call
  | .get _ _ => .get
  | .set _ _ _ => .set
  | .this _ _ => .leaf .this
  | .super _ _ _ => .super

/-- The heads that stand in front of a single part. -/
def Kind.ofUnary : List (String × Kind) :=
  [("-", .unary .negate), ("+", .unary .plus), ("!", .unary .not)]

/-- All other heads. -/
def Kind.ofHead : List (String × Kind) :=
  [("group", .group), ("=", .assign), ("call", .call), (".", .get),
    (".=", .set), ("super", .super), ("and", .logical .and),
    ("or", .logical .or), ("+", .binary .add), ("-", .binary .subtract),
    ("*", .binary .multiply), ("/", .binary .divide), ("%", .binary .modulo),
    ("==", .binary .equal), ("!=", .binary .notEqual), ("<", .binary .less),
    ("<=", .binary .lessEqual), (">", .binary .greater),
    (">=", .binary .greaterEqual)]

/-- The kind of a node with this head and so many parts. -/
def Kind.ofNode (head : String) (count : Nat) : Option Kind :=
  if count = 1 then (Kind.ofUnary.lookup head).or (Kind.ofHead.lookup head)
  else Kind.ofHead.lookup head

private theorem kind_of_node
    {expr : Expr} {head : String} {parts : List Form}
    (h : expr.form = .node head parts) :
    some expr.kind = Kind.ofNode head parts.length := by
  cases expr with
  | literal value => cases h
  | read id name => cases h
  | this id line => cases h
  | unary op operand line =>
      cases h
      cases op <;> rfl
  | binary left op right line =>
      cases h
      cases op <;> rfl
  | logical left op right =>
      cases h
      cases op <;> rfl
  | call callee line arguments =>
      cases h
      unfold Kind.ofNode
      split <;> rfl
  | group inner => cases h; rfl
  | assign id name value => cases h; rfl
  | get object name => cases h; rfl
  | set object name value => cases h; rfl
  | super id line method => cases h; rfl

private theorem kind_of_word
    {expr : Expr} {text : String} (h : expr.form = .word text) :
    ∃ leaf ∈ expr.leaves, expr.kind = .leaf leaf ∧ leaf.text = text := by
  cases expr with
  | literal value =>
      cases h
      exact ⟨_, List.mem_singleton.mpr rfl, rfl, rfl⟩
  | read id name =>
      cases h
      exact ⟨_, List.mem_singleton.mpr rfl, rfl, rfl⟩
  | this id line =>
      cases h
      exact ⟨_, List.mem_singleton.mpr rfl, rfl, rfl⟩
  | _ => cases h

variable {good : Leaf → Prop}

theorem kind_eq_of_form
    (htelling : Leaf.Telling good) {expr expr' : Expr}
    (hgood : AllGood good expr.leaves) (hgood' : AllGood good expr'.leaves)
    (h : expr.form = expr'.form) : expr.kind = expr'.kind := by
  cases hform : expr.form with
  | word text =>
      obtain ⟨leaf, hmem, hkind, htext⟩ := kind_of_word hform
      obtain ⟨leaf', hmem', hkind', htext'⟩ := kind_of_word (h ▸ hform)
      rw [hkind, hkind', htelling.distinct leaf leaf' (hgood leaf hmem)
        (hgood' leaf' hmem') (htext.trans htext'.symm)]
  | node head parts =>
      exact Option.some.inj
        ((kind_of_node hform).trans (kind_of_node (h ▸ hform)).symm)

end Expr

/-! ## The kinds of statements -/

namespace Stmt

/-- The kind of a statement. -/
inductive Kind where
  | expression
  | print
  | var
  | block
  | branch
  | loop
  | function
  | ret
  | classDecl

def kind : Stmt → Kind
  | .expression _ => .expression
  | .print _ => .print
  | .var _ _ => .var
  | .block _ => .block
  | .branch _ _ _ => .branch
  | .loop _ _ => .loop
  | .function _ => .function
  | .ret _ _ => .ret
  | .classDecl _ _ _ => .classDecl

/-- The heads of statements, which are all different. -/
def Kind.ofHead : List (String × Kind) :=
  [(";", .expression), ("print", .print), ("var", .var), ("block", .block),
    ("if", .branch), ("while", .loop), ("fun", .function), ("return", .ret),
    ("class", .classDecl)]

private theorem kind_of_node (stmt : Stmt) :
    ∃ head parts, stmt.form = .node head parts ∧
      Kind.ofHead.lookup head = some stmt.kind := by
  cases stmt with
  | expression expr => exact ⟨_, _, rfl, rfl⟩
  | print expr => exact ⟨_, _, rfl, rfl⟩
  | var name initializer => cases initializer <;> exact ⟨_, _, rfl, rfl⟩
  | block body => exact ⟨_, _, rfl, rfl⟩
  | branch condition yes no => cases no <;> exact ⟨_, _, rfl, rfl⟩
  | loop condition body => exact ⟨_, _, rfl, rfl⟩
  | function declaration => exact ⟨_, _, rfl, rfl⟩
  | ret line value => cases value <;> exact ⟨_, _, rfl, rfl⟩
  | classDecl name superclass methods =>
      cases superclass <;> exact ⟨_, _, rfl, rfl⟩

theorem kind_eq_of_form
    {stmt stmt' : Stmt} (h : stmt.form = stmt'.form) :
    stmt.kind = stmt'.kind := by
  obtain ⟨head, parts, hform, hkind⟩ := kind_of_node stmt
  obtain ⟨head', parts', hform', hkind'⟩ := kind_of_node stmt'
  rw [hform, hform'] at h
  cases h
  exact Option.some.inj (hkind.symm.trans hkind')

end Stmt

/-! ## Plain forms -/

section
open Form (Plain AllPlain Unbroken)

theorem UnaryOp.unbroken_sign (op : UnaryOp) : Unbroken op.sign := by
  cases op <;> rfl

theorem BinaryOp.unbroken_sign (op : BinaryOp) : Unbroken op.sign := by
  cases op <;> rfl

theorem LogicalOp.unbroken_sign (op : LogicalOp) : Unbroken op.sign := by
  cases op <;> rfl

theorem Grammar.AllGood.left
    {good : Leaf → Prop} {leaves others : List Leaf}
    (h : AllGood good (leaves ++ others)) : AllGood good leaves :=
  (List.forall_mem_append.mp h).1

theorem Grammar.AllGood.right
    {good : Leaf → Prop} {leaves others : List Leaf}
    (h : AllGood good (leaves ++ others)) : AllGood good others :=
  (List.forall_mem_append.mp h).2

theorem Grammar.AllGood.head
    {good : Leaf → Prop} {leaf : Leaf} {leaves : List Leaf}
    (h : AllGood good (leaf :: leaves)) : good leaf :=
  h leaf List.mem_cons_self

theorem Grammar.AllGood.tail
    {good : Leaf → Prop} {leaf : Leaf} {leaves : List Leaf}
    (h : AllGood good (leaf :: leaves)) : AllGood good leaves :=
  fun other hmem => h other (List.mem_cons_of_mem leaf hmem)

variable {good : Leaf → Prop}

theorem Leaf.plain_form
    (htelling : Leaf.Telling good) {leaf : Leaf} (h : good leaf) :
    leaf.form.Plain :=
  ⟨htelling.nonempty leaf h, htelling.unbroken leaf h⟩

mutual

theorem Expr.plain_form (htelling : Leaf.Telling good) :
    (expr : Expr) → AllGood good expr.leaves → expr.form.Plain
  | .literal _, h => Leaf.plain_form htelling h.head
  | .group inner, h => ⟨rfl, Expr.plain_form htelling inner h, trivial⟩
  | .unary op operand _, h =>
      ⟨op.unbroken_sign, Expr.plain_form htelling operand h, trivial⟩
  | .binary left op right _, h =>
      ⟨op.unbroken_sign, Expr.plain_form htelling left h.left,
        Expr.plain_form htelling right h.right, trivial⟩
  | .logical left op right, h =>
      ⟨op.unbroken_sign, Expr.plain_form htelling left h.left,
        Expr.plain_form htelling right h.right, trivial⟩
  | .read _ _, h => Leaf.plain_form htelling h.head
  | .assign _ _ value, h =>
      ⟨rfl, Leaf.plain_form htelling h.head,
        Expr.plain_form htelling value h.tail, trivial⟩
  | .call callee _ arguments, h =>
      ⟨rfl, Expr.plain_form htelling callee h.left,
        Expr.allPlain_forms htelling arguments h.right⟩
  | .get object _, h =>
      ⟨rfl, Expr.plain_form htelling object h.left,
        Leaf.plain_form htelling h.right.head, trivial⟩
  | .set object _ value, h =>
      ⟨rfl, Expr.plain_form htelling object h.left,
        Leaf.plain_form htelling h.right.head,
        Expr.plain_form htelling value h.right.tail, trivial⟩
  | .this _ _, h => Leaf.plain_form htelling h.head
  | .super _ _ _, h => ⟨rfl, Leaf.plain_form htelling h.head, trivial⟩

theorem Expr.allPlain_forms (htelling : Leaf.Telling good) :
    (exprs : List Expr) → AllGood good (Expr.leavesAll exprs) →
      AllPlain (Expr.forms exprs)
  | [], _ => trivial
  | expr :: exprs, h =>
      ⟨Expr.plain_form htelling expr h.left,
        Expr.allPlain_forms htelling exprs h.right⟩

end

theorem Ident.allPlain_forms
    (htelling : Leaf.Telling good) {names : List Ident}
    (h : AllGood good (names.map Ident.leaf)) :
    AllPlain (names.map Ident.form) := by
  induction names with
  | nil => trivial
  | cons name names ih =>
      exact ⟨Leaf.plain_form htelling h.head, ih h.tail⟩

theorem Ident.plain_listForm
    (htelling : Leaf.Telling good) {names : List Ident}
    (h : AllGood good (names.map Ident.leaf)) :
    (Ident.listForm names).Plain := by
  cases names with
  | nil => exact ⟨rfl, trivial⟩
  | cons name names =>
      exact ⟨htelling.unbroken _ h.head,
        Ident.allPlain_forms htelling h.tail⟩

mutual

theorem Stmt.plain_form (htelling : Leaf.Telling good) :
    (stmt : Stmt) → AllGood good stmt.leaves → stmt.form.Plain
  | .expression expr, h => ⟨rfl, Expr.plain_form htelling expr h, trivial⟩
  | .print expr, h => ⟨rfl, Expr.plain_form htelling expr h, trivial⟩
  | .var _ none, h => ⟨rfl, Leaf.plain_form htelling h.head, trivial⟩
  | .var _ (some value), h =>
      ⟨rfl, Leaf.plain_form htelling h.head,
        Expr.plain_form htelling value h.tail, trivial⟩
  | .block body, h => ⟨rfl, Stmt.allPlain_forms htelling body h⟩
  | .branch condition yes none, h =>
      ⟨rfl, Expr.plain_form htelling condition h.left,
        Stmt.plain_form htelling yes h.right, trivial⟩
  | .branch condition yes (some no), h =>
      ⟨rfl, Expr.plain_form htelling condition h.left,
        Stmt.plain_form htelling yes h.right.left,
        Stmt.plain_form htelling no h.right.right, trivial⟩
  | .loop condition body, h =>
      ⟨rfl, Expr.plain_form htelling condition h.left,
        Stmt.plain_form htelling body h.right, trivial⟩
  | .function declaration, h =>
      ⟨rfl, FunctionDecl.plain_parts htelling declaration h⟩
  | .ret _ none, _ => ⟨rfl, trivial⟩
  | .ret _ (some value), h =>
      ⟨rfl, Expr.plain_form htelling value h, trivial⟩
  | .classDecl _ none methods, h =>
      ⟨rfl, Leaf.plain_form htelling h.head,
        FunctionDecl.allPlain_forms htelling methods h.tail⟩
  | .classDecl _ (some superclass) methods, h =>
      ⟨rfl, Leaf.plain_form htelling h.head, ⟨by decide, rfl⟩,
        Expr.plain_form htelling superclass h.tail.left,
        FunctionDecl.allPlain_forms htelling methods h.tail.right⟩

theorem Stmt.allPlain_forms (htelling : Leaf.Telling good) :
    (stmts : List Stmt) → AllGood good (Stmt.leavesAll stmts) →
      AllPlain (Stmt.forms stmts)
  | [], _ => trivial
  | stmt :: stmts, h =>
      ⟨Stmt.plain_form htelling stmt h.left,
        Stmt.allPlain_forms htelling stmts h.right⟩

theorem FunctionDecl.plain_parts (htelling : Leaf.Telling good) :
    (declaration : FunctionDecl) → AllGood good declaration.leaves →
      AllPlain declaration.parts
  | ⟨_, _, body⟩, h =>
      ⟨Leaf.plain_form htelling h.head,
        Ident.plain_listForm htelling h.tail.left,
        ⟨rfl, Stmt.allPlain_forms htelling body h.tail.right⟩, trivial⟩

theorem FunctionDecl.allPlain_forms (htelling : Leaf.Telling good) :
    (methods : List FunctionDecl) →
      AllGood good (FunctionDecl.leavesAll methods) →
      AllPlain (FunctionDecl.forms methods)
  | [], _ => trivial
  | method :: methods, h =>
      ⟨⟨rfl, FunctionDecl.plain_parts htelling method h.left⟩,
        FunctionDecl.allPlain_forms htelling methods h.right⟩

end

/-! ## Trees with the same form -/

theorem Ident.alike_of_form
    {name name' : Ident} (h : name.form = name'.form) :
    name.Alike .shape name' :=
  ⟨Form.word.inj h, trivial⟩

mutual

/-- Two expressions with the same form are alike. -/
theorem Expr.alike_of_form (htelling : Leaf.Telling good) :
    (expr expr' : Expr) → AllGood good expr.leaves →
      AllGood good expr'.leaves → expr.form = expr'.form →
      expr.Alike .shape expr'
  | .literal value, expr', hgood, hgood', h => by
      have hkind := Expr.kind_eq_of_form htelling hgood hgood' h
      cases expr' with
      | literal value' =>
          cases hkind
          exact .literal
      | _ => cases hkind
  | .group inner, expr', hgood, hgood', h => by
      have hkind := Expr.kind_eq_of_form htelling hgood hgood' h
      cases expr' with
      | group inner' =>
          simp only [Expr.form, Form.node.injEq, List.cons.injEq, and_true,
            true_and] at h
          exact .group (Expr.alike_of_form htelling inner inner' hgood hgood' h)
      | _ => cases hkind
  | .unary op operand line, expr', hgood, hgood', h => by
      have hkind := Expr.kind_eq_of_form htelling hgood hgood' h
      cases expr' with
      | unary op' operand' line' =>
          cases hkind
          simp only [Expr.form, Form.node.injEq, List.cons.injEq, and_true,
            true_and] at h
          exact .unary (Expr.alike_of_form htelling operand operand' hgood
            hgood' h) trivial
      | _ => cases hkind
  | .binary left op right line, expr', hgood, hgood', h => by
      have hkind := Expr.kind_eq_of_form htelling hgood hgood' h
      cases expr' with
      | binary left' op' right' line' =>
          cases hkind
          simp only [Expr.form, Form.node.injEq, List.cons.injEq, and_true,
            true_and] at h
          exact .binary
            (Expr.alike_of_form htelling left left' hgood.left hgood'.left h.1)
            (Expr.alike_of_form htelling right right' hgood.right hgood'.right
              h.2) trivial
      | _ => cases hkind
  | .logical left op right, expr', hgood, hgood', h => by
      have hkind := Expr.kind_eq_of_form htelling hgood hgood' h
      cases expr' with
      | logical left' op' right' =>
          cases hkind
          simp only [Expr.form, Form.node.injEq, List.cons.injEq, and_true,
            true_and] at h
          exact .logical
            (Expr.alike_of_form htelling left left' hgood.left hgood'.left h.1)
            (Expr.alike_of_form htelling right right' hgood.right hgood'.right
              h.2)
      | _ => cases hkind
  | .read id name, expr', hgood, hgood', h => by
      have hkind := Expr.kind_eq_of_form htelling hgood hgood' h
      cases expr' with
      | read id' name' => exact .read trivial (Ident.alike_of_form h)
      | _ => cases hkind
  | .assign id name value, expr', hgood, hgood', h => by
      have hkind := Expr.kind_eq_of_form htelling hgood hgood' h
      cases expr' with
      | assign id' name' value' =>
          simp only [Expr.form, Form.node.injEq, List.cons.injEq, and_true,
            true_and] at h
          exact .assign trivial (Ident.alike_of_form h.1)
            (Expr.alike_of_form htelling value value' hgood.tail hgood'.tail
              h.2)
      | _ => cases hkind
  | .call callee line arguments, expr', hgood, hgood', h => by
      have hkind := Expr.kind_eq_of_form htelling hgood hgood' h
      cases expr' with
      | call callee' line' arguments' =>
          simp only [Expr.form, Form.node.injEq, List.cons.injEq, true_and]
            at h
          exact .call
            (Expr.alike_of_form htelling callee callee' hgood.left hgood'.left
              h.1) trivial
            (Expr.allAlike_of_forms htelling arguments arguments' hgood.right
              hgood'.right h.2)
      | _ => cases hkind
  | .get object name, expr', hgood, hgood', h => by
      have hkind := Expr.kind_eq_of_form htelling hgood hgood' h
      cases expr' with
      | get object' name' =>
          simp only [Expr.form, Form.node.injEq, List.cons.injEq, and_true,
            true_and] at h
          exact .get
            (Expr.alike_of_form htelling object object' hgood.left hgood'.left
              h.1) (Ident.alike_of_form h.2)
      | _ => cases hkind
  | .set object name value, expr', hgood, hgood', h => by
      have hkind := Expr.kind_eq_of_form htelling hgood hgood' h
      cases expr' with
      | set object' name' value' =>
          simp only [Expr.form, Form.node.injEq, List.cons.injEq, and_true,
            true_and] at h
          exact .set
            (Expr.alike_of_form htelling object object' hgood.left hgood'.left
              h.1) (Ident.alike_of_form h.2.1)
            (Expr.alike_of_form htelling value value' hgood.right.tail
              hgood'.right.tail h.2.2)
      | _ => cases hkind
  | .this id line, expr', hgood, hgood', h => by
      have hkind := Expr.kind_eq_of_form htelling hgood hgood' h
      cases expr' with
      | this id' line' => exact .this trivial trivial
      | _ => cases hkind
  | .super id line method, expr', hgood, hgood', h => by
      have hkind := Expr.kind_eq_of_form htelling hgood hgood' h
      cases expr' with
      | super id' line' method' =>
          simp only [Expr.form, Form.node.injEq, List.cons.injEq, and_true,
            true_and] at h
          exact .super trivial trivial (Ident.alike_of_form h)
      | _ => cases hkind

theorem Expr.allAlike_of_forms (htelling : Leaf.Telling good) :
    (exprs exprs' : List Expr) → AllGood good (Expr.leavesAll exprs) →
      AllGood good (Expr.leavesAll exprs') →
      Expr.forms exprs = Expr.forms exprs' →
      Expr.AllAlike .shape exprs exprs'
  | [], exprs', _, _, h => by
      cases exprs' with
      | nil => exact .nil
      | cons expr' exprs' => cases h
  | expr :: exprs, exprs', hgood, hgood', h => by
      cases exprs' with
      | nil => cases h
      | cons expr' exprs' =>
          have hparts := List.cons.inj h
          exact .cons
            (Expr.alike_of_form htelling expr expr' hgood.left hgood'.left
              hparts.1)
            (Expr.allAlike_of_forms htelling exprs exprs' hgood.right
              hgood'.right hparts.2)

end

theorem Ident.allAlike_of_forms
    {names names' : List Ident}
    (h : names.map Ident.form = names'.map Ident.form) :
    List.Forall₂ (Ident.Alike .shape) names names' := by
  induction names generalizing names' with
  | nil =>
      cases names' with
      | nil => exact .nil
      | cons name' names' => cases h
  | cons name names ih =>
      cases names' with
      | nil => cases h
      | cons name' names' =>
          have hparts := List.cons.inj h
          exact .cons (Ident.alike_of_form hparts.1) (ih hparts.2)

/-- Parameters are told by the place in which they stand, even if one of them
is spelled like a head. -/
theorem Ident.allAlike_of_listForm
    (htelling : Leaf.Telling good) {names names' : List Ident}
    (hgood : AllGood good (names.map Ident.leaf))
    (hgood' : AllGood good (names'.map Ident.leaf))
    (h : Ident.listForm names = Ident.listForm names') :
    List.Forall₂ (Ident.Alike .shape) names names' := by
  cases names with
  | nil =>
      cases names' with
      | nil => exact .nil
      | cons name' names' =>
          have hhead := (Form.node.inj h).1
          exact absurd hhead.symm (htelling.nonempty _ hgood'.head)
  | cons name names =>
      cases names' with
      | nil =>
          have hhead := (Form.node.inj h).1
          exact absurd hhead (htelling.nonempty _ hgood.head)
      | cons name' names' =>
          have hparts := Form.node.inj h
          exact .cons ⟨hparts.1, trivial⟩ (Ident.allAlike_of_forms hparts.2)

mutual

/-- Two statements with the same form are alike. -/
theorem Stmt.alike_of_form (htelling : Leaf.Telling good) :
    (stmt stmt' : Stmt) → AllGood good stmt.leaves →
      AllGood good stmt'.leaves → stmt.form = stmt'.form →
      stmt.Alike .shape stmt'
  | .expression expr, stmt', hgood, hgood', h => by
      have hkind := Stmt.kind_eq_of_form h
      cases stmt' with
      | expression expr' =>
          simp only [Stmt.form, Form.node.injEq, List.cons.injEq, and_true,
            true_and] at h
          exact .expression
            (Expr.alike_of_form htelling expr expr' hgood hgood' h)
      | _ => cases hkind
  | .print expr, stmt', hgood, hgood', h => by
      have hkind := Stmt.kind_eq_of_form h
      cases stmt' with
      | print expr' =>
          simp only [Stmt.form, Form.node.injEq, List.cons.injEq, and_true,
            true_and] at h
          exact .print (Expr.alike_of_form htelling expr expr' hgood hgood' h)
      | _ => cases hkind
  | .var name none, stmt', hgood, hgood', h => by
      have hkind := Stmt.kind_eq_of_form h
      cases stmt' with
      | var name' initializer' =>
          cases initializer' with
          | none =>
              simp only [Stmt.form, Form.node.injEq, List.cons.injEq, and_true,
                true_and] at h
              exact .var (Ident.alike_of_form h) .none
          | some value' => simp [Stmt.form] at h
      | _ => cases hkind
  | .var name (some value), stmt', hgood, hgood', h => by
      have hkind := Stmt.kind_eq_of_form h
      cases stmt' with
      | var name' initializer' =>
          cases initializer' with
          | none => simp [Stmt.form] at h
          | some value' =>
              simp only [Stmt.form, Form.node.injEq, List.cons.injEq, and_true,
                true_and] at h
              exact .var (Ident.alike_of_form h.1)
                (.some (Expr.alike_of_form htelling value value' hgood.tail
                  hgood'.tail h.2))
      | _ => cases hkind
  | .block body, stmt', hgood, hgood', h => by
      have hkind := Stmt.kind_eq_of_form h
      cases stmt' with
      | block body' =>
          exact .block (Stmt.allAlike_of_forms htelling body body' hgood hgood'
            (Form.node.inj h).2)
      | _ => cases hkind
  | .branch condition yes none, stmt', hgood, hgood', h => by
      have hkind := Stmt.kind_eq_of_form h
      cases stmt' with
      | branch condition' yes' no' =>
          cases no' with
          | none =>
              simp only [Stmt.form, Form.node.injEq, List.cons.injEq, and_true,
                true_and] at h
              exact .branch
                (Expr.alike_of_form htelling condition condition' hgood.left
                  hgood'.left h.1)
                (Stmt.alike_of_form htelling yes yes' hgood.right hgood'.right
                  h.2) .none
          | some no' => simp [Stmt.form] at h
      | _ => cases hkind
  | .branch condition yes (some no), stmt', hgood, hgood', h => by
      have hkind := Stmt.kind_eq_of_form h
      cases stmt' with
      | branch condition' yes' no' =>
          cases no' with
          | none => simp [Stmt.form] at h
          | some no' =>
              simp only [Stmt.form, Form.node.injEq, List.cons.injEq, and_true,
                true_and] at h
              exact .branch
                (Expr.alike_of_form htelling condition condition' hgood.left
                  hgood'.left h.1)
                (Stmt.alike_of_form htelling yes yes' hgood.right.left
                  hgood'.right.left h.2.1)
                (.some (Stmt.alike_of_form htelling no no' hgood.right.right
                  hgood'.right.right h.2.2))
      | _ => cases hkind
  | .loop condition body, stmt', hgood, hgood', h => by
      have hkind := Stmt.kind_eq_of_form h
      cases stmt' with
      | loop condition' body' =>
          simp only [Stmt.form, Form.node.injEq, List.cons.injEq, and_true,
            true_and] at h
          exact .loop
            (Expr.alike_of_form htelling condition condition' hgood.left
              hgood'.left h.1)
            (Stmt.alike_of_form htelling body body' hgood.right hgood'.right
              h.2)
      | _ => cases hkind
  | .function declaration, stmt', hgood, hgood', h => by
      have hkind := Stmt.kind_eq_of_form h
      cases stmt' with
      | function declaration' =>
          exact .function (FunctionDecl.alike_of_parts htelling declaration
            declaration' hgood hgood' (Form.node.inj h).2)
      | _ => cases hkind
  | .ret line none, stmt', hgood, hgood', h => by
      have hkind := Stmt.kind_eq_of_form h
      cases stmt' with
      | ret line' value' =>
          cases value' with
          | none => exact .ret trivial .none
          | some value' => simp [Stmt.form] at h
      | _ => cases hkind
  | .ret line (some value), stmt', hgood, hgood', h => by
      have hkind := Stmt.kind_eq_of_form h
      cases stmt' with
      | ret line' value' =>
          cases value' with
          | none => simp [Stmt.form] at h
          | some value' =>
              simp only [Stmt.form, Form.node.injEq, List.cons.injEq, and_true,
                true_and] at h
              exact .ret trivial (.some (Expr.alike_of_form htelling value
                value' hgood hgood' h))
      | _ => cases hkind
  | .classDecl name none methods, stmt', hgood, hgood', h => by
      have hkind := Stmt.kind_eq_of_form h
      cases stmt' with
      | classDecl name' superclass' methods' =>
          cases superclass' with
          | none =>
              simp only [Stmt.form, Form.node.injEq, List.cons.injEq, true_and]
                at h
              exact .classDecl (Ident.alike_of_form h.1) .none
                (FunctionDecl.allAlike_of_forms htelling methods methods'
                  hgood.tail hgood'.tail h.2)
          | some superclass' =>
              cases methods <;> simp [Stmt.form, FunctionDecl.forms] at h
      | _ => cases hkind
  | .classDecl name (some superclass) methods, stmt', hgood, hgood', h => by
      have hkind := Stmt.kind_eq_of_form h
      cases stmt' with
      | classDecl name' superclass' methods' =>
          cases superclass' with
          | none =>
              cases methods' <;> simp [Stmt.form, FunctionDecl.forms] at h
          | some superclass' =>
              simp only [Stmt.form, Form.node.injEq, List.cons.injEq, true_and]
                at h
              exact .classDecl (Ident.alike_of_form h.1)
                (.some (Expr.alike_of_form htelling superclass superclass'
                  hgood.tail.left hgood'.tail.left h.2.1))
                (FunctionDecl.allAlike_of_forms htelling methods methods'
                  hgood.tail.right hgood'.tail.right h.2.2)
      | _ => cases hkind

theorem Stmt.allAlike_of_forms (htelling : Leaf.Telling good) :
    (stmts stmts' : List Stmt) → AllGood good (Stmt.leavesAll stmts) →
      AllGood good (Stmt.leavesAll stmts') →
      Stmt.forms stmts = Stmt.forms stmts' →
      Stmt.AllAlike .shape stmts stmts'
  | [], stmts', _, _, h => by
      cases stmts' with
      | nil => exact .nil
      | cons stmt' stmts' => cases h
  | stmt :: stmts, stmts', hgood, hgood', h => by
      cases stmts' with
      | nil => cases h
      | cons stmt' stmts' =>
          have hparts := List.cons.inj h
          exact .cons
            (Stmt.alike_of_form htelling stmt stmt' hgood.left hgood'.left
              hparts.1)
            (Stmt.allAlike_of_forms htelling stmts stmts' hgood.right
              hgood'.right hparts.2)

theorem FunctionDecl.alike_of_parts (htelling : Leaf.Telling good) :
    (declaration declaration' : FunctionDecl) →
      AllGood good declaration.leaves → AllGood good declaration'.leaves →
      declaration.parts = declaration'.parts →
      declaration.Alike .shape declaration'
  | ⟨name, params, body⟩, ⟨name', params', body'⟩, hgood, hgood', h => by
      simp only [FunctionDecl.parts, Form.node.injEq, List.cons.injEq,
        and_true, true_and] at h
      exact .mk (Ident.alike_of_form h.1)
        (Ident.allAlike_of_listForm htelling hgood.tail.left hgood'.tail.left
          h.2.1)
        (Stmt.allAlike_of_forms htelling body body' hgood.tail.right
          hgood'.tail.right h.2.2)

theorem FunctionDecl.allAlike_of_forms (htelling : Leaf.Telling good) :
    (methods methods' : List FunctionDecl) →
      AllGood good (FunctionDecl.leavesAll methods) →
      AllGood good (FunctionDecl.leavesAll methods') →
      FunctionDecl.forms methods = FunctionDecl.forms methods' →
      FunctionDecl.AllAlike .shape methods methods'
  | [], methods', _, _, h => by
      cases methods' with
      | nil => exact .nil
      | cons method' methods' => cases h
  | method :: methods, methods', hgood, hgood', h => by
      cases methods' with
      | nil => cases h
      | cons method' methods' =>
          have hparts := List.cons.inj h
          exact .cons
            (FunctionDecl.alike_of_parts htelling method method' hgood.left
              hgood'.left (Form.node.inj hparts.1).2)
            (FunctionDecl.allAlike_of_forms htelling methods methods'
              hgood.right hgood'.right hparts.2)

end

/-- Two programs that are printed in the same way are alike. -/
theorem Program.alike_of_printed
    (htelling : Leaf.Telling good) {program program' : Program}
    (hgood : AllGood good program.leaves)
    (hgood' : AllGood good program'.leaves)
    (h : Program.printed program = Program.printed program') :
    Stmt.AllAlike .shape program program' := by
  have hlines : Form.lines (Stmt.forms program) =
      Form.lines (Stmt.forms program') := by
    rw [Program.lines_forms, Program.lines_forms, h]
  exact Stmt.allAlike_of_forms htelling program program' hgood hgood'
    (Form.lines_inj (Stmt.allPlain_forms htelling program hgood)
      (Stmt.allPlain_forms htelling program' hgood') hlines)

end
end LoxLang
