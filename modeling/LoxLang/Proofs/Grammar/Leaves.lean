import LoxLang.Proofs.Grammar.Derivation

/-!
# The leaves of a tree

What a tree ends in: its names, its literals and the word `this`.  Every leaf
of a tree that is derived from tokens stands among the tokens, apart from the
literal `true`, which a `for` loop without a condition gets for one.
-/

namespace LoxLang

/-- What a tree ends in. -/
inductive Leaf where
  | name (text : String)
  | literal (value : Literal)
  | this
deriving DecidableEq, Repr

def Ident.leaf (name : Ident) : Leaf :=
  .name name.name

mutual

/-- The leaves of an expression. -/
def Expr.leaves : Expr → List Leaf
  | .literal value => [.literal value]
  | .group inner => inner.leaves
  | .unary _ operand _ => operand.leaves
  | .binary left _ right _ => left.leaves ++ right.leaves
  | .logical left _ right => left.leaves ++ right.leaves
  | .read _ name => [name.leaf]
  | .assign _ name value => name.leaf :: value.leaves
  | .call callee _ arguments => callee.leaves ++ Expr.leavesAll arguments
  | .get object name => object.leaves ++ [name.leaf]
  | .set object name value => object.leaves ++ name.leaf :: value.leaves
  | .this _ _ => [.this]
  | .super _ _ method => [method.leaf]

def Expr.leavesAll : List Expr → List Leaf
  | [] => []
  | expr :: exprs => expr.leaves ++ Expr.leavesAll exprs

end

mutual

/-- The leaves of a statement. -/
def Stmt.leaves : Stmt → List Leaf
  | .expression expr => expr.leaves
  | .print expr => expr.leaves
  | .var name none => [name.leaf]
  | .var name (some initializer) => name.leaf :: initializer.leaves
  | .block body => Stmt.leavesAll body
  | .branch condition yes none => condition.leaves ++ yes.leaves
  | .branch condition yes (some no) =>
      condition.leaves ++ (yes.leaves ++ no.leaves)
  | .loop condition body => condition.leaves ++ body.leaves
  | .function declaration => declaration.leaves
  | .ret _ none => []
  | .ret _ (some value) => value.leaves
  | .classDecl name none methods =>
      name.leaf :: FunctionDecl.leavesAll methods
  | .classDecl name (some superclass) methods =>
      name.leaf :: (superclass.leaves ++ FunctionDecl.leavesAll methods)

def Stmt.leavesAll : List Stmt → List Leaf
  | [] => []
  | stmt :: stmts => stmt.leaves ++ Stmt.leavesAll stmts

def FunctionDecl.leaves : FunctionDecl → List Leaf
  | ⟨name, params, body⟩ =>
      name.leaf :: (params.map Ident.leaf ++ Stmt.leavesAll body)

def FunctionDecl.leavesAll : List FunctionDecl → List Leaf
  | [] => []
  | declaration :: declarations =>
      declaration.leaves ++ FunctionDecl.leavesAll declarations

end

/-- The leaves of a program. -/
def Program.leaves (program : Program) : List Leaf :=
  Stmt.leavesAll program

namespace Grammar

/-- The leaves that the tokens bring into a tree are good ones. -/
structure Gives (good : Leaf → Prop) (tokens : List Token) : Prop where
  this : good .this
  yes : good (.literal .yes)
  names : ∀ token ∈ tokens, token.kind = .identifier →
    good (.name token.lexeme)
  literals : ∀ token ∈ tokens, ∀ value, Denotes token.kind value →
    good (.literal value)

section
variable {good : Leaf → Prop}

theorem Gives.of_subset
    {tokens others : List Token} (h : Gives good tokens)
    (hsubset : others ⊆ tokens) : Gives good others where
  this := h.this
  yes := h.yes
  names token hmem := h.names token (hsubset hmem)
  literals token hmem := h.literals token (hsubset hmem)

theorem Gives.left
    {tokens others : List Token} (h : Gives good (tokens ++ others)) :
    Gives good tokens :=
  h.of_subset (List.subset_append_left ..)

theorem Gives.right
    {tokens others : List Token} (h : Gives good (tokens ++ others)) :
    Gives good others :=
  h.of_subset (List.subset_append_right ..)

theorem Gives.tail
    {token : Token} {tokens : List Token} (h : Gives good (token :: tokens)) :
    Gives good tokens :=
  h.of_subset (List.subset_cons_self ..)

theorem Gives.name
    {token : Token} {tokens : List Token} (h : Gives good (token :: tokens))
    (hkind : token.kind = .identifier) : good token.ident.leaf :=
  h.names token List.mem_cons_self hkind

/-- All leaves of the list are good ones. -/
def AllGood (good : Leaf → Prop) (leaves : List Leaf) : Prop :=
  ∀ leaf ∈ leaves, good leaf

theorem AllGood.append
    {leaves others : List Leaf} (h : AllGood good leaves)
    (hothers : AllGood good others) : AllGood good (leaves ++ others) :=
  List.forall_mem_append.mpr ⟨h, hothers⟩

theorem AllGood.cons
    {leaf : Leaf} {leaves : List Leaf} (h : good leaf)
    (hleaves : AllGood good leaves) : AllGood good (leaf :: leaves) :=
  List.forall_mem_cons.mpr ⟨h, hleaves⟩

theorem allGood_nil : AllGood good [] :=
  List.forall_mem_nil _

theorem allGood_single {leaf : Leaf} (h : good leaf) : AllGood good [leaf] :=
  .cons h allGood_nil

theorem Connective.leaves_join
    (connective : Connective) (left right : Expr) (line : Nat) :
    (connective.join left line right).leaves = left.leaves ++ right.leaves := by
  cases connective <;> simp [Connective.join, Expr.leaves]

mutual

theorem Assignment.leaves :
    Assignment ts n e m → Gives good ts → AllGood good e.leaves
  | .plain h, hts => h.leaves hts
  | .toName hname _ h, hts => .cons (hts.name hname) (h.leaves hts.tail.tail)
  | .toProperty hobject _ hname _ h, hts =>
      (hobject.leaves hts.left).append
        (.cons (hts.right.tail.name hname) (h.leaves hts.right.tail.tail.tail))

theorem Tiered.leaves :
    Tiered tier ts n e m → Gives good ts → AllGood good e.leaves
  | .operand h, hts => h.leaves hts
  | .join hleft _ hright, hts => by
      rw [Connective.leaves_join]
      exact (hleft.leaves hts.left).append (hright.leaves hts.right.tail)

theorem Operand.leaves :
    Operand tier ts n e m → Gives good ts → AllGood good e.leaves
  | .ofUnary h, hts => h.leaves hts
  | .ofFactor h, hts => h.leaves hts
  | .ofTerm h, hts => h.leaves hts
  | .ofComparison h, hts => h.leaves hts
  | .ofEquality h, hts => h.leaves hts
  | .ofConjunction h, hts => h.leaves hts

theorem Unary.leaves :
    Unary ts n e m → Gives good ts → AllGood good e.leaves
  | .ofCall h, hts => h.leaves hts
  | .sign _ h, hts => h.leaves hts.tail

theorem Call.leaves :
    Call ts n e m → Gives good ts → AllGood good e.leaves
  | .ofPrimary h, hts => h.leaves hts
  | .applyNothing h _ _, hts => (h.leaves hts.left).append allGood_nil
  | .apply h _ harguments _ _, hts =>
      (h.leaves hts.left).append (harguments.leaves hts.right.tail.left)
  | .property h _ hname, hts =>
      (h.leaves hts.left).append (allGood_single (hts.right.tail.name hname))

theorem Arguments.leaves :
    Arguments ts n es m → Gives good ts → AllGood good (Expr.leavesAll es)
  | .last h, hts => (h.leaves hts).append allGood_nil
  | .more h _ hmore, hts =>
      (h.leaves hts.left).append (hmore.leaves hts.right.tail)

theorem Primary.leaves :
    Primary ts n e m → Gives good ts → AllGood good e.leaves
  | .literal hvalue, hts =>
      allGood_single (hts.literals _ List.mem_cons_self _ hvalue)
  | .name hname, hts => allGood_single (hts.name hname)
  | .this _, hts => allGood_single hts.this
  | .super _ _ hname, hts => allGood_single (hts.tail.tail.name hname)
  | .group _ h _, hts => h.leaves hts.tail.left

end

theorem Variable.leaves :
    Variable ts n s m → Gives good ts → AllGood good s.leaves
  | .bare _ hname _, hts => allGood_single (hts.tail.name hname)
  | .initialized _ hname _ h _, hts =>
      .cons (hts.tail.name hname) (h.leaves hts.tail.tail.tail.left)

theorem Parameters.leaves {names : List Ident} :
    Parameters ts names → Gives good ts →
      AllGood good (names.map Ident.leaf)
  | .last hname, hts => allGood_single (hts.name hname)
  | .more hname _ hmore, hts =>
      .cons (hts.name hname) (hmore.leaves hts.tail.tail)

theorem MaybeParameters.leaves {names : List Ident}
    (h : MaybeParameters ts names) (hts : Gives good ts) :
    AllGood good (names.map Ident.leaf) := by
  cases h with
  | absent => exact allGood_nil
  | present h _ => exact h.leaves hts

theorem leaves_ret
    {line : Nat} {value : Option Expr} {ts : List Token} {n m : PlaceId}
    (h : MaybeExpr ts n value m) (hts : Gives good ts) :
    AllGood good (Stmt.ret line value).leaves := by
  cases h with
  | absent => exact allGood_nil
  | present h => exact h.leaves hts

theorem leaves_forCondition
    {test : Option Expr} {ts : List Token} {n m : PlaceId}
    (h : MaybeExpr ts n test m) (hts : Gives good ts) :
    AllGood good (forCondition test).leaves := by
  cases h with
  | absent => exact allGood_single hts.yes
  | present h => exact h.leaves hts

theorem leaves_forRound
    {body : Stmt} {increment : Option Expr} {ts : List Token} {n m : PlaceId}
    (hbody : AllGood good body.leaves)
    (h : MaybeExpr ts n increment m) (hts : Gives good ts) :
    AllGood good (forRound body increment).leaves := by
  cases h with
  | absent => exact hbody
  | present h => exact hbody.append ((h.leaves hts).append allGood_nil)

theorem leaves_forScope
    {loop : Stmt} {initializer : Option Stmt} {ts : List Token}
    {n m : PlaceId} (hloop : AllGood good loop.leaves)
    (h : ForStart ts n initializer m) (hts : Gives good ts) :
    AllGood good (forScope loop initializer).leaves := by
  cases h with
  | nothing => exact hloop
  | varDecl h => exact (h.leaves hts).append (hloop.append allGood_nil)
  | expression h =>
      exact (h.leaves hts.left).append (hloop.append allGood_nil)

mutual

theorem Statement.leaves :
    Statement hangs ts n s m → Gives good ts → AllGood good s.leaves
  | .expression h _, hts => h.leaves hts.left
  | .print _ h _, hts => h.leaves hts.tail.left
  | .ret _ h _, hts => leaves_ret h hts.tail.left
  | .block _ h _, hts => h.leaves hts.tail.left
  | .loop _ _ h _ hbody, hts =>
      (h.leaves hts.tail.tail.left).append
        (hbody.leaves hts.tail.tail.right.tail)
  | .ifThen _ _ h _ hthen, hts =>
      (h.leaves hts.tail.tail.left).append
        (hthen.leaves hts.tail.tail.right.tail)
  | .ifThenElse _ _ h _ hthen _ helse, hts =>
      (h.leaves hts.tail.tail.left).append
        ((hthen.leaves hts.tail.tail.right.tail.left).append
          (helse.leaves hts.tail.tail.right.tail.right.tail))
  | .forLoop _ _ hinitializer htest _ hincrement _ hbody, hts =>
      have hrest := hts.tail.tail.right
      have hround := leaves_forRound
        (hbody.leaves hrest.right.tail.right.tail) hincrement
        hrest.right.tail.left
      leaves_forScope ((leaves_forCondition htest hrest.left).append hround)
        hinitializer hts.tail.tail.left

theorem Declaration.leaves :
    Declaration ts n s m → Gives good ts → AllGood good s.leaves
  | .baseClass _ hname _ h _, hts =>
      .cons (hts.tail.name hname) (h.leaves hts.tail.tail.tail.left)
  | .derivedClass _ hname _ hparent _ h _, hts =>
      have hrest := hts.tail.tail.tail
      .cons (hts.tail.name hname)
        ((allGood_single (hrest.name hparent)).append
          (h.leaves hrest.tail.tail.left))
  | .function _ h, hts => h.leaves hts.tail
  | .varDecl h, hts => h.leaves hts
  | .statement h, hts => h.leaves hts

theorem Declarations.leaves :
    Declarations ts n ss m → Gives good ts →
      AllGood good (Stmt.leavesAll ss)
  | .nil, _ => allGood_nil
  | .cons h hrest, hts => (h.leaves hts.left).append (hrest.leaves hts.right)

theorem Callable.leaves :
    Callable ts n decl m → Gives good ts → AllGood good decl.leaves
  | .mk hname _ hparams _ _ h _, hts =>
      have hrest := hts.tail.tail
      .cons (hts.name hname)
        ((hparams.leaves hrest.left).append
          (h.leaves hrest.right.tail.tail.left))

theorem Methods.leaves :
    Methods ts n decls m → Gives good ts →
      AllGood good (FunctionDecl.leavesAll decls)
  | .nil, _ => allGood_nil
  | .cons h hrest, hts => (h.leaves hts.left).append (hrest.leaves hts.right)

end

end
end Grammar
end LoxLang
