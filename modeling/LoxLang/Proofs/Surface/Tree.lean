import LoxLang.Proofs.Grammar.Soundness

/-!
# Programs as they are written

Trees in which a `for` loop is a statement of its own, with its clauses as they
stand in the text.  Statements and declarations are kept apart, so that the body
of a loop or of a branch is never a declaration.  `expand` puts the `while` loop
in the place of each `for` loop, all the way down; what it gives are the trees
that are run.  The grammar derives both kinds of trees from the same tokens.
-/

namespace LoxLang
namespace Surface

/-- What a `for` loop can start with. -/
inductive Initializer where
  | var (name : Ident) (value : Option Expr)
  | expression (expr : Expr)

mutual

inductive Stmt where
  | expression (expr : Expr)
  | print (expr : Expr)
  | ret (line : Nat) (value : Option Expr)
  | block (body : List Decl)
  | branch (condition : Expr) (thenBranch : Stmt) (elseBranch : Option Stmt)
  | loop (condition : Expr) (body : Stmt)
  | forLoop (initializer : Option Initializer) (condition : Option Expr)
      (increment : Option Expr) (body : Stmt)

inductive Decl where
  | var (name : Ident) (value : Option Expr)
  | function (declaration : FunctionDecl)
  | classDecl (name : Ident) (superclass : Option Expr)
      (methods : List FunctionDecl)
  | statement (stmt : Stmt)

structure FunctionDecl where
  name : Ident
  params : List Ident
  body : List Decl

end

abbrev Program := List Decl

/-! ## Expansion -/

def Initializer.expand : Initializer → LoxLang.Stmt
  | .var name value => .var name value
  | .expression expr => .expression expr

mutual

/-- The statement with `while` loops only. -/
def Stmt.expand : Stmt → LoxLang.Stmt
  | .expression expr => .expression expr
  | .print expr => .print expr
  | .ret line value => .ret line value
  | .block body => .block (Decl.expandAll body)
  | .branch condition yes none => .branch condition yes.expand none
  | .branch condition yes (some no) =>
      .branch condition yes.expand (some no.expand)
  | .loop condition body => .loop condition body.expand
  | .forLoop initializer condition increment body =>
      Grammar.ForClauses.loop
        ⟨initializer.map Initializer.expand, condition, increment⟩ body.expand

def Decl.expand : Decl → LoxLang.Stmt
  | .var name value => .var name value
  | .function declaration => .function declaration.expand
  | .classDecl name superclass methods =>
      .classDecl name superclass (FunctionDecl.expandAll methods)
  | .statement stmt => stmt.expand

def Decl.expandAll : List Decl → List LoxLang.Stmt
  | [] => []
  | decl :: decls => decl.expand :: Decl.expandAll decls

def FunctionDecl.expand : FunctionDecl → LoxLang.FunctionDecl
  | ⟨name, params, body⟩ => ⟨name, params, Decl.expandAll body⟩

def FunctionDecl.expandAll : List FunctionDecl → List LoxLang.FunctionDecl
  | [] => []
  | declaration :: declarations =>
      declaration.expand :: FunctionDecl.expandAll declarations

end

section
variable (declaration : FunctionDecl)

@[simp] theorem FunctionDecl.name_expand :
    declaration.expand.name = declaration.name := by
  cases declaration
  rfl

@[simp] theorem FunctionDecl.params_expand :
    declaration.expand.params = declaration.params := by
  cases declaration
  rfl

end

theorem FunctionDecl.expandAll_eq (declarations : List FunctionDecl) :
    expandAll declarations = declarations.map expand := by
  induction declarations with
  | nil => rfl
  | cons declaration declarations ih =>
      rw [expandAll, List.map_cons, ih]

/-! ## Grammar -/

open Grammar (Assignment MaybeExpr MaybeParameters ForStart Variable)

mutual

/-- `statement → exprStmt | forStmt | ifStmt | printStmt | returnStmt |
whileStmt | block`; the first index tells whether the tokens end in an `if`
that could still take an `else`. -/
inductive Statement :
    Bool → List Token → PlaceId → Stmt → PlaceId → Prop where
  | expression :
      Assignment ts n e m → stop.kind = .semicolon →
      Statement false (ts ++ [stop]) n (.expression e) m
  | print :
      word.kind = .printWord → Assignment ts n e m →
      stop.kind = .semicolon →
      Statement false (word :: (ts ++ [stop])) n (.print e) m
  | ret :
      word.kind = .returnWord → MaybeExpr ts n value m →
      stop.kind = .semicolon →
      Statement false (word :: (ts ++ [stop])) n (.ret word.line value) m
  | block :
      opening.kind = .leftBrace → Declarations ts n body m →
      closing.kind = .rightBrace →
      Statement false (opening :: (ts ++ [closing])) n (.block body) m
  | loop :
      word.kind = .whileWord → opening.kind = .leftParen →
      Assignment ts n e k → closing.kind = .rightParen →
      Statement hangs us k body m →
      Statement hangs (word :: opening :: (ts ++ closing :: us)) n
        (.loop e body) m
  | ifThen :
      word.kind = .ifWord → opening.kind = .leftParen →
      Assignment ts n e k → closing.kind = .rightParen →
      Statement hangs us k thenBranch m →
      Statement true (word :: opening :: (ts ++ closing :: us)) n
        (.branch e thenBranch none) m
  | ifThenElse :
      word.kind = .ifWord → opening.kind = .leftParen →
      Assignment ts n e k → closing.kind = .rightParen →
      Statement false us k thenBranch l → other.kind = .elseWord →
      Statement hangs vs l elseBranch m →
      Statement hangs
        (word :: opening :: (ts ++ closing :: (us ++ other :: vs))) n
        (.branch e thenBranch (some elseBranch)) m
  | forLoop :
      word.kind = .forWord → opening.kind = .leftParen →
      ForStart ts₁ n (initializer.map Initializer.expand) k₁ →
      MaybeExpr ts₂ k₁ test k₂ → stop.kind = .semicolon →
      MaybeExpr ts₃ k₂ increment k₃ → closing.kind = .rightParen →
      Statement hangs us k₃ body m →
      Statement hangs
        (word :: opening :: (ts₁ ++ (ts₂ ++ stop :: (ts₃ ++ closing :: us))))
        n (.forLoop initializer test increment body) m

/-- `declaration → classDecl | funDecl | varDecl | statement` -/
inductive Declaration : List Token → PlaceId → Decl → PlaceId → Prop where
  | baseClass :
      word.kind = .classWord → name.kind = .identifier →
      opening.kind = .leftBrace → Methods ts n decls m →
      closing.kind = .rightBrace →
      Declaration (word :: name :: opening :: (ts ++ [closing])) n
        (.classDecl name.ident none decls) m
  | derivedClass :
      word.kind = .classWord → name.kind = .identifier →
      sign.kind = .less → superName.kind = .identifier →
      opening.kind = .leftBrace → Methods ts (n + 1) decls m →
      closing.kind = .rightBrace →
      Declaration
        (word :: name :: sign :: superName :: opening :: (ts ++ [closing])) n
        (.classDecl name.ident (some (.read n superName.ident)) decls) m
  | function :
      word.kind = .funWord → Callable ts n decl m →
      Declaration (word :: ts) n (.function decl) m
  | varDecl :
      Variable ts n (.var name value) m → Declaration ts n (.var name value) m
  | statement :
      Statement hangs ts n s m → Declaration ts n (.statement s) m

/-- `declaration*` -/
inductive Declarations :
    List Token → PlaceId → List Decl → PlaceId → Prop where
  | nil : Declarations [] n [] n
  | cons :
      Declaration ts n s k → Declarations us k ss m →
      Declarations (ts ++ us) n (s :: ss) m

/-- `function → IDENT "(" parameters? ")" block` -/
inductive Callable :
    List Token → PlaceId → FunctionDecl → PlaceId → Prop where
  | mk :
      name.kind = .identifier → opening.kind = .leftParen →
      MaybeParameters ts params → closing.kind = .rightParen →
      bodyOpening.kind = .leftBrace → Declarations us n body m →
      bodyClosing.kind = .rightBrace →
      Callable
        (name :: opening ::
          (ts ++ closing :: bodyOpening :: (us ++ [bodyClosing]))) n
        ⟨name.ident, params, body⟩ m

/-- `function*` -/
inductive Methods :
    List Token → PlaceId → List FunctionDecl → PlaceId → Prop where
  | nil : Methods [] n [] n
  | cons :
      Callable ts n decl k → Methods us k decls m →
      Methods (ts ++ us) n (decl :: decls) m

end

/-! ## The grammar of the trees that are run -/

mutual

/-- What the tokens stand for is expanded to what is read from them. -/
theorem Statement.expand {hangs : Bool} {ts : List Token} {n m : PlaceId}
    {s : Stmt} :
    Statement hangs ts n s m → Grammar.Statement hangs ts n s.expand m
  | .expression he hstop => .expression he hstop
  | .print hword he hstop => .print hword he hstop
  | .ret hword hvalue hstop => .ret hword hvalue hstop
  | .block hopening hbody hclosing =>
      .block hopening hbody.expand hclosing
  | .loop hword hopening he hclosing hbody =>
      .loop hword hopening he hclosing hbody.expand
  | .ifThen hword hopening he hclosing hyes =>
      .ifThen hword hopening he hclosing hyes.expand
  | .ifThenElse hword hopening he hclosing hyes hother hno =>
      .ifThenElse hword hopening he hclosing hyes.expand hother hno.expand
  | .forLoop hword hopening hstart htest hstop hincrement hclosing hbody => by
      rw [Stmt.expand, Grammar.ForClauses.loop_eq]
      exact .forLoop hword hopening hstart htest hstop hincrement hclosing
        hbody.expand

theorem Declaration.expand {ts : List Token} {n m : PlaceId} {d : Decl} :
    Declaration ts n d m → Grammar.Declaration ts n d.expand m
  | .baseClass hword hname hopening hmethods hclosing =>
      .baseClass hword hname hopening hmethods.expand hclosing
  | .derivedClass hword hname hsign hsuper hopening hmethods hclosing =>
      .derivedClass hword hname hsign hsuper hopening hmethods.expand hclosing
  | .function hword hcallable => .function hword hcallable.expand
  | .varDecl hvariable => .varDecl hvariable
  | .statement hstatement => .statement hstatement.expand

theorem Declarations.expand {ts : List Token} {n m : PlaceId}
    {ds : List Decl} :
    Declarations ts n ds m → Grammar.Declarations ts n (Decl.expandAll ds) m
  | .nil => .nil
  | .cons hfirst hmore => .cons hfirst.expand hmore.expand

theorem Callable.expand {ts : List Token} {n m : PlaceId}
    {d : FunctionDecl} : Callable ts n d m → Grammar.Callable ts n d.expand m
  | .mk hname hopening hparams hclosing hbrace hbody hend =>
      .mk hname hopening hparams hclosing hbrace hbody.expand hend

theorem Methods.expand {ts : List Token} {n m : PlaceId}
    {ds : List FunctionDecl} :
    Methods ts n ds m → Grammar.Methods ts n (FunctionDecl.expandAll ds) m
  | .nil => .nil
  | .cons hfirst hmore => .cons hfirst.expand hmore.expand

end

theorem exists_initializer
    {ts : List Token} {n m : PlaceId} {start : Option LoxLang.Stmt}
    (h : ForStart ts n start m) :
    ∃ initializer : Option Initializer,
      initializer.map Initializer.expand = start := by
  cases h with
  | nothing => exact ⟨none, rfl⟩
  | varDecl hvariable =>
      cases hvariable with
      | bare | initialized => exact ⟨some (.var _ _), rfl⟩
  | expression => exact ⟨some (.expression _), rfl⟩

mutual

/-- What is read from tokens is the expansion of what they stand for. -/
theorem exists_statement {hangs : Bool} {ts : List Token} {n m : PlaceId}
    {s : LoxLang.Stmt} :
    Grammar.Statement hangs ts n s m →
      ∃ s' : Stmt, s'.expand = s ∧ Statement hangs ts n s' m
  | .expression he hstop => ⟨_, rfl, .expression he hstop⟩
  | .print hword he hstop => ⟨_, rfl, .print hword he hstop⟩
  | .ret hword hvalue hstop => ⟨_, rfl, .ret hword hvalue hstop⟩
  | .block hopening hbody hclosing => by
      obtain ⟨body, rfl, h⟩ := exists_declarations hbody
      exact ⟨_, rfl, .block hopening h hclosing⟩
  | .loop hword hopening he hclosing hbody => by
      obtain ⟨body, rfl, h⟩ := exists_statement hbody
      exact ⟨_, rfl, .loop hword hopening he hclosing h⟩
  | .ifThen hword hopening he hclosing hyes => by
      obtain ⟨yes, rfl, h⟩ := exists_statement hyes
      exact ⟨.branch _ yes none, rfl, .ifThen hword hopening he hclosing h⟩
  | .ifThenElse hword hopening he hclosing hyes hother hno => by
      obtain ⟨yes, rfl, h⟩ := exists_statement hyes
      obtain ⟨no, rfl, h'⟩ := exists_statement hno
      exact ⟨.branch _ yes (some no), rfl,
        .ifThenElse hword hopening he hclosing h hother h'⟩
  | .forLoop hword hopening hstart htest hstop hincrement hclosing hbody => by
      obtain ⟨initializer, rfl⟩ := exists_initializer hstart
      obtain ⟨body, rfl, h⟩ := exists_statement hbody
      refine ⟨.forLoop initializer _ _ body, ?_,
        .forLoop hword hopening hstart htest hstop hincrement hclosing h⟩
      rw [Stmt.expand, Grammar.ForClauses.loop_eq]

theorem exists_declaration {ts : List Token} {n m : PlaceId}
    {s : LoxLang.Stmt} :
    Grammar.Declaration ts n s m →
      ∃ d : Decl, d.expand = s ∧ Declaration ts n d m
  | .baseClass hword hname hopening hmethods hclosing => by
      obtain ⟨methods, rfl, h⟩ := exists_methods hmethods
      exact ⟨_, rfl, .baseClass hword hname hopening h hclosing⟩
  | .derivedClass hword hname hsign hsuper hopening hmethods hclosing => by
      obtain ⟨methods, rfl, h⟩ := exists_methods hmethods
      exact ⟨_, rfl,
        .derivedClass hword hname hsign hsuper hopening h hclosing⟩
  | .function hword hcallable => by
      obtain ⟨declaration, rfl, h⟩ := exists_callable hcallable
      exact ⟨_, rfl, .function hword h⟩
  | .varDecl hvariable => by
      cases hvariable with
      | bare hword hname hstop =>
          exact ⟨.var _ none, rfl, .varDecl (.bare hword hname hstop)⟩
      | initialized hword hname hsign he hstop =>
          exact ⟨.var _ (some _), rfl,
            .varDecl (.initialized hword hname hsign he hstop)⟩
  | .statement hstatement => by
      obtain ⟨stmt, rfl, h⟩ := exists_statement hstatement
      exact ⟨.statement stmt, rfl, .statement h⟩

theorem exists_declarations {ts : List Token} {n m : PlaceId}
    {ss : List LoxLang.Stmt} :
    Grammar.Declarations ts n ss m →
      ∃ ds : List Decl, Decl.expandAll ds = ss ∧ Declarations ts n ds m
  | .nil => ⟨[], rfl, .nil⟩
  | .cons hfirst hmore => by
      obtain ⟨d, rfl, h⟩ := exists_declaration hfirst
      obtain ⟨ds, rfl, h'⟩ := exists_declarations hmore
      exact ⟨d :: ds, rfl, .cons h h'⟩

theorem exists_callable {ts : List Token} {n m : PlaceId}
    {d : LoxLang.FunctionDecl} :
    Grammar.Callable ts n d m →
      ∃ d' : FunctionDecl, d'.expand = d ∧ Callable ts n d' m
  | .mk hname hopening hparams hclosing hbrace hbody hend => by
      obtain ⟨body, rfl, h⟩ := exists_declarations hbody
      exact ⟨⟨_, _, body⟩, rfl,
        .mk hname hopening hparams hclosing hbrace h hend⟩

theorem exists_methods {ts : List Token} {n m : PlaceId}
    {ds : List LoxLang.FunctionDecl} :
    Grammar.Methods ts n ds m →
      ∃ ds' : List FunctionDecl,
        FunctionDecl.expandAll ds' = ds ∧ Methods ts n ds' m
  | .nil => ⟨[], rfl, .nil⟩
  | .cons hfirst hmore => by
      obtain ⟨d, rfl, h⟩ := exists_callable hfirst
      obtain ⟨ds', rfl, h'⟩ := exists_methods hmore
      exact ⟨d :: ds', rfl, .cons h h'⟩

end

end Surface
end LoxLang
