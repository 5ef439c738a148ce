import LoxLang.Grammar.Statement

/-!
# The grammar

The rules of the language as inductive relations between tokens and trees,
written without reference to the way in which tokens are read.  A derivation
`Assignment tokens n expr m` says that the tokens are an assignment, that its
tree is `expr`, and that the places of the tree are numbered from `n` up to
`m` in the order in which their tokens end.

Signs of one tier associate to the left, so a tier derives itself on its left
side.  An `else` belongs to the nearest `if` that is still open: the first
index of `Statement` tells whether a derivation ends in such an `if`, and the
statement in front of an `else` does not.
-/

namespace LoxLang

/-- The name that a token spells. -/
def Token.ident (token : Token) : Ident :=
  ⟨token.lexeme, token.line⟩

namespace Grammar

/-- The tiers of signs that join two operands, from the tightest one. -/
inductive Tier where
  | factor
  | term
  | comparison
  | equality
  | conjunction
  | disjunction
deriving DecidableEq, Repr

/-- The signs of each tier. -/
inductive Tier.Joins : Tier → Token.Kind → Connective → Prop where
  | star : Joins .factor .star (.binary .multiply)
  | slash : Joins .factor .slash (.binary .divide)
  | percent : Joins .factor .percent (.binary .modulo)
  | minus : Joins .term .minus (.binary .subtract)
  | plus : Joins .term .plus (.binary .add)
  | greater : Joins .comparison .greater (.binary .greater)
  | greaterEqual : Joins .comparison .greaterEqual (.binary .greaterEqual)
  | less : Joins .comparison .less (.binary .less)
  | lessEqual : Joins .comparison .lessEqual (.binary .lessEqual)
  | notEqual : Joins .equality .bangEqual (.binary .notEqual)
  | equal : Joins .equality .equalEqual (.binary .equal)
  | and : Joins .conjunction .andWord (.logical .and)
  | or : Joins .disjunction .orWord (.logical .or)

/-- The signs in front of an operand. -/
inductive Leads : Token.Kind → UnaryOp → Prop where
  | bang : Leads .bang .not
  | minus : Leads .minus .negate
  | plus : Leads .plus .plus

/-- The tokens that are a literal. -/
inductive Denotes : Token.Kind → Literal → Prop where
  | number : Denotes (.number value) (.number value)
  | string : Denotes (.string content) (.string content)
  | yes : Denotes .trueWord .yes
  | no : Denotes .falseWord .no
  | nil : Denotes .nilWord .nil

mutual

/-- `assignment → ( call "." )? IDENT "=" assignment | logic_or` -/
inductive Assignment : List Token → PlaceId → Expr → PlaceId → Prop where
  | plain :
      Tiered .disjunction ts n e m → Assignment ts n e m
  | toName :
      name.kind = .identifier → sign.kind = .equal →
      Assignment ts (n + 1) value m →
      Assignment (name :: sign :: ts) n (.assign m name.ident value) (m + 1)
  | toProperty :
      Call us n object k → dot.kind = .dot → name.kind = .identifier →
      sign.kind = .equal → Assignment ts k value m →
      Assignment (us ++ dot :: name :: sign :: ts) n
        (.set object name.ident value) m

/-- One tier: operands with signs of the tier between them. -/
inductive Tiered : Tier → List Token → PlaceId → Expr → PlaceId → Prop where
  | operand :
      Operand tier ts n e m → Tiered tier ts n e m
  | join :
      Tiered tier ts n left k → tier.Joins sign.kind connective →
      Operand tier us k right m →
      Tiered tier (ts ++ sign :: us) n (connective.join left sign.line right) m

/-- What stands between the signs of a tier: the next tighter tier. -/
inductive Operand : Tier → List Token → PlaceId → Expr → PlaceId → Prop where
  | ofUnary : Unary ts n e m → Operand .factor ts n e m
  | ofFactor : Tiered .factor ts n e m → Operand .term ts n e m
  | ofTerm : Tiered .term ts n e m → Operand .comparison ts n e m
  | ofComparison : Tiered .comparison ts n e m → Operand .equality ts n e m
  | ofEquality : Tiered .equality ts n e m → Operand .conjunction ts n e m
  | ofConjunction :
      Tiered .conjunction ts n e m → Operand .disjunction ts n e m

/-- `unary → ( "!" | "-" | "+" ) unary | call` -/
inductive Unary : List Token → PlaceId → Expr → PlaceId → Prop where
  | ofCall : Call ts n e m → Unary ts n e m
  | sign :
      Leads sign.kind op → Unary ts n operand m →
      Unary (sign :: ts) n (.unary op operand sign.line) m

/-- `call → primary ( "(" arguments? ")" | "." IDENT )*` -/
inductive Call : List Token → PlaceId → Expr → PlaceId → Prop where
  | ofPrimary : Primary ts n e m → Call ts n e m
  | applyNothing :
      Call ts n callee m → opening.kind = .leftParen →
      closing.kind = .rightParen →
      Call (ts ++ [opening, closing]) n (.call callee closing.line []) m
  | apply :
      Call ts n callee k → opening.kind = .leftParen →
      Arguments us k values m → values.length ≤ 255 →
      closing.kind = .rightParen →
      Call (ts ++ opening :: (us ++ [closing])) n
        (.call callee closing.line values) m
  | property :
      Call ts n object m → dot.kind = .dot → name.kind = .identifier →
      Call (ts ++ [dot, name]) n (.get object name.ident) m

/-- `arguments → expression ( "," expression )*` -/
inductive Arguments : List Token → PlaceId → List Expr → PlaceId → Prop where
  | last : Assignment ts n e m → Arguments ts n [e] m
  | more :
      Assignment ts n e k → comma.kind = .comma → Arguments us k es m →
      Arguments (ts ++ comma :: us) n (e :: es) m

/-- `primary → NUMBER | STRING | "true" | "false" | "nil" | "this" | IDENT
| "(" expression ")" | "super" "." IDENT` -/
inductive Primary : List Token → PlaceId → Expr → PlaceId → Prop where
  | literal :
      Denotes token.kind value → Primary [token] n (.literal value) n
  | name :
      name.kind = .identifier →
      Primary [name] n (.read n name.ident) (n + 1)
  | this :
      word.kind = .thisWord → Primary [word] n (.this n word.line) (n + 1)
  | super :
      word.kind = .superWord → dot.kind = .dot → name.kind = .identifier →
      Primary [word, dot, name] n (.super n word.line name.ident) (n + 1)
  | group :
      opening.kind = .leftParen → Assignment ts n e m →
      closing.kind = .rightParen →
      Primary (opening :: (ts ++ [closing])) n (.group e) m

end

/-- An expression that may be absent. -/
inductive MaybeExpr :
    List Token → PlaceId → Option Expr → PlaceId → Prop where
  | absent : MaybeExpr [] n none n
  | present : Assignment ts n e m → MaybeExpr ts n (some e) m

/-- `varDecl → ( "var" | "val" ) IDENT ( "=" expression )? ";"` -/
inductive Variable : List Token → PlaceId → Stmt → PlaceId → Prop where
  | bare :
      word.kind = .varWord ∨ word.kind = .valWord →
      name.kind = .identifier → stop.kind = .semicolon →
      Variable [word, name, stop] n (.var name.ident none) n
  | initialized :
      word.kind = .varWord ∨ word.kind = .valWord →
      name.kind = .identifier → sign.kind = .equal →
      Assignment ts n e m → stop.kind = .semicolon →
      Variable (word :: name :: sign :: (ts ++ [stop])) n
        (.var name.ident (some e)) m

/-- `( varDecl | exprStmt | ";" )` -/
inductive ForStart :
    List Token → PlaceId → Option Stmt → PlaceId → Prop where
  | nothing : stop.kind = .semicolon → ForStart [stop] n none n
  | varDecl : Variable ts n s m → ForStart ts n (some s) m
  | expression :
      Assignment ts n e m → stop.kind = .semicolon →
      ForStart (ts ++ [stop]) n (some (.expression e)) m

/-- `parameters → IDENT ( "," IDENT )*` -/
inductive Parameters : List Token → List Ident → Prop where
  | last : name.kind = .identifier → Parameters [name] [name.ident]
  | more :
      name.kind = .identifier → comma.kind = .comma →
      Parameters ts names →
      Parameters (name :: comma :: ts) (name.ident :: names)

/-- `parameters?`, of which there are at most 255. -/
inductive MaybeParameters : List Token → List Ident → Prop where
  | absent : MaybeParameters [] []
  | present :
      Parameters ts names → names.length ≤ 255 → MaybeParameters ts names

/-- One round of a `for` loop: the body, and then the increment. -/
def forRound (body : Stmt) : Option Expr → Stmt
  | none => body
  | some increment => .block [body, .expression increment]

/-- The condition of a `for` loop, which holds when there is none. -/
def forCondition : Option Expr → Expr
  | none => .literal .yes
  | some condition => condition

/-- A loop behind its initializer, in a block of their own. -/
def forScope (loop : Stmt) : Option Stmt → Stmt
  | none => loop
  | some initializer => .block [initializer, loop]

mutual

/-- `statement → exprStmt | forStmt | ifStmt | printStmt | returnStmt |
whileStmt | block`; the first index tells whether the tokens end in an `if`
that could still take an `else`. -/
inductive Statement :
    Bool → List Token → PlaceId → Stmt → PlaceId → Prop where
  | expression :
      Assignment ts n e m → stop.kind = .semicolon →
      Statement false (ts ++ [stop]) n (.expression e) m
  | print :
      word.kind = .printWord → Assignment ts n e m →
      stop.kind = .semicolon →
      Statement false (word :: (ts ++ [stop])) n (.print e) m
  | ret :
      word.kind = .returnWord → MaybeExpr ts n value m →
      stop.kind = .semicolon →
      Statement false (word :: (ts ++ [stop])) n (.ret word.line value) m
  | block :
      opening.kind = .leftBrace → Declarations ts n body m →
      closing.kind = .rightBrace →
      Statement false (opening :: (ts ++ [closing])) n (.block body) m
  | loop :
      word.kind = .whileWord → opening.kind = .leftParen →
      Assignment ts n e k → closing.kind = .rightParen →
      Statement hangs us k body m →
      Statement hangs (word :: opening :: (ts ++ closing :: us)) n
        (.loop e body) m
  | ifThen :
      word.kind = .ifWord → opening.kind = .leftParen →
      Assignment ts n e k → closing.kind = .rightParen →
      Statement hangs us k thenBranch m →
      Statement true (word :: opening :: (ts ++ closing :: us)) n
        (.branch e thenBranch none) m
  | ifThenElse :
      word.kind = .ifWord → opening.kind = .leftParen →
      Assignment ts n e k → closing.kind = .rightParen →
      Statement false us k thenBranch l → other.kind = .elseWord →
      Statement hangs vs l elseBranch m →
      Statement hangs
        (word :: opening :: (ts ++ closing :: (us ++ other :: vs))) n
        (.branch e thenBranch (some elseBranch)) m
  | forLoop :
      word.kind = .forWord → opening.kind = .leftParen →
      ForStart ts₁ n initializer k₁ →
      MaybeExpr ts₂ k₁ test k₂ → stop.kind = .semicolon →
      MaybeExpr ts₃ k₂ increment k₃ → closing.kind = .rightParen →
      Statement hangs us k₃ body m →
      Statement hangs
        (word :: opening :: (ts₁ ++ (ts₂ ++ stop :: (ts₃ ++ closing :: us))))
        n
        (forScope (.loop (forCondition test) (forRound body increment))
          initializer) m

/-- `declaration → classDecl | funDecl | varDecl | statement` -/
inductive Declaration : List Token → PlaceId → Stmt → PlaceId → Prop where
  | baseClass :
      word.kind = .classWord → name.kind = .identifier →
      opening.kind = .leftBrace → Methods ts n decls m →
      closing.kind = .rightBrace →
      Declaration (word :: name :: opening :: (ts ++ [closing])) n
        (.classDecl name.ident none decls) m
  | derivedClass :
      word.kind = .classWord → name.kind = .identifier →
      sign.kind = .less → superName.kind = .identifier →
      opening.kind = .leftBrace → Methods ts (n + 1) decls m →
      closing.kind = .rightBrace →
      Declaration
        (word :: name :: sign :: superName :: opening :: (ts ++ [closing])) n
        (.classDecl name.ident (some (.read n superName.ident)) decls) m
  | function :
      word.kind = .funWord → Callable ts n decl m →
      Declaration (word :: ts) n (.function decl) m
  | varDecl : Variable ts n s m → Declaration ts n s m
  | statement : Statement hangs ts n s m → Declaration ts n s m

/-- `declaration*` -/
inductive Declarations :
    List Token → PlaceId → List Stmt → PlaceId → Prop where
  | nil : Declarations [] n [] n
  | cons :
      Declaration ts n s k → Declarations us k ss m →
      Declarations (ts ++ us) n (s :: ss) m

/-- `function → IDENT "(" parameters? ")" block` -/
inductive Callable :
    List Token → PlaceId → FunctionDecl → PlaceId → Prop where
  | mk :
      name.kind = .identifier → opening.kind = .leftParen →
      MaybeParameters ts params → closing.kind = .rightParen →
      bodyOpening.kind = .leftBrace → Declarations us n body m →
      bodyClosing.kind = .rightBrace →
      Callable
        (name :: opening ::
          (ts ++ closing :: bodyOpening :: (us ++ [bodyClosing]))) n
        ⟨name.ident, params, body⟩ m

/-- `function*` -/
inductive Methods :
    List Token → PlaceId → List FunctionDecl → PlaceId → Prop where
  | nil : Methods [] n [] n
  | cons :
      Callable ts n decl k → Methods us k decls m →
      Methods (ts ++ us) n (decl :: decls) m

end

end Grammar
end LoxLang
