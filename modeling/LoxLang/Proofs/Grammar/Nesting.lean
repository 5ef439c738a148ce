import Mathlib.Logic.Function.Iterate
import LoxLang.Proofs.Grammar.Completeness

/-!
# Statements in blocks and bodies

A simple statement stands in so many blocks, function bodies and class bodies.
What cannot be read in its place makes every declaration around it fail, and
each of them moves the cursor on to a boundary once more.
-/

namespace LoxLang
namespace Grammar

/-! ## Statements in their places -/

/-- `exprStmt | printStmt | returnStmt` -/
inductive SimpleStatement :
    List Token → PlaceId → Stmt → PlaceId → Prop where
  | expression :
      Assignment ts n e m → stop.kind = .semicolon →
      SimpleStatement (ts ++ [stop]) n (.expression e) m
  | print :
      word.kind = .printWord → Assignment ts n e m →
      stop.kind = .semicolon →
      SimpleStatement (word :: (ts ++ [stop])) n (.print e) m
  | ret :
      word.kind = .returnWord → MaybeExpr ts n value m →
      stop.kind = .semicolon →
      SimpleStatement (word :: (ts ++ [stop])) n (.ret word.line value) m

theorem SimpleStatement.statement (h : SimpleStatement ts n s m) :
    Statement false ts n s m := by
  cases h with
  | expression h hstop => exact .expression h hstop
  | print hword h hstop => exact .print hword h hstop
  | ret hword h hstop => exact .ret hword h hstop

mutual

/-- The tokens start a statement in which the simple statement comes next.  It
stands in so many blocks and bodies, the declarations of which are around its
own one. -/
inductive StatementNests (simple : List Token) (k k' : PlaceId) :
    List Token → PlaceId → Nat → Prop where
  | here : SimpleStatement simple k s k' → StatementNests simple k k' [] k 0
  | block :
      opening.kind = .leftBrace → DeclarationsNest simple k k' ts n levels →
      StatementNests simple k k' (opening :: ts) n (levels + 1)
  | loop :
      word.kind = .whileWord → opening.kind = .leftParen →
      Assignment ts n e l → closing.kind = .rightParen →
      StatementNests simple k k' us l levels →
      StatementNests simple k k' (word :: opening :: (ts ++ closing :: us)) n
        levels
  | thenBranch :
      word.kind = .ifWord → opening.kind = .leftParen →
      Assignment ts n e l → closing.kind = .rightParen →
      StatementNests simple k k' us l levels →
      StatementNests simple k k' (word :: opening :: (ts ++ closing :: us)) n
        levels
  | elseBranch :
      word.kind = .ifWord → opening.kind = .leftParen →
      Assignment ts n e l → closing.kind = .rightParen →
      Statement false us l yes m → other.kind = .elseWord →
      StatementNests simple k k' vs m levels →
      StatementNests simple k k'
        (word :: opening :: (ts ++ closing :: (us ++ other :: vs))) n levels
  | forLoop :
      word.kind = .forWord → opening.kind = .leftParen →
      ForStart ts₁ n initializer l₁ →
      MaybeExpr ts₂ l₁ test l₂ → stop.kind = .semicolon →
      MaybeExpr ts₃ l₂ increment l₃ → closing.kind = .rightParen →
      StatementNests simple k k' us l₃ levels →
      StatementNests simple k k'
        (word :: opening :: (ts₁ ++ (ts₂ ++ stop :: (ts₃ ++ closing :: us))))
        n levels

/-- The tokens start a declaration in which the simple statement or variable
declaration comes next. -/
inductive DeclarationNests (simple : List Token) (k k' : PlaceId) :
    List Token → PlaceId → Nat → Prop where
  | statement :
      StatementNests simple k k' ts n levels →
      DeclarationNests simple k k' ts n levels
  | varDecl : Variable simple k s k' → DeclarationNests simple k k' [] k 0
  | function :
      word.kind = .funWord → CallableNests simple k k' ts n levels →
      DeclarationNests simple k k' (word :: ts) n (levels + 1)
  | baseClass :
      word.kind = .classWord → name.kind = .identifier →
      opening.kind = .leftBrace → MethodsNest simple k k' ts n levels →
      DeclarationNests simple k k' (word :: name :: opening :: ts) n
        (levels + 1)
  | derivedClass :
      word.kind = .classWord → name.kind = .identifier →
      sign.kind = .less → superName.kind = .identifier →
      opening.kind = .leftBrace →
      MethodsNest simple k k' ts (n + 1) levels →
      DeclarationNests simple k k'
        (word :: name :: sign :: superName :: opening :: ts) n (levels + 1)

inductive DeclarationsNest (simple : List Token) (k k' : PlaceId) :
    List Token → PlaceId → Nat → Prop where
  | here :
      DeclarationNests simple k k' ts n levels →
      DeclarationsNest simple k k' ts n levels
  | cons :
      Declaration ts n s l → DeclarationsNest simple k k' us l levels →
      DeclarationsNest simple k k' (ts ++ us) n levels

inductive CallableNests (simple : List Token) (k k' : PlaceId) :
    List Token → PlaceId → Nat → Prop where
  | mk :
      name.kind = .identifier → opening.kind = .leftParen →
      MaybeParameters ts params → closing.kind = .rightParen →
      bodyOpening.kind = .leftBrace →
      DeclarationsNest simple k k' us n levels →
      CallableNests simple k k'
        (name :: opening :: (ts ++ closing :: bodyOpening :: us)) n levels

inductive MethodsNest (simple : List Token) (k k' : PlaceId) :
    List Token → PlaceId → Nat → Prop where
  | here :
      CallableNests simple k k' ts n levels →
      MethodsNest simple k k' ts n levels
  | cons :
      Callable ts n decl l → MethodsNest simple k k' us l levels →
      MethodsNest simple k k' (ts ++ us) n levels

end

/-- In front of the declaration around the statement stand whole ones. -/
theorem DeclarationsNest.split :
    DeclarationsNest simple k k' ts n levels →
      ∃ us vs ss l, ts = us ++ vs ∧ Declarations us n ss l ∧
        DeclarationNests simple k k' vs l levels
  | .here h => ⟨[], _, [], _, rfl, .nil, h⟩
  | .cons hhead hmore => by
      obtain ⟨us, vs, ss, l, rfl, hus, hvs⟩ := hmore.split
      exact ⟨_ ++ us, vs, _, l, (List.append_assoc ..).symm,
        .cons hhead hus, hvs⟩

/-- Outside of all blocks, the statement completes the one around it. -/
theorem StatementNests.fill :
    StatementNests simple k k' ts n levels → levels = 0 →
      ∃ hangs s, Statement hangs (ts ++ simple) n s k'
  | .here h, _ => ⟨false, _, h.statement⟩
  | .loop hword hopening h hclosing hbody, hlevels => by
      obtain ⟨hangs, s, d⟩ := hbody.fill hlevels
      simp only [List.cons_append, List.append_assoc]
      exact ⟨_, _, .loop hword hopening h hclosing d⟩
  | .thenBranch hword hopening h hclosing hthen, hlevels => by
      obtain ⟨hangs, s, d⟩ := hthen.fill hlevels
      simp only [List.cons_append, List.append_assoc]
      exact ⟨_, _, .ifThen hword hopening h hclosing d⟩
  | .elseBranch hword hopening h hclosing hthen hother helse, hlevels => by
      obtain ⟨hangs, s, d⟩ := helse.fill hlevels
      simp only [List.cons_append, List.append_assoc]
      exact ⟨_, _, .ifThenElse hword hopening h hclosing hthen hother d⟩
  | .forLoop hword hopening hstart htest hstop hincrement hclosing hbody,
      hlevels => by
      obtain ⟨hangs, s, d⟩ := hbody.fill hlevels
      simp only [List.cons_append, List.append_assoc]
      exact ⟨_, _, .forLoop hword hopening hstart htest hstop hincrement
        hclosing d⟩

theorem DeclarationNests.fill (h : DeclarationNests simple k k' ts n 0) :
    ∃ s, Declaration (ts ++ simple) n s k' := by
  cases h with
  | statement h =>
      obtain ⟨hangs, s, d⟩ := h.fill rfl
      exact ⟨s, .statement d⟩
  | varDecl h => exact ⟨_, .varDecl h⟩

/-! ## A fault in the place of the statement -/

/-- A statement can start with the token, if only a malformed one. -/
def entersStatement : Token.Kind → Bool
  | .elseWord | .rightBrace | .eof | .classWord | .funWord | .varWord
  | .valWord => false
  | _ => true

def entersDeclaration : Token.Kind → Bool
  | .elseWord | .rightBrace | .eof => false
  | _ => true

private theorem entersDeclaration_of_entersStatement {kind : Token.Kind}
    (h : entersStatement kind = true) : entersDeclaration kind = true := by
  cases kind <;> simp_all [entersStatement, entersDeclaration]

/-- Whoever reads a statement here fails with the error, and moves on from
there to the target. -/
structure Faulty (hole : List Token) (k : PlaceId) (e : ParseError)
    (target : Cursor) : Prop where
  opens : ∃ token rest, hole = token :: rest ∧
    entersStatement token.kind = true
  statement : ∀ depth previous, ∃ fault,
    statement (depth + 1) ⟨previous, hole, k⟩ = .error e fault ∧
      fault.resume = target

section

variable {simple hole : List Token} {k k' : PlaceId} {e : ParseError}
variable {target : Cursor}
variable {previous token word superName stop other : Token}
variable {opening closing bodyOpening : Token}

theorem StatementNests.head (h : StatementNests simple k k' ts n levels)
    (hfaulty : Faulty hole k e target) :
    ∃ token rest, ts ++ hole = token :: rest ∧
      entersStatement token.kind = true := by
  cases h with
  | here _ => exact hfaulty.opens
  | block hopening _ => exact ⟨_, _, rfl, by rw [hopening]; rfl⟩
  | loop hword _ _ _ _ => exact ⟨_, _, rfl, by rw [hword]; rfl⟩
  | thenBranch hword _ _ _ _ => exact ⟨_, _, rfl, by rw [hword]; rfl⟩
  | elseBranch hword _ _ _ _ _ _ => exact ⟨_, _, rfl, by rw [hword]; rfl⟩
  | forLoop hword _ _ _ _ _ _ _ => exact ⟨_, _, rfl, by rw [hword]; rfl⟩

theorem DeclarationNests.head (h : DeclarationNests simple k k' ts n levels)
    (hfaulty : Faulty hole k e target) :
    ∃ token rest, ts ++ hole = token :: rest ∧
      entersDeclaration token.kind = true := by
  cases h with
  | statement h =>
      obtain ⟨token, rest, hrest, henters⟩ := h.head hfaulty
      exact ⟨token, rest, hrest, entersDeclaration_of_entersStatement henters⟩
  | varDecl _ =>
      obtain ⟨token, rest, hrest, henters⟩ := hfaulty.opens
      exact ⟨token, rest, hrest, entersDeclaration_of_entersStatement henters⟩
  | function hword _ => exact ⟨_, _, rfl, by rw [hword]; rfl⟩
  | baseClass hword _ _ _ => exact ⟨_, _, rfl, by rw [hword]; rfl⟩
  | derivedClass hword _ _ _ _ _ => exact ⟨_, _, rfl, by rw [hword]; rfl⟩

/-- Neither an `else` nor the end of a block comes next. -/
theorem DeclarationsNest.avoids (h : DeclarationsNest simple k k' ts n levels)
    (hfaulty : Faulty hole k e target) {kind : Token.Kind}
    (hdeclaration : entersDeclaration kind = false)
    (hopens : opensDeclaration kind = false) :
    Avoids (· = kind) (ts ++ hole) := by
  cases h with
  | here h =>
      obtain ⟨token, rest, hrest, henters⟩ := h.head hfaulty
      rw [hrest, avoids_cons]
      exact ne_of_apply_ne entersDeclaration (by simp [henters, hdeclaration])
  | cons h _ =>
      rw [List.append_assoc]
      exact h.avoids hopens _

/-! ### Out of a statement -/

theorem resuming_eq_error {reading : Parse α} {cursor fault : Cursor}
    (h : reading cursor = .error e fault) :
    resuming reading cursor = .error e fault.resume := by
  unfold resuming
  rw [h]

theorem declaration_eq_resuming {rest : List Token}
    (henters : entersStatement token.kind = true) (depth : Nat)
    (n : PlaceId) :
    declaration (depth + 1) ⟨previous, token :: rest, n⟩ =
      resuming (statement depth) ⟨previous, token :: rest, n⟩ := by
  have hother (kind : Token.Kind) (hkind : entersStatement kind = false) :
      Avoids (· = kind) (token :: rest) :=
    avoids_cons.mpr (ne_of_apply_ne entersStatement (by simp [henters, hkind]))
  rw [declaration]
  unfold resuming
  iterate 2 rw [accept_else (hother _ rfl) (by simp)]
  rw [choose_else (acceptVariable_eq_false (hother _ rfl) (hother _ rfl))]

/-- One more declaration moves the cursor on once more. -/
theorem resume_iterate (levels : Nat) (target : Cursor) :
    (Cursor.resume^[levels] target).resume =
      Cursor.resume^[levels + 1] target :=
  (Function.iterate_succ_apply' Cursor.resume levels target).symm

/-- The tokens lead to the hole in a statement, which fails there. -/
def FailsStatement (hole : List Token) (e : ParseError) (target : Cursor)
    (ts : List Token) (n : PlaceId) (levels : Nat) : Prop :=
  ∀ ⦃depth⦄ previous, 16 * ts.length + 1 ≤ depth →
    ∃ fault, statement depth ⟨previous, ts ++ hole, n⟩ = .error e fault ∧
      fault.resume = Cursor.resume^[levels] target

def FailsDeclaration (hole : List Token) (e : ParseError) (target : Cursor)
    (ts : List Token) (n : PlaceId) (levels : Nat) : Prop :=
  ∀ ⦃depth⦄ previous, 16 * ts.length + 2 ≤ depth →
    declaration depth ⟨previous, ts ++ hole, n⟩ =
      .error e (Cursor.resume^[levels] target)

def FailsBlock (hole : List Token) (e : ParseError) (target : Cursor)
    (ts : List Token) (n : PlaceId) (levels : Nat) : Prop :=
  ∀ ⦃depth⦄ previous, 16 * ts.length + 4 ≤ depth →
    blockItems depth ⟨previous, ts ++ hole, n⟩ =
      .error e (Cursor.resume^[levels] target)

def FailsCallable (hole : List Token) (e : ParseError) (target : Cursor)
    (ts : List Token) (n : PlaceId) (levels : Nat) : Prop :=
  ∀ ⦃depth⦄ role previous, 16 * ts.length ≤ depth →
    function depth role ⟨previous, ts ++ hole, n⟩ =
      .error e (Cursor.resume^[levels] target)

def FailsMethods (hole : List Token) (e : ParseError) (target : Cursor)
    (ts : List Token) (n : PlaceId) (levels : Nat) : Prop :=
  ∀ ⦃depth⦄ previous, 16 * ts.length + 1 ≤ depth →
    methods depth ⟨previous, ts ++ hole, n⟩ =
      .error e (Cursor.resume^[levels] target)

theorem FailsBlock.fails_block (h : FailsBlock hole e target ts n levels)
    {depth : Nat} (previous : Token) (hdepth : 16 * ts.length + 5 ≤ depth) :
    block depth ⟨previous, ts ++ hole, n⟩ =
      .error e (Cursor.resume^[levels] target) := by
  obtain ⟨depth, rfl⟩ := exists_succ_of_pos (by omega : 0 < depth)
  rw [block, bind_eq_error (h previous (by omega))]

theorem FailsStatement.here (hfaulty : Faulty hole k e target) :
    FailsStatement hole e target [] k 0 := by
  intro depth previous hdepth
  obtain ⟨depth, rfl⟩ := exists_succ_of_pos (by omega : 0 < depth)
  exact hfaulty.statement depth previous

theorem FailsStatement.block
    (hopening : opening.kind = .leftBrace)
    (h : FailsBlock hole e target ts n levels) :
    FailsStatement hole e target (opening :: ts) n (levels + 1) := by
  intro depth previous hdepth
  simp only [List.length_cons] at hdepth
  obtain ⟨depth, rfl⟩ := exists_succ_of_pos (by omega : 0 < depth)
  have hblock := h.fails_block opening (by omega : _ ≤ depth)
  refine ⟨_, ?_, resume_iterate levels target⟩
  rw [statement, List.cons_append]
  iterate 4 rw [accept_past hopening (by simp) (by simp)]
  rw [accept_then hopening (by simp), bind_eq_error hblock]

theorem FailsStatement.loop
    (hword : word.kind = .whileWord) (hopening : opening.kind = .leftParen)
    (h : Assignment ts n expr l) (hclosing : closing.kind = .rightParen)
    (hbody : FailsStatement hole e target us l levels) :
    FailsStatement hole e target (word :: opening :: (ts ++ closing :: us)) n
      levels := by
  intro depth previous hdepth
  simp only [List.length_cons, List.length_append] at hdepth
  obtain ⟨depth, rfl⟩ := exists_succ_of_pos (by omega : 0 < depth)
  obtain ⟨before, hbefore⟩ :=
    h.reads_condition hopening hclosing (us ++ hole) word
  obtain ⟨fault, hfault, hresume⟩ := hbody before (by omega : _ ≤ depth)
  refine ⟨fault, ?_, hresume⟩
  simp only [List.cons_append, List.append_assoc, List.nil_append]
    at hbefore ⊢
  rw [statement]
  iterate 2 rw [accept_past hword (by simp) (by simp)]
  rw [accept_then hword (by simp), bind_eq hbefore, bind_eq_error hfault]

theorem FailsStatement.thenBranch
    (hword : word.kind = .ifWord) (hopening : opening.kind = .leftParen)
    (h : Assignment ts n expr l) (hclosing : closing.kind = .rightParen)
    (hthen : FailsStatement hole e target us l levels) :
    FailsStatement hole e target (word :: opening :: (ts ++ closing :: us)) n
      levels := by
  intro depth previous hdepth
  simp only [List.length_cons, List.length_append] at hdepth
  obtain ⟨depth, rfl⟩ := exists_succ_of_pos (by omega : 0 < depth)
  obtain ⟨before, hbefore⟩ :=
    h.reads_condition hopening hclosing (us ++ hole) word
  obtain ⟨fault, hfault, hresume⟩ := hthen before (by omega : _ ≤ depth)
  refine ⟨fault, ?_, hresume⟩
  simp only [List.cons_append, List.append_assoc, List.nil_append]
    at hbefore ⊢
  rw [statement, accept_past hword (by simp) (by simp),
    accept_then hword (by simp), bind_eq hbefore, bind_eq_error hfault]

theorem FailsStatement.elseBranch
    (hword : word.kind = .ifWord) (hopening : opening.kind = .leftParen)
    (h : Assignment ts n expr l) (hclosing : closing.kind = .rightParen)
    (hthen : Statement false us l yes m) (hother : other.kind = .elseWord)
    (helse : FailsStatement hole e target vs m levels) :
    FailsStatement hole e target
      (word :: opening :: (ts ++ closing :: (us ++ other :: vs))) n
      levels := by
  intro depth previous hdepth
  simp only [List.length_cons, List.length_append] at hdepth
  obtain ⟨depth, rfl⟩ := exists_succ_of_pos (by omega : 0 < depth)
  obtain ⟨first, hfirst⟩ := h.reads_condition hopening hclosing
    (us ++ other :: (vs ++ hole)) word
  obtain ⟨before, hbefore⟩ := @Statement.reads _ _ _ _ _ hthen depth
    (other :: (vs ++ hole)) (by omega) (by simp) first
  obtain ⟨fault, hfault, hresume⟩ := helse other (by omega : _ ≤ depth)
  refine ⟨fault, ?_, hresume⟩
  simp only [List.cons_append, List.append_assoc, List.nil_append]
    at hfirst ⊢
  rw [statement, accept_past hword (by simp) (by simp),
    accept_then hword (by simp), bind_eq hfirst, bind_eq hbefore,
    accept_then hother (by simp), bind_eq_error hfault]

theorem FailsStatement.forLoop
    (hword : word.kind = .forWord) (hopening : opening.kind = .leftParen)
    (hstart : ForStart ts₁ n initializer l₁)
    (htest : MaybeExpr ts₂ l₁ test l₂) (hstop : stop.kind = .semicolon)
    (hincrement : MaybeExpr ts₃ l₂ increment l₃)
    (hclosing : closing.kind = .rightParen)
    (hbody : FailsStatement hole e target us l₃ levels) :
    FailsStatement hole e target
      (word :: opening :: (ts₁ ++ (ts₂ ++ stop :: (ts₃ ++ closing :: us))))
      n levels := by
  intro depth previous hdepth
  simp only [List.length_cons, List.length_append] at hdepth
  obtain ⟨depth, rfl⟩ := exists_succ_of_pos (by omega : 0 < depth)
  obtain ⟨before, hbefore⟩ := forClauses_reads hopening hstart htest hstop
    hincrement hclosing (us ++ hole) word
  obtain ⟨fault, hfault, hresume⟩ := hbody before (by omega : _ ≤ depth)
  refine ⟨fault, ?_, hresume⟩
  simp only [List.cons_append, List.append_assoc, List.nil_append]
    at hbefore ⊢
  rw [statement, accept_then hword (by simp), bind_eq hbefore,
    bind_eq_error hfault]

/-! ### Out of a declaration -/

theorem FailsDeclaration.statement
    (hhead : ∃ token rest, ts ++ hole = token :: rest ∧
      entersStatement token.kind = true)
    (h : FailsStatement hole e target ts n levels) :
    FailsDeclaration hole e target ts n levels := by
  intro depth previous hdepth
  obtain ⟨depth, rfl⟩ := exists_succ_of_pos (by omega : 0 < depth)
  obtain ⟨fault, hfault, hresume⟩ := h previous (by omega : _ ≤ depth)
  obtain ⟨token, rest, hrest, henters⟩ := hhead
  rw [hrest] at hfault ⊢
  rw [declaration_eq_resuming henters, resuming_eq_error hfault, hresume]

theorem FailsDeclaration.function
    (hword : word.kind = .funWord)
    (h : FailsCallable hole e target ts n levels) :
    FailsDeclaration hole e target (word :: ts) n (levels + 1) := by
  intro depth previous hdepth
  simp only [List.length_cons] at hdepth
  obtain ⟨depth, rfl⟩ := exists_succ_of_pos (by omega : 0 < depth)
  have hfunction := h .function word (by omega : _ ≤ depth)
  rw [declaration, ← resume_iterate]
  apply resuming_eq_error
  rw [List.cons_append, accept_past hword (by simp) (by simp),
    accept_then hword (by simp), bind_eq_error hfunction]

theorem FailsDeclaration.ofClass {head : Ident × Option Expr}
    (hword : word.kind = .classWord) (hhead : ReadsClassHead hs n head l)
    (hopening : opening.kind = .leftBrace)
    (h : FailsMethods hole e target ts l levels) :
    FailsDeclaration hole e target (word :: (hs ++ opening :: ts)) n
      (levels + 1) := by
  intro depth previous hdepth
  simp only [List.length_cons, List.length_append] at hdepth
  obtain ⟨depth, rfl⟩ := exists_succ_of_pos (by omega : 0 < depth)
  have hmethods := h opening (by omega : _ ≤ depth)
  rw [declaration, ← resume_iterate]
  apply resuming_eq_error
  simp only [List.cons_append, List.append_assoc]
  rw [accept_then hword (by simp), bind_eq (hhead hopening _ _)]
  exact bind_eq_error hmethods

theorem FailsCallable.mk {name : Token}
    (hname : name.kind = .identifier) (hopening : opening.kind = .leftParen)
    (hparams : MaybeParameters ts params)
    (hclosing : closing.kind = .rightParen)
    (hbodyOpening : bodyOpening.kind = .leftBrace)
    (h : FailsBlock hole e target us n levels) :
    FailsCallable hole e target
      (name :: opening :: (ts ++ closing :: bodyOpening :: us)) n
      levels := by
  intro depth role previous hdepth
  simp only [List.length_cons, List.length_append] at hdepth
  obtain ⟨depth, rfl⟩ := exists_succ_of_pos (by omega : 0 < depth)
  obtain ⟨before, hbefore⟩ := functionHead_reads role hname hopening hparams
    hclosing hbodyOpening n (us ++ hole) previous
  have hblock := h.fails_block before (by omega : _ ≤ depth)
  simp only [List.cons_append, List.append_assoc, List.nil_append]
    at hbefore ⊢
  rw [function, bind_eq hbefore]
  exact bind_eq_error hblock

/-! ### Behind other declarations -/

theorem FailsBlock.here
    (hhead : ∃ token rest, ts ++ hole = token :: rest ∧
      entersDeclaration token.kind = true)
    (h : FailsDeclaration hole e target ts n levels) :
    FailsBlock hole e target ts n levels := by
  intro depth previous hdepth
  obtain ⟨depth, rfl⟩ := exists_succ_of_pos (by omega : 0 < depth)
  have hdeclaration := h previous (by omega : _ ≤ depth)
  obtain ⟨token, rest, hrest, henters⟩ := hhead
  rw [hrest] at hdeclaration ⊢
  have hother (kind : Token.Kind) (hkind : entersDeclaration kind = false) :
      token.kind ≠ kind :=
    ne_of_apply_ne entersDeclaration (by simp [henters, hkind])
  rw [blockItems, sees_past rfl (by simp) (hother _ rfl),
    choose_else (atEnd_eq_false rfl (hother _ rfl)),
    bind_eq_error hdeclaration]

theorem FailsBlock.cons (hhead : Declaration ts n s l)
    (helse : Avoids (· = .elseWord) (us ++ hole))
    (h : FailsBlock hole e target us l levels) :
    FailsBlock hole e target (ts ++ us) n levels := by
  intro depth previous hdepth
  have hpos := hhead.length_pos
  simp only [List.length_append] at hdepth
  obtain ⟨depth, rfl⟩ := exists_succ_of_pos (by omega : 0 < depth)
  obtain ⟨before, hbefore⟩ := @Declaration.reads _ _ _ _ hhead depth
    (us ++ hole) (by omega) helse previous
  have hend : atEnd ⟨previous, ts ++ (us ++ hole), n⟩ =
      .ok false ⟨previous, ts ++ (us ++ hole), n⟩ := by
    obtain ⟨token, vs, rfl, hopens⟩ := hhead.head
    apply atEnd_eq_false rfl
    intro heof
    rw [heof] at hopens
    cases hopens
  rw [blockItems, List.append_assoc, sees_else (hhead.avoids rfl _) (by simp),
    choose_else hend, bind_eq hbefore,
    bind_eq_error (h before (by omega))]

theorem FailsMethods.here
    (hhead : ∃ name rest, ts = name :: rest ∧ name.kind = .identifier)
    (h : FailsCallable hole e target ts n levels) :
    FailsMethods hole e target ts n levels := by
  intro depth previous hdepth
  obtain ⟨depth, rfl⟩ := exists_succ_of_pos (by omega : 0 < depth)
  have hmethod := h .method previous (by omega : _ ≤ depth)
  obtain ⟨name, rest, rfl, hname⟩ := hhead
  rw [List.cons_append] at hmethod ⊢
  rw [methods, sees_past hname (by simp) (by simp),
    choose_else (atEnd_eq_false rfl (by rw [hname]; simp)),
    bind_eq_error hmethod]

theorem FailsMethods.cons (hhead : Callable ts n decl l)
    (h : FailsMethods hole e target us l levels) :
    FailsMethods hole e target (ts ++ us) n levels := by
  intro depth previous hdepth
  obtain ⟨name, vs, rfl, hname⟩ :
      ∃ name vs, ts = name :: vs ∧ name.kind = .identifier := by
    cases hhead with
    | mk hname _ _ _ _ _ _ => exact ⟨_, _, rfl, hname⟩
  simp only [List.length_append, List.length_cons] at hdepth
  obtain ⟨depth, rfl⟩ := exists_succ_of_pos (by omega : 0 < depth)
  obtain ⟨before, hbefore⟩ := @Callable.reads _ _ _ _ hhead depth .method
    (us ++ hole) (by simp only [List.length_cons]; omega) previous
  have hmethods := h before (by omega : _ ≤ depth)
  simp only [List.cons_append, List.append_assoc] at hbefore ⊢
  rw [methods, sees_past hname (by simp) (by simp),
    choose_else (atEnd_eq_false rfl (by rw [hname]; simp)),
    bind_eq hbefore, bind_eq_error hmethods]

theorem CallableNests.head (h : CallableNests simple k k' ts n levels) :
    ∃ name rest, ts = name :: rest ∧ name.kind = .identifier := by
  cases h with
  | mk hname _ _ _ _ _ => exact ⟨_, _, rfl, hname⟩

mutual

theorem StatementNests.fails (hfaulty : Faulty hole k e target) :
    StatementNests simple k k' ts n levels →
      FailsStatement hole e target ts n levels
  | .here _ => .here hfaulty
  | .block hopening h => .block hopening (h.fails hfaulty)
  | .loop hword hopening h hclosing hbody =>
      .loop hword hopening h hclosing (hbody.fails hfaulty)
  | .thenBranch hword hopening h hclosing hthen =>
      .thenBranch hword hopening h hclosing (hthen.fails hfaulty)
  | .elseBranch hword hopening h hclosing hthen hother helse =>
      .elseBranch hword hopening h hclosing hthen hother
        (helse.fails hfaulty)
  | .forLoop hword hopening hstart htest hstop hincrement hclosing hbody =>
      .forLoop hword hopening hstart htest hstop hincrement hclosing
        (hbody.fails hfaulty)

theorem DeclarationNests.fails (hfaulty : Faulty hole k e target) :
    DeclarationNests simple k k' ts n levels →
      FailsDeclaration hole e target ts n levels
  | .statement h => .statement (h.head hfaulty) (h.fails hfaulty)
  | .varDecl _ => .statement hfaulty.opens (.here hfaulty)
  | .function hword h => .function hword (h.fails hfaulty)
  | .baseClass hword hname hopening h =>
      .ofClass hword (.base hname _) hopening (h.fails hfaulty)
  | .derivedClass hword hname hsign hsuper hopening h =>
      .ofClass hword (.derived hname hsign hsuper _) hopening
        (h.fails hfaulty)

theorem DeclarationsNest.fails (hfaulty : Faulty hole k e target) :
    DeclarationsNest simple k k' ts n levels →
      FailsBlock hole e target ts n levels
  | .here h => .here (h.head hfaulty) (h.fails hfaulty)
  | .cons hhead h =>
      .cons hhead (h.avoids hfaulty rfl rfl) (h.fails hfaulty)

theorem CallableNests.fails (hfaulty : Faulty hole k e target) :
    CallableNests simple k k' ts n levels →
      FailsCallable hole e target ts n levels
  | .mk hname hopening hparams hclosing hbodyOpening h =>
      .mk hname hopening hparams hclosing hbodyOpening (h.fails hfaulty)

theorem MethodsNest.fails (hfaulty : Faulty hole k e target) :
    MethodsNest simple k k' ts n levels →
      FailsMethods hole e target ts n levels
  | .here h => .here h.head (h.fails hfaulty)
  | .cons hhead h => .cons hhead (h.fails hfaulty)

end

end

end Grammar
end LoxLang
