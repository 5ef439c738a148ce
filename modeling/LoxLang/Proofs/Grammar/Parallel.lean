import LoxLang.Proofs.Grammar.Progress
import LoxLang.Proofs.Likeness.Tree

/-!
# Two readings side by side

Two readings by the same rule, each on tokens of its own, are compared step by
step.  A pairing says which places they can be at together, in which failures
they can end together, and which lines and numbers stand for each other; if it
answers alike to every question that a rule asks of the next token, then the
rule gives alike values in both readings or fails in both.  An expression has to
start where it can in both readings, and it does: it starts behind a sign or a
word, or in front of a token.  The depths of the two readings are independent of
each other, and nothing is said once one of them is used up.
-/

namespace LoxLang

structure Token.Alike (like : Likeness) (token other : Token) : Prop where
  kind : token.kind = other.kind
  lexeme : token.lexeme = other.lexeme
  line : like.line token.line other.line

theorem Token.Alike.of_eq {place : PlaceId → PlaceId → Prop}
    {token other : Token} (h : token = other) :
    token.Alike (.places place) other :=
  h ▸ ⟨rfl, rfl, rfl⟩

namespace Grammar

/-! ## Pairs of readings -/

/-- Both readings have given related values, or both have failed, or the depth
of one of them was used up. -/
inductive Abreast
    (failures : ParseError → Cursor → ParseError → Cursor → Prop)
    (post : Cursor → Cursor → Prop) (values : α → α → Prop) :
    EStateM.Result ParseError Cursor α → EStateM.Result ParseError Cursor α →
      Prop where
  | ok :
      values a a' → post c c' →
      Abreast failures post values (.ok a c) (.ok a' c')
  | error :
      failures e c e' c' →
      Abreast failures post values (.error e c) (.error e' c')
  | usedUpFirst :
      e.cause = .tooDeep → Abreast failures post values (.error e c) result
  | usedUpSecond :
      e.cause = .tooDeep → Abreast failures post values result (.error e c)

theorem Abreast.mono
    {failures : ParseError → Cursor → ParseError → Cursor → Prop}
    {post post' : Cursor → Cursor → Prop} {values : α → α → Prop}
    {result result' : EStateM.Result ParseError Cursor α}
    (h : Abreast failures post values result result')
    (hpost : ∀ c c', post c c' → post' c c') :
    Abreast failures post' values result result' := by
  cases h with
  | ok ha hend => exact .ok ha (hpost _ _ hend)
  | error hfailures => exact .error hfailures
  | usedUpFirst hcause => exact .usedUpFirst hcause
  | usedUpSecond hcause => exact .usedUpSecond hcause

/-- From places related by `pre` both readings come to places related by
`post` with related values, or fail together. -/
def Parallel (failures : ParseError → Cursor → ParseError → Cursor → Prop)
    (pre post : Cursor → Cursor → Prop) (values : α → α → Prop)
    (x y : Parse α) : Prop :=
  ∀ c c', pre c c' → Abreast failures post values (x c) (y c')

namespace Parallel

variable {failures : ParseError → Cursor → ParseError → Cursor → Prop}
variable {pre mid post : Cursor → Cursor → Prop} {α β : Type}
variable {values : α → α → Prop} {results : β → β → Prop}

protected theorem pure {a a' : α} (ha : values a a')
    (h : ∀ c c', pre c c' → post c c') :
    Parallel failures pre post values (pure a) (pure a') :=
  fun c c' hpre => .ok ha (h c c' hpre)

theorem bind {x y : Parse α} {f g : α → Parse β}
    (h : Parallel failures pre mid values x y)
    (hnext : ∀ a a', values a a' →
      Parallel failures mid post results (f a) (g a')) :
    Parallel failures pre post results (x >>= f) (y >>= g) := by
  intro c c' hpre
  change Abreast failures post results (EStateM.bind x f c)
    (EStateM.bind y g c')
  unfold EStateM.bind
  have habreast := h c c' hpre
  cases hx : x c with
  | ok a d =>
      cases hy : y c' with
      | ok a' d' =>
          rw [hx, hy] at habreast
          cases habreast with
          | ok ha hmid => exact hnext a a' ha d d' hmid
      | error e' d' =>
          rw [hx, hy] at habreast
          cases habreast with
          | usedUpSecond hcause => exact .usedUpSecond hcause
  | error e d =>
      cases hy : y c' with
      | ok a' d' =>
          rw [hx, hy] at habreast
          cases habreast with
          | usedUpFirst hcause => exact .usedUpFirst hcause
      | error e' d' =>
          rw [hx, hy] at habreast
          cases habreast with
          | error hfailures => exact .error hfailures
          | usedUpFirst hcause => exact .usedUpFirst hcause
          | usedUpSecond hcause => exact .usedUpSecond hcause

theorem mono {pre' post' : Cursor → Cursor → Prop} {x y : Parse α}
    (h : Parallel failures pre post values x y)
    (hpre : ∀ c c', pre' c c' → pre c c')
    (hpost : ∀ c c', post c c' → post' c c') :
    Parallel failures pre' post' values x y :=
  fun c c' hstart => (h c c' (hpre c c' hstart)).mono hpost

/-- Both readings move on to a boundary if they have failed. -/
theorem resuming {x y : Parse α}
    {after : ParseError → Cursor → ParseError → Cursor → Prop}
    (h : Parallel failures pre post values x y)
    (hresume : ∀ e c e' c', failures e c e' c' →
      after e c.resume e' c'.resume) :
    Parallel after pre post values (resuming x) (resuming y) := by
  intro c c' hpre
  have habreast := h c c' hpre
  unfold Grammar.resuming
  cases hx : x c <;> cases hy : y c' <;> rw [hx, hy] at habreast <;>
    cases habreast
  case ok.ok.ok ha hend => exact .ok ha hend
  case ok.error.usedUpSecond hcause => exact .usedUpSecond hcause
  case error.ok.usedUpFirst hcause => exact .usedUpFirst hcause
  case error.error.error hfailures =>
    exact .error (hresume _ _ _ _ hfailures)
  case error.error.usedUpFirst hcause => exact .usedUpFirst hcause
  case error.error.usedUpSecond hcause => exact .usedUpSecond hcause

theorem usedUpFirst {y : Parse α} :
    Parallel failures pre post values (failHere .tooDeep) y :=
  fun _ _ _ => .usedUpFirst rfl

theorem usedUpSecond {x : Parse α} :
    Parallel failures pre post values x (failHere .tooDeep) :=
  fun _ _ _ => .usedUpSecond rfl

end Parallel

/-- The places at which two readings can be together, the failures in which they
can end together, and what stands for each other in them. -/
structure Pairing where
  places : Cursor → Cursor → Prop
  failures : ParseError → Cursor → ParseError → Cursor → Prop
  like : Likeness

namespace Pairing

/-- Both readings come from `pre` to `post`, or fail together. -/
abbrev Links (pairing : Pairing) (pre post : Cursor → Cursor → Prop)
    (values : α → α → Prop) (x y : Parse α) : Prop :=
  Parallel pairing.failures pre post values x y

/-- Both readings keep to the places of the pairing. -/
abbrev Keeps (pairing : Pairing) (values : α → α → Prop) (x y : Parse α) :
    Prop :=
  pairing.Links pairing.places pairing.places values x y

/-- Places at which an expression can start in both readings. -/
structure Starts (pairing : Pairing) (c c' : Cursor) : Prop where
  places : pairing.places c c'
  ready : c.Ready
  ready' : c'.Ready

/-- Places at which both readings have just taken the same sign or word. -/
structure Behind (pairing : Pairing) (c c' : Cursor) : Prop
    extends pairing.Starts c c' where
  previous : c.previous.Alike pairing.like c'.previous

/-- All the places are places of the pairing. -/
def Covers (pairing : Pairing) (pre : Cursor → Cursor → Prop) : Prop :=
  ∀ c c', pre c c' → pairing.places c c'

theorem covers_places (pairing : Pairing) : pairing.Covers pairing.places :=
  fun _ _ h => h

theorem covers_starts (pairing : Pairing) : pairing.Covers pairing.Starts :=
  fun _ _ h => h.places

theorem covers_behind (pairing : Pairing) : pairing.Covers pairing.Behind :=
  fun _ _ h => h.places

end Pairing

namespace Parallel

variable {pairing : Pairing} {post : Cursor → Cursor → Prop} {x y : Parse α}
variable {values : α → α → Prop}

/-- The value is given where the readings are. -/
theorem give {pre : Cursor → Cursor → Prop} {a a' : α} (ha : values a a') :
    pairing.Links pre pre values (pure a) (pure a') :=
  .pure ha fun _ _ h => h

theorem giveBehind {a a' : α} (ha : values a a') :
    pairing.Links pairing.Behind pairing.places values (pure a) (pure a') :=
  .pure ha pairing.covers_behind

theorem starts (h : pairing.Links pairing.places post values x y) :
    pairing.Links pairing.Starts post values x y :=
  h.mono pairing.covers_starts fun _ _ h => h

theorem behind (h : pairing.Links pairing.Starts post values x y) :
    pairing.Links pairing.Behind post values x y :=
  h.mono (fun _ _ h => h.toStarts) fun _ _ h => h

end Parallel

/-- The failure of a reading that finds no expression. -/
def Cursor.missing (cursor : Cursor) : ParseError :=
  ⟨if cursor.here.kind = .eof then .expectedExpressionAtEnd
    else .expectedExpression cursor.here.lexeme, cursor.here.line⟩

/-- The pairing answers alike to the question whether a token of one of the
kinds comes next, and failures at its places belong together. -/
structure Pairing.Reads (pairing : Pairing) (kinds : Token.Kind → Prop) :
    Prop where
  ne_eof : ∀ ⦃kind⦄, kinds kind → kind ≠ .eof
  sees : ∀ ⦃c c' kind⦄, pairing.places c c' → kinds kind →
    c.sees kind = c'.sees kind
  take : ∀ ⦃c c' kind⦄, pairing.places c c' → kinds kind →
    c.sees kind = true →
    c.here.Alike pairing.like c'.here ∧ pairing.places c.advance c'.advance
  nextId : ∀ ⦃c c'⦄, pairing.places c c' →
    pairing.like.place c.nextId c'.nextId
  count : ∀ ⦃c c'⦄, pairing.places c c' →
    pairing.places { c with nextId := c.nextId + 1 }
      { c' with nextId := c'.nextId + 1 }
  failHere : ∀ ⦃c c'⦄ cause, pairing.places c c' →
    pairing.failures ⟨cause, c.here.line⟩ c ⟨cause, c'.here.line⟩ c'
  missing : ∀ ⦃c c'⦄, pairing.places c c' →
    pairing.failures c.missing c c'.missing c'
  target : ∀ ⦃c c' line line'⦄, pairing.places c c' →
    pairing.like.line line line' →
    pairing.failures ⟨.invalidTarget, line⟩ c ⟨.invalidTarget, line'⟩ c'

/-! ## Single actions -/

/-- A token is accepted exactly where it is seen. -/
theorem acceptWhere_cases (choose : Token.Kind → Option α) (cursor : Cursor) :
    (∃ kind a, cursor.sees kind = true ∧ choose kind = some a ∧
        acceptWhere choose cursor = .ok (some a) cursor.advance) ∨
      ((∀ kind a, choose kind = some a → cursor.sees kind = false) ∧
        acceptWhere choose cursor = .ok none cursor) := by
  unfold acceptWhere Cursor.sees
  cases hend : cursor.atEnd with
  | true => exact .inr ⟨by simp, rfl⟩
  | false =>
      cases hchoose : choose cursor.here.kind with
      | some a =>
          exact .inl ⟨cursor.here.kind, a, by simp, hchoose, by simp⟩
      | none =>
          refine .inr ⟨fun kind a hkind => ?_, by simp⟩
          rw [Bool.not_false, Bool.true_and, decide_eq_false_iff_not]
          rintro rfl
          rw [hchoose] at hkind
          cases hkind

theorem Cursor.sees_unique {cursor : Cursor} {kind other : Token.Kind}
    (h : cursor.sees kind = true) (hother : cursor.sees other = true) :
    kind = other := by
  unfold Cursor.sees at h hother
  simp only [Bool.and_eq_true, decide_eq_true_eq] at h hother
  exact h.2.symm.trans hother.2

namespace Pairing

variable {pairing : Pairing}

theorem previousLine_parallel :
    pairing.Links pairing.Behind pairing.Behind pairing.like.line
      previousLine previousLine :=
  fun _ _ hbehind => .ok hbehind.previous.line hbehind

namespace Reads

variable {kinds : Token.Kind → Prop} {pre post : Cursor → Cursor → Prop}
variable {values : α → α → Prop}

theorem mono {others : Token.Kind → Prop} (h : pairing.Reads kinds)
    (hsub : ∀ kind, others kind → kinds kind) : pairing.Reads others :=
  { h with
    ne_eof := fun _ hkind => h.ne_eof (hsub _ hkind)
    sees := fun _ _ _ hplaces hkind => h.sees hplaces (hsub _ hkind)
    take := fun _ _ _ hplaces hkind => h.take hplaces (hsub _ hkind) }

theorem behind (h : pairing.Reads kinds) {kind : Token.Kind} {c c' : Cursor}
    (hplaces : pairing.places c c') (hkind : kinds kind)
    (hplain : holdsValue kind = false) (hsees : c.sees kind = true) :
    pairing.Behind c.advance c'.advance := by
  have hsees' : c'.sees kind = true := (h.sees hplaces hkind).symm.trans hsees
  obtain ⟨hhere, hnext⟩ := h.take hplaces hkind hsees
  have htook := took_of_sees (h.ne_eof hkind) hsees
  have htook' := took_of_sees (h.ne_eof hkind) hsees'
  refine ⟨⟨hnext, htook.ready hplain, htook'.ready hplain⟩, ?_⟩
  rw [htook.previous_eq, htook'.previous_eq]
  exact hhere

theorem failHere_keeps (h : pairing.Reads kinds) (cause : ParseError.Cause) :
    pairing.Keeps values (Grammar.failHere cause) (Grammar.failHere cause) :=
  fun _ _ hplaces => .error (h.failHere cause hplaces)

theorem noExpression_keeps (h : pairing.Reads kinds) :
    pairing.Keeps values noExpression noExpression :=
  fun _ _ hplaces => .error (h.missing hplaces)

theorem freshId_keeps (h : pairing.Reads kinds) :
    pairing.Keeps pairing.like.place freshId freshId :=
  fun _ _ hplaces => .ok (h.nextId hplaces) (h.count hplaces)

/-- Both readings come behind the token, or fail in front of it. -/
theorem expect_parallel (h : pairing.Reads kinds) {kind : Token.Kind}
    (hkind : kinds kind) (hplain : holdsValue kind = false)
    (what : ParseError.Expectation) :
    pairing.Links pairing.places pairing.Behind (Token.Alike pairing.like)
      (expect kind what) (expect kind what) := by
  intro c c' hplaces
  unfold expect
  rw [← h.sees hplaces hkind]
  split
  next hsees =>
    exact .ok (h.take hplaces hkind hsees).1
      (h.behind hplaces hkind hplain hsees)
  next => exact .error (h.failHere _ hplaces)

theorem identifier_keeps (h : pairing.Reads kinds)
    (hkind : kinds .identifier) (what : ParseError.Expectation) :
    pairing.Keeps (Ident.Alike pairing.like) (identifier what)
      (identifier what) :=
  (h.expect_parallel hkind rfl what).bind fun _ _ htoken =>
    .giveBehind ⟨htoken.lexeme, htoken.line⟩

/-- Both readings take the token, or none of them does. -/
theorem accept_parallel (h : pairing.Reads kinds) {kind : Token.Kind}
    (hkind : kinds kind) (hplain : holdsValue kind = false)
    (hpre : pairing.Covers pre) {x x' y y' : Parse α}
    (hyes : pairing.Links pairing.Behind post values x x')
    (hno : pairing.Links pre post values y y') :
    pairing.Links pre post values
      (accept kind >>= fun b => if b = true then x else y)
      (accept kind >>= fun b => if b = true then x' else y') := by
  intro c c' hstart
  have hplaces := hpre c c' hstart
  have hsame := h.sees hplaces hkind
  cases hsees : c.sees kind with
  | true =>
      rw [choose_then (accept_of_sees hsees),
        choose_then (accept_of_sees (hsame.symm.trans hsees))]
      exact hyes _ _ (h.behind hplaces hkind hplain hsees)
  | false =>
      rw [choose_else (accept_of_not_sees hsees),
        choose_else (accept_of_not_sees (hsame.symm.trans hsees))]
      exact hno c c' hstart

theorem sees_parallel (h : pairing.Reads kinds) {kind : Token.Kind}
    (hkind : kinds kind) (hpre : pairing.Covers pre) {x x' y y' : Parse α}
    (hyes : pairing.Links pre post values x x')
    (hno : pairing.Links pre post values y y') :
    pairing.Links pre post values
      (Grammar.sees kind >>= fun b => if b = true then x else y)
      (Grammar.sees kind >>= fun b => if b = true then x' else y') := by
  intro c c' hstart
  change Abreast _ post values ((if c.sees kind = true then x else y) c)
    ((if c'.sees kind = true then x' else y') c')
  rw [← h.sees (hpre c c' hstart) hkind]
  split
  · exact hyes c c' hstart
  · exact hno c c' hstart

/-- Both readings take the same token of the table, or none of them does. -/
theorem acceptWhere_cases_parallel (h : pairing.Reads kinds)
    {choose : Token.Kind → Option α}
    (hchoose : ∀ kind a, choose kind = some a → kinds kind) {c c' : Cursor}
    (hplaces : pairing.places c c') :
    (∃ kind a, kinds kind ∧ choose kind = some a ∧ c.sees kind = true ∧
        acceptWhere choose c = .ok (some a) c.advance ∧
        acceptWhere choose c' = .ok (some a) c'.advance) ∨
      (acceptWhere choose c = .ok none c ∧
        acceptWhere choose c' = .ok none c') := by
  rcases acceptWhere_cases choose c with
    ⟨kind, a, hsees, hkind, haccept⟩ | ⟨hunseen, haccept⟩
  · have hsees' : c'.sees kind = true :=
      (h.sees hplaces (hchoose kind a hkind)).symm.trans hsees
    rcases acceptWhere_cases choose c' with
      ⟨kind', a', hsees'', hkind', haccept'⟩ | ⟨hunseen, -⟩
    · cases Cursor.sees_unique hsees' hsees''
      cases hkind.symm.trans hkind'
      exact .inl ⟨kind, a, hchoose kind a hkind, hkind, hsees, haccept,
        haccept'⟩
    · rw [hunseen kind a hkind] at hsees'
      cases hsees'
  · rcases acceptWhere_cases choose c' with
      ⟨kind', a', hsees', hkind', -⟩ | ⟨-, haccept'⟩
    · rw [← h.sees hplaces (hchoose kind' a' hkind'), hunseen kind' a' hkind']
        at hsees'
      cases hsees'
    · exact .inr ⟨haccept, haccept'⟩

theorem acceptWhere_parallel (h : pairing.Reads kinds)
    {choose : Token.Kind → Option β}
    (hchoose : ∀ kind b, choose kind = some b → kinds kind)
    (hplain : ∀ kind b, choose kind = some b → holdsValue kind = false)
    (hpre : pairing.Covers pre) {f g : Option β → Parse α}
    (hsome : ∀ b,
      pairing.Links pairing.Behind post values (f (some b)) (g (some b)))
    (hnone : pairing.Links pre post values (f none) (g none)) :
    pairing.Links pre post values (acceptWhere choose >>= f)
      (acceptWhere choose >>= g) := by
  intro c c' hstart
  have hplaces := hpre c c' hstart
  rcases h.acceptWhere_cases_parallel hchoose hplaces with
    ⟨kind, b, hkinds, hkind, hsees, haccept, haccept'⟩ | ⟨haccept, haccept'⟩
  · rw [bind_eq haccept, bind_eq haccept']
    exact hsome b _ _ (h.behind hplaces hkinds (hplain kind b hkind) hsees)
  · rw [bind_eq haccept, bind_eq haccept']
    exact hnone c c' hstart

/-- Where an expression can start, both readings take the same constant, or
none of them does. -/
theorem constant_parallel (h : pairing.Reads kinds)
    (hchoose : ∀ kind value, constant? kind = some value → kinds kind) :
    pairing.Links pairing.Starts pairing.places Eq constant constant := by
  intro c c' hstart
  rw [constant_eq_acceptWhere hstart.ready,
    constant_eq_acceptWhere hstart.ready']
  rcases h.acceptWhere_cases_parallel hchoose hstart.places with
    ⟨kind, a, hkinds, hkind, hsees, haccept, haccept'⟩ | ⟨haccept, haccept'⟩
  · rw [haccept, haccept']
    exact .ok rfl (h.take hstart.places hkinds hsees).2
  · rw [haccept, haccept']
    exact .ok rfl hstart.places

theorem assignTo_keeps (h : pairing.Reads kinds)
    {target target' value value' : Expr} {line line' : Nat}
    (htarget : target.Alike pairing.like target')
    (hline : pairing.like.line line line')
    (hvalue : value.Alike pairing.like value') :
    pairing.Keeps (Expr.Alike pairing.like) (assignTo target line value)
      (assignTo target' line' value') := by
  cases htarget with
  | read _ hname =>
      exact h.freshId_keeps.bind fun _ _ hid =>
        .give (.assign hid hname hvalue)
  | get hobject hname => exact .give (.set hobject hname hvalue)
  | _ => exact fun _ _ hplaces => .error (h.target hplaces hline)

end Reads

end Pairing

/-! ## Expressions -/

/-- The kinds of tokens that an expression asks for. -/
def InExpression (kind : Token.Kind) : Prop :=
  kind ≠ .semicolon ∧ kind ≠ .eof

theorem inExpression_of_unaryOp? {kind : Token.Kind} {op : UnaryOp}
    (h : unaryOp? kind = some op) : InExpression kind := by
  constructor <;> rintro rfl <;> cases h

theorem inExpression_of_connective? {n : Nat} {kind : Token.Kind}
    {sign : Connective} (h : connective? n kind = some sign) :
    InExpression kind := by
  unfold connective? at h
  split at h <;> cases h <;> simp [InExpression]

theorem inExpression_of_constant? {kind : Token.Kind} {value : Literal}
    (h : constant? kind = some value) : InExpression kind := by
  constructor <;> rintro rfl <;> cases h

theorem holdsValue_of_unaryOp? {kind : Token.Kind} {op : UnaryOp}
    (h : unaryOp? kind = some op) : holdsValue kind = false :=
  (unaryOp?_eq_some_iff.mp h).not_holdsValue

private theorem holdsValue_of_connective? {n : Nat} {kind : Token.Kind}
    {sign : Connective} (h : connective? n kind = some sign) :
    holdsValue kind = false := by
  unfold connective? at h
  split at h <;> cases h <;> rfl

theorem Connective.join_alike {like : Likeness}
    {left left' right right' : Expr} {line line' : Nat} (sign : Connective)
    (hleft : left.Alike like left') (hline : like.line line line')
    (hright : right.Alike like right') :
    (sign.join left line right).Alike like
      (sign.join left' line' right') := by
  cases sign with
  | binary op => exact .binary hleft hright hline
  | logical op => exact .logical hleft hright

namespace Pairing

/-- From where an expression can start, both readings keep to the places of the
pairing. -/
abbrev KeepsFromStart (pairing : Pairing) (values : α → α → Prop)
    (x y : Parse α) : Prop :=
  pairing.Links pairing.Starts pairing.places values x y

end Pairing

section

variable {pairing : Pairing}

mutual

theorem assignment_keeps (h : pairing.Reads InExpression) :
    ∀ depth depth',
      pairing.KeepsFromStart (Expr.Alike pairing.like) (assignment depth)
        (assignment depth')
  | 0, _ => .usedUpFirst
  | _ + 1, 0 => .usedUpSecond
  | depth + 1, depth' + 1 => by
      refine (level_keeps h depth depth' topLevel).bind
        fun _ _ htarget => ?_
      refine h.accept_parallel (by simp [InExpression]) rfl
        pairing.covers_places ?_ (.give htarget)
      refine Pairing.previousLine_parallel.bind fun _ _ hline => ?_
      exact (assignment_keeps h depth depth').behind.bind fun _ _ hvalue =>
        h.assignTo_keeps htarget hline hvalue

theorem level_keeps (h : pairing.Reads InExpression) :
    ∀ depth depth' n,
      pairing.KeepsFromStart (Expr.Alike pairing.like) (level depth n)
        (level depth' n)
  | 0, _, _ => .usedUpFirst
  | _ + 1, 0, _ => .usedUpSecond
  | depth + 1, depth' + 1, 0 => by
      refine h.acceptWhere_parallel (fun _ _ => inExpression_of_unaryOp?)
        (fun _ _ => holdsValue_of_unaryOp?) pairing.covers_starts
        (fun op => ?_) (call_keeps h depth depth')
      refine Pairing.previousLine_parallel.bind fun _ _ hline => ?_
      exact (level_keeps h depth depth' 0).behind.bind fun _ _ hoperand =>
        .give (.unary hoperand hline)
  | depth + 1, depth' + 1, n + 1 =>
      (level_keeps h depth depth' n).bind fun _ _ hleft =>
        levelTail_keeps h depth depth' n hleft

theorem levelTail_keeps (h : pairing.Reads InExpression) :
    ∀ depth depth' n {left left' : Expr}, left.Alike pairing.like left' →
      pairing.Keeps (Expr.Alike pairing.like) (levelTail depth n left)
        (levelTail depth' n left')
  | 0, _, _, _, _, _ => .usedUpFirst
  | _ + 1, 0, _, _, _, _ => .usedUpSecond
  | depth + 1, depth' + 1, n, _, _, hleft => by
      refine h.acceptWhere_parallel (fun _ _ => inExpression_of_connective?)
        (fun _ _ => holdsValue_of_connective?) pairing.covers_places
        (fun sign => ?_) (.give hleft)
      refine Pairing.previousLine_parallel.bind fun _ _ hline => ?_
      exact (level_keeps h depth depth' n).behind.bind fun _ _ hright =>
        levelTail_keeps h depth depth' n (sign.join_alike hleft hline hright)

theorem call_keeps (h : pairing.Reads InExpression) :
    ∀ depth depth',
      pairing.KeepsFromStart (Expr.Alike pairing.like) (call depth)
        (call depth')
  | 0, _ => .usedUpFirst
  | _ + 1, 0 => .usedUpSecond
  | depth + 1, depth' + 1 =>
      (primary_keeps h depth depth').bind fun _ _ hcallee =>
        callTail_keeps h depth depth' hcallee

theorem callTail_keeps (h : pairing.Reads InExpression) :
    ∀ depth depth' {callee callee' : Expr},
      callee.Alike pairing.like callee' →
      pairing.Keeps (Expr.Alike pairing.like) (callTail depth callee)
        (callTail depth' callee')
  | 0, _, _, _, _ => .usedUpFirst
  | _ + 1, 0, _, _, _ => .usedUpSecond
  | depth + 1, depth' + 1, callee, callee', hcallee => by
      have hclose (values values' : List Expr)
          (hvalues : Expr.AllAlike pairing.like values values') :
          pairing.Keeps (Expr.Alike pairing.like)
            (expect .rightParen .argumentsEnd >>= fun close =>
              callTail depth (.call callee close.line values))
            (expect .rightParen .argumentsEnd >>= fun close =>
              callTail depth' (.call callee' close.line values')) :=
        (h.expect_parallel (by simp [InExpression]) rfl _).bind
          fun _ _ htoken => (callTail_keeps h depth depth'
            (.call hcallee htoken.line hvalues)).starts.behind
      refine h.accept_parallel (by simp [InExpression]) rfl
        pairing.covers_places ?_
        (h.accept_parallel (by simp [InExpression]) rfl
          pairing.covers_places (Parallel.starts ?_).behind (.give hcallee))
      · refine h.sees_parallel (by simp [InExpression]) pairing.covers_behind
          ?_ ?_
        · exact ((Parallel.give .nil).bind hclose).starts.behind
        · exact (arguments_keeps h depth depth' 0).behind.bind hclose
      · exact (h.identifier_keeps (by simp [InExpression]) _).bind
          fun _ _ hname => callTail_keeps h depth depth' (.get hcallee hname)

theorem arguments_keeps (h : pairing.Reads InExpression) :
    ∀ depth depth' count,
      pairing.KeepsFromStart (Expr.AllAlike pairing.like)
        (arguments depth count) (arguments depth' count)
  | 0, _, _ => .usedUpFirst
  | _ + 1, 0, _ => .usedUpSecond
  | depth + 1, depth' + 1, count => by
      rw [arguments, arguments]
      split
      · exact (h.failHere_keeps _).starts
      · refine (assignment_keeps h depth depth').bind fun _ _ hvalue => ?_
        refine h.accept_parallel (by simp [InExpression]) rfl
          pairing.covers_places ?_ (.give (.cons hvalue .nil))
        exact (arguments_keeps h depth depth' (count + 1)).behind.bind
          fun _ _ hvalues => .give (.cons hvalue hvalues)

theorem primary_keeps (h : pairing.Reads InExpression) :
    ∀ depth depth',
      pairing.KeepsFromStart (Expr.Alike pairing.like) (primary depth)
        (primary depth')
  | 0, _ => .usedUpFirst
  | _ + 1, 0 => .usedUpSecond
  | depth + 1, depth' + 1 => by
      rw [primary, primary]
      refine (h.constant_parallel fun _ _ => inExpression_of_constant?).bind
        fun chosen _ hchosen => ?_
      subst hchosen
      cases chosen with
      | some value => exact .give .literal
      | none =>
      refine h.sees_parallel (by simp [InExpression]) pairing.covers_places ?_
        (h.accept_parallel (by simp [InExpression]) rfl
          pairing.covers_places ?_
          (h.accept_parallel (by simp [InExpression]) rfl
            pairing.covers_places ?_
            (h.accept_parallel (by simp [InExpression]) rfl
              pairing.covers_places ?_ h.noExpression_keeps)))
      · refine (h.identifier_keeps (by simp [InExpression]) _).bind
          fun _ _ hname => ?_
        exact h.freshId_keeps.bind fun _ _ hid => .give (.read hid hname)
      · refine Pairing.previousLine_parallel.bind fun _ _ hline => ?_
        refine Parallel.behind (Parallel.starts ?_)
        exact h.freshId_keeps.bind fun _ _ hid => .give (.this hid hline)
      · refine Pairing.previousLine_parallel.bind fun _ _ hline => ?_
        refine Parallel.behind (Parallel.starts ?_)
        refine (h.expect_parallel (by simp [InExpression]) rfl _).bind
          fun _ _ _ => ?_
        refine Parallel.behind (Parallel.starts ?_)
        refine (h.identifier_keeps (by simp [InExpression]) _).bind
          fun _ _ hname => ?_
        exact h.freshId_keeps.bind fun _ _ hid =>
          .give (.super hid hline hname)
      · refine (assignment_keeps h depth depth').behind.bind
          fun _ _ hinner => ?_
        exact (h.expect_parallel (by simp [InExpression]) rfl _).bind
          fun _ _ _ => .giveBehind (.group hinner)

end

theorem expression_keeps (h : pairing.Reads InExpression) :
    pairing.KeepsFromStart (Expr.Alike pairing.like) expression expression :=
  fun c c' hstart => assignment_keeps h _ _ c c' hstart

end

/-! ## Simple statements -/

/-- The pairing agrees on where the next semicolon is, and behind it both
readings are at places related by `post`. -/
structure Pairing.Stops (pairing : Pairing) (post : Cursor → Cursor → Prop) :
    Prop where
  sees : ∀ ⦃c c'⦄, pairing.places c c' →
    c.sees .semicolon = c'.sees .semicolon
  expect : ∀ what, pairing.Links pairing.places post
    (Token.Alike pairing.like) (expect .semicolon what)
    (expect .semicolon what)

section

variable {pairing : Pairing} {post : Cursor → Cursor → Prop}

private theorem terminated_parallel (h : pairing.Reads InExpression)
    (hstops : pairing.Stops post) (what : ParseError.Expectation) :
    pairing.Links pairing.Starts post (Expr.Alike pairing.like)
      (terminated what) (terminated what) :=
  (expression_keeps h).bind fun _ _ hexpr =>
    (hstops.expect what).bind fun _ _ _ => .give hexpr

theorem printStmt_parallel (h : pairing.Reads InExpression)
    (hstops : pairing.Stops post) :
    pairing.Links pairing.Starts post (Stmt.Alike pairing.like) printStmt
      printStmt :=
  (terminated_parallel h hstops _).bind fun _ _ hexpr => .give (.print hexpr)

theorem expressionStmt_parallel (h : pairing.Reads InExpression)
    (hstops : pairing.Stops post) :
    pairing.Links pairing.Starts post (Stmt.Alike pairing.like)
      expressionStmt expressionStmt :=
  (terminated_parallel h hstops _).bind fun _ _ hexpr =>
    .give (.expression hexpr)

theorem variableDecl_parallel (h : pairing.Reads InExpression)
    (hstops : pairing.Stops post) :
    pairing.Links pairing.places post (Stmt.Alike pairing.like) variableDecl
      variableDecl := by
  refine (h.identifier_keeps (by simp [InExpression]) _).bind
    fun name name' hname => ?_
  have hend (initial initial' : Option Expr)
      (hinitial : Expr.OptionAlike pairing.like initial initial') :
      pairing.Links pairing.places post (Stmt.Alike pairing.like)
        (expect .semicolon .variableEnd >>= fun _ =>
          pure (.var name initial))
        (expect .semicolon .variableEnd >>= fun _ =>
          pure (.var name' initial')) :=
    (hstops.expect _).bind fun _ _ _ => .give (.var hname hinitial)
  refine h.accept_parallel (by simp [InExpression]) rfl pairing.covers_places
    ?_ ((Parallel.give .none).bind hend)
  rw [← bind_pure_comp]
  exact ((expression_keeps h).behind.bind fun _ _ hexpr =>
    .give (.some hexpr)).bind hend

theorem returnStmt_parallel (h : pairing.Reads InExpression)
    (hstops : pairing.Stops post) :
    pairing.Links pairing.Behind post (Stmt.Alike pairing.like) returnStmt
      returnStmt := by
  refine Pairing.previousLine_parallel.bind fun _ _ hline => ?_
  have hvalue : pairing.KeepsFromStart (Expr.OptionAlike pairing.like)
      (unlessSees .semicolon) (unlessSees .semicolon) := by
    intro c c' hstart
    change Abreast _ _ _
      ((if c.sees .semicolon = true then pure none
        else expression >>= fun e => pure (some e) : Parse _) c)
      ((if c'.sees .semicolon = true then pure none
        else expression >>= fun e => pure (some e) : Parse _) c')
    rw [← hstops.sees hstart.places]
    split
    · exact .ok .none hstart.places
    · exact (expression_keeps h).bind
        (fun _ _ hexpr => .give (.some hexpr)) c c' hstart
  exact hvalue.behind.bind fun _ _ hvalue =>
    (hstops.expect _).bind fun _ _ _ => .give (.ret hline hvalue)

theorem condition_parallel (h : pairing.Reads InExpression)
    (start : ParseError.Expectation) :
    pairing.Links pairing.places pairing.Behind (Expr.Alike pairing.like)
      (condition start) (condition start) :=
  (h.expect_parallel (by simp [InExpression]) rfl _).bind fun _ _ _ =>
    (expression_keeps h).behind.bind fun _ _ hexpr =>
      (h.expect_parallel (by simp [InExpression]) rfl _).bind fun _ _ _ =>
        .give hexpr

/-! ## Heads of functions and classes -/

private theorem parameters_keeps (h : pairing.Reads InExpression) :
    ∀ bound bound' count,
      pairing.Keeps (List.Forall₂ (Ident.Alike pairing.like))
        (parameters bound count) (parameters bound' count)
  | 0, _, _ => .usedUpFirst
  | _ + 1, 0, _ => .usedUpSecond
  | bound + 1, bound' + 1, count => by
      rw [parameters, parameters]
      split
      · exact h.failHere_keeps _
      · refine (h.identifier_keeps (by simp [InExpression]) _).bind
          fun _ _ hname => ?_
        refine h.accept_parallel (by simp [InExpression]) rfl
          pairing.covers_places ?_ (.give (.cons hname .nil))
        exact ((parameters_keeps h bound bound' (count + 1)).bind
          fun _ _ hnames => .give (.cons hname hnames)).starts.behind

/-- The name and the parameters of two functions are alike. -/
def HeadsAlike (like : Likeness) (a b : Ident × List Ident) : Prop :=
  a.1.Alike like b.1 ∧ List.Forall₂ (Ident.Alike like) a.2 b.2

/-- What both readings can tell behind the brace is left open. -/
theorem functionHead_parallel (h : pairing.Reads InExpression)
    (hbrace : ∀ what, pairing.Links pairing.places post
      (Token.Alike pairing.like) (expect .leftBrace what)
      (expect .leftBrace what))
    (role : FunctionRole) :
    pairing.Links pairing.places post (HeadsAlike pairing.like)
      (functionHead role) (functionHead role) := by
  refine (h.identifier_keeps (by simp [InExpression]) _).bind
    fun name name' hname => ?_
  refine (h.expect_parallel (by simp [InExpression]) rfl _).bind
    fun _ _ _ => ?_
  have hend (params params' : List Ident)
      (hparams : List.Forall₂ (Ident.Alike pairing.like) params params') :
      pairing.Links pairing.places post (HeadsAlike pairing.like)
        (expect .rightParen .parametersEnd >>= fun _ =>
          expect .leftBrace (.functionBodyStart role) >>= fun _ =>
            pure (name, params))
        (expect .rightParen .parametersEnd >>= fun _ =>
          expect .leftBrace (.functionBodyStart role) >>= fun _ =>
            pure (name', params')) :=
    (h.expect_parallel (by simp [InExpression]) rfl _).bind fun _ _ _ =>
      (hbrace _).starts.behind.bind fun _ _ _ => .give ⟨hname, hparams⟩
  refine Parallel.behind (Parallel.starts ?_)
  refine h.sees_parallel (by simp [InExpression]) pairing.covers_places
    ((Parallel.give .nil).bind hend) ?_
  exact Parallel.bind (x := fun cursor =>
    parameters cursor.depthBound 0 cursor)
    (fun c c' hplaces => parameters_keeps h _ _ 0 c c' hplaces) hend

/-- The name and the superclass of two classes are alike. -/
def ClassHeadsAlike (like : Likeness) (a b : Ident × Option Expr) : Prop :=
  a.1.Alike like b.1 ∧ Expr.OptionAlike like a.2 b.2

theorem classHead_parallel (h : pairing.Reads InExpression)
    (hbrace : ∀ what, pairing.Links pairing.places post
      (Token.Alike pairing.like) (expect .leftBrace what)
      (expect .leftBrace what)) :
    pairing.Links pairing.places post (ClassHeadsAlike pairing.like) classHead
      classHead := by
  refine (h.identifier_keeps (by simp [InExpression]) _).bind
    fun name name' hname => ?_
  have hend (parent parent' : Option Expr)
      (hparent : Expr.OptionAlike pairing.like parent parent') :
      pairing.Links pairing.places post (ClassHeadsAlike pairing.like)
        (expect .leftBrace .classBodyStart >>= fun _ => pure (name, parent))
        (expect .leftBrace .classBodyStart >>= fun _ =>
          pure (name', parent')) :=
    (hbrace _).bind fun _ _ _ => .give ⟨hname, hparent⟩
  refine h.accept_parallel (by simp [InExpression]) rfl pairing.covers_places
    ?_ ((Parallel.give .none).bind hend)
  refine Parallel.behind (Parallel.starts ?_)
  refine (h.identifier_keeps (by simp [InExpression]) _).bind
    fun _ _ hparent => ?_
  refine h.freshId_keeps.bind fun _ _ hid => ?_
  exact (Parallel.give (.some (.read hid hparent))).bind hend

end

/-! ## Statements -/

/-- The pairing also agrees on where the tokens end, and failures that belong
together still do so after both readings have moved on to a boundary. -/
structure Pairing.Resumes (pairing : Pairing) : Prop
    extends pairing.Reads (· ≠ .eof) where
  atEnd : ∀ ⦃c c'⦄, pairing.places c c' → c.atEnd = c'.atEnd
  places_of_failures : ∀ ⦃e c e' c'⦄, pairing.failures e c e' c' →
    pairing.places c c'
  resume : ∀ ⦃e c e' c'⦄, pairing.failures e c e' c' →
    pairing.failures e c.resume e' c'.resume

section

variable {pairing : Pairing} {values : α → α → Prop}

namespace Pairing.Resumes

theorem inExpression (h : pairing.Resumes) : pairing.Reads InExpression :=
  h.toReads.mono fun _ hkind => hkind.2

theorem stops (h : pairing.Resumes) : pairing.Stops pairing.Behind where
  sees _ _ hplaces := h.sees hplaces (by simp)
  expect what := h.expect_parallel (by simp) rfl what

theorem brace (h : pairing.Resumes) (what : ParseError.Expectation) :
    pairing.Links pairing.places pairing.Behind (Token.Alike pairing.like)
      (expect .leftBrace what) (expect .leftBrace what) :=
  h.expect_parallel (by simp) rfl what

theorem starts (h : pairing.Resumes) {c c' : Cursor}
    (hplaces : pairing.places c c') (hend : c.atEnd = false) :
    pairing.Starts c c' :=
  ⟨hplaces, Cursor.ready_of_atEnd_eq_false hend,
    Cursor.ready_of_atEnd_eq_false ((h.atEnd hplaces).symm.trans hend)⟩

/-- In front of a token an expression can start. -/
theorem atEnd_parallel (h : pairing.Resumes) {x x' y y' : Parse α}
    (hyes : pairing.Keeps values x x')
    (hno : pairing.KeepsFromStart values y y') :
    pairing.Keeps values
      (Grammar.atEnd >>= fun b => if b = true then x else y)
      (Grammar.atEnd >>= fun b => if b = true then x' else y') := by
  intro c c' hplaces
  change Abreast _ _ _ ((if c.atEnd = true then x else y) c)
    ((if c'.atEnd = true then x' else y') c')
  rw [← h.atEnd hplaces]
  split
  next => exact hyes c c' hplaces
  next hend => exact hno c c' (h.starts hplaces (by simpa using hend))

end Pairing.Resumes

/-- Both readings take the same first word of a variable declaration, or none
of them does. -/
theorem Pairing.Reads.acceptVariable_parallel
    {pre post : Cursor → Cursor → Prop} (h : pairing.Reads InExpression)
    (hpre : pairing.Covers pre) {x x' y y' : Parse α}
    (hyes : pairing.Links pairing.places post values x x')
    (hno : pairing.Links pre post values y y') :
    pairing.Links pre post values
      (acceptVariable >>= fun b => if b = true then x else y)
      (acceptVariable >>= fun b => if b = true then x' else y') := by
  have hassoc (x y : Parse α) :
      (acceptVariable >>= fun b => if b = true then x else y) =
        accept .varWord >>= fun b => if b = true then x
          else accept .valWord >>= fun b => if b = true then x else y := by
    unfold acceptVariable
    rw [bind_assoc]
    refine bind_congr fun b => ?_
    cases b <;> rfl
  rw [hassoc, hassoc]
  exact h.accept_parallel (by simp [InExpression]) rfl hpre hyes.starts.behind
    (h.accept_parallel (by simp [InExpression]) rfl hpre hyes.starts.behind
      hno)

theorem unlessSees_keeps (h : pairing.Resumes) {kind : Token.Kind}
    (hkind : kind ≠ .eof) :
    pairing.KeepsFromStart (Expr.OptionAlike pairing.like) (unlessSees kind)
      (unlessSees kind) :=
  h.sees_parallel hkind pairing.covers_starts (Parallel.give .none).starts
    ((expression_keeps h.inExpression).bind fun _ _ hexpr =>
      .give (.some hexpr))

structure ForClauses.Alike (like : Likeness) (a b : ForClauses) : Prop where
  initializer : Stmt.OptionAlike like a.initializer b.initializer
  condition : Expr.OptionAlike like a.condition b.condition
  increment : Expr.OptionAlike like a.increment b.increment

theorem ForClauses.Alike.loop {like : Likeness}
    {a b : ForClauses} {body body' : Stmt} (h : a.Alike like b)
    (hbody : body.Alike like body') :
    (a.loop body).Alike like (b.loop body') := by
  obtain ⟨initializer, condition, increment⟩ := a
  obtain ⟨initializer', condition', increment'⟩ := b
  obtain ⟨hinitializer, hcondition, hincrement⟩ := h
  have htest :
      (condition.getD (.literal .yes)).Alike like
        (condition'.getD (.literal .yes)) := by
    cases hcondition with
    | none => exact .literal
    | some h => exact h
  cases hincrement with
  | none =>
      cases hinitializer with
      | none => exact .loop htest hbody
      | some hinitial => exact .block (.cons hinitial
          (.cons (.loop htest hbody) .nil))
  | some hincrement =>
      have hround := Stmt.Alike.block (.cons hbody
        (.cons (.expression hincrement) .nil))
      cases hinitializer with
      | none => exact .loop htest hround
      | some hinitial => exact .block (.cons hinitial
          (.cons (.loop htest hround) .nil))

private theorem forInitializer_parallel (h : pairing.Resumes) :
    pairing.Links pairing.Starts pairing.Behind
      (Stmt.OptionAlike pairing.like) forInitializer forInitializer := by
  refine h.accept_parallel (by simp) rfl pairing.covers_starts (.give .none)
    (h.inExpression.acceptVariable_parallel pairing.covers_starts ?_ ?_)
  · exact (variableDecl_parallel h.inExpression h.stops).bind
      fun _ _ hstmt => .give (.some hstmt)
  · exact (expressionStmt_parallel h.inExpression h.stops).bind
      fun _ _ hstmt => .give (.some hstmt)

private theorem forClauses_parallel (h : pairing.Resumes) :
    pairing.Links pairing.places pairing.Behind
      (ForClauses.Alike pairing.like) forClauses forClauses := by
  refine (h.expect_parallel (by simp) rfl _).bind fun _ _ _ => ?_
  refine (forInitializer_parallel h).behind.bind fun _ _ hinitializer => ?_
  refine (unlessSees_keeps h (by simp)).behind.bind fun _ _ hcondition => ?_
  refine (h.expect_parallel (by simp) rfl _).bind fun _ _ _ => ?_
  refine (unlessSees_keeps h (by simp)).behind.bind fun _ _ hincrement => ?_
  exact (h.expect_parallel (by simp) rfl _).bind fun _ _ _ =>
    .give ⟨hinitializer, hcondition, hincrement⟩

mutual

theorem declaration_keeps (h : pairing.Resumes) :
    ∀ depth depth',
      pairing.KeepsFromStart (Stmt.Alike pairing.like) (declaration depth)
        (declaration depth')
  | 0, _ => .usedUpFirst
  | _ + 1, 0 => .usedUpSecond
  | depth + 1, depth' + 1 => by
      have hvariable : pairing.Keeps (Stmt.Alike pairing.like) variableDecl
          variableDecl :=
        (variableDecl_parallel h.inExpression h.stops).mono
          pairing.covers_places pairing.covers_behind
      refine Parallel.resuming
        (h.accept_parallel (by simp) rfl pairing.covers_starts ?_
          (h.accept_parallel (by simp) rfl pairing.covers_starts ?_
            (h.inExpression.acceptVariable_parallel pairing.covers_starts
              hvariable (statement_keeps h depth depth'))))
        (fun _ _ _ _ hfailures => h.resume hfailures)
      · refine Parallel.behind (Parallel.starts ?_)
        refine (classHead_parallel h.inExpression h.brace).bind
          fun _ _ hhead => ?_
        refine (methods_keeps h depth depth').starts.behind.bind
          fun _ _ hmethods => ?_
        exact (h.expect_parallel (by simp) rfl _).bind fun _ _ _ =>
          .giveBehind (.classDecl hhead.1 hhead.2 hmethods)
      · refine Parallel.behind (Parallel.starts ?_)
        exact (function_keeps h depth depth' _).bind
          fun _ _ hdeclaration => .give (.function hdeclaration)

theorem methods_keeps (h : pairing.Resumes) :
    ∀ depth depth',
      pairing.Keeps (FunctionDecl.AllAlike pairing.like) (methods depth)
        (methods depth')
  | 0, _ => .usedUpFirst
  | _ + 1, 0 => .usedUpSecond
  | depth + 1, depth' + 1 => by
      refine h.sees_parallel (by simp) pairing.covers_places (.give .nil)
        (h.atEnd_parallel (.give .nil) (Parallel.starts ?_))
      refine (function_keeps h depth depth' _).bind fun _ _ hmethod => ?_
      exact (methods_keeps h depth depth').bind fun _ _ hrest =>
        .give (.cons hmethod hrest)

theorem function_keeps (h : pairing.Resumes) :
    ∀ depth depth' role,
      pairing.Keeps (FunctionDecl.Alike pairing.like) (function depth role)
        (function depth' role)
  | 0, _, _ => .usedUpFirst
  | _ + 1, 0, _ => .usedUpSecond
  | depth + 1, depth' + 1, role => by
      refine (functionHead_parallel h.inExpression h.brace role).bind
        fun _ _ hhead => ?_
      exact (block_keeps h depth depth').starts.behind.bind fun _ _ hbody =>
        .give (.mk hhead.1 hhead.2 hbody)

theorem statement_keeps (h : pairing.Resumes) :
    ∀ depth depth',
      pairing.KeepsFromStart (Stmt.Alike pairing.like) (statement depth)
        (statement depth')
  | 0, _ => .usedUpFirst
  | _ + 1, 0 => .usedUpSecond
  | depth + 1, depth' + 1 => by
      have hstatement := (statement_keeps h depth depth').behind
      have hsimple {x : Parse Stmt}
          (hx : pairing.Links pairing.Starts pairing.Behind
            (Stmt.Alike pairing.like) x x) :
          pairing.KeepsFromStart (Stmt.Alike pairing.like) x x :=
        hx.mono (fun _ _ h => h) pairing.covers_behind
      refine h.accept_parallel (by simp) rfl pairing.covers_starts ?_
        (h.accept_parallel (by simp) rfl pairing.covers_starts ?_
          (h.accept_parallel (by simp) rfl pairing.covers_starts ?_
            (h.accept_parallel (by simp) rfl pairing.covers_starts ?_
              (h.accept_parallel (by simp) rfl pairing.covers_starts ?_
                (h.accept_parallel (by simp) rfl pairing.covers_starts
                  (hsimple
                    (printStmt_parallel h.inExpression h.stops)).behind
                  (hsimple
                    (expressionStmt_parallel h.inExpression h.stops)))))))
      · refine (forClauses_parallel h).starts.behind.bind
          fun _ _ hclauses => ?_
        exact hstatement.bind fun _ _ hbody => .give (hclauses.loop hbody)
      · refine (condition_parallel h.inExpression _).starts.behind.bind
          fun _ _ htest => ?_
        refine hstatement.bind fun _ _ hyes => ?_
        refine h.accept_parallel (by simp) rfl pairing.covers_places ?_
          (.give (.branch htest hyes .none))
        exact hstatement.bind fun _ _ hno =>
          .give (.branch htest hyes (.some hno))
      · refine (condition_parallel h.inExpression _).starts.behind.bind
          fun _ _ htest => ?_
        exact hstatement.bind fun _ _ hbody => .give (.loop htest hbody)
      · exact (returnStmt_parallel h.inExpression h.stops).mono
          (fun _ _ h => h) pairing.covers_behind
      · refine Parallel.behind (Parallel.starts ?_)
        exact (block_keeps h depth depth').bind fun _ _ hbody =>
          .give (.block hbody)

theorem block_keeps (h : pairing.Resumes) :
    ∀ depth depth',
      pairing.Keeps (Stmt.AllAlike pairing.like) (block depth) (block depth')
  | 0, _ => .usedUpFirst
  | _ + 1, 0 => .usedUpSecond
  | depth + 1, depth' + 1 =>
      (blockItems_keeps h depth depth').bind fun _ _ hbody =>
        (h.expect_parallel (by simp) rfl _).bind fun _ _ _ =>
          .giveBehind hbody

theorem blockItems_keeps (h : pairing.Resumes) :
    ∀ depth depth',
      pairing.Keeps (Stmt.AllAlike pairing.like) (blockItems depth)
        (blockItems depth')
  | 0, _ => .usedUpFirst
  | _ + 1, 0 => .usedUpSecond
  | depth + 1, depth' + 1 => by
      refine h.sees_parallel (by simp) pairing.covers_places (.give .nil)
        (h.atEnd_parallel (.give .nil) ?_)
      refine (declaration_keeps h depth depth').bind fun _ _ hstmt => ?_
      exact (blockItems_keeps h depth depth').bind fun _ _ hrest =>
        .give (.cons hstmt hrest)

end

end

end Grammar
end LoxLang
