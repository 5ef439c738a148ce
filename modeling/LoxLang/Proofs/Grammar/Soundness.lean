import LoxLang.Proofs.Grammar.Cursor

/-!
# What is read follows the grammar

Every reading that succeeds has used up tokens that derive its tree, if it
starts where an expression can.  All readings of a program do: what is behind
the end of the tokens is looked at only after a sign or a word.  The readings
call each other, so each part below is an induction on the depth of
the reading, with one theorem for each rule.
-/

namespace LoxLang

/-- The expression is not made by a sign. -/
def Expr.Unsigned : Expr → Prop
  | .unary .. | .binary .. | .logical .. => False
  | _ => True

namespace Grammar

/-- Whatever a reading gives is derived by the tokens it has used up. -/
def Sound (reading : Parse α)
    (derives : List Token → PlaceId → α → PlaceId → Prop) : Prop :=
  ∀ ⦃cursor next a⦄, reading cursor = .ok a next →
    ∃ tokens, cursor.rest = tokens ++ next.rest ∧
      derives tokens cursor.nextId a next.nextId

/-- As `Sound`, for readings that start where an expression can. -/
def SoundWhenReady (reading : Parse α)
    (derives : List Token → PlaceId → α → PlaceId → Prop) : Prop :=
  ∀ ⦃cursor next a⦄, cursor.Ready → reading cursor = .ok a next →
    ∃ tokens, cursor.rest = tokens ++ next.rest ∧
      derives tokens cursor.nextId a next.nextId

theorem failHere_ne_ok {cause : ParseError.Cause} {cursor next : Cursor}
    {a : α} : failHere cause cursor ≠ .ok a next := by
  intro h
  cases h

/-! ## Tables of signs -/

/-- The level at which the operands of a tier are read. -/
def Tier.level : Tier → Nat
  | .factor => 0
  | .term => 1
  | .comparison => 2
  | .equality => 3
  | .conjunction => 4
  | .disjunction => 5

theorem connective?_eq_some_iff {tier : Tier} {kind : Token.Kind}
    {sign : Connective} :
    connective? (tier.level + 1) kind = some sign ↔
      tier.Joins kind sign := by
  constructor
  · intro h
    generalize hlevel : tier.level + 1 = level at h
    unfold connective? at h
    split at h <;> cases h <;> cases tier <;> cases hlevel <;> constructor
  · intro h
    cases h <;> rfl

theorem unaryOp?_eq_some_iff {kind : Token.Kind} {op : UnaryOp} :
    unaryOp? kind = some op ↔ Leads kind op := by
  constructor
  · intro h
    unfold unaryOp? at h
    split at h <;> cases h <;> constructor
  · intro h
    cases h <;> rfl

theorem constant?_eq_some_iff {kind : Token.Kind} {value : Literal} :
    constant? kind = some value ↔ Denotes kind value := by
  constructor
  · intro h
    unfold constant? at h
    split at h <;> cases h <;> constructor
  · intro h
    cases h <;> rfl

theorem Leads.not_holdsValue {kind : Token.Kind} {op : UnaryOp}
    (h : Leads kind op) : holdsValue kind = false := by
  cases h <;> rfl

theorem Tier.Joins.not_holdsValue {tier : Tier} {kind : Token.Kind}
    {sign : Connective} (h : tier.Joins kind sign) :
    holdsValue kind = false := by
  cases h <;> rfl

/-! ## Targets of assignments -/

theorem Connective.not_unsigned_join {left right : Expr} {line : Nat}
    (sign : Connective) : ¬ (sign.join left line right).Unsigned := by
  cases sign <;> exact id

theorem Tiered.operand_of_unsigned
    (h : Tiered tier ts n e m) (he : e.Unsigned) : Operand tier ts n e m := by
  cases h with
  | operand h => exact h
  | join _ _ _ => exact absurd he (Connective.not_unsigned_join _)

/-- Without signs an expression is no more than a call. -/
theorem Tiered.call_of_unsigned
    (h : Tiered .disjunction ts n e m) (he : e.Unsigned) :
    Call ts n e m := by
  cases h.operand_of_unsigned he with | ofConjunction hand =>
  cases hand.operand_of_unsigned he with | ofEquality heq =>
  cases heq.operand_of_unsigned he with | ofComparison hcmp =>
  cases hcmp.operand_of_unsigned he with | ofTerm hterm =>
  cases hterm.operand_of_unsigned he with | ofFactor hfactor =>
  cases hfactor.operand_of_unsigned he with | ofUnary hunary =>
  cases hunary with
  | ofCall hcall => exact hcall
  | sign _ _ => exact he.elim

theorem Call.read_inv {id : PlaceId} (h : Call ts n (.read id name) m) :
    ∃ token, ts = [token] ∧ token.kind = .identifier ∧
      name = token.ident ∧ m = n + 1 := by
  cases h with
  | ofPrimary h =>
      cases h with
      | name hname => exact ⟨_, rfl, hname, rfl, rfl⟩

theorem Call.get_inv (h : Call ts n (.get object name) m) :
    ∃ us dot token, ts = us ++ [dot, token] ∧ dot.kind = .dot ∧
      token.kind = .identifier ∧ name = token.ident ∧
      Call us n object m := by
  cases h with
  | ofPrimary h => cases h
  | property h hdot hname => exact ⟨_, _, _, rfl, hdot, hname, rfl, h⟩

/-- An assignment read as an expression, a sign and a value follows the
narrower rule of the grammar. -/
theorem assignTo_sound {target value result : Expr} {sign : Token}
    {cursor next : Cursor}
    (htarget : Tiered .disjunction ts n target k)
    (hsign : sign.kind = .equal)
    (hvalue : Assignment us k value cursor.nextId)
    (h : assignTo target sign.line value cursor = .ok result next) :
    next.rest = cursor.rest ∧
      Assignment (ts ++ sign :: us) n result next.nextId := by
  unfold assignTo at h
  split at h
  next id name =>
    obtain ⟨token, rfl, htoken, rfl, rfl⟩ :=
      (htarget.call_of_unsigned trivial).read_inv
    cases h
    exact ⟨rfl, .toName htoken hsign hvalue⟩
  next object name =>
    obtain ⟨ws, dot, token, rfl, hdot, htoken, rfl, hobject⟩ :=
      (htarget.call_of_unsigned trivial).get_inv
    cases h
    refine ⟨rfl, ?_⟩
    simpa using Assignment.toProperty hobject hdot htoken hsign hvalue
  next => cases h

/-! ## Expressions -/

/-- The operands of a tier are read at the level just below it. -/
theorem operand_sound {depth : Nat}
    (htiered : ∀ tier : Tier,
      SoundWhenReady (level depth (tier.level + 1)) (Tiered tier))
    (hunary : SoundWhenReady (level depth 0) Unary) (tier : Tier) :
    SoundWhenReady (level depth tier.level) (Operand tier) := by
  intro cursor next e hready h
  cases tier with
  | factor =>
      obtain ⟨ts, hts, d⟩ := hunary hready h
      exact ⟨ts, hts, .ofUnary d⟩
  | term =>
      obtain ⟨ts, hts, d⟩ := htiered .factor hready h
      exact ⟨ts, hts, .ofFactor d⟩
  | comparison =>
      obtain ⟨ts, hts, d⟩ := htiered .term hready h
      exact ⟨ts, hts, .ofTerm d⟩
  | equality =>
      obtain ⟨ts, hts, d⟩ := htiered .comparison hready h
      exact ⟨ts, hts, .ofComparison d⟩
  | conjunction =>
      obtain ⟨ts, hts, d⟩ := htiered .equality hready h
      exact ⟨ts, hts, .ofEquality d⟩
  | disjunction =>
      obtain ⟨ts, hts, d⟩ := htiered .conjunction hready h
      exact ⟨ts, hts, .ofConjunction d⟩

mutual

theorem assignment_sound :
    ∀ depth, SoundWhenReady (assignment depth) Assignment
  | 0 => fun _ _ _ _ h => absurd h failHere_ne_ok
  | depth + 1 => by
      intro cursor next e hready h
      rw [assignment] at h
      obtain ⟨target, c₁, htarget, h⟩ := bind_ok h
      obtain ⟨ts, hts, dtarget⟩ :=
        tiered_sound depth .disjunction hready htarget
      rcases accept_inv (by simp) h with ⟨sign, c₂, hsign, h⟩ | ⟨-, h⟩
      · obtain ⟨line, c₃, hline, h⟩ := bind_ok h
        cases hline
        obtain ⟨value, c₄, hvalue, h⟩ := bind_ok h
        obtain ⟨us, hus, dvalue⟩ :=
          assignment_sound depth (hsign.ready rfl) hvalue
        rw [hsign.nextId_eq] at dvalue
        rw [hsign.previous_eq] at h
        obtain ⟨hrest, d⟩ := assignTo_sound dtarget hsign.kind_eq dvalue h
        refine ⟨ts ++ sign :: us, ?_, d⟩
        simp [hts, hsign.rest_eq, hus, hrest]
      · obtain ⟨rfl, rfl⟩ := pure_ok h
        exact ⟨ts, hts, .plain dtarget⟩

theorem tiered_sound :
    ∀ depth (tier : Tier),
      SoundWhenReady (level depth (tier.level + 1)) (Tiered tier)
  | 0, _ => fun _ _ _ _ h => absurd h failHere_ne_ok
  | depth + 1, tier => by
      intro cursor next e hready h
      rw [level] at h
      obtain ⟨left, c₁, hleft, h⟩ := bind_ok h
      obtain ⟨ts, hts, dleft⟩ :=
        operand_sound (tiered_sound depth) (unary_sound depth) tier hready
          hleft
      obtain ⟨us, hus, d⟩ := levelTail_sound depth tier (.operand dleft) h
      exact ⟨ts ++ us, by simp [hts, hus], d⟩

theorem unary_sound : ∀ depth, SoundWhenReady (level depth 0) Unary
  | 0 => fun _ _ _ _ h => absurd h failHere_ne_ok
  | depth + 1 => by
      intro cursor next e hready h
      rw [level] at h
      obtain ⟨chosen, c₁, hchosen, h⟩ := bind_ok h
      rcases acceptWhere_ok hchosen with
        ⟨op, sign, rfl, hop, hsign⟩ | ⟨rfl, rfl⟩
      · obtain ⟨line, c₂, hline, h⟩ := bind_ok h
        cases hline
        obtain ⟨operand, c₃, hoperand, h⟩ := bind_ok h
        have hleads := unaryOp?_eq_some_iff.mp hop
        obtain ⟨ts, hts, d⟩ :=
          unary_sound depth (hsign.ready hleads.not_holdsValue) hoperand
        obtain ⟨rfl, rfl⟩ := pure_ok h
        rw [hsign.nextId_eq] at d
        rw [hsign.previous_eq]
        refine ⟨sign :: ts, by simp [hsign.rest_eq, hts], ?_⟩
        exact .sign hleads d
      · obtain ⟨ts, hts, d⟩ := call_sound depth hready h
        exact ⟨ts, hts, .ofCall d⟩

theorem levelTail_sound :
    ∀ depth (tier : Tier) ⦃ts n left cursor next e⦄,
      Tiered tier ts n left cursor.nextId →
      levelTail depth tier.level left cursor = .ok e next →
      ∃ us, cursor.rest = us ++ next.rest ∧
        Tiered tier (ts ++ us) n e next.nextId
  | 0, _ => fun _ _ _ _ _ _ _ h => absurd h failHere_ne_ok
  | depth + 1, tier => by
      intro ts n left cursor next e dleft h
      rw [levelTail] at h
      obtain ⟨chosen, c₁, hchosen, h⟩ := bind_ok h
      rcases acceptWhere_ok hchosen with
        ⟨connective, sign, rfl, hconnective, hsign⟩ | ⟨rfl, rfl⟩
      · obtain ⟨line, c₂, hline, h⟩ := bind_ok h
        cases hline
        obtain ⟨right, c₃, hright, h⟩ := bind_ok h
        have hjoins := connective?_eq_some_iff.mp hconnective
        obtain ⟨us, hus, dright⟩ :=
          operand_sound (tiered_sound depth) (unary_sound depth) tier
            (hsign.ready hjoins.not_holdsValue) hright
        rw [hsign.nextId_eq] at dright
        rw [hsign.previous_eq] at h
        obtain ⟨vs, hvs, d⟩ :=
          levelTail_sound depth tier (.join dleft hjoins dright) h
        refine ⟨sign :: (us ++ vs), ?_, by simpa using d⟩
        simp [hsign.rest_eq, hus, hvs]
      · obtain ⟨rfl, rfl⟩ := pure_ok h
        exact ⟨[], rfl, by simpa using dleft⟩

theorem call_sound : ∀ depth, SoundWhenReady (call depth) Call
  | 0 => fun _ _ _ _ h => absurd h failHere_ne_ok
  | depth + 1 => by
      intro cursor next e hready h
      rw [call] at h
      obtain ⟨callee, c₁, hcallee, h⟩ := bind_ok h
      obtain ⟨ts, hts, dcallee⟩ := primary_sound depth hready hcallee
      obtain ⟨us, hus, d⟩ := callTail_sound depth (.ofPrimary dcallee) h
      exact ⟨ts ++ us, by simp [hts, hus], d⟩

theorem callTail_sound :
    ∀ depth ⦃ts n callee cursor next e⦄,
      Call ts n callee cursor.nextId →
      callTail depth callee cursor = .ok e next →
      ∃ us, cursor.rest = us ++ next.rest ∧
        Call (ts ++ us) n e next.nextId
  | 0 => fun _ _ _ _ _ _ _ h => absurd h failHere_ne_ok
  | depth + 1 => by
      intro ts n callee cursor next e dcallee h
      rw [callTail] at h
      rcases accept_inv (by simp) h with ⟨opening, c₁, hopening, h⟩ | ⟨-, h⟩
      · rcases sees_inv h with h | h
        · obtain ⟨values, c₃, hvalues, h⟩ := bind_ok h
          obtain ⟨rfl, rfl⟩ := pure_ok hvalues
          obtain ⟨closing, c₄, hclosing, h⟩ := expect_inv (by simp) h
          have d := Call.applyNothing dcallee hopening.kind_eq
            hclosing.kind_eq
          rw [← hopening.nextId_eq, ← hclosing.nextId_eq] at d
          obtain ⟨us, hus, d⟩ := callTail_sound depth d h
          refine ⟨opening :: closing :: us, ?_, by simpa using d⟩
          simp [hopening.rest_eq, hclosing.rest_eq, hus]
        · obtain ⟨values, c₃, hvalues, h⟩ := bind_ok h
          obtain ⟨vs, hvs, dvalues, hlength⟩ :=
            arguments_sound depth (hopening.ready rfl) hvalues
          obtain ⟨closing, c₄, hclosing, h⟩ := expect_inv (by simp) h
          rw [hopening.nextId_eq] at dvalues
          have d := Call.apply dcallee hopening.kind_eq dvalues
            (by omega) hclosing.kind_eq
          rw [← hclosing.nextId_eq] at d
          obtain ⟨us, hus, d⟩ := callTail_sound depth d h
          refine ⟨opening :: (vs ++ closing :: us), ?_, by simpa using d⟩
          simp [hopening.rest_eq, hvs, hclosing.rest_eq, hus]
      · rcases accept_inv (by simp) h with ⟨dot, c₁, hdot, h⟩ | ⟨-, h⟩
        · obtain ⟨token, c₂, htoken, h⟩ := identifier_inv h
          have d := Call.property dcallee hdot.kind_eq htoken.kind_eq
          rw [← hdot.nextId_eq, ← htoken.nextId_eq] at d
          obtain ⟨us, hus, d⟩ := callTail_sound depth d h
          refine ⟨dot :: token :: us, ?_, by simpa using d⟩
          simp [hdot.rest_eq, htoken.rest_eq, hus]
        · obtain ⟨rfl, rfl⟩ := pure_ok h
          exact ⟨[], rfl, by simpa using dcallee⟩

/-- The count bounds how many arguments can follow. -/
theorem arguments_sound :
    ∀ depth ⦃count cursor next values⦄, cursor.Ready →
      arguments depth count cursor = .ok values next →
      ∃ ts, cursor.rest = ts ++ next.rest ∧
        Arguments ts cursor.nextId values next.nextId ∧
        count + values.length ≤ 255
  | 0 => fun _ _ _ _ _ h => absurd h failHere_ne_ok
  | depth + 1 => by
      intro count cursor next values hready h
      rw [arguments] at h
      split at h
      next => exact absurd h failHere_ne_ok
      next hcount =>
        have hroom : count < 255 := Nat.lt_of_not_le hcount
        obtain ⟨value, c₁, hvalue, h⟩ := bind_ok h
        obtain ⟨ts, hts, dvalue⟩ := assignment_sound depth hready hvalue
        rcases accept_inv (by simp) h with ⟨comma, c₂, hcomma, h⟩ | ⟨-, h⟩
        · obtain ⟨rest, c₃, hrest, h⟩ := bind_ok h
          obtain ⟨us, hus, drest, hlength⟩ :=
            arguments_sound depth (hcomma.ready rfl) hrest
          obtain ⟨rfl, rfl⟩ := pure_ok h
          rw [hcomma.nextId_eq] at drest
          refine ⟨ts ++ comma :: us, ?_,
            .more dvalue hcomma.kind_eq drest, ?_⟩
          · simp [hts, hcomma.rest_eq, hus]
          · simp only [List.length_cons]
            omega
        · obtain ⟨rfl, rfl⟩ := pure_ok h
          exact ⟨ts, hts, .last dvalue, hroom⟩

theorem primary_sound : ∀ depth, SoundWhenReady (primary depth) Primary
  | 0 => fun _ _ _ _ h => absurd h failHere_ne_ok
  | depth + 1 => by
      intro cursor next e hready h
      rw [primary] at h
      obtain ⟨chosen, c₁, hchosen, h⟩ := bind_ok h
      rw [constant_eq_acceptWhere hready] at hchosen
      rcases acceptWhere_ok hchosen with
        ⟨value, token, rfl, hvalue, htoken⟩ | ⟨rfl, rfl⟩
      · obtain ⟨rfl, rfl⟩ := pure_ok h
        refine ⟨[token], htoken.rest_eq, ?_⟩
        rw [htoken.nextId_eq]
        exact .literal (constant?_eq_some_iff.mp hvalue)
      rcases sees_inv h with h | h
      · obtain ⟨token, c₂, htoken, h⟩ := identifier_inv h
        obtain ⟨id, c₃, hid, h⟩ := bind_ok h
        cases hid
        obtain ⟨rfl, rfl⟩ := pure_ok h
        refine ⟨[token], htoken.rest_eq, ?_⟩
        rw [htoken.nextId_eq]
        exact .name htoken.kind_eq
      rcases accept_inv (by simp) h with ⟨word, c₁, hword, h⟩ | ⟨-, h⟩
      · obtain ⟨line, c₂, hline, h⟩ := bind_ok h
        cases hline
        obtain ⟨id, c₃, hid, h⟩ := bind_ok h
        cases hid
        obtain ⟨rfl, rfl⟩ := pure_ok h
        refine ⟨[word], hword.rest_eq, ?_⟩
        rw [hword.nextId_eq, hword.previous_eq]
        exact .this hword.kind_eq
      rcases accept_inv (by simp) h with ⟨word, c₁, hword, h⟩ | ⟨-, h⟩
      · obtain ⟨line, c₂, hline, h⟩ := bind_ok h
        cases hline
        obtain ⟨dot, c₃, hdot, h⟩ := expect_inv (by simp) h
        obtain ⟨token, c₄, htoken, h⟩ := identifier_inv h
        obtain ⟨id, c₅, hid, h⟩ := bind_ok h
        cases hid
        obtain ⟨rfl, rfl⟩ := pure_ok h
        refine ⟨[word, dot, token], ?_, ?_⟩
        · simp [hword.rest_eq, hdot.rest_eq, htoken.rest_eq]
        · rw [htoken.nextId_eq, hdot.nextId_eq, hword.nextId_eq,
            hword.previous_eq]
          exact .super hword.kind_eq hdot.kind_eq htoken.kind_eq
      rcases accept_inv (by simp) h with ⟨opening, c₁, hopening, h⟩ | ⟨-, h⟩
      · obtain ⟨inner, c₂, hinner, h⟩ := bind_ok h
        obtain ⟨ts, hts, d⟩ :=
          assignment_sound depth (hopening.ready rfl) hinner
        obtain ⟨closing, c₃, hclosing, h⟩ := expect_inv (by simp) h
        obtain ⟨rfl, rfl⟩ := pure_ok h
        rw [hopening.nextId_eq] at d
        refine ⟨opening :: (ts ++ [closing]), ?_, ?_⟩
        · simp [hopening.rest_eq, hts, hclosing.rest_eq]
        · rw [hclosing.nextId_eq]
          exact .group hopening.kind_eq d hclosing.kind_eq
      · cases h

end

theorem expression_sound : SoundWhenReady expression Assignment :=
  fun _ _ _ hready h => assignment_sound _ hready h

/-! ## Parts of statements -/

theorem terminated_sound {what : ParseError.Expectation}
    {cursor next : Cursor} {e : Expr} (hready : cursor.Ready)
    (h : terminated what cursor = .ok e next) :
    ∃ ts stop, cursor.rest = ts ++ stop :: next.rest ∧
      stop.kind = .semicolon ∧
      Assignment ts cursor.nextId e next.nextId ∧ next.Ready := by
  unfold terminated at h
  obtain ⟨expr, c₁, hexpr, h⟩ := bind_ok h
  obtain ⟨ts, hts, d⟩ := expression_sound hready hexpr
  obtain ⟨stop, c₂, hstop, h⟩ := expect_inv (by simp) h
  obtain ⟨rfl, rfl⟩ := pure_ok h
  refine ⟨ts, stop, ?_, hstop.kind_eq, ?_, hstop.ready rfl⟩
  · rw [hts, hstop.rest_eq]
  · rw [hstop.nextId_eq]
    exact d

theorem unlessSees_sound (kind : Token.Kind) :
    SoundWhenReady (unlessSees kind) MaybeExpr := by
  intro cursor next value hready h
  unfold unlessSees at h
  rcases sees_inv h with h | h
  · obtain ⟨rfl, rfl⟩ := pure_ok h
    exact ⟨[], rfl, .absent⟩
  · obtain ⟨expr, c₂, hexpr, h⟩ := bind_ok h
    obtain ⟨ts, hts, d⟩ := expression_sound hready hexpr
    obtain ⟨rfl, rfl⟩ := pure_ok h
    exact ⟨ts, hts, .present d⟩

theorem acceptVariable_ok {cursor next : Cursor} {b : Bool}
    (h : acceptVariable cursor = .ok b next) :
    (b = true ∧ ∃ word, (word.kind = .varWord ∨ word.kind = .valWord) ∧
        Took word.kind cursor word next) ∨
      (b = false ∧ cursor = next) := by
  unfold acceptVariable at h
  obtain ⟨first, c₁, hfirst, h⟩ := bind_ok h
  rcases accept_ok (by simp) hfirst with
    ⟨rfl, word, hword⟩ | ⟨rfl, rfl, -⟩
  · obtain ⟨rfl, rfl⟩ := pure_ok h
    exact .inl ⟨rfl, word, .inl hword.kind_eq, hword.rest_eq, rfl,
      hword.previous_eq, hword.nextId_eq⟩
  · rcases accept_ok (by simp) h with ⟨rfl, word, hword⟩ | ⟨rfl, rfl, -⟩
    · exact .inl ⟨rfl, word, .inr hword.kind_eq, hword.rest_eq, rfl,
        hword.previous_eq, hword.nextId_eq⟩
    · exact .inr ⟨rfl, rfl⟩

/-- A variable declaration, whose first word has been read already. -/
theorem variableDecl_sound {word : Token} {start cursor next : Cursor}
    {s : Stmt} (hword : Took word.kind start word cursor)
    (hkind : word.kind = .varWord ∨ word.kind = .valWord)
    (h : variableDecl cursor = .ok s next) :
    ∃ ts, start.rest = ts ++ next.rest ∧
      Variable ts start.nextId s next.nextId ∧ next.Ready := by
  unfold variableDecl at h
  obtain ⟨token, c₁, htoken, h⟩ := identifier_inv h
  rcases accept_inv (by simp) h with ⟨sign, c₂, hsign, h⟩ | ⟨-, h⟩
  · obtain ⟨initializer, c₃, hinitializer, h⟩ := bind_ok h
    obtain ⟨e, c₄, he, hinitializer⟩ := bind_ok hinitializer
    obtain ⟨rfl, rfl⟩ := pure_ok hinitializer
    obtain ⟨ts, hts, d⟩ := expression_sound (hsign.ready rfl) he
    obtain ⟨stop, c₅, hstop, h⟩ := expect_inv (by simp) h
    obtain ⟨rfl, rfl⟩ := pure_ok h
    refine ⟨word :: token :: sign :: (ts ++ [stop]), ?_, ?_,
      hstop.ready rfl⟩
    · simp [hword.rest_eq, htoken.rest_eq, hsign.rest_eq, hts,
        hstop.rest_eq]
    · rw [hsign.nextId_eq, htoken.nextId_eq, hword.nextId_eq] at d
      rw [hstop.nextId_eq]
      exact .initialized hkind htoken.kind_eq hsign.kind_eq d
        hstop.kind_eq
  · obtain ⟨initializer, c₃, hinitializer, h⟩ := bind_ok h
    obtain ⟨rfl, rfl⟩ := pure_ok hinitializer
    obtain ⟨stop, c₄, hstop, h⟩ := expect_inv (by simp) h
    obtain ⟨rfl, rfl⟩ := pure_ok h
    refine ⟨[word, token, stop], ?_, ?_, hstop.ready rfl⟩
    · simp [hword.rest_eq, htoken.rest_eq, hstop.rest_eq]
    · rw [hstop.nextId_eq, htoken.nextId_eq, hword.nextId_eq]
      exact .bare hkind htoken.kind_eq hstop.kind_eq

theorem condition_sound {what : ParseError.Expectation}
    {cursor next : Cursor} {e : Expr}
    (h : condition what cursor = .ok e next) :
    ∃ opening ts closing,
      cursor.rest = opening :: (ts ++ closing :: next.rest) ∧
      opening.kind = .leftParen ∧ closing.kind = .rightParen ∧
      Assignment ts cursor.nextId e next.nextId ∧ next.Ready := by
  unfold condition at h
  obtain ⟨opening, c₁, hopening, h⟩ := expect_inv (by simp) h
  obtain ⟨expr, c₂, hexpr, h⟩ := bind_ok h
  obtain ⟨ts, hts, d⟩ := expression_sound (hopening.ready rfl) hexpr
  obtain ⟨closing, c₃, hclosing, h⟩ := expect_inv (by simp) h
  obtain ⟨rfl, rfl⟩ := pure_ok h
  refine ⟨opening, ts, closing, ?_, hopening.kind_eq, hclosing.kind_eq, ?_,
    hclosing.ready rfl⟩
  · rw [hopening.rest_eq, hts, hclosing.rest_eq]
  · rw [hclosing.nextId_eq, ← hopening.nextId_eq]
    exact d

private theorem forInitializer_sound {cursor next : Cursor}
    {initializer : Option Stmt} (hready : cursor.Ready)
    (h : forInitializer cursor = .ok initializer next) :
    ∃ ts, cursor.rest = ts ++ next.rest ∧
      ForStart ts cursor.nextId initializer next.nextId ∧ next.Ready := by
  unfold forInitializer at h
  rcases accept_inv (by simp) h with ⟨stop, c₁, hstop, h⟩ | ⟨-, h⟩
  · obtain ⟨rfl, rfl⟩ := pure_ok h
    refine ⟨[stop], hstop.rest_eq, ?_, hstop.ready rfl⟩
    rw [hstop.nextId_eq]
    exact .nothing hstop.kind_eq
  obtain ⟨b, c₁, hb, h⟩ := bind_ok h
  rcases acceptVariable_ok hb with ⟨rfl, word, hkind, hword⟩ | ⟨rfl, rfl⟩
  · obtain ⟨s, c₂, hs, h⟩ := bind_ok h
    obtain ⟨ts, hts, d, hnext⟩ := variableDecl_sound hword hkind hs
    obtain ⟨rfl, rfl⟩ := pure_ok h
    exact ⟨ts, hts, .varDecl d, hnext⟩
  · obtain ⟨s, c₂, hs, h⟩ := bind_ok h
    unfold expressionStmt at hs
    obtain ⟨e, c₃, he, hs⟩ := bind_ok hs
    obtain ⟨ts, stop, hts, hstop, d, hnext⟩ := terminated_sound hready he
    obtain ⟨rfl, rfl⟩ := pure_ok hs
    obtain ⟨rfl, rfl⟩ := pure_ok h
    exact ⟨ts ++ [stop], by simp [hts], .expression d hstop, hnext⟩

theorem ForClauses.loop_eq (clauses : ForClauses) (body : Stmt) :
    clauses.loop body =
      forScope
        (.loop (forCondition clauses.condition)
          (forRound body clauses.increment))
        clauses.initializer := by
  obtain ⟨initializer, condition, increment⟩ := clauses
  cases initializer <;> cases condition <;> cases increment <;> rfl

theorem forClauses_sound {cursor next : Cursor} {clauses : ForClauses}
    (h : forClauses cursor = .ok clauses next) :
    ∃ opening ts₁ ts₂ stop ts₃ closing k₁ k₂,
      cursor.rest = opening ::
        (ts₁ ++ (ts₂ ++ stop :: (ts₃ ++ closing :: next.rest))) ∧
      opening.kind = .leftParen ∧ stop.kind = .semicolon ∧
      closing.kind = .rightParen ∧
      ForStart ts₁ cursor.nextId clauses.initializer k₁ ∧
      MaybeExpr ts₂ k₁ clauses.condition k₂ ∧
      MaybeExpr ts₃ k₂ clauses.increment next.nextId ∧ next.Ready := by
  unfold forClauses at h
  obtain ⟨opening, c₁, hopening, h⟩ := expect_inv (by simp) h
  obtain ⟨initializer, c₂, hinitializer, h⟩ := bind_ok h
  obtain ⟨ts₁, hts₁, d₁, hready⟩ :=
    forInitializer_sound (hopening.ready rfl) hinitializer
  obtain ⟨test, c₃, htest, h⟩ := bind_ok h
  obtain ⟨ts₂, hts₂, d₂⟩ := unlessSees_sound _ hready htest
  obtain ⟨stop, c₄, hstop, h⟩ := expect_inv (by simp) h
  obtain ⟨increment, c₅, hincrement, h⟩ := bind_ok h
  obtain ⟨ts₃, hts₃, d₃⟩ :=
    unlessSees_sound _ (hstop.ready rfl) hincrement
  obtain ⟨closing, c₆, hclosing, h⟩ := expect_inv (by simp) h
  obtain ⟨rfl, rfl⟩ := pure_ok h
  refine ⟨opening, ts₁, ts₂, stop, ts₃, closing, c₂.nextId, c₃.nextId, ?_,
    hopening.kind_eq, hstop.kind_eq, hclosing.kind_eq, ?_, d₂, ?_,
    hclosing.ready rfl⟩
  · rw [hopening.rest_eq, hts₁, hts₂, hstop.rest_eq, hts₃,
      hclosing.rest_eq]
  · rw [← hopening.nextId_eq]
    exact d₁
  · rw [hclosing.nextId_eq, ← hstop.nextId_eq]
    exact d₃

/-- The count bounds how many parameters can follow. -/
theorem parameters_sound :
    ∀ bound ⦃count cursor next names⦄,
      parameters bound count cursor = .ok names next →
      ∃ ts, cursor.rest = ts ++ next.rest ∧
        next.nextId = cursor.nextId ∧ Parameters ts names ∧
        count + names.length ≤ 255
  | 0 => fun _ _ _ _ h => absurd h failHere_ne_ok
  | bound + 1 => by
      intro count cursor next names h
      rw [parameters] at h
      split at h
      next => exact absurd h failHere_ne_ok
      next hcount =>
        have hroom : count < 255 := Nat.lt_of_not_le hcount
        obtain ⟨token, c₁, htoken, h⟩ := identifier_inv h
        rcases accept_inv (by simp) h with ⟨comma, c₂, hcomma, h⟩ | ⟨-, h⟩
        · obtain ⟨rest, c₃, hrest, h⟩ := bind_ok h
          obtain ⟨us, hus, hid, d, hlength⟩ := parameters_sound bound hrest
          obtain ⟨rfl, rfl⟩ := pure_ok h
          refine ⟨token :: comma :: us, ?_, ?_,
            .more htoken.kind_eq hcomma.kind_eq d, ?_⟩
          · simp [htoken.rest_eq, hcomma.rest_eq, hus]
          · rw [hid, hcomma.nextId_eq, htoken.nextId_eq]
          · simp only [List.length_cons]
            omega
        · obtain ⟨rfl, rfl⟩ := pure_ok h
          exact ⟨[token], htoken.rest_eq, htoken.nextId_eq,
            .last htoken.kind_eq, hroom⟩

theorem functionHead_sound {role : FunctionRole} {cursor next : Cursor}
    {name : Ident} {params : List Ident}
    (h : functionHead role cursor = .ok (name, params) next) :
    ∃ token opening ts closing bodyOpening,
      cursor.rest = token :: opening ::
        (ts ++ closing :: bodyOpening :: next.rest) ∧
      next.nextId = cursor.nextId ∧
      token.kind = .identifier ∧ opening.kind = .leftParen ∧
      closing.kind = .rightParen ∧ bodyOpening.kind = .leftBrace ∧
      name = token.ident ∧ MaybeParameters ts params := by
  unfold functionHead at h
  obtain ⟨token, c₁, htoken, h⟩ := identifier_inv h
  obtain ⟨opening, c₂, hopening, h⟩ := expect_inv (by simp) h
  rcases sees_inv h with h | h
  · obtain ⟨names, c₄, hnames, h⟩ := bind_ok h
    obtain ⟨rfl, rfl⟩ := pure_ok hnames
    obtain ⟨closing, c₅, hclosing, h⟩ := expect_inv (by simp) h
    obtain ⟨bodyOpening, c₆, hbody, h⟩ := expect_inv (by simp) h
    obtain ⟨heq, rfl⟩ := pure_ok h
    obtain ⟨rfl, rfl⟩ := Prod.mk.inj heq
    refine ⟨token, opening, [], closing, bodyOpening, ?_, ?_,
      htoken.kind_eq, hopening.kind_eq, hclosing.kind_eq, hbody.kind_eq,
      rfl, .absent⟩
    · simp [htoken.rest_eq, hopening.rest_eq, hclosing.rest_eq,
        hbody.rest_eq]
    · rw [hbody.nextId_eq, hclosing.nextId_eq, hopening.nextId_eq,
        htoken.nextId_eq]
  · obtain ⟨names, c₄, hnames, h⟩ := bind_ok h
    obtain ⟨ts, hts, hid, d, hlength⟩ := parameters_sound _ hnames
    obtain ⟨closing, c₅, hclosing, h⟩ := expect_inv (by simp) h
    obtain ⟨bodyOpening, c₆, hbody, h⟩ := expect_inv (by simp) h
    obtain ⟨heq, rfl⟩ := pure_ok h
    obtain ⟨rfl, rfl⟩ := Prod.mk.inj heq
    refine ⟨token, opening, ts, closing, bodyOpening, ?_, ?_,
      htoken.kind_eq, hopening.kind_eq, hclosing.kind_eq, hbody.kind_eq,
      rfl, .present d (by omega)⟩
    · rw [htoken.rest_eq, hopening.rest_eq, hts, hclosing.rest_eq,
        hbody.rest_eq]
    · rw [hbody.nextId_eq, hclosing.nextId_eq, hid, hopening.nextId_eq,
        htoken.nextId_eq]

private theorem resuming_ok {reading : Parse α} {cursor next : Cursor} {a : α}
    (h : resuming reading cursor = .ok a next) :
    reading cursor = .ok a next := by
  unfold resuming at h
  split at h
  next hreading =>
    cases h
    exact hreading
  next => cases h

/-- A class declaration, whose first word has been read already and whose
methods follow the grammar. -/
theorem class_sound {depth : Nat} {word : Token} {start cursor next : Cursor}
    {head : Ident × Option Expr} {c₁ c₂ : Cursor}
    {decls : List FunctionDecl} {closing : Token}
    (hmethods : Sound (methods depth) Methods)
    (hword : Took .classWord start word cursor)
    (hhead : classHead cursor = .ok head c₁)
    (hdecls : methods depth c₁ = .ok decls c₂)
    (hclosing : Took .rightBrace c₂ closing next) :
    ∃ ts, start.rest = ts ++ next.rest ∧
      Declaration ts start.nextId (.classDecl head.1 head.2 decls)
        next.nextId := by
  obtain ⟨ts, hts, d⟩ := hmethods hdecls
  unfold classHead at hhead
  obtain ⟨token, c₃, htoken, h⟩ := identifier_inv hhead
  rcases accept_inv (by simp) h with ⟨sign, c₄, hsign, h⟩ | ⟨-, h⟩
  · obtain ⟨superToken, c₅, hsuperToken, h⟩ := identifier_inv h
    obtain ⟨id, c₆, hid, h⟩ := bind_ok h
    cases hid
    obtain ⟨superclass, c₇, hsuperclass, h⟩ := bind_ok h
    obtain ⟨rfl, rfl⟩ := pure_ok hsuperclass
    obtain ⟨opening, c₈, hopening, h⟩ := expect_inv (by simp) h
    obtain ⟨rfl, rfl⟩ := pure_ok h
    have hopeningRest := hopening.rest_eq
    have hopeningId := hopening.nextId_eq
    refine ⟨word :: token :: sign :: superToken :: opening ::
      (ts ++ [closing]), ?_, ?_⟩
    · simp [hword.rest_eq, htoken.rest_eq, hsign.rest_eq,
        hsuperToken.rest_eq, ← hclosing.rest_eq, ← hts, ← hopeningRest]
    · rw [hopeningId] at d
      rw [hclosing.nextId_eq, ← hword.nextId_eq, ← htoken.nextId_eq,
        ← hsign.nextId_eq, ← hsuperToken.nextId_eq]
      exact .derivedClass hword.kind_eq htoken.kind_eq hsign.kind_eq
        hsuperToken.kind_eq hopening.kind_eq d hclosing.kind_eq
  · obtain ⟨superclass, c₅, hsuperclass, h⟩ := bind_ok h
    obtain ⟨rfl, rfl⟩ := pure_ok hsuperclass
    obtain ⟨opening, c₆, hopening, h⟩ := expect_inv (by simp) h
    obtain ⟨rfl, rfl⟩ := pure_ok h
    refine ⟨word :: token :: opening :: (ts ++ [closing]), ?_, ?_⟩
    · simp [hword.rest_eq, htoken.rest_eq, hopening.rest_eq, hts,
        hclosing.rest_eq]
    · rw [hclosing.nextId_eq, ← hword.nextId_eq, ← htoken.nextId_eq,
        ← hopening.nextId_eq]
      exact .baseClass hword.kind_eq htoken.kind_eq hopening.kind_eq d
        hclosing.kind_eq

/-! ## Statements and declarations -/

mutual

theorem declaration_sound :
    ∀ depth, SoundWhenReady (declaration depth) Declaration
  | 0 => fun _ _ _ _ h => absurd h failHere_ne_ok
  | depth + 1 => by
      intro cursor next s hready h
      rw [declaration] at h
      replace h := resuming_ok h
      rcases accept_inv (by simp) h with ⟨word, c₁, hword, h⟩ | ⟨-, h⟩
      · obtain ⟨head, c₂, hhead, h⟩ := bind_ok h
        obtain ⟨decls, c₃, hdecls, h⟩ := bind_ok h
        obtain ⟨closing, c₄, hclosing, h⟩ := expect_inv (by simp) h
        obtain ⟨rfl, rfl⟩ := pure_ok h
        exact class_sound (methods_sound depth) hword hhead hdecls hclosing
      rcases accept_inv (by simp) h with ⟨word, c₁, hword, h⟩ | ⟨-, h⟩
      · obtain ⟨decl, c₂, hdecl, h⟩ := bind_ok h
        obtain ⟨ts, hts, d⟩ := function_sound depth .function hdecl
        obtain ⟨rfl, rfl⟩ := pure_ok h
        rw [hword.nextId_eq] at d
        exact ⟨word :: ts, by simp [hword.rest_eq, hts],
          .function hword.kind_eq d⟩
      obtain ⟨b, c₁, hb, h⟩ := bind_ok h
      rcases acceptVariable_ok hb with
        ⟨rfl, word, hkind, hword⟩ | ⟨rfl, rfl⟩
      · obtain ⟨ts, hts, d, -⟩ := variableDecl_sound hword hkind h
        exact ⟨ts, hts, .varDecl d⟩
      · obtain ⟨hangs, ts, hts, d, -⟩ := statement_sound depth hready h
        exact ⟨ts, hts, .statement d⟩

theorem methods_sound : ∀ depth, Sound (methods depth) Methods
  | 0 => fun _ _ _ h => absurd h failHere_ne_ok
  | depth + 1 => by
      intro cursor next decls h
      rw [methods] at h
      rcases sees_inv h with h | h
      · obtain ⟨rfl, rfl⟩ := pure_ok h
        exact ⟨[], rfl, .nil⟩
      obtain ⟨b, c₁, hb, h⟩ := bind_ok h
      cases hb
      split at h
      next =>
        obtain ⟨rfl, rfl⟩ := pure_ok h
        exact ⟨[], rfl, .nil⟩
      next =>
        obtain ⟨decl, c₂, hdecl, h⟩ := bind_ok h
        obtain ⟨ts, hts, d⟩ := function_sound depth .method hdecl
        obtain ⟨rest, c₃, hrest, h⟩ := bind_ok h
        obtain ⟨us, hus, drest⟩ := methods_sound depth hrest
        obtain ⟨rfl, rfl⟩ := pure_ok h
        exact ⟨ts ++ us, by simp [hts, hus], .cons d drest⟩

theorem function_sound :
    ∀ depth role, Sound (function depth role) Callable
  | 0, _ => fun _ _ _ h => absurd h failHere_ne_ok
  | depth + 1, role => by
      intro cursor next decl h
      rw [function] at h
      obtain ⟨⟨name, params⟩, c₁, hhead, h⟩ := bind_ok h
      obtain ⟨token, opening, ts, closing, bodyOpening, hrest, hid, htoken,
        hopening, hclosing, hbodyOpening, rfl, hparams⟩ :=
        functionHead_sound hhead
      obtain ⟨body, c₂, hbody, h⟩ := bind_ok h
      obtain ⟨us, bodyClosing, hus, hbodyClosing, d⟩ :=
        block_sound depth hbody
      obtain ⟨rfl, rfl⟩ := pure_ok h
      rw [hid] at d
      refine ⟨token :: opening ::
        (ts ++ closing :: bodyOpening :: (us ++ [bodyClosing])), ?_, ?_⟩
      · simp [hrest, hus]
      · exact .mk htoken hopening hparams hclosing hbodyOpening d
          hbodyClosing

/-- A statement that could still take an `else` has none behind it. -/
theorem statement_sound :
    ∀ depth ⦃cursor next s⦄, cursor.Ready →
      statement depth cursor = .ok s next →
      ∃ hangs ts, cursor.rest = ts ++ next.rest ∧
        Statement hangs ts cursor.nextId s next.nextId ∧
        (hangs = true → Avoids (· = .elseWord) next.rest)
  | 0 => fun _ _ _ _ h => absurd h failHere_ne_ok
  | depth + 1 => by
      intro cursor next s hready h
      rw [statement] at h
      rcases accept_inv (by simp) h with ⟨word, c₁, hword, h⟩ | ⟨-, h⟩
      · obtain ⟨clauses, c₂, hclauses, h⟩ := bind_ok h
        obtain ⟨opening, ts₁, ts₂, stop, ts₃, closing, k₁, k₂, hrest,
          hopening, hstop, hclosing, d₁, d₂, d₃, hinside⟩ :=
          forClauses_sound hclauses
        obtain ⟨body, c₃, hbody, h⟩ := bind_ok h
        obtain ⟨hangs, us, hus, d, helse⟩ :=
          statement_sound depth hinside hbody
        obtain ⟨rfl, rfl⟩ := pure_ok h
        rw [hword.nextId_eq] at d₁
        rw [ForClauses.loop_eq]
        refine ⟨hangs, _, ?_, .forLoop hword.kind_eq hopening d₁ d₂ hstop d₃
          hclosing d, helse⟩
        simp [hword.rest_eq, hrest, hus]
      rcases accept_inv (by simp) h with ⟨word, c₁, hword, h⟩ | ⟨-, h⟩
      · obtain ⟨test, c₂, htest, h⟩ := bind_ok h
        obtain ⟨opening, ts, closing, hrest, hopening, hclosing, dtest,
          hinside⟩ := condition_sound htest
        rw [hword.nextId_eq] at dtest
        obtain ⟨thenBranch, c₃, hthen, h⟩ := bind_ok h
        obtain ⟨hangs, us, hus, dthen, helse⟩ :=
          statement_sound depth hinside hthen
        rcases accept_inv (by simp) h with ⟨other, c₄, hother, h⟩ | ⟨hnone, h⟩
        · -- An open branch would have taken this `else` for itself.
          have hclosed : hangs = false := by
            cases hangs with
            | false => rfl
            | true =>
                have havoids := helse rfl
                rw [hother.rest_eq, avoids_cons] at havoids
                exact absurd hother.kind_eq havoids
          subst hclosed
          obtain ⟨elseBranch, c₅, helseBranch, h⟩ := bind_ok h
          obtain ⟨hangs, vs, hvs, d, hnone⟩ :=
            statement_sound depth (hother.ready rfl) helseBranch
          rw [hother.nextId_eq] at d
          obtain ⟨rfl, rfl⟩ := pure_ok h
          refine ⟨hangs, _, ?_, .ifThenElse hword.kind_eq hopening dtest
            hclosing dthen hother.kind_eq d, hnone⟩
          simp [hword.rest_eq, hrest, hus, hother.rest_eq, hvs]
        · obtain ⟨rfl, rfl⟩ := pure_ok h
          refine ⟨true, _, ?_, .ifThen hword.kind_eq hopening dtest hclosing
            dthen, fun _ => hnone⟩
          simp [hword.rest_eq, hrest, hus]
      rcases accept_inv (by simp) h with ⟨word, c₁, hword, h⟩ | ⟨-, h⟩
      · obtain ⟨test, c₂, htest, h⟩ := bind_ok h
        obtain ⟨opening, ts, closing, hrest, hopening, hclosing, dtest,
          hinside⟩ := condition_sound htest
        rw [hword.nextId_eq] at dtest
        obtain ⟨body, c₃, hbody, h⟩ := bind_ok h
        obtain ⟨hangs, us, hus, d, helse⟩ :=
          statement_sound depth hinside hbody
        obtain ⟨rfl, rfl⟩ := pure_ok h
        refine ⟨hangs, _, ?_, .loop hword.kind_eq hopening dtest hclosing d,
          helse⟩
        simp [hword.rest_eq, hrest, hus]
      rcases accept_inv (by simp) h with ⟨word, c₁, hword, h⟩ | ⟨-, h⟩
      · unfold returnStmt at h
        obtain ⟨line, c₂, hline, h⟩ := bind_ok h
        cases hline
        obtain ⟨value, c₃, hvalue, h⟩ := bind_ok h
        obtain ⟨ts, hts, d⟩ :=
          unlessSees_sound _ (hword.ready rfl) hvalue
        rw [hword.nextId_eq] at d
        obtain ⟨stop, c₄, hstop, h⟩ := expect_inv (by simp) h
        obtain ⟨rfl, rfl⟩ := pure_ok h
        rw [hword.previous_eq, hstop.nextId_eq]
        refine ⟨false, _, ?_, .ret hword.kind_eq d hstop.kind_eq, by simp⟩
        simp [hword.rest_eq, hts, hstop.rest_eq]
      rcases accept_inv (by simp) h with ⟨opening, c₁, hopening, h⟩ | ⟨-, h⟩
      · obtain ⟨body, c₂, hbody, h⟩ := bind_ok h
        obtain ⟨ts, closing, hts, hclosing, d⟩ := block_sound depth hbody
        rw [hopening.nextId_eq] at d
        obtain ⟨rfl, rfl⟩ := pure_ok h
        refine ⟨false, _, ?_, .block hopening.kind_eq d hclosing, by simp⟩
        simp [hopening.rest_eq, hts]
      rcases accept_inv (by simp) h with ⟨word, c₁, hword, h⟩ | ⟨-, h⟩
      · unfold printStmt at h
        obtain ⟨value, c₂, hvalue, h⟩ := bind_ok h
        obtain ⟨ts, stop, hts, hstop, d, -⟩ :=
          terminated_sound (hword.ready rfl) hvalue
        rw [hword.nextId_eq] at d
        obtain ⟨rfl, rfl⟩ := pure_ok h
        refine ⟨false, _, ?_, .print hword.kind_eq d hstop, by simp⟩
        simp [hword.rest_eq, hts]
      · unfold expressionStmt at h
        obtain ⟨value, c₂, hvalue, h⟩ := bind_ok h
        obtain ⟨ts, stop, hts, hstop, d, -⟩ := terminated_sound hready hvalue
        obtain ⟨rfl, rfl⟩ := pure_ok h
        exact ⟨false, _, by simp [hts], .expression d hstop, by simp⟩

theorem block_sound :
    ∀ depth ⦃cursor next body⦄, block depth cursor = .ok body next →
      ∃ ts closing, cursor.rest = ts ++ closing :: next.rest ∧
        closing.kind = .rightBrace ∧
        Declarations ts cursor.nextId body next.nextId
  | 0 => fun _ _ _ h => absurd h failHere_ne_ok
  | depth + 1 => by
      intro cursor next body h
      rw [block] at h
      obtain ⟨stmts, c₁, hstmts, h⟩ := bind_ok h
      obtain ⟨ts, hts, d⟩ := blockItems_sound depth hstmts
      obtain ⟨closing, c₂, hclosing, h⟩ := expect_inv (by simp) h
      obtain ⟨rfl, rfl⟩ := pure_ok h
      refine ⟨ts, closing, ?_, hclosing.kind_eq, ?_⟩
      · rw [hts, hclosing.rest_eq]
      · rw [hclosing.nextId_eq]
        exact d

theorem blockItems_sound : ∀ depth, Sound (blockItems depth) Declarations
  | 0 => fun _ _ _ h => absurd h failHere_ne_ok
  | depth + 1 => by
      intro cursor next body h
      rw [blockItems] at h
      rcases sees_inv h with h | h
      · obtain ⟨rfl, rfl⟩ := pure_ok h
        exact ⟨[], rfl, .nil⟩
      obtain ⟨b, c₁, hb, h⟩ := bind_ok h
      cases hb
      split at h
      next =>
        obtain ⟨rfl, rfl⟩ := pure_ok h
        exact ⟨[], rfl, .nil⟩
      next hend =>
        obtain ⟨stmt, c₂, hstmt, h⟩ := bind_ok h
        have hready := Cursor.ready_of_atEnd_eq_false (by simpa using hend)
        obtain ⟨ts, hts, d⟩ := declaration_sound depth hready hstmt
        obtain ⟨rest, c₃, hrest, h⟩ := bind_ok h
        obtain ⟨us, hus, drest⟩ := blockItems_sound depth hrest
        obtain ⟨rfl, rfl⟩ := pure_ok h
        exact ⟨ts ++ us, by simp [hts, hus], .cons d drest⟩

end

end Grammar
end LoxLang
