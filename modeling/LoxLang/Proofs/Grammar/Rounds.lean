import LoxLang.Proofs.Grammar.Parallel

/-!
# The rounds of a reading

A whole token list is read in rounds, each of which reads one declaration or
fails.  Every round takes at least one token and no end mark, so the rounds
come to the end of the tokens, and there are no more of them than tokens in
front of the end mark.  What is read depends on nothing but the tokens of the
list, and the failures are reported in the order of their lines.
-/

namespace LoxLang
namespace Grammar

/-! ## Rounds -/

/-- However deep a reading may go, the next declaration ends in `result`. -/
def Cursor.Settles (cursor : Cursor)
    (result : EStateM.Result ParseError Cursor Stmt) : Prop :=
  cursor.atEnd = false ∧
    ∀ depth, cursor.depthBound ≤ depth → declaration depth cursor = result

/-- From `cursor` some rounds lead to `last`; they have read the statements and
met the errors. -/
inductive Rounds :
    Cursor → List Stmt → List ParseError → Cursor → Prop where
  | none : Rounds cursor [] [] cursor
  | read :
      cursor.Settles (.ok stmt next) → Rounds next statements errors last →
      Rounds cursor (stmt :: statements) errors last
  | fail :
      cursor.Settles (.error e next) → Rounds next statements errors last →
      Rounds cursor statements (e :: errors) last

/-- Results of which none has used up its depth are alike. -/
theorem Abreast.of_lands
    {failures : ParseError → Cursor → ParseError → Cursor → Prop}
    {post : Cursor → Cursor → Prop} {values : α → α → Prop} {c c' : Cursor}
    {result result' : EStateM.Result ParseError Cursor α}
    (h : Abreast failures post values result result')
    (hfirst : Lands c result) (hsecond : Lands c' result') :
    (∃ a d a' d', result = .ok a d ∧ result' = .ok a' d' ∧ values a a' ∧
        post d d') ∨
      ∃ e d e' d', result = .error e d ∧ result' = .error e' d' ∧
        failures e d e' d' := by
  cases h with
  | ok hvalues hpost => exact .inl ⟨_, _, _, _, rfl, rfl, hvalues, hpost⟩
  | error hfailures => exact .inr ⟨_, _, _, _, rfl, rfl, hfailures⟩
  | usedUpFirst hcause => exact absurd hcause hfirst.cause_ne
  | usedUpSecond hcause => exact absurd hcause hsecond.cause_ne

/-! ### The depth makes no difference -/

/-- Two readings of the same tokens. -/
def Pairing.same : Pairing where
  places c c' := c = c'
  failures e c e' c' := e = e' ∧ c = c'
  like := .places Eq

theorem Pairing.same_resumes : Pairing.same.Resumes where
  ne_eof _ hkind := hkind
  sees := by rintro c _ kind rfl _; rfl
  take := by rintro c _ kind rfl _ _; exact ⟨.of_eq rfl, rfl⟩
  nextId := by rintro c _ rfl; rfl
  count := by rintro c _ rfl; rfl
  failHere := by rintro c _ cause rfl; exact ⟨rfl, rfl⟩
  missing := by rintro c _ rfl; exact ⟨rfl, rfl⟩
  target := by rintro c _ line _ rfl rfl; exact ⟨rfl, rfl⟩
  atEnd := by rintro c _ rfl; rfl
  places_of_failures _ _ _ _ h := h.2
  resume := by rintro e c _ _ ⟨rfl, rfl⟩; exact ⟨rfl, rfl⟩

theorem Cursor.settles {cursor : Cursor} (hend : cursor.atEnd = false) :
    cursor.Settles (declaration cursor.depthBound cursor) := by
  refine ⟨hend, fun depth hdepth => ?_⟩
  have habreast := declaration_keeps Pairing.same_resumes depth
    cursor.depthBound cursor cursor (Pairing.same_resumes.starts rfl hend)
  rcases habreast.of_lands (declaration_strides hend hdepth).lands
      (declaration_strides hend (Nat.le_refl _)).lands with
    ⟨stmt, next, stmt', next', hfirst, hsecond, hstmt, rfl⟩ |
    ⟨e, next, e', next', hfirst, hsecond, rfl, rfl⟩
  · rw [hfirst, hsecond, hstmt.eq]
  · rw [hfirst, hsecond]

theorem Cursor.Settles.strides {cursor : Cursor}
    {result : EStateM.Result ParseError Cursor Stmt}
    (h : cursor.Settles result) : Strides cursor result := by
  rw [← h.2 _ (Nat.le_refl _)]
  exact declaration_strides h.1 (Nat.le_refl _)

/-! ### The reading as rounds -/

theorem declarations_of_atEnd {cursor : Cursor} (h : cursor.atEnd = true)
    (bound : Nat) : declarations bound cursor = ⟨[], [], cursor.nextId⟩ := by
  cases bound with
  | zero => rfl
  | succ bound => rw [declarations, if_pos h]

theorem declarations_of_ok {cursor next : Cursor} {stmt : Stmt}
    (h : cursor.Settles (.ok stmt next)) (bound : Nat) :
    declarations (bound + 1) cursor =
      { declarations bound next with
        statements := stmt :: (declarations bound next).statements } := by
  rw [declarations, if_neg (by simp [h.1]), h.2 _ (Nat.le_refl _)]

theorem declarations_of_error {cursor next : Cursor} {e : ParseError}
    (h : cursor.Settles (.error e next)) (bound : Nat) :
    declarations (bound + 1) cursor =
      { declarations bound next with
        errors := e :: (declarations bound next).errors } := by
  rw [declarations, if_neg (by simp [h.1]), h.2 _ (Nat.le_refl _)]

theorem Cursor.atEnd_of_rest_eq_nil {cursor : Cursor}
    (h : cursor.rest = []) : cursor.atEnd = true := by
  unfold Cursor.atEnd
  rw [h]

theorem Passed.length_lt {cursor next : Cursor} {taken : List Token}
    (h : Passed cursor taken next) (hne : taken ≠ []) :
    next.rest.length < cursor.rest.length := by
  have hlength := h.length_eq
  have hpos := List.length_pos_iff.mpr hne
  omega

/-- As many rounds as there are tokens lead to the end. -/
theorem declarations_rounds (bound : Nat) (cursor : Cursor)
    (hbound : cursor.rest.length ≤ bound) :
    ∃ last, Rounds cursor (declarations bound cursor).statements
        (declarations bound cursor).errors last ∧
      last.atEnd = true ∧
      last.nextId = (declarations bound cursor).nextId := by
  induction bound generalizing cursor with
  | zero =>
      have hend : cursor.atEnd = true :=
        Cursor.atEnd_of_rest_eq_nil (List.length_eq_zero_iff.mp (by omega))
      exact ⟨cursor, .none, hend, rfl⟩
  | succ bound ih =>
      cases hend : cursor.atEnd with
      | true =>
          rw [declarations_of_atEnd hend]
          exact ⟨cursor, .none, hend, rfl⟩
      | false =>
          have hsettles := Cursor.settles hend
          cases hresult : declaration cursor.depthBound cursor with
          | ok stmt next =>
              rw [hresult] at hsettles
              cases hsettles.strides with
              | ok hne hpassed =>
                  have hshorter := hpassed.length_lt hne
                  obtain ⟨last, hrounds, hlast⟩ := ih next (by omega)
                  rw [declarations_of_ok hsettles]
                  exact ⟨last, .read hsettles hrounds, hlast⟩
          | error e next =>
              rw [hresult] at hsettles
              cases hsettles.strides with
              | error hne hpassed _ _ _ =>
                  have hshorter := hpassed.length_lt hne
                  obtain ⟨last, hrounds, hlast⟩ := ih next (by omega)
                  rw [declarations_of_error hsettles]
                  exact ⟨last, .fail hsettles hrounds, hlast⟩

/-! ## What the rounds take -/

namespace Rounds

variable {cursor last : Cursor} {statements : List Stmt}
variable {errors : List ParseError}

/-- Each round takes a token of its own. -/
theorem passed (h : Rounds cursor statements errors last) :
    ∃ taken, Passed cursor taken last ∧
      statements.length + errors.length ≤ taken.length := by
  induction h with
  | none => exact ⟨[], .refl _, Nat.le_refl _⟩
  | read hsettles _ ih =>
      obtain ⟨taken, htaken, hlength⟩ := ih
      cases hsettles.strides with
      | ok hne hpassed =>
          have hpos := List.length_pos_iff.mpr hne
          refine ⟨_, hpassed.trans htaken, ?_⟩
          rw [List.length_append, List.length_cons]
          omega
  | fail hsettles _ ih =>
      obtain ⟨taken, htaken, hlength⟩ := ih
      cases hsettles.strides with
      | error hne hpassed _ _ _ =>
          have hpos := List.length_pos_iff.mpr hne
          refine ⟨_, hpassed.trans htaken, ?_⟩
          rw [List.length_append, List.length_cons]
          omega

end Rounds

theorem Passed.here_mem {cursor next : Cursor} {taken : List Token}
    (h : Passed cursor taken next) (hne : taken ≠ []) :
    next.here ∈ cursor.rest := by
  rw [h.rest_eq]
  unfold Cursor.here
  cases hrest : next.rest with
  | nil =>
      have hlast := h.previous_eq
      rw [List.getLast?_eq_some_getLast hne, Option.getD_some] at hlast
      simp [hlast]
  | cons token rest => simp

namespace Rounds

variable {cursor last : Cursor} {statements : List Stmt}
variable {errors : List ParseError}

/-- Each failure names the line of a token that was still to come. -/
theorem blames (h : Rounds cursor statements errors last) :
    ∀ e ∈ errors, e.cause ≠ .tooDeep ∧
      ∃ token ∈ cursor.rest, e.line = token.line := by
  induction h with
  | none => simp
  | read hsettles _ ih =>
      intro e he
      cases hsettles.strides with
      | ok hne hpassed =>
          obtain ⟨hcause, token, htoken, hline⟩ := ih e he
          refine ⟨hcause, token, ?_, hline⟩
          rw [hpassed.rest_eq]
          exact List.mem_append_right _ htoken
  | fail hsettles _ ih =>
      cases hsettles.strides with
      | error hne hpassed hmem hline hcause =>
          rintro e (_ | ⟨_, he⟩)
          · refine ⟨hcause, _, ?_, hline⟩
            rcases List.mem_append.mp hmem with htaken | hhere
            · rw [hpassed.rest_eq]
              exact List.mem_append_left _ htaken
            · rw [List.mem_singleton.mp hhere]
              exact hpassed.here_mem hne
          · obtain ⟨hcause, token, htoken, hline⟩ := ih e he
            refine ⟨hcause, token, ?_, hline⟩
            rw [hpassed.rest_eq]
            exact List.mem_append_right _ htoken

/-- Where the lines of the tokens do not decrease, those of the failures do
not either. -/
theorem ordered (h : Rounds cursor statements errors last)
    (hlines : cursor.rest.Pairwise fun a b => a.line ≤ b.line) :
    errors.Pairwise fun a b => a.line ≤ b.line := by
  induction h with
  | none => exact .nil
  | read hsettles _ ih =>
      cases hsettles.strides with
      | ok _ hpassed =>
          rw [hpassed.rest_eq, List.pairwise_append] at hlines
          exact ih hlines.2.1
  | fail hsettles hrounds ih =>
      cases hsettles.strides with
      | error _ hpassed hmem hline _ =>
          rw [hpassed.rest_eq, List.pairwise_append] at hlines
          obtain ⟨-, hnext, hbefore⟩ := hlines
          refine .cons (fun e he => ?_) (ih hnext)
          obtain ⟨-, token, htoken, hlater⟩ := hrounds.blames e he
          rw [hline, hlater]
          rcases List.mem_append.mp hmem with htaken | hhere
          · exact hbefore _ htaken _ htoken
          · -- The failure is at the first of the tokens that follow.
            rw [List.mem_singleton.mp hhere]
            obtain ⟨first, rest, hrest⟩ := List.exists_cons_of_ne_nil
              (List.ne_nil_of_mem htoken)
            unfold Cursor.here
            rw [hrest] at hnext htoken ⊢
            rcases List.mem_cons.mp htoken with rfl | htoken
            · exact Nat.le_refl _
            · exact (List.pairwise_cons.mp hnext).1 _ htoken

end Rounds

/-! ## Whole readings side by side -/

/-- Two readings of whole token lists give alike statements, and failures that
belong together. -/
theorem declarations_keeps {pairing : Pairing} (h : pairing.Resumes)
    {lists : List ParseError → List ParseError → Prop} (hnil : lists [] [])
    (hcons : ∀ e c e' c' es es', pairing.failures e c e' c' →
      (c.atEnd = true → es = [] ∧ es' = []) → lists es es' →
      lists (e :: es) (e' :: es')) :
    ∀ bound bound' c c', pairing.places c c' → c.rest.length ≤ bound →
      c'.rest.length ≤ bound' →
      Stmt.AllAlike pairing.like (declarations bound c).statements
          (declarations bound' c').statements ∧
        lists (declarations bound c).errors (declarations bound' c').errors ∧
        pairing.like.place (declarations bound c).nextId
          (declarations bound' c').nextId := by
  intro bound
  induction bound with
  | zero =>
      intro bound' c c' hplaces hbound _
      have hend : c.atEnd = true :=
        Cursor.atEnd_of_rest_eq_nil (List.length_eq_zero_iff.mp (by omega))
      rw [declarations_of_atEnd hend,
        declarations_of_atEnd ((h.atEnd hplaces).symm.trans hend)]
      exact ⟨.nil, hnil, h.nextId hplaces⟩
  | succ bound ih =>
      intro bound' c c' hplaces hbound hbound'
      cases hend : c.atEnd with
      | true =>
          rw [declarations_of_atEnd hend,
            declarations_of_atEnd ((h.atEnd hplaces).symm.trans hend)]
          exact ⟨.nil, hnil, h.nextId hplaces⟩
      | false =>
          have hend' := (h.atEnd hplaces).symm.trans hend
          have hsettles := Cursor.settles hend
          have hsettles' := Cursor.settles hend'
          have habreast := declaration_keeps h c.depthBound c'.depthBound
            c c' (h.starts hplaces hend)
          obtain ⟨bound', rfl⟩ : ∃ b, bound' = b + 1 := by
            refine exists_succ_of_pos (Nat.pos_of_ne_zero fun hzero => ?_)
            have hnone := Cursor.atEnd_of_rest_eq_nil
              (List.length_eq_zero_iff.mp (by omega : c'.rest.length = 0))
            rw [hend'] at hnone
            cases hnone
          rcases habreast.of_lands hsettles.strides.lands
              hsettles'.strides.lands with
            ⟨stmt, d, stmt', d', hfirst, hsecond, hstmt, hnext⟩ |
            ⟨e, d, e', d', hfirst, hsecond, hfailures⟩
          · rw [hfirst] at hsettles
            rw [hsecond] at hsettles'
            cases hsettles.strides with
            | ok hne hpassed =>
            cases hsettles'.strides with
            | ok hne' hpassed' =>
                have hshorter := hpassed.length_lt hne
                have hshorter' := hpassed'.length_lt hne'
                obtain ⟨hstatements, herrors, hnextId⟩ :=
                  ih bound' d d' hnext (by omega) (by omega)
                rw [declarations_of_ok hsettles, declarations_of_ok hsettles']
                exact ⟨.cons hstmt hstatements, herrors, hnextId⟩
          · rw [hfirst] at hsettles
            rw [hsecond] at hsettles'
            cases hsettles.strides with
            | error hne hpassed _ _ _ =>
            cases hsettles'.strides with
            | error hne' hpassed' _ _ _ =>
                have hshorter := hpassed.length_lt hne
                have hshorter' := hpassed'.length_lt hne'
                have hnext := h.places_of_failures hfailures
                obtain ⟨hstatements, herrors, hnextId⟩ :=
                  ih bound' d d' hnext (by omega) (by omega)
                rw [declarations_of_error hsettles,
                  declarations_of_error hsettles']
                refine ⟨hstatements, ?_, hnextId⟩
                refine hcons _ _ _ _ _ _ hfailures (fun hlast => ?_) herrors
                rw [declarations_of_atEnd hlast, declarations_of_atEnd
                  ((h.atEnd hnext).symm.trans hlast)]
                exact ⟨rfl, rfl⟩

/-! ### Nothing is seen but the tokens -/

/-- The same tokens are still to come, and the same token is shown.  The token
read last may differ as long as there is a next one. -/
structure Facing (c c' : Cursor) : Prop where
  rest_eq : c.rest = c'.rest
  nextId_eq : c.nextId = c'.nextId
  here_eq : c.here = c'.here

namespace Facing

variable {c c' : Cursor}

theorem atEnd_eq (h : Facing c c') : c.atEnd = c'.atEnd := by
  unfold Cursor.atEnd
  rw [h.rest_eq]

theorem sees_eq (h : Facing c c') (kind : Token.Kind) :
    c.sees kind = c'.sees kind := by
  unfold Cursor.sees
  rw [h.atEnd_eq, h.here_eq]

private theorem advance_eq (h : Facing c c') (hend : c.atEnd = false) :
    c.advance = c'.advance := by
  obtain ⟨previous, tokens, nextId⟩ := c
  obtain ⟨previous', tokens', nextId'⟩ := c'
  obtain rfl : tokens = tokens' := h.rest_eq
  obtain rfl : nextId = nextId' := h.nextId_eq
  cases tokens with
  | nil => cases hend
  | cons token tokens =>
      have hne : token.kind ≠ .eof := by simpa [Cursor.atEnd_cons] using hend
      rw [Cursor.advance_cons hne, Cursor.advance_cons hne]

protected theorem refl (c : Cursor) : Facing c c :=
  ⟨rfl, rfl, rfl⟩

private theorem resume (h : Facing c c') : Facing c.resume c'.resume := by
  cases hend : c.atEnd with
  | true =>
      rw [Cursor.resume_of_atEnd hend,
        Cursor.resume_of_atEnd (h.atEnd_eq.symm.trans hend)]
      exact h
  | false =>
      rw [Cursor.resume_eq, Cursor.resume_eq, h.advance_eq hend]
      exact .refl _

end Facing

def Pairing.facing : Pairing where
  places := Facing
  failures e c e' c' := e = e' ∧ Facing c c'
  like := .places Eq

theorem Pairing.facing_resumes : Pairing.facing.Resumes where
  ne_eof _ hkind := hkind
  sees _ _ kind h _ := h.sees_eq kind
  take := by
    intro c c' kind h _ hsees
    have hend : c.atEnd = false := by
      simp only [Cursor.sees, Bool.and_eq_true, Bool.not_eq_true'] at hsees
      exact hsees.1
    refine ⟨.of_eq h.here_eq, ?_⟩
    rw [h.advance_eq hend]
    exact .refl _
  nextId _ _ h := h.nextId_eq
  count _ _ h := ⟨h.rest_eq, congrArg (· + 1) h.nextId_eq, h.here_eq⟩
  failHere _ _ cause h := ⟨by rw [h.here_eq], h⟩
  missing _ _ h := ⟨by unfold Cursor.missing; rw [h.here_eq], h⟩
  target := by rintro c c' line _ h rfl; exact ⟨rfl, h⟩
  atEnd _ _ h := h.atEnd_eq
  places_of_failures _ _ _ _ h := h.2
  resume _ _ _ _ h := ⟨h.1, h.2.resume⟩

/-- Behind which token a whole list is read makes no difference. -/
theorem declarations_previous (tokens : List Token) (firstId : PlaceId)
    (previous previous' : Token) {bound bound' : Nat}
    (hbound : tokens.length ≤ bound) (hbound' : tokens.length ≤ bound') :
    declarations bound ⟨previous, tokens, firstId⟩ =
      declarations bound' ⟨previous', tokens, firstId⟩ := by
  cases tokens with
  | nil =>
      rw [declarations_of_atEnd rfl, declarations_of_atEnd rfl]
  | cons token tokens =>
      obtain ⟨hstatements, herrors, hnextId⟩ :=
        @declarations_keeps _ Pairing.facing_resumes Eq rfl
          (fun e c e' c' es es' hfailures _ hlists => by
            rw [hfailures.1, hlists])
          bound bound' ⟨previous, token :: tokens, firstId⟩
          ⟨previous', token :: tokens, firstId⟩ ⟨rfl, rfl, rfl⟩ hbound hbound'
      exact Reading.mk.injEq .. |>.mpr ⟨hstatements.eq, herrors, hnextId⟩

/-! ## Progress -/

theorem EndFree.length_le_takeWhile {tokens taken rest : List Token}
    (h : EndFree taken) (htokens : tokens = taken ++ rest) :
    taken.length ≤ (tokens.takeWhile (·.kind ≠ .eof)).length := by
  rw [htokens, List.takeWhile_append_of_pos
    (fun token hmem => decide_eq_true (h token hmem)), List.length_append]
  exact Nat.le_add_right _ _

/-- Every token list is read to its end in rounds, none of which depends on the
bounds that are set to it.  Each round takes tokens, and what is read depends on
nothing but the list, so there are no more statements and failures than tokens
in front of the end mark.  Failures come in the order of the lines. -/
theorem read_progress (tokens : List Token) (firstId : PlaceId) :
    (∃ last, Rounds (.start tokens firstId) (read tokens firstId).statements
        (read tokens firstId).errors last ∧
      last.atEnd = true ∧ last.nextId = (read tokens firstId).nextId) ∧
    (∀ cursor statements errors,
      Rounds (.start tokens firstId) statements errors cursor →
      (∃ taken, Passed (.start tokens firstId) taken cursor) ∧
        (cursor.atEnd = false →
          ∃ result, cursor.Settles result ∧ Strides cursor result)) ∧
    (∀ previous, declarations tokens.length ⟨previous, tokens, firstId⟩ =
      read tokens firstId) ∧
    (∀ e ∈ (read tokens firstId).errors, e.cause ≠ .tooDeep) ∧
    (read tokens firstId).statements.length +
        (read tokens firstId).errors.length ≤
      (tokens.takeWhile (·.kind ≠ .eof)).length ∧
    (tokens.Pairwise (fun a b => a.line ≤ b.line) →
      (read tokens firstId).errors.Pairwise fun a b => a.line ≤ b.line) := by
  obtain ⟨last, hrounds, hlast⟩ := declarations_rounds tokens.length
    (.start tokens firstId) (Nat.le_refl _)
  refine ⟨⟨last, hrounds, hlast⟩, ?_, ?_, ?_, ?_, ?_⟩
  · intro cursor statements errors hreached
    obtain ⟨taken, hpassed, -⟩ := hreached.passed
    refine ⟨⟨taken, hpassed⟩, fun hend => ?_⟩
    exact ⟨_, Cursor.settles hend, declaration_strides hend (Nat.le_refl _)⟩
  · intro previous
    exact declarations_previous tokens firstId previous _ (Nat.le_refl _)
      (Nat.le_refl _)
  · exact fun e he => (hrounds.blames e he).1
  · obtain ⟨taken, hpassed, hcount⟩ := hrounds.passed
    exact Nat.le_trans hcount
      (hpassed.endFree.length_le_takeWhile hpassed.rest_eq)
  · exact hrounds.ordered

/-- The tokens of `print a; { ) print b; } var` without an end mark. -/
def brokenBlock : List Token :=
  [⟨.printWord, "print", 1⟩, ⟨.identifier, "a", 1⟩, ⟨.semicolon, ";", 1⟩,
    ⟨.leftBrace, "\x7b", 2⟩, ⟨.rightParen, ")", 2⟩,
    ⟨.printWord, "print", 3⟩, ⟨.identifier, "b", 3⟩, ⟨.semicolon, ";", 3⟩,
    ⟨.rightBrace, "\x7d", 4⟩, ⟨.varWord, "var", 5⟩]

/-- The four rounds give one statement and three failures, in the order of
their lines; the first round takes tokens. -/
theorem brokenBlock_progress :
    brokenBlock.Pairwise (fun a b => a.line ≤ b.line) ∧
      (read brokenBlock 0).errors =
        [⟨.expectedExpression ")", 2⟩, ⟨.expectedExpression "\x7d", 4⟩,
          ⟨.expected .variableName, 5⟩] ∧
      (read brokenBlock 0).errors.Pairwise (fun a b => a.line ≤ b.line) ∧
      ParseError.Cause.expected .variableName ≠ .tooDeep ∧
      ∃ result, (Cursor.start brokenBlock 0).Settles result ∧
        Strides (Cursor.start brokenBlock 0) result := by
  obtain ⟨-, hrounds, -, hcauses, -, hordered⟩ := read_progress brokenBlock 0
  have hlines : brokenBlock.Pairwise fun a b => a.line ≤ b.line := by decide
  have herrors : (read brokenBlock 0).errors =
      [⟨.expectedExpression ")", 2⟩, ⟨.expectedExpression "\x7d", 4⟩,
        ⟨.expected .variableName, 5⟩] := rfl
  exact ⟨hlines, herrors, hordered hlines,
    hcauses ⟨.expected .variableName, 5⟩ (by simp [herrors]),
    (hrounds _ [] [] .none).2 rfl⟩

end Grammar
end LoxLang
