import LoxLang.Proofs.Grammar.Rounds

/-!
# Token lists without an end mark

A token list is read in the same way with and without an end mark behind it.
Only a failure at the very end differs: without an end mark it names the last
token and its line.  At the end the last token is shown once more, but no
expression starts behind a number or a text, so that none is read twice.
-/

namespace LoxLang
namespace Grammar

/-- The second reading has an end mark behind the tokens of the first one, of
which `last` is the last. -/
structure Ended (last stop : Token) (c c' : Cursor) : Prop where
  previous_eq : c'.previous = c.previous
  rest_eq : c'.rest = c.rest ++ [stop]
  nextId_eq : c'.nextId = c.nextId
  endFree : EndFree c.rest
  last_eq : c.rest.getLast?.getD c.previous = last

/-- The token that is last remains so as tokens are taken. -/
theorem Passed.last_eq {cursor next : Cursor} {taken : List Token}
    (h : Passed cursor taken next) :
    next.rest.getLast?.getD next.previous =
      cursor.rest.getLast?.getD cursor.previous := by
  rw [h.rest_eq, h.previous_eq, List.getLast?_append]
  cases next.rest.getLast? <;> rfl

theorem skipToBoundary_append_end {stop : Token} (hstop : stop.kind = .eof)
    (tokens : List Token) (previous : Token) :
    skipToBoundary previous (tokens ++ [stop]) =
      ((skipToBoundary previous tokens).1,
        (skipToBoundary previous tokens).2 ++ [stop]) := by
  induction tokens generalizing previous with
  | nil => simp [skipToBoundary, hstop]
  | cons token tokens ih =>
      rw [List.cons_append, skipToBoundary, skipToBoundary]
      split
      · rfl
      · exact ih token

namespace Ended

variable {last stop : Token} {c c' : Cursor}

theorem atEnd_eq (h : Ended last stop c c') (hstop : stop.kind = .eof) :
    c.atEnd = c'.atEnd := by
  unfold Cursor.atEnd
  rw [h.rest_eq]
  cases c.rest with
  | nil => simp [hstop]
  | cons token tokens => rfl

theorem here_eq (h : Ended last stop c c') (hrest : c.rest ≠ []) :
    c.here = c'.here := by
  unfold Cursor.here
  rw [h.rest_eq]
  obtain ⟨token, tokens, hcons⟩ := List.exists_cons_of_ne_nil hrest
  rw [hcons]
  rfl

theorem sees_eq (h : Ended last stop c c') (hstop : stop.kind = .eof)
    (kind : Token.Kind) : c.sees kind = c'.sees kind := by
  unfold Cursor.sees
  rw [← h.atEnd_eq hstop]
  by_cases hrest : c.rest = []
  · rw [Cursor.atEnd_of_rest_eq_nil hrest]
    rfl
  · rw [h.here_eq hrest]

theorem advance (h : Ended last stop c c') (hstop : stop.kind = .eof) :
    Ended last stop c.advance c'.advance := by
  obtain ⟨previous, tokens, nextId⟩ := c
  obtain ⟨previous', tokens', nextId'⟩ := c'
  obtain rfl : previous' = previous := h.previous_eq
  obtain rfl : tokens' = tokens ++ [stop] := h.rest_eq
  obtain rfl : nextId' = nextId := h.nextId_eq
  cases tokens with
  | nil =>
      have hstays : Cursor.advance ⟨previous', [] ++ [stop], nextId'⟩ =
          ⟨previous', [] ++ [stop], nextId'⟩ := by
        simp [Cursor.advance, hstop]
      rw [hstays]
      exact h
  | cons token tokens =>
      have hfree := endFree_cons.mp h.endFree
      rw [List.cons_append, Cursor.advance_cons hfree.1,
        Cursor.advance_cons hfree.1]
      refine ⟨rfl, rfl, rfl, hfree.2, ?_⟩
      rw [← h.last_eq]
      exact (Passed.one hfree.1 nextId').last_eq

theorem resume (h : Ended last stop c c') (hstop : stop.kind = .eof) :
    Ended last stop c.resume c'.resume := by
  have hnext := h.advance hstop
  obtain ⟨taken, hpassed⟩ := skipToBoundary_passed c.advance.rest
    c.advance.previous c.advance.nextId
  have hfree := hnext.endFree
  rw [hpassed.rest_eq, endFree_append] at hfree
  rw [Cursor.resume_eq c', hnext.rest_eq, hnext.previous_eq,
    skipToBoundary_append_end hstop]
  exact ⟨rfl, rfl, hnext.nextId_eq, hfree.2,
    hpassed.last_eq.trans hnext.last_eq⟩

end Ended

/-- Both failures are at the end of the tokens.  The first one names the last
token, the second one the end mark. -/
structure AtEnd (last stop : Token) (e e' : ParseError) : Prop where
  line_eq : e.line = last.line
  line_eq' : e'.line = stop.line
  cause_eq : e.cause = e'.cause ∨
    e.cause = .expectedExpression last.lexeme ∧
      e'.cause = .expectedExpressionAtEnd

/-- Two readings of the same tokens, the second with an end mark. -/
def Pairing.ended (last stop : Token) : Pairing where
  places := Ended last stop
  failures e c e' c' := Ended last stop c c' ∧
    (e = e' ∨ c.rest = [] ∧ AtEnd last stop e e')
  like := .places Eq

theorem Ended.failHere {last stop : Token} {c c' : Cursor}
    (h : Ended last stop c c') (cause : ParseError.Cause) :
    (Pairing.ended last stop).failures ⟨cause, c.here.line⟩ c
      ⟨cause, c'.here.line⟩ c' := by
  refine ⟨h, ?_⟩
  by_cases hrest : c.rest = []
  · have hlast := h.last_eq
    rw [hrest] at hlast
    refine .inr ⟨hrest, ?_, ?_, .inl rfl⟩
    · rw [← hlast, Cursor.here, hrest]
      rfl
    · rw [Cursor.here, h.rest_eq, hrest]
      rfl
  · rw [h.here_eq hrest]
    exact .inl rfl

theorem Ended.missing {last stop : Token} {c c' : Cursor}
    (h : Ended last stop c c') (hstop : stop.kind = .eof) :
    (Pairing.ended last stop).failures c.missing c c'.missing c' := by
  refine ⟨h, ?_⟩
  unfold Cursor.missing
  by_cases hrest : c.rest = []
  · have hhere : c.here = last := by
      rw [← h.last_eq, Cursor.here, hrest]
      rfl
    have hhere' : c'.here = stop := by
      rw [Cursor.here, h.rest_eq, hrest]
      rfl
    rw [hhere, hhere', if_pos hstop]
    refine .inr ⟨hrest, rfl, rfl, ?_⟩
    split
    · exact .inl rfl
    · exact .inr ⟨rfl, rfl⟩
  · rw [h.here_eq hrest]
    exact .inl rfl

theorem Pairing.ended_resumes {last stop : Token} (hstop : stop.kind = .eof) :
    (Pairing.ended last stop).Resumes where
  ne_eof _ hkind := hkind
  sees _ _ kind h _ := h.sees_eq hstop kind
  take := by
    intro c c' kind h hkind hsees
    obtain ⟨token, tokens, hrest, -⟩ :=
      (Cursor.sees_eq_true_iff hkind).mp hsees
    exact ⟨.of_eq (h.here_eq (by simp [hrest])), h.advance hstop⟩
  nextId _ _ h := h.nextId_eq.symm
  count _ _ h := ⟨h.previous_eq, h.rest_eq, congrArg (· + 1) h.nextId_eq,
    h.endFree, h.last_eq⟩
  failHere _ _ cause h := h.failHere cause
  missing _ _ h := h.missing hstop
  target := by rintro c c' line _ h rfl; exact ⟨h, .inl rfl⟩
  atEnd _ _ h := h.atEnd_eq hstop
  places_of_failures _ _ _ _ h := h.1
  resume := by
    rintro e c e' c' ⟨hended, hsame⟩
    refine ⟨hended.resume hstop, hsame.imp_right fun hlast => ?_⟩
    rw [Cursor.resume_of_atEnd (Cursor.atEnd_of_rest_eq_nil hlast.1)]
    exact hlast

/-- The failures are the same, but for one at the end of the tokens. -/
inductive SameUpToEnd (last stop : Token) :
    List ParseError → List ParseError → Prop where
  | nil : SameUpToEnd last stop [] []
  | cons :
      SameUpToEnd last stop errors errors' →
      SameUpToEnd last stop (e :: errors) (e :: errors')
  | atEnd : AtEnd last stop e e' → SameUpToEnd last stop [e] [e']

/-- Behind a failure at the end there is no other one. -/
theorem SameUpToEnd.add {last stop : Token} {e e' : ParseError}
    {c c' : Cursor} {errors errors' : List ParseError}
    (hfailures : (Pairing.ended last stop).failures e c e' c')
    (hend : c.atEnd = true → errors = [] ∧ errors' = [])
    (h : SameUpToEnd last stop errors errors') :
    SameUpToEnd last stop (e :: errors) (e' :: errors') := by
  rcases hfailures.2 with rfl | ⟨hrest, hat⟩
  · exact .cons h
  · obtain ⟨rfl, rfl⟩ := hend (Cursor.atEnd_of_rest_eq_nil hrest)
    exact .atEnd hat

theorem SameUpToEnd.length_eq {last stop : Token}
    {errors errors' : List ParseError}
    (h : SameUpToEnd last stop errors errors') :
    errors.length = errors'.length := by
  induction h with
  | nil => rfl
  | cons _ ih => rw [List.length_cons, List.length_cons, ih]
  | atEnd _ => rfl

theorem Reading.program_related {reading reading' : Reading}
    {errors : List ParseError → List ParseError → Prop}
    (hstatements : reading.statements = reading'.statements)
    (herrors : errors reading.errors reading'.errors)
    (hlength : reading.errors.length = reading'.errors.length) :
    ExceptRelated errors Eq reading.program reading'.program := by
  unfold Reading.program
  cases hfirst : reading.errors with
  | nil =>
      rw [hfirst] at hlength
      rw [List.length_eq_zero_iff.mp hlength.symm]
      exact .ok hstatements
  | cons e es =>
      rw [hfirst] at hlength herrors
      cases hsecond : reading'.errors with
      | nil =>
          rw [hsecond] at hlength
          cases hlength
      | cons e' es' =>
          rw [hsecond] at herrors
          exact .error herrors

/-- With and without an end mark the same program is read, or as many failures
are met: the same ones, but for one at the end of the tokens, which names the
end mark or the last token.  The numbers of the places are the same. -/
theorem read_append_endMark {tokens : List Token} (htokens : EndFree tokens)
    {stop : Token} (hstop : stop.kind = .eof) (firstId : PlaceId) :
    ExceptRelated
        (fun errors errors' => errors.length = errors'.length ∧
          SameUpToEnd (tokens.getLast?.getD stop) stop errors errors')
        Eq (read tokens firstId).program
        (read (tokens ++ [stop]) firstId).program ∧
      (read tokens firstId).nextId =
        (read (tokens ++ [stop]) firstId).nextId := by
  have hprevious : read tokens firstId =
      declarations tokens.length ⟨stop, tokens, firstId⟩ :=
    declarations_previous tokens firstId _ stop (Nat.le_refl _)
      (Nat.le_refl _)
  have hprevious' : read (tokens ++ [stop]) firstId =
      declarations (tokens ++ [stop]).length
        ⟨stop, tokens ++ [stop], firstId⟩ :=
    declarations_previous (tokens ++ [stop]) firstId _ stop (Nat.le_refl _)
      (Nat.le_refl _)
  obtain ⟨hstatements, herrors, hnextId⟩ :=
    declarations_keeps (Pairing.ended_resumes hstop) SameUpToEnd.nil
      (fun _ _ _ _ _ _ => SameUpToEnd.add) tokens.length
      (tokens ++ [stop]).length ⟨stop, tokens, firstId⟩
      ⟨stop, tokens ++ [stop], firstId⟩ ⟨rfl, rfl, rfl, htokens, rfl⟩
      (Nat.le_refl _) (Nat.le_refl _)
  rw [hprevious, hprevious']
  exact ⟨Reading.program_related hstatements.eq ⟨herrors.length_eq, herrors⟩
    herrors.length_eq, hnextId⟩

/-- The tokens of `a b; print`. -/
def missingValue : List Token :=
  [⟨.identifier, "a", 1⟩, ⟨.identifier, "b", 1⟩, ⟨.semicolon, ";", 1⟩,
    ⟨.printWord, "print", 1⟩]

/-- The second failure is at the end, and the end mark changes what it says. -/
theorem missingValue_append_endMark :
    EndFree missingValue ∧
      (read missingValue 0).errors =
        [⟨.expected .expressionEnd, 1⟩, ⟨.expectedExpression "print", 1⟩] ∧
      (read (missingValue ++ [⟨.eof, "", 2⟩]) 0).errors =
        [⟨.expected .expressionEnd, 1⟩, ⟨.expectedExpressionAtEnd, 2⟩] ∧
      (read missingValue 0).nextId =
        (read (missingValue ++ [⟨.eof, "", 2⟩]) 0).nextId := by
  have hfree : EndFree missingValue := by simp [missingValue]
  exact ⟨hfree, rfl, rfl,
    (@read_append_endMark missingValue hfree ⟨.eof, "", 2⟩ rfl 0).2⟩

end Grammar
end LoxLang
