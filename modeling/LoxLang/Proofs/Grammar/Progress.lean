import LoxLang.Proofs.Grammar.Exactness

/-!
# Where a reading ends

Every reading, whether it succeeds or fails, leaves the cursor at a place that
it reaches by taking tokens one after another, and it never takes an end mark.
A failure names the line of a token that was taken, or of the token shown at
the place where the reading ends.  Sixteen levels for each token to come are
enough for every reading, so the bound on the depth is never met.
-/

namespace LoxLang
namespace Grammar

/-! ## Places along the tokens -/

/-- The place `next` is reached from `cursor` by taking the tokens `taken`. -/
structure Passed (cursor : Cursor) (taken : List Token) (next : Cursor) :
    Prop where
  rest_eq : cursor.rest = taken ++ next.rest
  endFree : EndFree taken
  previous_eq : next.previous = taken.getLast?.getD cursor.previous

namespace Passed

variable {cursor next last : Cursor} {taken more : List Token}

protected theorem refl (cursor : Cursor) : Passed cursor [] cursor :=
  ⟨rfl, endFree_nil, rfl⟩

theorem of_eq (hrest : next.rest = cursor.rest)
    (hprevious : next.previous = cursor.previous) : Passed cursor [] next :=
  ⟨hrest.symm, endFree_nil, hprevious⟩

protected theorem trans (h : Passed cursor taken next)
    (hmore : Passed next more last) : Passed cursor (taken ++ more) last where
  rest_eq := by rw [h.rest_eq, hmore.rest_eq, List.append_assoc]
  endFree := endFree_append.mpr ⟨h.endFree, hmore.endFree⟩
  previous_eq := by
    rw [hmore.previous_eq, h.previous_eq, List.getLast?_append]
    cases more.getLast? <;> rfl

/-- One token is taken. -/
theorem one {previous token : Token} {tokens : List Token}
    (h : token.kind ≠ .eof) (nextId : PlaceId) :
    Passed ⟨previous, token :: tokens, nextId⟩ [token]
      ⟨token, tokens, nextId⟩ :=
  ⟨rfl, by simp [h], rfl⟩

theorem length_eq (h : Passed cursor taken next) :
    cursor.rest.length = taken.length + next.rest.length := by
  rw [h.rest_eq, List.length_append]

end Passed

theorem Took.passed {kind : Token.Kind} {cursor next : Cursor} {token : Token}
    (h : Took kind cursor token next) (hkind : kind ≠ .eof) :
    Passed cursor [token] next where
  rest_eq := h.rest_eq
  endFree := by simp [h.kind_eq, hkind]
  previous_eq := h.previous_eq

theorem Took.length_eq {kind : Token.Kind} {cursor next : Cursor}
    {token : Token} (h : Took kind cursor token next) :
    cursor.rest.length = next.rest.length + 1 := by
  rw [h.rest_eq, List.length_cons]

theorem Cursor.advance_passed (cursor : Cursor) :
    ∃ taken, Passed cursor taken cursor.advance := by
  unfold Cursor.advance
  split
  next => exact ⟨[], .refl cursor⟩
  next token rest hrest =>
    split
    next => exact ⟨[], .refl cursor⟩
    next hne => exact ⟨[token], hrest, by simp [hne], rfl⟩

/-! ### Skipping to a boundary -/

theorem skipToBoundary_passed (tokens : List Token) (previous : Token)
    (nextId : PlaceId) :
    ∃ taken, Passed ⟨previous, tokens, nextId⟩ taken
      ⟨(skipToBoundary previous tokens).1,
        (skipToBoundary previous tokens).2, nextId⟩ := by
  induction tokens generalizing previous with
  | nil => exact ⟨[], .refl _⟩
  | cons token tokens ih =>
      rw [skipToBoundary]
      split
      next => exact ⟨[], .refl _⟩
      next hskip =>
        have hne : token.kind ≠ .eof := fun heof => hskip (.inl heof)
        obtain ⟨taken, htaken⟩ := ih token
        exact ⟨[token] ++ taken, (Passed.one hne nextId).trans htaken⟩

theorem Cursor.resume_eq (cursor : Cursor) :
    cursor.resume =
      ⟨(skipToBoundary cursor.advance.previous cursor.advance.rest).1,
        (skipToBoundary cursor.advance.previous cursor.advance.rest).2,
        cursor.advance.nextId⟩ := rfl

theorem Cursor.resume_of_atEnd {cursor : Cursor} (h : cursor.atEnd = true) :
    cursor.resume = cursor := by
  obtain ⟨previous, tokens, nextId⟩ := cursor
  cases tokens with
  | nil => rfl
  | cons token tokens =>
      have heof : token.kind = .eof := by simpa [Cursor.atEnd_cons] using h
      simp [Cursor.resume, Cursor.advance, skipToBoundary, heof]

/-- Reading goes on behind the token at fault. -/
theorem Cursor.resume_passed {cursor : Cursor} (h : cursor.atEnd = false) :
    ∃ taken, Passed cursor (cursor.here :: taken) cursor.resume := by
  obtain ⟨previous, tokens, nextId⟩ := cursor
  cases tokens with
  | nil => cases h
  | cons token tokens =>
      have hne : token.kind ≠ .eof := by simpa [Cursor.atEnd_cons] using h
      obtain ⟨taken, htaken⟩ := skipToBoundary_passed tokens token nextId
      refine ⟨taken, ?_⟩
      rw [Cursor.resume_eq, Cursor.advance_cons hne]
      exact (Passed.one hne nextId).trans htaken

/-! ## Readings that land -/

/-- A reading from `cursor` has ended at a place that it reached by taking
tokens.  If it failed, then not for want of depth, and the failure names the
line of a taken token or of the token shown at that place. -/
inductive Lands (cursor : Cursor) :
    EStateM.Result ParseError Cursor α → Prop where
  | ok : Passed cursor taken next → Lands cursor (.ok a next)
  | error :
      Passed cursor taken next → token ∈ taken ++ [next.here] →
      e.line = token.line → e.cause ≠ .tooDeep →
      Lands cursor (.error e next)

namespace Lands

variable {α β : Type} {cursor next : Cursor} {taken : List Token}

/-- What is reached behind some tokens is reached from in front of them. -/
theorem after {result : EStateM.Result ParseError Cursor α}
    (h : Lands next result) (hpassed : Passed cursor taken next) :
    Lands cursor result := by
  cases h with
  | ok hmore => exact .ok (hpassed.trans hmore)
  | error hmore hmem hline hcause =>
      refine .error (hpassed.trans hmore) ?_ hline hcause
      rw [List.append_assoc]
      exact List.mem_append_right _ hmem

theorem ok_passed {a : α} (h : Lands cursor (.ok a next)) :
    ∃ taken, Passed cursor taken next := by
  cases h with
  | ok hpassed => exact ⟨_, hpassed⟩

theorem error_passed {e : ParseError}
    (h : Lands cursor (.error e next : EStateM.Result _ _ α)) :
    ∃ taken, Passed cursor taken next := by
  cases h with
  | error hpassed _ _ _ => exact ⟨_, hpassed⟩

theorem cause_ne {e : ParseError}
    (h : Lands cursor (.error e next : EStateM.Result _ _ α)) :
    e.cause ≠ .tooDeep := by
  cases h with
  | error _ _ _ hcause => exact hcause

protected theorem pure (a : α) (cursor : Cursor) :
    Lands cursor ((pure a : Parse α) cursor) :=
  .ok (.refl cursor)

theorem bind {start : Cursor} {x : Parse α} {f : α → Parse β}
    (hx : Lands start (x cursor))
    (hf : ∀ a next taken, x cursor = .ok a next →
      Passed start taken next → Lands start (f a next)) :
    Lands start ((x >>= f) cursor) := by
  change Lands start (EStateM.bind x f cursor)
  unfold EStateM.bind
  cases hresult : x cursor with
  | ok a next =>
      rw [hresult] at hx
      obtain ⟨taken, hpassed⟩ := hx.ok_passed
      exact hf a next taken hresult hpassed
  | error e next =>
      rw [hresult] at hx
      cases hx with
      | error hpassed hmem hline hcause =>
          exact .error hpassed hmem hline hcause

/-- The second reading starts where the first one has ended. -/
theorem andThen {x : Parse α} {f : α → Parse β}
    (hx : Lands cursor (x cursor))
    (hf : ∀ a next, x cursor = .ok a next →
      next.rest.length ≤ cursor.rest.length → Lands next (f a next)) :
    Lands cursor ((x >>= f) cursor) := by
  refine hx.bind fun a next taken hresult hpassed => ?_
  have hlength := hpassed.length_eq
  exact (hf a next hresult (by omega)).after hpassed

theorem failHere {cause : ParseError.Cause} (hcause : cause ≠ .tooDeep)
    (cursor : Cursor) :
    Lands cursor (failHere cause cursor : EStateM.Result _ _ α) :=
  .error (.refl cursor) (List.mem_singleton_self _) rfl hcause

theorem noExpression (cursor : Cursor) :
    Lands cursor (noExpression cursor : EStateM.Result _ _ α) := by
  refine .error (.refl cursor) (List.mem_singleton_self _) rfl ?_
  dsimp only
  split <;> simp

theorem previousLine (cursor : Cursor) :
    Lands cursor (previousLine cursor) :=
  .ok (.refl cursor)

theorem freshId (cursor : Cursor) : Lands cursor (freshId cursor) :=
  .ok (.of_eq rfl rfl)

theorem expect {kind : Token.Kind} (hkind : kind ≠ .eof)
    (what : ParseError.Expectation) (cursor : Cursor) :
    Lands cursor (expect kind what cursor) := by
  unfold Grammar.expect
  split
  next hsees => exact .ok ((took_of_sees hkind hsees).passed hkind)
  next =>
    exact .error (.refl cursor) (List.mem_singleton_self _) rfl (by simp)

theorem identifier (what : ParseError.Expectation) (cursor : Cursor) :
    Lands cursor (identifier what cursor) :=
  (expect (by simp) what cursor).andThen fun _ next _ _ => .pure _ next

theorem acceptWhere (choose : Token.Kind → Option α) (cursor : Cursor) :
    Lands cursor (acceptWhere choose cursor) := by
  unfold Grammar.acceptWhere
  split
  next => exact .ok (.refl cursor)
  next =>
    split
    next =>
      obtain ⟨taken, hpassed⟩ := cursor.advance_passed
      exact .ok hpassed
    next => exact .ok (.refl cursor)

/-- At the end a number or text may be read again; the cursor stays then. -/
theorem constant (cursor : Cursor) : Lands cursor (constant cursor) := by
  unfold Grammar.constant
  split
  next => exact .ok (.refl cursor)
  next =>
    split
    next =>
      obtain ⟨taken, hpassed⟩ := cursor.advance_passed
      exact .ok hpassed
    next => exact .ok (.refl cursor)

end Lands

theorem constant_eq_ok_none {cursor next : Cursor}
    (h : constant cursor = .ok none next) : cursor = next := by
  unfold constant at h
  split at h
  next =>
    cases h
    rfl
  next =>
    split at h <;> cases h
    rfl

theorem accept_of_sees {kind : Token.Kind} {cursor : Cursor}
    (h : cursor.sees kind = true) :
    accept kind cursor = .ok true cursor.advance := by
  unfold accept
  rw [if_pos h]

theorem accept_of_not_sees {kind : Token.Kind} {cursor : Cursor}
    (h : cursor.sees kind = false) : accept kind cursor = .ok false cursor := by
  unfold accept
  rw [if_neg (by simp [h])]

/-- The first word of a variable declaration is taken or is not there. -/
theorem acceptVariable_cases (cursor : Cursor) :
    (∃ word next, acceptVariable cursor = .ok true next ∧
        Passed cursor [word] next) ∨
      acceptVariable cursor = .ok false cursor := by
  unfold acceptVariable
  cases hvar : cursor.sees .varWord with
  | true =>
      refine .inl ⟨_, _, ?_, (took_of_sees (by simp) hvar).passed (by simp)⟩
      rw [bind_eq (accept_of_sees hvar)]
      rfl
  | false =>
      rw [choose_else (accept_of_not_sees hvar)]
      cases hval : cursor.sees .valWord with
      | true =>
          exact .inl ⟨_, _, accept_of_sees hval,
            (took_of_sees (by simp) hval).passed (by simp)⟩
      | false => exact .inr (accept_of_not_sees hval)

namespace Lands

variable {α : Type} {cursor : Cursor}

/-- If the token was there, the reading goes on behind it. -/
theorem accept {kind : Token.Kind} (hkind : kind ≠ .eof) {x y : Parse α}
    (hyes : ∀ token next, Took kind cursor token next →
      Lands cursor (x next))
    (hno : Lands cursor (y cursor)) :
    Lands cursor
      ((accept kind >>= fun b => if b = true then x else y) cursor) := by
  cases hsees : cursor.sees kind with
  | true =>
      rw [choose_then (accept_of_sees hsees)]
      exact hyes _ _ (took_of_sees hkind hsees)
  | false =>
      rw [choose_else (accept_of_not_sees hsees)]
      exact hno

theorem acceptVariable {x y : Parse α}
    (hyes : ∀ word next, Passed cursor [word] next → Lands next (x next))
    (hno : Lands cursor (y cursor)) :
    Lands cursor
      ((acceptVariable >>= fun b => if b = true then x else y) cursor) := by
  rcases acceptVariable_cases cursor with
    ⟨word, next, haccept, hpassed⟩ | haccept
  · rw [choose_then haccept]
    exact (hyes word next hpassed).after hpassed
  · rw [choose_else haccept]
    exact hno

theorem sees {kind : Token.Kind} {x y : Parse α}
    (hyes : Lands cursor (x cursor)) (hno : Lands cursor (y cursor)) :
    Lands cursor
      ((sees kind >>= fun b => if b = true then x else y) cursor) := by
  change Lands cursor ((if cursor.sees kind = true then x else y) cursor)
  split
  · exact hyes
  · exact hno

theorem atEnd {x y : Parse α} (hyes : Lands cursor (x cursor))
    (hno : cursor.atEnd = false → Lands cursor (y cursor)) :
    Lands cursor ((atEnd >>= fun b => if b = true then x else y) cursor) := by
  change Lands cursor ((if cursor.atEnd = true then x else y) cursor)
  split
  next => exact hyes
  next hend => exact hno (by simpa using hend)

theorem resuming {x : Parse α} (h : Lands cursor (x cursor)) :
    Lands cursor (resuming x cursor) := by
  unfold Grammar.resuming
  cases hresult : x cursor with
  | ok a next =>
      rw [hresult] at h
      exact h
  | error e next =>
      rw [hresult] at h
      cases h with
      | error hpassed hmem hline hcause =>
          cases hend : next.atEnd with
          | true =>
              dsimp only
              rw [Cursor.resume_of_atEnd hend]
              exact .error hpassed hmem hline hcause
          | false =>
              obtain ⟨taken, hresume⟩ := Cursor.resume_passed hend
              refine .error (hpassed.trans hresume) ?_ hline hcause
              -- The token shown at the fault is the first one skipped.
              rw [List.mem_append] at hmem ⊢
              refine .inl (List.mem_append.mpr (hmem.imp_right fun h => ?_))
              rw [List.mem_singleton.mp h]
              exact List.mem_cons_self

end Lands

/-! ## Expressions -/

private theorem assignTo_lands {target value : Expr} {sign : Token}
    {cursor next : Cursor} {taken : List Token}
    (hpassed : Passed cursor taken next) (hsign : sign ∈ taken) :
    Lands cursor (assignTo target sign.line value next) := by
  unfold assignTo
  split
  next =>
    refine ((Lands.freshId next).andThen fun _ _ _ _ => ?_).after hpassed
    exact .pure _ _
  next => exact (Lands.pure _ next).after hpassed
  next =>
    exact .error hpassed (List.mem_append_left _ hsign) rfl (by simp)

mutual

theorem assignment_lands :
    ∀ depth cursor, 16 * cursor.rest.length + 10 ≤ depth →
      Lands cursor (assignment depth cursor)
  | 0, _, hdepth => by omega
  | depth + 1, cursor, hdepth => by
      rw [assignment]
      have htarget := level_lands depth topLevel cursor (Nat.le_refl _)
        (by simp only [topLevel]; omega)
      refine htarget.andThen fun target next _ hlength => ?_
      refine Lands.accept (by simp) (fun sign behind hsign => ?_)
        (.pure _ _)
      have hshorter := hsign.length_eq
      refine ((Lands.previousLine behind).after
        (hsign.passed (by simp))).bind fun line _ _ hline _ => ?_
      cases hline
      rw [hsign.previous_eq]
      -- The line of a failing assignment is that of its sign.
      have hvalue := assignment_lands depth behind (by omega)
      refine (hvalue.after (hsign.passed (by simp))).bind
        fun value last _ hresult _ => ?_
      rw [hresult] at hvalue
      obtain ⟨more, hmore⟩ := hvalue.ok_passed
      exact assignTo_lands ((hsign.passed (by simp)).trans hmore)
        (List.mem_append_left _ (List.mem_singleton_self _))

theorem level_lands :
    ∀ depth n cursor, n ≤ topLevel →
      16 * cursor.rest.length + 3 + n ≤ depth →
      Lands cursor (level depth n cursor)
  | 0, _, _, _, hdepth => by omega
  | depth + 1, 0, cursor, _, hdepth => by
      rw [level]
      refine (Lands.acceptWhere unaryOp? cursor).andThen
        fun chosen next hchosen hlength => ?_
      rcases acceptWhere_ok hchosen with
        ⟨op, sign, rfl, -, hsign⟩ | ⟨rfl, rfl⟩
      · have hshorter := hsign.length_eq
        refine (Lands.previousLine next).andThen fun _ _ hline _ => ?_
        cases hline
        have hoperand :=
          level_lands depth 0 next (Nat.zero_le _) (by omega)
        exact hoperand.andThen fun _ last _ _ => .pure _ last
      · exact call_lands depth cursor (by omega)
  | depth + 1, n + 1, cursor, hn, hdepth => by
      rw [level]
      have hleft := level_lands depth n cursor (by omega) (by omega)
      exact hleft.andThen fun left next _ hlength =>
        levelTail_lands depth n left next hn (by omega)

theorem levelTail_lands :
    ∀ depth n left cursor, n < topLevel →
      16 * cursor.rest.length + 1 ≤ depth →
      Lands cursor (levelTail depth n left cursor)
  | 0, _, _, _, _, hdepth => by omega
  | depth + 1, n, left, cursor, hn, hdepth => by
      rw [levelTail]
      refine (Lands.acceptWhere _ cursor).andThen
        fun chosen next hchosen hlength => ?_
      rcases acceptWhere_ok hchosen with
        ⟨connective, sign, rfl, -, hsign⟩ | ⟨rfl, rfl⟩
      · have hshorter := hsign.length_eq
        refine (Lands.previousLine next).andThen fun _ _ hline _ => ?_
        cases hline
        simp only [topLevel] at hn
        have hright := level_lands depth n next
          (by simp only [topLevel]; omega) (by omega)
        exact hright.andThen fun right last _ hlast =>
          levelTail_lands depth n _ last (by simpa [topLevel] using hn)
            (by omega)
      · exact .pure _ _

theorem call_lands :
    ∀ depth cursor, 16 * cursor.rest.length + 2 ≤ depth →
      Lands cursor (call depth cursor)
  | 0, _, hdepth => by omega
  | depth + 1, cursor, hdepth => by
      rw [call]
      have hcallee := primary_lands depth cursor (by omega)
      exact hcallee.andThen fun callee next _ hlength =>
        callTail_lands depth callee next (by omega)

theorem callTail_lands :
    ∀ depth callee cursor, 16 * cursor.rest.length + 1 ≤ depth →
      Lands cursor (callTail depth callee cursor)
  | 0, _, _, hdepth => by omega
  | depth + 1, callee, cursor, hdepth => by
      rw [callTail]
      have hclose (values : List Expr) (next : Cursor)
          (hnext : 16 * next.rest.length + 1 ≤ depth) :
          Lands next ((expect .rightParen .argumentsEnd >>= fun close =>
            callTail depth (.call callee close.line values)) next) :=
        (Lands.expect (by simp) _ next).andThen fun _ last _ hlast =>
          callTail_lands depth _ last (by omega)
      refine Lands.accept (by simp) (fun opening next hopening => ?_)
        (Lands.accept (by simp) (fun dot next hdot => ?_) (.pure _ _))
      · have hshorter := hopening.length_eq
        refine Lands.after ?_ (hopening.passed (by simp))
        refine Lands.sees ?_ ?_
        · exact (Lands.pure [] next).andThen fun values last _ hlast =>
            hclose values last (by omega)
        · have hvalues := arguments_lands depth 0 next (by omega)
          exact hvalues.andThen fun values last _ hlast =>
            hclose values last (by omega)
      · have hshorter := hdot.length_eq
        refine Lands.after ?_ (hdot.passed (by simp))
        exact (Lands.identifier _ next).andThen fun _ last _ hlast =>
          callTail_lands depth _ last (by omega)

theorem arguments_lands :
    ∀ depth count cursor, 16 * cursor.rest.length + 11 ≤ depth →
      Lands cursor (arguments depth count cursor)
  | 0, _, _, hdepth => by omega
  | depth + 1, count, cursor, hdepth => by
      rw [arguments]
      split
      next => exact .failHere (by simp) cursor
      next =>
        have hvalue := assignment_lands depth cursor (by omega)
        refine hvalue.andThen fun value next _ hlength => ?_
        refine Lands.accept (by simp) (fun comma behind hcomma => ?_)
          (.pure _ _)
        have hshorter := hcomma.length_eq
        refine Lands.after ?_ (hcomma.passed (by simp))
        have hmore := arguments_lands depth (count + 1) behind (by omega)
        exact hmore.andThen fun _ last _ _ => .pure _ last

theorem primary_lands :
    ∀ depth cursor, 16 * cursor.rest.length + 1 ≤ depth →
      Lands cursor (primary depth cursor)
  | 0, _, hdepth => by omega
  | depth + 1, cursor, hdepth => by
      rw [primary]
      refine (Lands.constant cursor).andThen
        fun chosen next hchosen _ => ?_
      cases chosen with
      | some value => exact .pure _ next
      | none =>
      obtain rfl := constant_eq_ok_none hchosen
      refine Lands.sees ?_ (Lands.accept (by simp) (fun word next hword => ?_)
        (Lands.accept (by simp) (fun word next hword => ?_)
          (Lands.accept (by simp) (fun opening next hopening => ?_)
            (.noExpression cursor))))
      · exact (Lands.identifier _ cursor).andThen fun _ next _ _ =>
          (Lands.freshId next).andThen fun _ last _ _ => .pure _ last
      · refine Lands.after ?_ (hword.passed (by simp))
        exact (Lands.previousLine next).andThen fun _ next _ _ =>
          (Lands.freshId next).andThen fun _ last _ _ => .pure _ last
      · refine Lands.after ?_ (hword.passed (by simp))
        exact (Lands.previousLine next).andThen fun _ next _ _ =>
          (Lands.expect (by simp) _ next).andThen fun _ next _ _ =>
            (Lands.identifier _ next).andThen fun _ next _ _ =>
              (Lands.freshId next).andThen fun _ last _ _ => .pure _ last
      · have hshorter := hopening.length_eq
        refine Lands.after ?_ (hopening.passed (by simp))
        have hinner := assignment_lands depth next (by omega)
        exact hinner.andThen fun _ next _ _ =>
          (Lands.expect (by simp) _ next).andThen fun _ last _ _ =>
            .pure _ last

end

theorem expression_lands (cursor : Cursor) :
    Lands cursor (expression cursor) := by
  apply assignment_lands
  simp only [Cursor.depthBound]
  omega

/-! ## Parts of statements -/

theorem terminated_lands (what : ParseError.Expectation) (cursor : Cursor) :
    Lands cursor (terminated what cursor) :=
  (expression_lands cursor).andThen fun _ next _ _ =>
    (Lands.expect (by simp) _ next).andThen fun _ last _ _ => .pure _ last

theorem unlessSees_lands (kind : Token.Kind) (cursor : Cursor) :
    Lands cursor (unlessSees kind cursor) :=
  Lands.sees (.pure _ cursor)
    ((expression_lands cursor).andThen fun _ next _ _ => .pure _ next)

theorem variableDecl_lands (cursor : Cursor) :
    Lands cursor (variableDecl cursor) := by
  refine (Lands.identifier _ cursor).andThen fun name next _ _ => ?_
  have hend (initial : Option Expr) (last : Cursor) :
      Lands last ((expect .semicolon .variableEnd >>= fun _ =>
        pure (Stmt.var name initial)) last) :=
    (Lands.expect (by simp) _ last).andThen fun _ last _ _ => .pure _ last
  refine Lands.accept (by simp) (fun sign behind hsign => ?_) ?_
  · refine Lands.after ?_ (hsign.passed (by simp))
    rw [← bind_pure_comp]
    have hvalue : Lands behind ((expression >>= fun e => pure (some e))
        behind) :=
      (expression_lands behind).andThen fun _ last _ _ => .pure _ last
    exact hvalue.andThen fun initial last _ _ => hend initial last
  · exact (Lands.pure none next).andThen fun initial last _ _ =>
      hend initial last

theorem printStmt_lands (cursor : Cursor) : Lands cursor (printStmt cursor) :=
  (terminated_lands _ cursor).andThen fun _ next _ _ => .pure _ next

theorem expressionStmt_lands (cursor : Cursor) :
    Lands cursor (expressionStmt cursor) :=
  (terminated_lands _ cursor).andThen fun _ next _ _ => .pure _ next

theorem returnStmt_lands (cursor : Cursor) :
    Lands cursor (returnStmt cursor) :=
  (Lands.previousLine cursor).andThen fun _ next _ _ =>
    (unlessSees_lands _ next).andThen fun _ next _ _ =>
      (Lands.expect (by simp) _ next).andThen fun _ last _ _ => .pure _ last

theorem condition_lands (start : ParseError.Expectation) (cursor : Cursor) :
    Lands cursor (condition start cursor) :=
  (Lands.expect (by simp) _ cursor).andThen fun _ next _ _ =>
    (expression_lands next).andThen fun _ next _ _ =>
      (Lands.expect (by simp) _ next).andThen fun _ last _ _ => .pure _ last

private theorem forInitializer_lands (cursor : Cursor) :
    Lands cursor (forInitializer cursor) := by
  refine Lands.accept (by simp) (fun stop next hstop => ?_)
    (Lands.acceptVariable (fun word next _ => ?_) ?_)
  · exact (Lands.pure _ next).after (hstop.passed (by simp))
  · exact (variableDecl_lands next).andThen fun _ last _ _ => .pure _ last
  · exact (expressionStmt_lands cursor).andThen fun _ last _ _ => .pure _ last

theorem forClauses_lands (cursor : Cursor) :
    Lands cursor (forClauses cursor) := by
  refine (Lands.expect (by simp) _ cursor).andThen fun _ next _ _ => ?_
  refine (forInitializer_lands next).andThen fun _ next _ _ => ?_
  refine (unlessSees_lands _ next).andThen fun _ next _ _ => ?_
  refine (Lands.expect (by simp) _ next).andThen fun _ next _ _ => ?_
  refine (unlessSees_lands _ next).andThen fun _ next _ _ => ?_
  exact (Lands.expect (by simp) _ next).andThen fun _ last _ _ => .pure _ last

private theorem parameters_lands (bound count : Nat) (cursor : Cursor)
    (hbound : cursor.rest.length < bound) :
    Lands cursor (parameters bound count cursor) := by
  induction bound generalizing count cursor with
  | zero => omega
  | succ bound ih =>
      rw [parameters]
      split
      next => exact .failHere (by simp) cursor
      next =>
        refine (Lands.identifier _ cursor).andThen fun _ next _ hlength => ?_
        refine Lands.accept (by simp) (fun comma behind hcomma => ?_)
          (.pure _ next)
        have hshorter := hcomma.length_eq
        refine Lands.after ?_ (hcomma.passed (by simp))
        exact (ih (count + 1) behind (by omega)).andThen fun _ last _ _ =>
          .pure _ last

theorem functionHead_lands (role : FunctionRole) (cursor : Cursor) :
    Lands cursor (functionHead role cursor) := by
  refine (Lands.identifier _ cursor).andThen fun name next _ _ => ?_
  refine (Lands.expect (by simp) _ next).andThen fun _ next _ _ => ?_
  have hend (params : List Ident) (last : Cursor) :
      Lands last ((expect .rightParen .parametersEnd >>= fun _ =>
        expect .leftBrace (.functionBodyStart role) >>= fun _ =>
          pure (name, params)) last) :=
    (Lands.expect (by simp) _ last).andThen fun _ last _ _ =>
      (Lands.expect (by simp) _ last).andThen fun _ last _ _ => .pure _ last
  refine Lands.sees ?_ ?_
  · exact (Lands.pure [] next).andThen fun params last _ _ => hend params last
  · have hparams : Lands next (parameters next.depthBound 0 next) := by
      apply parameters_lands
      simp only [Cursor.depthBound]
      omega
    exact Lands.andThen (x := fun cursor =>
      parameters cursor.depthBound 0 cursor) hparams
      fun params last _ _ => hend params last

theorem classHead_lands (cursor : Cursor) :
    Lands cursor (classHead cursor) := by
  refine (Lands.identifier _ cursor).andThen fun name next _ _ => ?_
  have hend (parent : Option Expr) (last : Cursor) :
      Lands last ((expect .leftBrace .classBodyStart >>= fun _ =>
        pure (name, parent)) last) :=
    (Lands.expect (by simp) _ last).andThen fun _ last _ _ => .pure _ last
  refine Lands.accept (by simp) (fun sign behind hsign => ?_) ?_
  · refine Lands.after ?_ (hsign.passed (by simp))
    refine (Lands.identifier _ behind).andThen fun _ next _ _ => ?_
    refine (Lands.freshId next).andThen fun _ next _ _ => ?_
    exact (Lands.pure _ next).andThen fun parent last _ _ => hend parent last
  · exact (Lands.pure none next).andThen fun parent last _ _ =>
      hend parent last

theorem functionHead_length {role : FunctionRole} {cursor next : Cursor}
    {head : Ident × List Ident} (h : functionHead role cursor = .ok head next) :
    next.rest.length < cursor.rest.length := by
  obtain ⟨token, opening, ts, closing, bodyOpening, hrest, -⟩ :=
    functionHead_sound h
  rw [hrest]
  simp only [List.length_cons, List.length_append]
  omega

/-! ## Statements and declarations -/

private theorem function_length {depth : Nat} {role : FunctionRole}
    {cursor next : Cursor} {decl : FunctionDecl}
    (h : function depth role cursor = .ok decl next) :
    next.rest.length < cursor.rest.length := by
  obtain ⟨ts, hts, d⟩ := function_sound depth role h
  cases d with
  | mk =>
      rw [hts]
      simp only [List.cons_append, List.length_cons, List.length_append]
      omega

theorem declaration_length {depth : Nat} {cursor next : Cursor} {s : Stmt}
    (hend : cursor.atEnd = false)
    (h : declaration depth cursor = .ok s next) :
    next.rest.length < cursor.rest.length := by
  obtain ⟨ts, hts, d⟩ :=
    declaration_sound depth (Cursor.ready_of_atEnd_eq_false hend) h
  have hpos := d.length_pos
  rw [hts, List.length_append]
  omega

mutual

/-- A declaration is a reading that lands, followed by a move to a boundary
if it has failed. -/
theorem declaration_resumes :
    ∀ depth cursor, 16 * cursor.rest.length + 2 ≤ depth →
      ∃ reading : Parse Stmt, declaration depth = resuming reading ∧
        Lands cursor (reading cursor)
  | 0, _, hdepth => by omega
  | depth + 1, cursor, hdepth => by
      rw [declaration]
      refine ⟨_, rfl, ?_⟩
      refine Lands.accept (by simp) (fun word next hword => ?_)
        (Lands.accept (by simp) (fun word next hword => ?_)
          (Lands.acceptVariable (fun _ next _ => variableDecl_lands next)
            (statement_lands depth cursor (by omega))))
      · have hshorter := hword.length_eq
        refine Lands.after ?_ (hword.passed (by simp))
        refine (classHead_lands next).andThen fun _ next _ hhead => ?_
        have hmethods := methods_lands depth next (by omega)
        exact hmethods.andThen fun _ next _ _ =>
          (Lands.expect (by simp) _ next).andThen fun _ last _ _ =>
            .pure _ last
      · have hshorter := hword.length_eq
        refine Lands.after ?_ (hword.passed (by simp))
        have hfunction := function_lands depth .function next (by omega)
        exact hfunction.andThen fun _ last _ _ => .pure _ last

theorem methods_lands :
    ∀ depth cursor, 16 * cursor.rest.length + 2 ≤ depth →
      Lands cursor (methods depth cursor)
  | 0, _, hdepth => by omega
  | depth + 1, cursor, hdepth => by
      rw [methods]
      refine Lands.sees (.pure _ cursor)
        (Lands.atEnd (.pure _ cursor) fun _ => ?_)
      have hmethod := function_lands depth .method cursor (by omega)
      refine hmethod.andThen fun _ next hnext _ => ?_
      have hshorter := function_length hnext
      exact (methods_lands depth next (by omega)).andThen fun _ last _ _ =>
        .pure _ last

theorem function_lands :
    ∀ depth role cursor, 16 * cursor.rest.length + 1 ≤ depth →
      Lands cursor (function depth role cursor)
  | 0, _, _, hdepth => by omega
  | depth + 1, role, cursor, hdepth => by
      rw [function]
      refine (functionHead_lands role cursor).andThen fun _ next hnext _ => ?_
      have hshorter := functionHead_length hnext
      exact (block_lands depth next (by omega)).andThen fun _ last _ _ =>
        .pure _ last

theorem statement_lands :
    ∀ depth cursor, 16 * cursor.rest.length + 1 ≤ depth →
      Lands cursor (statement depth cursor)
  | 0, _, hdepth => by omega
  | depth + 1, cursor, hdepth => by
      rw [statement]
      refine Lands.accept (by simp) (fun word next hword => ?_)
        (Lands.accept (by simp) (fun word next hword => ?_)
          (Lands.accept (by simp) (fun word next hword => ?_)
            (Lands.accept (by simp) (fun word next hword => ?_)
              (Lands.accept (by simp) (fun opening next hopening => ?_)
                (Lands.accept (by simp) (fun word next hword => ?_)
                  (expressionStmt_lands cursor))))))
      · have hshorter := hword.length_eq
        refine Lands.after ?_ (hword.passed (by simp))
        refine (forClauses_lands next).andThen fun _ next _ hlength => ?_
        have hbody := statement_lands depth next (by omega)
        exact hbody.andThen fun _ last _ _ => .pure _ last
      · have hshorter := hword.length_eq
        refine Lands.after ?_ (hword.passed (by simp))
        refine (condition_lands _ next).andThen fun _ next _ hlength => ?_
        have hthen := statement_lands depth next (by omega)
        refine hthen.andThen fun _ next _ hlength => ?_
        refine Lands.accept (by simp) (fun other behind hother => ?_)
          (.pure _ next)
        have hshorter := hother.length_eq
        refine Lands.after ?_ (hother.passed (by simp))
        have helse := statement_lands depth behind (by omega)
        exact helse.andThen fun _ last _ _ => .pure _ last
      · have hshorter := hword.length_eq
        refine Lands.after ?_ (hword.passed (by simp))
        refine (condition_lands _ next).andThen fun _ next _ hlength => ?_
        have hbody := statement_lands depth next (by omega)
        exact hbody.andThen fun _ last _ _ => .pure _ last
      · exact (returnStmt_lands next).after (hword.passed (by simp))
      · have hshorter := hopening.length_eq
        refine Lands.after ?_ (hopening.passed (by simp))
        exact (block_lands depth next (by omega)).andThen fun _ last _ _ =>
          .pure _ last
      · exact (printStmt_lands next).after (hword.passed (by simp))

theorem block_lands :
    ∀ depth cursor, 16 * cursor.rest.length + 4 ≤ depth →
      Lands cursor (block depth cursor)
  | 0, _, hdepth => by omega
  | depth + 1, cursor, hdepth => by
      rw [block]
      have hbody := blockItems_lands depth cursor (by omega)
      exact hbody.andThen fun _ next _ _ =>
        (Lands.expect (by simp) _ next).andThen fun _ last _ _ =>
          .pure _ last

theorem blockItems_lands :
    ∀ depth cursor, 16 * cursor.rest.length + 3 ≤ depth →
      Lands cursor (blockItems depth cursor)
  | 0, _, hdepth => by omega
  | depth + 1, cursor, hdepth => by
      rw [blockItems]
      refine Lands.sees (.pure _ cursor)
        (Lands.atEnd (.pure _ cursor) fun hend => ?_)
      obtain ⟨reading, hreading, hlands⟩ :=
        declaration_resumes depth cursor (by omega)
      have hstmt : Lands cursor (declaration depth cursor) := by
        rw [hreading]
        exact hlands.resuming
      refine hstmt.andThen fun _ next hnext _ => ?_
      have hshorter := declaration_length hend hnext
      exact (blockItems_lands depth next (by omega)).andThen fun _ last _ _ =>
        .pure _ last

end

/-! ## One declaration -/

/-- A reading from `cursor` has landed behind at least one token. -/
inductive Strides (cursor : Cursor) :
    EStateM.Result ParseError Cursor α → Prop where
  | ok : taken ≠ [] → Passed cursor taken next → Strides cursor (.ok a next)
  | error :
      taken ≠ [] → Passed cursor taken next → token ∈ taken ++ [next.here] →
      e.line = token.line → e.cause ≠ .tooDeep →
      Strides cursor (.error e next)

theorem Strides.lands {cursor : Cursor}
    {result : EStateM.Result ParseError Cursor α} (h : Strides cursor result) :
    Lands cursor result := by
  cases h with
  | ok _ hpassed => exact .ok hpassed
  | error _ hpassed hmem hline hcause =>
      exact .error hpassed hmem hline hcause

private theorem resuming_error {reading : Parse α} {cursor next : Cursor}
    {e : ParseError} (h : resuming reading cursor = .error e next) :
    ∃ fault, reading cursor = .error e fault ∧ next = fault.resume := by
  unfold resuming at h
  split at h
  next => cases h
  next fault hfault =>
    cases h
    exact ⟨fault, hfault, rfl⟩

theorem Cursor.atEnd_congr {cursor other : Cursor}
    (h : cursor.rest = other.rest) : cursor.atEnd = other.atEnd := by
  unfold Cursor.atEnd
  rw [h]

/-- A declaration takes a token, also where it fails: either the tokens in
front of the fault, or the token at fault itself. -/
theorem declaration_strides {depth : Nat} {cursor : Cursor}
    (hend : cursor.atEnd = false) (hdepth : cursor.depthBound ≤ depth) :
    Strides cursor (declaration depth cursor) := by
  unfold Cursor.depthBound at hdepth
  obtain ⟨reading, hreading, hlands⟩ :=
    declaration_resumes depth cursor (by omega)
  have hdeclaration := hlands.resuming
  rw [← hreading] at hdeclaration
  cases hresult : declaration depth cursor with
  | ok stmt next =>
      rw [hresult] at hdeclaration
      obtain ⟨taken, hpassed⟩ := hdeclaration.ok_passed
      refine .ok ?_ hpassed
      rintro rfl
      have hshorter := declaration_length hend hresult
      rw [hpassed.rest_eq, List.nil_append] at hshorter
      omega
  | error e next =>
      obtain ⟨fault, hfault, rfl⟩ := resuming_error (hreading ▸ hresult)
      rw [hfault] at hlands
      rw [hresult] at hdeclaration
      obtain ⟨before, hbefore⟩ := hlands.error_passed
      have hlength := hbefore.length_eq
      cases hdeclaration with
      | error hpassed hmem hline hcause =>
          refine .error ?_ hpassed hmem hline hcause
          rintro rfl
          -- Nothing was taken, so reading goes on where it has started.
          have hsame : cursor.rest = fault.resume.rest := hpassed.rest_eq
          cases hfaultEnd : fault.atEnd with
          | true =>
              rw [Cursor.resume_of_atEnd hfaultEnd] at hsame
              rw [Cursor.atEnd_congr hsame, hfaultEnd] at hend
              cases hend
          | false =>
              obtain ⟨_, hresume⟩ := Cursor.resume_passed hfaultEnd
              have hmore := hresume.length_eq
              rw [← hsame, List.length_cons] at hmore
              omega

end Grammar
end LoxLang
