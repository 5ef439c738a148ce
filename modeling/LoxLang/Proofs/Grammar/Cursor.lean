import LoxLang.Proofs.Coupling
import LoxLang.Proofs.Grammar.Derivation

/-!
# What the reading actions do

Each action on a cursor is described by its effect on the tokens still to
come.  The lemmas named `..._ok` open a reading that has succeeded; those
named `..._eq` carry out a reading whose next token is known.
-/

namespace LoxLang
namespace Grammar

/-- No token of the given kinds comes next. -/
def Avoids (kinds : Token.Kind → Prop) (tokens : List Token) : Prop :=
  ∀ token ∈ tokens.head?, ¬ kinds token.kind

theorem avoids_cons {kinds : Token.Kind → Prop} {token : Token}
    {tokens : List Token} :
    Avoids kinds (token :: tokens) ↔ ¬ kinds token.kind := by
  simp [Avoids]

theorem Avoids.mono {kinds others : Token.Kind → Prop}
    {tokens : List Token} (h : Avoids others tokens)
    (hsub : ∀ kind, kinds kind → others kind) : Avoids kinds tokens :=
  fun token hmem hkind => h token hmem (hsub _ hkind)

/-! ## Looking at the next token -/

theorem Cursor.sees_eq_true_iff {cursor : Cursor} {kind : Token.Kind}
    (hkind : kind ≠ .eof) :
    cursor.sees kind = true ↔
      ∃ token rest, cursor.rest = token :: rest ∧ token.kind = kind := by
  obtain ⟨previous, rest, nextId⟩ := cursor
  cases rest with
  | nil => simp [Cursor.sees, Cursor.atEnd]
  | cons token rest =>
      simp only [Cursor.sees, Cursor.atEnd, Cursor.here, List.headD_cons,
        Bool.and_eq_true, Bool.not_eq_true', decide_eq_false_iff_not,
        List.cons.injEq]
      constructor
      · rintro ⟨-, h⟩
        exact ⟨token, rest, ⟨rfl, rfl⟩, of_decide_eq_true h⟩
      · rintro ⟨_, _, ⟨rfl, rfl⟩, h⟩
        exact ⟨fun heof => hkind (h.symm.trans heof), decide_eq_true h⟩

theorem Cursor.sees_eq_false_iff {cursor : Cursor} {kind : Token.Kind}
    (hkind : kind ≠ .eof) :
    cursor.sees kind = false ↔ Avoids (· = kind) cursor.rest := by
  rw [← Bool.not_eq_true, Cursor.sees_eq_true_iff hkind]
  constructor
  · intro h token hmem htoken
    obtain ⟨rest, hrest⟩ := List.head?_eq_some_iff.mp hmem
    exact h ⟨token, rest, hrest, htoken⟩
  · rintro h ⟨token, rest, hrest, htoken⟩
    exact h token (by simp [hrest]) htoken

theorem Cursor.advance_cons {previous token : Token} {rest : List Token}
    {nextId : PlaceId} (h : token.kind ≠ .eof) :
    (⟨previous, token :: rest, nextId⟩ : Cursor).advance =
      ⟨token, rest, nextId⟩ := by
  simp [Cursor.advance, h]

theorem Cursor.atEnd_cons {previous token : Token} {rest : List Token}
    {nextId : PlaceId} :
    (⟨previous, token :: rest, nextId⟩ : Cursor).atEnd =
      decide (token.kind = .eof) := rfl

theorem Cursor.sees_cons {previous token : Token} {rest : List Token}
    {nextId : PlaceId} {kind : Token.Kind}
    (hkind : kind ≠ .eof) (h : token.kind = kind) :
    (⟨previous, token :: rest, nextId⟩ : Cursor).sees kind = true :=
  (Cursor.sees_eq_true_iff hkind).mpr ⟨token, rest, rfl, h⟩

theorem sees_eq_true {previous token : Token} {rest : List Token}
    {nextId : PlaceId} {kind : Token.Kind}
    (hkind : kind ≠ .eof) (h : token.kind = kind) :
    sees kind ⟨previous, token :: rest, nextId⟩ =
      .ok true ⟨previous, token :: rest, nextId⟩ := by
  unfold sees
  rw [Cursor.sees_cons hkind h]

theorem sees_eq_false {cursor : Cursor} {kind : Token.Kind}
    (hkind : kind ≠ .eof) (h : Avoids (· = kind) cursor.rest) :
    sees kind cursor = .ok false cursor := by
  unfold sees
  rw [(Cursor.sees_eq_false_iff hkind).mpr h]

/-! ## Reading one token -/

/-- The cursor `next` is one token, of the given kind, behind `cursor`. -/
structure Took (kind : Token.Kind) (cursor : Cursor) (token : Token)
    (next : Cursor) : Prop where
  rest_eq : cursor.rest = token :: next.rest
  kind_eq : token.kind = kind
  previous_eq : next.previous = token
  nextId_eq : next.nextId = cursor.nextId

theorem took_of_sees {cursor : Cursor} {kind : Token.Kind}
    (hkind : kind ≠ .eof) (h : cursor.sees kind = true) :
    Took kind cursor cursor.here cursor.advance := by
  obtain ⟨token, rest, hrest, htoken⟩ :=
    (Cursor.sees_eq_true_iff hkind).mp h
  have hne : token.kind ≠ .eof := fun heof => hkind (htoken.symm.trans heof)
  obtain ⟨previous, tokens, nextId⟩ := cursor
  change tokens = token :: rest at hrest
  subst hrest
  rw [Cursor.advance_cons hne]
  exact ⟨rfl, htoken, rfl, rfl⟩

theorem accept_ok {cursor next : Cursor} {kind : Token.Kind} {b : Bool}
    (hkind : kind ≠ .eof) (h : accept kind cursor = .ok b next) :
    (b = true ∧ ∃ token, Took kind cursor token next) ∨
      (b = false ∧ cursor = next ∧ Avoids (· = kind) cursor.rest) := by
  unfold accept at h
  split at h
  next hsees =>
    cases h
    exact .inl ⟨rfl, cursor.here, took_of_sees hkind hsees⟩
  next hsees =>
    cases h
    refine .inr ⟨rfl, rfl, (Cursor.sees_eq_false_iff hkind).mp ?_⟩
    simpa using hsees

theorem accept_eq_true {previous token : Token} {rest : List Token}
    {nextId : PlaceId} {kind : Token.Kind}
    (hkind : kind ≠ .eof) (h : token.kind = kind) :
    accept kind ⟨previous, token :: rest, nextId⟩ =
      .ok true ⟨token, rest, nextId⟩ := by
  have hne : token.kind ≠ .eof := fun heof => hkind (h.symm.trans heof)
  unfold accept
  rw [if_pos (Cursor.sees_cons hkind h), Cursor.advance_cons hne]

theorem accept_eq_false {cursor : Cursor} {kind : Token.Kind}
    (hkind : kind ≠ .eof) (h : Avoids (· = kind) cursor.rest) :
    accept kind cursor = .ok false cursor := by
  unfold accept
  rw [(Cursor.sees_eq_false_iff hkind).mpr h]
  rfl

theorem expect_ok {cursor next : Cursor} {kind : Token.Kind}
    {what : ParseError.Expectation} {token : Token}
    (hkind : kind ≠ .eof) (h : expect kind what cursor = .ok token next) :
    Took kind cursor token next := by
  unfold expect at h
  split at h
  next hsees =>
    cases h
    exact took_of_sees hkind hsees
  next => cases h

theorem expect_eq {previous token : Token} {rest : List Token}
    {nextId : PlaceId} {kind : Token.Kind} {what : ParseError.Expectation}
    (hkind : kind ≠ .eof) (h : token.kind = kind) :
    expect kind what ⟨previous, token :: rest, nextId⟩ =
      .ok token ⟨token, rest, nextId⟩ := by
  have hne : token.kind ≠ .eof := fun heof => hkind (h.symm.trans heof)
  unfold expect
  rw [if_pos (Cursor.sees_cons hkind h), Cursor.advance_cons hne]
  rfl

theorem identifier_eq {previous token : Token} {rest : List Token}
    {nextId : PlaceId} {what : ParseError.Expectation}
    (h : token.kind = .identifier) :
    identifier what ⟨previous, token :: rest, nextId⟩ =
      .ok token.ident ⟨token, rest, nextId⟩ := by
  unfold identifier
  rw [bind_eq (expect_eq (by simp) h)]
  rfl

theorem acceptWhere_ok {choose : Token.Kind → Option α}
    {cursor next : Cursor} {chosen : Option α}
    (h : acceptWhere choose cursor = .ok chosen next) :
    (∃ a token, chosen = some a ∧ choose token.kind = some a ∧
        Took token.kind cursor token next) ∨
      (chosen = none ∧ cursor = next) := by
  obtain ⟨previous, tokens, nextId⟩ := cursor
  unfold acceptWhere at h
  split at h
  next =>
    cases h
    exact .inr ⟨rfl, rfl⟩
  next hend =>
    cases tokens with
    | nil => simp [Cursor.atEnd] at hend
    | cons token rest =>
        have hne : token.kind ≠ .eof := by
          simpa [Cursor.atEnd_cons] using hend
        simp only [Cursor.here, List.headD_cons] at h
        split at h
        next a ha =>
          rw [Cursor.advance_cons hne] at h
          cases h
          exact .inl ⟨a, token, rfl, ha, rfl, rfl, rfl, rfl⟩
        next =>
          cases h
          exact .inr ⟨rfl, rfl⟩

theorem acceptWhere_eq_some {choose : Token.Kind → Option α}
    {previous token : Token} {rest : List Token} {nextId : PlaceId} {a : α}
    (hne : token.kind ≠ .eof) (h : choose token.kind = some a) :
    acceptWhere choose ⟨previous, token :: rest, nextId⟩ =
      .ok (some a) ⟨token, rest, nextId⟩ := by
  unfold acceptWhere
  rw [Cursor.atEnd_cons, if_neg (by simpa using hne),
    Cursor.advance_cons hne]
  simp only [Cursor.here, List.headD_cons, h]

theorem acceptWhere_eq_none {choose : Token.Kind → Option α}
    {cursor : Cursor}
    (h : Avoids (fun kind => (choose kind).isSome) cursor.rest) :
    acceptWhere choose cursor = .ok none cursor := by
  obtain ⟨previous, tokens, nextId⟩ := cursor
  unfold acceptWhere
  split
  next => rfl
  next hend =>
    cases tokens with
    | nil => simp [Cursor.atEnd] at hend
    | cons token rest =>
        have hnone : choose token.kind = none := by
          simpa using avoids_cons.mp h
        simp only [Cursor.here, List.headD_cons, hnone]

/-! ## Choices by the next token -/

section
variable {cursor next : Cursor} {yes no : Parse α}

theorem choose_then {choice : Parse Bool} (h : choice cursor = .ok true next) :
    (choice >>= fun b => if b = true then yes else no) cursor = yes next := by
  rw [bind_eq h, if_pos rfl]

theorem choose_else {choice : Parse Bool} (h : choice cursor = .ok false next) :
    (choice >>= fun b => if b = true then yes else no) cursor = no next := by
  rw [bind_eq h, if_neg (by simp)]

theorem accept_else {kind : Token.Kind}
    (h : Avoids (· = kind) cursor.rest) (hkind : kind ≠ .eof) :
    (accept kind >>= fun b => if b = true then yes else no) cursor =
      no cursor :=
  choose_else (accept_eq_false hkind h)

theorem sees_else {kind : Token.Kind}
    (h : Avoids (· = kind) cursor.rest) (hkind : kind ≠ .eof) :
    (sees kind >>= fun b => if b = true then yes else no) cursor =
      no cursor :=
  choose_else (sees_eq_false hkind h)

/-- Either the token was there and was taken, or it was not there. -/
theorem accept_inv {kind : Token.Kind} {a : α} (hkind : kind ≠ .eof)
    (h : (accept kind >>= fun b => if b = true then yes else no) cursor =
      .ok a next) :
    (∃ token mid, Took kind cursor token mid ∧ yes mid = .ok a next) ∨
      (Avoids (· = kind) cursor.rest ∧ no cursor = .ok a next) := by
  obtain ⟨b, mid, hb, h⟩ := bind_ok h
  rcases accept_ok hkind hb with ⟨rfl, token, htook⟩ | ⟨rfl, rfl, havoids⟩
  · exact .inl ⟨token, mid, htook, h⟩
  · exact .inr ⟨havoids, h⟩

theorem sees_inv {kind : Token.Kind} {a : α}
    (h : (sees kind >>= fun b => if b = true then yes else no) cursor =
      .ok a next) :
    yes cursor = .ok a next ∨ no cursor = .ok a next := by
  change (if cursor.sees kind = true then yes else no) cursor = _ at h
  split at h
  · exact .inl h
  · exact .inr h

theorem expect_inv {kind : Token.Kind} {what : ParseError.Expectation}
    {f : Token → Parse α} {a : α} (hkind : kind ≠ .eof)
    (h : (expect kind what >>= f) cursor = .ok a next) :
    ∃ token mid, Took kind cursor token mid ∧ f token mid = .ok a next := by
  obtain ⟨token, mid, htoken, h⟩ := bind_ok h
  exact ⟨token, mid, expect_ok hkind htoken, h⟩

theorem identifier_inv {what : ParseError.Expectation} {f : Ident → Parse α}
    {a : α} (h : (identifier what >>= f) cursor = .ok a next) :
    ∃ token mid, Took .identifier cursor token mid ∧
      f token.ident mid = .ok a next := by
  obtain ⟨name, mid, hname, h⟩ := bind_ok h
  unfold identifier at hname
  obtain ⟨token, last, htoken, hname⟩ := expect_inv (by simp) hname
  obtain ⟨rfl, rfl⟩ := pure_ok hname
  exact ⟨token, last, htoken, h⟩

variable {previous token : Token} {rest : List Token} {nextId : PlaceId}
variable {kind wanted : Token.Kind}

theorem accept_then (h : token.kind = kind) (hkind : kind ≠ .eof) :
    (accept kind >>= fun b => if b = true then yes else no)
      ⟨previous, token :: rest, nextId⟩ = yes ⟨token, rest, nextId⟩ :=
  choose_then (accept_eq_true hkind h)

theorem sees_then (h : token.kind = kind) (hkind : kind ≠ .eof) :
    (sees kind >>= fun b => if b = true then yes else no)
      ⟨previous, token :: rest, nextId⟩ =
      yes ⟨previous, token :: rest, nextId⟩ :=
  choose_then (sees_eq_true hkind h)

private theorem avoids_other (h : token.kind = kind) (hne : kind ≠ wanted) :
    Avoids (· = wanted) (token :: rest) := by
  rw [avoids_cons, h]
  exact hne

theorem accept_past
    (h : token.kind = kind) (hwanted : wanted ≠ .eof) (hne : kind ≠ wanted) :
    (accept wanted >>= fun b => if b = true then yes else no)
      ⟨previous, token :: rest, nextId⟩ =
      no ⟨previous, token :: rest, nextId⟩ :=
  accept_else (avoids_other h hne) hwanted

theorem sees_past
    (h : token.kind = kind) (hwanted : wanted ≠ .eof) (hne : kind ≠ wanted) :
    (sees wanted >>= fun b => if b = true then yes else no)
      ⟨previous, token :: rest, nextId⟩ =
      no ⟨previous, token :: rest, nextId⟩ :=
  sees_else (avoids_other h hne) hwanted

end

/-! ## Where expressions start -/

/-- An expression can start here: if the tokens are at their end without an end
mark, then the last one is no number and no text, which would be read again. -/
def Cursor.Ready (cursor : Cursor) : Prop :=
  cursor.rest = [] → holdsValue cursor.previous.kind = false

theorem Took.ready {kind : Token.Kind} {cursor next : Cursor} {token : Token}
    (h : Took kind cursor token next) (hkind : holdsValue kind = false) :
    next.Ready := by
  intro _
  rw [h.previous_eq, h.kind_eq, hkind]

theorem Cursor.ready_cons {previous token : Token} {rest : List Token}
    {nextId : PlaceId} : Cursor.Ready ⟨previous, token :: rest, nextId⟩ :=
  nofun

theorem Cursor.ready_of_atEnd_eq_false {cursor : Cursor}
    (h : cursor.atEnd = false) : cursor.Ready := by
  intro hrest
  unfold Cursor.atEnd at h
  rw [hrest] at h
  cases h

/-- Where an expression can start, a constant is read like any other token. -/
theorem constant_eq_acceptWhere {cursor : Cursor} (h : cursor.Ready) :
    constant cursor = acceptWhere constant? cursor := by
  unfold constant acceptWhere
  cases hend : cursor.atEnd with
  | false => cases constant? cursor.here.kind <;> rfl
  | true =>
      have hplain : holdsValue cursor.here.kind = false := by
        obtain ⟨previous, tokens, nextId⟩ := cursor
        cases tokens with
        | nil => exact h rfl
        | cons token tokens =>
            have heof : token.kind = .eof := by
              simpa [Cursor.atEnd_cons] using hend
            change holdsValue token.kind = false
            rw [heof]
            rfl
      rw [hplain]
      rfl

end Grammar
end LoxLang
