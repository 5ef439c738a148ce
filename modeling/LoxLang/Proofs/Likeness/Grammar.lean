import LoxLang.Proofs.Grammar.Rounds

/-!
# Reading alike tokens

Tokens that differ only in their lines are read into trees that are alike, or
fail at the same places for the same reasons.  Where the numbering of places
starts makes no other difference than a shift of all numbers.
-/

namespace LoxLang

structure ParseError.Alike (like : Likeness) (e e' : ParseError) : Prop where
  cause : e.cause = e'.cause
  line : like.line e.line e'.line

/-- The next places after two related ones are related as well. -/
def Likeness.Counts (like : Likeness) : Prop :=
  ∀ ⦃id id'⦄, like.place id id' → like.place (id + 1) (id' + 1)

namespace Grammar

structure Cursor.Alike (like : Likeness) (c c' : Cursor) : Prop where
  previous : c.previous.Alike like c'.previous
  rest : List.Forall₂ (Token.Alike like) c.rest c'.rest
  nextId : like.place c.nextId c'.nextId

namespace Cursor.Alike

variable {like : Likeness} {c c' : Cursor}

theorem atEnd (h : c.Alike like c') : c.atEnd = c'.atEnd := by
  obtain ⟨previous, rest, nextId⟩ := c
  obtain ⟨previous', rest', nextId'⟩ := c'
  cases h.rest with
  | nil => rfl
  | cons htoken _ => simp only [Cursor.atEnd, htoken.kind]

theorem here (h : c.Alike like c') : c.here.Alike like c'.here := by
  obtain ⟨previous, rest, nextId⟩ := c
  obtain ⟨previous', rest', nextId'⟩ := c'
  cases h.rest with
  | nil => exact h.previous
  | cons htoken _ => exact htoken

theorem sees (h : c.Alike like c') (kind : Token.Kind) :
    c.sees kind = c'.sees kind := by
  simp only [Cursor.sees, h.atEnd, h.here.kind]

theorem advance (h : c.Alike like c') : c.advance.Alike like c'.advance := by
  obtain ⟨previous, rest, nextId⟩ := c
  obtain ⟨previous', rest', nextId'⟩ := c'
  cases h.rest with
  | nil => exact h
  | cons htoken hrest =>
      simp only [Cursor.advance, htoken.kind]
      split
      · exact h
      · exact ⟨htoken, hrest, h.nextId⟩

private theorem skipToBoundary
    {previous previous' : Token} {rest rest' : List Token}
    (hprevious : previous.Alike like previous')
    (hrest : List.Forall₂ (Token.Alike like) rest rest') :
    (Grammar.skipToBoundary previous rest).1.Alike like
        (Grammar.skipToBoundary previous' rest').1 ∧
      List.Forall₂ (Token.Alike like) (Grammar.skipToBoundary previous rest).2
        (Grammar.skipToBoundary previous' rest').2 := by
  induction hrest generalizing previous previous' with
  | nil => exact ⟨hprevious, .nil⟩
  | cons htoken hrest ih =>
      simp only [Grammar.skipToBoundary, htoken.kind, hprevious.kind]
      split
      · exact ⟨hprevious, .cons htoken hrest⟩
      · exact ih htoken

private theorem resume (h : c.Alike like c') :
    c.resume.Alike like c'.resume := by
  have hnext := h.advance
  have hskip := skipToBoundary hnext.previous hnext.rest
  exact ⟨hskip.1, hskip.2, hnext.nextId⟩

end Cursor.Alike

/-- Two readings of alike tokens. -/
def Pairing.alike (like : Likeness) : Pairing where
  places := Cursor.Alike like
  failures e c e' c' := e.Alike like e' ∧ c.Alike like c'
  like := like

theorem Pairing.alike_resumes {like : Likeness} (hcounts : like.Counts) :
    (Pairing.alike like).Resumes where
  ne_eof _ hkind := hkind
  sees _ _ kind h _ := h.sees kind
  take _ _ _ h _ _ := ⟨h.here, h.advance⟩
  nextId _ _ h := h.nextId
  count _ _ h := ⟨h.previous, h.rest, hcounts h.nextId⟩
  failHere _ _ cause h := ⟨⟨rfl, h.here.line⟩, h⟩
  missing _ _ h := by
    refine ⟨⟨?_, h.here.line⟩, h⟩
    simp only [Cursor.missing, h.here.kind, h.here.lexeme]
  target _ _ _ _ h hline := ⟨⟨rfl, hline⟩, h⟩
  atEnd _ _ h := h.atEnd
  places_of_failures _ _ _ _ h := h.2
  resume _ _ _ _ h := ⟨h.1, h.2.resume⟩

/-! ## Whole readings -/

structure Reading.Alike (like : Likeness) (a b : Reading) : Prop where
  statements : Stmt.AllAlike like a.statements b.statements
  errors : List.Forall₂ (ParseError.Alike like) a.errors b.errors
  nextId : like.place a.nextId b.nextId

section
variable {like : Likeness}

theorem declarations_alike
    {c c' : Cursor} {bound bound' : Nat} (hcounts : like.Counts)
    (h : c.Alike like c') (hbound : c.rest.length ≤ bound)
    (hbound' : c'.rest.length ≤ bound') :
    (declarations bound c).Alike like (declarations bound' c') := by
  obtain ⟨hstatements, herrors, hnextId⟩ :=
    declarations_keeps (Pairing.alike_resumes hcounts)
      (List.Forall₂.nil : List.Forall₂ (ParseError.Alike like) [] [])
      (fun _ _ _ _ _ _ hfailures _ hlists => .cons hfailures.1 hlists)
      bound bound' c c' h hbound hbound'
  exact ⟨hstatements, herrors, hnextId⟩

/-- Alike tokens give alike readings. -/
theorem read_alike
    {tokens tokens' : List Token} {firstId firstId' : PlaceId}
    (hcounts : like.Counts)
    (htokens : List.Forall₂ (Token.Alike like) tokens tokens')
    (hfirst : like.place firstId firstId') (hstart : like.line 0 0) :
    (read tokens firstId).Alike like (read tokens' firstId') :=
  declarations_alike hcounts ⟨⟨rfl, rfl, hstart⟩, htokens, hfirst⟩
    (Nat.le_refl _) (Nat.le_refl _)

end

/-- The places that are equally far from two first ones. -/
def Shifted (firstId firstId' id id' : Nat) : Prop :=
  ∃ k, id = firstId + k ∧ id' = firstId' + k

theorem shifted_counts (firstId firstId' : PlaceId) :
    (Likeness.places (Shifted firstId firstId')).Counts := by
  rintro id id' ⟨k, rfl, rfl⟩
  exact ⟨k + 1, rfl, rfl⟩

/-- The same tokens, numbered from two first places on. -/
theorem read_shifted (tokens : List Token) (firstId firstId' : PlaceId) :
    (read tokens firstId).Alike (.places (Shifted firstId firstId'))
      (read tokens firstId') := by
  refine read_alike (shifted_counts firstId firstId') ?_ ⟨0, rfl, rfl⟩ rfl
  exact List.forall₂_same.mpr fun token _ => ⟨rfl, rfl, rfl⟩

theorem firstId_le_nextId (tokens : List Token) (firstId : PlaceId) :
    firstId ≤ (read tokens firstId).nextId := by
  obtain ⟨k, hk, -⟩ := (read_shifted tokens firstId firstId).nextId
  exact hk ▸ Nat.le_add_right firstId k

end Grammar
end LoxLang
