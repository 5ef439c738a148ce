import Mathlib.Data.List.Forall2
import LoxLang.Proofs.Token.Munch

/-!
# Spaces between tokens

A space ends every lexeme of a token, and what stands behind it is not looked
at.  So the tokens of a text can be written again with single spaces between
them, and a character that belongs to no token can give way to a space: the
tokens are read as before.
-/

namespace LoxLang
namespace Token

/-! ## Lexemes in front of a space -/

section
variable {c : Char} {text rest front : List Char} {piece : Piece} {kind : Kind}

/-- What is longest in front of a text is longest in front of a part of it. -/
theorem IsLongest.of_prefix
    (h : IsLongest text piece rest) (hfront : front <+: rest) :
    IsLongest text piece front where
  lexeme := h.lexeme
  longest other otherPiece hother hfits :=
    h.longest other otherPiece hother
      (hfits.trans ((List.prefix_append_right_inj text).mpr hfront))

theorem Lexeme.isLongest_alone (h : Lexeme text piece) :
    IsLongest text piece [] where
  lexeme := h
  longest other _ _ hfits := by
    rw [List.append_nil] at hfits
    exact hfits.length_le

theorem Lexeme.ne_eof (h : Lexeme text (.token kind)) : kind ≠ .eof := by
  obtain ⟨c, tail, rfl⟩ := h.exists_cons
  exact (munch_kind h.isLongest_alone.munch_eq).1

/-- A space can stand anywhere behind a lexeme. -/
theorem IsLongest.munch_space
    (h : IsLongest (c :: text) (.token kind) rest) (hfront : front <+: rest)
    (tail : List Char) :
    munch c (text ++ (front ++ ' ' :: tail)) = (.token kind, text.length) := by
  have hmunch := (h.of_prefix hfront).munch_eq
  rw [← List.append_assoc, munch_joined rfl, hmunch]
  · rw [hmunch]
    simp
  · rw [hmunch]
    simp

/-- A line break can stand right behind any lexeme. -/
theorem Lexeme.munch_break (h : Lexeme (c :: text) piece) (tail : List Char) :
    munch c (text ++ '\n' :: tail) = (piece, text.length) := by
  have hmunch := h.isLongest_alone.munch_eq
  rw [List.append_nil] at hmunch
  rw [munch_joined rfl _ (.inl rfl), hmunch]
  rw [hmunch]
  exact h.ne_error _

end

/-! ## Tokens written again -/

/-- The token is the same, maybe on another line. -/
structure SameText (token other : Token) : Prop where
  kind : token.kind = other.kind
  lexeme : token.lexeme = other.lexeme

/-- The text has these tokens and no errors. -/
def HasTokens (text : String) (tokens : List Token) : Prop :=
  ∃ again, ofSource text = .ok again ∧ List.Forall₂ SameText tokens again

/-- The lexemes of some tokens with single spaces between them. -/
def spaced (tokens : List Token) : String :=
  " ".intercalate (tokens.map Token.lexeme)

def spacedChars (tokens : List Token) : List Char :=
  [' '].intercalate (tokens.map fun token => token.lexeme.toList)

theorem toList_spaced (tokens : List Token) :
    (spaced tokens).toList = spacedChars tokens := by
  rw [spaced, spacedChars, String.toList_intercalate, List.map_map]
  rfl

theorem spacedChars_cons_cons (token next : Token) (tokens : List Token) :
    spacedChars (token :: next :: tokens) =
      token.lexeme.toList ++ ' ' :: spacedChars (next :: tokens) := by
  unfold spacedChars
  rw [List.map_cons, List.map_cons, List.intercalate_cons_cons,
    List.append_assoc]
  rfl

/-- The items are these tokens, each on some line. -/
def Finds (items : List Item) (tokens : List Token) : Prop :=
  List.Forall₂
    (fun token item => ∃ line, item = .ok { token with line := line })
    tokens items

theorem Finds.tokensOf_same
    {items : List Item} {tokens : List Token} (h : Finds items tokens) :
    errorsOf items = [] ∧ List.Forall₂ SameText tokens (tokensOf items) := by
  induction h with
  | nil => exact ⟨rfl, .nil⟩
  | cons hfirst _ ih =>
      obtain ⟨line, rfl⟩ := hfirst
      exact ⟨ih.1, .cons ⟨rfl, rfl⟩ ih.2⟩

theorem Finds.hasTokens
    {source : String} {tokens : List Token}
    (h : Finds (scan source) tokens) : HasTokens source tokens := by
  obtain ⟨hclean, hsame⟩ := h.tokensOf_same
  exact ⟨_, ofSource_eq_ok_iff.mpr ⟨hclean, rfl⟩, hsame⟩

section
variable {token : Token} {tokens : List Token} {rest : List Char}

/-- A lexeme that is taken whole becomes its token. -/
theorem finds_lexeme
    (hlexeme : Lexeme token.lexeme.toList (.token token.kind))
    (hmunch : ∀ c text, token.lexeme.toList = c :: text →
      munch c (text ++ rest) = (.token token.kind, text.length))
    (hrest : ∀ line, Finds (scanFrom line rest) tokens) (line : Nat) :
    Finds (scanFrom line (token.lexeme.toList ++ rest)) (token :: tokens) := by
  obtain ⟨c, text, htext⟩ := hlexeme.exists_cons
  have htoken : String.ofList (c :: text) = token.lexeme := by
    rw [← htext, String.ofList_toList]
  rw [htext, List.cons_append, scanFrom_token (hmunch c text htext)]
  simp only [List.take_left, List.drop_left, htoken]
  exact .cons ⟨_, rfl⟩ (hrest _)

private theorem scanFrom_space (line : Nat) (rest : List Char) :
    scanFrom line (' ' :: rest) = scanFrom line rest := by
  rw [scanFrom]
  rfl

/-- Lexemes with spaces between them are read again one by one.  The end mark
may be left out, or stand at the end with its empty lexeme. -/
theorem finds_spaced
    {stop : Token} {ends : List Token}
    (hstop : stop.kind = .eof ∧ stop.lexeme = "")
    (hends : ends = [] ∨ ends = [stop])
    (hlexemes : ∀ token ∈ tokens,
      Lexeme token.lexeme.toList (.token token.kind)) (line : Nat) :
    Finds (scanFrom line (spacedChars (tokens ++ ends)))
      (tokens ++ [stop]) := by
  induction tokens generalizing line with
  | nil =>
      have hempty : spacedChars ([] ++ ends) = [] := by
        rcases hends with rfl | rfl
        · rfl
        · simp [spacedChars, hstop.2]
      rw [hempty, scanFrom]
      obtain ⟨kind, lexeme, stopLine⟩ := stop
      obtain ⟨rfl, rfl⟩ := hstop
      exact .cons ⟨line, rfl⟩ .nil
  | cons token tokens ih =>
      have hlexeme := hlexemes token List.mem_cons_self
      have hrest := ih fun other hmem =>
        hlexemes other (List.mem_cons_of_mem token hmem)
      rw [List.cons_append, List.cons_append]
      cases hbehind : tokens ++ ends with
      | nil =>
          rw [hbehind] at hrest
          have hall : spacedChars [token] = token.lexeme.toList ++ [] := by
            simp [spacedChars]
          rw [hall]
          refine finds_lexeme hlexeme ?_ hrest line
          intro c text htext
          rw [htext] at hlexeme
          exact hlexeme.isLongest_alone.munch_eq
      | cons next others =>
          rw [hbehind] at hrest
          rw [spacedChars_cons_cons]
          refine finds_lexeme hlexeme ?_ ?_ line
          · intro c text htext
            rw [htext] at hlexeme
            exact hlexeme.isLongest_alone.munch_space List.prefix_rfl _
          · intro after
            rw [scanFrom_space]
            exact hrest after

end

/-- The tokens of a text without lexical errors, written with single spaces
between their lexemes, are the tokens of what is written, whether the empty
lexeme of the end mark is written as well or not. -/
theorem spaced_scans_to_same_tokens
    {source : String} {tokens : List Token}
    (h : ofSource source = .ok tokens) :
    HasTokens (spaced tokens) tokens ∧
      HasTokens (spaced tokens.dropLast) tokens := by
  obtain ⟨ts, stop, rfl, hstop, hfree, -⟩ := ofSource_eq_ok h
  have hend : stop.kind = .eof ∧ stop.lexeme = "" := by
    rcases lexeme_of_ofSource h (List.mem_append_right ts List.mem_cons_self)
      with hend | hlexeme
    · exact hend
    · exact absurd hstop hlexeme.ne_eof
  have hlexemes : ∀ token ∈ ts,
      Lexeme token.lexeme.toList (.token token.kind) := by
    intro token hmem
    rcases lexeme_of_ofSource h (List.mem_append_left [stop] hmem) with
      ⟨hkind, -⟩ | hlexeme
    · exact absurd hkind (hfree token hmem)
    · exact hlexeme
  rw [List.dropLast_concat]
  constructor
  · apply Finds.hasTokens
    unfold scan
    rw [toList_spaced]
    exact finds_spaced hend (.inr rfl) hlexemes 1
  · apply Finds.hasTokens
    unfold scan
    have hfound := finds_spaced hend (.inl rfl) hlexemes 1
    rwa [List.append_nil, ← toList_spaced] at hfound

/-- Tokens without a blank between them, and a string that looks like a
comment. -/
def crowded : String :=
  "x=1.5.y/\"a // \n b\"!==and&&// end"

theorem crowded_scans_to_same_tokens :
    ∃ tokens,
      ofSource crowded = .ok tokens ∧
      spaced tokens = "x = 1.5 . y / \"a // \n b\" != = and && " ∧
      HasTokens (spaced tokens) tokens := by
  have htokens : ofSource crowded =
      .ok [⟨.identifier, "x", 1⟩, ⟨.equal, "=", 1⟩, ⟨.number 1.5, "1.5", 1⟩,
        ⟨.dot, ".", 1⟩, ⟨.identifier, "y", 1⟩, ⟨.slash, "/", 1⟩,
        ⟨.string "a // \n b", "\"a // \n b\"", 2⟩, ⟨.bangEqual, "!=", 2⟩,
        ⟨.equal, "=", 2⟩, ⟨.andWord, "and", 2⟩, ⟨.andWord, "&&", 2⟩,
        ⟨.eof, "", 2⟩] := by
    decide +kernel
  exact ⟨_, htokens, by decide +kernel, (spaced_scans_to_same_tokens htokens).1⟩

end Token
end LoxLang
