import Mathlib.Data.List.TakeWhile
import LoxLang.Token.Scan

/-!
# The lines of a scan

A scan counts a line break where it stands between tokens, and it counts those
inside of a string.  The other pieces hold none, a comment least of all, so that
every line break of the text is counted, and counted once.
-/

namespace LoxLang
namespace Token

section
variable {c : Char} {rest : List Char} {piece : Piece} {extra : Nat}

theorem take_takeWhile_length (p : Char → Bool) (rest : List Char) :
    rest.take (rest.takeWhile p).length = rest.takeWhile p :=
  (List.prefix_iff_eq_take.mp (List.takeWhile_prefix p)).symm

theorem drop_takeWhile_length (p : Char → Bool) (rest : List Char) :
    rest.drop (rest.takeWhile p).length = rest.dropWhile p := by
  have hsplit := @List.takeWhile_append_dropWhile _ p rest
  have hsplit' := List.take_append_drop (rest.takeWhile p).length rest
  rw [take_takeWhile_length] at hsplit'
  exact List.append_cancel_left (hsplit'.trans hsplit.symm)

theorem not_mem_takeWhile
    {p : Char → Bool} {d : Char} (hp : p d = false) (rest : List Char) :
    d ∉ rest.takeWhile p := by
  intro hmem
  rw [List.mem_takeWhile_imp hmem] at hp
  cases hp

/-- The fraction of a number is a point with digits behind it. -/
theorem take_fractionDigits (rest : List Char) :
    let fraction := fractionDigits rest
    rest.take (if fraction.isEmpty then 0 else fraction.length + 1) =
      if fraction.isEmpty then [] else '.' :: fraction := by
  unfold fractionDigits
  split
  · dsimp only
    split
    · rfl
    · rw [List.take_succ_cons, take_takeWhile_length]
  · rfl

/-- The text of a number: digits, and the fraction if there is one. -/
theorem take_munchNumber (c : Char) (rest : List Char) :
    let fraction := fractionDigits (rest.dropWhile Char.isDigit)
    rest.take (munchNumber c rest).2 =
      rest.takeWhile Char.isDigit ++
        if fraction.isEmpty then [] else '.' :: fraction := by
  dsimp only [munchNumber]
  rw [List.take_add, take_takeWhile_length, drop_takeWhile_length,
    take_fractionDigits]

private theorem lineBreak_not_mem_fractionDigits (rest : List Char) :
    '\n' ∉ fractionDigits rest := by
  unfold fractionDigits
  split
  · exact not_mem_takeWhile rfl _
  · exact List.not_mem_nil

private theorem lineBreak_not_mem_munchNumber (c : Char) (rest : List Char) :
    '\n' ∉ rest.take (munchNumber c rest).2 := by
  rw [take_munchNumber]
  intro hmem
  rcases List.mem_append.mp hmem with hwhole | hfraction
  · exact not_mem_takeWhile rfl _ hwhole
  · split at hfraction
    · exact List.not_mem_nil hfraction
    · rcases List.mem_cons.mp hfraction with hpoint | hdigits
      · cases hpoint
      · exact lineBreak_not_mem_fractionDigits _ hdigits

private theorem lineBreak_not_mem_munchMark (c : Char) (rest : List Char) :
    '\n' ∉ rest.take (munchMark c rest).2 := by
  unfold munchMark
  split
  · rename_i kind hmark
    obtain ⟨d, hhead, hdouble⟩ := Option.bind_eq_some_iff.mp hmark
    obtain ⟨tail, rfl⟩ := List.head?_eq_some_iff.mp hhead
    intro hmem
    rw [List.take_succ_cons, List.take_zero, List.mem_singleton] at hmem
    subst hmem
    unfold doubleMark? at hdouble
    split at hdouble <;> simp_all
  · split <;> simp

/-- Only a line break itself and a string can hold a line break. -/
theorem lineBreak_not_mem_piece
    (h : munch c rest = (piece, extra)) (hbreak : c ≠ '\n')
    (hquote : c ≠ '"') : '\n' ∉ c :: rest.take extra := by
  have hextra : extra = (munch c rest).2 := by rw [h]
  subst hextra
  refine List.not_mem_cons_of_ne_of_not_mem hbreak.symm ?_
  simp only [munch, hquote, if_false]
  split
  · simp
  split
  · rw [take_takeWhile_length]
    exact not_mem_takeWhile rfl _
  split
  · exact lineBreak_not_mem_munchNumber c rest
  split
  · dsimp only [munchWord]
    rw [take_takeWhile_length]
    exact not_mem_takeWhile rfl _
  · exact lineBreak_not_mem_munchMark c rest

theorem munch_lineBreak (rest : List Char) : munch '\n' rest = (.gap, 0) :=
  rfl

/-- All line breaks of a piece are counted. -/
theorem lineBreaks_eq (h : munch c rest = (piece, extra)) :
    lineBreaks c rest extra = (c :: rest.take extra).count '\n' := by
  unfold lineBreaks
  split
  · rename_i hbreak
    subst hbreak
    cases h
    simp
  split
  · rename_i hbreak hquote
    rw [List.count_cons_of_ne hbreak]
  · rename_i hbreak hquote
    exact (List.count_eq_zero.mpr
      (lineBreak_not_mem_piece h hbreak hquote)).symm

end

/-! ## The items, with the lines of their text -/

section
variable {c : Char} {rest : List Char} {extra : Nat}

theorem scanFrom_gap (h : munch c rest = (.gap, extra)) (line : Nat) :
    scanFrom line (c :: rest) =
      scanFrom (line + (c :: rest.take extra).count '\n')
        (rest.drop extra) := by
  rw [scanFrom, h, ← lineBreaks_eq h]

theorem scanFrom_token
    {kind : Kind} (h : munch c rest = (.token kind, extra)) (line : Nat) :
    scanFrom line (c :: rest) =
      .ok ⟨kind, String.ofList (c :: rest.take extra),
          line + (c :: rest.take extra).count '\n'⟩ ::
        scanFrom (line + (c :: rest.take extra).count '\n')
          (rest.drop extra) := by
  rw [scanFrom, h, ← lineBreaks_eq h]

theorem scanFrom_error
    {cause : LexError.Cause} (h : munch c rest = (.error cause, extra))
    (line : Nat) :
    scanFrom line (c :: rest) =
      .error ⟨cause, line + (c :: rest.take extra).count '\n'⟩ ::
        scanFrom (line + (c :: rest.take extra).count '\n')
          (rest.drop extra) := by
  rw [scanFrom, h, ← lineBreaks_eq h]

end

/-- Induction along a scan, piece by piece. -/
@[elab_as_elim]
theorem scanFrom_induction
    {motive : Nat → List Char → Prop}
    (stop : ∀ line, motive line [])
    (gap : ∀ line c rest extra, munch c rest = (.gap, extra) →
      motive (line + (c :: rest.take extra).count '\n') (rest.drop extra) →
      motive line (c :: rest))
    (token : ∀ line c rest extra kind,
      munch c rest = (.token kind, extra) →
      motive (line + (c :: rest.take extra).count '\n') (rest.drop extra) →
      motive line (c :: rest))
    (error : ∀ line c rest extra cause,
      munch c rest = (.error cause, extra) →
      motive (line + (c :: rest.take extra).count '\n') (rest.drop extra) →
      motive line (c :: rest))
    (line : Nat) (text : List Char) : motive line text := by
  induction line, text using scanFrom.induct with
  | case1 line => exact stop line
  | case2 line c rest extra lineAfter hmunch ih =>
      have hlines := lineBreaks_eq hmunch
      exact gap line c rest extra hmunch (hlines ▸ ih)
  | case3 line c rest extra lineAfter kind hmunch ih =>
      have hlines := lineBreaks_eq hmunch
      exact token line c rest extra kind hmunch (hlines ▸ ih)
  | case4 line c rest extra lineAfter cause hmunch ih =>
      have hlines := lineBreaks_eq hmunch
      exact error line c rest extra cause hmunch (hlines ▸ ih)

end Token
end LoxLang
