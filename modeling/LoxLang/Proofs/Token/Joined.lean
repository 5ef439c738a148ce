import LoxLang.Proofs.Token.Words

/-!
# The tokens of two texts, one below the other

A line break ends every piece of a text but an open string.  So where a text
without lexical errors stands above another one, the tokens of both are those
of the first, without its end mark, and then those of the second, as many
lines further down as the first one takes.
-/

namespace LoxLang

/-- The token, some lines further down. -/
def Token.moved (lines : Nat) (token : Token) : Token :=
  { token with line := token.line + lines }

namespace Token

/-- The item, some lines further down. -/
def movedItem (lines : Nat) : Item → Item
  | .ok token => .ok (token.moved lines)
  | .error e => .error { e with line := e.line + lines }

/-- The lines between the start of a text and the start of one that stands
below it. -/
def linesOf (source : String) : Nat :=
  source.toList.count '\n' + 1

/-! ## Pieces in front of a gap -/

section
variable {rest : List Char} {stop : Char}

theorem takeWhile_joined
    {p : Char → Bool} (hstop : p stop = false) (rest tail : List Char) :
    (rest ++ stop :: tail).takeWhile p = rest.takeWhile p := by
  induction rest with
  | nil => simp [hstop]
  | cons c rest ih =>
      rw [List.cons_append, List.takeWhile_cons, List.takeWhile_cons, ih]

/-- A gap belongs to no other class of characters. -/
theorem eq_false_of_isGap
    {p : Char → Bool} (hgap : isGap stop = true)
    (hp : [' ', '\r', '\t', '\n'].any p = false) : p stop = false := by
  have hmem : stop ∈ [' ', '\r', '\t', '\n'] := by
    simpa [isGap, or_assoc] using hgap
  rw [List.any_eq_false] at hp
  exact Bool.eq_false_iff.mpr (hp stop hmem)

theorem ne_of_isGap
    {c : Char} (hgap : isGap stop = true) (hc : isGap c = false) :
    stop ≠ c := by
  rintro rfl
  rw [hgap] at hc
  cases hc

private theorem fractionDigits_joined
    (hgap : isGap stop = true) (rest tail : List Char) :
    fractionDigits (rest ++ stop :: tail) = fractionDigits rest := by
  have hnone {c : Char} (hpoint : c ≠ '.') (more : List Char) :
      fractionDigits (c :: more) = [] := by
    unfold fractionDigits
    split
    · rename_i heq
      exact absurd (List.cons.inj heq).1 hpoint
    · rfl
  cases rest with
  | nil => exact hnone (ne_of_isGap hgap (by decide)) tail
  | cons c rest =>
      by_cases hpoint : c = '.'
      · subst hpoint
        exact takeWhile_joined (eq_false_of_isGap hgap (by decide)) rest tail
      · rw [List.cons_append, hnone hpoint, hnone hpoint]

theorem munchNumber_joined
    (hgap : isGap stop = true) (c : Char) (rest tail : List Char) :
    munchNumber c (rest ++ stop :: tail) = munchNumber c rest := by
  have hwhole := takeWhile_joined (p := Char.isDigit)
    (eq_false_of_isGap hgap (by decide)) rest tail
  have hdrop : (rest ++ stop :: tail).dropWhile Char.isDigit =
      rest.dropWhile Char.isDigit ++ stop :: tail := by
    have hsplit := @List.takeWhile_append_dropWhile _ Char.isDigit
      (rest ++ stop :: tail)
    rw [hwhole] at hsplit
    have hsplit' := @List.takeWhile_append_dropWhile _ Char.isDigit rest
    apply @List.append_cancel_left _ (rest.takeWhile Char.isDigit)
    rw [hsplit, ← List.append_assoc, hsplit']
  simp only [munchNumber, hwhole, hdrop, fractionDigits_joined hgap]

private theorem munchString_joined
    (hclosed : (munchString rest).1 ≠ .error .unterminated)
    (tail : List Char) :
    munchString (rest ++ tail) = munchString rest := by
  unfold munchString at hclosed ⊢
  by_cases hlt : (rest.takeWhile (· ≠ '"')).length < rest.length
  · have hcontent := @List.takeWhile_append _ (· ≠ '"') rest tail
    rw [if_neg (Nat.ne_of_lt hlt)] at hcontent
    have hlonger : (rest.takeWhile (· ≠ '"')).length <
        (rest ++ tail).length := by
      rw [List.length_append]
      exact Nat.lt_add_right _ hlt
    simp only [hcontent, hlt, hlonger, if_true]
  · simp only [hlt, if_false, ne_eq, not_true_eq_false] at hclosed

private theorem doubleMark?_gap (hgap : isGap stop = true) (c : Char) :
    doubleMark? c stop = none := by
  unfold doubleMark?
  split <;> simp_all [isGap]

private theorem munchMark_joined
    (hgap : isGap stop = true) (c : Char) (rest tail : List Char) :
    munchMark c (rest ++ stop :: tail) = munchMark c rest := by
  cases rest with
  | nil => simp [munchMark, doubleMark?_gap hgap]
  | cons d rest => rfl

/-- A blank ends every piece but an open string and a comment, and a line break
ends a comment as well. -/
theorem munch_joined
    {c : Char} (hgap : isGap stop = true)
    (hclosed : (munch c rest).1 ≠ .error .unterminated)
    (hcomment : stop = '\n' ∨ (munch c rest).1 ≠ .gap) (tail : List Char) :
    munch c (rest ++ stop :: tail) = munch c rest := by
  have hhead : (rest ++ stop :: tail).head? = some '/' ↔
      rest.head? = some '/' := by
    cases rest with
    | nil => simp [ne_of_isGap hgap (by decide : isGap '/' = false)]
    | cons d rest => rfl
  have hword := takeWhile_joined (p := insideWord)
    (eq_false_of_isGap hgap (by decide)) rest tail
  unfold munch at hclosed hcomment ⊢
  simp only [hhead, munchNumber_joined hgap, munchMark_joined hgap, munchWord,
    hword]
  split
  · rfl
  split
  · rename_i hblank hslash
    rw [if_neg hblank, if_pos hslash] at hcomment
    have hbreak : stop = '\n' := hcomment.resolve_right fun hne => hne rfl
    rw [takeWhile_joined (by simp [hbreak])]
  split
  · rename_i hblank hslash hquote
    rw [if_neg hblank, if_neg hslash, if_pos hquote] at hclosed
    rw [munchString_joined hclosed]
  · rfl

private theorem fractionDigits_length (rest : List Char) :
    fractionDigits rest = [] ∨
      (fractionDigits rest).length + 1 ≤ rest.length := by
  unfold fractionDigits
  split
  · rename_i more
    right
    simpa using (List.takeWhile_prefix Char.isDigit (l := more)).length_le
  · exact .inl rfl

theorem munch_length (c : Char) (rest : List Char) :
    (munch c rest).2 ≤ rest.length := by
  have htake (p : Char → Bool) : (rest.takeWhile p).length ≤ rest.length :=
    (List.takeWhile_prefix p).length_le
  unfold munch
  split
  · exact Nat.zero_le _
  split
  · exact htake _
  split
  · unfold munchString
    dsimp only
    split
    · assumption
    · exact Nat.le_refl _
  split
  · have hsplit := congrArg List.length
      (@List.takeWhile_append_dropWhile _ Char.isDigit rest)
    rw [List.length_append] at hsplit
    simp only [munchNumber]
    rcases fractionDigits_length (rest.dropWhile Char.isDigit) with
      hnone | hsome
    · rw [hnone]
      exact htake _
    · split <;> omega
  split
  · exact htake _
  · unfold munchMark
    split
    · rename_i hmark
      cases rest with
      | nil => simp at hmark
      | cons d rest => simp
    · split <;> exact Nat.zero_le _

private theorem munch_split
    {c : Char} {piece : Piece} {extra : Nat}
    (hmunch : munch c rest = (piece, extra))
    (hpiece : piece ≠ .error .unterminated) (tail : List Char) :
    munch c (rest ++ '\n' :: tail) = (piece, extra) ∧
      (rest ++ '\n' :: tail).take extra = rest.take extra ∧
      (rest ++ '\n' :: tail).drop extra = rest.drop extra ++ '\n' :: tail ∧
      ∀ line, line + (c :: rest).count '\n' =
        line + (c :: rest.take extra).count '\n' +
          (rest.drop extra).count '\n' := by
  have hlength := munch_length c rest
  have hclosed : (munch c rest).1 ≠ .error .unterminated := by
    rw [hmunch]
    exact hpiece
  rw [hmunch] at hlength
  refine ⟨?_, ?_, ?_, ?_⟩
  · rw [munch_joined rfl hclosed (.inl rfl), hmunch]
  · exact List.take_append_of_le_length hlength
  · exact List.drop_append_of_le_length hlength
  · intro line
    rw [Nat.add_assoc, ← List.count_append, List.cons_append,
      List.take_append_drop]

end

private theorem scanFrom_ne_nil (line : Nat) (text : List Char) :
    scanFrom line text ≠ [] := by
  obtain ⟨items, stop, hitems, -⟩ := scanFrom_items line text
  simp [hitems]

/-! ## Items -/

/-- A text without errors stands above another one. -/
theorem scanFrom_joined
    (line : Nat) (text tail : List Char)
    (hclean : errorsOf (scanFrom line text) = []) :
    scanFrom line (text ++ '\n' :: tail) =
      (scanFrom line text).dropLast ++
        scanFrom (line + text.count '\n' + 1) tail := by
  induction line, text using scanFrom_induction with
  | stop line =>
      rw [List.nil_append, scanFrom_gap (munch_lineBreak tail), scanFrom]
      simp
  | gap line c rest extra hmunch ih =>
      rw [scanFrom_gap hmunch] at hclean
      obtain ⟨hjoined, htake, hdrop, hcount⟩ :=
        munch_split hmunch (by simp) tail
      rw [List.cons_append, scanFrom_gap hjoined, scanFrom_gap hmunch, htake,
        hdrop, ih hclean, hcount line]
  | token line c rest extra kind hmunch ih =>
      rw [scanFrom_token hmunch] at hclean
      obtain ⟨hjoined, htake, hdrop, hcount⟩ :=
        munch_split hmunch (by simp) tail
      rw [List.cons_append, scanFrom_token hjoined, scanFrom_token hmunch,
        htake, hdrop, ih hclean, hcount line,
        List.dropLast_cons_of_ne_nil (scanFrom_ne_nil _ _), List.cons_append]
  | error line c rest extra cause hmunch ih =>
      rw [scanFrom_error hmunch] at hclean
      cases hclean

/-- Items further down are the same items, further down. -/
theorem scanFrom_add (line lines : Nat) (text : List Char) :
    scanFrom (line + lines) text =
      (scanFrom line text).map (movedItem lines) := by
  induction line, text using scanFrom_induction with
  | stop line =>
      rw [scanFrom, scanFrom]
      rfl
  | gap line c rest extra hmunch ih =>
      rw [scanFrom_gap hmunch, scanFrom_gap hmunch, Nat.add_right_comm]
      exact ih
  | token line c rest extra kind hmunch ih =>
      rw [scanFrom_token hmunch, scanFrom_token hmunch, Nat.add_right_comm,
        List.map_cons]
      exact congrArg _ ih
  | error line c rest extra cause hmunch ih =>
      rw [scanFrom_error hmunch, scanFrom_error hmunch, Nat.add_right_comm,
        List.map_cons]
      exact congrArg _ ih

private theorem tokensOf_map_moved (lines : Nat) (items : List Item) :
    tokensOf (items.map (movedItem lines)) =
      (tokensOf items).map (moved lines) := by
  unfold tokensOf
  rw [List.filterMap_map, List.map_filterMap]
  congr 1
  funext item
  cases item with
  | ok token => rfl
  | error e => rfl

private theorem errorsOf_map_moved (lines : Nat) (items : List Item) :
    errorsOf (items.map (movedItem lines)) =
      (errorsOf items).map fun e => { e with line := e.line + lines } := by
  unfold errorsOf
  rw [List.filterMap_map, List.map_filterMap]
  congr 1
  funext item
  cases item with
  | ok token => rfl
  | error e => rfl

theorem ofSource_eq_ok_iff
    {source : String} {tokens : List Token} :
    ofSource source = .ok tokens ↔
      errorsOf (scan source) = [] ∧ tokensOf (scan source) = tokens := by
  unfold ofSource
  cases herrors : errorsOf (scan source) with
  | nil => simp [herrors]
  | cons e errors => simp [herrors]

/-- The tokens of a text above another one are those of both, without the end
mark in between. -/
theorem ofSource_joined
    {source below : String} {ts us : List Token} {stop : Token}
    (hsource : ofSource source = .ok (ts ++ [stop]))
    (hbelow : ofSource below = .ok us) :
    ofSource (source ++ "\n" ++ below) =
      .ok (ts ++ us.map (moved (linesOf source))) := by
  rw [ofSource_eq_ok_iff] at hsource hbelow ⊢
  have htext : (source ++ "\n" ++ below).toList =
      source.toList ++ '\n' :: below.toList := by
    simp
  have hlines : 1 + source.toList.count '\n' + 1 = 1 + linesOf source := rfl
  have hscan : scan (source ++ "\n" ++ below) =
      (scan source).dropLast ++
        (scan below).map (movedItem (linesOf source)) := by
    unfold scan
    rw [htext, scanFrom_joined 1 _ _ hsource.1, hlines, scanFrom_add]
  obtain ⟨items, last, hitems, -, -, -⟩ := scanFrom_items 1 source.toList
  change scan source = _ at hitems
  rw [hitems] at hsource
  rw [hscan, hitems, List.dropLast_concat]
  constructor
  · rw [errorsOf, List.filterMap_append]
    change errorsOf items ++ errorsOf (List.map _ _) = []
    have hclean := hsource.1
    rw [errorsOf, List.filterMap_append] at hclean
    rw [errorsOf_map_moved, hbelow.1, List.map_nil, List.append_nil]
    exact (List.append_eq_nil_iff.mp hclean).1
  · have hfront : tokensOf items = ts := by
      have htokens := hsource.2
      rw [tokensOf, List.filterMap_append] at htokens
      exact (List.append_inj' htokens rfl).1
    rw [tokensOf, List.filterMap_append]
    change tokensOf items ++ tokensOf (List.map _ _) = _
    rw [tokensOf_map_moved, hfront, hbelow.2]

end Token
end LoxLang
