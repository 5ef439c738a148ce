import LoxLang.Proofs.Token.Spacing

/-!
# Characters that give way to a space

A scan cuts its text into pieces.  Where a character that belongs to no piece
is replaced by a space, every other piece stays as it is, with the same text on
the same line, and a blank takes the place of the error.
-/

namespace LoxLang
namespace Token

/-! ## The pieces of a text -/

/-- The pieces of a text, each with its characters. -/
def pieces : List Char → List (Piece × List Char)
  | [] => []
  | c :: rest =>
      let (piece, extra) := munch c rest
      (piece, c :: rest.take extra) :: pieces (rest.drop extra)
termination_by text => text.length
decreasing_by simp only [List.length_drop, List.length_cons]; omega

/-- The items that pieces become if the first of them starts on `line`. -/
def itemsFrom (line : Nat) : List (Piece × List Char) → List Item
  | [] => [.ok ⟨.eof, "", line⟩]
  | (.gap, text) :: rest => itemsFrom (line + text.count '\n') rest
  | (.token kind, text) :: rest =>
      .ok ⟨kind, String.ofList text, line + text.count '\n'⟩ ::
        itemsFrom (line + text.count '\n') rest
  | (.error cause, text) :: rest =>
      .error ⟨cause, line + text.count '\n'⟩ ::
        itemsFrom (line + text.count '\n') rest

theorem pieces_cons
    {c : Char} {rest : List Char} {piece : Piece} {extra : Nat}
    (h : munch c rest = (piece, extra)) :
    pieces (c :: rest) =
      (piece, c :: rest.take extra) :: pieces (rest.drop extra) := by
  rw [pieces, h]

/-- The pieces make up the text. -/
theorem flatMap_pieces (text : List Char) :
    (pieces text).flatMap Prod.snd = text := by
  induction text using pieces.induct with
  | case1 => rw [pieces, List.flatMap_nil]
  | case2 c rest piece extra hmunch ih =>
      rw [pieces_cons hmunch, List.flatMap_cons, ih, List.cons_append,
        List.take_append_drop]

/-- The pieces become the items of the scan. -/
theorem itemsFrom_pieces (line : Nat) (text : List Char) :
    itemsFrom line (pieces text) = scanFrom line text := by
  induction line, text using scanFrom_induction with
  | stop line => rw [pieces, scanFrom, itemsFrom]
  | gap line c rest extra hmunch ih =>
      rw [pieces_cons hmunch, scanFrom_gap hmunch, itemsFrom]
      exact ih
  | token line c rest extra kind hmunch ih =>
      rw [pieces_cons hmunch, scanFrom_token hmunch, itemsFrom]
      exact congrArg _ ih
  | error line c rest extra cause hmunch ih =>
      rw [pieces_cons hmunch, scanFrom_error hmunch, itemsFrom]
      exact congrArg _ ih

/-! ## Blanking -/

/-- The piece is a character that belongs to no lexeme. -/
def Piece.isUnexpected : Piece → Bool
  | .error (.unexpected _) => true
  | _ => false

/-- The item reports a character that belongs to no lexeme. -/
def isUnexpectedItem : Item → Bool
  | .error ⟨.unexpected _, _⟩ => true
  | _ => false

/-- A space in place of an unexpected character. -/
def blankPiece (piece : Piece × List Char) : Piece × List Char :=
  if piece.1.isUnexpected then (.gap, [' ']) else piece

/-- The text with a space in place of each unexpected character. -/
def blanked (text : List Char) : List Char :=
  (pieces text).flatMap fun piece => (blankPiece piece).2

/-- Each character stands for itself, or a space stands for it.  Line breaks
stay. -/
def Blanks : List Char → List Char → Prop :=
  List.Forall₂ fun c d => d = c ∨ c ≠ '\n' ∧ d = ' '

theorem blanked_cons
    {c : Char} {rest : List Char} {piece : Piece} {extra : Nat}
    (h : munch c rest = (piece, extra)) :
    blanked (c :: rest) =
      (blankPiece (piece, c :: rest.take extra)).2 ++
        blanked (rest.drop extra) := by
  rw [blanked, pieces_cons h, List.flatMap_cons, blanked]

theorem isUnexpected_munch
    {c : Char} {rest : List Char} {piece : Piece} {extra : Nat}
    (h : munch c rest = (piece, extra)) (hpiece : piece.isUnexpected = true) :
    piece = .error (.unexpected c) ∧ extra = 0 ∧ c ≠ '\n' := by
  cases piece with
  | gap => cases hpiece
  | token kind => cases hpiece
  | error cause =>
      rcases munch_error h with ⟨rfl, rfl⟩ | ⟨rfl, -⟩
      · refine ⟨rfl, rfl, ?_⟩
        rintro rfl
        cases h
      · cases hpiece

private theorem blanks_refl (text : List Char) : Blanks text text :=
  List.forall₂_same.mpr fun _ _ => .inl rfl

theorem blanks_blanked (text : List Char) : Blanks text (blanked text) := by
  induction text using pieces.induct with
  | case1 =>
      rw [blanked, pieces]
      exact .nil
  | case2 c rest piece extra hmunch ih =>
      rw [blanked_cons hmunch]
      unfold blankPiece
      split
      · rename_i hunexpected
        obtain ⟨rfl, rfl, hbreak⟩ := isUnexpected_munch hmunch hunexpected
        exact .cons (.inr ⟨hbreak, rfl⟩) ih
      · have hsplit : c :: rest = c :: rest.take extra ++ rest.drop extra := by
          rw [List.cons_append, List.take_append_drop]
        rw [hsplit]
        exact List.rel_append (blanks_refl _) ih

/-- Up to its first space, a blanked text is the front of the text. -/
theorem Blanks.exists_front
    {rest behind : List Char} (h : Blanks rest behind) :
    ∃ front, front <+: rest ∧
      (behind = front ∨ ∃ tail, behind = front ++ ' ' :: tail) := by
  induction h with
  | nil => exact ⟨[], List.prefix_rfl, .inl rfl⟩
  | @cons c d rest behind hfirst _ ih =>
      rcases hfirst with rfl | ⟨-, rfl⟩
      · obtain ⟨front, hfront, hbehind⟩ := ih
        refine ⟨d :: front, (List.prefix_cons_inj d).mpr hfront, ?_⟩
        rcases hbehind with rfl | ⟨tail, rfl⟩
        · exact .inl rfl
        · exact .inr ⟨tail, rfl⟩
      · exact ⟨[], List.nil_prefix, .inr ⟨behind, rfl⟩⟩

section
variable {c : Char} {text rest behind : List Char} {kind : Kind}

/-- A token is read as before if what stands behind it is blanked. -/
theorem IsLongest.munch_blanks
    (h : IsLongest (c :: text) (.token kind) rest)
    (hblanks : Blanks rest behind) :
    munch c (text ++ behind) = (.token kind, text.length) := by
  obtain ⟨front, hfront, rfl | ⟨tail, rfl⟩⟩ := hblanks.exists_front
  · exact (h.of_prefix hfront).munch_eq
  · exact h.munch_space hfront tail

/-- A comment is read as before as well, because the line break behind it
stays. -/
theorem Lexeme.munch_blanks
    (h : Lexeme (c :: text) .gap) (hstop : ∀ d ∈ rest.head?, d = '\n')
    (hblanks : Blanks rest behind) :
    munch c (text ++ behind) = (.gap, text.length) := by
  cases hblanks with
  | nil => exact h.isLongest_alone.munch_eq
  | @cons d e rest behind hfirst _ =>
      have hbreak : d = '\n' := hstop d rfl
      rcases hfirst with rfl | ⟨hne, -⟩
      · rw [hbreak]
        exact h.munch_break behind
      · exact absurd hbreak hne

end

/-- A piece that is no unexpected character is read as before if what stands
behind it is blanked. -/
theorem munch_blanks
    {c : Char} {rest behind : List Char} {piece : Piece} {extra : Nat}
    (h : munch c rest = (piece, extra)) (hpiece : ¬ piece.isUnexpected = true)
    (hblanks : Blanks (rest.drop extra) behind) :
    munch c (rest.take extra ++ behind) =
      (piece, (rest.take extra).length) := by
  cases piece with
  | token kind =>
      exact (isLongest_of_munch h (by simp)).munch_blanks hblanks
  | gap =>
      have hlexeme := lexeme_of_munch h (by simp)
      rcases munch_gap h with ⟨hblank, rfl⟩ | ⟨body, -, -, hstop⟩
      · rw [← isGap_iff] at hblank
        simp only [munch, hblank, if_true, List.take_zero, List.length_nil]
      · exact hlexeme.munch_blanks hstop hblanks
  | error cause =>
      rcases munch_error h with ⟨rfl, -⟩ | ⟨rfl, rfl, hopen, rfl⟩
      · exact absurd rfl hpiece
      · rw [List.drop_length] at hblanks
        cases hblanks
        rw [List.append_nil, List.take_length]
        exact h

/-- Blanking a text blanks its pieces. -/
theorem pieces_blanked (text : List Char) :
    pieces (blanked text) = (pieces text).map blankPiece := by
  induction text using pieces.induct with
  | case1 =>
      have hempty : blanked [] = [] := by
        rw [blanked, pieces, List.flatMap_nil]
      rw [hempty, pieces, List.map_nil]
  | case2 c rest piece extra hmunch ih =>
      rw [blanked_cons hmunch, pieces_cons hmunch, List.map_cons, ← ih]
      unfold blankPiece
      split
      · exact pieces_cons rfl
      · rename_i hpiece
        have hagain := munch_blanks hmunch hpiece (blanks_blanked _)
        rw [List.cons_append, pieces_cons hagain, List.take_left,
          List.drop_left]

/-- Blank pieces become no items. -/
theorem itemsFrom_map_blankPiece
    {cut : List (Piece × List Char)} (line : Nat)
    (h : ∀ piece ∈ cut, piece.1.isUnexpected = true →
      piece.2.count '\n' = 0) :
    itemsFrom line (cut.map blankPiece) =
      (itemsFrom line cut).filter fun item => !isUnexpectedItem item := by
  induction cut generalizing line with
  | nil => rfl
  | cons piece cut ih =>
      have hrest := fun line => ih line fun other hmem =>
        h other (List.mem_cons_of_mem piece hmem)
      obtain ⟨piece, text⟩ := piece
      cases piece with
      | gap => exact hrest _
      | token kind => exact congrArg _ (hrest _)
      | error cause =>
          cases cause with
          | unterminated => exact congrArg _ (hrest _)
          | unexpected c =>
              have hline := h _ List.mem_cons_self rfl
              dsimp only at hline
              rw [List.map_cons, itemsFrom, hline]
              exact hrest line

/-- An unexpected character is a piece of its own. -/
theorem eq_of_isUnexpected
    {text : List Char} {piece : Piece × List Char} (h : piece ∈ pieces text)
    (hpiece : piece.1.isUnexpected = true) :
    ∃ c, piece = (.error (.unexpected c), [c]) ∧ c ≠ '\n' := by
  induction text using pieces.induct with
  | case1 =>
      rw [pieces] at h
      cases h
  | case2 c rest found extra hmunch ih =>
      rw [pieces_cons hmunch] at h
      rcases List.mem_cons.mp h with rfl | hrest
      · obtain ⟨rfl, rfl, hbreak⟩ := isUnexpected_munch hmunch hpiece
        exact ⟨c, rfl, hbreak⟩
      · exact ih hrest

/-- A scan cuts its text into pieces.  An unexpected character is a piece of
its own.  With a space in place of each of them, the scan finds what it found
before, on the same lines, but for the errors at these characters. -/
theorem unexpected_characters_are_isolated (source : String) :
    ((pieces source.toList).flatMap Prod.snd = source.toList ∧
      itemsFrom 1 (pieces source.toList) = scan source ∧
      ∀ c text, (.error (.unexpected c), text) ∈ pieces source.toList →
        text = [c]) ∧
    scan (String.ofList (blanked source.toList)) =
      (scan source).filter fun item => !isUnexpectedItem item := by
  refine ⟨⟨flatMap_pieces _, itemsFrom_pieces 1 _, ?_⟩, ?_⟩
  · intro c text hmem
    obtain ⟨d, hpiece, -⟩ := eq_of_isUnexpected hmem rfl
    cases hpiece
    rfl
  · unfold scan
    rw [String.toList_ofList, ← itemsFrom_pieces, ← itemsFrom_pieces,
      pieces_blanked, itemsFrom_map_blankPiece]
    intro piece hmem hpiece
    obtain ⟨c, rfl, hbreak⟩ := eq_of_isUnexpected hmem hpiece
    exact List.count_eq_zero.mpr fun hmem =>
      hbreak (List.mem_singleton.mp hmem).symm

example : blanked "a&é&&@\"é@\"".toList = "a  && \"é@\"".toList := by
  decide +kernel

end Token
end LoxLang
