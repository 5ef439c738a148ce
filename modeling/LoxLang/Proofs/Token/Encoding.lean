import Mathlib.Data.List.TakeWhile
import LoxLang.Token.Scan

/-!
# Characters as bytes

A character of the first half of the Latin alphabet, up to 127, is one byte;
every other one is several, and each of these is 128 or more.  So a search
among the bytes of a text for characters of the first kind finds them where
they stand, and finds nothing else.
-/

namespace LoxLang
namespace Token

/-- The bytes of a text. -/
def utf8 (text : List Char) : List UInt8 :=
  text.flatMap String.utf8EncodeChar

/-- How many bytes there are in a text. -/
def width (text : List Char) : Nat :=
  (utf8 text).length

theorem utf8_cons (c : Char) (text : List Char) :
    utf8 (c :: text) = String.utf8EncodeChar c ++ utf8 text :=
  List.flatMap_cons

theorem utf8_append (front back : List Char) :
    utf8 (front ++ back) = utf8 front ++ utf8 back :=
  List.flatMap_append

@[simp] theorem width_nil : width [] = 0 :=
  rfl

theorem width_append (front back : List Char) :
    width (front ++ back) = width front + width back := by
  rw [width, utf8_append, List.length_append, width, width]

theorem width_singleton (c : Char) : width [c] = c.utf8Size := by
  simp [width, utf8]

theorem width_pos (c : Char) (text : List Char) : 0 < width (c :: text) := by
  rw [← List.singleton_append, width_append, width_singleton]
  have hsize := c.utf8Size_pos
  omega

/-- The bytes of a source, as its characters give them. -/
theorem toList_data_toByteArray (source : String) :
    source.toByteArray.data.toList = utf8 source.toList := by
  have hbytes : source.toByteArray = source.toList.utf8Encode := by
    rw [← String.toByteArray_ofList, String.ofList_toList]
  rw [hbytes]
  exact List.toList_data_toByteArray

theorem utf8ByteSize_eq_width (source : String) :
    source.utf8ByteSize = width source.toList := by
  rw [← String.size_toByteArray, width, ← toList_data_toByteArray]
  rfl

theorem utf8ByteSize_ofList (text : List Char) :
    (String.ofList text).utf8ByteSize = width text := by
  rw [utf8ByteSize_eq_width, String.toList_ofList]

/-! ## Single characters -/

private theorem toNat_ofUInt8 (b : UInt8) : (Char.ofUInt8 b).toNat = b.toNat :=
  UInt8.toNat_toUInt32 b

/-- A character that is a byte of its own. -/
theorem utf8EncodeChar_of_lt {c : Char} (h : c.toNat < 128) :
    ∃ b, String.utf8EncodeChar c = [b] ∧ Char.ofUInt8 b = c := by
  have hval : c.val.toNat < 128 := h
  refine ⟨UInt8.ofNat c.val.toNat, ?_, ?_⟩
  · simp only [String.utf8EncodeChar]
    rw [if_pos (by omega)]
  · apply Char.toNat_inj.mp
    rw [toNat_ofUInt8, UInt8.toNat_ofNat']
    exact Nat.mod_eq_of_lt (by omega)

/-- The bytes of the other characters. -/
theorem le_of_mem_utf8EncodeChar
    {c : Char} (h : 128 ≤ c.toNat) {b : UInt8}
    (hb : b ∈ String.utf8EncodeChar c) : 128 ≤ (Char.ofUInt8 b).toNat := by
  have hval : ¬ c.val.toNat ≤ 127 := Nat.not_le.mpr h
  have hbyte (n : Nat) (hn : 128 ≤ n % 256) : 128 ≤ (UInt8.ofNat n).toNat := by
    rw [UInt8.toNat_ofNat']
    exact hn
  rw [toNat_ofUInt8]
  simp only [String.utf8EncodeChar, hval, if_false] at hb
  split at hb
  · simp only [List.mem_cons, List.not_mem_nil, or_false] at hb
    rcases hb with rfl | rfl <;> apply hbyte <;> omega
  split at hb
  · simp only [List.mem_cons, List.not_mem_nil, or_false] at hb
    rcases hb with rfl | rfl | rfl <;> apply hbyte <;> omega
  · simp only [List.mem_cons, List.not_mem_nil, or_false] at hb
    rcases hb with rfl | rfl | rfl | rfl <;> apply hbyte <;> omega

/-! ## Searches -/

/-- The property is the same for all characters of more than one byte. -/
def AsciiOnly (p : Char → Bool) : Prop :=
  ∀ c d : Char, 128 ≤ c.toNat → 128 ≤ d.toNat → p c = p d

/-- Bytes are passed over as the characters are to which they belong. -/
theorem takeWhile_utf8 {p : Char → Bool} (hp : AsciiOnly p) (text : List Char) :
    (utf8 text).takeWhile (fun b => p (Char.ofUInt8 b)) =
      utf8 (text.takeWhile p) := by
  induction text with
  | nil => rfl
  | cons c text ih =>
      have hbytes : ∀ b ∈ String.utf8EncodeChar c, p (Char.ofUInt8 b) =
          p c := by
        intro b hb
        by_cases hc : c.toNat < 128
        · obtain ⟨d, hd, hchar⟩ := utf8EncodeChar_of_lt hc
          rw [hd, List.mem_singleton] at hb
          rw [hb, hchar]
        · have hc := Nat.not_lt.mp hc
          exact hp _ _ (le_of_mem_utf8EncodeChar hc hb) hc
      rw [utf8_cons]
      cases hpc : p c with
      | true =>
          rw [List.takeWhile_cons_of_pos hpc, utf8_cons, ← ih]
          exact List.takeWhile_append_of_pos fun b hb =>
            (hbytes b hb).trans hpc
      | false =>
          rw [List.takeWhile_cons_of_neg (by simp [hpc])]
          obtain ⟨b, bs, hb⟩ :=
            List.exists_cons_of_ne_nil (String.utf8EncodeChar_ne_nil (c := c))
          have hfirst := hbytes b (by simp [hb])
          rw [hb, List.cons_append, List.takeWhile_cons_of_neg]
          · rfl
          · rw [hfirst, hpc]
            exact Bool.false_ne_true

/-- A character of one byte is found as often among the bytes as it stands in
the text. -/
theorem countP_utf8 {c : Char} (hc : c.toNat < 128) (text : List Char) :
    (utf8 text).countP (fun b => Char.ofUInt8 b == c) = text.count c := by
  induction text with
  | nil => rfl
  | cons d text ih =>
      rw [utf8_cons, List.countP_append, ih, List.count_cons, Nat.add_comm]
      congr 1
      by_cases hd : d.toNat < 128
      · obtain ⟨b, hb, hchar⟩ := utf8EncodeChar_of_lt hd
        rw [hb, List.countP_singleton, hchar]
      · have hd := Nat.not_lt.mp hd
        have hne : (d == c) = false := by
          rw [beq_eq_false_iff_ne]
          rintro rfl
          omega
        rw [hne, List.countP_eq_zero.mpr]
        · rfl
        · intro b hb hbc
          have hle := le_of_mem_utf8EncodeChar hd hb
          rw [beq_iff_eq.mp hbc] at hle
          omega

/-! ## Positions -/

section
variable {source a b c : String} {p q : source.Pos}

theorem extract_of_splits
    (hp : p.Splits a (b ++ c)) (hq : q.Splits (a ++ b) c) :
    p ≤ q ∧ source.extract p q = b := by
  obtain ⟨hle, htext⟩ := String.copy_slice_eq_iff_splits.mpr ⟨a, c, hp, hq⟩
  exact ⟨hle, (String.extract_eq_copy_slice p q hle).trans htext⟩

private theorem pos?_offset (p : source.Pos) :
    source.pos? p.offset = some p := by
  have hvalid : p.offset.isValidForSlice source.toSlice = true :=
    String.Pos.Raw.isValidForSlice_eq_true_iff.mpr p.isValid.toSlice
  simp only [String.pos?, String.Slice.pos?, hvalid, dif_pos, Option.map_some]
  rfl

/-- The byte behind the front of a text lies between two characters. -/
theorem pos?_width
    {front back : List Char} (h : source.toList = front ++ back) :
    ∃ p : source.Pos, source.pos? ⟨width front⟩ = some p ∧
      p.Splits (String.ofList front) (String.ofList back) := by
  have hsource : source = String.ofList front ++ String.ofList back := by
    rw [← String.ofList_append, ← h, String.ofList_toList]
  have hsplits := String.Pos.splits_ofEqAppend hsource
  have hoffset : (String.Pos.ofEqAppend hsource).offset = ⟨width front⟩ := by
    rw [hsplits.offset_eq_rawEndPos, ← utf8ByteSize_ofList]
    rfl
  refine ⟨String.Pos.ofEqAppend hsource, ?_, hsplits⟩
  rw [← hoffset, pos?_offset]

end

end Token
end LoxLang
