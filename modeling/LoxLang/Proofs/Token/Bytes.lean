import LoxLang.Proofs.Token.Encoding
import LoxLang.Proofs.Token.Lines

/-!
# The scan of the bytes of a text

A scan takes the bytes of its text one after the other.  It keeps where the
piece at hand starts, which byte comes next and on which line that is.  A line
is added when a line break is passed between two tokens, and in the loop that
looks for the end of a string.  Lexemes are cut out of the text from one byte
to another one; where one of them lies inside of a character, or where a byte
is taken behind the end of the text, the scan breaks off.  It never does: it
finds what the scan of the characters finds.
-/

namespace LoxLang
namespace Token
namespace Bytes

/-- Where a scan stands.  The kind of the token at hand is pending until its
lexeme is cut out. -/
structure Cursor where
  start : Nat
  next : Nat
  line : Nat
  pending : Option Kind

/-- An item, and the bytes between which it stands. -/
structure Found where
  item : Item
  start : Nat
  stop : Nat

abbrev Action := StateT Cursor Option

section
variable (source : String)

def bytes : List UInt8 :=
  source.toByteArray.data.toList

/-- The byte at a place, and zero behind the end of the text. -/
def peek (place : Nat) : Char :=
  Char.ofUInt8 ((bytes source)[place]?.getD 0)

def advance : Action Char := fun cursor =>
  match (bytes source)[cursor.next]? with
  | some b => some (Char.ofUInt8 b, { cursor with next := cursor.next + 1 })
  | none => none

/-- Takes the next byte if it is the one that is expected. -/
def matchByte (expected : Char) : Action Bool := do
  let cursor ← get
  if cursor.next < (bytes source).length ∧
      peek source cursor.next = expected then
    let _ ← advance source
    return true
  else return false

/-- What stands between two bytes of the text. -/
def slice (start stop : Nat) : Action String := fun cursor =>
  match source.pos? ⟨start⟩, source.pos? ⟨stop⟩ with
  | some p, some q =>
      if p ≤ q then some (source.extract p q, cursor) else none
  | _, _ => none

def byteSlice (start stop : Nat) : Action (List UInt8) := fun cursor =>
  if start ≤ stop ∧ stop ≤ (bytes source).length then
    some (((bytes source).drop start).take (stop - start), cursor)
  else none

/-- The place behind the bytes of a kind.  There is none behind the end. -/
def skipWhile (p : Char → Bool) (hp : p (Char.ofUInt8 0) = false)
    (place : Nat) : Nat :=
  if p (peek source place) then skipWhile p hp (place + 1) else place
termination_by (bytes source).length - place
decreasing_by
  rename_i hpeek
  have hplace : place < (bytes source).length := by
    apply Classical.byContradiction
    intro hend
    rw [peek, List.getElem?_eq_none (Nat.le_of_not_lt hend)] at hpeek
    exact absurd hpeek (by simp [hp])
  omega

/-- The place of the quote that ends a string, or the end of the text, and the
line on which that is. -/
def stringEnd (place line : Nat) : Nat × Nat :=
  if place < (bytes source).length ∧ peek source place ≠ '"' then
    stringEnd (place + 1)
      (if peek source place = '\n' then line + 1 else line)
  else (place, line)
termination_by (bytes source).length - place

def found (kind : Kind) : Action (Except LexError Unit) := do
  modify fun cursor => { cursor with pending := some kind }
  return .ok ()

def either (expected : Char) (matched single : Kind) :
    Action (Except LexError Unit) := do
  if ← matchByte source expected then found matched else found single

/-- A character that starts no token is taken whole. -/
def unexpected : Action (Except LexError Unit) := fun cursor =>
  match source.pos? ⟨cursor.start⟩ with
  | none => none
  | some p =>
      let c := if h : p ≠ source.endPos then p.get h else '�'
      some (.error ⟨.unexpected c, cursor.line⟩,
        { cursor with next := cursor.start + c.utf8Size })

/-- A comment goes on up to the next line break or to the end of the text. -/
def comment : Action (Except LexError Unit) := do
  modify fun cursor =>
    match ((bytes source).drop cursor.next).findIdx?
        (Char.ofUInt8 · = '\n') with
    | some count => { cursor with next := cursor.next + count }
    | none => { cursor with next := (bytes source).length }
  return .ok ()

def string : Action (Except LexError Unit) := do
  let cursor ← get
  let (stop, line) := stringEnd source cursor.next cursor.line
  set { cursor with next := stop, line := line }
  if (bytes source).length ≤ stop then
    return .error ⟨.unterminated, line⟩
  let _ ← advance source
  let content ← slice source (cursor.start + 1) stop
  found (.string content)

/-- The number that a text of digits, with or without a point, denotes. -/
def numberOf (text : List Char) : Float :=
  Number.ofDigits (text.takeWhile Char.isDigit)
    (fractionDigits (text.dropWhile Char.isDigit))

theorem not_isDigit_zero : (Char.ofUInt8 0).isDigit = false :=
  rfl

/-- Digits, and a point if a digit follows it. -/
def number : Action (Except LexError Unit) := do
  let cursor ← get
  let whole := skipWhile source Char.isDigit not_isDigit_zero cursor.next
  let stop :=
    if peek source whole = '.' ∧ (peek source (whole + 1)).isDigit then
      skipWhile source Char.isDigit not_isDigit_zero (whole + 1)
    else whole
  set { cursor with next := stop }
  let text ← slice source cursor.start stop
  found (.number (numberOf text.toList))

/-- The words of the language are told by their bytes. -/
def wordKind (word : List UInt8) : Kind :=
  ((keywords.find? fun entry => bytes entry.1 == word).map Prod.snd).getD
    .identifier

theorem not_insideWord_zero : insideWord (Char.ofUInt8 0) = false :=
  rfl

def word : Action (Except LexError Unit) := do
  let cursor ← get
  let stop := skipWhile source insideWord not_insideWord_zero cursor.next
  set { cursor with next := stop }
  let text ← byteSlice source cursor.start stop
  found (wordKind text)

/-- Takes the piece that starts at the next byte. -/
def piece : Action (Except LexError Unit) := do
  match ← advance source with
  | '(' => found .leftParen
  | ')' => found .rightParen
  | '\x7b' => found .leftBrace
  | '\x7d' => found .rightBrace
  | ',' => found .comma
  | '.' => found .dot
  | '-' => found .minus
  | '+' => found .plus
  | ';' => found .semicolon
  | '*' => found .star
  | '%' => found .percent
  | '!' => either source '=' .bangEqual .bang
  | '=' => either source '=' .equalEqual .equal
  | '<' => either source '=' .lessEqual .less
  | '>' => either source '=' .greaterEqual .greater
  | '&' =>
      if ← matchByte source '&' then found .andWord else unexpected source
  | '|' =>
      if ← matchByte source '|' then found .orWord else unexpected source
  | ' ' | '\r' | '\t' => return .ok ()
  | '\n' => do
      modify fun cursor => { cursor with line := cursor.line + 1 }
      return .ok ()
  | '/' => if ← matchByte source '/' then comment source else found .slash
  | '"' => string source
  | c =>
      if c.isDigit then number source
      else if startsWord c then word source
      else unexpected source

/-- One round: the end mark, or the piece at hand with what was found in it. -/
def round : Action (Option Found) := do
  let cursor ← get
  if cursor.next = (bytes source).length then
    set { cursor with next := cursor.next + 1 }
    return some ⟨.ok ⟨.eof, "", cursor.line⟩, cursor.next, cursor.next⟩
  set { cursor with start := cursor.next, pending := none }
  match ← piece source with
  | .error e =>
      let cursor ← get
      return some ⟨.error e, cursor.start, cursor.next⟩
  | .ok _ =>
      let cursor ← get
      match cursor.pending with
      | none => return none
      | some kind =>
          set { cursor with pending := none }
          let lexeme ← slice source cursor.start cursor.next
          return some
            ⟨.ok ⟨kind, lexeme, cursor.line⟩, cursor.start, cursor.next⟩

/-- Up to `rounds` rounds, until the end mark has been found. -/
def collect : Nat → Cursor → Option (List Found)
  | 0, _ => none
  | rounds + 1, cursor =>
      if (bytes source).length < cursor.next then some []
      else do
        let (found?, cursor) ← round source cursor
        let others ← collect rounds cursor
        return found?.toList ++ others

/-- The items of a text with the bytes between which they stand.  Each round
but the last two takes a byte. -/
def scan : Option (List Found) :=
  collect source ((bytes source).length + 2) ⟨0, 0, 1, none⟩

end

/-! ## Bytes and characters -/

section
variable {source : String} {front back : List Char}

theorem bytes_eq (source : String) : bytes source = utf8 source.toList :=
  toList_data_toByteArray source

theorem drop_bytes (h : source.toList = front ++ back) :
    (bytes source).drop (width front) = utf8 back := by
  rw [bytes_eq, h, utf8_append]
  exact List.drop_left

theorem length_bytes (h : source.toList = front ++ back) :
    (bytes source).length = width front + width back := by
  rw [bytes_eq, h]
  exact width_append front back

theorem getElem?_bytes (h : source.toList = front ++ back) :
    (bytes source)[width front]? = (utf8 back).head? := by
  rw [← drop_bytes h, List.head?_drop]

theorem asciiOnly_of_lt
    {p : Char → Bool} (hp : ∀ c, p c = true → c.toNat < 128) :
    AsciiOnly p := by
  intro c d hc hd
  have hfalse (e : Char) (he : 128 ≤ e.toNat) : p e = false := by
    rw [← Bool.not_eq_true]
    intro hpe
    have hlt := hp e hpe
    omega
  rw [hfalse c hc, hfalse d hd]

theorem asciiOnly_ne {c : Char} (hc : c.toNat < 128) :
    AsciiOnly (· ≠ c) := by
  intro d e hd he
  have hne (x : Char) (hx : 128 ≤ x.toNat) : x ≠ c := by
    rintro rfl
    omega
  simp [hne d hd, hne e he]

theorem toNat_lt_of_isDigit {c : Char} (h : c.isDigit = true) :
    c.toNat < 128 := by
  have hrange : '0' ≤ c ∧ c ≤ '9' :=
    (Bool.and_eq_true_iff.trans
      (and_congr decide_eq_true_iff decide_eq_true_iff)).mp h
  exact Nat.lt_of_le_of_lt hrange.2 (by decide)

theorem toNat_lt_of_startsWord {c : Char} (h : startsWord c = true) :
    c.toNat < 128 := by
  have hupper : c.isUpper = true ↔ 'A' ≤ c ∧ c ≤ 'Z' := decide_eq_true_iff
  have hlower : c.isLower = true ↔ 'a' ≤ c ∧ c ≤ 'z' :=
    Bool.and_eq_true_iff.trans (and_congr decide_eq_true_iff decide_eq_true_iff)
  have halpha : c.isAlpha = (c.isUpper || c.isLower) := rfl
  simp only [startsWord, halpha, Bool.or_eq_true, hupper, hlower,
    beq_iff_eq] at h
  rcases h with (h | h) | rfl
  · exact Nat.lt_of_le_of_lt h.2 (by decide)
  · exact Nat.lt_of_le_of_lt h.2 (by decide)
  · decide

theorem asciiOnly_isDigit : AsciiOnly Char.isDigit :=
  asciiOnly_of_lt fun _ => toNat_lt_of_isDigit

theorem asciiOnly_insideWord : AsciiOnly insideWord := by
  apply asciiOnly_of_lt
  intro c hc
  have hcases : insideWord c = (startsWord c || c.isDigit) := by
    have halphanum : c.isAlphanum = (c.isAlpha || c.isDigit) := rfl
    simp only [insideWord, startsWord, halphanum]
    rw [Bool.or_right_comm]
  rw [hcases, Bool.or_eq_true] at hc
  exact hc.elim toNat_lt_of_startsWord toNat_lt_of_isDigit

/-- The byte at the front of a character tells as much as the character. -/
theorem peek_cons
    {p : Char → Bool} (hp : AsciiOnly p) {c : Char}
    (h : source.toList = front ++ c :: back) :
    p (peek source (width front)) = p c := by
  rw [peek, getElem?_bytes h, utf8_cons]
  obtain ⟨b, bs, hb⟩ :=
    List.exists_cons_of_ne_nil (String.utf8EncodeChar_ne_nil (c := c))
  rw [hb, List.cons_append, List.head?_cons, Option.getD_some]
  by_cases hc : c.toNat < 128
  · obtain ⟨d, hd, hchar⟩ := utf8EncodeChar_of_lt hc
    rw [hd] at hb
    cases hb
    rw [hchar]
  · have hc := Nat.not_lt.mp hc
    exact hp _ _ (le_of_mem_utf8EncodeChar hc (by simp [hb])) hc

theorem peek_end (h : source.toList = front) :
    peek source (width front) = Char.ofUInt8 0 := by
  have hback : source.toList = front ++ [] := by simpa using h
  rw [peek, getElem?_bytes hback]
  rfl

/-! ## Loops -/

private theorem drop_bytes_cons {place : Nat}
    (h : place < (bytes source).length) :
    ∃ b, (bytes source).drop place = b :: (bytes source).drop (place + 1) ∧
      peek source place = Char.ofUInt8 b := by
  refine ⟨(bytes source)[place], List.drop_eq_getElem_cons h, ?_⟩
  rw [peek, List.getElem?_eq_getElem h, Option.getD_some]

private theorem skipWhile_eq
    (p : Char → Bool) (hp : p (Char.ofUInt8 0) = false) (place : Nat) :
    skipWhile source p hp place =
      place + (((bytes source).drop place).takeWhile
        fun b => p (Char.ofUInt8 b)).length := by
  induction place using skipWhile.induct source p hp with
  | case1 place hpeek ih =>
      have hplace : place < (bytes source).length := by
        apply Classical.byContradiction
        intro hend
        rw [peek, List.getElem?_eq_none (Nat.le_of_not_lt hend)] at hpeek
        exact absurd hpeek (by simp [hp])
      obtain ⟨b, hdrop, hb⟩ := drop_bytes_cons hplace
      rw [skipWhile, if_pos hpeek, ih, hdrop, List.takeWhile_cons_of_pos,
        List.length_cons]
      · omega
      · rwa [← hb]
  | case2 place hpeek =>
      rw [skipWhile, if_neg hpeek]
      by_cases hplace : place < (bytes source).length
      · obtain ⟨b, hdrop, hb⟩ := drop_bytes_cons hplace
        rw [hdrop, List.takeWhile_cons_of_neg]
        · rfl
        · rwa [← hb]
      · rw [List.drop_eq_nil_of_le (Nat.le_of_not_lt hplace)]
        rfl

private theorem stringEnd_eq (place line : Nat) :
    let content := ((bytes source).drop place).takeWhile
      fun b => Char.ofUInt8 b ≠ '"'
    stringEnd source place line =
      (place + content.length,
        line + content.countP fun b => Char.ofUInt8 b == '\n') := by
  dsimp only
  induction place, line using stringEnd.induct source with
  | case1 place line hinside ih =>
      obtain ⟨b, hdrop, hb⟩ := drop_bytes_cons hinside.1
      have hquote : Char.ofUInt8 b ≠ '"' := hb ▸ hinside.2
      rw [dite_eq_ite] at ih
      rw [stringEnd, if_pos hinside, ih, hdrop,
        List.takeWhile_cons_of_pos (by simpa using hquote), List.length_cons,
        List.countP_cons, hb]
      by_cases hbreak : Char.ofUInt8 b = '\n'
      · simp only [hbreak, if_true, beq_self_eq_true, Prod.mk.injEq]
        omega
      · simp only [hbreak, if_false, beq_iff_eq, Prod.mk.injEq]
        omega
  | case2 place line houtside =>
      rw [stringEnd, if_neg houtside]
      by_cases hplace : place < (bytes source).length
      · obtain ⟨b, hdrop, hb⟩ := drop_bytes_cons hplace
        have hquote : Char.ofUInt8 b = '"' := by
          rw [← hb]
          exact Classical.byContradiction fun h => houtside ⟨hplace, h⟩
        rw [hdrop, List.takeWhile_cons_of_neg (by simpa using hquote)]
        rfl
      · rw [List.drop_eq_nil_of_le (Nat.le_of_not_lt hplace)]
        rfl

theorem skipWhile_width
    {p : Char → Bool} {hp : p (Char.ofUInt8 0) = false}
    (hascii : AsciiOnly p) (h : source.toList = front ++ back) :
    skipWhile source p hp (width front) =
      width (front ++ back.takeWhile p) := by
  rw [skipWhile_eq, drop_bytes h, takeWhile_utf8 hascii, width_append]
  rfl

theorem stringEnd_width
    (h : source.toList = front ++ back) (line : Nat) :
    let content := back.takeWhile (· ≠ '"')
    stringEnd source (width front) line =
      (width (front ++ content), line + content.count '\n') := by
  have hascii := asciiOnly_ne (c := '"') (by decide)
  dsimp only
  rw [stringEnd_eq, drop_bytes h, takeWhile_utf8 hascii,
    countP_utf8 (by decide), width_append]
  rfl

end

/-! ## Pieces -/

/-- What is left behind by a piece at the front of `c :: rest`. -/
def taken (front : List Char) (c : Char) (rest : List Char) (line : Nat) :
    Piece × Nat → Except LexError Unit × Cursor
  | (piece, extra) =>
      let cursor : Cursor :=
        ⟨width front, width (front ++ c :: rest.take extra),
          line + lineBreaks c rest extra, none⟩
      match piece with
      | .gap => (.ok (), cursor)
      | .token kind => (.ok (), { cursor with pending := some kind })
      | .error cause => (.error ⟨cause, cursor.line⟩, cursor)

section
variable {α β : Type} {action : Action α} {next : α → Action β}
variable {source : String} {front rest : List Char} {c : Char} {line : Nat}

theorem bind_of_some
    {cursor cursor' : Cursor} {a : α}
    (h : action cursor = some (a, cursor')) :
    (action >>= next) cursor = next a cursor' := by
  simp [bind, StateT.bind, h]

theorem bind_get (next : Cursor → Action β) (cursor : Cursor) :
    (get >>= next) cursor = next cursor cursor :=
  rfl

theorem bind_set (next : PUnit → Action β) (cursor cursor' : Cursor) :
    (set cursor' >>= next) cursor = next ⟨⟩ cursor' :=
  rfl

theorem bind_modify
    (change : Cursor → Cursor) (next : PUnit → Action β) (cursor : Cursor) :
    (modify change >>= next) cursor = next ⟨⟩ (change cursor) :=
  rfl

theorem advance_of_lt
    (hc : c.toNat < 128) (h : source.toList = front ++ c :: rest)
    (start line : Nat) (pending : Option Kind) :
    advance source ⟨start, width front, line, pending⟩ =
      some (c, ⟨start, width (front ++ [c]), line, pending⟩) := by
  obtain ⟨b, hb, hchar⟩ := utf8EncodeChar_of_lt hc
  have hwidth : width (front ++ [c]) = width front + 1 := by
    rw [width_append, width, width, utf8_cons, hb]
    rfl
  rw [advance, getElem?_bytes h, utf8_cons, hb, hwidth]
  simp [hchar]

/-- The first byte of a character of several bytes. -/
theorem advance_of_le
    (hc : 128 ≤ c.toNat) (h : source.toList = front ++ c :: rest)
    (start line : Nat) (pending : Option Kind) :
    ∃ d : Char, 128 ≤ d.toNat ∧
      advance source ⟨start, width front, line, pending⟩ =
        some (d, ⟨start, width front + 1, line, pending⟩) := by
  obtain ⟨b, bs, hb⟩ :=
    List.exists_cons_of_ne_nil (String.utf8EncodeChar_ne_nil (c := c))
  refine ⟨Char.ofUInt8 b, le_of_mem_utf8EncodeChar hc (by simp [hb]), ?_⟩
  rw [advance, getElem?_bytes h, utf8_cons, hb]
  rfl

theorem slice_width
    {text back : List Char} (h : source.toList = front ++ (text ++ back))
    (cursor : Cursor) :
    slice source (width front) (width (front ++ text)) cursor =
      some (String.ofList text, cursor) := by
  obtain ⟨p, hp, hpsplits⟩ := pos?_width h
  have hbehind : source.toList = front ++ text ++ back := by
    rw [h, List.append_assoc]
  obtain ⟨q, hq, hqsplits⟩ := pos?_width hbehind
  rw [String.ofList_append] at hpsplits hqsplits
  obtain ⟨hle, htext⟩ := extract_of_splits hpsplits hqsplits
  simp only [slice, hp, hq, hle, if_true, htext]

theorem byteSlice_width
    {text back : List Char} (h : source.toList = front ++ (text ++ back))
    (cursor : Cursor) :
    byteSlice source (width front) (width (front ++ text)) cursor =
      some (utf8 text, cursor) := by
  have hlength := length_bytes h
  rw [width_append] at hlength
  have hwidth := width_append front text
  rw [byteSlice, if_pos (by omega), drop_bytes h, hwidth,
    Nat.add_sub_cancel_left, utf8_append, width, List.take_left]

theorem matchByte_of_head
    {e : Char} (he : e.toNat < 128) (h : source.toList = front ++ e :: rest)
    (start line : Nat) (pending : Option Kind) :
    matchByte source e ⟨start, width front, line, pending⟩ =
      some (true, ⟨start, width (front ++ [e]), line, pending⟩) := by
  have hpeek : peek source (width front) = e := by
    have hne := peek_cons (asciiOnly_ne he) h
    simpa using hne
  have hinside : width front < (bytes source).length := by
    have hpos := width_pos e rest
    rw [length_bytes h]
    omega
  rw [matchByte, bind_get]
  simp only [hinside, hpeek, true_and, if_true]
  rw [bind_of_some (advance_of_lt he h start line pending)]
  rfl

theorem matchByte_of_ne
    {e : Char} (he : e.toNat < 128) (h : source.toList = front ++ rest)
    (hne : rest.head? ≠ some e) (start line : Nat) (pending : Option Kind) :
    matchByte source e ⟨start, width front, line, pending⟩ =
      some (false, ⟨start, width front, line, pending⟩) := by
  have hout : ¬ (width front < (bytes source).length ∧
      peek source (width front) = e) := by
    rintro ⟨hinside, hpeek⟩
    cases rest with
    | nil =>
        rw [length_bytes h, width_nil] at hinside
        omega
    | cons d tail =>
        have hiff := peek_cons (asciiOnly_ne he) h
        rw [hpeek] at hiff
        simp_all
  rw [matchByte, bind_get]
  simp only [hout, if_false]
  rfl

theorem lineBreaks_of_ne (hbreak : c ≠ '\n') (hquote : c ≠ '"') (extra : Nat) :
    lineBreaks c rest extra = 0 := by
  rw [lineBreaks, if_neg hbreak, if_neg hquote]

/-- A mark of two characters, or else what its first character is alone. -/
theorem mark_eq
    {e : Char} {matched : Kind} {other : Action (Except LexError Unit)}
    (he : e.toNat < 128)
    (hdouble : ∀ d, doubleMark? c d = if d = e then some matched else none)
    (hbreak : c ≠ '\n') (hquote : c ≠ '"')
    (hother : other ⟨width front, width (front ++ [c]), line, none⟩ =
      some (taken front c rest line (munchMark c [])))
    (h : source.toList = front ++ c :: rest) :
    (do if ← matchByte source e then found matched else other)
        ⟨width front, width (front ++ [c]), line, none⟩ =
      some (taken front c rest line (munchMark c rest)) := by
  have hbehind : source.toList = front ++ [c] ++ rest := by simp [h]
  by_cases hhead : rest.head? = some e
  · obtain ⟨tail, rfl⟩ := List.head?_eq_some_iff.mp hhead
    rw [bind_of_some (matchByte_of_head he hbehind _ _ _)]
    have hmark : munchMark c (e :: tail) = (.token matched, 1) := by
      simp [munchMark, hdouble]
    rw [hmark, taken, lineBreaks_of_ne hbreak hquote, List.append_assoc]
    rfl
  · rw [bind_of_some (matchByte_of_ne he hbehind hhead _ _ _)]
    have hmark : munchMark c rest = munchMark c [] := by
      cases rest with
      | nil => rfl
      | cons d tail =>
          have hd : d ≠ e := by simpa using hhead
          simp [munchMark, hdouble, hd]
    rw [hmark]
    exact hother

theorem unexpected_eq
    (hbreak : c ≠ '\n') (h : source.toList = front ++ c :: rest)
    (next : Nat) :
    unexpected source ⟨width front, next, line, none⟩ =
      some (taken front c rest line (.error (.unexpected c), 0)) := by
  obtain ⟨p, hp, hsplits⟩ := pos?_width h
  rw [← List.singleton_append, String.ofList_append,
    ← String.singleton_eq_ofList] at hsplits
  have hne := hsplits.ne_endPos_of_singleton
  have hbreaks : lineBreaks c rest 0 = 0 := by
    simp [lineBreaks, hbreak]
  have hwidth : width (front ++ [c]) = width front + c.utf8Size := by
    rw [width_append, width_singleton]
  simp only [unexpected, hp, taken, hbreaks, List.take_zero, hwidth]
  rw [dif_pos hne, hsplits.next.get_eq_of_singleton]
  rfl

private theorem length_findIdx? (p : UInt8 → Bool) (l : List UInt8) :
    (l.findIdx? p).getD l.length =
      (l.takeWhile fun b => !p b).length := by
  induction l with
  | nil => rfl
  | cons b l ih =>
      rw [List.findIdx?_cons, List.takeWhile_cons]
      cases p b with
      | true => rfl
      | false =>
          simp only [Bool.not_false, if_true, List.length_cons, ← ih]
          cases l.findIdx? p <;> rfl

theorem comment_eq
    (h : source.toList = front ++ '/' :: '/' :: rest) :
    comment source ⟨width front, width (front ++ ['/', '/']), line, none⟩ =
      some (taken front '/' ('/' :: rest) line
        (munch '/' ('/' :: rest))) := by
  have hbehind : source.toList = front ++ ['/', '/'] ++ rest := by simp [h]
  have hascii := asciiOnly_ne (c := '\n') (by decide)
  have hmunch : munch '/' ('/' :: rest) =
      (.gap, (rest.takeWhile (· ≠ '\n')).length + 1) := rfl
  have hfound : ((utf8 rest).findIdx? (Char.ofUInt8 · = '\n')).getD
      (width rest) = width (rest.takeWhile (· ≠ '\n')) := by
    have hlength := length_findIdx? (Char.ofUInt8 · = '\n') (utf8 rest)
    simp only [← decide_not] at hlength
    rw [takeWhile_utf8 hascii] at hlength
    exact hlength
  rw [hmunch, taken, lineBreaks_of_ne (by decide) (by decide),
    List.take_succ_cons, take_takeWhile_length, comment, bind_modify,
    drop_bytes hbehind, length_bytes hbehind]
  have hwidth : width (front ++ '/' :: '/' :: rest.takeWhile (· ≠ '\n')) =
      width (front ++ ['/', '/']) + width (rest.takeWhile (· ≠ '\n')) := by
    rw [← width_append, List.append_assoc]
    rfl
  rw [hwidth, ← hfound]
  cases (utf8 rest).findIdx? (Char.ofUInt8 · = '\n') <;> rfl

private theorem head_dropWhile_quote
    {d : Char} {tail : List Char}
    (h : rest.dropWhile (· ≠ '"') = d :: tail) : d = '"' := by
  have hhead := List.head?_dropWhile_not (· ≠ '"') rest
  rw [h] at hhead
  simpa using hhead

theorem string_eq (h : source.toList = front ++ '"' :: rest) :
    string source ⟨width front, width (front ++ ['"']), line, none⟩ =
      some (taken front '"' rest line (munchString rest)) := by
  have hbehind : source.toList = front ++ ['"'] ++ rest := by simp [h]
  have hsplit := @List.takeWhile_append_dropWhile _ (· ≠ '"') rest
  have hcontent : source.toList = front ++ ['"'] ++
      rest.takeWhile (· ≠ '"') ++ rest.dropWhile (· ≠ '"') := by
    rw [List.append_assoc, hsplit, hbehind]
  rw [string, bind_get, stringEnd_width hbehind, munchString]
  dsimp only
  rw [bind_set, length_bytes hcontent]
  cases hstop : rest.dropWhile (· ≠ '"') with
  | nil =>
      rw [hstop, List.append_nil] at hsplit
      rw [hsplit, if_neg (Nat.lt_irrefl _), width_nil, Nat.add_zero,
        if_pos (Nat.le_refl _), taken, List.take_length, List.append_assoc,
        lineBreaks, if_neg (by decide), if_pos rfl, List.take_length]
      rfl
  | cons d tail =>
      obtain rfl := head_dropWhile_quote hstop
      rw [hstop] at hcontent hsplit
      have hlength : (rest.takeWhile (· ≠ '"')).length < rest.length := by
        conv => rhs; rw [← hsplit]
        simp
      have htake : rest.take ((rest.takeWhile (· ≠ '"')).length + 1) =
          rest.takeWhile (· ≠ '"') ++ ['"'] := by
        rw [List.take_add, take_takeWhile_length, drop_takeWhile_length, hstop]
        rfl
      have hcount : lineBreaks '"' rest
          ((rest.takeWhile (· ≠ '"')).length + 1) =
          (rest.takeWhile (· ≠ '"')).count '\n' := by
        rw [lineBreaks, if_neg (by decide), if_pos rfl, htake,
          List.count_append]
        rfl
      have hstart : width front + 1 = width (front ++ ['"']) :=
        (width_append front ['"']).symm
      have hpos := width_pos '"' tail
      rw [if_pos hlength, if_neg (by omega),
        bind_of_some (advance_of_lt (by decide) hcontent _ _ _), hstart,
        bind_of_some (slice_width (by rw [hcontent, List.append_assoc]) _),
        taken, hcount, htake]
      simp only [List.append_assoc]
      rfl

private theorem takeWhile_isDigit_append
    {digits behind : List Char} (hdigits : ∀ d ∈ digits, d.isDigit = true)
    (hbehind : ∀ d ∈ behind.head?, d.isDigit = false) :
    (digits ++ behind).takeWhile Char.isDigit = digits ∧
      (digits ++ behind).dropWhile Char.isDigit = behind := by
  rw [List.takeWhile_append_of_pos hdigits,
    List.dropWhile_append_of_pos hdigits]
  cases behind with
  | nil => simp
  | cons d behind =>
      have hd := hbehind d rfl
      simp [hd]

theorem numberOf_append
    {digits places : List Char} (hdigits : ∀ d ∈ digits, d.isDigit = true)
    (hplaces : ∀ d ∈ places, d.isDigit = true) :
    numberOf (digits ++ if places.isEmpty then [] else '.' :: places) =
      Number.ofDigits digits places := by
  have hbehind : ∀ d ∈
      (if places.isEmpty then [] else '.' :: places).head?,
      d.isDigit = false := by
    split
    · simp
    · simp
  obtain ⟨htake, hdrop⟩ := takeWhile_isDigit_append hdigits hbehind
  rw [numberOf, htake, hdrop]
  cases places with
  | nil => rfl
  | cons d places =>
      have hall := List.takeWhile_eq_self_iff.mpr hplaces
      simp only [List.isEmpty_cons, Bool.false_eq_true, if_false]
      rw [fractionDigits, hall]

theorem isDigit_of_mem_fractionDigits
    {d : Char} (h : d ∈ fractionDigits rest) : d.isDigit = true := by
  unfold fractionDigits at h
  split at h
  · exact List.mem_takeWhile_imp h
  · cases h

private theorem fractionDigits_of_ne
    (h : rest.head? ≠ some '.') : fractionDigits rest = [] := by
  unfold fractionDigits
  split
  · simp at h
  · rfl

private theorem peek_eq_iff
    {e : Char} (he : e.toNat < 128) (h : source.toList = front ++ c :: rest) :
    peek source (width front) = e ↔ c = e := by
  have hne := peek_cons (asciiOnly_ne he) h
  rw [decide_eq_decide] at hne
  exact not_iff_not.mp hne

/-- The fraction of a number lies behind its whole part. -/
theorem fraction_eq (h : source.toList = front ++ rest) :
    (if peek source (width front) = '.' ∧
        (peek source (width front + 1)).isDigit then
      skipWhile source Char.isDigit not_isDigit_zero (width front + 1)
    else width front) =
      width (front ++ if (fractionDigits rest).isEmpty then []
        else '.' :: fractionDigits rest) := by
  by_cases hhead : rest.head? = some '.'
  · obtain ⟨tail, rfl⟩ := List.head?_eq_some_iff.mp hhead
    have hbehind : source.toList = front ++ ['.'] ++ tail := by simp [h]
    have hpoint : width front + 1 = width (front ++ ['.']) :=
      (width_append front ['.']).symm
    have hpeek := (peek_eq_iff (by decide) h).mpr rfl
    rw [hpoint, skipWhile_width asciiOnly_isDigit hbehind, fractionDigits]
    cases tail with
    | nil =>
        have hend : source.toList = front ++ ['.'] := by simpa using hbehind
        rw [peek_end hend]
        simp [not_isDigit_zero]
    | cons d tail =>
        have hdigit := peek_cons asciiOnly_isDigit hbehind
        rw [hdigit]
        by_cases hd : d.isDigit = true
        · rw [List.takeWhile_cons_of_pos hd, if_pos ⟨hpeek, hd⟩,
            List.append_assoc]
          rfl
        · rw [List.takeWhile_cons_of_neg hd, if_neg fun hboth => hd hboth.2]
          simp
  · have hpeek : peek source (width front) ≠ '.' := by
      cases rest with
      | nil =>
          have hend : source.toList = front := by simpa using h
          rw [peek_end hend]
          decide
      | cons d tail =>
          rw [Ne, peek_eq_iff (by decide) h]
          simpa using hhead
    rw [if_neg fun hboth => hpeek hboth.1, fractionDigits_of_ne hhead]
    simp

theorem number_eq
    (hc : c.isDigit = true) (h : source.toList = front ++ c :: rest) :
    number source ⟨width front, width (front ++ [c]), line, none⟩ =
      some (taken front c rest line (munchNumber c rest)) := by
  have hbehind : source.toList = front ++ [c] ++ rest := by simp [h]
  have hsplit := @List.takeWhile_append_dropWhile _ Char.isDigit rest
  have hwhole : source.toList = front ++ [c] ++ rest.takeWhile Char.isDigit ++
      rest.dropWhile Char.isDigit := by
    rw [List.append_assoc, hsplit, hbehind]
  have hbreak : c ≠ '\n' := by
    rintro rfl
    cases hc
  have hquote : c ≠ '"' := by
    rintro rfl
    cases hc
  rw [number, bind_get]
  dsimp only
  rw [skipWhile_width asciiOnly_isDigit hbehind, fraction_eq hwhole, bind_set]
  have hdigits : ∀ d ∈ c :: rest.takeWhile Char.isDigit, d.isDigit = true :=
    List.forall_mem_cons.mpr ⟨hc, fun _ => List.mem_takeWhile_imp⟩
  have hplaces : ∀ d ∈ fractionDigits (rest.dropWhile Char.isDigit),
      d.isDigit = true :=
    fun _ => isDigit_of_mem_fractionDigits
  have hnumber := numberOf_append hdigits hplaces
  rw [List.cons_append, ← take_munchNumber c rest] at hnumber
  have htext : front ++ [c] ++ rest.takeWhile Char.isDigit ++
      (if (fractionDigits (rest.dropWhile Char.isDigit)).isEmpty then []
        else '.' :: fractionDigits (rest.dropWhile Char.isDigit)) =
      front ++ c :: rest.take (munchNumber c rest).2 := by
    rw [take_munchNumber, List.append_assoc, List.append_assoc]
    rfl
  have hlexeme : source.toList = front ++
      (c :: rest.take (munchNumber c rest).2 ++
        rest.drop (munchNumber c rest).2) := by
    rw [List.cons_append, List.take_append_drop, h]
  rw [htext, bind_of_some (slice_width hlexeme _), String.toList_ofList,
    hnumber, show munchNumber c rest = (.token (.number (Number.ofDigits
      (c :: rest.takeWhile Char.isDigit)
      (fractionDigits (rest.dropWhile Char.isDigit)))),
      (munchNumber c rest).2) from rfl,
    taken, lineBreaks_of_ne hbreak hquote]
  rfl

private theorem bytes_inj {a b : String} : bytes a = bytes b ↔ a = b := by
  constructor
  · intro h
    apply String.toByteArray_inj.mp
    exact ByteArray.ext (Array.toList_inj.mp h)
  · rintro rfl
    rfl

private theorem bytes_ofList (text : List Char) :
    bytes (String.ofList text) = utf8 text := by
  rw [bytes_eq, String.toList_ofList]

private theorem wordKind_eq (text : List Char) :
    wordKind (utf8 text) = Token.wordKind (String.ofList text) := by
  have hfind (entries : List (String × Kind)) :
      (entries.find? fun entry => bytes entry.1 == utf8 text).map Prod.snd =
        entries.lookup (String.ofList text) := by
    induction entries with
    | nil => rfl
    | cons entry entries ih =>
        have hsame : (bytes entry.1 == utf8 text) =
            (String.ofList text == entry.1) := by
          rw [← bytes_ofList, Bool.eq_iff_iff, beq_iff_eq, beq_iff_eq,
            bytes_inj, eq_comm]
        rw [List.find?_cons, List.lookup_cons, hsame, ← ih]
        cases String.ofList text == entry.1 <;> rfl
  rw [wordKind, Token.wordKind, hfind]

theorem word_eq
    (hc : startsWord c = true) (h : source.toList = front ++ c :: rest) :
    word source ⟨width front, width (front ++ [c]), line, none⟩ =
      some (taken front c rest line (munchWord c rest)) := by
  have hbehind : source.toList = front ++ [c] ++ rest := by simp [h]
  rw [word, bind_get]
  dsimp only
  rw [skipWhile_width asciiOnly_insideWord hbehind, bind_set]
  have hbreak : c ≠ '\n' := by
    rintro rfl
    cases hc
  have hquote : c ≠ '"' := by
    rintro rfl
    cases hc
  have hword : source.toList = front ++ (c :: rest.takeWhile insideWord ++
      rest.dropWhile insideWord) := by
    rw [List.cons_append, List.takeWhile_append_dropWhile, h]
  rw [List.append_assoc, List.singleton_append,
    bind_of_some (byteSlice_width hword _), wordKind_eq, munchWord, taken,
    take_takeWhile_length, lineBreaks_of_ne hbreak hquote]
  rfl

theorem single_eq
    {kind : Kind} (hmunch : munch c rest = (.token kind, 0))
    (hbreak : c ≠ '\n') :
    found kind ⟨width front, width (front ++ [c]), line, none⟩ =
      some (taken front c rest line (munch c rest)) := by
  have hbreaks : lineBreaks c rest 0 = 0 := by
    simp [lineBreaks, hbreak]
  rw [hmunch, taken, hbreaks]
  rfl

/-- The characters that start a piece of their own. -/
def marks : List Char :=
  ['(', ')', '\x7b', '\x7d', ',', '.', '-', '+', ';', '*', '%', '!', '=', '<',
    '>', '&', '|', ' ', '\r', '\t', '\n', '/', '"']

private theorem munch_of_not_mem_marks (h : c ∉ marks) (rest : List Char) :
    munch c rest =
      if c.isDigit then munchNumber c rest
      else if startsWord c then munchWord c rest
      else (.error (.unexpected c), 0) := by
  simp only [marks, List.mem_cons, List.not_mem_nil, or_false, not_or] at h
  have hgap : isGap c = false := by simp [isGap, h]
  have hdouble (d : Char) : doubleMark? c d = none := by
    unfold doubleMark?
    split <;> simp_all
  have hsingle : singleMark? c = none := by
    unfold singleMark?
    split <;> simp_all
  have hmark : munchMark c rest = (.error (.unexpected c), 0) := by
    cases rest <;> simp [munchMark, hdouble, hsingle]
  simp [munch, hgap, h, hmark]

private theorem slash_eq (h : source.toList = front ++ '/' :: rest) :
    (do if ← matchByte source '/' then comment source else found .slash)
        ⟨width front, width (front ++ ['/']), line, none⟩ =
      some (taken front '/' rest line (munch '/' rest)) := by
  have hbehind : source.toList = front ++ ['/'] ++ rest := by simp [h]
  by_cases hhead : rest.head? = some '/'
  · obtain ⟨tail, rfl⟩ := List.head?_eq_some_iff.mp hhead
    rw [bind_of_some (matchByte_of_head (by decide) hbehind _ _ _),
      List.append_assoc]
    exact comment_eq h
  · rw [bind_of_some (matchByte_of_ne (by decide) hbehind hhead _ _ _)]
    apply single_eq _ (by decide)
    have hmunch : munch '/' rest = munchMark '/' rest := by
      simp [munch, isGap, hhead, startsWord]
    rw [hmunch]
    cases rest <;> rfl

/-- A character of one byte starts the same piece as its byte. -/
theorem piece_of_lt
    (hc : c.toNat < 128) (h : source.toList = front ++ c :: rest) :
    piece source ⟨width front, width front, line, none⟩ =
      some (taken front c rest line (munch c rest)) := by
  rw [piece, bind_of_some (advance_of_lt hc h _ _ _)]
  split
  -- Marks of one character, and blanks.
  any_goals exact single_eq (by cases rest <;> rfl) (by decide)
  any_goals rfl
  -- Marks that may be followed by an equals sign.
  iterate 4
    exact mark_eq (by decide)
      (fun d => by unfold doubleMark?; split <;> simp_all)
      (by decide) (by decide) rfl h
  -- Marks that have to be doubled.
  iterate 2
    exact mark_eq (by decide)
      (fun d => by unfold doubleMark?; split <;> simp_all)
      (by decide) (by decide) (unexpected_eq (by decide) h _) h
  · exact slash_eq h
  · exact string_eq h
  · have hother : c ∉ marks := by
      simp_all [marks]
    rw [munch_of_not_mem_marks hother]
    split
    · exact number_eq ‹_› h
    split
    · exact word_eq ‹_› h
    · refine unexpected_eq ?_ h _
      rintro rfl
      exact hother (by decide)

/-- A character of several bytes starts no token. -/
theorem piece_of_le
    (hc : 128 ≤ c.toNat) (h : source.toList = front ++ c :: rest) :
    piece source ⟨width front, width front, line, none⟩ =
      some (taken front c rest line (munch c rest)) := by
  have hdigit (d : Char) (hd : 128 ≤ d.toNat) : ¬ d.isDigit = true := by
    intro hdigit
    have hlt := toNat_lt_of_isDigit hdigit
    omega
  have hletter (d : Char) (hd : 128 ≤ d.toNat) : ¬ startsWord d = true := by
    intro hletter
    have hlt := toNat_lt_of_startsWord hletter
    omega
  have hother : c ∉ marks := by
    intro hmem
    have hall : marks.all (·.toNat < 128) = true := rfl
    have hlt : c.toNat < 128 := by simpa using List.all_eq_true.mp hall c hmem
    omega
  obtain ⟨d, hd, hadvance⟩ := advance_of_le hc h (width front) line none
  rw [piece, bind_of_some hadvance, munch_of_not_mem_marks hother,
    if_neg (hdigit c hc), if_neg (hletter c hc)]
  split
  case h_24 =>
    rw [if_neg (hdigit d hd), if_neg (hletter d hd)]
    refine unexpected_eq ?_ h _
    rintro rfl
    exact hother (by decide)
  all_goals exact absurd hd (by decide)

private theorem piece_eq (h : source.toList = front ++ c :: rest) (line : Nat) :
    piece source ⟨width front, width front, line, none⟩ =
      some (taken front c rest line (munch c rest)) := by
  by_cases hc : c.toNat < 128
  · exact piece_of_lt hc h
  · exact piece_of_le (Nat.not_lt.mp hc) h

/-! ## Rounds -/

/-- What is found in a piece between two bytes. -/
def found? (start stop line : Nat) (text : List Char) : Piece → Option Found
  | .gap => none
  | .token kind => some ⟨.ok ⟨kind, String.ofList text, line⟩, start, stop⟩
  | .error cause => some ⟨.error ⟨cause, line⟩, start, stop⟩

/-- A round takes the piece at the front of what is left of the text. -/
theorem round_eq
    {found : Piece} {extra : Nat} (h : source.toList = front ++ c :: rest)
    (hmunch : munch c rest = (found, extra)) (start line : Nat)
    (pending : Option Kind) :
    let text := c :: rest.take extra
    let lineAfter := line + text.count '\n'
    round source ⟨start, width front, line, pending⟩ =
      some (found? (width front) (width (front ++ text)) lineAfter text found,
        ⟨width front, width (front ++ text), lineAfter, none⟩) := by
  have hinside : width front ≠ (bytes source).length := by
    have hpos := width_pos c rest
    rw [length_bytes h]
    omega
  have hlexeme : source.toList =
      front ++ (c :: rest.take extra ++ rest.drop extra) := by
    rw [List.cons_append, List.take_append_drop, h]
  have hpiece := piece_eq h line
  rw [hmunch] at hpiece
  dsimp only
  rw [← lineBreaks_eq hmunch, round, bind_get]
  simp only [hinside, if_false]
  rw [bind_set, bind_of_some hpiece]
  cases found with
  | gap => rfl
  | error cause => rfl
  | token kind =>
      dsimp only [taken]
      rw [bind_get]
      dsimp only
      rw [bind_set, bind_of_some (slice_width hlexeme _)]
      rfl

theorem round_end (h : source.toList = front) (start line : Nat)
    (pending : Option Kind) :
    round source ⟨start, width front, line, pending⟩ =
      some (some ⟨.ok ⟨.eof, "", line⟩, width front, width front⟩,
        ⟨start, width front + 1, line, pending⟩) := by
  have hend : width front = (bytes source).length := by
    rw [bytes_eq, h]
    rfl
  rw [round, bind_get]
  simp only [hend, if_true]
  rfl

theorem collect_succ
    {rounds : Nat} {cursor cursor' : Cursor} {found : Option Found}
    (hround : round source cursor = some (found, cursor'))
    (hinside : cursor.next ≤ (bytes source).length) :
    collect source (rounds + 1) cursor =
      (collect source rounds cursor').map (found.toList ++ ·) := by
  rw [collect, if_neg (Nat.not_lt.mpr hinside), hround]
  simp only [Option.bind_eq_bind, Option.bind_some]
  cases collect source rounds cursor' <;> rfl

end

end Bytes
end Token
end LoxLang
