import Mathlib.Data.List.TakeWhile
import LoxLang.Proofs.Token.Coverage

/-!
# Maximal munch

The lexical grammar says which texts are lexemes and of which class.  A scan
takes the longest lexeme at its position, whatever follows; it reports a single
character where there is no lexeme at all, and a quote that is not closed
together with all that is left of the text.
-/

namespace LoxLang
namespace Token

def IsLetter (c : Char) : Prop :=
  ('a' ≤ c ∧ c ≤ 'z') ∨ ('A' ≤ c ∧ c ≤ 'Z') ∨ c = '_'

def IsDigit (c : Char) : Prop :=
  '0' ≤ c ∧ c ≤ '9'

def singleMarks : List (Char × Kind) :=
  [('(', .leftParen), (')', .rightParen), ('\x7b', .leftBrace),
    ('\x7d', .rightBrace), (',', .comma), ('.', .dot), ('-', .minus),
    ('+', .plus), (';', .semicolon), ('*', .star), ('%', .percent),
    ('/', .slash), ('!', .bang), ('=', .equal), ('<', .less), ('>', .greater)]

def doubleMarks : List ((Char × Char) × Kind) :=
  [(('!', '='), .bangEqual), (('=', '='), .equalEqual),
    (('<', '='), .lessEqual), (('>', '='), .greaterEqual),
    (('&', '&'), .andWord), (('|', '|'), .orWord)]

instance : DecidablePred IsLetter :=
  fun c => inferInstanceAs
    (Decidable (('a' ≤ c ∧ c ≤ 'z') ∨ ('A' ≤ c ∧ c ≤ 'Z') ∨ c = '_'))

instance : DecidablePred IsDigit :=
  fun c => inferInstanceAs (Decidable ('0' ≤ c ∧ c ≤ '9'))

/-- The lexical grammar: the text is a lexeme, and this is what it stands
for. -/
inductive Lexeme : List Char → Piece → Prop where
  | blank {c : Char} : c ∈ [' ', '\t', '\r', '\n'] → Lexeme [c] .gap
  | comment {body : List Char} :
      '\n' ∉ body → Lexeme ('/' :: '/' :: body) .gap
  | single {c : Char} {kind : Kind} :
      (c, kind) ∈ singleMarks → Lexeme [c] (.token kind)
  | double {c d : Char} {kind : Kind} :
      ((c, d), kind) ∈ doubleMarks → Lexeme [c, d] (.token kind)
  | string {content : List Char} :
      '"' ∉ content →
      Lexeme ('"' :: (content ++ ['"']))
        (.token (.string (String.ofList content)))
  | whole {digits : List Char} :
      digits ≠ [] → (∀ d ∈ digits, IsDigit d) →
      Lexeme digits (.token (.number (Number.ofDigits digits [])))
  | fraction {digits places : List Char} :
      digits ≠ [] → (∀ d ∈ digits, IsDigit d) →
      places ≠ [] → (∀ d ∈ places, IsDigit d) →
      Lexeme (digits ++ '.' :: places)
        (.token (.number (Number.ofDigits digits places)))
  | keyword {word : String} {kind : Kind} :
      (word, kind) ∈ keywords → Lexeme word.toList (.token kind)
  | identifier {c : Char} {tail : List Char} :
      IsLetter c → (∀ d ∈ tail, IsLetter d ∨ IsDigit d) →
      String.ofList (c :: tail) ∉ keywords.map Prod.fst →
      Lexeme (c :: tail) (.token .identifier)

/-- In front of `rest`, the lexeme cannot be made longer. -/
structure IsLongest (text : List Char) (piece : Piece) (rest : List Char) :
    Prop where
  lexeme : Lexeme text piece
  longest : ∀ other otherPiece, Lexeme other otherPiece →
    other <+: text ++ rest → other.length ≤ text.length

/-- The text, which goes on at `line`, is cut into these items by maximal
munch. -/
inductive Munches : Nat → List Char → List Item → Prop where
  | stop {line : Nat} : Munches line [] [.ok ⟨.eof, "", line⟩]
  | gap {line : Nat} {text rest : List Char} {items : List Item} :
      IsLongest text .gap rest →
      Munches (line + text.count '\n') rest items →
      Munches line (text ++ rest) items
  | token {line : Nat} {text rest : List Char} {kind : Kind}
      {items : List Item} :
      IsLongest text (.token kind) rest →
      Munches (line + text.count '\n') rest items →
      Munches line (text ++ rest)
        (.ok ⟨kind, String.ofList text, line + text.count '\n'⟩ :: items)
  | unexpected {line : Nat} {c : Char} {rest : List Char}
      {items : List Item} :
      c ≠ '"' → (∀ text piece, Lexeme text piece → ¬ text <+: c :: rest) →
      Munches line rest items →
      Munches line (c :: rest) (.error ⟨.unexpected c, line⟩ :: items)
  | unterminated {line : Nat} {rest : List Char} :
      '"' ∉ rest →
      Munches line ('"' :: rest)
        [.error ⟨.unterminated, line + rest.count '\n'⟩,
          .ok ⟨.eof, "", line + rest.count '\n'⟩]

/-! ## Classes of characters -/

section
variable {c : Char}

theorem isGap_iff : isGap c = true ↔ c ∈ [' ', '\t', '\r', '\n'] := by
  simp only [isGap, Bool.or_eq_true, beq_iff_eq, List.mem_cons,
    List.not_mem_nil, or_false]
  tauto

theorem isDigit_iff : c.isDigit = true ↔ IsDigit c := by
  simp [Char.isDigit, IsDigit, Char.le_def]

theorem startsWord_iff : startsWord c = true ↔ IsLetter c := by
  have hupper : c.isUpper = true ↔ 'A' ≤ c ∧ c ≤ 'Z' := decide_eq_true_iff
  have hlower : c.isLower = true ↔ 'a' ≤ c ∧ c ≤ 'z' :=
    Bool.and_eq_true_iff.trans (and_congr decide_eq_true_iff decide_eq_true_iff)
  have halpha : c.isAlpha = (c.isUpper || c.isLower) := rfl
  simp only [startsWord, halpha, Bool.or_eq_true, hupper, hlower, beq_iff_eq,
    IsLetter]
  tauto

theorem insideWord_iff : insideWord c = true ↔ IsLetter c ∨ IsDigit c := by
  rw [← startsWord_iff, ← isDigit_iff]
  simp only [insideWord, startsWord, Char.isAlphanum, Bool.or_eq_true,
    beq_iff_eq]
  tauto

theorem IsLetter.not_isDigit (h : IsLetter c) : ¬ IsDigit c := by
  intro hdigit
  simp only [IsDigit, Char.le_def] at hdigit
  rcases h with h | h | rfl
  · simp only [Char.le_def] at h
    grind
  · simp only [Char.le_def] at h
    grind
  · exact absurd hdigit (by decide)

/-- A class that has no blank, slash or quote is looked for behind them. -/
theorem plain_of_class
    {p : Char → Bool} (h : p c = true)
    (hp : [' ', '\t', '\r', '\n', '/', '"'].any p = false) :
    isGap c = false ∧ c ≠ '/' ∧ c ≠ '"' := by
  have hne (d : Char) (hd : d ∈ [' ', '\t', '\r', '\n', '/', '"']) : c ≠ d := by
    rintro rfl
    rw [List.any_eq_false] at hp
    exact hp c hd h
  refine ⟨?_, hne '/' (by simp), hne '"' (by simp)⟩
  rw [Bool.eq_false_iff, ne_eq, isGap_iff]
  intro hmem
  exact hne c (List.mem_append_left ['/', '"'] hmem) rfl

end

/-! ## Tables -/

theorem singleMark?_iff (c : Char) (kind : Kind) :
    singleMark? c = some kind ↔ (c, kind) ∈ singleMarks := by
  constructor
  · intro h
    unfold singleMark? at h
    split at h <;> cases h <;> decide
  · have hall : ∀ entry ∈ singleMarks, singleMark? entry.1 = some entry.2 := by
      decide
    exact hall (c, kind)

theorem doubleMark?_iff (c d : Char) (kind : Kind) :
    doubleMark? c d = some kind ↔ ((c, d), kind) ∈ doubleMarks := by
  constructor
  · intro h
    unfold doubleMark? at h
    split at h <;> cases h <;> decide
  · have hall : ∀ entry ∈ doubleMarks,
        doubleMark? entry.1.1 entry.1.2 = some entry.2 := by
      decide
    exact hall ((c, d), kind)

/-- No mark starts like a piece of another class, a comment apart. -/
theorem munch_of_single
    {c : Char} {kind : Kind} (h : (c, kind) ∈ singleMarks) (rest : List Char)
    (hcomment : ¬ (c = '/' ∧ rest.head? = some '/')) :
    munch c rest = munchMark c rest := by
  have hall : ∀ entry ∈ singleMarks, isGap entry.1 = false ∧ entry.1 ≠ '"' ∧
      entry.1.isDigit = false ∧ startsWord entry.1 = false := by
    decide
  obtain ⟨hgap, hquote, hdigit, hword⟩ := hall (c, kind) h
  simp only [munch, hgap, hcomment, hquote, hdigit, hword, if_false,
    Bool.false_eq_true]

theorem munch_of_double
    {c d : Char} {kind : Kind} (h : ((c, d), kind) ∈ doubleMarks)
    (rest : List Char) : munch c rest = munchMark c rest := by
  have hall : ∀ entry ∈ doubleMarks, isGap entry.1.1 = false ∧
      entry.1.1 ≠ '/' ∧ entry.1.1 ≠ '"' ∧ entry.1.1.isDigit = false ∧
      startsWord entry.1.1 = false := by
    decide
  obtain ⟨hgap, hslash, hquote, hdigit, hword⟩ := hall ((c, d), kind) h
  simp only [munch, hgap, hslash, hquote, hdigit, hword, if_false, false_and,
    Bool.false_eq_true]

theorem munch_of_isDigit {c : Char} (h : IsDigit c) (rest : List Char) :
    munch c rest = munchNumber c rest := by
  rw [← isDigit_iff] at h
  obtain ⟨hgap, hslash, hquote⟩ := plain_of_class h (by decide)
  simp only [munch, hgap, hslash, hquote, h, if_false, if_true, false_and,
    Bool.false_eq_true]

theorem munch_of_isLetter {c : Char} (h : IsLetter c) (rest : List Char) :
    munch c rest = munchWord c rest := by
  have hdigit : c.isDigit = false := by
    rw [Bool.eq_false_iff, ne_eq, isDigit_iff]
    exact h.not_isDigit
  rw [← startsWord_iff] at h
  obtain ⟨hgap, hslash, hquote⟩ := plain_of_class h (by decide)
  simp only [munch, hgap, hslash, hquote, hdigit, h, if_false, if_true,
    false_and, Bool.false_eq_true]

theorem wordKind_of_mem {word : String} {kind : Kind}
    (h : (word, kind) ∈ keywords) : wordKind word = kind := by
  have hall : ∀ entry ∈ keywords, wordKind entry.1 = entry.2 := by decide
  exact hall (word, kind) h

theorem wordKind_of_not_mem {word : String}
    (h : word ∉ keywords.map Prod.fst) : wordKind word = .identifier := by
  have hnone : keywords.lookup word = none := by
    rw [List.lookup_eq_none_iff]
    intro entry hentry
    rw [bne_iff_ne]
    rintro rfl
    exact h (List.mem_map_of_mem hentry)
  simp [wordKind, hnone]

/-- The keywords are shaped like identifiers. -/
theorem letters_of_mem {word : String} {kind : Kind} {c : Char}
    {tail : List Char} (h : (word, kind) ∈ keywords)
    (hword : word.toList = c :: tail) :
    IsLetter c ∧ ∀ d ∈ tail, IsLetter d ∨ IsDigit d := by
  have hall : ∀ entry ∈ keywords, entry.1.toList.head?.all startsWord = true ∧
      entry.1.toList.tail.all insideWord = true := by
    decide
  obtain ⟨hhead, htail⟩ := hall (word, kind) h
  simp only [hword, List.head?_cons, Option.all_some, List.tail_cons,
    List.all_eq_true, insideWord_iff, startsWord_iff] at hhead htail
  exact ⟨hhead, htail⟩

/-! ## No lexeme is longer than what is taken -/

/-- A run of a class is taken whole, or with more behind it. -/
theorem takeWhile_append_or_lt
    {p : Char → Bool} {text : List Char} (h : ∀ d ∈ text, p d = true)
    (rest : List Char) :
    (text ++ rest).takeWhile p = text ∨
      text.length < ((text ++ rest).takeWhile p).length := by
  rw [List.takeWhile_append_of_pos h]
  cases rest.takeWhile p with
  | nil => exact .inl (List.append_nil text)
  | cons d more =>
      right
      simp only [List.length_append, List.length_cons]
      omega

theorem munchWord_or_lt
    {tail : List Char} (h : ∀ d ∈ tail, IsLetter d ∨ IsDigit d)
    (c : Char) (rest : List Char) :
    munchWord c (tail ++ rest) =
        (.token (wordKind (String.ofList (c :: tail))), tail.length) ∨
      tail.length < (munchWord c (tail ++ rest)).2 := by
  simp only [← insideWord_iff] at h
  rcases takeWhile_append_or_lt h rest with htail | hlt
  · left
    simp only [munchWord, htail]
  · exact .inr hlt

theorem munchNumber_or_lt_of_whole
    {tail : List Char} (h : ∀ d ∈ tail, IsDigit d)
    (c : Char) (rest : List Char) :
    munchNumber c (tail ++ rest) =
        (.token (.number (Number.ofDigits (c :: tail) [])), tail.length) ∨
      tail.length < (munchNumber c (tail ++ rest)).2 := by
  simp only [← isDigit_iff] at h
  rcases takeWhile_append_or_lt h rest with htail | hlt
  · simp only [munchNumber, htail]
    cases fractionDigits ((tail ++ rest).dropWhile Char.isDigit) with
    | nil => exact .inl rfl
    | cons d places =>
        right
        simp only [List.isEmpty_cons, Bool.false_eq_true, if_false]
        omega
  · right
    simp only [munchNumber]
    omega

theorem munchNumber_or_lt_of_fraction
    {tail places : List Char} (htail : ∀ d ∈ tail, IsDigit d)
    (hsome : places ≠ []) (hplaces : ∀ d ∈ places, IsDigit d)
    (c : Char) (rest : List Char) :
    munchNumber c (tail ++ '.' :: (places ++ rest)) =
        (.token (.number (Number.ofDigits (c :: tail) places)),
          tail.length + (places.length + 1)) ∨
      tail.length + (places.length + 1) <
        (munchNumber c (tail ++ '.' :: (places ++ rest))).2 := by
  simp only [← isDigit_iff] at htail hplaces
  have hwhole : (tail ++ '.' :: (places ++ rest)).takeWhile Char.isDigit =
      tail := by
    rw [List.takeWhile_append_of_pos htail,
      List.takeWhile_cons_of_neg (by decide), List.append_nil]
  have hrest : (tail ++ '.' :: (places ++ rest)).dropWhile Char.isDigit =
      '.' :: (places ++ rest) := by
    rw [← drop_takeWhile_length, hwhole, List.drop_left]
  have hfraction (digits : List Char) (hlong : places.length ≤ digits.length) :
      digits.isEmpty = false := by
    cases digits with
    | nil =>
        have hnil := List.eq_nil_of_length_eq_zero (Nat.le_zero.mp hlong)
        exact absurd hnil hsome
    | cons d digits => rfl
  simp only [munchNumber, hwhole, hrest, fractionDigits]
  rcases takeWhile_append_or_lt hplaces rest with hall | hlt
  · left
    rw [hall, hfraction places (Nat.le_refl _)]
    rfl
  · right
    rw [hfraction _ (Nat.le_of_lt hlt)]
    simp only [Bool.false_eq_true, if_false]
    omega

private theorem munchString_of_closed
    {content : List Char} (h : '"' ∉ content) (rest : List Char) :
    munchString (content ++ '"' :: rest) =
      (.token (.string (String.ofList content)), content.length + 1) := by
  have hcontent : (content ++ '"' :: rest).takeWhile (· ≠ '"') = content := by
    rw [List.takeWhile_append_of_pos, List.takeWhile_cons_of_neg (by simp),
      List.append_nil]
    intro d hd
    simp only [decide_eq_true_eq]
    rintro rfl
    exact h hd
  have hlt : content.length < (content ++ '"' :: rest).length := by simp
  simp only [munchString, hcontent, if_pos hlt]

private theorem munchMark_of_double
    {c d : Char} {kind : Kind} (h : ((c, d), kind) ∈ doubleMarks)
    (rest : List Char) : munchMark c (d :: rest) = (.token kind, 1) := by
  rw [← doubleMark?_iff] at h
  simp only [munchMark, List.head?_cons, Option.bind_some, h]

private theorem munchMark_or_lt
    {c : Char} {kind : Kind} (h : (c, kind) ∈ singleMarks)
    (rest : List Char) :
    munchMark c rest = (.token kind, 0) ∨ 0 < (munchMark c rest).2 := by
  rw [← singleMark?_iff] at h
  unfold munchMark
  cases rest.head?.bind (doubleMark? c) with
  | some other => exact .inr Nat.one_pos
  | none =>
      left
      simp only [h]

theorem Lexeme.munch_or_lt
    {lexeme : List Char} {piece : Piece} (h : Lexeme lexeme piece)
    {c : Char} {text : List Char} (hlexeme : lexeme = c :: text)
    (rest : List Char) :
    munch c (text ++ rest) = (piece, text.length) ∨
      text.length < (munch c (text ++ rest)).2 := by
  cases h with
  | blank hblank =>
      cases hlexeme
      left
      rw [← isGap_iff] at hblank
      simp only [munch, hblank, if_true, List.length_nil]
  | comment hbody =>
      cases hlexeme
      rename_i body
      have hline : ∀ d ∈ '/' :: body, decide (d ≠ '\n') = true := by
        intro d hd
        rw [decide_eq_true_eq]
        rintro rfl
        simp [hbody] at hd
      have hmunch : munch '/' ('/' :: body ++ rest) =
          (.gap, (('/' :: body ++ rest).takeWhile (· ≠ '\n')).length) := rfl
      rw [hmunch]
      rcases takeWhile_append_or_lt hline rest with hall | hlt
      · rw [hall]
        exact .inl rfl
      · exact .inr hlt
  | single hmark =>
      cases hlexeme
      by_cases hcomment : c = '/' ∧ rest.head? = some '/'
      · right
        obtain ⟨rfl, hhead⟩ := hcomment
        cases rest with
        | nil => cases hhead
        | cons d rest =>
            cases hhead
            exact Nat.succ_pos _
      · rw [List.nil_append, munch_of_single hmark rest hcomment]
        exact munchMark_or_lt hmark rest
  | double hmark =>
      cases hlexeme
      left
      rw [munch_of_double hmark]
      exact munchMark_of_double hmark rest
  | string hcontent =>
      cases hlexeme
      left
      rw [List.append_assoc, List.length_append]
      exact munchString_of_closed hcontent rest
  | whole hsome hdigits =>
      subst hlexeme
      rw [munch_of_isDigit (hdigits c List.mem_cons_self)]
      exact munchNumber_or_lt_of_whole
        (fun d hd => hdigits d (List.mem_cons_of_mem c hd)) c rest
  | fraction hsome hdigits hplace hplaces =>
      rename_i digits places
      cases digits with
      | nil => exact absurd rfl hsome
      | cons first tail =>
          rw [List.cons_append] at hlexeme
          obtain ⟨rfl, rfl⟩ := List.cons.inj hlexeme
          rw [munch_of_isDigit (hdigits first List.mem_cons_self),
            List.append_assoc, List.length_append]
          exact munchNumber_or_lt_of_fraction
            (fun d hd => hdigits d (List.mem_cons_of_mem first hd)) hplace
            hplaces first rest
  | keyword hword =>
      obtain ⟨hletter, htail⟩ := letters_of_mem hword hlexeme
      rw [munch_of_isLetter hletter]
      have hor := munchWord_or_lt htail c rest
      rwa [← hlexeme, String.ofList_toList, wordKind_of_mem hword] at hor
  | identifier hletter htail hordinary =>
      cases hlexeme
      rw [munch_of_isLetter hletter]
      have hor := munchWord_or_lt htail c rest
      rwa [wordKind_of_not_mem hordinary] at hor

/-! ## What is taken is a lexeme -/

theorem lexeme_of_word
    {c : Char} {tail : List Char} (hletter : IsLetter c)
    (htail : ∀ d ∈ tail, IsLetter d ∨ IsDigit d) :
    Lexeme (c :: tail) (.token (wordKind (String.ofList (c :: tail)))) := by
  by_cases hmem : String.ofList (c :: tail) ∈ keywords.map Prod.fst
  · rw [List.mem_map] at hmem
    rcases hmem with ⟨⟨word, kind⟩, hentry, hword⟩
    have hlexeme := Lexeme.keyword hentry
    dsimp only at hword
    rwa [hword, String.toList_ofList, ← wordKind_of_mem hentry, hword]
      at hlexeme
  · rw [wordKind_of_not_mem hmem]
    exact .identifier hletter htail hmem

private theorem isDigit_of_mem_takeWhile {rest : List Char} :
    ∀ d ∈ rest.takeWhile Char.isDigit, IsDigit d := by
  intro d hd
  exact isDigit_iff.mp (List.mem_takeWhile_imp hd)

private theorem exists_of_fractionDigits_ne_nil
    {behind : List Char} (h : fractionDigits behind ≠ []) :
    ∃ more, behind = '.' :: more := by
  unfold fractionDigits at h
  split at h
  · exact ⟨_, rfl⟩
  · exact absurd rfl h

private theorem lexeme_of_munchNumber
    {c : Char} (hdigit : IsDigit c) (rest : List Char) :
    Lexeme (c :: rest.take (munchNumber c rest).2) (munchNumber c rest).1 := by
  have hwhole : ∀ d ∈ c :: rest.takeWhile Char.isDigit, IsDigit d := by
    intro d hd
    rcases List.mem_cons.mp hd with rfl | hd
    · exact hdigit
    · exact isDigit_of_mem_takeWhile d hd
  by_cases hnone : fractionDigits (rest.dropWhile Char.isDigit) = []
  · simp only [munchNumber, hnone, List.isEmpty_nil, if_true, Nat.add_zero]
    rw [take_takeWhile_length]
    exact .whole (List.cons_ne_nil _ _) hwhole
  · obtain ⟨more, hmore⟩ := exists_of_fractionDigits_ne_nil hnone
    have hplaces : fractionDigits (rest.dropWhile Char.isDigit) =
        more.takeWhile Char.isDigit := by
      rw [hmore]
      rfl
    have hempty : (more.takeWhile Char.isDigit).isEmpty = false := by
      rw [hplaces] at hnone
      simpa using hnone
    have htake : rest.take ((rest.takeWhile Char.isDigit).length +
        ((more.takeWhile Char.isDigit).length + 1)) =
          rest.takeWhile Char.isDigit ++
            '.' :: more.takeWhile Char.isDigit := by
      rw [List.take_add, take_takeWhile_length, drop_takeWhile_length, hmore,
        List.take_succ_cons, take_takeWhile_length]
    simp only [munchNumber, hplaces, hempty, Bool.false_eq_true, if_false]
    rw [htake]
    rw [hplaces] at hnone
    exact .fraction (List.cons_ne_nil _ _) hwhole hnone
      isDigit_of_mem_takeWhile

private theorem lexeme_of_munchString
    {rest : List Char} {kind : Kind} {extra : Nat}
    (h : munchString rest = (.token kind, extra)) :
    Lexeme ('"' :: rest.take extra) (.token kind) := by
  unfold munchString at h
  dsimp only at h
  split at h
  · rename_i hlt
    cases h
    have hquote : '"' ∉ rest.takeWhile (· ≠ '"') := by
      intro hmem
      simpa using List.mem_takeWhile_imp hmem
    have hbehind : ∃ more, rest.dropWhile (· ≠ '"') = '"' :: more := by
      have hstop := List.head?_dropWhile_not (· ≠ '"') rest
      rw [← drop_takeWhile_length] at hstop ⊢
      cases hdrop : rest.drop (rest.takeWhile (· ≠ '"')).length with
      | nil => exact absurd (List.drop_eq_nil_iff.mp hdrop) (Nat.not_le.mpr hlt)
      | cons d more =>
          rw [hdrop] at hstop
          simp only [List.head?_cons] at hstop
          exact ⟨more, by simpa using hstop⟩
    obtain ⟨more, hmore⟩ := hbehind
    rw [List.take_add, take_takeWhile_length, drop_takeWhile_length, hmore,
      List.take_succ_cons, List.take_zero]
    exact .string hquote
  · cases h

private theorem lexeme_of_munchMark
    {c : Char} {rest : List Char} {kind : Kind} {extra : Nat}
    (h : munchMark c rest = (.token kind, extra)) :
    Lexeme (c :: rest.take extra) (.token kind) := by
  unfold munchMark at h
  split at h
  · rename_i hmark
    cases h
    cases rest with
    | nil => cases hmark
    | cons d rest => exact .double ((doubleMark?_iff c d kind).mp hmark)
  · split at h
    · rename_i hmark
      cases h
      exact .single ((singleMark?_iff c kind).mp hmark)
    · cases h

theorem lexeme_of_munch
    {c : Char} {rest : List Char} {piece : Piece} {extra : Nat}
    (h : munch c rest = (piece, extra))
    (hpiece : ∀ cause, piece ≠ .error cause) :
    Lexeme (c :: rest.take extra) piece := by
  cases piece with
  | error cause => exact absurd rfl (hpiece cause)
  | gap =>
      rcases munch_gap h with ⟨hblank, rfl⟩ | ⟨body, htext, hbody, -⟩
      · exact .blank hblank
      · rw [htext]
        exact .comment hbody
  | token kind =>
      unfold munch at h
      split at h
      · cases h
      split at h
      · cases h
      split at h
      · rename_i hquote
        subst hquote
        exact lexeme_of_munchString h
      split at h
      · rename_i hdigit
        have hlexeme := lexeme_of_munchNumber (isDigit_iff.mp hdigit) rest
        rwa [h] at hlexeme
      split at h
      · rename_i hletter
        cases h
        rw [take_takeWhile_length]
        exact lexeme_of_word (startsWord_iff.mp hletter)
          fun d hd => insideWord_iff.mp (List.mem_takeWhile_imp hd)
      · exact lexeme_of_munchMark h

/-! ## Positions of the scan -/

theorem Lexeme.exists_cons
    {text : List Char} {piece : Piece} (h : Lexeme text piece) :
    ∃ c tail, text = c :: tail := by
  cases h with
  | blank | comment | single | double | string | identifier => exact ⟨_, _, rfl⟩
  | whole hsome => exact List.exists_cons_of_ne_nil hsome
  | fraction hsome => exact List.exists_cons_of_ne_nil (by simp)
  | keyword hword =>
      have hall : ∀ entry ∈ keywords, entry.1.toList ≠ [] := by decide
      exact List.exists_cons_of_ne_nil (hall _ hword)

theorem Lexeme.ne_error
    {text : List Char} {piece : Piece} (h : Lexeme text piece)
    (cause : LexError.Cause) : piece ≠ .error cause := by
  cases h <;> simp

theorem Lexeme.munch_of_prefix
    {lexeme : List Char} {piece : Piece} (h : Lexeme lexeme piece)
    {c : Char} {rest : List Char} (hfront : lexeme <+: c :: rest) :
    ∃ text, lexeme = c :: text ∧
      (munch c rest = (piece, text.length) ∨
        text.length < (munch c rest).2) := by
  obtain ⟨d, text, rfl⟩ := h.exists_cons
  obtain ⟨behind, hbehind⟩ := hfront
  rw [List.cons_append] at hbehind
  obtain ⟨rfl, rfl⟩ := List.cons.inj hbehind
  exact ⟨text, rfl, h.munch_or_lt rfl behind⟩

/-- Among the lexemes, only strings start with a quote. -/
theorem Lexeme.quote_mem
    {lexeme : List Char} {piece : Piece} (h : Lexeme lexeme piece)
    {text : List Char} (hlexeme : lexeme = '"' :: text) : '"' ∈ text := by
  cases h with
  | blank hblank =>
      cases hlexeme
      exact absurd hblank (by decide)
  | comment => cases hlexeme
  | single hmark =>
      cases hlexeme
      rw [← singleMark?_iff] at hmark
      cases hmark
  | double hmark =>
      cases hlexeme
      rw [← doubleMark?_iff] at hmark
      cases hmark
  | string =>
      cases hlexeme
      exact List.mem_append_right _ (List.mem_singleton_self _)
  | whole hsome hdigits =>
      subst hlexeme
      exact absurd (hdigits '"' List.mem_cons_self) (by decide)
  | fraction hsome hdigits hplace hplaces =>
      rename_i digits places
      cases digits with
      | nil => exact absurd rfl hsome
      | cons first tail =>
          cases hlexeme
          exact absurd (hdigits '"' List.mem_cons_self) (by decide)
  | keyword hword =>
      exact absurd (letters_of_mem hword hlexeme).1 (by decide)
  | identifier hletter =>
      cases hlexeme
      exact absurd hletter (by decide)

theorem isLongest_of_munch
    {c : Char} {rest : List Char} {piece : Piece} {extra : Nat}
    (h : munch c rest = (piece, extra))
    (hpiece : ∀ cause, piece ≠ .error cause) :
    IsLongest (c :: rest.take extra) piece (rest.drop extra) := by
  have hlength : extra ≤ rest.length := by
    have hle := munch_length c rest
    rwa [h] at hle
  constructor
  · exact lexeme_of_munch h hpiece
  · intro other otherPiece hother hfront
    rw [List.cons_append, List.take_append_drop] at hfront
    obtain ⟨text, rfl, hmunch⟩ := hother.munch_of_prefix hfront
    rw [h] at hmunch
    rw [List.length_cons, List.length_cons, List.length_take_of_le hlength]
    rcases hmunch with heq | hlt
    · exact Nat.succ_le_succ (Nat.le_of_eq (congrArg Prod.snd heq).symm)
    · exact Nat.succ_le_succ (Nat.le_of_lt hlt)

theorem IsLongest.munch_eq
    {c : Char} {text rest : List Char} {piece : Piece}
    (h : IsLongest (c :: text) piece rest) :
    munch c (text ++ rest) = (piece, text.length) := by
  rcases h.lexeme.munch_or_lt rfl rest with heq | hlt
  · exact heq
  · exfalso
    rcases hmunch : munch c (text ++ rest) with ⟨found, extra⟩
    rw [hmunch] at hlt
    have hlexeme : ∀ cause, found ≠ .error cause := by
      rintro cause rfl
      rcases munch_error hmunch with ⟨-, rfl⟩ | ⟨-, rfl, hopen, -⟩
      · exact Nat.not_lt_zero _ hlt
      · exact hopen (List.mem_append_left rest (h.lexeme.quote_mem rfl))
    have hlength : extra ≤ (text ++ rest).length := by
      have hle := munch_length c (text ++ rest)
      rwa [hmunch] at hle
    have hle := h.longest _ _ (lexeme_of_munch hmunch hlexeme) (by
      rw [List.cons_append, List.prefix_cons_inj]
      exact List.take_prefix extra _)
    rw [List.length_cons, List.length_cons, List.length_take_of_le hlength]
      at hle
    exact Nat.not_lt.mpr (Nat.le_of_succ_le_succ hle) hlt

theorem munch_of_open {rest : List Char} (h : '"' ∉ rest) :
    munch '"' rest = (.error .unterminated, rest.length) := by
  have hall : rest.takeWhile (· ≠ '"') = rest := by
    rw [List.takeWhile_eq_self_iff]
    intro d hd
    rw [decide_eq_true_eq]
    rintro rfl
    exact h hd
  have hmunch : munch '"' rest = munchString rest := rfl
  simp only [hmunch, munchString, hall, Nat.lt_irrefl, if_false]

theorem munch_of_no_lexeme
    {c : Char} {rest : List Char} (hquote : c ≠ '"')
    (h : ∀ text piece, Lexeme text piece → ¬ text <+: c :: rest) :
    munch c rest = (.error (.unexpected c), 0) := by
  rcases hmunch : munch c rest with ⟨found, extra⟩
  cases found with
  | error cause =>
      rcases munch_error hmunch with ⟨rfl, rfl⟩ | ⟨-, hc, -⟩
      · rfl
      · exact absurd hc hquote
  | gap | token kind =>
      exact absurd
        (List.prefix_cons_inj c |>.mpr (List.take_prefix extra rest))
        (h _ _ (lexeme_of_munch hmunch (by simp)))

theorem ne_quote_of_munch
    {c : Char} {rest : List Char}
    (h : munch c rest = (.error (.unexpected c), 0)) : c ≠ '"' := by
  rintro rfl
  have hmunch : munch '"' rest = munchString rest := rfl
  rw [hmunch, munchString] at h
  split at h <;> cases h

private theorem no_lexeme_of_munch
    {c : Char} {rest : List Char}
    (h : munch c rest = (.error (.unexpected c), 0))
    {text : List Char} {piece : Piece} (hlexeme : Lexeme text piece) :
    ¬ text <+: c :: rest := by
  intro hfront
  obtain ⟨tail, -, heq | hlt⟩ := hlexeme.munch_of_prefix hfront
  · rw [h] at heq
    exact hlexeme.ne_error _ (congrArg Prod.fst heq).symm
  · rw [h] at hlt
    exact Nat.not_lt_zero _ hlt

private theorem count_of_no_lexeme
    {c : Char} {rest : List Char}
    (h : ∀ text piece, Lexeme text piece → ¬ text <+: c :: rest) :
    [c].count '\n' = 0 := by
  rw [List.count_singleton, if_neg]
  intro hbreak
  rw [beq_iff_eq] at hbreak
  subst hbreak
  exact h ['\n'] .gap (.blank (by decide)) ⟨rest, rfl⟩

theorem Munches.scanFrom_eq
    {line : Nat} {text : List Char} {items : List Item}
    (h : Munches line text items) : scanFrom line text = items := by
  induction h with
  | stop => rw [scanFrom]
  | gap hlongest hrest ih =>
      obtain ⟨c, tail, rfl⟩ := hlongest.lexeme.exists_cons
      rw [List.cons_append, scanFrom_gap hlongest.munch_eq]
      simp only [List.take_left, List.drop_left]
      exact ih
  | token hlongest hrest ih =>
      obtain ⟨c, tail, rfl⟩ := hlongest.lexeme.exists_cons
      rw [List.cons_append, scanFrom_token hlongest.munch_eq]
      simp only [List.take_left, List.drop_left, ih]
  | unexpected hquote hnone hrest ih =>
      rw [scanFrom_error (munch_of_no_lexeme hquote hnone)]
      simp only [List.take_zero, List.drop_zero, count_of_no_lexeme hnone,
        Nat.add_zero, ih]
  | unterminated hopen =>
      rw [scanFrom_error (munch_of_open hopen)]
      simp only [List.take_length, List.drop_length, scanFrom,
        List.count_cons_of_ne (by decide : '"' ≠ '\n')]

private theorem munches_scanFrom (line : Nat) (text : List Char) :
    Munches line text (scanFrom line text) := by
  induction line, text using scanFrom_induction with
  | stop line =>
      rw [scanFrom]
      exact .stop
  | gap line c rest extra hmunch ih =>
      rw [scanFrom_gap hmunch]
      have hmunches := Munches.gap (isLongest_of_munch hmunch (by simp)) ih
      rwa [List.cons_append, List.take_append_drop] at hmunches
  | token line c rest extra kind hmunch ih =>
      rw [scanFrom_token hmunch]
      have hmunches := Munches.token (isLongest_of_munch hmunch (by simp)) ih
      rwa [List.cons_append, List.take_append_drop] at hmunches
  | error line c rest extra cause hmunch ih =>
      rw [scanFrom_error hmunch]
      rcases munch_error hmunch with ⟨rfl, rfl⟩ | ⟨rfl, rfl, hopen, rfl⟩
      · have hnone : ∀ text piece, Lexeme text piece →
            ¬ text <+: c :: rest :=
          fun _ _ hlexeme => no_lexeme_of_munch hmunch hlexeme
        simp only [List.take_zero, List.drop_zero,
          count_of_no_lexeme hnone, Nat.add_zero] at ih ⊢
        exact .unexpected (ne_quote_of_munch hmunch) hnone ih
      · simp only [List.take_length, List.drop_length, scanFrom,
          List.count_cons_of_ne (by decide : '"' ≠ '\n')]
        exact .unterminated hopen

/-- Every token is a lexeme of its kind, apart from the end mark, whose lexeme
is empty. -/
theorem Munches.lexeme
    {line : Nat} {text : List Char} {items : List Item}
    (h : Munches line text items) {token : Token}
    (hmem : .ok token ∈ items) :
    token.kind = .eof ∧ token.lexeme = "" ∨
      Lexeme token.lexeme.toList (.token token.kind) := by
  induction h with
  | stop =>
      rw [List.mem_singleton, Except.ok.injEq] at hmem
      subst hmem
      exact .inl ⟨rfl, rfl⟩
  | gap _ _ ih => exact ih hmem
  | token hlongest _ ih =>
      rcases List.mem_cons.mp hmem with hfirst | hrest
      · rw [Except.ok.inj hfirst]
        refine .inr ?_
        rw [String.toList_ofList]
        exact hlongest.lexeme
      · exact ih hrest
  | unexpected _ _ _ ih =>
      rcases List.mem_cons.mp hmem with hfirst | hrest
      · cases hfirst
      · exact ih hrest
  | unterminated _ =>
      rcases List.mem_cons.mp hmem with hfirst | hrest
      · cases hfirst
      · rw [List.mem_singleton, Except.ok.injEq] at hrest
        subst hrest
        exact .inl ⟨rfl, rfl⟩

theorem lexeme_of_ofSource
    {source : String} {tokens : List Token}
    (h : ofSource source = .ok tokens) {token : Token}
    (hmem : token ∈ tokens) :
    token.kind = .eof ∧ token.lexeme = "" ∨
      Lexeme token.lexeme.toList (.token token.kind) := by
  rw [← (ofSource_eq_ok_iff.mp h).2] at hmem
  obtain ⟨item, hitem, htoken⟩ := List.mem_filterMap.mp hmem
  cases item with
  | error e => cases htoken
  | ok found =>
      cases htoken
      exact (munches_scanFrom 1 source.toList).lexeme hitem

/-- The items of a source text are those that maximal munch over the lexical
grammar cuts it into, and no others. -/
theorem scan_is_maximal_munch (source : String) (items : List Item) :
    scan source = items ↔ Munches 1 source.toList items := by
  constructor
  · rintro rfl
    exact munches_scanFrom 1 source.toList
  · exact Munches.scanFrom_eq

end Token
end LoxLang
