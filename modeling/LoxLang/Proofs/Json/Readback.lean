import LoxLang.Proofs.Json.Numbers

/-!
# Data that is read back

Every value is read back from its text, if the doubles in it are finite: the
text of a value is taken off the front of a longer text, and what follows it
is left.  The bound on the depth that is derived from the length of a text is
always enough.
-/

namespace LoxLang

open Number (digitsValue)

namespace Json

/-! ## Strings -/

private theorem hexUnit?_control :
    ∀ n < 0x20, hexUnit? '0' '0' (Nat.digitChar (n / 16))
      (Nat.digitChar (n % 16)) = some n := by
  decide

private theorem stringBody?_escaped (c : Char) (read rest : List Char) :
    stringBody? read (escaped c ++ rest) = stringBody? (c :: read) rest := by
  unfold escaped
  iterate 7
    split
    next h =>
      subst h
      rfl
  split
  · rename_i hcontrol
    have hunit := hexUnit?_control c.toNat hcontrol
    have hplain : ¬ (0xD800 ≤ c.toNat ∧ c.toNat < 0xDC00) := by omega
    simp only [List.cons_append, List.nil_append]
    rw [stringBody?, hunit]
    dsimp only
    rw [if_neg hplain, Char.ofNat_toNat]
  · rename_i hquote hslash _ _ _ _ _ _
    rw [List.singleton_append, stringBody?]
    · exact hquote
    · exact fun _ _ _ _ _ hc => absurd hc hslash
    · exact fun _ _ hc => absurd hc hslash

private theorem stringBody?_text (text read rest : List Char) :
    stringBody? read (text.flatMap escaped ++ '"' :: rest) =
      some (String.ofList (read.reverse ++ text), rest) := by
  induction text generalizing read with
  | nil =>
      rw [List.flatMap_nil, List.nil_append, List.append_nil]
      rfl
  | cons c text ih =>
      rw [List.flatMap_cons, List.append_assoc, stringBody?_escaped, ih,
        List.reverse_cons, List.append_assoc, List.singleton_append]

theorem stringChars_append (text : String) (rest : List Char) :
    stringChars text ++ rest =
      '"' :: (text.toList.flatMap escaped ++ '"' :: rest) := by
  simp [stringChars]

theorem stringBody?_eq (text : String) (rest : List Char) :
    stringBody? [] (text.toList.flatMap escaped ++ '"' :: rest) =
      some (text, rest) := by
  rw [stringBody?_text, List.reverse_nil, List.nil_append, String.ofList_toList]

/-! ## What a value starts with -/

theorem skipSpace_cons {c : Char} {rest : List Char} (h : isSpace c = false) :
    skipSpace (c :: rest) = c :: rest :=
  List.dropWhile_cons_of_neg (by rw [h]; exact Bool.false_ne_true)

theorem not_isSpace_of_isDigit {c : Char} (h : c.isDigit = true) :
    isSpace c = false := by
  rw [← Bool.not_eq_true]
  intro hspace
  unfold isSpace at hspace
  simp only [Bool.or_eq_true, beq_iff_eq] at hspace
  rcases hspace with ((rfl | rfl) | rfl) | rfl <;> cases h

theorem value?_digit
    {c : Char} {rest : List Char} (h : c.isDigit = true) (depth : Nat) :
    value? (depth + 1) (c :: rest) = number? false (c :: rest) := by
  rw [value?, skipSpace_cons (not_isSpace_of_isDigit h)]
  split
  case h_8 => rfl
  all_goals
    rename_i heq
    cases heq
    cases h

private theorem value?_minus (rest : List Char) (depth : Nat) :
    value? (depth + 1) ('-' :: rest) = number? true rest :=
  rfl

theorem value?_string (text : String) (rest : List Char) (depth : Nat) :
    value? (depth + 1) (stringChars text ++ rest) =
      some (.string text, rest) := by
  rw [stringChars_append]
  change (stringBody? [] _).map _ = _
  rw [stringBody?_eq]
  rfl

theorem value?_int {rest : List Char} (n : Int) (h : Stops rest) (depth : Nat) :
    value? (depth + 1) (intChars n ++ rest) = some (.int n, rest) := by
  have hdigits := Number.digits_repr n.natAbs
  have hvalue : digitsValue (Nat.toDigits 10 n.natAbs) = n.natAbs := by
    rw [Number.digitsValue_eq, Nat.ofDigitChars_ten_toDigits]
  have hread (negative : Bool) := number?_whole hdigits Nat.toDigits_ne_nil
    negative h
  rw [hvalue] at hread
  unfold intChars
  split
  · rename_i hneg
    have hsame : -(n.natAbs : Int) = n := by omega
    rw [List.cons_append, value?_minus, hread, if_pos rfl,
      if_neg (by omega), hsame]
  · rename_i hnonneg
    have hsame : (n.natAbs : Int) = n := by omega
    obtain ⟨c, hfirst, hdigit⟩ := hdigits.first Nat.toDigits_ne_nil
    obtain ⟨others, hsplit⟩ := List.head?_eq_some_iff.mp hfirst
    rw [hsplit] at hread ⊢
    rw [List.cons_append, value?_digit hdigit, ← List.cons_append, hread,
      if_neg Bool.false_ne_true, hsame]

theorem value?_real
    {x : Float} {rest : List Char} (hfinite : x.isFinite = true)
    (h : Stops rest) (depth : Nat) :
    value? (depth + 1) (realChars x ++ rest) = some (.real x, rest) := by
  obtain ⟨text, htext, ⟨c, hfirst, hdigit⟩, hread⟩ := exists_reads hfinite
  have hnumber := hread rest h
  obtain ⟨others, rfl⟩ := List.head?_eq_some_iff.mp hfirst
  rw [htext]
  unfold Number.signText
  cases hsign : Number.isNegative x with
  | false =>
      rw [hsign] at hnumber
      change value? (depth + 1) (c :: (others ++ rest)) = _
      rw [value?_digit hdigit]
      exact hnumber
  | true =>
      rw [hsign] at hnumber
      exact hnumber

/-! ## Values -/

mutual

/-- The doubles in a value. -/
def reals : Json → List Float
  | .real x => [x]
  | .array items => itemsReals items
  | .object members => membersReals members
  | _ => []

def itemsReals : List Json → List Float
  | [] => []
  | item :: items => item.reals ++ itemsReals items

def membersReals : List (String × Json) → List Float
  | [] => []
  | (_, value) :: members => value.reals ++ membersReals members

end

@[simp] theorem reals_null : Json.null.reals = [] :=
  rfl

@[simp] theorem reals_nat (n : Nat) : (nat n).reals = [] :=
  rfl

@[simp] theorem reals_string (text : String) : (Json.string text).reals = [] :=
  rfl

@[simp] theorem reals_array (items : List Json) :
    (Json.array items).reals = itemsReals items :=
  rfl

@[simp] theorem reals_object (members : List (String × Json)) :
    (Json.object members).reals = membersReals members :=
  rfl

@[simp] theorem reals_tagged (tag : String) (content : Json) :
    (tagged tag content).reals = content.reals :=
  List.append_nil _

@[simp] theorem itemsReals_cons (item : Json) (items : List Json) :
    itemsReals (item :: items) = item.reals ++ itemsReals items :=
  rfl

@[simp] theorem membersReals_nil : membersReals [] = [] :=
  rfl

@[simp] theorem membersReals_cons
    (key : String) (value : Json) (members : List (String × Json)) :
    membersReals ((key, value) :: members) =
      value.reals ++ membersReals members :=
  rfl

theorem mem_itemsReals {x : Float} {items : List Json} :
    x ∈ itemsReals items ↔ ∃ item ∈ items, x ∈ item.reals := by
  induction items with
  | nil => simp [itemsReals]
  | cons item items ih => simp [ih]

/-- All doubles in a list are finite. -/
def AllFinite (xs : List Float) : Prop :=
  ∀ x ∈ xs, x.isFinite = true

/-- A character that may stand at the front of a value: neither a blank nor a
closing bracket. -/
def Opens (c : Char) : Prop :=
  isSpace c = false ∧ c ≠ ']'

private theorem opens_of_isDigit {c : Char} (h : c.isDigit = true) :
    Opens c := by
  refine ⟨not_isSpace_of_isDigit h, ?_⟩
  rintro rfl
  cases h

private theorem exists_opens_int (n : Int) :
    ∃ c rest, intChars n = c :: rest ∧ Opens c := by
  unfold intChars
  split
  · exact ⟨_, _, rfl, rfl, by decide⟩
  · obtain ⟨c, hfirst, hdigit⟩ :=
      (Number.digits_repr n.natAbs).first Nat.toDigits_ne_nil
    obtain ⟨rest, hsplit⟩ := List.head?_eq_some_iff.mp hfirst
    exact ⟨c, rest, hsplit, opens_of_isDigit hdigit⟩

private theorem exists_opens_real {x : Float} (h : x.isFinite = true) :
    ∃ c rest, realChars x = c :: rest ∧ Opens c := by
  obtain ⟨text, htext, ⟨c, hfirst, hdigit⟩, -⟩ := exists_reads h
  obtain ⟨rest, rfl⟩ := List.head?_eq_some_iff.mp hfirst
  rw [htext]
  unfold Number.signText
  cases Number.isNegative x with
  | false => exact ⟨c, rest, rfl, opens_of_isDigit hdigit⟩
  | true => exact ⟨'-', c :: rest, rfl, rfl, by decide⟩

theorem exists_opens (j : Json) (h : AllFinite j.reals) :
    ∃ c rest, j.chars = c :: rest ∧ Opens c := by
  cases j with
  | null => exact ⟨_, _, rfl, rfl, by decide⟩
  | bool value => cases value <;> exact ⟨_, _, rfl, rfl, by decide⟩
  | int n => exact exists_opens_int n
  | real x => exact exists_opens_real (h x (List.mem_singleton.mpr rfl))
  | string text => exact ⟨_, _, rfl, rfl, by decide⟩
  | array items => cases items <;> exact ⟨_, _, rfl, rfl, by decide⟩
  | object members => cases members <;> exact ⟨_, _, rfl, rfl, by decide⟩

theorem stops_itemsChars (items : List Json) (rest : List Char) :
    Stops (itemsChars items ++ rest) := by
  cases items with
  | nil =>
      rintro c ⟨rfl⟩
      decide
  | cons item items =>
      rintro c ⟨rfl⟩
      decide

theorem stops_membersChars (members : List (String × Json)) (rest : List Char) :
    Stops (membersChars members ++ rest) := by
  cases members with
  | nil =>
      rintro c ⟨rfl⟩
      decide
  | cons first members =>
      rintro c ⟨rfl⟩
      decide

section
variable {depth : Nat} {c : Char} {text behind rest : List Char}

theorem value?_array
    {item : Json} {items : List Json} (h : Opens c)
    (hitem : value? depth (c :: text) = some (item, behind))
    (hitems : items? depth behind = some (items, rest)) :
    value? (depth + 1) ('[' :: c :: text) =
      some (.array (item :: items), rest) := by
  rw [value?, skipSpace_cons rfl]
  simp only [skipSpace_cons h.1]
  split
  · rename_i heq
    cases heq
    exact absurd rfl h.2
  · simp [hitem, hitems]

theorem items?_cons
    {item : Json} {items : List Json}
    (hitem : value? depth text = some (item, behind))
    (hitems : items? depth behind = some (items, rest)) :
    items? (depth + 1) (',' :: text) = some (item :: items, rest) := by
  rw [items?, skipSpace_cons rfl]
  simp [hitem, hitems]

theorem member_eq
    (key : String) {value : Json}
    (h : value? depth text = some (value, rest)) :
    member (depth + 1) (stringChars key ++ ':' :: text) =
      some ((key, value), rest) := by
  rw [stringChars_append, member, skipSpace_cons rfl]
  simp [stringBody?_eq, skipSpace_cons, isSpace, h]

theorem value?_object
    {key : String} {first : String × Json} {members : List (String × Json)}
    (hfirst : member depth (stringChars key ++ text) = some (first, behind))
    (hmembers : members? depth behind = some (members, rest)) :
    value? (depth + 1) ('\x7b' :: (stringChars key ++ text)) =
      some (.object (first :: members), rest) := by
  rw [stringChars_append] at hfirst ⊢
  rw [value?, skipSpace_cons rfl]
  simp [skipSpace_cons, isSpace, hfirst, hmembers]

theorem members?_cons
    {first : String × Json} {members : List (String × Json)}
    (hfirst : member depth text = some (first, behind))
    (hmembers : members? depth behind = some (members, rest)) :
    members? (depth + 1) (',' :: text) = some (first :: members, rest) := by
  rw [members?, skipSpace_cons rfl]
  simp [hfirst, hmembers]

end

section
variable {xs ys : List Float}

theorem AllFinite.left (h : AllFinite (xs ++ ys)) : AllFinite xs :=
  (List.forall_mem_append.mp h).1

theorem AllFinite.right (h : AllFinite (xs ++ ys)) : AllFinite ys :=
  (List.forall_mem_append.mp h).2

end

private theorem exists_succ_of_lt {n depth : Nat} (h : n < depth) :
    ∃ less, depth = less + 1 ∧ n ≤ less :=
  ⟨depth - 1, by omega, by omega⟩

mutual

/-- A value is taken off the front of a text. -/
theorem value?_chars
    (j : Json) (h : AllFinite j.reals) (rest : List Char) (hrest : Stops rest)
    (depth : Nat) (hdepth : 2 * j.chars.length < depth) :
    value? depth (j.chars ++ rest) = some (j, rest) := by
  obtain ⟨depth, rfl, hless⟩ := exists_succ_of_lt hdepth
  cases j with
  | null => rfl
  | bool value => cases value <;> rfl
  | int n => exact value?_int n hrest depth
  | real x => exact value?_real (h x (List.mem_singleton.mpr rfl)) hrest depth
  | string text => exact value?_string text rest depth
  | array items =>
      cases items with
      | nil => rfl
      | cons item items =>
          have hlength : (chars (.array (item :: items))).length =
              item.chars.length + (itemsChars items).length + 1 := by
            simp [chars]
          have hitem := value?_chars item h.left _
            (stops_itemsChars items rest) depth (by omega)
          have hitems := items?_itemsChars items h.right rest depth (by omega)
          obtain ⟨c, text, hchars, hopens⟩ := exists_opens item h.left
          rw [hchars] at hitem
          simpa [chars, hchars] using value?_array hopens hitem hitems
  | object members =>
      cases members with
      | nil => rfl
      | cons first members =>
          obtain ⟨key, value⟩ := first
          have hlength : (chars (.object ((key, value) :: members))).length =
              (stringChars key).length + value.chars.length +
                (membersChars members).length + 2 := by
            simp [chars]
            omega
          obtain ⟨shallow, rfl, hshallow⟩ :=
            @exists_succ_of_lt (2 * value.chars.length + 1) depth (by omega)
          have hvalue := value?_chars value h.left _
            (stops_membersChars members rest) shallow (by omega)
          have hmembers := members?_membersChars members h.right rest
            (shallow + 1) (by omega)
          simpa [chars] using value?_object (member_eq key hvalue) hmembers

theorem items?_itemsChars
    (items : List Json) (h : AllFinite (itemsReals items)) (rest : List Char)
    (depth : Nat) (hdepth : 2 * (itemsChars items).length < depth) :
    items? depth (itemsChars items ++ rest) = some (items, rest) := by
  obtain ⟨depth, rfl, hless⟩ := exists_succ_of_lt hdepth
  cases items with
  | nil => rfl
  | cons item items =>
      have hlength : (itemsChars (item :: items)).length =
          item.chars.length + (itemsChars items).length + 1 := by
        simp [itemsChars]
      have hitem := value?_chars item h.left _ (stops_itemsChars items rest)
        depth (by omega)
      have hitems := items?_itemsChars items h.right rest depth (by omega)
      simpa [itemsChars] using items?_cons hitem hitems

theorem members?_membersChars
    (members : List (String × Json)) (h : AllFinite (membersReals members))
    (rest : List Char) (depth : Nat)
    (hdepth : 2 * (membersChars members).length < depth) :
    members? depth (membersChars members ++ rest) = some (members, rest) := by
  obtain ⟨depth, rfl, hless⟩ := exists_succ_of_lt hdepth
  cases members with
  | nil => rfl
  | cons first members =>
      obtain ⟨key, value⟩ := first
      have hlength : (membersChars ((key, value) :: members)).length =
          (stringChars key).length + value.chars.length +
            (membersChars members).length + 2 := by
        simp [membersChars]
        omega
      obtain ⟨shallow, rfl, hshallow⟩ :=
        @exists_succ_of_lt (2 * value.chars.length + 1) depth (by omega)
      have hvalue := value?_chars value h.left _
        (stops_membersChars members rest) shallow (by omega)
      have hmembers := members?_membersChars members h.right rest
        (shallow + 1) (by omega)
      simpa [membersChars] using members?_cons (member_eq key hvalue) hmembers

end

/-- Data that is written and read again is the same. -/
theorem parse?_compact {j : Json} (h : AllFinite j.reals) :
    parse? j.compact = some j := by
  have hstops : Stops [] := fun c hc => by cases hc
  have hread := value?_chars j h [] hstops (2 * j.compact.length + 2)
    (by simp [compact])
  rw [List.append_nil] at hread
  have htext : j.compact.toList = j.chars := String.toList_ofList
  rw [parse?, htext, hread]
  rfl

end Json
end LoxLang
