import LoxLang.Proofs.Grammar.Exactness
import LoxLang.Proofs.Number.Reading
import LoxLang.Proofs.Number.Texts
import LoxLang.Proofs.Token.Joined
import LoxLang.Proofs.Token.Munch
import LoxLang.Proofs.Token.Words
import LoxLang.Proofs.Tree.Readback

/-!
# The printed tree tells the program

The leaves of a tree that is read from a source text are names and the values
of tokens.  Apart from strings and infinite numbers, they can be told apart by
their texts.  So two programs that are printed in the same way are the same
but for their lines and places.
-/

namespace LoxLang

open Grammar (Gives AllGood)
open Token (IsLetter IsDigit Lexeme Munches)

/-- The text is a word, and not one of the language. -/
structure IsName (text : String) : Prop where
  first : ∃ c, text.toList.head? = some c ∧ IsLetter c
  all : ∀ c ∈ text.toList, IsLetter c ∨ IsDigit c
  ordinary : text ∉ Token.keywords.map Prod.fst

/-! ## The leaves that are scanned -/

/-- What a token can bring into a tree. -/
def Leaf.Scanned : Leaf → Prop
  | .name text => IsName text
  | .literal (.number value) => Number.Unsigned value.toModel.unpack
  | .literal _ | .this => True

namespace Token

/-- The kind goes with one text only. -/
def Kind.isFixed : Kind → Bool
  | .identifier | .string _ | .number _ | .eof => false
  | _ => true

theorem isFixed_of_singleMarks
    {c : Char} {kind : Kind} (h : (c, kind) ∈ singleMarks) :
    kind.isFixed = true := by
  have hall : singleMarks.all (fun entry => entry.2.isFixed) = true := rfl
  exact List.all_eq_true.mp hall _ h

private theorem isFixed_of_doubleMarks
    {c d : Char} {kind : Kind} (h : ((c, d), kind) ∈ doubleMarks) :
    kind.isFixed = true := by
  have hall : doubleMarks.all (fun entry => entry.2.isFixed) = true := rfl
  exact List.all_eq_true.mp hall _ h

private theorem isFixed_of_keywords
    {word : String} {kind : Kind} (h : (word, kind) ∈ keywords) :
    kind.isFixed = true := by
  have hall : keywords.all (fun entry => entry.2.isFixed) = true := rfl
  exact List.all_eq_true.mp hall _ h

theorem Lexeme.isName
    {text : List Char} (h : Lexeme text (.token .identifier)) :
    IsName (String.ofList text) := by
  generalize hpiece : Piece.token .identifier = piece at h
  cases h with
  | @identifier c tail hletter htail hordinary =>
      refine ⟨⟨c, ?_, hletter⟩, ?_, hordinary⟩
      · rw [String.toList_ofList]
        rfl
      · rw [String.toList_ofList]
        exact List.forall_mem_cons.mpr ⟨.inl hletter, htail⟩
  | single hmark =>
      cases hpiece
      cases isFixed_of_singleMarks hmark
  | double hmark =>
      cases hpiece
      cases isFixed_of_doubleMarks hmark
  | keyword hword =>
      cases hpiece
      cases isFixed_of_keywords hword
  | _ => cases hpiece

theorem Lexeme.unsigned
    {text : List Char} {value : Float}
    (h : Lexeme text (.token (.number value))) :
    Number.Unsigned value.toModel.unpack := by
  generalize hpiece : Piece.token (.number value) = piece at h
  cases h with
  | whole _ _ =>
      cases hpiece
      exact Number.ofDigits_unsigned _ _
  | fraction _ _ _ _ =>
      cases hpiece
      exact Number.ofDigits_unsigned _ _
  | single hmark =>
      cases hpiece
      cases isFixed_of_singleMarks hmark
  | double hmark =>
      cases hpiece
      cases isFixed_of_doubleMarks hmark
  | keyword hword =>
      cases hpiece
      cases isFixed_of_keywords hword
  | _ => cases hpiece

/-- The tokens of a source text bring only such leaves into a tree. -/
theorem gives_scanned
    {source : String} {tokens : List Token}
    (h : ofSource source = .ok tokens) : Gives Leaf.Scanned tokens where
  this := trivial
  yes := trivial
  names token hmem hkind := by
    rcases lexeme_of_ofSource h hmem with ⟨hend, -⟩ | hlexeme
    · rw [hkind] at hend
      cases hend
    · rw [hkind] at hlexeme
      have hname := hlexeme.isName
      rwa [String.ofList_toList] at hname
  literals token hmem value hvalue := by
    rcases lexeme_of_ofSource h hmem with ⟨hend, -⟩ | hlexeme
    · rw [hend] at hvalue
      cases hvalue
    · generalize token.kind = kind at hlexeme hvalue
      cases hvalue with
      | number => exact hlexeme.unsigned
      | _ => trivial

end Token

/-! ## Telling leaves apart -/

/-- The literal is no string and no infinite number. -/
def Literal.isPlain : Literal → Bool
  | .number value => !value.isInf
  | .string _ => false
  | .yes | .no | .nil => true

def Leaf.isPlain : Leaf → Bool
  | .literal value => value.isPlain
  | .name _ | .this => true

/-- The leaf is scanned, and it is no string and no infinite number. -/
def Leaf.Plain (leaf : Leaf) : Prop :=
  leaf.Scanned ∧ leaf.isPlain = true

namespace Leaf

theorem Plain.isFinite
    {value : Float} (h : (Leaf.literal (.number value)).Plain) :
    value.isFinite = true := by
  have hplain : (!value.isInf) = true := h.2
  rw [Bool.not_eq_true'] at hplain
  exact Number.isFinite_of_unsigned h.1 hplain

theorem Plain.numeral
    {value : Float} (h : (Leaf.literal (.number value)).Plain) :
    ∃ v, Number.Numeral (Leaf.literal (.number value)).text.toList v := by
  obtain ⟨text, v, htext, hnumeral, -⟩ := Number.exists_numeral h.isFinite
  have hsign : Number.signText value = "" := by
    rw [Number.signText, Number.not_isNegative_of_unsigned h.1]
    rfl
  refine ⟨v, ?_⟩
  rw [hsign] at htext
  change Number.Numeral (Number.printedLiteral value).toList v
  rw [htext]
  exact hnumeral

/-- What the text of a leaf looks like. -/
inductive Look where
  | number
  | keyword
  | name

def look : Leaf → Look
  | .name _ => .name
  | .literal (.number _) => .number
  | .literal _ | .this => .keyword

def Look.ofText (text : String) : Look :=
  if text.toList.head?.any Char.isDigit then .number
  else if text ∈ Token.keywords.map Prod.fst then .keyword
  else .name

theorem Plain.look_eq {leaf : Leaf} (h : leaf.Plain) :
    leaf.look = Look.ofText leaf.text := by
  cases leaf with
  | name text =>
      have hname : IsName text := h.1
      obtain ⟨c, hc, hletter⟩ := hname.first
      have hdigit : ¬ text.toList.head?.any Char.isDigit = true := by
        rw [hc]
        exact fun hdigit =>
          hletter.not_isDigit (Token.isDigit_iff.mp hdigit)
      unfold Look.ofText Leaf.text
      rw [if_neg hdigit, if_neg hname.ordinary]
      rfl
  | literal value =>
      cases value with
      | number value =>
          obtain ⟨v, hnumeral⟩ := h.numeral
          obtain ⟨c, hc, hdigit⟩ := hnumeral.first
          unfold Look.ofText
          rw [hc, Option.any_some, if_pos hdigit]
          rfl
      | string content => cases h.2
      | _ => rfl
  | this => rfl

/-- The leaves that are words of the language. -/
def keywords : List Leaf :=
  [.literal .yes, .literal .no, .literal .nil, .this]

theorem Plain.mem_keywords
    {leaf : Leaf} (h : leaf.Plain) (hlook : leaf.look = .keyword) :
    leaf ∈ keywords := by
  cases leaf with
  | name text => cases hlook
  | literal value =>
      cases value with
      | number value => cases hlook
      | string content => cases h.2
      | _ => simp [keywords]
  | this => simp [keywords]

private theorem eq_of_mem_keywords
    {a b : Leaf} (ha : a ∈ keywords) (hb : b ∈ keywords)
    (h : a.text = b.text) : a = b := by
  have hall : keywords.all (fun a => keywords.all fun b =>
      decide (a.text = b.text → a = b)) = true := by
    decide
  have hpair := List.all_eq_true.mp (List.all_eq_true.mp hall a ha) b hb
  exact of_decide_eq_true hpair h

private theorem exists_of_look_name {leaf : Leaf} (h : leaf.look = .name) :
    ∃ text, leaf = .name text := by
  cases leaf with
  | name text => exact ⟨text, rfl⟩
  | literal value => cases value <;> cases h
  | this => cases h

private theorem exists_of_look_number {leaf : Leaf} (h : leaf.look = .number) :
    ∃ value, leaf = .literal (.number value) := by
  cases leaf with
  | name text => cases h
  | literal value =>
      cases value with
      | number value => exact ⟨value, rfl⟩
      | _ => cases h
  | this => cases h

theorem Plain.eq_of_text
    {a b : Leaf} (ha : a.Plain) (hb : b.Plain) (h : a.text = b.text) :
    a = b := by
  have hlook : b.look = a.look := by rw [ha.look_eq, hb.look_eq, h]
  cases hkind : a.look with
  | keyword =>
      exact eq_of_mem_keywords (ha.mem_keywords hkind)
        (hb.mem_keywords (hlook.trans hkind)) h
  | name =>
      obtain ⟨text, rfl⟩ := exists_of_look_name hkind
      obtain ⟨text', rfl⟩ := exists_of_look_name (hlook.trans hkind)
      exact congrArg Leaf.name h
  | number =>
      obtain ⟨value, rfl⟩ := exists_of_look_number hkind
      obtain ⟨value', rfl⟩ := exists_of_look_number (hlook.trans hkind)
      rw [Number.printedLiteral_inj ha.isFinite hb.isFinite h]

private theorem inWord_of_ne
    {c : Char} (h : c ∉ ['(', ')', ' ', '\n']) : Form.inWord c = true := by
  simpa [Form.inWord, and_assoc] using h

theorem IsName.unbroken {text : String} (h : IsName text) :
    Form.Unbroken text := by
  apply List.all_eq_true.mpr
  intro c hc
  apply inWord_of_ne
  intro hmem
  have hbreaks : ['(', ')', ' ', '\n'].all
      (fun c => decide (¬ (IsLetter c ∨ IsDigit c))) = true := by
    decide
  exact of_decide_eq_true (List.all_eq_true.mp hbreaks c hmem) (h.all c hc)

private theorem unbroken_of_numeral
    {text : String} {v : ℚ} (h : Number.Numeral text.toList v) :
    Form.Unbroken text := by
  apply List.all_eq_true.mpr
  intro c hc
  apply inWord_of_ne
  intro hmem
  have hbreaks : ['(', ')', ' ', '\n'].all
      (fun c => decide (¬ (c.isDigit = true ∨ c = '.'))) = true := by
    decide
  exact of_decide_eq_true (List.all_eq_true.mp hbreaks c hmem) (h.all c hc)

private theorem ne_empty_of_head?
    {text : String} {c : Char} (h : text.toList.head? = some c) :
    text ≠ "" := by
  rintro rfl
  cases h

/-- Plain leaves can be told apart by their texts. -/
theorem telling_plain : Telling Leaf.Plain where
  nonempty leaf h := by
    cases leaf with
    | name text =>
        obtain ⟨c, hc, -⟩ := IsName.first h.1
        exact ne_empty_of_head? hc
    | literal value =>
        cases value with
        | number value =>
            obtain ⟨v, hnumeral⟩ := h.numeral
            obtain ⟨c, hc, -⟩ := hnumeral.first
            exact ne_empty_of_head? hc
        | string content => cases h.2
        | yes => decide
        | no => decide
        | nil => decide
    | this => decide
  unbroken leaf h := by
    cases leaf with
    | name text => exact IsName.unbroken h.1
    | literal value =>
        cases value with
        | number value =>
            obtain ⟨v, hnumeral⟩ := h.numeral
            exact unbroken_of_numeral hnumeral
        | string content => cases h.2
        | _ => rfl
    | this => rfl
  distinct a b ha hb h := ha.eq_of_text hb h

end Leaf

/-! ## Programs -/

theorem Program.leaves_plain
    {source : String} {tokens : List Token} {firstId : PlaceId}
    {program : Program} (htokens : Token.ofSource source = .ok tokens)
    (hprogram : (Grammar.read tokens firstId).program = .ok program)
    (hplain : program.leaves.all Leaf.isPlain = true) :
    AllGood Leaf.Plain program.leaves := by
  obtain ⟨ts, stop, rfl, hstop, hfree, -⟩ := Token.ofSource_eq_ok htokens
  have hscanned := (Grammar.read_sound hfree hstop hprogram).leaves
    (Token.gives_scanned htokens).left
  intro leaf hmem
  exact ⟨hscanned leaf hmem, List.all_eq_true.mp hplain leaf hmem⟩

/-- Two source texts without strings and infinite numbers whose programs are
printed in the same way have the same program, but for its lines and
places. -/
theorem Program.printed_tells_program
    {source source' : String} {tokens tokens' : List Token}
    {firstId firstId' : PlaceId} {program program' : Program}
    (htokens : Token.ofSource source = .ok tokens)
    (htokens' : Token.ofSource source' = .ok tokens')
    (hprogram : (Grammar.read tokens firstId).program = .ok program)
    (hprogram' : (Grammar.read tokens' firstId').program = .ok program')
    (hplain : program.leaves.all Leaf.isPlain = true)
    (hplain' : program'.leaves.all Leaf.isPlain = true)
    (hprinted : Program.printed program = Program.printed program') :
    Stmt.AllAlike .shape program program' :=
  Program.alike_of_printed Leaf.telling_plain
    (Program.leaves_plain htokens hprogram hplain)
    (Program.leaves_plain htokens' hprogram' hplain') hprinted

/-- The tokens of a statement that has both kinds of minus in it. -/
def Token.negation (number : String) (line : Nat) : List Token :=
  [⟨.printWord, "print", 1⟩, ⟨.minus, "-", line⟩,
    ⟨.identifier, "call", line⟩, ⟨.minus, "-", line⟩,
    ⟨.number 1.5, number, line⟩, ⟨.semicolon, ";", line⟩, ⟨.eof, "", line⟩]

/-- The program of the statement. -/
def Program.negation (id : PlaceId) (line : Nat) : Program :=
  [.print (.binary (.unary .negate (.read id ⟨"call", line⟩) line) .subtract
    (.literal (.number 1.5)) line)]

theorem Program.printed_tells_negation :
    Program.printed (negation 0 1) = Program.printed (negation 7 2) ∧
      Stmt.AllAlike .shape (negation 0 1) (negation 7 2) := by
  have htokens : Token.ofSource "print -call - 1.5;" =
      .ok (Token.negation "1.5" 1) := by
    decide +kernel
  have htokens' : Token.ofSource "print\n-call-1.50;" =
      .ok (Token.negation "1.50" 2) := by
    decide +kernel
  have hprogram : (Grammar.read (Token.negation "1.5" 1) 0).program =
      .ok (negation 0 1) :=
    rfl
  have hprogram' : (Grammar.read (Token.negation "1.50" 2) 7).program =
      .ok (negation 7 2) :=
    rfl
  have hprinted : Program.printed (negation 0 1) =
      Program.printed (negation 7 2) := by
    decide +kernel
  have hplain : (negation 0 1).leaves.all Leaf.isPlain = true := by
    decide +kernel
  have hplain' : (negation 7 2).leaves.all Leaf.isPlain = true := by
    decide +kernel
  exact ⟨hprinted, Program.printed_tells_program htokens htokens' hprogram
    hprogram' hplain hplain' hprinted⟩

end LoxLang
