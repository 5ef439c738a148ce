import LoxLang.Number.Read
import LoxLang.Token.Basic

/-!
# From source text to tokens

A source text is cut into pieces from left to right.  `munch` tells what the
piece at the front is and how long it is; blanks and comments are passed over,
and every other piece becomes a token or an error.  An error does not end the
scan.  The line of an item is the line on which its piece ends.
-/

namespace LoxLang

/-- Why a piece of the source is no token. -/
inductive LexError.Cause where
  | unexpected (c : Char)
  | unterminated
deriving DecidableEq, Repr

/-- A piece of the source that is no token, and the line on which it ends. -/
structure LexError where
  cause : LexError.Cause
  line : Nat
deriving DecidableEq, Repr

def LexError.Cause.message : LexError.Cause → String
  | .unexpected c => "Unexpected character: " ++ String.singleton c
  | .unterminated => "Unterminated string."

namespace Token

/-- What a scan finds in the source: a token, or an error. -/
abbrev Item := Except LexError Token

/-- The words that are not identifiers. -/
def keywords : List (String × Kind) :=
  [("and", .andWord), ("class", .classWord), ("else", .elseWord),
    ("false", .falseWord), ("fun", .funWord), ("for", .forWord),
    ("if", .ifWord), ("nil", .nilWord), ("or", .orWord),
    ("print", .printWord), ("return", .returnWord), ("super", .superWord),
    ("this", .thisWord), ("true", .trueWord), ("var", .varWord),
    ("val", .valWord), ("while", .whileWord)]

def wordKind (word : String) : Kind :=
  (keywords.lookup word).getD .identifier

def startsWord (c : Char) : Bool :=
  c.isAlpha || c == '_'

def insideWord (c : Char) : Bool :=
  c.isAlphanum || c == '_'

/-- The character is passed over between tokens. -/
def isGap (c : Char) : Bool :=
  c == ' ' || c == '\r' || c == '\t' || c == '\n'

/-- The punctuation mark of two characters. -/
def doubleMark? : Char → Char → Option Kind
  | '!', '=' => some .bangEqual
  | '=', '=' => some .equalEqual
  | '<', '=' => some .lessEqual
  | '>', '=' => some .greaterEqual
  | '&', '&' => some .andWord
  | '|', '|' => some .orWord
  | _, _ => none

/-- The punctuation mark of one character. -/
def singleMark? : Char → Option Kind
  | '(' => some .leftParen
  | ')' => some .rightParen
  | '\x7b' => some .leftBrace
  | '\x7d' => some .rightBrace
  | ',' => some .comma
  | '.' => some .dot
  | '-' => some .minus
  | '+' => some .plus
  | ';' => some .semicolon
  | '*' => some .star
  | '%' => some .percent
  | '/' => some .slash
  | '!' => some .bang
  | '=' => some .equal
  | '<' => some .less
  | '>' => some .greater
  | _ => none

/-- What the piece at the front of a text is. -/
inductive Piece where
  | gap
  | token (kind : Kind)
  | error (cause : LexError.Cause)
deriving DecidableEq, Repr

/-- The fraction of a number that follows its whole part: a point and at least
one digit. -/
def fractionDigits : List Char → List Char
  | '.' :: rest => rest.takeWhile Char.isDigit
  | _ => []

/-- A number that starts with the digit `c`. -/
def munchNumber (c : Char) (rest : List Char) : Piece × Nat :=
  let whole := rest.takeWhile Char.isDigit
  let fraction := fractionDigits (rest.dropWhile Char.isDigit)
  (.token (.number (Number.ofDigits (c :: whole) fraction)),
    whole.length + if fraction.isEmpty then 0 else fraction.length + 1)

/-- A string after its opening quote. -/
def munchString (rest : List Char) : Piece × Nat :=
  let content := rest.takeWhile (· ≠ '"')
  if content.length < rest.length then
    (.token (.string (String.ofList content)), content.length + 1)
  else (.error .unterminated, rest.length)

/-- A word that starts with `c`. -/
def munchWord (c : Char) (rest : List Char) : Piece × Nat :=
  let tail := rest.takeWhile insideWord
  (.token (wordKind (String.ofList (c :: tail))), tail.length)

/-- A punctuation mark that starts with `c`, the longer one if there are two. -/
def munchMark (c : Char) (rest : List Char) : Piece × Nat :=
  match rest.head?.bind (doubleMark? c) with
  | some kind => (.token kind, 1)
  | none =>
      match singleMark? c with
      | some kind => (.token kind, 0)
      | none => (.error (.unexpected c), 0)

/-- The piece at the front of `c :: rest`, and how many characters of `rest`
belong to it. -/
def munch (c : Char) (rest : List Char) : Piece × Nat :=
  if isGap c then (.gap, 0)
  else if c = '/' ∧ rest.head? = some '/' then
    (.gap, (rest.takeWhile (· ≠ '\n')).length)
  else if c = '"' then munchString rest
  else if c.isDigit then munchNumber c rest
  else if startsWord c then munchWord c rest
  else munchMark c rest

/-- The line breaks that count in a piece: one that stands between tokens, and
those inside of a string.  No other piece is searched for them. -/
def lineBreaks (c : Char) (rest : List Char) (extra : Nat) : Nat :=
  if c = '\n' then 1
  else if c = '"' then (rest.take extra).count '\n'
  else 0

/-- The items of the rest of a source that goes on at `line`. -/
def scanFrom (line : Nat) : List Char → List Item
  | [] => [.ok ⟨.eof, "", line⟩]
  | c :: rest =>
      let (piece, extra) := munch c rest
      let text := c :: rest.take extra
      let lineAfter := line + lineBreaks c rest extra
      match piece with
      | .gap => scanFrom lineAfter (rest.drop extra)
      | .token kind =>
          .ok ⟨kind, String.ofList text, lineAfter⟩ ::
            scanFrom lineAfter (rest.drop extra)
      | .error cause =>
          .error ⟨cause, lineAfter⟩ :: scanFrom lineAfter (rest.drop extra)
termination_by text => text.length
decreasing_by all_goals (simp only [List.length_drop, List.length_cons]; omega)

/-- The items of a source text, up to and including the end mark. -/
def scan (source : String) : List Item :=
  scanFrom 1 source.toList

def tokensOf (items : List Item) : List Token :=
  items.filterMap Except.toOption

def errorsOf (items : List Item) : List LexError :=
  items.filterMap fun
    | .error e => some e
    | .ok _ => none

/-- The tokens of a source text, or all its lexical errors. -/
def ofSource (source : String) : Except (List LexError) (List Token) :=
  let items := scan source
  match errorsOf items with
  | [] => .ok (tokensOf items)
  | errors => .error errors

end Token
end LoxLang
