/-!
# UTF-8 text

Bytes become text when they are well-formed UTF-8.  Otherwise the first
ill-formed place is a `Fault`: its index, and, when a byte rules the sequence
out, the number of bytes up to that byte.
-/

namespace LoxLang
namespace Text
namespace Utf8

/-- The first place at which bytes fail to be UTF-8. -/
inductive Fault where
  /-- `length` bytes from `index` on start no character. -/
  | invalid (length index : Nat)
  /-- The bytes end inside the character that starts at `index`. -/
  | incomplete (index : Nat)
deriving DecidableEq, Repr

def Fault.message : Fault → String
  | .invalid length index =>
      s!"invalid utf-8 sequence of {length} bytes from index {index}"
  | .incomplete index => s!"incomplete utf-8 byte sequence from index {index}"

/-- Where a reader stands between two bytes: between characters, or inside one
that started at `start`, still owes `owed` bytes, and has its next byte from
`low` to `high`. -/
inductive Phase where
  | between
  | inside (start owed low high : Nat)
deriving DecidableEq, Repr

/-- The phase after the first byte of a character at `index`, if a character can
start so. -/
def Phase.lead? (index byte : Nat) : Option Phase :=
  if byte < 0x80 then some .between
  else if byte < 0xC2 then none
  else if byte < 0xE0 then some (.inside index 1 0x80 0xBF)
  else if byte = 0xE0 then some (.inside index 2 0xA0 0xBF)
  else if byte = 0xED then some (.inside index 2 0x80 0x9F)
  else if byte < 0xF0 then some (.inside index 2 0x80 0xBF)
  else if byte = 0xF0 then some (.inside index 3 0x90 0xBF)
  else if byte < 0xF4 then some (.inside index 3 0x80 0xBF)
  else if byte = 0xF4 then some (.inside index 3 0x80 0x8F)
  else none

def Phase.step : Phase → Nat → Nat → Except Fault Phase
  | .between, index, byte =>
      match lead? index byte with
      | some phase => .ok phase
      | none => .error (.invalid 1 index)
  | .inside start owed low high, index, byte =>
      if low ≤ byte ∧ byte ≤ high then
        if owed ≤ 1 then .ok .between
        else .ok (.inside start (owed - 1) 0x80 0xBF)
      else .error (.invalid (index - start) start)

/-- The first fault of the bytes that follow, the reader standing in `phase` at
`index`. -/
def faultFrom : Phase → Nat → List UInt8 → Option Fault
  | .between, _, [] => none
  | .inside start _ _ _, _, [] => some (.incomplete start)
  | phase, index, byte :: rest =>
      match phase.step index byte.toNat with
      | .ok next => faultFrom next (index + 1) rest
      | .error fault => some fault

def fault (bytes : ByteArray) : Fault :=
  (faultFrom .between 0 bytes.toList).getD (.incomplete bytes.size)

/-- The text that the bytes encode, or their first fault. -/
def decode (bytes : ByteArray) : Except Fault String :=
  match String.fromUTF8? bytes with
  | some text => .ok text
  | none => .error (fault bytes)

/-- The text of the bytes with U+FFFD for each ill-formed place; `fuel` bounds
their number. -/
def decodeLossyUpTo : Nat → ByteArray → String
  | 0, _ => ""
  | fuel + 1, bytes =>
      match String.fromUTF8? bytes with
      | some text => text
      | none =>
          match fault bytes with
          | .incomplete index =>
              ((String.fromUTF8? (bytes.extract 0 index)).getD "").push '\uFFFD'
          | .invalid length index =>
              ((String.fromUTF8? (bytes.extract 0 index)).getD "").push
                '\uFFFD' ++
                decodeLossyUpTo fuel (bytes.extract (index + length) bytes.size)

def decodeLossy (bytes : ByteArray) : String :=
  decodeLossyUpTo (bytes.size + 1) bytes

end Utf8
end Text
end LoxLang
