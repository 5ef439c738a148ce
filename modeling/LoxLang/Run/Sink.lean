import LoxLang.Run.Fault

/-!
# Where output goes

A sink holds the bytes written to it.  It may take only a limited number of
bytes: what does not fit is cut off, and the write fails.  Its flush may fail as
well.
-/

namespace LoxLang

structure Sink where
  written : ByteArray
  /-- The number of bytes that it takes in all. -/
  limit : Option Nat
  flushFails : Bool

namespace Sink

/-- A sink that never fails. -/
def unlimited : Sink :=
  ⟨.empty, none, false⟩

/-- The number of bytes of a text of `size` bytes that the sink still takes. -/
def room (sink : Sink) (size : Nat) : Nat :=
  match sink.limit with
  | none => size
  | some limit => min size (limit - sink.written.size)

/-- Writes as much of a text as fits, and fails when that is not all of it. -/
def write (sink : Sink) (text : String) : Except OutputError Unit × Sink :=
  let bytes := text.toUTF8
  let room := sink.room bytes.size
  if bytes.size ≤ room then
    (.ok (), { sink with written := sink.written ++ bytes })
  else
    (.error .sinkFull,
      { sink with written := sink.written ++ bytes.extract 0 room })

def flush (sink : Sink) : Except OutputError Unit :=
  if sink.flushFails then .error .flushFailed else .ok ()

def emptied (sink : Sink) : Sink :=
  { sink with written := .empty }

end Sink
end LoxLang
