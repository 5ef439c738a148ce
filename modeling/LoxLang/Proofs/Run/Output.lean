import LoxLang.Proofs.Run.Makeup

/-!
# What a run writes

Nothing that a program does depends on its sink, except that it stops where
the sink takes no more.  So of every task there is one text that it writes,
whatever has been written before: a sink that takes all of it sees the task
end in one and the same way, and every other one has what it takes of the text
when the task is stopped.
-/

namespace LoxLang

namespace Sink

/-- There is room for all of the bytes. -/
def Takes (sink : Sink) (bytes : ByteArray) : Prop :=
  bytes.size ≤ sink.room bytes.size

/-- The sink after all of the bytes. -/
def append (sink : Sink) (bytes : ByteArray) : Sink :=
  { sink with written := sink.written ++ bytes }

/-- The sink after as many of the bytes as it takes. -/
def filled (sink : Sink) (bytes : ByteArray) : Sink :=
  { sink with
    written := sink.written ++ bytes.extract 0 (sink.room bytes.size) }

section
variable {sink : Sink} {a b : ByteArray}

theorem takes_empty (sink : Sink) : sink.Takes .empty :=
  Nat.zero_le _

theorem takes_of_limit (h : sink.limit = none) (bytes : ByteArray) :
    sink.Takes bytes := by
  simp [Takes, room, h]

theorem append_empty (sink : Sink) : sink.append .empty = sink := by
  simp [append]

theorem append_append (sink : Sink) (a b : ByteArray) :
    (sink.append a).append b = sink.append (a ++ b) := by
  simp [append, ByteArray.append_assoc]

theorem takes_append_iff :
    sink.Takes (a ++ b) ↔ sink.Takes a ∧ (sink.append a).Takes b := by
  unfold Takes room append
  cases sink.limit with
  | none => simp
  | some limit =>
      simp only [ByteArray.size_append]
      omega

theorem filled_append_of_not_takes (h : ¬ sink.Takes a) :
    sink.filled (a ++ b) = sink.filled a := by
  unfold Takes at h
  have hroom : sink.room (a ++ b).size = sink.room a.size := by
    unfold room at h ⊢
    cases hlimit : sink.limit with
    | none => simp [hlimit] at h
    | some limit =>
        simp only [hlimit, ByteArray.size_append] at h ⊢
        omega
  have hnone : b.extract (0 - a.size) (sink.room a.size - a.size) = .empty := by
    rw [Nat.sub_eq_zero_of_le (Nat.le_of_not_le h)]
    simp
  simp only [filled, hroom, ByteArray.extract_append, hnone,
    ByteArray.append_empty]

theorem filled_append_of_takes (h : sink.Takes a) :
    sink.filled (a ++ b) = (sink.append a).filled b := by
  unfold Takes at h
  have hroom : sink.room (a ++ b).size =
      a.size + (sink.append a).room b.size := by
    unfold room append at *
    cases hlimit : sink.limit with
    | none => simp
    | some limit =>
        simp only [hlimit, ByteArray.size_append] at h ⊢
        omega
  have hfirst : a.extract 0 (sink.room (a ++ b).size) = a := by
    rw [hroom, ← Nat.max_eq_left (Nat.le_add_right a.size _)]
    exact ByteArray.extract_zero_max_size
  have hsecond :
      b.extract (0 - a.size) (sink.room (a ++ b).size - a.size) =
        b.extract 0 ((sink.append a).room b.size) := by
    rw [hroom, Nat.zero_sub, Nat.add_sub_cancel_left]
  unfold filled
  rw [ByteArray.extract_append, hfirst, hsecond]
  simp only [append, ByteArray.append_assoc]

theorem write_of_takes {text : String} (h : sink.Takes text.toUTF8) :
    sink.write text = (.ok (), sink.append text.toUTF8) :=
  if_pos h

theorem write_of_not_takes {text : String} (h : ¬ sink.Takes text.toUTF8) :
    sink.write text = (.error .sinkFull, sink.filled text.toUTF8) :=
  if_neg h

end
end Sink

namespace Step

/-- From the machine the step writes the bytes, and ends in the given way if
the sink takes all of them. -/
structure Prints
    (step : Step α) (m : Machine) (bytes : ByteArray)
    (result : EStateM.Result Halt Machine α) : Prop where
  whole : ∀ sink : Sink, sink.Takes bytes →
    step (m.onto sink) = endOnto (sink.append bytes) result
  cut : ∀ sink : Sink, ¬ sink.Takes bytes →
    ∃ m₁, step (m.onto sink) = .error (.output .sinkFull) m₁ ∧
      m₁.sink = sink.filled bytes

/-- What the step writes does not depend on the sink. -/
def Streams (step : Step α) : Prop :=
  ∀ m, ∃ bytes result, step.Prints m bytes result

section
variable {α β : Type} {step : Step α} {next : α → Step β}

theorem Quiet.prints (h : step.Quiet) (m : Machine) :
    step.Prints m .empty (step m) where
  whole sink _ := by
    rw [Sink.append_empty]
    exact h m sink
  cut sink hfull := absurd sink.takes_empty hfull

theorem Quiet.streams (h : step.Quiet) : step.Streams :=
  fun m => ⟨.empty, step m, h.prints m⟩

/-- A step that is over at its first part. -/
theorem Prints.bind_error
    {m m₁ : Machine} {bytes : ByteArray} {halt : Halt}
    (h : step.Prints m bytes (.error halt m₁)) :
    (step >>= next).Prints m bytes (.error halt m₁) where
  whole sink htakes := by
    change EStateM.bind step next (m.onto sink) = _
    unfold EStateM.bind
    rw [h.whole sink htakes]
    rfl
  cut sink hfull := by
    obtain ⟨m₂, hstep, hsink⟩ := h.cut sink hfull
    refine ⟨m₂, ?_, hsink⟩
    change EStateM.bind step next (m.onto sink) = _
    unfold EStateM.bind
    rw [hstep]

theorem Prints.bind_ok
    {m m₁ : Machine} {a : α} {bytes more : ByteArray}
    {result : EStateM.Result Halt Machine β}
    (hstep : step.Prints m bytes (.ok a m₁))
    (hnext : (next a).Prints m₁ more result) :
    (step >>= next).Prints m (bytes ++ more) result where
  whole sink htakes := by
    obtain ⟨hfirst, hsecond⟩ := Sink.takes_append_iff.mp htakes
    change EStateM.bind step next (m.onto sink) = _
    unfold EStateM.bind
    rw [hstep.whole sink hfirst, ← Sink.append_append]
    exact hnext.whole _ hsecond
  cut sink hfull := by
    change ∃ m₂, EStateM.bind step next (m.onto sink) = _ ∧ _
    unfold EStateM.bind
    by_cases hfirst : sink.Takes bytes
    · have hsecond : ¬ (sink.append bytes).Takes more := fun hsecond =>
        hfull (Sink.takes_append_iff.mpr ⟨hfirst, hsecond⟩)
      rw [hstep.whole sink hfirst, Sink.filled_append_of_takes hfirst]
      exact hnext.cut _ hsecond
    · obtain ⟨m₂, hend, hsink⟩ := hstep.cut sink hfirst
      rw [hend, Sink.filled_append_of_not_takes hfirst]
      exact ⟨m₂, rfl, hsink⟩

theorem Streams.bind
    (hstep : step.Streams) (hnext : ∀ a, (next a).Streams) :
    (step >>= next).Streams := by
  intro m
  obtain ⟨bytes, result, hfirst⟩ := hstep m
  cases result with
  | error halt m₁ => exact ⟨bytes, _, hfirst.bind_error⟩
  | ok a m₁ =>
      obtain ⟨more, result, hsecond⟩ := hnext a m₁
      exact ⟨bytes ++ more, result, hfirst.bind_ok hsecond⟩

/-- The same end, with another current frame. -/
def endIn (frame : FrameId) :
    EStateM.Result Halt Machine α → EStateM.Result Halt Machine α
  | .ok a m => .ok a { m with current := frame }
  | .error halt m => .error halt { m with current := frame }

private theorem inFrame_eq (frame : FrameId) (step : Step α) (m : Machine) :
    inFrame frame step m =
      endIn m.current (step { m with current := frame }) := by
  unfold inFrame
  dsimp only
  cases step { m with current := frame } <;> rfl

private theorem endIn_endOnto
    (frame : FrameId) (sink : Sink) (result : EStateM.Result Halt Machine α) :
    endIn frame (endOnto sink result) = endOnto sink (endIn frame result) := by
  cases result <;> rfl

theorem Streams.inFrame (hstep : step.Streams) (frame : FrameId) :
    (inFrame frame step).Streams := by
  intro m
  obtain ⟨bytes, result, hprints⟩ := hstep { m with current := frame }
  refine ⟨bytes, endIn m.current result, ?_, ?_⟩
  · intro sink htakes
    rw [inFrame_eq, ← endIn_endOnto]
    exact congrArg _ (hprints.whole sink htakes)
  · intro sink hfull
    obtain ⟨m₁, hend, hsink⟩ := hprints.cut sink hfull
    refine ⟨{ m₁ with current := m.current }, ?_, hsink⟩
    rw [inFrame_eq]
    exact congrArg (endIn m.current) hend

end

/-! ## Single steps -/

private theorem print_of_takes
    {sink : Sink} {value : Value} {m : Machine}
    (h : sink.Takes (m.store.printed value ++ "\n").toUTF8) :
    print value (m.onto sink) =
      .ok () (m.onto (sink.append (m.store.printed value ++ "\n").toUTF8)) := by
  change write (m.store.printed value ++ "\n") (m.onto sink) = _
  unfold write
  dsimp only [Machine.onto]
  rw [Sink.write_of_takes h]

theorem print_of_not_takes
    {sink : Sink} {value : Value} {m : Machine}
    (h : ¬ sink.Takes (m.store.printed value ++ "\n").toUTF8) :
    print value (m.onto sink) =
      .error (.output .sinkFull)
        (m.onto (sink.filled (m.store.printed value ++ "\n").toUTF8)) := by
  change write (m.store.printed value ++ "\n") (m.onto sink) = _
  unfold write
  dsimp only [Machine.onto]
  rw [Sink.write_of_not_takes h]

theorem print_prints (value : Value) (m : Machine) :
    (print value).Prints m (m.store.printed value ++ "\n").toUTF8
      (.ok () m) where
  whole _ htakes := print_of_takes htakes
  cut _ hfull := ⟨_, print_of_not_takes hfull, rfl⟩

theorem Streams.nested
    {step : Step α} (hstep : step.Streams) (parent : Option FrameId)
    (names : Bindings Value) :
    (nested parent names step).Streams :=
  (quiet_onStore _).streams.bind hstep.inFrame

/-! ## Tasks -/

theorem Composed.prints
    {α : Type} {fuel : Nat} {task : Task} {start m : Machine}
    {hand : List Value} {step : Step α} {has : α → List Value}
    (ih : ∀ task : Task, (task.run fuel).Streams)
    (h : Composed fuel task start hand step m has)
    (hlimit : m.sink.limit = none) :
    ∃ bytes result, step.Prints m bytes result := by
  induction h with
  | part hquiet _ => exact hquiet.streams _
  | print _ _ => exact ⟨_, _, print_prints _ _⟩
  | enter _ => exact ih _ _
  | nest _ => exact (ih _).nested _ _ _
  | @bind _ _ _ _ _ m _ _ _ _ ihstep ihnext =>
      obtain ⟨bytes, result, hfirst⟩ := ihstep hlimit
      cases result with
      | error halt m₁ => exact ⟨bytes, _, hfirst.bind_error⟩
      | ok a m₁ =>
          have hrun := hfirst.whole m.sink (Sink.takes_of_limit hlimit bytes)
          obtain ⟨more, result, hsecond⟩ := ihnext a _ hrun hlimit
          exact ⟨bytes ++ more, result,
            hfirst.bind_ok ⟨hsecond.whole, hsecond.cut⟩⟩

/-- What a task writes does not depend on the sink. -/
theorem run_streams (fuel : Nat) (task : Task) : (task.run fuel).Streams := by
  induction fuel generalizing task with
  | zero => cases task <;> exact (quiet_throw _).streams
  | succ fuel ih =>
      -- A sink that takes everything sees all steps of the task.
      intro m
      obtain ⟨bytes, result, hprints⟩ :=
        (shape fuel task (m.onto .unlimited)).composed.prints ih rfl
      exact ⟨bytes, result, hprints.whole, hprints.cut⟩

end Step
end LoxLang
