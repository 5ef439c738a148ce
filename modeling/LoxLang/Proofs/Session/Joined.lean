import LoxLang.Proofs.Run.Fuel
import LoxLang.Proofs.Run.Output
import LoxLang.Proofs.Scope.Joined
import LoxLang.Proofs.Session.Rejection

/-!
# One text instead of two inputs

Two texts that are accepted can be joined by a line break into one.  The run
of the whole ends with the first part if that one does not come to its end.
Otherwise it goes on as a session does that is given the second part as its
next input: it prints the same and ends in the same way, but for the lines in
which its errors are reported.
-/

namespace LoxLang

/-! ## Sinks without faults -/

/-- The sink takes everything, and its flush does not fail. -/
structure Sink.Faultless (sink : Sink) : Prop where
  limit : sink.limit = none
  flushes : sink.flushFails = false

theorem Sink.Faultless.takes
    {sink : Sink} (h : sink.Faultless) (bytes : ByteArray) :
    sink.Takes bytes :=
  Sink.takes_of_limit h.limit bytes

/-- How the run of a program ends if its flush does not fail. -/
def Outcome.ofEnd :
    EStateM.Result Halt Machine Completion → Outcome × Machine
  | .ok .normal m => (.finished, m)
  | .ok (.returned _) m => (.broken .strayReturn, m)
  | .error halt m => (.ofHalt halt, m)

theorem Outcome.exists_of_finished
    {result : EStateM.Result Halt Machine Completion}
    (h : (ofEnd result).1 = .finished) : ∃ m, result = .ok .normal m := by
  cases result with
  | ok completion m =>
      cases completion with
      | normal => exact ⟨m, rfl⟩
      | returned value => cases h
  | error halt m => cases halt <;> cases h

theorem Outcome.ofEnd_endOnto
    (sink : Sink) (result : EStateM.Result Halt Machine Completion) :
    ofEnd (Step.endOnto sink result) =
      ((ofEnd result).1, (ofEnd result).2.onto sink) := by
  cases result with
  | ok completion m => cases completion <;> rfl
  | error halt m => rfl

theorem Outcome.ofEnd_alike
    {like : Likeness} {result result' : EStateM.Result Halt Machine Completion}
    (h : Matched (Halt.Alike like) (Machine.Alike like) Eq result result') :
    (ofEnd result).1.Alike like (ofEnd result').1 ∧
      (ofEnd result).2.Alike like (ofEnd result').2 := by
  cases h with
  | @ok completion _ _ _ hsame hafter =>
      subst hsame
      cases completion with
      | normal => exact ⟨.finished, hafter⟩
      | returned value => exact ⟨.broken .same, hafter⟩
  | error hhalt hafter => exact ⟨ofHalt_alike hhalt, hafter⟩

namespace Machine

theorem run_eq_ofEnd
    {fuel : Nat} {machine : Machine} {checked : Checked}
    {result : EStateM.Result Halt Machine Completion}
    (hexec : Step.execAll fuel checked.program
      (machine.extend checked.distances) = result)
    (hflush : (Outcome.ofEnd result).2.sink.flushFails = false) :
    machine.run fuel checked = Outcome.ofEnd result := by
  unfold Machine.run Step.runProgram
  rw [hexec]
  cases result with
  | ok completion m =>
      cases completion with
      | normal =>
          change m.sink.flushFails = false at hflush
          simp [Step.flush, Sink.flush, hflush, Outcome.ofEnd]
      | returned value => rfl
  | error halt m =>
      change m.sink.flushFails = false at hflush
      cases halt with
      | fault e => simp [Step.flush, Sink.flush, hflush, Outcome.ofEnd]
      | output e => rfl
      | defect d => rfl
      | outOfFuel => rfl

/-- What a run writes and how it ends does not depend on what its sink
holds. -/
theorem exists_written
    (fuel : Nat) (machine : Machine) (checked : Checked) :
    ∃ bytes result, ∀ sink : Sink, sink.Faultless →
      Step.execAll fuel checked.program
          ((machine.onto sink).extend checked.distances) =
        Step.endOnto (sink.append bytes) result ∧
      (machine.onto sink).run fuel checked =
        ((Outcome.ofEnd result).1,
          (Outcome.ofEnd result).2.onto (sink.append bytes)) := by
  obtain ⟨bytes, result, hprints⟩ :=
    Step.run_streams fuel (.execAll checked.program)
      (machine.extend checked.distances)
  refine ⟨bytes, result, ?_⟩
  intro sink hsink
  have hexec : Step.execAll fuel checked.program
      ((machine.onto sink).extend checked.distances) =
        Step.endOnto (sink.append bytes) result :=
    hprints.whole sink (hsink.takes bytes)
  refine ⟨hexec, ?_⟩
  rw [← Outcome.ofEnd_endOnto]
  apply run_eq_ofEnd hexec
  rw [Outcome.ofEnd_endOnto]
  exact hsink.flushes

theorem run_of_faultless
    {machine : Machine} (hsink : machine.sink.Faultless) (fuel : Nat)
    (checked : Checked) :
    machine.run fuel checked =
        Outcome.ofEnd (Step.execAll fuel checked.program
          (machine.extend checked.distances)) ∧
      (machine.run fuel checked).2.sink.Faultless := by
  obtain ⟨bytes, result, hwritten⟩ := machine.exists_written fuel checked
  obtain ⟨hexec, hrun⟩ := hwritten machine.sink hsink
  change Step.execAll _ _ (machine.extend _) = _ at hexec
  change machine.run fuel checked = _ at hrun
  rw [hexec, hrun, Outcome.ofEnd_endOnto]
  exact ⟨rfl, hsink.limit, hsink.flushes⟩

end Machine

/-! ## More fuel -/

theorem Machine.run_eq_of_le
    {fuel more : Nat} (hle : fuel ≤ more) (machine : Machine)
    (checked : Checked) (hended : (machine.run fuel checked).1 ≠ .outOfFuel) :
    machine.run more checked = machine.run fuel checked := by
  have happrox := Step.run_approximates hle (.execAll checked.program)
    (machine.extend checked.distances)
  unfold Machine.run Step.runProgram at hended ⊢
  rcases happrox with ⟨m₁, hout⟩ | hsame
  · change Step.execAll fuel checked.program _ = _ at hout
    rw [hout] at hended
    exact absurd rfl hended
  · change Step.execAll more checked.program _ =
      Step.execAll fuel checked.program _ at hsame
    rw [hsame]

theorem Session.run_eq_of_le
    {fuel more : Nat} (hle : fuel ≤ more) (session : Session)
    (source : String) (hended : (session.run fuel source).1 ≠ .outOfFuel) :
    session.run more source = session.run fuel source := by
  cases hverdict : (Analysis.ofSource source session.nextId).verdict with
  | error errors => rw [run_of_error more hverdict, run_of_error fuel hverdict]
  | ok checked =>
      rw [run_of_ok fuel hverdict] at hended
      rw [run_of_ok more hverdict, run_of_ok fuel hverdict,
        Machine.run_eq_of_le hle _ _ hended]

/-! ## The two parts -/

/-- The places of the text above. -/
def Likeness.above (nextId : PlaceId) : Likeness :=
  .places fun id id' => id = id' ∧ id < nextId

/-- The lines of the text above are the same in both, and those of the text
below are further down. -/
def Likeness.mixed (lines : Nat) : Likeness :=
  ⟨fun line line' => line' = line ∨ line' = line + lines, Eq⟩

theorem Likeness.above_below_mixed (nextId : PlaceId) (lines : Nat) :
    (Likeness.above nextId).Below (.mixed lines) :=
  ⟨fun _ _ hline => .inl hline.symm, fun _ _ hplace => hplace.1⟩

namespace Session

/-! ## Single inputs -/

section
variable {session : Session} {source : String} {checked : Checked}

/-- The run of a text that is accepted, on a sink that does not fail. -/
theorem run_eq_ofEnd
    {result : EStateM.Result Halt Machine Completion} (session : Session)
    (fuel : Nat)
    (hverdict : (Analysis.ofSource source session.nextId).verdict =
      .ok checked)
    (hsink : session.machine.sink.Faultless)
    (hexec : Step.execAll fuel checked.program
      (session.machine.extend checked.distances) = result) :
    session.run fuel source =
      ((Outcome.ofEnd result).1,
        ⟨(Outcome.ofEnd result).2,
          (Analysis.ofSource source session.nextId).nextId⟩) := by
  rw [run_of_ok fuel hverdict, (Machine.run_of_faultless hsink fuel _).1,
    hexec]

/-- On a sink without faults an input does what it does on an empty one, and
its output comes after what the sink holds. -/
theorem run_onto_written
    (hsink : session.machine.sink.Faultless) (fuel : Nat) (source : String) :
    (session.run fuel source).1 = (session.emptied.run fuel source).1 ∧
      (session.run fuel source).2.emptied =
        (session.emptied.run fuel source).2.emptied ∧
      (session.run fuel source).2.machine.sink =
        session.machine.sink.append
          (session.emptied.run fuel source).2.machine.sink.written := by
  cases hverdict : (Analysis.ofSource source session.nextId).verdict with
  | error errors =>
      have hverdict' :
          (Analysis.ofSource source session.emptied.nextId).verdict =
            .error errors :=
        hverdict
      rw [run_of_error fuel hverdict, run_of_error fuel hverdict']
      exact ⟨rfl, rfl, (Sink.append_empty _).symm⟩
  | ok checked =>
      have hverdict' :
          (Analysis.ofSource source session.emptied.nextId).verdict =
            .ok checked :=
        hverdict
      obtain ⟨bytes, result, hwritten⟩ :=
        session.machine.exists_written fuel checked
      have hrun := (hwritten session.machine.sink hsink).2
      have hempty := (hwritten session.machine.sink.emptied
        ⟨hsink.limit, hsink.flushes⟩).2
      change session.machine.run fuel checked = _ at hrun
      change session.emptied.machine.run fuel checked = _ at hempty
      rw [run_of_ok fuel hverdict, run_of_ok fuel hverdict', hrun, hempty]
      refine ⟨rfl, rfl, ?_⟩
      change session.machine.sink.append bytes =
        session.machine.sink.append (.empty ++ bytes)
      rw [ByteArray.empty_append]

end

/-! ## Both parts -/

/-- Two accepted texts and what is made of them, each on its own and joined by
a line break. -/
structure Joins
    (source below : String) (first second : Checked) (tail : List Stmt)
    (distances : Distances) : Prop where
  verdict : (Analysis.ofSource source 0).verdict = .ok first
  next : (Analysis.ofSource below
    (Analysis.ofSource source 0).nextId).verdict = .ok second
  whole : (Analysis.ofSource (source ++ "\n" ++ below) 0).verdict =
    .ok ⟨first.program ++ tail, distances⟩
  alike : Stmt.AllAlike (.lowered (Token.linesOf source)) second.program tail
  find? : ∀ id, distances.find? id =
    (first.distances.merge second.distances).find? id

namespace Joins

variable {source below : String} {first second : Checked} {tail : List Stmt}
variable {distances : Distances} {sink : Sink} {clock : Nat → Float}

theorem program_alike (h : Joins source below first second tail distances) :
    Stmt.AllAlike (.above (Analysis.ofSource source 0).nextId)
      first.program first.program := by
  have hverdict := (Analysis.ofSource_shifted source 0 0).verdict
  rw [h.verdict] at hverdict
  cases hverdict with
  | ok hchecked =>
      apply hchecked.program.imp (Likeness.linesBelow_places _ _)
      rintro id hid id' ⟨k, hk, hk'⟩
      exact ⟨hk.trans hk'.symm, (Analysis.places_bounds h.verdict hid).2⟩

private theorem start_alike
    (h : Joins source below first second tail distances) :
    ((start sink clock).machine.extend first.distances).Alike
      (.above (Analysis.ofSource source 0).nextId)
      ((start sink clock).machine.extend distances) := by
  refine ⟨⟨rfl, fun _ => .none, fun _ => .none, rfl⟩, rfl, rfl, ?_, rfl, rfl,
    rfl, rfl⟩
  rintro id id' ⟨rfl, hid⟩
  change (Distances.merge _ _).find? id = (Distances.merge _ _).find? id
  rw [Distances.find?_merge, Distances.find?_merge, h.find?,
    Distances.find?_merge, Analysis.find?_eq_none h.next (.inl hid),
    Option.none_or]

/-- Where the first part has come to its end, the machine of the whole is like
that of a session that has been given the distances of the second part. -/
theorem next_alike
    {m m' : Machine} {nextId : PlaceId}
    (h : Joins source below first second tail distances)
    (halike : m.Alike (.above nextId) m')
    (hm : m.distances =
      ((start sink clock).machine.extend first.distances).distances)
    (hm' : m'.distances =
      ((start sink clock).machine.extend distances).distances) :
    (m.extend second.distances).Alike (.mixed (Token.linesOf source)) m' := by
  refine ⟨halike.store.mono (Likeness.above_below_mixed nextId _),
    halike.globals, halike.current, ?_, halike.sink, halike.clock,
    halike.ticks, halike.host⟩
  rintro id id' rfl
  change (m.distances.merge second.distances).find? id = m'.distances.find? id
  rw [hm, hm']
  change ((Distances.merge .empty first.distances).merge _).find? id =
    (Distances.merge .empty distances).find? id
  simp only [Distances.find?_merge, h.find?, Distances.find?_empty,
    Option.or_none]

private theorem tail_alike
    (h : Joins source below first second tail distances) :
    Stmt.AllAlike (.mixed (Token.linesOf source)) second.program tail :=
  h.alike.imp (fun _ _ hline => .inr hline) fun _ _ _ hplace => hplace

/-- The first part does the same in both runs. -/
theorem first_matched
    (h : Joins source below first second tail distances) (sink : Sink)
    (clock : Nat → Float) (fuel : Nat) :
    Matched (Halt.Alike (.above (Analysis.ofSource source 0).nextId))
      (Machine.Alike (.above (Analysis.ofSource source 0).nextId)) Eq
      (Step.execAll fuel first.program
        ((start sink clock).machine.extend first.distances))
      (Step.execAll fuel first.program
        ((start sink clock).machine.extend distances)) :=
  (tasksAlike _ fuel).execAll h.program_alike _ _ h.start_alike

/-- The first part does not come to its end. -/
theorem run_stopped
    (h : Joins source below first second tail distances)
    (hsink : sink.Faultless) (fuel : Nat)
    (hstopped : ((start sink clock).run fuel source).1 ≠ .finished) :
    ((start sink clock).run fuel (source ++ "\n" ++ below)).1 =
        ((start sink clock).run fuel source).1 ∧
      ((start sink clock).run fuel
          (source ++ "\n" ++ below)).2.machine.sink =
        ((start sink clock).run fuel source).2.machine.sink := by
  have hmatched := h.first_matched sink clock fuel
  have hfirst := run_eq_ofEnd (start sink clock) fuel h.verdict hsink rfl
  rw [hfirst] at hstopped ⊢
  have hfront : ∀ m₁, Step.execAll fuel first.program
      ((start sink clock).machine.extend distances) ≠ .ok .normal m₁ := by
    intro m₁ hnormal
    rw [hnormal] at hmatched
    obtain ⟨m, hend, -⟩ := hmatched.of_right
    rw [hend] at hstopped
    exact hstopped rfl
  have hwhole := run_eq_ofEnd (start sink clock) fuel h.whole hsink
    (Step.execAll_append_of_stopped hfront tail)
  obtain ⟨houtcome, hafter⟩ := Outcome.ofEnd_alike hmatched
  rw [hwhole]
  exact ⟨houtcome.eq.symm, hafter.sink.symm⟩

/-- The first part comes to its end, and the second one follows. -/
theorem run_finished
    (h : Joins source below first second tail distances)
    (hsink : sink.Faultless) (fuel : Nat)
    (hfinished : ((start sink clock).run fuel source).1 = .finished) :
    let whole := (start sink clock).run fuel (source ++ "\n" ++ below)
    let next := ((start sink clock).run fuel source).2.run
      (fuel - first.program.length) below
    next.1.Alike (.mixed (Token.linesOf source)) whole.1 ∧
      whole.2.machine.sink = next.2.machine.sink := by
  intro whole next
  have hmatched := h.first_matched sink clock fuel
  rw [run_eq_ofEnd (start sink clock) fuel h.verdict hsink rfl]
    at hfinished
  obtain ⟨m, hend⟩ := Outcome.exists_of_finished hfinished
  rw [hend] at hmatched
  obtain ⟨m', hend', halike⟩ := hmatched.of_left
  have hfirst : ((start sink clock).run fuel source).2 =
      ⟨m, (Analysis.ofSource source 0).nextId⟩ :=
    congrArg Prod.snd
      (run_eq_ofEnd (start sink clock) fuel h.verdict hsink hend)
  have hafter : m.sink.Faultless := by
    have hrun := @Machine.run_of_faultless (start sink clock).machine hsink
      fuel first
    rw [hrun.1, hend] at hrun
    exact hrun.2
  have hnext := run_eq_ofEnd ⟨m, (Analysis.ofSource source 0).nextId⟩
    (fuel - first.program.length) h.next hafter rfl
  have hwhole := run_eq_ofEnd (start sink clock) fuel h.whole hsink
    (Step.execAll_append_of_normal hend' tail)
  have hready := @next_alike _ _ _ _ _ _ sink clock _ _ _ h halike
    ((Step.run_keeps fuel (.execAll first.program) _).of_ok hend).distances
    ((Step.run_keeps fuel (.execAll first.program) _).of_ok hend').distances
  have hrest := Outcome.ofEnd_alike
    ((tasksAlike _ (fuel - first.program.length)).execAll h.tail_alike _ _
      hready)
  simp only [whole, next, hfirst, hnext, hwhole]
  exact ⟨hrest.1, hrest.2.sink.symm⟩

end Joins

/-- Two texts that are accepted, joined by a line break, are accepted as well:
the statements are those of the first and then those of the second, with the
places that the second one has when it is numbered from where the first has
stopped.

On a new session, whose sink does not fail, the whole ends as the first part
does unless that one comes to its end.  If it does, the whole prints what the
first and then the second print, and ends as the second one.  With more fuel
all of them end in the same way, once they end. -/
theorem joined_text_runs_like_two_inputs
    {source below : String}
    (hsource : Analysis.rejection? source = none)
    (hbelow : Analysis.rejection? below = none) :
    let joined := source ++ "\n" ++ below
    let lines := Token.linesOf source
    let nextId := (Analysis.ofSource source 0).nextId
    ∃ first second tail distances,
      (Analysis.ofSource source 0).verdict = .ok first ∧
      (Analysis.ofSource below nextId).verdict = .ok second ∧
      Analysis.ofSource joined 0 =
        ⟨.ok ⟨first.program ++ tail, distances⟩,
          (Analysis.ofSource below nextId).nextId⟩ ∧
      Stmt.AllAlike (.lowered lines) second.program tail ∧
      ∀ (sink : Sink) (clock : Nat → Float), sink.Faultless →
        (∀ fuel,
          let whole := (start sink clock).run fuel joined
          let above := (start sink clock).run fuel source
          (above.1 ≠ .finished →
            whole.1 = above.1 ∧
              whole.2.machine.sink = above.2.machine.sink) ∧
          (above.1 = .finished →
            let rest := fuel - first.program.length
            let next := above.2.run rest below
            let own := above.2.emptied.run rest below
            next.1.Alike (.mixed lines) whole.1 ∧ own.1 = next.1 ∧
              whole.2.machine.sink = next.2.machine.sink ∧
              whole.2.machine.sink.written =
                above.2.machine.sink.written ++
                  own.2.machine.sink.written)) ∧
        ∀ (session : Session) (input : String) (fuel more : Nat),
          fuel ≤ more → (session.run fuel input).1 ≠ .outOfFuel →
          session.run more input = session.run fuel input := by
  intro joined lines nextId
  obtain ⟨first, hfirst⟩ :=
    (@Analysis.rejection?_eq_none_iff source 0).mp hsource
  obtain ⟨second, hsecond⟩ :=
    (@Analysis.rejection?_eq_none_iff below nextId).mp hbelow
  obtain ⟨tail, distances, hjoined, halike, hfind⟩ :=
    Analysis.ofSource_joined hfirst hsecond
  refine ⟨first, second, tail, distances, hfirst, hsecond, hjoined, halike, ?_⟩
  intro sink clock hsink
  have hjoins : Joins source below first second tail distances :=
    ⟨hfirst, hsecond, congrArg Analysis.verdict hjoined, halike, hfind⟩
  refine ⟨?_, ?_⟩
  · intro fuel whole above
    refine ⟨hjoins.run_stopped hsink fuel, ?_⟩
    intro hfinished rest next own
    obtain ⟨houtcome, hwritten⟩ := hjoins.run_finished hsink fuel hfinished
    have hafter : above.2.machine.sink.Faultless := by
      simp only [above, @run_of_ok (start sink clock) _ _ fuel hfirst]
      exact (Machine.run_of_faultless hsink fuel first).2
    obtain ⟨hown, -, hboth⟩ := run_onto_written hafter rest below
    refine ⟨houtcome, hown.symm, hwritten, ?_⟩
    rw [hwritten]
    exact congrArg Sink.written hboth
  · intro session input fuel more hle hended
    exact run_eq_of_le hle session input hended

/-- It ends in an `if` that could still take an `else`, and in a comment. -/
def openEnded : String :=
  "fun f() \x7b return b; \x7d if (f) print \"a\"; // else"

/-- It fails in a function of the text above. -/
def failingBelow : String :=
  "print \"c\"; f();"

theorem openEnded_joins_failingBelow :
    let session := start .unlimited fun _ => 0
    let above := session.run 30 openEnded
    let whole := session.run 30 (openEnded ++ "\n" ++ failingBelow)
    above.1 = .finished ∧
      ∃ rest,
        (above.2.run rest failingBelow).1.Alike (.mixed 1) whole.1 ∧
        whole.2.machine.sink.written =
          above.2.machine.sink.written ++
            (above.2.emptied.run rest failingBelow).2.machine.sink.written := by
  intro session above whole
  have hsource : Analysis.rejection? openEnded = none :=
    Option.isNone_iff_eq_none.mp (by decide +kernel)
  have hbelow : Analysis.rejection? failingBelow = none :=
    Option.isNone_iff_eq_none.mp (by decide +kernel)
  have hfinished : above.1 = .finished := by
    have hends : (match above.1 with | .finished => true | _ => false) =
        true := by
      decide +kernel
    split at hends
    · assumption
    · cases hends
  obtain ⟨first, _, _, _, -, -, -, -, hruns⟩ :=
    joined_text_runs_like_two_inputs hsource hbelow
  obtain ⟨hfuel, -⟩ := hruns .unlimited (fun _ => 0) ⟨rfl, rfl⟩
  obtain ⟨houtcome, -, -, hwritten⟩ := (hfuel 30).2 hfinished
  exact ⟨hfinished, 30 - first.program.length, houtcome, hwritten⟩

end Session
end LoxLang
