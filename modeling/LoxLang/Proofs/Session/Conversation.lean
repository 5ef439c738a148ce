import LoxLang.CommandLine
import LoxLang.Proofs.Session.Inputs
import LoxLang.Proofs.Session.Joined

/-!
# A conversation as a session

A conversation runs its lines as the inputs of one session.  Its sink holds
the prompt and then, for every line, what the line prints and the prompt
again.  This is said of the lines as they stand in the input, which are
described here without the function that cuts them out.
-/

namespace LoxLang

/-- The errors that are reported of an input. -/
def Outcome.errors : Outcome → List Diagnostic
  | .failed errors => errors
  | .finished | .broken _ | .outOfFuel => []

namespace Session

theorem runAll_emptied
    (fuel : Nat) (session : Session) (sources : List String) :
    session.emptied.runAll fuel sources = session.runAll fuel sources := by
  cases sources <;> rfl

theorem runAll_cons_of_isRegular
    {fuel : Nat} {session : Session} {source : String}
    (sources : List String)
    (h : (session.emptied.run fuel source).1.isRegular = true) :
    session.runAll fuel (source :: sources) =
      ((session.emptied.run fuel source).1,
          (session.emptied.run fuel source).2.machine.sink.written) ::
        (session.emptied.run fuel source).2.runAll fuel sources := by
  rw [runAll]
  generalize session.emptied.run fuel source = ended at h ⊢
  obtain ⟨outcome, after⟩ := ended
  cases outcome with
  | finished => rfl
  | failed errors => rfl
  | broken defect => cases h
  | outOfFuel => cases h

theorem head_mem_runAll
    (fuel : Nat) (session : Session) (source : String)
    (sources : List String) :
    ((session.emptied.run fuel source).1,
        (session.emptied.run fuel source).2.machine.sink.written) ∈
      session.runAll fuel (source :: sources) := by
  rw [runAll]
  generalize session.emptied.run fuel source = ended
  obtain ⟨outcome, after⟩ := ended
  cases outcome <;> exact List.mem_cons_self

end Session

namespace Prompt

/-! ## The lines of an input -/

/-- The lines of some bytes.  A line is ended by a newline, and one carriage
return before it belongs to the end.  After a last newline there is no line,
and a line that is not ended keeps all its bytes. -/
inductive LinesOf : List UInt8 → List (List UInt8) → Prop where
  | none : LinesOf [] []
  | unended {line : List UInt8} :
      line ≠ [] → 10 ∉ line → LinesOf line [line]
  | ended {line rest : List UInt8} {lines : List (List UInt8)} :
      10 ∉ line → line.getLast? ≠ some 13 → LinesOf rest lines →
      LinesOf (line ++ 10 :: rest) (line :: lines)
  | endedByReturn {line rest : List UInt8} {lines : List (List UInt8)} :
      10 ∉ line → LinesOf rest lines →
      LinesOf (line ++ 13 :: 10 :: rest) (line :: lines)

theorem linesAfter_nil {line : List UInt8} (h : line ≠ []) :
    linesAfter line [] = [line.reverse] := by
  cases line with
  | nil => exact absurd rfl h
  | cons byte line => rw [linesAfter]; simp

private theorem linesAfter_cons (line : List UInt8) (byte : UInt8)
    (rest : List UInt8) :
    linesAfter line (byte :: rest) =
      if byte = 10 then (withoutReturn line).reverse :: linesAfter [] rest
      else linesAfter (byte :: line) rest := by
  cases line <;> rw [linesAfter]

private theorem linesAfter_append
    {front : List UInt8} (h : 10 ∉ front) (line rest : List UInt8) :
    linesAfter line (front ++ rest) =
      linesAfter (front.reverse ++ line) rest := by
  induction front generalizing line with
  | nil => rfl
  | cons byte front ih =>
      simp only [List.mem_cons, not_or] at h
      have hbyte : byte ≠ 10 := Ne.symm h.1
      rw [List.cons_append, linesAfter_cons, if_neg hbyte, ih h.2,
        List.reverse_cons, List.append_assoc, List.singleton_append]

private theorem withoutReturn_of_ne
    {line : List UInt8} (h : line.head? ≠ some 13) :
    withoutReturn line = line := by
  unfold withoutReturn
  split
  · exact absurd rfl h
  · rfl

private theorem linesAfter_newline (line rest : List UInt8) :
    linesAfter line (10 :: rest) =
      (withoutReturn line).reverse :: linesAfter [] rest := by
  rw [linesAfter_cons, if_pos rfl]

theorem LinesOf.linesAfter
    {bytes : List UInt8} {lines : List (List UInt8)}
    (h : LinesOf bytes lines) : linesAfter [] bytes = lines := by
  induction h with
  | none => rfl
  | @unended line hne hline =>
      have hcut := linesAfter_append hline [] []
      rw [List.append_nil, List.append_nil] at hcut
      rw [hcut, linesAfter_nil (by simpa using hne), List.reverse_reverse]
  | ended hline hlast _ ih =>
      rw [linesAfter_append hline, linesAfter_newline, ih, List.append_nil,
        withoutReturn_of_ne, List.reverse_reverse]
      rwa [List.head?_reverse]
  | @endedByReturn line rest _ hline _ ih =>
      have hfront : 10 ∉ line ++ [13] := by simp [hline]
      have hsplit : line ++ 13 :: 10 :: rest =
          (line ++ [13]) ++ 10 :: rest := by simp
      rw [hsplit, linesAfter_append hfront, linesAfter_newline, ih]
      simp [withoutReturn]

private theorem exists_linesOf (bytes : List UInt8) :
    ∃ lines, LinesOf bytes lines := by
  induction hlength : bytes.length using Nat.strongRecOn generalizing bytes with
  | ind length ih =>
      by_cases hnewline : 10 ∈ bytes
      · obtain ⟨line, rest, hbytes, hline⟩ :=
          List.eq_append_cons_of_mem hnewline
        have hshorter : rest.length < length := by
          rw [← hlength, hbytes]
          simp only [List.length_append, List.length_cons]
          omega
        obtain ⟨lines, hrest⟩ := ih rest.length hshorter rest rfl
        by_cases hlast : line.getLast? = some 13
        · obtain ⟨front, hfront⟩ := List.getLast?_eq_some_iff.mp hlast
          refine ⟨front :: lines, ?_⟩
          rw [hbytes, hfront, List.append_assoc]
          apply LinesOf.endedByReturn _ hrest
          intro hmem
          exact hline (hfront ▸ List.mem_append_left _ hmem)
        · exact ⟨line :: lines, hbytes ▸ .ended hline hlast hrest⟩
      · by_cases hempty : bytes = []
        · exact ⟨[], hempty ▸ .none⟩
        · exact ⟨[bytes], .unended hempty hnewline⟩

theorem linesOf_linesAfter (bytes : List UInt8) :
    LinesOf bytes (linesAfter [] bytes) := by
  obtain ⟨lines, hlines⟩ := exists_linesOf bytes
  rwa [hlines.linesAfter]

/-! ## The texts that are run -/

/-- What brings a conversation to its end. -/
inductive Stop where
  | endOfInput
  | quit
  | notText

def Stop.ending : Stop → Ending
  | .endOfInput | .quit => .closed
  | .notText => .failed .notText

/-- The lines before the first one that asks to quit or that is no text, and
what comes after them. -/
inductive Entered : List (List UInt8) → List String → Stop → Prop where
  | endOfInput : Entered [] [] .endOfInput
  | quit {line : List UInt8} {lines : List (List UInt8)} {text : String} :
      text.toUTF8 = ⟨line.toArray⟩ → Text.trimmed text = Prompt.quit →
      Entered (line :: lines) [] .quit
  | notText {line : List UInt8} {lines : List (List UInt8)} :
      (∀ text : String, text.toUTF8 ≠ ⟨line.toArray⟩) →
      Entered (line :: lines) [] .notText
  | run {line : List UInt8} {lines : List (List UInt8)} {text : String}
      {texts : List String} {stop : Stop} :
      text.toUTF8 = ⟨line.toArray⟩ → Text.trimmed text ≠ Prompt.quit →
      Entered lines texts stop → Entered (line :: lines) (text :: texts) stop

/-- The texts that a conversation on this input runs, and why it stops. -/
def Reads (input : ByteArray) (texts : List String) (stop : Stop) : Prop :=
  ∃ lines, LinesOf input.toList lines ∧ Entered lines texts stop

theorem decode_of_toUTF8 {bytes : ByteArray} {text : String}
    (h : text.toUTF8 = bytes) : Text.Utf8.decode bytes = .ok text := by
  subst h
  have hvalid : text.toUTF8.IsValidUTF8 := text.isValidUTF8
  unfold Text.Utf8.decode String.fromUTF8?
  rw [dif_pos hvalid]
  rfl

theorem exists_decode_error {bytes : ByteArray}
    (h : ∀ text : String, text.toUTF8 ≠ bytes) :
    ∃ fault, Text.Utf8.decode bytes = .error fault := by
  have hinvalid : ¬ bytes.IsValidUTF8 :=
    fun hvalid => h (String.fromUTF8 bytes hvalid) rfl
  refine ⟨Text.Utf8.fault bytes, ?_⟩
  unfold Text.Utf8.decode String.fromUTF8?
  rw [dif_neg hinvalid]

private theorem exists_entered (lines : List (List UInt8)) :
    ∃ texts stop, Entered lines texts stop := by
  induction lines with
  | nil => exact ⟨[], .endOfInput, .endOfInput⟩
  | cons line lines ih =>
      obtain ⟨texts, stop, hrest⟩ := ih
      by_cases htext : ∃ text : String, text.toUTF8 = ⟨line.toArray⟩
      · obtain ⟨text, htext⟩ := htext
        by_cases hquit : Text.trimmed text = quit
        · exact ⟨[], .quit, .quit htext hquit⟩
        · exact ⟨text :: texts, stop, .run htext hquit hrest⟩
      · exact ⟨[], .notText, .notText fun text h => htext ⟨text, h⟩⟩

theorem exists_reads (input : ByteArray) :
    ∃ texts stop, Reads input texts stop := by
  obtain ⟨texts, stop, hentered⟩ :=
    exists_entered (linesAfter [] input.toList)
  exact ⟨texts, stop, _, linesOf_linesAfter _, hentered⟩

/-! ## One line -/

/-- The output of some inputs, each with a text behind it. -/
def shown (behind : ByteArray) : List (Outcome × ByteArray) → ByteArray
  | [] => .empty
  | report :: reports => report.2 ++ behind ++ shown behind reports

/-- The prompt, some times in a row. -/
def signs : Nat → ByteArray
  | 0 => .empty
  | count + 1 => sign.toUTF8 ++ signs count

namespace Output

/-- What a prompt adds to that which the session writes. -/
def behind : Output → ByteArray
  | .shared => sign.toUTF8
  | .own _ => .empty

/-- Where the prompt is shown, after some more of them. -/
def after (count : Nat) : Output → Output
  | .shared => .shared
  | .own sink => .own (sink.append (signs count))

theorem after_after (output : Output) (count more : Nat) :
    (output.after count).after more = output.after (count + more) := by
  cases output with
  | shared => rfl
  | own sink =>
      have hsigns : signs count ++ signs more = signs (count + more) := by
        induction count with
        | zero => rw [signs, Nat.zero_add, ByteArray.empty_append]
        | succ count ih =>
            rw [signs, ByteArray.append_assoc, ih, Nat.succ_add, signs]
      simp only [after, Sink.append_append, hsigns]

theorem behind_after (output : Output) (count : Nat) :
    (output.after count).behind = output.behind := by
  cases output <;> rfl

end Output

/-- Neither the output nor the prompts are lost. -/
structure State.Faultless (state : State) : Prop where
  session : state.session.machine.sink.Faultless
  prompt : state.sink.Faultless

/-- The state after a prompt that was shown. -/
def State.asked (state : State) : State :=
  { state with
    session.machine.sink :=
      state.session.machine.sink.append state.output.behind
    output := state.output.after 1 }

theorem ask_of_faultless {state : State} (h : state.sink.Faultless) :
    state.ask = state.asked := by
  have hflush : (state.sink.append sign.toUTF8).flush = .ok () := by
    simp [Sink.flush, Sink.append, h.flushes]
  have hask : state.ask =
      state.withSink (state.sink.append sign.toUTF8) := by
    unfold State.ask
    rw [Sink.write_of_takes (h.takes _)]
    dsimp only
    rw [hflush]
  obtain ⟨session, output, diagnostics, ending⟩ := state
  rw [hask]
  cases output with
  | shared => rfl
  | own sink =>
      simp only [State.withSink, State.sink, State.asked, Output.behind,
        Output.after, signs, Sink.append_empty, ByteArray.append_empty]

theorem State.Faultless.asked {state : State} (h : state.Faultless) :
    state.asked.Faultless := by
  obtain ⟨session, output, diagnostics, ending⟩ := state
  refine ⟨⟨h.session.limit, h.session.flushes⟩, ?_⟩
  cases output with
  | shared => exact ⟨h.prompt.limit, h.prompt.flushes⟩
  | own sink => exact ⟨h.prompt.limit, h.prompt.flushes⟩

private theorem enter_of_ending
    (fuel : Nat) {state : State} (line : ByteArray)
    (h : state.ending.isSome = true) : state.enter fuel line = state := by
  obtain ⟨ending, hending⟩ := Option.isSome_iff_exists.mp h
  unfold State.enter
  rw [hending]

theorem foldl_enter_of_ending
    (fuel : Nat) {state : State} (lines : List ByteArray)
    (h : state.ending.isSome = true) :
    lines.foldl (State.enter fuel) state = state := by
  induction lines with
  | nil => rfl
  | cons line lines ih => rw [List.foldl_cons, enter_of_ending fuel line h, ih]

theorem enter_quit
    {fuel : Nat} {state : State} {line : ByteArray} {text : String}
    (hopen : state.ending = none) (htext : text.toUTF8 = line)
    (hquit : Text.trimmed text = quit) :
    state.enter fuel line = { state with ending := some Stop.quit.ending } := by
  unfold State.enter
  rw [hopen, decode_of_toUTF8 htext]
  exact if_pos hquit

theorem enter_notText
    {fuel : Nat} {state : State} {line : ByteArray}
    (hopen : state.ending = none)
    (htext : ∀ text : String, text.toUTF8 ≠ line) :
    state.enter fuel line =
      { state with ending := some Stop.notText.ending } := by
  obtain ⟨fault, hfault⟩ := exists_decode_error htext
  unfold State.enter
  rw [hopen, hfault]
  rfl

/-- A line that is run adds its output, the prompt and its errors. -/
theorem enter_run
    {fuel : Nat} {state : State} {line : ByteArray} {text : String}
    (h : state.Faultless) (hopen : state.ending = none)
    (htext : text.toUTF8 = line) (hquit : Text.trimmed text ≠ quit)
    (hregular : (state.session.emptied.run fuel text).1.isRegular = true) :
    ∃ ran : State, state.enter fuel line = ran.asked ∧ ran.Faultless ∧
      ran.session = (state.session.run fuel text).2 ∧
      ran.output = state.output ∧
      ran.diagnostics =
        state.diagnostics ++ (state.session.emptied.run fuel text).1.errors ∧
      ran.ending = none := by
  obtain ⟨houtcome, -, hwritten⟩ :=
    Session.run_onto_written h.session fuel text
  rw [← houtcome] at hregular ⊢
  have hended (diagnostics : List Diagnostic) :
      (State.mk (state.session.run fuel text).2 state.output diagnostics
        none).Faultless := by
    have hsession :
        (state.session.run fuel text).2.machine.sink.Faultless := by
      rw [hwritten]
      exact ⟨h.session.limit, h.session.flushes⟩
    refine ⟨hsession, ?_⟩
    obtain ⟨session, output, diagnostics, ending⟩ := state
    cases output with
    | shared => exact hsession
    | own sink => exact h.prompt
  have henter : state.enter fuel line = state.runLine fuel text := by
    unfold State.enter
    rw [hopen, decode_of_toUTF8 htext]
    exact if_neg hquit
  rw [henter]
  unfold State.runLine
  generalize state.session.run fuel text = ended at *
  obtain ⟨outcome, after⟩ := ended
  cases outcome with
  | finished =>
      dsimp only
      rw [hopen]
      have hran := hended state.diagnostics
      exact ⟨_, ask_of_faultless hran.prompt, hran, rfl, rfl,
        (List.append_nil _).symm, rfl⟩
  | failed errors =>
      dsimp only
      rw [hopen]
      have hran := hended (state.diagnostics ++ errors)
      exact ⟨_, ask_of_faultless hran.prompt, hran, rfl, rfl, rfl, rfl⟩
  | broken defect => cases hregular
  | outOfFuel => cases hregular

/-! ## All lines -/

/-- What has come of the conversation at its end, if `reports` are those of
the texts it has run since `state`. -/
structure State.Goes
    (state : State) (reports : List (Outcome × ByteArray)) (stop : Stop)
    (final : State) : Prop where
  written : final.session.machine.sink.written =
    state.session.machine.sink.written ++ shown state.output.behind reports
  output : final.output = state.output.after reports.length
  diagnostics : final.diagnostics =
    state.diagnostics ++ reports.flatMap fun report => report.1.errors
  ending : final.ending = some stop.ending

/-- A conversation that stops here has run nothing more. -/
theorem State.goes_stopped
    {state final : State} {stop : Stop}
    (hfinal : final = { state with ending := some stop.ending }) :
    state.Goes [] stop final := by
  subst hfinal
  refine ⟨?_, ?_, ?_, rfl⟩
  · rw [shown, ByteArray.append_empty]
  · obtain ⟨session, output, diagnostics, ending⟩ := state
    cases output with
    | shared => rfl
    | own sink =>
        simp only [Output.after, List.length_nil, signs, Sink.append_empty]
  · rw [List.flatMap_nil, List.append_nil]

/-- Behind a line that ends the conversation, no line is run. -/
theorem State.goes_of_enter
    {fuel : Nat} {state : State} {line : ByteArray} {lines : List ByteArray}
    {stop : Stop} (henter : state.enter fuel line =
      { state with ending := some stop.ending }) :
    state.Goes [] stop
      ((line :: lines).foldl (State.enter fuel) state).close := by
  apply State.goes_stopped
  rw [List.foldl_cons, henter, foldl_enter_of_ending fuel _ rfl]
  rfl

/-- From an open conversation on, the reports are those of the session. -/
theorem Entered.goes
    {fuel : Nat} {lines : List (List UInt8)} {texts : List String}
    {stop : Stop} (h : Entered lines texts stop) {state : State}
    (hstate : state.Faultless) (hopen : state.ending = none)
    (hregular : ∀ report ∈ state.session.runAll fuel texts,
      report.1.isRegular = true) :
    (state.session.runAll fuel texts).length = texts.length ∧
      state.Goes (state.session.runAll fuel texts) stop
        ((lines.map fun line => (⟨line.toArray⟩ : ByteArray)).foldl
          (State.enter fuel) state).close := by
  induction h generalizing state with
  | endOfInput =>
      refine ⟨rfl, State.goes_stopped ?_⟩
      change state.close = _
      unfold State.close
      rw [hopen]
      rfl
  | @quit line lines text htext hquit =>
      exact ⟨rfl, State.goes_of_enter (enter_quit hopen htext hquit)⟩
  | @notText line lines htext =>
      exact ⟨rfl, State.goes_of_enter (enter_notText hopen htext)⟩
  | @run line lines text texts stop htext hquit _ ih =>
      have hfirst :=
        hregular _ (Session.head_mem_runAll fuel state.session text texts)
      have hreports := Session.runAll_cons_of_isRegular texts hfirst
      obtain ⟨ran, henter, hran, hsession, houtput, hdiagnostics, hnext⟩ :=
        enter_run hstate hopen htext hquit hfirst
      obtain ⟨-, hafter, hwritten⟩ :=
        Session.run_onto_written hstate.session fuel text
      rw [← hsession] at hafter hwritten
      -- The session goes on from where the line has left it, except for what
      -- is in the sink.
      have hrest :
          (state.session.emptied.run fuel text).2.runAll fuel texts =
            ran.asked.session.runAll fuel texts := by
        rw [← Session.runAll_emptied, ← hafter]
        exact Session.runAll_emptied fuel ran.asked.session texts
      rw [hrest] at hreports
      rw [hreports] at hregular ⊢
      obtain ⟨hlength, hgoes⟩ := ih hran.asked hnext
        fun report hreport => hregular report (List.mem_cons_of_mem _ hreport)
      rw [List.map_cons, List.foldl_cons, henter]
      refine ⟨congrArg Nat.succ hlength, ?_, ?_, ?_, hgoes.ending⟩
      · rw [hgoes.written, shown]
        simp only [State.asked, Output.behind_after, houtput, hwritten,
          Sink.append, ByteArray.append_assoc]
      · rw [hgoes.output]
        simp only [State.asked, houtput, Output.after_after,
          List.length_cons, Nat.add_comm]
      · rw [hgoes.diagnostics]
        simp only [State.asked, hdiagnostics, List.flatMap_cons,
          List.append_assoc]

/-- A conversation from its first prompt on, wherever it shows its prompts. -/
theorem Reads.goes
    {fuel : Nat} {session : Session} {output : Output} {input : ByteArray}
    {texts : List String} {stop : Stop} (h : Reads input texts stop)
    (hstate : (State.mk session output [] none).Faultless)
    (hregular : ∀ report ∈ session.runAll fuel texts,
      report.1.isRegular = true) :
    (session.runAll fuel texts).length = texts.length ∧
      (State.mk session output [] none).asked.Goes
        (session.runAll fuel texts) stop
        (converseOn output fuel session input) := by
  obtain ⟨lines, hlines, hentered⟩ := h
  have hreports :
      (State.mk session output [] none).asked.session.runAll fuel texts =
        session.runAll fuel texts := by
    rw [← Session.runAll_emptied]
    exact Session.runAll_emptied fuel session texts
  rw [← hreports] at hregular ⊢
  have hgoes := hentered.goes hstate.asked rfl hregular
  rw [← hlines.linesAfter] at hgoes
  rwa [converseOn, startOn, ask_of_faultless hstate.prompt]

/-- A conversation is its session run over the lines of the input, up to the
first one that asks to quit or that is no text.  If no run breaks off, every
line that is run has a report, the output stands between prompts, and the
errors are listed in order.  Where the prompts have a sink of their own, they
are all that it is given, and the session writes nothing but the output. -/
theorem converse_is_session_over_lines
    (fuel : Nat) (session : Session) (input : ByteArray)
    (hsink : session.machine.sink.Faultless) :
    (∃ texts stop, Reads input texts stop) ∧
    ∀ texts stop, Reads input texts stop →
      let reports := session.runAll fuel texts
      let final := converse fuel session input
      (∀ report ∈ reports, report.1.isRegular = true) →
      reports.length = texts.length ∧
      final.session.machine.sink.written =
        session.machine.sink.written ++ sign.toUTF8 ++
          shown sign.toUTF8 reports ∧
      Report.listed final.diagnostics =
        String.join ((reports.flatMap fun report => report.1.errors).map
          fun e => e.message ++ "\n") ∧
      final.ending = some stop.ending ∧
      ∀ sink : Sink, sink.Faultless →
        let apart := converseOn (.own sink) fuel session input
        apart.session.machine.sink.written =
          session.machine.sink.written ++ shown .empty reports ∧
        apart.output = .own (sink.append (signs (texts.length + 1))) ∧
        apart.diagnostics = final.diagnostics ∧
        apart.ending = final.ending := by
  refine ⟨exists_reads input, ?_⟩
  intro texts stop hreads reports final hregular
  obtain ⟨hlength, hgoes⟩ := @Reads.goes _ _ .shared _ _ _ hreads
    ⟨hsink, hsink⟩ hregular
  refine ⟨hlength, hgoes.written, ?_, hgoes.ending, ?_⟩
  · exact congrArg Report.listed hgoes.diagnostics
  · intro sink hprompts apart
    obtain ⟨-, hapart⟩ := @Reads.goes _ _ (.own sink) _ _ _ hreads
      ⟨hsink, hprompts⟩ hregular
    refine ⟨?_, ?_, ?_, ?_⟩
    · rw [hapart.written]
      simp only [State.asked, Output.behind, Output.after, Sink.append_empty]
      rfl
    · rw [hapart.output, hlength, State.asked, Output.after_after,
        Nat.add_comm]
      rfl
    · exact hapart.diagnostics.trans hgoes.diagnostics.symm
    · exact hapart.ending.trans hgoes.ending.symm

/-- A line that prints, one with an error, a blank one, and then a byte that
is no text, before a line that is not read any more. -/
def undecodable : ByteArray :=
  ⟨("print nil;\r\nprint x;\n\n".toUTF8.toList ++
    255 :: 10 :: ":q".toUTF8.toList).toArray⟩

private theorem reads_undecodable :
    Reads undecodable ["print nil;", "print x;", ""] .notText := by
  refine ⟨_, linesOf_linesAfter _, ?_⟩
  have hlines : linesAfter [] undecodable.toList =
      ["print nil;".toUTF8.toList, "print x;".toUTF8.toList, [], [255],
        ":q".toUTF8.toList] := by
    decide +kernel
  have hfault : (Text.Utf8.decode ⟨#[255]⟩).isOk = false := by
    decide +kernel
  rw [hlines]
  apply Entered.run (by decide +kernel) (by decide +kernel)
  apply Entered.run (by decide +kernel) (by decide +kernel)
  apply Entered.run (by decide +kernel) (by decide +kernel)
  apply Entered.notText
  intro text htext
  rw [decode_of_toUTF8 htext] at hfault
  cases hfault

theorem undecodable_is_session_over_lines :
    let final := converse 20 (.start .unlimited fun _ => 0) undecodable
    let apart := converseOn (.own .unlimited) 20
      (.start .unlimited fun _ => 0) undecodable
    final.session.machine.sink.written =
        ">>> nil\n>>> >>> >>> ".toUTF8 ∧
      Report.listed final.diagnostics =
        "[ERROR]: Undefined variable 'x'. [line 1]\n" ∧
      final.ending = some (.failed .notText) ∧
      apart.session.machine.sink.written = "nil\n".toUTF8 ∧
      apart.output =
        .own (Sink.unlimited.append ">>> >>> >>> >>> ".toUTF8) := by
  intro final apart
  obtain ⟨-, hwritten, hlisted, hending, hapart⟩ :=
    (converse_is_session_over_lines 20 (.start .unlimited fun _ => 0)
      undecodable ⟨rfl, rfl⟩).2 _ _ reads_undecodable (by decide +kernel)
  obtain ⟨houtput, hprompts, -, -⟩ := hapart .unlimited ⟨rfl, rfl⟩
  refine ⟨hwritten.trans ?_, hlisted.trans ?_, hending, houtput.trans ?_,
    hprompts.trans ?_⟩
  · decide +kernel
  · decide +kernel
  · decide +kernel
  · have hsigns : signs 4 = ">>> >>> >>> >>> ".toUTF8 := by
      decide +kernel
    exact congrArg (fun text => Output.own (Sink.unlimited.append text))
      hsigns

end Prompt
end LoxLang
