import LoxLang.Proofs.Grammar.Rounds
import LoxLang.Proofs.Session.Inputs
import LoxLang.Proofs.Session.Rejection
import LoxLang.Proofs.Token.Joined

/-!
# Where errors point

The errors of one input come from one part of its analysis, or there is one
error, with which its run has ended.  Every line that an error names is a line
of the input, and behind the scan it is the line of a token.  A run may end in
a function that an earlier input has declared, and then the line is one of that
input.

That lines are handed on and never made up is a matter of likeness: a tree
stands for itself, where each of some known lines stands for itself and no
other line does, exactly if it has no line but the known ones.  So what is
known of alike texts, trees and machines tells where lines come from.
-/

namespace LoxLang

/-- Each of the known lines stands for itself, and so does each place. -/
def Likeness.lines (known : Nat → Prop) : Likeness :=
  ⟨fun line line' => line = line' ∧ known line, Eq⟩

section
variable {known wider : Nat → Prop}

theorem Likeness.lines_counts : (Likeness.lines known).Counts :=
  fun _ _ hplace => congrArg (· + 1) hplace

theorem Likeness.lines_oneToOne : (Likeness.lines known).OneToOne := by
  rintro id _ other _ rfl rfl
  exact Iff.rfl

theorem Likeness.lines_below (h : ∀ line, known line → wider line) :
    (Likeness.lines known).Below (.lines wider) where
  line _ _ hline := ⟨hline.1, h _ hline.2⟩
  place _ _ hplace := hplace

theorem Distances.alike_lines (distances : Distances) :
    distances.Alike (.lines known) distances := by
  rintro id _ rfl
  rfl

theorem Token.alike_lines {token : Token} (h : known token.line) :
    token.Alike (.lines known) token :=
  ⟨rfl, rfl, rfl, h⟩

theorem Token.all_alike_lines
    {tokens : List Token} (h : ∀ token ∈ tokens, known token.line) :
    List.Forall₂ (Token.Alike (.lines known)) tokens tokens :=
  List.forall₂_same.mpr fun token htoken => Token.alike_lines (h token htoken)

/-! ## Lines of a reading -/

/-- Statements and failures have the lines of tokens.  The token in front of
the first one, which no text has, is never asked for its line. -/
theorem Grammar.read_alike_lines
    {tokens : List Token} (h : ∀ token ∈ tokens, known token.line)
    (firstId : PlaceId) :
    (read tokens firstId).Alike (.lines known) (read tokens firstId) := by
  cases tokens with
  | nil => exact ⟨.nil, .nil, rfl⟩
  | cons token tokens =>
      have hread : read (token :: tokens) firstId =
          declarations (token :: tokens).length
            ⟨token, token :: tokens, firstId⟩ :=
        declarations_previous _ _ _ _ (Nat.le_refl _) (Nat.le_refl _)
      rw [hread]
      refine declarations_alike Likeness.lines_counts ⟨?_, ?_, rfl⟩
        (Nat.le_refl _) (Nat.le_refl _)
      · exact Token.alike_lines (h token List.mem_cons_self)
      · exact Token.all_alike_lines h

end

/-- The line is that of a token of the text. -/
def Token.OnLine (source : String) (line : Nat) : Prop :=
  ∃ tokens, Token.ofSource source = .ok tokens ∧
    ∃ token ∈ tokens, token.line = line

/-- The line is that of a token of one of the texts. -/
def Token.OnLineOf (sources : List String) (line : Nat) : Prop :=
  ∃ source ∈ sources, Token.OnLine source line

/-! ## Lines of a scan -/

theorem Token.count_piece (c : Char) (rest : List Char) (extra : Nat) :
    (c :: rest).count '\n' =
      (c :: rest.take extra).count '\n' + (rest.drop extra).count '\n' := by
  rw [← List.count_append, List.cons_append, List.take_append_drop]

/-- An error of a scan ends on a line of the text. -/
theorem Token.line_of_mem_scanFrom
    {line : Nat} {text : List Char} {e : LexError}
    (h : .error e ∈ scanFrom line text) :
    line ≤ e.line ∧ e.line ≤ line + text.count '\n' := by
  induction line, text using scanFrom_induction with
  | stop line =>
      rw [scanFrom] at h
      cases List.mem_singleton.mp h
  | gap line c rest extra hmunch ih =>
      rw [scanFrom_gap hmunch] at h
      obtain ⟨hlow, hhigh⟩ := ih h
      have hcount := count_piece c rest extra
      omega
  | token line c rest extra kind hmunch ih =>
      rw [scanFrom_token hmunch] at h
      obtain ⟨hlow, hhigh⟩ := ih (List.mem_of_ne_of_mem (by simp) h)
      have hcount := count_piece c rest extra
      omega
  | error line c rest extra cause hmunch ih =>
      rw [scanFrom_error hmunch] at h
      have hcount := count_piece c rest extra
      rcases List.mem_cons.mp h with hhere | hlater
      · cases hhere
        dsimp only
        omega
      · obtain ⟨hlow, hhigh⟩ := ih hlater
        omega

theorem Token.line_of_ofSource
    {source : String} {errors : List LexError}
    (h : ofSource source = .error errors) :
    errors ≠ [] ∧ ∀ e ∈ errors, 1 ≤ e.line ∧ e.line ≤ linesOf source := by
  unfold ofSource at h
  dsimp only at h
  split at h
  · cases h
  · rename_i hsome
    cases h
    refine ⟨hsome, fun e he => ?_⟩
    obtain ⟨item, hitem, hfound⟩ := List.mem_filterMap.mp he
    cases item with
    | ok token => cases hfound
    | error e' =>
        cases hfound
        have hline := line_of_mem_scanFrom hitem
        unfold linesOf
        omega

/-! ## Lines of an analysis -/

/-- The parts of an analysis, up to the first that fails. -/
theorem Analysis.verdict_cases (source : String) (firstId : PlaceId) :
    (∃ errors, Token.ofSource source = .error errors ∧
      (ofSource source firstId).verdict = .error (errors.map .lexical)) ∨
    ∃ tokens, Token.ofSource source = .ok tokens ∧
      ((∃ errors, (Grammar.read tokens firstId).program = .error errors ∧
          (ofSource source firstId).verdict =
            .error (errors.map .grammatical)) ∨
        ∃ program, (Grammar.read tokens firstId).program = .ok program ∧
          (ofSource source firstId).verdict = check program) := by
  unfold ofSource
  cases htokens : Token.ofSource source with
  | error errors => exact .inl ⟨errors, rfl, rfl⟩
  | ok tokens =>
      refine .inr ⟨tokens, rfl, ?_⟩
      dsimp only
      cases hprogram : (Grammar.read tokens firstId).program with
      | error errors => exact .inl ⟨errors, rfl, rfl⟩
      | ok program => exact .inr ⟨program, rfl, rfl⟩

section
variable {known : Nat → Prop} {source : String} {firstId : PlaceId}

theorem ParseError.lines_of_alike
    {errors : List ParseError}
    (h : List.Forall₂ (ParseError.Alike (.lines known)) errors errors) :
    ∀ e ∈ errors, known e.line :=
  fun e he => (List.forall₂_same.mp h e he).line.2

theorem ScopeError.lines_of_alike
    {errors : List ScopeError}
    (h : List.Forall₂ (ScopeError.Alike (.lines known)) errors errors) :
    ∀ e ∈ errors, known e.line :=
  fun e he => (List.forall₂_same.mp h e he).line.2

/-- What is read of a text, and what fails to be read, has lines of its
tokens. -/
theorem Grammar.program_alike_lines
    {tokens : List Token} (htokens : Token.ofSource source = .ok tokens)
    (firstId : PlaceId) :
    ExceptRelated
      (List.Forall₂ (ParseError.Alike (.lines (Token.OnLine source))))
      (Stmt.AllAlike (.lines (Token.OnLine source)))
      (read tokens firstId).program (read tokens firstId).program := by
  have hknown : ∀ token ∈ tokens, Token.OnLine source token.line :=
    fun token htoken => ⟨tokens, htokens, token, htoken, rfl⟩
  exact (read_alike_lines hknown firstId).program

theorem Grammar.Reading.ne_nil_of_error
    {reading : Grammar.Reading} {errors : List ParseError}
    (h : reading.program = .error errors) : errors ≠ [] := by
  unfold Grammar.Reading.program at h
  split at h
  · cases h
  · rename_i hsome
    cases h
    exact hsome

theorem Scope.ne_nil_of_error
    {program : Program} {errors : List ScopeError}
    (h : Scope.resolve program = .error errors) : errors ≠ [] := by
  unfold Scope.resolve at h
  dsimp only at h
  split at h
  · cases h
  · rename_i hsome
    cases h
    exact hsome

/-- The errors of an analysis are those of one of its parts, and they name
lines of the text. -/
theorem Analysis.lines_of_error
    {errors : List Diagnostic}
    (h : (ofSource source firstId).verdict = .error errors) :
    errors ≠ [] ∧
      ((∃ es : List LexError, errors = es.map .lexical ∧
          ∀ e ∈ es, 1 ≤ e.line ∧ e.line ≤ Token.linesOf source) ∨
        (∃ es : List ParseError, errors = es.map .grammatical ∧
          ∀ e ∈ es, Token.OnLine source e.line) ∨
        ∃ es : List ScopeError, errors = es.map .scoping ∧
          ∀ e ∈ es, Token.OnLine source e.line) := by
  rcases verdict_cases source firstId with
    ⟨es, htokens, hverdict⟩ | ⟨tokens, htokens, hparts⟩
  · rw [hverdict] at h
    cases h
    obtain ⟨hne, hlines⟩ := Token.line_of_ofSource htokens
    exact ⟨by simpa using hne, .inl ⟨es, rfl, hlines⟩⟩
  · have hread := Grammar.program_alike_lines htokens firstId
    rcases hparts with ⟨es, hprogram, hverdict⟩ | ⟨program, hprogram, hverdict⟩
    · rw [hverdict] at h
      cases h
      have hne := Grammar.Reading.ne_nil_of_error hprogram
      rw [hprogram] at hread
      cases hread with
      | error herrors =>
          exact ⟨by simpa using hne,
            .inr (.inl ⟨es, rfl, ParseError.lines_of_alike herrors⟩)⟩
    · rw [hprogram] at hread
      cases hread with
      | ok halike =>
          have hresolve := Scope.resolve_alike Likeness.lines_oneToOne halike
          rw [hverdict] at h
          unfold check at h
          split at h
          · cases h
          · rename_i es herror
            cases h
            have hne := Scope.ne_nil_of_error herror
            rw [herror] at hresolve
            cases hresolve with
            | error herrors =>
                exact ⟨by simpa using hne,
                  .inr (.inr ⟨es, rfl, ScopeError.lines_of_alike herrors⟩)⟩

/-- An accepted program has lines of the tokens of its text. -/
theorem Analysis.lines_of_ok
    {checked : Checked}
    (h : (ofSource source firstId).verdict = .ok checked) :
    Stmt.AllAlike (.lines (Token.OnLine source)) checked.program
      checked.program := by
  rcases verdict_cases source firstId with
    ⟨_, _, hverdict⟩ | ⟨tokens, htokens, hparts⟩
  · rw [hverdict] at h
    cases h
  · have hread := Grammar.program_alike_lines htokens firstId
    rcases hparts with ⟨_, _, hverdict⟩ | ⟨program, hprogram, hverdict⟩
    · rw [hverdict] at h
      cases h
    · rw [hprogram] at hread
      rw [hverdict] at h
      unfold check at h
      split at h
      · cases h
        cases hread with
        | ok halike => exact halike
      · cases h

end

/-! ## Lines that a session keeps -/

namespace Session

section
variable {session : Session} {source : String} {fuel : Nat}
variable {seen : List String}

/-- The functions that the machine keeps have no lines but those of the tokens
of some texts. -/
def Remembers (session : Session) (seen : List String) : Prop :=
  session.machine.Alike (.lines (Token.OnLineOf seen)) session.machine

theorem remembers_start (sink : Sink) (clock : Nat → Float) :
    (start sink clock).Remembers [] :=
  ⟨⟨rfl, fun _ => .none, fun _ => .none, rfl⟩, rfl, rfl,
    Distances.alike_lines _, rfl, rfl, rfl, rfl⟩

/-- The run of an accepted input, on a machine that remembers the lines of
earlier ones. -/
theorem Remembers.alike_run
    {checked : Checked} (h : session.Remembers seen) (fuel : Nat)
    (hverdict : (Analysis.ofSource source session.nextId).verdict =
      .ok checked) :
    (session.machine.run fuel checked).1.Alike
        (.lines (Token.OnLineOf (seen ++ [source])))
        (session.machine.run fuel checked).1 ∧
      (session.run fuel source).2.Remembers (seen ++ [source]) := by
  have hold : ∀ line, Token.OnLineOf seen line →
      Token.OnLineOf (seen ++ [source]) line := by
    rintro line ⟨input, hinput, hline⟩
    exact ⟨input, List.mem_append_left _ hinput, hline⟩
  have hnew : ∀ line, Token.OnLine source line →
      Token.OnLineOf (seen ++ [source]) line :=
    fun line hline => ⟨source, by simp, hline⟩
  have hready : (session.machine.extend checked.distances).Alike
      (.lines (Token.OnLineOf (seen ++ [source])))
      (session.machine.extend checked.distances) :=
    ⟨h.store.mono (Likeness.lines_below hold), rfl, rfl,
      Distances.alike_lines _, rfl, rfl, rfl, rfl⟩
  have hprogram := (Analysis.lines_of_ok hverdict).imp
    (Likeness.lines_below hnew).line fun _ _ _ hplace => hplace
  have hrun := Machine.run_alike fuel hready hprogram
  refine ⟨hrun.1, ?_⟩
  rw [run_of_ok fuel hverdict]
  exact hrun.2

/-- Each input adds the lines of its own tokens, if it is run at all. -/
theorem Remembers.run
    (h : session.Remembers seen) (fuel : Nat) (source : String) :
    (session.run fuel source).2.Remembers (seen ++ [source]) := by
  cases hverdict : (Analysis.ofSource source session.nextId).verdict with
  | ok checked => exact (h.alike_run fuel hverdict).2
  | error errors =>
      rw [run_of_error fuel hverdict]
      refine ⟨h.store.mono (Likeness.lines_below ?_), rfl, rfl,
        Distances.alike_lines _, rfl, rfl, rfl, rfl⟩
      rintro line ⟨input, hinput, hline⟩
      exact ⟨input, List.mem_append_left _ hinput, hline⟩

theorem Remembers.after
    (h : session.Remembers seen) (fuel : Nat) (inputs : List String) :
    (session.after fuel inputs).Remembers (seen ++ inputs) := by
  induction inputs generalizing session seen with
  | nil =>
      rw [List.append_nil]
      exact h
  | cons source inputs ih =>
      rw [after_cons]
      have hrest := ih (h.run fuel source)
      rw [List.append_assoc] at hrest
      exact hrest

end

/-- The errors of an input are those of its scan, of its reading or of its
scopes, and then it has not been run; or there is a single one, with which its
run has ended.  All of them have the same exit code.  An error of the scan
names a line of the input, and one of its reading or of its scopes the line of a
token of the input.  An error of the program names the line of a token of the
input or of an earlier one. -/
theorem errors_come_from_one_part_and_point_into_the_source
    (fuel : Nat) (sink : Sink) (clock : Nat → Float) (earlier : List String)
    (source : String) (errors : List Diagnostic)
    (hfailed : (((start sink clock).after fuel earlier).run fuel source).1 =
      .failed errors) :
    let session := (start sink clock).after fuel earlier
    errors ≠ [] ∧
    ((∃ es : List LexError, errors = es.map .lexical) ∨
      (∃ es : List ParseError, errors = es.map .grammatical) ∨
      (∃ es : List ScopeError, errors = es.map .scoping) ∨
      (∃ e, errors = [.runtime e]) ∨ ∃ e, errors = [.output e]) ∧
    (∀ d ∈ errors, ∀ d' ∈ errors, d.exitCode = d'.exitCode) ∧
    (errors.all Diagnostic.isStatic = true →
      (session.run fuel source).2.machine = session.machine) ∧
    (∀ e, .lexical e ∈ errors →
      1 ≤ e.line ∧ e.line ≤ Token.linesOf source) ∧
    (∀ e, .grammatical e ∈ errors → Token.OnLine source e.line) ∧
    (∀ e, .scoping e ∈ errors → Token.OnLine source e.line) ∧
    ∀ e, .runtime e ∈ errors →
      Token.OnLineOf (earlier ++ [source]) e.line := by
  have hremembers := (remembers_start sink clock).after fuel earlier
  rw [List.nil_append] at hremembers
  generalize (start sink clock).after fuel earlier = session
    at hfailed hremembers
  dsimp only
  cases hverdict : (Analysis.ofSource source session.nextId).verdict with
  | error found =>
      rw [run_of_error fuel hverdict] at hfailed ⊢
      cases hfailed
      obtain ⟨hne, hparts⟩ := Analysis.lines_of_error hverdict
      refine ⟨hne, ?_⟩
      rcases hparts with ⟨es, rfl, hlines⟩ | ⟨es, rfl, hlines⟩ |
        ⟨es, rfl, hlines⟩
      · refine ⟨.inl ⟨es, rfl⟩, ?_⟩
        simpa [Diagnostic.exitCode] using hlines
      · refine ⟨.inr (.inl ⟨es, rfl⟩), ?_⟩
        simpa [Diagnostic.exitCode] using hlines
      · refine ⟨.inr (.inr (.inl ⟨es, rfl⟩)), ?_⟩
        simpa [Diagnostic.exitCode] using hlines
  | ok checked =>
      have hrun := (hremembers.alike_run fuel hverdict).1
      rw [run_of_ok fuel hverdict] at hfailed ⊢
      obtain ⟨d, rfl, hstatic⟩ := session.machine.run_failed hfailed
      rw [hfailed] at hrun
      cases hrun with
      | failed halike =>
          cases (List.forall₂_cons.mp halike).1 with
          | lexical | grammatical | scoping => cases hstatic
          | runtime he =>
              have hline := he.line.2
              simp [Diagnostic.isStatic, hline]
          | output => simp [Diagnostic.isStatic]

/-- The error with which the run of an input has ended. -/
def fault? : Outcome → Option RuntimeError
  | .failed [.runtime e] => some e
  | _ => none

private theorem eq_failed_of_fault?
    {outcome : Outcome} {e : RuntimeError} (h : fault? outcome = some e) :
    outcome = .failed [.runtime e] := by
  unfold fault? at h
  split at h
  · cases h
    rfl
  · cases h

def brokenLater : String :=
  "fun f() \x7b\n  return nope;\n\x7d"

/-- A function of an earlier input fails on a line that the input which calls
it does not have. -/
theorem brokenLater_points_into_the_source :
    (((start .unlimited fun _ => 0).after 20 [brokenLater]).run 20 "f();").1 =
        .failed [.runtime ⟨.undefinedVariable "nope", 2⟩] ∧
      Token.linesOf "f();" = 1 ∧
      Token.OnLineOf [brokenLater, "f();"] 2 := by
  have hfailed :
      (((start .unlimited fun _ => 0).after 20 [brokenLater]).run 20
        "f();").1 = .failed [.runtime ⟨.undefinedVariable "nope", 2⟩] :=
    eq_failed_of_fault? (by decide +kernel)
  obtain ⟨-, -, -, -, -, -, -, hlines⟩ :=
    errors_come_from_one_part_and_point_into_the_source 20 .unlimited
      (fun _ => 0) [brokenLater] "f();" _ hfailed
  exact ⟨hfailed, by decide,
    hlines ⟨.undefinedVariable "nope", 2⟩ (List.mem_singleton_self _)⟩

end Session
end LoxLang
