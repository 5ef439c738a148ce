import LoxLang.Proofs.Likeness.Session
import LoxLang.Proofs.Session.Safety

/-!
# Layout

Where the lines of a text break is visible in the lines of its errors and
nowhere else.  Two texts with the same tokens, each on whatever line, are read
into the same statements with the same distances, print the same and end in
the same way.
-/

namespace LoxLang

/-- Every line stands for every other one, and each place for itself. -/
def Likeness.layout : Likeness :=
  ⟨fun _ _ => True, Eq⟩

theorem Likeness.layout_counts : Likeness.layout.Counts :=
  fun _ _ hplace => congrArg (· + 1) hplace

theorem Likeness.layout_oneToOne : Likeness.layout.OneToOne := by
  rintro id _ other _ rfl rfl
  exact Iff.rfl

/-! ## Reports without lines -/

/-- The diagnostic as it would be on line 0. -/
def Diagnostic.unlined : Diagnostic → Diagnostic
  | .lexical e => .lexical { e with line := 0 }
  | .grammatical e => .grammatical { e with line := 0 }
  | .scoping e => .scoping { e with line := 0 }
  | .runtime e => .runtime { e with line := 0 }
  | .output e => .output e
  | .encoding fault => .encoding fault

/-- The outcome without the lines of its errors. -/
def Outcome.unlined : Outcome → Outcome
  | .failed errors => .failed (errors.map Diagnostic.unlined)
  | .finished => .finished
  | .broken d => .broken d
  | .outOfFuel => .outOfFuel

section
variable {like : Likeness}

theorem Diagnostic.Alike.unlined_eq
    {d d' : Diagnostic} (h : d.Alike like d') : d.unlined = d'.unlined := by
  cases h with
  | lexical => rfl
  | grammatical he => simp only [Diagnostic.unlined, he.cause]
  | scoping he => simp only [Diagnostic.unlined, he.cause]
  | runtime he => simp only [Diagnostic.unlined, he.cause]
  | output => rfl

theorem Diagnostic.Alike.map_unlined_eq
    {errors errors' : List Diagnostic}
    (h : List.Forall₂ (Diagnostic.Alike like) errors errors') :
    errors.map Diagnostic.unlined = errors'.map Diagnostic.unlined := by
  induction h with
  | nil => rfl
  | cons hfirst _ ih => rw [List.map_cons, List.map_cons, hfirst.unlined_eq, ih]

/-- Of all defects only one tells of a line. -/
theorem Outcome.Alike.unlined_eq
    {o o' : Outcome} (h : o.Alike like o')
    (hslots : ∀ line, o ≠ .broken (.superSlots line)) :
    o.unlined = o'.unlined := by
  cases h with
  | finished => rfl
  | failed herrors =>
      simp only [Outcome.unlined, Diagnostic.Alike.map_unlined_eq herrors]
  | broken hd =>
      cases hd with
      | same => rfl
      | superSlots _ => exact absurd rfl (hslots _)
  | outOfFuel => rfl

end

/-! ## Equal distances -/

theorem Distances.toList_eq_of_find?
    {distances other : Distances}
    (h : ∀ id, distances.find? id = other.find? id) :
    distances.toList = other.toList :=
  (Std.TreeMap.Equiv.of_forall_constGet?_eq h).toList_eq

theorem Distances.Alike.toList_eq
    {distances other : Distances} (h : distances.Alike .layout other) :
    distances.toList = other.toList :=
  toList_eq_of_find? fun _ => h rfl

/-! ## Texts with the same tokens -/

namespace Session

private theorem start_alike_layout
    {distances other : Distances} (sink : Sink) (clock : Nat → Float)
    (h : distances.Alike .layout other) :
    ((start sink clock).machine.extend distances).Alike .layout
      ((start sink clock).machine.extend other) := by
  refine ⟨⟨rfl, fun _ => .none, fun _ => .none, rfl⟩, rfl, rfl, ?_, rfl, rfl,
    rfl, rfl⟩
  rintro id _ rfl
  change (Distances.merge _ _).find? id = (Distances.merge _ _).find? id
  rw [Distances.find?_merge, Distances.find?_merge, h rfl]

/-- An input that is accepted by a new session does not break it at `super`. -/
theorem run_start_ne_superSlots
    {source : String} {checked : Checked}
    (hverdict : (Analysis.ofSource source 0).verdict = .ok checked)
    (fuel : Nat) (sink : Sink) (clock : Nat → Float) (line : Nat) :
    ((start sink clock).run fuel source).1 ≠ .broken (.superSlots line) := by
  intro hbroken
  obtain ⟨_, _, _, _, _, _, _, _, hmissing⟩ :=
    ((sound_start sink clock).run fuel hverdict).2 _ hbroken
  cases hmissing

/-- Runs of two texts whose analyses differ in lines only. -/
theorem run_alike_layout
    {source other : String}
    (h : (Analysis.ofSource source 0).Alike .layout
      (Analysis.ofSource other 0))
    (fuel : Nat) (sink : Sink) (clock : Nat → Float) :
    ((start sink clock).run fuel source).1.unlined =
        ((start sink clock).run fuel other).1.unlined ∧
      ((start sink clock).run fuel source).2.machine.sink =
        ((start sink clock).run fuel other).2.machine.sink := by
  have hverdicts := h.verdict
  cases hverdict : (Analysis.ofSource source 0).verdict with
  | error errors =>
      rw [hverdict] at hverdicts
      obtain ⟨errors', hverdict', herrors⟩ := hverdicts.of_error
      rw [@run_of_error (start sink clock) _ _ fuel hverdict,
        @run_of_error (start sink clock) _ _ fuel hverdict']
      simp only [Outcome.unlined, Diagnostic.Alike.map_unlined_eq herrors,
        and_self]
  | ok checked =>
      rw [hverdict] at hverdicts
      obtain ⟨checked', hverdict', hchecked⟩ := hverdicts.of_ok
      have hslots := run_start_ne_superSlots hverdict fuel sink clock
      have hready := start_alike_layout sink clock hchecked.distances
      obtain ⟨houtcome, hafter⟩ :=
        Machine.run_alike fuel hready hchecked.program
      rw [@run_of_ok (start sink clock) _ _ fuel hverdict] at hslots ⊢
      rw [@run_of_ok (start sink clock) _ _ fuel hverdict']
      exact ⟨houtcome.unlined_eq hslots, hafter.sink⟩

/-- Two texts without lexical errors, whose tokens are the same but for their
lines, are read into statements that are the same but for their lines, with the
same distances, or they are rejected for the same reasons.  Run by new
sessions, they write the same and end in the same way, but for the lines in
which errors are reported. -/
theorem layout_decides_nothing_but_lines
    {source other : String} {tokens tokens' : List Token}
    (hsource : Token.ofSource source = .ok tokens)
    (hother : Token.ofSource other = .ok tokens')
    (htokens : List.Forall₂
      (fun token token' => token.kind = token'.kind ∧
        token.lexeme = token'.lexeme) tokens tokens') :
    ExceptRelated (List.Forall₂ (ParseError.Alike .layout))
        (fun program program' => Stmt.AllAlike .layout program program' ∧
          ExceptRelated (List.Forall₂ (ScopeError.Alike .layout))
            (fun distances distances' =>
              distances.toList = distances'.toList)
            (Scope.resolve program) (Scope.resolve program'))
        (Grammar.read tokens 0).program (Grammar.read tokens' 0).program ∧
      ∀ (fuel : Nat) (sink : Sink) (clock : Nat → Float),
        let run := (start sink clock).run fuel source
        let run' := (start sink clock).run fuel other
        run.1.unlined = run'.1.unlined ∧
          run.2.machine.sink.written = run'.2.machine.sink.written := by
  have halike : List.Forall₂ (Token.Alike .layout) tokens tokens' :=
    htokens.imp fun _ _ h => ⟨h.1, h.2, trivial⟩
  refine ⟨?_, ?_⟩
  · have hprogram := (Grammar.read_alike Likeness.layout_counts halike
      (@rfl _ 0) trivial).program
    generalize (Grammar.read tokens 0).program = program at hprogram ⊢
    generalize (Grammar.read tokens' 0).program = program' at hprogram ⊢
    cases hprogram with
    | error herrors => exact .error herrors
    | ok hprogram =>
        have hresolve := Scope.resolve_alike Likeness.layout_oneToOne hprogram
        refine .ok ⟨hprogram, ?_⟩
        generalize Scope.resolve _ = result at hresolve ⊢
        generalize Scope.resolve _ = result' at hresolve ⊢
        cases hresolve with
        | ok hdistances => exact .ok hdistances.toList_eq
        | error herrors => exact .error herrors
  · intro fuel sink clock
    have hscans : ExceptRelated Eq (List.Forall₂ (Token.Alike .layout))
        (Token.ofSource source) (Token.ofSource other) := by
      rw [hsource, hother]
      exact .ok halike
    have hanalysis := @Analysis.ofSource_alike _ _ _ 0 0
      Likeness.layout_counts Likeness.layout_oneToOne trivial hscans rfl
    obtain ⟨houtcome, hsink⟩ := run_alike_layout hanalysis fuel sink clock
    exact ⟨houtcome, congrArg Sink.written hsink⟩

def compact : String :=
  "print \"a\"; print b;"

def spread : String :=
  "print // text\n\"a\"\n;\n\nprint b;"

theorem spread_runs_like_compact :
    ∃ tokens tokens',
      Token.ofSource compact = .ok tokens ∧
      Token.ofSource spread = .ok tokens' ∧
      tokens.map Token.line = [1, 1, 1, 1, 1, 1, 1] ∧
      tokens'.map Token.line = [1, 2, 3, 5, 5, 5, 5] ∧
      (let run := (start .unlimited fun _ => 0).run 10 compact
      let run' := (start .unlimited fun _ => 0).run 10 spread
      run.1.unlined = run'.1.unlined ∧
        run.2.machine.sink.written = run'.2.machine.sink.written) := by
  have hcompact : Token.ofSource compact =
      .ok [⟨.printWord, "print", 1⟩, ⟨.string "a", "\"a\"", 1⟩,
        ⟨.semicolon, ";", 1⟩, ⟨.printWord, "print", 1⟩, ⟨.identifier, "b", 1⟩,
        ⟨.semicolon, ";", 1⟩, ⟨.eof, "", 1⟩] := by
    decide +kernel
  have hspread : Token.ofSource spread =
      .ok [⟨.printWord, "print", 1⟩, ⟨.string "a", "\"a\"", 2⟩,
        ⟨.semicolon, ";", 3⟩, ⟨.printWord, "print", 5⟩, ⟨.identifier, "b", 5⟩,
        ⟨.semicolon, ";", 5⟩, ⟨.eof, "", 5⟩] := by
    decide +kernel
  refine ⟨_, _, hcompact, hspread, rfl, rfl, ?_⟩
  exact (layout_decides_nothing_but_lines hcompact hspread (by simp)).2 10
    .unlimited fun _ => 0

end Session
end LoxLang
