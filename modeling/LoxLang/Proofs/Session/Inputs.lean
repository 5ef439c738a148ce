import LoxLang.Proofs.Run.Fuel
import LoxLang.Proofs.Session.Safety

/-!
# What one input leaves to the next

Every task comes back to the frame in which it started, whether it ends with a
value, with a `return`, with an error of the program or with one of the sink.
So between two inputs the machine stands in the globals, and what an input
declares at its top level goes there.

The places of an input are numbered from where the input before has stopped,
be it that that one was run, that it was rejected or that it could not even be
read.  So no number is given twice, and the distances that the machine has
learned stay what they are when those of another input are added.
-/

namespace LoxLang

theorem Machine.run_later
    (fuel : Nat) (machine : Machine) (checked : Checked) :
    (machine.extend checked.distances).Later
      (checked.program.flatMap Stmt.declares)
      (machine.run fuel checked).2 := by
  have hlater := Step.run_keeps fuel (.execAll checked.program)
    (machine.extend checked.distances)
  have hends := machine.run_ends fuel checked
  cases hexec : Step.execAll fuel checked.program
      (machine.extend checked.distances) with
  | ok completion m₁ =>
      rw [(hends.of_ok hexec).1]
      exact hlater.of_ok hexec
  | error halt m₁ =>
      rw [(hends.of_error hexec).1]
      exact hlater.of_error hexec

/-- The machine after a run comes after the statements of every front part of
the program. -/
theorem Machine.run_later_of_front
    {fuel : Nat} {machine m₁ : Machine} {checked : Checked}
    {front rest : List Stmt} (hprogram : checked.program = front ++ rest)
    (hfront : Step.execAll fuel front (machine.extend checked.distances) =
      .ok .normal m₁) :
    m₁.Later (rest.flatMap Stmt.declares) (machine.run fuel checked).2 := by
  have hrest :
      Step.execAll fuel checked.program (machine.extend checked.distances) =
        Step.execAll (fuel - front.length) rest m₁ := by
    rw [hprogram, Step.execAll_append_of_normal hfront]
  have hlater := Step.run_keeps (fuel - front.length) (.execAll rest) m₁
  have hends := machine.run_ends fuel checked
  cases hexec : Step.execAll (fuel - front.length) rest m₁ with
  | ok completion m₂ =>
      rw [(hends.of_ok (hrest.trans hexec)).1]
      exact hlater.of_ok hexec
  | error halt m₂ =>
      rw [(hends.of_error (hrest.trans hexec)).1]
      exact hlater.of_error hexec

namespace Session

/-- The session after some inputs. -/
def after (fuel : Nat) (session : Session) (inputs : List String) : Session :=
  inputs.foldl (fun session source => (session.run fuel source).2) session

theorem after_cons
    (fuel : Nat) (session : Session) (source : String)
    (inputs : List String) :
    session.after fuel (source :: inputs) =
      (session.run fuel source).2.after fuel inputs :=
  rfl

theorem after_append
    (fuel : Nat) (session : Session) (inputs more : List String) :
    session.after fuel (inputs ++ more) =
      (session.after fuel inputs).after fuel more := by
  simp [after, List.foldl_append]

theorem Reached.after
    {programs : List Program} {session : Session}
    (h : Reached programs session) (fuel : Nat) (inputs : List String) :
    ∃ programs, Reached programs (session.after fuel inputs) := by
  induction inputs generalizing programs session with
  | nil => exact ⟨programs, h⟩
  | cons source inputs ih =>
      rw [after_cons]
      cases hverdict : (Analysis.ofSource source session.nextId).verdict with
      | ok checked => exact ih (h.accepted fuel hverdict)
      | error errors => exact ih (h.rejected fuel hverdict)

end Session

/-! ## Back to the globals -/

/-- The input was rejected, or its run is over and has not broken the
machine. -/
def Outcome.isRegular : Outcome → Bool
  | .finished | .failed _ => true
  | .broken _ | .outOfFuel => false

open Scope (Stack Chart)

theorem Stmt.BoundAll.front
    {chart : Chart} {inFunction : Bool} {stack : Stack}
    {stmts front rest : List Stmt}
    (h : Stmt.BoundAll chart inFunction stack stmts)
    (hstmts : stmts = front ++ rest) :
    Stmt.BoundAll chart inFunction stack front := by
  subst hstmts
  induction front generalizing stack with
  | nil => trivial
  | cons stmt front ih => exact ⟨h.1, ih h.2⟩

/-- Statements that have come to their end have declared their names in the
frame in which they were carried out. -/
theorem Stmt.BoundAll.declared
    {chart : Chart} {inFunction : Bool} {stack : Stack} {fuel : Nat}
    {stmts : List Stmt} {m m₁ : Machine}
    (hbound : Stmt.BoundAll chart inFunction stack stmts)
    (hm : m.Sound chart) (hsituated : m.Situated stack)
    (hrun : Step.execAll fuel stmts m = .ok .normal m₁) :
    ∀ name ∈ stmts.flatMap Stmt.declares,
      (m₁.store.local? m.current name).isSome := by
  induction stmts generalizing fuel stack m with
  | nil => simp
  | cons stmt stmts ih =>
      cases fuel with
      | zero => cases hrun
      | succ fuel =>
          obtain ⟨completion, m₂, hfirst, hrest⟩ := bind_ok hrun
          cases completion with
          | returned value => cases hrest
          | normal =>
              have hafter :=
                (safe chart fuel).after_exec hm hsituated hbound.1 hfirst
              have hends := safe chart fuel (.exec stmt) m hm
                ⟨inFunction, stack, hsituated, hbound.1⟩
              have hfirstLater :=
                (Step.run_keeps fuel (.exec stmt) m).of_ok hfirst
              have hrestLater :=
                (Step.run_keeps fuel (.execAll stmts) m₂).of_ok hrest
              intro name hname
              rw [List.flatMap_cons, List.mem_append] at hname
              rw [← hfirstLater.current]
              rcases hname with hname | hname
              · apply hrestLater.grows.local?_isSome
                exact (hends.of_ok hfirst).2 rfl name hname
              · exact ih hbound.2 hafter.1 hafter.2 hrest name hname

namespace Session

/-- Every exit of an expression and of a statement leads back to the frame of
its start, for all trees, distances and machines: from the frames of blocks and
calls, and from the frame of `super`, which is current while the methods of a
class are made.  So each input of a session starts in the globals, and of all
frames that there are then, the globals are the only one to gain names: those
of the declarations at its top level, each as soon as it has been carried
out. -/
theorem current_frame_is_restored :
    (∀ (fuel : Nat) (expr : Expr) (m : Machine),
      (Step.eval fuel expr).Ends m (fun _ m₁ => m₁.current = m.current)
        fun _ m₁ => m₁.current = m.current) ∧
    (∀ (fuel : Nat) (stmt : Stmt) (m : Machine),
      (Step.exec fuel stmt).Ends m (fun _ m₁ => m₁.current = m.current)
        fun _ m₁ => m₁.current = m.current) ∧
    ∀ (fuel : Nat) (sink : Sink) (clock : Nat → Float) (inputs : List String),
      let session := (start sink clock).after fuel inputs
      session.machine.current = session.machine.globals ∧
      ∀ (source : String) (checked : Checked),
        (Analysis.ofSource source session.nextId).verdict = .ok checked →
        let store := (session.run fuel source).2.machine.store
        (∀ front rest m₁, checked.program = front ++ rest →
          Step.execAll fuel front
              (session.machine.extend checked.distances) =
            .ok .normal m₁ →
          ∀ name ∈ front.flatMap Stmt.declares,
            (store.local? session.machine.globals name).isSome) ∧
        ∀ frame name, frame < session.machine.store.frames.size →
          (store.local? frame name).isSome →
          (session.machine.store.local? frame name).isSome ∨
            frame = session.machine.globals ∧
              name ∈ checked.program.flatMap Stmt.declares := by
  refine ⟨?_, ?_, ?_⟩
  · intro fuel expr m
    exact (Step.run_keeps fuel (.eval expr) m).mono
      (fun _ _ _ hlater => hlater.current) fun _ _ hlater => hlater.current
  · intro fuel stmt m
    exact (Step.run_keeps fuel (.exec stmt) m).mono
      (fun _ _ _ hlater => hlater.current) fun _ _ hlater => hlater.current
  · intro fuel sink clock inputs session
    obtain ⟨programs, hreached⟩ :=
      (Reached.start sink clock).after fuel inputs
    have hsound : session.Sound programs := hreached.sound
    refine ⟨hsound.top, ?_⟩
    intro source checked hverdict store
    have hstore : store = (session.machine.run fuel checked).2.store := by
      simp only [store, run_of_ok fuel hverdict]
    rw [hstore]
    constructor
    · intro front rest m₁ hprogram hfront name hname
      obtain ⟨hready, hbound⟩ := hsound.ready hverdict
      have hdeclared := (hbound.front hprogram).declared hready.machine
        ⟨hready.top, fun hstack => nomatch hstack⟩ hfront name hname
      have hlater := Machine.run_later_of_front hprogram hfront
      apply hlater.grows.local?_isSome
      have htop : (session.machine.extend checked.distances).current =
          session.machine.globals :=
        hready.top
      rw [← htop]
      exact hdeclared
    · intro frame name hframe hname
      have hlater := session.machine.run_later fuel checked
      rcases hlater.gains hframe hname with hold | ⟨hcurrent, hdeclares⟩
      · exact .inl hold
      · exact .inr ⟨hcurrent.trans hsound.top, hdeclares⟩

/-- An input that fails inside of a block, inside of a method of a class that
has a superclass. -/
def deepFailure : String :=
  "class A \x7b\x7d class B < A \x7b f() \x7b " ++
    "\x7b var a; print b; \x7d \x7d \x7d B().f();"

private theorem declaration_after_deepFailure_runs :
    let session :=
      (start .unlimited fun _ => 0).after 20 [deepFailure]
    (match (Analysis.ofSource "var g;" session.nextId).verdict with
      | .error _ => false
      | .ok checked =>
          checked.program.flatMap Stmt.declares = ["g"] &&
            match Step.execAll 20 checked.program
                (session.machine.extend checked.distances) with
            | .ok .normal _ => true
            | _ => false) = true := by
  decide +kernel

theorem declaration_after_deepFailure_is_global :
    let first := start .unlimited fun _ => 0
    let session := first.after 20 [deepFailure]
    session.machine.current = session.machine.globals ∧
      ∃ checked m₁,
        (Analysis.ofSource "var g;" session.nextId).verdict = .ok checked ∧
        Step.execAll 20 checked.program
            (session.machine.extend checked.distances) = .ok .normal m₁ ∧
        "g" ∈ checked.program.flatMap Stmt.declares ∧
        ((session.run 20 "var g;").2.machine.store.local?
          session.machine.globals "g").isSome := by
  intro first session
  obtain ⟨-, -, hsession⟩ := current_frame_is_restored
  obtain ⟨htop, hinput⟩ := hsession 20 .unlimited (fun _ => 0) [deepFailure]
  have hrun := declaration_after_deepFailure_runs
  dsimp only at hrun
  split at hrun
  · cases hrun
  · rename_i checked hverdict
    rw [Bool.and_eq_true, decide_eq_true_eq] at hrun
    obtain ⟨hnames, hexec⟩ := hrun
    split at hexec
    · rename_i m₁ hfront
      have hname : "g" ∈ checked.program.flatMap Stmt.declares := by
        rw [hnames]
        exact List.mem_singleton.mpr rfl
      refine ⟨htop, checked, m₁, hverdict, hfront, hname, ?_⟩
      exact (hinput _ checked hverdict).1 checked.program [] m₁
        (List.append_nil _).symm hfront "g" hname
    · cases hexec

/-! ## The numbers of places -/

/-- A program that was read from an input, with the numbers at which its
reading started and stopped. -/
structure Entry where
  firstId : PlaceId
  program : Program
  nextId : PlaceId

def Entry.places (entry : Entry) : List PlaceId :=
  Stmt.placesAll entry.program

/-- The program that is read from an input, whether its scopes are in order or
not. -/
def entry? (session : Session) (source : String) : Option Entry :=
  match Token.ofSource source with
  | .error _ => none
  | .ok tokens =>
      let reading := Grammar.read tokens session.nextId
      match reading.program with
      | .error _ => none
      | .ok program => some ⟨session.nextId, program, reading.nextId⟩

/-- All programs that are read in the course of some inputs. -/
def journal (fuel : Nat) : Session → List String → List Entry
  | _, [] => []
  | session, source :: inputs =>
      (session.entry? source).toList ++
        (session.run fuel source).2.journal fuel inputs

section
variable {session : Session} {source : String}

private theorem run_nextId (fuel : Nat) (session : Session) (source : String) :
    (session.run fuel source).2.nextId =
      (Analysis.ofSource source session.nextId).nextId := by
  cases hverdict : (Analysis.ofSource source session.nextId).verdict with
  | ok checked => rw [run_of_ok fuel hverdict]
  | error errors => rw [run_of_error fuel hverdict]

theorem le_run_nextId (fuel : Nat) (session : Session) (source : String) :
    session.nextId ≤ (session.run fuel source).2.nextId := by
  rw [run_nextId]
  exact Analysis.firstId_le_nextId source session.nextId

open Grammar (Numbered)

private theorem entry?_numbered
    {entry : Entry} (fuel : Nat) (h : session.entry? source = some entry) :
    entry.firstId = session.nextId ∧
      entry.nextId = (session.run fuel source).2.nextId ∧
      Numbered entry.firstId entry.places entry.nextId := by
  rw [run_nextId]
  unfold entry? at h
  cases htokens : Token.ofSource source with
  | error errors => simp [htokens] at h
  | ok tokens =>
      obtain ⟨ts, stop, rfl, hstop, hfree, -⟩ := Token.ofSource_eq_ok htokens
      cases hprogram :
          (Grammar.read (ts ++ [stop]) session.nextId).program with
      | error errors => simp [htokens, hprogram] at h
      | ok program =>
          simp only [htokens, hprogram, Option.some.injEq] at h
          subst h
          have hderives := Grammar.read_sound hfree hstop hprogram
          exact ⟨rfl, by simp only [Analysis.ofSource, htokens, hprogram],
            hderives.numbered⟩

/-- The numbers of all places lie between those at which the session stands
before and after the inputs. -/
theorem journal_numbered
    (fuel : Nat) (session : Session) (inputs : List String) :
    Numbered session.nextId
      ((session.journal fuel inputs).flatMap Entry.places)
      (session.after fuel inputs).nextId := by
  induction inputs generalizing session with
  | nil => exact .nil
  | cons source inputs ih =>
      have hrest := ih (session.run fuel source).2
      rw [after_cons]
      unfold journal
      cases hentry : session.entry? source with
      | none =>
          have hskipped : Numbered session.nextId []
              (session.run fuel source).2.nextId :=
            ⟨le_run_nextId fuel session source, .nil, by simp⟩
          exact hskipped.append hrest
      | some entry =>
          obtain ⟨hfirst, hnext, hplaces⟩ := entry?_numbered fuel hentry
          rw [hfirst, hnext] at hplaces
          simpa using hplaces.append hrest

theorem journal_bounds
    {entry : Entry} {fuel : Nat} {inputs : List String}
    (hentry : entry ∈ session.journal fuel inputs) :
    ∀ id ∈ entry.places, entry.firstId ≤ id ∧ id < entry.nextId := by
  induction inputs generalizing session with
  | nil => cases hentry
  | cons source inputs ih =>
      unfold journal at hentry
      rw [List.mem_append, Option.mem_toList] at hentry
      rcases hentry with hread | hlater
      · exact (entry?_numbered fuel hread).2.2.bounds
      · exact ih hlater

/-- The distances of an accepted input concern its own places only. -/
theorem find?_merge_of_lt
    {checked : Checked} {id : PlaceId}
    (hverdict : (Analysis.ofSource source session.nextId).verdict =
      .ok checked)
    (hid : id < session.nextId) :
    (session.machine.distances.merge checked.distances).find? id =
      session.machine.distances.find? id := by
  rw [Distances.find?_merge, Analysis.find?_eq_none hverdict (.inl hid)]
  rfl

private theorem run_find?_of_lt
    {id : PlaceId} (fuel : Nat) (source : String)
    (hid : id < session.nextId) :
    (session.run fuel source).2.machine.distances.find? id =
      session.machine.distances.find? id := by
  cases hverdict : (Analysis.ofSource source session.nextId).verdict with
  | error errors => rw [run_of_error fuel hverdict]
  | ok checked =>
      rw [run_of_ok fuel hverdict,
        (session.machine.run_later fuel checked).distances]
      exact find?_merge_of_lt hverdict hid

private theorem after_find?_of_lt
    {id : PlaceId} (fuel : Nat) (inputs : List String)
    (hid : id < session.nextId) :
    (session.after fuel inputs).machine.distances.find? id =
      session.machine.distances.find? id := by
  induction inputs generalizing session with
  | nil => rfl
  | cons source inputs ih =>
      have hnext : id < (session.run fuel source).2.nextId :=
        Nat.lt_of_lt_of_le hid (le_run_nextId fuel session source)
      rw [after_cons, ih hnext, run_find?_of_lt fuel source hid]

end

/-- Of all the programs that are read in a session, no two places have the
same number, and those of each program lie between the numbers at which its
reading started and stopped.  So neither the distances of another input nor
the inputs that follow change what the machine knows of an earlier place. -/
theorem places_never_collide
    (fuel : Nat) (sink : Sink) (clock : Nat → Float) (inputs : List String) :
    let session := (start sink clock).after fuel inputs
    let journal := (start sink clock).journal fuel inputs
    (journal.flatMap Entry.places).Nodup ∧
      ∀ entry ∈ journal, ∀ id ∈ entry.places,
        (entry.firstId ≤ id ∧ id < entry.nextId) ∧
        (∀ source checked,
          (Analysis.ofSource source session.nextId).verdict = .ok checked →
          (session.machine.distances.merge checked.distances).find? id =
            session.machine.distances.find? id) ∧
        ∀ more,
          ((start sink clock).after fuel
              (inputs ++ more)).machine.distances.find? id =
            session.machine.distances.find? id := by
  intro session journal
  have hnumbered := journal_numbered fuel (start sink clock) inputs
  refine ⟨hnumbered.nodup, ?_⟩
  intro entry hentry id hid
  have hlt : id < session.nextId :=
    (hnumbered.bounds id (List.mem_flatMap.mpr ⟨entry, hentry, hid⟩)).2
  refine ⟨journal_bounds hentry id hid, ?_, ?_⟩
  · intro source checked hverdict
    exact find?_merge_of_lt hverdict hlt
  · intro more
    rw [after_append]
    exact after_find?_of_lt fuel more hlt

/-- Inputs that cannot be cut into tokens, cannot be read, are out of scope,
fail, and run. -/
def mixedInputs : List String :=
  ["print a; @", "print a b;", "return a;", "print a;",
    "\x7b var c; c = c; \x7d"]

/-- The second input takes up a number though it cannot be read, and the last
one a number for the target of its assignment. -/
theorem mixedInputs_are_numbered_apart :
    let journal := (start .unlimited fun _ => 0).journal 20 mixedInputs
    journal.map (fun entry => (entry.firstId, entry.places, entry.nextId)) =
        [(1, [1], 2), (2, [2], 3), (3, [4, 5], 6)] ∧
      (journal.flatMap Entry.places).Nodup :=
  ⟨by decide +kernel,
    (places_never_collide 20 .unlimited (fun _ => 0) mixedInputs).1⟩

end Session
end LoxLang
