import LoxLang.Proofs.Run.Output

/-!
# Runs on a sink that fills up

A run on a sink of a given size does what the same run does on a sink without a
bound, task by task, up to the first write that does not fit.  There it stops,
and but for the sink the machine is left as that write has found it.
-/

namespace LoxLang

namespace Sink

/-- The sink with another bound. -/
def bounded (sink : Sink) (limit : Option Nat) : Sink :=
  { sink with limit := limit }

/-- What the sink holds is within the bound. -/
def Fits (sink : Sink) : Option Nat → Prop
  | none => True
  | some limit => sink.written.size ≤ limit

section
variable {sink : Sink} {limit : Option Nat} {bytes : ByteArray}

theorem Fits.of_append (h : (sink.append bytes).Fits limit) :
    sink.Fits limit := by
  cases limit with
  | none => trivial
  | some limit =>
      simp only [Fits, append, ByteArray.size_append] at h ⊢
      omega

theorem takes_bounded_iff (h : sink.Fits limit) :
    (sink.bounded limit).Takes bytes ↔ (sink.append bytes).Fits limit := by
  cases limit with
  | none => simp [Takes, room, bounded, Fits]
  | some limit =>
      simp only [Fits, Takes, room, bounded, append,
        ByteArray.size_append] at h ⊢
      omega

end
end Sink

namespace Machine

/-- The machine with another bound on its sink. -/
def bounded (m : Machine) (limit : Option Nat) : Machine :=
  m.onto (m.sink.bounded limit)

/-- From one machine to the other something was written, for which there was
room. -/
def Writes (m m' : Machine) : Prop :=
  ∃ bytes, m.sink.Takes bytes ∧ m'.sink = m.sink.append bytes

namespace Writes

variable {m m₁ m₂ : Machine} {limit : Option Nat}

protected theorem refl : m.Writes m :=
  ⟨.empty, Sink.takes_empty _, (Sink.append_empty _).symm⟩

protected theorem trans (h : m.Writes m₁) (h' : m₁.Writes m₂) :
    m.Writes m₂ := by
  obtain ⟨bytes, htakes, hsink⟩ := h
  obtain ⟨more, htakes', hsink'⟩ := h'
  rw [hsink] at htakes' hsink'
  refine ⟨bytes ++ more, Sink.takes_append_iff.mpr ⟨htakes, htakes'⟩, ?_⟩
  rw [hsink', Sink.append_append]

theorem fits (h : m.Writes m₁) (hfits : m₁.sink.Fits limit) :
    m.sink.Fits limit := by
  obtain ⟨bytes, -, hsink⟩ := h
  rw [hsink] at hfits
  exact hfits.of_append

/-- A sink that is within its own bound stays so. -/
theorem fits_own (h : m.Writes m₁) (hfits : m.sink.Fits m.sink.limit) :
    m₁.sink.limit = m.sink.limit ∧ m₁.sink.Fits m.sink.limit := by
  obtain ⟨bytes, htakes, hsink⟩ := h
  rw [hsink]
  exact ⟨rfl, (Sink.takes_bounded_iff hfits).mp htakes⟩

end Writes
end Machine

namespace Step

variable {α : Type} {step : Step α} {m m₁ : Machine} {a : α}

theorem Streams.of_ok (h : step.Streams) (hrun : step m = .ok a m₁) :
    ∃ bytes, m.sink.Takes bytes ∧ m₁.sink = m.sink.append bytes ∧
      step.Prints m bytes (.ok a m₁) := by
  obtain ⟨bytes, result, hprints⟩ := h m
  by_cases htakes : m.sink.Takes bytes
  · have hwhole := hprints.whole m.sink htakes
    cases result with
    | error halt m₂ => cases hrun.symm.trans hwhole
    | ok b m₂ =>
        cases hrun.symm.trans hwhole
        exact ⟨bytes, htakes, rfl, hprints.whole, hprints.cut⟩
  · obtain ⟨m₂, hcut, -⟩ := hprints.cut m.sink htakes
    cases hrun.symm.trans hcut

theorem Streams.writes (h : step.Streams) (hrun : step m = .ok a m₁) :
    m.Writes m₁ := by
  obtain ⟨bytes, htakes, hsink, -⟩ := h.of_ok hrun
  exact ⟨bytes, htakes, hsink⟩

/-- A step gives the same value under every bound that leaves room for what it
writes. -/
theorem Streams.bounded
    {limit : Option Nat} (h : step.Streams) (hrun : step m = .ok a m₁)
    (hfits : m₁.sink.Fits limit) :
    step (m.bounded limit) = .ok a (m₁.bounded limit) := by
  obtain ⟨bytes, -, hsink, hprints⟩ := h.of_ok hrun
  rw [hsink] at hfits
  have hwhole := hprints.whole (m.sink.bounded limit)
    ((Sink.takes_bounded_iff hfits.of_append).mpr hfits)
  rw [Machine.bounded, Machine.bounded, hsink]
  exact hwhole

end Step

/-! ## The tasks of a run -/

section
variable {fuel f : Nat} {task task' : Task} {m m' : Machine}
variable {limit : Option Nat}

theorem Enters.writes (h : Enters fuel task m task' m') : m.Writes m' := by
  have hrun (task : Task) {m m₁ : Machine} {a : task.Result}
      (h : task.run fuel m = .ok a m₁) : m.Writes m₁ :=
    (Step.run_streams fuel task).writes h
  cases h with
  | group | unary | binaryLeft | logicalLeft | assigned | callee | getObject
  | setObject | head | callFunction | body | expression | print | initializer
  | block | condition | loop | returned | first | roundCondition => exact .refl
  | binaryRight heval | arguments heval | setValue heval | tail heval =>
      exact hrun (.eval _) heval
  | logicalRight heval _ | thenBranch heval _ | elseBranch heval _
  | roundBody heval _ => exact hrun (.eval _) heval
  | call hcallee harguments _ =>
      exact (hrun (.eval _) hcallee).trans (hrun (.evalAll _) harguments)
  | construct _ hbind =>
      have hwrites : (m.withObject _).Writes m' :=
        (Step.quiet_bindMethod _ _).streams.writes hbind
      exact hwrites
  | superclass hdefine => exact (Step.quiet_define _ _).streams.writes hdefine
  | next hfirst => exact hrun (.exec _) hfirst
  | nextRound htest _ hround =>
      exact (hrun (.eval _) htest).trans (hrun (.exec _) hround)

/-- A task hands over to the same task under every bound that has not been
reached by then. -/
theorem Enters.bounded
    (h : Enters fuel task m task' m') (hfits : m'.sink.Fits limit) :
    Enters fuel task (m.bounded limit) task' (m'.bounded limit) := by
  have heval {expr : Expr} {value : Value} {m m₁ : Machine}
      (hrun : Step.eval fuel expr m = .ok value m₁)
      (hfits : m₁.sink.Fits limit) :
      Step.eval fuel expr (m.bounded limit) = .ok value (m₁.bounded limit) :=
    (Step.run_streams fuel (.eval expr)).bounded hrun hfits
  cases h with
  | group => exact .group
  | unary => exact .unary
  | binaryLeft => exact .binaryLeft
  | binaryRight hleft => exact .binaryRight (heval hleft hfits)
  | logicalLeft => exact .logicalLeft
  | logicalRight hleft hgoes => exact .logicalRight (heval hleft hfits) hgoes
  | assigned => exact .assigned
  | callee => exact .callee
  | arguments hcallee => exact .arguments (heval hcallee hfits)
  | call hcallee harguments harity =>
      have hwrites := (Step.run_streams fuel (.evalAll _)).writes harguments
      exact .call (heval hcallee (hwrites.fits hfits))
        ((Step.run_streams fuel (.evalAll _)).bounded harguments hfits) harity
  | getObject => exact .getObject
  | setObject => exact .setObject
  | setValue hobject => exact .setValue (heval hobject hfits)
  | head => exact .head
  | tail hhead => exact .tail (heval hhead hfits)
  | callFunction hfunction => exact .callFunction hfunction
  | construct hmethod hbind =>
      exact .construct hmethod
        ((Step.quiet_bindMethod _ _).streams.bounded hbind hfits)
  | body => exact .body
  | expression => exact .expression
  | print => exact .print
  | initializer => exact .initializer
  | block => exact .block
  | condition => exact .condition
  | thenBranch htest htruthy => exact .thenBranch (heval htest hfits) htruthy
  | elseBranch htest hfalsy => exact .elseBranch (heval htest hfits) hfalsy
  | loop => exact .loop
  | returned => exact .returned
  | superclass hdefine =>
      exact .superclass ((Step.quiet_define _ _).streams.bounded hdefine hfits)
  | first => exact .first
  | next hfirst =>
      exact .next ((Step.run_streams fuel (.exec _)).bounded hfirst hfits)
  | roundCondition => exact .roundCondition
  | roundBody htest htruthy => exact .roundBody (heval htest hfits) htruthy
  | nextRound htest htruthy hround =>
      have hwrites := (Step.run_streams fuel (.exec _)).writes hround
      exact .nextRound (heval htest (hwrites.fits hfits)) htruthy
        ((Step.run_streams fuel (.exec _)).bounded hround hfits)

theorem Reaches.enter
    {task₁ task₂ : Task} {m₁ m₂ : Machine}
    (h : Reaches fuel task m (f + 1) task₁ m₁)
    (henters : Enters f task₁ m₁ task₂ m₂) :
    Reaches fuel task m f task₂ m₂ := by
  generalize hfuel : f + 1 = f₁ at h
  induction h with
  | refl =>
      subst hfuel
      exact .step henters .refl
  | step hfirst _ ih => exact .step hfirst (ih henters hfuel)

theorem Reaches.writes (h : Reaches fuel task m f task' m') : m.Writes m' := by
  induction h with
  | refl => exact .refl
  | step henters _ ih => exact henters.writes.trans ih

theorem Reaches.bounded
    (h : Reaches fuel task m f task' m') (hfits : m'.sink.Fits limit) :
    Reaches fuel task (m.bounded limit) f task' (m'.bounded limit) := by
  induction h with
  | refl => exact .refl
  | step henters hreaches ih =>
      exact .step (henters.bounded (hreaches.writes.fits hfits)) (ih hfits)

/-- Under a bound, those tasks are carried out that are taken up before the
bound is passed, and no other ones. -/
theorem reaches_bounded_iff
    (hlimit : m.sink.limit = none) (hfits : m.sink.Fits limit) :
    Reaches fuel task (m.bounded limit) f task' m' ↔
      ∃ m₁, Reaches fuel task m f task' m₁ ∧ m₁.sink.Fits limit ∧
        m' = m₁.bounded limit := by
  constructor
  · intro h
    obtain ⟨hsame, hfits'⟩ := h.writes.fits_own hfits
    have hfree : (m.bounded limit).bounded none = m := by
      rw [← hlimit]
      rfl
    have hback : m' = (m'.bounded none).bounded limit := by
      rw [show limit = m'.sink.limit from hsame.symm]
      rfl
    refine ⟨m'.bounded none, ?_, hfits', hback⟩
    rw [← hfree]
    exact h.bounded trivial
  · rintro ⟨m₁, h, hfits₁, rfl⟩
    exact h.bounded hfits₁

end

/-! ## The write that does not fit -/

/-- The sink has no bound, and what it holds would fit into one of `limit`
bytes. -/
structure Machine.Below (limit : Nat) (m : Machine) : Prop where
  free : m.sink.limit = none
  fits : m.sink.Fits (some limit)

open Step in
/-- The task comes to a `print` that has still found all of `m₁` within the
limit, and whose text is not. -/
inductive Overflows (limit fuel : Nat) (task : Task) (m m₁ : Machine) :
    Prop where
  | intro {f : Nat} {expr : Expr} {value : Value} {m' : Machine} :
      Reaches fuel task m (f + 1) (.exec (.print expr)) m' →
      eval f expr m' = .ok value m₁ → m₁.Below limit →
      ¬ (m₁.sink.append (m₁.store.printed value ++ "\n").toUTF8).Fits
        (some limit) →
      Overflows limit fuel task m m₁

theorem Overflows.enter
    {limit fuel : Nat} {task task' : Task} {m m' m₁ : Machine}
    (h : Overflows limit fuel task' m' m₁)
    (henters : Enters fuel task m task' m') :
    Overflows limit (fuel + 1) task m m₁ := by
  cases h with
  | intro hreaches heval hbelow hfull =>
      exact .intro (.step henters hreaches) heval hbelow hfull

namespace Step

/-- How something ends on a sink without a bound, and how it ends on one with a
bound: in the same way within the bound, or else where it is stopped. -/
inductive Cut {α : Type} (limit : Nat) (stops : Machine → Prop) :
    EStateM.Result Halt Machine α → EStateM.Result Halt Machine α → Prop where
  | ok {a : α} {m : Machine} :
      m.Below limit → Cut limit stops (.ok a m) (.ok a (m.bounded (some limit)))
  | error {halt : Halt} {m : Machine} :
      m.Below limit →
      Cut limit stops (.error halt m) (.error halt (m.bounded (some limit)))
  | cut {result : EStateM.Result Halt Machine α} {m m₁ : Machine}
      {sink : Sink} {current : FrameId} :
      stops m₁ → m = { m₁ with sink := sink, current := current } →
      Cut limit stops result (.error (.output .sinkFull) m)

/-- On a sink with the bound the step is cut short, if anything. -/
def CutShort
    (step : Step α) (limit : Nat) (m : Machine) (stops : Machine → Prop) :
    Prop :=
  Cut limit stops (step m) (step (m.bounded (some limit)))

section
variable {α β : Type} {step : Step α} {next : α → Step β} {m : Machine}
variable {limit fuel : Nat} {stops stops' : Machine → Prop}

theorem Prints.cutShort
    {bytes : ByteArray} {result : EStateM.Result Halt Machine α}
    (h : step.Prints m bytes result) (hlimit : m.sink.limit = none)
    (hfits : (m.sink.append bytes).Fits (some limit)) :
    step.CutShort limit m stops := by
  have hfree := h.whole m.sink (Sink.takes_of_limit hlimit bytes)
  have hbounded := h.whole (m.sink.bounded (some limit))
    ((Sink.takes_bounded_iff hfits.of_append).mpr hfits)
  change step m = _ at hfree
  change step (m.bounded (some limit)) = _ at hbounded
  rw [CutShort, hfree, hbounded]
  cases result with
  | ok a m₁ => exact .ok ⟨hlimit, hfits⟩
  | error halt m₁ => exact .error ⟨hlimit, hfits⟩

theorem Quiet.cutShort (h : step.Quiet) (hm : m.Below limit) :
    step.CutShort limit m stops := by
  apply (h.prints m).cutShort hm.free
  rw [Sink.append_empty]
  exact hm.fits

theorem Cut.mono
    {result result' : EStateM.Result Halt Machine α}
    (h : Cut limit stops result result')
    (himp : ∀ m₁, stops m₁ → stops' m₁) : Cut limit stops' result result' := by
  cases h with
  | ok hbelow => exact .ok hbelow
  | error hbelow => exact .error hbelow
  | cut hstops hleft => exact .cut (himp _ hstops) hleft

theorem CutShort.bind
    (hstep : step.CutShort limit m stops)
    (hnext : ∀ a m₁, step m = .ok a m₁ → m₁.Below limit →
      (next a).CutShort limit m₁ stops) :
    (step >>= next).CutShort limit m stops := by
  change Cut limit stops (EStateM.bind step next m) (EStateM.bind step next _)
  unfold EStateM.bind
  unfold CutShort at hstep
  generalize hrun : step m = result at hstep ⊢
  generalize step (m.bounded (some limit)) = result' at hstep ⊢
  cases hstep with
  | ok hbelow => exact hnext _ _ hrun hbelow
  | error hbelow => exact .error hbelow
  | cut hstops hleft => exact .cut hstops hleft

theorem CutShort.nested
    {parent : Option FrameId} {names : Bindings Value}
    (h : step.CutShort limit (m.within parent names) stops) :
    (nested parent names step).CutShort limit m stops := by
  unfold CutShort at h ⊢
  rw [nested_eq, nested_eq]
  change Cut limit stops (step (m.within parent names))
    (step ((m.bounded (some limit)).within parent names)) at h
  generalize step (m.within parent names) = result at h ⊢
  generalize step ((m.bounded (some limit)).within parent names) = result'
    at h ⊢
  cases h with
  | ok hbelow => exact .ok ⟨hbelow.free, hbelow.fits⟩
  | error hbelow => exact .error ⟨hbelow.free, hbelow.fits⟩
  | cut hstops hleft =>
      subst hleft
      exact .cut hstops rfl

private theorem cutShort_print
    {value : Value} (hm : m.Below limit)
    (hstops : ¬ (m.sink.append (m.store.printed value ++ "\n").toUTF8).Fits
      (some limit) → stops m) :
    (print value).CutShort limit m stops := by
  by_cases hfits :
      (m.sink.append (m.store.printed value ++ "\n").toUTF8).Fits (some limit)
  · exact (print_prints value m).cutShort hm.free hfits
  · have hfull := mt (Sink.takes_bounded_iff hm.fits).mp hfits
    unfold CutShort Machine.bounded
    rw [print_of_not_takes hfull]
    exact .cut (hstops hfits) rfl

theorem Composed.cutShort
    {task : Task} {start : Machine} {hand : List Value} {has : α → List Value}
    (ih : ∀ (task : Task) (m : Machine), m.Below limit →
      (task.run fuel).CutShort limit m (Overflows limit fuel task m))
    (h : Composed fuel task start hand step m has) (hm : m.Below limit) :
    step.CutShort limit m (Overflows limit (fuel + 1) task start) := by
  induction h with
  | part hquiet _ => exact hquiet.cutShort hm
  | print htask heval =>
      subst htask
      exact cutShort_print hm fun hfull => .intro .refl heval hm hfull
  | enter hhanded =>
      exact Cut.mono (ih _ _ hm) fun _ hover => hover.enter hhanded.enters
  | @nest task' parent names hopens =>
      have hinner := ih task' (start.within parent names) ⟨hm.free, hm.fits⟩
      exact CutShort.nested
        (Cut.mono hinner fun _ hover => hover.enter (hopens.enters fuel))
  | bind _ _ ihstep ihnext =>
      exact (ihstep hm).bind fun a m₁ hrun hm₁ => ihnext a m₁ hrun hm₁

end

/-- On a sink with a bound, a task ends as it does on one without, or it is
stopped at the first write that does not fit. -/
theorem run_cutShort
    {limit : Nat} {m : Machine} (fuel : Nat) (task : Task)
    (hm : m.Below limit) :
    (task.run fuel).CutShort limit m (Overflows limit fuel task m) := by
  induction fuel generalizing task m with
  | zero => cases task <;> exact (quiet_throw _).cutShort hm
  | succ fuel ih =>
      exact (shape fuel task m).composed.cutShort
        (fun task _ hm => ih task hm) hm

end Step
end LoxLang
