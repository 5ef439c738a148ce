import LoxLang.Bindings

/-!
# Related data and coupled actions

A relation on elements is lifted to optional elements, to arrays and to
bindings.  A sequence of actions is opened at the result of the first one.  Two
actions are coupled when they keep a relation on states: started in related
states, they end in the same way, with related values or errors and in related
states.
-/

namespace LoxLang

/-! ## Related data -/

/-- Both are absent, or both are there and related. -/
inductive Paired {α β : Type} (rel : α → β → Prop) :
    Option α → Option β → Prop where
  | none : Paired rel none none
  | some : rel a b → Paired rel (some a) (some b)

/-- Both are values or both are errors, and they are related. -/
inductive ExceptRelated {ε ε' α α' : Type} (errors : ε → ε' → Prop)
    (values : α → α' → Prop) : Except ε α → Except ε' α' → Prop where
  | ok : values a a' → ExceptRelated errors values (.ok a) (.ok a')
  | error : errors e e' → ExceptRelated errors values (.error e) (.error e')

/-- The arrays have related elements at the same places. -/
def ArraysRelated
    {α β : Type} (rel : α → β → Prop) (xs : Array α) (ys : Array β) : Prop :=
  ∀ i : Nat, Paired rel xs[i]? ys[i]?

/-- The same names are bound to related elements. -/
def Bindings.Related
    {α β : Type} (rel : α → β → Prop) (xs : Bindings α) (ys : Bindings β) :
    Prop :=
  ∀ name, Paired rel (xs.find? name) (ys.find? name)

section
variable {α β : Type} {rel other : α → β → Prop}

theorem Paired.mono
    {a : Option α} {b : Option β} (h : Paired rel a b)
    (himp : ∀ a b, rel a b → other a b) : Paired other a b := by
  cases h with
  | none => exact .none
  | some hrel => exact .some (himp _ _ hrel)

theorem Paired.map_eq
    {γ : Type} {a : Option α} {b : Option β} {f : α → γ} {g : β → γ}
    (h : Paired rel a b) (hsame : ∀ a b, rel a b → f a = g b) :
    a.map f = b.map g := by
  cases h with
  | none => rfl
  | some hrel => simp [hsame _ _ hrel]

theorem ExceptRelated.of_ok
    {ε ε' : Type} {errors : ε → ε' → Prop} {a : α} {y : Except ε' β}
    (h : ExceptRelated errors rel (.ok a) y) : ∃ b, y = .ok b ∧ rel a b := by
  cases h with
  | ok hrel => exact ⟨_, rfl, hrel⟩

theorem ExceptRelated.of_error
    {ε ε' : Type} {errors : ε → ε' → Prop} {e : ε} {y : Except ε' β}
    (h : ExceptRelated errors rel (.error e) y) :
    ∃ e', y = .error e' ∧ errors e e' := by
  cases h with
  | error herrors => exact ⟨_, rfl, herrors⟩

namespace ArraysRelated

variable {xs : Array α} {ys : Array β}

theorem size_eq (h : ArraysRelated rel xs ys) : xs.size = ys.size := by
  have hlast (i : Nat) : i < xs.size ↔ i < ys.size := by
    have hpaired := h i
    constructor
    · intro hi
      rw [Array.getElem?_eq_getElem hi] at hpaired
      cases hy : ys[i]? with
      | none =>
          rw [hy] at hpaired
          cases hpaired
      | some y => exact (Array.getElem?_eq_some_iff.mp hy).1
    · intro hi
      rw [Array.getElem?_eq_getElem hi] at hpaired
      cases hx : xs[i]? with
      | none =>
          rw [hx] at hpaired
          cases hpaired
      | some x => exact (Array.getElem?_eq_some_iff.mp hx).1
  have hle := mt (hlast ys.size).mp (Nat.lt_irrefl _)
  have hge := mt (hlast xs.size).mpr (Nat.lt_irrefl _)
  omega

theorem push
    {x : α} {y : β} (h : ArraysRelated rel xs ys) (hnew : rel x y) :
    ArraysRelated rel (xs.push x) (ys.push y) := by
  intro i
  rw [Array.getElem?_push, Array.getElem?_push, h.size_eq]
  split
  · exact .some hnew
  · exact h i

theorem mono
    (h : ArraysRelated rel xs ys) (himp : ∀ a b, rel a b → other a b) :
    ArraysRelated other xs ys :=
  fun i => (h i).mono himp

end ArraysRelated

namespace Bindings.Related

variable {xs : Bindings α} {ys : Bindings β}

protected theorem empty : Related rel .empty .empty :=
  fun _ => .none

theorem put
    {x : α} {y : β} (h : Related rel xs ys) (name : String) (hnew : rel x y) :
    Related rel (xs.put name x) (ys.put name y) := by
  intro n
  rw [find?_put, find?_put]
  split
  · exact .some hnew
  · exact h n

theorem mono
    (h : Related rel xs ys) (himp : ∀ a b, rel a b → other a b) :
    Related other xs ys :=
  fun name => (h name).mono himp

end Bindings.Related

end

/-! ## Sequences -/

section Sequences

variable {ε σ α β : Type}

theorem bind_ok {x : EStateM ε σ α} {f : α → EStateM ε σ β} {s s' : σ} {b : β}
    (h : (x >>= f) s = .ok b s') :
    ∃ a s₁, x s = .ok a s₁ ∧ f a s₁ = .ok b s' := by
  change EStateM.bind x f s = _ at h
  unfold EStateM.bind at h
  split at h
  next a s₁ hx => exact ⟨a, s₁, hx, h⟩
  next => cases h

theorem pure_ok {a b : α} {s s' : σ}
    (h : (pure a : EStateM ε σ α) s = .ok b s') : a = b ∧ s = s' := by
  cases h
  exact ⟨rfl, rfl⟩

theorem bind_eq {x : EStateM ε σ α} {f : α → EStateM ε σ β} {s s₁ : σ} {a : α}
    (h : x s = .ok a s₁) : (x >>= f) s = f a s₁ := by
  change EStateM.bind x f s = _
  unfold EStateM.bind
  rw [h]

theorem bind_eq_error {x : EStateM ε σ α} {f : α → EStateM ε σ β} {s s₁ : σ}
    {e : ε} (h : x s = .error e s₁) : (x >>= f) s = .error e s₁ := by
  change EStateM.bind x f s = _
  unfold EStateM.bind
  rw [h]

end Sequences

/-! ## Coupled actions -/

section
variable {ε ε' σ σ' α α' β β' : Type}
variable {errors : ε → ε' → Prop} {states : σ → σ' → Prop}

/-- Both results are values or both are errors, and they are related. -/
inductive Matched (errors : ε → ε' → Prop) (states : σ → σ' → Prop)
    (values : α → α' → Prop) :
    EStateM.Result ε σ α → EStateM.Result ε' σ' α' → Prop where
  | ok :
      values a a' → states s s' →
      Matched errors states values (.ok a s) (.ok a' s')
  | error :
      errors e e' → states s s' →
      Matched errors states values (.error e s) (.error e' s')

theorem Matched.of_left
    {result : EStateM.Result ε' σ' α} {a : α} {s : σ}
    (h : Matched errors states Eq (.ok a s) result) :
    ∃ s', result = .ok a s' ∧ states s s' := by
  cases h with
  | ok hsame hstates =>
      subst hsame
      exact ⟨_, rfl, hstates⟩

theorem Matched.of_right
    {result : EStateM.Result ε σ α} {a : α} {s' : σ'}
    (h : Matched errors states Eq result (.ok a s')) :
    ∃ s, result = .ok a s ∧ states s s' := by
  cases h with
  | ok hsame hstates =>
      subst hsame
      exact ⟨_, rfl, hstates⟩

/-- Related states lead to related results. -/
def Coupled (errors : ε → ε' → Prop) (states : σ → σ' → Prop)
    (values : α → α' → Prop) (x : EStateM ε σ α) (y : EStateM ε' σ' α') :
    Prop :=
  ∀ s s', states s s' → Matched errors states values (x s) (y s')

variable {values : α → α' → Prop} {more : β → β' → Prop}

theorem coupled_pure
    {a : α} {a' : α'} (h : values a a') :
    Coupled errors states values (pure a) (pure a') :=
  fun _ _ hstates => .ok h hstates

theorem coupled_throw
    {e : ε} {e' : ε'} (h : errors e e') :
    Coupled errors states values (throw e) (throw e') :=
  fun _ _ hstates => .error h hstates

theorem Coupled.bind
    {x : EStateM ε σ α} {y : EStateM ε' σ' α'}
    {f : α → EStateM ε σ β} {g : α' → EStateM ε' σ' β'}
    (h : Coupled errors states values x y)
    (hnext : ∀ a a', values a a' → Coupled errors states more (f a) (g a')) :
    Coupled errors states more (x >>= f) (y >>= g) := by
  intro s s' hstates
  change Matched errors states more (EStateM.bind x f s) (EStateM.bind y g s')
  unfold EStateM.bind
  have hmatched := h s s' hstates
  cases hx : x s with
  | ok a s₁ =>
      cases hy : y s' with
      | ok a' s₁' =>
          rw [hx, hy] at hmatched
          cases hmatched with
          | ok hvalues hafter => exact hnext a a' hvalues s₁ s₁' hafter
      | error e s₁' =>
          rw [hx, hy] at hmatched
          cases hmatched
  | error e s₁ =>
      cases hy : y s' with
      | ok a' s₁' =>
          rw [hx, hy] at hmatched
          cases hmatched
      | error e' s₁' =>
          rw [hx, hy] at hmatched
          cases hmatched with
          | error herrors hafter => exact .error herrors hafter

theorem Coupled.bindSame
    {x : EStateM ε σ α} {y : EStateM ε' σ' α}
    {f : α → EStateM ε σ β} {g : α → EStateM ε' σ' β'}
    (h : Coupled errors states Eq x y)
    (hnext : ∀ a, Coupled errors states more (f a) (g a)) :
    Coupled errors states more (x >>= f) (y >>= g) := by
  refine h.bind fun a a' heq => ?_
  subst heq
  exact hnext a

end

end LoxLang
