/-!
# Bindings of names

A finite map from names to values, read through `find?`.  Main statements: after
`put` the new value is found under its name, and every other name is found as
before.
-/

namespace LoxLang

/-- A finite map from names. -/
structure Bindings (α : Type u) where
  entries : List (String × α)
deriving Repr

namespace Bindings

variable {α : Type u}

def empty : Bindings α :=
  ⟨[]⟩

def find? (bindings : Bindings α) (name : String) : Option α :=
  bindings.entries.lookup name

def has (bindings : Bindings α) (name : String) : Bool :=
  (bindings.find? name).isSome

/-- The entries with `value` in the place of what `name` had, or at the end. -/
def putEntry (name : String) (value : α) : List (String × α) → List (String × α)
  | [] => [(name, value)]
  | entry :: entries =>
      if entry.1 = name then (name, value) :: entries
      else entry :: putEntry name value entries

/-- Binds a name, whether it was bound before or not. -/
def put (bindings : Bindings α) (name : String) (value : α) : Bindings α :=
  ⟨putEntry name value bindings.entries⟩

def names (bindings : Bindings α) : List String :=
  bindings.entries.map Prod.fst

@[simp] theorem find?_empty (name : String) :
    (empty : Bindings α).find? name = none := rfl

theorem lookup_putEntry
    (name other : String) (value : α) (entries : List (String × α)) :
    (putEntry name value entries).lookup other =
      if other = name then some value else entries.lookup other := by
  induction entries with
  | nil =>
      by_cases h : other = name
      · simp [putEntry, h]
      · have hne : (other == name) = false := by simp [h]
        simp [putEntry, List.lookup_cons, h, hne]
  | cons entry entries ih =>
      obtain ⟨key, old⟩ := entry
      by_cases hkey : key = name
      · subst hkey
        by_cases h : other = key
        · simp [putEntry, h]
        · have hne : (other == key) = false := by simp [h]
          simp [putEntry, List.lookup_cons, h, hne]
      · by_cases hother : other = key
        · have hname : ¬ other = name := fun h => hkey (hother ▸ h)
          simp [putEntry, hkey, hother]
        · have hne : (other == key) = false := by simp [hother]
          simp [putEntry, hkey, List.lookup_cons, hne, ih]

theorem find?_put
    (bindings : Bindings α) (name other : String) (value : α) :
    (bindings.put name value).find? other =
      if other = name then some value else bindings.find? other :=
  lookup_putEntry name other value bindings.entries

@[simp] theorem find?_put_self
    (bindings : Bindings α) (name : String) (value : α) :
    (bindings.put name value).find? name = some value := by
  simp [find?_put]

theorem find?_put_of_ne
    (bindings : Bindings α) {name other : String} (value : α)
    (h : other ≠ name) :
    (bindings.put name value).find? other = bindings.find? other := by
  simp [find?_put, h]

end Bindings
end LoxLang
