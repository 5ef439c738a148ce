import Std.Data.TreeMap
import LoxLang.Tree.Basic

/-!
# Distances

How many scopes lie between a place that uses a name and the scope that declares
it.  A place without a distance uses a global.
-/

namespace LoxLang

/-- The distance of each bound place, in the order of the places. -/
structure Distances where
  byPlace : Std.TreeMap PlaceId Nat

namespace Distances

def empty : Distances :=
  ⟨∅⟩

def find? (distances : Distances) (id : PlaceId) : Option Nat :=
  distances.byPlace[id]?

def record (distances : Distances) (id : PlaceId) (distance : Nat) :
    Distances :=
  ⟨distances.byPlace.insert id distance⟩

def toList (distances : Distances) : List (PlaceId × Nat) :=
  distances.byPlace.toList

/-- Records pairs of places and distances one after the other. -/
def recordAll (distances : Distances) (pairs : List (PlaceId × Nat)) :
    Distances :=
  pairs.foldl (fun distances pair => distances.record pair.1 pair.2) distances

/-- The distances of `newer`, and those of `older` for all other places. -/
def merge (older newer : Distances) : Distances :=
  older.recordAll newer.toList

theorem find?_empty (id : PlaceId) : empty.find? id = none := by
  simp [empty, find?]

theorem find?_record
    (distances : Distances) (id other : PlaceId) (distance : Nat) :
    (distances.record id distance).find? other =
      if other = id then some distance else distances.find? other := by
  by_cases h : other = id
  · subst h
    simp [record, find?]
  · have hne : ¬ compare id other = .eq := by
      simpa [Nat.compare_eq_eq] using fun hid => h hid.symm
    simp [record, find?, Std.TreeMap.getElem?_insert, h, hne]

theorem find?_recordAll_of_forall_ne
    {pairs : List (PlaceId × Nat)} {id : PlaceId} (distances : Distances)
    (hne : ∀ pair ∈ pairs, id ≠ pair.1) :
    (distances.recordAll pairs).find? id = distances.find? id := by
  induction pairs generalizing distances with
  | nil => rfl
  | cons pair pairs ih =>
      have hrest := ih (distances.record pair.1 pair.2)
        fun other hother => hne other (List.mem_cons_of_mem _ hother)
      rw [find?_record, if_neg (hne pair List.mem_cons_self)] at hrest
      exact hrest

theorem find?_recordAll_of_mem
    {pairs : List (PlaceId × Nat)} {id : PlaceId} {distance : Nat}
    (distances : Distances)
    (hdistinct : pairs.Pairwise fun pair other => pair.1 ≠ other.1)
    (hmem : (id, distance) ∈ pairs) :
    (distances.recordAll pairs).find? id = some distance := by
  induction pairs generalizing distances with
  | nil => cases hmem
  | cons pair pairs ih =>
      obtain ⟨hpair, hpairs⟩ := List.pairwise_cons.mp hdistinct
      cases hmem with
      | head =>
          have hrest := find?_recordAll_of_forall_ne
            (distances.record id distance) hpair
          rw [find?_record, if_pos rfl] at hrest
          exact hrest
      | tail _ hmem => exact ih (distances.record pair.1 pair.2) hpairs hmem

theorem find?_merge (older newer : Distances) (id : PlaceId) :
    (older.merge newer).find? id = (newer.find? id).or (older.find? id) := by
  have hmem (distance : Nat) :
      (id, distance) ∈ newer.toList ↔ newer.find? id = some distance :=
    Std.TreeMap.mem_toList_iff_getElem?_eq_some
  cases hfound : newer.find? id with
  | none =>
      refine find?_recordAll_of_forall_ne older fun pair hpair heq => ?_
      subst heq
      rw [(hmem pair.2).mp hpair] at hfound
      cases hfound
  | some distance =>
      have hdistinct :
          newer.toList.Pairwise fun pair other => pair.1 ≠ other.1 := by
        have h := @Std.TreeMap.distinct_keys_toList _ _ _ newer.byPlace _
        simpa [Nat.compare_eq_eq, toList] using h
      exact find?_recordAll_of_mem older hdistinct ((hmem distance).mpr hfound)

end Distances
end LoxLang
