import Mathlib.Order.Compare
import Mathlib.Tactic.Linarith

/-!
# Iterating over an ordered map

An iteration over a map in the order of its keys, while others may change the map: after the
key `last` comes the least key above it at that moment (`next?`).  A key that is inserted
behind the iteration is not visited; every key behind it has been visited or was inserted
behind it.
-/

namespace OrderedMap

variable {κ α : Type*} [LinearOrder κ] [Std.TransOrd κ]

theorem mem_of_getElem? {m : Std.TreeMap κ α} {k : κ} {a : α} (h : m[k]? = some a) : k ∈ m :=
  Std.TreeMap.mem_iff_isSome_getElem?.mpr (by rw [h]; rfl)

theorem getElem?_of_isEmpty {m : Std.TreeMap κ α} (h : m.isEmpty = true) (k : κ) : m[k]? = none :=
  Std.TreeMap.getElem?_eq_none (Std.TreeMap.isEmpty_iff_forall_not_mem.mp h k)

variable [Std.LawfulEqOrd κ]

/-- The iteration has not come to the key `k` when it is at `last`. -/
def Ahead (last : Option κ) (k : κ) : Prop := ∀ l ∈ last, l < k

instance (last : Option κ) (k : κ) : Decidable (Ahead last k) :=
  match last with
  | none => isTrue fun _ h => by cases h
  | some l => decidable_of_iff (l < k) ⟨fun h _ hl => by cases hl; exact h, fun h => h l rfl⟩

/-- The key that comes after `last`; the first key for `none`. -/
def next? (m : Std.TreeMap κ α) (last : Option κ) : Option κ :=
  m.keys.find? fun k => decide (Ahead last k)

theorem next?_eq_some {m : Std.TreeMap κ α} {last : Option κ} {k : κ} (h : next? m last = some k) :
    k ∈ m ∧ Ahead last k ∧ ∀ other ∈ m, Ahead last other → k ≤ other := by
  obtain ⟨hk, before, rest, hkeys, hbefore⟩ := List.find?_eq_some_iff_append.mp h
  have hsorted := m.ordered_keys
  rw [hkeys, List.pairwise_append, List.pairwise_cons] at hsorted
  refine ⟨?_, of_decide_eq_true hk, fun other hother hahead => ?_⟩
  · rw [← Std.TreeMap.mem_keys, hkeys]
    simp
  · rw [← Std.TreeMap.mem_keys, hkeys, List.mem_append, List.mem_cons] at hother
    rcases hother with hother | rfl | hother
    · simpa [hahead] using hbefore other hother
    · exact le_rfl
    · exact (compare_lt_iff_lt.mp (hsorted.2.1.1 other hother)).le

theorem next?_eq_none {m : Std.TreeMap κ α} {last : Option κ} (h : next? m last = none) :
    ∀ k ∈ m, ¬Ahead last k := by
  intro k hk
  simpa using List.find?_eq_none.mp h k (Std.TreeMap.mem_keys.mpr hk)

end OrderedMap
