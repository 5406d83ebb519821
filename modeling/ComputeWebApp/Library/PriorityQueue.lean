import Mathlib.Data.List.MinMax
import Mathlib.Data.List.Perm.Basic

/-!
# Priority queues with arbitrary ties

A queue is the list of its elements, and `get` takes an element of minimal priority.  Which one
of several is taken is not determined: the position is an argument, so that a run that may
choose any position covers every way to break the ties.
-/

namespace PriorityQueue

variable {α : Type*} {priority : α → ℕ}

/-- Take the element at a position, if no element has a smaller priority. -/
def get (priority : α → ℕ) (queue : List α) (position : ℕ) : Option (α × List α) :=
  match queue[position]? with
  | none => none
  | some a =>
      if ∀ b ∈ queue, priority a ≤ priority b then some (a, queue.eraseIdx position) else none

/-- One element leaves the queue. -/
theorem perm_of_get {queue rest : List α} {position : ℕ} {a : α}
    (h : get priority queue position = some (a, rest)) : queue.Perm (a :: rest) := by
  unfold get at h
  split at h
  · cases h
  · rename_i a' hget
    split at h
    · cases h
      obtain ⟨hlt, heq⟩ := List.getElem?_eq_some_iff.mp hget
      exact heq ▸ (List.getElem_cons_eraseIdx_perm hlt).symm
    · cases h

/-- What is taken was in the queue, is minimal, and nothing else leaves the queue. -/
theorem get_eq_some {queue rest : List α} {position : ℕ} {a : α}
    (h : get priority queue position = some (a, rest)) :
    a ∈ queue ∧ (∀ b ∈ queue, priority a ≤ priority b) ∧ ∀ b, b ∈ queue ↔ b = a ∨ b ∈ rest := by
  have hmem : ∀ b, b ∈ queue ↔ b = a ∨ b ∈ rest := fun b => by
    rw [(perm_of_get h).mem_iff, List.mem_cons]
  refine ⟨(hmem a).mpr (.inl rfl), ?_, hmem⟩
  unfold get at h
  split at h
  · cases h
  · split at h
    · rename_i hmin
      cases h
      exact hmin
    · cases h

/-- An element with a smaller priority has left the queue before. -/
theorem not_mem_of_get {queue rest : List α} {position : ℕ} {a b : α}
    (h : get priority queue position = some (a, rest)) (hlt : priority b < priority a) :
    b ∉ queue :=
  fun hmem => absurd ((get_eq_some h).2.1 b hmem) (by omega)

/-- Some element can be taken from a queue that is not empty. -/
theorem exists_get (priority : α → ℕ) {queue : List α} (h : queue ≠ []) :
    ∃ position a rest, get priority queue position = some (a, rest) := by
  have hsome : queue.argmin priority ≠ none := fun hnone => h (List.argmin_eq_none.mp hnone)
  obtain ⟨a, ha⟩ := Option.ne_none_iff_exists'.mp hsome
  have hmem : a ∈ queue := List.argmin_mem ha
  have hleast : ∀ b ∈ queue, priority a ≤ priority b := fun b hb => List.le_of_mem_argmin hb ha
  obtain ⟨position, hget⟩ := List.mem_iff_getElem?.mp hmem
  exact ⟨position, a, queue.eraseIdx position, by simp only [get, hget, if_pos hleast]⟩

theorem get_singleton {rest : List α} {position : ℕ} {a b : α}
    (h : get priority [b] position = some (a, rest)) : a = b ∧ rest = [] := by
  have hmem := List.mem_singleton.mp (get_eq_some h).1
  refine ⟨hmem, ?_⟩
  cases position with
  | zero => simpa [get, hmem, eq_comm] using h
  | succ position => simp [get] at h

end PriorityQueue
