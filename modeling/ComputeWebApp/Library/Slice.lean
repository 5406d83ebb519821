import Mathlib.Data.Int.Notation
import Mathlib.Order.Basic

/-!
# Slices of lists

A slice takes the elements from one bound to another.  Negative bounds count from the end, and
bounds outside the list are moved to its ends.
-/

namespace Slice

variable {α : Type*}

/-- The place of a bound in a list of that length. -/
def bound (length : ℕ) (index : ℤ) : ℕ :=
  if index < 0 then (index + length).toNat else min index.toNat length

/-- The number of elements between two bounds. -/
def count (length : ℕ) (start stop : ℤ) : ℕ := bound length stop - bound length start

def slice (list : List α) (start stop : ℤ) : List α :=
  (list.take (bound list.length stop)).drop (bound list.length start)

theorem bound_le (length : ℕ) (index : ℤ) : bound length index ≤ length := by
  unfold bound
  split <;> omega

theorem length_slice (list : List α) (start stop : ℤ) :
    (slice list start stop).length = count list.length start stop := by
  rw [slice, List.length_drop, List.length_take, Nat.min_eq_left (bound_le _ _), count]

theorem bound_add_lt {length k : ℕ} {start stop : ℤ} (h : k < count length start stop) :
    bound length start + k < length := by
  have hstop := bound_le length stop
  rw [count] at h
  omega

theorem getElem?_slice {list : List α} {start stop : ℤ} {k : ℕ}
    (h : k < count list.length start stop) :
    (slice list start stop)[k]? = list[bound list.length start + k]? := by
  have hlt : bound list.length start + k < bound list.length stop := by
    rw [count] at h
    omega
  rw [slice, List.getElem?_drop, List.getElem?_take, if_pos hlt]

end Slice
