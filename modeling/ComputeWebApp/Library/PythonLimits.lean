import Mathlib.Algebra.Order.Group.Nat

/-!
# Limits of a Python interpreter

Where the language has no bound, an interpreter refuses what is too large: `int` of a text with too
many digits (`ValueError`), the length of a `range` that no `ssize_t` holds (`OverflowError`), a
list for which there is no memory (`MemoryError`), and a recursion that is too deep
(`RecursionError`).  The limits depend on the version and on the machine, and some versions have
none.
-/

namespace Python

/-- The largest `ssize_t`. -/
def maxsize : ℕ := 2 ^ 63 - 1

/-- The digits that `int` reads and `str` writes, the elements of a list that a call has memory for,
and how many lists and dictionaries may be inside one another for `json.load`, `json.dump` and
`copy.deepcopy`; `none` where nothing is refused. -/
structure Limits where
  strDigits : Option ℕ := none
  listLength : Option ℕ := none
  loadDepth : Option ℕ := none
  dumpDepth : Option ℕ := none
  copyDepth : Option ℕ := none
  deriving DecidableEq, Repr

/-- `n` is within a limit. -/
def Within (limit : Option ℕ) (n : ℕ) : Prop := ∀ bound ∈ limit, n ≤ bound

instance (limit : Option ℕ) (n : ℕ) : Decidable (Within limit n) :=
  inferInstanceAs (Decidable (∀ bound ∈ limit, n ≤ bound))

theorem Within.mono {limit : Option ℕ} {m n : ℕ} (h : Within limit n) (hle : m ≤ n) :
    Within limit m :=
  fun bound hbound => Nat.le_trans hle (h bound hbound)

theorem within_zero (limit : Option ℕ) : Within limit 0 := fun _ _ => Nat.zero_le _

/-- CPython with its defaults, for a call that is not deep in the stack. -/
def cpython : Limits where
  strDigits := some 4300
  listLength := some (2 ^ 40)
  loadDepth := some 900
  dumpDepth := some 900
  copyDepth := some 450

end Python
