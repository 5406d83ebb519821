import Mathlib.Logic.Function.Basic

/-!
# Lock files

A process enters a section by creating the lock file, which fails while the file exists, and
removes the file when it leaves.  The file itself has no owner: `owner` is the process that has
created the one that exists, and the section is exclusive as long as this is the one process
that is inside.
-/

namespace LockFile

variable {κ : Type*} {owner : Option κ} {inside inside' : κ → Prop}

/-- The lock file that exists is that of the process that is inside. -/
def Exclusive (owner : Option κ) (inside : κ → Prop) : Prop :=
  ∀ k, inside k ↔ owner = some k

theorem Exclusive.unique (h : Exclusive owner inside) {k k' : κ} (hk : inside k)
    (hk' : inside k') : k = k' :=
  Option.some.inj (((h k).mp hk).symm.trans ((h k').mp hk'))

theorem Exclusive.congr (h : Exclusive owner inside) (hinside : ∀ k, inside' k ↔ inside k) :
    Exclusive owner inside' :=
  fun k => (hinside k).trans (h k)

/-- The lock file did not exist, and `k` has created it. -/
theorem Exclusive.create (h : Exclusive none inside) {k : κ} (hk : inside' k)
    (hothers : ∀ other ≠ k, inside' other ↔ inside other) : Exclusive (some k) inside' := by
  intro other
  by_cases heq : other = k
  · subst heq
    exact iff_of_true hk rfl
  · apply iff_of_false
    · rw [hothers other heq, h other]
      exact nofun
    · exact fun hsome => heq (Option.some.inj hsome).symm

/-- The process that was inside has removed the lock file. -/
theorem Exclusive.remove (h : Exclusive owner inside) {k : κ} (hk : inside k) (hleft : ¬inside' k)
    (hothers : ∀ other ≠ k, inside' other ↔ inside other) : Exclusive none inside' := by
  intro other
  apply iff_of_false
  · by_cases heq : other = k
    · exact heq ▸ hleft
    · rw [hothers other heq]
      exact fun hother => heq (h.unique hother hk)
  · exact nofun

end LockFile
