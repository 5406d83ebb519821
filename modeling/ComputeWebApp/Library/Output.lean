import Mathlib.Data.List.Basic

/-!
# Output that may end early

What a writer has written piece by piece, until it was done or something stopped it.
-/

/-- What has been written, and whether that is everything. -/
structure Output (α : Type) where
  text : List α
  complete : Bool
  deriving DecidableEq, Repr

namespace Output

variable {α : Type}

def write (text : List α) : Output α := ⟨text, true⟩

/-- Nothing follows an output that was stopped. -/
def append (first second : Output α) : Output α :=
  if first.complete then ⟨first.text ++ second.text, second.complete⟩ else first

instance : Append (Output α) := ⟨append⟩

@[simp] theorem complete_write (text : List α) : (write text).complete = true := rfl

@[simp] theorem complete_append (first second : Output α) :
    (first ++ second).complete = (first.complete && second.complete) := by
  change (append first second).complete = _
  cases hfirst : first.complete <;> simp [append, hfirst]

theorem text_append {first second : Output α} (h : first.complete = true) :
    (first ++ second).text = first.text ++ second.text := by
  change (append first second).text = _
  rw [append, if_pos h]

theorem append_of_stopped {first : Output α} (h : first.complete = false) (second : Output α) :
    first ++ second = first := by
  change append first second = first
  rw [append, if_neg (by rw [h]; exact Bool.false_ne_true)]

end Output
