import ComputeWebApp.Library.Transition
import Mathlib.Logic.Function.Basic

/-!
# Processes that share locked files

Processes share files, each with a lock.  A process works on a file in a *section*: it takes the
lock, reads and writes the whole file some times (`Prog`), and releases the lock.  Between its
sections it may also look at a file without the lock.

`System.step` interleaves single reads and writes; `System.atomicStep` takes a section in one
step.  The two agree (`System.reduction`) as long as a look sees what the section on the file
started from or what it leaves, that is, as long as every section that another process can
observe shows, after its first write, only its last content.  A content that a section shows in
between, such as that of a file that is just being written, is `torn`: the reduction is for the
runs in which no look sees a torn content.
-/

namespace LockedFile

open Transition

/-! ## Sections -/

/-- What a process does with a file while it has the lock. -/
inductive Prog (δ ρ : Type)
  | done (result : ρ)
  | fail
  | read (next : δ → Prog δ ρ)
  | write (content : δ) (next : Prog δ ρ)

namespace Prog

variable {δ ρ τ : Type}

protected def bind : Prog δ ρ → (ρ → Prog δ τ) → Prog δ τ
  | done result, next => next result
  | fail, _ => fail
  | read rest, next => read fun content => (rest content).bind next
  | write content rest, next => write content (rest.bind next)

instance : Monad (Prog δ) where
  pure := done
  bind := Prog.bind

@[simp] theorem pure_eq (result : ρ) : (pure result : Prog δ ρ) = done result := rfl

@[simp] theorem done_bind (result : ρ) (next : ρ → Prog δ τ) :
    (done result : Prog δ ρ) >>= next = next result := rfl

@[simp] theorem fail_bind (next : ρ → Prog δ τ) : (fail : Prog δ ρ) >>= next = fail := rfl

@[simp] theorem read_bind (rest : δ → Prog δ ρ) (next : ρ → Prog δ τ) :
    read rest >>= next = read fun content => rest content >>= next := rfl

@[simp] theorem write_bind (content : δ) (rest : Prog δ ρ) (next : ρ → Prog δ τ) :
    write content rest >>= next = write content (rest >>= next) := rfl

@[simp] theorem map_eq (p : Prog δ ρ) (next : ρ → τ) :
    next <$> p = p >>= fun result => done (next result) := rfl

/-- The result and the content that a section leaves; `none` when it fails. -/
@[simp] def exec : Prog δ ρ → δ → Option (ρ × δ)
  | done result, content => some (result, content)
  | fail, _ => none
  | read next, content => (next content).exec content
  | write content next, _ => next.exec content

theorem exec_bind (p : Prog δ ρ) (next : ρ → Prog δ τ) (content : δ) :
    (p >>= next).exec content = (p.exec content).bind fun left => (next left.1).exec left.2 := by
  induction p generalizing content with
  | done result => rfl
  | fail => rfl
  | read rest ih => exact ih content content
  | write content' rest ih => exact ih content'

/-- Every content from here on is in `V`. -/
@[simp] def Shows (V : δ → Prop) : Prog δ ρ → δ → Prop
  | done _, content => V content
  | fail, content => V content
  | read next, content => (next content).Shows V content
  | write content next, before => V before ∧ next.Shows V content

theorem Shows.now {V : δ → Prop} {p : Prog δ ρ} {content : δ} (h : p.Shows V content) :
    V content := by
  induction p with
  | done result => exact h
  | fail => exact h
  | read next ih => exact ih content h
  | write content' next => exact h.1

/-- From its first write on the section cannot fail, and every content it goes through is in `V`
of the one that it leaves. -/
@[simp] def Commits (V : δ → δ → Prop) : Prog δ ρ → δ → Prop
  | done _, _ => True
  | fail, _ => True
  | read next, content => (next content).Commits V content
  | write content next, _ =>
      ∃ left, next.exec content = some left ∧ next.Shows (V left.2) content

@[simp] theorem exec_map (next : ρ → τ) (p : Prog δ ρ) (content : δ) :
    (next <$> p).exec content = (p.exec content).map fun left => (next left.1, left.2) := by
  rw [map_eq, exec_bind]
  cases p.exec content <;> rfl

theorem Shows.map {V : δ → Prop} {p : Prog δ ρ} {content : δ} (h : p.Shows V content)
    (next : ρ → τ) : (next <$> p).Shows V content := by
  induction p generalizing content with
  | done result => exact h
  | fail => exact h
  | read rest ih => exact ih content h
  | write content' rest ih => exact ⟨h.1, ih h.2⟩

theorem Commits.map {V : δ → δ → Prop} {p : Prog δ ρ} {content : δ} (h : p.Commits V content)
    (next : ρ → τ) : (next <$> p).Commits V content := by
  induction p generalizing content with
  | done result => trivial
  | fail => trivial
  | read rest ih => exact ih content h
  | write content' rest =>
      obtain ⟨left, hexec, hshows⟩ := h
      refine ⟨(next left.1, left.2), ?_, hshows.map next⟩
      show (next <$> rest).exec content' = _
      rw [exec_map, hexec]
      rfl

end Prog

/-! ## Systems -/

/-- What the processes do: process `k` in local state `l` may enter a section on a file, which
gives its next local state, may look at a file without its lock, and may act on what the
processes share besides the files.  A label chooses among several possibilities. -/
structure System (κ φ δ Γ β : Type) (L : κ → Type) where
  enter (k : κ) : β → L k → Option (φ × Prog δ (L k))
  look (k : κ) : L k → Option (φ × (δ → L k))
  act (k : κ) : β → L k → Γ → Option (L k × Γ)

/-- `holder` are the locks, and `inside` what is left of the sections. -/
structure State (κ φ δ Γ : Type) (L : κ → Type) where
  content : φ → δ
  holder : φ → Option κ
  inside : (k : κ) → Option (φ × Prog δ (L k))
  locals : (k : κ) → L k
  shared : Γ

inductive Action (κ β : Type)
  | lock (k : κ) (label : β)
  | advance (k : κ)
  | unlock (k : κ)
  | look (k : κ)
  | act (k : κ) (label : β)

/-- The state between the sections. -/
structure AtomicState (κ φ δ Γ : Type) (L : κ → Type) where
  content : φ → δ
  locals : (k : κ) → L k
  shared : Γ

inductive AtomicAction (κ β : Type)
  | perform (k : κ) (label : β)
  | look (k : κ)
  | act (k : κ) (label : β)

namespace System

variable {κ φ δ Γ β : Type} {L : κ → Type} [DecidableEq κ] [DecidableEq φ]

variable (sys : System κ φ δ Γ β L)

def step (s : State κ φ δ Γ L) : Action κ β → Option (State κ φ δ Γ L)
  | .lock k label =>
      match s.inside k, sys.enter k label (s.locals k) with
      | none, some (f, p) =>
          match s.holder f with
          | none =>
              some { s with
                holder := Function.update s.holder f (some k)
                inside := Function.update s.inside k (some (f, p)) }
          | some _ => none
      | _, _ => none
  | .advance k =>
      match s.inside k with
      | some (f, .read next) =>
          some { s with inside := Function.update s.inside k (some (f, next (s.content f))) }
      | some (f, .write content next) =>
          some { s with
            content := Function.update s.content f content
            inside := Function.update s.inside k (some (f, next)) }
      | _ => none
  | .unlock k =>
      match s.inside k with
      | some (f, .done l) =>
          some { s with
            holder := Function.update s.holder f none
            inside := Function.update s.inside k none
            locals := Function.update s.locals k l }
      | _ => none
  | .look k =>
      match s.inside k, sys.look k (s.locals k) with
      | none, some (f, see) =>
          some { s with locals := Function.update s.locals k (see (s.content f)) }
      | _, _ => none
  | .act k label =>
      match s.inside k, sys.act k label (s.locals k) s.shared with
      | none, some (l, shared) =>
          some { s with locals := Function.update s.locals k l, shared := shared }
      | _, _ => none

def atomicStep (a : AtomicState κ φ δ Γ L) : AtomicAction κ β → Option (AtomicState κ φ δ Γ L)
  | .perform k label =>
      match sys.enter k label (a.locals k) with
      | some (f, p) =>
          (p.exec (a.content f)).map fun left =>
            { a with
              content := Function.update a.content f left.2
              locals := Function.update a.locals k left.1 }
      | none => none
  | .look k =>
      (sys.look k (a.locals k)).map fun seen =>
        { a with locals := Function.update a.locals k (seen.2 (a.content seen.1)) }
  | .act k label =>
      (sys.act k label (a.locals k) a.shared).map fun next =>
        { a with locals := Function.update a.locals k next.1, shared := next.2 }

section AtomicSteps

variable {sys} {a b : AtomicState κ φ δ Γ L} {k : κ} {label : β}

/-- What a section in one step changes: its file and the state of its process. -/
theorem atomicStep_perform (h : sys.atomicStep a (.perform k label) = some b) :
    ∃ f p, sys.enter k label (a.locals k) = some (f, p) ∧
      p.exec (a.content f) = some (b.locals k, b.content f) ∧
      (∀ f' ≠ f, b.content f' = a.content f') ∧
      (∀ other ≠ k, b.locals other = a.locals other) ∧ b.shared = a.shared := by
  simp only [atomicStep] at h
  split at h
  · rename_i f p henter
    obtain ⟨⟨l, d⟩, hexec, rfl⟩ := Option.map_eq_some_iff.mp h
    refine ⟨f, p, henter, ?_, fun f' hf' => Function.update_of_ne hf' _ _,
      fun other hother => Function.update_of_ne hother _ _, rfl⟩
    simpa using hexec
  · cases h

theorem atomicStep_look (h : sys.atomicStep a (.look k) = some b) :
    ∃ f see, sys.look k (a.locals k) = some (f, see) ∧ b.locals k = see (a.content f) ∧
      b.content = a.content ∧ (∀ other ≠ k, b.locals other = a.locals other) ∧
      b.shared = a.shared := by
  simp only [atomicStep] at h
  obtain ⟨⟨f, see⟩, hlook, rfl⟩ := Option.map_eq_some_iff.mp h
  exact ⟨f, see, hlook, Function.update_self .., rfl,
    fun other hother => Function.update_of_ne hother _ _, rfl⟩

theorem atomicStep_act (h : sys.atomicStep a (.act k label) = some b) :
    sys.act k label (a.locals k) a.shared = some (b.locals k, b.shared) ∧
      b.content = a.content ∧ ∀ other ≠ k, b.locals other = a.locals other := by
  simp only [atomicStep] at h
  obtain ⟨⟨l, shared⟩, hact, rfl⟩ := Option.map_eq_some_iff.mp h
  refine ⟨?_, rfl, fun other hother => Function.update_of_ne hother _ _⟩
  simpa using hact

end AtomicSteps

/-- No section has begun. -/
def start (a : AtomicState κ φ δ Γ L) : State κ φ δ Γ L where
  content := a.content
  holder := fun _ => none
  inside := fun _ => none
  locals := a.locals
  shared := a.shared

/-! ## Reduction -/

section Reduction

variable (torn : δ → Prop)

/-- Another process looks at the file without its lock. -/
def Observed (k : κ) (f : φ) : Prop :=
  ∃ other ≠ k, ∃ l see, sys.look other l = some (f, see)

/-- What an observer of a section that leaves `d` may see. -/
def Visible (k : κ) (f : φ) (d x : δ) : Prop := sys.Observed k f → x = d ∨ torn x

def Reducible : Prop :=
  ∀ k label l f p, sys.enter k label l = some (f, p) →
    ∀ content, p.Commits (sys.Visible torn k f) content

/-- No look sees a torn content. -/
def Untorn (s : State κ φ δ Γ L) : Action κ β → Prop
  | .look k => ∀ seen ∈ sys.look k (s.locals k), ¬torn (s.content seen.1)
  | _ => True

instance [DecidablePred torn] (s : State κ φ δ Γ L) :
    ∀ action : Action κ β, Decidable (sys.Untorn torn s action)
  | .look k =>
      inferInstanceAs (Decidable (∀ seen ∈ sys.look k (s.locals k), ¬torn (s.content seen.1)))
  | .lock _ _ => isTrue trivial
  | .advance _ => isTrue trivial
  | .unlock _ => isTrue trivial
  | .act _ _ => isTrue trivial

/-- A section takes effect at its first write, or at its end if it does not write. -/
inductive Tracks (s : State κ φ δ Γ L) (a : AtomicState κ φ δ Γ L) (k : κ) (f : φ)
    (p : Prog δ (L k)) : Prop
  | pending (label : β) (whole : Prog δ (L k))
      (enter : sys.enter k label (s.locals k) = some (f, whole))
      (exec : whole.exec (s.content f) = p.exec (s.content f))
      (commits : p.Commits (sys.Visible torn k f) (s.content f))
      (locals : a.locals k = s.locals k) (content : a.content f = s.content f)
  | committed (label : β) (whole : Prog δ (L k)) (before : δ)
      (enter : sys.enter k label (s.locals k) = some (f, whole))
      (effect : whole.exec before = some (a.locals k, a.content f))
      (exec : p.exec (s.content f) = some (a.locals k, a.content f))
      (shows : p.Shows (sys.Visible torn k f (a.content f)) (s.content f))

structure Matches (s : State κ φ δ Γ L) (a : AtomicState κ φ δ Γ L) : Prop where
  shared : a.shared = s.shared
  free : ∀ f, s.holder f = none → a.content f = s.content f
  held : ∀ k f, s.holder f = some k ↔ ∃ p, s.inside k = some (f, p)
  idle : ∀ k, s.inside k = none → a.locals k = s.locals k
  tracks : ∀ k f p, s.inside k = some (f, p) → sys.Tracks torn s a k f p

variable {sys torn} {s t : State κ φ δ Γ L} {a b : AtomicState κ φ δ Γ L} {k : κ} {f : φ}

omit [DecidableEq κ] [DecidableEq φ] in
/-- What a process is related to depends on its own state and its file only. -/
theorem Tracks.congr {p : Prog δ (L k)} (h : sys.Tracks torn s a k f p)
    (hlocals : t.locals k = s.locals k) (hcontent : t.content f = s.content f)
    (hlocals' : b.locals k = a.locals k) (hcontent' : b.content f = a.content f) :
    sys.Tracks torn t b k f p := by
  cases h with
  | pending label whole enter exec commits locals content =>
      refine .pending label whole ?_ ?_ ?_ ?_ ?_
      · rw [hlocals]; exact enter
      · rw [hcontent]; exact exec
      · rw [hcontent]; exact commits
      · rw [hlocals, hlocals']; exact locals
      · rw [hcontent, hcontent']; exact content
  | committed label whole before enter effect exec shows =>
      refine .committed label whole before ?_ ?_ ?_ ?_
      · rw [hlocals]; exact enter
      · rw [hlocals', hcontent']; exact effect
      · rw [hcontent, hlocals', hcontent']; exact exec
      · rw [hcontent, hcontent']; exact shows

omit [DecidableEq κ] [DecidableEq φ] in
theorem Matches.start (a : AtomicState κ φ δ Γ L) : sys.Matches torn (start a) a where
  shared := rfl
  free := fun _ _ => rfl
  held := fun _ _ => by simp [System.start]
  idle := fun _ _ => rfl
  tracks := fun _ _ _ h => by cases h

omit [DecidableEq κ] [DecidableEq φ] in
theorem Matches.inside_unique (h : sys.Matches torn s a) {other : κ} {p : Prog δ (L k)}
    {q : Prog δ (L other)} (hk : s.inside k = some (f, p)) (hother : s.inside other = some (f, q)) :
    other = k := by
  have hheld := (h.held k f).mpr ⟨p, hk⟩
  rw [(h.held other f).mpr ⟨q, hother⟩] at hheld
  exact Option.some.inj hheld

omit [DecidableEq κ] [DecidableEq φ] in
/-- A look sees the content between the sections. -/
theorem Matches.content_eq (h : sys.Matches torn s a) (hidle : s.inside k = none) {l : L k}
    {see : δ → L k} (hlook : sys.look k l = some (f, see)) (htorn : ¬torn (s.content f)) :
    a.content f = s.content f := by
  cases hholder : s.holder f with
  | none => exact h.free f hholder
  | some other =>
      obtain ⟨p, hinside⟩ := (h.held other f).mp hholder
      have hne : k ≠ other := by
        rintro rfl
        rw [hidle] at hinside
        cases hinside
      cases h.tracks other f p hinside with
      | pending label whole enter exec commits locals content => exact content
      | committed label whole before enter effect exec shows =>
          rcases shows.now ⟨k, hne, l, see, hlook⟩ with heq | hseen
          · exact heq.symm
          · exact absurd hseen htorn

omit [DecidableEq κ] [DecidableEq φ] in
/-- The state of a process is the one between the sections, or one of its sections leads from the
one to the other. -/
theorem Matches.locals_eq (h : sys.Matches torn s a) (k : κ) :
    a.locals k = s.locals k ∨ ∃ f label whole before after,
      sys.enter k label (s.locals k) = some (f, whole) ∧
        whole.exec before = some (a.locals k, after) := by
  cases hinside : s.inside k with
  | none => exact .inl (h.idle k hinside)
  | some entry =>
      obtain ⟨f, p⟩ := entry
      cases h.tracks k f p hinside with
      | pending label whole enter exec commits locals content => exact .inl locals
      | committed label whole before enter effect exec shows =>
          exact .inr ⟨f, label, whole, before, _, enter, effect⟩

omit [DecidableEq κ] [DecidableEq φ] in
/-- The sections of the other processes, after a step of process `k` on file `f`. -/
theorem Matches.others (h : sys.Matches torn s a) {p : Prog δ (L k)}
    (hk : s.inside k = some (f, p)) {other : κ} (hother : other ≠ k) {f' : φ}
    {q : Prog δ (L other)} (hinside : s.inside other = some (f', q)) : f' ≠ f := by
  rintro rfl
  exact hother (h.inside_unique hk hinside)

theorem Matches.lock (h : sys.Matches torn s a) (hred : sys.Reducible torn) {label : β}
    {p : Prog δ (L k)} (hidle : s.inside k = none)
    (henter : sys.enter k label (s.locals k) = some (f, p)) (hfree : s.holder f = none) :
    sys.Matches torn { s with
      holder := Function.update s.holder f (some k)
      inside := Function.update s.inside k (some (f, p)) } a where
  shared := h.shared
  free := by
    intro f' hf'
    dsimp only at hf' ⊢
    rcases eq_or_ne f' f with rfl | hne
    · simp at hf'
    · rw [Function.update_of_ne hne] at hf'
      exact h.free f' hf'
  held := by
    intro other f'
    dsimp only
    rcases eq_or_ne other k with rfl | hother
    · rw [Function.update_self]
      rcases eq_or_ne f' f with rfl | hne
      · simp
      · rw [Function.update_of_ne hne, h.held, hidle]
        simp [hne.symm]
    · rw [Function.update_of_ne hother, ← h.held]
      rcases eq_or_ne f' f with rfl | hne
      · simp [hfree, hother.symm]
      · rw [Function.update_of_ne hne]
  idle := by
    intro other hinside
    dsimp only at hinside ⊢
    rcases eq_or_ne other k with rfl | hother
    · simp at hinside
    · rw [Function.update_of_ne hother] at hinside
      exact h.idle other hinside
  tracks := by
    intro other f' q hinside
    dsimp only at hinside
    rcases eq_or_ne other k with rfl | hother
    · rw [Function.update_self] at hinside
      cases hinside
      exact .pending label _ henter rfl (hred _ _ _ _ _ henter _) (h.idle _ hidle) (h.free _ hfree)
    · rw [Function.update_of_ne hother] at hinside
      exact (h.tracks other f' q hinside).congr rfl rfl rfl rfl

/-- A step inside a section: it goes on with `q`, on a content that it may have written. -/
theorem Matches.advance (h : sys.Matches torn s a) {p q : Prog δ (L k)}
    (hk : s.inside k = some (f, p)) (content : δ)
    (hlocals : ∀ other ≠ k, b.locals other = a.locals other)
    (hcontent : ∀ f' ≠ f, b.content f' = a.content f') (hshared : b.shared = a.shared)
    (htracks : sys.Tracks torn { s with
      content := Function.update s.content f content
      inside := Function.update s.inside k (some (f, q)) } b k f q) :
    sys.Matches torn { s with
      content := Function.update s.content f content
      inside := Function.update s.inside k (some (f, q)) } b where
  shared := hshared.trans h.shared
  free := by
    intro f' hf'
    dsimp only at hf' ⊢
    have hne : f' ≠ f := by
      rintro rfl
      rw [show s.holder f' = some k from (h.held k f').mpr ⟨p, hk⟩] at hf'
      cases hf'
    rw [hcontent f' hne, Function.update_of_ne hne]
    exact h.free f' hf'
  held := by
    intro other f'
    dsimp only
    rcases eq_or_ne other k with rfl | hother
    · rw [Function.update_self, h.held, hk]
      simp
    · rw [Function.update_of_ne hother]
      exact h.held other f'
  idle := by
    intro other hinside
    dsimp only at hinside ⊢
    rcases eq_or_ne other k with rfl | hother
    · simp at hinside
    · rw [Function.update_of_ne hother] at hinside
      exact (hlocals other hother).trans (h.idle other hinside)
  tracks := by
    intro other f' r hinside
    dsimp only at hinside
    rcases eq_or_ne other k with rfl | hother
    · rw [Function.update_self] at hinside
      cases hinside
      exact htracks
    · rw [Function.update_of_ne hother] at hinside
      have hne := h.others hk hother hinside
      exact (h.tracks other f' r hinside).congr rfl (Function.update_of_ne hne _ _)
        (hlocals other hother) (hcontent f' hne)

/-- The end of a section. -/
theorem Matches.unlock (h : sys.Matches torn s a) {p : Prog δ (L k)}
    (hk : s.inside k = some (f, p)) {l : L k} (hlocal : b.locals k = l)
    (hlocals : ∀ other ≠ k, b.locals other = a.locals other)
    (hfile : b.content f = s.content f)
    (hcontent : ∀ f' ≠ f, b.content f' = a.content f') (hshared : b.shared = a.shared) :
    sys.Matches torn { s with
      holder := Function.update s.holder f none
      inside := Function.update s.inside k none
      locals := Function.update s.locals k l } b where
  shared := hshared.trans h.shared
  free := by
    intro f' hf'
    dsimp only at hf' ⊢
    rcases eq_or_ne f' f with rfl | hne
    · exact hfile
    · rw [Function.update_of_ne hne] at hf'
      exact (hcontent f' hne).trans (h.free f' hf')
  held := by
    intro other f'
    dsimp only
    rcases eq_or_ne other k with rfl | hother
    · rw [Function.update_self]
      rcases eq_or_ne f' f with rfl | hne
      · simp
      · rw [Function.update_of_ne hne, h.held, hk]
        simp [hne.symm]
    · rw [Function.update_of_ne hother]
      rcases eq_or_ne f' f with rfl | hne
      · rw [Function.update_self]
        refine ⟨fun hnone => (by cases hnone), ?_⟩
        rintro ⟨q, hq⟩
        exact absurd (h.inside_unique hk hq) hother
      · rw [Function.update_of_ne hne]
        exact h.held other f'
  idle := by
    intro other hinside
    dsimp only at hinside ⊢
    rcases eq_or_ne other k with rfl | hother
    · rw [Function.update_self]
      exact hlocal
    · rw [Function.update_of_ne hother] at hinside ⊢
      exact (hlocals other hother).trans (h.idle other hinside)
  tracks := by
    intro other f' r hinside
    dsimp only at hinside
    rcases eq_or_ne other k with rfl | hother
    · simp at hinside
    · rw [Function.update_of_ne hother] at hinside
      exact (h.tracks other f' r hinside).congr (Function.update_of_ne hother _ _) rfl
        (hlocals other hother) (hcontent f' (h.others hk hother hinside))

omit [DecidableEq φ] in
/-- A process outside its sections changes its own state, and what is shared. -/
theorem Matches.outside (h : sys.Matches torn s a) (hidle : s.inside k = none) (l : L k)
    (shared : Γ) :
    sys.Matches torn { s with locals := Function.update s.locals k l, shared := shared }
      { a with locals := Function.update a.locals k l, shared := shared } where
  shared := rfl
  free := h.free
  held := h.held
  idle := by
    intro other hinside
    dsimp only at hinside ⊢
    rcases eq_or_ne other k with rfl | hother
    · simp
    · rw [Function.update_of_ne hother, Function.update_of_ne hother]
      exact h.idle other hinside
  tracks := by
    intro other f' q hinside
    dsimp only at hinside
    have hother : other ≠ k := by
      rintro rfl
      rw [hidle] at hinside
      cases hinside
    exact (h.tracks other f' q hinside).congr (Function.update_of_ne hother _ _) rfl
      (Function.update_of_ne hother _ _) rfl

theorem Matches.read (h : sys.Matches torn s a) {next : δ → Prog δ (L k)}
    (hk : s.inside k = some (f, .read next)) :
    sys.Matches torn
      { s with inside := Function.update s.inside k (some (f, next (s.content f))) } a := by
  have hsame := Function.update_eq_self f s.content
  have hmatches := h.advance (b := a) (q := next (s.content f)) hk (s.content f)
    (fun _ _ => rfl) (fun _ _ => rfl) rfl
  rw [hsame] at hmatches
  apply hmatches
  cases h.tracks k f _ hk with
  | pending label whole enter exec commits locals content =>
      exact .pending label whole enter exec commits locals content
  | committed label whole before enter effect exec shows =>
      exact .committed label whole before enter effect exec shows

/-- The first write of a section is its effect. -/
theorem Matches.write (h : sys.Matches torn s a) {content : δ} {next : Prog δ (L k)}
    (hk : s.inside k = some (f, .write content next)) :
    ∃ b, sys.Matches torn { s with
      content := Function.update s.content f content
      inside := Function.update s.inside k (some (f, next)) } b ∧
      Reachable sys.atomicStep a b := by
  cases h.tracks k f _ hk with
  | pending label whole enter exec commits locals hcontent =>
      obtain ⟨⟨l, d⟩, hexec, hshows⟩ := commits
      refine ⟨{ a with
        content := Function.update a.content f d
        locals := Function.update a.locals k l }, ?_, Reachable.initial.step (.perform k label) ?_⟩
      · refine h.advance hk content (fun other hother => Function.update_of_ne hother _ _)
          (fun f' hf' => Function.update_of_ne hf' _ _) rfl
          (.committed label whole (s.content f) enter ?_ ?_ ?_)
        · simpa [exec] using hexec
        · simpa using hexec
        · simpa using hshows
      · simp only [atomicStep, locals, enter, hcontent, exec, Prog.exec, hexec, Option.map_some]
  | committed label whole before enter effect exec shows =>
      refine ⟨a, ?_, .initial⟩
      refine h.advance hk content (fun _ _ => rfl) (fun _ _ => rfl) rfl
        (.committed label whole before enter effect ?_ ?_)
      · simpa using exec
      · simpa using shows.2

theorem Matches.done (h : sys.Matches torn s a) {l : L k}
    (hk : s.inside k = some (f, .done l)) :
    ∃ b, sys.Matches torn { s with
      holder := Function.update s.holder f none
      inside := Function.update s.inside k none
      locals := Function.update s.locals k l } b ∧
      Reachable sys.atomicStep a b := by
  cases h.tracks k f _ hk with
  | pending label whole enter exec commits locals hcontent =>
      refine ⟨{ a with locals := Function.update a.locals k l }, ?_,
        Reachable.initial.step (.perform k label) ?_⟩
      · exact h.unlock hk (Function.update_self ..)
          (fun other hother => Function.update_of_ne hother _ _) hcontent (fun _ _ => rfl) rfl
      · simp only [atomicStep, locals, enter, hcontent, exec, Prog.exec, Option.map_some]
        rw [← hcontent, Function.update_eq_self]
  | committed label whole before enter effect exec shows =>
      simp only [Prog.exec, Option.some.injEq, Prod.mk.injEq] at exec
      exact ⟨a, h.unlock hk exec.1.symm (fun _ _ => rfl) exec.2.symm (fun _ _ => rfl) rfl, .initial⟩

/-- A step is matched by at most one atomic step. -/
theorem Matches.step (h : sys.Matches torn s a) (hred : sys.Reducible torn) {action : Action κ β}
    (huntorn : sys.Untorn torn s action) (hstep : sys.step s action = some t) :
    ∃ b, sys.Matches torn t b ∧ Reachable sys.atomicStep a b := by
  cases action with
  | lock k label =>
      simp only [System.step] at hstep
      split at hstep
      · rename_i f p hidle henter
        split at hstep
        · -- nothing is visible of a section that has just begun
          rename_i hfree
          cases hstep
          exact ⟨a, h.lock hred hidle henter hfree, .initial⟩
        · cases hstep
      · cases hstep
  | advance k =>
      simp only [System.step] at hstep
      split at hstep
      · rename_i f next hk
        cases hstep
        exact ⟨a, h.read hk, .initial⟩
      · rename_i f content next hk
        cases hstep
        exact h.write hk
      · cases hstep
  | unlock k =>
      simp only [System.step] at hstep
      split at hstep
      · rename_i f l hk
        cases hstep
        exact h.done hk
      · cases hstep
  | look k =>
      simp only [System.step] at hstep
      split at hstep
      · rename_i f see hidle hlook
        cases hstep
        have hseen := h.content_eq hidle hlook (huntorn _ hlook)
        refine ⟨_, h.outside hidle (see (s.content f)) s.shared,
          Reachable.initial.step (.look k) ?_⟩
        simp only [atomicStep, h.idle k hidle, hlook, hseen, ← h.shared, Option.map_some]
      · cases hstep
  | act k label =>
      simp only [System.step] at hstep
      split at hstep
      · rename_i l shared hidle hact
        cases hstep
        refine ⟨_, h.outside hidle l shared, Reachable.initial.step (.act k label) ?_⟩
        simp only [atomicStep, h.idle k hidle, h.shared, hact, Option.map_some]
      · cases hstep

/-- A look of a process, seen between the sections. -/
theorem Matches.look (h : sys.Matches torn s a) (huntorn : sys.Untorn torn s (.look k : Action κ β))
    (hstep : sys.step s (.look k) = some t) :
    ∃ f see, sys.look k (a.locals k) = some (f, see) ∧ a.locals k = s.locals k ∧
      t.locals k = see (a.content f) := by
  simp only [System.step] at hstep
  split at hstep
  · rename_i f see hidle hlook
    cases hstep
    refine ⟨f, see, ?_, h.idle k hidle, ?_⟩
    · rw [h.idle k hidle]
      exact hlook
    · rw [h.content_eq hidle hlook (huntorn _ hlook)]
      exact Function.update_self ..
  · cases hstep

/-- When no content is torn, every run is one of the reduction. -/
theorem reachable_untorn {init : State κ φ δ Γ L} (h : Reachable sys.step init s) :
    Reachable (restrict (sys.Untorn fun _ => False) sys.step) init s :=
  h.invariant .initial fun _ action _ _ ih hstep => ih.step action <| restrict_eq_some.mpr
    ⟨by cases action <;> simp [Untorn], hstep⟩

/-- **Reduction.**  What single reads and writes reach without a look at a torn content, the
sections reach in one step each. -/
theorem reduction [DecidablePred torn] (hred : sys.Reducible torn)
    (h : Reachable (restrict (sys.Untorn torn) sys.step) (start a) s) :
    ∃ b, sys.Matches torn s b ∧ Reachable sys.atomicStep a b :=
  h.simulation (Matches.start a) fun _ _ _ _ hmatches _ hstep =>
    hmatches.step hred (restrict_eq_some.mp hstep).1 (restrict_eq_some.mp hstep).2

end Reduction

end System

end LockedFile
