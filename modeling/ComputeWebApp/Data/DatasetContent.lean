import ComputeWebApp.Data.Wire
import ComputeWebApp.Library.Transition

/-!
# The content of a dataset

A dataset stands for one content: the buffer that was retained last, as long as it has not been
released, and otherwise what its file holds (`Content`).  `Dataset` has no flag for a retained
buffer and takes an empty one for none.  So a step keeps to the content unless it retains or
persists an empty buffer while the file is not empty (`Meets`): then the file shows where the
retained buffer should, or is emptied (`content_iff`).

A worker that retains its result, persists it and releases it before it is pushed is safe for
every buffer (`push_persisted`).
-/

namespace ComputeWebApp.Data.DatasetContent

open Transition ByteStream

/-! ## What a dataset is for -/

structure Content where
  retained : Option Bytes
  file : Bytes
  deriving DecidableEq, Repr

/-- What `RetrieveBuffer` has to return. -/
def Content.current (content : Content) : Bytes := content.retained.getD content.file

/-- The calls on a dataset.  Between them the files of `others` change, but not the one of the
dataset. -/
inductive Action
  | retainBuffer (buffer : Bytes)
  | releaseBuffer
  | persist
  | retrieveBufferFromFile (filename : Bytes)
  | others (rest : Files)

/-- What an action makes of the content, where `read` is what the file that it reads holds. -/
def Content.act (content : Content) (read : Option Bytes) : Action → Content
  | .retainBuffer buffer => { content with retained := some buffer }
  | .releaseBuffer => { content with retained := none }
  | .persist => { content with file := content.current }
  | .retrieveBufferFromFile _ =>
      match read with
      | some buffer => { content with retained := some buffer }
      | none => content
  | .others _ => content

/-- Persisting does not change what is retrieved. -/
theorem Content.current_persist (content : Content) (read : Option Bytes) :
    (content.act read .persist).current = content.current := by
  show content.retained.getD (content.retained.getD content.file) = _
  cases h : content.retained <;> simp [Content.current, h]

/-! ## The dataset and its file -/

/-- A call that throws leaves the dataset as it was. -/
def act (files : Files) (dataset : Dataset) : Action → Option (Files × Dataset)
  | .retainBuffer buffer => some (files, dataset.retainBuffer buffer)
  | .releaseBuffer => some (files, dataset.releaseBuffer)
  | .persist => (dataset.persist files).map fun files => (files, dataset)
  | .retrieveBufferFromFile filename =>
      match dataset.retrieveBufferFromFile files filename with
      | .ok dataset => some (files, dataset)
      | .error _ => some (files, dataset)
  | .others rest =>
      some (fun name => if dataset.getFilename = some name then files name else rest name, dataset)

/-- The files, the dataset, and the content that it should have. -/
structure State where
  files : Files
  dataset : Dataset
  content : Content

/-- What the file holds that an action reads. -/
def State.read (s : State) : Action → Option Bytes
  | .retrieveBufferFromFile filename =>
      if s.dataset.getFilename = some filename then some s.content.file else s.files filename
  | _ => none

def step (s : State) (a : Action) : Option State :=
  (act s.files s.dataset a).map fun (files, dataset) =>
    ⟨files, dataset, s.content.act (s.read a) a⟩

/-- The file of the dataset. -/
def State.file (s : State) : Option Bytes := s.dataset.getFilename.bind s.files

/-- `RetrieveBuffer` returns the content, `GetSize` measures it, and the file holds what was
persisted. -/
structure Agrees (s : State) : Prop where
  retrieveBuffer : s.dataset.retrieveBuffer s.files = .ok s.content.current
  getSize : s.dataset.getSize s.files = .ok s.content.current.length
  file : s.file = some s.content.file

/-- The buffer that an action retains or persists. -/
def State.handled (s : State) : Action → Option Bytes
  | .retainBuffer buffer => some buffer
  | .persist => some s.dataset.buffer
  | .retrieveBufferFromFile filename => s.files filename
  | _ => none

/-- An empty buffer is retained or persisted only while the file is empty. -/
def Meets (s : State) (a : Action) : Prop :=
  ∀ buffer ∈ s.handled a, buffer ≠ [] ∨ s.file = some []

instance (s : State) (a : Action) : Decidable (Meets s a) :=
  inferInstanceAs (Decidable (∀ buffer ∈ s.handled a, _))

/-! ## One step -/

/-- What a dataset with this buffer and this file is taken to hold. -/
def held (buffer file : Bytes) : Bytes := if buffer = [] then file else buffer

theorem held_eq_buffer_iff {buffer file : Bytes} :
    held buffer file = buffer ↔ buffer ≠ [] ∨ file = [] := by
  unfold held
  split
  · rename_i h
    simp [h]
  · rename_i h
    exact iff_of_true rfl (.inl h)

theorem retrieveBuffer_eq {files : Files} {dataset : Dataset} {filename file : Bytes}
    (hname : dataset.getFilename = some filename) (hfile : files filename = some file) :
    dataset.retrieveBuffer files = .ok (held dataset.buffer file) := by
  unfold Dataset.retrieveBuffer held
  by_cases h : dataset.buffer = []
  · rw [if_neg (not_not.mpr h), if_pos h, hname]
    simp only [Dataset.readWhole, hfile]
  · rw [if_pos h, if_neg h]

/-- The parts of `Agrees` in terms of the buffer and the file. -/
theorem agrees_iff {files : Files} {dataset : Dataset} {content : Content} {filename file : Bytes}
    (hname : dataset.getFilename = some filename) (hfile : files filename = some file) :
    Agrees ⟨files, dataset, content⟩ ↔
      held dataset.buffer file = content.current ∧ file = content.file := by
  have hretrieve := retrieveBuffer_eq hname hfile
  have hown : dataset.getFilename.bind files = some file := by
    rw [hname, Option.bind_some, hfile]
  constructor
  · intro h
    exact ⟨Except.ok.inj (hretrieve.symm.trans h.retrieveBuffer),
      Option.some.inj (hown.symm.trans h.file)⟩
  · rintro ⟨hheld, heq⟩
    have hcurrent := hretrieve.trans (congrArg Except.ok hheld)
    exact ⟨hcurrent, Dataset.getSize_of_retrieveBuffer hcurrent, hown.trans (congrArg some heq)⟩

/-- An action that handles a buffer leads to the content if it is held in front of the file. -/
theorem meets_iff {s : State} {a : Action} {buffer file : Bytes} (hfile : s.file = some file)
    (hhandled : s.handled a = some buffer) : Meets s a ↔ held buffer file = buffer := by
  rw [Meets, hhandled, hfile, held_eq_buffer_iff]
  simp

theorem meets_of_none {s : State} {a : Action} (h : s.handled a = none) : Meets s a := by
  rw [Meets, h]
  exact fun _ hmem => nomatch hmem

/-- The dataset reads its own file as it should be. -/
theorem read_eq {s : State} (h : Agrees s) (source : Bytes) :
    s.read (.retrieveBufferFromFile source) = s.files source := by
  obtain ⟨filename, hname, hfile⟩ := Option.bind_eq_some_iff.mp h.file
  show (if s.dataset.getFilename = some source then some s.content.file else s.files source) = _
  split
  · rename_i heq
    rw [← Option.some.inj (hname.symm.trans heq), hfile]
  · rfl

/-- **One step.**  From a state in which the dataset has its content, the next one does if and only
if the step meets the condition. -/
theorem agrees_step_iff {s t : State} {a : Action} (h : Agrees s) (hstep : step s a = some t) :
    Agrees t ↔ Meets s a := by
  obtain ⟨filename, hname, hfile⟩ := Option.bind_eq_some_iff.mp h.file
  obtain ⟨hheld, -⟩ := (agrees_iff hname hfile).mp h
  obtain ⟨⟨files, dataset⟩, hact, rfl⟩ := Option.map_eq_some_iff.mp hstep
  dsimp only
  cases a with
  | retainBuffer buffer =>
      cases hact
      refine Iff.trans (agrees_iff hname hfile) ?_
      rw [meets_iff h.file rfl]
      exact and_iff_left rfl
  | releaseBuffer =>
      cases hact
      refine Iff.trans (agrees_iff hname hfile) ?_
      exact iff_of_true ⟨rfl, rfl⟩ (meets_of_none rfl)
  | persist =>
      obtain ⟨files', hpersist, heq⟩ := Option.map_eq_some_iff.mp hact
      cases heq
      rw [Dataset.persist, hname] at hpersist
      cases hpersist
      -- the buffer is now in the file as well
      refine Iff.trans (agrees_iff hname (Function.update_self ..)) ?_
      rw [meets_iff h.file rfl, hheld, s.content.current_persist]
      -- both parts say that the buffer is the content
      have hbuffer : held s.dataset.buffer s.dataset.buffer = s.dataset.buffer :=
        held_eq_buffer_iff.mpr (or_not_of_imp id).symm
      show held s.dataset.buffer s.dataset.buffer = s.content.current ∧
        s.dataset.buffer = s.content.current ↔ s.content.current = s.dataset.buffer
      rw [hbuffer, and_self, eq_comm]
  | retrieveBufferFromFile source =>
      rw [read_eq h]
      cases hread : s.files source with
      | none =>
          have herror : s.dataset.retrieveBufferFromFile s.files source = .error .lengthError := by
            simp only [Dataset.retrieveBufferFromFile, Dataset.readWhole, hread, Except.map]
          simp only [act, herror] at hact
          cases hact
          exact iff_of_true h (meets_of_none hread)
      | some buffer =>
          have hok : s.dataset.retrieveBufferFromFile s.files source =
              .ok (s.dataset.retainBuffer buffer) := by
            simp only [Dataset.retrieveBufferFromFile, Dataset.readWhole, hread, Except.map,
              Dataset.retainBuffer]
          simp only [act, hok] at hact
          cases hact
          refine Iff.trans (agrees_iff hname hfile) ?_
          have hhandled : s.handled (.retrieveBufferFromFile source) = some buffer := hread
          rw [meets_iff h.file hhandled]
          exact and_iff_left rfl
  | others rest =>
      cases hact
      refine Iff.trans (agrees_iff hname ((if_pos hname).trans hfile)) ?_
      exact iff_of_true ⟨hheld, rfl⟩ (meets_of_none rfl)

/-! ## Runs -/

/-- The content of a dataset when nothing else is known about it. -/
def contentOf (dataset : Dataset) (file : Bytes) : Content :=
  ⟨if dataset.buffer = [] then none else some dataset.buffer, file⟩

theorem agrees_contentOf {files : Files} {dataset : Dataset} {filename file : Bytes}
    (hname : dataset.getFilename = some filename) (hfile : files filename = some file) :
    Agrees ⟨files, dataset, contentOf dataset file⟩ := by
  refine (agrees_iff hname hfile).mpr ⟨?_, rfl⟩
  unfold held Content.current contentOf
  split <;> rfl

/-- The dataset has its content in every state of a run, and persisting writes what is retrieved,
before and after. -/
structure Keeps (s : State) (actions : List Action) : Prop where
  agrees : ∀ front u, front <+: actions → run step s front = some u → Agrees u
  persist : ∀ front u v, front ++ [.persist] <+: actions → run step s front = some u →
    step u .persist = some v →
      v.dataset.retrieveBuffer v.files = u.dataset.retrieveBuffer u.files ∧
      v.file = (u.dataset.retrieveBuffer u.files).toOption

/-- The second part is about two states that have their content. -/
theorem keeps_of_agrees {s : State} {actions : List Action}
    (h : ∀ front u, front <+: actions → run step s front = some u → Agrees u) : Keeps s actions := by
  refine ⟨h, fun front u v hfront hrun hstep => ?_⟩
  have hu := h front u ((List.prefix_append front [Action.persist]).trans hfront) hrun
  have hv : Agrees v := by
    refine h _ v hfront ?_
    rw [run_append, hrun, Option.bind_some, run, hstep, Option.bind_some, run_nil]
  obtain ⟨⟨files, dataset⟩, -, rfl⟩ := Option.map_eq_some_iff.mp hstep
  have hcurrent := hu.retrieveBuffer.trans
    (congrArg Except.ok (u.content.current_persist (u.read .persist)).symm)
  refine ⟨hv.retrieveBuffer.trans hcurrent.symm, ?_⟩
  rw [hu.retrieveBuffer]
  exact hv.file

/-- Every action can be taken as long as the dataset is attached to a data. -/
theorem exists_step {s : State} {filename : Bytes} (hname : s.dataset.getFilename = some filename)
    (a : Action) : ∃ t, step s a = some t ∧ t.dataset.getFilename = some filename := by
  unfold step
  cases a with
  | retainBuffer buffer => exact ⟨_, rfl, hname⟩
  | releaseBuffer => exact ⟨_, rfl, hname⟩
  | persist =>
      rw [act, Dataset.persist, hname]
      exact ⟨_, rfl, hname⟩
  | retrieveBufferFromFile source =>
      cases hread : s.dataset.retrieveBufferFromFile s.files source with
      | error exception =>
          simp only [act, hread]
          exact ⟨_, rfl, hname⟩
      | ok dataset =>
          obtain ⟨buffer, -, rfl⟩ := Dataset.retrieveBufferFromFile_eq_ok hread
          simp only [act, hread]
          exact ⟨_, rfl, hname⟩
  | others rest => exact ⟨_, rfl, hname⟩

theorem exists_run {filename : Bytes} (actions : List Action) :
    ∀ {s : State}, s.dataset.getFilename = some filename → ∃ t, run step s actions = some t := by
  induction actions with
  | nil => exact fun {s} _ => ⟨s, rfl⟩
  | cons a rest ih =>
      intro s hname
      obtain ⟨u, hu, hname'⟩ := exists_step hname a
      obtain ⟨t, ht⟩ := ih hname'
      exact ⟨t, by rw [run, hu, Option.bind_some, ht]⟩

/-- **Runs.**  A dataset with a file keeps its content in a run if and only if an empty buffer is
retained or persisted only while the file is empty. -/
theorem content_iff {files : Files} {dataset : Dataset} {filename file : Bytes}
    (hname : dataset.getFilename = some filename) (hfile : files filename = some file)
    (actions : List Action) :
    Keeps ⟨files, dataset, contentOf dataset file⟩ actions ↔
      ∃ t, run (restrict Meets step) ⟨files, dataset, contentOf dataset file⟩ actions = some t := by
  obtain ⟨t, hrun⟩ := exists_run (s := ⟨files, dataset, contentOf dataset file⟩) actions hname
  have hprefixes := prefixes_restrict_iff (fun _ _ _ => agrees_step_iff)
    (agrees_contentOf hname hfile) hrun
  constructor
  · exact fun hkeeps => ⟨t, hprefixes.mp hkeeps.agrees⟩
  · rintro ⟨t', hmeets⟩
    obtain rfl : t' = t := Option.some.inj ((run_of_restrict hmeets).symm.trans hrun)
    exact keeps_of_agrees (hprefixes.mpr hmeets)

/-- A worker that persists and releases its result pushes the result, the empty one included. -/
theorem push_persisted {dataset : Dataset} {filename : Bytes}
    (hname : dataset.getFilename = some filename) (files : Files) (buffer : Bytes) (datasetId : ℕ) :
    ∃ files', (dataset.retainBuffer buffer).persist files = some files' ∧
      datasetFrame files' (dataset.retainBuffer buffer).releaseBuffer datasetId =
        .ok [word 4 datasetId, word 4 (buffer.length % 2 ^ 32), buffer] := by
  refine ⟨Function.update files filename (some buffer), ?_, ?_⟩
  · rw [Dataset.persist, show (dataset.retainBuffer buffer).getFilename = _ from hname]
    rfl
  · have hfile : Function.update files filename (some buffer) filename = some buffer :=
      Function.update_self ..
    have hretrieve := (retrieveBuffer_eq
      (show (dataset.retainBuffer buffer).releaseBuffer.getFilename = _ from hname) hfile).trans
      (congrArg Except.ok (if_pos rfl))
    simp only [datasetFrame, Dataset.getSize_of_retrieveBuffer hretrieve, hretrieve, bind,
      Except.bind, pure, Except.pure]

/-- A dataset `a` of the data `d` whose file holds one byte. -/
def oneByte : State :=
  let dataset : Dataset := { id := ascii "a", data := some (ascii "d") }
  ⟨fun filename => if filename = ascii "d/a.raw" then some [1] else none, dataset,
    contentOf dataset [1]⟩

/-- What a worker does with a dataset. -/
theorem content_iff_worker :
    Keeps oneByte [.retainBuffer [2, 3], .persist, .releaseBuffer] :=
  (content_iff (show oneByte.dataset.getFilename = some (ascii "d/a.raw") from rfl)
    (show oneByte.files (ascii "d/a.raw") = some [1] from rfl) _).mpr
    (Option.isSome_iff_exists.mp rfl)

/-- A dataset without a buffer that is persisted loses the content of its file, and with an empty
buffer retained it returns the content of its file. -/
theorem persist_loses_file :
    ¬Keeps oneByte [.persist] ∧ ¬Keeps oneByte [.retainBuffer []] ∧
      (run step oneByte [.persist]).map State.file = some (some []) := by
  refine ⟨fun h => ?_, fun h => ?_, rfl⟩
  · have hagrees := (h.agrees [.persist] _ List.prefix_rfl rfl).retrieveBuffer
    exact absurd hagrees (by decide)
  · have hagrees := (h.agrees [.retainBuffer []] _ List.prefix_rfl rfl).retrieveBuffer
    exact absurd hagrees (by decide)

end ComputeWebApp.Data.DatasetContent
