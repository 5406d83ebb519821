import ComputeWebApp.Upload.Repost
import ComputeWebApp.Upload.TaskDone
import ComputeWebApp.Upload.Written

/-!
# With and without ZMQ

The same items are put to the write queue of a server with ZMQ and of one without it, a value as
soon as its file is there.  The workers come to rest in any case (`exists_rest`).  When the items
are valid and regular, every item is handled without an exception, so that `join` returns for each
creation and nothing is left at rest (`AtRest.drained`); what is on disk then depends on the items
alone (`Holds.onDisk_eq`), and not on the way they have gone.
-/

namespace ComputeWebApp.Api

open Transition

/-! ## Sequences of items -/

/-- The items of a data, in order. -/
def itemsOf (dataId : String) (items : List QueueItem) : List Item :=
  (items.filter fun queueItem => queueItem.dataId = dataId).map QueueItem.item

/-- The items of one data: its creation comes first, and each group is posted at most once. -/
inductive ValidItems : List Item → Prop
  | nothing : ValidItems []
  | posted {data : Creation} {values : List Item} (creatable : data.Creatable)
      (accepted : ∀ item ∈ values, data.Accepts item) (once : PostedOnce values) :
      ValidItems (.creation data :: values)

def ValidSequence (items : List QueueItem) : Prop :=
  ∀ dataId, ValidItems (itemsOf dataId items)

/-- No posted attribute has the name of a flag, and no body is put for a data without an echo
time. -/
def RegularItems (items : List Item) : Prop :=
  ∀ data, .creation data ∈ items → (∀ name ∈ flagNames, data.Avoids name) ∧
    ∀ item ∈ items, item.isBody = true → data.shape.echos ≠ 0

def RegularSequence (items : List QueueItem) : Prop :=
  ∀ dataId, RegularItems (itemsOf dataId items)

section Sequences

variable {data : Creation} {items rest : List Item} {item : Item} {first second : List QueueItem}
  {dataId : String}

theorem itemsOf_append (dataId : String) (first second : List QueueItem) :
    itemsOf dataId (first ++ second) = itemsOf dataId first ++ itemsOf dataId second := by
  simp [itemsOf]

theorem itemsOf_perm (hperm : first.Perm second) (dataId : String) :
    (itemsOf dataId first).Perm (itemsOf dataId second) :=
  (hperm.filter _).map _

theorem itemsOf_cons_self (queueItem : QueueItem) (items : List QueueItem) :
    itemsOf queueItem.dataId (queueItem :: items) =
      queueItem.item :: itemsOf queueItem.dataId items := by
  simp [itemsOf]

theorem itemsOf_cons_of_ne {queueItem : QueueItem} (h : queueItem.dataId ≠ dataId)
    (items : List QueueItem) : itemsOf dataId (queueItem :: items) = itemsOf dataId items := by
  simp [itemsOf, h]

theorem Creation.Accepts.not_creation (h : data.Accepts item) : item.isCreation = false := by
  obtain ⟨posted, rfl, -⟩ := h
  cases posted <;> rfl

/-- Wherever the creation is among valid items, the others are values of its data. -/
theorem ValidItems.of_perm (h : ValidItems items) (hperm : items.Perm (.creation data :: rest)) :
    data.Creatable ∧ (∀ item ∈ rest, data.Accepts item) ∧ PostedOnce rest := by
  cases h with
  | nothing => exact absurd hperm.length_eq (by simp)
  | posted creatable accepted once =>
      rename_i data' values
      have hmem : Item.creation data ∈ Item.creation data' :: values :=
        hperm.mem_iff.mpr List.mem_cons_self
      rcases List.mem_cons.mp hmem with heq | hmem
      · cases heq
        have hvalues := hperm.cons_inv
        exact ⟨creatable, fun item hitem => accepted item (hvalues.mem_iff.mpr hitem),
          once.perm hvalues⟩
      · exact absurd (accepted _ hmem).not_creation (by simp [Item.isCreation])

theorem ValidItems.of_append (h : ValidItems (items ++ rest)) : ValidItems items := by
  cases items with
  | nil => exact .nothing
  | cons item values =>
      cases h with
      | posted creatable accepted once =>
          exact .posted creatable (fun item hmem => accepted item (List.mem_append_left _ hmem))
            (List.pairwise_append.mp once).1

theorem RegularItems.of_append (h : RegularItems (items ++ rest)) : RegularItems items :=
  fun data hmem => ⟨(h data (List.mem_append_left _ hmem)).1, fun item hitem =>
    (h data (List.mem_append_left _ hmem)).2 item (List.mem_append_left _ hitem)⟩

theorem ValidSequence.of_append (h : ValidSequence (first ++ second)) : ValidSequence first :=
  fun dataId => ValidItems.of_append (itemsOf_append dataId first second ▸ h dataId)

theorem RegularSequence.of_append (h : RegularSequence (first ++ second)) : RegularSequence first :=
  fun dataId => RegularItems.of_append (itemsOf_append dataId first second ▸ h dataId)

end Sequences

/-! ## The files of a data -/

/-- What handling some items of a data has left, the last item being the first one of the list. -/
inductive Holds (keepFilesOpen : Bool) : List Item → DataFiles → Prop
  | untouched : Holds keepFilesOpen [] {}
  | created (created : Created keepFilesOpen) {values handled : List Item} {s : DataState}
      (stands : Stands created values s) (last : handled = values ++ [.creation created.data]) :
      Holds keepFilesOpen handled ⟨s, none⟩

section Files

variable {keepFilesOpen : Bool} {items handled rest : List Item} {item : Item} {files : DataFiles}

theorem Holds.isSome_h5 (h : Holds keepFilesOpen handled files) (hhandled : handled ≠ []) :
    files.current.h5.isSome = true := by
  cases h with
  | untouched => exact absurd rfl hhandled
  | created created stands last => exact stands.h5

/-- **Step.**  The next item of valid ones is handled without an exception. -/
theorem Holds.handle (h : Holds keepFilesOpen handled files) (hvalid : ValidItems items)
    (hregular : RegularItems items) (hperm : items.Perm (item :: (handled ++ rest)))
    (havailable : item.isCreation = false → files.current.h5.isSome = true) :
    ∃ files', files.handle keepFilesOpen item = (.done, files') ∧
      Holds keepFilesOpen (item :: handled) files' := by
  cases h with
  | untouched =>
      -- nothing but the creation can come first
      cases item with
      | body groupIds content => exact absurd (havailable rfl) (by simp)
      | attributes entries => exact absurd (havailable rfl) (by simp)
      | creation data =>
          obtain ⟨creatable, -, -⟩ := hvalid.of_perm hperm
          have havoids := (hregular data (hperm.mem_iff.mpr List.mem_cons_self)).1
          have hreturns : Returns (handleItem keepFilesOpen (.creation data)) {} :=
            (returns_creation_iff data).mpr ⟨creatable, rfl⟩
          obtain ⟨_, t, hrun⟩ := hreturns
          have hstands := Created.stands ⟨data, t, hrun⟩ havoids
          exact ⟨_, DataFiles.handle_creation hrun, .created _ hstands rfl⟩
  | created created stands last =>
      rename_i values s
      subst last
      have hcreation : items.Perm (.creation created.data :: (item :: (values ++ rest))) := by
        refine hperm.trans ?_
        simp only [List.append_assoc, List.singleton_append]
        exact (List.perm_middle.cons item).trans (.swap ..)
      obtain ⟨-, haccepted, honce⟩ := hvalid.of_perm hcreation
      have hitem := haccepted item List.mem_cons_self
      obtain ⟨-, hechos⟩ := hregular created.data (hcreation.mem_iff.mpr List.mem_cons_self)
      obtain ⟨t, hrun, hstands⟩ := stands.step hitem
        (hechos item (hperm.mem_iff.mpr List.mem_cons_self))
        (honce.sublist ((List.sublist_append_left values rest).cons_cons item))
      exact ⟨_, DataFiles.handle_value hitem.not_creation hrun, .created created hstands rfl⟩

/-- What is on disk depends on the items alone. -/
theorem Holds.onDisk_eq {keepFilesOpen' : Bool} {handled' : List Item} {files' : DataFiles}
    (h : Holds keepFilesOpen handled files) (h' : Holds keepFilesOpen' handled' files')
    (hvalid : ValidItems items) (hperm : items.Perm handled) (hperm' : items.Perm handled') :
    files.current.onDisk = files'.current.onDisk := by
  have hsame := hperm.symm.trans hperm'
  cases h with
  | untouched =>
      cases h' with
      | untouched => rfl
      | created created' stands' last' =>
          subst last'
          exact absurd hsame.length_eq (by simp)
  | created created stands last =>
      rename_i values s
      subst last
      cases h' with
      | untouched => exact absurd hsame.length_eq (by simp)
      | created created' stands' last' =>
          rename_i values' s'
          subst last'
          have hfirst : items.Perm (.creation created.data :: values) :=
            hperm.trans (List.perm_append_singleton ..)
          have hsecond : items.Perm (.creation created'.data :: values') :=
            hperm'.trans (List.perm_append_singleton ..)
          obtain ⟨-, haccepted, honce⟩ := hvalid.of_perm hfirst
          -- the creation of the second list is not a value of the first one
          have hdata : created.data = created'.data := by
            have hmem := (hfirst.symm.trans hsecond).mem_iff.mpr List.mem_cons_self
            rcases List.mem_cons.mp hmem with heq | hmem
            · exact (Item.creation.inj heq).symm
            · exact absurd (haccepted _ hmem).not_creation (by simp [Item.isCreation])
          have hvalues := hfirst.symm.trans hsecond
          rw [hdata] at hvalues
          exact stands.onDisk_eq stands' hdata honce hvalues.cons_inv

end Files

/-! ## The workers -/

namespace WriteState

/-- A step of one of the workers or of the write process; `send` does not raise. -/
def work (config : WriteConfig) (s : WriteState) : WriteAction → Option WriteState
  | .put _ => none
  | .remove _ => none
  | .sendRaises => none
  | action => s.step config action

/-- No worker can go on. -/
def AtRest (config : WriteConfig) (s : WriteState) : Prop := ∀ action, s.work config action = none

/-- An item comes closer to its end with every step. -/
def remaining (s : WriteState) : ℕ :=
  5 * s.front.length + s.forwarding.toList.length + 3 * s.message.toList.length +
    2 * s.queue.length + s.busy.toList.length + if s.stuck = true then 0 else 1

section Work

variable {config : WriteConfig} {s t : WriteState} {action : WriteAction}

theorem work_eq_some (h : s.work config action = some t) :
    s.step config action = some t ∧ (moves action = true ∨ action = .handle) := by
  cases action with
  | put queueItem => cases h
  | remove dataId => cases h
  | sendRaises => cases h
  | forward position => exact ⟨h, .inl rfl⟩
  | receive => exact ⟨h, .inl rfl⟩
  | reply => exact ⟨h, .inl rfl⟩
  | take position => exact ⟨h, .inl rfl⟩
  | handle => exact ⟨h, .inr rfl⟩

theorem remaining_work (h : s.work config action = some t) : t.remaining < s.remaining := by
  obtain ⟨hstep, -⟩ := work_eq_some h
  cases action with
  | put queueItem => cases h
  | remove dataId => cases h
  | sendRaises => cases h
  | forward position =>
      obtain ⟨hidle, queueItem, rest, hget, rfl⟩ := step_forward hstep
      have hlength := (PriorityQueue.perm_of_get hget).length_eq
      simp only [remaining, hidle, List.length_cons, Option.toList_none, Option.toList_some,
        List.length_nil] at *
      omega
  | receive =>
      obtain ⟨message, hmessage, rfl⟩ := step_receive hstep
      simp only [remaining, hmessage, List.length_append, List.length_cons, Option.toList_none,
        Option.toList_some, List.length_nil]
      omega
  | reply =>
      obtain ⟨queueItem, hforwarding, -, -, rfl⟩ := step_reply hstep
      simp only [remaining, hforwarding, List.length_cons, Option.toList_none, Option.toList_some,
        List.length_nil]
      omega
  | take position =>
      obtain ⟨hidle, queueItem, rest, hget, rfl⟩ := step_take hstep
      have hlength := (PriorityQueue.perm_of_get hget).length_eq
      simp only [remaining, hidle, List.length_cons, Option.toList_none, Option.toList_some,
        List.length_nil] at *
      omega
  | handle =>
      obtain ⟨hstuck, queueItem, hbusy, rfl⟩ := step_handle hstep
      unfold leave
      split <;>
        simp only [remaining, hbusy, hstuck, List.length_cons, Option.toList_none,
          Option.toList_some, List.length_nil, if_true, Bool.false_eq_true, if_false] <;>
        omega

/-- What it takes for the workers to be at rest. -/
theorem atRest_iff :
    s.AtRest config ↔ s.message = none ∧ (s.busy = none ∨ s.stuck = true) ∧
      (s.busy = none → s.queue = []) ∧ (s.forwarding = none → s.front = []) ∧
        ∀ queueItem ∈ s.forwarding, queueItem.item.isCreation = true ∧ s.unfinished ≠ 0 := by
  constructor
  · intro h
    have hmessage : s.message = none := Option.map_eq_none_iff.mp (h .receive)
    refine ⟨hmessage, ?_, fun hbusy => ?_, fun hforwarding => ?_, fun queueItem hforwarding => ?_⟩
    · have hhandle : s.step config .handle = none := h .handle
      simp only [step] at hhandle
      split at hhandle
      · exact .inr ‹_›
      · exact .inl (Option.map_eq_none_iff.mp hhandle)
    · by_contra hqueue
      obtain ⟨position, queueItem, rest, hget⟩ := PriorityQueue.exists_get QueueItem.priority hqueue
      have htake : s.step config (.take position) = none := h (.take position)
      simp only [step, if_pos hbusy, hget] at htake
      cases htake
    · by_contra hfront
      obtain ⟨position, queueItem, rest, hget⟩ := PriorityQueue.exists_get QueueItem.priority hfront
      have hforward : s.step config (.forward position) = none := h (.forward position)
      simp only [step, if_pos hforwarding, hget] at hforward
      cases hforward
    · have hreply : s.step config .reply = none := h .reply
      simp only [step, Option.mem_def.mp hforwarding, hmessage] at hreply
      split at hreply
      · assumption
      · cases hreply
  · -- each step needs what is not there
    rintro ⟨hmessage, hbusy, hqueue, hfront, hforwarding⟩ action
    refine Option.eq_none_iff_forall_ne_some.mpr fun t hwork => ?_
    obtain ⟨hstep, -⟩ := work_eq_some hwork
    cases action with
    | put queueItem => cases hwork
    | remove dataId => cases hwork
    | sendRaises => cases hwork
    | forward position =>
        obtain ⟨hidle, queueItem, rest, hget, -⟩ := step_forward hstep
        have hmem := (PriorityQueue.get_eq_some hget).1
        rw [hfront hidle] at hmem
        cases hmem
    | receive =>
        obtain ⟨message, hsome, -⟩ := step_receive hstep
        rw [hmessage] at hsome
        cases hsome
    | reply =>
        obtain ⟨queueItem, hsome, -, hjoin, -⟩ := step_reply hstep
        obtain ⟨hcreation, hunfinished⟩ := hforwarding queueItem hsome
        exact hunfinished (hjoin hcreation)
    | take position =>
        obtain ⟨hidle, queueItem, rest, hget, -⟩ := step_take hstep
        have hmem := (PriorityQueue.get_eq_some hget).1
        rw [hqueue hidle] at hmem
        cases hmem
    | handle =>
        obtain ⟨hstuck, queueItem, hsome, -⟩ := step_handle hstep
        rcases hbusy with hnone | hspins
        · rw [hnone] at hsome
          cases hsome
        · rw [hstuck] at hspins
          cases hspins

instance (config : WriteConfig) (s : WriteState) : Decidable (s.AtRest config) :=
  decidable_of_iff _ atRest_iff.symm

/-- When every item has been done, nothing is left at rest: `join` has returned for each
creation. -/
theorem AtRest.drained (h : s.AtRest config) (haccounted : s.Accounted) (hdone : s.DoneOnce) :
    s.pending = [] := by
  obtain ⟨hmessage, hbusy, hqueue, hfront, hforwarding⟩ := atRest_iff.mp h
  have hidle : s.busy = none := hbusy.resolve_right (by simp [hdone.going])
  have hunfinished : s.unfinished = 0 := by
    rw [haccounted.queue, hqueue hidle, hidle, undone_eq_zero hdone.finished]
    rfl
  have hforwarded : s.forwarding = none :=
    Option.eq_none_iff_forall_not_mem.mpr fun queueItem hmem =>
      (hforwarding queueItem hmem).2 hunfinished
  simp [pending, hmessage, hidle, hqueue hidle, hfront hforwarded]

end Work

end WriteState

/-! ## Runs -/

/-- A server to which `items` have been put, in this order. -/
structure PutState where
  items : List QueueItem := []
  server : WriteState := {}

namespace PutState

/-- A creation is put at any time, and a value when the file of its data exists. -/
def step (config : WriteConfig) (s : PutState) : WriteAction → Option PutState
  | .put queueItem =>
      if queueItem.item.isCreation || s.server.available queueItem.dataId then
        some ⟨s.items ++ [queueItem], s.server.put config queueItem⟩
      else none
  | action => (s.server.work config action).map fun server => { s with server := server }

/-- Every item is in its place or has been done, and each data holds what its items that have been
done write. -/
structure Agreed (config : WriteConfig) (s : PutState) : Prop where
  placed : s.server.Placed
  accounted : s.server.Accounted
  doneOnce : s.server.DoneOnce
  kept : (s.server.pending ++ s.server.finished.map Prod.fst).Perm s.items
  available : ∀ queueItem ∈ s.server.pending, queueItem.item.isCreation = false →
    s.server.available queueItem.dataId = true
  holds : ∀ dataId, Holds config.keepFilesOpen
    (itemsOf dataId (s.server.finished.map Prod.fst)) (s.server.files dataId)

section Run

variable {config : WriteConfig} {s t : PutState} {action : WriteAction}

theorem step_cases (h : s.step config action = some t) :
    (∃ queueItem, (queueItem.item.isCreation = true ∨
        s.server.available queueItem.dataId = true) ∧
      t = ⟨s.items ++ [queueItem], s.server.put config queueItem⟩) ∨
    ∃ server, s.server.work config action = some server ∧ t = { s with server := server } := by
  unfold step at h
  split at h
  · split at h
    · rename_i queueItem hcan
      cases h
      exact .inl ⟨queueItem, by simpa using hcan, rfl⟩
    · cases h
  · obtain ⟨server, hwork, rfl⟩ := Option.map_eq_some_iff.mp h
    exact .inr ⟨server, hwork, rfl⟩

theorem agreed_initial : Agreed config {} where
  placed := WriteState.placed_initial
  accounted := ⟨rfl, rfl⟩
  doneOnce := ⟨nofun, nofun, rfl⟩
  kept := .refl _
  available := nofun
  holds := fun _ => .untouched

/-- An item is put. -/
theorem Agreed.put (h : Agreed config s) {queueItem : QueueItem}
    (hcan : queueItem.item.isCreation = true ∨ s.server.available queueItem.dataId = true) :
    Agreed config ⟨s.items ++ [queueItem], s.server.put config queueItem⟩ := by
  have hstep : s.server.step config (.put queueItem) = some (s.server.put config queueItem) := rfl
  have hpending : (s.server.put config queueItem).pending.Perm (queueItem :: s.server.pending) :=
    WriteState.pending_put queueItem
  have havailable : ∀ dataId, (s.server.put config queueItem).available dataId =
      s.server.available dataId := by
    intro dataId
    simp only [WriteState.available, WriteState.files_put, WriteState.busy_put]
  refine ⟨h.placed.put _, h.accounted.step hstep,
    (WriteState.doneOnce_step_iff hstep).mpr ⟨h.doneOnce, trivial⟩, ?_, ?_, ?_⟩
  · rw [WriteState.finished_put]
    exact (hpending.append_right _).trans ((h.kept.cons queueItem).trans
      (List.perm_append_singleton ..).symm)
  · intro other hmem hvalue
    rw [havailable]
    rcases List.mem_cons.mp (hpending.mem_iff.mp hmem) with rfl | hmem
    · exact hcan.resolve_left (by simp [hvalue])
    · exact h.available other hmem hvalue
  · rw [WriteState.finished_put, WriteState.files_put]
    exact h.holds

/-- A data stays available while items move. -/
theorem available_of_moves {s t : WriteState} (hmoves : WriteState.moves action = true)
    (hstep : s.step config action = some t) {dataId : String} (h : s.available dataId = true) :
    t.available dataId = true := by
  have hkept : t.files = s.files → t.busy = s.busy → t.available dataId = true := by
    intro hfiles hbusy
    rw [WriteState.available, hfiles, hbusy]
    exact h
  cases action with
  | put queueItem => cases hmoves
  | remove dataId => cases hmoves
  | sendRaises => cases hmoves
  | handle => cases hmoves
  | forward position =>
      obtain ⟨-, queueItem, rest, -, rfl⟩ := WriteState.step_forward hstep
      exact hkept rfl rfl
  | receive =>
      obtain ⟨message, -, rfl⟩ := WriteState.step_receive hstep
      exact hkept rfl rfl
  | reply =>
      obtain ⟨queueItem, -, -, -, rfl⟩ := WriteState.step_reply hstep
      exact hkept rfl rfl
  | take position =>
      -- nothing was being created
      obtain ⟨hidle, queueItem, rest, -, rfl⟩ := WriteState.step_take hstep
      refine WriteState.available_iff.mpr (.inl ?_)
      rcases WriteState.available_iff.mp h with hfile | ⟨other, hother, -⟩
      · exact hfile
      · rw [hidle] at hother
        cases hother

theorem Agreed.move (h : Agreed config s) {server : WriteState}
    (hmoves : WriteState.moves action = true)
    (hstep : s.server.step config action = some server) :
    Agreed config { s with server := server } := by
  obtain ⟨hpending, hfiles, hfinished⟩ := WriteState.step_moves h.placed hstep hmoves
  have hcompleting : WriteState.Completing config s.server action := by
    cases action with
    | handle => cases hmoves
    | sendRaises => cases hmoves
    | remove dataId => cases hmoves
    | put queueItem => trivial
    | forward position => trivial
    | receive => trivial
    | reply => trivial
    | take position => trivial
  refine ⟨h.placed.step hstep, h.accounted.step hstep,
    (WriteState.doneOnce_step_iff hstep).mpr ⟨h.doneOnce, hcompleting⟩, ?_, ?_, ?_⟩
  · rw [hfinished]
    exact (hpending.append_right _).trans h.kept
  · intro queueItem hmem hvalue
    exact available_of_moves hmoves hstep
      (h.available queueItem (hpending.mem_iff.mp hmem) hvalue)
  · rw [hfinished, hfiles]
    exact h.holds

/-- The item that is handled is the next one of its data. -/
theorem Agreed.handle (h : Agreed config s) (hvalid : ValidSequence s.items)
    (hregular : RegularSequence s.items) {server : WriteState}
    (hstep : s.server.step config .handle = some server) :
    Agreed config { s with server := server } := by
  obtain ⟨queueItem, hbusy, hpending, hfiles⟩ := WriteState.pending_handle hstep
  have hmem : queueItem ∈ s.server.pending := hpending.mem_iff.mpr List.mem_cons_self
  have hfile : queueItem.item.isCreation = false →
      (s.server.files queueItem.dataId).current.h5.isSome = true := by
    intro hvalue
    rcases WriteState.available_iff.mp (h.available queueItem hmem hvalue) with
      hfile | ⟨other, hother, -, hcreation⟩
    · exact hfile
    · -- the creation that it waits for would be this item
      rw [hbusy] at hother
      cases hother
      rw [hvalue] at hcreation
      cases hcreation
  have hkept : s.items.Perm (queueItem :: (s.server.finished.map Prod.fst ++ server.pending)) := by
    refine h.kept.symm.trans ((hpending.append_right _).trans ?_)
    exact List.Perm.cons queueItem List.perm_append_comm
  have hperm := itemsOf_perm hkept queueItem.dataId
  rw [itemsOf_cons_self, itemsOf_append] at hperm
  obtain ⟨files, hhandle, hholds⟩ := (h.holds queueItem.dataId).handle
    (hvalid queueItem.dataId) (hregular queueItem.dataId) hperm hfile
  rw [hhandle] at hfiles
  obtain ⟨hfinished, hidle⟩ := WriteState.finished_handle hbusy (by rw [hhandle]) hstep
  have hcompleting : WriteState.Completing config s.server .handle := by
    intro other hother
    rw [hbusy] at hother
    cases hother
    exact (DataFiles.handle_done_iff ..).mp (by rw [hhandle])
  have hholds' : ∀ dataId, Holds config.keepFilesOpen
      (itemsOf dataId (server.finished.map Prod.fst)) (server.files dataId) := by
    intro dataId
    rw [hfinished, hfiles, List.map_cons]
    by_cases hdata : queueItem.dataId = dataId
    · subst hdata
      rw [itemsOf_cons_self, Function.update_self]
      exact hholds
    · rw [itemsOf_cons_of_ne hdata, Function.update_of_ne (Ne.symm hdata)]
      exact h.holds dataId
  refine ⟨h.placed.step hstep, h.accounted.step hstep,
    (WriteState.doneOnce_step_iff hstep).mpr ⟨h.doneOnce, hcompleting⟩, ?_, ?_, hholds'⟩
  · rw [hfinished, List.map_cons]
    exact (List.perm_append_comm.trans (hkept.symm))
  · intro other hother hvalue
    refine WriteState.available_iff.mpr (.inl ?_)
    by_cases hdata : queueItem.dataId = other.dataId
    · rw [hfiles, ← hdata, Function.update_self]
      exact hholds.isSome_h5 (List.cons_ne_nil _ _)
    · rw [hfiles, Function.update_of_ne (Ne.symm hdata)]
      have hbefore := h.available other (hpending.mem_iff.mpr (List.mem_cons_of_mem _ hother)) hvalue
      rcases WriteState.available_iff.mp hbefore with hfile | ⟨busyItem, hbusyItem, hsame, -⟩
      · exact hfile
      · rw [hbusy] at hbusyItem
        cases hbusyItem
        exact absurd hsame hdata

theorem agreed_of_reachable (hreach : Reachable (step config) {} s)
    (hvalid : ValidSequence s.items) (hregular : RegularSequence s.items) : Agreed config s := by
  have hagreed := hreach.invariant
    (P := fun s => ValidSequence s.items → RegularSequence s.items → Agreed config s)
    (fun _ _ => agreed_initial) fun s action t _ ih hstep hvalid hregular => by
      rcases step_cases hstep with ⟨queueItem, hcan, rfl⟩ | ⟨server, hwork, rfl⟩
      · exact (ih hvalid.of_append hregular.of_append).put hcan
      · obtain ⟨hserver, hmoves | rfl⟩ := WriteState.work_eq_some hwork
        · exact (ih hvalid hregular).move hmoves hserver
        · exact (ih hvalid hregular).handle hvalid hregular hserver
  exact hagreed hvalid hregular

theorem step_of_work {server : WriteState} (h : s.server.work config action = some server) :
    s.step config action = some { s with server := server } := by
  cases action with
  | put queueItem => cases h
  | remove dataId => cases h
  | sendRaises => cases h
  | forward position => exact congrArg (Option.map _) h
  | receive => exact congrArg (Option.map _) h
  | reply => exact congrArg (Option.map _) h
  | take position => exact congrArg (Option.map _) h
  | handle => exact congrArg (Option.map _) h

theorem reachable_of_work {items : List QueueItem} {server server' : WriteState}
    (h : Reachable (WriteState.work config) server server') :
    Reachable (step config) ⟨items, server⟩ ⟨items, server'⟩ := by
  induction h with
  | initial => exact .initial
  | step action _ hwork ih => exact ih.step action (step_of_work hwork)

/-- The workers come to rest after any run. -/
theorem exists_atRest_of_reachable {items : List QueueItem} {server : WriteState}
    (hreach : Reachable (step config) {} ⟨items, server⟩) :
    ∃ server', Reachable (step config) {} ⟨items, server'⟩ ∧ server'.AtRest config := by
  obtain ⟨server', hwork, hrest⟩ :=
    exists_rest (fun _ _ _ hstep => WriteState.remaining_work hstep) server
  exact ⟨server', hreach.trans (reachable_of_work hwork), hrest⟩

/-- Once everything has been handled, the next item can be put: the file of its data is there. -/
theorem Agreed.available_of_drained (h : Agreed config s) (hdrained : s.server.pending = [])
    {queueItem : QueueItem} (hvalid : ValidSequence (s.items ++ [queueItem])) :
    queueItem.item.isCreation = true ∨ s.server.available queueItem.dataId = true := by
  have hkept := h.kept
  rw [hdrained, List.nil_append] at hkept
  have hitems := itemsOf_perm hkept queueItem.dataId
  have hnext := hvalid queueItem.dataId
  rw [itemsOf_append, itemsOf_cons_self] at hnext
  by_cases hfirst : itemsOf queueItem.dataId s.items = []
  · rw [hfirst] at hnext
    left
    cases hcreation : queueItem.item with
    | creation data => rfl
    | body groupIds content => rw [hcreation] at hnext; cases hnext
    | attributes entries => rw [hcreation] at hnext; cases hnext
  · refine .inr (WriteState.available_iff.mpr (.inl ((h.holds queueItem.dataId).isSome_h5 ?_)))
    intro hnil
    rw [hnil] at hitems
    exact hfirst hitems.nil_eq.symm

/-- The items can be put one after the other. -/
theorem exists_atRest (config : WriteConfig) {items : List QueueItem} (hvalid : ValidSequence items)
    (hregular : RegularSequence items) :
    ∃ server, Reachable (step config) {} ⟨items, server⟩ ∧ server.AtRest config := by
  induction items using List.reverseRecOn with
  | nil => exact exists_atRest_of_reachable .initial
  | append_singleton items queueItem ih =>
      obtain ⟨server, hreach, hrest⟩ := ih hvalid.of_append hregular.of_append
      have hagreed := agreed_of_reachable hreach hvalid.of_append hregular.of_append
      have hdrained := hrest.drained hagreed.accounted hagreed.doneOnce
      have hcan := hagreed.available_of_drained hdrained hvalid
      have hput : step config ⟨items, server⟩ (.put queueItem) =
          some ⟨items ++ [queueItem], server.put config queueItem⟩ := by
        refine if_pos ?_
        simpa using hcan
      exact exists_atRest_of_reachable (hreach.step _ hput)

/-- At rest every item has been handled, and the files are those of the items. -/
theorem onDisk_eq {config' : WriteConfig} (h : Agreed config s) (h' : Agreed config' t)
    (hitems : s.items = t.items) (hvalid : ValidSequence s.items)
    (hdrained : s.server.pending = []) (hdrained' : t.server.pending = []) (dataId : String) :
    (s.server.files dataId).current.onDisk = (t.server.files dataId).current.onDisk := by
  have hkept := h.kept
  have hkept' := h'.kept
  rw [hdrained, List.nil_append] at hkept
  rw [hdrained', List.nil_append, ← hitems] at hkept'
  exact (h.holds dataId).onDisk_eq (h'.holds dataId) (hvalid dataId)
    (itemsOf_perm hkept.symm dataId) (itemsOf_perm hkept'.symm dataId)

end Run

/-- **With and without ZMQ.**  Valid and regular items are put to a server, with or without ZMQ and
with or without files that are kept open.  Nothing is lost or changed on the way, whatever the
workers do they come to rest, and then every item has been handled and what is on disk of each data
is the same for every server and every run. -/
theorem zmq_agrees_with_direct {items : List QueueItem} (hvalid : ValidSequence items)
    (hregular : RegularSequence items) :
    ∃ disk : String → OnDisk, ∀ config : WriteConfig,
      (∃ server, Reachable (step config) {} ⟨items, server⟩ ∧ server.AtRest config) ∧
      ∀ server, Reachable (step config) {} ⟨items, server⟩ →
        (server.pending ++ server.finished.map Prod.fst).Perm items ∧
        (∃ bound, ∀ actions server', run (WriteState.work config) server actions = some server' →
          actions.length ≤ bound) ∧
        (server.AtRest config → (server.finished.map Prod.fst).Perm items ∧
          ∀ dataId, (server.files dataId).current.onDisk = disk dataId) := by
  obtain ⟨first, hfirst, hend⟩ := exists_atRest ⟨false, false⟩ hvalid hregular
  have hagreed := agreed_of_reachable hfirst hvalid hregular
  refine ⟨fun dataId => (first.files dataId).current.onDisk, fun config =>
    ⟨exists_atRest config hvalid hregular, fun server hreach => ?_⟩⟩
  have hserver := agreed_of_reachable hreach hvalid hregular
  refine ⟨hserver.kept, ⟨server.remaining, fun actions server' hrun =>
    length_le_of_run (fun _ _ _ hstep => WriteState.remaining_work hstep) hrun⟩, fun hrest => ?_⟩
  have hdrained := hrest.drained hserver.accounted hserver.doneOnce
  refine ⟨?_, onDisk_eq hserver hagreed rfl hvalid hdrained
    (hend.drained hagreed.accounted hagreed.doneOnce)⟩
  have hkept := hserver.kept
  rwa [hdrained, List.nil_append] at hkept

/-! ### Examples of sequences -/

/-- The items of one data, as they are put to the queue. -/
def itemsFor (dataId : String) (items : List PrioritizedItem) : List QueueItem :=
  items.map fun item => ⟨dataId, item.priority, item.item⟩

theorem itemsOf_itemsFor (dataId : String) (items : List PrioritizedItem) :
    itemsOf dataId (itemsFor dataId items) = items.map PrioritizedItem.item := by
  simp [itemsOf, itemsFor, List.filter_map, Function.comp_def]

theorem itemsOf_itemsFor_of_ne {dataId other : String} (h : dataId ≠ other)
    (items : List PrioritizedItem) : itemsOf other (itemsFor dataId items) = [] := by
  simp [itemsOf, itemsFor, h]

/-- The items of two data. -/
theorem forall_itemsOf {P : List Item → Prop} (hnothing : P []) {dataId other : String}
    (hne : dataId ≠ other) {first second : List PrioritizedItem}
    (hfirst : P (first.map PrioritizedItem.item)) (hsecond : P (second.map PrioritizedItem.item))
    (id : String) : P (itemsOf id (itemsFor dataId first ++ itemsFor other second)) := by
  rw [itemsOf_append]
  by_cases hid : dataId = id
  · subst hid
    rw [itemsOf_itemsFor, itemsOf_itemsFor_of_ne hne.symm, List.append_nil]
    exact hfirst
  · rw [itemsOf_itemsFor_of_ne hid, List.nil_append]
    by_cases hid' : other = id
    · subst hid'
      rw [itemsOf_itemsFor]
      exact hsecond
    · rw [itemsOf_itemsFor_of_ne hid']
      exact hnothing

/-- The item that an action puts. -/
def putItem : WriteAction → Option QueueItem
  | .put queueItem => some queueItem
  | _ => none

theorem items_step {config : WriteConfig} {s t : PutState} {action : WriteAction}
    (h : s.step config action = some t) : t.items = s.items ++ (putItem action).toList := by
  cases action with
  | put queueItem =>
      simp only [step] at h
      split at h
      · cases h
        rfl
      · cases h
  | remove dataId => cases h
  | sendRaises => cases h
  | _ =>
      obtain ⟨server, -, rfl⟩ := Option.map_eq_some_iff.mp h
      exact (List.append_nil _).symm

theorem items_run {config : WriteConfig} {actions : List WriteAction} {s t : PutState}
    (h : run (step config) s actions = some t) : t.items = s.items ++ actions.filterMap putItem := by
  induction actions generalizing s with
  | nil =>
      cases h
      simp
  | cons action rest ih =>
      obtain ⟨u, hu, hrest⟩ := Option.bind_eq_some_iff.mp h
      rw [ih hrest, items_step hu, List.filterMap_cons]
      cases putItem action <;> simp

/-- A run that ends in a `good` state, by evaluation. -/
theorem exists_of_run (config : WriteConfig) (actions : List WriteAction)
    (good : WriteState → Bool)
    (h : (run (step config) {} actions).any (fun s => good s.server) = true) :
    ∃ server, Reachable (step config) {} ⟨actions.filterMap putItem, server⟩ ∧
      good server = true := by
  obtain ⟨⟨items, server⟩, hrun, hgood⟩ := (Option.any_eq_true _ _).mp h
  obtain rfl : items = actions.filterMap putItem := items_run hrun
  exact ⟨server, .of_run hrun, hgood⟩

/-- The groups of a data, whether they are uploaded and stored. -/
def groupFlags (server : WriteState) (dataId : String) : Option (List (Bool × Bool)) :=
  (server.files dataId).current.h5.map fun file =>
    file.groups.map fun entry => (entry.2.uploaded, entry.2.stored)

theorem groupFlags_congr {s t : WriteState} {dataId : String}
    (h : (s.files dataId).current.onDisk = (t.files dataId).current.onDisk) :
    groupFlags s dataId = groupFlags t dataId := by
  have hmap : ∀ server : WriteState, groupFlags server dataId =
      (server.files dataId).current.onDisk.h5.map fun file =>
        file.groups.map fun entry => (entry.2.uploaded, entry.2.stored) := by
    intro server
    simp [groupFlags, DataState.onDisk, Function.comp_def]
  rw [hmap, hmap, h]

theorem pixelIds_ne_nil : [0] ≠ ([] : List ℕ) := List.cons_ne_nil _ _

/-- The value of the pixel. -/
def pixelPost : ValuePost := ⟨[0], [7, 8], pixelIds_ne_nil⟩

/-- The pixel is posted with its value. -/
def pixelSequence : List PrioritizedItem :=
  [⟨1, .creation onePixel⟩, ⟨1, pixelPost.attributesItem⟩, ⟨10, pixelPost.bodyItem⟩]

theorem validItems_pixelSequence : ValidItems (pixelSequence.map PrioritizedItem.item) := by
  have hvalid : pixelPost.Valid onePixel := ⟨by decide, by decide⟩
  show ValidItems [.creation onePixel, pixelPost.attributesItem, pixelPost.bodyItem]
  refine .posted (by decide) (fun item hmem => ?_) ?_
  · simp only [List.mem_cons, List.not_mem_nil, or_false] at hmem
    rcases hmem with rfl | rfl
    · exact ⟨.attributes pixelPost, rfl, hvalid⟩
    · exact ⟨.body pixelPost, rfl, hvalid⟩
  · simp [PostedOnce, Item.Apart, ValuePost.attributesItem, ValuePost.bodyItem, Item.isBody]

theorem regularItems_pixelSequence : RegularItems (pixelSequence.map PrioritizedItem.item) := by
  intro data hmem
  have hdata : data = onePixel := by
    simpa [pixelSequence, ValuePost.attributesItem, ValuePost.bodyItem] using hmem
  subst hdata
  exact ⟨by decide, fun _ _ _ => by decide⟩

/-- The pixel is posted next to a second one, which gets no body. -/
def twoPixels : List QueueItem :=
  itemsFor "first" pixelSequence ++ itemsFor "second" (pixelSequence.take 2)

/-- An item is put and handled without ZMQ. -/
def directly (queueItem : QueueItem) : List WriteAction := [.put queueItem, .take 0, .handle]

/-- With ZMQ the second creation overtakes the value of the first data, and the second queue is
emptied in another order than it has been filled. -/
def twoPixelsZmq : List WriteAction :=
  let puts := twoPixels.map WriteAction.put
  [puts.take 1, [.forward 0, .receive, .take 0, .handle, .reply], (puts.drop 1).take 3,
    [.forward 2, .receive, .take 0, .handle, .reply], puts.drop 4,
    [.forward 0, .receive, .reply, .forward 1, .receive, .reply, .forward 0, .receive, .reply,
      .take 1, .handle, .take 0, .handle, .take 0, .handle]].flatten

theorem validSequence_twoPixels : ValidSequence twoPixels := by
  have hvalid := validItems_pixelSequence
  have hsecond : ValidItems ((pixelSequence.take 2).map PrioritizedItem.item ++
      [pixelPost.bodyItem]) := hvalid
  exact forall_itemsOf .nothing (by decide) hvalid hsecond.of_append

theorem regularSequence_twoPixels : RegularSequence twoPixels := by
  have hregular := regularItems_pixelSequence
  have hsecond : RegularItems ((pixelSequence.take 2).map PrioritizedItem.item ++
      [pixelPost.bodyItem]) := hregular
  exact forall_itemsOf nofun (by decide) hregular hsecond.of_append

theorem zmq_agrees_with_direct_two_pixels :
    ∃ s t, Reachable (step ⟨true, true⟩) {} ⟨twoPixels, s⟩ ∧
      Reachable (step ⟨false, true⟩) {} ⟨twoPixels, t⟩ ∧
      groupFlags s "first" = some [(true, true)] ∧ groupFlags s "second" = some [(true, false)] ∧
      ∀ dataId, (s.files dataId).current.onDisk = (t.files dataId).current.onDisk := by
  obtain ⟨s, hs, hgood⟩ := exists_of_run ⟨true, true⟩ twoPixelsZmq
    (fun s => decide (s.AtRest ⟨true, true⟩ ∧ groupFlags s "first" = some [(true, true)] ∧
      groupFlags s "second" = some [(true, false)])) (by decide +kernel)
  obtain ⟨t, ht, hrest⟩ := exists_of_run ⟨false, true⟩ (twoPixels.flatMap directly)
    (fun t => decide (t.AtRest ⟨false, true⟩)) (by decide +kernel)
  obtain ⟨hend, hfirst, hsecond⟩ := of_decide_eq_true hgood
  obtain ⟨disk, h⟩ := zmq_agrees_with_direct validSequence_twoPixels regularSequence_twoPixels
  refine ⟨s, t, hs, ht, hfirst, hsecond, fun dataId => ?_⟩
  rw [(((h ⟨true, true⟩).2 s hs).2.2 hend).2, (((h ⟨false, true⟩).2 t ht).2.2
    (of_decide_eq_true hrest)).2]

/-! ### Sequences that are not regular -/

/-- A body for a data without an echo time. -/
def withoutEcho : List PrioritizedItem :=
  [⟨1, .creation { onePixel with echoTimes := [] }⟩, ⟨10, .body [0] []⟩]

/-- A posted attribute `cwa_stored`, and a body for each of two groups. -/
def withStoredFlag : List PrioritizedItem :=
  [⟨1, .creation { onePixel with
      sliceLocations := [.int 0, .int 1]
      attributes := [("cwa_stored", .bool true)] }⟩,
    ⟨10, .body [0] [7, 8]⟩, ⟨11, .body [1] [7, 8]⟩]

/-- A posted attribute `cwa_uploaded` that has no truth value. -/
def withUploadedFlag : List PrioritizedItem :=
  [⟨1, .creation { onePixel with attributes := [("cwa_uploaded", .array [.int 1, .int 2])] }⟩,
    ⟨1, pixelPost.attributesItem⟩]

/-- The items of another data, and then the pixel with its attributes. -/
def before (values : List PrioritizedItem) : List QueueItem :=
  itemsFor "other" values ++ itemsFor "pixel" (pixelSequence.take 2)

/-- With ZMQ the attributes of the pixel stay in the front queue. -/
def beforeZmq (values : List PrioritizedItem) : List WriteAction :=
  let puts := (itemsFor "pixel" (pixelSequence.take 2)).map WriteAction.put
  (itemsFor "other" values).flatMap WriteState.throughZmq ++ puts.take 1 ++
    [.forward 0, .receive, .take 0, .handle] ++ puts.drop 1

/-- Both servers are at rest and disagree. -/
def Disagree (items : List QueueItem) : Prop :=
  ∃ s t, Reachable (step ⟨true, true⟩) {} ⟨items, s⟩ ∧ s.AtRest ⟨true, true⟩ ∧
    Reachable (step ⟨false, true⟩) {} ⟨items, t⟩ ∧ t.AtRest ⟨false, true⟩ ∧
    ∃ dataId, (s.files dataId).current.onDisk ≠ (t.files dataId).current.onDisk

theorem disagree_of_run {values : List PrioritizedItem}
    (hitems : (beforeZmq values).filterMap putItem = before values)
    (hitems' : ((before values).flatMap directly).filterMap putItem = before values)
    (hzmq : (run (step ⟨true, true⟩) {} (beforeZmq values)).any (fun s => decide
      (s.server.AtRest ⟨true, true⟩ ∧ groupFlags s.server "pixel" = some [(false, false)])) = true)
    (hdirect : (run (step ⟨false, true⟩) {} ((before values).flatMap directly)).any (fun t => decide
      (t.server.AtRest ⟨false, true⟩ ∧ groupFlags t.server "pixel" = some [(true, false)])) = true) :
    Disagree (before values) := by
  obtain ⟨s, hs, hgood⟩ := exists_of_run ⟨true, true⟩ (beforeZmq values)
    (fun s => decide (s.AtRest ⟨true, true⟩ ∧ groupFlags s "pixel" = some [(false, false)])) hzmq
  obtain ⟨t, ht, hgood'⟩ := exists_of_run ⟨false, true⟩ ((before values).flatMap directly)
    (fun t => decide (t.AtRest ⟨false, true⟩ ∧ groupFlags t "pixel" = some [(true, false)])) hdirect
  obtain ⟨hrest, hflags⟩ := of_decide_eq_true hgood
  obtain ⟨hrest', hflags'⟩ := of_decide_eq_true hgood'
  refine ⟨s, t, hitems ▸ hs, hrest, hitems' ▸ ht, hrest', "pixel", fun hdisk => ?_⟩
  have hsame := groupFlags_congr hdisk
  rw [hflags, hflags'] at hsame
  exact absurd hsame (by decide)

theorem validItems_withoutEcho : ValidItems (withoutEcho.map PrioritizedItem.item) := by
  refine .posted (by decide) (fun item hmem => ?_) (List.pairwise_singleton ..)
  rw [List.mem_singleton.mp hmem]
  exact ⟨.body ⟨[0], [], by decide⟩, rfl, by decide, by decide⟩

theorem validItems_withStoredFlag : ValidItems (withStoredFlag.map PrioritizedItem.item) := by
  refine .posted (by decide) (fun item hmem => ?_) ?_
  · rcases List.mem_cons.mp hmem with rfl | hmem
    · exact ⟨.body ⟨[0], [7, 8], by decide⟩, rfl, by decide, by decide⟩
    · rw [List.mem_singleton.mp hmem]
      exact ⟨.body ⟨[1], [7, 8], by decide⟩, rfl, by decide, by decide⟩
  · refine List.pairwise_pair.mpr fun _ name hfirst hsecond => ?_
    rw [List.mem_singleton.mp hfirst] at hsecond
    exact absurd hsecond (by decide)

theorem validItems_withUploadedFlag : ValidItems (withUploadedFlag.map PrioritizedItem.item) := by
  refine .posted (by decide) (fun item hmem => ?_) (List.pairwise_singleton ..)
  rw [List.mem_singleton.mp hmem]
  exact ⟨.attributes pixelPost, rfl, by decide, by decide⟩

/-- An item that raises is never done, so that the reply to the next creation does not come, and
the front-end worker forwards nothing more. -/
theorem zmq_disagrees :
    (ValidSequence (before withoutEcho) ∧ Disagree (before withoutEcho)) ∧
      (ValidSequence (before withStoredFlag) ∧ Disagree (before withStoredFlag)) ∧
        ValidSequence (before withUploadedFlag) ∧ Disagree (before withUploadedFlag) := by
  have hpixel : ValidItems ((pixelSequence.take 2).map PrioritizedItem.item ++
      [pixelPost.bodyItem]) := validItems_pixelSequence
  have hvalid : ∀ values : List PrioritizedItem, ValidItems (values.map PrioritizedItem.item) →
      ValidSequence (before values) :=
    fun _ hvalues => forall_itemsOf .nothing (by decide) hvalues hpixel.of_append
  refine ⟨⟨hvalid _ validItems_withoutEcho, ?_⟩, ⟨hvalid _ validItems_withStoredFlag, ?_⟩,
    hvalid _ validItems_withUploadedFlag, ?_⟩
  · exact disagree_of_run rfl rfl (by decide +kernel) (by decide +kernel)
  · exact disagree_of_run rfl rfl (by decide +kernel) (by decide +kernel)
  · exact disagree_of_run rfl rfl (by decide +kernel) (by decide +kernel)

end PutState

end ComputeWebApp.Api
