import Mathlib.Data.List.Perm.Subperm
import ComputeWebApp.Upload.Release
import ComputeWebApp.Upload.WriteServer

/-!
# Data that is posted again

`data.post` removes the file of the data id, puts the creation of a new one to the write queue and
waits until the queue counts nothing.  `post_value` looks for the file and puts attributes and a
body.  Any number of calls are answered at the same time, next to the write workers.

An item has the id of its data and nothing that tells an old file from a new one, and a creation
has a smaller priority than a body: a body that waits in the queue while the data is posted again
is written into the new file.  As long as a data is posted again only when no value of it is on its
way (`Undisturbed`), the new file is clean when the call returns.
-/

namespace ComputeWebApp.Api

open Transition

/-! ## Calls -/

/-- A call of `data.post` that has removed the file, or waits for the queue; a call of `post_value`
that has found the file, or has put its attributes. -/
inductive Call
  | posting (dataId : String) (data : Creation)
  | joining (dataId : String)
  | valuing (dataId : String) (attributesItem bodyItem : PrioritizedItem)
  | bodyLeft (dataId : String) (bodyItem : PrioritizedItem)

namespace Call

def isPostOf (dataId : String) : Call → Bool
  | posting other _ => other = dataId
  | joining other => other = dataId
  | _ => false

def isValueOf (dataId : String) : Call → Bool
  | valuing other _ _ => other = dataId
  | bodyLeft other _ => other = dataId
  | _ => false

end Call

/-- `posted` and `written` are kept for the statements only: the items put by calls of `post_value`
since the last `data.post` of their data, and those of them that the write worker has handled. -/
structure ApiState where
  server : WriteState := {}
  calls : List Call := []
  posted : List QueueItem := []
  written : List QueueItem := []

inductive ApiAction
  | startPost (data : Creation)
  | putCreation (position : ℕ)
  | returnPost (position : ℕ)
  | startValue (dataId : String) (post : ValuePost)
  | putAttributes (position : ℕ)
  | putBody (position : ℕ)
  | work (action : WriteAction)

/-- `write_queue.join()` in a call returns. -/
def WriteState.joined (config : WriteConfig) (s : WriteState) : Bool :=
  if config.useZmq then s.frontUnfinished = 0 else s.unfinished = 0

/-- `data_id in get_data_ids()`: the file exists, from the start of its creation. -/
def WriteState.available (s : WriteState) (dataId : String) : Bool :=
  (s.files dataId).current.h5.isSome ||
    s.busy.any fun queueItem => queueItem.dataId = dataId && queueItem.item.isCreation

theorem WriteState.available_iff {s : WriteState} {dataId : String} :
    s.available dataId = true ↔ (s.files dataId).current.h5.isSome = true ∨
      ∃ queueItem, s.busy = some queueItem ∧ queueItem.dataId = dataId ∧
        queueItem.item.isCreation = true := by
  simp [available, Option.any_eq_true]

namespace ApiState

/-- The item of a value that the write worker is about to handle. -/
def handling (s : ApiState) : WriteAction → List QueueItem
  | .handle => s.server.busy.toList.filter fun queueItem => !queueItem.item.isCreation
  | _ => []

/-- `dataIdOf` is the start of the hash of a name. -/
def step (dataIdOf : String → String) (config : WriteConfig) (s : ApiState) :
    ApiAction → Option ApiState
  | .startPost data =>
      let dataId := dataIdOf data.name
      some
        { server := s.server.remove dataId
          calls := .posting dataId data :: s.calls
          posted := s.posted.filter fun queueItem => queueItem.dataId ≠ dataId
          written := s.written.filter fun queueItem => queueItem.dataId ≠ dataId }
  | .putCreation position =>
      match s.calls[position]? with
      | some (.posting dataId data) =>
          some { s with
            server := s.server.put config ⟨dataId, 1, .creation data⟩
            calls := s.calls.set position (.joining dataId) }
      | _ => none
  | .returnPost position =>
      match s.calls[position]? with
      | some (.joining _) =>
          if s.server.joined config then some { s with calls := s.calls.eraseIdx position } else none
      | _ => none
  | .startValue dataId post =>
      match post.postValue with
      | .error _ => none
      | .ok (attributesItem, bodyItem) =>
          if s.server.available dataId then
            some { s with calls := .valuing dataId attributesItem bodyItem :: s.calls }
          else none
  | .putAttributes position =>
      match s.calls[position]? with
      | some (.valuing dataId attributesItem bodyItem) =>
          let queueItem := ⟨dataId, attributesItem.priority, attributesItem.item⟩
          some { s with
            server := s.server.put config queueItem
            calls := s.calls.set position (.bodyLeft dataId bodyItem)
            posted := queueItem :: s.posted }
      | _ => none
  | .putBody position =>
      match s.calls[position]? with
      | some (.bodyLeft dataId bodyItem) =>
          let queueItem := ⟨dataId, bodyItem.priority, bodyItem.item⟩
          some { s with
            server := s.server.put config queueItem
            calls := s.calls.eraseIdx position
            posted := queueItem :: s.posted }
      | _ => none
  -- items are put and files removed by the calls
  | .work (.put _) => none
  | .work (.remove _) => none
  | .work action =>
      (s.server.step config action).map fun server =>
        { s with server := server, written := s.handling action ++ s.written }

/-! ## What a step does -/

section Inversion

variable {dataIdOf : String → String} {config : WriteConfig} {s t : ApiState} {position : ℕ}

theorem step_putCreation (h : s.step dataIdOf config (.putCreation position) = some t) :
    ∃ dataId data, s.calls[position]? = some (.posting dataId data) ∧
      t = { s with
        server := s.server.put config ⟨dataId, 1, .creation data⟩
        calls := s.calls.set position (.joining dataId) } := by
  simp only [step] at h
  split at h
  · rename_i dataId data hcall
    exact ⟨dataId, data, hcall, (Option.some.inj h).symm⟩
  · cases h

theorem step_returnPost (h : s.step dataIdOf config (.returnPost position) = some t) :
    ∃ dataId, s.calls[position]? = some (.joining dataId) ∧ s.server.joined config = true ∧
      t = { s with calls := s.calls.eraseIdx position } := by
  simp only [step] at h
  split at h
  · rename_i dataId hcall
    split at h
    · rename_i hjoined
      exact ⟨dataId, hcall, hjoined, (Option.some.inj h).symm⟩
    · cases h
  · cases h

theorem step_startValue {dataId : String} {post : ValuePost}
    (h : s.step dataIdOf config (.startValue dataId post) = some t) :
    ∃ attributesItem bodyItem, post.postValue = .ok (attributesItem, bodyItem) ∧
      t = { s with calls := .valuing dataId attributesItem bodyItem :: s.calls } := by
  simp only [step] at h
  split at h
  · cases h
  · rename_i attributesItem bodyItem hitems
    split at h
    · exact ⟨attributesItem, bodyItem, hitems, (Option.some.inj h).symm⟩
    · cases h

theorem step_putAttributes (h : s.step dataIdOf config (.putAttributes position) = some t) :
    ∃ dataId attributesItem bodyItem,
      s.calls[position]? = some (.valuing dataId attributesItem bodyItem) ∧
      t = { s with
        server := s.server.put config ⟨dataId, attributesItem.priority, attributesItem.item⟩
        calls := s.calls.set position (.bodyLeft dataId bodyItem)
        posted := ⟨dataId, attributesItem.priority, attributesItem.item⟩ :: s.posted } := by
  simp only [step] at h
  split at h
  · rename_i dataId attributesItem bodyItem hcall
    exact ⟨dataId, attributesItem, bodyItem, hcall, (Option.some.inj h).symm⟩
  · cases h

theorem step_putBody (h : s.step dataIdOf config (.putBody position) = some t) :
    ∃ dataId bodyItem, s.calls[position]? = some (.bodyLeft dataId bodyItem) ∧
      t = { s with
        server := s.server.put config ⟨dataId, bodyItem.priority, bodyItem.item⟩
        calls := s.calls.eraseIdx position
        posted := ⟨dataId, bodyItem.priority, bodyItem.item⟩ :: s.posted } := by
  simp only [step] at h
  split at h
  · rename_i dataId bodyItem hcall
    exact ⟨dataId, bodyItem, hcall, (Option.some.inj h).symm⟩
  · cases h

theorem step_work {action : WriteAction} (h : s.step dataIdOf config (.work action) = some t) :
    (∀ queueItem, action ≠ .put queueItem) ∧ (∀ dataId, action ≠ .remove dataId) ∧
      ∃ server, s.server.step config action = some server ∧
        t = { s with server := server, written := s.handling action ++ s.written } := by
  cases action with
  | put queueItem => cases h
  | remove dataId => cases h
  | forward _ | sendRaises | receive | reply | take _ | handle =>
      obtain ⟨server, hserver, rfl⟩ := Option.map_eq_some_iff.mp h
      exact ⟨by simp, by simp, server, hserver, rfl⟩

end Inversion

end ApiState

/-! ## Clean files -/

/-- No group of the file of the data is marked stored or uploaded. -/
def Clean (s : DataState) : Prop :=
  ∀ file, s.h5 = some file →
    ∀ entry ∈ file.groups, entry.2.stored = false ∧ entry.2.uploaded = false

theorem clean_of_none {s : DataState} (h : s.h5 = none) : Clean s := by
  intro file hfile
  rw [h] at hfile
  cases hfile

theorem Clean.of_h5 {s t : DataState} (h : Clean s) (hsame : t.h5 = s.h5) : Clean t := by
  intro file hfile
  exact h file (hsame ▸ hfile)

theorem Clean.write {s : DataState} (h : Clean s) {change : H5File → H5File}
    (hchange : ∀ file, ∀ entry ∈ (change file).groups,
      entry ∈ file.groups ∨ entry.2.stored = false ∧ entry.2.uploaded = false) :
    Clean (s.write change) := by
  intro file hfile entry hmem
  rw [DataState.h5_write, Option.map_eq_some_iff] at hfile
  obtain ⟨before, hbefore, rfl⟩ := hfile
  rcases hchange before entry hmem with hmem | hentry
  · exact h before hbefore entry hmem
  · exact hentry

/-- A creation leaves a clean file, whatever the one before was and however the creation ends. -/
theorem clean_creation (keepFilesOpen : Bool) (data : Creation) (s : DataState) :
    Clean (stateOf (handleItem keepFilesOpen (.creation data) s)) := by
  rw [handleItem_creation]
  have hstart : Clean s.truncated := by
    rintro file hfile entry hmem
    cases hfile
    cases hmem
  have hentries : ∀ entries, Keeps Clean (createAttrs entries) := by
    refine fun entries => keeps_forM fun entry _ => ?_
    obtain ⟨name, value⟩ := entry
    cases value with
    | error exception => exact (readsOnly_raise exception).keeps
    | ok value =>
        exact keeps_writeFile fun s hs => hs.write fun file entry hmem => .inl hmem
  have hnumbers : ∀ numbers, Keeps Clean (createNumbers numbers) := by
    intro numbers
    unfold createNumbers
    split
    · exact (readsOnly_pure ()).keeps
    · exact (readsOnly_raise _).keeps
  have hattrs : Keeps Clean (createAttributes data) :=
    (hentries _).bind fun _ => (hnumbers _).bind fun _ => (hnumbers _).bind fun _ => hentries _
  have hgroups : Keeps Clean (createGroups data) := by
    refine Keeps.bind (keeps_forM fun i _ => keeps_writeFile fun s hs => hs.write
      fun file entry hmem => ?_) fun _ => ?_
    · rcases List.mem_append.mp hmem with hmem | hmem
      · exact .inl hmem
      · rw [List.mem_singleton.mp hmem]
        exact .inr ⟨rfl, rfl⟩
    · split
      · exact (readsOnly_raise _).keeps
      · exact (readsOnly_pure ()).keeps
  -- what follows does not touch the file
  have hrest : KeepsFile false (lockFile >>= fun _ =>
      modify (fun s => { s with marker := true }) >>= fun _ => unlockFile >>= fun _ =>
        if keepFilesOpen then modify fun s => { s with cached := true } else closeFile) := by
    refine keepsFile_lockFile.bind fun _ => KeepsFile.bind (fun _ => ⟨rfl, rfl, rfl, fun _ h => by
      cases h⟩) fun _ => keepsFile_unlockFile.bind fun _ => ?_
    split <;> exact fun _ => ⟨rfl, rfl, rfl, fun _ h => by cases h⟩
  have hwrites := (hattrs.bind fun _ => hgroups) s.truncated hstart
  rw [Creation.fill, ← bind_assoc]
  cases hrun : (createAttributes data >>= fun _ => createGroups data) s.truncated with
  | error stop t =>
      rw [hrun] at hwrites
      rw [bind_error hrun]
      exact hwrites.2
  | ok _ t =>
      rw [hrun] at hwrites
      rw [bind_ok hrun]
      exact hwrites.2.of_h5 (hrest t).h5

theorem DataFiles.clean_handle_creation {keepFilesOpen : Bool} {files : DataFiles}
    (h : Clean files.current) (data : Creation) :
    Clean (files.handle keepFilesOpen (.creation data)).2.current := by
  unfold handle
  rw [if_pos (show Item.isCreation (.creation data) = true from rfl)]
  split
  · exact h
  · exact clean_creation keepFilesOpen data files.current

theorem DataFiles.clean_remove (files : DataFiles) : Clean files.remove.current := by
  unfold remove
  split
  · rename_i hnone
    exact clean_of_none (by simpa using hnone)
  · exact clean_of_none rfl

/-! ## Undisturbed calls -/

/-- The items of values that are on their way. -/
def WriteState.pendingValues (s : WriteState) : List QueueItem :=
  s.pending.filter fun queueItem => !queueItem.item.isCreation

theorem ValuePost.isCreation_of_postValue {post : ValuePost}
    {attributesItem bodyItem : PrioritizedItem}
    (h : post.postValue = .ok (attributesItem, bodyItem)) :
    attributesItem.item.isCreation = false ∧ bodyItem.item.isCreation = false := by
  unfold postValue at h
  split at h
  · cases h
  · cases h
    exact ⟨rfl, rfl⟩

/-- A call of `post_value` has items of a value. -/
def Call.HoldsValues : Call → Prop
  | valuing _ attributesItem bodyItem =>
      attributesItem.item.isCreation = false ∧ bodyItem.item.isCreation = false
  | bodyLeft _ bodyItem => bodyItem.item.isCreation = false
  | _ => True

namespace ApiState

/-- **No value on its way.**  A data is posted when no value of it is on its way, and no value is
posted for it until the call returns. -/
def Undisturbed (dataIdOf : String → String) (s : ApiState) : ApiAction → Prop
  | .startPost data =>
      (∀ call ∈ s.calls, call.isValueOf (dataIdOf data.name) = false) ∧
        ∀ queueItem ∈ s.server.pendingValues, queueItem.dataId ≠ dataIdOf data.name
  | .startValue dataId _ => ∀ call ∈ s.calls, call.isPostOf dataId = false
  | _ => True

instance (dataIdOf : String → String) (s : ApiState) :
    (a : ApiAction) → Decidable (Undisturbed dataIdOf s a)
  | .startPost _ => inferInstanceAs (Decidable (_ ∧ _))
  | .startValue dataId _ =>
      inferInstanceAs (Decidable (∀ call ∈ s.calls, call.isPostOf dataId = false))
  | .putCreation _ => instDecidableTrue
  | .returnPost _ => instDecidableTrue
  | .putAttributes _ => instDecidableTrue
  | .putBody _ => instDecidableTrue
  | .work _ => instDecidableTrue

/-- A call of `data.post` for the data has not returned yet. -/
def InPost (s : ApiState) (dataId : String) : Prop :=
  ∃ call ∈ s.calls, call.isPostOf dataId = true

/-- While a data is posted, no value of it is on its way, and its file is clean. -/
structure Inv (s : ApiState) : Prop where
  placed : s.server.Placed
  values : ∀ call ∈ s.calls, call.HoldsValues
  quiet : ∀ dataId, s.InPost dataId →
    (∀ call ∈ s.calls, call.isValueOf dataId = false) ∧
      ∀ queueItem ∈ s.server.pendingValues, queueItem.dataId ≠ dataId
  clean : ∀ dataId, s.InPost dataId → Clean (s.server.files dataId).current
  accounted : (s.written ++ s.server.pendingValues).Subperm s.posted

section Step

variable {dataIdOf : String → String} {config : WriteConfig} {s t : ApiState} {a : ApiAction}

theorem inv_initial : Inv {} where
  placed := WriteState.placed_initial
  values := fun _ hmem => absurd hmem List.not_mem_nil
  quiet := fun _ ⟨_, hmem, _⟩ => absurd hmem List.not_mem_nil
  clean := fun _ ⟨_, hmem, _⟩ => absurd hmem List.not_mem_nil
  accounted := .refl _

theorem pendingValues_put_creation {server : WriteState} {queueItem : QueueItem}
    (h : queueItem.item.isCreation = true) :
    (server.put config queueItem).pendingValues.Perm server.pendingValues := by
  have hpending : (server.put config queueItem).pending.Perm (queueItem :: server.pending) :=
    WriteState.pending_put queueItem
  have hput := hpending.filter fun queueItem => !queueItem.item.isCreation
  rwa [List.filter_cons_of_neg (by simp [h])] at hput

theorem pendingValues_put_value {server : WriteState} {queueItem : QueueItem}
    (h : queueItem.item.isCreation = false) :
    (server.put config queueItem).pendingValues.Perm (queueItem :: server.pendingValues) := by
  have hpending : (server.put config queueItem).pending.Perm (queueItem :: server.pending) :=
    WriteState.pending_put queueItem
  have hput := hpending.filter fun queueItem => !queueItem.item.isCreation
  rwa [List.filter_cons_of_pos (by simp [h])] at hput

/-- Calls that return, or go on to their next stage, disturb nothing. -/
theorem Inv.of_calls (h : Inv s) {server : WriteState} {calls : List Call}
    (hplaced : server.Placed) (hfiles : server.files = s.server.files)
    (hpending : server.pendingValues.Subperm s.server.pendingValues)
    (hvalues : ∀ call ∈ calls, call.HoldsValues)
    (hposts : ∀ call ∈ calls, ∀ dataId, call.isPostOf dataId = true → s.InPost dataId)
    (hcalls : ∀ call ∈ calls, ∀ dataId, call.isValueOf dataId = true →
      ∃ other ∈ s.calls, other.isValueOf dataId = true) :
    Inv { s with server := server, calls := calls } where
  placed := hplaced
  values := hvalues
  quiet := by
    rintro dataId ⟨call, hmem, hpost⟩
    obtain ⟨hcalls', hqueue⟩ := h.quiet dataId (hposts call hmem dataId hpost)
    refine ⟨fun other hother => ?_, fun queueItem hitem =>
      hqueue queueItem (hpending.subset hitem)⟩
    by_contra hvalue
    obtain ⟨before, hbefore, hvalue'⟩ := hcalls other hother dataId (by simpa using hvalue)
    rw [hcalls' before hbefore] at hvalue'
    cases hvalue'
  clean := by
    rintro dataId ⟨call, hmem, hpost⟩
    show Clean (server.files dataId).current
    rw [hfiles]
    exact h.clean dataId (hposts call hmem dataId hpost)
  accounted := ((List.Subperm.refl s.written).append hpending).trans h.accounted

/-- A call of `post_value` puts an item. -/
theorem Inv.putValue (h : Inv s) {call : Call} (hcall : call ∈ s.calls) {queueItem : QueueItem}
    (hvalueOf : call.isValueOf queueItem.dataId = true) (hitem : queueItem.item.isCreation = false)
    {calls : List Call}
    (hcalls : ∀ other ∈ calls, other ∈ s.calls ∨ other.HoldsValues ∧
      ∀ dataId, other.isPostOf dataId = false ∧
        (other.isValueOf dataId = true → call.isValueOf dataId = true)) :
    Inv { s with
      server := s.server.put config queueItem
      calls := calls
      posted := queueItem :: s.posted } where
  placed := h.placed.put queueItem
  values := fun other hother => (hcalls other hother).elim (h.values other) And.left
  quiet := by
    rintro dataId ⟨other, hother, hpost⟩
    have hin : s.InPost dataId := by
      rcases hcalls other hother with hold | ⟨-, hnew⟩
      · exact ⟨other, hold, hpost⟩
      · rw [(hnew dataId).1] at hpost
        cases hpost
    obtain ⟨hvalues, hqueue⟩ := h.quiet dataId hin
    refine ⟨fun other hother => ?_, fun queueItem' hmem => ?_⟩
    · rcases hcalls other hother with hold | ⟨-, hnew⟩
      · exact hvalues other hold
      · by_contra hvalue
        have hvalue' := (hnew dataId).2 (by simpa using hvalue)
        rw [hvalues call hcall] at hvalue'
        cases hvalue'
    · rcases List.mem_cons.mp ((pendingValues_put_value hitem).mem_iff.mp hmem) with rfl | hmem
      · rintro rfl
        rw [hvalues call hcall] at hvalueOf
        cases hvalueOf
      · exact hqueue queueItem' hmem
  clean := by
    rintro dataId ⟨other, hother, hpost⟩
    have hfiles : (s.server.put config queueItem).files = s.server.files := by
      unfold WriteState.put
      split <;> rfl
    show Clean ((s.server.put config queueItem).files dataId).current
    rw [hfiles]
    rcases hcalls other hother with hold | ⟨-, hnew⟩
    · exact h.clean dataId ⟨other, hold, hpost⟩
    · rw [(hnew dataId).1] at hpost
      cases hpost
  accounted := by
    refine ((pendingValues_put_value hitem).append_left s.written).subperm.trans ?_
    exact List.perm_middle.subperm.trans ((List.subperm_cons _).mpr h.accounted)

/-- The file is removed while no value of its data is on its way. -/
theorem Inv.startPost (h : Inv s) {data : Creation}
    (hgood : Undisturbed dataIdOf s (.startPost data))
    (hstep : s.step dataIdOf config (.startPost data) = some t) : Inv t := by
  obtain ⟨hcalls, hqueue⟩ := hgood
  cases hstep
  have hpost : ∀ dataId, dataIdOf data.name ≠ dataId →
      (∃ call ∈ Call.posting (dataIdOf data.name) data :: s.calls, call.isPostOf dataId = true) →
      s.InPost dataId := by
    rintro dataId hne ⟨call, hmem, hpost⟩
    rcases List.mem_cons.mp hmem with rfl | hmem
    · exact absurd (of_decide_eq_true hpost) hne
    · exact ⟨call, hmem, hpost⟩
  refine ⟨⟨h.placed.idle, h.placed.stuck⟩, ?_, ?_, ?_, ?_⟩
  · exact List.forall_mem_cons.mpr ⟨trivial, h.values⟩
  · intro dataId hin
    by_cases heq : dataIdOf data.name = dataId
    · subst heq
      exact ⟨List.forall_mem_cons.mpr ⟨rfl, hcalls⟩, hqueue⟩
    · obtain ⟨hcalls', hqueue'⟩ := h.quiet dataId (hpost dataId heq hin)
      exact ⟨List.forall_mem_cons.mpr ⟨rfl, hcalls'⟩, hqueue'⟩
  · intro dataId hin
    show Clean (Function.update s.server.files (dataIdOf data.name)
      (s.server.files (dataIdOf data.name)).remove dataId).current
    by_cases heq : dataId = dataIdOf data.name
    · subst heq
      rw [Function.update_self]
      exact DataFiles.clean_remove _
    · rw [Function.update_of_ne heq]
      exact h.clean dataId (hpost dataId (Ne.symm heq) hin)
  · -- what is on its way is of other data, and stays
    have hkept := h.accounted.filter fun queueItem => decide (queueItem.dataId ≠ dataIdOf data.name)
    rw [List.filter_append] at hkept
    have hall : s.server.pendingValues.filter
        (fun queueItem => decide (queueItem.dataId ≠ dataIdOf data.name)) =
          s.server.pendingValues :=
      List.filter_eq_self.mpr fun queueItem hmem => decide_eq_true (hqueue queueItem hmem)
    rwa [hall] at hkept

theorem Inv.startValue (h : Inv s) {dataId : String} {post : ValuePost}
    (hgood : Undisturbed dataIdOf s (.startValue dataId post))
    (hstep : s.step dataIdOf config (.startValue dataId post) = some t) : Inv t := by
  obtain ⟨attributesItem, bodyItem, hitems, rfl⟩ := step_startValue hstep
  have hpost : ∀ other, (∃ call ∈ Call.valuing dataId attributesItem bodyItem :: s.calls,
      call.isPostOf other = true) → s.InPost other := by
    rintro other ⟨call, hmem, hpost⟩
    rcases List.mem_cons.mp hmem with rfl | hmem
    · cases hpost
    · exact ⟨call, hmem, hpost⟩
  refine ⟨h.placed, ?_, ?_, fun other hin => h.clean other (hpost other hin), h.accounted⟩
  · exact List.forall_mem_cons.mpr ⟨ValuePost.isCreation_of_postValue hitems, h.values⟩
  · intro other hin
    obtain ⟨hcalls, hqueue⟩ := h.quiet other (hpost other hin)
    refine ⟨List.forall_mem_cons.mpr ⟨?_, hcalls⟩, hqueue⟩
    by_contra hvalue
    obtain rfl : dataId = other := by simpa [Call.isValueOf] using hvalue
    obtain ⟨call, hmem, hpost⟩ := hpost dataId hin
    rw [hgood call hmem] at hpost
    cases hpost

/-- The write worker handles a creation, or a value of a data that is not being posted. -/
theorem Inv.handle (h : Inv s) (hstep : s.step dataIdOf config (.work .handle) = some t) :
    Inv t := by
  obtain ⟨-, -, server, hserver, rfl⟩ := step_work hstep
  obtain ⟨queueItem, hbusy, hpending, hfiles⟩ := WriteState.pending_handle hserver
  have hvalues := hpending.filter fun queueItem => !queueItem.item.isCreation
  have hother : ∀ dataId ≠ queueItem.dataId, server.files dataId = s.server.files dataId := by
    intro dataId hne
    rw [hfiles, Function.update_of_ne hne]
  cases hcreation : queueItem.item.isCreation with
  | true =>
      -- a creation is no value, and leaves new groups
      rw [List.filter_cons_of_neg (by simp [hcreation])] at hvalues
      have hwritten : s.handling .handle = [] := by
        simp [handling, hbusy, hcreation]
      rw [hwritten, List.nil_append]
      refine ⟨h.placed.step hserver, h.values, fun dataId hin => ?_, fun dataId hin => ?_, ?_⟩
      · exact ⟨(h.quiet dataId hin).1, fun other hmem =>
          (h.quiet dataId hin).2 other (hvalues.mem_iff.mpr hmem)⟩
      · by_cases heq : dataId = queueItem.dataId
        · subst heq
          show Clean (server.files queueItem.dataId).current
          rw [hfiles, Function.update_self]
          cases hitem : queueItem.item with
          | creation data => exact DataFiles.clean_handle_creation (h.clean _ hin) data
          | body groupIds body => rw [hitem] at hcreation; cases hcreation
          | attributes entries => rw [hitem] at hcreation; cases hcreation
        · show Clean (server.files dataId).current
          rw [hother dataId heq]
          exact h.clean dataId hin
      · exact (hvalues.symm.append_left s.written).subperm.trans h.accounted
  | false =>
      rw [List.filter_cons_of_pos (by simp [hcreation])] at hvalues
      have hwritten : s.handling .handle = [queueItem] := by
        simp [handling, hbusy, hcreation]
      rw [hwritten]
      refine ⟨h.placed.step hserver, h.values, fun dataId hin => ?_, fun dataId hin => ?_, ?_⟩
      · exact ⟨(h.quiet dataId hin).1, fun other hmem =>
          (h.quiet dataId hin).2 other (hvalues.mem_iff.mpr (List.mem_cons_of_mem _ hmem))⟩
      · -- no value is left of a data that is being posted
        show Clean (server.files dataId).current
        rw [hother dataId fun heq => (h.quiet dataId hin).2 queueItem
          (hvalues.mem_iff.mpr List.mem_cons_self) heq.symm]
        exact h.clean dataId hin
      · have hperm : ([queueItem] ++ s.written ++ server.pendingValues).Perm
            (s.written ++ s.server.pendingValues) :=
          List.perm_middle.symm.trans (hvalues.symm.append_left s.written)
        exact hperm.subperm.trans h.accounted

/-- **Step.**  An undisturbed step keeps the invariant. -/
theorem Inv.step (h : Inv s) (hgood : Undisturbed dataIdOf s a)
    (hstep : s.step dataIdOf config a = some t) : Inv t := by
  have hsame : ∀ call ∈ s.calls, ∀ dataId, call.isPostOf dataId = true → s.InPost dataId :=
    fun call hmem _ hpost => ⟨call, hmem, hpost⟩
  have hsameValues : ∀ call ∈ s.calls, ∀ dataId, call.isValueOf dataId = true →
      ∃ other ∈ s.calls, other.isValueOf dataId = true :=
    fun call hmem _ hvalue => ⟨call, hmem, hvalue⟩
  cases a with
  | startPost data => exact h.startPost hgood hstep
  | startValue dataId post => exact h.startValue hgood hstep
  | putCreation position =>
      obtain ⟨dataId, data, hcall, rfl⟩ := step_putCreation hstep
      have hmem := List.mem_of_getElem? hcall
      refine h.of_calls (h.placed.put _) (by unfold WriteState.put; split <;> rfl)
        (pendingValues_put_creation rfl).subperm ?_ ?_ ?_
      · intro call hcall'
        rcases List.mem_or_eq_of_mem_set hcall' with hcall' | rfl
        · exact h.values call hcall'
        · trivial
      · intro call hcall' other hpost
        rcases List.mem_or_eq_of_mem_set hcall' with hcall' | rfl
        · exact hsame call hcall' other hpost
        · exact ⟨_, hmem, hpost⟩
      · intro call hcall' other hvalue
        rcases List.mem_or_eq_of_mem_set hcall' with hcall' | rfl
        · exact hsameValues call hcall' other hvalue
        · cases hvalue
  | returnPost position =>
      obtain ⟨dataId, -, -, rfl⟩ := step_returnPost hstep
      have hsub : ∀ call ∈ s.calls.eraseIdx position, call ∈ s.calls :=
        fun call hmem => List.mem_of_mem_eraseIdx hmem
      exact h.of_calls h.placed rfl (.refl _) (fun call hmem => h.values call (hsub call hmem))
        (fun call hmem => hsame call (hsub call hmem))
        fun call hmem => hsameValues call (hsub call hmem)
  | putAttributes position =>
      obtain ⟨dataId, attributesItem, bodyItem, hcall, rfl⟩ := step_putAttributes hstep
      have hmem := List.mem_of_getElem? hcall
      have hholds : attributesItem.item.isCreation = false ∧ bodyItem.item.isCreation = false :=
        h.values _ hmem
      refine h.putValue hmem (decide_eq_true rfl) hholds.1 fun other hother => ?_
      rcases List.mem_or_eq_of_mem_set hother with hother | rfl
      · exact .inl hother
      · exact .inr ⟨hholds.2, fun _ => ⟨rfl, id⟩⟩
  | putBody position =>
      obtain ⟨dataId, bodyItem, hcall, rfl⟩ := step_putBody hstep
      have hmem := List.mem_of_getElem? hcall
      have hholds : bodyItem.item.isCreation = false := h.values _ hmem
      exact h.putValue hmem (decide_eq_true rfl) hholds fun other hother =>
        .inl (List.mem_of_mem_eraseIdx hother)
  | work action =>
      cases action with
      | handle => exact h.handle hstep
      | put queueItem => cases hstep
      | remove dataId => cases hstep
      | sendRaises =>
          obtain ⟨-, -, server, hserver, rfl⟩ := step_work hstep
          obtain ⟨hpending, hfiles⟩ := WriteState.pending_sendRaises hserver
          exact h.of_calls (h.placed.step hserver) hfiles (hpending.filter _) h.values hsame
            hsameValues
      | forward _ | receive | reply | take _ =>
          obtain ⟨-, -, server, hserver, rfl⟩ := step_work hstep
          obtain ⟨hpending, hfiles, -⟩ := WriteState.step_moves h.placed hserver rfl
          exact h.of_calls (h.placed.step hserver) hfiles (hpending.filter _).subperm h.values hsame
            hsameValues

end Step

/-- **A re-posted data starts clean.**  In every undisturbed run, until `data.post` returns, no
group of the file is marked stored or uploaded; and the items of values that the write worker
handles have all been posted since the last `data.post` of their data. -/
theorem repost_starts_clean {dataIdOf : String → String} {config : WriteConfig} {s : ApiState}
    (hreach : Reachable (restrict (Undisturbed dataIdOf) (step dataIdOf config)) {} s) :
    (∀ dataId, s.InPost dataId → ∀ file, (s.server.files dataId).current.h5 = some file →
      ∀ entry ∈ file.groups, entry.2.stored = false ∧ entry.2.uploaded = false) ∧
      s.written.Subperm s.posted := by
  have h : Inv s := hreach.invariant inv_initial fun _ _ _ _ h hstep =>
    h.step (restrict_eq_some.mp hstep).1 (restrict_eq_some.mp hstep).2
  exact ⟨h.clean, (List.sublist_append_left _ _).subperm.trans h.accounted⟩

/-- The id of the data of one pixel. -/
def pixelId : String → String := fun _ => "fe05bcdcdc492801"

/-- The data is posted, and the call returns. -/
def postPixel : List ApiAction :=
  [.startPost onePixel, .putCreation 0, .work (.take 0), .work .handle, .returnPost 0]

def postValueOf (post : ValuePost) : List ApiAction :=
  [.startValue "fe05bcdcdc492801" post, .putAttributes 0, .putBody 0]

/-- The worker takes the first item of the queue and handles it. -/
def handleNext : List ApiAction := [.work (.take 0), .work .handle]

/-- The data is posted again once its value has been written; its new file is clean. -/
theorem repost_starts_clean_one_pixel :
    ∃ s file, Reachable (restrict (Undisturbed pixelId) (step pixelId ⟨false, false⟩)) {} s ∧
      s.server.finished.length = 4 ∧ s.server.joined ⟨false, false⟩ = true ∧
      (s.server.files "fe05bcdcdc492801").current.h5 = some file ∧ file.groups.length = 1 ∧
      ∀ entry ∈ file.groups, entry.2.stored = false ∧ entry.2.uploaded = false := by
  have hgood : (run (restrict (Undisturbed pixelId) (step pixelId ⟨false, false⟩)) {}
      (postPixel ++ postValueOf ⟨[0], [7, 8], by decide⟩ ++ handleNext ++ handleNext ++
        postPixel.take 4)).any (fun s =>
    decide (s.server.finished.length = 4) && s.server.joined ⟨false, false⟩ &&
      (s.server.files "fe05bcdcdc492801").current.h5.any (fun file =>
        decide (file.groups.length = 1)) &&
      s.calls.any (Call.isPostOf "fe05bcdcdc492801")) = true := by decide +kernel
  obtain ⟨s, hreach, hend⟩ := Reachable.exists_of_run hgood
  simp only [Bool.and_eq_true, decide_eq_true_eq, List.any_eq_true, Option.any_eq_true] at hend
  obtain ⟨⟨⟨hfinished, hjoined⟩, file, hfile, hgroups⟩, hpost⟩ := hend
  exact ⟨s, file, hreach, hfinished, hjoined, hfile, hgroups,
    (repost_starts_clean hreach).1 _ hpost file hfile⟩

theorem firstGroup_ne_nil : [0] ≠ ([] : List ℕ) := List.cons_ne_nil 0 []

/-- The attributes of a value are handled, the data is posted again, and the creation overtakes the
body. -/
def bodyOvertaken : List ApiAction :=
  postPixel ++
    [.startValue "fe05bcdcdc492801" ⟨[0], [7, 8], firstGroup_ne_nil⟩, .putAttributes 0] ++
    handleNext ++ [.putBody 0, .startPost onePixel, .putCreation 0, .work (.take 1), .work .handle] ++
      handleNext

/-- When the second call returns, the new file has the earlier value. -/
theorem repost_keeps_value :
    ∃ s t file, run (step pixelId ⟨false, false⟩) {} bodyOvertaken = some s ∧
      s.step pixelId ⟨false, false⟩ (.returnPost 0) = some t ∧
      (t.server.files "fe05bcdcdc492801").current.h5 = some file ∧
      (file.groups.map fun entry => (entry.2.stored, entry.2.magnitude)) = [(true, [[[[7]]]])] ∧
      ¬t.written.Subperm t.posted := by
  obtain ⟨s, hrun, hend⟩ := (Option.any_eq_true _ _).mp
    (show (run (step pixelId ⟨false, false⟩) {} bodyOvertaken).any (fun s =>
      (s.step pixelId ⟨false, false⟩ (.returnPost 0)).any fun t =>
        (t.server.files "fe05bcdcdc492801").current.h5.any (fun file => decide
          ((file.groups.map fun entry => (entry.2.stored, entry.2.magnitude)) =
            [(true, [[[[7]]]])])) &&
        decide (t.posted.length < t.written.length)) = true by decide +kernel)
  obtain ⟨t, hreturn, hend⟩ := (Option.any_eq_true _ _).mp hend
  rw [Bool.and_eq_true, Option.any_eq_true] at hend
  obtain ⟨⟨file, hfile, hgroups⟩, hlength⟩ := hend
  refine ⟨s, t, file, hrun, hreturn, hfile, of_decide_eq_true hgroups, fun hsub => ?_⟩
  exact absurd hsub.length_le (Nat.not_le_of_lt (of_decide_eq_true hlength))

end ApiState

end ComputeWebApp.Api
