import ComputeWebApp.Library.PriorityQueue
import ComputeWebApp.Upload.StampOrder

/-!
# The write queues

Calls of `post_value` run concurrently; each puts its attributes and then its body to the
write queue.  The write worker takes them from there, or, with ZMQ, a front-end worker forwards
them to the queue of the write process.

That the attributes of a call are handled before its body rests on the order of the two `put`
calls and on the priorities: a body is taken from a queue only when no attributes are in it
(`InOrder`).
-/

namespace ComputeWebApp.Api

open Transition

/-- What is in a queue, for one data: its creation, and the two items of each call. -/
inductive Job
  | creation
  | attributes (call : ℕ)
  | body (call : ℕ)
  deriving DecidableEq, Repr

/-- How far a call of `post_value` is. -/
inductive Stage
  | idle
  | attributesPut
  | done
  deriving DecidableEq, Repr

/-- One data and the values that are posted for it. -/
structure Server (keepFilesOpen : Bool) where
  useZmq : Bool
  created : Created keepFilesOpen
  posts : ℕ → ValuePost
  valid : ∀ call, (posts call).Valid created.data

/-- `front` is the queue of the application and `queue` the one that the write worker takes
from; they are the same queue without ZMQ, and `front` stays empty.  `sending` and `replying`
are the item that the front-end worker has taken, until the write process has put it and until
it has replied.  `handled` are the items that the write worker is done with. -/
structure ServerState where
  front : List Job := []
  sending : Option Job := none
  replying : Option Job := none
  queue : List Job := []
  unfinished : ℕ := 0
  busy : Option Job := none
  stuck : Bool := false
  data : DataState := {}
  stage : ℕ → Stage := fun _ => .idle
  handled : List Job := []

inductive Action
  | postAttributes (call : ℕ)
  | postBody (call : ℕ)
  | forward (position : ℕ)
  | receive
  | reply
  | take (position : ℕ)
  | handle
  deriving DecidableEq, Repr

namespace Server

variable {keepFilesOpen : Bool} (server : Server keepFilesOpen)

def prioritized : Job → PrioritizedItem
  | .creation => ⟨1, .creation server.created.data⟩
  | .attributes call => ⟨1, (server.posts call).attributesItem⟩
  | .body call =>
      ⟨10 + (server.posts call).groupIds.head (server.posts call).nonempty,
        (server.posts call).bodyItem⟩

def priority (job : Job) : ℕ := (server.prioritized job).priority

/-- A valid call puts both its items. -/
theorem postValue_eq (call : ℕ) :
    (server.posts call).postValue =
      .ok (server.prioritized (.attributes call), server.prioritized (.body call)) := by
  rw [ValuePost.postValue, (server.valid call).size, if_neg (by simp)]
  rfl

/-- `write_queue.put` -/
def put (s : ServerState) (job : Job) : ServerState :=
  if server.useZmq then { s with front := s.front ++ [job] }
  else { s with queue := s.queue ++ [job], unfinished := s.unfinished + 1 }

/-- The data has been posted: its creation is in the queue. -/
def initial : ServerState := server.put {} .creation

/-- `data_id in get_data_ids()`: the file exists, from the start of its creation. -/
def available (s : ServerState) : Bool :=
  s.busy = some .creation || s.data.h5.isSome

def step (s : ServerState) : Action → Option ServerState
  | .postAttributes call =>
      if s.stage call = .idle ∧ available s = true then
        some (server.put { s with stage := Function.update s.stage call .attributesPut }
          (.attributes call))
      else none
  | .postBody call =>
      if s.stage call = .attributesPut then
        some (server.put { s with stage := Function.update s.stage call .done } (.body call))
      else none
  | .forward position =>
      -- the front-end worker handles one item at a time
      if s.sending = none ∧ s.replying = none then
        (PriorityQueue.get server.priority s.front position).map fun taken =>
          { s with front := taken.2, sending := some taken.1 }
      else none
  | .receive =>
      s.sending.map fun job =>
        { s with
          sending := none
          replying := some job
          queue := s.queue ++ [job]
          unfinished := s.unfinished + 1 }
  | .reply =>
      -- the reply to a creation waits for `write_queue.join()`
      match s.replying with
      | none => none
      | some job =>
          if job = .creation ∧ s.unfinished ≠ 0 then none else some { s with replying := none }
  | .take position =>
      if s.busy = none then
        (PriorityQueue.get server.priority s.queue position).map fun taken =>
          { s with queue := taken.2, busy := some taken.1 }
      else none
  | .handle =>
      if s.stuck then none
      else
        match s.busy with
        | none => none
        | some job =>
            match handleItem keepFilesOpen (server.prioritized job).item s.data with
            | .ok _ data =>
                some { s with
                  data := data
                  busy := none
                  unfinished := s.unfinished - 1
                  handled := job :: s.handled }
            | .error (.raised _) data =>
                some { s with data := data, busy := none, handled := job :: s.handled }
            | .error .spins data => some { s with data := data, stuck := true }

/-! ## What a step does -/

section Inversion

variable {server} {s t : ServerState}

theorem step_postAttributes {call : ℕ} (h : server.step s (.postAttributes call) = some t) :
    (s.stage call = .idle ∧ available s = true) ∧
      t = server.put { s with stage := Function.update s.stage call .attributesPut }
        (.attributes call) := by
  simp only [step] at h
  split at h
  · rename_i hguard
    exact ⟨hguard, (Option.some.inj h).symm⟩
  · cases h

theorem step_postBody {call : ℕ} (h : server.step s (.postBody call) = some t) :
    s.stage call = .attributesPut ∧
      t = server.put { s with stage := Function.update s.stage call .done } (.body call) := by
  simp only [step] at h
  split at h
  · rename_i hguard
    exact ⟨hguard, (Option.some.inj h).symm⟩
  · cases h

theorem step_forward {position : ℕ} (h : server.step s (.forward position) = some t) :
    (s.sending = none ∧ s.replying = none) ∧ ∃ job rest,
      PriorityQueue.get server.priority s.front position = some (job, rest) ∧
        t = { s with front := rest, sending := some job } := by
  simp only [step] at h
  split at h
  · rename_i hguard
    obtain ⟨⟨job, rest⟩, hget, rfl⟩ := Option.map_eq_some_iff.mp h
    exact ⟨hguard, job, rest, hget, rfl⟩
  · cases h

theorem step_receive (h : server.step s .receive = some t) :
    ∃ job, s.sending = some job ∧ t = { s with
      sending := none
      replying := some job
      queue := s.queue ++ [job]
      unfinished := s.unfinished + 1 } := by
  obtain ⟨job, hsending, rfl⟩ := Option.map_eq_some_iff.mp h
  exact ⟨job, hsending, rfl⟩

theorem step_reply (h : server.step s .reply = some t) :
    (∃ job, s.replying = some job ∧ ¬(job = .creation ∧ s.unfinished ≠ 0)) ∧
      t = { s with replying := none } := by
  simp only [step] at h
  split at h
  · cases h
  · rename_i job hreplying
    split at h
    · cases h
    · rename_i hguard
      exact ⟨⟨job, hreplying, hguard⟩, (Option.some.inj h).symm⟩

theorem step_take {position : ℕ} (h : server.step s (.take position) = some t) :
    s.busy = none ∧ ∃ job rest,
      PriorityQueue.get server.priority s.queue position = some (job, rest) ∧
        t = { s with queue := rest, busy := some job } := by
  simp only [step] at h
  split at h
  · rename_i hguard
    obtain ⟨⟨job, rest⟩, hget, rfl⟩ := Option.map_eq_some_iff.mp h
    exact ⟨hguard, job, rest, hget, rfl⟩
  · cases h

/-- The write worker has handled its item, or spins in it. -/
theorem step_handle (h : server.step s .handle = some t) :
    s.stuck = false ∧ ∃ job, s.busy = some job ∧
      ((∃ unfinished, (unfinished = s.unfinished - 1 ∨ unfinished = s.unfinished) ∧ t = { s with
          data := stateOf (handleItem keepFilesOpen (server.prioritized job).item s.data)
          busy := none
          unfinished := unfinished
          handled := job :: s.handled }) ∨
        (∃ data, handleItem keepFilesOpen (server.prioritized job).item s.data =
          .error .spins data) ∧ t = { s with
          data := stateOf (handleItem keepFilesOpen (server.prioritized job).item s.data)
          stuck := true }) := by
  simp only [step] at h
  split at h
  · cases h
  rename_i hstuck
  refine ⟨by simpa using hstuck, ?_⟩
  split at h
  · cases h
  rename_i job hbusy
  refine ⟨job, hbusy, ?_⟩
  cases hrun : handleItem keepFilesOpen (server.prioritized job).item s.data with
  | ok left data =>
      rw [hrun] at h
      exact .inl ⟨s.unfinished - 1, .inl rfl, (Option.some.inj h).symm⟩
  | error stop data =>
      rw [hrun] at h
      cases stop with
      | raised exception => exact .inl ⟨s.unfinished, .inr rfl, (Option.some.inj h).symm⟩
      | spins => exact .inr ⟨⟨data, rfl⟩, (Option.some.inj h).symm⟩

end Inversion

/-! ## The order of the items of a call -/

/-- The attributes of a call have reached the queue of the write worker. -/
def Delivered (s : ServerState) (call : ℕ) : Prop :=
  .attributes call ∈ s.queue ∨ s.busy = some (.attributes call) ∨ .attributes call ∈ s.handled

def Pending (s : ServerState) (call : ℕ) : Prop :=
  .attributes call ∈ s.front ∨ s.sending = some (.attributes call) ∨ Delivered s call

/-- Wherever the body of a call is, its attributes are ahead. -/
structure InOrder (s : ServerState) : Prop where
  direct : server.useZmq = false → s.front = [] ∧ s.sending = none
  started : ∀ call, s.stage call ≠ .idle → Pending s call
  front : ∀ call, .body call ∈ s.front → s.stage call ≠ .idle
  sending : ∀ call, s.sending = some (.body call) → Delivered s call
  queue : ∀ call, .body call ∈ s.queue → Delivered s call
  busy : ∀ call, s.busy = some (.body call) → .attributes call ∈ s.handled

variable {server}

theorem priority_attributes_lt (call call' : ℕ) :
    server.priority (.attributes call) < server.priority (.body call') := by
  simp only [priority, prioritized]
  omega

theorem initial_inOrder : server.InOrder server.initial := by
  unfold initial put
  cases hzmq : server.useZmq <;> constructor <;> simp [hzmq]

/-- `put` of an item, and the stage of its call. -/
theorem InOrder.put {s : ServerState} (h : server.InOrder s) {call : ℕ} {stage : Stage} {job : Job}
    (hstage : stage ≠ .idle)
    (hjob : job = .attributes call ∨ job = .body call ∧ s.stage call ≠ .idle) :
    server.InOrder (server.put { s with stage := Function.update s.stage call stage } job) := by
  have hstarted : ∀ other, Function.update s.stage call stage other ≠ .idle →
      Pending s other ∨ job = .attributes other := by
    intro other hother
    by_cases heq : other = call
    · subst heq
      exact hjob.elim (fun hattributes => .inr hattributes) fun hbody => .inl (h.started _ hbody.2)
    · rw [Function.update_of_ne heq] at hother
      exact .inl (h.started other hother)
  have hkept : ∀ other, s.stage other ≠ .idle → Function.update s.stage call stage other ≠ .idle := by
    intro other hother
    by_cases heq : other = call
    · rw [heq, Function.update_self]
      exact hstage
    · rwa [Function.update_of_ne heq]
  unfold Server.put
  cases hzmq : server.useZmq with
  | true =>
      -- the item waits for the front-end worker
      refine ⟨by simp [hzmq], fun other hother => ?_, fun other hmem => ?_, h.sending, h.queue, h.busy⟩
      · rcases hstarted other hother with (hfront | hrest) | rfl
        · exact .inl (List.mem_append_left _ hfront)
        · exact .inr hrest
        · exact .inl (by simp)
      · rcases List.mem_append.mp hmem with hmem | hmem
        · exact hkept other (h.front other hmem)
        · obtain rfl := List.mem_singleton.mp hmem
          obtain ⟨heq, hcall⟩ := hjob.resolve_left (by simp)
          cases heq
          exact hkept _ hcall
  | false =>
      obtain ⟨hfront, hsending⟩ := h.direct hzmq
      have hdelivered : ∀ other, Delivered s other →
          .attributes other ∈ s.queue ++ [job] ∨ s.busy = some (.attributes other) ∨
            .attributes other ∈ s.handled :=
        fun other hother => hother.imp_left fun hmem => List.mem_append_left _ hmem
      have hpending : ∀ other, Pending s other → Delivered s other := by
        intro other hother
        simpa [Pending, hfront, hsending] using hother
      refine ⟨fun _ => ⟨hfront, hsending⟩, fun other hother => ?_, by simp [hfront],
        by simp [hsending], fun other hmem => ?_, h.busy⟩
      · rcases hstarted other hother with hother | rfl
        · exact .inr (.inr (hdelivered other (hpending other hother)))
        · exact .inr (.inr (.inl (by simp)))
      · rcases List.mem_append.mp hmem with hmem | hmem
        · exact hdelivered other (h.queue other hmem)
        · obtain rfl := List.mem_singleton.mp hmem
          obtain ⟨heq, hcall⟩ := hjob.resolve_left (by simp)
          cases heq
          exact hdelivered _ (hpending _ (h.started _ hcall))

theorem step_inOrder {s t : ServerState} {action : Action} (h : server.InOrder s)
    (hstep : server.step s action = some t) : server.InOrder t := by
  cases action with
  | postAttributes call =>
      obtain ⟨-, rfl⟩ := step_postAttributes hstep
      exact h.put (by simp) (.inl rfl)
  | postBody call =>
      obtain ⟨hstage, rfl⟩ := step_postBody hstep
      exact h.put (by simp) (.inr ⟨rfl, by simp [hstage]⟩)
  | forward position =>
      obtain ⟨hidle, job, rest, hget, rfl⟩ := step_forward hstep
      obtain ⟨hmem, -, hrest⟩ := PriorityQueue.get_eq_some hget
      refine ⟨fun hzmq => ?_, fun call hcall => ?_, fun call hbody => ?_, fun call hbody => ?_,
        h.queue, h.busy⟩
      · rw [(h.direct hzmq).1] at hmem
        cases hmem
      · rcases h.started call hcall with hfront | hsending | hdelivered
        · rcases (hrest _).mp hfront with rfl | hfront
          · exact .inr (.inl rfl)
          · exact .inl hfront
        · rw [hidle.1] at hsending
          cases hsending
        · exact .inr (.inr hdelivered)
      · exact h.front call ((hrest _).mpr (.inr hbody))
      · -- the attributes of the call have left the queue before
        cases hbody
        rcases h.started call (h.front call hmem) with hfront | hsending | hdelivered
        · exact absurd hfront (PriorityQueue.not_mem_of_get hget (priority_attributes_lt _ _))
        · rw [hidle.1] at hsending
          cases hsending
        · exact hdelivered
  | receive =>
      obtain ⟨job, hsending, rfl⟩ := step_receive hstep
      have hdelivered : ∀ call, Delivered s call →
          .attributes call ∈ s.queue ++ [job] ∨ s.busy = some (.attributes call) ∨
            .attributes call ∈ s.handled :=
        fun call hcall => hcall.imp_left fun hmem => List.mem_append_left _ hmem
      refine ⟨fun hzmq => ?_, fun call hcall => ?_, h.front, by simp, fun call hbody => ?_, h.busy⟩
      · rw [(h.direct hzmq).2] at hsending
        cases hsending
      · rcases h.started call hcall with hfront | hjob | hcall
        · exact .inl hfront
        · rw [hsending] at hjob
          cases hjob
          exact .inr (.inr (.inl (by simp)))
        · exact .inr (.inr (hdelivered call hcall))
      · rcases List.mem_append.mp hbody with hbody | hbody
        · exact hdelivered call (h.queue call hbody)
        · obtain rfl := List.mem_singleton.mp hbody
          exact hdelivered call (h.sending call hsending)
  | reply =>
      obtain ⟨-, rfl⟩ := step_reply hstep
      exact ⟨h.direct, h.started, h.front, h.sending, h.queue, h.busy⟩
  | take position =>
      obtain ⟨hidle, job, rest, hget, rfl⟩ := step_take hstep
      obtain ⟨hmem, -, hrest⟩ := PriorityQueue.get_eq_some hget
      have hdelivered : ∀ call, Delivered s call →
          .attributes call ∈ rest ∨ some job = some (.attributes call) ∨
            .attributes call ∈ s.handled := by
        rintro call (hqueue | hbusy | hhandled)
        · rcases (hrest _).mp hqueue with rfl | hqueue
          · exact .inr (.inl rfl)
          · exact .inl hqueue
        · rw [hidle] at hbusy
          cases hbusy
        · exact .inr (.inr hhandled)
      refine ⟨h.direct, fun call hcall => ?_, h.front,
        fun call hbody => hdelivered call (h.sending call hbody),
        fun call hbody => hdelivered call (h.queue call ((hrest _).mpr (.inr hbody))),
        fun call hbody => ?_⟩
      · exact (h.started call hcall).imp_right fun hcall => hcall.imp_right (hdelivered call)
      · -- of the two items of a call in the queue the attributes come first
        cases hbody
        rcases h.queue call hmem with hqueue | hbusy | hhandled
        · exact absurd hqueue (PriorityQueue.not_mem_of_get hget (priority_attributes_lt _ _))
        · rw [hidle] at hbusy
          cases hbusy
        · exact hhandled
  | handle =>
      obtain ⟨-, job, hbusy, hleft⟩ := step_handle hstep
      have hdelivered : ∀ call, Delivered s call →
          .attributes call ∈ s.queue ∨ (none : Option Job) = some (.attributes call) ∨
            .attributes call ∈ job :: s.handled := by
        rintro call (hqueue | hjob | hhandled)
        · exact .inl hqueue
        · rw [hbusy] at hjob
          cases hjob
          exact .inr (.inr List.mem_cons_self)
        · exact .inr (.inr (List.mem_cons_of_mem _ hhandled))
      rcases hleft with ⟨unfinished, -, rfl⟩ | ⟨-, rfl⟩
      · exact ⟨h.direct, fun call hcall => (h.started call hcall).imp_right fun hcall =>
            hcall.imp_right (hdelivered call), h.front,
          fun call hbody => hdelivered call (h.sending call hbody),
          fun call hbody => hdelivered call (h.queue call hbody), by simp⟩
      · exact ⟨h.direct, h.started, h.front, h.sending, h.queue, h.busy⟩

/-! ## The data -/

/-- The creation has been taken by the write worker. -/
structure CreationTaken (s : ServerState) : Prop where
  front : .creation ∉ s.front
  sending : s.sending ≠ some .creation
  queue : .creation ∉ s.queue

variable (server)

/-- The creation is on its way. -/
structure Waiting (s : ServerState) : Prop where
  data : s.data = {}
  busy : s.busy = none
  handled : s.handled = []
  stage : ∀ call, s.stage call = .idle
  creation : s.front ++ (s.sending.toList ++ s.queue) = [.creation]

structure Creating (s : ServerState) : Prop where
  taken : CreationTaken s
  data : s.data = {}
  busy : s.busy = some .creation
  handled : s.handled = []

/-- The data has been created, and the groups of the handled attributes are uploaded. -/
structure Ready (s : ServerState) : Prop where
  taken : CreationTaken s
  busy : s.busy ≠ some .creation
  healthy : ∃ file, Healthy server.created.data keepFilesOpen s.data file ∧
    ∀ call, .attributes call ∈ s.handled → GroupsUploaded (server.posts call) file

theorem CreationTaken.put {s : ServerState} (h : CreationTaken s) (job : Job)
    (hjob : job ≠ .creation) : CreationTaken (server.put s job) := by
  unfold Server.put
  split
  · refine ⟨?_, h.sending, h.queue⟩
    simpa [h.front] using hjob.symm
  · refine ⟨h.front, h.sending, ?_⟩
    simpa [h.queue] using hjob.symm

variable {server}

@[simp] theorem data_put (s : ServerState) (job : Job) : (server.put s job).data = s.data := by
  unfold put
  split <;> rfl

@[simp] theorem busy_put (s : ServerState) (job : Job) : (server.put s job).busy = s.busy := by
  unfold put
  split <;> rfl

@[simp] theorem handled_put (s : ServerState) (job : Job) :
    (server.put s job).handled = s.handled := by
  unfold put
  split <;> rfl

/-- A step that puts an item of a call, forwards one or takes a reply: nothing happens to the
data, and the creation does not come back. -/
theorem step_taken {s t : ServerState} {action : Action} (h : CreationTaken s)
    (hstep : server.step s action = some t)
    (haction : action ≠ .handle ∧ ∀ position, action ≠ .take position) :
    CreationTaken t ∧ t.data = s.data ∧ t.busy = s.busy ∧ t.handled = s.handled := by
  cases action with
  | postAttributes call =>
      obtain ⟨-, rfl⟩ := step_postAttributes hstep
      have htaken : CreationTaken { s with stage := Function.update s.stage call .attributesPut } :=
        ⟨h.front, h.sending, h.queue⟩
      exact ⟨htaken.put server (.attributes call) (by simp), by simp, by simp, by simp⟩
  | postBody call =>
      obtain ⟨-, rfl⟩ := step_postBody hstep
      have htaken : CreationTaken { s with stage := Function.update s.stage call .done } :=
        ⟨h.front, h.sending, h.queue⟩
      exact ⟨htaken.put server (.body call) (by simp), by simp, by simp, by simp⟩
  | forward position =>
      obtain ⟨-, job, rest, hget, rfl⟩ := step_forward hstep
      obtain ⟨hmem, -, hrest⟩ := PriorityQueue.get_eq_some hget
      refine ⟨⟨fun hcreation => h.front ((hrest _).mpr (.inr hcreation)), ?_, h.queue⟩, rfl, rfl,
        rfl⟩
      rintro hjob
      cases hjob
      exact h.front hmem
  | receive =>
      obtain ⟨job, hsending, rfl⟩ := step_receive hstep
      refine ⟨⟨h.front, by simp, fun hcreation => ?_⟩, rfl, rfl, rfl⟩
      rcases List.mem_append.mp hcreation with hcreation | hcreation
      · exact h.queue hcreation
      · obtain rfl := List.mem_singleton.mp hcreation
        exact h.sending hsending
  | reply =>
      obtain ⟨-, rfl⟩ := step_reply hstep
      exact ⟨⟨h.front, h.sending, h.queue⟩, rfl, rfl, rfl⟩
  | take position => exact absurd rfl (haction.2 position)
  | handle => exact absurd rfl haction.1

theorem Waiting.step {s t : ServerState} {action : Action} (h : Waiting s)
    (hstep : server.step s action = some t) : Waiting t ∨ Creating t := by
  cases action with
  | postAttributes call => simp [Server.step, available, h.busy, h.data] at hstep
  | postBody call => simp [Server.step, h.stage] at hstep
  | forward position =>
      obtain ⟨hidle, job, rest, hget, rfl⟩ := step_forward hstep
      have hcreation := h.creation
      rw [hidle.1, Option.toList_none, List.nil_append, List.append_eq_singleton_iff] at hcreation
      -- the creation is the only item of both queues
      rcases hcreation with ⟨hfront, hqueue⟩ | ⟨hfront, hqueue⟩
      · rw [hfront] at hget
        simp [PriorityQueue.get] at hget
      · rw [hfront] at hget
        obtain ⟨rfl, rfl⟩ := PriorityQueue.get_singleton hget
        exact .inl ⟨h.data, h.busy, h.handled, h.stage, by simp [hqueue]⟩
  | receive =>
      obtain ⟨job, hsending, rfl⟩ := step_receive hstep
      refine .inl ⟨h.data, h.busy, h.handled, h.stage, ?_⟩
      have hcreation := h.creation
      rw [hsending] at hcreation
      simp only [Option.toList_some, List.singleton_append, List.append_eq_singleton_iff,
        List.cons.injEq] at hcreation
      simp_all
  | reply =>
      obtain ⟨-, rfl⟩ := step_reply hstep
      exact .inl ⟨h.data, h.busy, h.handled, h.stage, h.creation⟩
  | take position =>
      obtain ⟨-, job, rest, hget, rfl⟩ := step_take hstep
      have hmem := (PriorityQueue.get_eq_some hget).1
      have hcreation := h.creation
      rw [← List.append_assoc, List.append_eq_singleton_iff] at hcreation
      rcases hcreation with ⟨hbefore, hqueue⟩ | ⟨-, hqueue⟩
      · rw [hqueue] at hget
        obtain ⟨rfl, rfl⟩ := PriorityQueue.get_singleton hget
        obtain ⟨hfront, hsending⟩ := List.append_eq_nil_iff.mp hbefore
        refine .inr ⟨⟨by simp [hfront], ?_, by simp⟩, h.data, rfl, h.handled⟩
        rintro hsome
        simp only at hsome
        simp [hsome] at hsending
      · rw [hqueue] at hmem
        cases hmem
  | handle => simp [Server.step, h.busy] at hstep

theorem Creating.step {s t : ServerState} {action : Action} (h : Creating s)
    (hslices : 0 < server.created.data.slices)
    (havoids : ∀ name ∈ ["cwa_stored", "cwa_uploaded"], server.created.data.Avoids name)
    (hstep : server.step s action = some t) : Creating t ∨ server.Ready t := by
  by_cases hother : action ≠ .handle ∧ ∀ position, action ≠ .take position
  · obtain ⟨htaken, hdata, hbusy, hhandled⟩ := step_taken h.taken hstep hother
    exact .inl ⟨htaken, hdata.trans h.data, hbusy.trans h.busy, hhandled.trans h.handled⟩
  · cases action with
    | take position => simp [Server.step, h.busy] at hstep
    | handle =>
        obtain ⟨-, job, hbusy, hleft⟩ := step_handle hstep
        obtain rfl : .creation = job := Option.some.inj (h.busy.symm.trans hbusy)
        rw [h.data, prioritized, server.created.creates] at hleft
        rcases hleft with ⟨unfinished, -, rfl⟩ | ⟨⟨data, hspins⟩, -⟩
        · refine .inr ⟨⟨h.taken.front, h.taken.sending, h.taken.queue⟩, by simp, _,
            server.created.healthy hslices havoids, fun call hmem => ?_⟩
          simp [h.handled] at hmem
        · cases hspins
    | postAttributes call => simp at hother
    | postBody call => simp at hother
    | forward position => simp at hother
    | receive => simp at hother
    | reply => simp at hother

theorem Ready.step {s t : ServerState} {action : Action} (h : server.Ready s)
    (horder : server.InOrder s) (hstep : server.step s action = some t) : server.Ready t := by
  by_cases hother : action ≠ .handle ∧ ∀ position, action ≠ .take position
  · obtain ⟨htaken, hdata, hbusy, hhandled⟩ := step_taken h.taken hstep hother
    exact ⟨htaken, hbusy ▸ h.busy, by rw [hdata, hhandled]; exact h.healthy⟩
  · cases action with
    | take position =>
        obtain ⟨-, job, rest, hget, rfl⟩ := step_take hstep
        obtain ⟨hmem, -, hrest⟩ := PriorityQueue.get_eq_some hget
        refine ⟨⟨h.taken.front, h.taken.sending, fun hcreation =>
          h.taken.queue ((hrest _).mpr (.inr hcreation))⟩, ?_, h.healthy⟩
        rintro hjob
        cases hjob
        exact h.taken.queue hmem
    | handle =>
        obtain ⟨file, hhealthy, hgroups⟩ := h.healthy
        obtain ⟨-, job, hbusy, hleft⟩ := step_handle hstep
        -- whatever becomes of the item
        obtain ⟨file', hafter, hjob, hkept⟩ : ∃ file',
            Healthy server.created.data keepFilesOpen
              (stateOf (handleItem keepFilesOpen (server.prioritized job).item s.data)) file' ∧
            (∀ call, job = .attributes call → GroupsUploaded (server.posts call) file') ∧
            ∀ other, GroupsUploaded other file → GroupsUploaded other file' := by
          cases job with
          | creation => exact absurd hbusy h.busy
          | attributes call =>
              obtain ⟨file', hafter, huploaded, hkept⟩ :=
                attributes_healthy hhealthy (server.valid call)
              refine ⟨file', hafter, fun other heq => ?_, hkept⟩
              cases heq
              exact huploaded
          | body call =>
              obtain ⟨file', hafter, hkept⟩ := body_healthy hhealthy (server.valid call)
                (hgroups call (horder.busy call hbusy))
              exact ⟨file', hafter, by simp, hkept⟩
        have hhandled : ∀ call, .attributes call ∈ job :: s.handled →
            GroupsUploaded (server.posts call) file' := by
          intro call hmem
          rcases List.mem_cons.mp hmem with heq | hmem
          · exact hjob call heq.symm
          · exact hkept _ (hgroups call hmem)
        rcases hleft with ⟨unfinished, -, rfl⟩ | ⟨-, rfl⟩
        · exact ⟨⟨h.taken.front, h.taken.sending, h.taken.queue⟩, by simp, file', hafter, hhandled⟩
        · exact ⟨⟨h.taken.front, h.taken.sending, h.taken.queue⟩, h.busy, file', hafter,
            fun call hmem => hkept _ (hgroups call hmem)⟩
    | postAttributes call => simp at hother
    | postBody call => simp at hother
    | forward position => simp at hother
    | receive => simp at hother
    | reply => simp at hother

/-- **Stored implies uploaded.**  In every interleaving of the calls with the front-end worker
and the write worker, every state of the file that a reader can see has only groups stored that
are uploaded, and is stored only when it was uploaded earlier. -/
theorem stored_implies_uploaded {server : Server keepFilesOpen}
    (havoids : ∀ name ∈ ["cwa_stored", "cwa_uploaded"], server.created.data.Avoids name)
    {s : ServerState} (hreach : Reachable server.step server.initial s) :
    (∀ seen ∈ s.data.published, StoredUploaded seen) ∧
      ∀ file, s.data.h5 = some file → StoredUploaded file := by
  have hslices : 0 < server.created.data.slices := by
    obtain ⟨i, hi⟩ := List.exists_mem_of_ne_nil _ (server.posts 0).nonempty
    exact Nat.zero_lt_of_lt ((server.valid 0).groups i hi)
  have hwaiting : Waiting server.initial := by
    unfold initial put
    cases server.useZmq <;> constructor <;> simp
  obtain ⟨-, hphase⟩ := hreach.invariant
    (P := fun s => server.InOrder s ∧ (Waiting s ∨ Creating s ∨ server.Ready s))
    ⟨initial_inOrder, .inl hwaiting⟩
    fun s action t _ ⟨horder, hphase⟩ hstep => by
      refine ⟨step_inOrder horder hstep, ?_⟩
      rcases hphase with hwaiting | hcreating | hready
      · exact (hwaiting.step hstep).imp_right .inl
      · exact .inr (hcreating.step hslices havoids hstep)
      · exact .inr (.inr (hready.step horder hstep))
  rcases hphase with hwaiting | hcreating | hready
  · simp [hwaiting.data]
  · simp [hcreating.data]
  · obtain ⟨file, hhealthy, -⟩ := hready.healthy
    refine ⟨hhealthy.seen, fun file' hfile => ?_⟩
    rw [hhealthy.h5] at hfile
    cases hfile
    exact hhealthy.seen file hhealthy.current

/-- Two slices, posted one after the other, again and again. -/
def twoSlices (useZmq : Bool) : Server false where
  useZmq := useZmq
  created := createdSlices false
  posts := fun k =>
    if k % 2 = 0 then slicesPost 1 [] [5, 6, 7, 8] else slicesPost 0 [] [1, 2, 3, 4]
  valid := fun k => by split <;> exact ⟨by decide, by decide⟩

/-- The data is created, and both slices are uploaded and stored, through the front-end queue. -/
def twoSlicesStored : List Action :=
  [.forward 0, .receive, .take 0, .handle, .reply, .postAttributes 0, .postBody 0,
    .postAttributes 1, .forward 0, .receive, .take 0, .postBody 1, .reply, .forward 1, .handle,
    .receive, .reply, .forward 1, .take 0, .receive, .reply, .handle, .forward 0, .receive, .take 0,
    .handle, .reply, .take 0, .handle]

theorem stored_implies_uploaded_two_slices :
    ∃ s, Reachable (twoSlices true).step (twoSlices true).initial s ∧ s.handled.length = 5 ∧
      (s.data.h5.bind fun file => file.truthOf "cwa_stored") = some true ∧
      (∀ seen ∈ s.data.published, StoredUploaded seen) ∧
      ∀ file, s.data.h5 = some file → StoredUploaded file := by
  obtain ⟨s, hreach, hend⟩ := Reachable.exists_of_run
    (show (run (twoSlices true).step (twoSlices true).initial twoSlicesStored).any
      (fun s => decide (s.handled.length = 5 ∧
        (s.data.h5.bind fun file => file.truthOf "cwa_stored") = some true)) = true by
          decide +kernel)
  obtain ⟨hhandled, hstored⟩ := of_decide_eq_true hend
  exact ⟨s, hreach, hhandled, hstored, stored_implies_uploaded (by decide) hreach⟩

/-- The same with a posted attribute `cwa_stored`. -/
def storedPosted : Server false where
  useZmq := false
  created :=
    { data := { Api.onePixel with attributes := [("cwa_stored", .bool true)] }
      state := _
      creates := rfl }
  posts := fun _ => ⟨[0], [7, 8], by decide⟩
  valid := fun _ => ⟨by decide, by decide⟩

/-- With such an attribute the data is stored from its creation, and never uploaded. -/
theorem stored_not_uploaded :
    ∃ server : Server false, ∃ s, Reachable server.step server.initial s ∧
      ∃ file, s.data.h5 = some file ∧ file.isSet "cwa_stored" ∧ ¬file.isSet "cwa_uploaded" := by
  obtain ⟨s, hreach, hflags⟩ := Reachable.exists_of_run
    (show (run storedPosted.step storedPosted.initial [.take 0, .handle]).any
      (fun s => s.data.h5.any fun file =>
        decide ((file.attrs "cwa_stored").bind AttrValue.truthy = some true ∧
          (file.attrs "cwa_uploaded").bind AttrValue.truthy ≠ some true)) = true by decide +kernel)
  obtain ⟨file, hfile, hflags⟩ := (Option.any_eq_true _ _).mp hflags
  exact ⟨storedPosted, s, hreach, file, hfile, (of_decide_eq_true hflags).1,
    (of_decide_eq_true hflags).2⟩

end Server

end ComputeWebApp.Api
