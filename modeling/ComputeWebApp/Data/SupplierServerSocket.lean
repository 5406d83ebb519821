import ComputeWebApp.Data.Wire
import ComputeWebApp.Data.SocketServer

/-!
# Supplying datasets through sockets

One `DataSupplier` on a `DatasetSupplierServerSocket`: `Run` pushes every dataset to one of the
clients in `client_sockets_` and then ends with `PushEndSignal`, while the accept handler of the
server registers clients.  `sent c` are the buffers that were handed to `send` on the connection
`c`, each of them transmitted as a whole.

Until `PushEndSignal` sets the callback no end id is sent.  From then on a client gets its end id
from the callback, unless the handler was past it, and from the sweep over the map, unless its
entry was inserted behind it; the callback is set before `stop_registering_`, and that before
the sweep, so that no client misses both (`Answered`).
-/

namespace ComputeWebApp.Data

open Transition OrderedMap ByteStream

/-- `send` on the connection `c`. -/
def sendTo (sent : ℕ → List Bytes) (c : ℕ) (bytes : Bytes) : ℕ → List Bytes :=
  Function.update sent c (sent c ++ [bytes])

/-- Where `DataSupplier::Run` is: in `GrabDataset`; in the `PushDataset` of the dataset `i`,
waiting for a client, collecting the client ids, or with the buffers `left` to send to `c`; in
`PushEndSignal`, before the callback, before the flag, or with the end id sent up to the client
id `last`; or after it. -/
inductive SupplierStage
  | grabbing
  | waiting (i : ℕ) (frame : List Bytes)
  | collecting (i : ℕ) (frame : List Bytes) (clientIds : List ℕ)
  | sending (i c : ℕ) (left : List Bytes)
  | ending
  | stopping
  | sweeping (last : Option ℕ)
  | finished
  deriving DecidableEq, Repr

/-- `returned` are the datasets whose `PushDataset` has returned, with the connection that it has
sent them to. -/
structure SocketSupplier where
  server : SocketServer := {}
  stage : SupplierStage := .grabbing
  datasetsToProvide : List ℕ
  returned : List (ℕ × ℕ) := []
  sent : ℕ → List Bytes := fun _ => []

namespace SocketSupplier

variable (files : Files) (input : DataSupplyState)

/-- The buffers that `PushDataset` sends for the dataset `i`; none when its content cannot be
retrieved. -/
def frame (i : ℕ) : Option (List Bytes) :=
  (input.datasets[i]?).bind fun dataset => (datasetFrame files dataset i).toOption

/-- `OnClientRegistered`, and what `PushEndSignal` does for each client. -/
def sendEnd (supplier : SocketSupplier) (c : ℕ) : SocketSupplier :=
  { supplier with sent := sendTo supplier.sent c endFrame }

/-- The next step of `Run`. -/
def run (supplier : SocketSupplier) : Option SocketSupplier :=
  match supplier.stage with
  | .grabbing =>
      match supplier.datasetsToProvide with
      | [] => some { supplier with stage := .ending }
      | i :: rest =>
          (frame files input i).map fun frame =>
            { supplier with stage := .waiting i frame, datasetsToProvide := rest }
  | .waiting i frame =>
      if supplier.server.clientSockets.isEmpty then none
      else some { supplier with stage := .collecting i frame [] }
  | .collecting i frame clientIds =>
      match next? supplier.server.clientSockets clientIds.getLast? with
      | some id => some { supplier with stage := .collecting i frame (clientIds ++ [id]) }
      | none =>
          ((clientIds[i % clientIds.length]?).bind fun id => supplier.server.clientSockets[id]?).map
            fun c => { supplier with stage := .sending i c frame }
  | .sending i c (bytes :: left) =>
      some { supplier with stage := .sending i c left, sent := sendTo supplier.sent c bytes }
  | .sending i c [] =>
      some { supplier with stage := .grabbing, returned := supplier.returned ++ [(i, c)] }
  | .ending =>
      some { supplier with stage := .stopping, server := supplier.server.setRegistrationCallback }
  | .stopping =>
      some { supplier with stage := .sweeping none, server := supplier.server.stopRegistration }
  | .sweeping last =>
      match next? supplier.server.clientSockets last with
      | some id =>
          (supplier.server.clientSockets[id]?).map fun c =>
            { supplier.sendEnd c with stage := .sweeping (some id) }
      | none => some { supplier with stage := .finished }
  | .finished => none

/-- `otherServer` is a registration on another server of the process. -/
inductive Action
  | otherServer
  | accept (c : ℕ)
  | handle
  | run
  deriving DecidableEq, Repr

/-- A state is `next_client_id` and the supplier. -/
def step (s : ℕ × SocketSupplier) : Action → Option (ℕ × SocketSupplier)
  | .otherServer => some (countRegistration s.1, s.2)
  | .accept c =>
      (s.2.server.accept s.1 c).map fun server => (s.1, { s.2 with server := server })
  | .handle =>
      s.2.server.handle.map fun (server, effect) =>
        let supplier := { s.2 with server := server }
        match effect with
        | .silent => (s.1, supplier)
        | .called c _ => (s.1, supplier.sendEnd c)
        | .counted => (countRegistration s.1, supplier)
  | .run => (s.2.run files input).map fun supplier => (s.1, supplier)

/-- The process before the first registration. -/
def initial : ℕ × SocketSupplier := (1, { datasetsToProvide := input.datasetsToProvide })

/-! ## What was sent to a client -/

end SocketSupplier

namespace SupplierStage

/-- The dataset whose `PushDataset` has not returned. -/
def pushing : SupplierStage → Option ℕ
  | waiting i _ => some i
  | collecting i _ _ => some i
  | sending i _ _ => some i
  | _ => none

/-- The loop of `Run` has ended. -/
def looped : SupplierStage → Bool
  | ending => true
  | stopping => true
  | sweeping _ => true
  | finished => true
  | _ => false

/-- `PushEndSignal` has set the callback. -/
def callbackSet : SupplierStage → Bool
  | stopping => true
  | sweeping _ => true
  | finished => true
  | _ => false

/-- `PushEndSignal` has set `stop_registering_`. -/
def stopped : SupplierStage → Bool
  | sweeping _ => true
  | finished => true
  | _ => false

/-- The sweep has come past the key `id`. -/
def Swept (id : ℕ) : SupplierStage → Prop
  | sweeping last => ¬Ahead last id
  | finished => True
  | _ => False

theorem looped_of_callbackSet {stage : SupplierStage} (h : stage.callbackSet = true) :
    stage.looped = true := by
  cases stage <;> first | rfl | cases h

theorem callbackSet_of_stopped {stage : SupplierStage} (h : stage.stopped = true) :
    stage.callbackSet = true := by
  cases stage <;> first | rfl | cases h

theorem Swept.callbackSet {id : ℕ} {stage : SupplierStage} (h : stage.Swept id) :
    stage.callbackSet = true := by
  cases stage <;> first | rfl | cases h

end SupplierStage

namespace SocketSupplier

variable {files : Files} {input : DataSupplyState}

variable (files input) in
/-- The buffers of the datasets that were sent to `c`. -/
def framesTo (returned : List (ℕ × ℕ)) (c : ℕ) : List Bytes :=
  (returned.filter fun push => push.2 = c).flatMap fun push =>
    (frame files input push.1).getD []

variable (files input) in
/-- `begun` are the buffers that `PushDataset` has sent of the dataset that it is sending. -/
def Begun (begun : ℕ → List Bytes) : SupplierStage → Prop
  | .waiting i frame' => frame files input i = some frame' ∧ ∀ c, begun c = []
  | .collecting i frame' _ => frame files input i = some frame' ∧ ∀ c, begun c = []
  | .sending i c left => frame files input i = some (begun c ++ left) ∧ ∀ other ≠ c, begun other = []
  | _ => ∀ c, begun c = []

variable (files input) in
/-- Every client was sent whole frames, the buffers of a frame that is being sent, and `ends`
end ids. -/
structure Supplied (begun : ℕ → List Bytes) (ends : ℕ → ℕ) (supplier : SocketSupplier) : Prop where
  order : supplier.returned.map Prod.fst ++
    (supplier.stage.pushing.toList ++ supplier.datasetsToProvide) = input.datasetsToProvide
  provided : supplier.stage.looped = true → supplier.datasetsToProvide = []
  frames : ∀ push ∈ supplier.returned, (frame files input push.1).isSome
  sent : ∀ c, supplier.sent c =
    framesTo files input supplier.returned c ++ begun c ++ List.replicate (ends c) endFrame
  begun : Begun files input begun supplier.stage
  callback : supplier.server.callback = supplier.stage.callbackSet
  stop : supplier.server.stopRegistering = supplier.stage.stopped
  ends : ∀ c, ends c ≠ 0 → supplier.stage.callbackSet = true

/-- A client that the handler has left is in the map or has its end id, and one that the sweep has
come past has its end id or is about to get it from the handler. -/
structure Answered (ends : ℕ → ℕ) (supplier : SocketSupplier) : Prop where
  registered : ∀ c ∈ supplier.server.accepted, supplier.server.handler.unanswered ≠ some c →
    ends c ≠ 0 ∨ supplier.server.Holds c
  calling : ∀ c id, supplier.server.handler = .calling c id →
    supplier.stage.stopped = true ∨ supplier.server.Holds c
  swept : ∀ (id : ℕ) c, supplier.server.clientSockets[id]? = some c → supplier.stage.Swept id →
    ends c ≠ 0 ∨ ∃ id, supplier.server.handler = .calling c id

theorem supplied_initial :
    Supplied files input (fun _ => []) (fun _ => 0) (initial input).2 where
  order := rfl
  provided := fun h => by cases h
  frames := fun _ h => by cases h
  sent := fun _ => rfl
  begun := fun _ => rfl
  callback := rfl
  stop := rfl
  ends := fun _ h => absurd rfl h

theorem answered_initial : Answered (fun _ => 0) (initial input).2 where
  registered := fun _ h => by cases h
  calling := fun _ _ h => by cases h
  swept := fun _ _ _ h => by cases h

/-- One more end id to `c`. -/
def moreEnds (ends : ℕ → ℕ) (c : ℕ) : ℕ → ℕ := Function.update ends c (ends c + 1)

theorem moreEnds_self (ends : ℕ → ℕ) (c : ℕ) : moreEnds ends c c ≠ 0 := by
  simp [moreEnds]

theorem moreEnds_of_ne_zero {ends : ℕ → ℕ} {other : ℕ} (c : ℕ) (h : ends other ≠ 0) :
    moreEnds ends c other ≠ 0 := by
  by_cases heq : other = c
  · rw [heq]
    exact moreEnds_self ends c
  · rwa [moreEnds, Function.update_of_ne heq]

section Step

variable {begun : ℕ → List Bytes} {ends : ℕ → ℕ} {supplier supplier' : SocketSupplier}

/-- What is sent does not change when the handler changes the server. -/
theorem Supplied.of_server (h : Supplied files input begun ends supplier) (server : SocketServer)
    (hcallback : server.callback = supplier.server.callback)
    (hstop : server.stopRegistering = supplier.server.stopRegistering) :
    Supplied files input begun ends { supplier with server := server } :=
  ⟨h.order, h.provided, h.frames, h.sent, h.begun, hcallback.trans h.callback,
    hstop.trans h.stop, h.ends⟩

theorem Supplied.sendEnd (h : Supplied files input begun ends supplier) (c : ℕ)
    (hcallback : supplier.stage.callbackSet = true) :
    Supplied files input begun (moreEnds ends c) (supplier.sendEnd c) where
  order := h.order
  provided := h.provided
  frames := h.frames
  sent := by
    intro other
    by_cases heq : other = c
    · subst heq
      simp only [SocketSupplier.sendEnd, sendTo, Function.update_self, h.sent, moreEnds,
        List.replicate_succ', List.append_assoc]
    · simp only [SocketSupplier.sendEnd, sendTo, moreEnds, Function.update_of_ne heq, h.sent]
  begun := h.begun
  callback := h.callback
  stop := h.stop
  ends := fun _ _ => hcallback

/-- No end id is sent before the callback is set. -/
theorem Supplied.ends_eq_zero (h : Supplied files input begun ends supplier)
    (hunset : supplier.stage.callbackSet = false) (c : ℕ) : ends c = 0 := by
  by_contra hne
  rw [h.ends c hne] at hunset
  cases hunset

/-- The next buffer of a frame is sent. -/
theorem Supplied.sendBuffer (h : Supplied files input begun ends supplier) {i c : ℕ} {bytes : Bytes}
    {left : List Bytes} (hstage : supplier.stage = .sending i c (bytes :: left)) :
    Supplied files input (Function.update begun c (begun c ++ [bytes])) ends
      { supplier with stage := .sending i c left, sent := sendTo supplier.sent c bytes } := by
  have hnone : ∀ other, ends other = 0 := h.ends_eq_zero (by rw [hstage]; rfl)
  obtain ⟨server, stage, queue, returned, sent⟩ := supplier
  cases hstage
  obtain ⟨hframe, hothers⟩ := h.begun
  refine ⟨h.order, h.provided, h.frames, fun other => ?_, ⟨?_, fun other hne => ?_⟩,
    h.callback, h.stop, h.ends⟩
  · have hsent := h.sent other
    dsimp only at hsent
    dsimp only [sendTo]
    by_cases heq : other = c
    · subst heq
      simp [hsent, hnone]
    · simp [heq, hsent]
  · simpa using hframe
  · rw [Function.update_of_ne hne]
    exact hothers other hne

/-- The frame has been sent, and the dataset joins the ones that were sent to `c`. -/
theorem Supplied.finishFrame (h : Supplied files input begun ends supplier) {i c : ℕ}
    (hstage : supplier.stage = .sending i c []) :
    Supplied files input (fun _ => []) ends
      { supplier with stage := .grabbing, returned := supplier.returned ++ [(i, c)] } := by
  have hnone : ∀ other, ends other = 0 := h.ends_eq_zero (by rw [hstage]; rfl)
  obtain ⟨server, stage, queue, returned, sent⟩ := supplier
  cases hstage
  obtain ⟨hframe, hothers⟩ := h.begun
  rw [List.append_nil] at hframe
  refine ⟨?_, nofun, ?_, ?_, fun _ => rfl, h.callback, h.stop, h.ends⟩
  · simpa [SupplierStage.pushing] using h.order
  · intro push hpush
    rcases List.mem_append.mp hpush with hpush | hpush
    · exact h.frames push hpush
    · rw [List.mem_singleton.mp hpush, hframe]
      rfl
  · intro other
    have hsent := h.sent other
    dsimp only at hsent ⊢
    rw [hsent, framesTo, framesTo, List.filter_append, List.flatMap_append, hnone other]
    by_cases heq : c = other
    · subst heq
      simp [hframe]
    · simp [heq, hothers other (Ne.symm heq)]

/-- The sweep sends the end id to the client with the least key ahead. -/
theorem Supplied.sweepClient (h : Supplied files input begun ends supplier) {last : Option ℕ}
    (hstage : supplier.stage = .sweeping last) (c id : ℕ) :
    Supplied files input begun (moreEnds ends c)
      { supplier.sendEnd c with stage := .sweeping (some id) } := by
  have hsupplied := h.sendEnd c (by rw [hstage]; rfl)
  obtain ⟨server, stage, queue, returned, sent⟩ := supplier
  cases hstage
  exact ⟨hsupplied.order, hsupplied.provided, hsupplied.frames, hsupplied.sent, hsupplied.begun,
    hsupplied.callback, hsupplied.stop, hsupplied.ends⟩

theorem Answered.sweepClient (ha : Answered ends supplier) {last : Option ℕ} {id c : ℕ}
    (hstage : supplier.stage = .sweeping last)
    (hnext : next? supplier.server.clientSockets last = some id)
    (hc : supplier.server.clientSockets[id]? = some c) :
    Answered (moreEnds ends c) { supplier.sendEnd c with stage := .sweeping (some id) } := by
  obtain ⟨server, stage, queue, returned, sent⟩ := supplier
  cases hstage
  obtain ⟨-, -, hleast⟩ := next?_eq_some hnext
  refine ⟨fun other hother hhandler => ?_, ha.calling, fun k other hother hswept => ?_⟩
  · exact (ha.registered other hother hhandler).imp_left (moreEnds_of_ne_zero c)
  · by_cases hahead : Ahead last k
    · -- the least key ahead of `last`
      have hle : id ≤ k := hleast k (mem_of_getElem? hother) hahead
      obtain rfl : k = id := by
        refine le_antisymm (not_lt.mp fun hlt => hswept fun l hl => ?_) hle
        cases hl
        exact hlt
      obtain rfl : other = c := Option.some.inj (hother.symm.trans hc)
      exact .inl (moreEnds_self ends other)
    · exact (ha.swept k other hother hahead).imp_left (moreEnds_of_ne_zero c)

/-- **A step of the supplier** sends buffers of one frame or end ids. -/
theorem Supplied.run (h : Supplied files input begun ends supplier)
    (hrun : supplier.run files input = some supplier') :
    ∃ begun' ends', Supplied files input begun' ends' supplier' ∧
      (Answered ends supplier → Answered ends' supplier') := by
  obtain ⟨server, stage, queue, returned, sent⟩ := supplier
  have ⟨horder, hprovided, hframes, hsent, hbegun, hcallback, hstop, hends⟩ := h
  dsimp only at horder hprovided hframes hsent hbegun hcallback hstop hends
  cases stage with
  | grabbing =>
      cases queue with
      | nil =>
          cases hrun
          exact ⟨begun, ends, ⟨horder, fun _ => rfl, hframes, hsent, hbegun, hcallback, hstop, hends⟩,
            fun ha => ⟨ha.registered, ha.calling, fun _ _ _ h => by cases h⟩⟩
      | cons i rest =>
          obtain ⟨frame', hframe, rfl⟩ := Option.map_eq_some_iff.mp hrun
          exact ⟨begun, ends, ⟨horder, nofun, hframes, hsent, ⟨hframe, hbegun⟩,
              hcallback, hstop, hends⟩,
            fun ha => ⟨ha.registered, ha.calling, fun _ _ _ h => by cases h⟩⟩
  | waiting i frame' =>
      simp only [SocketSupplier.run] at hrun
      split at hrun
      · cases hrun
      · cases hrun
        exact ⟨begun, ends, ⟨horder, hprovided, hframes, hsent, hbegun, hcallback, hstop, hends⟩,
          fun ha => ⟨ha.registered, ha.calling, fun _ _ _ h => by cases h⟩⟩
  | collecting i frame' clientIds =>
      simp only [SocketSupplier.run] at hrun
      split at hrun
      · cases hrun
        exact ⟨begun, ends, ⟨horder, hprovided, hframes, hsent, hbegun, hcallback, hstop, hends⟩,
          fun ha => ⟨ha.registered, ha.calling, fun _ _ _ h => by cases h⟩⟩
      · -- the client is chosen, and nothing of the frame is sent yet
        obtain ⟨c, -, rfl⟩ := Option.map_eq_some_iff.mp hrun
        refine ⟨begun, ends,
          ⟨horder, hprovided, hframes, hsent, ⟨?_, fun other _ => hbegun.2 other⟩, hcallback, hstop,
            hends⟩, fun ha => ⟨ha.registered, ha.calling, fun _ _ _ h => by cases h⟩⟩
        rw [hbegun.1, hbegun.2 c, List.nil_append]
  | sending i c left =>
      cases left with
      | nil =>
          cases hrun
          exact ⟨fun _ => [], ends, h.finishFrame rfl,
            fun ha => ⟨ha.registered, ha.calling, fun _ _ _ h => by cases h⟩⟩
      | cons bytes left =>
          cases hrun
          exact ⟨_, ends, h.sendBuffer rfl,
            fun ha => ⟨ha.registered, ha.calling, fun _ _ _ h => by cases h⟩⟩
  | ending =>
      cases hrun
      exact ⟨begun, ends, ⟨horder, hprovided, hframes, hsent, hbegun, rfl, hstop, fun _ _ => rfl⟩,
        fun ha => ⟨ha.registered, ha.calling, fun _ _ _ h => by cases h⟩⟩
  | stopping =>
      cases hrun
      exact ⟨begun, ends, ⟨horder, hprovided, hframes, hsent, hbegun, hcallback, rfl, hends⟩,
        fun ha => ⟨ha.registered, fun _ _ _ => .inl rfl, fun id _ _ h => absurd
          (fun _ hl => by cases hl) h⟩⟩
  | sweeping last =>
      simp only [SocketSupplier.run] at hrun
      split at hrun
      · rename_i k hnext
        obtain ⟨c, hc, rfl⟩ := Option.map_eq_some_iff.mp hrun
        exact ⟨begun, moreEnds ends c, h.sweepClient rfl c k, fun ha => ha.sweepClient rfl hnext hc⟩
      · -- no key is left, so that the sweep has come past all of them
        rename_i hnext
        cases hrun
        refine ⟨begun, ends, ⟨horder, hprovided, hframes, hsent, hbegun, hcallback, hstop, hends⟩,
          fun ha => ⟨ha.registered, ha.calling, fun id c hc _ => ?_⟩⟩
        exact ha.swept id c hc (next?_eq_none hnext id (mem_of_getElem? hc))
  | finished => cases hrun

theorem Answered.accept (ha : Answered ends supplier) {server : SocketServer} {nextClientId c : ℕ}
    (haccept : supplier.server.accept nextClientId c = some server) :
    Answered ends { supplier with server := server } := by
  obtain ⟨hhandler, -, rfl⟩ := SocketServer.accept_eq_some haccept
  refine ⟨fun other hother hne => ?_, (fun _ _ h => by cases h), fun id other hid hswept => ?_⟩
  · rcases List.mem_cons.mp hother with rfl | hother
    · exact absurd rfl hne
    · exact ha.registered other hother (by rw [hhandler]; exact nofun)
  · rcases ha.swept id other hid hswept with hends | ⟨_, hcalling⟩
    · exact .inl hends
    · rw [hhandler] at hcalling
      cases hcalling

theorem Answered.test (ha : Answered ends supplier) {c id : ℕ}
    (hhandler : supplier.server.handler = .testing c id)
    (hstop : supplier.server.stopRegistering = supplier.stage.stopped) :
    Answered ends { supplier with server := { supplier.server with
      handler := if supplier.server.stopRegistering = true then .calling c id
        else .inserting c id } } := by
  refine ⟨fun other hother hne => ?_, fun other id' hcalling => ?_, fun id' other hid hswept => ?_⟩
  · refine ha.registered other hother ?_
    rw [hhandler]
    revert hne
    dsimp only
    split <;> exact fun hne => hne
  · dsimp only at hcalling
    split at hcalling
    · rename_i hstopped
      exact .inl (hstop.symm.trans hstopped)
    · cases hcalling
  · rcases ha.swept id' other hid hswept with hends | ⟨_, hcalling⟩
    · exact .inl hends
    · rw [hhandler] at hcalling
      cases hcalling

theorem Answered.insert (ha : Answered ends supplier) {c id : ℕ}
    (hhandler : supplier.server.handler = .inserting c id)
    (hnew : ¬supplier.server.Overwrites) :
    Answered ends { supplier with
      server := { supplier.server.insertClient c id with handler := .calling c id } } := by
  have hnew : id ∉ supplier.server.clientSockets := fun hmem =>
    hnew ⟨id, by rw [hhandler]; rfl, hmem⟩
  refine ⟨fun other hother hne => ?_, fun other id' hcalling => .inr ?_,
    fun id' other hid hswept => ?_⟩
  · exact (ha.registered other hother (by rw [hhandler]; exact hne)).imp_right
      fun hholds => hholds.insertClient c hnew
  · cases hcalling
    exact supplier.server.holds_insertClient c id
  · have hid : (supplier.server.insertClient c id).clientSockets[id']? = some other := hid
    rw [SocketServer.getElem?_insertClient] at hid
    split at hid
    · cases hid
      exact .inr ⟨id, rfl⟩
    · rcases ha.swept id' other hid hswept with hends | ⟨_, hcalling⟩
      · exact .inl hends
      · rw [hhandler] at hcalling
        cases hcalling

/-- The handler leaves `c`, which has its end id from the callback or is still to be swept. -/
theorem Answered.call (ha : Answered ends supplier) {c id : ℕ} {ends' : ℕ → ℕ}
    (hhandler : supplier.server.handler = .calling c id)
    (hkept : ∀ other, ends other ≠ 0 → ends' other ≠ 0)
    (hends : supplier.stage.callbackSet = true → ends' c ≠ 0) (sent : ℕ → List Bytes) :
    Answered ends' { supplier with
      server := { supplier.server with handler := .counting c }, sent := sent } := by
  refine ⟨fun other hother _ => ?_, (fun _ _ hcalling => by cases hcalling),
    fun id' other hid hswept => .inl ?_⟩
  · by_cases heq : c = other
    · subst heq
      exact (ha.calling c id hhandler).imp_left fun hstopped =>
        hends (SupplierStage.callbackSet_of_stopped hstopped)
    · exact (ha.registered other hother
        (by rw [hhandler]; simpa [HandlerStage.unanswered] using heq)).imp_left
        (hkept other)
  · rcases ha.swept id' other hid hswept with hother | ⟨_, hcalling⟩
    · exact hkept other hother
    · rw [hhandler] at hcalling
      cases hcalling
      exact hends hswept.callbackSet

theorem Answered.count (ha : Answered ends supplier) {c : ℕ}
    (hhandler : supplier.server.handler = .counting c) :
    Answered ends { supplier with server := { supplier.server with handler := .accepting } } := by
  refine ⟨fun other hother _ => ?_, (fun _ _ hcalling => by cases hcalling),
    fun id' other hid hswept => .inl ?_⟩
  · exact ha.registered other hother (by rw [hhandler]; exact nofun)
  · rcases ha.swept id' other hid hswept with hother | ⟨_, hcalling⟩
    · exact hother
    · rw [hhandler] at hcalling
      cases hcalling

end Step

/-- **One step.**  Every step keeps what was sent in order, and no client is left without an end
id by a step that does not replace a client of the map. -/
theorem Supplied.step {begun : ℕ → List Bytes} {ends : ℕ → ℕ} {s t : ℕ × SocketSupplier}
    {a : Action} (h : Supplied files input begun ends s.2) (hstep : step files input s a = some t) :
    ∃ begun' ends', Supplied files input begun' ends' t.2 ∧
      ((a = .handle → ¬s.2.server.Overwrites) → Answered ends s.2 → Answered ends' t.2) := by
  cases a with
  | otherServer =>
      cases hstep
      exact ⟨begun, ends, h, fun _ ha => ha⟩
  | accept c =>
      obtain ⟨server, haccept, rfl⟩ := Option.map_eq_some_iff.mp hstep
      refine ⟨begun, ends, ?_, fun _ ha => ha.accept haccept⟩
      obtain ⟨-, -, rfl⟩ := SocketServer.accept_eq_some haccept
      exact h.of_server _ rfl rfl
  | handle =>
      obtain ⟨⟨server, effect⟩, hhandle, rfl⟩ := Option.map_eq_some_iff.mp hstep
      rcases SocketServer.handle_cases hhandle with ⟨c, id, hhandler, rfl, rfl⟩ |
        ⟨c, id, hhandler, rfl, rfl⟩ | ⟨c, id, hhandler, heffect, rfl⟩ | ⟨c, hhandler, rfl, rfl⟩
      · exact ⟨begun, ends, h.of_server _ rfl rfl, fun _ ha => ha.test hhandler h.stop⟩
      · exact ⟨begun, ends, h.of_server _ rfl rfl, fun hgood ha => ha.insert hhandler (hgood rfl)⟩
      · split at heffect
        · rename_i hcallback
          subst heffect
          have hset : s.2.stage.callbackSet = true := h.callback.symm.trans hcallback
          exact ⟨begun, moreEnds ends c,
            (h.of_server { s.2.server with handler := .counting c } rfl rfl).sendEnd c hset, fun _ ha =>
            ha.call hhandler (fun _ => moreEnds_of_ne_zero c) (fun _ => moreEnds_self ends c) _⟩
        · rename_i hcallback
          subst heffect
          have hunset : s.2.stage.callbackSet ≠ true := fun hset =>
            hcallback (h.callback.trans hset)
          exact ⟨begun, ends, h.of_server _ rfl rfl, fun _ ha =>
            ha.call hhandler (fun _ hne => hne) (fun hset => absurd hset hunset) _⟩
      · exact ⟨begun, ends, h.of_server _ rfl rfl, fun _ ha => ha.count hhandler⟩
  | run =>
      obtain ⟨supplier, hrun, rfl⟩ := Option.map_eq_some_iff.mp hstep
      obtain ⟨begun', ends', hsupplied, hanswered⟩ := h.run hrun
      exact ⟨begun', ends', hsupplied, fun _ => hanswered⟩

/-! ## Messages in order -/

theorem prefix_sendTo (sent : ℕ → List Bytes) (c : ℕ) (bytes : Bytes) (other : ℕ) :
    sent other <+: sendTo sent c bytes other := by
  by_cases heq : other = c
  · rw [heq, sendTo, Function.update_self]
    exact List.prefix_append _ _
  · have hsame : sendTo sent c bytes other = sent other := Function.update_of_ne heq _ _
    exact hsame ▸ List.prefix_rfl

/-- What was sent stays sent. -/
theorem run_sent {supplier supplier' : SocketSupplier}
    (hrun : supplier.run files input = some supplier') (c : ℕ) :
    supplier.sent c <+: supplier'.sent c := by
  unfold SocketSupplier.run at hrun
  split at hrun
  · split at hrun
    · cases hrun
      exact List.prefix_rfl
    · obtain ⟨_, -, rfl⟩ := Option.map_eq_some_iff.mp hrun
      exact List.prefix_rfl
  · split at hrun <;> cases hrun
    exact List.prefix_rfl
  · split at hrun
    · cases hrun
      exact List.prefix_rfl
    · obtain ⟨_, -, rfl⟩ := Option.map_eq_some_iff.mp hrun
      exact List.prefix_rfl
  · cases hrun
    exact prefix_sendTo ..
  · cases hrun
    exact List.prefix_rfl
  · cases hrun
    exact List.prefix_rfl
  · cases hrun
    exact List.prefix_rfl
  · split at hrun
    · obtain ⟨_, -, rfl⟩ := Option.map_eq_some_iff.mp hrun
      exact prefix_sendTo ..
    · cases hrun
      exact List.prefix_rfl
  · cases hrun

theorem step_sent {s t : ℕ × SocketSupplier} {a : Action} (hstep : step files input s a = some t)
    (c : ℕ) : s.2.sent c <+: t.2.sent c := by
  cases a with
  | otherServer =>
      cases hstep
      exact List.prefix_rfl
  | accept client =>
      obtain ⟨_, -, rfl⟩ := Option.map_eq_some_iff.mp hstep
      exact List.prefix_rfl
  | handle =>
      obtain ⟨⟨server, effect⟩, -, rfl⟩ := Option.map_eq_some_iff.mp hstep
      cases effect with
      | silent => exact List.prefix_rfl
      | called client id => exact prefix_sendTo ..
      | counted => exact List.prefix_rfl
  | run =>
      obtain ⟨supplier, hrun, rfl⟩ := Option.map_eq_some_iff.mp hstep
      exact run_sent hrun c

/-! ## The end of every client -/

/-- No insertion replaces a client of the map. -/
def KeepsClients (s : ℕ × SocketSupplier) (a : Action) : Prop :=
  a = .handle → ¬s.2.server.Overwrites

instance (s : ℕ × SocketSupplier) (a : Action) : Decidable (KeepsClients s a) :=
  inferInstanceAs (Decidable (_ → _))

/-- A frame is being sent to at most one client, which has no end id. -/
theorem Supplied.begun_ne_nil {begun : ℕ → List Bytes} {ends : ℕ → ℕ} {supplier : SocketSupplier}
    (h : Supplied files input begun ends supplier) {c : ℕ} (hne : begun c ≠ []) :
    ends c = 0 ∧ ∃ i left, supplier.stage = .sending i c left ∧
      frame files input i = some (begun c ++ left) := by
  have hbegun := h.begun
  have hends := h.ends c
  cases hstage : supplier.stage with
  | sending i other left =>
      rw [hstage] at hbegun hends
      have hsame : other = c := by
        by_contra hother
        exact hne (hbegun.2 c (Ne.symm hother))
      subst hsame
      exact ⟨not_not.mp fun hzero => (by cases hends hzero), i, left, rfl, hbegun.1⟩
  | waiting i frame' => rw [hstage] at hbegun; exact absurd (hbegun.2 c) hne
  | collecting i frame' clientIds => rw [hstage] at hbegun; exact absurd (hbegun.2 c) hne
  | grabbing => rw [hstage] at hbegun; exact absurd (hbegun c) hne
  | ending => rw [hstage] at hbegun; exact absurd (hbegun c) hne
  | stopping => rw [hstage] at hbegun; exact absurd (hbegun c) hne
  | sweeping last => rw [hstage] at hbegun; exact absurd (hbegun c) hne
  | finished => rw [hstage] at hbegun; exact absurd (hbegun c) hne

/-- **Conservation and end.**  Every dataset whose `PushDataset` has returned was sent once, as a
whole frame, to one client; a client is sent frames before its end ids only; and after
`PushEndSignal` every client whose handler has completed has an end id, whatever the order of
the steps, as long as no client is registered under the id of a client that is in the map. -/
theorem supply_conserved {s : ℕ × SocketSupplier}
    (h : Reachable (restrict KeepsClients (step files input)) (initial input) s) :
    ∃ (begun : ℕ → List Bytes) (ends : ℕ → ℕ),
      (s.2.returned.map Prod.fst).Nodup ∧
      (∀ push ∈ s.2.returned, (frame files input push.1).isSome) ∧
      (∀ c, s.2.sent c = framesTo files input s.2.returned c ++ begun c ++
        List.replicate (ends c) endFrame) ∧
      (∀ c, begun c ≠ [] → ends c = 0 ∧ ∃ i left, s.2.stage = .sending i c left ∧
        frame files input i = some (begun c ++ left)) ∧
      (s.2.stage = .finished → ∀ c, s.2.server.Registered c → ends c ≠ 0) := by
  obtain ⟨begun, ends, hsupplied, hanswered⟩ :=
    h.invariant (P := fun s => ∃ begun ends, Supplied files input begun ends s.2 ∧ Answered ends s.2)
      ⟨_, _, supplied_initial, answered_initial⟩ (by
        rintro s a t - ⟨begun, ends, hsupplied, hanswered⟩ hstep
        obtain ⟨hgood, hstep⟩ := restrict_eq_some.mp hstep
        obtain ⟨begun', ends', hsupplied', hanswered'⟩ := hsupplied.step hstep
        exact ⟨begun', ends', hsupplied', hanswered' hgood hanswered⟩)
  refine ⟨begun, ends, ?_, hsupplied.frames, hsupplied.sent, fun c => hsupplied.begun_ne_nil,
    fun hfinished c hregistered => ?_⟩
  · have hnodup : input.datasetsToProvide.Nodup := by
      rw [input.datasetsToProvide_eq.1]
      exact List.nodup_range
    rw [← hsupplied.order] at hnodup
    exact (List.nodup_append.mp hnodup).1
  · obtain ⟨haccepted, hleft⟩ := hregistered
    have hunanswered : s.2.server.handler.unanswered ≠ some c := by
      intro heq
      apply hleft
      revert heq
      cases s.2.server.handler <;> exact fun heq => by cases heq <;> rfl
    rcases hanswered.registered c haccepted hunanswered with hends | ⟨id, hid⟩
    · exact hends
    · rcases hanswered.swept id c hid (by rw [hfinished]; trivial) with hends | ⟨_, hcalling⟩
      · exact hends
      · exact absurd (by rw [hcalling]; rfl) hleft

/-! ## Runs -/

/-- One dataset of one byte. -/
def oneByte : DataSupplyState where
  datasets := [{ buffer := [9] }]
  datasetsToProvide := [0]
  provides := ⟨2, by decide⟩

/-- Client 0 registers before the dataset is pushed, and client 1 is inserted behind the sweep. -/
def lateClientRun : List Action :=
  [.accept 0, .handle, .handle, .handle, .handle] ++ List.replicate 10 .run ++
    [.accept 1, .handle] ++ List.replicate 3 .run ++ [.handle, .handle, .handle]

theorem supply_conserved_late_client :
    ∃ s, Reachable (restrict KeepsClients (step (fun _ => none) oneByte)) (initial oneByte) s ∧
      s.2.stage = .finished ∧ s.2.returned = [(0, 0)] ∧ s.2.server.Registered 1 ∧
      ∃ (begun : ℕ → List Bytes) (ends : ℕ → ℕ),
        (s.2.returned.map Prod.fst).Nodup ∧
        (∀ push ∈ s.2.returned, (frame (fun _ => none) oneByte push.1).isSome) ∧
        (∀ c, s.2.sent c = framesTo (fun _ => none) oneByte s.2.returned c ++ begun c ++
          List.replicate (ends c) endFrame) ∧
        (∀ c, begun c ≠ [] → ends c = 0 ∧ ∃ i left, s.2.stage = .sending i c left ∧
          frame (fun _ => none) oneByte i = some (begun c ++ left)) ∧
        (s.2.stage = .finished → ∀ c, s.2.server.Registered c → ends c ≠ 0) := by
  obtain ⟨s, hreach, hend⟩ := Reachable.exists_of_run
    (show (Transition.run (restrict KeepsClients (step (fun _ => none) oneByte)) (initial oneByte)
        lateClientRun).any (fun s => decide (s.2.stage = .finished ∧ s.2.returned = [(0, 0)] ∧
          s.2.server.Registered 1)) = true by decide +kernel)
  obtain ⟨hfinished, hreturned, hregistered⟩ := of_decide_eq_true hend
  exact ⟨s, hreach, hfinished, hreturned, hregistered, supply_conserved hreach⟩

/-! ## A client id handed out again -/

/-- No dataset. -/
def noDataset : DataSupplyState where
  datasets := []
  datasetsToProvide := []
  provides := ⟨1, by decide⟩

/-- The server with client 0 under the id 1. -/
def oneClient : SocketSupplier where
  server :=
    { clientSockets := (∅ : Std.TreeMap ℕ ℕ).insert 1 0
      accepted := [0]
      clientIds := Function.update (fun _ => 0) 0 1
      inserted := [0] }
  datasetsToProvide := []

/-- Client 0 is registered as 1; after 2 ^ 32 registrations in the process client 1 is registered
as 1 and takes its place in the map, and `PushEndSignal` sends nothing to client 0. -/
theorem client_missed :
    ∃ s, Reachable (step (fun _ => none) noDataset) (initial noDataset) s ∧
      s.2.stage = .finished ∧ s.2.server.Registered 0 ∧ s.2.sent 0 = [] := by
  have hfirst : Transition.run (step (fun _ => none) noDataset) (initial noDataset)
      [.accept 0, .handle, .handle, .handle, .handle] = some (2, oneClient) := rfl
  have hothers : Transition.run (step (fun _ => none) noDataset) (2, oneClient)
      (List.replicate (2 ^ 32 - 1) .otherServer) = some (1, oneClient) := by
    rw [run_countRegistration (fun _ _ => rfl) _ _ _ (by decide),
      show (2 + (2 ^ 32 - 1)) % 2 ^ 32 = 1 by decide]
  obtain ⟨s, hreach, hend⟩ := Reachable.exists_of_run
    (show (Transition.run (step (fun _ => none) noDataset) (1, oneClient)
        ([.accept 1, .handle, .handle, .handle, .handle] ++ List.replicate 5 .run)).any
      (fun s => decide (s.2.stage = .finished ∧ s.2.server.Registered 0 ∧ s.2.sent 0 = [])) =
        true by decide +kernel)
  exact ⟨s, (Reachable.of_run hfirst).trans ((Reachable.of_run hothers).trans hreach),
    of_decide_eq_true hend⟩

end SocketSupplier

end ComputeWebApp.Data
