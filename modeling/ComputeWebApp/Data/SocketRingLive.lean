import Mathlib.Data.List.Perm.Subperm
import ComputeWebApp.Data.SocketRingDelivery

/-!
# The ring on sockets while it runs

What holds in every state of a ring with a given number of workers, whether or not the aggregator
leaves before a worker has registered:

* the client ids that a server hands out grow, as long as there are fewer registrations than ids,
  so that no insertion replaces a client (`Numbered`);
* what the supplier sends goes to connections that it has accepted (`Addressed`);
* the aggregator has a thread for every client that has registered, the thread ends with the end
  of the client, and a client leaves the map with it (`Closing`);
* a worker is where its registrations and its connections say it is (`Live`).
-/

namespace ComputeWebApp.Data

open Transition OrderedMap ByteStream DatasetAggregatorServerSocket

/-! ## Client ids -/

/-- One while a handler has not counted its registration. -/
def HandlerStage.pending : HandlerStage → ℕ
  | accepting => 0
  | _ => 1

theorem HandlerStage.pending_accepting : accepting.pending = 0 := rfl

/-- The client ids of the map are smaller. -/
def HandlerStage.limit (nextClientId : ℕ) : HandlerStage → ℕ
  | accepting => nextClientId
  | testing _ id => id
  | inserting _ id => id
  | calling _ id => id + 1
  | counting _ => nextClientId + 1

namespace SocketServer

/-- The client ids that are in the map are smaller than the one that is handed out. -/
structure Numbered (nextClientId : ℕ) (server : SocketServer) : Prop where
  keys : ∀ id ∈ server.clientSockets, id < server.handler.limit nextClientId
  offered : ∀ id ∈ server.handler.offered, id ≤ nextClientId

variable {nextClientId nextClientId' : ℕ} {server server' : SocketServer} {effect : HandlerEffect}

theorem numbered_initial (callback : Bool) : Numbered 1 { callback := callback } :=
  ⟨fun id hid => by simp at hid, nofun⟩

theorem Numbered.keys_le (h : server.Numbered nextClientId) {id : ℕ}
    (hid : id ∈ server.clientSockets) : id ≤ nextClientId := by
  have hlimit := h.keys id hid
  have hoffered := h.offered
  revert hlimit hoffered
  cases server.handler <;> intro hlimit hoffered <;>
    simp only [HandlerStage.limit, HandlerStage.offered, Option.mem_def, Option.some.injEq,
      forall_eq'] at hlimit hoffered <;> omega

theorem Numbered.not_overwrites (h : server.Numbered nextClientId) : ¬server.Overwrites := by
  rintro ⟨id, hid, hmem⟩
  have hlimit := h.keys id hmem
  revert hid hlimit
  cases server.handler <;> intro hid hlimit <;> cases hid
  exact absurd hlimit (Nat.lt_irrefl _)

theorem Numbered.later (h : server.Numbered nextClientId) (hle : nextClientId ≤ nextClientId') :
    server.Numbered nextClientId' := by
  refine ⟨fun id hid => (h.keys id hid).trans_le ?_, fun id hid => (h.offered id hid).trans hle⟩
  cases server.handler <;> simp only [HandlerStage.limit] <;> omega

theorem Numbered.accept (h : server.Numbered nextClientId) {c : ℕ}
    (haccept : server.accept nextClientId c = some server') : server'.Numbered nextClientId := by
  obtain ⟨hhandler, -, rfl⟩ := accept_eq_some haccept
  refine ⟨fun id hid => ?_, fun id hid => ?_⟩
  · have hlimit := h.keys id hid
    rwa [hhandler] at hlimit
  · cases hid
    exact le_rfl

theorem Numbered.eraseClient (h : server.Numbered nextClientId) (id : ℕ) :
    (server.eraseClient id).Numbered nextClientId :=
  ⟨fun key hkey => h.keys key (Std.TreeMap.mem_of_mem_erase hkey), h.offered⟩

/-- A step of the handler, which counts its registration last. -/
theorem Numbered.handle (h : server.Numbered nextClientId)
    (hhandle : server.handle = some (server', effect)) :
    server'.Numbered (if effect = .counted then nextClientId + 1 else nextClientId) := by
  obtain ⟨hkeys, hoffered⟩ := h
  rcases handle_cases hhandle with ⟨c, id, hhandler, rfl, rfl⟩ | ⟨c, id, hhandler, rfl, rfl⟩ |
    ⟨c, id, hhandler, rfl, rfl⟩ | ⟨c, hhandler, rfl, rfl⟩ <;>
    simp only [hhandler, HandlerStage.limit, HandlerStage.offered, Option.mem_def,
      Option.some.injEq, forall_eq'] at hkeys hoffered
  · rw [if_neg (by simp)]
    split
    · exact ⟨fun key hkey => Nat.lt_succ_of_lt (hkeys key hkey),
        fun _ hid => by cases hid; exact hoffered⟩
    · exact ⟨hkeys, fun _ hid => by cases hid; exact hoffered⟩
  · rw [if_neg (by simp)]
    refine ⟨fun key hkey => ?_, fun _ hid => by cases hid; exact hoffered⟩
    rcases Std.TreeMap.mem_insert.mp hkey with heq | hkey
    · exact Nat.lt_succ_of_le (compare_eq_iff_eq.mp heq).ge
    · exact Nat.lt_succ_of_lt (hkeys key hkey)
  · have hcounted : (if server.callback = true then HandlerEffect.called c id else .silent) ≠
        .counted := by split <;> simp
    rw [if_neg hcounted]
    exact ⟨fun key hkey => (hkeys key hkey).trans_le (Nat.succ_le_succ hoffered),
      (by simp [HandlerStage.offered])⟩
  · rw [if_pos rfl]
    exact ⟨hkeys, (by simp [HandlerStage.offered])⟩

/-- A step of the handler accepts no connection, and counts it when it leaves it. -/
theorem handle_count (hhandle : server.handle = some (server', effect)) (n : ℕ) :
    server'.accepted = server.accepted ∧
      (if effect = .counted then n + 1 else n) + server'.handler.pending =
        n + server.handler.pending := by
  rcases handle_cases hhandle with ⟨c, id, hhandler, rfl, rfl⟩ | ⟨c, id, hhandler, rfl, rfl⟩ |
    ⟨c, id, hhandler, rfl, rfl⟩ | ⟨c, hhandler, rfl, rfl⟩ <;> rw [hhandler]
  · refine ⟨rfl, ?_⟩
    by_cases hstop : server.stopRegistering = true <;> simp [hstop, HandlerStage.pending]
  · exact ⟨rfl, by simp [HandlerStage.pending]⟩
  · refine ⟨rfl, ?_⟩
    by_cases hcallback : server.callback = true <;> simp [hcallback, HandlerStage.pending]
  · exact ⟨rfl, by simp [HandlerStage.pending]⟩

end SocketServer

/-! ## The supplier -/

namespace SocketSupplier

/-- What the supplier sends goes to connections that it has accepted; while it collects the client
ids there is a client, and the ids stay in the map. -/
structure Addressed (supplier : SocketSupplier) : Prop where
  mapped : ∀ (id : ℕ) c, supplier.server.clientSockets[id]? = some c → c ∈ supplier.server.accepted
  handler : ∀ c ∈ supplier.server.handler.client, c ∈ supplier.server.accepted
  returned : ∀ push ∈ supplier.returned, push.2 ∈ supplier.server.accepted
  sending : ∀ i c left, supplier.stage = .sending i c left → c ∈ supplier.server.accepted
  collecting : ∀ i frame clientIds, supplier.stage = .collecting i frame clientIds →
    supplier.server.clientSockets.isEmpty = false ∧
      ∀ id ∈ clientIds, id ∈ supplier.server.clientSockets

variable {files : Files} {input : DataSupplyState} {supplier next : SocketSupplier}

theorem addressed_initial : Addressed (initial input).2 where
  mapped := fun id c h => by simp [initial] at h
  handler := nofun
  returned := nofun
  sending := nofun
  collecting := nofun

theorem Addressed.accept (h : Addressed supplier) {server : SocketServer} {nextClientId c : ℕ}
    (haccept : supplier.server.accept nextClientId c = some server) :
    Addressed { supplier with server := server } := by
  obtain ⟨-, -, rfl⟩ := SocketServer.accept_eq_some haccept
  refine ⟨fun id other hid => List.mem_cons_of_mem _ (h.mapped id other hid), fun other hother => ?_,
    fun push hpush => List.mem_cons_of_mem _ (h.returned push hpush),
    fun i other left hstage => List.mem_cons_of_mem _ (h.sending i other left hstage), h.collecting⟩
  cases hother
  exact List.mem_cons_self

theorem Addressed.handle (h : Addressed supplier) {server : SocketServer} {effect : HandlerEffect}
    (hhandle : supplier.server.handle = some (server, effect)) (sent : ℕ → List Bytes) :
    Addressed { supplier with server := server, sent := sent } := by
  obtain ⟨hmapped, hhandler, hreturned, hsending, hcollecting⟩ := h
  rcases SocketServer.handle_cases hhandle with ⟨c, id, heq, -, rfl⟩ | ⟨c, id, heq, -, rfl⟩ |
    ⟨c, id, heq, -, rfl⟩ | ⟨c, heq, -, rfl⟩
  · refine ⟨hmapped, fun other hother => hhandler other ?_, hreturned, hsending, hcollecting⟩
    rw [heq]
    dsimp only at hother
    split at hother <;> exact hother
  · have hc : c ∈ supplier.server.accepted := hhandler c (by rw [heq]; rfl)
    refine ⟨fun key other hkey => ?_, fun other hother => ?_, hreturned, hsending,
      fun i frame clientIds hstage => ?_⟩
    · change (supplier.server.insertClient c id).clientSockets[key]? = some other at hkey
      rw [SocketServer.getElem?_insertClient] at hkey
      split at hkey
      · cases hkey
        exact hc
      · exact hmapped key other hkey
    · cases hother
      exact hc
    · obtain ⟨-, hids⟩ := hcollecting i frame clientIds hstage
      exact ⟨Std.TreeMap.isEmpty_insert,
        fun key hkey => Std.TreeMap.mem_insert.mpr (.inr (hids key hkey))⟩
  · refine ⟨hmapped, fun other hother => ?_, hreturned, hsending, hcollecting⟩
    cases hother
    exact hhandler c (by rw [heq]; rfl)
  · exact ⟨hmapped, (by simp [HandlerStage.client]), hreturned, hsending, hcollecting⟩

theorem Addressed.run (h : Addressed supplier) (hrun : supplier.run files input = some next) :
    Addressed next := by
  obtain ⟨server, stage, queue, returned, sent⟩ := supplier
  obtain ⟨hmapped, hhandler, hreturned, hsending, hcollecting⟩ := h
  cases stage with
  | grabbing =>
      cases queue with
      | nil =>
          cases hrun
          exact ⟨hmapped, hhandler, hreturned, (by simp), (by simp)⟩
      | cons i rest =>
          obtain ⟨frame, -, rfl⟩ := Option.map_eq_some_iff.mp hrun
          exact ⟨hmapped, hhandler, hreturned, (by simp), (by simp)⟩
  | waiting i frame =>
      simp only [SocketSupplier.run] at hrun
      split at hrun
      · cases hrun
      · rename_i hempty
        cases hrun
        refine ⟨hmapped, hhandler, hreturned, (by simp), fun _ _ _ hstage => ?_⟩
        cases hstage
        exact ⟨Bool.eq_false_of_not_eq_true hempty, (by simp)⟩
  | collecting i frame clientIds =>
      obtain ⟨hempty, hids⟩ := hcollecting i frame clientIds rfl
      simp only [SocketSupplier.run] at hrun
      split at hrun
      · rename_i id hnext
        cases hrun
        refine ⟨hmapped, hhandler, hreturned, (by simp), fun _ _ _ hstage => ?_⟩
        cases hstage
        refine ⟨hempty, fun key hkey => ?_⟩
        rcases List.mem_append.mp hkey with hkey | hkey
        · exact hids key hkey
        · rw [List.mem_singleton.mp hkey]
          exact (next?_eq_some hnext).1
      · obtain ⟨c, hc, rfl⟩ := Option.map_eq_some_iff.mp hrun
        obtain ⟨id, -, hid⟩ := Option.bind_eq_some_iff.mp hc
        refine ⟨hmapped, hhandler, hreturned, fun _ _ _ hstage => ?_, (by simp)⟩
        cases hstage
        exact hmapped id c hid
  | sending i c left =>
      have hc : c ∈ server.accepted := hsending i c left rfl
      cases left with
      | nil =>
          cases hrun
          refine ⟨hmapped, hhandler, fun push hpush => ?_, (by simp), (by simp)⟩
          rcases List.mem_append.mp hpush with hpush | hpush
          · exact hreturned push hpush
          · rw [List.mem_singleton.mp hpush]
            exact hc
      | cons bytes left =>
          cases hrun
          refine ⟨hmapped, hhandler, hreturned, fun _ _ _ hstage => ?_, (by simp)⟩
          cases hstage
          exact hc
  | ending =>
      cases hrun
      exact ⟨hmapped, hhandler, hreturned, (by simp), (by simp)⟩
  | stopping =>
      cases hrun
      exact ⟨hmapped, hhandler, hreturned, (by simp), (by simp)⟩
  | sweeping last =>
      simp only [SocketSupplier.run] at hrun
      split at hrun
      · obtain ⟨c, -, rfl⟩ := Option.map_eq_some_iff.mp hrun
        exact ⟨hmapped, hhandler, hreturned, (by simp), (by simp)⟩
      · cases hrun
        exact ⟨hmapped, hhandler, hreturned, (by simp), (by simp)⟩
  | finished => cases hrun

end SocketSupplier

/-! ## The aggregator -/

namespace SocketAggregator

/-- A client has a thread from its registration on, which ends with the end of the client; the map
holds the clients whose end was not pulled, but for the one that is being erased, and `Run` goes on
only with clients in it once an end was pulled. -/
structure Closing (aggregator : SocketAggregator) : Prop where
  callback : aggregator.server.callback = true
  started : ∀ c ∈ aggregator.server.accepted, aggregator.server.handler.unanswered ≠ some c →
    (aggregator.connections c).thread.isSome = true
  finished : ∀ c, ∀ thread ∈ (aggregator.connections c).thread, thread.finished = true ↔
    .endSignal ∈ itemsFrom (aggregator.pulled ++ aggregator.datasets) c
  popping : aggregator.stage = .popping → aggregator.datasets ≠ []
  mapped : ∀ (id : ℕ) c, aggregator.server.clientSockets[id]? = some c →
    c ∈ aggregator.server.inserted ∧ aggregator.server.clientIds c = id ∧
      (aggregator.stage ≠ .erasing id → .endSignal ∉ itemsFrom aggregator.pulled c)
  opened : aggregator.stage ∈ [.pulling, .popping] ∨ aggregator.stage.pending ≠ [] →
    aggregator.server.clientSockets.isEmpty = false ∨
      ∀ c, .endSignal ∉ itemsFrom aggregator.pulled c

variable {setting : AggregatorSetting} {aggregator next : SocketAggregator}

theorem closing_initial : Closing initial.2 where
  callback := rfl
  started := nofun
  finished := fun _ _ h => by cases h
  popping := nofun
  mapped := fun id c h => by simp [initial] at h
  opened := fun _ => .inr fun _ => List.not_mem_nil

/-- Nothing has come from a client without a thread. -/
theorem Holding.itemsFrom_eq_nil (h : Holding aggregator) {c : ℕ}
    (hc : (aggregator.connections c).threadId = none) :
    itemsFrom (aggregator.pulled ++ aggregator.datasets) c = [] := by
  rw [itemsFrom, List.map_eq_nil_iff, List.filter_eq_nil_iff]
  intro entry hentry hsource
  have hthread := h.entries entry hentry
  rw [of_decide_eq_true hsource, hc] at hthread
  cases hthread

theorem itemsFrom_subset (first second : List (ℕ × DatasetStruct)) (c : ℕ) :
    itemsFrom first c ⊆ itemsFrom (first ++ second) c := by
  rw [itemsFrom_append]
  exact List.subset_append_left _ _

theorem Closing.accept (h : Closing aggregator) (hregistering : Registering aggregator)
    {server : SocketServer} {nextClientId c : ℕ}
    (haccept : aggregator.server.accept nextClientId c = some server) :
    Closing { aggregator with server := server } := by
  obtain ⟨hhandler, hfresh, rfl⟩ := SocketServer.accept_eq_some haccept
  refine ⟨h.callback, fun other hother hne => ?_, h.finished, h.popping, fun id other hid => ?_,
    h.opened⟩
  · rcases List.mem_cons.mp hother with rfl | hother
    · exact absurd rfl hne
    · exact h.started other hother (by simp [hhandler, HandlerStage.unanswered])
  · obtain ⟨hinserted, hclientId, hend⟩ := h.mapped id other hid
    have hne : other ≠ c := fun heq => hfresh (heq ▸ hregistering.inserted other hinserted)
    exact ⟨hinserted, (Function.update_of_ne hne _ _).trans hclientId, hend⟩

variable (setting) in
theorem Closing.handle (h : Closing aggregator) (hregistering : Registering aggregator)
    (hholding : Holding aggregator) {server : SocketServer} {effect : HandlerEffect}
    (hhandle : aggregator.server.handle = some (server, effect)) :
    Closing (match effect with
      | .called c clientId => onClientRegistered setting { aggregator with server := server } c clientId
      | _ => { aggregator with server := server }) := by
  obtain ⟨hcallback, hstarted, hfinished, hpopping, hmapped, hopened⟩ := h
  rcases SocketServer.handle_cases hhandle with ⟨c, id, heq, rfl, rfl⟩ | ⟨c, id, heq, rfl, rfl⟩ |
    ⟨c, id, heq, heffect, rfl⟩ | ⟨c, heq, rfl, rfl⟩
  · refine ⟨hcallback, fun other hother hne => hstarted other hother ?_, hfinished, hpopping, hmapped,
      hopened⟩
    rw [heq]
    dsimp only at hne
    split at hne <;> exact hne
  · -- a client that is inserted has sent nothing
    obtain ⟨-, hthread, hoffered⟩ := hregistering.handler c (by rw [heq]; rfl)
    rw [heq] at hoffered
    refine ⟨hcallback, fun other hother hne => hstarted other hother (by rw [heq]; exact hne),
      hfinished, hpopping, fun key other hkey => ?_, fun _ => .inl Std.TreeMap.isEmpty_insert⟩
    change (aggregator.server.insertClient c id).clientSockets[key]? = some other at hkey
    rw [SocketServer.getElem?_insertClient] at hkey
    split at hkey
    · rename_i hid
      cases hkey
      refine ⟨List.mem_cons_self, ?_, fun _ hend => ?_⟩
      · exact (Option.some.inj hoffered).symm.trans hid
      · have hnone := itemsFrom_subset _ aggregator.datasets _ hend
        rw [hholding.itemsFrom_eq_nil hthread] at hnone
        cases hnone
    · obtain ⟨hinserted, hrest⟩ := hmapped key other hkey
      exact ⟨List.mem_cons_of_mem _ hinserted, hrest⟩
  · obtain ⟨-, hthread, -⟩ := hregistering.handler c (by rw [heq]; rfl)
    rw [if_pos hcallback] at heffect
    subst heffect
    refine ⟨hcallback, fun other hother _ => ?_, fun other thread hmem => ?_, hpopping, hmapped,
      hopened⟩
    · by_cases hc : other = c
      · simp [onClientRegistered, hc]
      · simp only [onClientRegistered, Function.update_of_ne hc]
        exact hstarted other hother (by simpa [heq, HandlerStage.unanswered] using Ne.symm hc)
    · by_cases hc : other = c
      · subst hc
        simp only [onClientRegistered, Function.update_self, Option.mem_def,
          Option.some.injEq] at hmem
        subst hmem
        have hnone := hholding.itemsFrom_eq_nil hthread
        simp only [onClientRegistered, hnone]
        simp
      · simp only [onClientRegistered, Function.update_of_ne hc] at hmem
        exact hfinished other thread hmem
  · exact ⟨hcallback,
      fun other hother _ => hstarted other hother (by simp [heq, HandlerStage.unanswered]),
      hfinished, hpopping, hmapped, hopened⟩

/-- A thread ends when it pushes the end of its client to the queue. -/
theorem Connection.act_finished {files : Files} {moved : Bytes → Bytes}
    {connection connection' : Connection} {action : ConnectionAction}
    {dataset : Option DatasetStruct}
    (hact : connection.act files moved action = some (connection', dataset)) :
    connection'.thread.isSome = connection.thread.isSome ∧
      ∀ thread' ∈ connection'.thread, ∃ thread ∈ connection.thread,
        (thread'.finished = true ↔
          thread.finished = true ∨ .endSignal ∈ dataset.toList.map entryItem) := by
  cases action with
  | push id pushed =>
      obtain ⟨rfl, -, -, -, frame, buffer, -, -, rfl⟩ := Connection.act_push_eq_some hact
      exact ⟨rfl, fun thread hthread => ⟨thread, hthread, by simp⟩⟩
  | pushEnd =>
      obtain ⟨rfl, -, -, rfl⟩ := Connection.act_pushEnd_eq_some hact
      exact ⟨rfl, fun thread hthread => ⟨thread, hthread, by simp⟩⟩
  | send =>
      obtain ⟨rfl, bytes, left, -, rfl⟩ := Connection.act_send_eq_some hact
      exact ⟨rfl, fun thread hthread => ⟨thread, hthread, by simp⟩⟩
  | sendPart count =>
      obtain ⟨rfl, bytes, left, -, rfl⟩ := Connection.act_sendPart_eq_some hact
      exact ⟨rfl, fun thread hthread => ⟨thread, hthread, by simp⟩⟩
  | receive cut =>
      obtain ⟨rfl, thread, reader, unread, hthread, -, -, rfl⟩ :=
        Connection.act_receive_eq_some hact
      refine ⟨by rw [hthread]; rfl, fun thread' hthread' => ⟨thread, hthread, ?_⟩⟩
      cases hthread'
      simp
  | enqueue =>
      obtain ⟨thread, hthread, hrunning, -, rfl, rfl⟩ := Connection.act_enqueue_eq_some hact
      refine ⟨by rw [hthread]; rfl, fun thread' hthread' => ⟨thread, hthread, ?_⟩⟩
      cases hthread'
      by_cases hend : wordValue thread.reader.vars.id = endId <;>
        simp [hend, hrunning, entryItem]

theorem itemsFrom_connection (aggregator : SocketAggregator) (dataset : Option DatasetStruct)
    (c other : ℕ) :
    itemsFrom (aggregator.pulled ++
        (aggregator.datasets ++ dataset.toList.map fun dataset => (c, dataset))) other =
      itemsFrom (aggregator.pulled ++ aggregator.datasets) other ++
        if c = other then dataset.toList.map entryItem else [] := by
  rw [← List.append_assoc, itemsFrom_append]
  congr 1
  cases dataset <;> by_cases heq : c = other <;> simp [itemsFrom, heq]

theorem Closing.connection (h : Closing aggregator) {c : ℕ} {action : ConnectionAction}
    {connection : Connection} {dataset : Option DatasetStruct}
    (hact : (aggregator.connections c).act setting.files setting.moved action =
      some (connection, dataset)) :
    Closing { aggregator with
      connections := Function.update aggregator.connections c connection
      datasets := aggregator.datasets ++ dataset.toList.map fun dataset => (c, dataset) } := by
  obtain ⟨hcallback, hstarted, hfinished, hpopping, hmapped, hopened⟩ := h
  obtain ⟨hsome, hthreads⟩ := Connection.act_finished hact
  refine ⟨hcallback, fun other hother hne => ?_, fun other thread hthread => ?_, fun hstage hnil => ?_,
    hmapped, hopened⟩
  · have hbefore := hstarted other hother hne
    by_cases hc : other = c
    · subst hc
      simpa only [Function.update_self, hsome] using hbefore
    · simpa only [Function.update_of_ne hc] using hbefore
  · dsimp only
    rw [itemsFrom_connection]
    by_cases hc : other = c
    · subst hc
      simp only [Function.update_self] at hthread
      obtain ⟨thread', hthread', hiff⟩ := hthreads thread hthread
      rw [hiff, hfinished other thread' hthread', if_pos rfl, List.mem_append]
    · simp only [Function.update_of_ne hc] at hthread
      rw [if_neg (Ne.symm hc), List.append_nil]
      exact hfinished other thread hthread
  · exact hpopping hstage (List.append_eq_nil_iff.mp hnil).1

theorem Closing.run (h : Closing aggregator) (hregistering : Registering aggregator)
    (hholding : Holding aggregator) (hrun : aggregator.run setting = some next) : Closing next := by
  have hframe := run_frame hrun
  obtain ⟨hcallback, hstarted, hfinished, hpopping, hmapped, hopened⟩ := h
  have hstarted' : ∀ c ∈ next.server.accepted, next.server.handler.unanswered ≠ some c →
      (next.connections c).thread.isSome = true := by
    rw [hframe.accepted, hframe.handler, hframe.connections]
    exact hstarted
  have hfinished' : ∀ c, ∀ thread ∈ (next.connections c).thread, thread.finished = true ↔
      .endSignal ∈ itemsFrom (next.pulled ++ next.datasets) c := by
    rw [hframe.entries, hframe.connections]
    exact hfinished
  unfold SocketAggregator.run at hrun
  cases hstage : aggregator.stage with
  | pulling =>
      simp only [hstage] at hrun hmapped hopened
      split at hrun
      · cases hrun
      · rename_i hsome
        cases hrun
        exact ⟨hcallback, hstarted', hfinished', fun _ => hsome,
          fun id c hid => by simpa using hmapped id c hid, fun _ => hopened (by simp)⟩
  | popping =>
      simp only [hstage] at hrun hmapped hopened
      split at hrun
      · cases hrun
      · rename_i c dataset rest hqueue
        cases hrun
        -- the entry that is popped tells whose end it is
        obtain ⟨-, hclientId, -⟩ := hregistering.threads c dataset.clientId
          (hholding.entries (c, dataset) (by simp [hqueue]))
        have hpulled : ∀ other, .endSignal ∈ itemsFrom (aggregator.pulled ++ [(c, dataset)]) other →
            .endSignal ∈ itemsFrom aggregator.pulled other ∨ c = other ∧ dataset.id = endId := by
          intro other hend
          rw [itemsFrom_append, List.mem_append] at hend
          refine hend.imp_right fun hlast => ?_
          by_cases hc : c = other <;> by_cases hid : dataset.id = endId <;>
            simp_all [itemsFrom, entryItem]
        refine ⟨hcallback, hstarted', hfinished', fun hnone => ?_, fun id other hid => ?_,
          fun hopen => ?_⟩
        · dsimp only at hnone
          split at hnone <;> cases hnone
        · obtain ⟨hinserted, hother, hend⟩ := hmapped id other hid
          refine ⟨hinserted, hother, fun hne hmem => ?_⟩
          rcases hpulled other hmem with hmem | ⟨rfl, hlast⟩
          · exact hend (by simp) hmem
          · dsimp only at hne
            rw [if_pos hlast] at hne
            exact hne (congrArg _ (hclientId.symm.trans hother))
        · dsimp only at hopen
          by_cases hlast : dataset.id = endId
          · simp [hlast, PullStage.pending] at hopen
          · refine (hopened (by simp)).imp_right fun hnone other hmem => ?_
            rcases hpulled other hmem with hmem | ⟨-, heq⟩
            · exact hnone other hmem
            · exact hlast heq
  | erasing clientId =>
      simp only [hstage] at hrun hmapped
      cases hrun
      refine ⟨hcallback, hstarted', hfinished', (by simp), fun id c hid => ?_, fun hopen => ?_⟩
      · change (aggregator.server.eraseClient clientId).clientSockets[id]? = some c at hid
        rw [SocketServer.getElem?_eraseClient] at hid
        split at hid
        · cases hid
        · rename_i hne
          obtain ⟨hinserted, hother, hend⟩ := hmapped id c hid
          exact ⟨hinserted, hother, fun _ => hend (by simpa using hne)⟩
      · simp [PullStage.pending] at hopen
  | checking =>
      simp only [hstage] at hrun hmapped
      cases hrun
      refine ⟨hcallback, hstarted', hfinished', fun hnone => ?_, fun id c hid => ?_, fun hopen => ?_⟩
      · dsimp only at hnone
        split at hnone <;> cases hnone
      · obtain ⟨hinserted, hother, hend⟩ := hmapped id c hid
        exact ⟨hinserted, hother, fun _ => hend (by simp)⟩
      · dsimp only at hopen
        split at hopen
        · simp [PullStage.pending] at hopen
        · rename_i hempty
          exact .inl (Bool.eq_false_of_not_eq_true hempty)
  | stopping =>
      simp only [hstage] at hrun hmapped
      cases hrun
      refine ⟨hcallback, hstarted', hfinished', (by simp), fun id c hid => ?_, fun hopen => ?_⟩
      · obtain ⟨hinserted, hother, hend⟩ := hmapped id c hid
        exact ⟨hinserted, hother, fun _ => hend (by simp)⟩
      · simp [PullStage.pending] at hopen
  | adding dataset =>
      simp only [hstage] at hrun hmapped hopened
      cases hrun
      exact ⟨hcallback, hstarted', hfinished', (by simp),
        fun id c hid => by simpa using hmapped id c hid,
        fun _ => hopened (by simp [PullStage.pending])⟩
  | left =>
      simp only [hstage] at hrun
      cases hrun

/-- What `Run` does to the server leaves the ids below those that are handed out. -/
theorem numbered_run {nextClientId : ℕ} (h : aggregator.server.Numbered nextClientId)
    (hrun : aggregator.run setting = some next) : next.server.Numbered nextClientId := by
  unfold SocketAggregator.run at hrun
  split at hrun
  · split at hrun <;> cases hrun
    exact h
  · split at hrun <;> cases hrun
    exact h
  · cases hrun
    exact h.eraseClient _
  · cases hrun
    exact h
  · cases hrun
    exact ⟨h.keys, h.offered⟩
  · cases hrun
    exact h
  · cases hrun

end SocketAggregator

/-- `next_client_id` does not wrap around. -/
theorem countRegistration_eq {nextClientId : ℕ} (h : nextClientId + 1 < 2 ^ 32) :
    countRegistration nextClientId = nextClientId + 1 := Nat.mod_eq_of_lt h

namespace SocketSupplier

variable {files : Files} {input : DataSupplyState} {supplier next : SocketSupplier}

/-- `Run` only sets the flags of the server. -/
theorem run_server (hrun : supplier.run files input = some next) :
    ∃ stopRegistering callback, next.server =
      { supplier.server with stopRegistering := stopRegistering, callback := callback } := by
  unfold SocketSupplier.run at hrun
  split at hrun
  · split at hrun
    · cases hrun
      exact ⟨_, _, rfl⟩
    · obtain ⟨_, -, rfl⟩ := Option.map_eq_some_iff.mp hrun
      exact ⟨_, _, rfl⟩
  · split at hrun <;> cases hrun
    exact ⟨_, _, rfl⟩
  · split at hrun
    · cases hrun
      exact ⟨_, _, rfl⟩
    · obtain ⟨_, -, rfl⟩ := Option.map_eq_some_iff.mp hrun
      exact ⟨_, _, rfl⟩
  · cases hrun
    exact ⟨_, _, rfl⟩
  · cases hrun
    exact ⟨_, _, rfl⟩
  · cases hrun
    exact ⟨_, _, rfl⟩
  · cases hrun
    exact ⟨_, _, rfl⟩
  · split at hrun
    · obtain ⟨_, -, rfl⟩ := Option.map_eq_some_iff.mp hrun
      exact ⟨_, _, rfl⟩
    · cases hrun
      exact ⟨_, _, rfl⟩
  · cases hrun

/-- **One step** of the supplier, as long as there are client ids left. -/
theorem step_kept {s t : ℕ × SocketSupplier} {a : Action} (haddressed : s.2.Addressed)
    (hids : s.2.server.Numbered s.1) (hnext : s.1 + 1 < 2 ^ 32)
    (hstep : step files input s a = some t) :
    s.1 ≤ t.1 ∧ t.2.Addressed ∧ t.2.server.Numbered t.1 := by
  cases a with
  | otherServer =>
      cases hstep
      rw [countRegistration_eq hnext]
      exact ⟨Nat.le_succ _, haddressed, hids.later (Nat.le_succ _)⟩
  | accept c =>
      obtain ⟨server, haccept, rfl⟩ := Option.map_eq_some_iff.mp hstep
      exact ⟨le_rfl, haddressed.accept haccept, hids.accept haccept⟩
  | handle =>
      obtain ⟨⟨server, effect⟩, hhandle, rfl⟩ := Option.map_eq_some_iff.mp hstep
      have hids' := hids.handle hhandle
      cases effect with
      | silent => exact ⟨le_rfl, haddressed.handle hhandle _, hids'⟩
      | called c id => exact ⟨le_rfl, haddressed.handle hhandle _, hids'⟩
      | counted =>
          dsimp only
          rw [countRegistration_eq hnext]
          exact ⟨Nat.le_succ _, haddressed.handle hhandle _, hids'⟩
  | run =>
      obtain ⟨next, hrun, rfl⟩ := Option.map_eq_some_iff.mp hstep
      obtain ⟨stopRegistering, callback, hserver⟩ := run_server hrun
      refine ⟨le_rfl, haddressed.run hrun, ?_⟩
      dsimp only
      rw [hserver]
      exact ⟨hids.keys, hids.offered⟩

end SocketSupplier

namespace SocketAggregator

/-- **One step** of the aggregator. -/
theorem step_kept {setting : AggregatorSetting} {s t : ℕ × SocketAggregator} {a : Action}
    (hsound : Sound setting s.2) (hclosing : s.2.Closing) (hids : s.2.server.Numbered s.1)
    (hnext : s.1 + 1 < 2 ^ 32) (hstep : step setting s a = some t) :
    s.1 ≤ t.1 ∧ t.2.Closing ∧ t.2.server.Numbered t.1 := by
  cases a with
  | otherServer =>
      cases hstep
      rw [countRegistration_eq hnext]
      exact ⟨Nat.le_succ _, hclosing, hids.later (Nat.le_succ _)⟩
  | accept c =>
      obtain ⟨server, haccept, rfl⟩ := Option.map_eq_some_iff.mp hstep
      exact ⟨le_rfl, hclosing.accept hsound.registering haccept, hids.accept haccept⟩
  | handle =>
      obtain ⟨⟨server, effect⟩, hhandle, rfl⟩ := Option.map_eq_some_iff.mp hstep
      have hids' := hids.handle hhandle
      have hclosing' := hclosing.handle setting hsound.registering hsound.holding hhandle
      cases effect with
      | silent => exact ⟨le_rfl, hclosing', hids'⟩
      | called c id => exact ⟨le_rfl, hclosing', hids'⟩
      | counted =>
          dsimp only
          rw [countRegistration_eq hnext]
          exact ⟨Nat.le_succ _, hclosing', hids'⟩
  | connection c action =>
      obtain ⟨connection, dataset, hact, rfl⟩ := step_connection hstep
      exact ⟨le_rfl, hclosing.connection hact, hids⟩
  | run =>
      obtain ⟨next, hrun, rfl⟩ := Option.map_eq_some_iff.mp hstep
      exact ⟨le_rfl, hclosing.run hsound.registering hsound.holding hrun, numbered_run hids hrun⟩

end SocketAggregator

/-! ## The ring -/

namespace SocketRing

/-- The worker that takes the step, or to which the connection or the thread belongs. -/
def Action.worker? : Action → Option ℕ
  | supplierHandle => none
  | supplierRun => none
  | aggregatorHandle => none
  | aggregatorRun => none
  | threadReceive w _ => some w
  | threadEnqueue w => some w
  | connectSupplier w => some w
  | connectAggregator w => some w
  | receive w _ => some w
  | push w => some w
  | send w => some w
  | finishPush w => some w

/-- The action is one of the servers or of the first `workers` workers. -/
def Action.Of (workers : ℕ) (a : Action) : Prop := ∀ w ∈ a.worker?, w < workers

instance (workers : ℕ) (a : Action) : Decidable (a.Of workers) :=
  inferInstanceAs (Decidable (∀ w ∈ a.worker?, w < workers))

variable (ring : SocketRing)

/-- What the supplier, the aggregator and the connections hold. -/
structure Parts (s : State) : Prop where
  supplied : ∃ begun ends, SocketSupplier.Supplied ring.setting.files ring.input begun ends s.supplier ∧
    SocketSupplier.Answered ends s.supplier
  addressed : s.supplier.Addressed
  supplierIds : s.supplier.server.Numbered s.nextClientId
  sound : SocketAggregator.Sound ring.setting s.aggregator
  closing : s.aggregator.Closing
  aggregatorIds : s.aggregator.server.Numbered s.nextClientId
  working : ∀ w, Working (s.supplier.sent w) (s.aggregator.connections w) (s.workers w)

/-- A worker is where its registrations and its connection to the aggregator say it is. -/
structure Placed (workers : ℕ) (s : State) : Prop where
  supplier : ∀ w, w ∈ s.supplier.server.accepted ↔ (s.workers w).stage ≠ .starting
  aggregator : ∀ w, w ∈ s.aggregator.server.accepted ↔
    (s.workers w).stage ≠ .starting ∧ (s.workers w).stage ≠ .registered
  within : ∀ w, (s.workers w).stage ≠ .starting → w < workers
  nodup : s.supplier.server.accepted.Nodup ∧ s.aggregator.server.accepted.Nodup
  quiet : ∀ w, (s.workers w).stage ≠ .pushing → (s.workers w).stage ≠ .ending →
    (s.aggregator.connections w).sending = []
  count : s.nextClientId + s.supplier.server.handler.pending + s.aggregator.server.handler.pending =
    s.supplier.server.accepted.length + s.aggregator.server.accepted.length + 1

structure Live (workers : ℕ) (s : State) : Prop where
  parts : Parts ring s
  placed : Placed workers s

variable {ring} {s t : State}

theorem Parts.supplierStep {b : SocketSupplier.Action} (h : Parts ring s)
    (hnext : s.nextClientId + 1 < 2 ^ 32) (hstep : SocketRing.supplierStep ring s b = some t) :
    Parts ring t ∧ t.aggregator = s.aggregator ∧ t.workers = s.workers := by
  obtain ⟨⟨nextClientId, supplier⟩, hsupplier, rfl⟩ := Option.map_eq_some_iff.mp hstep
  obtain ⟨begun, ends, hsupplied, hanswered⟩ := h.supplied
  obtain ⟨begun', ends', hsupplied', hanswered'⟩ :=
    SocketSupplier.Supplied.step hsupplied hsupplier
  obtain ⟨hle, haddressed, hids⟩ :=
    SocketSupplier.step_kept h.addressed h.supplierIds hnext hsupplier
  refine ⟨⟨⟨begun', ends', hsupplied', ?_⟩, haddressed, hids, h.sound, h.closing,
    h.aggregatorIds.later hle, fun w => ?_⟩, rfl, rfl⟩
  · exact hanswered' (fun _ => h.supplierIds.not_overwrites) hanswered
  · exact (h.working w).of_sent (SocketSupplier.step_sent hsupplier w)

/-- A step of the aggregator: the workers that do not push keep what they have. -/
theorem Parts.aggregatorStep {b : SocketAggregator.Action} (h : Parts ring s)
    (hnext : s.nextClientId + 1 < 2 ^ 32)
    (hstep : SocketRing.aggregatorStep ring s b = some t)
    (hintact : SocketAggregator.Intact ring.setting (s.nextClientId, s.aggregator) b) :
    t.supplier = s.supplier ∧ t.workers = s.workers ∧
      (∀ w, b.pusher ≠ some w →
        Working (s.supplier.sent w) (t.aggregator.connections w) (s.workers w)) ∧
      ∀ workers, (∀ w, Working (s.supplier.sent w) (t.aggregator.connections w) (workers w)) →
        Parts ring { t with workers := workers } := by
  obtain ⟨⟨nextClientId, aggregator⟩, haggregator, rfl⟩ := Option.map_eq_some_iff.mp hstep
  obtain ⟨hle, hclosing, hids⟩ :=
    SocketAggregator.step_kept h.sound h.closing h.aggregatorIds hnext haggregator
  refine ⟨rfl, rfl, fun w hw => ?_, fun workers hworking => ⟨h.supplied, h.addressed,
    h.supplierIds.later hle, SocketAggregator.Sound.step h.sound hintact haggregator, hclosing, hids,
    hworking⟩⟩
  obtain ⟨hpushed, hended⟩ := SocketAggregator.step_pushed haggregator hw
  exact (h.working w).of_connection hpushed hended

/-- A step of the aggregator in which no worker pushes. -/
theorem Parts.aggregatorStep_of_quiet {b : SocketAggregator.Action} (h : Parts ring s)
    (hnext : s.nextClientId + 1 < 2 ^ 32)
    (hstep : SocketRing.aggregatorStep ring s b = some t)
    (hintact : SocketAggregator.Intact ring.setting (s.nextClientId, s.aggregator) b)
    (hquiet : b.pusher = none) :
    Parts ring t := by
  obtain ⟨-, hworkers, hworking, hparts⟩ := h.aggregatorStep hnext hstep hintact
  have ht := hparts s.workers fun w => hworking w (by rw [hquiet]; exact nofun)
  rwa [← hworkers] at ht

/-- A worker moves on. -/
theorem Parts.setWorker (h : Parts ring s) {w : ℕ} {worker : Worker}
    (hw : Working (s.supplier.sent w) (s.aggregator.connections w) worker) :
    Parts ring (setWorker s w worker) :=
  ⟨h.supplied, h.addressed, h.supplierIds, h.sound, h.closing, h.aggregatorIds,
    working_update (fun other _ => h.working other) hw⟩

/-- **One step** keeps what the parts of the ring hold. -/
theorem Parts.step {a : Action} (h : Parts ring s) (hnext : s.nextClientId + 1 < 2 ^ 32)
    (hstep : SocketRing.step ring s a = some t) : Parts ring t := by
  cases a with
  | supplierHandle => exact (h.supplierStep hnext hstep).1
  | supplierRun => exact (h.supplierStep hnext hstep).1
  | aggregatorHandle =>
      exact h.aggregatorStep_of_quiet hnext hstep h.aggregatorIds.not_overwrites rfl
  | aggregatorRun => exact h.aggregatorStep_of_quiet hnext hstep trivial rfl
  | threadEnqueue w => exact h.aggregatorStep_of_quiet hnext hstep trivial rfl
  | send w => exact h.aggregatorStep_of_quiet hnext hstep trivial rfl
  | threadReceive w cut =>
      simp only [SocketRing.step] at hstep
      split at hstep
      · rename_i hintact
        exact h.aggregatorStep_of_quiet hnext hstep hintact rfl
      · cases hstep
  | connectSupplier w =>
      simp only [SocketRing.step] at hstep
      split at hstep
      · rename_i hstarting
        obtain ⟨middle, hmiddle, rfl⟩ := Option.map_eq_some_iff.mp hstep
        obtain ⟨hparts, -, hworkers⟩ := h.supplierStep hnext hmiddle
        refine hparts.setWorker ?_
        rw [← hworkers] at hstarting ⊢
        exact (hparts.working w).of_stage (by rw [hstarting]; rfl)
      · cases hstep
  | connectAggregator w =>
      simp only [SocketRing.step] at hstep
      split at hstep
      · rename_i hregistered
        obtain ⟨middle, hmiddle, rfl⟩ := Option.map_eq_some_iff.mp hstep
        have hworkers := (h.aggregatorStep hnext hmiddle trivial).2.1
        have hparts := h.aggregatorStep_of_quiet hnext hmiddle trivial rfl
        refine hparts.setWorker ?_
        rw [← hworkers] at hregistered ⊢
        exact (hparts.working w).of_stage (by rw [hregistered]; rfl)
      · cases hstep
  | receive w cut =>
      simp only [SocketRing.step] at hstep
      split at hstep
      · rename_i hguard
        obtain ⟨⟨reader, left⟩, hreceive, rfl⟩ := Option.map_eq_some_iff.mp hstep
        exact h.setWorker ((h.working w).receive hguard.2 hreceive)
      · cases hstep
  | push w =>
      simp only [SocketRing.step] at hstep
      split at hstep
      · rename_i hguard
        obtain ⟨hpulling, hwhole⟩ := hguard
        have hw := h.working w
        split at hstep
        · rename_i hitem
          obtain ⟨middle, hmiddle, rfl⟩ := Option.map_eq_some_iff.mp hstep
          obtain ⟨-, hworkers, hworking, hparts⟩ := h.aggregatorStep hnext hmiddle trivial
          obtain ⟨hpushed, hended⟩ := aggregatorStep_pushEnd hmiddle
          refine hparts _ fun other => ?_
          rw [hworkers]
          by_cases hother : other = w
          · subst hother
            rw [Function.update_self]
            exact hw.pushEnd hpulling hwhole hitem hpushed hended
          · rw [Function.update_of_ne hother]
            exact hworking other (not_mem_ne hother)
        · rename_i id buffer hitem
          obtain ⟨middle, hmiddle, rfl⟩ := Option.map_eq_some_iff.mp hstep
          obtain ⟨content, hcontent, hpushed, hended⟩ := aggregatorStep_push hmiddle
          obtain rfl := retrieveBuffer_retainBuffer hw.data hcontent
          -- what was received fits the length field
          have hintact : Dataset.Short ring.setting.files
              (((s.workers w).dataset.setId (datasetName id)).retainBuffer content) := by
            intro other hother
            rw [hcontent] at hother
            cases hother
            have hvalid := (Reader.bytes_item hw.reader hwhole).1
            rw [hitem] at hvalid
            exact hvalid.2
          obtain ⟨-, hworkers, hworking, hparts⟩ := h.aggregatorStep hnext hmiddle hintact
          refine hparts _ fun other => ?_
          rw [hworkers]
          by_cases hother : other = w
          · subst hother
            rw [Function.update_self]
            exact hw.push hpulling hwhole hitem hw.data hpushed hended
          · rw [Function.update_of_ne hother]
            exact hworking other (not_mem_ne hother)
      · cases hstep
  | finishPush w =>
      simp only [SocketRing.step] at hstep
      split at hstep
      · split at hstep
        · rename_i hpushing
          cases hstep
          exact h.setWorker ((h.working w).of_stage (by rw [hpushing]; rfl))
        · rename_i hending
          cases hstep
          exact h.setWorker ((h.working w).of_stage (by rw [hending]; rfl))
        · cases hstep
      · cases hstep

/-! ### Registrations -/

theorem supplierStep_accept {c : ℕ} (hstep : SocketRing.supplierStep ring s (.accept c) = some t) :
    s.supplier.server.handler = .accepting ∧ c ∉ s.supplier.server.accepted ∧
      t.supplier.server.handler.pending = 1 ∧ t.nextClientId = s.nextClientId ∧
      t.supplier.server.accepted = c :: s.supplier.server.accepted ∧
      t.aggregator = s.aggregator ∧ t.workers = s.workers := by
  obtain ⟨_, hsupplier, rfl⟩ := Option.map_eq_some_iff.mp hstep
  obtain ⟨server, haccept, rfl⟩ := Option.map_eq_some_iff.mp hsupplier
  obtain ⟨hhandler, hfresh, rfl⟩ := SocketServer.accept_eq_some haccept
  exact ⟨hhandler, hfresh, rfl, rfl, rfl, rfl, rfl⟩

theorem aggregatorStep_accept {c : ℕ}
    (hstep : SocketRing.aggregatorStep ring s (.accept c) = some t) :
    s.aggregator.server.handler = .accepting ∧ c ∉ s.aggregator.server.accepted ∧
      t.aggregator.server.handler.pending = 1 ∧ t.nextClientId = s.nextClientId ∧
      t.aggregator.server.accepted = c :: s.aggregator.server.accepted ∧
      t.aggregator.connections = s.aggregator.connections ∧
      t.supplier = s.supplier ∧ t.workers = s.workers := by
  obtain ⟨_, haggregator, rfl⟩ := Option.map_eq_some_iff.mp hstep
  obtain ⟨server, haccept, rfl⟩ := Option.map_eq_some_iff.mp haggregator
  obtain ⟨hhandler, hfresh, rfl⟩ := SocketServer.accept_eq_some haccept
  exact ⟨hhandler, hfresh, rfl, rfl, rfl, rfl, rfl, rfl⟩

/-- The other steps of the supplier accept no connection. -/
theorem supplierStep_count {b : SocketSupplier.Action} (hb : b = .handle ∨ b = .run)
    (hnext : s.nextClientId + 1 < 2 ^ 32) (hstep : SocketRing.supplierStep ring s b = some t) :
    t.supplier.server.accepted = s.supplier.server.accepted ∧
      t.nextClientId + t.supplier.server.handler.pending =
        s.nextClientId + s.supplier.server.handler.pending ∧
      t.aggregator = s.aggregator ∧ t.workers = s.workers := by
  obtain ⟨_, hsupplier, rfl⟩ := Option.map_eq_some_iff.mp hstep
  rcases hb with rfl | rfl
  · obtain ⟨⟨server, effect⟩, hhandle, rfl⟩ := Option.map_eq_some_iff.mp hsupplier
    obtain ⟨haccepted, hcount⟩ := SocketServer.handle_count hhandle s.nextClientId
    refine ⟨?_, ?_, rfl, rfl⟩ <;> cases effect <;>
      simp_all [SocketSupplier.sendEnd, countRegistration_eq hnext]
  · obtain ⟨next, hrun, rfl⟩ := Option.map_eq_some_iff.mp hsupplier
    obtain ⟨stopRegistering, callback, hserver⟩ := SocketSupplier.run_server hrun
    simp [hserver]

theorem aggregatorStep_count {b : SocketAggregator.Action}
    (hb : b = .handle ∨ b = .run ∨ ∃ c action, b = .connection c action)
    (hnext : s.nextClientId + 1 < 2 ^ 32)
    (hstep : SocketRing.aggregatorStep ring s b = some t) :
    t.aggregator.server.accepted = s.aggregator.server.accepted ∧
      t.nextClientId + t.aggregator.server.handler.pending =
        s.nextClientId + s.aggregator.server.handler.pending ∧
      t.supplier = s.supplier ∧ t.workers = s.workers := by
  obtain ⟨_, haggregator, rfl⟩ := Option.map_eq_some_iff.mp hstep
  rcases hb with rfl | rfl | ⟨c, action, rfl⟩
  · obtain ⟨⟨server, effect⟩, hhandle, rfl⟩ := Option.map_eq_some_iff.mp haggregator
    obtain ⟨haccepted, hcount⟩ := SocketServer.handle_count hhandle s.nextClientId
    refine ⟨?_, ?_, rfl, rfl⟩ <;> cases effect <;>
      simp_all [SocketAggregator.onClientRegistered, countRegistration_eq hnext]
  · obtain ⟨next, hrun, rfl⟩ := Option.map_eq_some_iff.mp haggregator
    have hframe := SocketAggregator.run_frame hrun
    exact ⟨hframe.accepted, by dsimp only; rw [hframe.handler], rfl, rfl⟩
  · obtain ⟨connection, dataset, -, rfl⟩ := SocketAggregator.step_connection haggregator
    exact ⟨rfl, rfl, rfl, rfl⟩

/-- A connection with nothing to send has nothing to send until its client pushes. -/
theorem aggregatorStep_sending {b : SocketAggregator.Action} {w : ℕ} (hpusher : b.pusher ≠ some w)
    (hstep : SocketRing.aggregatorStep ring s b = some t)
    (hnone : (s.aggregator.connections w).sending = []) :
    (t.aggregator.connections w).sending = [] := by
  obtain ⟨_, haggregator, rfl⟩ := Option.map_eq_some_iff.mp hstep
  cases b with
  | otherServer =>
      cases haggregator
      exact hnone
  | accept c =>
      obtain ⟨server, -, rfl⟩ := Option.map_eq_some_iff.mp haggregator
      exact hnone
  | handle =>
      obtain ⟨⟨server, effect⟩, -, rfl⟩ := Option.map_eq_some_iff.mp haggregator
      cases effect with
      | silent => exact hnone
      | counted => exact hnone
      | called c id =>
          by_cases hc : w = c
          · subst hc
            simpa [SocketAggregator.onClientRegistered] using hnone
          · simpa [SocketAggregator.onClientRegistered, Function.update_of_ne hc] using hnone
  | connection c action =>
      obtain ⟨connection, dataset, hact, rfl⟩ := SocketAggregator.step_connection haggregator
      by_cases hc : w = c
      · subst hc
        dsimp only
        rw [Function.update_self]
        cases action with
        | push id pushed => exact absurd rfl hpusher
        | pushEnd => exact absurd rfl hpusher
        | send =>
            obtain ⟨-, bytes, left, hsending, -⟩ := Connection.act_send_eq_some hact
            rw [hnone] at hsending
            cases hsending
        | sendPart count =>
            obtain ⟨-, bytes, left, hsending, -⟩ := Connection.act_sendPart_eq_some hact
            rw [hnone] at hsending
            cases hsending
        | receive cut =>
            obtain ⟨-, thread, reader, unread, -, -, -, rfl⟩ := Connection.act_receive_eq_some hact
            exact hnone
        | enqueue =>
            obtain ⟨thread, -, -, -, -, rfl⟩ := Connection.act_enqueue_eq_some hact
            exact hnone
      · dsimp only
        rw [Function.update_of_ne hc]
        exact hnone
  | run =>
      obtain ⟨next, hrun, rfl⟩ := Option.map_eq_some_iff.mp haggregator
      dsimp only
      rw [(SocketAggregator.run_frame hrun).connections]
      exact hnone

section Placed

variable {workers : ℕ}

theorem length_accepted_le {accepted : List ℕ} (hnodup : accepted.Nodup)
    (hwithin : ∀ w ∈ accepted, w < workers) : accepted.length ≤ workers := by
  have hsubset : accepted ⊆ List.range workers := fun w hw => List.mem_range.mpr (hwithin w hw)
  calc accepted.length
      _ ≤ (List.range workers).length := (List.subperm_of_subset hnodup hsubset).length_le
      _ = workers := List.length_range

/-- Each worker registers twice at most. -/
theorem Placed.nextClientId_le (h : Placed workers s) : s.nextClientId ≤ 2 * workers + 1 := by
  have hsupplier := length_accepted_le h.nodup.1 fun w hw => h.within w ((h.supplier w).mp hw)
  have haggregator := length_accepted_le h.nodup.2 fun w hw => h.within w ((h.aggregator w).mp hw).1
  have hcount := h.count
  omega

theorem Placed.of_step (h : Placed workers s)
    (hsupplier : t.supplier.server.accepted = s.supplier.server.accepted)
    (haggregator : t.aggregator.server.accepted = s.aggregator.server.accepted)
    (hcount : t.nextClientId + t.supplier.server.handler.pending +
        t.aggregator.server.handler.pending =
      s.nextClientId + s.supplier.server.handler.pending + s.aggregator.server.handler.pending)
    (hstarting : ∀ w, (t.workers w).stage = .starting ↔ (s.workers w).stage = .starting)
    (hregistered : ∀ w, (t.workers w).stage = .registered ↔ (s.workers w).stage = .registered)
    (hquiet : ∀ w, (t.workers w).stage ≠ .pushing → (t.workers w).stage ≠ .ending →
      (t.aggregator.connections w).sending = []) : Placed workers t where
  supplier := fun w => by rw [hsupplier, h.supplier, Ne, Ne, hstarting]
  aggregator := fun w => by rw [haggregator, h.aggregator, Ne, Ne, Ne, Ne, hstarting, hregistered]
  within := fun w hw => h.within w fun heq => hw ((hstarting w).mpr heq)
  nodup := by rw [hsupplier, haggregator]; exact h.nodup
  quiet := hquiet
  count := by rw [hcount, hsupplier, haggregator]; exact h.count

theorem Placed.supplierStep (h : Placed workers s) {b : SocketSupplier.Action}
    (hb : b = .handle ∨ b = .run) (hnext : s.nextClientId + 1 < 2 ^ 32)
    (hstep : SocketRing.supplierStep ring s b = some t) : Placed workers t := by
  obtain ⟨haccepted, hcount, haggregator, hworkers⟩ := supplierStep_count hb hnext hstep
  refine h.of_step haccepted (by rw [haggregator]) (by rw [haggregator]; omega)
    (fun w => by rw [hworkers]) (fun w => by rw [hworkers]) fun w => ?_
  rw [hworkers, haggregator]
  exact h.quiet w

theorem Placed.aggregatorStep (h : Placed workers s) {b : SocketAggregator.Action}
    (hb : b = .handle ∨ b = .run ∨ ∃ c action, b = .connection c action)
    (hnext : s.nextClientId + 1 < 2 ^ 32) (hpusher : b.pusher = none)
    (hstep : SocketRing.aggregatorStep ring s b = some t) : Placed workers t := by
  obtain ⟨haccepted, hcount, hsupplier, hworkers⟩ := aggregatorStep_count hb hnext hstep
  refine h.of_step (by rw [hsupplier]) haccepted (by rw [hsupplier] at *; omega)
    (fun w => by rw [hworkers]) (fun w => by rw [hworkers]) fun w hpushing hending => ?_
  rw [hworkers] at hpushing hending
  exact aggregatorStep_sending (by rw [hpusher]; exact nofun) hstep (h.quiet w hpushing hending)

/-- A worker that has registered with both servers moves on. -/
theorem Placed.setWorker (h : Placed workers s) {w : ℕ} {worker : Worker}
    (hbefore : (s.workers w).stage ≠ .starting ∧ (s.workers w).stage ≠ .registered)
    (hafter : worker.stage ≠ .starting ∧ worker.stage ≠ .registered)
    (hquiet : worker.stage ≠ .pushing → worker.stage ≠ .ending →
      (s.aggregator.connections w).sending = []) : Placed workers (setWorker s w worker) := by
  have hcases : ∀ {P : Worker → Prop} (other : ℕ), (other = w → P worker) →
      (other ≠ w → P (s.workers other)) → P ((SocketRing.setWorker s w worker).workers other) := by
    intro P other heq hne
    by_cases hother : other = w
    · subst hother
      simpa [SocketRing.setWorker] using heq rfl
    · simpa [SocketRing.setWorker, Function.update_of_ne hother] using hne hother
  refine h.of_step rfl rfl rfl (fun other => ?_) (fun other => ?_) fun other => ?_
  · refine hcases (P := fun value => value.stage = .starting ↔ _) other (fun heq => ?_) fun _ => Iff.rfl
    rw [heq]
    exact iff_of_false hafter.1 hbefore.1
  · refine hcases (P := fun value => value.stage = .registered ↔ _) other (fun heq => ?_) fun _ => Iff.rfl
    rw [heq]
    exact iff_of_false hafter.2 hbefore.2
  · refine hcases (P := fun value => value.stage ≠ .pushing → value.stage ≠ .ending →
      (s.aggregator.connections other).sending = []) other (fun heq => ?_) fun _ => h.quiet other
    rw [heq]
    exact hquiet

theorem Placed.connectSupplier (h : Placed workers s) {w : ℕ} (hw : w < workers)
    (hstarting : (s.workers w).stage = .starting)
    (hstep : SocketRing.supplierStep ring s (.accept w) = some t) :
    Placed workers (SocketRing.setWorker t w { s.workers w with stage := .registered }) := by
  obtain ⟨hhandler, hfresh, hpending, hnext, haccepted, haggregator, hworkers⟩ :=
    supplierStep_accept hstep
  have hcount := h.count
  rw [hhandler, HandlerStage.pending_accepting] at hcount
  refine ⟨fun other => ?_, fun other => ?_, fun other hother => ?_, ⟨?_, ?_⟩,
    fun other hpushing hending => ?_, ?_⟩
  · dsimp only [SocketRing.setWorker]
    rw [haccepted, hworkers, List.mem_cons, h.supplier]
    by_cases hne : other = w
    · simp [hne]
    · simp [hne]
  · dsimp only [SocketRing.setWorker]
    rw [haggregator, hworkers, h.aggregator]
    by_cases hne : other = w
    · simp [hne, hstarting]
    · simp [hne]
  · dsimp only [SocketRing.setWorker] at hother
    rw [hworkers] at hother
    by_cases hne : other = w
    · rwa [hne]
    · rw [Function.update_of_ne hne] at hother
      exact h.within other hother
  · dsimp only [SocketRing.setWorker]
    rw [haccepted]
    exact List.nodup_cons.mpr ⟨hfresh, h.nodup.1⟩
  · dsimp only [SocketRing.setWorker]
    rw [haggregator]
    exact h.nodup.2
  · dsimp only [SocketRing.setWorker] at hpushing hending ⊢
    rw [hworkers] at hpushing hending
    rw [haggregator]
    by_cases hne : other = w
    · subst hne
      exact h.quiet other (by rw [hstarting]; exact nofun) (by rw [hstarting]; exact nofun)
    · rw [Function.update_of_ne hne] at hpushing hending
      exact h.quiet other hpushing hending
  · dsimp only [SocketRing.setWorker]
    rw [hpending, hnext, haccepted, haggregator, List.length_cons]
    omega

theorem Placed.connectAggregator (h : Placed workers s) {w : ℕ}
    (hregistered : (s.workers w).stage = .registered)
    (hstep : SocketRing.aggregatorStep ring s (.accept w) = some t) :
    Placed workers (SocketRing.setWorker t w { s.workers w with stage := .pulling }) := by
  obtain ⟨hhandler, hfresh, hpending, hnext, haccepted, hconnections, hsupplier, hworkers⟩ :=
    aggregatorStep_accept hstep
  have hcount := h.count
  rw [hhandler, HandlerStage.pending_accepting] at hcount
  refine ⟨fun other => ?_, fun other => ?_, fun other hother => ?_, ⟨?_, ?_⟩,
    fun other hpushing hending => ?_, ?_⟩
  · dsimp only [SocketRing.setWorker]
    rw [hsupplier, hworkers, h.supplier]
    by_cases hne : other = w
    · simp [hne, hregistered]
    · simp [hne]
  · dsimp only [SocketRing.setWorker]
    rw [haccepted, hworkers, List.mem_cons, h.aggregator]
    by_cases hne : other = w
    · simp [hne]
    · simp [hne]
  · dsimp only [SocketRing.setWorker] at hother
    rw [hworkers] at hother
    refine h.within other fun heq => hother ?_
    by_cases hne : other = w
    · subst hne
      rw [hregistered] at heq
      cases heq
    · rwa [Function.update_of_ne hne]
  · dsimp only [SocketRing.setWorker]
    rw [hsupplier]
    exact h.nodup.1
  · dsimp only [SocketRing.setWorker]
    rw [haccepted]
    exact List.nodup_cons.mpr ⟨hfresh, h.nodup.2⟩
  · dsimp only [SocketRing.setWorker] at hpushing hending ⊢
    rw [hworkers] at hpushing hending
    rw [hconnections]
    by_cases hne : other = w
    · subst hne
      exact h.quiet other (by rw [hregistered]; exact nofun) (by rw [hregistered]; exact nofun)
    · rw [Function.update_of_ne hne] at hpushing hending
      exact h.quiet other hpushing hending
  · dsimp only [SocketRing.setWorker]
    rw [hpending, hnext, haccepted, hsupplier, List.length_cons]
    omega

/-- A worker pushes to its connection. -/
theorem Placed.push (h : Placed workers s) {w : ℕ} {action : ConnectionAction} {worker : Worker}
    (hnext : s.nextClientId + 1 < 2 ^ 32) (hpulling : (s.workers w).stage = .pulling)
    (hafter : worker.stage = .pushing ∨ worker.stage = .ending)
    (hstep : SocketRing.aggregatorStep ring s (.connection w action) = some t) :
    Placed workers (SocketRing.setWorker t w worker) := by
  obtain ⟨haccepted, hcount, hsupplier, hworkers⟩ :=
    aggregatorStep_count (.inr (.inr ⟨w, action, rfl⟩)) hnext hstep
  refine h.of_step ?_ haccepted ?_ (fun other => ?_) (fun other => ?_)
    fun other hpushing hending => ?_
  · dsimp only [SocketRing.setWorker]
    rw [hsupplier]
  · dsimp only [SocketRing.setWorker]
    rw [hsupplier]
    omega
  · dsimp only [SocketRing.setWorker]
    by_cases hne : other = w
    · rw [hne, Function.update_self, hpulling]
      rcases hafter with hafter | hafter <;> simp [hafter]
    · rw [Function.update_of_ne hne, hworkers]
  · dsimp only [SocketRing.setWorker]
    by_cases hne : other = w
    · rw [hne, Function.update_self, hpulling]
      rcases hafter with hafter | hafter <;> simp [hafter]
    · rw [Function.update_of_ne hne, hworkers]
  · dsimp only [SocketRing.setWorker] at hpushing hending ⊢
    by_cases hne : other = w
    · rw [hne, Function.update_self] at hpushing hending
      rcases hafter with hafter | hafter
      · exact absurd hafter hpushing
      · exact absurd hafter hending
    · rw [Function.update_of_ne hne, hworkers] at hpushing hending
      refine aggregatorStep_sending (fun heq => hne ?_) hstep (h.quiet other hpushing hending)
      revert heq
      cases action <;> intro heq <;> cases heq <;> rfl

/-- **One step** leaves every worker where its connections say it is. -/
theorem Placed.step (h : Placed workers s) {a : Action} (ha : a.Of workers)
    (hnext : s.nextClientId + 1 < 2 ^ 32) (hstep : SocketRing.step ring s a = some t) :
    Placed workers t := by
  cases a with
  | supplierHandle => exact h.supplierStep (.inl rfl) hnext hstep
  | supplierRun => exact h.supplierStep (.inr rfl) hnext hstep
  | aggregatorHandle => exact h.aggregatorStep (.inl rfl) hnext rfl hstep
  | aggregatorRun => exact h.aggregatorStep (.inr (.inl rfl)) hnext rfl hstep
  | threadEnqueue w => exact h.aggregatorStep (.inr (.inr ⟨w, _, rfl⟩)) hnext rfl hstep
  | send w => exact h.aggregatorStep (.inr (.inr ⟨w, _, rfl⟩)) hnext rfl hstep
  | threadReceive w cut =>
      simp only [SocketRing.step] at hstep
      split at hstep
      · exact h.aggregatorStep (.inr (.inr ⟨w, _, rfl⟩)) hnext rfl hstep
      · cases hstep
  | connectSupplier w =>
      simp only [SocketRing.step] at hstep
      split at hstep
      · rename_i hstarting
        obtain ⟨middle, hmiddle, rfl⟩ := Option.map_eq_some_iff.mp hstep
        exact h.connectSupplier (ha w rfl) hstarting hmiddle
      · cases hstep
  | connectAggregator w =>
      simp only [SocketRing.step] at hstep
      split at hstep
      · rename_i hregistered
        obtain ⟨middle, hmiddle, rfl⟩ := Option.map_eq_some_iff.mp hstep
        exact h.connectAggregator hregistered hmiddle
      · cases hstep
  | receive w cut =>
      simp only [SocketRing.step] at hstep
      split at hstep
      · rename_i hguard
        obtain ⟨⟨reader, left⟩, -, rfl⟩ := Option.map_eq_some_iff.mp hstep
        obtain ⟨hpulling, -⟩ := hguard
        refine h.setWorker ?_ ?_ fun hpushing hending => h.quiet w hpushing hending <;>
          simp [hpulling]
      · cases hstep
  | push w =>
      simp only [SocketRing.step] at hstep
      split at hstep
      · rename_i hguard
        split at hstep
        · obtain ⟨middle, hmiddle, rfl⟩ := Option.map_eq_some_iff.mp hstep
          exact h.push hnext hguard.1 (.inr rfl) hmiddle
        · obtain ⟨middle, hmiddle, rfl⟩ := Option.map_eq_some_iff.mp hstep
          exact h.push hnext hguard.1 (.inl rfl) hmiddle
      · cases hstep
  | finishPush w =>
      simp only [SocketRing.step] at hstep
      split at hstep
      · rename_i hsent
        split at hstep
        · rename_i hpushing
          cases hstep
          exact h.setWorker (by simp [hpushing]) (by simp) fun _ _ => hsent
        · rename_i hending
          cases hstep
          exact h.setWorker (by simp [hending]) (by simp) fun _ _ => hsent
        · cases hstep
      · cases hstep

end Placed

/-! ### Runs -/

section Live

variable {workers : ℕ}

theorem live_initial : Live ring workers (initial ring) where
  parts :=
    { supplied := ⟨_, _, SocketSupplier.supplied_initial, SocketSupplier.answered_initial⟩
      addressed := SocketSupplier.addressed_initial
      supplierIds := SocketServer.numbered_initial false
      sound := SocketAggregator.sound_initial
      closing := SocketAggregator.closing_initial
      aggregatorIds := SocketServer.numbered_initial true
      working := inv_initial.working }
  placed :=
    { supplier := fun w => by simp [initial]
      aggregator := fun w => by simp [initial]
      within := fun w hw => absurd rfl hw
      nodup := ⟨List.nodup_nil, List.nodup_nil⟩
      quiet := fun _ _ _ => rfl
      count := rfl }

theorem Live.step (hfew : 2 * workers + 2 < 2 ^ 32) (h : Live ring workers s) {a : Action}
    (ha : a.Of workers) (hstep : SocketRing.step ring s a = some t) : Live ring workers t := by
  have hnext : s.nextClientId + 1 < 2 ^ 32 :=
    (Nat.succ_le_succ h.placed.nextClientId_le).trans_lt hfew
  exact ⟨h.parts.step hnext hstep, h.placed.step ha hnext hstep⟩

variable (ring) in
/-- The ring with the first `workers` workers. -/
abbrev stepOf (workers : ℕ) : State → Action → Option State :=
  restrict (fun _ a => a.Of workers) (SocketRing.step ring)

theorem reachable_live (hfew : 2 * workers + 2 < 2 ^ 32)
    (h : Reachable (stepOf ring workers) (initial ring) s) : Live ring workers s :=
  h.invariant live_initial fun _ _ _ _ hlive hstep =>
    hlive.step hfew (restrict_eq_some.mp hstep).1 (restrict_eq_some.mp hstep).2

end Live

end SocketRing

end ComputeWebApp.Data
