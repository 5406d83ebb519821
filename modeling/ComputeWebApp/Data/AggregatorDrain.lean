import ComputeWebApp.Data.AggregatorServerSocket

/-!
# The socket aggregator drains its clients

Three invariants of the aggregator, each kept by every step: who has a thread and which id
(`Registering`), what each connection carries (`Delivering` of `Connection`), and who is in the
map (`Holding`).  With them, when `HandleEndSignal` finds the map empty, the end of every client
that was inserted has been pulled, and with it everything that the client pushed.
-/

namespace ComputeWebApp.Data.SocketAggregator

open Transition OrderedMap ByteStream DatasetAggregatorServerSocket

/-! ## Invariants -/

/-- The items of the entries that came from `c`. -/
def itemsFrom (entries : List (ℕ × DatasetStruct)) (c : ℕ) : List Item :=
  (entries.filter fun entry => entry.1 = c).map fun entry => entryItem entry.2

theorem itemsFrom_append (first second : List (ℕ × DatasetStruct)) (c : ℕ) :
    itemsFrom (first ++ second) c = itemsFrom first c ++ itemsFrom second c := by
  rw [itemsFrom, List.filter_append, List.map_append, itemsFrom, itemsFrom]

variable {setting : AggregatorSetting}

/-- A client that is registering has no thread yet; one that has a thread was inserted, unless the
registration was stopped, which is when `Run` leaves. -/
structure Registering (aggregator : SocketAggregator) : Prop where
  stopped : aggregator.server.stopRegistering = true → aggregator.stage = .left
  inserted : ∀ c ∈ aggregator.server.inserted, c ∈ aggregator.server.accepted
  handler : ∀ c ∈ aggregator.server.handler.unanswered,
    c ∈ aggregator.server.accepted ∧ (aggregator.connections c).threadId = none ∧
      aggregator.server.handler.offered = some (aggregator.server.clientIds c)
  calling : ∀ c id, aggregator.server.handler = .calling c id → aggregator.stage ≠ .left →
    c ∈ aggregator.server.inserted
  threads : ∀ c, ∀ id ∈ (aggregator.connections c).threadId,
    c ∈ aggregator.server.accepted ∧ aggregator.server.clientIds c = id ∧
      (aggregator.stage ≠ .left → c ∈ aggregator.server.inserted)

/-- The entries of the queue carry the id of their client; a client that was inserted is in the
map until its end is pulled, and is erased then. -/
structure Holding (aggregator : SocketAggregator) : Prop where
  entries : ∀ entry ∈ aggregator.pulled ++ aggregator.datasets,
    (aggregator.connections entry.1).threadId = some entry.2.clientId
  held : ∀ c ∈ aggregator.server.inserted,
    aggregator.server.clientSockets[aggregator.server.clientIds c]? = some c ∨
      .endSignal ∈ itemsFrom aggregator.pulled c
  erasing : ∀ id, aggregator.stage = .erasing id →
    ∃ c, aggregator.server.clientSockets[id]? = some c ∧ .endSignal ∈ itemsFrom aggregator.pulled c
  checking : aggregator.stage = .checking → ∃ c, .endSignal ∈ itemsFrom aggregator.pulled c

/-- Each connection carries what was delivered to the queue. -/
def Delivered (aggregator : SocketAggregator) : Prop :=
  ∀ c, (aggregator.connections c).Delivering (itemsFrom (aggregator.pulled ++ aggregator.datasets) c)

/-- The datasets among the entries, each with the connection that it came from. -/
def datasetsOf (entries : List (ℕ × DatasetStruct)) : List (ℕ × ℕ × Bytes) :=
  (entries.filter fun entry => entry.2.id ≠ endId).map fun entry =>
    (entry.1, entry.2.id, entry.2.buffer)

/-- What `PullDataset` has returned from the client `c`. -/
def pulledFrom (aggregator : SocketAggregator) (c : ℕ) : List (ℕ × Bytes) :=
  ((datasetsOf aggregator.pulled).filter fun entry => entry.1 = c).map Prod.snd

theorem pulledFrom_eq (aggregator : SocketAggregator) (c : ℕ) :
    aggregator.pulledFrom c = (itemsFrom aggregator.pulled c).filterMap Item.dataset? := by
  unfold pulledFrom
  induction aggregator.pulled with
  | nil => rfl
  | cons entry rest ih =>
      by_cases hend : entry.2.id = endId <;> by_cases hc : entry.1 = c <;>
        simp_all [datasetsOf, itemsFrom, entryItem, Item.dataset?, List.filterMap_cons]

section Step

variable {aggregator next : SocketAggregator}

/-- What a step of `Run` leaves. -/
structure RunFrame (aggregator next : SocketAggregator) : Prop where
  running : aggregator.stage ≠ .left
  connections : next.connections = aggregator.connections
  accepted : next.server.accepted = aggregator.server.accepted
  inserted : next.server.inserted = aggregator.server.inserted
  handler : next.server.handler = aggregator.server.handler
  clientIds : next.server.clientIds = aggregator.server.clientIds
  stopped : next.server.stopRegistering = true →
    aggregator.server.stopRegistering = true ∨ next.stage = .left
  entries : next.pulled ++ next.datasets = aggregator.pulled ++ aggregator.datasets

theorem run_frame (hrun : aggregator.run setting = some next) : RunFrame aggregator next := by
  unfold run at hrun
  cases hstage : aggregator.stage with
  | pulling =>
      simp only [hstage] at hrun
      split at hrun
      · cases hrun
      · cases hrun
        exact ⟨by simp [hstage], rfl, rfl, rfl, rfl, rfl, .inl, rfl⟩
  | popping =>
      simp only [hstage] at hrun
      split at hrun
      · cases hrun
      · rename_i hqueue
        cases hrun
        exact ⟨by simp [hstage], rfl, rfl, rfl, rfl, rfl, .inl, by simp [hqueue]⟩
  | erasing clientId =>
      simp only [hstage] at hrun
      cases hrun
      exact ⟨by simp [hstage], rfl, rfl, rfl, rfl, rfl, .inl, rfl⟩
  | checking =>
      simp only [hstage] at hrun
      cases hrun
      exact ⟨by simp [hstage], rfl, rfl, rfl, rfl, rfl, .inl, rfl⟩
  | stopping =>
      simp only [hstage] at hrun
      cases hrun
      exact ⟨by simp [hstage], rfl, rfl, rfl, rfl, rfl, fun _ => .inr rfl, rfl⟩
  | adding dataset =>
      simp only [hstage] at hrun
      cases hrun
      exact ⟨by simp [hstage], rfl, rfl, rfl, rfl, rfl, .inl, rfl⟩
  | left =>
      simp only [hstage] at hrun
      cases hrun

/-! ## Registration -/

theorem threadId_onClientRegistered (c clientId other : ℕ) :
    ((aggregator.onClientRegistered setting c clientId).connections other).threadId =
      if other = c then some clientId else (aggregator.connections other).threadId := by
  by_cases heq : other = c
  · simp [onClientRegistered, heq, Connection.threadId]
  · simp [onClientRegistered, heq]

theorem Registering.threadId_eq_none (h : Registering aggregator) {c : ℕ}
    (hc : c ∉ aggregator.server.accepted) : (aggregator.connections c).threadId = none := by
  cases hthread : (aggregator.connections c).threadId with
  | none => rfl
  | some id => exact absurd (h.threads c id hthread).1 hc

theorem Registering.accept (h : Registering aggregator) {server : SocketServer} {nextClientId c : ℕ}
    (haccept : aggregator.server.accept nextClientId c = some server) :
    Registering { aggregator with server := server } := by
  obtain ⟨-, hfresh, rfl⟩ := SocketServer.accept_eq_some haccept
  refine ⟨h.stopped, fun other hother => List.mem_cons_of_mem _ (h.inserted other hother),
    fun other hother => ?_, (fun _ _ hcalling => by cases hcalling), fun other id hid => ?_⟩
  · cases hother
    exact ⟨List.mem_cons_self, h.threadId_eq_none hfresh, by simp [HandlerStage.offered]⟩
  · obtain ⟨haccepted, hclientId, hinserted⟩ := h.threads other id hid
    have hne : other ≠ c := fun heq => hfresh (heq ▸ haccepted)
    exact ⟨List.mem_cons_of_mem _ haccepted, (Function.update_of_ne hne _ _).trans hclientId,
      hinserted⟩

theorem Registering.test (h : Registering aggregator) {c id : ℕ}
    (hhandler : aggregator.server.handler = .testing c id) :
    Registering { aggregator with server := { aggregator.server with
      handler := if aggregator.server.stopRegistering = true then .calling c id
        else .inserting c id } } := by
  have hc := h.handler c (by rw [hhandler]; rfl)
  rw [hhandler] at hc
  refine ⟨h.stopped, h.inserted, fun other hother => ?_, fun other id' hcalling hleft => ?_,
    h.threads⟩
  · dsimp only at hother ⊢
    split at hother <;> cases hother <;> simp_all [HandlerStage.offered]
  · dsimp only at hcalling
    split at hcalling
    · rename_i hstop
      exact absurd (h.stopped hstop) hleft
    · cases hcalling

theorem Registering.insert (h : Registering aggregator) {c id : ℕ}
    (hhandler : aggregator.server.handler = .inserting c id) :
    Registering { aggregator with
      server := { aggregator.server.insertClient c id with handler := .calling c id } } := by
  have hc := h.handler c (by rw [hhandler]; rfl)
  rw [hhandler] at hc
  refine ⟨h.stopped, fun other hother => ?_, fun other hother => ?_, fun other id' hcalling _ => ?_,
    fun other id' hid => ?_⟩
  · rcases List.mem_cons.mp hother with rfl | hother
    · exact hc.1
    · exact h.inserted other hother
  · cases hother
    exact hc
  · cases hcalling
    exact List.mem_cons_self
  · obtain ⟨haccepted, hclientId, hinserted⟩ := h.threads other id' hid
    exact ⟨haccepted, hclientId, fun hleft => List.mem_cons_of_mem _ (hinserted hleft)⟩

theorem Registering.call (h : Registering aggregator) {c id : ℕ}
    (hhandler : aggregator.server.handler = .calling c id) :
    Registering (onClientRegistered setting
      { aggregator with server := { aggregator.server with handler := .counting c } } c id) := by
  have hc := h.handler c (by rw [hhandler]; rfl)
  rw [hhandler] at hc
  refine ⟨h.stopped, h.inserted, (fun _ hother => by cases hother),
    (fun _ _ hcalling => by cases hcalling), fun other id' hid => ?_⟩
  rw [threadId_onClientRegistered] at hid
  split at hid
  · rename_i heq
    subst heq
    cases hid
    exact ⟨hc.1, (Option.some.inj hc.2.2).symm, h.calling other id hhandler⟩
  · exact h.threads other id' hid

theorem Registering.leave (h : Registering aggregator) {handler : HandlerStage}
    (hhandler : handler.unanswered = none) :
    Registering { aggregator with server := { aggregator.server with handler := handler } } := by
  refine ⟨h.stopped, h.inserted, fun other hother => ?_, fun other id hcalling => ?_, h.threads⟩
  · rw [Option.mem_def, hhandler] at hother
    cases hother
  · dsimp only at hcalling
    rw [hcalling] at hhandler
    cases hhandler

theorem Registering.connection (h : Registering aggregator) {c : ℕ} {connection : Connection}
    (hthread : connection.threadId = (aggregator.connections c).threadId)
    (datasets : List (ℕ × DatasetStruct)) :
    Registering { aggregator with
      connections := Function.update aggregator.connections c connection, datasets := datasets } := by
  have hsame : ∀ other, (Function.update aggregator.connections c connection other).threadId =
      (aggregator.connections other).threadId := by
    intro other
    by_cases heq : other = c
    · rw [heq, Function.update_self, hthread]
    · rw [Function.update_of_ne heq]
  refine ⟨h.stopped, h.inserted, fun other hother => ?_, h.calling, fun other id hid => ?_⟩
  · dsimp only
    rw [hsame]
    exact h.handler other hother
  · dsimp only at hid
    rw [hsame] at hid
    exact h.threads other id hid

theorem Registering.run (h : Registering aggregator) (hrun : aggregator.run setting = some next) :
    Registering next := by
  obtain ⟨hrunning, hconnections, haccepted, hinserted, hhandler, hclientIds, hstopped, -⟩ :=
    run_frame hrun
  refine ⟨fun hstop => ?_, ?_, ?_, fun c id hcalling _ => ?_, fun c id hid => ?_⟩
  · rcases hstopped hstop with hstop | hleft
    · exact absurd (h.stopped hstop) hrunning
    · exact hleft
  · rw [hinserted, haccepted]
    exact h.inserted
  · rw [hhandler, haccepted, hconnections, hclientIds]
    exact h.handler
  · rw [hinserted]
    exact h.calling c id (hhandler ▸ hcalling) hrunning
  · rw [hconnections] at hid
    obtain ⟨hmem, hclientId, hin⟩ := h.threads c id hid
    rw [haccepted, hclientIds, hinserted]
    exact ⟨hmem, hclientId, fun _ => hin hrunning⟩

/-! ## Delivery -/

theorem Delivered.call (h : Delivered aggregator) {c : ℕ}
    (hc : (aggregator.connections c).threadId = none) (clientId : ℕ) (server : SocketServer) :
    Delivered (onClientRegistered setting { aggregator with server := server } c clientId) := by
  intro other
  by_cases heq : other = c
  · subst heq
    have hnone : (aggregator.connections other).thread = none := Option.map_eq_none_iff.mp hc
    have hconsumed : (aggregator.connections other).consumed = [] := by
      rw [Connection.consumed, hnone]
    obtain ⟨hdelivered, hitems, -, hbytes⟩ := h other
    simp only [onClientRegistered, Function.update_self]
    refine ⟨hdelivered, hitems, fun thread hthread => ?_, ?_⟩
    · cases hthread
      exact Reader.fits_start (length_word 4 _) (length_word 4 _)
    · rw [hconsumed] at hbytes
      exact hbytes
  · simp only [onClientRegistered, Function.update_of_ne heq]
    exact h other

theorem Delivered.connection (h : Delivered aggregator) {c : ℕ} {action : ConnectionAction}
    {connection : Connection} {dataset : Option DatasetStruct}
    (hact : (aggregator.connections c).act setting.files setting.moved action =
      some (connection, dataset))
    (hintact : (aggregator.connections c).Intact setting.files action) :
    Delivered { aggregator with
      connections := Function.update aggregator.connections c connection
      datasets := aggregator.datasets ++ dataset.toList.map fun dataset => (c, dataset) } := by
  intro other
  have happend : itemsFrom (aggregator.pulled ++
      (aggregator.datasets ++ dataset.toList.map fun dataset => (c, dataset))) other =
      itemsFrom (aggregator.pulled ++ aggregator.datasets) other ++
        if c = other then dataset.toList.map entryItem else [] := by
    rw [← List.append_assoc, itemsFrom_append]
    congr 1
    cases dataset <;> by_cases heq : c = other <;> simp [itemsFrom, heq]
  dsimp only
  rw [happend]
  by_cases heq : c = other
  · subst heq
    rw [if_pos rfl, Function.update_self]
    exact (h c).act hact hintact
  · rw [if_neg heq, List.append_nil, Function.update_of_ne (Ne.symm heq)]
    exact h other

theorem Delivered.run (h : Delivered aggregator) (hrun : aggregator.run setting = some next) :
    Delivered next := by
  obtain ⟨-, hconnections, -, -, -, -, -, hentries⟩ := run_frame hrun
  intro c
  rw [hconnections, hentries]
  exact h c

/-- What was pulled from a client is the front of what it has pushed. -/
theorem Delivered.pulled_prefix (h : Delivered aggregator) (c : ℕ) :
    itemsFrom aggregator.pulled c <+: (aggregator.connections c).items := by
  refine List.IsPrefix.trans ?_ (h c).isFront
  rw [itemsFrom_append]
  exact List.prefix_append _ _

/-! ## The map -/

theorem Holding.accept (h : Holding aggregator) (hregistering : Registering aggregator)
    {server : SocketServer} {nextClientId c : ℕ}
    (haccept : aggregator.server.accept nextClientId c = some server) :
    Holding { aggregator with server := server } := by
  obtain ⟨-, hfresh, rfl⟩ := SocketServer.accept_eq_some haccept
  refine ⟨h.entries, fun other hother => ?_, h.erasing, h.checking⟩
  have hne : other ≠ c := fun heq => hfresh (heq ▸ hregistering.inserted other hother)
  dsimp only
  rw [Function.update_of_ne hne]
  exact h.held other hother

theorem Holding.handler (h : Holding aggregator) (handler : HandlerStage) :
    Holding { aggregator with server := { aggregator.server with handler := handler } } :=
  ⟨h.entries, h.held, h.erasing, h.checking⟩

theorem Holding.insert (h : Holding aggregator) (hregistering : Registering aggregator) {c id : ℕ}
    (hhandler : aggregator.server.handler = .inserting c id)
    (hnew : ¬aggregator.server.Overwrites) :
    Holding { aggregator with
      server := { aggregator.server.insertClient c id with handler := .calling c id } } := by
  have hnew : id ∉ aggregator.server.clientSockets := fun hmem =>
    hnew ⟨id, by rw [hhandler]; rfl, hmem⟩
  have hclientId : aggregator.server.clientIds c = id := by
    have hoffered := (hregistering.handler c (by rw [hhandler]; rfl)).2.2
    rw [hhandler] at hoffered
    exact (Option.some.inj hoffered).symm
  have hkeep : ∀ (key other : ℕ), aggregator.server.clientSockets[key]? = some other →
      (aggregator.server.insertClient c id).clientSockets[key]? = some other := by
    intro key other hkey
    rw [SocketServer.getElem?_insertClient, if_neg, hkey]
    rintro rfl
    exact hnew (mem_of_getElem? hkey)
  refine ⟨h.entries, fun other hother => ?_, fun key hstage => ?_, h.checking⟩
  · rcases List.mem_cons.mp hother with rfl | hother
    · refine .inl ?_
      have hself := aggregator.server.getElem?_insertClient other id id
      rw [if_pos rfl] at hself
      exact hclientId.symm ▸ hself
    · exact (h.held other hother).imp_left (hkeep _ _)
  · obtain ⟨other, hkey, hend⟩ := h.erasing key hstage
    exact ⟨other, hkeep _ _ hkey, hend⟩

theorem Holding.call (h : Holding aggregator) {c : ℕ}
    (hc : (aggregator.connections c).threadId = none) (id : ℕ) (handler : HandlerStage) :
    Holding (onClientRegistered setting
      { aggregator with server := { aggregator.server with handler := handler } } c id) := by
  refine ⟨fun entry hentry => ?_, h.held, h.erasing, h.checking⟩
  have hthread := h.entries entry hentry
  rw [threadId_onClientRegistered, if_neg]
  · exact hthread
  · intro heq
    rw [heq, hc] at hthread
    cases hthread

theorem Holding.connection (h : Holding aggregator) {c : ℕ} {connection : Connection}
    {dataset : Option DatasetStruct}
    (hthread : connection.threadId = (aggregator.connections c).threadId)
    (hdataset : ∀ d ∈ dataset, (aggregator.connections c).threadId = some d.clientId) :
    Holding { aggregator with
      connections := Function.update aggregator.connections c connection
      datasets := aggregator.datasets ++ dataset.toList.map fun dataset => (c, dataset) } := by
  refine ⟨fun entry hentry => ?_, h.held, h.erasing, h.checking⟩
  have hsame : (Function.update aggregator.connections c connection entry.1).threadId =
      (aggregator.connections entry.1).threadId := by
    by_cases heq : entry.1 = c
    · rw [heq, Function.update_self, hthread]
    · rw [Function.update_of_ne heq]
  dsimp only at hentry ⊢
  rw [hsame]
  rw [← List.append_assoc] at hentry
  rcases List.mem_append.mp hentry with hentry | hentry
  · exact h.entries entry hentry
  · obtain ⟨d, hd, rfl⟩ := List.mem_map.mp hentry
    exact hdataset d (Option.mem_toList.mp hd)

/-- A client of which an entry is in the queue is in the map: it was inserted, and no end of it was
pulled before. -/
theorem Holding.held_of_queue (h : Holding aggregator) (hregistering : Registering aggregator)
    (hdelivered : Delivered aggregator) {c : ℕ} {dataset : DatasetStruct}
    {rest : List (ℕ × DatasetStruct)} (hqueue : aggregator.datasets = (c, dataset) :: rest)
    (hrunning : aggregator.stage ≠ .left) :
    aggregator.server.clientSockets[dataset.clientId]? = some c := by
  have hentry : (c, dataset) ∈ aggregator.pulled ++ aggregator.datasets := by simp [hqueue]
  obtain ⟨-, hclientId, hinserted⟩ :=
    hregistering.threads c dataset.clientId (h.entries (c, dataset) hentry)
  rcases h.held c (hinserted hrunning) with hheld | hpulled
  · rwa [hclientId] at hheld
  · -- nothing follows an end that was pulled
    obtain ⟨heq, -⟩ := Connection.eq_items_of_endSignal_mem (hdelivered.pulled_prefix c) hpulled
    have hfront := (hdelivered c).isFront
    rw [itemsFrom_append, heq] at hfront
    have hlength := hfront.length_le
    simp [hqueue, itemsFrom] at hlength

theorem Holding.run (h : Holding aggregator) (hregistering : Registering aggregator)
    (hdelivered : Delivered aggregator) (hrun : aggregator.run setting = some next) :
    Holding next := by
  have hframe := run_frame hrun
  have hentries : ∀ entry ∈ next.pulled ++ next.datasets,
      (next.connections entry.1).threadId = some entry.2.clientId := by
    rw [hframe.entries, hframe.connections]
    exact h.entries
  unfold SocketAggregator.run at hrun
  cases hstage : aggregator.stage with
  | pulling =>
      simp only [hstage] at hrun
      split at hrun
      · cases hrun
      · cases hrun
        exact ⟨hentries, h.held, (fun _ h => by cases h), (fun h => by cases h)⟩
  | popping =>
      simp only [hstage] at hrun
      split at hrun
      · cases hrun
      · rename_i c dataset rest hqueue
        cases hrun
        have hmore : ∀ other, .endSignal ∈ itemsFrom aggregator.pulled other →
            .endSignal ∈ itemsFrom (aggregator.pulled ++ [(c, dataset)]) other := by
          intro other hmem
          rw [itemsFrom_append]
          exact List.mem_append_left _ hmem
        refine ⟨hentries, fun other hother => (h.held other hother).imp_right (hmore other),
          fun id herasing => ?_, fun hchecking => ?_⟩
        · dsimp only at herasing
          split at herasing
          · rename_i hend
            cases herasing
            refine ⟨c, h.held_of_queue hregistering hdelivered hqueue hframe.running, ?_⟩
            simp [itemsFrom, entryItem, hend]
          · cases herasing
        · dsimp only at hchecking
          split at hchecking <;> cases hchecking
  | erasing clientId =>
      -- the client whose end was pulled leaves the map, and no other
      simp only [hstage] at hrun
      cases hrun
      obtain ⟨c, hc, hend⟩ := h.erasing clientId hstage
      refine ⟨hentries, fun other hother => ?_, (fun _ h => by cases h), fun _ => ⟨c, hend⟩⟩
      rcases h.held other hother with hheld | hpulled
      · by_cases heq : clientId = aggregator.server.clientIds other
        · rw [heq, hheld] at hc
          cases hc
          exact .inr hend
        · refine .inl ?_
          have hkeep := aggregator.server.getElem?_eraseClient clientId
            (aggregator.server.clientIds other)
          rw [if_neg heq, hheld] at hkeep
          exact hkeep
      · exact .inr hpulled
  | checking =>
      simp only [hstage] at hrun
      cases hrun
      refine ⟨hentries, h.held, fun id herasing => ?_, fun hchecking => ?_⟩
      · dsimp only at herasing
        split at herasing <;> cases herasing
      · dsimp only at hchecking
        split at hchecking <;> cases hchecking
  | stopping =>
      simp only [hstage] at hrun
      cases hrun
      exact ⟨hentries, h.held, (fun _ h => by cases h), (fun h => by cases h)⟩
  | adding dataset =>
      simp only [hstage] at hrun
      cases hrun
      exact ⟨hentries, h.held, (fun _ h => by cases h), (fun h => by cases h)⟩
  | left =>
      simp only [hstage] at hrun
      cases hrun

end Step

/-! ## The output data -/

variable (setting) in
/-- Every dataset that was pulled is added to the data, but for the one that `Run` is adding. -/
def Added (aggregator : SocketAggregator) : Prop :=
  aggregator.output ++
      aggregator.stage.pending.map (fun dataset => outputDataset setting dataset.id dataset.buffer) =
    (datasetsOf aggregator.pulled).map fun entry => outputDataset setting entry.2.1 entry.2.2

theorem Added.run {aggregator next : SocketAggregator} (h : Added setting aggregator)
    (hrun : aggregator.run setting = some next) : Added setting next := by
  unfold Added at h ⊢
  unfold SocketAggregator.run at hrun
  cases hstage : aggregator.stage with
  | pulling =>
      simp only [hstage] at hrun h
      split at hrun
      · cases hrun
      · cases hrun
        exact h
  | popping =>
      simp only [hstage] at hrun h
      split at hrun
      · cases hrun
      · rename_i c dataset rest hqueue
        cases hrun
        by_cases hend : dataset.id = endId
        · simpa [datasetsOf, hend, PullStage.pending] using h
        · simpa [datasetsOf, hend, PullStage.pending] using h
  | erasing clientId =>
      simp only [hstage] at hrun h
      cases hrun
      exact h
  | checking =>
      simp only [hstage] at hrun h
      cases hrun
      dsimp only
      split <;> exact h
  | stopping =>
      simp only [hstage] at hrun h
      cases hrun
      exact h
  | adding dataset =>
      simp only [hstage] at hrun h
      cases hrun
      simpa [PullStage.pending] using h
  | left =>
      simp only [hstage] at hrun
      cases hrun

/-! ## Runs -/

variable (setting) in
/-- No insertion replaces a client of the map, the datasets that are pushed fit the length field,
and header fields are received whole. -/
def Intact (s : ℕ × SocketAggregator) : Action → Prop
  | .handle => ¬s.2.server.Overwrites
  | .connection c action => (s.2.connections c).Intact setting.files action
  | _ => True

instance (s : ℕ × SocketAggregator) (a : Action) : Decidable (Intact setting s a) :=
  match a with
  | .handle => inferInstanceAs (Decidable (¬s.2.server.Overwrites))
  | .connection c action =>
      inferInstanceAs (Decidable ((s.2.connections c).Intact setting.files action))
  | .otherServer => instDecidableTrue
  | .accept _ => instDecidableTrue
  | .run => instDecidableTrue

variable (setting) in
structure Sound (aggregator : SocketAggregator) : Prop where
  registering : Registering aggregator
  delivered : Delivered aggregator
  holding : Holding aggregator
  added : Added setting aggregator

theorem sound_initial : Sound setting initial.2 where
  registering :=
    { stopped := fun h => by cases h
      inserted := fun _ h => by cases h
      handler := fun _ h => by cases h
      calling := fun _ _ h => by cases h
      threads := fun _ _ h => by cases h }
  delivered := fun _ => ⟨nofun, nofun, nofun, rfl⟩
  holding :=
    { entries := fun _ h => by cases h
      held := fun _ h => by cases h
      erasing := fun _ h => by cases h
      checking := fun h => by cases h }
  added := rfl

/-- **One step.** -/
theorem Sound.step {s t : ℕ × SocketAggregator} {a : Action} (h : Sound setting s.2)
    (hintact : Intact setting s a) (hstep : step setting s a = some t) : Sound setting t.2 := by
  obtain ⟨hregistering, hdelivered, hholding, hadded⟩ := h
  cases a with
  | otherServer =>
      cases hstep
      exact ⟨hregistering, hdelivered, hholding, hadded⟩
  | accept c =>
      obtain ⟨server, haccept, rfl⟩ := Option.map_eq_some_iff.mp hstep
      exact ⟨hregistering.accept haccept, hdelivered, hholding.accept hregistering haccept, hadded⟩
  | handle =>
      obtain ⟨⟨server, effect⟩, hhandle, rfl⟩ := Option.map_eq_some_iff.mp hstep
      rcases SocketServer.handle_cases hhandle with ⟨c, id, hhandler, rfl, rfl⟩ |
        ⟨c, id, hhandler, rfl, rfl⟩ | ⟨c, id, hhandler, heffect, rfl⟩ | ⟨c, hhandler, rfl, rfl⟩
      · exact ⟨hregistering.test hhandler, hdelivered, hholding.handler _, hadded⟩
      · exact ⟨hregistering.insert hhandler, hdelivered,
          hholding.insert hregistering hhandler hintact, hadded⟩
      · split at heffect
        · subst heffect
          have hthread := (hregistering.handler c (by rw [hhandler]; rfl)).2.1
          exact ⟨hregistering.call hhandler, hdelivered.call hthread id _,
            hholding.call hthread id _, hadded⟩
        · subst heffect
          exact ⟨hregistering.leave rfl, hdelivered, hholding.handler _, hadded⟩
      · exact ⟨hregistering.leave rfl, hdelivered, hholding.handler _, hadded⟩
  | connection c action =>
      obtain ⟨connection, dataset, hact, rfl⟩ := step_connection hstep
      obtain ⟨hthread, hdataset⟩ := Connection.act_threadId hact
      exact ⟨hregistering.connection hthread _, hdelivered.connection hact hintact,
        hholding.connection hthread hdataset, hadded⟩
  | run =>
      obtain ⟨next, hrun, rfl⟩ := Option.map_eq_some_iff.mp hstep
      exact ⟨hregistering.run hrun, hdelivered.run hrun, hholding.run hregistering hdelivered hrun,
        hadded.run hrun⟩

theorem reachable_sound {s : ℕ × SocketAggregator}
    (h : Reachable (restrict (Intact setting) (step setting)) initial s) : Sound setting s.2 :=
  h.invariant (P := fun s => Sound setting s.2) sound_initial fun _ _ _ _ hsound hstep =>
    hsound.step (restrict_eq_some.mp hstep).1 (restrict_eq_some.mp hstep).2

theorem Sound.pulled_prefix {aggregator : SocketAggregator} (h : Sound setting aggregator) (c : ℕ) :
    aggregator.pulledFrom c <+: (aggregator.connections c).pushed := by
  rw [pulledFrom_eq, ← Connection.filterMap_items]
  exact (h.delivered.pulled_prefix c).filterMap _

/-- When the map is empty, everything is pulled that a client has pushed that was inserted. -/
theorem Sound.pulled_all {aggregator : SocketAggregator} (h : Sound setting aggregator)
    (hempty : aggregator.server.clientSockets.isEmpty = true) {c : ℕ}
    (hc : c ∈ aggregator.server.inserted) :
    (aggregator.connections c).ended = true ∧
      aggregator.pulledFrom c = (aggregator.connections c).pushed := by
  rcases h.holding.held c hc with hheld | hend
  · rw [getElem?_of_isEmpty hempty] at hheld
    cases hheld
  · obtain ⟨hitems, hended⟩ :=
      Connection.eq_items_of_endSignal_mem (h.delivered.pulled_prefix c) hend
    exact ⟨hended, by rw [pulledFrom_eq, hitems, Connection.filterMap_items]⟩

/-- The last steps of `Run`: the one of `HandleEndSignal` that finds the map empty, and the one that
leaves the loop. -/
theorem run_last {aggregator next : SocketAggregator} (hrun : aggregator.run setting = some next) :
    (next.stage = .stopping →
      aggregator.stage = .checking ∧ aggregator.server.clientSockets.isEmpty = true) ∧
      (next.stage = .left → aggregator.stage = .stopping ∧ next.output = aggregator.output) := by
  unfold SocketAggregator.run at hrun
  split at hrun
  · split at hrun <;> cases hrun
    constructor <;> intro h <;> cases h
  · split at hrun <;> cases hrun
    dsimp only
    split <;> constructor <;> intro h <;> cases h
  · cases hrun
    constructor <;> intro h <;> cases h
  · rename_i hchecking
    cases hrun
    dsimp only
    split
    · rename_i hempty
      refine ⟨fun _ => ⟨hchecking, hempty⟩, fun h => ?_⟩
      cases h
    · constructor <;> intro h <;> cases h
  · rename_i hstopping
    cases hrun
    refine ⟨fun h => ?_, fun _ => ⟨hstopping, rfl⟩⟩
    cases h
  · cases hrun
    constructor <;> intro h <;> cases h
  · cases hrun

/-- The steps of `Run` from the check on add nothing to the data. -/
theorem run_output {aggregator next : SocketAggregator} (hrun : aggregator.run setting = some next)
    (hstage : next.stage = .stopping ∨ next.stage = .left) :
    next.output = aggregator.output ∧
      (aggregator.stage = .checking ∧ aggregator.server.clientSockets.isEmpty = true ∨
        aggregator.stage = .stopping) := by
  rcases hstage with hstage | hstage
  · obtain ⟨hchecking, hempty⟩ := (run_last hrun).1 hstage
    rw [SocketAggregator.run, hchecking] at hrun
    cases hrun
    exact ⟨rfl, .inl ⟨hchecking, hempty⟩⟩
  · obtain ⟨hstopping, houtput⟩ := (run_last hrun).2 hstage
    exact ⟨houtput, .inr hstopping⟩

/-! ## Frames -/

/-- The client that calls `PushDataset` or `PushEndSignal`. -/
def Action.pusher : Action → Option ℕ
  | .connection c (.push _ _) => some c
  | .connection c .pushEnd => some c
  | _ => none

/-- The other clients push nothing. -/
theorem step_pushed {s t : ℕ × SocketAggregator} {a : Action} (hstep : step setting s a = some t)
    {c : ℕ} (hc : a.pusher ≠ some c) :
    (t.2.connections c).pushed = (s.2.connections c).pushed ∧
      (t.2.connections c).ended = (s.2.connections c).ended := by
  cases a with
  | otherServer =>
      cases hstep
      exact ⟨rfl, rfl⟩
  | accept client =>
      obtain ⟨server, -, rfl⟩ := Option.map_eq_some_iff.mp hstep
      exact ⟨rfl, rfl⟩
  | handle =>
      obtain ⟨⟨server, effect⟩, -, rfl⟩ := Option.map_eq_some_iff.mp hstep
      cases effect with
      | called client id =>
          by_cases heq : c = client
          · subst heq
            simp [onClientRegistered]
          · simp [onClientRegistered, Function.update_of_ne heq]
      | silent => exact ⟨rfl, rfl⟩
      | counted => exact ⟨rfl, rfl⟩
  | run =>
      obtain ⟨next, hrun, rfl⟩ := Option.map_eq_some_iff.mp hstep
      dsimp only
      rw [(run_frame hrun).connections]
      exact ⟨rfl, rfl⟩
  | connection client action =>
      obtain ⟨connection, dataset, hact, rfl⟩ := step_connection hstep
      dsimp only
      by_cases heq : c = client
      · subst heq
        rw [Function.update_self]
        cases action with
        | push id pushed => exact absurd rfl hc
        | pushEnd => exact absurd rfl hc
        | send => exact Connection.act_send hact
        | sendPart count => exact Connection.act_sendPart hact
        | receive cut => exact Connection.act_receive hact
        | enqueue => exact Connection.act_enqueue hact
      · rw [Function.update_of_ne heq]
        exact ⟨rfl, rfl⟩

/-- Only `Run` moves on in its loop and adds to the data. -/
theorem step_stage {s t : ℕ × SocketAggregator} {a : Action} (hstep : step setting s a = some t)
    (hrun : a ≠ .run) : t.2.stage = s.2.stage ∧ t.2.output = s.2.output := by
  cases a with
  | otherServer =>
      cases hstep
      exact ⟨rfl, rfl⟩
  | accept client =>
      obtain ⟨server, -, rfl⟩ := Option.map_eq_some_iff.mp hstep
      exact ⟨rfl, rfl⟩
  | handle =>
      obtain ⟨⟨server, effect⟩, -, rfl⟩ := Option.map_eq_some_iff.mp hstep
      cases effect <;> exact ⟨rfl, rfl⟩
  | run => exact absurd rfl hrun
  | connection client action =>
      obtain ⟨connection, dataset, -, rfl⟩ := step_connection hstep
      exact ⟨rfl, rfl⟩

/-- **Draining.**  `PullDataset` returns the datasets of each client in the order in which the
client has pushed them, and when `HandleEndSignal` finds the map empty, which makes it throw,
everything that was pushed by a client that was inserted until then has been pulled and added to
the data. -/
theorem drained_when_thrown {s : ℕ × SocketAggregator}
    (h : Reachable (restrict (Intact setting) (step setting)) initial s) :
    (∀ c, s.2.pulledFrom c <+: (s.2.connections c).pushed) ∧
      ∀ t, step setting s .run = some t → t.2.stage = .stopping →
        (∀ c ∈ s.2.server.inserted, (s.2.connections c).ended = true ∧
          s.2.pulledFrom c = (s.2.connections c).pushed) ∧
        s.2.output = (datasetsOf s.2.pulled).map fun entry =>
          outputDataset setting entry.2.1 entry.2.2 := by
  have hsound := reachable_sound h
  refine ⟨hsound.pulled_prefix, fun t hstep hstopping => ?_⟩
  obtain ⟨next, hrun, rfl⟩ := Option.map_eq_some_iff.mp hstep
  obtain ⟨hchecking, hempty⟩ := (run_last hrun).1 hstopping
  refine ⟨fun c hc => hsound.pulled_all hempty hc, ?_⟩
  have hadded := hsound.added
  rw [Added, hchecking] at hadded
  simpa [PullStage.pending] using hadded

/-! ## Clients that are lost and datasets that are cut -/

/-- Buffers in memory, an empty string after a move, and 0 in a new integer. -/
def inMemory : AggregatorSetting := ⟨[], fun _ => none, fun _ => [], 0⟩

/-- The handler of the next client. -/
def registration (c : ℕ) : List Action := [.accept c, .handle, .handle, .handle, .handle]

/-- Client `c` pushes a buffer of at least one byte, and the thread receives it in whole calls. -/
def pushing (c id : ℕ) (buffer : Bytes) : List Action :=
  [.push id { buffer := buffer }, .send, .send, .send, .receive 4, .receive 4,
    .receive buffer.length, .enqueue].map (.connection c)

/-- Client `c` ends, and its end is pulled up to the check. -/
def ending (c : ℕ) : List Action :=
  [.pushEnd, .send, .receive 4, .enqueue].map (.connection c) ++ [.run, .run, .run]

/-- Two clients; the second one ends first. -/
theorem drained_when_thrown_two_clients :
    ∃ s t, Reachable (restrict (Intact inMemory) (step inMemory)) initial s ∧
      step inMemory s .run = some t ∧ t.2.stage = .stopping ∧ s.2.server.inserted = [1, 0] ∧
      (s.2.connections 0).pushed = [(7, [9])] ∧
      (∀ c, s.2.pulledFrom c <+: (s.2.connections c).pushed) ∧
      (∀ c ∈ s.2.server.inserted, (s.2.connections c).ended = true ∧
        s.2.pulledFrom c = (s.2.connections c).pushed) ∧
      s.2.output = (datasetsOf s.2.pulled).map fun entry =>
        outputDataset inMemory entry.2.1 entry.2.2 := by
  obtain ⟨s, hreach, hend⟩ := Reachable.exists_of_run
    (show (Transition.run (restrict (Intact inMemory) (step inMemory)) initial
        (registration 0 ++ registration 1 ++ pushing 0 7 [9] ++ ending 1 ++
          [.run, .run, .run, .run] ++ ending 0)).any (fun s => decide (
            (step inMemory s .run).any (fun t => decide (t.2.stage = .stopping)) = true ∧
            s.2.server.inserted = [1, 0] ∧ (s.2.connections 0).pushed = [(7, [9])])) = true by
      decide +kernel)
  obtain ⟨hnext, hinserted, hpushed⟩ := of_decide_eq_true hend
  obtain ⟨t, hstep, hstopping⟩ := (Option.any_eq_true _ _).mp hnext
  have hstopping := of_decide_eq_true hstopping
  obtain ⟨hfront, hthrown⟩ := drained_when_thrown hreach
  obtain ⟨hall, houtput⟩ := hthrown t hstep hstopping
  exact ⟨s, t, hreach, hstep, hstopping, hinserted, hpushed, hfront, hall, houtput⟩

/-- The thread of a client that has received nothing. -/
def newThread (clientId : ℕ) : ClientThread :=
  { clientId := clientId, reader := ⟨.id, ⟨word 4 0, word 4 endId, []⟩⟩ }

/-- The server with client 0 under the id 1, and what is in its queue. -/
def oneClient (connection : Connection) (datasets : List (ℕ × DatasetStruct)) :
    SocketAggregator where
  server :=
    { clientSockets := (∅ : Std.TreeMap ℕ ℕ).insert 1 0
      callback := true
      accepted := [0]
      clientIds := Function.update (fun _ => 0) 0 1
      inserted := [0] }
  connections := Function.update (fun _ => {}) 0 connection
  datasets := datasets

theorem run_registration :
    Transition.run (step inMemory) initial (registration 0) =
      some (2, oneClient { thread := some (newThread 1) } []) := rfl

/-- A step of client 0 or of its thread. -/
theorem step_oneClient {connection connection' : Connection} {action : ConnectionAction}
    {dataset : Option DatasetStruct} (datasets : List (ℕ × DatasetStruct))
    (hact : connection.act inMemory.files inMemory.moved action = some (connection', dataset)) :
    step inMemory (2, oneClient connection datasets) (.connection 0 action) =
      some (2, oneClient connection'
          (datasets ++ dataset.toList.map fun dataset => (0, dataset))) := by
  simp [step, oneClient, hact]

/-- Client 0 is registered as 1 and has pushed a dataset, which is on its way; after 2 ^ 32
registrations in the process client 1 is registered as 1, and its end empties the map. -/
theorem client_lost :
    ∃ s t, Reachable (step inMemory) initial s ∧ step inMemory s .run = some t ∧
      t.2.stage = .stopping ∧ 0 ∈ s.2.server.inserted ∧
      (s.2.connections 0).pushed = [(7, [9])] ∧ s.2.output = [] := by
  have hpush := step_oneClient [] (show Connection.act inMemory.files inMemory.moved
      { thread := some (newThread 1) } (.push 7 { buffer := [9] }) = some ({
        pushed := [(7, [9])]
        sending := [word 4 7, word 4 1, [9]]
        thread := some (newThread 1) }, none) from rfl)
  have hothers : Transition.run (step inMemory) (2, oneClient {
        pushed := [(7, [9])]
        sending := [word 4 7, word 4 1, [9]]
        thread := some (newThread 1) } []) (List.replicate (2 ^ 32 - 1) .otherServer) =
      some (1, _) :=
    run_countRegistration (fun _ _ => rfl) _ (2 ^ 32 - 1) 2 (by decide)
  obtain ⟨s, hreach, hend⟩ := Reachable.exists_of_run
    (show (Transition.run (step inMemory) (1, oneClient {
          pushed := [(7, [9])]
          sending := [word 4 7, word 4 1, [9]]
          thread := some (newThread 1) } [])
        (registration 1 ++ ending 1)).any (fun s => decide (
            (step inMemory s .run).any (fun t => decide (t.2.stage = .stopping)) = true ∧
            0 ∈ s.2.server.inserted ∧ (s.2.connections 0).pushed = [(7, [9])] ∧
            s.2.output = [])) = true by decide +kernel)
  obtain ⟨hnext, hinserted, hpushed, houtput⟩ := of_decide_eq_true hend
  obtain ⟨t, hstep, hstopping⟩ := (Option.any_eq_true _ _).mp hnext
  exact ⟨s, t, ((Reachable.of_run run_registration).step _ hpush).trans
    ((Reachable.of_run hothers).trans hreach), hstep, of_decide_eq_true hstopping, hinserted, hpushed,
    houtput⟩

/-- The second length of a client is received in two calls: its lowest byte makes up a length with
what the first one has left, and the rest of it is taken for the payload. -/
theorem header_cut :
    ∃ s, Reachable (step inMemory) initial s ∧
      (s.2.connections 0).pushed = [(7, [5, 5]), (8, [9])] ∧
      s.2.pulledFrom 0 = [(7, [5, 5]), (8, [0])] := by
  obtain ⟨s, hreach, hend⟩ := Reachable.exists_of_run
    (show (Transition.run (step inMemory) initial
        (registration 0 ++ pushing 0 7 [5, 5] ++
          [.push 8 { buffer := [9] }, .send, .send, .send, .receive 4, .receive 1, .receive 1,
            .enqueue].map (.connection 0) ++ [.run, .run, .run, .run, .run])).any
        (fun s => decide ((s.2.connections 0).pushed = [(7, [5, 5]), (8, [9])] ∧
          s.2.pulledFrom 0 = [(7, [5, 5]), (8, [0])])) = true by decide +kernel)
  exact ⟨s, hreach, of_decide_eq_true hend⟩

/-- The length of a dataset of 2 ^ 32 bytes is sent as 0. -/
theorem push_long {buffer : Bytes} (hlength : buffer.length = 2 ^ 32) (connection : Connection)
    (hsending : connection.sending = []) (hended : connection.ended = false) :
    connection.act inMemory.files inMemory.moved (.push 7 { buffer := buffer }) =
      some ({ connection with
        sending := [word 4 7, word 4 0, buffer]
        pushed := connection.pushed ++ [(7, buffer)] }, none) := by
  have hne : buffer ≠ [] := by
    rintro rfl
    cases hlength
  simp [Connection.act, Connection.push, datasetFrame, Dataset.getSize, Dataset.retrieveBuffer, hne,
    hlength, hsending, hended, bind, Except.bind, pure, Except.pure, endId]

/-- A dataset of 2 ^ 32 zeros is pulled as an empty one. -/
theorem length_cut :
    ∃ s, Reachable (step inMemory) initial s ∧
      (s.2.connections 0).pushed.map (fun push => (push.1, push.2.head?)) = [(7, some 0)] ∧
      s.2.pulledFrom 0 = [(7, [])] := by
  have hpush := step_oneClient [] (push_long (List.length_replicate (a := 0))
    { thread := some (newThread 1) } rfl rfl)
  obtain ⟨s, hreach, hend⟩ := Reachable.exists_of_run
    (show (Transition.run (step inMemory) (2, oneClient {
          pushed := [(7, List.replicate (2 ^ 32) 0)]
          sending := [word 4 7, word 4 0, List.replicate (2 ^ 32) 0]
          thread := some (newThread 1) } [])
        ([.send, .send, .receive 4, .receive 4, .enqueue].map (.connection 0) ++ [.run, .run])).any
        (fun s => decide ((s.2.connections 0).pushed.map (fun push => (push.1, push.2.head?)) =
          [(7, some 0)] ∧ s.2.pulledFrom 0 = [(7, [])])) = true by decide +kernel)
  exact ⟨s, ((Reachable.of_run run_registration).step _ hpush).trans hreach, of_decide_eq_true hend⟩

/-- Only the first byte of a payload is sent; the thread fills it up with the next header. -/
theorem payload_cut :
    ∃ s, Reachable (step inMemory) initial s ∧
      (s.2.connections 0).pushed = [(7, [5, 5]), (8, [9])] ∧ s.2.pulledFrom 0 = [(7, [5, 8])] := by
  obtain ⟨s, hreach, hend⟩ := Reachable.exists_of_run
    (show (Transition.run (step inMemory) initial
        (registration 0 ++
          [.push 7 { buffer := [5, 5] }, .send, .send, .sendPart 1, .push 8 { buffer := [9] }, .send,
            .receive 4, .receive 4, .receive 2, .enqueue].map (.connection 0) ++
          [.run, .run, .run])).any
        (fun s => decide ((s.2.connections 0).pushed = [(7, [5, 5]), (8, [9])] ∧
          s.2.pulledFrom 0 = [(7, [5, 8])])) = true by decide +kernel)
  exact ⟨s, hreach, of_decide_eq_true hend⟩

/-- A lost client, a cut header, a cut length and a cut payload. -/
theorem not_drained :
    (∃ s t, Reachable (step inMemory) initial s ∧ step inMemory s .run = some t ∧
      t.2.stage = .stopping ∧ 0 ∈ s.2.server.inserted ∧
      (s.2.connections 0).pushed = [(7, [9])] ∧ s.2.output = []) ∧
    (∃ s, Reachable (step inMemory) initial s ∧
      (s.2.connections 0).pushed = [(7, [5, 5]), (8, [9])] ∧
      s.2.pulledFrom 0 = [(7, [5, 5]), (8, [0])]) ∧
    (∃ s, Reachable (step inMemory) initial s ∧
      (s.2.connections 0).pushed.map (fun push => (push.1, push.2.head?)) = [(7, some 0)] ∧
      s.2.pulledFrom 0 = [(7, [])]) ∧
    ∃ s, Reachable (step inMemory) initial s ∧
      (s.2.connections 0).pushed = [(7, [5, 5]), (8, [9])] ∧ s.2.pulledFrom 0 = [(7, [5, 8])] :=
  ⟨client_lost, header_cut, length_cut, payload_cut⟩

end ComputeWebApp.Data.SocketAggregator
