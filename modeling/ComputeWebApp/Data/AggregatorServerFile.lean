import ComputeWebApp.Data.ExchangeFile

/-!
# The aggregator server on a file

A `DatasetAggregatorServerFile` and its clients, which may be any number of
`DatasetSupplierClientFile`, each calling what it likes.  `WriteJson` truncates the exchange file
before it writes it, and `HandleEndSignal` reads the file without the lock to see whether every
client is unregistered.

A truncated file reads as a null document, in which no client differs from no unregistered
client.  So the end of the aggregation is premature when the file is read at that moment; at any
other, the clients that are read are all that have an id, and the unregistered ones have been
passed to `UnregisterClient` (`Registered`).
-/

namespace ComputeWebApp.Data.AggregatorServerFile

open Transition LockedFile ByteStream DatasetExchangeFile

inductive Party
  | server
  | client (k : ℕ)
  deriving DecidableEq, Repr

/-- What the user of a client calls. -/
inductive Call
  | connect
  | pushDataset (datasetId : ℕ) (filename : Bytes)
  | pushEndSignal
  deriving DecidableEq, Repr

/-- `clientId` is set once the client is connected; `handedOut` are the ids that
`RegisterClient` has returned to it. -/
structure ClientState where
  clientId : Option ℕ := none
  handedOut : List ℕ := []
  deriving DecidableEq, Repr

/-- Where the loop of `DataAggregator` is: in `PullDataset`, before the last read of
`HandleEndSignal`, and after `NoMoreSupplierException`. -/
inductive Stage
  | pulling
  | checking
  | finished
  deriving DecidableEq, Repr

/-- `passed` are the ids that `UnregisterClient` was called with. -/
structure ServerState where
  stage : Stage := .pulling
  passed : List ℕ := []
  deriving DecidableEq, Repr

abbrev Local : Party → Type
  | .server => ServerState
  | .client _ => ClientState

/-- The section of a call of a client. -/
def clientSection (client : ClientState) : Call → Option (Section ClientState)
  | .connect =>
      some ((fun clientId => { clientId := some clientId, handedOut := clientId :: client.handedOut })
        <$> registerClient true)
  | .pushDataset datasetId filename =>
      if client.clientId.isSome ∧ datasetId ≠ endId then
        some ((fun _ => client) <$> DatasetExchangeFile.pushDataset true
          { id := datasetId, filename := filename })
      else none
  | .pushEndSignal =>
      client.clientId.map fun clientId =>
        (fun _ => client) <$> DatasetExchangeFile.pushDataset true { clientId := clientId }

/-- The section of a pull; `HandleEndSignal` goes on after it. -/
def serverSection (server : ServerState) : Section ServerState :=
  (fun pulled =>
    match pulled with
    | .unregistered clientId => { stage := .checking, passed := clientId :: server.passed }
    | _ => server) <$> pullAtServer true

def system : System Party Unit ExchangeContent Unit Call Local where
  enter
    | .server, _, server =>
        if server.stage = .pulling then some ((), serverSection server) else none
    | .client _, call, client => (clientSection client call).map fun program => ((), program)
  look
    | .server, server =>
        if server.stage = .checking then
          some ((), fun content =>
            { server with
              stage := if areAllClientsUnregistered content then .finished else .pulling })
        else none
    | .client _, _ => none
  act _ _ _ _ := none

/-- The server is bound. -/
def bound : AtomicState Party Unit ExchangeContent Unit Local where
  content := fun _ => some {}
  locals
    | .server => {}
    | .client _ => {}
  shared := ()

/-! ## Between the sections -/

/-- Every id that was handed out is in the document, and every unregistered one was passed to
`UnregisterClient`. -/
structure Registered (a : AtomicState Party Unit ExchangeContent Unit Local) (json : Json) :
    Prop where
  content : a.content () = some json
  handedOut : ∀ k, ∀ id ∈ (a.locals (.client k) : ClientState).handedOut, id ∈ json.clientIds
  passed : ∀ id ∈ json.unregisteredIds, id ∈ (a.locals .server : ServerState).passed

/-- What a section of a client does to the ids, and to the document. -/
theorem clientSection_exec {client client' : ClientState} {call : Call}
    {program : Section ClientState} {json : Json} {after : ExchangeContent}
    (hsection : clientSection client call = some program)
    (hexec : program.exec (some json) = some (client', after)) :
    ∃ json', after = some json' ∧ json'.unregisteredIds = json.unregisteredIds ∧
      (∀ id ∈ json.clientIds, id ∈ json'.clientIds) ∧
      ∀ id ∈ client'.handedOut, id ∈ client.handedOut ∨ id ∈ json'.clientIds := by
  cases call with
  | connect =>
      cases hsection
      simp only [Prog.exec_map, exec_registerClient, Option.map_some, Option.some.injEq,
        Prod.mk.injEq] at hexec
      obtain ⟨rfl, rfl⟩ := hexec
      refine ⟨_, rfl, rfl, fun id hid => ?_, fun id hid => ?_⟩
      · exact List.mem_append_left _ hid
      · rcases List.mem_cons.mp hid with rfl | hid
        · exact .inr (List.mem_append_right _ (List.mem_singleton.mpr rfl))
        · exact .inl hid
  | pushDataset datasetId filename =>
      simp only [clientSection] at hsection
      split at hsection
      · cases hsection
        simp only [Prog.exec_map, exec_pushDataset, Option.map_some, Option.some.injEq,
          Prod.mk.injEq] at hexec
        obtain ⟨rfl, rfl⟩ := hexec
        exact ⟨_, rfl, rfl, fun id hid => hid, fun id hid => .inl hid⟩
      · cases hsection
  | pushEndSignal =>
      obtain ⟨clientId, -, rfl⟩ := Option.map_eq_some_iff.mp hsection
      simp only [Prog.exec_map, exec_pushDataset, Option.map_some, Option.some.injEq,
        Prod.mk.injEq] at hexec
      obtain ⟨rfl, rfl⟩ := hexec
      exact ⟨_, rfl, rfl, fun id hid => hid, fun id hid => .inl hid⟩

theorem serverSection_exec {server server' : ServerState} {json : Json} {after : ExchangeContent}
    (hexec : (serverSection server).exec (some json) = some (server', after)) :
    ∃ json', after = some json' ∧ json'.clientIds = json.clientIds ∧
      (∀ id ∈ server.passed, id ∈ server'.passed) ∧
      ∀ id ∈ json'.unregisteredIds, id ∈ json.unregisteredIds ∨ id ∈ server'.passed := by
  simp only [serverSection, Prog.exec_map] at hexec
  cases hqueue : json.queue with
  | nil =>
      rw [exec_pullAtServer_nil hqueue] at hexec
      cases hexec
      exact ⟨json, rfl, rfl, fun id hid => hid, fun id hid => .inl hid⟩
  | cons first rest =>
      by_cases hid : first.id = endId
      · rw [exec_pullAtServer_end hqueue hid] at hexec
        cases hexec
        refine ⟨_, rfl, rfl, fun id hid => List.mem_cons_of_mem _ hid, fun id hid => ?_⟩
        rcases mem_setInsert.mp hid with rfl | hid
        · exact .inr List.mem_cons_self
        · exact .inl hid
      · rw [exec_pullAtServer_cons hqueue hid] at hexec
        cases hexec
        exact ⟨_, rfl, rfl, fun id hid => hid, fun id hid => .inl hid⟩

theorem Registered.step {a b : AtomicState Party Unit ExchangeContent Unit Local} {json : Json}
    {action : AtomicAction Party Call} (h : Registered a json)
    (hstep : system.atomicStep a action = some b) : ∃ json', Registered b json' := by
  cases action with
  | perform party call =>
      obtain ⟨file, program, henter, hexec, -, hothers, -⟩ := System.atomicStep_perform hstep
      cases party with
      | server =>
          simp only [system] at henter
          split at henter
          · cases henter
            rw [h.content] at hexec
            obtain ⟨json', hcontent, hclients, hpassed, hunregistered⟩ := serverSection_exec hexec
            refine ⟨json', hcontent, fun k id hid => ?_, fun id hid => ?_⟩
            · rw [hothers _ (by simp)] at hid
              rw [hclients]
              exact h.handedOut k id hid
            · -- an id joins the file when its end signal has passed
              rcases hunregistered id hid with hid | hid
              · exact hpassed id (h.passed id hid)
              · exact hid
          · cases henter
      | client k =>
          obtain ⟨program', hsection, heq⟩ := Option.map_eq_some_iff.mp henter
          cases heq
          rw [h.content] at hexec
          obtain ⟨json', hcontent, hunregistered, hclients, hhanded⟩ :=
            clientSection_exec hsection hexec
          refine ⟨json', hcontent, fun other id hid => ?_, fun id hid => ?_⟩
          · by_cases heq : other = k
            · subst heq
              rcases hhanded id hid with hid | hid
              · exact hclients id (h.handedOut _ id hid)
              · exact hid
            · rw [hothers _ (by simpa using heq)] at hid
              exact hclients id (h.handedOut other id hid)
          · rw [hothers _ (by simp)]
            rw [hunregistered] at hid
            exact h.passed id hid
  | look party =>
      obtain ⟨file, see, hlook, hlocal, hcontent, hothers, -⟩ := System.atomicStep_look hstep
      cases party with
      | server =>
          simp only [system] at hlook
          split at hlook
          · cases hlook
            refine ⟨json, by rw [hcontent, h.content], fun k id hid => ?_, fun id hid => ?_⟩
            · rw [hothers _ (by simp)] at hid
              exact h.handedOut k id hid
            · rw [hlocal]
              exact h.passed id hid
          · cases hlook
      | client k => cases hlook
  | act party call => cases (System.atomicStep_act hstep).1

/-! ## The reads and writes -/

/-- A file that has been truncated and not been written yet. -/
def Truncated (content : ExchangeContent) : Prop := content = none

instance : DecidablePred Truncated := fun content => inferInstanceAs (Decidable (content = none))

/-- Only the server reads without the lock. -/
theorem not_observed_server (file : Unit) : ¬system.Observed .server file := by
  rintro ⟨other, hother, l, see, hlook⟩
  cases other with
  | server => exact hother rfl
  | client k => cases hlook

theorem reducible : system.Reducible Truncated := by
  intro party call l file program henter content
  cases party with
  | server =>
      simp only [system] at henter
      split at henter
      · cases henter
        exact (commits_pullAtServer
          (fun _ _ hobserved => absurd hobserved (not_observed_server _)) content).map _
      · cases henter
  | client k =>
      obtain ⟨program', hsection, heq⟩ := Option.map_eq_some_iff.mp henter
      cases heq
      have hself : ∀ d, system.Visible Truncated (.client k) () d d := fun _ _ => .inl rfl
      have htorn : true = true → ∀ d, system.Visible Truncated (.client k) () d none :=
        fun _ _ _ => .inr rfl
      cases call with
      | connect =>
          cases hsection
          exact (commits_registerClient hself htorn content).map _
      | pushDataset datasetId filename =>
          simp only [clientSection] at hsection
          split at hsection
          · cases hsection
            exact (commits_pushDataset hself htorn _ content).map _
          · cases hsection
      | pushEndSignal =>
          obtain ⟨clientId, -, rfl⟩ := Option.map_eq_some_iff.mp hsection
          exact (commits_pushDataset hself htorn _ content).map _

abbrev initial : State Party Unit ExchangeContent Unit Local := System.start bound

theorem clientSection_handedOut {client client' : ClientState} {call : Call}
    {program : Section ClientState} {before after : ExchangeContent}
    (hsection : clientSection client call = some program)
    (hexec : program.exec before = some (client', after)) :
    ∀ id ∈ client.handedOut, id ∈ client'.handedOut := by
  intro id hid
  cases call with
  | connect =>
      cases hsection
      rw [Prog.exec_map] at hexec
      obtain ⟨left, -, heq⟩ := Option.map_eq_some_iff.mp hexec
      cases heq
      exact List.mem_cons_of_mem _ hid
  | pushDataset datasetId filename =>
      simp only [clientSection] at hsection
      split at hsection
      · cases hsection
        rw [Prog.exec_map] at hexec
        obtain ⟨left, -, heq⟩ := Option.map_eq_some_iff.mp hexec
        cases heq
        exact hid
      · cases hsection
  | pushEndSignal =>
      obtain ⟨clientId, -, rfl⟩ := Option.map_eq_some_iff.mp hsection
      rw [Prog.exec_map] at hexec
      obtain ⟨left, -, heq⟩ := Option.map_eq_some_iff.mp hexec
      cases heq
      exact hid

/-- A client has no more ids than it has between the sections. -/
theorem handedOut_subset {s : State Party Unit ExchangeContent Unit Local}
    {a : AtomicState Party Unit ExchangeContent Unit Local}
    (h : system.Matches Truncated s a) (k : ℕ) :
    ∀ id ∈ (s.locals (.client k) : ClientState).handedOut,
      id ∈ (a.locals (.client k) : ClientState).handedOut := by
  intro id hid
  rcases h.locals_eq (.client k) with heq | ⟨file, call, whole, before, after, henter, hexec⟩
  · rw [heq]
    exact hid
  · obtain ⟨program, hsection, heq⟩ := Option.map_eq_some_iff.mp henter
    cases heq
    exact clientSection_handedOut hsection hexec id hid

/-- **No premature end.**  In a run in which the file is never truncated when it is read without
the lock, `HandleEndSignal` throws only if every id that was handed out has been passed to
`UnregisterClient`. -/
theorem all_unregistered_of_untruncated {s t : State Party Unit ExchangeContent Unit Local}
    (hreach : Reachable (restrict (system.Untorn Truncated) system.step) initial s)
    (hlook : restrict (system.Untorn Truncated) system.step s (.look .server) = some t)
    (hthrown : (t.locals .server : ServerState).stage = .finished) (k : ℕ) :
    ∀ id ∈ (s.locals (.client k) : ClientState).handedOut,
      id ∈ (s.locals .server : ServerState).passed := by
  obtain ⟨huntorn, hlook⟩ := restrict_eq_some.mp hlook
  obtain ⟨a, hmatches, hreach⟩ := System.reduction reducible hreach
  obtain ⟨json, hregistered⟩ := hreach.invariant (P := fun a => ∃ json, Registered a json)
    ⟨{}, rfl, by simp [bound], by simp [Json.unregisteredIds]⟩
    fun a action b _ ⟨json, h⟩ hstep => h.step hstep
  obtain ⟨file, see, hsee, hlocals, ht⟩ := hmatches.look huntorn hlook
  simp only [system] at hsee
  split at hsee
  · cases hsee
    rw [ht, hregistered.content] at hthrown
    have hequal : json.clients = json.unregisteredClients := by
      simpa [areAllClientsUnregistered] using hthrown
    intro id hid
    have hclient := hregistered.handedOut k id (handedOut_subset hmatches k id hid)
    rw [← hlocals]
    apply hregistered.passed
    rw [Json.unregisteredIds, ← hequal]
    exact hclient
  · cases hsee

/-! ### Two runs -/

/-- A section of a client: it reads the document, truncates the file and writes the document. -/
def callOf (k : ℕ) (call : Call) : List (Action Party Call) :=
  [.lock (.client k) call, .advance (.client k), .advance (.client k), .advance (.client k),
    .unlock (.client k)]

/-- The server pulls an end signal and handles it. -/
def endPulled : List (Action Party Call) :=
  .lock .server .connect :: List.replicate 9 (.advance .server) ++ [.unlock .server]

/-- A client comes and goes. -/
def oneClient : List (Action Party Call) :=
  callOf 0 .connect ++ callOf 0 .pushEndSignal ++ endPulled

theorem all_unregistered_one_client :
    ∃ s t, Reachable (restrict (system.Untorn Truncated) system.step) initial s ∧
      restrict (system.Untorn Truncated) system.step s (.look .server) = some t ∧
      (t.locals .server : ServerState).stage = .finished ∧
      ∀ id ∈ (s.locals (.client 0) : ClientState).handedOut,
        id ∈ (s.locals .server : ServerState).passed := by
  obtain ⟨s, hreach, hend⟩ := Reachable.exists_of_run
    (show (run (restrict (system.Untorn Truncated) system.step) initial oneClient).any
      (fun s => (restrict (system.Untorn Truncated) system.step s (.look .server)).any
        fun t => decide ((t.locals .server : ServerState).stage = .finished)) = true by
      decide +kernel)
  obtain ⟨t, hlook, hthrown⟩ := (Option.any_eq_true _ _).mp hend
  have hthrown := of_decide_eq_true hthrown
  exact ⟨s, t, hreach, hlook, hthrown, all_unregistered_of_untruncated hreach hlook hthrown 0⟩

/-- A second client is registered, and pushes a dataset: the file is truncated. -/
def secondClient : List (Action Party Call) :=
  oneClient ++ callOf 1 .connect ++
    [.lock (.client 1) (.pushDataset 0 []), .advance (.client 1), .advance (.client 1)]

/-- The server then finds no client that is not unregistered, although the second one is. -/
theorem premature_end :
    ∃ s t, Reachable system.step initial s ∧ system.step s (.look .server) = some t ∧
      (t.locals .server : ServerState).stage = .finished ∧
      ∃ id ∈ (s.locals (.client 1) : ClientState).handedOut,
        id ∉ (s.locals .server : ServerState).passed := by
  obtain ⟨s, hreach, hend⟩ := Reachable.exists_of_run
    (show (run system.step initial secondClient).any
      (fun s => (system.step s (.look .server)).any fun t =>
        decide ((t.locals .server : ServerState).stage = .finished ∧
          ∃ id ∈ (s.locals (.client 1) : ClientState).handedOut,
            id ∉ (s.locals .server : ServerState).passed)) = true by
      decide +kernel)
  obtain ⟨t, hlook, hend⟩ := (Option.any_eq_true _ _).mp hend
  exact ⟨s, t, hreach, hlook, of_decide_eq_true hend⟩

end ComputeWebApp.Data.AggregatorServerFile
