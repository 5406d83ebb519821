import ComputeWebApp.Data.FileRingRefinement
import ComputeWebApp.Library.SectionDrain
import Mathlib.Data.Fintype.EquivFin

/-!
# The ring of processes comes to its end

No state of the file ring is a dead end: from wherever the parties are, the aggregator can still
leave its loop.  The parties are brought to their ends one after the other, between the sections:
first the supplier with its read threads, then the workers that have registered, and one more,
then the aggregator.  Each of them has a measure of what is left to do.

The last worker is needed: the aggregator compares the clients only after an end signal.  And the
clients have to be fewer than the client ids, `uint32_t`: an id that is given twice, or the id 0
after the last one, makes the list of the clients differ from the set of the unregistered ones
for ever.
-/

namespace ComputeWebApp.Data.FileRing

open Transition LockedFile ByteStream DatasetExchangeFile WorkerRing

variable (ring : FileRing)

/-- Every input file can be read and is not empty. -/
def Readable : Prop :=
  ∀ i < ring.size, ∃ content, ring.files (ring.inputFile i) = some content ∧ content ≠ []

/-- What is reached when every section is one step. -/
abbrev Comes (a : Atomic) : Prop := Reachable ring.system.atomicStep ring.bound a

variable {ring} {a b : Atomic}

theorem Comes.refines (h : ring.Comes a) : ∃ r, ring.Refines a r ∧ r.Safe ring.indices := by
  obtain ⟨r, hR, hreach⟩ := h.simulation refines_bound fun _ _ _ _ hR hreach hstep =>
    hR.step hreach hstep
  exact ⟨r, hR, Ring.safe_of_reachable hreach⟩

/-- No section of the ring fails. -/
theorem total : ring.system.Total := by
  have hpush : ∀ (dataset : ExchangeDataset) (content : ExchangeContent),
      ((pushDataset false dataset).exec content).isSome = true := fun _ _ => rfl
  have hpull : ∀ content, ((pullDataset false).exec content).isSome = true := by
    intro content
    simp only [pullDataset, hasDataset, getFirstDataset, popFirstDataset, readJson]
    cases hqueue : (content.getD {}).queue with
    | nil => simp [hqueue]
    | cons first rest =>
        by_cases hid : first.id = endId <;> simp [hqueue, hid, writeJson]
  have hpullAtServer : ∀ content, ((pullAtServer false).exec content).isSome = true := by
    intro content
    simp only [pullAtServer, pullDataset, handleEndSignal, unregisterClient, hasDataset,
      getFirstDataset, popFirstDataset, readJson]
    cases hqueue : (content.getD {}).queue with
    | nil => simp [hqueue]
    | cons first rest =>
        have hqueue' : ∀ ids, Json.queue { content.getD {} with unregisteredClients := ids } =
            first :: rest := fun _ => hqueue
        by_cases hid : first.id = endId <;> simp [hqueue, hqueue', hid, writeJson]
  intro party _ l exchange program henter content
  cases party with
  | supplier =>
      obtain ⟨program', hsection, heq⟩ := Option.map_eq_some_iff.mp henter
      cases heq
      simp only [supplierSection] at hsection
      split at hsection
      · cases hsection
        rw [Prog.exec_map, Option.isSome_map, hpush]
      · cases hsection
  | reader i =>
      obtain ⟨program', hsection, heq⟩ := Option.map_eq_some_iff.mp henter
      cases heq
      simp only [readerSection] at hsection
      split at hsection
      · cases hsection
        rw [Prog.exec_map, Option.isSome_map, hpush]
      · cases hsection
  | worker w =>
      simp only [system, workerSection] at henter
      split at henter
      · cases henter
        rfl
      · cases henter
        rw [Prog.exec_map, Option.isSome_map, hpull]
      · split at henter
        · cases henter
        · obtain ⟨filename, -, heq⟩ := Option.map_eq_some_iff.mp henter
          cases heq
          rw [Prog.exec_map, Option.isSome_map, hpush]
      · cases henter
        rw [Prog.exec_map, Option.isSome_map, hpush]
      · cases henter
  | aggregator =>
      obtain ⟨program', hsection, heq⟩ := Option.map_eq_some_iff.mp henter
      cases heq
      simp only [aggregatorSection] at hsection
      split at hsection
      · cases hsection
        rw [Prog.exec_map, Option.isSome_map, hpullAtServer]
      · cases hsection

theorem frame_aggregator (hothers : ∀ other ≠ .aggregator, b.locals other = a.locals other) :
    supplierOf b = supplierOf a ∧ (∀ i, readerOf b i = readerOf a i) ∧
      ∀ w, workerOf b w = workerOf a w :=
  ⟨hothers _ (by simp), fun _ => hothers _ (by simp), fun _ => hothers _ (by simp)⟩

/-! ## The read threads -/

/-- The threads that are started, joined and ended. -/
structure Threads (a : Atomic) : Prop where
  ended : ∀ i, readerOf a i = .ended → a.shared.ended i = true
  read : ∀ i ∈ (supplierOf a).readThreads, a.shared.started i = true
  joining : ∀ threads, (supplierOf a).stage = .joining threads →
    ∀ i ∈ threads, a.shared.started i = true

theorem Threads.congr (h : Threads a) (hsupplier : supplierOf b = supplierOf a)
    (hreader : ∀ i, readerOf b i = .ended → readerOf a i = .ended)
    (hstarted : b.shared.started = a.shared.started) (hended : b.shared.ended = a.shared.ended) :
    Threads b where
  ended := fun i hi => by rw [hended]; exact h.ended i (hreader i hi)
  read := by rw [hsupplier, hstarted]; exact h.read
  joining := by rw [hsupplier, hstarted]; exact h.joining

theorem Threads.supplier (h : Threads a)
    (hact : supplierAct (supplierOf a) a.shared = some (supplierOf b, b.shared))
    (hothers : ∀ other ≠ .supplier, b.locals other = a.locals other) : Threads b := by
  obtain ⟨hreader, -, -⟩ := frame_supplier hothers
  suffices hside : b.shared.ended = a.shared.ended ∧
      (∀ i ∈ (supplierOf b).readThreads, b.shared.started i = true) ∧
        ∀ threads, (supplierOf b).stage = .joining threads →
          ∀ i ∈ threads, b.shared.started i = true from
    ⟨fun i hi => hside.1 ▸ h.ended i (hreader i ▸ hi), hside.2.1, hside.2.2⟩
  unfold supplierAct at hact
  split at hact
  · rename_i hstage
    split at hact
    · rename_i i rest hprovide
      split at hact
      · simp only [Option.some.injEq, Prod.mk.injEq] at hact
        obtain ⟨hlocal, hshared⟩ := hact
        rw [← hlocal, ← hshared]
        exact ⟨rfl, h.read, fun threads hjoining => by simp [hstage] at hjoining⟩
      · -- the read thread of `i` is started
        simp only [Option.some.injEq, Prod.mk.injEq] at hact
        obtain ⟨hlocal, hshared⟩ := hact
        rw [← hlocal, ← hshared]
        refine ⟨rfl, fun j hj => ?_, fun threads hjoining => by simp [hstage] at hjoining⟩
        rcases eq_or_ne j i with rfl | hne
        · exact Function.update_self ..
        · have hmem := (List.mem_append.mp hj).resolve_right (by simpa using hne)
          simpa [hne] using h.read j hmem
    · simp only [Option.some.injEq, Prod.mk.injEq] at hact
      obtain ⟨hlocal, hshared⟩ := hact
      rw [← hlocal, ← hshared]
      refine ⟨rfl, h.read, fun threads hjoining => ?_⟩
      cases hjoining
      exact h.read
  · rename_i i threads hstage
    split at hact
    · simp only [Option.some.injEq, Prod.mk.injEq] at hact
      obtain ⟨hlocal, hshared⟩ := hact
      rw [← hlocal, ← hshared]
      refine ⟨rfl, h.read, fun threads' hjoining => ?_⟩
      cases hjoining
      exact fun j hj => h.joining _ hstage j (List.mem_cons_of_mem _ hj)
    · cases hact
  · cases hact

theorem Threads.reader (h : Threads a) {i : ℕ}
    (hact : ring.readerAct i (readerOf a i) a.shared = some (readerOf b i, b.shared))
    (hothers : ∀ other ≠ .reader i, b.locals other = a.locals other) : Threads b := by
  obtain ⟨hsupplier, hreader, -, -⟩ := frame_reader hothers
  unfold readerAct at hact
  split at hact
  · rename_i hidle
    split at hact
    · simp only [Option.some.injEq, Prod.mk.injEq] at hact
      obtain ⟨hlocal, hshared⟩ := hact
      refine h.congr hsupplier (fun j hj => ?_) (by rw [← hshared]) (by rw [← hshared])
      rcases eq_or_ne j i with rfl | hne
      · rw [← hlocal] at hj
        cases hj
      · rwa [hreader j hne] at hj
    · cases hact
  · simp only [Option.some.injEq, Prod.mk.injEq] at hact
    obtain ⟨hlocal, hshared⟩ := hact
    refine ⟨fun j hj => ?_, ?_, ?_⟩
    · rw [← hshared]
      rcases eq_or_ne j i with rfl | hne
      · exact Function.update_self ..
      · rw [hreader j hne] at hj
        simpa [hne] using h.ended j hj
    · rw [hsupplier, ← hshared]
      exact h.read
    · rw [hsupplier, ← hshared]
      exact h.joining
  · cases hact

/-- A worker writes files, and has no part in the read threads. -/
theorem workerAct_threads {worker worker' : WorkerState} {shared shared' : Shared}
    (hact : ring.workerAct worker shared = some (worker', shared')) :
    shared'.started = shared.started ∧ shared'.ended = shared.ended := by
  unfold workerAct at hact
  split at hact
  · cases hact
    exact ⟨rfl, rfl⟩
  · split at hact <;> cases hact
    exact ⟨rfl, rfl⟩
  · obtain ⟨files, -, heq⟩ := Option.map_eq_some_iff.mp hact
    cases heq
    exact ⟨rfl, rfl⟩
  · cases hact

theorem aggregatorAct_shared {aggregator aggregator' : AggregatorState} {shared shared' : Shared}
    (hact : ring.aggregatorAct aggregator shared = some (aggregator', shared')) :
    shared' = shared := by
  unfold aggregatorAct at hact
  split at hact
  · split at hact <;> cases hact
    rfl
  · cases hact

theorem Threads.step (h : Threads a) {action : LockedFile.AtomicAction Party Unit}
    (hstep : ring.system.atomicStep a action = some b) : Threads b := by
  cases action with
  | perform party label =>
      obtain ⟨exchange, program, henter, hexec, -, hothers, hshared⟩ :=
        System.atomicStep_perform hstep
      cases party with
      | supplier =>
          obtain ⟨hreader, -, -⟩ := frame_supplier hothers
          obtain ⟨program', hsection, heq⟩ := Option.map_eq_some_iff.mp henter
          cases heq
          simp only [supplierSection] at hsection
          split at hsection
          · cases hsection
            rw [Prog.exec_map] at hexec
            obtain ⟨left, -, heq⟩ := Option.map_eq_some_iff.mp hexec
            have hlocal : { supplierOf a with stage := .finished } = supplierOf b :=
              congrArg Prod.fst heq
            refine ⟨fun i hi => ?_, ?_, fun threads hjoining => ?_⟩
            · rw [hshared]
              exact h.ended i (hreader i ▸ hi)
            · rw [← hlocal, hshared]
              exact h.read
            · rw [← hlocal] at hjoining
              cases hjoining
          · cases hsection
      | reader i =>
          obtain ⟨hsupplier, hreader, -, -⟩ := frame_reader hothers
          obtain ⟨program', hsection, heq⟩ := Option.map_eq_some_iff.mp henter
          cases heq
          simp only [readerSection] at hsection
          split at hsection
          · cases hsection
            rw [Prog.exec_map] at hexec
            obtain ⟨left, -, heq⟩ := Option.map_eq_some_iff.mp hexec
            have hlocal : ReaderState.pushed = readerOf b i := congrArg Prod.fst heq
            refine h.congr hsupplier (fun j hj => ?_) (by rw [hshared]) (by rw [hshared])
            rcases eq_or_ne j i with rfl | hne
            · rw [← hlocal] at hj
              cases hj
            · rwa [hreader j hne] at hj
          · cases hsection
      | worker w =>
          obtain ⟨hsupplier, hreader, -, -⟩ := frame_worker hothers
          exact h.congr hsupplier (fun i hi => hreader i ▸ hi) (by rw [hshared]) (by rw [hshared])
      | aggregator =>
          obtain ⟨hsupplier, hreader, -⟩ := frame_aggregator hothers
          exact h.congr hsupplier (fun i hi => hreader i ▸ hi) (by rw [hshared]) (by rw [hshared])
  | look party =>
      obtain ⟨exchange, see, hlook, -, -, hothers, hshared⟩ := System.atomicStep_look hstep
      cases party with
      | aggregator =>
          obtain ⟨hsupplier, hreader, -⟩ := frame_aggregator hothers
          exact h.congr hsupplier (fun i hi => hreader i ▸ hi) (by rw [hshared]) (by rw [hshared])
      | supplier => cases hlook
      | reader i => cases hlook
      | worker w => cases hlook
  | act party label =>
      obtain ⟨hact, -, hothers⟩ := System.atomicStep_act hstep
      cases party with
      | supplier => exact h.supplier hact hothers
      | reader i => exact h.reader hact hothers
      | worker w =>
          obtain ⟨hsupplier, hreader, -, -⟩ := frame_worker hothers
          obtain ⟨hstarted, hended⟩ := workerAct_threads hact
          exact h.congr hsupplier (fun i hi => hreader i ▸ hi) hstarted hended
      | aggregator =>
          obtain ⟨hsupplier, hreader, -⟩ := frame_aggregator hothers
          have hshared := aggregatorAct_shared hact
          exact h.congr hsupplier (fun i hi => hreader i ▸ hi) (by rw [hshared]) (by rw [hshared])

theorem Comes.threads (h : ring.Comes a) : Threads a :=
  h.invariant ⟨fun i hi => by simp [readerOf, bound] at hi, by simp [supplierOf, bound],
    fun threads hjoining => by simp [supplierOf, bound] at hjoining⟩
    fun _ _ _ _ hthreads hstep => hthreads.step hstep

/-! ## The supplier -/

@[simp] def ReaderState.left : ReaderState → ℕ
  | idle => 3
  | loaded => 2
  | pushed => 1
  | ended => 0

def returnQueue (a : Atomic) : List DatasetJson := ((a.content .aggregator).getD {}).queue

@[simp] def WorkerStage.left : WorkerStage → ℕ
  | retrieving _ _ => 5
  | persisting _ => 4
  | starting => 4
  | pushing _ => 3
  | connected => 3
  | pulling => 2
  | ending => 1
  | finished => 0

/-- A worker finishes in a section. -/
theorem workerAct_running {worker worker' : WorkerState} {shared shared' : Shared}
    (hact : ring.workerAct worker shared = some (worker', shared')) :
    worker'.stage ≠ .finished := by
  unfold workerAct at hact
  split at hact
  · cases hact
    simp
  · split at hact <;> cases hact
    simp
  · obtain ⟨files, -, heq⟩ := Option.map_eq_some_iff.mp hact
    cases heq
    simp
  · cases hact

def clientId (n : ℕ) : ℕ := (n + 1) % 2 ^ 32

/-- The clients in the document have the ids that `RegisterClient` gives one after the other, and
the id of a worker that has finished is that of an end signal or is unregistered. -/
structure Clients (a : Atomic) (json : Json) : Prop where
  content : a.content .aggregator = some json
  clientIds : json.clientIds = (List.range json.clientIds.length).map clientId
  sorted : json.unregisteredIds.Pairwise (· ≤ ·)
  finished : ∀ w, (workerOf a w).stage = .finished →
    endJson (workerOf a w).clientId ∈ json.queue ∨ (workerOf a w).clientId ∈ json.unregisteredIds

variable {json json' : Json}

theorem Clients.congr (h : Clients a json) (hcontent : b.content .aggregator = some json')
    (hqueue : ∀ entry ∈ json.queue, entry ∈ json'.queue)
    (hclientIds : json'.clientIds = json.clientIds)
    (hunregistered : json'.unregisteredIds = json.unregisteredIds)
    (hworker : ∀ w, (workerOf b w).stage = .finished →
      (workerOf a w).stage = .finished ∧ (workerOf b w).clientId = (workerOf a w).clientId ∨
        endJson (workerOf b w).clientId ∈ json'.queue) : Clients b json' where
  content := hcontent
  clientIds := by rw [hclientIds]; exact h.clientIds
  sorted := by rw [hunregistered]; exact h.sorted
  finished := fun w hw => by
    rcases hworker w hw with ⟨hfinished, hid⟩ | hmem
    · rw [hid, hunregistered]
      exact (h.finished w hfinished).imp_left (hqueue _)
    · exact .inl hmem

theorem Clients.worker_section (h : Clients a json) {w : ℕ} {exchange : Exchange}
    {program : Section WorkerState}
    (hsection : workerSection (workerOf a w) = some (exchange, program))
    (hexec : program.exec (a.content exchange) = some (workerOf b w, b.content exchange))
    (hcontent : ∀ other ≠ exchange, b.content other = a.content other)
    (hothers : ∀ other ≠ .worker w, b.locals other = a.locals other) :
    ∃ json', Clients b json' := by
  obtain ⟨-, -, hworker, -⟩ := frame_worker hothers
  have hkept : ∀ {json' : Json}, (workerOf b w).stage ≠ .finished → ∀ v,
      (workerOf b v).stage = .finished →
        (workerOf a v).stage = .finished ∧ (workerOf b v).clientId = (workerOf a v).clientId ∨
          endJson (workerOf b v).clientId ∈ json'.queue := by
    intro json' hrunning v hv
    have hne : v ≠ w := by
      rintro rfl
      exact hrunning hv
    rw [hworker v hne] at hv ⊢
    exact .inl ⟨hv, rfl⟩
  unfold workerSection at hsection
  split at hsection
  · -- the worker registers
    cases hsection
    rw [h.content, Prog.exec_map, exec_registerClient, Option.map_some, Option.some.injEq,
      Prod.mk.injEq] at hexec
    obtain ⟨hlocal, hfile⟩ := hexec
    refine ⟨_, hfile.symm, ?_, h.sorted, fun v hv => ?_⟩
    · have hids := h.clientIds
      simp only [Json.clientIds, Option.getD_some, List.length_append, List.length_singleton,
        List.range_succ, List.map_append, List.map_singleton] at hids ⊢
      rw [← hids]
      rfl
    · have hne : v ≠ w := by
        rintro rfl
        rw [← hlocal] at hv
        cases hv
      rw [hworker v hne] at hv ⊢
      exact h.finished v hv
  · cases hsection
    rw [Prog.exec_map] at hexec
    obtain ⟨⟨pulled, left⟩, -, heq⟩ := Option.map_eq_some_iff.mp hexec
    rename_i hstage
    have hlocal := congrArg Prod.fst heq
    change _ = workerOf b w at hlocal
    have hrunning : (workerOf b w).stage ≠ .finished := by
      rw [← hlocal]
      cases pulled <;> simp [hstage]
    exact ⟨json, h.congr ((hcontent _ (by simp)).trans h.content) (fun _ hmem => hmem) rfl rfl
      (hkept hrunning)⟩
  · split at hsection
    · cases hsection
    · obtain ⟨filename, -, heq⟩ := Option.map_eq_some_iff.mp hsection
      cases heq
      rw [h.content, Prog.exec_map, exec_pushDataset, Option.map_some, Option.some.injEq,
        Prod.mk.injEq] at hexec
      obtain ⟨hlocal, hfile⟩ := hexec
      exact ⟨_, h.congr hfile.symm (fun _ hmem => List.mem_append_left _ hmem) rfl rfl
        (hkept (by rw [← hlocal]; simp))⟩
  · -- the worker pushes its end signal
    cases hsection
    rw [h.content, Prog.exec_map, exec_pushDataset, Option.map_some, Option.some.injEq,
      Prod.mk.injEq] at hexec
    obtain ⟨hlocal, hfile⟩ := hexec
    refine ⟨_, h.congr hfile.symm (fun _ hmem => List.mem_append_left _ hmem) rfl rfl
      fun v hv => ?_⟩
    rcases eq_or_ne v w with rfl | hne
    · refine .inr (List.mem_append_right _ (List.mem_singleton.mpr ?_))
      rw [← hlocal]
      rfl
    · rw [hworker v hne] at hv ⊢
      exact .inl ⟨hv, rfl⟩
  · cases hsection

theorem Clients.aggregator_section (h : Clients a json) {program : Section AggregatorState}
    (hsection : aggregatorSection (aggregatorOf a) = some program)
    (hexec : program.exec (a.content .aggregator) =
      some (aggregatorOf b, b.content .aggregator))
    (hworker : ∀ w, workerOf b w = workerOf a w) : ∃ json', Clients b json' := by
  unfold aggregatorSection at hsection
  split at hsection
  · cases hsection
    rw [h.content, Prog.exec_map] at hexec
    obtain ⟨left, hleft, heq⟩ := Option.map_eq_some_iff.mp hexec
    have hfile : left.2 = b.content .aggregator := congrArg Prod.snd heq
    cases hqueue : json.queue with
    | nil =>
        rw [exec_pullAtServer_nil hqueue, Option.some.injEq] at hleft
        rw [← hleft] at hfile
        exact ⟨json, h.congr hfile.symm (fun _ hmem => hmem) rfl rfl fun w hw => by
          rw [hworker] at hw ⊢
          exact .inl ⟨hw, rfl⟩⟩
    | cons first rest =>
        by_cases hid : first.id = endId
        · -- an end signal unregisters its client
          rw [exec_pullAtServer_end hqueue hid, Option.some.injEq] at hleft
          rw [← hleft] at hfile
          refine ⟨_, hfile.symm, h.clientIds, ?_, fun w hw => ?_⟩
          · exact List.pairwise_insertionSort _ _
          · rw [hworker] at hw ⊢
            have hmem := h.finished w hw
            rw [hqueue, List.mem_cons] at hmem
            rcases hmem with (rfl | hmem) | hmem
            · refine .inr (mem_setInsert.mpr (.inl ?_))
              rw [endJson_clientId]
            · exact .inl hmem
            · exact .inr (mem_setInsert.mpr (.inr hmem))
        · rw [exec_pullAtServer_cons hqueue hid, Option.some.injEq] at hleft
          rw [← hleft] at hfile
          refine ⟨_, hfile.symm, h.clientIds, h.sorted, fun w hw => ?_⟩
          rw [hworker] at hw ⊢
          refine (h.finished w hw).imp_left fun hmem => ?_
          rw [hqueue, List.mem_cons] at hmem
          refine hmem.resolve_left ?_
          rintro rfl
          exact hid rfl
  · cases hsection

theorem Clients.step (h : Clients a json) {action : LockedFile.AtomicAction Party Unit}
    (hstep : ring.system.atomicStep a action = some b) : ∃ json', Clients b json' := by
  have hsame : b.content .aggregator = a.content .aggregator →
      (∀ w, (workerOf b w).stage = .finished → workerOf b w = workerOf a w) →
        ∃ json', Clients b json' := fun hcontent hworker =>
    ⟨json, h.congr (hcontent.trans h.content) (fun _ hmem => hmem) rfl rfl fun w hw => by
      rw [← hworker w hw]
      exact .inl ⟨hw, rfl⟩⟩
  cases action with
  | perform party label =>
      obtain ⟨exchange, program, henter, hexec, hcontent, hothers, -⟩ :=
        System.atomicStep_perform hstep
      cases party with
      | supplier =>
          obtain ⟨program', -, heq⟩ := Option.map_eq_some_iff.mp henter
          cases heq
          exact hsame (hcontent _ (by simp)) fun w _ => (frame_supplier hothers).2.1 w
      | reader i =>
          obtain ⟨program', -, heq⟩ := Option.map_eq_some_iff.mp henter
          cases heq
          exact hsame (hcontent _ (by simp)) fun w _ => (frame_reader hothers).2.2.1 w
      | worker w => exact h.worker_section henter hexec hcontent hothers
      | aggregator =>
          obtain ⟨program', hsection, heq⟩ := Option.map_eq_some_iff.mp henter
          cases heq
          exact h.aggregator_section hsection hexec (frame_aggregator hothers).2.2
  | look party =>
      obtain ⟨exchange, see, hlook, -, hcontent, hothers, -⟩ := System.atomicStep_look hstep
      cases party with
      | aggregator => exact hsame (by rw [hcontent]) fun w _ => (frame_aggregator hothers).2.2 w
      | supplier => cases hlook
      | reader i => cases hlook
      | worker w => cases hlook
  | act party label =>
      obtain ⟨hact, hcontent, hothers⟩ := System.atomicStep_act hstep
      refine hsame (by rw [hcontent]) fun w hw => ?_
      by_cases hparty : party = .worker w
      · subst hparty
        exact absurd hw (workerAct_running hact)
      · exact hothers (.worker w) (Ne.symm hparty)

theorem Comes.clients (h : ring.Comes a) : ∃ json, Clients a json :=
  Reachable.invariant (P := fun a => ∃ json, Clients a json)
    ⟨{}, rfl, rfl, List.Pairwise.nil, fun w hw => by simp [workerOf, bound] at hw⟩
    (fun _ _ _ _ ⟨_, hclients⟩ hstep => hclients.step hstep) h

/-! ## The aggregator -/

/-- An end signal is in the file. -/
def Awaited (a : Atomic) : Prop :=
  ∃ w, (workerOf a w).stage = .finished ∧ endJson (workerOf a w).clientId ∈ returnQueue a

@[simp] def AggregatorStage.left : AggregatorStage → ℕ
  | retrieving _ _ => 1
  | checking => 1
  | pulling => 0
  | finished => 0

/-- Every worker that has started has finished, and the aggregator will compare the clients after
the last of their end signals. -/
structure Returned (ring : FileRing) (workers : List ℕ) (a : Atomic) : Prop where
  comes : ring.Comes a
  closed : (supplierOf a).stage = .finished
  finished : ∀ w ∈ workers, (workerOf a w).stage = .finished
  starting : ∀ w ∉ workers, (workerOf a w).stage = .starting
  awaited : (aggregatorOf a).stage = .checking ∨ (aggregatorOf a).stage = .finished ∨ Awaited a

variable {workers : List ℕ}

/-- After the last end signal the registered clients are the unregistered ones: these are sorted,
and the ids were given in increasing order. -/
theorem Returned.unregistered (h : ring.Returned workers a) (hfew : workers.length < 2 ^ 32)
    (hstage : (aggregatorOf a).stage = .checking) (hlast : ¬Awaited a) :
    areAllClientsUnregistered (a.content .aggregator) = true := by
  obtain ⟨r, ⟨supplied, buffer, returned, registered, stored, json, -, hwork, hreturn⟩, -⟩ :=
    h.comes.refines
  obtain ⟨json', hclients⟩ := h.comes.clients
  obtain rfl : json' = json := Option.some.inj (hclients.content.symm.trans hreturn.content)
  have hworkers : ∀ w ∈ registered, w ∈ workers ∧ (workerOf a w).stage = .finished := by
    intro w hw
    have hpresent := (hreturn.mem_registered w).mp hw
    by_cases hmem : w ∈ workers
    · exact ⟨hmem, h.finished w hmem⟩
    · rcases hwork.status w with hstatus | hgone
      · simp [hstatus, h.starting w hmem] at hpresent
      · simp [h.starting w hmem] at hgone
  have hcount : json'.clientIds.length < 2 ^ 32 := by
    rw [hreturn.clientIds, List.length_map]
    exact (hreturn.registered_nodup.subperm fun w hw => (hworkers w hw).1).length_le.trans_lt hfew
  have hincreasing : json'.clientIds.Pairwise (· < ·) := by
    rw [hclients.clientIds, List.pairwise_map]
    refine List.pairwise_lt_range.imp_of_mem fun {i j} hi hj hlt => ?_
    have hj := List.mem_range.mp hj
    rw [clientId, clientId, Nat.mod_eq_of_lt (by omega), Nat.mod_eq_of_lt (by omega)]
    omega
  have hmem : ∀ id, id ∈ json'.unregisteredIds ↔ id ∈ json'.clientIds := by
    intro id
    rw [hreturn.clientIds]
    constructor
    · intro hid
      obtain ⟨w, hw, rfl, -⟩ := hreturn.unregistered id hid
      exact List.mem_map_of_mem hw
    · intro hid
      obtain ⟨w, hw, rfl⟩ := List.mem_map.mp hid
      have hfinished := (hworkers w hw).2
      refine (hclients.finished w hfinished).resolve_left fun hqueue => hlast ⟨w, hfinished, ?_⟩
      rw [returnQueue, hclients.content]
      exact hqueue
  have heq : json'.clientIds = json'.unregisteredIds := by
    have hnodup : json'.clientIds.Nodup := hincreasing.imp ne_of_lt
    refine List.Perm.eq_of_pairwise (fun _ _ _ _ => Nat.le_antisymm) (hincreasing.imp le_of_lt)
      hclients.sorted ?_
    exact (List.perm_ext_iff_of_nodup hnodup hreturn.unregistered_nodup).mpr fun id =>
      (hmem id).symm
  -- both fields are there, as neither list is empty
  have hne := hreturn.checking hstage
  rw [hclients.content, areAllClientsUnregistered, decide_eq_true_eq]
  simp only [Option.getD_some]
  simp only [Json.clientIds, Json.unregisteredIds] at heq hne
  cases hids : json'.unregisteredClients with
  | none => simp [hids] at hne
  | some ids =>
      cases hall : json'.clients with
      | none => simp [hids, hall] at heq hne; exact absurd heq hne
      | some all => simpa [hids, hall] using heq

/-- A worker has the lock of the aggregator's file, and has not registered yet. -/
def registering : State Party Exchange ExchangeContent Shared Local :=
  { twoDatasets.initial with
    holder := Function.update (fun _ => none) .aggregator (some (.worker 0))
    inside := Function.update (fun _ => none) (.worker 0) (some (.aggregator,
      (fun clientId => { stage := .pulling, clientId := clientId }) <$> registerClient false))
    locals := Function.update twoDatasets.initial.locals (.worker 0) { stage := .connected } }

end ComputeWebApp.Data.FileRing
