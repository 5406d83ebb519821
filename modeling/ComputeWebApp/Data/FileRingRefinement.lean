import ComputeWebApp.Data.FileRing

/-!
# Every dataset comes through the ring

The system of `ComputeWebApp.Data.FileRing` implements a `WorkerRing`: an index is supplied while
it is in the supplier's file, held by the worker that has pulled it, given while it is in the
aggregator's file, collected when the aggregator has pulled it and stored once it is in the
output data (`Refines`).  A worker leaves when the server has handled its end signal.

The aggregator stops when the registered clients are the unregistered ones.  These are a sorted
set, so that the ids of the workers are distinct then, and every registered worker has left.
-/

namespace ComputeWebApp.Data.FileRing

open Transition LockedFile ByteStream DatasetExchangeFile WorkerRing

abbrev Atomic := AtomicState Party Exchange ExchangeContent Shared Local

def supplierOf (a : Atomic) : SupplierState := a.locals .supplier

def readerOf (a : Atomic) (i : ℕ) : ReaderState := a.locals (.reader i)

def workerOf (a : Atomic) (w : ℕ) : WorkerState := a.locals (.worker w)

def aggregatorOf (a : Atomic) : AggregatorState := a.locals .aggregator

/-! ## What the files and the parties stand for -/

/-- What is in the aggregator's file, and from which worker. -/
inductive Entry
  | dataset (i w : ℕ)
  | ended (w : ℕ)
  deriving DecidableEq

def Entry.worker : Entry → ℕ
  | dataset _ w => w
  | ended w => w

/-- The index that a worker holds. -/
@[simp] def WorkerStage.index : WorkerStage → Option ℕ
  | retrieving i _ => some i
  | persisting i => some i
  | pushing i => some i
  | _ => none

/-- The status of a worker whose end signal has not been handled. -/
@[simp] def WorkerStage.status : WorkerStage → Status
  | starting => .absent
  | connected => .absent
  | ending => .finished
  | finished => .finished
  | _ => .active

@[simp] def AggregatorStage.index : AggregatorStage → Option ℕ
  | retrieving i _ => some i
  | _ => none

variable (ring : FileRing)

def outputFile (i : ℕ) : Bytes := datasetFile ring.outputDirectory i

def inputJson (i : ℕ) : DatasetJson := ⟨i, ring.inputFile i, none⟩

def endJson (clientId : ℕ) : DatasetJson :=
  ⟨endId, [], if clientId ≠ endId then some clientId else none⟩

def Entry.json (clientIds : ℕ → ℕ) : Entry → DatasetJson
  | dataset i _ => ⟨i, ring.outputFile i, none⟩
  | ended w => endJson (clientIds w)

/-- The output dataset with index `i` and a buffer. -/
def outputDataset (i : ℕ) (buffer : Bytes) : Dataset where
  id := datasetName i
  data := some ring.outputDirectory
  buffer := buffer

/-- No output file is the input file of another dataset. -/
def Separate : Prop :=
  ∀ i < ring.size, ∀ j < ring.size, ring.outputFile i = ring.inputFile j → i = j

/-! ## The refinement relation -/

/-- The supplier, its threads and its file; `supplied` are the indices in the file. -/
structure SupplySide (a : Atomic) (r : Ring ℕ ℕ) (supplied : List ℕ) : Prop where
  content : ∃ json, a.content .supplier = some json ∧
    json.queue = supplied.map ring.inputJson ++ if r.closed = true then [endJson endId] else []
  nodup : supplied.Nodup
  mem : ∀ i, i ∈ supplied ↔ r.place i = .supplied
  waiting : ∀ i, r.place i = .waiting ↔ readerOf a i = .idle ∨ readerOf a i = .loaded
  started : ∀ i, a.shared.started i = true → i < ring.size
  loaded : ∀ i, readerOf a i ≠ .idle → i < ring.size
  ended : ∀ i, a.shared.ended i = true → readerOf a i = .ended
  grabbing : (supplierOf a).stage = .grabbing →
    (supplierOf a).readThreads ++ (supplierOf a).datasetsToProvide = List.range ring.size
  joining : ∀ threads, (supplierOf a).stage = .joining threads →
    ∀ i < ring.size, i ∈ threads ∨ a.shared.ended i = true
  closed : r.closed = true ↔ (supplierOf a).stage = .finished

/-- The workers and what they read and write; `buffer i` is what was retrieved for index `i`. -/
structure WorkSide (a : Atomic) (r : Ring ℕ ℕ) (buffer : ℕ → Bytes) : Prop where
  held : ∀ i w, r.place i = .held w ↔ (workerOf a w).stage.index = some i
  status : ∀ w, r.status w = (workerOf a w).stage.status ∨
    (workerOf a w).stage = .finished ∧ r.status w = .gone
  retrieving : ∀ w i filename, (workerOf a w).stage = .retrieving i filename →
    filename = ring.inputFile i
  persisting : ∀ w i, (workerOf a w).stage = .persisting i →
    (workerOf a w).dataset.id = datasetName i ∧ (workerOf a w).dataset.buffer = buffer i ∧
      (i, buffer i) ∈ (workerOf a w).pulled
  pushing : ∀ w i, (workerOf a w).stage = .pushing i →
    (workerOf a w).dataset.getFilename = some (ring.outputFile i) ∧
      a.shared.files (ring.outputFile i) = some (buffer i) ∧
      (i, buffer i) ∈ (workerOf a w).pulled
  pulled : ring.Separate → ∀ w, ∀ entry ∈ (workerOf a w).pulled,
    ring.files (ring.inputFile entry.1) = some entry.2
  files : ring.Separate → ∀ i < ring.size,
    a.shared.files (ring.inputFile i) = ring.files (ring.inputFile i)

/-- The aggregator and its file; `returned` is what is in the file, `registered` are the workers
with an id and `stored` the indices in the output. -/
structure ReturnSide (a : Atomic) (r : Ring ℕ ℕ) (buffer : ℕ → Bytes) (returned : List Entry)
    (registered stored : List ℕ) (json : Json) : Prop where
  content : a.content .aggregator = some json
  queue : json.queue = returned.map (Entry.json ring fun w => (workerOf a w).clientId)
  clientIds : json.clientIds = registered.map fun w => (workerOf a w).clientId
  registered_nodup : registered.Nodup
  mem_registered : ∀ w, w ∈ registered ↔ r.status w ≠ .absent
  unregistered_nodup : json.unregisteredIds.Nodup
  unregistered : ∀ id ∈ json.unregisteredIds,
    ∃ w ∈ registered, (workerOf a w).clientId = id ∧ r.status w = .gone
  checking : (aggregatorOf a).stage = .checking → json.unregisteredIds ≠ []
  returned_nodup : returned.Nodup
  given : ∀ i w, .dataset i w ∈ returned ↔ r.place i = .given w
  ended : ∀ w, .ended w ∈ returned ↔ (workerOf a w).stage = .finished ∧ r.status w ≠ .gone
  order : returned.Pairwise fun entry later => ∀ w, entry = .ended w → later.worker ≠ w
  persisted : ∀ i w, r.place i = .given w →
    a.shared.files (ring.outputFile i) = some (buffer i) ∧ (i, buffer i) ∈ (workerOf a w).pulled
  collected : ∀ i, r.place i = .collected ↔ (aggregatorOf a).stage.index = some i
  retrieving : ∀ i filename, (aggregatorOf a).stage = .retrieving i filename →
    filename = ring.outputFile i ∧ a.shared.files filename = some (buffer i) ∧
      ∃ w, (i, buffer i) ∈ (workerOf a w).pulled
  output : (aggregatorOf a).output = stored.map fun i => ring.outputDataset i (buffer i)
  stored_nodup : stored.Nodup
  mem_stored : ∀ i, i ∈ stored ↔ r.place i = .stored
  stored_pulled : ∀ i ∈ stored, ∃ w, (i, buffer i) ∈ (workerOf a w).pulled
  stopped : r.stopped = true ↔ (aggregatorOf a).stage = .finished

def Refines (a : Atomic) (r : Ring ℕ ℕ) : Prop :=
  ∃ supplied buffer returned registered stored json,
    ring.SupplySide a r supplied ∧ ring.WorkSide a r buffer ∧
      ring.ReturnSide a r buffer returned registered stored json

/-- What has to come through. -/
def indices : Set ℕ := {i | i < ring.size}

variable {ring} {a b : Atomic} {r r' : Ring ℕ ℕ} {supplied : List ℕ} {buffer : ℕ → Bytes}
  {returned : List Entry} {registered stored : List ℕ} {json : Json}

/-! ### Steps of the others -/

theorem SupplySide.congr (h : ring.SupplySide a r supplied)
    (hcontent : b.content .supplier = a.content .supplier)
    (hsupplier : supplierOf b = supplierOf a) (hreader : ∀ i, readerOf b i = readerOf a i)
    (hstarted : b.shared.started = a.shared.started) (hended : b.shared.ended = a.shared.ended)
    (hwaiting : ∀ i, r'.place i = .waiting ↔ r.place i = .waiting)
    (hsupplied : ∀ i, r'.place i = .supplied ↔ r.place i = .supplied)
    (hclosed : r'.closed = r.closed) : ring.SupplySide b r' supplied where
  content := by rw [hcontent, hclosed]; exact h.content
  nodup := h.nodup
  mem := fun i => (h.mem i).trans (hsupplied i).symm
  waiting := fun i => by rw [hwaiting, hreader]; exact h.waiting i
  started := by rw [hstarted]; exact h.started
  loaded := fun i => by rw [hreader]; exact h.loaded i
  ended := fun i => by rw [hended, hreader]; exact h.ended i
  grabbing := by rw [hsupplier]; exact h.grabbing
  joining := by rw [hsupplier, hended]; exact h.joining
  closed := by rw [hclosed, hsupplier]; exact h.closed

theorem WorkSide.congr (h : ring.WorkSide a r buffer) (hworker : ∀ w, workerOf b w = workerOf a w)
    (hfiles : b.shared.files = a.shared.files)
    (hheld : ∀ i w, r'.place i = .held w ↔ r.place i = .held w)
    (hstatus : ∀ w, r'.status w = r.status w ∨
      (workerOf a w).stage = .finished ∧ r'.status w = .gone) :
    ring.WorkSide b r' buffer where
  held := fun i w => by rw [hheld, hworker]; exact h.held i w
  status := fun w => by
    rw [hworker]
    rcases hstatus w with heq | hgone
    · rw [heq]; exact h.status w
    · exact .inr hgone
  retrieving := fun w => by rw [hworker]; exact h.retrieving w
  persisting := fun w => by rw [hworker]; exact h.persisting w
  pushing := fun w => by rw [hworker, hfiles]; exact h.pushing w
  pulled := fun hseparate w => by rw [hworker]; exact h.pulled hseparate w
  files := by rw [hfiles]; exact h.files

/-- The aggregator has no part in the step, and a worker only goes on. -/
theorem ReturnSide.congr {buffer' : ℕ → Bytes}
    (h : ring.ReturnSide a r buffer returned registered stored json)
    (hcontent : b.content .aggregator = a.content .aggregator)
    (haggregator : aggregatorOf b = aggregatorOf a)
    (hclientId : ∀ w, (workerOf b w).clientId = (workerOf a w).clientId)
    (hpulled : ∀ w, ∀ entry ∈ (workerOf a w).pulled, entry ∈ (workerOf b w).pulled)
    (hfinished : ∀ w, (workerOf b w).stage = .finished ↔ (workerOf a w).stage = .finished)
    (hfiles : ∀ i, (∃ w, r.place i = .given w) ∨ r.place i = .collected →
      b.shared.files (ring.outputFile i) = a.shared.files (ring.outputFile i))
    (hbuffer : ∀ i, (∃ w, r.place i = .given w) ∨ r.place i = .collected ∨ r.place i = .stored →
      buffer' i = buffer i)
    (hgiven : ∀ i w, r'.place i = .given w ↔ r.place i = .given w)
    (hcollected : ∀ i, r'.place i = .collected ↔ r.place i = .collected)
    (hstored : ∀ i, r'.place i = .stored ↔ r.place i = .stored)
    (habsent : ∀ w, r'.status w = .absent ↔ r.status w = .absent)
    (hgone : ∀ w, r'.status w = .gone ↔ r.status w = .gone) (hstopped : r'.stopped = r.stopped) :
    ring.ReturnSide b r' buffer' returned registered stored json where
  content := hcontent.trans h.content
  queue := by simp only [hclientId]; exact h.queue
  clientIds := by simp only [hclientId]; exact h.clientIds
  registered_nodup := h.registered_nodup
  mem_registered := fun w => (h.mem_registered w).trans (not_congr (habsent w)).symm
  unregistered_nodup := h.unregistered_nodup
  unregistered := fun id hid => by simpa only [hclientId, hgone] using h.unregistered id hid
  checking := by rw [haggregator]; exact h.checking
  returned_nodup := h.returned_nodup
  given := fun i w => (h.given i w).trans (hgiven i w).symm
  ended := fun w => by rw [h.ended, hfinished, ne_eq, ne_eq, hgone]
  order := h.order
  persisted := fun i w hplace => by
    have hplace := (hgiven i w).mp hplace
    rw [hfiles i (.inl ⟨w, hplace⟩), hbuffer i (.inl ⟨w, hplace⟩)]
    exact ⟨(h.persisted i w hplace).1, hpulled w _ (h.persisted i w hplace).2⟩
  collected := fun i => by rw [hcollected, haggregator]; exact h.collected i
  retrieving := fun i filename hstage => by
    rw [haggregator] at hstage
    obtain ⟨rfl, hfile, w, hw⟩ := h.retrieving i filename hstage
    have hplace : r.place i = .collected := (h.collected i).mpr (by rw [hstage]; rfl)
    rw [hfiles i (.inr hplace), hbuffer i (.inr (.inl hplace))]
    exact ⟨rfl, hfile, w, hpulled w _ hw⟩
  output := by
    rw [haggregator, h.output]
    refine List.map_congr_left fun i hi => ?_
    rw [hbuffer i (.inr (.inr ((h.mem_stored i).mp hi)))]
  stored_nodup := h.stored_nodup
  mem_stored := fun i => (h.mem_stored i).trans (hstored i).symm
  stored_pulled := fun i hi => by
    obtain ⟨w, hw⟩ := h.stored_pulled i hi
    rw [hbuffer i (.inr (.inr ((h.mem_stored i).mp hi)))]
    exact ⟨w, hpulled w _ hw⟩
  stopped := by rw [hstopped, haggregator]; exact h.stopped

/-- The workers and the aggregator have no part in a step of the supply side. -/
theorem SupplySide.refines (hsupply : ring.SupplySide b r' supplied)
    (hwork : ring.WorkSide a r buffer)
    (hreturn : ring.ReturnSide a r buffer returned registered stored json)
    (hcontent : b.content .aggregator = a.content .aggregator)
    (hworker : ∀ w, workerOf b w = workerOf a w) (haggregator : aggregatorOf b = aggregatorOf a)
    (hfiles : b.shared.files = a.shared.files)
    (hplace : ∀ i, r'.place i = r.place i ∨ r.place i = .waiting ∧ r'.place i = .supplied)
    (hstatus : r'.status = r.status) (hstopped : r'.stopped = r.stopped) : ring.Refines b r' := by
  have hkept : ∀ place : Place ℕ, place ≠ .waiting → place ≠ .supplied →
      ∀ i, r'.place i = place ↔ r.place i = place := by
    intro place hwaiting hsupplied i
    rcases hplace i with heq | ⟨heq, heq'⟩
    · rw [heq]
    · rw [heq, heq']
      exact iff_of_false hsupplied.symm hwaiting.symm
  exact ⟨supplied, buffer, returned, registered, stored, json, hsupply,
    hwork.congr hworker hfiles (fun i w => hkept _ (by simp) (by simp) i)
      fun w => .inl (by rw [hstatus]),
    hreturn.congr hcontent haggregator (fun w => by rw [hworker])
      (fun w => by rw [hworker]; exact fun _ h => h) (fun w => by rw [hworker])
      (fun i _ => by rw [hfiles]) (fun _ _ => rfl) (fun i w => hkept _ (by simp) (by simp) i)
      (hkept _ (by simp) (by simp)) (hkept _ (by simp) (by simp)) (fun w => by rw [hstatus])
      (fun w => by rw [hstatus]) hstopped⟩

/-- A worker pushes to the aggregator's file. -/
theorem ReturnSide.append (h : ring.ReturnSide a r buffer returned registered stored json)
    (entry : Entry)
    (hcontent : b.content .aggregator = some { json with
      datasets := some (json.queue ++ [entry.json ring fun w => (workerOf a w).clientId]) })
    (haggregator : aggregatorOf b = aggregatorOf a)
    (hclientId : ∀ w, (workerOf b w).clientId = (workerOf a w).clientId)
    (hpulled : ∀ w, (workerOf b w).pulled = (workerOf a w).pulled) (hshared : b.shared = a.shared)
    (hnew : entry ∉ returned)
    (hgiven : ∀ i w, r'.place i = .given w ↔ r.place i = .given w ∨ entry = .dataset i w)
    (hended : ∀ w, (workerOf b w).stage = .finished ∧ r'.status w ≠ .gone ↔
      (workerOf a w).stage = .finished ∧ r.status w ≠ .gone ∨ entry = .ended w)
    (horder : (workerOf a entry.worker).stage ≠ .finished)
    (hpersisted : ∀ i w, entry = .dataset i w →
      a.shared.files (ring.outputFile i) = some (buffer i) ∧ (i, buffer i) ∈ (workerOf a w).pulled)
    (hcollected : ∀ i, r'.place i = .collected ↔ r.place i = .collected)
    (hstored : ∀ i, r'.place i = .stored ↔ r.place i = .stored)
    (hstatus : r'.status = r.status) (hstopped : r'.stopped = r.stopped) :
    ∃ json', ring.ReturnSide b r' buffer (returned ++ [entry]) registered stored json' := by
  refine ⟨_, hcontent, ?_, ?_, h.registered_nodup, ?_, h.unregistered_nodup, ?_, ?_, ?_,
    fun i w => ?_, fun w => ?_, ?_, fun i w hplace => ?_, ?_, fun i filename hstage => ?_, ?_,
    h.stored_nodup, fun i => ?_, fun i hi => ?_, ?_⟩
  · simp only [hclientId]
    show json.queue ++ _ = _
    rw [List.map_append, h.queue]
    rfl
  · simp only [hclientId]; exact h.clientIds
  · rw [hstatus]; exact h.mem_registered
  · simp only [hclientId, hstatus]; exact h.unregistered
  · rw [haggregator]; exact h.checking
  · exact h.returned_nodup.append (List.nodup_singleton entry) (by simpa using hnew)
  · rw [hgiven, ← h.given, List.mem_append, List.mem_singleton, @eq_comm _ entry]
  · rw [hended, ← h.ended, List.mem_append, List.mem_singleton, @eq_comm _ entry]
  · refine List.pairwise_append.mpr ⟨h.order, List.pairwise_singleton _ _, ?_⟩
    rintro earlier hmem later hlater w rfl
    rw [List.mem_singleton.mp hlater]
    rintro rfl
    exact horder ((h.ended _).mp hmem).1
  · rw [hshared, hpulled]
    rcases (hgiven i w).mp hplace with hplace | heq
    · exact h.persisted i w hplace
    · exact hpersisted i w heq
  · rw [haggregator]
    exact fun i => (hcollected i).trans (h.collected i)
  · rw [haggregator] at hstage
    rw [hshared]
    simpa only [hpulled] using h.retrieving i filename hstage
  · rw [haggregator]; exact h.output
  · exact (h.mem_stored i).trans (hstored i).symm
  · simpa only [hpulled] using h.stored_pulled i hi
  · rw [hstopped, haggregator]; exact h.stopped

/-! ### The supplier -/

/-! #### What a step leaves as it was -/

theorem frame_supplier (hothers : ∀ other ≠ .supplier, b.locals other = a.locals other) :
    (∀ i, readerOf b i = readerOf a i) ∧ (∀ w, workerOf b w = workerOf a w) ∧
      aggregatorOf b = aggregatorOf a :=
  ⟨fun _ => hothers _ (by simp), fun _ => hothers _ (by simp), hothers _ (by simp)⟩

theorem frame_reader {i : ℕ} (hothers : ∀ other ≠ .reader i, b.locals other = a.locals other) :
    supplierOf b = supplierOf a ∧ (∀ j ≠ i, readerOf b j = readerOf a j) ∧
      (∀ w, workerOf b w = workerOf a w) ∧ aggregatorOf b = aggregatorOf a :=
  ⟨hothers _ (by simp), fun _ hne => hothers _ (by simpa using hne), fun _ => hothers _ (by simp),
    hothers _ (by simp)⟩

theorem frame_worker {w : ℕ} (hothers : ∀ other ≠ .worker w, b.locals other = a.locals other) :
    supplierOf b = supplierOf a ∧ (∀ i, readerOf b i = readerOf a i) ∧
      (∀ v ≠ w, workerOf b v = workerOf a v) ∧ aggregatorOf b = aggregatorOf a :=
  ⟨hothers _ (by simp), fun _ => hothers _ (by simp), fun _ hne => hothers _ (by simpa using hne),
    hothers _ (by simp)⟩

/-- Only an index that its read thread has loaded moves. -/
theorem SupplySide.lt_size (h : ring.SupplySide a r supplied) {i : ℕ}
    (hplace : r.place i ≠ .waiting) : i < ring.size :=
  h.loaded i fun hidle => hplace ((h.waiting i).mpr (.inl hidle))

/-- The supplier goes on towards its end signal. -/
theorem SupplySide.supplier (h : ring.SupplySide a r supplied) (hcontent : b.content = a.content)
    (hreader : ∀ i, readerOf b i = readerOf a i)
    (hstarted : ∀ i, b.shared.started i = true → a.shared.started i = true ∨ i < ring.size)
    (hended : b.shared.ended = a.shared.ended)
    (hgrabbing : (supplierOf b).stage = .grabbing →
      (supplierOf b).readThreads ++ (supplierOf b).datasetsToProvide = List.range ring.size)
    (hjoining : ∀ threads, (supplierOf b).stage = .joining threads →
      ∀ i < ring.size, i ∈ threads ∨ a.shared.ended i = true)
    (hrunning : (supplierOf a).stage ≠ .finished) (hrunning' : (supplierOf b).stage ≠ .finished) :
    ring.SupplySide b r supplied where
  content := by rw [hcontent]; exact h.content
  nodup := h.nodup
  mem := h.mem
  waiting := fun i => by rw [hreader]; exact h.waiting i
  started := fun i hi => (hstarted i hi).elim (h.started i) id
  loaded := fun i => by rw [hreader]; exact h.loaded i
  ended := fun i => by rw [hreader, hended]; exact h.ended i
  grabbing := hgrabbing
  joining := by rw [hended]; exact hjoining
  closed := h.closed.trans (iff_of_false hrunning hrunning')

theorem supplier_act (hR : ring.Refines a r)
    (hact : supplierAct (supplierOf a) a.shared = some (supplierOf b, b.shared))
    (hcontent : b.content = a.content)
    (hothers : ∀ other ≠ .supplier, b.locals other = a.locals other) : ring.Refines b r := by
  obtain ⟨supplied, buffer, returned, registered, stored, json, hsupply, hwork, hreturn⟩ := hR
  obtain ⟨hreader, hworker, haggregator⟩ := frame_supplier hothers
  suffices hside : b.shared.files = a.shared.files ∧ ring.SupplySide b r supplied from
    hside.2.refines hwork hreturn (by rw [hcontent]) hworker haggregator hside.1
      (fun _ => .inl rfl) rfl rfl
  unfold supplierAct at hact
  split at hact
  · rename_i hstage
    have hrange := hsupply.grabbing hstage
    split at hact
    · rename_i i rest hprovide
      have hi : i < ring.size := by
        have hmem : i ∈ (supplierOf a).readThreads ++ (supplierOf a).datasetsToProvide := by
          simp [hprovide]
        rw [hrange] at hmem
        exact List.mem_range.mp hmem
      split at hact
      · rename_i hend
        exact absurd hend (ring.supplyState.lt_endId hi).ne
      · -- the read thread of `i` is started
        simp only [Option.some.injEq, Prod.mk.injEq] at hact
        obtain ⟨hlocal, hshared⟩ := hact
        refine ⟨by rw [← hshared], hsupply.supplier hcontent hreader (fun j hj => ?_)
          (by rw [← hshared]) (fun _ => ?_) (fun threads hjoining => ?_) (by simp [hstage])
          (by simp [← hlocal, hstage])⟩
        · rw [← hshared] at hj
          rcases eq_or_ne j i with rfl | hne
          · exact .inr hi
          · exact .inl (by simpa [hne] using hj)
        · rw [← hlocal, ← hrange, hprovide]
          simp
        · rw [← hlocal, hstage] at hjoining
          cases hjoining
    · -- all threads are started, and are joined one after the other
      rename_i hprovide
      simp only [Option.some.injEq, Prod.mk.injEq] at hact
      obtain ⟨hlocal, hshared⟩ := hact
      refine ⟨by rw [← hshared], hsupply.supplier hcontent hreader (fun j hj => .inl ?_)
        (by rw [← hshared]) (fun hgrabbing => ?_) (fun threads hjoining i hi => ?_)
        (by simp [hstage]) (by simp [← hlocal])⟩
      · rwa [← hshared] at hj
      · rw [← hlocal] at hgrabbing
        cases hgrabbing
      · rw [← hlocal] at hjoining
        cases hjoining
        rw [hprovide, List.append_nil] at hrange
        rw [hrange]
        exact .inl (List.mem_range.mpr hi)
  · rename_i i threads hstage
    split at hact
    · rename_i hended
      simp only [Option.some.injEq, Prod.mk.injEq] at hact
      obtain ⟨hlocal, hshared⟩ := hact
      refine ⟨by rw [← hshared], hsupply.supplier hcontent hreader (fun j hj => .inl ?_)
        (by rw [← hshared]) (fun hgrabbing => ?_) (fun threads' hjoining j hj => ?_)
        (by simp [hstage]) (by simp [← hlocal])⟩
      · rwa [← hshared] at hj
      · rw [← hlocal] at hgrabbing
        cases hgrabbing
      · rw [← hlocal] at hjoining
        cases hjoining
        rcases hsupply.joining _ hstage j hj with hmem | hdone
        · rcases List.mem_cons.mp hmem with rfl | hmem
          · exact .inr hended
          · exact .inl hmem
        · exact .inr hdone
    · cases hact
  · cases hact

theorem supplier_section (hR : ring.Refines a r) {program : Section SupplierState}
    (hsection : supplierSection (supplierOf a) = some program)
    (hexec : program.exec (a.content .supplier) = some (supplierOf b, b.content .supplier))
    (hcontent : ∀ exchange ≠ .supplier, b.content exchange = a.content exchange)
    (hothers : ∀ other ≠ .supplier, b.locals other = a.locals other)
    (hshared : b.shared = a.shared) :
    ∃ r', ring.Refines b r' ∧ Reachable (Ring.step ring.indices) r r' := by
  obtain ⟨supplied, buffer, returned, registered, stored, json, hsupply, hwork, hreturn⟩ := hR
  obtain ⟨hreader, hworker, haggregator⟩ := frame_supplier hothers
  obtain ⟨json', hjson', hqueue⟩ := hsupply.content
  unfold supplierSection at hsection
  split at hsection
  · rename_i hstage
    cases hsection
    rw [hjson', Prog.exec_map, exec_pushDataset, Option.map_some, Option.some.injEq,
      Prod.mk.injEq] at hexec
    obtain ⟨hlocal, hfile⟩ := hexec
    have hopen : r.closed = false := by
      have := hsupply.closed
      simpa [hstage] using this
    have hside : ring.SupplySide b (r.after .close) supplied := by
      refine ⟨⟨_, hfile.symm, ?_⟩, hsupply.nodup, hsupply.mem, ?_, ?_, ?_, ?_, ?_, ?_, ?_⟩
      · rw [Json.queue, Option.getD_some, hqueue, hopen]
        simp [Ring.after]
        rfl
      · intro i; rw [hreader]; exact hsupply.waiting i
      · rw [hshared]; exact hsupply.started
      · intro i; rw [hreader]; exact hsupply.loaded i
      · intro i; rw [hreader, hshared]; exact hsupply.ended i
      · intro hgrabbing
        rw [← hlocal] at hgrabbing
        cases hgrabbing
      · intro threads hjoining
        rw [← hlocal] at hjoining
        cases hjoining
      · rw [← hlocal]
        simp [Ring.after]
    refine ⟨r.after .close, hside.refines hwork hreturn (hcontent _ (by simp)) hworker haggregator
      (by rw [hshared]) (fun _ => .inl rfl) rfl rfl, Ring.reachable_after ?_⟩
    · intro i hi hwaiting
      have hended := (hsupply.joining [] hstage i hi).resolve_left (by simp)
      have hreader := (hsupply.waiting i).mp hwaiting
      rw [hsupply.ended i hended] at hreader
      simp at hreader
  · cases hsection

/-! ### The read threads -/

theorem reader_act (hR : ring.Refines a r) {i : ℕ}
    (hact : ring.readerAct i (readerOf a i) a.shared = some (readerOf b i, b.shared))
    (hcontent : b.content = a.content)
    (hothers : ∀ other ≠ .reader i, b.locals other = a.locals other) : ring.Refines b r := by
  obtain ⟨supplied, buffer, returned, registered, stored, json, hsupply, hwork, hreturn⟩ := hR
  obtain ⟨hsupplier, hreader, hworker, haggregator⟩ := frame_reader hothers
  suffices hside : b.shared.files = a.shared.files ∧ ring.SupplySide b r supplied from
    hside.2.refines hwork hreturn (by rw [hcontent]) hworker haggregator hside.1
      (fun _ => .inl rfl) rfl rfl
  unfold readerAct at hact
  split at hact
  · rename_i hidle
    split at hact
    · -- the thread maps its file
      rename_i hready
      simp only [Option.some.injEq, Prod.mk.injEq] at hact
      obtain ⟨hlocal, hshared⟩ := hact
      refine ⟨by rw [← hshared], ⟨by rw [hcontent]; exact hsupply.content, hsupply.nodup,
        hsupply.mem, fun j => ?_, by rw [← hshared]; exact hsupply.started, fun j hj => ?_,
        fun j hj => ?_, by rw [hsupplier]; exact hsupply.grabbing,
        by rw [hsupplier, ← hshared]; exact hsupply.joining, by rw [hsupplier]; exact hsupply.closed⟩⟩
      · rcases eq_or_ne j i with rfl | hne
        · rw [hsupply.waiting, hidle, ← hlocal]
          simp
        · rw [hreader j hne]
          exact hsupply.waiting j
      · rcases eq_or_ne j i with rfl | hne
        · exact hsupply.started j hready.1
        · rw [hreader j hne] at hj
          exact hsupply.loaded j hj
      · rw [← hshared] at hj
        have hended := hsupply.ended j hj
        rcases eq_or_ne j i with rfl | hne
        · rw [hidle] at hended
          cases hended
        · rw [hreader j hne]
          exact hended
    · cases hact
  · -- the thread has pushed, and ends
    rename_i hpushed
    simp only [Option.some.injEq, Prod.mk.injEq] at hact
    obtain ⟨hlocal, hshared⟩ := hact
    refine ⟨by rw [← hshared], ⟨by rw [hcontent]; exact hsupply.content, hsupply.nodup,
      hsupply.mem, fun j => ?_, by rw [← hshared]; exact hsupply.started, fun j hj => ?_,
      fun j hj => ?_, by rw [hsupplier]; exact hsupply.grabbing, fun threads hjoining j hj => ?_,
      by rw [hsupplier]; exact hsupply.closed⟩⟩
    · rcases eq_or_ne j i with rfl | hne
      · rw [hsupply.waiting, hpushed, ← hlocal]
        simp
      · rw [hreader j hne]
        exact hsupply.waiting j
    · rcases eq_or_ne j i with rfl | hne
      · exact hsupply.loaded j (by rw [hpushed]; simp)
      · rw [hreader j hne] at hj
        exact hsupply.loaded j hj
    · rcases eq_or_ne j i with rfl | hne
      · exact hlocal.symm
      · rw [hreader j hne]
        rw [← hshared] at hj
        exact hsupply.ended j (by simpa [hne] using hj)
    · rw [hsupplier] at hjoining
      rw [← hshared]
      rcases eq_or_ne j i with rfl | hne
      · exact .inr (Function.update_self ..)
      · simpa [hne] using hsupply.joining threads hjoining j hj
  · cases hact

theorem reader_section (hR : ring.Refines a r) (hsafe : r.Safe ring.indices) {i : ℕ}
    {program : Section ReaderState}
    (hsection : ring.readerSection i (readerOf a i) = some program)
    (hexec : program.exec (a.content .supplier) = some (readerOf b i, b.content .supplier))
    (hcontent : ∀ exchange ≠ .supplier, b.content exchange = a.content exchange)
    (hothers : ∀ other ≠ .reader i, b.locals other = a.locals other)
    (hshared : b.shared = a.shared) :
    ∃ r', ring.Refines b r' ∧ Reachable (Ring.step ring.indices) r r' := by
  obtain ⟨supplied, buffer, returned, registered, stored, json, hsupply, hwork, hreturn⟩ := hR
  obtain ⟨hsupplier, hreader, hworker, haggregator⟩ := frame_reader hothers
  obtain ⟨json', hjson', hqueue⟩ := hsupply.content
  unfold readerSection at hsection
  split at hsection
  · rename_i hloaded
    cases hsection
    rw [hjson', Prog.exec_map, exec_pushDataset, Option.map_some, Option.some.injEq,
      Prod.mk.injEq] at hexec
    obtain ⟨hlocal, hfile⟩ := hexec
    have hi : i < ring.size := hsupply.loaded i (by rw [hloaded]; simp)
    have hwaiting : r.place i = .waiting := (hsupply.waiting i).mpr (.inr hloaded)
    have hopen : r.closed = false := by
      by_contra hclosed
      exact hsafe.closed (by simpa using hclosed) i hi hwaiting
    have hnew : i ∉ supplied := by
      rw [hsupply.mem, hwaiting]
      simp
    have hside : ring.SupplySide b (r.after (.supply i)) (supplied ++ [i]) := by
      refine ⟨⟨_, hfile.symm, ?_⟩, ?_, fun j => ?_, fun j => ?_, ?_, fun j hj => ?_, fun j hj => ?_,
        ?_, ?_, ?_⟩
      · rw [Json.queue, Option.getD_some, hqueue, hopen]
        simp [Ring.after, Ring.move, hopen]
        rfl
      · exact hsupply.nodup.append (List.nodup_singleton i) (by simpa using hnew)
      · rw [List.mem_append, List.mem_singleton, hsupply.mem, Ring.after, Ring.place_move]
        rcases eq_or_ne j i with rfl | hne
        · simp
        · simp [hne]
      · rw [Ring.after, Ring.place_move]
        rcases eq_or_ne j i with rfl | hne
        · simp [← hlocal]
        · rw [if_neg hne, hreader j hne]
          exact hsupply.waiting j
      · rw [hshared]; exact hsupply.started
      · rcases eq_or_ne j i with rfl | hne
        · exact hi
        · rw [hreader j hne] at hj
          exact hsupply.loaded j hj
      · rw [hshared] at hj
        have hended := hsupply.ended j hj
        rcases eq_or_ne j i with rfl | hne
        · rw [hloaded] at hended
          cases hended
        · rw [hreader j hne]
          exact hended
      · rw [hsupplier]; exact hsupply.grabbing
      · rw [hsupplier, hshared]; exact hsupply.joining
      · rw [hsupplier]; exact hsupply.closed
    refine ⟨_, hside.refines hwork hreturn (hcontent _ (by simp)) hworker haggregator
      (by rw [hshared]) (fun j => ?_) rfl rfl, Ring.reachable_after ⟨hi, hwaiting⟩⟩
    rw [Ring.after, Ring.place_move]
    rcases eq_or_ne j i with rfl | hne
    · exact .inr ⟨hwaiting, by simp⟩
    · exact .inl (if_neg hne)
  · cases hsection

/-! ### The workers -/

/-- What a worker needs. -/
structure Working (b : Atomic) (r' : Ring ℕ ℕ) (buffer : ℕ → Bytes) (w : ℕ) : Prop where
  held : ∀ i, r'.place i = .held w ↔ (workerOf b w).stage.index = some i
  status : r'.status w = (workerOf b w).stage.status ∨
    (workerOf b w).stage = .finished ∧ r'.status w = .gone
  retrieving : ∀ i filename, (workerOf b w).stage = .retrieving i filename →
    filename = ring.inputFile i
  persisting : ∀ i, (workerOf b w).stage = .persisting i →
    (workerOf b w).dataset.id = datasetName i ∧ (workerOf b w).dataset.buffer = buffer i ∧
      (i, buffer i) ∈ (workerOf b w).pulled
  pushing : ∀ i, (workerOf b w).stage = .pushing i →
    (workerOf b w).dataset.getFilename = some (ring.outputFile i) ∧
      b.shared.files (ring.outputFile i) = some (buffer i) ∧
      (i, buffer i) ∈ (workerOf b w).pulled
  pulled : ring.Separate → ∀ entry ∈ (workerOf b w).pulled,
    ring.files (ring.inputFile entry.1) = some entry.2

theorem WorkSide.working (h : ring.WorkSide a r buffer) (w : ℕ) : ring.Working a r buffer w :=
  ⟨fun i => h.held i w, h.status w, h.retrieving w, h.persisting w, h.pushing w,
    fun hseparate => h.pulled hseparate w⟩

/-- A step of worker `w` leaves what the other workers hold as it was. -/
theorem WorkSide.worker {buffer' : ℕ → Bytes} {w : ℕ} (h : ring.WorkSide a r buffer)
    (hworker : ∀ v ≠ w, workerOf b v = workerOf a v)
    (hheld : ∀ v ≠ w, ∀ i, r'.place i = .held v ↔ r.place i = .held v)
    (hstatus : ∀ v ≠ w, r'.status v = r.status v)
    (hbuffer : ∀ v ≠ w, ∀ i, r.place i = .held v → buffer' i = buffer i ∧
      b.shared.files (ring.outputFile i) = a.shared.files (ring.outputFile i))
    (hfiles : ring.Separate → ∀ i < ring.size,
      b.shared.files (ring.inputFile i) = ring.files (ring.inputFile i))
    (hw : ring.Working b r' buffer' w) : ring.WorkSide b r' buffer' := by
  have hall : ∀ v, ring.Working b r' buffer' v := by
    intro v
    rcases eq_or_ne v w with rfl | hne
    · exact hw
    · -- what `v` holds lies at an index of its own
      have hv := h.working v
      refine ⟨fun i => ?_, ?_, ?_, fun i hstage => ?_, fun i hstage => ?_, ?_⟩
      · rw [hheld v hne, hworker v hne]; exact hv.held i
      · rw [hstatus v hne, hworker v hne]; exact hv.status
      · rw [hworker v hne]; exact hv.retrieving
      · rw [hworker v hne] at hstage ⊢
        have hplace : r.place i = .held v := (hv.held i).mpr (by rw [hstage]; rfl)
        rw [(hbuffer v hne i hplace).1]
        exact hv.persisting i hstage
      · rw [hworker v hne] at hstage ⊢
        have hplace : r.place i = .held v := (hv.held i).mpr (by rw [hstage]; rfl)
        rw [(hbuffer v hne i hplace).1, (hbuffer v hne i hplace).2]
        exact hv.pushing i hstage
      · rw [hworker v hne]; exact hv.pulled
  exact ⟨fun i v => (hall v).held i, fun v => (hall v).status, fun v => (hall v).retrieving,
    fun v => (hall v).persisting, fun v => (hall v).pushing,
    fun hseparate v => (hall v).pulled hseparate, hfiles⟩

/-- Worker `w` goes on with what it holds, and nothing moves. -/
theorem Working.refines {buffer' : ℕ → Bytes} {w : ℕ} (hw : ring.Working b r buffer' w)
    (hsupply : ring.SupplySide a r supplied) (hwork : ring.WorkSide a r buffer)
    (hreturn : ring.ReturnSide a r buffer returned registered stored json)
    (hcontent : b.content = a.content)
    (hothers : ∀ other ≠ .worker w, b.locals other = a.locals other)
    (hclientId : (workerOf b w).clientId = (workerOf a w).clientId)
    (hpulled : ∀ entry ∈ (workerOf a w).pulled, entry ∈ (workerOf b w).pulled)
    (hrunning : (workerOf a w).stage ≠ .finished) (hrunning' : (workerOf b w).stage ≠ .finished)
    (hstarted : b.shared.started = a.shared.started) (hended : b.shared.ended = a.shared.ended)
    (hbuffer : ∀ i, r.place i ≠ .held w → buffer' i = buffer i ∧
      b.shared.files (ring.outputFile i) = a.shared.files (ring.outputFile i))
    (hfiles : ring.Separate → ∀ i < ring.size,
      b.shared.files (ring.inputFile i) = ring.files (ring.inputFile i)) : ring.Refines b r := by
  obtain ⟨hsupplier, hreader, hworker, haggregator⟩ := frame_worker hothers
  refine ⟨supplied, buffer', returned, registered, stored, json,
    hsupply.congr (by rw [hcontent]) hsupplier hreader hstarted hended (fun _ => .rfl)
      (fun _ => .rfl) rfl,
    hwork.worker hworker (fun _ _ _ => .rfl) (fun _ _ => rfl)
      (fun v hv i hplace => hbuffer i (by rw [hplace]; simpa using hv)) hfiles hw,
    hreturn.congr (by rw [hcontent]) haggregator (fun v => ?_) (fun v entry hentry => ?_)
      (fun v => ?_) (fun i hplace => (hbuffer i ?_).2) (fun i hplace => (hbuffer i ?_).1)
      (fun _ _ => .rfl) (fun _ => .rfl) (fun _ => .rfl) (fun _ => .rfl) (fun _ => .rfl) rfl⟩
  · rcases eq_or_ne v w with rfl | hne
    · exact hclientId
    · rw [hworker v hne]
  · rcases eq_or_ne v w with rfl | hne
    · exact hpulled entry hentry
    · rwa [hworker v hne]
  · rcases eq_or_ne v w with rfl | hne
    · exact iff_of_false hrunning' hrunning
    · rw [hworker v hne]
  · rcases hplace with ⟨v, hplace⟩ | hplace <;> simp [hplace]
  · rcases hplace with ⟨v, hplace⟩ | hplace | hplace <;> simp [hplace]

section WorkerActs

variable {w : ℕ} (hcontent : b.content = a.content)
  (hothers : ∀ other ≠ .worker w, b.locals other = a.locals other)
  (hsupply : ring.SupplySide a r supplied) (hwork : ring.WorkSide a r buffer)
  (hreturn : ring.ReturnSide a r buffer returned registered stored json)

include hcontent hothers hsupply hwork hreturn

/-- The worker has started. -/
theorem worker_connects (hstage : (workerOf a w).stage = .starting)
    (hlocal : { workerOf a w with stage := .connected } = workerOf b w)
    (hshared : a.shared = b.shared) : ring.Refines b r := by
  have hw := hwork.working w
  have hstatus := hw.status
  have hheld := hw.held
  rw [hstage] at hstatus hheld
  have hgoes : ring.Working b r buffer w :=
    ⟨by rw [← hlocal]; exact hheld, by rw [← hlocal]; simpa using hstatus, by simp [← hlocal],
      by simp [← hlocal], by simp [← hlocal], by rw [← hlocal]; exact hw.pulled⟩
  exact hgoes.refines hsupply hwork hreturn hcontent hothers (by rw [← hlocal])
    (by rw [← hlocal]; exact fun _ h => h) (by simp [hstage]) (by simp [← hlocal])
    (by rw [hshared]) (by rw [hshared]) (fun _ _ => ⟨rfl, by rw [hshared]⟩)
    (by rw [← hshared]; exact hwork.files)

/-- The worker has read the file of the dataset that it holds. -/
theorem worker_retrieves {i : ℕ} {filename : Bytes} {dataset : Dataset}
    (hstage : (workerOf a w).stage = .retrieving i filename)
    (hretrieve :
      (workerOf a w).dataset.retrieveBufferFromFile a.shared.files filename = .ok dataset)
    (hlocal : { workerOf a w with
      stage := .persisting i
      dataset := dataset.setId (datasetName i)
      pulled := (i, dataset.buffer) :: (workerOf a w).pulled } = workerOf b w)
    (hshared : a.shared = b.shared) : ring.Refines b r := by
  have hw := hwork.working w
  obtain rfl := hw.retrieving i filename hstage
  have hplace : r.place i = .held w := (hw.held i).mpr (by rw [hstage]; rfl)
  have hstatus := hw.status
  have hheld := hw.held
  rw [hstage] at hstatus hheld
  obtain ⟨content, hfile, rfl⟩ := Dataset.retrieveBufferFromFile_eq_ok hretrieve
  have hgoes : ring.Working b r (Function.update buffer i content) w := by
    refine ⟨by rw [← hlocal]; exact hheld, by rw [← hlocal]; simpa using hstatus,
      by simp [← hlocal], fun j hj => ?_, by simp [← hlocal], fun hseparate entry hentry => ?_⟩
    · rw [← hlocal] at hj ⊢
      cases hj
      simp [Dataset.setId]
    · rw [← hlocal] at hentry
      rcases List.mem_cons.mp hentry with rfl | hentry
      · rw [← hwork.files hseparate i (hsupply.lt_size (by simp [hplace]))]
        exact hfile
      · exact hw.pulled hseparate entry hentry
  refine hgoes.refines hsupply hwork hreturn hcontent hothers (by rw [← hlocal])
    (by rw [← hlocal]; exact fun _ h => List.mem_cons_of_mem _ h) (by simp [hstage])
    (by simp [← hlocal]) (by rw [hshared]) (by rw [hshared])
    (fun j hj => ⟨Function.update_of_ne ?_ _ _, by rw [hshared]⟩)
    (by rw [← hshared]; exact hwork.files)
  rintro rfl
  exact hj hplace

/-- The worker has written what it has read to the file of its result. -/
theorem worker_persists {i : ℕ} {files : Files} (hstage : (workerOf a w).stage = .persisting i)
    (hpersist : ((workerOf a w).dataset.setData ring.outputDirectory).persist a.shared.files =
      some files)
    (hlocal : { workerOf a w with
      stage := .pushing i
      dataset := ((workerOf a w).dataset.setData ring.outputDirectory).releaseBuffer } =
        workerOf b w)
    (hshared : { a.shared with files := files } = b.shared) : ring.Refines b r := by
  have hw := hwork.working w
  have hplace : r.place i = .held w := (hw.held i).mpr (by rw [hstage]; rfl)
  have hstatus := hw.status
  have hheld := hw.held
  obtain ⟨hid, hbuffer, hentry⟩ := hw.persisting i hstage
  rw [hstage] at hstatus hheld
  have hname : (((workerOf a w).dataset.setData ring.outputDirectory).getFilename) =
      some (ring.outputFile i) := by
    simp only [Dataset.setData, Dataset.getFilename, Option.map_some, hid]
    rfl
  rw [Dataset.persist, hname, Option.map_some, Option.some.injEq] at hpersist
  have hfiles : b.shared.files =
      Function.update a.shared.files (ring.outputFile i) (some (buffer i)) := by
    rw [← hshared, ← hbuffer, ← hpersist]
    rfl
  have hgoes : ring.Working b r buffer w := by
    refine ⟨by rw [← hlocal]; exact hheld, by rw [← hlocal]; simpa using hstatus,
      by simp [← hlocal], by simp [← hlocal], fun j hj => ?_, by rw [← hlocal]; exact hw.pulled⟩
    rw [← hlocal] at hj ⊢
    cases hj
    exact ⟨hname, by rw [hfiles, Function.update_self], hentry⟩
  refine hgoes.refines hsupply hwork hreturn hcontent hothers (by rw [← hlocal])
    (by rw [← hlocal]; exact fun _ h => h) (by simp [hstage]) (by simp [← hlocal])
    (by rw [← hshared]) (by rw [← hshared]) (fun j hj => ⟨rfl, ?_⟩) fun hseparate j hj => ?_
  · -- no other dataset has this file
    rw [hfiles, Function.update_of_ne]
    intro heq
    rw [datasetFile_injective heq] at hj
    exact hj hplace
  · rw [hfiles]
    by_cases heq : ring.inputFile j = ring.outputFile i
    · -- the worker writes what it has read from this file
      obtain rfl := hseparate i (hsupply.lt_size (by simp [hplace])) j hj heq.symm
      rw [heq, Function.update_self, ← heq]
      exact (hw.pulled hseparate _ hentry).symm
    · rw [Function.update_of_ne heq]
      exact hwork.files hseparate j hj

end WorkerActs

theorem worker_act (hR : ring.Refines a r) {w : ℕ}
    (hact : ring.workerAct (workerOf a w) a.shared = some (workerOf b w, b.shared))
    (hcontent : b.content = a.content)
    (hothers : ∀ other ≠ .worker w, b.locals other = a.locals other) : ring.Refines b r := by
  obtain ⟨supplied, buffer, returned, registered, stored, json, hsupply, hwork, hreturn⟩ := hR
  unfold workerAct at hact
  split at hact
  · rename_i hstage
    simp only [Option.some.injEq, Prod.mk.injEq] at hact
    exact worker_connects hcontent hothers hsupply hwork hreturn hstage hact.1 hact.2
  · rename_i i filename hstage
    split at hact
    · rename_i dataset hretrieve
      simp only [Option.some.injEq, Prod.mk.injEq] at hact
      exact worker_retrieves hcontent hothers hsupply hwork hreturn hstage hretrieve hact.1 hact.2
    · cases hact
  · rename_i i hstage
    obtain ⟨files, hpersist, hact⟩ := Option.map_eq_some_iff.mp hact
    simp only [Prod.mk.injEq] at hact
    exact worker_persists hcontent hothers hsupply hwork hreturn hstage hpersist hact.1 hact.2
  · cases hact

/-! #### Sections of a worker -/

/-- What the return side sees of a worker that goes on to another stage. -/
theorem worker_unchanged {w : ℕ} {stage : WorkerStage}
    (hothers : ∀ other ≠ .worker w, b.locals other = a.locals other)
    (hlocal : workerOf b w = { workerOf a w with stage := stage })
    (hrunning : (workerOf a w).stage ≠ .finished) (hrunning' : stage ≠ .finished) (v : ℕ) :
    (workerOf b v).clientId = (workerOf a v).clientId ∧
      (workerOf b v).pulled = (workerOf a v).pulled ∧
      ((workerOf b v).stage = .finished ↔ (workerOf a v).stage = .finished) := by
  rcases eq_or_ne v w with rfl | hne
  · rw [hlocal]
    exact ⟨rfl, rfl, iff_of_false hrunning' hrunning⟩
  · have hworker : workerOf b v = workerOf a v := hothers _ (by simpa using hne)
    rw [hworker]
    exact ⟨rfl, rfl, Iff.rfl⟩

section WorkerSections

variable {w : ℕ} (hothers : ∀ other ≠ .worker w, b.locals other = a.locals other)
  (hshared : b.shared = a.shared) (hsupply : ring.SupplySide a r supplied)
  (hwork : ring.WorkSide a r buffer)
  (hreturn : ring.ReturnSide a r buffer returned registered stored json)

include hothers hshared hsupply hwork hreturn

/-- The worker is registered. -/
theorem worker_registers (hsupplied : b.content .supplier = a.content .supplier)
    (hstage : (workerOf a w).stage = .connected)
    (hlocal : workerOf b w = { workerOf a w with
      stage := .pulling, clientId := (json.clientIds.length + 1) % 2 ^ 32 })
    (hfile : b.content .aggregator = some { json with
      clients := some (json.clientIds ++ [(json.clientIds.length + 1) % 2 ^ 32]) }) :
    ring.Refines b (r.after (.join w)) ∧ r.Enabled ring.indices (.join w) := by
  obtain ⟨hsupplier, hreader, hworker, haggregator⟩ := frame_worker hothers
  have hw := hwork.working w
  have habsent : r.status w = .absent := by
    have := hw.status
    simpa [hstage] using this
  have hheld : ∀ i, r.place i ≠ .held w := fun i hplace => by
    have := (hw.held i).mp hplace
    simp [hstage] at this
  have hnew : w ∉ registered := fun hmem => (hreturn.mem_registered w).mp hmem habsent
  have hclientId : ∀ v ≠ w, (workerOf b v).clientId = (workerOf a v).clientId :=
    fun v hv => by rw [hworker v hv]
  have hpulled : ∀ v, (workerOf b v).pulled = (workerOf a v).pulled := by
    intro v
    rcases eq_or_ne v w with rfl | hne
    · rw [hlocal]
    · rw [hworker v hne]
  have hended : .ended w ∉ returned := fun hmem => by
    have := ((hreturn.ended w).mp hmem).1
    simp [hstage] at this
  have hgoes : ring.Working b (r.after (.join w)) buffer w := by
    refine ⟨fun i => ?_, .inl ?_, by simp [hlocal], by simp [hlocal], by simp [hlocal], ?_⟩
    · rw [hlocal]
      exact iff_of_false (hheld i) (by simp)
    · rw [hlocal, Ring.after, Ring.status_become, if_pos rfl]
      rfl
    · rw [hlocal]; exact hw.pulled
  refine ⟨⟨supplied, buffer, returned, registered ++ [w], stored, _,
    hsupply.congr hsupplied hsupplier hreader (by rw [hshared]) (by rw [hshared]) (fun _ => .rfl)
      (fun _ => .rfl) rfl,
    hwork.worker hworker (fun _ _ _ => .rfl)
      (fun v hv => by rw [Ring.after, Ring.status_become, if_neg hv])
      (fun _ _ _ _ => ⟨rfl, by rw [hshared]⟩) (by rw [hshared]; exact hwork.files) hgoes,
    ⟨hfile, ?_, ?_, ?_, fun v => ?_, hreturn.unregistered_nodup, fun id hid => ?_, ?_,
      hreturn.returned_nodup, hreturn.given, fun v => ?_, hreturn.order, fun i v hplace => ?_, ?_,
      fun i filename hretrieving => ?_, ?_, hreturn.stored_nodup, hreturn.mem_stored,
      fun i hi => ?_, ?_⟩⟩, habsent⟩
  · show json.queue = _
    rw [hreturn.queue]
    refine List.map_congr_left fun entry hentry => ?_
    cases entry with
    | dataset i v => rfl
    | ended v =>
        -- a worker that has ended is not the one that registers
        have hne : v ≠ w := by
          rintro rfl
          exact hended hentry
        simp only [Entry.json, hclientId v hne]
  · show json.clientIds ++ _ = _
    rw [hreturn.clientIds, List.map_append]
    congr 1
    · refine List.map_congr_left fun v hv => (hclientId v ?_).symm
      rintro rfl
      exact hnew hv
    · simp [hlocal, hreturn.clientIds]
  · exact hreturn.registered_nodup.append (List.nodup_singleton w) (by simpa using hnew)
  · rw [List.mem_append, List.mem_singleton, hreturn.mem_registered, Ring.after,
      Ring.status_become]
    rcases eq_or_ne v w with rfl | hne
    · simp
    · simp [hne]
  · obtain ⟨v, hv, hid, hgone⟩ := hreturn.unregistered id hid
    have hne : v ≠ w := by
      rintro rfl
      exact hnew hv
    refine ⟨v, List.mem_append_left _ hv, by rw [hclientId v hne, hid], ?_⟩
    rw [Ring.after, Ring.status_become, if_neg hne]
    exact hgone
  · rw [haggregator]; exact hreturn.checking
  · rw [hreturn.ended, Ring.after, Ring.status_become]
    rcases eq_or_ne v w with rfl | hne
    · simp [hstage, hlocal]
    · rw [hworker v hne, if_neg hne]
  · rw [hshared, hpulled]; exact hreturn.persisted i v hplace
  · rw [haggregator]; exact hreturn.collected
  · rw [haggregator] at hretrieving
    rw [hshared]
    simpa only [hpulled] using hreturn.retrieving i filename hretrieving
  · rw [haggregator]; exact hreturn.output
  · simpa only [hpulled] using hreturn.stored_pulled i hi
  · rw [haggregator]; exact hreturn.stopped

/-- The worker has pulled a dataset. -/
theorem worker_pulls {i : ℕ} {rest : List ℕ} (hsupplied : supplied = i :: rest)
    (haggregatorFile : b.content .aggregator = a.content .aggregator)
    (hstage : (workerOf a w).stage = .pulling)
    (hlocal : workerOf b w = { workerOf a w with stage := .retrieving i (ring.inputFile i) })
    (hfile : ∃ json', b.content .supplier = some json' ∧
      json'.queue = rest.map ring.inputJson ++ if r.closed = true then [endJson endId] else []) :
    ring.Refines b (r.after (.take w i)) ∧ r.Enabled ring.indices (.take w i) := by
  obtain ⟨hsupplier, hreader, hworker, haggregator⟩ := frame_worker hothers
  have hw := hwork.working w
  have hactive : r.status w = .active := by
    have := hw.status
    simpa [hstage] using this
  have hplace : r.place i = .supplied := (hsupply.mem i).mp (by simp [hsupplied])
  have hnodup := hsupply.nodup
  rw [hsupplied, List.nodup_cons] at hnodup
  have hmoved : ∀ {j} {place : Place ℕ}, place ≠ .supplied → place ≠ .held w →
      ((r.after (.take w i)).place j = place ↔ r.place j = place) := by
    intro j place hfrom hto
    exact r.place_move_iff (hplace ▸ hfrom.symm) hto.symm
  have hgoes : ring.Working b (r.after (.take w i)) buffer w := by
    refine ⟨fun j => ?_, .inl ?_, fun j filename hj => ?_, by simp [hlocal], by simp [hlocal], ?_⟩
    · rw [hlocal, Ring.after, Ring.place_move]
      rcases eq_or_ne j i with rfl | hne
      · simp
      · rw [if_neg hne, hw.held, hstage]
        simp [hne.symm]
    · rw [hlocal]; exact hactive
    · rw [hlocal] at hj
      cases hj
      rfl
    · rw [hlocal]; exact hw.pulled
  have hunchanged := worker_unchanged hothers hlocal (by simp [hstage]) (by simp)
  refine ⟨⟨rest, buffer, returned, registered, stored, json, ⟨hfile, hnodup.2, fun j => ?_,
      fun j => ?_, ?_, ?_, ?_, ?_, ?_, ?_⟩,
    hwork.worker hworker (fun v hv j => hmoved (by simp) (by simpa using hv)) (fun _ _ => rfl)
      (fun _ _ _ _ => ⟨rfl, by rw [hshared]⟩) (by rw [hshared]; exact hwork.files) hgoes,
    hreturn.congr haggregatorFile haggregator (fun v => (hunchanged v).1)
      (fun v _ h => (hunchanged v).2.1 ▸ h) (fun v => (hunchanged v).2.2)
      (fun _ _ => by rw [hshared]) (fun _ _ => rfl) (fun j v => hmoved (by simp) (by simp))
      (fun j => hmoved (by simp) (by simp)) (fun j => hmoved (by simp) (by simp)) (fun _ => .rfl)
      (fun _ => .rfl) rfl⟩, hactive, hplace⟩
  · rw [Ring.after, Ring.place_move]
    rcases eq_or_ne j i with rfl | hne
    · simpa using hnodup.1
    · rw [if_neg hne, ← hsupply.mem, hsupplied]
      simp [hne]
  · rw [hmoved (by simp) (by simp), hreader]; exact hsupply.waiting j
  · rw [hshared]; exact hsupply.started
  · simpa only [hreader] using hsupply.loaded
  · simpa only [hreader, hshared] using hsupply.ended
  · rw [hsupplier]; exact hsupply.grabbing
  · rw [hsupplier, hshared]; exact hsupply.joining
  · rw [hsupplier]; exact hsupply.closed

/-- The worker has pulled the end signal. -/
theorem worker_finishes (hempty : supplied = []) (hclosed : r.closed = true)
    (hcontent : b.content = a.content) (hstage : (workerOf a w).stage = .pulling)
    (hlocal : workerOf b w = { workerOf a w with stage := .ending }) :
    ring.Refines b (r.after (.finish w)) ∧ r.Enabled ring.indices (.finish w) := by
  obtain ⟨hsupplier, hreader, hworker, haggregator⟩ := frame_worker hothers
  have hw := hwork.working w
  have hactive : r.status w = .active := by
    have := hw.status
    simpa [hstage] using this
  have hheld : ∀ i, r.place i ≠ .held w := fun i hplace => by
    have := (hw.held i).mp hplace
    simp [hstage] at this
  have hbecomes : ∀ {v} {status : Status}, status ≠ .active → status ≠ .finished →
      ((r.after (.finish w)).status v = status ↔ r.status v = status) := by
    intro v status hstatus hstatus'
    rw [Ring.after, Ring.status_become]
    rcases eq_or_ne v w with rfl | hne
    · rw [if_pos rfl, hactive]
      exact iff_of_false hstatus'.symm hstatus.symm
    · rw [if_neg hne]
  have hgoes : ring.Working b (r.after (.finish w)) buffer w := by
    refine ⟨fun i => ?_, .inl ?_, by simp [hlocal], by simp [hlocal], by simp [hlocal], ?_⟩
    · rw [hlocal]
      exact iff_of_false (hheld i) (by simp)
    · rw [hlocal, Ring.after, Ring.status_become, if_pos rfl]
      rfl
    · rw [hlocal]; exact hw.pulled
  have hunchanged := worker_unchanged hothers hlocal (by simp [hstage]) (by simp)
  refine ⟨⟨supplied, buffer, returned, registered, stored, json,
    hsupply.congr (by rw [hcontent]) hsupplier hreader (by rw [hshared]) (by rw [hshared])
      (fun _ => .rfl) (fun _ => .rfl) rfl,
    hwork.worker hworker (fun _ _ _ => .rfl)
      (fun v hv => by rw [Ring.after, Ring.status_become, if_neg hv])
      (fun _ _ _ _ => ⟨rfl, by rw [hshared]⟩) (by rw [hshared]; exact hwork.files) hgoes,
    hreturn.congr (by rw [hcontent]) haggregator (fun v => (hunchanged v).1)
      (fun v _ h => (hunchanged v).2.1 ▸ h) (fun v => (hunchanged v).2.2)
      (fun _ _ => by rw [hshared]) (fun _ _ => rfl) (fun _ _ => .rfl) (fun _ => .rfl)
      (fun _ => .rfl) (fun v => hbecomes (by simp) (by simp))
      (fun v => hbecomes (by simp) (by simp)) rfl⟩,
    hactive, hclosed, fun i => ⟨fun hplace => ?_, hheld i⟩⟩
  · have := (hsupply.mem i).mpr hplace
    simp [hempty] at this

/-- The worker has pushed a dataset. -/
theorem worker_pushes {i : ℕ} (hsupplied : b.content .supplier = a.content .supplier)
    (hstage : (workerOf a w).stage = .pushing i)
    (hlocal : workerOf b w = { workerOf a w with stage := .pulling })
    (hfile : b.content .aggregator = some { json with
      datasets := some (json.queue ++ [⟨i, ring.outputFile i, none⟩]) }) :
    ring.Refines b (r.after (.give w i)) ∧ r.Enabled ring.indices (.give w i) := by
  obtain ⟨hsupplier, hreader, hworker, haggregator⟩ := frame_worker hothers
  have hw := hwork.working w
  have hactive : r.status w = .active := by
    have := hw.status
    simpa [hstage] using this
  have hplace : r.place i = .held w := (hw.held i).mpr (by rw [hstage]; rfl)
  obtain ⟨-, hpersisted⟩ := hw.pushing i hstage
  have hmoved : ∀ {j} {place : Place ℕ}, place ≠ .held w → place ≠ .given w →
      ((r.after (.give w i)).place j = place ↔ r.place j = place) := by
    intro j place hfrom hto
    exact r.place_move_iff (hplace ▸ hfrom.symm) hto.symm
  have hgoes : ring.Working b (r.after (.give w i)) buffer w := by
    refine ⟨fun j => ?_, .inl ?_, by simp [hlocal], by simp [hlocal], by simp [hlocal], ?_⟩
    · rw [hlocal, Ring.after, Ring.place_move]
      rcases eq_or_ne j i with rfl | hne
      · simp
      · rw [if_neg hne, hw.held, hstage]
        simp [hne.symm]
    · rw [hlocal]; exact hactive
    · rw [hlocal]; exact hw.pulled
  have hunchanged := worker_unchanged hothers hlocal (by simp [hstage]) (by simp)
  obtain ⟨json', hreturn'⟩ : ∃ json', ring.ReturnSide b (r.after (.give w i)) buffer
      (returned ++ [.dataset i w]) registered stored json' := hreturn.append (.dataset i w) hfile
    haggregator (fun v => (hunchanged v).1) (fun v => (hunchanged v).2.1) hshared
    (fun hmem => by
      rw [(hreturn.given i w).mp hmem] at hplace
      cases hplace)
    (fun j v => by
      rw [Ring.after, Ring.place_move]
      rcases eq_or_ne j i with rfl | hne
      · simp [hplace]
      · simp [hne, hne.symm])
    (fun v => by
      rw [(hunchanged v).2.2]
      simp [Ring.after, Ring.move])
    (by simp [Entry.worker, hstage])
    (fun j v heq => by
      cases heq
      exact hpersisted)
    (fun j => hmoved (by simp) (by simp)) (fun j => hmoved (by simp) (by simp)) rfl rfl
  exact ⟨⟨supplied, buffer, returned ++ [.dataset i w], registered, stored, json',
    hsupply.congr hsupplied hsupplier hreader (by rw [hshared]) (by rw [hshared])
      (fun j => hmoved (by simp) (by simp)) (fun j => hmoved (by simp) (by simp)) rfl,
    hwork.worker hworker (fun v hv j => hmoved (by simpa using hv) (by simp)) (fun _ _ => rfl)
      (fun _ _ _ _ => ⟨rfl, by rw [hshared]⟩) (by rw [hshared]; exact hwork.files) hgoes,
    hreturn'⟩, hplace⟩

/-- The worker has pushed its end signal. -/
theorem worker_ends (hsupplied : b.content .supplier = a.content .supplier)
    (hstage : (workerOf a w).stage = .ending)
    (hlocal : workerOf b w = { workerOf a w with stage := .finished })
    (hfile : b.content .aggregator = some { json with
      datasets := some (json.queue ++ [endJson (workerOf a w).clientId]) }) :
    ring.Refines b r := by
  obtain ⟨hsupplier, hreader, hworker, haggregator⟩ := frame_worker hothers
  have hw := hwork.working w
  have hstatus : r.status w = .finished := by
    have := hw.status
    simpa [hstage] using this
  have hheld := hw.held
  rw [hstage] at hheld
  have hgoes : ring.Working b r buffer w :=
    ⟨by rw [hlocal]; exact hheld, by rw [hlocal]; exact .inl hstatus, by simp [hlocal],
      by simp [hlocal], by simp [hlocal], by rw [hlocal]; exact hw.pulled⟩
  have hunchanged : ∀ v, (workerOf b v).clientId = (workerOf a v).clientId ∧
      (workerOf b v).pulled = (workerOf a v).pulled := by
    intro v
    rcases eq_or_ne v w with rfl | hne
    · simp [hlocal]
    · simp [hworker v hne]
  obtain ⟨json', hreturn'⟩ : ∃ json', ring.ReturnSide b r buffer (returned ++ [.ended w])
      registered stored json' := hreturn.append (.ended w) hfile haggregator
    (fun v => (hunchanged v).1) (fun v => (hunchanged v).2) hshared
    (fun hmem => by
      have := ((hreturn.ended w).mp hmem).1
      simp [hstage] at this)
    (fun j v => by simp)
    (fun v => by
      rcases eq_or_ne v w with rfl | hne
      · simp [hlocal, hstatus]
      · simp [hworker v hne, hne.symm])
    (by simp [Entry.worker, hstage]) (by simp) (fun _ => .rfl) (fun _ => .rfl) rfl rfl
  exact ⟨supplied, buffer, returned ++ [.ended w], registered, stored, json',
    hsupply.congr hsupplied hsupplier hreader (by rw [hshared]) (by rw [hshared]) (fun _ => .rfl)
      (fun _ => .rfl) rfl,
    hwork.worker hworker (fun _ _ _ => .rfl) (fun _ _ => rfl)
      (fun _ _ _ _ => ⟨rfl, by rw [hshared]⟩) (by rw [hshared]; exact hwork.files) hgoes,
    hreturn'⟩

end WorkerSections

/-- A step that changes nothing. -/
theorem Refines.unchanged (hR : ring.Refines a r) (hcontent : b.content = a.content)
    (hlocals : b.locals = a.locals) (hshared : b.shared = a.shared) : ring.Refines b r := by
  cases a
  cases b
  cases hcontent
  cases hlocals
  cases hshared
  exact hR

theorem worker_section (hR : ring.Refines a r) {w : ℕ} {exchange : Exchange}
    {program : Section WorkerState}
    (hsection : workerSection (workerOf a w) = some (exchange, program))
    (hexec : program.exec (a.content exchange) = some (workerOf b w, b.content exchange))
    (hcontent : ∀ other ≠ exchange, b.content other = a.content other)
    (hothers : ∀ other ≠ .worker w, b.locals other = a.locals other)
    (hshared : b.shared = a.shared) :
    ∃ r', ring.Refines b r' ∧ Reachable (Ring.step ring.indices) r r' := by
  have hR' := hR
  obtain ⟨supplied, buffer, returned, registered, stored, json, hsupply, hwork, hreturn⟩ := hR
  have hw := hwork.working w
  unfold workerSection at hsection
  split at hsection
  · rename_i hstage
    cases hsection
    rw [hreturn.content, Prog.exec_map, exec_registerClient, Option.map_some, Option.some.injEq,
      Prod.mk.injEq] at hexec
    obtain ⟨hrefines, henabled⟩ := worker_registers hothers hshared hsupply hwork hreturn
      (hcontent _ (by simp)) hstage hexec.1.symm hexec.2.symm
    exact ⟨_, hrefines, Ring.reachable_after henabled⟩
  · rename_i hstage
    cases hsection
    obtain ⟨json', hjson', hqueue⟩ := hsupply.content
    rw [hjson'] at hexec
    -- the file is as it was, unless a dataset is pulled
    have hunchanged : b.content .supplier = some json' → b.content = a.content := by
      intro hfile
      funext other
      cases other with
      | supplier => rw [hfile, hjson']
      | aggregator => exact hcontent _ (by simp)
    cases supplied with
    | nil =>
        by_cases hclosed : r.closed = true
        · rw [if_pos hclosed, List.map_nil, List.nil_append] at hqueue
          rw [Prog.exec_map, exec_pullDataset_end hqueue rfl, Option.map_some, Option.some.injEq,
            Prod.mk.injEq] at hexec
          obtain ⟨hrefines, henabled⟩ := worker_finishes hothers hshared hsupply hwork hreturn rfl
            hclosed (hunchanged hexec.2.symm) hstage hexec.1.symm
          exact ⟨_, hrefines, Ring.reachable_after henabled⟩
        · rw [if_neg hclosed, List.map_nil, List.nil_append] at hqueue
          rw [Prog.exec_map, exec_pullDataset_nil hqueue, Option.map_some, Option.some.injEq,
            Prod.mk.injEq] at hexec
          refine ⟨r, hR'.unchanged (hunchanged hexec.2.symm) ?_ hshared, .initial⟩
          funext other
          rcases eq_or_ne other (.worker w) with rfl | hne
          · exact hexec.1.symm
          · exact hothers other hne
    | cons i rest =>
        have hi : i < ring.size :=
          hsupply.lt_size (by simp [(hsupply.mem i).mp List.mem_cons_self])
        have hid : (ring.inputJson i).id ≠ endId := (ring.supplyState.lt_endId hi).ne
        rw [Prog.exec_map, exec_pullDataset_cons hqueue hid, Option.map_some, Option.some.injEq,
          Prod.mk.injEq] at hexec
        obtain ⟨hrefines, henabled⟩ := worker_pulls hothers hshared hsupply hwork hreturn rfl
          (hcontent _ (by simp)) hstage hexec.1.symm ⟨_, hexec.2.symm, rfl⟩
        exact ⟨_, hrefines, Ring.reachable_after henabled⟩
  · rename_i i hstage
    obtain ⟨hname, -⟩ := hw.pushing i hstage
    split at hsection
    · cases hsection
    · rw [hname] at hsection
      cases hsection
      rw [hreturn.content, Prog.exec_map, exec_pushDataset, Option.map_some, Option.some.injEq,
        Prod.mk.injEq] at hexec
      obtain ⟨hrefines, henabled⟩ := worker_pushes hothers hshared hsupply hwork hreturn
        (hcontent _ (by simp)) hstage hexec.1.symm hexec.2.symm
      exact ⟨_, hrefines, Ring.reachable_after henabled⟩
  · rename_i hstage
    cases hsection
    rw [hreturn.content, Prog.exec_map, exec_pushDataset, Option.map_some, Option.some.injEq,
      Prod.mk.injEq] at hexec
    exact ⟨r, worker_ends hothers hshared hsupply hwork hreturn (hcontent _ (by simp)) hstage
      hexec.1.symm hexec.2.symm, .initial⟩
  · cases hsection

/-! ### The aggregator -/

section Aggregator

variable (hothers : ∀ other ≠ .aggregator, b.locals other = a.locals other)
  (hsupply : ring.SupplySide a r supplied) (hwork : ring.WorkSide a r buffer)

include hothers hsupply hwork

/-- The rest of the ring has no part in a step of the aggregator. -/
theorem ReturnSide.refines {json' : Json} {returned' : List Entry} {stored' : List ℕ}
    (hreturn : ring.ReturnSide b r' buffer returned' registered stored' json')
    (hsupplied : b.content .supplier = a.content .supplier) (hshared : b.shared = a.shared)
    (hplace : ∀ i, ∀ place : Place ℕ,
      place = .waiting ∨ place = .supplied ∨ (∃ w, place = .held w) →
        (r'.place i = place ↔ r.place i = place))
    (hstatus : ∀ w, r'.status w = r.status w ∨
      (workerOf a w).stage = .finished ∧ r'.status w = .gone) (hclosed : r'.closed = r.closed) :
    ring.Refines b r' := by
  have hsupplier : supplierOf b = supplierOf a := hothers _ (by simp)
  have hreader : ∀ i, readerOf b i = readerOf a i := fun i => hothers _ (by simp)
  have hworker : ∀ w, workerOf b w = workerOf a w := fun w => hothers _ (by simp)
  exact ⟨supplied, buffer, returned', registered, stored', json',
    hsupply.congr hsupplied hsupplier hreader (by rw [hshared]) (by rw [hshared])
      (fun i => hplace i _ (.inl rfl)) (fun i => hplace i _ (.inr (.inl rfl))) hclosed,
    hwork.congr hworker (by rw [hshared]) (fun i w => hplace i _ (.inr (.inr ⟨w, rfl⟩))) hstatus,
    hreturn⟩

/-- The aggregator has pulled a dataset. -/
theorem aggregator_pulls (hreturn : ring.ReturnSide a r buffer returned registered stored json)
    (hsupplied : b.content .supplier = a.content .supplier) (hshared : b.shared = a.shared)
    {i w : ℕ} {rest : List Entry} (hreturned : returned = .dataset i w :: rest)
    (hstage : (aggregatorOf a).stage = .pulling)
    (hlocal : aggregatorOf b = { aggregatorOf a with stage := .retrieving i (ring.outputFile i) })
    (hfile : b.content .aggregator = some { json with
      datasets := some (rest.map (Entry.json ring fun w => (workerOf a w).clientId)) }) :
    ring.Refines b (r.after (.collect i)) ∧ r.Enabled ring.indices (.collect i) := by
  have hworker : ∀ w, workerOf b w = workerOf a w := fun w => hothers _ (by simp)
  have hplace : r.place i = .given w := (hreturn.given i w).mp (by simp [hreturned])
  have hnodup := hreturn.returned_nodup
  have horder := hreturn.order
  rw [hreturned] at hnodup horder
  have hfirst := (List.nodup_cons.mp hnodup).1
  have hmoved : ∀ {j} {place : Place ℕ}, (∀ v, place ≠ .given v) → place ≠ .collected →
      ((r.after (.collect i)).place j = place ↔ r.place j = place) := by
    intro j place hfrom hto
    exact r.place_move_iff (hplace ▸ (hfrom w).symm) hto.symm
  have hgiven : ∀ j v, (r.after (.collect i)).place j = .given v ↔
      r.place j = .given v ∧ j ≠ i := by
    intro j v
    rw [Ring.after, Ring.place_move]
    rcases eq_or_ne j i with rfl | hne
    · simp
    · simp [hne]
  refine ⟨ReturnSide.refines hothers hsupply hwork ⟨hfile, ?_, ?_, hreturn.registered_nodup,
    hreturn.mem_registered, hreturn.unregistered_nodup, ?_, ?_, (List.nodup_cons.mp hnodup).2,
    fun j v => ?_, fun v => ?_, (List.pairwise_cons.mp horder).2, fun j v hj => ?_, fun j => ?_,
    fun j filename hj => ?_, ?_, hreturn.stored_nodup, fun j => ?_, fun j hj => ?_, ?_⟩ hsupplied
    hshared (fun j place h => hmoved ?_ ?_) (fun _ => .inl rfl) rfl, w, hplace⟩
  · simp only [hworker]; rfl
  · simp only [hworker]; exact hreturn.clientIds
  · simp only [hworker]; exact hreturn.unregistered
  · simp [hlocal]
  · rw [hgiven, ← hreturn.given, hreturned, List.mem_cons]
    constructor
    · intro hmem
      refine ⟨.inr hmem, ?_⟩
      rintro rfl
      -- an index is given by one worker only
      have hv := (hreturn.given j v).mp (by rw [hreturned]; exact List.mem_cons_of_mem _ hmem)
      rw [hplace] at hv
      cases hv
      exact hfirst hmem
    · rintro ⟨heq | hmem, hne⟩
      · cases heq
        exact absurd rfl hne
      · exact hmem
  · rw [hworker]
    refine Iff.trans ?_ (hreturn.ended v)
    simp [hreturned]
  · rw [hshared, hworker]
    exact hreturn.persisted j v ((hgiven j v).mp hj).1
  · rw [Ring.after, Ring.place_move, hlocal]
    rcases eq_or_ne j i with rfl | hne
    · simp
    · rw [if_neg hne, hreturn.collected, hstage]
      simp [hne.symm]
  · rw [hlocal] at hj
    cases hj
    rw [hshared]
    exact ⟨rfl, (hreturn.persisted i w hplace).1, w, by
      rw [hworker]; exact (hreturn.persisted i w hplace).2⟩
  · rw [hlocal]; exact hreturn.output
  · rw [hmoved (by simp) (by simp)]; exact hreturn.mem_stored j
  · simp only [hworker]; exact hreturn.stored_pulled j hj
  · rw [hlocal]
    refine Iff.trans hreturn.stopped ?_
    simp [hstage]
  · rintro v rfl
    simp at h
  · rintro rfl
    simp at h

/-- The aggregator has unregistered a client. -/
theorem aggregator_unregisters
    (hreturn : ring.ReturnSide a r buffer returned registered stored json)
    (hsupplied : b.content .supplier = a.content .supplier) (hshared : b.shared = a.shared)
    {w : ℕ} {rest : List Entry} (hreturned : returned = .ended w :: rest)
    (hstage : (aggregatorOf a).stage = .pulling)
    (hlocal : aggregatorOf b = { aggregatorOf a with stage := .checking })
    (hfile : b.content .aggregator = some { json with
      datasets := some (rest.map (Entry.json ring fun w => (workerOf a w).clientId))
      unregisteredClients := some (setInsert json.unregisteredIds (workerOf a w).clientId) }) :
    ring.Refines b (r.after (.leave w)) ∧ r.Enabled ring.indices (.leave w) := by
  have hworker : ∀ w, workerOf b w = workerOf a w := fun w => hothers _ (by simp)
  obtain ⟨hfinished, hnotGone⟩ := (hreturn.ended w).mp (by simp [hreturned])
  have hstatus : r.status w = .finished := by
    rcases hwork.status w with heq | hgone
    · simpa [hfinished] using heq
    · exact absurd hgone.2 hnotGone
  have hnodup := hreturn.returned_nodup
  have horder := hreturn.order
  rw [hreturned] at hnodup horder
  have hfirst := (List.nodup_cons.mp hnodup).1
  have hlast := (List.pairwise_cons.mp horder).1
  have hbecomes : ∀ v, (r.after (.leave w)).status v = if v = w then .gone else r.status v :=
    fun v => Ring.status_become ..
  refine ⟨ReturnSide.refines hothers hsupply hwork ⟨hfile, ?_, ?_, hreturn.registered_nodup,
    fun v => ?_, nodup_setInsert _ _, fun id hid => ?_, fun _ => ?_, (List.nodup_cons.mp hnodup).2,
    fun j v => ?_, fun v => ?_, (List.pairwise_cons.mp horder).2, ?_, ?_,
    fun j filename hj => ?_, ?_, hreturn.stored_nodup, hreturn.mem_stored, ?_, ?_⟩ hsupplied
    hshared (fun _ _ _ => .rfl) (fun v => ?_) rfl, hstatus, fun i hplace => ?_⟩
  · simp only [hworker]; rfl
  · simp only [hworker]; exact hreturn.clientIds
  · rw [hbecomes, hreturn.mem_registered]
    rcases eq_or_ne v w with rfl | hne
    · simp [hstatus]
    · rw [if_neg hne]
  · simp only [hworker]
    rcases mem_setInsert.mp hid with rfl | hid
    · refine ⟨w, (hreturn.mem_registered w).mpr (by simp [hstatus]), rfl, ?_⟩
      rw [hbecomes, if_pos rfl]
    · obtain ⟨v, hv, hclient, hgone⟩ := hreturn.unregistered id hid
      refine ⟨v, hv, hclient, ?_⟩
      rw [hbecomes, hgone]
      simp
  · exact List.ne_nil_of_mem (mem_setInsert.mpr (.inl rfl))
  · refine Iff.trans ?_ (hreturn.given j v)
    simp [hreturned]
  · rw [hbecomes, hworker]
    rcases eq_or_ne v w with rfl | hne
    · simpa using hfirst
    · rw [if_neg hne]
      refine Iff.trans ?_ (hreturn.ended v)
      simp [hreturned, hne]
  · rw [hshared]; simp only [hworker]; exact hreturn.persisted
  · rw [hlocal]
    intro j
    refine (hreturn.collected j).trans ?_
    simp [hstage]
  · rw [hlocal] at hj
    cases hj
  · rw [hlocal]; exact hreturn.output
  · simpa only [hworker] using hreturn.stored_pulled
  · rw [hlocal]
    refine Iff.trans hreturn.stopped ?_
    simp [hstage]
  · rw [hbecomes]
    rcases eq_or_ne v w with rfl | hne
    · exact .inr ⟨hfinished, if_pos rfl⟩
    · exact .inl (if_neg hne)
  · have hmem := (hreturn.given i w).mpr hplace
    rw [hreturned] at hmem
    rcases List.mem_cons.mp hmem with heq | hmem
    · cases heq
    · exact hlast _ hmem w rfl rfl

/-- The aggregator has added a dataset to the output. -/
theorem aggregator_stores (hreturn : ring.ReturnSide a r buffer returned registered stored json)
    (hcontent : b.content = a.content) (hshared : b.shared = a.shared) {i : ℕ} {filename : Bytes}
    (hstage : (aggregatorOf a).stage = .retrieving i filename)
    (hlocal : aggregatorOf b = { aggregatorOf a with
      stage := .pulling, output := (aggregatorOf a).output ++ [ring.outputDataset i (buffer i)] }) :
    ring.Refines b (r.after (.store i)) ∧ r.Enabled ring.indices (.store i) := by
  have hworker : ∀ w, workerOf b w = workerOf a w := fun w => hothers _ (by simp)
  have hplace : r.place i = .collected := (hreturn.collected i).mpr (by rw [hstage]; rfl)
  obtain ⟨-, -, w, hw⟩ := hreturn.retrieving i filename hstage
  have hmoved : ∀ {j} {place : Place ℕ}, place ≠ .collected → place ≠ .stored →
      ((r.after (.store i)).place j = place ↔ r.place j = place) := by
    intro j place hfrom hto
    exact r.place_move_iff (hplace ▸ hfrom.symm) hto.symm
  have hnew : i ∉ stored := by
    rw [hreturn.mem_stored, hplace]
    simp
  have hside : ring.ReturnSide b (r.after (.store i)) buffer returned registered (stored ++ [i])
      json := by
    refine ⟨by rw [hcontent]; exact hreturn.content, ?_, ?_, hreturn.registered_nodup,
      hreturn.mem_registered, hreturn.unregistered_nodup, ?_, ?_, hreturn.returned_nodup,
      fun j v => ?_, ?_, hreturn.order, fun j v hj => ?_, fun j => ?_, fun j name hj => ?_, ?_, ?_,
      fun j => ?_, fun j hj => ?_, ?_⟩
    · simp only [hworker]; exact hreturn.queue
    · simp only [hworker]; exact hreturn.clientIds
    · simp only [hworker]; exact hreturn.unregistered
    · simp [hlocal]
    · rw [hmoved (by simp) (by simp)]; exact hreturn.given j v
    · simp only [hworker]; exact hreturn.ended
    · rw [hmoved (by simp) (by simp)] at hj
      rw [hshared, hworker]
      exact hreturn.persisted j v hj
    · rw [Ring.after, Ring.place_move, hlocal]
      rcases eq_or_ne j i with rfl | hne
      · simp
      · rw [if_neg hne, hreturn.collected, hstage]
        simp [hne.symm]
    · rw [hlocal] at hj
      cases hj
    · rw [hlocal, List.map_append, ← hreturn.output]
      rfl
    · exact hreturn.stored_nodup.append (List.nodup_singleton i) (by simpa using hnew)
    · rw [List.mem_append, List.mem_singleton, hreturn.mem_stored, Ring.after, Ring.place_move]
      rcases eq_or_ne j i with rfl | hne
      · simp
      · simp [hne]
    · simp only [hworker]
      rcases List.mem_append.mp hj with hj | hj
      · exact hreturn.stored_pulled j hj
      · obtain rfl := List.mem_singleton.mp hj
        exact ⟨w, hw⟩
    · rw [hlocal]
      refine Iff.trans hreturn.stopped ?_
      simp [hstage]
  refine ⟨hside.refines hothers hsupply hwork (by rw [hcontent]) hshared
    (fun j place h => hmoved ?_ ?_) (fun _ => .inl rfl) rfl, hplace⟩
  · rintro rfl
    simp at h
  · rintro rfl
    simp at h

/-- The aggregator has handled an end signal, and goes on or stops. -/
theorem ReturnSide.checked (hreturn : ring.ReturnSide a r buffer returned registered stored json)
    (hcontent : b.content = a.content) (hshared : b.shared = a.shared) {stage : AggregatorStage}
    (hstage : (aggregatorOf a).stage = .checking)
    (hlocal : aggregatorOf b = { aggregatorOf a with stage := stage })
    (hnext : stage ≠ .checking ∧ stage.index = none) (hplace : r'.place = r.place)
    (hstatus : r'.status = r.status) (hclosed : r'.closed = r.closed)
    (hstopped : r'.stopped = true ↔ stage = .finished) : ring.Refines b r' := by
  have hworker : ∀ w, workerOf b w = workerOf a w := fun w => hothers _ (by simp)
  have hside : ring.ReturnSide b r' buffer returned registered stored json := by
    refine ⟨by rw [hcontent]; exact hreturn.content, ?_, ?_, hreturn.registered_nodup, ?_,
      hreturn.unregistered_nodup, ?_, ?_, hreturn.returned_nodup, ?_, ?_, hreturn.order, ?_,
      fun i => ?_, fun i filename hi => ?_, ?_, hreturn.stored_nodup, ?_, ?_, ?_⟩
    · simp only [hworker]; exact hreturn.queue
    · simp only [hworker]; exact hreturn.clientIds
    · rw [hstatus]; exact hreturn.mem_registered
    · simp only [hworker, hstatus]; exact hreturn.unregistered
    · simp [hlocal, hnext.1]
    · rw [hplace]; exact hreturn.given
    · simp only [hworker, hstatus]; exact hreturn.ended
    · simp only [hworker, hplace, hshared]; exact hreturn.persisted
    · rw [hplace, hlocal, hreturn.collected, hstage]
      show none = some i ↔ stage.index = some i
      rw [hnext.2]
    · rw [hlocal] at hi
      have hindex := hnext.2
      rw [show stage = .retrieving i filename from hi] at hindex
      cases hindex
    · rw [hlocal]; exact hreturn.output
    · rw [hplace]; exact hreturn.mem_stored
    · simp only [hworker]; exact hreturn.stored_pulled
    · rw [hlocal]; exact hstopped
  exact hside.refines hothers hsupply hwork (by rw [hcontent]) hshared
    (fun _ _ _ => by rw [hplace]) (fun _ => .inl (by rw [hstatus])) hclosed

/-- When every registered client is unregistered, every registered worker has left. -/
theorem aggregator_looks (hreturn : ring.ReturnSide a r buffer returned registered stored json)
    (hcontent : b.content = a.content) (hshared : b.shared = a.shared)
    (hstage : (aggregatorOf a).stage = .checking)
    (hlocal : aggregatorOf b = { aggregatorOf a with
      stage := if areAllClientsUnregistered (some json) then .finished else .pulling }) :
    ∃ r', ring.Refines b r' ∧ Reachable (Ring.step ring.indices) r r' := by
  cases hall : areAllClientsUnregistered (some json) with
  | false =>
      rw [hall] at hlocal
      have hgoesOn : aggregatorOf b = { aggregatorOf a with stage := .pulling } := hlocal
      have hstopped : r.stopped = true ↔ AggregatorStage.pulling = .finished := by
        rw [hreturn.stopped, hstage]
        simp
      exact ⟨r, hreturn.checked hothers hsupply hwork hcontent hshared hstage hgoesOn (by simp) rfl
        rfl rfl hstopped, .initial⟩
  | true =>
      rw [hall] at hlocal
      have hstops : aggregatorOf b = { aggregatorOf a with stage := .finished } := hlocal
      refine ⟨r.after .stop, hreturn.checked hothers hsupply hwork hcontent hshared hstage hstops
        (by simp) rfl rfl rfl (by simp [Ring.after]),
        Ring.reachable_after ⟨fun w => ?_, ?_, fun i hplace => ?_⟩⟩
      · have hequal : json.clients = json.unregisteredClients := by
          simpa [areAllClientsUnregistered] using hall
        have hids : json.unregisteredIds = json.clientIds := by
          rw [Json.unregisteredIds, ← hequal, Json.clientIds]
        have hnodup := hreturn.unregistered_nodup
        rw [hids, hreturn.clientIds] at hnodup
        -- the ids of the registered workers are distinct
        have hinjective := List.inj_on_of_nodup_map hnodup
        by_cases habsent : r.status w = .absent
        · exact .inl habsent
        · have hw := (hreturn.mem_registered w).mpr habsent
          have hmem : (workerOf a w).clientId ∈ json.unregisteredIds := by
            rw [hids, hreturn.clientIds]
            exact List.mem_map_of_mem hw
          obtain ⟨v, hv, heq, hgone⟩ := hreturn.unregistered _ hmem
          rw [hinjective hv hw heq] at hgone
          exact .inr hgone
      · obtain ⟨id, hid⟩ := List.exists_mem_of_ne_nil _ (hreturn.checking hstage)
        obtain ⟨w, -, -, hgone⟩ := hreturn.unregistered id hid
        exact ⟨w, hgone⟩
      · have hindex := (hreturn.collected i).mp hplace
        rw [hstage] at hindex
        cases hindex

end Aggregator

theorem endJson_clientId (clientId : ℕ) : (endJson clientId).clientId.getD endId = clientId := by
  unfold endJson
  split <;> simp_all

theorem aggregator_section (hR : ring.Refines a r) {program : Section AggregatorState}
    (hsection : aggregatorSection (aggregatorOf a) = some program)
    (hexec : program.exec (a.content .aggregator) = some (aggregatorOf b, b.content .aggregator))
    (hcontent : ∀ exchange ≠ .aggregator, b.content exchange = a.content exchange)
    (hothers : ∀ other ≠ .aggregator, b.locals other = a.locals other)
    (hshared : b.shared = a.shared) :
    ∃ r', ring.Refines b r' ∧ Reachable (Ring.step ring.indices) r r' := by
  have hR' := hR
  obtain ⟨supplied, buffer, returned, registered, stored, json, hsupply, hwork, hreturn⟩ := hR
  unfold aggregatorSection at hsection
  split at hsection
  · rename_i hstage
    cases hsection
    have hqueue := hreturn.queue
    rw [hreturn.content, Prog.exec_map] at hexec
    cases returned with
    | nil =>
        rw [exec_pullAtServer_nil hqueue, Option.map_some, Option.some.injEq, Prod.mk.injEq] at hexec
        refine ⟨r, hR'.unchanged ?_ ?_ hshared, .initial⟩
        · funext exchange
          cases exchange with
          | supplier => exact hcontent _ (by simp)
          | aggregator => rw [← hexec.2, hreturn.content]
        · funext other
          rcases eq_or_ne other .aggregator with rfl | hne
          · exact hexec.1.symm
          · exact hothers other hne
    | cons entry rest =>
        cases entry with
        | dataset i w =>
            have hi : i < ring.size :=
              hsupply.lt_size (by simp [(hreturn.given i w).mp List.mem_cons_self])
            have hid : (Entry.json ring (fun w => (workerOf a w).clientId) (.dataset i w)).id ≠
                endId := (ring.supplyState.lt_endId hi).ne
            rw [exec_pullAtServer_cons hqueue hid, Option.map_some, Option.some.injEq,
              Prod.mk.injEq] at hexec
            obtain ⟨hrefines, henabled⟩ := aggregator_pulls hothers hsupply hwork hreturn
              (hcontent _ (by simp)) hshared rfl hstage hexec.1.symm hexec.2.symm
            exact ⟨_, hrefines, Ring.reachable_after henabled⟩
        | ended w =>
            rw [exec_pullAtServer_end hqueue rfl, Option.map_some, Option.some.injEq,
              Prod.mk.injEq] at hexec
            obtain ⟨hrefines, henabled⟩ := aggregator_unregisters hothers hsupply hwork hreturn
              (hcontent _ (by simp)) hshared rfl hstage hexec.1.symm (by
                rw [← hexec.2]
                simp only [Entry.json, endJson_clientId])
            exact ⟨_, hrefines, Ring.reachable_after henabled⟩
  · cases hsection

theorem aggregator_act (hR : ring.Refines a r)
    (hact : ring.aggregatorAct (aggregatorOf a) a.shared = some (aggregatorOf b, b.shared))
    (hcontent : b.content = a.content)
    (hothers : ∀ other ≠ .aggregator, b.locals other = a.locals other) :
    ∃ r', ring.Refines b r' ∧ Reachable (Ring.step ring.indices) r r' := by
  obtain ⟨supplied, buffer, returned, registered, stored, json, hsupply, hwork, hreturn⟩ := hR
  unfold aggregatorAct at hact
  split at hact
  · rename_i i filename hstage
    obtain ⟨rfl, hfile, -⟩ := hreturn.retrieving i filename hstage
    split at hact
    · rename_i dataset hretrieve
      obtain ⟨content, hcontent', rfl⟩ := Dataset.retrieveBufferFromFile_eq_ok hretrieve
      rw [hfile, Option.some.injEq] at hcontent'
      subst hcontent'
      simp only [Option.some.injEq, Prod.mk.injEq] at hact
      obtain ⟨hrefines, henabled⟩ := aggregator_stores hothers hsupply hwork hreturn hcontent
        hact.2.symm hstage hact.1.symm
      exact ⟨_, hrefines, Ring.reachable_after henabled⟩
    · cases hact
  · cases hact

/-! ## The refinement -/

theorem refines_bound : ring.Refines ring.bound Ring.initial := by
  refine ⟨[], fun _ => [], [], [], [], {}, ?_, ?_, ?_⟩
  · refine ⟨⟨{}, rfl, rfl⟩, List.nodup_nil, by simp [Ring.initial], fun i => ?_, by simp [bound],
      fun i hi => absurd rfl hi, by simp [bound], fun _ => ?_, fun threads hjoining => ?_, ?_⟩
    · exact iff_of_true rfl (.inl rfl)
    · exact ring.supplyState.datasetsToProvide_eq.1
    · cases hjoining
    · exact iff_of_false (by simp [Ring.initial]) (by simp [supplierOf, bound])
  · refine ⟨fun i w => ?_, fun w => .inl rfl, ?_, ?_, ?_, ?_, fun _ _ _ => rfl⟩
    · exact iff_of_false (by simp [Ring.initial]) (by simp [workerOf, bound])
    all_goals simp [workerOf, bound]
  · refine ⟨rfl, rfl, rfl, List.nodup_nil, ?_, List.nodup_nil, ?_, ?_, List.nodup_nil, ?_, ?_,
      List.Pairwise.nil, ?_, ?_, ?_, rfl, List.nodup_nil, ?_, ?_, ?_⟩
    all_goals simp [Ring.initial, workerOf, aggregatorOf, bound, Json.unregisteredIds]

theorem Refines.step (hR : ring.Refines a r)
    (hreach : Reachable (Ring.step ring.indices) Ring.initial r)
    {action : LockedFile.AtomicAction Party Unit} (hstep : ring.system.atomicStep a action = some b) :
    ∃ r', ring.Refines b r' ∧ Reachable (Ring.step ring.indices) r r' := by
  have hsafe := Ring.safe_of_reachable hreach
  cases action with
  | perform party label =>
      obtain ⟨exchange, program, henter, hexec, hcontent, hothers, hshared⟩ :=
        System.atomicStep_perform hstep
      cases party with
      | supplier =>
          obtain ⟨program', hsection, heq⟩ := Option.map_eq_some_iff.mp henter
          cases heq
          exact supplier_section hR hsection hexec hcontent hothers hshared
      | reader i =>
          obtain ⟨program', hsection, heq⟩ := Option.map_eq_some_iff.mp henter
          cases heq
          exact reader_section hR hsafe hsection hexec hcontent hothers hshared
      | worker w => exact worker_section hR henter hexec hcontent hothers hshared
      | aggregator =>
          obtain ⟨program', hsection, heq⟩ := Option.map_eq_some_iff.mp henter
          cases heq
          exact aggregator_section hR hsection hexec hcontent hothers hshared
  | look party =>
      obtain ⟨exchange, see, hlook, hlocal, hcontent, hothers, hshared⟩ :=
        System.atomicStep_look hstep
      cases party with
      | aggregator =>
          obtain ⟨supplied, buffer, returned, registered, stored, json, hsupply, hwork, hreturn⟩ := hR
          simp only [system] at hlook
          split at hlook
          · rename_i hstage
            cases hlook
            rw [hreturn.content] at hlocal
            exact aggregator_looks hothers hsupply hwork hreturn hcontent hshared hstage hlocal
          · cases hlook
      | supplier => cases hlook
      | reader i => cases hlook
      | worker w => cases hlook
  | act party label =>
      obtain ⟨hact, hcontent, hothers⟩ := System.atomicStep_act hstep
      cases party with
      | supplier => exact ⟨r, supplier_act hR hact hcontent hothers, .initial⟩
      | reader i => exact ⟨r, reader_act hR hact hcontent hothers, .initial⟩
      | worker w => exact ⟨r, worker_act hR hact hcontent hothers, .initial⟩
      | aggregator => exact aggregator_act hR hact hcontent hothers

/-- The sections of a worker retrieve nothing. -/
theorem workerSection_pulled {worker worker' : WorkerState} {exchange : Exchange}
    {program : Section WorkerState} {before after : ExchangeContent}
    (hsection : workerSection worker = some (exchange, program))
    (hexec : program.exec before = some (worker', after)) : worker'.pulled = worker.pulled := by
  unfold workerSection at hsection
  split at hsection
  · cases hsection
    rw [Prog.exec_map] at hexec
    obtain ⟨left, -, heq⟩ := Option.map_eq_some_iff.mp hexec
    cases heq
    rfl
  · cases hsection
    rw [Prog.exec_map] at hexec
    obtain ⟨⟨pulled, left⟩, -, heq⟩ := Option.map_eq_some_iff.mp hexec
    cases pulled <;> cases heq <;> rfl
  · split at hsection
    · cases hsection
    · obtain ⟨filename, -, heq⟩ := Option.map_eq_some_iff.mp hsection
      cases heq
      rw [Prog.exec_map] at hexec
      obtain ⟨left, -, heq⟩ := Option.map_eq_some_iff.mp hexec
      cases heq
      rfl
  · cases hsection
    rw [Prog.exec_map] at hexec
    obtain ⟨left, -, heq⟩ := Option.map_eq_some_iff.mp hexec
    cases heq
    rfl
  · cases hsection

/-- **Exactly once.**  When the aggregator has left its loop, the output data has one dataset for
each index, with the buffer that a worker has retrieved for it: the content of the input file at
the start, unless an output file is the input file of another dataset. -/
theorem exactly_once {s : State Party Exchange ExchangeContent Shared Local}
    (hreach : Reachable ring.system.step ring.initial s)
    (hfinished : (s.locals .aggregator : AggregatorState).stage = .finished) :
    ∃ buffer : ℕ → Bytes,
      (s.locals .aggregator : AggregatorState).output.Perm
        ((List.range ring.size).map fun i => ring.outputDataset i (buffer i)) ∧
      (∀ i < ring.size, ∃ w, (i, buffer i) ∈ (s.locals (.worker w) : WorkerState).pulled) ∧
      (ring.Separate → ∀ i < ring.size, ring.files (ring.inputFile i) = some (buffer i)) := by
  obtain ⟨a, hmatches, hreach⟩ :=
    System.reduction ring.reducible (System.reachable_untorn hreach)
  obtain ⟨r, hR, hring⟩ := hreach.simulation refines_bound
    fun _ _ _ _ hR hreach hstep => hR.step hreach hstep
  obtain ⟨supplied, buffer, returned, registered, stored, json, hsupply, hwork, hreturn⟩ := hR
  have haggregator : aggregatorOf a = s.locals .aggregator := by
    rcases hmatches.locals_eq .aggregator with heq | ⟨exchange, _, program, _, _, henter, -⟩
    · exact heq
    · obtain ⟨program', hsection, -⟩ := Option.map_eq_some_iff.mp henter
      rw [aggregatorSection, hfinished] at hsection
      simp at hsection
  have hpulled : ∀ w, (workerOf a w).pulled = (s.locals (.worker w) : WorkerState).pulled := by
    intro w
    rcases hmatches.locals_eq (.worker w) with heq | ⟨exchange, _, program, _, _, henter, hexec⟩
    · rw [workerOf, heq]
    · exact workerSection_pulled henter hexec
  have hstored : ∀ i, i ∈ stored ↔ i < ring.size := by
    intro i
    rw [hreturn.mem_stored]
    constructor
    · intro hplace
      exact hsupply.lt_size (by simp [hplace])
    · exact Ring.stored_of_stopped hring (hreturn.stopped.mpr (by rw [haggregator, hfinished])) i
  refine ⟨buffer, ?_, fun i hi => ?_, fun hseparate i hi => ?_⟩
  · rw [← haggregator, hreturn.output]
    refine List.Perm.map _ ((List.perm_ext_iff_of_nodup hreturn.stored_nodup List.nodup_range).mpr ?_)
    simpa using hstored
  · simp only [← hpulled]
    exact hreturn.stored_pulled i ((hstored i).mpr hi)
  · obtain ⟨w, hw⟩ := hreturn.stored_pulled i ((hstored i).mpr hi)
    exact hwork.pulled hseparate w _ hw

/-! ### A run -/

/-- Two datasets, of which each has the end of the name of its file as its content. -/
def twoDatasets : FileRing where
  supplyState :=
    ⟨[{ id := [2], data := some [1] }, { id := [5], data := some [1] }], [0, 1], ⟨3, rfl⟩⟩
  outputDirectory := [3]
  files := fun filename => some (filename.drop 2)

/-- A section with so many reads and writes. -/
def sectionOf (party : Party) (accesses : ℕ) : List (LockedFile.Action Party Unit) :=
  .lock party () :: List.replicate accesses (.advance party) ++ [.unlock party]

/-- Two workers pull a dataset each.  One of them unregisters while the other has not seen the end
of the supplier. -/
def twoDatasetsRun : List (LockedFile.Action Party Unit) :=
  [.act .supplier (), .act .supplier (), .act (.reader 1) (), .act (.reader 0) (),
    .act (.worker 1) (), .lock (.reader 1) (), .advance (.reader 1), .lock (.worker 1) (),
    .advance (.reader 1), .advance (.worker 1), .unlock (.reader 1), .advance (.worker 1),
    .unlock (.worker 1)] ++
  sectionOf (.reader 0) 2 ++
  [.act (.reader 0) (), .act .supplier (), .act .supplier (), .act (.reader 1) (),
    .act .supplier (), .act (.worker 0) ()] ++
  sectionOf .supplier 2 ++ sectionOf (.worker 0) 2 ++ sectionOf (.worker 0) 5 ++
  sectionOf (.worker 1) 5 ++
  [.act (.worker 1) (), .act (.worker 0) (), .act (.worker 1) (), .act (.worker 0) ()] ++
  sectionOf (.worker 1) 2 ++ sectionOf (.worker 0) 2 ++ sectionOf (.worker 0) 2 ++
  sectionOf (.worker 0) 2 ++ sectionOf .aggregator 5 ++ [.act .aggregator ()] ++
  sectionOf .aggregator 5 ++ [.act .aggregator ()] ++ sectionOf .aggregator 7 ++
  [.look .aggregator] ++ sectionOf (.worker 1) 2 ++ sectionOf (.worker 1) 2 ++
  sectionOf .aggregator 7 ++ [.look .aggregator]

theorem exactly_once_two_datasets :
    ∃ s, Reachable twoDatasets.system.step twoDatasets.initial s ∧
      (s.locals .aggregator : AggregatorState).stage = .finished ∧
      ∃ buffer : ℕ → Bytes, (s.locals .aggregator : AggregatorState).output.Perm
        ((List.range twoDatasets.size).map fun i => twoDatasets.outputDataset i (buffer i)) ∧
      (∀ i < twoDatasets.size,
        ∃ w, (i, buffer i) ∈ (s.locals (.worker w) : WorkerState).pulled) ∧
      (twoDatasets.Separate →
        ∀ i < twoDatasets.size, twoDatasets.files (twoDatasets.inputFile i) = some (buffer i)) := by
  obtain ⟨s, hreach, hfinished⟩ := Reachable.exists_of_run
    (show (run twoDatasets.system.step twoDatasets.initial twoDatasetsRun).any
      (fun s => decide ((s.locals .aggregator : AggregatorState).stage = .finished)) = true by
      decide +kernel)
  have hfinished := of_decide_eq_true hfinished
  exact ⟨s, hreach, hfinished, exactly_once hreach hfinished⟩

end ComputeWebApp.Data.FileRing
