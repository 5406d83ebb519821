import ComputeWebApp.Data.SocketRing

/-!
# What the ring on sockets delivers

A worker has pushed to the aggregator what it has pulled from the supplier, and what it has
pulled is the front of what was sent to it (`Working`).  The supplier sends the end id to a
worker after the datasets of this worker, so that a worker which has ended has pushed all of
them (`Inv.pulled_of_ended`).  When the aggregator finds its map empty, the workers that were
inserted have ended and all their datasets are in the output data; if every worker that was sent
a dataset is among them, the output data is complete (`Inv.stored_of_empty`).
-/

namespace ComputeWebApp.Data.SocketRing

open Transition ByteStream DatasetAggregatorServerSocket

variable {ring : SocketRing}

/-! ## Workers -/

/-- The worker has called `PushEndSignal`. -/
def WorkerStage.ended : WorkerStage → Bool
  | ending => true
  | finished => true
  | _ => false

/-- What the worker has pulled. -/
def Worker.items (worker : Worker) : List Item :=
  (worker.pulled.map fun push => .dataset push.1 push.2) ++
    if worker.stage.ended = true then [.endSignal] else []

/-- What was sent to the worker is what it has pulled, what it is receiving and what it has not
read; and it has pushed what it has pulled. -/
structure Working (sent : List Bytes) (connection : Connection) (worker : Worker) : Prop where
  reader : worker.reader.Fits
  data : worker.dataset.data = none
  read : worker.read ≤ sent.flatten.length
  valid : ∀ item ∈ worker.items, item.Valid
  bytes : worker.items.flatMap Item.bytes ++
    (worker.reader.consumed ++ sent.flatten.drop worker.read) = sent.flatten
  pushed : connection.pushed = worker.pulled
  ended : connection.ended = worker.stage.ended

theorem Working.of_sent {sent sent' : List Bytes} {connection : Connection} {worker : Worker}
    (h : Working sent connection worker) (hsent : sent <+: sent') :
    Working sent' connection worker := by
  obtain ⟨more, rfl⟩ := hsent
  refine ⟨h.reader, h.data, ?_, h.valid, ?_, h.pushed, h.ended⟩
  · rw [List.flatten_append, List.length_append]
    exact h.read.trans (Nat.le_add_right _ _)
  · rw [List.flatten_append, List.drop_append_of_le_length h.read, ← List.append_assoc,
      ← List.append_assoc, List.append_assoc (List.flatMap _ _), h.bytes]

theorem Working.of_connection {sent : List Bytes} {connection connection' : Connection}
    {worker : Worker} (h : Working sent connection worker)
    (hpushed : connection'.pushed = connection.pushed)
    (hended : connection'.ended = connection.ended) : Working sent connection' worker :=
  ⟨h.reader, h.data, h.read, h.valid, h.bytes, hpushed.trans h.pushed, hended.trans h.ended⟩

/-- A worker moves on in its loop, without pulling or pushing. -/
theorem Working.of_stage {sent : List Bytes} {connection : Connection} {worker : Worker}
    (h : Working sent connection worker) {stage : WorkerStage}
    (hended : stage.ended = worker.stage.ended) :
    Working sent connection { worker with stage := stage } := by
  have hitems : Worker.items { worker with stage := stage } = worker.items := by
    rw [Worker.items, hended, Worker.items]
  exact ⟨h.reader, h.data, h.read, hitems ▸ h.valid, hitems ▸ h.bytes, h.pushed,
    h.ended.trans hended.symm⟩

theorem fits_nextPull {reader : Reader} (h : reader.Fits) : (nextPull reader).Fits :=
  Reader.fits_start h.id (length_word 4 _)

/-- One receive call of `PullDataset`. -/
theorem Working.receive {sent : List Bytes} {connection : Connection} {worker : Worker}
    (h : Working sent connection worker) {cut : ℕ} {reader : Reader} {left : Bytes}
    (hwhole : worker.reader.WholeHeader cut (sent.flatten.drop worker.read))
    (hreceive : worker.reader.receive cut (sent.flatten.drop worker.read) = some (reader, left)) :
    Working sent connection
      { worker with reader := reader, read := sent.flatten.length - left.length } := by
  obtain ⟨hfits, hconsumed⟩ := Reader.consumed_receive h.reader hwhole hreceive
  have hsuffix : left <:+ sent.flatten :=
    (Reader.receive_suffix hreceive).trans (List.drop_suffix _ _)
  have hleft : sent.flatten.drop (sent.flatten.length - left.length) = left :=
    (List.suffix_iff_eq_drop.mp hsuffix).symm
  refine ⟨hfits, h.data, Nat.sub_le _ _, h.valid, ?_, h.pushed, h.ended⟩
  dsimp only
  rw [hleft, hconsumed]
  exact h.bytes

/-- `PullDataset` returns a dataset, and the worker pushes it. -/
theorem Working.push {sent : List Bytes} {connection connection' : Connection} {worker : Worker}
    (h : Working sent connection worker) {id : ℕ} {buffer : Bytes}
    (hrunning : worker.stage = .pulling) (hstage : worker.reader.stage = .whole)
    (hitem : worker.reader.item = .dataset id buffer) {dataset : Dataset}
    (hdata : dataset.data = none)
    (hpushed : connection'.pushed = connection.pushed ++ [(id, buffer)])
    (hended : connection'.ended = connection.ended) :
    Working sent connection' { worker with
      stage := .pushing
      reader := nextPull worker.reader
      dataset := dataset
      pulled := worker.pulled ++ [(id, buffer)] } := by
  obtain ⟨hvalid, hbytes⟩ := Reader.bytes_item h.reader hstage
  have hold : worker.items = worker.pulled.map fun push => Item.dataset push.1 push.2 := by
    rw [Worker.items, hrunning]
    exact List.append_nil _
  have hnew : Worker.items { worker with
      stage := .pushing
      reader := nextPull worker.reader
      dataset := dataset
      pulled := worker.pulled ++ [(id, buffer)] } = worker.items ++ [.dataset id buffer] := by
    rw [hold, Worker.items, List.map_append]
    exact List.append_nil _
  refine ⟨fits_nextPull h.reader, hdata, h.read, ?_, ?_, ?_, ?_⟩
  · rw [hnew]
    intro item hmem
    rcases List.mem_append.mp hmem with hmem | hmem
    · exact h.valid item hmem
    · rw [List.mem_singleton.mp hmem, ← hitem]
      exact hvalid
  · refine Eq.trans ?_ h.bytes
    rw [hnew, List.flatMap_append, List.append_assoc, ← hbytes, hitem]
    simp [nextPull, Reader.consumed]
  · rw [hpushed, h.pushed]
  · rw [hended, h.ended, hrunning]
    rfl

/-- `PullDataset` returns the end, and the worker pushes its own. -/
theorem Working.pushEnd {sent : List Bytes} {connection connection' : Connection} {worker : Worker}
    (h : Working sent connection worker) (hrunning : worker.stage = .pulling)
    (hstage : worker.reader.stage = .whole) (hitem : worker.reader.item = .endSignal)
    (hpushed : connection'.pushed = connection.pushed) (hended : connection'.ended = true) :
    Working sent connection'
      { worker with stage := .ending, reader := nextPull worker.reader } := by
  obtain ⟨-, hbytes⟩ := Reader.bytes_item h.reader hstage
  have hold : worker.items = worker.pulled.map fun push => Item.dataset push.1 push.2 := by
    rw [Worker.items, hrunning]
    exact List.append_nil _
  have hnew : Worker.items { worker with stage := .ending, reader := nextPull worker.reader } =
      worker.items ++ [.endSignal] := by
    rw [hold]
    rfl
  refine ⟨fits_nextPull h.reader, h.data, h.read, ?_, ?_, hpushed.trans h.pushed, hended⟩
  · rw [hnew]
    intro item hmem
    rcases List.mem_append.mp hmem with hmem | hmem
    · exact h.valid item hmem
    · rw [List.mem_singleton.mp hmem]
      trivial
  · refine Eq.trans ?_ h.bytes
    rw [hnew, List.flatMap_append, List.append_assoc, ← hbytes, hitem]
    simp [nextPull, Reader.consumed]

/-! ## What is sent to a worker -/

variable (ring) in
/-- The content of every input dataset fits the length field. -/
def Short : Prop := ∀ dataset ∈ ring.input.datasets, dataset.Short ring.setting.files

instance : Decidable ring.Short :=
  inferInstanceAs (Decidable (∀ dataset ∈ ring.input.datasets, dataset.Short ring.setting.files))

variable (ring) in
/-- The input dataset `i` on the wire. -/
def inputItem (i : ℕ) : Item := .dataset i ((ring.content i).getD [])

/-- A frame is an input dataset on the wire. -/
theorem flatten_frame (hshort : ring.Short) {i : ℕ} {frame : List Bytes}
    (hframe : SocketSupplier.frame ring.setting.files ring.input i = some frame) :
    (ring.content i).isSome ∧ (ring.inputItem i).Valid ∧ frame.flatten = (ring.inputItem i).bytes := by
  obtain ⟨dataset, hdataset, hframe⟩ := Option.bind_eq_some_iff.mp hframe
  have hframe : datasetFrame ring.setting.files dataset i = .ok frame := by
    cases h : datasetFrame ring.setting.files dataset i with
    | error e => simp [h, Except.toOption] at hframe
    | ok value => simpa [h, Except.toOption] using hframe
  obtain ⟨buffer, hbuffer⟩ : ∃ buffer, dataset.retrieveBuffer ring.setting.files = .ok buffer := by
    cases h : dataset.retrieveBuffer ring.setting.files with
    | ok buffer => exact ⟨buffer, rfl⟩
    | error e =>
        cases hsize : dataset.getSize ring.setting.files <;>
          simp [datasetFrame, h, hsize, bind, Except.bind] at hframe
  have hcontent : ring.content i = some buffer := by
    rw [content, hdataset, Option.bind_some, hbuffer]
    rfl
  have hsize : buffer.length < 2 ^ 32 :=
    hshort dataset (List.mem_of_getElem? hdataset) buffer (by rw [hbuffer]; rfl)
  have hid : i < endId := ring.input.lt_endId (List.getElem?_eq_some_iff.mp hdataset).1
  rw [inputItem, hcontent]
  exact ⟨rfl, ⟨hid, hsize⟩, flatten_datasetFrame hframe hbuffer hsize⟩

/-- The datasets that were pushed to the worker. -/
def pushedTo (returned : List (ℕ × ℕ)) (w : ℕ) : List ℕ :=
  (returned.filter fun push => push.2 = w).map Prod.fst

theorem flatten_framesTo (hshort : ring.Short) {returned : List (ℕ × ℕ)} (w : ℕ)
    (hframes : ∀ push ∈ returned,
      (SocketSupplier.frame ring.setting.files ring.input push.1).isSome) :
    (∀ i ∈ pushedTo returned w, (ring.inputItem i).Valid) ∧
      (SocketSupplier.framesTo ring.setting.files ring.input returned w).flatten =
        ((pushedTo returned w).map ring.inputItem).flatMap Item.bytes := by
  induction returned with
  | nil => exact ⟨nofun, rfl⟩
  | cons push rest ih =>
      obtain ⟨hvalid, hflatten⟩ := ih fun push hpush => hframes push (List.mem_cons_of_mem _ hpush)
      obtain ⟨frame, hframe⟩ := Option.isSome_iff_exists.mp (hframes push List.mem_cons_self)
      obtain ⟨-, hfirst, hbytes⟩ := flatten_frame hshort hframe
      by_cases heq : push.2 = w
      · have hcons : pushedTo (push :: rest) w = push.1 :: pushedTo rest w := by
          simp [pushedTo, heq]
        rw [hcons]
        refine ⟨fun i hi => ?_, ?_⟩
        · rcases List.mem_cons.mp hi with rfl | hi
          · exact hfirst
          · exact hvalid i hi
        · rw [List.map_cons, List.flatMap_cons, ← hflatten, ← hbytes]
          simp [SocketSupplier.framesTo, heq, hframe]
      · have hcons : pushedTo (push :: rest) w = pushedTo rest w := by
          simp [pushedTo, heq]
        rw [hcons]
        refine ⟨hvalid, ?_⟩
        rw [← hflatten]
        simp [SocketSupplier.framesTo, heq]

theorem flatten_endFrames (n : ℕ) : (List.replicate n endFrame).flatten =
    (List.replicate n Item.endSignal).flatMap Item.bytes := by
  induction n with
  | zero => rfl
  | succ n ih => simp [List.replicate_succ, ih, Item.bytes]

/-- What was sent to a worker is the front of its datasets, at most one that is being sent, and
end ids, which are sent after `PushEndSignal` has set the callback. -/
theorem sent_prefix (hshort : ring.Short) {supplier : SocketSupplier} {begun : ℕ → List Bytes}
    {ends : ℕ → ℕ}
    (h : SocketSupplier.Supplied ring.setting.files ring.input begun ends supplier) (w : ℕ) :
    ∃ more : List ℕ, (more ≠ [] → ends w = 0) ∧
      (∀ i ∈ pushedTo supplier.returned w ++ more, (ring.inputItem i).Valid) ∧
      (supplier.sent w).flatten <+:
        ((pushedTo supplier.returned w ++ more).map ring.inputItem ++
          List.replicate (ends w) Item.endSignal).flatMap Item.bytes := by
  obtain ⟨hvalid, hflatten⟩ := flatten_framesTo hshort w h.frames
  have hsent : (supplier.sent w).flatten =
      ((pushedTo supplier.returned w).map ring.inputItem).flatMap Item.bytes ++
        ((begun w).flatten ++ (List.replicate (ends w) endFrame).flatten) := by
    rw [h.sent w, List.flatten_append, List.flatten_append, hflatten, List.append_assoc]
  by_cases hbegun : begun w = []
  · refine ⟨[], fun hne => absurd rfl hne, by simpa using hvalid, ?_⟩
    rw [hsent, hbegun, List.append_nil, List.flatMap_append, flatten_endFrames]
    exact List.prefix_rfl
  · obtain ⟨hends, i, left, -, hframe⟩ := h.begun_ne_nil hbegun
    obtain ⟨-, hitem, hbytes⟩ := flatten_frame hshort hframe
    refine ⟨[i], fun _ => hends, fun j hj => ?_, ?_⟩
    · rcases List.mem_append.mp hj with hj | hj
      · exact hvalid j hj
      · rw [List.mem_singleton.mp hj]
        exact hitem
    · refine ⟨left.flatten, ?_⟩
      rw [hsent, hends]
      simp [← hbytes]

/-- **A worker that has ended** has pulled every dataset that was pushed to it, and the supplier
is in `PushEndSignal`. -/
theorem pulled_of_ended (hshort : ring.Short) {supplier : SocketSupplier}
    {begun : ℕ → List Bytes} {ends : ℕ → ℕ}
    (h : SocketSupplier.Supplied ring.setting.files ring.input begun ends supplier) {w : ℕ}
    {connection : Connection} {worker : Worker}
    (hworking : Working (supplier.sent w) connection worker) (hended : worker.stage.ended = true) :
    supplier.stage.callbackSet = true ∧
      worker.pulled = (pushedTo supplier.returned w).map fun i => (i, (ring.content i).getD []) := by
  obtain ⟨more, hmore, hvalid, hsent⟩ := sent_prefix hshort h w
  have hitems : worker.items <+: (pushedTo supplier.returned w ++ more).map ring.inputItem ++
      List.replicate (ends w) Item.endSignal := by
    refine prefix_of_flatMap_bytes hworking.valid (fun item hitem => ?_)
      (List.IsPrefix.trans ⟨_, hworking.bytes⟩ hsent)
    rcases List.mem_append.mp hitem with hitem | hitem
    · obtain ⟨i, hi, rfl⟩ := List.mem_map.mp hitem
      exact hvalid i hi
    · rw [List.eq_of_mem_replicate hitem]
      trivial
  rw [Worker.items, if_pos hended] at hitems
  obtain ⟨hpulled, hends⟩ := endSignal_prefix (by simp) (by simp [inputItem]) hitems
  have hnone : more = [] := by
    by_contra hne
    exact hends (hmore hne)
  rw [hnone, List.append_nil] at hpulled
  refine ⟨h.ends w hends, ?_⟩
  have hdecode := congrArg (List.filterMap Item.dataset?) hpulled
  simpa [List.filterMap_map, Function.comp_def, Item.dataset?, inputItem] using hdecode

/-! ## The output data -/

variable (ring) in
/-- The input dataset `i` as it is added to the output data. -/
def outputDataset (i : ℕ) : Dataset :=
  SocketAggregator.outputDataset ring.setting i ((ring.content i).getD [])

/-- Lists whose elements of every source agree are the same up to order. -/
theorem perm_of_filter_source {α : Type*} [DecidableEq α] {entries entries' : List (ℕ × α)}
    (h : ∀ w, (entries.filter fun entry => entry.1 = w).map Prod.snd =
      (entries'.filter fun entry => entry.1 = w).map Prod.snd) : entries.Perm entries' := by
  have hsource : ∀ (l : List (ℕ × α)) (w : ℕ), l.filter (fun entry => entry.1 = w) =
      ((l.filter fun entry => entry.1 = w).map Prod.snd).map fun value => (w, value) := by
    intro l w
    rw [List.map_map]
    refine ((List.map_congr_left fun entry hentry => ?_).trans (List.map_id _)).symm
    have hw : entry.1 = w := by simpa using (List.mem_filter.mp hentry).2
    simp [← hw]
  rw [List.perm_iff_count]
  intro entry
  have hcount : ∀ l : List (ℕ × α), l.count entry =
      (l.filter fun other => other.1 = entry.1).count entry := fun l =>
    (List.count_filter (by simp)).symm
  rw [hcount entries, hcount entries', hsource entries, hsource entries', h]

/-- The state of the ring. -/
structure Inv (ring : SocketRing) (s : State) : Prop where
  supplied : ∃ begun ends,
    SocketSupplier.Supplied ring.setting.files ring.input begun ends s.supplier
  sound : SocketAggregator.Sound ring.setting s.aggregator
  working : ∀ w, Working (s.supplier.sent w) (s.aggregator.connections w) (s.workers w)
  stored : s.aggregator.stage = .stopping ∨ s.aggregator.stage = .left →
    (∀ i < ring.input.datasets.length, (ring.content i).isSome) ∧
      s.aggregator.output.Perm ((List.range ring.input.datasets.length).map ring.outputDataset)

/-- **When the map is empty** and every worker that was sent a dataset was inserted, the output
data is complete. -/
theorem Inv.stored_of_empty (hshort : ring.Short) {s : State} (h : Inv ring s)
    (hstage : s.aggregator.stage = .checking)
    (hempty : s.aggregator.server.clientSockets.isEmpty = true)
    (hinserted : ∀ push ∈ s.supplier.returned, push.2 ∈ s.aggregator.server.inserted) :
    (∀ i < ring.input.datasets.length, (ring.content i).isSome) ∧
      s.aggregator.output.Perm
        ((List.range ring.input.datasets.length).map ring.outputDataset) := by
  obtain ⟨begun, ends, hsupplied⟩ := h.supplied
  -- the aggregator has pulled an end, so that the supplier has pushed every dataset
  obtain ⟨c, hend⟩ := h.sound.holding.checking hstage
  obtain ⟨-, hended⟩ :=
    Connection.eq_items_of_endSignal_mem (h.sound.delivered.pulled_prefix c) hend
  have hset : s.supplier.stage.callbackSet = true :=
    (pulled_of_ended hshort hsupplied (h.working c) ((h.working c).ended.symm.trans hended)).1
  have hreturned : s.supplier.returned.map Prod.fst =
      List.range ring.input.datasets.length := by
    have horder := hsupplied.order
    rw [hsupplied.provided (SupplierStage.looped_of_callbackSet hset),
      ring.input.datasetsToProvide_eq.1] at horder
    have hpushing : s.supplier.stage.pushing = none := by
      revert hset
      cases s.supplier.stage <;> first | exact fun _ => rfl | exact fun hset => by cases hset
    simpa [hpushing] using horder
  -- what was pulled from each worker is what was pushed to it
  have hpulled : ∀ w, s.aggregator.pulledFrom w =
      (pushedTo s.supplier.returned w).map fun i => (i, (ring.content i).getD []) := by
    intro w
    by_cases hw : w ∈ s.aggregator.server.inserted
    · obtain ⟨hended, hall⟩ := h.sound.pulled_all hempty hw
      rw [hall, (h.working w).pushed]
      exact (pulled_of_ended hshort hsupplied (h.working w)
        ((h.working w).ended.symm.trans hended)).2
    · have hnone : pushedTo s.supplier.returned w = [] := by
        rw [pushedTo, List.map_eq_nil_iff, List.filter_eq_nil_iff]
        intro push hpush hpushed
        exact hw (of_decide_eq_true hpushed ▸ hinserted push hpush)
      have hentries : s.aggregator.pulled.filter (fun entry => entry.1 = w) = [] := by
        rw [List.filter_eq_nil_iff]
        intro entry hentry hsource
        have hthread := h.sound.holding.entries entry (List.mem_append_left _ hentry)
        have hin := (h.sound.registering.threads entry.1 _ hthread).2.2 (by rw [hstage]; nofun)
        exact hw (of_decide_eq_true hsource ▸ hin)
      rw [hnone, SocketAggregator.pulledFrom_eq, SocketAggregator.itemsFrom, hentries]
      rfl
  have hperm : (SocketAggregator.datasetsOf s.aggregator.pulled).Perm
      (s.supplier.returned.map fun push => (push.2, push.1, (ring.content push.1).getD [])) := by
    refine perm_of_filter_source fun w => ?_
    refine (hpulled w).trans ?_
    rw [pushedTo, List.filter_map, List.map_map, List.map_map]
    rfl
  have hadded := h.sound.added
  rw [SocketAggregator.Added, hstage] at hadded
  have houtput : s.aggregator.output = (SocketAggregator.datasetsOf s.aggregator.pulled).map
      fun entry => SocketAggregator.outputDataset ring.setting entry.2.1 entry.2.2 := by
    simpa [PullStage.pending] using hadded
  refine ⟨fun i hi => ?_, ?_⟩
  · obtain ⟨push, hpush, rfl⟩ := List.mem_map.mp (hreturned ▸ List.mem_range.mpr hi)
    obtain ⟨frame, hframe⟩ := Option.isSome_iff_exists.mp (hsupplied.frames push hpush)
    exact (flatten_frame hshort hframe).1
  · rw [houtput, ← hreturned, List.map_map]
    refine (hperm.map _).trans (List.Perm.of_eq ?_)
    rw [List.map_map]
    rfl

/-! ## Steps -/

theorem working_update {s : State} {w : ℕ} {worker : Worker}
    (h : ∀ other ≠ w, Working (s.supplier.sent other) (s.aggregator.connections other)
      (s.workers other))
    (hw : Working (s.supplier.sent w) (s.aggregator.connections w) worker) (other : ℕ) :
    Working (s.supplier.sent other) (s.aggregator.connections other)
      (Function.update s.workers w worker other) := by
  by_cases heq : other = w
  · rw [heq, Function.update_self]
    exact hw
  · rw [Function.update_of_ne heq]
    exact h other heq

/-- A worker moves on. -/
theorem Inv.setWorker {s : State} (h : Inv ring s) {w : ℕ} {worker : Worker}
    (hw : Working (s.supplier.sent w) (s.aggregator.connections w) worker) :
    Inv ring (setWorker s w worker) :=
  ⟨h.supplied, h.sound, working_update (fun other _ => h.working other) hw, h.stored⟩

/-- A step of the supplier. -/
theorem Inv.supplierStep {s t : State} {a : SocketSupplier.Action} (h : Inv ring s)
    (hstep : supplierStep ring s a = some t) :
    Inv ring t ∧ t.aggregator = s.aggregator ∧ t.workers = s.workers := by
  obtain ⟨⟨nextClientId, supplier⟩, hsupplier, rfl⟩ := Option.map_eq_some_iff.mp hstep
  obtain ⟨begun, ends, hsupplied⟩ := h.supplied
  obtain ⟨begun', ends', hsupplied', -⟩ :=
    SocketSupplier.Supplied.step hsupplied hsupplier
  exact ⟨⟨⟨begun', ends', hsupplied'⟩, h.sound, fun w =>
    (h.working w).of_sent (SocketSupplier.step_sent hsupplier w), h.stored⟩, rfl, rfl⟩

/-- A step of the aggregator: the workers that do not push keep what they have. -/
theorem Inv.aggregatorStep {s t : State} {a : SocketAggregator.Action} (hshort : ring.Short)
    (h : Inv ring s) (hstep : aggregatorStep ring s a = some t)
    (hintact : SocketAggregator.Intact ring.setting (s.nextClientId, s.aggregator) a)
    (hinserted : a = .run → AllInserted s .aggregatorRun) :
    t.supplier = s.supplier ∧ t.workers = s.workers ∧
      SocketAggregator.Sound ring.setting t.aggregator ∧
      (∀ w, a.pusher ≠ some w →
        Working (t.supplier.sent w) (t.aggregator.connections w) (t.workers w)) ∧
      (t.aggregator.stage = .stopping ∨ t.aggregator.stage = .left →
        (∀ i < ring.input.datasets.length, (ring.content i).isSome) ∧
          t.aggregator.output.Perm
            ((List.range ring.input.datasets.length).map ring.outputDataset)) := by
  obtain ⟨⟨nextClientId, aggregator⟩, haggregator, rfl⟩ := Option.map_eq_some_iff.mp hstep
  refine ⟨rfl, rfl, SocketAggregator.Sound.step h.sound hintact haggregator, fun w hw => ?_,
    fun hstage => ?_⟩
  · obtain ⟨hpushed, hended⟩ := SocketAggregator.step_pushed haggregator hw
    exact (h.working w).of_connection hpushed hended
  · by_cases hrun : a = .run
    · subst hrun
      obtain ⟨next, hnext, heq⟩ := Option.map_eq_some_iff.mp haggregator
      cases heq
      obtain ⟨houtput, ⟨hchecking, hempty⟩ | hstopping⟩ :=
        SocketAggregator.run_output hnext hstage
      · dsimp only
        rw [houtput]
        exact h.stored_of_empty hshort hchecking hempty (hinserted rfl hchecking hempty)
      · dsimp only
        rw [houtput]
        exact h.stored (.inl hstopping)
    · obtain ⟨hsame, houtput⟩ := SocketAggregator.step_stage haggregator hrun
      dsimp only at hsame houtput hstage ⊢
      rw [houtput]
      rw [hsame] at hstage
      exact h.stored hstage

/-- A step of the aggregator in which no worker pushes. -/
theorem Inv.aggregatorStep_of_quiet {s t : State} {a : SocketAggregator.Action}
    (hshort : ring.Short) (h : Inv ring s) (hstep : SocketRing.aggregatorStep ring s a = some t)
    (hintact : SocketAggregator.Intact ring.setting (s.nextClientId, s.aggregator) a)
    (hinserted : a = .run → AllInserted s .aggregatorRun) (hquiet : a.pusher = none) :
    Inv ring t := by
  obtain ⟨hsupplier, -, hsound, hworking, hstored⟩ :=
    h.aggregatorStep hshort hstep hintact hinserted
  refine ⟨hsupplier ▸ h.supplied, hsound, fun w => hworking w ?_, hstored⟩
  rw [hquiet]
  exact nofun

/-- What a worker pushes to the aggregator. -/
theorem aggregatorStep_push {s t : State} {w id : ℕ} {dataset : Dataset}
    (hstep : aggregatorStep ring s (.connection w (.push id dataset)) = some t) :
    ∃ buffer, dataset.retrieveBuffer ring.setting.files = .ok buffer ∧
      (t.aggregator.connections w).pushed =
        (s.aggregator.connections w).pushed ++ [(id, buffer)] ∧
      (t.aggregator.connections w).ended = (s.aggregator.connections w).ended := by
  obtain ⟨_, haggregator, rfl⟩ := Option.map_eq_some_iff.mp hstep
  obtain ⟨connection, entry, hact, rfl⟩ := SocketAggregator.step_connection haggregator
  dsimp only
  rw [Function.update_self]
  exact Connection.act_push hact

theorem aggregatorStep_pushEnd {s t : State} {w : ℕ}
    (hstep : aggregatorStep ring s (.connection w .pushEnd) = some t) :
    (t.aggregator.connections w).pushed = (s.aggregator.connections w).pushed ∧
      (t.aggregator.connections w).ended = true := by
  obtain ⟨_, haggregator, rfl⟩ := Option.map_eq_some_iff.mp hstep
  obtain ⟨connection, entry, hact, rfl⟩ := SocketAggregator.step_connection haggregator
  dsimp only
  rw [Function.update_self]
  exact Connection.act_pushEnd hact

/-- A dataset that belongs to no data is its buffer. -/
theorem retrieveBuffer_retainBuffer {files : Files} {dataset : Dataset} (hdata : dataset.data = none)
    {id buffer content : Bytes}
    (h : ((dataset.setId id).retainBuffer buffer).retrieveBuffer files = .ok content) :
    content = buffer := by
  have hfilename : ((dataset.setId id).retainBuffer buffer).getFilename = none := by
    simp [Dataset.getFilename, Dataset.retainBuffer, Dataset.setId, hdata]
  unfold Dataset.retrieveBuffer at h
  split at h
  · cases h
    rfl
  · rw [hfilename] at h
    cases h

theorem not_mem_ne {w other : ℕ} (h : other ≠ w) : some w ≠ some other :=
  fun heq => h (Option.some.inj heq).symm

/-- **One step.** -/
theorem Inv.step {s t : State} {a : Action} (hshort : ring.Short) (h : Inv ring s)
    (hgood : AllInserted s a) (hstep : step ring s a = some t) : Inv ring t := by
  cases a with
  | supplierHandle => exact (h.supplierStep hstep).1
  | supplierRun => exact (h.supplierStep hstep).1
  | aggregatorHandle => exact h.aggregatorStep_of_quiet hshort hstep hgood nofun rfl
  | aggregatorRun => exact h.aggregatorStep_of_quiet hshort hstep trivial (fun _ => hgood) rfl
  | threadEnqueue w => exact h.aggregatorStep_of_quiet hshort hstep trivial nofun rfl
  | send w => exact h.aggregatorStep_of_quiet hshort hstep trivial nofun rfl
  | threadReceive w cut =>
      simp only [SocketRing.step] at hstep
      split at hstep
      · rename_i hintact
        exact h.aggregatorStep_of_quiet hshort hstep hintact nofun rfl
      · cases hstep
  | connectSupplier w =>
      simp only [SocketRing.step] at hstep
      split at hstep
      · rename_i hstarting
        obtain ⟨middle, hmiddle, rfl⟩ := Option.map_eq_some_iff.mp hstep
        obtain ⟨hinv, -, hworkers⟩ := h.supplierStep hmiddle
        refine hinv.setWorker ?_
        rw [← hworkers] at hstarting ⊢
        exact (hinv.working w).of_stage (by rw [hstarting]; rfl)
      · cases hstep
  | connectAggregator w =>
      simp only [SocketRing.step] at hstep
      split at hstep
      · rename_i hregistered
        obtain ⟨middle, hmiddle, rfl⟩ := Option.map_eq_some_iff.mp hstep
        have hworkers := (h.aggregatorStep hshort hmiddle trivial nofun).2.1
        have hinv := h.aggregatorStep_of_quiet hshort hmiddle trivial nofun rfl
        refine hinv.setWorker ?_
        rw [← hworkers] at hregistered ⊢
        exact (hinv.working w).of_stage (by rw [hregistered]; rfl)
      · cases hstep
  | receive w cut =>
      simp only [SocketRing.step] at hstep
      split at hstep
      · rename_i hguard
        obtain ⟨⟨reader, left⟩, hreceive, rfl⟩ := Option.map_eq_some_iff.mp hstep
        exact h.setWorker ((h.working w).receive hguard.2 hreceive)
      · cases hstep
  | push w =>
      simp only [SocketRing.step] at hstep
      split at hstep
      · rename_i hguard
        obtain ⟨hpulling, hwhole⟩ := hguard
        have hw := h.working w
        split at hstep
        · -- the worker passes the end on
          rename_i hitem
          obtain ⟨middle, hmiddle, rfl⟩ := Option.map_eq_some_iff.mp hstep
          obtain ⟨hsupplier, hworkers, hsound, hworking, hstored⟩ :=
            h.aggregatorStep hshort hmiddle trivial nofun
          refine ⟨hsupplier ▸ h.supplied, hsound, ?_, hstored⟩
          refine working_update (fun other hother => hworking other (not_mem_ne hother)) ?_
          rw [hsupplier]
          obtain ⟨hpushed, hended⟩ := aggregatorStep_pushEnd hmiddle
          exact hw.pushEnd hpulling hwhole hitem hpushed hended
        · rename_i id buffer hitem
          obtain ⟨middle, hmiddle, rfl⟩ := Option.map_eq_some_iff.mp hstep
          obtain ⟨content, hcontent, hpushed, hended⟩ := aggregatorStep_push hmiddle
          obtain rfl := retrieveBuffer_retainBuffer hw.data hcontent
          -- what was received fits the length field
          have hintact : Dataset.Short ring.setting.files
              (((s.workers w).dataset.setId (datasetName id)).retainBuffer content) := by
            intro other hother
            rw [hcontent] at hother
            cases hother
            have hvalid := (Reader.bytes_item hw.reader hwhole).1
            rw [hitem] at hvalid
            exact hvalid.2
          obtain ⟨hsupplier, hworkers, hsound, hworking, hstored⟩ :=
            h.aggregatorStep hshort hmiddle hintact nofun
          refine ⟨hsupplier ▸ h.supplied, hsound, ?_, hstored⟩
          refine working_update (fun other hother => hworking other (not_mem_ne hother)) ?_
          rw [hsupplier]
          exact hw.push hpulling hwhole hitem hw.data hpushed hended
      · cases hstep
  | finishPush w =>
      simp only [SocketRing.step] at hstep
      split at hstep
      · split at hstep
        · rename_i hpushing
          cases hstep
          exact h.setWorker ((h.working w).of_stage (by rw [hpushing]; rfl))
        · rename_i hending
          cases hstep
          exact h.setWorker ((h.working w).of_stage (by rw [hending]; rfl))
        · cases hstep
      · cases hstep

theorem inv_initial : Inv ring (initial ring) where
  supplied := ⟨_, _, SocketSupplier.supplied_initial⟩
  sound := SocketAggregator.sound_initial
  working := fun _ =>
    { reader := Reader.fits_start (length_word 4 _) (length_word 4 _)
      data := rfl
      read := Nat.le_refl 0
      valid := nofun
      bytes := rfl
      pushed := rfl
      ended := rfl }
  stored := fun hstage => by rcases hstage with h | h <;> cases h

theorem reachable_inv (hshort : ring.Short) {s : State}
    (h : Reachable (restrict AllInserted (step ring)) (initial ring) s) : Inv ring s :=
  h.invariant inv_initial fun _ _ _ _ hinv hstep =>
    hinv.step hshort (restrict_eq_some.mp hstep).1 (restrict_eq_some.mp hstep).2

/-- **Exactly once.**  When `Run` of the aggregator has left, the output data has every input dataset
once, with its id and its content, if the map of the aggregator was found empty only when every
worker that was sent a dataset had been inserted into it. -/
theorem exactly_once_of_all_inserted (hshort : ring.Short) {s : State}
    (h : Reachable (restrict AllInserted (step ring)) (initial ring) s)
    (hleft : s.aggregator.stage = .left) :
    (∀ i < ring.input.datasets.length, (ring.content i).isSome) ∧
      s.aggregator.output.Perm
        ((List.range ring.input.datasets.length).map ring.outputDataset) :=
  (reachable_inv hshort h).stored (.inr hleft)

/-- One dataset of one byte. -/
def oneByteRing : SocketRing := ⟨SocketSupplier.oneByte, SocketAggregator.inMemory⟩

/-- Worker `w` registers with the supplier, or with the aggregator. -/
def registerSupplier (w : ℕ) : List Action :=
  .connectSupplier w :: List.replicate 4 .supplierHandle

def registerAggregator (w : ℕ) : List Action :=
  .connectAggregator w :: List.replicate 4 .aggregatorHandle

/-- Worker `w` pulls the end and pushes its own, and the receive thread gets it. -/
def endWorker (w : ℕ) : List Action :=
  [.receive w 4, .push w, .send w, .finishPush w, .threadReceive w 4, .threadEnqueue w]

/-- Worker `w` pulls a dataset of one byte and pushes it, and the receive thread gets it. -/
def passByte (w : ℕ) : List Action :=
  [.receive w 4, .receive w 4, .receive w 1, .push w, .send w, .send w, .send w, .finishPush w,
    .threadReceive w 4, .threadReceive w 4, .threadReceive w 1, .threadEnqueue w]

theorem exactly_once_of_all_inserted_one_byte :
    ∃ s, Reachable (restrict AllInserted (step oneByteRing)) (initial oneByteRing) s ∧
      s.aggregator.stage = .left ∧ s.supplier.returned = [(0, 0)] ∧
      (∀ i < oneByteRing.input.datasets.length, (oneByteRing.content i).isSome) ∧
      s.aggregator.output.Perm
        ((List.range oneByteRing.input.datasets.length).map oneByteRing.outputDataset) := by
  obtain ⟨s, hreach, hend⟩ := Reachable.exists_of_run
    (show (Transition.run (restrict AllInserted (step oneByteRing)) (initial oneByteRing)
        (registerSupplier 0 ++ registerAggregator 0 ++ List.replicate 13 .supplierRun ++
          passByte 0 ++ endWorker 0 ++ List.replicate 8 .aggregatorRun)).any
        (fun s => decide (s.aggregator.stage = .left ∧ s.supplier.returned = [(0, 0)])) = true by
      decide +kernel)
  obtain ⟨hleft, hreturned⟩ := of_decide_eq_true hend
  exact ⟨s, hreach, hleft, hreturned, exactly_once_of_all_inserted (by decide) hreach hleft⟩

/-- Worker 1 is sent the dataset before it has registered with the aggregator, and the end of worker
0 empties the map. -/
theorem worker_missed :
    ∃ s, Reachable (step oneByteRing) (initial oneByteRing) s ∧ s.aggregator.stage = .left ∧
      s.supplier.stage = .finished ∧ s.supplier.returned = [(0, 1)] ∧
      (s.workers 1).stage = .registered ∧
      oneByteRing.content 0 = some [9] ∧ s.aggregator.output = [] := by
  obtain ⟨s, hreach, hend⟩ := Reachable.exists_of_run
    (show (Transition.run (step oneByteRing) (initial oneByteRing)
        (registerSupplier 1 ++ registerSupplier 0 ++ registerAggregator 0 ++
          List.replicate 15 .supplierRun ++ endWorker 0 ++ List.replicate 5 .aggregatorRun)).any
        (fun s => decide (s.aggregator.stage = .left ∧ s.supplier.stage = .finished ∧
          s.supplier.returned = [(0, 1)] ∧ (s.workers 1).stage = .registered ∧
          oneByteRing.content 0 = some [9] ∧ s.aggregator.output = [])) = true by decide +kernel)
  exact ⟨s, hreach, of_decide_eq_true hend⟩

end ComputeWebApp.Data.SocketRing
