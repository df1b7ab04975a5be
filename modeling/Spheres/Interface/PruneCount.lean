import Spheres.Interface.ProbeBudget
import Spheres.Library.SizeT
import Spheres.Library.WrappedCounter
import Spheres.Parallel.PageFates

/-!
# Pruning statistics

The workers of `find_k_nearest` count the pages that they skip, and the counts add
up in `n_pruned` over the calls. Here the counters are those of the machine: the
position of the next morsel and the count of pruned pages are reduced modulo the
number of values of a `size_t`.
-/

namespace Spheres

open Execution Parallel Library Library.Interleaving Library.MorselLoop Library.Selection

variable {V R : Type*}

/-- A call of `find_k_nearest` with the schedules of its tasks. -/
structure KnnCall (V : Type*) where
  query : V
  k : Nat
  nPagesToProbe : Nat
  step : Nat
  fillSched : List (Nat × Unit)
  sched : List (Nat × Bool)

/-- The rate that the benchmark reports. -/
def pruningRate (nPruned nQueries nPages : Nat) : ℚ := nPruned / nQueries / nPages

namespace Database

variable [LinearOrder R]

/-- The search task of a call. -/
def callTask (db : Database V R) (call : KnnCall V) : FindKnn V R :=
  db.knnTask call.query call.k call.nPagesToProbe call.step (db.queryOrder call.query)

/-- What becomes of the pages during a call. -/
def pageEvents (db : Database V R) (call : KnnCall V) : Multiset PageEvent :=
  Loop.events ((db.callTask call).findKnnWorker.wrappedAct SizeT.size)
    ((db.callTask call).findKnnWorker.wrappedEmits SizeT.size (db.callTask call).pageEvents)
    (turnsOf _ call.sched) db.knnStart

/-- The pages that a call probes. -/
def probedIdxs (db : Database V R) (call : KnnCall V) : List Nat :=
  ((db.queryOrder call.query).take (db.probeCount call.query call.nPagesToProbe)).map (·.second)

/-- Each probed page is skipped or scanned to its end, once, and `n_pruned` has grown
by the number of pages that were skipped. -/
structure PruneCountExact (db : Database V R) (call : KnnCall V) (after : Database V R) :
    Prop where
  once : (db.pageEvents call).map (·.pageIdx) = db.probedIdxs call
  distinct : (db.probedIdxs call).Nodup
  complete : ∀ e ∈ db.pageEvents call, e.Complete db.dbStorage.pages
  total : after.nPruned =
    (db.nPruned + (db.pageEvents call).countP (·.isPruned)) % SizeT.size

/-- The call asks for a neighbour and for no more pages than there are, its workers
advance, and the counter of the morsels fits its type. -/
def Fits (db : Database V R) (call : KnnCall V) : Prop :=
  0 < call.k ∧ call.nPagesToProbe ≤ db.nonEmptyPages ∧ 0 < call.step ∧
    (db.callTask call).findKnnWorker.CounterFits db.nThreads SizeT.size

variable [Zero R]

/-- `find_k_nearest` with the counters of the machine. -/
def findKNearestSizeT (db : Database V R) (call : KnnCall V) :
    Outcome (Database V R × List (Option (IdTaggedDistance R))) :=
  (db.fillDistToAnchorBuffer call.query (turnsOf _ call.fillSched)).bind fun buffer =>
  (complete ((db.knnTask call.query call.k call.nPagesToProbe call.step
    buffer).findKnnWorker.wrappedAct SizeT.size) Loop.isDone (turnsOf _ call.sched)
    db.knnStart).bind fun c =>
  let heaps := fun t => (c.threads t).work.heap
  (Outcome.ofOption (mergeOutputs (db.internalBuffer.resize .valueInit (db.nThreads * call.k))
    heaps)).bind fun merged =>
  .returned
    ({ db with
        distToAnchorBuffer := buffer
        localDistanceBuffers := fun t => (heaps t).heap
        internalBuffer := merged
        nPruned := c.shared.tally },
      (List.range call.k).map fun ik => merged.elems[ik]?)

/-- The database after a sequence of calls. -/
def knnCalls (db : Database V R) : List (KnnCall V) → Outcome (Database V R)
  | [] => .returned db
  | call :: rest => (db.findKNearestSizeT call).bind fun r => r.1.knnCalls rest

section Call

variable {db : Database V R} {call : KnnCall V}

omit [Zero R] [LinearOrder R] in
/-- A count that a machine can hold is the one it starts with. -/
theorem wrapConfig_knnStart (hSize : db.nPruned < SizeT.size) :
    Loop.wrapConfig SizeT.size db.knnStart = db.knnStart := by
  unfold Loop.wrapConfig Shared.wrap knnStart
  simp only [Nat.zero_mod, Nat.mod_eq_of_lt hSize]

omit [Zero R] in
theorem claimed_knnStart (T : FindKnn V R) : T.findKnnWorker.Claimed db.knnStart :=
  Loop.claimed_start rfl

omit [Zero R] in
theorem counterFits_card (hfits : db.Fits call) :
    (db.callTask call).findKnnWorker.CounterFits (Fintype.card (Fin db.nThreads)) SizeT.size := by
  rw [Fintype.card_fin]
  exact hfits.2.2.2

/-- The call on the machine does what it does with exact counters, up to the
reduction of the count. -/
theorem findKNearestSizeT_eq
    (hCoherent : Coherent db.dbStorage.pages db.cachedVectors db.cachedMaxDists)
    (hSize : db.nPruned < SizeT.size) (hfits : db.Fits call) :
    db.findKNearestSizeT call =
      (db.findKNearest call.query call.k call.nPagesToProbe call.step (turnsOf _ call.fillSched)
        (turnsOf _ call.sched)).bind fun r =>
          .returned ({ r.1 with nPruned := r.1.nPruned % SizeT.size }, r.2) := by
  unfold findKNearestSizeT findKNearest
  cases hbuffer : db.fillDistToAnchorBuffer call.query (turnsOf _ call.fillSched) with
  | fault => rfl
  | blocked => rfl
  | returned buffer =>
    obtain rfl : buffer = db.queryOrder call.query :=
      fillDistToAnchorBuffer_returned hCoherent hbuffer
    have hrun := Loop.complete_wrapped (claimed_knnStart (db.callTask call))
      (counterFits_card hfits) (turnsOf _ call.sched)
    rw [wrapConfig_knnStart hSize] at hrun
    simp only [Outcome.bind_returned]
    rw [show db.knnTask call.query call.k call.nPagesToProbe call.step
      (db.queryOrder call.query) = db.callTask call from rfl, hrun]
    cases complete (db.callTask call).findKnnWorker.act Loop.isDone (turnsOf _ call.sched)
      db.knnStart with
    | fault => rfl
    | blocked => rfl
    | returned c =>
      simp only [Outcome.bind_returned, Loop.wrapConfig]
      cases mergeOutputs (db.internalBuffer.resize .valueInit (db.nThreads * call.k))
        fun t => (c.threads t).work.heap <;> rfl

omit [Zero R] in
/-- The machine reports what the workers with exact counters report. -/
theorem pageEvents_eq (hSize : db.nPruned < SizeT.size) (hfits : db.Fits call) :
    db.pageEvents call = Loop.events (db.callTask call).findKnnWorker.act
      ((db.callTask call).findKnnWorker.emits (db.callTask call).pageEvents)
      (turnsOf _ call.sched) db.knnStart := by
  have hevents := Loop.events_wrapped (claimed_knnStart (db.callTask call))
    (counterFits_card hfits) (db.callTask call).pageEvents (turnsOf _ call.sched)
  rw [wrapConfig_knnStart hSize] at hevents
  exact hevents

omit [Zero R] in
/-- The pages of the distance buffer are distinct. -/
theorem nodup_probedIdxs (db : Database V R) (call : KnnCall V) : (db.probedIdxs call).Nodup := by
  have horder : ((db.queryOrder call.query).map (·.second)).Nodup := by
    have hperm : (db.queryOrder call.query).Perm
        (anchorDistances db.installed.distFunc db.dbStorage.pages call.query) :=
      List.perm_insertionSort _ _
    refine (hperm.map _).nodup_iff.mpr (List.pairwise_map.mpr ?_)
    exact (pairwise_perPage _ _).imp fun hlt => hlt.ne
  rw [probedIdxs, List.map_take]
  exact horder.sublist (List.take_sublist _ _)

omit [Zero R] in
theorem probeCount_le (hfits : db.Fits call) :
    db.probeCount call.query call.nPagesToProbe ≤ (db.queryOrder call.query).length := by
  rw [probeCount]
  split
  · exact le_rfl
  · rw [length_queryOrder_eq]
    exact hfits.2.1

omit [Zero R] in
/-- What becomes of the probed pages when the search task is over. -/
theorem counts_of_complete (hUniform : db.dbStorage.Uniform) (hThreads : 0 < db.nThreads)
    (hSize : db.nPruned < SizeT.size) (hfits : db.Fits call)
    {c : Config (Fin db.nThreads) (Shared R) (Thread R (KnnWork R))}
    (hrun : complete (db.callTask call).findKnnWorker.act Loop.isDone (turnsOf _ call.sched)
      db.knnStart = .returned c) :
    (db.pageEvents call).map (·.pageIdx) = db.probedIdxs call ∧
      (∀ e ∈ db.pageEvents call, e.Complete db.dbStorage.pages) ∧
      c.shared.tally = db.nPruned + (db.pageEvents call).countP (·.isPruned) := by
  have : Nonempty (Fin db.nThreads) := ⟨⟨0, hThreads⟩⟩
  obtain ⟨hsteps, -⟩ := complete_eq_returned.mp hrun
  rw [pageEvents_eq hSize hfits]
  refine ⟨?_, ?_, ?_⟩
  · have hmap := Loop.map_events (f := fun e : PageEvent => some e.pageIdx)
      (g := fun i => ((db.queryOrder call.query)[i]?).map (·.second))
      (fun b lo hi w w' hscan => FindKnn.map_pageEvents (T := db.callTask call) hUniform hscan)
      hsteps
    have hvisits : (db.callTask call).findKnnWorker.visits (turnsOf _ call.sched) db.knnStart =
        Multiset.Ico 0 (db.probeCount call.query call.nPagesToProbe) :=
      (Loop.visits_start rfl (fun _ => rfl) _).2 c hrun
    rw [hvisits] at hmap
    apply Multiset.map_injective (Option.some_injective Nat)
    rw [Multiset.map_map]
    refine hmap.trans ?_
    have hrange : Multiset.Ico 0 (db.probeCount call.query call.nPagesToProbe) =
        (List.range (db.probeCount call.query call.nPagesToProbe) : Multiset Nat) := by
      rw [← Nat.zero_add (db.probeCount _ _), ← Loop.coe_range', Nat.zero_add,
        List.range_eq_range']
    rw [hrange, Multiset.map_coe, Multiset.map_coe, probedIdxs, List.map_map]
    apply congrArg
    have hsome := map_getElem?_range (probeCount_le hfits)
    have hmap := congrArg (List.map (Option.map (·.second))) hsome
    rw [List.map_map, List.map_map] at hmap
    exact hmap
  · exact Loop.forall_events (fun b lo hi w w' hscan =>
      FindKnn.complete_pageEvents (T := db.callTask call) hUniform hscan) hsteps
  · exact Loop.tally_complete (p := fun e : PageEvent => e.isPruned = true)
      (fun b lo hi w w' hscan =>
        FindKnn.countP_pageEvents (T := db.callTask call) hUniform hscan) (fun _ => rfl) hrun

/-- One call. -/
theorem findKNearestSizeT_counts (hUniform : db.dbStorage.Uniform)
    (hCoherent : Coherent db.dbStorage.pages db.cachedVectors db.cachedMaxDists)
    (hThreads : 0 < db.nThreads) (hSize : db.nPruned < SizeT.size) (hfits : db.Fits call)
    {r : Database V R × List (Option (IdTaggedDistance R))}
    (hrun : db.findKNearestSizeT call = .returned r) :
    db.PruneCountExact call r.1 ∧ ∃ b, r.1 = db.refill b ∧ b.nPruned < SizeT.size := by
  rw [findKNearestSizeT_eq hCoherent hSize hfits] at hrun
  obtain ⟨r₀, hrun, hr⟩ := Outcome.bind_eq_returned.mp hrun
  obtain ⟨buffer, hbuffer, hrun⟩ := Outcome.bind_eq_returned.mp hrun
  obtain rfl : buffer = db.queryOrder call.query :=
    fillDistToAnchorBuffer_returned hCoherent hbuffer
  obtain ⟨c, hc, hrun⟩ := Outcome.bind_eq_returned.mp hrun
  obtain ⟨merged, -, hrun⟩ := Outcome.bind_eq_returned.mp hrun
  obtain ⟨honce, hcomplete, htally⟩ := counts_of_complete hUniform hThreads hSize hfits hc
  cases hrun
  cases hr
  refine ⟨⟨honce, nodup_probedIdxs db call, hcomplete, by rw [← htally]⟩, ?_⟩
  exact ⟨⟨db.queryOrder call.query, fun t => (c.threads t).work.heap.heap, merged,
    c.shared.tally % SizeT.size⟩, rfl, Nat.mod_lt _ (by decide)⟩

omit [Zero R] in
/-- No more pages are skipped than are cached. -/
theorem PruneCountExact.total_le {after : Database V R} (h : db.PruneCountExact call after)
    (hCoherent : Coherent db.dbStorage.pages db.cachedVectors db.cachedMaxDists) :
    after.nPruned ≤ db.nPruned + db.cachedMaxDists.length := by
  have hcount : (db.pageEvents call).countP (·.isPruned) ≤ db.cachedMaxDists.length := by
    calc (db.pageEvents call).countP (·.isPruned)
        ≤ (db.pageEvents call).card := Multiset.countP_le_card _ _
      _ = (db.probedIdxs call).length := by
        rw [← Multiset.card_map PageEvent.pageIdx, h.once, Multiset.coe_card]
      _ ≤ (db.queryOrder call.query).length := by
        rw [probedIdxs, List.length_map]
        exact (List.take_sublist _ _).length_le
      _ = db.cachedMaxDists.length := length_queryOrder hCoherent _
  rw [h.total]
  exact (Nat.mod_le _ _).trans (Nat.add_le_add_left hcount _)

end Call

section Calls

variable {db : Database V R}

/-- After calls that fit only the buffers differ, and the count has grown by at most the
number of pages in each call. -/
theorem knnCalls_refill (hUniform : db.dbStorage.Uniform)
    (hCoherent : Coherent db.dbStorage.pages db.cachedVectors db.cachedMaxDists)
    (hThreads : 0 < db.nThreads) (hSize : db.nPruned < SizeT.size) {calls : List (KnnCall V)}
    (hfits : ∀ call ∈ calls, db.Fits call) {db' : Database V R}
    (hrun : db.knnCalls calls = .returned db') :
    ∃ b, db' = db.refill b ∧ b.nPruned < SizeT.size ∧
      b.nPruned ≤ db.nPruned + calls.length * db.cachedMaxDists.length := by
  induction calls generalizing db with
  | nil =>
    obtain rfl : db = db' := Outcome.returned.inj hrun
    exact ⟨⟨db.distToAnchorBuffer, db.localDistanceBuffers, db.internalBuffer, db.nPruned⟩, rfl,
      hSize, Nat.le_add_right _ _⟩
  | cons call rest ih =>
    obtain ⟨r, hr, hrest⟩ := Outcome.bind_eq_returned.mp hrun
    obtain ⟨hcounts, b, hb, hSize'⟩ := findKNearestSizeT_counts hUniform hCoherent hThreads hSize
      (hfits call List.mem_cons_self) hr
    have hle := hcounts.total_le hCoherent
    rw [hb] at hle hrest
    obtain ⟨b', rfl, hSize'', hle'⟩ := ih
      (show (db.refill b).dbStorage.Uniform from hUniform) hCoherent hThreads hSize'
      (fun call hcall => hfits call (List.mem_cons_of_mem _ hcall)) hrest
    refine ⟨b', rfl, hSize'', hle'.trans ?_⟩
    rw [List.length_cons, Nat.succ_mul]
    exact (Nat.add_le_add_right hle _).trans (by
      show db.nPruned + db.cachedMaxDists.length + rest.length * db.cachedMaxDists.length ≤ _
      omega)

theorem pruningRate_mem {nPruned nQueries nPages : Nat} (h : nPruned ≤ nQueries * nPages) :
    0 ≤ pruningRate nPruned nQueries nPages ∧ pruningRate nPruned nQueries nPages ≤ 1 := by
  have hle : (nPruned : ℚ) ≤ nQueries * nPages := mod_cast h
  constructor
  · unfold pruningRate
    positivity
  · rw [pruningRate, div_div]
    exact div_le_one_of_le₀ hle (by positivity)

/-- In every sequence of calls that fit, the statistics of each call that returns are
exact, and starting from a count of zero the reported rate lies between 0 and 1; a
call returns once every worker has had enough turns. -/
theorem findKNearest_pruneStatistics (hUniform : db.dbStorage.Uniform)
    (hCoherent : Coherent db.dbStorage.pages db.cachedVectors db.cachedMaxDists)
    (hThreads : 0 < db.nThreads) (hSize : db.nPruned < SizeT.size) :
    (∀ earlier, (∀ call ∈ earlier, db.Fits call) → ∀ db', db.knnCalls earlier = .returned db' →
      ∀ call, db.Fits call → (db'.findKNearestSizeT call).WhenReturned fun r =>
        db'.PruneCountExact call r.1) ∧
    (db.nPruned = 0 → ∀ calls, (∀ call ∈ calls, db.Fits call) → ∀ db',
      db.knnCalls calls = .returned db' →
        0 ≤ pruningRate db'.nPruned calls.length db'.cachedMaxDists.length ∧
          pruningRate db'.nPruned calls.length db'.cachedMaxDists.length ≤ 1) ∧
    (db.Searchable → ∀ call, db.Fits call → call.k ≤ db.localDistanceBuffersSize →
      db.EnoughTurns call.query call.nPagesToProbe (turnsOf _ call.fillSched)
        (turnsOf _ call.sched) → ∃ r, db.findKNearestSizeT call = .returned r) := by
  refine ⟨fun earlier hearlier db' hrun call hfits => ?_, fun hzero calls hcalls db' hrun => ?_,
    fun hdb call hfits hBuffer hTurns => ?_⟩
  · obtain ⟨b, rfl, hSize', -⟩ :=
      knnCalls_refill hUniform hCoherent hThreads hSize hearlier hrun
    cases hcall : (db.refill b).findKNearestSizeT call with
    | fault => trivial
    | blocked => trivial
    | returned r =>
      exact (findKNearestSizeT_counts (show (db.refill b).dbStorage.Uniform from hUniform)
        hCoherent hThreads hSize' hfits hcall).1
  · obtain ⟨b, rfl, -, hle⟩ := knnCalls_refill hUniform hCoherent hThreads hSize hcalls hrun
    rw [hzero, Nat.zero_add] at hle
    exact pruningRate_mem hle
  · have hProbe : call.nPagesToProbe ≤ (db.queryOrder call.query).length := by
      rw [length_queryOrder_eq]
      exact hfits.2.1
    have hprune : (db.knnTask call.query call.k call.nPagesToProbe call.step
        (db.queryOrder call.query)).Prunes (fun _ => True) (fun _ => True) := knnTask_prunes_any
    obtain ⟨r, hr⟩ := findKNearest_returns hdb hfits.1 hBuffer hProbe hfits.2.2.1 hprune trivial
      (fun _ _ _ _ _ _ _ => trivial) (publishesUnder_true _) hTurns
    rw [findKNearestSizeT_eq hCoherent hSize hfits, hr]
    exact ⟨_, rfl⟩

end Calls

/-- Two threads, a step of half the values of the counter, and a schedule in which
thread 0 fetches once more after the counter has come round to zero. -/
def halfwayCall : KnnCall (Distance.Vec ℚ 1) where
  query := .point 5
  k := 2
  nPagesToProbe := 0
  step := 2 ^ 63
  fillSched := []
  sched := [0, 0, 0, 0, 1, 0, 0, 0].map fun t => (t, false)

/-- A query of the two nearest in one morsel. -/
def oneMorsel : KnnCall (Distance.Vec ℚ 1) :=
  { halfwayCall with step := 2 }

theorem findKNearest_pruneStatistics_fullPages :
    (∀ earlier, (∀ call ∈ earlier, fullPages.Fits call) → ∀ db',
      fullPages.knnCalls earlier = .returned db' →
      ∀ call, fullPages.Fits call → (db'.findKNearestSizeT call).WhenReturned fun r =>
        db'.PruneCountExact call r.1) ∧
    (fullPages.nPruned = 0 → ∀ calls, (∀ call ∈ calls, fullPages.Fits call) → ∀ db',
      fullPages.knnCalls calls = .returned db' →
        0 ≤ pruningRate db'.nPruned calls.length db'.cachedMaxDists.length ∧
          pruningRate db'.nPruned calls.length db'.cachedMaxDists.length ≤ 1) ∧
    (fullPages.Searchable → ∀ call, fullPages.Fits call →
      call.k ≤ fullPages.localDistanceBuffersSize →
      fullPages.EnoughTurns call.query call.nPagesToProbe (turnsOf _ call.fillSched)
        (turnsOf _ call.sched) → ∃ r, fullPages.findKNearestSizeT call = .returned r) :=
  findKNearest_pruneStatistics fullPages_searchable.uniform fullPages_searchable.coherent
    (by decide) (by decide)

example : fullPages.Fits oneMorsel := by
  refine ⟨by decide, by decide, by decide, by decide +kernel⟩

/-- The call is within its bounds, but both pages are treated twice: page 1 is scanned
again after it was scanned, and page 0 is counted twice as skipped. -/
theorem findKNearest_counts_twice :
    fullPages.Searchable ∧ 0 < halfwayCall.k ∧
      halfwayCall.k ≤ fullPages.localDistanceBuffersSize ∧
      halfwayCall.nPagesToProbe ≤ fullPages.nonEmptyPages ∧ 0 < halfwayCall.step ∧
      ¬ (fullPages.findKNearestSizeT halfwayCall).WhenReturned fun r =>
        fullPages.PruneCountExact halfwayCall r.1 := by
  refine ⟨fullPages_searchable, by decide, by decide, by decide, by decide, fun h => ?_⟩
  have hreturns : (fullPages.findKNearestSizeT halfwayCall).bind
      (fun r => .returned r.1.nPruned) = .returned 2 := by
    decide +kernel
  obtain ⟨r, hr, -⟩ := Outcome.bind_eq_returned.mp hreturns
  rw [hr] at h
  have honce := congrArg Multiset.card h.once
  rw [Multiset.card_map, Multiset.coe_card] at honce
  revert honce
  decide +kernel

end Database

end Spheres
