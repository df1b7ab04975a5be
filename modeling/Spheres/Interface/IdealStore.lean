import Spheres.Interface.PageRadii
import Spheres.Interface.ParallelLoad
import Spheres.Interface.Slices
import Spheres.Interface.SoundSearch
import Spheres.Library.Steps

/-!
# What a database is for

An ideal store is the collection of the pairs that were given to it. A query is
answered from a part of the collection, from all of it when there is no budget,
by the `k` pairs of this part that are nearest. A database with its pages,
caches, heaps and workers shows its callers nothing else: whatever it replies
in a run, the ideal store may reply.

* `Replies`: a call of the database together with what its caller gets;
* `IdealStore.Step`: what the ideal store may reply, and what it holds then;
* `Permits`: what a caller has to respect;
* `run_refines`: every run of a new database is a run of the ideal store.
-/

namespace Spheres

open Execution Parallel Library Library.Selection Distance

variable {V R : Type*}

/-- What the caller gets from a call. -/
inductive Reply (V R : Type*) where
  | done
  /-- The places of the result of a request. -/
  | found (result : List (Option (IdTaggedDistance R)))
  /-- What a bulk load leaves of the lists that it takes by reference. -/
  | left (newVectors : List V) (ids : List Nat)

/-! ## The ideal store -/

/-- The pairs that were given to a store. -/
abbrev IdealStore (V : Type*) := Multiset (Nat × V)

namespace IdealStore

section Ideal

variable [LinearOrder R]

/-- `k` pairs of a part of the store, no other pair of which is nearer to the query. -/
def Nearest (dist : V → V → R) (seen : IdealStore V) (query : V) (k : Nat)
    (found : List (IdTaggedDistance R)) : Prop :=
  found.length = k ∧
    IsSmallest IdTaggedDistance.first k (found : Multiset (IdTaggedDistance R))
      (seen.map fun s => ⟨dist s.2 query, s.1⟩)

/-- A query with a budget sees at least one pair for every page that it probes, and without
a budget it sees everything. -/
def Sees (store seen : IdealStore V) (nPagesToProbe : Nat) : Prop :=
  seen ≤ store ∧ nPagesToProbe ≤ seen.card ∧ (nPagesToProbe = 0 → seen = store)

/-- What the ideal store may reply to a call. -/
inductive Step (dist : V → V → R) : IdealStore V → Call V × Reply V R → IdealStore V → Prop
  | insertAVector (store : IdealStore V) (newId : Nat) (newVector : V) (density : ℚ) :
    Step dist store (.insertAVector newId newVector density, .done) (store + {(newId, newVector)})
  | nearest {store seen : IdealStore V} {query : V} {k nPagesToProbe step : Nat}
      {fillSched : List (Nat × Unit)} {sched : List (Nat × Bool)}
      {found : List (IdTaggedDistance R)} :
    store.Sees seen nPagesToProbe → Nearest dist seen query k found → found.Pairwise (· ≤ ·) →
    Step dist store (.request (.nearest query k nPagesToProbe step fillSched sched),
      .found (found.map some)) store
  | batch {store : IdealStore V} {queries : List V} {k nPagesToProbe step : Nat}
      {sched : List (Nat × Unit)} {result : List (IdTaggedDistance R)} :
    result.length = queries.length * k →
    (∀ i query, queries[i]? = some query → ∃ seen, store.Sees seen nPagesToProbe ∧
      Nearest dist seen query k (Rows.row k i result)) →
    Step dist store (.request (.batch queries k nPagesToProbe step sched),
      .found (result.map some)) store
  | batchPrefill (store : IdealStore V) (newVectors : List V) (ids left : List Nat) (density : ℚ) :
    Step dist store (.batchPrefill newVectors ids density, .left [] left)
      (store + (ids.zip newVectors : List (Nat × V)))
  | batchPrefillParallel (store : IdealStore V) (newVectors : List V) (ids left : List Nat)
      (density : ℚ) (scheds : List (List (Nat × Bool))) :
    Step dist store (.batchPrefillParallel newVectors ids density scheds, .left [] left)
      (store + (ids.zip newVectors : List (Nat × V)))
  | reopen (store : IdealStore V) (nThreads buffersSize : Nat) :
    Step dist store (.reopen nThreads buffersSize, .done) store

end Ideal

end IdealStore

/-! ## What a query sees -/

namespace Parallel

theorem length_le_card_contents {pages : List (Page V R)} (h : ∀ p ∈ pages, p.slots ≠ []) :
    pages.length ≤ (contents pages).card := by
  induction pages with
  | nil => exact Nat.zero_le _
  | cons p pages ih =>
    have hpos : 0 < p.slots.length := List.length_pos_of_ne_nil (h p List.mem_cons_self)
    have ih := ih fun q hq => h q (List.mem_cons_of_mem _ hq)
    rw [contents_cons, Multiset.card_add, Multiset.coe_card, List.length_cons]
    omega

/-- Entries for anchors name as many pages, none of which is empty. -/
theorem length_le_card_namedPages {pages : List (Page V R)} {dist : V → V → R} {query : V}
    {buffer : List (IdTaggedDistance R)}
    (h : ∀ e ∈ buffer, e ∈ anchorDistances dist pages query) :
    buffer.length ≤ (contents (namedPages pages buffer)).card := by
  have hnamed : ∀ e ∈ buffer, ∃ p, pages[e.second]? = some p ∧ p.slots ≠ [] := by
    intro e he
    obtain ⟨p, a, hp, ha, -⟩ := mem_perPage.mp (h e he)
    refine ⟨p, hp, fun hnil => ?_⟩
    rw [anchor_eq_none.mpr hnil] at ha
    cases ha
  have hlength : (namedPages pages buffer).length = buffer.length := by
    rw [namedPages, List.length_filterMap_eq_countP, List.countP_eq_length]
    intro e he
    obtain ⟨p, hp, -⟩ := hnamed e he
    rw [hp, Option.isSome_some]
  rw [← hlength]
  refine length_le_card_contents fun p hp => ?_
  obtain ⟨e, he, hep⟩ := List.mem_filterMap.mp hp
  obtain ⟨q, hq, hne⟩ := hnamed e he
  obtain rfl : q = p := Option.some.inj (hq.symm.trans hep)
  exact hne

variable [LinearOrder R] (dist : V → V → R) (pages : List (Page V R)) (query : V)

theorem contents_anchorOrder :
    contents (namedPages pages (anchorOrder dist pages query)) = contents pages := by
  have hperm : (namedPages pages (anchorOrder dist pages query)).Perm
      (namedPages pages (anchorDistances dist pages query)) :=
    (List.perm_insertionSort _ _).filterMap _
  rw [contents_perm hperm, namedPages_anchorDistances, contents_nonempty]

/-- The probed pages hold a part of the vectors. -/
theorem contents_probedPages_le (n : Nat) :
    contents (probedPages dist pages query n) ≤ contents pages := by
  rw [← contents_anchorOrder dist pages query]
  exact contents_le_of_sublist ((List.take_sublist _ _).filterMap _)

end Parallel

namespace Database

section Probed

variable [LinearOrder R] {db : Database V R} {query : V} {nPagesToProbe : Nat}

/-- A query within its budget sees what the ideal store allows. -/
theorem sees_probed (hProbe : nPagesToProbe ≤ db.nonEmptyPages) :
    IdealStore.Sees (contents db.dbStorage.pages) (contents (db.probed query nPagesToProbe))
      nPagesToProbe := by
  refine ⟨contents_probedPages_le _ _ _ _, ?_, fun hzero => ?_⟩
  · let buffer := (db.queryOrder query).take (db.probeCount query nPagesToProbe)
    have hcard : buffer.length ≤ (contents (namedPages db.dbStorage.pages buffer)).card :=
      length_le_card_namedPages fun e he =>
        (List.mem_insertionSort _).mp (List.mem_of_mem_take he)
    refine le_trans ?_ hcard
    rw [← length_queryOrder_eq query] at hProbe
    rw [List.length_take, probeCount]
    split <;> omega
  · rw [probed, probeCount, if_pos hzero, probedPages, queryOrder, List.take_length,
      contents_anchorOrder]

/-- An exact answer is one of the nearest pairs. -/
theorem nearest_of_isExactAnswer {dist : V → V → R} {pages : List (Page V R)} {k : Nat}
    {result : List (Option (IdTaggedDistance R))} (h : IsExactAnswer dist pages query k result) :
    ∃ found : List (IdTaggedDistance R), result = found.map some ∧ found.Pairwise (· ≤ ·) ∧
      IdealStore.Nearest dist (contents pages) query k found := by
  obtain ⟨found, hresult, hlength, hsorted, hle, hfirst⟩ := h
  refine ⟨found, hresult, hsorted, hlength, isSmallest_of_sort hle ?_⟩
  have hperm : (((found : Multiset (IdTaggedDistance R)).map (·.first)).sort).Perm
      (found.map (·.first)) := by
    rw [← Multiset.coe_eq_coe, Multiset.sort_eq, Multiset.map_coe]
  have heq := hperm.eq_of_pairwise' (Multiset.pairwise_sort _ _)
    (List.pairwise_map.mpr (hsorted.imp IdTaggedDistance.first_le_of_le))
  rw [heq, hfirst, bruteForce, Multiset.map_map]
  rfl

end Probed

/-! ## Runs -/

section Replies

variable [Zero R] [LinearOrder R] [Inhabited V]

/-- A call that returns, with what its caller gets. -/
inductive Replies (installed : SupportedDistanceFunctions → Installed V R) (db : Database V R) :
    Call V × Reply V R → Database V R → Prop
  | insertAVector {newId : Nat} {newVector : V} {density : ℚ} {after : Database V R} :
    db.Returns installed (.insertAVector newId newVector density) after →
    db.Replies installed (.insertAVector newId newVector density, .done) after
  | request {req : Request V} {result : List (Option (IdTaggedDistance R))}
      {after : Database V R} :
    db.answer req = .returned (after, result) →
    db.Replies installed (.request req, .found result) after
  | batchPrefill {newVectors newVectors' : List V} {ids ids' : List Nat} {density : ℚ}
      {after : Database V R} :
    db.batchPrefill newVectors ids density = some (after, newVectors', ids') →
    db.Replies installed (.batchPrefill newVectors ids density, .left newVectors' ids') after
  | batchPrefillParallel {newVectors newVectors' : List V} {ids ids' : List Nat} {density : ℚ}
      {scheds : List (List (Nat × Bool))} {after : Database V R} :
    db.batchPrefillParallel newVectors ids density scheds =
      .returned (after, newVectors', ids') →
    db.Replies installed (.batchPrefillParallel newVectors ids density scheds,
      .left newVectors' ids') after
  | reopen {nThreads buffersSize : Nat} {after : Database V R} :
    db.Returns installed (.reopen nThreads buffersSize) after →
    db.Replies installed (.reopen nThreads buffersSize, .done) after

theorem Replies.returns {installed : SupportedDistanceFunctions → Installed V R}
    {db after : Database V R} {e : Call V × Reply V R} (h : db.Replies installed e after) :
    db.Returns installed e.1 after := by
  cases h with
  | insertAVector h => exact h
  | request h => exact ⟨_, h⟩
  | batchPrefill h => exact ⟨_, h⟩
  | batchPrefillParallel h => exact ⟨_, h⟩
  | reopen h => exact h

end Replies

section Refinement

variable [Field R] [LinearOrder R] [Inhabited V]
  (installed : SupportedDistanceFunctions → Installed V R) (pageSize fileSize : Nat)
  (dtype : SupportedDataType) (dim : Nat) (distanceFunction : SupportedDistanceFunctions)
  (dist : DistFunc V R)

/-- There are workers, and buffers and vectors enough for the `k` nearest. -/
structure CanAnswer (db : Database V R) (queries : List V) (k nPagesToProbe step : Nat) : Prop where
  threads : 0 < db.nThreads
  k_pos : 0 < k
  room : k ≤ db.localDistanceBuffersSize
  budget : nPagesToProbe ≤ db.nonEmptyPages
  stored : ∀ query ∈ queries, k ≤ (contents (db.probed query nPagesToProbe)).card
  step_pos : 0 < step

/-- A parallel load into a new database whose rounds all fit. -/
structure CanLoad (db : Database V R) (newVectors : List V) (ids : List Nat) (density : ℚ)
    (scheds : List (List (Nat × Bool))) : Prop where
  fresh : db.Fresh installed pageSize fileSize dtype dim distanceFunction db.nThreads
    db.localDistanceBuffersSize
  threads : 0 < db.nThreads
  max_pos : 0 < maxNumVectors db.dbStorage.maxNumVectorsPerPage density
  capacity : maxNumVectors db.dbStorage.maxNumVectorsPerPage density ≤
    db.dbStorage.maxNumVectorsPerPage
  room : maxNumVectors db.dbStorage.maxNumVectorsPerPage density ≤ db.localDistanceBuffersSize
  length : ids.length = newVectors.length
  many : 2 * db.nThreads ≤ newVectors.length
  fits : db.EveryRound newVectors ids density PrefillState.RoundFits scheds

/-- What a caller has to respect. -/
def Permits (db : Database V R) : Call V → Prop
  | .insertAVector newId newVector density =>
    db.KeepsRadii dist (.insertAVector newId newVector density)
  | .request (.nearest query k nPagesToProbe step _ sched) =>
    db.CanAnswer [query] k nPagesToProbe step ∧
      db.PublishesUnder (fun w => w.heap.nOutputs = k) query k nPagesToProbe step (turnsOf _ sched)
  | .request (.batch queries k nPagesToProbe step _) => db.CanAnswer queries k nPagesToProbe step
  | .batchPrefill newVectors ids density => db.KeepsRadii dist (.batchPrefill newVectors ids density)
  | .batchPrefillParallel newVectors ids density scheds =>
    db.CanLoad installed pageSize fileSize dtype dim distanceFunction newVectors ids density scheds
  | .reopen .. => True

/-- What every permitted call keeps. -/
structure Serves (db : Database V R) : Prop where
  steady : db.Steady installed pageSize fileSize dtype dim distanceFunction
  bounding : db.Bounding dist
  buffers : db.BuffersSized

variable {installed pageSize fileSize dtype dim distanceFunction dist} {db after : Database V R}

theorem CanLoad.stores {newVectors : List V} {ids : List Nat} {density : ℚ}
    {scheds : List (List (Nat × Bool))}
    (h : db.CanLoad installed pageSize fileSize dtype dim distanceFunction newVectors ids density
      scheds) (hDist : (installed distanceFunction).distFunc = dist) :
    (db.batchPrefillParallel newVectors ids density scheds).Ensures fun r =>
      r.2.1 = [] ∧ contents r.1.dbStorage.pages = ids.zip newVectors ∧
        ∀ p ∈ r.1.dbStorage.pages, ExactPage dist db.dbStorage.maxNumVectorsPerPage p := by
  obtain ⟨s, st, hprepare, hst, hload, hidx, hworkable⟩ :=
    h.fresh.prefillInit hDist h.threads h.max_pos le_rfl h.room newVectors ids
  have hstart : PrefillState.Stores dist (maxNumVectors db.dbStorage.maxNumVectorsPerPage density)
      db.nThreads db.localDistanceBuffersSize (ids.zip newVectors : Multiset (Nat × V)) st := by
    obtain ⟨hfilling, -⟩ := Filling.start h.fresh.grown.uniform h.fresh.pages hprepare
    have hstoring := hfilling.storing dist (maxNumVectors db.dbStorage.maxNumVectorsPerPage density)
      newVectors ids
    rw [← hload, ← hidx] at hstoring
    refine ⟨hworkable, hstoring, ?_⟩
    show st.load.ids.length = st.load.newVectors.length
    rw [hload]
    exact h.length
  refine (batchPrefillParallel_ensures rfl rfl h.threads
    (PrefillState.stores_rounds (h.fresh.step_pos h.threads h.many)) ⟨st, hst, hstart⟩ h.fits).mono ?_
  rintro r ⟨st', hstores, hdone, hleft, hstorage, -⟩
  obtain ⟨-, hcontents, hpages⟩ := hstores.storing.finished hdone
  rw [hstorage]
  refine ⟨(congrArg Prod.fst hleft).trans hdone, hcontents, fun p hp => ?_⟩
  obtain ⟨hcount, hradius, hempty⟩ := hpages p hp
  exact ⟨hcount.trans h.capacity, hradius, hempty⟩

theorem CanLoad.bounding {newVectors : List V} {ids : List Nat} {density : ℚ}
    {scheds : List (List (Nat × Bool))} {left : List V × List Nat}
    (h : db.CanLoad installed pageSize fileSize dtype dim distanceFunction newVectors ids density
      scheds) (hDist : (installed distanceFunction).distFunc = dist) (hbound : db.Bounding dist)
    (hrun : db.batchPrefillParallel newVectors ids density scheds = .returned (after, left)) :
    after.Bounding dist := by
  obtain ⟨d, hextended, hbuf, hcaches, -, hinstalled⟩ :=
    batchPrefillParallel_extended h.fresh.grown.uniform hrun
  obtain ⟨cached, hcaches', -⟩ := Core.updateCaches_eq (c := d) hextended.uniform
  have hafter := Option.some.inj (hcaches.symm.trans hcaches')
  have hstorage : after.dbStorage = d.dbStorage := congrArg (·.dbStorage) hafter
  have hbuffer : after.distToAnchorBuffer = d.distToAnchorBuffer :=
    congrArg (·.distToAnchorBuffer) hafter
  have hcapacity : after.dbStorage.maxNumVectorsPerPage = db.dbStorage.maxNumVectorsPerPage := by
    rw [hstorage, hextended.shape.capacity]
  refine ⟨hinstalled ▸ hbound.distFunc, hcapacity ▸ hbound.capacity, ?_, ?_⟩
  · rw [hcapacity]
    exact ((h.stores hDist).of_returned hrun).2.2
  · rw [hbuffer, hbuf]
    exact hbound.buffer

/-- Every permitted call keeps it. -/
theorem Serves.replies (h : db.Serves installed pageSize fileSize dtype dim distanceFunction dist)
    (hpos : 0 < pageSize) (hDist : (installed distanceFunction).distFunc = dist)
    {e : Call V × Reply V R}
    (hok : db.Permits installed pageSize fileSize dtype dim distanceFunction dist e.1)
    (hreply : db.Replies installed e after) :
    after.Serves installed pageSize fileSize dtype dim distanceFunction dist := by
  refine ⟨h.steady.returns hpos hreply.returns, ?_, h.buffers.returns hreply.returns⟩
  cases hreply with
  | @insertAVector newId newVector density after hreturn =>
    have hkeeps : db.KeepsRadii dist (.insertAVector newId newVector density) := hok
    exact h.bounding.returns h.steady hpos hkeeps hreturn
  | request hrun => exact h.bounding.answer h.steady.sane hrun
  | batchPrefill hrun => exact h.bounding.batchPrefill h.steady.sane hok hrun
  | batchPrefillParallel hrun => exact CanLoad.bounding hok hDist h.bounding hrun
  | @reopen nThreads buffersSize after hreturn =>
    have hkeeps : db.KeepsRadii dist (.reopen nThreads buffersSize) := trivial
    exact h.bounding.returns h.steady hpos hkeeps hreturn

omit [Inhabited V] in
theorem Serves.searchable
    (h : db.Serves installed pageSize fileSize dtype dim distanceFunction dist)
    (hThreads : 0 < db.nThreads) : db.Searchable where
  uniform := h.steady.sane.uniform
  coherent := h.steady.sane.coherent
  buffers := h.buffers
  threads := hThreads
  symm := by
    rw [h.bounding.distFunc]
    exact dist.symm

omit [Inhabited V] in
theorem Serves.prunable
    (h : db.Serves installed pageSize fileSize dtype dim distanceFunction dist)
    (hsound : PruneSound dist (installed distanceFunction).pruneCheckFunc) :
    db.Prunable dist where
  distFunc := h.bounding.distFunc
  sound := by
    rw [h.steady.installed]
    exact hsound
  bounded p hp := (h.bounding.pages p hp).radius.bounded

omit [Inhabited V] in
/-- A request changes the buffers only. -/
theorem Serves.contents_answer
    (h : db.Serves installed pageSize fileSize dtype dim distanceFunction dist) {req : Request V}
    {result : List (Option (IdTaggedDistance R))}
    (hrun : db.answer req = .returned (after, result)) :
    contents after.dbStorage.pages = contents db.dbStorage.pages := by
  obtain ⟨b, hb, -⟩ := answer_refill h.steady.sane.coherent hrun
  obtain rfl : after = db.refill b := hb
  rfl

omit [Inhabited V] in
/-- Answers are answers of the ideal store. -/
theorem Serves.answer (h : db.Serves installed pageSize fileSize dtype dim distanceFunction dist)
    (hsound : PruneSound dist (installed distanceFunction).pruneCheckFunc) {req : Request V}
    {result : List (Option (IdTaggedDistance R))}
    (hok : db.Permits installed pageSize fileSize dtype dim distanceFunction dist (.request req))
    (hrun : db.answer req = .returned (after, result)) :
    IdealStore.Step dist (contents db.dbStorage.pages) (.request req, .found result)
      (contents after.dbStorage.pages) := by
  rw [h.contents_answer hrun]
  cases req with
  | nearest query k nPagesToProbe step fillSched sched =>
    obtain ⟨hcan, hpublish⟩ := hok
    obtain ⟨found, rfl, hsorted, hnearest⟩ := nearest_of_isExactAnswer
      (((h.prunable hsound).findKNearest (h.searchable hcan.threads) hcan.k_pos hcan.room
        hcan.budget (hcan.stored query (List.mem_singleton_self query)) hcan.step_pos _ _
        hpublish).of_returned hrun)
    exact .nearest (sees_probed hcan.budget) hnearest hsorted
  | batch queries k nPagesToProbe step sched =>
    have hcan : db.CanAnswer queries k nPagesToProbe step := hok
    obtain ⟨⟨left, out⟩, hbatch, hrun⟩ := Outcome.bind_eq_returned.mp hrun
    cases hrun
    have hdb := h.searchable hcan.threads
    obtain ⟨hlength, hrows⟩ := ((h.prunable hsound).findKNearestBatch hdb hcan.k_pos hcan.room
      hcan.stored hcan.step_pos _).of_returned hbatch
    refine .batch hlength fun i query hquery => ⟨contents (db.probed query nPagesToProbe),
      sees_probed hcan.budget, ?_⟩
    obtain ⟨hrow, hsmallest⟩ := hrows i (List.getElem?_eq_some_iff.mp hquery).1 query hquery
    rw [batchProbed_eq hdb, h.bounding.distFunc] at hsmallest
    exact ⟨hrow, hsmallest⟩

/-- An insertion gives one pair to the store, however many vectors it moves. -/
theorem Serves.insertAVector
    (h : db.Serves installed pageSize fileSize dtype dim distanceFunction dist) {newId : Nat}
    {newVector : V} {density : ℚ}
    (hreturn : db.Returns installed (.insertAVector newId newVector density) after) :
    contents after.dbStorage.pages = contents db.dbStorage.pages + {(newId, newVector)} := by
  obtain ⟨n, hrun⟩ := hreturn
  obtain ⟨c, m, hinsert, -, hcontents⟩ :=
    (h.bounding.ready h.steady.sane).insert_contents density newId newVector
  have hafter := hrun (max n m) (Nat.le_max_left n m)
  rw [Database.insertAVector, h.bounding.distFunc, hinsert _ (Nat.le_max_right n m),
    Option.map_some] at hafter
  obtain rfl := Option.some.inj hafter
  exact hcontents

/-- A load with one thread gives all its pairs to the store, which was empty. -/
theorem Serves.batchPrefill
    (h : db.Serves installed pageSize fileSize dtype dim distanceFunction dist)
    {newVectors newVectors' : List V} {ids ids' : List Nat} {density : ℚ}
    (hok : db.KeepsRadii dist (.batchPrefill newVectors ids density))
    (hrun : db.batchPrefill newVectors ids density = some (after, newVectors', ids')) :
    newVectors' = [] ∧ contents after.dbStorage.pages =
      contents db.dbStorage.pages + (ids.zip newVectors : List (Nat × V)) := by
  obtain ⟨hnew, hbound⟩ := hok
  obtain ⟨l, hload, hrun⟩ := Option.bind_eq_some_iff.mp hrun
  obtain ⟨c, hcaches, heq⟩ := Option.map_eq_some_iff.mp hrun
  obtain rfl : ({ db with toCore := c } : Database V R) = after := congrArg Prod.fst heq
  obtain rfl : l.newVectors = newVectors' := congrArg (fun r => r.2.1) heq
  rw [h.bounding.distFunc] at hload
  have hpages : db.dbStorage.pages = List.replicate db.dbStorage.pages.length .zeroed :=
    List.eq_replicate_iff.mpr ⟨rfl, hnew⟩
  obtain ⟨m, hstoring, -, hdone⟩ := Load.batchPrefillSingleThreaded_storing
    (l := ⟨db.dbStorage, newVectors, ids⟩) h.steady.sane.uniform hpages hbound hload
  obtain ⟨huniform, hcontents, -⟩ := hstoring.finished hdone
  obtain ⟨cached, hcaches', -⟩ := Core.updateCaches_eq
    (c := { db.toCore with dbStorage := l.dbStorage }) huniform
  obtain rfl := Option.some.inj (hcaches'.symm.trans hcaches)
  refine ⟨hdone, hcontents.trans ?_⟩
  rw [hpages, ← List.nil_append (List.replicate _ _), contents_append_zeroed, contents_nil, zero_add]
  rfl

/-- A permitted call does what the ideal store may do. -/
theorem Serves.step (h : db.Serves installed pageSize fileSize dtype dim distanceFunction dist)
    (hpos : 0 < pageSize) (hDist : (installed distanceFunction).distFunc = dist)
    (hsound : PruneSound dist (installed distanceFunction).pruneCheckFunc) {e : Call V × Reply V R}
    (hok : db.Permits installed pageSize fileSize dtype dim distanceFunction dist e.1)
    (hreply : db.Replies installed e after) :
    IdealStore.Step dist (contents db.dbStorage.pages) e (contents after.dbStorage.pages) := by
  cases hreply with
  | insertAVector hreturn =>
    rw [h.insertAVector hreturn]
    exact .insertAVector ..
  | request hrun => exact h.answer hsound hok hrun
  | batchPrefill hrun =>
    obtain ⟨rfl, hcontents⟩ := h.batchPrefill hok hrun
    rw [hcontents]
    exact .batchPrefill ..
  | @batchPrefillParallel newVectors newVectors' ids ids' density scheds after hrun =>
    have hload : db.CanLoad installed pageSize fileSize dtype dim distanceFunction newVectors ids
        density scheds := hok
    obtain ⟨hleft, hcontents, -⟩ := (hload.stores hDist).of_returned hrun
    obtain rfl : newVectors' = [] := hleft
    have hnone : contents db.dbStorage.pages = 0 := by
      rw [hload.fresh.pages, ← List.nil_append (List.replicate _ _), contents_append_zeroed,
        contents_nil]
    rw [hcontents, hnone, ← zero_add ((ids.zip newVectors : List (Nat × V)) : Multiset (Nat × V))]
    exact .batchPrefillParallel ..
  | @reopen nThreads buffersSize after hreturn =>
    obtain ⟨after', hrun, hstorage, -⟩ :=
      h.steady.load_returns (h.steady.count_of_load hpos hreturn) nThreads buffersSize
    obtain rfl : after' = after := Option.some.inj (hrun.symm.trans hreturn)
    rw [hstorage]
    exact .reopen ..

theorem create_serves {nThreads buffersSize : Nat}
    (hCreate : create installed pageSize fileSize dtype dim distanceFunction nThreads buffersSize =
      some db)
    (hDvd : pageSize ∣ fileSize) (hCapacity : 2 ≤ db.dbStorage.maxNumVectorsPerPage)
    (hDist : (installed distanceFunction).distFunc = dist) :
    db.Serves installed pageSize fileSize dtype dim distanceFunction dist ∧
      contents db.dbStorage.pages = 0 := by
  have hfresh := create_fresh hDvd hCreate
  refine ⟨⟨hfresh.steady, ⟨by rw [hfresh.installed, hDist], hCapacity, fun p hp => ?_, ?_⟩,
    construct_buffersSized (construct_of_create hCreate).2.2⟩, ?_⟩
  · rw [hfresh.pages] at hp
    obtain ⟨-, rfl⟩ := List.mem_replicate.mp hp
    exact exactPage_zeroed _
  · rw [hfresh.distToAnchorBuffer]
    simp
  · rw [hfresh.pages, ← List.nil_append (List.replicate _ _), contents_append_zeroed, contents_nil]

/-- A run of permitted calls is a run of the ideal store that holds what the pages hold. -/
theorem Serves.run (h : db.Serves installed pageSize fileSize dtype dim distanceFunction dist)
    (hpos : 0 < pageSize) (hDist : (installed distanceFunction).distFunc = dist)
    (hsound : PruneSound dist (installed distanceFunction).pruneCheckFunc)
    {events : List (Call V × Reply V R)}
    (hRun : Steps (fun db e after =>
      db.Permits installed pageSize fileSize dtype dim distanceFunction dist e.1 ∧
        db.Replies installed e after) db events after) :
    Steps (IdealStore.Step dist) (contents db.dbStorage.pages) events
      (contents after.dbStorage.pages) := by
  obtain ⟨store, hsteps, -, hstore⟩ := hRun.simulate
    (fun db store => db.Serves installed pageSize fileSize dtype dim distanceFunction dist ∧
      store = contents db.dbStorage.pages)
    (by
      rintro db _ e after ⟨hdb, rfl⟩ ⟨hok, hreply⟩
      exact ⟨_, hdb.step hpos hDist hsound hok hreply, hdb.replies hpos hDist hok hreply, rfl⟩)
    ⟨h, rfl⟩
  exact hstore ▸ hsteps

end Refinement

end Database

/-! ## A short run -/

/-- Two insertions, and a database of two threads over the files that they leave. -/
def reopened : Database (Vec ℚ 1) ℚ :=
  (Database.load (fun _ => squaredL2Installed ℚ 1) sameVectors.close 2 4).get rfl

end Spheres
