import Spheres.Interface.ProbeBudget

/-!
# Searches under sound tests

Of the installed functions only this matters to a search: a page that the test
prunes holds no vector at the bound or below it. With it both searches find the
nearest vectors on the probed pages, for every metric and every budget, so they
find the same distances.
-/

namespace Spheres

open Execution Parallel Library Library.Interleaving Library.MorselLoop Library.Selection Distance

variable {V R : Type*} [Field R] [LinearOrder R]

namespace Database

/-- The distance function is installed with a test that is sound for it, and the pages
are within their radii. -/
structure Prunable (dist : DistFunc V R) (db : Database V R) : Prop where
  distFunc : db.installed.distFunc = dist
  sound : PruneSound dist db.installed.pruneCheckFunc
  bounded : ∀ p ∈ db.dbStorage.pages, p.Bounded dist

section Sound

variable {dist : DistFunc V R} {db : Database V R} {query : V} {queries : List V}
  {k nPagesToProbe step : Nat}

theorem Prunable.entries_beyond (h : db.Prunable dist) {b : WithTop R} {p : Page V R} {a : V}
    (hp : p ∈ db.dbStorage.pages) (ha : p.anchor = some a)
    (htest : db.installed.pruneCheckFunc (db.installed.distFunc query a) p.maxDist b = true) :
    ∀ y ∈ entries db.installed.distFunc query p, b < y.first := by
  intro y hy
  obtain ⟨s, hs, rfl⟩ := List.mem_map.mp hy
  rw [h.distFunc] at htest ⊢
  exact h.sound query a s.2 p.maxDist b (h.bounded p hp _ ⟨a, ha, s, hs, rfl⟩) htest

/-- A bound at or above `θ` prunes only entries beyond `θ`. -/
theorem Prunable.knnTask (h : db.Prunable dist) (θ : R) :
    (db.knnTask query k nPagesToProbe step (db.queryOrder query)).Prunes (fun y => θ < y.first)
      (fun b => ↑θ ≤ b) := by
  constructor
  · rintro b hb d p hp ⟨a, ha, rfl⟩ htest y hy
    exact WithTop.coe_lt_coe.mp (hb.trans_lt (h.entries_beyond hp ha htest y hy))
  · rintro w d p hp ⟨a, ha, rfl⟩ htest y hy
    exact Or.inl (WithTop.coe_lt_coe.mp (h.entries_beyond hp ha htest y hy)).le

theorem Prunable.batchTask (h : db.Prunable dist) :
    (db.batchTask queries k nPagesToProbe step).PrunesBy IdTaggedDistance.first := by
  intro query a p w hp ha htest y hy z hz
  exact hz.trans (WithTop.coe_lt_coe.mp (h.entries_beyond hp ha htest y hy)).le

/-- The pages that a query with a budget visits. -/
def probed (db : Database V R) (query : V) (nPagesToProbe : Nat) : List (Page V R) :=
  probedPages db.installed.distFunc db.dbStorage.pages query (db.probeCount query nPagesToProbe)

/-- A query is exact on the pages it visits, if only workers with full heaps lower the
common bound. -/
theorem Prunable.findKNearest (h : db.Prunable dist) (hdb : db.Searchable) (hk : 0 < k)
    (hBuffer : k ≤ db.localDistanceBuffersSize) (hProbe : nPagesToProbe ≤ db.nonEmptyPages)
    (hStored : k ≤ (contents (db.probed query nPagesToProbe)).card) (hStep : 0 < step)
    (fillSched : List (Fin db.nThreads × Unit)) (sched : List (Fin db.nThreads × Bool))
    (hPublish : db.PublishesUnder (fun w => w.heap.nOutputs = k) query k nPagesToProbe step sched) :
    (db.findKNearest query k nPagesToProbe step fillSched sched).Ensures fun r =>
      IsExactAnswer dist (db.probed query nPagesToProbe) query k r.2 := by
  let seen := distancesTo db.installed.distFunc query (db.probed query nPagesToProbe)
  obtain ⟨θ, hθ⟩ : ∃ θ, IsKth IdTaggedDistance.first k seen θ :=
    exists_isKth hk ((card_distancesTo _ _ _).symm ▸ hStored)
  have hpublish : ∀ v w r, v ≤ Multiset.Ico 0 (db.probeCount query nPagesToProbe) →
      (db.knnTask query k nPagesToProbe step (db.queryOrder query)).Keeps (fun y => θ < y.first)
        db.localDistanceBuffersSize v w →
      w.heap.nOutputs = k → w.heap.top.map (·.first) = some r → (θ : WithTop R) ≤ r := by
    intro v w r hv hkeeps hfull hr
    exact WithTop.coe_le_coe.mpr (le_top_of_full hk hθ hv hkeeps hfull hr)
  rw [← length_queryOrder_eq query] at hProbe
  refine (findKNearest_covers hdb hk hBuffer hProbe hStep (h.knnTask θ) le_top hpublish fillSched
    sched hPublish).mono ?_
  rintro r ⟨hresult, hsorted, hcov, -⟩
  have hcovers : Covers IdTaggedDistance.first k r.1.internalBuffer.elems seen :=
    hcov.covers hθ.1 (fun y hy z hz => hz.trans hy.le) (fun x z hz hxz => hxz.trans hz)
      fun y hy => not_le.mpr hy
  rw [hresult]
  exact isExactAnswer_of_covers hsorted (h.distFunc ▸ hcovers) hStored

omit [Field R] in
theorem batchProbed_eq (hdb : db.Searchable) (query : V) (nPagesToProbe : Nat) :
    db.batchProbed nPagesToProbe query =
      distancesTo db.installed.distFunc query (db.probed query nPagesToProbe) := by
  rw [batchProbed, batchLimit_eq hdb query, probed]

/-- Every row of a batch is exact on the pages visited for its query. -/
theorem Prunable.findKNearestBatch (h : db.Prunable dist) (hdb : db.Searchable) (hk : 0 < k)
    (hBuffer : k ≤ db.localDistanceBuffersSize)
    (hStored : ∀ query ∈ queries, k ≤ (contents (db.probed query nPagesToProbe)).card)
    (hStep : 0 < step) (sched : List (Fin db.nThreads × Unit)) :
    (db.findKNearestBatch queries k nPagesToProbe step sched).Ensures fun r =>
      r.2.length = queries.length * k ∧
        ∀ i < queries.length, IsExactRow db queries k nPagesToProbe i (Rows.row k i r.2) := by
  refine (findKNearestBatch_rows hdb hStep (fun i query cells hquery hcells => ?_) sched).mono
    fun r hr => ⟨hr.2.1, hr.1⟩
  obtain ⟨heap, hrun, hv, hcov⟩ := FindKnnBatch.answerQuery_covers (batchTask_reads hdb hk)
    Search.byDistance_first h.batchTask query (hcells.symm ▸ hBuffer)
  refine ⟨heap, hrun, hv, fun query' hquery' => ?_⟩
  obtain rfl : query = query' := Option.some.inj (hquery.symm.trans hquery')
  have hcard := hStored query (List.mem_of_getElem? hquery)
  rw [← card_distancesTo db.installed.distFunc query, ← batchProbed_eq hdb] at hcard
  have hfull : heap.nOutputs = k := by
    have hlive := Covers.le_card hcov hcard
    rw [hv.card_live] at hlive
    exact le_antisymm hv.le hlive
  have hlength : (heap.heap.take k).length = k := by
    rw [List.length_take, hv.length, hcells]
    exact Nat.min_eq_left hBuffer
  have hsmallest := Covers.isSmallest hcov (hv.card_live.trans_le hv.le)
  rw [← LocalHeap.take_eq_live hfull] at hsmallest
  exact ⟨hlength, hsmallest⟩

end Sound

/-! ## One distance list per query -/

section Agreement

variable {dist : DistFunc V R} {db : Database V R} {query : V} {queries : List V}
  {k nPagesToProbe step : Nat}

/-- The ascending distances of the `k` nearest vectors on the visited pages. -/
def nearestDistances (db : Database V R) (query : V) (k nPagesToProbe : Nat) : List R :=
  bruteForce db.installed.distFunc (db.probed query nPagesToProbe) query k

omit [Field R] in
/-- The sorted distances of an exact row. -/
theorem IsExactRow.sort_eq (hdb : db.Searchable) {i : Nat} {row : List (IdTaggedDistance R)}
    (h : IsExactRow db queries k nPagesToProbe i row) (hquery : queries[i]? = some query) :
    ((row : Multiset (IdTaggedDistance R)).map (·.first)).sort =
      db.nearestDistances query k nPagesToProbe := by
  have hsort := (h query hquery).2.sort_map
  rw [batchProbed_eq hdb, distancesTo, Multiset.map_map] at hsort
  exact hsort

theorem Prunable.refill (h : db.Prunable dist) (b : Buffers db.nThreads R) :
    (db.refill b).Prunable dist :=
  ⟨h.distFunc, h.sound, h.bounded⟩

/-- A budget that allows no less, where 0 allows everything. -/
def AllowsMore (nPagesToProbe nPagesToProbe' : Nat) : Prop :=
  nPagesToProbe' = 0 ∨ nPagesToProbe ≠ 0 ∧ nPagesToProbe ≤ nPagesToProbe'

instance (n n' : Nat) : Decidable (AllowsMore n n') := inferInstanceAs (Decidable (_ ∨ _))

omit [Field R] in
/-- With more pages a query sees no less. -/
theorem contents_probed_le {nPagesToProbe' : Nat} (hmore : AllowsMore nPagesToProbe nPagesToProbe') :
    contents (db.probed query nPagesToProbe) ≤ contents (db.probed query nPagesToProbe') := by
  apply contents_le_of_sublist
  apply List.Sublist.filterMap
  rcases hmore with rfl | ⟨hne, hle⟩
  · rw [probeCount, probeCount, if_pos rfl, queryOrder, List.take_length]
    exact List.take_sublist _ _
  · rw [probeCount, probeCount, if_neg hne, if_neg (by omega)]
    exact List.take_sublist_take_left hle

end Agreement

theorem fullPages_prunable : fullPages.Prunable (squaredL2 ℚ 1) :=
  ⟨rfl, squaredPruneCheck_sound 1, fullPages_bounded⟩

end Database

end Spheres
