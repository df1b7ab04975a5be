import Spheres.Distance.PageBound
import Spheres.Interface.FindKNearest

/-!
# Exact search

A query without a probe limit is to return the `k` nearest stored vectors. The
workers prune with a common bound, so the bound must never fall below the
`k`-th smallest distance. The top of a heap with `k` entries is such a bound;
the top of a heap with fewer entries, or the stale first cell of an empty one,
need not be, and the code publishes those too.
-/

namespace Spheres

open Parallel Library Library.Interleaving Library.MorselLoop Library.Selection Distance

variable {V R : Type*}

/-- What a scan over all stored vectors returns: the `k` smallest distances. -/
def bruteForce [LinearOrder R] (dist : V → V → R) (pages : List (Page V R)) (query : V) (k : Nat) :
    List R :=
  (((contents pages).map fun s => dist s.2 query).sort).take k

/-- A complete and exact answer: `k` pairs in ascending order, of distinct slots,
at the `k` smallest distances. -/
def IsExactAnswer [LinearOrder R] (dist : V → V → R) (pages : List (Page V R)) (query : V) (k : Nat)
    (result : List (Option (IdTaggedDistance R))) : Prop :=
  ∃ found : List (IdTaggedDistance R), result = found.map some ∧ found.length = k ∧
    found.Pairwise (· ≤ ·) ∧ (found : Multiset _) ≤ distancesTo dist query pages ∧
    found.map (·.first) = bruteForce dist pages query k

section Order

variable [LinearOrder R] {dist : V → V → R} {pages : List (Page V R)} {query : V} {k : Nat}

theorem map_getElem?_range {α : Type*} {l : List α} (h : k ≤ l.length) :
    ((List.range k).map fun i => l[i]?) = (l.take k).map some := by
  apply List.ext_getElem?
  intro i
  rw [List.getElem?_map, List.getElem?_map, List.getElem?_take]
  by_cases hi : i < k
  · rw [List.getElem?_range hi, if_pos hi, Option.map_some, List.getElem?_eq_getElem (by omega)]
    rfl
  · rw [if_neg hi, List.getElem?_eq_none (by simpa using hi)]
    rfl

/-- The first `k` entries of a sorted covering are an exact answer. -/
theorem isExactAnswer_of_covers {merged : List (IdTaggedDistance R)}
    (hSorted : merged.Pairwise (· ≤ ·))
    (hCovers : Covers IdTaggedDistance.first k merged (distancesTo dist query pages))
    (hStored : k ≤ (contents pages).card) :
    IsExactAnswer dist pages query k ((List.range k).map fun ik => merged[ik]?) := by
  have hFirst : merged.Pairwise fun x y => x.first ≤ y.first :=
    hSorted.imp fun h => IdTaggedDistance.first_le_of_le h
  have hSmallest := hCovers.take hFirst
  have hCard := hSmallest.card_eq (by simpa using hStored)
  rw [Multiset.coe_card] at hCard
  have hLength : k ≤ merged.length := by
    rw [List.length_take] at hCard
    omega
  refine ⟨merged.take k, map_getElem?_range hLength, hCard, hSorted.take, hSmallest.le, ?_⟩
  have hSort := hSmallest.sort_map
  rw [distancesTo, Multiset.map_map, Multiset.map_coe] at hSort
  rw [bruteForce]
  refine Eq.trans ?_ hSort
  have hPerm : ((merged.take k).map (·.first)).Perm
      (((merged.take k).map (·.first) : List R) : Multiset R).sort := by
    rw [← Multiset.coe_eq_coe, Multiset.sort_eq]
  refine hPerm.eq_of_pairwise' ?_ (Multiset.pairwise_sort _ _)
  exact List.pairwise_map.mpr hFirst.take

end Order

/-! ## The common bound -/

section Bound

variable [Field R] [LinearOrder R] [IsStrictOrderedRing R] {dim : Nat}

/-- What the constructor installs for `SquaredL2Distance`. -/
def squaredL2Installed (R : Type*) [Field R] [LinearOrder R] [IsStrictOrderedRing R] (dim : Nat) :
    Installed (Vec R dim) R :=
  ⟨squaredL2 R dim, squaredPruneCheck⟩

namespace Database

variable {db : Database (Vec R dim) R} {query : Vec R dim} {k nPagesToProbe step : Nat}

/-- A page that is pruned has no entry at or below the bound it was tested against. -/
theorem entries_beyond (hInstalled : db.installed = squaredL2Installed R dim)
    (hBounded : ∀ p ∈ db.dbStorage.pages, p.Bounded (squaredL2 R dim)) {b : WithTop R} {d : R}
    {p : Page (Vec R dim) R} (hp : p ∈ db.dbStorage.pages)
    (hd : ∃ a, p.anchor = some a ∧ d = db.installed.distFunc query a)
    (htest : db.installed.pruneCheckFunc d p.maxDist b = true) :
    ∀ y ∈ entries db.installed.distFunc query p, b < y.first := by
  intro y hy
  obtain ⟨a, ha, rfl⟩ := hd
  obtain ⟨s, hs, rfl⟩ := List.mem_map.mp hy
  rw [hInstalled] at htest ⊢
  exact squaredPruneCheck_sound dim query a s.2 p.maxDist b
    (hBounded p hp _ ⟨a, ha, s, hs, rfl⟩) htest

/-- A bound at or above `θ` prunes only entries beyond `θ`. -/
theorem knnTask_prunes (hInstalled : db.installed = squaredL2Installed R dim)
    (hBounded : ∀ p ∈ db.dbStorage.pages, p.Bounded (squaredL2 R dim)) (θ : R) :
    (db.knnTask query k nPagesToProbe step (db.queryOrder query)).Prunes (fun y => θ < y.first)
      (fun b => ↑θ ≤ b) := by
  constructor
  · intro b hb d p hp hd htest y hy
    have hlt := entries_beyond hInstalled hBounded hp hd htest y hy
    exact WithTop.coe_lt_coe.mp (hb.trans_lt hlt)
  · intro w d p hp hd htest y hy
    have hlt := entries_beyond hInstalled hBounded hp hd htest y hy
    exact Or.inl (WithTop.coe_lt_coe.mp hlt).le

omit [IsStrictOrderedRing R] in
theorem sum_candidates_le {V R : Type*} {T : FindKnn V R} {v : Multiset Nat} {n : Nat}
    (h : v ≤ Multiset.Ico 0 n) :
    (v.map T.candidates).sum ≤
      distancesTo T.distFunc T.query (namedPages T.dbStorage.pages (T.distToAnchor.take n)) := by
  obtain ⟨u, hu⟩ := Multiset.le_iff_exists_add.mp h
  rw [← FindKnn.sum_candidates, hu, Multiset.map_add, Multiset.sum_add]
  exact Multiset.le_add_right _ _

/-- A worker with `k` entries does not publish less than the `k`-th smallest distance. -/
theorem le_top_of_full {V R : Type*} [LinearOrder R] {T : FindKnn V R} {bufferSize n : Nat}
    {pruned : IdTaggedDistance R → Prop} {θ : R}
    (hk : 0 < T.k) (hθ : IsKth IdTaggedDistance.first T.k
      (distancesTo T.distFunc T.query (namedPages T.dbStorage.pages (T.distToAnchor.take n))) θ)
    {v : Multiset Nat} (hv : v ≤ Multiset.Ico 0 n) {w : KnnWork R}
    (hkeeps : T.Keeps pruned bufferSize v w) (hfull : w.heap.nOutputs = T.k) {r : R}
    (hr : w.heap.top.map (·.first) = some r) : θ ≤ r := by
  exact hkeeps.valid.isKth_le_top hk hfull (hkeeps.covers.le.trans (sum_candidates_le hv)) hθ hr

/-- Every worker that lowers the common bound has a full heap. -/
def PublishesFull (db : Database (Vec R dim) R) (query : Vec R dim) (k nPagesToProbe step : Nat)
    (sched : List (Fin db.nThreads × Bool)) : Prop :=
  db.PublishesUnder (fun w => w.heap.nOutputs = k) query k nPagesToProbe step sched

omit [IsStrictOrderedRing R] in
instance (sched : List (Fin db.nThreads × Bool)) :
    Decidable (db.PublishesFull query k nPagesToProbe step sched) :=
  inferInstanceAs (Decidable (db.PublishesUnder (fun w => w.heap.nOutputs = k) _ _ _ _ _))

end Database

end Bound

/-! ## Runs on two pages -/

/-- A database of two pages with capacity two, whose threads have local buffers
of size two. -/
def twoPages (first second : Page (Vec ℚ 1) ℚ) (nThreads : Nat) : Database (Vec ℚ 1) ℚ where
  dbStorage := { (Storage.createStorage 40 80 .float 1 : Storage (Vec ℚ 1) ℚ) with
    files := [⟨80, 40, [first, second]⟩] }
  cachedVectors := [(first.anchor).getD default, (second.anchor).getD default]
  cachedMaxDists := [⟨first.maxDist, 0⟩, ⟨second.maxDist, 1⟩]
  distToAnchorBuffer := []
  dbConfig := ⟨.float, .squaredL2Distance, 40, 80, 1, 1⟩
  installed := squaredL2Installed ℚ 1
  nThreads
  localDistanceBuffersSize := 2
  localDistanceBuffers _ := [⟨0, 7⟩, ⟨0, 7⟩]
  internalBuffer := ⟨[], 0, le_rfl⟩
  nPruned := 0

/-- Every thread acts in turn. -/
def roundRobin (n rounds : Nat) : List (Fin n × Bool) :=
  (List.replicate rounds ((List.finRange n).map fun t => (t, false))).flatten

/-- The points 0 and 1 around 0 and the points 4 and 6 around 4. -/
def fullPages : Database (Vec ℚ 1) ℚ :=
  twoPages ⟨1, [(0, .point 0), (1, .point 1)]⟩ ⟨4, [(2, .point 4), (3, .point 6)]⟩ 2

theorem fullPages_searchable : fullPages.Searchable :=
  ⟨by decide +kernel, by decide +kernel, fun _ => rfl, by decide, (squaredL2 ℚ 1).symm⟩

theorem fullPages_bounded : ∀ p ∈ fullPages.dbStorage.pages, p.Bounded (squaredL2 ℚ 1) := by
  have hExact : ∀ p ∈ fullPages.dbStorage.pages, p.ExactRadius (squaredL2 ℚ 1) := by
    decide +kernel
  exact fun p hp => (hExact p hp).bounded

/-- The points 1 and 2, each on a page of its own, with one thread. -/
def singlePages : Database (Vec ℚ 1) ℚ :=
  twoPages ⟨0, [(0, .point 1)]⟩ ⟨0, [(1, .point 2)]⟩ 1

theorem singlePages_searchable : singlePages.Searchable :=
  ⟨by decide +kernel, by decide +kernel, fun _ => rfl, by decide, (squaredL2 ℚ 1).symm⟩

end Spheres
