import Spheres.Benchmark.DistanceQuality
import Spheres.Benchmark.Fvecs
import Spheres.Benchmark.ParseArgv
import Spheres.Definitions
import Spheres.Distance.PageBound
import Spheres.Library.PriorityQueue
import Spheres.Library.Rows

/-!
# The brute-force baseline

For every query, `baseline::run` reads all base vectors in order. A priority queue keeps
`k` pairs of a distance and an index; its top is replaced when a vector is nearer, by a
comparison of the distances alone. A vector at the distance of the top has a larger
index than all the queue holds, so the queue keeps the smallest pairs even where
distances tie. Numbers are exact here.
-/

namespace Spheres.Benchmark.Baseline

open Library
open DistanceInput (readElem_of_some)

/-- What `read_file_as_flat_array` returns: the vectors, one behind the other. -/
structure FlatArray (K : Type*) (rows dim : Nat) where
  data : List K
  length_eq : data.length = rows * dim

namespace FlatArray

variable {K : Type*} {rows dim i : Nat} (a : FlatArray K rows dim)

def row (i : Nat) : List K := Rows.row dim i a.data

theorem row_fits (hi : i < rows) : i * dim + dim ≤ a.data.length := by
  rw [a.length_eq, ← Nat.succ_mul]
  exact Nat.mul_le_mul_right dim hi

theorem length_row (hi : i < rows) : (a.row i).length = dim :=
  Rows.length_row (a.row_fits hi)

theorem readSpan_row (hi : i < rows) : readSpan a.data (i * dim) dim = .ok (a.row i) := by
  rw [readSpan, if_pos (a.row_fits hi)]
  rfl

end FlatArray

variable {K : Type*} [Ring K] [LinearOrder K]

abbrev HeapEntry (K : Type*) := IdTaggedDistance K

/-- The body of the loop of `squared_l2`. -/
def addTerm (x y : List K) (i : Nat) (sum : K) : Except Failure K :=
  (readElem x i).bind fun xi =>
  (readElem y i).bind fun yi =>
  let difference := xi - yi
  .ok (sum + difference * difference)

def squaredL2 (x y : List K) : Except Failure K := forRange x.length (addTerm x y) 0

/-- What the loop over the base vectors does with a distance. -/
def offer (k : Nat) (distance : K) (vectorIndex : Nat) (heap : PriorityQueue (HeapEntry K)) :
    Except Failure (PriorityQueue (HeapEntry K)) :=
  if heap.size < k then .ok (heap.emplace ⟨distance, vectorIndex⟩)
  else heap.top.elim (.error .undefined) fun top =>
    if distance < top.first then .ok (heap.pop.emplace ⟨distance, vectorIndex⟩) else .ok heap

/-- The loop that writes the ids of a queue, `rank` of them, from the back. -/
def drain : Nat → PriorityQueue (HeapEntry K) → List Nat → Except Failure (List Nat)
  | 0, _, results => .ok results
  | rank + 1, heap, results =>
    heap.top.elim (.error .undefined) fun top =>
      if rank < results.length then drain rank heap.pop (results.set rank top.second)
      else .error .undefined

section Run

variable (config : BenchmarkConfig)
  (vectors : FlatArray K config.nBaseVectors.toNat config.vectorDim.toNat)
  (queries : FlatArray K config.nQueryVectors.toNat config.vectorDim.toNat)

/-- The body of the loop over the base vectors. -/
def visit (query : List K) (vectorIndex : Nat) (heap : PriorityQueue (HeapEntry K)) :
    Except Failure (PriorityQueue (HeapEntry K)) :=
  (readSpan vectors.data (vectorIndex * config.vectorDim.toNat) config.vectorDim.toNat).bind
    fun vector =>
  (squaredL2 vector query).bind fun distance =>
  offer config.k.toNat distance vectorIndex heap

/-- The body of the loop over the queries. -/
def answer (queryIndex : Nat) (results : List (List Nat)) : Except Failure (List (List Nat)) :=
  (readSpan queries.data (queryIndex * config.vectorDim.toNat) config.vectorDim.toNat).bind
    fun query =>
  (forRange config.nBaseVectors.toNat (visit config vectors query) .empty).bind fun heap =>
  (drain heap.size heap (List.replicate heap.size 0)).bind fun queryResults =>
  if queryIndex < results.length then .ok (results.set queryIndex queryResults)
  else .error .undefined

def run : Except Failure (List (List Nat)) :=
  forRange config.nQueryVectors.toNat (answer config vectors queries)
    (List.replicate config.nQueryVectors.toNat [])

/-! ## The true neighbours -/

omit [LinearOrder K] in
/-- The sum of the squared differences. -/
def distance (x y : List K) : K := (List.zipWith (fun a b => (a - b) * (a - b)) x y).sum

omit [LinearOrder K] in
/-- The first `n` vectors with their distances to a query. -/
def pairs (query : List K) (n : Nat) : List (HeapEntry K) :=
  (List.range n).map fun i => ⟨distance (vectors.row i) query, i⟩

/-- The ids of the first `k` pairs in lexicographic order. -/
def nearest (query : List K) : List Nat :=
  (((pairs config vectors query config.nBaseVectors.toNat).insertionSort (· ≤ ·)).take
    config.k.toNat).map (·.second)

end Run

/-! ## Distances -/

omit [LinearOrder K] in
theorem addTerm_eq {x y : List K} {i : Nat} (hx : i < x.length) (hy : i < y.length) (sum : K) :
    addTerm x y i sum = .ok (sum + (x[i] - y[i]) * (x[i] - y[i])) := by
  rw [addTerm, readElem_of_some (List.getElem?_eq_getElem hx),
    readElem_of_some (List.getElem?_eq_getElem hy)]
  rfl

omit [LinearOrder K] in
/-- On vectors of one length, `squared_l2` reads inside both and adds all terms. -/
theorem squaredL2_eq {x y : List K} (h : x.length = y.length) :
    squaredL2 x y = .ok (distance x y) := by
  let terms := List.zipWith (fun a b => (a - b) * (a - b)) x y
  have hlength : terms.length = x.length := by
    rw [List.length_zipWith, h, Nat.min_self]
  have hloop : forRange x.length (addTerm x y) 0 = .ok (terms.take x.length).sum := by
    apply forRange_eq fun i => (terms.take i).sum
    · rw [List.take_zero, List.sum_nil]
    · intro i hi
      have hterm : i < terms.length := hlength ▸ hi
      rw [addTerm_eq hi (h ▸ hi), List.sum_take_succ _ _ hterm, List.getElem_zipWith]
  rw [squaredL2, hloop, ← hlength, List.take_length]
  rfl

/-! ## The loop over the base vectors -/

section Scan

variable {config : BenchmarkConfig}
  {vectors : FlatArray K config.nBaseVectors.toNat config.vectorDim.toNat}
  {query : List K} {n : Nat} {heap : PriorityQueue (HeapEntry K)}

omit [LinearOrder K] in
theorem pairs_succ : pairs config vectors query (n + 1) =
    pairs config vectors query n ++ [⟨distance (vectors.row n) query, n⟩] := by
  simp only [pairs, List.range_succ, List.map_append, List.map_singleton]

omit [LinearOrder K] in
theorem coe_pairs_succ : (pairs config vectors query (n + 1) : Multiset (HeapEntry K)) =
    ⟨distance (vectors.row n) query, n⟩ ::ₘ (pairs config vectors query n : Multiset _) := by
  rw [pairs_succ, Multiset.cons_coe, Multiset.coe_eq_coe]
  exact List.perm_append_singleton _ _

omit [LinearOrder K] in
theorem second_lt_of_mem_pairs {z : HeapEntry K} (hz : z ∈ pairs config vectors query n) :
    z.second < n := by
  obtain ⟨i, hi, rfl⟩ := List.mem_map.mp hz
  exact List.mem_range.mp hi

omit [Ring K] in
/-- A pair with a later index is offered. On a tie with the top it is above all that the
queue holds. -/
theorem offer_keeps {k : Nat} {all : Multiset (HeapEntry K)} {d : K} (hk : 0 < k)
    (h : heap.Keeps k all) (hall : ∀ z ∈ all, z.second < n) :
    ∃ heap', offer k d n heap = .ok heap' ∧ heap'.Keeps k (⟨d, n⟩ ::ₘ all) := by
  by_cases hroom : heap.size < k
  · exact ⟨_, if_pos hroom, h.emplace hroom⟩
  · have hfull : heap.size = k := Nat.le_antisymm h.size (Nat.le_of_not_lt hroom)
    obtain ⟨top, htop, hentries, hmax⟩ := PriorityQueue.exists_top (hfull ▸ hk)
    rw [offer, if_neg hroom, htop]
    by_cases hlt : d < top.first
    · refine ⟨_, if_pos hlt, h.replace hfull hentries hmax ?_⟩
      exact (IdTaggedDistance.lt_iff.mpr (Or.inl hlt)).le
    · refine ⟨heap, if_neg hlt, h.skip hfull fun z hz => ?_⟩
      have hfirst : z.first ≤ d :=
        (IdTaggedDistance.first_le_of_le (hmax z hz)).trans (not_lt.mp hlt)
      have hsecond : z.second < n := hall z (Multiset.mem_of_le h.covers.le hz)
      rcases hfirst.lt_or_eq with hlt | heq
      · exact IdTaggedDistance.le_iff.mpr (Or.inl hlt)
      · exact IdTaggedDistance.le_iff.mpr (Or.inr ⟨heq, hsecond.le⟩)

theorem visit_keeps (hk : 0 < config.k.toNat) (hquery : query.length = config.vectorDim.toNat)
    (hn : n < config.nBaseVectors.toNat)
    (h : heap.Keeps config.k.toNat (pairs config vectors query n)) :
    ∃ heap', visit config vectors query n heap = .ok heap' ∧
      heap'.Keeps config.k.toNat (pairs config vectors query (n + 1)) := by
  have hdistance : squaredL2 (vectors.row n) query = .ok (distance (vectors.row n) query) := by
    apply squaredL2_eq
    rw [vectors.length_row hn, hquery]
  rw [visit, vectors.readSpan_row hn]
  simp only [Except.bind]
  rw [hdistance, coe_pairs_succ]
  exact offer_keeps hk h fun z hz => second_lt_of_mem_pairs (Multiset.mem_coe.mp hz)

/-- The queue ends with the `k` smallest pairs. -/
theorem scan_keeps
    (vectors : FlatArray K config.nBaseVectors.toNat config.vectorDim.toNat)
    (hk : 0 < config.k.toNat) (hquery : query.length = config.vectorDim.toNat) :
    ∃ heap', forRange config.nBaseVectors.toNat (visit config vectors query) .empty = .ok heap' ∧
      heap'.Keeps config.k.toNat (pairs config vectors query config.nBaseVectors.toNat) := by
  apply forRange_ok fun n heap => PriorityQueue.Keeps config.k.toNat
    (pairs config vectors query n : Multiset (HeapEntry K)) heap
  · exact PriorityQueue.keeps_empty
  · intro n hn heap h
    exact visit_keeps hk hquery hn h

end Scan

/-! ## The drain -/

omit [Ring K] in
/-- The drain writes the ids in ascending order of the pairs, in front of those written. -/
theorem drain_eq {rank : Nat} {heap : PriorityQueue (HeapEntry K)} {results written : List Nat}
    (hsize : heap.size = rank) (hlength : results.length = rank + written.length)
    (hwritten : results.drop rank = written) :
    drain rank heap results = .ok (heap.entries.sort.map (·.second) ++ written) := by
  induction rank generalizing heap results written with
  | zero =>
    have hnone : heap.entries = 0 := Multiset.card_eq_zero.mp hsize
    rw [drain, hnone, Multiset.sort_zero, List.map_nil, List.nil_append, ← hwritten,
      List.drop_zero]
  | succ rank ih =>
    have hpos : 0 < heap.size := hsize ▸ Nat.succ_pos rank
    obtain ⟨top, htop, hentries, hmax⟩ := PriorityQueue.exists_top hpos
    have hrank : rank < results.length := by omega
    have hpop : heap.pop.size = rank := by
      have := PriorityQueue.size_pop hpos
      omega
    have hnext : (results.set rank top.second).drop rank = top.second :: written := by
      rw [List.drop_set, if_neg (Nat.lt_irrefl rank), Nat.sub_self,
        List.drop_eq_getElem_cons hrank, hwritten, List.set_cons_zero]
    rw [drain, htop, Option.elim_some, if_pos hrank, ih hpop ?_ hnext,
      PriorityQueue.sort_entries hentries hmax, List.map_append, List.append_assoc]
    · rfl
    · rw [List.length_set, List.length_cons, hlength]
      omega

omit [Ring K] in
theorem drain_all (heap : PriorityQueue (HeapEntry K)) :
    drain heap.size heap (List.replicate heap.size 0) =
      .ok (heap.entries.sort.map (·.second)) := by
  have hlength : (List.replicate heap.size 0).length = heap.size := List.length_replicate
  rw [drain_eq rfl hlength (List.drop_eq_nil_of_le hlength.le), List.append_nil]

/-! ## All queries -/

section Results

variable (config : BenchmarkConfig)
  (vectors : FlatArray K config.nBaseVectors.toNat config.vectorDim.toNat)
  (queries : FlatArray K config.nQueryVectors.toNat config.vectorDim.toNat)

/-- The order of a queue is the lexicographic order of the pairs. -/
theorem sort_pairs (query : List K) (n : Nat) :
    (pairs config vectors query n : Multiset (HeapEntry K)).sort =
      (pairs config vectors query n).insertionSort (· ≤ ·) := by
  have hperm : (pairs config vectors query n : Multiset (HeapEntry K)).sort.Perm
      ((pairs config vectors query n).insertionSort (· ≤ ·)) := by
    rw [← Multiset.coe_eq_coe, Multiset.sort_eq, Multiset.coe_eq_coe]
    exact (List.perm_insertionSort _ _).symm
  apply hperm.eq_of_pairwise' (Multiset.pairwise_sort _ _)
  exact List.pairwise_insertionSort _ _

/-- The results after `q` queries. -/
def resultsAfter (q : Nat) : List (List Nat) :=
  (List.range q).map (fun i => nearest config vectors (queries.row i)) ++
    List.replicate (config.nQueryVectors.toNat - q) []

theorem length_resultsAfter {q : Nat} (hq : q ≤ config.nQueryVectors.toNat) :
    (resultsAfter config vectors queries q).length = config.nQueryVectors.toNat := by
  rw [resultsAfter, List.length_append, List.length_map, List.length_range,
    List.length_replicate, Nat.add_sub_cancel' hq]

theorem set_resultsAfter {q : Nat} (hq : q < config.nQueryVectors.toNat) :
    (resultsAfter config vectors queries q).set q (nearest config vectors (queries.row q)) =
      resultsAfter config vectors queries (q + 1) := by
  have hrest : config.nQueryVectors.toNat - q = config.nQueryVectors.toNat - (q + 1) + 1 := by
    omega
  rw [resultsAfter, resultsAfter, hrest, List.set_append_right _ _ (by simp), List.length_map,
    List.length_range, Nat.sub_self, List.replicate_succ, List.set_cons_zero, List.range_succ,
    List.map_append, List.append_assoc]
  rfl

theorem answer_eq (hk : 0 < config.k.toNat) {q : Nat} (hq : q < config.nQueryVectors.toNat) :
    answer config vectors queries q (resultsAfter config vectors queries q) =
      .ok (resultsAfter config vectors queries (q + 1)) := by
  obtain ⟨heap, hscan, hkeeps⟩ := scan_keeps vectors hk (queries.length_row hq)
  have hnearest : heap.entries.sort.map (·.second) =
      nearest config vectors (queries.row q) := by
    rw [hkeeps.sort_eq, sort_pairs, nearest]
  have hroom : q < (resultsAfter config vectors queries q).length := by
    rw [length_resultsAfter config vectors queries hq.le]
    exact hq
  rw [answer, queries.readSpan_row hq]
  simp only [Except.bind]
  rw [hscan]
  simp only [drain_all, hnearest, if_pos hroom, set_resultsAfter config vectors queries hq]

theorem run_eq (hk : 0 < config.k.toNat) :
    run config vectors queries = .ok ((List.range config.nQueryVectors.toNat).map fun q =>
      nearest config vectors (queries.row q)) := by
  have hloop : run config vectors queries =
      .ok (resultsAfter config vectors queries config.nQueryVectors.toNat) := by
    apply forRange_eq (resultsAfter config vectors queries)
    · rfl
    · intro q hq
      exact answer_eq config vectors queries hk hq
  rw [hloop, resultsAfter, Nat.sub_self, List.replicate_zero, List.append_nil]

theorem length_nearest (hn : config.k.toNat ≤ config.nBaseVectors.toNat) (query : List K) :
    (nearest config vectors query).length = config.k.toNat := by
  rw [nearest, List.length_map, List.length_take, List.length_insertionSort, pairs,
    List.length_map, List.length_range, Nat.min_eq_left hn]

end Results

/-- For every query, the results are the ids of the first `k` pairs of a distance and an
index, in lexicographic order, and there are `k` of them. -/
theorem run_eq_nearest (config : BenchmarkConfig)
    (vectors : FlatArray K config.nBaseVectors.toNat config.vectorDim.toNat)
    (queries : FlatArray K config.nQueryVectors.toNat config.vectorDim.toNat)
    (hk : 1 ≤ config.k.toNat) (hn : config.k.toNat ≤ config.nBaseVectors.toNat) :
    run config vectors queries = .ok ((List.range config.nQueryVectors.toNat).map fun q =>
        nearest config vectors (queries.row q)) ∧
      ∀ query, (nearest config vectors query).length = config.k.toNat :=
  ⟨run_eq config vectors queries hk, length_nearest config vectors hn⟩

/-- Three vectors at one distance. -/
theorem run_eq_nearest_tie :
    run { k := 2, nBaseVectors := 3, nQueryVectors := 1, vectorDim := 1 }
      (⟨[1, -1, 1], rfl⟩ : FlatArray ℤ 3 1) (⟨[0], rfl⟩ : FlatArray ℤ 1 1) = .ok [[0, 1]] :=
  (run_eq_nearest { k := 2, nBaseVectors := 3, nQueryVectors := 1, vectorDim := 1 }
    (⟨[1, -1, 1], rfl⟩ : FlatArray ℤ 3 1) (⟨[0], rfl⟩ : FlatArray ℤ 1 1)
    (by decide) (by decide)).1

/-! ## The kernels of the index -/

section Kernels

variable {F : Type*} [Field F] [LinearOrder F] [IsStrictOrderedRing F] {n : Nat}

omit [LinearOrder F] [IsStrictOrderedRing F] in
theorem squaredL2_ofFn (x y : Fin n → F) :
    squaredL2 (List.ofFn x) (List.ofFn y) = .ok (∑ i, (x i - y i) * (x i - y i)) := by
  have hlength : (List.ofFn x).length = (List.ofFn y).length := by
    rw [List.length_ofFn, List.length_ofFn]
  have hzip : List.zipWith (fun a b => (a - b) * (a - b)) (List.ofFn x) (List.ofFn y) =
      List.ofFn fun i => (x i - y i) * (x i - y i) := by
    apply List.ext_getElem
    · rw [List.length_zipWith, List.length_ofFn, List.length_ofFn, List.length_ofFn, Nat.min_self]
    · intro i _ _
      rw [List.getElem_zipWith, List.getElem_ofFn, List.getElem_ofFn, List.getElem_ofFn]
  rw [squaredL2_eq hlength, distance, hzip, List.sum_ofFn]

/-- The unrolled kernels compute their sums, the squared distance is that of the baseline,
and on unit vectors the normalized one is the same and is not cut off at zero. -/
theorem kernels_agree (x y : Fin n → F) :
    Distance.squaredL2Distance (List.ofFn x) (List.ofFn y) = ∑ i, (x i - y i) ^ 2 ∧
      squaredL2 (List.ofFn x) (List.ofFn y) =
        .ok (Distance.squaredL2Distance (List.ofFn x) (List.ofFn y)) ∧
      Distance.dotProductNaive (List.ofFn x) (List.ofFn y) = ∑ i, x i * y i ∧
      (∑ i, x i ^ 2 = 1 → ∑ i, y i ^ 2 = 1 →
        Distance.squaredNormalizedL2Distance (List.ofFn x) (List.ofFn y) =
            Distance.squaredL2Distance (List.ofFn x) (List.ofFn y) ∧
          Distance.squaredNormalizedL2Distance (List.ofFn x) (List.ofFn y) =
            2 - 2 * Distance.dotProductNaive (List.ofFn x) (List.ofFn y)) := by
  have hdistance : Distance.squaredL2Distance (List.ofFn x) (List.ofFn y) =
      ∑ i, (x i - y i) * (x i - y i) := Distance.unrolledSum_ofFn _ x y
  refine ⟨?_, ?_, Distance.unrolledSum_ofFn _ x y, fun hx hy => ?_⟩
  · simp only [hdistance, pow_two]
  · rw [squaredL2_ofFn, hdistance]
  · have hunit : ∀ z : Fin n → F, ∑ i, z i ^ 2 = 1 →
        Distance.dotProductNaive (List.ofFn z) (List.ofFn z) = 1 := by
      intro z hz
      simp only [pow_two] at hz
      exact (Distance.unrolledSum_ofFn _ z z).trans hz
    have hnormalized : Distance.squaredNormalizedL2Distance (List.ofFn x) (List.ofFn y) =
        Distance.squaredL2Distance (List.ofFn x) (List.ofFn y) :=
      @Distance.squaredNormalizedL2Distance_eq F _ _ _ n ⟨List.ofFn x, List.length_ofFn⟩
        ⟨List.ofFn y, List.length_ofFn⟩ (hunit x hx) (hunit y hy)
    have hlength : (List.ofFn x).length = (List.ofFn y).length := by
      rw [List.length_ofFn, List.length_ofFn]
    refine ⟨hnormalized, ?_⟩
    rw [hnormalized, Distance.squaredL2Distance_eq_dotProduct hlength, hunit x hx, hunit y hy]
    ring

/-- The unit vector along an axis of the plane. -/
def axis (j : Fin 2) : Fin 2 → ℚ := fun i => if i = j then 1 else 0

theorem kernels_agree_axes :
    Distance.squaredNormalizedL2Distance (List.ofFn (axis 0)) (List.ofFn (axis 1)) =
      Distance.squaredL2Distance (List.ofFn (axis 0)) (List.ofFn (axis 1)) :=
  ((kernels_agree (axis 0) (axis 1)).2.2.2 (by decide +kernel) (by decide +kernel)).1

end Kernels

/-! ## From the command line and the files -/

section Files

open Fvecs

variable {disk : String → Option File} {path : String} {file : File} {rows dim : SizeT}

omit [Ring K] [LinearOrder K] in
/-- The array of the numbers that the words of a file stand for. -/
theorem exists_flatArray (ofBits : UInt32 → K) (hfile : disk path = some file)
    (hdim : dim.toNat < 2 ^ 31) (hrows : rows.toNat < 2 ^ 31) {ws : List UInt32}
    (h : readFileAsFlatArray disk path rows dim = .ok ws) :
    ∃ a : FlatArray K rows.toNat dim.toNat, a.data = ws.map ofBits := by
  have hlength := length_of_readFileAsFlatArray hfile hdim hrows h
  exact ⟨⟨ws.map ofBits, by rw [List.length_map, hlength]⟩, rfl⟩

/-- An accepted configuration whose files can be read is run to the nearest vectors, as
many as were asked for. -/
theorem run_of_files {iterate : List (String × String) → List (String × String)}
    {argv : List String} {config : BenchmarkConfig} (hargs : parseArgv iterate argv = .ok config)
    {base query : File} (hbase : disk config.baseVectorPath = some base)
    (hquery : disk config.queryVectorPath = some query) (hdim : config.vectorDim.toNat < 2 ^ 31)
    (hnBase : config.nBaseVectors.toNat < 2 ^ 31) (hnQuery : config.nQueryVectors.toNat < 2 ^ 31)
    (ofBits : UInt32 → K) {ws qs : List UInt32}
    (hws : readFileAsFlatArray disk config.baseVectorPath config.nBaseVectors config.vectorDim =
      .ok ws)
    (hqs : readFileAsFlatArray disk config.queryVectorPath config.nQueryVectors config.vectorDim =
      .ok qs) :
    ∃ (vectors : FlatArray K config.nBaseVectors.toNat config.vectorDim.toNat)
      (queries : FlatArray K config.nQueryVectors.toNat config.vectorDim.toNat),
      vectors.data = ws.map ofBits ∧ queries.data = qs.map ofBits ∧
      ∃ results, run config vectors queries = .ok results ∧
        results = (List.range config.nQueryVectors.toNat).map
          (fun q => nearest config vectors (queries.row q)) ∧
        ∀ row ∈ results, row.length = config.k.toNat := by
  obtain ⟨hk, -, hkn⟩ := (parseArgv_accepted hargs).k
  have hpos : 0 < config.k.toNat := by
    apply Nat.pos_of_ne_zero
    intro hzero
    exact hk (UInt64.toNat_inj.mp hzero)
  obtain ⟨vectors, hvectors⟩ := exists_flatArray ofBits hbase hdim hnBase hws
  obtain ⟨queries, hqueries⟩ := exists_flatArray ofBits hquery hdim hnQuery hqs
  refine ⟨vectors, queries, hvectors, hqueries, _, run_eq config vectors queries hpos, rfl, ?_⟩
  intro row hrow
  obtain ⟨q, -, rfl⟩ := List.mem_map.mp hrow
  exact length_nearest config vectors (UInt64.le_iff_toNat_le.mp hkn) _

end Files

end Spheres.Benchmark.Baseline
