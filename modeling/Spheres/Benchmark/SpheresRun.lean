import Spheres.Benchmark.Baseline
import Spheres.Interface.IdealStore

/-!
# The benchmark of the index

`spheres_benchmark::run` builds an index from the base vectors or opens the one
of an earlier run, and asks it for the neighbours of every query, one after the
other on one database. In the exact modes it reports what the baseline reports:
the neighbours lie at the same distances, whatever the threads do, so that the
average distance that is written to the metrics is the same number.
-/

namespace Spheres.Benchmark.SpheresRun

open Distance Execution Library Parallel
open Baseline (FlatArray)

variable {K : Type*} [Field K] [LinearOrder K] [IsStrictOrderedRing K]

/-! ## The run -/

theorem toNat_pos_of_ne_zero {n : SizeT} (hn : n ≠ 0) : 0 < n.toNat :=
  Nat.pos_of_ne_zero fun hzero => hn (UInt64.toNat_inj.mp hzero)

omit [Field K] [LinearOrder K] [IsStrictOrderedRing K] in
/-- The rows of an array, as they are handed to the index. -/
def spans {rows dim : Nat} (a : FlatArray K rows dim) : List (Vec K dim) :=
  List.ofFn fun i : Fin rows => ⟨a.row i, a.length_row i.isLt⟩

omit [Field K] [LinearOrder K] [IsStrictOrderedRing K] in
@[simp] theorem length_spans {rows dim : Nat} (a : FlatArray K rows dim) :
    (spans a).length = rows :=
  List.length_ofFn

omit [Field K] [LinearOrder K] [IsStrictOrderedRing K] in
theorem toList_getElem_spans {rows dim i : Nat} (a : FlatArray K rows dim)
    (hi : i < (spans a).length) : (spans a)[i].toList = a.row i := by
  have hget : (spans a)[i] = ⟨a.row i, a.length_row (length_spans a ▸ hi)⟩ := List.getElem_ofFn hi
  rw [hget]
  rfl

/-- What the two tasks of a query are scheduled by. -/
structure QueryTurns where
  fill : List (Nat × Unit)
  search : List (Nat × Bool)

section Run

variable (config : BenchmarkConfig)

/-- The databases of a run. -/
abbrev Index (K : Type*) (config : BenchmarkConfig) := Database (Vec K config.vectorDim.toNat) K

/-- The index of the base vectors; the database is closed at the end of its scope. -/
def build (vectors : List (Vec K config.vectorDim.toNat)) (prefill : List (List (Nat × Bool))) :
    Outcome (DiskImage (Vec K config.vectorDim.toNat) K) :=
  (Outcome.ofOption (Database.create (fun _ => squaredL2Installed K config.vectorDim.toNat)
    config.spheresPageSize.toNat config.spheresFileSize.toNat .float config.vectorDim.toNat
    .squaredL2Distance config.nThreads.toNat config.spheresLocalBufferSize.toNat)).bind
    fun database =>
  (database.batchPrefillParallel vectors (List.range config.nBaseVectors.toNat) 1 prefill).bind
    fun r => .returned r.1.close

/-- The database that answers the queries. -/
def openIndex (stored : DiskImage (Vec K config.vectorDim.toNat) K)
    (vectors : List (Vec K config.vectorDim.toNat)) (prefill : List (List (Nat × Bool))) :
    Outcome (Index K config) :=
  (if config.reuseIndex then .returned stored else build config vectors prefill).bind fun image =>
  .ofOption (Database.load (fun _ => squaredL2Installed K config.vectorDim.toNat) image
    config.nThreads.toNat config.spheresLocalBufferSize.toNat)

/-- The pruning test of the mode. -/
def chooseMode (database : Index K config) : Except Failure (Index K config) :=
  if config.engineMode = "legacy_prune" then
    .ok { database with
      installed := { database.installed with pruneCheckFunc := legacyPruneCheck } }
  else if config.engineMode ≠ "exact" ∧ config.engineMode ≠ "ann" then
    .error (.invalidArgument ("unknown Spheres mode: " ++ config.engineMode))
  else .ok database

/-- The loop over the queries. An id without a value was read past the size of a buffer. -/
def search (turns : Nat → QueryTurns) :
    List (Vec K config.vectorDim.toNat) → Nat → Index K config →
      Outcome (List (List (Option Nat)))
  | [], _, _ => .returned []
  | query :: queries, i, database =>
    (database.findKNearest query config.k.toNat config.spheresNPagesToProbe.toNat
      config.spheresMorselStep.toNat (turnsOf _ (turns i).fill) (turnsOf _ (turns i).search)).bind
      fun r =>
    (search turns queries (i + 1) r.1).bind fun results =>
    .returned (r.2.map (fun found => found.map (·.second)) :: results)

/-- In every query of the run only workers with full heaps lower the common bound. -/
def EverySearch (turns : Nat → QueryTurns) :
    List (Vec K config.vectorDim.toNat) → Nat → Index K config → Prop
  | [], _, _ => True
  | query :: queries, i, database =>
    database.PublishesUnder (fun w => w.heap.nOutputs = config.k.toNat) query config.k.toNat
      config.spheresNPagesToProbe.toNat config.spheresMorselStep.toNat
      (turnsOf _ (turns i).search) ∧
    (database.findKNearest query config.k.toNat config.spheresNPagesToProbe.toNat
      config.spheresMorselStep.toNat (turnsOf _ (turns i).fill)
      (turnsOf _ (turns i).search)).WhenReturned fun r => EverySearch turns queries (i + 1) r.1

instance EverySearch.decide (turns : Nat → QueryTurns) :
    (queries : List (Vec K config.vectorDim.toNat)) → (i : Nat) → (database : Index K config) →
      Decidable (EverySearch config turns queries i database)
  | [], _, _ => isTrue trivial
  | _ :: queries, i, _ =>
    have : DecidablePred fun r : Index K config × List (Option (IdTaggedDistance K)) =>
        EverySearch config turns queries (i + 1) r.1 :=
      fun r => EverySearch.decide turns queries (i + 1) r.1
    inferInstanceAs (Decidable (_ ∧ _))

/-- `spheres_benchmark::run`, up to the results. -/
def run (stored : DiskImage (Vec K config.vectorDim.toNat) K)
    (vectors : FlatArray K config.nBaseVectors.toNat config.vectorDim.toNat)
    (queries : FlatArray K config.nQueryVectors.toNat config.vectorDim.toNat)
    (prefill : List (List (Nat × Bool))) (turns : Nat → QueryTurns) :
    Outcome (Except Failure (List (List (Option Nat)))) :=
  (openIndex config stored (spans vectors) prefill).bind fun database =>
  match chooseMode config database with
  | .error e => .returned (.error e)
  | .ok database =>
    (search config turns (spans queries) 0 database).bind fun results => .returned (.ok results)

/-! ## The index -/

/-- The vectors of a page. -/
def pageCapacity : Nat :=
  Storage.capacity config.spheresPageSize.toNat SupportedDataType.float.elementSize
    config.vectorDim.toNat

/-- Pages of at least two vectors that fill the files, and local buffers with room for a page
and for an answer. -/
structure SizesFit : Prop where
  file : config.spheresFileSize ≠ 0
  dvd : config.spheresPageSize.toNat ∣ config.spheresFileSize.toNat
  capacity : 2 ≤ pageCapacity config
  page : pageCapacity config ≤ config.spheresLocalBufferSize.toNat
  answer : config.k.toNat ≤ config.spheresLocalBufferSize.toNat
  morsel : config.spheresMorselStep ≠ 0

/-- The rounds of the load of a new index all fit. -/
def BuildFits (vectors : List (Vec K config.vectorDim.toNat))
    (prefill : List (List (Nat × Bool))) : Prop :=
  2 * config.nThreads.toNat ≤ config.nBaseVectors.toNat ∧
    ∀ database ∈ Database.create (fun _ => squaredL2Installed K config.vectorDim.toNat)
      config.spheresPageSize.toNat config.spheresFileSize.toNat .float config.vectorDim.toNat
      .squaredL2Distance config.nThreads.toNat config.spheresLocalBufferSize.toNat,
    database.EveryRound vectors (List.range config.nBaseVectors.toNat) 1 PrefillState.RoundFits
      prefill

/-- What a database of a run keeps. -/
abbrev Serves (database : Index K config) : Prop :=
  database.Serves (fun _ => squaredL2Installed K config.vectorDim.toNat)
    config.spheresPageSize.toNat config.spheresFileSize.toNat .float config.vectorDim.toNat
    .squaredL2Distance (squaredL2 K config.vectorDim.toNat)

/-- The files of an index of these vectors. -/
def Holds (vectors : List (Vec K config.vectorDim.toNat))
    (image : DiskImage (Vec K config.vectorDim.toNat) K) : Prop :=
  ∃ database : Index K config, Serves config database ∧ image = database.close ∧
    contents database.dbStorage.pages = (List.range config.nBaseVectors.toNat).zip vectors

variable {config} {vectors : List (Vec K config.vectorDim.toNat)}
  {prefill : List (List (Nat × Bool))}

theorem SizesFit.pageSize_pos (h : SizesFit config) : 0 < config.spheresPageSize.toNat := by
  apply Nat.pos_of_ne_zero
  intro hzero
  have hcapacity := h.capacity
  rw [pageCapacity, hzero] at hcapacity
  revert hcapacity
  simp [Storage.capacity]

variable (K) in
/-- A new index. -/
theorem create_index (h : SizesFit config) :
    ∃ database : Index K config, Database.create
      (fun _ => squaredL2Installed K config.vectorDim.toNat) config.spheresPageSize.toNat
      config.spheresFileSize.toNat .float config.vectorDim.toNat .squaredL2Distance
      config.nThreads.toNat config.spheresLocalBufferSize.toNat = some database ∧
      Serves config database ∧ contents database.dbStorage.pages = 0 := by
  have hfile : 0 < config.spheresFileSize.toNat := toNat_pos_of_ne_zero h.file
  obtain ⟨database, hcreate⟩ := Database.exists_create
    (fun _ => squaredL2Installed K config.vectorDim.toNat) h.pageSize_pos
    (Nat.le_of_dvd hfile h.dvd) .float config.vectorDim.toNat .squaredL2Distance
    config.nThreads.toNat config.spheresLocalBufferSize.toNat
  have hcapacity : database.dbStorage.maxNumVectorsPerPage = pageCapacity config :=
    (Database.create_fresh h.dvd hcreate).grown.layout.capacity
  exact ⟨database, hcreate, Database.create_serves hcreate h.dvd (hcapacity ▸ h.capacity) rfl⟩

/-- What is built holds the base vectors under their positions. -/
theorem build_ensures (h : SizesFit config) (hThreads : 0 < config.nThreads.toNat)
    (hlength : vectors.length = config.nBaseVectors.toNat)
    (hfits : BuildFits config vectors prefill) :
    (build config vectors prefill).Ensures (Holds config vectors) := by
  obtain ⟨database, hcreate, hserves, -⟩ := create_index K h
  have hfresh := Database.create_fresh h.dvd hcreate
  have hcapacity : database.dbStorage.maxNumVectorsPerPage = pageCapacity config :=
    hfresh.grown.layout.capacity
  have hload : database.CanLoad (fun _ => squaredL2Installed K config.vectorDim.toNat)
      config.spheresPageSize.toNat config.spheresFileSize.toNat .float config.vectorDim.toNat
      .squaredL2Distance vectors (List.range config.nBaseVectors.toNat) 1 prefill := by
    refine ⟨?_, ?_, ?_, ?_, ?_, ?_, ?_, hfits.2 _ hcreate⟩
    · rw [hfresh.nThreads, hfresh.size]
      exact hfresh
    · rw [hfresh.nThreads]
      exact hThreads
    · rw [maxNumVectors_one, hcapacity]
      exact (Nat.zero_lt_two).trans_le h.capacity
    · rw [maxNumVectors_one]
    · rw [maxNumVectors_one, hcapacity, hfresh.size]
      exact h.page
    · rw [List.length_range, hlength]
    · rw [hfresh.nThreads, hlength]
      exact hfits.1
  rw [build, hcreate, Outcome.ofOption_some, Outcome.bind_returned]
  refine (hload.stores rfl).and_returned.bind ?_
  rintro ⟨after, left, leftIds⟩ ⟨⟨-, hcontents, -⟩, hrun⟩
  have hreply : database.Replies (fun _ => squaredL2Installed K config.vectorDim.toNat)
      (.batchPrefillParallel vectors (List.range config.nBaseVectors.toNat) 1 prefill,
        .left left leftIds) after := .batchPrefillParallel hrun
  refine ⟨after, hserves.replies h.pageSize_pos rfl ?_ hreply, rfl, hcontents⟩
  exact hload

/-- The files are opened as the database that left them, with other buffers. -/
theorem load_ensures (h : SizesFit config) {image : DiskImage (Vec K config.vectorDim.toNat) K}
    (himage : Holds config vectors image) :
    ∃ database : Index K config, Database.load
      (fun _ => squaredL2Installed K config.vectorDim.toNat) image config.nThreads.toNat
      config.spheresLocalBufferSize.toNat = some database ∧ Serves config database ∧
      contents database.dbStorage.pages = (List.range config.nBaseVectors.toNat).zip vectors ∧
      database.nThreads = config.nThreads.toNat ∧
      database.localDistanceBuffersSize = config.spheresLocalBufferSize.toNat := by
  obtain ⟨left, hserves, rfl, hcontents⟩ := himage
  have hcount : left.dbStorage.nFiles * config.spheresFileSize.toNat /
      config.spheresPageSize.toNat = left.dbStorage.nPages := by
    refine ((hserves.steady.grown.nPages_eq_iff h.pageSize_pos).mpr ?_).symm
    rw [Nat.mod_eq_zero_of_dvd h.dvd, Nat.mul_zero]
    exact h.pageSize_pos
  obtain ⟨database, hload, hstorage, -⟩ := hserves.steady.load_returns hcount
    config.nThreads.toNat config.spheresLocalBufferSize.toNat
  have hreply : left.Replies (fun _ => squaredL2Installed K config.vectorDim.toNat)
      (.reopen config.nThreads.toNat config.spheresLocalBufferSize.toNat, .done) database :=
    .reopen hload
  refine ⟨database, hload, hserves.replies h.pageSize_pos rfl ?_ hreply, hstorage ▸ hcontents, ?_⟩
  · trivial
  obtain ⟨opened, hopened, hcaches⟩ := Option.bind_eq_some_iff.mp hload
  obtain ⟨s, -, rfl⟩ := Option.map_eq_some_iff.mp hopened
  obtain ⟨c, -, rfl⟩ := Option.map_eq_some_iff.mp hcaches
  exact ⟨rfl, rfl⟩

/-- The database that answers the queries. -/
structure Opened (vectors : List (Vec K config.vectorDim.toNat)) (database : Index K config) :
    Prop where
  serves : Serves config database
  holds : contents database.dbStorage.pages =
    (List.range config.nBaseVectors.toNat).zip vectors
  nThreads : database.nThreads = config.nThreads.toNat
  size : database.localDistanceBuffersSize = config.spheresLocalBufferSize.toNat

theorem openIndex_ensures (h : SizesFit config) (hThreads : 0 < config.nThreads.toNat)
    (hlength : vectors.length = config.nBaseVectors.toNat)
    {stored : DiskImage (Vec K config.vectorDim.toNat) K}
    (hindex : if config.reuseIndex then Holds config vectors stored
      else BuildFits config vectors prefill) :
    (openIndex config stored vectors prefill).Ensures (Opened vectors) := by
  have hstored : (if config.reuseIndex then .returned stored
      else build config vectors prefill).Ensures (Holds config vectors) := by
    by_cases hreuse : config.reuseIndex
    · rw [if_pos hreuse] at hindex ⊢
      exact hindex
    · rw [if_neg hreuse] at hindex ⊢
      exact build_ensures h hThreads hlength hindex
  refine hstored.bind fun image himage => ?_
  obtain ⟨database, hload, hserves, hcontents, hthreads, hsize⟩ := load_ensures h himage
  rw [hload]
  exact ⟨hserves, hcontents, hthreads, hsize⟩

end Run

/-! ## The answers -/

section Answers

omit [LinearOrder K] [IsStrictOrderedRing K] in
/-- The kernel of the index and the baseline compute the same distances. -/
theorem squaredL2Distance_eq_distance {dim : Nat} (v w : Vec K dim) :
    Distance.squaredL2Distance v.toList w.toList = Baseline.distance v.toList w.toList := by
  rw [← List.Vector.ofFn_get v, ← List.Vector.ofFn_get w, List.Vector.toList_ofFn,
    List.Vector.toList_ofFn]
  have hlength : (List.ofFn v.get).length = (List.ofFn w.get).length := by
    rw [List.length_ofFn, List.length_ofFn]
  have hbaseline := Baseline.squaredL2_ofFn v.get w.get
  rw [Baseline.squaredL2_eq hlength] at hbaseline
  rw [Except.ok.inj hbaseline]
  exact Distance.unrolledSum_ofFn _ v.get w.get

variable {config : BenchmarkConfig}
  {vectors : FlatArray K config.nBaseVectors.toNat config.vectorDim.toNat}

/-- The vectors of the index with their distances are the pairs of the baseline. -/
theorem distancesTo_eq_pairs {pages : List (Page (Vec K config.vectorDim.toNat) K)}
    (hcontents : contents pages = (List.range config.nBaseVectors.toNat).zip (spans vectors))
    (query : Vec K config.vectorDim.toNat) :
    distancesTo (squaredL2 K config.vectorDim.toNat) query pages =
      Baseline.pairs config vectors query.toList config.nBaseVectors.toNat := by
  rw [distancesTo, hcontents, Multiset.map_coe, Multiset.coe_eq_coe]
  apply List.Perm.of_eq
  apply List.ext_getElem
  · simp [Baseline.pairs]
  · intro i _ _
    simp only [Baseline.pairs, List.getElem_map, List.getElem_zip, List.getElem_range]
    rw [← toList_getElem_spans, ← squaredL2Distance_eq_distance]
    rfl

/-- The distance of a base vector to a query. -/
def distanceOf (vectors : FlatArray K config.nBaseVectors.toNat config.vectorDim.toNat)
    (query : List K) (id : Nat) : K :=
  Baseline.distance (vectors.row id) query

/-- Distinct base vectors at the distances of the neighbours that the baseline finds. -/
structure IsNear (vectors : FlatArray K config.nBaseVectors.toNat config.vectorDim.toNat)
    (query : List K) (row : List Nat) : Prop where
  nodup : row.Nodup
  stored : ∀ id ∈ row, id < config.nBaseVectors.toNat
  distances : row.map (distanceOf vectors query) =
    (Baseline.nearest config vectors query).map (distanceOf vectors query)

omit [LinearOrder K] [IsStrictOrderedRing K] in
/-- The pairs of a list say what they say in the array. -/
theorem map_distanceOf {query : List K} {found : List (IdTaggedDistance K)}
    (h : ∀ y ∈ found, y ∈ Baseline.pairs config vectors query config.nBaseVectors.toNat) :
    (found.map (·.second)).map (distanceOf vectors query) = found.map (·.first) := by
  rw [List.map_map]
  apply List.map_congr_left
  intro y hy
  obtain ⟨i, -, rfl⟩ := List.mem_map.mp (h y hy)
  rfl

omit [Field K] [IsStrictOrderedRing K] in
theorem map_first_sorted (pairs : List (IdTaggedDistance K)) :
    (pairs.insertionSort (· ≤ ·)).map (·.first) =
      ((pairs.map (·.first) : List K) : Multiset K).sort := by
  have hperm : ((pairs.insertionSort (· ≤ ·)).map (·.first)).Perm
      ((pairs.map (·.first) : List K) : Multiset K).sort := by
    rw [← Multiset.coe_eq_coe, Multiset.sort_eq, Multiset.coe_eq_coe]
    exact (List.perm_insertionSort _ _).map _
  apply hperm.eq_of_pairwise' _ (Multiset.pairwise_sort _ _)
  exact List.pairwise_map.mpr ((List.pairwise_insertionSort (· ≤ ·) pairs).imp
    IdTaggedDistance.first_le_of_le)

omit [IsStrictOrderedRing K] in
/-- The distances of the neighbours are the smallest. -/
theorem map_distanceOf_nearest (query : List K) :
    (Baseline.nearest config vectors query).map (distanceOf vectors query) =
      ((((Baseline.pairs config vectors query config.nBaseVectors.toNat).map (·.first) :
        List K) : Multiset K).sort).take config.k.toNat := by
  rw [Baseline.nearest, map_distanceOf, List.map_take, map_first_sorted]
  intro y hy
  exact (List.mem_insertionSort _).mp (List.mem_of_mem_take hy)

omit [IsStrictOrderedRing K] in
/-- Some pairs at the smallest distances. -/
theorem isNear_of_le {query : List K} {found : List (IdTaggedDistance K)}
    (hle : (found : Multiset (IdTaggedDistance K)) ≤
      Baseline.pairs config vectors query config.nBaseVectors.toNat)
    (hfirst : found.map (·.first) =
      ((((Baseline.pairs config vectors query config.nBaseVectors.toNat).map (·.first) :
        List K) : Multiset K).sort).take config.k.toNat) :
    IsNear vectors query (found.map (·.second)) := by
  have hmem : ∀ y ∈ found, y ∈ Baseline.pairs config vectors query config.nBaseVectors.toNat :=
    fun y hy => Multiset.mem_coe.mp (Multiset.mem_of_le hle (Multiset.mem_coe.mpr hy))
  refine ⟨?_, ?_, ?_⟩
  · have hids : (found.map (·.second) : Multiset Nat) ≤ List.range config.nBaseVectors.toNat := by
      have hmap := Multiset.map_le_map hle (f := (·.second))
      rw [Multiset.map_coe, Multiset.map_coe] at hmap
      simpa [Baseline.pairs, Function.comp_def] using hmap
    exact Multiset.coe_nodup.mp
      (Multiset.nodup_of_le hids (Multiset.coe_nodup.mpr List.nodup_range))
  · intro id hid
    obtain ⟨y, hy, rfl⟩ := List.mem_map.mp hid
    exact Baseline.second_lt_of_mem_pairs (hmem y hy)
  · rw [map_distanceOf hmem, map_distanceOf_nearest, hfirst]

/-- An exact answer reports what the baseline reports. -/
theorem isNear_of_isExactAnswer {pages : List (Page (Vec K config.vectorDim.toNat) K)}
    (hcontents : contents pages = (List.range config.nBaseVectors.toNat).zip (spans vectors))
    {query : Vec K config.vectorDim.toNat} {result : List (Option (IdTaggedDistance K))}
    (h : IsExactAnswer (squaredL2 K config.vectorDim.toNat) pages query config.k.toNat result) :
    ∃ row : List Nat, result.map (fun found => found.map (·.second)) = row.map some ∧
      IsNear vectors query.toList row := by
  obtain ⟨found, rfl, -, -, hle, hfirst⟩ := h
  have hpairs := distancesTo_eq_pairs hcontents query
  refine ⟨found.map (·.second), ?_, isNear_of_le (hpairs ▸ hle) ?_⟩
  · simp
  · have hmap : (contents pages).map (fun s => squaredL2 K config.vectorDim.toNat s.2 query) =
        (distancesTo (squaredL2 K config.vectorDim.toNat) query pages).map (·.first) := by
      rw [distancesTo, Multiset.map_map]
      rfl
    rw [hfirst, bruteForce, hmap, hpairs, Multiset.map_coe]

variable {database : Index K config}

/-- A query of the run is one that the index can answer. -/
theorem Opened.canAnswer (h : Opened (spans vectors) database) (hsizes : SizesFit config)
    (haccepted : Accepted config) (hprobe : config.spheresNPagesToProbe = 0)
    (query : Vec K config.vectorDim.toNat) :
    database.CanAnswer [query] config.k.toNat config.spheresNPagesToProbe.toNat
      config.spheresMorselStep.toNat := by
  have hzero : config.spheresNPagesToProbe.toNat = 0 := by
    rw [hprobe]
    rfl
  refine ⟨?_, toNat_pos_of_ne_zero haccepted.k.1, ?_, hzero ▸ Nat.zero_le _, ?_,
    toNat_pos_of_ne_zero hsizes.morsel⟩
  · rw [h.nThreads]
    exact toNat_pos_of_ne_zero haccepted.nThreads
  · rw [h.size]
    exact hsizes.answer
  · intro query' _
    have hall : contents (database.probed query' config.spheresNPagesToProbe.toNat) =
        contents database.dbStorage.pages :=
      (Database.sees_probed (hzero ▸ Nat.zero_le _)).2.2 hzero
    rw [hall, h.holds, Multiset.coe_card, List.length_zip, List.length_range, length_spans,
      Nat.min_self]
    exact UInt64.le_iff_toNat_le.mp haccepted.k.2.2

/-- A query reports what the baseline reports, and leaves the index as it was. -/
theorem Opened.findKNearest (h : Opened (spans vectors) database) (hsizes : SizesFit config)
    (haccepted : Accepted config) (hprobe : config.spheresNPagesToProbe = 0)
    (query : Vec K config.vectorDim.toNat) (turns : QueryTurns)
    (hpublish : database.PublishesUnder (fun w => w.heap.nOutputs = config.k.toNat) query
      config.k.toNat config.spheresNPagesToProbe.toNat config.spheresMorselStep.toNat
      (turnsOf _ turns.search)) :
    (database.findKNearest query config.k.toNat config.spheresNPagesToProbe.toNat
      config.spheresMorselStep.toNat (turnsOf _ turns.fill) (turnsOf _ turns.search)).Ensures
      fun r => Opened (spans vectors) r.1 ∧
        ∃ row : List Nat, r.2.map (fun found => found.map (·.second)) = row.map some ∧
          IsNear vectors query.toList row := by
  have hcan := h.canAnswer hsizes haccepted hprobe query
  have hzero : config.spheresNPagesToProbe.toNat = 0 := by
    rw [hprobe]
    rfl
  have hcontents : contents (database.probed query config.spheresNPagesToProbe.toNat) =
      (List.range config.nBaseVectors.toNat).zip (spans vectors) :=
    ((Database.sees_probed hcan.budget).2.2 hzero).trans h.holds
  refine ((h.serves.prunable (squaredPruneCheck_sound _)).findKNearest
    (h.serves.searchable hcan.threads) hcan.k_pos hcan.room hcan.budget
    (hcan.stored query (List.mem_singleton_self query)) hcan.step_pos _ _
    hpublish).and_returned.mono ?_
  rintro ⟨after, result⟩ ⟨hexact, hrun⟩
  refine ⟨?_, isNear_of_isExactAnswer hcontents hexact⟩
  have hanswer : database.answer (.nearest query config.k.toNat
      config.spheresNPagesToProbe.toNat config.spheresMorselStep.toNat turns.fill turns.search) =
        .returned (after, result) := hrun
  have hserves : Serves config after := by
    refine h.serves.replies hsizes.pageSize_pos rfl ?_ (.request hanswer)
    exact ⟨hcan, hpublish⟩
  obtain ⟨b, hb, -⟩ := Database.findKNearest_refill hrun
  obtain rfl : after = database.refill b := hb
  exact ⟨hserves, (h.serves.contents_answer hanswer).trans h.holds, h.nThreads, h.size⟩

/-- The loop over the queries reports, row by row, what the baseline reports. -/
theorem search_ensures (hsizes : SizesFit config) (haccepted : Accepted config)
    (hprobe : config.spheresNPagesToProbe = 0) (turns : Nat → QueryTurns)
    (queries : List (Vec K config.vectorDim.toNat)) (i : Nat)
    (h : Opened (spans vectors) database)
    (hsearch : EverySearch config turns queries i database) :
    (search config turns queries i database).Ensures fun results =>
      ∃ rows : List (List Nat), results = rows.map (fun row => row.map some) ∧
        List.Forall₂ (fun query row => IsNear vectors query.toList row) queries rows := by
  induction queries generalizing i database with
  | nil => exact ⟨[], rfl, .nil⟩
  | cons query queries ih =>
    obtain ⟨hpublish, hrest⟩ := hsearch
    refine ((h.findKNearest hsizes haccepted hprobe query (turns i) hpublish).and_whenReturned
      hrest).bind ?_
    rintro ⟨after, result⟩ ⟨⟨hafter, row, hrow, hnear⟩, hnext⟩
    refine (ih (i + 1) hafter hnext).bind ?_
    rintro _ ⟨rows, rfl, hrows⟩
    exact ⟨row :: rows, congrArg (· :: _) hrow, .cons hnear hrows⟩

end Answers

/-! ## The metrics -/

section Alike

variable {x : DistanceInput K} {q : Nat}

/-- Rows of ids of base vectors that lie, one by one, at the same distances. -/
def Alike (x : DistanceInput K) (q : Nat) (row row' : List SizeT) : Prop :=
  List.Forall₂ (fun id id' => x.IdPasses id ∧ x.IdPasses id' ∧
    x.distanceTo q id.toNat = x.distanceTo q id'.toNat) row row'

omit [IsStrictOrderedRing K] in
theorem addId_congr {i : Nat} {row row' : List SizeT} {gtRow : List Int32}
    (hquery : q * x.dim.toNat + x.dim.toNat ≤ x.query.length)
    (hsize : q * x.dim.toNat < SizeT.size) (h : Alike x q row row') (s : K × K) :
    x.addId q (row, gtRow) i s = x.addId q (row', gtRow) i s := by
  by_cases hi : i < row.length
  · have hi' : i < row'.length := h.length_eq ▸ hi
    obtain ⟨hpass, hpass', hdistance⟩ := h.get hi hi'
    have hid : row[i]? = some row[i] := List.getElem?_eq_getElem hi
    have hid' : row'[i]? = some row'[i] := List.getElem?_eq_getElem hi'
    cases ht : gtRow[i]? with
    | none =>
      have hnone : readElem gtRow i = .error .undefined := by
        rw [readElem, ht]
        rfl
      rw [DistanceInput.addId, DistanceInput.addId, DistanceInput.readElem_of_some hid,
        DistanceInput.readElem_of_some hid', hnone]
      rfl
    | some t =>
      by_cases htpass : x.TruthPasses t
      · rw [DistanceInput.addId_ok hid ht hpass htpass hsize hquery,
          DistanceInput.addId_ok hid' ht hpass' htpass hsize hquery]
        exact congrArg (fun d => Except.ok (s.1 + d, _)) hdistance
      · rw [DistanceInput.addId_throws hid ht fun hboth => htpass hboth.2,
          DistanceInput.addId_throws hid' ht fun hboth => htpass hboth.2]
  · have hnone : readElem row i = .error .undefined := by
      rw [readElem, List.getElem?_eq_none (not_lt.mp hi)]
      rfl
    have hnone' : readElem row' i = .error .undefined := by
      rw [readElem, List.getElem?_eq_none (h.length_eq ▸ not_lt.mp hi)]
      rfl
    rw [DistanceInput.addId, DistanceInput.addId, hnone, hnone']

omit [IsStrictOrderedRing K] in
theorem addRow_congr {row row' : List SizeT} {gtRow : List Int32}
    (hquery : q * x.dim.toNat + x.dim.toNat ≤ x.query.length)
    (hsize : q * x.dim.toNat < SizeT.size) (h : Alike x q row row') (r : K × K) :
    x.addRow q (row, gtRow) r = x.addRow q (row', gtRow) r := by
  rw [DistanceInput.addRow, DistanceInput.addRow, h.length_eq,
    forRange_congr fun i _ s => addId_congr hquery hsize h s]

omit [IsStrictOrderedRing K] in
theorem addRows_congr {x' : DistanceInput K} {results results' : List (List SizeT)}
    (hlength : results.length = results'.length) (gt : List (List Int32))
    (h : ∀ i row row', results[i]? = some row → results'[i]? = some row' → ∀ gtRow r,
      x.addRow (q + i) (row, gtRow) r = x'.addRow (q + i) (row', gtRow) r) (r : K × K) :
    x.addRows (results.zip gt) q r = x'.addRows (results'.zip gt) q r := by
  induction results generalizing results' gt q r with
  | nil =>
    obtain rfl := List.length_eq_zero_iff.mp hlength.symm
    rfl
  | cons row results ih =>
    obtain ⟨row', results', rfl⟩ := List.exists_cons_of_length_eq_add_one hlength.symm
    cases gt with
    | nil => rfl
    | cons gtRow gt =>
      have hrow := h 0 row row' rfl rfl gtRow r
      rw [Nat.add_zero] at hrow
      simp only [List.zip_cons_cons, DistanceInput.addRows, hrow]
      cases x'.addRow q (row', gtRow) r with
      | error e => rfl
      | ok r =>
        refine ih (Nat.succ.inj hlength) gt (fun i row row' hi hi' gtRow r => ?_) r
        rw [Nat.add_assoc, Nat.add_comm 1 i]
        exact h (i + 1) row row' hi hi' gtRow r

omit [IsStrictOrderedRing K] in
/-- When the queries are all there, the averages depend on the distances of the results alone. -/
theorem avgSquaredL2Distance_congr {results' : List (List SizeT)}
    (hqueries : x.results.length * x.dim.toNat ≤ x.query.length)
    (hlength : x.results.length = results'.length)
    (h : ∀ q row row', x.results[q]? = some row → results'[q]? = some row' → Alike x q row row') :
    x.avgSquaredL2Distance = { x with results := results' }.avgSquaredL2Distance := by
  let x' : DistanceInput K := { x with results := results' }
  have hcheck : x.Inconsistent ↔ x'.Inconsistent := by
    have hnil : x.results = [] ↔ results' = [] := by
      rw [← List.length_eq_zero_iff, hlength, List.length_eq_zero_iff]
    rw [DistanceInput.Inconsistent, DistanceInput.Inconsistent, hnil, hlength]
  rw [DistanceInput.avgSquaredL2Distance, DistanceInput.avgSquaredL2Distance]
  by_cases hbad : x.Inconsistent
  · rw [if_pos hbad, if_pos (hcheck.mp hbad)]
  · rw [if_neg hbad, if_neg (hcheck.not.mp hbad)]
    have hsize : x.query.length < SizeT.size := by
      have hconsistent : x.query.length = x.results.length * x.dim.toNat % SizeT.size := by
        by_contra hne
        exact hbad (Or.inr (Or.inr (Or.inl hne)))
      rw [hconsistent]
      exact Nat.mod_lt _ (by decide)
    have hrows : x.addRows x.rows 0 (0, 0) = x'.addRows x'.rows 0 (0, 0) := by
      refine addRows_congr hlength x.gt (fun q row row' hrow hrow' gtRow r => ?_) (0, 0)
      have hq : q < x.results.length := (List.getElem?_eq_some_iff.mp hrow).1
      have hquery : q * x.dim.toNat + x.dim.toNat ≤ x.query.length := by
        rw [← Nat.succ_mul]
        exact (Nat.mul_le_mul_right _ hq).trans hqueries
      rw [Nat.zero_add]
      rcases Nat.eq_zero_or_pos x.dim.toNat with hzero | hpos
      · exact absurd (UInt64.toNat_inj.mp hzero) fun hdim =>
          hbad (Or.inr (Or.inr (Or.inr (Or.inl hdim))))
      · exact addRow_congr hquery (by omega) (h q row row' hrow hrow') r
    rw [hrows, hlength]

end Alike

section Metrics

variable (config : BenchmarkConfig)
  (vectors : FlatArray K config.nBaseVectors.toNat config.vectorDim.toNat)
  (queries : FlatArray K config.nQueryVectors.toNat config.vectorDim.toNat)

/-- What the average distance of the results is computed from. -/
def distanceInput (gt : List (List Int32)) (results : List (List Nat)) : DistanceInput K where
  query := queries.data
  base := vectors.data
  dim := config.vectorDim
  results := results.map fun row => row.map UInt64.ofNat
  gt := gt
  k := config.k.toNat

variable {config vectors queries} {gt : List (List Int32)} {results : List (List Nat)}

omit [IsStrictOrderedRing K] in
theorem isNear_nearest (query : List K) :
    IsNear vectors query (Baseline.nearest config vectors query) := by
  let pairs := Baseline.pairs config vectors query config.nBaseVectors.toNat
  have hsub : ((pairs.insertionSort (· ≤ ·)).take config.k.toNat).Subperm pairs :=
    (List.take_sublist _ _).subperm.trans (List.perm_insertionSort _ _).subperm
  refine isNear_of_le (Multiset.coe_le.mpr hsub) ?_
  rw [List.map_take, map_first_sorted]

omit [IsStrictOrderedRing K] in
theorem alike_of_isNear (hdim : config.vectorDim ≠ 0) {q : Nat} {row row' : List Nat}
    (h : IsNear vectors (queries.row q) row) (h' : IsNear vectors (queries.row q) row') :
    Alike (distanceInput config vectors queries gt results) q (row.map UInt64.ofNat)
      (row'.map UInt64.ofNat) := by
  have hbase : (distanceInput config vectors queries gt results).baseRows =
      config.nBaseVectors.toNat := by
    show vectors.data.length / config.vectorDim.toNat = _
    rw [vectors.length_eq, Nat.mul_div_cancel _ (toNat_pos_of_ne_zero hdim)]
  have hword : ∀ id < config.nBaseVectors.toNat, (UInt64.ofNat id).toNat = id :=
    fun id hid => UInt64.toNat_ofNat_of_lt' (hid.trans config.nBaseVectors.toNat_lt)
  have hmap := h.distances.trans h'.distances.symm
  have hlength : row.length = row'.length := by
    simpa using congrArg List.length hmap
  rw [Alike, List.forall₂_map_left_iff, List.forall₂_map_right_iff, List.forall₂_iff_get]
  refine ⟨hlength, fun i hi hi' => ?_⟩
  have hid := h.stored _ (List.getElem_mem hi)
  have hid' := h'.stored _ (List.getElem_mem hi')
  have hdistance : distanceOf vectors (queries.row q) row[i] =
      distanceOf vectors (queries.row q) row'[i] := by
    have hget := congrArg (fun l => l[i]?) hmap
    simpa [List.getElem?_eq_getElem hi, List.getElem?_eq_getElem hi'] using hget
  simp only [List.get_eq_getElem, DistanceInput.IdPasses, hbase, hword _ hid, hword _ hid']
  exact ⟨hid, hid', congrArg (max 0) hdistance⟩

omit [IsStrictOrderedRing K] in
/-- Results that report what the baseline reports have its average distances. -/
theorem avgSquaredL2Distance_of_isNear (haccepted : Accepted config)
    (h : List.Forall₂ (fun query row => IsNear vectors query.toList row) (spans queries) results) :
    (distanceInput config vectors queries gt results).avgSquaredL2Distance =
      (distanceInput config vectors queries gt
        ((List.range config.nQueryVectors.toNat).map fun q =>
          Baseline.nearest config vectors (queries.row q))).avgSquaredL2Distance := by
  have hlength : results.length = config.nQueryVectors.toNat := by
    rw [← h.length_eq, length_spans]
  refine avgSquaredL2Distance_congr ?_ ?_ fun q row row' hrow hrow' => ?_
  · show (results.map _).length * config.vectorDim.toNat ≤ queries.data.length
    rw [List.length_map, hlength, queries.length_eq]
  · simp [distanceInput, hlength]
  · have hresults : (results.map fun row => row.map UInt64.ofNat)[q]? = some row := hrow
    rw [List.getElem?_map] at hresults hrow'
    obtain ⟨found, hfound, rfl⟩ := Option.map_eq_some_iff.mp hresults
    obtain ⟨near, hnearest, rfl⟩ := Option.map_eq_some_iff.mp hrow'
    obtain ⟨hq, rfl⟩ := List.getElem?_eq_some_iff.mp hfound
    rw [List.getElem?_map, List.getElem?_range (hlength ▸ hq), Option.map_some] at hnearest
    obtain rfl := Option.some.inj hnearest
    have hspan : q < (spans queries).length := h.length_eq ▸ hq
    have hnear := h.get hspan hq
    simp only [List.get_eq_getElem, toList_getElem_spans] at hnear
    exact alike_of_isNear haccepted.vectorDim hnear (isNear_nearest _)

end Metrics

/-- Two threads, pages of capacity two, and the two neighbours of one query. -/
def smallConfig : BenchmarkConfig :=
  { engineMode := "exact", nThreads := 2, vectorDim := 1, nBaseVectors := 4, nQueryVectors := 1,
    k := 2, kInGt := 2, distanceType := .squaredL2, spheresPageSize := 40, spheresFileSize := 80,
    spheresLocalBufferSize := 4 }

/-- The points 0, 4, 1 and 6. -/
def fourVectors :
    FlatArray ℚ smallConfig.nBaseVectors.toNat smallConfig.vectorDim.toNat :=
  ⟨[0, 4, 1, 6], rfl⟩

/-- No index was stored. -/
def noImage : DiskImage (Vec ℚ 1) ℚ := ⟨⟨.float, .squaredL2Distance, 0, 0, 0, 0⟩, []⟩

def smallTurns (_ : Nat) : QueryTurns where
  fill := (roundRobin 2 9).map fun x => (x.1.val, ())
  search := (roundRobin 2 17).map fun x => (x.1.val, x.2)

end Spheres.Benchmark.SpheresRun
