import Spheres.Benchmark.Ingest
import Spheres.Benchmark.ParseArgv
import Spheres.Interface.ExactSearch
import Spheres.Library.MorselCounter

/-!
# The arithmetic of a run

The numbers on the command line reach divisions, differences and loops in several
places: the capacity of a page, the number of files of a bulk load, the address of
a page, the claims of the search workers and the ingest of FAISS. Each place is the
source's expression over operations that have no value where those of the machine
wrap around or divide by zero. `RunClean` says that none of the places goes wrong
in a run, and `Suitable` is what the numbers have to satisfy for that.
-/

namespace Spheres.Benchmark

open Library Library.Interleaving Library.MorselLoop Parallel

/-! ## The places -/

/-- `max_num_vectors_per_page` in `create_storage` and `load_storage`. -/
def maxNumVectorsPerPage (pageSize elementSize dim : SizeT) : Option SizeT :=
  (pageSize.sub? 16).bind fun room =>
  (elementSize.mul? dim).bind fun vector =>
  (SizeT.add? 8 vector).bind fun entry => room.div? entry

/-- A `size_t` as a `float`: 24 significant bits, to the nearest, ties to even. -/
def roundToFloat (n : Nat) : Nat :=
  let ulp := 2 ^ (n.log2 - 23)
  let q := n / ulp
  let r := n % ulp
  (if ulp < 2 * r ∨ ulp = 2 * r ∧ q % 2 = 1 then q + 1 else q) * ulp

/-- `max_num_vectors_in_page`, with the default density of 1. -/
def maxNumVectorsInPage (capacity : SizeT) : SizeT := .ofNat (roundToFloat capacity.toNat)

/-- The loop that creates files while `i <= bound`. -/
def fileLoop (bound i : SizeT) : Option Unit :=
  if i ≤ bound then
    match _ : i.add? 1 with
    | none => none
    | some j => fileLoop bound j
  else some ()
termination_by bound.toNat + 1 - i.toNat
decreasing_by
  have hle := UInt64.le_iff_toNat_le.mp ‹i ≤ bound›
  have hj : j.toNat = i.toNat + 1 := (SizeT.add_eq_some.mp ‹i.add? 1 = some j›).2
  omega

/-- The files that `batch_prefill_parallel` creates in advance. -/
def createFiles (nIds maxNum fileSize pageSize : SizeT) : Option Unit :=
  (maxNum.mul? fileSize).bind fun total =>
  (total.div? pageSize).bind fun perFile =>
  (nIds.div? perFile).bind fun bound => fileLoop bound 1

def calculateFileIndex (fileSize pageSize pageIdx : SizeT) : Option SizeT :=
  (fileSize.div? pageSize).bind fun perFile => pageIdx.div? perFile

def calculatePageIndex (fileSize pageSize pageIdx : SizeT) : Option SizeT :=
  (fileSize.div? pageSize).bind fun perFile => pageIdx.mod? perFile

/-- The loop of the search workers, whatever there is to search: every value that
`fetch_add` leaves in the counter has room, which is also `step + morsel` for the
claimed morsel, and no schedule with enough turns leaves a worker in the loop. -/
def SearchClean (V R : Type*) [LinearOrder R] (n : Nat) (step maxMorsel : SizeT) : Prop :=
  ∀ (T : FindKnn V R) (s : Shared R) (work : Fin n → KnnWork R),
    T.morselStep = step.toNat → T.maxMorsel = maxMorsel.toNat → s.next = 0 →
    (∀ sched c, run T.findKnnWorker.act sched ⟨s, fun t => ⟨.fetch, work t⟩⟩ = some c →
      c.shared.next < SizeT.size) ∧
    ∃ enough, ∀ sched, (∀ t, enough < turns (fun weakFailure => !weakFailure) t sched) →
      complete T.findKnnWorker.act Loop.isDone sched ⟨s, fun t => ⟨.fetch, work t⟩⟩ ≠ .blocked

/-! ## A run -/

/-- The sizes in the configuration file of an index. -/
structure IndexSizes where
  pageSize : SizeT
  fileSize : SizeT
  dim : SizeT

/-- What a run finds besides its arguments. -/
structure Surroundings (F : Type*) where
  baseFile : List (FvecsRow F)
  /-- The index of an earlier run. -/
  stored : IndexSizes
  /-- The size of `cached_max_dists` when the queries start. -/
  cachedPages : SizeT

variable {F : Type*}

/-- The data files hold what the arguments say, in fewer than 2^63 bytes; an index
that is used again has files and pages with room for something. -/
structure WellFormed (config : BenchmarkConfig) (s : Surroundings F) : Prop where
  rows : config.nBaseVectors.toNat ≤ s.baseFile.length
  dim : HaveDim config.vectorDim (s.baseFile.take config.nBaseVectors.toNat)
  bytes : config.nBaseVectors.toNat * (4 + 4 * config.vectorDim.toNat) < 2 ^ 63
  stored : config.reuseIndex = true →
    24 + 4 * s.stored.dim.toNat ≤ s.stored.pageSize.toNat ∧ s.stored.pageSize ≤ s.stored.fileSize

namespace BenchmarkConfig

variable (config : BenchmarkConfig)

/-- The sizes of the index that `load_database` opens. -/
def openedSizes (stored : IndexSizes) : IndexSizes :=
  if config.reuseIndex then stored
  else ⟨config.spheresPageSize, config.spheresFileSize, config.vectorDim⟩

/-- A data file of size 0 is never created, and opening it throws. -/
def OpensIndex : Prop := config.reuseIndex = true ∨ config.spheresFileSize ≠ 0

/-- With another mode the run throws before the queries. -/
def SearchesSpheres : Prop := config.engineMode ∈ ["legacy_prune", "exact", "ann"]

instance : Decidable config.SearchesSpheres := inferInstanceAs (Decidable (_ ∈ _))

/-- With another mode the run throws before the ingest. -/
def IngestsFaiss : Prop := config.engineMode ∈ ["flat", "hnsw", "ivf"] ∧ config.reuseIndex = false

/-- `max_morsel` of the queries. -/
def probedPages (cachedPages : SizeT) : SizeT :=
  if config.spheresNPagesToProbe = 0 then cachedPages else config.spheresNPagesToProbe

end BenchmarkConfig

/-- `spheres_benchmark::run`. -/
structure SpheresClean (V R : Type*) [LinearOrder R] (config : BenchmarkConfig)
    (s : Surroundings F) : Prop where
  create : config.reuseIndex = false →
    (maxNumVectorsPerPage config.spheresPageSize 4 config.vectorDim).isSome
  prefill : config.reuseIndex = false → config.spheresFileSize ≠ 0 → ∀ capacity,
    maxNumVectorsPerPage config.spheresPageSize 4 config.vectorDim = some capacity →
    (createFiles config.nBaseVectors (maxNumVectorsInPage capacity) config.spheresFileSize
      config.spheresPageSize).isSome
  load : config.OpensIndex → (maxNumVectorsPerPage (config.openedSizes s.stored).pageSize 4
    (config.openedSizes s.stored).dim).isSome
  address : config.OpensIndex → ∀ pageIdx,
    (calculateFileIndex (config.openedSizes s.stored).fileSize
      (config.openedSizes s.stored).pageSize pageIdx).isSome ∧
    (calculatePageIndex (config.openedSizes s.stored).fileSize
      (config.openedSizes s.stored).pageSize pageIdx).isSome
  search : config.OpensIndex → config.SearchesSpheres →
    SearchClean V R config.nThreads.toNat config.spheresMorselStep
      (config.probedPages s.cachedPages)

/-- The run of an accepted configuration: no place wraps around, divides by zero or
stays in its loop, and FAISS is handed the base vectors. -/
def RunClean (V R : Type*) [LinearOrder R] (config : BenchmarkConfig) (s : Surroundings F) :
    Prop :=
  (config.engineName = "spheres" → SpheresClean V R config s) ∧
  (config.engineName = "faiss" → config.IngestsFaiss →
    AddsAll config.nBaseVectors (s.baseFile.take config.nBaseVectors.toNat)
      (addInBatches config.baseVectorPath config.vectorDim config.nBaseVectors
        config.faissIvfflatIngestBatchSize s.baseFile))

/-- The sizes of a new index: a page has room for its header and a vector, a file has
room for a page, and the product in the file count for a `size_t`. -/
def SizesSuitable (config : BenchmarkConfig) : Prop :=
  16 ≤ config.spheresPageSize.toNat ∧ (config.spheresFileSize ≠ 0 →
    24 + 4 * config.vectorDim.toNat ≤ config.spheresPageSize.toNat ∧
    config.spheresPageSize ≤ config.spheresFileSize ∧
    roundToFloat ((config.spheresPageSize.toNat - 16) / (8 + 4 * config.vectorDim.toNat)) *
      config.spheresFileSize.toNat < SizeT.size)

/-- The morsels of the search: claims advance, and the counter has room for all of
them and one more fetch of every thread. -/
def MorselsSuitable (n : Nat) (step maxMorsel : SizeT) : Prop :=
  (step ≠ 0 ∨ maxMorsel = 0) ∧ step.toNat * (maxMorsel.toNat ⌈/⌉ step.toNat + n) < SizeT.size

def Suitable (config : BenchmarkConfig) (s : Surroundings F) : Prop :=
  (config.engineName = "spheres" →
    (config.reuseIndex = false → SizesSuitable config) ∧
    (config.OpensIndex → config.SearchesSpheres →
      MorselsSuitable config.nThreads.toNat config.spheresMorselStep
        (config.probedPages s.cachedPages))) ∧
  (config.engineName = "faiss" → config.IngestsFaiss → config.faissIvfflatIngestBatchSize ≠ 0)

/-! ## What the places need -/

section Places

variable {pageSize fileSize dim nIds maxNum pageIdx : SizeT}

/-- The capacity of a page of `float` vectors. -/
theorem maxNumVectorsPerPage_eq_some {capacity : SizeT}
    (h : maxNumVectorsPerPage pageSize 4 dim = some capacity) :
    16 ≤ pageSize.toNat ∧ capacity.toNat = (pageSize.toNat - 16) / (8 + 4 * dim.toNat) := by
  obtain ⟨room, hroom, h⟩ := Option.bind_eq_some_iff.mp h
  obtain ⟨vector, hvector, h⟩ := Option.bind_eq_some_iff.mp h
  obtain ⟨entry, hentry, h⟩ := Option.bind_eq_some_iff.mp h
  obtain ⟨h16, hroom⟩ := SizeT.sub_eq_some.mp hroom
  rw [(SizeT.div_eq_some.mp h).2, (SizeT.add_eq_some.mp hentry).2,
    (SizeT.mul_eq_some.mp hvector).2, hroom]
  exact ⟨h16, rfl⟩

theorem maxNumVectorsPerPage_isSome (hdim : 8 + 4 * dim.toNat < SizeT.size) :
    (maxNumVectorsPerPage pageSize 4 dim).isSome ↔ 16 ≤ pageSize.toNat := by
  constructor
  · intro h
    obtain ⟨capacity, h⟩ := Option.isSome_iff_exists.mp h
    exact (maxNumVectorsPerPage_eq_some h).1
  · intro h
    obtain ⟨room, hroom, -⟩ := SizeT.exists_sub (show (16 : SizeT).toNat ≤ _ from h)
    obtain ⟨vector, hvector, hvector'⟩ := SizeT.exists_mul
      (show (4 : SizeT).toNat * dim.toNat < _ from (Nat.le_add_left _ _).trans_lt hdim)
    obtain ⟨entry, hentry, hentry'⟩ := SizeT.exists_add
      (show (8 : SizeT).toNat + vector.toNat < _ from hvector' ▸ hdim)
    obtain ⟨capacity, hcapacity, -⟩ := SizeT.exists_div (a := room) (b := entry) (by
      rw [hentry']
      exact Nat.ne_of_gt (Nat.add_pos_left (by decide) _))
    simp only [maxNumVectorsPerPage, hroom, hvector, hentry, hcapacity, Option.bind_some,
      Option.isSome_some]

/-- The unit in the last place is no larger than the number. -/
theorem ulp_le {n : Nat} (h : 0 < n) : 2 ^ (n.log2 - 23) ≤ n := by
  have hlog := Nat.log2_self_le h.ne'
  exact (Nat.pow_le_pow_right (by decide) (Nat.sub_le _ _)).trans hlog

theorem roundToFloat_pos {n : Nat} (h : 0 < n) : 0 < roundToFloat n := by
  have hulp : 0 < 2 ^ (n.log2 - 23) := Nat.two_pow_pos _
  have hq : 0 < n / 2 ^ (n.log2 - 23) := Nat.div_pos (ulp_le h) hulp
  unfold roundToFloat
  refine Nat.mul_pos ?_ hulp
  split
  · exact Nat.succ_pos _
  · exact hq

theorem roundToFloat_le (n : Nat) : roundToFloat n ≤ 2 * n := by
  rcases Nat.eq_zero_or_pos n with rfl | h
  · decide
  have hulp := ulp_le h
  have hdiv := Nat.div_mul_le_self n (2 ^ (n.log2 - 23))
  unfold roundToFloat
  refine (Nat.mul_le_mul_right _ (show _ ≤ n / 2 ^ (n.log2 - 23) + 1 from ?_)).trans ?_
  · split
    · exact le_rfl
    · exact Nat.le_succ _
  · rw [Nat.succ_mul]
    omega

theorem toNat_maxNumVectorsInPage {capacity : SizeT} (h : capacity.toNat < 2 ^ 63) :
    (maxNumVectorsInPage capacity).toNat = roundToFloat capacity.toNat := by
  have hle := roundToFloat_le capacity.toNat
  exact UInt64.toNat_ofNat_of_lt (by simp only [UInt64.size]; omega)

theorem fileLoop_isSome {bound : SizeT} (h : bound.toNat + 1 < SizeT.size) (i : SizeT) :
    (fileLoop bound i).isSome := by
  fun_induction fileLoop bound i with
  | case1 i hle hnone =>
    have hroom : i.toNat + (1 : SizeT).toNat < SizeT.size := by
      have := UInt64.le_iff_toNat_le.mp hle
      simp only [UInt64.reduceToNat]
      omega
    obtain ⟨j, hj, -⟩ := SizeT.exists_add hroom
    rw [hj] at hnone
    cases hnone
  | case2 i hle j hj ih => exact ih
  | case3 i hle => rfl

/-- The division in the file count needs a page that the files have room for. -/
theorem createFiles_isSome (hIds : nIds.toNat + 1 < SizeT.size) :
    (createFiles nIds maxNum fileSize pageSize).isSome ↔
      maxNum.toNat * fileSize.toNat < SizeT.size ∧ pageSize.toNat ≠ 0 ∧
        maxNum.toNat * fileSize.toNat / pageSize.toNat ≠ 0 := by
  constructor
  · intro h
    obtain ⟨_, h⟩ := Option.isSome_iff_exists.mp h
    obtain ⟨total, htotal, h⟩ := Option.bind_eq_some_iff.mp h
    obtain ⟨perFile, hperFile, h⟩ := Option.bind_eq_some_iff.mp h
    obtain ⟨bound, hbound, -⟩ := Option.bind_eq_some_iff.mp h
    obtain ⟨hsize, htotal⟩ := SizeT.mul_eq_some.mp htotal
    obtain ⟨hpage, hperFile⟩ := SizeT.div_eq_some.mp hperFile
    have hne := (SizeT.div_eq_some.mp hbound).1
    rw [hperFile, htotal] at hne
    exact ⟨hsize, hpage, hne⟩
  · rintro ⟨hsize, hpage, hne⟩
    obtain ⟨total, htotal, htotal'⟩ := SizeT.exists_mul hsize
    obtain ⟨perFile, hperFile, hperFile'⟩ := SizeT.exists_div (a := total) hpage
    rw [← htotal', ← hperFile'] at hne
    obtain ⟨bound, hbound, hbound'⟩ := SizeT.exists_div (a := nIds) hne
    have hloop : (fileLoop bound 1).isSome := by
      apply fileLoop_isSome
      have := Nat.div_le_self nIds.toNat perFile.toNat
      omega
    simpa only [createFiles, htotal, hperFile, hbound, Option.bind_some] using hloop

/-- A page has an address when a file has room for a page. -/
theorem calculateIndex_isSome :
    ((calculateFileIndex fileSize pageSize pageIdx).isSome ∧
      (calculatePageIndex fileSize pageSize pageIdx).isSome) ↔
      pageSize.toNat ≠ 0 ∧ pageSize ≤ fileSize := by
  rw [UInt64.le_iff_toNat_le]
  constructor
  · rintro ⟨h, -⟩
    obtain ⟨_, h⟩ := Option.isSome_iff_exists.mp h
    obtain ⟨perFile, hperFile, h⟩ := Option.bind_eq_some_iff.mp h
    obtain ⟨hpage, hperFile⟩ := SizeT.div_eq_some.mp hperFile
    have hne := (SizeT.div_eq_some.mp h).1
    rw [hperFile, Nat.div_ne_zero_iff] at hne
    exact hne
  · rintro ⟨hpage, hle⟩
    obtain ⟨perFile, hperFile, hperFile'⟩ := SizeT.exists_div (a := fileSize) hpage
    have hne : perFile.toNat ≠ 0 := by
      rw [hperFile']
      exact Nat.div_ne_zero_iff.mpr ⟨hpage, hle⟩
    obtain ⟨_, hfile, -⟩ := SizeT.exists_div (a := pageIdx) hne
    obtain ⟨_, hindex, -⟩ := SizeT.exists_mod (a := pageIdx) hne
    simp only [calculateFileIndex, calculatePageIndex, hperFile, Option.bind_some, hfile, hindex,
      Option.isSome_some, and_self]

end Places

/-! ## The search workers -/

section Search

variable {V R : Type*} [LinearOrder R] {n : Nat} {step maxMorsel : SizeT}

/-- A schedule in which every thread has as many turns as there are rounds. -/
theorem turns_roundRobin (rounds : Nat) (t : Fin n) :
    turns (fun weakFailure => !weakFailure) t (roundRobin n rounds) = rounds := by
  have hround : turns (fun weakFailure => !weakFailure) t
      ((List.finRange n).map fun t => (t, false)) = 1 := by
    have hcount : List.count t (List.finRange n) = 1 :=
      List.count_eq_one_of_mem (List.nodup_finRange n) (List.mem_finRange t)
    rw [← hcount, turns, List.countP_map, List.count]
    apply List.countP_congr
    intro t' _
    simp
  induction rounds with
  | zero => rfl
  | succ rounds ih =>
    have happend : roundRobin n (rounds + 1) =
        ((List.finRange n).map fun t => (t, false)) ++ roundRobin n rounds := rfl
    rw [happend, turns, List.countP_append, Nat.add_comm]
    exact congrArg₂ (· + ·) ih hround

theorem MorselsSuitable.clean (h : MorselsSuitable n step maxMorsel) :
    SearchClean V R n step maxMorsel := by
  intro T s work hstep hmax hnext
  have hclaims : T.findKnnWorker.step * (T.findKnnWorker.claimCount + Fintype.card (Fin n)) <
      SizeT.size := by
    rw [Fintype.card_fin]
    show T.morselStep * (T.maxMorsel ⌈/⌉ T.morselStep + n) < _
    rw [hstep, hmax]
    exact h.2
  refine ⟨fun sched c hrun => ?_, (Fintype.card (Fin n) + 5) * T.findKnnWorker.limit +
    Fintype.card (Fin n), fun sched hturns => Loop.complete_ends ?_ hnext hturns⟩
  · exact ((Loop.Counted.start hnext).run hrun).next_le.trans_lt hclaims
  · rcases h.1 with hpos | hzero
    · left
      show 0 < T.morselStep
      rw [hstep]
      exact Nat.pos_of_ne_zero fun h0 => hpos (SizeT.eq_zero_iff.mpr h0)
    · right
      show T.maxMorsel = 0
      rw [hmax, hzero]
      rfl

/-! A task whose pages are all pruned shows what is wrong with a step. -/

section Pruned

variable (V R) [Zero R] [Inhabited V]

/-- A task whose pages are all pruned. -/
def prunedTask (step maxMorsel : SizeT) : FindKnn V R where
  dbStorage := Storage.createStorage 1 1 .float 0
  distFunc _ _ := 0
  pruneCheckFunc _ _ _ := true
  k := 1
  query := default
  distToAnchor := List.replicate maxMorsel.toNat .valueInit
  maxMorsel := maxMorsel.toNat
  morselStep := step.toNat

theorem prunedTask_scanPage {b : WithTop R} {i : Nat} (h : i < maxMorsel.toNat) (w : KnnWork R) :
    (prunedTask V R step maxMorsel).scanPage b w i =
      some { w with nPruned := w.nPruned + 1 } := by
  have hentry : (prunedTask V R step maxMorsel).distToAnchor[i]? = some .valueInit :=
    List.getElem?_replicate_of_lt h
  have hpage : (prunedTask V R step maxMorsel).dbStorage.pageAt? 0 = some .zeroed := by
    have hgrown : (Storage.createStorage 1 1 .float 0 : Storage V R).Grown 1 1 .float 0 :=
      Storage.grown_createStorage Nat.one_pos le_rfl
    show (Storage.createStorage 1 1 .float 0 : Storage V R).pageAt? 0 = _
    rw [hgrown.uniform.pageAt?_eq, Storage.createStorage, Storage.pages_createStorageFile]
    simp [Storage.pages]
  rw [FindKnn.scanPage, hentry, Option.bind_some, IdTaggedDistance.valueInit, hpage]
  rfl

/-- Its workers only count. -/
theorem prunedTask_scan (b : WithTop R) (lo : Nat) (w : KnnWork R) :
    ∃ w', (prunedTask V R step maxMorsel).findKnnWorker.scan b lo
      ((prunedTask V R step maxMorsel).findKnnWorker.claimEnd lo) w = some w' ∧
      w'.heap = w.heap := by
  have hfold : ∀ (l : List Nat) (w : KnnWork R), (∀ i ∈ l, i < maxMorsel.toNat) →
      ∃ w', l.foldlM ((prunedTask V R step maxMorsel).scanPage b) w = some w' ∧
        w'.heap = w.heap := by
    intro l
    induction l with
    | nil => exact fun w _ => ⟨w, rfl, rfl⟩
    | cons i l ih =>
      intro w hl
      obtain ⟨w', hrun, hheap⟩ := ih { w with nPruned := w.nPruned + 1 } fun j hj =>
        hl j (List.mem_cons_of_mem _ hj)
      refine ⟨w', ?_, hheap⟩
      rw [List.foldlM_cons, prunedTask_scanPage V R (hl i List.mem_cons_self)]
      exact hrun
  have hend : (prunedTask V R step maxMorsel).findKnnWorker.claimEnd lo ≤ maxMorsel.toNat :=
    Nat.min_le_left _ _
  apply hfold
  intro i hi
  have hrange := List.mem_range'_1.mp hi
  omega

/-- All its workers leave, so the counter gets as far as it can. -/
theorem prunedTask_counter {enough : Nat} (hn : 0 < n) (heap : LocalHeap R)
    (htop : ∃ e, heap.top = some e)
    (hends : complete (prunedTask V R step maxMorsel).findKnnWorker.act Loop.isDone
      (roundRobin n enough) ⟨⟨0, ⊤, 0⟩, fun _ => ⟨.fetch, ⟨heap, 0⟩⟩⟩ ≠ .blocked) :
    ∃ c, complete (prunedTask V R step maxMorsel).findKnnWorker.act Loop.isDone
        (roundRobin n enough) ⟨⟨0, ⊤, 0⟩, fun _ => ⟨.fetch, ⟨heap, 0⟩⟩⟩ = .returned c ∧
      c.shared.next = step.toNat * (maxMorsel.toNat ⌈/⌉ step.toNat + n) := by
  have : Nonempty (Fin n) := ⟨⟨0, hn⟩⟩
  obtain ⟨e, he⟩ := htop
  have hscan : ∀ (b : WithTop R) (lo : Nat) (w : KnnWork R), w.heap = heap →
      ∃ w', (prunedTask V R step maxMorsel).findKnnWorker.scan b lo
        ((prunedTask V R step maxMorsel).findKnnWorker.claimEnd lo) w = some w' ∧
        w'.heap = heap := by
    rintro b lo w rfl
    exact prunedTask_scan V R b lo w
  obtain ⟨c, hrun⟩ := Loop.run_ne_none (c := ⟨⟨0, ⊤, 0⟩, fun _ : Fin n => ⟨.fetch, ⟨heap, 0⟩⟩⟩)
    hscan (by
      rintro w rfl
      exact ⟨e.first, congrArg (Option.map _) he⟩)
    (fun _ => rfl) (roundRobin n enough)
  have hdone : ∀ t, Loop.isDone (c.threads t) = true := by
    by_contra hnot
    exact hends (by simp only [complete, hrun, if_neg hnot])
  refine ⟨c, complete_eq_returned.mpr ⟨hrun, hdone⟩, ?_⟩
  have hnext := ((Loop.Counted.start rfl).run hrun).next_eq hdone
  rw [Fintype.card_fin] at hnext
  exact hnext

variable {V R}

theorem SearchClean.suitable (hn : 0 < n) (h : SearchClean V R n step maxMorsel) :
    MorselsSuitable n step maxMorsel := by
  obtain ⟨hsize, enough, hends⟩ := h (prunedTask V R step maxMorsel) ⟨0, ⊤, 0⟩
    (fun _ => ⟨⟨[.valueInit], 0⟩, 0⟩) rfl rfl rfl
  obtain ⟨c, hcomplete, hnext⟩ := prunedTask_counter V R hn ⟨[.valueInit], 0⟩ ⟨_, rfl⟩
    (hends (roundRobin n (enough + 1)) fun t => by
      rw [turns_roundRobin]
      exact Nat.lt_succ_self _)
  refine ⟨?_, hnext ▸ hsize _ c (complete_eq_returned.mp hcomplete).1⟩
  by_contra hstep
  obtain ⟨hzero, hmax⟩ := not_or.mp hstep
  have : Nonempty (Fin n) := ⟨⟨0, hn⟩⟩
  refine Loop.complete_ne_returned ?_ ?_ rfl (fun _ => rfl) _ c hcomplete
  · show step.toNat = 0
    rw [not_not.mp hzero]
    rfl
  · show 0 < maxMorsel.toNat
    exact Nat.pos_of_ne_zero fun h0 => hmax (SizeT.eq_zero_iff.mpr h0)

end Pruned

end Search

/-! ## Which configurations run -/

section Configurations

variable {V R : Type*} [LinearOrder R] [Zero R] [Inhabited V] {config : BenchmarkConfig}
  {s : Surroundings F}

/-- A dimension that the rows of a file have is a positive 32-bit number. -/
theorem WellFormed.dim_lt (h : WellFormed config s) (hBase : config.nBaseVectors ≠ 0) :
    config.vectorDim.toNat < 2 ^ 31 := by
  have hne : config.nBaseVectors.toNat ≠ 0 := fun h0 => hBase (SizeT.eq_zero_iff.mpr h0)
  have hrows := h.rows
  have hlen : 0 < s.baseFile.length := by omega
  have hmem : s.baseFile[0] ∈ s.baseFile.take config.nBaseVectors.toNat :=
    List.mem_take_iff_getElem.mpr ⟨0, by omega, rfl⟩
  have heq := (h.dim _ hmem).1
  have hlt := s.baseFile[0].fileDim.toInt_lt
  omega

theorem WellFormed.openedDim (h : WellFormed config s) (hBase : config.nBaseVectors ≠ 0) :
    8 + 4 * (config.openedSizes s.stored).dim.toNat < 2 ^ 64 := by
  unfold BenchmarkConfig.openedSizes
  split
  · rename_i hreuse
    have hpage := (h.stored hreuse).1
    have := s.stored.pageSize.toNat_lt_size
    simp only [UInt64.size] at this
    omega
  · have := h.dim_lt hBase
    show 8 + 4 * config.vectorDim.toNat < _
    omega

theorem WellFormed.nBaseVectors_lt (h : WellFormed config s) :
    config.nBaseVectors.toNat < 2 ^ 63 := by
  have hle : config.nBaseVectors.toNat ≤
      config.nBaseVectors.toNat * (4 + 4 * config.vectorDim.toNat) :=
    Nat.le_mul_of_pos_right _ (Nat.add_pos_left (by decide) _)
  exact hle.trans_lt h.bytes

theorem capacity_lt {pageSize : SizeT} (d : Nat) :
    (pageSize.toNat - 16) / (8 + 4 * d) < 2 ^ 63 := by
  have hle : (pageSize.toNat - 16) / (8 + 4 * d) ≤ (pageSize.toNat - 16) / 8 :=
    Nat.div_le_div_left (Nat.le_add_right _ _) (by decide)
  have := pageSize.toNat_lt_size
  simp only [UInt64.size] at this
  omega

/-- A page with room for a vector in a file with room for a page. -/
theorem room_iff {page file d total : Nat}
    (htotal : total = roundToFloat ((page - 16) / (8 + 4 * d)) * file) (h16 : 16 ≤ page) :
    24 + 4 * d ≤ page ∧ page ≤ file ∧ total < SizeT.size ↔
      (total < SizeT.size ∧ page ≠ 0 ∧ total / page ≠ 0) ∧ page ≠ 0 ∧ page ≤ file := by
  constructor
  · rintro ⟨hroom, hle, hsize⟩
    have hcapacity : 0 < (page - 16) / (8 + 4 * d) := Nat.div_pos (by omega) (by omega)
    have htotal : page ≤ total := by
      rw [htotal]
      exact hle.trans (Nat.le_mul_of_pos_left _ (roundToFloat_pos hcapacity))
    exact ⟨⟨hsize, by omega, Nat.div_ne_zero_iff.mpr ⟨by omega, htotal⟩⟩, by omega, hle⟩
  · rintro ⟨⟨hsize, hpage, hne⟩, -, hle⟩
    refine ⟨?_, hle, hsize⟩
    by_contra hroom
    have hcapacity : (page - 16) / (8 + 4 * d) = 0 := Nat.div_eq_of_lt (by omega)
    rw [htotal, hcapacity, show roundToFloat 0 = 0 by decide, Nat.zero_mul, Nat.zero_div] at hne
    exact hne rfl

/-- The file count and the addresses of a new index. -/
theorem sizesSuitable_iff (hBase : config.nBaseVectors ≠ 0) (hFiles : WellFormed config s) :
    SizesSuitable config ↔
      (maxNumVectorsPerPage config.spheresPageSize 4 config.vectorDim).isSome ∧
      (config.spheresFileSize ≠ 0 → (∀ capacity,
        maxNumVectorsPerPage config.spheresPageSize 4 config.vectorDim = some capacity →
        (createFiles config.nBaseVectors (maxNumVectorsInPage capacity) config.spheresFileSize
          config.spheresPageSize).isSome) ∧
        config.spheresPageSize.toNat ≠ 0 ∧ config.spheresPageSize ≤ config.spheresFileSize) := by
  have hdim : 8 + 4 * config.vectorDim.toNat < 2 ^ 64 := by
    have := hFiles.dim_lt hBase
    omega
  have hIds : config.nBaseVectors.toNat + 1 < 2 ^ 64 := by
    have := hFiles.nBaseVectors_lt
    omega
  rw [maxNumVectorsPerPage_isSome hdim, SizesSuitable]
  refine and_congr_right fun h16 => imp_congr_right fun hfile => ?_
  obtain ⟨capacity, hcapacity⟩ := Option.isSome_iff_exists.mp
    ((maxNumVectorsPerPage_isSome hdim).mpr h16)
  have hvalue := (maxNumVectorsPerPage_eq_some hcapacity).2
  have hmax : (maxNumVectorsInPage capacity).toNat = roundToFloat ((config.spheresPageSize.toNat -
      16) / (8 + 4 * config.vectorDim.toNat)) := by
    rw [toNat_maxNumVectorsInPage (hvalue.trans_lt (capacity_lt _)), hvalue]
  simp only [hcapacity, Option.some.injEq, forall_eq', createFiles_isSome hIds, hmax]
  rw [UInt64.le_iff_toNat_le]
  exact room_iff rfl h16

theorem spheresClean_iff (hAccepted : Accepted config) (hFiles : WellFormed config s) :
    SpheresClean V R config s ↔ (config.reuseIndex = false → SizesSuitable config) ∧
      (config.OpensIndex → config.SearchesSpheres →
        MorselsSuitable config.nThreads.toNat config.spheresMorselStep
          (config.probedPages s.cachedPages)) := by
  have hThreads : 0 < config.nThreads.toNat :=
    Nat.pos_of_ne_zero fun h0 => hAccepted.nThreads (SizeT.eq_zero_iff.mpr h0)
  constructor
  · intro h
    refine ⟨fun hnew => (sizesSuitable_iff hAccepted.nBaseVectors hFiles).mpr
      ⟨h.create hnew, fun hfile => ⟨h.prefill hnew hfile, ?_⟩⟩,
      fun hopen hmode => (h.search hopen hmode).suitable hThreads⟩
    have haddress := calculateIndex_isSome.mp (h.address (Or.inr hfile) 0)
    simp only [BenchmarkConfig.openedSizes, hnew, Bool.false_eq_true, if_false] at haddress
    exact haddress
  · rintro ⟨hsizes, hmorsels⟩
    have hnew := fun hnew => (sizesSuitable_iff hAccepted.nBaseVectors hFiles).mp (hsizes hnew)
    have hopened : config.OpensIndex → 16 ≤ (config.openedSizes s.stored).pageSize.toNat ∧
        (config.openedSizes s.stored).pageSize ≤ (config.openedSizes s.stored).fileSize := by
      intro hopen
      unfold BenchmarkConfig.openedSizes
      split
      · rename_i hreuse
        obtain ⟨hroom, hle⟩ := hFiles.stored hreuse
        exact ⟨by omega, hle⟩
      · rename_i hreuse
        have hfile := hopen.resolve_left hreuse
        have hreuse := Bool.eq_false_iff.mpr hreuse
        exact ⟨(hsizes hreuse).1, ((hnew hreuse).2 hfile).2.2⟩
    refine ⟨fun h => (hnew h).1, fun h hfile => ((hnew h).2 hfile).1, fun hopen => ?_,
      fun hopen pageIdx => ?_, fun hopen hmode => (hmorsels hopen hmode).clean⟩
    · exact (maxNumVectorsPerPage_isSome (hFiles.openedDim hAccepted.nBaseVectors)).mpr
        (hopened hopen).1
    · obtain ⟨h16, hle⟩ := hopened hopen
      exact calculateIndex_isSome.mpr ⟨by omega, hle⟩

end Configurations

/-! ## Four base vectors -/

section Example

open Distance

/-- The arguments of a run on four vectors of dimension 1. -/
def tinyArguments (engine mode : String) : List String :=
  ["--dataset", "tiny", "--engine", engine, "--mode", mode, "--path", "data/", "--metrics", "m.json",
    "--index", "tiny.index", "--distance", "squared_l2", "--dim", "1", "--n_base", "4",
    "--n_query", "1", "--k", "1", "--kgt", "1"]

def tinyConfig (engine mode : String) : BenchmarkConfig where
  engineName := engine
  engineMode := mode
  datasetType := .generated
  datasetPath := "data/"
  distanceType := .squaredL2
  vectorDim := 1
  nBaseVectors := 4
  nQueryVectors := 1
  nLearnVectors := 100000
  k := 1
  kInGt := 1
  metricsPath := "m.json"
  indexPath := "tiny.index"
  baseVectorPath := "data/base.fvecs"
  queryVectorPath := "data/query.fvecs"
  gtVectorPath := "data/groundtruth.ivecs"
  learnVectorPath := "data/learn.fvecs"

def tinyFiles : Surroundings ℚ where
  baseFile := List.replicate 4 ⟨1, [0]⟩
  stored := ⟨8 * 1024 * 1024, 256 * 1024 * 1024, 1⟩
  cachedPages := 1

theorem tinyFiles_wellFormed : WellFormed (tinyConfig "spheres" "exact") tinyFiles :=
  ⟨by decide, by decide +kernel, by decide, nofun⟩

/-- Arguments that are accepted for a run that goes wrong. -/
def AcceptsUnclean (argv : List String) : Prop :=
  ∃ config, parseArgv id argv = .ok config ∧ WellFormed config tinyFiles ∧
    ¬ RunClean (Vec ℚ 1) ℚ config tinyFiles

end Example

end Spheres.Benchmark
