import Spheres.Interface.SingleThreadedLoad
import Spheres.Parallel.CandidateLists

/-!
# Whether a bulk load comes to an end

Every round of a bulk load takes the first vector away, so a load whose rounds
all return comes to an end. With one thread a round returns when there is room
for a second vector on a page, or no second vector. With many threads it returns
when a morsel is not empty, which it is when there are two vectors for each
thread in the beginning; otherwise no worker ever leaves its loop.
-/

namespace Spheres

open Execution Parallel Library Library.Interleaving Library.MorselLoop Library.Selection

variable {V R : Type*} [Zero R] [LinearOrder R]

namespace PrefillState

variable {dist : DistFunc V R} {maxNum step n bufferSize limit : Nat} {st st' : PrefillState V R}

/-! ## What every round that returns does -/

theorem storeNearest_shorter (hmax : 0 < maxNum) (h : st.db.dbStorage.Uniform)
    {heaps : Fin st.db.nThreads → LocalHeap R} (hrun : st.storeNearest maxNum heaps = some st') :
    st'.db.dbStorage.Uniform ∧ st'.newVectors.length < st.newVectors.length := by
  obtain ⟨merged, -, hrun⟩ := Option.bind_eq_some_iff.mp hrun
  obtain ⟨last, hlast, hrun⟩ := Option.bind_eq_some_iff.mp hrun
  obtain ⟨l, hstore, rfl⟩ := Option.map_eq_some_iff.mp hrun
  have hlength : 0 < merged.size := by
    have hsome := (List.getElem?_eq_some_iff.mp hlast).1
    rw [StdVector.length_elems] at hsome
    omega
  have hne : (merged.elems.take (min maxNum merged.size)).map (·.second) ≠ [] := by
    apply List.ne_nil_of_length_pos
    rw [List.length_map, List.length_take, StdVector.length_elems]
    omega
  obtain ⟨-, -, hw, -⟩ := Load.storePage_spec h hstore
  exact ⟨hw.uniform, Load.storePage_shorter h hne hstore⟩

/-- A round takes at least one vector away. -/
theorem round_shorter (hmax : 0 < maxNum) (h : st.db.dbStorage.Uniform)
    {sched : List (Nat × Bool)} (hrun : st.round maxNum step sched = .returned st') :
    st'.db.dbStorage.Uniform ∧ st'.newVectors.length < st.newVectors.length := by
  obtain ⟨c, -, hstore⟩ := Outcome.bind_eq_returned.mp hrun
  exact storeNearest_shorter hmax h (Outcome.ofOption_eq_returned.mp hstore)

/-- Without a vector for each morsel no round returns. -/
theorem round_ne_returned (hThreads : 0 < st.db.nThreads) (hne : st.newVectors ≠ [])
    (sched : List (Nat × Bool)) (st' : PrefillState V R) :
    st.round maxNum 0 sched ≠ .returned st' := by
  intro hrun
  obtain ⟨c, hsubmit, -⟩ := Outcome.bind_eq_returned.mp hrun
  have : Nonempty (Fin st.db.nThreads) := ⟨⟨0, hThreads⟩⟩
  exact Loop.complete_ne_returned (L := (st.task maxNum 0).batchPrefillWorker) rfl
    (List.length_pos_of_ne_nil hne) rfl (fun _ => rfl) _ c hsubmit

/-! ## Rounds with morsels -/

/-- What the rounds of a load keep that need not store every pair: the heaps never
outgrow the local buffers, as there are no more than `limit` vectors. -/
structure Loadable (dist : DistFunc V R) (maxNum limit n bufferSize : Nat)
    (st : PrefillState V R) : Prop where
  workable : Workable dist (min maxNum limit) n bufferSize st
  few : st.newVectors.length ≤ limit
  uniform : st.db.dbStorage.Uniform
  length : st.ids.length = st.newVectors.length

theorem Loadable.max_pos (h : Loadable dist maxNum limit n bufferSize st) : 0 < maxNum :=
  h.workable.max_pos.trans_le (Nat.min_le_left _ _)

theorem Loadable.submit_narrowed (h : Loadable dist maxNum limit n bufferSize st)
    (hstep : 0 < step) (sched : List (Nat × Bool)) :
    st.submit maxNum step sched = st.submit (min maxNum limit) step sched := by
  have hreads : (st.task maxNum step).Reads dist := ⟨h.workable.distFunc, rfl, h.max_pos⟩
  apply BatchPrefill.complete_narrowed hreads h.few (h.workable.sound_first hstep)
  exact Loop.inv_start rfl le_top (h.workable.keeps_start _)

theorem Loadable.storeNearest_narrowed {heaps : Fin st.db.nThreads → LocalHeap R}
    (h : Loadable dist maxNum limit n bufferSize st)
    (hfew : (outputs heaps).flatten.length ≤ st.newVectors.length)
    (hroom : (outputs heaps).flatten.length ≤ st.db.internalBuffer.data.length) :
    st.storeNearest maxNum heaps = st.storeNearest (min maxNum limit) heaps := by
  obtain ⟨merged, hmerge, hsize, -⟩ := mergeOutputs_spec st.db.internalBuffer heaps hroom
  have hmin : min (min maxNum limit) merged.size = min maxNum merged.size := by
    have := h.few
    omega
  simp only [storeNearest, hmerge, Option.bind_some, hmin]

/-- A page is stored, whatever the resize replaced by `{0, 0}`. -/
theorem Loadable.storeNearest {pruned : IdTaggedDistance R → Prop}
    {heaps : Fin st.db.nThreads → LocalHeap R} (h : Loadable dist maxNum limit n bufferSize st)
    (hne : st.newVectors ≠ []) (hpruned : ¬ pruned .valueInit)
    (hfound : st.Found pruned (min maxNum limit) bufferSize heaps) (hpage : st.PageLeft) :
    ∃ st', st.storeNearest maxNum heaps = some st' ∧
      Loadable dist maxNum limit n bufferSize st' := by
  have hcov := hfound.covers
  rw [h.workable.distFunc] at hcov
  have hmem := h.workable.found_first hne hpruned hfound
  have hroom : (outputs heaps).flatten.length ≤ st.db.internalBuffer.data.length := by
    refine hfound.few.trans ?_
    rw [h.workable.nThreads]
    exact h.workable.memory
  have hfew : (outputs heaps).flatten.length ≤ st.newVectors.length := by
    have hcard := Multiset.card_le_card hcov.le
    rwa [Multiset.coe_card, card_candidates] at hcard
  obtain ⟨merged, hmerge, hsize, helems⟩ := mergeOutputs_spec st.db.internalBuffer heaps hroom
  have hpos : 0 < min (min maxNum limit) merged.size := by
    have hmax := h.workable.max_pos
    have := List.length_pos_of_mem hmem
    omega
  have hlt : ∀ e ∈ merged.elems, e.second < st.load.slots.length := by
    intro e he
    rw [Load.slots, List.length_zip]
    show e.second < min st.ids.length st.newVectors.length
    rw [h.length, Nat.min_self]
    rw [helems, List.mem_insertionSort, List.mem_append] at he
    rcases he with he | he
    · exact (mem_candidates.mp (Multiset.mem_of_le hcov.le
        (Multiset.mem_coe.mpr (List.mem_of_mem_take he)))).1
    · obtain ⟨-, rfl⟩ := List.mem_replicate.mp he
      exact List.length_pos_of_ne_nil hne
  have hlast : min (min maxNum limit) merged.size - 1 < merged.elems.length := by
    rw [StdVector.length_elems]
    omega
  have hindices : ∀ i ∈ (merged.elems.take (min (min maxNum limit) merged.size)).map (·.second),
      i < st.load.slots.length := by
    intro i hi
    obtain ⟨e, he, rfl⟩ := List.mem_map.mp hi
    exact hlt e (List.mem_of_mem_take he)
  obtain ⟨l, hstore⟩ := Load.storePage_isSome (l := st.load) h.uniform
    (hpage.trans_eq h.uniform.length_pages.symm) hindices
    merged.elems[min (min maxNum limit) merged.size - 1].first
  have hrun : st.storeNearest maxNum heaps = some (st.next heaps merged l) := by
    rw [h.storeNearest_narrowed hfew hroom]
    simp only [PrefillState.storeNearest, hmerge, Option.bind_some,
      List.getElem?_eq_getElem hlast, hstore, Option.map_some]
  obtain ⟨huniform, hshorter⟩ := storeNearest_shorter h.max_pos h.uniform hrun
  obtain ⟨-, -, -, hvectors, hids⟩ := Load.storePage_spec h.uniform hstore
  refine ⟨_, hrun, ⟨⟨h.workable.distFunc, h.workable.nThreads, h.workable.threads_pos,
    h.workable.max_pos, h.workable.room, h.workable.size,
    fun t => (hfound.length t).trans h.workable.size.symm, hfound.nonneg,
    h.workable.memory.trans (length_data_mergeOutputs hroom hmerge)⟩, hshorter.le.trans h.few,
    huniform, ?_⟩⟩
  show l.ids.length = l.newVectors.length
  rw [hids, hvectors]
  exact EraseIf.length_eraseIf_eq h.length 0

/-- The rounds go on as long as there are pages. -/
theorem loadable_rounds (hstep : 0 < step) :
    Database.RoundsKeep n maxNum step (Loadable dist maxNum limit n bufferSize)
      fun _ st => st.PageLeft where
  nThreads _ h := h.workable.nThreads
  uniform _ h := h.uniform
  submit st sched h _ hturns := by
    rw [h.submit_narrowed hstep]
    exact (h.workable.submit_first hstep sched).2 hturns
  round := by
    intro st sched h hne hpage
    rw [PrefillState.round, h.submit_narrowed hstep]
    refine (h.workable.submit_first hstep sched).1.bind ?_
    intro c hfound
    obtain ⟨st', hrun, hloadable⟩ := h.storeNearest hne (lt_irrefl (0 : R)) hfound hpage
    rw [hrun]
    exact ⟨hloadable, (storeNearest_shorter h.max_pos h.uniform hrun).2⟩

/-! ## Reading the top of an empty heap -/

/-- No worker of a round reads `heap[0]` of an empty heap. -/
def ReadsLive (maxNum step : Nat) (sched : List (Nat × Bool)) (st : PrefillState V R) : Prop :=
  Along (st.task maxNum step).batchPrefillWorker.act (st.task maxNum step).TopLive
    (turnsOf _ sched) st.start

instance (maxNum step : Nat) (sched : List (Nat × Bool)) (st : PrefillState V R) :
    Decidable (st.ReadsLive maxNum step sched) :=
  inferInstanceAs (Decidable (Along _ _ _ _))

/-- Every morsel of a round finds a candidate for a worker without one. -/
def MorselsFind (maxNum step : Nat) (sched : List (Nat × Bool)) (st : PrefillState V R) : Prop :=
  Along (st.task maxNum step).batchPrefillWorker.act (st.task maxNum step).MorselFinds
    (turnsOf _ sched) st.start

omit [Zero R] in
theorem MorselsFind.readsLive {sched : List (Nat × Bool)} (hmax : 0 < maxNum)
    (h : st.MorselsFind maxNum step sched) : st.ReadsLive maxNum step sched :=
  BatchPrefill.along_topLive hmax (fun _ => rfl) h

/-- The round takes at least one vector away, if it returns. -/
def Shortens (maxNum step : Nat) (sched : List (Nat × Bool)) (st : PrefillState V R) : Prop :=
  (st.round maxNum step sched).WhenReturned fun st' => st'.newVectors.length < st.newVectors.length

theorem shortens (hmax : 0 < maxNum) (h : st.db.dbStorage.Uniform) (sched : List (Nat × Bool)) :
    st.Shortens maxNum step sched := by
  unfold Shortens
  cases hrun : st.round maxNum step sched with
  | returned st' => exact (round_shorter hmax h hrun).2
  | _ => trivial

end PrefillState

namespace Database

variable [Inhabited V] {installed : SupportedDistanceFunctions → Installed V R}
  {pageSize fileSize dim nThreads buffersSize maxNum : Nat} {dtype : SupportedDataType}
  {distanceFunction : SupportedDistanceFunctions} {db : Database V R} {dist : DistFunc V R}
  {newVectors : List V} {ids : List Nat} {density : ℚ} {scheds : List (List (Nat × Bool))}

omit [Inhabited V] [LinearOrder R] in
theorem prefillInit_keeps {st : PrefillState V R}
    (h : db.prefillInit newVectors ids maxNum = some st) :
    st.newVectors = newVectors ∧ st.db.nThreads = db.nThreads := by
  obtain ⟨s, -, rfl⟩ := Option.map_eq_some_iff.mp h
  exact ⟨rfl, rfl⟩

/-- Only with two vectors for each thread a parallel load returns. -/
theorem many_of_batchPrefillParallel (hThreads : 0 < db.nThreads) (hNonempty : newVectors ≠ [])
    {r : Database V R × List V × List Nat}
    (hrun : db.batchPrefillParallel newVectors ids density scheds = .returned r) :
    2 * db.nThreads ≤ newVectors.length := by
  by_contra hfew
  have hstep : newVectors.length / db.nThreads / 2 = 0 := by
    rw [Nat.div_div_eq_div_mul, Nat.mul_comm]
    exact Nat.div_eq_of_lt (Nat.lt_of_not_le hfew)
  obtain ⟨st, hst, hrun⟩ := Outcome.bind_eq_returned.mp hrun
  obtain ⟨hvectors, hn⟩ := prefillInit_keeps (Outcome.ofOption_eq_returned.mp hst)
  rw [if_neg hThreads.ne', hstep] at hrun
  obtain ⟨st', hloop, -⟩ := Outcome.bind_eq_returned.mp hrun
  have hne : st.newVectors ≠ [] := by rwa [hvectors]
  have hempty : ¬ st.newVectors.isEmpty = true := fun he => hne (List.isEmpty_iff.mp he)
  cases scheds with
  | nil =>
    rw [Outcome.repeatUntil, if_neg hempty] at hloop
    cases hloop
  | cons sched scheds =>
    rw [Outcome.repeatUntil, if_neg hempty] at hloop
    obtain ⟨st'', hround, -⟩ := Outcome.bind_eq_returned.mp hloop
    exact PrefillState.round_ne_returned (hn ▸ hThreads) hne sched st'' hround

omit [Inhabited V] in
/-- Every round of a load that returns takes a vector away. -/
theorem everyRound_shortens (h : db.dbStorage.Uniform)
    (hMax : 0 < maxNumVectors db.dbStorage.maxNumVectorsPerPage density)
    (scheds : List (List (Nat × Bool))) :
    db.EveryRound newVectors ids density
      (fun maxNum step sched st => st.Shortens maxNum step sched) scheds := by
  intro st hst
  have huniform : st.db.dbStorage.Uniform := by
    obtain ⟨s, hs, rfl⟩ := Option.map_eq_some_iff.mp hst
    exact (prepareFiles_extended h hs).uniform
  apply Outcome.Throughout.mono_inv (fun st => st.db.dbStorage.Uniform) _ _ huniform
    (Outcome.throughout_true scheds st)
  · intro st sched h _
    exact PrefillState.shortens hMax h sched
  · intro st sched st' h hrun
    exact (PrefillState.round_shorter hMax h hrun).1

/-- Pages of capacity one. -/
def onePerPage : Database (Distance.Vec ℚ 1) ℚ := (newDatabase 28 56 1).get rfl

end Database

end Spheres
