import Spheres.Interface.ExactSearch
import Spheres.Interface.Prefill

/-!
# What a parallel bulk load stores

A round merges what the workers found and stores a choice of it, and an
invariant that a round keeps under a condition holds after a load all of whose
rounds meet the condition (`batchPrefillParallel_ensures`). The invariant of
this module is that no pair is lost or stored twice and every page has its exact
radius. A round keeps it when the outputs fit what `internal_buffer` held and
there is a page for them, whatever the cut-off left out.
-/

namespace Spheres

open Execution Parallel Library Library.Interleaving Library.MorselLoop Library.Selection

variable {V R : Type*} [Zero R] [LinearOrder R]

/-! ## The rule for the loop -/

/-- Every worker acts often enough for a task over so many vectors. -/
def RoundTurns (n limit : Nat) (sched : List (Nat × Bool)) : Prop :=
  ∀ t, (n + 5) * limit + n < turns (fun weakFailure => !weakFailure) t (turnsOf n sched)

instance (n limit : Nat) (sched : List (Nat × Bool)) : Decidable (RoundTurns n limit sched) :=
  inferInstanceAs (Decidable (∀ _, _))

theorem RoundTurns.mono {n limit limit' : Nat} {sched : List (Nat × Bool)}
    (h : RoundTurns n limit sched) (hle : limit' ≤ limit) : RoundTurns n limit' sched := by
  intro t
  have hmul := Nat.mul_le_mul_left (n + 5) hle
  have := h t
  omega

namespace Database

/-- `ok` holds before every round of a bulk load. -/
def EveryRound (db : Database V R) (newVectors : List V) (ids : List Nat)
    (inPageVectorDensity : ℚ)
    (ok : Nat → Nat → List (Nat × Bool) → PrefillState V R → Prop)
    (scheds : List (List (Nat × Bool))) : Prop :=
  let maxNum := maxNumVectors db.dbStorage.maxNumVectorsPerPage inPageVectorDensity
  let step := newVectors.length / db.nThreads / 2
  ∀ st ∈ db.prefillInit newVectors ids maxNum,
    Outcome.Throughout (fun st => st.newVectors.isEmpty) (PrefillState.round maxNum step)
      (fun st sched => ok maxNum step sched st) scheds st

instance (db : Database V R) (newVectors : List V) (ids : List Nat) (density : ℚ)
    (ok : Nat → Nat → List (Nat × Bool) → PrefillState V R → Prop)
    [∀ maxNum step sched st, Decidable (ok maxNum step sched st)]
    (scheds : List (List (Nat × Bool))) :
    Decidable (db.EveryRound newVectors ids density ok scheds) :=
  inferInstanceAs (Decidable (∀ st ∈ db.prefillInit newVectors ids _, _))

/-- The obligations of an invariant of the loop: under `ok` a round is not at
fault, keeps the invariant and leaves fewer vectors, and it returns when every
worker acts often enough. -/
structure RoundsKeep (n maxNum step : Nat) (Inv : PrefillState V R → Prop)
    (ok : List (Nat × Bool) → PrefillState V R → Prop) : Prop where
  nThreads : ∀ st, Inv st → st.db.nThreads = n
  uniform : ∀ st, Inv st → st.db.dbStorage.Uniform
  submit : ∀ st sched, Inv st → ok sched st →
    RoundTurns st.db.nThreads st.newVectors.length sched →
    ∃ c, st.submit maxNum step sched = .returned c
  round : ∀ st sched, Inv st → st.newVectors ≠ [] → ok sched st →
    (st.round maxNum step sched).Ensures fun st' =>
      Inv st' ∧ st'.newVectors.length < st.newVectors.length

section Rule

variable [Inhabited V] {db : Database V R} {newVectors : List V} {ids : List Nat} {density : ℚ}
  {n maxNum step : Nat} {Inv : PrefillState V R → Prop}
  {ok : Nat → Nat → List (Nat × Bool) → PrefillState V R → Prop}
  {scheds : List (List (Nat × Bool))}

omit [Inhabited V] [Zero R] [LinearOrder R] in
theorem ne_nil_of_isEmpty {st : PrefillState V R} (h : st.newVectors.isEmpty = false) :
    st.newVectors ≠ [] := by
  intro hnil
  rw [hnil] at h
  cases h

/-- A load whose rounds keep an invariant ends with it, and with caches that
agree with the pages. -/
theorem batchPrefillParallel_ensures
    (hMaxNum : maxNum = maxNumVectors db.dbStorage.maxNumVectorsPerPage density)
    (hStep : step = newVectors.length / db.nThreads / 2) (hThreads : 0 < db.nThreads)
    (hRounds : RoundsKeep n maxNum step Inv (ok maxNum step))
    (hInit : ∃ st, db.prefillInit newVectors ids maxNum = some st ∧ Inv st)
    (hok : db.EveryRound newVectors ids density ok scheds) :
    (db.batchPrefillParallel newVectors ids density scheds).Ensures fun r =>
      ∃ st, Inv st ∧ st.newVectors = [] ∧ r.2 = (st.newVectors, st.ids) ∧
        r.1.dbStorage = st.db.dbStorage ∧
        Coherent r.1.dbStorage.pages r.1.cachedVectors r.1.cachedMaxDists := by
  subst hMaxNum hStep
  obtain ⟨st, hst, hinv⟩ := hInit
  unfold batchPrefillParallel
  simp only [hst, Outcome.ofOption_some, Outcome.bind_returned, if_neg hThreads.ne']
  refine (Outcome.repeatUntil_ensures Inv (fun st sched hinv hempty hx =>
    (hRounds.round st sched hinv (ne_nil_of_isEmpty hempty) hx).mono fun _ h => h.1) hinv
    (hok st hst)).bind ?_
  rintro st' ⟨hinv', hdone⟩
  obtain ⟨cached, hupdate, hcoherent⟩ := Core.updateCaches_eq (hRounds.uniform st' hinv')
  simp only [hupdate, Outcome.ofOption_some, Outcome.bind_returned, Outcome.ensures_returned]
  exact ⟨st', hinv', List.isEmpty_iff.mp hdone, rfl, rfl, hcoherent⟩

/-- The load returns when there are rounds enough and every worker has had
enough turns in each. -/
theorem batchPrefillParallel_returns
    (hMaxNum : maxNum = maxNumVectors db.dbStorage.maxNumVectorsPerPage density)
    (hStep : step = newVectors.length / db.nThreads / 2) (hThreads : 0 < db.nThreads)
    (hRounds : RoundsKeep n maxNum step Inv (ok maxNum step))
    (hInit : ∃ st, db.prefillInit newVectors ids maxNum = some st ∧ Inv st)
    (hok : db.EveryRound newVectors ids density ok scheds)
    (hTurns : ∀ sched ∈ scheds, RoundTurns n newVectors.length sched)
    (hEnough : newVectors.length ≤ scheds.length) :
    ∃ r, db.batchPrefillParallel newVectors ids density scheds = .returned r := by
  have hensures := batchPrefillParallel_ensures hMaxNum hStep hThreads hRounds hInit hok
  subst hMaxNum hStep
  obtain ⟨st, hst, hinv⟩ := hInit
  have hlen : st.newVectors.length = newVectors.length := by
    obtain ⟨s, -, rfl⟩ := Option.map_eq_some_iff.mp hst
    rfl
  obtain ⟨st', hloop⟩ : ∃ st', Outcome.repeatUntil (fun st => st.newVectors.isEmpty)
      (PrefillState.round _ _) scheds st = .returned st' := by
    refine Outcome.repeatUntil_returns
      (fun st => Inv st ∧ st.newVectors.length ≤ newVectors.length) (·.newVectors.length) ?_
      (fun st h => List.isEmpty_iff.mpr (List.eq_nil_of_length_eq_zero h))
      ⟨hinv, hlen.le⟩ ((hok st hst).and_label hTurns) (hlen.trans_le hEnough)
    rintro st sched ⟨hinv, hle⟩ hempty hx
    obtain ⟨c, hc⟩ := hRounds.submit st sched hinv hx.1 (by
      rw [hRounds.nThreads st hinv]
      exact hx.2.mono hle)
    have hnext := hRounds.round st sched hinv (ne_nil_of_isEmpty hempty) hx.1
    rw [PrefillState.round, hc, Outcome.bind_returned] at hnext ⊢
    obtain ⟨st', hst', hinv', hlt⟩ := hnext.of_ofOption
    exact ⟨st', hst', ⟨hinv', by omega⟩, hlt⟩
  unfold batchPrefillParallel at hensures ⊢
  simp only [hst, Outcome.ofOption_some, Outcome.bind_returned, if_neg hThreads.ne', hloop]
    at hensures ⊢
  exact hensures.exists_returned

end Rule

end Database

/-! ## What the rounds store -/

namespace PrefillState

variable {dist : DistFunc V R} {maxNum step n bufferSize : Nat} {all : Multiset (Nat × V)}
  {st : PrefillState V R}

/-- Between two rounds every pair is stored once or still to be stored, and the
written pages are within `maxNum` and have their exact radii. -/
structure Stores (dist : DistFunc V R) (maxNum n bufferSize : Nat) (all : Multiset (Nat × V))
    (st : PrefillState V R) : Prop where
  workable : Workable dist maxNum n bufferSize st
  storing : Storing dist maxNum all st.pageIdx st.load
  length : st.ids.length = st.newVectors.length

/-- The resize does no harm and there is a page. -/
def RoundFits (maxNum step : Nat) (sched : List (Nat × Bool)) (st : PrefillState V R) : Prop :=
  st.OutputsFit maxNum step sched ∧ st.PageLeft

instance (maxNum step : Nat) (sched : List (Nat × Bool)) (st : PrefillState V R) :
    Decidable (st.RoundFits maxNum step sched) :=
  inferInstanceAs (Decidable (_ ∧ _))

theorem Stores.storeNearest {pruned : IdTaggedDistance R → Prop}
    {heaps : Fin st.db.nThreads → LocalHeap R} (h : Stores dist maxNum n bufferSize all st)
    (hfound : st.Found pruned maxNum bufferSize heaps)
    (hmem : .valueInit ∈ (outputs heaps).flatten)
    (hfit : Parallel.OutputsFit maxNum st.db.internalBuffer heaps) (hpage : st.PageLeft) :
    ∃ st', st.storeNearest maxNum heaps = some st' ∧ Stores dist maxNum n bufferSize all st' ∧
      st'.newVectors.length < st.newVectors.length := by
  obtain ⟨sel, maxDist, hchosen, hfew, -, hnext⟩ := h.workable.storeNearest hfound hmem hfit
  have hlt : ∀ i ∈ sel.map (·.second), i < st.load.slots.length := by
    intro i hi
    have hi := hchosen.lt_length i hi
    rw [Load.slots, List.length_zip]
    show i < min st.ids.length st.newVectors.length
    rwa [h.length, Nat.min_self]
  have huniform : st.db.dbStorage.Uniform := by
    obtain ⟨written, free, hfilling, -⟩ := h.storing
    exact hfilling.uniform
  obtain ⟨l, hstore⟩ := Load.storePage_isSome (l := st.load) huniform
    (hpage.trans_eq huniform.length_pages.symm) hlt maxDist
  obtain ⟨hstoring, -, hshorter, hlength⟩ := h.storing.storePage hchosen hfew hstore
  obtain ⟨st', hrun, rfl, hidx, hworkable⟩ := hnext l hstore
  refine ⟨st', hrun, ⟨hworkable, ?_, hlength h.length⟩, hshorter⟩
  rwa [hidx]

/-- The cut-off excuses no vector at distance zero, so the first vector is found. -/
theorem Workable.found_first {heaps : Fin st.db.nThreads → LocalHeap R}
    (h : Workable dist maxNum n bufferSize st) (hne : st.newVectors ≠ [])
    {pruned : IdTaggedDistance R → Prop} (hpruned : ¬ pruned .valueInit)
    (hfound : st.Found pruned maxNum bufferSize heaps) :
    .valueInit ∈ (outputs heaps).flatten := by
  have hcov := hfound.covers
  rw [h.distFunc] at hcov
  refine Multiset.mem_coe.mp (hcov.mem_of_least h.max_pos (valueInit_mem_candidates hne) ?_ hpruned)
  intro y hy hle
  exact le_antisymm hle (IdTaggedDistance.valueInit_le (nonneg_of_mem_candidates hy))

theorem prune_first {vectors : List V} (b : WithTop R) (hb : 0 ≤ b) (i : Nat)
    (hi : b < (toFirst dist vectors i).first) : 0 < (toFirst dist vectors i).first :=
  WithTop.coe_lt_coe.mp (hb.trans_lt hi)

theorem publish_first (v : Multiset Nat) (w : LocalHeap R) (r : R)
    (_ : v ≤ Multiset.Ico 0 st.newVectors.length)
    (hkeeps : (st.task maxNum step).Keeps (fun e => 0 < e.first) bufferSize v w) (_ : True)
    (hr : w.top.map (·.first) = some r) : (0 : WithTop R) ≤ r := by
  obtain ⟨top, htop, rfl⟩ := Option.map_eq_some_iff.mp hr
  exact WithTop.coe_le_coe.mpr (hkeeps.nonneg top (List.mem_of_mem_head? htop))

/-- No cut-off is negative, whoever publishes it. -/
theorem Workable.sound_first (h : Workable dist maxNum n bufferSize st) (hstep : 0 < step) :
    (st.task maxNum step).batchPrefillWorker.Sound
      ((st.task maxNum step).Keeps (fun e => 0 < e.first) bufferSize) (fun b => 0 ≤ b)
      fun _ => True := by
  apply BatchPrefill.sound (h.reads step) hstep _ publish_first
  rw [show (st.task maxNum step).distFunc = dist from h.distFunc]
  exact prune_first

theorem Workable.submit_first (h : Workable dist maxNum n bufferSize st) (hstep : 0 < step)
    (sched : List (Nat × Bool)) :
    ((st.submit maxNum step sched).Ensures fun c =>
        st.Found (fun e => 0 < e.first) maxNum bufferSize fun t => (c.threads t).work) ∧
      (RoundTurns st.db.nThreads st.newVectors.length sched →
        ∃ c, st.submit maxNum step sched = .returned c) := by
  have hprune : ∀ b : WithTop R, 0 ≤ b → ∀ i,
      b < (toFirst st.db.installed.distFunc st.newVectors i).first →
      0 < (toFirst st.db.installed.distFunc st.newVectors i).first := by
    rw [h.distFunc]
    exact prune_first
  have hguard : st.PublishesUnder (fun _ => True) maxNum step sched := by
    apply Along.mono _ (along_true (turnsOf _ sched) st.start)
    intro c x _ _
    trivial
  exact ⟨h.submit_found hstep hprune le_top publish_first hguard,
    h.submit_returns hstep hprune le_top publish_first hguard⟩

/-- The rounds keep every pair when the outputs fit and there are pages. -/
theorem stores_rounds (hstep : 0 < step) :
    Database.RoundsKeep n maxNum step (Stores dist maxNum n bufferSize all)
      fun sched st => st.RoundFits maxNum step sched where
  nThreads _ h := h.workable.nThreads
  uniform st h := by
    obtain ⟨written, free, hfilling, -⟩ := h.storing
    exact hfilling.uniform
  submit st sched h _ hturns := (h.workable.submit_first hstep sched).2 hturns
  round := by
    rintro st sched h hne ⟨hfit, hpage⟩
    refine ((h.workable.submit_first hstep sched).1.and_whenReturned hfit).bind ?_
    rintro c ⟨hfound, hfit⟩
    have hmem := h.workable.found_first hne (lt_irrefl (0 : R)) hfound
    obtain ⟨st', hrun, hstores, hlt⟩ := h.storeNearest hfound hmem hfit hpage
    rw [hrun]
    exact ⟨hstores, hlt⟩

end PrefillState

namespace Database

section Load

variable [Inhabited V] {installed : SupportedDistanceFunctions → Installed V R}
  {pageSize fileSize dim nThreads buffersSize maxNum : Nat} {dtype : SupportedDataType}
  {distanceFunction : SupportedDistanceFunctions} {db : Database V R} {dist : DistFunc V R}
  {newVectors : List V} {ids : List Nat} {scheds : List (List (Nat × Bool))}

omit [Inhabited V] in
/-- On a new database the files are created and the loop can start. -/
theorem Fresh.prefillInit
    (h : db.Fresh installed pageSize fileSize dtype dim distanceFunction nThreads buffersSize)
    (hDist : (installed distanceFunction).distFunc = dist) (hThreads : 0 < nThreads) {m : Nat}
    (hMax : 0 < m) (hLe : m ≤ maxNum) (hRoom : m ≤ buffersSize) (newVectors : List V)
    (ids : List Nat) :
    ∃ s st, prepareFiles maxNum ids.length db.dbStorage = some s ∧
      db.prefillInit newVectors ids maxNum = some st ∧ st.load = ⟨s, newVectors, ids⟩ ∧
      st.pageIdx = 0 ∧ st.Workable dist m nThreads buffersSize := by
  obtain ⟨s, hs⟩ := prepareFiles_isSome h.grown.uniform (hMax.trans_le hLe) ids.length
  have hsize : ∀ t, (db.localDistanceBuffers t).length = db.localDistanceBuffersSize := by
    intro t
    rw [h.buffers t, List.length_replicate, h.size]
  refine ⟨s, _, hs, by rw [Database.prefillInit, hs, Option.map_some], rfl, rfl, ?_⟩
  refine ⟨?_, h.nThreads, hThreads, hMax, hRoom, h.size, hsize, fun t e he => ?_, ?_⟩
  · rw [h.installed, hDist]
  · rw [h.buffers t] at he
    obtain ⟨-, rfl⟩ := List.mem_replicate.mp he
    exact le_rfl
  · calc nThreads * m ≤ nThreads * maxNum := Nat.mul_le_mul_left _ hLe
      _ = maxNum * db.nThreads := by rw [h.nThreads, Nat.mul_comm]
      _ ≤ _ := (db.internalBuffer.resize .valueInit (maxNum * db.nThreads)).size_le

omit [LinearOrder R] [Inhabited V] in
/-- Two morsels for each worker are not empty. -/
theorem Fresh.step_pos
    (h : db.Fresh installed pageSize fileSize dtype dim distanceFunction nThreads buffersSize)
    (hThreads : 0 < nThreads) (hMany : 2 * nThreads ≤ newVectors.length) :
    0 < newVectors.length / db.nThreads / 2 := by
  rw [h.nThreads, Nat.div_div_eq_div_mul, Nat.mul_comm]
  exact Nat.div_pos hMany (by omega)

/-- The pages hold these pairs, each as often as it is there, within the capacity
and with exact radii. -/
def HoldExactly (dist : DistFunc V R) (capacity : Nat) (pairs : List (Nat × V))
    (pages : List (Page V R)) : Prop :=
  contents pages = pairs ∧ ∀ p ∈ pages, p.nVectors ≤ capacity ∧ p.ExactRadius dist

instance [DecidableEq V] (capacity : Nat) (pairs : List (Nat × V)) (pages : List (Page V R)) :
    Decidable (HoldExactly dist capacity pairs pages) :=
  inferInstanceAs (Decidable (_ ∧ _))

end Load

end Database

/-! ## Runs on new databases -/

section Runs

open Distance

/-- A new database of one-dimensional vectors with local buffers of size four. -/
def newDatabase (pageSize fileSize nThreads : Nat) : Option (Database (Vec ℚ 1) ℚ) :=
  Database.create (fun _ => squaredL2Installed ℚ 1) pageSize fileSize .float 1 .squaredL2Distance
    nThreads 4

/-- Every thread acts in turn, in every round. -/
def allRounds (nThreads turns rounds : Nat) : List (List (Nat × Bool)) :=
  List.replicate rounds ((roundRobin nThreads turns).map fun x => (x.1.val, x.2))

/-- Pages of capacity two, two in a file, and two threads. -/
def twoThreads : Database (Vec ℚ 1) ℚ := (newDatabase 40 80 2).get rfl

/-- The points 0, 4, 1 and 6, in four rounds. -/
def loadFourPoints : Outcome (Database (Vec ℚ 1) ℚ × List (Vec ℚ 1) × List Nat) :=
  twoThreads.batchPrefillParallel [.point 0, .point 4, .point 1, .point 6] [0, 1, 2, 3] 1
    (allRounds 2 31 4)

/-- Pages of capacity three, three in a file, and one thread. -/
def oneThread : Database (Vec ℚ 1) ℚ := (newDatabase 52 156 1).get rfl

end Runs

end Spheres
