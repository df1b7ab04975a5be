import Spheres.Parallel.BatchPrefill

/-!
# The candidate lists of a parallel bulk load

The heap of a worker never holds more entries than the worker has seen
positions, so that a limit above the number of vectors is no limit
(`complete_narrowed`). And a heap from which `heap[0]` is read after a morsel has
an entry if and only if it had one before, or the morsel has a vector within the
cut-off (`morselFinds_iff`).
-/

namespace Spheres.Parallel.BatchPrefill

open Execution Library Library.Interleaving Library.Selection Library.MorselLoop

variable {V R : Type*} [LinearOrder R] (T : BatchPrefill V R)

/-- The same task with `limit` as the limit of a heap, if it is the smaller one. -/
def narrowed (limit : Nat) : BatchPrefill V R :=
  { T with maxNumVectorsInPage := min T.maxNumVectorsInPage limit }

variable {T} {anchor : V} {b : WithTop R} {h h' : LocalHeap R} {i lo n limit : Nat}

/-- One vector adds one entry at most, and one if the heap is empty and the vector
is within the cut-off. -/
theorem nOutputs_scanVector (hrun : T.scanVector anchor b h i = some h') :
    ∃ v, T.vectors[i]? = some v ∧ h.nOutputs ≤ h'.nOutputs ∧ h'.nOutputs ≤ h.nOutputs + 1 ∧
      (b < T.distFunc v anchor → h'.nOutputs = h.nOutputs) ∧
      (h.nOutputs < T.maxNumVectorsInPage → T.distFunc v anchor ≤ b → h'.nOutputs = h.nOutputs + 1) := by
  obtain ⟨v, hv, hrun⟩ := Option.bind_eq_some_iff.mp hrun
  refine ⟨v, hv, ?_⟩
  simp only at hrun
  split at hrun
  · rename_i hbeyond
    obtain rfl := Option.some.inj hrun
    exact ⟨le_rfl, Nat.le_succ _, fun _ => rfl, fun _ hle => absurd hbeyond hle.not_gt⟩
  · rename_i hwithin
    split at hrun
    · have hone : h'.nOutputs = h.nOutputs + 1 := by
        unfold LocalHeap.push at hrun
        simp only at hrun
        split at hrun
        · obtain rfl := Option.some.inj hrun
          rfl
        · cases hrun
      exact ⟨by omega, hone.le, fun hc => absurd hc hwithin, fun _ _ => hone⟩
    · rename_i hfull
      have hsame : h'.nOutputs = h.nOutputs := by
        obtain ⟨top, -, hrun⟩ := Option.bind_eq_some_iff.mp hrun
        split at hrun
        · unfold LocalHeap.replaceTop at hrun
          simp only at hrun
          split at hrun
          · obtain rfl := Option.some.inj hrun
            rfl
          · cases hrun
        · obtain rfl := Option.some.inj hrun
          rfl
      exact ⟨hsame.ge, by omega, fun hc => absurd hc hwithin, fun hc => absurd hc hfull⟩

/-! ## Limits above the number of vectors -/

theorem scanVector_narrowed (hle : h.nOutputs ≤ i) (hi : i < limit) :
    (T.narrowed limit).scanVector anchor b h i = T.scanVector anchor b h i := by
  unfold scanVector
  show ((T.vectors[i]?).bind fun v => _) = _
  congr 1
  funext v
  by_cases hlt : h.nOutputs < T.maxNumVectorsInPage
  · have hlt' : h.nOutputs < (T.narrowed limit).maxNumVectorsInPage :=
      Nat.lt_min.mpr ⟨hlt, by omega⟩
    simp only [if_pos hlt, if_pos hlt']
    rfl
  · have hmin : (T.narrowed limit).maxNumVectorsInPage = T.maxNumVectorsInPage :=
      Nat.min_eq_left (by omega)
    simp only [hmin]
    rfl

theorem foldlM_narrowed (hle : h.nOutputs ≤ lo) (hhi : lo + n ≤ limit) :
    (List.range' lo n).foldlM ((T.narrowed limit).scanVector anchor b) h =
      (List.range' lo n).foldlM (T.scanVector anchor b) h := by
  induction n generalizing lo h with
  | zero => rfl
  | succ n ih =>
    rw [List.range'_succ, List.foldlM_cons, List.foldlM_cons,
      scanVector_narrowed hle (by omega)]
    cases hrun : T.scanVector anchor b h lo with
    | none => rfl
    | some h' =>
      obtain ⟨v, -, -, hone, -⟩ := nOutputs_scanVector hrun
      exact ih (by omega) (by omega)

section Runs

variable {ι : Type*} [Fintype ι] [DecidableEq ι] [Zero R] {dist : DistFunc V R} {bufferSize : Nat}
  {pruned : IdTaggedDistance R → Prop} {Q : WithTop R → Prop}
  {c : Config ι (Shared R) (Thread R (LocalHeap R))}

omit [DecidableEq ι] in
theorem scan_narrowed (hreads : T.Reads dist) (hlimit : T.vectors.length ≤ limit)
    (hinv : (T.narrowed limit).batchPrefillWorker.Inv
      ((T.narrowed limit).Keeps pruned bufferSize) Q c) {t : ι}
    (hpc : (c.threads t).pc = .load lo) :
    (T.narrowed limit).batchPrefillWorker.scan b lo (T.batchPrefillWorker.claimEnd lo)
        (c.threads t).work =
      T.batchPrefillWorker.scan b lo (T.batchPrefillWorker.claimEnd lo) (c.threads t).work := by
  obtain ⟨-, visited, hsum, htrack⟩ := hinv
  have hkeeps := (htrack t).work
  have hvisited : visited t ≤ Multiset.Ico 0 lo := by
    have hle := Loop.Inv.visited_le hsum t
    refine (Multiset.le_iff_subset (Multiset.nodup_of_le hle Multiset.nodup_Ico)).mpr fun i hi => ?_
    have hbelow := (htrack t).below i hi
    rw [Loop.frontier, hpc] at hbelow
    exact Multiset.mem_Ico.mpr ⟨Nat.zero_le i, hbelow⟩
  -- a heap with more entries than the thread has seen positions does not exist
  have hfew : (c.threads t).work.nOutputs ≤ lo := by
    have hcard := Multiset.card_le_card hkeeps.covers.le
    rw [hkeeps.valid.card_live, Multiset.card_map] at hcard
    have hbelow := (Multiset.card_le_card hvisited).trans_eq (Nat.card_Ico 0 lo)
    omega
  have hlo : lo < T.maxMorsel := ((htrack t).claim lo hpc).1
  have hend : T.batchPrefillWorker.claimEnd lo ≤ T.vectors.length :=
    (Nat.min_le_left _ _).trans hreads.limit.le
  show ((T.vectors[0]?).bind fun anchor => (List.range' lo _).foldlM
      ((T.narrowed limit).scanVector anchor b) _) =
    (T.vectors[0]?).bind fun anchor => (List.range' lo _).foldlM (T.scanVector anchor b) _
  congr 1
  funext anchor
  apply foldlM_narrowed hfew
  have hlength := hreads.limit
  omega

theorem step_narrowed (hreads : T.Reads dist) (hlimit : T.vectors.length ≤ limit)
    (hinv : (T.narrowed limit).batchPrefillWorker.Inv
      ((T.narrowed limit).Keeps pruned bufferSize) Q c) (x : ι × Bool) :
    Interleaving.step (T.narrowed limit).batchPrefillWorker.act c x =
      Interleaving.step T.batchPrefillWorker.act c x := by
  unfold Interleaving.step
  congr 1
  cases hpc : (c.threads x.1).pc with
  | load lo =>
    have hscan := scan_narrowed (b := c.shared.bound) hreads hlimit hinv hpc
    have hend : (T.narrowed limit).batchPrefillWorker.claimEnd lo =
        T.batchPrefillWorker.claimEnd lo := rfl
    simp only [Loop.act, hpc, hend, hscan]
    rfl
  | done => simp only [Loop.act, hpc]
  | _ =>
    simp only [Loop.act, hpc]
    rfl

/-- A limit above the number of vectors is no limit. -/
theorem complete_narrowed (hreads : T.Reads dist) (hlimit : T.vectors.length ≤ limit)
    (hsound : (T.narrowed limit).batchPrefillWorker.Sound
      ((T.narrowed limit).Keeps pruned bufferSize) Q fun _ => True)
    (hinv : (T.narrowed limit).batchPrefillWorker.Inv
      ((T.narrowed limit).Keeps pruned bufferSize) Q c) (sched : List (ι × Bool)) :
    complete T.batchPrefillWorker.act Loop.isDone sched c =
      complete (T.narrowed limit).batchPrefillWorker.act Loop.isDone sched c := by
  have hrun : run (T.narrowed limit).batchPrefillWorker.act sched c =
      run T.batchPrefillWorker.act sched c := by
    apply run_congr _ (fun c x hc => step_narrowed hreads hlimit hc x) _ hinv
    intro c x c' hc hstep
    obtain ⟨d, hd, hkeep⟩ := Loop.Inv.step hsound c x hc fun _ => trivial
    rw [hd] at hstep
    exact Option.some.inj hstep ▸ hkeep
  unfold complete
  rw [hrun]

end Runs

/-! ## Reading the top of an empty heap -/

/-- The morsel has a vector within the cut-off. -/
def FindsOne (T : BatchPrefill V R) (anchor : V) (b : WithTop R) (lo n : Nat) : Prop :=
  ∃ i ∈ List.range' lo n, ∃ v ∈ T.vectors[i]?, T.distFunc v anchor ≤ b

/-- A heap is empty after a morsel if and only if it was before and the morsel has
no vector within the cut-off. -/
theorem nOutputs_foldlM (hmax : 0 < T.maxNumVectorsInPage)
    (hrun : (List.range' lo n).foldlM (T.scanVector anchor b) h = some h') :
    h'.nOutputs = 0 ↔ h.nOutputs = 0 ∧ ¬ T.FindsOne anchor b lo n := by
  induction n generalizing lo h with
  | zero =>
    obtain rfl := Option.some.inj hrun
    refine ⟨fun h0 => ⟨h0, ?_⟩, And.left⟩
    rintro ⟨i, hi, -⟩
    cases hi
  | succ n ih =>
    rw [List.range'_succ, List.foldlM_cons] at hrun
    obtain ⟨h₁, hrun₁, hrun₂⟩ := Option.bind_eq_some_iff.mp hrun
    obtain ⟨v, hv, hmono, -, hbeyond, hwithin⟩ := nOutputs_scanVector hrun₁
    rw [ih hrun₂]
    simp only [FindsOne, List.range'_succ]
    constructor
    · rintro ⟨h0, hnone⟩
      have hzero : h.nOutputs = 0 := by omega
      refine ⟨hzero, ?_⟩
      rintro ⟨i, hi, w, hw, hle⟩
      rcases List.mem_cons.mp hi with rfl | hi
      · obtain rfl := Option.some.inj (hv.symm.trans hw)
        have := hwithin (by omega) hle
        omega
      · exact hnone ⟨i, hi, w, hw, hle⟩
    · rintro ⟨h0, hnone⟩
      refine ⟨?_, fun ⟨i, hi, hfound⟩ => hnone ⟨i, List.mem_cons_of_mem _ hi, hfound⟩⟩
      rw [hbeyond, h0]
      exact not_le.mp fun hle => hnone ⟨lo, List.mem_cons_self, v, hv, hle⟩

section Reads

variable {ι : Type*} [DecidableEq ι]

/-- A step that reads `heap[0]`, after a morsel or before an exchange, reads it
from a heap with an entry. -/
def TopLive (T : BatchPrefill V R) (c : Config ι (Shared R) (Thread R (LocalHeap R)))
    (x : ι × Bool) : Prop :=
  match (c.threads x.1).pc with
  | .load lo => ∀ h ∈ T.batchPrefillWorker.scan c.shared.bound lo
      (T.batchPrefillWorker.claimEnd lo) (c.threads x.1).work, 0 < h.nOutputs
  | .reload | .exchange _ => 0 < (c.threads x.1).work.nOutputs
  | .fetch | .done => True

/-- A worker that treats a morsel has an entry in its heap, or the morsel has a
vector within the cut-off. -/
def MorselFinds (T : BatchPrefill V R) (c : Config ι (Shared R) (Thread R (LocalHeap R)))
    (x : ι × Bool) : Prop :=
  match (c.threads x.1).pc with
  | .load lo => 0 < (c.threads x.1).work.nOutputs ∨ ∀ anchor ∈ T.vectors[0]?,
      T.FindsOne anchor c.shared.bound lo (T.batchPrefillWorker.claimEnd lo - lo)
  | _ => True

instance (c : Config ι (Shared R) (Thread R (LocalHeap R))) (x : ι × Bool) :
    Decidable (T.TopLive c x) := by
  unfold TopLive
  split <;> infer_instance

variable {c : Config ι (Shared R) (Thread R (LocalHeap R))}

omit [DecidableEq ι] in
/-- This is exactly when the heap has an entry after the morsel. -/
theorem morselFinds_iff (hmax : 0 < T.maxNumVectorsInPage) {x : ι × Bool}
    (hpc : (c.threads x.1).pc = .load lo)
    (hscan : T.batchPrefillWorker.scan c.shared.bound lo (T.batchPrefillWorker.claimEnd lo)
      (c.threads x.1).work = some h) : T.MorselFinds c x ↔ 0 < h.nOutputs := by
  obtain ⟨anchor, hanchor, hfold⟩ := Option.bind_eq_some_iff.mp hscan
  have hempty := nOutputs_foldlM hmax hfold
  simp only [MorselFinds, hpc]
  constructor
  · intro hfinds
    apply Nat.pos_of_ne_zero
    intro hzero
    obtain ⟨hbefore, hnone⟩ := hempty.mp hzero
    rcases hfinds with hpos | hfinds
    · exact hpos.ne' hbefore
    · exact hnone (hfinds anchor hanchor)
  · intro hpos
    refine or_iff_not_imp_left.mpr fun hbefore a ha => ?_
    obtain rfl : anchor = a := Option.some.inj (hanchor.symm.trans ha)
    by_contra hnone
    exact hpos.ne' (hempty.mpr ⟨Nat.eq_zero_of_not_pos hbefore, hnone⟩)

/-- If every morsel finds a candidate for a worker without one, no `heap[0]` of an
empty heap is read. -/
theorem along_topLive (hmax : 0 < T.maxNumVectorsInPage)
    (hstart : ∀ t, Loop.proposes (c.threads t) = false) {sched : List (ι × Bool)}
    (hfinds : Along T.batchPrefillWorker.act T.MorselFinds sched c) :
    Along T.batchPrefillWorker.act T.TopLive sched c := by
  apply Along.mono_inv (fun c => ∀ t, Loop.proposes (c.threads t) = true →
    0 < (c.threads t).work.nOutputs) _ _ (fun t ht => by simp [hstart t] at ht) hfinds
  · intro c x hlive hfinds
    have hx := hlive x.1
    unfold TopLive
    split
    · rename_i lo hpc
      exact fun h hscan => (morselFinds_iff hmax hpc hscan).mp hfinds
    · rename_i hpc
      exact hx (by rw [Loop.proposes, hpc])
    · rename_i hpc
      exact hx (by rw [Loop.proposes, hpc])
    · trivial
    · trivial
  · intro c x c' hlive hfinds hstep t ht
    obtain ⟨s', th', hact, rfl⟩ := step_eq_some hstep
    by_cases htx : t = x.1
    · subst htx
      simp only [Function.update_self] at ht ⊢
      rcases Loop.act_work hact with ⟨lo, hpc, hscan⟩ | ⟨hwork, hprop⟩
      · exact (morselFinds_iff hmax hpc hscan).mp hfinds
      · rw [hwork]
        exact hlive x.1 (hprop ht)
    · simp only [Function.update_of_ne htx] at ht ⊢
      exact hlive t ht

end Reads

end Spheres.Parallel.BatchPrefill
