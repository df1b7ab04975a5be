import Mathlib.Algebra.BigOperators.Group.Finset.Piecewise
import Mathlib.Algebra.Order.BigOperators.Group.Finset
import Mathlib.Order.Interval.Finset.Nat
import Spheres.Execution.Caches
import Spheres.Library.Outcome

/-!
# Filling the distance buffer in parallel

Each worker computes the distances from the query to the anchors of its own
range of the cache and writes them to the same positions of the buffer, one
cell at a time. Whatever the order of the writes, the buffer ends up as the
single-threaded loop leaves it before sorting, because the ranges cover the
cache and a cell is only ever written with its own distance.
-/

namespace Spheres.Parallel

open Library Library.Interleaving

variable {V R : Type*}

/-- The context of a `FillDistToAnchor` task. -/
structure FillDistToAnchor (V R : Type*) where
  cachedMaxDists : List (IdTaggedDistance R)
  cachedVectors : List V
  query : V
  distFunc : V → V → R
  /-- `morsel_step`: the average number of entries for each worker. -/
  nFillAvg : Nat
  /-- `scalar_input1`: how many workers take one entry more. -/
  nLeft : Nat
  maxMorsel : Nat

namespace FillDistToAnchor

variable (T : FillDistToAnchor V R)

def start (threadId : Nat) : Nat :=
  if threadId < T.nLeft then (T.nFillAvg + 1) * threadId
  else (T.nFillAvg + 1) * T.nLeft + T.nFillAvg * (threadId - T.nLeft)

def stop (threadId : Nat) : Nat :=
  if threadId < T.nLeft then T.start threadId + T.nFillAvg + 1
  else
    let uncheckedEnd := T.start threadId + T.nFillAvg
    if uncheckedEnd > T.maxMorsel then T.maxMorsel else uncheckedEnd

/-- The entry computed for a position of the cache. -/
def target (j : Nat) : Option (IdTaggedDistance R) :=
  (T.cachedMaxDists[j]?).bind fun e =>
    (T.cachedVectors[e.second]?).map fun a => ⟨T.distFunc T.query a, e.second⟩

/-- One round of the loop of `fill_dist_to_anchor_buffer_worker`; the thread's
own state is its index with `n_outputs`. -/
def act (_ : Unit) (buffer : List (IdTaggedDistance R)) (t : Nat × Nat) :
    Option (List (IdTaggedDistance R) × Nat × Nat) :=
  if T.start t.1 + t.2 < T.stop t.1 then
    (T.target (T.start t.1 + t.2)).bind fun e =>
      if T.start t.1 + t.2 < buffer.length then
        some (buffer.set (T.start t.1 + t.2) e, t.1, t.2 + 1)
      else none
  else some (buffer, t)

/-- The worker has written its range. -/
def isDone (t : Nat × Nat) : Bool := decide (T.stop t.1 ≤ T.start t.1 + t.2)

/-- The number of entries a worker still has to write. -/
def left (t : Nat × Nat) : Nat := T.stop t.1 - (T.start t.1 + t.2)

/-- The entries that all workers together still have to write. -/
def remaining {n : Nat} (c : Config (Fin n) (List (IdTaggedDistance R)) (Nat × Nat)) : Nat :=
  ∑ t, T.left (c.threads t)

/-- The task: submit it and wait for all workers. -/
def submit {n : Nat} (sched : List (Fin n × Unit)) (buffer : List (IdTaggedDistance R)) :
    Outcome (List (IdTaggedDistance R)) :=
  (complete T.act T.isDone sched ⟨buffer, fun t => (t.val, 0)⟩).bind fun c => .returned c.shared

/-- How `find_k_nearest` sets the task up for `n` workers. -/
structure Shares (size n : Nat) : Prop where
  avg : T.nFillAvg = size / n
  left : T.nLeft = size % n
  max : T.maxMorsel = size

variable {n : Nat}

/-- Every cell that a worker has passed holds its entry. -/
structure Inv (size : Nat) (c : Config (Fin n) (List (IdTaggedDistance R)) (Nat × Nat)) :
    Prop where
  length : c.shared.length = size
  index : ∀ t, (c.threads t).1 = t
  written : ∀ (t : Fin n) (j : Nat), T.start t ≤ j → j < T.start t + (c.threads t).2 →
    c.shared[j]? = T.target j

variable {T} {size : Nat}

theorem Shares.split (h : T.Shares size n) : T.nFillAvg * n + T.nLeft = size := by
  rw [h.avg, h.left, Nat.mul_comm, Nat.div_add_mod]

theorem Shares.left_le (h : T.Shares size n) (hn : 0 < n) : T.nLeft ≤ n :=
  h.left ▸ (Nat.mod_lt _ hn).le

/-- The range of a worker behind the last one would start at the end. -/
theorem Shares.start_last (h : T.Shares size n) (hn : 0 < n) : T.start n = size := by
  have hsplit := h.split
  have hleft := h.left_le hn
  have hmul : T.nFillAvg * n = T.nFillAvg * (n - T.nLeft) + T.nFillAvg * T.nLeft := by
    rw [← Nat.mul_add, Nat.sub_add_cancel hleft]
  have hexpand : (T.nFillAvg + 1) * T.nLeft = T.nFillAvg * T.nLeft + T.nLeft := Nat.succ_mul _ _
  rw [start, if_neg (Nat.not_lt_of_le hleft)]
  omega

/-- Where a range ends, before the comparison with `max_morsel`, the next one starts. -/
theorem start_succ (t : Nat) :
    T.start (t + 1) = T.start t + T.nFillAvg + if t < T.nLeft then 1 else 0 := by
  have hnext : (T.nFillAvg + 1) * (t + 1) = (T.nFillAvg + 1) * t + (T.nFillAvg + 1) :=
    Nat.mul_succ _ _
  rcases Nat.lt_trichotomy (t + 1) T.nLeft with hlt | heq | hgt
  · rw [start, start, if_pos hlt, if_pos (by omega), if_pos (by omega), hnext, Nat.add_assoc]
  · rw [start, start, if_neg (by omega), if_pos (by omega), if_pos (by omega), ← heq,
      Nat.sub_self, Nat.mul_zero, Nat.add_zero, hnext, Nat.add_assoc]
  · have hsucc : t + 1 - T.nLeft = t - T.nLeft + 1 := by omega
    rw [start, start, if_neg (by omega), if_neg (by omega), if_neg (by omega), hsucc,
      Nat.mul_succ, ← Nat.add_assoc]
    rfl

theorem start_zero : T.start 0 = 0 := by
  unfold start
  split
  · rfl
  · rename_i hleft
    rw [Nat.eq_zero_of_not_pos hleft]
    rfl

theorem start_le_succ (t : Nat) : T.start t ≤ T.start (t + 1) := by
  rw [start_succ, Nat.add_assoc]
  exact Nat.le_add_right _ _

theorem start_mono {t t' : Nat} (h : t ≤ t') : T.start t ≤ T.start t' := by
  induction h with
  | refl => exact le_rfl
  | step _ ih => exact ih.trans (start_le_succ _)

/-- The comparison with `max_morsel` changes nothing. -/
theorem Shares.stop_eq (h : T.Shares size n) {t : Nat} (ht : t < n) :
    T.stop t = T.start (t + 1) := by
  have hlast : T.start (t + 1) ≤ size :=
    (start_mono ht).trans_eq (h.start_last (Nat.zero_lt_of_lt ht))
  have hmax := h.max
  rw [start_succ] at hlast ⊢
  unfold stop
  split
  · rfl
  · simp only [if_neg ‹¬ t < T.nLeft›, Nat.add_zero] at hlast ⊢
    exact if_neg (by omega)

theorem Shares.stop_le (h : T.Shares size n) (t : Fin n) : T.stop t ≤ size := by
  rw [h.stop_eq t.isLt, ← h.start_last (Nat.zero_lt_of_lt t.isLt)]
  exact start_mono t.isLt

/-- The ranges lie one behind the other. -/
theorem Shares.stop_le_start (h : T.Shares size n) {t t' : Fin n} (hlt : t < t') :
    T.stop t ≤ T.start t' := by
  rw [h.stop_eq t.isLt]
  exact start_mono hlt

/-- Every position of the cache belongs to a worker. -/
theorem Shares.cover (h : T.Shares size n) (hn : 0 < n) {j : Nat} (hj : j < size) :
    ∃ t : Fin n, T.start t ≤ j ∧ j < T.stop t := by
  have hbelow : ∀ k, j < T.start k → ∃ t < k, T.start t ≤ j ∧ j < T.start (t + 1) := by
    intro k hk
    induction k with
    | zero =>
      rw [start_zero] at hk
      exact absurd hk (Nat.not_lt_zero _)
    | succ k ih =>
      by_cases hlow : j < T.start k
      · obtain ⟨t, ht, hrange⟩ := ih hlow
        exact ⟨t, Nat.lt_succ_of_lt ht, hrange⟩
      · exact ⟨k, Nat.lt_succ_self k, Nat.le_of_not_lt hlow, hk⟩
  obtain ⟨t, ht, hlow, hhigh⟩ := hbelow n (hj.trans_eq (h.start_last hn).symm)
  exact ⟨⟨t, ht⟩, hlow, (h.stop_eq ht).symm ▸ hhigh⟩

theorem Inv.step (hstop : ∀ t : Fin n, T.stop t ≤ size)
    (htarget : ∀ j < size, ∃ e, T.target j = some e)
    (c : Config (Fin n) (List (IdTaggedDistance R)) (Nat × Nat)) (x : Fin n × Unit)
    (h : T.Inv size c) :
    ∃ c', Interleaving.step T.act c x = some c' ∧ T.Inv size c' := by
  obtain ⟨t, u⟩ := x
  have hindex := h.index t
  by_cases hlt : T.start t + (c.threads t).2 < T.stop t
  · obtain ⟨e, he⟩ := htarget _ (hlt.trans_le (hstop t))
    have hroom : T.start t + (c.threads t).2 < c.shared.length :=
      h.length ▸ hlt.trans_le (hstop t)
    have hact : T.act u c.shared (c.threads t) =
        some (c.shared.set (T.start t + (c.threads t).2) e, t.val, (c.threads t).2 + 1) := by
      simp only [act, hindex, if_pos hlt, he, Option.bind_some, if_pos hroom]
    refine ⟨_, step_of_act hact, ?_, ?_, ?_⟩
    · rw [List.length_set, h.length]
    · intro t'
      by_cases ht : t' = t
      · subst ht
        simp
      · simpa [ht] using h.index t'
    · intro t' j hj hj'
      rw [List.getElem?_set]
      by_cases hjt : T.start t + (c.threads t).2 = j
      · subst hjt
        rw [if_pos rfl, if_pos hroom, he]
      · rw [if_neg hjt]
        refine h.written t' j hj ?_
        by_cases ht : t' = t
        · subst ht
          simp only [Function.update_self] at hj'
          omega
        · simpa [ht] using hj'
  · have hact : T.act u c.shared (c.threads t) = some (c.shared, c.threads t) := by
      simp only [act, hindex, if_neg hlt]
    refine ⟨_, step_of_act hact, ?_⟩
    rw [Function.update_eq_self]
    exact h

/-- The positions that a worker writes. -/
def range (T : FillDistToAnchor V R) (t : Fin n) : Finset Nat := Finset.Ico (T.start t) (T.stop t)

theorem Shares.disjoint (h : T.Shares size n) {t t' : Fin n} (hne : t ≠ t') :
    Disjoint (T.range t) (T.range t') := by
  rw [Finset.disjoint_left]
  intro j hj hj'
  rw [range, Finset.mem_Ico] at hj hj'
  rcases lt_or_gt_of_ne hne with hlt | hgt
  · have := h.stop_le_start hlt
    omega
  · have := h.stop_le_start hgt
    omega

theorem Shares.biUnion_range (h : T.Shares size n) (hn : 0 < n) :
    (Finset.univ : Finset (Fin n)).biUnion T.range = Finset.range size := by
  ext j
  simp only [Finset.mem_biUnion, Finset.mem_univ, true_and, range, Finset.mem_Ico,
    Finset.mem_range]
  constructor
  · rintro ⟨t, -, hj⟩
    exact hj.trans_le (h.stop_le t)
  · exact fun hj => h.cover hn hj

/-- A worker leaves the positions of the others alone. -/
theorem Inv.frame {c c' : Config (Fin n) (List (IdTaggedDistance R)) (Nat × Nat)} {t : Fin n}
    (h : T.Inv size c) (hstep : Interleaving.step T.act c (t, ()) = some c') {j : Nat}
    (hj : j ∉ T.range t) : c'.shared[j]? = c.shared[j]? := by
  obtain ⟨buffer', t', hact, rfl⟩ := step_eq_some hstep
  rw [range, Finset.mem_Ico] at hj
  simp only [act, h.index t] at hact
  split at hact
  · rename_i hlt
    obtain ⟨e, -, hact⟩ := Option.bind_eq_some_iff.mp hact
    split at hact
    · obtain ⟨rfl, rfl⟩ := Prod.mk.inj (Option.some.inj hact)
      exact List.getElem?_set_ne (by omega)
    · cases hact
  · obtain ⟨rfl, rfl⟩ := Prod.mk.inj (Option.some.inj hact)
    rfl

/-- The workers when the task is submitted. -/
def initial (n : Nat) (buffer : List (IdTaggedDistance R)) :
    Config (Fin n) (List (IdTaggedDistance R)) (Nat × Nat) := ⟨buffer, fun t => (t.val, 0)⟩

theorem inv_initial (T : FillDistToAnchor V R) (n : Nat) (buffer : List (IdTaggedDistance R)) :
    T.Inv buffer.length (initial n buffer) :=
  ⟨rfl, fun _ => rfl, fun t j hj hj' => by simp only [initial] at hj'; omega⟩

/-- The invariant holds throughout every run. -/
theorem Inv.of_run (hshares : T.Shares size n) (htarget : ∀ j < size, ∃ e, T.target j = some e)
    {buffer : List (IdTaggedDistance R)} (hbuffer : buffer.length = size)
    {sched : List (Fin n × Unit)} {c : Config (Fin n) (List (IdTaggedDistance R)) (Nat × Nat)}
    (hrun : run T.act sched (initial n buffer) = some c) : T.Inv size c := by
  obtain ⟨c', hrun', hinv⟩ := run_total (T.Inv size)
    (fun c x hc _ => Inv.step hshares.stop_le htarget c x hc)
    (hbuffer ▸ inv_initial T n buffer) (along_true sched _)
  rw [hrun] at hrun'
  rwa [Option.some.inj hrun']

/-- Under every schedule the task writes every entry to its position. -/
theorem submit_ensures (hn : 0 < n) (hshares : T.Shares size n)
    (htarget : ∀ j < size, ∃ e, T.target j = some e) (sched : List (Fin n × Unit))
    {buffer : List (IdTaggedDistance R)} (hbuffer : buffer.length = size) :
    (T.submit sched buffer).Ensures fun out =>
      out.length = size ∧ ∀ j < size, out[j]? = T.target j := by
  have hinit : T.Inv size (initial n buffer) := hbuffer ▸ inv_initial T n buffer
  refine Outcome.Ensures.bind (complete_ensures (T.Inv size)
    (fun c x hc _ => Inv.step hshares.stop_le htarget c x hc) hinit (along_true _ _)) ?_
  rintro c ⟨hinv, hdone⟩
  refine ⟨hinv.length, fun j hj => ?_⟩
  obtain ⟨t, hlow, hhigh⟩ := hshares.cover hn hj
  have ht := of_decide_eq_true (hdone t)
  rw [hinv.index t] at ht
  exact hinv.written t j hlow (hhigh.trans_le ht)

theorem step_remaining {c c' : Config (Fin n) (List (IdTaggedDistance R)) (Nat × Nat)}
    {x : Fin n × Unit} (h : Interleaving.step T.act c x = some c') :
    T.remaining c' ≤ T.remaining c ∧
      (T.isDone (c.threads x.1) = true → T.isDone (c'.threads x.1) = true) ∧
      (T.isDone (c.threads x.1) = false → T.remaining c' < T.remaining c) := by
  obtain ⟨buffer', t', hact, rfl⟩ := step_eq_some h
  unfold act at hact
  split at hact
  · rename_i hlt
    obtain ⟨e, -, hact⟩ := Option.bind_eq_some_iff.mp hact
    split at hact
    · obtain ⟨rfl, rfl⟩ := Prod.mk.inj (Option.some.inj hact)
      have hown : T.left ((c.threads x.1).1, (c.threads x.1).2 + 1) < T.left (c.threads x.1) := by
        simp only [left]
        omega
      have hless : T.remaining ⟨c.shared.set (T.start (c.threads x.1).1 + (c.threads x.1).2) e,
          Function.update c.threads x.1 ((c.threads x.1).1, (c.threads x.1).2 + 1)⟩ <
            T.remaining c := by
        refine Finset.sum_lt_sum (fun t _ => ?_) ⟨x.1, Finset.mem_univ _, ?_⟩
        · by_cases ht : t = x.1
          · subst ht
            simpa only [Function.update_self] using hown.le
          · simp only [Function.update_of_ne ht, le_refl]
        · simpa only [Function.update_self] using hown
      refine ⟨hless.le, fun hdone => ?_, fun _ => hless⟩
      have := of_decide_eq_true hdone
      omega
    · cases hact
  · rename_i hge
    obtain ⟨rfl, rfl⟩ := Prod.mk.inj (Option.some.inj hact)
    rw [Function.update_eq_self]
    refine ⟨le_rfl, fun h => h, fun hdone => ?_⟩
    have := of_decide_eq_false hdone
    omega

/-- The task returns once every worker has had enough turns. -/
theorem submit_returns (hshares : T.Shares size n)
    (htarget : ∀ j < size, ∃ e, T.target j = some e) {sched : List (Fin n × Unit)}
    {buffer : List (IdTaggedDistance R)} (hbuffer : buffer.length = size)
    (hturns : ∀ t, size + n < turns (fun _ => true) t sched) :
    ∃ out, T.submit sched buffer = .returned out := by
  have hinit : T.Inv size (initial n buffer) := hbuffer ▸ inv_initial T n buffer
  have hremaining : T.remaining (initial n buffer) ≤ size + n := by
    have hshare : ∀ t : Fin n, T.left (t.val, 0) ≤ T.nFillAvg + 1 := by
      intro t
      simp only [left]
      unfold stop
      split
      · omega
      · simp only
        split <;> omega
    calc ∑ t : Fin n, T.left (t.val, 0) ≤ ∑ _t : Fin n, (T.nFillAvg + 1) :=
          Finset.sum_le_sum fun t _ => hshare t
      _ = T.nFillAvg * n + n := by
          rw [Finset.sum_const, Finset.card_univ, Fintype.card_fin, Nat.nsmul_eq_mul,
            Nat.mul_succ, Nat.mul_comm]
      _ ≤ size + n := by
          have := hshares.split
          omega
  obtain ⟨c, hc⟩ : ∃ c, complete T.act T.isDone sched ⟨buffer, fun t => (t.val, 0)⟩ = .returned c :=
    complete_returns (T.Inv size) T.remaining (fun _ => true)
      (fun c x hinv _ => by
        obtain ⟨c', hrun, hinv'⟩ := Inv.step hshares.stop_le htarget c x hinv
        obtain ⟨hle, hstay, hlt⟩ := step_remaining hrun
        exact ⟨c', hrun, hinv', hle, hstay, fun hdone _ => hlt hdone⟩)
      hinit (along_true sched _) (fun t => Or.inr (hremaining.trans_lt (hturns t)))
  exact ⟨c.shared, by rw [submit, hc]; rfl⟩

/-- The entry of every position, for coherent caches. -/
theorem target_eq {pages : List (Page V R)}
    (hcoherent : Execution.Coherent pages T.cachedVectors T.cachedMaxDists) (j : Nat) :
    T.target j = (Execution.anchorDistances T.distFunc pages T.query)[j]? := by
  obtain ⟨f, hf, hmap⟩ := hcoherent.anchorDistances_eq T.distFunc T.query
  rw [← hmap, List.getElem?_map, target]
  cases hj : T.cachedMaxDists[j]? with
  | none => rfl
  | some e => exact hf e (List.mem_of_getElem? hj)

theorem length_anchorDistances {pages : List (Page V R)}
    (hcoherent : Execution.Coherent pages T.cachedVectors T.cachedMaxDists) :
    (Execution.anchorDistances T.distFunc pages T.query).length = T.cachedMaxDists.length := by
  obtain ⟨f, -, hmap⟩ := hcoherent.anchorDistances_eq T.distFunc T.query
  rw [← hmap, List.length_map]

theorem exists_target {pages : List (Page V R)}
    (hcoherent : Execution.Coherent pages T.cachedVectors T.cachedMaxDists) {j : Nat}
    (hj : j < T.cachedMaxDists.length) : ∃ e, T.target j = some e :=
  ⟨_, (target_eq hcoherent j).trans
    (List.getElem?_eq_getElem ((length_anchorDistances hcoherent).symm ▸ hj))⟩

/-- From coherent caches the task produces the distances to all anchors in page
order. -/
theorem submit_eq {pages : List (Page V R)} (hn : 0 < n)
    (hshares : T.Shares T.cachedMaxDists.length n)
    (hcoherent : Execution.Coherent pages T.cachedVectors T.cachedMaxDists)
    (sched : List (Fin n × Unit)) {buffer : List (IdTaggedDistance R)}
    (hbuffer : buffer.length = T.cachedMaxDists.length) :
    (T.submit sched buffer).Ensures fun out =>
      out = Execution.anchorDistances T.distFunc pages T.query := by
  refine (submit_ensures hn hshares (fun j hj => exists_target hcoherent hj) sched
    hbuffer).mono fun out hout => List.ext_getElem? fun j => ?_
  by_cases hj : j < T.cachedMaxDists.length
  · rw [hout.2 j hj, target_eq hcoherent j]
  · have hlen := length_anchorDistances (T := T) hcoherent
    rw [List.getElem?_eq_none (hout.1 ▸ Nat.le_of_not_lt hj),
      List.getElem?_eq_none (hlen ▸ Nat.le_of_not_lt hj)]

end FillDistToAnchor

end Spheres.Parallel
