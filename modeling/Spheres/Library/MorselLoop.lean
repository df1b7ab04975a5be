import Mathlib.Algebra.BigOperators.Group.Finset.Piecewise
import Mathlib.Algebra.Order.BigOperators.Group.Finset
import Mathlib.Order.Interval.Finset.Nat
import Mathlib.Order.Interval.Multiset
import Mathlib.Order.WithBot
import Spheres.Library.Outcome

/-!
# Work shared out by a counter, with a common cut-off

Threads claim consecutive positions `lo ..< lo + step` below `limit` with an
atomic fetch-and-add, scan them against a bound loaded once for each claim, and
afterwards try to lower the common bound to a value of their own with a weak
compare-and-exchange loop. One action below performs one access to the shared
state together with the private computation that follows it.

`Loop.submit_sound` is the rule for such programs: a property `P` of a thread's
private state and of the positions it has scanned, kept by every scan against a
bound that satisfies `Q`, holds of all threads at the end, provided that every
value written to the common bound satisfies `Q`; and when all threads have
finished, each position below `limit` was scanned by exactly one of them.
-/

namespace Spheres.Library.MorselLoop

open Interleaving

variable {ι R H : Type*}

/-- A sum over all threads when one of them is replaced. -/
theorem sum_threads_update {τ M : Type*} [AddCommMonoid M] [Fintype ι] [DecidableEq ι] (f : τ → M)
    (threads : ι → τ) (t : ι) (th' : τ) :
    f (threads t) + ∑ i, f (Function.update threads t th' i) = ∑ i, f (threads i) + f th' := by
  have hrest : ∀ i ∈ Finset.univ.erase t,
      f (Function.update threads t th' i) = f (threads i) := by
    intro i hi
    rw [Function.update_of_ne (Finset.ne_of_mem_erase hi)]
  rw [← Finset.add_sum_erase _ _ (Finset.mem_univ t),
    ← Finset.add_sum_erase _ (fun i => f (threads i)) (Finset.mem_univ t),
    Finset.sum_congr rfl hrest, Function.update_self]
  ac_rfl

/-- What the threads share: the counter, the bound, and a tally to which each
thread adds when it finishes. -/
structure Shared (R : Type*) where
  next : Nat
  bound : WithTop R
  tally : Nat

/-- Where a thread stands between two accesses to the shared state. -/
inductive Pc (R : Type*) where
  | fetch
  | load (lo : Nat)
  | reload
  | exchange (expected : WithTop R)
  | done
  deriving DecidableEq

structure Thread (R H : Type*) where
  pc : Pc R
  work : H

/-- `scan bound lo hi` treats the positions `lo ..< hi`; `top` reads the value
a thread may publish; `retire` is its contribution to the tally. -/
structure Loop (R H : Type*) where
  step : Nat
  limit : Nat
  scan : WithTop R → Nat → Nat → H → Option H
  top : H → Option R
  retire : H → Nat

namespace Loop

variable (L : Loop R H)

/-- The end of the claim that starts at `lo`. -/
def claimEnd (lo : Nat) : Nat := min L.limit (L.step + lo)

/-- Read the bound again and decide whether to try to lower it. -/
def retry [LinearOrder R] (s : Shared R) (w : H) : Option (Shared R × Thread R H) :=
  (L.top w).map fun (proposed : R) =>
    (s, ⟨if s.bound ≤ (proposed : WithTop R) then .fetch else .exchange s.bound, w⟩)

/-- One atomic action of a thread; the label says whether a weak
compare-and-exchange fails although it could succeed. -/
def act [LinearOrder R] (weakFailure : Bool) (s : Shared R) (t : Thread R H) :
    Option (Shared R × Thread R H) :=
  match t.pc with
  | .fetch =>
    if L.limit ≤ s.next then
      some ({ s with next := s.next + L.step, tally := s.tally + L.retire t.work },
        ⟨.done, t.work⟩)
    else some ({ s with next := s.next + L.step }, ⟨.load s.next, t.work⟩)
  | .load lo =>
    (L.scan s.bound lo (L.claimEnd lo) t.work).bind fun w =>
      (L.top w).map fun (top : R) =>
        (s, ⟨if (top : WithTop R) < s.bound then .reload else .fetch, w⟩)
  | .reload => L.retry s t.work
  | .exchange expected =>
    if s.bound = expected ∧ weakFailure = false then
      (L.top t.work).map fun (proposed : R) => ({ s with bound := proposed }, ⟨.fetch, t.work⟩)
    else L.retry s t.work
  | .done => some (s, t)

/-- The step about to be taken is a compare-and-exchange that succeeds. -/
def Publishes (c : Config ι (Shared R) (Thread R H)) (x : ι × Bool) : Prop :=
  (c.threads x.1).pc = .exchange c.shared.bound ∧ x.2 = false

instance [DecidableEq R] (c : Config ι (Shared R) (Thread R H)) (x : ι × Bool) :
    Decidable (Publishes c x) :=
  inferInstanceAs (Decidable (_ ∧ _))

/-- The thread has left the loop. -/
def isDone (t : Thread R H) : Bool :=
  match t.pc with
  | .done => true
  | _ => false

/-- The next action of the thread reads the value that it may publish. -/
def proposes (t : Thread R H) : Bool :=
  match t.pc with
  | .reload | .exchange _ => true
  | .fetch | .load _ | .done => false

/-- The positions a thread has claimed and not scanned yet. -/
def pending (t : Thread R H) : Multiset Nat :=
  match t.pc with
  | .load lo => Multiset.Ico lo (L.claimEnd lo)
  | _ => 0

/-- The positions scanned by a thread lie below this one. -/
def frontier (next : Nat) (t : Thread R H) : Nat :=
  match t.pc with
  | .load lo => lo
  | _ => next

/-- What is known of one thread that has scanned the positions `v`. -/
structure Tracks (P : Multiset Nat → H → Prop) (next : Nat) (v : Multiset Nat)
    (t : Thread R H) : Prop where
  work : P v t.work
  below : ∀ i ∈ v, i < frontier next t
  claim : ∀ lo, t.pc = .load lo → lo < L.limit ∧ lo < next
  finished : t.pc = .done → L.limit ≤ next

/-- The invariant: the scanned and the claimed positions are those below the
counter, each once, and every thread is on track. -/
def Inv [Fintype ι] (P : Multiset Nat → H → Prop) (Q : WithTop R → Prop)
    (c : Config ι (Shared R) (Thread R H)) : Prop :=
  Q c.shared.bound ∧ ∃ visited : ι → Multiset Nat,
    ∑ t, (visited t + L.pending (c.threads t)) = Multiset.Ico 0 (min c.shared.next L.limit) ∧
    ∀ t, L.Tracks P c.shared.next (visited t) (c.threads t)

/-- The obligations of a program that uses the loop. `guard` is what the state
of a publishing thread is known to satisfy. -/
structure Sound (P : Multiset Nat → H → Prop) (Q : WithTop R → Prop) (guard : H → Prop) :
    Prop where
  step_pos : 0 < L.step
  scan : ∀ v b lo w, lo < L.limit → (∀ i ∈ v, i < lo) → P v w → Q b →
    ∃ w', L.scan b lo (L.claimEnd lo) w = some w' ∧ P (v + Multiset.Ico lo (L.claimEnd lo)) w'
  top : ∀ v w, P v w → ∃ r, L.top w = some r
  publish : ∀ v w r, v ≤ Multiset.Ico 0 L.limit → P v w → guard w → L.top w = some r → Q r

variable {L}

theorem pc_of_isDone {t : Thread R H} (h : isDone t = true) : t.pc = .done := by
  unfold isDone at h
  split at h
  · assumption
  · cases h

theorem coe_range' (lo n : Nat) :
    (List.range' lo n : Multiset Nat) = Multiset.Ico lo (lo + n) := by
  change _ = ((List.range' lo (lo + n - lo) : List Nat) : Multiset Nat)
  rw [Nat.add_sub_cancel_left]

theorem Ico_succ (lo n : Nat) :
    Multiset.Ico lo (lo + (n + 1)) = (lo + n) ::ₘ Multiset.Ico lo (lo + n) := by
  rw [← coe_range', List.range'_concat, Nat.one_mul, ← Multiset.coe_add, coe_range',
    Multiset.coe_singleton, add_comm, Multiset.singleton_add]

/-- A scan that treats the positions of a claim one after the other. -/
theorem foldlM_positions {P : Multiset Nat → H → Prop} {f : H → Nat → Option H} {lo n : Nat}
    (hstep : ∀ v w i, lo ≤ i → i < lo + n → (∀ j ∈ v, j < i) → P v w →
      ∃ w', f w i = some w' ∧ P (i ::ₘ v) w')
    {v : Multiset Nat} {w : H} (hv : ∀ j ∈ v, j < lo) (hP : P v w) :
    ∃ w', (List.range' lo n).foldlM f w = some w' ∧ P (v + Multiset.Ico lo (lo + n)) w' := by
  induction n with
  | zero => exact ⟨w, rfl, by simpa using hP⟩
  | succ n ih =>
    obtain ⟨w₁, hrun, hP₁⟩ := ih fun v w i hlo hi => hstep v w i hlo (by omega)
    obtain ⟨w₂, hrun₂, hP₂⟩ := hstep _ w₁ (lo + n) (Nat.le_add_right _ _) (by omega) (by
      intro j hj
      rcases Multiset.mem_add.mp hj with hj | hj
      · exact (hv j hj).trans_le (Nat.le_add_right _ _)
      · exact (Multiset.mem_Ico.mp hj).2) hP₁
    refine ⟨w₂, ?_, ?_⟩
    · rw [List.range'_concat, List.foldlM_append, hrun]
      simpa using hrun₂
    · rw [Ico_succ, Multiset.add_cons]
      exact hP₂

theorem Tracks.mono {P : Multiset Nat → H → Prop} {next next' : Nat} {v : Multiset Nat}
    {t : Thread R H} (h : L.Tracks P next v t) (hle : next ≤ next') : L.Tracks P next' v t where
  work := h.work
  below := by
    intro i hi
    refine (h.below i hi).trans_le ?_
    unfold frontier
    split
    · exact le_rfl
    · exact hle
  claim lo hlo := ⟨(h.claim lo hlo).1, (h.claim lo hlo).2.trans_le hle⟩
  finished hd := (h.finished hd).trans hle

theorem lt_claimEnd {lo : Nat} (hstep : 0 < L.step) (hlo : lo < L.limit) : lo < L.claimEnd lo := by
  unfold claimEnd
  omega

theorem frontier_eq {next : Nat} {t : Thread R H} (h : ∀ lo, t.pc ≠ .load lo) :
    frontier next t = next := by
  unfold frontier
  split
  · exact absurd ‹_› (h _)
  · rfl

/-- A thread that stays away from the counter keeps its track. -/
theorem Tracks.move {P : Multiset Nat → H → Prop} {next : Nat} {v : Multiset Nat}
    {t : Thread R H} {pc : Pc R} (h : L.Tracks P next v t) (hload : ∀ lo, t.pc ≠ .load lo)
    (hload' : ∀ lo, pc ≠ .load lo) (hdone : pc ≠ .done) :
    L.Tracks P next v ⟨pc, t.work⟩ where
  work := h.work
  below := by
    intro i hi
    have hi' := h.below i hi
    rw [frontier_eq hload] at hi'
    rwa [frontier_eq (t := ⟨pc, t.work⟩) hload']
  claim lo hlo := absurd hlo (hload' lo)
  finished hd := absurd hd hdone

@[simp] theorem pending_load (lo : Nat) (w : H) :
    L.pending (⟨.load lo, w⟩ : Thread R H) = Multiset.Ico lo (L.claimEnd lo) := rfl

theorem pending_eq_zero {t : Thread R H} (h : ∀ lo, t.pc ≠ .load lo) : L.pending t = 0 := by
  unfold pending
  split
  · exact absurd ‹_› (h _)
  · rfl

theorem retry_eq_some [LinearOrder R] {s s' : Shared R} {w : H} {t' : Thread R H}
    (h : L.retry s w = some (s', t')) :
    s' = s ∧ (t'.pc = .fetch ∨ t'.pc = .exchange s.bound) := by
  obtain ⟨r, -, heq⟩ := Option.map_eq_some_iff.mp h
  obtain ⟨rfl, rfl⟩ := Prod.mk.inj heq
  refine ⟨rfl, ?_⟩
  simp only
  split
  · exact Or.inl rfl
  · exact Or.inr rfl

/-- An action takes the counter as its claim, leaves the loop, or lets the counter
alone. -/
theorem act_cases [LinearOrder R] {weakFailure : Bool} {s s' : Shared R} {t t' : Thread R H}
    (h : L.act weakFailure s t = some (s', t')) :
    (t.pc = .fetch ∧ s.next < L.limit ∧ s'.next = s.next + L.step ∧ t' = ⟨.load s.next, t.work⟩) ∨
    (t.pc = .fetch ∧ L.limit ≤ s.next ∧ s'.next = s.next + L.step ∧ t' = ⟨.done, t.work⟩) ∨
    (s'.next = s.next ∧ (∀ lo, t'.pc ≠ .load lo) ∧ t'.pc ≠ .done) ∨
    (t.pc = .done ∧ s' = s ∧ t' = t) := by
  have hretry : L.retry s t.work = some (s', t') →
      s'.next = s.next ∧ (∀ lo, t'.pc ≠ .load lo) ∧ t'.pc ≠ .done := by
    intro hretry
    obtain ⟨rfl, hpc | hpc⟩ := retry_eq_some hretry <;> simp [hpc]
  unfold act at h
  cases hpc : t.pc with
  | fetch =>
    simp only [hpc] at h
    split at h
    · rename_i hlimit
      obtain ⟨rfl, rfl⟩ := Prod.mk.inj (Option.some.inj h)
      exact Or.inr (Or.inl ⟨rfl, hlimit, rfl, rfl⟩)
    · rename_i hlimit
      obtain ⟨rfl, rfl⟩ := Prod.mk.inj (Option.some.inj h)
      exact Or.inl ⟨rfl, Nat.lt_of_not_le hlimit, rfl, rfl⟩
  | load lo =>
    simp only [hpc] at h
    obtain ⟨w, -, h⟩ := Option.bind_eq_some_iff.mp h
    obtain ⟨r, -, heq⟩ := Option.map_eq_some_iff.mp h
    obtain ⟨rfl, rfl⟩ := Prod.mk.inj heq
    refine Or.inr (Or.inr (Or.inl ⟨rfl, fun lo' => ?_, ?_⟩))
    · simp only
      split <;> exact nofun
    · simp only
      split <;> exact nofun
  | reload =>
    simp only [hpc] at h
    exact Or.inr (Or.inr (Or.inl (hretry h)))
  | exchange expected =>
    simp only [hpc] at h
    split at h
    · obtain ⟨r, -, heq⟩ := Option.map_eq_some_iff.mp h
      obtain ⟨rfl, rfl⟩ := Prod.mk.inj heq
      exact Or.inr (Or.inr (Or.inl ⟨rfl, fun _ => nofun, nofun⟩))
    · exact Or.inr (Or.inr (Or.inl (hretry h)))
  | done =>
    simp only [hpc, Option.some.injEq, Prod.mk.injEq] at h
    exact Or.inr (Or.inr (Or.inr ⟨rfl, h.1.symm, h.2.symm⟩))

/-- An action scans a claim, or leaves the state of the thread as it is. -/
theorem act_work [LinearOrder R] {weakFailure : Bool} {s s' : Shared R} {t t' : Thread R H}
    (h : L.act weakFailure s t = some (s', t')) :
    (∃ lo, t.pc = .load lo ∧ L.scan s.bound lo (L.claimEnd lo) t.work = some t'.work) ∨
    (t'.work = t.work ∧ (proposes t' = true → proposes t = true)) := by
  have hretry : L.retry s t.work = some (s', t') → t'.work = t.work := by
    intro hretry
    obtain ⟨r, -, heq⟩ := Option.map_eq_some_iff.mp hretry
    rw [← (Prod.mk.inj heq).2]
  unfold act at h
  cases hpc : t.pc with
  | fetch =>
    simp only [hpc] at h
    split at h <;> obtain ⟨rfl, rfl⟩ := Prod.mk.inj (Option.some.inj h) <;>
      exact Or.inr ⟨rfl, nofun⟩
  | load lo =>
    simp only [hpc] at h
    obtain ⟨w, hscan, h⟩ := Option.bind_eq_some_iff.mp h
    obtain ⟨r, -, heq⟩ := Option.map_eq_some_iff.mp h
    rw [← (Prod.mk.inj heq).2]
    exact Or.inl ⟨lo, rfl, hscan⟩
  | reload =>
    simp only [hpc] at h
    exact Or.inr ⟨hretry h, fun _ => by rw [proposes, hpc]⟩
  | exchange expected =>
    simp only [hpc] at h
    refine Or.inr ⟨?_, fun _ => by rw [proposes, hpc]⟩
    split at h
    · obtain ⟨r, -, heq⟩ := Option.map_eq_some_iff.mp h
      rw [← (Prod.mk.inj heq).2]
    · exact hretry h
  | done =>
    simp only [hpc, Option.some.injEq, Prod.mk.injEq] at h
    obtain ⟨-, rfl⟩ := h
    exact Or.inr ⟨rfl, id⟩

section Rule

variable [Fintype ι] {P : Multiset Nat → H → Prop} {Q : WithTop R → Prop}

/-- Replacing one thread changes the claimed and scanned positions by what that
thread gains. -/
theorem sum_update [DecidableEq ι] (visited : ι → Multiset Nat) (threads : ι → Thread R H) (t : ι)
    (v' : Multiset Nat) (th' : Thread R H) (gain : Multiset Nat)
    (h : v' + L.pending th' = visited t + L.pending (threads t) + gain) :
    ∑ i, (Function.update visited t v' i + L.pending (Function.update threads t th' i)) =
      ∑ i, (visited i + L.pending (threads i)) + gain := by
  have hterm : ∀ i, Function.update visited t v' i + L.pending (Function.update threads t th' i) =
      Function.update (fun i => visited i + L.pending (threads i)) t (v' + L.pending th') i := by
    intro i
    by_cases hi : i = t
    · subst hi
      simp
    · simp [hi]
  simp only [hterm]
  rw [Finset.sum_update_of_mem (Finset.mem_univ t), h, ← Finset.add_sum_erase _ _
    (Finset.mem_univ t), Finset.sdiff_singleton_eq_erase]
  ac_rfl

theorem Inv.visited_le {c : Config ι (Shared R) (Thread R H)} {visited : ι → Multiset Nat}
    (hsum : ∑ t, (visited t + L.pending (c.threads t)) =
      Multiset.Ico 0 (min c.shared.next L.limit)) (t : ι) :
    visited t ≤ Multiset.Ico 0 L.limit := by
  have h₁ : visited t + L.pending (c.threads t) ≤ Multiset.Ico 0 (min c.shared.next L.limit) := by
    rw [← hsum]
    exact Finset.single_le_sum (f := fun t => visited t + L.pending (c.threads t))
      (fun i _ => Multiset.zero_le _) (Finset.mem_univ t)
  refine (Multiset.le_add_right _ _).trans (h₁.trans ?_)
  refine (Multiset.le_iff_subset Multiset.nodup_Ico).mpr fun i hi => ?_
  rw [Multiset.mem_Ico] at hi ⊢
  omega

/-- Put one thread in a new state, with the bound and the tally free to change. -/
theorem Inv.update [DecidableEq ι] {c : Config ι (Shared R) (Thread R H)}
    {visited : ι → Multiset Nat} {t : ι} {s' : Shared R} {th' : Thread R H} (v' gain : Multiset Nat)
    (hsum : ∑ t, (visited t + L.pending (c.threads t)) =
      Multiset.Ico 0 (min c.shared.next L.limit))
    (htrack : ∀ t, L.Tracks P c.shared.next (visited t) (c.threads t))
    (hQ : Q s'.bound)
    (hnext : c.shared.next ≤ s'.next)
    (hgain : v' + L.pending th' = visited t + L.pending (c.threads t) + gain)
    (hrange : Multiset.Ico 0 (min c.shared.next L.limit) + gain =
      Multiset.Ico 0 (min s'.next L.limit))
    (hth' : L.Tracks P s'.next v' th') :
    L.Inv P Q ⟨s', Function.update c.threads t th'⟩ := by
  refine ⟨hQ, Function.update visited t v', ?_, ?_⟩
  · rw [sum_update visited c.threads t v' th' gain hgain, hsum, hrange]
  · intro i
    by_cases hi : i = t
    · subst hi
      simpa using hth'
    · simpa [hi] using (htrack i).mono hnext

variable [DecidableEq ι] [LinearOrder R]

theorem Inv.retry {guard : H → Prop} (hL : L.Sound P Q guard)
    {c : Config ι (Shared R) (Thread R H)} (hc : L.Inv P Q c) {t : ι}
    (hload : ∀ lo, (c.threads t).pc ≠ .load lo) :
    ∃ s' th', L.retry c.shared (c.threads t).work = some (s', th') ∧
      L.Inv P Q ⟨s', Function.update c.threads t th'⟩ := by
  obtain ⟨hQ, visited, hsum, htrack⟩ := hc
  obtain ⟨r, hr⟩ := hL.top _ _ (htrack t).work
  refine ⟨_, _, by simp only [Loop.retry, hr]; rfl, ?_⟩
  have hload' : ∀ lo, (if c.shared.bound ≤ ↑r then Pc.fetch else .exchange c.shared.bound) ≠
      .load lo := by
    intro lo
    split <;> simp
  refine Inv.update (visited t) 0 hsum htrack hQ le_rfl ?_ (add_zero _)
    ((htrack t).move hload hload' (by split <;> simp))
  rw [pending_eq_zero hload, pending_eq_zero hload', add_zero, add_zero]

/-- A claim: the thread has the positions up to the end of the morsel to scan. -/
theorem Inv.fetch {guard : H → Prop} (hL : L.Sound P Q guard)
    {c : Config ι (Shared R) (Thread R H)} (hc : L.Inv P Q c) {t : ι} (weakFailure : Bool)
    (hpc : (c.threads t).pc = .fetch) :
    ∃ s' th', L.act weakFailure c.shared (c.threads t) = some (s', th') ∧
      L.Inv P Q ⟨s', Function.update c.threads t th'⟩ := by
  obtain ⟨hQ, visited, hsum, htrack⟩ := hc
  have ht := htrack t
  have hp0 : L.pending (c.threads t) = 0 := pending_eq_zero (by simp [hpc])
  have hbelow : ∀ i ∈ visited t, i < c.shared.next := by
    intro i hi
    simpa [frontier, hpc] using ht.below i hi
  by_cases hlim : L.limit ≤ c.shared.next
  · refine ⟨_, _, by simp only [Loop.act, hpc, if_pos hlim]; rfl, ?_⟩
    refine Inv.update (visited t) 0 hsum htrack hQ (Nat.le_add_right _ _) ?_ ?_ ?_
    · rw [hp0, add_zero]
      rfl
    · rw [add_zero, Nat.min_eq_right hlim, Nat.min_eq_right (hlim.trans (Nat.le_add_right _ _))]
    · exact ⟨ht.work, fun i hi => (hbelow i hi).trans_le (Nat.le_add_right _ _), by simp,
        fun _ => hlim.trans (Nat.le_add_right _ _)⟩
  · refine ⟨_, _, by simp only [Loop.act, hpc, if_neg hlim]; rfl, ?_⟩
    refine Inv.update (visited t) (Multiset.Ico c.shared.next (L.claimEnd c.shared.next)) hsum
      htrack hQ (Nat.le_add_right _ _) ?_ ?_ ?_
    · rw [hp0, add_zero]
      rfl
    · have hend : min (c.shared.next + L.step) L.limit = L.claimEnd c.shared.next := by
        unfold claimEnd
        omega
      have hlt := lt_claimEnd hL.step_pos (Nat.lt_of_not_le hlim)
      simp only [hend]
      rw [Nat.min_eq_left (by omega), Multiset.Ico_add_Ico_eq_Ico (Nat.zero_le _) hlt.le]
    · refine ⟨ht.work, hbelow, ?_, by simp⟩
      intro lo hlo
      obtain rfl : c.shared.next = lo := by simpa using hlo
      exact ⟨Nat.lt_of_not_le hlim, Nat.lt_add_of_pos_right hL.step_pos⟩

/-- A scan: what was pending is visited. -/
theorem Inv.load {guard : H → Prop} (hL : L.Sound P Q guard)
    {c : Config ι (Shared R) (Thread R H)} (hc : L.Inv P Q c) {t : ι} (weakFailure : Bool)
    {lo : Nat} (hpc : (c.threads t).pc = .load lo) :
    ∃ s' th', L.act weakFailure c.shared (c.threads t) = some (s', th') ∧
      L.Inv P Q ⟨s', Function.update c.threads t th'⟩ := by
  obtain ⟨hQ, visited, hsum, htrack⟩ := hc
  have ht := htrack t
  obtain ⟨hlo, hlon⟩ := ht.claim lo hpc
  have hbelow : ∀ i ∈ visited t, i < lo := by
    intro i hi
    simpa [frontier, hpc] using ht.below i hi
  obtain ⟨w', hw', hP'⟩ := hL.scan _ _ lo _ hlo hbelow ht.work hQ
  obtain ⟨r, hr⟩ := hL.top _ _ hP'
  refine ⟨_, _, by simp only [Loop.act, hpc, hw', Option.bind_some, hr]; rfl, ?_⟩
  have hload' : ∀ lo', (if (r : WithTop R) < c.shared.bound then Pc.reload else .fetch) ≠
      (.load lo' : Pc R) := by
    intro lo'
    split <;> simp
  have hsub : visited t + L.pending (c.threads t) ≤ Multiset.Ico 0 (min c.shared.next L.limit) := by
    rw [← hsum]
    exact Finset.single_le_sum (f := fun t => visited t + L.pending (c.threads t))
      (fun i _ => Multiset.zero_le _) (Finset.mem_univ t)
  have hpend : L.pending (c.threads t) = Multiset.Ico lo (L.claimEnd lo) := by
    simp [pending, hpc]
  refine Inv.update (visited t + Multiset.Ico lo (L.claimEnd lo)) 0 hsum htrack hQ le_rfl ?_
    (add_zero _) ?_
  · rw [hpend, pending_eq_zero hload', add_zero]
  · refine ⟨hP', ?_, fun lo' h => absurd h (hload' lo'), fun h => ?_⟩
    · intro i hi
      rw [← hpend] at hi
      have hmem := Multiset.mem_of_le hsub hi
      rw [Multiset.mem_Ico] at hmem
      rw [frontier_eq hload']
      omega
    · split at h <;> simp at h

/-- A successful exchange publishes the bound of a thread that keeps `guard`. -/
theorem Inv.exchange {guard : H → Prop} (hL : L.Sound P Q guard)
    {c : Config ι (Shared R) (Thread R H)} (hc : L.Inv P Q c) {t : ι} {weakFailure : Bool}
    {expected : WithTop R} (hpc : (c.threads t).pc = .exchange expected)
    (hok : Publishes c (t, weakFailure) → guard (c.threads t).work) :
    ∃ s' th', L.act weakFailure c.shared (c.threads t) = some (s', th') ∧
      L.Inv P Q ⟨s', Function.update c.threads t th'⟩ := by
  have hload : ∀ lo, (c.threads t).pc ≠ .load lo := by simp [hpc]
  simp only [Loop.act, hpc]
  split
  · rename_i hs
    obtain ⟨hQ, visited, hsum, htrack⟩ := hc
    have ht := htrack t
    obtain ⟨r, hr⟩ := hL.top _ _ ht.work
    refine ⟨_, _, by simp only [hr]; rfl, ?_⟩
    have hguard := hok ⟨by rw [hpc, hs.1], hs.2⟩
    have hQr : Q r := hL.publish _ _ r (Inv.visited_le hsum t) ht.work hguard hr
    refine Inv.update (visited t) 0 hsum htrack hQr le_rfl ?_ (add_zero _)
      (ht.move hload (by simp) (by simp))
    rw [pending_eq_zero hload, pending_eq_zero (by simp), add_zero, add_zero]
  · exact hc.retry hL hload

/-- One step keeps the invariant, if a successful exchange is made under `guard`. -/
theorem Inv.step {guard : H → Prop} (hL : L.Sound P Q guard)
    (c : Config ι (Shared R) (Thread R H)) (x : ι × Bool) (hc : L.Inv P Q c)
    (hok : Publishes c x → guard (c.threads x.1).work) :
    ∃ c', Interleaving.step L.act c x = some c' ∧ L.Inv P Q c' := by
  suffices h : ∃ s' th', L.act x.2 c.shared (c.threads x.1) = some (s', th') ∧
      L.Inv P Q ⟨s', Function.update c.threads x.1 th'⟩ by
    obtain ⟨s', th', hact, hinv⟩ := h
    exact ⟨_, step_of_act hact, hinv⟩
  cases hpc : (c.threads x.1).pc with
  | fetch => exact hc.fetch hL x.2 hpc
  | load lo => exact hc.load hL x.2 hpc
  | reload =>
    simp only [Loop.act, hpc]
    exact hc.retry hL (by simp [hpc])
  | exchange expected => exact hc.exchange hL hpc hok
  | done =>
    refine ⟨c.shared, c.threads x.1, by simp [Loop.act, hpc], ?_⟩
    rwa [Function.update_eq_self]

omit [DecidableEq ι] [LinearOrder R] in
/-- The start of a task: the counter is zero and nothing has been scanned. -/
theorem inv_start {s : Shared R} {work : ι → H} (hnext : s.next = 0) (hQ : Q s.bound)
    (hP : ∀ t, P 0 (work t)) : L.Inv P Q ⟨s, fun t => ⟨.fetch, work t⟩⟩ := by
  refine ⟨hQ, fun _ => 0, ?_, ?_⟩
  · simp [pending, hnext]
  · intro t
    exact ⟨hP t, by simp, by simp, by simp⟩

/-- The rule for runs. No step of the run is at fault; and once all threads have
finished, the positions below the limit are divided among them. -/
theorem submit_sound [Nonempty ι] {guard : H → Prop} (hL : L.Sound P Q guard)
    {s : Shared R} {work : ι → H} (hnext : s.next = 0) (hQ : Q s.bound)
    (hP : ∀ t, P 0 (work t)) {sched : List (ι × Bool)}
    (hok : Along L.act (fun c x => Publishes c x → guard (c.threads x.1).work) sched
      ⟨s, fun t => ⟨.fetch, work t⟩⟩) :
    (complete L.act isDone sched ⟨s, fun t => ⟨.fetch, work t⟩⟩).Ensures fun c =>
      ∃ visited : ι → Multiset Nat,
        ∑ t, visited t = Multiset.Ico 0 L.limit ∧ ∀ t, P (visited t) (c.threads t).work := by
  refine (complete_ensures (L.Inv P Q) (Inv.step hL) (inv_start hnext hQ hP) hok).mono ?_
  rintro c ⟨⟨-, visited, hsum, htrack⟩, hdone⟩
  refine ⟨visited, ?_, fun t => (htrack t).work⟩
  obtain ⟨t₀⟩ := ‹Nonempty ι›
  have hlim := (htrack t₀).finished (pc_of_isDone (hdone t₀))
  have hp : ∀ t, L.pending (c.threads t) = 0 :=
    fun t => pending_eq_zero (by simp [pc_of_isDone (hdone t)])
  simpa only [hp, add_zero, Nat.min_eq_right hlim] using hsum

end Rule

/-- A thread alone with its first claim: its scan is at fault, or it has a value to
publish and goes on. -/
theorem complete_first_claim [Fintype ι] [DecidableEq ι] [LinearOrder R] (hlimit : 0 < L.limit)
    {c : Config ι (Shared R) (Thread R H)} (hnext : c.shared.next = 0) {t : ι}
    (hfetch : (c.threads t).pc = .fetch) :
    complete L.act isDone [(t, false), (t, false)] c =
      if ((L.scan c.shared.bound 0 (L.claimEnd 0) (c.threads t).work).bind L.top).isSome then
        .blocked
      else .fault := by
  have hclaim : Interleaving.step L.act c (t, false) = some ⟨{ c.shared with next := L.step },
      Function.update c.threads t ⟨.load 0, (c.threads t).work⟩⟩ := by
    apply step_of_act
    simp [act, hfetch, hnext, hlimit.ne']
  rw [complete, run, hclaim, Option.bind_some]
  simp only [run, Interleaving.step, Function.update_self, act]
  cases L.scan c.shared.bound 0 (L.claimEnd 0) (c.threads t).work with
  | none => rfl
  | some w =>
    rcases Option.eq_none_or_eq_some (L.top w) with htop | ⟨r, htop⟩
    · simp only [Option.bind_some, htop]
      rfl
    · simp only [Option.bind_some, htop, Option.map_some, Option.isSome_some, if_true]
      refine if_neg fun hdone => ?_
      have ht := pc_of_isDone (hdone t)
      simp only [Function.update_self] at ht
      split at ht <;> cases ht

end Loop

end Spheres.Library.MorselLoop
