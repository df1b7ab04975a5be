import Spheres.Library.MorselLoop

/-!
# The positions that the threads run over

`visits` collects the positions of the claims that the steps of a run scan, the
claim of a step at fault included. Whatever the scans do, these are positions
below the limit, each at most once; and when all threads have left the loop,
they are all positions below the limit. A thread alone gets as far as its scans
succeed (`exists_visit`).
-/

namespace Spheres.Library.MorselLoop.Loop

open Interleaving

variable {ι R H : Type*} [DecidableEq ι] [LinearOrder R]

/-- A step scans the claim of its thread. -/
def visits (L : Loop R H) : List (ι × Bool) → Config ι (Shared R) (Thread R H) → Multiset Nat
  | [], _ => 0
  | x :: xs, c => L.pending (c.threads x.1) + (Interleaving.step L.act c x).elim 0 (visits L xs)

variable {L : Loop R H} {c c' : Config ι (Shared R) (Thread R H)}

theorem visits_cons_of_step {x : ι × Bool} {xs : List (ι × Bool)}
    (h : Interleaving.step L.act c x = some c') :
    L.visits (x :: xs) c = L.pending (c.threads x.1) + L.visits xs c' := by
  rw [visits, h, Option.elim_some]

theorem visits_append {xs ys : List (ι × Bool)} (h : run L.act xs c = some c') :
    L.visits (xs ++ ys) c = L.visits xs c + L.visits ys c' := by
  induction xs generalizing c with
  | nil =>
    obtain rfl := Option.some.inj h
    rw [List.nil_append, visits, zero_add]
  | cons x xs ih =>
    obtain ⟨d, hd, hrest⟩ := run_cons.mp h
    rw [List.cons_append, visits_cons_of_step hd, visits_cons_of_step hd, ih hrest, add_assoc]

/-! ## Each position once -/

section Once

variable [Fintype ι] {V : Multiset Nat}

/-- The positions `V` that were scanned and the ones that are claimed are those
below the counter. -/
structure Accounted (L : Loop R H) (V : Multiset Nat) (c : Config ι (Shared R) (Thread R H)) :
    Prop where
  sum : V + ∑ t, L.pending (c.threads t) = Multiset.Ico 0 (min c.shared.next L.limit)
  finished : ∀ t, (c.threads t).pc = .done → L.limit ≤ c.shared.next

omit [DecidableEq ι] [LinearOrder R] in
theorem Accounted.pending_le (h : L.Accounted V c) (t : ι) :
    V + L.pending (c.threads t) ≤ Multiset.Ico 0 L.limit := by
  have hterm : L.pending (c.threads t) ≤ ∑ i, L.pending (c.threads i) :=
    Finset.single_le_sum (f := fun i => L.pending (c.threads i)) (fun i _ => Multiset.zero_le _)
      (Finset.mem_univ t)
  refine (add_le_add_right hterm V).trans (h.sum.trans_le ?_)
  refine (Multiset.le_iff_subset Multiset.nodup_Ico).mpr fun i hi => ?_
  rw [Multiset.mem_Ico] at hi ⊢
  omega

omit [LinearOrder R] in
/-- A thread has scanned its claim and has a new one, or none. -/
theorem Accounted.replace (h : L.Accounted V c) {t : ι} {s' : Shared R} {th' : Thread R H}
    (hnext : c.shared.next ≤ s'.next)
    (hclaim : Multiset.Ico 0 (min c.shared.next L.limit) + L.pending th' =
      Multiset.Ico 0 (min s'.next L.limit))
    (hdone : th'.pc = .done → L.limit ≤ s'.next) :
    L.Accounted (V + L.pending (c.threads t)) ⟨s', Function.update c.threads t th'⟩ where
  sum := by
    rw [add_assoc, sum_threads_update L.pending, ← add_assoc, h.sum, hclaim]
  finished := by
    intro i (hi : (Function.update c.threads t th' i).pc = .done)
    by_cases hit : i = t
    · subst hit
      rw [Function.update_self] at hi
      exact hdone hi
    · rw [Function.update_of_ne hit] at hi
      exact (h.finished i hi).trans hnext

omit [LinearOrder R] in
/-- No claim is left of a thread that does not stand before a scan. -/
theorem Accounted.replace_idle (h : L.Accounted V c) {t : ι} {s' : Shared R} {th' : Thread R H}
    (hnext : s'.next = c.shared.next) (hload : ∀ lo, th'.pc ≠ .load lo) (hdone : th'.pc ≠ .done) :
    L.Accounted (V + L.pending (c.threads t)) ⟨s', Function.update c.threads t th'⟩ := by
  apply h.replace hnext.ge
  · rw [pending_eq_zero hload, add_zero, hnext]
  · exact fun hd => absurd hd hdone

theorem Accounted.step (h : L.Accounted V c) {x : ι × Bool}
    (hstep : Interleaving.step L.act c x = some c') :
    L.Accounted (V + L.pending (c.threads x.1)) c' := by
  obtain ⟨s', th', hact, rfl⟩ := step_eq_some hstep
  rcases act_cases hact with ⟨-, hlimit, hnext, rfl⟩ | ⟨-, hlimit, hnext, rfl⟩ |
    ⟨hnext, hload, hdone⟩ | ⟨hpc, rfl, rfl⟩
  · have hend : min (c.shared.next + L.step) L.limit = L.claimEnd c.shared.next := by
      rw [claimEnd, Nat.min_comm, Nat.add_comm]
    have hle : c.shared.next ≤ L.claimEnd c.shared.next := by
      unfold claimEnd
      omega
    apply h.replace (by omega)
    · rw [pending_load, hnext, hend, Nat.min_eq_left hlimit.le,
        Multiset.Ico_add_Ico_eq_Ico (Nat.zero_le _) hle]
    · exact nofun
  · have hlimit' : L.limit ≤ s'.next := by omega
    apply h.replace (by omega)
    · show _ + 0 = _
      rw [add_zero, Nat.min_eq_right hlimit, Nat.min_eq_right hlimit']
    · exact fun _ => hlimit'
  · exact h.replace_idle hnext hload hdone
  · apply h.replace le_rfl
    · rw [pending_eq_zero (by simp [hpc]), add_zero]
    · exact h.finished x.1

theorem Accounted.visits_le {xs : List (ι × Bool)} (h : L.Accounted V c) [Nonempty ι] :
    V + L.visits xs c ≤ Multiset.Ico 0 L.limit := by
  induction xs generalizing c V with
  | nil =>
    rw [visits, add_zero]
    exact (Multiset.le_add_right _ _).trans (h.pending_le (Classical.arbitrary ι))
  | cons x xs ih =>
    cases hd : Interleaving.step L.act c x with
    | none =>
      rw [visits, hd, Option.elim_none, add_zero]
      exact h.pending_le x.1
    | some d =>
      rw [visits_cons_of_step hd, ← add_assoc]
      exact ih (h.step hd)

theorem Accounted.run {xs : List (ι × Bool)} (h : L.Accounted V c)
    (hrun : Interleaving.run L.act xs c = some c') : L.Accounted (V + L.visits xs c) c' := by
  induction xs generalizing c V with
  | nil =>
    obtain rfl := Option.some.inj hrun
    rw [visits, add_zero]
    exact h
  | cons x xs ih =>
    obtain ⟨d, hd, hrest⟩ := run_cons.mp hrun
    rw [visits_cons_of_step hd, ← add_assoc]
    exact ih (h.step hd) hrest

omit [DecidableEq ι] [LinearOrder R] in
theorem accounted_start (hnext : c.shared.next = 0) (hfetch : ∀ t, (c.threads t).pc = .fetch) :
    L.Accounted 0 c where
  sum := by
    have hnone : ∑ t, L.pending (c.threads t) = 0 :=
      Finset.sum_eq_zero fun t _ => pending_eq_zero (by simp [hfetch t])
    rw [hnone, hnext, Nat.zero_min, Multiset.Ico_self, add_zero]
  finished := by
    intro t ht
    rw [hfetch t] at ht
    cases ht

/-- The rule for the positions of a task. -/
theorem visits_start [Nonempty ι] (hnext : c.shared.next = 0)
    (hfetch : ∀ t, (c.threads t).pc = .fetch) (sched : List (ι × Bool)) :
    L.visits sched c ≤ Multiset.Ico 0 L.limit ∧
      ∀ c', complete L.act isDone sched c = .returned c' →
        L.visits sched c = Multiset.Ico 0 L.limit := by
  have hstart : L.Accounted 0 c := accounted_start hnext hfetch
  constructor
  · have hle : 0 + L.visits sched c ≤ Multiset.Ico 0 L.limit := hstart.visits_le
    rwa [zero_add] at hle
  · intro c' hc
    obtain ⟨hrun, hdone⟩ := complete_eq_returned.mp hc
    have hend := hstart.run hrun
    have hpc : ∀ t, (c'.threads t).pc = .done := fun t => pc_of_isDone (hdone t)
    have hnone : ∑ t, L.pending (c'.threads t) = 0 :=
      Finset.sum_eq_zero fun t _ => pending_eq_zero (by simp [hpc t])
    have hlimit := hend.finished (Classical.arbitrary ι) (hpc _)
    have hsum := hend.sum
    rwa [hnone, add_zero, zero_add, Nat.min_eq_right hlimit] at hsum

end Once

/-! ## One thread alone -/

theorem step_solo {f : ι → Thread R H} {t : ι} {b : Bool} {s s' : Shared R} {th th' : Thread R H}
    (h : L.act b s th = some (s', th')) :
    Interleaving.step L.act ⟨s, Function.update f t th⟩ (t, b) =
      some ⟨s', Function.update f t th'⟩ := by
  have hact : L.act b s (Function.update f t th t) = some (s', th') := by
    rw [Function.update_self]
    exact h
  rw [step_of_act hact, Function.update_idem]

/-- A claim of a thread whose scan succeeds, with the publication of its value. -/
theorem exists_claim {f : ι → Thread R H} {t : ι} {s : Shared R} {work w : H} {r : R}
    (hnext : s.next < L.limit) (hscan : L.scan s.bound s.next (L.claimEnd s.next) work = some w)
    (htop : L.top w = some r) :
    ∃ xs s', Interleaving.run L.act xs ⟨s, Function.update f t ⟨.fetch, work⟩⟩ =
      some ⟨s', Function.update f t ⟨.fetch, w⟩⟩ ∧ s'.next = s.next + L.step := by
  have hfetch : L.act false s ⟨.fetch, work⟩ =
      some ({ s with next := s.next + L.step }, ⟨.load s.next, work⟩) := by
    simp only [act, if_neg hnext.not_ge]
  have hload : L.act false { s with next := s.next + L.step } ⟨.load s.next, work⟩ =
      some ({ s with next := s.next + L.step },
        ⟨if (r : WithTop R) < s.bound then .reload else .fetch, w⟩) := by
    simp only [act, hscan, Option.bind_some, htop, Option.map_some]
  by_cases hlt : (r : WithTop R) < s.bound
  · have hreload : L.act false { s with next := s.next + L.step } ⟨.reload, w⟩ =
        some ({ s with next := s.next + L.step }, ⟨.exchange s.bound, w⟩) := by
      simp only [act, Loop.retry, htop, Option.map_some, if_neg hlt.not_ge]
    have hexchange : L.act false { s with next := s.next + L.step } ⟨.exchange s.bound, w⟩ =
        some (⟨s.next + L.step, r, s.tally⟩, ⟨.fetch, w⟩) := by
      simp only [act, htop, Option.map_some, and_self, if_true]
    rw [if_pos hlt] at hload
    exact ⟨[(t, false), (t, false), (t, false), (t, false)], _,
      run_cons.mpr ⟨_, step_solo hfetch, run_cons.mpr ⟨_, step_solo hload,
        run_cons.mpr ⟨_, step_solo hreload, run_cons.mpr ⟨_, step_solo hexchange, rfl⟩⟩⟩⟩, rfl⟩
  · rw [if_neg hlt] at hload
    exact ⟨[(t, false), (t, false)], _,
      run_cons.mpr ⟨_, step_solo hfetch, run_cons.mpr ⟨_, step_solo hload, rfl⟩⟩, rfl⟩

/-- A thread alone scans position `p`, if the scans of the claims before it succeed. -/
theorem exists_visit {P : H → Prop} {p : Nat} (hstep : 0 < L.step) (hp : p < L.limit)
    (hscan : ∀ b lo w, L.claimEnd lo ≤ p → P w →
      ∃ w' r, L.scan b lo (L.claimEnd lo) w = some w' ∧ L.top w' = some r ∧ P w')
    {f : ι → Thread R H} {t : ι} {s : Shared R} {work : H} (hwork : P work) (hnext : s.next ≤ p) :
    ∃ xs, p ∈ L.visits xs ⟨s, Function.update f t ⟨.fetch, work⟩⟩ := by
  induction hn : p - s.next using Nat.strong_induction_on generalizing s work with
  | _ n ih =>
    have hlimit : s.next < L.limit := hnext.trans_lt hp
    by_cases hend : L.claimEnd s.next ≤ p
    · obtain ⟨w, r, hrun, htop, hw⟩ := hscan s.bound s.next work hend hwork
      obtain ⟨xs, s', hxs, hnext'⟩ := exists_claim (f := f) (t := t) hlimit hrun htop
      have hle : s.next + L.step ≤ p := by
        unfold claimEnd at hend
        omega
      obtain ⟨ys, hys⟩ := ih (p - s'.next) (by omega) hw (hnext'.trans_le hle) rfl
      refine ⟨xs ++ ys, ?_⟩
      rw [visits_append hxs]
      exact Multiset.mem_add.mpr (Or.inr hys)
    · have hfetch : L.act false s ⟨.fetch, work⟩ =
          some ({ s with next := s.next + L.step }, ⟨.load s.next, work⟩) := by
        simp only [act, if_neg hlimit.not_ge]
      refine ⟨[(t, false), (t, false)], ?_⟩
      rw [visits_cons_of_step (step_solo hfetch), visits]
      apply Multiset.mem_add.mpr
      refine Or.inr (Multiset.mem_add.mpr (Or.inl ?_))
      simp only [Function.update_self, pending_load, Multiset.mem_Ico]
      exact ⟨hnext, Nat.lt_of_not_le hend⟩

end Spheres.Library.MorselLoop.Loop
