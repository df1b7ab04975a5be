import Mathlib.Algebra.Order.Floor.Div
import Spheres.Library.MorselProgress

/-!
# How far the counter gets

Every claim adds the step to the counter, and so does the last fetch of every
thread, which finds nothing left. A run therefore ends with the counter at the
step times the number of claims and threads, and no run gets further. On a
machine the counter stays exact as long as its type has room for that.
-/

namespace Spheres.Library.MorselLoop.Loop

open Interleaving

variable {ι R H : Type*} [Fintype ι] [DecidableEq ι] [LinearOrder R] {L : Loop R H}

/-- The number of claims that cover the positions below the limit. -/
def claimCount (L : Loop R H) : Nat := L.limit ⌈/⌉ L.step

/-- The number of threads that have left the loop. -/
def left (c : Config ι (Shared R) (Thread R H)) : Nat :=
  ∑ t, if isDone (c.threads t) = true then 1 else 0

/-- The counter has moved for every claim and for every thread that has left; no
thread leaves before the last claim. -/
def Counted (L : Loop R H) (c : Config ι (Shared R) (Thread R H)) : Prop :=
  ∃ m ≤ L.claimCount, c.shared.next = L.step * (m + left c) ∧
    (0 < left c → m = L.claimCount)

variable {c c' : Config ι (Shared R) (Thread R H)}

omit [DecidableEq ι] [LinearOrder R] in
theorem left_le (c : Config ι (Shared R) (Thread R H)) : left c ≤ Fintype.card ι := by
  calc left c ≤ ∑ _t : ι, 1 := Finset.sum_le_sum fun t _ => by split <;> decide
    _ = Fintype.card ι := by simp

omit [DecidableEq ι] [LinearOrder R] in
theorem left_eq_card (h : ∀ t, isDone (c.threads t) = true) : left c = Fintype.card ι := by
  simp [left, h]

omit [LinearOrder R] in
/-- Replacing one thread. -/
theorem left_update (c : Config ι (Shared R) (Thread R H)) (s' : Shared R) (t : ι)
    (th' : Thread R H) :
    (if isDone (c.threads t) = true then 1 else 0) + left ⟨s', Function.update c.threads t th'⟩ =
      left c + if isDone th' = true then 1 else 0 :=
  sum_threads_update (fun th => if isDone th = true then 1 else 0) c.threads t th'

omit [LinearOrder R] in
theorem isDone_eq_false {t : Thread R H} (h : t.pc ≠ .done) : isDone t = false := by
  cases hdone : isDone t with
  | false => rfl
  | true => exact absurd (pc_of_isDone hdone) h

omit [LinearOrder R] in
theorem le_step_mul_claimCount (hstep : 0 < L.step) : L.limit ≤ L.step * L.claimCount :=
  le_smul_ceilDiv hstep

omit [DecidableEq ι] [LinearOrder R] in
theorem Counted.start {s : Shared R} {work : ι → H} (hnext : s.next = 0) :
    L.Counted ⟨s, fun t => ⟨.fetch, work t⟩⟩ := by
  have hleft : left (⟨s, fun t => ⟨.fetch, work t⟩⟩ : Config ι (Shared R) (Thread R H)) = 0 := by
    simp [left, isDone]
  refine ⟨0, Nat.zero_le _, ?_, ?_⟩
  · rw [hleft, Nat.zero_add, Nat.mul_zero, hnext]
  · rw [hleft]
    exact fun h => absurd h (lt_irrefl 0)

omit [LinearOrder R] in
/-- Something is left to claim: no thread has left. -/
theorem Counted.claim (h : L.Counted c) (hlt : c.shared.next < L.limit) {s' : Shared R}
    (hnext : s'.next = c.shared.next + L.step) {t : ι} {th' : Thread R H}
    (hpc : (c.threads t).pc ≠ .done) (hpc' : th'.pc ≠ .done) :
    L.Counted ⟨s', Function.update c.threads t th'⟩ := by
  obtain ⟨m, hm, heq, hall⟩ := h
  have hleft := left_update c s' t th'
  simp only [isDone_eq_false hpc, isDone_eq_false hpc', Bool.false_eq_true, if_false, Nat.zero_add,
    Nat.add_zero] at hleft
  rcases Nat.eq_zero_or_pos L.step with hzero | hstep
  · refine ⟨m, hm, ?_, hleft ▸ hall⟩
    show s'.next = _
    rw [hnext, hleft, heq, hzero, Nat.zero_mul, Nat.add_zero]
  · have hnone : left c = 0 := by
      apply Nat.eq_zero_of_not_pos
      intro hpos
      have hcover := le_step_mul_claimCount hstep
      rw [heq, hall hpos, Nat.mul_add] at hlt
      omega
    rw [heq, hnone, Nat.add_zero] at hlt
    have hm' : m < L.claimCount := by
      by_contra hge
      exact hlt.not_ge ((le_step_mul_claimCount hstep).trans
        (Nat.mul_le_mul_left _ (Nat.le_of_not_lt hge)))
    refine ⟨m + 1, hm', ?_, ?_⟩
    · show s'.next = _
      rw [hnext, hleft, heq, hnone, Nat.add_zero, Nat.add_zero, Nat.mul_succ]
    · rw [hleft, hnone]
      exact fun hpos => absurd hpos (lt_irrefl 0)

omit [LinearOrder R] in
/-- Nothing is left to claim: a thread leaves. -/
theorem Counted.leave (h : L.Counted c) (hle : L.limit ≤ c.shared.next) {s' : Shared R}
    (hnext : s'.next = c.shared.next + L.step) {t : ι} {th' : Thread R H}
    (hpc : (c.threads t).pc ≠ .done) (hpc' : th'.pc = .done) :
    L.Counted ⟨s', Function.update c.threads t th'⟩ := by
  obtain ⟨m, hm, heq, hall⟩ := h
  have hleft := left_update c s' t th'
  simp only [isDone_eq_false hpc, isDone_iff.mpr hpc', Bool.false_eq_true, if_false, if_true,
    Nat.zero_add] at hleft
  have hlast : m = L.claimCount := by
    rcases Nat.eq_zero_or_pos (left c) with hnone | hpos
    · refine le_antisymm hm ?_
      rw [heq, hnone, Nat.add_zero] at hle
      rcases Nat.eq_zero_or_pos L.step with hzero | hstep
      · rw [claimCount, hzero, ceilDiv_zero]
        exact Nat.zero_le _
      · exact (ceilDiv_le_iff_le_smul hstep).mpr hle
    · exact hall hpos
  refine ⟨m, hm, ?_, fun _ => hlast⟩
  show s'.next = _
  rw [hnext, hleft, heq, ← Nat.add_assoc m, Nat.mul_succ]

theorem Counted.step (h : L.Counted c) {x : ι × Bool}
    (hrun : Interleaving.step L.act c x = some c') : L.Counted c' := by
  obtain ⟨s', th', hact, rfl⟩ := step_eq_some hrun
  rcases act_cases hact with ⟨hpc, hlt, hnext, rfl⟩ | ⟨hpc, hle, hnext, rfl⟩ |
    ⟨hnext, -, hdone⟩ | ⟨hpc, rfl, rfl⟩
  · exact h.claim hlt hnext (by rw [hpc]; exact nofun) nofun
  · exact h.leave hle hnext (by rw [hpc]; exact nofun) rfl
  · have hpc : (c.threads x.1).pc ≠ .done := by
      intro hpc
      simp only [act, hpc, Option.some.injEq, Prod.mk.injEq] at hact
      exact hdone (hact.2 ▸ hpc)
    have hleft := left_update c s' x.1 th'
    simp only [isDone_eq_false hpc, isDone_eq_false hdone, Bool.false_eq_true, if_false,
      Nat.zero_add, Nat.add_zero] at hleft
    obtain ⟨m, hm, heq, hall⟩ := h
    exact ⟨m, hm, by rw [hleft, ← heq]; exact hnext, hleft ▸ hall⟩
  · rw [Function.update_eq_self]
    exact h

theorem Counted.run (h : L.Counted c) {sched : List (ι × Bool)}
    (hrun : Interleaving.run L.act sched c = some c') : L.Counted c' :=
  run_keeps (Counted L) (fun _ _ _ hc hstep => hc.step hstep) h hrun

omit [DecidableEq ι] [LinearOrder R] in
theorem Counted.next_le (h : L.Counted c) :
    c.shared.next ≤ L.step * (L.claimCount + Fintype.card ι) := by
  obtain ⟨m, hm, heq, -⟩ := h
  rw [heq]
  exact Nat.mul_le_mul_left _ (Nat.add_le_add hm (left_le c))

omit [DecidableEq ι] [LinearOrder R] in
/-- At the end all claims were made and every thread has fetched once more. -/
theorem Counted.next_eq [Nonempty ι] (h : L.Counted c)
    (hdone : ∀ t, isDone (c.threads t) = true) :
    c.shared.next = L.step * (L.claimCount + Fintype.card ι) := by
  obtain ⟨m, -, heq, hall⟩ := h
  rw [left_eq_card hdone] at heq hall
  rw [heq, hall Fintype.card_pos]

/-! ## Runs that end -/

/-- With a positive step every schedule with enough turns comes to an end, be it at a
fault. -/
theorem complete_ends (hstep : 0 < L.step ∨ L.limit = 0) {s : Shared R} {work : ι → H} (hnext : s.next = 0)
    {sched : List (ι × Bool)}
    (hturns : ∀ t, (Fintype.card ι + 5) * L.limit + Fintype.card ι <
      turns (fun weakFailure => !weakFailure) t sched) :
    complete L.act isDone sched ⟨s, fun t => ⟨.fetch, work t⟩⟩ ≠ .blocked := by
  apply complete_ne_blocked (fun _ => True) (total L) (fun weakFailure => !weakFailure)
    (fun c x c' _ _ hrun => ⟨trivial, total_step hstep hrun⟩) trivial (along_true sched _)
  intro t
  right
  have htotal : total L ⟨s, fun t : ι => ⟨.fetch, work t⟩⟩ =
      (Fintype.card ι + 5) * L.limit + Fintype.card ι := by
    simp [total, claims, cost, hnext]
  rw [htotal]
  exact hturns t

omit [Fintype ι] in
/-- A loop whose scans and tops always have a value is never at fault. -/
theorem run_ne_none {P : H → Prop}
    (hscan : ∀ b lo w, P w → ∃ w', L.scan b lo (L.claimEnd lo) w = some w' ∧ P w')
    (htop : ∀ w, P w → ∃ r, L.top w = some r) (hP : ∀ t, P (c.threads t).work)
    (sched : List (ι × Bool)) : ∃ c', Interleaving.run L.act sched c = some c' := by
  have hretry : ∀ s w, P w → ∃ s' t', L.retry s w = some (s', t') ∧ P t'.work := by
    intro s w hw
    obtain ⟨r, hr⟩ := htop w hw
    exact ⟨_, _, by rw [retry, hr]; rfl, hw⟩
  have hact : ∀ (c : Config ι (Shared R) (Thread R H)) (x : ι × Bool),
      (∀ t, P (c.threads t).work) →
      ∃ c', Interleaving.step L.act c x = some c' ∧ ∀ t, P (c'.threads t).work := by
    intro c x hP
    have hx := hP x.1
    obtain ⟨s', t', hrun, hw⟩ : ∃ s' t', L.act x.2 c.shared (c.threads x.1) = some (s', t') ∧
        P t'.work := by
      unfold act
      cases hpc : (c.threads x.1).pc with
      | fetch =>
        simp only
        split <;> exact ⟨_, _, rfl, hx⟩
      | load lo =>
        obtain ⟨w, hw, hPw⟩ := hscan c.shared.bound lo _ hx
        obtain ⟨r, hr⟩ := htop w hPw
        simp only [hw, hr, Option.bind_some, Option.map_some]
        exact ⟨_, _, rfl, hPw⟩
      | reload => exact hretry _ _ hx
      | exchange expected =>
        simp only
        split
        · obtain ⟨r, hr⟩ := htop _ hx
          simp only [hr, Option.map_some]
          exact ⟨_, _, rfl, hx⟩
        · exact hretry _ _ hx
      | done => exact ⟨_, _, rfl, hx⟩
    refine ⟨_, step_of_act hrun, fun t => ?_⟩
    by_cases ht : t = x.1
    · subst ht
      simpa using hw
    · simpa [ht] using hP t
  obtain ⟨c', hrun, -⟩ := run_total (fun c => ∀ t, P (c.threads t).work)
    (fun c x hc _ => hact c x hc) hP (along_true sched c)
  exact ⟨c', hrun⟩

end Spheres.Library.MorselLoop.Loop
