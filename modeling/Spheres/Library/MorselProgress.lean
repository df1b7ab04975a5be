import Spheres.Library.MorselLoop

/-!
# Leaving the loop

A thread that lowers the common bound makes the exchanges of other threads
fail, each at most once, and every claim lets a thread lower the bound at most
once. A measure that charges a claim for the failures it may cause decreases
with every action other than a spurious failure, so threads that act often
enough leave the loop under every schedule. All this needs a positive step, unless
there is nothing to claim: with a step of zero no thread ever leaves the loop.
-/

namespace Spheres.Library.MorselLoop.Loop

open Interleaving

variable {ι R H : Type*} (L : Loop R H) [LinearOrder R]

/-- The number of actions a thread still needs before its next claim, with the
failures it may cause to `n` threads. -/
def cost (n : Nat) (s : Shared R) (t : Thread R H) : Nat :=
  match t.pc with
  | .done => 0
  | .fetch => 1
  | .exchange expected => if expected = s.bound then n + 2 else n + 3
  | .reload => n + 4
  | .load _ => n + 5

/-- What the claims that are left can cost. -/
def claims (n : Nat) (s : Shared R) : Nat := (n + 5) * (L.limit - s.next)

variable {L} {n : Nat} {s s' : Shared R} {t t' : Thread R H} {weakFailure : Bool}

omit [LinearOrder R] in
theorem isDone_iff : isDone t = true ↔ t.pc = .done := by
  refine ⟨pc_of_isDone, fun h => ?_⟩
  rw [isDone, h]

/-- The cost of one action. Lowering the bound is paid for the exchanges it
makes fail. -/
theorem act_cost (hstep : 0 < L.step ∨ L.limit = 0) (h : L.act weakFailure s t = some (s', t'))
    (hdone : t.pc ≠ .done) :
    L.claims n s' + cost n s' t' + (if s'.bound = s.bound then 0 else n) ≤
        L.claims n s + cost n s t ∧
      (weakFailure = false →
        L.claims n s' + cost n s' t' + (if s'.bound = s.bound then 0 else n) <
          L.claims n s + cost n s t) := by
  cases hpc : t.pc with
  | done => exact absurd hpc hdone
  | fetch =>
    simp only [act, hpc] at h
    split at h
    · obtain ⟨rfl, rfl⟩ := Prod.mk.inj (Option.some.inj h)
      have hclaims : L.limit - (s.next + L.step) = L.limit - s.next := by omega
      simp [claims, cost, hpc, hclaims]
    · obtain ⟨rfl, rfl⟩ := Prod.mk.inj (Option.some.inj h)
      have hclaims : L.claims n { s with next := s.next + L.step } + (n + 5) ≤ L.claims n s := by
        simp only [claims]
        rw [← Nat.mul_succ]
        exact Nat.mul_le_mul_left _ (by omega)
      simp only [cost, hpc, if_true]
      omega
  | load lo =>
    simp only [act, hpc] at h
    obtain ⟨w, -, h⟩ := Option.bind_eq_some_iff.mp h
    obtain ⟨r, -, heq⟩ := Option.map_eq_some_iff.mp h
    obtain ⟨rfl, rfl⟩ := Prod.mk.inj heq
    by_cases hlt : (r : WithTop R) < s.bound
    · simp only [cost, hpc, if_pos hlt, if_true]
      omega
    · simp only [cost, hpc, if_neg hlt, if_true]
      omega
  | reload =>
    simp only [act, hpc] at h
    obtain ⟨rfl, hpc' | hpc'⟩ := retry_eq_some h <;> simp only [cost, hpc, hpc', if_true] <;> omega
  | exchange expected =>
    simp only [act, hpc] at h
    split at h
    · rename_i hsuccess
      obtain ⟨r, -, heq⟩ := Option.map_eq_some_iff.mp h
      obtain ⟨rfl, rfl⟩ := Prod.mk.inj heq
      simp only [cost, hpc, claims, if_pos hsuccess.1.symm]
      split <;> omega
    · rename_i hfailure
      obtain ⟨rfl, hpc' | hpc'⟩ := retry_eq_some h
      · simp only [cost, hpc, hpc', if_true]
        split <;> omega
      · simp only [cost, hpc, hpc', if_true]
        split
        · rename_i heq
          have hweak : weakFailure ≠ false := fun hw => hfailure ⟨heq.symm, hw⟩
          exact ⟨by omega, fun hw => absurd hw hweak⟩
        · omega

/-- A change of the bound costs another thread at most one action more. -/
theorem cost_le (n : Nat) (s s' : Shared R) (t : Thread R H) :
    cost n s' t ≤ cost n s t + if s'.bound = s.bound then 0 else 1 := by
  by_cases hbound : s'.bound = s.bound
  · simp only [cost, hbound, if_true, Nat.add_zero, le_refl]
  · rw [if_neg hbound]
    unfold cost
    cases t.pc with
    | exchange expected =>
      simp only
      split <;> split <;> omega
    | _ => simp

/-- What the threads together can still need. -/
def total [Fintype ι] (L : Loop R H) (c : Config ι (Shared R) (Thread R H)) : Nat :=
  L.claims (Fintype.card ι) c.shared + ∑ t, cost (Fintype.card ι) c.shared (c.threads t)

section Total

variable [Fintype ι] [DecidableEq ι]

/-- Trading the term of one thread while the others grow by at most `d`. -/
theorem sum_cost_le (f f' : ι → Nat) (t : ι) (d : Nat) (h : ∀ i, i ≠ t → f' i ≤ f i + d) :
    (∑ i, f' i) + f t ≤ (∑ i, f i) + f' t + Fintype.card ι * d := by
  have hsum : ∀ g : ι → Nat, ∑ i, g i = g t + ∑ i ∈ Finset.univ.erase t, g i := fun g =>
    (Finset.add_sum_erase _ g (Finset.mem_univ t)).symm
  have hrest : ∑ i ∈ Finset.univ.erase t, f' i ≤
      ∑ i ∈ Finset.univ.erase t, f i + Fintype.card ι * d := by
    calc ∑ i ∈ Finset.univ.erase t, f' i ≤ ∑ i ∈ Finset.univ.erase t, (f i + d) :=
          Finset.sum_le_sum fun i hi => h i (Finset.ne_of_mem_erase hi)
      _ = ∑ i ∈ Finset.univ.erase t, f i + (Finset.univ.erase t).card * d := by
          rw [Finset.sum_add_distrib, Finset.sum_const, Nat.nsmul_eq_mul]
      _ ≤ _ := Nat.add_le_add_left (Nat.mul_le_mul_right _ (Finset.card_le_univ _)) _
  rw [hsum f, hsum f']
  omega

theorem total_step (hstep : 0 < L.step ∨ L.limit = 0)
    {c c' : Config ι (Shared R) (Thread R H)} {x : ι × Bool} (h : Interleaving.step L.act c x = some c') :
    total L c' ≤ total L c ∧
      (isDone (c.threads x.1) = true → isDone (c'.threads x.1) = true) ∧
      (isDone (c.threads x.1) = false → (!x.2) = true → total L c' < total L c) := by
  obtain ⟨s', t', hact, rfl⟩ := step_eq_some h
  by_cases hdone : (c.threads x.1).pc = .done
  · obtain ⟨rfl, rfl⟩ : s' = c.shared ∧ t' = c.threads x.1 := by
      simp only [act, hdone, Option.some.injEq, Prod.mk.injEq] at hact
      exact ⟨hact.1.symm, hact.2.symm⟩
    simp only [Function.update_eq_self]
    refine ⟨le_rfl, fun h => h, fun hnot => ?_⟩
    rw [isDone_iff.mpr hdone] at hnot
    cases hnot
  · obtain ⟨hle, hlt⟩ := act_cost (n := Fintype.card ι) hstep hact hdone
    have hsum := sum_cost_le (fun i => cost (Fintype.card ι) c.shared (c.threads i))
      (fun i => cost (Fintype.card ι) s' (Function.update c.threads x.1 t' i)) x.1
      (if s'.bound = c.shared.bound then 0 else 1) fun i hi => by
        simp only [Function.update_of_ne hi]
        exact cost_le _ _ _ _
    have hδ : Fintype.card ι * (if s'.bound = c.shared.bound then 0 else 1) =
        if s'.bound = c.shared.bound then 0 else Fintype.card ι := by
      split <;> simp
    simp only [Function.update_self, hδ] at hsum
    refine ⟨?_, fun h => absurd (pc_of_isDone h) hdone, fun _ hx => ?_⟩
    · simp only [total]
      omega
    · have hlt := hlt (by simpa using hx)
      simp only [total]
      omega

/-- Every schedule that lets each thread act often enough without spurious
failures makes all threads leave the loop. -/
theorem submit_returns {P : Multiset Nat → H → Prop} {Q : WithTop R → Prop} {guard : H → Prop}
    (hL : L.Sound P Q guard) {s : Shared R} {work : ι → H} (hnext : s.next = 0) (hQ : Q s.bound)
    (hP : ∀ t, P 0 (work t)) {sched : List (ι × Bool)}
    (hok : Along L.act (fun c x => Publishes c x → guard (c.threads x.1).work) sched
      ⟨s, fun t => ⟨.fetch, work t⟩⟩)
    (hturns : ∀ t, (Fintype.card ι + 5) * L.limit + Fintype.card ι <
      turns (fun weakFailure => !weakFailure) t sched) :
    ∃ c, complete L.act isDone sched ⟨s, fun t => ⟨.fetch, work t⟩⟩ = .returned c := by
  refine complete_returns (L.Inv P Q) (total L) (fun weakFailure => !weakFailure) ?_
    (inv_start hnext hQ hP) hok fun t => Or.inr ?_
  · intro c x hc hx
    obtain ⟨c', hrun, hinv⟩ := Inv.step hL c x hc hx
    exact ⟨c', hrun, hinv, total_step (Or.inl hL.step_pos) hrun⟩
  · have htotal : total L ⟨s, fun t : ι => ⟨.fetch, work t⟩⟩ =
        (Fintype.card ι + 5) * L.limit + Fintype.card ι := by
      simp [total, claims, cost, hnext]
    rw [htotal]
    exact hturns t

/-- With a step of zero no thread leaves the loop, whatever the schedule. -/
theorem complete_ne_returned [Nonempty ι] (hstep : L.step = 0) (hlimit : 0 < L.limit)
    {c : Config ι (Shared R) (Thread R H)} (hnext : c.shared.next = 0)
    (hfetch : ∀ t, (c.threads t).pc = .fetch) (sched : List (ι × Bool))
    (c' : Config ι (Shared R) (Thread R H)) : complete L.act isDone sched c ≠ .returned c' := by
  intro hc
  obtain ⟨hrun, hdone⟩ := complete_eq_returned.mp hc
  have hkeep : c'.shared.next = 0 ∧ ∀ t, (c'.threads t).pc ≠ .done := by
    apply run_keeps (fun d : Config ι (Shared R) (Thread R H) =>
      d.shared.next = 0 ∧ ∀ t, (d.threads t).pc ≠ .done) ?_
      ⟨hnext, fun t => by simp [hfetch t]⟩ hrun
    rintro d x d' ⟨hzero, hnone⟩ hd
    obtain ⟨s', th', hact, rfl⟩ := step_eq_some hd
    have hthread : s'.next = 0 ∧ th'.pc ≠ .done := by
      rcases act_cases hact with ⟨-, -, hnext', rfl⟩ | ⟨-, hle, -, -⟩ | ⟨hnext', -, hdone'⟩ |
        ⟨-, rfl, rfl⟩
      · exact ⟨by omega, nofun⟩
      · omega
      · exact ⟨hnext'.trans hzero, hdone'⟩
      · exact ⟨hzero, hnone x.1⟩
    refine ⟨hthread.1, fun t => ?_⟩
    by_cases ht : t = x.1
    · subst ht
      simpa using hthread.2
    · simpa [ht] using hnone t
  exact hkeep.2 (Classical.arbitrary ι) (pc_of_isDone (hdone _))

end Total

end Spheres.Library.MorselLoop.Loop
