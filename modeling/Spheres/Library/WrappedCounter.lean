import Spheres.Library.MorselCounter
import Spheres.Library.MorselEvents

/-!
# Counters that wrap around

On a machine the counter and the tally are numbers of a type with `size` values,
and so is the end of a claim before it is cut off at the limit. `wrappedAct` is the
action with these counters. As long as `CounterFits` holds it does what `act` does
with the counters reduced (`step_wrapped`): the counter is exact up to the last
claim, and no thread takes what it fetches after that for a claim.
-/

namespace Spheres.Library.MorselLoop

/-- The counters as the machine has them. -/
def Shared.wrap {R : Type*} (size : Nat) (s : Shared R) : Shared R :=
  { s with next := s.next % size, tally := s.tally % size }

namespace Loop

open Interleaving

variable {ι R H E : Type*} (L : Loop R H)

def wrappedClaimEnd (size lo : Nat) : Nat := min L.limit ((L.step + lo) % size)

/-- One atomic action with the counters of the machine. -/
def wrappedAct [LinearOrder R] (size : Nat) (weakFailure : Bool) (s : Shared R)
    (t : Thread R H) : Option (Shared R × Thread R H) :=
  match t.pc with
  | .fetch =>
    if L.limit ≤ s.next then
      some ({ s with
          next := (s.next + L.step) % size
          tally := (s.tally + L.retire t.work) % size },
        ⟨.done, t.work⟩)
    else some ({ s with next := (s.next + L.step) % size }, ⟨.load s.next, t.work⟩)
  | .load lo =>
    (L.scan s.bound lo (L.wrappedClaimEnd size lo) t.work).bind fun w =>
      (L.top w).map fun (top : R) =>
        (s, ⟨if (top : WithTop R) < s.bound then .reload else .fetch, w⟩)
  | .reload | .exchange _ | .done => L.act weakFailure s t

/-- The report of the next action of a thread, with the counters of the machine. -/
def wrappedEmits (size : Nat) (report : WithTop R → Nat → Nat → H → Multiset E) (b : WithTop R)
    (t : Thread R H) : Multiset E :=
  match t.pc with
  | .load lo => report b lo (L.wrappedClaimEnd size lo) t.work
  | _ => 0

/-- The end of the last claim is a value of the type, and what the `n` threads fetch
after it is no position below the limit, reduced as it may be. -/
def CounterFits (n size : Nat) : Prop :=
  L.limit = 0 ∨ L.step * L.claimCount < size ∧
    ∀ j < n, L.limit ≤ L.step * (L.claimCount + j) % size

instance (n size : Nat) : Decidable (L.CounterFits n size) :=
  inferInstanceAs (Decidable (_ ∨ _ ∧ _))

/-- The configuration that the machine is in. -/
def wrapConfig (size : Nat) (c : Config ι (Shared R) (Thread R H)) :
    Config ι (Shared R) (Thread R H) :=
  ⟨c.shared.wrap size, c.threads⟩

variable {L} {n size : Nat} {c c' : Config ι (Shared R) (Thread R H)}

theorem CounterFits.step_pos (h : L.CounterFits n size) (hn : 0 < n) (hlimit : 0 < L.limit) :
    0 < L.step := by
  obtain hzero | ⟨-, hlast⟩ := h
  · omega
  · apply Nat.pos_of_ne_zero
    intro hstep
    have hle := hlast 0 hn
    rw [hstep, Nat.zero_mul, Nat.zero_mod] at hle
    omega

section Simulation

variable [Fintype ι]

/-- The claims that are made end at or before the end of the last one. -/
structure Claimed (L : Loop R H) (c : Config ι (Shared R) (Thread R H)) : Prop where
  counted : L.Counted c
  claims : ∀ t lo, (c.threads t).pc = .load lo →
    lo < L.limit ∧ lo + L.step ≤ L.step * L.claimCount

/-- Where the counter stands when there is something left to claim. -/
theorem Counted.next_add_step_le (h : L.Counted c) (hstep : 0 < L.step)
    (hlt : c.shared.next < L.limit) : c.shared.next + L.step ≤ L.step * L.claimCount := by
  obtain ⟨m, hm, heq, hall⟩ := h
  have hm' : m + left c < L.claimCount := by
    by_contra hge
    rw [heq] at hlt
    exact hlt.not_ge ((le_step_mul_claimCount hstep).trans
      (Nat.mul_le_mul_left _ (Nat.le_of_not_lt hge)))
  rw [heq, ← Nat.mul_succ]
  exact Nat.mul_le_mul_left _ hm'

theorem claimed_start {s : Shared R} {work : ι → H} (hnext : s.next = 0) :
    L.Claimed ⟨s, fun t => ⟨.fetch, work t⟩⟩ where
  counted := Counted.start hnext
  claims _ _ := nofun

variable [DecidableEq ι] [LinearOrder R]

/-- One step keeps it. -/
theorem Claimed.step (h : L.Claimed c) (hstep : L.limit = 0 ∨ 0 < L.step) {x : ι × Bool}
    (hrun : Interleaving.step L.act c x = some c') : L.Claimed c' := by
  have hcounted := h.counted.step hrun
  obtain ⟨s', th', hact, rfl⟩ := step_eq_some hrun
  have hload : ∀ lo, th'.pc = .load lo → lo < L.limit ∧ lo + L.step ≤ L.step * L.claimCount := by
    intro lo hlo
    rcases act_cases hact with ⟨-, hlt, -, rfl⟩ | ⟨-, -, -, rfl⟩ | ⟨-, hload, -⟩ | ⟨hpc, -, rfl⟩
    · cases hlo
      exact ⟨hlt, h.counted.next_add_step_le (hstep.resolve_left (by omega)) hlt⟩
    · cases hlo
    · exact absurd hlo (hload lo)
    · rw [hpc] at hlo
      cases hlo
  refine ⟨hcounted, fun t lo (hlo : (Function.update c.threads x.1 th' t).pc = .load lo) => ?_⟩
  by_cases ht : t = x.1
  · subst ht
    rw [Function.update_self] at hlo
    exact hload lo hlo
  · rw [Function.update_of_ne ht] at hlo
    exact h.claims t lo hlo

omit [DecidableEq ι] [LinearOrder R] in
theorem left_lt {t : ι} (h : isDone (c.threads t) = false) : left c < Fintype.card ι := by
  calc left c < ∑ _t : ι, 1 := Finset.sum_lt_sum (fun t _ => by split <;> decide)
        ⟨t, Finset.mem_univ t, by rw [h]; decide⟩
    _ = Fintype.card ι := by simp

omit [DecidableEq ι] [LinearOrder R] in
/-- A thread that has not left reads from the wrapped counter whether there is
something left to claim. -/
theorem Claimed.limit_le_iff (h : L.Claimed c) (hfits : L.CounterFits (Fintype.card ι) size)
    {t : ι} (hdone : isDone (c.threads t) = false) :
    L.limit ≤ c.shared.next % size ↔ L.limit ≤ c.shared.next := by
  obtain hzero | ⟨hsize, hlast⟩ := hfits
  · simp [hzero]
  · refine ⟨fun hle => hle.trans (Nat.mod_le _ _), fun hle => ?_⟩
    rcases Nat.eq_zero_or_pos L.limit with hzero | hpos
    · exact hzero ▸ Nat.zero_le _
    have hstep : 0 < L.step := CounterFits.step_pos (Or.inr ⟨hsize, hlast⟩)
      (Fintype.card_pos_iff.mpr ⟨t⟩) hpos
    obtain ⟨m, hm, heq, hall⟩ := h.counted
    have hcover : m = L.claimCount := by
      rcases Nat.eq_zero_or_pos (left c) with hnone | hleft
      · refine le_antisymm hm ?_
        rw [heq, hnone, Nat.add_zero] at hle
        exact (ceilDiv_le_iff_le_smul hstep).mpr hle
      · exact hall hleft
    rw [heq, hcover]
    exact hlast _ (left_lt hdone)

omit [DecidableEq ι] [LinearOrder R] in
/-- With something left to claim the counter is exact. -/
theorem Claimed.next_mod (h : L.Claimed c) (hfits : L.CounterFits (Fintype.card ι) size) {t : ι}
    (hlt : c.shared.next < L.limit) : c.shared.next % size = c.shared.next := by
  have hpos : 0 < L.limit := by omega
  have hstep : 0 < L.step := hfits.step_pos (Fintype.card_pos_iff.mpr ⟨t⟩) hpos
  obtain hzero | ⟨hsize, -⟩ := hfits
  · omega
  · have hle := h.counted.next_add_step_le hstep hlt
    exact Nat.mod_eq_of_lt (by omega)

omit [DecidableEq ι] [LinearOrder R] in
theorem Claimed.claimEnd_eq (h : L.Claimed c) (hfits : L.CounterFits (Fintype.card ι) size)
    {t : ι} {lo : Nat} (hpc : (c.threads t).pc = .load lo) :
    L.wrappedClaimEnd size lo = L.claimEnd lo := by
  obtain ⟨hlt, hle⟩ := h.claims t lo hpc
  obtain hzero | ⟨hsize, -⟩ := hfits
  · omega
  · rw [wrappedClaimEnd, claimEnd, Nat.mod_eq_of_lt (by omega)]

omit [DecidableEq ι] [Fintype ι] in
theorem retry_wrap (s : Shared R) (w : H) :
    L.retry (s.wrap size) w = (L.retry s w).map fun r => (r.1.wrap size, r.2) := by
  unfold Loop.retry
  cases L.top w <;> rfl

omit [DecidableEq ι] in
/-- The action of the machine, with the counters reduced. -/
theorem Claimed.wrappedAct_eq (h : L.Claimed c) (hfits : L.CounterFits (Fintype.card ι) size)
    (x : ι × Bool) :
    L.wrappedAct size x.2 (c.shared.wrap size) (c.threads x.1) =
      (L.act x.2 c.shared (c.threads x.1)).map fun r => (r.1.wrap size, r.2) := by
  cases hpc : (c.threads x.1).pc with
  | fetch =>
    have hlimit := h.limit_le_iff hfits (isDone_eq_false (by rw [hpc]; exact nofun))
    simp only [wrappedAct, act, hpc, Shared.wrap, hlimit]
    by_cases hle : L.limit ≤ c.shared.next
    · simp only [if_pos hle, Option.map_some, Nat.mod_add_mod]
    · simp only [if_neg hle, Option.map_some, Nat.mod_add_mod,
        h.next_mod hfits (t := x.1) (Nat.lt_of_not_le hle)]
  | load lo =>
    simp only [wrappedAct, act, hpc, h.claimEnd_eq hfits hpc, Shared.wrap]
    cases L.scan c.shared.bound lo (L.claimEnd lo) (c.threads x.1).work with
    | none => rfl
    | some w =>
      simp only [Option.bind_some]
      cases L.top w <;> rfl
  | reload =>
    simp only [wrappedAct, act, hpc]
    exact retry_wrap _ _
  | exchange expected =>
    simp only [wrappedAct, act, hpc]
    by_cases hs : c.shared.bound = expected ∧ x.2 = false
    · have hs' : (c.shared.wrap size).bound = expected ∧ x.2 = false := hs
      rw [if_pos hs, if_pos hs']
      cases L.top (c.threads x.1).work <;> rfl
    · have hs' : ¬ ((c.shared.wrap size).bound = expected ∧ x.2 = false) := hs
      rw [if_neg hs, if_neg hs']
      exact retry_wrap _ _
  | done => simp only [wrappedAct, act, hpc, Option.map_some]

/-- A step of the machine is a step with exact counters, reduced. -/
theorem step_wrapped (h : L.Claimed c) (hfits : L.CounterFits (Fintype.card ι) size)
    (x : ι × Bool) :
    Interleaving.step (L.wrappedAct size) (wrapConfig size c) x =
      (Interleaving.step L.act c x).map (wrapConfig size) := by
  have hact := h.wrappedAct_eq hfits x
  unfold Interleaving.step wrapConfig
  dsimp only
  rw [hact, Option.map_map, Option.map_map]
  rfl

/-- A run of the machine is a run with exact counters, reduced. -/
theorem run_wrapped (h : L.Claimed c) (hfits : L.CounterFits (Fintype.card ι) size)
    (xs : List (ι × Bool)) :
    Interleaving.run (L.wrappedAct size) xs (wrapConfig size c) =
      (Interleaving.run L.act xs c).map (wrapConfig size) := by
  induction xs generalizing c with
  | nil => rfl
  | cons x xs ih =>
    have hstep : L.limit = 0 ∨ 0 < L.step := (Nat.eq_zero_or_pos L.limit).imp_right
      (hfits.step_pos (Fintype.card_pos_iff.mpr ⟨x.1⟩))
    rw [run, run, step_wrapped h hfits x]
    cases hd : Interleaving.step L.act c x with
    | none => rfl
    | some d => exact ih (h.step hstep hd)

theorem complete_wrapped (h : L.Claimed c) (hfits : L.CounterFits (Fintype.card ι) size)
    (xs : List (ι × Bool)) :
    complete (L.wrappedAct size) isDone xs (wrapConfig size c) =
      (complete L.act isDone xs c).bind fun c' => .returned (wrapConfig size c') := by
  unfold complete
  rw [run_wrapped h hfits xs]
  cases Interleaving.run L.act xs c with
  | none => rfl
  | some d =>
    simp only [Option.map_some, wrapConfig]
    by_cases hdone : ∀ t, isDone (d.threads t) = true
    · simp only [if_pos hdone, Outcome.bind_returned]
    · simp only [if_neg hdone, Outcome.bind]

/-- The machine reports the same events. -/
theorem events_wrapped (h : L.Claimed c) (hfits : L.CounterFits (Fintype.card ι) size)
    (report : WithTop R → Nat → Nat → H → Multiset E) (xs : List (ι × Bool)) :
    events (L.wrappedAct size) (L.wrappedEmits size report) xs (wrapConfig size c) =
      events L.act (L.emits report) xs c := by
  induction xs generalizing c with
  | nil => rfl
  | cons x xs ih =>
    have hstep : L.limit = 0 ∨ 0 < L.step := (Nat.eq_zero_or_pos L.limit).imp_right
      (hfits.step_pos (Fintype.card_pos_iff.mpr ⟨x.1⟩))
    have hemits : L.wrappedEmits size report (wrapConfig size c).shared.bound
        ((wrapConfig size c).threads x.1) = L.emits report c.shared.bound (c.threads x.1) := by
      show L.wrappedEmits size report c.shared.bound (c.threads x.1) = _
      cases hpc : (c.threads x.1).pc with
      | load lo => simp only [wrappedEmits, emits, hpc, h.claimEnd_eq hfits hpc]
      | _ => simp only [wrappedEmits, emits, hpc]
    rw [events, events, step_wrapped h hfits x, hemits]
    cases hd : Interleaving.step L.act c x with
    | none => rfl
    | some d =>
      simp only [Option.map_some, Option.elim_some]
      rw [ih (h.step hstep hd)]

end Simulation

end Loop

end Spheres.Library.MorselLoop
