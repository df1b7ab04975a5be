import Spheres.Library.MorselVisits

/-!
# What the scans of a run report

A scan may report events, such as what became of each of its positions. `events`
collects the reports of a run, the one of a step at fault included. In a run
without a fault they belong to the positions that the run visits, and the tally
grows by the number of reported events of a kind, if every scan adds to the
private state of its thread as many as it reports.
-/

namespace Spheres.Library.MorselLoop.Loop

open Interleaving

variable {ι R H E F : Type*}

/-- The report of the next action of a thread. -/
def emits (L : Loop R H) (report : WithTop R → Nat → Nat → H → Multiset E) (b : WithTop R)
    (t : Thread R H) : Multiset E :=
  match t.pc with
  | .load lo => report b lo (L.claimEnd lo) t.work
  | _ => 0

/-- The reports of a run. -/
def events [DecidableEq ι] (act : Bool → Shared R → Thread R H → Option (Shared R × Thread R H))
    (emits : WithTop R → Thread R H → Multiset E) :
    List (ι × Bool) → Config ι (Shared R) (Thread R H) → Multiset E
  | [], _ => 0
  | x :: xs, c => emits c.shared.bound (c.threads x.1) +
      (Interleaving.step act c x).elim 0 (events act emits xs)

/-- What a thread adds to the tally when it leaves. -/
def owed (L : Loop R H) (t : Thread R H) : Nat :=
  if isDone t = true then 0 else L.retire t.work

variable {L : Loop R H} {report : WithTop R → Nat → Nat → H → Multiset E}

theorem emits_load {b : WithTop R} {t : Thread R H} {lo : Nat} (h : t.pc = .load lo) :
    L.emits report b t = report b lo (L.claimEnd lo) t.work := by
  unfold emits
  simp only [h]

theorem emits_eq_zero {b : WithTop R} {t : Thread R H} (h : ∀ lo, t.pc ≠ .load lo) :
    L.emits report b t = 0 := by
  unfold emits
  split
  · exact absurd ‹_› (h _)
  · rfl

theorem owed_eq {t : Thread R H} (h : t.pc ≠ .done) : L.owed t = L.retire t.work := by
  rw [owed, if_neg]
  exact fun hdone => h (pc_of_isDone hdone)

theorem events_cons_of_step [DecidableEq ι]
    {act : Bool → Shared R → Thread R H → Option (Shared R × Thread R H)}
    {emits : WithTop R → Thread R H → Multiset E} {c c' : Config ι (Shared R) (Thread R H)}
    {x : ι × Bool} {xs : List (ι × Bool)} (h : Interleaving.step act c x = some c') :
    events act emits (x :: xs) c =
      emits c.shared.bound (c.threads x.1) + events act emits xs c' := by
  rw [events, h, Option.elim_some]

variable [LinearOrder R]

/-- What an action before a scan does. -/
theorem act_load {weakFailure : Bool} {s s' : Shared R} {t t' : Thread R H} {lo : Nat}
    (h : L.act weakFailure s t = some (s', t')) (hpc : t.pc = .load lo) :
    L.scan s.bound lo (L.claimEnd lo) t.work = some t'.work ∧ s' = s ∧ t'.pc ≠ .done := by
  simp only [act, hpc] at h
  obtain ⟨w, hscan, h⟩ := Option.bind_eq_some_iff.mp h
  obtain ⟨r, -, heq⟩ := Option.map_eq_some_iff.mp h
  obtain ⟨rfl, rfl⟩ := Prod.mk.inj heq
  refine ⟨hscan, rfl, ?_⟩
  dsimp only
  split <;> simp

/-- The tally and what a thread owes to it grow by what the thread reports. -/
theorem act_tally {p : E → Prop} [DecidablePred p]
    (hreport : ∀ b lo hi w w', L.scan b lo hi w = some w' →
      L.retire w' = L.retire w + (report b lo hi w).countP p)
    {weakFailure : Bool} {s s' : Shared R} {t t' : Thread R H}
    (h : L.act weakFailure s t = some (s', t')) :
    s'.tally + L.owed t' = s.tally + L.owed t + (L.emits report s.bound t).countP p := by
  have hretry : ∀ {s' : Shared R} {t' : Thread R H}, L.retry s t.work = some (s', t') →
      t.pc ≠ .done → s'.tally + L.owed t' = s.tally + L.owed t := by
    intro s' t' hretry hdone
    obtain ⟨r, -, heq⟩ := Option.map_eq_some_iff.mp hretry
    obtain ⟨rfl, rfl⟩ := Prod.mk.inj heq
    rw [owed_eq hdone, owed_eq]
    dsimp only
    split <;> simp
  cases hpc : t.pc with
  | load lo =>
    obtain ⟨hscan, rfl, hdone⟩ := act_load h hpc
    rw [owed_eq hdone, owed_eq (by simp [hpc]), emits_load hpc,
      hreport _ _ _ _ _ hscan, Nat.add_assoc]
  | fetch =>
    rw [emits_eq_zero (by simp [hpc]), Multiset.countP_zero, Nat.add_zero]
    rw [owed_eq (t := t) (by simp [hpc])]
    simp only [act, hpc] at h
    split at h
    · obtain ⟨rfl, rfl⟩ := Prod.mk.inj (Option.some.inj h)
      rfl
    · obtain ⟨rfl, rfl⟩ := Prod.mk.inj (Option.some.inj h)
      rfl
  | reload =>
    rw [emits_eq_zero (by simp [hpc]), Multiset.countP_zero, Nat.add_zero]
    simp only [act, hpc] at h
    exact hretry h (by simp [hpc])
  | exchange expected =>
    rw [emits_eq_zero (by simp [hpc]), Multiset.countP_zero, Nat.add_zero]
    simp only [act, hpc] at h
    split at h
    · obtain ⟨r, -, heq⟩ := Option.map_eq_some_iff.mp h
      obtain ⟨rfl, rfl⟩ := Prod.mk.inj heq
      rw [owed_eq (t := t) (by simp [hpc])]
      rfl
    · exact hretry h (by simp [hpc])
  | done =>
    rw [emits_eq_zero (by simp [hpc]), Multiset.countP_zero, Nat.add_zero]
    simp only [act, hpc, Option.some.injEq, Prod.mk.injEq] at h
    obtain ⟨rfl, rfl⟩ := h
    rfl

variable [DecidableEq ι] {c c' : Config ι (Shared R) (Thread R H)} {xs : List (ι × Bool)}

/-- The events of a run without a fault belong to the positions that it visits. -/
theorem map_events {f : E → F} {g : Nat → F}
    (hreport : ∀ b lo hi w w', L.scan b lo hi w = some w' →
      (report b lo hi w).map f = (Multiset.Ico lo hi).map g)
    (hrun : Interleaving.run L.act xs c = some c') :
    (events L.act (L.emits report) xs c).map f = (L.visits xs c).map g := by
  induction xs generalizing c with
  | nil => rfl
  | cons x xs ih =>
    obtain ⟨d, hd, hrest⟩ := run_cons.mp hrun
    rw [events_cons_of_step hd, visits_cons_of_step hd, Multiset.map_add, Multiset.map_add, ih hrest]
    congr 1
    obtain ⟨s', t', hact, -⟩ := step_eq_some hd
    by_cases hload : ∃ lo, (c.threads x.1).pc = .load lo
    · obtain ⟨lo, hlo⟩ := hload
      have hpending : L.pending (c.threads x.1) = Multiset.Ico lo (L.claimEnd lo) := by
        unfold pending
        simp only [hlo]
      rw [emits_load hlo, hpending, hreport _ _ _ _ _ (act_load hact hlo).1]
    · rw [emits_eq_zero (not_exists.mp hload), pending_eq_zero (not_exists.mp hload),
        Multiset.map_zero, Multiset.map_zero]

/-- What is known of the events of every scan is known of the events of a run. -/
theorem forall_events {good : E → Prop}
    (hreport : ∀ b lo hi w w', L.scan b lo hi w = some w' → ∀ e ∈ report b lo hi w, good e)
    (hrun : Interleaving.run L.act xs c = some c') :
    ∀ e ∈ events L.act (L.emits report) xs c, good e := by
  induction xs generalizing c with
  | nil => exact fun e he => absurd he (Multiset.notMem_zero e)
  | cons x xs ih =>
    obtain ⟨d, hd, hrest⟩ := run_cons.mp hrun
    intro e he
    rw [events_cons_of_step hd] at he
    rcases Multiset.mem_add.mp he with he | he
    · obtain ⟨s', t', hact, -⟩ := step_eq_some hd
      by_cases hload : ∃ lo, (c.threads x.1).pc = .load lo
      · obtain ⟨lo, hlo⟩ := hload
        rw [emits_load hlo] at he
        exact hreport _ _ _ _ _ (act_load hact hlo).1 e he
      · rw [emits_eq_zero (not_exists.mp hload)] at he
        exact absurd he (Multiset.notMem_zero e)
    · exact ih hrest e he

variable [Fintype ι]

/-- The tally, together with what the threads owe to it, grows by what a run reports. -/
theorem tally_run {p : E → Prop} [DecidablePred p]
    (hreport : ∀ b lo hi w w', L.scan b lo hi w = some w' →
      L.retire w' = L.retire w + (report b lo hi w).countP p)
    (hrun : Interleaving.run L.act xs c = some c') :
    c'.shared.tally + ∑ t, L.owed (c'.threads t) =
      c.shared.tally + ∑ t, L.owed (c.threads t) +
        (events L.act (L.emits report) xs c).countP p := by
  induction xs generalizing c with
  | nil =>
    obtain rfl := Option.some.inj hrun
    rw [events, Multiset.countP_zero, Nat.add_zero]
  | cons x xs ih =>
    obtain ⟨d, hd, hrest⟩ := run_cons.mp hrun
    obtain ⟨s', t', hact, rfl⟩ := step_eq_some hd
    have htally := act_tally hreport hact
    have hsum := sum_threads_update L.owed c.threads x.1 t'
    rw [events_cons_of_step hd, Multiset.countP_add, ih hrest]
    dsimp only
    omega

/-- The rule for the tally of a task: threads that start with nothing to add have
added the number of reported events when the task is over. -/
theorem tally_complete {p : E → Prop} [DecidablePred p]
    (hreport : ∀ b lo hi w w', L.scan b lo hi w = some w' →
      L.retire w' = L.retire w + (report b lo hi w).countP p)
    (howed : ∀ t, L.owed (c.threads t) = 0)
    (h : complete L.act isDone xs c = .returned c') :
    c'.shared.tally = c.shared.tally + (events L.act (L.emits report) xs c).countP p := by
  obtain ⟨hrun, hdone⟩ := complete_eq_returned.mp h
  have htally := tally_run hreport hrun
  have hstart : ∑ t, L.owed (c.threads t) = 0 := Finset.sum_eq_zero fun t _ => howed t
  have hend : ∑ t, L.owed (c'.threads t) = 0 :=
    Finset.sum_eq_zero fun t _ => by rw [owed, if_pos (hdone t)]
  omega

end Spheres.Library.MorselLoop.Loop
