import Mathlib.Algebra.BigOperators.Group.Finset.Piecewise
import Mathlib.Algebra.Order.BigOperators.Group.Finset
import Spheres.Library.Outcome
import Spheres.Library.Rows

/-!
# Rows computed by threads that share out a counter

Threads claim consecutive positions below `limit` with an atomic fetch-and-add
and write one row of flat memory for each claimed position. `submit_rows` is
the rule for such programs: if the row of every position is computed with a
property `Post` from any private state that satisfies `P`, then under every
schedule each row has its property at the end.
-/

namespace Spheres.Library.MorselRows

open Interleaving

variable {ι H E : Type*}

/-- What the threads share: the counter and the memory of the rows. -/
structure Shared (E : Type*) where
  next : Nat
  out : List E

inductive Pc where
  | fetch
  | rows (current last : Nat)
  | done
  deriving DecidableEq

structure Thread (H : Type*) where
  pc : Pc
  work : H

/-- `row` computes the row of a position from the private state of a thread. -/
structure RowLoop (H E : Type*) where
  step : Nat
  limit : Nat
  width : Nat
  row : Nat → H → Option (H × List E)

namespace RowLoop

variable (L : RowLoop H E)

def act (_ : Unit) (s : Shared E) (t : Thread H) : Option (Shared E × Thread H) :=
  match t.pc with
  | .fetch =>
    if L.limit ≤ s.next then some ({ s with next := s.next + L.step }, ⟨.done, t.work⟩)
    else some ({ s with next := s.next + L.step },
      ⟨.rows s.next (min L.limit (L.step + s.next)), t.work⟩)
  | .rows current last =>
    if current < last then
      (L.row current t.work).bind fun r =>
        (Rows.overwrite (current * L.width) r.2 s.out).map fun out =>
          ({ s with out }, ⟨.rows (current + 1) last, r.1⟩)
    else some (s, ⟨.fetch, t.work⟩)
  | .done => some (s, t)

def isDone (t : Thread H) : Bool :=
  match t.pc with
  | .done => true
  | _ => false

/-- The thread has claimed the position and not written its row yet. -/
def Pending (i : Nat) (t : Thread H) : Prop :=
  match t.pc with
  | .rows current last => current ≤ i ∧ i < last
  | _ => False

/-- What is known of a thread: its private state, and that its claim lies below
the limit. -/
structure Tracks (P : H → Prop) (next : Nat) (t : Thread H) : Prop where
  work : P t.work
  claim : ∀ current last, t.pc = .rows current last → last ≤ L.limit
  finished : t.pc = .done → L.limit ≤ next

/-- The invariant: every claimed position is pending or its row is written. -/
structure Inv (P : H → Prop) (Post : Nat → List E → Prop)
    (c : Config ι (Shared E) (Thread H)) : Prop where
  length : c.shared.out.length = L.limit * L.width
  tracks : ∀ t, L.Tracks P c.shared.next (c.threads t)
  claimed : ∀ i < L.limit, i < c.shared.next →
    (∃ t, Pending i (c.threads t)) ∨ Post i (Rows.row L.width i c.shared.out)

/-- The obligation of a program that uses the loop. -/
structure Sound (P : H → Prop) (Post : Nat → List E → Prop) : Prop where
  step_pos : 0 < L.step
  row : ∀ i < L.limit, ∀ w, P w →
    ∃ w' r, L.row i w = some (w', r) ∧ P w' ∧ r.length = L.width ∧ Post i r

variable {L} {P : H → Prop} {Post : Nat → List E → Prop}

theorem pc_of_isDone {t : Thread H} (h : isDone t = true) : t.pc = .done := by
  unfold isDone at h
  split at h
  · assumption
  · cases h

theorem Tracks.mono {next next' : Nat} {t : Thread H} (h : L.Tracks P next t)
    (hle : next ≤ next') : L.Tracks P next' t :=
  ⟨h.work, h.claim, fun hd => (h.finished hd).trans hle⟩

theorem row_room {i : Nat} (hi : i < L.limit) : i * L.width + L.width ≤ L.limit * L.width := by
  rw [← Nat.succ_mul]
  exact Nat.mul_le_mul_right _ hi

section Rule

variable [DecidableEq ι]

theorem tracks_update {s : Shared E} {threads : ι → Thread H} {next : Nat}
    (h : ∀ t, L.Tracks P s.next (threads t)) (hle : s.next ≤ next) {t : ι} {th : Thread H}
    (hth : L.Tracks P next th) (i : ι) : L.Tracks P next (Function.update threads t th i) := by
  by_cases hi : i = t
  · subst hi
    rwa [Function.update_self]
  · rw [Function.update_of_ne hi]
    exact (h i).mono hle

/-- A position that another thread has pending stays pending. -/
theorem pending_update {threads : ι → Thread H} {t : ι} {th : Thread H} {i : Nat}
    (h : ∃ u, Pending i (threads u)) :
    (∃ u, Pending i (Function.update threads t th u)) ∨ Pending i (threads t) := by
  obtain ⟨u, hu⟩ := h
  by_cases hut : u = t
  · exact Or.inr (hut ▸ hu)
  · exact Or.inl ⟨u, by rwa [Function.update_of_ne hut]⟩

/-- The positions of a claim are pending. -/
theorem Inv.fetch {c : Config ι (Shared E) (Thread H)} (hc : L.Inv P Post c) {t : ι}
    (hpc : (c.threads t).pc = .fetch) :
    ∃ s' th', L.act () c.shared (c.threads t) = some (s', th') ∧
      L.Inv P Post ⟨s', Function.update c.threads t th'⟩ := by
  have ht := hc.tracks t
  have hfree : ∀ i, ¬ Pending i (c.threads t) := by simp [Pending, hpc]
  have hle : c.shared.next ≤ c.shared.next + L.step := Nat.le_add_right _ _
  by_cases hlim : L.limit ≤ c.shared.next
  · refine ⟨_, _, by simp only [act, hpc, if_pos hlim]; rfl, ?_⟩
    refine ⟨hc.length, ?_, ?_⟩
    · exact tracks_update hc.tracks hle ⟨ht.work, by simp, fun _ => hlim.trans hle⟩
    · intro i hi _
      refine (hc.claimed i hi (hi.trans_le hlim)).imp_left fun hpend => ?_
      exact (pending_update hpend).resolve_right (hfree i)
  · refine ⟨_, _, by simp only [act, hpc, if_neg hlim]; rfl, ?_⟩
    refine ⟨hc.length, ?_, ?_⟩
    · refine tracks_update hc.tracks hle ⟨ht.work, ?_, by simp⟩
      intro current last h
      obtain ⟨-, rfl⟩ := Pc.rows.inj h
      exact Nat.min_le_left _ _
    · intro i hi hnext
      by_cases hold : i < c.shared.next
      · refine (hc.claimed i hi hold).imp_left fun hpend => ?_
        exact (pending_update hpend).resolve_right (hfree i)
      · refine Or.inl ⟨t, ?_⟩
        simp only [Function.update_self, Pending]
        simp only at hnext
        omega

/-- A row is written, and its position is not pending any more. -/
theorem Inv.rows (hL : L.Sound P Post) {c : Config ι (Shared E) (Thread H)}
    (hc : L.Inv P Post c) {t : ι} {current last : Nat}
    (hpc : (c.threads t).pc = .rows current last) :
    ∃ s' th', L.act () c.shared (c.threads t) = some (s', th') ∧
      L.Inv P Post ⟨s', Function.update c.threads t th'⟩ := by
  have ht := hc.tracks t
  have hlast := ht.claim current last hpc
  by_cases hlt : current < last
  · obtain ⟨w', r, hrow, hP, hlen, hpost⟩ := hL.row current (hlt.trans_le hlast) _ ht.work
    obtain ⟨out, hout, hlen', hself, hother⟩ := Rows.overwrite_row hlen
      (hc.length ▸ row_room (hlt.trans_le hlast))
    have hact : L.act () c.shared (c.threads t) =
        some ({ c.shared with out }, ⟨.rows (current + 1) last, w'⟩) := by
      simp only [act, hpc, if_pos hlt, hrow, Option.bind_some, hout, Option.map_some]
    refine ⟨_, _, hact, ⟨hlen'.trans hc.length, ?_, ?_⟩⟩
    · refine tracks_update hc.tracks le_rfl ⟨hP, ?_, by simp⟩
      intro current' last' h
      obtain ⟨-, rfl⟩ := Pc.rows.inj h
      exact hlast
    · intro i hi hnext
      by_cases hcur : i = current
      · exact Or.inr (by simpa only [hcur, hself] using hpost)
      · simp only [hother i hcur]
        refine (hc.claimed i hi hnext).imp_left fun hpend => ?_
        rcases pending_update hpend with h | h
        · exact h
        · refine ⟨t, ?_⟩
          simp only [Pending, hpc] at h
          simp only [Function.update_self, Pending]
          omega
  · refine ⟨_, _, by simp only [act, hpc, if_neg hlt]; rfl, ?_⟩
    refine ⟨hc.length, ?_, ?_⟩
    · exact tracks_update hc.tracks le_rfl ⟨ht.work, by simp, by simp⟩
    · intro i hi hnext
      refine (hc.claimed i hi hnext).imp_left fun hpend => ?_
      refine (pending_update hpend).resolve_right fun h => ?_
      simp only [Pending, hpc] at h
      omega

theorem Inv.step (hL : L.Sound P Post) (c : Config ι (Shared E) (Thread H)) (x : ι × Unit)
    (hc : L.Inv P Post c) :
    ∃ c', Interleaving.step L.act c x = some c' ∧ L.Inv P Post c' := by
  obtain ⟨t, u⟩ := x
  suffices h : ∃ s' th', L.act u c.shared (c.threads t) = some (s', th') ∧
      L.Inv P Post ⟨s', Function.update c.threads t th'⟩ by
    obtain ⟨s', th', hact, hinv⟩ := h
    exact ⟨_, step_of_act hact, hinv⟩
  cases hpc : (c.threads t).pc with
  | fetch => exact hc.fetch hpc
  | rows current last => exact hc.rows hL hpc
  | done =>
    refine ⟨_, _, by simp only [act, hpc]; rfl, ?_⟩
    rw [Function.update_eq_self]
    exact hc

omit [DecidableEq ι] in
theorem inv_start {out : List E} {work : ι → H} (hout : out.length = L.limit * L.width)
    (hP : ∀ t, P (work t)) : L.Inv P Post ⟨⟨0, out⟩, fun t => ⟨.fetch, work t⟩⟩ where
  length := hout
  tracks t := ⟨hP t, by simp, by simp⟩
  claimed i _ h := absurd h (Nat.not_lt_zero i)

variable [Fintype ι]

/-- The rule for runs: no step is at fault, and once all threads have finished
every row has its property. -/
theorem submit_rows [Nonempty ι] (hL : L.Sound P Post) {out : List E} {work : ι → H}
    (hout : out.length = L.limit * L.width) (hP : ∀ t, P (work t)) (sched : List (ι × Unit)) :
    (complete L.act isDone sched ⟨⟨0, out⟩, fun t => ⟨.fetch, work t⟩⟩).Ensures fun c =>
      c.shared.out.length = L.limit * L.width ∧ (∀ t, P (c.threads t).work) ∧
        ∀ i < L.limit, Post i (Rows.row L.width i c.shared.out) := by
  refine (complete_ensures (L.Inv P Post) (fun c x hc _ => Inv.step hL c x hc)
    (inv_start hout hP) (along_true _ _)).mono ?_
  rintro c ⟨hinv, hdone⟩
  refine ⟨hinv.length, fun t => (hinv.tracks t).work, fun i hi => ?_⟩
  obtain ⟨t₀⟩ := ‹Nonempty ι›
  have hlim := (hinv.tracks t₀).finished (pc_of_isDone (hdone t₀))
  refine (hinv.claimed i hi (hi.trans_le hlim)).resolve_left ?_
  rintro ⟨t, ht⟩
  simp only [Pending, pc_of_isDone (hdone t)] at ht

/-! ## Leaving the loop -/

/-- The number of actions a thread needs before its next claim. -/
def cost (t : Thread H) : Nat :=
  match t.pc with
  | .done => 0
  | .fetch => 1
  | .rows current last => last - current + 2

/-- What the threads together can still need; a claim of `n` positions costs
`n + 2` actions at most. -/
def total (L : RowLoop H E) (c : Config ι (Shared E) (Thread H)) : Nat :=
  3 * (L.limit - c.shared.next) + ∑ t, cost (c.threads t)

omit [Fintype ι] [DecidableEq ι] in
theorem act_cost (hstep : 0 < L.step) {s s' : Shared E} {t t' : Thread H}
    (h : L.act () s t = some (s', t')) (hdone : t.pc ≠ .done) :
    3 * (L.limit - s'.next) + cost t' < 3 * (L.limit - s.next) + cost t := by
  cases hpc : t.pc with
  | done => exact absurd hpc hdone
  | fetch =>
    simp only [act, hpc] at h
    split at h
    · obtain ⟨rfl, rfl⟩ := Prod.mk.inj (Option.some.inj h)
      simp only [cost, hpc]
      omega
    · obtain ⟨rfl, rfl⟩ := Prod.mk.inj (Option.some.inj h)
      simp only [cost, hpc]
      omega
  | rows current last =>
    simp only [act, hpc] at h
    split at h
    · obtain ⟨r, -, h⟩ := Option.bind_eq_some_iff.mp h
      obtain ⟨out, -, heq⟩ := Option.map_eq_some_iff.mp h
      obtain ⟨rfl, rfl⟩ := Prod.mk.inj heq
      simp only [cost, hpc]
      omega
    · obtain ⟨rfl, rfl⟩ := Prod.mk.inj (Option.some.inj h)
      simp only [cost, hpc]
      omega

theorem total_step (hstep : 0 < L.step) {c c' : Config ι (Shared E) (Thread H)} {x : ι × Unit}
    (h : Interleaving.step L.act c x = some c') :
    total L c' ≤ total L c ∧
      (isDone (c.threads x.1) = true → isDone (c'.threads x.1) = true) ∧
      (isDone (c.threads x.1) = false → total L c' < total L c) := by
  obtain ⟨s', t', hact, rfl⟩ := step_eq_some h
  by_cases hdone : (c.threads x.1).pc = .done
  · obtain ⟨rfl, rfl⟩ : s' = c.shared ∧ t' = c.threads x.1 := by
      simp only [act, hdone, Option.some.injEq, Prod.mk.injEq] at hact
      exact ⟨hact.1.symm, hact.2.symm⟩
    simp only [Function.update_eq_self]
    refine ⟨le_rfl, fun h => h, fun hnot => ?_⟩
    simp [isDone, hdone] at hnot
  · have hless := act_cost hstep hact hdone
    have hsum : ∀ f : ι → Nat, ∑ i, f i = f x.1 + ∑ i ∈ Finset.univ.erase x.1, f i := fun f =>
      (Finset.add_sum_erase _ f (Finset.mem_univ x.1)).symm
    have hrest : ∑ i ∈ Finset.univ.erase x.1, cost (Function.update c.threads x.1 t' i) =
        ∑ i ∈ Finset.univ.erase x.1, cost (c.threads i) :=
      Finset.sum_congr rfl fun i hi => by rw [Function.update_of_ne (Finset.ne_of_mem_erase hi)]
    have hlt : total L ⟨s', Function.update c.threads x.1 t'⟩ < total L c := by
      simp only [total]
      rw [hsum, hsum fun i => cost (c.threads i), hrest, Function.update_self]
      omega
    exact ⟨hlt.le, fun h => absurd (pc_of_isDone h) hdone, fun _ => hlt⟩

/-- Every schedule that lets each thread act often enough makes all threads
leave the loop. -/
theorem submit_returns (hL : L.Sound P Post) {out : List E} {work : ι → H}
    (hout : out.length = L.limit * L.width) (hP : ∀ t, P (work t)) {sched : List (ι × Unit)}
    (hturns : ∀ t, 3 * L.limit + Fintype.card ι < turns (fun _ => true) t sched) :
    ∃ c, complete L.act isDone sched ⟨⟨0, out⟩, fun t => ⟨.fetch, work t⟩⟩ = .returned c := by
  refine complete_returns (L.Inv P Post) (total L) (fun _ => true) ?_ (inv_start hout hP)
    (along_true sched _) fun t => Or.inr ?_
  · intro c x hc _
    obtain ⟨c', hrun, hinv⟩ := Inv.step hL c x hc
    obtain ⟨hle, hstay, hlt⟩ := total_step hL.step_pos hrun
    exact ⟨c', hrun, hinv, hle, hstay, fun hdone _ => hlt hdone⟩
  · have htotal : total L ⟨⟨0, out⟩, fun t : ι => ⟨.fetch, work t⟩⟩ =
        3 * L.limit + Fintype.card ι := by
      simp [total, cost]
    rw [htotal]
    exact hturns t

end Rule

/-- A thread alone with the first row, which cannot be computed. -/
theorem complete_first_row [Fintype ι] [DecidableEq ι] (hstep : 0 < L.step) (hlimit : 0 < L.limit)
    {c : Config ι (Shared E) (Thread H)} (hnext : c.shared.next = 0) {t : ι}
    (hfetch : (c.threads t).pc = .fetch) (hrow : L.row 0 (c.threads t).work = none) :
    complete L.act isDone [(t, ()), (t, ())] c = .fault := by
  have hclaim : Interleaving.step L.act c (t, ()) = some ⟨{ c.shared with next := L.step },
      Function.update c.threads t ⟨.rows 0 (min L.limit L.step), (c.threads t).work⟩⟩ := by
    apply step_of_act
    simp [act, hfetch, hnext, hlimit.ne']
  have hlast : 0 < min L.limit L.step := Nat.lt_min.mpr ⟨hlimit, hstep⟩
  rw [complete, run, hclaim, Option.bind_some]
  simp only [run, Interleaving.step, Function.update_self, act, if_pos hlast, hrow,
    Option.bind_none, Option.map_none]

end RowLoop

end Spheres.Library.MorselRows
