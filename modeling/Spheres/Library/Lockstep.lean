import Spheres.Library.MorselLoop

/-!
# Two runs side by side

Two runs of one program under the same schedule, from states that are related,
stay related as long as every action preserves the relation. For the loop over
morsels it is enough to relate the private states: two threads whose scans keep
the relation, and whose published values agree whenever they are read, do the
same to everything they share.
-/

namespace Spheres.Library

section OptionRel

variable {α α' β β' γ : Type*} {r : α → α' → Prop} {r' : β → β' → Prop}

theorem rel_none_left {o' : Option α'} (h : Option.Rel r none o') : o' = none := by
  generalize ho : (none : Option α) = o at h
  cases h with
  | some _ => cases ho
  | none => rfl

theorem rel_some_left {a : α} {o' : Option α'} (h : Option.Rel r (some a) o') :
    ∃ a', o' = some a' ∧ r a a' := by
  generalize ho : some a = o at h
  cases h with
  | some h =>
    cases ho
    exact ⟨_, rfl, h⟩
  | none => cases ho

theorem rel_bind {o : Option α} {o' : Option α'} (h : Option.Rel r o o') {f : α → Option β}
    {f' : α' → Option β'} (hf : ∀ a a', r a a' → Option.Rel r' (f a) (f' a')) :
    Option.Rel r' (o.bind f) (o'.bind f') := by
  cases h with
  | some h => exact hf _ _ h
  | none => exact .none

theorem rel_map {o : Option α} {o' : Option α'} (h : Option.Rel r o o') {f : α → β} {f' : α' → β'}
    (hf : ∀ a a', r a a' → r' (f a) (f' a')) : Option.Rel r' (o.map f) (o'.map f') := by
  cases h with
  | some h => exact .some (hf _ _ h)
  | none => exact .none

/-- An option is related to itself by a relation that holds on its value. -/
theorem rel_self {r : α → α → Prop} {o : Option α} (h : ∀ a, o = some a → r a a) :
    Option.Rel r o o := by
  cases o with
  | some a => exact .some (h a rfl)
  | none => exact .none

theorem rel_foldlM {f : α → γ → Option α} {f' : α' → γ → Option α'}
    (hstep : ∀ a a' c, r a a' → Option.Rel r (f a c) (f' a' c)) (l : List γ) {a : α} {a' : α'}
    (h : r a a') : Option.Rel r (l.foldlM f a) (l.foldlM f' a') := by
  induction l generalizing a a' with
  | nil => exact .some h
  | cons c l ih =>
    rw [List.foldlM_cons, List.foldlM_cons]
    exact rel_bind (hstep a a' c h) fun a a' => ih

end OptionRel

/-- Two outcomes of the same kind with related results. -/
inductive Outcome.Rel {α α' : Type*} (r : α → α' → Prop) : Outcome α → Outcome α' → Prop
  | fault : Rel r .fault .fault
  | blocked : Rel r .blocked .blocked
  | returned {a : α} {a' : α'} : r a a' → Rel r (.returned a) (.returned a')

theorem Outcome.Rel.of_returned {α α' : Type*} {r : α → α' → Prop} {a : α} {a' : α'}
    (h : Outcome.Rel r (.returned a) (.returned a')) : r a a' := by
  cases h with
  | returned h => exact h

namespace Interleaving

variable {ι ε σ σ' τ τ' : Type*} [DecidableEq ι] {act : ε → σ → τ → Option (σ × τ)}
  {act' : ε → σ' → τ' → Option (σ' × τ')} {rel : Config ι σ τ → Config ι σ' τ' → Prop}
  {ok : Config ι σ τ → ι × ε → Prop}

/-- Related configurations stay related along a schedule whose steps meet `ok`. -/
theorem rel_run (hstep : ∀ c c' x, rel c c' → ok c x → Option.Rel rel (step act c x) (step act' c' x))
    {xs : List (ι × ε)} {c : Config ι σ τ} {c' : Config ι σ' τ'} (h : rel c c')
    (hok : Along act ok xs c) : Option.Rel rel (run act xs c) (run act' xs c') := by
  induction xs generalizing c c' with
  | nil => exact .some h
  | cons x xs ih =>
    have hfirst := hstep c c' x h hok.1
    simp only [run]
    cases hd : step act c x with
    | none =>
      rw [hd] at hfirst
      rw [rel_none_left hfirst]
      exact .none
    | some d =>
      rw [hd] at hfirst
      obtain ⟨d', hd', hrel⟩ := rel_some_left hfirst
      rw [hd']
      exact ih hrel (hok.2 d hd)

variable [Fintype ι] {isDone : τ → Bool} {isDone' : τ' → Bool}

theorem rel_complete
    (hstep : ∀ c c' x, rel c c' → ok c x → Option.Rel rel (step act c x) (step act' c' x))
    (hdone : ∀ c c', rel c c' → ∀ t, isDone (c.threads t) = isDone' (c'.threads t))
    {xs : List (ι × ε)} {c : Config ι σ τ} {c' : Config ι σ' τ'} (h : rel c c')
    (hok : Along act ok xs c) :
    Outcome.Rel rel (complete act isDone xs c) (complete act' isDone' xs c') := by
  have hrun := rel_run hstep h hok
  simp only [complete]
  cases hd : run act xs c with
  | none =>
    rw [hd] at hrun
    rw [rel_none_left hrun]
    exact .fault
  | some d =>
    rw [hd] at hrun
    obtain ⟨d', hd', hrel⟩ := rel_some_left hrun
    simp only [hd', hdone d d' hrel]
    split
    · exact .returned hrel
    · exact .blocked

end Interleaving

namespace MorselLoop

open Interleaving

variable {ι R H : Type*} [LinearOrder R]

/-- The same place in the loop with related private states; a thread that is to
publish a value has the same one. -/
structure SameThread (L : Loop R H) (same : H → H → Prop) (t t' : Thread R H) : Prop where
  pc : t'.pc = t.pc
  work : same t.work t'.work
  top : (t.pc = .reload ∨ ∃ expected, t.pc = .exchange expected) → L.top t.work = L.top t'.work

/-- The same counter and the same bound, and threads that agree; the tallies may differ. -/
structure SameConfig (L : Loop R H) (same : H → H → Prop)
    (c c' : Config ι (Shared R) (Thread R H)) : Prop where
  next : c'.shared.next = c.shared.next
  bound : c'.shared.bound = c.shared.bound
  threads : ∀ t, SameThread L same (c.threads t) (c'.threads t)

/-- Related private states stay related through a scan, and live ones have the
same value to publish. -/
structure Loop.Agrees (L : Loop R H) (same : H → H → Prop) (live : H → Prop) : Prop where
  scan : ∀ b lo hi w w', same w w' → Option.Rel same (L.scan b lo hi w) (L.scan b lo hi w')
  top : ∀ w w', same w w' → live w → L.top w = L.top w'

variable {L : Loop R H} {same : H → H → Prop} {live : H → Prop}

/-- A thread that is about to compare its value with the bound is live. -/
def ComparesLive (L : Loop R H) (live : H → Prop) (c : Config ι (Shared R) (Thread R H))
    (x : ι × Bool) : Prop :=
  ∀ lo, (c.threads x.1).pc = .load lo →
    ∀ w ∈ L.scan c.shared.bound lo (L.claimEnd lo) (c.threads x.1).work, live w

theorem rel_retry {s s' : Shared R} (hnext : s'.next = s.next) (hbound : s'.bound = s.bound)
    {w w' : H} (hsame : same w w') (htop : L.top w = L.top w') :
    Option.Rel (fun r r' : Shared R × Thread R H => r'.1.next = r.1.next ∧
      r'.1.bound = r.1.bound ∧ SameThread L same r.2 r'.2) (L.retry s w) (L.retry s' w') := by
  rw [Loop.retry, Loop.retry, ← htop, hbound]
  exact rel_map (rel_self fun _ _ => rfl) fun a a' h => by
    subst h
    exact ⟨hnext, hbound, rfl, hsame, fun _ => htop⟩

theorem rel_act (hL : L.Agrees same live) {s s' : Shared R} (hnext : s'.next = s.next)
    (hbound : s'.bound = s.bound) {t t' : Thread R H} (h : SameThread L same t t')
    (hlive : ∀ lo, t.pc = .load lo → ∀ w ∈ L.scan s.bound lo (L.claimEnd lo) t.work, live w)
    (weakFailure : Bool) :
    Option.Rel (fun r r' : Shared R × Thread R H => r'.1.next = r.1.next ∧
      r'.1.bound = r.1.bound ∧ SameThread L same r.2 r'.2)
      (L.act weakFailure s t) (L.act weakFailure s' t') := by
  unfold Loop.act
  rw [h.pc, hbound, hnext]
  cases hpc : t.pc with
  | fetch =>
    simp only
    split
    · exact .some ⟨rfl, rfl, rfl, h.work, by simp⟩
    · exact .some ⟨rfl, rfl, rfl, h.work, by simp⟩
  | load lo =>
    have hscan := hL.scan s.bound lo (L.claimEnd lo) _ _ h.work
    have hlive := hlive lo hpc
    simp only
    cases hw : L.scan s.bound lo (L.claimEnd lo) t.work with
    | none =>
      rw [hw] at hscan
      rw [rel_none_left hscan]
      exact .none
    | some w =>
      rw [hw] at hscan
      obtain ⟨w', hw', hsame⟩ := rel_some_left hscan
      have htop := hL.top w w' hsame (hlive w hw)
      simp only [hw', Option.bind_some, ← htop]
      exact rel_map (rel_self fun _ _ => rfl) fun a a' ha => by
        subst ha
        exact ⟨hnext, hbound, rfl, hsame, fun _ => htop⟩
  | reload => exact rel_retry hnext hbound h.work (h.top (Or.inl hpc))
  | exchange expected =>
    have htop := h.top (Or.inr ⟨expected, hpc⟩)
    simp only
    split
    · rw [← htop]
      exact rel_map (rel_self fun _ _ => rfl) fun a a' ha => by
        subst ha
        exact ⟨rfl, rfl, rfl, h.work, by simp⟩
    · exact rel_retry hnext hbound h.work htop
  | done => exact .some ⟨hnext, hbound, h.pc, h.work, h.top⟩

variable [DecidableEq ι] [Fintype ι]

/-- Two runs of the loop under the same schedule do the same. -/
theorem rel_submit (hL : L.Agrees same live) {c c' : Config ι (Shared R) (Thread R H)}
    (h : SameConfig L same c c') {sched : List (ι × Bool)}
    (hok : Along L.act (ComparesLive L live) sched c) :
    Outcome.Rel (SameConfig L same) (complete L.act Loop.isDone sched c)
      (complete L.act Loop.isDone sched c') := by
  refine rel_complete (fun c c' x hc hx => ?_) (fun c c' hc t => ?_) h hok
  · refine rel_map (rel_act hL hc.next hc.bound (hc.threads x.1) hx x.2) fun r r' hr => ?_
    refine ⟨hr.1, hr.2.1, fun t => ?_⟩
    by_cases ht : t = x.1
    · subst ht
      simpa only [Function.update_self] using hr.2.2
    · simpa only [Function.update_of_ne ht] using hc.threads t
  · simp only [Loop.isDone, (hc.threads t).pc]

end MorselLoop

end Spheres.Library
