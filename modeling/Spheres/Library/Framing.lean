import Spheres.Library.MorselLoop
import Spheres.Library.MorselRows
import Spheres.Library.Repeat

/-!
# Operations that stay in their part of the memory

A state may be a part of a larger memory. An operation is local when it does the
same whatever lies behind its part, and leaves that alone: it commutes with
extending the part. Threads whose operations are local have local runs, each
with a memory of its own behind its part.
-/

namespace Spheres.Library

/-- States that extend into what lies behind them. Operations keep `keeps` in any
case and are local if `fits`. -/
structure Frame (H B : Type*) where
  keeps : H → Prop
  fits : Prop
  extend : B → H → H

namespace Frame

variable {H B α γ : Type*} {F : Frame H B} {f g : H → Option H} {w : H}

/-- An operation on the states of a frame, at one of them. -/
structure Local (F : Frame H B) (f : H → Option H) (w : H) : Prop where
  keeps : ∀ w', f w = some w' → F.keeps w'
  commutes : F.fits → ∀ b, f (F.extend b w) = (f w).map (F.extend b)

theorem local_some (h : F.keeps w) : F.Local some w where
  keeps _ hw' := Option.some.inj hw' ▸ h
  commutes _ _ := rfl

theorem Local.bind (hf : F.Local f w) (hg : ∀ w', f w = some w' → F.Local g w') :
    F.Local (fun w => (f w).bind g) w where
  keeps w' hw' := by
    obtain ⟨w₁, hw₁, hw'⟩ := Option.bind_eq_some_iff.mp hw'
    exact (hg w₁ hw₁).keeps w' hw'
  commutes hfits b := by
    rw [hf.commutes hfits b]
    cases hw : f w with
    | none => rfl
    | some w₁ => exact (hg w₁ hw).commutes hfits b

/-- A value that is read from the part, or from elsewhere. -/
theorem local_read (read : H → Option α) (f : α → H → Option H)
    (hread : F.fits → ∀ b, read (F.extend b w) = read w)
    (hf : ∀ a, read w = some a → F.Local (f a) w) :
    F.Local (fun w => (read w).bind fun a => f a w) w where
  keeps w' hw' := by
    obtain ⟨a, ha, hw'⟩ := Option.bind_eq_some_iff.mp hw'
    exact (hf a ha).keeps w' hw'
  commutes hfits b := by
    simp only [hread hfits b]
    cases ha : read w with
    | none => rfl
    | some a => exact (hf a ha).commutes hfits b

theorem local_ite {c : H → Prop} [DecidablePred c] (hc : F.fits → ∀ b, c (F.extend b w) ↔ c w)
    (hf : c w → F.Local f w) (hg : ¬ c w → F.Local g w) :
    F.Local (fun w => if c w then f w else g w) w where
  keeps w' hw' := by
    by_cases hcw : c w
    · exact (hf hcw).keeps w' (by simpa only [if_pos hcw] using hw')
    · exact (hg hcw).keeps w' (by simpa only [if_neg hcw] using hw')
  commutes hfits b := by
    by_cases hcw : c w
    · simp only [if_pos hcw, if_pos ((hc hfits b).mpr hcw)]
      exact (hf hcw).commutes hfits b
    · simp only [if_neg hcw, if_neg fun h => hcw ((hc hfits b).mp h)]
      exact (hg hcw).commutes hfits b

theorem local_foldlM {f : H → γ → Option H} {l : List γ}
    (hf : ∀ w, F.keeps w → ∀ c, F.Local (f · c) w) (h : F.keeps w) :
    F.Local (fun w => l.foldlM f w) w := by
  induction l generalizing w with
  | nil => exact local_some h
  | cons c l ih =>
    have hfirst := hf w h c
    exact hfirst.bind fun w' hw' => ih (hfirst.keeps w' hw')

end Frame

namespace Interleaving

variable {ι ε σ τ τ' : Type*}

/-- The same configuration with other private states. -/
def Config.map (f : ι → τ → τ') (c : Config ι σ τ) : Config ι σ τ' :=
  ⟨c.shared, fun t => f t (c.threads t)⟩

variable [DecidableEq ι] {act : ε → σ → τ → Option (σ × τ)} {act' : ε → σ → τ' → Option (σ × τ')}
  {f : ι → τ → τ'} {Inv : Config ι σ τ → Prop}

/-- A property of private states that every action keeps holds of all threads. -/
theorem threads_step {P : τ → Prop}
    (hact : ∀ e s t s' t', P t → act e s t = some (s', t') → P t') {c c' : Config ι σ τ}
    {x : ι × ε} (hc : ∀ t, P (c.threads t)) (h : step act c x = some c') :
    ∀ t, P (c'.threads t) := by
  obtain ⟨s', th', hrun, rfl⟩ := step_eq_some h
  intro t
  show P (Function.update c.threads x.1 th' t)
  by_cases ht : t = x.1
  · subst ht
    rw [Function.update_self]
    exact hact x.2 _ _ _ _ (hc x.1) hrun
  · rw [Function.update_of_ne ht]
    exact hc t

theorem step_map {c : Config ι σ τ} {x : ι × ε}
    (hact : act' x.2 c.shared (f x.1 (c.threads x.1)) =
      (act x.2 c.shared (c.threads x.1)).map (Prod.map id (f x.1))) :
    step act' (c.map f) x = (step act c x).map (Config.map f) := by
  unfold step
  show (act' x.2 c.shared (f x.1 (c.threads x.1))).map _ = _
  rw [hact, Option.map_map, Option.map_map]
  congr 1
  funext r
  show Config.mk r.1 _ = Config.mk r.1 _
  congr 1
  funext t
  by_cases ht : t = x.1
  · subst ht
    simp
  · simp [ht, Config.map]

/-- Runs from mapped states, when every action commutes with the map. -/
theorem run_map (hkeep : ∀ c x c', Inv c → step act c x = some c' → Inv c')
    (hact : ∀ c t e, Inv c → act' e c.shared (f t (c.threads t)) =
      (act e c.shared (c.threads t)).map (Prod.map id (f t)))
    (sched : List (ι × ε)) {c : Config ι σ τ} (hc : Inv c) :
    run act' sched (c.map f) = (run act sched c).map (Config.map f) := by
  induction sched generalizing c with
  | nil => rfl
  | cons x xs ih =>
    rw [run, run, step_map (hact c x.1 x.2 hc)]
    cases hd : step act c x with
    | none => rfl
    | some d => exact ih (hkeep c x d hc hd)

variable [Fintype ι] {isDone : τ → Bool} {isDone' : τ' → Bool}

theorem complete_map (hkeep : ∀ c x c', Inv c → step act c x = some c' → Inv c')
    (hact : ∀ c t e, Inv c → act' e c.shared (f t (c.threads t)) =
      (act e c.shared (c.threads t)).map (Prod.map id (f t)))
    (hdone : ∀ t s, isDone' (f t s) = isDone s) (sched : List (ι × ε)) {c : Config ι σ τ}
    (hc : Inv c) :
    complete act' isDone' sched (c.map f) =
      (complete act isDone sched c).bind fun c' => .returned (c'.map f) := by
  unfold complete
  rw [run_map hkeep hact sched hc]
  cases run act sched c with
  | none => rfl
  | some d =>
    simp only [Option.map_some, Config.map, hdone]
    split <;> rfl

end Interleaving

/-! ## The loop over morsels -/

namespace MorselLoop

open Interleaving

variable {ι R H B : Type*} [LinearOrder R]

/-- The scans of the loop are local, and what a thread publishes or counts is read
from its part. -/
structure Loop.Framed (L : Loop R H) (F : Frame H B) : Prop where
  scan : ∀ b lo hi w, F.keeps w → F.Local (L.scan b lo hi) w
  top : ∀ w, F.keeps w → F.fits → ∀ b, L.top (F.extend b w) = L.top w
  retire : ∀ b w, L.retire (F.extend b w) = L.retire w

/-- A thread whose state is extended. -/
def Thread.extend (F : Frame H B) (b : B) (t : Thread R H) : Thread R H :=
  ⟨t.pc, F.extend b t.work⟩

variable {L : Loop R H} {F : Frame H B}

theorem act_keeps (hL : L.Framed F) {weakFailure : Bool} {s s' : Shared R} {t t' : Thread R H}
    (ht : F.keeps t.work) (h : L.act weakFailure s t = some (s', t')) : F.keeps t'.work := by
  rcases Loop.act_work h with ⟨lo, -, hscan⟩ | ⟨hwork, -⟩
  · exact (hL.scan _ _ _ _ ht).keeps _ hscan
  · exact hwork ▸ ht

theorem act_extend (hL : L.Framed F) (hfits : F.fits) (weakFailure : Bool) (s : Shared R)
    {t : Thread R H} (ht : F.keeps t.work) (b : B) :
    L.act weakFailure s (t.extend F b) =
      (L.act weakFailure s t).map (Prod.map id (Thread.extend F b)) := by
  obtain ⟨pc, w⟩ := t
  have htop := hL.top w ht hfits b
  have hretry : L.retry s (F.extend b w) =
      (L.retry s w).map (Prod.map id (Thread.extend F b)) := by
    rw [Loop.retry, Loop.retry, htop, Option.map_map]
    rfl
  cases pc with
  | fetch =>
    simp only [Loop.act, Thread.extend, hL.retire b w]
    split <;> rfl
  | load lo =>
    have hscan := hL.scan s.bound lo (L.claimEnd lo) w ht
    simp only [Loop.act, Thread.extend, hscan.commutes hfits b]
    cases hw : L.scan s.bound lo (L.claimEnd lo) w with
    | none => rfl
    | some w' =>
      simp only [Option.map_some, Option.bind_some, hL.top w' (hscan.keeps w' hw) hfits b,
        Option.map_map]
      rfl
  | reload => exact hretry
  | exchange expected =>
    simp only [Loop.act, Thread.extend, htop]
    split
    · rw [Option.map_map]
      rfl
    · exact hretry
  | done => rfl

variable [DecidableEq ι]

theorem keeps_step (hL : L.Framed F) {c c' : Config ι (Shared R) (Thread R H)} {x : ι × Bool}
    (hc : ∀ t, F.keeps (c.threads t).work) (h : step L.act c x = some c') :
    ∀ t, F.keeps (c'.threads t).work :=
  threads_step (P := fun t : Thread R H => F.keeps t.work)
    (fun _ _ _ _ _ ht => act_keeps hL ht) hc h

variable [Fintype ι]

/-- Every state that a thread of the loop comes to is one of the frame. -/
theorem keeps_complete (hL : L.Framed F) {sched : List (ι × Bool)}
    {c c' : Config ι (Shared R) (Thread R H)} (hc : ∀ t, F.keeps (c.threads t).work)
    (h : complete L.act Loop.isDone sched c = .returned c') : ∀ t, F.keeps (c'.threads t).work :=
  run_keeps _ (fun _ _ _ hc => keeps_step hL hc) hc (complete_eq_returned.mp h).1

/-- The threads of the loop do the same whatever lies behind their parts. -/
theorem complete_extend (hL : L.Framed F) (hfits : F.fits) (behind : ι → B)
    (sched : List (ι × Bool)) {c : Config ι (Shared R) (Thread R H)}
    (hc : ∀ t, F.keeps (c.threads t).work) :
    complete L.act Loop.isDone sched (c.map fun t => Thread.extend F (behind t)) =
      (complete L.act Loop.isDone sched c).bind fun c' =>
        .returned (c'.map fun t => Thread.extend F (behind t)) :=
  complete_map (fun _ _ _ hc => keeps_step hL hc)
    (fun c t e hc => act_extend hL hfits e c.shared (hc t) (behind t)) (fun _ _ => rfl) sched hc

end MorselLoop

/-! ## The loop over rows -/

namespace MorselRows

open Interleaving

variable {ι H E B : Type*}

/-- The rows of the loop are computed from the part of a thread. -/
structure RowLoop.Framed (L : RowLoop H E) (F : Frame H B) : Prop where
  keeps : ∀ i w r, F.keeps w → L.row i w = some r → F.keeps r.1
  commutes : F.fits → ∀ i w b, F.keeps w →
    L.row i (F.extend b w) = (L.row i w).map (Prod.map (F.extend b) id)

/-- A thread whose state is extended. -/
def Thread.extend (F : Frame H B) (b : B) (t : Thread H) : Thread H :=
  ⟨t.pc, F.extend b t.work⟩

variable {L : RowLoop H E} {F : Frame H B}

theorem act_keeps (hL : L.Framed F) {e : Unit} {s s' : Shared E} {t t' : Thread H}
    (ht : F.keeps t.work) (h : L.act e s t = some (s', t')) : F.keeps t'.work := by
  obtain ⟨pc, w⟩ := t
  cases pc with
  | fetch =>
    simp only [RowLoop.act] at h
    split at h <;> cases h <;> exact ht
  | rows current last =>
    simp only [RowLoop.act] at h
    split at h
    · obtain ⟨r, hr, h⟩ := Option.bind_eq_some_iff.mp h
      obtain ⟨out, -, heq⟩ := Option.map_eq_some_iff.mp h
      cases heq
      exact hL.keeps current w r ht hr
    · cases h
      exact ht
  | done =>
    cases h
    exact ht

theorem act_extend (hL : L.Framed F) (hfits : F.fits) (e : Unit) (s : Shared E) {t : Thread H}
    (ht : F.keeps t.work) (b : B) :
    L.act e s (t.extend F b) = (L.act e s t).map (Prod.map id (Thread.extend F b)) := by
  obtain ⟨pc, w⟩ := t
  cases pc with
  | fetch =>
    simp only [RowLoop.act, Thread.extend]
    split <;> rfl
  | rows current last =>
    simp only [RowLoop.act, Thread.extend, hL.commutes hfits current w b ht]
    split
    · cases L.row current w with
      | none => rfl
      | some r =>
        simp only [Option.map_some, Option.bind_some, Option.map_map, Prod.map]
        rfl
    · rfl
  | done => rfl

variable [DecidableEq ι]

theorem keeps_step (hL : L.Framed F) {c c' : Config ι (Shared E) (Thread H)} {x : ι × Unit}
    (hc : ∀ t, F.keeps (c.threads t).work) (h : step L.act c x = some c') :
    ∀ t, F.keeps (c'.threads t).work :=
  threads_step (P := fun t : Thread H => F.keeps t.work)
    (fun _ _ _ _ _ ht => act_keeps hL ht) hc h

variable [Fintype ι]

theorem keeps_complete (hL : L.Framed F) {sched : List (ι × Unit)}
    {c c' : Config ι (Shared E) (Thread H)} (hc : ∀ t, F.keeps (c.threads t).work)
    (h : complete L.act RowLoop.isDone sched c = .returned c') :
    ∀ t, F.keeps (c'.threads t).work :=
  run_keeps _ (fun _ _ _ hc => keeps_step hL hc) hc (complete_eq_returned.mp h).1

theorem complete_extend (hL : L.Framed F) (hfits : F.fits) (behind : ι → B)
    (sched : List (ι × Unit)) {c : Config ι (Shared E) (Thread H)}
    (hc : ∀ t, F.keeps (c.threads t).work) :
    complete L.act RowLoop.isDone sched (c.map fun t => Thread.extend F (behind t)) =
      (complete L.act RowLoop.isDone sched c).bind fun c' =>
        .returned (c'.map fun t => Thread.extend F (behind t)) :=
  complete_map (fun _ _ _ hc => keeps_step hL hc)
    (fun c t e hc => act_extend hL hfits e c.shared (hc t) (behind t)) (fun _ _ => rfl) sched hc

end MorselRows

/-! ## Repeated calls -/

namespace Outcome

variable {σ ε : Type*} {call : ε → σ → Outcome σ} {f : σ → σ} {Inv : σ → Prop}

/-- A loop of calls that commute with a map of the states. -/
theorem repeatUntil_map (isDone : σ → Bool)
    (hkeep : ∀ s x s', Inv s → call x s = .returned s' → Inv s')
    (hcall : ∀ s x, Inv s → call x (f s) = (call x s).bind fun s' => .returned (f s'))
    (hdone : ∀ s, isDone (f s) = isDone s) (xs : List ε) {s : σ} (hs : Inv s) :
    repeatUntil isDone call xs (f s) =
      (repeatUntil isDone call xs s).bind fun s' => .returned (f s') := by
  induction xs generalizing s with
  | nil =>
    rw [repeatUntil, repeatUntil, hdone]
    split <;> rfl
  | cons x xs ih =>
    rw [repeatUntil, repeatUntil, hdone, hcall s x hs]
    split
    · rfl
    · cases hrun : call x s with
      | returned s' => exact ih (hkeep s x s' hs hrun)
      | _ => rfl

end Outcome

end Spheres.Library
