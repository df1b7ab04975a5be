import Mathlib.Data.List.Basic

/-!
# Loops that leave a trail

Each round of a loop that may fail has, besides the next state, something to
report. `trail` lists the reports of the rounds up to a failure. If the loop
comes to its end, there is one report for each round, and what every round says
of its report and of a measure of the state adds up.
-/

namespace Spheres.Library

variable {σ α β γ : Type*} {f : σ → α → Option (σ × β)}

/-- The loop without the reports. -/
def loopOf (f : σ → α → Option (σ × β)) (l : List α) (s : σ) : Option σ :=
  l.foldlM (fun s a => (f s a).map (·.1)) s

/-- The reports of the rounds up to a failure. -/
def trail (f : σ → α → Option (σ × β)) : List α → σ → List β
  | [], _ => []
  | a :: l, s => (f s a).elim [] fun r => r.2 :: trail f l r.1

theorem loopOf_cons {a : α} {l : List α} {s s' : σ} (h : loopOf f (a :: l) s = some s') :
    ∃ r, f s a = some r ∧ loopOf f l r.1 = some s' ∧ trail f (a :: l) s = r.2 :: trail f l r.1 := by
  rw [loopOf, List.foldlM_cons] at h
  obtain ⟨s₁, hs₁, hrest⟩ := Option.bind_eq_some_iff.mp h
  obtain ⟨r, hr, rfl⟩ := Option.map_eq_some_iff.mp hs₁
  exact ⟨r, hr, hrest, by rw [trail, hr, Option.elim_some]⟩

/-- A report that tells which round it is of. -/
theorem map_trail {g : β → γ} {h : α → γ} (hstep : ∀ s a r, f s a = some r → g r.2 = h a)
    {l : List α} {s s' : σ} (hrun : loopOf f l s = some s') : (trail f l s).map g = l.map h := by
  induction l generalizing s with
  | nil => rfl
  | cons a l ih =>
    obtain ⟨r, hr, hrest, htrail⟩ := loopOf_cons hrun
    rw [htrail, List.map_cons, List.map_cons, ih hrest, hstep s a r hr]

theorem forall_trail {good : β → Prop} (hstep : ∀ s a r, f s a = some r → good r.2)
    {l : List α} {s s' : σ} (hrun : loopOf f l s = some s') : ∀ b ∈ trail f l s, good b := by
  induction l generalizing s with
  | nil => exact fun b hb => absurd hb List.not_mem_nil
  | cons a l ih =>
    obtain ⟨r, hr, hrest, htrail⟩ := loopOf_cons hrun
    rw [htrail]
    exact List.forall_mem_cons.mpr ⟨hstep s a r hr, ih hrest⟩

/-- A measure that grows with every report of a kind. -/
theorem countP_trail {p : β → Bool} {measure : σ → Nat}
    (hstep : ∀ s a r, f s a = some r → measure r.1 = measure s + if p r.2 then 1 else 0)
    {l : List α} {s s' : σ} (hrun : loopOf f l s = some s') :
    measure s' = measure s + (trail f l s).countP p := by
  induction l generalizing s with
  | nil =>
    obtain rfl := Option.some.inj hrun
    rfl
  | cons a l ih =>
    obtain ⟨r, hr, hrest, htrail⟩ := loopOf_cons hrun
    rw [ih hrest, htrail, List.countP_cons, hstep s a r hr]
    omega

end Spheres.Library
