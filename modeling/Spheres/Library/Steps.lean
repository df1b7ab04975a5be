import Mathlib.Tactic.TypeStar

/-!
# Runs with labels

`Steps step s es s'` says that steps with the labels `es`, in this order, lead
from `s` to `s'`. A label is what is seen of a step from outside. If every step
of one system is answered by a step of another one with the same label, between
states that belong together, then whatever is seen of a run of the first system
is seen of a run of the second.
-/

namespace Spheres.Library

variable {σ τ ε : Type*}

inductive Steps (step : σ → ε → σ → Prop) : σ → List ε → σ → Prop
  | nil (s : σ) : Steps step s [] s
  | cons {s t u : σ} {e : ε} {es : List ε} :
    step s e t → Steps step t es u → Steps step s (e :: es) u

variable {step : σ → ε → σ → Prop} {step' : τ → ε → τ → Prop}

theorem Steps.concat {s t u : σ} {e : ε} {es : List ε} (h : Steps step s es t)
    (hstep : step t e u) : Steps step s (es ++ [e]) u := by
  induction h with
  | nil s => exact .cons hstep (.nil u)
  | cons hs _ ih => exact .cons hs (ih hstep)

theorem Steps.append {s u : σ} {es es' : List ε} (h : Steps step s (es ++ es') u) :
    ∃ t, Steps step s es t ∧ Steps step t es' u := by
  induction es generalizing s with
  | nil => exact ⟨s, .nil s, h⟩
  | cons e es ih =>
    obtain ⟨⟩ | ⟨hs, hrest⟩ := h
    obtain ⟨t, hes, hes'⟩ := ih hrest
    exact ⟨t, .cons hs hes, hes'⟩

theorem steps_singleton {s t : σ} {e : ε} : Steps step s [e] t ↔ step s e t := by
  constructor
  · intro h
    obtain ⟨⟩ | ⟨hs, hnil⟩ := h
    cases hnil
    exact hs
  · exact fun hs => .cons hs (.nil t)

/-- Forward simulation. -/
theorem Steps.simulate (Rel : σ → τ → Prop)
    (hstep : ∀ s a e s', Rel s a → step s e s' → ∃ a', step' a e a' ∧ Rel s' a') {s s' : σ}
    {es : List ε} (h : Steps step s es s') {a : τ} (ha : Rel s a) :
    ∃ a', Steps step' a es a' ∧ Rel s' a' := by
  induction h generalizing a with
  | nil => exact ⟨a, .nil a, ha⟩
  | cons hs _ ih =>
    obtain ⟨b, hb, hrel⟩ := hstep _ _ _ _ ha hs
    obtain ⟨a', hrun, hrel'⟩ := ih hrel
    exact ⟨a', .cons hb hrun, hrel'⟩

/-- Steps that are steps of another kind once their labels are rewritten. -/
theorem Steps.relabel {ε' : Type*} {step' : σ → ε' → σ → Prop} (f : ε → ε')
    (hstep : ∀ s e s', step s e s' → step' s (f e) s') {s s' : σ} {es : List ε}
    (h : Steps step s es s') : Steps step' s (es.map f) s' := by
  induction h with
  | nil s => exact .nil s
  | cons hs _ ih => exact .cons (hstep _ _ _ hs) ih

end Spheres.Library
