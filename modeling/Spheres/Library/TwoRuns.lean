import Spheres.Library.ForRange

/-!
# Two runs side by side

`BothOk x y rel` says that two programs both run to their ends, with results that
belong together. It is kept by programs that are put one after the other, by
counting loops and by folds over lists of equal length.
-/

namespace Spheres.Library

universe u

variable {σ τ α β : Type u} {ε : Type*} {n : Nat}

def BothOk (x : Except ε σ) (y : Except ε τ) (rel : σ → τ → Prop) : Prop :=
  ∃ s t, x = .ok s ∧ y = .ok t ∧ rel s t

theorem BothOk.of_ok {x : Except ε σ} {y : Except ε τ} {s : σ} {t : τ} {rel : σ → τ → Prop}
    (hx : x = .ok s) (hy : y = .ok t) (h : rel s t) : BothOk x y rel :=
  ⟨s, t, hx, hy, h⟩

theorem BothOk.bind {x : Except ε σ} {y : Except ε τ} {rel : σ → τ → Prop}
    {f : σ → Except ε α} {g : τ → Except ε β} {rel' : α → β → Prop} (h : BothOk x y rel)
    (hf : ∀ s t, rel s t → BothOk (f s) (g t) rel') : BothOk (x >>= f) (y >>= g) rel' := by
  obtain ⟨s, t, hx, hy, hrel⟩ := h
  rw [hx, hy, ok_bind, ok_bind]
  exact hf s t hrel

theorem BothOk.mono {x : Except ε σ} {y : Except ε τ} {rel rel' : σ → τ → Prop}
    (h : BothOk x y rel) (hrel : ∀ s t, rel s t → rel' s t) : BothOk x y rel' := by
  obtain ⟨s, t, hx, hy, hst⟩ := h
  exact ⟨s, t, hx, hy, hrel s t hst⟩

/-- Two loops of as many rounds. -/
theorem BothOk.forRange {body : Nat → σ → Except ε σ} {body' : Nat → τ → Except ε τ}
    (rel : Nat → σ → τ → Prop) {s : σ} {t : τ} (h0 : rel 0 s t)
    (h : ∀ i < n, ∀ s t, rel i s t → BothOk (body i s) (body' i t) (rel (i + 1))) :
    BothOk (forRange n body s) (forRange n body' t) (rel n) := by
  induction n with
  | zero => exact .of_ok rfl rfl h0
  | succ n ih =>
    rw [forRange_succ, forRange_succ]
    exact (ih fun i hi => h i (by omega)).bind (h n (by omega))

end Spheres.Library
