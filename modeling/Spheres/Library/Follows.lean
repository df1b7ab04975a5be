import Mathlib.Data.List.Basic

/-!
# Programs that follow other programs

Two programs that may fail, of which the second does on concrete data what the first does
on abstract ones: whatever the first returns, the second returns something that stands for
it (`Follows`). Where the first fails nothing is asked of the second. The rules go along
the steps of both programs; in a sequence the second step may use what the first one
returned.
-/

namespace Spheres.Library

/-- Whatever `x` returns, `y` returns something that stands for it. -/
def Follows {α β : Type*} (P : α → β → Prop) (x : Option α) (y : Option β) : Prop :=
  ∀ a, x = some a → ∃ b, y = some b ∧ P a b

namespace Follows

variable {α α' β β' γ : Type*} {P : α → β → Prop} {Q : α' → β' → Prop} {x : Option α}
  {y : Option β}

theorem some {a : α} {b : β} (h : P a b) : Follows P (some a) (some b) := by
  rintro _ ⟨⟩
  exact ⟨b, rfl, h⟩

theorem none : Follows P none y := by
  rintro _ ⟨⟩

theorem refl (x : Option α) : Follows (· = ·) x x := fun a ha => ⟨a, ha, rfl⟩

theorem mono {P' : α → β → Prop} (h : Follows P x y) (hle : ∀ a b, x = .some a → P a b → P' a b) :
    Follows P' x y := by
  intro a ha
  obtain ⟨b, hb, hP⟩ := h a ha
  exact ⟨b, hb, hle a b ha hP⟩

/-- One step after the other. -/
theorem bind (h : Follows P x y) {f : α → Option α'} {g : β → Option β'}
    (hf : ∀ a b, x = .some a → P a b → Follows Q (f a) (g b)) :
    Follows Q (x.bind f) (y.bind g) := by
  intro a' ha'
  obtain ⟨a, ha, hfa⟩ := Option.bind_eq_some_iff.mp ha'
  obtain ⟨b, hb, hP⟩ := h a ha
  obtain ⟨b', hb', hQ⟩ := hf a b ha hP a' hfa
  exact ⟨b', Option.bind_eq_some_iff.mpr ⟨b, hb, hb'⟩, hQ⟩

theorem map (h : Follows P x y) {f : α → α'} {g : β → β'}
    (hf : ∀ a b, x = .some a → P a b → Q (f a) (g b)) : Follows Q (x.map f) (y.map g) := by
  intro a' ha'
  obtain ⟨a, ha, rfl⟩ := Option.map_eq_some_iff.mp ha'
  obtain ⟨b, hb, hP⟩ := h a ha
  exact ⟨g b, Option.map_eq_some_iff.mpr ⟨b, hb, rfl⟩, hf a b ha hP⟩

/-- A loop over the same list. -/
theorem foldlM {f : α → γ → Option α} {g : β → γ → Option β} {l : List γ}
    (hstep : ∀ a b, ∀ c ∈ l, P a b → Follows P (f a c) (g b c)) {a : α} {b : β} (h : P a b) :
    Follows P (l.foldlM f a) (l.foldlM g b) := by
  induction l generalizing a b with
  | nil => exact .some h
  | cons c l ih =>
    rw [List.foldlM_cons, List.foldlM_cons]
    refine (hstep a b c List.mem_cons_self h).bind fun a' b' _ h' => ?_
    exact ih (fun a b c hc => hstep a b c (List.mem_cons_of_mem _ hc)) h'

/-- Programs of the same results. -/
theorem mapM {f g : γ → Option α} {l : List γ}
    (hstep : ∀ c ∈ l, Follows (· = ·) (f c) (g c)) : Follows (· = ·) (l.mapM f) (l.mapM g) := by
  induction l with
  | nil => exact .some rfl
  | cons c l ih =>
    rw [List.mapM_cons, List.mapM_cons]
    refine (hstep c List.mem_cons_self).bind fun a b _ hab => ?_
    refine (ih fun c hc => hstep c (List.mem_cons_of_mem _ hc)).bind fun as bs _ habs => ?_
    exact .some (congrArg₂ List.cons hab habs)

end Follows

end Spheres.Library
