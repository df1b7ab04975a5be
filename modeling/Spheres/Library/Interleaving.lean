import Mathlib.Logic.Function.Basic
import Mathlib.Data.List.Basic

/-!
# Threads interleaved by a schedule

A thread is given by its next atomic action, a function of the shared state
and of the thread's own state; the label carries what the machine decides
(such as a spurious failure). A schedule is a list of threads with labels, and
running it performs the named actions in this order. `none` is an action
without a meaning, such as a read past the end of a buffer.

`run_total` is the induction over runs. Its hypothesis on a single step may
use a condition `ok` on the state before the step; `Along` asserts that
condition for every step of one run.
-/

namespace Spheres.Library.Interleaving

variable {ι ε σ τ : Type*}

structure Config (ι σ τ : Type*) where
  shared : σ
  threads : ι → τ

variable [DecidableEq ι] (act : ε → σ → τ → Option (σ × τ))

/-- The action of one thread. The other threads keep their own state. -/
def step (c : Config ι σ τ) (x : ι × ε) : Option (Config ι σ τ) :=
  (act x.2 c.shared (c.threads x.1)).map fun r => ⟨r.1, Function.update c.threads x.1 r.2⟩

/-- All actions of a schedule in order. -/
def run : List (ι × ε) → Config ι σ τ → Option (Config ι σ τ)
  | [], c => some c
  | x :: xs, c => (step act c x).bind (run xs)

/-- `ok` holds before every step of the run. -/
def Along (ok : Config ι σ τ → ι × ε → Prop) : List (ι × ε) → Config ι σ τ → Prop
  | [], _ => True
  | x :: xs, c => ok c x ∧ ∀ c', step act c x = some c' → Along ok xs c'

variable {act}

theorem step_eq_some {c c' : Config ι σ τ} {x : ι × ε} (h : step act c x = some c') :
    ∃ s t, act x.2 c.shared (c.threads x.1) = some (s, t) ∧
      c' = ⟨s, Function.update c.threads x.1 t⟩ := by
  obtain ⟨⟨s, t⟩, hact, rfl⟩ := Option.map_eq_some_iff.mp h
  exact ⟨s, t, hact, rfl⟩

theorem step_of_act {c : Config ι σ τ} {x : ι × ε} {s : σ} {t : τ}
    (h : act x.2 c.shared (c.threads x.1) = some (s, t)) :
    step act c x = some ⟨s, Function.update c.threads x.1 t⟩ := by
  simp [step, h]

@[simp] theorem run_nil (c : Config ι σ τ) : run act [] c = some c := rfl

theorem run_cons {c c' : Config ι σ τ} {x : ι × ε} {xs : List (ι × ε)} :
    run act (x :: xs) c = some c' ↔ ∃ d, step act c x = some d ∧ run act xs d = some c' := by
  simp [run, Option.bind_eq_some_iff]

theorem run_append {xs ys : List (ι × ε)} {c d : Config ι σ τ} (h : run act xs c = some d) :
    run act (xs ++ ys) c = run act ys d := by
  induction xs generalizing c with
  | nil =>
    obtain rfl := Option.some.inj h
    rfl
  | cons x xs ih =>
    obtain ⟨e, he, hrest⟩ := run_cons.mp h
    simp only [List.cons_append, run, he, Option.bind_some]
    exact ih hrest

/-- An invariant that every step meeting `ok` preserves without a fault holds
at the end of every run whose steps meet `ok`, and that run has no fault. -/
theorem run_total (Inv : Config ι σ τ → Prop) {ok : Config ι σ τ → ι × ε → Prop}
    (hstep : ∀ c x, Inv c → ok c x → ∃ c', step act c x = some c' ∧ Inv c')
    {xs : List (ι × ε)} {c : Config ι σ τ} (hc : Inv c) (hok : Along act ok xs c) :
    ∃ c', run act xs c = some c' ∧ Inv c' := by
  induction xs generalizing c with
  | nil => exact ⟨c, rfl, hc⟩
  | cons x xs ih =>
    obtain ⟨d, hd, hinv⟩ := hstep c x hc hok.1
    obtain ⟨c', hc', hfin⟩ := ih hinv (hok.2 d hd)
    exact ⟨c', run_cons.mpr ⟨d, hd, hc'⟩, hfin⟩

/-- What every step that has a meaning keeps holds at the end of a run. -/
theorem run_keeps (Inv : Config ι σ τ → Prop)
    (hstep : ∀ c x c', Inv c → step act c x = some c' → Inv c') {xs : List (ι × ε)}
    {c c' : Config ι σ τ} (hc : Inv c) (h : run act xs c = some c') : Inv c' := by
  induction xs generalizing c with
  | nil =>
    obtain rfl := Option.some.inj h
    exact hc
  | cons x xs ih =>
    obtain ⟨d, hd, hrest⟩ := run_cons.mp h
    exact ih (hstep c x d hc hd) hrest

/-- Two programs whose steps agree under an invariant have the same runs. -/
theorem run_congr {act' : ε → σ → τ → Option (σ × τ)} (Inv : Config ι σ τ → Prop)
    (hstep : ∀ c x, Inv c → step act c x = step act' c x)
    (hkeep : ∀ c x c', Inv c → step act c x = some c' → Inv c') {xs : List (ι × ε)}
    {c : Config ι σ τ} (hc : Inv c) : run act xs c = run act' xs c := by
  induction xs generalizing c with
  | nil => rfl
  | cons x xs ih =>
    rw [run, run, ← hstep c x hc]
    cases hd : step act c x with
    | none => rfl
    | some d => exact ih (hkeep c x d hc hd)

/-- A configuration seen through a part of the shared state and a part of each thread. -/
def Config.view {σ' τ' : Type*} (π : σ → σ') (ρ : τ → τ') (c : Config ι σ τ) : Config ι σ' τ' :=
  ⟨π c.shared, fun t => ρ (c.threads t)⟩

section View

variable {ε' σ' τ' : Type*} {act' : ε' → σ' → τ' → Option (σ' × τ')} {π : σ → σ'} {ρ : τ → τ'}
  {g : ε → ε'}

/-- Actions that work on a part of the state make the steps of a program on this part. -/
theorem step_view (h : ∀ e s t, (act e s t).map (Prod.map π ρ) = act' (g e) (π s) (ρ t))
    (c : Config ι σ τ) (x : ι × ε) :
    (step act c x).map (Config.view π ρ) = step act' (c.view π ρ) (x.1, g x.2) := by
  have hact := h x.2 c.shared (c.threads x.1)
  simp only [step, Config.view, ← hact, Option.map_map]
  refine congrArg (fun f => (act x.2 c.shared (c.threads x.1)).map f) (funext fun r => ?_)
  simp only [Function.comp_apply, Prod.map, Config.view]
  congr 1
  funext t
  by_cases ht : t = x.1
  · rw [ht, Function.update_self, Function.update_self]
  · rw [Function.update_of_ne ht, Function.update_of_ne ht]

theorem run_view (h : ∀ e s t, (act e s t).map (Prod.map π ρ) = act' (g e) (π s) (ρ t))
    (xs : List (ι × ε)) (c : Config ι σ τ) :
    (run act xs c).map (Config.view π ρ) =
      run act' (xs.map fun x => (x.1, g x.2)) (c.view π ρ) := by
  induction xs generalizing c with
  | nil => rfl
  | cons x xs ih =>
    rw [List.map_cons, run, run, ← step_view h]
    cases step act c x with
    | none => rfl
    | some d => exact ih d

end View

theorem along_true (xs : List (ι × ε)) (c : Config ι σ τ) :
    Along act (fun _ _ => True) xs c := by
  induction xs generalizing c with
  | nil => trivial
  | cons x xs ih => exact ⟨trivial, fun c' _ => ih c'⟩

theorem Along.mono {ok ok' : Config ι σ τ → ι × ε → Prop} (hle : ∀ c x, ok c x → ok' c x)
    {xs : List (ι × ε)} {c : Config ι σ τ} (h : Along act ok xs c) : Along act ok' xs c := by
  induction xs generalizing c with
  | nil => trivial
  | cons x xs ih => exact ⟨hle c x h.1, fun c' hc' => ih (h.2 c' hc')⟩

/-- A condition may be weakened under an invariant of the steps that meet it. -/
theorem Along.mono_inv (Inv : Config ι σ τ → Prop) {ok ok' : Config ι σ τ → ι × ε → Prop}
    (hle : ∀ c x, Inv c → ok c x → ok' c x)
    (hkeep : ∀ c x c', Inv c → ok c x → step act c x = some c' → Inv c')
    {xs : List (ι × ε)} {c : Config ι σ τ} (hc : Inv c) (h : Along act ok xs c) :
    Along act ok' xs c := by
  induction xs generalizing c with
  | nil => trivial
  | cons x xs ih =>
    exact ⟨hle c x hc h.1, fun c' hc' => ih (hkeep c x c' hc h.1 hc') (h.2 c' hc')⟩

instance decidableAlong {ok : Config ι σ τ → ι × ε → Prop} [∀ c x, Decidable (ok c x)] :
    (xs : List (ι × ε)) → (c : Config ι σ τ) → Decidable (Along act ok xs c)
  | [], _ => isTrue trivial
  | x :: xs, c =>
    match h : step act c x with
    | none => decidable_of_iff (ok c x) ⟨fun hx => ⟨hx, fun c' hc' => by simp [h] at hc'⟩, And.left⟩
    | some d =>
      have : Decidable (Along act ok xs d) := decidableAlong xs d
      decidable_of_iff (ok c x ∧ Along act ok xs d)
        ⟨fun hx => ⟨hx.1, fun c' hc' => by
          obtain rfl : d = c' := Option.some.inj (h.symm.trans hc')
          exact hx.2⟩, fun hx => ⟨hx.1, hx.2 d h⟩⟩

end Spheres.Library.Interleaving
