import Mathlib.Data.List.Basic

/-!
# Machines with a step function, and progress in rounds

A machine whose threads act in the order of a schedule has a step function on
its states. If every step either changes nothing or lowers a measure, and in
every state that is not final some thread has a step that changes something,
then a schedule that gives every thread a turn in each of sufficiently many
rounds ends in a final state.
-/

namespace Spheres.Library.Rounds

variable {σ ι ε : Type*} (step : σ → ι × ε → σ)

/-- The state after a schedule. -/
def run (sched : List (ι × ε)) (s : σ) : σ := sched.foldl step s

/-- Every thread has a turn. -/
def IsRound (sched : List (ι × ε)) : Prop := ∀ t, ∃ e, (t, e) ∈ sched

variable {step}

theorem run_append (xs ys : List (ι × ε)) (s : σ) :
    run step (xs ++ ys) s = run step ys (run step xs s) := List.foldl_append

/-- An invariant of the steps is an invariant of the runs. -/
theorem run_inv (Inv : σ → Prop) (hstep : ∀ s x, Inv s → Inv (step s x)) (sched : List (ι × ε))
    {s : σ} (h : Inv s) : Inv (run step sched s) := by
  induction sched generalizing s with
  | nil => exact h
  | cons x xs ih => exact ih (hstep s x h)

section Progress

variable {Inv final : σ → Prop} {calm : ε → Prop} {measure : σ → Nat}

/-- Along calm steps the measure does not rise; if it stays, nothing has happened
and no turn changes anything. -/
theorem run_measure (hstep : ∀ s x, Inv s → Inv (step s x))
    (hmeasure : ∀ s x, Inv s → calm x.2 → step s x = s ∨ measure (step s x) < measure s)
    (sched : List (ι × ε)) (hcalm : ∀ x ∈ sched, calm x.2) {s : σ} (h : Inv s) :
    measure (run step sched s) < measure s ∨
      run step sched s = s ∧ ∀ x ∈ sched, step s x = s := by
  induction sched generalizing s with
  | nil => exact Or.inr ⟨rfl, by simp⟩
  | cons x xs ih =>
    have hrest := ih (fun y hy => hcalm y (List.mem_cons_of_mem _ hy)) (hstep s x h)
    have hrun : run step (x :: xs) s = run step xs (step s x) := rfl
    rw [hrun]
    rcases hmeasure s x h (hcalm x List.mem_cons_self) with hsame | hless
    · rw [hsame] at hrest ⊢
      refine hrest.imp_right fun hidle => ⟨hidle.1, ?_⟩
      intro y hy
      rcases List.mem_cons.mp hy with rfl | hy
      · exact hsame
      · exact hidle.2 y hy
    · refine Or.inl ?_
      rcases hrest with hless' | hidle
      · exact Nat.lt_trans hless' hless
      · rw [hidle.1]
        exact hless

/-- The rule for progress. -/
theorem run_rounds (hstep : ∀ s x, Inv s → Inv (step s x))
    (hmeasure : ∀ s x, Inv s → calm x.2 → step s x = s ∨ measure (step s x) < measure s)
    (hfinal : ∀ s x, final s → final (step s x))
    (hprogress : ∀ s, Inv s → ¬ final s → ∃ t, ∀ e, calm e → step s (t, e) ≠ s)
    (rounds : List (List (ι × ε))) (hround : ∀ xs ∈ rounds, IsRound xs ∧ ∀ x ∈ xs, calm x.2)
    {s : σ} (h : Inv s) (hlength : measure s < rounds.length) :
    final (run step rounds.flatten s) := by
  induction rounds generalizing s with
  | nil => exact absurd hlength (Nat.not_lt_zero _)
  | cons xs rounds ih =>
    obtain ⟨hxs, hcalm⟩ := hround xs List.mem_cons_self
    rw [List.flatten_cons, run_append]
    by_cases hs : final s
    · exact run_inv final hfinal _ (run_inv final hfinal _ hs)
    · obtain ⟨t, ht⟩ := hprogress s h hs
      obtain ⟨e, he⟩ := hxs t
      have hless : measure (run step xs s) < measure s := by
        refine (run_measure hstep hmeasure xs hcalm h).resolve_right fun hidle => ?_
        exact ht e (hcalm _ he) (hidle.2 _ he)
      refine ih (fun ys hys => hround ys (List.mem_cons_of_mem _ hys))
        (run_inv Inv hstep xs h) ?_
      rw [List.length_cons] at hlength
      omega

end Progress

end Spheres.Library.Rounds
