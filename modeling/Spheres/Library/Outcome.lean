import Mathlib.Data.Fintype.Basic
import Spheres.Library.Interleaving

/-!
# Outcomes of a call that waits for threads

A call that starts threads and waits for them has an outcome under every
schedule: an action without a meaning was reached, the schedule ends before all
threads are done, or the call returns. `Ensures` is partial correctness with
absence of faults; `complete_returns` gives the return itself, for every
schedule that lets each thread act often enough.
-/

namespace Spheres.Library

inductive Outcome (α : Type*) where
  | fault
  | blocked
  | returned (a : α)
  deriving DecidableEq

namespace Outcome

variable {α β : Type*}

def ofOption : Option α → Outcome α
  | none => .fault
  | some a => .returned a

def bind (o : Outcome α) (f : α → Outcome β) : Outcome β :=
  match o with
  | .fault => .fault
  | .blocked => .blocked
  | .returned a => f a

@[simp] theorem bind_returned (a : α) (f : α → Outcome β) : (returned a).bind f = f a := rfl

@[simp] theorem ofOption_some (a : α) : ofOption (some a) = .returned a := rfl

/-- No fault, and every result satisfies `post`. -/
def Ensures (post : α → Prop) : Outcome α → Prop
  | .fault => False
  | .blocked => True
  | .returned a => post a

@[simp] theorem ensures_returned {post : α → Prop} {a : α} :
    Ensures post (.returned a) ↔ post a := Iff.rfl

/-- Whenever the call returns, the result satisfies `post`. -/
def WhenReturned (post : α → Prop) : Outcome α → Prop
  | .returned a => post a
  | _ => True

instance (post : α → Prop) [DecidablePred post] :
    (o : Outcome α) → Decidable (o.WhenReturned post)
  | .fault => isTrue trivial
  | .blocked => isTrue trivial
  | .returned a => inferInstanceAs (Decidable (post a))

theorem Ensures.mono {post post' : α → Prop} {o : Outcome α} (h : o.Ensures post)
    (hle : ∀ a, post a → post' a) : o.Ensures post' := by
  cases o with
  | fault => exact h
  | blocked => trivial
  | returned a => exact hle a h

theorem Ensures.bind {post : α → Prop} {post' : β → Prop} {o : Outcome α} {f : α → Outcome β}
    (h : o.Ensures post) (hf : ∀ a, post a → (f a).Ensures post') : (o.bind f).Ensures post' := by
  cases o with
  | fault => exact h
  | blocked => trivial
  | returned a => exact hf a h

/-- A condition that is assumed of the result adds to what is known of it. -/
theorem Ensures.and_whenReturned {post post' : α → Prop} {o : Outcome α} (h : o.Ensures post)
    (h' : o.WhenReturned post') : o.Ensures fun a => post a ∧ post' a := by
  cases o with
  | fault => exact h
  | blocked => trivial
  | returned a => exact ⟨h, h'⟩

/-- The result may be taken to be known. -/
theorem Ensures.and_returned {post : α → Prop} {o : Outcome α} (h : o.Ensures post) :
    o.Ensures fun a => post a ∧ o = .returned a := by
  cases o with
  | fault => exact h
  | blocked => trivial
  | returned a => exact ⟨h, rfl⟩

theorem Ensures.ne_fault {post : α → Prop} {o : Outcome α} (h : o.Ensures post) : o ≠ .fault := by
  rintro rfl
  exact h

theorem Ensures.of_returned {post : α → Prop} {o : Outcome α} {a : α} (h : o.Ensures post)
    (heq : o = .returned a) : post a := by
  rw [heq] at h
  exact h

/-- The part of a result that a computation shows has the property. -/
theorem Ensures.of_map {post : β → Prop} {o : Outcome α} {f : α → β} {b : β}
    (h : o.Ensures fun a => post (f a)) (heq : (o.bind fun a => .returned (f a)) = .returned b) :
    post b := by
  cases o with
  | fault => cases heq
  | blocked => cases heq
  | returned a =>
    cases heq
    exact h

/-- A computation that waits for no thread returns, unless it is at fault. -/
theorem Ensures.of_ofOption {post : α → Prop} {o : Option α} (h : (ofOption o).Ensures post) :
    ∃ a, ofOption o = .returned a ∧ post a := by
  cases o with
  | none => exact h.elim
  | some a => exact ⟨a, rfl, h⟩

/-- What is left of a call that waits for no thread any more returns, unless it is
at fault. -/
theorem Ensures.exists_returned {post : β → Prop} {o : Option α} {f : α → β}
    (h : ((ofOption o).bind fun a => .returned (f a)).Ensures post) :
    ∃ b, ((ofOption o).bind fun a => .returned (f a)) = .returned b := by
  cases o with
  | none => exact h.elim
  | some a => exact ⟨f a, rfl⟩

theorem bind_assoc {γ : Type*} (o : Outcome α) (f : α → Outcome β) (g : β → Outcome γ) :
    (o.bind f).bind g = o.bind fun a => (f a).bind g := by
  cases o <;> rfl

theorem ofOption_map (o : Option α) (f : α → β) :
    ofOption (o.map f) = (ofOption o).bind fun a => .returned (f a) := by
  cases o <;> rfl

theorem bind_eq_returned {o : Outcome α} {f : α → Outcome β} {b : β} :
    o.bind f = .returned b ↔ ∃ a, o = .returned a ∧ f a = .returned b := by
  cases o <;> simp [Outcome.bind]

theorem bind_eq_fault {o : Outcome α} {f : α → Outcome β} :
    o.bind f = .fault ↔ o = .fault ∨ ∃ a, o = .returned a ∧ f a = .fault := by
  cases o <;> simp [Outcome.bind]

theorem ofOption_eq_returned {o : Option α} {a : α} : ofOption o = .returned a ↔ o = some a := by
  cases o <;> simp [ofOption]

end Outcome

namespace Interleaving

variable {ι ε σ τ : Type*} [DecidableEq ι] [Fintype ι] (act : ε → σ → τ → Option (σ × τ))
  (isDone : τ → Bool)

/-- Run a schedule and wait until all threads are done. -/
def complete (sched : List (ι × ε)) (c : Config ι σ τ) : Outcome (Config ι σ τ) :=
  match run act sched c with
  | none => .fault
  | some c' => if ∀ t, isDone (c'.threads t) = true then .returned c' else .blocked

variable {act isDone}

theorem complete_eq_returned {sched : List (ι × ε)} {c c' : Config ι σ τ} :
    complete act isDone sched c = .returned c' ↔
      run act sched c = some c' ∧ ∀ t, isDone (c'.threads t) = true := by
  unfold complete
  cases run act sched c with
  | none => simp
  | some d =>
    by_cases hdone : ∀ t, isDone (d.threads t) = true
    · simp only [if_pos hdone, Outcome.returned.injEq, Option.some.injEq]
      exact ⟨fun h => ⟨h, h ▸ hdone⟩, And.left⟩
    · simp only [if_neg hdone, reduceCtorEq, false_iff]
      rintro ⟨h, hdone'⟩
      obtain rfl := Option.some.inj h
      exact hdone hdone'

/-- A program that works on a part of the state is awaited as the program on this part. -/
theorem complete_view {ε' σ' τ' α : Type*} {act' : ε' → σ' → τ' → Option (σ' × τ')} {π : σ → σ'}
    {ρ : τ → τ'} {g : ε → ε'} {isDone' : τ' → Bool}
    (h : ∀ e s t, (act e s t).map (Prod.map π ρ) = act' (g e) (π s) (ρ t))
    (hdone : ∀ t, isDone t = isDone' (ρ t)) (sched : List (ι × ε)) (c : Config ι σ τ)
    (f : Config ι σ' τ' → Outcome α) :
    (complete act isDone sched c).bind (fun d => f (d.view π ρ)) =
      (complete act' isDone' (sched.map fun x => (x.1, g x.2)) (c.view π ρ)).bind f := by
  simp only [complete, ← run_view h]
  cases run act sched c with
  | none => rfl
  | some d =>
    simp only [Option.map_some, hdone]
    by_cases hall : ∀ t, isDone' (ρ (d.threads t)) = true
    · rw [if_pos hall, if_pos (show ∀ t, isDone' ((d.view π ρ).threads t) = true from hall)]
      rfl
    · rw [if_neg hall, if_neg (show ¬ ∀ t, isDone' ((d.view π ρ).threads t) = true from hall)]
      rfl

/-- The rule for a task: an invariant kept by every step that meets `ok` gives
the result of every schedule all of whose steps meet it. -/
theorem complete_ensures (Inv : Config ι σ τ → Prop) {ok : Config ι σ τ → ι × ε → Prop}
    (hstep : ∀ c x, Inv c → ok c x → ∃ c', step act c x = some c' ∧ Inv c')
    {sched : List (ι × ε)} {c : Config ι σ τ} (hc : Inv c) (hok : Along act ok sched c) :
    (complete act isDone sched c).Ensures fun c' =>
      Inv c' ∧ ∀ t, isDone (c'.threads t) = true := by
  obtain ⟨c', hrun, hinv⟩ := run_total Inv hstep hc hok
  simp only [complete, hrun]
  split
  · exact ⟨hinv, ‹_›⟩
  · trivial

/-- How often a schedule lets a thread act with a label that counts. -/
def turns (counts : ε → Bool) (t : ι) (sched : List (ι × ε)) : Nat :=
  sched.countP fun x => decide (x.1 = t) && counts x.2

/-- The rule for termination: if every action that counts of a thread that is
not done lowers a measure and no other action raises it, then no schedule that
gives each thread more turns than the measure ends before the threads do. -/
theorem complete_ne_blocked (Inv : Config ι σ τ → Prop) (measure : Config ι σ τ → Nat)
    (counts : ε → Bool) {ok : Config ι σ τ → ι × ε → Prop}
    (hstep : ∀ c x c', Inv c → ok c x → step act c x = some c' → Inv c' ∧
      measure c' ≤ measure c ∧
      (isDone (c.threads x.1) = true → isDone (c'.threads x.1) = true) ∧
      (isDone (c.threads x.1) = false → counts x.2 = true → measure c' < measure c))
    {sched : List (ι × ε)} {c : Config ι σ τ} (hc : Inv c) (hok : Along act ok sched c)
    (hturns : ∀ t, isDone (c.threads t) = true ∨ measure c < turns counts t sched) :
    complete act isDone sched c ≠ .blocked := by
  induction sched generalizing c with
  | nil =>
    have hdone : ∀ t, isDone (c.threads t) = true :=
      fun t => (hturns t).resolve_right (Nat.not_lt_zero _)
    simp only [complete, run_nil, if_pos hdone]
    exact fun h => by cases h
  | cons x xs ih =>
    cases hd : step act c x with
    | none =>
      simp only [complete, run, hd, Option.bind_none]
      exact fun h => by cases h
    | some d =>
      obtain ⟨hinv, hle, hstay, hlt⟩ := hstep c x d hc hok.1 hd
      have hcomplete : complete act isDone (x :: xs) c = complete act isDone xs d := by
        simp only [complete, run, hd, Option.bind_some]
      rw [hcomplete]
      refine ih hinv (hok.2 d hd) fun t => ?_
      have hother : t ≠ x.1 → d.threads t = c.threads t := by
        intro ht
        obtain ⟨s, th, -, rfl⟩ := step_eq_some hd
        simp [ht]
      have hcons : turns counts t (x :: xs) =
          turns counts t xs + if decide (x.1 = t) && counts x.2 then 1 else 0 :=
        List.countP_cons
      by_cases ht : t = x.1
      · subst ht
        cases hdone : isDone (c.threads x.1) with
        | true => exact Or.inl (hstay hdone)
        | false =>
          have hmore := (hturns x.1).resolve_left (by simp [hdone])
          rw [hcons] at hmore
          right
          cases hcount : counts x.2 with
          | true =>
            have := hlt hdone hcount
            simp only [hcount, decide_true, Bool.and_self, if_true] at hmore
            omega
          | false =>
            simp only [hcount, Bool.and_false, Bool.false_eq_true, if_false] at hmore
            omega
      · rw [hother ht]
        refine (hturns t).imp_right fun hmore => ?_
        have hne : decide (x.1 = t) = false := decide_eq_false fun h => ht h.symm
        rw [hcons, hne, Bool.false_and, if_neg Bool.false_ne_true] at hmore
        omega

/-- If no action is at fault, such a schedule makes the call return. -/
theorem complete_returns (Inv : Config ι σ τ → Prop) (measure : Config ι σ τ → Nat)
    (counts : ε → Bool) {ok : Config ι σ τ → ι × ε → Prop}
    (hstep : ∀ c x, Inv c → ok c x → ∃ c', step act c x = some c' ∧ Inv c' ∧
      measure c' ≤ measure c ∧
      (isDone (c.threads x.1) = true → isDone (c'.threads x.1) = true) ∧
      (isDone (c.threads x.1) = false → counts x.2 = true → measure c' < measure c))
    {sched : List (ι × ε)} {c : Config ι σ τ} (hc : Inv c) (hok : Along act ok sched c)
    (hturns : ∀ t, isDone (c.threads t) = true ∨ measure c < turns counts t sched) :
    ∃ c', complete act isDone sched c = .returned c' := by
  have hsound : (complete act isDone sched c).Ensures _ := complete_ensures Inv (fun c x hc hx => by
    obtain ⟨c', hrun, hinv, -⟩ := hstep c x hc hx
    exact ⟨c', hrun, hinv⟩) hc hok
  have hends : complete act isDone sched c ≠ .blocked := complete_ne_blocked Inv measure counts
    (fun c x c' hc hx hrun => by
      obtain ⟨d, hd, hrest⟩ := hstep c x hc hx
      obtain rfl : d = c' := Option.some.inj (hd.symm.trans hrun)
      exact hrest) hc hok hturns
  cases hcomplete : complete act isDone sched c with
  | fault =>
    rw [hcomplete] at hsound
    exact hsound.elim
  | blocked => exact absurd hcomplete hends
  | returned c' => exact ⟨c', rfl⟩

end Interleaving

end Spheres.Library
