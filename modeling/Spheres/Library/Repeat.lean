import Spheres.Library.Outcome

/-!
# Calls repeated until a condition holds

A loop that submits one task after the other needs one schedule for each task.
`repeatUntil` runs such a loop; `Throughout` asserts a condition of the state
before every call that is made, and `repeatUntil_ensures` is the rule for an
invariant that the calls keep under this condition.
-/

namespace Spheres.Library.Outcome

variable {σ ε : Type*} (isDone : σ → Bool) (call : ε → σ → Outcome σ)

/-- Repeat a call until `isDone` holds; each call takes the next label. -/
def repeatUntil : List ε → σ → Outcome σ
  | [], s => if isDone s then .returned s else .blocked
  | x :: xs, s => if isDone s then .returned s else (call x s).bind (repeatUntil xs)

/-- `ok` holds of the state and the label of every call that is made. -/
def Throughout (ok : σ → ε → Prop) : List ε → σ → Prop
  | [], _ => True
  | x :: xs, s => isDone s = true ∨ (ok s x ∧ ∀ s', call x s = .returned s' → Throughout ok xs s')

instance decidableThroughout {ok : σ → ε → Prop} [∀ s x, Decidable (ok s x)] :
    (xs : List ε) → (s : σ) → Decidable (Throughout isDone call ok xs s)
  | [], _ => isTrue trivial
  | x :: xs, s =>
    match h : call x s with
    | .returned s' =>
      have : Decidable (Throughout isDone call ok xs s') := decidableThroughout xs s'
      decidable_of_iff (isDone s = true ∨ (ok s x ∧ Throughout isDone call ok xs s'))
        ⟨fun hx => hx.imp_right fun hx => ⟨hx.1, fun s'' hs'' => by
          rw [h] at hs''
          cases hs''
          exact hx.2⟩, fun hx => hx.imp_right fun hx => ⟨hx.1, hx.2 s' h⟩⟩
    | .fault =>
      decidable_of_iff (isDone s = true ∨ ok s x)
        ⟨fun hx => hx.imp_right fun hx => ⟨hx, fun s'' hs'' => by rw [h] at hs''; cases hs''⟩,
          fun hx => hx.imp_right And.left⟩
    | .blocked =>
      decidable_of_iff (isDone s = true ∨ ok s x)
        ⟨fun hx => hx.imp_right fun hx => ⟨hx, fun s'' hs'' => by rw [h] at hs''; cases hs''⟩,
          fun hx => hx.imp_right And.left⟩

variable {isDone call}

/-- A condition of the labels can be added. -/
theorem Throughout.and_label {ok : σ → ε → Prop} {good : ε → Prop} {xs : List ε} {s : σ}
    (h : Throughout isDone call ok xs s) (hgood : ∀ x ∈ xs, good x) :
    Throughout isDone call (fun s x => ok s x ∧ good x) xs s := by
  induction xs generalizing s with
  | nil => trivial
  | cons x xs ih =>
    rcases h with hdone | ⟨hx, hrest⟩
    · exact Or.inl hdone
    · refine Or.inr ⟨⟨hx, hgood x List.mem_cons_self⟩, fun s' hs' => ?_⟩
      exact ih (hrest s' hs') fun y hy => hgood y (List.mem_cons_of_mem _ hy)

/-- A condition may be weakened under an invariant of the calls that return. -/
theorem Throughout.mono_inv (Inv : σ → Prop) {ok ok' : σ → ε → Prop}
    (hle : ∀ s x, Inv s → ok s x → ok' s x)
    (hkeep : ∀ s x s', Inv s → call x s = .returned s' → Inv s') {xs : List ε} {s : σ}
    (hs : Inv s) (h : Throughout isDone call ok xs s) : Throughout isDone call ok' xs s := by
  induction xs generalizing s with
  | nil => trivial
  | cons x xs ih =>
    refine h.imp_right fun hok => ⟨hle s x hs hok.1, fun s' hs' => ?_⟩
    exact ih (hkeep s x s' hs hs') (hok.2 s' hs')

theorem throughout_true (xs : List ε) (s : σ) :
    Throughout isDone call (fun _ _ => True) xs s := by
  induction xs generalizing s with
  | nil => trivial
  | cons x xs ih => exact Or.inr ⟨trivial, fun s' _ => ih s'⟩

/-- An invariant that every call keeps without a fault, when it is made under
`ok`, holds when the loop is left. -/
theorem repeatUntil_ensures (Inv : σ → Prop) {ok : σ → ε → Prop}
    (hcall : ∀ s x, Inv s → isDone s = false → ok s x → (call x s).Ensures Inv) {xs : List ε}
    {s : σ} (hs : Inv s) (hok : Throughout isDone call ok xs s) :
    (repeatUntil isDone call xs s).Ensures fun s' => Inv s' ∧ isDone s' = true := by
  induction xs generalizing s with
  | nil =>
    rw [repeatUntil]
    split
    · exact ⟨hs, ‹_›⟩
    · trivial
  | cons x xs ih =>
    rw [repeatUntil]
    cases hdone : isDone s with
    | true => exact ⟨hs, hdone⟩
    | false =>
      obtain ⟨hx, hrest⟩ := hok.resolve_left (by simp [hdone])
      have hkeep := hcall s x hs hdone hx
      rw [if_neg Bool.false_ne_true]
      cases hrun : call x s with
      | fault =>
        rw [hrun] at hkeep
        exact hkeep.elim
      | blocked => trivial
      | returned s' => exact ih (hkeep.of_returned hrun) (hrest s' hrun)

/-- What every call that returns keeps holds when the loop returns. -/
theorem repeatUntil_returned (Inv : σ → Prop)
    (hcall : ∀ s x s', Inv s → isDone s = false → call x s = .returned s' → Inv s') {xs : List ε}
    {s s' : σ} (hs : Inv s) (hrun : repeatUntil isDone call xs s = .returned s') :
    Inv s' ∧ isDone s' = true := by
  induction xs generalizing s with
  | nil =>
    rw [repeatUntil] at hrun
    split at hrun
    · cases hrun
      exact ⟨hs, ‹_›⟩
    · cases hrun
  | cons x xs ih =>
    rw [repeatUntil] at hrun
    cases hdone : isDone s with
    | true =>
      rw [hdone, if_pos rfl] at hrun
      cases hrun
      exact ⟨hs, hdone⟩
    | false =>
      rw [hdone, if_neg Bool.false_ne_true] at hrun
      obtain ⟨t, ht, hrest⟩ := bind_eq_returned.mp hrun
      exact ih (hcall s x t hs hdone ht) hrest

/-- The loop returns if every call does and lowers a measure, and there are
labels for as many calls. -/
theorem repeatUntil_returns (Inv : σ → Prop) {ok : σ → ε → Prop} (measure : σ → Nat)
    (hcall : ∀ s x, Inv s → isDone s = false → ok s x →
      ∃ s', call x s = .returned s' ∧ Inv s' ∧ measure s' < measure s)
    (hzero : ∀ s, measure s = 0 → isDone s = true) {xs : List ε} {s : σ} (hs : Inv s)
    (hok : Throughout isDone call ok xs s) (hlength : measure s ≤ xs.length) :
    ∃ s', repeatUntil isDone call xs s = .returned s' := by
  induction xs generalizing s with
  | nil =>
    have hdone := hzero s (Nat.le_zero.mp hlength)
    exact ⟨s, by rw [repeatUntil, if_pos hdone]⟩
  | cons x xs ih =>
    rw [repeatUntil]
    cases hdone : isDone s with
    | true => exact ⟨s, rfl⟩
    | false =>
      obtain ⟨hx, hrest⟩ := hok.resolve_left (by simp [hdone])
      obtain ⟨t, ht, hinv, hlt⟩ := hcall s x hs hdone hx
      rw [if_neg Bool.false_ne_true, ht, bind_returned]
      refine ih hinv (hrest t ht) ?_
      rw [List.length_cons] at hlength
      omega

/-- A loop whose calls all return, keep an invariant and lower a measure. -/
theorem repeatUntil_total (Inv : σ → Prop) (measure : σ → Nat)
    (hcall : ∀ s x, Inv s → isDone s = false →
      ∃ s', call x s = .returned s' ∧ Inv s' ∧ measure s' < measure s)
    (hzero : ∀ s, measure s = 0 → isDone s = true) {xs : List ε} {s : σ} (hs : Inv s)
    (hlength : measure s ≤ xs.length) :
    ∃ s', repeatUntil isDone call xs s = .returned s' ∧ Inv s' ∧ isDone s' = true := by
  obtain ⟨s', hrun⟩ := repeatUntil_returns Inv measure (fun s x hinv hdone _ => hcall s x hinv hdone)
    hzero hs (throughout_true xs s) hlength
  have hkeep : ∀ s x s', Inv s → isDone s = false → call x s = .returned s' → Inv s' := by
    intro s x s' hinv hdone hx
    obtain ⟨t, ht, hinv', -⟩ := hcall s x hinv hdone
    obtain rfl := Outcome.returned.inj (ht.symm.trans hx)
    exact hinv'
  exact ⟨s', hrun, repeatUntil_returned Inv hkeep hs hrun⟩

end Spheres.Library.Outcome
