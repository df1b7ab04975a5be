import Spheres.Library.ForRange

/-!
# Records, one behind the other

`parseMany` takes `n` records from the front of an input. It is what remains of a loop
that reads a record in every round once the loop's own state is a function of the records
read so far (`forRange_eq_parseMany`). A parser that accepts exactly what an encoder emits
does so for many records as well.
-/

namespace Spheres.Library

universe u

variable {ε : Type*} {β γ σ : Type u} {parse : β → Except ε (γ × β)} {n : Nat} {b : β}

def parseMany (parse : β → Except ε (γ × β)) : Nat → β → Except ε (List γ × β)
  | 0, b => .ok ([], b)
  | n + 1, b => (parseMany parse n b).bind fun r => (parse r.2).map fun p => (r.1 ++ [p.1], p.2)

/-- A result is an error or a value. -/
theorem ok_or_error (o : Except ε σ) : (∃ e, o = .error e) ∨ ∃ r, o = .ok r := by
  cases o with
  | error e => exact Or.inl ⟨e, rfl⟩
  | ok r => exact Or.inr ⟨r, rfl⟩

theorem parseMany_add (m n : Nat) (b : β) :
    parseMany parse (m + n) b = (parseMany parse m b).bind fun r =>
      (parseMany parse n r.2).map fun p => (r.1 ++ p.1, p.2) := by
  induction n with
  | zero =>
    rcases ok_or_error (parseMany parse m b) with ⟨e, he⟩ | ⟨r, hr⟩
    · rw [Nat.add_zero, he]
      rfl
    · rw [Nat.add_zero, hr]
      simp [parseMany, Except.bind, Except.map]
  | succ n ih =>
    rw [← Nat.add_assoc, parseMany, ih]
    rcases ok_or_error (parseMany parse m b) with ⟨e, he⟩ | ⟨r, hr⟩
    · rw [he]
      rfl
    · rw [hr]
      simp only [parseMany, Except.bind]
      cases parseMany parse n r.2 with
      | error e => rfl
      | ok p =>
        simp only [Except.map]
        cases parse p.2 with
        | error e => rfl
        | ok q => simp only [List.append_assoc]

theorem parseMany_add_ok {m : Nat} {r : List γ × β} (h : parseMany parse (m + n) b = .ok r) :
    ∃ r₁ r₂, parseMany parse m b = .ok r₁ ∧ parseMany parse n r₁.2 = .ok r₂ ∧
      r = (r₁.1 ++ r₂.1, r₂.2) := by
  rw [parseMany_add] at h
  rcases ok_or_error (parseMany parse m b) with ⟨e, he⟩ | ⟨r₁, hr₁⟩
  · rw [he] at h
    cases h
  · rw [hr₁] at h
    simp only [Except.bind] at h
    rcases ok_or_error (parseMany parse n r₁.2) with ⟨e, he⟩ | ⟨r₂, hr₂⟩
    · rw [he] at h
      cases h
    · rw [hr₂] at h
      exact ⟨r₁, r₂, hr₁, hr₂, (Except.ok.inj h).symm⟩

theorem parseMany_add_error {m : Nat} {e : ε} (h : parseMany parse (m + n) b = .error e) :
    parseMany parse m b = .error e ∨
      ∃ r, parseMany parse m b = .ok r ∧ parseMany parse n r.2 = .error e := by
  rw [parseMany_add] at h
  rcases ok_or_error (parseMany parse m b) with ⟨e', he⟩ | ⟨r, hr⟩
  · rw [he] at h
    obtain rfl := Except.error.inj h
    exact Or.inl he
  · rw [hr] at h
    simp only [Except.bind] at h
    rcases ok_or_error (parseMany parse n r.2) with ⟨e', he⟩ | ⟨r₂, hr₂⟩
    · rw [he] at h
      obtain rfl := Except.error.inj h
      exact Or.inr ⟨r, hr, he⟩
    · rw [hr₂] at h
      cases h

theorem length_of_parseMany {r : List γ × β} (h : parseMany parse n b = .ok r) :
    r.1.length = n := by
  induction n generalizing r with
  | zero =>
    obtain rfl := Except.ok.inj h
    rfl
  | succ n ih =>
    rcases ok_or_error (parseMany parse n b) with ⟨e, he⟩ | ⟨p, hp⟩
    · rw [parseMany, he] at h
      cases h
    · rw [parseMany, hp] at h
      simp only [Except.bind] at h
      cases hq : parse p.2 with
      | error e =>
        rw [hq] at h
        cases h
      | ok q =>
        rw [hq] at h
        obtain rfl := Except.ok.inj h
        rw [List.length_append, ih hp, List.length_singleton]

/-- The errors are those of the parser. -/
theorem error_of_parseMany {P : ε → Prop} (h : ∀ b e, parse b = .error e → P e) {e : ε}
    (herror : parseMany parse n b = .error e) : P e := by
  induction n generalizing e with
  | zero => cases herror
  | succ n ih =>
    rcases ok_or_error (parseMany parse n b) with ⟨e', he⟩ | ⟨r, hr⟩
    · rw [parseMany, he] at herror
      obtain rfl := Except.error.inj herror
      exact ih he
    · rw [parseMany, hr] at herror
      simp only [Except.bind] at herror
      rcases ok_or_error (parse r.2) with ⟨e', he⟩ | ⟨p, hp⟩
      · rw [he] at herror
        obtain rfl := Except.error.inj herror
        exact h r.2 e' he
      · rw [hp] at herror
        cases herror

/-- A loop that reads a record in every round, its state a function of the records read
and of the input left. -/
theorem forRange_eq_parseMany {body : Nat → σ → Except ε σ} (view : List γ × β → σ)
    (h : ∀ i < n, ∀ r : List γ × β, r.1.length = i →
      body i (view r) = (parse r.2).map fun p => view (r.1 ++ [p.1], p.2)) :
    forRange n body (view ([], b)) = (parseMany parse n b).map view := by
  induction n with
  | zero => rfl
  | succ n ih =>
    rw [forRange_succ, ih fun i hi => h i (by omega), parseMany]
    rcases ok_or_error (parseMany parse n b) with ⟨e, he⟩ | ⟨r, hr⟩
    · rw [he]
      rfl
    · rw [hr]
      simp only [Except.map, Except.bind, ok_bind]
      rw [h n (by omega) r (length_of_parseMany hr)]
      cases parse r.2 <;> rfl

/-- A parser that accepts what an encoder emits, record by record. -/
theorem parseMany_iff {α : Type u} {parse : List α → Except ε (γ × List α)} {emit : γ → List α}
    (hparse : ∀ l p rest, parse l = .ok (p, rest) ↔ l = emit p ++ rest) {l : List α}
    {ps : List γ} {rest : List α} :
    parseMany parse n l = .ok (ps, rest) ↔ ps.length = n ∧ l = ps.flatMap emit ++ rest := by
  induction n generalizing ps rest with
  | zero =>
    rw [parseMany, List.length_eq_zero_iff]
    constructor
    · intro h
      obtain ⟨rfl, rfl⟩ := Prod.mk.inj (Except.ok.inj h)
      exact ⟨rfl, rfl⟩
    · rintro ⟨rfl, rfl⟩
      rfl
  | succ n ih =>
    constructor
    · intro h
      have hlength := length_of_parseMany h
      refine ⟨hlength, ?_⟩
      rcases ok_or_error (parseMany parse n l) with ⟨e, he⟩ | ⟨⟨qs, mid⟩, hr⟩
      · rw [parseMany, he] at h
        cases h
      · rw [parseMany, hr] at h
        simp only [Except.bind] at h
        cases hq : parse mid with
        | error e =>
          rw [hq] at h
          cases h
        | ok q =>
          rw [hq] at h
          obtain ⟨rfl, rfl⟩ := Prod.mk.inj (Except.ok.inj h)
          rw [(ih.mp hr).2, (hparse mid q.1 q.2).mp hq]
          simp only [List.flatMap_append, List.flatMap_singleton, List.append_assoc]
    · rintro ⟨hlength, rfl⟩
      obtain ⟨qs, q, rfl⟩ : ∃ qs q, ps = qs ++ [q] := by
        have hne : ps ≠ [] := List.ne_nil_of_length_eq_add_one hlength
        exact ⟨ps.dropLast, ps.getLast hne, (List.dropLast_append_getLast hne).symm⟩
      have hqs : qs.length = n := by simpa using hlength
      have hrun := ih.mpr ⟨hqs, (show (qs ++ [q]).flatMap emit ++ rest =
        qs.flatMap emit ++ (emit q ++ rest) by
          simp only [List.flatMap_append, List.flatMap_singleton, List.append_assoc])⟩
      rw [parseMany, hrun]
      simp only [Except.bind]
      rw [(hparse (emit q ++ rest) q rest).mpr rfl]
      rfl

end Spheres.Library
