import Mathlib.Logic.Function.Basic

/-!
# Cells that may not be written yet

A buffer that has been allocated holds nothing its program knows of: a cell has a
value from the first write on. `Holds` says what a range of cells has been
written with, `fill` writes a range; a loop that writes one cell after the other
fills a longer and longer range (`fill_write`), and one that works in place
updates the contents of a range (`fill_update`).
-/

namespace Spheres.Library

/-- The cells of the buffers `β`, `none` where nothing has been written. -/
abbrev Cells (β α : Type*) := β → Nat → Option α

namespace Cells

variable {β α : Type*} [DecidableEq β] {m : Cells β α} {b b' : β} {o n i j : Nat}
  {f g x : Nat → α} {v : α}

def write (m : Cells β α) (b : β) (i : Nat) (v : α) : Cells β α :=
  fun b' i' => if b' = b ∧ i' = i then some v else m b' i'

/-- The cells from `o` to `o + n` are written with `f`. -/
def fill (m : Cells β α) (b : β) (o n : Nat) (f : Nat → α) : Cells β α :=
  fun b' i => if b' = b ∧ o ≤ i ∧ i < o + n then some (f (i - o)) else m b' i

/-- The cells from `o` to `o + n` have been written with `x`. -/
def Holds (m : Cells β α) (b : β) (o n : Nat) (x : Nat → α) : Prop :=
  ∀ i < n, m b (o + i) = some (x i)

/-- Every cell has been written. -/
def Full (m : Cells β α) : Prop := ∀ b i, ∃ v, m b i = some v

/-- What a buffer holds from `o` on, if it is full. -/
def values [Zero α] (m : Cells β α) (b : β) (o : Nat) : Nat → α := fun i => (m b (o + i)).getD 0

omit [DecidableEq β] in
theorem Full.holds [Zero α] (h : m.Full) : m.Holds b o n (m.values b o) := by
  intro i _
  obtain ⟨v, hv⟩ := h b (o + i)
  rw [values, hv]
  rfl

omit [DecidableEq β] in
theorem Holds.mono {k : Nat} (h : m.Holds b o n x) (hk : k ≤ n) : m.Holds b o k x :=
  fun i hi => h i (by omega)

omit [DecidableEq β] in
theorem Holds.congr {m' : Cells β α} (h : m.Holds b o n x) (hb : m' b = m b) :
    m'.Holds b o n x := by
  intro i hi
  rw [hb, h i hi]

omit [DecidableEq β] in
theorem Holds.congr_values (h : m.Holds b o n x) (hx : ∀ i < n, x i = f i) : m.Holds b o n f := by
  intro i hi
  rw [h i hi, hx i hi]

theorem Full.write (h : m.Full) : (m.write b i v).Full := by
  intro b' i'
  unfold Cells.write
  split
  · exact ⟨_, rfl⟩
  · exact h b' i'

theorem Full.fill (h : m.Full) : (m.fill b o n f).Full := by
  intro b' i'
  unfold Cells.fill
  split
  · exact ⟨_, rfl⟩
  · exact h b' i'

@[simp] theorem fill_zero : m.fill b o 0 f = m := by
  funext b' i
  exact if_neg (by omega)

theorem fill_of_ne (h : b' ≠ b) : (m.fill b o n f) b' = m b' := by
  funext i
  exact if_neg fun hi => h hi.1

theorem fill_outside (h : i < o ∨ o + n ≤ i) : (m.fill b o n f) b i = m b i :=
  if_neg (by omega)

theorem fill_inside (h : i < n) : (m.fill b o n f) b (o + i) = some (f i) := by
  unfold fill
  rw [if_pos ⟨rfl, by omega, by omega⟩, Nat.add_sub_cancel_left]

theorem holds_fill : (m.fill b o n f).Holds b o n f := fun _ hi => fill_inside hi

theorem Holds.fill_of_ne {o' n' : Nat} (h : m.Holds b o n x) (hb : b ≠ b') :
    (m.fill b' o' n' f).Holds b o n x :=
  h.congr (Cells.fill_of_ne hb)

theorem Holds.fill_outside {o' n' : Nat} (h : m.Holds b o n x) (ho : o + n ≤ o' ∨ o' + n' ≤ o) :
    (m.fill b o' n' f).Holds b o n x := by
  intro i hi
  rw [Cells.fill_outside (by omega), h i hi]

/-- A range that is being filled in place still has its next cell to come. -/
theorem fill_next {b' : β} {o' : Nat} (h : b' = b → o' = o) :
    (m.fill b' o' i f) b (o + i) = m b (o + i) := by
  refine if_neg fun hi => ?_
  have := h hi.1.symm
  omega

theorem fill_fill : (m.fill b o n f).fill b o n g = m.fill b o n g := by
  funext b' i
  unfold fill
  split
  · rfl
  · rfl

theorem fill_congr (h : ∀ i < n, f i = g i) : m.fill b o n f = m.fill b o n g := by
  funext b' i
  unfold fill
  split
  · rw [h (i - o) (by omega)]
  · rfl

/-- Writing the next cell makes the written range longer. -/
theorem fill_write : (m.fill b o i f).write b (o + i) (f i) = m.fill b o (i + 1) f := by
  funext b' j
  unfold write fill
  by_cases hb : b' = b
  · by_cases hj : j = o + i
    · rw [if_pos ⟨hb, hj⟩, if_pos ⟨hb, by omega, by omega⟩, hj, Nat.add_sub_cancel_left]
    · rw [if_neg fun h => hj h.2]
      exact if_congr (and_congr_right fun _ => by omega) rfl rfl
  · rw [if_neg fun h => hb h.1, if_neg fun h => hb h.1, if_neg fun h => hb h.1]

/-- Writing a cell of a range that holds `f`. -/
theorem fill_update (hi : i < n) :
    (m.fill b o n f).write b (o + i) v = m.fill b o n (Function.update f i v) := by
  funext b' j
  unfold write fill
  by_cases hb : b' = b ∧ j = o + i
  · rw [if_pos hb, if_pos ⟨hb.1, by omega, by omega⟩, hb.2, Nat.add_sub_cancel_left,
      Function.update_self]
  · rw [if_neg hb]
    split
    · rename_i hj
      have hne : j - o ≠ i := fun h => hb ⟨hj.1, by omega⟩
      rw [Function.update_of_ne hne]
    · rfl

/-- Writing what the cells hold changes nothing. -/
theorem fill_self (h : m.Holds b o n x) : m.fill b o n x = m := by
  funext b' i
  unfold fill
  split
  · rename_i hi
    have := h (i - o) (by omega)
    rw [Nat.add_sub_cancel' hi.2.1] at this
    rw [hi.1, this]
  · rfl

/-! ## Two memories -/

/-- Two memories hold the same from `o` to `o + n`. -/
def Agree (m m' : Cells β α) (b : β) (o n : Nat) : Prop := ∀ i < n, m' b (o + i) = m b (o + i)

section Agree

variable {m' : Cells β α}

omit [DecidableEq β] in
theorem Agree.holds (h : m.Agree m' b o n) (hx : m.Holds b o n x) : m'.Holds b o n x := by
  intro i hi
  rw [h i hi, hx i hi]

omit [DecidableEq β] in
theorem Holds.agree (hx : m.Holds b o n x) (hx' : m'.Holds b o n x) : m.Agree m' b o n := by
  intro i hi
  rw [hx i hi, hx' i hi]

omit [DecidableEq β] in
theorem Agree.congr {m₁ m₁' : Cells β α} (h : m.Agree m' b o n) (hm : m₁ b = m b)
    (hm' : m₁' b = m' b) : m₁.Agree m₁' b o n := by
  intro i hi
  rw [hm, hm', h i hi]

theorem Agree.fill_outside {o' n' : Nat} (h : m.Agree m' b o n) (ho : o + n ≤ o' ∨ o' + n' ≤ o) :
    (m.fill b o' n' f).Agree (m'.fill b o' n' g) b o n := by
  intro i hi
  rw [Cells.fill_outside (by omega), Cells.fill_outside (by omega), h i hi]

/-- Equal buffers are filled to equal ones. -/
theorem fill_same (h : m' b = m b) : (m'.fill b' o n f) b = (m.fill b' o n f) b := by
  funext i
  unfold fill
  rw [h]

end Agree

end Cells

end Spheres.Library
