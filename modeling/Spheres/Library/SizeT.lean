import Mathlib.Algebra.Order.Ring.Nat
import Mathlib.Data.Nat.Log

/-!
# Unsigned arithmetic that is watched

A `size_t` is an unsigned number of 64 bits. The operations below have a value
only where those of the machine neither wrap around nor divide by zero; the value
is then the one of the machine (`sub_eq_some` and its companions), which is the
number that the same operation has on natural numbers.
-/

namespace Spheres.Library

abbrev SizeT := UInt64

/-- The number of values of a `size_t`. -/
abbrev SizeT.size : Nat := 2 ^ 64

namespace SizeT

def add? (a b : SizeT) : Option SizeT := if a.toNat + b.toNat < size then some (a + b) else none

def sub? (a b : SizeT) : Option SizeT := if b ≤ a then some (a - b) else none

def mul? (a b : SizeT) : Option SizeT := if a.toNat * b.toNat < size then some (a * b) else none

def div? (a b : SizeT) : Option SizeT := if b = 0 then none else some (a / b)

def mod? (a b : SizeT) : Option SizeT := if b = 0 then none else some (a % b)

variable {a b c : SizeT}

theorem add_eq_some : add? a b = some c ↔
    a.toNat + b.toNat < size ∧ c.toNat = a.toNat + b.toNat := by
  unfold add?
  split
  · rename_i h
    rw [Option.some.injEq, ← UInt64.toNat_inj, UInt64.toNat_add, Nat.mod_eq_of_lt h, eq_comm]
    exact (and_iff_right h).symm
  · rename_i h
    exact ⟨nofun, fun hc => absurd hc.1 h⟩

theorem sub_eq_some : sub? a b = some c ↔
    b.toNat ≤ a.toNat ∧ c.toNat = a.toNat - b.toNat := by
  unfold sub?
  split
  · rename_i h
    rw [Option.some.injEq, ← UInt64.toNat_inj, UInt64.toNat_sub_of_le a b h, eq_comm]
    exact (and_iff_right (UInt64.le_iff_toNat_le.mp h)).symm
  · rename_i h
    exact ⟨nofun, fun hc => absurd (UInt64.le_iff_toNat_le.mpr hc.1) h⟩

theorem mul_eq_some : mul? a b = some c ↔
    a.toNat * b.toNat < size ∧ c.toNat = a.toNat * b.toNat := by
  unfold mul?
  split
  · rename_i h
    rw [Option.some.injEq, ← UInt64.toNat_inj, UInt64.toNat_mul, Nat.mod_eq_of_lt h, eq_comm]
    exact (and_iff_right h).symm
  · rename_i h
    exact ⟨nofun, fun hc => absurd hc.1 h⟩

theorem eq_zero_iff : a = 0 ↔ a.toNat = 0 := by
  rw [← UInt64.toNat_inj, UInt64.toNat_zero]

theorem div_eq_some : div? a b = some c ↔ b.toNat ≠ 0 ∧ c.toNat = a.toNat / b.toNat := by
  unfold div?
  split
  · rename_i h
    exact ⟨nofun, fun hc => absurd (eq_zero_iff.mp h) hc.1⟩
  · rename_i h
    rw [Option.some.injEq, ← UInt64.toNat_inj, UInt64.toNat_div, eq_comm]
    exact (and_iff_right (fun h0 => h (eq_zero_iff.mpr h0))).symm

theorem mod_eq_some : mod? a b = some c ↔ b.toNat ≠ 0 ∧ c.toNat = a.toNat % b.toNat := by
  unfold mod?
  split
  · rename_i h
    exact ⟨nofun, fun hc => absurd (eq_zero_iff.mp h) hc.1⟩
  · rename_i h
    rw [Option.some.injEq, ← UInt64.toNat_inj, UInt64.toNat_mod, eq_comm]
    exact (and_iff_right (fun h0 => h (eq_zero_iff.mpr h0))).symm

/-! ## Where an operation has a value -/

theorem exists_add (h : a.toNat + b.toNat < size) :
    ∃ c, add? a b = some c ∧ c.toNat = a.toNat + b.toNat := by
  have hsome : add? a b = some (a + b) := if_pos h
  exact ⟨_, hsome, (add_eq_some.mp hsome).2⟩

theorem exists_sub (h : b.toNat ≤ a.toNat) :
    ∃ c, sub? a b = some c ∧ c.toNat = a.toNat - b.toNat := by
  have hsome : sub? a b = some (a - b) := if_pos (UInt64.le_iff_toNat_le.mpr h)
  exact ⟨_, hsome, (sub_eq_some.mp hsome).2⟩

theorem exists_mul (h : a.toNat * b.toNat < size) :
    ∃ c, mul? a b = some c ∧ c.toNat = a.toNat * b.toNat := by
  have hsome : mul? a b = some (a * b) := if_pos h
  exact ⟨_, hsome, (mul_eq_some.mp hsome).2⟩

theorem exists_div (h : b.toNat ≠ 0) :
    ∃ c, div? a b = some c ∧ c.toNat = a.toNat / b.toNat := by
  have hsome : div? a b = some (a / b) := if_neg fun h0 => h (eq_zero_iff.mp h0)
  exact ⟨_, hsome, (div_eq_some.mp hsome).2⟩

theorem exists_mod (h : b.toNat ≠ 0) :
    ∃ c, mod? a b = some c ∧ c.toNat = a.toNat % b.toNat := by
  have hsome : mod? a b = some (a % b) := if_neg fun h0 => h (eq_zero_iff.mp h0)
  exact ⟨_, hsome, (mod_eq_some.mp hsome).2⟩

theorem toNat_min : (min a b).toNat = min a.toNat b.toNat := by
  show (if a ≤ b then a else b).toNat = _
  split
  · rename_i h
    exact (Nat.min_eq_left (UInt64.le_iff_toNat_le.mp h)).symm
  · rename_i h
    have hlt := UInt64.le_iff_toNat_le.not.mp h
    exact (Nat.min_eq_right (by omega)).symm

end SizeT

end Spheres.Library
