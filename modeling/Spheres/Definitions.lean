import Mathlib.Data.Prod.Lex
import Mathlib.Algebra.Order.Ring.Defs
import Mathlib.Algebra.Order.Ring.Rat
import Mathlib.Order.WithBot

/-!
# Shared definitions

Distances and coordinates are elements of an ordered ring `R`, so every
operation on them is exact; `size_t` quantities are natural numbers. A distance
that is compared with the initial bound `infinity` is an element of
`WithTop R`.
-/

namespace Spheres

namespace Defaults

def defaultSingleFileSize : Nat := 256 * 1024 * 1024

def defaultPageSize : Nat := 8 * 1024 * 1024

def maxNBytesOfNativeType : Nat := 8

def firstNBytesPerPage : Nat := 8 + maxNBytesOfNativeType

def densityThresholdOfAFile : ℚ := 67 / 100

def defaultThreadLocalBufferSize : Nat := 4096

end Defaults

inductive SupportedDataType where
  | float
  | double
  deriving DecidableEq

inductive SupportedDistanceFunctions where
  | normalizedL2Distance
  | squaredNormalizedL2Distance
  | squaredL2Distance
  deriving DecidableEq

/-- The size in bytes of one coordinate, from the switch on the data type in
`create_storage` and `load_storage`. -/
def SupportedDataType.elementSize : SupportedDataType → Nat
  | .float => 4
  | .double => 8

structure DatabaseConfig where
  dtype : SupportedDataType
  distanceFunction : SupportedDistanceFunctions
  pageSize : Nat
  fileSize : Nat
  dim : Nat
  nFiles : Nat
  deriving DecidableEq

/-! ## Distances tagged with an id -/

/-- `std::pair<T, size_t>`, with the lexicographic order of pairs. -/
@[ext] structure IdTaggedDistance (R : Type*) where
  first : R
  second : Nat
  deriving DecidableEq, Repr

namespace IdTaggedDistance

variable {R : Type*}

/-- The value-initialised pair `{}`. -/
def valueInit [Zero R] : IdTaggedDistance R := ⟨0, 0⟩

def toPair (e : IdTaggedDistance R) : R ×ₗ Nat := toLex (e.first, e.second)

theorem toPair_injective : Function.Injective (toPair : IdTaggedDistance R → R ×ₗ Nat) := by
  intro a b h
  have hpair : (a.first, a.second) = (b.first, b.second) := toLex.injective h
  ext
  · exact congrArg Prod.fst hpair
  · exact congrArg Prod.snd hpair

instance [LinearOrder R] : LinearOrder (IdTaggedDistance R) :=
  LinearOrder.lift' toPair toPair_injective

theorem le_iff [LinearOrder R] {a b : IdTaggedDistance R} :
    a ≤ b ↔ a.first < b.first ∨ a.first = b.first ∧ a.second ≤ b.second :=
  Prod.Lex.le_iff

theorem lt_iff [LinearOrder R] {a b : IdTaggedDistance R} :
    a < b ↔ a.first < b.first ∨ a.first = b.first ∧ a.second < b.second :=
  Prod.Lex.lt_iff

theorem first_le_of_le [LinearOrder R] {a b : IdTaggedDistance R} (h : a ≤ b) :
    a.first ≤ b.first := by
  rcases le_iff.mp h with h | h
  · exact h.le
  · exact h.1.le

theorem valueInit_le [Zero R] [LinearOrder R] {e : IdTaggedDistance R} (h : 0 ≤ e.first) :
    valueInit ≤ e := by
  rcases h.lt_or_eq with hlt | heq
  · exact (lt_iff.mpr (Or.inl hlt)).le
  · exact le_iff.mpr (Or.inr ⟨heq, Nat.zero_le _⟩)

end IdTaggedDistance

/-! ## Distance functions -/

/-- An exact distance function: zero from a vector to itself, symmetric and
never negative. -/
structure DistFunc (V R : Type*) [Zero R] [LE R] where
  dist : V → V → R
  self_eq : ∀ v, dist v v = 0
  symm : ∀ v w, dist v w = dist w v
  nonneg : ∀ v w, 0 ≤ dist v w

instance {V R : Type*} [Zero R] [LE R] : CoeFun (DistFunc V R) fun _ => V → V → R :=
  ⟨DistFunc.dist⟩

end Spheres
