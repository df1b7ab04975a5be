import Mathlib.Data.Set.Lattice
import Mathlib.Order.CompletePartialOrder
import Spheres.Library.Rows

/-!
# Memory of several objects

Memory is a list of objects, each with its cells, and an address is a position in one
object. Reading or writing a range that does not lie in its object is an error.
`ChangesOnly m m' S` says that `m'` has the objects of `m` with other contents at most
at the addresses of `S`; a range that is apart from `S` is then read as before
(`ChangesOnly.load_eq`), and changes one after the other change the union.
-/

namespace Spheres.Library

/-- Objects such as mapped files, each with its cells. -/
abbrev Memory (α : Type*) := List (List α)

namespace Memory

/-- A position in an object. -/
@[ext] structure Address where
  object : Nat
  offset : Nat
  deriving DecidableEq

instance : HAdd Address Nat Address := ⟨fun a n => ⟨a.object, a.offset + n⟩⟩

@[simp] theorem object_add (a : Address) (n : Nat) : (a + n).object = a.object := rfl

@[simp] theorem offset_add (a : Address) (n : Nat) : (a + n).offset = a.offset + n := rfl

theorem add_add (a : Address) (n k : Nat) : a + n + k = a + (n + k) :=
  Address.ext rfl (Nat.add_assoc _ _ _)

/-- The `n` addresses from `a` on. -/
def range (a : Address) (n : Nat) : Set Address :=
  {b | b.object = a.object ∧ a.offset ≤ b.offset ∧ b.offset < a.offset + n}

theorem range_subset {a b : Address} {n k : Nat} (ho : a.object = b.object)
    (hlow : b.offset ≤ a.offset) (hhigh : a.offset + n ≤ b.offset + k) :
    range a n ⊆ range b k := by
  rintro c ⟨hc, hle, hlt⟩
  exact ⟨hc.trans ho, by omega, by omega⟩

theorem disjoint_range {a b : Address} {n k : Nat}
    (h : a.object = b.object → a.offset + n ≤ b.offset ∨ b.offset + k ≤ a.offset) :
    Disjoint (range a n) (range b k) := by
  rw [Set.disjoint_left]
  rintro c ⟨hc, hle, hlt⟩ ⟨hc', hle', hlt'⟩
  have := h (hc.symm.trans hc')
  omega

variable {α : Type*} {m m' m'' : Memory α} {a : Address} {n : Nat} {S T : Set Address}

/-- The cell at an address. -/
def cell (m : Memory α) (a : Address) : Option α := (m[a.object]?).bind (·[a.offset]?)

/-- Read `n` cells. -/
def load (m : Memory α) (a : Address) (n : Nat) : Option (List α) :=
  (m[a.object]?).bind fun l =>
    if a.offset + n ≤ l.length then some ((l.drop a.offset).take n) else none

/-- Write a block. -/
def store (m : Memory α) (a : Address) (src : List α) : Option (Memory α) :=
  (m[a.object]?).bind fun l => (Rows.overwrite a.offset src l).map (m.set a.object)

/-- Copy the first `n` cells of a source. -/
def memcpy (m : Memory α) (a : Address) (src : List α) (n : Nat) : Option (Memory α) :=
  if n ≤ src.length then m.store a (src.take n) else none

def memset (m : Memory α) (a : Address) (value : α) (n : Nat) : Option (Memory α) :=
  m.store a (List.replicate n value)

/-- The `n` addresses from `a` on lie in an object. -/
def Fits (m : Memory α) (a : Address) (n : Nat) : Prop :=
  ∃ l, m[a.object]? = some l ∧ a.offset + n ≤ l.length

/-- Only the cells of `S` have changed. -/
structure ChangesOnly (m m' : Memory α) (S : Set Address) : Prop where
  sizes : m'.map List.length = m.map List.length
  outside : ∀ a ∉ S, m'.cell a = m.cell a

theorem ChangesOnly.mono (h : m.ChangesOnly m' S) (hS : S ⊆ T) : m.ChangesOnly m' T :=
  ⟨h.sizes, fun a ha => h.outside a fun hmem => ha (hS hmem)⟩

theorem ChangesOnly.trans (h : m.ChangesOnly m' S) (h' : m'.ChangesOnly m'' T) :
    m.ChangesOnly m'' (S ∪ T) where
  sizes := h'.sizes.trans h.sizes
  outside a ha := by
    rw [Set.mem_union, not_or] at ha
    rw [h'.outside a ha.2, h.outside a ha.1]

theorem ChangesOnly.length_eq (h : m.ChangesOnly m' S) (o : Nat) :
    (m'[o]?).map List.length = (m[o]?).map List.length := by
  rw [← List.getElem?_map, h.sizes, List.getElem?_map]

theorem Fits.mono {b : Address} {k : Nat} (h : m.Fits b k) (ho : a.object = b.object)
    (hhigh : a.offset + n ≤ b.offset + k) : m.Fits a n := by
  obtain ⟨l, hl, hroom⟩ := h
  exact ⟨l, ho ▸ hl, hhigh.trans hroom⟩

theorem load_isSome_iff : (m.load a n).isSome ↔ m.Fits a n := by
  unfold load Fits
  cases m[a.object]? with
  | none => simp
  | some l => simp

/-- Reading sees one object only. -/
theorem load_of_object (h : m'[a.object]? = m[a.object]?) : m'.load a n = m.load a n := by
  rw [load, load, h]

theorem load_replicate {k : Nat} {v : α} (h : m[a.object]? = some (List.replicate k v))
    (hroom : a.offset + n ≤ k) : m.load a n = some (List.replicate n v) := by
  rw [load, h, Option.bind_some, List.length_replicate, if_pos hroom, List.drop_replicate,
    List.take_replicate, Nat.min_eq_left (by omega)]

/-- Memories of the same sizes with the same cells in a range are read alike there. -/
theorem load_congr (hlen : (m'[a.object]?).map List.length = (m[a.object]?).map List.length)
    (h : ∀ b ∈ range a n, m'.cell b = m.cell b) : m'.load a n = m.load a n := by
  unfold load
  cases hm : m[a.object]? with
  | none =>
    rw [hm, Option.map_none, Option.map_eq_none_iff] at hlen
    rw [hlen]
  | some l =>
    rw [hm, Option.map_some, Option.map_eq_some_iff] at hlen
    obtain ⟨l', hl', hlen⟩ := hlen
    rw [hl', Option.bind_some, Option.bind_some, hlen]
    split
    · congr 1
      ext j
      rw [List.getElem?_take, List.getElem?_take, List.getElem?_drop, List.getElem?_drop]
      split
      · rename_i hj
        have hcell := h (a + j) ⟨rfl, Nat.le_add_right _ _, by simpa using hj⟩
        simp only [cell, object_add, offset_add, hm, hl', Option.bind_some] at hcell
        rw [hcell]
      · rfl
    · rfl

/-- The frame rule of reading. -/
theorem ChangesOnly.load_eq (h : m.ChangesOnly m' S) (hS : Disjoint (range a n) S) :
    m'.load a n = m.load a n :=
  load_congr (h.length_eq _) fun b hb => h.outside b (Set.disjoint_left.mp hS hb)

theorem cell_set {o : Nat} {l l' : List α} (hl : m[o]? = some l) (b : Address) :
    cell (m.set o l') b = if b.object = o then l'[b.offset]? else m.cell b := by
  unfold cell
  obtain ⟨hlt, -⟩ := List.getElem?_eq_some_iff.mp hl
  by_cases hb : b.object = o
  · rw [if_pos hb, hb, List.getElem?_set_self hlt, Option.bind_some]
  · rw [if_neg hb, List.getElem?_set_ne (Ne.symm hb)]

/-- A block that fits is written: it can be read back, and nothing else changes. -/
theorem store_spec {src : List α} (hn : src.length = n) (h : m.Fits a n) :
    ∃ m', m.store a src = some m' ∧ m.ChangesOnly m' (range a n) ∧ m'.load a n = some src := by
  subst hn
  obtain ⟨l, hl, hroom⟩ := h
  obtain ⟨hlt, hget⟩ := List.getElem?_eq_some_iff.mp hl
  obtain ⟨l', hl'⟩ : ∃ l', Rows.overwrite a.offset src l = some l' := ⟨_, if_pos hroom⟩
  have hlen := Rows.length_overwrite hl'
  have hcells := Rows.getElem?_overwrite hl'
  refine ⟨m.set a.object l', ?_, ⟨?_, ?_⟩, ?_⟩
  · rw [store, hl, Option.bind_some, hl', Option.map_some]
  · rw [List.map_set, hlen, ← hget, ← List.map_set, List.set_getElem_self]
  · intro b hb
    rw [cell_set hl]
    split
    · rename_i ho
      rw [hcells, if_neg fun hin => hb ⟨ho, hin⟩, cell, ho, hl, Option.bind_some]
    · rfl
  · rw [load, List.getElem?_set_self hlt, Option.bind_some, if_pos (hlen ▸ hroom)]
    congr 1
    ext j
    rw [List.getElem?_take, List.getElem?_drop, hcells]
    split
    · rw [if_pos ⟨by omega, by omega⟩, Nat.add_sub_cancel_left]
    · rw [List.getElem?_eq_none (by omega)]

theorem memcpy_eq_store {src : List α} (h : src.length = n) : m.memcpy a src n = m.store a src := by
  rw [memcpy, if_pos h.ge, List.take_of_length_le h.le]

end Memory

end Spheres.Library
