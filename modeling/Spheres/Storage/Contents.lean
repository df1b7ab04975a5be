import Mathlib.Algebra.Order.Group.Multiset
import Spheres.Library.ListUpdate
import Spheres.Storage.Page

/-!
# The stored vectors

What the pages of a storage hold together, as a multiset of pairs of an id and
a vector.
-/

namespace Spheres

open Library

variable {V R : Type*}

/-- All stored pairs of an id and a vector. -/
def contents (pages : List (Page V R)) : Multiset (Nat × V) :=
  (pages.map fun p => (p.slots : Multiset (Nat × V))).sum

@[simp] theorem contents_nil : contents ([] : List (Page V R)) = 0 := rfl

theorem contents_cons (p : Page V R) (pages : List (Page V R)) :
    contents (p :: pages) = (p.slots : Multiset (Nat × V)) + contents pages := by
  rw [contents, List.map_cons, List.sum_cons, contents]

theorem contents_append (pages pages' : List (Page V R)) :
    contents (pages ++ pages') = contents pages + contents pages' := by
  rw [contents, List.map_append, List.sum_append, contents, contents]

theorem contents_perm {pages pages' : List (Page V R)} (h : pages.Perm pages') :
    contents pages = contents pages' :=
  (h.map _).sum_eq

theorem contents_le_of_sublist {pages pages' : List (Page V R)} (h : pages.Sublist pages') :
    contents pages ≤ contents pages' := by
  induction h with
  | slnil => exact le_rfl
  | cons p _ ih =>
    rw [contents_cons]
    exact ih.trans (Multiset.le_add_left _ _)
  | cons_cons p _ ih =>
    rw [contents_cons, contents_cons]
    exact add_le_add le_rfl ih

theorem mem_contents {pages : List (Page V R)} {s : Nat × V} :
    s ∈ contents pages ↔ ∃ p ∈ pages, s ∈ p.slots := by
  induction pages with
  | nil => simp [contents]
  | cons p pages ih =>
    rw [contents_cons, Multiset.mem_add, ih]
    simp

theorem contents_append_zeroed [Zero R] (pages : List (Page V R)) (n : Nat) :
    contents (pages ++ List.replicate n Page.zeroed) = contents pages := by
  have hzero : contents (List.replicate n (Page.zeroed : Page V R)) = 0 := by
    simp [contents, Page.zeroed]
  rw [contents_append, hzero, add_zero]

theorem contents_modify {pages : List (Page V R)} {i : Nat} {p : Page V R}
    (hp : pages[i]? = some p) (g : Page V R → Page V R) :
    contents (pages.modify i g) + p.slots = contents pages + (g p).slots :=
  ListUpdate.sum_map_modify (fun p : Page V R => (p.slots : Multiset (Nat × V))) hp g

theorem coe_set_add {l : List (Nat × V)} {j : Nat} {x : Nat × V} (hx : l[j]? = some x)
    (y : Nat × V) : (l.set j y : Multiset (Nat × V)) + {x} = l + {y} := by
  have hsingle : ∀ l : List (Nat × V), (l.map fun z => ({z} : Multiset (Nat × V))).sum = l := by
    intro l
    induction l with
    | nil => rfl
    | cons z l ih => rw [List.map_cons, List.sum_cons, ih, Multiset.singleton_add, Multiset.cons_coe]
  have hsum := ListUpdate.sum_map_set (fun z => ({z} : Multiset (Nat × V))) hx y
  rwa [hsingle, hsingle] at hsum

end Spheres
