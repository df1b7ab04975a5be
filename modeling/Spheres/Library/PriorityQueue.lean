import Spheres.Library.BinaryHeap
import Spheres.Library.Selection

/-!
# Priority queues

A priority queue owns a max-heap. What it holds is a multiset; the operations are known
by what they do to that multiset, and a drain from the back returns it in order.
-/

namespace Spheres.Library

open BinaryHeap Selection

/-- `std::priority_queue`: the container is a heap. -/
structure PriorityQueue (α : Type*) [LinearOrder α] where
  c : List α
  isHeap : IsHeap c

namespace PriorityQueue

variable {α : Type*} [LinearOrder α]

def empty : PriorityQueue α := ⟨[], isHeap_nil⟩

def size (q : PriorityQueue α) : Nat := q.c.length

/-- The largest entry; an empty queue has none. -/
def top (q : PriorityQueue α) : Option α := q.c.head?

def emplace (e : α) (q : PriorityQueue α) : PriorityQueue α :=
  ⟨pushHeap (q.c ++ [e]), isHeap_pushHeap q.isHeap⟩

def pop (q : PriorityQueue α) : PriorityQueue α :=
  ⟨(popHeap q.c).dropLast, isHeap_dropLast_popHeap q.isHeap⟩

def entries (q : PriorityQueue α) : Multiset α := q.c

@[simp] theorem card_entries (q : PriorityQueue α) : q.entries.card = q.size := rfl

@[simp] theorem entries_emplace (e : α) (q : PriorityQueue α) :
    (q.emplace e).entries = e ::ₘ q.entries := by
  have hperm := (pushHeap_perm (q.c ++ [e])).trans (List.perm_append_singleton e q.c)
  exact Multiset.coe_eq_coe.mpr hperm

@[simp] theorem size_emplace (e : α) (q : PriorityQueue α) : (q.emplace e).size = q.size + 1 := by
  rw [← card_entries, entries_emplace, Multiset.card_cons, card_entries]

/-- A queue that is not empty has a top, which is its largest entry and the one that
`pop` removes. -/
theorem exists_top {q : PriorityQueue α} (h : 0 < q.size) :
    ∃ t, q.top = some t ∧ q.entries = t ::ₘ q.pop.entries ∧ ∀ z ∈ q.entries, z ≤ t := by
  obtain ⟨c, hc⟩ := q
  cases c with
  | nil => exact absurd h (Nat.lt_irrefl 0)
  | cons t rest =>
    refine ⟨t, rfl, ?_, fun z hz => hc.le_head z (Multiset.mem_coe.mp hz)⟩
    exact Multiset.coe_eq_coe.mpr ((dropLast_popHeap_perm t rest).symm.cons t)

theorem size_pop {q : PriorityQueue α} (h : 0 < q.size) : q.pop.size + 1 = q.size := by
  obtain ⟨t, -, hentries, -⟩ := exists_top h
  rw [← card_entries q, hentries, Multiset.card_cons, card_entries]

/-- The top comes last in the order of the entries. -/
theorem sort_entries {q : PriorityQueue α} {t : α} (hentries : q.entries = t ::ₘ q.pop.entries)
    (hmax : ∀ z ∈ q.entries, z ≤ t) : q.entries.sort = q.pop.entries.sort ++ [t] := by
  have hperm : q.entries.sort.Perm (q.pop.entries.sort ++ [t]) := by
    rw [← Multiset.coe_eq_coe, ← Multiset.coe_add, Multiset.sort_eq, Multiset.sort_eq, hentries,
      Multiset.coe_singleton, Multiset.add_comm, Multiset.singleton_add]
  apply hperm.eq_of_pairwise' (Multiset.pairwise_sort _ _)
  rw [List.pairwise_append]
  refine ⟨Multiset.pairwise_sort _ _, List.pairwise_singleton _ t, ?_⟩
  intro z hz s hs
  obtain rfl := List.mem_singleton.mp hs
  apply hmax
  rw [hentries]
  exact Multiset.mem_cons_of_mem ((Multiset.mem_sort _).mp hz)

/-! ## Keeping the smallest entries -/

variable {k : Nat} {all : Multiset α} {q : PriorityQueue α} {e : α}

/-- A queue of at most `k` entries that stands for the `k` smallest of all entries seen. -/
structure Keeps (k : Nat) (all : Multiset α) (q : PriorityQueue α) : Prop where
  size : q.size ≤ k
  covers : Covers id k q.entries all

theorem keeps_empty : Keeps k 0 (empty : PriorityQueue α) :=
  ⟨Nat.zero_le k, coversExcept_zero _ k⟩

theorem Keeps.emplace (h : Keeps k all q) (hroom : q.size < k) :
    Keeps k (e ::ₘ all) (q.emplace e) := by
  constructor
  · rw [size_emplace]
    exact hroom
  · rw [entries_emplace]
    exact h.covers.keep e

/-- The top makes room for a smaller entry. -/
theorem Keeps.replace (h : Keeps k all q) (hfull : q.size = k) {t : α}
    (hentries : q.entries = t ::ₘ q.pop.entries) (hmax : ∀ z ∈ q.entries, z ≤ t) (he : e ≤ t) :
    Keeps k (e ::ₘ all) (q.pop.emplace e) := by
  have hcard := congrArg Multiset.card hentries
  rw [Multiset.card_cons, card_entries, card_entries] at hcard
  constructor
  · rw [size_emplace]
    omega
  · rw [entries_emplace]
    have hcov := h.covers
    rw [hentries] at hcov hmax
    refine hcov.replace ?_ (fun z hz => hmax z (Multiset.mem_cons_of_mem hz)) he
    rw [← hentries, card_entries, hfull]

/-- An entry above all entries of a full queue is passed over. -/
theorem Keeps.skip (h : Keeps k all q) (hfull : q.size = k) (he : ∀ z ∈ q.entries, z ≤ e) :
    Keeps k (e ::ₘ all) q := by
  refine ⟨h.size, ?_⟩
  have hskip := h.covers.skip {e} fun y hy => by
    obtain rfl := Multiset.mem_singleton.mp hy
    have hall : q.entries.countP (fun z => id z ≤ id y) = q.entries.card :=
      Multiset.countP_eq_card.mpr he
    left
    rw [hall, card_entries, hfull]
  rwa [Multiset.singleton_add] at hskip

/-- The entries in order are the first `k` of all entries in order. -/
theorem Keeps.sort_eq (h : Keeps k all q) : q.entries.sort = all.sort.take k := by
  have hsmallest := h.covers.isSmallest h.size
  simpa only [Multiset.map_id] using hsmallest.sort_map

end PriorityQueue

end Spheres.Library
