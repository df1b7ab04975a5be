import Spheres.Execution.Caches
import Spheres.Storage.Contents

/-!
# The pages that a query probes

A query visits the non-empty pages in ascending order of the distance to their
anchors, ties by page index, and may stop after a number of them.
-/

namespace Spheres.Parallel

open Execution

variable {V R : Type*}

/-- The distances from a query to the slots of a page, tagged with their ids. -/
def entries (dist : V → V → R) (query : V) (p : Page V R) : List (IdTaggedDistance R) :=
  p.slots.map fun s => ⟨dist s.2 query, s.1⟩

/-- The distances from a query to all vectors on some pages. -/
def distancesTo (dist : V → V → R) (query : V) (pages : List (Page V R)) :
    Multiset (IdTaggedDistance R) :=
  (contents pages).map fun s => ⟨dist s.2 query, s.1⟩

/-- The non-empty pages in the order in which a query visits them. -/
def anchorOrder [LinearOrder R] (dist : V → V → R) (pages : List (Page V R)) (query : V) :
    List (IdTaggedDistance R) :=
  (anchorDistances dist pages query).insertionSort (· ≤ ·)

/-- The pages that some entries of the distance buffer name. -/
def namedPages (pages : List (Page V R)) (buffer : List (IdTaggedDistance R)) :
    List (Page V R) :=
  buffer.filterMap fun e => pages[e.second]?

/-- The first `n` pages in the order of a query. -/
def probedPages [LinearOrder R] (dist : V → V → R) (pages : List (Page V R)) (query : V)
    (n : Nat) : List (Page V R) :=
  namedPages pages ((anchorOrder dist pages query).take n)

@[simp] theorem distancesTo_nil (dist : V → V → R) (query : V) :
    distancesTo dist query ([] : List (Page V R)) = 0 := rfl

theorem distancesTo_cons (dist : V → V → R) (query : V) (p : Page V R) (pages : List (Page V R)) :
    distancesTo dist query (p :: pages) =
      (entries dist query p : Multiset (IdTaggedDistance R)) + distancesTo dist query pages := by
  rw [distancesTo, contents_cons, Multiset.map_add, Multiset.map_coe]
  rfl

theorem distancesTo_append (dist : V → V → R) (query : V) (pages pages' : List (Page V R)) :
    distancesTo dist query (pages ++ pages') =
      distancesTo dist query pages + distancesTo dist query pages' := by
  rw [distancesTo, contents_append, Multiset.map_add]
  rfl

theorem namedPages_append (pages : List (Page V R)) (buffer buffer' : List (IdTaggedDistance R)) :
    namedPages pages (buffer ++ buffer') = namedPages pages buffer ++ namedPages pages buffer' :=
  List.filterMap_append

@[simp] theorem card_distancesTo (dist : V → V → R) (query : V) (pages : List (Page V R)) :
    (distancesTo dist query pages).card = (contents pages).card := by
  rw [distancesTo, Multiset.card_map]

theorem filterMap_range_getElem? {α β : Type*} (l : List α) (g : α → Option β) :
    ((List.range l.length).filterMap fun i => (l[i]?).bind g) = l.filterMap g := by
  induction l with
  | nil => rfl
  | cons x l ih =>
    rw [List.length_cons, List.range_succ_eq_map, List.filterMap_cons, List.filterMap_cons,
      List.filterMap_map]
    simp only [List.getElem?_cons_zero, Option.bind_some, Function.comp_def,
      List.getElem?_cons_succ, ih]

/-- The entries for all anchors name the non-empty pages. -/
theorem namedPages_anchorDistances (dist : V → V → R) (pages : List (Page V R)) (query : V) :
    namedPages pages (anchorDistances dist pages query) =
      pages.filterMap fun p => p.anchor.map fun _ => p := by
  rw [namedPages, anchorDistances, perPage, List.filterMap_filterMap]
  refine Eq.trans (List.filterMap_congr fun i _ => ?_) (filterMap_range_getElem? pages _)
  cases hp : pages[i]? with
  | none => rfl
  | some p =>
    cases ha : p.anchor with
    | none => simp [ha]
    | some a => simp [ha, hp]

/-- The non-empty pages hold all vectors. -/
theorem contents_nonempty (pages : List (Page V R)) :
    contents (pages.filterMap fun p => p.anchor.map fun _ => p) = contents pages := by
  induction pages with
  | nil => rfl
  | cons p pages ih =>
    rw [List.filterMap_cons, contents_cons]
    cases ha : p.anchor with
    | none => simp [ih, anchor_eq_none.mp ha]
    | some a => rw [Option.map_some, contents_cons, ih]

variable [LinearOrder R]

/-- Without a limit all vectors are probed. -/
theorem distancesTo_probedPages (dist : V → V → R) (pages : List (Page V R)) (query : V) {n : Nat}
    (hn : (anchorOrder dist pages query).length ≤ n) :
    distancesTo dist query (probedPages dist pages query n) = distancesTo dist query pages := by
  have hperm : (namedPages pages (anchorOrder dist pages query)).Perm
      (namedPages pages (anchorDistances dist pages query)) :=
    (List.perm_insertionSort _ _).filterMap _
  rw [distancesTo, probedPages, List.take_of_length_le hn, contents_perm hperm,
    namedPages_anchorDistances, contents_nonempty, distancesTo]

end Spheres.Parallel
