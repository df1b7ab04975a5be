import Mathlib.Data.List.Nodup
import Mathlib.Data.List.Perm.Lattice
import Mathlib.Data.Multiset.Filter
import Mathlib.Data.Multiset.Range

/-!
# Erasing by position

`std::erase_if` calls its predicate once for each element in order, so a
predicate that counts its calls erases the elements at chosen positions. What
is erased and what is left make up the list, and two lists from which the same
positions are erased stay aligned.
-/

namespace Spheres.Library

variable {α β : Type*}

/-- Erase the elements at the positions that `contains` names; `counter` is the
position of the first element. -/
def eraseIf (contains : Nat → Bool) : Nat → List α → List α
  | _, [] => []
  | counter, x :: xs =>
    if contains counter then eraseIf contains (counter + 1) xs
    else x :: eraseIf contains (counter + 1) xs

namespace EraseIf

variable {contains : Nat → Bool}

/-- What is left are the elements at the other positions. -/
theorem eraseIf_eq_filterMap (contains : Nat → Bool) (counter : Nat) (l : List α) :
    eraseIf contains counter l =
      ((List.range l.length).filter fun i => !contains (counter + i)).filterMap (l[·]?) := by
  induction l generalizing counter with
  | nil => rfl
  | cons x xs ih =>
    have hsucc : ((fun i => !contains (counter + i)) ∘ Nat.succ) =
        fun i => !contains (counter + 1 + i) := by
      ext i
      rw [Function.comp_apply, Nat.succ_eq_add_one, Nat.add_assoc, Nat.add_comm 1]
    rw [eraseIf, ih, List.length_cons, List.range_succ_eq_map, List.filter_cons, List.filter_map,
      hsucc, Nat.add_zero]
    cases contains counter with
    | true => simp [List.filterMap_map]
    | false => simp [List.filterMap_map]

theorem eraseIf_congr {contains contains' : Nat → Bool} (h : ∀ i, contains i = contains' i)
    (counter : Nat) (l : List α) :
    eraseIf contains counter l = eraseIf contains' counter l := by
  rw [funext h]

/-- Lists from which the same positions are erased stay aligned. -/
theorem zip_eraseIf (counter : Nat) (l : List α) (m : List β) :
    (eraseIf contains counter l).zip (eraseIf contains counter m) =
      eraseIf contains counter (l.zip m) := by
  induction l generalizing m counter with
  | nil => simp [eraseIf]
  | cons x xs ih =>
    cases m with
    | nil => simp [eraseIf]
    | cons y ys =>
      rw [List.zip_cons_cons, eraseIf, eraseIf, eraseIf]
      cases contains counter with
      | true => simpa using ih (counter + 1) ys
      | false => simpa using ih (counter + 1) ys

theorem eraseIf_map (f : α → β) (counter : Nat) (l : List α) :
    eraseIf contains counter (l.map f) = (eraseIf contains counter l).map f := by
  induction l generalizing counter with
  | nil => rfl
  | cons x xs ih =>
    rw [List.map_cons, eraseIf, eraseIf, ih]
    split <;> rfl

/-- What is left keeps its order. -/
theorem eraseIf_sublist (contains : Nat → Bool) (counter : Nat) (l : List α) :
    (eraseIf contains counter l).Sublist l := by
  induction l generalizing counter with
  | nil => exact .slnil
  | cons x xs ih =>
    rw [eraseIf]
    split
    · exact (ih (counter + 1)).cons x
    · exact (ih (counter + 1)).cons_cons x

/-- A position of the list that is named shortens it. -/
theorem length_eraseIf_lt {l : List α} {i : Nat} (counter : Nat) (hi : i < l.length)
    (hcontains : contains (counter + i) = true) :
    (eraseIf contains counter l).length < l.length := by
  induction l generalizing counter i with
  | nil => exact absurd hi (Nat.not_lt_zero i)
  | cons x xs ih =>
    rw [eraseIf]
    cases i with
    | zero =>
      rw [Nat.add_zero] at hcontains
      rw [if_pos hcontains, List.length_cons]
      exact Nat.lt_succ_of_le (eraseIf_sublist _ _ _).length_le
    | succ i =>
      have hrest := ih (counter + 1) (Nat.lt_of_succ_lt_succ hi)
        (by rwa [Nat.add_assoc, Nat.add_comm 1])
      split
      · exact hrest.trans (Nat.lt_succ_self _)
      · exact Nat.succ_lt_succ hrest

theorem length_eraseIf_eq {l : List α} {m : List β} (h : l.length = m.length) (counter : Nat) :
    (eraseIf contains counter l).length = (eraseIf contains counter m).length := by
  induction l generalizing m counter with
  | nil =>
    obtain rfl := List.eq_nil_of_length_eq_zero h.symm
    rfl
  | cons x xs ih =>
    cases m with
    | nil => cases h
    | cons y ys =>
      have hrest := ih (Nat.succ.inj h) (counter + 1)
      rw [eraseIf, eraseIf]
      cases contains counter with
      | true => simpa using hrest
      | false => simpa using hrest

/-- The elements at distinct positions of a list, and those at the other
positions, are the list. -/
theorem filterMap_add_eraseIf {positions : List Nat} {l : List α} (hnodup : positions.Nodup)
    (hlt : ∀ i ∈ positions, i < l.length) :
    (positions.filterMap (l[·]?) : Multiset α) +
      (eraseIf positions.contains 0 l : Multiset α) = l := by
  have hall : ((List.range l.length).filterMap (l[·]?) : List α) = l := by
    have h := eraseIf_eq_filterMap (fun _ => false) 0 l
    have hkeep : ∀ (c : Nat) (l : List α), eraseIf (fun _ => false) c l = l := by
      intro c l
      induction l generalizing c with
      | nil => rfl
      | cons x xs ih => simp [eraseIf, ih]
    rw [hkeep] at h
    simpa using h.symm
  have hchosen : ((List.range l.length).filter positions.contains).Perm positions := by
    rw [List.perm_ext_iff_of_nodup (List.nodup_range.filter _) hnodup]
    intro i
    rw [List.mem_filter, List.mem_range, List.contains_iff_mem]
    exact ⟨And.right, fun hi => ⟨hlt i hi, hi⟩⟩
  have hsplit : ((List.range l.length).filter positions.contains ++
      (List.range l.length).filter fun i => !positions.contains i).Perm (List.range l.length) :=
    List.filter_append_perm _ _
  rw [eraseIf_eq_filterMap, Multiset.coe_add, Multiset.coe_eq_coe]
  simp only [Nat.zero_add]
  have hperm : (positions.filterMap (l[·]?) ++
      ((List.range l.length).filter fun i => !positions.contains i).filterMap (l[·]?)).Perm
        (((List.range l.length).filter positions.contains ++
          (List.range l.length).filter fun i => !positions.contains i).filterMap (l[·]?)) := by
    rw [List.filterMap_append]
    exact (hchosen.symm.filterMap _).append_right _
  have hrange := hsplit.filterMap (l[·]?)
  rw [hall] at hrange
  exact hperm.trans hrange

/-- Distinct positions shorten the list by their number. -/
theorem length_eraseIf {positions : List Nat} {l : List α} (hnodup : positions.Nodup)
    (hlt : ∀ i ∈ positions, i < l.length) :
    positions.length + (eraseIf positions.contains 0 l).length = l.length := by
  have hcard := congrArg Multiset.card (filterMap_add_eraseIf hnodup hlt)
  rw [Multiset.card_add, Multiset.coe_card, Multiset.coe_card, Multiset.coe_card] at hcard
  have hlen : (positions.filterMap (l[·]?)).length = positions.length := by
    clear hcard hnodup
    induction positions with
    | nil => rfl
    | cons i rest ih =>
      have hi := hlt i List.mem_cons_self
      rw [List.filterMap_cons, List.getElem?_eq_getElem hi, List.length_cons, List.length_cons,
        ih fun j hj => hlt j (List.mem_cons_of_mem _ hj)]
  rwa [hlen] at hcard

end EraseIf

end Spheres.Library
