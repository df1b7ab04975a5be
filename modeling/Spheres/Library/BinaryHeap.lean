import Mathlib.Data.List.Basic
import Mathlib.Data.List.Perm.Basic
import Mathlib.Order.Defs.LinearOrder
import Mathlib.Order.Lattice
import Mathlib.Tactic.Cases

/-!
# Binary max-heaps stored in a list

`pushHeap` and `popHeap` work on a whole list as the standard algorithms of
the same name work on a range. `pushHeap` expects a heap followed by one new
entry and sifts that entry up; `popHeap` moves the largest entry to the end
and repairs the heap in front of it. Each is a permutation of its input
whatever the input is; the heap order of the result is proved from the heap
order of the input.
-/

namespace Spheres.Library.BinaryHeap

variable {α : Type*} [LinearOrder α]

/-- The position above `i` in the heap layout. -/
def parent (i : Nat) : Nat := (i - 1) / 2

theorem parent_lt {i : Nat} (h : 0 < i) : parent i < i := by
  unfold parent
  omega

theorem parent_bound {i n : Nat} (h : i < n) : parent i < n := by
  unfold parent
  omega

/-- Every entry is at most its parent. -/
def IsHeap (l : List α) : Prop :=
  ∀ (i : Nat) (hi : i < l.length) (_ : parent i < l.length), 0 < i → l[i] ≤ l[parent i]

/-- Exchange the entries at two positions. -/
def swap (l : List α) (i j : Nat) (hi : i < l.length) (hj : j < l.length) : List α :=
  (l.set i l[j]).set j l[i]

omit [LinearOrder α] in
@[simp] theorem length_swap (l : List α) (i j : Nat) (hi : i < l.length) (hj : j < l.length) :
    (swap l i j hi hj).length = l.length := by
  simp [swap]

omit [LinearOrder α] in
theorem swap_perm (l : List α) (i j : Nat) (hi : i < l.length) (hj : j < l.length) :
    (swap l i j hi hj).Perm l :=
  List.set_set_perm hi hj

omit [LinearOrder α] in
theorem getElem_swap (l : List α) (i j m : Nat) (hi : i < l.length) (hj : j < l.length)
    (hm : m < (swap l i j hi hj).length) (hm' : m < l.length) :
    (swap l i j hi hj)[m] = if m = j then l[i] else if m = i then l[j] else l[m] := by
  simp only [swap, List.getElem_set]
  split_ifs <;> first | rfl | omega

/-! ## Sifting up -/

/-- Exchange the entry at `i` with its parent while it is larger. -/
def siftUp (l : List α) (i : Nat) : List α :=
  if h : 0 < i ∧ i < l.length ∧ parent i < l.length then
    if l[parent i] < l[i] then siftUp (swap l i (parent i) h.2.1 h.2.2) (parent i) else l
  else l
termination_by i
decreasing_by exact parent_lt h.1

theorem siftUp_perm (l : List α) (i : Nat) : (siftUp l i).Perm l := by
  fun_induction siftUp l i with
  | case1 l i h hlt ih => exact ih.trans (swap_perm _ _ _ _ _)
  | case2 => exact .refl _
  | case3 => exact .refl _

/-- The heap order away from `i`, with the children of `i` below its parent:
what is known while the entry at `i` is still too large. -/
structure UpOrder (l : List α) (i : Nat) : Prop where
  except : ∀ (j : Nat) (hj : j < l.length) (_ : parent j < l.length), 0 < j → j ≠ i →
    l[j] ≤ l[parent j]
  grand : ∀ (j : Nat) (hj : j < l.length) (_ : parent (parent j) < l.length), 0 < j →
    parent j = i → 0 < i → l[j] ≤ l[parent (parent j)]

theorem UpOrder.swap {l : List α} {i : Nat} (h : UpOrder l i) (hi : i < l.length)
    (hpl : parent i < l.length) (h0 : 0 < i) (hlt : l[parent i] < l[i]) :
    UpOrder (swap l i (parent i) hi hpl) (parent i) := by
  have hp := parent_lt h0
  constructor
  · intro j hj hjp hj0 hne
    simp only [length_swap] at hj hjp
    rw [getElem_swap _ _ _ _ _ _ _ hj, getElem_swap _ _ _ _ _ _ _ hjp, if_neg hne]
    by_cases hji : j = i
    · subst hji
      rw [if_pos rfl, if_pos rfl]
      exact le_of_lt hlt
    · rw [if_neg hji]
      have hj' := h.except j hj hjp hj0 hji
      split_ifs with hpp hpi
      · simp only [hpp] at hj'
        exact le_trans hj' (le_of_lt hlt)
      · have hg := h.grand j hj (parent_bound hjp) hj0 hpi h0
        simpa only [hpi] using hg
      · exact hj'
  · intro j hj hjp hj0 hpj hpp
    simp only [length_swap] at hj hjp
    have hup := h.except (parent i) hpl (parent_bound hpl) hpp (by omega)
    have hji' : j ≠ parent i := fun he => by have := parent_lt hj0; omega
    have hne₁ : parent (parent j) ≠ parent i := by
      rw [hpj]
      exact Nat.ne_of_lt (parent_lt hpp)
    have hne₂ : parent (parent j) ≠ i := by
      rw [hpj]
      have := parent_lt hpp
      omega
    rw [getElem_swap _ _ _ _ _ _ _ hj, getElem_swap _ _ _ _ _ _ _ hjp, if_neg hji', if_neg hne₁,
      if_neg hne₂]
    simp only [hpj]
    split_ifs with hji
    · exact hup
    · have hj' := h.except j hj (parent_bound hj) hj0 hji
      simp only [hpj] at hj'
      exact le_trans hj' hup

theorem UpOrder.isHeap {l : List α} {i : Nat} (h : UpOrder l i)
    (hstop : ∀ (hi : i < l.length) (_ : parent i < l.length), 0 < i → l[i] ≤ l[parent i]) :
    IsHeap l := by
  intro j hj hjp hj0
  by_cases hji : j = i
  · subst hji
    exact hstop hj hjp hj0
  · exact h.except j hj hjp hj0 hji

theorem siftUp_isHeap {l : List α} {i : Nat} (h : UpOrder l i) : IsHeap (siftUp l i) := by
  fun_induction siftUp l i with
  | case1 l i hi hlt ih => exact ih (h.swap hi.2.1 hi.2.2 hi.1 hlt)
  | case2 l i hi hge => exact h.isHeap fun _ _ _ => not_lt.mp hge
  | case3 l i hi => exact h.isHeap fun hl hp h0 => absurd ⟨h0, hl, hp⟩ hi

/-! ## Sifting down -/

/-- The larger child of `i` among the positions of the list. -/
def largerChild (l : List α) (i : Nat) (h : 2 * i + 1 < l.length) : Fin l.length :=
  if h2 : 2 * i + 2 < l.length then
    if l[2 * i + 1] < l[2 * i + 2] then ⟨2 * i + 2, h2⟩ else ⟨2 * i + 1, h⟩
  else ⟨2 * i + 1, h⟩

theorem parent_largerChild (l : List α) (i : Nat) (h : 2 * i + 1 < l.length) :
    parent (largerChild l i h) = i ∧ i < (largerChild l i h).val := by
  unfold largerChild parent
  split_ifs <;> simp only <;> omega

theorem le_largerChild (l : List α) (i : Nat) (h : 2 * i + 1 < l.length) (j : Nat)
    (hj : j < l.length) (h0 : 0 < j) (hp : parent j = i) : l[j] ≤ l[largerChild l i h] := by
  have hcases : j = 2 * i + 1 ∨ j = 2 * i + 2 := by
    unfold parent at hp
    omega
  by_cases h2 : 2 * i + 2 < l.length
  · by_cases hlt : l[2 * i + 1] < l[2 * i + 2]
    · simp only [largerChild, h2, hlt, dite_true, if_true, Fin.getElem_fin]
      rcases hcases with rfl | rfl
      · exact le_of_lt hlt
      · exact le_rfl
    · simp only [largerChild, h2, hlt, dite_true, if_false, Fin.getElem_fin]
      rcases hcases with rfl | rfl
      · exact le_rfl
      · exact not_lt.mp hlt
  · simp only [largerChild, h2, dite_false, Fin.getElem_fin]
    rcases hcases with rfl | rfl
    · exact le_rfl
    · exact absurd hj h2

/-- Exchange the entry at `i` with its larger child while that is larger. -/
def siftDown (l : List α) (i : Nat) : List α :=
  if h : 2 * i + 1 < l.length then
    if l[i] < l[largerChild l i h] then
      siftDown (swap l i (largerChild l i h) (by omega) (largerChild l i h).isLt)
        (largerChild l i h)
    else l
  else l
termination_by l.length - i
decreasing_by
  have := (parent_largerChild l i h).2
  simp only [length_swap]
  omega

theorem siftDown_perm (l : List α) (i : Nat) : (siftDown l i).Perm l := by
  fun_induction siftDown l i with
  | case1 l i h hlt ih => exact ih.trans (swap_perm _ _ _ _ _)
  | case2 => exact .refl _
  | case3 => exact .refl _

/-- The heap order at every position that is not a child of `i`, with those
children below the parent of `i`: what is known while the entry at `i` may
still be too small. -/
structure DownOrder (l : List α) (i : Nat) : Prop where
  except : ∀ (j : Nat) (hj : j < l.length) (_ : parent j < l.length), 0 < j → parent j ≠ i →
    l[j] ≤ l[parent j]
  grand : ∀ (j : Nat) (hj : j < l.length) (_ : parent (parent j) < l.length), 0 < j →
    parent j = i → 0 < i → l[j] ≤ l[parent (parent j)]

theorem DownOrder.swap {l : List α} {i c : Nat} (h : DownOrder l i) (hi : i < l.length)
    (hcl : c < l.length) (hpc : parent c = i) (hc0 : 0 < c) (hlt : l[i] < l[c])
    (hmax : ∀ (j : Nat) (hj : j < l.length), 0 < j → parent j = i → l[j] ≤ l[c]) :
    DownOrder (swap l i c hi hcl) c := by
  have hic : i < c := hpc ▸ parent_lt hc0
  constructor
  · intro j hj hjp hj0 hne
    simp only [length_swap] at hj hjp
    rw [getElem_swap _ _ _ _ _ _ _ hj, getElem_swap _ _ _ _ _ _ _ hjp, if_neg hne]
    by_cases hpi : parent j = i
    · rw [if_pos hpi]
      have hji : j ≠ i := fun he => by have := parent_lt hj0; omega
      split_ifs with hjc
      · exact le_of_lt hlt
      · exact hmax j hj hj0 hpi
    · rw [if_neg hpi]
      have hjc : j ≠ c := fun he => hpi (he ▸ hpc)
      rw [if_neg hjc]
      split_ifs with hji
      · subst hji
        have hg := h.grand c hcl (parent_bound (parent_bound hcl)) hc0 hpc hj0
        simpa only [hpc] using hg
      · exact h.except j hj hjp hj0 hpi
  · intro j hj hjp hj0 hpj _
    simp only [length_swap] at hj hjp
    have hjc : c < j := hpj ▸ parent_lt hj0
    have hj' := h.except j hj (parent_bound hj) hj0 (by omega)
    have hpp : parent (parent j) = i := by rw [hpj, hpc]
    rw [getElem_swap _ _ _ _ _ _ _ hj, getElem_swap _ _ _ _ _ _ _ hjp, if_neg (by omega),
      if_neg (by omega), if_neg (by omega), if_pos hpp]
    simpa only [hpj] using hj'

theorem siftDown_isHeap {l : List α} {i : Nat} (h : DownOrder l i) : IsHeap (siftDown l i) := by
  fun_induction siftDown l i with
  | case1 l i hc hlt ih =>
    obtain ⟨hpc, hic⟩ := parent_largerChild l i hc
    exact ih (h.swap (by omega) (largerChild l i hc).isLt hpc (by omega) hlt
      (le_largerChild l i hc))
  | case2 l i hc hge =>
    intro j hj hjp hj0
    by_cases hpj : parent j = i
    · have hle := le_trans (le_largerChild l i hc j hj hj0 hpj) (not_lt.mp hge)
      simpa only [hpj] using hle
    · exact h.except j hj hjp hj0 hpj
  | case3 l i hc =>
    intro j hj hjp hj0
    refine h.except j hj hjp hj0 fun hpj => hc ?_
    unfold parent at hpj
    omega

/-! ## The heap operations -/

/-- The last entry joins the heap in front of it. -/
def pushHeap (l : List α) : List α := siftUp l (l.length - 1)

/-- The largest entry moves behind the heap of the others. -/
def popHeap : List α → List α
  | [] => []
  | a :: rest =>
    match rest.getLast? with
    | none => [a]
    | some z => siftDown (z :: rest.dropLast) 0 ++ [a]

theorem pushHeap_perm (l : List α) : (pushHeap l).Perm l := siftUp_perm l _

theorem popHeap_perm (l : List α) : (popHeap l).Perm l := by
  cases l with
  | nil => exact .refl _
  | cons a rest =>
    cases hz : rest.getLast? with
    | none =>
      rw [List.getLast?_eq_none_iff] at hz
      simp [popHeap, hz]
    | some z =>
      obtain ⟨front, rfl⟩ := List.getLast?_eq_some_iff.mp hz
      have hfront : (z :: front).Perm (front ++ [z]) := (List.perm_append_singleton z front).symm
      simp only [popHeap, hz, List.dropLast_concat]
      refine (List.perm_append_singleton a _).trans (List.Perm.cons a ?_)
      exact (siftDown_perm _ 0).trans hfront

theorem isHeap_nil : IsHeap ([] : List α) := fun _ hi => absurd hi (Nat.not_lt_zero _)

theorem isHeap_of_prefix {l m : List α} (h : IsHeap (l ++ m)) : IsHeap l := by
  intro i hi hip hi0
  have hle := h i (by simp only [List.length_append]; omega)
    (by simp only [List.length_append]; omega) hi0
  rwa [List.getElem_append_left hi, List.getElem_append_left hip] at hle

/-- A heap followed by one entry is a heap again after `pushHeap`. -/
theorem isHeap_pushHeap {l : List α} {x : α} (h : IsHeap l) : IsHeap (pushHeap (l ++ [x])) := by
  apply siftUp_isHeap
  have hlen : (l ++ [x]).length - 1 = l.length := by simp
  rw [hlen]
  constructor
  · intro j hj hjp hj0 hne
    have hjl : j < l.length := by
      simp only [List.length_append, List.length_cons, List.length_nil] at hj
      omega
    rw [List.getElem_append_left hjl, List.getElem_append_left (parent_bound hjl)]
    exact h j hjl (parent_bound hjl) hj0
  · intro j hj _ hj0 hpj _
    have := parent_lt hj0
    simp only [List.length_append, List.length_cons, List.length_nil] at hj
    omega

/-- The root of a heap is its largest entry. -/
theorem IsHeap.le_head {a : α} {rest : List α} (h : IsHeap (a :: rest)) :
    ∀ x ∈ a :: rest, x ≤ a := by
  have hat : ∀ (i : Nat) (hi : i < (a :: rest).length), (a :: rest)[i] ≤ a := by
    intro i
    induction i using Nat.strongRecOn with
    | ind i ih =>
      intro hi
      by_cases h0 : i = 0
      · subst h0
        exact le_rfl
      · have hpos : 0 < i := Nat.pos_of_ne_zero h0
        exact le_trans (h i hi (parent_bound hi) hpos) (ih (parent i) (parent_lt hpos) (parent_bound hi))
  intro x hx
  obtain ⟨i, hi, rfl⟩ := List.mem_iff_getElem.mp hx
  exact hat i hi

/-- Everything that `popHeap` leaves in front of the old root is a heap. -/
theorem isHeap_dropLast_popHeap {l : List α} (h : IsHeap l) : IsHeap (popHeap l).dropLast := by
  cases l with
  | nil => exact isHeap_nil
  | cons a rest =>
    cases hz : rest.getLast? with
    | none => simp only [popHeap, hz]; exact isHeap_nil
    | some z =>
      obtain ⟨front, rfl⟩ := List.getLast?_eq_some_iff.mp hz
      simp only [popHeap, hz, List.dropLast_concat]
      apply siftDown_isHeap
      have hfront : IsHeap (a :: front) := isHeap_of_prefix (m := [z]) h
      constructor
      · intro j hj hjp hj0 hpj
        have hle := hfront j (by simpa using hj) (by simpa using hjp) hj0
        cases j with
        | zero => omega
        | succ j =>
          obtain ⟨p, hp⟩ : ∃ p, parent (j + 1) = p + 1 := Nat.exists_eq_succ_of_ne_zero hpj
          simpa only [hp, List.getElem_cons_succ] using hle
      · intro j _ _ _ _ h0
        omega

theorem getLast?_popHeap (a : α) (rest : List α) : (popHeap (a :: rest)).getLast? = some a := by
  cases hz : rest.getLast? with
  | none => simp [popHeap, hz]
  | some z => simp [popHeap, hz]

/-- The entries left in front of the old root are the others. -/
theorem dropLast_popHeap_perm (a : α) (rest : List α) :
    (popHeap (a :: rest)).dropLast.Perm rest := by
  obtain ⟨front, hf⟩ := List.getLast?_eq_some_iff.mp (getLast?_popHeap a rest)
  have hperm := popHeap_perm (a :: rest)
  rw [hf] at hperm ⊢
  rw [List.dropLast_concat]
  exact ((List.perm_append_singleton a front).symm.trans hperm).cons_inv

/-- An entry written over the old root, which `popHeap` moved to the end. -/
theorem set_popHeap (a e : α) (rest : List α) :
    (popHeap (a :: rest)).set rest.length e = (popHeap (a :: rest)).dropLast ++ [e] := by
  have hlength := (dropLast_popHeap_perm a rest).length_eq
  obtain ⟨front, hf⟩ := List.getLast?_eq_some_iff.mp (getLast?_popHeap a rest)
  rw [hf, List.dropLast_concat] at hlength ⊢
  rw [← hlength, List.set_append_right _ _ (Nat.le_refl _), Nat.sub_self, List.set_cons_zero]

/-- Replacing the root of a heap by another entry. -/
theorem replaceRoot_perm (a e : α) (rest : List α) :
    (pushHeap ((popHeap (a :: rest)).set rest.length e)).Perm (e :: rest) := by
  rw [set_popHeap]
  exact (pushHeap_perm _).trans ((List.perm_append_singleton e _).trans
    ((dropLast_popHeap_perm a rest).cons e))

theorem isHeap_replaceRoot {a : α} {rest : List α} (h : IsHeap (a :: rest)) (e : α) :
    IsHeap (pushHeap ((popHeap (a :: rest)).set rest.length e)) := by
  rw [set_popHeap]
  exact isHeap_pushHeap (isHeap_dropLast_popHeap h)

end Spheres.Library.BinaryHeap
