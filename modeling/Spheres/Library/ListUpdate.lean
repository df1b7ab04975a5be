import Mathlib.Algebra.BigOperators.Group.List.Basic

/-!
# Changing one entry of a list

How reading, membership and sums behave when one entry of a list is changed
with `List.modify`, and how a monadic loop over `List.range` that never fails
is read off as a pure function.
-/

namespace Spheres.Library.ListUpdate

variable {α β : Type*}

theorem getElem?_modify_self {l : List α} {i : Nat} {x : α} (h : l[i]? = some x) (g : α → α) :
    (l.modify i g)[i]? = some (g x) := by
  simp [h]

theorem getElem?_modify_ne {l : List α} {i j : Nat} (h : i ≠ j) (g : α → α) :
    (l.modify i g)[j]? = l[j]? := by
  simp [h]

/-- The entry behind a front of the list. -/
theorem modify_append_cons (l : List α) (x : α) (m : List α) (g : α → α) :
    (l ++ x :: m).modify l.length g = l ++ g x :: m := by
  induction l with
  | nil => rfl
  | cons y l ih => simpa using ih

/-- An entry of the changed list is an old one or the changed one. -/
theorem mem_modify {l : List α} {i : Nat} {x y : α} (h : l[i]? = some x) (g : α → α)
    (hy : y ∈ l.modify i g) : y ∈ l ∨ y = g x := by
  obtain ⟨j, hj⟩ := List.mem_iff_getElem?.mp hy
  by_cases hij : i = j
  · subst hij
    rw [getElem?_modify_self h] at hj
    exact Or.inr (Option.some.inj hj).symm
  · rw [getElem?_modify_ne hij] at hj
    exact Or.inl (List.mem_of_getElem? hj)

/-- Trading one entry for another in a sum. -/
theorem sum_map_modify {M : Type*} [AddCommMonoid M] (f : α → M) {l : List α} {i : Nat} {x : α}
    (h : l[i]? = some x) (g : α → α) :
    ((l.modify i g).map f).sum + f x = (l.map f).sum + f (g x) := by
  induction l generalizing i with
  | nil => simp at h
  | cons a l ih =>
    cases i with
    | zero =>
      obtain rfl : a = x := by simpa using h
      simp only [List.modify_zero_cons, List.map_cons, List.sum_cons]
      ac_rfl
    | succ i =>
      have ih := ih (i := i) (by simpa using h)
      simp only [List.modify_succ_cons, List.map_cons, List.sum_cons]
      rw [add_assoc, ih, add_assoc]

theorem sum_map_set {M : Type*} [AddCommMonoid M] (f : α → M) {l : List α} {i : Nat} {x : α}
    (h : l[i]? = some x) (y : α) :
    ((l.set i y).map f).sum + f x = (l.map f).sum + f y := by
  have heq : l.set i y = l.modify i fun _ => y := by
    apply List.ext_getElem?
    intro j
    rw [List.getElem?_set, List.getElem?_modify]
    split
    · rename_i hij
      subst hij
      obtain ⟨hi, -⟩ := List.getElem?_eq_some_iff.mp h
      simp [hi]
    · simp
  rw [heq]
  exact sum_map_modify f h fun _ => y

/-- A fallible map that never fails is a map. -/
theorem mapM_eq_some_map {f : α → Option β} {g : α → β} {l : List α}
    (h : ∀ x ∈ l, f x = some (g x)) : l.mapM f = some (l.map g) := by
  induction l with
  | nil => rfl
  | cons x l ih =>
    rw [List.mapM_cons, h x List.mem_cons_self, ih fun y hy => h y (List.mem_cons_of_mem _ hy)]
    rfl

/-- Every step of a loop that does not fail succeeds. -/
theorem exists_step_of_foldlM {β γ : Type*} {body : β → γ → Option β} {l : List γ} {b b' : β}
    (h : l.foldlM body b = some b') {x : γ} (hx : x ∈ l) : ∃ c c', body c x = some c' := by
  induction l generalizing b with
  | nil => cases hx
  | cons y l ih =>
    obtain ⟨d, hd, hrest⟩ := Option.bind_eq_some_iff.mp h
    rcases List.mem_cons.mp hx with rfl | hx
    · exact ⟨b, d, hd⟩
    · exact ih hrest hx

/-- A loop whose body appends what `f` finds at each position collects `f`. -/
theorem foldlM_collect (body : List β → Nat → Option (List β)) (f : Nat → Option β) (n : Nat)
    (hbody : ∀ i, i < n → ∀ acc, body acc i = some (acc ++ (f i).toList)) :
    (List.range n).foldlM body [] = some ((List.range n).filterMap f) := by
  induction n with
  | zero => rfl
  | succ n ih =>
    rw [List.range_succ, List.foldlM_append, ih fun i hi => hbody i (by omega),
      List.filterMap_append]
    simp only [Option.bind_eq_bind, Option.bind_some, List.foldlM_cons, List.foldlM_nil,
      hbody n (Nat.lt_succ_self n)]
    cases h : f n <;> simp [h]

/-- A loop over the positions from `k` on that reads the entries of a list. -/
theorem foldlM_range' {l : List α} {body : β → Nat → Option β} {g : β → α → β} {k : Nat}
    (hbody : ∀ j x b, l[j]? = some x → body b (k + j) = some (g b x)) (b : β) :
    (List.range' k l.length).foldlM body b = some (l.foldl g b) := by
  induction l generalizing k b with
  | nil => rfl
  | cons x l ih =>
    have hhead : body b k = some (g b x) := hbody 0 x b rfl
    have htail : ∀ j y b, l[j]? = some y → body b (k + 1 + j) = some (g b y) := by
      intro j y b hy
      rw [Nat.add_assoc, Nat.add_comm 1]
      exact hbody (j + 1) y b hy
    rw [List.length_cons, List.range'_succ, List.foldlM_cons, hhead]
    exact ih htail (g b x)

/-- A fallible map over the positions from `k` on that reads the entries of a list. -/
theorem mapM_range' {l : List α} {f : Nat → Option β} {g : α → β} {k : Nat}
    (hf : ∀ j x, l[j]? = some x → f (k + j) = some (g x)) :
    (List.range' k l.length).mapM f = some (l.map g) := by
  induction l generalizing k with
  | nil => rfl
  | cons x l ih =>
    have hhead : f k = some (g x) := hf 0 x rfl
    have htail : ∀ j y, l[j]? = some y → f (k + 1 + j) = some (g y) := by
      intro j y hy
      rw [Nat.add_assoc, Nat.add_comm 1]
      exact hf (j + 1) y hy
    rw [List.length_cons, List.range'_succ, List.mapM_cons, hhead, ih htail]
    rfl

theorem mapM_range {l : List α} {f : Nat → Option β} {g : α → β}
    (hf : ∀ j x, l[j]? = some x → f j = some (g x)) :
    (List.range l.length).mapM f = some (l.map g) := by
  rw [List.range_eq_range']
  exact mapM_range' fun j x hx => by rw [Nat.zero_add, hf j x hx]

/-- A search over the positions from `k` on that reads the entries of a list. -/
theorem findM?_range' {l : List α} {p : Nat → Option Bool} {f : α → Bool} {k : Nat}
    (hp : ∀ j x, l[j]? = some x → p (k + j) = some (f x)) :
    ∃ found, (List.range' k l.length).findM? p = some found ∧
      found.getD (k + l.length) = k + l.findIdx f := by
  induction l generalizing k with
  | nil => exact ⟨none, rfl, rfl⟩
  | cons x l ih =>
    have hhead : p k = some (f x) := hp 0 x rfl
    have htail : ∀ j y, l[j]? = some y → p (k + 1 + j) = some (f y) := by
      intro j y hy
      rw [Nat.add_assoc, Nat.add_comm 1]
      exact hp (j + 1) y hy
    obtain ⟨found, hrun, hfound⟩ := ih htail
    rw [List.length_cons, List.range'_succ, List.findM?, hhead, List.findIdx_cons]
    cases f x with
    | true => exact ⟨some k, rfl, rfl⟩
    | false =>
      refine ⟨found, hrun, ?_⟩
      rw [Nat.add_comm l.length, ← Nat.add_assoc, hfound, cond_false, Nat.add_assoc,
        Nat.add_comm 1]

/-- A loop whose body overwrites position `i` with what `f` finds there. -/
theorem foldlM_overwrite (body : List β → Nat → Option (List β)) (f : Nat → Option β) (n : Nat)
    (hbody : ∀ i, i < n → ∀ acc, body acc i = some (match f i with
      | none => acc
      | some b => acc.set i b)) (init : List β) :
    ∃ out, (List.range n).foldlM body init = some out ∧ out.length = init.length ∧
      ∀ j, out[j]? = if j < n then (init[j]?).map fun b => (f j).getD b else init[j]? := by
  induction n with
  | zero => exact ⟨init, rfl, rfl, fun j => by simp⟩
  | succ n ih =>
    obtain ⟨out, hrun, hlen, hout⟩ := ih fun i hi => hbody i (by omega)
    rw [List.range_succ, List.foldlM_append, hrun]
    refine ⟨_, by
      simp only [Option.bind_eq_bind, Option.bind_some, List.foldlM_cons, List.foldlM_nil,
        hbody n (Nat.lt_succ_self n)]
      rfl, ?_, ?_⟩
    · cases f n <;> simp [hlen]
    · intro j
      rcases Nat.lt_trichotomy j n with hj | rfl | hj
      · have hj' : j < n + 1 := Nat.lt_succ_of_lt hj
        cases f n <;> simp [hout, hj, hj', Nat.ne_of_gt hj]
      · cases hf : f j with
        | none => simp [hout]
        | some b =>
          rw [List.getElem?_set, if_pos rfl, hlen]
          by_cases hj : j < init.length
          · simp [hj]
          · simp [hj]
      · have hn : ¬ j < n + 1 := by omega
        cases f n <;> simp [hout, hn, Nat.not_lt.mpr (Nat.le_of_lt hj), Nat.ne_of_lt hj]

end Spheres.Library.ListUpdate
