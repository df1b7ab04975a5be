import Mathlib.Data.List.Basic

/-!
# Lists of rows of one width

A list of rows that all have `w` entries is addressed by division and modulo
like the concatenation of its rows, and a block of `w` cells copied to a
multiple of `w` changes one row of flat memory.
-/

namespace Spheres.Library.Rows

variable {α : Type*}

theorem length_flatten_of_width {rows : List (List α)} {w : Nat}
    (h : ∀ row ∈ rows, row.length = w) : rows.flatten.length = rows.length * w := by
  induction rows with
  | nil => simp
  | cons row rows ih =>
    rw [List.flatten_cons, List.length_append, h row List.mem_cons_self,
      ih fun r hr => h r (List.mem_cons_of_mem _ hr), List.length_cons, Nat.succ_mul, Nat.add_comm]

/-- Reading row `i / w` at `i % w` reads the concatenation at `i`. -/
theorem getElem?_flatten_of_width {rows : List (List α)} {w : Nat} (hw : 0 < w)
    (h : ∀ row ∈ rows, row.length = w) (i : Nat) :
    rows.flatten[i]? = (rows[i / w]?).bind fun row => row[i % w]? := by
  induction rows generalizing i with
  | nil => simp
  | cons row rows ih =>
    have hrow := h row List.mem_cons_self
    have ih := ih fun r hr => h r (List.mem_cons_of_mem _ hr)
    rw [List.flatten_cons]
    by_cases hi : i < w
    · rw [List.getElem?_append_left (by omega), Nat.div_eq_of_lt hi, Nat.mod_eq_of_lt hi]
      simp
    · have hdiv : i / w = (i - w) / w + 1 := Nat.div_eq_sub_div hw (by omega)
      have hmod : i % w = (i - w) % w := Nat.mod_eq_sub_mod (by omega)
      rw [List.getElem?_append_right (by omega), hrow, ih, hdiv, hmod, List.getElem?_cons_succ]

/-- The concatenation at cell `j` of row `i`. -/
theorem getElem?_flatten_row {rows : List (List α)} {w : Nat} (h : ∀ row ∈ rows, row.length = w)
    (i : Nat) {j : Nat} (hj : j < w) :
    rows.flatten[i * w + j]? = (rows[i]?).bind (·[j]?) := by
  have hw : 0 < w := Nat.zero_lt_of_lt hj
  have hdiv : (i * w + j) / w = i := by
    rw [Nat.add_comm, Nat.add_mul_div_right _ _ hw, Nat.div_eq_of_lt hj, Nat.zero_add]
  have hmod : (i * w + j) % w = j := by
    rw [Nat.add_comm, Nat.add_mul_mod_self_right, Nat.mod_eq_of_lt hj]
  rw [getElem?_flatten_of_width hw h, hdiv, hmod]

theorem width_modify {rows : List (List α)} {w : Nat} (h : ∀ row ∈ rows, row.length = w)
    (g : List α → List α) (hg : ∀ row, (g row).length = row.length) (r : Nat) :
    ∀ row ∈ rows.modify r g, row.length = w := by
  intro row hrow
  obtain ⟨i, hi, rfl⟩ := List.mem_iff_getElem.mp hrow
  rw [List.getElem_modify]
  split
  · rw [hg]
    exact h _ (List.getElem_mem _)
  · exact h _ (List.getElem_mem _)

/-- Changing one entry of one row changes one entry of the concatenation. -/
theorem flatten_modify_of_width {rows : List (List α)} {w : Nat} (hw : 0 < w)
    (h : ∀ row ∈ rows, row.length = w) (g : α → α) (i : Nat) :
    (rows.modify (i / w) fun row => row.modify (i % w) g).flatten = rows.flatten.modify i g := by
  apply List.ext_getElem?
  intro j
  rw [getElem?_flatten_of_width hw (width_modify h _ (fun row => List.length_modify _ _ _) _),
    List.getElem?_modify, List.getElem?_modify, getElem?_flatten_of_width hw h]
  by_cases hdiv : i / w = j / w
  · by_cases hij : i = j
    · subst hij
      cases rows[i / w]? <;> simp
    · have hmod : i % w ≠ j % w := by
        intro hmod
        rw [← Nat.div_add_mod i w, ← Nat.div_add_mod j w, hdiv, hmod] at hij
        exact hij rfl
      cases rows[j / w]? <;> simp [hdiv, hij, hmod]
  · have hij : i ≠ j := fun he => hdiv (he ▸ rfl)
    cases rows[j / w]? <;> simp [hdiv, hij]

/-! ## Rows in flat memory -/

/-- Row `i` of flat memory. -/
def row (w i : Nat) (l : List α) : List α := (l.drop (i * w)).take w

/-- Copy a block to memory at an offset; past its end there is none. -/
def overwrite (offset : Nat) (src l : List α) : Option (List α) :=
  if offset + src.length ≤ l.length then
    some (l.take offset ++ src ++ l.drop (offset + src.length))
  else none

theorem getElem?_row (w i : Nat) (l : List α) (j : Nat) :
    (row w i l)[j]? = if j < w then l[i * w + j]? else none := by
  rw [row, List.getElem?_take, List.getElem?_drop]

/-- Different rows lie one behind the other. -/
theorem le_or_le_of_ne {w i i' : Nat} (hne : i' ≠ i) : i' * w + w ≤ i * w ∨ i * w + w ≤ i' * w := by
  rcases Nat.lt_or_gt_of_ne hne with hlt | hgt
  · have := Nat.mul_le_mul_right w (Nat.succ_le_of_lt hlt)
    rw [Nat.succ_mul] at this
    exact Or.inl this
  · have := Nat.mul_le_mul_right w (Nat.succ_le_of_lt hgt)
    rw [Nat.succ_mul] at this
    exact Or.inr this

/-- Cells of different rows are different cells. -/
theorem lt_or_le_of_ne {w i i' j : Nat} (hne : i' ≠ i) (hj : j < w) :
    i' * w + j < i * w ∨ i * w + w ≤ i' * w + j := by
  have := le_or_le_of_ne (w := w) hne
  omega

theorem overwrite_eq_some_iff {offset : Nat} {src l l' : List α} :
    overwrite offset src l = some l' ↔ offset + src.length ≤ l.length ∧
      l.take offset ++ src ++ l.drop (offset + src.length) = l' := by
  rw [overwrite]
  split
  · simp [*]
  · simp [*]

theorem length_overwrite {offset : Nat} {src l l' : List α}
    (h : overwrite offset src l = some l') : l'.length = l.length := by
  obtain ⟨hroom, rfl⟩ := overwrite_eq_some_iff.mp h
  rw [List.length_append, List.length_append, List.length_take, List.length_drop]
  omega

/-- The cells of the block change to its contents, the others stay as they are. -/
theorem getElem?_overwrite {offset : Nat} {src l l' : List α}
    (h : overwrite offset src l = some l') (j : Nat) :
    l'[j]? = if offset ≤ j ∧ j < offset + src.length then src[j - offset]? else l[j]? := by
  obtain ⟨hroom, rfl⟩ := overwrite_eq_some_iff.mp h
  have hfront : (l.take offset).length = offset := by
    rw [List.length_take]
    omega
  have hblock : (l.take offset ++ src).length = offset + src.length := by
    rw [List.length_append, hfront]
  by_cases hlt : j < offset
  · rw [if_neg (by omega), List.append_assoc, List.getElem?_append_left (by omega),
      List.getElem?_take, if_pos hlt]
  · by_cases hge : offset + src.length ≤ j
    · rw [if_neg (by omega), List.getElem?_append_right (hblock ▸ hge), hblock,
        List.getElem?_drop, Nat.add_sub_cancel' hge]
    · rw [if_pos ⟨by omega, by omega⟩, List.getElem?_append_left (by omega),
        List.getElem?_append_right (by omega), hfront]

/-- A block of the width of a row, copied to the place of row `i`, becomes row
`i` and leaves the other rows as they are. -/
theorem overwrite_row {w i : Nat} {src l : List α} (hsrc : src.length = w)
    (hroom : i * w + w ≤ l.length) :
    ∃ l', overwrite (i * w) src l = some l' ∧ l'.length = l.length ∧ row w i l' = src ∧
      ∀ i', i' ≠ i → row w i' l' = row w i' l := by
  obtain ⟨l', hl'⟩ : ∃ l', overwrite (i * w) src l = some l' := ⟨_, if_pos (hsrc.symm ▸ hroom)⟩
  have hget := getElem?_overwrite hl'
  refine ⟨l', hl', length_overwrite hl', ?_, ?_⟩
  · ext j
    rw [getElem?_row, hget]
    by_cases hj : j < w
    · rw [if_pos hj, if_pos ⟨by omega, by omega⟩, Nat.add_sub_cancel_left]
    · rw [if_neg hj, List.getElem?_eq_none (by omega)]
  · intro i' hne
    ext j
    rw [getElem?_row, getElem?_row]
    by_cases hj : j < w
    · have := lt_or_le_of_ne hne hj
      rw [if_pos hj, if_pos hj, hget, if_neg (by omega)]
    · rw [if_neg hj, if_neg hj]

theorem length_row {w i : Nat} {l : List α} (h : i * w + w ≤ l.length) :
    (row w i l).length = w := by
  rw [row, List.length_take, List.length_drop]
  omega

theorem row_map {β : Type*} (f : α → β) (w i : Nat) (l : List α) :
    row w i (l.map f) = (row w i l).map f := by
  rw [row, row, ← List.map_drop, ← List.map_take]

theorem row_zero_cons (w : Nat) (r : List α) (l : List α) (h : r.length = w) :
    row w 0 (r ++ l) = r := by
  rw [row, Nat.zero_mul, List.drop_zero, ← h, List.take_left]

theorem row_succ_append (w i : Nat) (r : List α) (l : List α) (h : r.length = w) :
    row w (i + 1) (r ++ l) = row w i l := by
  have hdrop : (r ++ l).drop ((i + 1) * w) = l.drop (i * w) := by
    rw [Nat.succ_mul, Nat.add_comm, ← List.drop_drop, ← h, List.drop_left]
  rw [row, hdrop, row]

/-- Row `i` of a concatenation of rows. -/
theorem row_flatten {rows : List (List α)} {w : Nat} (h : ∀ r ∈ rows, r.length = w) {i : Nat}
    {r : List α} (hr : rows[i]? = some r) : row w i rows.flatten = r := by
  induction rows generalizing i with
  | nil => simp at hr
  | cons r' rows ih =>
    have hr' := h r' List.mem_cons_self
    rw [List.flatten_cons]
    cases i with
    | zero =>
      obtain rfl : r' = r := by simpa using hr
      exact row_zero_cons w r' _ hr'
    | succ i =>
      rw [row_succ_append w i r' _ hr']
      exact ih (fun r hr => h r (List.mem_cons_of_mem _ hr)) (by simpa using hr)

/-- A block copied to the place of row `i` of a concatenation replaces that row. -/
theorem overwrite_flatten {rows : List (List α)} {w : Nat} (h : ∀ r ∈ rows, r.length = w)
    {i : Nat} (hi : i < rows.length) {src : List α} (hsrc : src.length = w) :
    overwrite (i * w) src rows.flatten = some (rows.set i src).flatten := by
  have hlen := length_flatten_of_width h
  have hroom : i * w + src.length ≤ rows.flatten.length := by
    rw [hlen, hsrc, ← Nat.succ_mul]
    exact Nat.mul_le_mul_right w hi
  rw [overwrite_eq_some_iff]
  refine ⟨hroom, ?_⟩
  clear hroom hlen
  induction rows generalizing i with
  | nil => simp at hi
  | cons r rows ih =>
    have hr := h r List.mem_cons_self
    rw [List.flatten_cons]
    cases i with
    | zero =>
      rw [Nat.zero_mul, Nat.zero_add, List.take_zero, List.nil_append, List.set_cons_zero,
        List.flatten_cons, hsrc, ← hr, List.drop_left]
    | succ i =>
      have ih := ih (fun r hr => h r (List.mem_cons_of_mem _ hr)) (Nat.lt_of_succ_lt_succ hi)
      have hfront : (i + 1) * w = r.length + i * w := by rw [Nat.succ_mul, hr, Nat.add_comm]
      rw [hfront, Nat.add_assoc, List.take_length_add_append, List.drop_length_add_append,
        List.set_cons_succ, List.flatten_cons, ← ih, List.append_assoc, List.append_assoc,
        List.append_assoc]

/-- Memory is determined by its rows. -/
theorem eq_of_rows {w n : Nat} (hw : 0 < w) {l l' : List α} (hl : l.length = n * w)
    (hl' : l'.length = n * w) (h : ∀ i < n, row w i l = row w i l') : l = l' := by
  apply List.ext_getElem?
  intro j
  by_cases hj : j < n * w
  · have hcell : ∀ m : List α, m[j]? = (row w (j / w) m)[j % w]? := by
      intro m
      rw [getElem?_row, if_pos (Nat.mod_lt _ hw), Nat.div_add_mod']
    rw [hcell, hcell, h (j / w) (Nat.div_lt_of_lt_mul (Nat.mul_comm n w ▸ hj))]
  · rw [List.getElem?_eq_none (by omega), List.getElem?_eq_none (by omega)]

end Spheres.Library.Rows
