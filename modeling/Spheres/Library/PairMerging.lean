import Mathlib.Data.List.Basic
import Mathlib.Order.Defs.LinearOrder
import Mathlib.Order.Lattice

/-!
# Merging adjacent pairs by rank

The plain form of byte pair encoding, for a list of tokens that are lists: merge the
leftmost of the adjacent pairs whose concatenation has the lowest rank, until no adjacent
pair has a rank.
-/

namespace Spheres.Library.PairMerging

variable {β ρ : Type*} [LinearOrder ρ] (rank : List β → Option ρ)

/-- The lower of two ranks with their positions; the first one where they are equal. -/
def better (best : Option (ρ × Nat)) (r : Option ρ) (i : Nat) : Option (ρ × Nat) :=
  match r, best with
  | none, best => best
  | some r, none => some (r, i)
  | some r, some (r', i') => if r < r' then some (r, i) else some (r', i')

/-- Go through the pairs of tokens from position `i` on. -/
def lowestFrom : Nat → List (List β) → Option (ρ × Nat) → Option (ρ × Nat)
  | i, a :: b :: ts, best => lowestFrom (i + 1) (b :: ts) (better best (rank (a ++ b)) i)
  | _, _, best => best

/-- The lowest rank of an adjacent pair, and where it is found first. -/
def lowest (ts : List (List β)) : Option (ρ × Nat) := lowestFrom rank 0 ts none

/-- Merge the token at a position with the next one. -/
def mergeAt : Nat → List (List β) → List (List β)
  | 0, a :: b :: ts => (a ++ b) :: ts
  | i + 1, a :: ts => a :: mergeAt i ts
  | _, ts => ts

omit [LinearOrder ρ] in
/-- The rank of the pair at a position. -/
def pairRank (ts : List (List β)) (i : Nat) : Option ρ :=
  (ts[i]?).bind fun a => (ts[i + 1]?).bind fun b => rank (a ++ b)

omit [LinearOrder ρ] in
theorem lt_length_of_pairRank {ts : List (List β)} {i : Nat} {r : ρ}
    (h : pairRank rank ts i = some r) : i + 1 < ts.length := by
  obtain ⟨a, -, hb⟩ := Option.bind_eq_some_iff.mp h
  obtain ⟨b, hb, -⟩ := Option.bind_eq_some_iff.mp hb
  exact (List.getElem?_eq_some_iff.mp hb).1

/-! ## The pair that is found -/

/-- `best` is the lowest rank of the pairs at positions below `n`, and its first position. -/
def LowestBelow (ts : List (List β)) (n : Nat) : Option (ρ × Nat) → Prop
  | none => ∀ j < n, pairRank rank ts j = none
  | some (r, i) => i < n ∧ pairRank rank ts i = some r ∧
      ∀ j < n, ∀ r', pairRank rank ts j = some r' → r ≤ r' ∧ (j < i → r < r')

/-- `best` is the lowest rank of all pairs and its first position. -/
def IsLowest (ts : List (List β)) : Option (ρ × Nat) → Prop
  | none => ∀ j, pairRank rank ts j = none
  | some (r, i) => pairRank rank ts i = some r ∧
      ∀ j r', pairRank rank ts j = some r' → r ≤ r' ∧ (j < i → r < r')

variable {rank}

/-- A pair stays the best one if the next pair does not beat it. -/
theorem lowestBelow_succ {ts : List (List β)} {n i : Nat} {r : ρ} (hi : i < n + 1)
    (hrank : pairRank rank ts i = some r)
    (hbelow : ∀ j < n, ∀ r', pairRank rank ts j = some r' → r ≤ r' ∧ (j < i → r < r'))
    (hlast : ∀ r', pairRank rank ts n = some r' → r ≤ r' ∧ (n < i → r < r')) :
    LowestBelow rank ts (n + 1) (some (r, i)) := by
  refine ⟨hi, hrank, fun j hj => ?_⟩
  rcases Nat.lt_succ_iff_lt_or_eq.mp hj with hlt | rfl
  · exact hbelow j hlt
  · exact hlast

theorem LowestBelow.next {ts : List (List β)} {n : Nat} {best : Option (ρ × Nat)}
    (h : LowestBelow rank ts n best) :
    LowestBelow rank ts (n + 1) (better best (pairRank rank ts n) n) := by
  cases hr : pairRank rank ts n with
  | none =>
    have hnone : ∀ r', pairRank rank ts n ≠ some r' := by
      intro r' hr'
      rw [hr] at hr'
      cases hr'
    cases best with
    | none =>
      intro j hj
      rcases Nat.lt_succ_iff_lt_or_eq.mp hj with hlt | rfl
      · exact h j hlt
      · exact hr
    | some p =>
      obtain ⟨hi, hrank, hlow⟩ := h
      exact lowestBelow_succ (Nat.lt_succ_of_lt hi) hrank hlow fun r' hr' => absurd hr' (hnone r')
  | some r =>
    have hsame : ∀ r', pairRank rank ts n = some r' → r = r' := fun r' hr' =>
      Option.some.inj (hr.symm.trans hr')
    have hself : ∀ r', pairRank rank ts n = some r' → r ≤ r' ∧ (n < n → r < r') :=
      fun r' hr' => ⟨(hsame r' hr').le, fun hlt => absurd hlt (Nat.lt_irrefl n)⟩
    cases best with
    | none =>
      refine lowestBelow_succ (Nat.lt_succ_self n) hr (fun j hj r' hr' => ?_) hself
      rw [h j hj] at hr'
      cases hr'
    | some p =>
      obtain ⟨hi, hrank, hlow⟩ := h
      by_cases hlt : r < p.1
      · rw [better, if_pos hlt]
        refine lowestBelow_succ (Nat.lt_succ_self n) hr (fun j hj r' hr' => ?_) hself
        have hr'' := lt_of_lt_of_le hlt (hlow j hj r' hr').1
        exact ⟨le_of_lt hr'', fun _ => hr''⟩
      · rw [better, if_neg hlt]
        refine lowestBelow_succ (Nat.lt_succ_of_lt hi) hrank hlow fun r' hr' => ?_
        rw [← hsame r' hr']
        exact ⟨not_lt.mp hlt, fun hni => absurd hni (Nat.lt_asymm hi)⟩

/-- Where no pairs are left, all pairs have been seen. -/
theorem LowestBelow.isLowest {ts : List (List β)} {n : Nat} {best : Option (ρ × Nat)}
    (h : LowestBelow rank ts n best) (hn : ts.length ≤ n + 1) : IsLowest rank ts best := by
  have hlast : ∀ j r', pairRank rank ts j = some r' → j < n := by
    intro j r' hr'
    have := lt_length_of_pairRank rank hr'
    omega
  cases best with
  | none =>
    intro j
    cases hj : pairRank rank ts j with
    | none => rfl
    | some r' =>
      rw [h j (hlast j r' hj)] at hj
      cases hj
  | some p => exact ⟨h.2.1, fun j r' hr' => h.2.2 j (hlast j r' hr') r' hr'⟩

theorem lowestFrom_spec {ts rest : List (List β)} {i : Nat} {best : Option (ρ × Nat)}
    (hrest : ts.drop i = rest) (h : LowestBelow rank ts i best) :
    IsLowest rank ts (lowestFrom rank i rest best) := by
  have hlength := congrArg List.length hrest
  rw [List.length_drop] at hlength
  induction rest generalizing i best with
  | nil => exact h.isLowest (by simp only [List.length_nil] at hlength; omega)
  | cons a rest ih =>
    cases rest with
    | nil =>
      apply h.isLowest
      simp only [List.length_cons, List.length_nil] at hlength
      omega
    | cons b rest =>
      have hpair : pairRank rank ts i = rank (a ++ b) := by
        have ha : ts[i]? = some a := by
          rw [← Nat.add_zero i, ← List.getElem?_drop, hrest]
          rfl
        have hb : ts[i + 1]? = some b := by
          rw [← List.getElem?_drop, hrest]
          rfl
        rw [pairRank, ha, hb, Option.bind_some, Option.bind_some]
      have hnext : ts.drop (i + 1) = b :: rest := by
        rw [← List.drop_drop, hrest]
        rfl
      rw [lowestFrom, ← hpair]
      apply ih hnext h.next
      simp only [List.length_cons] at hlength ⊢
      omega

/-- The pair that is merged is the leftmost one of the lowest rank. -/
theorem isLowest_lowest (ts : List (List β)) : IsLowest rank ts (lowest rank ts) :=
  lowestFrom_spec rfl fun j hj => absurd hj (Nat.not_lt_zero j)

/-! ## Merging -/

@[simp] theorem flatten_mergeAt (i : Nat) (ts : List (List β)) :
    (mergeAt i ts).flatten = ts.flatten := by
  fun_induction mergeAt i ts with
  | case1 a b ts => simp only [List.flatten_cons, List.append_assoc]
  | case2 i a ts ih => rw [List.flatten_cons, List.flatten_cons, ih]
  | case3 => rfl

theorem length_mergeAt {i : Nat} {ts : List (List β)} (h : i + 1 < ts.length) :
    (mergeAt i ts).length + 1 = ts.length := by
  fun_induction mergeAt i ts with
  | case1 a b ts => rfl
  | case2 i a ts ih =>
    rw [List.length_cons, List.length_cons, ih (by simpa using h)]
  | case3 i ts h₀ h₁ =>
    match i, ts with
    | 0, a :: b :: ts => exact (h₀ a b ts rfl rfl).elim
    | i + 1, a :: ts => exact (h₁ i a ts rfl rfl).elim
    | 0, [a] => simp at h
    | _, [] => simp at h

theorem lt_length_of_lowest {ts : List (List β)} {p : ρ × Nat} (h : lowest rank ts = some p) :
    p.2 + 1 < ts.length :=
  lt_length_of_pairRank rank (h ▸ isLowest_lowest ts : IsLowest rank ts (some p)).1

variable (rank) in
/-- Merge until no adjacent pair has a rank. -/
def merge (ts : List (List β)) : List (List β) :=
  match _h : lowest rank ts with
  | none => ts
  | some p => merge (mergeAt p.2 ts)
termination_by ts.length
decreasing_by
  have := length_mergeAt (lt_length_of_lowest _h)
  omega

theorem merge_of_none {ts : List (List β)} (h : lowest rank ts = none) : merge rank ts = ts := by
  unfold merge
  split
  · rfl
  · rename_i hp
    rw [h] at hp
    cases hp

theorem merge_of_some {ts : List (List β)} {p : ρ × Nat} (h : lowest rank ts = some p) :
    merge rank ts = merge rank (mergeAt p.2 ts) := by
  rw [merge]
  split
  · rename_i hp
    rw [h] at hp
    cases hp
  · rename_i q hq
    obtain rfl := Option.some.inj (h.symm.trans hq)
    rfl

/-- The tokens are concatenated in the same way whatever their elements are replaced by. -/
theorem mergeAt_map {α : Type*} {f : List α → List β} (hf : ∀ a b, f (a ++ b) = f a ++ f b)
    (i : Nat) (ts : List (List α)) : mergeAt i (ts.map f) = (mergeAt i ts).map f := by
  fun_induction mergeAt i ts with
  | case1 a b ts => rw [List.map_cons, List.map_cons, mergeAt, List.map_cons, hf]
  | case2 i a ts ih => rw [List.map_cons, mergeAt, ih, List.map_cons]
  | case3 i ts h₀ h₁ =>
    match i, ts with
    | 0, a :: b :: ts => exact (h₀ a b ts rfl rfl).elim
    | i + 1, a :: ts => exact (h₁ i a ts rfl rfl).elim
    | 0, [a] => rfl
    | 0, [] => rfl
    | i + 1, [] => rfl

variable (rank) in
theorem exists_merge_map {α : Type*} {f : List α → List β} (hf : ∀ a b, f (a ++ b) = f a ++ f b)
    (ts : List (List α)) :
    ∃ us : List (List α), merge rank (ts.map f) = us.map f ∧ us.flatten = ts.flatten := by
  generalize hn : ts.length = n
  induction n using Nat.strongRecOn generalizing ts with
  | ind n ih =>
    cases h : lowest rank (ts.map f) with
    | none => exact ⟨ts, merge_of_none h, rfl⟩
    | some p =>
      have hlt := length_mergeAt (lt_length_of_lowest h)
      rw [mergeAt_map hf, List.length_map, List.length_map] at hlt
      obtain ⟨us, hus, hflatten⟩ := ih (mergeAt p.2 ts).length (by omega) (mergeAt p.2 ts) rfl
      refine ⟨us, ?_, hflatten.trans (flatten_mergeAt _ _)⟩
      rw [merge_of_some h, mergeAt_map hf, hus]

theorem mergeAt_append (A B : List (List β)) (a b : List β) :
    mergeAt A.length (A ++ a :: b :: B) = A ++ (a ++ b) :: B := by
  induction A with
  | nil => rfl
  | cons c A ih => rw [List.length_cons, List.cons_append, mergeAt, ih, List.cons_append]

end Spheres.Library.PairMerging
