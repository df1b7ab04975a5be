import Mathlib.Data.Finset.Card
import Mathlib.Data.Rat.Cast.Order
import Spheres.Library.Mean
import Spheres.Library.SizeT

/-!
# Recall

`recall` compares the ids that a search returned with the first `k` ids of the ground
truth. It looks every position of a row up in the set of these ids, narrowed to an
`int`. A row contributes what its set of ids has in common with the set of the true
ids exactly when no id of the row is a match by narrowing only and no matching id
is repeated. Numbers are exact here.
-/

namespace Spheres.Benchmark

open Library

/-- How a metric may fail: two kinds of exceptions, and what the language leaves undefined. -/
inductive Failure where
  | invalidArgument (what : String)
  | outOfRange (what : String)
  /-- A read out of range or an `int` that overflows. -/
  | undefined
  deriving DecidableEq

/-- `static_cast<int>(id)`. -/
def toInt32 (id : SizeT) : Int32 := Int32.ofNat id.toNat

/-- The `++i` of a loop whose index is an `int`. -/
def nextIndex (i : Nat) : Except Failure Nat :=
  if i + 1 < 2 ^ 31 then .ok (i + 1) else .error .undefined

/-- The number of positions of a row with an id in `truth`. -/
def hits (truth : Finset Int32) (row : List SizeT) : Nat :=
  row.countP fun id => toInt32 id ∈ truth

/-- The ids that are looked up. -/
def truthSet (k : Nat) (gtRow : List Int32) : Finset Int32 := (gtRow.take k).toFinset

/-- The body of the loop over the queries. -/
def recallRow (k : Nat) (row : List SizeT) (gtRow : List Int32) : Except Failure ℚ :=
  if row.length ≠ k ∨ gtRow.length < k then
    .error (.invalidArgument "each result row must contain exactly k IDs")
  else .ok (hits (truthSet k gtRow) row / k)

/-- The loop over the queries from index `i` on. -/
def recallLoop (k : Nat) : List (List SizeT × List Int32) → Nat → ℚ → Except Failure ℚ
  | [], _, total => .ok total
  | (row, gtRow) :: rows, i, total =>
    (recallRow k row gtRow).bind fun r => (nextIndex i).bind fun i => recallLoop k rows i (total + r)

/-- The function `recall`, whose word Mathlib reserves. -/
def recallAtK (results : List (List SizeT)) (gt : List (List Int32)) (k : Nat) : Except Failure ℚ :=
  if results = [] ∨ results.length ≠ gt.length ∨ k = 0 then
    .error (.invalidArgument "inconsistent inputs for recall")
  else (recallLoop k (results.zip gt) 0 0).map fun total => total / results.length

/-- The shapes for which `recall` does not throw. -/
structure Accepts (results : List (List SizeT)) (gt : List (List Int32)) (k : Nat) : Prop where
  nonempty : results ≠ []
  length : results.length = gt.length
  k_pos : 0 < k
  rows : ∀ row ∈ results, row.length = k
  gtRows : ∀ gtRow ∈ gt, k ≤ gtRow.length

/-! ## Recall of sets -/

/-- The numbers that a row of results has in common with the first `k` true ids. -/
def common (k : Nat) (row : List SizeT) (gtRow : List Int32) : Finset ℤ :=
  (row.map fun id => (id.toNat : ℤ)).toFinset ∩ ((gtRow.take k).map (·.toInt)).toFinset

/-- Recall as the mean share of the true ids that are found. -/
def setRecall (results : List (List SizeT)) (gt : List (List Int32)) (k : Nat) : ℚ :=
  mean ((results.zip gt).map fun p => ((common k p.1 p.2).card : ℚ) / k)

/-- `recall` returns the recall of sets: a number between 0 and 1 that does not depend
on the order in a row, and is 1 only if all true ids are found. -/
def RecallsSets (results : List (List SizeT)) (gt : List (List Int32)) (k : Nat) : Prop :=
  ∃ r, recallAtK results gt k = .ok r ∧ r = setRecall results gt k ∧ (0 ≤ r ∧ r ≤ 1) ∧
    (∀ results' gt', List.Forall₂ List.Perm results results' →
      List.Forall₂ (fun gtRow gtRow' => (gtRow.take k).Perm (gtRow'.take k)) gt gt' →
      recallAtK results' gt' k = .ok r) ∧
    (r = 1 → ∀ row gtRow, (row, gtRow) ∈ results.zip gt →
      ∀ t ∈ gtRow.take k, ∃ id ∈ row, (id.toNat : ℤ) = t.toInt)

/-- No id of the row matches by narrowing only, and no matching id is repeated. -/
structure MatchesOnce (k : Nat) (row : List SizeT) (gtRow : List Int32) : Prop where
  exact : ∀ id ∈ row, toInt32 id ∈ gtRow.take k → (id.toNat : ℤ) = (toInt32 id).toInt
  once : (row.filter fun id => toInt32 id ∈ gtRow.take k).Nodup

/-! ## One row -/

section Row

variable {k : Nat} {row : List SizeT} {gtRow : List Int32}

theorem mem_truthSet {t : Int32} : t ∈ truthSet k gtRow ↔ t ∈ gtRow.take k :=
  List.mem_toFinset

/-- An id that denotes the same number as an `int` is narrowed to it. -/
theorem toInt32_eq {id : SizeT} {t : Int32} (h : (id.toNat : ℤ) = t.toInt) : toInt32 id = t := by
  have hlt := t.toInt_lt
  apply Int32.toInt_inj.mp
  rw [toInt32, Int32.toInt_ofNat_of_lt (by omega), h]

/-- The matching positions. -/
def matching (k : Nat) (row : List SizeT) (gtRow : List Int32) : List SizeT :=
  row.filter fun id => toInt32 id ∈ gtRow.take k

theorem hits_eq : hits (truthSet k gtRow) row = (matching k row gtRow).length := by
  rw [hits, matching, List.countP_eq_length_filter]
  congr 1
  apply List.filter_congr
  intro id _
  simp only [mem_truthSet]

theorem mem_common {n : ℤ} :
    n ∈ common k row gtRow ↔
      (∃ id ∈ row, (id.toNat : ℤ) = n) ∧ ∃ t ∈ gtRow.take k, t.toInt = n := by
  simp only [common, Finset.mem_inter, List.mem_toFinset, List.mem_map]

/-- Common numbers are the numbers of matching positions. -/
theorem common_subset :
    common k row gtRow ⊆ ((matching k row gtRow).map fun id => (id.toNat : ℤ)).toFinset := by
  intro n hn
  obtain ⟨⟨id, hid, hn⟩, t, ht, htn⟩ := mem_common.mp hn
  have hnarrow : toInt32 id = t := toInt32_eq (hn.trans htn.symm)
  refine List.mem_toFinset.mpr (List.mem_map.mpr ⟨id, ?_, hn⟩)
  exact List.mem_filter.mpr ⟨hid, by simpa [hnarrow] using ht⟩

theorem card_common_le : (common k row gtRow).card ≤ hits (truthSet k gtRow) row := by
  calc (common k row gtRow).card
      ≤ ((matching k row gtRow).map fun id => (id.toNat : ℤ)).toFinset.card :=
        Finset.card_le_card common_subset
    _ ≤ ((matching k row gtRow).map fun id => (id.toNat : ℤ)).length := List.toFinset_card_le _
    _ = hits (truthSet k gtRow) row := by rw [List.length_map, hits_eq]

theorem toNat_cast_injective : Function.Injective fun id : SizeT => (id.toNat : ℤ) :=
  fun _ _ h => UInt64.toNat_inj.mp (Int.ofNat_inj.mp h)

/-- The number of matching positions is the number of common ids exactly when every
match is one, once. -/
theorem card_common_eq_iff :
    (common k row gtRow).card = hits (truthSet k gtRow) row ↔ MatchesOnce k row gtRow := by
  have hmap : ((matching k row gtRow).map fun id => (id.toNat : ℤ)).Nodup ↔
      (matching k row gtRow).Nodup := List.nodup_map_iff toNat_cast_injective
  have hlength : ((matching k row gtRow).map fun id => (id.toNat : ℤ)).length =
      hits (truthSet k gtRow) row := by rw [List.length_map, hits_eq]
  constructor
  · intro h
    have hle := List.toFinset_card_le ((matching k row gtRow).map fun id => (id.toNat : ℤ))
    rw [hlength] at hle
    have hsub := Finset.eq_of_subset_of_card_le common_subset (hle.trans h.ge)
    refine ⟨fun id hid hmatch => ?_, ?_⟩
    · have hmem : (id.toNat : ℤ) ∈ common k row gtRow := by
        rw [hsub]
        refine List.mem_toFinset.mpr (List.mem_map.mpr ⟨id, ?_, rfl⟩)
        exact List.mem_filter.mpr ⟨hid, by simpa using hmatch⟩
      obtain ⟨-, t, -, ht⟩ := mem_common.mp hmem
      rw [toInt32_eq ht.symm, ht]
    · apply hmap.mp
      apply Multiset.coe_nodup.mp
      apply Multiset.toFinset_card_eq_card_iff_nodup.mp
      rw [Multiset.coe_card, hlength, ← h, hsub]
      rfl
  · rintro ⟨hexact, honce⟩
    have hsub : ((matching k row gtRow).map fun id => (id.toNat : ℤ)).toFinset ⊆
        common k row gtRow := by
      intro n hn
      obtain ⟨id, hid, rfl⟩ := List.mem_map.mp (List.mem_toFinset.mp hn)
      obtain ⟨hid, hmatch⟩ := List.mem_filter.mp hid
      have hmatch : toInt32 id ∈ gtRow.take k := by simpa using hmatch
      exact mem_common.mpr ⟨⟨id, hid, rfl⟩, toInt32 id, hmatch, (hexact id hid hmatch).symm⟩
    rw [Finset.Subset.antisymm common_subset hsub,
      List.toFinset_card_of_nodup (hmap.mpr honce), hlength]

theorem hits_le (truth : Finset Int32) (row : List SizeT) : hits truth row ≤ row.length :=
  List.countP_le_length

/-- What the set of true ids and the row determine, whatever their orders. -/
theorem hits_perm {row' : List SizeT} {gtRow' : List Int32} (h : row.Perm row')
    (hgt : (gtRow.take k).Perm (gtRow'.take k)) :
    hits (truthSet k gtRow) row = hits (truthSet k gtRow') row' := by
  have htruth : truthSet k gtRow = truthSet k gtRow' := List.toFinset_eq_of_perm _ _ hgt
  rw [htruth]
  exact h.countP_eq _

/-- All true ids are found when as many numbers are common. -/
theorem exists_of_card_common (h : (common k row gtRow).card = k)
    {t : Int32} (ht : t ∈ gtRow.take k) : ∃ id ∈ row, (id.toNat : ℤ) = t.toInt := by
  have hcard : ((gtRow.take k).map (·.toInt)).toFinset.card ≤ (common k row gtRow).card := by
    rw [h]
    refine (List.toFinset_card_le _).trans ?_
    rw [List.length_map, List.length_take]
    exact Nat.min_le_left _ _
  have hall := Finset.eq_of_subset_of_card_le Finset.inter_subset_right hcard
  have hmem : t.toInt ∈ common k row gtRow := by
    rw [common, hall]
    exact List.mem_toFinset.mpr (List.mem_map.mpr ⟨t, ht, rfl⟩)
  exact (mem_common.mp hmem).1

end Row

/-! ## All rows -/

section Rows

variable {k : Nat}

theorem recallRow_eq {p : List SizeT × List Int32} (h : p.1.length = k ∧ k ≤ p.2.length) :
    recallRow k p.1 p.2 = .ok (hits (truthSet k p.2) p.1 / k) := by
  obtain ⟨hrow, hgt⟩ := h
  rw [recallRow, if_neg (by omega)]

theorem nextIndex_of_lt {i : Nat} (h : i + 1 < 2 ^ 31) : nextIndex i = .ok (i + 1) :=
  if_pos h

theorem nextIndex_of_le {i : Nat} (h : 2 ^ 31 ≤ i + 1) : nextIndex i = .error .undefined :=
  if_neg (Nat.not_lt.mpr h)

/-- The loop over rows that are accepted, while the index is an `int`. -/
theorem recallLoop_eq {rows : List (List SizeT × List Int32)}
    (hrows : ∀ p ∈ rows, p.1.length = k ∧ k ≤ p.2.length) (i : Nat) (total : ℚ) :
    i + rows.length < 2 ^ 31 →
    recallLoop k rows i total =
      .ok (total + (rows.map fun p => (hits (truthSet k p.2) p.1 / k : ℚ)).sum) := by
  induction rows generalizing i total with
  | nil => exact fun _ => by rw [recallLoop, List.map_nil, List.sum_nil, add_zero]
  | cons p rows ih =>
    intro hi
    obtain ⟨hp, hrest⟩ := List.forall_mem_cons.mp hrows
    rw [List.length_cons] at hi
    rw [recallLoop, recallRow_eq hp]
    show (nextIndex i).bind _ = _
    rw [nextIndex_of_lt (by omega)]
    show recallLoop k rows (i + 1) _ = _
    rw [ih hrest (i + 1) _ (by omega), List.map_cons, List.sum_cons, add_assoc]

/-- With too many rows the index overflows. -/
theorem recallLoop_undefined {rows : List (List SizeT × List Int32)}
    (hrows : ∀ p ∈ rows, p.1.length = k ∧ k ≤ p.2.length) (i : Nat) (total : ℚ) :
    i < 2 ^ 31 → 2 ^ 31 ≤ i + rows.length → recallLoop k rows i total = .error .undefined := by
  induction rows generalizing i total with
  | nil =>
    intro hi hle
    rw [List.length_nil] at hle
    omega
  | cons p rows ih =>
    intro hi hle
    obtain ⟨hp, hrest⟩ := List.forall_mem_cons.mp hrows
    rw [List.length_cons] at hle
    rw [recallLoop, recallRow_eq hp]
    show (nextIndex i).bind _ = _
    rcases Nat.lt_or_ge (i + 1) (2 ^ 31) with hmore | hlast
    · rw [nextIndex_of_lt hmore]
      exact ih hrest (i + 1) _ hmore (by omega)
    · rw [nextIndex_of_le hlast]
      rfl

variable {results : List (List SizeT)} {gt : List (List Int32)}

theorem Accepts.pairs (h : Accepts results gt k) :
    ∀ p ∈ results.zip gt, p.1.length = k ∧ k ≤ p.2.length := by
  rintro ⟨row, gtRow⟩ hp
  obtain ⟨hrow, hgt⟩ := List.of_mem_zip hp
  exact ⟨h.rows row hrow, h.gtRows gtRow hgt⟩

theorem Accepts.length_zip (h : Accepts results gt k) :
    (results.zip gt).length = results.length := by
  rw [List.length_zip, ← h.length, Nat.min_self]

theorem Accepts.zip_ne_nil (h : Accepts results gt k) : results.zip gt ≠ [] := by
  apply List.ne_nil_of_length_pos
  rw [h.length_zip]
  exact List.length_pos_iff.mpr h.nonempty

theorem Accepts.guard (h : Accepts results gt k) :
    ¬ (results = [] ∨ results.length ≠ gt.length ∨ k = 0) := by
  rintro (hnil | hlength | hk)
  · exact h.nonempty hnil
  · exact hlength h.length
  · exact h.k_pos.ne' hk

/-- What `recall` returns. -/
theorem recall_eq (h : Accepts results gt k) (hsize : results.length < 2 ^ 31) :
    recallAtK results gt k =
      .ok (mean ((results.zip gt).map fun p => (hits (truthSet k p.2) p.1 / k : ℚ))) := by
  have hloop := recallLoop_eq h.pairs 0 0 (by rw [h.length_zip]; omega)
  rw [recallAtK, if_neg h.guard, hloop, mean_map, h.length_zip, zero_add]
  rfl

theorem recall_undefined (h : Accepts results gt k) (hsize : 2 ^ 31 ≤ results.length) :
    recallAtK results gt k = .error .undefined := by
  have hloop := recallLoop_undefined h.pairs 0 0 (by omega) (by rw [h.length_zip]; omega)
  rw [recallAtK, if_neg h.guard, hloop]
  rfl

theorem zip_forall₂ {α α' β β' : Type*} {r : α → α' → Prop} {s : β → β' → Prop} {l : List α}
    {l' : List α'} {m : List β} {m' : List β'} (hl : List.Forall₂ r l l')
    (hm : List.Forall₂ s m m') :
    List.Forall₂ (fun p p' => r p.1 p'.1 ∧ s p.2 p'.2) (l.zip m) (l'.zip m') := by
  induction hl generalizing m m' with
  | nil => exact .nil
  | cons h _ ih =>
    cases hm with
    | nil => exact .nil
    | cons h' hm => exact .cons ⟨h, h'⟩ (ih hm)

theorem exists_of_forall₂ {α β : Type*} {r : α → β → Prop} {l : List α} {l' : List β}
    (h : List.Forall₂ r l l') {b : β} (hb : b ∈ l') : ∃ a ∈ l, r a b := by
  induction h with
  | nil => exact absurd hb List.not_mem_nil
  | @cons a b' l l' hab _ ih =>
    rcases List.mem_cons.mp hb with rfl | hb
    · exact ⟨a, List.mem_cons_self, hab⟩
    · obtain ⟨a', ha', hr⟩ := ih hb
      exact ⟨a', List.mem_cons_of_mem _ ha', hr⟩

/-- Rows in another order are accepted too. -/
theorem Accepts.perm (h : Accepts results gt k) {results' : List (List SizeT)}
    {gt' : List (List Int32)} (hresults : List.Forall₂ List.Perm results results')
    (hgt : List.Forall₂ (fun gtRow gtRow' => (gtRow.take k).Perm (gtRow'.take k)) gt gt') :
    Accepts results' gt' k := by
  refine ⟨?_, ?_, h.k_pos, fun row' hrow' => ?_, fun gtRow' hgtRow' => ?_⟩
  · rintro rfl
    exact h.nonempty (List.forall₂_nil_right_iff.mp hresults)
  · rw [← hresults.length_eq, ← hgt.length_eq, h.length]
  · obtain ⟨row, hrow, hperm⟩ := exists_of_forall₂ hresults hrow'
    rw [← hperm.length_eq, h.rows row hrow]
  · obtain ⟨gtRow, hgtRow, hperm⟩ := exists_of_forall₂ hgt hgtRow'
    have hlength := hperm.length_eq
    have hle := h.gtRows gtRow hgtRow
    rw [List.length_take, List.length_take] at hlength
    omega

/-- The order in the rows plays no part. -/
theorem recall_perm (h : Accepts results gt k) (hsize : results.length < 2 ^ 31)
    {results' : List (List SizeT)} {gt' : List (List Int32)}
    (hresults : List.Forall₂ List.Perm results results')
    (hgt : List.Forall₂ (fun gtRow gtRow' => (gtRow.take k).Perm (gtRow'.take k)) gt gt') :
    recallAtK results' gt' k = recallAtK results gt k := by
  have hsize' : results'.length < 2 ^ 31 := hresults.length_eq ▸ hsize
  rw [recall_eq (h.perm hresults hgt) hsize', recall_eq h hsize]
  refine congrArg (fun xs => Except.ok (mean xs)) ?_
  refine (List.forall₂_eq_eq_eq ▸ List.forall₂_map_right_iff.mpr
    (List.forall₂_map_left_iff.mpr ((zip_forall₂ hresults hgt).imp ?_)) :
      List.map _ _ = List.map _ _).symm
  rintro p p' ⟨hrow, hgtRow⟩
  rw [hits_perm hrow hgtRow]

theorem share_le_one (h : Accepts results gt k) {p : List SizeT × List Int32}
    (hp : p ∈ results.zip gt) : (hits (truthSet k p.2) p.1 / k : ℚ) ≤ 1 := by
  have hk : (0 : ℚ) < k := Nat.cast_pos.mpr h.k_pos
  rw [div_le_one hk, Nat.cast_le, ← (h.pairs p hp).1]
  exact hits_le _ _

/-- The recall of sets is at most what `recall` returns, row by row. -/
theorem share_common_le (k : Nat) (p : List SizeT × List Int32) :
    ((common k p.1 p.2).card / k : ℚ) ≤ hits (truthSet k p.2) p.1 / k :=
  div_le_div_of_nonneg_right (Nat.cast_le.mpr card_common_le) (Nat.cast_nonneg k)

/-- `recall` returns the recall of sets exactly when every match in every row is one
and is made once, and there are no more rows than an `int` can count. -/
theorem recall_recallsSets_iff (h : Accepts results gt k) :
    RecallsSets results gt k ↔
      results.length < 2 ^ 31 ∧ ∀ p ∈ results.zip gt, MatchesOnce k p.1 p.2 := by
  have hk : (0 : ℚ) < k := Nat.cast_pos.mpr h.k_pos
  have hrow : ∀ p : List SizeT × List Int32,
      (((common k p.1 p.2).card / k : ℚ) = hits (truthSet k p.2) p.1 / k ↔
        MatchesOnce k p.1 p.2) := by
    intro p
    rw [div_left_inj' hk.ne', Nat.cast_inj, card_common_eq_iff]
  have hmean : setRecall results gt k =
      mean ((results.zip gt).map fun p => (hits (truthSet k p.2) p.1 / k : ℚ)) ↔
        ∀ p ∈ results.zip gt, MatchesOnce k p.1 p.2 := by
    rw [setRecall, mean_eq_iff h.zip_ne_nil fun p _ => share_common_le k p]
    exact forall₂_congr fun p _ => hrow p
  constructor
  · rintro ⟨r, hr, hset, -⟩
    have hsize : results.length < 2 ^ 31 := by
      by_contra hge
      rw [recall_undefined h (Nat.le_of_not_lt hge)] at hr
      cases hr
    rw [recall_eq h hsize] at hr
    exact ⟨hsize, hmean.mp ((Except.ok.inj hr).trans hset).symm⟩
  · rintro ⟨hsize, honce⟩
    refine ⟨_, recall_eq h hsize, (hmean.mpr honce).symm, ⟨?_, ?_⟩, ?_, ?_⟩
    · apply mean_nonneg
      intro p _
      positivity
    · exact mean_le h.zip_ne_nil fun p hp => share_le_one h hp
    · intro results' gt' hresults hgt
      rw [recall_perm h hsize hresults hgt, recall_eq h hsize]
    · intro hone row gtRow hp t ht
      have hall := (mean_eq_bound h.zip_ne_nil fun p hp => share_le_one h hp).mp hone
      have hshare := (hrow (row, gtRow)).mpr (honce _ hp)
      rw [hall _ hp, div_eq_one_iff_eq hk.ne', Nat.cast_inj] at hshare
      exact exists_of_card_common hshare ht

end Rows

/-- Two queries with their two nearest, one of which is missed. -/
theorem recall_recallsSets_iff_two :
    RecallsSets [[5, 6], [7, 9]] [[6, 5], [9, 8, 7]] 2 ↔
      [[5, 6], [7, 9]].length < 2 ^ 31 ∧
        ∀ p ∈ [[5, 6], [7, 9]].zip [[6, 5], [9, 8, 7]], MatchesOnce 2 p.1 p.2 :=
  recall_recallsSets_iff ⟨by decide, by decide, by decide, by decide, by decide⟩

/-- The id 5 is returned twice and counted twice: the recall is 1, although 6 is missing. -/
theorem recall_counts_positions :
    Accepts [[5, 5]] [[5, 6]] 2 ∧ recallAtK [[5, 5]] [[5, 6]] 2 = .ok 1 ∧
      setRecall [[5, 5]] [[5, 6]] 2 = 1 / 2 ∧ ¬ RecallsSets [[5, 5]] [[5, 6]] 2 := by
  have hrecall : recallAtK [[5, 5]] [[5, 6]] 2 = .ok 1 := by
    decide +kernel
  have hset : setRecall [[5, 5]] [[5, 6]] 2 = 1 / 2 := by
    decide +kernel
  refine ⟨⟨by decide, by decide, by decide, by decide, by decide⟩, hrecall, hset, ?_⟩
  rintro ⟨r, hr, heq, -⟩
  obtain rfl : 1 = r := Except.ok.inj (hrecall.symm.trans hr)
  rw [hset] at heq
  norm_num at heq

end Spheres.Benchmark
