import Spheres.Benchmark.Recall
import Spheres.Library.OrderStatistics

/-!
# Summary of the recalls

`recall_summarize` repeats the loop of `recall`, keeps the recall of every query and
reads three places of the sorted list. The places are computed with `size_t`: with
fewer than four queries the first of them lies behind the list.
-/

namespace Spheres.Benchmark

open Library

/-- The loop over the queries: the vector of recalls and their sum. -/
def summarizeLoop (k : Nat) :
    List (List SizeT × List Int32) → Nat → List ℚ → ℚ → Except Failure (List ℚ × ℚ)
  | [], _, recallVec, total => .ok (recallVec, total)
  | (row, gtRow) :: rows, i, recallVec, total =>
    (recallRow k row gtRow).bind fun r =>
    (nextIndex i).bind fun i' => summarizeLoop k rows i' (recallVec.set i r) (total + r)

/-- A read of a vector. -/
def readAt (xs : List ℚ) (i : SizeT) : Except Failure ℚ :=
  (xs[i.toNat]?).elim (.error .undefined) .ok

/-- The four numbers of `return_result`. -/
def recallSummarize (results : List (List SizeT)) (gt : List (List Int32)) (k : Nat) :
    Except Failure (List ℚ) :=
  if results = [] ∨ results.length ≠ gt.length ∨ k = 0 then
    .error (.invalidArgument "inconsistent inputs for recall")
  else
    (summarizeLoop k (results.zip gt) 0 (List.replicate results.length 0) 0).bind fun r =>
    let sorted := r.1.insertionSort (· ≤ ·)
    (readAt sorted ((.ofNat results.length : SizeT) / 4 - 1)).bind fun p25 =>
    (readAt sorted ((.ofNat results.length : SizeT) / 2 - 1)).bind fun p50 =>
    (readAt sorted 0).bind fun least => .ok [r.2 / results.length, p25, p50, least]

/-- The recalls of the single queries. -/
def queryRecalls (results : List (List SizeT)) (gt : List (List Int32)) (k : Nat) : List ℚ :=
  (results.zip gt).map fun p => (hits (truthSet k p.2) p.1 : ℚ) / k

/-- The summary is read within range: the recall of all queries, two recalls of queries
with a quarter and a half of all queries at or below them, and the least recall. -/
def Summarizes (results : List (List SizeT)) (gt : List (List Int32)) (k : Nat) : Prop :=
  ∃ average p25 p50 least, recallSummarize results gt k = .ok [average, p25, p50, least] ∧
    (least ≤ p25 ∧ p25 ≤ p50) ∧
    (least ∈ queryRecalls results gt k ∧ ∀ x ∈ queryRecalls results gt k, least ≤ x) ∧
    (p25 ∈ queryRecalls results gt k ∧
      results.length / 4 ≤ (queryRecalls results gt k).countP (· ≤ p25)) ∧
    (p50 ∈ queryRecalls results gt k ∧
      results.length / 2 ≤ (queryRecalls results gt k).countP (· ≤ p50)) ∧
    recallAtK results gt k = .ok average

section Loop

variable {k : Nat}

/-- The loop fills the vector from place `i` on. -/
theorem summarizeLoop_eq {rows : List (List SizeT × List Int32)}
    (hrows : ∀ p ∈ rows, p.1.length = k ∧ k ≤ p.2.length) (done : List ℚ) (total : ℚ) :
    done.length + rows.length < 2 ^ 31 →
    summarizeLoop k rows done.length (done ++ List.replicate rows.length 0) total =
      .ok (done ++ rows.map (fun p => (hits (truthSet k p.2) p.1 / k : ℚ)),
        total + (rows.map fun p => (hits (truthSet k p.2) p.1 / k : ℚ)).sum) := by
  induction rows generalizing done total with
  | nil =>
    intro _
    rw [summarizeLoop, List.map_nil, List.sum_nil, add_zero]
    rfl
  | cons p rows ih =>
    intro hi
    obtain ⟨hp, hrest⟩ := List.forall_mem_cons.mp hrows
    rw [List.length_cons] at hi
    have hset : (done ++ List.replicate (p :: rows).length (0 : ℚ)).set done.length
        (hits (truthSet k p.2) p.1 / k) =
        done ++ [(hits (truthSet k p.2) p.1 / k : ℚ)] ++ List.replicate rows.length 0 := by
      rw [List.length_cons, List.replicate_succ, List.set_append_right _ _ le_rfl, Nat.sub_self,
        List.set_cons_zero, List.append_assoc]
      rfl
    have hdone : done.length + 1 = (done ++ [(hits (truthSet k p.2) p.1 / k : ℚ)]).length := by
      rw [List.length_append, List.length_singleton]
    rw [summarizeLoop, recallRow_eq hp]
    show (nextIndex done.length).bind _ = _
    rw [nextIndex_of_lt (by omega)]
    show summarizeLoop k rows (done.length + 1) _ _ = _
    rw [hset, hdone, ih hrest _ _ (by rw [← hdone]; omega), List.map_cons, List.sum_cons,
      List.append_assoc, add_assoc]
    rfl

/-- With too many rows the index overflows. -/
theorem summarizeLoop_undefined {rows : List (List SizeT × List Int32)}
    (hrows : ∀ p ∈ rows, p.1.length = k ∧ k ≤ p.2.length) (i : Nat) (recallVec : List ℚ)
    (total : ℚ) :
    i < 2 ^ 31 → 2 ^ 31 ≤ i + rows.length →
    summarizeLoop k rows i recallVec total = .error .undefined := by
  induction rows generalizing i recallVec total with
  | nil =>
    intro hi hle
    rw [List.length_nil] at hle
    omega
  | cons p rows ih =>
    intro hi hle
    obtain ⟨hp, hrest⟩ := List.forall_mem_cons.mp hrows
    rw [List.length_cons] at hle
    rw [summarizeLoop, recallRow_eq hp]
    show (nextIndex i).bind _ = _
    rcases Nat.lt_or_ge (i + 1) (2 ^ 31) with hmore | hlast
    · rw [nextIndex_of_lt hmore]
      exact ih hrest (i + 1) _ _ hmore (by omega)
    · rw [nextIndex_of_le hlast]
      rfl

end Loop

theorem toNat_place {n d : Nat} (hn : n < 2 ^ 31) (hd : 0 < d) (hd' : d < 2 ^ 31) :
    ((.ofNat n : SizeT) / .ofNat d - 1).toNat = if n < d then 2 ^ 64 - 1 else n / d - 1 := by
  have hn' : n % 2 ^ 64 = n := Nat.mod_eq_of_lt (by omega)
  have hd'' : d % 2 ^ 64 = d := Nat.mod_eq_of_lt (by omega)
  rw [UInt64.toNat_sub, UInt64.toNat_div, UInt64.toNat_ofNat', UInt64.toNat_ofNat', hn', hd'']
  have hle : n / d ≤ n := Nat.div_le_self _ _
  split
  · rw [Nat.div_eq_of_lt ‹_›]
    rfl
  · have hpos : 0 < n / d := Nat.div_pos (by omega) hd
    show (2 ^ 64 - 1 + n / d) % 2 ^ 64 = _
    omega

section Summary

variable {results : List (List SizeT)} {gt : List (List Int32)} {k : Nat}

theorem length_queryRecalls (h : Accepts results gt k) :
    (queryRecalls results gt k).length = results.length := by
  rw [queryRecalls, List.length_map, h.length_zip]

/-- The recall of one query is that of the query alone. -/
theorem mem_queryRecalls (h : Accepts results gt k) {x : ℚ} :
    x ∈ queryRecalls results gt k ↔
      ∃ row gtRow, (row, gtRow) ∈ results.zip gt ∧ recallAtK [row] [gtRow] k = .ok x := by
  have hsingle : ∀ row gtRow, (row, gtRow) ∈ results.zip gt →
      recallAtK [row] [gtRow] k = .ok ((hits (truthSet k gtRow) row : ℚ) / k) := by
    intro row gtRow hp
    obtain ⟨hrow, hgt⟩ := h.pairs _ hp
    have hone : Accepts [row] [gtRow] k := ⟨List.cons_ne_nil _ _, rfl, h.k_pos,
      fun row' hrow' => (List.mem_singleton.mp hrow').symm ▸ hrow,
      fun gtRow' hgtRow' => (List.mem_singleton.mp hgtRow').symm ▸ hgt⟩
    rw [recall_eq hone (Nat.one_lt_two_pow (by decide)), mean_map]
    simp
  constructor
  · intro hx
    obtain ⟨⟨row, gtRow⟩, hp, rfl⟩ := List.mem_map.mp hx
    exact ⟨row, gtRow, hp, hsingle row gtRow hp⟩
  · rintro ⟨row, gtRow, hp, hx⟩
    rw [hsingle row gtRow hp] at hx
    exact List.mem_map.mpr ⟨(row, gtRow), hp, Except.ok.inj hx⟩

/-- What the summary reads, while the index is an `int`. -/
theorem recallSummarize_eq (h : Accepts results gt k) (hsize : results.length < 2 ^ 31) :
    recallSummarize results gt k =
      (readAt ((queryRecalls results gt k).insertionSort (· ≤ ·))
        ((.ofNat results.length : SizeT) / 4 - 1)).bind fun p25 =>
      (readAt ((queryRecalls results gt k).insertionSort (· ≤ ·))
        ((.ofNat results.length : SizeT) / 2 - 1)).bind fun p50 =>
      (readAt ((queryRecalls results gt k).insertionSort (· ≤ ·)) 0).bind fun least =>
      .ok [mean (queryRecalls results gt k), p25, p50, least] := by
  have hloop := summarizeLoop_eq h.pairs [] 0 (by
    rw [h.length_zip, List.length_nil, Nat.zero_add]
    exact hsize)
  rw [h.length_zip, List.nil_append, List.nil_append, zero_add] at hloop
  rw [recallSummarize, if_neg h.guard]
  show (summarizeLoop k (results.zip gt) 0 (List.replicate results.length 0) 0).bind _ = _
  rw [show (0 : Nat) = ([] : List ℚ).length from rfl, hloop, mean, length_queryRecalls h]
  rfl

theorem readAt_of_lt {xs : List ℚ} {i : SizeT} (h : i.toNat < xs.length) :
    ∃ x, readAt xs i = .ok x ∧ xs[i.toNat]? = some x := by
  refine ⟨xs[i.toNat], ?_, List.getElem?_eq_getElem h⟩
  rw [readAt, List.getElem?_eq_getElem h]
  rfl

theorem recallSummarize_undefined (h : Accepts results gt k)
    (hfew : results.length < 4 ∨ 2 ^ 31 ≤ results.length) :
    recallSummarize results gt k = .error .undefined := by
  rcases hfew with hfew | hmany
  · have hread : readAt ((queryRecalls results gt k).insertionSort (· ≤ ·))
        ((.ofNat results.length : SizeT) / 4 - 1) = .error .undefined := by
      have hplace := toNat_place (n := results.length) (d := 4) (by omega) (by decide) (by decide)
      rw [if_pos hfew] at hplace
      have hbehind : ((queryRecalls results gt k).insertionSort (· ≤ ·))[
          ((.ofNat results.length : SizeT) / 4 - 1).toNat]? = none := by
        apply List.getElem?_eq_none
        rw [List.length_insertionSort, length_queryRecalls h]
        exact (show results.length ≤ 2 ^ 64 - 1 by omega).trans hplace.ge
      rw [readAt, hbehind]
      rfl
    rw [recallSummarize_eq h (by omega), hread]
    rfl
  · have hloop := summarizeLoop_undefined h.pairs 0 (List.replicate results.length 0) 0 (by omega)
      (by rw [h.length_zip]; omega)
    rw [recallSummarize, if_neg h.guard, hloop]
    rfl

/-- The summary is what it is meant to be exactly for four queries or more, as long as
an `int` can count them. -/
theorem recallSummarize_summarizes_iff (h : Accepts results gt k) :
    Summarizes results gt k ↔ 4 ≤ results.length ∧ results.length < 2 ^ 31 := by
  constructor
  · rintro ⟨average, p25, p50, least, hrun, -⟩
    by_contra hsize
    rw [recallSummarize_undefined h (by omega)] at hrun
    cases hrun
  · rintro ⟨hfour, hsize⟩
    have hlength : ((queryRecalls results gt k).insertionSort (· ≤ ·)).length = results.length := by
      rw [List.length_insertionSort, length_queryRecalls h]
    have hplace4 := toNat_place (n := results.length) (d := 4) hsize (by decide) (by decide)
    have hplace2 := toNat_place (n := results.length) (d := 2) hsize (by decide) (by decide)
    rw [if_neg (by omega)] at hplace4 hplace2
    have hlt25 : ((.ofNat results.length : SizeT) / 4 - 1).toNat <
        ((queryRecalls results gt k).insertionSort (· ≤ ·)).length := by
      rw [hlength]
      exact hplace4.trans_lt (by omega)
    have hlt50 : ((.ofNat results.length : SizeT) / 2 - 1).toNat <
        ((queryRecalls results gt k).insertionSort (· ≤ ·)).length := by
      rw [hlength]
      exact hplace2.trans_lt (by omega)
    have hlt0 : (0 : SizeT).toNat < ((queryRecalls results gt k).insertionSort (· ≤ ·)).length := by
      rw [hlength]
      exact Nat.zero_lt_of_lt hfour
    obtain ⟨p25, hread25, hp25⟩ := readAt_of_lt hlt25
    obtain ⟨p50, hread50, hp50⟩ := readAt_of_lt hlt50
    obtain ⟨least, hread0, hleast⟩ := readAt_of_lt hlt0
    rw [show ((.ofNat results.length : SizeT) / 4 - 1).toNat = _ from hplace4] at hp25
    rw [show ((.ofNat results.length : SizeT) / 2 - 1).toNat = _ from hplace2] at hp50
    have hmean : recallAtK results gt k = .ok (mean (queryRecalls results gt k)) :=
      recall_eq h hsize
    have hcount25 := lt_countP_le hp25
    have hcount50 := lt_countP_le hp50
    refine ⟨_, p25, p50, least, ?_, ⟨?_, ?_⟩, ⟨?_, ?_⟩, ⟨?_, ?_⟩, ⟨?_, ?_⟩, hmean⟩
    · rw [recallSummarize_eq h hsize, hread25, hread50, hread0]
      rfl
    · exact sorted_le_sorted (Nat.zero_le _) hleast hp25
    · exact sorted_le_sorted (by omega) hp25 hp50
    · exact getElem?_sorted_mem hleast
    · exact fun x hx => sorted_zero_le hleast hx
    · exact getElem?_sorted_mem hp25
    · omega
    · exact getElem?_sorted_mem hp50
    · omega

end Summary

/-- Four queries for one neighbour, half of them answered. -/
theorem recallSummarize_summarizes_iff_four :
    Summarizes [[1], [2], [3], [4]] [[1], [0], [3], [0]] 1 ↔
      4 ≤ [[1], [2], [3], [4]].length ∧ [[1], [2], [3], [4]].length < 2 ^ 31 :=
  recallSummarize_summarizes_iff ⟨by decide, by decide, by decide, by decide, by decide⟩

/-- A single query: both percentiles are read at place `2^64 - 1`. -/
theorem recallSummarize_single :
    Accepts [[1]] [[1]] 1 ∧ recallAtK [[1]] [[1]] 1 = .ok 1 ∧
      recallSummarize [[1]] [[1]] 1 = .error .undefined ∧ ¬ Summarizes [[1]] [[1]] 1 := by
  have hrun : recallSummarize [[1]] [[1]] 1 = .error .undefined := by
    decide +kernel
  refine ⟨⟨by decide, by decide, by decide, by decide, by decide⟩, by decide +kernel, hrun, ?_⟩
  rintro ⟨average, p25, p50, least, hok, -⟩
  rw [hrun] at hok
  cases hok

end Spheres.Benchmark
