import Mathlib.Algebra.BigOperators.Group.List.Basic
import Mathlib.Data.UInt
import Spheres.Benchmark.Recall
import Spheres.Library.Exchange
import Spheres.Library.ForRange

/-!
# The distance of the results

`avg_squared_l2_distance` compares the average distance of the returned vectors with
that of the true neighbours. Its checks cover every read, with one gap: the number of
query elements is compared with a product of two sizes that may wrap around, and
then the loop can run over the end of the queries. Numbers are exact here.
-/

namespace Spheres.Benchmark

open Library

variable {K : Type*} [Field K] [LinearOrder K]

/-- `squared_l2_distance`. -/
def squaredL2Distance (x y : List K) : K :=
  max 0 (List.zipWith (fun ix iy => (ix - iy) * (ix - iy)) x y).sum

/-- An element that is read. -/
def readElem {α : Type*} (xs : List α) (i : Nat) : Except Failure α :=
  (xs[i]?).elim (.error .undefined) .ok

/-- A span of elements that are read. -/
def readSpan {α : Type*} (xs : List α) (start len : Nat) : Except Failure (List α) :=
  if start + len ≤ xs.length then .ok ((xs.drop start).take len) else .error .undefined

/-- The arguments of `avg_squared_l2_distance`. -/
structure DistanceInput (K : Type*) where
  query : List K
  base : List K
  dim : SizeT
  results : List (List SizeT)
  gt : List (List Int32)
  k : Nat

namespace DistanceInput

variable (x : DistanceInput K)

omit [Field K] [LinearOrder K] in
/-- The rows of the base vectors. -/
def baseRows : Nat := x.base.length / x.dim.toNat

omit [Field K] [LinearOrder K] in
/-- The rows of results with those of the ground truth. -/
def rows : List (List SizeT × List Int32) := x.results.zip x.gt

/-- The body of the loop over the ids of one query. -/
def addId (q : Nat) (p : List SizeT × List Int32) (i : Nat) (s : K × K) :
    Except Failure (K × K) :=
  (readElem p.1 i).bind fun id =>
  (readElem p.2 i).bind fun t =>
  if x.baseRows ≤ id.toNat ∨ t.toInt < 0 ∨ x.baseRows ≤ t.toInt.toNat then
    .error (.outOfRange "result or ground-truth vector ID is out of range")
  else
    (readSpan x.query (q * x.dim.toNat % SizeT.size) x.dim.toNat).bind fun queryVector =>
    (readSpan x.base (id.toNat * x.dim.toNat) x.dim.toNat).bind fun resultVector =>
    (readSpan x.base (t.toInt.toNat * x.dim.toNat) x.dim.toNat).bind fun truthVector =>
    .ok (s.1 + squaredL2Distance resultVector queryVector,
      s.2 + squaredL2Distance truthVector queryVector)

/-- The body of the loop over the queries. -/
def addRow (q : Nat) (p : List SizeT × List Int32) (r : K × K) : Except Failure (K × K) :=
  if p.1.length < x.k ∨ p.2.length < x.k then
    .error (.invalidArgument "result or ground-truth row contains fewer than k IDs")
  else (forRange x.k (x.addId q p) (0, 0)).map fun s => (r.1 + s.1 / x.k, r.2 + s.2 / x.k)

def addRows : List (List SizeT × List Int32) → Nat → K × K → Except Failure (K × K)
  | [], _, r => .ok r
  | p :: rows, q, r => (x.addRow q p r).bind fun r => addRows rows (q + 1) r

/-- The first check of the arguments. -/
def Inconsistent : Prop :=
  x.results = [] ∨ x.results.length ≠ x.gt.length ∨
    x.query.length ≠ x.results.length * x.dim.toNat % SizeT.size ∨ x.dim = 0 ∨
    x.base.length % x.dim.toNat ≠ 0

omit [Field K] [LinearOrder K] in
instance : Decidable x.Inconsistent := inferInstanceAs (Decidable (_ ∨ _))

def avgSquaredL2Distance : Except Failure (K × K) :=
  if x.Inconsistent then
    .error (.invalidArgument "inconsistent inputs for average squared L2 distance")
  else (x.addRows x.rows 0 (0, 0)).map fun r =>
    (r.1 / x.results.length, r.2 / x.results.length)

/-! ## What is claimed -/

/-- An exception is thrown. -/
def Throws {α : Type*} (o : Except Failure α) : Prop :=
  ∃ what, o = .error (.invalidArgument what) ∨ o = .error (.outOfRange what)

/-- An id of a row of results, and one of the ground truth, of a base row. -/
def IdPasses (id : SizeT) : Prop := id.toNat < x.baseRows

def TruthPasses (t : Int32) : Prop := 0 ≤ t.toInt ∧ t.toInt.toNat < x.baseRows

/-- The first `m` ids of both rows exist and are ids of base rows. -/
structure Passes (m : Nat) (p : List SizeT × List Int32) : Prop where
  row : x.k ≤ p.1.length
  gtRow : x.k ≤ p.2.length
  ids : ∀ id ∈ p.1.take m, x.IdPasses id
  truths : ∀ t ∈ p.2.take m, x.TruthPasses t

/-- Row counts and sizes agree, and the rows have `k` ids of base rows. -/
structure WellShaped : Prop where
  rowCount : x.results.length = x.gt.length
  query : x.query.length = x.results.length * x.dim.toNat
  base : x.dim.toNat ∣ x.base.length
  rows : ∀ p ∈ x.rows, x.Passes x.k p

/-- The distance of a base row to a query. -/
def distanceTo (q id : Nat) : K :=
  squaredL2Distance ((x.base.drop (id * x.dim.toNat)).take x.dim.toNat)
    ((x.query.drop (q * x.dim.toNat)).take x.dim.toNat)

/-- The distances of the first `k` results of a query. -/
def resultDistances (q : Nat) (p : List SizeT × List Int32) : List K :=
  (p.1.take x.k).map fun id => x.distanceTo q id.toNat

def truthDistances (q : Nat) (p : List SizeT × List Int32) : List K :=
  (p.2.take x.k).map fun t => x.distanceTo q t.toInt.toNat

/-- The first `k` true ids are `k` base rows, and no other base row is nearer. -/
structure Nearest (q : Nat) (gtRow : List Int32) : Prop where
  distinct : (gtRow.take x.k).Nodup
  least : ∀ t ∈ gtRow.take x.k, ∀ id < x.baseRows,
    (∀ t' ∈ gtRow.take x.k, t'.toInt.toNat ≠ id) → x.distanceTo q t.toInt.toNat ≤ x.distanceTo q id

/-- The average of the results is bounded by that of the ground truth, and what is ill
shaped is rejected. -/
structure QualityBounded : Prop where
  bounded : ∀ r, x.avgSquaredL2Distance = .ok r →
    (∀ q p, x.rows[q]? = some p → (p.1.take x.k).Nodup ∧ x.Nearest q p.2) →
    r.2 ≤ r.1 ∧ (r.1 = r.2 ↔ ∀ q p, x.rows[q]? = some p →
      (x.resultDistances q p : Multiset K) = x.truthDistances q p)
  rejects : ¬ x.WellShaped → Throws x.avgSquaredL2Distance

/-- The product of the sizes has wrapped around to the number of query elements, and
the checks let the loop come to the first query that is not there. -/
structure Overruns : Prop where
  consistent : ¬ x.Inconsistent
  wrapped : x.query.length < x.results.length * x.dim.toNat
  before : ∀ p ∈ x.rows.take (x.query.length / x.dim.toNat), x.Passes x.k p
  first : ∀ p, x.rows[x.query.length / x.dim.toNat]? = some p → x.Passes 1 p

/-! ## One row -/

section Row

variable {x} {q m : Nat} {p : List SizeT × List Int32}

theorem mul_add_le_of_lt {i d n : Nat} (hi : i < n / d) : i * d + d ≤ n := by
  calc i * d + d = (i + 1) * d := by rw [Nat.succ_mul]
    _ ≤ n / d * d := Nat.mul_le_mul_right _ hi
    _ ≤ n := Nat.div_mul_le_self _ _

omit [Field K] [LinearOrder K] in
/-- The ids at a position that the checks let pass. -/
theorem Passes.exists_ids {i : Nat} (h : x.Passes m p) (hi : i < m) (hik : i < x.k) :
    ∃ id t, p.1[i]? = some id ∧ p.2[i]? = some t ∧ x.IdPasses id ∧ x.TruthPasses t := by
  have hrow : i < p.1.length := hik.trans_le h.row
  have hgt : i < p.2.length := hik.trans_le h.gtRow
  refine ⟨p.1[i], p.2[i], List.getElem?_eq_getElem hrow, List.getElem?_eq_getElem hgt,
    h.ids _ ?_, h.truths _ ?_⟩
  · exact List.mem_take_iff_getElem.mpr ⟨i, by omega, rfl⟩
  · exact List.mem_take_iff_getElem.mpr ⟨i, by omega, rfl⟩

omit [Field K] [LinearOrder K] in
/-- One more position that passes. -/
theorem Passes.succ {i : Nat} (h : x.Passes i p) {id : SizeT} {t : Int32}
    (hid : p.1[i]? = some id) (ht : p.2[i]? = some t) (hpass : x.IdPasses id)
    (htpass : x.TruthPasses t) : x.Passes (i + 1) p := by
  refine ⟨h.row, h.gtRow, fun id' hmem => ?_, fun t' hmem => ?_⟩
  · rw [List.take_add_one, hid, Option.toList_some] at hmem
    rcases List.mem_append.mp hmem with hmem | hmem
    · exact h.ids id' hmem
    · exact (List.mem_singleton.mp hmem) ▸ hpass
  · rw [List.take_add_one, ht, Option.toList_some] at hmem
    rcases List.mem_append.mp hmem with hmem | hmem
    · exact h.truths t' hmem
    · exact (List.mem_singleton.mp hmem) ▸ htpass

omit [Field K] [LinearOrder K] in
theorem passes_zero (hrow : x.k ≤ p.1.length) (hgt : x.k ≤ p.2.length) : x.Passes 0 p :=
  ⟨hrow, hgt, by simp, by simp⟩

omit [Field K] [LinearOrder K] in
theorem not_guard_of_passes {id : SizeT} {t : Int32} (hid : x.IdPasses id) (ht : x.TruthPasses t) :
    ¬ (x.baseRows ≤ id.toNat ∨ t.toInt < 0 ∨ x.baseRows ≤ t.toInt.toNat) := by
  rintro (h | h | h)
  · exact absurd hid (Nat.not_lt_of_le h)
  · exact absurd ht.1 (not_le_of_gt h)
  · exact absurd ht.2 (Nat.not_lt_of_le h)

omit [Field K] [LinearOrder K] in
theorem readElem_of_some {α : Type*} {xs : List α} {i : Nat} {a : α} (h : xs[i]? = some a) :
    readElem xs i = .ok a := by
  rw [readElem, h]
  rfl

/-- A position that passes, when the query is there. -/
theorem addId_ok {i : Nat} {id : SizeT} {t : Int32} (hid : p.1[i]? = some id)
    (ht : p.2[i]? = some t) (hpass : x.IdPasses id) (htpass : x.TruthPasses t)
    (hq : q * x.dim.toNat < SizeT.size) (hquery : q * x.dim.toNat + x.dim.toNat ≤ x.query.length)
    (s : K × K) :
    x.addId q p i s =
      .ok (s.1 + x.distanceTo q id.toNat, s.2 + x.distanceTo q t.toInt.toNat) := by
  have hbase : ∀ j < x.baseRows, readSpan x.base (j * x.dim.toNat) x.dim.toNat =
      .ok ((x.base.drop (j * x.dim.toNat)).take x.dim.toNat) := by
    intro j hj
    rw [readSpan, if_pos (mul_add_le_of_lt hj)]
  have hspan : readSpan x.query (q * x.dim.toNat % SizeT.size) x.dim.toNat =
      .ok ((x.query.drop (q * x.dim.toNat)).take x.dim.toNat) := by
    rw [Nat.mod_eq_of_lt hq, readSpan, if_pos hquery]
  rw [addId, readElem_of_some hid, readElem_of_some ht]
  show (if _ then _ else _) = _
  rw [if_neg (not_guard_of_passes hpass htpass), hspan, hbase _ hpass, hbase _ htpass.2]
  rfl

/-- A position that does not pass. -/
theorem addId_throws {i : Nat} {id : SizeT} {t : Int32} (hid : p.1[i]? = some id)
    (ht : p.2[i]? = some t) (hfails : ¬ (x.IdPasses id ∧ x.TruthPasses t)) (s : K × K) :
    x.addId q p i s =
      .error (.outOfRange "result or ground-truth vector ID is out of range") := by
  have hguard : x.baseRows ≤ id.toNat ∨ t.toInt < 0 ∨ x.baseRows ≤ t.toInt.toNat := by
    by_contra hnot
    obtain ⟨h1, h2⟩ := not_or.mp hnot
    obtain ⟨h2, h3⟩ := not_or.mp h2
    exact hfails ⟨Nat.lt_of_not_le h1, not_lt.mp h2, Nat.lt_of_not_le h3⟩
  rw [addId, readElem_of_some hid, readElem_of_some ht]
  show (if _ then _ else _) = _
  rw [if_pos hguard]

/-- A position that passes, when the query is not there. -/
theorem addId_undefined {i : Nat} {id : SizeT} {t : Int32} (hid : p.1[i]? = some id)
    (ht : p.2[i]? = some t) (hpass : x.IdPasses id) (htpass : x.TruthPasses t)
    (hq : q * x.dim.toNat < SizeT.size) (hquery : x.query.length < q * x.dim.toNat + x.dim.toNat)
    (s : K × K) : x.addId q p i s = .error .undefined := by
  have hspan : readSpan x.query (q * x.dim.toNat % SizeT.size) x.dim.toNat =
      .error .undefined := by
    rw [Nat.mod_eq_of_lt hq, readSpan, if_neg (Nat.not_le_of_lt hquery)]
  rw [addId, readElem_of_some hid, readElem_of_some ht]
  show (if _ then _ else _) = _
  rw [if_neg (not_guard_of_passes hpass htpass), hspan]
  rfl

/-- The sums over the ids that pass. -/
theorem forRange_addId (h : x.Passes m p) (hm : m ≤ x.k) (hq : q * x.dim.toNat < SizeT.size)
    (hquery : q * x.dim.toNat + x.dim.toNat ≤ x.query.length) :
    forRange m (x.addId q p) (0, 0) =
      .ok (((p.1.take m).map fun id => x.distanceTo q id.toNat).sum,
        ((p.2.take m).map fun t => x.distanceTo q t.toInt.toNat).sum) := by
  refine forRange_eq (fun i => (((p.1.take i).map fun id => x.distanceTo q id.toNat).sum,
    ((p.2.take i).map fun t => x.distanceTo q t.toInt.toNat).sum)) rfl fun i hi => ?_
  obtain ⟨id, t, hid, ht, hpass, htpass⟩ := h.exists_ids hi (hi.trans_le hm)
  rw [addId_ok hid ht hpass htpass hq hquery, List.take_add_one, List.take_add_one, hid, ht]
  simp only [Option.toList_some, List.map_append, List.map_cons, List.map_nil, List.sum_append,
    List.sum_cons, List.sum_nil, add_zero]

/-- A row that passes. -/
theorem addRow_ok (h : x.Passes x.k p) (hq : q * x.dim.toNat < SizeT.size)
    (hquery : q * x.dim.toNat + x.dim.toNat ≤ x.query.length) (r : K × K) :
    x.addRow q p r = .ok (r.1 + (x.resultDistances q p).sum / x.k,
      r.2 + (x.truthDistances q p).sum / x.k) := by
  have hlength : ¬ (p.1.length < x.k ∨ p.2.length < x.k) := by
    have hrow := h.row
    have hgt := h.gtRow
    omega
  rw [addRow, if_neg hlength, forRange_addId h le_rfl hq hquery]
  rfl

theorem addRow_short (h : p.1.length < x.k ∨ p.2.length < x.k) (r : K × K) :
    Throws (x.addRow q p r) :=
  ⟨_, Or.inl (by rw [addRow, if_pos h])⟩

/-- A row with an id that does not pass, when the query is there. -/
theorem addRow_throws (h : ¬ x.Passes x.k p) (hq : q * x.dim.toNat < SizeT.size)
    (hquery : q * x.dim.toNat + x.dim.toNat ≤ x.query.length) (r : K × K) :
    Throws (x.addRow q p r) := by
  by_cases hshort : p.1.length < x.k ∨ p.2.length < x.k
  · exact addRow_short hshort r
  have hrow : x.k ≤ p.1.length := by omega
  have hgt : x.k ≤ p.2.length := by omega
  -- the first position that does not pass
  have hfails : ∃ i, ¬ x.Passes i p := ⟨x.k, h⟩
  classical
  have hle : Nat.find hfails ≤ x.k := Nat.find_min' hfails h
  have hfirst := Nat.find_spec hfails
  cases hfind : Nat.find hfails with
  | zero =>
    rw [hfind] at hfirst
    exact absurd (passes_zero hrow hgt) hfirst
  | succ i =>
    rw [hfind] at hfirst hle
    have hpasses : x.Passes i p := not_not.mp (Nat.find_min hfails (by omega))
    obtain ⟨id, hid⟩ : ∃ id, p.1[i]? = some id := ⟨_, List.getElem?_eq_getElem (by omega)⟩
    obtain ⟨t, ht⟩ : ∃ t, p.2[i]? = some t := ⟨_, List.getElem?_eq_getElem (by omega)⟩
    have hnot : ¬ (x.IdPasses id ∧ x.TruthPasses t) :=
      fun hboth => hfirst (hpasses.succ hid ht hboth.1 hboth.2)
    have hrun := forRange_addId hpasses (by omega) hq hquery
    refine ⟨"result or ground-truth vector ID is out of range", Or.inr ?_⟩
    rw [addRow, if_neg hshort, forRange_error_at (by omega) hrun (addId_throws hid ht hnot _)]
    rfl

/-- The row of a query that is not there. -/
theorem addRow_missing (hk : 0 < x.k) (hq : q * x.dim.toNat < SizeT.size)
    (hquery : x.query.length < q * x.dim.toNat + x.dim.toNat) (r : K × K) :
    (x.Passes 1 p → x.addRow q p r = .error .undefined) ∧
      (¬ x.Passes 1 p → Throws (x.addRow q p r)) := by
  constructor
  · intro h
    obtain ⟨id, t, hid, ht, hpass, htpass⟩ := h.exists_ids Nat.one_pos hk
    have hlength : ¬ (p.1.length < x.k ∨ p.2.length < x.k) := by
      have hrow := h.row
      have hgt := h.gtRow
      omega
    rw [addRow, if_neg hlength,
      forRange_error hk (addId_undefined hid ht hpass htpass hq hquery _)]
    rfl
  · intro h
    by_cases hshort : p.1.length < x.k ∨ p.2.length < x.k
    · exact addRow_short hshort r
    obtain ⟨id, hid⟩ : ∃ id, p.1[0]? = some id := ⟨_, List.getElem?_eq_getElem (by omega)⟩
    obtain ⟨t, ht⟩ : ∃ t, p.2[0]? = some t := ⟨_, List.getElem?_eq_getElem (by omega)⟩
    have hnot : ¬ (x.IdPasses id ∧ x.TruthPasses t) :=
      fun hboth => h ((passes_zero (by omega) (by omega)).succ hid ht hboth.1 hboth.2)
    refine ⟨"result or ground-truth vector ID is out of range", Or.inr ?_⟩
    rw [addRow, if_neg hshort, forRange_error hk (addId_throws hid ht hnot _)]
    rfl

end Row

/-! ## All rows -/

section Rows

variable {x} {q : Nat} {rows : List (List SizeT × List Int32)}

theorem addRows_append (rows' : List (List SizeT × List Int32)) (q : Nat) (r : K × K) :
    x.addRows (rows ++ rows') q r =
      (x.addRows rows q r).bind fun r => x.addRows rows' (q + rows.length) r := by
  induction rows generalizing q r with
  | nil => rfl
  | cons p rows ih =>
    rw [List.cons_append, addRows, addRows]
    cases x.addRow q p r with
    | error e => rfl
    | ok r =>
      show x.addRows (rows ++ rows') (q + 1) r = _
      rw [ih, List.length_cons, Nat.add_assoc, Nat.add_comm 1]
      rfl

omit [Field K] [LinearOrder K] in
/-- The queries that are there. -/
theorem query_le {i m : Nat} (hlength : m * x.dim.toNat ≤ x.query.length) (hi : i < m) :
    i * x.dim.toNat + x.dim.toNat ≤ x.query.length := by
  rw [← Nat.succ_mul]
  exact (Nat.mul_le_mul_right _ hi).trans hlength

/-- Rows that pass, for queries that are there. -/
theorem addRows_ok (hsize : x.query.length < SizeT.size) (hdim : 0 < x.dim.toNat)
    (hrows : ∀ p ∈ rows, x.Passes x.k p)
    (hlength : (q + rows.length) * x.dim.toNat ≤ x.query.length) (r : K × K) :
    x.addRows rows q r =
      .ok (r.1 + ((rows.zipIdx q).map fun p => mean (x.resultDistances p.2 p.1)).sum,
        r.2 + ((rows.zipIdx q).map fun p => mean (x.truthDistances p.2 p.1)).sum) := by
  induction rows generalizing q r with
  | nil =>
    rw [addRows, List.zipIdx_nil, List.map_nil, List.map_nil, List.sum_nil, add_zero, add_zero]
  | cons p rows ih =>
    obtain ⟨hp, hrest⟩ := List.forall_mem_cons.mp hrows
    rw [List.length_cons] at hlength
    have hquery := query_le hlength (show q < q + (rows.length + 1) by omega)
    have hmeans : mean (x.resultDistances q p) = (x.resultDistances q p).sum / x.k ∧
        mean (x.truthDistances q p) = (x.truthDistances q p).sum / x.k := by
      rw [mean, mean, resultDistances, truthDistances, List.length_map, List.length_map,
        List.length_take, List.length_take, Nat.min_eq_left hp.row, Nat.min_eq_left hp.gtRow]
      exact ⟨rfl, rfl⟩
    rw [addRows, addRow_ok hp (by omega) hquery]
    show x.addRows rows (q + 1) _ = _
    rw [ih hrest (by rw [Nat.add_right_comm]; exact hlength), List.zipIdx_cons, List.map_cons,
      List.map_cons, List.sum_cons, List.sum_cons, hmeans.1, hmeans.2, add_assoc, add_assoc]

/-- A row that does not pass, for queries that are there. -/
theorem addRows_throws (hsize : x.query.length < SizeT.size) (hdim : 0 < x.dim.toNat)
    (hrows : ¬ ∀ p ∈ rows, x.Passes x.k p)
    (hlength : (q + rows.length) * x.dim.toNat ≤ x.query.length) (r : K × K) :
    Throws (x.addRows rows q r) := by
  induction rows generalizing q r with
  | nil => exact absurd (fun p hp => absurd hp List.not_mem_nil) hrows
  | cons p rows ih =>
    rw [List.length_cons] at hlength
    have hquery := query_le hlength (show q < q + (rows.length + 1) by omega)
    by_cases hp : x.Passes x.k p
    · rw [addRows, addRow_ok hp (by omega) hquery]
      refine ih (fun hall => hrows (List.forall_mem_cons.mpr ⟨hp, hall⟩)) ?_ _
      rw [Nat.add_right_comm]
      exact hlength
    · obtain ⟨what, h | h⟩ := addRow_throws hp (by omega) hquery r
      · exact ⟨what, Or.inl (by rw [addRows, h]; rfl)⟩
      · exact ⟨what, Or.inr (by rw [addRows, h]; rfl)⟩

end Rows

section Claim

variable {x}

theorem Throws.bind {α β : Type*} {o : Except Failure α} (h : Throws o)
    (f : α → Except Failure β) : Throws (o.bind f) := by
  obtain ⟨what, rfl | rfl⟩ := h
  · exact ⟨what, Or.inl rfl⟩
  · exact ⟨what, Or.inr rfl⟩

theorem Throws.map {α β : Type*} {o : Except Failure α} (h : Throws o) (f : α → β) :
    Throws (o.map f) := by
  obtain ⟨what, rfl | rfl⟩ := h
  · exact ⟨what, Or.inl rfl⟩
  · exact ⟨what, Or.inr rfl⟩

theorem Throws.ne_ok {α : Type*} {o : Except Failure α} {a : α} (h : Throws o) : o ≠ .ok a := by
  obtain ⟨what, rfl | rfl⟩ := h <;> simp

theorem Throws.ne_undefined {α : Type*} {o : Except Failure α} (h : Throws o) :
    o ≠ .error .undefined := by
  obtain ⟨what, rfl | rfl⟩ := h <;> simp

/-- What the first check lets pass. -/
structure Consistent (x : DistanceInput K) : Prop where
  results : x.results ≠ []
  gt : x.results.length = x.gt.length
  query : x.query.length = x.results.length * x.dim.toNat % SizeT.size
  dim : 0 < x.dim.toNat
  base : x.dim.toNat ∣ x.base.length

omit [Field K] [LinearOrder K] in
theorem consistent_of_not (h : ¬ x.Inconsistent) : x.Consistent := by
  obtain ⟨hresults, h⟩ := not_or.mp h
  obtain ⟨hgt, h⟩ := not_or.mp h
  obtain ⟨hquery, h⟩ := not_or.mp h
  obtain ⟨hdim, hbase⟩ := not_or.mp h
  refine ⟨hresults, not_not.mp hgt, not_not.mp hquery, ?_, Nat.dvd_of_mod_eq_zero (not_not.mp hbase)⟩
  exact Nat.pos_of_ne_zero fun hzero => hdim (UInt64.toNat_inj.mp hzero)

omit [Field K] [LinearOrder K] in
theorem Consistent.length_rows (h : x.Consistent) : x.rows.length = x.results.length := by
  rw [rows, List.length_zip, ← h.gt, Nat.min_self]

omit [Field K] [LinearOrder K] in
theorem Consistent.lt_size (h : x.Consistent) : x.query.length < SizeT.size := by
  rw [h.query]
  exact Nat.mod_lt _ (by decide)

/-- The averages of rows that pass. -/
theorem avg_ok (hnot : ¬ x.Inconsistent)
    (hlength : x.query.length = x.results.length * x.dim.toNat)
    (hrows : ∀ p ∈ x.rows, x.Passes x.k p) :
    x.avgSquaredL2Distance =
      .ok (mean (x.rows.zipIdx.map fun p => mean (x.resultDistances p.2 p.1)),
        mean (x.rows.zipIdx.map fun p => mean (x.truthDistances p.2 p.1))) := by
  have h := consistent_of_not hnot
  have hloop := addRows_ok (q := 0) h.lt_size h.dim hrows
    (by rw [Nat.zero_add, h.length_rows, hlength]) (0, 0)
  rw [avgSquaredL2Distance, if_neg hnot, hloop, mean_map, mean_map, List.length_zipIdx,
    h.length_rows, zero_add, zero_add]
  rfl

/-- With as many query elements as are needed, a row that does not pass is rejected. -/
theorem avg_throws (hnot : ¬ x.Inconsistent)
    (hlength : x.query.length = x.results.length * x.dim.toNat)
    (hrows : ¬ ∀ p ∈ x.rows, x.Passes x.k p) : Throws x.avgSquaredL2Distance := by
  have h := consistent_of_not hnot
  rw [avgSquaredL2Distance, if_neg hnot]
  exact (addRows_throws h.lt_size h.dim hrows
    (by rw [Nat.zero_add, h.length_rows, hlength]) _).map _

/-- With fewer query elements the loop overruns or an exception is thrown before. -/
theorem avg_wrapped (hk : 0 < x.k) (hnot : ¬ x.Inconsistent)
    (hlength : x.query.length < x.results.length * x.dim.toNat) :
    (x.Overruns → x.avgSquaredL2Distance = .error .undefined) ∧
      (¬ x.Overruns → Throws x.avgSquaredL2Distance) := by
  have h := consistent_of_not hnot
  let last := x.query.length / x.dim.toNat
  have hlast : last < x.rows.length := by
    rw [h.length_rows]
    exact Nat.div_lt_of_lt_mul (by rwa [Nat.mul_comm])
  have hle : last * x.dim.toNat ≤ x.query.length := Nat.div_mul_le_self _ _
  have hgt : x.query.length < last * x.dim.toNat + x.dim.toNat := by
    have hmod := Nat.div_add_mod x.query.length x.dim.toNat
    have hlt := Nat.mod_lt x.query.length h.dim
    rw [Nat.mul_comm] at hmod
    show x.query.length < x.query.length / x.dim.toNat * x.dim.toNat + x.dim.toNat
    omega
  have htake : (x.rows.take last).length = last := by
    rw [List.length_take]
    omega
  have hrange : (0 + (x.rows.take last).length) * x.dim.toNat ≤ x.query.length := by
    rw [Nat.zero_add, htake]
    exact hle
  have hp : x.rows[last]? = some x.rows[last] := List.getElem?_eq_getElem hlast
  have hsplit : x.rows = x.rows.take last ++ x.rows[last] :: x.rows.drop (last + 1) := by
    rw [← List.drop_eq_getElem_cons hlast, List.take_append_drop]
  have hsize := h.lt_size
  have hrun : x.addRows x.rows 0 (0, 0) = (x.addRows (x.rows.take last) 0 (0, 0)).bind
      fun r => x.addRows (x.rows[last] :: x.rows.drop (last + 1)) (0 + last) r := by
    conv_lhs => rw [hsplit, addRows_append, htake]
  rw [avgSquaredL2Distance, if_neg hnot, hrun]
  by_cases hbefore : ∀ p ∈ x.rows.take last, x.Passes x.k p
  · obtain ⟨r, hr⟩ : ∃ r, x.addRows (x.rows.take last) 0 ((0, 0) : K × K) = .ok r :=
      ⟨_, addRows_ok hsize h.dim hbefore hrange _⟩
    obtain ⟨hundefined, hthrows⟩ := addRow_missing (p := x.rows[last]) hk (by omega) hgt r
    rw [hr, Nat.zero_add]
    show (x.Overruns → (x.addRows (x.rows[last] :: x.rows.drop (last + 1)) last r).map _ = _) ∧
      (¬ x.Overruns → Throws ((x.addRows (x.rows[last] :: x.rows.drop (last + 1)) last r).map _))
    rw [addRows]
    constructor
    · intro hover
      rw [hundefined (hover.first _ hp)]
      rfl
    · intro hover
      refine ((hthrows fun hfirst => hover ⟨hnot, hlength, hbefore, ?_⟩).bind _).map _
      intro p hp'
      obtain rfl : x.rows[last] = p := Option.some.inj (hp.symm.trans hp')
      exact hfirst
  · have hthrows := addRows_throws hsize h.dim hbefore hrange ((0, 0) : K × K)
    exact ⟨fun hover => absurd hover.before hbefore, fun _ => (hthrows.bind _).map _⟩

variable [IsStrictOrderedRing K]

/-- One row that passes, with distinct results and true nearest ids. -/
theorem row_bounded (hk : 0 < x.k) {q : Nat} {p : List SizeT × List Int32} (h : x.Passes x.k p)
    (hdistinct : (p.1.take x.k).Nodup) (hnearest : x.Nearest q p.2) :
    mean (x.truthDistances q p) ≤ mean (x.resultDistances q p) ∧
      (mean (x.truthDistances q p) = mean (x.resultDistances q p) ↔
        (x.resultDistances q p : Multiset K) = x.truthDistances q p) := by
  let ids := (p.1.take x.k).map fun id => id.toNat
  let truths := (p.2.take x.k).map fun t => t.toInt.toNat
  have hlength : ids.length = x.k ∧ truths.length = x.k := by
    simp only [ids, truths, List.length_map, List.length_take]
    exact ⟨Nat.min_eq_left h.row, Nat.min_eq_left h.gtRow⟩
  have hids : ids.Nodup := hdistinct.map fun _ _ hid => UInt64.toNat_inj.mp hid
  have htruths : truths.Nodup := by
    refine (List.nodup_map_iff_inj_on hnearest.distinct).mpr fun t ht t' ht' heq => ?_
    have hpos := (h.truths t ht).1
    have hpos' := (h.truths t' ht').1
    exact Int32.toInt_inj.mp (by omega)
  have hcheaper : ∀ t ∈ truths, ∀ s ∈ ids, s ∉ truths → x.distanceTo q t ≤ x.distanceTo q s := by
    intro n hn s hs hsn
    obtain ⟨t, ht, rfl⟩ := List.mem_map.mp hn
    obtain ⟨id, hid, rfl⟩ := List.mem_map.mp hs
    refine hnearest.least t ht _ (h.ids id hid) fun t' ht' heq => hsn ?_
    exact List.mem_map.mpr ⟨t', ht', heq⟩
  obtain ⟨hle, hiff⟩ := sum_map_of_cheaper hids htruths (hlength.1.trans hlength.2.symm) hcheaper
  have hresult : x.resultDistances q p = ids.map (x.distanceTo q) := by
    rw [resultDistances, List.map_map]
    rfl
  have htruth : x.truthDistances q p = truths.map (x.distanceTo q) := by
    rw [truthDistances, List.map_map]
    rfl
  have hpos : (0 : K) < x.k := Nat.cast_pos.mpr hk
  rw [hresult, htruth, mean_map, mean_map, hlength.1, hlength.2]
  refine ⟨div_le_div_of_nonneg_right hle hpos.le, ?_⟩
  rw [div_left_inj' hpos.ne', eq_comm, hiff]

/-- The averages of rows that pass, with distinct results and true nearest ids. -/
theorem averages_bounded (hk : 0 < x.k) (hne : x.rows ≠ [])
    (hrows : ∀ p ∈ x.rows, x.Passes x.k p)
    (hnearest : ∀ q p, x.rows[q]? = some p → (p.1.take x.k).Nodup ∧ x.Nearest q p.2) :
    mean (x.rows.zipIdx.map fun p => mean (x.truthDistances p.2 p.1)) ≤
        mean (x.rows.zipIdx.map fun p => mean (x.resultDistances p.2 p.1)) ∧
      (mean (x.rows.zipIdx.map fun p => mean (x.resultDistances p.2 p.1)) =
          mean (x.rows.zipIdx.map fun p => mean (x.truthDistances p.2 p.1)) ↔
        ∀ q p, x.rows[q]? = some p →
          (x.resultDistances q p : Multiset K) = x.truthDistances q p) := by
  have hpairs : ∀ p ∈ x.rows.zipIdx, mean (x.truthDistances p.2 p.1) ≤
        mean (x.resultDistances p.2 p.1) ∧
      (mean (x.truthDistances p.2 p.1) = mean (x.resultDistances p.2 p.1) ↔
        (x.resultDistances p.2 p.1 : Multiset K) = x.truthDistances p.2 p.1) := by
    rintro ⟨p, q⟩ hp
    have hrow := List.mem_zipIdx_iff_getElem?.mp hp
    obtain ⟨hdistinct, hnear⟩ := hnearest q p hrow
    exact row_bounded hk (hrows p (List.mem_of_getElem? hrow)) hdistinct hnear
  have hindexed : x.rows.zipIdx ≠ [] := by
    apply List.ne_nil_of_length_pos
    rw [List.length_zipIdx]
    exact List.length_pos_iff.mpr hne
  refine ⟨mean_le_mean fun p hp => (hpairs p hp).1, ?_⟩
  rw [eq_comm, mean_eq_iff hindexed fun p hp => (hpairs p hp).1]
  constructor
  · intro hall q p hp
    have hmem : (p, q) ∈ x.rows.zipIdx := List.mem_zipIdx_iff_getElem?.mpr hp
    exact (hpairs (p, q) hmem).2.mp (hall (p, q) hmem)
  · rintro hall ⟨p, q⟩ hmem
    exact (hpairs (p, q) hmem).2.mpr (hall q p (List.mem_zipIdx_iff_getElem?.mp hmem))

/-- The averages are bounded as claimed, and everything ill shaped is rejected, exactly
for the arguments with which the loop does not overrun the queries. -/
theorem qualityBounded_iff (x : DistanceInput K) (hk : 0 < x.k) :
    x.QualityBounded ↔ ¬ x.Overruns := by
  constructor
  · rintro hbounded hover
    have hundefined := (avg_wrapped hk hover.consistent hover.wrapped).1 hover
    have hthrows := hbounded.rejects fun hshape => hover.wrapped.ne hshape.query
    exact hthrows.ne_undefined hundefined
  · intro hover
    by_cases hnot : x.Inconsistent
    · have hthrows : Throws x.avgSquaredL2Distance :=
        ⟨"inconsistent inputs for average squared L2 distance", Or.inl (if_pos hnot)⟩
      exact ⟨fun r hr => absurd hr hthrows.ne_ok, fun _ => hthrows⟩
    have h := consistent_of_not hnot
    rcases (h.query.trans_le (Nat.mod_le _ _)).lt_or_eq with hlt | hlength
    · have hthrows := (avg_wrapped hk hnot hlt).2 hover
      exact ⟨fun r hr => absurd hr hthrows.ne_ok, fun _ => hthrows⟩
    by_cases hrows : ∀ p ∈ x.rows, x.Passes x.k p
    · have hne : x.rows ≠ [] := by
        apply List.ne_nil_of_length_pos
        rw [h.length_rows]
        exact List.length_pos_iff.mpr h.results
      refine ⟨fun r hr hnearest => ?_, fun hshape => ?_⟩
      · rw [avg_ok hnot hlength hrows] at hr
        obtain rfl := Except.ok.inj hr
        exact averages_bounded hk hne hrows hnearest
      · exact absurd ⟨h.gt, hlength, h.base, hrows⟩ hshape
    · have hthrows := avg_throws hnot hlength hrows
      exact ⟨fun r hr => absurd hr hthrows.ne_ok, fun _ => hthrows⟩

end Claim

/-- One query on a line with two base vectors, of which the farther one is returned. -/
def oneMiss : DistanceInput ℚ where
  query := [1]
  base := [0, 3]
  dim := 1
  results := [[1]]
  gt := [[0]]
  k := 1

theorem qualityBounded_iff_oneMiss : oneMiss.QualityBounded ↔ ¬ oneMiss.Overruns :=
  qualityBounded_iff oneMiss (by decide)

/-- As many rows as the product of their number and the dimension needs to wrap around
to zero, one base vector, and no query elements. -/
def manyRows : DistanceInput ℚ where
  query := []
  base := List.replicate (2 ^ 30) 0
  dim := 2 ^ 30
  results := List.replicate (2 ^ 34) [0]
  gt := List.replicate (2 ^ 34) [0]
  k := 1

theorem manyRows_rows : manyRows.rows = List.replicate (2 ^ 34) ([0], [0]) :=
  List.zip_replicate'

theorem manyRows_overruns : manyRows.Overruns := by
  have hdim : manyRows.dim.toNat = 2 ^ 30 := by decide
  have hresults : manyRows.results.length = 2 ^ 34 := List.length_replicate
  have hgt : manyRows.gt.length = 2 ^ 34 := List.length_replicate
  have hbase : manyRows.base.length = 2 ^ 30 := List.length_replicate
  have hquery : manyRows.query.length = 0 := rfl
  refine ⟨?_, ?_, ?_, ?_⟩
  · rintro (hnil | hlength | hsize | hzero | hmod)
    · rw [hnil] at hresults
      exact absurd hresults (by decide)
    · exact hlength (hresults.trans hgt.symm)
    · rw [hquery, hresults, hdim] at hsize
      exact hsize (by decide)
    · exact absurd hzero (by decide)
    · rw [hbase, hdim] at hmod
      exact hmod (by decide)
  · rw [hquery, hresults, hdim]
    decide
  · rw [hquery, Nat.zero_div, List.take_zero]
    exact fun p hp => absurd hp List.not_mem_nil
  · intro p hp
    rw [hquery, Nat.zero_div, manyRows_rows, List.getElem?_replicate, if_pos (by decide)] at hp
    obtain rfl := Option.some.inj hp
    have hrows : manyRows.baseRows = 1 := by
      rw [baseRows, hbase, hdim]
      exact Nat.div_self (by decide)
    refine ⟨le_rfl, le_rfl, fun id hid => ?_, fun t ht => ?_⟩
    · rw [List.mem_singleton.mp hid, IdPasses, hrows]
      decide
    · rw [List.mem_singleton.mp ht, TruthPasses, hrows]
      decide

/-- The check lets the arguments pass, and the first query is read past the end. -/
theorem avgSquaredL2Distance_overruns :
    manyRows.avgSquaredL2Distance = .error .undefined ∧ ¬ manyRows.WellShaped ∧
      ¬ manyRows.QualityBounded := by
  have hover := manyRows_overruns
  have hrun := (avg_wrapped (x := manyRows) (by decide) hover.consistent hover.wrapped).1 hover
  have hshape : ¬ manyRows.WellShaped := fun h => hover.wrapped.ne h.query
  refine ⟨hrun, hshape, fun h => ?_⟩
  obtain ⟨what, hthrows | hthrows⟩ := h.rejects hshape
  · rw [hrun] at hthrows
    cases hthrows
  · rw [hrun] at hthrows
    cases hthrows

end DistanceInput

end Spheres.Benchmark
