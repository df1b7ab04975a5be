import Spheres.Library.SizeT

/-!
# The ingest loop

`add_in_batches` reads the base vectors in batches and hands each batch to the
index. What the index makes of them is its own affair: the result of the loop is
the list of the calls of `index.add`. A result `none` means that the loop has not
ended with the fuel that it was given.
-/

namespace Spheres.Benchmark

open Library

variable {F : Type*}

/-- One row of an `.fvecs` file: its dimension, then its coordinates. -/
structure FvecsRow (F : Type*) where
  fileDim : Int32
  data : List F

structure FvecsBatchReader (F : Type*) where
  path : String
  dim : SizeT
  /-- What has not been read yet. -/
  input : List (FvecsRow F)

/-- How a run may end before its end. -/
inductive Stop where
  /-- An operation on `size_t` that wraps around or divides by zero. -/
  | arithmetic
  | exception (what : String)
  deriving DecidableEq

/-- An operation that is watched. -/
def watched {α : Type*} (o : Option α) : Except Stop α := o.elim (.error .arithmetic) .ok

/-- `FvecsBatchReader::read`. -/
def FvecsBatchReader.read : Nat → FvecsBatchReader F → Except Stop (List F × FvecsBatchReader F)
  | 0, reader => .ok ([], reader)
  | n + 1, reader => match reader.input with
    | [] => .error (.exception ("invalid dimension or truncated file: " ++ reader.path))
    | row :: input =>
      if row.fileDim ≠ Int32.ofNat reader.dim.toNat then
        .error (.exception ("invalid dimension or truncated file: " ++ reader.path))
      else if row.data.length < reader.dim.toNat then
        .error (.exception ("truncated vector data: " ++ reader.path))
      else (read n { reader with input }).map fun r => (row.data.take reader.dim.toNat ++ r.1, r.2)

/-- A call `index.add(rows, batch.data())`. -/
structure AddCall (F : Type*) where
  rows : SizeT
  batch : List F

/-- The body of the loop, once there is something left to add. -/
def addBatch (nBaseVectors batchSize added : SizeT) (reader : FvecsBatchReader F) :
    Except Stop (AddCall F × SizeT × FvecsBatchReader F) :=
  (watched (nBaseVectors.sub? added)).bind fun left =>
  let rows := min batchSize left
  (reader.read rows.toNat).bind fun (batch, reader) =>
  (watched (added.add? rows)).map fun added => (⟨rows, batch⟩, added, reader)

/-- The loop of `add_in_batches`. -/
def addLoop (nBaseVectors batchSize : SizeT) :
    Nat → SizeT → FvecsBatchReader F → Option (Except Stop (List (AddCall F)))
  | 0, _, _ => none
  | fuel + 1, added, reader =>
    if added < nBaseVectors then
      match addBatch nBaseVectors batchSize added reader with
      | .error stop => some (.error stop)
      | .ok (call, added, reader) =>
        (addLoop nBaseVectors batchSize fuel added reader).map fun r => r.map (call :: ·)
    else some (.ok [])

/-- `add_in_batches` on the file at `base_vector_path`. -/
def addInBatches (path : String) (dim nBaseVectors batchSize : SizeT) (file : List (FvecsRow F))
    (fuel : Nat) : Option (Except Stop (List (AddCall F))) :=
  addLoop nBaseVectors batchSize fuel 0 ⟨path, dim, file⟩

/-- The rows have the dimension that is asked for. -/
def HaveDim (dim : SizeT) (rows : List (FvecsRow F)) : Prop :=
  ∀ row ∈ rows, row.fileDim.toInt = dim.toNat ∧ row.data.length = dim.toNat

instance (dim : SizeT) (rows : List (FvecsRow F)) : Decidable (HaveDim dim rows) :=
  inferInstanceAs (Decidable (∀ row ∈ rows, _))

/-- The loop ends and hands over `rows`, in this order. -/
def AddsAll (nBaseVectors : SizeT) (rows : List (FvecsRow F))
    (run : Nat → Option (Except Stop (List (AddCall F)))) : Prop :=
  ∃ n calls, (∀ fuel, n ≤ fuel → run fuel = some (.ok calls)) ∧
    (calls.map fun call => call.rows.toNat).sum = nBaseVectors.toNat ∧
    calls.flatMap (·.batch) = rows.flatMap (·.data)

theorem HaveDim.ofNat_eq {dim : SizeT} {rows : List (FvecsRow F)} (h : HaveDim dim rows)
    {row : FvecsRow F} (hrow : row ∈ rows) : row.fileDim = Int32.ofNat dim.toNat := by
  have heq := (h row hrow).1
  have hlt := row.fileDim.toInt_lt
  apply Int32.toInt_inj.mp
  rw [Int32.toInt_ofNat_of_lt (by omega), heq]

/-- A batch is what the next rows hold. -/
theorem FvecsBatchReader.read_eq {n : Nat} {reader : FvecsBatchReader F}
    (hlen : n ≤ reader.input.length) (h : HaveDim reader.dim (reader.input.take n)) :
    reader.read n = .ok ((reader.input.take n).flatMap (·.data),
      { reader with input := reader.input.drop n }) := by
  induction n generalizing reader with
  | zero => rfl
  | succ n ih =>
    obtain ⟨path, dim, input⟩ := reader
    cases input with
    | nil => simp at hlen
    | cons row input =>
      have hrow : row ∈ (row :: input).take (n + 1) := by simp
      have hrest : HaveDim dim (input.take n) := fun r hr => h r (by simp [hr])
      have hdata : row.data.length = dim.toNat := (h row hrow).2
      have hread : read n ⟨path, dim, input⟩ = _ := ih (by simpa using hlen) hrest
      rw [read]
      simp only [h.ofNat_eq hrow, ne_eq, not_true_eq_false, if_false, hdata, lt_irrefl]
      rw [hread]
      simp [Except.map, ← hdata]

/-! ## One batch -/

section Loop

variable {nBaseVectors batchSize added : SizeT} {reader : FvecsBatchReader F}

/-- A batch of `n` rows is handed over and counted. -/
theorem addBatch_eq (hlt : added < nBaseVectors) {n : Nat}
    (hn : n = min batchSize.toNat (nBaseVectors.toNat - added.toNat))
    (hlen : n ≤ reader.input.length) (h : HaveDim reader.dim (reader.input.take n)) :
    ∃ rows added' : SizeT, rows.toNat = n ∧ added'.toNat = added.toNat + n ∧
      addBatch nBaseVectors batchSize added reader =
        .ok (⟨rows, (reader.input.take n).flatMap (·.data)⟩, added',
          { reader with input := reader.input.drop n }) := by
  have hle := (UInt64.lt_iff_toNat_lt.mp hlt).le
  obtain ⟨left, hleft, hvalue⟩ := SizeT.exists_sub hle
  have hrows : (min batchSize left).toNat = n := by
    rw [SizeT.toNat_min, hvalue, hn]
  have hroom : added.toNat + (min batchSize left).toNat < SizeT.size := by
    have := nBaseVectors.toNat_lt_size
    rw [hrows]
    simp only [UInt64.size, SizeT.size] at *
    omega
  obtain ⟨added', hadded, hvalue'⟩ := SizeT.exists_add hroom
  refine ⟨min batchSize left, added', hrows, ?_, ?_⟩
  · rw [hvalue', hrows]
  · simp only [addBatch, watched, hleft, Option.elim_some, Except.bind, hrows]
    rw [FvecsBatchReader.read_eq hlen h]
    simp only [hadded, Option.elim_some, Except.map]

/-! ## The whole loop -/

theorem addLoop_eq (hbatch : batchSize ≠ 0) {n : Nat} (hn : nBaseVectors.toNat - added.toNat = n)
    (hle : added ≤ nBaseVectors) (hlen : n ≤ reader.input.length)
    (h : HaveDim reader.dim (reader.input.take n)) :
    ∃ calls, (∀ fuel, n < fuel → addLoop nBaseVectors batchSize fuel added reader =
        some (.ok calls)) ∧
      (calls.map fun call => call.rows.toNat).sum = n ∧
      calls.flatMap (·.batch) = (reader.input.take n).flatMap (·.data) := by
  induction n using Nat.strong_induction_on generalizing added reader with
  | _ n ih =>
    by_cases hlt : added < nBaseVectors
    · have hpos := UInt64.lt_iff_toNat_lt.mp hlt
      have hsize : batchSize.toNat ≠ 0 := fun h0 => hbatch (SizeT.eq_zero_iff.mpr h0)
      obtain ⟨m, hm⟩ : ∃ m, m = min batchSize.toNat (nBaseVectors.toNat - added.toNat) := ⟨_, rfl⟩
      obtain ⟨rest, rfl⟩ : ∃ rest, n = m + rest := Nat.exists_eq_add_of_le (by omega)
      have htake : reader.input.take (m + rest) =
          reader.input.take m ++ (reader.input.drop m).take rest := List.take_add
      rw [htake] at h
      obtain ⟨rows, added', hrows, hadded, hrun⟩ := addBatch_eq hlt hm (by omega)
        fun r hr => h r (List.mem_append_left _ hr)
      have hrest : rest ≤ ({ reader with input := reader.input.drop m } :
          FvecsBatchReader F).input.length := by
        simp only [List.length_drop]
        omega
      have hleft : nBaseVectors.toNat - added'.toNat = rest := by omega
      obtain ⟨calls, hcalls, hsum, hflat⟩ := ih rest (by omega) hleft
        (UInt64.le_iff_toNat_le.mpr (by omega)) hrest fun r hr => h r (List.mem_append_right _ hr)
      refine ⟨⟨rows, (reader.input.take m).flatMap (·.data)⟩ :: calls, fun fuel hfuel => ?_, ?_, ?_⟩
      · obtain ⟨fuel, rfl⟩ := Nat.exists_eq_add_of_le' (Nat.zero_lt_of_lt hfuel)
        simp only [addLoop, if_pos hlt, hrun, hcalls fuel (by omega), Option.map_some, Except.map]
      · simp only [List.map_cons, List.sum_cons, hrows, hsum]
      · rw [htake, List.flatMap_cons, List.flatMap_append, hflat]
    · have hge := UInt64.lt_iff_toNat_lt.not.mp hlt
      obtain rfl : n = 0 := by omega
      refine ⟨[], fun fuel hfuel => ?_, rfl, rfl⟩
      obtain ⟨fuel, rfl⟩ := Nat.exists_eq_add_of_le' hfuel
      simp only [addLoop, if_neg hlt]

/-- A batch of no rows makes no progress. -/
theorem addLoop_zero (hlt : added < nBaseVectors) (fuel : Nat) :
    addLoop nBaseVectors 0 fuel added reader = none := by
  induction fuel generalizing reader with
  | zero => rfl
  | succ fuel ih =>
    have hrows : 0 = min (0 : SizeT).toNat (nBaseVectors.toNat - added.toNat) :=
      (Nat.zero_min _).symm
    have hnone : HaveDim reader.dim (reader.input.take 0) := by simp [HaveDim]
    obtain ⟨rows, added', -, hadded, hrun⟩ := addBatch_eq hlt hrows (Nat.zero_le _) hnone
    obtain rfl : added' = added := by
      rw [← UInt64.toNat_inj, hadded, Nat.add_zero]
    simp only [addLoop, if_pos hlt, hrun, ih, Option.map_none]

end Loop

/-- The loop hands over the base vectors exactly when batches are not empty. -/
theorem addInBatches_iff {path : String} {dim nBaseVectors batchSize : SizeT}
    {file : List (FvecsRow F)} (hpos : nBaseVectors ≠ 0) (hlen : nBaseVectors.toNat ≤ file.length)
    (h : HaveDim dim (file.take nBaseVectors.toNat)) :
    AddsAll nBaseVectors (file.take nBaseVectors.toNat)
      (addInBatches path dim nBaseVectors batchSize file) ↔ batchSize ≠ 0 := by
  have hlt : 0 < nBaseVectors := by
    rw [UInt64.lt_iff_toNat_lt]
    exact Nat.pos_of_ne_zero fun h0 => hpos (SizeT.eq_zero_iff.mpr h0)
  constructor
  · rintro ⟨n, calls, hrun, -⟩ rfl
    have hsome := hrun n le_rfl
    rw [addInBatches, addLoop_zero hlt] at hsome
    cases hsome
  · intro hbatch
    replace hlen : nBaseVectors.toNat ≤ (⟨path, dim, file⟩ : FvecsBatchReader F).input.length :=
      hlen
    obtain ⟨calls, hrun, hsum, hflat⟩ := addLoop_eq hbatch
      (show nBaseVectors.toNat - (0 : SizeT).toNat = _ from Nat.sub_zero _)
      (UInt64.le_iff_toNat_le.mpr (Nat.zero_le _)) hlen h
    exact ⟨nBaseVectors.toNat + 1, calls, hrun, hsum, hflat⟩

end Spheres.Benchmark
