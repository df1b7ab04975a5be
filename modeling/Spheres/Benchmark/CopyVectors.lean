import Spheres.Benchmark.Fvecs
import Spheres.Benchmark.ParseArgv
import Spheres.Library.BinaryCopy

/-!
# The vectors in a `COPY`

`copy_vectors` writes the base vectors as a binary `COPY` by hand: numbers of three widths
in network order, a tuple for every row, batch by batch. What PostgreSQL makes of the
stream is `tableRows`, its own grammar at the types of the table. The server and `libpq`
are a `Connection`, which may refuse at any point.
-/

namespace Spheres.Benchmark.CopyVectors

open Library
open Library.BigEndian (bytes)
open Fvecs (ReadError File maxOffset)

/-! ## The stream -/

/-- `htons` leaves the bytes in network order. -/
def appendU16 (output : List UInt8) (value : UInt16) : List UInt8 :=
  output ++ bytes 2 value.toNat

def appendU32 (output : List UInt8) (value : UInt32) : List UInt8 :=
  output ++ bytes 4 value.toNat

def appendU64 (output : List UInt8) (value : UInt64) : List UInt8 :=
  appendU32 (appendU32 output (value >>> 32).toUInt32) value.toUInt32

/-- What `libpq` answers during the `COPY`; the answers may depend on what was sent. -/
structure Connection where
  /-- The command is answered by `PGRES_COPY_IN`. -/
  startsCopy : Bool
  /-- `PQputCopyData` returns 1 for a buffer. -/
  accepts : List (List UInt8) → List UInt8 → Bool
  /-- `PQputCopyEnd` returns 1. -/
  endsCopy : List (List UInt8) → Bool
  /-- For every result of `PQgetResult`, whether its status is `PGRES_COMMAND_OK`. -/
  results : List (List UInt8) → List Bool
  errorMessage : List (List UInt8) → String

/-- `PQputCopyData` with the check of its result; `sent` are the buffers so far. -/
def putCopyData (connection : Connection) (data : List UInt8) (nbytes : Int32)
    (sent : List (List UInt8)) : Except ReadError (List (List UInt8)) :=
  let buffer := data.take nbytes.toInt.toNat
  if connection.accepts sent buffer then .ok (sent ++ [buffer])
  else .error (.runtimeError (connection.errorMessage (sent ++ [buffer])))

/-- The first eleven characters of the literal, of which `\377` is one. -/
def signature : List UInt8 := [80, 71, 67, 79, 80, 89, 10, 255, 13, 10, 0]

def header : List UInt8 := appendU32 (appendU32 signature 0) 0

def trailer : List UInt8 := [255, 255]

/-- `reserve` of an empty `std::vector<char>`. -/
def reserve (n : SizeT) : Except ReadError (List UInt8) :=
  if n.toNat ≤ maxOffset then .ok [] else .error .lengthError

def appendColumn (dim : SizeT) (batch : List UInt32) (row column : Nat) (payload : List UInt8) :
    Except ReadError (List UInt8) :=
  (batch[(.ofNat row * dim + .ofNat column : SizeT).toNat]?).elim (.error .undefined)
    fun word => .ok (appendU32 payload word)

/-- The body of the loop over the rows of a batch. -/
def appendRow (dim copied : SizeT) (batch : List UInt32) (row : Nat) (payload : List UInt8) :
    Except ReadError (List UInt8) :=
  let payload := appendU16 payload 2
  let payload := appendU32 payload 8
  let payload := appendU64 payload (copied + .ofNat row)
  let payload := appendU32 payload (4 + dim * 4).toUInt32
  let payload := appendU16 payload dim.toUInt16
  let payload := appendU16 payload 0
  forRange dim.toNat (appendColumn dim batch row) payload

/-- The body of the loop over the batches. -/
def copyBatch (connection : Connection) (dim copied rows : SizeT)
    (s : Fvecs.FvecsBatchReader × List (List UInt8)) :
    Except ReadError (Fvecs.FvecsBatchReader × List (List UInt8)) :=
  (s.1.read rows).bind fun batch =>
  (reserve (rows * (18 + dim * 4))).bind fun payload =>
  (forRange rows.toNat (appendRow dim copied batch.1) payload).bind fun payload =>
  (putCopyData connection payload (.ofNat payload.length) s.2).map fun sent => (batch.2, sent)

def batchRows : SizeT := 1000

/-- The next batch advances the loop. -/
theorem toNat_copied {n copied : SizeT} (h : copied < n) :
    (min batchRows (n - copied)).toNat = min 1000 (n.toNat - copied.toNat) ∧
      (copied + min batchRows (n - copied)).toNat =
        copied.toNat + min 1000 (n.toNat - copied.toNat) := by
  have hlt := UInt64.lt_iff_toNat_lt.mp h
  have hn := n.toNat_lt
  have hrows : (min batchRows (n - copied)).toNat = min 1000 (n.toNat - copied.toNat) := by
    rw [SizeT.toNat_min, UInt64.toNat_sub_of_le _ _ (UInt64.le_iff_toNat_le.mpr hlt.le)]
    rfl
  refine ⟨hrows, ?_⟩
  rw [UInt64.toNat_add, hrows, Nat.mod_eq_of_lt (by omega)]

/-- The loop over the batches; the buffers that were sent. -/
def copyBatches (connection : Connection) (config : BenchmarkConfig) (copied : SizeT)
    (s : Fvecs.FvecsBatchReader × List (List UInt8)) : Except ReadError (List (List UInt8)) :=
  if _ : copied < config.nBaseVectors then
    let rows := min batchRows (config.nBaseVectors - copied)
    (copyBatch connection config.vectorDim copied rows s).bind fun s =>
    copyBatches connection config (copied + rows) s
  else .ok s.2
termination_by config.nBaseVectors.toNat - copied.toNat
decreasing_by
  have hlt := UInt64.lt_iff_toNat_lt.mp ‹copied < config.nBaseVectors›
  rw [(toNat_copied ‹copied < config.nBaseVectors›).2]
  omega

def copyVectors (connection : Connection) (disk : String → Option File)
    (config : BenchmarkConfig) : Except ReadError (List (List UInt8)) :=
  if !connection.startsCopy then .error (.runtimeError (connection.errorMessage []))
  else
    (putCopyData connection header (.ofNat header.length) []).bind fun sent =>
    (Fvecs.FvecsBatchReader.new disk config.baseVectorPath config.vectorDim).bind fun reader =>
    (copyBatches connection config 0 (reader, sent)).bind fun sent =>
    (putCopyData connection trailer 2 sent).bind fun sent =>
    if !connection.endsCopy sent then .error (.runtimeError (connection.errorMessage sent))
    else if !(connection.results sent).all id then
      .error (.runtimeError (connection.errorMessage sent))
    else .ok sent

/-! ## The table -/

/-- The columns `id bigint` and `embedding vector(dim)` of a tuple. -/
def tableRow (dim : Nat) : List BinaryCopy.Field → Option (Int × List UInt32)
  | [some id, some embedding] =>
    (BinaryCopy.bigint id).bind fun id =>
    (BinaryCopy.vector dim embedding).map fun embedding => (id.toInt, embedding)
  | _ => none

/-- What a stream adds to the table. -/
def tableRows (dim : Nat) (stream : List UInt8) : Option (List (Int × List UInt32)) :=
  (BinaryCopy.parse stream).bind fun tuples => tuples.mapM (tableRow dim)

/-- `libpq` and the server do what they are asked for. -/
structure Connection.Succeeds (connection : Connection) : Prop where
  startsCopy : connection.startsCopy = true
  accepts : ∀ sent buffer, connection.accepts sent buffer = true
  endsCopy : ∀ sent, connection.endsCopy sent = true
  results : ∀ sent, (connection.results sent).all id = true

/-- The tuple of a row with its id. -/
def tuple (id : Nat) (row : List UInt32) : List BinaryCopy.Field :=
  [some (bytes 8 id), some (BinaryCopy.emitVector row)]

/-- The tuples of rows whose ids count up. -/
def tuplesFrom (first : Nat) (rows : List (List UInt32)) : List (List BinaryCopy.Field) :=
  (rows.zipIdx first).map fun p => tuple p.2 p.1

theorem tuplesFrom_append (first : Nat) (rows rows' : List (List UInt32)) :
    tuplesFrom first (rows ++ rows') =
      tuplesFrom first rows ++ tuplesFrom (first + rows.length) rows' := by
  rw [tuplesFrom, List.zipIdx_append, List.map_append, tuplesFrom, tuplesFrom]

/-! ## One row -/

theorem appendU64_eq (output : List UInt8) (value : UInt64) :
    appendU64 output value = output ++ bytes 8 value.toNat := by
  have hhigh : (value >>> 32).toUInt32.toNat = value.toNat / 256 ^ 4 % 256 ^ 4 := by
    rw [UInt64.toNat_toUInt32, UInt64.toNat_shiftRight, Nat.shiftRight_eq_div_pow]
    rfl
  have hlow : value.toUInt32.toNat = value.toNat % 256 ^ 4 := UInt64.toNat_toUInt32 value
  rw [appendU64, appendU32, appendU32, hhigh, hlow, BigEndian.bytes_mod, BigEndian.bytes_mod,
    List.append_assoc, ← BigEndian.bytes_add 4 4]

theorem emitTuple_tuple (id : Nat) (row : List UInt32) :
    BinaryCopy.emitTuple (tuple id row) =
      bytes 2 2 ++ (bytes 4 8 ++ (bytes 8 id ++ (bytes 4 (4 + 4 * row.length) ++
        (bytes 2 row.length ++ (bytes 2 0 ++ row.flatMap fun w => bytes 4 w.toNat))))) := by
  have hfields : (tuple id row).flatMap BinaryCopy.emitField =
      BinaryCopy.emitField (some (bytes 8 id)) ++
        BinaryCopy.emitField (some (BinaryCopy.emitVector row)) := by
    rw [tuple, List.flatMap_cons, List.flatMap_singleton]
  rw [BinaryCopy.emitTuple, hfields, BinaryCopy.emitField, BinaryCopy.emitField,
    BigEndian.length_bytes, BinaryCopy.length_emitVector, BinaryCopy.emitVector]
  simp only [List.append_assoc]
  rfl

theorem length_emitTuple (id : Nat) (row : List UInt32) :
    (BinaryCopy.emitTuple (tuple id row)).length = 22 + 4 * row.length := by
  have hvector := BinaryCopy.length_emitVector row
  rw [BinaryCopy.emitVector, List.append_assoc, List.length_append, List.length_append,
    BigEndian.length_bytes, BigEndian.length_bytes] at hvector
  simp only [emitTuple_tuple, List.length_append, BigEndian.length_bytes]
  omega

section Rows

variable {dim copied : SizeT} {rows : List (List UInt32)} {i : Nat}

theorem appendColumn_eq (hdim : dim.toNat ≤ BinaryCopy.vectorMaxDim)
    (hwidth : ∀ row ∈ rows, row.length = dim.toNat) (hrows : rows.length ≤ 1000)
    (hi : i < rows.length) {column : Nat} (hcolumn : column < dim.toNat) (payload : List UInt8) :
    ∃ h : column < rows[i].length, appendColumn dim rows.flatten i column payload =
      .ok (payload ++ bytes 4 rows[i][column].toNat) := by
  have hwidth' : column < rows[i].length := hwidth _ (List.getElem_mem hi) ▸ hcolumn
  have hmax : dim.toNat ≤ 16000 := hdim
  have hproduct : i * dim.toNat ≤ 1000 * 16000 := Nat.mul_le_mul (by omega) hmax
  have hindex : (.ofNat i * dim + .ofNat column : SizeT).toNat = i * dim.toNat + column := by
    rw [UInt64.toNat_add, Fvecs.ofNat_mul (by omega) (by omega), UInt64.toNat_ofNat',
      Nat.mod_eq_of_lt (a := column) (by omega), Nat.mod_eq_of_lt (by omega)]
  have hread : rows.flatten[i * dim.toNat + column]? = some rows[i][column] := by
    rw [Rows.getElem?_flatten_row hwidth i hcolumn, List.getElem?_eq_getElem hi, Option.bind_some,
      List.getElem?_eq_getElem hwidth']
  exact ⟨hwidth', by rw [appendColumn, hindex, hread]; rfl⟩

/-- A row is written as its tuple. -/
theorem appendRow_eq (hdim : dim.toNat ≤ BinaryCopy.vectorMaxDim)
    (hwidth : ∀ row ∈ rows, row.length = dim.toNat) (hrows : rows.length ≤ 1000)
    (hi : i < rows.length) (payload : List UInt8) :
    appendRow dim copied rows.flatten i payload =
      .ok (payload ++ BinaryCopy.emitTuple (tuple (copied + .ofNat i).toNat rows[i])) := by
  have hmax : dim.toNat ≤ 16000 := hdim
  have hrow : rows[i].length = dim.toNat := hwidth _ (List.getElem_mem hi)
  have hlength : (4 + dim * 4).toUInt32.toNat = 4 + 4 * dim.toNat := by
    have hfour : (4 : SizeT).toNat = 4 := rfl
    rw [UInt64.toNat_toUInt32, UInt64.toNat_add, UInt64.toNat_mul, hfour,
      Nat.mod_eq_of_lt (a := dim.toNat * 4) (by omega), Nat.mod_eq_of_lt (a := 4 + _) (by omega),
      Nat.mod_eq_of_lt (by omega), Nat.mul_comm]
  have hdim16 : dim.toUInt16.toNat = dim.toNat := by
    rw [UInt64.toNat_toUInt16, Nat.mod_eq_of_lt (by omega)]
  have hcolumns : ∀ payload, forRange dim.toNat (appendColumn dim rows.flatten i) payload =
      .ok (payload ++ rows[i].flatMap fun w => bytes 4 w.toNat) := by
    intro payload
    have hloop : forRange dim.toNat (appendColumn dim rows.flatten i) payload =
        .ok (payload ++ (rows[i].take dim.toNat).flatMap fun w => bytes 4 w.toNat) := by
      apply forRange_eq fun k => payload ++ (rows[i].take k).flatMap fun w => bytes 4 w.toNat
      · rw [List.take_zero, List.flatMap_nil, List.append_nil]
      · intro column hcolumn
        obtain ⟨hlt, heq⟩ := appendColumn_eq hdim hwidth hrows hi hcolumn
          (payload ++ (rows[i].take column).flatMap fun w => bytes 4 w.toNat)
        rw [heq, List.append_assoc, ← List.take_append_getElem hlt, List.flatMap_append,
          List.flatMap_singleton]
    rwa [List.take_of_length_le hrow.le] at hloop
  rw [appendRow, hcolumns, emitTuple_tuple, hrow]
  simp only [appendU16, appendU32, appendU64_eq, hlength, hdim16, List.append_assoc]
  rfl

/-- A batch is written as its tuples. -/
theorem appendRows_eq (hdim : dim.toNat ≤ BinaryCopy.vectorMaxDim)
    (hwidth : ∀ row ∈ rows, row.length = dim.toNat) (hrows : rows.length ≤ 1000)
    (hroom : copied.toNat + rows.length < 2 ^ 64) :
    forRange rows.length (appendRow dim copied rows.flatten) [] =
      .ok ((tuplesFrom copied.toNat rows).flatMap BinaryCopy.emitTuple) := by
  have hloop : forRange rows.length (appendRow dim copied rows.flatten) [] =
      .ok ((tuplesFrom copied.toNat (rows.take rows.length)).flatMap BinaryCopy.emitTuple) := by
    apply forRange_eq fun k => (tuplesFrom copied.toNat (rows.take k)).flatMap BinaryCopy.emitTuple
    · rfl
    · intro i hi
      have hid : (copied + .ofNat i : SizeT).toNat = copied.toNat + i := by
        rw [UInt64.toNat_add, UInt64.toNat_ofNat', Nat.mod_eq_of_lt (a := i) (by omega),
          Nat.mod_eq_of_lt (by omega)]
      have hfront : (rows.take i).length = i := List.length_take_of_le hi.le
      have hlast : tuplesFrom (copied.toNat + i) [rows[i]] = [tuple (copied.toNat + i) rows[i]] :=
        rfl
      rw [appendRow_eq hdim hwidth hrows hi, hid, ← List.take_append_getElem hi,
        tuplesFrom_append, hfront, hlast, List.flatMap_append, List.flatMap_singleton]
  rwa [List.take_length] at hloop

theorem length_tuplesFrom (first : Nat) (hwidth : ∀ row ∈ rows, row.length = dim.toNat) :
    ((tuplesFrom first rows).flatMap BinaryCopy.emitTuple).length =
      rows.length * (22 + 4 * dim.toNat) := by
  induction rows generalizing first with
  | nil => rw [List.length_nil, Nat.zero_mul]; rfl
  | cons row rows ih =>
    have htuples : tuplesFrom first (row :: rows) =
        tuple first row :: tuplesFrom (first + 1) rows := rfl
    rw [htuples, List.flatMap_cons, List.length_append, length_emitTuple,
      hwidth row List.mem_cons_self, ih _ fun r hr => hwidth r (List.mem_cons_of_mem _ hr),
      List.length_cons, Nat.add_one_mul rows.length, Nat.add_comm]

/-- The length of a batch is an `int`. -/
theorem length_batch_lt (first : Nat) (hdim : dim.toNat ≤ BinaryCopy.vectorMaxDim)
    (hwidth : ∀ row ∈ rows, row.length = dim.toNat) (hrows : rows.length ≤ 1000) :
    ((tuplesFrom first rows).flatMap BinaryCopy.emitTuple).length < 2 ^ 31 := by
  have hmax : dim.toNat ≤ 16000 := hdim
  have hproduct : rows.length * (22 + 4 * dim.toNat) ≤ 1000 * (22 + 4 * 16000) :=
    Nat.mul_le_mul hrows (by omega)
  rw [length_tuplesFrom _ hwidth]
  omega

end Rows

/-! ## The whole stream -/

/-- What is sent, if nothing is refused, is `stream`. -/
structure Sends (connection : Connection) (stream : List UInt8)
    (o : Except ReadError (List (List UInt8))) : Prop where
  stream : ∀ sent, o = .ok sent → sent.flatten = stream
  returns : connection.Succeeds → ∃ sent, o = .ok sent

section Stream

variable {connection : Connection} {config : BenchmarkConfig} {sent : List (List UInt8)}

theorem Sends.bind {front stream : List UInt8} {o : Except ReadError (List (List UInt8))}
    {f : List (List UInt8) → Except ReadError (List (List UInt8))} (h : Sends connection front o)
    (hf : ∀ sent, sent.flatten = front → Sends connection stream (f sent)) :
    Sends connection stream (o.bind f) := by
  rcases ok_or_error o with ⟨e, rfl⟩ | ⟨sent, rfl⟩
  · refine ⟨fun sent hsent => ?_, fun hsucceeds => ?_⟩
    · cases hsent
    · obtain ⟨sent, hsent⟩ := h.returns hsucceeds
      cases hsent
  · exact hf sent (h.stream sent rfl)

theorem sends_putCopyData {data : List UInt8} (hlength : data.length < 2 ^ 31) :
    Sends connection (sent.flatten ++ data)
      (putCopyData connection data (.ofNat data.length) sent) := by
  have hdata : data.take (Int32.ofNat data.length).toInt.toNat = data := by
    rw [(BinaryCopy.int32_ofNat hlength).2.2, List.take_length]
  rw [putCopyData, hdata]
  refine ⟨fun sent' hsent => ?_, fun hsucceeds => ?_⟩
  · split_ifs at hsent
    obtain rfl := Except.ok.inj hsent
    rw [List.flatten_append, List.flatten_singleton]
  · exact ⟨sent ++ [data], if_pos (hsucceeds.accepts sent data)⟩

theorem except_bind_map {ε α β γ : Type} (o : Except ε α) (g : α → β) (f : β → Except ε γ) :
    (o.map g).bind f = o.bind fun a => f (g a) := by
  cases o <;> rfl

/-- The rows of a batch are read, written and put, and the reader is behind them. -/
theorem copyBatch_eq (connection : Connection) (path : String) {dim copied rows : SizeT}
    (hdim : dim.toNat ≤ BinaryCopy.vectorMaxDim) {batch : List (List UInt32)}
    (hwidth : ∀ row ∈ batch, row.length = dim.toNat) (hbatch : rows.toNat = batch.length)
    (hrows : batch.length ≤ 1000) (hroom : copied.toNat + batch.length < 2 ^ 64)
    (rest buffer : List UInt8) (sent : List (List UInt8)) :
    ∃ buffer' : List UInt8, copyBatch connection dim copied rows
        (⟨path, dim, ⟨Fvecs.encode dim.toNat batch ++ rest, true⟩, buffer⟩, sent) =
      (putCopyData connection ((tuplesFrom copied.toNat batch).flatMap BinaryCopy.emitTuple)
        (.ofNat ((tuplesFrom copied.toNat batch).flatMap BinaryCopy.emitTuple).length) sent).map
          fun sent => (⟨path, dim, ⟨rest, true⟩, buffer'⟩, sent) := by
  have hmax : dim.toNat ≤ 16000 := hdim
  have hsize : rows.toNat * dim.toNat ≤ 1000 * 16000 := Nat.mul_le_mul (by omega) hmax
  have hreserve : (rows * (18 + dim * 4)).toNat ≤ maxOffset := by
    have heighteen : (18 : SizeT).toNat = 18 := rfl
    have hfour : (4 : SizeT).toNat = 4 := rfl
    have hproduct : rows.toNat * (18 + dim.toNat * 4) ≤ 1000 * (18 + 16000 * 4) :=
      Nat.mul_le_mul (by omega) (by omega)
    rw [UInt64.toNat_mul, UInt64.toNat_add, UInt64.toNat_mul, heighteen, hfour,
      Nat.mod_eq_of_lt (a := dim.toNat * 4) (by omega),
      Nat.mod_eq_of_lt (a := 18 + dim.toNat * 4) (by omega), Nat.mod_eq_of_lt (by omega), maxOffset]
    omega
  have hread : 4 * (rows.toNat * dim.toNat) ≤ maxOffset := by
    unfold maxOffset
    omega
  obtain ⟨ps, hparse, hps⟩ := Fvecs.parseMany_encode_append path hwidth rest
  rw [← hbatch] at hparse
  have hwords : LittleEndian.words (ps.flatMap Fvecs.Payload.bytes) = batch.flatten := by
    rw [Fvecs.Payload.words_flatMap, hps]
  refine ⟨ps.flatMap Fvecs.Payload.bytes, ?_⟩
  rw [copyBatch, Fvecs.read_eq (by omega) (by omega) hread, hparse]
  simp only [Except.map, Except.bind, hwords]
  rw [reserve, if_pos hreserve]
  simp only
  rw [hbatch, appendRows_eq hdim hwidth hrows hroom]

theorem copyBatches_sends (hdim : config.vectorDim.toNat ≤ BinaryCopy.vectorMaxDim)
    {path : String} {pending : List (List UInt32)}
    (hwidth : ∀ row ∈ pending, row.length = config.vectorDim.toNat) {copied : SizeT}
    (hcount : copied.toNat + pending.length = config.nBaseVectors.toNat)
    (rest buffer : List UInt8) (sent : List (List UInt8)) :
    Sends connection
      (sent.flatten ++ (tuplesFrom copied.toNat pending).flatMap BinaryCopy.emitTuple)
      (copyBatches connection config copied
        (⟨path, config.vectorDim, ⟨Fvecs.encode config.vectorDim.toNat pending ++ rest, true⟩,
          buffer⟩, sent)) := by
  induction hn : pending.length using Nat.strong_induction_on
    generalizing pending copied buffer sent with
  | _ n ih =>
    subst hn
    have hsize := config.nBaseVectors.toNat_lt
    by_cases hlt : copied < config.nBaseVectors
    · have hmore := UInt64.lt_iff_toNat_lt.mp hlt
      obtain ⟨hrows, hnext⟩ := toNat_copied hlt
      obtain ⟨m, hm⟩ : ∃ m, m = min 1000 (config.nBaseVectors.toNat - copied.toNat) := ⟨_, rfl⟩
      rw [← hm] at hrows hnext
      obtain ⟨batch, left, rfl, hbatch⟩ : ∃ batch left, pending = batch ++ left ∧
          batch.length = m :=
        ⟨pending.take m, pending.drop m, (List.take_append_drop m pending).symm,
          List.length_take_of_le (by omega)⟩
      rw [List.length_append] at hcount
      have hbatchWidth : ∀ row ∈ batch, row.length = config.vectorDim.toNat :=
        fun r hr => hwidth r (List.mem_append_left _ hr)
      have hroom : copied.toNat + batch.length < 2 ^ 64 := by omega
      obtain ⟨buffer', hcopy⟩ := copyBatch_eq connection path hdim hbatchWidth
        (hrows.trans hbatch.symm) (by omega) hroom
        (Fvecs.encode config.vectorDim.toNat left ++ rest) buffer sent
      rw [copyBatches, dif_pos hlt, Fvecs.encode_append, tuplesFrom_append, List.flatMap_append,
        hbatch, List.append_assoc, ← List.append_assoc sent.flatten]
      simp only [hcopy]
      rw [except_bind_map]
      apply (sends_putCopyData (length_batch_lt _ hdim hbatchWidth (by omega))).bind
      intro sent' hsent
      have hleft : ∀ row ∈ left, row.length = config.vectorDim.toNat :=
        fun r hr => hwidth r (List.mem_append_right _ hr)
      have hshorter : left.length < (batch ++ left).length := by
        rw [List.length_append]
        omega
      rw [← hsent, ← hnext]
      exact ih left.length hshorter hleft (by omega) buffer' sent' rfl
    · have hle := UInt64.lt_iff_toNat_lt.not.mp hlt
      obtain rfl : pending = [] := List.length_eq_zero_iff.mp (by omega)
      rw [copyBatches, dif_neg hlt]
      refine ⟨fun sent' hsent => ?_, fun _ => ⟨sent, rfl⟩⟩
      obtain rfl := Except.ok.inj hsent
      exact (List.append_nil _).symm

/-- The whole of what is sent. -/
theorem copyVectors_sends {disk : String → Option File} {file : File}
    (hdim : config.vectorDim.toNat ≤ BinaryCopy.vectorMaxDim)
    (hfile : disk config.baseVectorPath = some file) {matrix : List (List UInt32)}
    (hlength : matrix.length = config.nBaseVectors.toNat)
    (hwidth : ∀ row ∈ matrix, row.length = config.vectorDim.toNat)
    (hencode : Fvecs.encode config.vectorDim.toNat matrix <+: file.bytes) :
    Sends connection (BinaryCopy.emit (tuplesFrom 0 matrix))
      (copyVectors connection disk config) := by
  obtain ⟨rest, hbytes⟩ := hencode
  have hreader : Fvecs.FvecsBatchReader.new disk config.baseVectorPath config.vectorDim =
      .ok ⟨config.baseVectorPath, config.vectorDim,
        ⟨Fvecs.encode config.vectorDim.toNat matrix ++ rest, true⟩, []⟩ := by
    rw [Fvecs.FvecsBatchReader.new, Fvecs.openFile_eq hfile, hbytes]
    rfl
  have hheader : header = BinaryCopy.emitHeader := rfl
  have htrailer : trailer = BinaryCopy.emitTrailer := rfl
  by_cases hstarts : connection.startsCopy = true
  · rw [copyVectors, hstarts, BinaryCopy.emit, hreader]
    apply (sends_putCopyData (by decide)).bind
    intro sent₁ hsent₁
    apply (copyBatches_sends hdim hwidth (by rw [hlength]; exact Nat.zero_add _) rest [] sent₁).bind
    intro sent₂ hsent₂
    apply (sends_putCopyData (by decide)).bind
    intro sent hsent
    rw [hsent₂, hsent₁, List.flatten_nil, List.nil_append, hheader, htrailer] at hsent
    refine ⟨fun sent' hsent' => ?_, fun hsucceeds => ?_⟩
    · split_ifs at hsent'
      obtain rfl := Except.ok.inj hsent'
      exact hsent
    · rw [hsucceeds.endsCopy, hsucceeds.results]
      exact ⟨sent, rfl⟩
  · rw [copyVectors, Bool.eq_false_of_not_eq_true hstarts]
    refine ⟨fun sent hsent => ?_, fun hsucceeds => absurd hsucceeds.startsCopy hstarts⟩
    cases hsent

end Stream

/-! ## What the server reads -/

section Decoding

variable {dim first : Nat} {row : List UInt32} {rows : List (List UInt32)}

theorem tableRow_tuple (hdim : 1 ≤ dim ∧ dim ≤ BinaryCopy.vectorMaxDim) (hrow : row.length = dim)
    (hid : first < 2 ^ 63) : tableRow dim (tuple first row) = some ((first : Int), row) := by
  subst hrow
  rw [tuple, tableRow, BinaryCopy.bigint_bytes (by omega), Option.bind_some,
    BinaryCopy.vector_emitVector hdim.1 hdim.2, Option.map_some, Int64.toInt_ofNat_of_lt hid]

theorem mapM_tableRow (hdim : 1 ≤ dim ∧ dim ≤ BinaryCopy.vectorMaxDim)
    (hwidth : ∀ row ∈ rows, row.length = dim) (hids : first + rows.length ≤ 2 ^ 63) :
    (tuplesFrom first rows).mapM (tableRow dim) =
      some ((rows.zipIdx first).map fun p => ((p.2 : Int), p.1)) := by
  induction rows generalizing first with
  | nil => rfl
  | cons row rows ih =>
    have htuples : tuplesFrom first (row :: rows) =
        tuple first row :: tuplesFrom (first + 1) rows := rfl
    rw [List.length_cons] at hids
    rw [htuples, List.mapM_cons, tableRow_tuple hdim (hwidth row List.mem_cons_self) (by omega),
      ih (fun r hr => hwidth r (List.mem_cons_of_mem _ hr)) (by omega)]
    rfl

theorem fits_tuple (hdim : dim ≤ BinaryCopy.vectorMaxDim) (hrow : row.length = dim) :
    BinaryCopy.Fits (tuple first row) := by
  unfold BinaryCopy.vectorMaxDim at hdim
  have hfields : (tuple first row).length = 2 := rfl
  refine ⟨by rw [hfields]; decide, fun bs hbs => ?_⟩
  simp only [tuple, List.mem_cons, Option.some.injEq, List.not_mem_nil, or_false] at hbs
  rcases hbs with rfl | rfl
  · rw [BigEndian.length_bytes]
    decide
  · rw [BinaryCopy.length_emitVector]
    omega

/-- The server reads the stream of a matrix as its rows with their indices. -/
theorem tableRows_emit (hdim : 1 ≤ dim ∧ dim ≤ BinaryCopy.vectorMaxDim)
    (hwidth : ∀ row ∈ rows, row.length = dim) (hids : rows.length ≤ 2 ^ 63) :
    tableRows dim (BinaryCopy.emit (tuplesFrom 0 rows)) =
      some (rows.zipIdx.map fun p => ((p.2 : Int), p.1)) := by
  have hfits : ∀ t ∈ tuplesFrom 0 rows, BinaryCopy.Fits t := by
    intro t ht
    obtain ⟨p, hp, rfl⟩ := List.mem_map.mp ht
    exact fits_tuple hdim.2 (hwidth p.1 (List.fst_mem_of_mem_zipIdx hp))
  rw [tableRows, BinaryCopy.parse_emit hfits, Option.bind_some,
    mapM_tableRow hdim hwidth (by omega)]

end Decoding

/-- A copy that comes to its end has sent the rows of the file with their indices, and it
does come to its end where nothing is refused. -/
theorem copyVectors_tableRows {connection : Connection} {disk : String → Option File}
    {config : BenchmarkConfig} {file : File} {matrix : List (List UInt32)}
    (hdim : 1 ≤ config.vectorDim.toNat ∧ config.vectorDim.toNat ≤ BinaryCopy.vectorMaxDim)
    (hfile : disk config.baseVectorPath = some file)
    (hlength : matrix.length = config.nBaseVectors.toNat)
    (hwidth : ∀ row ∈ matrix, row.length = config.vectorDim.toNat)
    (hencode : Fvecs.encode config.vectorDim.toNat matrix <+: file.bytes) :
    (∀ sent, copyVectors connection disk config = .ok sent →
      tableRows config.vectorDim.toNat sent.flatten =
        some (matrix.zipIdx.map fun p => ((p.2 : Int), p.1))) ∧
      (connection.Succeeds → ∃ sent, copyVectors connection disk config = .ok sent) := by
  have hsends : Sends connection (BinaryCopy.emit (tuplesFrom 0 matrix))
      (copyVectors connection disk config) :=
    copyVectors_sends hdim.2 hfile hlength hwidth hencode
  refine ⟨fun sent hsent => ?_, hsends.returns⟩
  obtain ⟨r, hparse, -⟩ := Fvecs.parseMany_encode config.baseVectorPath hwidth hencode
  have hsize := Fvecs.size_of_parseMany hparse
  have hids : matrix.length ≤ 2 ^ 63 := by
    have hle : matrix.length ≤ matrix.length * config.vectorDim.toNat :=
      Nat.le_mul_of_pos_right _ hdim.1
    unfold maxOffset at hsize
    omega
  rw [hsends.stream sent hsent, tableRows_emit hdim hwidth hids]

/-- A server that accepts everything. -/
def willing : Connection where
  startsCopy := true
  accepts _ _ := true
  endsCopy _ := true
  results _ := [true]
  errorMessage _ := ""

theorem copyVectors_tableRows_single :
    ∃ sent, copyVectors willing (fun _ => some ⟨[1, 0, 0, 0, 5, 0, 0, 0], by decide⟩)
        { vectorDim := 1, nBaseVectors := 1 } = .ok sent ∧
      tableRows 1 sent.flatten = some [(0, [5])] := by
  obtain ⟨hdecodes, hreturns⟩ := @copyVectors_tableRows willing
    (fun _ => some ⟨[1, 0, 0, 0, 5, 0, 0, 0], by decide⟩) { vectorDim := 1, nBaseVectors := 1 } _
    [[5]] ⟨by decide, by decide⟩ rfl rfl (by decide) ⟨[], by decide⟩
  obtain ⟨sent, hsent⟩ := hreturns ⟨rfl, fun _ _ => rfl, fun _ => rfl, fun _ => rfl⟩
  exact ⟨sent, hsent, hdecodes sent hsent⟩

end Spheres.Benchmark.CopyVectors
