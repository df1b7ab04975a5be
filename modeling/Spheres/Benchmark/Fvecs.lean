import Spheres.Benchmark.Recall
import Spheres.Library.LittleEndian
import Spheres.Library.Records
import Spheres.Library.Rows

/-!
# The readers of `.fvecs` files

Three functions read vectors from a file: into one array, into a vector for every row,
and batch by batch into a buffer that is reused. Memory is a list of bytes here and a
stream is what it has not delivered yet. A row of the file is a record of a header and a
payload, and each reader amounts to `parseMany` for these records: the memory it fills is
a function of the records read so far.
-/

namespace Spheres.Benchmark.Fvecs

open Library
open LittleEndian
open Rows (overwrite)

/-! ## Files and streams -/

/-- The largest offset in a file, and size of an object. -/
def maxOffset : Nat := 2 ^ 63 - 1

structure File where
  bytes : List UInt8
  length_le : bytes.length ≤ maxOffset

inductive ReadError where
  | runtimeError (what : String)
  | lengthError
  /-- A write out of range or an `int` that overflows. -/
  | undefined
  deriving DecidableEq

/-- `std::ifstream`: what is left of the file, and whether `failbit` is clear. -/
structure InputStream where
  rest : List UInt8
  good : Bool

/-- `ins.read`: the bytes that are read. There may be too few of them, and then the
stream fails; a stream that has failed delivers nothing. -/
def InputStream.read (count : Nat) (ins : InputStream) : List UInt8 × InputStream :=
  if ins.good then (ins.rest.take count, ⟨ins.rest.drop count, count ≤ ins.rest.length⟩)
  else ([], ins)

def openFile (disk : String → Option File) (path : String) : Except ReadError InputStream :=
  (disk path).elim (.error (.runtimeError ("failed to open " ++ path))) fun file =>
    .ok ⟨file.bytes, true⟩

/-! ## The readers -/

/-- `resize` of a `std::vector<float>`, new elements being zero. -/
def resizeFloats (n : SizeT) (memory : List UInt8) : Except ReadError (List UInt8) :=
  if 4 * n.toNat ≤ maxOffset then
    .ok (memory.take (4 * n.toNat) ++ List.replicate (4 * n.toNat - memory.length) 0)
  else .error .lengthError

/-- `std::vector<float> data(n)`. -/
def newFloats (n : SizeT) : Except ReadError (List UInt8) := resizeFloats n []

/-- `std::vector<std::vector<float>> data(n)`; an empty vector takes 24 bytes. -/
def newVectors (n : SizeT) : Except ReadError (List (List UInt8)) :=
  if 24 * n.toNat ≤ maxOffset then .ok (List.replicate n.toNat []) else .error .lengthError

/-- A round of a loop whose index is an `int`. -/
def intRound {σ : Type} (body : Nat → σ → Except ReadError σ) (i : Nat) (s : σ) :
    Except ReadError σ :=
  (body i s).bind fun s => if i + 1 < 2 ^ 31 then .ok s else .error .undefined

def readHeader (path : String) (dim : SizeT) (ins : InputStream) :
    Except ReadError InputStream :=
  let d := ins.read 4
  if !d.2.good ∨ (word d.1).toInt32 ≠ toInt32 dim then
    .error (.runtimeError ("invalid dimension or truncated file: " ++ path))
  else .ok d.2

def readPayload (path : String) (dim : SizeT) (offset : Nat) (memory : List UInt8)
    (ins : InputStream) : Except ReadError (List UInt8 × InputStream) :=
  let payload := ins.read (dim * 4).toNat
  (overwrite offset payload.1 memory).elim (.error .undefined) fun memory =>
  if !payload.2.good then .error (.runtimeError ("truncated vector data: " ++ path))
  else .ok (memory, payload.2)

/-- What all readers do for a row: read its header and then its payload, to an offset of
the memory. -/
def readRow (path : String) (dim : SizeT) (offset : Nat) (s : List UInt8 × InputStream) :
    Except ReadError (List UInt8 × InputStream) :=
  (readHeader path dim s.2).bind (readPayload path dim offset s.1)

/-- The row of `data` at an index. -/
def readRowAt (path : String) (dim : SizeT) (i : Nat) :
    List UInt8 × InputStream → Except ReadError (List UInt8 × InputStream) :=
  readRow path dim (4 * (.ofNat i * dim : SizeT).toNat)

def readFileAsFlatArray (disk : String → Option File) (path : String) (rows dim : SizeT) :
    Except ReadError (List UInt32) :=
  (newFloats (rows * dim)).bind fun data =>
  (openFile disk path).bind fun ins =>
  (forRange rows.toNat (intRound (readRowAt path dim)) (data, ins)).map fun s => words s.1

/-- The body of the loop of `read_file_as_vectors`. -/
def readVector (path : String) (dim : SizeT) (i : Nat) (s : List (List UInt8) × InputStream) :
    Except ReadError (List (List UInt8) × InputStream) :=
  (newFloats dim).bind fun temp =>
  (readRow path dim 0 (temp, s.2)).bind fun r =>
  if i < s.1.length then .ok (s.1.set i r.1, r.2) else .error .undefined

def readFileAsVectors (disk : String → Option File) (path : String) (rows dim : SizeT) :
    Except ReadError (List (List UInt32)) :=
  (newVectors rows).bind fun data =>
  (openFile disk path).bind fun ins =>
  (forRange rows.toNat (intRound (readVector path dim)) (data, ins)).map fun s => s.1.map words

structure FvecsBatchReader where
  path : String
  dim : SizeT
  input : InputStream
  buffer : List UInt8

namespace FvecsBatchReader

def new (disk : String → Option File) (path : String) (dim : SizeT) :
    Except ReadError FvecsBatchReader :=
  (openFile disk path).map fun input => ⟨path, dim, input, []⟩

/-- The span that is returned, and the reader after the call. -/
def read (requestedRows : SizeT) (reader : FvecsBatchReader) :
    Except ReadError (List UInt32 × FvecsBatchReader) :=
  (resizeFloats (requestedRows * reader.dim) reader.buffer).bind fun buffer =>
  (forRange requestedRows.toNat (readRowAt reader.path reader.dim) (buffer, reader.input)).map
    fun s => (words s.1, { reader with input := s.2, buffer := s.1 })

/-- Successive calls, up to the first one that throws. -/
def readAll : List SizeT → FvecsBatchReader → Except ReadError (List (List UInt32))
  | [], _ => .ok []
  | requestedRows :: batches, reader =>
    (reader.read requestedRows).bind fun r => (readAll batches r.2).map (r.1 :: ·)

end FvecsBatchReader

def readBatches (disk : String → Option File) (path : String) (dim : SizeT)
    (batches : List SizeT) : Except ReadError (List (List UInt32)) :=
  (FvecsBatchReader.new disk path dim).bind (FvecsBatchReader.readAll batches)

/-! ## The format -/

/-- An exception is thrown. -/
def Throws {α : Type*} (o : Except ReadError α) : Prop :=
  ∃ e, o = .error e ∧ e ≠ .undefined

/-- The file starts with records of a header, which is the dimension, and a payload. -/
def StartsWithRecords (rows dim : Nat) (bytes : List UInt8) : Prop :=
  ∃ payloads : List (List UInt8), payloads.length = rows ∧ (∀ p ∈ payloads, p.length = 4 * dim) ∧
    payloads.flatMap (fun p => LittleEndian.bytes 4 dim ++ p) <+: bytes

/-- The `.fvecs` encoding of a matrix. -/
def encode (dim : Nat) (matrix : List (List UInt32)) : List UInt8 :=
  matrix.flatMap fun row => LittleEndian.bytes 4 dim ++ store row

theorem encode_append (dim : Nat) (matrix matrix' : List (List UInt32)) :
    encode dim (matrix ++ matrix') = encode dim matrix ++ encode dim matrix' :=
  List.flatMap_append

/-! ## One record -/

/-- The bytes of a row of `dim` words. -/
structure Payload (dim : Nat) where
  bytes : List UInt8
  length_eq : bytes.length = 4 * dim

namespace Payload

variable {dim : Nat}

theorem length_flatMap (ps : List (Payload dim)) :
    (ps.flatMap Payload.bytes).length = 4 * (ps.length * dim) := by
  induction ps with
  | nil => rw [List.length_nil, Nat.zero_mul, List.flatMap_nil, List.length_nil]
  | cons p ps ih =>
    have hsucc : (ps.length + 1) * dim = ps.length * dim + dim := Nat.succ_mul _ _
    rw [List.flatMap_cons, List.length_append, ih, p.length_eq, List.length_cons, hsucc]
    omega

/-- The words of many payloads are the words of each. -/
theorem words_flatMap (ps : List (Payload dim)) :
    words (ps.flatMap Payload.bytes) = (ps.map fun p => words p.bytes).flatten := by
  induction ps with
  | nil => rfl
  | cons p ps ih =>
    rw [List.flatMap_cons, words_append p.length_eq, ih, List.map_cons, List.flatten_cons]

/-- A record: the header and the payload. -/
def emit (p : Payload dim) : List UInt8 := LittleEndian.bytes 4 dim ++ p.bytes

end Payload

/-- The record at the front of a file. -/
def parseRow (path : String) (dim : SizeT) (l : List UInt8) :
    Except ReadError (Payload dim.toNat × List UInt8) :=
  if l.take 4 ≠ LittleEndian.bytes 4 dim.toNat then
    .error (.runtimeError ("invalid dimension or truncated file: " ++ path))
  else if h : 4 * dim.toNat ≤ (l.drop 4).length then
    .ok (⟨(l.drop 4).take (4 * dim.toNat), List.length_take_of_le h⟩,
      (l.drop 4).drop (4 * dim.toNat))
  else .error (.runtimeError ("truncated vector data: " ++ path))

section Row

variable {path : String} {dim : SizeT} {l : List UInt8}

theorem parseRow_iff (l : List UInt8) (p : Payload dim.toNat) (rest : List UInt8) :
    parseRow path dim l = .ok (p, rest) ↔ l = p.emit ++ rest := by
  constructor
  · intro h
    unfold parseRow at h
    split_ifs at h with hheader hpayload
    obtain ⟨rfl, rfl⟩ := Prod.mk.inj (Except.ok.inj h)
    rw [Payload.emit, ← not_not.mp hheader, List.append_assoc, List.take_append_drop,
      List.take_append_drop]
  · rintro rfl
    have hheader : (p.emit ++ rest).take 4 = LittleEndian.bytes 4 dim.toNat := by
      rw [Payload.emit, List.append_assoc, List.take_left' (length_bytes 4 _)]
    have hdrop : (p.emit ++ rest).drop 4 = p.bytes ++ rest := by
      rw [Payload.emit, List.append_assoc, List.drop_left' (length_bytes 4 _)]
    have hfits : 4 * dim.toNat ≤ ((p.emit ++ rest).drop 4).length := by
      rw [hdrop, List.length_append, p.length_eq]
      exact Nat.le_add_right _ _
    rw [parseRow, if_neg (not_not.mpr hheader), dif_pos hfits]
    simp only [hdrop, List.take_left' p.length_eq, List.drop_left' p.length_eq]

/-- The comparison of the header as an `int` compares its bytes. -/
theorem header_iff {header : List UInt8} (h : header.length = 4) :
    (word header).toInt32 = toInt32 dim ↔ header = LittleEndian.bytes 4 dim.toNat := by
  have hdim : toInt32 dim = (UInt32.ofNat dim.toNat).toInt32 := rfl
  have hinj : (word header).toInt32 = (UInt32.ofNat dim.toNat).toInt32 ↔
      word header = UInt32.ofNat dim.toNat :=
    ⟨fun he => congrArg Int32.toUInt32 he, fun he => congrArg UInt32.toInt32 he⟩
  rw [hdim, hinj, word_eq_iff h, wordBytes_ofNat]

theorem mul_four (hdim : dim.toNat < 2 ^ 31) : (dim * 4).toNat = 4 * dim.toNat := by
  rw [UInt64.toNat_mul, Nat.mod_eq_of_lt (by change dim.toNat * 4 < 2 ^ 64; omega)]
  exact Nat.mul_comm _ _

theorem readHeader_eq : readHeader path dim ⟨l, true⟩ =
    if l.take 4 ≠ LittleEndian.bytes 4 dim.toNat then
      .error (.runtimeError ("invalid dimension or truncated file: " ++ path))
    else .ok ⟨l.drop 4, true⟩ := by
  by_cases hlength : 4 ≤ l.length
  · have hheader : (word (l.take 4)).toInt32 = toInt32 dim ↔
        l.take 4 = LittleEndian.bytes 4 dim.toNat := header_iff (List.length_take_of_le hlength)
    simp only [readHeader, InputStream.read, if_true, hlength, decide_true, Bool.not_true,
      Bool.false_eq_true, false_or, ne_eq, hheader]
  · have hne : l.take 4 ≠ LittleEndian.bytes 4 dim.toNat := by
      intro heq
      have := congrArg List.length heq
      rw [List.length_take, length_bytes] at this
      omega
    rw [if_pos hne]
    simp only [readHeader, InputStream.read, if_true, hlength, decide_false, Bool.not_false,
      true_or]

theorem readPayload_eq (hdim : dim.toNat < 2 ^ 31) {memory : List UInt8} {offset : Nat}
    (hroom : offset + 4 * dim.toNat ≤ memory.length) :
    readPayload path dim offset memory ⟨l, true⟩ =
      if 4 * dim.toNat ≤ l.length then
        .ok (memory.take offset ++ l.take (4 * dim.toNat) ++ memory.drop (offset + 4 * dim.toNat),
          ⟨l.drop (4 * dim.toNat), true⟩)
      else .error (.runtimeError ("truncated vector data: " ++ path)) := by
  have htake : (l.take (4 * dim.toNat)).length ≤ 4 * dim.toNat := List.length_take_le _ _
  simp only [readPayload, InputStream.read, if_true, mul_four hdim]
  rw [overwrite, if_pos (Nat.le_trans (Nat.add_le_add_left htake _) hroom), Option.elim_some]
  by_cases hpayload : 4 * dim.toNat ≤ l.length
  · simp only [hpayload, decide_true, Bool.not_true, Bool.false_eq_true, if_false, if_true,
      List.length_take_of_le hpayload]
  · simp only [hpayload, decide_false, Bool.not_false, if_true, if_false]

/-- A row is read into a place with room for it as a record is parsed, whatever the
errors. -/
theorem readRow_eq (hdim : dim.toNat < 2 ^ 31) {memory : List UInt8} {offset : Nat}
    (hroom : offset + 4 * dim.toNat ≤ memory.length) :
    readRow path dim offset (memory, ⟨l, true⟩) = (parseRow path dim l).map fun r =>
      (memory.take offset ++ r.1.bytes ++ memory.drop (offset + 4 * dim.toNat),
        ⟨r.2, true⟩) := by
  rw [readRow, readHeader_eq, parseRow]
  by_cases hheader : l.take 4 = LittleEndian.bytes 4 dim.toNat
  · rw [if_neg (not_not.mpr hheader), if_neg (not_not.mpr hheader)]
    simp only [Except.bind]
    rw [readPayload_eq hdim hroom]
    by_cases hpayload : 4 * dim.toNat ≤ (l.drop 4).length
    · rw [if_pos hpayload, dif_pos hpayload]
      rfl
    · rw [if_neg hpayload, dif_neg hpayload]
      rfl
  · rw [if_pos hheader, if_pos hheader]
    rfl

theorem parseRow_error {e : ReadError} (h : parseRow path dim l = .error e) :
    e ≠ .undefined := by
  unfold parseRow at h
  split_ifs at h <;> obtain rfl := Except.error.inj h <;> exact ReadError.noConfusion

theorem parseMany_error {n : Nat} {e : ReadError}
    (h : parseMany (parseRow path dim) n l = .error e) : e ≠ .undefined :=
  error_of_parseMany (fun _ _ => parseRow_error) h

end Row

/-! ## The loops -/

section Loops

variable {path : String} {dim : SizeT} {l : List UInt8} {k : Nat} {memory : List UInt8}

/-- What the loop over the rows has made of the memory: the payloads read so far, in
front of what was there. -/
def view (memory : List UInt8) (r : List (Payload dim.toNat) × List UInt8) :
    List UInt8 × InputStream :=
  (r.1.flatMap Payload.bytes ++ memory.drop (4 * (r.1.length * dim.toNat)), ⟨r.2, true⟩)

theorem mul_lt_of_lt (hdim : dim.toNat < 2 ^ 31) (hk : k < 2 ^ 31) : k * dim.toNat < 2 ^ 62 := by
  calc k * dim.toNat ≤ k * 2 ^ 31 := Nat.mul_le_mul_left k hdim.le
    _ < 2 ^ 31 * 2 ^ 31 := Nat.mul_lt_mul_of_pos_right hk (by decide)
    _ = 2 ^ 62 := by decide

theorem ofNat_mul (hdim : dim.toNat < 2 ^ 31) (hk : k < 2 ^ 31) :
    (.ofNat k * dim : SizeT).toNat = k * dim.toNat := by
  have hlt := mul_lt_of_lt hdim hk
  rw [UInt64.toNat_mul, UInt64.toNat_ofNat', Nat.mod_eq_of_lt (a := k) (by omega),
    Nat.mod_eq_of_lt (by omega)]

theorem readRowAt_eq (hdim : dim.toNat < 2 ^ 31) (hk : k < 2 ^ 31)
    (hmemory : memory.length = 4 * (k * dim.toNat)) {i : Nat} (hi : i < k)
    (r : List (Payload dim.toNat) × List UInt8) (hr : r.1.length = i) :
    readRowAt path dim i (view memory r) =
      (parseRow path dim r.2).map fun p => view memory (r.1 ++ [p.1], p.2) := by
  have hfront : (r.1.flatMap Payload.bytes).length = 4 * (i * dim.toNat) := by
    rw [Payload.length_flatMap, hr]
  have hsucc : (i + 1) * dim.toNat = i * dim.toNat + dim.toNat := Nat.succ_mul _ _
  have hnext : 4 * (i * dim.toNat) + 4 * dim.toNat = 4 * ((i + 1) * dim.toNat) := by omega
  have hle : 4 * ((i + 1) * dim.toNat) ≤ memory.length := by
    rw [hmemory]
    exact Nat.mul_le_mul_left 4 (Nat.mul_le_mul_right _ hi)
  have hroom : 4 * (i * dim.toNat) + 4 * dim.toNat ≤
      (r.1.flatMap Payload.bytes ++ memory.drop (4 * (r.1.length * dim.toNat))).length := by
    rw [List.length_append, hfront, List.length_drop, hr]
    omega
  rw [readRowAt, ofNat_mul hdim (by omega), view, readRow_eq hdim hroom]
  congr 1
  funext p
  have htail : (r.1.flatMap Payload.bytes ++ memory.drop (4 * (r.1.length * dim.toNat))).drop
      (4 * (i * dim.toNat) + 4 * dim.toNat) = memory.drop (4 * ((i + 1) * dim.toNat)) := by
    rw [← hfront, List.drop_length_add_append, List.drop_drop, hr, hnext]
  rw [view, List.take_left' hfront, htail, List.flatMap_append, List.flatMap_singleton,
    List.length_append, List.length_singleton, hr]

theorem forRange_readRowAt (hdim : dim.toNat < 2 ^ 31) (hk : k < 2 ^ 31)
    (hmemory : memory.length = 4 * (k * dim.toNat)) :
    forRange k (readRowAt path dim) (memory, ⟨l, true⟩) =
      (parseMany (parseRow path dim) k l).map fun r =>
        (r.1.flatMap Payload.bytes, ⟨r.2, true⟩) := by
  have hstart : view memory (([] : List (Payload dim.toNat)), l) = (memory, ⟨l, true⟩) := by
    rw [view, List.length_nil, Nat.zero_mul, List.drop_zero, List.flatMap_nil, List.nil_append]
  rw [← hstart, forRange_eq_parseMany (view memory) fun i hi r hr =>
    readRowAt_eq hdim hk hmemory hi r hr]
  rcases ok_or_error (parseMany (parseRow path dim) k l) with ⟨e, he⟩ | ⟨r, hr⟩
  · rw [he]
    rfl
  · rw [hr]
    simp only [Except.map, view]
    rw [length_of_parseMany hr, ← hmemory, List.drop_length, List.append_nil]

theorem forRange_intRound {σ : Type} (body : Nat → σ → Except ReadError σ) (s : σ)
    (hk : k < 2 ^ 31) : forRange k (intRound body) s = forRange k body s := by
  apply forRange_congr
  intro i hi s
  rw [intRound]
  cases body i s with
  | error e => rfl
  | ok s' => exact if_pos (by omega)

theorem resizeFloats_eq (memory : List UInt8) {n : SizeT} (h : 4 * n.toNat ≤ maxOffset) :
    ∃ memory', resizeFloats n memory = .ok memory' ∧ memory'.length = 4 * n.toNat := by
  refine ⟨_, if_pos h, ?_⟩
  rw [List.length_append, List.length_take, List.length_replicate]
  omega

/-- One array of `k` rows. -/
theorem resizeFloats_rows (memory : List UInt8) (hdim : dim.toNat < 2 ^ 31) {rows : SizeT}
    (hrows : rows.toNat < 2 ^ 31) (hsize : 4 * (rows.toNat * dim.toNat) ≤ maxOffset) :
    ∃ memory', resizeFloats (rows * dim) memory = .ok memory' ∧
      memory'.length = 4 * (rows.toNat * dim.toNat) := by
  have hmul := ofNat_mul hdim hrows
  rw [UInt64.ofNat_toNat] at hmul
  rw [← hmul] at hsize ⊢
  exact resizeFloats_eq memory hsize

theorem resizeFloats_large (memory : List UInt8) (hdim : dim.toNat < 2 ^ 31) {rows : SizeT}
    (hrows : rows.toNat < 2 ^ 31) (hsize : ¬ 4 * (rows.toNat * dim.toNat) ≤ maxOffset) :
    resizeFloats (rows * dim) memory = .error .lengthError := by
  have hmul := ofNat_mul hdim hrows
  rw [UInt64.ofNat_toNat] at hmul
  rw [resizeFloats, hmul, if_neg hsize]

end Loops

/-! ## The three readers -/

section Readers

variable {path : String} {dim : SizeT} {disk : String → Option File} {file : File}

/-- A file with the records of all rows is larger than their array. -/
theorem size_of_parseMany {k : Nat} {r : List (Payload dim.toNat) × List UInt8}
    (h : parseMany (parseRow path dim) k file.bytes = .ok r) :
    4 * (k * dim.toNat) ≤ maxOffset := by
  obtain ⟨hlength, hbytes⟩ := (parseMany_iff parseRow_iff).mp h
  have hemit : ∀ ps : List (Payload dim.toNat),
      (ps.flatMap Payload.bytes).length ≤ (ps.flatMap Payload.emit).length := by
    intro ps
    induction ps with
    | nil => exact Nat.le_refl 0
    | cons p ps ih =>
      simp only [List.flatMap_cons, List.length_append, Payload.emit]
      omega
  calc 4 * (k * dim.toNat) = (r.1.flatMap Payload.bytes).length := by
        rw [Payload.length_flatMap, hlength]
    _ ≤ (r.1.flatMap Payload.emit).length := hemit r.1
    _ ≤ file.bytes.length := by
        rw [hbytes, List.length_append]
        exact Nat.le_add_right _ _
    _ ≤ maxOffset := file.length_le

theorem openFile_eq (hfile : disk path = some file) :
    openFile disk path = .ok ⟨file.bytes, true⟩ := by
  rw [openFile, hfile, Option.elim_some]

/-- The array has the words of the payloads, unless it is larger than any array. -/
theorem readFileAsFlatArray_eq (hfile : disk path = some file) (hdim : dim.toNat < 2 ^ 31)
    {rows : SizeT} (hrows : rows.toNat < 2 ^ 31)
    (hsize : 4 * (rows.toNat * dim.toNat) ≤ maxOffset) :
    readFileAsFlatArray disk path rows dim =
      (parseMany (parseRow path dim) rows.toNat file.bytes).map fun r =>
        words (r.1.flatMap Payload.bytes) := by
  obtain ⟨memory, hmemory, hlength⟩ := resizeFloats_rows [] hdim hrows hsize
  rw [readFileAsFlatArray, newFloats, hmemory]
  simp only [Except.bind]
  rw [openFile_eq hfile]
  simp only
  rw [forRange_intRound _ _ hrows, forRange_readRowAt hdim hrows hlength]
  cases parseMany (parseRow path dim) rows.toNat file.bytes <;> rfl

/-- The vectors that have been read, in front of the empty ones. -/
def vectorsView (k : Nat) (r : List (Payload dim.toNat) × List UInt8) :
    List (List UInt8) × InputStream :=
  (r.1.map Payload.bytes ++ List.replicate (k - r.1.length) [], ⟨r.2, true⟩)

theorem readVector_eq (hdim : dim.toNat < 2 ^ 31) {k i : Nat} (hi : i < k)
    (r : List (Payload dim.toNat) × List UInt8) (hr : r.1.length = i) :
    readVector path dim i (vectorsView k r) =
      (parseRow path dim r.2).map fun p => vectorsView k (r.1 ++ [p.1], p.2) := by
  have hsize : 4 * dim.toNat ≤ maxOffset := by
    unfold maxOffset
    omega
  obtain ⟨memory, hmemory, hlength⟩ := resizeFloats_eq [] hsize
  rw [readVector, newFloats, hmemory, vectorsView]
  simp only [Except.bind]
  rw [readRow_eq hdim (by omega)]
  have hfront : (r.1.map Payload.bytes).length = i := by rw [List.length_map, hr]
  have hrest : k - i = k - (i + 1) + 1 := by omega
  cases parseRow path dim r.2 with
  | error e => rfl
  | ok p =>
    have htemp : memory.drop (0 + 4 * dim.toNat) = [] := List.drop_eq_nil_of_le (by omega)
    have hset : (r.1.map Payload.bytes ++ List.replicate (k - i) []).set i p.1.bytes =
        (r.1 ++ [p.1]).map Payload.bytes ++ List.replicate (k - (i + 1)) [] := by
      rw [List.set_append_right _ _ hfront.le, hfront, Nat.sub_self, hrest,
        List.replicate_succ, List.set_cons_zero, List.map_append, List.append_assoc]
      rfl
    have hroom : i < (r.1.map Payload.bytes ++ List.replicate (k - i) []).length := by
      rw [List.length_append, hfront, List.length_replicate]
      omega
    simp only [Except.map, hr, List.take_zero, List.nil_append, htemp, List.append_nil]
    rw [if_pos hroom, hset, vectorsView, List.length_append, List.length_singleton, hr]

theorem readFileAsVectors_eq (hfile : disk path = some file) (hdim : dim.toNat < 2 ^ 31)
    {rows : SizeT} (hrows : rows.toNat < 2 ^ 31) :
    readFileAsVectors disk path rows dim =
      (parseMany (parseRow path dim) rows.toNat file.bytes).map fun r =>
        r.1.map fun p => words p.bytes := by
  have hsize : 24 * rows.toNat ≤ maxOffset := by
    unfold maxOffset
    omega
  rw [readFileAsVectors, newVectors, if_pos hsize]
  simp only [Except.bind]
  rw [openFile_eq hfile]
  simp only
  rw [forRange_intRound _ _ hrows]
  have hstart : vectorsView rows.toNat (([] : List (Payload dim.toNat)), file.bytes) =
      (List.replicate rows.toNat [], ⟨file.bytes, true⟩) := rfl
  rw [← hstart, forRange_eq_parseMany (vectorsView rows.toNat) fun i hi r hr =>
    readVector_eq hdim hi r hr]
  rcases ok_or_error (parseMany (parseRow path dim) rows.toNat file.bytes) with ⟨e, he⟩ | ⟨r, hr⟩
  · rw [he]
    rfl
  · rw [hr]
    simp only [Except.map, vectorsView]
    rw [length_of_parseMany hr, Nat.sub_self, List.replicate_zero, List.append_nil, List.map_map]
    rfl

/-! ### Batches -/

/-- A call reads as many records as rows are requested, or there is no room for them. -/
theorem read_eq {requestedRows : SizeT} {l buffer : List UInt8} (hdim : dim.toNat < 2 ^ 31)
    (hrows : requestedRows.toNat < 2 ^ 31)
    (hsize : 4 * (requestedRows.toNat * dim.toNat) ≤ maxOffset) :
    FvecsBatchReader.read requestedRows ⟨path, dim, ⟨l, true⟩, buffer⟩ =
      (parseMany (parseRow path dim) requestedRows.toNat l).map fun r =>
        (words (r.1.flatMap Payload.bytes),
          ⟨path, dim, ⟨r.2, true⟩, r.1.flatMap Payload.bytes⟩) := by
  obtain ⟨memory, hmemory, hlength⟩ := resizeFloats_rows buffer hdim hrows hsize
  rw [FvecsBatchReader.read]
  simp only
  rw [hmemory]
  simp only [Except.bind]
  rw [forRange_readRowAt hdim hrows hlength]
  cases parseMany (parseRow path dim) requestedRows.toNat l <;> rfl

/-- The batches, together, read the records of all their rows. -/
theorem readAll_ok {batches : List SizeT} {l : List UInt8} (buffer : List UInt8) {k : Nat}
    {r : List (Payload dim.toNat) × List UInt8} (hdim : dim.toNat < 2 ^ 31) (hk : k < 2 ^ 31)
    (hsize : 4 * (k * dim.toNat) ≤ maxOffset) (hsum : (batches.map (·.toNat)).sum = k)
    (h : parseMany (parseRow path dim) k l = .ok r) :
    ∃ spans, FvecsBatchReader.readAll batches ⟨path, dim, ⟨l, true⟩, buffer⟩ = .ok spans ∧
      spans.flatten = words (r.1.flatMap Payload.bytes) := by
  induction batches generalizing l buffer k r with
  | nil =>
    subst hsum
    obtain rfl := Except.ok.inj h
    exact ⟨[], rfl, rfl⟩
  | cons b batches ih =>
    rw [List.map_cons, List.sum_cons] at hsum
    subst hsum
    obtain ⟨r₁, r₂, hr₁, hr₂, rfl⟩ := parseMany_add_ok h
    rw [Nat.add_mul] at hsize
    obtain ⟨spans, hspans, hflatten⟩ :=
      ih (r₁.1.flatMap Payload.bytes) (by omega) (by omega) rfl hr₂
    refine ⟨words (r₁.1.flatMap Payload.bytes) :: spans, ?_, ?_⟩
    · rw [FvecsBatchReader.readAll, read_eq hdim (by omega) (by omega), hr₁]
      simp only [Except.map, Except.bind]
      rw [hspans]
    · rw [List.flatten_cons, hflatten, List.flatMap_append,
        words_append (Payload.length_flatMap r₁.1)]

/-- Where a record is missing, some call throws. -/
theorem readAll_error {batches : List SizeT} {l : List UInt8} (buffer : List UInt8) {k : Nat}
    {e : ReadError} (hdim : dim.toNat < 2 ^ 31) (hk : k < 2 ^ 31) (hsum : (batches.map (·.toNat)).sum = k)
    (h : parseMany (parseRow path dim) k l = .error e) :
    Throws (FvecsBatchReader.readAll batches ⟨path, dim, ⟨l, true⟩, buffer⟩) := by
  induction batches generalizing l buffer k with
  | nil =>
    subst hsum
    cases h
  | cons b batches ih =>
    rw [List.map_cons, List.sum_cons] at hsum
    subst hsum
    rw [FvecsBatchReader.readAll]
    by_cases hsize : 4 * (b.toNat * dim.toNat) ≤ maxOffset
    · rw [read_eq hdim (by omega) hsize]
      rcases parseMany_add_error h with he | ⟨r, hr, he⟩
      · rw [he]
        exact ⟨e, rfl, parseMany_error he⟩
      · rw [hr]
        simp only [Except.map, Except.bind]
        obtain ⟨e', he', hne⟩ := ih (r.1.flatMap Payload.bytes) (by omega) rfl he
        rw [he']
        exact ⟨e', rfl, hne⟩
    · have hread : FvecsBatchReader.read b ⟨path, dim, ⟨l, true⟩, buffer⟩ =
          .error .lengthError := by
        rw [FvecsBatchReader.read, resizeFloats_large buffer hdim (by omega) hsize]
        rfl
      rw [hread]
      exact ⟨.lengthError, rfl, ReadError.noConfusion⟩

theorem readBatches_eq (hfile : disk path = some file) (batches : List SizeT) :
    readBatches disk path dim batches =
      FvecsBatchReader.readAll batches ⟨path, dim, ⟨file.bytes, true⟩, []⟩ := by
  rw [readBatches, FvecsBatchReader.new, openFile_eq hfile]
  rfl

/-! ### The format -/

theorem exists_payloads {n : Nat} {ps : List (List UInt8)} (h : ∀ p ∈ ps, p.length = 4 * n) :
    ∃ qs : List (Payload n), qs.map Payload.bytes = ps := by
  refine ⟨ps.pmap Payload.mk h, ?_⟩
  rw [List.map_pmap]
  exact (List.pmap_eq_map _).trans (List.map_id _)

/-- The records at the start of a file are what is parsed. -/
theorem startsWithRecords_iff (path : String) {rows : Nat} :
    StartsWithRecords rows dim.toNat file.bytes ↔
      ∃ r, parseMany (parseRow path dim) rows file.bytes = .ok r := by
  constructor
  · rintro ⟨ps, hlength, hps, rest, hbytes⟩
    obtain ⟨qs, rfl⟩ := exists_payloads hps
    rw [List.length_map] at hlength
    rw [List.flatMap_map] at hbytes
    exact ⟨(qs, rest), (parseMany_iff parseRow_iff).mpr ⟨hlength, hbytes.symm⟩⟩
  · rintro ⟨⟨qs, rest⟩, h⟩
    obtain ⟨hlength, hbytes⟩ := (parseMany_iff parseRow_iff).mp h
    refine ⟨qs.map Payload.bytes, by rw [List.length_map, hlength], ?_, rest, ?_⟩
    · intro p hp
      obtain ⟨q, -, rfl⟩ := List.mem_map.mp hp
      exact q.length_eq
    · rw [List.flatMap_map, hbytes]
      rfl

/-- The encoding of a matrix is parsed as its rows. -/
theorem parseMany_encode_append (path : String) {matrix : List (List UInt32)}
    (hrow : ∀ row ∈ matrix, row.length = dim.toNat) (rest : List UInt8) :
    ∃ ps : List (Payload dim.toNat),
      parseMany (parseRow path dim) matrix.length (encode dim.toNat matrix ++ rest) =
        .ok (ps, rest) ∧ (ps.map fun p => words p.bytes) = matrix := by
  have hstore : ∀ p ∈ matrix.map store, p.length = 4 * dim.toNat := by
    intro p hp
    obtain ⟨row, hmem, rfl⟩ := List.mem_map.mp hp
    rw [length_store, hrow row hmem]
  obtain ⟨qs, hqs⟩ := exists_payloads hstore
  have hencode : encode dim.toNat matrix = qs.flatMap Payload.emit := by
    calc encode dim.toNat matrix =
          (matrix.map store).flatMap fun p => LittleEndian.bytes 4 dim.toNat ++ p := by
          rw [List.flatMap_map]
          rfl
      _ = qs.flatMap Payload.emit := by
          rw [← hqs, List.flatMap_map]
          rfl
  have hlength : qs.length = matrix.length := by
    have := congrArg List.length hqs
    rwa [List.length_map, List.length_map] at this
  refine ⟨qs, (parseMany_iff parseRow_iff).mpr ⟨hlength, by rw [hencode]⟩, ?_⟩
  calc (qs.map fun p => words p.bytes) = (qs.map Payload.bytes).map words := by
        rw [List.map_map]
        rfl
    _ = matrix := by
        rw [hqs, List.map_map]
        exact (List.map_congr_left fun row _ => words_store row).trans (List.map_id _)

theorem parseMany_encode (path : String) {matrix : List (List UInt32)}
    (hrow : ∀ row ∈ matrix, row.length = dim.toNat)
    (h : encode dim.toNat matrix <+: file.bytes) :
    ∃ r, parseMany (parseRow path dim) matrix.length file.bytes = .ok r ∧
      (r.1.map fun p => words p.bytes) = matrix := by
  obtain ⟨rest, hbytes⟩ := h
  obtain ⟨ps, hparse, hps⟩ := parseMany_encode_append path hrow rest
  exact ⟨(ps, rest), hbytes ▸ hparse, hps⟩

end Readers

/-- All three results are the same `n` words, or all three are exceptions. -/
def Agree (n : Nat) (flat vectors batched : Except ReadError (List UInt32)) : Prop :=
  (∃ ws, ws.length = n ∧ flat = .ok ws ∧ vectors = .ok ws ∧ batched = .ok ws) ∨
    Throws flat ∧ Throws vectors ∧ Throws batched

section Result

variable {disk : String → Option File} {path : String} {file : File} {rows dim : SizeT}
  {batches : List SizeT}

theorem readers_ok (hfile : disk path = some file) (hdim : dim.toNat < 2 ^ 31)
    (hrows : rows.toNat < 2 ^ 31) (hbatches : (batches.map (·.toNat)).sum = rows.toNat)
    {r : List (Payload dim.toNat) × List UInt8}
    (h : parseMany (parseRow path dim) rows.toNat file.bytes = .ok r) :
    let ws := (r.1.map fun p => words p.bytes).flatten
    ws.length = rows.toNat * dim.toNat ∧ readFileAsFlatArray disk path rows dim = .ok ws ∧
      readFileAsVectors disk path rows dim = .ok (r.1.map fun p => words p.bytes) ∧
      (readBatches disk path dim batches).map List.flatten = .ok ws := by
  have hsize := size_of_parseMany h
  have hwords := Payload.words_flatMap r.1
  obtain ⟨spans, hspans, hflatten⟩ := readAll_ok [] hdim hrows hsize hbatches h
  refine ⟨?_, ?_, ?_, ?_⟩
  · rw [← hwords, length_words (Payload.length_flatMap r.1), length_of_parseMany h]
  · rw [readFileAsFlatArray_eq hfile hdim hrows hsize, h]
    exact congrArg Except.ok hwords
  · rw [readFileAsVectors_eq hfile hdim hrows, h]
    rfl
  · rw [readBatches_eq hfile, hspans]
    exact congrArg Except.ok (hflatten.trans hwords)

theorem readers_throw (hfile : disk path = some file) (hdim : dim.toNat < 2 ^ 31)
    (hrows : rows.toNat < 2 ^ 31) (hbatches : (batches.map (·.toNat)).sum = rows.toNat)
    {e : ReadError} (h : parseMany (parseRow path dim) rows.toNat file.bytes = .error e) :
    Throws (readFileAsFlatArray disk path rows dim) ∧
      Throws (readFileAsVectors disk path rows dim) ∧ Throws (readBatches disk path dim batches) := by
  refine ⟨?_, ?_, ?_⟩
  · by_cases hsize : 4 * (rows.toNat * dim.toNat) ≤ maxOffset
    · rw [readFileAsFlatArray_eq hfile hdim hrows hsize, h]
      exact ⟨e, rfl, parseMany_error h⟩
    · rw [readFileAsFlatArray, newFloats, resizeFloats_large [] hdim hrows hsize]
      exact ⟨.lengthError, rfl, ReadError.noConfusion⟩
  · rw [readFileAsVectors_eq hfile hdim hrows, h]
    exact ⟨e, rfl, parseMany_error h⟩
  · rw [readBatches_eq hfile]
    exact readAll_error [] hdim hrows hbatches h

/-- What the reader of a flat array returns has the size that was asked for. -/
theorem length_of_readFileAsFlatArray (hfile : disk path = some file) (hdim : dim.toNat < 2 ^ 31)
    (hrows : rows.toNat < 2 ^ 31) {ws : List UInt32}
    (h : readFileAsFlatArray disk path rows dim = .ok ws) :
    ws.length = rows.toNat * dim.toNat := by
  have hbatches : ([rows].map (·.toNat)).sum = rows.toNat := List.sum_singleton
  rcases ok_or_error (parseMany (parseRow path dim) rows.toNat file.bytes) with ⟨e, he⟩ | ⟨r, hr⟩
  · obtain ⟨⟨e, hthrow, -⟩, -⟩ := readers_throw hfile hdim hrows hbatches he
    rw [hthrow] at h
    cases h
  · obtain ⟨hlength, hflat, -⟩ := readers_ok hfile hdim hrows hbatches hr
    rw [hflat] at h
    rwa [Except.ok.inj h] at hlength

theorem Throws.map {α β : Type} {o : Except ReadError α} (f : α → β) (h : Throws o) :
    Throws (o.map f) := by
  obtain ⟨e, rfl, he⟩ := h
  exact ⟨e, rfl, he⟩

/-- The readers agree on every file, succeed on the files that start with the records of
all rows, and return an encoded matrix. -/
theorem readers_agree (batches : List SizeT) (hfile : disk path = some file) (hdim : dim.toNat < 2 ^ 31)
    (hrows : rows.toNat < 2 ^ 31) (hbatches : (batches.map (·.toNat)).sum = rows.toNat) :
    Agree (rows.toNat * dim.toNat) (readFileAsFlatArray disk path rows dim)
        ((readFileAsVectors disk path rows dim).map List.flatten)
        ((readBatches disk path dim batches).map List.flatten) ∧
      ((∃ ws, readFileAsFlatArray disk path rows dim = .ok ws) ↔
        StartsWithRecords rows.toNat dim.toNat file.bytes) ∧
      ∀ matrix : List (List UInt32), matrix.length = rows.toNat →
        (∀ row ∈ matrix, row.length = dim.toNat) → encode dim.toNat matrix <+: file.bytes →
        readFileAsFlatArray disk path rows dim = .ok matrix.flatten ∧
          readFileAsVectors disk path rows dim = .ok matrix ∧
          (readBatches disk path dim batches).map List.flatten = .ok matrix.flatten := by
  refine ⟨?_, ?_, ?_⟩
  · rcases ok_or_error (parseMany (parseRow path dim) rows.toNat file.bytes) with
      ⟨e, he⟩ | ⟨r, hr⟩
    · obtain ⟨hflat, hvectors, hbatched⟩ := readers_throw hfile hdim hrows hbatches he
      exact Or.inr ⟨hflat, hvectors.map _, hbatched.map _⟩
    · obtain ⟨hlength, hflat, hvectors, hbatched⟩ := readers_ok hfile hdim hrows hbatches hr
      refine Or.inl ⟨_, hlength, hflat, ?_, hbatched⟩
      rw [hvectors]
      rfl
  · rw [startsWithRecords_iff path]
    rcases ok_or_error (parseMany (parseRow path dim) rows.toNat file.bytes) with
      ⟨e, he⟩ | ⟨r, hr⟩
    · obtain ⟨⟨e', hflat, -⟩, -, -⟩ := readers_throw hfile hdim hrows hbatches he
      rw [hflat, he]
      simp
    · obtain ⟨-, hflat, -, -⟩ := readers_ok hfile hdim hrows hbatches hr
      exact iff_of_true ⟨_, hflat⟩ ⟨r, hr⟩
  · intro matrix hlength hrow hencode
    obtain ⟨r, hr, rfl⟩ := parseMany_encode path hrow hencode
    rw [hlength] at hr
    obtain ⟨-, hflat, hvectors, hbatched⟩ := readers_ok hfile hdim hrows hbatches hr
    exact ⟨hflat, hvectors, hbatched⟩

end Result

/-- The encoding of a matrix with one element. -/
theorem readers_agree_single :
    readFileAsFlatArray (fun _ => some ⟨[1, 0, 0, 0, 5, 0, 0, 0], by decide⟩) "base.fvecs" 1 1 =
      .ok [5] :=
  ((readers_agree [1] (by rfl) (by decide) (by decide) rfl).2.2 [[5]] rfl (by decide)
    ⟨[], by decide⟩).1

end Spheres.Benchmark.Fvecs
