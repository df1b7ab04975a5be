import Mathlib.Data.UInt
import Spheres.Library.LittleEndian

/-!
# The binary format of `COPY`

A stream of PostgreSQL's binary `COPY` is a signature, flags, an extension, tuples and a
trailer. A tuple is the number of its fields and then the fields, each behind its length;
the length -1 stands for NULL and the number -1 for the trailer. All numbers have their
highest byte first. `parse` reads such a stream to its end, and `emit` writes one.
-/

namespace Spheres.Library

namespace BigEndian

/-- The lowest `width` bytes of a number, the highest one first. -/
def bytes (width n : Nat) : List UInt8 := (LittleEndian.bytes width n).reverse

/-- The number that bytes stand for. -/
def value (bs : List UInt8) : Nat := LittleEndian.value bs.reverse

@[simp] theorem length_bytes (width n : Nat) : (bytes width n).length = width := by
  rw [bytes, List.length_reverse, LittleEndian.length_bytes]

theorem value_bytes (width n : Nat) : value (bytes width n) = n % 256 ^ width := by
  rw [value, bytes, List.reverse_reverse, LittleEndian.value_bytes]

theorem value_bytes_of_lt {width n : Nat} (h : n < 256 ^ width) : value (bytes width n) = n := by
  rw [value_bytes, Nat.mod_eq_of_lt h]

/-- The high bytes and then the low ones. -/
theorem bytes_add (high low n : Nat) :
    bytes (high + low) n = bytes high (n / 256 ^ low) ++ bytes low n := by
  rw [bytes, bytes, bytes, ← List.reverse_append]
  congr 1
  induction low generalizing n with
  | zero => rw [Nat.add_zero, Nat.pow_zero, Nat.div_one, LittleEndian.bytes, List.nil_append]
  | succ low ih =>
    rw [← Nat.add_assoc, LittleEndian.bytes, LittleEndian.bytes, ih, List.cons_append,
      Nat.div_div_eq_div_mul, Nat.pow_succ']

theorem bytes_mod (width n : Nat) : bytes width (n % 256 ^ width) = bytes width n := by
  rw [bytes, bytes, LittleEndian.bytes_mod]

end BigEndian

namespace BinaryCopy

open BigEndian

abbrev Parser (α : Type) := List UInt8 → Option (α × List UInt8)

def takeBytes (n : Nat) : Parser (List UInt8) := fun l =>
  if n ≤ l.length then some (l.take n, l.drop n) else none

def int16 : Parser Int16 := fun l =>
  (takeBytes 2 l).map fun p => (.ofNat (value p.1), p.2)

def int32 : Parser Int32 := fun l =>
  (takeBytes 4 l).map fun p => (.ofNat (value p.1), p.2)

/-- A field of a tuple; `none` is NULL. -/
abbrev Field := Option (List UInt8)

def field : Parser Field := fun l =>
  (int32 l).bind fun length =>
  if length.1 = -1 then some (none, length.2)
  else if length.1 < 0 then none
  else (takeBytes length.1.toInt.toNat length.2).map fun p => (some p.1, p.2)

def fields : Nat → Parser (List Field)
  | 0, l => some ([], l)
  | n + 1, l => (field l).bind fun f => (fields n f.2).map fun fs => (f.1 :: fs.1, fs.2)

/-- The tuples up to the trailer, behind which there is nothing. Every tuple takes bytes,
so that `fuel` is enough once it exceeds their number. -/
def tuples : Nat → List UInt8 → Option (List (List Field))
  | 0, _ => none
  | fuel + 1, l =>
    (int16 l).bind fun count =>
    if count.1 = -1 then if count.2 = [] then some [] else none
    else if count.1 < 0 then none
    else (fields count.1.toInt.toNat count.2).bind fun fs => (tuples fuel fs.2).map (fs.1 :: ·)

/-- `PGCOPY`, a line feed, the byte 255, a carriage return, a line feed and a zero. -/
def signature : List UInt8 := [80, 71, 67, 79, 80, 89, 10, 255, 13, 10, 0]

/-- The signature, flags of which none that is critical may be set, and the extension,
which is skipped. -/
def header : Parser Unit := fun l =>
  (takeBytes signature.length l).bind fun p =>
  if p.1 ≠ signature then none
  else (takeBytes 4 p.2).bind fun flags =>
    if value flags.1 / 2 ^ 16 ≠ 0 then none
    else (int32 flags.2).bind fun extension =>
      if extension.1 < 0 then none
      else (takeBytes extension.1.toInt.toNat extension.2).map fun q => ((), q.2)

def parse (l : List UInt8) : Option (List (List Field)) :=
  (header l).bind fun p => tuples (p.2.length + 1) p.2

/-! ## Types of fields -/

/-- The binary form of `bigint`. -/
def bigint (bs : List UInt8) : Option Int64 :=
  if bs.length = 8 then some (.ofNat (value bs)) else none

/-- `n` numbers of four bytes. -/
def words : Nat → Parser (List UInt32)
  | 0, l => some ([], l)
  | n + 1, l => (takeBytes 4 l).bind fun w =>
    (words n w.2).map fun ws => (.ofNat (value w.1) :: ws.1, ws.2)

/-- The largest dimension of a `vector`. -/
def vectorMaxDim : Nat := 16000

/-- The binary form of `vector(dim)`: the dimension, a zero and the elements. -/
def vector (dim : Nat) (bs : List UInt8) : Option (List UInt32) :=
  (int16 bs).bind fun d =>
  (int16 d.2).bind fun unused =>
  if d.1 < 1 ∨ vectorMaxDim < d.1.toInt.toNat ∨ d.1.toInt.toNat ≠ dim ∨ unused.1 ≠ 0 then none
  else (words d.1.toInt.toNat unused.2).bind fun ws => if ws.2 = [] then some ws.1 else none

/-! ## Writing a stream -/

def emitField : Field → List UInt8
  | none => bytes 4 (2 ^ 32 - 1)
  | some bs => bytes 4 bs.length ++ bs

def emitTuple (t : List Field) : List UInt8 := bytes 2 t.length ++ t.flatMap emitField

def emitHeader : List UInt8 := signature ++ bytes 4 0 ++ bytes 4 0

def emitTrailer : List UInt8 := bytes 2 (2 ^ 16 - 1)

def emit (ts : List (List Field)) : List UInt8 :=
  emitHeader ++ ts.flatMap emitTuple ++ emitTrailer

/-- The numbers of fields and bytes that a stream can hold. -/
structure Fits (t : List Field) : Prop where
  length : t.length < 2 ^ 15
  fields : ∀ bs, some bs ∈ t → bs.length < 2 ^ 31

/-- The binary form of a vector. -/
def emitVector (ws : List UInt32) : List UInt8 :=
  bytes 2 ws.length ++ bytes 2 0 ++ ws.flatMap fun w => bytes 4 w.toNat

/-! ## What is written is read -/

section Numbers

variable {n : Nat}

theorem int16_ofNat (hn : n < 2 ^ 15) :
    Int16.ofNat n ≠ -1 ∧ ¬ Int16.ofNat n < 0 ∧ (Int16.ofNat n).toInt.toNat = n := by
  have hvalue := Int16.toInt_ofNat_of_lt hn
  refine ⟨fun h => ?_, fun h => ?_, ?_⟩
  · rw [h] at hvalue
    exact absurd hvalue (by rw [show (-1 : Int16).toInt = -1 from rfl]; omega)
  · rw [Int16.lt_iff_toInt_lt, hvalue] at h
    exact absurd h (by rw [show (0 : Int16).toInt = 0 from rfl]; omega)
  · rw [hvalue, Int.toNat_natCast]

theorem int32_ofNat (hn : n < 2 ^ 31) :
    Int32.ofNat n ≠ -1 ∧ ¬ Int32.ofNat n < 0 ∧ (Int32.ofNat n).toInt.toNat = n := by
  have hvalue := Int32.toInt_ofNat_of_lt hn
  refine ⟨fun h => ?_, fun h => ?_, ?_⟩
  · rw [h] at hvalue
    exact absurd hvalue (by rw [show (-1 : Int32).toInt = -1 from rfl]; omega)
  · rw [Int32.lt_iff_toInt_lt, hvalue] at h
    exact absurd h (by rw [show (0 : Int32).toInt = 0 from rfl]; omega)
  · rw [hvalue, Int.toNat_natCast]

theorem takeBytes_append {front : List UInt8} (h : front.length = n) (rest : List UInt8) :
    takeBytes n (front ++ rest) = some (front, rest) := by
  have hle : n ≤ (front ++ rest).length := by
    rw [List.length_append, h]
    exact Nat.le_add_right _ _
  rw [takeBytes, if_pos hle, List.take_left' h, List.drop_left' h]

theorem int16_append (hn : n < 2 ^ 16) (rest : List UInt8) :
    int16 (bytes 2 n ++ rest) = some (.ofNat n, rest) := by
  rw [int16, takeBytes_append (length_bytes 2 n), Option.map_some, value_bytes_of_lt hn]

theorem int32_append (hn : n < 2 ^ 32) (rest : List UInt8) :
    int32 (bytes 4 n ++ rest) = some (.ofNat n, rest) := by
  rw [int32, takeBytes_append (length_bytes 4 n), Option.map_some, value_bytes_of_lt hn]

/-- The binary form of an id. -/
theorem bigint_bytes (hn : n < 2 ^ 64) : bigint (bytes 8 n) = some (.ofNat n) := by
  rw [bigint, if_pos (length_bytes 8 n), value_bytes_of_lt hn]

end Numbers

section Streams

variable {rest : List UInt8} {t : List Field}

theorem field_emitField {f : Field} (h : ∀ bs, f = some bs → bs.length < 2 ^ 31) :
    field (emitField f ++ rest) = some (f, rest) := by
  cases f with
  | none =>
    rw [field, emitField, int32_append (by decide), Option.bind_some]
    exact if_pos rfl
  | some bs =>
    have hlength := h bs rfl
    obtain ⟨hnull, hneg, hvalue⟩ := int32_ofNat hlength
    rw [field, emitField, List.append_assoc, int32_append (by omega), Option.bind_some,
      if_neg hnull, if_neg hneg, hvalue, takeBytes_append rfl, Option.map_some]

theorem fields_emit (h : ∀ bs, some bs ∈ t → bs.length < 2 ^ 31) :
    fields t.length (t.flatMap emitField ++ rest) = some (t, rest) := by
  induction t with
  | nil => rfl
  | cons f t ih =>
    have hf : ∀ bs, f = some bs → bs.length < 2 ^ 31 :=
      fun bs hbs => h bs (hbs ▸ List.mem_cons_self)
    rw [List.flatMap_cons, List.append_assoc, List.length_cons, fields, field_emitField hf,
      Option.bind_some, ih fun bs hbs => h bs (List.mem_cons_of_mem _ hbs), Option.map_some]

theorem tuples_emitTuple (h : Fits t) (fuel : Nat) :
    tuples (fuel + 1) (emitTuple t ++ rest) = (tuples fuel rest).map (t :: ·) := by
  obtain ⟨htrailer, hneg, hvalue⟩ := int16_ofNat h.length
  have hcount : t.length < 2 ^ 16 := h.length.trans (by decide)
  rw [tuples, emitTuple, List.append_assoc, int16_append hcount, Option.bind_some,
    if_neg htrailer, if_neg hneg, hvalue, fields_emit h.fields, Option.bind_some]

theorem tuples_emitTrailer (fuel : Nat) : tuples (fuel + 1) emitTrailer = some [] := rfl

theorem length_pos_emitTuple (t : List Field) : 0 < (emitTuple t).length := by
  rw [emitTuple, List.length_append, length_bytes]
  omega

theorem tuples_emit {ts : List (List Field)} (h : ∀ t ∈ ts, Fits t) {fuel : Nat}
    (hfuel : (ts.flatMap emitTuple).length < fuel) :
    tuples fuel (ts.flatMap emitTuple ++ emitTrailer) = some ts := by
  obtain ⟨fuel, rfl⟩ := Nat.exists_eq_add_of_le' (Nat.zero_lt_of_lt hfuel)
  induction ts generalizing fuel with
  | nil => exact tuples_emitTrailer fuel
  | cons t ts ih =>
    have hpos := length_pos_emitTuple t
    rw [List.flatMap_cons, List.length_append] at hfuel
    obtain ⟨fuel, rfl⟩ := Nat.exists_eq_add_of_le' (show 1 ≤ fuel by omega)
    rw [List.flatMap_cons, List.append_assoc, tuples_emitTuple (h t List.mem_cons_self),
      ih (fun t' ht' => h t' (List.mem_cons_of_mem _ ht')) fuel (by omega), Option.map_some]

theorem header_emitHeader (rest : List UInt8) : header (emitHeader ++ rest) = some ((), rest) := by
  have hflags : value (bytes 4 0) / 2 ^ 16 = 0 := by decide
  obtain ⟨-, hneg, hvalue⟩ := int32_ofNat (n := 0) (by decide)
  have hextension : takeBytes 0 rest = some ([], rest) := takeBytes_append (List.length_nil) rest
  rw [header, emitHeader, List.append_assoc, List.append_assoc, takeBytes_append rfl,
    Option.bind_some, if_neg (not_not.mpr rfl), takeBytes_append (length_bytes 4 0),
    Option.bind_some, if_neg (not_not.mpr hflags), int32_append (by decide), Option.bind_some,
    if_neg hneg, hvalue, hextension, Option.map_some]

/-- A stream that was written is read to its end, and as what was written. -/
theorem parse_emit {ts : List (List Field)} (h : ∀ t ∈ ts, Fits t) :
    parse (emit ts) = some ts := by
  have hfuel : (ts.flatMap emitTuple).length <
      (ts.flatMap emitTuple ++ emitTrailer).length + 1 := by
    rw [List.length_append]
    omega
  rw [parse, emit, List.append_assoc, header_emitHeader, Option.bind_some, tuples_emit h hfuel]

end Streams

section Vectors

variable {ws : List UInt32}

theorem words_append (rest : List UInt8) :
    words ws.length ((ws.flatMap fun w => bytes 4 w.toNat) ++ rest) = some (ws, rest) := by
  induction ws with
  | nil => rfl
  | cons w ws ih =>
    have hvalue : UInt32.ofNat (value (bytes 4 w.toNat)) = w := by
      rw [value_bytes_of_lt w.toNat_lt, UInt32.ofNat_toNat]
    rw [List.flatMap_cons, List.append_assoc, List.length_cons, words,
      takeBytes_append (length_bytes 4 _), Option.bind_some, ih, Option.map_some, hvalue]

theorem length_emitVector (ws : List UInt32) : (emitVector ws).length = 4 + 4 * ws.length := by
  have hwords : ∀ ws : List UInt32,
      (ws.flatMap fun w => bytes 4 w.toNat).length = 4 * ws.length := by
    intro ws
    induction ws with
    | nil => rfl
    | cons w ws ih =>
      rw [List.flatMap_cons, List.length_append, ih, length_bytes, List.length_cons]
      omega
  rw [emitVector, List.length_append, List.length_append, hwords, length_bytes, length_bytes]

theorem vector_emitVector (hpos : 1 ≤ ws.length) (hmax : ws.length ≤ vectorMaxDim) :
    vector ws.length (emitVector ws) = some ws := by
  have hlt : ws.length < 2 ^ 15 := Nat.lt_of_le_of_lt hmax (by decide)
  obtain ⟨-, hneg, hvalue⟩ := int16_ofNat hlt
  have hdim : ¬ Int16.ofNat ws.length < 1 := by
    rw [Int16.lt_iff_toInt_lt, Int16.toInt_ofNat_of_lt hlt,
      show (1 : Int16).toInt = 1 from rfl]
    omega
  have haccepted : ¬ (Int16.ofNat ws.length < 1 ∨ vectorMaxDim < ws.length ∨
      ws.length ≠ ws.length ∨ Int16.ofNat 0 ≠ 0) := by
    rintro (h | h | h | h)
    · exact hdim h
    · exact absurd hmax (Nat.not_le_of_lt h)
    · exact h rfl
    · exact h rfl
  have hwords : words ws.length (ws.flatMap fun w => bytes 4 w.toNat) = some (ws, []) := by
    rw [← words_append [], List.append_nil]
  rw [vector, emitVector, List.append_assoc, int16_append (by omega), Option.bind_some,
    int16_append (by decide), Option.bind_some, hvalue, if_neg haccepted, hwords,
    Option.bind_some, if_pos rfl]

end Vectors

end BinaryCopy

end Spheres.Library
