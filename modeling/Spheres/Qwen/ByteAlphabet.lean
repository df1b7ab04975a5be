import Mathlib.Algebra.Order.Ring.Int
import Mathlib.Algebra.Order.Ring.Nat
import Mathlib.Data.List.Basic

/-!
# The byte alphabet of the tokenizer

Every byte is replaced by a printable character, whose UTF-8 encoding has one or two
bytes. The table stores the encoding as a number, its first byte lowest. The lead byte
of an encoding tells how long it is.
-/

namespace Spheres.Qwen.Tokenizer

/-- `UTF8_LOOKUP_TABLE`. -/
def utf8LookupTable : List Int :=
  [0] ++ List.replicate 127 1 ++ List.replicate 64 (-1) ++ List.replicate 32 2 ++
    List.replicate 16 3 ++ List.replicate 8 4 ++ List.replicate 8 (-1)

/-- `BYTE_TO_UNICODE_LOOKUP_TABLE`. -/
def byteToUnicodeLookupTable : List UInt16 :=
  [32964, 33220, 33476, 33732, 33988, 34244, 34500, 34756, 35012, 35268, 35524, 35780, 36036,
    36292, 36548, 36804, 37060, 37316, 37572, 37828, 38084, 38340, 38596, 38852, 39108, 39364,
    39620, 39876, 40132, 40388, 40644, 40900, 41156, 33, 34, 35, 36, 37, 38, 39, 40, 41, 42, 43,
    44, 45, 46, 47, 48, 49, 50, 51, 52, 53, 54, 55, 56, 57, 58, 59, 60, 61, 62, 63, 64, 65, 66,
    67, 68, 69, 70, 71, 72, 73, 74, 75, 76, 77, 78, 79, 80, 81, 82, 83, 84, 85, 86, 87, 88, 89,
    90, 91, 92, 93, 94, 95, 96, 97, 98, 99, 100, 101, 102, 103, 104, 105, 106, 107, 108, 109, 110,
    111, 112, 113, 114, 115, 116, 117, 118, 119, 120, 121, 122, 123, 124, 125, 126, 41412, 41668,
    41924, 42180, 42436, 42692, 42948, 43204, 43460, 43716, 43972, 44228, 44484, 44740, 44996,
    45252, 45508, 45764, 46020, 46276, 46532, 46788, 47044, 47300, 47556, 47812, 48068, 48324,
    48580, 48836, 49092, 32965, 33221, 33477, 41410, 41666, 41922, 42178, 42434, 42690, 42946,
    43202, 43458, 43714, 43970, 44226, 33733, 44738, 44994, 45250, 45506, 45762, 46018, 46274,
    46530, 46786, 47042, 47298, 47554, 47810, 48066, 48322, 48578, 48834, 49090, 32963, 33219,
    33475, 33731, 33987, 34243, 34499, 34755, 35011, 35267, 35523, 35779, 36035, 36291, 36547,
    36803, 37059, 37315, 37571, 37827, 38083, 38339, 38595, 38851, 39107, 39363, 39619, 39875,
    40131, 40387, 40643, 40899, 41155, 41411, 41667, 41923, 42179, 42435, 42691, 42947, 43203,
    43459, 43715, 43971, 44227, 44483, 44739, 44995, 45251, 45507, 45763, 46019, 46275, 46531,
    46787, 47043, 47299, 47555, 47811, 48067, 48323, 48579, 48835, 49091]

def convertByteToUnicode (byte : UInt8) : UInt16 := byteToUnicodeLookupTable.getD byte.toNat 0

def convertUnicodeToByte (unicode : UInt16) : UInt8 :=
  if unicode < 128 then unicode.toUInt8
  else (byteToUnicodeLookupTable.findIdx? (· = unicode)).elim 0 UInt8.ofNat

def useNBytes (c : UInt8) : Int := utf8LookupTable.getD c.toNat 0

/-- The bytes that replace one byte of the text. -/
def replaceByte (t : UInt8) : List UInt8 :=
  let code := convertByteToUnicode t
  if code < 128 then [code.toUInt8]
  else [(code &&& 0x00ff).toUInt8, ((code >>> 8) &&& 0x00ff).toUInt8]

/-- The bytes of a token back to the text, code by code. -/
def decode : List UInt8 → List UInt8
  | [] => []
  | [b] => [convertUnicodeToByte b.toUInt16]
  | b :: c :: rest =>
    if useNBytes b = 1 then convertUnicodeToByte b.toUInt16 :: decode (c :: rest)
    else convertUnicodeToByte (b.toUInt16 ||| (c.toUInt16 <<< 8)) :: decode rest

/-- What the tables have to say about one byte: its code has one byte or two, by its lead
byte, and is converted back. -/
def roundTrips (t : UInt8) : Bool :=
  match replaceByte t with
  | [b] => useNBytes b = 1 ∧ convertUnicodeToByte b.toUInt16 = t
  | [b, c] => useNBytes b = 2 ∧ convertUnicodeToByte (b.toUInt16 ||| (c.toUInt16 <<< 8)) = t
  | _ => false

theorem roundTrips_all (t : UInt8) : roundTrips t = true := by
  have hall : ∀ n ∈ List.range 256, roundTrips (.ofNat n) = true := by decide +kernel
  have ht := hall t.toNat (List.mem_range.mpr t.toNat_lt)
  rwa [UInt8.ofNat_toNat] at ht

/-- The code of a byte. -/
theorem replaceByte_cases (t : UInt8) :
    (∃ b, replaceByte t = [b] ∧ useNBytes b = 1 ∧ convertUnicodeToByte b.toUInt16 = t) ∨
      ∃ b c, replaceByte t = [b, c] ∧ useNBytes b = 2 ∧
        convertUnicodeToByte (b.toUInt16 ||| (c.toUInt16 <<< 8)) = t := by
  have h := roundTrips_all t
  unfold roundTrips at h
  split at h
  · exact Or.inl ⟨_, ‹_›, of_decide_eq_true h⟩
  · exact Or.inr ⟨_, _, ‹_›, of_decide_eq_true h⟩
  · cases h

/-- The lead byte of a code tells its length. -/
theorem replaceByte_lead (t : UInt8) :
    ∃ b bs, replaceByte t = b :: bs ∧ (useNBytes b % 2 ^ 64).toNat = (replaceByte t).length := by
  rcases replaceByte_cases t with ⟨b, hcode, hlead, -⟩ | ⟨b, c, hcode, hlead, -⟩
  · exact ⟨b, [], hcode, by rw [hlead, hcode]; rfl⟩
  · exact ⟨b, [c], hcode, by rw [hlead, hcode]; rfl⟩

theorem decode_replaceByte_append (t : UInt8) (rest : List UInt8) :
    decode (replaceByte t ++ rest) = t :: decode rest := by
  rcases replaceByte_cases t with ⟨b, hcode, hlead, hback⟩ | ⟨b, c, hcode, hlead, hback⟩
  · rw [hcode]
    cases rest with
    | nil => simp only [List.append_nil, decode, hback]
    | cons c rest => rw [List.singleton_append, decode, if_pos hlead, hback]
  · have hne : useNBytes b ≠ 1 := by
      rw [hlead]
      decide
    rw [hcode, List.cons_append, List.singleton_append, decode, if_neg hne, hback]

/-- The text comes back from its codes. -/
theorem decode_flatMap_replaceByte (text : List UInt8) :
    decode (text.flatMap replaceByte) = text := by
  induction text with
  | nil => rfl
  | cons t text ih => rw [List.flatMap_cons, decode_replaceByte_append, ih]

end Spheres.Qwen.Tokenizer
