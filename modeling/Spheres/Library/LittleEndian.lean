import Mathlib.Algebra.Order.Ring.Nat
import Mathlib.Data.List.Basic

/-!
# Little-endian memory

A number is stored with its lowest byte first. Memory of bytes is read as words of four
bytes; a word of eight bytes is a `size_t`.
-/

namespace Spheres.Library.LittleEndian

/-- The number that bytes stand for. -/
def value : List UInt8 → Nat
  | [] => 0
  | b :: bs => b.toNat + 256 * value bs

/-- The lowest `width` bytes of a number. -/
def bytes : Nat → Nat → List UInt8
  | 0, _ => []
  | width + 1, n => UInt8.ofNat n :: bytes width (n / 256)

@[simp] theorem length_bytes (width n : Nat) : (bytes width n).length = width := by
  induction width generalizing n with
  | zero => rfl
  | succ width ih => rw [bytes, List.length_cons, ih]

theorem value_lt (bs : List UInt8) : value bs < 256 ^ bs.length := by
  induction bs with
  | nil => exact Nat.one_pos
  | cons b bs ih =>
    have hb := b.toNat_lt
    rw [value, List.length_cons, Nat.pow_succ]
    omega

theorem value_bytes (width n : Nat) : value (bytes width n) = n % 256 ^ width := by
  induction width generalizing n with
  | zero => rw [bytes, value, Nat.pow_zero, Nat.mod_one]
  | succ width ih =>
    have hpow : 256 ^ (width + 1) = 256 * 256 ^ width := Nat.pow_succ'
    rw [bytes, value, ih, UInt8.toNat_ofNat', hpow, Nat.mod_mul]

theorem bytes_value (bs : List UInt8) : bytes bs.length (value bs) = bs := by
  induction bs with
  | nil => rfl
  | cons b bs ih =>
    have hb := b.toNat_lt
    have hlow : UInt8.ofNat (b.toNat + 256 * value bs) = b := by
      apply UInt8.toNat_inj.mp
      rw [UInt8.toNat_ofNat', Nat.add_mul_mod_self_left, Nat.mod_eq_of_lt hb]
    have hhigh : (b.toNat + 256 * value bs) / 256 = value bs := by omega
    rw [List.length_cons, value, bytes, hlow, hhigh, ih]

theorem bytes_mod (width n : Nat) : bytes width (n % 256 ^ width) = bytes width n := by
  have h := bytes_value (bytes width n)
  rwa [length_bytes, value_bytes] at h

/-! ## Words of four bytes -/

def word (bs : List UInt8) : UInt32 := UInt32.ofNat (value bs)

def wordBytes (w : UInt32) : List UInt8 := bytes 4 w.toNat

@[simp] theorem length_wordBytes (w : UInt32) : (wordBytes w).length = 4 := length_bytes 4 _

@[simp] theorem word_wordBytes (w : UInt32) : word (wordBytes w) = w := by
  apply UInt32.toNat_inj.mp
  rw [word, wordBytes, value_bytes, UInt32.toNat_ofNat']
  exact (Nat.mod_mod _ _).trans (Nat.mod_eq_of_lt w.toNat_lt)

theorem wordBytes_ofNat (n : Nat) : wordBytes (.ofNat n) = bytes 4 n := by
  rw [wordBytes, UInt32.toNat_ofNat']
  exact bytes_mod 4 n

theorem wordBytes_word {bs : List UInt8} (h : bs.length = 4) : wordBytes (word bs) = bs := by
  have hlt : value bs < 2 ^ 32 := by
    have := value_lt bs
    rwa [h] at this
  rw [wordBytes, word, UInt32.toNat_ofNat', Nat.mod_eq_of_lt hlt, ← h, bytes_value]

/-- Four bytes are those of a word exactly when they stand for it. -/
theorem word_eq_iff {bs : List UInt8} (h : bs.length = 4) (w : UInt32) :
    word bs = w ↔ bs = wordBytes w := by
  constructor
  · rintro rfl
    exact (wordBytes_word h).symm
  · rintro rfl
    exact word_wordBytes w

/-- The words of a memory; an incomplete word at its end is dropped. -/
def words : List UInt8 → List UInt32
  | a :: b :: c :: d :: rest => word [a, b, c, d] :: words rest
  | _ => []

theorem words_append_of_length {bs rest : List UInt8} (h : bs.length = 4) :
    words (bs ++ rest) = word bs :: words rest := by
  match bs, h with
  | [a, b, c, d], _ => rfl

/-- The words of two memories, the first one a multiple of words long. -/
theorem words_append {n : Nat} {l : List UInt8} (h : l.length = 4 * n) (m : List UInt8) :
    words (l ++ m) = words l ++ words m := by
  induction n generalizing l with
  | zero =>
    rw [List.length_eq_zero_iff.mp h]
    rfl
  | succ n ih =>
    have htake : (l.take 4).length = 4 := by
      rw [List.length_take, h]
      omega
    have hdrop : (l.drop 4).length = 4 * n := by
      rw [List.length_drop, h]
      omega
    rw [← List.take_append_drop 4 l, List.append_assoc, words_append_of_length htake,
      words_append_of_length htake, ih hdrop, List.cons_append]

theorem length_words {n : Nat} {l : List UInt8} (h : l.length = 4 * n) :
    (words l).length = n := by
  induction n generalizing l with
  | zero =>
    rw [List.length_eq_zero_iff.mp h]
    rfl
  | succ n ih =>
    have htake : (l.take 4).length = 4 := by
      rw [List.length_take, h]
      omega
    have hdrop : (l.drop 4).length = 4 * n := by
      rw [List.length_drop, h]
      omega
    rw [← List.take_append_drop 4 l, words_append_of_length htake, List.length_cons, ih hdrop]

def store (ws : List UInt32) : List UInt8 := ws.flatMap wordBytes

theorem length_store (ws : List UInt32) : (store ws).length = 4 * ws.length := by
  induction ws with
  | nil => rfl
  | cons w ws ih =>
    rw [store, List.flatMap_cons, List.length_append, length_wordBytes, List.length_cons]
    have : (ws.flatMap wordBytes).length = 4 * ws.length := ih
    omega

@[simp] theorem words_store (ws : List UInt32) : words (store ws) = ws := by
  induction ws with
  | nil => rfl
  | cons w ws ih =>
    rw [store, List.flatMap_cons, words_append_of_length (length_wordBytes w), word_wordBytes]
    exact congrArg (w :: ·) ih

/-! ## Words of eight bytes -/

def longWord (bs : List UInt8) : UInt64 := UInt64.ofNat (value bs)

def longWordBytes (w : UInt64) : List UInt8 := bytes 8 w.toNat

@[simp] theorem length_longWordBytes (w : UInt64) : (longWordBytes w).length = 8 := length_bytes 8 _

@[simp] theorem longWord_longWordBytes (w : UInt64) : longWord (longWordBytes w) = w := by
  apply UInt64.toNat_inj.mp
  rw [longWord, longWordBytes, value_bytes, UInt64.toNat_ofNat']
  exact (Nat.mod_mod _ _).trans (Nat.mod_eq_of_lt w.toNat_lt)

end Spheres.Library.LittleEndian
