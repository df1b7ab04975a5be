import Mathlib.Algebra.Order.Ring.Nat
import Mathlib.Data.List.Basic

/-!
# JSON

A text is a list of bytes. `value` reads a value from its front and returns what is left,
`text` reads a whole text with blanks around the value. A string is read as its items, one
for every character as it is written, and `decode` is what they stand for. Fuel bounds the
depth and the length of arrays and objects, and more of it changes no result.
-/

namespace Spheres.Library.Json

inductive Value where
  | null
  | bool (b : Bool)
  /-- A number as it is written. -/
  | number (lexeme : List UInt8)
  | string (bytes : List UInt8)
  | array (elements : List Value)
  | object (members : List (List UInt8 × Value))

abbrev Parser (α : Type) := List UInt8 → Option (α × List UInt8)

/-! ## Strings -/

/-- A character of a string: a byte, the byte that an escape of two characters stands for,
or the code unit of an escape of six. -/
inductive Item where
  | byte (b : UInt8)
  | escape (b : UInt8)
  | unicode (unit : Nat)
  deriving DecidableEq

def hexDigit (b : UInt8) : Option Nat :=
  if '0'.toUInt8 ≤ b ∧ b ≤ '9'.toUInt8 then some (b.toNat - '0'.toNat)
  else if 'a'.toUInt8 ≤ b ∧ b ≤ 'f'.toUInt8 then some (b.toNat - 'a'.toNat + 10)
  else if 'A'.toUInt8 ≤ b ∧ b ≤ 'F'.toUInt8 then some (b.toNat - 'A'.toNat + 10)
  else none

def hexUnit (a b c d : UInt8) : Option Nat :=
  (hexDigit a).bind fun a => (hexDigit b).bind fun b => (hexDigit c).bind fun c =>
  (hexDigit d).map fun d => 4096 * a + 256 * b + 16 * c + d

def quotationMark : UInt8 := 34

def reverseSolidus : UInt8 := 92

/-- The byte that stands behind a reverse solidus, and what both stand for. -/
def escaped (b : UInt8) : Option UInt8 :=
  if b = quotationMark ∨ b = reverseSolidus ∨ b = '/'.toUInt8 then some b
  else if b = 'b'.toUInt8 then some 8
  else if b = 'f'.toUInt8 then some 12
  else if b = 'n'.toUInt8 then some 10
  else if b = 'r'.toUInt8 then some 13
  else if b = 't'.toUInt8 then some 9
  else none

/-- The items up to the quotation mark that ends a string. -/
def items : Parser (List Item)
  | [] => none
  | b :: l =>
    if b = quotationMark then some ([], l)
    else if b < 32 then none
    else if b = reverseSolidus then
      match l with
      | [] => none
      | c :: l =>
        if c = 'u'.toUInt8 then
          match l with
          | h₁ :: h₂ :: h₃ :: h₄ :: l => (hexUnit h₁ h₂ h₃ h₄).bind fun unit =>
            (items l).map fun r => (.unicode unit :: r.1, r.2)
          | _ => none
        else (escaped c).bind fun c => (items l).map fun r => (.escape c :: r.1, r.2)
    else (items l).map fun r => (.byte b :: r.1, r.2)

def stringToken : Parser (List Item)
  | [] => none
  | b :: l => if b = quotationMark then items l else none

def utf8 (n : Nat) : List UInt8 :=
  if n < 0x80 then [.ofNat n]
  else if n < 0x800 then [.ofNat (0xC0 + n / 64), .ofNat (0x80 + n % 64)]
  else if n < 0x10000 then
    [.ofNat (0xE0 + n / 4096), .ofNat (0x80 + n / 64 % 64), .ofNat (0x80 + n % 64)]
  else
    [.ofNat (0xF0 + n / 262144), .ofNat (0x80 + n / 4096 % 64), .ofNat (0x80 + n / 64 % 64),
      .ofNat (0x80 + n % 64)]

/-- Two code units that stand for one character. -/
def IsPair (high low : Nat) : Prop :=
  (0xD800 ≤ high ∧ high < 0xDC00) ∧ 0xDC00 ≤ low ∧ low < 0xE000

instance (high low : Nat) : Decidable (IsPair high low) :=
  inferInstanceAs (Decidable (_ ∧ _))

/-- The bytes that items stand for. A half of a pair without the other one stands for
itself. -/
def decode : List Item → List UInt8
  | [] => []
  | .byte b :: items => b :: decode items
  | .escape b :: items => b :: decode items
  | .unicode high :: .unicode low :: items =>
    if IsPair high low then
      utf8 (0x10000 + 0x400 * (high - 0xD800) + (low - 0xDC00)) ++ decode items
    else utf8 high ++ decode (.unicode low :: items)
  | .unicode unit :: items => utf8 unit ++ decode items

/-! ## Numbers -/

def isDigit (b : UInt8) : Bool := '0'.toUInt8 ≤ b ∧ b ≤ '9'.toUInt8

/-- A byte that may stand in a number. -/
def isNumberByte (b : UInt8) : Bool :=
  isDigit b ∨ b ∈ ['+'.toUInt8, '-'.toUInt8, '.'.toUInt8, 'e'.toUInt8, 'E'.toUInt8]

/-- Digits, at least one, and what is behind them. -/
def digits : List UInt8 → Option (List UInt8)
  | [] => none
  | b :: l => if isDigit b then some (l.dropWhile isDigit) else none

def isExponent : List UInt8 → Bool
  | [] => true
  | b :: l =>
    if b = 'e'.toUInt8 ∨ b = 'E'.toUInt8 then
      let signed := l.head? = some '+'.toUInt8 ∨ l.head? = some '-'.toUInt8
      digits (if signed then l.tail else l) = some []
    else false

def isFraction : List UInt8 → Bool
  | [] => true
  | b :: l => if b = '.'.toUInt8 then (digits l).any isExponent else isExponent (b :: l)

/-- The grammar of a number. A zero in front stands alone. -/
def isNumber (lexeme : List UInt8) : Bool :=
  match if lexeme.head? = some '-'.toUInt8 then lexeme.tail else lexeme with
  | [] => false
  | b :: l =>
    if b = '0'.toUInt8 then isFraction l
    else isDigit b && isFraction (l.dropWhile isDigit)

/-- The bytes that may stand in a number, which all have to belong to it. -/
def number : Parser Value := fun l =>
  if isNumber (l.takeWhile isNumberByte) then
    some (.number (l.takeWhile isNumberByte), l.dropWhile isNumberByte)
  else none

/-! ## Values -/

def isSpace (b : UInt8) : Bool := b = 32 ∨ b = 9 ∨ b = 10 ∨ b = 13

def skipSpaces (l : List UInt8) : List UInt8 := l.dropWhile isSpace

/-- The rest of a name, behind its first byte. -/
def literal (rest : List UInt8) (v : Value) : Parser Value := fun l =>
  if rest.isPrefixOf l then some (v, l.drop rest.length) else none

section Lists

variable {α : Type} (close : UInt8) (item : Parser α)

/-- Items, at least one, with commas between them, and the byte that closes the list. -/
def separated : Nat → Parser (List α)
  | 0, _ => none
  | fuel + 1, l => (item (skipSpaces l)).bind fun r =>
    match skipSpaces r.2 with
    | [] => none
    | b :: rest =>
      if b = close then some ([r.1], rest)
      else if b = ','.toUInt8 then
        (separated fuel rest).map fun s => (r.1 :: s.1, s.2)
      else none

/-- The same with the empty list. -/
def bracketed (fuel : Nat) : Parser (List α) := fun l =>
  match skipSpaces l with
  | [] => none
  | b :: rest => if b = close then some ([], rest) else separated close item fuel l

end Lists

def member (value : Parser Value) : Parser (List UInt8 × Value) := fun l =>
  (stringToken l).bind fun key =>
  match skipSpaces key.2 with
  | [] => none
  | b :: rest =>
    if b = ':'.toUInt8 then
      (value (skipSpaces rest)).map fun v => ((decode key.1, v.1), v.2)
    else none

def value : Nat → Parser Value
  | 0, _ => none
  | _ + 1, [] => none
  | fuel + 1, b :: l =>
    if b = quotationMark then (items l).map fun r => (.string (decode r.1), r.2)
    else if b = '['.toUInt8 then
      (bracketed ']'.toUInt8 (value fuel) fuel l).map fun r => (.array r.1, r.2)
    else if b = '{'.toUInt8 then
      (bracketed '}'.toUInt8 (member (value fuel)) fuel l).map fun r => (.object r.1, r.2)
    else if b = 'n'.toUInt8 then literal ['u'.toUInt8, 'l'.toUInt8, 'l'.toUInt8] .null l
    else if b = 't'.toUInt8 then
      literal ['r'.toUInt8, 'u'.toUInt8, 'e'.toUInt8] (.bool true) l
    else if b = 'f'.toUInt8 then
      literal ['a'.toUInt8, 'l'.toUInt8, 's'.toUInt8, 'e'.toUInt8] (.bool false) l
    else number (b :: l)

def text (fuel : Nat) (l : List UInt8) : Option Value :=
  (value fuel (skipSpaces l)).bind fun r => if skipSpaces r.2 = [] then some r.1 else none

/-- A text is a value, with blanks around it. -/
def Parses (l : List UInt8) (v : Value) : Prop := ∃ fuel, text fuel l = some v

/-! ## Items -/

section Items

variable {b c : UInt8} {l rest : List UInt8} {s : List Item}

theorem items_quotationMark (l : List UInt8) : items (quotationMark :: l) = some ([], l) := by
  unfold items
  rfl

theorem items_byte (hquote : b ≠ quotationMark) (hcontrol : ¬ b < 32)
    (hsolidus : b ≠ reverseSolidus) (l : List UInt8) :
    items (b :: l) = (items l).map fun r => (.byte b :: r.1, r.2) := by
  conv_lhs => rw [items.eq_def]
  simp only [if_neg hquote, if_neg hcontrol, if_neg hsolidus]

theorem items_escape (hc : c ≠ 'u'.toUInt8) (l : List UInt8) :
    items (reverseSolidus :: c :: l) =
      (escaped c).bind fun c => (items l).map fun r => (.escape c :: r.1, r.2) := by
  conv_lhs => rw [items.eq_def]
  exact if_neg hc

theorem items_unicode (h₁ h₂ h₃ h₄ : UInt8) (l : List UInt8) :
    items (reverseSolidus :: 'u'.toUInt8 :: h₁ :: h₂ :: h₃ :: h₄ :: l) =
      (hexUnit h₁ h₂ h₃ h₄).bind fun unit =>
        (items l).map fun r => (.unicode unit :: r.1, r.2) := by
  conv_lhs => rw [items.eq_def]
  rfl

/-- A unit that is not a half of a pair stands for its character. -/
theorem decode_unicode {unit : Nat} (h : unit < 0xD800) (is : List Item) :
    decode (.unicode unit :: is) = utf8 unit ++ decode is := by
  have hpair : ∀ low, ¬ IsPair unit low := fun low hpair => absurd hpair.1.1 (Nat.not_le_of_lt h)
  cases is with
  | nil => rfl
  | cons item is =>
    cases item with
    | byte b => rfl
    | escape b => rfl
    | unicode low => rw [decode, if_neg (hpair low)]

/-- What is behind a string does not matter. -/
theorem items_append (h : items l = some (s, rest)) (m : List UInt8) :
    items (l ++ m) = some (s, rest ++ m) := by
  induction l using items.induct generalizing s rest with
  | case1 => cases h
  | case2 l =>
    rw [items_quotationMark] at h
    obtain ⟨rfl, rfl⟩ := Prod.mk.inj (Option.some.inj h)
    exact items_quotationMark _
  | case3 b l hquote hcontrol =>
    rw [items.eq_def] at h
    simp only [if_neg hquote, if_pos hcontrol] at h
    cases h
  | case4 => cases h
  | case5 h₁ h₂ h₃ h₄ l _ _ ih =>
    rw [items_unicode] at h
    obtain ⟨unit, hunit, h⟩ := Option.bind_eq_some_iff.mp h
    obtain ⟨r, hr, heq⟩ := Option.map_eq_some_iff.mp h
    obtain ⟨rfl, rfl⟩ := Prod.mk.inj heq
    simp only [List.cons_append, items_unicode, hunit, Option.bind_some, ih hr, Option.map_some]
  | case6 l hshort _ _ =>
    rw [items.eq_def] at h
    simp only [if_neg (show reverseSolidus ≠ quotationMark by decide),
      if_neg (show ¬ reverseSolidus < 32 by decide), if_true] at h
    cases h
  | case7 c l hc _ _ ih =>
    rw [items_escape hc] at h
    obtain ⟨c', hescaped, h⟩ := Option.bind_eq_some_iff.mp h
    obtain ⟨r, hr, heq⟩ := Option.map_eq_some_iff.mp h
    obtain ⟨rfl, rfl⟩ := Prod.mk.inj heq
    rw [List.cons_append, List.cons_append, items_escape hc, hescaped, Option.bind_some, ih hr,
      Option.map_some]
  | case8 b l hquote hcontrol hsolidus ih =>
    rw [items_byte hquote hcontrol hsolidus] at h
    obtain ⟨r, hr, heq⟩ := Option.map_eq_some_iff.mp h
    obtain ⟨rfl, rfl⟩ := Prod.mk.inj heq
    rw [List.cons_append, items_byte hquote hcontrol hsolidus, ih hr, Option.map_some]

end Items

/-! ## More fuel -/

section Fuel

variable {α : Type} {close : UInt8} {item item' : Parser α} {l : List UInt8} {n m : Nat}

theorem separated_mono (hitem : ∀ l r, item l = some r → item' l = some r) (hle : n ≤ m)
    {r : List α × List UInt8} (h : separated close item n l = some r) :
    separated close item' m l = some r := by
  induction n generalizing m l r with
  | zero => cases h
  | succ n ih =>
    obtain ⟨m, rfl⟩ := Nat.exists_eq_add_of_le' (Nat.le_of_add_left_le hle)
    rw [separated] at h ⊢
    obtain ⟨a, ha, h⟩ := Option.bind_eq_some_iff.mp h
    rw [hitem _ _ ha, Option.bind_some]
    cases hrest : skipSpaces a.2 with
    | nil =>
      rw [hrest] at h
      cases h
    | cons b rest =>
      rw [hrest] at h
      simp only at h ⊢
      by_cases hclose : b = close
      · rwa [if_pos hclose] at h ⊢
      by_cases hcomma : b = ','.toUInt8
      · rw [if_neg hclose, if_pos hcomma] at h ⊢
        obtain ⟨s, hs, rfl⟩ := Option.map_eq_some_iff.mp h
        rw [ih (by omega) hs, Option.map_some]
      · rw [if_neg hclose, if_neg hcomma] at h
        cases h

theorem bracketed_mono (hitem : ∀ l r, item l = some r → item' l = some r) (hle : n ≤ m)
    {r : List α × List UInt8} (h : bracketed close item n l = some r) :
    bracketed close item' m l = some r := by
  rw [bracketed] at h ⊢
  cases hrest : skipSpaces l with
  | nil =>
    rw [hrest] at h
    cases h
  | cons b rest =>
    rw [hrest] at h
    simp only at h ⊢
    split_ifs at h ⊢ with hclose
    · exact h
    · exact separated_mono hitem hle h

theorem member_mono {value value' : Parser Value}
    (hvalue : ∀ l r, value l = some r → value' l = some r) {r : (List UInt8 × Value) × List UInt8}
    (h : member value l = some r) : member value' l = some r := by
  rw [member] at h ⊢
  obtain ⟨key, hkey, h⟩ := Option.bind_eq_some_iff.mp h
  rw [hkey, Option.bind_some]
  cases hrest : skipSpaces key.2 with
  | nil =>
    rw [hrest] at h
    cases h
  | cons b rest =>
    rw [hrest] at h
    simp only at h ⊢
    split_ifs at h ⊢ with hcolon
    obtain ⟨v, hv, rfl⟩ := Option.map_eq_some_iff.mp h
    rw [hvalue _ _ hv, Option.map_some]

/-- More fuel changes no result. -/
theorem value_mono (hle : n ≤ m) {r : Value × List UInt8} (h : value n l = some r) :
    value m l = some r := by
  induction n generalizing m l r with
  | zero => cases h
  | succ n ih =>
    obtain ⟨m, rfl⟩ := Nat.exists_eq_add_of_le' (Nat.le_of_add_left_le hle)
    have hle' : n ≤ m := Nat.le_of_add_le_add_right hle
    cases l with
    | nil => cases h
    | cons b l =>
      rw [value] at h ⊢
      split_ifs at h ⊢
      · exact h
      · obtain ⟨s, hs, rfl⟩ := Option.map_eq_some_iff.mp h
        rw [bracketed_mono (fun _ _ hv => ih hle' hv) hle' hs, Option.map_some]
      · obtain ⟨s, hs, rfl⟩ := Option.map_eq_some_iff.mp h
        rw [bracketed_mono (fun _ _ hv => member_mono (fun _ _ hv => ih hle' hv) hv) hle' hs,
          Option.map_some]
      all_goals exact h

theorem text_mono (hle : n ≤ m) {v : Value} (h : text n l = some v) : text m l = some v := by
  rw [text] at h ⊢
  obtain ⟨r, hr, h⟩ := Option.bind_eq_some_iff.mp h
  rw [value_mono hle hr, Option.bind_some, h]

/-- A text is one value at most. -/
theorem Parses.unique {v w : Value} (hv : Parses l v) (hw : Parses l w) : v = w := by
  obtain ⟨n, hn⟩ := hv
  obtain ⟨m, hm⟩ := hw
  have hn' := text_mono (Nat.le_max_left n m) hn
  rw [text_mono (Nat.le_max_right n m) hm] at hn'
  exact (Option.some.inj hn').symm

end Fuel

/-! ## What is behind a value -/

/-- A number does not go on. -/
def Ends (l : List UInt8) : Prop := ∀ b ∈ l.head?, isNumberByte b = false

/-- What is read is the same where there is more behind it. -/
def Extends {α : Type} (p : Parser α) : Prop :=
  ∀ l a rest m, p l = some (a, rest) → Ends (rest ++ m) → p (l ++ m) = some (a, rest ++ m)

section Append

variable {α : Type} {close : UInt8} {item : Parser α} {b : UInt8} {l rest : List UInt8} {n : Nat}

theorem ends_cons (h : isNumberByte b = false) (l : List UInt8) : Ends (b :: l) := by
  intro c hc
  rwa [← Option.some.inj hc]

theorem skipSpaces_append (h : skipSpaces l = b :: rest) (m : List UInt8) :
    skipSpaces (l ++ m) = b :: (rest ++ m) := by
  have hne : ¬ (l.dropWhile isSpace).isEmpty = true := by
    rw [show l.dropWhile isSpace = b :: rest from h]
    exact Bool.false_ne_true
  rw [skipSpaces, List.dropWhile_append, if_neg hne, show l.dropWhile isSpace = b :: rest from h,
    List.cons_append]

theorem skipSpaces_append_of_nil (h : skipSpaces l = []) (m : List UInt8) :
    skipSpaces (l ++ m) = skipSpaces m := by
  have hempty : (l.dropWhile isSpace).isEmpty = true := by
    rw [show l.dropWhile isSpace = [] from h]
    rfl
  rw [skipSpaces, List.dropWhile_append, if_pos hempty, skipSpaces]

theorem isNumberByte_of_isSpace (h : isSpace b = true) : isNumberByte b = false := by
  rcases of_decide_eq_true h with rfl | rfl | rfl | rfl <;> decide

/-- Blanks end a number, and so does what is behind them. -/
theorem ends_of_skipSpaces (h : skipSpaces l = b :: rest) (hb : isNumberByte b = false)
    (m : List UInt8) : Ends (l ++ m) := by
  cases l with
  | nil => cases h
  | cons c l =>
    apply ends_cons
    by_cases hspace : isSpace c = true
    · exact isNumberByte_of_isSpace hspace
    · rw [skipSpaces, List.dropWhile_cons_of_neg hspace] at h
      rwa [(List.cons.inj h).1]

/-- What is made of a value does not matter. -/
theorem Extends.map {β : Type} (h : Extends item) (g : α → β) :
    Extends fun l => (item l).map fun r => (g r.1, r.2) := by
  intro l a rest m hread hends
  obtain ⟨r, hr, heq⟩ := Option.map_eq_some_iff.mp hread
  obtain ⟨rfl, rfl⟩ := Prod.mk.inj heq
  simp only [h _ _ _ m hr hends, Option.map_some]

theorem items_extends : Extends items := fun _ _ _ m h _ => items_append h m

theorem literal_extends (word : List UInt8) (v : Value) : Extends (literal word v) := by
  intro l a rest m h _
  rw [literal] at h ⊢
  split_ifs at h with hprefix
  obtain ⟨rfl, rfl⟩ := Prod.mk.inj (Option.some.inj h)
  have hword : word <+: l := List.isPrefixOf_iff_prefix.mp hprefix
  have happend : word.isPrefixOf (l ++ m) = true :=
    List.isPrefixOf_iff_prefix.mpr (hword.trans (List.prefix_append l m))
  rw [if_pos happend, List.drop_append_of_le_length hword.length_le]

theorem number_extends : Extends number := by
  intro l a rest m h hends
  rw [number] at h
  split_ifs at h with hnumber
  obtain ⟨rfl, rfl⟩ := Prod.mk.inj (Option.some.inj h)
  have hall : ∀ b ∈ l.takeWhile isNumberByte, isNumberByte b = true :=
    List.all_eq_true.mp List.all_takeWhile
  have hstop : (l.dropWhile isNumberByte ++ m).takeWhile isNumberByte = [] ∧
      (l.dropWhile isNumberByte ++ m).dropWhile isNumberByte = l.dropWhile isNumberByte ++ m := by
    generalize l.dropWhile isNumberByte ++ m = behind at hends ⊢
    cases behind with
    | nil => exact ⟨rfl, rfl⟩
    | cons b behind =>
      have hb : ¬ isNumberByte b = true := Bool.not_eq_true _ ▸ hends b rfl
      exact ⟨List.takeWhile_cons_of_neg hb, List.dropWhile_cons_of_neg hb⟩
  have hsplit : l ++ m = l.takeWhile isNumberByte ++ (l.dropWhile isNumberByte ++ m) := by
    rw [← List.append_assoc, List.takeWhile_append_dropWhile]
  rw [number, hsplit, List.takeWhile_append_of_pos hall, List.dropWhile_append_of_pos hall,
    hstop.1, hstop.2, List.append_nil, if_pos hnumber]

/-- An item is read behind blanks, if it is not empty. -/
theorem item_append (hnil : item [] = none) (hitem : Extends item) {a : α}
    (h : item (skipSpaces l) = some (a, rest)) {m : List UInt8} (hends : Ends (rest ++ m)) :
    item (skipSpaces (l ++ m)) = some (a, rest ++ m) := by
  cases hl : skipSpaces l with
  | nil =>
    rw [hl, hnil] at h
    cases h
  | cons b l' =>
    rw [hl] at h
    rw [skipSpaces_append hl]
    exact hitem _ a rest m h hends

theorem separated_extends (hnil : item [] = none) (hitem : Extends item)
    (hclose : isNumberByte close = false) : Extends (separated close item n) := by
  have hcomma : isNumberByte ','.toUInt8 = false := by decide
  induction n with
  | zero =>
    intro l a rest m h
    cases h
  | succ n ih =>
    intro l a rest m h hends
    rw [separated] at h ⊢
    obtain ⟨r, hr, h⟩ := Option.bind_eq_some_iff.mp h
    cases hrest : skipSpaces r.2 with
    | nil =>
      rw [hrest] at h
      cases h
    | cons b behind =>
      rw [hrest] at h
      simp only at h
      by_cases hb : b = close
      · subst hb
        rw [if_pos rfl] at h
        obtain ⟨rfl, rfl⟩ := Prod.mk.inj (Option.some.inj h)
        rw [item_append hnil hitem hr (ends_of_skipSpaces hrest hclose m), Option.bind_some,
          skipSpaces_append hrest]
        exact if_pos rfl
      by_cases hb' : b = ','.toUInt8
      · subst hb'
        rw [if_neg hb, if_pos rfl] at h
        obtain ⟨s, hs, heq⟩ := Option.map_eq_some_iff.mp h
        obtain ⟨rfl, rfl⟩ := Prod.mk.inj heq
        rw [item_append hnil hitem hr (ends_of_skipSpaces hrest hcomma m), Option.bind_some,
          skipSpaces_append hrest]
        simp only [if_neg hb, if_true, ih _ _ _ m hs hends, Option.map_some]
      · rw [if_neg hb, if_neg hb'] at h
        cases h

theorem bracketed_extends (hnil : item [] = none) (hitem : Extends item)
    (hclose : isNumberByte close = false) : Extends (bracketed close item n) := by
  intro l a rest m h hends
  rw [bracketed] at h ⊢
  cases hl : skipSpaces l with
  | nil =>
    rw [hl] at h
    cases h
  | cons b behind =>
    rw [hl] at h
    rw [skipSpaces_append hl]
    simp only at h ⊢
    by_cases hb : b = close
    · rw [if_pos hb] at h ⊢
      obtain ⟨rfl, rfl⟩ := Prod.mk.inj (Option.some.inj h)
      rfl
    · rw [if_neg hb] at h ⊢
      exact separated_extends hnil hitem hclose _ _ _ m h hends

theorem stringToken_append {s : List Item} (h : stringToken l = some (s, rest)) (m : List UInt8) :
    stringToken (l ++ m) = some (s, rest ++ m) := by
  cases l with
  | nil => cases h
  | cons b l =>
    rw [stringToken] at h
    split_ifs at h with hb
    rw [List.cons_append, stringToken, if_pos hb, items_append h]

theorem member_extends {value : Parser Value} (hnil : value [] = none) (hvalue : Extends value) :
    Extends (member value) := by
  intro l a rest m h hends
  rw [member] at h ⊢
  obtain ⟨key, hkey, h⟩ := Option.bind_eq_some_iff.mp h
  rw [stringToken_append hkey, Option.bind_some]
  cases hrest : skipSpaces key.2 with
  | nil =>
    rw [hrest] at h
    cases h
  | cons b behind =>
    rw [hrest] at h
    rw [skipSpaces_append hrest]
    simp only at h ⊢
    split_ifs at h ⊢ with hcolon
    obtain ⟨v, hv, heq⟩ := Option.map_eq_some_iff.mp h
    obtain ⟨rfl, rfl⟩ := Prod.mk.inj heq
    rw [item_append hnil hvalue hv hends, Option.map_some]

theorem value_nil (n : Nat) : value n [] = none := by
  cases n <;> rfl

theorem value_extends (n : Nat) : Extends (value n) := by
  induction n with
  | zero =>
    intro l a rest m h
    cases h
  | succ n ih =>
    have harray : Extends (bracketed ']'.toUInt8 (value n) n) :=
      bracketed_extends (value_nil n) ih (by decide)
    have hobject : Extends (bracketed '}'.toUInt8 (member (value n)) n) :=
      bracketed_extends rfl (member_extends (value_nil n) ih) (by decide)
    intro l a rest m h hends
    cases l with
    | nil => cases h
    | cons b l =>
      rw [List.cons_append]
      rw [value] at h ⊢
      split_ifs at h ⊢
      · exact items_extends.map (fun s => Value.string (decode s)) l a rest m h hends
      · exact harray.map Value.array l a rest m h hends
      · exact hobject.map Value.object l a rest m h hends
      · exact literal_extends _ _ _ _ _ m h hends
      · exact literal_extends _ _ _ _ _ m h hends
      · exact literal_extends _ _ _ _ _ m h hends
      · exact number_extends _ _ _ m h hends

/-- A value with blanks around it, as a part of a text. -/
theorem value_of_text {v : Value} (h : text n l = some v) {m : List UInt8} (hends : Ends m) :
    ∃ rest, value n (skipSpaces (l ++ m)) = some (v, rest) ∧ skipSpaces rest = skipSpaces m := by
  rw [text] at h
  obtain ⟨r, hr, h⟩ := Option.bind_eq_some_iff.mp h
  split_ifs at h with hrest
  obtain rfl := Option.some.inj h
  have hends' : Ends (r.2 ++ m) := by
    cases hbehind : r.2 with
    | nil => exact hends
    | cons b behind =>
      apply ends_cons
      apply isNumberByte_of_isSpace
      by_contra hspace
      rw [hbehind, skipSpaces, List.dropWhile_cons_of_neg hspace] at hrest
      cases hrest
  exact ⟨r.2 ++ m, item_append (value_nil n) (value_extends n) hr hends',
    skipSpaces_append_of_nil hrest m⟩

end Append

/-! ## Names without escapes -/

/-- A byte that stands for itself in a string. -/
def Unescaped (b : UInt8) : Prop := b ≠ quotationMark ∧ b ≠ reverseSolidus ∧ ¬ b < 32

instance (b : UInt8) : Decidable (Unescaped b) := inferInstanceAs (Decidable (_ ∧ _))

section Names

variable {key : List UInt8}

theorem items_unescaped (hkey : ∀ b ∈ key, Unescaped b) (l : List UInt8) :
    items (key ++ quotationMark :: l) = some (key.map .byte, l) := by
  induction key with
  | nil => exact items_quotationMark l
  | cons b key ih =>
    obtain ⟨hquote, hsolidus, hcontrol⟩ := hkey b List.mem_cons_self
    rw [List.cons_append, items_byte hquote hcontrol hsolidus,
      ih fun c hc => hkey c (List.mem_cons_of_mem _ hc), Option.map_some, List.map_cons]

theorem decode_byte (bs : List UInt8) : decode (bs.map .byte) = bs := by
  induction bs with
  | nil => rfl
  | cons b bs ih => rw [List.map_cons, decode, ih]

/-- A name, a colon and a value. -/
theorem member_unescaped (hkey : ∀ b ∈ key, Unescaped b) {n : Nat} {v : Value} {l m : List UInt8}
    (h : text n l = some v) (hends : Ends m) :
    ∃ rest, member (value n) (quotationMark :: (key ++ quotationMark :: ':'.toUInt8 :: (l ++ m))) =
      some ((key, v), rest) ∧ skipSpaces rest = skipSpaces m := by
  obtain ⟨rest, hvalue, hrest⟩ := value_of_text h hends
  have hcolon : skipSpaces (':'.toUInt8 :: (l ++ m)) = ':'.toUInt8 :: (l ++ m) := rfl
  refine ⟨rest, ?_, hrest⟩
  rw [member, stringToken, if_pos rfl, items_unescaped hkey, Option.bind_some]
  simp only [hcolon, if_true, hvalue, Option.map_some, decode_byte]

end Names

/-! ## Objects -/

section Objects

variable {close : UInt8} {α : Type} {item : Parser α} {n : Nat} {l rest behind : List UInt8} {a : α}

theorem separated_last (hitem : item (skipSpaces l) = some (a, rest))
    (hrest : skipSpaces rest = close :: behind) :
    separated close item (n + 1) l = some ([a], behind) := by
  rw [separated, hitem, Option.bind_some, hrest]
  exact if_pos rfl

theorem separated_comma (hclose : ','.toUInt8 ≠ close)
    (hitem : item (skipSpaces l) = some (a, rest))
    (hrest : skipSpaces rest = ','.toUInt8 :: behind) :
    separated close item (n + 1) l =
      (separated close item n behind).map fun s => (a :: s.1, s.2) := by
  rw [separated, hitem, Option.bind_some, hrest]
  exact (if_neg hclose).trans (if_pos rfl)

theorem separated_congr {l' : List UInt8} (h : skipSpaces l = skipSpaces l') :
    separated close item n l = separated close item n l' := by
  cases n with
  | zero => rfl
  | succ n => rw [separated, separated, h]

theorem bracketed_of_ne {b : UInt8} (hl : skipSpaces l = b :: rest) (hb : b ≠ close) :
    bracketed close item n l = separated close item n l := by
  rw [bracketed, hl]
  exact if_neg hb

/-- An object is a text of its own, with blanks behind it. -/
theorem parses_object {members : List (List UInt8 × Value)}
    (h : bracketed '}'.toUInt8 (member (value n)) n l = some (members, rest))
    (hrest : skipSpaces rest = []) : Parses ('{'.toUInt8 :: l) (.object members) := by
  have hvalue : value (n + 1) ('{'.toUInt8 :: l) =
      (bracketed '}'.toUInt8 (member (value n)) n l).map fun r => (.object r.1, r.2) := rfl
  have hstart : skipSpaces ('{'.toUInt8 :: l) = '{'.toUInt8 :: l := rfl
  exact ⟨n + 1, by rw [text, hstart, hvalue, h, Option.map_some, Option.bind_some, if_pos hrest]⟩

end Objects

end Spheres.Library.Json
