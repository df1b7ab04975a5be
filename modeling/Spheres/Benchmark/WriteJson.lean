import Spheres.Library.Json

/-!
# The metrics of a run

`quote` writes a string as a string of JSON, byte by byte, and `write_json` writes fields
as the members of an object. A value is written as it is given, so that the text is JSON
where the values are.
-/

namespace Spheres.Benchmark

open Library Library.Json

/-! ## Strings -/

def hex : List UInt8 :=
  ['0', '1', '2', '3', '4', '5', '6', '7', '8', '9', 'a', 'b', 'c', 'd', 'e', 'f'].map Char.toUInt8

/-- The body of the loop of `quote`: what is added for a character. -/
def escape (character : UInt8) : List UInt8 :=
  if character = quotationMark then [reverseSolidus, quotationMark]
  else if character = reverseSolidus then [reverseSolidus, reverseSolidus]
  else if character = 8 then [reverseSolidus, 'b'.toUInt8]
  else if character = 12 then [reverseSolidus, 'f'.toUInt8]
  else if character = 10 then [reverseSolidus, 'n'.toUInt8]
  else if character = 13 then [reverseSolidus, 'r'.toUInt8]
  else if character = 9 then [reverseSolidus, 't'.toUInt8]
  else if character < 0x20 then
    [reverseSolidus, 'u'.toUInt8, '0'.toUInt8, '0'.toUInt8,
      hex.getD (character >>> 4).toNat 0, hex.getD (character &&& 0x0f).toNat 0]
  else [character]

def quote (value : List UInt8) : List UInt8 :=
  quotationMark :: (value.flatMap escape ++ [quotationMark])

/-! ## The file -/

/-- What the body of the loop of `write_json` writes for the field at index `field.2`. -/
def writeField (size : Nat) (field : (List UInt8 × List UInt8) × Nat) : List UInt8 :=
  32 :: 32 :: quotationMark :: (field.1.1 ++ quotationMark :: ':'.toUInt8 :: 32 :: (field.1.2 ++
    if field.2 + 1 = size then [10] else [','.toUInt8, 10]))

def jsonText (fields : List (List UInt8 × List UInt8)) : List UInt8 :=
  '{'.toUInt8 :: 10 :: (fields.zipIdx.flatMap (writeField fields.length) ++ ['}'.toUInt8, 10])

/-- The text that is written to the file at a path, if that can be opened. -/
def writeJson (canOpen : String → Bool) (path : String)
    (fields : List (List UInt8 × List UInt8)) : Except String (List UInt8) :=
  if canOpen path then .ok (jsonText fields) else .error ("failed to write " ++ path)

/-! ## One character -/

/-- The digits of a control character stand for it. -/
theorem hexUnit_control {c : UInt8} (h : c < 0x20) :
    hexUnit '0'.toUInt8 '0'.toUInt8 (hex.getD (c >>> 4).toNat 0) (hex.getD (c &&& 0x0f).toNat 0) =
      some c.toNat := by
  have hall : ∀ n < 32, hexUnit '0'.toUInt8 '0'.toUInt8
      (hex.getD (UInt8.ofNat n >>> 4).toNat 0) (hex.getD (UInt8.ofNat n &&& 0x0f).toNat 0) =
        some n := by decide +kernel
  have hc := hall c.toNat (UInt8.lt_iff_toNat_lt.mp h)
  rwa [UInt8.ofNat_toNat] at hc

/-- A character is written in one of three forms. -/
theorem escape_cases (c : UInt8) :
    (∃ d, escape c = [reverseSolidus, d] ∧ d ≠ 'u'.toUInt8 ∧ escaped d = some c) ∨
      (c < 0x20 ∧ escape c = [reverseSolidus, 'u'.toUInt8, '0'.toUInt8, '0'.toUInt8,
        hex.getD (c >>> 4).toNat 0, hex.getD (c &&& 0x0f).toNat 0]) ∨
      escape c = [c] ∧ Unescaped c := by
  unfold escape
  split_ifs with hquote hsolidus h₃ h₄ h₅ h₆ h₇ hcontrol
  · exact Or.inl ⟨quotationMark, rfl, by decide, by rw [hquote]; rfl⟩
  · exact Or.inl ⟨reverseSolidus, rfl, by decide, by rw [hsolidus]; rfl⟩
  · exact Or.inl ⟨'b'.toUInt8, rfl, by decide, by rw [h₃]; rfl⟩
  · exact Or.inl ⟨'f'.toUInt8, rfl, by decide, by rw [h₄]; rfl⟩
  · exact Or.inl ⟨'n'.toUInt8, rfl, by decide, by rw [h₅]; rfl⟩
  · exact Or.inl ⟨'r'.toUInt8, rfl, by decide, by rw [h₆]; rfl⟩
  · exact Or.inl ⟨'t'.toUInt8, rfl, by decide, by rw [h₇]; rfl⟩
  · exact Or.inr (Or.inl ⟨hcontrol, rfl⟩)
  · exact Or.inr (Or.inr ⟨rfl, hquote, hsolidus, hcontrol⟩)

/-- What is written for a character is read as one item, whatever is behind it, and the
item stands for the character. -/
theorem exists_item (c : UInt8) :
    ∃ item, (∀ l, items (escape c ++ l) = (items l).map fun r => (item :: r.1, r.2)) ∧
      ∀ is, decode (item :: is) = c :: decode is := by
  rcases escape_cases c with ⟨d, hescape, hd, hescaped⟩ | ⟨hcontrol, hescape⟩ | ⟨hescape, hquote,
    hsolidus, hcontrol⟩
  · refine ⟨.escape c, fun l => ?_, fun is => rfl⟩
    rw [hescape, List.cons_append, List.singleton_append, items_escape hd, hescaped,
      Option.bind_some]
  · refine ⟨.unicode c.toNat, fun l => ?_, fun is => ?_⟩
    · rw [hescape]
      simp only [List.cons_append, List.nil_append, items_unicode, hexUnit_control hcontrol,
        Option.bind_some]
    · have hlt := UInt8.lt_iff_toNat_lt.mp hcontrol
      have hsmall : c.toNat < 0x80 := Nat.lt_trans hlt (by decide)
      rw [decode_unicode (Nat.lt_trans hlt (by decide)), utf8, if_pos hsmall, UInt8.ofNat_toNat,
        List.singleton_append]
  · refine ⟨.byte c, fun l => ?_, fun is => rfl⟩
    rw [hescape, List.singleton_append, items_byte hquote hcontrol hsolidus]

theorem escape_ge (c : UInt8) : ∀ b ∈ escape c, (0x20 : UInt8) ≤ b := by
  have hall : ∀ n < 256, ∀ b ∈ escape (.ofNat n), (0x20 : UInt8) ≤ b := by decide +kernel
  have hc := hall c.toNat c.toNat_lt
  rwa [UInt8.ofNat_toNat] at hc

/-! ## A string -/

theorem exists_items (s : List UInt8) :
    ∃ is, (∀ l, items (s.flatMap escape ++ quotationMark :: l) = some (is, l)) ∧ decode is = s := by
  induction s with
  | nil => exact ⟨[], items_quotationMark, rfl⟩
  | cons c s ih =>
    obtain ⟨is, hitems, hdecode⟩ := ih
    obtain ⟨item, hitem, hdecode'⟩ := exists_item c
    refine ⟨item :: is, fun l => ?_, ?_⟩
    · rw [List.flatMap_cons, List.append_assoc, hitem, hitems, Option.map_some]
    · rw [hdecode', hdecode]

/-- A string that is quoted is a token, whatever is behind it, and stands for the string. -/
theorem stringToken_quote (s rest : List UInt8) :
    ∃ is, stringToken (quote s ++ rest) = some (is, rest) ∧ decode is = s := by
  obtain ⟨is, hitems, hdecode⟩ := exists_items s
  refine ⟨is, ?_, hdecode⟩
  rw [quote, List.cons_append, List.append_assoc, List.singleton_append, stringToken, if_pos rfl,
    hitems]

theorem quote_ge (s : List UInt8) : ∀ b ∈ quote s, (0x20 : UInt8) ≤ b := by
  intro b hb
  rw [quote, List.mem_cons, List.mem_append, List.mem_flatMap, List.mem_singleton] at hb
  rcases hb with rfl | ⟨c, -, hc⟩ | rfl
  · decide
  · exact escape_ge c b hc
  · decide

/-! ## An object -/

/-- A field whose key needs no escaping and whose value is a JSON value. -/
structure JsonField (field : List UInt8 × List UInt8) (member : List UInt8 × Value) : Prop where
  key : field.1 = member.1
  unescaped : ∀ b ∈ field.1, Unescaped b
  value : Parses field.2 member.2

section Object

variable {fields : List (List UInt8 × List UInt8)} {members : List (List UInt8 × Value)}

/-- What is written for a field is read as its member, and the separator is left. -/
theorem member_writeField {field : List UInt8 × List UInt8} {entry : List UInt8 × Value}
    (h : JsonField field entry) (i size : Nat) (tail : List UInt8) :
    ∃ n rest, member (value n) (skipSpaces (writeField size (field, i) ++ tail)) =
        some (entry, rest) ∧
      skipSpaces rest =
        skipSpaces ((if i + 1 = size then [10] else [','.toUInt8, 10]) ++ tail) := by
  obtain ⟨key, bytes⟩ := field
  obtain ⟨key', v⟩ := entry
  obtain ⟨rfl, hkey, n, hvalue⟩ := h
  replace hvalue : text n (32 :: bytes) = some v := hvalue
  have hends : Ends ((if i + 1 = size then [10] else [','.toUInt8, 10]) ++ tail) := by
    split
    · exact ends_cons (by decide) _
    · exact ends_cons (by decide) _
  obtain ⟨rest, hmember, hrest⟩ := member_unescaped hkey hvalue hends
  have htext : writeField size ((key, bytes), i) ++ tail =
      32 :: 32 :: quotationMark :: (key ++ quotationMark :: ':'.toUInt8 :: (32 :: bytes ++
        ((if i + 1 = size then [10] else [','.toUInt8, 10]) ++ tail))) := by
    rw [writeField]
    simp only [List.cons_append, List.append_assoc]
  refine ⟨n, rest, ?_, hrest⟩
  rw [htext]
  exact hmember

/-- The fields from some index on, with the brace behind them. -/
theorem separated_fields (h : List.Forall₂ JsonField fields members) (hne : fields ≠ [])
    {i size : Nat} (hsize : i + fields.length = size) :
    ∃ fuel, separated '}'.toUInt8 (member (value fuel)) fuel
      ((fields.zipIdx i).flatMap (writeField size) ++ ['}'.toUInt8, 10]) =
        some (members, [10]) := by
  induction h generalizing i with
  | nil => exact absurd rfl hne
  | @cons field entry fields members hfield hfields ih =>
    obtain ⟨tail, htail⟩ : ∃ tail, tail =
        (fields.zipIdx (i + 1)).flatMap (writeField size) ++ ['}'.toUInt8, 10] := ⟨_, rfl⟩
    obtain ⟨n, rest, hmember, hrest⟩ := member_writeField hfield i size tail
    rw [List.zipIdx_cons, List.flatMap_cons, List.append_assoc, ← htail]
    cases fields with
    | nil =>
      cases hfields
      subst htail
      have hlast : i + 1 = size := hsize
      rw [if_pos hlast] at hrest
      exact ⟨n + 1, separated_last (member_mono (fun _ _ => value_mono (Nat.le_succ n)) hmember)
        hrest⟩
    | cons next fields =>
      have hmore : i + 1 + (next :: fields).length = size := by
        rw [← hsize, List.length_cons, List.length_cons, List.length_cons]
        omega
      have hcomma : i + 1 ≠ size := by
        rw [List.length_cons] at hmore
        omega
      rw [if_neg hcomma] at hrest
      obtain ⟨fuel, hfuel⟩ := ih (List.cons_ne_nil _ _) hmore
      rw [← htail] at hfuel
      let most := max n fuel
      have hmore' : ∀ {k}, k ≤ most → ∀ l r, member (value k) l = some r →
          member (value (most + 1)) l = some r :=
        fun hk _ _ => member_mono fun _ _ => value_mono (Nat.le_succ_of_le hk)
      have hline : skipSpaces (10 :: tail) = skipSpaces tail := rfl
      have hbehind : separated '}'.toUInt8 (member (value (most + 1))) most (10 :: tail) =
          some (members, [10]) :=
        (separated_congr hline).trans
          (separated_mono (hmore' (Nat.le_max_right n fuel)) (Nat.le_max_right n fuel) hfuel)
      refine ⟨most + 1, ?_⟩
      rw [separated_comma (by decide) (hmore' (Nat.le_max_left n fuel) _ _ hmember) hrest]
      exact congrArg (Option.map _) hbehind

/-- The text of fields is an object with them as its members. -/
theorem jsonText_parses (h : List.Forall₂ JsonField fields members) :
    Parses (jsonText fields) (.object members) := by
  cases hfields : fields with
  | nil =>
    subst hfields
    cases h
    exact ⟨1, rfl⟩
  | cons field rest =>
    obtain ⟨fuel, hfuel⟩ := separated_fields h (hfields ▸ List.cons_ne_nil field rest)
      (Nat.zero_add fields.length)
    rw [← hfields, jsonText]
    obtain ⟨written, hwritten⟩ : ∃ written, written =
        fields.zipIdx.flatMap (writeField fields.length) ++ ['}'.toUInt8, 10] := ⟨_, rfl⟩
    obtain ⟨behind, hstart⟩ : ∃ behind, skipSpaces (10 :: written) = quotationMark :: behind := by
      rw [hwritten, hfields, List.zipIdx_cons]
      exact ⟨_, rfl⟩
    rw [← hwritten] at hfuel ⊢
    have hbracketed : bracketed '}'.toUInt8 (member (value fuel)) fuel (10 :: written) =
        some (members, [10]) := by
      rw [bracketed_of_ne hstart (by decide), ← hfuel]
      exact separated_congr rfl
    exact parses_object hbracketed rfl

end Object

/-- What is quoted is one string, with no control character in it, that stands for what was
quoted, and what is written is one object with the fields as its members. -/
theorem quote_writeJson (s rest : List UInt8) {canOpen : String → Bool} {path : String}
    {fields : List (List UInt8 × List UInt8)} {members : List (List UInt8 × Value)}
    (hopen : canOpen path = true) (h : List.Forall₂ JsonField fields members) :
    ((∀ b ∈ quote s, (0x20 : UInt8) ≤ b) ∧
        ∃ is, stringToken (quote s ++ rest) = some (is, rest) ∧ decode is = s) ∧
      ∃ text, writeJson canOpen path fields = .ok text ∧
        ∀ v, Parses text v ↔ v = .object members := by
  refine ⟨⟨quote_ge s, stringToken_quote s rest⟩, jsonText fields, if_pos hopen, fun v => ?_⟩
  constructor
  · intro hv
    exact hv.unique (jsonText_parses h)
  · rintro rfl
    exact jsonText_parses h

/-- A field whose value is a string with a quotation mark, a line feed and a zero. -/
theorem quote_writeJson_single :
    ∃ text, writeJson (fun _ => true) "metrics.json" [([107], quote [34, 10, 0])] = .ok text ∧
      Parses text (.object [([107], .string [34, 10, 0])]) := by
  have hkey : ∀ b ∈ [(107 : UInt8)], Unescaped b := by
    intro b hb
    obtain rfl := List.mem_singleton.mp hb
    decide
  obtain ⟨-, text, hwrite, htext⟩ := @quote_writeJson [] [] (fun _ => true) "metrics.json"
    [([107], quote [34, 10, 0])] [([107], .string [34, 10, 0])] rfl
    (.cons ⟨rfl, hkey, 1, rfl⟩ .nil)
  exact ⟨text, hwrite, (htext _).mpr rfl⟩

end Spheres.Benchmark
