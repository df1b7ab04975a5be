import Spheres.Library.PairMerging
import Spheres.Library.Repeat
import Spheres.Library.StringViews
import Spheres.Qwen.ByteAlphabet

/-!
# The tokenizer

`encode` replaces every byte of the text by a printable character, splits the result
into views of one character each and merges neighbouring views in place: the left one
grows and the right one becomes an empty view that later scans pass over. The views that
are not empty always tile the replaced text, and what they show goes through the rounds
of byte pair encoding on plain lists.

The generated look-ups are composed with the hash of a token, so here they are functions
of the token. Indices stay below the length of a string in memory and do not wrap around.
-/

namespace Spheres.Qwen.Tokenizer

open Library Library.PairMerging
open StringView (null live segments Contiguous)

/-! ## The loops -/

/-- The body of the loop that splits the replaced text, at position `s.1`. -/
def splitRound (replacedText : List UInt8) (s : Nat × List StringView) :
    Outcome (Nat × List StringView) :=
  .ofOption <| (replacedText[s.1]?).map fun c =>
    let size := (useNBytes c % 2 ^ 64).toNat
    (s.1 + size, s.2 ++ [⟨some s.1, size⟩])

/-- The first loop, for at most `fuel` rounds. -/
def split (fuel : Nat) (replacedText : List UInt8) : Outcome (Nat × List StringView) :=
  .repeatUntil (fun s => !(s.1 < replacedText.length)) (fun _ => splitRound replacedText)
    (List.replicate fuel ()) (0, [])

/-- The position of the first token from `k` on that is not empty. -/
def skipEmpty (tokens : List StringView) (k : Nat) : Nat :=
  if h : k < tokens.length then
    if tokens[k].size = 0 then skipEmpty tokens (k + 1) else k
  else k
termination_by tokens.length - k

theorem le_skipEmpty (tokens : List StringView) (k : Nat) : k ≤ skipEmpty tokens k := by
  fun_induction skipEmpty tokens k with
  | case1 k h hempty ih => omega
  | case2 => exact Nat.le_refl _
  | case3 => exact Nat.le_refl _

/-- `best_rank`, `best_ls` and `best_rs`. -/
structure Best where
  rank : Int
  ls : Nat
  rs : Nat

/-- `std::string_view::npos`. -/
def npos : Nat := 2 ^ 64 - 1

section Loops

variable (findInMerge : List UInt8 → Int) (replacedText : List UInt8)

/-- What the scan does with the rank of a pair. -/
def Best.update (best : Best) (rank : Int) (i k : Nat) : Best :=
  if rank ≠ -1 ∧ (best.rank = -1 ∨ rank < best.rank) then ⟨rank, i, k⟩ else best

/-- The scan over the pairs, from the token at position `i` on. -/
def scan (tokens : List StringView) (i : Nat) (best : Best) : Option Best :=
  if h : i < tokens.length then
    let ls := tokens[i]
    let k := skipEmpty tokens (i + 1)
    if hk : k < tokens.length then
      let rs := tokens[k]
      let token : StringView := ⟨ls.data, ls.size + rs.size⟩
      (token.read replacedText).bind fun s => scan tokens k (best.update (findInMerge s) i k)
    else some best
  else some best
termination_by tokens.length - i
decreasing_by
  have := le_skipEmpty tokens (i + 1)
  omega

/-- The left token takes over the right one. -/
def mergeViews (tokens : List StringView) (ls rs : Nat) : Option (List StringView) :=
  (tokens[ls]?).bind fun left => (tokens[rs]?).map fun right =>
    (tokens.set ls ⟨left.data, left.size + right.size⟩).set rs null

/-- The body of the loop `while (changed)`, with the new value of `changed`. -/
def mergeRound (tokens : List StringView) : Option (List StringView × Bool) :=
  (scan findInMerge replacedText tokens 0 ⟨-1, npos, npos⟩).bind fun best =>
    if best.rank ≠ -1 then (mergeViews tokens best.ls best.rs).map fun tokens => (tokens, true)
    else some (tokens, false)

/-- The second loop, for at most `fuel` rounds. -/
def mergeLoop (fuel : Nat) (tokens : List StringView) : Outcome (List StringView × Bool) :=
  .repeatUntil (fun s => !s.2) (fun _ s => .ofOption (mergeRound findInMerge replacedText s.1))
    (List.replicate fuel ()) (tokens, true)

end Loops

def replace (text : List UInt8) : List UInt8 := text.flatMap replaceByte

/-- The tokens that are left after `std::erase_if`, as strings. -/
def segmentation (findInMerge : List UInt8 → Int) (fuel : Nat) (text : List UInt8) :
    Outcome (List (List UInt8)) :=
  if text = [] then .returned []
  else
    (split fuel (replace text)).bind fun s =>
    (mergeLoop findInMerge (replace text) fuel s.2).bind fun m =>
    .ofOption ((live m.1).mapM (StringView.read (replace text)))

def encode (findInMerge getIdForToken : List UInt8 → Int) (fuel : Nat) (text : List UInt8) :
    Outcome (List Int) :=
  (segmentation findInMerge fuel text).bind fun tokens => .returned (tokens.map getIdForToken)

/-- The lists of tokens that `encode` passes through, from the initial split on. -/
inductive Reached (findInMerge : List UInt8 → Int) (text : List UInt8) : List StringView → Prop
  | start {fuel : Nat} {s : Nat × List StringView} (hne : text ≠ [])
      (h : split fuel (replace text) = .returned s) : Reached findInMerge text s.2
  | round {tokens tokens' : List StringView} {changed : Bool}
      (h : Reached findInMerge text tokens)
      (hround : mergeRound findInMerge (replace text) tokens = some (tokens', changed)) :
      Reached findInMerge text tokens'

/-- The rank of a token, where it has one. -/
def rankOf (findInMerge : List UInt8 → Int) (token : List UInt8) : Option Int :=
  if findInMerge token = -1 then none else some (findInMerge token)

/-- Byte pair encoding of the characters of the text, on plain lists. -/
def bytePairEncoding (findInMerge : List UInt8 → Int) (text : List UInt8) : List (List UInt8) :=
  merge (rankOf findInMerge) (text.map replaceByte)

/-! ## The initial split -/

section Split

variable {text : List UInt8} {s : Nat × List StringView}

theorem replace_append (a b : List UInt8) : replace (a ++ b) = replace a ++ replace b :=
  List.flatMap_append

theorem replace_cons (t : UInt8) (a : List UInt8) : replace (t :: a) = replaceByte t ++ replace a :=
  List.flatMap_cons

/-- The codes of the bytes in `done` have been split off. -/
structure Splitting (text done rest : List UInt8) (s : Nat × List StringView) : Prop where
  text_eq : text = done ++ rest
  position : s.1 = (replace done).length
  contiguous : Contiguous 0 s.2 s.1
  nonempty : ∀ v ∈ s.2, v.size ≠ 0
  segments_eq : segments (replace text) s.2 = done.map replaceByte

theorem splitting_start : Splitting text [] text (0, []) :=
  ⟨rfl, rfl, rfl, fun _ hv => absurd hv List.not_mem_nil, rfl⟩

theorem Splitting.round {done rest : List UInt8} {t : UInt8}
    (h : Splitting text done (t :: rest) s) :
    ∃ s', splitRound (replace text) s = .returned s' ∧ Splitting text (done ++ [t]) rest s' ∧
      s.1 < s'.1 := by
  obtain ⟨b, bs, hcode, hlead⟩ := replaceByte_lead t
  have htext : replace text = replace done ++ (replaceByte t ++ replace rest) := by
    rw [h.text_eq, replace_append, replace_cons]
  have hread : (replace text)[s.1]? = some b := by
    rw [htext, h.position, List.getElem?_append_right (Nat.le_refl _), Nat.sub_self, hcode]
    rfl
  have hshow : ((replace text).drop s.1).take (replaceByte t).length = replaceByte t := by
    rw [htext, List.drop_left' h.position.symm, List.take_left' rfl]
  have hpos : 0 < (replaceByte t).length := by
    rw [hcode]
    exact Nat.succ_pos _
  have hne : (replaceByte t).length ≠ 0 := Nat.pos_iff_ne_zero.mp hpos
  refine ⟨(s.1 + (replaceByte t).length, s.2 ++ [⟨some s.1, (replaceByte t).length⟩]), ?_,
    ⟨?_, ?_, ?_, ?_, ?_⟩, Nat.lt_add_of_pos_right hpos⟩
  · rw [splitRound, hread, Option.map_some, hlead]
    rfl
  · rw [h.text_eq, List.append_assoc, List.singleton_append]
  · rw [h.position, replace_append, List.length_append, replace_cons]
    simp only [replace, List.flatMap_nil, List.append_nil]
  · refine StringView.contiguous_append.mpr ⟨s.1, h.contiguous, ?_⟩
    exact (StringView.contiguous_cons hne).mpr ⟨rfl, rfl⟩
  · intro v hv
    rcases List.mem_append.mp hv with hv | hv
    · exact h.nonempty v hv
    · obtain rfl := List.mem_singleton.mp hv
      exact hne
  · rw [StringView.segments_append, h.segments_eq, StringView.segments_cons hne,
      Option.getD_some, hshow, List.map_append, List.map_singleton]
    rfl

theorem Splitting.length_eq {done rest : List UInt8} (h : Splitting text done rest s) :
    (replace text).length = s.1 + (replace rest).length := by
  rw [h.position, h.text_eq, replace_append, List.length_append]

theorem length_le_replace (a : List UInt8) : a.length ≤ (replace a).length := by
  induction a with
  | nil => exact Nat.le_refl 0
  | cons t a ih =>
    obtain ⟨b, bs, hcode, -⟩ := replaceByte_lead t
    rw [replace_cons, hcode, List.length_append, List.length_cons, List.length_cons]
    omega

theorem Splitting.next {done rest : List UInt8} (h : Splitting text done rest s)
    (hlt : s.1 < (replace text).length) :
    ∃ s' done' rest', splitRound (replace text) s = .returned s' ∧
      Splitting text done' rest' s' ∧ s.1 < s'.1 := by
  have hlength := h.length_eq
  cases rest with
  | nil =>
    have hnil : (replace []).length = 0 := rfl
    omega
  | cons t rest =>
    obtain ⟨s', hrun, hs', hnext⟩ := h.round
    exact ⟨s', done ++ [t], rest, hrun, hs', hnext⟩

/-- Where the loop ends, all codes have been split off. -/
theorem Splitting.all {done rest : List UInt8} (h : Splitting text done rest s)
    (hend : ¬ s.1 < (replace text).length) : Splitting text text [] s := by
  have hlength := h.length_eq
  have hle := length_le_replace rest
  obtain rfl : rest = [] := List.length_eq_zero_iff.mp (by omega)
  have htext := h.text_eq
  rw [List.append_nil] at htext
  rwa [← htext] at h

theorem split_returned {fuel : Nat} (h : split fuel (replace text) = .returned s) :
    Splitting text text [] s := by
  have hkeep := Outcome.repeatUntil_returned (fun s => ∃ done rest, Splitting text done rest s)
    (fun s _ s' hs hdone hrun => by
      obtain ⟨done, rest, hs⟩ := hs
      obtain ⟨t, done', rest', ht, hs', -⟩ := hs.next (by simpa using hdone)
      obtain rfl := Outcome.returned.inj (ht.symm.trans hrun)
      exact ⟨done', rest', hs'⟩) ⟨[], text, splitting_start⟩ h
  obtain ⟨⟨done, rest, hs⟩, hdone⟩ := hkeep
  exact hs.all (by simpa using hdone)

/-- The split ends. -/
theorem exists_split (text : List UInt8) {fuel : Nat} (hfuel : (replace text).length ≤ fuel) :
    ∃ s, split fuel (replace text) = .returned s := by
  have hloop : ∃ s, split fuel (replace text) = .returned s ∧
      (∃ done rest, Splitting text done rest s) ∧ (!(s.1 < (replace text).length)) = true := by
    apply Outcome.repeatUntil_total (fun s => ∃ done rest, Splitting text done rest s)
      (fun s => (replace text).length - s.1)
    · rintro s - ⟨done, rest, hs⟩ hdone
      have hlt : s.1 < (replace text).length := by simpa using hdone
      obtain ⟨s', done', rest', hrun, hs', hnext⟩ := hs.next hlt
      exact ⟨s', hrun, ⟨done', rest', hs'⟩, by omega⟩
    · intro s hzero
      simp only [Bool.not_eq_true', decide_eq_false_iff_not]
      omega
    · exact ⟨[], text, splitting_start⟩
    · rw [List.length_replicate]
      exact (Nat.sub_le _ _).trans hfuel
  obtain ⟨s, hrun, -, -⟩ := hloop
  exact ⟨s, hrun⟩

/-- No token of the split is empty, so it has as many as it shows. -/
theorem Splitting.length_tokens {done rest : List UInt8} (h : Splitting text done rest s) :
    s.2.length = done.length := by
  have hlive : live s.2 = s.2 := List.filter_eq_self.mpr fun v hv => decide_eq_true (h.nonempty v hv)
  have hmap := congrArg List.length h.segments_eq
  rwa [segments, hlive, List.length_map, List.length_map] at hmap

end Split

/-! ## The scan -/

section Scan

variable {findInMerge : List UInt8 → Int} {replacedText : List UInt8}
  {A E B rest : List StringView} {l r : StringView}

theorem skipEmpty_append (hE : ∀ v ∈ E, v.size = 0) (hr : r.size ≠ 0) :
    skipEmpty (A ++ (E ++ r :: B)) A.length = A.length + E.length := by
  induction E generalizing A with
  | nil =>
    have hlt : A.length < (A ++ r :: B).length := by simp
    have hget : (A ++ r :: B)[A.length] = r := by simp
    rw [List.nil_append, skipEmpty, dif_pos hlt, if_neg (by rwa [hget])]
    rfl
  | cons v E ih =>
    have hlt : A.length < (A ++ (v :: E ++ r :: B)).length := by simp
    have hget : (A ++ (v :: E ++ r :: B))[A.length] = v := by simp
    have hnext := ih (A := A ++ [v]) fun w hw => hE w (List.mem_cons_of_mem _ hw)
    rw [List.append_assoc, List.singleton_append, List.length_append, List.length_singleton]
      at hnext
    rw [skipEmpty, dif_pos hlt, if_pos (by rw [hget]; exact hE v List.mem_cons_self),
      List.cons_append, hnext, List.length_cons]
    omega

theorem skipEmpty_none (hrest : ∀ v ∈ rest, v.size = 0) :
    skipEmpty (A ++ rest) A.length = (A ++ rest).length := by
  induction rest generalizing A with
  | nil =>
    rw [skipEmpty, dif_neg (by simp), List.append_nil]
  | cons v rest ih =>
    have hlt : A.length < (A ++ v :: rest).length := by simp
    have hget : (A ++ v :: rest)[A.length] = v := by simp
    have hnext := ih (A := A ++ [v]) fun w hw => hrest w (List.mem_cons_of_mem _ hw)
    rw [List.append_assoc, List.singleton_append, List.length_append, List.length_singleton]
      at hnext
    rw [skipEmpty, dif_pos hlt, if_pos (by rw [hget]; exact hrest v List.mem_cons_self), hnext]

/-- The pair of neighbours in a list of tokens, the left one being the `j`-th that is not
empty. -/
inductive PairAt (tokens : List StringView) : Nat → Nat → Nat → Prop
  | intro {A E B : List StringView} {l r : StringView} (htokens : tokens = A ++ l :: (E ++ r :: B))
      (hl : l.size ≠ 0) (hE : ∀ v ∈ E, v.size = 0) (hr : r.size ≠ 0) :
      PairAt tokens A.length (A.length + 1 + E.length) (live A).length

/-- The best pair of the scan is the best one of the plain lists. -/
def Matches (tokens : List StringView) (best : Best) : Option (Int × Nat) → Prop
  | none => best.rank = -1
  | some (rank, j) => best.rank = rank ∧ rank ≠ -1 ∧ PairAt tokens best.ls best.rs j

theorem Matches.update (findInMerge : List UInt8 → Int) {tokens : List StringView} {best : Best}
    {p : Option (Int × Nat)} {i k j : Nat} (token : List UInt8) (h : Matches tokens best p)
    (hpair : PairAt tokens i k j) :
    Matches tokens (best.update (findInMerge token) i k)
      (better p (rankOf findInMerge token) j) := by
  unfold Best.update rankOf
  by_cases hrank : findInMerge token = -1
  · rw [if_neg fun hu => hu.1 hrank, if_pos hrank]
    exact h
  · rw [if_neg hrank]
    cases p with
    | none =>
      rw [if_pos ⟨hrank, Or.inl h⟩]
      exact ⟨rfl, hrank, hpair⟩
    | some q =>
      obtain ⟨hbest, hne, hat⟩ := h
      by_cases hlt : findInMerge token < q.1
      · rw [if_pos ⟨hrank, Or.inr (hbest ▸ hlt)⟩, better, if_pos hlt]
        exact ⟨rfl, hrank, hpair⟩
      · rw [if_neg, better, if_neg hlt]
        · exact ⟨hbest, hne, hat⟩
        · rintro ⟨-, hbest' | hlt'⟩
          · exact hne (hbest ▸ hbest')
          · exact hlt (hbest ▸ hlt')

/-- A pair of neighbours is read as the concatenation of what both show. -/
theorem read_pair (h : Contiguous 0 (A ++ l :: (E ++ r :: B)) replacedText.length)
    (hl : l.size ≠ 0) (hE : ∀ v ∈ E, v.size = 0) (hr : r.size ≠ 0) :
    (⟨l.data, l.size + r.size⟩ : StringView).read replacedText =
      some ((replacedText.drop (l.data.getD 0)).take l.size ++
        (replacedText.drop (r.data.getD 0)).take r.size) := by
  obtain ⟨d, -, hleft, hright, hB⟩ := h.neighbours hl hE hr
  have hle := hB.le
  have hread : (⟨l.data, l.size + r.size⟩ : StringView).read replacedText =
      some ((replacedText.drop d).take (l.size + r.size)) := by
    have hdata : (⟨l.data, l.size + r.size⟩ : StringView).data = some d := hleft
    apply StringView.read_eq hdata
    rw [← Nat.add_assoc]
    exact hle
  rw [hread, hleft, hright, Option.getD_some, Option.getD_some, ← List.drop_drop, ← List.take_add]

theorem scan_last {best : Best} (hrest : ∀ v ∈ rest, v.size = 0) :
    scan findInMerge replacedText (A ++ l :: rest) A.length best = some best := by
  have hlt : A.length < (A ++ l :: rest).length := by simp
  have hskip : skipEmpty (A ++ l :: rest) (A.length + 1) = (A ++ l :: rest).length := by
    have := skipEmpty_none (A := A ++ [l]) hrest
    rwa [List.append_assoc, List.singleton_append, List.length_append, List.length_singleton]
      at this
  rw [scan, dif_pos hlt]
  simp only [hskip, Nat.lt_irrefl, dite_false]

theorem scan_pair {best : Best} (hE : ∀ v ∈ E, v.size = 0) (hr : r.size ≠ 0) :
    scan findInMerge replacedText (A ++ l :: (E ++ r :: B)) A.length best =
      ((⟨l.data, l.size + r.size⟩ : StringView).read replacedText).bind fun token =>
        scan findInMerge replacedText (A ++ l :: (E ++ r :: B)) (A ++ l :: E).length
          (best.update (findInMerge token) A.length (A.length + 1 + E.length)) := by
  have hassoc : A ++ l :: (E ++ r :: B) = (A ++ l :: E) ++ r :: B := by
    rw [List.append_assoc, List.cons_append]
  have hlength : (A ++ l :: E).length = A.length + 1 + E.length := by
    rw [List.length_append, List.length_cons]
    omega
  have hskip : skipEmpty (A ++ l :: (E ++ r :: B)) (A.length + 1) = A.length + 1 + E.length := by
    have := skipEmpty_append (A := A ++ [l]) (B := B) hE hr
    rwa [List.append_assoc, List.singleton_append, List.length_append, List.length_singleton]
      at this
  have hlt : A.length < (A ++ l :: (E ++ r :: B)).length := by
    rw [List.length_append, List.length_cons]
    omega
  have hk : A.length + 1 + E.length < (A ++ l :: (E ++ r :: B)).length := by
    rw [hassoc, List.length_append, hlength, List.length_cons]
    omega
  have hleft : (A ++ l :: (E ++ r :: B))[A.length] = l := List.getElem_of_append rfl rfl
  have hright : (A ++ l :: (E ++ r :: B))[A.length + 1 + E.length] = r :=
    List.getElem_of_append hassoc hlength
  rw [scan, dif_pos hlt]
  simp only [hskip, dif_pos hk, hleft, hright, hlength]

/-- The scan from a token that is not empty goes through the pairs of the plain list. -/
theorem scan_spec {best : Best} {p : Option (Int × Nat)} (hl : l.size ≠ 0)
    (hcontiguous : Contiguous 0 (A ++ l :: rest) replacedText.length)
    (hbest : Matches (A ++ l :: rest) best p) :
    ∃ best', scan findInMerge replacedText (A ++ l :: rest) A.length best = some best' ∧
      Matches (A ++ l :: rest) best' (lowestFrom (rankOf findInMerge) (live A).length
        (segments replacedText (l :: rest)) p) := by
  generalize hn : rest.length = n
  induction n using Nat.strongRecOn generalizing A l rest best p with
  | ind n ih =>
    rcases StringView.exists_live rest with hrest | ⟨E, r, B, rfl, hE, hr⟩
    · refine ⟨best, scan_last hrest, ?_⟩
      rw [StringView.segments_cons hl, StringView.segments_of_empty hrest, lowestFrom]
      · exact hbest
      · intro a b ts h
        cases h
    · have hassoc : A ++ l :: (E ++ r :: B) = (A ++ l :: E) ++ r :: B := by
        rw [List.append_assoc, List.cons_append]
      have hlive : (live (A ++ l :: E)).length = (live A).length + 1 := by
        rw [StringView.live_append, StringView.live_cons hl, StringView.live_of_empty hE,
          List.length_append, List.length_singleton]
      have hsegments : segments replacedText (E ++ r :: B) = segments replacedText (r :: B) := by
        rw [StringView.segments_append, StringView.segments_of_empty hE, List.nil_append]
      have hupdate := hbest.update findInMerge
        ((replacedText.drop (l.data.getD 0)).take l.size ++
          (replacedText.drop (r.data.getD 0)).take r.size) (.intro rfl hl hE hr)
      rw [hassoc] at hupdate hcontiguous
      obtain ⟨best', hscan, hmatches⟩ := ih B.length (by simp at hn; omega) hr hcontiguous hupdate
        rfl
      rw [← hassoc] at hscan hmatches hcontiguous
      refine ⟨best', ?_, ?_⟩
      · rw [scan_pair hE hr, read_pair hcontiguous hl hE hr, Option.bind_some]
        exact hscan
      · rw [StringView.segments_cons hl, hsegments, StringView.segments_cons hr, lowestFrom,
          ← StringView.segments_cons hr, ← hlive]
        exact hmatches

end Scan

/-! ## A round -/

/-- The tokens tile the replaced text, and the first one is not empty. -/
structure Tiled (replacedText : List UInt8) (tokens : List StringView) : Prop where
  head : ∃ l rest, tokens = l :: rest ∧ l.size ≠ 0
  contiguous : Contiguous 0 tokens replacedText.length

section Round

variable {findInMerge : List UInt8 → Int} {replacedText : List UInt8} {tokens : List StringView}

theorem set_append_cons {α : Type*} (A B : List α) (x y : α) :
    (A ++ x :: B).set A.length y = A ++ y :: B := by
  rw [List.set_append_right _ _ (Nat.le_refl _), Nat.sub_self, List.set_cons_zero]

/-- The left one of two views becomes both of them, the right one becomes empty. -/
theorem mergeViews_append (A E B : List StringView) (l r : StringView) :
    mergeViews (A ++ l :: (E ++ r :: B)) A.length (A.length + 1 + E.length) =
      some (A ++ StringView.join l r :: (E ++ null :: B)) := by
  have hassoc : ∀ x y, A ++ x :: (E ++ y :: B) = (A ++ x :: E) ++ y :: B := by
    intro x y
    rw [List.append_assoc, List.cons_append]
  have hlength : ∀ x, (A ++ x :: E).length = A.length + 1 + E.length := by
    intro x
    rw [List.length_append, List.length_cons]
    omega
  have hgetl : (A ++ l :: (E ++ r :: B))[A.length]? = some l := by
    rw [List.getElem?_append_right (Nat.le_refl _), Nat.sub_self]
    rfl
  have hgetr : (A ++ l :: (E ++ r :: B))[A.length + 1 + E.length]? = some r := by
    rw [hassoc, ← hlength l, List.getElem?_append_right (Nat.le_refl _), Nat.sub_self]
    rfl
  rw [mergeViews, hgetl, hgetr, Option.bind_some, Option.map_some, set_append_cons, hassoc,
    ← hlength (StringView.join l r), hassoc]
  exact congrArg some (set_append_cons _ _ _ _)

/-- Merging a pair of views merges the pair of what they show. -/
theorem mergeViews_spec {ls rs j : Nat} (h : Tiled replacedText tokens)
    (hpair : PairAt tokens ls rs j) :
    ∃ tokens', mergeViews tokens ls rs = some tokens' ∧ Tiled replacedText tokens' ∧
      segments replacedText tokens' = mergeAt j (segments replacedText tokens) := by
  obtain @⟨A, E, B, l, r, rfl, hl, hE, hr⟩ := hpair
  refine ⟨_, mergeViews_append A E B l r, ⟨?_, h.contiguous.join hl hE hr⟩, ?_⟩
  · obtain ⟨v, rest, hhead, hv⟩ := h.head
    cases A with
    | nil => exact ⟨_, _, rfl, StringView.size_join_ne hl⟩
    | cons a A =>
      obtain ⟨rfl, -⟩ := List.cons.inj hhead
      exact ⟨a, _, rfl, hv⟩
  · obtain ⟨a, b, hold, hnew⟩ := h.contiguous.segments_join replacedText hl hE hr
    have hj : (segments replacedText A).length = (live A).length := List.length_map _
    rw [hold, hnew, ← hj, mergeAt_append]

/-- A round of the loop is a round of byte pair encoding on plain lists. -/
theorem mergeRound_spec (findInMerge : List UInt8 → Int) (h : Tiled replacedText tokens) :
    match lowest (rankOf findInMerge) (segments replacedText tokens) with
    | none => mergeRound findInMerge replacedText tokens = some (tokens, false)
    | some p => ∃ tokens', mergeRound findInMerge replacedText tokens = some (tokens', true) ∧
        Tiled replacedText tokens' ∧
        segments replacedText tokens' = mergeAt p.2 (segments replacedText tokens) := by
  obtain ⟨l, rest, rfl, hl⟩ := h.head
  have hstart : Matches ([] ++ l :: rest) ⟨-1, npos, npos⟩ none := rfl
  obtain ⟨best, hscan, hbest⟩ :
      ∃ best, scan findInMerge replacedText (l :: rest) 0 ⟨-1, npos, npos⟩ = some best ∧
        Matches (l :: rest) best
          (lowest (rankOf findInMerge) (segments replacedText (l :: rest))) :=
    scan_spec hl h.contiguous hstart
  rw [mergeRound, hscan, Option.bind_some]
  cases hlowest : lowest (rankOf findInMerge) (segments replacedText (l :: rest)) with
  | none =>
    rw [hlowest] at hbest
    exact if_neg (not_not.mpr hbest)
  | some p =>
    rw [hlowest] at hbest
    obtain ⟨hrank, hne, hpair⟩ := hbest
    obtain ⟨tokens', hrun, htiled, hsegments⟩ := mergeViews_spec h hpair
    refine ⟨tokens', ?_, htiled, hsegments⟩
    rw [if_pos (hrank ▸ hne), hrun, Option.map_some]

/-- The loop ends, with what byte pair encoding makes of the tokens. -/
theorem mergeLoop_eq (findInMerge : List UInt8 → Int) {fuel : Nat} (h : Tiled replacedText tokens)
    (hfuel : (segments replacedText tokens).length + 1 ≤ fuel) :
    ∃ m, mergeLoop findInMerge replacedText fuel tokens = .returned m ∧ Tiled replacedText m.1 ∧
      segments replacedText m.1 =
        merge (rankOf findInMerge) (segments replacedText tokens) := by
  let Inv (s : List StringView × Bool) : Prop := Tiled replacedText s.1 ∧
    merge (rankOf findInMerge) (segments replacedText s.1) =
      merge (rankOf findInMerge) (segments replacedText tokens) ∧
    (s.2 = false → lowest (rankOf findInMerge) (segments replacedText s.1) = none)
  have hloop : ∃ m, mergeLoop findInMerge replacedText fuel tokens = .returned m ∧ Inv m ∧
      (!m.2) = true := by
    apply Outcome.repeatUntil_total Inv
      fun s => (segments replacedText s.1).length + if s.2 then 1 else 0
    · rintro ⟨ts, changed⟩ - ⟨htiled, hmerge, -⟩ hdone
      obtain rfl : changed = true := by simpa using hdone
      have hround := mergeRound_spec findInMerge htiled
      cases hlowest : lowest (rankOf findInMerge) (segments replacedText ts) with
      | none =>
        simp only [hlowest] at hround
        refine ⟨(ts, false), by rw [hround]; rfl, ⟨htiled, hmerge, fun _ => hlowest⟩, ?_⟩
        simp
      | some p =>
        simp only [hlowest] at hround
        obtain ⟨ts', hrun, htiled', hsegments⟩ := hround
        have hlength := length_mergeAt (lt_length_of_lowest hlowest)
        refine ⟨(ts', true), by rw [hrun]; rfl, ⟨htiled', ?_, nofun⟩, ?_⟩
        · rw [hsegments, ← merge_of_some hlowest, hmerge]
        · change (segments replacedText ts').length + 1 < (segments replacedText ts).length + 1
          rw [hsegments]
          omega
    · rintro ⟨ts, changed⟩ hzero
      cases changed with
      | false => rfl
      | true => simp at hzero
    · exact ⟨h, rfl, nofun⟩
    · rw [List.length_replicate]
      exact hfuel
  obtain ⟨⟨ts, changed⟩, hrun, ⟨htiled, hmerge, hend⟩, hdone⟩ := hloop
  have hnone := hend (by simpa using hdone)
  exact ⟨(ts, changed), hrun, htiled, by rw [← hmerge, merge_of_none hnone]⟩

end Round

/-! ## The whole tokenizer -/

section Encode

variable {findInMerge : List UInt8 → Int} {text : List UInt8}

theorem Splitting.tiled {s : Nat × List StringView} (h : Splitting text text [] s)
    (hne : text ≠ []) : Tiled (replace text) s.2 := by
  have hcontiguous := h.contiguous
  rw [h.position] at hcontiguous
  refine ⟨?_, hcontiguous⟩
  obtain ⟨v, rest, hs⟩ : ∃ v rest, s.2 = v :: rest := by
    apply List.exists_cons_of_ne_nil
    rintro hnil
    have hlength := h.length_tokens
    rw [hnil] at hlength
    exact hne (List.length_eq_zero_iff.mp hlength.symm)
  exact ⟨v, rest, hs, h.nonempty v (hs ▸ List.mem_cons_self)⟩

/-- Every token is a part of the text, replaced byte by byte. -/
theorem exists_parts (findInMerge : List UInt8 → Int) (text : List UInt8) : ∃ parts : List (List UInt8),
    bytePairEncoding findInMerge text = parts.map replace ∧ parts.flatten = text := by
  have hcodes : text.map replaceByte = (text.map fun t => [t]).map replace := by
    rw [List.map_map]
    apply List.map_congr_left
    intro t _
    exact (List.append_nil _).symm
  obtain ⟨parts, hparts, hflatten⟩ :=
    exists_merge_map (rankOf findInMerge) replace_append (text.map fun t => [t])
  refine ⟨parts, by rw [bytePairEncoding, hcodes, hparts], hflatten.trans ?_⟩
  rw [← List.flatMap_def, List.flatMap_singleton']

theorem flatMap_decode : (bytePairEncoding findInMerge text).flatMap decode = text := by
  obtain ⟨parts, hparts, hflatten⟩ := exists_parts findInMerge text
  have hdecode : ∀ part, decode (replace part) = part := decode_flatMap_replaceByte
  rw [hparts, List.flatMap_map]
  simp only [hdecode]
  rwa [List.flatMap_id']

/-- In every list of tokens that is reached, the tokens tile the replaced text. -/
theorem Reached.tiled {tokens : List StringView} (h : Reached findInMerge text tokens) :
    Tiled (replace text) tokens := by
  induction h with
  | start hne h => exact (split_returned h).tiled hne
  | @round tokens tokens' changed _ hround ih =>
    have hspec := mergeRound_spec findInMerge ih
    cases hlowest : lowest (rankOf findInMerge) (segments (replace text) tokens) with
    | none =>
      simp only [hlowest] at hspec
      obtain ⟨rfl, -⟩ := Prod.mk.inj (Option.some.inj (hspec.symm.trans hround))
      exact ih
    | some p =>
      simp only [hlowest] at hspec
      obtain ⟨ts, hrun, htiled, -⟩ := hspec
      obtain ⟨rfl, -⟩ := Prod.mk.inj (Option.some.inj (hrun.symm.trans hround))
      exact htiled

theorem segmentation_eq {fuel : Nat} (hsplit : (replace text).length ≤ fuel)
    (hmerge : text.length + 1 ≤ fuel) :
    segmentation findInMerge fuel text = .returned (bytePairEncoding findInMerge text) := by
  by_cases hne : text = []
  · subst hne
    rw [segmentation, if_pos rfl, bytePairEncoding, List.map_nil, merge_of_none rfl]
  · obtain ⟨s, hs⟩ := exists_split text hsplit
    have hsplitting := split_returned hs
    have htiled := hsplitting.tiled hne
    have hroom : (segments (replace text) s.2).length + 1 ≤ fuel := by
      rwa [hsplitting.segments_eq, List.length_map]
    obtain ⟨m, hm, htiled', hsegments⟩ := mergeLoop_eq findInMerge htiled hroom
    have hread := htiled'.contiguous.mapM_read (Nat.le_refl (replace text).length)
    rw [segmentation, if_neg hne, hs, Outcome.bind_returned, hm, Outcome.bind_returned, hread,
      Outcome.ofOption_some, hsegments, hsplitting.segments_eq, bytePairEncoding]

end Encode

/-- `encode` ends and amounts to byte pair encoding of the characters of the text; its
tokens are converted back to the text, and on the way the tokens tile the replaced text. -/
theorem encode_refines (findInMerge getIdForToken : List UInt8 → Int) (text : List UInt8) :
    (∃ n, ∀ fuel, n ≤ fuel →
      (∃ s, split fuel (replace text) = .returned s ∧ s.2.length = text.length ∧
        segments (replace text) s.2 = text.map replaceByte) ∧
      segmentation findInMerge fuel text = .returned (bytePairEncoding findInMerge text) ∧
      encode findInMerge getIdForToken fuel text =
        .returned ((bytePairEncoding findInMerge text).map getIdForToken)) ∧
    (bytePairEncoding findInMerge text).flatMap decode = text ∧
    ∀ tokens, Reached findInMerge text tokens →
      Contiguous 0 tokens (replace text).length ∧
        (segments (replace text) tokens).flatten = replace text := by
  refine ⟨⟨(replace text).length + text.length + 1, fun fuel hfuel => ⟨?_, ?_, ?_⟩⟩,
    flatMap_decode, fun tokens h => ⟨h.tiled.contiguous, ?_⟩⟩
  · obtain ⟨s, hs⟩ := exists_split text (by omega : (replace text).length ≤ fuel)
    have hsplitting := split_returned hs
    exact ⟨s, hs, hsplitting.length_tokens, hsplitting.segments_eq⟩
  · exact segmentation_eq (by omega) (by omega)
  · rw [encode, segmentation_eq (by omega) (by omega), Outcome.bind_returned]
  · rw [h.tiled.contiguous.flatten_segments, List.drop_zero, Nat.sub_zero, List.take_length]

end Spheres.Qwen.Tokenizer
