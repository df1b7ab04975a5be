import Mathlib.Algebra.BigOperators.Group.Finset.Basic
import Mathlib.Data.Multiset.Sort
import Spheres.Library.OrderStatistics

/-!
# Keeping the entries with the smallest keys

`IsSmallest key k sel all` says that `sel` is a choice of `k` entries of `all`
with the smallest keys. A bounded selection that reads its input piece by
piece keeps a weaker and compositional property, `CoversExcept`: every entry
left out has `k` kept entries at or below it, or was left out for the reason
`pruned`. Coverings of parts add up to a covering of the whole, an entry
pruned beyond a threshold that `k` entries meet needs no excuse once the whole
is known, and the `k` smallest entries of a covering are the `k` smallest of
everything.
-/

namespace Spheres.Library.Selection

variable {α κ : Type*} [LinearOrder κ] (key : α → κ)

/-- `sel` consists of `k` entries of `all` (all of them if there are fewer)
and no entry left out has a smaller key. -/
def IsSmallest (k : Nat) (sel all : Multiset α) : Prop :=
  sel.card = min k all.card ∧
    ∃ rest, all = sel + rest ∧ ∀ x ∈ sel, ∀ y ∈ rest, key x ≤ key y

/-- Every entry of `all` missing from `kept` has `k` kept entries at or below
it, or was left out because of `pruned`. -/
def CoversExcept (pruned : α → Prop) (k : Nat) (kept all : Multiset α) : Prop :=
  ∃ rest, all = kept + rest ∧
    ∀ y ∈ rest, k ≤ kept.countP (fun x => key x ≤ key y) ∨ pruned y

/-- A covering without excuses. -/
def Covers (k : Nat) (kept all : Multiset α) : Prop :=
  CoversExcept key (fun _ => False) k kept all

variable {key}

theorem CoversExcept.le {pruned : α → Prop} {k : Nat} {kept all : Multiset α}
    (h : CoversExcept key pruned k kept all) : kept ≤ all := by
  obtain ⟨rest, rfl, -⟩ := h
  exact Multiset.le_add_right _ _

theorem coversExcept_zero (pruned : α → Prop) (k : Nat) : CoversExcept key pruned k 0 0 :=
  ⟨0, by simp, by simp⟩

/-- Parts selected separately cover the whole together. -/
theorem CoversExcept.add {pruned : α → Prop} {k : Nat} {kept₁ all₁ kept₂ all₂ : Multiset α}
    (h₁ : CoversExcept key pruned k kept₁ all₁) (h₂ : CoversExcept key pruned k kept₂ all₂) :
    CoversExcept key pruned k (kept₁ + kept₂) (all₁ + all₂) := by
  obtain ⟨rest₁, rfl, hr₁⟩ := h₁
  obtain ⟨rest₂, rfl, hr₂⟩ := h₂
  refine ⟨rest₁ + rest₂, add_add_add_comm _ _ _ _, ?_⟩
  intro y hy
  rcases Multiset.mem_add.mp hy with hy | hy
  · refine (hr₁ y hy).imp_left fun h => h.trans ?_
    rw [Multiset.countP_add]
    exact Nat.le_add_right _ _
  · refine (hr₂ y hy).imp_left fun h => h.trans ?_
    rw [Multiset.countP_add]
    exact Nat.le_add_left _ _

theorem coversExcept_sum {ι : Type*} {pruned : α → Prop} {k : Nat} {kept all : ι → Multiset α}
    (s : Finset ι) (h : ∀ i ∈ s, CoversExcept key pruned k (kept i) (all i)) :
    CoversExcept key pruned k (∑ i ∈ s, kept i) (∑ i ∈ s, all i) := by
  classical
  induction s using Finset.induction_on with
  | empty => simpa using coversExcept_zero pruned k
  | insert i s hi ih =>
    rw [Finset.sum_insert hi, Finset.sum_insert hi]
    exact (h i (Finset.mem_insert_self i s)).add
      (ih fun j hj => h j (Finset.mem_insert_of_mem hj))

/-! ## One entry at a time -/

/-- An entry that is kept. -/
theorem CoversExcept.keep {pruned : α → Prop} {k : Nat} {kept all : Multiset α} (x : α)
    (h : CoversExcept key pruned k kept all) :
    CoversExcept key pruned k (x ::ₘ kept) (x ::ₘ all) := by
  have hx : CoversExcept key pruned k {x} {x} := ⟨0, by simp, by simp⟩
  simpa only [Multiset.singleton_add] using hx.add h

/-- Entries that are passed over because each has `k` kept entries at or below
it, or for the reason `pruned`. -/
theorem CoversExcept.skip {pruned : α → Prop} {k : Nat} {kept all : Multiset α} (ys : Multiset α)
    (h : CoversExcept key pruned k kept all)
    (hys : ∀ y ∈ ys, k ≤ kept.countP (fun x => key x ≤ key y) ∨ pruned y) :
    CoversExcept key pruned k kept (ys + all) := by
  obtain ⟨rest, rfl, hr⟩ := h
  refine ⟨ys + rest, add_left_comm _ _ _, ?_⟩
  intro y hy
  rcases Multiset.mem_add.mp hy with hy | hy
  · exact hys y hy
  · exact hr y hy

theorem countP_mono_pred {p q : α → Prop} [DecidablePred p] [DecidablePred q] {s : Multiset α}
    (h : ∀ x, p x → q x) : s.countP p ≤ s.countP q := by
  rw [Multiset.countP_eq_card_filter, Multiset.countP_eq_card_filter]
  exact Multiset.card_le_card (Multiset.monotone_filter_right s h)

/-- An entry that takes the place of the largest of `k` kept ones. -/
theorem CoversExcept.replace {pruned : α → Prop} {k : Nat} {kept all : Multiset α} {x top : α}
    (h : CoversExcept key pruned k (top ::ₘ kept) all) (hcard : (top ::ₘ kept).card = k)
    (hmax : ∀ z ∈ kept, key z ≤ key top) (hx : key x ≤ key top) :
    CoversExcept key pruned k (x ::ₘ kept) (x ::ₘ all) := by
  obtain ⟨rest, rfl, hr⟩ := h
  have hcard' : (x ::ₘ kept).card = k := by simpa using hcard
  have hle : ∀ z ∈ x ::ₘ kept, key z ≤ key top := by
    intro z hz
    rcases Multiset.mem_cons.mp hz with rfl | hz
    · exact hx
    · exact hmax z hz
  refine ⟨top ::ₘ rest, ?_, ?_⟩
  · rw [Multiset.cons_add, Multiset.cons_add, Multiset.add_cons, Multiset.cons_swap]
  · intro y hy
    rcases Multiset.mem_cons.mp hy with rfl | hy
    · exact Or.inl (by rw [Multiset.countP_eq_card.mpr hle, hcard'])
    · refine (hr y hy).imp_left fun hk => ?_
      have hall : (top ::ₘ kept).countP (fun z => key z ≤ key y) = (top ::ₘ kept).card :=
        le_antisymm (Multiset.countP_le_card _ _) (by omega)
      have htop := Multiset.countP_eq_card.mp hall top (Multiset.mem_cons_self _ _)
      rw [Multiset.countP_eq_card.mpr fun z hz => (hle z hz).trans htop, hcard']

/-- The only smallest entry is kept, unless there is an excuse for it. -/
theorem CoversExcept.mem_of_least {pruned : α → Prop} {k : Nat} {kept all : Multiset α} {x : α}
    (h : CoversExcept key pruned k kept all) (hk : 0 < k) (hx : x ∈ all)
    (hleast : ∀ y ∈ all, key y ≤ key x → y = x) (hp : ¬ pruned x) : x ∈ kept := by
  obtain ⟨rest, rfl, hr⟩ := h
  rcases Multiset.mem_add.mp hx with hx | hx
  · exact hx
  · have hcount := (hr x hx).resolve_right hp
    obtain ⟨y, hy, hle⟩ := Multiset.countP_pos.mp (hk.trans_le hcount)
    obtain rfl := hleast y (Multiset.mem_add.mpr (Or.inl hy)) hle
    exact hy

/-! ## Excuses that the whole makes unnecessary -/

/-- If `k` entries of the whole lie in a class `below` that no pruned entry
belongs to or precedes, then pruning lost nothing. -/
theorem CoversExcept.covers {pruned below : α → Prop} [DecidablePred below] {k : Nat}
    {kept all : Multiset α} (h : CoversExcept key pruned k kept all)
    (hk : k ≤ all.countP below)
    (hbelow : ∀ y, pruned y → ∀ z, below z → key z ≤ key y)
    (hclosed : ∀ x z, below z → key x ≤ key z → below x)
    (hpruned : ∀ y, pruned y → ¬ below y) : Covers key k kept all := by
  obtain ⟨rest, rfl, hr⟩ := h
  have hkept : k ≤ kept.countP below := by
    by_cases hz : ∃ z ∈ rest, below z
    · obtain ⟨z, hzr, hzb⟩ := hz
      rcases hr z hzr with hc | hp
      · exact hc.trans (countP_mono_pred fun x hx => hclosed x z hzb hx)
      · exact absurd hzb (hpruned z hp)
    · push Not at hz
      rwa [Multiset.countP_add, Multiset.countP_eq_zero.mpr hz, add_zero] at hk
  refine ⟨rest, rfl, fun y hy => Or.inl ?_⟩
  rcases hr y hy with hc | hp
  · exact hc
  · exact hkept.trans (countP_mono_pred fun z hz => hbelow y hp z hz)

/-! ## The k smallest of a covering -/

/-- A covering of at least `k` entries keeps at least `k`. -/
theorem Covers.le_card {k : Nat} {kept all : Multiset α} (h : Covers key k kept all)
    (hk : k ≤ all.card) : k ≤ kept.card := by
  obtain ⟨rest, rfl, hrest⟩ := h
  rcases rest.empty_or_exists_mem with rfl | ⟨y, hy⟩
  · rwa [add_zero] at hk
  · exact ((hrest y hy).resolve_right id).trans (Multiset.countP_le_card _ _)

theorem IsSmallest.card_eq {k : Nat} {sel all : Multiset α} (h : IsSmallest key k sel all)
    (hk : k ≤ all.card) : sel.card = k := by
  rw [h.1, Nat.min_eq_left hk]

theorem IsSmallest.le {k : Nat} {sel all : Multiset α} (h : IsSmallest key k sel all) :
    sel ≤ all := by
  obtain ⟨-, rest, rfl, -⟩ := h
  exact Multiset.le_add_right _ _

/-- An entry that is not above any other belongs to the smallest ones. -/
theorem IsSmallest.cons {k : Nat} {sel all : Multiset α} (h : IsSmallest key k sel all) {x : α}
    (hx : ∀ y ∈ all, key x ≤ key y) : IsSmallest key (k + 1) (x ::ₘ sel) (x ::ₘ all) := by
  obtain ⟨hcard, rest, rfl, hle⟩ := h
  refine ⟨?_, rest, by rw [Multiset.cons_add], ?_⟩
  · rw [Multiset.card_cons, Multiset.card_cons, hcard, Nat.add_min_add_right]
  · intro z hz y hy
    rcases Multiset.mem_cons.mp hz with rfl | hz
    · exact hx y (Multiset.mem_add.mpr (Or.inr hy))
    · exact hle z hz y hy

/-- A covering that holds at most `k` entries is a choice of the `k` smallest. -/
theorem Covers.isSmallest {k : Nat} {kept all : Multiset α} (h : Covers key k kept all)
    (hcard : kept.card ≤ k) : IsSmallest key k kept all := by
  obtain ⟨rest, rfl, hr⟩ := h
  have hfull : ∀ y ∈ rest, kept.countP (fun x => key x ≤ key y) = kept.card ∧ kept.card = k := by
    intro y hy
    have hc := (hr y hy).resolve_right id
    have := Multiset.countP_le_card (fun x => key x ≤ key y) kept
    omega
  refine ⟨?_, rest, rfl, ?_⟩
  · rw [Multiset.card_add]
    rcases Multiset.empty_or_exists_mem rest with rfl | ⟨y, hy⟩
    · simp [hcard]
    · rw [(hfull y hy).2]
      omega
  · intro x hx y hy
    exact Multiset.countP_eq_card.mp (hfull y hy).1 x hx

/-- The first `k` entries of a sorted covering are the `k` smallest of everything. -/
theorem Covers.take {k : Nat} {l : List α} {all : Multiset α} (h : Covers key k (l : Multiset α) all)
    (hl : l.Pairwise fun x y => key x ≤ key y) :
    IsSmallest key k (l.take k : Multiset α) all := by
  obtain ⟨rest, rfl, hr⟩ := h
  have hsplit : (l : Multiset α) = (l.take k : Multiset α) + (l.drop k : Multiset α) := by
    rw [Multiset.coe_add, List.take_append_drop]
  have htd : ∀ x ∈ l.take k, ∀ y ∈ l.drop k, key x ≤ key y := by
    rw [← List.take_append_drop k l, List.pairwise_append] at hl
    exact hl.2.2
  -- an entry that was left out has `k` entries of `l` at or below it, so all of `l.take k` is
  have hrest : ∀ y ∈ rest, k ≤ l.length ∧ ∀ x ∈ l.take k, key x ≤ key y := by
    intro y hy
    have hc := (hr y hy).resolve_right id
    have hlen : k ≤ l.length := hc.trans (by simpa using Multiset.countP_le_card _ (l : Multiset α))
    refine ⟨hlen, fun x hx => ?_⟩
    by_contra hlt
    have hd : (l.drop k : Multiset α).countP (fun z => key z ≤ key y) = 0 := by
      rw [Multiset.countP_eq_zero]
      intro z hz hzy
      exact hlt ((htd x hx z (by simpa using hz)).trans hzy)
    have ht : (l.take k : Multiset α).countP (fun z => key z ≤ key y) <
        (l.take k : Multiset α).card := by
      refine lt_of_le_of_ne (Multiset.countP_le_card _ _) fun he => hlt ?_
      exact Multiset.countP_eq_card.mp he x (by simpa using hx)
    rw [hsplit, Multiset.countP_add, hd] at hc
    simp only [Multiset.coe_card, List.length_take] at ht
    omega
  refine ⟨?_, (l.drop k : Multiset α) + rest, ?_, ?_⟩
  · simp only [Multiset.card_add, Multiset.coe_card, List.length_take]
    rcases Multiset.empty_or_exists_mem rest with rfl | ⟨y, hy⟩
    · simp
    · have := (hrest y hy).1
      omega
  · rw [← add_assoc, ← hsplit]
  · intro x hx y hy
    rw [Multiset.mem_coe] at hx
    rcases Multiset.mem_add.mp hy with hy | hy
    · exact htd x hx y (by simpa using hy)
    · exact (hrest y hy).2 x hx

/-- The keys of the `k` smallest entries are the first `k` keys in ascending order. -/
theorem IsSmallest.sort_map {k : Nat} {sel all : Multiset α} (h : IsSmallest key k sel all) :
    (sel.map key).sort = ((all.map key).sort).take k := by
  obtain ⟨hcard, rest, rfl, hle⟩ := h
  have hperm : ((sel.map key).sort ++ (rest.map key).sort).Perm (((sel + rest).map key).sort) := by
    rw [← Multiset.coe_eq_coe, ← Multiset.coe_add]
    simp
  have hsorted : ((sel.map key).sort ++ (rest.map key).sort).Pairwise (· ≤ ·) := by
    rw [List.pairwise_append]
    refine ⟨Multiset.pairwise_sort _ _, Multiset.pairwise_sort _ _, ?_⟩
    intro a ha b hb
    obtain ⟨x, hx, rfl⟩ := Multiset.mem_map.mp ((Multiset.mem_sort _).mp ha)
    obtain ⟨y, hy, rfl⟩ := Multiset.mem_map.mp ((Multiset.mem_sort _).mp hb)
    exact hle x hx y hy
  have heq := hperm.eq_of_pairwise' hsorted (Multiset.pairwise_sort _ _)
  have hlen : (sel.map key).sort.length = min k (sel + rest).card := by
    rw [Multiset.length_sort, Multiset.card_map, hcard]
  rw [← heq]
  by_cases hk : k ≤ (sel + rest).card
  · rw [List.take_left' (by omega)]
  · have hr0 : rest = 0 := by
      rw [← Multiset.card_eq_zero]
      rw [Multiset.card_add] at hcard hk
      omega
    subst hr0
    rw [List.take_of_length_le]
    · simp
    · simp only [List.length_append, hlen, Multiset.map_zero, Multiset.length_sort,
        Multiset.card_zero]
      omega

/-- Entries whose keys are the first `k` keys in ascending order are the `k` smallest. -/
theorem isSmallest_of_sort {k : Nat} {sel all : Multiset α} (hle : sel ≤ all)
    (hsort : (sel.map key).sort = ((all.map key).sort).take k) : IsSmallest key k sel all := by
  obtain ⟨rest, rfl⟩ := Multiset.le_iff_exists_add.mp hle
  let keys := ((sel + rest).map key).sort
  have hsel : sel.map key = (keys.take k : Multiset κ) := by
    rw [← hsort, Multiset.sort_eq]
  have hrest : rest.map key = (keys.drop k : Multiset κ) := by
    have hsplit : sel.map key + rest.map key =
        (keys.take k : Multiset κ) + (keys.drop k : Multiset κ) := by
      rw [Multiset.coe_add, List.take_append_drop, Multiset.sort_eq, Multiset.map_add]
    rw [hsel] at hsplit
    exact add_left_cancel hsplit
  have hbelow : ∀ a ∈ keys.take k, ∀ b ∈ keys.drop k, a ≤ b := by
    have hsorted : keys.Pairwise (· ≤ ·) := Multiset.pairwise_sort _ _
    rw [← List.take_append_drop k keys, List.pairwise_append] at hsorted
    exact hsorted.2.2
  refine ⟨?_, rest, rfl, fun x hx y hy => hbelow _ ?_ _ ?_⟩
  · have hcard := congrArg Multiset.card hsel
    rw [Multiset.card_map, Multiset.coe_card, List.length_take, Multiset.length_sort,
      Multiset.card_map] at hcard
    exact hcard
  · exact Multiset.mem_coe.mp (hsel ▸ Multiset.mem_map_of_mem key hx)
  · exact Multiset.mem_coe.mp (hrest ▸ Multiset.mem_map_of_mem key hy)

/-- The smallest keys of more entries are no larger. -/
theorem sort_take_le {s s' : Multiset κ} (h : s ≤ s') {k : Nat} (hk : k ≤ s.card) :
    List.Forall₂ (· ≤ ·) (s'.sort.take k) (s.sort.take k) := by
  have hsub : s.sort.Sublist s'.sort := by
    apply List.sublist_of_subperm_of_pairwise _ (Multiset.pairwise_sort _ _)
      (Multiset.pairwise_sort _ _)
    rw [← Multiset.coe_le, Multiset.sort_eq, Multiset.sort_eq]
    exact h
  have hk' : k ≤ s'.card := hk.trans (Multiset.card_le_card h)
  rw [List.forall₂_iff_get]
  refine ⟨?_, fun i hi hi' => ?_⟩
  · simp [hk, hk']
  · rw [List.get_eq_getElem, List.get_eq_getElem, List.getElem_take, List.getElem_take]
    exact le_of_sublist hsub (Multiset.pairwise_sort _ _) (List.getElem?_eq_getElem _)
      (List.getElem?_eq_getElem _)

/-- A choice of the `k` smallest entries under an injective key is unique. -/
theorem IsSmallest.unique {k : Nat} {sel sel' all : Multiset α} (hkey : Function.Injective key)
    (h : IsSmallest key k sel all) (h' : IsSmallest key k sel' all) : sel = sel' := by
  refine Multiset.map_injective hkey ?_
  rw [← Multiset.sort_eq (sel.map key) (· ≤ ·), ← Multiset.sort_eq (sel'.map key) (· ≤ ·),
    h.sort_map, h'.sort_map]

/-- Entries may be replaced in a way that keeps their order. -/
theorem IsSmallest.map {β κ' : Type*} [LinearOrder κ'] (key' : β → κ') (f : α → β) {k : Nat}
    {sel all : Multiset α} (h : IsSmallest key k sel all)
    (hmono : ∀ x ∈ all, ∀ y ∈ all, key x ≤ key y → key' (f x) ≤ key' (f y)) :
    IsSmallest key' k (sel.map f) (all.map f) := by
  obtain ⟨hcard, rest, rfl, hle⟩ := h
  refine ⟨by rw [Multiset.card_map, Multiset.card_map, hcard], rest.map f,
    Multiset.map_add _ _ _, ?_⟩
  intro _ hfx _ hfy
  obtain ⟨x, hx, rfl⟩ := Multiset.mem_map.mp hfx
  obtain ⟨y, hy, rfl⟩ := Multiset.mem_map.mp hfy
  exact hmono x (Multiset.mem_add.mpr (Or.inl hx)) y (Multiset.mem_add.mpr (Or.inr hy))
    (hle x hx y hy)

/-! ## The threshold of the k-th smallest key -/

/-- `θ` is the `k`-th smallest key: `k` entries lie at or below it, and fewer
than `k` at or below any smaller key. -/
def IsKth (key : α → κ) (k : Nat) (all : Multiset α) (θ : κ) : Prop :=
  k ≤ all.countP (fun x => key x ≤ θ) ∧ ∀ t, k ≤ all.countP (fun x => key x ≤ t) → θ ≤ t

/-- It is the entry at position `k - 1` of the sorted keys. -/
theorem exists_isKth {k : Nat} {all : Multiset α} (h0 : 0 < k) (hk : k ≤ all.card) :
    ∃ θ, IsKth key k all θ := by
  let keys := all.toList.map key
  have hcount : ∀ t, all.countP (fun x => key x ≤ t) = keys.countP (· ≤ t) := by
    intro t
    rw [List.countP_map]
    conv_lhs => rw [← Multiset.coe_toList all, Multiset.coe_countP]
    rfl
  have hlast : k - 1 < (keys.insertionSort (· ≤ ·)).length := by
    rw [List.length_insertionSort, List.length_map, Multiset.length_toList]
    omega
  have hθ := List.getElem?_eq_getElem hlast
  refine ⟨(keys.insertionSort (· ≤ ·))[k - 1], ?_, fun t ht => ?_⟩
  · rw [hcount]
    have := lt_countP_le hθ
    omega
  · rw [hcount] at ht
    by_contra hlt
    have := countP_le_of_lt hθ (not_le.mp hlt)
    omega

end Spheres.Library.Selection
