import Spheres.Qwen.LayerRun

/-!
# Tokens whose attention is known

Every row that the values are mixed from is the row of position 0 or the row of
the position itself. Where these hold the same, and at position 0, the mixture
depends only on the sum of the shares, and the hidden states only on the token
(`hiddenAt`).
-/

namespace Spheres.Qwen

open Library

variable {R : Type*} [Field R] (F : MathFunctions R) (weights : QwenWeights) {n l pos k : Nat}
  {m : Memory R} {x v : Nat → R}

/-! ## Rows of the caches -/

theorem rowStart_disjoint {l' p p' : Nat} (hp : p < n) (hp' : p' < n) (hne : l ≠ l' ∨ p ≠ p') :
    rowStart n l p + 1024 ≤ rowStart n l' p' ∨ rowStart n l' p' + 1024 ≤ rowStart n l p := by
  have hrow : l * n + p ≠ l' * n + p' := by
    intro h
    have hdiv : ∀ a b, b < n → (a * n + b) / n = a := by
      intro a b hb
      rw [Nat.mul_comm, Nat.mul_add_div (by omega), Nat.div_eq_of_lt hb, Nat.add_zero]
    have hl : l = l' := by rw [← hdiv l p hp, h, hdiv l' p' hp']
    subst hl
    exact hne.elim (fun hl => hl rfl) fun hpp => hpp (by omega)
  unfold rowStart
  omega

omit [Field R] in
/-- The row of a position stays when another one is written. -/
theorem holds_row_of_fill {l' p' : Nat} {m' : Memory R} {f : Nat → R}
    (hv : m.Holds .valueCache (rowStart n l' p') 1024 v)
    (hm' : m' .valueCache = (m.fill .valueCache (rowStart n l pos) 1024 f) .valueCache)
    (hpos : pos < n) (hp' : p' < n) (hne : l' ≠ l ∨ p' ≠ pos) :
    m'.Holds .valueCache (rowStart n l' p') 1024 v :=
  (hv.fill_outside (rowStart_disjoint hp' hpos hne)).congr hm'

section Mixture

variable [LinearOrder R]

/-- Every head of the values `v`, for the two attention heads that share it. -/
def spread (v : Nat → R) (j : Nat) : R := v (j / 128 / 2 * 128 + j % 128)

/-- Equal rows are mixed to the row times the sum of the shares. -/
theorem mixedRow_of_same {τ : R} (h0 : m.Holds .valueCache (rowStart n l 0) 1024 v)
    (hpos : m.Holds .valueCache (rowStart n l pos) 1024 v)
    (hτ : ∀ s, ∑ p ∈ Finset.range (pos + 1), share F s (pos + 1) p = τ) {j : Nat} (hj : j < 2048) :
    mixedRow F n m l pos j = spread v j * τ := by
  have hcell : ∀ p, m.Holds .valueCache (rowStart n l p) 1024 v →
      headValue n m l (j / 128) p (j % 128) = spread v j := by
    intro p hp
    have := hp (j / 128 / 2 * 128 + j % 128) (by omega)
    rw [headValue, Cells.values, Nat.add_assoc, this]
    rfl
  rw [mixedRow, mixed, hcell 0 h0, hcell pos hpos, ← Finset.mul_sum, ← mul_add,
    ← hτ (headScore F n m l (j / 128)), Finset.sum_range_succ', add_comm (∑ _ ∈ _, _)]
  rfl

/-- The hidden states of a token before layer `l`, if the shares add up to `τ`. -/
def hiddenAt (τ : R) (tokenId : Int) : Nat → Nat → R
  | 0 => fun i => bf16 (weights.getEmbeddingOfToken tokenId i)
  | l + 1 => layerOutput F weights l (hiddenAt τ tokenId l) fun j =>
      spread (valueRow F weights l (hiddenAt τ tokenId l)) j * τ

/-- The row of the value cache of a token. -/
def rowOf (τ : R) (tokenId : Int) (l : Nat) : Nat → R :=
  valueRow F weights l (hiddenAt F weights τ tokenId l)

/-- A layer of a token whose row is also that of position 0. -/
theorem forwardLayer_same {τ : R} {tokenId : Int} (hl : l < 28) (hpos : pos < n) (hm : m.Full)
    (hx : m.Holds .hiddenStates 0 1024 (hiddenAt F weights τ tokenId l))
    (h0 : pos = 0 ∨ m.Holds .valueCache (rowStart n l 0) 1024 (rowOf F weights τ tokenId l))
    (hτ : ∀ s, ∑ p ∈ Finset.range (pos + 1), share F s (pos + 1) p = τ) :
    ∃ m', forwardLayer F weights pos l ⟨setupBuffers n, m⟩ = .ok ⟨setupBuffers n, m'⟩ ∧
      m'.Full ∧ m' .valueCache =
        (m.fill .valueCache (rowStart n l pos) 1024 (rowOf F weights τ tokenId l)) .valueCache ∧
      m'.Holds .hiddenStates 0 1024 (hiddenAt F weights τ tokenId (l + 1)) := by
  obtain ⟨m₂, hheads, hfull, hsame⟩ := normalizeHeads_ok F weights hl hpos
    (show (projected F weights n l pos (hiddenAt F weights τ tokenId l) m).Full from hm.fill.fill)
  have hv : m₂ .valueCache =
      (m.fill .valueCache (rowStart n l pos) 1024 (rowOf F weights τ tokenId l)) .valueCache :=
    hsame .valueCache nofun nofun
  have hrow : m₂.Holds .valueCache (rowStart n l pos) 1024 (rowOf F weights τ tokenId l) :=
    Cells.holds_fill.congr hv
  have hrow0 : m₂.Holds .valueCache (rowStart n l 0) 1024 (rowOf F weights τ tokenId l) := by
    by_cases hp : pos = 0
    · rw [hp] at hrow
      exact hrow
    · exact holds_row_of_fill (h0.resolve_left hp) hv hpos (by omega) (Or.inr (Ne.symm hp))
  obtain ⟨m', hrun, hfull', -, -, hv', hx'⟩ := forwardLayer_ok F weights hl hpos hx hheads hfull
    hsame fun j hj => mixedRow_of_same F hrow0 hrow hτ hj
  exact ⟨m', hrun, hfull', hv', hx'⟩

/-! ## Tokens -/

/-- The value cache has the rows of the token at position 0. -/
def FirstRows (n : Nat) (τ : R) (tokenId : Int) (m : Memory R) : Prop :=
  ∀ l < 28, m.Holds .valueCache (rowStart n l 0) 1024 (rowOf F weights τ tokenId l)

/-- The state of the pass of a token before layer `k`. -/
structure PassedLayers (n : Nat) (τ : R) (tokenId : Int) (pos k : Nat) (s : Scratch R) : Prop where
  tensors : s.tensors = setupBuffers n
  full : s.memory.Full
  hidden : s.memory.Holds .hiddenStates 0 1024 (hiddenAt F weights τ tokenId k)
  rows : ∀ l < 28, pos ≠ 0 ∨ l < k →
    s.memory.Holds .valueCache (rowStart n l 0) 1024 (rowOf F weights τ tokenId l)

theorem PassedLayers.layer {τ : R} {tokenId : Int} {s : Scratch R}
    (h : PassedLayers F weights n τ tokenId pos k s) (hk : k < 28) (hpos : pos < n)
    (hτ : ∀ s, ∑ p ∈ Finset.range (pos + 1), share F s (pos + 1) p = τ) :
    ∃ s', forwardLayer F weights pos k s = .ok s' ∧
      PassedLayers F weights n τ tokenId pos (k + 1) s' := by
  obtain ⟨t, m⟩ := s
  obtain ⟨rfl, hm, hx, hrows⟩ := h
  have h0 : pos = 0 ∨ m.Holds .valueCache (rowStart n k 0) 1024 (rowOf F weights τ tokenId k) :=
    (Nat.eq_zero_or_pos pos).imp_right fun hp => hrows k hk (Or.inl hp.ne')
  obtain ⟨m', hrun, hfull, hv, hx'⟩ := forwardLayer_same F weights hk hpos hm hx h0 hτ
  refine ⟨_, hrun, rfl, hfull, hx', fun l hl hlt => ?_⟩
  by_cases hold : pos ≠ 0 ∨ l < k
  · exact holds_row_of_fill (hrows l hl hold) hv hpos (by omega)
      (hold.symm.imp (fun h => h.ne) Ne.symm)
  · have hnew : pos = 0 ∧ l = k := by omega
    rw [hnew.1] at hv
    rw [hnew.2]
    exact Cells.holds_fill.congr hv

/-- The embedding that a token leaves. -/
def embeddingOf (τ : R) (tokenId : Int) : Nat → R :=
  rmsNormed F rmsNormEps weights.getNormWeights 1024 (hiddenAt F weights τ tokenId 28)

/-- A token that is also the one at position 0. -/
theorem forwardToken_same {τ : R} (tokenId : Int) (hpos : pos < n) (hm : m.Full)
    (h0 : pos = 0 ∨ FirstRows F weights n τ tokenId m)
    (hτ : ∀ s, ∑ p ∈ Finset.range (pos + 1), share F s (pos + 1) p = τ) :
    ∃ m', forwardToken F weights ⟨setupBuffers n, m⟩ (tokenId, pos) =
        .ok ⟨setupBuffers n, m'⟩ ∧ m'.Full ∧ FirstRows F weights n τ tokenId m' ∧
      m'.Holds .hiddenStates 0 1024 (embeddingOf F weights τ tokenId) := by
  have hconvert : convertBf16ToFloat (weights.getEmbeddingOfToken tokenId) embeddingDim
      (setupBuffers n).hiddenStates m =
      .ok (m.fill .hiddenStates 0 1024 (hiddenAt F weights τ tokenId 0)) :=
    forRange_fill fun i hi => rfl
  have hstart : PassedLayers F weights n τ tokenId pos 0
      ⟨setupBuffers n, m.fill .hiddenStates 0 1024 (hiddenAt F weights τ tokenId 0)⟩ := by
    refine ⟨rfl, hm.fill, Cells.holds_fill, fun l hl hp => ?_⟩
    have hp : pos ≠ 0 := hp.resolve_right (by omega)
    exact (h0.resolve_left hp l hl).fill_of_ne nofun
  obtain ⟨⟨t, m'⟩, hrun, rfl, hfull, hx, hrows⟩ := forRange_ok (PassedLayers F weights n τ tokenId pos)
    hstart fun k hk s hs => hs.layer F weights hk hpos hτ
  refine ⟨_, bind_of_ok hconvert (bind_of_ok hrun (bind_of_ok
    (rmsNormFloatBf16Weights_eq F _ _ hx fun _ => rfl) rfl)), hfull.fill, fun l hl => ?_,
    Cells.holds_fill⟩
  exact (hrows l hl (Or.inr hl)).fill_of_ne nofun

/-- The state of a pass after position 0. -/
structure KeepsRows (n : Nat) (τ : R) (tokenId : Int) (s : Scratch R) : Prop where
  tensors : s.tensors = setupBuffers n
  full : s.memory.Full
  rows : FirstRows F weights n τ tokenId s.memory

theorem KeepsRows.layer {τ : R} {tokenId : Int} {s : Scratch R}
    (h : KeepsRows F weights n τ tokenId s) (hk : k < 28) (hpos : pos < n) (hne : pos ≠ 0) :
    ∃ s', forwardLayer F weights pos k s = .ok s' ∧ KeepsRows F weights n τ tokenId s' := by
  obtain ⟨t, m⟩ := s
  obtain ⟨rfl, hm, hrows⟩ := h
  have hx : m.Holds .hiddenStates 0 1024 (m.values .hiddenStates 0) := hm.holds
  obtain ⟨m₂, hheads, hfull, hsame⟩ := normalizeHeads_ok F weights hk hpos
    (show (projected F weights n k pos (m.values .hiddenStates 0) m).Full from hm.fill.fill)
  obtain ⟨m', hrun, hfull', -, -, hv, -⟩ := forwardLayer_ok F weights hk hpos hx hheads hfull hsame
    fun j _ => rfl
  exact ⟨_, hrun, rfl, hfull', fun l hl =>
    holds_row_of_fill (hrows l hl) hv hpos (by omega) (Or.inr hne.symm)⟩

/-- A later token leaves the rows of position 0. -/
theorem KeepsRows.token {τ : R} {tokenId : Int} {s : Scratch R} {token : Int × Nat}
    (h : KeepsRows F weights n τ tokenId s) (hpos : token.2 < n) (hne : token.2 ≠ 0) :
    ∃ s', forwardToken F weights s token = .ok s' ∧ KeepsRows F weights n τ tokenId s' := by
  obtain ⟨t, m⟩ := s
  obtain ⟨rfl, hm, hrows⟩ := h
  simp only at hm hrows
  obtain ⟨x, hconvert⟩ : ∃ x, convertBf16ToFloat (weights.getEmbeddingOfToken token.1) embeddingDim
      (setupBuffers n).hiddenStates m = .ok (m.fill .hiddenStates 0 1024 x) :=
    ⟨_, forRange_fill fun i hi => rfl⟩
  have hfull : (m.fill .hiddenStates 0 1024 x).Full := hm.fill
  have hstart : KeepsRows F weights n τ tokenId
      ⟨setupBuffers n, m.fill .hiddenStates 0 1024 x⟩ := by
    refine ⟨rfl, hfull, fun l hl => ?_⟩
    exact (hrows l hl).fill_of_ne nofun
  obtain ⟨⟨t, m'⟩, hrun, rfl, hfull, hrows'⟩ := forRange_ok
    (fun _ => KeepsRows F weights n τ tokenId) hstart
    fun k hk s hs => hs.layer F weights hk hpos hne
  have hx : m'.Holds .hiddenStates 0 1024 (m'.values .hiddenStates 0) := hfull.holds
  exact ⟨_, bind_of_ok hconvert (bind_of_ok hrun (bind_of_ok
    (rmsNormFloatBf16Weights_eq F _ _ hx fun _ => rfl) rfl)), rfl, hfull.fill,
    fun l hl => (hrows' l hl).fill_of_ne nofun⟩

theorem KeepsRows.tokens {τ : R} {tokenId : Int} {s : Scratch R} {tokens : List (Int × Nat)}
    (h : KeepsRows F weights n τ tokenId s) (hpos : ∀ t ∈ tokens, t.2 < n ∧ t.2 ≠ 0) :
    ∃ s', tokens.foldlM (forwardToken F weights) s = .ok s' ∧
      KeepsRows F weights n τ tokenId s' := by
  induction tokens generalizing s with
  | nil => exact ⟨s, rfl, h⟩
  | cons t tokens ih =>
    obtain ⟨hlt, hne⟩ := hpos t List.mem_cons_self
    obtain ⟨s₁, hrun, hs₁⟩ := h.token F weights hlt hne
    obtain ⟨s', hrun', hs'⟩ := ih hs₁ fun t ht => hpos t (List.mem_cons_of_mem _ ht)
    exact ⟨s', bind_of_ok hrun hrun', hs'⟩

end Mixture

end Spheres.Qwen
