import Spheres.Qwen.PlainPass
import Spheres.Qwen.Tokens
import Mathlib.Algebra.Order.Ring.Rat

/-!
# What the embedding takes from uninitialised memory

`q` and the rows of `k` are never written by a projection, so the scores come from
what `malloc` returned, and the softmax shares with them. The embedding is
independent of the contents of the buffers for a text of one token, and for
shares that add up to one if the last token is the first one; for no text is it
computed from written cells alone.
-/

namespace Spheres.Qwen

open Library

variable {R : Type*} [Field R] [LinearOrder R] {F : MathFunctions R} {weights : QwenWeights}
  {n l pos k : Nat} {m : Memory R} {x : Nat → R} {encode : List UInt8 → List Int}
  {query : List UInt8} {first last : Int} {between : List Int}

/-! ## Texts whose embedding is known -/

omit [Field R] [LinearOrder R] in
theorem Memory.full_ofContents (c : Buffer → Nat → R) : (Memory.ofContents c).Full :=
  fun b i => ⟨c b i, rfl⟩

/-- A text of one token. -/
theorem embedding_single {τ : R} (htokens : encode query = [first]) (hm : m.Full)
    (hτ : ∀ s, ∑ p ∈ Finset.range 1, share F s 1 p = τ) :
    calculateQwenEmbedding F weights encode query m =
      .ok ((List.range 1024).map (embeddingOf F weights τ first)) := by
  obtain ⟨m', hrun, -, -, hx⟩ := forwardToken_same F weights first (n := 1) Nat.one_pos hm
    (Or.inl rfl) hτ
  have hlength : (encode query).length = 1 := by rw [htokens, List.length_singleton]
  refine embedding_of_hidden F weights hlength ?_ hx
  rw [htokens, List.zipIdx_cons, List.zipIdx_nil, foldlM_one]
  exact hrun

/-- A text whose last token is also the first one. -/
theorem embedding_ends {τ : R} (htokens : encode query = first :: (between ++ [first]))
    (hm : m.Full)
    (hτ : ∀ pos s, ∑ p ∈ Finset.range (pos + 1), share F s (pos + 1) p = τ) :
    calculateQwenEmbedding F weights encode query m =
      .ok ((List.range 1024).map (embeddingOf F weights τ first)) := by
  have hlength : (encode query).length = between.length + 2 := by
    rw [htokens, List.length_cons, List.length_append, List.length_singleton]
  obtain ⟨m₁, hrun₁, hfull₁, hrows₁, -⟩ := forwardToken_same F weights first
    (n := between.length + 2) (Nat.succ_pos _) hm (Or.inl rfl) (hτ 0)
  have hkeeps : KeepsRows F weights (between.length + 2) τ first
      ⟨setupBuffers (between.length + 2), m₁⟩ := ⟨rfl, hfull₁, hrows₁⟩
  have hbetween : ∀ t ∈ between.zipIdx 1, t.2 < between.length + 2 ∧ t.2 ≠ 0 := by
    intro t ht
    have := List.mem_zipIdx ht
    omega
  obtain ⟨⟨t, m₂⟩, hrun₂, rfl, hfull₂, hrows₂⟩ := hkeeps.tokens F weights hbetween
  obtain ⟨m₃, hrun₃, -, -, hx₃⟩ := forwardToken_same F weights first
    (show between.length + 1 < between.length + 2 by omega) hfull₂ (Or.inr hrows₂) (hτ _)
  refine embedding_of_hidden F weights hlength ?_ hx₃
  rw [htokens, List.zipIdx_cons, List.zipIdx_append, List.foldlM_cons]
  refine bind_of_ok hrun₁ ?_
  rw [List.foldlM_append]
  refine bind_of_ok hrun₂ ?_
  rw [Nat.zero_add, Nat.add_comm 1, List.zipIdx_cons, List.zipIdx_nil, foldlM_one]
  exact hrun₃

/-! ## Cells that were not written -/

/-- The first head of `q` reads what `malloc` returned. -/
theorem forwardLayer_blank (hl : l < 28) (hpos : pos < n) (hx : m.Holds .hiddenStates 0 1024 x)
    (hq : m .q 0 = none) :
    forwardLayer F weights pos l ⟨setupBuffers n, m⟩ = .error (.unwritten .q 0) := by
  have hq' : projected F weights n l pos x m .q 0 = none := hq
  have hhead : normalizeHead F (weights.getWeightsOfLayer .selfAttnQNorm l) pos
      ((setupBuffers n).q.slice 0) (projected F weights n l pos x m) =
      .error (.unwritten .q 0) := by
    rw [setupBuffers_q_slice (show 0 < 16 by omega), Nat.zero_mul]
    exact normalizeHead_unwritten F hq'
  have hheads : normalizeHeads F weights l pos (setupBuffers n)
      ((((setupBuffers n).keyCache.slice l).slice pos).reshape2 8 128)
      (projected F weights n l pos x m) = .error (.unwritten .q 0) :=
    bind_of_error (forRange_error (show 0 < 16 by omega) hhead)
  exact bind_of_ok (projectAttention_eq F weights hl hpos hx) (bind_of_error hheads)

theorem forwardToken_blank (token : Int × Nat) (hpos : token.2 < n) :
    forwardToken F weights ⟨setupBuffers n, Memory.blank R⟩ token =
      .error (.unwritten .q 0) := by
  obtain ⟨x, hconvert⟩ : ∃ x, convertBf16ToFloat (weights.getEmbeddingOfToken token.1) embeddingDim
      (setupBuffers n).hiddenStates (Memory.blank R) =
      .ok ((Memory.blank R).fill .hiddenStates 0 1024 x) :=
    ⟨_, forRange_fill fun i hi => rfl⟩
  have hlayers : forRange 28 (forwardLayer F weights token.2)
      ⟨setupBuffers n, (Memory.blank R).fill .hiddenStates 0 1024 x⟩ = .error (.unwritten .q 0) :=
    forRange_error (show 0 < 28 by omega)
      (forwardLayer_blank (show 0 < 28 by omega) hpos Cells.holds_fill rfl)
  exact bind_of_ok hconvert (bind_of_error hlayers)

/-- No embedding is computed from written cells alone. -/
theorem calculateQwenEmbedding_blank :
    ∃ b i, calculateQwenEmbedding F weights encode query (Memory.blank R) =
      .error (.unwritten b i) := by
  cases htokens : encode query with
  | nil =>
    have hfold : (encode query).zipIdx.foldlM (forwardToken F weights)
        ⟨setupBuffers (encode query).length, Memory.blank R⟩ =
        .ok ⟨setupBuffers (encode query).length, Memory.blank R⟩ := by
      rw [htokens]
      rfl
    have hread : (Tensor.vector .hiddenStates 0 1024).readSpan (Memory.blank R) 1024 =
        .error (.unwritten .hiddenStates 0) := Tensor.readSpan_unwritten (by omega) rfl
    exact ⟨_, _, bind_of_ok hfold hread⟩
  | cons first tokens =>
    have hfold : (encode query).zipIdx.foldlM (forwardToken F weights)
        ⟨setupBuffers (encode query).length, Memory.blank R⟩ = .error (.unwritten .q 0) := by
      have hpos : 0 < (encode query).length := by rw [htokens]; exact Nat.succ_pos _
      have htoken : forwardToken F weights ⟨setupBuffers (encode query).length, Memory.blank R⟩
          (first, 0) = _ := forwardToken_blank (first, 0) hpos
      generalize (encode query).length = n at htoken
      rw [htokens, List.zipIdx_cons, List.foldlM_cons]
      exact bind_of_error htoken
    exact ⟨_, _, bind_of_error hfold⟩

/-! ## Independence of the contents -/

/-- The embedding of a text is the same for any two contents of the buffers, for all
weights and the functions of `P`. -/
def SameEmbedding (P : MathFunctions R → Prop) (encode : List UInt8 → List Int)
    (query : List UInt8) : Prop :=
  ∀ F, P F → ∀ weights c c', calculateQwenEmbedding F weights encode query (.ofContents c) =
    calculateQwenEmbedding F weights encode query (.ofContents c')

theorem tokens_cases (tokens : List Int) :
    tokens = [] ∨ (∃ t, tokens = [t]) ∨
      ∃ first between last, tokens = first :: (between ++ [last]) := by
  rcases tokens with _ | ⟨t, tokens⟩
  · exact Or.inl rfl
  · rcases List.eq_nil_or_concat' tokens with rfl | ⟨between, last, rfl⟩
    · exact Or.inr (Or.inl ⟨t, rfl⟩)
    · exact Or.inr (Or.inr ⟨t, between, last, rfl⟩)

omit [Field R] [LinearOrder R] in
theorem map_range_ne {x y : Nat → R} (h : x 0 ≠ y 0) :
    (Except.ok ((List.range 1024).map x) : Except Fault (List R)) ≠
      .ok ((List.range 1024).map y) := by
  intro heq
  exact h (List.map_inj_left.mp (Except.ok.inj heq) 0 (List.mem_range.mpr (by omega)))

/-- Without a token the hidden states are returned as they were allocated. -/
theorem not_sameEmbedding_nil {P : MathFunctions R → Prop} (hP : P F) (htokens : encode query = []) :
    ¬SameEmbedding P encode query := by
  intro h
  have hread : ∀ a : R, calculateQwenEmbedding F ⟨fun _ _ => 0, fun _ => 0, fun _ _ _ => 0⟩ encode
      query (.ofContents fun _ _ => a) = .ok ((List.range 1024).map fun _ => a) := by
    intro a
    have hfold : (encode query).zipIdx.foldlM
        (forwardToken F ⟨fun _ _ => 0, fun _ => 0, fun _ _ _ => 0⟩)
        ⟨setupBuffers (encode query).length, Memory.ofContents fun _ _ => a⟩ =
        .ok ⟨setupBuffers (encode query).length, Memory.ofContents fun _ _ => a⟩ := by
      rw [htokens]
      rfl
    have hspan : (Tensor.vector .hiddenStates 0 1024).readSpan (Memory.ofContents fun _ _ => a) 1024 =
        .ok ((List.range 1024).map fun _ => a) := Tensor.readSpan_vector fun i _ => rfl
    exact bind_of_ok hfold hspan
  have heq := h F hP ⟨fun _ _ => 0, fun _ => 0, fun _ _ _ => 0⟩ (fun _ _ => 0) fun _ _ => 1
  rw [hread, hread] at heq
  exact map_range_ne zero_ne_one heq

variable [IsStrictOrderedRing R]

/-- The contents of `q` and the key cache show in the embedding of two tokens. -/
theorem not_sameEmbedding_ends {P : MathFunctions R → Prop} {E : R} {χ : Int → Bool}
    (hP : P (plainFunctions E)) (htokens : encode query = first :: (between ++ [last]))
    (hlast : χ last = true)
    (hne : (tokenCell χ first * 1 + (between.length + 1 : R)) / (1 + (between.length + 1)) ≠
      (tokenCell χ first * E + (between.length + 1)) / (E + (between.length + 1))) :
    ¬SameEmbedding P encode query := by
  intro h
  obtain ⟨x, hx, hx0⟩ := embedding_unitWeights (E := E) (χ := χ) 0 htokens
  obtain ⟨y, hy, hy0⟩ := embedding_unitWeights (E := E) (χ := χ) (-1) htokens
  have heq := h _ hP (unitWeights χ) (scoreContents 0) (scoreContents (-1))
  rw [hx, hy] at heq
  refine map_range_ne ?_ heq
  have hcell : tokenCell χ last = (1 : R) := if_pos hlast
  have hexp0 : (plainFunctions E).exp 0 = 1 := if_neg (lt_irrefl 0)
  have hexp1 : (plainFunctions E).exp (-1) = E := if_pos neg_one_lt_zero
  rw [hx0, hy0, mixture_eq le_rfl (Nat.succ_pos _), mixture_eq neg_one_lt_zero.le (Nat.succ_pos _),
    hcell, hexp0, hexp1, Nat.cast_succ, mul_one (_ + 1)]
  intro h'
  exact hne (add_left_cancel h')

/-- With a positive exponential the last token has to be the first one. -/
theorem not_sameEmbedding_of_ne {P : MathFunctions R → Prop} (hP : P (plainFunctions 2))
    (htokens : encode query = first :: (between ++ [last])) (hne : first ≠ last) :
    ¬SameEmbedding P encode query := by
  refine not_sameEmbedding_ends (χ := fun t => decide (t ≠ first)) hP htokens
    (decide_eq_true hne.symm) ?_
  have hfirst : tokenCell (fun t => decide (t ≠ first)) first = (0 : R) :=
    if_neg (by simp)
  have hk : (0 : R) < between.length + 1 := Nat.cast_add_one_pos _
  rw [hfirst, zero_mul, zero_mul, zero_add]
  intro h
  rw [div_eq_div_iff (by positivity) (by positivity)] at h
  have h21 := mul_left_cancel₀ hk.ne' h
  exact absurd (add_right_cancel h21) (by norm_num)

/-- With any exponential there has to be a single token. -/
theorem not_sameEmbedding_of_two (htokens : encode query = first :: (between ++ [last])) :
    ¬SameEmbedding (fun _ : MathFunctions R => True) encode query := by
  refine not_sameEmbedding_ends (E := -(between.length + 1)) (χ := fun _ => true) trivial htokens rfl
    ?_
  have hfirst : tokenCell (fun _ => true) first = (1 : R) := if_pos rfl
  have hk : (0 : R) < between.length + 1 := Nat.cast_add_one_pos _
  rw [hfirst, one_mul, one_mul, neg_add_cancel, zero_div]
  exact (div_pos (by positivity) (by positivity)).ne'

theorem plainFunctions_two_pos (x : R) : 0 < (plainFunctions 2).exp x := by
  show 0 < if x < 0 then 2 else 1
  split
  · exact two_pos
  · exact one_pos

/-- For which texts the embedding does not depend on what the buffers held. -/
theorem calculateQwenEmbedding_contents (R : Type*) [Field R] [LinearOrder R]
    [IsStrictOrderedRing R] (encode : List UInt8 → List Int) (query : List UInt8) :
    (SameEmbedding (fun _ : MathFunctions R => True) encode query ↔ (encode query).length = 1) ∧
    (SameEmbedding (fun F : MathFunctions R => ∀ x, 0 < F.exp x) encode query ↔
      encode query ≠ [] ∧ (encode query).head? = (encode query).getLast?) ∧
    ∀ (F : MathFunctions R) weights, ∃ b i,
      calculateQwenEmbedding F weights encode query (Memory.blank R) =
        .error (.unwritten b i) := by
  have hplain : ∀ x : R, 0 < (plainFunctions 2).exp x := plainFunctions_two_pos
  have hgetLast : ∀ (first last : Int) between,
      (first :: (between ++ [last])).getLast? = some last := by
    intro first last between
    rw [← List.cons_append, List.getLast?_concat]
  refine ⟨⟨fun h => ?_, fun h F _ weights c c' => ?_⟩, ⟨fun h => ?_, fun h F hexp weights c c' => ?_⟩,
    fun F weights => calculateQwenEmbedding_blank⟩
  · rcases tokens_cases (encode query) with hnil | ⟨t, ht⟩ | ⟨first, between, last, ht⟩
    · exact absurd h (not_sameEmbedding_nil (F := plainFunctions 2) trivial hnil)
    · rw [ht, List.length_singleton]
    · exact absurd h (not_sameEmbedding_of_two ht)
  · obtain ⟨t, ht⟩ := List.length_eq_one_iff.mp h
    have hτ : ∀ s, ∑ p ∈ Finset.range 1, share F s 1 p = 1 / F.exp 0 * F.exp 0 := by
      intro s
      rw [Finset.sum_range_one, share_one]
    rw [embedding_single ht (Memory.full_ofContents c) hτ,
      embedding_single ht (Memory.full_ofContents c') hτ]
  · rcases tokens_cases (encode query) with hnil | ⟨t, ht⟩ | ⟨first, between, last, ht⟩
    · exact absurd h (not_sameEmbedding_nil (F := plainFunctions 2) hplain hnil)
    · rw [ht]
      exact ⟨List.cons_ne_nil _ _, rfl⟩
    · have heq : first = last := by
        by_contra hne
        exact not_sameEmbedding_of_ne hplain ht hne h
      rw [ht, heq, hgetLast]
      exact ⟨List.cons_ne_nil _ _, rfl⟩
  · have hτ : ∀ pos s, ∑ p ∈ Finset.range (pos + 1), share F s (pos + 1) p = 1 :=
      fun pos s => sum_share F hexp (Nat.succ_pos _)
    rcases tokens_cases (encode query) with hnil | ⟨t, ht⟩ | ⟨first, between, last, ht⟩
    · exact absurd hnil h.1
    · rw [embedding_single ht (Memory.full_ofContents c) (hτ 0),
        embedding_single ht (Memory.full_ofContents c') (hτ 0)]
    · have heq : last = first := by
        have hends := h.2
        rw [ht, hgetLast] at hends
        exact (Option.some.inj hends).symm
      rw [heq] at ht
      rw [embedding_ends ht (Memory.full_ofContents c) hτ,
        embedding_ends ht (Memory.full_ofContents c') hτ]

/-- A tokenizer that makes a token of each byte. -/
def byteTokens (text : List UInt8) : List Int := text.map fun byte => byte.toNat

theorem calculateQwenEmbedding_contents_bytes :
    (SameEmbedding (fun _ : MathFunctions ℚ => True) byteTokens [97, 98, 97] ↔ False) ∧
    (SameEmbedding (fun F : MathFunctions ℚ => ∀ x, 0 < F.exp x) byteTokens [97, 98, 97] ↔ True) ∧
    ∃ b i, calculateQwenEmbedding (plainFunctions 2) (unitWeights fun _ => true) byteTokens
      [97, 98, 97] (Memory.blank ℚ) = .error (.unwritten b i) := by
  obtain ⟨hany, hpos, hblank⟩ := calculateQwenEmbedding_contents ℚ byteTokens [97, 98, 97]
  refine ⟨hany.trans (by decide), hpos.trans (by decide), hblank _ _⟩

/-- The empty text and a text of two tokens. -/
theorem calculateQwenEmbedding_depends :
    ¬SameEmbedding (fun F : MathFunctions ℚ => ∀ x, 0 < F.exp x) byteTokens [] ∧
    ¬SameEmbedding (fun F : MathFunctions ℚ => ∀ x, 0 < F.exp x) byteTokens [97, 98] := by
  have hplain : ∀ x : ℚ, 0 < (plainFunctions 2).exp x := plainFunctions_two_pos
  have htokens : byteTokens [97, 98] = 97 :: ([] ++ [98]) := rfl
  exact ⟨not_sameEmbedding_nil (F := plainFunctions 2) hplain rfl,
    not_sameEmbedding_of_ne hplain htokens (by decide)⟩

end Spheres.Qwen
