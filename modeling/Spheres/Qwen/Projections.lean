import Spheres.Qwen.Layer
import Mathlib.Algebra.Order.Ring.Rat

/-!
# The seven projections

The calls of `matrix_multiply_vector_bf16_f32` differ in the shape of the result and
in whether it shares its buffer with the input. Four of them compute the product
(`call_elsewhere`), two write nothing (`call_unwritten`), and the output projection
reads what it has written before (`call_o`).
-/

namespace Spheres.Qwen

open Library

/-- The calls of `matrix_multiply_vector_bf16_f32` in a layer. -/
inductive Projection
  | q
  | k
  | v
  | o
  | gate
  | up
  | down
deriving DecidableEq, Repr

namespace Projection

variable {R : Type*} [CommRing R] (ofBf16 : UInt16 → R) {n l pos : Nat} {W : Nat → UInt16}
  {c : Buffer → Nat → R}

def rows : Projection → Nat
  | q => qProjL1
  | k => kvProjL1
  | v => kvProjL1
  | o => oProjL1
  | gate => gateProjL1
  | up => gateProjL1
  | down => downProjL1

def columns : Projection → Nat
  | q => qProjL2
  | k => kvProjL2
  | v => kvProjL2
  | o => oProjL2
  | gate => gateProjL2
  | up => gateProjL2
  | down => downProjL2

def input (n : Nat) : Projection → Tensor
  | down => (setupBuffers n).mlpBuffer1
  | _ => (setupBuffers n).residual

def result (n l pos : Nat) : Projection → Tensor
  | q => (setupBuffers n).q
  | k => (((setupBuffers n).keyCache.slice l).slice pos).reshape2 config.numKeyValueHeads
      config.headDim
  | v => ((setupBuffers n).valueCache.slice l).slice pos
  | gate => (setupBuffers n).mlpBuffer1
  | up => (setupBuffers n).mlpBuffer2
  | _ => (setupBuffers n).residual

/-- The call for position `pos` of layer `l`, with the weights `W`. -/
def call (p : Projection) (n l pos : Nat) (W : Nat → UInt16) (m : Memory R) :
    Except Fault (Memory R) :=
  matrixMultiplyVectorBf16F32 ofBf16 ⟨W, p.rows, p.columns⟩ (p.input n) (p.result n l pos) m

/-! ## The calls of the forward pass -/

section Calls

variable {K : Type*} [Field K] (F : MathFunctions K) (weights : QwenWeights) (m : Memory K)

theorem projectAttention_calls :
    projectAttention F weights l (setupBuffers n) (k.result n l pos) (v.result n l pos) m =
      (do
        let m ← rmsNormFloatBf16Weights F (setupBuffers n).hiddenStates
          (weights.getWeightsOfLayer .inputLayernorm l) (setupBuffers n).residual rmsNormEps m
        let m ← q.call bf16 n l pos (weights.getWeightsOfLayer .selfAttnQProj l) m
        let m ← k.call bf16 n l pos (weights.getWeightsOfLayer .selfAttnKProj l) m
        v.call bf16 n l pos (weights.getWeightsOfLayer .selfAttnVProj l) m) :=
  rfl

theorem projectOutput_calls :
    projectOutput weights l (setupBuffers n) m =
      (do
        let m ← o.call bf16 n l pos (weights.getWeightsOfLayer .selfAttnOProj l) m
        addResidual (setupBuffers n) m) :=
  rfl

theorem mlp_calls :
    mlp F weights l (setupBuffers n) m =
      (do
        let m ← rmsNormFloatBf16Weights F (setupBuffers n).hiddenStates
          (weights.getWeightsOfLayer .postAttentionLayernorm l) (setupBuffers n).residual
          rmsNormEps m
        let m ← gate.call bf16 n l pos (weights.getWeightsOfLayer .mlpGateProj l) m
        let m ← up.call bf16 n l pos (weights.getWeightsOfLayer .mlpUpProj l) m
        let m ← swigluFloatVector F (setupBuffers n).mlpBuffer1 (setupBuffers n).mlpBuffer2
          (setupBuffers n).mlpBuffer1 m
        let m ← down.call bf16 n l pos (weights.getWeightsOfLayer .mlpDownProj l) m
        addResidual (setupBuffers n) m) :=
  rfl

end Calls

/-! ## What the calls leave -/

def inputBuffer : Projection → Buffer
  | down => .mlpBuffer1
  | _ => .residual

/-- Element `i` of the product of `W` and the input vector. -/
def product (p : Projection) (W : Nat → UInt16) (c : Buffer → Nat → R) (i : Nat) : R :=
  ∑ j ∈ Finset.range p.columns, ofBf16 (W (i * p.columns + j)) * c p.inputBuffer j

/-- The call leaves the product with the vector that was there before. -/
def Computes (p : Projection) (n l pos : Nat) (W : Nat → UInt16) (c : Buffer → Nat → R) : Prop :=
  ∃ m', p.call ofBf16 n l pos W (.ofContents c) = .ok m' ∧
    ∀ i < p.rows, (p.result n l pos).elem m' i = .ok (p.product ofBf16 W c i)

theorem computes_iff {p : Projection} {m' : Memory R}
    (hrun : p.call ofBf16 n l pos W (.ofContents c) = .ok m') :
    p.Computes ofBf16 n l pos W c ↔
      ∀ i < p.rows, (p.result n l pos).elem m' i = .ok (p.product ofBf16 W c i) := by
  constructor
  · rintro ⟨m'', hrun', h⟩
    rw [hrun] at hrun'
    cases hrun'
    exact h
  · exact fun h => ⟨m', hrun, h⟩

omit [CommRing R] in
theorem holds_ofContents {b : Buffer} {k : Nat} : (Memory.ofContents c).Holds b 0 k (c b) :=
  fun j _ => congrArg (fun j => some (c b j)) (Nat.zero_add j)

theorem product_eq {p : Projection} {i : Nat} :
    p.product ofBf16 W c i =
      innerProduct ofBf16 (fun j => W (i * p.columns + j)) p.columns (c p.inputBuffer) :=
  Finset.sum_congr rfl fun _ _ => mul_comm _ _

/-- A product that is written elsewhere, into one dimension. -/
theorem computes_elsewhere {p : Projection} {b : Buffer} {start size size' : Nat}
    (hinput : p.input n = .vector p.inputBuffer 0 size)
    (hresult : p.result n l pos = .vector b start size') (hne : p.inputBuffer ≠ b) :
    p.Computes ofBf16 n l pos W c := by
  have hcall : p.call ofBf16 n l pos W (.ofContents c) = matrixMultiplyVectorBf16F32 ofBf16
      ⟨W, p.rows, p.columns⟩ (.vector p.inputBuffer 0 size) (.vector b start size')
      (.ofContents c) := by rw [call, hinput, hresult]
  have hrun := hcall.trans (matrixMultiplyVectorBf16F32_eq ofBf16 _ holds_ofContents hne)
  rw [computes_iff ofBf16 hrun, hresult]
  intro i hi
  rw [Tensor.elem_vector (Cells.fill_inside hi), product_eq]

/-- A result of two dimensions stays as it was. -/
theorem computes_unwritten {p : Projection} {b : Buffer} {start size : Nat}
    (hinput : p.input n = .vector p.inputBuffer 0 size) (hdim : (p.result n l pos).dim ≠ 1)
    (hdata : (p.result n l pos).data = some (b, start)) :
    p.Computes ofBf16 n l pos W c ↔
      ∀ i < p.rows, c b (start + i) = p.product ofBf16 W c i := by
  have hrun : p.call ofBf16 n l pos W (.ofContents c) = .ok (.ofContents c) := by
    rw [call, hinput]
    exact matrixMultiplyVectorBf16F32_of_dim_ne ofBf16 _ holds_ofContents hdim
  rw [computes_iff ofBf16 hrun]
  have helem : ∀ i, (p.result n l pos).elem (.ofContents c) i = .ok (c b (start + i)) := by
    intro i
    rw [Tensor.elem, hdata]
    rfl
  simp only [helem, Except.ok.injEq]

theorem computes_q :
    q.Computes ofBf16 n l pos W c ↔ ∀ i < q.rows, c .q i = q.product ofBf16 W c i := by
  have h : q.Computes ofBf16 n l pos W c ↔ ∀ i < q.rows, c .q (0 + i) = _ :=
    computes_unwritten ofBf16 rfl (Tensor.reshape2_dim_ne rfl) rfl
  simp only [Nat.zero_add] at h
  exact h

theorem computes_k (hl : l < 28) (hpos : pos < n) :
    k.Computes ofBf16 n l pos W c ↔
      ∀ i < k.rows, c .keyCache (rowStart n l pos + i) = k.product ofBf16 W c i := by
  have hk : k.result n l pos = (Tensor.vector .keyCache (rowStart n l pos) 1024).reshape2 8 128 :=
    congrArg (·.reshape2 8 128) (cache_slice .keyCache hl hpos)
  have hdim : (k.result n l pos).dim ≠ 1 := by
    rw [hk]
    exact Tensor.reshape2_dim_ne rfl
  exact computes_unwritten ofBf16 rfl hdim (congrArg Tensor.data hk)

/-- The output projection, where a row reads what the rows before it have written. -/
theorem computes_o :
    o.Computes ofBf16 n l pos W c ↔ ∀ i < o.rows, ∑ j ∈ Finset.range i,
      (o.product ofBf16 W c j - c .residual j) * ofBf16 (W (i * o.columns + j)) = 0 := by
  have hx : (Memory.ofContents c).Holds .residual 0 2048 (c .residual) := holds_ofContents
  have hrun : o.call ofBf16 n l pos W (.ofContents c) =
      .ok ((Memory.ofContents c).fill .residual 0 2048
        (productInPlace ofBf16 ⟨W, 1024, 2048⟩ (c .residual) 1024)) :=
    matrixMultiplyVectorBf16F32_inPlace ofBf16 ⟨W, 1024, 2048⟩ hx (show 1024 ≤ 2048 by omega) le_rfl
  rw [computes_iff ofBf16 hrun]
  have hiff := productInPlace_eq_iff ofBf16 ⟨W, 1024, 2048⟩ (x := c .residual)
    (show 1024 ≤ 2048 by omega) fun i => product_eq ofBf16 (p := o) (W := W) (c := c)
  refine Iff.trans (forall₂_congr fun i hi => ?_) hiff
  have hcell : ∀ f : Nat → R,
      (o.result n l pos).elem ((Memory.ofContents c).fill .residual 0 2048 f) i = .ok (f i) :=
    fun f => Tensor.elem_vector (Cells.fill_inside (hi.trans (show 1024 < 2048 by omega)))
  rw [hcell, Except.ok.injEq]

/-! ## When a projection computes the product -/

/-- The cells that `q` and `k` leave are those they found, and the output projection
adds the changes of the rows before. -/
def ComputesWhen (p : Projection) (n l pos : Nat) (W : Nat → UInt16) (c : Buffer → Nat → R) :
    Prop :=
  match p with
  | q => ∀ i < q.rows, c .q i = q.product ofBf16 W c i
  | k => ∀ i < k.rows, c .keyCache (rowStart n l pos + i) = k.product ofBf16 W c i
  | o => ∀ i < o.rows, ∑ j ∈ Finset.range i,
      (o.product ofBf16 W c j - c .residual j) * ofBf16 (W (i * o.columns + j)) = 0
  | _ => True

/-- For every layer, position and contents of the buffers. -/
theorem computes_iff_when (p : Projection) (hl : l < 28) (hpos : pos < n) :
    p.Computes ofBf16 n l pos W c ↔ p.ComputesWhen ofBf16 n l pos W c := by
  cases p with
  | q => exact computes_q ofBf16
  | k => exact computes_k ofBf16 hl hpos
  | v =>
    exact iff_of_true (computes_elsewhere ofBf16 rfl (cache_slice .valueCache hl hpos) nofun) trivial
  | o => exact computes_o ofBf16
  | gate => exact iff_of_true (computes_elsewhere ofBf16 rfl rfl nofun) trivial
  | up => exact iff_of_true (computes_elsewhere ofBf16 rfl rfl nofun) trivial
  | down => exact iff_of_true (computes_elsewhere ofBf16 rfl rfl nofun) trivial

theorem computes_iff_when_first :
    q.Computes bf16 1 0 0 (fun _ => 0) (fun _ _ => (1 : ℚ)) ↔
      q.ComputesWhen bf16 1 0 0 (fun _ => 0) (fun _ _ => (1 : ℚ)) :=
  computes_iff_when bf16 q (by decide) (by decide)

/-- An input vector with one cell. -/
def unitInput (k : Nat) (b : Buffer) (i : Nat) : ℚ := if b = .residual ∧ i = k then 1 else 0

theorem product_first {p : Projection} (hp : p.inputBuffer = .residual) (hcolumns : 0 < p.columns) :
    p.product bf16 (fun i => if i = 0 then 0x3F80 else 0) (unitInput 0) 0 = 1 := by
  rw [product_eq, hp, innerProduct_single (k := 0) hcolumns (by simp) fun j _ hj => by simp [hj]]
  rfl

/-- `q` and `k` stay zero under weights that copy the first cell, and the output
projection copies a cell twice. -/
theorem not_computes :
    ¬q.Computes bf16 1 0 0 (fun i => if i = 0 then 0x3F80 else 0) (unitInput 0) ∧
    ¬k.Computes bf16 1 0 0 (fun i => if i = 0 then 0x3F80 else 0) (unitInput 0) ∧
    ¬o.Computes bf16 1 0 0 (fun i => if i = 1 ∨ i = 2048 then 0x3F80 else 0) (unitInput 1) := by
  refine ⟨fun h => ?_, fun h => ?_, fun h => ?_⟩
  · have h0 := (computes_q bf16).mp h 0 (by decide)
    rw [product_first rfl (by decide)] at h0
    exact zero_ne_one h0
  · have h0 := (computes_k bf16 (by decide) (by decide)).mp h 0 (by decide)
    rw [product_first rfl (by decide)] at h0
    exact zero_ne_one h0
  · have h1 := (computes_o bf16).mp h 1 (by decide)
    have hproduct : o.product bf16 (fun i => if i = 1 ∨ i = 2048 then 0x3F80 else 0) (unitInput 1)
        0 = 1 := by
      rw [product_eq, innerProduct_single (k := 1) (by decide) (by simp) fun j hj hne => ?_]
      · rfl
      · have hlt : j < 2048 := hj
        rw [if_neg (by omega)]
    have hcell : unitInput 1 .residual 0 = 0 := if_neg (by omega)
    rw [Finset.sum_range_one, hproduct, hcell,
      if_pos (show 1 * o.columns + 0 = 1 ∨ 1 * o.columns + 0 = 2048 from Or.inr rfl), bf16_one] at h1
    norm_num at h1

end Projection

end Spheres.Qwen
