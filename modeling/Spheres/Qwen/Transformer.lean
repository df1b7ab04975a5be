import Spheres.Qwen.Math

/-!
# The forward pass

`calculate_qwen_embedding` over a memory: the tensors that are set up, the parts of
a layer in their order, and the loops over the layers and the tokens. The arrays
of the weight file are looked up by name; the tokenizer is a parameter.
-/

namespace Spheres.Qwen

open Library

/-- What the forward pass uses of `Config`; no weight file changes it. -/
structure Config where
  hiddenSize : Nat := 1024
  numAttentionHeads : Nat := 16
  numKeyValueHeads : Nat := 8
  numHiddenLayers : Nat := 28
  intermediateSize : Nat := 3072
  ropeTheta : Nat := 1000000
  headDim : Nat := 128

def config : Config := {}

/-- `rms_norm_eps` -/
def rmsNormEps {R : Type*} [Field R] : R := 1 / 1000000

/-- The names of the arrays that every layer has. -/
inductive LayerWeight
  | inputLayernorm
  | postAttentionLayernorm
  | mlpGateProj
  | mlpDownProj
  | mlpUpProj
  | selfAttnQProj
  | selfAttnKProj
  | selfAttnVProj
  | selfAttnOProj
  | selfAttnQNorm
  | selfAttnKNorm
deriving DecidableEq, Repr

/-- The arrays of a weight file. -/
structure QwenWeights where
  getEmbeddingOfToken : Int → Nat → UInt16
  getNormWeights : Nat → UInt16
  getWeightsOfLayer : LayerWeight → Nat → Nat → UInt16

def embeddingDim : Nat := 1024

def qProjL1 : Nat := 2048
def qProjL2 : Nat := 1024
def kvProjL1 : Nat := 1024
def kvProjL2 : Nat := 1024
def oProjL1 : Nat := 1024
def oProjL2 : Nat := 2048
def gateProjL1 : Nat := 3072
def gateProjL2 : Nat := 1024
def downProjL1 : Nat := 1024
def downProjL2 : Nat := 3072

structure Tensors where
  hiddenStates : Tensor
  residual : Tensor
  keyCache : Tensor
  valueCache : Tensor
  q : Tensor
  attention : Tensor
  mlpBuffer1 : Tensor
  mlpBuffer2 : Tensor

/-- The buffers for `n` tokens. -/
def setupBuffers (n : Nat) : Tensors :=
  let kvSize := config.numKeyValueHeads * config.headDim
  { hiddenStates := .malloc .hiddenStates config.hiddenSize
    residual := .malloc .residual (config.numAttentionHeads * config.headDim)
    keyCache := (Tensor.malloc .keyCache (kvSize * config.numHiddenLayers * n)).reshape3
      config.numHiddenLayers n kvSize
    valueCache := (Tensor.malloc .valueCache (kvSize * config.numHiddenLayers * n)).reshape3
      config.numHiddenLayers n kvSize
    q := (Tensor.malloc .q (config.numAttentionHeads * config.headDim)).reshape2
      config.numAttentionHeads config.headDim
    attention := (Tensor.malloc .attention (config.numAttentionHeads * n)).reshape2
      config.numAttentionHeads n
    mlpBuffer1 := .malloc .mlpBuffer1 config.intermediateSize
    mlpBuffer2 := .malloc .mlpBuffer2 config.intermediateSize }

/-- The tensors, whose shapes change on the way, and the memory. -/
structure Scratch (R : Type*) where
  tensors : Tensors
  memory : Memory R

/-- The part of row `p` of a cache that belongs to an attention head. -/
def headOfRow (cache : Tensor) (layerIndex p headIndex : Nat) : Tensor :=
  let atPosP := ((cache.slice layerIndex).slice p).reshape2 config.numKeyValueHeads config.headDim
  atPosP.slice (headIndex / 2)

/-- The loops that mix the values. The first writes what was left of the buffer;
the other ones read the row of `pos`. -/
def accumulateValues {R : Type*} [CommRing R] (layerIndex pos headIndex : Nat)
    (valueCache attentionUpToPos : Tensor) (currentResidual : Tensor) (m : Memory R) :
    Except Fault (Memory R) := do
  let a ← attentionUpToPos.value m 0
  let m ← elementWiseFusedScalarMultiplyAddFloatVectorOverwriteDst
    (headOfRow valueCache layerIndex 0 headIndex) a currentResidual m
  forRange pos (fun i m => do
    let p := i + 1
    let a ← attentionUpToPos.value m p
    elementWiseFusedScalarMultiplyAddFloat (headOfRow valueCache layerIndex pos headIndex) a
      currentResidual m) m

variable {R : Type*} [Field R]

def convertBf16ToFloat (x : Nat → UInt16) (size : Nat) (result : Tensor) (m : Memory R) :
    Except Fault (Memory R) :=
  forRange size (fun i m => result.setScalar i (bf16 (x i)) m) m

variable (F : MathFunctions R) (weights : QwenWeights)

/-- The norm of the layer's input and the projections to `q`, `k` and `v`. -/
def projectAttention (layerIndex : Nat) (t : Tensors) (k v : Tensor) (m : Memory R) :
    Except Fault (Memory R) := do
  let w name := weights.getWeightsOfLayer name layerIndex
  let m ← rmsNormFloatBf16Weights F t.hiddenStates (w .inputLayernorm) t.residual rmsNormEps m
  let m ← matrixMultiplyVectorBf16F32 bf16 ⟨w .selfAttnQProj, qProjL1, qProjL2⟩ t.residual t.q m
  let m ← matrixMultiplyVectorBf16F32 bf16 ⟨w .selfAttnKProj, kvProjL1, kvProjL2⟩ t.residual k m
  matrixMultiplyVectorBf16F32 bf16 ⟨w .selfAttnVProj, kvProjL1, kvProjL2⟩ t.residual v m

/-- The norm and the rotation of one head of `q` or `k`. -/
def normalizeHead (normWeights : Nat → UInt16) (pos : Nat) (current : Tensor) (m : Memory R) :
    Except Fault (Memory R) := do
  let m ← rmsNormFloatBf16Weights F current normWeights current rmsNormEps m
  forRange (config.headDim / 2) (fun ri m => do
    let frequency := F.pow config.ropeTheta (-(ri : R) * (2 : ℕ) / config.headDim)
    let cosFrequency := F.cos (frequency * pos)
    let sinFrequency := F.sin (frequency * pos)
    let x ← current.value m ri
    let y ← current.value m (ri + config.headDim / 2)
    let m ← current.setScalar ri (x * cosFrequency - y * sinFrequency) m
    current.setScalar (ri + config.headDim / 2) (x * sinFrequency + y * cosFrequency) m) m

def normalizeHeads (layerIndex pos : Nat) (t : Tensors) (k : Tensor) (m : Memory R) :
    Except Fault (Memory R) := do
  let w name := weights.getWeightsOfLayer name layerIndex
  let m ← forRange config.numAttentionHeads (fun headIndex m =>
    normalizeHead F (w .selfAttnQNorm) pos (t.q.slice headIndex) m) m
  forRange config.numKeyValueHeads (fun headIndex m =>
    normalizeHead F (w .selfAttnKNorm) pos (k.slice headIndex) m) m

/-- The scores of one head at the positions up to `pos`. -/
def scoreHead (layerIndex pos headIndex : Nat) (t : Tensors) (m : Memory R) :
    Except Fault (Memory R) :=
  let currentQ := t.q.slice headIndex
  let currentAttention := t.attention.slice headIndex
  forRange (pos + 1) (fun p m => do
    let currentK := headOfRow t.keyCache layerIndex p headIndex
    let x ← currentQ.readSpan m currentQ.size
    let y ← currentK.readSpan m currentQ.size
    let score := dotProductFloatFloatVector x y
    currentAttention.setScalar p (score / F.sqrt config.headDim) m) m

def attendHead [LinearOrder R] (layerIndex pos headIndex : Nat) (s : Scratch R) :
    Except Fault (Scratch R) := do
  let t := s.tensors
  let m ← scoreHead F layerIndex pos headIndex t s.memory
  let attentionUpToPos : Tensor :=
    { size := pos + 1, data := (t.attention.slice headIndex).data, dim := 1, s1 := pos + 1 }
  let m ← softmaxVectorFloat F attentionUpToPos m
  let residual := t.residual.reshape2 config.numAttentionHeads config.headDim
  let currentResidual := residual.slice headIndex
  let residual := residual.flatten
  let m ← accumulateValues layerIndex pos headIndex t.valueCache attentionUpToPos currentResidual m
  return { tensors := { t with residual := residual }, memory := m }

/-- `hidden_states[i] += residual[i]` -/
def addResidual (t : Tensors) (m : Memory R) : Except Fault (Memory R) :=
  forRange config.hiddenSize (fun i m => do
    let x ← t.hiddenStates.value m i
    let y ← t.residual.value m i
    t.hiddenStates.setScalar i (x + y) m) m

/-- The output projection, in place. -/
def projectOutput (layerIndex : Nat) (t : Tensors) (m : Memory R) : Except Fault (Memory R) := do
  let w := weights.getWeightsOfLayer .selfAttnOProj layerIndex
  let m ← matrixMultiplyVectorBf16F32 bf16 ⟨w, oProjL1, oProjL2⟩ t.residual t.residual m
  addResidual t m

def mlp (layerIndex : Nat) (t : Tensors) (m : Memory R) : Except Fault (Memory R) := do
  let w name := weights.getWeightsOfLayer name layerIndex
  let m ← rmsNormFloatBf16Weights F t.hiddenStates (w .postAttentionLayernorm) t.residual
    rmsNormEps m
  let m ← matrixMultiplyVectorBf16F32 bf16 ⟨w .mlpGateProj, gateProjL1, gateProjL2⟩ t.residual
    t.mlpBuffer1 m
  let m ← matrixMultiplyVectorBf16F32 bf16 ⟨w .mlpUpProj, gateProjL1, gateProjL2⟩ t.residual
    t.mlpBuffer2 m
  let m ← swigluFloatVector F t.mlpBuffer1 t.mlpBuffer2 t.mlpBuffer1 m
  let m ← matrixMultiplyVectorBf16F32 bf16 ⟨w .mlpDownProj, downProjL1, downProjL2⟩ t.mlpBuffer1
    t.residual m
  addResidual t m

def forwardLayer [LinearOrder R] (pos layerIndex : Nat) (s : Scratch R) :
    Except Fault (Scratch R) := do
  let k := ((s.tensors.keyCache.slice layerIndex).slice pos).reshape2
    config.numKeyValueHeads config.headDim
  let v := (s.tensors.valueCache.slice layerIndex).slice pos
  let m ← projectAttention F weights layerIndex s.tensors k v s.memory
  let m ← normalizeHeads F weights layerIndex pos s.tensors k m
  let s ← forRange config.numAttentionHeads (attendHead F layerIndex pos)
    { tensors := s.tensors, memory := m }
  let m ← projectOutput weights layerIndex s.tensors s.memory
  let m ← mlp F weights layerIndex s.tensors m
  return { tensors := s.tensors, memory := m }

def forwardToken [LinearOrder R] (s : Scratch R) (token : Int × Nat) :
    Except Fault (Scratch R) := do
  let (tokenId, pos) := token
  let m ← convertBf16ToFloat (weights.getEmbeddingOfToken tokenId) embeddingDim
    s.tensors.hiddenStates s.memory
  let s ← forRange config.numHiddenLayers (forwardLayer F weights pos)
    { tensors := s.tensors, memory := m }
  let m ← rmsNormFloatBf16Weights F s.tensors.hiddenStates weights.getNormWeights
    s.tensors.hiddenStates rmsNormEps s.memory
  return { tensors := s.tensors, memory := m }

/-- The embedding of a text, computed in a memory that holds what `malloc` left. -/
def calculateQwenEmbedding [LinearOrder R] (encode : List UInt8 → List Int)
    (query : List UInt8) (m : Memory R) : Except Fault (List R) := do
  let tokenIds := encode query
  let s ← tokenIds.zipIdx.foldlM (forwardToken F weights)
    { tensors := setupBuffers tokenIds.length, memory := m }
  s.tensors.hiddenStates.readSpan s.memory config.hiddenSize

end Spheres.Qwen
