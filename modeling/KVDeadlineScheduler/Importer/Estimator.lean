-- SUMMARY: The KV footprint of a request: the model configuration and the estimate of the bytes its tokens need.
import KVDeadlineScheduler.Schema

namespace KVMemoryIntent

/-- A model configuration as its constructor leaves it: the heads and the head
dimension are there, and the sizes are positive. -/
structure ModelKVConfig where
  modelName : String
  numLayers : ℤ
  hiddenSize : ℤ
  numAttentionHeads : ℤ
  numKvHeads : ℤ
  headDim : ℤ
  dtypeBytes : ℤ
  modelName_ne : modelName ≠ ""
  numLayers_pos : 0 < numLayers
  hiddenSize_pos : 0 < hiddenSize
  numAttentionHeads_pos : 0 < numAttentionHeads
  numKvHeads_pos : 0 < numKvHeads
  headDim_pos : 0 < headDim
  dtypeBytes_pos : 0 < dtypeBytes

namespace ModelKVConfig

/-- A head count that the checks let pass is positive. -/
theorem getD_pos {x : Option ℤ} {y : ℤ} (hx : ¬x.any (· ≤ 0) = true) (hy : 0 < y) : 0 < x.getD y := by
  cases x with
  | none => exact hy
  | some x => simpa using hx

/-- The constructor. Missing key-value heads are the attention heads, a missing
head dimension is inferred from the hidden size. -/
def postInit (modelName : String) (numLayers hiddenSize numAttentionHeads : ℤ)
    (numKvHeads headDim : Option ℤ) (dtypeBytes : ℤ := 2) : Except Failure ModelKVConfig :=
  if hname : modelName = "" then
    .error (.valueError "model_name must not be empty")
  else if hlayers : numLayers ≤ 0 then
    .error (.valueError "num_layers must be > 0")
  else if hhidden : hiddenSize ≤ 0 then
    .error (.valueError "hidden_size must be > 0")
  else if hheads : numAttentionHeads ≤ 0 then
    .error (.valueError "num_attention_heads must be > 0")
  else if hkv : numKvHeads.any (· ≤ 0) then
    .error (.valueError "num_kv_heads must be > 0 when provided")
  else if hdtype : dtypeBytes ≤ 0 then
    .error (.valueError "dtype_bytes must be > 0")
  else if hdim : headDim.getD (hiddenSize / numAttentionHeads) ≤ 0 then
    .error (.valueError "head_dim must be > 0")
  else
    .ok {
      modelName := modelName
      numLayers := numLayers
      hiddenSize := hiddenSize
      numAttentionHeads := numAttentionHeads
      numKvHeads := numKvHeads.getD numAttentionHeads
      headDim := headDim.getD (hiddenSize / numAttentionHeads)
      dtypeBytes := dtypeBytes
      modelName_ne := hname
      numLayers_pos := not_le.mp hlayers
      hiddenSize_pos := not_le.mp hhidden
      numAttentionHeads_pos := not_le.mp hheads
      numKvHeads_pos := getD_pos hkv (not_le.mp hheads)
      headDim_pos := not_le.mp hdim
      dtypeBytes_pos := not_le.mp hdtype }

/-- The constructor accepts the fields of a configuration. -/
theorem postInit_eq (c : ModelKVConfig) :
    postInit c.modelName c.numLayers c.hiddenSize c.numAttentionHeads (some c.numKvHeads)
      (some c.headDim) c.dtypeBytes = .ok c := by
  have hkv : ¬(some c.numKvHeads).any (· ≤ 0) = true := by simpa using c.numKvHeads_pos
  have hdim : ¬(some c.headDim).getD (c.hiddenSize / c.numAttentionHeads) ≤ 0 := not_le.mpr c.headDim_pos
  rw [postInit, dif_neg c.modelName_ne, dif_neg (not_le.mpr c.numLayers_pos),
    dif_neg (not_le.mpr c.hiddenSize_pos), dif_neg (not_le.mpr c.numAttentionHeads_pos), dif_neg hkv,
    dif_neg (not_le.mpr c.dtypeBytes_pos), dif_neg hdim]
  rfl

end ModelKVConfig

/-! ## Presets -/

def llama3_8b : ModelKVConfig where
  modelName := "llama-3-8b"
  numLayers := 32
  hiddenSize := 4096
  numAttentionHeads := 32
  numKvHeads := 8
  headDim := 128
  dtypeBytes := 2
  modelName_ne := by decide
  numLayers_pos := by decide
  hiddenSize_pos := by decide
  numAttentionHeads_pos := by decide
  numKvHeads_pos := by decide
  headDim_pos := by decide
  dtypeBytes_pos := by decide

def llama3_70b : ModelKVConfig where
  modelName := "llama-3-70b"
  numLayers := 80
  hiddenSize := 8192
  numAttentionHeads := 64
  numKvHeads := 8
  headDim := 128
  dtypeBytes := 2
  modelName_ne := by decide
  numLayers_pos := by decide
  hiddenSize_pos := by decide
  numAttentionHeads_pos := by decide
  numKvHeads_pos := by decide
  headDim_pos := by decide
  dtypeBytes_pos := by decide

def mistral_7b : ModelKVConfig where
  modelName := "mistral-7b"
  numLayers := 32
  hiddenSize := 4096
  numAttentionHeads := 32
  numKvHeads := 8
  headDim := 128
  dtypeBytes := 2
  modelName_ne := by decide
  numLayers_pos := by decide
  hiddenSize_pos := by decide
  numAttentionHeads_pos := by decide
  numKvHeads_pos := by decide
  headDim_pos := by decide
  dtypeBytes_pos := by decide

/-- `MODEL_PRESETS`. -/
def modelPresets : List (String × ModelKVConfig) :=
  [("llama-3-8b", llama3_8b), ("llama-3-70b", llama3_70b), ("mistral-7b", mistral_7b)]

/-! ## Estimates -/

/-- Keys and values of every layer and head. -/
def kvBytesPerToken (config : ModelKVConfig) : ℤ :=
  config.numLayers * config.numKvHeads * config.headDim * 2 * config.dtypeBytes

theorem kvBytesPerToken_pos (config : ModelKVConfig) : 0 < kvBytesPerToken config := by
  have hlayers := config.numLayers_pos
  have hheads := config.numKvHeads_pos
  have hdim := config.headDim_pos
  have hdtype := config.dtypeBytes_pos
  unfold kvBytesPerToken
  positivity

def estimateKvBytes (config : ModelKVConfig) (tokens : ℤ) (batchSize : ℤ := 1) : Except Failure ℤ :=
  if tokens < 0 then
    .error (.valueError "tokens must be >= 0")
  else if batchSize ≤ 0 then
    .error (.valueError "batch_size must be > 0")
  else
    .ok (kvBytesPerToken config * tokens * batchSize)

def estimateRequestKvBytes (config : ModelKVConfig) (promptTokens generatedTokens : ℤ) :
    Except Failure ℤ :=
  if promptTokens < 0 then
    .error (.valueError "prompt_tokens must be >= 0")
  else if generatedTokens < 0 then
    .error (.valueError "generated_tokens must be >= 0")
  else
    estimateKvBytes config (promptTokens + generatedTokens) 1

/-- Token counts that are not negative have an estimate. -/
theorem estimateRequestKvBytes_ok (config : ModelKVConfig) {promptTokens generatedTokens : ℤ}
    (hprompt : 0 ≤ promptTokens) (hgenerated : 0 ≤ generatedTokens) :
    estimateRequestKvBytes config promptTokens generatedTokens =
      .ok (kvBytesPerToken config * (promptTokens + generatedTokens)) := by
  have htokens : ¬promptTokens + generatedTokens < 0 := by omega
  rw [estimateRequestKvBytes, if_neg (not_lt.mpr hprompt), if_neg (not_lt.mpr hgenerated),
    estimateKvBytes, if_neg htokens, if_neg (by decide), mul_one]

end KVMemoryIntent
