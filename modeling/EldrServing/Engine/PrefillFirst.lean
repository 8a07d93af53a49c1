import EldrServing.Engine.Detokenizer

/-!
# Prefill-first handoff parameters

The `kv_transfer_params` that travel with a request, and the functions of
`vllm/eldr/prefill_first.py` that read them. A key that is absent reads as `none` or `false`.
-/

namespace EldrServing.Engine

set_option autoImplicit false

/-- `remote_engine_id`, `remote_request_id`, `remote_host` and `remote_port`. -/
structure RemoteEndpoint where
  engineId : Nat
  requestId : Nat
  host : String
  port : Nat
  deriving DecidableEq, Repr

structure KVTransferParams where
  doRemotePrefill : Bool := false
  doRemoteDecode : Bool := false
  remoteBlockIds : List (List Nat) := []
  /-- The four keys of the remote endpoint, if all are present. -/
  remote : Option RemoteEndpoint := none
  remoteNumTokens : Nat := 0
  tpSize : Nat := 1
  remoteBlocksProcessed : Bool := false
  prefillFirst : Bool := false
  prefillFirstTokenId : Option TokenId := none
  prefillPromptTokens : Option Nat := none
  prefillContinues : Bool := false
  deriving DecidableEq, Repr

/-- A generation request's parameters, as far as the handoff looks at them. -/
structure GenerationParams where
  sampling : SamplingParams
  n : Nat := 1
  logprobs : Option Int := none
  promptLogprobs : Option Int := none
  structuredOutputs : Bool := false
  thinkingTokenBudget : Option Nat := none
  kvTransferParams : Option KVTransferParams := none

/-- What `validate` reads of the engine's configuration. -/
structure EngineConfig where
  kvConnector : Option String
  speculative : Bool
  pipelineParallelSize : Nat
  useV2ModelRunner : Bool
  isEncoderDecoder : Bool
  isHybrid : Bool
  logitsProcessors : Bool
  vocabSize : Nat

namespace PrefillFirst

/-- `transfer_params`; no parameters read as the empty dict. -/
def transferParams (params : GenerationParams) : KVTransferParams :=
  params.kvTransferParams.getD {}

def firstTokenIds (params : GenerationParams) : List TokenId :=
  (transferParams params).prefillFirstTokenId.toList

/-- The checks of `validate` on the engine. -/
def engineSupported (config : EngineConfig) (promptTokenIds : List TokenId) (promptEmbeds : Bool) :
    Bool :=
  config.kvConnector = some "NixlConnector" && !config.speculative &&
    config.pipelineParallelSize = 1 && !config.useV2ModelRunner && !config.isEncoderDecoder &&
    !config.isHybrid && !promptEmbeds && promptTokenIds ≠ []

/-- The checks of `validate` on the sampling options. -/
def optionsSupported (config : EngineConfig) (params : GenerationParams) : Bool :=
  params.n = 1 && params.logprobs.isNone && params.promptLogprobs.isNone &&
    !params.structuredOutputs && !config.logitsProcessors && params.thinkingTokenBudget.isNone

/-- The checks of `validate` on a seeded first token. -/
def validateSeed (config : EngineConfig) (params : GenerationParams)
    (promptTokenIds : List TokenId) : Except PyError Unit :=
  let transfer := transferParams params
  match firstTokenIds params with
  | [] => .ok ()
  | token :: _ =>
    if transfer.doRemotePrefill = false ∨ transfer.prefillFirst = true then
      .error (.valueError "A seeded first token is a consumer-only parameter")
    else if config.vocabSize ≤ token then .error (.valueError "Invalid prefill first token")
    else if transfer.prefillPromptTokens ≠ some promptTokenIds.length then
      .error (.valueError "Prefill/decode prompt length mismatch")
    else if transfer.prefillContinues = false ∨ params.sampling.maxTokens ≤ 1 then
      .error (.valueError "A completed prefill must not start decode generation")
    else .ok ()

def validate (config : EngineConfig) (params : GenerationParams) (promptTokenIds : List TokenId)
    (promptEmbeds : Bool) : Except PyError Unit :=
  let transfer := transferParams params
  if transfer.prefillFirst = false ∧ firstTokenIds params = [] then .ok ()
  else if engineSupported config promptTokenIds promptEmbeds = false then
    .error (.valueError "Prefill-first requires text-only V1 NIXL without PP/speculation")
  else if optionsSupported config params = false then
    .error (.valueError "Prefill-first supports one plain-text completion without logprobs")
  else if transfer.prefillFirst = true ∧ transfer.doRemoteDecode = false then
    .error (.valueError "prefill_first is a producer-only parameter")
  else validateSeed config params promptTokenIds

variable {σ : Type}

/-- `prime_detokenizer`: the detokenizer, and the number of tokens that were already sent. -/
def primeDetokenizer (D : TokenDecoder σ) (detokenizer : IncrementalDetokenizer σ)
    (params : GenerationParams) : Except PyError (IncrementalDetokenizer σ × Nat) :=
  let tokens := firstTokenIds params
  if tokens = [] then .ok (detokenizer, 0)
  else
    match detokenizer.update D tokens false with
    | (_, some _) => .error (.valueError "A stopped prefill must not start decode generation")
    | (detokenizer, none) => .ok ((detokenizer.getNextOutputText false true).1, tokens.length)

end PrefillFirst

end EldrServing.Engine
