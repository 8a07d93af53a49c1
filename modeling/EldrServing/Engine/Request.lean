import EldrServing.Engine.PrefillFirst

/-!
# Requests of the engine core

The scheduler's record of a request and what a sampled token does to it. Text-only generation
requests are modelled: no pooling, structured output, speculative tokens, LoRA or resumable
sessions, whose fields are left out.
-/

namespace EldrServing.Engine

set_option autoImplicit false

structure Request where
  requestId : Nat
  priority : Int := 0
  arrivalTime : Nat := 0
  samplingParams : SamplingParams
  kvTransferParams : Option KVTransferParams
  promptTokenIds : List TokenId
  outputTokenIds : List TokenId := []
  status : RequestStatus := .waiting
  stopReason : Option StopReason := none
  numComputedTokens : Nat := 0
  /-- Tokens that async scheduling expects from steps still under way. -/
  numOutputPlaceholders : Nat := 0
  isPrefillChunk : Bool := false
  numPreemptions : Nat := 0
  /-- `prefill_stats is not None`: no output was made yet. -/
  prefillStats : Bool := true
  skipReadingPrefixCache : Bool := false
  abortImmediately : Bool := false

structure EngineCoreOutput where
  newTokenIds : List TokenId
  finishReason : Option FinishReason := none
  stopReason : Option StopReason := none
  kvTransferParams : Option KVTransferParams := none

namespace Request

def allTokenIds (r : Request) : List TokenId := r.promptTokenIds ++ r.outputTokenIds

def numPromptTokens (r : Request) : Nat := r.promptTokenIds.length

def numOutputTokens (r : Request) : Nat := r.outputTokenIds.length

def numTokens (r : Request) : Nat := r.allTokenIds.length

/-- `__lt__`: the order of a priority queue. -/
def lt (r r' : Request) : Bool :=
  if r.priority ≠ r'.priority then r.priority < r'.priority
  else if r.arrivalTime ≠ r'.arrivalTime then r.arrivalTime < r'.arrivalTime
  else r.requestId < r'.requestId

/-- The key `(priority, arrival_time)` of `r` is greater. -/
def isPreemptedBefore (r r' : Request) : Bool :=
  r'.priority < r.priority || (r.priority = r'.priority && r'.arrivalTime < r.arrivalTime)

def isFinished (r : Request) : Bool := r.status.isFinished

def appendOutputTokenIds (r : Request) (tokenIds : List TokenId) : Request :=
  { r with outputTokenIds := r.outputTokenIds ++ tokenIds }

/-- `Request.__init__`; a handed-off first token is output of the request from the start. -/
def init (requestId : Nat) (priority : Int) (arrivalTime : Nat) (params : GenerationParams)
    (promptTokenIds : List TokenId) (abortImmediately : Bool) : Request :=
  let r : Request :=
    { requestId, priority, arrivalTime, promptTokenIds, abortImmediately
      samplingParams := params.sampling
      kvTransferParams := params.kvTransferParams
      skipReadingPrefixCache := params.promptLogprobs.isSome }
  if abortImmediately then r else r.appendOutputTokenIds (PrefillFirst.firstTokenIds params)

/-- The stop check after a token was appended, with the early stop of a prefill-first producer. -/
def stopAfterToken (maxModelLen : Nat) (r : Request) : Request × Bool :=
  match checkStop r.samplingParams maxModelLen r.numPromptTokens r.outputTokenIds with
  | some (status, stopReason) =>
    ({ r with status, stopReason := stopReason.or r.stopReason }, true)
  | none =>
    match r.kvTransferParams with
    | none => (r, false)
    | some transfer =>
      if transfer.prefillFirst then
        ({ r with
          kvTransferParams := some { transfer with prefillContinues := true }
          status := .finishedLengthCapped }, true)
      else (r, false)

/-- `_update_request_with_output`: the request, the tokens that were used, and whether it
stopped. -/
def updateWithOutput (maxModelLen : Nat) : Request → List TokenId → Request × List TokenId × Bool
  | r, [] => (r, [], false)
  | r, t :: ts =>
    match stopAfterToken maxModelLen (r.appendOutputTokenIds [t]) with
    | (r, true) => (r, [t], true)
    | (r, false) =>
      let (r, used, stopped) := updateWithOutput maxModelLen r ts
      (r, t :: used, stopped)

/-- What a stop can do to the transfer parameters: mark that the prefill does not end here. -/
def StopParams (params params' : Option KVTransferParams) : Prop :=
  params' = params ∨
    ∃ transfer, params = some transfer ∧ params' = some { transfer with prefillContinues := true }

variable {maxModelLen : Nat} {r r' : Request}

theorem stopAfterToken_false (h : stopAfterToken maxModelLen r = (r', false)) : r' = r := by
  unfold stopAfterToken at h
  split at h
  · simp at h
  · split at h
    · exact (Prod.mk.inj h).1.symm
    · split at h
      · simp at h
      · exact (Prod.mk.inj h).1.symm

theorem stopAfterToken_true (h : stopAfterToken maxModelLen r = (r', true)) :
    ∃ status stopReason params, r' = { r with status, stopReason, kvTransferParams := params } ∧
      status.isFinished = true ∧ StopParams r.kvTransferParams params := by
  unfold stopAfterToken at h
  split at h
  · next hstop =>
    obtain ⟨rfl, -⟩ := Prod.mk.inj h
    exact ⟨_, _, _, rfl, checkStop_isFinished hstop, .inl rfl⟩
  · split at h
    · simp at h
    · next transfer htransfer =>
      split at h
      · obtain ⟨rfl, -⟩ := Prod.mk.inj h
        exact ⟨_, _, _, rfl, rfl, .inr ⟨transfer, htransfer, rfl⟩⟩
      · simp at h

theorem updateWithOutput_frame {ts used : List TokenId}
    {stopped : Bool} (h : r.updateWithOutput maxModelLen ts = (r', used, stopped)) :
    ∃ status stopReason params, r' = { r with
        outputTokenIds := r.outputTokenIds ++ used, status, stopReason,
        kvTransferParams := params } ∧
      StopParams r.kvTransferParams params ∧
      (stopped = false → status = r.status ∧ stopReason = r.stopReason ∧
        params = r.kvTransferParams ∧ used = ts) ∧
      (stopped = true → status.isFinished = true) := by
  induction ts generalizing r used with
  | nil =>
    simp only [updateWithOutput, Prod.mk.injEq] at h
    obtain ⟨rfl, rfl, rfl⟩ := h
    exact ⟨r.status, r.stopReason, r.kvTransferParams, by simp, .inl rfl,
      fun _ => ⟨rfl, rfl, rfl, rfl⟩, by simp⟩
  | cons t ts ih =>
    unfold updateWithOutput at h
    split at h
    · next r₁ hstop =>
      simp only [Prod.mk.injEq] at h
      obtain ⟨rfl, rfl, rfl⟩ := h
      obtain ⟨status, stopReason, params, rfl, hfinished, hparams⟩ := stopAfterToken_true hstop
      exact ⟨status, stopReason, params, rfl, hparams, by simp, fun _ => hfinished⟩
    · next r₁ hstop =>
      obtain rfl := stopAfterToken_false hstop
      obtain ⟨r₂, used₂, stopped₂, hrec⟩ : ∃ r₂ used₂ stopped₂, updateWithOutput maxModelLen
        (r.appendOutputTokenIds [t]) ts = (r₂, used₂, stopped₂) := ⟨_, _, _, rfl⟩
      simp only [hrec, Prod.mk.injEq] at h
      obtain ⟨rfl, rfl, rfl⟩ := h
      obtain ⟨status, stopReason, params, hr', hparams, hgoes, hstops⟩ := ih hrec
      refine ⟨status, stopReason, params, ?_, hparams, fun h => ?_, hstops⟩
      · rw [hr']
        simp [appendOutputTokenIds]
      · obtain ⟨h1, h2, h3, h4⟩ := hgoes h
        exact ⟨h1, h2, h3, by rw [h4]⟩

/-- The request asks a producer for its first token only. -/
def prefillFirst (r : Request) : Bool :=
  match r.kvTransferParams with
  | some transfer => transfer.prefillFirst
  | none => false

def ending (maxModelLen : Nat) (r : Request) : Option (RequestStatus × Option StopReason) :=
  (checkStop r.samplingParams maxModelLen r.numPromptTokens r.outputTokenIds).or
    (if r.prefillFirst then some (.finishedLengthCapped, none) else none)

theorem stopAfterToken_ending {stopped : Bool} (h : stopAfterToken maxModelLen r = (r', stopped)) :
    stopped = (r.ending maxModelLen).isSome ∧ ∀ e, r.ending maxModelLen = some e →
      r'.status = e.1 ∧ r'.stopReason = e.2.or r.stopReason := by
  unfold stopAfterToken at h
  unfold ending prefillFirst
  split at h
  · next status reason hstop =>
    obtain ⟨rfl, rfl⟩ := Prod.mk.inj h
    rw [hstop]
    refine ⟨rfl, fun e he => ?_⟩
    obtain rfl := Option.some.inj he
    exact ⟨rfl, rfl⟩
  · next hstop =>
    rw [hstop]
    split at h
    · next hnone =>
      obtain ⟨rfl, rfl⟩ := Prod.mk.inj h
      simp [hnone]
    · next transfer htransfer =>
      split at h
      · next hfirst =>
        obtain ⟨rfl, rfl⟩ := Prod.mk.inj h
        simp [htransfer, hfirst]
      · next hfirst =>
        obtain ⟨rfl, rfl⟩ := Prod.mk.inj h
        simp [htransfer, hfirst]

theorem updateWithOutput_singleton (maxModelLen : Nat) (r : Request) (t : TokenId) :
    r.updateWithOutput maxModelLen [t] =
      ((stopAfterToken maxModelLen (r.appendOutputTokenIds [t])).1, [t],
        (stopAfterToken maxModelLen (r.appendOutputTokenIds [t])).2) := by
  unfold updateWithOutput
  split
  · next h => rw [h]
  · next h =>
    rw [h]
    rfl

/-- The output of `update_from_output` for a request. -/
def toOutput (r : Request) (newTokenIds : List TokenId) (stopped : Bool)
    (kvTransferParams : Option KVTransferParams) : EngineCoreOutput where
  newTokenIds := newTokenIds
  finishReason := if stopped then r.status.getFinishedReason else none
  stopReason := r.stopReason
  kvTransferParams := kvTransferParams

end Request

end EldrServing.Engine
