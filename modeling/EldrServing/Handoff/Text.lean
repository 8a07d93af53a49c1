import EldrServing.Engine.OutputProcessor
import EldrServing.Nixl.Scheduler

/-!
# The text of a prefill-first handoff

The proxy sends the text of the producer's response and then what the decoder streams. Both
engines run the same output processor; the decoder's detokenizer is primed with the first token.
The stream the client sees is the one a single engine would have sent for the same tokens.
-/

namespace EldrServing.Handoff

set_option autoImplicit false

open Engine Nixl

variable {σ : Type}

def producerParams (sampling : SamplingParams) : GenerationParams where
  sampling := sampling
  kvTransferParams := some { doRemoteDecode := true, prefillFirst := true }

/-- `unpack_prefill`: the handoff in the producer's response. -/
def unpackPrefill (result : RequestOutput) (promptTokenIds : List TokenId) :
    Except PyError KVTransferParams :=
  match result.kvTransferParams with
  | none => .error (.http 502 "Missing prefill-first handoff")
  | some transfer =>
    match transfer.prefillFirstTokenId with
    | none => .error (.http 502 "Invalid prefill-first token history")
    | some token =>
      if result.output.tokenIds = [token] ∧
          transfer.prefillPromptTokens = some promptTokenIds.length then
        .ok transfer
      else .error (.http 502 "Invalid prefill-first token history")

/-- `public_prefill`: a producer that only handed over has not finished the completion. -/
def publicPrefill (output : CompletionOutput) (continues : Bool) : CompletionOutput :=
  if continues then { output with finishReason := none, stopReason := none } else output

/-- One request on two engines and on one: what both have in common. -/
structure Setup (σ : Type) where
  decoder : TokenDecoder σ
  sampling : SamplingParams
  maxModelLen : Nat
  promptTokenIds : List TokenId
  streamInterval : Nat
  /-- The producer's connector, the blocks of the request and the time when it finished. -/
  connector : NixlConnectorScheduler
  requestId : Nat
  blockIds : BlockIds
  now : Nat
  groups : connector.isHmaRequired = true → blockIds.length = connector.blocksPerSw.length

namespace Setup

variable (S : Setup σ)

/-- The first output of a single engine that samples `t`. -/
def singleFirst (t : TokenId) : EngineCoreOutput :=
  let (r, used, stopped) := (Request.init S.requestId 0 0 { sampling := S.sampling }
    S.promptTokenIds false).updateWithOutput S.maxModelLen [t]
  r.toOutput used stopped none

/-- The only output of a producer that samples `t`. -/
def producerFirst (t : TokenId) : Except PyError EngineCoreOutput :=
  let (r, used, stopped) := (Request.init S.requestId 0 0 (producerParams S.sampling)
    S.promptTokenIds false).updateWithOutput S.maxModelLen [t]
  (S.connector.requestFinished r S.blockIds S.now).map fun res =>
    r.toOutput used stopped res.1.2

/-- What a single engine sends for `t` and the following outputs of its engine core. -/
def single (kind : RequestOutputKind) (t : TokenId) (rest : List EngineCoreOutput) :
    Except PyError (List CompletionOutput) := do
  let st ← RequestState.fromNewRequest S.decoder { sampling := S.sampling } S.promptTokenIds kind
    S.streamInterval
  .ok ((st.processOutputs S.decoder (S.singleFirst t :: rest)).map (·.output))

def producerResponse (t : TokenId) : Except PyError RequestOutput := do
  let o ← S.producerFirst t
  let st ← RequestState.fromNewRequest S.decoder (producerParams S.sampling) S.promptTokenIds
    .finalOnly S.streamInterval
  match (st.processOutput S.decoder o).2.1 with
  | none => .error (.http 502 "Missing prefill-first handoff")
  | some result => .ok result

def decoderOutputs (kind : RequestOutputKind) (transfer : KVTransferParams)
    (rest : List EngineCoreOutput) : Except PyError (List CompletionOutput) := do
  let st ← RequestState.fromNewRequest S.decoder
    { sampling := S.sampling, kvTransferParams := some transfer } S.promptTokenIds kind
    S.streamInterval
  .ok ((st.processOutputs S.decoder rest).map (·.output))

def streamed (t : TokenId) (rest : List EngineCoreOutput) :
    Except PyError (List CompletionOutput) := do
  let result ← S.producerResponse t
  let transfer ← unpackPrefill result S.promptTokenIds
  let first := publicPrefill result.output transfer.prefillContinues
  if transfer.prefillContinues then do
    let chunks ← S.decoderOutputs .delta transfer rest
    .ok (first :: chunks)
  else .ok [first]

/-- What the proxy answers when the client does not ask for a stream. -/
def whole (t : TokenId) (rest : List EngineCoreOutput) :
    Except PyError (List CompletionOutput) := do
  let result ← S.producerResponse t
  let transfer ← unpackPrefill result S.promptTokenIds
  if transfer.prefillContinues then S.decoderOutputs .finalOnly transfer rest
  else .ok [publicPrefill result.output false]

def suppressedText (transfer : KVTransferParams) : Text :=
  let params : GenerationParams := { sampling := S.sampling, kvTransferParams := some transfer }
  let primed := (IncrementalDetokenizer.fromNewRequest S.decoder S.promptTokenIds S.sampling).update
    S.decoder (PrefillFirst.firstTokenIds params) false
  (primed.1.getNextOutputText false true).2

/-! ### The first output -/

def firstStop (t : TokenId) : Option (RequestStatus × Option StopReason) :=
  checkStop S.sampling S.maxModelLen S.promptTokenIds.length [t]

theorem singleFirst_eq (t : TokenId) : S.singleFirst t =
    { newTokenIds := [t]
      finishReason := (S.firstStop t).bind (·.1.getFinishedReason)
      stopReason := (S.firstStop t).bind (·.2) } := by
  simp only [singleFirst, Request.updateWithOutput, Request.init, Request.stopAfterToken, firstStop,
    Request.appendOutputTokenIds, Request.numPromptTokens, PrefillFirst.firstTokenIds,
    PrefillFirst.transferParams, Option.getD_none, Option.toList_none, List.append_nil,
    List.nil_append, Bool.false_eq_true, if_false]
  cases checkStop S.sampling S.maxModelLen S.promptTokenIds.length [t] with
  | none => rfl
  | some v => simp [Request.toOutput]

def producerRequest (t : TokenId) : Request :=
  ((Request.init S.requestId 0 0 (producerParams S.sampling)
    S.promptTokenIds false).updateWithOutput S.maxModelLen [t]).1

theorem producerRequest_update (t : TokenId) :
    (Request.init S.requestId 0 0 (producerParams S.sampling)
      S.promptTokenIds false).updateWithOutput S.maxModelLen [t] =
      (S.producerRequest t, [t], true) ∧
    S.producerRequest t =
      { requestId := S.requestId
        samplingParams := S.sampling
        kvTransferParams := some { doRemoteDecode := true, prefillFirst := true,
                                   prefillContinues := (S.firstStop t).isNone }
        promptTokenIds := S.promptTokenIds
        outputTokenIds := [t]
        status := (S.firstStop t).elim .finishedLengthCapped (·.1)
        stopReason := (S.firstStop t).bind (·.2) } := by
  simp only [producerRequest, Request.updateWithOutput, Request.init, Request.stopAfterToken,
    firstStop, Request.appendOutputTokenIds, Request.numPromptTokens, producerParams,
    PrefillFirst.firstTokenIds, PrefillFirst.transferParams, Option.getD_some, Option.toList_none,
    List.append_nil, List.nil_append, Bool.false_eq_true, if_false, if_true]
  cases checkStop S.sampling S.maxModelLen S.promptTokenIds.length [t] with
  | none => exact ⟨rfl, rfl⟩
  | some v => simp

theorem producerFirst_ok {S : Setup σ} {t : TokenId} {o : EngineCoreOutput}
    (h : S.producerFirst t = .ok o) : ∃ kvt : KVTransferParams,
      o = { newTokenIds := [t]
            finishReason := (S.singleFirst t).finishReason.or (some .length)
            stopReason := (S.singleFirst t).stopReason
            kvTransferParams := some kvt } ∧
      kvt.prefillFirstTokenId = some t ∧
      kvt.prefillPromptTokens = some S.promptTokenIds.length ∧
      kvt.prefillContinues = (S.singleFirst t).finishReason.isNone := by
  obtain ⟨hupd, hreq⟩ := S.producerRequest_update t
  simp only [producerFirst, hupd] at h
  obtain ⟨res, hres, rfl⟩ : ∃ res, S.connector.requestFinished (S.producerRequest t) S.blockIds
      S.now = .ok res ∧ (S.producerRequest t).toOutput [t] true res.1.2 = o := by
    cases hres : S.connector.requestFinished (S.producerRequest t) S.blockIds S.now with
    | error e => rw [hres] at h; cases h
    | ok res =>
      rw [hres] at h
      exact ⟨res, rfl, Except.ok.inj h⟩
  have hstatus : (S.producerRequest t).status = .finishedStopped ∨
      (S.producerRequest t).status = .finishedLengthCapped := by
    rw [hreq]
    cases hv : S.firstStop t with
    | none => exact Or.inr rfl
    | some v => exact checkStop_first (r := v.2) hv
  obtain ⟨clipped, n, kvt, hkvt, rfl⟩ := NixlConnectorScheduler.requestFinished_producer
    (by rw [hreq]) (by rfl) (by rfl) hstatus hres
  have hfields := NixlConnectorScheduler.handoffParams_prefillFirst (t := t) (by rfl) (by rfl)
    (by rw [hreq]) hkvt
  have hfinish : (S.singleFirst t).finishReason.isNone = (S.firstStop t).isNone ∧
      (S.producerRequest t).status.getFinishedReason =
        (S.singleFirst t).finishReason.or (some .length) := by
    rw [hreq, singleFirst_eq]
    cases hv : S.firstStop t with
    | none => exact ⟨rfl, rfl⟩
    | some v =>
      rcases checkStop_first (r := v.2) hv with hs | hs <;> simp [hs, RequestStatus.getFinishedReason]
  refine ⟨kvt, ?_, ?_, ?_, ?_⟩
  · rw [Request.toOutput, if_pos rfl, hfinish.2, singleFirst_eq, hreq]
  · rw [hfields]
  · rw [hfields, hreq]
    rfl
  · rw [hfields, hfinish.1]

def start (kind : RequestOutputKind) : RequestState σ where
  outputKind := kind
  detokenizer := .fromNewRequest S.decoder S.promptTokenIds S.sampling
  streamInterval := S.streamInterval
  sentTokensOffset := 0

def firstDecoded (t : TokenId) : IncrementalDetokenizer σ × Option Text :=
  (IncrementalDetokenizer.fromNewRequest S.decoder S.promptTokenIds S.sampling).update S.decoder [t]
    (decide ((S.singleFirst t).finishReason = some .stop))

def firstFinish (t : TokenId) : Option FinishReason × Option StopReason :=
  RequestState.finishOf (S.firstDecoded t).2 (S.singleFirst t)

def firstChunk (t : TokenId) : CompletionOutput where
  text := ((S.firstDecoded t).1.getNextOutputText (S.firstFinish t).1.isSome false).2
  tokenIds := [t]
  finishReason := (S.firstFinish t).1
  stopReason := if (S.firstFinish t).1.isSome then (S.firstFinish t).2 else none

theorem firstDecoded_tokenIds (t : TokenId) : (S.firstDecoded t).1.tokenIds = [t] :=
  IncrementalDetokenizer.update_tokenIds S.decoder _ [t] _

theorem firstDecoded_offset (t : TokenId) : (S.firstDecoded t).1.lastOutputTextOffset = 0 :=
  IncrementalDetokenizer.update_offset S.decoder _ [t] _

theorem start_processOutput_delta (t : TokenId) :
    (S.start .delta).processOutput S.decoder (S.singleFirst t) =
      ({ outputKind := .delta
         detokenizer :=
           ((S.firstDecoded t).1.getNextOutputText (S.firstFinish t).1.isSome true).1
         streamInterval := S.streamInterval
         sentTokensOffset := if 1 < S.streamInterval then 1 else 0 },
        some ⟨S.firstChunk t, (S.firstFinish t).1.isSome, none⟩, (S.firstFinish t).1.isSome) := by
  have htokens : (S.singleFirst t).newTokenIds = [t] := by rw [singleFirst_eq]
  have hkv : (S.singleFirst t).kvTransferParams = none := by rw [singleFirst_eq]
  have hdec : (S.start .delta).detokenizer.update S.decoder [t]
      (decide ((S.singleFirst t).finishReason = some .stop)) = S.firstDecoded t := rfl
  have hfin : RequestState.finishOf (S.firstDecoded t).2 (S.singleFirst t) = S.firstFinish t := rfl
  have htok := S.firstDecoded_tokenIds t
  have htext := IncrementalDetokenizer.getNextOutputText_first (S.firstDecoded_offset t)
    (S.firstFinish t).1.isSome
  have hdue : ({ S.start .delta with detokenizer := (S.firstDecoded t).1 } : RequestState σ).isDue
      (S.firstFinish t).1.isSome = true := by
    simp [RequestState.isDue, start]
  simp only [RequestState.processOutput, htokens, hdec, hfin, hkv, RequestState.makeRequestOutput,
    hdue, Bool.true_eq_false, if_false]
  by_cases hint : 1 < S.streamInterval
  · simp [RequestState.takeDelta, RequestState.newCompletionOutput, RequestState.markHandoff, start,
      hint, htok, IncrementalDetokenizer.numOutputTokens, firstChunk, htext]
  · simp [RequestState.takeDelta, RequestState.newCompletionOutput, RequestState.markHandoff, start,
      hint, firstChunk, htext]

theorem start_processOutput_finalOnly (t : TokenId) :
    (S.start .finalOnly).processOutput S.decoder (S.singleFirst t) =
      ({ S.start .finalOnly with detokenizer := (S.firstDecoded t).1 },
        (if (S.firstFinish t).1.isSome then some ⟨S.firstChunk t, true, none⟩ else none),
        (S.firstFinish t).1.isSome) := by
  have htokens : (S.singleFirst t).newTokenIds = [t] := by rw [singleFirst_eq]
  have hkv : (S.singleFirst t).kvTransferParams = none := by rw [singleFirst_eq]
  have hdec : (S.start .finalOnly).detokenizer.update S.decoder [t]
      (decide ((S.singleFirst t).finishReason = some .stop)) = S.firstDecoded t := rfl
  have hfin : RequestState.finishOf (S.firstDecoded t).2 (S.singleFirst t) = S.firstFinish t := rfl
  have htok := S.firstDecoded_tokenIds t
  simp only [RequestState.processOutput, htokens, hdec, hfin, hkv]
  rw [RequestState.makeRequestOutput_finalOnly (by rfl)]
  cases hf : (S.firstFinish t).1 with
  | none => rfl
  | some f => simp [RequestState.markHandoff, firstChunk, hf, htok]

def continues (t : TokenId) : Bool := (S.firstFinish t).1.isNone

/-- The producer's response is the single engine's first chunk, in the form of a finished one, with
a handoff that says whether the completion goes on. -/
theorem producerResponse_ok {S : Setup σ} {t : TokenId} {result : RequestOutput}
    (h : S.producerResponse t = .ok result) : ∃ transfer,
      unpackPrefill result S.promptTokenIds = .ok transfer ∧
      transfer.prefillFirstTokenId = some t ∧ transfer.prefillContinues = S.continues t ∧
      publicPrefill result.output (S.continues t) = S.firstChunk t := by
  simp only [producerResponse, except_bind_eq_ok] at h
  obtain ⟨o, ho, st, hst, h⟩ := h
  obtain ⟨kvt, rfl, htoken, hprompt, hcont⟩ := producerFirst_ok ho
  obtain rfl : S.start .finalOnly = st := Except.ok.inj hst
  -- stopping for the handoff is not a stop for the detokenizer
  have hflag : decide ((S.singleFirst t).finishReason.or (some .length) = some .stop) =
      decide ((S.singleFirst t).finishReason = some .stop) := by
    cases (S.singleFirst t).finishReason <;> rfl
  have hdec : (S.start .finalOnly).detokenizer.update S.decoder [t]
      (decide ((S.singleFirst t).finishReason = some .stop)) = S.firstDecoded t := rfl
  have hfin : RequestState.finishOf (S.firstDecoded t).2
      { newTokenIds := [t]
        finishReason := (S.singleFirst t).finishReason.or (some .length)
        stopReason := (S.singleFirst t).stopReason
        kvTransferParams := some kvt } =
      ((S.firstFinish t).1.or (some .length), (S.firstFinish t).2) := by
    unfold firstFinish RequestState.finishOf
    rcases (S.firstDecoded t).2 with _ | _ | ⟨c, cs⟩ <;> rfl
  have hcontinues : (kvt.prefillContinues &&
      decide ((S.firstFinish t).1.or (some .length) ≠ some .stop)) = S.continues t := by
    rw [hcont, continues, firstFinish]
    unfold RequestState.finishOf
    rcases (S.firstDecoded t).2 with _ | _ | ⟨c, cs⟩ <;>
      rcases (S.singleFirst t).finishReason with _ | f <;> simp
  have htok := S.firstDecoded_tokenIds t
  simp only [RequestState.processOutput, hflag, hdec, hfin] at h
  rw [RequestState.makeRequestOutput_finalOnly (by rfl)] at h
  simp only [Option.map_map] at h
  cases hf : (S.firstFinish t).1 with
  | none =>
    have hc : S.continues t = true := by rw [continues, hf]; rfl
    rw [hf, hc, Option.none_or] at hcontinues
    simp only [hf, Option.none_or, Option.map_some, Except.ok.injEq, Function.comp_apply] at h
    rw [RequestState.markHandoff_eq (by rfl) (by rw [htoken]; rfl) hcontinues] at h
    subst h
    simp [htoken, hc, unpackPrefill, htok, hprompt, publicPrefill, firstChunk, hf]
  | some f =>
    have hc : S.continues t = false := by rw [continues, hf]; rfl
    rw [hf, hc, Option.some_or] at hcontinues
    simp only [hf, Option.some_or, Option.map_some, Except.ok.injEq, Function.comp_apply] at h
    rw [RequestState.markHandoff_eq (by rfl) (by rw [htoken]; rfl) hcontinues] at h
    subst h
    simp [htoken, hc, unpackPrefill, htok, hprompt, publicPrefill, firstChunk, hf]

theorem producerResponse_total (t : TokenId) : ∃ result, S.producerResponse t = .ok result := by
  obtain ⟨hupd, hreq⟩ := S.producerRequest_update t
  obtain ⟨res, hres⟩ := NixlConnectorScheduler.requestFinished_total
    (show (S.producerRequest t).outputTokenIds = [t] by rw [hreq]) S.groups S.now
  have hfirst : S.producerFirst t = .ok ((S.producerRequest t).toOutput [t] true res.1.2) := by
    simp only [producerFirst, hupd, hres]
    rfl
  obtain ⟨kvt, ho, -⟩ := producerFirst_ok hfirst
  rw [ho] at hfirst
  obtain ⟨result, hresult⟩ : ∃ result, ((S.start .finalOnly).processOutput S.decoder
      { newTokenIds := [t]
        finishReason := (S.singleFirst t).finishReason.or (some .length)
        stopReason := (S.singleFirst t).stopReason
        kvTransferParams := some kvt }).2.1 = some result := by
    simp only [RequestState.processOutput]
    rw [RequestState.makeRequestOutput_finalOnly (by rfl)]
    unfold RequestState.finishOf
    rcases ((S.start .finalOnly).detokenizer.update S.decoder [t] (decide
      ((S.singleFirst t).finishReason.or (some .length) = some .stop))).2 with _ | _ | ⟨c, cs⟩
    all_goals cases (S.singleFirst t).finishReason <;> exact ⟨_, rfl⟩
  refine ⟨result, except_bind_eq_ok.mpr ⟨_, hfirst, except_bind_eq_ok.mpr ⟨S.start .finalOnly, rfl, ?_⟩⟩⟩
  rw [hresult]

/-! ### The decoder -/

theorem continues_eq_true {S : Setup σ} {t : TokenId} (h : S.continues t = true) :
    (S.singleFirst t).finishReason = none ∧ (S.firstDecoded t).2 = none := by
  have hmem : ∀ s, (S.firstDecoded t).2 = some s → s ∈ S.sampling.stop := fun s hs =>
    IncrementalDetokenizer.update_mem
      (show S.firstDecoded t = ((S.firstDecoded t).1, some s) from Prod.ext rfl hs)
  rw [continues, firstFinish] at h
  unfold RequestState.finishOf at h
  rcases hss : (S.firstDecoded t).2 with _ | _ | ⟨c, cs⟩
  · rw [hss] at h
    exact ⟨by simpa using h, rfl⟩
  · exact absurd rfl (S.sampling.stop_ne_nil [] (hmem [] hss))
  · rw [hss] at h
    cases h

theorem firstDecoded_of_continues {S : Setup σ} {t : TokenId} (h : S.continues t = true) :
    (IncrementalDetokenizer.fromNewRequest S.decoder S.promptTokenIds S.sampling).update S.decoder
      [t] false = S.firstDecoded t := by
  rw [firstDecoded, (continues_eq_true h).1]
  rfl

theorem fromNewRequest_plain (kind : RequestOutputKind) :
    RequestState.fromNewRequest S.decoder { sampling := S.sampling } S.promptTokenIds kind
      S.streamInterval = .ok (S.start kind) := rfl

theorem fromNewRequest_primed {S : Setup σ} {t : TokenId} {transfer : KVTransferParams}
    (htoken : transfer.prefillFirstTokenId = some t) (h : S.continues t = true)
    (kind : RequestOutputKind) :
    RequestState.fromNewRequest S.decoder
      { sampling := S.sampling, kvTransferParams := some transfer } S.promptTokenIds kind
      S.streamInterval = .ok
        { outputKind := kind
          detokenizer := ((S.firstDecoded t).1.getNextOutputText false true).1
          streamInterval := S.streamInterval
          sentTokensOffset := 1 } := by
  have hprime : PrefillFirst.primeDetokenizer S.decoder
      (.fromNewRequest S.decoder S.promptTokenIds S.sampling)
      { sampling := S.sampling, kvTransferParams := some transfer } =
      .ok (((S.firstDecoded t).1.getNextOutputText false true).1, 1) := by
    have hnone : S.firstDecoded t = ((S.firstDecoded t).1, none) :=
      Prod.ext rfl (continues_eq_true h).2
    simp only [PrefillFirst.primeDetokenizer, PrefillFirst.firstTokenIds,
      PrefillFirst.transferParams, Option.getD_some, htoken, Option.toList_some,
      firstDecoded_of_continues h, List.cons_ne_nil, if_false]
    rw [hnone]
    rfl
  simp only [RequestState.fromNewRequest, hprime]
  rfl

theorem streamed_eq (t : TokenId) (rest : List EngineCoreOutput) :
    S.streamed t rest = S.single .delta t rest := by
  obtain ⟨result, hres⟩ := S.producerResponse_total t
  obtain ⟨transfer, hunpack, htoken, hcont, hfirst⟩ := producerResponse_ok hres
  simp only [streamed, hres, hunpack, hcont, hfirst, single, fromNewRequest_plain, bind, Except.bind,
    RequestState.processOutputs, start_processOutput_delta]
  cases hc : S.continues t with
  | false =>
    have hfin : (S.firstFinish t).1.isSome = true := by
      rw [continues, Option.isNone_eq_false_iff] at hc
      exact hc
    simp [hfin]
  | true =>
    have hfin : (S.firstFinish t).1.isSome = false := by
      rw [continues, Option.isNone_iff_eq_none] at hc
      rw [hc]
      rfl
    -- the decoder's state is the single engine's, up to an offset that is not read
    obtain ⟨st, hst⟩ : ∃ st : RequestState σ, st =
        { outputKind := .delta
          detokenizer := ((S.firstDecoded t).1.getNextOutputText false true).1
          streamInterval := S.streamInterval
          sentTokensOffset := if 1 < S.streamInterval then 1 else 0 } := ⟨_, rfl⟩
    have hsame : st.SameOffsets st.detokenizer.lastOutputTextOffset 1 := by
      refine Or.inr ⟨rfl, fun h => ?_⟩
      rw [hst] at h ⊢
      exact (if_pos h).symm
    have hprimed : RequestState.fromNewRequest S.decoder
        { sampling := S.sampling, kvTransferParams := some transfer } S.promptTokenIds .delta
        S.streamInterval = .ok (st.withOffsets st.detokenizer.lastOutputTextOffset 1) := by
      rw [fromNewRequest_primed htoken hc, hst]
      rfl
    simp only [decoderOutputs, hprimed, bind, Except.bind, hfin, ← hst,
      RequestState.processOutputs_withOffsets S.decoder hsame rest]
    rfl

theorem whole_eq (t : TokenId) (rest : List EngineCoreOutput) :
    S.whole t rest = S.single .finalOnly t rest := by
  obtain ⟨result, hres⟩ := S.producerResponse_total t
  obtain ⟨transfer, hunpack, htoken, hcont, hfirst⟩ := producerResponse_ok hres
  simp only [whole, hres, hunpack, hcont, single, fromNewRequest_plain, bind, Except.bind,
    RequestState.processOutputs, start_processOutput_finalOnly]
  cases hc : S.continues t with
  | false =>
    have hfin : (S.firstFinish t).1.isSome = true := by
      rw [continues, Option.isNone_eq_false_iff] at hc
      exact hc
    rw [hc] at hfirst
    simp [hfin, hfirst]
  | true =>
    have hfin : (S.firstFinish t).1.isSome = false := by
      rw [continues, Option.isNone_iff_eq_none] at hc
      rw [hc]
      rfl
    obtain ⟨st, hst⟩ : ∃ st : RequestState σ, st =
        { S.start .finalOnly with detokenizer := (S.firstDecoded t).1 } := ⟨_, rfl⟩
    obtain ⟨n, hn⟩ := (S.firstDecoded t).1.getNextOutputText_delta_fst false
    have hsame : st.SameOffsets n 1 := Or.inl (by rw [hst]; rfl)
    have hprimed : RequestState.fromNewRequest S.decoder
        { sampling := S.sampling, kvTransferParams := some transfer } S.promptTokenIds .finalOnly
        S.streamInterval = .ok (st.withOffsets n 1) := by
      rw [fromNewRequest_primed htoken hc, hn, hst]
      rfl
    simp only [decoderOutputs, hprimed, bind, Except.bind, hfin, ← hst,
      RequestState.processOutputs_withOffsets S.decoder hsame rest]
    rfl

theorem suppressedText_eq {S : Setup σ} {t : TokenId} {result : RequestOutput}
    {transfer : KVTransferParams} (hres : S.producerResponse t = .ok result)
    (hunpack : unpackPrefill result S.promptTokenIds = .ok transfer)
    (hcont : transfer.prefillContinues = true) : S.suppressedText transfer = result.output.text := by
  obtain ⟨transfer', hunpack', htoken, hcont', hfirst⟩ := producerResponse_ok hres
  obtain rfl : transfer = transfer' := Except.ok.inj (hunpack.symm.trans hunpack')
  have hc : S.continues t = true := hcont'.symm.trans hcont
  have hfin : (S.firstFinish t).1.isSome = false := by
    rw [continues, Option.isNone_iff_eq_none] at hc
    rw [hc]
    rfl
  have htext : result.output.text = (S.firstChunk t).text := by
    rw [← hfirst, publicPrefill, hc]
    rfl
  rw [htext, firstChunk, hfin, ← IncrementalDetokenizer.getNextOutputText_first
    (S.firstDecoded_offset t)]
  simp only [suppressedText, PrefillFirst.firstTokenIds, PrefillFirst.transferParams,
    Option.getD_some, htoken, Option.toList_some, firstDecoded_of_continues hc]

end Setup

def reported (chunks : List CompletionOutput) : Option (Option FinishReason × Option StopReason) :=
  chunks.getLast?.map fun o => (o.finishReason, o.stopReason)

/-- The handoff is lossless on text: over the same tokens the client of the proxy gets the text of a
single engine, streamed or not, and sees the same stop. The text the decoder does not send is the
text the producer released. -/
theorem handoff_text (S : Setup σ) (t : TokenId) (rest : List EngineCoreOutput) :
    ∃ result chunks singleChunks answer singleAnswer,
      S.producerResponse t = .ok result ∧
      S.streamed t rest = .ok chunks ∧ S.single .delta t rest = .ok singleChunks ∧
      (chunks.map (·.text)).flatten = (singleChunks.map (·.text)).flatten ∧
      reported chunks = reported singleChunks ∧
      S.whole t rest = .ok answer ∧ S.single .finalOnly t rest = .ok singleAnswer ∧
      answer.map (·.text) = singleAnswer.map (·.text) ∧
      reported answer = reported singleAnswer ∧
      ∀ transfer, unpackPrefill result S.promptTokenIds = .ok transfer →
        transfer.prefillContinues = true → S.suppressedText transfer = result.output.text := by
  obtain ⟨result, hres⟩ := S.producerResponse_total t
  have hsingle : ∀ kind, S.single kind t rest =
      .ok (((S.start kind).processOutputs S.decoder (S.singleFirst t :: rest)).map (·.output)) :=
    fun _ => rfl
  refine ⟨result, _, _, _, _, hres, (S.streamed_eq t rest).trans (hsingle .delta), hsingle .delta,
    rfl, rfl, (S.whole_eq t rest).trans (hsingle .finalOnly), hsingle .finalOnly, rfl, rfl, ?_⟩
  intro transfer hunpack hcont
  exact Setup.suppressedText_eq hres hunpack hcont

end EldrServing.Handoff
