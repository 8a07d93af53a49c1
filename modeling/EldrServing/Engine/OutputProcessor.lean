import EldrServing.Engine.Request

/-!
# The output processor

`RequestState` and `process_outputs` for one request with one completion: detokenize what the
engine core sent, check for stop strings, and make the output for the client.
-/

namespace EldrServing.Engine

set_option autoImplicit false

inductive RequestOutputKind where
  | cumulative
  | delta
  | finalOnly
  deriving DecidableEq, Repr

structure CompletionOutput where
  text : Text
  tokenIds : List TokenId
  finishReason : Option FinishReason
  stopReason : Option StopReason
  deriving DecidableEq, Repr

structure RequestOutput where
  output : CompletionOutput
  finished : Bool
  kvTransferParams : Option KVTransferParams

structure RequestState (σ : Type) where
  outputKind : RequestOutputKind
  detokenizer : IncrementalDetokenizer σ
  streamInterval : Nat
  sentTokensOffset : Nat

namespace RequestState

variable {σ : Type}

def fromNewRequest (D : TokenDecoder σ) (params : GenerationParams)
    (promptTokenIds : List TokenId) (outputKind : RequestOutputKind) (streamInterval : Nat) :
    Except PyError (RequestState σ) := do
  let (detokenizer, sentTokensOffset) ← PrefillFirst.primeDetokenizer D
    (.fromNewRequest D promptTokenIds params.sampling) params
  .ok { outputKind, detokenizer, streamInterval, sentTokensOffset }

def newCompletionOutput (st : RequestState σ) (tokenIds : List TokenId)
    (finishReason : Option FinishReason) (stopReason : Option StopReason) :
    RequestState σ × CompletionOutput :=
  let finished := finishReason.isSome
  let delta := decide (st.outputKind = .delta)
  let (detokenizer, text) := st.detokenizer.getNextOutputText finished delta
  ({ st with detokenizer },
    { text
      tokenIds := if delta then tokenIds else detokenizer.tokenIds
      finishReason
      stopReason := if finished then stopReason else none })

/-- Whether `make_request_output` makes an output now, given the stream interval. -/
def isDue (st : RequestState σ) (finished : Bool) : Bool :=
  if finished = false ∧ st.outputKind = .finalOnly then false
  else if 1 < st.streamInterval then
    finished || st.sentTokensOffset == 0 ||
      decide (st.streamInterval ≤ st.detokenizer.numOutputTokens - st.sentTokensOffset)
  else true

def takeDelta (st : RequestState σ) (newTokenIds : List TokenId) :
    RequestState σ × List TokenId :=
  if 1 < st.streamInterval ∧ st.outputKind = .delta then
    ({ st with sentTokensOffset := st.detokenizer.numOutputTokens },
      st.detokenizer.tokenIds.drop st.sentTokensOffset)
  else (st, newTokenIds)

def makeRequestOutput (st : RequestState σ) (newTokenIds : List TokenId)
    (finishReason : Option FinishReason) (stopReason : Option StopReason)
    (kvTransferParams : Option KVTransferParams) : RequestState σ × Option RequestOutput :=
  let finished := finishReason.isSome
  if st.isDue finished = false then (st, none)
  else
    let (st, newTokenIds) := st.takeDelta newTokenIds
    let (st, output) := st.newCompletionOutput newTokenIds finishReason stopReason
    (st, some { output, finished, kvTransferParams })

/-- On a producer that stopped only for the handoff, text that may still become part of a stop
string stays held back, and the parameters say whether the decoder continues. -/
def markHandoff (st : RequestState σ) (finishReason : Option FinishReason) (out : RequestOutput) :
    RequestOutput :=
  match out.kvTransferParams with
  | none => out
  | some transfer =>
    if transfer.prefillFirstTokenId.isNone then out
    else
      let continues := transfer.prefillContinues && decide (finishReason ≠ some .stop)
      let out := { out with
        kvTransferParams := some { transfer with prefillContinues := continues } }
      if continues then
        { out with output :=
          { out.output with text := (st.detokenizer.getNextOutputText false false).2 } }
      else out

/-- The finish and stop reason of an output: a matched stop string finishes the request here,
whatever the engine core said. -/
def finishOf (stopString : Option Text) (o : EngineCoreOutput) :
    Option FinishReason × Option StopReason :=
  match stopString with
  | some (c :: cs) => (some .stop, some (.text (c :: cs)))
  | _ => (o.finishReason, o.stopReason)

/-- One round of `process_outputs`: the new state, the output, and whether the request is done. -/
def processOutput (D : TokenDecoder σ) (st : RequestState σ) (o : EngineCoreOutput) :
    RequestState σ × Option RequestOutput × Bool :=
  let decoded := st.detokenizer.update D o.newTokenIds (decide (o.finishReason = some .stop))
  let finish := finishOf decoded.2 o
  let made := { st with detokenizer := decoded.1 }.makeRequestOutput o.newTokenIds finish.1
    finish.2 o.kvTransferParams
  (made.1, made.2.map (made.1.markHandoff finish.1), finish.1.isSome)

/-- The outputs for a request over the engine core's outputs; what comes for a request that is
gone is ignored. -/
def processOutputs (D : TokenDecoder σ) : RequestState σ → List EngineCoreOutput →
    List RequestOutput
  | _, [] => []
  | st, o :: os =>
    match st.processOutput D o with
    | (_, out, true) => out.toList
    | (st, out, false) => out.toList ++ processOutputs D st os

variable {st : RequestState σ} {text tokens : Nat}

theorem markHandoff_eq {f : Option FinishReason} {out : RequestOutput}
    {transfer : KVTransferParams} {continues : Bool} (hkv : out.kvTransferParams = some transfer)
    (hfirst : transfer.prefillFirstTokenId.isSome)
    (hc : (transfer.prefillContinues && decide (f ≠ some .stop)) = continues) :
    st.markHandoff f out =
      { out with
        output := { out.output with
          text := if continues then (st.detokenizer.getNextOutputText false false).2
            else out.output.text }
        kvTransferParams := some { transfer with prefillContinues := continues } } := by
  have hnone : ¬ transfer.prefillFirstTokenId.isNone = true := by
    rw [Option.isNone_iff_eq_none]
    exact Option.isSome_iff_ne_none.mp hfirst
  unfold markHandoff
  rw [hkv]
  simp only [hc, if_neg hnone]
  cases continues <;> rfl

theorem makeRequestOutput_finalOnly (hkind : st.outputKind = .finalOnly)
    (ts : List TokenId) (f : Option FinishReason) (r : Option StopReason)
    (kv : Option KVTransferParams) :
    st.makeRequestOutput ts f r kv =
      (st, f.map fun f =>
        { output :=
            { text := (st.detokenizer.getNextOutputText true false).2
              tokenIds := st.detokenizer.tokenIds
              finishReason := some f
              stopReason := r }
          finished := true
          kvTransferParams := kv }) := by
  cases f with
  | none => simp [makeRequestOutput, isDue, hkind]
  | some f =>
    simp [makeRequestOutput, isDue, takeDelta, newCompletionOutput, hkind]
    rw [← hkind]

/-- The offsets of what was sent, which a request that only sends its final output never reads. -/
def withOffsets (st : RequestState σ) (text tokens : Nat) : RequestState σ :=
  { st with detokenizer := st.detokenizer.withOffset text, sentTokensOffset := tokens }

/-- The offsets `text` and `tokens` are as good as those of `st`. -/
def SameOffsets (st : RequestState σ) (text tokens : Nat) : Prop :=
  st.outputKind = .finalOnly ∨
    (text = st.detokenizer.lastOutputTextOffset ∧
      (1 < st.streamInterval → tokens = st.sentTokensOffset))

theorem makeRequestOutput_withOffsets
    (h : st.SameOffsets text tokens) (ts : List TokenId) (f : Option FinishReason)
    (r : Option StopReason) (kv : Option KVTransferParams) :
    ∃ text' tokens',
      ((st.withOffsets text tokens).makeRequestOutput ts f r kv =
        ((st.makeRequestOutput ts f r kv).1.withOffsets text' tokens',
          (st.makeRequestOutput ts f r kv).2)) ∧
      (st.makeRequestOutput ts f r kv).1.SameOffsets text' tokens' := by
  rcases h with hkind | ⟨rfl, htokens⟩
  · -- a final output is the whole text
    have hdelta : st.outputKind ≠ .delta := by rw [hkind]; decide
    have hdue : (st.withOffsets text tokens).isDue f.isSome = st.isDue f.isSome := by
      cases f <;> simp [isDue, withOffsets, hkind]
    refine ⟨text, tokens, ?_, ?_⟩
    · simp only [makeRequestOutput, hdue]
      split
      · rfl
      · simp only [takeDelta, withOffsets, newCompletionOutput, hdelta, and_false, if_false,
          decide_false]
        rfl
    · refine Or.inl ?_
      simp only [makeRequestOutput]
      split
      · exact hkind
      · simp only [takeDelta, newCompletionOutput, hdelta, and_false, if_false]
        exact hkind
  · rcases Nat.lt_or_ge 1 st.streamInterval with hint | hint
    · obtain rfl := htokens hint
      exact ⟨_, _, rfl, Or.inr ⟨rfl, fun _ => rfl⟩⟩
    · have hnot : ¬ 1 < st.streamInterval := by omega
      have hdue : (st.withOffsets st.detokenizer.lastOutputTextOffset tokens).isDue f.isSome =
          st.isDue f.isSome := by
        simp [isDue, withOffsets, hnot]
      refine ⟨(st.makeRequestOutput ts f r kv).1.detokenizer.lastOutputTextOffset, tokens, ?_, ?_⟩
      · simp only [makeRequestOutput, hdue]
        split
        · rfl
        · simp only [takeDelta, withOffsets, hnot, false_and, if_false]
          rfl
      · refine Or.inr ⟨rfl, fun h => ?_⟩
        refine absurd ?_ hnot
        have hsame : (st.makeRequestOutput ts f r kv).1.streamInterval = st.streamInterval := by
          simp only [makeRequestOutput]
          split
          · rfl
          · simp only [takeDelta, newCompletionOutput, hnot, false_and, if_false]
        rwa [hsame] at h

theorem markHandoff_withOffsets (st : RequestState σ) (text tokens : Nat) :
    (st.withOffsets text tokens).markHandoff = st.markHandoff := rfl

theorem processOutput_withOffsets (D : TokenDecoder σ)
    (h : st.SameOffsets text tokens) (o : EngineCoreOutput) :
    ∃ text' tokens',
      ((st.withOffsets text tokens).processOutput D o =
        ((st.processOutput D o).1.withOffsets text' tokens', (st.processOutput D o).2)) ∧
      (st.processOutput D o).1.SameOffsets text' tokens' := by
  obtain ⟨decoded, hdec⟩ : ∃ decoded, decoded = st.detokenizer.update D o.newTokenIds
    (decide (o.finishReason = some .stop)) := ⟨_, rfl⟩
  have hdec' : (st.withOffsets text tokens).detokenizer.update D o.newTokenIds
      (decide (o.finishReason = some .stop)) = (decoded.1.withOffset text, decoded.2) := by
    rw [hdec]
    exact IncrementalDetokenizer.update_withOffset D st.detokenizer text _ _
  have hsame : ({ st with detokenizer := decoded.1 } : RequestState σ).SameOffsets text tokens := by
    rcases h with hkind | ⟨htext, htokens⟩
    · exact Or.inl hkind
    · refine Or.inr ⟨htext.trans ?_, htokens⟩
      rw [hdec]
      exact (IncrementalDetokenizer.update_offset D st.detokenizer _ _).symm
  obtain ⟨text', tokens', heq, hoff⟩ := makeRequestOutput_withOffsets hsame o.newTokenIds
    (finishOf decoded.2 o).1 (finishOf decoded.2 o).2 o.kvTransferParams
  refine ⟨text', tokens', ?_, ?_⟩
  · simp only [processOutput, ← hdec, hdec']
    rw [show ({ st.withOffsets text tokens with detokenizer := decoded.1.withOffset text } :
      RequestState σ) = ({ st with detokenizer := decoded.1 } : RequestState σ).withOffsets text tokens
      from rfl, heq]
    simp only [markHandoff_withOffsets]
  · simp only [processOutput, ← hdec]
    exact hoff

theorem processOutputs_withOffsets (D : TokenDecoder σ)
    (h : st.SameOffsets text tokens) (os : List EngineCoreOutput) :
    (st.withOffsets text tokens).processOutputs D os = st.processOutputs D os := by
  induction os generalizing st text tokens with
  | nil => rfl
  | cons o os ih =>
    obtain ⟨text', tokens', heq, hsame⟩ := processOutput_withOffsets D h o
    simp only [processOutputs, heq]
    generalize st.processOutput D o = res at hsame ⊢
    obtain ⟨st', out, _ | _⟩ := res
    · exact congrArg (out.toList ++ ·) (ih hsame)
    · rfl

end RequestState

end EldrServing.Engine
