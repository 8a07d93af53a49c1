import EldrServing.Engine.Request
import EldrServing.KVCache.Manager
import Mathlib.Data.Finset.Basic

/-!
# The NIXL connector on the scheduler's side

`NixlConnectorScheduler`: which requests load their KV from a remote engine, which finished
requests keep their blocks for a remote reader, and the metadata for the worker. The host
buffer and Mamba truncation are not modelled. Every call returns the request too, since the
connector writes to its `kv_transfer_params`.
-/

namespace EldrServing.Nixl

set_option autoImplicit false

open Engine KVCache

abbrev BlockIds := List (List Nat)

/-- An entry of the receive queue. `external` are the tokens that the allocation left to the
remote engine; there are none if `request_finished` placed the entry. -/
structure RecvEntry where
  requestId : ReqId
  external : Option Nat
  blockIds : BlockIds

structure NixlConnectorScheduler where
  engineId : Nat := 0
  sideChannelHost : String := ""
  sideChannelPort : Nat := 0
  tensorParallelSize : Nat := 1
  isHmaRequired : Bool := false
  blocksPerSw : List Nat := []
  kvRecomputeThreshold : Nat := 64
  isBidirectionalKvXferEnabled : Bool := false
  /-- `VLLM_NIXL_ABORT_REQUEST_TIMEOUT`. -/
  abortRequestTimeout : Nat := 480
  reqsNeedRecv : Dict ReqId BlockIds := .empty
  reqsNeedSend : Dict ReqId Nat := .empty
  reqsInBatch : Finset ReqId := ∅
  reqsNotProcessed : Finset ReqId := ∅
  /-- Not in the source: every entry put in `reqsNeedRecv` so far, oldest first. -/
  recvLog : List RecvEntry := []

structure NixlConnectorMetadata where
  reqsToRecv : Dict ReqId BlockIds
  reqsToSend : Dict ReqId Nat
  reqsInBatch : Finset ReqId
  reqsNotProcessed : Finset ReqId

namespace NixlConnectorScheduler

@[simps] def needRecv (c : NixlConnectorScheduler) (entry : RecvEntry) : NixlConnectorScheduler :=
  { c with
    reqsNeedRecv := c.reqsNeedRecv.insert entry.requestId entry.blockIds
    recvLog := c.recvLog ++ [entry] }

def getSwClippedBlocks (c : NixlConnectorScheduler) (blockIds : BlockIds) :
    Except PyError BlockIds :=
  if blockIds = [] ∨ c.isHmaRequired = false then .ok blockIds
  else do
    assert (blockIds.length = c.blocksPerSw.length) "Number of KV cache groups must match"
    .ok (blockIds.zipWith
      (fun blocks n => if 0 < n then blocks.drop (blocks.length - n) else blocks) c.blocksPerSw)

/-- The number of tokens to load from the remote engine, and whether that is asynchronous. -/
def getNumNewMatchedTokens (c : NixlConnectorScheduler) (request : Request)
    (numComputedTokens : Nat) : Nat × Bool :=
  match request.kvTransferParams with
  | none => (0, false)
  | some params =>
    if params.doRemotePrefill ∧ numComputedTokens < request.numPromptTokens then
      (request.numPromptTokens - numComputedTokens, true)
    else if params.doRemoteDecode ∧ params.remoteBlockIds ≠ [] ∧ params.remote.isSome then
      -- a decoder holds KV for a part of this prefill
      let count := min params.remoteNumTokens request.numPromptTokens - numComputedTokens
      if 0 < count ∧ ¬ (0 < c.kvRecomputeThreshold ∧ count < c.kvRecomputeThreshold) then
        (count, true)
      else (0, false)
    else (0, false)

/-- Whether `update_state_after_alloc` sees a load to start. -/
def startsLoad (c : NixlConnectorScheduler) (params : KVTransferParams) : Bool :=
  params.doRemotePrefill ||
    (params.doRemoteDecode && c.isBidirectionalKvXferEnabled && !params.remoteBlocksProcessed)

/-- The worker is to track a request whose blocks may be read by the other side. -/
def trackBatch (c : NixlConnectorScheduler) (r : ReqId) (params : KVTransferParams) :
    NixlConnectorScheduler :=
  if params.doRemoteDecode ∨ (params.doRemotePrefill ∧ c.isBidirectionalKvXferEnabled) then
    { c with reqsInBatch := insert r c.reqsInBatch }
  else c

@[simp] theorem trackBatch_recvLog (c : NixlConnectorScheduler) (r : ReqId)
    (params : KVTransferParams) : (c.trackBatch r params).recvLog = c.recvLog := by
  unfold trackBatch
  split <;> rfl

def consumed (params : KVTransferParams) : KVTransferParams :=
  { params with doRemotePrefill := false, remoteBlocksProcessed := true }

/-- `update_state_after_alloc`; `unhashed` are the request's blocks without a hash. -/
def updateStateAfterAlloc (c : NixlConnectorScheduler) (request : Request) (unhashed : BlockIds)
    (numExternalTokens : Nat) : Except PyError (NixlConnectorScheduler × Request) :=
  match request.kvTransferParams with
  | none => .ok (c, request)
  | some params =>
    if c.startsLoad params then
      if params.remoteBlockIds ≠ [] then
        if params.remote.isSome then do
          -- with no external tokens the prompt is cached here: the empty list only notifies
          let blockIds ← c.getSwClippedBlocks (if 0 < numExternalTokens then unhashed else [])
          .ok ((c.trackBatch request.requestId params).needRecv
              ⟨request.requestId, some numExternalTokens, blockIds⟩,
            { request with kvTransferParams := some (consumed params) })
        else
          .ok (c.trackBatch request.requestId params,
            { request with kvTransferParams := some (consumed params) })
      else do
        assert (numExternalTokens = 0) ""
        .ok (c.trackBatch request.requestId params,
          { request with kvTransferParams := some (consumed params) })
    else .ok (c.trackBatch request.requestId params, request)

def buildConnectorMeta (c : NixlConnectorScheduler) :
    NixlConnectorMetadata × NixlConnectorScheduler :=
  ({ reqsToRecv := c.reqsNeedRecv
     reqsToSend := c.reqsNeedSend
     reqsInBatch := c.reqsInBatch
     reqsNotProcessed := c.reqsNotProcessed },
    { c with
      reqsNeedRecv := .empty
      reqsNeedSend := .empty
      reqsInBatch := ∅
      reqsNotProcessed := ∅ })

def handoffParams (c : NixlConnectorScheduler) (request : Request) (params : KVTransferParams)
    (blockIds : BlockIds) (remoteNumTokens : Nat) : Except PyError KVTransferParams := do
  let kvt : KVTransferParams :=
    { doRemotePrefill := params.doRemoteDecode
      doRemoteDecode := !params.doRemoteDecode
      remoteBlockIds := blockIds
      remote := some ⟨c.engineId, request.requestId, c.sideChannelHost, c.sideChannelPort⟩
      tpSize := c.tensorParallelSize
      remoteNumTokens }
  if params.doRemoteDecode ∧ params.prefillFirst then
    match request.outputTokenIds with
    | [token] =>
      .ok { kvt with
        prefillFirstTokenId := some token
        prefillPromptTokens := some request.numPromptTokens
        prefillContinues := params.prefillContinues }
    | _ => .error (.assertionError "")
  else .ok kvt

/-- `request_finished`: whether the blocks are kept for a remote reader, and its parameters. -/
def requestFinished (c : NixlConnectorScheduler) (request : Request) (blockIds : BlockIds)
    (now : Nat) :
    Except PyError ((Bool × Option KVTransferParams) × NixlConnectorScheduler × Request) :=
  match request.kvTransferParams with
  | none => .ok ((false, none), c, request)
  | some params =>
    if params.doRemotePrefill then
      -- finished before it was scheduled: only notify, so that the producer frees its blocks
      .ok ((false, none), c.needRecv ⟨request.requestId, none, []⟩,
        { request with kvTransferParams := some { params with doRemotePrefill := false } })
    else if params.doRemoteDecode = false ∧ c.isBidirectionalKvXferEnabled = false then
      .ok ((false, none), c, request)
    else if request.status ≠ .finishedLengthCapped ∧ request.status ≠ .finishedStopped then
      .ok ((false, none),
        { c with reqsNotProcessed := insert request.requestId c.reqsNotProcessed }, request)
    else if blockIds.any (· ≠ []) then do
      let c := { c with
        reqsNeedSend := c.reqsNeedSend.insert request.requestId (now + c.abortRequestTimeout) }
      let clipped ← c.getSwClippedBlocks blockIds
      let kvt ← c.handoffParams request params clipped request.numComputedTokens
      .ok ((true, some kvt), c, request)
    else do
      let kvt ← c.handoffParams request params blockIds 0
      .ok ((false, some kvt), c, request)

variable {c c' : NixlConnectorScheduler} {blockIds : BlockIds} {q q' request : Request}
  {n now : Nat}

theorem updateStateAfterAlloc_ok
    {unhashed : BlockIds} (h : c.updateStateAfterAlloc q unhashed n = .ok (c', q')) :
    (q.kvTransferParams = none ∧ c' = c ∧ q' = q) ∨
    ∃ params, q.kvTransferParams = some params ∧
      ((c.startsLoad params = false ∧ c' = c.trackBatch q.requestId params ∧ q' = q) ∨
       (c.startsLoad params = true ∧
        q' = { q with kvTransferParams := some (consumed params) } ∧
        (((params.remoteBlockIds = [] ∨ params.remote = none) ∧
            c' = c.trackBatch q.requestId params) ∨
          (params.remoteBlockIds ≠ [] ∧ params.remote.isSome ∧ ∃ blockIds,
            c.getSwClippedBlocks (if 0 < n then unhashed else []) = .ok blockIds ∧
            c' = (c.trackBatch q.requestId params).needRecv
              ⟨q.requestId, some n, blockIds⟩)))) := by
  unfold updateStateAfterAlloc at h
  split at h
  · next hnone =>
    obtain ⟨rfl, rfl⟩ := ok_pair_inj h
    exact .inl ⟨hnone, rfl, rfl⟩
  · next params hparams =>
    refine .inr ⟨params, hparams, ?_⟩
    split at h
    · next hload =>
      refine .inr ⟨hload, ?_⟩
      split at h
      · next hblocks =>
        split at h
        · next hremote =>
          simp only [except_bind_eq_ok] at h
          obtain ⟨blockIds, hclip, hok⟩ := h
          obtain ⟨rfl, rfl⟩ := ok_pair_inj hok
          exact ⟨rfl, .inr ⟨hblocks, hremote, blockIds, hclip, rfl⟩⟩
        · next hremote =>
          obtain ⟨rfl, rfl⟩ := ok_pair_inj h
          exact ⟨rfl, .inl ⟨.inr (by simpa using hremote), rfl⟩⟩
      · next hblocks =>
        rw [assert_bind_eq_ok] at h
        obtain ⟨rfl, rfl⟩ := ok_pair_inj h.2
        exact ⟨rfl, .inl ⟨.inl (by simpa using hblocks), rfl⟩⟩
    · next hload =>
      obtain ⟨rfl, rfl⟩ := ok_pair_inj h
      exact .inl ⟨by simpa using hload, rfl, rfl⟩

theorem updateStateAfterAlloc_request
    {unhashed : BlockIds} (h : c.updateStateAfterAlloc q unhashed n = .ok (c', q')) :
    ∃ params, q' = { q with kvTransferParams := params } := by
  rcases updateStateAfterAlloc_ok h with ⟨-, -, rfl⟩ | ⟨params, -, ⟨-, -, rfl⟩ | ⟨-, rfl, -⟩⟩
  · exact ⟨_, rfl⟩
  · exact ⟨_, rfl⟩
  · exact ⟨_, rfl⟩

theorem requestFinished_ok {res : Bool × Option KVTransferParams}
    (h : c.requestFinished q blockIds now = .ok (res, c', q')) :
    (∃ params, q.kvTransferParams = some params ∧ params.doRemotePrefill = true ∧
      res = (false, none) ∧ c' = c.needRecv ⟨q.requestId, none, []⟩ ∧
      q' = { q with kvTransferParams := some { params with doRemotePrefill := false } }) ∨
    ((∀ params, q.kvTransferParams = some params → params.doRemotePrefill = false) ∧
      c'.recvLog = c.recvLog ∧ q' = q) := by
  unfold requestFinished at h
  split at h
  · next hnone =>
    simp only [Except.ok.injEq, Prod.mk.injEq] at h
    obtain ⟨-, rfl, rfl⟩ := h
    exact .inr ⟨fun params hparams => by simp [hnone] at hparams, rfl, rfl⟩
  · next params hparams =>
    split at h
    · next hprefill =>
      simp only [Except.ok.injEq, Prod.mk.injEq] at h
      obtain ⟨rfl, rfl, rfl⟩ := h
      exact .inl ⟨params, hparams, hprefill, rfl, rfl, rfl⟩
    · next hprefill =>
      refine .inr ⟨fun params' hparams' => ?_, ?_⟩
      · obtain rfl := some_unique hparams hparams'
        simpa using hprefill
      split at h
      · simp only [Except.ok.injEq, Prod.mk.injEq] at h
        obtain ⟨-, rfl, rfl⟩ := h
        exact ⟨rfl, rfl⟩
      · split at h
        · simp only [Except.ok.injEq, Prod.mk.injEq] at h
          obtain ⟨-, rfl, rfl⟩ := h
          exact ⟨rfl, rfl⟩
        · split at h
          · simp only [except_bind_eq_ok] at h
            obtain ⟨_, -, _, -, hok⟩ := h
            simp only [Except.ok.injEq, Prod.mk.injEq] at hok
            obtain ⟨-, rfl, rfl⟩ := hok
            exact ⟨rfl, rfl⟩
          · simp only [except_bind_eq_ok] at h
            obtain ⟨_, -, hok⟩ := h
            simp only [Except.ok.injEq, Prod.mk.injEq] at hok
            obtain ⟨-, rfl, rfl⟩ := hok
            exact ⟨rfl, rfl⟩

theorem requestFinished_request {res : Bool × Option KVTransferParams}
    (h : c.requestFinished q blockIds now = .ok (res, c', q')) :
    ∃ params, q' = { q with kvTransferParams := params } := by
  rcases requestFinished_ok h with ⟨params, -, -, -, -, rfl⟩ | ⟨-, -, rfl⟩
  · exact ⟨_, rfl⟩
  · exact ⟨_, rfl⟩

theorem requestFinished_producer {params : KVTransferParams}
    {res : (Bool × Option KVTransferParams) × NixlConnectorScheduler × Request}
    (hparams : request.kvTransferParams = some params) (hprefill : params.doRemotePrefill = false)
    (hdecode : params.doRemoteDecode = true)
    (hstatus : request.status = .finishedStopped ∨ request.status = .finishedLengthCapped)
    (h : c.requestFinished request blockIds now = .ok res) :
    ∃ clipped n kvt, c.handoffParams request params clipped n = .ok kvt ∧
      res = ((blockIds.any (· ≠ []), some kvt),
        (if blockIds.any (· ≠ []) then
          { c with reqsNeedSend :=
            c.reqsNeedSend.insert request.requestId (now + c.abortRequestTimeout) }
        else c), request) := by
  have hkeep : ¬ (request.status ≠ .finishedLengthCapped ∧ request.status ≠ .finishedStopped) := by
    rcases hstatus with h | h <;> simp [h]
  unfold requestFinished at h
  simp only [hparams, hprefill, hdecode, Bool.false_eq_true, if_false, Bool.true_eq_false,
    false_and, if_neg hkeep] at h
  split at h
  · rename_i hany
    simp only [except_bind_eq_ok] at h
    obtain ⟨clipped, -, kvt, hkvt, hok⟩ := h
    refine ⟨clipped, _, kvt, hkvt, ?_⟩
    rw [← Except.ok.inj hok, hany]
    rfl
  · rename_i hany
    simp only [except_bind_eq_ok] at h
    obtain ⟨kvt, hkvt, hok⟩ := h
    refine ⟨blockIds, 0, kvt, hkvt, ?_⟩
    rw [← Except.ok.inj hok, if_neg hany, Bool.eq_false_iff.mpr hany]

theorem getSwClippedBlocks_total
    (h : c.isHmaRequired = true → blockIds.length = c.blocksPerSw.length) :
    ∃ clipped, c.getSwClippedBlocks blockIds = .ok clipped := by
  unfold getSwClippedBlocks
  split
  · exact ⟨_, rfl⟩
  · rename_i hcond
    rw [not_or, Bool.not_eq_false] at hcond
    exact ⟨_, assert_bind_eq_ok.mpr ⟨h hcond.2, rfl⟩⟩

theorem requestFinished_total {t : TokenId} (htokens : request.outputTokenIds = [t])
    (hgroups : c.isHmaRequired = true → blockIds.length = c.blocksPerSw.length) (now : Nat) :
    ∃ res, c.requestFinished request blockIds now = .ok res := by
  have hparams : ∀ (c : NixlConnectorScheduler) params blocks n,
      ∃ kvt, c.handoffParams request params blocks n = .ok kvt := by
    intro c params blocks n
    simp only [handoffParams, htokens]
    split
    · exact ⟨_, rfl⟩
    · exact ⟨_, rfl⟩
  unfold requestFinished
  split
  · exact ⟨_, rfl⟩
  rename_i params _
  split
  · exact ⟨_, rfl⟩
  split
  · exact ⟨_, rfl⟩
  split
  · exact ⟨_, rfl⟩
  split
  · obtain ⟨c', hc'⟩ : ∃ c', c' = { c with
      reqsNeedSend := c.reqsNeedSend.insert request.requestId (now + c.abortRequestTimeout) } :=
      ⟨_, rfl⟩
    obtain ⟨clipped, hclipped⟩ := getSwClippedBlocks_total (c := c') (by rw [hc']; exact hgroups)
    obtain ⟨kvt, hkvt⟩ := hparams c' params clipped request.numComputedTokens
    simp only [← hc', hclipped, hkvt, bind, Except.bind]
    exact ⟨_, rfl⟩
  · obtain ⟨kvt, hkvt⟩ := hparams c params blockIds 0
    simp only [hkvt, bind, Except.bind]
    exact ⟨_, rfl⟩

theorem handoffParams_prefillFirst {params kvt : KVTransferParams} {t : TokenId}
    (hdecode : params.doRemoteDecode = true) (hfirst : params.prefillFirst = true)
    (htokens : request.outputTokenIds = [t])
    (h : c.handoffParams request params blockIds n = .ok kvt) :
    kvt = { doRemotePrefill := true
            remoteBlockIds := blockIds
            remote := some ⟨c.engineId, request.requestId, c.sideChannelHost, c.sideChannelPort⟩
            tpSize := c.tensorParallelSize
            remoteNumTokens := n
            prefillFirstTokenId := some t
            prefillPromptTokens := some request.numPromptTokens
            prefillContinues := params.prefillContinues } := by
  unfold handoffParams at h
  simp only [hdecode, hfirst, htokens, and_self, if_true, Bool.not_true] at h
  exact (Except.ok.inj h).symm

end NixlConnectorScheduler

end EldrServing.Nixl
