import EldrServing.Sched.Schedule
import Mathlib.Data.List.Sort

/-!
# Between two calls of `schedule`

Adding requests, the output of a step (`update_from_output`, with the async scheduler's
version of `_update_request_with_output`), failed loads of remote KV, and the ways in which a
request ends.
-/

namespace EldrServing.Sched

set_option autoImplicit false

open Engine KVCache Nixl

variable {κ : Type} [DecidableEq κ]

namespace Scheduler

/-! ### The end of a request -/

def freeBlocks (s : Scheduler κ) (r : ReqId) : Except PyError (Scheduler κ) := do
  let q ← s.getRequest r
  assert (q.isFinished = true) ""
  let kv ← s.kvCacheManager.free r
  .ok { s with
    kvCacheManager := kv
    delayedFreeReqIds := s.delayedFreeReqIds.erase r
    requests := s.requests.erase r
    log := s.log ++ [.freed r] }

/-- `_connector_finished`: whether the connector keeps the blocks, and its parameters. -/
def connectorFinished (s : Scheduler κ) (r : ReqId) (q : Request) (now : Nat) :
    Except PyError ((Bool × Option KVTransferParams) × Scheduler κ) :=
  match s.connector with
  | none => .ok ((false, none), s)
  | some c => do
    let kv ← s.kvCacheManager.removeSkippedBlocks r q.numComputedTokens
    let s := s.setKv kv
    let (res, c, q) ← c.requestFinished q (s.getBlockIds r) now
    .ok (res, (s.putRequest r q).setConnector c)

def logHandoff (s : Scheduler κ) (r : ReqId) : Option KVTransferParams → Scheduler κ
  | some params => s.logAction (.handedOff r params)
  | none => s

/-- `_free_request` for the request `r` with the finished record `q`. -/
def freeRequest (s : Scheduler κ) (r : ReqId) (q : Request) (delayFreeBlocks : Bool) (now : Nat) :
    Except PyError (Option KVTransferParams × Scheduler κ) := do
  assert (q.isFinished = true) ""
  let ((connectorDelay, params), s) ← (s.putRequest r q).connectorFinished r q now
  let s := s.logHandoff r params
  if delayFreeBlocks || connectorDelay then
    .ok (params, { s with delayedFreeReqIds := insert r s.delayedFreeReqIds })
  else do
    let s ← s.freeBlocks r
    .ok (params, s)

@[simps] def forgetLoad (s : Scheduler κ) (r : ReqId) : Scheduler κ :=
  { s with
    finishedRecvingKvReqIds := s.finishedRecvingKvReqIds.erase r
    failedRecvingKvReqIds := s.failedRecvingKvReqIds.erase r }

/-- The second pass of `finish_requests` for one request. -/
def finishRequest (s : Scheduler κ) (r : ReqId) (status : RequestStatus) (now : Nat) :
    Except PyError (Scheduler κ) := do
  let q ← s.getRequest r
  let loading := decide (q.status = .waitingForRemoteKvs)
  let delay := loading && !decide (r ∈ s.finishedRecvingKvReqIds)
  let (_, s) ← (if loading then s.forgetLoad r else s).freeRequest r { q with status } delay now
  .ok s

def hasStatus (s : Scheduler κ) (p : RequestStatus → Bool) (r : ReqId) : Bool :=
  match s.requests.get? r with
  | some q => p q.status
  | none => false

def finishRequests (s : Scheduler κ) (requestIds : List ReqId) (status : RequestStatus)
    (now : Nat) : Except PyError (Scheduler κ) := do
  assert (status.isFinished = true) ""
  let valid := requestIds.dedup.filter (s.hasStatus fun st => !st.isFinished)
  let runningToRemove := valid.filter (s.hasStatus fun st => st = .running)
  let waitingToRemove := valid.filter (s.hasStatus fun st => st ≠ .running)
  valid.foldlM (fun s r => s.finishRequest r status now)
    (s.setQueues (s.running.filter (· ∉ runningToRemove)) (s.waiting.filter (· ∉ waitingToRemove))
      (s.skippedWaiting.filter (· ∉ waitingToRemove)))

/-! ### New requests -/

/-- `Scheduler.add_request`, without streaming sessions. -/
def addRequest (s : Scheduler κ) (q : Request) : Except PyError (Scheduler κ) := do
  assert (s.requests.contains q.requestId = false) "duplicate request id"
  let s := if isBlockedWaitingStatus q.status
    then { s with skippedWaiting := s.skippedWaiting ++ [q.requestId] }
    else { s with waiting := s.waiting ++ [q.requestId] }
  .ok (s.putRequest q.requestId q)

/-- `EngineCore.add_request`: a pre-aborted request only runs the connector's hook. -/
def addRequestCore (s : Scheduler κ) (q : Request) (now : Nat) :
    Except PyError (Scheduler κ) := do
  let s ← s.addRequest q
  if q.abortImmediately then s.finishRequests [q.requestId] .finishedAborted now else .ok s

/-! ### Failed loads -/

/-- The state of `_update_requests_with_invalid_blocks` in its loop over the blocks of one
request. `marked` is kept from request to request. -/
structure InvalidScan where
  isAffected : Bool := false
  markedInvalidBlock : Bool := false
  marked : List Nat
  numComputedTokens : Nat
  blocksToEvict : List Nat := []

def scanBlock (blockSize : Nat) (blockIds invalid : List Nat) (acc : InvalidScan)
    (entry : Nat × Nat) : InvalidScan :=
  let (blockId, idx) := entry
  if blockId ∉ invalid then acc
  else if blockId ∈ acc.marked then { acc with isAffected := true }
  else if acc.markedInvalidBlock then
    { acc with isAffected := true, marked := blockId :: acc.marked }
  else
    { acc with
      isAffected := true
      marked := blockId :: acc.marked
      markedInvalidBlock := true
      numComputedTokens := idx * blockSize
      blocksToEvict := acc.blocksToEvict ++ blockIds.drop idx }

/-- The scan of one request with `numScheduled` tokens in the step. -/
def scanRequest (blockSize : Nat) (blockIds invalid marked : List Nat) (q : Request)
    (numScheduled : Nat) : InvalidScan :=
  let numComputed := q.numComputedTokens - numScheduled
  let acc := (blockIds.take (cdiv numComputed blockSize)).zipIdx.foldl
    (scanBlock blockSize blockIds invalid) { marked, numComputedTokens := q.numComputedTokens }
  if acc.isAffected && !acc.markedInvalidBlock then { acc with numComputedTokens := numComputed }
  else acc

/-- `_update_requests_with_invalid_blocks`: the affected requests and the blocks to evict. -/
def updateRequestsWithInvalidBlocks (invalid : List Nat) (numScheduledTokens : Dict ReqId Nat) :
    List ReqId → List Nat → Scheduler κ →
      Except PyError (List ReqId × List Nat × Scheduler κ)
  | [], _, s => .ok ([], [], s)
  | r :: rs, marked, s =>
    match s.kvCacheManager.singleTypeManagers with
    | [m] => do
      let q ← s.getRequest r
      let acc := scanRequest m.spec.blockSize (m.blocksOf r) invalid marked q
        (numScheduledTokens.getD r 0)
      let s := s.putRequest r { q with numComputedTokens := acc.numComputedTokens }
      let (affected, evict, s) ←
        updateRequestsWithInvalidBlocks invalid numScheduledTokens rs acc.marked s
      .ok (if acc.isAffected then r :: affected else affected, acc.blocksToEvict ++ evict, s)
    | _ => .error (.valueError "expected one KV cache group")

def notAfter (s : Scheduler κ) (r r' : ReqId) : Bool :=
  match s.requests.get? r, s.requests.get? r' with
  | some q, some q' => !q'.lt q
  | _, _ => true

def iterQueue (s : Scheduler κ) (queue : List ReqId) : List ReqId :=
  match s.config.policy with
  | .fcfs => queue
  | .priority => queue.insertionSort fun r r' => s.notAfter r r' = true

def evictInvalid (s : Scheduler κ) (evict : List Nat) : Except PyError (Scheduler κ) :=
  if evict ≠ [] ∧ s.config.recomputeKvLoadFailures = false then do
    let kv ← s.kvCacheManager.evictBlocks evict
    .ok (s.setKv kv)
  else .ok s

/-- `_handle_invalid_blocks`: the requests whose output is to be skipped. -/
def handleInvalidBlocks (s : Scheduler κ) (invalid : List Nat)
    (numScheduledTokens : Dict ReqId Nat) : Except PyError (List ReqId × Scheduler κ) := do
  let loading := (s.iterQueue s.skippedWaiting).filter
    (s.hasStatus fun st => st = .waitingForRemoteKvs)
  let (asyncFailed, _, s) ←
    updateRequestsWithInvalidBlocks invalid numScheduledTokens loading [] s
  let (syncFailed, evict, s) ←
    updateRequestsWithInvalidBlocks invalid numScheduledTokens s.running [] s
  if asyncFailed = [] ∧ syncFailed = [] then .ok ([], s)
  else do
    let s ← s.evictInvalid evict
    if s.config.recomputeKvLoadFailures then
      .ok (syncFailed, { s with
        failedRecvingKvReqIds := s.failedRecvingKvReqIds ∪ asyncFailed.toFinset })
    else .ok (asyncFailed ++ syncFailed, s)

/-! ### The output of a step -/

/-- `_update_request_with_output`, of the async scheduler if it is in use. -/
def updateRequestWithOutput (E : CacheEnv κ) (s : Scheduler κ) (q : Request)
    (newTokenIds : List TokenId) :
    Except PyError (Request × List TokenId × Bool × KVCacheManager κ) :=
  let (q', used, stopped) := q.updateWithOutput s.config.maxModelLen newTokenIds
  if s.config.asyncScheduling then do
    assert (used.length ≤ q'.numOutputPlaceholders) ""
    let q' := { q' with numOutputPlaceholders := q'.numOutputPlaceholders - used.length }
    if q.status = .running then do
      let kv ← s.kvCacheManager.cacheBlocks (E.hasher.view q')
        (q'.numComputedTokens - q'.numOutputPlaceholders)
      .ok (q', used, stopped, kv)
    else .ok (q', used, stopped, s.kvCacheManager)
  else .ok (q', used, stopped, s.kvCacheManager)

/-- What the loop of `update_from_output` collects. -/
structure UpdateState where
  outputs : List (ReqId × EngineCoreOutput) := []
  stoppedRunning : List ReqId := []
  stoppedPreempted : List ReqId := []

/-- The output of request `r`, which is not finished, with the tokens sampled for it. -/
def updateRequest (E : CacheEnv κ) (s : Scheduler κ) (u : UpdateState) (r : ReqId) (q : Request)
    (newTokenIds : List TokenId) (now : Nat) : Except PyError (Scheduler κ × UpdateState) :=
  if newTokenIds = [] then .ok (s, u)
  else do
    let (q', used, stopped, kv) ← s.updateRequestWithOutput E q newTokenIds
    let q' := { q' with prefillStats := false }
    let s := s.setKv kv
    if stopped then do
      let (params, s) ← s.freeRequest r q' false now
      let u := { u with outputs := u.outputs ++ [(r, q'.toOutput used true params)] }
      .ok (s, if q.status = .running then { u with stoppedRunning := u.stoppedRunning ++ [r] }
        else { u with stoppedPreempted := u.stoppedPreempted ++ [r] })
    else
      .ok (s.putRequest r q', { u with outputs := u.outputs ++ [(r, q'.toOutput used false none)] })

/-- The loop of `update_from_output` over the scheduled requests. -/
def updateLoop (E : CacheEnv κ) (failed : List ReqId) (sampled : ReqId → List TokenId)
    (now : Nat) : List (ReqId × Nat) → Scheduler κ → UpdateState →
      Except PyError (Scheduler κ × UpdateState)
  | [], s, u => .ok (s, u)
  | (r, n) :: rest, s, u => do
    assert (0 < n) ""
    if r ∈ failed then updateLoop E failed sampled now rest s u
    else
      match s.requests.get? r with
      | none => updateLoop E failed sampled now rest s u
      | some q =>
        if q.isFinished then updateLoop E failed sampled now rest s u
        else do
          let (s, u) ← s.updateRequest E u r q (sampled r) now
          updateLoop E failed sampled now rest s u

/-- `_update_from_kv_xfer_finished` for a request whose load has ended. -/
def finishedRecving (s : Scheduler κ) (r : ReqId) : Except PyError (Scheduler κ) := do
  assert (s.requests.contains r = true) ""
  let q ← s.getRequest r
  if q.status = .waitingForRemoteKvs then
    .ok { s with finishedRecvingKvReqIds := insert r s.finishedRecvingKvReqIds }
  else do
    assert (q.isFinished = true) ""
    s.freeBlocks r

def finishedSending (s : Scheduler κ) (r : ReqId) : Except PyError (Scheduler κ) := do
  assert (s.requests.contains r = true) ""
  s.freeBlocks r

def updateFromKvXferFinished (s : Scheduler κ) (kv : KVConnectorOutput) :
    Except PyError (Scheduler κ) := do
  let s ← kv.finishedRecving.foldlM finishedRecving s
  kv.finishedSending.foldlM finishedSending s

def failRequests (s : Scheduler κ) (failed : List ReqId) (now : Nat) :
    Except PyError (Scheduler κ) :=
  if failed ≠ [] ∧ s.config.recomputeKvLoadFailures = false
  then s.finishRequests failed .finishedError now else .ok s

/-- The first part of `update_from_output`. -/
def checkInvalidBlocks (s : Scheduler κ) (out : SchedulerOutput) (kv : KVConnectorOutput) :
    Except PyError (List ReqId × Scheduler κ) :=
  if kv.invalidBlockIds ≠ []
  then s.handleInvalidBlocks kv.invalidBlockIds out.numScheduledTokens else .ok ([], s)

def removeStopped (s : Scheduler κ) (u : UpdateState) : Scheduler κ :=
  s.setQueues (s.running.filter (· ∉ u.stoppedRunning))
    (s.waiting.filter (· ∉ u.stoppedPreempted)) s.skippedWaiting

/-- `update_from_output`, with the tokens the model runner returns for each request. -/
def updateFromOutput (E : CacheEnv κ) (s : Scheduler κ) (out : SchedulerOutput)
    (sampled : ReqId → List TokenId) (kv : KVConnectorOutput) (now : Nat) :
    Except PyError (List (ReqId × EngineCoreOutput) × Scheduler κ) := do
  let (failed, s) ← s.checkInvalidBlocks out kv
  let (s, u) ← updateLoop E failed sampled now out.numScheduledTokens.entries s {}
  let s ← (s.removeStopped u).failRequests failed now
  let s ← s.updateFromKvXferFinished kv
  .ok (u.outputs, s)

end Scheduler

end EldrServing.Sched
