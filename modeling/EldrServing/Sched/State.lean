import EldrServing.Nixl.Scheduler
import EldrServing.Sched.Prefix

/-!
# The scheduler's state

`Scheduler` and the variables of one call of `schedule`. Requests are objects that the queues
refer to by id. Text generation with prefix caching, chunked prefill, both policies, async
scheduling and a NIXL connector is modelled; encoder inputs, speculative tokens, LoRA,
structured output, Mamba, streaming sessions and pausing are not.
-/

namespace EldrServing.Sched

set_option autoImplicit false

open Engine KVCache Nixl

inductive SchedulingPolicy where
  | fcfs
  | priority
  deriving DecidableEq, Repr

structure SchedulerConfig where
  policy : SchedulingPolicy := .fcfs
  maxNumRunningReqs : Nat
  maxNumScheduledTokens : Nat
  longPrefillTokenThreshold : Nat := 0
  enableChunkedPrefill : Bool := true
  maxModelLen : Nat
  schedulerReserveFullIsl : Bool := true
  asyncScheduling : Bool := false
  recomputeKvLoadFailures : Bool := false

/-- What the scheduler has done with a request, for stating properties of whole runs. -/
inductive Action where
  | allocated (r : ReqId)
  | handedOff (r : ReqId) (params : KVTransferParams)
  /-- `_free_blocks` ran for the request. -/
  | freed (r : ReqId)
  deriving DecidableEq

structure Scheduler (κ : Type) where
  config : SchedulerConfig
  kvCacheManager : KVCacheManager κ
  connector : Option NixlConnectorScheduler := none
  requests : Dict ReqId Request := .empty
  waiting : List ReqId := []
  skippedWaiting : List ReqId := []
  running : List ReqId := []
  finishedRecvingKvReqIds : Finset ReqId := ∅
  failedRecvingKvReqIds : Finset ReqId := ∅
  delayedFreeReqIds : Finset ReqId := ∅
  /-- Not in the source: what was done so far, oldest first. -/
  log : List Action := []
  /-- Not in the source: the blocks of the last prefix hit of each request, by group. -/
  hitBlocks : ReqId → List (List Nat) := fun _ => []
  /-- Not in the source: the tokens of each request so far, also of those that have left. -/
  tokens : ReqId → List TokenId := fun _ => []

/-- The local variables of `schedule`. -/
structure StepState where
  tokenBudget : Nat
  scheduledRunningReqs : List ReqId := []
  numScheduledTokens : Dict ReqId Nat := .empty
  preemptedReqs : List ReqId := []
  stepSkippedWaiting : List ReqId := []
  /-- Not in the source: the requests that were preempted after this step had scheduled them. -/
  takenBack : List ReqId := []

/-- What `schedule` returns, as far as the modelled code looks at it. `sampledReqs` are the
requests whose scheduled tokens reach the end of what they have: the model runner returns a
token for these only. -/
structure SchedulerOutput where
  numScheduledTokens : Dict ReqId Nat
  /-- `num_computed_tokens` of the scheduled requests: the positions before those of the step. -/
  numComputedTokens : ReqId → Nat
  preemptedReqIds : List ReqId
  sampledReqs : List ReqId
  kvConnectorMetadata : Option NixlConnectorMetadata
  /-- Not in the source: the requests that were preempted after the step had scheduled them. -/
  takenBackReqIds : List ReqId := []

def SchedulerOutput.tokensAfter (out : SchedulerOutput) (r : ReqId) : Nat :=
  out.numComputedTokens r + out.numScheduledTokens.getD r 0

structure KVConnectorOutput where
  finishedSending : List ReqId := []
  finishedRecving : List ReqId := []
  invalidBlockIds : List Nat := []

def isBlockedWaitingStatus : RequestStatus → Bool
  | .waitingForStructuredOutputGrammar | .waitingForRemoteKvs | .waitingForStreamingReq => true
  | _ => false

namespace Scheduler

variable {κ : Type}

def getRequest (s : Scheduler κ) (r : ReqId) : Except PyError Request :=
  match s.requests.get? r with
  | some q => .ok q
  | none => .error (.keyError "")

@[simps] def putRequest (s : Scheduler κ) (r : ReqId) (q : Request) : Scheduler κ :=
  { s with
    requests := s.requests.insert r q
    tokens := Function.update s.tokens r q.allTokenIds }

@[simps] def setKv (s : Scheduler κ) (kv : KVCacheManager κ) : Scheduler κ :=
  { s with kvCacheManager := kv }

@[simps] def setConnector (s : Scheduler κ) (c : NixlConnectorScheduler) : Scheduler κ :=
  { s with connector := some c }

@[simps] def setRunning (s : Scheduler κ) (running : List ReqId) : Scheduler κ :=
  { s with running := running }

@[simps] def setQueues (s : Scheduler κ) (running waiting skippedWaiting : List ReqId) :
    Scheduler κ :=
  { s with running := running, waiting := waiting, skippedWaiting := skippedWaiting }

@[simps] def logAction (s : Scheduler κ) (a : Action) : Scheduler κ :=
  { s with log := s.log ++ [a] }

@[simps] def setHitBlocks (s : Scheduler κ) (r : ReqId) (hits : List (List Nat)) : Scheduler κ :=
  { s with hitBlocks := Function.update s.hitBlocks r hits }

/-- The element of the list that no other one beats; the first of several. -/
def best (s : Scheduler κ) (beats : Request → Request → Bool) : List ReqId → Option ReqId
  | [] => none
  | r :: rs =>
    match s.best beats rs with
    | none => some r
    | some r' =>
      match s.requests.get? r, s.requests.get? r' with
      | some q, some q' => if beats q' q then some r' else some r
      | _, _ => some r

/-- `peek_request`. A priority queue is kept as the list of its elements. -/
def peekRequest (s : Scheduler κ) (queue : List ReqId) : Option ReqId :=
  match s.config.policy with
  | .fcfs => queue.head?
  | .priority => s.best Request.lt queue

inductive WaitingQueue where
  | waiting
  | skipped

def queue (s : Scheduler κ) : WaitingQueue → List ReqId
  | .waiting => s.waiting
  | .skipped => s.skippedWaiting

/-- `pop_request` on the queue whose next request is `r`. -/
def popRequest (s : Scheduler κ) (r : ReqId) : WaitingQueue → Scheduler κ
  | .waiting => { s with waiting := s.waiting.erase r }
  | .skipped => { s with skippedWaiting := s.skippedWaiting.erase r }

/-- `_select_waiting_queue_for_scheduling`, with the request at the head of the queue. -/
def selectWaitingQueue (s : Scheduler κ) : Option (WaitingQueue × ReqId) :=
  match s.config.policy with
  | .fcfs =>
    match s.peekRequest s.skippedWaiting, s.peekRequest s.waiting with
    | some r, _ => some (.skipped, r)
    | none, some r => some (.waiting, r)
    | none, none => none
  | .priority =>
    match s.peekRequest s.waiting, s.peekRequest s.skippedWaiting with
    | some r, some r' =>
      match s.requests.get? r, s.requests.get? r' with
      | some q, some q' => if q.lt q' then some (.waiting, r) else some (.skipped, r')
      | _, _ => none
    | some r, none => some (.waiting, r)
    | none, some r' => some (.skipped, r')
    | none, none => none

def getBlockIds (s : Scheduler κ) (r : ReqId) : BlockIds :=
  s.kvCacheManager.singleTypeManagers.map (·.blocksOf r)

/-- `get_unhashed_block_ids_all_groups` of the request's blocks. -/
def getUnhashedBlockIds (s : Scheduler κ) (r : ReqId) : BlockIds :=
  (s.getBlockIds r).map (·.filter fun b =>
    (s.kvCacheManager.blockPool.blocks b).blockHash.isNone &&
      !(s.kvCacheManager.blockPool.blocks b).isNull)

end Scheduler

end EldrServing.Sched
