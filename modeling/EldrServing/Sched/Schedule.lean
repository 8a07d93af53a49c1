import EldrServing.Sched.State

/-!
# `schedule`

One scheduling step: the running requests first, preempting others when blocks run out, then
the waiting ones. The loops carry fuel; each of them gets as much as it can use.
-/

namespace EldrServing.Sched

set_option autoImplicit false

open Engine KVCache Nixl

variable {κ : Type} [DecidableEq κ]

namespace Scheduler

/-! ### Running requests -/

/-- `_preempt_request`; the request has left the running queue. -/
def preemptRequest (s : Scheduler κ) (r : ReqId) : Except PyError (Scheduler κ) := do
  let q ← s.getRequest r
  assert (q.status = .running) "Only running requests can be preempted"
  let kv ← s.kvCacheManager.free r
  let s := (s.setKv kv).putRequest r { q with
    status := .preempted, numComputedTokens := 0, numPreemptions := q.numPreemptions + 1 }
  .ok { s with waiting := r :: s.waiting }

/-- No further step is needed: those under way reach `max_tokens`. -/
def reachesMaxTokens (q : Request) : Bool :=
  0 < q.numOutputPlaceholders &&
    q.numPromptTokens + q.samplingParams.maxTokens ≤
      q.numComputedTokens + 2 - q.numOutputPlaceholders

/-- The number of tokens to schedule for a running request that has a position left below
`max_model_len`. -/
def numNewTokensRunning (config : SchedulerConfig) (q : Request) (tokenBudget : Nat) : Nat :=
  let n := q.numTokens + q.numOutputPlaceholders - q.numComputedTokens
  let threshold := config.longPrefillTokenThreshold
  let n := if 0 < threshold ∧ threshold < n then threshold else n
  min (min n tokenBudget) (config.maxModelLen - 1 - q.numComputedTokens)

def emptyKvCacheBlocks (s : Scheduler κ) : List (List Nat) :=
  s.kvCacheManager.singleTypeManagers.map fun _ => []

def victim (s : Scheduler κ) : Option ReqId :=
  match s.config.policy with
  | .fcfs => s.running.getLast?
  | .priority => s.best Request.isPreemptedBefore s.running

def unschedule (st : StepState) (r : ReqId) : StepState :=
  { st with
    scheduledRunningReqs := st.scheduledRunningReqs.erase r
    tokenBudget := st.tokenBudget + st.numScheduledTokens.getD r 0
    numScheduledTokens := st.numScheduledTokens.erase r
    takenBack := st.takenBack ++ [r] }

/-- The victim leaves the running queue; with it goes what was scheduled for it already. -/
def takeVictim (s : Scheduler κ) (st : StepState) (reqIndex : Nat) (r : ReqId) :
    Scheduler κ × StepState × Nat :=
  match s.config.policy with
  | .fcfs => (s.setRunning s.running.dropLast, st, reqIndex)
  | .priority =>
    let s := s.setRunning (s.running.erase r)
    if r ∈ st.scheduledRunningReqs then (s, unschedule st r, reqIndex - 1) else (s, st, reqIndex)

/-- The allocation loop for the running request `r`: preempt until its tokens fit. The result
tells whether they do. -/
def allocateLoop (E : CacheEnv κ) (r : ReqId) (numNewTokens : Nat) :
    Nat → Scheduler κ → StepState → Nat → Except PyError (Bool × Scheduler κ × StepState × Nat)
  | 0, _, _, _ => .error (.runtimeError "out of fuel")
  | fuel + 1, s, st, reqIndex => do
    let q ← s.getRequest r
    let (newBlocks, kv) ← s.kvCacheManager.allocateSlots (E.hasher.view q)
      { numNewTokens, newComputedBlocks := s.emptyKvCacheBlocks }
    let s := s.setKv kv
    match newBlocks with
    | some _ => .ok (true, s, st, reqIndex)
    | none =>
      match s.victim with
      | none => .error (.indexError "pop from empty list")
      | some v => do
        let (s, st, reqIndex) := s.takeVictim st reqIndex v
        let s ← s.preemptRequest v
        let st := { st with preemptedReqs := st.preemptedReqs ++ [v] }
        if v = r then .ok (false, s, st, reqIndex)
        else allocateLoop E r numNewTokens fuel s st reqIndex

/-- The running request `r` takes part in the step with `n` tokens. -/
def scheduleRunning (st : StepState) (r : ReqId) (n : Nat) : StepState :=
  { st with
    scheduledRunningReqs := st.scheduledRunningReqs ++ [r]
    numScheduledTokens := st.numScheduledTokens.insert r n
    tokenBudget := st.tokenBudget - n }

def runningLoop (E : CacheEnv κ) :
    Nat → Scheduler κ → StepState → Nat → Except PyError (Scheduler κ × StepState)
  | 0, _, _, _ => .error (.runtimeError "out of fuel")
  | fuel + 1, s, st, reqIndex =>
    match s.running[reqIndex]? with
    | none => .ok (s, st)
    | some r =>
      if st.tokenBudget = 0 then .ok (s, st)
      else do
        let q ← s.getRequest r
        let n := numNewTokensRunning s.config q st.tokenBudget
        if reachesMaxTokens q then runningLoop E fuel s st (reqIndex + 1)
        else if s.config.maxModelLen ≤ q.numComputedTokens then
          -- the source goes on with a negative count, which no worker can run
          .error (.valueError "negative number of tokens")
        else if n = 0 then runningLoop E fuel s st (reqIndex + 1)
        else do
          let (fits, s, st, reqIndex) ←
            s.allocateLoop E r n (s.running.length + 1) st reqIndex
          if fits then runningLoop E fuel s (scheduleRunning st r n) (reqIndex + 1)
          else .ok (s, st)

/-! ### Waiting requests -/

def settleFailedLoad (E : CacheEnv κ) (s : Scheduler κ) (r : ReqId) (q : Request) :
    Except PyError (KVCacheManager κ) :=
  if q.numComputedTokens ≠ 0
  then s.kvCacheManager.cacheBlocks (E.hasher.view q) q.numComputedTokens
  else s.kvCacheManager.free r

/-- On a full prompt hit the last token is computed again, to sample the next one. -/
def recomputeLast (q : Request) : Request :=
  if q.numComputedTokens = q.numTokens then { q with numComputedTokens := q.numTokens - 1 } else q

/-- `_update_waiting_for_remote_kv`: the load has ended. -/
def updateWaitingForRemoteKv (E : CacheEnv κ) (s : Scheduler κ) (r : ReqId) (q : Request) :
    Except PyError (Scheduler κ × Request) :=
  let finishedRecvingKvReqIds := s.finishedRecvingKvReqIds.erase r
  if r ∈ s.failedRecvingKvReqIds then do
    let kv ← s.settleFailedLoad E r q
    .ok ({ s.setKv kv with
      failedRecvingKvReqIds := s.failedRecvingKvReqIds.erase r, finishedRecvingKvReqIds }, q)
  else do
    let kv ← s.kvCacheManager.cacheBlocks (E.hasher.view q) q.numComputedTokens
    .ok ({ s.setKv kv with finishedRecvingKvReqIds }, recomputeLast q)

/-- `_try_promote_blocked_waiting_request`. Only a load of remote KV blocks a request here. -/
def tryPromote (E : CacheEnv κ) (s : Scheduler κ) (r : ReqId) :
    Except PyError (Bool × Scheduler κ) := do
  let q ← s.getRequest r
  if q.status = .waitingForRemoteKvs ∧ r ∈ s.finishedRecvingKvReqIds then do
    let (s, q) ← s.updateWaitingForRemoteKv E r q
    let status := if 0 < q.numPreemptions then .preempted else .waiting
    .ok (true, s.putRequest r { q with status })
  else .ok (!isBlockedWaitingStatus q.status, s)

structure PrefixMatch where
  newComputedBlocks : List (List Nat)
  numNewLocalComputedTokens : Nat
  numExternalComputedTokens : Nat
  loadKvAsync : Bool
  numComputedTokens : Nat

def getComputedBlocks (E : CacheEnv κ) (s : Scheduler κ) (q : Request) : List (List Nat) × Nat :=
  if s.kvCacheManager.enableCaching = false ∨ q.skipReadingPrefixCache = true then
    (s.emptyKvCacheBlocks, 0)
  else
    E.lookup.findLongestCacheHit s.kvCacheManager (E.hasher.blockHashes q.allTokenIds)
      (q.numTokens - 1)

def getNumNewMatchedTokens (s : Scheduler κ) (q : Request) (numComputedTokens : Nat) :
    Nat × Bool :=
  match s.connector with
  | some c => c.getNumNewMatchedTokens q numComputedTokens
  | none => (0, false)

def matchPrefix (E : CacheEnv κ) (s : Scheduler κ) (q : Request) : Except PyError PrefixMatch :=
  if q.numComputedTokens = 0 then do
    let (hits, numLocal) := s.getComputedBlocks E q
    let (numExternal, loadKvAsync) := s.getNumNewMatchedTokens q numLocal
    assert (numLocal + numExternal ≤ q.numTokens) ""
    assert (q.prefillStats = true → numLocal + numExternal ≤ q.numPromptTokens) ""
    .ok ⟨hits, numLocal, numExternal, loadKvAsync, numLocal + numExternal⟩
  else .ok ⟨s.emptyKvCacheBlocks, 0, 0, false, q.numComputedTokens⟩

/-- The number of tokens to schedule for a waiting request; `none` when it must wait for a
step that takes its whole prefill. -/
def numNewTokensWaiting (config : SchedulerConfig) (q : Request) (m : PrefixMatch)
    (tokenBudget : Nat) : Except PyError (Option Nat) :=
  if m.loadKvAsync then do
    assert (0 < m.numExternalComputedTokens) ""
    .ok (some 0)
  else
    let n := q.numTokens - m.numComputedTokens
    let threshold := config.longPrefillTokenThreshold
    let n := if 0 < threshold ∧ threshold < n then threshold else n
    if config.enableChunkedPrefill = false ∧ tokenBudget < n then .ok none
    else do
      assert (0 < min n tokenBudget) ""
      .ok (some (min n tokenBudget))

def allocateWaiting (E : CacheEnv κ) (s : Scheduler κ) (q : Request) (m : PrefixMatch) (n : Nat) :
    Except PyError (Option (List (List Nat)) × KVCacheManager κ) :=
  s.kvCacheManager.allocateSlots (E.hasher.view q)
    { numNewTokens := n
      numNewComputedTokens := m.numNewLocalComputedTokens
      newComputedBlocks := m.newComputedBlocks
      numExternalComputedTokens := m.numExternalComputedTokens
      delayCacheBlocks := m.loadKvAsync
      fullSequenceMustFit := s.config.schedulerReserveFullIsl }

def updateConnectorAfterAlloc (s : Scheduler κ) (r : ReqId) (q : Request)
    (numExternalTokens : Nat) : Except PyError (Scheduler κ × Request) :=
  match s.connector with
  | none => .ok (s, q)
  | some c => do
    let (c, q) ← c.updateStateAfterAlloc q (s.getUnhashedBlockIds r) numExternalTokens
    .ok (s.setConnector c, q)

inductive Admission (κ : Type) where
  | stop (s : Scheduler κ)
  | load (s : Scheduler κ)
  | run (s : Scheduler κ) (numNewTokens : Nat)

/-- The body of the loop for the waiting request `r`, which is at the head of its queue. -/
def tryAdmit (E : CacheEnv κ) (s : Scheduler κ) (w : WaitingQueue) (r : ReqId)
    (tokenBudget : Nat) : Except PyError (Admission κ) := do
  let q ← s.getRequest r
  let m ← s.matchPrefix E q
  match ← numNewTokensWaiting s.config q m tokenBudget with
  | none => .ok (.stop s)
  | some n => do
    let (newBlocks, kv) ← s.allocateWaiting E q m n
    let s := s.setKv kv
    match newBlocks with
    | none => .ok (.stop s)
    | some _ => do
      let (s, q) ← s.updateConnectorAfterAlloc r q m.numExternalComputedTokens
      let s := ((s.popRequest r w).logAction (.allocated r)).setHitBlocks r m.newComputedBlocks
      if m.loadKvAsync then
        .ok (.load (s.putRequest r { q with
          status := .waitingForRemoteKvs, numComputedTokens := m.numComputedTokens }))
      else if q.status = .waiting ∨ q.status = .preempted then
        let s := s.setRunning (s.running ++ [r])
        .ok (.run (s.putRequest r { q with
          status := .running, numComputedTokens := m.numComputedTokens }) n)
      else .error (.runtimeError "Invalid request status")

def skipWaiting (st : StepState) (r : ReqId) : StepState :=
  { st with stepSkippedWaiting := r :: st.stepSkippedWaiting }

/-- The waiting request `r` takes part in the step with `n` tokens. -/
def scheduleWaiting (st : StepState) (r : ReqId) (n : Nat) : StepState :=
  { st with
    numScheduledTokens := st.numScheduledTokens.insert r n
    tokenBudget := st.tokenBudget - n }

def waitingLoop (E : CacheEnv κ) :
    Nat → Scheduler κ → StepState → Except PyError (Scheduler κ × StepState)
  | 0, _, _ => .error (.runtimeError "out of fuel")
  | fuel + 1, s, st =>
    if st.tokenBudget = 0 ∨ s.running.length = s.config.maxNumRunningReqs then .ok (s, st)
    else
      match s.selectWaitingQueue with
      | none => .ok (s, st)
      | some (w, r) => do
        let (ready, s) ← s.tryPromote E r
        if ready = false then waitingLoop E fuel (s.popRequest r w) (skipWaiting st r)
        else
          match ← s.tryAdmit E w r st.tokenBudget with
          | .stop s => .ok (s, st)
          | .load s => waitingLoop E fuel s (skipWaiting st r)
          | .run s n => waitingLoop E fuel s (scheduleWaiting st r n)

/-- The waiting requests are looked at only if no running one was preempted. -/
def scheduleWaitingRequests (E : CacheEnv κ) (s : Scheduler κ) (st : StepState) :
    Except PyError (Scheduler κ × StepState) :=
  if st.preemptedReqs = [] then do
    let (s, st) ← waitingLoop E (s.waiting.length + s.skippedWaiting.length + 1) s st
    .ok ({ s with skippedWaiting := st.stepSkippedWaiting.reverse ++ s.skippedWaiting },
      { st with stepSkippedWaiting := [] })
  else .ok (s, st)

/-! ### The end of the step -/

/-- `_update_after_schedule` for a request with `n` scheduled tokens. -/
def advance (asyncScheduling : Bool) (q : Request) (n : Nat) : Request :=
  let isPrefillChunk :=
    decide (q.numComputedTokens + n < q.numTokens + q.numOutputPlaceholders)
  { q with
    numComputedTokens := q.numComputedTokens + n
    isPrefillChunk
    numOutputPlaceholders :=
      if asyncScheduling && !isPrefillChunk then q.numOutputPlaceholders + 1
      else q.numOutputPlaceholders }

/-- `_update_after_schedule`, over the scheduled requests. -/
def updateAfterSchedule (s : Scheduler κ) :
    List (ReqId × Nat) → Except PyError (Scheduler κ × List ReqId)
  | [] => .ok (s, [])
  | (r, n) :: rest => do
    let q ← s.getRequest r
    let q := advance s.config.asyncScheduling q n
    let (s, sampled) ← (s.putRequest r q).updateAfterSchedule rest
    .ok (s, if q.isPrefillChunk then sampled else r :: sampled)

def takeConnectorMeta (s : Scheduler κ) : Scheduler κ × Option NixlConnectorMetadata :=
  match s.connector with
  | none => (s, none)
  | some c =>
    let (metadata, c) := c.buildConnectorMeta
    (s.setConnector c, some metadata)

def computedTokens (s : Scheduler κ) (r : ReqId) : Nat :=
  match s.requests.get? r with
  | some q => q.numComputedTokens
  | none => 0

def finishSchedule (s : Scheduler κ) (st : StepState) :
    Except PyError (SchedulerOutput × Scheduler κ) := do
  assert (st.numScheduledTokens.sumBy (fun _ n => n) ≤ s.config.maxNumScheduledTokens) ""
  assert (s.running.length ≤ s.config.maxNumRunningReqs) ""
  assert (st.numScheduledTokens.entries.length ≤ s.running.length) ""
  let (s, kvConnectorMetadata) := s.takeConnectorMeta
  let numComputedTokens := s.computedTokens
  let (s, sampledReqs) ← s.updateAfterSchedule st.numScheduledTokens.entries
  .ok ({ numScheduledTokens := st.numScheduledTokens
         numComputedTokens
         preemptedReqIds := st.preemptedReqs
         sampledReqs
         kvConnectorMetadata
         takenBackReqIds := st.takenBack }, s)

def schedule (E : CacheEnv κ) (s : Scheduler κ) :
    Except PyError (SchedulerOutput × Scheduler κ) := do
  let (s, st) ← s.runningLoop E (s.running.length + 1)
    { tokenBudget := s.config.maxNumScheduledTokens } 0
  let (s, st) ← s.scheduleWaitingRequests E st
  s.finishSchedule st

end Scheduler

end EldrServing.Sched
