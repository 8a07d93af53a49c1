import EldrServing.Encoder.Accounting
import EldrServing.Sched.Engine

/-!
# Scheduling multimodal requests

`schedule` and `update_from_output` with the encoder inputs of the requests. The scheduler of the
text model does what does not concern them; the loops are those of the source, with the choice of
inputs before the blocks are allocated, and the booking after.
-/

namespace EldrServing.Encoder

set_option autoImplicit false

open Engine KVCache Nixl Sched

variable {κ : Type} [DecidableEq κ]

/-- A connector for encoder outputs. It loads what is stored outside if it is a consumer. -/
structure ECConnector where
  isConsumer : Bool
  stored : MmHash → Bool

namespace ECConnector

def hasCacheItem (ec : Option ECConnector) (h : MmHash) : Bool := ec.any fun c => c.stored h

def loads (ec : Option ECConnector) (h : MmHash) : Bool :=
  ec.any fun c => c.isConsumer && c.stored h

end ECConnector

structure EncoderEnv where
  ord : SetOrder
  disableChunkedMmInput : Bool
  ecConnector : Option ECConnector
  mmFeatures : ReqId → List MmFeature

def EncoderEnv.request (env : EncoderEnv) (r : ReqId) : MmRequest := ⟨r, env.mmFeatures r⟩

/-- The encoder cache and the variables of `schedule` for encoder inputs. -/
structure EncoderPass where
  manager : EncoderCacheManager
  encoderComputeBudget : Nat
  scheduledEncoderInputs : Dict ReqId (List MmFeature) := .empty
  mmDatasNeedLoads : List MmHash := []
  /-- Not in the source: the outputs the worker has after the steps sent so far. -/
  worker : Finset MmHash
  /-- Not in the source: inputs booked in this step whose output the step does not bring. -/
  lost : List MmHash := []
  /-- Not in the source: inputs found in the cache, when it was consulted, without an output. -/
  unbacked : List MmHash := []

namespace EncoderPass

def brought (p : EncoderPass) : List MmHash :=
  p.scheduledEncoderInputs.entries.flatMap (fun e => e.2.map MmFeature.identifier) ++
    p.mmDatasNeedLoads

/-- The worker has the output, or will have it with this step. -/
def Backs (p : EncoderPass) (h : MmHash) : Prop :=
  h ∈ p.brought ∨ (h ∈ p.worker ∧ h ∉ p.manager.freed)

instance (p : EncoderPass) (h : MmHash) : Decidable (p.Backs h) :=
  inferInstanceAs (Decidable (_ ∨ _))

@[simps] def setManager (p : EncoderPass) (m : EncoderCacheManager) : EncoderPass :=
  { p with manager := m }

def unbackedInputs (env : EncoderEnv) (p : EncoderPass) (r : ReqId) : List MmHash :=
  ((env.mmFeatures r).map MmFeature.identifier).filter fun h =>
    p.manager.cached.contains h ∧ ¬ p.Backs h

/-- `_try_schedule_encoder_inputs` for a request with `numComputedTokens` computed tokens. -/
def choose (env : EncoderEnv) (p : EncoderPass) (r : ReqId) (numComputedTokens numNewTokens : Nat) :
    Except PyError (Choice × EncoderPass) := do
  let (c, m) ← tryScheduleEncoderInputs
    { numComputedTokens
      disableChunkedMmInput := env.disableChunkedMmInput
      hasCacheItem := ECConnector.hasCacheItem env.ecConnector }
    p.manager (env.request r) numNewTokens p.encoderComputeBudget
  .ok (c, { p with manager := m, unbacked := p.unbacked ++ p.unbackedInputs env r })

def takeBack (p : EncoderPass) (r : ReqId) : EncoderPass :=
  let inputs := p.scheduledEncoderInputs.getD r []
  { p with
    scheduledEncoderInputs := p.scheduledEncoderInputs.erase r
    encoderComputeBudget := p.encoderComputeBudget + (inputs.map MmFeature.numEmbeds).sum
    lost := p.lost ++ inputs.map MmFeature.identifier }

def free (env : EncoderEnv) (p : EncoderPass) (r : ReqId) : EncoderPass :=
  p.setManager (p.manager.free env.ord (env.request r))

def preempt (env : EncoderEnv) (policy : SchedulingPolicy) (scheduledRunningReqs : List ReqId)
    (p : EncoderPass) (r : ReqId) : EncoderPass :=
  match policy with
  | .fcfs => p.free env r
  | .priority => if r ∈ scheduledRunningReqs then (p.takeBack r).free env r else p.free env r

/-- The chosen inputs of the scheduled request `r` are booked. -/
def book (env : EncoderEnv) (p : EncoderPass) (r : ReqId) (c : Choice) :
    Except PyError EncoderPass := do
  let m ← allocateInputs p.manager r c.inputs
  let ids := c.inputs.map MmFeature.identifier
  let p := { p with
    manager := m
    mmDatasNeedLoads := p.mmDatasNeedLoads ++ ids.filter (ECConnector.loads env.ecConnector)
    lost := p.lost ++ (c.externalLoadEncoderInput.map MmFeature.identifier).filter
      fun h => !ECConnector.loads env.ecConnector h }
  .ok (if c.encoderInputsToSchedule = [] then p
    else { p with
      scheduledEncoderInputs := p.scheduledEncoderInputs.insert r c.encoderInputsToSchedule
      encoderComputeBudget := c.encoderComputeBudget })

end EncoderPass

/-! ### `schedule` -/

namespace MmSchedule

open Scheduler

/-- The allocation loop for the running request `r`. -/
def allocateLoop (E : CacheEnv κ) (env : EncoderEnv) (r : ReqId) (numNewTokens : Nat) :
    Nat → Scheduler κ → StepState → Nat → EncoderPass →
      Except PyError (Bool × Scheduler κ × StepState × Nat × EncoderPass)
  | 0, _, _, _, _ => .error (.runtimeError "out of fuel")
  | fuel + 1, s, st, reqIndex, p => do
    let q ← s.getRequest r
    let (newBlocks, kv) ← s.kvCacheManager.allocateSlots (E.hasher.view q)
      { numNewTokens, newComputedBlocks := s.emptyKvCacheBlocks }
    let s := s.setKv kv
    match newBlocks with
    | some _ => .ok (true, s, st, reqIndex, p)
    | none =>
      match s.victim with
      | none => .error (.indexError "pop from empty list")
      | some v => do
        let p := p.preempt env s.config.policy st.scheduledRunningReqs v
        let (s, st, reqIndex) := s.takeVictim st reqIndex v
        let s ← s.preemptRequest v
        let st := { st with preemptedReqs := st.preemptedReqs ++ [v] }
        if v = r then .ok (false, s, st, reqIndex, p)
        else allocateLoop E env r numNewTokens fuel s st reqIndex p

def runningLoop (E : CacheEnv κ) (env : EncoderEnv) :
    Nat → Scheduler κ → StepState → Nat → EncoderPass →
      Except PyError (Scheduler κ × StepState × EncoderPass)
  | 0, _, _, _, _ => .error (.runtimeError "out of fuel")
  | fuel + 1, s, st, reqIndex, p =>
    match s.running[reqIndex]? with
    | none => .ok (s, st, p)
    | some r =>
      if st.tokenBudget = 0 then .ok (s, st, p)
      else do
        let q ← s.getRequest r
        let n := numNewTokensRunning s.config q st.tokenBudget
        if reachesMaxTokens q then runningLoop E env fuel s st (reqIndex + 1) p
        else if s.config.maxModelLen ≤ q.numComputedTokens then
          .error (.valueError "negative number of tokens")
        else do
          let (c, p) ← p.choose env r q.numComputedTokens n
          if c.numNewTokens = 0 then runningLoop E env fuel s st (reqIndex + 1) p
          else do
            let (fits, s, st, reqIndex, p) ←
              allocateLoop E env r c.numNewTokens (s.running.length + 1) s st reqIndex p
            if fits then do
              let p ← p.book env r c
              runningLoop E env fuel s (scheduleRunning st r c.numNewTokens) (reqIndex + 1) p
            else .ok (s, st, p)

inductive Admission (κ : Type) where
  | stop (s : Scheduler κ) (p : EncoderPass)
  | load (s : Scheduler κ) (p : EncoderPass)
  | run (s : Scheduler κ) (numNewTokens : Nat) (p : EncoderPass)

def chooseWaiting (env : EncoderEnv) (p : EncoderPass) (r : ReqId) (m : PrefixMatch) (n : Nat) :
    Except PyError (Choice × EncoderPass) :=
  if m.loadKvAsync then
    .ok ({ numNewTokens := n, encoderComputeBudget := p.encoderComputeBudget }, p)
  else p.choose env r m.numComputedTokens n

/-- The body of the loop for the waiting request `r`. -/
def tryAdmit (E : CacheEnv κ) (env : EncoderEnv) (s : Scheduler κ) (w : WaitingQueue) (r : ReqId)
    (tokenBudget : Nat) (p : EncoderPass) : Except PyError (Admission κ) := do
  let q ← s.getRequest r
  let m ← s.matchPrefix E q
  match ← numNewTokensWaiting s.config q m tokenBudget with
  | none => .ok (.stop s p)
  | some n => do
    let (c, p) ← chooseWaiting env p r m n
    if m.loadKvAsync = false ∧ c.numNewTokens = 0 then .ok (.stop s p)
    else do
      let (newBlocks, kv) ← s.allocateWaiting E q m c.numNewTokens
      let s := s.setKv kv
      match newBlocks with
      | none => .ok (.stop s (p.free env r))
      | some _ => do
        let (s, q) ← s.updateConnectorAfterAlloc r q m.numExternalComputedTokens
        let s := ((s.popRequest r w).logAction (.allocated r)).setHitBlocks r m.newComputedBlocks
        if m.loadKvAsync then
          .ok (.load (s.putRequest r { q with
            status := .waitingForRemoteKvs, numComputedTokens := m.numComputedTokens }) p)
        else if q.status = .waiting ∨ q.status = .preempted then do
          let s := s.setRunning (s.running ++ [r])
          let p ← p.book env r c
          .ok (.run (s.putRequest r { q with
            status := .running, numComputedTokens := m.numComputedTokens }) c.numNewTokens p)
        else .error (.runtimeError "Invalid request status")

def waitingLoop (E : CacheEnv κ) (env : EncoderEnv) :
    Nat → Scheduler κ → StepState → EncoderPass →
      Except PyError (Scheduler κ × StepState × EncoderPass)
  | 0, _, _, _ => .error (.runtimeError "out of fuel")
  | fuel + 1, s, st, p =>
    if st.tokenBudget = 0 ∨ s.running.length = s.config.maxNumRunningReqs then .ok (s, st, p)
    else
      match s.selectWaitingQueue with
      | none => .ok (s, st, p)
      | some (w, r) => do
        let (ready, s) ← s.tryPromote E r
        if ready = false then waitingLoop E env fuel (s.popRequest r w) (skipWaiting st r) p
        else
          match ← tryAdmit E env s w r st.tokenBudget p with
          | .stop s p => .ok (s, st, p)
          | .load s p => waitingLoop E env fuel s (skipWaiting st r) p
          | .run s n p => waitingLoop E env fuel s (scheduleWaiting st r n) p

def scheduleWaitingRequests (E : CacheEnv κ) (env : EncoderEnv) (s : Scheduler κ) (st : StepState)
    (p : EncoderPass) : Except PyError (Scheduler κ × StepState × EncoderPass) :=
  if st.preemptedReqs = [] then do
    let (s, st, p) ←
      waitingLoop E env (s.waiting.length + s.skippedWaiting.length + 1) s st p
    .ok ({ s with skippedWaiting := st.stepSkippedWaiting.reverse ++ s.skippedWaiting },
      { st with stepSkippedWaiting := [] }, p)
  else .ok (s, st, p)

/-- `schedule`. The encoder's part of the output is in the pass that is returned. -/
def schedule (E : CacheEnv κ) (env : EncoderEnv) (s : Scheduler κ) (p : EncoderPass) :
    Except PyError (SchedulerOutput × Scheduler κ × EncoderPass) := do
  let (s, st, p) ← runningLoop E env (s.running.length + 1) s
    { tokenBudget := s.config.maxNumScheduledTokens } 0 p
  let (s, st, p) ← scheduleWaitingRequests E env s st p
  let (out, s) ← s.finishSchedule st
  .ok (out, s, p)

/-! ### `update_from_output` and the end of requests -/

def updateLoop (E : CacheEnv κ) (env : EncoderEnv) (failed : List ReqId)
    (sampled : ReqId → List TokenId) (now : Nat) :
    List (ReqId × Nat) → Scheduler κ → UpdateState → EncoderCacheManager →
      Except PyError (Scheduler κ × UpdateState × EncoderCacheManager)
  | [], s, u, m => .ok (s, u, m)
  | (r, n) :: rest, s, u, m => do
    assert (0 < n) ""
    if r ∈ failed then updateLoop E env failed sampled now rest s u m
    else
      match s.requests.get? r with
      | none => updateLoop E env failed sampled now rest s u m
      | some q =>
        if q.isFinished then updateLoop E env failed sampled now rest s u m
        else do
          -- `_free_encoder_inputs`, and `_free_request` for a request that stops
          let m := m.freePassed env.ord (env.request r) q.numComputedTokens
          let (s, u) ← s.updateRequest E u r q (sampled r) now
          let m := if r ∈ u.stoppedRunning ∨ r ∈ u.stoppedPreempted
            then m.free env.ord (env.request r) else m
          updateLoop E env failed sampled now rest s u m

/-- The encoder's part of `finish_requests`. -/
def freeFinished (env : EncoderEnv) (s : Scheduler κ) (requestIds : List ReqId)
    (m : EncoderCacheManager) : EncoderCacheManager :=
  (requestIds.dedup.filter (s.hasStatus fun st => !st.isFinished)).foldl
    (fun m r => m.free env.ord (env.request r)) m

def updateFromOutput (E : CacheEnv κ) (env : EncoderEnv) (s : Scheduler κ) (out : SchedulerOutput)
    (sampled : ReqId → List TokenId) (kv : KVConnectorOutput) (now : Nat)
    (m : EncoderCacheManager) :
    Except PyError (List (ReqId × EngineCoreOutput) × Scheduler κ × EncoderCacheManager) := do
  let (failed, s) ← s.checkInvalidBlocks out kv
  let (s, u, m) ← updateLoop E env failed sampled now out.numScheduledTokens.entries s {} m
  let s := s.removeStopped u
  let m := if failed ≠ [] ∧ s.config.recomputeKvLoadFailures = false
    then freeFinished env s failed m else m
  let s ← s.failRequests failed now
  let s ← s.updateFromKvXferFinished kv
  .ok (u.outputs, s, m)

end MmSchedule

/-! ### The engine core -/

structure MmEngine (κ : Type) where
  core : EngineCore κ
  encoder : EncoderCacheManager
  maxNumEncoderInputTokens : Nat
  disableChunkedMmInput : Bool := false
  ecConsumer : Option Bool := none
  ord : SetOrder
  mmFeatures : ReqId → List MmFeature := fun _ => []
  /-- Not in the source: the outputs the worker has after the steps sent so far. -/
  worker : Finset MmHash := ∅
  /-- Not in the source: the inputs found in the cache so far without an output. -/
  unbacked : List MmHash := []

/-- What is stored outside for the connector may differ from step to step. -/
inductive MmEvent where
  | add (req : EngineCoreRequest) (mmFeatures : List MmFeature) (now : Nat)
  | schedule (stored : MmHash → Bool)
  | update (sampled : ReqId → TokenId) (kv : KVConnectorOutput) (now : Nat)
  | finish (ids : List ReqId) (status : RequestStatus) (now : Nat)
  | resetEncoderCache

namespace MmEngine

def env (e : MmEngine κ) (stored : MmHash → Bool) : EncoderEnv where
  ord := e.ord
  disableChunkedMmInput := e.disableChunkedMmInput
  ecConnector := e.ecConsumer.map fun isConsumer => ⟨isConsumer, stored⟩
  mmFeatures := e.mmFeatures

def startPass (e : MmEngine κ) : EncoderPass where
  manager := e.encoder
  encoderComputeBudget := e.maxNumEncoderInputTokens
  worker := e.worker

def schedulePass (E : CacheEnv κ) (e : MmEngine κ) (stored : MmHash → Bool) :
    Except PyError (SchedulerOutput × Scheduler κ × EncoderPass) :=
  MmSchedule.schedule E (e.env stored) e.core.scheduler e.startPass

/-- The step is sent: the worker drops the outputs announced as freed, and then computes and loads
what the step brings. -/
def send (e : MmEngine κ) (out : SchedulerOutput) (s : Scheduler κ) (p : EncoderPass) :
    MmEngine κ :=
  let (freed, m) := p.manager.getFreedMmHashes
  { e with
    core := { e.core with scheduler := s, inFlight := e.core.inFlight ++ [out] }
    encoder := m
    worker := (e.worker \ freed.toFinset) ∪ p.brought.toFinset
    unbacked := e.unbacked ++ p.unbacked }

def step (E : CacheEnv κ) (e : MmEngine κ) : MmEvent → Option (MmEngine κ)
  | .add req mmFeatures now =>
    (e.core.step E (.add req now)).map fun core =>
      let e := { e with mmFeatures := Function.update e.mmFeatures req.requestId mmFeatures }
      { e with
        core := core
        encoder := if req.abortImmediately
          then e.encoder.free e.ord ⟨req.requestId, mmFeatures⟩ else e.encoder }
  | .schedule stored =>
    if e.core.inFlight.length < e.core.scheduler.config.maxInFlight then
      (e.schedulePass E stored).toOption.map fun (out, s, p) => e.send out s p
    else none
  | .update sampled kv now =>
    match e.core.inFlight with
    | [] => none
    | out :: rest =>
      (MmSchedule.updateFromOutput E (e.env fun _ => false) e.core.scheduler out
        (sampledTokens out sampled) kv now e.encoder).toOption.map fun (outs, s, m) =>
          { e with
            core := { e.core with
              scheduler := s, inFlight := rest, outputs := e.core.outputs ++ outs }
            encoder := m }
  | .finish ids status now =>
    (e.core.step E (.finish ids status now)).map fun core =>
      { e with
        core := core
        encoder := MmSchedule.freeFinished (e.env fun _ => false) e.core.scheduler ids e.encoder }
  | .resetEncoderCache => some { e with encoder := e.encoder.reset, worker := ∅ }

end MmEngine

end EldrServing.Encoder
