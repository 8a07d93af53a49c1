import EldrServing.Lib.Machine
import EldrServing.Sched.State
import Mathlib.Data.List.Dedup

/-!
# The queues of the scheduler, with streaming sessions

Which queue a request is in depends on its status only, and on what other parts of the engine
answer: whether blocks can be allocated, whether a load has ended, whether a grammar is ready,
whether a sampled token stops the request. Here these answers are part of the events, so that
every configuration of the scheduler is covered: any limits, LoRA, encoder inputs, connectors.
A streaming session is a request that gets its input in several chunks under one id.
-/

namespace EldrServing.Sched.Sessions

set_option autoImplicit false

open Engine KVCache Function

/-- What the queue of a request depends on. A session update has the type `υ`; in the queue of
updates, `none` says that the session ends. -/
structure Entry (υ : Type) where
  status : RequestStatus
  numPreemptions : Nat := 0
  resumable : Bool := false
  streamingQueue : Option (List (Option υ)) := none

/-- The part of the scheduler that moves requests. A priority queue is the list of its elements in
any order. -/
structure Queues (υ : Type) where
  policy : SchedulingPolicy
  requests : ReqId → Option (Entry υ) := fun _ => none
  waiting : List ReqId := []
  skippedWaiting : List ReqId := []
  running : List ReqId := []

variable {υ : Type}

namespace Queues

def put (s : Queues υ) (r : ReqId) (e : Entry υ) : Queues υ :=
  { s with requests := update s.requests r (some e) }

def delete (s : Queues υ) (r : ReqId) : Queues υ :=
  { s with requests := update s.requests r none }

def unfinished (s : Queues υ) (r : ReqId) : Bool :=
  (s.requests r).any fun e => !e.status.isFinished

def enqueueWaitingRequest (s : Queues υ) (r : ReqId) (status : RequestStatus) : Queues υ :=
  if isBlockedWaitingStatus status then { s with skippedWaiting := s.skippedWaiting ++ [r] }
  else { s with waiting := s.waiting ++ [r] }

/-! ### Scheduling -/

def preemptRequest (s : Queues υ) (r : ReqId) : Option (Queues υ) :=
  match s.requests r with
  | none => none
  | some e =>
    if e.status = .running then
      some { s.put r { e with status := .preempted, numPreemptions := e.numPreemptions + 1 } with
        waiting := r :: s.waiting }
    else none

/-- A running request is preempted: the last one, or under `PRIORITY` the one of lowest
priority. -/
def preempt (s : Queues υ) (r : ReqId) : Option (Queues υ) :=
  match s.policy with
  | .fcfs =>
    if s.running.getLast? = some r then { s with running := s.running.dropLast }.preemptRequest r
    else none
  | .priority =>
    if r ∈ s.running then { s with running := s.running.erase r }.preemptRequest r else none

def queue (s : Queues υ) : Scheduler.WaitingQueue → List ReqId
  | .waiting => s.waiting
  | .skipped => s.skippedWaiting

def popRequest (s : Queues υ) (r : ReqId) : Scheduler.WaitingQueue → Queues υ
  | .waiting => { s with waiting := s.waiting.erase r }
  | .skipped => { s with skippedWaiting := s.skippedWaiting.erase r }

/-- The next request may be `r` from the queue `w`. `FCFS` takes the skipped ones first. -/
def selects (s : Queues υ) (w : Scheduler.WaitingQueue) (r : ReqId) : Bool :=
  match s.policy, w with
  | .fcfs, .skipped => s.skippedWaiting.head? = some r
  | .fcfs, .waiting => s.skippedWaiting = [] && s.waiting.head? = some r
  | .priority, w => r ∈ s.queue w

/-- `_try_promote_blocked_waiting_request`: the status with which the request can be scheduled.
`ready` says that its load has ended or its grammar is there. -/
def tryPromote (e : Entry υ) (ready : Bool) : Option RequestStatus :=
  match e.status with
  | .waitingForRemoteKvs =>
    if ready then some (if 0 < e.numPreemptions then .preempted else .waiting) else none
  | .waitingForStructuredOutputGrammar => if ready then some .waiting else none
  | .waitingForStreamingReq => none
  | status => some status

inductive Verdict where
  /-- It is skipped in this step: too many LoRA adapters, or the connector cannot tell yet. -/
  | pass
  | stop
  | load
  | run
  deriving DecidableEq

structure Turn where
  queue : Scheduler.WaitingQueue
  request : ReqId
  ready : Bool := false
  verdict : Verdict := .run

/-- The body of the loop; `passed` are the requests skipped so far in this step, the last one
first. The loop goes on unless the request did not fit. -/
def takeTurn (s : Queues υ) (passed : List ReqId) (t : Turn) :
    Option (Bool × Queues υ × List ReqId) :=
  if s.selects t.queue t.request = false then none
  else
    match s.requests t.request with
    | none => none
    | some e =>
      match tryPromote e t.ready with
      | none => some (true, s.popRequest t.request t.queue, t.request :: passed)
      | some status =>
        let s := s.put t.request { e with status }
        match t.verdict with
        | .stop => some (false, s, passed)
        | .pass => some (true, s.popRequest t.request t.queue, t.request :: passed)
        | .load =>
          some (true, (s.popRequest t.request t.queue).put t.request
            { e with status := .waitingForRemoteKvs }, t.request :: passed)
        | .run =>
          if status = .waiting ∨ status = .preempted then
            let s := s.popRequest t.request t.queue
            some (true, { s with running := s.running ++ [t.request] }.put t.request
              { e with status := .running }, passed)
          else none

def waitingLoop : List Turn → Queues υ → List ReqId → Option (Queues υ × List ReqId)
  | [], s, passed => some (s, passed)
  | t :: ts, s, passed =>
    match s.takeTurn passed t with
    | none => none
    | some (true, s, passed) => waitingLoop ts s passed
    | some (false, s, passed) => if ts = [] then some (s, passed) else none

def preemptAll : List ReqId → Queues υ → Option (Queues υ)
  | [], s => some s
  | r :: rs, s => (s.preempt r).bind (preemptAll rs)

/-- `schedule`: the running requests `preempts` are preempted, in this order; if there are none,
the waiting requests have their turns. -/
def schedule (s : Queues υ) (preempts : List ReqId) (turns : List Turn) : Option (Queues υ) :=
  (preemptAll preempts s).bind fun s =>
    if preempts = [] then
      (waitingLoop turns s []).map fun (s, passed) =>
        { s with skippedWaiting := passed.reverse ++ s.skippedWaiting }
    else if turns = [] then some s else none

/-- `reset_prefix_cache` with `reset_running_requests`: all running requests are preempted. -/
def resetRunning (s : Queues υ) : Option (Queues υ) :=
  s.running.reverse.foldlM (fun s r => s.preemptRequest r) { s with running := [] }

/-! ### Ends of requests -/

/-- `_free_request` for a request with a finished status; `delayed` says that its blocks are
still in use. -/
def freeRequest (s : Queues υ) (r : ReqId) (delayed : Bool) : Queues υ :=
  if delayed then s else s.delete r

def isRunning (s : Queues υ) (r : ReqId) : Bool :=
  (s.requests r).any fun e => e.status = .running

/-- The running ones of the requests leave `running`, the others the waiting queues. -/
def removeAll (s : Queues υ) (ids : List ReqId) : Queues υ :=
  { s with
    running := s.running.filter (· ∉ ids.filter s.isRunning)
    waiting := s.waiting.filter (· ∉ ids.filter (!s.isRunning ·))
    skippedWaiting := s.skippedWaiting.filter (· ∉ ids.filter (!s.isRunning ·)) }

def finishRequest (s : Queues υ) (r : ReqId) (status : RequestStatus) (delayed : Bool) :
    Queues υ :=
  match s.requests r with
  | some e => (s.put r { e with status }).freeRequest r delayed
  | none => s

def finishRequests (s : Queues υ) (ids : List ReqId) (status : RequestStatus)
    (delayed : ReqId → Bool) : Option (Queues υ) :=
  if status.isFinished = false then none
  else
    let valid := ids.dedup.filter s.unfinished
    some (valid.foldl (fun s r => s.finishRequest r status (delayed r)) (s.removeAll valid))

/-! ### New requests -/

/-- `add_request`. A resumable request carries a session update; `grammar` says that its
structured output needs a grammar. -/
def addRequest (s : Queues υ) (r : ReqId) (chunk : Option υ) (grammar delayed : Bool) :
    Option (Queues υ) :=
  match s.requests r with
  | none =>
    let status := if grammar then .waitingForStructuredOutputGrammar else .waiting
    some ((s.enqueueWaitingRequest r status).put r
      { status, resumable := chunk.isSome
        streamingQueue := if chunk.isSome then some [] else none })
  | some e =>
    if e.status ≠ .waitingForStreamingReq then
      -- a second request with this id must belong to a session
      e.streamingQueue.map fun queue => s.put r { e with streamingQueue := some (queue ++ [chunk]) }
    else
      match chunk with
      | some _ => some (s.put r { e with status := .waiting })
      | none => s.finishRequests [r] .finishedAborted fun _ => delayed

/-! ### The output of a step -/

inductive Outcome where
  | continues
  /-- A token stops the request with this status. -/
  | stops (status : { status : RequestStatus // status.isFinished = true })
  | rejected

/-- `_handle_stopped_request` for a request with the entry `e`: whether it is finished. -/
def handleStoppedRequest (s : Queues υ) (r : ReqId) (e : Entry υ) : Bool × Queues υ :=
  if e.resumable = false then (true, s.put r e)
  else
    match e.streamingQueue with
    | some (none :: rest) => (true, s.put r { e with streamingQueue := some rest })
    | some (some _ :: rest) =>
      (false, (s.put r { e with status := .waiting, streamingQueue := some rest
        }).enqueueWaitingRequest r .waiting)
    | _ =>
      (false, (s.put r { e with status := .waitingForStreamingReq
        }).enqueueWaitingRequest r .waitingForStreamingReq)

structure Stopped where
  running : List ReqId := []
  preempted : List ReqId := []

/-- The request `r` stops with the entry `e`; `status` is the one it had before. -/
def stopRequest (s : Queues υ) (u : Stopped) (r : ReqId) (e : Entry υ) (status : RequestStatus)
    (delayed : Bool) : Queues υ × Stopped :=
  let (finished, s) := s.handleStoppedRequest r e
  (if finished then s.freeRequest r delayed else s,
    if status = .running then { u with running := u.running ++ [r] }
    else { u with preempted := u.preempted ++ [r] })

/-- What the step's output says and what happens besides: requests whose loads failed are left
out, and finished if `fail` says so; loads and reads that have ended. -/
structure Output where
  outcome : ReqId → Outcome
  delayed : ReqId → Bool := fun _ => false
  skip : List ReqId := []
  fail : Bool := false
  finishedRecving : List ReqId := []
  finishedSending : List ReqId := []

def updateRequest (o : Output) (s : Queues υ) (u : Stopped) (r : ReqId) : Queues υ × Stopped :=
  match s.requests r with
  | none => (s, u)
  | some e =>
    if e.status.isFinished ∨ r ∈ o.skip then (s, u)
    else
      match o.outcome r with
      | .continues => (s, u)
      | .stops status => s.stopRequest u r { e with status } e.status (o.delayed r)
      | .rejected =>
        s.stopRequest u r { e with status := .finishedError, resumable := false } e.status
          (o.delayed r)

/-- The loop of `update_from_output` over the requests of the step. -/
def updateLoop (o : Output) : List ReqId → Queues υ → Stopped → Queues υ × Stopped
  | [], s, u => (s, u)
  | r :: rs, s, u =>
    let (s, u) := updateRequest o s u r
    updateLoop o rs s u

def removeStopped (s : Queues υ) (u : Stopped) : Queues υ :=
  { s with
    running := s.running.filter (· ∉ u.running)
    waiting := s.waiting.filter (· ∉ u.preempted) }

/-- `_update_from_kv_xfer_finished` for a load. -/
def finishedRecving (s : Queues υ) (r : ReqId) : Option (Queues υ) :=
  match s.requests r with
  | none => none
  | some e =>
    if e.status = .waitingForRemoteKvs then some s
    else if e.status.isFinished then some (s.delete r) else none

def finishedSending (s : Queues υ) (r : ReqId) : Option (Queues υ) :=
  match s.requests r with
  | none => none
  | some e => if e.status.isFinished then some (s.delete r) else none

def failRequests (s : Queues υ) (o : Output) : Option (Queues υ) :=
  if o.fail = false then some s
  else if ∀ r ∈ o.skip, (s.requests r).isSome then
    s.finishRequests o.skip .finishedError o.delayed
  else none

/-- `update_from_output` for a step with the requests `batch`. -/
def updateFromOutput (s : Queues υ) (batch : List ReqId) (o : Output) : Option (Queues υ) := do
  let (s, u) := updateLoop o batch s {}
  let s ← (s.removeStopped u).failRequests o
  let s ← o.finishedRecving.foldlM finishedRecving s
  o.finishedSending.foldlM finishedSending s

end Queues

/-! ### The machine -/

structure State (υ : Type) where
  queues : Queues υ
  inFlight : List (List ReqId) := []

inductive Event (υ : Type) where
  | add (r : ReqId) (chunk : Option υ) (grammar delayed : Bool)
  | schedule (preempts : List ReqId) (turns : List Queues.Turn) (batch : List ReqId)
  | update (output : Queues.Output)
  | finish (ids : List ReqId) (status : RequestStatus) (delayed : ReqId → Bool)
  | resetRunning

def step (s : State υ) : Event υ → Option (State υ)
  | .add r chunk grammar delayed =>
    (s.queues.addRequest r chunk grammar delayed).map fun q => { s with queues := q }
  | .schedule preempts turns batch =>
    (s.queues.schedule preempts turns).bind fun q =>
      if batch.Nodup ∧ ∀ r ∈ batch, r ∈ q.running then
        some { queues := q, inFlight := s.inFlight ++ [batch] }
      else none
  | .update output =>
    match s.inFlight with
    | [] => none
    | batch :: rest =>
      (s.queues.updateFromOutput batch output).map fun q => { queues := q, inFlight := rest }
  | .finish ids status delayed =>
    (s.queues.finishRequests ids status delayed).map fun q => { s with queues := q }
  | .resetRunning => s.queues.resetRunning.map fun q => { s with queues := q }

end EldrServing.Sched.Sessions
