import EldrServing.Lib.Machine
import EldrServing.Sched.Queues

/-!
# The engine core

The scheduler in the loop of the engine core: new requests, scheduling, the output of the
oldest step under way, and requests that are finished from outside. The tokens that the model
samples and what the KV connector reports are part of the events. Async scheduling has up to
two steps under way, synchronous scheduling one.
-/

namespace EldrServing.Sched

set_option autoImplicit false
set_option linter.unusedSectionVars false

open Engine KVCache Nixl Relation

variable {κ : Type} [DecidableEq κ]

structure EngineCoreRequest where
  requestId : ReqId
  priority : Int := 0
  arrivalTime : Nat := 0
  params : GenerationParams
  promptTokenIds : List TokenId
  abortImmediately : Bool := false

/-- `Request.from_engine_core_request`. -/
def EngineCoreRequest.toRequest (req : EngineCoreRequest) : Request :=
  Request.init req.requestId req.priority req.arrivalTime req.params req.promptTokenIds
    req.abortImmediately

structure EngineCore (κ : Type) where
  scheduler : Scheduler κ
  inFlight : List SchedulerOutput := []
  outputs : List (ReqId × EngineCoreOutput) := []
  /-- The ids given to requests so far; the frontend makes each id unique. -/
  seen : Finset ReqId := ∅

inductive Event where
  | add (req : EngineCoreRequest) (now : Nat)
  | schedule
  | update (sampled : ReqId → TokenId) (kv : KVConnectorOutput) (now : Nat)
  | finish (ids : List ReqId) (status : RequestStatus) (now : Nat)

def sampledTokens (out : SchedulerOutput) (sampled : ReqId → TokenId) (r : ReqId) :
    List TokenId :=
  if r ∈ out.sampledReqs then [sampled r] else []

def SchedulerConfig.maxInFlight (config : SchedulerConfig) : Nat :=
  if config.asyncScheduling then 2 else 1

variable {now : Nat} {out : SchedulerOutput}

namespace EngineCore

def step (E : CacheEnv κ) (e : EngineCore κ) : Event → Option (EngineCore κ)
  | .add req now =>
    if req.requestId ∈ e.seen then none
    else (e.scheduler.addRequestCore req.toRequest now).toOption.map fun s =>
      { e with scheduler := s, seen := insert req.requestId e.seen }
  | .schedule =>
    if e.inFlight.length < e.scheduler.config.maxInFlight then
      (e.scheduler.schedule E).toOption.map fun (out, s) =>
        { e with scheduler := s, inFlight := e.inFlight ++ [out] }
    else none
  | .update sampled kv now =>
    match e.inFlight with
    | [] => none
    | out :: rest =>
      (e.scheduler.updateFromOutput E out (sampledTokens out sampled) kv now).toOption.map
        fun (outs, s) =>
          { e with scheduler := s, inFlight := rest, outputs := e.outputs ++ outs }
  | .finish ids status now =>
    (e.scheduler.finishRequests ids status now).toOption.map fun s => { e with scheduler := s }

structure Fresh (e : EngineCore κ) : Prop where
  requests : e.scheduler.requests = .empty
  waiting : e.scheduler.waiting = []
  skippedWaiting : e.scheduler.skippedWaiting = []
  running : e.scheduler.running = []
  finishedRecving : e.scheduler.finishedRecvingKvReqIds = ∅
  failedRecving : e.scheduler.failedRecvingKvReqIds = ∅
  delayedFree : e.scheduler.delayedFreeReqIds = ∅
  log : e.scheduler.log = []
  inFlight : e.inFlight = []
  outputs : e.outputs = []
  seen : e.seen = ∅

def InFlightOk (s : Scheduler κ) : List SchedulerOutput → Prop
  | [] => True
  | [out] => RunningIn out s
  | [out, out'] => RunningOrWaiting out s ∧ RunningIn out' s
  | _ => False

structure Ok (e : EngineCore κ) : Prop where
  queues : QueuesOk e.scheduler []
  inFlight : InFlightOk e.scheduler e.inFlight
  seen : ∀ r q, e.scheduler.requests.get? r = some q → r ∈ e.seen
  seen_inFlight : ∀ out ∈ e.inFlight, ∀ r n, (r, n) ∈ out.numScheduledTokens.entries → r ∈ e.seen

section

variable {E : CacheEnv κ} {e e' : EngineCore κ} {s s' : Scheduler κ}

theorem Fresh.ok (h : Fresh e) : Ok e := by
  have hnone : ∀ r, e.scheduler.requests.get? r = none := fun r => by rw [h.requests]; rfl
  refine ⟨⟨fun r q hq => ?_, ?_, fun r => ?_, ?_, fun r => ?_, fun r q hq => ?_⟩, ?_,
    fun r q hq => ?_, ?_⟩
  · simp [hnone] at hq
  · rw [h.running]
    exact List.nodup_nil
  · simp [h.running, hnone]
  · simp [queued, h.waiting, h.skippedWaiting]
  · simp [queued, h.waiting, h.skippedWaiting, hnone]
  · simp [hnone] at hq
  · rw [h.inFlight]
    trivial
  · simp [hnone] at hq
  · simp [h.inFlight]

theorem InFlightOk.progress {outs : List SchedulerOutput} (h : InFlightOk s outs)
    (hprogress : Progress s s') : InFlightOk s' outs := by
  match outs, h with
  | [], _ => trivial
  | [_], h => exact RunningIn.progress h hprogress
  | [_, _], h => exact ⟨h.1.progress hprogress, h.2.progress hprogress⟩

theorem InFlightOk.head {rest : List SchedulerOutput}
    (h : InFlightOk s (out :: rest)) : RunningOrWaiting out s := by
  match rest, h with
  | [], h => exact RunningIn.runningOrWaiting h
  | [_], h => exact h.1

theorem InFlightOk.tail {rest : List SchedulerOutput}
    (h : InFlightOk s (out :: rest)) : InFlightOk s rest := by
  match rest, h with
  | [], _ => trivial
  | [_], h => exact h.2

end

/-! ### The parts of a step -/

section Parts

variable {E : CacheEnv κ} {e e' : EngineCore κ}

def added (s : Scheduler κ) (q : Request) : Scheduler κ :=
  { s.putRequest q.requestId q with waiting := s.waiting ++ [q.requestId] }

theorem toRequest_status (req : EngineCoreRequest) : req.toRequest.status = .waiting := by
  unfold EngineCoreRequest.toRequest Request.init
  simp only
  split <;> rfl

theorem toRequest_requestId (req : EngineCoreRequest) :
    req.toRequest.requestId = req.requestId := by
  unfold EngineCoreRequest.toRequest Request.init
  simp only
  split <;> rfl

theorem step_add {req : EngineCoreRequest} (h : step E e (.add req now) = some e') :
    req.requestId ∉ e.seen ∧ e.scheduler.requests.get? req.requestId = none ∧
      ∃ s', FinishSteps now (added e.scheduler req.toRequest) s' ∧
        (req.toRequest.abortImmediately = false → s' = added e.scheduler req.toRequest) ∧
        e' = { e with scheduler := s', seen := insert req.requestId e.seen } := by
  simp only [step] at h
  split at h
  · cases h
  · next hseen =>
    obtain ⟨s', hs', rfl⟩ := Option.map_eq_some_iff.mp h
    rw [toOption_eq_some] at hs'
    simp only [Scheduler.addRequestCore, Scheduler.addRequest, except_bind_eq_ok,
      assert_eq_ok] at hs'
    obtain ⟨s₁, ⟨-, hnew, hs₁⟩, hs'⟩ := hs'
    have hstatus : isBlockedWaitingStatus req.toRequest.status = false := by
      rw [toRequest_status]
      rfl
    rw [hstatus] at hs₁
    obtain rfl := Except.ok.inj hs₁
    refine ⟨hseen, ?_, s', ?_, ?_, rfl⟩
    · simpa [Dict.contains, toRequest_requestId] using hnew
    · split at hs'
      · exact finishRequests_steps hs'
      · obtain rfl := Except.ok.inj hs'
        exact .refl
    · intro habort
      rw [if_neg (by simp [habort])] at hs'
      exact (Except.ok.inj hs').symm

theorem step_schedule (hok : Ok e) (h : step E e .schedule = some e') :
    e.inFlight.length < e.scheduler.config.maxInFlight ∧
    ∃ out s₁ st₁ s', ScheduleSteps E (e.scheduler, .init e.scheduler.config) (s₁, st₁) ∧
      st₁.stepSkippedWaiting = [] ∧ s₁.finishSchedule st₁ = .ok (out, s') ∧
      e' = { e with scheduler := s', inFlight := e.inFlight ++ [out] } := by
  simp only [step] at h
  split at h
  · next hlt =>
    obtain ⟨⟨out, s'⟩, hs', rfl⟩ := Option.map_eq_some_iff.mp h
    rw [toOption_eq_some] at hs'
    obtain ⟨s₁, st₁, hsteps, hskip, hfinish⟩ := schedule_steps hok.queues.running_nodup hs'
    exact ⟨hlt, out, s₁, st₁, s', hsteps, hskip, hfinish, rfl⟩
  · cases h

theorem step_update {sampled : ReqId → TokenId} {kv : KVConnectorOutput}
    (h : step E e (.update sampled kv now) = some e') :
    ∃ out rest failed s₁ outs s', e.inFlight = out :: rest ∧
      e.scheduler.checkInvalidBlocks out kv = .ok (failed, s₁) ∧
      UpdateSteps E out (sampledTokens out sampled) kv now (s₁, []) (s', outs) ∧
      e' = { e with scheduler := s', inFlight := rest, outputs := e.outputs ++ outs } := by
  simp only [step] at h
  split at h
  · cases h
  · next out rest hinFlight =>
    obtain ⟨⟨outs, s'⟩, hs', rfl⟩ := Option.map_eq_some_iff.mp h
    rw [toOption_eq_some] at hs'
    obtain ⟨failed, s₁, hcheck, hsteps⟩ := updateFromOutput_steps hs'
    exact ⟨out, rest, failed, s₁, outs, s', hinFlight, hcheck, hsteps, rfl⟩

theorem step_finish {ids : List ReqId} {status : RequestStatus}
    (h : step E e (.finish ids status now) = some e') :
    ∃ s', FinishSteps now e.scheduler s' ∧ e' = { e with scheduler := s' } := by
  obtain ⟨s', hs', rfl⟩ := Option.map_eq_some_iff.mp h
  rw [toOption_eq_some] at hs'
  exact ⟨s', finishRequests_steps hs', rfl⟩

theorem step_seen {ev : Event} (h : step E e ev = some e') : e.seen ⊆ e'.seen := by
  cases ev with
  | add req now =>
    obtain ⟨-, -, s', -, -, rfl⟩ := step_add h
    exact Finset.subset_insert _ _
  | schedule =>
    simp only [step] at h
    split at h
    · obtain ⟨_, -, rfl⟩ := Option.map_eq_some_iff.mp h
      exact Finset.Subset.refl _
    · cases h
  | update sampled kv now =>
    obtain ⟨out, rest, failed, s₁, outs, s', -, -, -, rfl⟩ := step_update h
    exact Finset.Subset.refl _
  | finish ids status now =>
    obtain ⟨s', -, rfl⟩ := step_finish h
    exact Finset.Subset.refl _

end Parts

end EngineCore

/-! ### The queues along a run -/

section Run

variable {E : CacheEnv κ} {e e' : EngineCore κ} {s s' : Scheduler κ} {st st' : StepState}

theorem QueuesOk.added {q : Request} (hok : QueuesOk s []) (hstatus : q.status = .waiting)
    (hnew : s.requests.get? q.requestId = none) : QueuesOk (EngineCore.added s q) [] := by
  have hget : (EngineCore.added s q).requests.get? q.requestId = some q :=
    Dict.get?_insert_self
  have hqueued : Sched.queued (EngineCore.added s q) [] = s.waiting ++ [q.requestId] ++
      (s.skippedWaiting ++ []) := rfl
  have hnot : q.requestId ∉ Sched.queued s [] := by
    intro hmem
    obtain ⟨q', hq', -⟩ := (hok.queued _).mp hmem
    rw [hnew] at hq'
    cases hq'
  have hperm : (Sched.queued (EngineCore.added s q) []).Perm
      (q.requestId :: Sched.queued s []) := by
    rw [hqueued, List.append_assoc]
    exact List.perm_middle
  refine hok.change q.requestId (fun a ha => Dict.get?_insert_ne ha.symm) (fun q' h => ?_)
    hok.running_nodup (fun _ _ => Iff.rfl) ?_ ?_ (fun a ha => ?_) ?_ (fun _ _ h => h)
    (fun q' h hl => ?_)
  · obtain rfl := some_unique hget h
    rfl
  · rw [hget]
    refine ⟨fun h => ?_, ?_⟩
    · obtain ⟨q', hq', -⟩ := (hok.running _).mp h
      rw [hnew] at hq'
      cases hq'
    · rintro ⟨q', hq', hrun⟩
      rw [← Option.some.inj hq', hstatus] at hrun
      cases hrun
  · exact hperm.nodup_iff.mpr (List.nodup_cons.mpr ⟨hnot, hok.queued_nodup⟩)
  · rw [hperm.mem_iff, List.mem_cons]
    exact or_iff_right ha
  · rw [hperm.mem_iff, hget]
    refine ⟨fun _ => ⟨q, rfl, by simp [hstatus], ?_⟩, fun _ => List.mem_cons_self⟩
    rw [Request.isFinished, hstatus]
    rfl
  · obtain rfl := some_unique hget h
    rw [hstatus] at hl
    cases hl

theorem Progress.finishSteps (hok : QueuesOk s []) (h : FinishSteps now s s') :
    Progress s s' := by
  induction h with
  | refl => exact .refl s
  | @tail t t' hsteps hstep ih =>
    obtain ⟨r, hfinish⟩ := hstep
    exact ih.trans (.finishes (hok.finishSteps hsteps) hfinish)

variable {x y : Scheduler κ × StepState}

theorem RunningIn.scheduleSteps
    (h : ScheduleSteps E x y) (hok : QueuesOk x.1 x.2.stepSkippedWaiting)
    (hout : RunningIn out x.1) : RunningOrPreempted out y.1 y.2 := by
  induction h with
  | refl => exact fun r n q hmem hq hlive hne => absurd (hout r n q hmem hq hlive) hne
  | tail hsteps hstep ih => exact ih.scheduleStep hstep (QueuesOk.scheduleSteps hsteps hok)

theorem ScheduledRun.scheduleSteps (h : ScheduleSteps E x y)
    (hsched : ScheduledRun x.1 x.2) : ScheduledRun y.1 y.2 := by
  induction h with
  | refl => exact hsched
  | tail _ hstep ih => exact ih.scheduleStep hstep

theorem Progress.updateAfterSchedule {entries : List (ReqId × Nat)} {sampled : List ReqId}
    (h : s.updateAfterSchedule entries = .ok (s', sampled)) : Progress s s' :=
  updateAfterSchedule_invariant (P := Progress s) (fun _ _ _ _ ht hq => ht.trans (.put hq rfl))
    (.refl s) h

theorem Progress.finishSchedule (h : s.finishSchedule st = .ok (out, s')) : Progress s s' := by
  obtain ⟨-, hupdate, -⟩ := finishSchedule_ok h
  obtain ⟨c, hc⟩ := takeConnectorMeta_frame s
  rw [hc] at hupdate
  have hmeta : Progress s { s with connector := c } := .congr rfl rfl
  exact hmeta.trans (.updateAfterSchedule hupdate)

theorem ScheduleStep.record (h : ScheduleStep E x y) {r : ReqId}
    {q' : Request} (hq' : y.1.requests.get? r = some q') :
    ∃ q, x.1.requests.get? r = some q := by
  -- a record that was put in place of another one
  have hput : ∀ (t : Scheduler κ) (a : ReqId) (p p' : Request), t.requests.get? a = some p →
      (t.putRequest a p').requests.get? r = some q' → ∃ q, t.requests.get? r = some q := by
    intro t a p p' ht hr
    rcases eq_or_ne r a with rfl | hne
    · exact ⟨p, ht⟩
    · exact ⟨q', (Dict.get?_insert_ne hne.symm).symm.trans hr⟩
  cases h with
  | allocateFails => exact ⟨q', hq'⟩
  | preempt _ hq => exact hput _ _ _ _ hq hq'
  | run => exact ⟨q', hq'⟩
  | promote hq _ _ hupdate =>
    obtain ⟨kv, rfl, -⟩ := updateWaitingForRemoteKv_ok hupdate
    exact hput _ _ _ _ hq hq'
  | @skip s st r w => cases w <;> exact ⟨q', hq'⟩
  | @load s st r w q m kv blocks s' q' hqueue _ hq _ _ _ _ hupdate =>
    obtain ⟨⟨c, rfl⟩, params, rfl⟩ := updateConnectorAfterAlloc_frame hupdate
    cases w <;> exact hput _ _ _ _ hq hq'
  | @start s st r w q m n kv blocks s' q' hqueue _ hq _ _ _ _ _ _ hupdate =>
    obtain ⟨⟨c, rfl⟩, params, rfl⟩ := updateConnectorAfterAlloc_frame hupdate
    cases w <;> exact hput _ _ _ _ hq hq'
  | requeue => exact ⟨q', hq'⟩

theorem ScheduleSteps.record (h : ScheduleSteps E x y)
    {r : ReqId} {q' : Request} (hq' : y.1.requests.get? r = some q') :
    ∃ q, x.1.requests.get? r = some q := by
  induction h generalizing q' with
  | refl => exact ⟨q', hq'⟩
  | tail _ hstep ih =>
    obtain ⟨q, hq⟩ := hstep.record hq'
    exact ih hq

theorem runningIn_of_schedule {s₁ : Scheduler κ} {st₁ : StepState}
    (hsched : ScheduledRun s₁ st₁) (hok : QueuesOk s₁ [])
    (h : s₁.finishSchedule st₁ = .ok (out, s')) : RunningIn out s' := by
  obtain ⟨-, -, hout, -⟩ := finishSchedule_ok h
  refine RunningIn.progress (fun r n q hmem hq _ => ?_) (Progress.finishSchedule h)
  rw [hout, ← Dict.get?_eq_some_iff] at hmem
  obtain ⟨q', hq', hrun⟩ := (hok.running r).mp (hsched r n hmem).1
  obtain rfl := some_unique hq hq'
  exact hrun

end Run

namespace EngineCore

section Run

variable {E : CacheEnv κ} {e e' : EngineCore κ}

theorem Ok.add {req : EngineCoreRequest} (hok : Ok e)
    (h : step E e (.add req now) = some e') : Ok e' := by
  obtain ⟨hseen, hnew, s', hsteps, -, rfl⟩ := step_add h
  have hid := toRequest_requestId req
  have hadded := hok.queues.added (toRequest_status req) (hid ▸ hnew)
  have hprogress := Progress.finishSteps hadded hsteps
  -- adding the request changes nothing for the requests under way
  have hinFlight : InFlightOk (added e.scheduler req.toRequest) e.inFlight := by
    have hget : ∀ out ∈ e.inFlight, ∀ r n, (r, n) ∈ out.numScheduledTokens.entries →
        (added e.scheduler req.toRequest).requests.get? r = e.scheduler.requests.get? r := by
      intro out hout r n hmem
      refine Dict.get?_insert_ne fun heq => hseen ?_
      rw [← hid, heq]
      exact hok.seen_inFlight out hout r n hmem
    have hmono := hok.inFlight
    match hcase : e.inFlight, hmono with
    | [], _ => trivial
    | [out], h =>
      intro r n q hmem hq hlive
      rw [hget out (by simp [hcase]) r n hmem] at hq
      exact h r n q hmem hq hlive
    | [out, out'], h =>
      refine ⟨fun r n q hmem hq hlive hne => ?_, fun r n q hmem hq hlive => ?_⟩
      · rw [hget out (by simp [hcase]) r n hmem] at hq
        exact List.mem_append_left _ (h.1 r n q hmem hq hlive hne)
      · rw [hget out' (by simp [hcase]) r n hmem] at hq
        exact h.2 r n q hmem hq hlive
  refine ⟨hadded.finishSteps hsteps, hinFlight.progress hprogress, fun r q' hq' => ?_,
    fun out hout r n hmem => Finset.mem_insert_of_mem (hok.seen_inFlight out hout r n hmem)⟩
  obtain ⟨q, hq, -⟩ := hprogress.record r q' hq'
  rcases eq_or_ne r req.requestId with rfl | hne
  · exact Finset.mem_insert_self _ _
  · refine Finset.mem_insert_of_mem (hok.seen r q ?_)
    rw [← hq]
    exact (Dict.get?_insert_ne (hid ▸ hne.symm)).symm

theorem Ok.scheduled {s₁ s' : Scheduler κ} {st₁ : StepState} (hok : Ok e)
    (hlt : e.inFlight.length < e.scheduler.config.maxInFlight)
    (hsteps : ScheduleSteps E (e.scheduler, .init e.scheduler.config) (s₁, st₁))
    (hskip : st₁.stepSkippedWaiting = []) (hfinish : s₁.finishSchedule st₁ = .ok (out, s')) :
    Ok { e with scheduler := s', inFlight := e.inFlight ++ [out] } := by
  have hqueues : QueuesOk s₁ st₁.stepSkippedWaiting := QueuesOk.scheduleSteps hsteps hok.queues
  rw [hskip] at hqueues
  have hprogress := Progress.finishSchedule hfinish
  have hrun : ScheduledRun s₁ st₁ :=
    ScheduledRun.scheduleSteps hsteps fun r n hr => by simp [StepState.init] at hr
  have hrunning := runningIn_of_schedule hrun hqueues hfinish
  have hseen : ∀ r q, s₁.requests.get? r = some q → r ∈ e.seen := by
    intro r q hq
    obtain ⟨q₀, hq₀⟩ := ScheduleSteps.record hsteps hq
    exact hok.seen r q₀ hq₀
  refine ⟨hqueues.finishSchedule hfinish, ?_, fun r q hq => ?_, fun out' hout r n hmem => ?_⟩
  · have hmax : e.scheduler.config.maxInFlight ≤ 2 := by
      unfold SchedulerConfig.maxInFlight
      split <;> omega
    have hinFlight := hok.inFlight
    rcases hcase : e.inFlight with _ | ⟨o, _ | ⟨o', rest⟩⟩
    · exact hrunning
    · rw [hcase] at hinFlight
      have hpre : RunningOrPreempted o s₁ st₁ :=
        RunningIn.scheduleSteps hsteps hok.queues hinFlight
      have hwait : RunningOrWaiting o s₁ := fun r n q hmem hq hlive hne =>
        (hpre r n q hmem hq hlive hne).1
      exact ⟨hwait.progress hprogress, hrunning⟩
    · rw [hcase] at hlt
      simp at hlt
      omega
  · obtain ⟨q₁, hq₁, -⟩ := hprogress.record r q hq
    exact hseen r q₁ hq₁
  · rcases List.mem_append.mp hout with hout | hout
    · exact hok.seen_inFlight out' hout r n hmem
    · obtain rfl := List.mem_singleton.mp hout
      rw [(finishSchedule_ok hfinish).2.2.1, ← Dict.get?_eq_some_iff] at hmem
      obtain ⟨q, hq, -⟩ := (hqueues.running r).mp (hrun r n hmem).1
      exact hseen r q hq

theorem Ok.schedule (hok : Ok e) (h : step E e .schedule = some e') : Ok e' := by
  obtain ⟨hlt, out, s₁, st₁, s', hsteps, hskip, hfinish, rfl⟩ := step_schedule hok h
  exact hok.scheduled hlt hsteps hskip hfinish

theorem Ok.update {sampled : ReqId → TokenId} {kv : KVConnectorOutput} (hok : Ok e)
    (h : step E e (.update sampled kv now) = some e') : Ok e' := by
  obtain ⟨out, rest, failed, s₁, outs, s', hinFlight, hcheck, hsteps, rfl⟩ := step_update h
  have hsteps' := (checkInvalidBlocks_steps hcheck).trans hsteps
  have hall := hok.inFlight
  rw [hinFlight] at hall
  obtain ⟨hqueues, hprogress⟩ := QueuesOk.updateSteps hsteps' hok.queues hall.head
  refine ⟨hqueues, hall.tail.progress hprogress, fun r q hq => ?_, fun out' hout => ?_⟩
  · obtain ⟨q₀, hq₀, -⟩ := hprogress.record r q hq
    exact hok.seen r q₀ hq₀
  · exact hok.seen_inFlight out' (hinFlight ▸ List.mem_cons_of_mem _ hout)

theorem Ok.finish {ids : List ReqId} {status : RequestStatus} (hok : Ok e)
    (h : step E e (.finish ids status now) = some e') : Ok e' := by
  obtain ⟨s', hsteps, rfl⟩ := step_finish h
  have hprogress := Progress.finishSteps hok.queues hsteps
  refine ⟨hok.queues.finishSteps hsteps, hok.inFlight.progress hprogress, fun r q hq => ?_,
    hok.seen_inFlight⟩
  obtain ⟨q₀, hq₀, -⟩ := hprogress.record r q hq
  exact hok.seen r q₀ hq₀

theorem Ok.step {ev : Event} (hok : Ok e) (h : step E e ev = some e') : Ok e' := by
  cases ev with
  | add req now => exact hok.add h
  | schedule => exact hok.schedule h
  | update sampled kv now => exact hok.update h
  | finish ids status now => exact hok.finish h

theorem Ok.exec {es : List Event} (hok : Ok e) (h : Machine.exec (EngineCore.step E) e es = some e') :
    Ok e' :=
  Machine.exec_invariant (fun _ _ _ hok h => Ok.step hok h) hok h

end Run

/-! ### An engine with one full-attention group of block size 1 -/

/-- Tokens are hashed by the prefix itself. -/
def unitEnv : CacheEnv (List TokenId) where
  hasher := ⟨1, Nat.one_pos, id, fun _ _ h => h⟩
  lookup := unitaryLookup

def unit (config : SchedulerConfig) (numBlocks : Nat)
    (connector : Option NixlConnectorScheduler) : Except PyError (EngineCore (List TokenId)) := do
  let kv ← KVCacheManager.init numBlocks config.maxModelLen 1 true [unitGroup]
  .ok { scheduler := { config, kvCacheManager := kv, connector } }

def upTo (n : Nat) (h : 1 ≤ n) : SamplingParams where
  maxTokens := n
  minTokens := 0
  eosTokenId := none
  stopTokenIds := []
  stop := []
  includeStopStrInOutput := false
  repetitionDetection := none
  maxTokens_pos := h
  minTokens_le := Nat.zero_le n
  stop_ne_nil := by simp

theorem one_le_three : 1 ≤ 3 := by decide

theorem unit_ok {config : SchedulerConfig} {numBlocks : Nat}
    {connector : Option NixlConnectorScheduler} {e : EngineCore (List TokenId)}
    (h : unit config numBlocks connector = .ok e) :
    ∃ kv, KVCacheManager.init numBlocks config.maxModelLen 1 true [unitGroup] = .ok kv ∧
      e = { scheduler := { config, kvCacheManager := kv, connector } } := by
  simp only [unit, except_bind_eq_ok, Except.ok.injEq] at h
  obtain ⟨kv, hkv, rfl⟩ := h
  exact ⟨kv, hkv, rfl⟩

theorem Fresh.unit {config : SchedulerConfig} {numBlocks : Nat}
    {connector : Option NixlConnectorScheduler} {e : EngineCore (List TokenId)}
    (h : EngineCore.unit config numBlocks connector = .ok e) : Fresh e := by
  obtain ⟨kv, -, rfl⟩ := unit_ok h
  exact ⟨rfl, rfl, rfl, rfl, rfl, rfl, rfl, rfl, rfl, rfl, rfl⟩

end EngineCore

end EldrServing.Sched
