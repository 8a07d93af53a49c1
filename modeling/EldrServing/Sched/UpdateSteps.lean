import EldrServing.Sched.ScheduleSteps

/-!
# The state changes between two calls of `schedule`

`UpdateStep` lists the state changes that `update_from_output` is made of, and `Finishes` the one
that `finish_requests` repeats. In the code a stopped request stays in its queue until the end
of `update_from_output`; here it leaves at once, so that each state change keeps the queues and
the requests consistent.
-/

namespace EldrServing.Sched

set_option autoImplicit false
set_option linter.unusedSectionVars false

open Engine KVCache Nixl Relation

variable {κ : Type} [DecidableEq κ]

/-- Take a request out of the queue it is in, as `finish_requests` does. -/
def leaveQueues (s : Scheduler κ) (r : ReqId) (status : RequestStatus) : Scheduler κ :=
  if status = .running then s.setQueues (s.running.filter (· ≠ r)) s.waiting s.skippedWaiting
  else s.setQueues s.running (s.waiting.filter (· ≠ r)) (s.skippedWaiting.filter (· ≠ r))

/-- The same for a request that stops with the output of a step. -/
def leaveStopped (s : Scheduler κ) (r : ReqId) (status : RequestStatus) : Scheduler κ :=
  if status = .running then s.setQueues (s.running.filter (· ≠ r)) s.waiting s.skippedWaiting
  else s.setQueues s.running (s.waiting.filter (· ≠ r)) s.skippedWaiting

def stillLoading (s : Scheduler κ) (r : ReqId) (q : Request) : Bool :=
  decide (q.status = .waitingForRemoteKvs) && !decide (r ∈ s.finishedRecvingKvReqIds)

/-- The state in which `finish_requests` frees the request `r`. -/
def beforeFree (s : Scheduler κ) (r : ReqId) (q : Request) : Scheduler κ :=
  if q.status = .waitingForRemoteKvs then (leaveQueues s r q.status).forgetLoad r
  else leaveQueues s r q.status

/-- The request `r` is finished from outside. -/
structure Finishes (now : Nat) (r : ReqId) (s s' : Scheduler κ) : Prop where
  run : ∃ q status params, s.requests.get? r = some q ∧ q.isFinished = false ∧
    status.isFinished = true ∧
    (beforeFree s r q).freeRequest r { q with status } (stillLoading s r q) now = .ok (params, s')

/-- The state changes of `update_from_output`, with the outputs it collects. -/
inductive UpdateStep (E : CacheEnv κ) (out : SchedulerOutput) (sampled : ReqId → List TokenId)
    (kvOut : KVConnectorOutput) (now : Nat) :
    Scheduler κ × List (ReqId × EngineCoreOutput) →
      Scheduler κ × List (ReqId × EngineCoreOutput) → Prop where
  /-- Blocks of the request are invalid: fewer of its tokens count as computed. -/
  | rewind {s outs r q n}
      (hq : s.requests.get? r = some q)
      (hle : n ≤ q.numComputedTokens)
      (hinvalid : kvOut.invalidBlockIds ≠ []) :
      UpdateStep E out sampled kvOut now (s, outs)
        (s.putRequest r { q with numComputedTokens := n }, outs)
  | evict {s outs kv ids}
      (hkv : s.kvCacheManager.evictBlocks ids = .ok kv)
      (hinvalid : kvOut.invalidBlockIds ≠ []) :
      UpdateStep E out sampled kvOut now (s, outs) (s.setKv kv, outs)
  | markFailed {s outs} {ids : Finset ReqId}
      (hinvalid : kvOut.invalidBlockIds ≠ []) :
      UpdateStep E out sampled kvOut now (s, outs)
        ({ s with failedRecvingKvReqIds := s.failedRecvingKvReqIds ∪ ids }, outs)
  | output {s outs r n q q' used kv}
      (hsched : (r, n) ∈ out.numScheduledTokens.entries)
      (hq : s.requests.get? r = some q)
      (hlive : q.isFinished = false)
      (hsome : sampled r ≠ [])
      (hupdate : s.updateRequestWithOutput E q (sampled r) = .ok (q', used, false, kv)) :
      UpdateStep E out sampled kvOut now (s, outs)
        ((s.setKv kv).putRequest r { q' with prefillStats := false },
          outs ++ [(r, { q' with prefillStats := false }.toOutput used false none)])
  | stop {s outs r n q q' used kv params s'}
      (hsched : (r, n) ∈ out.numScheduledTokens.entries)
      (hq : s.requests.get? r = some q)
      (hlive : q.isFinished = false)
      (hsome : sampled r ≠ [])
      (hupdate : s.updateRequestWithOutput E q (sampled r) = .ok (q', used, true, kv))
      (hfree : (leaveStopped (s.setKv kv) r q.status).freeRequest r
        { q' with prefillStats := false } false now = .ok (params, s')) :
      UpdateStep E out sampled kvOut now (s, outs)
        (s', outs ++ [(r, { q' with prefillStats := false }.toOutput used true params)])
  | finish {s outs r s'}
      (hfinish : Finishes now r s s') :
      UpdateStep E out sampled kvOut now (s, outs) (s', outs)
  | received {s outs r q}
      (hmem : r ∈ kvOut.finishedRecving)
      (hq : s.requests.get? r = some q)
      (hstatus : q.status = .waitingForRemoteKvs) :
      UpdateStep E out sampled kvOut now (s, outs)
        ({ s with finishedRecvingKvReqIds := insert r s.finishedRecvingKvReqIds }, outs)
  | free {s outs r s'}
      (hmem : r ∈ kvOut.finishedRecving ∨ r ∈ kvOut.finishedSending)
      (hfree : s.freeBlocks r = .ok s') :
      UpdateStep E out sampled kvOut now (s, outs) (s', outs)

abbrev UpdateSteps (E : CacheEnv κ) (out : SchedulerOutput) (sampled : ReqId → List TokenId)
    (kvOut : KVConnectorOutput) (now : Nat) := ReflTransGen (UpdateStep E out sampled kvOut now)

variable {rs failed : List ReqId} {delay : Bool} {params : Option KVTransferParams}
  {res : Bool × Option KVTransferParams}

section Free

variable {s s' : Scheduler κ} {r : ReqId} {q : Request} {now : Nat}

theorem freeBlocks_ok (h : s.freeBlocks r = .ok s') :
    ∃ q kv, s.requests.get? r = some q ∧ q.isFinished = true ∧
      s.kvCacheManager.free r = .ok kv ∧
      s' = { s with
        kvCacheManager := kv
        delayedFreeReqIds := s.delayedFreeReqIds.erase r
        requests := s.requests.erase r
        log := s.log ++ [.freed r] } := by
  simp only [Scheduler.freeBlocks, except_bind_eq_ok, getRequest_eq_ok, assert_eq_ok] at h
  obtain ⟨q, hq, -, hfinished, kv, hkv, hok⟩ := h
  exact ⟨q, kv, hq, hfinished, hkv, (Except.ok.inj hok).symm⟩

theorem connectorFinished_ok (h : s.connectorFinished r q now = .ok (res, s')) :
    (s.connector = none ∧ res = (false, none) ∧ s' = s) ∨
    ∃ c kv c' q', s.connector = some c ∧
      s.kvCacheManager.removeSkippedBlocks r q.numComputedTokens = .ok kv ∧
      c.requestFinished q ((s.setKv kv).getBlockIds r) now = .ok (res, c', q') ∧
      s' = ((s.setKv kv).putRequest r q').setConnector c' := by
  unfold Scheduler.connectorFinished at h
  split at h
  · next hc =>
    obtain ⟨rfl, rfl⟩ := ok_pair_inj h
    exact .inl ⟨hc, rfl, rfl⟩
  · next c hc =>
    simp only [except_bind_eq_ok, Prod.exists] at h
    obtain ⟨kv, hkv, delay, params, c', q', hfin, hok⟩ := h
    obtain ⟨rfl, rfl⟩ := ok_pair_inj hok
    exact .inr ⟨c, kv, c', q', hc, hkv, hfin, rfl⟩

theorem freeRequest_ok (h : s.freeRequest r q delay now = .ok (params, s')) :
    q.isFinished = true ∧ ∃ connectorDelay s₁,
      (s.putRequest r q).connectorFinished r q now = .ok ((connectorDelay, params), s₁) ∧
      (((delay = true ∨ connectorDelay = true) ∧ s' = { s₁.logHandoff r params with
          delayedFreeReqIds := insert r (s₁.logHandoff r params).delayedFreeReqIds }) ∨
        (delay = false ∧ connectorDelay = false ∧
          (s₁.logHandoff r params).freeBlocks r = .ok s')) := by
  simp only [Scheduler.freeRequest, except_bind_eq_ok, assert_eq_ok, Prod.exists] at h
  obtain ⟨-, hfinished, connectorDelay, params', s₁, hfin, h⟩ := h
  refine ⟨hfinished, connectorDelay, s₁, ?_⟩
  split at h
  · next hdelay =>
    obtain ⟨rfl, rfl⟩ := ok_pair_inj h
    exact ⟨hfin, .inl ⟨by simpa using hdelay, rfl⟩⟩
  · next hdelay =>
    simp only [except_bind_eq_ok] at h
    obtain ⟨s₂, hfree, hok⟩ := h
    obtain ⟨rfl, rfl⟩ := ok_pair_inj hok
    simp only [Bool.or_eq_true, not_or, Bool.not_eq_true] at hdelay
    exact ⟨hfin, .inr ⟨hdelay.1, hdelay.2, hfree⟩⟩

/-- What freeing the request `r` leaves as it is. -/
structure FreeFrame (r : ReqId) (s s' : Scheduler κ) : Prop where
  config : s'.config = s.config
  running : s'.running = s.running
  waiting : s'.waiting = s.waiting
  skippedWaiting : s'.skippedWaiting = s.skippedWaiting
  finishedRecving : s'.finishedRecvingKvReqIds = s.finishedRecvingKvReqIds
  failedRecving : s'.failedRecvingKvReqIds = s.failedRecvingKvReqIds
  requests : ∀ r', r' ≠ r → s'.requests.get? r' = s.requests.get? r'

theorem FreeFrame.trans {s₁ : Scheduler κ} (h : FreeFrame r s s₁) (h' : FreeFrame r s₁ s') :
    FreeFrame r s s' where
  config := h'.config.trans h.config
  running := h'.running.trans h.running
  waiting := h'.waiting.trans h.waiting
  skippedWaiting := h'.skippedWaiting.trans h.skippedWaiting
  finishedRecving := h'.finishedRecving.trans h.finishedRecving
  failedRecving := h'.failedRecving.trans h.failedRecving
  requests r' hr := (h'.requests r' hr).trans (h.requests r' hr)

theorem freeBlocks_frame (h : s.freeBlocks r = .ok s') : FreeFrame r s s' := by
  obtain ⟨q, kv, -, -, -, rfl⟩ := freeBlocks_ok h
  exact ⟨rfl, rfl, rfl, rfl, rfl, rfl, fun r' hr => Dict.get?_erase_ne hr.symm⟩

theorem logHandoff_frame (s : Scheduler κ) (r : ReqId) (params : Option KVTransferParams) :
    FreeFrame r s (s.logHandoff r params) := by
  cases params <;> exact ⟨rfl, rfl, rfl, rfl, rfl, rfl, fun _ _ => rfl⟩

theorem connectorFinished_frame
    (h : s.connectorFinished r q now = .ok (res, s')) : FreeFrame r s s' := by
  rcases connectorFinished_ok h with ⟨-, -, rfl⟩ | ⟨c, kv, c', q', -, -, -, rfl⟩
  · exact ⟨rfl, rfl, rfl, rfl, rfl, rfl, fun _ _ => rfl⟩
  · exact ⟨rfl, rfl, rfl, rfl, rfl, rfl, fun r' hr => Dict.get?_insert_ne hr.symm⟩

theorem freeRequest_frame
    (h : s.freeRequest r q delay now = .ok (params, s')) : FreeFrame r s s' := by
  obtain ⟨-, connectorDelay, s₁, hfin, hend⟩ := freeRequest_ok h
  have hput : FreeFrame r s (s.putRequest r q) :=
    ⟨rfl, rfl, rfl, rfl, rfl, rfl, fun r' hr => Dict.get?_insert_ne hr.symm⟩
  have hlog := (hput.trans (connectorFinished_frame hfin)).trans (logHandoff_frame s₁ r params)
  rcases hend with ⟨-, rfl⟩ | ⟨-, -, hfree⟩
  · exact ⟨hlog.config, hlog.running, hlog.waiting, hlog.skippedWaiting, hlog.finishedRecving,
      hlog.failedRecving, hlog.requests⟩
  · exact hlog.trans (freeBlocks_frame hfree)

theorem freeRequest_self (h : s.freeRequest r q delay now = .ok (params, s')) :
    s'.requests.get? r = none ∨
      ∃ transfer, s'.requests.get? r = some { q with kvTransferParams := transfer } := by
  obtain ⟨-, connectorDelay, s₁, hfin, hend⟩ := freeRequest_ok h
  rcases hend with ⟨-, rfl⟩ | ⟨-, -, hfree⟩
  · right
    have hlog : (s₁.logHandoff r params).requests = s₁.requests := by cases params <;> rfl
    change ∃ transfer, (s₁.logHandoff r params).requests.get? r = _
    rw [hlog]
    rcases connectorFinished_ok hfin with ⟨-, -, rfl⟩ | ⟨c, kv, c', q', -, -, hfinished, rfl⟩
    · exact ⟨q.kvTransferParams, Dict.get?_insert_self⟩
    · obtain ⟨transfer, rfl⟩ := NixlConnectorScheduler.requestFinished_request hfinished
      exact ⟨transfer, Dict.get?_insert_self⟩
  · left
    obtain ⟨_, _, -, -, -, rfl⟩ := freeBlocks_ok hfree
    exact Dict.get?_erase_self

end Free

/-! ### Freeing does not look at the queues -/

section Queues

variable {s s' : Scheduler κ} {r : ReqId} {q : Request} {now : Nat}

theorem freeBlocks_setQueues (h : s.freeBlocks r = .ok s') (a b c : List ReqId) :
    (s.setQueues a b c).freeBlocks r = .ok (s'.setQueues a b c) := by
  obtain ⟨q, kv, hq, hfinished, hkv, rfl⟩ := freeBlocks_ok h
  simp only [Scheduler.freeBlocks, except_bind_eq_ok, getRequest_eq_ok, assert_eq_ok]
  exact ⟨q, hq, (), hfinished, kv, hkv, rfl⟩

theorem connectorFinished_setQueues
    (h : s.connectorFinished r q now = .ok (res, s')) (a b c : List ReqId) :
    (s.setQueues a b c).connectorFinished r q now = .ok (res, s'.setQueues a b c) := by
  rcases connectorFinished_ok h with ⟨hc, rfl, rfl⟩ | ⟨c, kv, c', q', hc, hkv, hfin, rfl⟩
  · simp only [Scheduler.connectorFinished, Scheduler.setQueues_connector, hc]
  · simp only [Scheduler.connectorFinished, Scheduler.setQueues_connector, hc,
      Scheduler.setQueues_kvCacheManager, except_bind_eq_ok, Prod.exists]
    exact ⟨kv, hkv, _, _, c', q', hfin, rfl⟩

theorem logHandoff_setQueues (s : Scheduler κ) (r : ReqId) (params : Option KVTransferParams)
    (a b c : List ReqId) :
    (s.setQueues a b c).logHandoff r params = (s.logHandoff r params).setQueues a b c := by
  cases params <;> rfl

theorem freeRequest_setQueues
    (h : s.freeRequest r q delay now = .ok (params, s')) (a b c : List ReqId) :
    (s.setQueues a b c).freeRequest r q delay now = .ok (params, s'.setQueues a b c) := by
  obtain ⟨hfinished, connectorDelay, s₁, hfin, hend⟩ := freeRequest_ok h
  simp only [Scheduler.freeRequest, except_bind_eq_ok, assert_eq_ok, Prod.exists]
  refine ⟨(), hfinished, connectorDelay, params, s₁.setQueues a b c,
    connectorFinished_setQueues hfin a b c, ?_⟩
  rw [logHandoff_setQueues]
  rcases hend with ⟨hdelay, rfl⟩ | ⟨rfl, rfl, hfree⟩
  · rw [if_pos (by simpa using hdelay)]
    rfl
  · rw [if_neg (by simp), except_bind_eq_ok]
    exact ⟨_, freeBlocks_setQueues hfree a b c, rfl⟩

theorem filter_not_mem_append (l rs : List ReqId) (r : ReqId) :
    l.filter (· ∉ rs ++ [r]) = (l.filter (· ∉ rs)).filter (· ≠ r) := by
  rw [List.filter_filter]
  refine List.filter_congr fun a _ => ?_
  simp [Bool.and_comm]

end Queues

section Output

variable {E : CacheEnv κ} {s : Scheduler κ} {q q' : Request} {ts used : List TokenId}
  {stopped : Bool} {kv : KVCacheManager κ}

theorem updateRequestWithOutput_ok
    (h : s.updateRequestWithOutput E q ts = .ok (q', used, stopped, kv)) :
    ∃ q₁, q.updateWithOutput s.config.maxModelLen ts = (q₁, used, stopped) ∧
      q' = { q₁ with numOutputPlaceholders := q₁.numOutputPlaceholders -
        if s.config.asyncScheduling then used.length else 0 } ∧
      (kv = s.kvCacheManager ∨ ∃ view n, s.kvCacheManager.cacheBlocks view n = .ok kv) := by
  unfold Scheduler.updateRequestWithOutput at h
  obtain ⟨q₁, used₁, stopped₁, hupdate⟩ :
    ∃ q₁ used₁ stopped₁, q.updateWithOutput s.config.maxModelLen ts = (q₁, used₁, stopped₁) :=
    ⟨_, _, _, rfl⟩
  simp only [hupdate] at h
  split at h
  · next hasync =>
    rw [assert_bind_eq_ok] at h
    obtain ⟨-, h⟩ := h
    split at h
    · simp only [except_bind_eq_ok, Except.ok.injEq, Prod.mk.injEq] at h
      obtain ⟨kv', hkv, rfl, rfl, rfl, rfl⟩ := h
      exact ⟨q₁, hupdate, by rw [if_pos hasync], .inr ⟨_, _, hkv⟩⟩
    · simp only [Except.ok.injEq, Prod.mk.injEq] at h
      obtain ⟨rfl, rfl, rfl, rfl⟩ := h
      exact ⟨q₁, hupdate, by rw [if_pos hasync], .inl rfl⟩
  · next hsync =>
    simp only [Except.ok.injEq, Prod.mk.injEq] at h
    obtain ⟨rfl, rfl, rfl, rfl⟩ := h
    exact ⟨q₁, hupdate, by rw [if_neg hsync, Nat.sub_zero], .inl rfl⟩

theorem updateRequestWithOutput_frame
    (h : s.updateRequestWithOutput E q ts = .ok (q', used, stopped, kv)) :
    ∃ status stopReason params placeholders, q' = { q with
        outputTokenIds := q.outputTokenIds ++ used, status, stopReason,
        kvTransferParams := params, numOutputPlaceholders := placeholders } ∧
      Request.StopParams q.kvTransferParams params ∧
      (stopped = false → status = q.status ∧ stopReason = q.stopReason ∧
        params = q.kvTransferParams ∧ used = ts) ∧
      (stopped = true → status.isFinished = true) := by
  obtain ⟨q₁, hupdate, rfl, -⟩ := updateRequestWithOutput_ok h
  obtain ⟨status, stopReason, params, rfl, hrest⟩ := Request.updateWithOutput_frame hupdate
  exact ⟨status, stopReason, params, _, rfl, hrest⟩

end Output

section Loop

variable {E : CacheEnv κ} {out : SchedulerOutput} {sampled : ReqId → List TokenId}
  {kvOut : KVConnectorOutput} {now : Nat} {s s' : Scheduler κ} {u u' : Scheduler.UpdateState}
  {r : ReqId} {q : Request}

theorem updateRequest_steps {n : Nat} (hsched : (r, n) ∈ out.numScheduledTokens.entries)
    (hq : s.requests.get? r = some q) (hlive : q.isFinished = false)
    (h : s.updateRequest E u r q (sampled r) now = .ok (s', u')) :
    UpdateSteps E out sampled kvOut now (s.removeStopped u, u.outputs)
      (s'.removeStopped u', u'.outputs) := by
  unfold Scheduler.updateRequest at h
  split at h
  · obtain ⟨rfl, rfl⟩ := ok_pair_inj h
    exact .refl
  · next hsome =>
    simp only [except_bind_eq_ok, Prod.exists] at h
    obtain ⟨q', used, stopped, kv, hupdate, h⟩ := h
    cases stopped with
    | false =>
      obtain ⟨rfl, rfl⟩ := ok_pair_inj h
      have hstep : UpdateStep E out sampled kvOut now (s.removeStopped u, u.outputs) _ :=
        .output hsched hq hlive hsome hupdate
      exact .single hstep
    | true =>
      simp only [if_true, except_bind_eq_ok, Prod.exists] at h
      obtain ⟨params, s₁, hfree, hok⟩ := h
      have hframe := freeRequest_frame hfree
      obtain ⟨rfl, rfl⟩ := ok_pair_inj hok
      -- the stopped request leaves one queue or the other, and the loop goes on alike
      split <;> rename_i hrunning
      all_goals
        have hstep : UpdateStep E out sampled kvOut now (s.removeStopped u, u.outputs) _ :=
          .stop hsched hq hlive hsome hupdate
            (by simp only [leaveStopped, hrunning, if_true, if_false]
                exact freeRequest_setQueues hfree _ _ _)
        convert ReflTransGen.single hstep using 2
        simp only [Scheduler.removeStopped, filter_not_mem_append, hframe.running, hframe.waiting,
          hframe.skippedWaiting, Scheduler.setKv_running, Scheduler.setKv_waiting,
          Scheduler.setKv_skippedWaiting, Scheduler.setQueues_running,
          Scheduler.setQueues_waiting, Scheduler.setQueues_skippedWaiting]

theorem updateLoop_steps {entries : List (ReqId × Nat)}
    (hsub : entries ⊆ out.numScheduledTokens.entries)
    (h : Scheduler.updateLoop E failed sampled now entries s u = .ok (s', u')) :
    UpdateSteps E out sampled kvOut now (s.removeStopped u, u.outputs)
      (s'.removeStopped u', u'.outputs) := by
  induction entries generalizing s u with
  | nil =>
    obtain ⟨rfl, rfl⟩ := ok_pair_inj h
    exact .refl
  | cons e entries ih =>
    obtain ⟨r, n⟩ := e
    have hrest : entries ⊆ out.numScheduledTokens.entries :=
      fun a ha => hsub (List.mem_cons_of_mem _ ha)
    rw [Scheduler.updateLoop, assert_bind_eq_ok] at h
    obtain ⟨-, h⟩ := h
    split at h
    · exact ih hrest h
    · split at h
      · exact ih hrest h
      · next q hq =>
        split at h
        · exact ih hrest h
        · next hlive =>
          simp only [except_bind_eq_ok, Prod.exists] at h
          obtain ⟨s₁, u₁, hupdate, h⟩ := h
          exact (updateRequest_steps (hsub List.mem_cons_self) hq (by simpa using hlive)
            hupdate).trans (ih hrest h)

end Loop

section Finish

variable {now : Nat} {s s' : Scheduler κ} {r : ReqId} {status : RequestStatus}

abbrev FinishSteps (now : Nat) : Scheduler κ → Scheduler κ → Prop :=
  ReflTransGen fun s s' => ∃ r, Finishes now r s s'

/-- The requests of the list leave their queues, as in the first pass of `finish_requests`. -/
def leaveAll (s : Scheduler κ) (rs : List ReqId) : Scheduler κ :=
  s.setQueues
    (s.running.filter (· ∉ rs.filter (s.hasStatus fun st => st = .running)))
    (s.waiting.filter (· ∉ rs.filter (s.hasStatus fun st => st ≠ .running)))
    (s.skippedWaiting.filter (· ∉ rs.filter (s.hasStatus fun st => st ≠ .running)))

theorem hasStatus_eq {p : RequestStatus → Bool} {q : Request} (hq : s.requests.get? r = some q) :
    s.hasStatus p r = p q.status := by
  simp only [Scheduler.hasStatus, hq]

theorem hasStatus_congr {p : RequestStatus → Bool}
    (h : s'.requests.get? r = s.requests.get? r) : s'.hasStatus p r = s.hasStatus p r := by
  simp only [Scheduler.hasStatus, h]

theorem filter_not_mem_cons (l rs : List ReqId) (r : ReqId) :
    l.filter (· ∉ r :: rs) = (l.filter (· ≠ r)).filter (· ∉ rs) := by
  rw [List.filter_filter]
  refine List.filter_congr fun a _ => ?_
  simp [Bool.and_comm]

theorem leaveAll_cons {q : Request} (hq : s.requests.get? r = some q) :
    leaveAll s (r :: rs) = leaveAll (leaveQueues s r q.status) rs := by
  have hstatus : ∀ p, (leaveQueues s r q.status).hasStatus p = s.hasStatus p := by
    intro p
    unfold leaveQueues
    split <;> rfl
  unfold leaveAll
  rw [hstatus, hstatus]
  unfold leaveQueues
  split
  · next hrunning =>
    have hyes : s.hasStatus (fun st => st = .running) r = true := by
      simp [hasStatus_eq hq, hrunning]
    have hno : s.hasStatus (fun st => st ≠ .running) r = false := by
      simp [hasStatus_eq hq, hrunning]
    rw [List.filter_cons_of_pos hyes, List.filter_cons_of_neg (Bool.eq_false_iff.mp hno),
      filter_not_mem_cons]
    rfl
  · next hrunning =>
    have hno : s.hasStatus (fun st => st = .running) r = false := by
      simp [hasStatus_eq hq, hrunning]
    have hyes : s.hasStatus (fun st => st ≠ .running) r = true := by
      simp [hasStatus_eq hq, hrunning]
    rw [List.filter_cons_of_pos hyes, List.filter_cons_of_neg (Bool.eq_false_iff.mp hno),
      filter_not_mem_cons, filter_not_mem_cons]
    rfl

theorem leaveAll_setQueues {t u : Scheduler κ}
    (hreq : ∀ r ∈ rs, u.requests.get? r = t.requests.get? r) :
    leaveAll (u.setQueues t.running t.waiting t.skippedWaiting) rs =
      u.setQueues (leaveAll t rs).running (leaveAll t rs).waiting
        (leaveAll t rs).skippedWaiting := by
  have hstatus : ∀ p, rs.filter (u.hasStatus p) = rs.filter (t.hasStatus p) := fun p =>
    List.filter_congr fun r hr => hasStatus_congr (hreq r hr)
  unfold leaveAll
  simp only [Scheduler.setQueues_running, Scheduler.setQueues_waiting,
    Scheduler.setQueues_skippedWaiting]
  rw [← hstatus, ← hstatus]
  rfl

theorem finishRequest_ok (h : s.finishRequest r status now = .ok s') :
    ∃ q params, s.requests.get? r = some q ∧
      (if q.status = .waitingForRemoteKvs then s.forgetLoad r else s).freeRequest r
        { q with status } (stillLoading s r q) now = .ok (params, s') := by
  simp only [Scheduler.finishRequest, except_bind_eq_ok, getRequest_eq_ok, Prod.exists] at h
  obtain ⟨q, hq, params, s₁, hfree, hok⟩ := h
  obtain rfl := Except.ok.inj hok
  refine ⟨q, params, hq, ?_⟩
  convert hfree using 2
  · simp
  · rfl

/-- The request leaves its queue and is freed; that others have left theirs already makes no
difference. -/
theorem finishRequest_leaveAll {q : Request} (hq : s.requests.get? r = some q)
    (hlive : q.isFinished = false) (hstatus : status.isFinished = true) (hr : r ∉ rs)
    (h : (leaveAll s (r :: rs)).finishRequest r status now = .ok s') :
    ∃ s₁, Finishes now r s s₁ ∧ s' = leaveAll s₁ rs ∧
      ∀ r', r' ≠ r → s₁.requests.get? r' = s.requests.get? r' := by
  obtain ⟨q', params, hq', hfree⟩ := finishRequest_ok h
  obtain rfl := some_unique hq hq'
  have hleave : (leaveQueues s r q.status).requests = s.requests := by
    unfold leaveQueues
    split <;> rfl
  obtain ⟨t, ht⟩ : ∃ t, t = leaveQueues s r q.status := ⟨_, rfl⟩
  have hbefore := freeRequest_setQueues hfree t.running t.waiting t.skippedWaiting
  have hframe := freeRequest_frame hfree
  have hother : ∀ r', r' ≠ r → s'.requests.get? r' = s.requests.get? r' := by
    intro r' hne
    rw [hframe.requests r' hne]
    split <;> rfl
  refine ⟨s'.setQueues t.running t.waiting t.skippedWaiting, ⟨q, status, params, hq, hlive,
    hstatus, ?_⟩, ?_, hother⟩
  · convert hbefore using 2
    · unfold beforeFree
      rw [ht]
      unfold leaveQueues
      split <;> split <;> rfl
    · rfl
  · rw [leaveAll_setQueues, ht, ← leaveAll_cons hq]
    · have hrunning := hframe.running
      have hwaiting := hframe.waiting
      have hskipped := hframe.skippedWaiting
      have hqueues : ∀ x : Scheduler κ,
          (if q.status = .waitingForRemoteKvs then x.forgetLoad r else x).running = x.running ∧
          (if q.status = .waitingForRemoteKvs then x.forgetLoad r else x).waiting = x.waiting ∧
          (if q.status = .waitingForRemoteKvs then x.forgetLoad r else x).skippedWaiting =
            x.skippedWaiting := by
        intro x
        split
        · exact ⟨rfl, rfl, rfl⟩
        · exact ⟨rfl, rfl, rfl⟩
      rw [(hqueues _).1] at hrunning
      rw [(hqueues _).2.1] at hwaiting
      rw [(hqueues _).2.2] at hskipped
      rw [← hrunning, ← hwaiting, ← hskipped]
      rfl
    · intro r' hr'
      rw [ht, hleave]
      exact hother r' fun h => hr (h ▸ hr')

theorem finishLoop_steps (hnodup : rs.Nodup) (hstatus : status.isFinished = true)
    (hlive : ∀ r ∈ rs, ∃ q, s.requests.get? r = some q ∧ q.isFinished = false)
    (h : rs.foldlM (fun s r => s.finishRequest r status now) (leaveAll s rs) = .ok s') :
    FinishSteps now s s' := by
  induction rs generalizing s with
  | nil =>
    obtain rfl := Except.ok.inj h
    have : leaveAll s [] = s := by simp [leaveAll, Scheduler.setQueues]
    rw [this]
  | cons r rs ih =>
    rw [List.nodup_cons] at hnodup
    simp only [List.foldlM_cons, except_bind_eq_ok] at h
    obtain ⟨u, hu, h⟩ := h
    obtain ⟨q, hq, hq'⟩ := hlive r List.mem_cons_self
    obtain ⟨s₁, hfinish, rfl, hother⟩ :=
      finishRequest_leaveAll hq hq' hstatus hnodup.1 hu
    refine .head ⟨r, hfinish⟩ (ih hnodup.2 ?_ h)
    intro r' hr'
    obtain ⟨q', hget, hlive'⟩ := hlive r' (List.mem_cons_of_mem _ hr')
    exact ⟨q', (hother r' fun h => hnodup.1 (h ▸ hr')).trans hget, hlive'⟩

theorem finishRequests_steps {ids : List ReqId} (h : s.finishRequests ids status now = .ok s') :
    FinishSteps now s s' := by
  simp only [Scheduler.finishRequests, assert_bind_eq_ok] at h
  refine finishLoop_steps (List.Nodup.filter _ (List.nodup_dedup ids)) h.1 (fun r hr => ?_) h.2
  have hlive := (List.mem_filter.mp hr).2
  unfold Scheduler.hasStatus at hlive
  split at hlive
  · next q hq => exact ⟨q, hq, by simpa [Request.isFinished] using hlive⟩
  · cases hlive

theorem finishLoop_other (hr : r ∉ rs)
    (h : rs.foldlM (fun s r => s.finishRequest r status now) s = .ok s') :
    s'.requests.get? r = s.requests.get? r := by
  refine foldlM_invariant (P := fun t => t.requests.get? r = s.requests.get? r)
    (fun a ha t u ht hu => ?_) rfl h
  obtain ⟨q, params, -, hfree⟩ := finishRequest_ok hu
  rw [← ht, (freeRequest_frame hfree).requests r fun heq => hr (heq ▸ ha)]
  split <;> rfl

theorem finishRequests_other {ids : List ReqId} (hr : r ∉ ids)
    (h : s.finishRequests ids status now = .ok s') :
    s'.requests.get? r = s.requests.get? r := by
  simp only [Scheduler.finishRequests, assert_bind_eq_ok] at h
  rw [finishLoop_other (fun hmem => hr (List.mem_dedup.mp (List.mem_filter.mp hmem).1)) h.2]
  rfl

end Finish

section Update

variable {E : CacheEnv κ} {out : SchedulerOutput} {sampled : ReqId → List TokenId}
  {kvOut : KVConnectorOutput} {now : Nat} {s s' : Scheduler κ}
  {outs : List (ReqId × EngineCoreOutput)}

theorem FinishSteps.updateSteps (h : FinishSteps now s s') :
    UpdateSteps E out sampled kvOut now (s, outs) (s', outs) := by
  induction h with
  | refl => exact .refl
  | tail _ hstep ih =>
    obtain ⟨r, hfinish⟩ := hstep
    exact ih.tail (.finish hfinish)

theorem finishedRecving_steps
    (h : kvOut.finishedRecving.foldlM Scheduler.finishedRecving s = .ok s') :
    UpdateSteps E out sampled kvOut now (s, outs) (s', outs) := by
  refine foldlM_invariant (P := fun t => UpdateSteps E out sampled kvOut now (s, outs) (t, outs))
    (fun r hmem t u ht hr => ht.tail ?_) .refl h
  simp only [Scheduler.finishedRecving, except_bind_eq_ok, getRequest_eq_ok, assert_eq_ok] at hr
  obtain ⟨-, -, q, hq, hr⟩ := hr
  split at hr
  · next hstatus =>
    obtain rfl := Except.ok.inj hr
    exact .received hmem hq hstatus
  · rw [assert_bind_eq_ok] at hr
    exact .free (.inl hmem) hr.2

theorem finishedSending_steps
    (h : kvOut.finishedSending.foldlM Scheduler.finishedSending s = .ok s') :
    UpdateSteps E out sampled kvOut now (s, outs) (s', outs) := by
  refine foldlM_invariant (P := fun t => UpdateSteps E out sampled kvOut now (s, outs) (t, outs))
    (fun r hmem t u ht hr => ht.tail ?_) .refl h
  rw [Scheduler.finishedSending, assert_bind_eq_ok] at hr
  exact .free (.inr hmem) hr.2

theorem mul_le_of_lt_cdiv {i n b : Nat} (h : i < cdiv n b) : i * b ≤ n := by
  rcases Nat.eq_zero_or_pos b with rfl | hb
  · omega
  · have hle := (Nat.le_div_iff_mul_le hb).mp (show i + 1 ≤ (n + b - 1) / b from h)
    rw [Nat.add_mul] at hle
    omega

theorem scanRequest_le (blockSize : Nat) (blockIds invalid marked : List Nat) (q : Request)
    (n : Nat) : (Scheduler.scanRequest blockSize blockIds invalid marked q n).numComputedTokens ≤
      q.numComputedTokens := by
  unfold Scheduler.scanRequest
  simp only
  split
  · exact Nat.sub_le _ _
  · refine List.foldlRecOn (motive := fun acc : Scheduler.InvalidScan =>
      acc.numComputedTokens ≤ q.numComputedTokens) _ _ (le_refl _) fun acc hacc e he => ?_
    obtain ⟨hlt, -⟩ := List.getElem?_eq_some_iff.mp (List.mem_zipIdx_iff_getElem?.mp he)
    have hidx : e.2 * blockSize ≤ q.numComputedTokens - n :=
      mul_le_of_lt_cdiv (lt_of_lt_of_le hlt (List.length_take_le _ _))
    unfold Scheduler.scanBlock
    simp only
    split
    · exact hacc
    · split
      · exact hacc
      · split
        · exact hacc
        · exact hidx.trans (Nat.sub_le _ _)

theorem updateRequestsWithInvalidBlocks_steps {invalid marked evict : List Nat}
    {tokens : Dict ReqId Nat} {affected : List ReqId} (hinvalid : kvOut.invalidBlockIds ≠ [])
    (h : Scheduler.updateRequestsWithInvalidBlocks invalid tokens rs marked s =
    .ok (affected, evict, s')) :
    UpdateSteps E out sampled kvOut now (s, outs) (s', outs) := by
  induction rs generalizing s marked affected evict with
  | nil =>
    simp only [Scheduler.updateRequestsWithInvalidBlocks, Except.ok.injEq, Prod.mk.injEq] at h
    obtain ⟨-, -, rfl⟩ := h
    exact .refl
  | cons r rs ih =>
    unfold Scheduler.updateRequestsWithInvalidBlocks at h
    split at h
    · simp only [except_bind_eq_ok, getRequest_eq_ok, Prod.exists] at h
      obtain ⟨q, hq, affected', evict', s₁, hrest, hok⟩ := h
      simp only [Except.ok.injEq, Prod.mk.injEq] at hok
      obtain ⟨-, -, rfl⟩ := hok
      exact .head (.rewind hq (scanRequest_le _ _ _ _ _ _) hinvalid) (ih hrest)
    · cases h

theorem evictInvalid_steps {evict : List Nat} (hinvalid : kvOut.invalidBlockIds ≠ [])
    (h : s.evictInvalid evict = .ok s') :
    UpdateSteps E out sampled kvOut now (s, outs) (s', outs) := by
  unfold Scheduler.evictInvalid at h
  split at h
  · simp only [except_bind_eq_ok] at h
    obtain ⟨kv, hkv, hok⟩ := h
    obtain rfl := Except.ok.inj hok
    exact .single (.evict hkv hinvalid)
  · obtain rfl := Except.ok.inj h
    exact .refl

theorem handleInvalidBlocks_steps {invalid : List Nat} {tokens : Dict ReqId Nat}
    (hinvalid : kvOut.invalidBlockIds ≠ [])
    (h : s.handleInvalidBlocks invalid tokens = .ok (failed, s')) :
    UpdateSteps E out sampled kvOut now (s, outs) (s', outs) := by
  simp only [Scheduler.handleInvalidBlocks, except_bind_eq_ok, Prod.exists] at h
  obtain ⟨asyncFailed, evict, s₁, hasync, syncFailed, evict', s₂, hsync, h⟩ := h
  have hscans : UpdateSteps E out sampled kvOut now (s, outs) (s₂, outs) :=
    (updateRequestsWithInvalidBlocks_steps hinvalid hasync).trans
      (updateRequestsWithInvalidBlocks_steps hinvalid hsync)
  split at h
  · obtain ⟨-, rfl⟩ := ok_pair_inj h
    exact hscans
  · simp only [except_bind_eq_ok] at h
    obtain ⟨s₃, hevict, h⟩ := h
    have hevicted := hscans.trans (evictInvalid_steps hinvalid hevict)
    split at h
    · obtain ⟨-, rfl⟩ := ok_pair_inj h
      exact hevicted.tail (.markFailed hinvalid)
    · obtain ⟨-, rfl⟩ := ok_pair_inj h
      exact hevicted

theorem checkInvalidBlocks_steps (h : s.checkInvalidBlocks out kvOut = .ok (failed, s')) :
    UpdateSteps E out sampled kvOut now (s, outs) (s', outs) := by
  unfold Scheduler.checkInvalidBlocks at h
  split at h
  · next hinvalid => exact handleInvalidBlocks_steps hinvalid h
  · obtain ⟨-, rfl⟩ := ok_pair_inj h
    exact .refl

theorem failRequests_steps (h : s.failRequests failed now = .ok s') :
    UpdateSteps E out sampled kvOut now (s, outs) (s', outs) := by
  unfold Scheduler.failRequests at h
  split at h
  · exact (finishRequests_steps h).updateSteps
  · obtain rfl := Except.ok.inj h
    exact .refl

theorem updateFromOutput_steps
    (h : s.updateFromOutput E out sampled kvOut now = .ok (outs, s')) :
    ∃ failed s₁, s.checkInvalidBlocks out kvOut = .ok (failed, s₁) ∧
      UpdateSteps E out sampled kvOut now (s₁, []) (s', outs) := by
  simp only [Scheduler.updateFromOutput, except_bind_eq_ok, Prod.exists] at h
  obtain ⟨failed, s₁, hcheck, s₂, u, hloop, s₃, hfail, s₄, hxfer, hok⟩ := h
  obtain ⟨rfl, rfl⟩ := ok_pair_inj hok
  simp only [Scheduler.updateFromKvXferFinished, except_bind_eq_ok] at hxfer
  obtain ⟨s₅, hrecv, hsend⟩ := hxfer
  have hnothing : s₁.removeStopped {} = s₁ := by
    simp [Scheduler.removeStopped, Scheduler.setQueues]
  have hsteps : UpdateSteps E out sampled kvOut now (s₁.removeStopped {}, []) _ :=
    updateLoop_steps (List.Subset.refl _) hloop
  rw [hnothing] at hsteps
  exact ⟨failed, s₁, hcheck, ((hsteps.trans (failRequests_steps hfail)).trans
    (finishedRecving_steps hrecv)).trans (finishedSending_steps hsend)⟩

end Update

end EldrServing.Sched
