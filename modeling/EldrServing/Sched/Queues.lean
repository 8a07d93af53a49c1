import EldrServing.Sched.UpdateSteps

/-!
# The queues and the requests agree

Every unfinished request is in exactly one place: the running queue if its status says so, and
one of the waiting queues otherwise. A request whose KV is being loaded is never in the queue of
requests that were not looked at yet.
-/

namespace EldrServing.Sched

set_option autoImplicit false
set_option linter.unusedSectionVars false

open Engine KVCache Nixl Relation

variable {κ : Type} [DecidableEq κ]

def queued (s : Scheduler κ) (passed : List ReqId) : List ReqId :=
  s.waiting ++ (s.skippedWaiting ++ passed)

structure QueuesOk (s : Scheduler κ) (passed : List ReqId) : Prop where
  keys : ∀ r q, s.requests.get? r = some q → q.requestId = r
  running_nodup : s.running.Nodup
  running : ∀ r, r ∈ s.running ↔ ∃ q, s.requests.get? r = some q ∧ q.status = .running
  queued_nodup : (queued s passed).Nodup
  queued : ∀ r, r ∈ queued s passed ↔
    ∃ q, s.requests.get? r = some q ∧ q.status ≠ .running ∧ q.isFinished = false
  loading : ∀ r q, s.requests.get? r = some q → q.status = .waitingForRemoteKvs →
    r ∈ s.skippedWaiting ++ passed

section Change

variable {s s' : Scheduler κ} {passed passed' : List ReqId} {r : ReqId} {q q' : Request}

theorem QueuesOk.change (hok : QueuesOk s passed) (r : ReqId)
    (hother : ∀ a, a ≠ r → s'.requests.get? a = s.requests.get? a)
    (hkey : ∀ q, s'.requests.get? r = some q → q.requestId = r)
    (hrunning_nodup : s'.running.Nodup)
    (hrunning : ∀ a, a ≠ r → (a ∈ s'.running ↔ a ∈ s.running))
    (hrunning_r : r ∈ s'.running ↔ ∃ q, s'.requests.get? r = some q ∧ q.status = .running)
    (hqueued_nodup : (Sched.queued s' passed').Nodup)
    (hqueued : ∀ a, a ≠ r → (a ∈ Sched.queued s' passed' ↔ a ∈ Sched.queued s passed))
    (hqueued_r : r ∈ Sched.queued s' passed' ↔
      ∃ q, s'.requests.get? r = some q ∧ q.status ≠ .running ∧ q.isFinished = false)
    (hloading : ∀ a, a ≠ r → a ∈ s.skippedWaiting ++ passed → a ∈ s'.skippedWaiting ++ passed')
    (hloading_r : ∀ q, s'.requests.get? r = some q → q.status = .waitingForRemoteKvs →
      r ∈ s'.skippedWaiting ++ passed') : QueuesOk s' passed' := by
  refine ⟨fun a q hq => ?_, hrunning_nodup, fun a => ?_, hqueued_nodup, fun a => ?_,
    fun a q hq hstatus => ?_⟩
  · rcases eq_or_ne a r with rfl | hne
    · exact hkey q hq
    · exact hok.keys a q (hother a hne ▸ hq)
  · rcases eq_or_ne a r with rfl | hne
    · exact hrunning_r
    · rw [hrunning a hne, hother a hne]
      exact hok.running a
  · rcases eq_or_ne a r with rfl | hne
    · exact hqueued_r
    · rw [hqueued a hne, hother a hne]
      exact hok.queued a
  · rcases eq_or_ne a r with rfl | hne
    · exact hloading_r q hq hstatus
    · exact hloading a hne (hok.loading a q (hother a hne ▸ hq) hstatus)

theorem QueuesOk.put (hok : QueuesOk s passed) (hq : s.requests.get? r = some q)
    (hid : q'.requestId = q.requestId) (hstatus : q'.status = q.status) :
    QueuesOk (s.putRequest r q') passed := by
  have hget : (s.putRequest r q').requests.get? r = some q' := Dict.get?_insert_self
  have hfinished : q'.isFinished = q.isFinished := by
    rw [Request.isFinished, Request.isFinished, hstatus]
  refine hok.change r (fun a ha => Dict.get?_insert_ne ha.symm) (fun q₁ h => ?_)
    hok.running_nodup (fun _ _ => Iff.rfl) ?_ hok.queued_nodup (fun _ _ => Iff.rfl) ?_
    (fun _ _ h => h) (fun q₁ h hl => ?_)
  · obtain rfl := some_unique hget h
    exact hid.trans (hok.keys r q hq)
  · rw [hget]
    refine (hok.running r).trans ?_
    simp [hq, hstatus]
  · rw [hget]
    refine (hok.queued r).trans ?_
    simp [hq, hstatus, hfinished]
  · obtain rfl := some_unique hget h
    exact hok.loading r q hq (hstatus ▸ hl)

theorem QueuesOk.congr (hok : QueuesOk s passed) (hrequests : s'.requests = s.requests)
    (hrunning : s'.running = s.running) (hwaiting : s'.waiting = s.waiting)
    (hskipped : s'.skippedWaiting = s.skippedWaiting) : QueuesOk s' passed := by
  have hqueued : Sched.queued s' passed = Sched.queued s passed := by
    simp only [Sched.queued, hwaiting, hskipped]
  refine ⟨?_, ?_, ?_, ?_, ?_, ?_⟩
  · rw [hrequests]
    exact hok.keys
  · rw [hrunning]
    exact hok.running_nodup
  · rw [hrunning, hrequests]
    exact hok.running
  · rw [hqueued]
    exact hok.queued_nodup
  · rw [hqueued, hrequests]
    exact hok.queued
  · rw [hrequests, hskipped]
    exact hok.loading

theorem QueuesOk.not_mem_queued (hok : QueuesOk s passed) (hr : r ∈ s.running) :
    r ∉ Sched.queued s passed := by
  intro hmem
  obtain ⟨q, hq, hstatus⟩ := (hok.running r).mp hr
  obtain ⟨q', hq', hne, -⟩ := (hok.queued r).mp hmem
  obtain rfl := some_unique hq hq'
  exact hne hstatus

theorem mem_queued_of_queue (passed : List ReqId) (w : Scheduler.WaitingQueue)
    (hr : r ∈ s.queue w) : r ∈ queued s passed := by
  cases w with
  | waiting => exact List.mem_append_left _ hr
  | skipped => exact List.mem_append_right _ (List.mem_append_left _ hr)

end Change

variable {w : Scheduler.WaitingQueue} {x y : Scheduler κ × StepState}

section Moves

variable {s s' : Scheduler κ} {passed : List ReqId} {r : ReqId} {q : Request}

theorem queued_popRequest_cons (passed : List ReqId) (w : Scheduler.WaitingQueue) (hr : r ∈ s.queue w) :
    (queued (s.popRequest r w) (r :: passed)).Perm (queued s passed) := by
  cases w with
  | waiting =>
    have hperm := List.perm_cons_erase (show r ∈ s.waiting from hr)
    change (s.waiting.erase r ++ (s.skippedWaiting ++ r :: passed)).Perm
      (s.waiting ++ (s.skippedWaiting ++ passed))
    refine List.Perm.trans ?_ (hperm.symm.append_right _)
    refine (List.Perm.append_left _ List.perm_middle).trans ?_
    exact List.perm_middle
  | skipped =>
    have hperm := List.perm_cons_erase (show r ∈ s.skippedWaiting from hr)
    change (s.waiting ++ (s.skippedWaiting.erase r ++ r :: passed)).Perm
      (s.waiting ++ (s.skippedWaiting ++ passed))
    refine List.Perm.append_left _ ?_
    exact List.perm_middle.trans (hperm.symm.append_right _)

theorem queued_popRequest (passed : List ReqId) (w : Scheduler.WaitingQueue) (hr : r ∈ s.queue w) :
    (r :: queued (s.popRequest r w) passed).Perm (queued s passed) := by
  refine List.Perm.trans ?_ (queued_popRequest_cons passed w hr)
  unfold queued
  rw [← List.append_assoc, ← List.append_assoc]
  exact List.perm_middle.symm

theorem mem_loading_popRequest (w : Scheduler.WaitingQueue) {a : ReqId} (ha : a ≠ r)
    (h : a ∈ s.skippedWaiting ++ passed) :
    a ∈ (s.popRequest r w).skippedWaiting ++ passed := by
  cases w with
  | waiting => exact h
  | skipped =>
    rcases List.mem_append.mp h with h | h
    · exact List.mem_append_left _ ((List.mem_erase_of_ne ha).mpr h)
    · exact List.mem_append_right _ h

theorem QueuesOk.pass (hok : QueuesOk s passed)
    (hr : r ∈ s.queue w) (hrequests : s'.requests.get? r = some q)
    (hother : ∀ a, a ≠ r → s'.requests.get? a = s.requests.get? a) (hid : q.requestId = r)
    (hstatus : q.status ≠ .running) (hfinished : q.isFinished = false)
    (hrunning : s'.running = s.running) (hwaiting : s'.waiting = (s.popRequest r w).waiting)
    (hskipped : s'.skippedWaiting = (s.popRequest r w).skippedWaiting) :
    QueuesOk s' (r :: passed) := by
  have hperm := queued_popRequest_cons passed w hr
  have hqueued : Sched.queued s' (r :: passed) = Sched.queued (s.popRequest r w) (r :: passed) := by
    simp only [Sched.queued, hwaiting, hskipped]
  rw [← hqueued] at hperm
  have hmem := mem_queued_of_queue passed w hr
  refine hok.change r hother (fun q' hq' => ?_) (hrunning ▸ hok.running_nodup)
    (fun _ _ => by rw [hrunning]) ?_ (hperm.nodup_iff.mpr hok.queued_nodup)
    (fun a _ => hperm.mem_iff) ?_ (fun a ha h => ?_) (fun _ _ _ => ?_)
  · obtain rfl := some_unique hrequests hq'
    exact hid
  · rw [hrunning, hrequests]
    constructor
    · exact fun h => absurd hmem (hok.not_mem_queued h)
    · rintro ⟨q', hq', hrun⟩
      exact absurd (Option.some.inj hq' ▸ hrun) hstatus
  · rw [hperm.mem_iff, hrequests]
    exact ⟨fun _ => ⟨q, rfl, hstatus, hfinished⟩, fun _ => hmem⟩
  · rw [hskipped]
    have := mem_loading_popRequest w ha h
    rcases List.mem_append.mp this with h | h
    · exact List.mem_append_left _ h
    · exact List.mem_append_right _ (List.mem_cons_of_mem _ h)
  · exact List.mem_append_right _ List.mem_cons_self

end Moves

section Steps

variable {E : CacheEnv κ} {s s' : Scheduler κ} {st st' : StepState} {r : ReqId} {q : Request}

theorem QueuesOk.preempt {kv : KVCacheManager κ} {passed : List ReqId} (hok : QueuesOk s passed)
    (hr : r ∈ s.running) (hq : s.requests.get? r = some q) :
    QueuesOk { ((s.setRunning (s.running.erase r)).setKv kv).putRequest r (preempted q) with
      waiting := r :: s.waiting } passed := by
  obtain ⟨s', hs'⟩ : ∃ s', s' =
    { ((s.setRunning (s.running.erase r)).setKv kv).putRequest r (preempted q) with
      waiting := r :: s.waiting } := ⟨_, rfl⟩
  have hget : s'.requests.get? r = some (preempted q) := by
    rw [hs']
    exact Dict.get?_insert_self
  have hqueued : Sched.queued s' passed = r :: Sched.queued s passed := by
    rw [hs']
    rfl
  have hnot := hok.not_mem_queued hr
  rw [← hs']
  refine hok.change r (fun a ha => ?_) (fun q' hq' => ?_) ?_ (fun a ha => ?_) ?_ ?_
    (fun a ha => ?_) ?_ (fun a _ h => ?_) (fun q' hq' h => ?_)
  · rw [hs']
    exact Dict.get?_insert_ne ha.symm
  · obtain rfl := some_unique hget hq'
    exact hok.keys r q hq
  · rw [hs']
    exact hok.running_nodup.erase r
  · rw [hs']
    exact List.mem_erase_of_ne ha
  · rw [hget, hs']
    refine ⟨fun h => absurd h (hok.running_nodup.not_mem_erase), ?_⟩
    rintro ⟨q', hq', hrun⟩
    rw [← Option.some.inj hq'] at hrun
    cases hrun
  · rw [hqueued]
    exact List.nodup_cons.mpr ⟨hnot, hok.queued_nodup⟩
  · rw [hqueued, List.mem_cons]
    exact or_iff_right ha
  · rw [hqueued, hget]
    refine ⟨fun _ => ⟨preempted q, rfl, ?_, rfl⟩, fun _ => List.mem_cons_self⟩
    simp [preempted]
  · rw [hs']
    exact h
  · obtain rfl := some_unique hget hq'
    cases h

theorem QueuesOk.start {passed : List ReqId}
    (hok : QueuesOk s passed) (hr : r ∈ s.queue w) (hget : s'.requests.get? r = some q)
    (hother : ∀ a, a ≠ r → s'.requests.get? a = s.requests.get? a) (hid : q.requestId = r)
    (hstatus : q.status = .running) (hrunning : s'.running = s.running ++ [r])
    (hwaiting : s'.waiting = (s.popRequest r w).waiting)
    (hskipped : s'.skippedWaiting = (s.popRequest r w).skippedWaiting) : QueuesOk s' passed := by
  have hperm := queued_popRequest passed w hr
  have hqueued : Sched.queued s' passed = Sched.queued (s.popRequest r w) passed := by
    simp only [Sched.queued, hwaiting, hskipped]
  rw [← hqueued] at hperm
  have hnodup := List.nodup_cons.mp (hperm.nodup_iff.mpr hok.queued_nodup)
  have hnot : r ∉ s.running := fun h => hok.not_mem_queued h (mem_queued_of_queue passed w hr)
  refine hok.change r hother (fun q' hq' => ?_) ?_ (fun a ha => ?_) ?_ hnodup.2 (fun a ha => ?_) ?_
    (fun a ha h => ?_) (fun q' hq' h => ?_)
  · obtain rfl := some_unique hget hq'
    exact hid
  · rw [hrunning]
    exact List.nodup_append.mpr ⟨hok.running_nodup, List.nodup_singleton r, fun a ha b hb hab =>
      hnot (List.mem_singleton.mp hb ▸ hab ▸ ha)⟩
  · simp [hrunning, ha]
  · rw [hrunning, hget]
    exact ⟨fun _ => ⟨q, rfl, hstatus⟩, fun _ =>
      List.mem_append_right _ (List.mem_singleton_self r)⟩
  · rw [← hperm.mem_iff, List.mem_cons]
    exact (or_iff_right ha).symm
  · refine ⟨fun h => absurd h hnodup.1, ?_⟩
    rintro ⟨q', hq', hne, -⟩
    obtain rfl := some_unique hget hq'
    exact absurd hstatus hne
  · rw [hskipped]
    exact mem_loading_popRequest w ha h
  · obtain rfl := some_unique hget hq'
    rw [hstatus] at h
    cases h

theorem QueuesOk.requeue {passed : List ReqId} (hok : QueuesOk s passed) :
    QueuesOk { s with skippedWaiting := passed.reverse ++ s.skippedWaiting } [] := by
  have hperm : (passed.reverse ++ s.skippedWaiting ++ []).Perm (s.skippedWaiting ++ passed) := by
    rw [List.append_nil]
    exact (List.perm_append_comm).trans ((List.reverse_perm passed).append_left _)
  have hqueued : (Sched.queued { s with skippedWaiting := passed.reverse ++ s.skippedWaiting }
      []).Perm (Sched.queued s passed) := hperm.append_left s.waiting
  exact ⟨hok.keys, hok.running_nodup, hok.running, hqueued.nodup_iff.mpr hok.queued_nodup,
    fun r => hqueued.mem_iff.trans (hok.queued r),
    fun r q hq h => hperm.mem_iff.mpr (hok.loading r q hq h)⟩

theorem QueuesOk.promote {passed : List ReqId} {q' : Request} (hok : QueuesOk s passed)
    (hq : s.requests.get? r = some q) (hstatus : q.status = .waitingForRemoteKvs)
    (hupdate : s.updateWaitingForRemoteKv E r q = .ok (s', q')) :
    QueuesOk (s'.putRequest r (promoted q')) passed := by
  obtain ⟨kv, rfl, hcases⟩ := updateWaitingForRemoteKv_ok hupdate
  have hid : q'.requestId = r := by
    rcases hcases with ⟨-, -, h⟩ | ⟨-, -, h⟩
    · rw [h]
      exact hok.keys r q hq
    · rw [h]
      unfold Scheduler.recomputeLast
      split
      · exact hok.keys r q hq
      · exact hok.keys r q hq
  have hready : (promoted q').status = .waiting ∨ (promoted q').status = .preempted := by
    unfold promoted
    simp only
    split
    · exact .inr rfl
    · exact .inl rfl
  have hne : (promoted q').status ≠ .running := by
    rcases hready with h | h <;> simp [h]
  have hlive : (promoted q').isFinished = false := by
    rw [Request.isFinished]
    rcases hready with h | h <;> rw [h] <;> rfl
  have hget : ∀ kv : Scheduler κ, (kv.putRequest r (promoted q')).requests.get? r =
      some (promoted q') := fun kv => Dict.get?_insert_self
  have hmem : r ∈ Sched.queued s passed :=
    (hok.queued r).mpr ⟨q, hq, by simp [hstatus], by rw [Request.isFinished, hstatus]; rfl⟩
  refine hok.change r (fun a ha => Dict.get?_insert_ne ha.symm) (fun q₁ h => ?_)
    hok.running_nodup (fun _ _ => Iff.rfl) ?_ hok.queued_nodup (fun _ _ => Iff.rfl) ?_
    (fun _ _ h => h) (fun q₁ h hl => ?_)
  · obtain rfl := some_unique (hget _) h
    exact hid
  · rw [hget]
    refine ⟨fun h => absurd hmem (hok.not_mem_queued h), ?_⟩
    rintro ⟨q₁, h, hrun⟩
    exact absurd (Option.some.inj h ▸ hrun) hne
  · rw [hget]
    exact ⟨fun _ => ⟨_, rfl, hne, hlive⟩, fun _ => hmem⟩
  · obtain rfl := some_unique (hget _) h
    rcases hready with h | h
    · rw [h] at hl
      cases hl
    · rw [h] at hl
      cases hl

theorem QueuesOk.scheduleStep (h : ScheduleStep E x y)
    (hok : QueuesOk x.1 x.2.stepSkippedWaiting) : QueuesOk y.1 y.2.stepSkippedWaiting := by
  cases h with
  | allocateFails => exact hok.congr rfl rfl rfl rfl
  | preempt hrunning hq =>
    simp only [dropScheduled_stepSkippedWaiting]
    exact hok.preempt hrunning hq
  | run => exact hok.congr rfl rfl rfl rfl
  | promote hq hstatus _ hupdate => exact hok.promote hq hstatus hupdate
  | @skip s st r w hqueue =>
    obtain ⟨q, hq, hstatus, hlive⟩ := (hok.queued r).mp (mem_queued_of_queue _ w hqueue)
    have hrequests : (s.popRequest r w).requests = s.requests := by cases w <;> rfl
    have hrunning : (s.popRequest r w).running = s.running := by cases w <;> rfl
    exact hok.pass hqueue (hrequests ▸ hq) (fun _ _ => by rw [hrequests]) (hok.keys r q hq)
      hstatus hlive hrunning rfl rfl
  | @load s st r w q m kv blocks s' q' hqueue _ hq _ _ _ _ hupdate =>
    obtain ⟨⟨c, rfl⟩, params, rfl⟩ := updateConnectorAfterAlloc_frame hupdate
    refine hok.pass hqueue Dict.get?_insert_self (fun a ha => ?_) (hok.keys r q hq)
      (by simp) rfl ?_ ?_ ?_
    · rw [Scheduler.putRequest_requests, Dict.get?_insert_ne ha.symm]
      cases w <;> rfl
    · cases w <;> rfl
    · cases w <;> rfl
    · cases w <;> rfl
  | @start s st r w q m n kv blocks s' q' hqueue _ hq _ _ _ _ _ _ hupdate =>
    obtain ⟨⟨c, rfl⟩, params, rfl⟩ := updateConnectorAfterAlloc_frame hupdate
    refine hok.start hqueue Dict.get?_insert_self (fun a ha => ?_) (hok.keys r q hq)
      rfl rfl ?_ ?_
    · rw [Scheduler.putRequest_requests, Dict.get?_insert_ne ha.symm]
      cases w <;> rfl
    · cases w <;> rfl
    · cases w <;> rfl
  | requeue => exact hok.requeue

theorem QueuesOk.scheduleSteps (h : ScheduleSteps E x y)
    (hok : QueuesOk x.1 x.2.stepSkippedWaiting) : QueuesOk y.1 y.2.stepSkippedWaiting := by
  induction h with
  | refl => exact hok
  | tail _ hstep ih => exact ih.scheduleStep hstep

theorem QueuesOk.updateAfterSchedule {passed : List ReqId} {entries : List (ReqId × Nat)}
    {sampled : List ReqId} (hok : QueuesOk s passed)
    (h : s.updateAfterSchedule entries = .ok (s', sampled)) : QueuesOk s' passed :=
  updateAfterSchedule_invariant (P := (QueuesOk · passed))
    (fun _ _ _ _ hok hq => hok.put hq rfl rfl) hok h

theorem finishSchedule_ok {out : SchedulerOutput}
    (h : s.finishSchedule st = .ok (out, s')) :
    s.running.length ≤ s.config.maxNumRunningReqs ∧
    s.takeConnectorMeta.1.updateAfterSchedule st.numScheduledTokens.entries =
      .ok (s', out.sampledReqs) ∧
    out.numScheduledTokens = st.numScheduledTokens ∧ out.preemptedReqIds = st.preemptedReqs ∧
    out.kvConnectorMetadata = s.takeConnectorMeta.2 ∧
    out.numComputedTokens = s.takeConnectorMeta.1.computedTokens := by
  simp only [Scheduler.finishSchedule, assert_eq_ok, except_bind_eq_ok, Prod.exists] at h
  obtain ⟨-, -, -, hrunning, -, -, s₁, sampled, hupdate, hok⟩ := h
  obtain ⟨rfl, rfl⟩ := ok_pair_inj hok
  exact ⟨hrunning, hupdate, rfl, rfl, rfl, rfl⟩

theorem takeConnectorMeta_frame (s : Scheduler κ) :
    ∃ c, s.takeConnectorMeta.1 = { s with connector := c } := by
  unfold Scheduler.takeConnectorMeta
  split
  · exact ⟨_, rfl⟩
  · exact ⟨_, rfl⟩

theorem QueuesOk.finishSchedule {passed : List ReqId} {out : SchedulerOutput}
    (hok : QueuesOk s passed) (h : s.finishSchedule st = .ok (out, s')) : QueuesOk s' passed := by
  obtain ⟨-, hupdate, -⟩ := finishSchedule_ok h
  obtain ⟨c, hc⟩ := takeConnectorMeta_frame s
  rw [hc] at hupdate
  have hok' : QueuesOk { s with connector := c } passed := hok.congr rfl rfl rfl rfl
  exact hok'.updateAfterSchedule hupdate

theorem QueuesOk.schedule {out : SchedulerOutput} (hok : QueuesOk s [])
    (h : s.schedule E = .ok (out, s')) : QueuesOk s' [] := by
  obtain ⟨s₁, st₁, hsteps, hskip, hfinish⟩ := schedule_steps hok.running_nodup h
  have hend := QueuesOk.scheduleSteps hsteps hok
  simp only [hskip] at hend
  exact hend.finishSchedule hfinish

end Steps

section Update

variable {E : CacheEnv κ} {out : SchedulerOutput} {sampled : ReqId → List TokenId}
  {kvOut : KVConnectorOutput} {now : Nat} {s t s' : Scheduler κ} {r : ReqId} {q : Request}

/-- The state `t` is `s` with the request `r` taken out of its queue. -/
structure Left (r : ReqId) (s t : Scheduler κ) : Prop where
  config : t.config = s.config
  requests : t.requests = s.requests
  running : t.running = s.running.filter (· ≠ r)
  queued : queued t [] = (queued s []).filter (· ≠ r)
  skipped : ∀ a, a ≠ r → a ∈ s.skippedWaiting → a ∈ t.skippedWaiting
  waiting : ∀ a, a ≠ r → a ∈ s.waiting → a ∈ t.waiting

theorem filter_ne_eq_self {l : List ReqId} (h : r ∉ l) : l.filter (· ≠ r) = l := by
  refine List.filter_eq_self.mpr fun a ha => ?_
  simpa using fun hab : a = r => h (hab ▸ ha)

theorem leaveQueues_left (hok : QueuesOk s []) (hq : s.requests.get? r = some q) :
    Left r s (leaveQueues s r q.status) := by
  unfold leaveQueues
  split
  · next hrunning =>
    have hnot : r ∉ queued s [] := hok.not_mem_queued ((hok.running r).mpr ⟨q, hq, hrunning⟩)
    exact ⟨rfl, rfl, rfl, (filter_ne_eq_self hnot).symm, fun _ _ h => h, fun _ _ h => h⟩
  · next hrunning =>
    have hnot : r ∉ s.running := by
      intro hmem
      obtain ⟨q', hq', hrun⟩ := (hok.running r).mp hmem
      obtain rfl := some_unique hq hq'
      exact hrunning hrun
    refine ⟨rfl, rfl, (filter_ne_eq_self hnot).symm, ?_, fun a ha h => ?_, fun a ha h => ?_⟩
    · simp [queued]
    · exact List.mem_filter.mpr ⟨h, by simpa using ha⟩
    · exact List.mem_filter.mpr ⟨h, by simpa using ha⟩

theorem leaveStopped_left {kv : KVCacheManager κ} (hok : QueuesOk s [])
    (hq : s.requests.get? r = some q) (hwaiting : q.status ≠ .running → r ∈ s.waiting) :
    Left r s (leaveStopped (s.setKv kv) r q.status) := by
  unfold leaveStopped
  split
  · next hrunning =>
    have hnot : r ∉ queued s [] := hok.not_mem_queued ((hok.running r).mpr ⟨q, hq, hrunning⟩)
    exact ⟨rfl, rfl, rfl, (filter_ne_eq_self hnot).symm, fun _ _ h => h, fun _ _ h => h⟩
  · next hrunning =>
    have hmem := hwaiting hrunning
    have hnot : r ∉ s.running := fun h =>
      hok.not_mem_queued h (List.mem_append_left _ hmem)
    have hnodup := hok.queued_nodup
    unfold queued at hnodup
    have hskip : r ∉ s.skippedWaiting ++ [] := fun h =>
      (List.nodup_append.mp hnodup).2.2 r hmem r h rfl
    refine ⟨rfl, rfl, (filter_ne_eq_self hnot).symm, ?_, fun _ _ h => h, fun a ha h => ?_⟩
    · unfold queued
      rw [List.filter_append, filter_ne_eq_self hskip]
      rfl
    · exact List.mem_filter.mpr ⟨h, by simpa using ha⟩

theorem QueuesOk.left {delay : Bool} {params : Option KVTransferParams} (hok : QueuesOk s [])
    (hleft : Left r s t) (hid : q.requestId = r)
    (hfree : t.freeRequest r q delay now = .ok (params, s')) : QueuesOk s' [] := by
  have hframe := freeRequest_frame hfree
  have hfinished : q.isFinished = true := (freeRequest_ok hfree).1
  have hself := freeRequest_self hfree
  have hrecord : ∀ q', s'.requests.get? r = some q' →
      q'.requestId = r ∧ q'.status = q.status := by
    intro q' hq'
    rcases hself with h | ⟨transfer, h⟩
    · rw [h] at hq'
      cases hq'
    · rw [h] at hq'
      obtain rfl := Option.some.inj hq'
      exact ⟨hid, rfl⟩
  have hqueued : Sched.queued s' [] = (Sched.queued s []).filter (· ≠ r) := by
    rw [← hleft.queued]
    simp only [Sched.queued, hframe.waiting, hframe.skippedWaiting]
  have hrunning : s'.running = s.running.filter (· ≠ r) := hframe.running.trans hleft.running
  refine hok.change r (fun a ha => ?_) (fun q' h => (hrecord q' h).1) ?_ (fun a ha => ?_) ?_ ?_
    (fun a ha => ?_) ?_ (fun a ha h => ?_) (fun q' hq' h => ?_)
  · rw [hframe.requests a ha, hleft.requests]
  · rw [hrunning]
    exact hok.running_nodup.filter _
  · simp [hrunning, ha]
  · rw [hrunning]
    refine ⟨fun h => by simp at h, ?_⟩
    rintro ⟨q', hq', hrun⟩
    rw [Request.isFinished, ← (hrecord q' hq').2, hrun] at hfinished
    cases hfinished
  · rw [hqueued]
    exact hok.queued_nodup.filter _
  · simp [hqueued, ha]
  · rw [hqueued]
    refine ⟨fun h => by simp at h, ?_⟩
    rintro ⟨q', hq', -, hlive⟩
    rw [Request.isFinished, (hrecord q' hq').2, ← Request.isFinished, hfinished] at hlive
    cases hlive
  · rw [List.append_nil] at h ⊢
    rw [hframe.skippedWaiting]
    exact hleft.skipped a ha h
  · rw [Request.isFinished, ← (hrecord q' hq').2, h] at hfinished
    cases hfinished

theorem QueuesOk.freeBlocks (hok : QueuesOk s []) (h : s.freeBlocks r = .ok s') :
    QueuesOk s' [] := by
  obtain ⟨q, kv, hq, hfinished, -, rfl⟩ := freeBlocks_ok h
  have hgone : (s.requests.erase r).get? r = none := Dict.get?_erase_self
  have hnot : r ∉ s.running := by
    intro hmem
    obtain ⟨q', hq', hrun⟩ := (hok.running r).mp hmem
    obtain rfl := some_unique hq hq'
    rw [Request.isFinished, hrun] at hfinished
    cases hfinished
  have hnot' : r ∉ Sched.queued s [] := by
    intro hmem
    obtain ⟨q', hq', -, hlive⟩ := (hok.queued r).mp hmem
    obtain rfl := some_unique hq hq'
    rw [hfinished] at hlive
    cases hlive
  refine hok.change r (fun a ha => Dict.get?_erase_ne ha.symm) (fun q' h => ?_)
    hok.running_nodup (fun _ _ => Iff.rfl) ⟨fun h => absurd h hnot, ?_⟩ hok.queued_nodup
    (fun _ _ => Iff.rfl) ⟨fun h => absurd h hnot', ?_⟩ (fun _ _ h => h) (fun q' h => ?_)
  · rw [hgone] at h
    cases h
  · rintro ⟨q', h, -⟩
    rw [hgone] at h
    cases h
  · rintro ⟨q', h, -⟩
    rw [hgone] at h
    cases h
  · rw [hgone] at h
    cases h

theorem beforeFree_left (hok : QueuesOk s []) (hq : s.requests.get? r = some q) :
    Left r s (beforeFree s r q) := by
  have hleft := leaveQueues_left hok hq
  unfold beforeFree
  split
  · exact ⟨hleft.config, hleft.requests, hleft.running, hleft.queued, hleft.skipped,
      hleft.waiting⟩
  · exact hleft

theorem QueuesOk.finishes (hok : QueuesOk s []) (h : Finishes now r s s') : QueuesOk s' [] := by
  obtain ⟨q, status, params, hq, -, -, hfree⟩ := h
  refine hok.left (beforeFree_left hok hq) ?_ hfree
  exact hok.keys r q hq

theorem QueuesOk.finishSteps (hok : QueuesOk s []) (h : FinishSteps now s s') :
    QueuesOk s' [] := by
  induction h with
  | refl => exact hok
  | tail _ hstep ih =>
    obtain ⟨r, hfinish⟩ := hstep
    exact ih.finishes hfinish

/-- The unfinished requests of the step `out` are running. -/
def RunningIn (out : SchedulerOutput) (s : Scheduler κ) : Prop :=
  ∀ r n q, (r, n) ∈ out.numScheduledTokens.entries → s.requests.get? r = some q →
    q.isFinished = false → q.status = .running

/-- The unfinished requests of the step `out` are running, or were preempted since and wait. -/
def RunningOrWaiting (out : SchedulerOutput) (s : Scheduler κ) : Prop :=
  ∀ r n q, (r, n) ∈ out.numScheduledTokens.entries → s.requests.get? r = some q →
    q.isFinished = false → q.status ≠ .running → r ∈ s.waiting

theorem RunningIn.runningOrWaiting (h : RunningIn out s) : RunningOrWaiting out s :=
  fun r n q hmem hq hlive hne => absurd (h r n q hmem hq hlive) hne

/-- What a state change may do to the records: a request keeps its status or is finished, and a
request stays in the waiting queue unless it is finished. -/
structure Progress (s s' : Scheduler κ) : Prop where
  record : ∀ a q', s'.requests.get? a = some q' → ∃ q, s.requests.get? a = some q ∧
    (q'.isFinished = true ∨ q'.status = q.status)
  waiting : ∀ a q', a ∈ s.waiting → s'.requests.get? a = some q' → q'.isFinished = false →
    a ∈ s'.waiting

theorem Progress.refl (s : Scheduler κ) : Progress s s :=
  ⟨fun _ q' h => ⟨q', h, .inr rfl⟩, fun _ _ h _ _ => h⟩

theorem Progress.congr (hrequests : s'.requests = s.requests) (hwaiting : s'.waiting = s.waiting) :
    Progress s s' := by
  refine ⟨fun a q' h => ⟨q', hrequests ▸ h, .inr rfl⟩, fun a q' ha _ _ => ?_⟩
  rw [hwaiting]
  exact ha

theorem Progress.trans (h : Progress s t) (h' : Progress t s') : Progress s s' := by
  refine ⟨fun a q' hq' => ?_, fun a q' ha hq' hlive => ?_⟩
  · obtain ⟨q, hq, hcases⟩ := h'.record a q' hq'
    obtain ⟨q₀, hq₀, hcases₀⟩ := h.record a q hq
    refine ⟨q₀, hq₀, ?_⟩
    rcases hcases with hfinished | hstatus
    · exact .inl hfinished
    · rw [Request.isFinished, hstatus]
      exact hcases₀
  · obtain ⟨q, hq, hcases⟩ := h'.record a q' hq'
    have hq_live : q.isFinished = false := by
      rcases hcases with hfinished | hstatus
      · rw [hfinished] at hlive
        cases hlive
      · rw [Request.isFinished, ← hstatus]
        exact hlive
    exact h'.waiting a q' (h.waiting a q ha hq hq_live) hq' hlive

theorem Progress.put {q' : Request} (hq : s.requests.get? r = some q)
    (hstatus : q'.status = q.status) : Progress s (s.putRequest r q') := by
  refine ⟨fun a q₁ h => ?_, fun _ _ h _ _ => h⟩
  rcases eq_or_ne a r with rfl | hne
  · obtain rfl := some_unique Dict.get?_insert_self h
    exact ⟨q, hq, .inr hstatus⟩
  · exact ⟨q₁, (Dict.get?_insert_ne hne.symm).symm.trans h, .inr rfl⟩

theorem Progress.left {delay : Bool} {params : Option KVTransferParams}
    {q₀ : Request} (hleft : Left r s t) (hq : s.requests.get? r = some q₀)
    (hfree : t.freeRequest r q delay now = .ok (params, s')) : Progress s s' := by
  have hframe := freeRequest_frame hfree
  have hself : ∀ q', s'.requests.get? r = some q' → q'.isFinished = true := by
    intro q' hq'
    rcases freeRequest_self hfree with h | ⟨transfer, h⟩
    · rw [h] at hq'
      cases hq'
    · rw [h] at hq'
      obtain rfl := Option.some.inj hq'
      exact (freeRequest_ok hfree).1
  refine ⟨fun a q' hq' => ?_, fun a q' ha hq' hlive => ?_⟩
  · rcases eq_or_ne a r with rfl | hne
    · exact ⟨q₀, hq, .inl (hself q' hq')⟩
    · rw [hframe.requests a hne, hleft.requests] at hq'
      exact ⟨q', hq', .inr rfl⟩
  · rcases eq_or_ne a r with rfl | hne
    · rw [hself q' hq'] at hlive
      cases hlive
    · rw [hframe.waiting]
      exact hleft.waiting a hne ha

theorem Progress.freeBlocks (h : s.freeBlocks r = .ok s') : Progress s s' := by
  obtain ⟨q, kv, -, -, -, rfl⟩ := freeBlocks_ok h
  refine ⟨fun a q' hq' => ?_, fun a q' ha _ _ => ha⟩
  rcases eq_or_ne a r with rfl | hne
  · rw [Dict.get?_erase_self] at hq'
    cases hq'
  · rw [Dict.get?_erase_ne hne.symm] at hq'
    exact ⟨q', hq', .inr rfl⟩

theorem Progress.finishes (hok : QueuesOk s []) (h : Finishes now r s s') : Progress s s' := by
  obtain ⟨q, status, params, hq, -, -, hfree⟩ := h
  exact Progress.left (beforeFree_left hok hq) hq hfree

theorem RunningIn.progress (h : RunningIn out s) (hprogress : Progress s s') :
    RunningIn out s' := by
  intro r n q' hmem hq' hlive
  obtain ⟨q, hq, hcases⟩ := hprogress.record r q' hq'
  rcases hcases with hfinished | hstatus
  · rw [hfinished] at hlive
    cases hlive
  · rw [hstatus]
    exact h r n q hmem hq (by rw [Request.isFinished, ← hstatus]; exact hlive)

theorem RunningOrWaiting.progress (h : RunningOrWaiting out s) (hprogress : Progress s s') :
    RunningOrWaiting out s' := by
  intro r n q' hmem hq' hlive hne
  obtain ⟨q, hq, hcases⟩ := hprogress.record r q' hq'
  rcases hcases with hfinished | hstatus
  · rw [hfinished] at hlive
    cases hlive
  · have hwait := h r n q hmem hq (by rw [Request.isFinished, ← hstatus]; exact hlive)
      (hstatus ▸ hne)
    exact hprogress.waiting r q' hwait hq' hlive

/-- While the next step is being built: a request of the step `out` runs, or this step has
preempted it. -/
def RunningOrPreempted (out : SchedulerOutput) (s : Scheduler κ) (st : StepState) : Prop :=
  ∀ r n q, (r, n) ∈ out.numScheduledTokens.entries → s.requests.get? r = some q →
    q.isFinished = false → q.status ≠ .running → r ∈ s.waiting ∧ st.preemptedReqs ≠ []

def ScheduledRun (s : Scheduler κ) (st : StepState) : Prop :=
  ∀ r n, st.numScheduledTokens.get? r = some n → r ∈ s.running ∧ 0 < n

theorem ScheduledRun.scheduleStep (h : ScheduleStep E x y)
    (hsched : ScheduledRun x.1 x.2) : ScheduledRun y.1 y.2 := by
  cases h with
  | allocateFails => exact hsched
  | @preempt s st v q kv hrunning hq hstatus hfcfs hkeys hkv =>
    have hdrop : ∀ a n, (dropScheduled st v).numScheduledTokens.get? a = some n →
        a ≠ v ∧ st.numScheduledTokens.get? a = some n := by
      intro a n ha
      unfold dropScheduled at ha
      split at ha
      · change (st.numScheduledTokens.erase v).get? a = some n at ha
        rcases eq_or_ne a v with rfl | hne
        · rw [Dict.get?_erase_self] at ha
          cases ha
        · exact ⟨hne, (Dict.get?_erase_ne hne.symm).symm.trans ha⟩
      · next hnot =>
        refine ⟨?_, ha⟩
        rintro rfl
        rw [hkeys a hnot] at ha
        cases ha
    intro a n ha
    obtain ⟨hne, ha⟩ := hdrop a n ha
    obtain ⟨hmem, hpos⟩ := hsched a n ha
    exact ⟨(List.mem_erase_of_ne hne).mpr hmem, hpos⟩
  | @run s st r q budget n kv blocks hrunning hq hpos =>
    intro a k ha
    change (st.numScheduledTokens.insert r n).get? a = some k at ha
    rcases eq_or_ne a r with rfl | hne
    · rw [Dict.get?_insert_self] at ha
      exact ⟨hrunning, Option.some.inj ha ▸ hpos⟩
    · rw [Dict.get?_insert_ne hne.symm] at ha
      exact hsched a k ha
  | @promote s st r q s' q' hq hstatus hdone hupdate =>
    obtain ⟨kv, rfl, -⟩ := updateWaitingForRemoteKv_ok hupdate
    exact hsched
  | @skip s st r w hqueue =>
    intro a n ha
    obtain ⟨hmem, hpos⟩ := hsched a n ha
    cases w <;> exact ⟨hmem, hpos⟩
  | @load s st r w q m kv blocks s' q' hqueue _ hq _ _ _ _ hupdate =>
    obtain ⟨⟨c, rfl⟩, params, rfl⟩ := updateConnectorAfterAlloc_frame hupdate
    intro a n ha
    obtain ⟨hmem, hpos⟩ := hsched a n ha
    cases w <;> exact ⟨hmem, hpos⟩
  | @start s st r w q m n kv blocks s' q' hqueue _ hq _ _ _ hn _ _ hupdate =>
    obtain ⟨⟨c, rfl⟩, params, rfl⟩ := updateConnectorAfterAlloc_frame hupdate
    intro a k ha
    change (st.numScheduledTokens.insert r n).get? a = some k at ha
    change a ∈ s.running ++ [r] ∧ 0 < k
    rcases eq_or_ne a r with rfl | hne
    · rw [Dict.get?_insert_self] at ha
      exact ⟨List.mem_append_right _ (List.mem_singleton_self a), Option.some.inj ha ▸ hn⟩
    · rw [Dict.get?_insert_ne hne.symm] at ha
      obtain ⟨hmem, hpos⟩ := hsched a k ha
      exact ⟨List.mem_append_left _ hmem, hpos⟩
  | requeue => exact hsched

theorem RunningOrPreempted.not_mem {st : StepState} {n : Nat}
    (hout : RunningOrPreempted out s st) (hok : QueuesOk s st.stepSkippedWaiting)
    (hpre : st.preemptedReqs = []) (hqueue : r ∈ s.queue w) :
    (r, n) ∉ out.numScheduledTokens.entries := by
  intro hmem
  obtain ⟨q, hq, hne, hlive⟩ := (hok.queued r).mp (mem_queued_of_queue _ w hqueue)
  exact (hout r n q hmem hq hlive hne).2 hpre

theorem RunningOrPreempted.entered {st st' : StepState}
    (hout : RunningOrPreempted out s st) (hok : QueuesOk s st.stepSkippedWaiting)
    (hpre : st.preemptedReqs = []) (hqueue : r ∈ s.queue w)
    (hother : ∀ a, a ≠ r → s'.requests.get? a = s.requests.get? a) :
    RunningOrPreempted out s' st' := by
  intro a n q hmem hq hlive hne
  rcases eq_or_ne a r with rfl | har
  · exact absurd hmem (hout.not_mem hok hpre hqueue)
  · exact absurd hpre (hout a n q hmem ((hother a har).symm.trans hq) hlive hne).2

/-- A request of an earlier step is not taken from a waiting queue while that step is under
way: once a request was preempted, no waiting request is looked at. -/
theorem RunningOrPreempted.scheduleStep
    (h : ScheduleStep E x y) (hok : QueuesOk x.1 x.2.stepSkippedWaiting)
    (hout : RunningOrPreempted out x.1 x.2) : RunningOrPreempted out y.1 y.2 := by
  cases h with
  | allocateFails => exact hout
  | @preempt s st v q kv hrunning hq hstatus hfcfs hkeys hkv =>
    intro a n q' hmem hq' hlive hne
    refine ⟨?_, by simp⟩
    rcases eq_or_ne a v with rfl | hav
    · exact List.mem_cons_self
    · have hq'' : s.requests.get? a = some q' :=
        (Dict.get?_insert_ne hav.symm).symm.trans hq'
      exact List.mem_cons_of_mem _ (hout a n q' hmem hq'' hlive hne).1
  | run => exact hout
  | @promote s st r q s' q' hq hstatus hdone hupdate =>
    obtain ⟨kv, rfl, -⟩ := updateWaitingForRemoteKv_ok hupdate
    intro a n q₁ hmem hq₁ hlive hne
    rcases eq_or_ne a r with rfl | har
    · have hlive' : q.isFinished = false := by rw [Request.isFinished, hstatus]; rfl
      exact hout a n q hmem hq hlive' (by simp [hstatus])
    · exact hout a n q₁ hmem ((Dict.get?_insert_ne har.symm).symm.trans hq₁) hlive hne
  | @skip s st r w hqueue hpre => exact hout.entered hok hpre hqueue fun a _ => by cases w <;> rfl
  | @load s st r w q m kv blocks s' q' hqueue hpre hq _ _ _ _ hupdate =>
    obtain ⟨⟨c, rfl⟩, params, rfl⟩ := updateConnectorAfterAlloc_frame hupdate
    refine hout.entered hok hpre hqueue fun a ha => ?_
    rw [Scheduler.putRequest_requests, Dict.get?_insert_ne ha.symm]
    cases w <;> rfl
  | @start s st r w q m n kv blocks s' q' hqueue hpre hq _ _ _ _ _ _ hupdate =>
    obtain ⟨⟨c, rfl⟩, params, rfl⟩ := updateConnectorAfterAlloc_frame hupdate
    refine hout.entered hok hpre hqueue fun a ha => ?_
    rw [Scheduler.putRequest_requests, Dict.get?_insert_ne ha.symm]
    cases w <;> rfl
  | requeue => exact hout

theorem QueuesOk.updateStep {x y : Scheduler κ × List (ReqId × EngineCoreOutput)}
    (h : UpdateStep E out sampled kvOut now x y) (hok : QueuesOk x.1 [])
    (hhead : RunningOrWaiting out x.1) : QueuesOk y.1 [] ∧ Progress x.1 y.1 := by
  cases h with
  | rewind hq => exact ⟨hok.put hq rfl rfl, .put hq rfl⟩
  | evict => exact ⟨hok.congr rfl rfl rfl rfl, .congr rfl rfl⟩
  | markFailed => exact ⟨hok.congr rfl rfl rfl rfl, .congr rfl rfl⟩
  | @output s outs r n q q' used kv hsched hq hlive hsome hupdate =>
    obtain ⟨status, stopReason, params, placeholders, rfl, -, hstatus, -⟩ :=
      updateRequestWithOutput_frame hupdate
    have hok' : QueuesOk (s.setKv kv) [] := hok.congr rfl rfl rfl rfl
    have hprogress : Progress s (s.setKv kv) := .congr rfl rfl
    exact ⟨hok'.put hq rfl (hstatus rfl).1, hprogress.trans (.put hq (hstatus rfl).1)⟩
  | @stop s outs r n q q' used kv params s' hsched hq hlive hsome hupdate hfree =>
    obtain ⟨status, stopReason, transfer, placeholders, rfl, -, -, -⟩ :=
      updateRequestWithOutput_frame hupdate
    have hleft : Left r s (leaveStopped (s.setKv kv) r q.status) :=
      leaveStopped_left hok hq (hhead r n q hsched hq hlive)
    refine ⟨hok.left hleft ?_ hfree, .left hleft hq hfree⟩
    exact hok.keys r q hq
  | finish hfinish => exact ⟨hok.finishes hfinish, .finishes hok hfinish⟩
  | received => exact ⟨hok.congr rfl rfl rfl rfl, .congr rfl rfl⟩
  | free _ hfree => exact ⟨hok.freeBlocks hfree, .freeBlocks hfree⟩

theorem QueuesOk.updateSteps {x y : Scheduler κ × List (ReqId × EngineCoreOutput)}
    (h : UpdateSteps E out sampled kvOut now x y) (hok : QueuesOk x.1 [])
    (hhead : RunningOrWaiting out x.1) : QueuesOk y.1 [] ∧ Progress x.1 y.1 := by
  induction h with
  | refl => exact ⟨hok, .refl _⟩
  | tail _ hstep ih =>
    obtain ⟨hok₁, hprogress₁⟩ := ih
    obtain ⟨hok₂, hprogress₂⟩ := hok₁.updateStep hstep (hhead.progress hprogress₁)
    exact ⟨hok₂, hprogress₁.trans hprogress₂⟩

end Update

end EldrServing.Sched
