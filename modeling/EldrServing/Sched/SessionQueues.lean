import EldrServing.Lib.Enumeration
import EldrServing.Sched.Sessions

/-!
# The queues partition the live requests

Every unfinished request is in one queue, once, and the running ones are those with the status
`RUNNING`. A stop can be discovered late, for a request that was preempted or has left `running`
in another way since its step was built. The partition is kept if such a request waits in the
queue from which `update_from_output` removes it, and is not put back there by a next chunk of
its session.
-/

namespace EldrServing.Sched.Sessions

set_option autoImplicit false

open Engine KVCache Function Machine

variable {υ : Type}

def IsRunning (requests : ReqId → Option (Entry υ)) (r : ReqId) : Prop :=
  ∃ e, requests r = some e ∧ e.status = .running

def IsQueued (requests : ReqId → Option (Entry υ)) (r : ReqId) : Prop :=
  ∃ e, requests r = some e ∧ e.status ≠ .running ∧ e.status.isFinished = false

structure Partition (requests : ReqId → Option (Entry υ)) (running queued : List ReqId) :
    Prop where
  running : Enumerates running (IsRunning requests)
  queued : Enumerates queued (IsQueued requests)

section Update

variable {requests : ReqId → Option (Entry υ)} {r a : ReqId} {e : Entry υ}

theorem isRunning_update :
    IsRunning (update requests r (some e)) a ↔
      a = r ∧ e.status = .running ∨ a ≠ r ∧ IsRunning requests a := by
  by_cases ha : a = r
  · subst ha
    simp [IsRunning]
  · simp [IsRunning, ha]

theorem isQueued_update :
    IsQueued (update requests r (some e)) a ↔
      a = r ∧ (e.status ≠ .running ∧ e.status.isFinished = false) ∨
        a ≠ r ∧ IsQueued requests a := by
  by_cases ha : a = r
  · subst ha
    simp [IsQueued]
  · simp [IsQueued, ha]

theorem isRunning_delete :
    IsRunning (update requests r none) a ↔ a ≠ r ∧ IsRunning requests a := by
  by_cases ha : a = r
  · subst ha
    simp [IsRunning]
  · simp [IsRunning, ha]

theorem isQueued_delete :
    IsQueued (update requests r none) a ↔ a ≠ r ∧ IsQueued requests a := by
  by_cases ha : a = r
  · subst ha
    simp [IsQueued]
  · simp [IsQueued, ha]

theorem IsRunning.not_isQueued (h : IsRunning requests r) : ¬ IsQueued requests r := by
  rintro ⟨e, he, hne, -⟩
  obtain ⟨e', he', hst⟩ := h
  cases he.symm.trans he'
  exact hne hst

end Update

/-! ### One request changes its place -/

namespace Partition

variable {requests requests' : ReqId → Option (Entry υ)}
  {running running' queued queued' : List ReqId} {r : ReqId} {e : Entry υ}

theorem requeue (h : Partition requests running queued) (hr : IsQueued requests r)
    (he : e.status ≠ .running ∧ e.status.isFinished = false) (hqueued : queued.Perm queued') :
    Partition (update requests r (some e)) running queued' where
  running := by
    refine h.running.congr fun a => ?_
    rw [isRunning_update]
    by_cases ha : a = r
    · subst ha
      have hnot : ¬ IsRunning requests a := fun hrun => hrun.not_isQueued hr
      simp [he.1, hnot]
    · simp [ha]
  queued := by
    refine (h.queued.perm hqueued).congr fun a => ?_
    rw [isQueued_update]
    by_cases ha : a = r
    · subst ha
      simp [he, hr]
    · simp [ha]

theorem start (h : Partition requests running queued) (he : e.status = .running)
    (hqueued : queued.Perm (r :: queued')) :
    Partition (update requests r (some e)) (running ++ [r]) queued' where
  running := by
    have hr : IsQueued requests r :=
      (h.queued.mem_iff r).mp (hqueued.mem_iff.mpr List.mem_cons_self)
    have hnot : ¬ IsRunning requests r := fun hrun => hrun.not_isQueued hr
    refine (h.running.cons hnot fun a => ?_).perm (List.perm_append_singleton r _).symm
    rw [isRunning_update]
    by_cases ha : a = r
    · simp [ha, he]
    · simp [ha]
  queued := by
    refine (h.queued.perm hqueued).tail fun a => ?_
    rw [isQueued_update]
    by_cases ha : a = r
    · simp [ha, he]
    · simp [ha]

theorem await (h : Partition requests running queued)
    (he : e.status ≠ .running ∧ e.status.isFinished = false)
    (hrunning : running.Perm (r :: running')) (hqueued : (r :: queued).Perm queued') :
    Partition (update requests r (some e)) running' queued' where
  running := by
    refine (h.running.perm hrunning).tail fun a => ?_
    rw [isRunning_update]
    by_cases ha : a = r
    · simp [ha, he]
    · simp [ha]
  queued := by
    have hr : IsRunning requests r :=
      (h.running.mem_iff r).mp (hrunning.mem_iff.mpr List.mem_cons_self)
    refine (h.queued.cons hr.not_isQueued fun a => ?_).perm hqueued
    rw [isQueued_update]
    by_cases ha : a = r
    · simp [ha, he]
    · simp [ha]

theorem arrive (h : Partition requests running queued) (hr : requests r = none)
    (he : e.status ≠ .running ∧ e.status.isFinished = false)
    (hqueued : (r :: queued).Perm queued') :
    Partition (update requests r (some e)) running queued' where
  running := by
    refine h.running.congr fun a => ?_
    rw [isRunning_update]
    by_cases ha : a = r
    · simp [ha, he, IsRunning, hr]
    · simp [ha]
  queued := by
    have hnot : ¬ IsQueued requests r := by simp [IsQueued, hr]
    refine (h.queued.cons hnot fun a => ?_).perm hqueued
    rw [isQueued_update]
    by_cases ha : a = r
    · simp [ha, he]
    · simp [ha]

theorem leave (h : Partition requests running queued) (gone : ReqId → Prop)
    (hkeep : ∀ a, ¬ gone a → requests' a = requests a)
    (hgone : ∀ a, gone a → ¬ IsRunning requests' a ∧ ¬ IsQueued requests' a)
    {keep : ReqId → Bool} (hiff : ∀ a, keep a = true ↔ ¬ gone a) :
    Partition requests' (running.filter keep) (queued.filter keep) where
  running := by
    refine h.running.filter fun a => ?_
    by_cases ha : gone a
    · simp [hiff, ha, (hgone a ha).1]
    · simp [hiff, ha, IsRunning, hkeep a ha]
  queued := by
    refine h.queued.filter fun a => ?_
    by_cases ha : gone a
    · simp [hiff, ha, (hgone a ha).2]
    · simp [hiff, ha, IsQueued, hkeep a ha]

end Partition

namespace Queues

variable {s s' : Queues υ} {passed passed' : List ReqId} {r : ReqId} {e : Entry υ}

@[simp] theorem put_requests : (s.put r e).requests = update s.requests r (some e) := rfl

@[simp] theorem put_running : (s.put r e).running = s.running := rfl

@[simp] theorem put_waiting : (s.put r e).waiting = s.waiting := rfl

@[simp] theorem put_skippedWaiting : (s.put r e).skippedWaiting = s.skippedWaiting := rfl

/-- Every unfinished request is in one queue, once. Within a call of `schedule` the skipped
requests `passed` are in a list of their own. -/
def Ok (s : Queues υ) (passed : List ReqId) : Prop :=
  Partition s.requests s.running (passed ++ (s.skippedWaiting ++ s.waiting))

/-! ### Scheduling -/

theorem preemptRequest_partition {running running' : List ReqId}
    (hp : s.preemptRequest r = some s')
    (h : Partition s.requests running (s.skippedWaiting ++ s.waiting))
    (hr : running.Perm (r :: running')) :
    s'.running = s.running ∧
      Partition s'.requests running' (s'.skippedWaiting ++ s'.waiting) := by
  unfold preemptRequest at hp
  split at hp
  · cases hp
  split at hp
  · cases hp
    exact ⟨rfl, h.await ⟨by simp, rfl⟩ hr List.perm_middle.symm⟩
  · cases hp

theorem preempt_ok (h : s.Ok []) (hp : s.preempt r = some s') : s'.Ok [] := by
  have key : ∀ l, s.running.Perm (r :: l) →
      { s with running := l }.preemptRequest r = some s' → s'.Ok [] := by
    intro l hl hs
    obtain ⟨hrunning, hpart⟩ := preemptRequest_partition hs h hl
    obtain rfl : s'.running = l := hrunning
    exact hpart
  unfold preempt at hp
  split at hp
  · split at hp
    · rename_i hlast
      refine key _ ?_ hp
      conv_lhs => rw [← List.dropLast_append_getLast? r hlast]
      exact List.perm_append_singleton r _
    · cases hp
  · split at hp
    · rename_i hr
      exact key _ (List.perm_cons_erase hr) hp
    · cases hp

theorem preemptAll_ok {rs : List ReqId} (h : s.Ok []) (hp : preemptAll rs s = some s') :
    s'.Ok [] := by
  induction rs generalizing s with
  | nil =>
    cases hp
    exact h
  | cons r rs ih =>
    obtain ⟨t, ht, hrest⟩ := Option.bind_eq_some_iff.mp hp
    exact ih (preempt_ok h ht) hrest

theorem resetRunning_ok (h : s.Ok []) (hp : s.resetRunning = some s') : s'.Ok [] := by
  -- the requests still to be preempted are the running ones
  suffices key : ∀ (rs : List ReqId) (t : Queues υ), t.running = [] →
      Partition t.requests rs (t.skippedWaiting ++ t.waiting) →
      rs.foldlM (fun s r => s.preemptRequest r) t = some s' → s'.Ok [] by
    have hrev := h.running.perm s.running.reverse_perm.symm
    exact key _ { s with running := [] } rfl ⟨hrev, h.queued⟩ hp
  intro rs
  induction rs with
  | nil =>
    intro t ht hpart hfold
    cases hfold
    unfold Ok
    rwa [ht]
  | cons r rs ih =>
    intro t ht hpart hfold
    rw [List.foldlM_cons] at hfold
    obtain ⟨t', ht', hrest⟩ := Option.bind_eq_some_iff.mp hfold
    obtain ⟨hrunning, hpart'⟩ := preemptRequest_partition ht' hpart (.refl _)
    exact ih t' (hrunning.trans ht) hpart' hrest

theorem mem_queue_of_selects {w : Scheduler.WaitingQueue} (h : s.selects w r = true) :
    r ∈ s.queue w := by
  unfold selects at h
  split at h
  · exact List.mem_of_head? (of_decide_eq_true h)
  · simp only [Bool.and_eq_true, decide_eq_true_eq] at h
    exact List.mem_of_head? h.2
  · exact of_decide_eq_true h

theorem popRequest_perm {w : Scheduler.WaitingQueue} (h : r ∈ s.queue w) :
    (passed ++ (s.skippedWaiting ++ s.waiting)).Perm
      (r :: (passed ++ ((s.popRequest r w).skippedWaiting ++ (s.popRequest r w).waiting))) := by
  refine List.Perm.trans (List.Perm.append_left _ ?_) List.perm_middle
  cases w with
  | waiting =>
    exact (List.Perm.append_left _ (List.perm_cons_erase h)).trans List.perm_middle
  | skipped => exact (List.perm_cons_erase h).append_right _

theorem put_popRequest (w : Scheduler.WaitingQueue) :
    (s.put r e).popRequest r w = (s.popRequest r w).put r e := by
  cases w <;> rfl

@[simp] theorem popRequest_requests (w : Scheduler.WaitingQueue) :
    (s.popRequest r w).requests = s.requests := by
  cases w <;> rfl

@[simp] theorem popRequest_running (w : Scheduler.WaitingQueue) :
    (s.popRequest r w).running = s.running := by
  cases w <;> rfl

theorem tryPromote_queued {ready : Bool} {status : RequestStatus}
    (he : e.status ≠ .running ∧ e.status.isFinished = false)
    (h : tryPromote e ready = some status) :
    status ≠ .running ∧ status.isFinished = false := by
  unfold tryPromote at h
  split at h
  · split at h
    · cases h
      split <;> exact ⟨by simp, rfl⟩
    · cases h
  · split at h <;> cases h
    exact ⟨by simp, rfl⟩
  · cases h
  · cases h
    exact he

theorem takeTurn_ok {t : Turn} {b : Bool} (h : s.Ok passed)
    (ht : s.takeTurn passed t = some (b, s', passed')) : s'.Ok passed' := by
  unfold takeTurn at ht
  split at ht
  · cases ht
  rename_i hsel
  rw [Bool.not_eq_false] at hsel
  have hpop : (passed ++ (s.skippedWaiting ++ s.waiting)).Perm _ :=
    popRequest_perm (mem_queue_of_selects hsel)
  have hq : IsQueued s.requests t.request :=
    (h.queued.mem_iff _).mp (hpop.mem_iff.mpr List.mem_cons_self)
  split at ht
  · cases ht
  rename_i e he
  have hst : e.status ≠ .running ∧ e.status.isFinished = false := by
    obtain ⟨e', he', hst⟩ := hq
    cases he.symm.trans he'
    exact hst
  split at ht
  · cases ht
    unfold Ok
    rw [popRequest_requests, popRequest_running]
    exact ⟨h.running, h.queued.perm hpop⟩
  rename_i status hpromote
  have hst' := tryPromote_queued hst hpromote
  simp only [put_popRequest] at ht
  split at ht
  · cases ht
    exact h.requeue (e := { e with status }) hq hst' (.refl _)
  · cases ht
    unfold Ok
    simp only [put_requests, put_running, put_skippedWaiting, put_waiting, popRequest_requests,
      popRequest_running]
    exact h.requeue (e := { e with status }) hq hst' hpop
  · cases ht
    unfold Ok
    simp only [put_requests, put_running, put_skippedWaiting, put_waiting, popRequest_requests,
      popRequest_running, update_idem]
    exact h.requeue (e := { e with status := .waitingForRemoteKvs }) hq ⟨by simp, rfl⟩ hpop
  · split at ht
    · cases ht
      unfold Ok
      simp only [put_requests, put_running, put_skippedWaiting, put_waiting, popRequest_requests,
        popRequest_running, update_idem]
      exact h.start (e := { e with status := .running }) rfl hpop
    · cases ht

theorem waitingLoop_ok {ts : List Turn} (h : s.Ok passed)
    (hl : waitingLoop ts s passed = some (s', passed')) : s'.Ok passed' := by
  induction ts generalizing s passed with
  | nil =>
    cases hl
    exact h
  | cons t ts ih =>
    unfold waitingLoop at hl
    split at hl
    · cases hl
    · rename_i ht
      exact ih (takeTurn_ok h ht) hl
    · rename_i ht
      split at hl <;> cases hl
      exact takeTurn_ok h ht

theorem schedule_ok {preempts : List ReqId} {turns : List Turn} (h : s.Ok [])
    (hs : s.schedule preempts turns = some s') : s'.Ok [] := by
  obtain ⟨t, ht, hs⟩ := Option.bind_eq_some_iff.mp hs
  have htok := preemptAll_ok h ht
  split at hs
  · obtain ⟨⟨t', passed⟩, hloop, rfl⟩ := Option.map_eq_some_iff.mp hs
    have hok := waitingLoop_ok htok hloop
    refine ⟨hok.running, hok.queued.perm ?_⟩
    rw [List.nil_append, List.append_assoc]
    exact passed.reverse_perm.symm.append_right _
  · split at hs <;> cases hs
    exact htok

/-! ### The order of skipped requests -/

theorem takeTurn_order {t : Turn} {b : Bool} (hpolicy : s.policy = .fcfs)
    (ht : s.takeTurn passed t = some (b, s', passed')) :
    s'.policy = .fcfs ∧ ∃ started : List ReqId, s'.running = s.running ++ started ∧
      (started = [] → passed'.reverse ++ (s'.skippedWaiting ++ s'.waiting) =
        passed.reverse ++ (s.skippedWaiting ++ s.waiting)) := by
  unfold takeTurn at ht
  split at ht
  · cases ht
  rename_i hsel
  rw [Bool.not_eq_false] at hsel
  -- the request taken out is the first of all
  have hpop : s.skippedWaiting ++ s.waiting = t.request ::
      ((s.popRequest t.request t.queue).skippedWaiting ++
        (s.popRequest t.request t.queue).waiting) := by
    cases hw : t.queue with
    | skipped =>
      simp only [selects, hpolicy, hw, decide_eq_true_eq] at hsel
      obtain ⟨l, hl⟩ := List.head?_eq_some_iff.mp hsel
      simp [popRequest, hl]
    | waiting =>
      simp only [selects, hpolicy, hw, Bool.and_eq_true, decide_eq_true_eq] at hsel
      obtain ⟨l, hl⟩ := List.head?_eq_some_iff.mp hsel.2
      simp [popRequest, hl, hsel.1]
  have hpolicy' : (s.popRequest t.request t.queue).policy = .fcfs := by
    cases t.queue <;> exact hpolicy
  have hskip : (t.request :: passed).reverse ++
      ((s.popRequest t.request t.queue).skippedWaiting ++
        (s.popRequest t.request t.queue).waiting) =
      passed.reverse ++ (s.skippedWaiting ++ s.waiting) := by
    rw [hpop]
    simp
  split at ht
  · cases ht
  split at ht
  · cases ht
    exact ⟨hpolicy', [], by simp, fun _ => hskip⟩
  simp only [put_popRequest] at ht
  split at ht
  · cases ht
    exact ⟨hpolicy, [], by simp, fun _ => rfl⟩
  · cases ht
    exact ⟨hpolicy', [], by simp, fun _ => hskip⟩
  · cases ht
    exact ⟨hpolicy', [], by simp, fun _ => hskip⟩
  · split at ht
    · cases ht
      exact ⟨hpolicy', [t.request], by simp, fun h => nomatch h⟩
    · cases ht

theorem waitingLoop_order {ts : List Turn} (hpolicy : s.policy = .fcfs)
    (hl : waitingLoop ts s passed = some (s', passed')) :
    ∃ started : List ReqId, s'.running = s.running ++ started ∧
      (started = [] → passed'.reverse ++ (s'.skippedWaiting ++ s'.waiting) =
        passed.reverse ++ (s.skippedWaiting ++ s.waiting)) := by
  induction ts generalizing s passed with
  | nil =>
    cases hl
    exact ⟨[], by simp, fun _ => rfl⟩
  | cons t ts ih =>
    unfold waitingLoop at hl
    split at hl
    · cases hl
    · rename_i ht
      obtain ⟨hpolicy', first, hfirst, horder⟩ := takeTurn_order hpolicy ht
      obtain ⟨rest, hrest, horder'⟩ := ih hpolicy' hl
      refine ⟨first ++ rest, by rw [hrest, hfirst, List.append_assoc], fun hnil => ?_⟩
      obtain ⟨rfl, rfl⟩ := List.append_eq_nil_iff.mp hnil
      rw [horder' rfl, horder rfl]
    · rename_i ht
      split at hl <;> cases hl
      exact (takeTurn_order hpolicy ht).2

/-- A pass that starts no request and preempts none has only skipped requests. Under `FCFS` it
leaves their order unchanged: first those skipped before, then the others. -/
theorem schedule_order {turns : List Turn} (hpolicy : s.policy = .fcfs)
    (hs : s.schedule [] turns = some s') (hrunning : s'.running = s.running) :
    s'.skippedWaiting ++ s'.waiting = s.skippedWaiting ++ s.waiting := by
  obtain ⟨t, ht, hs⟩ := Option.bind_eq_some_iff.mp hs
  cases ht
  rw [if_pos rfl] at hs
  obtain ⟨⟨t', passed⟩, hloop, rfl⟩ := Option.map_eq_some_iff.mp hs
  obtain ⟨started, hstarted, horder⟩ := waitingLoop_order hpolicy hloop
  have hnil : started = [] := by simpa [hstarted] using hrunning
  simpa using horder hnil

/-! ### Ends of requests -/

theorem finishRequest_lists (status : RequestStatus) (delayed : Bool) :
    (s.finishRequest r status delayed).running = s.running ∧
      (s.finishRequest r status delayed).waiting = s.waiting ∧
      (s.finishRequest r status delayed).skippedWaiting = s.skippedWaiting := by
  unfold finishRequest freeRequest
  split
  · split <;> exact ⟨rfl, rfl, rfl⟩
  · exact ⟨rfl, rfl, rfl⟩

theorem freeRequest_gone (delayed : Bool) (he : e.status.isFinished = true) :
    (∀ a ≠ r, ((s.put r e).freeRequest r delayed).requests a = s.requests a) ∧
      ¬ IsRunning ((s.put r e).freeRequest r delayed).requests r ∧
      ¬ IsQueued ((s.put r e).freeRequest r delayed).requests r := by
  have hne : e.status ≠ .running := by
    intro h
    simp [h, RequestStatus.isFinished] at he
  unfold freeRequest
  split
  · refine ⟨fun a ha => by simp [ha], ?_, ?_⟩
    · simp [isRunning_update, hne]
    · simp [isQueued_update, he]
  · refine ⟨fun a ha => by simp [delete, ha], ?_, ?_⟩
    · simp [delete, isRunning_delete]
    · simp [delete, isQueued_delete]

theorem finishRequest_gone {status : RequestStatus} (delayed : Bool)
    (hst : status.isFinished = true) :
    (∀ a ≠ r, (s.finishRequest r status delayed).requests a = s.requests a) ∧
      ¬ IsRunning (s.finishRequest r status delayed).requests r ∧
      ¬ IsQueued (s.finishRequest r status delayed).requests r := by
  unfold finishRequest
  split
  · exact freeRequest_gone delayed hst
  · rename_i hnone
    exact ⟨fun _ _ => rfl, by simp [IsRunning, hnone], by simp [IsQueued, hnone]⟩

theorem finishAll_gone {status : RequestStatus} {delayed : ReqId → Bool} {rs : List ReqId}
    (hst : status.isFinished = true) {t : Queues υ}
    (ht : rs.foldl (fun s r => s.finishRequest r status (delayed r)) s = t) :
    (t.running = s.running ∧ t.waiting = s.waiting ∧ t.skippedWaiting = s.skippedWaiting) ∧
      (∀ a ∉ rs, t.requests a = s.requests a) ∧
      ∀ a ∈ rs, ¬ IsRunning t.requests a ∧ ¬ IsQueued t.requests a := by
  induction rs generalizing s with
  | nil =>
    subst ht
    simp
  | cons r rs ih =>
    rw [List.foldl_cons] at ht
    obtain ⟨hlists, hkeep, hgone⟩ := ih ht
    obtain ⟨hkeep₁, hgone₁⟩ := finishRequest_gone (s := s) (r := r) (delayed r) hst
    obtain ⟨hrun, hwait, hskip⟩ := finishRequest_lists (s := s) (r := r) status (delayed r)
    refine ⟨⟨hlists.1.trans hrun, hlists.2.1.trans hwait, hlists.2.2.trans hskip⟩, ?_, ?_⟩
    · intro a ha
      rw [List.mem_cons, not_or] at ha
      rw [hkeep a ha.2, hkeep₁ a ha.1]
    · intro a ha
      by_cases hrest : a ∈ rs
      · exact hgone a hrest
      obtain rfl : a = r := (List.mem_cons.mp ha).resolve_right hrest
      unfold IsRunning IsQueued at hgone₁ ⊢
      rwa [hkeep a hrest]

theorem isRunning_iff : s.isRunning r = true ↔ IsRunning s.requests r := by
  unfold isRunning IsRunning
  cases s.requests r <;> simp

theorem finishRequests_ok {ids : List ReqId} {status : RequestStatus} {delayed : ReqId → Bool}
    (h : s.Ok []) (hf : s.finishRequests ids status delayed = some s') : s'.Ok [] := by
  unfold finishRequests at hf
  split at hf
  · cases hf
  rename_i hst
  rw [Bool.not_eq_false] at hst
  obtain ⟨t, ht⟩ : ∃ t, (ids.dedup.filter s.unfinished).foldl
    (fun s r => s.finishRequest r status (delayed r))
      (s.removeAll (ids.dedup.filter s.unfinished)) = t := ⟨_, rfl⟩
  obtain rfl : t = s' := by simpa [ht] using hf
  obtain ⟨⟨hrun, hwait, hskip⟩, hkeep, hgone⟩ := finishAll_gone hst ht
  generalize ids.dedup.filter s.unfinished = valid at hrun hwait hskip hkeep hgone
  have hleave := h.leave (· ∈ valid) hkeep hgone
    (fun a => decide_eq_true_iff (p := a ∉ valid))
  -- the requests are removed from the queue that they are in
  have hrunning : ∀ a ∈ s.running, (a ∉ valid.filter s.isRunning ↔ a ∉ valid) := by
    intro a ha
    simp [isRunning_iff.mpr ((h.running.mem_iff a).mp ha)]
  have hqueued : ∀ a ∈ s.skippedWaiting ++ s.waiting,
      (a ∉ valid.filter (!s.isRunning ·) ↔ a ∉ valid) := by
    intro a ha
    have hnot : s.isRunning a = false := by
      rw [← Bool.not_eq_true, isRunning_iff]
      exact fun hrun => hrun.not_isQueued ((h.queued.mem_iff a).mp ha)
    simp [hnot]
  unfold Ok
  rw [hrun, hwait, hskip]
  have hr : (s.removeAll valid).running = s.running.filter (· ∉ valid) :=
    List.filter_congr fun a ha => decide_eq_decide.mpr (hrunning a ha)
  have hw : (s.removeAll valid).skippedWaiting ++ (s.removeAll valid).waiting =
      (s.skippedWaiting ++ s.waiting).filter (· ∉ valid) := by
    rw [← List.filter_congr fun a ha => decide_eq_decide.mpr (hqueued a ha), List.filter_append]
    rfl
  rw [hr, hw]
  exact hleave

/-! ### New requests -/

theorem enqueueWaitingRequest_perm (status : RequestStatus) :
    (r :: (s.skippedWaiting ++ s.waiting)).Perm
      ((s.enqueueWaitingRequest r status).skippedWaiting ++
        (s.enqueueWaitingRequest r status).waiting) := by
  unfold enqueueWaitingRequest
  split
  · have hmove : (s.skippedWaiting ++ [r] ++ s.waiting).Perm _ :=
      (List.perm_append_singleton r s.skippedWaiting).append_right s.waiting
    exact hmove.symm
  · have hmove : (s.skippedWaiting ++ (s.waiting ++ [r])).Perm _ :=
      List.Perm.append_left _ (List.perm_append_singleton r s.waiting)
    exact (hmove.trans List.perm_middle).symm

@[simp] theorem enqueueWaitingRequest_requests (status : RequestStatus) :
    (s.enqueueWaitingRequest r status).requests = s.requests := by
  unfold enqueueWaitingRequest
  split <;> rfl

@[simp] theorem enqueueWaitingRequest_running (status : RequestStatus) :
    (s.enqueueWaitingRequest r status).running = s.running := by
  unfold enqueueWaitingRequest
  split <;> rfl

theorem addRequest_ok {chunk : Option υ} {grammar delayed : Bool} (h : s.Ok [])
    (ha : s.addRequest r chunk grammar delayed = some s') : s'.Ok [] := by
  unfold addRequest at ha
  split at ha
  · rename_i hnone
    cases ha
    unfold Ok
    simp only [put_requests, put_running, put_skippedWaiting, put_waiting,
      enqueueWaitingRequest_requests, enqueueWaitingRequest_running]
    refine h.arrive hnone ?_ (enqueueWaitingRequest_perm _)
    split <;> exact ⟨by simp, rfl⟩
  · rename_i e he
    -- a change of the session's input leaves its place
    have hinput : ∀ queue, (s.put r { e with streamingQueue := queue }).Ok [] := by
      intro queue
      refine ⟨h.running.congr fun a => ?_, h.queued.congr fun a => ?_⟩
      · by_cases ha : a = r <;> simp [IsRunning, ha, he]
      · by_cases ha : a = r <;> simp [IsQueued, ha, he]
    split at ha
    · obtain ⟨queue, -, rfl⟩ := Option.map_eq_some_iff.mp ha
      exact hinput _
    rename_i hst
    rw [not_not] at hst
    split at ha
    · cases ha
      have hq : IsQueued s.requests r :=
        ⟨e, he, by simp [hst], by simp [hst, RequestStatus.isFinished]⟩
      exact h.requeue (e := { e with status := .waiting }) hq ⟨by simp, rfl⟩ (.refl _)
    · exact finishRequests_ok h ha

/-! ### The output of a step -/

def hasNextChunk (e : Entry υ) : Bool :=
  e.resumable && (e.streamingQueue.bind List.head?).any Option.isSome

/-- The stop of a request does no harm. It is running; or it is in `waiting`, from where it is
removed if it finishes or needs more input; or it is in `skipped_waiting` and goes on with a
chunk that it has. -/
def stopOk (s : Queues υ) (o : Output) (r : ReqId) : Bool :=
  match s.requests r with
  | none => true
  | some e =>
    e.status.isFinished || decide (r ∈ o.skip) || decide (e.status = .running) ||
      match o.outcome r with
      | .continues => true
      | .stops _ =>
        if hasNextChunk e then decide (r ∈ s.skippedWaiting) else decide (r ∈ s.waiting)
      | .rejected => decide (r ∈ s.waiting)

/-- What `_handle_stopped_request` can do with a request that has stopped with the entry `e`. -/
theorem handleStoppedRequest_cases (s : Queues υ) (r : ReqId) (e : Entry υ) :
    (hasNextChunk e = false ∧ ∃ e', e'.status = e.status ∧
        s.handleStoppedRequest r e = (true, s.put r e')) ∨
      (hasNextChunk e = false ∧ ∃ e', e'.status = .waitingForStreamingReq ∧
        s.handleStoppedRequest r e =
          (false, { s.put r e' with skippedWaiting := s.skippedWaiting ++ [r] })) ∨
      (hasNextChunk e = true ∧ ∃ e', e'.status = .waiting ∧
        s.handleStoppedRequest r e =
          (false, { s.put r e' with waiting := s.waiting ++ [r] })) := by
  unfold handleStoppedRequest hasNextChunk
  split
  · rename_i hres
    exact .inl ⟨by simp [hres], e, rfl, rfl⟩
  rename_i hres
  rw [Bool.not_eq_false] at hres
  split
  · rename_i rest hqueue
    exact .inl ⟨by simp [hqueue], { e with streamingQueue := some rest }, rfl, rfl⟩
  · rename_i c rest hqueue
    exact .inr (.inr ⟨by simp [hres, hqueue], _, rfl, rfl⟩)
  · rename_i hfinish hchunk
    refine .inr (.inl ⟨?_, _, rfl, rfl⟩)
    match hqueue : e.streamingQueue with
    | none => simp
    | some [] => simp
    | some (none :: rest) => exact absurd hqueue (hfinish rest)
    | some (some c :: rest) => exact absurd hqueue (hchunk c rest)

theorem filter_notMem_append_singleton (l k : List ReqId) (r : ReqId) :
    l.filter (· ∉ k ++ [r]) = (l.filter (· ∉ k)).filter (· ≠ r) := by
  rw [List.filter_filter]
  refine List.filter_congr fun a _ => ?_
  simp [and_comm]

theorem filter_ne_of_notMem {l : List ReqId} (h : r ∉ l) : l.filter (· ≠ r) = l := by
  rw [List.filter_eq_self]
  rintro a ha
  simpa using fun heq : a = r => h (heq ▸ ha)

theorem perm_cons_filter_ne {l : List ReqId} (hl : l.Nodup) (h : r ∈ l) :
    l.Perm (r :: l.filter (· ≠ r)) := by
  have herase := List.perm_cons_erase h
  rw [hl.erase_eq_filter] at herase
  refine herase.trans (List.Perm.of_eq (congrArg _ (List.filter_congr fun a _ => ?_)))
  by_cases ha : a = r <;> simp [ha]

section Stop

variable {o : Output} {u u' : Stopped} {e₀ : Entry υ} {delayed : Bool}

theorem stopRequest_cases (he : e.status.isFinished = true)
    (hs : s.stopRequest u r e e₀.status delayed = (s', u')) :
    u' = (if e₀.status = .running then { u with running := u.running ++ [r] }
        else { u with preempted := u.preempted ++ [r] }) ∧ s'.running = s.running ∧
      ((hasNextChunk e = false ∧ s'.waiting = s.waiting ∧ s'.skippedWaiting = s.skippedWaiting ∧
          (∀ a ≠ r, s'.requests a = s.requests a) ∧
          ¬ IsRunning s'.requests r ∧ ¬ IsQueued s'.requests r) ∨
        (∃ e' : Entry υ, (e'.status ≠ .running ∧ e'.status.isFinished = false) ∧
          s'.requests = update s.requests r (some e') ∧
          (hasNextChunk e = false ∧ s'.waiting = s.waiting ∧
              s'.skippedWaiting = s.skippedWaiting ++ [r] ∨
            hasNextChunk e = true ∧ s'.waiting = s.waiting ++ [r] ∧
              s'.skippedWaiting = s.skippedWaiting))) := by
  obtain ⟨hnext, e', he', hh⟩ | ⟨hnext, e', he', hh⟩ | ⟨hnext, e', he', hh⟩ :=
    handleStoppedRequest_cases s r e
  · simp only [stopRequest, hh, if_true] at hs
    cases hs
    have hlists : ∀ t : Queues υ, (t.freeRequest r delayed).running = t.running ∧
        (t.freeRequest r delayed).waiting = t.waiting ∧
        (t.freeRequest r delayed).skippedWaiting = t.skippedWaiting := by
      intro t
      unfold freeRequest
      split <;> exact ⟨rfl, rfl, rfl⟩
    obtain ⟨hrun, hwait, hskip⟩ := hlists (s.put r e')
    exact ⟨rfl, hrun, .inl ⟨hnext, hwait, hskip, freeRequest_gone delayed (he' ▸ he)⟩⟩
  · simp only [stopRequest, hh, Bool.false_eq_true, if_false] at hs
    cases hs
    exact ⟨rfl, rfl, .inr ⟨e', by simp [he', RequestStatus.isFinished], rfl,
      .inl ⟨hnext, rfl, rfl⟩⟩⟩
  · simp only [stopRequest, hh, Bool.false_eq_true, if_false] at hs
    cases hs
    exact ⟨rfl, rfl, .inr ⟨e', by simp [he', RequestStatus.isFinished], rfl,
      .inr ⟨hnext, rfl, rfl⟩⟩⟩

theorem stopRequest_running (h : (s.removeStopped u).Ok []) (he₀ : s.requests r = some e₀)
    (hrun : e₀.status = .running) (hpre : r ∉ u.preempted) (he : e.status.isFinished = true)
    (hs : s.stopRequest u r e e₀.status delayed = (s', u')) : (s'.removeStopped u').Ok [] := by
  have hr : IsRunning (s.removeStopped u).requests r := ⟨e₀, he₀, hrun⟩
  have hperm := perm_cons_filter_ne h.running.nodup ((h.running.mem_iff r).mpr hr)
  have hnot : r ∉ s.skippedWaiting ++ s.waiting.filter (· ∉ u.preempted) :=
    fun hq => hr.not_isQueued ((h.queued.mem_iff r).mp hq)
  obtain ⟨rfl, hrunning, hcases⟩ := stopRequest_cases he hs
  unfold Ok removeStopped
  simp only [if_pos hrun, hrunning, filter_notMem_append_singleton]
  obtain ⟨-, hwait, hskip, hkeep, hgone⟩ | ⟨e', he', hrequests, hplace⟩ := hcases
  · have hleave := h.leave (· = r) hkeep (by rintro a rfl; exact hgone)
      (fun a => decide_eq_true_iff (p := a ≠ r))
    rw [List.nil_append] at hleave
    rw [hwait, hskip, List.nil_append, ← filter_ne_of_notMem hnot]
    exact hleave
  · rw [hrequests]
    refine h.await he' hperm ?_
    obtain ⟨-, hwait, hskip⟩ | ⟨-, hwait, hskip⟩ := hplace
    · rw [hwait, hskip, List.append_assoc]
      have hmiddle : (s.skippedWaiting ++ r :: s.waiting.filter (· ∉ u.preempted)).Perm _ :=
        List.perm_middle
      exact hmiddle.symm
    · have hlast : (s.waiting ++ [r]).filter (· ∉ u.preempted) =
          s.waiting.filter (· ∉ u.preempted) ++ [r] := by
        simp [List.filter_append, hpre]
      have hend : (s.skippedWaiting ++ s.waiting.filter (· ∉ u.preempted) ++ [r]).Perm _ :=
        List.perm_append_singleton r _
      rw [List.append_assoc] at hend
      rw [hwait, hskip, hlast]
      exact hend.symm

/-- A stop comes late: the request is in one of the waiting queues. -/
theorem stopRequest_late (h : (s.removeStopped u).Ok []) (he₀ : s.requests r = some e₀)
    (hrun : e₀.status ≠ .running) (hfin : e₀.status.isFinished = false)
    (hpre : r ∉ u.preempted) (he : e.status.isFinished = true)
    (hplace : if hasNextChunk e then r ∈ s.skippedWaiting else r ∈ s.waiting)
    (hs : s.stopRequest u r e e₀.status delayed = (s', u')) : (s'.removeStopped u').Ok [] := by
  have hq : IsQueued (s.removeStopped u).requests r := ⟨e₀, he₀, hrun, hfin⟩
  have hnot : r ∉ s.running.filter (· ∉ u.running) :=
    fun hr => ((h.running.mem_iff r).mp hr).not_isQueued hq
  have hnodup : (s.skippedWaiting ++ s.waiting.filter (· ∉ u.preempted)).Nodup := h.queued.nodup
  obtain ⟨hskipNodup, hwaitNodup, hdisj⟩ := List.nodup_append'.mp hnodup
  obtain ⟨rfl, hrunning, hcases⟩ := stopRequest_cases he hs
  unfold Ok removeStopped
  simp only [if_neg hrun, hrunning, filter_notMem_append_singleton]
  obtain ⟨hnext, hwait, hskip, hkeep, hgone⟩ | ⟨e', he', hrequests, hcase⟩ := hcases
  · simp only [hnext, Bool.false_eq_true, if_false] at hplace
    have hmem : r ∈ s.waiting.filter (· ∉ u.preempted) := by simp [hplace, hpre]
    have hleave := h.leave (· = r) hkeep (by rintro a rfl; exact hgone)
      (fun a => decide_eq_true_iff (p := a ≠ r))
    rw [List.nil_append, removeStopped, List.filter_append, filter_ne_of_notMem hnot,
      filter_ne_of_notMem fun hs => hdisj hs hmem] at hleave
    rw [hwait, hskip]
    exact hleave
  · rw [hrequests]
    refine h.requeue hq he' ?_
    obtain ⟨hnext, hwait, hskip⟩ | ⟨hnext, hwait, hskip⟩ := hcase
    · simp only [hnext, Bool.false_eq_true, if_false] at hplace
      have hmem : r ∈ s.waiting.filter (· ∉ u.preempted) := by simp [hplace, hpre]
      rw [hwait, hskip, List.append_assoc]
      exact (perm_cons_filter_ne hwaitNodup hmem).append_left _
    · simp only [hnext, if_true] at hplace
      have hmem : r ∉ s.waiting.filter (· ∉ u.preempted) := fun hw => hdisj hplace hw
      rw [hwait, hskip, List.filter_append, List.filter_append, filter_ne_of_notMem hmem]
      simp [removeStopped, hpre]

end Stop

/-- The requests of the step that have still to be looked at in the loop, which has come from `s₀`
to `s`: nothing has happened to them, and no other request has taken their place. -/
structure Pending (s₀ s : Queues υ) (u : Stopped) (rs : List ReqId) : Prop where
  nodup : rs.Nodup
  requests : ∀ r ∈ rs, s.requests r = s₀.requests r
  waiting : ∀ r ∈ rs, r ∈ s₀.waiting → r ∈ s.waiting
  skipped : ∀ r ∈ rs, r ∈ s₀.skippedWaiting → r ∈ s.skippedWaiting
  preempted : ∀ r ∈ rs, r ∉ u.preempted

section Loop

variable {s₀ : Queues υ} {o : Output} {u u' : Stopped} {rs : List ReqId}

theorem Pending.tail (h : Pending s₀ s u (r :: rs)) : Pending s₀ s u rs where
  nodup := (List.nodup_cons.mp h.nodup).2
  requests a ha := h.requests a (List.mem_cons_of_mem _ ha)
  waiting a ha := h.waiting a (List.mem_cons_of_mem _ ha)
  skipped a ha := h.skipped a (List.mem_cons_of_mem _ ha)
  preempted a ha := h.preempted a (List.mem_cons_of_mem _ ha)

theorem Pending.stop (h : Pending s₀ s u (r :: rs)) {e e₀ : Entry υ} {delayed : Bool}
    (he : e.status.isFinished = true)
    (hs : s.stopRequest u r e e₀.status delayed = (s', u')) : Pending s₀ s' u' rs := by
  have hne : ∀ a ∈ rs, a ≠ r := by
    rintro a ha rfl
    exact (List.nodup_cons.mp h.nodup).1 ha
  have ht := h.tail
  obtain ⟨hu, -, hcases⟩ := stopRequest_cases he hs
  have hpre : ∀ a ∈ rs, a ∉ u'.preempted := by
    intro a ha
    rw [hu]
    split
    · exact ht.preempted a ha
    · simpa [hne a ha] using ht.preempted a ha
  obtain ⟨-, hwait, hskip, hkeep, -⟩ | ⟨e', -, hrequests, hplace⟩ := hcases
  · refine ⟨ht.nodup, fun a ha => ?_, ?_, ?_, hpre⟩
    · rw [hkeep a (hne a ha), ht.requests a ha]
    · rw [hwait]
      exact ht.waiting
    · rw [hskip]
      exact ht.skipped
  · refine ⟨ht.nodup, fun a ha => ?_, fun a ha hw => ?_, fun a ha hw => ?_, hpre⟩
    · rw [hrequests, update_of_ne (hne a ha), ht.requests a ha]
    · have := ht.waiting a ha hw
      obtain ⟨-, hwait, -⟩ | ⟨-, hwait, -⟩ := hplace <;> simp [hwait, this]
    · have := ht.skipped a ha hw
      obtain ⟨-, -, hskip⟩ | ⟨-, -, hskip⟩ := hplace <;> simp [hskip, this]

theorem updateRequest_ok (h : Pending s₀ s u (r :: rs)) (hok : (s.removeStopped u).Ok [])
    (hstop : s₀.stopOk o r = true) (hs : updateRequest o s u r = (s', u')) :
    Pending s₀ s' u' rs ∧ (s'.removeStopped u').Ok [] := by
  have hr : r ∈ r :: rs := List.mem_cons_self
  unfold updateRequest at hs
  split at hs
  · cases hs
    exact ⟨h.tail, hok⟩
  rename_i e₀ he₀
  split at hs
  · cases hs
    exact ⟨h.tail, hok⟩
  rename_i hlive
  rw [not_or, Bool.not_eq_true] at hlive
  simp only [stopOk, ← h.requests r hr, he₀, hlive.1, hlive.2, Bool.or_eq_true, decide_eq_true_eq,
    Bool.false_eq_true, false_or, decide_false] at hstop
  -- the entry with which the request stops, and where it is if it does not run
  have stops : ∀ e : Entry υ, e.status.isFinished = true →
      s.stopRequest u r e e₀.status (o.delayed r) = (s', u') →
      (e₀.status ≠ .running →
        if hasNextChunk e then r ∈ s.skippedWaiting else r ∈ s.waiting) →
      Pending s₀ s' u' rs ∧ (s'.removeStopped u').Ok [] := by
    intro e he hs hplace
    refine ⟨h.stop he hs, ?_⟩
    by_cases hrun : e₀.status = .running
    · exact stopRequest_running hok he₀ hrun (h.preempted r hr) he hs
    · exact stopRequest_late hok he₀ hrun hlive.1 (h.preempted r hr) he (hplace hrun) hs
  split at hs
  · cases hs
    exact ⟨h.tail, hok⟩
  · rename_i status houtcome
    refine stops _ status.2 hs fun hrun => ?_
    have hplace := hstop.resolve_left hrun
    rw [houtcome] at hplace
    change if hasNextChunk e₀ then r ∈ s.skippedWaiting else r ∈ s.waiting
    split
    · rename_i hnext
      simp only [hnext, if_true, decide_eq_true_eq] at hplace
      exact h.skipped r hr hplace
    · rename_i hnext
      simp only [hnext, if_false, decide_eq_true_eq, Bool.false_eq_true] at hplace
      exact h.waiting r hr hplace
  · rename_i houtcome
    refine stops _ rfl hs fun hrun => ?_
    have hplace := hstop.resolve_left hrun
    rw [houtcome] at hplace
    exact h.waiting r hr (of_decide_eq_true hplace)

theorem updateLoop_ok (h : Pending s₀ s u rs) (hok : (s.removeStopped u).Ok [])
    (hstop : ∀ r ∈ rs, s₀.stopOk o r = true) (hs : updateLoop o rs s u = (s', u')) :
    (s'.removeStopped u').Ok [] := by
  induction rs generalizing s u with
  | nil =>
    cases hs
    exact hok
  | cons r rs ih =>
    obtain ⟨⟨t, v⟩, ht⟩ : ∃ p, updateRequest o s u r = p := ⟨_, rfl⟩
    obtain ⟨h', hok'⟩ := updateRequest_ok h hok (hstop r List.mem_cons_self) ht
    rw [updateLoop, ht] at hs
    exact ih h' hok' (fun a ha => hstop a (List.mem_cons_of_mem _ ha)) hs

end Loop

theorem delete_ok (h : s.Ok []) {e : Entry υ} (he : s.requests r = some e)
    (hfin : e.status.isFinished = true) : (s.delete r).Ok [] := by
  have hne : e.status ≠ .running := by
    intro h
    simp [h, RequestStatus.isFinished] at hfin
  refine ⟨h.running.congr fun a => ?_, h.queued.congr fun a => ?_⟩
  · by_cases ha : a = r
    · subst ha
      simp [delete, IsRunning, he, hne]
    · simp [delete, isRunning_delete, ha]
  · by_cases ha : a = r
    · subst ha
      simp [delete, IsQueued, he, hfin]
    · simp [delete, isQueued_delete, ha]

theorem finishedSending_ok (h : s.Ok []) (hs : s.finishedSending r = some s') : s'.Ok [] := by
  unfold finishedSending at hs
  split at hs
  · cases hs
  rename_i e he
  split at hs <;> cases hs
  rename_i hfin
  exact delete_ok h he hfin

theorem finishedRecving_ok (h : s.Ok []) (hs : s.finishedRecving r = some s') : s'.Ok [] := by
  unfold finishedRecving at hs
  split at hs
  · cases hs
  rename_i e he
  split at hs
  · cases hs
    exact h
  split at hs <;> cases hs
  rename_i hfin
  exact delete_ok h he hfin

theorem foldlM_ok {f : Queues υ → ReqId → Option (Queues υ)}
    (hf : ∀ {s s' : Queues υ} {r : ReqId}, s.Ok [] → f s r = some s' → s'.Ok [])
    {rs : List ReqId} (h : s.Ok []) (hs : rs.foldlM f s = some s') : s'.Ok [] := by
  induction rs generalizing s with
  | nil =>
    cases hs
    exact h
  | cons r rs ih =>
    rw [List.foldlM_cons] at hs
    obtain ⟨t, ht, hrest⟩ := Option.bind_eq_some_iff.mp hs
    exact ih (hf h ht) hrest

theorem updateFromOutput_ok {batch : List ReqId} {o : Output} (h : s.Ok []) (hb : batch.Nodup)
    (hstop : ∀ r ∈ batch, s.stopOk o r = true) (hs : s.updateFromOutput batch o = some s') :
    s'.Ok [] := by
  obtain ⟨⟨t, u⟩, ht⟩ : ∃ p, updateLoop o batch s {} = p := ⟨_, rfl⟩
  simp only [updateFromOutput, ht] at hs
  obtain ⟨t₁, hfail, hs⟩ := Option.bind_eq_some_iff.mp hs
  obtain ⟨t₂, hrecv, hsend⟩ := Option.bind_eq_some_iff.mp hs
  have hloop : (t.removeStopped u).Ok [] := by
    have hpending : Pending s s {} batch :=
      ⟨hb, fun _ _ => rfl, fun _ _ => id, fun _ _ => id, by simp⟩
    refine updateLoop_ok hpending ?_ hstop ht
    simpa [Ok, removeStopped] using h
  have hfailed : t₁.Ok [] := by
    unfold failRequests at hfail
    split at hfail
    · cases hfail
      exact hloop
    split at hfail
    · exact finishRequests_ok hloop hfail
    · cases hfail
  exact foldlM_ok finishedSending_ok (foldlM_ok finishedRecving_ok hfailed hrecv) hsend

end Queues

/-! ### Whole runs -/

def LateStopsOk (s : State υ) : Event υ → Prop
  | .update output => ∀ batch ∈ s.inFlight.head?, ∀ r ∈ batch, s.queues.stopOk output r = true
  | _ => True

/-- The state between calls: every unfinished request is in one queue, once, the requests in
`running` are those with the status `RUNNING`, and no step under way lists a request twice. -/
structure State.Ok (s : State υ) : Prop where
  queues : s.queues.Ok []
  batches : ∀ batch ∈ s.inFlight, batch.Nodup

theorem step_ok {s t : State υ} {ev : Event υ} (h : s.Ok) (hlate : LateStopsOk s ev)
    (hs : step s ev = some t) : t.Ok := by
  cases ev with
  | add r chunk grammar delayed =>
    obtain ⟨q, hq, rfl⟩ := Option.map_eq_some_iff.mp hs
    exact ⟨Queues.addRequest_ok h.queues hq, h.batches⟩
  | schedule preempts turns batch =>
    obtain ⟨q, hq, hs⟩ := Option.bind_eq_some_iff.mp hs
    split at hs <;> cases hs
    rename_i hbatch
    refine ⟨Queues.schedule_ok h.queues hq, fun b hb => ?_⟩
    obtain hb | hb := List.mem_append.mp hb
    · exact h.batches b hb
    · obtain rfl := List.mem_singleton.mp hb
      exact hbatch.1
  | update output =>
    simp only [step] at hs
    split at hs
    · cases hs
    rename_i batch rest hflight
    obtain ⟨q, hq, rfl⟩ := Option.map_eq_some_iff.mp hs
    have hmem : ∀ b ∈ batch :: rest, b.Nodup := hflight ▸ h.batches
    refine ⟨Queues.updateFromOutput_ok h.queues (hmem batch List.mem_cons_self) ?_ hq,
      fun b hb => hmem b (List.mem_cons_of_mem _ hb)⟩
    exact hlate batch (by simp [hflight])
  | finish ids status delayed =>
    obtain ⟨q, hq, rfl⟩ := Option.map_eq_some_iff.mp hs
    exact ⟨Queues.finishRequests_ok h.queues hq, h.batches⟩
  | resetRunning =>
    obtain ⟨q, hq, rfl⟩ := Option.map_eq_some_iff.mp hs
    exact ⟨Queues.resetRunning_ok h.queues hq, h.batches⟩

def init (υ : Type) (policy : SchedulingPolicy) : State υ := { queues := { policy } }

theorem init_ok (υ : Type) (policy : SchedulingPolicy) : (init υ policy).Ok where
  queues := by
    constructor <;> constructor <;> simp [init, IsRunning, IsQueued]
  batches := by simp [init]

/-- In every run in which no late stop does harm, the queues partition the unfinished requests:
each is in one of them, once, in `running` if and only if its status is `RUNNING`, and no other
request is in any of them. A pass under `FCFS` that only skips requests leaves their order
unchanged. -/
theorem queues_partition (policy : SchedulingPolicy) (es : List (Event υ)) (s : State υ)
    (hrun : exec step (init υ policy) es = some s)
    (hlate : Along step LateStopsOk (init υ policy) es) :
    (∀ r e, s.queues.requests r = some e → e.status.isFinished = false →
        (s.queues.running ++ (s.queues.waiting ++ s.queues.skippedWaiting)).count r = 1) ∧
      (∀ r e, s.queues.requests r = some e →
        (r ∈ s.queues.running ↔ e.status = .running)) ∧
      (∀ r ∈ s.queues.running ++ (s.queues.waiting ++ s.queues.skippedWaiting),
        ∃ e, s.queues.requests r = some e ∧ e.status.isFinished = false) ∧
      ∀ turns q, s.queues.policy = .fcfs → s.queues.schedule [] turns = some q →
        q.running = s.queues.running →
        q.skippedWaiting ++ q.waiting = s.queues.skippedWaiting ++ s.queues.waiting := by
  have hok : s.Ok := exec_invariant_along (fun _ _ _ h hl hs => step_ok h hl hs)
    (init_ok υ policy) hlate hrun
  obtain ⟨hrunning, hqueued⟩ := hok.queues
  have hqueued : Enumerates (s.queues.waiting ++ s.queues.skippedWaiting)
      (IsQueued s.queues.requests) := by
    rw [List.nil_append] at hqueued
    exact hqueued.perm List.perm_append_comm
  refine ⟨fun r e he hfin => ?_, fun r e he => ?_, fun r hr => ?_, fun turns q hpolicy hs hq =>
    Queues.schedule_order hpolicy hs hq⟩
  · rw [List.count_append]
    by_cases hst : e.status = .running
    · have hr : IsRunning s.queues.requests r := ⟨e, he, hst⟩
      have hnot : r ∉ s.queues.waiting ++ s.queues.skippedWaiting :=
        fun hm => hr.not_isQueued ((hqueued.mem_iff r).mp hm)
      rw [List.count_eq_one_of_mem hrunning.nodup ((hrunning.mem_iff r).mpr hr),
        List.count_eq_zero_of_not_mem hnot]
    · have hr : IsQueued s.queues.requests r := ⟨e, he, hst, hfin⟩
      have hnot : r ∉ s.queues.running :=
        fun hm => ((hrunning.mem_iff r).mp hm).not_isQueued hr
      rw [List.count_eq_zero_of_not_mem hnot,
        List.count_eq_one_of_mem hqueued.nodup ((hqueued.mem_iff r).mpr hr)]
  · rw [hrunning.mem_iff]
    simp [IsRunning, he]
  · obtain hr | hr := List.mem_append.mp hr
    · obtain ⟨e, he, hst⟩ := (hrunning.mem_iff r).mp hr
      exact ⟨e, he, by rw [hst]; rfl⟩
    · obtain ⟨e, he, -, hfin⟩ := (hqueued.mem_iff r).mp hr
      exact ⟨e, he, hfin⟩

def stopOf (r : ReqId) : Queues.Output where
  outcome a := if a = r then .stops ⟨.finishedStopped, rfl⟩ else .continues

/-- Two requests run; while their first step is under way, the second one is preempted in the
next step, and then the first step returns its last token. -/
def lateStop (chunk : Option Unit) (more : List (Event Unit)) : List (Event Unit) :=
  [.add 0 none false false, .add 1 chunk false false,
    .schedule [] [⟨.waiting, 0, false, .run⟩, ⟨.waiting, 1, false, .run⟩] [0, 1]] ++ more ++
  [.schedule [1] [] [0], .update (stopOf 1)]

/-- The late stop of a request that is not a session leaves the other one running. -/
theorem queues_partition_late_stop :
    ∃ s : State Unit, exec step (init Unit .fcfs) (lateStop none []) = some s ∧
      s.queues.running = [0] ∧ s.queues.waiting = [] ∧
      ∀ r ∈ s.queues.running ++ (s.queues.waiting ++ s.queues.skippedWaiting),
        ∃ e, s.queues.requests r = some e ∧ e.status.isFinished = false := by
  obtain ⟨s, hrun, hrunning, hwaiting⟩ :
      ∃ s : State Unit, exec step (init Unit .fcfs) (lateStop none []) = some s ∧
        s.queues.running = [0] ∧ s.queues.waiting = [] := ⟨_, rfl, rfl, rfl⟩
  have hlate : Along step LateStopsOk (init Unit .fcfs) (lateStop none []) := by
    refine ⟨trivial, fun _ h => ?_⟩
    cases h
    refine ⟨trivial, fun _ h => ?_⟩
    cases h
    refine ⟨trivial, fun _ h => ?_⟩
    cases h
    refine ⟨trivial, fun _ h => ?_⟩
    cases h
    refine ⟨?_, fun _ _ => trivial⟩
    rintro _ ⟨⟩ r hr
    obtain rfl | rfl : r = 0 ∨ r = 1 := by simpa using hr
    · rfl
    · rfl
  exact ⟨s, hrun, hrunning, hwaiting, (queues_partition .fcfs _ s hrun hlate).2.2.1⟩

/-- A session with a next chunk is preempted, and its stop comes late: it is put in `waiting` for
the chunk and removed from there with the stopped requests. It waits in no queue. -/
theorem late_stop_loses_session :
    ∃ s : State Unit,
      exec step (init Unit .fcfs) (lateStop (some ()) [.add 1 (some ()) false false]) = some s ∧
        (∃ e, s.queues.requests 1 = some e ∧ e.status = .waiting) ∧
        1 ∉ s.queues.running ++ (s.queues.waiting ++ s.queues.skippedWaiting) :=
  ⟨_, rfl, ⟨_, rfl, rfl⟩, by decide⟩

end EldrServing.Sched.Sessions
