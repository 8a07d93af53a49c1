import EldrServing.Sched.UnderWay

/-!
# The limits of a step

`schedule` ends with assertions: the tokens of the step are within the budget, the running requests
are not too many, and no more requests are scheduled than run. In every run of the engine core they
hold when the two loops before them get through.
-/

namespace EldrServing.Sched

set_option autoImplicit false
set_option linter.unusedSectionVars false

open Engine KVCache Nixl Relation

variable {κ : Type} [DecidableEq κ] {E : CacheEnv κ} {s s' : Scheduler κ} {st st' : StepState}
  {r : ReqId} {q : Request} {n fuel i i' : Nat}

/-- What is scheduled and what is left of the budget are all tokens of the step. -/
structure Within (s : Scheduler κ) (st : StepState) : Prop where
  budget : st.numScheduledTokens.sumBy (fun _ n => n) + st.tokenBudget =
    s.config.maxNumScheduledTokens
  running : s.running.length ≤ s.config.maxNumRunningReqs

theorem Within.congr (h : Within s st) (hconfig : s'.config = s.config)
    (hrunning : s'.running = s.running) : Within s' st := by
  constructor
  · rw [hconfig]
    exact h.budget
  · rw [hconfig, hrunning]
    exact h.running

theorem Within.skip (h : Within s st) (r : ReqId) : Within s (Scheduler.skipWaiting st r) :=
  ⟨h.budget, h.running⟩

theorem Within.insert (h : Within s st) (hfree : st.numScheduledTokens.get? r = none)
    (hn : n ≤ st.tokenBudget)
    (hscheduled : st'.numScheduledTokens = st.numScheduledTokens.insert r n)
    (hbudget : st'.tokenBudget = st.tokenBudget - n) (hconfig : s'.config = s.config)
    (hrunning : s'.running.length ≤ s.config.maxNumRunningReqs) : Within s' st' := by
  have hold := h.budget
  constructor
  · rw [hscheduled, hbudget, Dict.sumBy_insert_of_none _ hfree, hconfig]
    omega
  · rwa [hconfig]

/-! ### The running requests -/

theorem dropScheduled_budget (st : StepState) (v : ReqId) :
    (dropScheduled st v).numScheduledTokens.sumBy (fun _ n => n) +
        (dropScheduled st v).tokenBudget =
      st.numScheduledTokens.sumBy (fun _ n => n) + st.tokenBudget ∧
    st.tokenBudget ≤ (dropScheduled st v).tokenBudget := by
  unfold dropScheduled
  split
  · have hsum := Dict.sumBy_eq_erase (fun _ n => n) st.numScheduledTokens v
    simp only [Option.map_id'] at hsum
    simp only [Scheduler.unschedule, Dict.getD]
    omega
  · exact ⟨rfl, le_refl _⟩

theorem allocateLoop_within {fits : Bool} (hok : AllocateLoopOk s st r i) (hw : Within s st)
    (h : s.allocateLoop E r n fuel st i = .ok (fits, s', st', i')) :
    Within s' st' ∧ s'.config = s.config ∧ st.tokenBudget ≤ st'.tokenBudget := by
  induction fuel generalizing s st i with
  | zero => cases h
  | succ fuel ih =>
    unfold Scheduler.allocateLoop at h
    simp only [except_bind_eq_ok, Prod.exists] at h
    obtain ⟨q, -, blocks, kv, -, h⟩ := h
    cases blocks with
    | some blocks =>
      simp only [Except.ok.injEq, Prod.mk.injEq] at h
      obtain ⟨-, rfl, rfl, -⟩ := h
      exact ⟨hw.congr rfl rfl, rfl, le_refl _⟩
    | none =>
      have hok₁ : AllocateLoopOk (s.setKv kv) st r i := hok.congr rfl rfl
      simp only at h
      split at h
      · cases h
      next v hv =>
      simp only [except_bind_eq_ok] at h
      obtain ⟨s₂, hs₂, h⟩ := h
      obtain ⟨-, hnext, -⟩ := takeVictim_preempt (E := E) hok₁ hv hs₂
      obtain ⟨i₁, htake, -⟩ := takeVictim_ok hok₁ hv
      rw [htake] at hs₂ h hnext
      obtain ⟨q₂, kv₂, -, -, -, rfl⟩ := preemptRequest_ok hs₂
      obtain ⟨hsum, hle⟩ := dropScheduled_budget st v
      have hw₂ : Within { (((s.setKv kv).setRunning (s.running.erase v)).setKv kv₂).putRequest v
          (preempted q₂) with waiting := v :: s.waiting }
          { dropScheduled st v with
            preemptedReqs := (dropScheduled st v).preemptedReqs ++ [v] } :=
        ⟨hsum.trans hw.budget, List.length_erase_le.trans hw.running⟩
      split at h
      · simp only [Except.ok.injEq, Prod.mk.injEq] at h
        obtain ⟨-, rfl, rfl, -⟩ := h
        exact ⟨hw₂, rfl, hle⟩
      · next hne =>
        obtain ⟨hw', hconfig, hle'⟩ := ih (hnext hne).1 hw₂ h
        exact ⟨hw', hconfig, hle.trans hle'⟩

theorem runningLoop_within (hok : RunningLoopOk s st i) (hw : Within s st)
    (h : s.runningLoop E fuel st i = .ok (s', st')) : Within s' st' := by
  induction fuel generalizing s st i with
  | zero => cases h
  | succ fuel ih =>
    unfold Scheduler.runningLoop at h
    split at h
    · obtain ⟨rfl, rfl⟩ := ok_pair_inj h
      exact hw
    next r hr =>
    split at h
    · obtain ⟨rfl, rfl⟩ := ok_pair_inj h
      exact hw
    simp only [except_bind_eq_ok, getRequest_eq_ok] at h
    obtain ⟨q, hq, h⟩ := h
    split at h
    · exact ih hok.next hw h
    split at h
    · cases h
    split at h
    · exact ih hok.next hw h
    simp only [except_bind_eq_ok, Prod.exists] at h
    obtain ⟨fits, s₁, st₁, i₁, halloc, h⟩ := h
    have hloop := hok.allocateLoopOk hr
    obtain ⟨hw₁, hconfig, hle⟩ := allocateLoop_within hloop hw halloc
    obtain ⟨-, ⟨rfl, -⟩ | ⟨rfl, s₂, kv, blocks, hrest⟩⟩ := allocateLoop_steps hloop hq halloc
    · obtain ⟨rfl, rfl⟩ := ok_pair_inj h
      exact hw₁
    · obtain ⟨-, hok₂, -, -, -, rfl⟩ := hrest
      rw [if_pos rfl] at h
      have hok₃ : AllocateLoopOk (s₂.setKv kv) st₁ r i₁ := hok₂.congr rfl rfl
      have hn : Scheduler.numNewTokensRunning s.config q st.tokenBudget ≤ st.tokenBudget :=
        (Nat.min_le_left _ _).trans (Nat.min_le_right _ _)
      exact ih (hok₃.scheduleRunning _) (hw₁.insert (hok₂.keys r hok₂.not_scheduled) (hn.trans hle)
        rfl rfl rfl hw₁.running) h

/-! ### The waiting requests -/

theorem tryPromote_running {ready : Bool} (h : s.tryPromote E r = .ok (ready, s')) :
    s'.running = s.running := by
  simp only [Scheduler.tryPromote, except_bind_eq_ok, getRequest_eq_ok] at h
  obtain ⟨q, -, h⟩ := h
  split at h
  · simp only [except_bind_eq_ok, Prod.exists] at h
    obtain ⟨s₁, q₁, hupdate, hok⟩ := h
    obtain ⟨-, rfl⟩ := ok_pair_inj hok
    obtain ⟨kv, rfl, -⟩ := updateWaitingForRemoteKv_ok hupdate
    rfl
  · obtain ⟨-, rfl⟩ := ok_pair_inj h
    rfl

theorem numNewTokensWaiting_le {m : Scheduler.PrefixMatch} {config : SchedulerConfig} {budget : Nat}
    (h : Scheduler.numNewTokensWaiting config q m budget = .ok (some n)) : n ≤ budget := by
  unfold Scheduler.numNewTokensWaiting at h
  split at h
  · rw [assert_bind_eq_ok] at h
    obtain rfl := Option.some.inj (Except.ok.inj h.2)
    exact Nat.zero_le _
  · simp only [ite_eq_iff, assert_bind_eq_ok, Except.ok.injEq, Option.some.injEq] at h
    obtain ⟨-, h⟩ | ⟨-, -, rfl⟩ := h
    · cases h
    · exact Nat.min_le_right _ _

theorem tryAdmit_running {w : Scheduler.WaitingQueue} {budget : Nat} {a : Scheduler.Admission κ}
    (h : s.tryAdmit E w r budget = .ok a) :
    match a with
    | .stop s' => s'.running = s.running
    | .load s' => s'.running = s.running
    | .run s' n => s'.running = s.running ++ [r] ∧ n ≤ budget := by
  simp only [Scheduler.tryAdmit, except_bind_eq_ok] at h
  obtain ⟨q, -, m, -, n?, hn?, h⟩ := h
  cases n? with
  | none =>
    obtain rfl := Except.ok.inj h
    rfl
  | some n =>
    simp only [except_bind_eq_ok, Prod.exists] at h
    obtain ⟨blocks, kv, -, h⟩ := h
    cases blocks with
    | none =>
      obtain rfl := Except.ok.inj h
      rfl
    | some blocks =>
      simp only [except_bind_eq_ok, Prod.exists] at h
      obtain ⟨s₁, q₁, hupdate, h⟩ := h
      obtain ⟨⟨c, rfl⟩, -⟩ := updateConnectorAfterAlloc_frame hupdate
      split at h
      · obtain rfl := Except.ok.inj h
        cases w <;> rfl
      · split at h
        · obtain rfl := Except.ok.inj h
          exact ⟨by cases w <;> rfl, numNewTokensWaiting_le hn?⟩
        · cases h

theorem ScheduledRun.queued_none (hsched : ScheduledRun s st)
    (hqueues : QueuesOk s st.stepSkippedWaiting) {w : Scheduler.WaitingQueue}
    (hr : r ∈ s.queue w) : st.numScheduledTokens.get? r = none := by
  refine Option.eq_none_iff_forall_ne_some.mpr fun n hn => ?_
  obtain ⟨q, hq, hstatus⟩ := (hqueues.running r).mp (hsched r n hn).1
  have hmem : r ∈ queued s st.stepSkippedWaiting := by
    cases w <;> simp_all [queued, Scheduler.queue]
  obtain ⟨q', hq', hne, -⟩ := (hqueues.queued r).mp hmem
  obtain rfl := some_unique hq hq'
  exact hne hstatus

theorem waitingLoop_within (hqueues : QueuesOk s st.stepSkippedWaiting)
    (hsched : ScheduledRun s st) (hpre : st.preemptedReqs = []) (hw : Within s st)
    (h : s.waitingLoop E fuel st = .ok (s', st')) : Within s' st' := by
  induction fuel generalizing s st with
  | zero => cases h
  | succ fuel ih =>
    unfold Scheduler.waitingLoop at h
    split at h
    · obtain ⟨rfl, rfl⟩ := ok_pair_inj h
      exact hw
    next hmore =>
    split at h
    · obtain ⟨rfl, rfl⟩ := ok_pair_inj h
      exact hw
    next w r hselect =>
    simp only [except_bind_eq_ok, Prod.exists] at h
    obtain ⟨ready, s₁, hpromote, h⟩ := h
    obtain ⟨hsteps, hqueue, hready⟩ := tryPromote_steps st hpromote
    have hmem : r ∈ s₁.queue w := hqueue w ▸ selectWaitingQueue_mem hselect
    have hrunning := tryPromote_running hpromote
    have hw₁ := hw.congr (ScheduleSteps.setup hsteps).config hrunning
    have hqueues₁ := QueuesOk.scheduleSteps hsteps hqueues
    have hsched₁ := ScheduledRun.scheduleSteps hsteps hsched
    -- what one more state change leaves for the rest of the loop
    have hnext : ∀ {s₂ : Scheduler κ} {st₂ : StepState}, ScheduleStep E (s₁, st) (s₂, st₂) →
        st₂.preemptedReqs = [] → (s₂.config = s₁.config → Within s₂ st₂) →
        s₂.waitingLoop E fuel st₂ = .ok (s', st') → Within s' st' := by
      intro s₂ st₂ hstep hpre₂ hw₂ h
      exact ih (QueuesOk.scheduleSteps (.single hstep) hqueues₁)
        (ScheduledRun.scheduleSteps (.single hstep) hsched₁) hpre₂ (hw₂ hstep.setup.config) h
    split at h
    · exact hnext (.skip hmem hpre) hpre (fun hc => (hw₁.congr hc (by cases w <;> rfl)).skip r) h
    next hnot =>
    obtain ⟨q, hq, hstatus⟩ := hready (by simpa using hnot)
    simp only [except_bind_eq_ok] at h
    obtain ⟨a, ha, h⟩ := h
    have hstep := tryAdmit_steps hmem hpre hq hstatus ha
    have hafter := tryAdmit_running ha
    cases a with
    | stop s₂ =>
      obtain ⟨rfl, rfl⟩ := ok_pair_inj h
      exact hw₁.congr (ScheduleSteps.setup hstep).config hafter
    | load s₂ => exact hnext hstep hpre (fun hc => (hw₁.congr hc hafter).skip r) h
    | run s₂ n =>
      refine hnext hstep hpre (fun hc => ?_) h
      refine hw₁.insert (hsched₁.queued_none hqueues₁ hmem) hafter.2 rfl rfl hc ?_
      have hlen := hw.running
      have hconfig : s₁.config = s.config := (ScheduleSteps.setup hsteps).config
      rw [hafter.1, hrunning, hconfig, List.length_append, List.length_singleton]
      omega

theorem scheduleWaitingRequests_within (hqueues : QueuesOk s st.stepSkippedWaiting)
    (hsched : ScheduledRun s st) (hw : Within s st)
    (h : s.scheduleWaitingRequests E st = .ok (s', st')) : Within s' st' := by
  unfold Scheduler.scheduleWaitingRequests at h
  split at h
  · next hpre =>
    simp only [except_bind_eq_ok, Prod.exists] at h
    obtain ⟨s₁, st₁, hloop, hok⟩ := h
    obtain ⟨rfl, rfl⟩ := ok_pair_inj hok
    have hw₁ := waitingLoop_within hqueues hsched hpre hw hloop
    exact ⟨hw₁.budget, hw₁.running⟩
  · obtain ⟨rfl, rfl⟩ := ok_pair_inj h
    exact hw

/-! ### The end of the step -/

theorem updateAfterSchedule_total {entries : List (ReqId × Nat)}
    (h : ∀ e ∈ entries, ∃ q, s.requests.get? e.1 = some q) :
    ∃ s' sampled, s.updateAfterSchedule entries = .ok (s', sampled) := by
  induction entries generalizing s with
  | nil => exact ⟨s, [], rfl⟩
  | cons e entries ih =>
    obtain ⟨q, hq⟩ := h e List.mem_cons_self
    obtain ⟨s', sampled, hrest⟩ := ih
      (s := s.putRequest e.1 (Scheduler.advance s.config.asyncScheduling q e.2)) fun e' he' => by
        obtain ⟨q', hq'⟩ := h e' (List.mem_cons_of_mem _ he')
        rcases eq_or_ne e.1 e'.1 with heq | hne
        · rw [← heq]
          exact ⟨_, Dict.get?_insert_self⟩
        · exact ⟨q', (Dict.get?_insert_ne hne).trans hq'⟩
    simp only [Scheduler.updateAfterSchedule, except_bind_eq_ok, Prod.exists]
    exact ⟨s', _, q, getRequest_eq_ok.mpr hq, s', sampled, hrest, rfl⟩

theorem finishSchedule_total (hqueues : QueuesOk s []) (hsched : ScheduledRun s st)
    (hw : Within s st) : ∃ out s', s.finishSchedule st = .ok (out, s') := by
  have hmem : ∀ e ∈ st.numScheduledTokens.entries, e.1 ∈ s.running := fun e he =>
    (hsched e.1 e.2 ((Dict.get?_eq_some_iff ..).mpr he)).1
  have hlen : st.numScheduledTokens.entries.length ≤ s.running.length := by
    rw [← List.length_map Prod.fst]
    refine (List.subperm_of_subset st.numScheduledTokens.nodup fun a ha => ?_).length_le
    obtain ⟨e, he, rfl⟩ := List.mem_map.mp ha
    exact hmem e he
  obtain ⟨c, hc⟩ := takeConnectorMeta_frame s
  obtain ⟨s', sampled, hupdate⟩ : ∃ s' sampled,
      s.takeConnectorMeta.1.updateAfterSchedule st.numScheduledTokens.entries =
        .ok (s', sampled) := by
    refine updateAfterSchedule_total fun e he => ?_
    obtain ⟨q, hq, -⟩ := (hqueues.running e.1).mp (hmem e he)
    exact ⟨q, hc ▸ hq⟩
  have hbudget := hw.budget
  have htotal : st.numScheduledTokens.sumBy (fun _ n => n) ≤ s.config.maxNumScheduledTokens := by
    omega
  simp only [Scheduler.finishSchedule, assert_eq_ok, except_bind_eq_ok, Prod.exists]
  exact ⟨_, s', (), htotal, (), hw.running, (), hlen, s', sampled, hupdate, rfl⟩

/-! ### Runs -/

theorem UpdateStep.config {sampled : ReqId → List TokenId} {out : SchedulerOutput}
    {kvOut : KVConnectorOutput} {now : Nat} {x y : Scheduler κ × List (ReqId × EngineCoreOutput)}
    (h : UpdateStep E out sampled kvOut now x y) : y.1.config = x.1.config := by
  cases h with
  | stop _ _ _ _ _ hfree =>
    refine (freeRequest_setup hfree).config.trans ?_
    unfold leaveStopped
    split <;> rfl
  | finish hfinish => exact hfinish.mayEnd.setup.config
  | free _ hfree => exact (freeBlocks_setup hfree).config
  | _ => rfl

theorem UpdateSteps.config {sampled : ReqId → List TokenId} {out : SchedulerOutput}
    {kvOut : KVConnectorOutput} {now : Nat} {x y : Scheduler κ × List (ReqId × EngineCoreOutput)}
    (h : UpdateSteps E out sampled kvOut now x y) : y.1.config = x.1.config := by
  induction h with
  | refl => rfl
  | tail _ hstep ih => exact hstep.config.trans ih

theorem Progress.running_length (hok : QueuesOk s []) (hok' : QueuesOk s' [])
    (h : Progress s s') : s'.running.length ≤ s.running.length := by
  refine (List.subperm_of_subset hok'.running_nodup fun r hr => ?_).length_le
  obtain ⟨q', hq', hstatus'⟩ := (hok'.running r).mp hr
  obtain ⟨q, hq, hfinished | hstatus⟩ := h.record r q' hq'
  · rw [Request.isFinished, hstatus'] at hfinished
    cases hfinished
  · exact (hok.running r).mpr ⟨q, hq, hstatus ▸ hstatus'⟩

namespace EngineCore

variable {e₀ e e' : EngineCore κ}

/-- Not more requests run than may. -/
structure Bounded (e : EngineCore κ) : Prop extends Ok e where
  running : e.scheduler.running.length ≤ e.scheduler.config.maxNumRunningReqs

theorem Fresh.bounded (h : Fresh e) : Bounded e := by
  refine ⟨h.ok, ?_⟩
  rw [h.running]
  exact Nat.zero_le _

theorem Bounded.progress (h : Bounded e) (hok : Ok e') (hs : QueuesOk s [])
    (hprogress : Progress s e'.scheduler) (hrunning : s.running = e.scheduler.running)
    (hconfig : e'.scheduler.config = e.scheduler.config) : Bounded e' := by
  refine ⟨hok, ?_⟩
  rw [hconfig]
  exact (hprogress.running_length hs hok.queues).trans (hrunning ▸ h.running)

theorem Bounded.step {ev : Event} (h : Bounded e) (hstep : step E e ev = some e') :
    Bounded e' := by
  have hok := h.toOk.step hstep
  cases ev with
  | add req now =>
    obtain ⟨-, hnew, s', hsteps, -, rfl⟩ := step_add hstep
    have hadded := h.queues.added (toRequest_status req) (toRequest_requestId req ▸ hnew)
    exact h.progress hok hadded (.finishSteps hadded hsteps) rfl hsteps.mayEnd.setup.config
  | schedule =>
    obtain ⟨-, out, s₁, st₁, s', -, -, hfinish, rfl⟩ := step_schedule h.toOk hstep
    obtain ⟨hrunning, hupdate, -⟩ := finishSchedule_ok hfinish
    refine ⟨hok, ?_⟩
    obtain ⟨c, hc⟩ := takeConnectorMeta_frame s₁
    rw [updateAfterSchedule_frame hupdate, hc]
    exact hrunning
  | update sampled kv now =>
    obtain ⟨out, rest, failed, s₁, outs, s', hinFlight, hcheck, hsteps, rfl⟩ := step_update hstep
    have hsteps' := (checkInvalidBlocks_steps hcheck).trans hsteps
    have hall := h.inFlight
    rw [hinFlight] at hall
    exact h.progress hok h.queues (QueuesOk.updateSteps hsteps' h.queues hall.head).2 rfl
      (UpdateSteps.config hsteps')
  | finish ids status now =>
    obtain ⟨s', hsteps, rfl⟩ := step_finish hstep
    exact h.progress hok h.queues (.finishSteps h.queues hsteps) rfl hsteps.mayEnd.setup.config

/-- Once both loops got through, `schedule` ends: its assertions hold. -/
theorem schedule_asserts {es : List Event} {s₁ s₂ : Scheduler κ} {st₁ st₂ : StepState}
    (h₀ : Fresh e₀) (hexec : Machine.exec (step E) e₀ es = some e)
    (hrunning : e.scheduler.runningLoop E (e.scheduler.running.length + 1)
      { tokenBudget := e.scheduler.config.maxNumScheduledTokens } 0 = .ok (s₁, st₁))
    (hwaiting : s₁.scheduleWaitingRequests E st₁ = .ok (s₂, st₂)) :
    ∃ out s', e.scheduler.schedule E = .ok (out, s') ∧
      out.numScheduledTokens.sumBy (fun _ n => n) ≤ e.scheduler.config.maxNumScheduledTokens ∧
      s'.running.length ≤ e.scheduler.config.maxNumRunningReqs ∧
      ∀ r n, out.numScheduledTokens.get? r = some n → r ∈ s'.running := by
  have hbounded : Bounded e :=
    Machine.exec_invariant (fun _ _ _ h hstep => Bounded.step h hstep) h₀.bounded hexec
  have hinit : RunningLoopOk e.scheduler (.init e.scheduler.config) 0 :=
    ⟨hbounded.queues.running_nodup, List.nodup_nil, fun _ h => absurd h List.not_mem_nil,
      fun _ _ => rfl⟩
  obtain ⟨hsteps₁, hskip₁⟩ := runningLoop_steps hinit hrunning
  obtain ⟨hsteps₂, hskip₂⟩ := scheduleWaitingRequests_steps hskip₁ hwaiting
  have hw₁ := runningLoop_within hinit ⟨Nat.zero_add _, hbounded.running⟩ hrunning
  have hqueues₁ := QueuesOk.scheduleSteps hsteps₁ hbounded.queues
  have hsched₁ : ScheduledRun s₁ st₁ :=
    ScheduledRun.scheduleSteps hsteps₁ fun r n hr => by simp [StepState.init] at hr
  have hw₂ := scheduleWaitingRequests_within hqueues₁ hsched₁ hw₁ hwaiting
  have hqueues₂ := QueuesOk.scheduleSteps hsteps₂ hqueues₁
  have hsched₂ := ScheduledRun.scheduleSteps hsteps₂ hsched₁
  rw [hskip₂] at hqueues₂
  obtain ⟨out, s', hfinish⟩ := finishSchedule_total hqueues₂ hsched₂ hw₂
  obtain ⟨-, hupdate, hout, -⟩ := finishSchedule_ok hfinish
  have hconfig : s₂.config = e.scheduler.config :=
    (ScheduleSteps.setup (hsteps₁.trans hsteps₂)).config
  have hsame : s'.running = s₂.running := by
    obtain ⟨c, hc⟩ := takeConnectorMeta_frame s₂
    rw [updateAfterSchedule_frame hupdate, hc]
  refine ⟨out, s', ?_, ?_, ?_, fun r n hr => ?_⟩
  · simp only [Scheduler.schedule, except_bind_eq_ok, Prod.exists]
    exact ⟨s₁, st₁, hrunning, s₂, st₂, hwaiting, hfinish⟩
  · rw [hout, ← hconfig, ← hw₂.budget]
    exact Nat.le_add_right _ _
  · rw [hsame, ← hconfig]
    exact hw₂.running
  · rw [hsame]
    exact (hsched₂ r n (hout ▸ hr)).1

/-- One request at a time, two tokens a step. -/
def narrow : SchedulerConfig where
  maxNumRunningReqs := 1
  maxNumScheduledTokens := 2
  maxModelLen := 8

def threeTokens (r : ReqId) : EngineCoreRequest where
  requestId := r
  params := { sampling := upTo 2 Nat.two_pos }
  promptTokenIds := [1, 2, 3]

/-- The first request runs and the second one waits. -/
theorem schedule_asserts_narrow : ∃ e₀ e out s', unit narrow 8 none = .ok e₀ ∧
    Machine.exec (step unitEnv) e₀ [.add (threeTokens 0) 0, .add (threeTokens 1) 0] = some e ∧
    e.scheduler.schedule unitEnv = .ok (out, s') ∧
    out.numScheduledTokens.sumBy (fun _ n => n) ≤ e.scheduler.config.maxNumScheduledTokens := by
  obtain ⟨e₀, e, s₁, st₁, s₂, st₂, h₀, hexec, hrunning, hwaiting⟩ : ∃ e₀ e s₁ st₁ s₂ st₂,
      unit narrow 8 none = .ok e₀ ∧
      Machine.exec (step unitEnv) e₀ [.add (threeTokens 0) 0, .add (threeTokens 1) 0] = some e ∧
      e.scheduler.runningLoop unitEnv (e.scheduler.running.length + 1)
        { tokenBudget := e.scheduler.config.maxNumScheduledTokens } 0 = .ok (s₁, st₁) ∧
      s₁.scheduleWaitingRequests unitEnv st₁ = .ok (s₂, st₂) :=
    ⟨_, _, _, _, _, _, rfl, rfl, rfl, rfl⟩
  obtain ⟨out, s', hschedule, htotal, -⟩ :=
    schedule_asserts (Fresh.unit h₀) hexec hrunning hwaiting
  exact ⟨e₀, e, out, s', h₀, hexec, hschedule, htotal⟩

end EngineCore

end EldrServing.Sched
