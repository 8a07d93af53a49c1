import EldrServing.Encoder.Backing

/-!
# The state changes of multimodal scheduling

A call of `schedule` for multimodal requests changes the scheduler as the text model's `schedule`
may, with the numbers of tokens that the choice of encoder inputs leaves, and the encoder cache by
the steps of a pass. So what is proved of those state changes holds here too.
-/

namespace EldrServing.Encoder

set_option autoImplicit false
set_option linter.unusedSectionVars false

open Engine KVCache Nixl Sched Relation

variable {κ : Type} [DecidableEq κ]

def Noted (st : StepState) (p : EncoderPass) : Prop :=
  ∀ r, st.numScheduledTokens.get? r = none → p.scheduledEncoderInputs.get? r = none

theorem numNewTokensRunning_of_le {config : SchedulerConfig} {q : Request} {budget n : Nat}
    (h : n ≤ Scheduler.numNewTokensRunning config q budget) :
    n = Scheduler.numNewTokensRunning config q n := by
  simp only [Scheduler.numNewTokensRunning] at h ⊢
  omega

section Running

variable {E : CacheEnv κ} {env : EncoderEnv} {s s' : Scheduler κ} {st st' : StepState}
  {p p' : EncoderPass} {x : Option (ReqId × Choice)} {r v : ReqId} {i i' n fuel : Nat}

theorem preempt_steps (env : EncoderEnv) (policy : SchedulingPolicy) (scheduled : List ReqId)
    (p : EncoderPass) (v : ReqId) (x : Option (ReqId × Choice)) :
    PassSteps env policy (p, x) (p.preempt env policy scheduled v, x) := by
  unfold EncoderPass.preempt
  cases policy with
  | fcfs => exact .single .free
  | priority =>
    simp only
    split
    · exact (ReflTransGen.single (.takeBack rfl)).tail .free
    · exact .single .free

theorem Noted.preempt (env : EncoderEnv) {policy : SchedulingPolicy} (hnoted : Noted st p)
    (hfcfs : policy = .fcfs → v ∉ st.scheduledRunningReqs) :
    Noted (dropScheduled st v) (p.preempt env policy st.scheduledRunningReqs v) := by
  intro a ha
  unfold dropScheduled at ha
  unfold EncoderPass.preempt
  cases policy with
  | fcfs =>
    rw [if_neg (hfcfs rfl)] at ha
    exact hnoted a ha
  | priority =>
    simp only
    by_cases hmem : v ∈ st.scheduledRunningReqs
    · rw [if_pos hmem] at ha ⊢
      change (p.scheduledEncoderInputs.erase v).get? a = none
      rcases eq_or_ne v a with rfl | hne
      · exact Dict.get?_erase_self
      · rw [Dict.get?_erase_ne hne]
        exact hnoted a ((Dict.get?_erase_ne hne).symm.trans ha)
    · rw [if_neg hmem] at ha ⊢
      exact hnoted a ha

theorem allocateLoop_base {fits : Bool}
    (h : MmSchedule.allocateLoop E env r n fuel s st i p = .ok (fits, s', st', i', p')) :
    s.allocateLoop E r n fuel st i = .ok (fits, s', st', i') := by
  induction fuel generalizing s st i p with
  | zero => cases h
  | succ fuel ih =>
    unfold MmSchedule.allocateLoop at h
    unfold Scheduler.allocateLoop
    simp only [except_bind_eq_ok, Prod.exists] at h ⊢
    obtain ⟨q, hq, blocks, kv, hkv, h⟩ := h
    refine ⟨q, hq, blocks, kv, hkv, ?_⟩
    cases blocks with
    | some blocks =>
      simp only [Except.ok.injEq, Prod.mk.injEq] at h ⊢
      exact ⟨h.1, h.2.1, h.2.2.1, h.2.2.2.1⟩
    | none =>
      simp only at h ⊢
      split at h
      · cases h
      · next v hv =>
        simp only [except_bind_eq_ok] at h
        obtain ⟨s₂, hs₂, h⟩ := h
        simp only [hv, except_bind_eq_ok]
        refine ⟨s₂, hs₂, ?_⟩
        split at h
        · next heq =>
          rw [if_pos heq]
          simp only [Except.ok.injEq, Prod.mk.injEq] at h ⊢
          exact ⟨h.1, h.2.1, h.2.2.1, h.2.2.2.1⟩
        · next hne =>
          rw [if_neg hne]
          exact ih h

theorem allocateLoop_pass {fits : Bool} (hok : AllocateLoopOk s st r i) (hnoted : Noted st p)
    (h : MmSchedule.allocateLoop E env r n fuel s st i p = .ok (fits, s', st', i', p')) :
    PassSteps env s.config.policy (p, x) (p', x) ∧ Noted st' p' ∧ s'.config = s.config := by
  induction fuel generalizing s st i p with
  | zero => cases h
  | succ fuel ih =>
    unfold MmSchedule.allocateLoop at h
    simp only [except_bind_eq_ok, Prod.exists] at h
    obtain ⟨q, -, blocks, kv, -, h⟩ := h
    cases blocks with
    | some blocks =>
      simp only [Except.ok.injEq, Prod.mk.injEq] at h
      obtain ⟨-, rfl, rfl, -, rfl⟩ := h
      exact ⟨.refl, hnoted, rfl⟩
    | none =>
      have hok₁ : AllocateLoopOk (s.setKv kv) st r i := hok.congr rfl rfl
      simp only at h
      split at h
      · cases h
      · next v hv =>
        simp only [except_bind_eq_ok] at h
        obtain ⟨s₂, hs₂, h⟩ := h
        obtain ⟨-, hnext, hconfig, -⟩ := takeVictim_preempt (E := E) hok₁ hv hs₂
        obtain ⟨i₁, htake, hfcfs, -⟩ := takeVictim_ok hok₁ hv
        have hnoted₂ := hnoted.preempt env hfcfs
        have hsteps := preempt_steps env s.config.policy st.scheduledRunningReqs p v x
        rw [htake] at h hnext
        split at h
        · simp only [Except.ok.injEq, Prod.mk.injEq] at h
          obtain ⟨-, rfl, rfl, -, rfl⟩ := h
          exact ⟨hsteps, hnoted₂, hconfig⟩
        · next hne =>
          obtain ⟨hrest, hnoted', hconfig'⟩ := ih (hnext hne).1 hnoted₂ h
          have hconfig₂ : s₂.config = s.config := hconfig
          rw [hconfig₂] at hrest
          exact ⟨hsteps.trans hrest, hnoted', hconfig'.trans hconfig⟩

theorem Noted.book {c : Choice} (hnoted : Noted st p) (hbook : p.book env r c = .ok p')
    {st' : StepState} (hst : st'.numScheduledTokens = st.numScheduledTokens.insert r n) :
    Noted st' p' := by
  intro a ha
  obtain ⟨m, -, -, -, -, -, -, hsched⟩ := EncoderPass.book_ok hbook
  have hne : r ≠ a := by
    rintro rfl
    rw [hst, Dict.get?_insert_self] at ha
    cases ha
  rw [hst, Dict.get?_insert_ne hne] at ha
  rw [hsched]
  split
  · exact hnoted a ha
  · rw [Dict.get?_insert_ne hne]
    exact hnoted a ha

theorem Noted.choose {c : Choice} {numComputedTokens numNewTokens : Nat} (hnoted : Noted st p)
    (h : p.choose env r numComputedTokens numNewTokens = .ok (c, p')) : Noted st p' := by
  obtain ⟨-, -, -, hp'⟩ := EncoderPass.choose_ok h
  rw [hp']
  exact hnoted

theorem runningLoop_steps (hok : RunningLoopOk s st i) (hnoted : Noted st p)
    (h : MmSchedule.runningLoop E env fuel s st i p = .ok (s', st', p')) :
    ScheduleSteps E (s, st) (s', st') ∧ st'.stepSkippedWaiting = st.stepSkippedWaiting ∧
      PassSteps env s.config.policy (p, none) (p', none) ∧ Noted st' p' ∧
      s'.config = s.config := by
  induction fuel generalizing s st i p with
  | zero => cases h
  | succ fuel ih =>
    unfold MmSchedule.runningLoop at h
    split at h
    · simp only [Except.ok.injEq, Prod.mk.injEq] at h
      obtain ⟨rfl, rfl, rfl⟩ := h
      exact ⟨.refl, rfl, .refl, hnoted, rfl⟩
    next r hr =>
    split at h
    · simp only [Except.ok.injEq, Prod.mk.injEq] at h
      obtain ⟨rfl, rfl, rfl⟩ := h
      exact ⟨.refl, rfl, .refl, hnoted, rfl⟩
    simp only [except_bind_eq_ok, getRequest_eq_ok] at h
    obtain ⟨q, hq, h⟩ := h
    split at h
    · exact ih hok.next hnoted h
    next hmore =>
    split at h
    · cases h
    simp only [except_bind_eq_ok, Prod.exists] at h
    obtain ⟨c, p₁, hchoose, h⟩ := h
    obtain ⟨-, hle, -, -⟩ := EncoderPass.choose_ok hchoose
    have hnoted₁ := hnoted.choose hchoose
    have hchosen : PassSteps env s.config.policy (p, none) (p₁, some (r, c)) :=
      .single (.choose hchoose)
    split at h
    · obtain ⟨hsteps, hskip, hpass, hrest⟩ := ih hok.next hnoted₁ h
      exact ⟨hsteps, hskip, (hchosen.tail .giveUp).trans hpass, hrest⟩
    next hpos =>
    simp only [except_bind_eq_ok, Prod.exists] at h
    obtain ⟨fits, s₁, st₁, i₁, p₂, halloc, h⟩ := h
    have hloop := hok.allocateLoopOk hr
    obtain ⟨hpass, hnoted₂, hconfig₁⟩ :=
      allocateLoop_pass (x := some (r, c)) hloop hnoted₁ halloc
    obtain ⟨hkept, hcases⟩ := allocateLoop_steps hloop hq (allocateLoop_base halloc)
    have hpass₂ := hchosen.trans hpass
    rcases hcases with ⟨rfl, hsteps⟩ | ⟨rfl, s₂, kv, blocks, hrest⟩
    · simp only [Bool.false_eq_true, if_false, Except.ok.injEq, Prod.mk.injEq] at h
      obtain ⟨rfl, rfl, rfl⟩ := h
      exact ⟨hsteps, hkept, hpass₂.tail .giveUp, hnoted₂, hconfig₁⟩
    · obtain ⟨hsteps, hok₂, hq₂, hconfig, hkv, rfl⟩ := hrest
      simp only [if_true, except_bind_eq_ok] at h
      obtain ⟨p₃, hbook, h⟩ := h
      have hfree := hok₂.keys r hok₂.not_scheduled
      have hrun : ScheduleStep E (s₂, st₁)
          (s₂.setKv kv, Scheduler.scheduleRunning st₁ r c.numNewTokens) :=
        .run (List.mem_of_mem_take hok₂.mem) hq₂ (Nat.pos_of_ne_zero hpos)
          (by rw [hconfig]; exact numNewTokensRunning_of_le hle) hok₂.not_scheduled hkv
          (by simpa using hmore) hfree
      have hok₃ : AllocateLoopOk (s₂.setKv kv) st₁ r i₁ := hok₂.congr rfl rfl
      have hnoted₃ : Noted (Scheduler.scheduleRunning st₁ r c.numNewTokens) p₃ :=
        hnoted₂.book hbook rfl
      have hbooked := hpass₂.tail (.book (hnoted₂ r hfree) hbook)
      obtain ⟨hrest, hkept', hpass', hnoted', hconfig'⟩ :=
        ih (hok₃.scheduleRunning _) hnoted₃ h
      rw [hconfig₁] at hpass' hconfig'
      exact ⟨(hsteps.tail hrun).trans hrest, hkept'.trans hkept, hbooked.trans hpass', hnoted',
        hconfig'⟩

end Running

section Waiting

variable {E : CacheEnv κ} {env : EncoderEnv} {policy : SchedulingPolicy} {s s' : Scheduler κ}
  {st st' : StepState} {p p' : EncoderPass} {r : ReqId} {q : Request} {fuel : Nat}

def MmSchedule.Admission.next (st : StepState) (r : ReqId) :
    MmSchedule.Admission κ → (Scheduler κ × StepState) × EncoderPass
  | .stop s p => ((s, st), p)
  | .load s p => ((s, Scheduler.skipWaiting st r), p)
  | .run s n p => ((s, Scheduler.scheduleWaiting st r n), p)

theorem not_scheduled_of_ready {passed : List ReqId} (hok : QueuesOk s passed)
    (hsched : ScheduledRun s st) (hq : s.requests.get? r = some q) (hstatus : q.status ≠ .running) :
    st.numScheduledTokens.get? r = none := by
  cases hn : st.numScheduledTokens.get? r with
  | none => rfl
  | some n =>
    obtain ⟨q', hq', hrunning⟩ := (hok.running r).mp (hsched r n hn).1
    obtain rfl := some_unique hq hq'
    exact absurd hrunning hstatus

theorem tryAdmit_steps {w : Scheduler.WaitingQueue} {budget : Nat} {a : MmSchedule.Admission κ}
    (hok : QueuesOk s st.stepSkippedWaiting) (hsched : ScheduledRun s st) (hnoted : Noted st p)
    (hqueue : r ∈ s.queue w) (hpre : st.preemptedReqs = []) (hq : s.requests.get? r = some q)
    (hready : isBlockedWaitingStatus q.status = false)
    (h : MmSchedule.tryAdmit E env s w r budget p = .ok a) :
    ScheduleSteps E (s, st) (a.next st r).1 ∧
      PassSteps env policy (p, none) ((a.next st r).2, none) ∧
      Noted (a.next st r).1.2 (a.next st r).2 := by
  simp only [MmSchedule.tryAdmit, except_bind_eq_ok, getRequest_eq_ok] at h
  obtain ⟨q', hq', m, hmatch, n?, hn?, h⟩ := h
  obtain rfl := some_unique hq hq'
  cases n? with
  | none =>
    obtain rfl := Except.ok.inj h
    exact ⟨.refl, .refl, hnoted⟩
  | some n =>
    simp only [except_bind_eq_ok, Prod.exists] at h
    obtain ⟨c, p₁, hchoose, h⟩ := h
    rcases numNewTokensWaiting_some hn? with ⟨hasync, rfl, -⟩ | ⟨hsync, hpos, hle⟩
    · -- the KV is loaded first: no inputs are chosen
      simp only [MmSchedule.chooseWaiting, if_pos hasync, Except.ok.injEq, Prod.mk.injEq]
        at hchoose
      obtain ⟨rfl, rfl⟩ := hchoose
      rw [if_neg (by simp [hasync])] at h
      simp only [except_bind_eq_ok, Prod.exists] at h
      obtain ⟨blocks, kv, hkv, h⟩ := h
      cases blocks with
      | none =>
        obtain rfl := Except.ok.inj h
        exact ⟨.single (.allocateFails hq (matchPrefix_lookupOk hmatch _ _ _) hkv
          (.waiting 0 hqueue hready hmatch)), .single .free, hnoted⟩
      | some blocks =>
        simp only [except_bind_eq_ok, Prod.exists] at h
        obtain ⟨s₁, q₁, hupdate, h⟩ := h
        rw [if_pos hasync] at h
        obtain rfl := Except.ok.inj h
        exact ⟨.single (.load hqueue hpre hq hready hmatch hasync hkv hupdate), .refl, hnoted⟩
    · simp only [MmSchedule.chooseWaiting, hsync, Bool.false_eq_true, if_false] at hchoose
      obtain ⟨-, hless, -, -⟩ := EncoderPass.choose_ok hchoose
      have hnoted₁ := hnoted.choose hchoose
      have hchosen : PassSteps env policy (p, none) (p₁, some (r, c)) := .single (.choose hchoose)
      split at h
      · obtain rfl := Except.ok.inj h
        exact ⟨.refl, hchosen.tail .giveUp, hnoted₁⟩
      next hsome =>
      have hpos' : 0 < c.numNewTokens := Nat.pos_of_ne_zero fun hzero => hsome ⟨hsync, hzero⟩
      simp only [except_bind_eq_ok, Prod.exists] at h
      obtain ⟨blocks, kv, hkv, h⟩ := h
      cases blocks with
      | none =>
        obtain rfl := Except.ok.inj h
        exact ⟨.single (.allocateFails hq (matchPrefix_lookupOk hmatch _ _ _) hkv
          (.waiting _ hqueue hready hmatch)), (hchosen.tail .giveUp).tail .free, hnoted₁⟩
      | some blocks =>
        simp only [except_bind_eq_ok, Prod.exists] at h
        obtain ⟨s₁, q₁, hupdate, h⟩ := h
        obtain ⟨-, params, hq₁⟩ := updateConnectorAfterAlloc_frame hupdate
        rw [if_neg (by simp [hsync])] at h
        split at h
        · next hstatus =>
          simp only [except_bind_eq_ok] at h
          obtain ⟨p₂, hbook, h⟩ := h
          obtain rfl := Except.ok.inj h
          have hstatus' : q.status = .waiting ∨ q.status = .preempted := by
            simpa [hq₁] using hstatus
          have hnew := not_scheduled_of_ready hok hsched hq
            (by rcases hstatus' with h | h <;> simp [h])
          have hpop : (s₁.popRequest r w).running = s₁.running := by cases w <;> rfl
          have hstart : ScheduleStep E (s, st) (_, Scheduler.scheduleWaiting st r c.numNewTokens) :=
            .start hqueue hpre hq hstatus' hmatch hsync hpos' (hless.trans hle) hkv hupdate
          rw [← hpop] at hstart
          exact ⟨.single hstart, hchosen.tail (.book (hnoted₁ r hnew) hbook),
            hnoted₁.book hbook rfl⟩
        · cases h

theorem waitingLoop_steps (hok : QueuesOk s st.stepSkippedWaiting) (hsched : ScheduledRun s st)
    (hnoted : Noted st p) (hpre : st.preemptedReqs = [])
    (h : MmSchedule.waitingLoop E env fuel s st p = .ok (s', st', p')) :
    ScheduleSteps E (s, st) (s', st') ∧ PassSteps env policy (p, none) (p', none) := by
  induction fuel generalizing s st p with
  | zero => cases h
  | succ fuel ih =>
    unfold MmSchedule.waitingLoop at h
    split at h
    · simp only [Except.ok.injEq, Prod.mk.injEq] at h
      obtain ⟨rfl, rfl, rfl⟩ := h
      exact ⟨.refl, .refl⟩
    split at h
    · simp only [Except.ok.injEq, Prod.mk.injEq] at h
      obtain ⟨rfl, rfl, rfl⟩ := h
      exact ⟨.refl, .refl⟩
    next w r hselect =>
    simp only [except_bind_eq_ok, Prod.exists] at h
    obtain ⟨ready, s₁, hpromote, h⟩ := h
    obtain ⟨hsteps, hqueue, hready⟩ := tryPromote_steps st hpromote
    have hmem : r ∈ s₁.queue w := hqueue w ▸ selectWaitingQueue_mem hselect
    -- the invariants of the scheduler come with its state changes
    have hgo : ∀ {s₂ : Scheduler κ} {st₂ : StepState} {p₂ : EncoderPass},
        ScheduleSteps E (s, st) (s₂, st₂) → PassSteps env policy (p, none) (p₂, none) →
        Noted st₂ p₂ → st₂.preemptedReqs = [] →
        MmSchedule.waitingLoop E env fuel s₂ st₂ p₂ = .ok (s', st', p') →
        ScheduleSteps E (s, st) (s', st') ∧ PassSteps env policy (p, none) (p', none) := by
      intro s₂ st₂ p₂ hsteps₂ hpass₂ hnoted₂ hpre₂ h₂
      obtain ⟨hrest, hpass⟩ := ih (QueuesOk.scheduleSteps hsteps₂ hok)
        (ScheduledRun.scheduleSteps hsteps₂ hsched) hnoted₂ hpre₂ h₂
      exact ⟨hsteps₂.trans hrest, hpass₂.trans hpass⟩
    split at h
    · exact hgo (hsteps.tail (.skip hmem hpre)) .refl hnoted hpre h
    next hnot =>
    obtain ⟨q, hq, hstatus⟩ := hready (by simpa using hnot)
    simp only [except_bind_eq_ok] at h
    obtain ⟨a, ha, h⟩ := h
    obtain ⟨hentered, hpass, hnoted'⟩ := tryAdmit_steps (QueuesOk.scheduleSteps hsteps hok)
      (ScheduledRun.scheduleSteps hsteps hsched) hnoted hmem hpre hq hstatus ha
    cases a with
    | stop s₂ p₂ =>
      simp only [Except.ok.injEq, Prod.mk.injEq] at h
      obtain ⟨rfl, rfl, rfl⟩ := h
      exact ⟨hsteps.trans hentered, hpass⟩
    | load s₂ p₂ => exact hgo (hsteps.trans hentered) hpass hnoted' hpre h
    | run s₂ n p₂ => exact hgo (hsteps.trans hentered) hpass hnoted' hpre h

theorem scheduleWaitingRequests_steps (hok : QueuesOk s st.stepSkippedWaiting)
    (hsched : ScheduledRun s st) (hnoted : Noted st p) (hskip : st.stepSkippedWaiting = [])
    (h : MmSchedule.scheduleWaitingRequests E env s st p = .ok (s', st', p')) :
    ScheduleSteps E (s, st) (s', st') ∧ st'.stepSkippedWaiting = [] ∧
      PassSteps env policy (p, none) (p', none) := by
  unfold MmSchedule.scheduleWaitingRequests at h
  split at h
  · next hpre =>
    simp only [except_bind_eq_ok, Prod.exists] at h
    obtain ⟨s₁, st₁, p₁, hloop, h⟩ := h
    simp only [Except.ok.injEq, Prod.mk.injEq] at h
    obtain ⟨rfl, rfl, rfl⟩ := h
    obtain ⟨hsteps, hpass⟩ := waitingLoop_steps hok hsched hnoted hpre hloop
    exact ⟨hsteps.tail .requeue, rfl, hpass⟩
  · simp only [Except.ok.injEq, Prod.mk.injEq] at h
    obtain ⟨rfl, rfl, rfl⟩ := h
    exact ⟨.refl, hskip, .refl⟩

end Waiting

/-- A call of `schedule`: the state changes of the text model's scheduler beside a pass over the
encoder cache, and then the end of the step. -/
theorem schedule_passes {E : CacheEnv κ} {env : EncoderEnv} {s s' : Scheduler κ}
    {p p' : EncoderPass} {out : SchedulerOutput} (hok : QueuesOk s [])
    (hstart : p.scheduledEncoderInputs = .empty)
    (h : MmSchedule.schedule E env s p = .ok (out, s', p')) :
    (∃ s₁ st₁, ScheduleSteps E (s, .init s.config) (s₁, st₁) ∧ st₁.stepSkippedWaiting = [] ∧
      s₁.finishSchedule st₁ = .ok (out, s')) ∧
    PassSteps env s.config.policy (p, none) (p', none) := by
  simp only [MmSchedule.schedule, except_bind_eq_ok, Prod.exists] at h
  obtain ⟨s₂, st₂, p₂, hrunning, s₁, st₁, p₁, hwaiting, out', s'', hfinish, h⟩ := h
  simp only [Except.ok.injEq, Prod.mk.injEq] at h
  obtain ⟨rfl, rfl, rfl⟩ := h
  have hloop : RunningLoopOk s (.init s.config) 0 :=
    ⟨hok.running_nodup, List.nodup_nil, fun _ h => absurd h List.not_mem_nil, fun _ _ => rfl⟩
  have hnoted : Noted (.init s.config) p := fun r _ => by rw [hstart, Dict.get?_empty]
  obtain ⟨hsteps, hskip, hpass, hnoted₂, -⟩ := runningLoop_steps hloop hnoted hrunning
  have hok₂ : QueuesOk s₂ st₂.stepSkippedWaiting := QueuesOk.scheduleSteps hsteps hok
  have hsched₂ : ScheduledRun s₂ st₂ :=
    ScheduledRun.scheduleSteps hsteps fun r n hr => by simp [StepState.init] at hr
  obtain ⟨hsteps', hskip', hpass'⟩ :=
    scheduleWaitingRequests_steps hok₂ hsched₂ hnoted₂ hskip hwaiting
  exact ⟨⟨s₁, st₁, hsteps.trans hsteps', hskip', hfinish⟩, hpass.trans hpass'⟩

end EldrServing.Encoder
