import EldrServing.Sched.Engine

/-!
# Tokens under way

A step that reaches the end of what a request has makes the model sample one more token, which
the scheduler sees when the output of the step comes back. This module says what one call of
`schedule` and one of `update_from_output` do to one request, and ties a request's counters to
the steps under way.
-/

namespace EldrServing.Sched

set_option autoImplicit false
set_option linter.unusedSectionVars false

open Engine KVCache Nixl Relation

variable {κ : Type} [DecidableEq κ]

/-! ### One request in a call of `schedule` -/

/-- Scheduling can mark in the transfer parameters that a load was started. -/
def SameTransfer (params params' : Option KVTransferParams) : Prop :=
  params' = params ∨ ∃ transfer, params = some transfer ∧
    params' = some (NixlConnectorScheduler.consumed transfer)

theorem SameTransfer.trans {p₁ p₂ p₃ : Option KVTransferParams} (h : SameTransfer p₁ p₂)
    (h' : SameTransfer p₂ p₃) : SameTransfer p₁ p₃ := by
  rcases h with rfl | ⟨transfer, rfl, rfl⟩
  · exact h'
  · rcases h' with rfl | ⟨transfer', htransfer, rfl⟩
    · exact .inr ⟨transfer, rfl, rfl⟩
    · obtain rfl := Option.some.inj htransfer
      exact .inr ⟨transfer, rfl, rfl⟩

structure SameTokens (q q' : Request) : Prop where
  samplingParams : q'.samplingParams = q.samplingParams
  promptTokenIds : q'.promptTokenIds = q.promptTokenIds
  outputTokenIds : q'.outputTokenIds = q.outputTokenIds
  stopReason : q'.stopReason = q.stopReason
  transfer : SameTransfer q.kvTransferParams q'.kvTransferParams
  isFinished : q'.isFinished = q.isFinished

theorem SameTokens.refl (q : Request) : SameTokens q q := ⟨rfl, rfl, rfl, rfl, .inl rfl, rfl⟩

theorem SameTokens.trans {q₁ q₂ q₃ : Request} (h : SameTokens q₁ q₂) (h' : SameTokens q₂ q₃) :
    SameTokens q₁ q₃ where
  samplingParams := h'.samplingParams.trans h.samplingParams
  promptTokenIds := h'.promptTokenIds.trans h.promptTokenIds
  outputTokenIds := h'.outputTokenIds.trans h.outputTokenIds
  stopReason := h'.stopReason.trans h.stopReason
  transfer := h.transfer.trans h'.transfer
  isFinished := h'.isFinished.trans h.isFinished

variable {q' : Request} {t : TokenId} {s₁ s₂ s₃ : Scheduler κ} {x y : Scheduler κ × StepState}
  {kv : KVConnectorOutput}

theorem SameTokens.prefillFirst {q : Request} (h : SameTokens q q') :
    q'.prefillFirst = q.prefillFirst := by
  rcases h.transfer with heq | ⟨transfer, hq, hq'⟩
  · simp only [Request.prefillFirst, heq]
  · simp only [Request.prefillFirst, hq, hq']
    rfl

theorem SameTokens.numTokens {q : Request} (h : SameTokens q q') :
    q'.numTokens = q.numTokens := by
  simp only [Request.numTokens, Request.allTokenIds, h.promptTokenIds, h.outputTokenIds]

/-- The request `q` while a step is being built, `q₀` being what it was before; `scheduled` are
its tokens in the step. -/
structure Turn (maxModelLen : Nat) (q₀ q : Request) (scheduled : Option Nat)
    (preempted : List ReqId) : Prop where
  same : SameTokens q₀ q
  placeholders : q.numOutputPlaceholders = q₀.numOutputPlaceholders
  kept : q.status = .running → q₀.status = .running →
    q.numComputedTokens = q₀.numComputedTokens
  left : q.status ≠ .running → q₀.status = .running → preempted ≠ []
  started : q.status = .running → q₀.status ≠ .running → q.numComputedTokens < q.numTokens
  scheduled : ∀ n, scheduled = some n → q.status = .running ∧ 0 < n ∧
    q.numComputedTokens + n ≤ q.numTokens + q.numOutputPlaceholders ∧
    (q₀.status = .running → Scheduler.reachesMaxTokens q = false ∧
      q.numComputedTokens + n < maxModelLen)

/-- The request `r`, which was `q₀`, in the middle of `schedule`. -/
def InTurn (maxModelLen : Nat) (r : ReqId) (q₀ : Request) (x : Scheduler κ × StepState) : Prop :=
  x.1.config.maxModelLen = maxModelLen ∧ ∃ q, x.1.requests.get? r = some q ∧
    Turn maxModelLen q₀ q (x.2.numScheduledTokens.get? r) x.2.preemptedReqs

theorem numNewTokensRunning_le (config : SchedulerConfig) (q : Request) (budget : Nat) :
    Scheduler.numNewTokensRunning config q budget ≤
        q.numTokens + q.numOutputPlaceholders - q.numComputedTokens ∧
      Scheduler.numNewTokensRunning config q budget ≤
        config.maxModelLen - 1 - q.numComputedTokens := by
  unfold Scheduler.numNewTokensRunning
  simp only
  split <;> omega

theorem updateConnectorAfterAlloc_transfer {s s' : Scheduler κ} {r : ReqId} {q : Request}
    {ext : Nat} (h : s.updateConnectorAfterAlloc r q ext = .ok (s', q')) :
    SameTransfer q.kvTransferParams q'.kvTransferParams := by
  rcases updateConnectorAfterAlloc_ok h with ⟨-, -, rfl⟩ | ⟨c, c', -, hupdate, -⟩
  · exact .inl rfl
  rcases NixlConnectorScheduler.updateStateAfterAlloc_ok hupdate with ⟨-, -, rfl⟩ |
    ⟨params, hparams, ⟨-, -, rfl⟩ | ⟨-, rfl, -⟩⟩
  · exact .inl rfl
  · exact .inl rfl
  · exact .inr ⟨params, hparams, rfl⟩

section Schedule

variable {E : CacheEnv κ} {s : Scheduler κ} {st : StepState} {r a : ReqId} {q q₀ : Request}
  {maxModelLen : Nat}

theorem dropScheduled_get? {v : ReqId}
    (hkeys : ∀ a, a ∉ st.scheduledRunningReqs → st.numScheduledTokens.get? a = none) :
    (dropScheduled st v).numScheduledTokens.get? a =
      if a = v then none else st.numScheduledTokens.get? a := by
  unfold dropScheduled
  split
  · change (st.numScheduledTokens.erase v).get? a = _
    split
    · next h => rw [h, Dict.get?_erase_self]
    · next h => exact Dict.get?_erase_ne (Ne.symm h)
  · next hnot =>
    split
    · next h => rw [h, hkeys v hnot]
    · rfl

theorem InTurn.congr {s' : Scheduler κ} {st' : StepState} (h : InTurn maxModelLen r q₀ (s, st))
    (hconfig : s'.config = s.config) (hget : s'.requests.get? r = s.requests.get? r)
    (hsched : st'.numScheduledTokens.get? r = st.numScheduledTokens.get? r)
    (hpre : st.preemptedReqs ≠ [] → st'.preemptedReqs ≠ []) :
    InTurn maxModelLen r q₀ (s', st') := by
  obtain ⟨hlen, q, hq, hturn⟩ := h
  refine ⟨hconfig ▸ hlen, q, hget.trans hq, hturn.same, hturn.placeholders, hturn.kept,
    fun h h' => hpre (hturn.left h h'), hturn.started, ?_⟩
  simp only at hsched ⊢
  rw [hsched]
  exact hturn.scheduled

theorem Turn.waits {n : Option Nat} {preempted : List ReqId}
    (h : Turn maxModelLen q₀ q n preempted) (hstatus : q.status ≠ .running) :
    n = none ∧ (preempted = [] → q₀.status ≠ .running) := by
  refine ⟨?_, fun hpre hrun => h.left hstatus hrun hpre⟩
  cases n with
  | none => rfl
  | some n => exact absurd (h.scheduled n rfl).1 hstatus

theorem Turn.rest {n : Option Nat} {preempted : List ReqId}
    (h : Turn maxModelLen q₀ q n preempted) (hstatus : q.status ≠ .running)
    (hstatus' : q'.status ≠ .running) (hsame : SameTokens q q')
    (hplace : q'.numOutputPlaceholders = q.numOutputPlaceholders) :
    Turn maxModelLen q₀ q' n preempted where
  same := h.same.trans hsame
  placeholders := hplace.trans h.placeholders
  kept hrun := absurd hrun hstatus'
  left _ hrun := h.left hstatus hrun
  started hrun := absurd hrun hstatus'
  scheduled k hk := by
    rw [(h.waits hstatus).1] at hk
    cases hk

theorem promoted_same (q : Request) (hstatus : q.status = .waitingForRemoteKvs) :
    SameTokens q (promoted q) := by
  refine ⟨rfl, rfl, rfl, rfl, .inl rfl, ?_⟩
  simp only [Request.isFinished, promoted, hstatus]
  split <;> rfl

theorem recomputeLast_same (q : Request) : SameTokens q (Scheduler.recomputeLast q) ∧
    (Scheduler.recomputeLast q).status = q.status ∧
    (Scheduler.recomputeLast q).numOutputPlaceholders = q.numOutputPlaceholders := by
  unfold Scheduler.recomputeLast
  split
  · exact ⟨⟨rfl, rfl, rfl, rfl, .inl rfl, rfl⟩, rfl, rfl⟩
  · exact ⟨.refl q, rfl, rfl⟩

theorem InTurn.scheduleStep (h : ScheduleStep E x y)
    (hok : QueuesOk x.1 x.2.stepSkippedWaiting) (hturn : InTurn maxModelLen r q₀ x) :
    InTurn maxModelLen r q₀ y := by
  cases h with
  | allocateFails => exact hturn.congr rfl rfl rfl id
  | @preempt s st v q kv hrunning hq hstatus hfcfs hkeys hkv =>
    rcases eq_or_ne r v with rfl | hne
    · obtain ⟨hlen, q', hq', hturn⟩ := hturn
      obtain rfl := some_unique hq hq'
      refine ⟨hlen, preempted q, Dict.get?_insert_self,
        ⟨hturn.same.trans ⟨rfl, rfl, rfl, rfl, .inl rfl, ?_⟩, hturn.placeholders, ?_, ?_, ?_, ?_⟩⟩
      · simp only [Request.isFinished, preempted, hstatus]
        rfl
      · exact fun h => absurd h (by simp [preempted])
      · exact fun _ _ => by simp
      · exact fun h => absurd h (by simp [preempted])
      · intro n hn
        simp only [dropScheduled_get? hkeys, if_true] at hn
        cases hn
    · refine hturn.congr rfl (Dict.get?_insert_ne hne.symm) ?_ (fun _ => by simp)
      simp only [dropScheduled_get? hkeys, if_neg hne]
  | @run s st a q budget n kv blocks hrunning hq hpos hn hnew hkv hmore =>
    rcases eq_or_ne r a with rfl | hne
    · obtain ⟨hlen, q', hq', hturn⟩ := hturn
      obtain rfl := some_unique hq hq'
      obtain ⟨q', hq', hrun⟩ := (hok.running r).mp hrunning
      obtain rfl := some_unique hq hq'
      obtain ⟨hle, hmax⟩ := numNewTokensRunning_le s.config q budget
      rw [← hn] at hle hmax
      simp only at hlen
      refine ⟨hlen, q, hq, hturn.same, hturn.placeholders, hturn.kept, hturn.left,
        hturn.started, fun k hk => ?_⟩
      have hget : (st.numScheduledTokens.insert r n).get? r = some n :=
        Dict.get?_insert_self
      obtain rfl := some_unique hget hk
      exact ⟨hrun, hpos, by omega, fun _ => ⟨hmore, by omega⟩⟩
    · exact hturn.congr rfl rfl (Dict.get?_insert_ne hne.symm) id
  | @promote s st a q s' q' hq hstatus hdone hupdate =>
    obtain ⟨kv, rfl, hcases⟩ := updateWaitingForRemoteKv_ok hupdate
    rcases eq_or_ne r a with rfl | hne
    · obtain ⟨hlen, q₁, hq₁, hturn⟩ := hturn
      obtain rfl := some_unique hq hq₁
      refine ⟨hlen, promoted q', Dict.get?_insert_self,
        hturn.rest (by simp [hstatus]) ?_ ?_ ?_⟩
      · simp only [promoted]
        split <;> simp
      · rcases hcases with ⟨-, -, rfl⟩ | ⟨-, -, rfl⟩
        · exact promoted_same q' hstatus
        · obtain ⟨hsame, hst, -⟩ := recomputeLast_same q
          exact hsame.trans (promoted_same _ (hst.trans hstatus))
      · rcases hcases with ⟨-, -, rfl⟩ | ⟨-, -, rfl⟩
        · rfl
        · exact (recomputeLast_same q).2.2
    · exact hturn.congr rfl (Dict.get?_insert_ne hne.symm) rfl id
  | @skip s st a w hqueue hpre => cases w <;> exact hturn.congr rfl rfl rfl id
  | @load s st a w q m kv blocks s' q' hqueue hpre hq hready hmatch hasync hkv hupdate =>
    have htransfer := updateConnectorAfterAlloc_transfer hupdate
    obtain ⟨⟨c, rfl⟩, params, rfl⟩ := updateConnectorAfterAlloc_frame hupdate
    rcases eq_or_ne r a with rfl | hne
    · obtain ⟨hlen, q₁, hq₁, hturn⟩ := hturn
      obtain rfl := some_unique hq hq₁
      obtain ⟨q₂, hq₂, hwait, hlive⟩ := (hok.queued r).mp (mem_queued_of_queue _ w hqueue)
      obtain rfl := some_unique hq hq₂
      refine ⟨by cases w <;> exact hlen, _, Dict.get?_insert_self,
        hturn.rest hwait (by simp) ⟨rfl, rfl, rfl, rfl, htransfer, hlive.symm⟩ rfl⟩
    · refine hturn.congr (by cases w <;> rfl) ?_ rfl id
      rw [Scheduler.putRequest_requests, Dict.get?_insert_ne hne.symm]
      cases w <;> rfl
  | @start s st a w q m n kv blocks s' q' hqueue hpre hq hready hmatch hsync hn hle hkv hupdate =>
    have htransfer := updateConnectorAfterAlloc_transfer hupdate
    obtain ⟨⟨c, rfl⟩, params, rfl⟩ := updateConnectorAfterAlloc_frame hupdate
    rcases eq_or_ne r a with rfl | hne
    · obtain ⟨hlen, q₁, hq₁, hturn⟩ := hturn
      obtain rfl := some_unique hq hq₁
      obtain ⟨q₂, hq₂, hwait, hlive⟩ := (hok.queued r).mp (mem_queued_of_queue _ w hqueue)
      obtain rfl := some_unique hq hq₂
      have hnot : q₀.status ≠ .running := (hturn.waits hwait).2 hpre
      refine ⟨by cases w <;> exact hlen, _, Dict.get?_insert_self,
        hturn.same.trans ⟨rfl, rfl, rfl, rfl, htransfer, hlive.symm⟩, hturn.placeholders,
        fun _ h => absurd h hnot, fun h => absurd rfl h, fun _ _ => ?_, fun k hk => ?_⟩
      · change m.numComputedTokens < q.numTokens
        omega
      · have hget : (st.numScheduledTokens.insert r n).get? r = some n :=
          Dict.get?_insert_self
        obtain rfl := some_unique hget hk
        refine ⟨rfl, hn, ?_, fun h => absurd h hnot⟩
        change m.numComputedTokens + n ≤ q.numTokens + q.numOutputPlaceholders
        omega
    · refine hturn.congr (by cases w <;> rfl) ?_ (Dict.get?_insert_ne hne.symm) id
      rw [Scheduler.putRequest_requests, Dict.get?_insert_ne hne.symm]
      cases w <;> rfl
  | requeue => exact hturn.congr rfl rfl rfl id

theorem InTurn.scheduleSteps (h : ScheduleSteps E x y)
    (hok : QueuesOk x.1 x.2.stepSkippedWaiting) (hturn : InTurn maxModelLen r q₀ x) :
    InTurn maxModelLen r q₀ y := by
  induction h with
  | refl => exact hturn
  | tail hsteps hstep ih => exact ih.scheduleStep hstep (QueuesOk.scheduleSteps hsteps hok)

theorem InTurn.init (hq : s.requests.get? r = some q) :
    InTurn s.config.maxModelLen r q (s, .init s.config) :=
  ⟨rfl, q, hq, .refl q, rfl, fun _ _ => rfl, fun h h' => absurd h' h, fun h h' => absurd h h',
    fun n hn => by simp [StepState.init] at hn⟩

end Schedule

/-! ### What no call changes -/

structure SameSetup (s s' : Scheduler κ) : Prop where
  config : s'.config = s.config
  connector : s'.connector.isSome = s.connector.isSome

theorem SameSetup.refl (s : Scheduler κ) : SameSetup s s := ⟨rfl, rfl⟩

theorem SameSetup.trans (h : SameSetup s₁ s₂) (h' : SameSetup s₂ s₃) :
    SameSetup s₁ s₃ :=
  ⟨h'.config.trans h.config, h'.connector.trans h.connector⟩

section Setup

variable {E : CacheEnv κ} {s s' : Scheduler κ} {r : ReqId} {q : Request} {now : Nat}

theorem updateConnectorAfterAlloc_setup {ext : Nat}
    (h : s.updateConnectorAfterAlloc r q ext = .ok (s', q')) : SameSetup s s' := by
  rcases updateConnectorAfterAlloc_ok h with ⟨-, rfl, -⟩ | ⟨c, c', hc, -, rfl⟩
  · exact .refl _
  · exact ⟨rfl, by rw [hc]; rfl⟩

theorem popRequest_setup (s : Scheduler κ) (r : ReqId) (w : Scheduler.WaitingQueue) :
    SameSetup s (s.popRequest r w) := by
  cases w <;> exact ⟨rfl, rfl⟩

theorem ScheduleStep.setup (h : ScheduleStep E x y) :
    SameSetup x.1 y.1 := by
  cases h with
  | allocateFails => exact ⟨rfl, rfl⟩
  | preempt => exact ⟨rfl, rfl⟩
  | run => exact ⟨rfl, rfl⟩
  | promote _ _ _ hupdate =>
    obtain ⟨kv, rfl, -⟩ := updateWaitingForRemoteKv_ok hupdate
    exact ⟨rfl, rfl⟩
  | skip => exact popRequest_setup _ _ _
  | @load s st a w q m kv blocks s' q' _ _ _ _ _ _ _ hupdate =>
    have hset : SameSetup (s.setKv kv) s' := updateConnectorAfterAlloc_setup hupdate
    have hpop := hset.trans (popRequest_setup s' a w)
    exact ⟨hpop.config, hpop.connector⟩
  | @start s st a w q m n kv blocks s' q' _ _ _ _ _ _ _ _ _ hupdate =>
    have hset : SameSetup (s.setKv kv) s' := updateConnectorAfterAlloc_setup hupdate
    have hpop := hset.trans (popRequest_setup s' a w)
    exact ⟨hpop.config, hpop.connector⟩
  | requeue => exact ⟨rfl, rfl⟩

theorem ScheduleSteps.setup (h : ScheduleSteps E x y) :
    SameSetup x.1 y.1 := by
  induction h with
  | refl => exact .refl _
  | tail _ hstep ih => exact ih.trans hstep.setup

theorem takeConnectorMeta_setup (s : Scheduler κ) : SameSetup s s.takeConnectorMeta.1 := by
  unfold Scheduler.takeConnectorMeta
  split
  · exact .refl s
  · next c hc => exact ⟨rfl, by rw [hc]; rfl⟩

theorem finishSchedule_setup {st : StepState} {out : SchedulerOutput}
    (h : s.finishSchedule st = .ok (out, s')) : SameSetup s s' := by
  obtain ⟨-, hupdate, -⟩ := finishSchedule_ok h
  rw [updateAfterSchedule_frame hupdate]
  have hset := takeConnectorMeta_setup s
  exact ⟨hset.config, hset.connector⟩

theorem freeBlocks_setup (h : s.freeBlocks r = .ok s') : SameSetup s s' := by
  obtain ⟨_, _, -, -, -, rfl⟩ := freeBlocks_ok h
  exact ⟨rfl, rfl⟩

theorem freeRequest_setup {delay : Bool} {params : Option KVTransferParams}
    (h : s.freeRequest r q delay now = .ok (params, s')) : SameSetup s s' := by
  obtain ⟨-, connectorDelay, s₁, hfin, hend⟩ := freeRequest_ok h
  have hs₁ : SameSetup s s₁ := by
    rcases connectorFinished_ok hfin with ⟨-, -, rfl⟩ | ⟨c, kv, c', q', hc, -, -, rfl⟩
    · exact ⟨rfl, rfl⟩
    · exact ⟨rfl, by rw [show s.connector = some c from hc]; rfl⟩
  have hlog : SameSetup s (s₁.logHandoff r params) := by
    cases params <;> exact ⟨hs₁.config, hs₁.connector⟩
  rcases hend with ⟨-, rfl⟩ | ⟨-, -, hfree⟩
  · exact ⟨hlog.config, hlog.connector⟩
  · exact hlog.trans (freeBlocks_setup hfree)

end Setup

/-! ### One request in `update_from_output` -/

def Ended (s : Scheduler κ) (r : ReqId) : Prop :=
  ∀ q, s.requests.get? r = some q → q.isFinished = true

/-- Unfinished requests are left alone, and none comes up. -/
structure Spares (s s' : Scheduler κ) : Prop where
  setup : SameSetup s s'
  ended : ∀ r, Ended s r → Ended s' r
  live : ∀ r q, s.requests.get? r = some q → q.isFinished = false → s'.requests.get? r = some q

theorem Spares.refl (s : Scheduler κ) : Spares s s := ⟨.refl s, fun _ h => h, fun _ _ h _ => h⟩

theorem Spares.trans (h : Spares s₁ s₂) (h' : Spares s₂ s₃) :
    Spares s₁ s₃ where
  setup := h.setup.trans h'.setup
  ended r hr := h'.ended r (h.ended r hr)
  live r q hq hlive := h'.live r q (h.live r q hq hlive) hlive

section Update

variable {E : CacheEnv κ} {s s' : Scheduler κ} {r : ReqId} {q : Request} {now : Nat}

theorem Ended.congr (h : Ended s r) (hget : s'.requests.get? r = s.requests.get? r) :
    Ended s' r := fun q hq => h q (hget.symm.trans hq)

theorem ended_or_live (s : Scheduler κ) (r : ReqId) :
    Ended s r ∨ ∃ q, s.requests.get? r = some q ∧ q.isFinished = false := by
  by_cases h : ∃ q, s.requests.get? r = some q ∧ q.isFinished = false
  · exact .inr h
  · refine .inl fun q hq => ?_
    by_contra hne
    exact h ⟨q, hq, by simpa using hne⟩

theorem Ended.not_live (h : Ended s r) (hq : s.requests.get? r = some q) :
    q.isFinished ≠ false := by
  rw [h q hq]
  exact Bool.true_eq_false.mp

theorem freeBlocks_spares (h : s.freeBlocks r = .ok s') : Spares s s' := by
  refine ⟨freeBlocks_setup h, fun a ha => ?_, fun a q hq hlive => ?_⟩
  · obtain ⟨_, _, -, -, -, rfl⟩ := freeBlocks_ok h
    intro q hq
    rcases eq_or_ne r a with rfl | hne
    · rw [Dict.get?_erase_self] at hq
      cases hq
    · exact ha q ((Dict.get?_erase_ne hne).symm.trans hq)
  · obtain ⟨q', _, hq', hfinished, -, rfl⟩ := freeBlocks_ok h
    refine (Dict.get?_erase_ne ?_).trans hq
    rintro rfl
    rw [some_unique hq' hq, hlive] at hfinished
    cases hfinished

theorem freeRequest_ended {delay : Bool} {params : Option KVTransferParams}
    (h : s.freeRequest r q delay now = .ok (params, s')) : Ended s' r := by
  intro q' hq'
  rcases freeRequest_self h with hnone | ⟨transfer, hsome⟩
  · rw [hnone] at hq'
    cases hq'
  · obtain rfl := some_unique hsome hq'
    exact (freeRequest_ok h).1

theorem finishedRecving_spares (h : s.finishedRecving r = .ok s') : Spares s s' := by
  simp only [Scheduler.finishedRecving, except_bind_eq_ok, getRequest_eq_ok, assert_eq_ok] at h
  obtain ⟨-, -, q, -, h⟩ := h
  split at h
  · obtain rfl := Except.ok.inj h
    exact ⟨⟨rfl, rfl⟩, fun _ h => h, fun _ _ h _ => h⟩
  · rw [assert_bind_eq_ok] at h
    exact freeBlocks_spares h.2

theorem finishedSending_spares (h : s.finishedSending r = .ok s') : Spares s s' := by
  rw [Scheduler.finishedSending, assert_bind_eq_ok] at h
  exact freeBlocks_spares h.2

theorem updateFromKvXferFinished_spares
    (h : s.updateFromKvXferFinished kv = .ok s') : Spares s s' := by
  simp only [Scheduler.updateFromKvXferFinished, except_bind_eq_ok] at h
  obtain ⟨s₁, hrecv, hsend⟩ := h
  have hs₁ : Spares s s₁ := foldlM_invariant
    (fun _ _ _ _ ht h => ht.trans (finishedRecving_spares h)) (.refl s) hrecv
  exact foldlM_invariant (P := Spares s) (fun _ _ _ _ ht h => ht.trans (finishedSending_spares h))
    hs₁ hsend

/-- The token `t` in an unfinished request `q`; `async` tells whether it was waited for. -/
def withToken (async : Bool) (q : Request) (t : TokenId) : Request :=
  { q.appendOutputTokenIds [t] with
    numOutputPlaceholders := q.numOutputPlaceholders - if async then 1 else 0
    prefillStats := false }

/-- The request `q` after the token `t` ended it. -/
def stoppedBy (async : Bool) (maxModelLen : Nat) (q : Request) (t : TokenId) : Request :=
  { (Request.stopAfterToken maxModelLen (q.appendOutputTokenIds [t])).1 with
    numOutputPlaceholders := q.numOutputPlaceholders - if async then 1 else 0
    prefillStats := false }

theorem stoppedBy_ending (async : Bool) {maxModelLen : Nat}
    {ending : RequestStatus × Option StopReason}
    (h : (q.appendOutputTokenIds [t]).ending maxModelLen = some ending) :
    (stoppedBy async maxModelLen q t).status = ending.1 ∧
      (stoppedBy async maxModelLen q t).stopReason = ending.2.or q.stopReason := by
  obtain ⟨q₁, stopped, hstop⟩ : ∃ q₁ stopped, Request.stopAfterToken maxModelLen
    (q.appendOutputTokenIds [t]) = (q₁, stopped) := ⟨_, _, rfl⟩
  rw [stoppedBy, hstop]
  exact (Request.stopAfterToken_ending hstop).2 ending h

/-- What the token `t` of a step does to the unfinished request `q`, with the outputs for it. -/
inductive Outcome (s : Scheduler κ) (r : ReqId) (q : Request) (t : TokenId) (now : Nat)
    (s' : Scheduler κ) : List (ReqId × EngineCoreOutput) → Prop where
  | goes
      (hgoes : (q.appendOutputTokenIds [t]).ending s.config.maxModelLen = none)
      (hget : s'.requests.get? r = some (withToken s.config.asyncScheduling q t)) :
      Outcome s r q t now s'
        [(r, (withToken s.config.asyncScheduling q t).toOutput [t] false none)]
  | stops {params delay s₁ s₂}
      (hstops : ((q.appendOutputTokenIds [t]).ending s.config.maxModelLen).isSome = true)
      (hended : Ended s' r)
      (hsetup : SameSetup s s₁)
      (hparams : s₁.connectorFinished r
        (stoppedBy s.config.asyncScheduling s.config.maxModelLen q t) now =
          .ok ((delay, params), s₂)) :
      Outcome s r q t now s'
        [(r, (stoppedBy s.config.asyncScheduling s.config.maxModelLen q t).toOutput [t] true
          params)]

theorem Outcome.congr {s₀ : Scheduler κ}
    {outs : List (ReqId × EngineCoreOutput)} (h : Outcome s r q t now s₁ outs)
    (hsetup : SameSetup s₀ s) (hlive : q.isFinished = false)
    (hkeeps : ∀ q', s₁.requests.get? r = some q' → q'.isFinished = false →
    s'.requests.get? r = some q')
    (hended : Ended s₁ r → Ended s' r) : Outcome s₀ r q t now s' outs := by
  have hconfig := hsetup.config
  cases h with
  | goes hgoes hget =>
    rw [hconfig] at hgoes hget ⊢
    exact .goes hgoes (hkeeps _ hget hlive)
  | stops hstops hend hs₁ hparams =>
    rw [hconfig] at hstops hparams ⊢
    exact .stops hstops (hended hend) (hsetup.trans hs₁) hparams

theorem updateRequestWithOutput_token {used : List TokenId} {stopped : Bool} {kv : KVCacheManager κ}
    (h : s.updateRequestWithOutput E q [t] = .ok (q', used, stopped, kv)) :
    used = [t] ∧
      stopped = (Request.stopAfterToken s.config.maxModelLen (q.appendOutputTokenIds [t])).2 ∧
      q' = { (Request.stopAfterToken s.config.maxModelLen (q.appendOutputTokenIds [t])).1 with
        numOutputPlaceholders :=
          q.numOutputPlaceholders - if s.config.asyncScheduling then 1 else 0 } := by
  have hplace : (Request.stopAfterToken s.config.maxModelLen
      (q.appendOutputTokenIds [t])).1.numOutputPlaceholders = q.numOutputPlaceholders := by
    obtain ⟨r', stopped', hstop⟩ : ∃ r' stopped', Request.stopAfterToken s.config.maxModelLen
      (q.appendOutputTokenIds [t]) = (r', stopped') := ⟨_, _, rfl⟩
    rw [hstop]
    cases stopped' with
    | true =>
      obtain ⟨_, _, _, rfl, -⟩ := Request.stopAfterToken_true hstop
      rfl
    | false =>
      obtain rfl := Request.stopAfterToken_false hstop
      rfl
  obtain ⟨q₁, hupdate, rfl, -⟩ := updateRequestWithOutput_ok h
  rw [Request.updateWithOutput_singleton] at hupdate
  simp only [Prod.mk.injEq] at hupdate
  obtain ⟨rfl, rfl, rfl⟩ := hupdate
  exact ⟨rfl, rfl, by rw [hplace]; rfl⟩

theorem updateRequest_token {u u' : Scheduler.UpdateState}
    (h : s.updateRequest E u r q [t] now = .ok (s', u')) :
    SameSetup s s' ∧ (∀ a, a ≠ r → s'.requests.get? a = s.requests.get? a) ∧
      ∃ outs, u'.outputs = u.outputs ++ outs ∧ Outcome s r q t now s' outs := by
  rw [Scheduler.updateRequest, if_neg (by simp)] at h
  simp only [except_bind_eq_ok, Prod.exists] at h
  obtain ⟨q', used, stopped, kv, hupdate, h⟩ := h
  obtain ⟨rfl, hstopped, rfl⟩ := updateRequestWithOutput_token hupdate
  obtain ⟨q₁, stopped', hstop⟩ : ∃ q₁ stopped', Request.stopAfterToken s.config.maxModelLen
    (q.appendOutputTokenIds [t]) = (q₁, stopped') := ⟨_, _, rfl⟩
  have hq₁ : stoppedBy s.config.asyncScheduling s.config.maxModelLen q t = { q₁ with
      numOutputPlaceholders := q.numOutputPlaceholders - if s.config.asyncScheduling then 1 else 0
      prefillStats := false } := by
    rw [stoppedBy, hstop]
  have hend := (Request.stopAfterToken_ending hstop).1
  rw [hstop] at hstopped h
  obtain rfl : stopped = stopped' := hstopped
  simp only at h
  rw [← hq₁] at h
  cases stopped with
  | true =>
    simp only [if_true, except_bind_eq_ok, Prod.exists] at h
    obtain ⟨params, s₁, hfree, hok⟩ := h
    obtain ⟨rfl, rfl⟩ := ok_pair_inj hok
    have hsetup := freeRequest_setup hfree
    have hframe := freeRequest_frame hfree
    obtain ⟨-, delay, s₂, hfin, -⟩ := freeRequest_ok hfree
    have hended := freeRequest_ended hfree
    have hput : SameSetup s ((s.setKv kv).putRequest r
        (stoppedBy s.config.asyncScheduling s.config.maxModelLen q t)) := ⟨rfl, rfl⟩
    refine ⟨⟨hsetup.config, hsetup.connector⟩, fun a ha => hframe.requests a ha,
      _, ?_, .stops hend.symm hended hput hfin⟩
    split <;> rfl
  | false =>
    simp only [Bool.false_eq_true, if_false, Except.ok.injEq, Prod.mk.injEq] at h
    obtain ⟨rfl, rfl⟩ := h
    obtain rfl := Request.stopAfterToken_false hstop
    refine ⟨⟨rfl, rfl⟩, fun a ha => Dict.get?_insert_ne ha.symm, _, ?_,
      .goes (by simpa using hend.symm) ?_⟩
    · rw [hq₁]
      rfl
    · rw [hq₁]
      exact Dict.get?_insert_self

def outputsOf (outs : List (ReqId × EngineCoreOutput)) (r : ReqId) :
    List (ReqId × EngineCoreOutput) := outs.filter (·.1 = r)

theorem outputsOf_append (outs outs' : List (ReqId × EngineCoreOutput)) (r : ReqId) :
    outputsOf (outs ++ outs') r = outputsOf outs r ++ outputsOf outs' r :=
  List.filter_append ..

theorem Outcome.ids {outs : List (ReqId × EngineCoreOutput)}
    (h : Outcome s r q t now s' outs) : ∃ o, outs = [(r, o)] := by
  cases h <;> exact ⟨_, rfl⟩

theorem outputsOf_self {o : EngineCoreOutput} : outputsOf [(r, o)] r = [(r, o)] := by
  simp [outputsOf]

theorem outputsOf_other {a : ReqId} {o : EngineCoreOutput} (h : r ≠ a) :
    outputsOf [(r, o)] a = [] := by
  simp [outputsOf, h]

/-- A part of `update_from_output` for the request `r`: nothing, or the token of the step. -/
structure Handles (sampled : ReqId → List TokenId) (now : Nat) (scheduled : Prop)
    (s s' : Scheduler κ) (outs : List (ReqId × EngineCoreOutput)) (r : ReqId) : Prop where
  ended : Ended s r → Ended s' r ∧ outs = []
  idle : ∀ q, s.requests.get? r = some q → q.isFinished = false → (scheduled → sampled r = []) →
    s'.requests.get? r = some q ∧ outs = []
  token : ∀ q t, s.requests.get? r = some q → q.isFinished = false → scheduled →
    sampled r = [t] → Outcome s r q t now s' outs

variable {sampled : ReqId → List TokenId}

theorem Handles.after {scheduled : Prop}
    {outs : List (ReqId × EngineCoreOutput)} (h : Handles sampled now scheduled s s₁ outs r)
    (hspares : Spares s₁ s') : Handles sampled now scheduled s s' outs r where
  ended hr := ⟨hspares.ended r (h.ended hr).1, (h.ended hr).2⟩
  idle q hq hlive hidle := by
    obtain ⟨hget, houts⟩ := h.idle q hq hlive hidle
    exact ⟨hspares.live r q hget hlive, houts⟩
  token q t hq hlive hsched ht :=
    (h.token q t hq hlive hsched ht).congr (.refl s) hlive (hspares.live r) (hspares.ended r)

theorem updateLoop_request {entries : List (ReqId × Nat)}
    {u u' : Scheduler.UpdateState} (hnodup : (entries.map Prod.fst).Nodup)
    (hone : ∀ a, sampled a = [] ∨ ∃ t, sampled a = [t])
    (h : Scheduler.updateLoop E [] sampled now entries s u = .ok (s', u')) :
    SameSetup s s' ∧ ∀ r, ∃ outs, outputsOf u'.outputs r = outputsOf u.outputs r ++ outs ∧
      Handles sampled now (r ∈ entries.map Prod.fst) s s' outs r := by
  induction entries generalizing s u with
  | nil =>
    obtain ⟨rfl, rfl⟩ := ok_pair_inj h
    exact ⟨.refl s, fun r => ⟨[], (List.append_nil _).symm, fun h => ⟨h, rfl⟩,
      fun q hq _ _ => ⟨hq, rfl⟩, fun _ _ _ _ hmem => absurd hmem (by simp)⟩⟩
  | cons entry entries ih =>
    obtain ⟨a, n⟩ := entry
    rw [List.map_cons, List.nodup_cons] at hnodup
    rw [Scheduler.updateLoop, assert_bind_eq_ok, if_neg List.not_mem_nil] at h
    obtain ⟨-, h⟩ := h
    -- the entry does nothing
    have hskip : (∀ q, s.requests.get? a = some q → q.isFinished = false → sampled a = []) →
        Scheduler.updateLoop E [] sampled now entries s u = .ok (s', u') →
        SameSetup s s' ∧ ∀ r, ∃ outs, outputsOf u'.outputs r = outputsOf u.outputs r ++ outs ∧
          Handles sampled now (r ∈ ((a, n) :: entries).map Prod.fst) s s' outs r := by
      intro hidle h
      obtain ⟨hsetup, hall⟩ := ih hnodup.2 h
      refine ⟨hsetup, fun r => ?_⟩
      obtain ⟨outs, houts, hr⟩ := hall r
      refine ⟨outs, houts, hr.ended, fun q hq hlive hnone => ?_, fun q t hq hlive hmem ht => ?_⟩
      · exact hr.idle q hq hlive fun hmem => hnone (List.mem_cons_of_mem _ hmem)
      · rcases List.mem_cons.mp hmem with rfl | hmem
        · rw [hidle q hq hlive] at ht
          cases ht
        · exact hr.token q t hq hlive hmem ht
    split at h
    · next hnone =>
      exact hskip (fun q hq => by rw [hnone] at hq; cases hq) h
    · next q hq =>
      split at h
      · next hfinished =>
        refine hskip (fun q' hq' hlive => ?_) h
        rw [some_unique hq hq', hlive] at hfinished
        cases hfinished
      · next hlive =>
        rw [Bool.not_eq_true] at hlive
        simp only [except_bind_eq_ok, Prod.exists] at h
        obtain ⟨s₁, u₁, hupdate, h⟩ := h
        rcases hone a with hempty | ⟨t, ht⟩
        · rw [hempty, Scheduler.updateRequest, if_pos rfl] at hupdate
          obtain ⟨rfl, rfl⟩ := ok_pair_inj hupdate
          exact hskip (fun _ _ _ => hempty) h
        · rw [ht] at hupdate
          obtain ⟨hs₁, hother, outs₁, hu₁, houtcome⟩ := updateRequest_token hupdate
          obtain ⟨o, rfl⟩ := houtcome.ids
          obtain ⟨hsetup, hall⟩ := ih hnodup.2 h
          refine ⟨hs₁.trans hsetup, fun r => ?_⟩
          obtain ⟨outs, houts, hr⟩ := hall r
          rw [hu₁, outputsOf_append, List.append_assoc] at houts
          rcases eq_or_ne a r with rfl | hne
          · -- the rest of the loop does not come back to this request
            rw [outputsOf_self] at houts
            have hrest : ∀ q', s₁.requests.get? a = some q' → q'.isFinished = false →
                s'.requests.get? a = some q' ∧ outs = [] := fun q' hq' hlive' =>
              hr.idle q' hq' hlive' fun hmem => absurd hmem hnodup.1
            have hnil : outs = [] := by
              cases houtcome with
              | goes _ hget => exact (hrest _ hget hlive).2
              | stops _ hended => exact (hr.ended hended).2
            subst hnil
            rw [List.append_nil] at houts
            refine ⟨_, houts, fun hended => ?_, fun q' hq' hlive' hidle => ?_,
              fun q' t' hq' hlive' _ ht' => ?_⟩
            · exact absurd (hended q hq) (by simp [hlive])
            · rw [hidle List.mem_cons_self] at ht
              cases ht
            · obtain rfl := some_unique hq hq'
              obtain ⟨rfl, -⟩ := List.cons.inj (ht.symm.trans ht')
              exact houtcome.congr (.refl s) hlive' (fun q' hq' hl => (hrest q' hq' hl).1)
                fun h => (hr.ended h).1
          · rw [outputsOf_other hne, List.nil_append] at houts
            have hget := hother r hne.symm
            have hmem : r ∈ ((a, n) :: entries).map Prod.fst ↔ r ∈ entries.map Prod.fst := by
              simp [hne.symm]
            refine ⟨outs, houts, fun hended => hr.ended (hended.congr hget), ?_, ?_⟩
            · rw [hmem, ← hget]
              exact hr.idle
            · rw [hmem, ← hget]
              intro q' t' hq' hlive' hmem' ht'
              exact (hr.token q' t' hq' hlive' hmem' ht').congr hs₁ hlive' (fun _ h _ => h) id

theorem updateFromOutput_request {out : SchedulerOutput} {outs : List (ReqId × EngineCoreOutput)}
    (hvalid : kv.invalidBlockIds = []) (hone : ∀ a, sampled a = [] ∨ ∃ t, sampled a = [t])
    (h : s.updateFromOutput E out sampled kv now = .ok (outs, s')) :
    SameSetup s s' ∧ ∀ r, Handles sampled now (r ∈ out.numScheduledTokens.keys) s s'
      (outputsOf outs r) r := by
  simp only [Scheduler.updateFromOutput, except_bind_eq_ok, Prod.exists] at h
  obtain ⟨failed, s₁, hcheck, s₂, u, hloop, s₃, hfail, s₄, hxfer, hok⟩ := h
  obtain ⟨rfl, rfl⟩ := ok_pair_inj hok
  rw [Scheduler.checkInvalidBlocks, if_neg (by simp [hvalid])] at hcheck
  obtain ⟨rfl, rfl⟩ := ok_pair_inj hcheck
  rw [Scheduler.failRequests, if_neg (by simp)] at hfail
  obtain rfl := Except.ok.inj hfail
  obtain ⟨hsetup, hall⟩ := updateLoop_request out.numScheduledTokens.nodup hone hloop
  have hremove : Spares s₂ (s₂.removeStopped u) :=
    ⟨⟨rfl, rfl⟩, fun _ h => h, fun _ _ h _ => h⟩
  have hspares := hremove.trans (updateFromKvXferFinished_spares hxfer)
  refine ⟨hsetup.trans hspares.setup, fun r => ?_⟩
  obtain ⟨outs, houts, hr⟩ := hall r
  have hnil : outputsOf ({} : Scheduler.UpdateState).outputs r = [] := rfl
  rw [hnil, List.nil_append] at houts
  rw [houts]
  exact hr.after hspares

/-! ### Requests that are finished from outside -/

structure MayEnd (s s' : Scheduler κ) : Prop where
  setup : SameSetup s s'
  ended : ∀ r, Ended s r → Ended s' r
  live : ∀ r q, s.requests.get? r = some q → q.isFinished = false →
    s'.requests.get? r = some q ∨ Ended s' r

theorem MayEnd.refl (s : Scheduler κ) : MayEnd s s :=
  ⟨.refl s, fun _ h => h, fun _ _ h _ => .inl h⟩

theorem MayEnd.trans (h : MayEnd s₁ s₂) (h' : MayEnd s₂ s₃) :
    MayEnd s₁ s₃ where
  setup := h.setup.trans h'.setup
  ended r hr := h'.ended r (h.ended r hr)
  live r q hq hlive := by
    rcases h.live r q hq hlive with hget | hend
    · exact h'.live r q hget hlive
    · exact .inr (h'.ended r hend)

theorem beforeFree_requests (s : Scheduler κ) (r : ReqId) (q : Request) :
    (beforeFree s r q).requests = s.requests ∧ SameSetup s (beforeFree s r q) := by
  unfold beforeFree leaveQueues
  split
  · split <;> exact ⟨rfl, rfl, rfl⟩
  · split <;> exact ⟨rfl, rfl, rfl⟩

theorem Finishes.mayEnd (h : Finishes now r s s') : MayEnd s s' := by
  obtain ⟨q, status, params, hq, hlive, -, hfree⟩ := h
  obtain ⟨hrequests, hbefore⟩ := beforeFree_requests s r q
  have hframe := freeRequest_frame hfree
  have hself := freeRequest_ended hfree
  have hother : ∀ a, a ≠ r → s'.requests.get? a = s.requests.get? a := fun a ha => by
    rw [hframe.requests a ha, hrequests]
  refine ⟨hbefore.trans (freeRequest_setup hfree), fun a ha => ?_, fun a q' hq' _ => ?_⟩
  · rcases eq_or_ne a r with rfl | hne
    · exact hself
    · exact ha.congr (hother a hne)
  · rcases eq_or_ne a r with rfl | hne
    · exact .inr hself
    · exact .inl ((hother a hne).trans hq')

theorem FinishSteps.mayEnd (h : FinishSteps now s s') : MayEnd s s' := by
  induction h with
  | refl => exact .refl s
  | tail _ hstep ih =>
    obtain ⟨r, hfinish⟩ := hstep
    exact ih.trans hfinish.mayEnd

end Update

/-! ### Steps of the engine -/

namespace EngineCore

variable {ids : List ReqId} {status : RequestStatus} {req : EngineCoreRequest}

section Steps

variable {E : CacheEnv κ} {e e' : EngineCore κ} {r : ReqId} {q : Request}

inductive Scheduled (config : SchedulerConfig) (out : SchedulerOutput) (r : ReqId) (q₀ : Request) :
    Request → Prop where
  | passed {q₁} (hturn : Turn config.maxModelLen q₀ q₁ none out.preemptedReqIds)
      (hnone : out.numScheduledTokens.get? r = none) (hsampled : r ∉ out.sampledReqs) :
      Scheduled config out r q₀ q₁
  | runs {q₁ n} (hturn : Turn config.maxModelLen q₀ q₁ (some n) out.preemptedReqIds)
      (hsome : out.numScheduledTokens.get? r = some n)
      (hcomputed : out.numComputedTokens r = q₁.numComputedTokens)
      (hsampled : r ∈ out.sampledReqs ↔
        (Scheduler.advance config.asyncScheduling q₁ n).isPrefillChunk = false) :
      Scheduled config out r q₀ (Scheduler.advance config.asyncScheduling q₁ n)

theorem step_schedule_requests (hok : Ok e) (h : step E e .schedule = some e') :
    ∃ out, e'.inFlight = e.inFlight ++ [out] ∧ e'.outputs = e.outputs ∧ e'.seen = e.seen ∧
      e.inFlight.length < e.scheduler.config.maxInFlight ∧
      SameSetup e.scheduler e'.scheduler ∧
      (∀ a ∈ out.sampledReqs, a ∈ out.numScheduledTokens.keys) ∧
      (∀ a n, out.numScheduledTokens.get? a = some n → ∃ q₀,
        e.scheduler.requests.get? a = some q₀ ∧ q₀.isFinished = false) ∧
      ∀ r, (e.scheduler.requests.get? r = none → e'.scheduler.requests.get? r = none) ∧
        ∀ q₀, e.scheduler.requests.get? r = some q₀ → ∃ q,
          e'.scheduler.requests.get? r = some q ∧ Scheduled e.scheduler.config out r q₀ q := by
  obtain ⟨hlt, out, s₁, st₁, s', hsteps, hskip, hfinish, rfl⟩ := step_schedule hok h
  have hsetup := ScheduleSteps.setup hsteps
  have hconfig : s₁.config = e.scheduler.config := hsetup.config
  obtain ⟨-, hupdate, htokens, hpre, -, hcomputed⟩ := finishSchedule_ok hfinish
  obtain ⟨c, hc⟩ := takeConnectorMeta_frame s₁
  rw [hc] at hupdate hcomputed
  have hsampled := updateAfterSchedule_sampled hupdate
  have hinit : ∀ {r q₀}, e.scheduler.requests.get? r = some q₀ →
      InTurn e.scheduler.config.maxModelLen r q₀ (s₁, st₁) := fun hq₀ =>
    InTurn.scheduleSteps hsteps hok.queues (.init hq₀)
  refine ⟨out, rfl, rfl, rfl, hlt, hsetup.trans (finishSchedule_setup hfinish), ?_, ?_,
    fun r => ⟨?_, ?_⟩⟩
  · intro a ha
    rw [htokens]
    exact hsampled a ha
  · intro a n hn
    rw [htokens] at hn
    have hrun : ScheduledRun s₁ st₁ :=
      ScheduledRun.scheduleSteps hsteps fun r n hr => by simp [StepState.init] at hr
    have hqueues := QueuesOk.scheduleSteps hsteps hok.queues
    obtain ⟨q, hq, hstatus⟩ := (hqueues.running a).mp (hrun a n hn).1
    obtain ⟨q₀, hq₀⟩ := ScheduleSteps.record hsteps hq
    obtain ⟨-, q', hq', hturn⟩ := hinit hq₀
    obtain rfl := some_unique hq hq'
    refine ⟨q₀, hq₀, ?_⟩
    rw [← hturn.same.isFinished, Request.isFinished, hstatus]
    rfl
  · intro hnone
    by_contra hne
    obtain ⟨q', hq'⟩ := Option.ne_none_iff_exists'.mp hne
    obtain ⟨q₁, hq₁, -⟩ := (Progress.finishSchedule hfinish).record r q' hq'
    obtain ⟨q₀, hq₀⟩ := ScheduleSteps.record hsteps hq₁
    rw [hnone] at hq₀
    cases hq₀
  · intro q₀ hq₀
    obtain ⟨-, q, hq, hturn⟩ := hinit hq₀
    simp only at hq hturn
    rw [← hpre] at hturn
    cases hcase : st₁.numScheduledTokens.get? r with
    | none =>
      have hkeys : r ∉ st₁.numScheduledTokens.keys := (Dict.get?_eq_none_iff _ _).mp hcase
      rw [hcase] at hturn
      refine ⟨q, (updateAfterSchedule_other hkeys hupdate).trans hq, .passed hturn ?_ ?_⟩
      · rw [htokens, hcase]
      · exact fun hmem => hkeys (hsampled r hmem)
    | some n =>
      rw [hcase] at hturn
      obtain ⟨q', hq', hget, hiff⟩ := updateAfterSchedule_scheduled
        st₁.numScheduledTokens.nodup hupdate ((Dict.get?_eq_some_iff _ _ _).mp hcase)
      obtain rfl := some_unique hq hq'
      simp only [hconfig] at hget hiff
      refine ⟨_, hget, .runs hturn (by rw [htokens, hcase]) ?_ hiff⟩
      rw [hcomputed]
      simp only [Scheduler.computedTokens, hq]

theorem step_update_requests {sampled : ReqId → TokenId} {now : Nat}
    (hvalid : kv.invalidBlockIds = []) (h : step E e (.update sampled kv now) = some e') :
    ∃ out rest outs, e.inFlight = out :: rest ∧ e'.inFlight = rest ∧
      e'.outputs = e.outputs ++ outs ∧ e'.seen = e.seen ∧ SameSetup e.scheduler e'.scheduler ∧
      ∀ r, Handles (sampledTokens out sampled) now (r ∈ out.numScheduledTokens.keys)
        e.scheduler e'.scheduler (outputsOf outs r) r := by
  simp only [step] at h
  split at h
  · cases h
  · next out rest hinFlight =>
    obtain ⟨⟨outs, s'⟩, hs', rfl⟩ := Option.map_eq_some_iff.mp h
    rw [toOption_eq_some] at hs'
    have hone : ∀ a, sampledTokens out sampled a = [] ∨ ∃ t, sampledTokens out sampled a = [t] := by
      intro a
      unfold sampledTokens
      split
      · exact .inr ⟨_, rfl⟩
      · exact .inl rfl
    obtain ⟨hsetup, hall⟩ := updateFromOutput_request hvalid hone hs'
    exact ⟨out, rest, outs, hinFlight, rfl, rfl, rfl, hsetup, hall⟩

theorem step_finish_requests {now : Nat} (h : step E e (.finish ids status now) = some e') :
    e'.inFlight = e.inFlight ∧ e'.outputs = e.outputs ∧ e'.seen = e.seen ∧
      MayEnd e.scheduler e'.scheduler := by
  obtain ⟨s', hsteps, rfl⟩ := step_finish h
  exact ⟨rfl, rfl, rfl, hsteps.mayEnd⟩

theorem step_add_requests {now : Nat} (h : step E e (.add req now) = some e') :
    req.requestId ∉ e.seen ∧ e'.inFlight = e.inFlight ∧ e'.outputs = e.outputs ∧
      e'.seen = insert req.requestId e.seen ∧
      MayEnd (added e.scheduler req.toRequest) e'.scheduler ∧
      (req.abortImmediately = false →
        e'.scheduler.requests.get? req.requestId = some req.toRequest) := by
  obtain ⟨hseen, -, s', hsteps, habort, rfl⟩ := step_add h
  refine ⟨hseen, rfl, rfl, rfl, hsteps.mayEnd, fun hnot => ?_⟩
  have hnot' : req.toRequest.abortImmediately = false := by
    rw [← hnot]
    unfold EngineCoreRequest.toRequest Request.init
    simp only
    split <;> rfl
  change s'.requests.get? req.requestId = _
  rw [habort hnot', ← toRequest_requestId req]
  exact Dict.get?_insert_self

theorem step_finish_other {now : Nat}
    (h : step E e (.finish ids status now) = some e') (hr : r ∉ ids) :
    e'.scheduler.requests.get? r = e.scheduler.requests.get? r := by
  obtain ⟨s', hs', rfl⟩ := Option.map_eq_some_iff.mp h
  rw [toOption_eq_some] at hs'
  exact finishRequests_other hr hs'

theorem step_add_other {now : Nat}
    (h : step E e (.add req now) = some e') (hr : r ≠ req.requestId) :
    e'.scheduler.requests.get? r = e.scheduler.requests.get? r := by
  simp only [step] at h
  split at h
  · cases h
  obtain ⟨s', hs', rfl⟩ := Option.map_eq_some_iff.mp h
  rw [toOption_eq_some] at hs'
  simp only [Scheduler.addRequestCore, Scheduler.addRequest, except_bind_eq_ok,
    assert_eq_ok] at hs'
  obtain ⟨s₁, ⟨-, -, hs₁⟩, hs'⟩ := hs'
  have hstatus : isBlockedWaitingStatus req.toRequest.status = false := by
    rw [toRequest_status]
    rfl
  rw [hstatus] at hs₁
  obtain rfl := Except.ok.inj hs₁
  have hadded : (added e.scheduler req.toRequest).requests.get? r =
      e.scheduler.requests.get? r :=
    Dict.get?_insert_ne (by rw [toRequest_requestId]; exact hr.symm)
  split at hs'
  · have hone : r ∉ [req.toRequest.requestId] := by
      rw [List.mem_singleton, toRequest_requestId]
      exact hr
    exact (finishRequests_other hone hs').trans hadded
  · obtain rfl := Except.ok.inj hs'
    exact hadded

def NoFailedLoad : Event → Prop
  | .update _ kv _ => kv.invalidBlockIds = []
  | _ => True

theorem step_setup {ev : Event} (hok : Ok e) (hev : NoFailedLoad ev)
    (h : step E e ev = some e') : SameSetup e.scheduler e'.scheduler := by
  cases ev with
  | add req now =>
    obtain ⟨-, -, -, -, hend, -⟩ := step_add_requests h
    exact ⟨hend.setup.config, hend.setup.connector⟩
  | schedule =>
    obtain ⟨out, -, -, -, -, hsetup, -⟩ := step_schedule_requests hok h
    exact hsetup
  | update sampled kv now =>
    obtain ⟨out, rest, outs, -, -, -, -, hsetup, -⟩ := step_update_requests hev h
    exact hsetup
  | finish ids status now => exact (step_finish_requests h).2.2.2.setup

end Steps

/-! ### Counters and steps under way -/

def underWay (outs : List SchedulerOutput) (r : ReqId) : Nat :=
  outs.countP fun out => r ∈ out.sampledReqs

/-- The tokens of the request that are under way come one after the other, the first of them at
position `n`. -/
def AtEnd (r : ReqId) : Nat → List SchedulerOutput → Prop
  | _, [] => True
  | n, out :: rest =>
    if r ∈ out.sampledReqs then out.tokensAfter r = n ∧ AtEnd r (n + 1) rest else AtEnd r n rest

section Count

variable {outs : List SchedulerOutput} {out : SchedulerOutput} {r : ReqId} {n : Nat}

theorem underWay_append_mem (h : r ∈ out.sampledReqs) :
    underWay (outs ++ [out]) r = underWay outs r + 1 := by
  simp [underWay, List.countP_append, h]

theorem underWay_append_not_mem (h : r ∉ out.sampledReqs) :
    underWay (outs ++ [out]) r = underWay outs r := by
  simp [underWay, List.countP_append, h]

theorem underWay_cons_mem (outs : List SchedulerOutput) (h : r ∈ out.sampledReqs) :
    underWay (out :: outs) r = underWay outs r + 1 := by
  simp [underWay, h]

theorem underWay_cons_not_mem (outs : List SchedulerOutput) (h : r ∉ out.sampledReqs) :
    underWay (out :: outs) r = underWay outs r := by
  simp [underWay, h]

theorem underWay_eq_zero (h : ∀ out ∈ outs, r ∉ out.sampledReqs) : underWay outs r = 0 := by
  simpa [underWay, List.countP_eq_zero] using h

theorem atEnd_append_not_mem (h : r ∉ out.sampledReqs) :
    AtEnd r n outs → AtEnd r n (outs ++ [out]) := by
  induction outs generalizing n with
  | nil => exact fun _ => by simp [AtEnd, h]
  | cons o outs ih =>
    simp only [List.cons_append, AtEnd]
    split
    · exact fun hend => ⟨hend.1, ih hend.2⟩
    · exact ih

theorem atEnd_append_mem (hafter : out.tokensAfter r = n + underWay outs r) :
    AtEnd r n outs → AtEnd r n (outs ++ [out]) := by
  induction outs generalizing n with
  | nil =>
    intro _
    simp only [List.nil_append, AtEnd]
    split
    · exact ⟨hafter, trivial⟩
    · trivial
  | cons o outs ih =>
    simp only [List.cons_append, AtEnd]
    split
    · next hmem =>
      rw [underWay_cons_mem outs hmem] at hafter
      exact fun hend => ⟨hend.1, ih (by omega) hend.2⟩
    · next hmem =>
      rw [underWay_cons_not_mem outs hmem] at hafter
      exact ih hafter

theorem atEnd_of_not_mem (h : ∀ out ∈ outs, r ∉ out.sampledReqs) : AtEnd r n outs := by
  induction outs with
  | nil => trivial
  | cons o outs ih =>
    rw [AtEnd, if_neg (h o List.mem_cons_self)]
    exact ih fun out hout => h out (List.mem_cons_of_mem _ hout)

end Count

/-- The counters of the unfinished request `q`, with the steps `outs` under way. -/
structure Counted (async : Bool) (outs : List SchedulerOutput) (r : ReqId) (q : Request) : Prop where
  placeholders : q.numOutputPlaceholders = if async then underWay outs r else 0
  ready : q.status = .running → underWay outs r = 0 → q.numComputedTokens < q.numTokens
  busy : q.status = .running → underWay outs r ≠ 0 →
    q.numComputedTokens + 1 = q.numTokens + underWay outs r
  atEnd : AtEnd r q.numTokens outs

structure Counts (e : EngineCore κ) : Prop where
  ok : Ok e
  sampled : ∀ out ∈ e.inFlight, ∀ r ∈ out.sampledReqs, r ∈ out.numScheduledTokens.keys
  counted : ∀ r q, e.scheduler.requests.get? r = some q → q.isFinished = false →
    Counted e.scheduler.config.asyncScheduling e.inFlight r q

section Counts

variable {E : CacheEnv κ} {e e' : EngineCore κ} {r : ReqId} {q : Request}

theorem Counts.waiting (h : Counts e) (hlt : e.inFlight.length < e.scheduler.config.maxInFlight)
    (hq : e.scheduler.requests.get? r = some q) (hlive : q.isFinished = false)
    (hwait : q.status ≠ .running) : underWay e.inFlight r = 0 := by
  refine underWay_eq_zero fun out hout hmem => ?_
  obtain ⟨n, hn⟩ := Dict.mem_keys_iff.mp (h.sampled out hout r hmem)
  rw [Dict.get?_eq_some_iff] at hn
  have hmax : e.scheduler.config.maxInFlight ≤ 2 := by
    unfold SchedulerConfig.maxInFlight
    split <;> omega
  have hinFlight := h.ok.inFlight
  match hcase : e.inFlight, hinFlight with
  | [], _ => simp [hcase] at hout
  | [o], hrun =>
    rw [hcase, List.mem_singleton] at hout
    subst hout
    exact hwait (hrun r n q hn hq hlive)
  | [_, _], _ =>
    rw [hcase] at hlt
    simp at hlt
    omega

theorem Counted.scheduled {config : SchedulerConfig} {outs : List SchedulerOutput}
    {out : SchedulerOutput} {q₀ : Request} (h : Counted config.asyncScheduling outs r q₀)
    (hsync : config.asyncScheduling = false → outs = [])
    (hwait : q₀.status ≠ .running → underWay outs r = 0)
    (hsched : Scheduled config out r q₀ q) :
    Counted config.asyncScheduling (outs ++ [out]) r q := by
  -- in both modes the placeholders are the tokens under way when a step is built
  have hplace : q₀.numOutputPlaceholders = underWay outs r := by
    rw [h.placeholders]
    cases hasync : config.asyncScheduling with
    | true => rfl
    | false =>
      rw [hsync hasync]
      rfl
  cases hsched with
  | passed hturn hnone hsampled =>
    refine ⟨?_, ?_, ?_, ?_⟩
    · rw [underWay_append_not_mem hsampled, hturn.placeholders]
      exact h.placeholders
    · rw [underWay_append_not_mem hsampled, hturn.same.numTokens]
      intro hrun hzero
      by_cases hrun₀ : q₀.status = .running
      · rw [hturn.kept hrun hrun₀]
        exact h.ready hrun₀ hzero
      · rw [← hturn.same.numTokens]
        exact hturn.started hrun hrun₀
    · rw [underWay_append_not_mem hsampled, hturn.same.numTokens]
      intro hrun hne
      by_cases hrun₀ : q₀.status = .running
      · rw [hturn.kept hrun hrun₀]
        exact h.busy hrun₀ hne
      · exact absurd (hwait hrun₀) hne
    · rw [hturn.same.numTokens]
      exact atEnd_append_not_mem hsampled h.atEnd
  | @runs q₁ n hturn hsome hcomputed hsampled =>
    obtain ⟨hrun, hpos, hle, -⟩ := hturn.scheduled n rfl
    have hplace₁ : q₁.numOutputPlaceholders = underWay outs r := hturn.placeholders.trans hplace
    have htokens : q₁.numTokens = q₀.numTokens := hturn.same.numTokens
    -- with tokens under way there is one token to schedule, and it is the last
    have hlast : underWay outs r ≠ 0 → q₁.numComputedTokens + 1 = q₁.numTokens + underWay outs r := by
      intro hne
      have hrun₀ : q₀.status = .running := by
        by_contra hnot
        exact hne (hwait hnot)
      rw [hturn.kept hrun hrun₀, htokens]
      exact h.busy hrun₀ hne
    rw [hplace₁] at hle
    have hchunk : (Scheduler.advance config.asyncScheduling q₁ n).isPrefillChunk =
        decide (q₁.numComputedTokens + n < q₁.numTokens + underWay outs r) := by
      simp only [Scheduler.advance, hplace₁]
    by_cases hmem : r ∈ out.sampledReqs
    · have hend : q₁.numComputedTokens + n = q₁.numTokens + underWay outs r := by
        have hnot := hsampled.mp hmem
        rw [hchunk, decide_eq_false_iff_not] at hnot
        omega
      refine ⟨?_, fun _ hzero => ?_, fun _ _ => ?_, ?_⟩
      · rw [underWay_append_mem hmem]
        simp only [Scheduler.advance, hplace₁, hend, lt_irrefl, decide_false, Bool.not_false,
          Bool.and_true]
        cases hasync : config.asyncScheduling with
        | true => rfl
        | false => rw [hsync hasync]; rfl
      · rw [underWay_append_mem hmem] at hzero
        omega
      · rw [underWay_append_mem hmem]
        change q₁.numComputedTokens + n + 1 = q₁.numTokens + (underWay outs r + 1)
        omega
      · change AtEnd r q₁.numTokens (outs ++ [out])
        refine atEnd_append_mem ?_ (htokens ▸ h.atEnd)
        rw [SchedulerOutput.tokensAfter, hcomputed, Dict.getD, hsome]
        exact hend
    · have hchunk' : q₁.numComputedTokens + n < q₁.numTokens + underWay outs r := by
        by_contra hnot
        refine hmem (hsampled.mpr ?_)
        rw [hchunk, decide_eq_false_iff_not]
        exact hnot
      have hzero : underWay outs r = 0 := by
        by_contra hne
        have := hlast hne
        omega
      rw [hzero] at hchunk'
      refine ⟨?_, fun _ _ => hchunk', fun _ hne => ?_, ?_⟩
      · rw [underWay_append_not_mem hmem, ← h.placeholders, ← hturn.placeholders]
        simp only [Scheduler.advance, hplace₁, hzero, hchunk', decide_true, Bool.not_true,
          Bool.and_false, Bool.false_eq_true, if_false]
      · rw [underWay_append_not_mem hmem] at hne
        exact absurd hzero hne
      · exact atEnd_append_not_mem hmem (htokens ▸ h.atEnd)

theorem Counts.schedule (h : Counts e) (hstep : step E e .schedule = some e') : Counts e' := by
  obtain ⟨out, hinFlight, -, -, hlt, hsetup, hsampled, -, hall⟩ := step_schedule_requests h.ok hstep
  refine ⟨h.ok.step hstep, fun o ho => ?_, fun r q' hq' hlive => ?_⟩
  · rw [hinFlight] at ho
    rcases List.mem_append.mp ho with ho | ho
    · exact h.sampled o ho
    · obtain rfl := List.mem_singleton.mp ho
      exact hsampled
  · obtain ⟨hnone, hsome⟩ := hall r
    cases hq₀ : e.scheduler.requests.get? r with
    | none =>
      rw [hnone hq₀] at hq'
      cases hq'
    | some q₀ =>
      obtain ⟨q, hq, hsched⟩ := hsome q₀ hq₀
      obtain rfl := some_unique hq hq'
      have hlive₀ : q₀.isFinished = false := by
        cases hsched with
        | passed hturn => exact hturn.same.isFinished ▸ hlive
        | runs hturn => exact hturn.same.isFinished ▸ hlive
      rw [hsetup.config, hinFlight]
      refine (h.counted r q₀ hq₀ hlive₀).scheduled (fun hsync => ?_)
        (fun hwait => h.waiting hlt hq₀ hlive₀ hwait) hsched
      rw [SchedulerConfig.maxInFlight, hsync] at hlt
      exact List.length_eq_zero_iff.mp (by simpa using hlt)

theorem Counted.token {async : Bool} {out : SchedulerOutput} {rest : List SchedulerOutput}
    (h : Counted async (out :: rest) r q) (hmem : r ∈ out.sampledReqs) :
    Counted async rest r (withToken async q t) := by
  have htokens : (withToken async q t).numTokens = q.numTokens + 1 := by
    simp [withToken, Request.numTokens, Request.allTokenIds, Request.appendOutputTokenIds]
    omega
  have hcount := underWay_cons_mem rest hmem
  have hbusy := h.busy
  have hend := h.atEnd
  rw [AtEnd, if_pos hmem] at hend
  refine ⟨?_, fun hrun hzero => ?_, fun hrun _ => ?_, htokens ▸ hend.2⟩
  · change q.numOutputPlaceholders - (if async then 1 else 0) = _
    rw [h.placeholders, hcount]
    cases async <;> rfl
  · have := hbusy hrun (by omega)
    rw [htokens]
    change q.numComputedTokens < _
    omega
  · have := hbusy hrun (by omega)
    rw [htokens]
    change q.numComputedTokens + 1 = _
    omega

theorem Counted.idle {async : Bool} {out : SchedulerOutput} {rest : List SchedulerOutput}
    (h : Counted async (out :: rest) r q) (hmem : r ∉ out.sampledReqs) :
    Counted async rest r q := by
  have hcount := underWay_cons_not_mem rest hmem
  have hend := h.atEnd
  rw [AtEnd, if_neg hmem] at hend
  exact ⟨hcount ▸ h.placeholders, hcount ▸ h.ready, hcount ▸ h.busy, hend⟩

theorem Counts.update {sampled : ReqId → TokenId} {now : Nat}
    (h : Counts e) (hvalid : kv.invalidBlockIds = [])
    (hstep : step E e (.update sampled kv now) = some e') : Counts e' := by
  obtain ⟨out, rest, outs, hinFlight, hrest, -, -, hsetup, hall⟩ :=
    step_update_requests hvalid hstep
  refine ⟨h.ok.step hstep, fun o ho => ?_, fun r q' hq' hlive' => ?_⟩
  · rw [hrest] at ho
    exact h.sampled o (hinFlight ▸ List.mem_cons_of_mem _ ho)
  · have hr := hall r
    obtain hended | ⟨q, hq, hlive⟩ := ended_or_live e.scheduler r
    · exact absurd hlive' ((hr.ended hended).1.not_live hq')
    have hcounted := h.counted r q hq hlive
    rw [hinFlight] at hcounted
    rw [hsetup.config, hrest]
    by_cases hmem : r ∈ out.sampledReqs
    · have hkey := h.sampled out (hinFlight ▸ List.mem_cons_self) r hmem
      have htoken : sampledTokens out sampled r = [sampled r] := if_pos hmem
      have houtcome := hr.token q _ hq hlive hkey htoken
      generalize outputsOf outs r = os at houtcome
      cases houtcome with
      | goes _ hget =>
        obtain rfl := some_unique hget hq'
        exact hcounted.token hmem
      | stops _ hended => exact absurd hlive' (hended.not_live hq')
    · have hidle : sampledTokens out sampled r = [] := if_neg hmem
      obtain ⟨hget, -⟩ := hr.idle q hq hlive fun _ => hidle
      obtain rfl := some_unique hget hq'
      exact hcounted.idle hmem

theorem Counts.mayEnd {s : Scheduler κ} (hok : Ok e')
    (hsampled : ∀ out ∈ e'.inFlight, ∀ r ∈ out.sampledReqs, r ∈ out.numScheduledTokens.keys)
    (hcounted : ∀ r q, s.requests.get? r = some q → q.isFinished = false →
      Counted s.config.asyncScheduling e'.inFlight r q)
    (hend : MayEnd s e'.scheduler) : Counts e' := by
  refine ⟨hok, hsampled, fun r q' hq' hlive' => ?_⟩
  rw [hend.setup.config]
  obtain hended | ⟨q, hq, hlive⟩ := ended_or_live s r
  · exact absurd hlive' ((hend.ended r hended).not_live hq')
  rcases hend.live r q hq hlive with hget | hended
  · obtain rfl := some_unique hget hq'
    exact hcounted r q hq hlive
  · exact absurd hlive' (hended.not_live hq')

theorem Counts.finish {now : Nat} (h : Counts e)
    (hstep : step E e (.finish ids status now) = some e') : Counts e' := by
  obtain ⟨hinFlight, -, -, hend⟩ := step_finish_requests hstep
  exact .mayEnd (h.ok.step hstep) (hinFlight ▸ h.sampled) (hinFlight ▸ h.counted) hend

theorem Counts.add {now : Nat} (h : Counts e)
    (hstep : step E e (.add req now) = some e') : Counts e' := by
  obtain ⟨hseen, hinFlight, -, -, hend, -⟩ := step_add_requests hstep
  refine .mayEnd (h.ok.step hstep) (hinFlight ▸ h.sampled) (fun r q hq hlive => ?_) hend
  rw [hinFlight]
  rcases eq_or_ne req.toRequest.requestId r with rfl | hne
  · obtain rfl := some_unique Dict.get?_insert_self hq
    have hnot : ∀ out ∈ e.inFlight, req.toRequest.requestId ∉ out.sampledReqs := by
      intro out hout hmem
      obtain ⟨n, hn⟩ := Dict.mem_keys_iff.mp (h.sampled out hout _ hmem)
      rw [Dict.get?_eq_some_iff] at hn
      rw [toRequest_requestId] at hn
      exact hseen (h.ok.seen_inFlight out hout _ n hn)
    refine ⟨?_, fun hrun => ?_, fun hrun => ?_, atEnd_of_not_mem hnot⟩
    · rw [underWay_eq_zero hnot, ite_self]
      unfold EngineCoreRequest.toRequest Request.init
      simp only
      split <;> rfl
    · rw [toRequest_status] at hrun
      cases hrun
    · rw [toRequest_status] at hrun
      cases hrun
  · exact h.counted r q ((Dict.get?_insert_ne hne).symm.trans hq) hlive

theorem Counts.step {ev : Event} (h : Counts e) (hev : NoFailedLoad ev)
    (hstep : EngineCore.step E e ev = some e') : Counts e' := by
  cases ev with
  | add req now => exact h.add hstep
  | schedule => exact h.schedule hstep
  | update sampled kv now => exact h.update hev hstep
  | finish ids status now => exact h.finish hstep

theorem Fresh.counts (h : Fresh e) : Counts e := by
  refine ⟨h.ok, fun out hout => ?_, fun r q hq => ?_⟩
  · simp [h.inFlight] at hout
  · simp [h.requests] at hq

end Counts

end EngineCore

end EldrServing.Sched
