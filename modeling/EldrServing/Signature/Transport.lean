import EldrServing.Sched.Outputs

/-!
# The rows a producer signs

`finishing_rows` of `vllm/eldr/transport.py` picks the requests of a step whose prompt is computed
by it, and raises when the step goes beyond a prompt. A prefill-first request stops with its first
token, but that is known only when the token is back.
-/

namespace EldrServing.Signature

set_option autoImplicit false
set_option linter.unusedSectionVars false

open Engine KVCache Nixl Sched

/-! ### The configuration -/

inductive KVRole where
  | kvProducer
  | kvConsumer
  | kvBoth
  deriving DecidableEq, Repr

inductive RunnerType where
  | generate
  | pooling
  | draft
  deriving DecidableEq, Repr

/-- What `validate_config` reads. -/
structure TransportConfig where
  /-- `ENABLED` of `transport` and of `signature`. -/
  enabled : Bool
  signatureEnabled : Bool
  /-- `kv_role` and `kv_connector`. -/
  kvTransfer : Option (KVRole × String)
  tensorParallelSize : Nat
  pipelineParallelSize : Nat
  enableExpertParallel : Bool
  speculative : Bool
  runnerType : RunnerType
  enforceEager : Bool
  blockSize : Nat
  maxModelLen : Nat

def validateConfig (config : TransportConfig) : Except PyError Unit :=
  if config.enabled = false then .ok ()
  else if config.signatureEnabled = false then
    .error (.valueError "Signature and transport enablement disagree")
  else if config.kvTransfer ≠ some (.kvProducer, "NixlConnector") then
    .error (.valueError "Async signatures currently require a NIXL-only producer")
  else if config.tensorParallelSize ≠ 1 ∨ config.pipelineParallelSize ≠ 1 ∨
      config.enableExpertParallel = true then
    .error (.valueError "Async signatures currently require TP=PP=1 without EP")
  else if config.speculative = true ∨ config.runnerType ≠ .generate then
    .error (.valueError "Async signatures currently require non-speculative generation")
  else if config.enforceEager = false then
    .error (.valueError "Async signature transport requires eager model execution")
  else if ¬ (0 < config.blockSize ∧ config.blockSize < 128) then
    .error (.valueError "Signed-int8 block counts require block_size < 128")
  else if 32767 < config.maxModelLen then
    .error (.valueError "Signed-int16 signatures require max_model_len <= 32767")
  else .ok ()

/-! ### The rows of one step -/

/-- What `finishing_rows` reads of the model runner's batch. -/
structure InputBatch where
  reqIdToIndex : Dict ReqId Nat
  numComputedTokensCpu : List Nat
  numPromptTokens : List Nat

structure FinishingRow where
  requestId : ReqId
  index : Nat
  numPromptTokens : Nat
  deriving DecidableEq, Repr

def InputBatch.getItem (values : List Nat) (index : Nat) : Except PyError Nat :=
  match values[index]? with
  | none => .error (.indexError "index out of range")
  | some value => .ok value

def finishingRows (batch : InputBatch) : List (ReqId × Nat) → Except PyError (List FinishingRow)
  | [] => .ok []
  | (rid, count) :: rest =>
    if count = 0 then finishingRows batch rest
    else
      match batch.reqIdToIndex.get? rid with
      | none => .error (.keyError "req_id_to_index")
      | some index => do
        let completed ← InputBatch.getItem batch.numComputedTokensCpu index
        let prompt ← InputBatch.getItem batch.numPromptTokens index
        if prompt < completed + count then
          .error (.valueError "Async signature producer must not execute decode tokens")
        else do
          let rows ← finishingRows batch rest
          .ok (if completed + count = prompt then ⟨rid, index, prompt⟩ :: rows else rows)

/-- The batch has the requests of the step `out`, with the computed tokens that the scheduler
sent. -/
def InputBatch.Holds (batch : InputBatch) (out : SchedulerOutput) (prompts : ReqId → Nat) : Prop :=
  ∀ r n, out.numScheduledTokens.get? r = some n → ∃ index,
    batch.reqIdToIndex.get? r = some index ∧
    batch.numComputedTokensCpu[index]? = some (out.numComputedTokens r) ∧
    batch.numPromptTokens[index]? = some (prompts r)

def FinishesPrompt (prompts : ReqId → Nat) (out : SchedulerOutput) (r : ReqId) : Prop :=
  r ∈ out.numScheduledTokens.keys ∧ out.tokensAfter r = prompts r

instance FinishesPrompt.decidable (prompts : ReqId → Nat) (out : SchedulerOutput) (r : ReqId) :
    Decidable (FinishesPrompt prompts out r) :=
  inferInstanceAs (Decidable (_ ∧ _))

section Rows

variable {batch : InputBatch} {out : SchedulerOutput} {prompts : ReqId → Nat}

theorem finishingRows_ok {entries : List (ReqId × Nat)}
    (hbatch : ∀ r n, (r, n) ∈ entries → ∃ index completed,
      batch.reqIdToIndex.get? r = some index ∧
      batch.numComputedTokensCpu[index]? = some completed ∧
      batch.numPromptTokens[index]? = some (prompts r) ∧
      0 < n ∧ completed + n ≤ prompts r ∧ completed + n = out.tokensAfter r) :
    ∃ rows, finishingRows batch entries = .ok rows ∧
      rows.map (·.requestId) =
        (entries.map Prod.fst).filter fun r => out.tokensAfter r = prompts r := by
  induction entries with
  | nil => exact ⟨[], rfl, rfl⟩
  | cons entry entries ih =>
    obtain ⟨r, n⟩ := entry
    obtain ⟨rows, hrows, hids⟩ := ih fun r n hmem => hbatch r n (List.mem_cons_of_mem _ hmem)
    obtain ⟨index, completed, hindex, hcompleted, hprompt, hpos, hle, hafter⟩ :=
      hbatch r n List.mem_cons_self
    have hrun : finishingRows batch ((r, n) :: entries) =
        .ok (if completed + n = prompts r then ⟨r, index, prompts r⟩ :: rows else rows) := by
      simp only [finishingRows, if_neg hpos.ne', hindex, InputBatch.getItem, hcompleted, hprompt]
      simp only [bind, Except.bind, if_neg (Nat.not_lt.mpr hle), hrows]
    refine ⟨_, hrun, ?_⟩
    rw [List.map_cons, List.filter_cons, ← hafter]
    by_cases heq : completed + n = prompts r
    · simp [heq, hids]
    · simp [heq, hids]

theorem finishingRows_of_holds (hholds : batch.Holds out prompts)
    (hwithin : ∀ r n, out.numScheduledTokens.get? r = some n → 0 < n ∧
      out.tokensAfter r ≤ prompts r) :
    ∃ rows, finishingRows batch out.numScheduledTokens.entries = .ok rows ∧
      ∀ r, r ∈ rows.map (·.requestId) ↔ FinishesPrompt prompts out r := by
  have hafter : ∀ r n, out.numScheduledTokens.get? r = some n →
      out.tokensAfter r = out.numComputedTokens r + n := fun r n hn => by
    rw [SchedulerOutput.tokensAfter, Dict.getD, hn]
    rfl
  have hbatch : ∀ r n, (r, n) ∈ out.numScheduledTokens.entries → ∃ index completed,
      batch.reqIdToIndex.get? r = some index ∧
      batch.numComputedTokensCpu[index]? = some completed ∧
      batch.numPromptTokens[index]? = some (prompts r) ∧
      0 < n ∧ completed + n ≤ prompts r ∧ completed + n = out.tokensAfter r := fun r n hmem => by
    have hn := (Dict.get?_eq_some_iff _ _ _).mpr hmem
    obtain ⟨index, hindex, hcompleted, hprompt⟩ := hholds r n hn
    obtain ⟨hpos, hle⟩ := hwithin r n hn
    rw [hafter r n hn] at hle
    exact ⟨index, _, hindex, hcompleted, hprompt, hpos, hle, (hafter r n hn).symm⟩
  obtain ⟨rows, hrows, hids⟩ := finishingRows_ok hbatch
  refine ⟨rows, hrows, fun r => ?_⟩
  rw [hids, List.mem_filter, decide_eq_true_iff]
  rfl

end Rows

/-! ### Runs of a producer -/

variable {κ : Type} [DecidableEq κ]

def scheduledSteps (E : CacheEnv κ) : EngineCore κ → List Event → List SchedulerOutput :=
  Machine.collect (EngineCore.step E) fun e _ e' => e'.inFlight.drop e.inFlight.length

def numSigned (prompts : ReqId → Nat) (steps : List SchedulerOutput) (r : ReqId) : Nat :=
  steps.countP fun out => FinishesPrompt prompts out r

structure AcceptedPrefill (req : EngineCoreRequest) : Prop where
  prefillFirst : (PrefillFirst.transferParams req.params).prefillFirst = true
  valid : ∃ config promptEmbeds,
    PrefillFirst.validate config req.params req.promptTokenIds promptEmbeds = .ok ()

structure Unsigned (async : Bool) (numPrompt : Nat) (q : Request) : Prop where
  prefillFirst : q.prefillFirst = true
  outputTokenIds : q.outputTokenIds = []
  numPromptTokens : q.numPromptTokens = numPrompt
  maxTokens : async = true → q.samplingParams.maxTokens = 1

/-- The requests of a producer and the steps so far; `aborted` are the requests that the frontend
aborts in the run. -/
structure Signs (prompts : ReqId → Nat) (aborted : ReqId → Prop) (e : EngineCore κ)
    (steps : List SchedulerOutput) : Prop where
  live : ∀ r q, e.scheduler.requests.get? r = some q → q.isFinished = false →
    Unsigned e.scheduler.config.asyncScheduling (prompts r) q ∧
      numSigned prompts steps r = EngineCore.underWay e.inFlight r
  inFlight : ∀ out ∈ e.inFlight, out ∈ steps
  within : ∀ out ∈ steps, ∀ r n, out.numScheduledTokens.get? r = some n →
    r ∈ e.seen ∧ 0 < n ∧ out.tokensAfter r ≤ prompts r
  once : ∀ r, numSigned prompts steps r ≤ 1
  ended : ∀ r ∈ e.seen, Ended e.scheduler r → aborted r ∨ numSigned prompts steps r = 1

section Signs

variable {E : CacheEnv κ} {e e' : EngineCore κ} {r : ReqId} {q q' : Request} {async : Bool}
  {prompts : ReqId → Nat} {aborted : ReqId → Prop} {steps : List SchedulerOutput}
  {out : SchedulerOutput} {numPrompt : Nat}

theorem Unsigned.same (h : Unsigned async numPrompt q) (hsame : SameTokens q q') :
    Unsigned async numPrompt q' where
  prefillFirst := hsame.prefillFirst.trans h.prefillFirst
  outputTokenIds := hsame.outputTokenIds.trans h.outputTokenIds
  numPromptTokens := by
    rw [Request.numPromptTokens, hsame.promptTokenIds]
    exact h.numPromptTokens
  maxTokens hasync := by
    rw [hsame.samplingParams]
    exact h.maxTokens hasync

theorem Unsigned.numTokens (h : Unsigned async numPrompt q) : q.numTokens = numPrompt := by
  rw [Request.numTokens, Request.allTokenIds, h.outputTokenIds, List.append_nil]
  exact h.numPromptTokens

theorem numSigned_append (prompts : ReqId → Nat) (steps : List SchedulerOutput)
    (out : SchedulerOutput) (r : ReqId) : numSigned prompts (steps ++ [out]) r =
      numSigned prompts steps r + if FinishesPrompt prompts out r then 1 else 0 := by
  simp only [numSigned, List.countP_append, List.countP_singleton, decide_eq_true_eq]

theorem numSigned_eq_zero (h : ∀ out ∈ steps, r ∉ out.numScheduledTokens.keys) :
    numSigned prompts steps r = 0 := by
  rw [numSigned, List.countP_eq_zero]
  intro out hout hfin
  exact h out hout (of_decide_eq_true hfin).1

/-- No token of a request that takes part in a step is under way: with async scheduling the only
one may not exceed `max_tokens`. -/
theorem Unsigned.idle {n : Nat} (h : Unsigned e.scheduler.config.asyncScheduling numPrompt q)
    (hcounts : e.Counts) (hlt : e.inFlight.length < e.scheduler.config.maxInFlight)
    (hq : e.scheduler.requests.get? r = some q) (hlive : q.isFinished = false)
    (hsched : EngineCore.Scheduled e.scheduler.config out r q q')
    (hn : out.numScheduledTokens.get? r = some n) :
    q.numOutputPlaceholders = 0 ∧ EngineCore.underWay e.inFlight r = 0 := by
  have hplace := (hcounts.counted r q hq hlive).placeholders
  cases hasync : e.scheduler.config.asyncScheduling with
  | false =>
    have hnone : e.inFlight = [] := by
      rw [SchedulerConfig.maxInFlight, hasync] at hlt
      exact List.eq_nil_of_length_eq_zero (by simpa using hlt)
    rw [hnone]
    rw [hasync] at hplace
    exact ⟨hplace, rfl⟩
  | true =>
    have hzero : q.numOutputPlaceholders = 0 := by
      by_contra hpos
      have hroom := (hcounts.room_of_placeholder hlt hq hlive hsched hn
        (Nat.pos_of_ne_zero hpos)).1
      rw [h.maxTokens hasync] at hroom
      omega
    rw [hasync, if_pos rfl] at hplace
    exact ⟨hzero, hplace.symm.trans hzero⟩

theorem Signs.scheduled {n : Nat} (h : Signs prompts aborted e steps) (hcounts : e.Counts)
    (hlt : e.inFlight.length < e.scheduler.config.maxInFlight)
    (hq : e.scheduler.requests.get? r = some q) (hlive : q.isFinished = false)
    (hsched : EngineCore.Scheduled e.scheduler.config out r q q')
    (hn : out.numScheduledTokens.get? r = some n) :
    0 < n ∧ out.tokensAfter r ≤ prompts r ∧ numSigned prompts steps r = 0 ∧
      (r ∈ out.sampledReqs ↔ FinishesPrompt prompts out r) := by
  obtain ⟨hunsigned, hsigned⟩ := h.live r q hq hlive
  obtain ⟨hplace, hidle⟩ := hunsigned.idle hcounts hlt hq hlive hsched hn
  cases hsched with
  | passed _ hnone =>
    rw [hnone] at hn
    cases hn
  | @runs q₁ k hturn hsome hcomputed hsampled =>
    obtain rfl : k = n := some_unique hsome hn
    obtain ⟨-, hpos, hle, -⟩ := hturn.scheduled k rfl
    have hafter : out.tokensAfter r = q₁.numComputedTokens + k := by
      rw [SchedulerOutput.tokensAfter, Dict.getD, hn, hcomputed]
      rfl
    have htokens : q₁.numTokens = prompts r := (hunsigned.same hturn.same).numTokens
    have hplace₁ : q₁.numOutputPlaceholders = 0 := hturn.placeholders.trans hplace
    have hkey : r ∈ out.numScheduledTokens.keys := Dict.mem_keys_iff.mpr ⟨k, hn⟩
    rw [htokens, hplace₁] at hle
    refine ⟨hpos, by rw [hafter]; exact hle, hsigned.trans hidle, ?_⟩
    rw [hsampled, FinishesPrompt, and_iff_right hkey, hafter]
    simp only [Scheduler.advance, htokens, hplace₁, decide_eq_false_iff_not]
    omega

theorem Signs.schedule (h : Signs prompts aborted e steps) (hcounts : e.Counts)
    (hstep : EngineCore.step E e .schedule = some e') :
    Signs prompts aborted e' (steps ++ e'.inFlight.drop e.inFlight.length) := by
  obtain ⟨out, hinFlight, -, hseen, hlt, hsetup, hsub, hthere, hall⟩ :=
    EngineCore.step_schedule_requests hcounts.ok hstep
  have hnew : e'.inFlight.drop e.inFlight.length = [out] := by
    rw [hinFlight, List.drop_left]
  have hfacts : ∀ r n, out.numScheduledTokens.get? r = some n → 0 < n ∧
      out.tokensAfter r ≤ prompts r ∧ numSigned prompts steps r = 0 ∧
      (r ∈ out.sampledReqs ↔ FinishesPrompt prompts out r) := fun r n hn => by
    obtain ⟨q, hq, hlive⟩ := hthere r n hn
    obtain ⟨q', -, hsched⟩ := (hall r).2 q hq
    exact h.scheduled hcounts hlt hq hlive hsched hn
  have hfinishes : ∀ r, r ∈ out.sampledReqs ↔ FinishesPrompt prompts out r := fun r => by
    constructor
    · intro hmem
      obtain ⟨n, hn⟩ := Dict.mem_keys_iff.mp (hsub r hmem)
      exact (hfacts r n hn).2.2.2.mp hmem
    · intro hfin
      obtain ⟨n, hn⟩ := Dict.mem_keys_iff.mp hfin.1
      exact (hfacts r n hn).2.2.2.mpr hfin
  rw [hnew]
  refine ⟨fun r q' hq' hlive' => ?_, fun o ho => ?_, fun o ho r n hn => ?_, fun r => ?_,
    fun r hr hended => ?_⟩
  · cases hq₀ : e.scheduler.requests.get? r with
    | none =>
      rw [(hall r).1 hq₀] at hq'
      cases hq'
    | some q₀ =>
      obtain ⟨q, hq, hsched⟩ := (hall r).2 q₀ hq₀
      obtain rfl := some_unique hq hq'
      have hsame := hsched.same
      obtain ⟨hunsigned, hsigned⟩ := h.live r q₀ hq₀ (hsame.isFinished.symm.trans hlive')
      rw [hsetup.config]
      refine ⟨hunsigned.same hsame, ?_⟩
      rw [numSigned_append, hinFlight, hsigned]
      by_cases hmem : r ∈ out.sampledReqs
      · rw [EngineCore.underWay_append_mem hmem, if_pos ((hfinishes r).mp hmem)]
      · rw [EngineCore.underWay_append_not_mem hmem,
          if_neg fun hfin => hmem ((hfinishes r).mpr hfin), Nat.add_zero]
  · rw [hinFlight] at ho
    exact List.mem_append.mpr ((List.mem_append.mp ho).imp_left (h.inFlight o))
  · rw [hseen]
    rcases List.mem_append.mp ho with ho | ho
    · exact h.within o ho r n hn
    · obtain rfl := List.mem_singleton.mp ho
      obtain ⟨q, hq, -⟩ := hthere r n hn
      obtain ⟨hpos, hle, -⟩ := hfacts r n hn
      exact ⟨hcounts.ok.seen r q hq, hpos, hle⟩
  · rw [numSigned_append]
    split
    · next hfin =>
      obtain ⟨n, hn⟩ := Dict.mem_keys_iff.mp hfin.1
      rw [(hfacts r n hn).2.2.1]
    · exact h.once r
  · -- a request that has ended takes no part in the step
    rw [hseen] at hr
    have hended₀ : Ended e.scheduler r := fun q hq => by
      obtain ⟨q', hq', hsched⟩ := (hall r).2 q hq
      exact hsched.same.isFinished.symm.trans (hended q' hq')
    have hnot : ¬ FinishesPrompt prompts out r := fun hfin => by
      obtain ⟨n, hn⟩ := Dict.mem_keys_iff.mp hfin.1
      obtain ⟨q, hq, hlive⟩ := hthere r n hn
      exact hended₀.not_live hq hlive
    rw [numSigned_append, if_neg hnot]
    exact h.ended r hr hended₀

theorem Signs.update {sampled : ReqId → TokenId} {kv : KVConnectorOutput} {now : Nat}
    (h : Signs prompts aborted e steps) (hcounts : e.Counts) (hvalid : kv.invalidBlockIds = [])
    (hstep : EngineCore.step E e (.update sampled kv now) = some e') :
    Signs prompts aborted e' (steps ++ e'.inFlight.drop e.inFlight.length) := by
  obtain ⟨out, rest, outs, hinFlight, hrest, -, hseen, hsetup, hall⟩ :=
    EngineCore.step_update_requests hvalid hstep
  have hnew : e'.inFlight.drop e.inFlight.length = [] := by
    rw [hrest, hinFlight]
    exact List.drop_eq_nil_of_le (Nat.le_succ _)
  -- the first token of a prefill-first request ends it
  have hsampled : ∀ r q, e.scheduler.requests.get? r = some q → q.isFinished = false →
      r ∈ out.sampledReqs → Ended e'.scheduler r := fun r q hq hlive hmem => by
    have hkey := hcounts.sampled out (hinFlight ▸ List.mem_cons_self) r hmem
    have houtcome := (hall r).token q _ hq hlive hkey (if_pos hmem)
    generalize outputsOf outs r = os at houtcome
    cases houtcome with
    | goes hgoes _ =>
      have hfirst := (h.live r q hq hlive).1.prefillFirst
      have := (Option.or_eq_none_iff.mp hgoes).2
      rw [show (q.appendOutputTokenIds [sampled r]).prefillFirst = true from hfirst,
        if_pos rfl] at this
      cases this
    | stops _ hended => exact hended
  have hidle : ∀ r q, e.scheduler.requests.get? r = some q → q.isFinished = false →
      r ∉ out.sampledReqs → e'.scheduler.requests.get? r = some q := fun r q hq hlive hmem =>
    ((hall r).idle q hq hlive fun _ => if_neg hmem).1
  rw [hnew, List.append_nil]
  refine ⟨fun r q' hq' hlive' => ?_, fun o ho => ?_, fun o ho r n hn => ?_, h.once,
    fun r hr hended => ?_⟩
  · obtain hended | ⟨q, hq, hlive⟩ := ended_or_live e.scheduler r
    · exact absurd hlive' (((hall r).ended hended).1.not_live hq')
    by_cases hmem : r ∈ out.sampledReqs
    · exact absurd hlive' ((hsampled r q hq hlive hmem).not_live hq')
    · obtain rfl := some_unique (hidle r q hq hlive hmem) hq'
      obtain ⟨hunsigned, hsigned⟩ := h.live r q hq hlive
      rw [hsetup.config, hrest, hsigned, hinFlight, EngineCore.underWay_cons_not_mem _ hmem]
      exact ⟨hunsigned, rfl⟩
  · rw [hrest] at ho
    exact h.inFlight o (hinFlight ▸ List.mem_cons_of_mem _ ho)
  · rw [hseen]
    exact h.within o ho r n hn
  · rw [hseen] at hr
    obtain hended₀ | ⟨q, hq, hlive⟩ := ended_or_live e.scheduler r
    · exact h.ended r hr hended₀
    by_cases hmem : r ∈ out.sampledReqs
    · right
      have hsigned := (h.live r q hq hlive).2
      rw [hinFlight, EngineCore.underWay_cons_mem _ hmem] at hsigned
      have := h.once r
      omega
    · exact absurd hlive (hended.not_live (hidle r q hq hlive hmem))

theorem Signs.mayEnd {s : Scheduler κ} (h : Signs prompts aborted e steps)
    (hinFlight : e'.inFlight = e.inFlight) (hseen : e.seen ⊆ e'.seen)
    (hend : MayEnd s e'.scheduler) (hconfig : s.config = e.scheduler.config)
    (hlive : ∀ r q, s.requests.get? r = some q → q.isFinished = false →
      Unsigned e.scheduler.config.asyncScheduling (prompts r) q ∧
        numSigned prompts steps r = EngineCore.underWay e.inFlight r)
    (hended : ∀ r ∈ e'.seen, Ended e'.scheduler r → aborted r ∨
      r ∈ e.seen ∧ Ended e.scheduler r) :
    Signs prompts aborted e' (steps ++ e'.inFlight.drop e.inFlight.length) := by
  rw [hinFlight, List.drop_length, List.append_nil]
  refine ⟨fun r q' hq' hlive' => ?_, ?_, fun o ho r n hn => ?_, h.once, fun r hr hr' => ?_⟩
  · rw [hend.setup.config, hconfig, hinFlight]
    obtain hended | ⟨q, hq, hl⟩ := ended_or_live s r
    · exact absurd hlive' ((hend.ended r hended).not_live hq')
    rcases hend.live r q hq hl with hget | hended
    · obtain rfl := some_unique hget hq'
      exact hlive r q hq hl
    · exact absurd hlive' (hended.not_live hq')
  · rw [hinFlight]
    exact h.inFlight
  · obtain ⟨hr, hpos, hle⟩ := h.within o ho r n hn
    exact ⟨hseen hr, hpos, hle⟩
  · rcases hended r hr hr' with haborted | ⟨hr, hr'⟩
    · exact .inl haborted
    · exact h.ended r hr hr'

theorem Signs.finish {ids : List ReqId} {status : RequestStatus} {now : Nat}
    (h : Signs prompts aborted e steps) (haborted : ∀ r ∈ ids, aborted r)
    (hstep : EngineCore.step E e (.finish ids status now) = some e') :
    Signs prompts aborted e' (steps ++ e'.inFlight.drop e.inFlight.length) := by
  obtain ⟨hinFlight, -, hseen, hend⟩ := EngineCore.step_finish_requests hstep
  refine h.mayEnd hinFlight hseen.superset hend rfl h.live fun r hr hended => ?_
  by_cases hmem : r ∈ ids
  · exact .inl (haborted r hmem)
  · refine .inr ⟨hseen ▸ hr, hended.congr ?_⟩
    exact (EngineCore.step_finish_other hstep hmem).symm

theorem AcceptedPrefill.seed {req : EngineCoreRequest} (h : AcceptedPrefill req) :
    req.seed = [] := by
  obtain ⟨config, promptEmbeds, hvalid⟩ := h.valid
  have hfirst := h.prefillFirst
  rw [EngineCoreRequest.seed]
  by_contra hne
  obtain ⟨token, tokens, htokens⟩ := List.exists_cons_of_ne_nil hne
  simp only [PrefillFirst.validate, PrefillFirst.validateSeed, hfirst, htokens, reduceCtorEq,
    false_and, if_false, true_and, or_true, if_true] at hvalid
  split_ifs at hvalid

theorem AcceptedPrefill.unsigned {req : EngineCoreRequest} (h : AcceptedPrefill req)
    (hone : async = true → req.params.sampling.maxTokens = 1) :
    Unsigned async req.promptTokenIds.length req.toRequest := by
  have hseed : PrefillFirst.firstTokenIds req.params = [] := h.seed
  have hfirst := h.prefillFirst
  have hinit : req.toRequest.samplingParams = req.params.sampling ∧
      req.toRequest.promptTokenIds = req.promptTokenIds ∧ req.toRequest.outputTokenIds = [] ∧
      req.toRequest.kvTransferParams = req.params.kvTransferParams := by
    unfold EngineCoreRequest.toRequest Request.init
    simp only [hseed]
    split <;> exact ⟨rfl, rfl, rfl, rfl⟩
  obtain ⟨hsampling, hprompt, houtput, htransfer⟩ := hinit
  refine ⟨?_, houtput, ?_, fun hasync => ?_⟩
  · rw [Request.prefillFirst, htransfer]
    rw [PrefillFirst.transferParams] at hfirst
    cases htransfer : req.params.kvTransferParams with
    | none =>
      rw [htransfer] at hfirst
      cases hfirst
    | some params =>
      rw [htransfer] at hfirst
      exact hfirst
  · rw [Request.numPromptTokens, hprompt]
  · rw [hsampling]
    exact hone hasync

theorem Signs.add {req : EngineCoreRequest} {now : Nat} (h : Signs prompts aborted e steps)
    (hcounts : e.Counts) (hreq : AcceptedPrefill req)
    (hprompt : prompts req.requestId = req.promptTokenIds.length)
    (hone : e.scheduler.config.asyncScheduling = true → req.params.sampling.maxTokens = 1)
    (haborted : req.abortImmediately = true → aborted req.requestId)
    (hstep : EngineCore.step E e (.add req now) = some e') :
    Signs prompts aborted e' (steps ++ e'.inFlight.drop e.inFlight.length) := by
  obtain ⟨hnew, hinFlight, -, hseen, hend, hget⟩ := EngineCore.step_add_requests hstep
  have hsub : e.seen ⊆ e'.seen := by
    rw [hseen]
    exact Finset.subset_insert _ _
  -- no step names the request yet
  have hsteps : ∀ out ∈ steps, req.requestId ∉ out.numScheduledTokens.keys := by
    intro out hout hkey
    obtain ⟨n, hn⟩ := Dict.mem_keys_iff.mp hkey
    exact hnew (h.within out hout _ n hn).1
  have hidle : EngineCore.underWay e.inFlight req.requestId = 0 :=
    EngineCore.underWay_eq_zero fun out hout hmem =>
      hsteps out (h.inFlight out hout) (hcounts.sampled out hout _ hmem)
  refine h.mayEnd hinFlight hsub hend rfl (fun r q hq hlive => ?_) fun r hr hended => ?_
  · rcases eq_or_ne r req.requestId with rfl | hne
    · obtain rfl : req.toRequest = q := by
        rw [← EngineCore.toRequest_requestId req] at hq
        exact some_unique Dict.get?_insert_self hq
      rw [hprompt, hidle]
      exact ⟨hreq.unsigned hone, numSigned_eq_zero hsteps⟩
    · refine h.live r q ((Dict.get?_insert_ne ?_).symm.trans hq) hlive
      rw [EngineCore.toRequest_requestId]
      exact hne.symm
  · rcases eq_or_ne r req.requestId with rfl | hne
    · cases habort : req.abortImmediately with
      | true => exact .inl (haborted habort)
      | false =>
        have hlive : req.toRequest.isFinished = false := by
          rw [Request.isFinished, EngineCore.toRequest_status]
          rfl
        exact absurd hlive (hended.not_live (hget habort))
    · rw [hseen] at hr
      refine .inr ⟨Finset.mem_of_mem_insert_of_ne hr hne, hended.congr ?_⟩
      exact (EngineCore.step_add_other hstep hne).symm

def Admissible (async : Bool) (prompts : ReqId → Nat) (aborted : ReqId → Prop) : Event → Prop
  | .add req _ => AcceptedPrefill req ∧ prompts req.requestId = req.promptTokenIds.length ∧
      (async = true → req.params.sampling.maxTokens = 1) ∧
      (req.abortImmediately = true → aborted req.requestId)
  | .schedule => True
  | .update _ kv _ => kv.invalidBlockIds = []
  | .finish ids _ _ => ∀ r ∈ ids, aborted r

theorem Admissible.noFailedLoad {ev : Event} (h : Admissible async prompts aborted ev) :
    EngineCore.NoFailedLoad ev := by
  cases ev with
  | update sampled kv now => exact h
  | _ => trivial

theorem Signs.step {ev : Event} (h : Signs prompts aborted e steps) (hcounts : e.Counts)
    (hev : Admissible e.scheduler.config.asyncScheduling prompts aborted ev)
    (hstep : EngineCore.step E e ev = some e') :
    Signs prompts aborted e' (steps ++ e'.inFlight.drop e.inFlight.length) := by
  cases ev with
  | add req now => exact h.add hcounts hev.1 hev.2.1 hev.2.2.1 hev.2.2.2 hstep
  | schedule => exact h.schedule hcounts hstep
  | update sampled kv now => exact h.update hcounts hev hstep
  | finish ids status now => exact h.finish hev hstep

theorem signs_of_exec {e₀ : EngineCore κ} {es : List Event} (hfresh : e₀.Fresh)
    (hev : ∀ ev ∈ es, Admissible e₀.scheduler.config.asyncScheduling prompts aborted ev)
    (hrun : Machine.exec (EngineCore.step E) e₀ es = some e) :
    e.Counts ∧ Signs prompts aborted e (scheduledSteps E e₀ es) := by
  have hstart : Signs prompts aborted e₀ [] := by
    refine ⟨fun r q hq => ?_, ?_, ?_, fun _ => Nat.zero_le _, ?_⟩
    · simp [hfresh.requests] at hq
    · simp [hfresh.inFlight]
    · simp
    · simp [hfresh.seen]
  have h : EngineCore.Runs e₀.scheduler e ∧
      Signs prompts aborted e ([] ++ scheduledSteps E e₀ es) :=
    Machine.exec_collect_invariant
      (P := fun e steps => EngineCore.Runs e₀.scheduler e ∧ Signs prompts aborted e steps)
      (fun e ev e' steps h hC hs => ⟨h.1.step (Admissible.noFailedLoad hC) hs,
        h.2.step h.1.counts (by rw [h.1.setup.config]; exact hC) hs⟩)
      ⟨hfresh.runs, hstart⟩ (.of_mem hev) hrun
  exact ⟨h.1.counts, h.2⟩

end Signs

def Aborted (es : List Event) (r : ReqId) : Prop :=
  (∃ req now, .add req now ∈ es ∧ req.requestId = r ∧ req.abortImmediately = true) ∨
    ∃ ids status now, .finish ids status now ∈ es ∧ r ∈ ids

/-- A producer that schedules synchronously, or whose requests have `max_tokens` 1, executes no
decode token: `finishing_rows` never raises, and a request that is not aborted is in exactly one
step's rows. The rows are the requests whose last prompt token the step computes. No load of remote
KV fails; a producer loads none. -/
theorem producer_signs_once (prompts : ReqId → Nat) {E : CacheEnv κ} {e₀ e : EngineCore κ}
    {es : List Event} (hfresh : e₀.Fresh)
    (hrun : Machine.exec (EngineCore.step E) e₀ es = some e)
    (hreqs : ∀ req now, .add req now ∈ es → AcceptedPrefill req)
    (hprompts : ∀ req now, .add req now ∈ es →
      prompts req.requestId = req.promptTokenIds.length)
    (hloads : ∀ sampled kv now, .update sampled kv now ∈ es → kv.invalidBlockIds = [])
    (hcond : e₀.scheduler.config.asyncScheduling = false ∨
      ∀ req now, .add req now ∈ es → req.params.sampling.maxTokens = 1) :
    (∀ out ∈ scheduledSteps E e₀ es, ∀ batch : InputBatch, batch.Holds out prompts →
      ∃ rows, finishingRows batch out.numScheduledTokens.entries = .ok rows ∧
        ∀ r, r ∈ rows.map (·.requestId) ↔ FinishesPrompt prompts out r) ∧
    (∀ r, numSigned prompts (scheduledSteps E e₀ es) r ≤ 1) ∧
    ∀ r ∈ e.seen, ¬ Aborted es r →
      (Ended e.scheduler r → numSigned prompts (scheduledSteps E e₀ es) r = 1) ∧
      ∀ q, e.scheduler.requests.get? r = some q → q.isFinished = false →
        numSigned prompts (scheduledSteps E e₀ es) r = EngineCore.underWay e.inFlight r := by
  have hev : ∀ ev ∈ es,
      Admissible e₀.scheduler.config.asyncScheduling prompts (Aborted es) ev := by
    intro ev hmem
    cases ev with
    | add req now =>
      refine ⟨hreqs req now hmem, hprompts req now hmem, fun hasync => ?_, fun habort => ?_⟩
      · rcases hcond with hsync | hone
        · rw [hsync] at hasync
          cases hasync
        · exact hone req now hmem
      · exact .inl ⟨req, now, hmem, rfl, habort⟩
    | schedule => trivial
    | update sampled kv now => exact hloads sampled kv now hmem
    | finish ids status now => exact fun r hr => .inr ⟨ids, status, now, hmem, hr⟩
  obtain ⟨-, hsigns⟩ := signs_of_exec hfresh hev hrun
  refine ⟨fun out hout batch hholds => ?_, hsigns.once, fun r hr hnot => ⟨fun hended => ?_, ?_⟩⟩
  · exact finishingRows_of_holds hholds fun r n hn => (hsigns.within out hout r n hn).2
  · exact (hsigns.ended r hr hended).resolve_left hnot
  · exact fun q hq hlive => (hsigns.live r q hq hlive).2

/-! ### A request with three tokens -/

def firstOfThree : EngineCoreRequest where
  requestId := 0
  params :=
    { sampling := EngineCore.upTo 3 EngineCore.one_le_three
      kvTransferParams := some { doRemoteDecode := true, prefillFirst := true } }
  promptTokenIds := [9, 9]

theorem firstOfThree_accepted : AcceptedPrefill firstOfThree :=
  ⟨rfl, { kvConnector := some "NixlConnector", speculative := false, pipelineParallelSize := 1
          useV2ModelRunner := false, isEncoderDecoder := false, isHybrid := false
          logitsProcessors := false, vocabSize := 10 }, false, rfl⟩

def producerScheduler (asyncScheduling : Bool) : SchedulerConfig where
  maxNumRunningReqs := 4
  maxNumScheduledTokens := 8
  maxModelLen := 8
  asyncScheduling := asyncScheduling

def producerTransport : TransportConfig where
  enabled := true
  signatureEnabled := true
  kvTransfer := some (.kvProducer, "NixlConnector")
  tensorParallelSize := 1
  pipelineParallelSize := 1
  enableExpertParallel := false
  speculative := false
  runnerType := .generate
  enforceEager := true
  blockSize := 1
  maxModelLen := 8

/-- A batch with the request alone, `n` of its tokens computed. -/
def aloneBatch (n : Nat) : InputBatch where
  reqIdToIndex := Dict.empty.insert 0 0
  numComputedTokensCpu := [n]
  numPromptTokens := [2]

theorem aloneBatch_holds {out : SchedulerOutput} {n k : Nat}
    (hentries : out.numScheduledTokens.entries = [(0, k)])
    (hcomputed : out.numComputedTokens 0 = n) : (aloneBatch n).Holds out fun _ => 2 := by
  intro r m hm
  rw [Dict.get?_eq_some_iff, hentries, List.mem_singleton] at hm
  obtain ⟨rfl, rfl⟩ := Prod.mk.inj hm
  exact ⟨0, rfl, by rw [hcomputed]; rfl, rfl⟩

def oneStep : List Event := [.add firstOfThree 0, .schedule, .update (fun _ => 5) {} 0]

theorem producer_signs_once_firstOfThree : ∃ e₀ e out rows,
    EngineCore.unit (producerScheduler false) 8 (some {}) = .ok e₀ ∧
    Machine.exec (EngineCore.step EngineCore.unitEnv) e₀ oneStep = some e ∧
    scheduledSteps EngineCore.unitEnv e₀ oneStep = [out] ∧
    finishingRows (aloneBatch 0) out.numScheduledTokens.entries = .ok rows ∧
    0 ∈ rows.map (·.requestId) ∧ numSigned (fun _ => 2) [out] 0 = 1 := by
  obtain ⟨e₀, h₀⟩ : ∃ e₀, EngineCore.unit (producerScheduler false) 8 (some {}) = .ok e₀ :=
    ⟨_, rfl⟩
  obtain ⟨e, out, hrun, hseen, hended, hout, hentries, hcomputed, hfin⟩ : ∃ e out,
      Machine.exec (EngineCore.step EngineCore.unitEnv) e₀ oneStep = some e ∧ 0 ∈ e.seen ∧
      (∀ q ∈ e.scheduler.requests.get? 0, q.isFinished = true) ∧
      scheduledSteps EngineCore.unitEnv e₀ oneStep = [out] ∧
      out.numScheduledTokens.entries = [(0, 2)] ∧ out.numComputedTokens 0 = 0 ∧
      FinishesPrompt (fun _ => 2) out 0 := by
    obtain rfl := Except.ok.inj h₀
    exact ⟨_, _, rfl, by decide, by decide, rfl, rfl, rfl, by decide⟩
  have hsync : e₀.scheduler.config.asyncScheduling = false := by
    obtain rfl := Except.ok.inj h₀
    rfl
  have honly : ∀ req now, .add req now ∈ oneStep → req = firstOfThree := by
    intro req now hmem
    simp only [oneStep, List.mem_cons, Event.add.injEq, reduceCtorEq, List.not_mem_nil,
      or_false] at hmem
    exact hmem.1
  have hnot : ¬ Aborted oneStep 0 := by
    rintro (⟨req, now, hmem, -, habort⟩ | ⟨ids, status, now, hmem, -⟩)
    · rw [honly req now hmem] at habort
      cases habort
    · simp [oneStep] at hmem
  obtain ⟨hrows, -, hsigned⟩ := producer_signs_once (fun _ => 2) (.unit h₀) hrun
    (fun req now hmem => honly req now hmem ▸ firstOfThree_accepted)
    (fun req now hmem => by rw [honly req now hmem]; rfl)
    (fun sampled kv now hmem => by
      simp only [oneStep, List.mem_cons, Event.update.injEq, reduceCtorEq, List.not_mem_nil,
        or_false, false_or] at hmem
      rw [hmem.2.1])
    (.inl hsync)
  rw [hout] at hrows hsigned
  obtain ⟨rows, hok, hmem⟩ := hrows out (List.mem_singleton_self out) (aloneBatch 0)
    (aloneBatch_holds hentries hcomputed)
  exact ⟨e₀, e, out, rows, h₀, hrun, hout, hok, (hmem 0).mpr hfin, (hsigned 0 hseen hnot).1 hended⟩

/-- With async scheduling the next step is built before the first token is back, and goes beyond
the prompt. -/
theorem finishingRows_raises_async : ∃ e₀ e out₁ out₂,
    validateConfig producerTransport = .ok () ∧ AcceptedPrefill firstOfThree ∧
    EngineCore.unit (producerScheduler true) 8 (some {}) = .ok e₀ ∧
    Machine.exec (EngineCore.step EngineCore.unitEnv) e₀
      [.add firstOfThree 0, .schedule, .schedule] = some e ∧
    scheduledSteps EngineCore.unitEnv e₀ [.add firstOfThree 0, .schedule, .schedule] =
      [out₁, out₂] ∧
    (aloneBatch 2).Holds out₂ (fun _ => 2) ∧
    finishingRows (aloneBatch 2) out₂.numScheduledTokens.entries =
      .error (.valueError "Async signature producer must not execute decode tokens") := by
  refine ⟨_, _, _, _, rfl, firstOfThree_accepted, rfl, rfl, rfl, ?_, rfl⟩
  exact aloneBatch_holds (k := 1) rfl rfl

end EldrServing.Signature
