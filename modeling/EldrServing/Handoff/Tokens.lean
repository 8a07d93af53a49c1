import EldrServing.Handoff.Text
import EldrServing.Sched.Outputs

/-!
# The tokens of a prefill-first handoff

A request runs on a producer for one token and, unless that token ended it, on a decoder that
starts with the token as output. Whatever the two engines do with their other requests, the
tokens are those of an engine that serves the request from start to end.
-/

namespace EldrServing.Handoff

set_option autoImplicit false
set_option linter.unusedSectionVars false

open Engine KVCache Nixl Sched Generate
open Sched.EngineCore (Agrees Runs Samples Serves)

variable {κ : Type} [DecidableEq κ]

/-! ### The producer's only output -/

structure HandoffAsked (params : KVTransferParams) : Prop where
  doRemotePrefill : params.doRemotePrefill = false
  doRemoteDecode : params.doRemoteDecode = true
  prefillFirst : params.prefillFirst = true
  prefillContinues : params.prefillContinues = false

/-- The parameters that hand over the first token `t` of a prompt of `n` tokens. -/
structure HandoffMade (t : TokenId) (n : Nat) (continues : Bool) (transfer : KVTransferParams) :
    Prop where
  doRemotePrefill : transfer.doRemotePrefill = true
  prefillFirst : transfer.prefillFirst = false
  prefillFirstTokenId : transfer.prefillFirstTokenId = some t
  prefillPromptTokens : transfer.prefillPromptTokens = some n
  prefillContinues : transfer.prefillContinues = continues

/-- Whether a request with the first token `t` goes on. -/
def goesOn (maxModelLen : Nat) (req : EngineCoreRequest) (t : TokenId) : Bool :=
  (checkStop req.params.sampling maxModelLen req.promptTokenIds.length [t]).isNone

/-- A prefill-first request on the producer. -/
inductive Produces (maxModelLen : Nat) (req : EngineCoreRequest) (e : EngineCore κ) : Prop where
  | live {q params}
      (hget : e.scheduler.requests.get? req.requestId = some q)
      (hlive : q.isFinished = false)
      (hparams : q.kvTransferParams = some params)
      (hasks : HandoffAsked params)
      (hsampling : q.samplingParams = req.params.sampling)
      (hprompt : q.promptTokenIds = req.promptTokenIds)
      (houtput : q.outputTokenIds = [])
      (hnothing : outputsOf e.outputs req.requestId = []) : Produces maxModelLen req e
  | aborted
      (hended : Ended e.scheduler req.requestId)
      (hnothing : outputsOf e.outputs req.requestId = []) : Produces maxModelLen req e
  | handed {t o transfer}
      (hended : Ended e.scheduler req.requestId)
      (houts : outputsOf e.outputs req.requestId = [(req.requestId, o)])
      (htoken : o.newTokenIds = [t])
      (htransfer : o.kvTransferParams = some transfer)
      (hhands : HandoffMade t req.promptTokenIds.length (goesOn maxModelLen req t) transfer) :
      Produces maxModelLen req e

section Produces

variable {E : CacheEnv κ} {e e' : EngineCore κ} {req : EngineCoreRequest} {maxModelLen : Nat}

theorem HandoffAsked.consumed {params : KVTransferParams} (h : HandoffAsked params) :
    HandoffAsked (NixlConnectorScheduler.consumed params) :=
  ⟨rfl, h.doRemoteDecode, h.prefillFirst, h.prefillContinues⟩

theorem Produces.congr (h : Produces maxModelLen req e) (houts : e'.outputs = e.outputs)
    (hkeeps : EngineCore.Keeps req.requestId e.scheduler e'.scheduler) :
    Produces maxModelLen req e' := by
  cases h with
  | @live q params hget hl hparams hasks hsampling hprompt houtput hnothing =>
    rw [← houts] at hnothing
    rcases hkeeps.live q hget hl with ⟨q', hget', hsame⟩ | hend
    · have hparams' : ∃ params', q'.kvTransferParams = some params' ∧ HandoffAsked params' := by
        rcases hsame.transfer with heq | ⟨transfer, hq, hq'⟩
        · exact ⟨params, heq.trans hparams, hasks⟩
        · obtain rfl := some_unique hparams hq
          exact ⟨_, hq', hasks.consumed⟩
      obtain ⟨params', hparams', hasks'⟩ := hparams'
      exact .live hget' (hsame.isFinished.trans hl) hparams' hasks'
        (hsame.samplingParams.trans hsampling) (hsame.promptTokenIds.trans hprompt)
        (hsame.outputTokenIds.trans houtput) hnothing
    · exact .aborted hend hnothing
  | aborted hend hnothing =>
    rw [← houts] at hnothing
    exact .aborted (hkeeps.ended hend) hnothing
  | handed hend ho htoken htransfer hhands =>
    rw [← houts] at ho
    exact .handed (hkeeps.ended hend) ho htoken htransfer hhands

/-- The first token stops the request in any case; the stop check decides whether the handoff
asks to continue. -/
theorem stoppedBy_first (async : Bool) (maxModelLen : Nat) (t : TokenId) {q : Request}
    {params : KVTransferParams} (hparams : q.kvTransferParams = some params) (hasks : HandoffAsked params)
    (hsampling : q.samplingParams = req.params.sampling)
    (hprompt : q.promptTokenIds = req.promptTokenIds) (houtput : q.outputTokenIds = []) :
    ∃ params', (stoppedBy async maxModelLen q t).kvTransferParams = some params' ∧
      params' = { params with prefillContinues := goesOn maxModelLen req t } ∧
      ((stoppedBy async maxModelLen q t).status = .finishedStopped ∨
        (stoppedBy async maxModelLen q t).status = .finishedLengthCapped) ∧
      (stoppedBy async maxModelLen q t).outputTokenIds = [t] ∧
      (stoppedBy async maxModelLen q t).promptTokenIds = req.promptTokenIds := by
  have hcheck : checkStop q.samplingParams maxModelLen
      (q.appendOutputTokenIds [t]).numPromptTokens (q.outputTokenIds ++ [t]) =
      checkStop req.params.sampling maxModelLen req.promptTokenIds.length [t] := by
    rw [hsampling, houtput, List.nil_append, Request.numPromptTokens,
      show (q.appendOutputTokenIds [t]).promptTokenIds = q.promptTokenIds from rfl, hprompt]
  have hasked := hasks.prefillContinues
  unfold stoppedBy Request.stopAfterToken goesOn
  change ∃ params', _
  simp only [Request.appendOutputTokenIds] at hcheck ⊢
  rw [hcheck]
  cases hstop : checkStop req.params.sampling maxModelLen req.promptTokenIds.length [t] with
  | none =>
    simp only [hparams, hasks.prefillFirst, if_true, Option.isNone_none]
    exact ⟨_, rfl, rfl, .inr trivial, by rw [houtput]; rfl, hprompt⟩
  | some v =>
    obtain ⟨status, reason⟩ := v
    refine ⟨params, hparams, ?_, checkStop_first hstop, by simp [houtput], hprompt⟩
    simp only [Option.isNone_some]
    rw [← hasked]

theorem Produces.update {next : ReqId → List TokenId → TokenId} {sampled : ReqId → TokenId}
    {kv : KVConnectorOutput} {now : Nat} (h : Produces maxModelLen req e)
    (hcounts : e.Counts) (hlen : e.scheduler.config.maxModelLen = maxModelLen)
    (hconnector : e.scheduler.connector.isSome = true)
    (hmodel : Samples next e (.update sampled kv now))
    (hstep : EngineCore.step E e (.update sampled kv now) = some e') :
    Produces maxModelLen req e' := by
  obtain ⟨out, rest, outs, hinFlight, -, houts, -, -, hall⟩ :=
    EngineCore.step_update_requests hmodel.1 hstep
  have hr := hall req.requestId
  have hsent : outputsOf e'.outputs req.requestId =
      outputsOf e.outputs req.requestId ++ outputsOf outs req.requestId := by
    rw [houts, outputsOf_append]
  cases h with
  | aborted hended hnothing =>
    obtain ⟨hended', hnil⟩ := hr.ended hended
    exact .aborted hended' (by rw [hsent, hnothing, hnil]; rfl)
  | handed hended ho htoken htransfer hhands =>
    obtain ⟨hended', hnil⟩ := hr.ended hended
    exact .handed hended' (by rw [hsent, ho, hnil]; rfl) htoken htransfer hhands
  | @live q params hget hlive hparams hasks hsampling hprompt houtput hnothing =>
    by_cases hmem : req.requestId ∈ out.sampledReqs
    · have hkey := hcounts.sampled out (hinFlight ▸ List.mem_cons_self) _ hmem
      have houtcome := hr.token q _ hget hlive hkey (if_pos hmem)
      generalize outputsOf outs req.requestId = os at houtcome hsent
      cases houtcome with
      | goes hgoes _ =>
        -- a request that asks for a handoff never goes on
        have hfirst : (q.appendOutputTokenIds [sampled req.requestId]).prefillFirst = true := by
          simp only [Request.prefillFirst, Request.appendOutputTokenIds, hparams,
            hasks.prefillFirst]
        rw [Request.ending, hfirst, if_pos rfl, Option.or_eq_none_iff] at hgoes
        cases hgoes.2
      | @stops transfer delay s₁ s₂ _ hended hsetup hfin =>
        rw [hnothing, List.nil_append] at hsent
        rw [hlen] at hfin hsent
        obtain ⟨params', hparams', rfl, hstatus, htokens, hprompt'⟩ :=
          stoppedBy_first e.scheduler.config.asyncScheduling maxModelLen (sampled req.requestId)
            hparams hasks hsampling hprompt houtput
        rcases connectorFinished_ok hfin with ⟨hnone, -⟩ | ⟨c, kv', c', q', -, -, hfinished, -⟩
        · have := hsetup.connector
          rw [hnone, hconnector] at this
          cases this
        · obtain ⟨clipped, n, kvt, hkvt, hres⟩ := NixlConnectorScheduler.requestFinished_producer
            hparams' hasks.doRemotePrefill hasks.doRemoteDecode hstatus hfinished
          have hfields := NixlConnectorScheduler.handoffParams_prefillFirst
            (by exact hasks.doRemoteDecode) (by exact hasks.prefillFirst) htokens hkvt
          have htransfer : transfer = some kvt := congrArg (fun x => x.1.2) hres
          refine .handed hended hsent rfl htransfer ?_
          rw [hfields]
          refine ⟨rfl, rfl, rfl, ?_, rfl⟩
          rw [Request.numPromptTokens, hprompt']
    · obtain ⟨hget', hnil⟩ := hr.idle q hget hlive fun _ => if_neg hmem
      exact .live hget' hlive hparams hasks hsampling hprompt houtput
        (by rw [hsent, hnothing, hnil]; rfl)

theorem Produces.start {s₀ : Scheduler κ} {sampling : SamplingParams} {now : Nat}
    (hruns : Runs s₀ e) (habort : req.abortImmediately = false)
    (hparams : req.params = producerParams sampling)
    (hstep : EngineCore.step E e (.add req now) = some e') : Produces maxModelLen req e' := by
  obtain ⟨hseen, -, houts, -, -, hget⟩ := EngineCore.step_add_requests hstep
  obtain ⟨hsampling, hprompt, -, -, hseed⟩ := EngineCore.toRequest_fields habort
  have hnil : outputsOf e'.outputs req.requestId = [] := by
    rw [houts]
    exact hruns.outputsOf_eq_nil hseen
  have htransfer : req.toRequest.kvTransferParams = (producerParams sampling).kvTransferParams := by
    rw [← hparams]
    unfold EngineCoreRequest.toRequest Request.init
    split <;> rfl
  have hnothing : req.seed = [] := by
    rw [EngineCoreRequest.seed, hparams]
    rfl
  refine .live (hget habort) ?_ htransfer ⟨rfl, rfl, rfl, rfl⟩ hsampling hprompt
    (hseed.trans hnothing) hnil
  rw [Request.isFinished, EngineCore.toRequest_status]
  rfl

theorem Produces.step {s₀ : Scheduler κ} {next : ReqId → List TokenId → TokenId} {ev : Event}
    (h : Produces s₀.config.maxModelLen req e) (hruns : Runs s₀ e)
    (hconnector : s₀.connector.isSome = true) (hseen : req.requestId ∈ e.seen)
    (hmodel : Samples next e ev) (hstep : EngineCore.step E e ev = some e') :
    Produces s₀.config.maxModelLen req e' := by
  by_cases hev : ∃ sampled kv now, ev = .update sampled kv now
  · obtain ⟨sampled, kv, now, rfl⟩ := hev
    exact h.update hruns.counts (by rw [hruns.setup.config])
      (hruns.setup.connector.trans hconnector) hmodel hstep
  · obtain ⟨houts, hkeeps⟩ := EngineCore.step_keeps hruns.counts.ok hseen
      (fun sampled kv now heq => hev ⟨sampled, kv, now, heq⟩) hstep
    exact h.congr houts hkeeps

end Produces

/-! ### The three engines -/

/-- A run of an engine that is given the request, with a model whose next token for the request
is `next` of its history. -/
structure Serving (κ : Type) [DecidableEq κ] (next : List TokenId → TokenId) (maxModelLen : Nat)
    (req : EngineCoreRequest) where
  env : CacheEnv κ
  start : EngineCore κ
  events : List Event
  state : EngineCore κ
  model : ReqId → List TokenId → TokenId
  now : Nat
  fresh : EngineCore.Fresh start
  length : start.scheduler.config.maxModelLen = maxModelLen
  next_eq : model req.requestId = next
  samples : Machine.Along (EngineCore.step env) (Samples model) start events
  run : Machine.exec (EngineCore.step env) start events = some state
  added : .add req now ∈ events
  accepted : req.abortImmediately = false

namespace Serving

variable {next : List TokenId → TokenId} {maxModelLen : Nat} {req : EngineCoreRequest}

def received (R : Serving κ next maxModelLen req) : List TokenId :=
  R.state.received req.requestId

def finish (R : Serving κ next maxModelLen req) : Option (FinishReason × Option StopReason) :=
  R.state.finish req.requestId

theorem serves (R : Serving κ next maxModelLen req) : Serves next maxModelLen req R.state := by
  have h := EngineCore.serves_of_exec R.fresh R.samples R.run R.added R.accepted
  rwa [R.next_eq, R.length] at h

theorem produces (R : Serving κ next maxModelLen req) {sampling : SamplingParams}
    (hconnector : R.start.scheduler.connector.isSome = true)
    (hparams : req.params = producerParams sampling) : Produces maxModelLen req R.state := by
  have h : Produces R.start.scheduler.config.maxModelLen req R.state :=
    EngineCore.exec_since_add R.fresh R.samples R.run R.added
      (fun _ _ hruns hs => .start hruns R.accepted hparams hs)
      fun _ _ _ h hruns hseen hmodel hs => h.step hruns hconnector hseen hmodel hs
  rwa [R.length] at h

end Serving

section Generation

variable {next : List TokenId → TokenId} {sampling : SamplingParams} {maxModelLen k : Nat}
  {req : EngineCoreRequest} {t : TokenId}

/-- The output of a request for plain generation after `k` tokens. -/
def plainGeneration (next : List TokenId → TokenId) (sampling : SamplingParams)
    (maxModelLen : Nat) (promptTokenIds : List TokenId) (k : Nat) :
    List TokenId × Option (RequestStatus × Option StopReason) :=
  generate (fun outs => next (promptTokenIds ++ outs))
    (checkStop sampling maxModelLen promptTokenIds.length) [] k

theorem plainGeneration_one (promptTokenIds : List TokenId) :
    plainGeneration next sampling maxModelLen promptTokenIds 1 = ([next promptTokenIds],
      checkStop sampling maxModelLen promptTokenIds.length [next promptTokenIds]) := by
  have h : plainGeneration next sampling maxModelLen promptTokenIds (0 + 1) = _ :=
    generate_next (generate_zero _ _ [])
  rwa [List.append_nil] at h

theorem generation_single (hparams : req.params = { sampling }) :
    req.generation next maxModelLen k =
      plainGeneration next sampling maxModelLen req.promptTokenIds k := by
  have hstops : req.stops maxModelLen =
      checkStop sampling maxModelLen req.promptTokenIds.length := by
    funext outs
    simp [EngineCoreRequest.stops, hparams, PrefillFirst.transferParams]
  rw [EngineCoreRequest.generation, hstops, EngineCoreRequest.seed, hparams]
  rfl

theorem generation_decoder {transfer : KVTransferParams}
    (hparams : req.params = { sampling, kvTransferParams := some transfer })
    (hmade : HandoffMade t req.promptTokenIds.length true transfer)
    (htoken : t = next req.promptTokenIds)
    (hgoes : checkStop sampling maxModelLen req.promptTokenIds.length [t] = none) :
    req.seed = [t] ∧ req.generation next maxModelLen k =
      plainGeneration next sampling maxModelLen req.promptTokenIds (k + 1) := by
  have hseed : req.seed = [t] := by
    simp [EngineCoreRequest.seed, PrefillFirst.firstTokenIds, PrefillFirst.transferParams, hparams,
      hmade.prefillFirstTokenId]
  have hstops : req.stops maxModelLen =
      checkStop sampling maxModelLen req.promptTokenIds.length := by
    funext outs
    simp [EngineCoreRequest.stops, hparams, PrefillFirst.transferParams, hmade.prefillFirst]
  refine ⟨hseed, ?_⟩
  have hone : plainGeneration next sampling maxModelLen req.promptTokenIds 1 = ([t], none) := by
    rw [plainGeneration_one, ← htoken, hgoes]
  rw [EngineCoreRequest.generation, hseed, hstops, Nat.add_comm k 1]
  exact (generate_add hone k).symm

theorem generation_producer (hparams : req.params = producerParams sampling) :
    req.seed = [] ∧ req.generation next maxModelLen (k + 1) = ([next req.promptTokenIds],
      (checkStop sampling maxModelLen req.promptTokenIds.length [next req.promptTokenIds]).or
        (some (.finishedLengthCapped, none))) := by
  have hseed : req.seed = [] := by
    rw [EngineCoreRequest.seed, hparams]
    rfl
  have hstops : req.stops maxModelLen [next req.promptTokenIds] =
      (checkStop sampling maxModelLen req.promptTokenIds.length [next req.promptTokenIds]).or
        (some (.finishedLengthCapped, none)) := by
    simp [EngineCoreRequest.stops, hparams, PrefillFirst.transferParams, producerParams]
  refine ⟨hseed, ?_⟩
  obtain ⟨ending, hending⟩ := Option.isSome_iff_exists.mp
    (show (req.stops maxModelLen [next req.promptTokenIds]).isSome by rw [hstops]; simp)
  rw [← hstops, hending, EngineCoreRequest.generation, hseed]
  have hfirst : req.stops maxModelLen ([] ++ [next (req.promptTokenIds ++ [])]) = some ending := by
    rw [List.append_nil]
    exact hending
  have h : generate (fun outs => next (req.promptTokenIds ++ outs)) (req.stops maxModelLen) []
      (k + 1) = _ := generate_succ_some hfirst k
  rwa [List.append_nil] at h

theorem first_stops_iff {promptTokenIds received : List TokenId}
    {ending : Option (RequestStatus × Option StopReason)}
    (htoken : t = next promptTokenIds)
    (hgen : plainGeneration next sampling maxModelLen promptTokenIds k = (received, ending))
    (hsent : received ≠ []) :
    (checkStop sampling maxModelLen promptTokenIds.length [t]).isSome = true ↔
      received = [t] ∧ (ending.bind Sched.reported).isSome = true := by
  have hone : plainGeneration next sampling maxModelLen promptTokenIds 1 =
      ([t], checkStop sampling maxModelLen promptTokenIds.length [t]) := by
    rw [plainGeneration_one, htoken]
  have hpos : 1 ≤ k := by
    by_contra hzero
    obtain rfl : k = 0 := by omega
    exact hsent (Prod.mk.inj hgen).1.symm
  cases hstop : checkStop sampling maxModelLen promptTokenIds.length [t] with
  | some x =>
    rw [hstop] at hone
    obtain ⟨rfl, rfl⟩ := Prod.mk.inj (hgen.symm.trans (generate_ended hone hpos))
    refine ⟨fun _ => ⟨rfl, ?_⟩, fun _ => rfl⟩
    obtain ⟨status, reason⟩ := x
    rcases checkStop_first hstop with rfl | rfl <;> rfl
  | none =>
    refine ⟨fun h => absurd h Bool.false_ne_true, ?_⟩
    rintro ⟨rfl, hend⟩
    -- the first token did not end the sequence, and nothing came after it
    rw [hstop] at hone
    obtain ⟨j, rfl⟩ := Nat.exists_eq_add_of_le hpos
    obtain rfl := generate_self ((generate_add hone j).symm.trans hgen)
    cases hend

theorem validateSeed_ok {transfer : KVTransferParams} {promptTokenIds : List TokenId}
    (config : EngineConfig) (hvocab : t < config.vocabSize)
    (hmade : HandoffMade t promptTokenIds.length true transfer)
    (hgoes : checkStop sampling maxModelLen promptTokenIds.length [t] = none) :
    PrefillFirst.validateSeed config { sampling, kvTransferParams := some transfer }
      promptTokenIds = .ok () := by
  have hmax : ¬ sampling.maxTokens ≤ 1 := by
    intro hle
    have hstop : (checkStop sampling maxModelLen promptTokenIds.length [t]).isSome = true :=
      checkStop_isSome_of_maxTokens_le hle
    rw [hgoes] at hstop
    cases hstop
  simp [PrefillFirst.validateSeed, PrefillFirst.firstTokenIds, PrefillFirst.transferParams,
    hmade.prefillFirstTokenId, hmade.doRemotePrefill, hmade.prefillFirst,
    hmade.prefillPromptTokens, hmade.prefillContinues, hvocab, hmax]

end Generation

theorem Serving.token {next : List TokenId → TokenId} {sampling : SamplingParams}
    {maxModelLen k : Nat} {req : EngineCoreRequest} {t : TokenId}
    {ending : Option (RequestStatus × Option StopReason)}
    (P : Serving κ next maxModelLen req) (hparams : req.params = producerParams sampling)
    (hreceived : P.received = [t])
    (hgen : req.generation next maxModelLen k =
      (req.seed ++ P.state.received req.requestId, ending)) :
    t = next req.promptTokenIds ∧ ending =
      (checkStop sampling maxModelLen req.promptTokenIds.length [t]).or
        (some (.finishedLengthCapped, none)) := by
  rw [show P.state.received req.requestId = [t] from hreceived] at hgen
  cases k with
  | zero =>
    have hnothing : req.seed = req.seed ++ [t] := (Prod.mk.inj hgen).1
    simp at hnothing
  | succ k =>
    obtain ⟨hseed, hgen'⟩ := generation_producer (k := k) hparams
    rw [hgen', hseed] at hgen
    obtain ⟨htoken, rfl⟩ := Prod.mk.inj hgen
    obtain rfl : next req.promptTokenIds = t := by simpa using htoken
    exact ⟨rfl, rfl⟩

def lengthNext (history : List TokenId) : TokenId := history.length

/-- A run with one-token blocks in which every request has the model `lengthNext`. -/
def Serving.unit {config : SchedulerConfig} {connector : Option NixlConnectorScheduler}
    {numBlocks : Nat} {req : EngineCoreRequest} {e₀ e : EngineCore (List TokenId)}
    (es : List Event) (h₀ : EngineCore.unit config numBlocks connector = .ok e₀)
    (hsamples : Machine.Along (EngineCore.step EngineCore.unitEnv) (Samples fun _ => lengthNext)
      e₀ (.add req 0 :: es))
    (hrun : Machine.exec (EngineCore.step EngineCore.unitEnv) e₀ (.add req 0 :: es) = some e)
    (haccepted : req.abortImmediately = false) :
    Serving (List TokenId) lengthNext e₀.scheduler.config.maxModelLen req where
  env := EngineCore.unitEnv
  start := e₀
  events := .add req 0 :: es
  state := e
  model := fun _ => lengthNext
  now := 0
  fresh := .unit h₀
  length := rfl
  next_eq := rfl
  samples := hsamples
  run := hrun
  added := List.mem_cons_self
  accepted := haccepted

def threeTokens : SamplingParams := EngineCore.upTo 3 EngineCore.one_le_three

def prefillRequest : EngineCoreRequest where
  requestId := 0
  params := producerParams threeTokens
  promptTokenIds := [9, 9]

def singleRequest : EngineCoreRequest where
  requestId := 0
  params := { sampling := threeTokens }
  promptTokenIds := [9, 9]

def firstHandoff : KVTransferParams where
  doRemotePrefill := true
  remoteBlockIds := [[1, 2]]
  remote := some ⟨0, 0, "", 0⟩
  remoteNumTokens := 2
  prefillFirstTokenId := some 2
  prefillPromptTokens := some 2
  prefillContinues := true

def decodeRequest : EngineCoreRequest where
  requestId := 0
  params := { sampling := threeTokens, kvTransferParams := some firstHandoff }
  promptTokenIds := [9, 9]

def threeTokenUnit : SchedulerConfig where
  maxNumRunningReqs := 4
  maxNumScheduledTokens := 8
  maxModelLen := 8

def tokenStep (t : TokenId) : List Event := [.schedule, .update (fun _ => t) {} 0]

def loadStep : List Event := [.schedule, .update (fun _ => 0) { finishedRecving := [0] } 0]

end EldrServing.Handoff
