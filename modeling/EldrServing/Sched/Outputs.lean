import EldrServing.Lib.Generate
import EldrServing.Sched.UnderWay

/-!
# What a request gets

The tokens of a request are those of a loop that serves it alone: sample the next token from
the history, append it, check for a stop. Scheduling decides when the tokens come, not which;
so synchronous and async scheduling send the same.
-/

namespace EldrServing.Sched

set_option autoImplicit false
set_option linter.unusedSectionVars false

open Engine KVCache Nixl Generate

variable {κ : Type} [DecidableEq κ]

namespace EngineCoreRequest

def seed (req : EngineCoreRequest) : List TokenId := PrefillFirst.firstTokenIds req.params

/-- How the request ends with the output `outs`, if it does. -/
def stops (maxModelLen : Nat) (req : EngineCoreRequest) (outs : List TokenId) :
    Option (RequestStatus × Option StopReason) :=
  (checkStop req.params.sampling maxModelLen req.promptTokenIds.length outs).or
    (if (PrefillFirst.transferParams req.params).prefillFirst then
      some (.finishedLengthCapped, none) else none)

/-- The output of the request after `k` tokens, if it is served alone. -/
def generation (next : List TokenId → TokenId) (maxModelLen : Nat) (req : EngineCoreRequest)
    (k : Nat) : List TokenId × Option (RequestStatus × Option StopReason) :=
  generate (fun outs => next (req.promptTokenIds ++ outs)) (req.stops maxModelLen) req.seed k

end EngineCoreRequest

def reported (ending : RequestStatus × Option StopReason) :
    Option (FinishReason × Option StopReason) :=
  ending.1.getFinishedReason.map fun reason => (reason, ending.2)

namespace EngineCore

def received (e : EngineCore κ) (r : ReqId) : List TokenId :=
  (outputsOf e.outputs r).flatMap fun o => o.2.newTokenIds

def finish (e : EngineCore κ) (r : ReqId) : Option (FinishReason × Option StopReason) :=
  (outputsOf e.outputs r).getLast?.bind fun o =>
    o.2.finishReason.map fun reason => (reason, o.2.stopReason)

/-- The tokens that come back with an output: each is a function of the tokens before its
position. No load of remote KV fails. -/
def Samples (next : ReqId → List TokenId → TokenId) (e : EngineCore κ) : Event → Prop
  | .update sampled kv _ => kv.invalidBlockIds = [] ∧
    ∀ out ∈ e.inFlight.head?, ∀ r ∈ out.sampledReqs, ∀ q ∈ e.scheduler.requests.get? r,
      q.isFinished = false → sampled r = next r (q.allTokenIds.take (out.tokensAfter r))
  | _ => True

instance Samples.decidable (next : ReqId → List TokenId → TokenId) (e : EngineCore κ) :
    ∀ ev, Decidable (Samples next e ev)
  | .update sampled kv _ => inferInstanceAs (Decidable (kv.invalidBlockIds = [] ∧
      ∀ out ∈ e.inFlight.head?, ∀ r ∈ out.sampledReqs, ∀ q ∈ e.scheduler.requests.get? r,
        q.isFinished = false → sampled r = next r (q.allTokenIds.take (out.tokensAfter r))))
  | .add _ _ => .isTrue trivial
  | .schedule => .isTrue trivial
  | .finish _ _ _ => .isTrue trivial

/-- The request follows the loop that serves it alone. -/
inductive Serves (next : List TokenId → TokenId) (maxModelLen : Nat) (req : EngineCoreRequest)
    (e : EngineCore κ) : Prop where
  | live {q k}
      (hget : e.scheduler.requests.get? req.requestId = some q)
      (hlive : q.isFinished = false)
      (hsampling : q.samplingParams = req.params.sampling)
      (hprompt : q.promptTokenIds = req.promptTokenIds)
      (hfirst : q.prefillFirst = (PrefillFirst.transferParams req.params).prefillFirst)
      (hreason : q.stopReason = none)
      (hgen : req.generation next maxModelLen k = (q.outputTokenIds, none))
      (hreceived : req.seed ++ e.received req.requestId = q.outputTokenIds)
      (hfinish : e.finish req.requestId = none) : Serves next maxModelLen req e
  | ended {k ending}
      (hended : Ended e.scheduler req.requestId)
      (hgen : req.generation next maxModelLen k =
        (req.seed ++ e.received req.requestId, ending))
      (hfinish : e.finish req.requestId = ending.bind reported) : Serves next maxModelLen req e

variable {ev : Event} {e₀ : EngineCore κ} {es : List Event} {out : SchedulerOutput}

section Serves

variable {E : CacheEnv κ} {e e' : EngineCore κ} {req : EngineCoreRequest} {r : ReqId}
  {next : List TokenId → TokenId} {maxModelLen : Nat}

variable {s₀ : Scheduler κ} {now : Nat} {outs : List (ReqId × EngineCoreOutput)}

theorem received_of_nil (houts : e'.outputs = e.outputs ++ outs) (hnil : outputsOf outs r = []) :
    e'.received r = e.received r ∧ e'.finish r = e.finish r := by
  have : outputsOf e'.outputs r = outputsOf e.outputs r := by
    rw [houts, outputsOf_append, hnil, List.append_nil]
  exact ⟨by rw [received, this, received], by rw [finish, this, finish]⟩

theorem received_of_output {o : EngineCoreOutput}
    (houts : e'.outputs = e.outputs ++ outs) (ho : outputsOf outs r = [(r, o)]) :
    e'.received r = e.received r ++ o.newTokenIds ∧
      e'.finish r = o.finishReason.map fun reason => (reason, o.stopReason) := by
  have : outputsOf e'.outputs r = outputsOf e.outputs r ++ [(r, o)] := by
    rw [houts, outputsOf_append, ho]
  constructor
  · rw [received, this, received]
    simp
  · rw [finish, this]
    simp

structure Keeps (r : ReqId) (s s' : Scheduler κ) : Prop where
  ended : Ended s r → Ended s' r
  live : ∀ q, s.requests.get? r = some q → q.isFinished = false →
    (∃ q', s'.requests.get? r = some q' ∧ SameTokens q q') ∨ Ended s' r

theorem Keeps.of_mayEnd {s s' : Scheduler κ} (h : MayEnd s s')
    (hget : s.requests.get? r = s₀.requests.get? r) : Keeps r s₀ s' where
  ended hended := h.ended _ (hended.congr hget)
  live q hq hlive := (h.live _ q (hget.trans hq) hlive).imp_left fun h => ⟨q, h, .refl q⟩

theorem Scheduled.same {config : SchedulerConfig} {q₀ q : Request}
    (h : Scheduled config out r q₀ q) : SameTokens q₀ q := by
  cases h with
  | passed hturn => exact hturn.same
  | runs hturn => exact hturn.same.trans ⟨rfl, rfl, rfl, rfl, .inl rfl, rfl⟩

theorem step_keeps (hok : Ok e) (hseen : r ∈ e.seen)
    (hev : ∀ sampled kv now, ev ≠ .update sampled kv now) (hstep : step E e ev = some e') :
    e'.outputs = e.outputs ∧ Keeps r e.scheduler e'.scheduler := by
  cases ev with
  | add req' now =>
    obtain ⟨hnew, -, houts, -, hend, -⟩ := step_add_requests hstep
    refine ⟨houts, .of_mayEnd hend (Dict.get?_insert_ne ?_)⟩
    rw [toRequest_requestId]
    exact fun heq => hnew (heq ▸ hseen)
  | schedule =>
    obtain ⟨out, -, houts, -, -, -, -, -, hall⟩ := step_schedule_requests hok hstep
    obtain ⟨hnone, hsome⟩ := hall r
    refine ⟨houts, fun hend q' hq' => ?_, fun q hq _ => ?_⟩
    · cases hq₀ : e.scheduler.requests.get? r with
      | none =>
        rw [hnone hq₀] at hq'
        cases hq'
      | some q₀ =>
        obtain ⟨q, hq, hsched⟩ := hsome q₀ hq₀
        obtain rfl := some_unique hq hq'
        exact hsched.same.isFinished.trans (hend q₀ hq₀)
    · obtain ⟨q', hq', hsched⟩ := hsome q hq
      exact .inl ⟨q', hq', hsched.same⟩
  | update sampled kv now => exact absurd rfl (hev sampled kv now)
  | finish ids status now =>
    obtain ⟨-, houts, -, hend⟩ := step_finish_requests hstep
    exact ⟨houts, .of_mayEnd hend rfl⟩

theorem Serves.congr (h : Serves next maxModelLen req e) (houts : e'.outputs = e.outputs)
    (hkeeps : Keeps req.requestId e.scheduler e'.scheduler) : Serves next maxModelLen req e' := by
  obtain ⟨hrec, hfin⟩ := received_of_nil (r := req.requestId)
    (houts.trans (List.append_nil _).symm) rfl
  cases h with
  | @live q k hget hl hsampling hprompt hfirst hreason hgen hsent hfinish =>
    rcases hkeeps.live q hget hl with ⟨q', hget', hsame⟩ | hend
    · exact .live hget' (hsame.isFinished.trans hl) (hsame.samplingParams.trans hsampling)
        (hsame.promptTokenIds.trans hprompt) (hsame.prefillFirst.trans hfirst)
        (hsame.stopReason.trans hreason) (hgen.trans (by rw [hsame.outputTokenIds]))
        (by rw [hrec, hsame.outputTokenIds, hsent]) (hfin.trans hfinish)
    · have hgen' : req.generation next maxModelLen k =
          (req.seed ++ e'.received req.requestId, none) := by rw [hgen, hrec, hsent]
      exact .ended hend hgen' (hfin.trans hfinish)
  | ended hend hgen hfinish =>
    exact .ended (hkeeps.ended hend) (hgen.trans (by rw [hrec])) (hfin.trans hfinish)

theorem ending_eq_stops {q : Request} (hsampling : q.samplingParams = req.params.sampling)
    (hprompt : q.promptTokenIds = req.promptTokenIds)
    (hfirst : q.prefillFirst = (PrefillFirst.transferParams req.params).prefillFirst) :
    q.ending maxModelLen = req.stops maxModelLen q.outputTokenIds := by
  simp only [Request.ending, EngineCoreRequest.stops, hsampling, hfirst, Request.numPromptTokens,
    hprompt]

theorem Serves.update {next : ReqId → List TokenId → TokenId} {sampled : ReqId → TokenId}
    {kv : KVConnectorOutput} (h : Serves (next req.requestId) maxModelLen req e)
    (hcounts : Counts e) (hlen : e.scheduler.config.maxModelLen = maxModelLen)
    (hmodel : Samples next e (.update sampled kv now))
    (hstep : step E e (.update sampled kv now) = some e') :
    Serves (next req.requestId) maxModelLen req e' := by
  obtain ⟨out, rest, outs, hinFlight, -, houts, -, -, hall⟩ :=
    step_update_requests hmodel.1 hstep
  have hr := hall req.requestId
  cases h with
  | ended hended hgen hfinish =>
    obtain ⟨hended', hnil⟩ := hr.ended hended
    obtain ⟨hrec, hfin⟩ := received_of_nil houts hnil
    exact .ended hended' (hgen.trans (by rw [hrec])) (hfin.trans hfinish)
  | @live q k hget hlive hsampling hprompt hfirst hreason hgen hsent hfinish =>
    by_cases hmem : req.requestId ∈ out.sampledReqs
    · -- the step ends at the end of the history, so the token is the next one of the loop
      have hend := (hcounts.counted _ q hget hlive).atEnd
      rw [hinFlight, AtEnd, if_pos hmem] at hend
      have hnext : sampled req.requestId = next req.requestId
          (req.promptTokenIds ++ q.outputTokenIds) := by
        rw [hmodel.2 out (by rw [hinFlight]; rfl) _ hmem q hget hlive, hend.1,
          Request.numTokens, List.take_length, Request.allTokenIds, hprompt]
      have hkey := hcounts.sampled out (hinFlight ▸ List.mem_cons_self) _ hmem
      have houtcome := hr.token q _ hget hlive hkey (if_pos hmem)
      have hgen' := generate_next hgen
      simp only [← hnext] at hgen'
      have hstops : (q.appendOutputTokenIds [sampled req.requestId]).ending
          e.scheduler.config.maxModelLen =
          req.stops maxModelLen (q.outputTokenIds ++ [sampled req.requestId]) := by
        rw [hlen]
        exact ending_eq_stops hsampling hprompt hfirst
      generalize ho : outputsOf outs req.requestId = os at houtcome
      cases houtcome with
      | goes hgoes hget' =>
        obtain ⟨hrec, hfin⟩ := received_of_output houts ho
        rw [← hstops, hgoes] at hgen'
        refine .live hget' hlive hsampling hprompt hfirst hreason hgen' ?_ hfin
        rw [hrec, ← List.append_assoc, hsent]
        rfl
      | @stops params delay s₁ s₂ hstop hended _ _ =>
        obtain ⟨hrec, hfin⟩ := received_of_output houts ho
        obtain ⟨ending, hending⟩ := Option.isSome_iff_exists.mp hstop
        obtain ⟨hstatus, hstopReason⟩ :=
          stoppedBy_ending e.scheduler.config.asyncScheduling hending
        rw [← hstops, hending] at hgen'
        have hgen'' : req.generation (next req.requestId) maxModelLen (k + 1) =
            (req.seed ++ e'.received req.requestId, some ending) := by
          rw [hrec, ← List.append_assoc, hsent]
          exact hgen'
        refine .ended hended hgen'' (hfin.trans ?_)
        simp [Request.toOutput, reported, hstatus, hstopReason, hreason]
    · obtain ⟨hget', hnil⟩ := hr.idle q hget hlive fun _ => if_neg hmem
      obtain ⟨hrec, hfin⟩ := received_of_nil houts hnil
      exact .live hget' hlive hsampling hprompt hfirst hreason hgen (by rw [hrec, hsent])
        (hfin.trans hfinish)

/-! ### Whole runs -/

/-- A run so far, from the scheduler `s₀`. -/
structure Runs (s₀ : Scheduler κ) (e : EngineCore κ) : Prop where
  counts : Counts e
  setup : SameSetup s₀ e.scheduler
  outputs : ∀ o ∈ e.outputs, o.1 ∈ e.seen

theorem Samples.noFailedLoad {next : ReqId → List TokenId → TokenId}
    (h : Samples next e ev) : NoFailedLoad ev := by
  cases ev with
  | update sampled kv now => exact h.1
  | _ => trivial

theorem outputsOf_ne_nil {o : ReqId × EngineCoreOutput}
    (h : o ∈ outs) : outputsOf outs o.1 ≠ [] := by
  refine List.ne_nil_of_mem (a := o) (List.mem_filter.mpr ⟨h, by simp⟩)

theorem Runs.outputsOf_eq_nil (h : Runs s₀ e) (hseen : r ∉ e.seen) :
    outputsOf e.outputs r = [] := by
  refine List.filter_eq_nil_iff.mpr fun o ho heq => hseen ?_
  rw [← of_decide_eq_true heq]
  exact h.outputs o ho

theorem Runs.step (h : Runs s₀ e) (hev : NoFailedLoad ev)
    (hstep : EngineCore.step E e ev = some e') : Runs s₀ e' := by
  refine ⟨h.counts.step hev hstep, h.setup.trans (step_setup h.counts.ok hev hstep), ?_⟩
  cases ev with
  | add req now =>
    obtain ⟨-, -, houts, hseen, -⟩ := step_add_requests hstep
    rw [houts, hseen]
    exact fun o ho => Finset.mem_insert_of_mem (h.outputs o ho)
  | schedule =>
    obtain ⟨_, -, houts, hseen, -⟩ := step_schedule_requests h.counts.ok hstep
    rw [houts, hseen]
    exact h.outputs
  | update sampled kv now =>
    obtain ⟨out, rest, outs, -, -, houts, hseen, -, hall⟩ := step_update_requests hev hstep
    rw [houts, hseen]
    intro o ho
    rcases List.mem_append.mp ho with ho | ho
    · exact h.outputs o ho
    · -- an output is for a request that was there
      by_contra hnot
      have hended : Ended e.scheduler o.1 := fun q hq =>
        absurd (h.counts.ok.seen o.1 q hq) hnot
      exact outputsOf_ne_nil ho ((hall o.1).ended hended).2
  | finish ids status now =>
    obtain ⟨-, houts, hseen, -⟩ := step_finish_requests hstep
    rw [houts, hseen]
    exact h.outputs

theorem Fresh.runs (h : Fresh e) : Runs e.scheduler e :=
  ⟨h.counts, .refl _, by simp [h.outputs]⟩

theorem toRequest_fields (habort : req.abortImmediately = false) :
    req.toRequest.samplingParams = req.params.sampling ∧
      req.toRequest.promptTokenIds = req.promptTokenIds ∧
      req.toRequest.prefillFirst = (PrefillFirst.transferParams req.params).prefillFirst ∧
      req.toRequest.stopReason = none ∧ req.toRequest.outputTokenIds = req.seed := by
  simp only [EngineCoreRequest.toRequest, Request.init, habort, Bool.false_eq_true, if_false,
    Request.appendOutputTokenIds, List.nil_append, EngineCoreRequest.seed, true_and, and_true,
    Request.prefillFirst, PrefillFirst.transferParams]
  cases req.params.kvTransferParams <;> rfl

theorem Serves.start (h : Runs s₀ e)
    (habort : req.abortImmediately = false) (hstep : step E e (.add req now) = some e') :
    Serves next maxModelLen req e' := by
  obtain ⟨hseen, -, houts, -, -, hget⟩ := step_add_requests hstep
  obtain ⟨hsampling, hprompt, hfirst, hreason, hseed⟩ := toRequest_fields habort
  have hnil : outputsOf e'.outputs req.requestId = [] := by
    rw [houts]
    exact h.outputsOf_eq_nil hseen
  have hgen : req.generation next maxModelLen 0 = (req.toRequest.outputTokenIds, none) := by
    rw [hseed]
    rfl
  refine .live (hget habort) ?_ hsampling hprompt hfirst hreason hgen ?_ ?_
  · rw [Request.isFinished, toRequest_status]
    rfl
  · rw [hseed, received, hnil]
    exact List.append_nil _
  · rw [finish, hnil]
    rfl

theorem Serves.step {next : ReqId → List TokenId → TokenId}
    (h : Serves (next req.requestId) s₀.config.maxModelLen req e) (hruns : Runs s₀ e)
    (hseen : req.requestId ∈ e.seen) (hmodel : Samples next e ev)
    (hstep : EngineCore.step E e ev = some e') :
    Serves (next req.requestId) s₀.config.maxModelLen req e' := by
  by_cases hev : ∃ sampled kv now, ev = .update sampled kv now
  · obtain ⟨sampled, kv, now, rfl⟩ := hev
    exact h.update hruns.counts (by rw [hruns.setup.config]) hmodel hstep
  · obtain ⟨houts, hkeeps⟩ := step_keeps hruns.counts.ok hseen
      (fun sampled kv now heq => hev ⟨sampled, kv, now, heq⟩) hstep
    exact h.congr houts hkeeps

theorem runs_of_exec {next : ReqId → List TokenId → TokenId}
    (hfresh : Fresh e₀) (hmodel : Machine.Along (EngineCore.step E) (Samples next) e₀ es)
    (hrun : Machine.exec (EngineCore.step E) e₀ es = some e) : Runs e₀.scheduler e :=
  Machine.exec_invariant_along (fun _ _ _ h hC hs => h.step hC.noFailedLoad hs) hfresh.runs
    hmodel hrun

theorem exec_since_add {next : ReqId → List TokenId → TokenId}
    {P : EngineCore κ → Prop} (hfresh : Fresh e₀)
    (hmodel : Machine.Along (EngineCore.step E) (Samples next) e₀ es)
    (hrun : Machine.exec (EngineCore.step E) e₀ es = some e) (hadd : .add req now ∈ es)
    (hstart : ∀ e e', Runs e₀.scheduler e → EngineCore.step E e (.add req now) = some e' → P e')
    (hstep : ∀ e ev e', P e → Runs e₀.scheduler e → req.requestId ∈ e.seen →
    Samples next e ev → EngineCore.step E e ev = some e' → P e') : P e := by
  obtain ⟨es₁, es₂, rfl⟩ := List.append_of_mem hadd
  rw [Machine.exec_append] at hrun
  obtain ⟨e₁, hrun₁, hrun₂⟩ := Option.bind_eq_some_iff.mp hrun
  obtain ⟨e₂, hstep₁, hrun₂⟩ := (Machine.exec_cons_eq_some _).mp hrun₂
  have hruns := runs_of_exec hfresh hmodel.append_left hrun₁
  have hmodel₂ := (hmodel.append_right hrun₁).2 e₂ hstep₁
  have hseen : req.requestId ∈ e₂.seen := by
    rw [(step_add_requests hstep₁).2.2.2.1]
    exact Finset.mem_insert_self _ _
  have hnothing : NoFailedLoad (.add req now) := trivial
  refine (Machine.exec_invariant_along
    (P := fun e => Runs e₀.scheduler e ∧ P e ∧ req.requestId ∈ e.seen)
    (fun _ _ _ h hC hs => ⟨h.1.step hC.noFailedLoad hs, hstep _ _ _ h.2.1 h.1 h.2.2 hC hs,
      step_seen hs h.2.2⟩)
    ⟨hruns.step hnothing hstep₁, hstart _ _ hruns hstep₁, hseen⟩ hmodel₂ hrun₂).2.1

theorem serves_of_exec {next : ReqId → List TokenId → TokenId} (hfresh : Fresh e₀)
    (hmodel : Machine.Along (EngineCore.step E) (Samples next) e₀ es)
    (hrun : Machine.exec (EngineCore.step E) e₀ es = some e) (hadd : .add req now ∈ es)
    (habort : req.abortImmediately = false) :
    Serves (next req.requestId) e₀.scheduler.config.maxModelLen req e :=
  exec_since_add hfresh hmodel hrun hadd (fun _ _ hruns hs => .start hruns habort hs)
    fun _ _ _ h hruns hseen hC hs => h.step hruns hseen hC hs

/-- The tokens `xs` and `ys` that two observers got so far are those of one sequence, and what
they know of its end is the same. -/
structure Agrees (xs ys : List TokenId) (f g : Option (FinishReason × Option StopReason)) :
    Prop where
  comparable : xs <+: ys ∨ ys <+: xs
  left : f.isSome → ys <+: xs
  right : g.isSome → xs <+: ys
  both : f.isSome → g.isSome → xs = ys ∧ f = g

theorem Agrees.of_generate {next : List TokenId → TokenId}
    {stops : List TokenId → Option (RequestStatus × Option StopReason)} {zs xs ys : List TokenId}
    {o o' : Option (RequestStatus × Option StopReason)} {j k : Nat}
    (h : generate next stops zs j = (xs, o)) (h' : generate next stops zs k = (ys, o')) :
    Agrees xs ys (o.bind reported) (o'.bind reported) := by
  have hended : ∀ {o : Option (RequestStatus × Option StopReason)},
      (o.bind reported).isSome → ∃ x, o = some x := fun {o} ho => by
    cases o with
    | none => cases ho
    | some x => exact ⟨x, rfl⟩
  refine ⟨?_, fun hsome => ?_, fun hsome => ?_, fun hsome hsome' => ?_⟩
  · have hcomp := generate_comparable next stops zs j k
    rwa [h, h'] at hcomp
  · obtain ⟨x, rfl⟩ := hended hsome
    have := prefix_of_ended h k
    rwa [h'] at this
  · obtain ⟨x, rfl⟩ := hended hsome
    have := prefix_of_ended h' j
    rwa [h] at this
  · obtain ⟨x, rfl⟩ := hended hsome
    obtain ⟨x', rfl⟩ := hended hsome'
    obtain ⟨hout, rfl⟩ := ended_unique h h'
    exact ⟨hout, rfl⟩

theorem Agrees.of_append {zs xs ys : List TokenId} {f g : Option (FinishReason × Option StopReason)}
    (h : Agrees (zs ++ xs) (zs ++ ys) f g) : Agrees xs ys f g where
  comparable := h.comparable.imp (List.prefix_append_right_inj zs).mp
    (List.prefix_append_right_inj zs).mp
  left hf := (List.prefix_append_right_inj zs).mp (h.left hf)
  right hg := (List.prefix_append_right_inj zs).mp (h.right hg)
  both hf hg := (h.both hf hg).imp_left List.append_cancel_left

theorem Serves.generation (h : Serves next maxModelLen req e) : ∃ k ending,
    req.generation next maxModelLen k = (req.seed ++ e.received req.requestId, ending) ∧
      e.finish req.requestId = ending.bind reported := by
  cases h with
  | @live q k hget hlive hsampling hprompt hfirst hreason hgen hsent hfinish =>
    exact ⟨k, none, by rw [hgen, hsent], hfinish⟩
  | @ended k ending hended hgen hfinish => exact ⟨k, ending, hgen, hfinish⟩

theorem Serves.agrees {κ' : Type} [DecidableEq κ'] {e' : EngineCore κ'}
    (h : Serves next maxModelLen req e) (h' : Serves next maxModelLen req e') :
    Agrees (e.received req.requestId) (e'.received req.requestId) (e.finish req.requestId)
      (e'.finish req.requestId) := by
  obtain ⟨j, ending, hgen, hfinish⟩ := h.generation
  obtain ⟨k, ending', hgen', hfinish'⟩ := h'.generation
  rw [hfinish, hfinish']
  exact (Agrees.of_generate hgen hgen').of_append

end Serves

/-! ### Room for another token -/

/-- The next token of the request is within its limits, and `min_tokens` fit in the model. -/
structure Room (maxModelLen : Nat) (q : Request) : Prop where
  output : q.numOutputTokens < q.samplingParams.maxTokens
  total : q.numTokens < maxModelLen
  minimum : q.numPromptTokens + q.samplingParams.minTokens ≤ maxModelLen

def HasRoom (e : EngineCore κ) : Prop :=
  ∀ r q, e.scheduler.requests.get? r = some q → q.isFinished = false →
    Room e.scheduler.config.maxModelLen q

section Room

variable {E : CacheEnv κ} {e e' : EngineCore κ} {r : ReqId} {q q' : Request} {maxModelLen : Nat}

theorem Room.same (h : Room maxModelLen q) (hsame : SameTokens q q') : Room maxModelLen q' := by
  refine ⟨?_, ?_, ?_⟩
  · rw [Request.numOutputTokens, hsame.outputTokenIds, hsame.samplingParams]
    exact h.output
  · rw [hsame.numTokens]
    exact h.total
  · rw [Request.numPromptTokens, hsame.promptTokenIds, hsame.samplingParams]
    exact h.minimum

theorem Room.token {async : Bool} {t : TokenId} (h : Room maxModelLen q)
    (hgoes : (q.appendOutputTokenIds [t]).ending maxModelLen = none) :
    Room maxModelLen (withToken async q t) := by
  have hstop := (Option.or_eq_none_iff.mp hgoes).1
  obtain ⟨hmax, hlen⟩ := checkStop_none_lt hstop h.minimum
  refine ⟨hmax, ?_, h.minimum⟩
  rw [Request.numTokens, Request.allTokenIds, List.length_append]
  exact hlen

theorem HasRoom.mayEnd {s : Scheduler κ} (hend : MayEnd s e'.scheduler)
    (hroom : ∀ r q, s.requests.get? r = some q → q.isFinished = false →
      Room s.config.maxModelLen q) : HasRoom e' := by
  intro r q' hq' hlive'
  rw [hend.setup.config]
  obtain hended | ⟨q, hq, hlive⟩ := ended_or_live s r
  · exact absurd hlive' ((hend.ended r hended).not_live hq')
  rcases hend.live r q hq hlive with hget | hended
  · obtain rfl := some_unique hget hq'
    exact hroom r q hq hlive
  · exact absurd hlive' (hended.not_live hq')

theorem HasRoom.step (h : HasRoom e) (hcounts : Counts e) (hev : NoFailedLoad ev)
    (hadd : ∀ req now, ev = .add req now → Room e.scheduler.config.maxModelLen req.toRequest)
    (hstep : EngineCore.step E e ev = some e') : HasRoom e' := by
  cases ev with
  | add req now =>
    obtain ⟨-, -, -, -, hend, -⟩ := step_add_requests hstep
    refine .mayEnd hend fun r q hq hlive => ?_
    rcases eq_or_ne req.toRequest.requestId r with rfl | hne
    · obtain rfl := some_unique Dict.get?_insert_self hq
      exact hadd req now rfl
    · exact h r q ((Dict.get?_insert_ne hne).symm.trans hq) hlive
  | schedule =>
    obtain ⟨out, -, -, -, -, hsetup, -, -, hall⟩ := step_schedule_requests hcounts.ok hstep
    intro r q' hq' hlive'
    obtain ⟨hnone, hsome⟩ := hall r
    cases hq₀ : e.scheduler.requests.get? r with
    | none =>
      rw [hnone hq₀] at hq'
      cases hq'
    | some q₀ =>
      obtain ⟨q, hq, hsched⟩ := hsome q₀ hq₀
      obtain rfl := some_unique hq hq'
      rw [hsetup.config]
      exact (h r q₀ hq₀ (hsched.same.isFinished ▸ hlive')).same hsched.same
  | update sampled kv now =>
    obtain ⟨out, rest, outs, hinFlight, -, -, -, hsetup, hall⟩ := step_update_requests hev hstep
    intro r q' hq' hlive'
    have hr := hall r
    rw [hsetup.config]
    obtain hended | ⟨q, hq, hlive⟩ := ended_or_live e.scheduler r
    · exact absurd hlive' ((hr.ended hended).1.not_live hq')
    by_cases hmem : r ∈ out.sampledReqs
    · have hkey := hcounts.sampled out (hinFlight ▸ List.mem_cons_self) r hmem
      have houtcome := hr.token q _ hq hlive hkey (if_pos hmem)
      generalize outputsOf outs r = os at houtcome
      cases houtcome with
      | goes hgoes hget =>
        obtain rfl := some_unique hget hq'
        exact (h r q hq hlive).token hgoes
      | stops _ hended => exact absurd hlive' (hended.not_live hq')
    · obtain ⟨hget, -⟩ := hr.idle q hq hlive fun _ => if_neg hmem
      obtain rfl := some_unique hget hq'
      exact h r q hq hlive
  | finish ids status now =>
    obtain ⟨-, -, -, hend⟩ := step_finish_requests hstep
    exact .mayEnd hend h

/-- A request that takes part in a step while one of its tokens is under way: the limits leave room
for that token and for the next. -/
theorem Counts.room_of_placeholder {n : Nat} (h : Counts e)
    (hlt : e.inFlight.length < e.scheduler.config.maxInFlight)
    (hq : e.scheduler.requests.get? r = some q) (hlive : q.isFinished = false)
    (hsched : Scheduled e.scheduler.config out r q q')
    (hn : out.numScheduledTokens.get? r = some n) (hpos : 0 < q.numOutputPlaceholders) :
    q.numOutputTokens + q.numOutputPlaceholders < q.samplingParams.maxTokens ∧
      q.numTokens + q.numOutputPlaceholders < e.scheduler.config.maxModelLen := by
  have hcounted := h.counted r q hq hlive
  have hone : underWay e.inFlight r ≤ 1 := by
    refine (List.countP_le_length ..).trans ?_
    have hmax : e.scheduler.config.maxInFlight ≤ 2 := by
      unfold SchedulerConfig.maxInFlight
      split <;> omega
    omega
  have hplace := hcounted.placeholders
  have hcount : underWay e.inFlight r = 1 ∧ q.numOutputPlaceholders = 1 := by
    split at hplace <;> omega
  have hrun : q.status = .running := by
    by_contra hwait
    have := h.waiting hlt hq hlive hwait
    omega
  have hbusy := hcounted.busy hrun (by omega)
  cases hsched with
  | passed _ hnone =>
    rw [hnone] at hn
    cases hn
  | @runs q₁ k hturn hsome _ _ =>
    obtain ⟨hrun₁, hk, -, hlimit⟩ := hturn.scheduled k rfl
    obtain ⟨hmore, hlen⟩ := hlimit hrun
    have hcomputed := hturn.kept hrun₁ hrun
    have hplace₁ := hturn.placeholders
    have hprompt : q₁.numPromptTokens = q.numPromptTokens := by
      rw [Request.numPromptTokens, hturn.same.promptTokenIds, Request.numPromptTokens]
    have htokens : q.numTokens = q.numPromptTokens + q.numOutputTokens := by
      rw [Request.numTokens, Request.allTokenIds, List.length_append]
      rfl
    simp only [Scheduler.reachesMaxTokens, hplace₁, hcomputed, hprompt, hturn.same.samplingParams,
      hcount.2, Bool.and_eq_false_iff, decide_eq_false_iff_not] at hmore
    omega

theorem Counts.room {n : Nat} (h : Counts e) (hroom : HasRoom e)
    (hlt : e.inFlight.length < e.scheduler.config.maxInFlight)
    (hq : e.scheduler.requests.get? r = some q) (hlive : q.isFinished = false)
    (hsched : Scheduled e.scheduler.config out r q q')
    (hn : out.numScheduledTokens.get? r = some n) :
    q.numOutputTokens + q.numOutputPlaceholders < q.samplingParams.maxTokens ∧
      q.numTokens + q.numOutputPlaceholders < e.scheduler.config.maxModelLen := by
  have hr := hroom r q hq hlive
  rcases Nat.eq_zero_or_pos q.numOutputPlaceholders with hzero | hpos
  · rw [hzero]
    exact ⟨hr.output, hr.total⟩
  · exact h.room_of_placeholder hlt hq hlive hsched hn hpos

end Room

theorem hasRoom_of_exec {E : CacheEnv κ} {next : ReqId → List TokenId → TokenId}
    {e : EngineCore κ} (hfresh : Fresh e₀)
    (hmodel : Machine.Along (EngineCore.step E) (Samples next) e₀ es)
    (hrun : Machine.exec (EngineCore.step E) e₀ es = some e)
    (hadd : ∀ req now, .add req now ∈ es → Room e₀.scheduler.config.maxModelLen req.toRequest) :
    HasRoom e := by
  have hevents : ∀ ev ∈ es, ∀ req now, ev = .add req now →
      Room e₀.scheduler.config.maxModelLen req.toRequest := by
    rintro ev hev req now rfl
    exact hadd req now hev
  have hstart : HasRoom e₀ := fun r q hq => by simp [hfresh.requests] at hq
  refine (Machine.exec_invariant_along
    (P := fun e => Runs e₀.scheduler e ∧ HasRoom e) (fun s ev t h hC hs => ?_)
    ⟨hfresh.runs, hstart⟩ (hmodel.and_of_mem hevents) hrun).2
  refine ⟨h.1.step hC.1.noFailedLoad hs,
    h.2.step h.1.counts hC.1.noFailedLoad (fun req now hev => ?_) hs⟩
  rw [h.1.setup.config]
  exact hC.2 req now hev

structure Plain (maxModelLen : Nat) (req : EngineCoreRequest) : Prop where
  kvTransferParams : req.params.kvTransferParams = none
  numPromptTokens : req.promptTokenIds.length < maxModelLen

theorem Plain.room {maxModelLen : Nat} {req : EngineCoreRequest} (h : Plain maxModelLen req)
    (hmin : req.promptTokenIds.length + req.params.sampling.minTokens ≤ maxModelLen) :
    Room maxModelLen req.toRequest := by
  have hfields : req.toRequest.samplingParams = req.params.sampling ∧
      req.toRequest.promptTokenIds = req.promptTokenIds ∧ req.toRequest.outputTokenIds = [] := by
    unfold EngineCoreRequest.toRequest Request.init
    simp only [PrefillFirst.firstTokenIds, PrefillFirst.transferParams, h.kvTransferParams]
    split <;> exact ⟨rfl, rfl, rfl⟩
  obtain ⟨hsampling, hprompt, houts⟩ := hfields
  refine ⟨?_, ?_, ?_⟩
  · rw [Request.numOutputTokens, houts, hsampling]
    exact req.params.sampling.maxTokens_pos
  · rw [Request.numTokens, Request.allTokenIds, houts, hprompt, List.append_nil]
    exact h.numPromptTokens
  · rw [Request.numPromptTokens, hprompt, hsampling]
    exact hmin

def countTokens (_ : ReqId) (history : List TokenId) : TokenId := history.length

def twoTokens : EngineCoreRequest where
  requestId := 0
  params := { sampling := upTo 2 Nat.two_pos }
  promptTokenIds := [9]

def asyncConfig : SchedulerConfig where
  maxNumRunningReqs := 4
  maxNumScheduledTokens := 8
  maxModelLen := 8
  asyncScheduling := true

def asyncTwoTokens : List Event :=
  [.add twoTokens 0, .schedule, .schedule, .update (fun _ => 1) {} 0, .update (fun _ => 2) {} 0]

def syncTwoTokens : List Event :=
  [.add twoTokens 0, .schedule, .update (fun _ => 1) {} 0, .schedule, .update (fun _ => 2) {} 0]

def atLeastThree : EngineCoreRequest where
  requestId := 1
  params := { sampling := { upTo 3 one_le_three with minTokens := 3, minTokens_le := by decide } }
  promptTokenIds := [5, 6]

def threeTokenConfig : SchedulerConfig := { asyncConfig with maxModelLen := 3 }

/-- The request reaches `max_model_len` with its first token, goes on because of `min_tokens`,
and is preempted. -/
def beyondModelLen : List Event :=
  [.add twoTokens 0, .add atLeastThree 0, .schedule, .schedule,
    .update (fun r => if r = 0 then 1 else 2) {} 0, .update (fun _ => 2) {} 0]

end EngineCore

end EldrServing.Sched
