import EldrServing.Sched.Outputs

/-!
# Forced resets of the prefix cache

`reset_prefix_cache` with `reset_running_requests` preempts every running request and empties the
prefix cache. Steps that are under way then return tokens that are computed again; one flag for
each request, `discard_latest_async_tokens`, tells the async scheduler to drop such a token.
-/

namespace EldrServing.Sched

set_option autoImplicit false
set_option linter.unusedSectionVars false

open Engine KVCache Nixl Generate

variable {κ : Type} [DecidableEq κ]

namespace Scheduler

/-- The loop of `reset_prefix_cache` over the running requests, from the last one. -/
def preemptAll : List ReqId → Scheduler κ → Except PyError (Scheduler κ)
  | [], s => .ok s
  | r :: rs, s => do
    let s ← (s.setRunning s.running.dropLast).preemptRequest r
    let q ← s.getRequest r
    preemptAll rs (s.putRequest r { q with numOutputPlaceholders := 0 })

/-- `reset_prefix_cache(reset_running_requests=True)`. -/
def resetPrefixCache (s : Scheduler κ) : Except PyError (Scheduler κ) := do
  let s ← preemptAll s.running.reverse s
  let (ok, kv) := s.kvCacheManager.resetPrefixCache
  if ok then .ok (s.setKv kv)
  else .error (.runtimeError ("Failed to reset KV cache even when all the running requests are " ++
    "preempted and moved to the waiting queue. This is likely due to the presence of running " ++
    "requests waiting for remote KV transfer, which is not supported yet."))

/-- The loop of `update_from_output`, with the requests whose next token is discarded. -/
def discardLoop (E : CacheEnv κ) (failed : List ReqId) (sampled : ReqId → List TokenId)
    (now : Nat) : List (ReqId × Nat) → Finset ReqId → Scheduler κ → UpdateState →
      Except PyError (Finset ReqId × Scheduler κ × UpdateState)
  | [], discard, s, u => .ok (discard, s, u)
  | (r, n) :: rest, discard, s, u => do
    assert (0 < n) ""
    if r ∈ failed then discardLoop E failed sampled now rest discard s u
    else
      match s.requests.get? r with
      | none => discardLoop E failed sampled now rest discard s u
      | some q =>
        if q.isFinished then discardLoop E failed sampled now rest discard s u
        else if sampled r ≠ [] ∧ r ∈ discard then
          -- `_update_request_with_output` clears the flag and returns no token
          discardLoop E failed sampled now rest (discard.erase r) s u
        else do
          let (s, u) ← s.updateRequest E u r q (sampled r) now
          discardLoop E failed sampled now rest discard s u

/-- `update_from_output` of the async scheduler, with the flags. -/
def updateDiscarding (E : CacheEnv κ) (s : Scheduler κ) (discard : Finset ReqId)
    (out : SchedulerOutput) (sampled : ReqId → List TokenId) (kv : KVConnectorOutput) (now : Nat) :
    Except PyError (Finset ReqId × List (ReqId × EngineCoreOutput) × Scheduler κ) := do
  let (failed, s) ← s.checkInvalidBlocks out kv
  let (discard, s, u) ←
    discardLoop E failed sampled now out.numScheduledTokens.entries discard s {}
  let s ← (s.removeStopped u).failRequests failed now
  let s ← s.updateFromKvXferFinished kv
  .ok (discard, u.outputs, s)

end Scheduler

/-- The engine core, with the requests whose `discard_latest_async_tokens` is set. -/
structure ResetCore (κ : Type) where
  core : EngineCore κ
  discard : Finset ReqId := ∅

inductive ResetEvent where
  | engine (ev : Event)
  | reset

namespace ResetCore

def step (E : CacheEnv κ) (c : ResetCore κ) : ResetEvent → Option (ResetCore κ)
  | .engine (.update sampled kv now) =>
    match c.core.inFlight with
    | [] => none
    | out :: rest =>
      (c.core.scheduler.updateDiscarding E c.discard out (sampledTokens out sampled) kv
        now).toOption.map fun (discard, outs, s) =>
          { core := { c.core with
              scheduler := s, inFlight := rest, outputs := c.core.outputs ++ outs }
            discard }
  | .engine ev => (c.core.step E ev).map fun e => { c with core := e }
  | .reset =>
    c.core.scheduler.resetPrefixCache.toOption.map fun s =>
      { core := { c.core with scheduler := s }
        discard := c.discard ∪ c.core.scheduler.running.toFinset }

end ResetCore

/-! ### The forced preemption -/

section Preempt

variable {s s' : Scheduler κ} {r : ReqId} {q : Request}

def forcedOut (q : Request) : Request := { preempted q with numOutputPlaceholders := 0 }

theorem forcedOut_same (hstatus : q.status = .running) : SameTokens q (forcedOut q) := by
  refine ⟨rfl, rfl, rfl, rfl, .inl rfl, ?_⟩
  rw [Request.isFinished, Request.isFinished, hstatus]
  rfl

/-- The running requests `rs` went back to the waiting queue. -/
structure PreemptsAll (rs : List ReqId) (s s' : Scheduler κ) : Prop where
  running : s'.running = []
  waiting : s'.waiting = rs.reverse ++ s.waiting
  skippedWaiting : s'.skippedWaiting = s.skippedWaiting
  setup : SameSetup s s'
  others : ∀ r, r ∉ rs → s'.requests.get? r = s.requests.get? r
  preempted : ∀ r ∈ rs, ∃ q, s.requests.get? r = some q ∧ q.status = .running ∧
    s'.requests.get? r = some (forcedOut q)

theorem preemptAll_ok {rs : List ReqId} (hnodup : rs.Nodup) (hrun : s.running = rs.reverse)
    (h : Scheduler.preemptAll rs s = .ok s') : PreemptsAll rs s s' := by
  induction rs generalizing s with
  | nil =>
    obtain rfl := Except.ok.inj h
    exact ⟨by simpa using hrun, rfl, rfl, .refl s, fun _ _ => rfl, by simp⟩
  | cons a rs ih =>
    rw [List.nodup_cons] at hnodup
    simp only [Scheduler.preemptAll, except_bind_eq_ok, getRequest_eq_ok] at h
    obtain ⟨s₁, hpreempt, q₁, hq₁, hrest⟩ := h
    obtain ⟨q, kv, hq, hstatus, -, rfl⟩ := preemptRequest_ok hpreempt
    obtain rfl := some_unique Dict.get?_insert_self hq₁
    have hdrop : s.running.dropLast = rs.reverse := by
      rw [hrun, List.reverse_cons, List.dropLast_concat]
    obtain ⟨hrunning, hwaiting, hskipped, hsetup, hothers, hall⟩ := ih hnodup.2 hdrop hrest
    have hget : ∀ r, r ≠ a → (((({ (((s.setRunning s.running.dropLast).setKv kv).putRequest a
        (preempted q)) with waiting := a :: s.waiting } : Scheduler κ).putRequest a
        (forcedOut q)).requests.get? r)) = s.requests.get? r := fun r hne =>
      (Dict.get?_insert_ne hne.symm).trans (Dict.get?_insert_ne hne.symm)
    refine ⟨hrunning, ?_, hskipped, ⟨hsetup.config, hsetup.connector⟩, fun r hr => ?_,
      fun r hr => ?_⟩
    · rw [hwaiting, List.reverse_cons, List.append_assoc]
      rfl
    · rw [List.mem_cons, not_or] at hr
      exact (hothers r hr.2).trans (hget r hr.1)
    · rcases List.mem_cons.mp hr with rfl | hr
      · refine ⟨q, hq, hstatus, (hothers r hnodup.1).trans ?_⟩
        exact Dict.get?_insert_self
      · obtain ⟨q', hq', hstatus', hget'⟩ := hall r hr
        have hne : r ≠ a := fun heq => hnodup.1 (heq ▸ hr)
        exact ⟨q', (hget r hne).symm.trans hq', hstatus', hget'⟩

theorem resetPrefixCache_ok (hnodup : s.running.Nodup) (h : s.resetPrefixCache = .ok s') :
    PreemptsAll s.running.reverse s s' := by
  simp only [Scheduler.resetPrefixCache, except_bind_eq_ok] at h
  obtain ⟨s₁, hall, hreset⟩ := h
  split at hreset
  · obtain rfl := Except.ok.inj hreset
    obtain ⟨hrunning, hwaiting, hskipped, hsetup, hothers, hpre⟩ :=
      preemptAll_ok (List.nodup_reverse.mpr hnodup) (List.reverse_reverse _).symm hall
    exact ⟨hrunning, hwaiting, hskipped, ⟨hsetup.config, hsetup.connector⟩, hothers, hpre⟩
  · cases hreset

theorem PreemptsAll.cases {rs : List ReqId} (h : PreemptsAll rs s s')
    (hq : s'.requests.get? r = some q) :
    (r ∉ rs ∧ s.requests.get? r = some q) ∨
      ∃ q₀, r ∈ rs ∧ s.requests.get? r = some q₀ ∧ q₀.status = .running ∧ q = forcedOut q₀ := by
  by_cases hr : r ∈ rs
  · obtain ⟨q₀, hq₀, hstatus, hget⟩ := h.preempted r hr
    exact .inr ⟨q₀, hr, hq₀, hstatus, some_unique hq hget⟩
  · exact .inl ⟨hr, (h.others r hr).symm.trans hq⟩

theorem PreemptsAll.keeps {rs : List ReqId} (h : PreemptsAll rs s s') (r : ReqId) :
    EngineCore.Keeps r s s' := by
  refine ⟨fun hended q hq => ?_, fun q hq hlive => ?_⟩
  · rcases h.cases hq with ⟨-, hq⟩ | ⟨q₀, -, hq₀, hstatus, rfl⟩
    · exact hended q hq
    · have := hended q₀ hq₀
      rw [Request.isFinished, hstatus] at this
      cases this
  · by_cases hr : r ∈ rs
    · obtain ⟨q₀, hq₀, hstatus, hget⟩ := h.preempted r hr
      obtain rfl := some_unique hq hq₀
      exact .inl ⟨_, hget, forcedOut_same hstatus⟩
    · exact .inl ⟨q, (h.others r hr).trans hq, .refl q⟩

theorem QueuesOk.preemptsAll (hok : QueuesOk s []) (h : PreemptsAll s.running.reverse s s') :
    QueuesOk s' [] := by
  have hwaiting : s'.waiting = s.running ++ s.waiting := by
    rw [h.waiting, List.reverse_reverse]
  have hqueued : Sched.queued s' [] = s.running ++ Sched.queued s [] := by
    rw [Sched.queued, hwaiting, h.skippedWaiting, List.append_assoc]
    rfl
  refine ⟨fun r q hq => ?_, ?_, fun r => ?_, ?_, fun r => ?_, fun r q hq hstatus => ?_⟩
  · rcases h.cases hq with ⟨-, hq⟩ | ⟨q₀, -, hq₀, -, rfl⟩
    · exact hok.keys r q hq
    · exact hok.keys r q₀ hq₀
  · rw [h.running]
    exact List.nodup_nil
  · rw [h.running]
    refine ⟨fun hmem => by simp at hmem, ?_⟩
    rintro ⟨q, hq, hrun⟩
    rcases h.cases hq with ⟨hnot, hq⟩ | ⟨q₀, -, -, -, rfl⟩
    · exact absurd ((hok.running r).mpr ⟨q, hq, hrun⟩) (by simpa using hnot)
    · cases hrun
  · rw [hqueued]
    refine List.Nodup.append hok.running_nodup hok.queued_nodup ?_
    exact fun r hr hmem => hok.not_mem_queued hr hmem
  · rw [hqueued, List.mem_append, hok.queued]
    constructor
    · rintro (hr | ⟨q, hq, hne, hlive⟩)
      · obtain ⟨q₀, hq₀, hstatus, hget⟩ := h.preempted r (by simpa using hr)
        refine ⟨_, hget, by simp [forcedOut, Sched.preempted], ?_⟩
        rw [(forcedOut_same hstatus).isFinished, Request.isFinished, hstatus]
        rfl
      · have hnot : r ∉ s.running := fun hr => by
          obtain ⟨q₀, hq₀, hstatus⟩ := (hok.running r).mp hr
          obtain rfl := some_unique hq hq₀
          exact hne hstatus
        exact ⟨q, (h.others r (by simpa using hnot)).trans hq, hne, hlive⟩
    · rintro ⟨q, hq, hne, hlive⟩
      rcases h.cases hq with ⟨-, hq⟩ | ⟨q₀, hr, -, -, -⟩
      · exact .inr ⟨q, hq, hne, hlive⟩
      · exact .inl (by simpa using hr)
  · rw [h.skippedWaiting]
    rcases h.cases hq with ⟨-, hq⟩ | ⟨q₀, -, -, -, rfl⟩
    · exact hok.loading r q hq hstatus
    · cases hstatus

end Preempt

/-! ### Steps without the discarded tokens -/

namespace SchedulerOutput

/-- The step without the requests in `dropped`. -/
def without (out : SchedulerOutput) (dropped : Finset ReqId) : SchedulerOutput :=
  { out with
    numScheduledTokens := out.numScheduledTokens.filterKeys (· ∉ dropped)
    sampledReqs := out.sampledReqs.filter (· ∉ dropped) }

variable {out : SchedulerOutput} {dropped more : Finset ReqId} {r : ReqId}

@[simp] theorem mem_sampledReqs_without :
    r ∈ (out.without dropped).sampledReqs ↔ r ∈ out.sampledReqs ∧ r ∉ dropped := by
  simp [without]

theorem without_empty : out.without ∅ = out := by
  simp [without, Dict.filterKeys]

theorem without_without : (out.without dropped).without more = out.without (dropped ∪ more) := by
  simp only [without, Dict.filterKeys, List.filter_filter, Finset.mem_union, not_or,
    Bool.decide_and, Bool.and_comm]

theorem tokensAfter_without (h : r ∉ dropped) :
    (out.without dropped).tokensAfter r = out.tokensAfter r := by
  simp [tokensAfter, Dict.getD, without, Dict.get?_filterKeys, h]

theorem sampledTokens_without (sampled : ReqId → TokenId) (h : r ∉ dropped) :
    sampledTokens (out.without dropped) sampled r = sampledTokens out sampled r := by
  simp [sampledTokens, h]

end SchedulerOutput

section Discard

variable {E : CacheEnv κ} {s s' : Scheduler κ} {u u' : Scheduler.UpdateState} {r : ReqId}
  {n now : Nat} {entries rest : List (ReqId × Nat)} {tokens : ReqId → List TokenId}
  {discard discard' dropped : Finset ReqId} {out : SchedulerOutput} {sampled : ReqId → TokenId}

theorem discardLoop_cons
    (h : Scheduler.discardLoop E [] tokens now ((r, n) :: rest) discard s u =
      .ok (discard', s', u')) :
    0 < n ∧ (((Ended s r ∨ tokens r = []) ∧
        Scheduler.discardLoop E [] tokens now rest discard s u = .ok (discard', s', u')) ∨
      (¬ Ended s r ∧ tokens r ≠ [] ∧ r ∈ discard ∧
        Scheduler.discardLoop E [] tokens now rest (discard.erase r) s u =
          .ok (discard', s', u')) ∨
      ∃ q s₁ u₁, s.requests.get? r = some q ∧ q.isFinished = false ∧ tokens r ≠ [] ∧
        r ∉ discard ∧ s.updateRequest E u r q (tokens r) now = .ok (s₁, u₁) ∧
        Scheduler.discardLoop E [] tokens now rest discard s₁ u₁ = .ok (discard', s', u')) := by
  rw [Scheduler.discardLoop, assert_bind_eq_ok, if_neg List.not_mem_nil] at h
  obtain ⟨hn, h⟩ := h
  refine ⟨hn, ?_⟩
  split at h
  · next hnone =>
    exact .inl ⟨.inl fun q hq => by simp [hnone] at hq, h⟩
  · next q hq =>
    by_cases hfin : q.isFinished = true
    · rw [if_pos hfin] at h
      refine .inl ⟨.inl fun q' hq' => ?_, h⟩
      obtain rfl := some_unique hq hq'
      exact hfin
    · rw [if_neg hfin] at h
      have hlive : q.isFinished = false := by simpa using hfin
      have hthere : ¬ Ended s r := fun hend => hend.not_live hq hlive
      by_cases hnil : tokens r = []
      · rw [if_neg (by simp [hnil]), hnil, Scheduler.updateRequest, if_pos rfl] at h
        exact .inl ⟨.inr hnil, h⟩
      · by_cases hmem : r ∈ discard
        · rw [if_pos ⟨hnil, hmem⟩] at h
          exact .inr (.inl ⟨hthere, hnil, hmem, h⟩)
        · rw [if_neg (by simp [hmem])] at h
          simp only [except_bind_eq_ok, Prod.exists] at h
          obtain ⟨s₁, u₁, hupdate, h⟩ := h
          exact .inr (.inr ⟨q, s₁, u₁, hq, hlive, hnil, hmem, hupdate, h⟩)

theorem updateLoop_skip (hn : 0 < n) (hskip : Ended s r ∨ tokens r = []) :
    Scheduler.updateLoop E [] tokens now ((r, n) :: rest) s u =
      Scheduler.updateLoop E [] tokens now rest s u := by
  have hassert : assert (0 < n) "" = .ok () := if_pos hn
  rw [Scheduler.updateLoop, hassert, if_neg List.not_mem_nil]
  cases hq : s.requests.get? r with
  | none => rfl
  | some q =>
    rcases hskip with hend | hnil
    · simp only [hend q hq, if_true]
      rfl
    · simp only [hnil, Scheduler.updateRequest, if_true]
      split <;> rfl

theorem updateLoop_update {q : Request} (hn : 0 < n) (hq : s.requests.get? r = some q)
    (hlive : q.isFinished = false)
    (hupdate : s.updateRequest E u r q (tokens r) now = .ok (s', u')) :
    Scheduler.updateLoop E [] tokens now ((r, n) :: rest) s u =
      Scheduler.updateLoop E [] tokens now rest s' u' := by
  have hassert : assert (0 < n) "" = .ok () := if_pos hn
  rw [Scheduler.updateLoop, hassert, if_neg List.not_mem_nil, hq]
  simp only [hlive, Bool.false_eq_true, if_false, hupdate]
  rfl

theorem discardLoop_eq (hnodup : (entries.map Prod.fst).Nodup)
    (hdropped : ∀ a ∈ entries.map Prod.fst, a ∈ out.sampledReqs → ¬ Ended s a →
      (a ∈ discard ↔ a ∈ dropped))
    (h : Scheduler.discardLoop E [] (sampledTokens out sampled) now entries discard s u =
      .ok (discard', s', u')) :
    Scheduler.updateLoop E [] (sampledTokens (out.without dropped) sampled) now
        (entries.filter (·.1 ∉ dropped)) s u = .ok (s', u') ∧
      ∀ a, a ∈ discard' ↔ a ∈ discard ∧
        ¬ (a ∈ entries.map Prod.fst ∧ a ∈ out.sampledReqs ∧ ¬ Ended s a) := by
  induction entries generalizing discard s u with
  | nil =>
    obtain ⟨rfl, hpair⟩ := ok_pair_inj h
    obtain ⟨rfl, rfl⟩ := Prod.mk.inj hpair
    exact ⟨rfl, by simp⟩
  | cons entry rest ih =>
    obtain ⟨r, n⟩ := entry
    rw [List.map_cons, List.nodup_cons] at hnodup
    have hrest : ∀ a ∈ rest.map Prod.fst, a ≠ r := fun a ha heq => hnodup.1 (heq ▸ ha)
    have hmem : ∀ a ∈ rest.map Prod.fst, a ∈ ((r, n) :: rest).map Prod.fst :=
      fun a ha => List.mem_cons_of_mem r ha
    obtain ⟨hn, hcases⟩ := discardLoop_cons h
    have htokens : sampledTokens out sampled r ≠ [] ↔ r ∈ out.sampledReqs := by
      simp [sampledTokens]
    rcases hcases with ⟨hskip, hloop⟩ | ⟨hlive, hsome, hflag, hloop⟩ |
      ⟨q, s₁, u₁, hq, hlive, hsome, hflag, hupdate, hloop⟩
    · obtain ⟨hupdate, hdiscard⟩ := ih hnodup.2 (fun a ha => hdropped a (hmem a ha)) hloop
      refine ⟨?_, fun a => ?_⟩
      · by_cases hr : r ∈ dropped
        · rwa [List.filter_cons_of_neg (by simpa using hr)]
        · rw [List.filter_cons_of_pos (by simpa using hr), updateLoop_skip hn, hupdate]
          rwa [SchedulerOutput.sampledTokens_without sampled hr]
      · rw [hdiscard, List.map_cons, List.mem_cons]
        refine and_congr_right fun _ => not_congr ⟨fun h => ⟨.inr h.1, h.2⟩, ?_⟩
        rintro ⟨rfl | ha, hsampled, hlive⟩
        · exact absurd (hskip.resolve_left hlive) (htokens.mpr hsampled)
        · exact ⟨ha, hsampled, hlive⟩
    · -- the token of `r` is discarded, and the flag with it
      have hsampled := htokens.mp hsome
      have hr : r ∈ dropped := (hdropped r List.mem_cons_self hsampled hlive).mp hflag
      have hstep : ∀ a ∈ rest.map Prod.fst, a ∈ out.sampledReqs → ¬ Ended s a →
          (a ∈ discard.erase r ↔ a ∈ dropped) := fun a ha hs hl => by
        rw [Finset.mem_erase, and_iff_right (hrest a ha)]
        exact hdropped a (hmem a ha) hs hl
      obtain ⟨hupdate, hdiscard⟩ := ih hnodup.2 hstep hloop
      refine ⟨by rwa [List.filter_cons_of_neg (by simpa using hr)], fun a => ?_⟩
      rw [hdiscard, Finset.mem_erase, List.map_cons, List.mem_cons]
      constructor
      · rintro ⟨⟨hne, ha⟩, hnot⟩
        exact ⟨ha, fun h => hnot ⟨h.1.resolve_left hne, h.2⟩⟩
      · rintro ⟨ha, hnot⟩
        refine ⟨⟨?_, ha⟩, fun h => hnot ⟨.inr h.1, h.2⟩⟩
        rintro rfl
        exact hnot ⟨.inl rfl, hsampled, hlive⟩
    · have hsampled := htokens.mp hsome
      have hthere : ¬ Ended s r := fun hend => hend.not_live hq hlive
      have hr : r ∉ dropped := fun hr =>
        hflag ((hdropped r List.mem_cons_self hsampled hthere).mpr hr)
      have htoken : sampledTokens out sampled r = [sampled r] := if_pos hsampled
      rw [htoken] at hupdate
      obtain ⟨-, hother, -⟩ := updateRequest_token hupdate
      have hended : ∀ a ∈ rest.map Prod.fst, (Ended s₁ a ↔ Ended s a) := fun a ha =>
        ⟨fun hend => hend.congr (hother a (hrest a ha)).symm,
          fun hend => hend.congr (hother a (hrest a ha))⟩
      have hstep : ∀ a ∈ rest.map Prod.fst, a ∈ out.sampledReqs → ¬ Ended s₁ a →
          (a ∈ discard ↔ a ∈ dropped) := fun a ha hs hl =>
        hdropped a (hmem a ha) hs fun hend => hl ((hended a ha).mpr hend)
      obtain ⟨hupdates, hdiscard⟩ := ih hnodup.2 hstep hloop
      refine ⟨?_, fun a => ?_⟩
      · rw [List.filter_cons_of_pos (by simpa using hr), updateLoop_update hn hq hlive, hupdates]
        rw [SchedulerOutput.sampledTokens_without sampled hr, htoken]
        exact hupdate
      · rw [hdiscard, List.map_cons, List.mem_cons]
        refine and_congr_right fun ha => not_congr ⟨?_, ?_⟩
        · rintro ⟨hmem', hs, hl⟩
          exact ⟨.inr hmem', hs, fun hend => hl ((hended a hmem').mpr hend)⟩
        · rintro ⟨rfl | hmem', hs, hl⟩
          · exact absurd ha hflag
          · exact ⟨hmem', hs, fun hend => hl ((hended a hmem').mp hend)⟩

end Discard

/-! ### The engine without the discarded tokens -/

/-- The steps `outs'` are the steps `outs` without the tokens that will be discarded: for each
unfinished request of `discard`, the next one. -/
def Trims (s : Scheduler κ) : Finset ReqId → List SchedulerOutput → List SchedulerOutput → Prop
  | discard, [], [] => ∀ r ∈ discard, Ended s r
  | discard, out :: outs, out' :: outs' =>
    (∃ dropped, out' = out.without dropped ∧
      ∀ r ∈ out.sampledReqs, ¬ Ended s r → (r ∈ discard ↔ r ∈ dropped)) ∧
    Trims s (discard \ out.sampledReqs.toFinset) outs outs'
  | _, _, _ => False

section Trims

variable {s s' : Scheduler κ} {discard discard' ids : Finset ReqId} {r : ReqId}
  {out : SchedulerOutput} {outs outs' : List SchedulerOutput}

theorem Trims.length_eq (h : Trims s discard outs outs') : outs'.length = outs.length := by
  induction outs generalizing discard outs' with
  | nil =>
    cases outs' with
    | nil => rfl
    | cons => exact h.elim
  | cons out outs ih =>
    cases outs' with
    | nil => exact h.elim
    | cons => exact congrArg (· + 1) (ih h.2)

theorem Trims.congr (h : Trims s discard outs outs')
    (hout : ∀ out ∈ outs, ∀ r ∈ out.sampledReqs, r ∈ ids) (hids : discard' ⊆ ids)
    (hsame : ∀ r ∈ ids, ¬ Ended s' r → ¬ Ended s r ∧ (r ∈ discard' ↔ r ∈ discard)) :
    Trims s' discard' outs outs' := by
  induction outs generalizing discard discard' outs' with
  | nil =>
    cases outs' with
    | cons => exact h.elim
    | nil =>
      intro r hr
      by_contra hlive
      obtain ⟨hlive', hiff⟩ := hsame r (hids hr) hlive
      exact hlive' (h r (hiff.mp hr))
  | cons out outs ih =>
    cases outs' with
    | nil => exact h.elim
    | cons out' outs' =>
      obtain ⟨⟨dropped, rfl, hdropped⟩, hrest⟩ := h
      refine ⟨⟨dropped, rfl, fun r hr hlive => ?_⟩, ?_⟩
      · obtain ⟨hlive', hiff⟩ := hsame r (hout out List.mem_cons_self r hr) hlive
        exact hiff.trans (hdropped r hr hlive')
      · refine ih hrest (fun o ho => hout o (List.mem_cons_of_mem out ho))
          (Finset.sdiff_subset.trans hids) fun r hr hlive => ?_
        obtain ⟨hlive', hiff⟩ := hsame r hr hlive
        exact ⟨hlive', by rw [Finset.mem_sdiff, Finset.mem_sdiff, hiff]⟩

theorem Trims.append (h : Trims s discard outs outs') :
    Trims s discard (outs ++ [out]) (outs' ++ [out]) := by
  induction outs generalizing discard outs' with
  | nil =>
    cases outs' with
    | cons => exact h.elim
    | nil =>
      refine ⟨⟨∅, SchedulerOutput.without_empty.symm, fun r _ hlive => ?_⟩, fun r hr => ?_⟩
      · exact iff_of_false (fun hr => hlive (h r hr)) (Finset.notMem_empty r)
      · exact h r (Finset.mem_sdiff.mp hr).1
  | cons out₀ outs ih =>
    cases outs' with
    | nil => exact h.elim
    | cons => exact ⟨h.1, ih h.2⟩

theorem Trims.underWay (h : Trims s discard outs outs') (hlive : ¬ Ended s r) :
    EngineCore.underWay outs' r + (if r ∈ discard then 1 else 0) =
      EngineCore.underWay outs r := by
  induction outs generalizing discard outs' with
  | nil =>
    cases outs' with
    | cons => exact h.elim
    | nil =>
      rw [if_neg fun hr => hlive (h r hr)]
      rfl
  | cons out outs ih =>
    cases outs' with
    | nil => exact h.elim
    | cons out' outs' =>
      obtain ⟨⟨dropped, rfl, hdropped⟩, hrest⟩ := h
      have hih := ih hrest
      simp only [Finset.mem_sdiff, List.mem_toFinset] at hih
      by_cases hmem : r ∈ out.sampledReqs
      · have hiff := hdropped r hmem hlive
        rw [if_neg fun h => h.2 hmem] at hih
        rw [EngineCore.underWay_cons_mem outs hmem, ← hih]
        by_cases hr : r ∈ discard
        · rw [if_pos hr, EngineCore.underWay_cons_not_mem outs'
            (by simp [hiff.mp hr])]
        · rw [if_neg hr, EngineCore.underWay_cons_mem outs' (by simp [hmem, ← hiff, hr])]
      · rw [EngineCore.underWay_cons_not_mem outs hmem,
          EngineCore.underWay_cons_not_mem outs' (by simp [hmem]), ← hih]
        simp [hmem]

/-- A reset sets the flags of requests that each have one token under way, and the engine without
the discarded tokens drops the requests from the steps under way. -/
theorem Trims.reset {running pending : Finset ReqId} (h : Trims s discard outs outs')
    (hpending : pending ⊆ running) (hone : ∀ r ∈ pending, EngineCore.underWay outs r = 1)
    (hnone : ∀ r ∈ running, r ∉ pending → EngineCore.underWay outs r = 0) :
    Trims s (discard ∪ pending) outs (outs'.map (·.without running)) := by
  induction outs generalizing discard outs' pending with
  | nil =>
    cases outs' with
    | cons => exact h.elim
    | nil =>
      intro r hr
      rcases Finset.mem_union.mp hr with hr | hr
      · exact h r hr
      · exact absurd (hone r hr) (by simp [EngineCore.underWay])
  | cons out outs ih =>
    cases outs' with
    | nil => exact h.elim
    | cons out' outs' =>
      obtain ⟨⟨dropped, rfl, hdropped⟩, hrest⟩ := h
      refine ⟨⟨dropped ∪ running, SchedulerOutput.without_without, fun r hr hlive => ?_⟩, ?_⟩
      · rw [Finset.mem_union, Finset.mem_union, hdropped r hr hlive]
        refine or_congr_right ⟨fun h => hpending h, fun h => ?_⟩
        by_contra hnot
        have hzero := hnone r h hnot
        rw [EngineCore.underWay_cons_mem outs hr] at hzero
        omega
      · rw [Finset.union_sdiff_distrib]
        refine ih hrest (Finset.sdiff_subset.trans hpending) (fun r hr => ?_) fun r hr hnot => ?_
        · rw [Finset.mem_sdiff, List.mem_toFinset] at hr
          rw [← EngineCore.underWay_cons_not_mem outs hr.2]
          exact hone r hr.1
        · rw [Finset.mem_sdiff, List.mem_toFinset, not_and_not_right] at hnot
          by_cases hmem : r ∈ out.sampledReqs
          · by_cases hp : r ∈ pending
            · have hcount := hone r hp
              rw [EngineCore.underWay_cons_mem outs hmem] at hcount
              omega
            · have hcount := hnone r hr hp
              rw [EngineCore.underWay_cons_mem outs hmem] at hcount
              omega
          · rw [← EngineCore.underWay_cons_not_mem outs hmem]
            exact hnone r hr fun hp => hmem (hnot hp)

end Trims

namespace ResetCore

def withInFlight (c : ResetCore κ) (outs : List SchedulerOutput) : EngineCore κ :=
  { c.core with inFlight := outs }

/-- The engine `e` is the engine of `c` without the tokens that will be discarded. -/
structure Sim (c : ResetCore κ) (e : EngineCore κ) : Prop where
  core : e = c.withInFlight e.inFlight
  trims : Trims c.core.scheduler c.discard c.core.inFlight e.inFlight
  discard_seen : c.discard ⊆ c.core.seen
  sampled_seen : ∀ out ∈ c.core.inFlight, ∀ r ∈ out.sampledReqs, r ∈ c.core.seen
  sampled : ∀ out ∈ c.core.inFlight, ∀ r ∈ out.sampledReqs, r ∈ out.numScheduledTokens.keys

section Sim

variable {E : CacheEnv κ} {c c' : ResetCore κ} {e e' : EngineCore κ} {r : ReqId} {ev : Event}
  {next : ReqId → List TokenId → TokenId}

theorem Sim.scheduler (h : Sim c e) : e.scheduler = c.core.scheduler :=
  (congrArg EngineCore.scheduler h.core :)

theorem Sim.outputs (h : Sim c e) : e.outputs = c.core.outputs :=
  (congrArg EngineCore.outputs h.core :)

theorem Sim.seen (h : Sim c e) : e.seen = c.core.seen := (congrArg EngineCore.seen h.core :)

theorem Sim.frame (h : Sim c e) (hcore' : e' = c'.withInFlight e.inFlight)
    (hinFlight : c'.core.inFlight = c.core.inFlight) (hdiscard : c'.discard = c.discard)
    (hseen : c.core.seen ⊆ c'.core.seen)
    (hended : ∀ r ∈ c.core.seen, Ended c.core.scheduler r → Ended c'.core.scheduler r) :
    Sim c' e' := by
  have hflight : e'.inFlight = e.inFlight := (congrArg EngineCore.inFlight hcore' :)
  refine ⟨by rw [hflight, ← hcore'], ?_, ?_, ?_, ?_⟩
  · rw [hinFlight, hdiscard, hflight]
    exact h.trims.congr h.sampled_seen h.discard_seen fun r hr hlive =>
      ⟨fun hend => hlive (hended r hr hend), Iff.rfl⟩
  · rw [hdiscard]
    exact h.discard_seen.trans hseen
  · rw [hinFlight]
    exact fun out hout r hr => hseen (h.sampled_seen out hout r hr)
  · rw [hinFlight]
    exact h.sampled

theorem Sim.add {req : EngineCoreRequest} {now : Nat} (h : Sim c e) (hok : EngineCore.Ok e)
    (hstep : step E c (.engine (.add req now)) = some c') :
    ∃ e', EngineCore.step E e (.add req now) = some e' ∧ Sim c' e' := by
  obtain ⟨c₁, hc₁, rfl⟩ := Option.map_eq_some_iff.mp hstep
  have hstep' : EngineCore.step E e (.add req now) =
      some { c₁ with inFlight := e.inFlight } := by
    rw [h.core]
    simp only [EngineCore.step] at hc₁
    split at hc₁
    · cases hc₁
    · next hnew =>
      obtain ⟨s, hs, rfl⟩ := Option.map_eq_some_iff.mp hc₁
      have hnew' : req.requestId ∉ (c.withInFlight e.inFlight).seen := hnew
      simp only [EngineCore.step, if_neg hnew']
      simp only [withInFlight, hs]
      rfl
  have hinFlight : c₁.inFlight = c.core.inFlight := (EngineCore.step_add_requests hc₁).2.1
  refine ⟨_, hstep', h.frame rfl hinFlight rfl (EngineCore.step_seen hc₁) fun r hr => ?_⟩
  have hkeeps := (EngineCore.step_keeps hok (h.seen ▸ hr) (by simp) hstep').2
  rw [h.scheduler] at hkeeps
  exact hkeeps.ended

theorem Sim.finish {ids : List ReqId} {status : RequestStatus} {now : Nat} (h : Sim c e)
    (hok : EngineCore.Ok e) (hstep : step E c (.engine (.finish ids status now)) = some c') :
    ∃ e', EngineCore.step E e (.finish ids status now) = some e' ∧ Sim c' e' := by
  obtain ⟨c₁, hc₁, rfl⟩ := Option.map_eq_some_iff.mp hstep
  have hstep' : EngineCore.step E e (.finish ids status now) =
      some { c₁ with inFlight := e.inFlight } := by
    rw [h.core]
    obtain ⟨s, hs, rfl⟩ := Option.map_eq_some_iff.mp hc₁
    simp only [EngineCore.step, withInFlight, hs]
    rfl
  have hinFlight : c₁.inFlight = c.core.inFlight := (EngineCore.step_finish_requests hc₁).1
  refine ⟨_, hstep', h.frame rfl hinFlight rfl (EngineCore.step_seen hc₁) fun r hr => ?_⟩
  have hkeeps := (EngineCore.step_keeps hok (h.seen ▸ hr) (by simp) hstep').2
  rw [h.scheduler] at hkeeps
  exact hkeeps.ended

theorem Sim.schedule (h : Sim c e) (hok : EngineCore.Ok e)
    (hstep : step E c (.engine .schedule) = some c') :
    ∃ e', EngineCore.step E e .schedule = some e' ∧ Sim c' e' := by
  obtain ⟨c₁, hc₁, rfl⟩ := Option.map_eq_some_iff.mp hstep
  simp only [EngineCore.step] at hc₁
  split at hc₁
  · next hlt =>
    obtain ⟨⟨out, s⟩, hs, rfl⟩ := Option.map_eq_some_iff.mp hc₁
    have hstep' : EngineCore.step E e .schedule = some { c.core with
        scheduler := s, inFlight := e.inFlight ++ [out] } := by
      have hlt' : e.inFlight.length < c.core.scheduler.config.maxInFlight := by
        rwa [h.trims.length_eq]
      rw [h.core]
      simp only [EngineCore.step, withInFlight, if_pos hlt', hs]
      rfl
    obtain ⟨out', hout', -, -, -, -, hkeys, hthere, -⟩ :=
      EngineCore.step_schedule_requests hok hstep'
    obtain rfl : out = out' := (List.cons.inj (List.append_cancel_left hout')).1
    have hseen : ∀ r ∈ out.sampledReqs, r ∈ c.core.seen := fun r hr => by
      obtain ⟨n, hn⟩ := Dict.mem_keys_iff.mp (hkeys r hr)
      obtain ⟨q, hq, -⟩ := hthere r n hn
      rw [← h.seen]
      exact hok.seen r q hq
    refine ⟨_, hstep', rfl, ?_, h.discard_seen, fun o ho r hr => ?_, fun o ho r hr => ?_⟩
    · refine Trims.append (h.trims.congr h.sampled_seen h.discard_seen fun r hr hlive =>
        ⟨fun hend => hlive ?_, Iff.rfl⟩)
      have hkeeps := (EngineCore.step_keeps hok (h.seen ▸ hr) (by simp) hstep').2
      rw [h.scheduler] at hkeeps
      exact hkeeps.ended hend
    · rcases List.mem_append.mp ho with ho | ho
      · exact h.sampled_seen o ho r hr
      · rw [List.mem_singleton.mp ho] at hr
        exact hseen r hr
    · rcases List.mem_append.mp ho with ho | ho
      · exact h.sampled o ho r hr
      · rw [List.mem_singleton.mp ho] at hr ⊢
        exact hkeys r hr
  · cases hc₁

theorem step_update {sampled : ReqId → TokenId} {kv : KVConnectorOutput} {now : Nat}
    (hvalid : kv.invalidBlockIds = [])
    (hstep : step E c (.engine (.update sampled kv now)) = some c') :
    ∃ out rest discard s₁ u s₂, c.core.inFlight = out :: rest ∧
      Scheduler.discardLoop E [] (sampledTokens out sampled) now
        out.numScheduledTokens.entries c.discard c.core.scheduler {} = .ok (discard, s₁, u) ∧
      (s₁.removeStopped u).updateFromKvXferFinished kv = .ok s₂ ∧
      c' = { core := { c.core with
        scheduler := s₂, inFlight := rest, outputs := c.core.outputs ++ u.outputs }
             discard } := by
  simp only [step] at hstep
  split at hstep
  · cases hstep
  · next out rest hinFlight =>
    obtain ⟨⟨discard, outs, s₂⟩, hs, rfl⟩ := Option.map_eq_some_iff.mp hstep
    rw [toOption_eq_some] at hs
    simp only [Scheduler.updateDiscarding, except_bind_eq_ok, Prod.exists] at hs
    obtain ⟨failed, s₀, hcheck, discard', s₁, u, hloop, s₃, hfail, s₄, hxfer, hok⟩ := hs
    obtain ⟨rfl, hpair⟩ := ok_pair_inj hok
    obtain ⟨rfl, rfl⟩ := Prod.mk.inj hpair
    rw [Scheduler.checkInvalidBlocks, if_neg (by simp [hvalid])] at hcheck
    obtain ⟨rfl, rfl⟩ := ok_pair_inj hcheck
    rw [Scheduler.failRequests, if_neg (by simp)] at hfail
    obtain rfl := Except.ok.inj hfail
    exact ⟨out, rest, discard', s₁, u, s₄, hinFlight, hloop, hxfer, rfl⟩

theorem Sim.update {sampled : ReqId → TokenId} {kv : KVConnectorOutput} {now : Nat} (h : Sim c e)
    (hvalid : kv.invalidBlockIds = [])
    (hstep : step E c (.engine (.update sampled kv now)) = some c') :
    ∃ e', EngineCore.step E e (.update sampled kv now) = some e' ∧ Sim c' e' := by
  obtain ⟨out, rest, discard, s₁, u, s₂, hinFlight, hloop, hxfer, rfl⟩ := step_update hvalid hstep
  have htrims := h.trims
  rw [hinFlight] at htrims
  match hflight : e.inFlight, htrims with
  | out' :: rest', ⟨⟨dropped, hout', hdropped⟩, hrest⟩ =>
    obtain ⟨hupdates, hdiscard⟩ := discardLoop_eq out.numScheduledTokens.nodup
      (fun a _ hsampled hlive => hdropped a hsampled hlive) hloop
    have hstep' : EngineCore.step E e (.update sampled kv now) = some { c.core with
        scheduler := s₂, inFlight := rest', outputs := c.core.outputs ++ u.outputs } := by
      have hupdate : c.core.scheduler.updateFromOutput E out' (sampledTokens out' sampled) kv now =
          .ok (u.outputs, s₂) := by
        have hfail : (s₁.removeStopped u).failRequests [] now = .ok (s₁.removeStopped u) := by
          rw [Scheduler.failRequests, if_neg (by simp)]
        have hcheck : c.core.scheduler.checkInvalidBlocks out' kv = .ok ([], c.core.scheduler) := by
          rw [Scheduler.checkInvalidBlocks, if_neg (by simp [hvalid])]
        simp only [Scheduler.updateFromOutput, except_bind_eq_ok, Prod.exists]
        refine ⟨_, _, hcheck, s₁, u, ?_, _, hfail, _, hxfer, rfl⟩
        rw [hout']
        exact hupdates
      rw [h.core]
      simp only [EngineCore.step, withInFlight, hflight, hupdate]
      rfl
    obtain ⟨_, _, _, -, -, -, -, -, hhandles⟩ := EngineCore.step_update_requests hvalid hstep'
    have hended : ∀ r, Ended c.core.scheduler r → Ended s₂ r := fun r hend =>
      ((hhandles r).ended (h.scheduler ▸ hend)).1
    have hsub : discard ⊆ c.discard := fun r hr => ((hdiscard r).mp hr).1
    have hmem : ∀ o ∈ rest, o ∈ c.core.inFlight := fun o ho =>
      hinFlight ▸ List.mem_cons_of_mem out ho
    refine ⟨_, hstep', rfl, ?_, hsub.trans h.discard_seen,
      fun o ho => h.sampled_seen o (hmem o ho), fun o ho => h.sampled o (hmem o ho)⟩
    refine hrest.congr (fun o ho => h.sampled_seen o (hmem o ho)) (hsub.trans h.discard_seen)
      fun r _ hlive => ?_
    have hlive' : ¬ Ended c.core.scheduler r := fun hend => hlive (hended r hend)
    have hkeys := h.sampled out (hinFlight ▸ List.mem_cons_self) r
    refine ⟨hlive', ?_⟩
    rw [hdiscard, Finset.mem_sdiff, List.mem_toFinset]
    exact and_congr_right fun _ => not_congr
      ⟨fun hr => hr.2.1, fun hr => ⟨hkeys hr, hr, hlive'⟩⟩

theorem Sim.engine (h : Sim c e) (hok : EngineCore.Ok e) (hev : EngineCore.NoFailedLoad ev)
    (hstep : step E c (.engine ev) = some c') :
    ∃ e', EngineCore.step E e ev = some e' ∧ Sim c' e' := by
  cases ev with
  | add req now => exact h.add hok hstep
  | schedule => exact h.schedule hok hstep
  | update sampled kv now => exact h.update hev hstep
  | finish ids status now => exact h.finish hok hstep

end Sim

end ResetCore

/-! ### A reset of the engine without the discarded tokens -/

theorem mem_entries_without {out : SchedulerOutput} {dropped : Finset ReqId} {r : ReqId} {n : Nat} :
    (r, n) ∈ (out.without dropped).numScheduledTokens.entries ↔
      (r, n) ∈ out.numScheduledTokens.entries ∧ r ∉ dropped := by
  simp [SchedulerOutput.without, Dict.filterKeys]

namespace EngineCore

/-- The engine after a reset, without the tokens under way for the requests that ran. -/
def afterReset (e : EngineCore κ) (s : Scheduler κ) : EngineCore κ :=
  { e with
    scheduler := s
    inFlight := e.inFlight.map (·.without e.scheduler.running.toFinset) }

section Reset

variable {e : EngineCore κ} {s s₀ : Scheduler κ} {outs : List SchedulerOutput}
  {dropped : Finset ReqId} {r : ReqId} {n : Nat}

theorem underWay_without (hr : r ∉ dropped) :
    underWay (outs.map (·.without dropped)) r = underWay outs r := by
  simp [underWay, List.countP_map, Function.comp_def, hr]

theorem not_mem_sampledReqs_without (hr : r ∈ dropped) :
    ∀ out ∈ outs.map (·.without dropped), r ∉ out.sampledReqs := by
  intro out hout hmem
  obtain ⟨out, -, rfl⟩ := List.mem_map.mp hout
  exact (SchedulerOutput.mem_sampledReqs_without.mp hmem).2 hr

theorem atEnd_without (hr : r ∉ dropped) (h : AtEnd r n outs) :
    AtEnd r n (outs.map (·.without dropped)) := by
  induction outs generalizing n with
  | nil => trivial
  | cons out outs ih =>
    simp only [AtEnd, List.map_cons, SchedulerOutput.mem_sampledReqs_without, hr,
      not_false_eq_true, and_true] at h ⊢
    split
    · next hmem =>
      rw [if_pos hmem] at h
      exact ⟨(SchedulerOutput.tokensAfter_without hr).trans h.1, ih h.2⟩
    · next hmem =>
      rw [if_neg hmem] at h
      exact ih h

theorem InFlightOk.reset (h : InFlightOk e.scheduler outs) (hok : QueuesOk e.scheduler [])
    (hreset : PreemptsAll e.scheduler.running.reverse e.scheduler s) :
    InFlightOk s (outs.map (·.without e.scheduler.running.toFinset)) := by
  have hsame : ∀ {out : SchedulerOutput} {r n q}, (r, n) ∈ (out.without
      e.scheduler.running.toFinset).numScheduledTokens.entries → s.requests.get? r = some q →
        r ∉ e.scheduler.running ∧ (r, n) ∈ out.numScheduledTokens.entries ∧
          e.scheduler.requests.get? r = some q := by
    intro out r n q hmem hq
    obtain ⟨hmem, hnot⟩ := mem_entries_without.mp hmem
    rw [List.mem_toFinset] at hnot
    exact ⟨hnot, hmem, (hreset.others r (by simpa using hnot)).symm.trans hq⟩
  have hrunning : ∀ {out}, RunningIn out e.scheduler →
      RunningIn (out.without e.scheduler.running.toFinset) s := by
    intro out hrun r n q hmem hq hlive
    obtain ⟨hnot, hmem, hq⟩ := hsame hmem hq
    exact absurd ((hok.running r).mpr ⟨q, hq, hrun r n q hmem hq hlive⟩) hnot
  match outs, h with
  | [], _ => trivial
  | [_], h => exact hrunning h
  | [out, _], ⟨hfirst, hsecond⟩ =>
    refine ⟨fun r n q hmem hq hlive hne => ?_, hrunning hsecond⟩
    obtain ⟨-, hmem, hq⟩ := hsame hmem hq
    rw [hreset.waiting]
    exact List.mem_append_right _ (hfirst r n q hmem hq hlive hne)

theorem Counts.reset (h : Counts e)
    (hreset : PreemptsAll e.scheduler.running.reverse e.scheduler s) :
    Counts (e.afterReset s) := by
  refine ⟨⟨h.ok.queues.preemptsAll hreset, h.ok.inFlight.reset h.ok.queues hreset,
    fun r q hq => ?_, fun out hout r n hmem => ?_⟩, fun out hout r hr => ?_, fun r q hq hlive => ?_⟩
  · rcases hreset.cases hq with ⟨-, hq⟩ | ⟨q₀, -, hq₀, -⟩
    · exact h.ok.seen r q hq
    · exact h.ok.seen r q₀ hq₀
  · obtain ⟨out, hthere, rfl⟩ := List.mem_map.mp hout
    exact h.ok.seen_inFlight out hthere r n (mem_entries_without.mp hmem).1
  · obtain ⟨out, hthere, rfl⟩ := List.mem_map.mp hout
    obtain ⟨hr, hnot⟩ := SchedulerOutput.mem_sampledReqs_without.mp hr
    obtain ⟨n, hn⟩ := Dict.mem_keys_iff.mp (h.sampled out hthere r hr)
    refine Dict.mem_keys_iff.mpr ⟨n, ?_⟩
    simp only [SchedulerOutput.without, Dict.get?_filterKeys, hnot, not_false_eq_true,
      decide_true, if_true]
    exact hn
  · have hconfig : (e.afterReset s).scheduler.config = e.scheduler.config := hreset.setup.config
    rcases hreset.cases hq with ⟨hnot, hq⟩ | ⟨q₀, hr, hq₀, hstatus, rfl⟩
    · obtain ⟨hplace, hready, hbusy, hend⟩ := h.counted r q hq hlive
      have hr : r ∉ e.scheduler.running.toFinset := by simpa using hnot
      have hway : underWay (e.afterReset s).inFlight r = underWay e.inFlight r :=
        underWay_without hr
      rw [hconfig]
      refine ⟨?_, ?_, ?_, atEnd_without hr hend⟩
      · rw [hway]
        exact hplace
      · rw [hway]
        exact hready
      · rw [hway]
        exact hbusy
    · have hr' : r ∈ e.scheduler.running.toFinset := by simpa using hr
      have hnone : ∀ out ∈ (e.afterReset s).inFlight, r ∉ out.sampledReqs :=
        not_mem_sampledReqs_without hr'
      have hway : underWay (e.afterReset s).inFlight r = 0 := underWay_eq_zero hnone
      refine ⟨?_, fun hrun => ?_, fun hrun => ?_, atEnd_of_not_mem hnone⟩
      · rw [hway, ite_self]
        rfl
      · cases hrun
      · cases hrun

theorem Runs.reset (h : Runs s₀ e)
    (hreset : PreemptsAll e.scheduler.running.reverse e.scheduler s) :
    Runs s₀ (e.afterReset s) :=
  ⟨h.counts.reset hreset, h.setup.trans hreset.setup, h.outputs⟩

end Reset

end EngineCore

/-! ### Whole runs with resets -/

namespace ResetCore

section Run

variable {E : CacheEnv κ} {c c' : ResetCore κ} {e e' : EngineCore κ} {r : ReqId}
  {next : ReqId → List TokenId → TokenId} {s₀ : Scheduler κ}

/-- Each token that comes back is a function of the tokens before its position, and no load of
remote KV fails. -/
def Samples (next : ReqId → List TokenId → TokenId) (c : ResetCore κ) : ResetEvent → Prop
  | .engine ev => c.core.Samples next ev
  | .reset => True

def OneUnderWay (c : ResetCore κ) : ResetEvent → Prop
  | .engine _ => True
  | .reset => ∀ r ∈ c.core.scheduler.running, EngineCore.underWay c.core.inFlight r = 1

instance Samples.decidable (next : ReqId → List TokenId → TokenId) (c : ResetCore κ) :
    ∀ ev, Decidable (Samples next c ev)
  | .engine ev => inferInstanceAs (Decidable (c.core.Samples next ev))
  | .reset => .isTrue trivial

instance OneUnderWay.decidable (c : ResetCore κ) : ∀ ev, Decidable (OneUnderWay c ev)
  | .engine _ => .isTrue trivial
  | .reset => inferInstanceAs (Decidable (∀ r ∈ c.core.scheduler.running,
      EngineCore.underWay c.core.inFlight r = 1))

theorem Sim.reset (h : Sim c e) (hok : QueuesOk e.scheduler []) (hone : OneUnderWay c .reset)
    (hstep : step E c .reset = some c') :
    ∃ s, PreemptsAll e.scheduler.running.reverse e.scheduler s ∧ Sim c' (e.afterReset s) := by
  obtain ⟨s, hs, rfl⟩ := Option.map_eq_some_iff.mp hstep
  rw [toOption_eq_some] at hs
  rw [h.scheduler] at hok
  have hreset := resetPrefixCache_ok hok.running_nodup hs
  have hseen : c.core.scheduler.running.toFinset ⊆ c.core.seen := by
    intro r hr
    have hway := hone r (List.mem_toFinset.mp hr)
    by_contra hnot
    rw [EngineCore.underWay_eq_zero fun out hout hmem => hnot (h.sampled_seen out hout r hmem)]
      at hway
    cases hway
  have hcore : e.afterReset s = { c.core with
      scheduler := s
      inFlight := e.inFlight.map (·.without c.core.scheduler.running.toFinset) } := by
    rw [EngineCore.afterReset, h.scheduler, h.outputs, h.seen]
  refine ⟨s, h.scheduler ▸ hreset, ?_⟩
  rw [hcore]
  refine ⟨rfl, ?_, Finset.union_subset h.discard_seen hseen, h.sampled_seen, h.sampled⟩
  have htrims := h.trims.reset (Finset.Subset.refl _)
    (fun r hr => hone r (List.mem_toFinset.mp hr)) (fun r hr hnot => absurd hr hnot)
  exact htrims.congr h.sampled_seen (Finset.union_subset h.discard_seen hseen)
    fun r _ hlive => ⟨fun hend => hlive ((hreset.keeps r).ended hend), Iff.rfl⟩

theorem Sim.samples {ev : Event} (h : Sim c e) (hmodel : c.core.Samples next ev) :
    e.Samples next ev := by
  cases ev with
  | update sampled kv now =>
    refine ⟨hmodel.1, fun out' hout' r hr q hq hlive => ?_⟩
    have htrims := h.trims
    rw [h.scheduler] at hq
    cases hflight : e.inFlight with
    | nil => simp [hflight] at hout'
    | cons out₁ rest' =>
      rw [hflight] at htrims
      cases hinFlight : c.core.inFlight with
      | nil =>
        rw [hinFlight] at htrims
        exact htrims.elim
      | cons out rest =>
        rw [hinFlight] at htrims
        obtain ⟨⟨dropped, rfl, -⟩, -⟩ := htrims
        obtain rfl : out.without dropped = out' := by simpa [hflight] using hout'
        obtain ⟨hr, hnot⟩ := SchedulerOutput.mem_sampledReqs_without.mp hr
        rw [SchedulerOutput.tokensAfter_without hnot]
        exact hmodel.2 out (by rw [hinFlight]; rfl) r hr q hq hlive
  | _ => trivial

/-- The engine of `c` was followed by `e` so far, which serves the requests that were added. -/
structure Follows (next : ReqId → List TokenId → TokenId) (s₀ : Scheduler κ) (c : ResetCore κ)
    (past : List ResetEvent) (e : EngineCore κ) : Prop where
  sim : Sim c e
  runs : EngineCore.Runs s₀ e
  serves : ∀ req now, .engine (.add req now) ∈ past → req.abortImmediately = false →
    req.requestId ∈ e.seen ∧
      EngineCore.Serves (next req.requestId) s₀.config.maxModelLen req e

theorem Follows.engine {past : List ResetEvent} {ev : Event} (h : Follows next s₀ c past e)
    (hmodel : c.core.Samples next ev) (hstep : step E c (.engine ev) = some c') :
    ∃ e', Follows next s₀ c' (past ++ [.engine ev]) e' := by
  have hmodel' := h.sim.samples hmodel
  obtain ⟨e', hstep', hsim⟩ := h.sim.engine h.runs.counts.ok hmodel.noFailedLoad hstep
  refine ⟨e', hsim, h.runs.step hmodel.noFailedLoad hstep', fun req now hmem habort => ?_⟩
  rcases List.mem_append.mp hmem with hmem | hmem
  · obtain ⟨hseen, hserves⟩ := h.serves req now hmem habort
    exact ⟨EngineCore.step_seen hstep' hseen, hserves.step h.runs hseen hmodel' hstep'⟩
  · obtain rfl : .add req now = ev := by simpa using hmem
    refine ⟨?_, .start h.runs habort hstep'⟩
    rw [(EngineCore.step_add_requests hstep').2.2.2.1]
    exact Finset.mem_insert_self _ _

theorem Follows.reset {past : List ResetEvent} (h : Follows next s₀ c past e)
    (hone : OneUnderWay c .reset) (hstep : step E c .reset = some c') :
    ∃ e', Follows next s₀ c' (past ++ [.reset]) e' := by
  obtain ⟨s, hreset, hsim⟩ := h.sim.reset h.runs.counts.ok.queues hone hstep
  refine ⟨e.afterReset s, hsim, h.runs.reset hreset, fun req now hmem habort => ?_⟩
  have hmem : .engine (.add req now) ∈ past := by simpa using hmem
  obtain ⟨hseen, hserves⟩ := h.serves req now hmem habort
  exact ⟨hseen, hserves.congr rfl (hreset.keeps req.requestId)⟩

theorem Follows.start {e₀ : EngineCore κ} (hfresh : EngineCore.Fresh e₀) :
    Follows next e₀.scheduler ⟨e₀, ∅⟩ [] e₀ where
  sim := by
    refine ⟨rfl, ?_, Finset.empty_subset _, ?_, ?_⟩
    · simp [hfresh.inFlight, Trims]
    · simp [hfresh.inFlight]
    · simp [hfresh.inFlight]
  runs := hfresh.runs
  serves req now hmem := by simp at hmem

theorem follows_of_exec {e₀ : EngineCore κ} {es : List ResetEvent}
    (hfresh : EngineCore.Fresh e₀) (hmodel : Machine.Along (step E) (Samples next) ⟨e₀, ∅⟩ es)
    (hone : Machine.Along (step E) OneUnderWay ⟨e₀, ∅⟩ es)
    (hrun : Machine.exec (step E) ⟨e₀, ∅⟩ es = some c) :
    ∃ e, Follows next e₀.scheduler c es e := by
  refine Machine.exec_history_invariant_along
    (P := fun c past => ∃ e, Follows next e₀.scheduler c past e) (fun c ev c' past h hC hs => ?_)
    ⟨e₀, .start hfresh⟩ (hmodel.and hone) hrun
  obtain ⟨e, h⟩ := h
  cases ev with
  | engine ev => exact h.engine hC.1 hs
  | reset => exact h.reset hC.2 hs

theorem Sim.received (h : Sim c e) :
    e.received r = c.core.received r ∧ e.finish r = c.core.finish r := by
  unfold EngineCore.received EngineCore.finish
  rw [h.outputs]
  exact ⟨rfl, rfl⟩

end Run

def resetUnderWay : List ResetEvent :=
  [.engine (.add EngineCore.twoTokens 0), .engine .schedule, .reset, .engine .schedule,
    .engine (.update (fun _ => 1) {} 0), .engine (.update (fun _ => 1) {} 0), .engine .schedule,
    .engine (.update (fun _ => 2) {} 0)]

def chunkConfig : SchedulerConfig :=
  { EngineCore.asyncConfig with longPrefillTokenThreshold := 1 }

def twoChunks : EngineCoreRequest where
  requestId := 0
  params := { sampling := EngineCore.upTo 2 Nat.two_pos }
  promptTokenIds := [5, 6]

def sevenComesBack : Event := .update (fun _ => 7) {} 0

def oneStep : List ResetEvent := [.engine .schedule, .engine sevenComesBack]

def resetInPrefill : List ResetEvent :=
  [.engine (.add twoChunks 0), .engine .schedule, .reset, .engine sevenComesBack] ++ oneStep ++
    oneStep ++ oneStep

def noReset : List Event :=
  [.add twoChunks 0, .schedule, sevenComesBack, .schedule, sevenComesBack, .schedule,
    sevenComesBack]

end ResetCore

end EldrServing.Sched
