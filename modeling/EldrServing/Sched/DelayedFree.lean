import EldrServing.KVCache.LedgerCalls
import EldrServing.KVCache.Ownership
import EldrServing.Sched.Engine
import Mathlib.Data.Finset.Card

/-!
# Delayed frees

A request that finishes may leave its blocks in the hands of the connector: they are read by
another engine, or a load still writes to them. `delayed_free_req_ids` lists these requests. They
stay in the map of requests with their tables as they are until the connector reports that it is
done. No other request has finished, and no request outside the map has blocks.
-/

namespace EldrServing.Sched

set_option autoImplicit false
set_option linter.unusedSectionVars false

open Engine KVCache Nixl Relation

variable {κ : Type} [DecidableEq κ]

def Live (s : Scheduler κ) (r : ReqId) : Prop :=
  ∃ q, s.requests.get? r = some q ∧ q.isFinished = false

/-! ### The calls of the cache manager -/

section Calls

variable {E : CacheEnv κ} {s s' : Scheduler κ} {r : ReqId} {q : Request}
  {kv : KVCacheManager κ} {passed : List ReqId}

theorem live_of_running (hok : QueuesOk s passed) (h : r ∈ s.running) : Live s r := by
  obtain ⟨q, hq, hst⟩ := (hok.running r).mp h
  exact ⟨q, hq, by rw [Request.isFinished, hst]; rfl⟩

theorem live_of_queue {w : Scheduler.WaitingQueue} (hok : QueuesOk s passed)
    (h : r ∈ s.queue w) : Live s r := by
  have hmem : r ∈ queued s passed := by
    cases w with
    | waiting => exact List.mem_append_left _ h
    | skipped => exact List.mem_append_right _ (List.mem_append_left _ h)
  obtain ⟨q, hq, -, hlive⟩ := (hok.queued r).mp hmem
  exact ⟨q, hq, hlive⟩

theorem Asks.live {args : AllocateSlotsArgs} (h : Asks E s r q args) (hok : QueuesOk s passed) :
    Live s r := by
  cases h with
  | running n hrun => exact live_of_running hok hrun
  | waiting n hqueue => exact live_of_queue hok hqueue

theorem allocateSlots_live {args : AllocateSlotsArgs} {res : Option (List (List Nat))}
    (hk : KVOk s.kvCacheManager) (hok : QueuesOk s passed) (hq : s.requests.get? r = some q)
    (hlive : Live s r) (hlookup : LookupOk s.kvCacheManager (E.hasher.view q) args)
    (h : s.kvCacheManager.allocateSlots (E.hasher.view q) args = .ok (res, kv)) :
    Calls (LedgerOp.On (Live s)) s.kvCacheManager kv := by
  have hcalls : Calls (AllocateOp s.kvCacheManager (E.hasher.view q) args false)
      s.kvCacheManager kv := allocateSlots_calls hk hlookup (by simp) h
  refine hcalls.mono fun op hop => hop.on.mono ?_
  rintro a rfl
  rwa [show (E.hasher.view q).requestId = r from hok.keys r q hq]

theorem cacheBlocks_live {n : Nat} (hk : KVOk s.kvCacheManager) (hid : q.requestId = r)
    (hlive : Live s r) (h : s.kvCacheManager.cacheBlocks (E.hasher.view q) n = .ok kv) :
    Calls (LedgerOp.On (Live s)) s.kvCacheManager kv := by
  refine (cacheBlocks_calls hk h).mono ?_
  rintro op ⟨g, spec, first, last, -, -, rfl⟩
  rw [← hid] at hlive
  exact hlive

theorem free_live (hk : KVOk s.kvCacheManager) (hlive : Live s r)
    (h : s.kvCacheManager.free r = .ok kv) :
    Calls (LedgerOp.On (Live s)) s.kvCacheManager kv := by
  refine (free_calls hk h).mono ?_
  rintro op ⟨g, rfl⟩
  exact hlive

theorem ScheduleStep.calls {x y : Scheduler κ × StepState} (h : ScheduleStep E x y)
    (hk : KVOk x.1.kvCacheManager) (hok : QueuesOk x.1 x.2.stepSkippedWaiting) :
    Calls (LedgerOp.On (Live x.1)) x.1.kvCacheManager y.1.kvCacheManager := by
  cases h with
  | allocateFails hq hlookup hkv hasks =>
    exact allocateSlots_live hk hok hq (hasks.live hok) hlookup hkv
  | preempt hrunning hq hstatus hfcfs hkeys hkv =>
    exact free_live hk (live_of_running hok hrunning) hkv
  | run hrunning hq hpos hn hnew hkv =>
    exact allocateSlots_live hk hok hq (live_of_running hok hrunning) (lookupOk_empty _ _ _) hkv
  | @promote s st r q s' q' hq hstatus hdone hupdate =>
    have hlive : Live s r := ⟨q, hq, by rw [Request.isFinished, hstatus]; rfl⟩
    have hid := hok.keys r q hq
    obtain ⟨kv, rfl, ⟨-, hkv, -⟩ | ⟨-, hkv, -⟩⟩ := updateWaitingForRemoteKv_ok hupdate
    · unfold Scheduler.settleFailedLoad at hkv
      split at hkv
      · exact cacheBlocks_live hk hid hlive hkv
      · exact free_live hk hlive hkv
    · exact cacheBlocks_live hk hid hlive hkv
  | @skip s st r w => cases w <;> exact .refl _ hk
  | @load s st r w q m kv blocks s' q' hqueue hpre hq hready hmatch hasync hkv hupdate =>
    obtain ⟨⟨c, rfl⟩, -⟩ := updateConnectorAfterAlloc_frame hupdate
    have hcalls := allocateSlots_live hk hok hq (live_of_queue hok hqueue)
      (matchPrefix_lookupOk hmatch _ _ _) hkv
    cases w <;> exact hcalls
  | @start s st r w q m n kv blocks s' q' hqueue hpre hq hready hmatch hsync hn hle hkv hupdate =>
    obtain ⟨⟨c, rfl⟩, -⟩ := updateConnectorAfterAlloc_frame hupdate
    have hcalls := allocateSlots_live hk hok hq (live_of_queue hok hqueue)
      (matchPrefix_lookupOk hmatch _ _ _) hkv
    cases w <;> exact hcalls
  | requeue => exact .refl _ hk

end Calls

/-! ### The state between calls -/

def blockTable (s : Scheduler κ) (g : Nat) (r : ReqId) : List Nat := s.kvCacheManager.table g r

structure DelayedOk (s : Scheduler κ) : Prop where
  kv : KVOk s.kvCacheManager
  finished : ∀ r q, s.requests.get? r = some q →
    (q.isFinished = true ↔ r ∈ s.delayedFreeReqIds)
  known : ∀ r ∈ s.delayedFreeReqIds, ∃ q, s.requests.get? r = some q
  tables : ∀ r, s.requests.get? r = none → ∀ g, blockTable s g r = []
  freed : ∀ r, Action.freed r ∈ s.log → s.requests.get? r = none
  once : ∀ r, s.log.count (.freed r) ≤ 1

/-- No request is added, requests leave the map only when they are freed, and delayed ones keep
their tables until then. -/
structure Keeps (s s' : Scheduler κ) : Prop where
  log : s.log <+: s'.log
  delayed : ∀ r ∈ s.delayedFreeReqIds,
    (r ∈ s'.delayedFreeReqIds ∧ ∀ g, blockTable s' g r = blockTable s g r) ∨
      Action.freed r ∈ s'.log
  record : ∀ r q', s'.requests.get? r = some q' → ∃ q, s.requests.get? r = some q
  gone : ∀ r q, s.requests.get? r = some q → s'.requests.get? r = none → Action.freed r ∈ s'.log
  freed : ∀ r, Action.freed r ∈ s'.log → Action.freed r ∈ s.log ∨ ∃ q, s.requests.get? r = some q

theorem Keeps.refl (s : Scheduler κ) : Keeps s s where
  log := List.prefix_rfl
  delayed _ hr := .inl ⟨hr, fun _ => rfl⟩
  record _ q hq := ⟨q, hq⟩
  gone r q hq hnone := by simp [hq] at hnone
  freed _ := .inl

theorem Keeps.trans {s₁ s₂ s₃ : Scheduler κ} (h : Keeps s₁ s₂) (h' : Keeps s₂ s₃) :
    Keeps s₁ s₃ where
  log := h.log.trans h'.log
  delayed r hr := by
    obtain ⟨hmem, htable⟩ | hfreed := h.delayed r hr
    · obtain ⟨hmem', htable'⟩ | hfreed := h'.delayed r hmem
      · exact .inl ⟨hmem', fun g => (htable' g).trans (htable g)⟩
      · exact .inr hfreed
    · exact .inr (h'.log.subset hfreed)
  record r q₃ hq₃ := by
    obtain ⟨q₂, hq₂⟩ := h'.record r q₃ hq₃
    exact h.record r q₂ hq₂
  gone r q hq hnone := by
    cases hq₂ : s₂.requests.get? r with
    | none => exact h'.log.subset (h.gone r q hq hq₂)
    | some q₂ => exact h'.gone r q₂ hq₂ hnone
  freed r hr := by
    obtain hr | ⟨q₂, hq₂⟩ := h'.freed r hr
    · exact h.freed r hr
    · exact .inr (h.record r q₂ hq₂)

/-! ### Scheduling -/

/-- A state change that neither adds nor finishes a request. -/
structure Works (s s' : Scheduler κ) : Prop where
  delayed : s'.delayedFreeReqIds = s.delayedFreeReqIds
  log : ∃ more : List Action, s'.log = s.log ++ more ∧ ∀ r, Action.freed r ∉ more
  records : ∀ a, (s'.requests.get? a).map Request.isFinished =
    (s.requests.get? a).map Request.isFinished
  calls : Calls (LedgerOp.On (Live s)) s.kvCacheManager s'.kvCacheManager

section Works

variable {E : CacheEnv κ} {s s' : Scheduler κ} {r : ReqId} {q : Request}

theorem putRequest_isFinished (q' : Request) (hq : s.requests.get? r = some q)
    (hfin : q'.isFinished = q.isFinished) (a : ReqId) :
    ((s.putRequest r q').requests.get? a).map Request.isFinished =
      (s.requests.get? a).map Request.isFinished := by
  rcases eq_or_ne r a with rfl | hne
  · rw [Scheduler.putRequest_requests, Dict.get?_insert_self, hq]
    simp [hfin]
  · rw [Scheduler.putRequest_requests, Dict.get?_insert_ne hne]

theorem Works.tables (h : Works s s') (hr : ¬ Live s r) (g : Nat) :
    blockTable s' g r = blockTable s g r :=
  h.calls.path.others hr g

theorem Works.none (h : Works s s') (a : ReqId) :
    s'.requests.get? a = none ↔ s.requests.get? a = none := by
  have hsome := congrArg Option.isNone (h.records a)
  rw [Option.isNone_map, Option.isNone_map] at hsome
  rw [← Option.isNone_iff_eq_none, ← Option.isNone_iff_eq_none, hsome]

theorem Works.keeps (h : Works s s') (hok : DelayedOk s) : Keeps s s' := by
  obtain ⟨more, hlog, hmore⟩ := h.log
  refine ⟨⟨more, hlog.symm⟩, fun r hr => .inl ⟨h.delayed ▸ hr, h.tables ?_⟩, fun r q' hq' => ?_,
    fun r q hq hnone => ?_, fun r hr => ?_⟩
  · rintro ⟨q, hq, hlive⟩
    rw [(hok.finished r q hq).mpr hr] at hlive
    cases hlive
  · exact Option.ne_none_iff_exists'.mp fun hn => by simp [(h.none r).mpr hn] at hq'
  · simp [(h.none r).mp hnone] at hq
  · rw [hlog, List.mem_append] at hr
    exact .inl (hr.resolve_right (hmore r))

theorem Works.delayedOk (h : Works s s') (hok : DelayedOk s) : DelayedOk s' := by
  obtain ⟨more, hlog, hmore⟩ := h.log
  have hnone := h.none
  have hcount : ∀ r, s'.log.count (.freed r) = s.log.count (.freed r) := by
    intro r
    rw [hlog, List.count_append, List.count_eq_zero_of_not_mem (hmore r), Nat.add_zero]
  refine ⟨h.calls.ok, fun r q' hq' => ?_, fun r hr => ?_, fun r hr g => ?_, fun r hr => ?_,
    fun r => hcount r ▸ hok.once r⟩
  · have hrec := h.records r
    rw [hq'] at hrec
    obtain ⟨q, hq, hfin⟩ := Option.map_eq_some_iff.mp hrec.symm
    rw [← hfin, h.delayed]
    exact hok.finished r q hq
  · rw [h.delayed] at hr
    obtain ⟨q, hq⟩ := hok.known r hr
    exact Option.ne_none_iff_exists'.mp fun hn => by simp [(hnone r).mp hn] at hq
  · rw [hnone] at hr
    rw [h.tables (by rintro ⟨q, hq, -⟩; simp [hr] at hq)]
    exact hok.tables r hr g
  · rw [hnone]
    refine hok.freed r (List.count_pos_iff.mp ?_)
    rw [← hcount]
    exact List.count_pos_iff.mpr hr

theorem Works.entered (q' : Request) (hq : s.requests.get? r = some q) (hlive : Live s r)
    (hq' : q'.isFinished = false) (hdelayed : s'.delayedFreeReqIds = s.delayedFreeReqIds)
    (hlog : s'.log = s.log ++ [.allocated r]) (hrequests : s'.requests = s.requests.insert r q')
    (hcalls : Calls (LedgerOp.On (Live s)) s.kvCacheManager s'.kvCacheManager) : Works s s' := by
  obtain ⟨q₀, hq₀, hlive⟩ := hlive
  obtain rfl := some_unique hq hq₀
  refine ⟨hdelayed, ⟨[.allocated r], hlog, by simp⟩, fun a => ?_, hcalls⟩
  rw [hrequests]
  exact putRequest_isFinished q' hq (hq'.trans hlive.symm) a

theorem ScheduleStep.works {x y : Scheduler κ × StepState} (h : ScheduleStep E x y)
    (hk : KVOk x.1.kvCacheManager) (hok : QueuesOk x.1 x.2.stepSkippedWaiting) :
    Works x.1 y.1 := by
  have hcalls := h.calls hk hok
  cases h with
  | allocateFails | run | requeue => exact ⟨rfl, ⟨[], by simp, by simp⟩, fun _ => rfl, hcalls⟩
  | preempt hrunning hq hstatus =>
    refine ⟨rfl, ⟨[], by simp, by simp⟩, putRequest_isFinished _ hq ?_, hcalls⟩
    rw [Request.isFinished, Request.isFinished, hstatus]
    rfl
  | @promote s st r q s' q' hq hstatus hdone hupdate =>
    obtain ⟨kv, rfl, hq'⟩ := updateWaitingForRemoteKv_ok hupdate
    refine ⟨rfl, ⟨[], by simp, by simp⟩, putRequest_isFinished _ hq ?_, hcalls⟩
    have hlive : q.isFinished = false := by rw [Request.isFinished, hstatus]; rfl
    rw [hlive, Request.isFinished, promoted]
    dsimp only
    split <;> rfl
  | @skip s st r w =>
    cases w <;> exact ⟨rfl, ⟨[], by simp [Scheduler.popRequest], by simp⟩, fun _ => rfl, hcalls⟩
  | @load s st r w q m kv blocks s' q' hqueue hpre hq hready hmatch hasync hkv hupdate =>
    obtain ⟨⟨c, rfl⟩, params, rfl⟩ := updateConnectorAfterAlloc_frame hupdate
    refine .entered { q with
      kvTransferParams := params, status := .waitingForRemoteKvs,
      numComputedTokens := m.numComputedTokens } hq (live_of_queue hok hqueue) rfl ?_ ?_ ?_ hcalls
    all_goals cases w <;> rfl
  | @start s st r w q m n kv blocks s' q' hqueue hpre hq hready hmatch hsync hn hle hkv hupdate =>
    obtain ⟨⟨c, rfl⟩, params, rfl⟩ := updateConnectorAfterAlloc_frame hupdate
    refine .entered { q with
      kvTransferParams := params, status := .running,
      numComputedTokens := m.numComputedTokens } hq (live_of_queue hok hqueue) rfl ?_ ?_ ?_ hcalls
    all_goals cases w <;> rfl

end Works

/-! ### Outputs, ends and transfers -/

/-- The blocks outside the attention window of `n` computed tokens may have left the tables of
`r`; its other blocks are where they were. -/
def Windowed (k k' : KVCacheManager κ) (r : ReqId) (n : Nat) : Prop :=
  ∀ (g i : Nat), (k'.table g r)[i]? = (k.table g r)[i]? ∨
    (∃ spec, k.specs[g]? = some spec ∧ i < spec.getNumSkippedTokens n / spec.blockSize) ∧
      (k.table g r)[i]?.isSome ∧ (k'.table g r)[i]? = some k.blockPool.nullBlock

theorem removeSkippedBlocks_windowed {k k' : KVCacheManager κ} {r : ReqId} {n : Nat}
    (hk : KVOk k) (h : k.removeSkippedBlocks r n = .ok k') : Windowed k k' r n := by
  refine Ledger.Path.invariant (I := fun L => ∀ (g i : Nat), (L.table g r)[i]? = (k.table g r)[i]? ∨
    (∃ spec, k.specs[g]? = some spec ∧ i < spec.getNumSkippedTokens n / spec.blockSize) ∧
      (k.table g r)[i]?.isSome ∧ (L.table g r)[i]? = some k.blockPool.nullBlock) ?_
    (removeSkippedBlocks_calls hk h).path fun _ _ => .inl rfl
  rintro op L₁ L₂ ⟨g₁, spec, hspec, rfl⟩ ⟨-, hsame, hskip⟩ hI g i
  rcases eq_or_ne g g₁ with rfl | hne
  · obtain heq | ⟨hlt, hsome, hnull⟩ := hskip i
    · rw [heq]
      exact hI g i
    · refine .inr ⟨⟨spec, hspec, hlt⟩, ?_, hnull⟩
      obtain heq | ⟨-, hsome', -⟩ := hI g i
      · rwa [← heq]
      · exact hsome'
  · rw [hsame g r fun heq => hne (Prod.mk.inj heq).1]
    exact hI g i

/-- The request `r` with `n` computed tokens ends: its free is delayed, or it is freed. -/
structure Ends (r : ReqId) (n : Nat) (s s' : Scheduler κ) : Prop where
  kv : KVOk s'.kvCacheManager
  same : SameConfig s.kvCacheManager s'.kvCacheManager
  log : s.log <+: s'.log
  others : ∀ a, a ≠ r → s'.requests.get? a = s.requests.get? a ∧
    (a ∈ s'.delayedFreeReqIds ↔ a ∈ s.delayedFreeReqIds) ∧
    (∀ g, blockTable s' g a = blockTable s g a) ∧
    s'.log.count (.freed a) = s.log.count (.freed a)
  ends : (r ∈ s'.delayedFreeReqIds ∧ (∃ q, s'.requests.get? r = some q ∧ q.isFinished = true) ∧
      Windowed s.kvCacheManager s'.kvCacheManager r n ∧
      s'.log.count (.freed r) = s.log.count (.freed r)) ∨
    (r ∉ s'.delayedFreeReqIds ∧ s'.requests.get? r = none ∧ (∀ g, blockTable s' g r = []) ∧
      s'.log.count (.freed r) = s.log.count (.freed r) + 1)

section Ends

variable {s s' t : Scheduler κ} {r : ReqId} {q : Request} {n now : Nat}

theorem freeBlocks_ends (hk : KVOk s.kvCacheManager) (h : s.freeBlocks r = .ok s') :
    Ends r n s s' := by
  obtain ⟨q, kv, hq, hfin, hkv, rfl⟩ := freeBlocks_ok h
  have hcalls := free_calls hk hkv
  have hon : Ledger.Path _ _ (LedgerOp.On (· = r)) s.kvCacheManager.ledger kv.ledger :=
    hcalls.path.mono (by rintro op ⟨g, rfl⟩; rfl)
  refine ⟨hcalls.ok, hcalls.same, List.prefix_append _ _, fun a ha => ⟨?_, ?_, ?_, ?_⟩,
    .inr ⟨Finset.notMem_erase _ _, Dict.get?_erase_self, free_table hkv, ?_⟩⟩
  · exact Dict.get?_erase_ne ha.symm
  · simp [ha]
  · exact hon.others ha
  · simp [List.count_append, ha.symm]
  · simp [List.count_append]

theorem Ends.congr (h : Ends r n t s') (hrequests : ∀ a, a ≠ r → t.requests.get? a = s.requests.get? a)
    (hdelayed : t.delayedFreeReqIds = s.delayedFreeReqIds) (hlog : t.log = s.log)
    (htables : ∀ g a, blockTable t g a = blockTable s g a)
    (hsame : SameConfig s.kvCacheManager t.kvCacheManager) : Ends r n s s' := by
  refine ⟨h.kv, hsame.trans h.same, hlog ▸ h.log, fun a ha => ?_, ?_⟩
  · obtain ⟨hreq, hdel, htab, hcount⟩ := h.others a ha
    exact ⟨hreq.trans (hrequests a ha), hdel.trans (by rw [hdelayed]),
      fun g => (htab g).trans (htables g a), hcount.trans (by rw [hlog])⟩
  · rw [← hlog]
    refine h.ends.imp_left fun ⟨hmem, hq, hwin, hcount⟩ => ⟨hmem, hq, fun g i => ?_, hcount⟩
    have htable : t.kvCacheManager.table g r = s.kvCacheManager.table g r := htables g r
    have := hwin g i
    rwa [htable, hsame.specs, hsame.pool.nullBlock] at this

theorem connectorFinished_windowed {res : Bool × Option KVTransferParams}
    (hk : KVOk s.kvCacheManager) (hfin : q.isFinished = true)
    (h : (s.putRequest r q).connectorFinished r q now = .ok (res, t)) :
    Calls (LedgerOp.On (· = r)) s.kvCacheManager t.kvCacheManager ∧
      Windowed s.kvCacheManager t.kvCacheManager r q.numComputedTokens ∧
      (∃ q', t.requests.get? r = some q' ∧ q'.isFinished = true) ∧
      (∀ a, a ≠ r → t.requests.get? a = s.requests.get? a) ∧
      t.delayedFreeReqIds = s.delayedFreeReqIds ∧ t.log = s.log := by
  obtain ⟨-, -, rfl⟩ | ⟨c, kv, c', q', -, hkv, hreq, rfl⟩ := connectorFinished_ok h
  · exact ⟨.refl _ hk, fun _ _ => .inl rfl, ⟨q, Dict.get?_insert_self, hfin⟩,
      fun a ha => Dict.get?_insert_ne ha.symm, rfl, rfl⟩
  · have hkv' : s.kvCacheManager.removeSkippedBlocks r q.numComputedTokens = .ok kv := hkv
    refine ⟨(removeSkippedBlocks_calls hk hkv').mono ?_, removeSkippedBlocks_windowed hk hkv',
      ⟨q', Dict.get?_insert_self, ?_⟩, fun a ha => ?_, rfl, rfl⟩
    · rintro op ⟨g, spec, -, rfl⟩
      rfl
    · obtain ⟨transfer, rfl⟩ := NixlConnectorScheduler.requestFinished_request hreq
      exact hfin
    · exact (Dict.get?_insert_ne ha.symm).trans (Dict.get?_insert_ne ha.symm)

theorem logHandoff_log (s : Scheduler κ) (r : ReqId) (params : Option KVTransferParams) :
    s.log <+: (s.logHandoff r params).log ∧
      ∀ a, (s.logHandoff r params).log.count (.freed a) = s.log.count (.freed a) := by
  cases params with
  | none => exact ⟨List.prefix_rfl, fun _ => rfl⟩
  | some params =>
    refine ⟨List.prefix_append _ _, fun a => ?_⟩
    simp [Scheduler.logHandoff, Scheduler.logAction, List.count_append]

theorem freeRequest_ends {delay : Bool} {params : Option KVTransferParams}
    (hk : KVOk s.kvCacheManager) (h : s.freeRequest r q delay now = .ok (params, s')) :
    Ends r q.numComputedTokens s s' := by
  obtain ⟨hfin, connectorDelay, s₁, hconn, hend⟩ := freeRequest_ok h
  obtain ⟨hcalls, hwin, hq', hothers, hdelayed, hlog⟩ := connectorFinished_windowed hk hfin hconn
  obtain ⟨hmore, hcount⟩ := logHandoff_log s₁ r params
  rw [hlog] at hmore
  simp only [hlog] at hcount
  have hsame : (s₁.logHandoff r params).kvCacheManager = s₁.kvCacheManager ∧
      (s₁.logHandoff r params).requests = s₁.requests ∧
      (s₁.logHandoff r params).delayedFreeReqIds = s.delayedFreeReqIds := by
    cases params <;> exact ⟨rfl, rfl, hdelayed⟩
  obtain ⟨hkv, hreq, hdel⟩ := hsame
  have htables : ∀ a, a ≠ r → ∀ g, blockTable (s₁.logHandoff r params) g a = blockTable s g a := by
    intro a ha g
    rw [blockTable, hkv]
    exact hcalls.path.others ha g
  obtain ⟨-, rfl⟩ | ⟨-, -, hfree⟩ := hend
  · refine ⟨hkv ▸ hcalls.ok, hkv ▸ hcalls.same, hmore, fun a ha => ?_, .inl ?_⟩
    · refine ⟨?_, ?_, htables a ha, hcount a⟩
      · exact (congrArg (·.get? a) hreq).trans (hothers a ha)
      · simp [hdel, ha]
    · refine ⟨Finset.mem_insert_self _ _, ?_, hkv ▸ hwin, hcount r⟩
      change ∃ q, (s₁.logHandoff r params).requests.get? r = some q ∧ _
      rwa [hreq]
  · have hends : Ends r 0 _ s' := freeBlocks_ends (hkv ▸ hcalls.ok) hfree
    have hgone := hends.ends.resolve_left fun ⟨_, ⟨q, hq, _⟩, _⟩ => by
      obtain ⟨_, _, -, -, -, rfl⟩ := freeBlocks_ok hfree
      simp [Dict.get?_erase_self] at hq
    refine ⟨hends.kv, hcalls.same.trans (hkv ▸ hends.same), hmore.trans hends.log,
      fun a ha => ?_, .inr ⟨hgone.1, hgone.2.1, hgone.2.2.1, ?_⟩⟩
    · obtain ⟨h₁, h₂, h₃, h₄⟩ := hends.others a ha
      refine ⟨?_, ?_, fun g => (h₃ g).trans (htables a ha g), h₄.trans (hcount a)⟩
      · rw [h₁, hreq, hothers a ha]
      · rw [h₂, hdel]
    · rw [hgone.2.2.2, hcount]

end Ends

/-- A state change of `update_from_output` that ends no request: records keep their status, and
tokens may no longer count as computed. -/
structure Calm (s s' : Scheduler κ) : Prop where
  kv : KVOk s'.kvCacheManager
  same : SameConfig s.kvCacheManager s'.kvCacheManager
  delayed : s'.delayedFreeReqIds = s.delayedFreeReqIds
  log : s'.log = s.log
  tables : ∀ g a, blockTable s' g a = blockTable s g a
  none : ∀ a, s'.requests.get? a = none ↔ s.requests.get? a = none
  records : ∀ a q', s'.requests.get? a = some q' → ∃ q, s.requests.get? a = some q ∧
    q'.isFinished = q.isFinished ∧ q'.numComputedTokens ≤ q.numComputedTokens

/-- What `update_from_output` and `finish_requests` do to the tables. -/
structure Settles (s s' : Scheduler κ) : Prop extends Keeps s s' where
  same : SameConfig s.kvCacheManager s'.kvCacheManager
  goesOn : ∀ r, r ∉ s.delayedFreeReqIds → r ∉ s'.delayedFreeReqIds →
    Action.freed r ∈ s'.log ∨ ((∀ g, blockTable s' g r = blockTable s g r) ∧
      ∀ q', s'.requests.get? r = some q' → ∃ q, s.requests.get? r = some q ∧
        q'.numComputedTokens ≤ q.numComputedTokens)
  finishes : ∀ r, r ∉ s.delayedFreeReqIds → r ∈ s'.delayedFreeReqIds →
    ∃ q, s.requests.get? r = some q ∧
      Windowed s.kvCacheManager s'.kvCacheManager r q.numComputedTokens

theorem Settles.refl (s : Scheduler κ) : Settles s s where
  toKeeps := .refl s
  same := .refl _
  goesOn _ _ _ := .inr ⟨fun _ => rfl, fun q hq => ⟨q, hq, le_refl _⟩⟩
  finishes _ hr hr' := absurd hr' hr

theorem getNumSkippedTokens_mono (spec : KVCacheSpec) {m n : Nat} (h : m ≤ n) :
    spec.getNumSkippedTokens m ≤ spec.getNumSkippedTokens n := by
  unfold KVCacheSpec.getNumSkippedTokens
  split
  · exact le_refl _
  · omega
  · exact Nat.mul_le_mul_right _ (Nat.div_le_div_right h)

theorem Windowed.mono {k k' : KVCacheManager κ} {r : ReqId} {m n : Nat} (h : Windowed k k' r m)
    (hle : m ≤ n) : Windowed k k' r n := by
  intro g i
  refine (h g i).imp_right fun ⟨⟨spec, hspec, hlt⟩, hrest⟩ => ⟨⟨spec, hspec, ?_⟩, hrest⟩
  exact lt_of_lt_of_le hlt (Nat.div_le_div_right (getNumSkippedTokens_mono spec hle))

section Settles

variable {s s₁ s' : Scheduler κ} {r : ReqId} {n : Nat}

theorem Settles.trans (h : Settles s s₁) (h' : Settles s₁ s') (hok : DelayedOk s') :
    Settles s s' := by
  have hmem : ∀ r ∈ s'.delayedFreeReqIds, Action.freed r ∉ s'.log := by
    intro r hr hfreed
    obtain ⟨q, hq⟩ := hok.known r hr
    simp [hok.freed r hfreed] at hq
  refine ⟨h.toKeeps.trans h'.toKeeps, h.same.trans h'.same, fun r hr hr' => ?_, fun r hr hr' => ?_⟩
  · by_cases hr₁ : r ∈ s₁.delayedFreeReqIds
    · exact .inl ((h'.delayed r hr₁).resolve_left fun hd => hr' hd.1)
    · obtain hfreed | ⟨htable, hrec⟩ := h.goesOn r hr hr₁
      · exact .inl (h'.log.subset hfreed)
      obtain hfreed | ⟨htable', hrec'⟩ := h'.goesOn r hr₁ hr'
      · exact .inl hfreed
      refine .inr ⟨fun g => (htable' g).trans (htable g), fun q' hq' => ?_⟩
      obtain ⟨q₁, hq₁, hle₁⟩ := hrec' q' hq'
      obtain ⟨q, hq, hle⟩ := hrec q₁ hq₁
      exact ⟨q, hq, hle₁.trans hle⟩
  · by_cases hr₁ : r ∈ s₁.delayedFreeReqIds
    · obtain ⟨q, hq, hwin⟩ := h.finishes r hr hr₁
      obtain ⟨-, htable⟩ := (h'.delayed r hr₁).resolve_right (hmem r hr')
      refine ⟨q, hq, fun g i => ?_⟩
      rw [show s'.kvCacheManager.table g r = _ from htable g]
      exact hwin g i
    · obtain ⟨htable, hrec⟩ := (h.goesOn r hr hr₁).resolve_left fun hf =>
        hmem r hr' (h'.log.subset hf)
      obtain ⟨q₁, hq₁, hwin⟩ := h'.finishes r hr₁ hr'
      obtain ⟨q, hq, hle⟩ := hrec q₁ hq₁
      refine ⟨q, hq, fun g i => ?_⟩
      have hold : s₁.kvCacheManager.table g r = s.kvCacheManager.table g r := htable g
      have hw := hwin.mono hle g i
      rwa [hold, h.same.specs, h.same.pool.nullBlock] at hw

theorem Calm.settles (h : Calm s s') (hok : DelayedOk s) : DelayedOk s' ∧ Settles s s' := by
  refine ⟨⟨h.kv, fun r q' hq' => ?_, fun r hr => ?_, fun r hr g => ?_, fun r hr => ?_, ?_⟩, ?_⟩
  · obtain ⟨q, hq, hfin, -⟩ := h.records r q' hq'
    rw [hfin, h.delayed]
    exact hok.finished r q hq
  · rw [h.delayed] at hr
    obtain ⟨q, hq⟩ := hok.known r hr
    exact Option.ne_none_iff_exists'.mp fun hn => by simp [(h.none r).mp hn] at hq
  · rw [h.tables]
    exact hok.tables r ((h.none r).mp hr) g
  · rw [h.log] at hr
    exact (h.none r).mpr (hok.freed r hr)
  · rw [h.log]
    exact hok.once
  · refine ⟨⟨h.log ▸ List.prefix_rfl, fun r hr => .inl ⟨h.delayed ▸ hr, fun g => h.tables g r⟩,
      fun r q' hq' => ?_, fun r q hq hnone => ?_, fun r hr => .inl (h.log ▸ hr)⟩,
      h.same, fun r _ _ => .inr ⟨fun g => h.tables g r, fun q' hq' => ?_⟩, fun r hr hr' => ?_⟩
    · obtain ⟨q, hq, -⟩ := h.records r q' hq'
      exact ⟨q, hq⟩
    · simp [(h.none r).mp hnone] at hq
    · obtain ⟨q, hq, -, hle⟩ := h.records r q' hq'
      exact ⟨q, hq, hle⟩
    · rw [h.delayed] at hr'
      exact absurd hr' hr

theorem Ends.settles {q : Request} (h : Ends r n s s') (hok : DelayedOk s)
    (hq : s.requests.get? r = some q)
    (hn : q.isFinished = false ∧ n ≤ q.numComputedTokens ∨ r ∉ s'.delayedFreeReqIds) :
    DelayedOk s' ∧ Settles s s' := by
  have hzero : s.log.count (.freed r) = 0 :=
    List.count_eq_zero.mpr fun hf => by simp [hok.freed r hf] at hq
  -- a request that was freed is in the log once
  have hone : s'.log.count (.freed r) = s.log.count (.freed r) + 1 → Action.freed r ∈ s'.log :=
    fun hcount => List.count_pos_iff.mp (by omega)
  refine ⟨⟨h.kv, fun a q' hq' => ?_, fun a ha => ?_, fun a ha g => ?_, fun a ha => ?_,
    fun a => ?_⟩, ⟨⟨h.log, fun a ha => ?_, fun a q' hq' => ?_, fun a q' hq' hnone => ?_,
    fun a ha => ?_⟩, h.same, fun a ha ha' => ?_, fun a ha ha' => ?_⟩⟩
  all_goals rcases eq_or_ne a r with rfl | hne
  · obtain ⟨hmem, ⟨q₁, hq₁, hfin⟩, -⟩ | ⟨-, hnone, -⟩ := h.ends
    · obtain rfl := some_unique hq₁ hq'
      exact iff_of_true hfin hmem
    · simp [hnone] at hq'
  · obtain ⟨hreq, hdel, -⟩ := h.others a hne
    rw [hdel]
    exact hok.finished a q' (hreq ▸ hq')
  · obtain ⟨-, ⟨q₁, hq₁, -⟩, -⟩ | ⟨hnot, -⟩ := h.ends
    · exact ⟨q₁, hq₁⟩
    · exact absurd ha hnot
  · obtain ⟨hreq, hdel, -⟩ := h.others a hne
    rw [hreq]
    exact hok.known a (hdel.mp ha)
  · obtain ⟨-, ⟨q₁, hq₁, -⟩, -⟩ | ⟨-, -, htable, -⟩ := h.ends
    · simp [hq₁] at ha
    · exact htable g
  · obtain ⟨hreq, -, htable, -⟩ := h.others a hne
    rw [htable]
    exact hok.tables a (hreq ▸ ha) g
  · obtain ⟨-, -, -, hcount⟩ | ⟨-, hnone, -⟩ := h.ends
    · rw [hzero, List.count_eq_zero] at hcount
      exact absurd ha hcount
    · exact hnone
  · obtain ⟨hreq, -, -, hcount⟩ := h.others a hne
    rw [hreq]
    refine hok.freed a (List.count_pos_iff.mp ?_)
    rw [← hcount]
    exact List.count_pos_iff.mpr ha
  · obtain ⟨-, -, -, hcount⟩ | ⟨-, -, -, hcount⟩ := h.ends <;> omega
  · rw [(h.others a hne).2.2.2]
    exact hok.once a
  · obtain ⟨hlive, -⟩ | hnot := hn
    · rw [(hok.finished a q hq).mpr ha] at hlive
      cases hlive
    · exact .inr (hone (h.ends.resolve_left fun hd => hnot hd.1).2.2.2)
  · obtain ⟨-, hdel, htable, -⟩ := h.others a hne
    exact .inl ⟨hdel.mpr ha, htable⟩
  · exact ⟨q, hq⟩
  · exact ⟨q', (h.others a hne).1 ▸ hq'⟩
  · obtain ⟨-, ⟨q₁, hq₁, -⟩, -⟩ | ⟨-, -, -, hcount⟩ := h.ends
    · simp [hq₁] at hnone
    · exact hone hcount
  · rw [(h.others a hne).1, hq'] at hnone
    cases hnone
  · exact .inr ⟨q, hq⟩
  · refine .inl (List.count_pos_iff.mp ?_)
    rw [← (h.others a hne).2.2.2]
    exact List.count_pos_iff.mpr ha
  · exact .inl (hone (h.ends.resolve_left fun hd => ha' hd.1).2.2.2)
  · obtain ⟨hreq, -, htable, -⟩ := h.others a hne
    exact .inr ⟨htable, fun q' hq' => ⟨q', hreq ▸ hq', le_refl _⟩⟩
  · obtain ⟨-, -, hwin, -⟩ := h.ends.resolve_right fun hd => hd.1 ha'
    exact ⟨q, hq, hwin.mono (hn.resolve_right fun hnot => hnot ha').2⟩
  · exact absurd ((h.others a hne).2.1.mp ha') ha

end Settles

/-! ### The calls of the engine core -/

section Steps

variable {E : CacheEnv κ} {out : SchedulerOutput} {sampled : ReqId → List TokenId}
  {kvOut : KVConnectorOutput} {now : Nat} {s s' : Scheduler κ} {r : ReqId} {q : Request}

theorem Calm.of_kv {kv : KVCacheManager κ} (hkv : KVOk kv)
    (hsame : SameConfig s.kvCacheManager kv)
    (htables : ∀ g a, kv.table g a = s.kvCacheManager.table g a) : Calm s (s.setKv kv) :=
  ⟨hkv, hsame, rfl, rfl, htables, fun _ => Iff.rfl, fun _ q' hq' => ⟨q', hq', rfl, le_refl _⟩⟩

theorem updateRequestWithOutput_tables {ts used : List TokenId} {q' : Request} {stopped : Bool}
    {kv : KVCacheManager κ} (hk : KVOk s.kvCacheManager)
    (h : s.updateRequestWithOutput E q ts = .ok (q', used, stopped, kv)) :
    KVOk kv ∧ SameConfig s.kvCacheManager kv ∧
      ∀ g a, kv.table g a = s.kvCacheManager.table g a := by
  obtain ⟨q₁, -, -, rfl | ⟨view, n, hkv⟩⟩ := updateRequestWithOutput_ok h
  · exact ⟨hk, .refl _, fun _ _ => rfl⟩
  · have hcalls := cacheBlocks_calls hk hkv
    have htable := hcalls.path.cache_table fun _ hop => hop
    exact ⟨hcalls.ok, hcalls.same, fun g a => congrFun (congrFun htable g) a⟩

theorem Calm.put {q' : Request} (hk : KVOk s.kvCacheManager) (hq : s.requests.get? r = some q)
    (hfin : q'.isFinished = q.isFinished) (hle : q'.numComputedTokens ≤ q.numComputedTokens) :
    Calm s (s.putRequest r q') := by
  refine ⟨hk, .refl _, rfl, rfl, fun _ _ => rfl, fun a => ?_, fun a q₁ hq₁ => ?_⟩
  all_goals rcases eq_or_ne r a with rfl | hne
  · simp [Dict.get?_insert_self, hq]
  · rw [Scheduler.putRequest_requests, Dict.get?_insert_ne hne]
  · rw [Scheduler.putRequest_requests, Dict.get?_insert_self] at hq₁
    obtain rfl := Option.some.inj hq₁
    exact ⟨q, hq, hfin, hle⟩
  · rw [Scheduler.putRequest_requests, Dict.get?_insert_ne hne] at hq₁
    exact ⟨q₁, hq₁, rfl, le_refl _⟩

theorem Finishes.settles (h : Finishes now r s s') (hok : DelayedOk s) :
    DelayedOk s' ∧ Settles s s' := by
  obtain ⟨q, status, params, hq, hlive, -, hfree⟩ := h.run
  have hbefore : (beforeFree s r q).requests = s.requests ∧
      (beforeFree s r q).delayedFreeReqIds = s.delayedFreeReqIds ∧
      (beforeFree s r q).log = s.log ∧
      (beforeFree s r q).kvCacheManager = s.kvCacheManager := by
    unfold beforeFree leaveQueues
    split <;> split <;> exact ⟨rfl, rfl, rfl, rfl⟩
  obtain ⟨hreq, hdel, hlog, hkv⟩ := hbefore
  have hends := freeRequest_ends (hkv ▸ hok.kv) hfree
  have hends' : Ends r q.numComputedTokens s s' :=
    hends.congr (fun a _ => by rw [hreq]) hdel hlog (fun g a => by rw [blockTable, hkv]; rfl)
      (hkv ▸ .refl _)
  exact hends'.settles hok hq (.inl ⟨hlive, le_refl _⟩)

theorem UpdateStep.settles {x y : Scheduler κ × List (ReqId × EngineCoreOutput)}
    (h : UpdateStep E out sampled kvOut now x y) (hok : DelayedOk x.1) :
    DelayedOk y.1 ∧ Settles x.1 y.1 := by
  cases h with
  | @rewind s outs r q n hq hle =>
    have hput : Calm s (s.putRequest r { q with numComputedTokens := n }) :=
      .put hok.kv hq rfl hle
    exact hput.settles hok
  | evict hkv =>
    have hcalls := evictBlocks_calls hok.kv hkv
    have hnone := hcalls.path.mono (Q := LedgerOp.On fun _ => False) (by rintro op rfl; trivial)
    exact (Calm.of_kv hcalls.ok hcalls.same fun g a => hnone.others id g).settles hok
  | markFailed | received =>
    exact Calm.settles ⟨hok.kv, .refl _, rfl, rfl, fun _ _ => rfl, fun _ => Iff.rfl,
      fun _ q' hq' => ⟨q', hq', rfl, le_refl _⟩⟩ hok
  | @output s outs r n q q' used kv hsched hq hlive hsome hupdate =>
    obtain ⟨hkv, hsame, htables⟩ := updateRequestWithOutput_tables hok.kv hupdate
    obtain ⟨status, stopReason, params, placeholders, rfl, -, hgoes, -⟩ :=
      updateRequestWithOutput_frame hupdate
    obtain ⟨hok₁, hset₁⟩ := (Calm.of_kv hkv hsame htables).settles hok
    have hput : Calm (s.setKv kv) ((s.setKv kv).putRequest r { q with
        outputTokenIds := q.outputTokenIds ++ used, status, stopReason,
        kvTransferParams := params, numOutputPlaceholders := placeholders
        prefillStats := false }) :=
      .put hkv hq (congrArg RequestStatus.isFinished (hgoes rfl).1) (le_refl _)
    obtain ⟨hok₂, hset₂⟩ := hput.settles hok₁
    exact ⟨hok₂, hset₁.trans hset₂ hok₂⟩
  | @stop s outs r n q q' used kv params s' hsched hq hlive hsome hupdate hfree =>
    obtain ⟨hkv, hsame, htables⟩ := updateRequestWithOutput_tables hok.kv hupdate
    obtain ⟨status, stopReason, transfer, placeholders, rfl, -⟩ :=
      updateRequestWithOutput_frame hupdate
    have hleave : (leaveStopped (s.setKv kv) r q.status).requests = s.requests ∧
        (leaveStopped (s.setKv kv) r q.status).delayedFreeReqIds = s.delayedFreeReqIds ∧
        (leaveStopped (s.setKv kv) r q.status).log = s.log ∧
        (leaveStopped (s.setKv kv) r q.status).kvCacheManager = kv := by
      unfold leaveStopped
      split <;> exact ⟨rfl, rfl, rfl, rfl⟩
    obtain ⟨hreq, hdel, hlog, hkv'⟩ := hleave
    have hends := freeRequest_ends (by rwa [hkv']) hfree
    have hends' : Ends r q.numComputedTokens s s' :=
      hends.congr (fun a _ => by rw [hreq]) hdel hlog
        (fun g a => by rw [blockTable, hkv']; exact htables g a) (by rwa [hkv'])
    exact hends'.settles hok hq (.inl ⟨hlive, le_refl _⟩)
  | finish hfinish => exact hfinish.settles hok
  | @free s outs r s' hmem hfree =>
    obtain ⟨q, kv, hq, -, -, hs'⟩ := freeBlocks_ok hfree
    have hends : Ends r 0 s s' := freeBlocks_ends hok.kv hfree
    refine hends.settles hok hq (.inr ?_)
    simp [hs']

theorem UpdateSteps.settles {x y : Scheduler κ × List (ReqId × EngineCoreOutput)}
    (h : UpdateSteps E out sampled kvOut now x y) (hok : DelayedOk x.1) :
    DelayedOk y.1 ∧ Settles x.1 y.1 := by
  induction h with
  | refl => exact ⟨hok, .refl _⟩
  | tail _ hstep ih =>
    obtain ⟨hok₂, hset₂⟩ := hstep.settles ih.1
    exact ⟨hok₂, ih.2.trans hset₂ hok₂⟩

theorem FinishSteps.settles (h : FinishSteps now s s') (hok : DelayedOk s) :
    DelayedOk s' ∧ Settles s s' := by
  induction h with
  | refl => exact ⟨hok, .refl _⟩
  | tail _ hstep ih =>
    obtain ⟨r, hfinish⟩ := hstep
    obtain ⟨hok₂, hset₂⟩ := hfinish.settles ih.1
    exact ⟨hok₂, ih.2.trans hset₂ hok₂⟩

theorem ScheduleSteps.works {x y : Scheduler κ × StepState} (h : ScheduleSteps E x y)
    (hok : DelayedOk x.1) (hqueues : QueuesOk x.1 x.2.stepSkippedWaiting) :
    DelayedOk y.1 ∧ Keeps x.1 y.1 ∧ y.1.delayedFreeReqIds = x.1.delayedFreeReqIds := by
  induction h with
  | refl => exact ⟨hok, .refl _, rfl⟩
  | @tail y z hsteps hstep ih =>
    obtain ⟨hok₁, hkeeps, hdel⟩ := ih
    have hworks := hstep.works hok₁.kv (QueuesOk.scheduleSteps hsteps hqueues)
    exact ⟨hworks.delayedOk hok₁, hkeeps.trans (hworks.keeps hok₁), hworks.delayed.trans hdel⟩

theorem updateAfterSchedule_works {entries : List (ReqId × Nat)} {ids : List ReqId}
    (hk : KVOk s.kvCacheManager) (h : s.updateAfterSchedule entries = .ok (s', ids)) :
    Works s s' := by
  have hframe := updateAfterSchedule_frame h
  refine ⟨by rw [hframe], ⟨[], by rw [hframe]; simp, by simp⟩, fun a => ?_, by
    rw [hframe]; exact .refl _ hk⟩
  refine updateAfterSchedule_invariant (P := fun t => (t.requests.get? a).map Request.isFinished =
    (s.requests.get? a).map Request.isFinished) (fun e _ t q ht hq => ?_) rfl h
  exact (putRequest_isFinished (Scheduler.advance t.config.asyncScheduling q e.2) hq rfl a).trans ht

theorem finishSchedule_works {st : StepState} (hk : KVOk s.kvCacheManager)
    (h : s.finishSchedule st = .ok (out, s')) : Works s s' := by
  obtain ⟨-, hupdate, -⟩ := finishSchedule_ok h
  obtain ⟨c, hc⟩ := takeConnectorMeta_frame s
  rw [hc] at hupdate
  have hworks := updateAfterSchedule_works (s := { s with connector := c }) hk hupdate
  exact ⟨hworks.delayed, hworks.log, hworks.records, hworks.calls⟩

end Steps

/-! ### `has_requests` -/

inductive PauseState where
  | unpaused
  | pausedNew
  | pausedAll

namespace Scheduler

/-- Without streaming sessions. -/
def getNumUnfinishedRequests (s : Scheduler κ) : PauseState → Nat
  | .pausedAll => 0
  | .pausedNew => s.running.length
  | .unpaused => s.waiting.length + s.skippedWaiting.length + s.running.length

/-- `finishedReqIds` are those that the workers do not know about yet. -/
def hasRequests (s : Scheduler κ) (pauseState : PauseState) (finishedReqIds : Finset ReqId) :
    Bool :=
  0 < s.getNumUnfinishedRequests pauseState || 0 < finishedReqIds.card ||
    0 < s.delayedFreeReqIds.card

end Scheduler

/-! ### Runs -/

theorem DelayedOk.added {s : Scheduler κ} {q : Request} (h : DelayedOk s)
    (hlive : q.isFinished = false) (hnew : s.requests.get? q.requestId = none)
    (hnot : Action.freed q.requestId ∉ s.log) : DelayedOk (EngineCore.added s q) := by
  have hget : ∀ a, a ≠ q.requestId →
      (EngineCore.added s q).requests.get? a = s.requests.get? a :=
    fun a ha => Dict.get?_insert_ne ha.symm
  have hself : (EngineCore.added s q).requests.get? q.requestId = some q :=
    Dict.get?_insert_self
  refine ⟨h.kv, fun a q' hq' => ?_, fun a ha => ?_, fun a ha => ?_, fun a ha => ?_, h.once⟩
  all_goals rcases eq_or_ne a q.requestId with rfl | hne
  · obtain rfl := some_unique hself hq'
    rw [hlive]
    refine iff_of_false (by simp) fun hmem => ?_
    obtain ⟨q₀, hq₀⟩ := h.known _ hmem
    simp [hnew] at hq₀
  · exact h.finished a q' (hget a hne ▸ hq')
  · exact ⟨q, hself⟩
  · rw [hget a hne]
    exact h.known a ha
  · simp [hself] at ha
  · exact h.tables a (hget a hne ▸ ha)
  · exact absurd ha hnot
  · rw [hget a hne]
    exact h.freed a ha

namespace EngineCore

variable {E : CacheEnv κ} {e e' : EngineCore κ}

structure FreesOk (e : EngineCore κ) : Prop where
  ok : Ok e
  delayed : DelayedOk e.scheduler
  gone : ∀ r ∈ e.seen, e.scheduler.requests.get? r = none → Action.freed r ∈ e.scheduler.log
  seen : ∀ r, Action.freed r ∈ e.scheduler.log → r ∈ e.seen

structure StepFrees (e e' : EngineCore κ) : Prop where
  delayed : ∀ r ∈ e.scheduler.delayedFreeReqIds,
    (r ∈ e'.scheduler.delayedFreeReqIds ∧
        ∀ g, blockTable e'.scheduler g r = blockTable e.scheduler g r) ∨
      (r ∉ e'.scheduler.delayedFreeReqIds ∧ e'.scheduler.requests.get? r = none ∧
        (∀ g, blockTable e'.scheduler g r = []) ∧ e.scheduler.log.count (.freed r) = 0 ∧
        e'.scheduler.log.count (.freed r) = 1)
  finishes : ∀ r, r ∉ e.scheduler.delayedFreeReqIds → r ∈ e'.scheduler.delayedFreeReqIds →
    ∀ (g i : Nat), (blockTable e'.scheduler g r)[i]? = (blockTable e.scheduler g r)[i]? ∨
      ∃ q spec, e.scheduler.requests.get? r = some q ∧
        e.scheduler.kvCacheManager.specs[g]? = some spec ∧
        i < spec.getNumSkippedTokens q.numComputedTokens / spec.blockSize ∧
        (blockTable e'.scheduler g r)[i]? = some e.scheduler.kvCacheManager.blockPool.nullBlock

theorem FreesOk.delayed_step (h : FreesOk e) (h' : FreesOk e') {r : ReqId}
    (hr : r ∈ e.scheduler.delayedFreeReqIds)
    (hkeeps : (r ∈ e'.scheduler.delayedFreeReqIds ∧
        ∀ g, blockTable e'.scheduler g r = blockTable e.scheduler g r) ∨
      Action.freed r ∈ e'.scheduler.log) :
    (r ∈ e'.scheduler.delayedFreeReqIds ∧
        ∀ g, blockTable e'.scheduler g r = blockTable e.scheduler g r) ∨
      (r ∉ e'.scheduler.delayedFreeReqIds ∧ e'.scheduler.requests.get? r = none ∧
        (∀ g, blockTable e'.scheduler g r = []) ∧ e.scheduler.log.count (.freed r) = 0 ∧
        e'.scheduler.log.count (.freed r) = 1) := by
  obtain hkept | hfreed := hkeeps
  · exact .inl hkept
  have hnone := h'.delayed.freed r hfreed
  refine .inr ⟨fun hmem => ?_, hnone, h'.delayed.tables r hnone, ?_, ?_⟩
  · obtain ⟨q, hq⟩ := h'.delayed.known r hmem
    simp [hnone] at hq
  · refine List.count_eq_zero.mpr fun hold => ?_
    obtain ⟨q, hq⟩ := h.delayed.known r hr
    simp [h.delayed.freed r hold] at hq
  · have := h'.delayed.once r
    have := List.count_pos_iff.mpr hfreed
    omega

theorem FreesOk.of_keeps (h : FreesOk e) (hok' : Ok e') (hok : DelayedOk e'.scheduler)
    (hkeeps : Keeps e.scheduler e'.scheduler) (hseen : e'.seen = e.seen) : FreesOk e' := by
  refine ⟨hok', hok, fun r hr hnone => ?_, fun r hr => ?_⟩
  · rw [hseen] at hr
    cases hq : e.scheduler.requests.get? r with
    | none => exact hkeeps.log.subset (h.gone r hr hq)
    | some q => exact hkeeps.gone r q hq hnone
  · rw [hseen]
    obtain hr | ⟨q, hq⟩ := hkeeps.freed r hr
    · exact h.seen r hr
    · exact h.ok.seen r q hq

theorem FreesOk.of_settles (h : FreesOk e) (hok' : Ok e') (hok : DelayedOk e'.scheduler)
    (hset : Settles e.scheduler e'.scheduler) (hseen : e'.seen = e.seen) :
    FreesOk e' ∧ StepFrees e e' := by
  have hfrees := h.of_keeps hok' hok hset.toKeeps hseen
  refine ⟨hfrees, fun r hr => h.delayed_step hfrees hr (hset.delayed r hr), fun r hr hr' g i => ?_⟩
  obtain ⟨q, hq, hwin⟩ := hset.finishes r hr hr'
  exact (hwin g i).imp_right fun ⟨⟨spec, hspec, hlt⟩, _, hnull⟩ =>
    ⟨q, spec, hq, hspec, hlt, hnull⟩

theorem FreesOk.schedule (h : FreesOk e) (hstep : step E e .schedule = some e') :
    FreesOk e' ∧ StepFrees e e' := by
  have hok' := h.ok.schedule hstep
  obtain ⟨-, out, s₁, st₁, s', hsteps, -, hfinish, rfl⟩ := step_schedule h.ok hstep
  obtain ⟨hok₁, hkeeps₁, hdel₁⟩ := ScheduleSteps.works hsteps h.delayed h.ok.queues
  have hworks := finishSchedule_works hok₁.kv hfinish
  have hkeeps := hkeeps₁.trans (hworks.keeps hok₁)
  have hfrees := h.of_keeps hok' (hworks.delayedOk hok₁) hkeeps rfl
  refine ⟨hfrees, fun r hr => h.delayed_step hfrees hr (hkeeps.delayed r hr), fun r hr hr' => absurd ?_ hr⟩
  rwa [← hdel₁, ← hworks.delayed]

theorem FreesOk.update {sampled : ReqId → TokenId} {kv : KVConnectorOutput} {now : Nat}
    (h : FreesOk e) (hstep : step E e (.update sampled kv now) = some e') :
    FreesOk e' ∧ StepFrees e e' := by
  have hok' := h.ok.update hstep
  obtain ⟨out, rest, failed, s₁, outs, s', -, hcheck, hsteps, rfl⟩ := step_update hstep
  have hsteps' := (checkInvalidBlocks_steps hcheck).trans hsteps
  obtain ⟨hok, hsettles⟩ := UpdateSteps.settles hsteps' h.delayed
  exact h.of_settles hok' hok hsettles rfl

theorem FreesOk.finish {ids : List ReqId} {status : RequestStatus} {now : Nat} (h : FreesOk e)
    (hstep : step E e (.finish ids status now) = some e') : FreesOk e' ∧ StepFrees e e' := by
  have hok' := h.ok.finish hstep
  obtain ⟨s', hsteps, rfl⟩ := step_finish hstep
  obtain ⟨hok, hsettles⟩ := FinishSteps.settles hsteps h.delayed
  exact h.of_settles hok' hok hsettles rfl

theorem FreesOk.add {req : EngineCoreRequest} {now : Nat} (h : FreesOk e)
    (hstep : step E e (.add req now) = some e') : FreesOk e' ∧ StepFrees e e' := by
  have hok' := h.ok.add hstep
  obtain ⟨hseen, hnew, s', hsteps, -, rfl⟩ := step_add hstep
  have hid := toRequest_requestId req
  have hlive : req.toRequest.isFinished = false := by
    rw [Request.isFinished, toRequest_status]
    rfl
  have hadded : DelayedOk (added e.scheduler req.toRequest) :=
    h.delayed.added hlive (hid ▸ hnew) fun hf => hseen (hid ▸ h.seen _ hf)
  obtain ⟨hok, hset⟩ := FinishSteps.settles hsteps hadded
  have hget : ∀ a, a ≠ req.requestId →
      (added e.scheduler req.toRequest).requests.get? a = e.scheduler.requests.get? a :=
    fun a ha => Dict.get?_insert_ne (hid ▸ ha.symm)
  have hself : (added e.scheduler req.toRequest).requests.get? req.requestId =
      some req.toRequest := by
    rw [← hid]
    exact Dict.get?_insert_self
  have hfrees : FreesOk { e with scheduler := s', seen := insert req.requestId e.seen } := by
    refine ⟨hok', hok, fun r hr hnone => ?_, fun r hr => ?_⟩
    · cases hq : (added e.scheduler req.toRequest).requests.get? r with
      | some q => exact hset.gone r q hq hnone
      | none =>
        have hne : r ≠ req.requestId := by
          rintro rfl
          simp [hself] at hq
        rw [hget r hne] at hq
        exact hset.log.subset (h.gone r (Finset.mem_of_mem_insert_of_ne hr hne) hq)
    · obtain hr | ⟨q, hq⟩ := hset.freed r hr
      · exact Finset.mem_insert_of_mem (h.seen r hr)
      · rcases eq_or_ne r req.requestId with rfl | hne
        · exact Finset.mem_insert_self _ _
        · rw [hget r hne] at hq
          exact Finset.mem_insert_of_mem (h.ok.seen r q hq)
  refine ⟨hfrees, fun r hr => h.delayed_step hfrees hr (hset.delayed r hr), fun r hr hr' g i => ?_⟩
  obtain ⟨q, hq, hwin⟩ := hset.finishes r hr hr'
  rcases eq_or_ne r req.requestId with rfl | hne
  · obtain heq | ⟨-, hsome, -⟩ := hwin g i
    · exact .inl heq
    · -- the new request has no blocks to lose
      rw [show (added e.scheduler req.toRequest).kvCacheManager.table g req.requestId = [] from
        h.delayed.tables _ hnew g] at hsome
      simp at hsome
  · obtain heq | ⟨⟨spec, hspec, hlt⟩, -, hnull⟩ := hwin g i
    · exact .inl heq
    · exact .inr ⟨q, spec, hget r hne ▸ hq, hspec, hlt, hnull⟩

theorem FreesOk.step {ev : Event} (h : FreesOk e) (hstep : step E e ev = some e') :
    FreesOk e' ∧ StepFrees e e' := by
  cases ev with
  | add req now => exact h.add hstep
  | schedule => exact h.schedule hstep
  | update sampled kv now => exact h.update hstep
  | finish ids status now => exact h.finish hstep

theorem Fresh.freesOk {numBlocks maxModelLen hashBlockSize : Nat} {caching : Bool}
    {groups : List KVCacheSpec} (h : Fresh e) (hinit : KVCacheManager.init numBlocks maxModelLen
      hashBlockSize caching groups = .ok e.scheduler.kvCacheManager) : FreesOk e := by
  have hnone : ∀ r, e.scheduler.requests.get? r = none := fun r => by rw [h.requests]; rfl
  refine ⟨h.ok, ⟨KVOk.init hinit, fun r q hq => ?_, ?_, fun r _ g => table_init hinit g r, ?_, ?_⟩,
    ?_, ?_⟩
  · simp [hnone] at hq
  · simp [h.delayedFree]
  · simp [h.log]
  · simp [h.log]
  · simp [h.seen]
  · simp [h.log]

/-- In every reachable state a request of the map has finished if and only if its free is
delayed; requests outside the map have no blocks; a request that was freed was freed once; and
`has_requests` holds while a free is delayed. The reference counts are those of the tables, so
blocks are released with the tables. In each step a delayed request keeps its tables or is freed,
and a request whose free becomes delayed keeps its tables except for blocks outside the attention
window. -/
theorem delayed_frees {numBlocks maxModelLen hashBlockSize : Nat} {caching : Bool}
    {groups : List KVCacheSpec} {e₀ e : EngineCore κ} {es : List Event} (hfresh : Fresh e₀)
    (hinit : KVCacheManager.init numBlocks maxModelLen hashBlockSize caching groups =
      .ok e₀.scheduler.kvCacheManager)
    (hrun : Machine.exec (EngineCore.step E) e₀ es = some e) :
    (∀ r q, e.scheduler.requests.get? r = some q →
        (q.isFinished = true ↔ r ∈ e.scheduler.delayedFreeReqIds)) ∧
      (∀ r ∈ e.scheduler.delayedFreeReqIds, ∃ q, e.scheduler.requests.get? r = some q) ∧
      (∀ r, e.scheduler.requests.get? r = none → ∀ g, blockTable e.scheduler g r = []) ∧
      (∀ r ∈ e.seen, e.scheduler.log.count (.freed r) =
        if e.scheduler.requests.get? r = none then 1 else 0) ∧
      (∀ pauseState finishedReqIds, e.scheduler.delayedFreeReqIds.Nonempty →
        e.scheduler.hasRequests pauseState finishedReqIds = true) ∧
      Accounting e.scheduler.kvCacheManager ∧
      ∀ ev e', EngineCore.step E e ev = some e' → StepFrees e e' := by
  have h : FreesOk e := Machine.exec_invariant (fun _ _ _ h hs => (FreesOk.step h hs).1)
    (hfresh.freesOk hinit) hrun
  refine ⟨h.delayed.finished, h.delayed.known, h.delayed.tables, fun r hr => ?_,
    fun pauseState ids hne => ?_, h.delayed.kv.accounting, fun ev e' hs => (h.step hs).2⟩
  · split
    · next hnone =>
      have := h.delayed.once r
      have := List.count_pos_iff.mpr (h.gone r hr hnone)
      omega
    · next hsome => exact List.count_eq_zero.mpr fun hf => hsome (h.delayed.freed r hf)
  · simp [Scheduler.hasRequests, hne]

/-! ### No block is lost -/

theorem refsOf_eq_zero_of_free {k : KVCacheManager κ} {b : Nat} (h : k.ledger.Free b) :
    refsOf k.singleTypeManagers b = 0 := by
  refine List.sum_eq_zero fun n hn => ?_
  obtain ⟨m, hm, rfl⟩ := List.mem_map.mp hn
  obtain ⟨g, hg⟩ := List.mem_iff_getElem?.mp hm
  refine List.sum_eq_zero fun n hn => ?_
  obtain ⟨⟨r, bs⟩, hr, rfl⟩ := List.mem_map.mp hn
  have hbs : m.blocksOf r = bs := by
    rw [SingleTypeKVCacheManager.blocksOf, Dict.getD, (Dict.get?_eq_some_iff ..).mpr hr]
    rfl
  refine List.count_eq_zero.mpr fun hb => h g r ?_
  change b ∈ k.table g r
  rwa [table_eq hg, hbs]

theorem resetPrefixCache_iff {k : KVCacheManager κ} (hk : KVOk k) :
    k.resetPrefixCache.1 = true ↔ ∀ g r, ∀ b ∈ k.table g r, b = k.blockPool.nullBlock := by
  constructor
  · intro hreset g r b hb
    by_contra hnull
    exact ledger_free (hk.pool.refs_eq_zero_of_reset hreset hnull) g r hb
  · intro hnull
    obtain ⟨ids, hthr, hids⟩ := hk.pool.free
    have hperm : ids.Perm ((List.range k.blockPool.numGpuBlocks).erase k.blockPool.nullBlock) := by
      refine (List.perm_ext_iff_of_nodup hthr.nodup (List.nodup_range.erase _)).mpr fun b => ?_
      rw [hids b, List.nodup_range.mem_erase_iff, List.mem_range]
      constructor
      · exact fun hb => ⟨hb.1, hb.2.1⟩
      · exact fun hb => ⟨hb.1, hb.2, refsOf_eq_zero_of_free fun g r hmem => hb.1 (hnull g r b hmem)⟩
    have hlen := hperm.length_eq
    rw [List.length_erase_of_mem (List.mem_range.mpr hk.pool.null_lt), List.length_range] at hlen
    have hlt := hk.pool.null_lt
    have hfree : (k.blockPool.numGpuBlocks : Int) - k.blockPool.getNumFreeBlocks = 1 := by
      rw [BlockPool.getNumFreeBlocks, hthr.length_eq]
      omega
    simp [KVCacheManager.resetPrefixCache, BlockPool.resetPrefixCache, hfree]

def windowProducer (kv : KVCacheManager (List TokenId)) : EngineCore (List TokenId) where
  scheduler :=
    { config := { maxNumRunningReqs := 4, maxNumScheduledTokens := 8, maxModelLen := 16 }
      kvCacheManager := kv
      connector := some { isHmaRequired := true, blocksPerSw := [5] } }

theorem Fresh.windowProducer (kv : KVCacheManager (List TokenId)) :
    Fresh (windowProducer kv) :=
  ⟨rfl, rfl, rfl, rfl, rfl, rfl, rfl, rfl, rfl, rfl, rfl⟩

def sixTokens : EngineCoreRequest where
  requestId := 0
  promptTokenIds := [1, 2, 3, 4, 5, 6]
  params := { sampling := upTo 1 Nat.one_pos, kvTransferParams := some { doRemoteDecode := true } }

/-- The request has finished and its blocks wait for their reader. -/
theorem delayed_frees_sixTokens : ∃ kv e,
    KVCacheManager.init 8 16 1 false [windowGroup] = .ok kv ∧
    Machine.exec (step unitEnv) (windowProducer kv)
      [.add sixTokens 0, .schedule, .update (fun _ => 7) {} 0] = some e ∧
    e.scheduler.delayedFreeReqIds = {0} ∧ e.scheduler.hasRequests .pausedAll ∅ = true := by
  obtain ⟨kv, e, hkv, hrun, hdelayed⟩ : ∃ kv e,
      KVCacheManager.init 8 16 1 false [windowGroup] = .ok kv ∧
      Machine.exec (step unitEnv) (windowProducer kv)
        [.add sixTokens 0, .schedule, .update (fun _ => 7) {} 0] = some e ∧
      e.scheduler.delayedFreeReqIds = {0} := ⟨_, _, rfl, rfl, rfl⟩
  have hall := delayed_frees (Fresh.windowProducer kv) hkv hrun
  exact ⟨kv, e, hkv, hrun, hdelayed, hall.2.2.2.2.1 _ _ ⟨0, by simp [hdelayed]⟩⟩

/-- With a sliding window of four tokens, the request gives up three of the six blocks that it
holds when its last token arrives. -/
theorem finish_drops_blocks : ∃ kv e e',
    KVCacheManager.init 8 16 1 false [windowGroup] = .ok kv ∧
    Machine.exec (step unitEnv) (windowProducer kv) [.add sixTokens 0, .schedule] = some e ∧
    step unitEnv e (.update (fun _ => 7) {} 0) = some e' ∧
    0 ∈ e'.scheduler.delayedFreeReqIds ∧
    blockTable e.scheduler 0 0 = [1, 2, 3, 4, 5, 6] ∧
    blockTable e'.scheduler 0 0 = [0, 0, 0, 4, 5, 6] ∧
    e.scheduler.kvCacheManager.blockPool.nullBlock = 0 :=
  ⟨_, _, _, rfl, rfl, rfl, by decide, rfl, rfl, rfl⟩

end EngineCore

end EldrServing.Sched
