import EldrServing.KVCache.Groups
import EldrServing.Sched.Engine

/-!
# Reading or releasing a handoff

A decoder places each handoff in the connector's receive queue exactly once: when blocks are
allocated for the request, or when it finishes before that. `do_remote_prefill` is consumed on
both ways, and nothing sets it again.
-/

namespace EldrServing.Sched

set_option autoImplicit false
set_option linter.unusedSectionVars false

open Engine KVCache Nixl Relation

variable {κ : Type} [DecidableEq κ]

def IsHandoff (params : KVTransferParams) : Prop :=
  ∃ (c c' : NixlConnectorScheduler) (q q' : Request) (asked : KVTransferParams)
    (blockIds : BlockIds) (now : Nat) (delay : Bool),
    q.kvTransferParams = some asked ∧ asked.doRemoteDecode = true ∧ blockIds ≠ [] ∧
    c.requestFinished q blockIds now = .ok ((delay, some params), c', q')

structure HandoffParams (params : KVTransferParams) : Prop where
  prefill : params.doRemotePrefill = true
  decode : params.doRemoteDecode = false
  blocks : params.remoteBlockIds ≠ []
  remote : params.remote.isSome = true

variable {ext : Nat} {params : KVTransferParams} {delay : Bool} {res : Option KVTransferParams}
  {x y : Scheduler κ × StepState} {kv : KVCacheManager κ} {c : NixlConnectorScheduler}

theorem getSwClippedBlocks_ne_nil {blockIds clipped : BlockIds}
    (hne : blockIds ≠ []) (h : c.getSwClippedBlocks blockIds = .ok clipped) : clipped ≠ [] := by
  unfold NixlConnectorScheduler.getSwClippedBlocks at h
  split at h
  · obtain rfl := Except.ok.inj h
    exact hne
  · rw [assert_bind_eq_ok] at h
    obtain ⟨hlen, hok⟩ := h
    obtain rfl := Except.ok.inj hok
    intro hnil
    have := congrArg List.length hnil
    rw [List.length_zipWith, ← hlen, Nat.min_self] at this
    exact hne (List.length_eq_zero_iff.mp this)

theorem handoffParams_fields {q : Request}
    {asked : KVTransferParams} {blockIds : BlockIds} {n : Nat}
    (hdecode : asked.doRemoteDecode = true) (hblocks : blockIds ≠ [])
    (h : c.handoffParams q asked blockIds n = .ok params) : HandoffParams params := by
  unfold NixlConnectorScheduler.handoffParams at h
  simp only [hdecode] at h
  split at h
  · split at h
    · obtain rfl := Except.ok.inj h
      exact ⟨rfl, rfl, hblocks, rfl⟩
    · cases h
  · obtain rfl := Except.ok.inj h
    exact ⟨rfl, rfl, hblocks, rfl⟩

theorem IsHandoff.fields (h : IsHandoff params) :
    HandoffParams params := by
  obtain ⟨c, c', q, q', asked, blockIds, now, delay, hasked, hdecode, hne, hfin⟩ := h
  unfold NixlConnectorScheduler.requestFinished at hfin
  simp only [hasked] at hfin
  split at hfin
  · simp at hfin
  · rw [if_neg (by simp [hdecode])] at hfin
    split at hfin
    · simp at hfin
    · split at hfin
      · simp only [except_bind_eq_ok, Except.ok.injEq, Prod.mk.injEq] at hfin
        obtain ⟨clipped, hclip, kvt, hkvt, ⟨-, hparams⟩, -⟩ := hfin
        obtain rfl := Option.some.inj hparams
        exact handoffParams_fields hdecode (getSwClippedBlocks_ne_nil hne hclip) hkvt
      · simp only [except_bind_eq_ok, Except.ok.injEq, Prod.mk.injEq] at hfin
        obtain ⟨kvt, hkvt, ⟨-, hparams⟩, -⟩ := hfin
        obtain rfl := Option.some.inj hparams
        exact handoffParams_fields hdecode hne hkvt

def entriesOf (s : Scheduler κ) (r : ReqId) : List RecvEntry :=
  match s.connector with
  | some c => c.recvLog.filter (·.requestId = r)
  | none => []

def WasAllocated (s : Scheduler κ) (r : ReqId) : Prop := Action.allocated r ∈ s.log

/-- An empty list of blocks is placed when nothing is left to load, or when the request ended
before it got any blocks. -/
def EntryOk (s : Scheduler κ) (r : ReqId) (entry : RecvEntry) : Prop :=
  entry.blockIds = [] ↔ entry.external = some 0 ∨ ¬ WasAllocated s r

/-- The handoff of `r` is still to be placed. -/
structure Pending (s : Scheduler κ) (r : ReqId) : Prop where
  request : ∃ q params, s.requests.get? r = some q ∧ q.kvTransferParams = some params ∧
    HandoffParams params ∧ q.status = .waiting
  entries : entriesOf s r = []
  allocated : ¬ WasAllocated s r

/-- The handoff of `r` was placed. -/
structure Placed (s : Scheduler κ) (r : ReqId) : Prop where
  request : ∀ q params, s.requests.get? r = some q → q.kvTransferParams = some params →
    params.doRemotePrefill = false ∧ params.doRemoteDecode = false
  entries : ∃ entry, entriesOf s r = [entry] ∧ EntryOk s r entry
  finished : ¬ WasAllocated s r → ∀ q, s.requests.get? r = some q → q.isFinished = true

structure Decoder (s : Scheduler κ) : Prop where
  connector : s.connector.isSome = true
  groups : 0 < s.kvCacheManager.numGroups

/-- The handoff of the request `r`, which was added at some time. -/
def Received (s : Scheduler κ) (r : ReqId) : Prop :=
  Decoder s ∧ (Pending s r ∨ Placed s r)

/-- Nothing happened to the request `r` yet. -/
structure Untouched (s : Scheduler κ) (r : ReqId) : Prop where
  gone : s.requests.get? r = none
  entries : entriesOf s r = []
  allocated : ¬ WasAllocated s r

section Frame

variable {s s' : Scheduler κ} {r : ReqId}

/-- The state change leaves the handoff of `r` alone. -/
structure SameFor (r : ReqId) (s s' : Scheduler κ) : Prop where
  request : s'.requests.get? r = s.requests.get? r
  entries : entriesOf s' r = entriesOf s r
  allocated : WasAllocated s' r ↔ WasAllocated s r

theorem Untouched.same (h : Untouched s r) (hsame : SameFor r s s') : Untouched s' r :=
  ⟨hsame.request.trans h.gone, hsame.entries.trans h.entries, hsame.allocated.not.mpr h.allocated⟩

theorem Pending.same (h : Pending s r) (hsame : SameFor r s s') : Pending s' r := by
  refine ⟨?_, hsame.entries.trans h.entries, hsame.allocated.not.mpr h.allocated⟩
  rw [hsame.request]
  exact h.request

theorem Placed.same (h : Placed s r) (hsame : SameFor r s s') : Placed s' r := by
  refine ⟨?_, ?_, ?_⟩
  · rw [hsame.request]
    exact h.request
  · obtain ⟨entry, hentries, hok⟩ := h.entries
    refine ⟨entry, hsame.entries.trans hentries, ?_⟩
    unfold EntryOk at hok ⊢
    rw [hsame.allocated]
    exact hok
  · rw [hsame.allocated, hsame.request]
    exact h.finished

theorem SameFor.trans {s₁ : Scheduler κ} (h : SameFor r s s₁) (h' : SameFor r s₁ s') :
    SameFor r s s' :=
  ⟨h'.request.trans h.request, h'.entries.trans h.entries, h'.allocated.trans h.allocated⟩

theorem SameFor.of_eq (hrequests : s'.requests.get? r = s.requests.get? r)
    (hconnector : s'.connector = s.connector) (hlog : s'.log = s.log) : SameFor r s s' := by
  refine ⟨hrequests, ?_, ?_⟩
  · unfold entriesOf
    rw [hconnector]
  · unfold WasAllocated
    rw [hlog]

end Frame

/-! ### What the calls of the connector place -/

section Connector

variable {s s' t : Scheduler κ} {r a : ReqId} {q q' : Request}

theorem entriesOf_setConnector (s : Scheduler κ) (c : NixlConnectorScheduler) (r : ReqId) :
    entriesOf (s.setConnector c) r = c.recvLog.filter (·.requestId = r) := rfl

theorem entriesOf_some (hc : s.connector = some c) (r : ReqId) :
    entriesOf s r = c.recvLog.filter (·.requestId = r) := by
  simp only [entriesOf, hc]

theorem filter_needRecv (c : NixlConnectorScheduler) (entry : RecvEntry) (r : ReqId) :
    (c.needRecv entry).recvLog.filter (·.requestId = r) =
      c.recvLog.filter (·.requestId = r) ++ if entry.requestId = r then [entry] else [] := by
  rw [NixlConnectorScheduler.needRecv_recvLog, List.filter_append]
  congr 1
  by_cases h : entry.requestId = r <;> simp [h]

theorem updateConnectorAfterAlloc_other (hne : a ≠ r) (hid : q.requestId = a)
    (h : s.updateConnectorAfterAlloc a q ext = .ok (s', q')) :
    entriesOf s' r = entriesOf s r := by
  rcases updateConnectorAfterAlloc_ok h with ⟨-, rfl, -⟩ | ⟨c, c', hc, hupdate, rfl⟩
  · rfl
  rw [entriesOf_setConnector, entriesOf_some hc]
  have hfirst : q.requestId ≠ r := hid ▸ hne
  rcases NixlConnectorScheduler.updateStateAfterAlloc_ok hupdate with
    ⟨-, rfl, -⟩ | ⟨params, -, ⟨-, rfl, -⟩ | ⟨-, -, ⟨-, rfl⟩ | ⟨-, -, blockIds, -, rfl⟩⟩⟩
  · rfl
  · rw [NixlConnectorScheduler.trackBatch_recvLog]
  · rw [NixlConnectorScheduler.trackBatch_recvLog]
  · rw [filter_needRecv, if_neg hfirst, List.append_nil,
      NixlConnectorScheduler.trackBatch_recvLog]

theorem updateConnectorAfterAlloc_pending
    (hentries : entriesOf s r = []) (hdecoder : Decoder s) (hid : q.requestId = r)
    (hparams : q.kvTransferParams = some params) (hhandoff : HandoffParams params)
    (h : s.updateConnectorAfterAlloc r q ext = .ok (s', q')) :
    ∃ blockIds, entriesOf s' r = [⟨r, some ext, blockIds⟩] ∧ (blockIds = [] ↔ ext = 0) ∧
      q'.kvTransferParams = some (NixlConnectorScheduler.consumed params) := by
  rcases updateConnectorAfterAlloc_ok h with ⟨hnone, -, -⟩ | ⟨c, c', hc, hupdate, rfl⟩
  · have hsome := hdecoder.connector
    rw [hnone] at hsome
    cases hsome
  rw [entriesOf_some hc] at hentries
  have hstarts : c.startsLoad params = true := by
    simp [NixlConnectorScheduler.startsLoad, hhandoff.prefill]
  rcases NixlConnectorScheduler.updateStateAfterAlloc_ok hupdate with
    ⟨hnone, -, -⟩ | ⟨params', hparams', hcases⟩
  · rw [hnone] at hparams
    cases hparams
  obtain rfl := some_unique hparams hparams'
  rcases hcases with ⟨hno, -, -⟩ | ⟨-, hq', ⟨hbad, -⟩ | ⟨-, -, blockIds, hclip, rfl⟩⟩
  · rw [hstarts] at hno
    cases hno
  · rcases hbad with hbad | hbad
    · exact absurd hbad hhandoff.blocks
    · have hremote := hhandoff.remote
      rw [hbad] at hremote
      cases hremote
  · refine ⟨blockIds, ?_, ?_, by rw [hq']⟩
    · rw [entriesOf_setConnector, filter_needRecv, if_pos hid,
        NixlConnectorScheduler.trackBatch_recvLog, hentries, hid]
      rfl
    · split at hclip
      · next hpos =>
        have hne : s.getUnhashedBlockIds r ≠ [] := by
          intro hnil
          have hlen := congrArg List.length hnil
          simp only [Scheduler.getUnhashedBlockIds, Scheduler.getBlockIds, List.length_map,
            List.length_nil] at hlen
          have hgroups := hdecoder.groups
          unfold KVCacheManager.numGroups at hgroups
          omega
        exact iff_of_false (getSwClippedBlocks_ne_nil hne hclip) (by omega)
      · next hzero =>
        have hnil : c.getSwClippedBlocks [] = .ok [] := by
          simp [NixlConnectorScheduler.getSwClippedBlocks]
        rw [hnil] at hclip
        exact iff_of_true (Except.ok.inj hclip).symm (by omega)

theorem updateConnectorAfterAlloc_placed (hflags : ∀ params, q.kvTransferParams = some params →
    params.doRemotePrefill = false ∧ params.doRemoteDecode = false)
    (h : s.updateConnectorAfterAlloc a q ext = .ok (s', q')) :
    entriesOf s' r = entriesOf s r ∧ q' = q := by
  rcases updateConnectorAfterAlloc_ok h with ⟨-, rfl, rfl⟩ | ⟨c, c', hc, hupdate, rfl⟩
  · exact ⟨rfl, rfl⟩
  rw [entriesOf_setConnector, entriesOf_some hc]
  rcases NixlConnectorScheduler.updateStateAfterAlloc_ok hupdate with
    ⟨-, rfl, rfl⟩ | ⟨params, hparams, ⟨-, rfl, rfl⟩ | ⟨hstarts, -⟩⟩
  · exact ⟨rfl, rfl⟩
  · exact ⟨by rw [NixlConnectorScheduler.trackBatch_recvLog], rfl⟩
  · obtain ⟨hprefill, hdecode⟩ := hflags params hparams
    simp [NixlConnectorScheduler.startsLoad, hprefill, hdecode] at hstarts

theorem connectorFinished_entries {now : Nat} {res : Bool × Option KVTransferParams}
    (h : (s.putRequest a q).connectorFinished a q now = .ok (res, s')) (r : ReqId) :
    s'.log = s.log ∧
    ((∃ params, q.kvTransferParams = some params ∧ params.doRemotePrefill = true ∧
      entriesOf s' r = entriesOf s r ++ (if q.requestId = r then [⟨q.requestId, none, []⟩] else []) ∧
      s'.requests.get? a = some { q with
        kvTransferParams := some { params with doRemotePrefill := false } }) ∨
    ((s.connector.isSome = true → ∀ params, q.kvTransferParams = some params →
        params.doRemotePrefill = false) ∧
      entriesOf s' r = entriesOf s r ∧ s'.requests.get? a = some q)) := by
  rcases connectorFinished_ok h with ⟨hnone, -, rfl⟩ | ⟨c, kv, c', q', hc, -, hfin, rfl⟩
  · refine ⟨rfl, .inr ⟨fun hsome => ?_, rfl, Dict.get?_insert_self⟩⟩
    change s.connector = none at hnone
    rw [hnone] at hsome
    cases hsome
  · have hc' : s.connector = some c := hc
    refine ⟨rfl, ?_⟩
    have hget : (((((s.putRequest a q).setKv kv).putRequest a q').setConnector c').requests.get?
        a) = some q' := Dict.get?_insert_self
    rw [hget, entriesOf_setConnector, entriesOf_some hc']
    rcases NixlConnectorScheduler.requestFinished_ok hfin with
      ⟨params, hparams, hprefill, -, rfl, rfl⟩ | ⟨hflag, hlog, rfl⟩
    · exact .inl ⟨params, hparams, hprefill, filter_needRecv _ _ _, rfl⟩
    · exact .inr ⟨fun _ => hflag, by rw [hlog], rfl⟩

theorem wasAllocated_log_append {log : List Action} {act : Action}
    (hact : ∀ r, act ≠ .allocated r) (r : ReqId) :
    Action.allocated r ∈ log ++ [act] ↔ Action.allocated r ∈ log := by
  simp [(hact r).symm]

theorem freeBlocks_sameFor (h : s.freeBlocks a = .ok s') (r : ReqId) :
    entriesOf s' r = entriesOf s r ∧ (WasAllocated s' r ↔ WasAllocated s r) := by
  obtain ⟨_, _, -, -, -, rfl⟩ := freeBlocks_ok h
  exact ⟨rfl, wasAllocated_log_append (fun _ => by simp) r⟩

theorem logHandoff_sameFor (s : Scheduler κ) (a : ReqId) (params : Option KVTransferParams)
    (r : ReqId) : SameFor r s (s.logHandoff a params) := by
  cases params with
  | none => exact ⟨rfl, rfl, Iff.rfl⟩
  | some params => exact ⟨rfl, rfl, wasAllocated_log_append (fun _ => by simp) r⟩

theorem freeRequest_entries {now : Nat}
    (h : s.freeRequest a q delay now = .ok (res, s')) (r : ReqId) :
    (WasAllocated s' r ↔ WasAllocated s r) ∧
    ((∃ params, q.kvTransferParams = some params ∧ params.doRemotePrefill = true ∧
      entriesOf s' r = entriesOf s r ++ (if q.requestId = r then [⟨q.requestId, none, []⟩] else []) ∧
      ∀ q', s'.requests.get? a = some q' → q' = { q with
        kvTransferParams := some { params with doRemotePrefill := false } }) ∨
    ((s.connector.isSome = true → ∀ params, q.kvTransferParams = some params →
        params.doRemotePrefill = false) ∧
      entriesOf s' r = entriesOf s r ∧ ∀ q', s'.requests.get? a = some q' → q' = q)) := by
  obtain ⟨-, connectorDelay, s₁, hfin, hend⟩ := freeRequest_ok h
  obtain ⟨hlog, hcases⟩ := connectorFinished_entries hfin r
  have hhandoff := logHandoff_sameFor s₁ a res r
  -- the end of `freeRequest` places nothing, and keeps the record or drops it
  obtain ⟨hentries, hallocated, hrecord⟩ : entriesOf s' r = entriesOf s₁ r ∧
      (WasAllocated s' r ↔ WasAllocated s₁ r) ∧
      ∀ q', s'.requests.get? a = some q' → s₁.requests.get? a = some q' := by
    have hsame : (s₁.logHandoff a res).requests = s₁.requests := by cases res <;> rfl
    rcases hend with ⟨-, rfl⟩ | ⟨-, -, hfree⟩
    · exact ⟨hhandoff.entries, hhandoff.allocated, fun q' hq' => hsame ▸ hq'⟩
    · obtain ⟨hentries, hallocated⟩ := freeBlocks_sameFor hfree r
      refine ⟨hentries.trans hhandoff.entries, hallocated.trans hhandoff.allocated,
        fun q' hq' => ?_⟩
      obtain ⟨_, _, -, -, -, rfl⟩ := freeBlocks_ok hfree
      rw [Dict.get?_erase_self] at hq'
      cases hq'
  refine ⟨hallocated.trans (by rw [WasAllocated, WasAllocated, hlog]), ?_⟩
  rcases hcases with ⟨params, hparams, hprefill, hplaced, hget⟩ | ⟨hflag, hplaced, hget⟩
  · refine .inl ⟨params, hparams, hprefill, hentries.trans hplaced, fun q' hq' => ?_⟩
    exact (Option.some.inj (hget.symm.trans (hrecord q' hq'))).symm
  · refine .inr ⟨hflag, hentries.trans hplaced, fun q' hq' => ?_⟩
    exact (Option.some.inj (hget.symm.trans (hrecord q' hq'))).symm

theorem freeRequest_other {now : Nat}
    (hne : a ≠ r) (hid : q.requestId = a) (h : s.freeRequest a q delay now = .ok (res, s')) :
    SameFor r s s' := by
  obtain ⟨hallocated, hcases⟩ := freeRequest_entries h r
  refine ⟨(freeRequest_frame h).requests r hne.symm, ?_, hallocated⟩
  rcases hcases with ⟨_, -, -, hentries, -⟩ | ⟨-, hentries, -⟩
  · rw [hentries, if_neg (hid ▸ hne), List.append_nil]
  · exact hentries

theorem placed_of_freeRequest {now : Nat}
    (hreceived : Received s r) (hq : s.requests.get? r = some q)
    (hconnector : t.connector = s.connector) (hlog : t.log = s.log) (hid : q'.requestId = r)
    (hparams : Request.StopParams q.kvTransferParams q'.kvTransferParams)
    (h : t.freeRequest r q' delay now = .ok (res, s')) : Placed s' r := by
  obtain ⟨hallocated, hcases⟩ := freeRequest_entries h r
  have hfinished : ∀ q₁, s'.requests.get? r = some q₁ → q₁.isFinished = true := by
    intro q₁ hq₁
    rcases freeRequest_self h with hnone | ⟨transfer, hsome⟩
    · rw [hnone] at hq₁
      cases hq₁
    · obtain rfl := some_unique hsome hq₁
      exact (freeRequest_ok h).1
  have hsome : t.connector.isSome = true := hconnector ▸ hreceived.1.connector
  have hentries : entriesOf t r = entriesOf s r := by
    unfold entriesOf
    rw [hconnector]
  rw [hentries] at hcases
  rw [WasAllocated, WasAllocated, hlog, ← WasAllocated, ← WasAllocated] at hallocated
  -- the flags of the parameters are those of the old record
  have hflags : ∀ params, q'.kvTransferParams = some params → ∃ old,
      q.kvTransferParams = some old ∧ params.doRemotePrefill = old.doRemotePrefill ∧
        params.doRemoteDecode = old.doRemoteDecode := by
    intro params hp
    rcases hparams with heq | ⟨old, hold, hnew⟩
    · exact ⟨params, heq ▸ hp, rfl, rfl⟩
    · obtain rfl := some_unique hp hnew
      exact ⟨old, hold, rfl, rfl⟩
  rcases hreceived.2 with hpending | hplaced
  · obtain ⟨q₀, params₀, hq₀, hparams₀, hhandoff, -⟩ := hpending.request
    obtain rfl := some_unique hq hq₀
    rcases hcases with ⟨params, hp, hprefill, hent, hrecord⟩ | ⟨hflag, -, -⟩
    · refine ⟨fun q₁ params₁ hq₁ hp₁ => ?_, ⟨⟨r, none, []⟩, ?_, ?_⟩, fun _ => hfinished⟩
      · obtain ⟨old, hold, -, hdecode⟩ := hflags params hp
        obtain rfl := some_unique hparams₀ hold
        rw [hrecord q₁ hq₁] at hp₁
        obtain rfl := Option.some.inj hp₁
        exact ⟨rfl, hdecode.trans hhandoff.decode⟩
      · rw [hent, hpending.entries, if_pos hid, hid]
        rfl
      · exact iff_of_true rfl (.inr (hallocated.not.mpr hpending.allocated))
    · exfalso
      rcases hparams with heq | ⟨old, hold, hnew⟩
      · have := hflag hsome params₀ (heq.trans hparams₀)
        rw [hhandoff.prefill] at this
        cases this
      · have := hflag hsome _ hnew
        obtain rfl := some_unique hparams₀ hold
        rw [hhandoff.prefill] at this
        cases this
  · rcases hcases with ⟨params, hp, hprefill, -, -⟩ | ⟨-, hent, hrecord⟩
    · obtain ⟨old, hold, hpre, -⟩ := hflags params hp
      rw [(hplaced.request q old hq hold).1, hprefill] at hpre
      cases hpre
    · refine ⟨fun q₁ params₁ hq₁ hp₁ => ?_, ?_, fun _ => hfinished⟩
      · rw [hrecord q₁ hq₁] at hp₁
        obtain ⟨old, hold, hpre, hdecode⟩ := hflags params₁ hp₁
        obtain ⟨h1, h2⟩ := hplaced.request q old hq hold
        exact ⟨hpre.trans h1, hdecode.trans h2⟩
      · obtain ⟨entry, hentry, hok⟩ := hplaced.entries
        refine ⟨entry, hent.trans hentry, ?_⟩
        unfold EntryOk at hok ⊢
        rw [hallocated]
        exact hok

end Connector

/-! ### Every state change keeps the handoff in order -/

section Steps

variable {E : CacheEnv κ} {s s' t : Scheduler κ} {r a : ReqId} {q q' q'' : Request}

theorem updateConnectorAfterAlloc_isSome (h : s.updateConnectorAfterAlloc a q ext = .ok (s', q')) :
    s'.connector.isSome = s.connector.isSome := by
  rcases updateConnectorAfterAlloc_ok h with ⟨-, rfl, -⟩ | ⟨c, c', hc, -, rfl⟩
  · rfl
  · rw [hc]
    rfl

theorem Decoder.scheduleStep (h : ScheduleStep E x y) (hdec : Decoder x.1) : Decoder y.1 := by
  have hpos := hdec.groups
  cases h with
  | allocateFails _ hlookup hkv =>
    exact ⟨hdec.connector, (numGroups_allocateSlots hlookup.1 hkv).symm ▸ hpos⟩
  | preempt _ _ _ _ _ hkv => exact ⟨hdec.connector, (numGroups_free hkv).symm ▸ hpos⟩
  | @run s st r q budget n kv blocks _ _ _ _ _ hkv =>
    refine ⟨hdec.connector, (numGroups_allocateSlots ?_ hkv).symm ▸ hpos⟩
    exact List.length_map _
  | @promote s st r q s' q' _ _ _ hupdate =>
    obtain ⟨kv, rfl, hcases⟩ := updateWaitingForRemoteKv_ok hupdate
    have hkv : kv.numGroups = s.kvCacheManager.numGroups := by
      rcases hcases with ⟨-, hsettle, -⟩ | ⟨-, hcache, -⟩
      · unfold Scheduler.settleFailedLoad at hsettle
        split at hsettle
        · exact numGroups_cacheBlocks hsettle
        · exact numGroups_free hsettle
      · exact numGroups_cacheBlocks hcache
    exact ⟨hdec.connector, hkv.symm ▸ hpos⟩
  | @skip s st r w => cases w <;> exact ⟨hdec.connector, hpos⟩
  | @load s st r w q m kv blocks s' q' _ _ _ _ hmatch _ hkv hupdate =>
    have hgroups := numGroups_allocateSlots (matchPrefix_lookupOk hmatch 0 _ _).1 hkv
    have hsome := updateConnectorAfterAlloc_isSome hupdate
    obtain ⟨⟨c, rfl⟩, -⟩ := updateConnectorAfterAlloc_frame hupdate
    cases w <;> exact ⟨hsome.trans hdec.connector, hgroups.symm ▸ hpos⟩
  | @start s st r w q m n kv blocks s' q' _ _ _ _ hmatch _ _ _ hkv hupdate =>
    have hgroups := numGroups_allocateSlots (matchPrefix_lookupOk hmatch n _ _).1 hkv
    have hsome := updateConnectorAfterAlloc_isSome hupdate
    obtain ⟨⟨c, rfl⟩, -⟩ := updateConnectorAfterAlloc_frame hupdate
    cases w <;> exact ⟨hsome.trans hdec.connector, hgroups.symm ▸ hpos⟩
  | requeue => exact ⟨hdec.connector, hpos⟩

theorem Received.put (h : Received s r) (hq : s.requests.get? r = some q)
    (hparams : q'.kvTransferParams = q.kvTransferParams)
    (hwaiting : q.status = .waiting → q'.status = .waiting)
    (hfinished : q.isFinished = true → q'.isFinished = true) :
    Received (s.putRequest r q') r := by
  have hget : (s.putRequest r q').requests.get? r = some q' := Dict.get?_insert_self
  refine ⟨⟨h.1.connector, h.1.groups⟩, ?_⟩
  rcases h.2 with hpending | hplaced
  · obtain ⟨q₀, params, hq₀, hp, hhandoff, hstatus⟩ := hpending.request
    obtain rfl := some_unique hq hq₀
    exact .inl ⟨⟨q', params, hget, hparams.trans hp, hhandoff, hwaiting hstatus⟩,
      hpending.entries, hpending.allocated⟩
  · refine .inr ⟨fun q₁ params hq₁ hp => ?_, hplaced.entries, fun hnot q₁ hq₁ => ?_⟩
    · obtain rfl := some_unique hget hq₁
      exact hplaced.request q params hq (hparams ▸ hp)
    · obtain rfl := some_unique hget hq₁
      exact hfinished (hplaced.finished hnot q hq)

theorem Received.same (h : Received s r) (hsame : SameFor r s s') (hdec : Decoder s') :
    Received s' r :=
  ⟨hdec, h.2.imp (fun h => h.same hsame) fun h => h.same hsame⟩

theorem Received.allocate (h : Received s r)
    (hq : s.requests.get? r = some q) (hlive : q.isFinished = false) (hid : q.requestId = r)
    (hdec : Decoder (s.setKv kv))
    (hupdate : (s.setKv kv).updateConnectorAfterAlloc r q ext = .ok (s', q'))
    (hentries : entriesOf t r = entriesOf s' r) (hlog : t.log = s.log ++ [.allocated r])
    (hget : ∀ q₁, t.requests.get? r = some q₁ → q₁.kvTransferParams = q'.kvTransferParams) :
    Placed t r := by
  have hallocated : WasAllocated t r := by
    rw [WasAllocated, hlog]
    exact List.mem_append_right _ (List.mem_singleton_self _)
  rcases h.2 with hpending | hplaced
  · obtain ⟨q₀, params, hq₀, hp, hhandoff, -⟩ := hpending.request
    obtain rfl := some_unique hq hq₀
    have hnone : entriesOf (s.setKv kv) r = [] := hpending.entries
    obtain ⟨blockIds, hent, hiff, hconsumed⟩ :=
      updateConnectorAfterAlloc_pending hnone hdec hid hp hhandoff hupdate
    refine ⟨fun q₁ params₁ hq₁ hp₁ => ?_, ⟨_, hentries.trans hent, ?_⟩, fun hnot =>
      absurd hallocated hnot⟩
    · rw [hget q₁ hq₁, hconsumed] at hp₁
      obtain rfl := Option.some.inj hp₁
      exact ⟨rfl, hhandoff.decode⟩
    · unfold EntryOk
      simp only [hallocated, not_true, or_false, Option.some.injEq]
      exact hiff
  · obtain ⟨entry, hent, hok⟩ := hplaced.entries
    obtain ⟨hkept, rfl⟩ : entriesOf s' r = entriesOf (s.setKv kv) r ∧ q' = q :=
      updateConnectorAfterAlloc_placed (fun params => hplaced.request q params hq) hupdate
    have hbefore : WasAllocated s r := by
      by_contra hnot
      rw [hplaced.finished hnot _ hq] at hlive
      cases hlive
    refine ⟨fun q₁ params₁ hq₁ hp₁ => ?_, ⟨entry, (hentries.trans hkept).trans hent, ?_⟩,
      fun hnot => absurd hallocated hnot⟩
    · exact hplaced.request _ params₁ hq (hget q₁ hq₁ ▸ hp₁)
    · unfold EntryOk at hok ⊢
      simp only [hallocated, hbefore, not_true, or_false] at hok ⊢
      exact hok

theorem SameFor.put (hne : a ≠ r) (s : Scheduler κ) (q : Request) :
    SameFor r s (s.putRequest a q) :=
  .of_eq (Dict.get?_insert_ne hne) rfl rfl

theorem allocate_other (hne : a ≠ r) (hid : q.requestId = a)
    (hupdate : (s.setKv kv).updateConnectorAfterAlloc a q ext = .ok (s', q'))
    (hconnector : t.connector = s'.connector) (hlog : t.log = s'.log ++ [.allocated a])
    (hrequests : t.requests = s'.requests.insert a q'') : SameFor r s t := by
  obtain ⟨⟨c, hs'⟩, -⟩ := updateConnectorAfterAlloc_frame hupdate
  refine ⟨?_, ?_, ?_⟩
  · rw [hrequests, Dict.get?_insert_ne hne, hs']
    rfl
  · have hother := updateConnectorAfterAlloc_other hne hid hupdate
    have hsame : entriesOf t r = entriesOf s' r := by
      unfold entriesOf
      rw [hconnector]
    exact hsame.trans hother
  · rw [WasAllocated, WasAllocated, hlog, hs']
    simp [hne.symm]

theorem Received.entered {w : Scheduler.WaitingQueue} {skipped : List ReqId} {m : Scheduler.PrefixMatch} {n : Nat}
    {blocks : List (List Nat)} (hrec : Received s r) (hok : QueuesOk s skipped)
    (hqueue : a ∈ s.queue w) (hq : s.requests.get? a = some q) (hmatch : s.matchPrefix E q = .ok m)
    (hkv : s.allocateWaiting E q m n = .ok (some blocks, kv))
    (hupdate : (s.setKv kv).updateConnectorAfterAlloc a q m.numExternalComputedTokens =
    .ok (s', q')) (hdec : Decoder t) (hconnector : t.connector = s'.connector)
    (hlog : t.log = s'.log ++ [.allocated a]) (hrequests : t.requests = s'.requests.insert a q'')
    (hparams : q''.kvTransferParams = q'.kvTransferParams) : Received t r := by
  rcases eq_or_ne a r with rfl | hne
  · obtain ⟨⟨c, hs'⟩, -⟩ := updateConnectorAfterAlloc_frame hupdate
    obtain ⟨q₀, hq₀, -, hlive⟩ := (hok.queued a).mp (mem_queued_of_queue _ w hqueue)
    obtain rfl := some_unique hq hq₀
    have hgroups := numGroups_allocateSlots (matchPrefix_lookupOk hmatch n _ _).1 hkv
    have hdec' : Decoder (s.setKv kv) := ⟨hrec.1.connector, hgroups.symm ▸ hrec.1.groups⟩
    refine ⟨hdec, .inr (hrec.allocate hq hlive (hok.keys a q hq) hdec' hupdate ?_ ?_
      fun q₁ hq₁ => ?_)⟩
    · unfold entriesOf
      rw [hconnector]
    · rw [hlog, hs']
      rfl
    · rw [hrequests, Dict.get?_insert_self] at hq₁
      obtain rfl := Option.some.inj hq₁
      exact hparams
  · exact hrec.same (allocate_other hne (hok.keys a q hq) hupdate hconnector hlog hrequests) hdec

theorem ScheduleStep.sameFor (h : ScheduleStep E x y) (hok : QueuesOk x.1 x.2.stepSkippedWaiting)
    (hgone : x.1.requests.get? r = none) : SameFor r x.1 y.1 := by
  have hsubject : ∀ {a q}, x.1.requests.get? a = some q → a ≠ r := by
    rintro a q hq rfl
    rw [hgone] at hq
    cases hq
  cases h with
  | allocateFails => exact .of_eq rfl rfl rfl
  | preempt _ hq => exact .of_eq (Dict.get?_insert_ne (hsubject hq)) rfl rfl
  | run => exact .of_eq rfl rfl rfl
  | promote hq _ _ hupdate =>
    obtain ⟨kv, rfl, -⟩ := updateWaitingForRemoteKv_ok hupdate
    exact .of_eq (Dict.get?_insert_ne (hsubject hq)) rfl rfl
  | @skip s st a w => cases w <;> exact .of_eq rfl rfl rfl
  | @load s st a w q m kv blocks s' q' _ _ hq _ _ _ _ hupdate =>
    apply allocate_other (hsubject hq) (hok.keys a q hq) hupdate <;> cases w <;> rfl
  | @start s st a w q m n kv blocks s' q' _ _ hq _ _ _ _ _ _ hupdate =>
    apply allocate_other (hsubject hq) (hok.keys a q hq) hupdate <;> cases w <;> rfl
  | requeue => exact .of_eq rfl rfl rfl

theorem Received.scheduleStep (h : ScheduleStep E x y)
    (hok : QueuesOk x.1 x.2.stepSkippedWaiting) (hrec : Received x.1 r) : Received y.1 r := by
  have hdec := hrec.1.scheduleStep h
  cases h with
  | allocateFails => exact hrec.same (.of_eq rfl rfl rfl) hdec
  | @preempt s st a q kv _ hq hstatus =>
    rcases eq_or_ne a r with rfl | hne
    · have hput : Received (s.putRequest a (preempted q)) a := hrec.put hq rfl
        (by simp [hstatus]) (by simp [Request.isFinished, hstatus, RequestStatus.isFinished])
      exact hput.same (.of_eq rfl rfl rfl) hdec
    · exact hrec.same (.of_eq (Dict.get?_insert_ne hne) rfl rfl) hdec
  | run => exact hrec.same (.of_eq rfl rfl rfl) hdec
  | @promote s st a q s' q' hq hstatus _ hupdate =>
    obtain ⟨kv, rfl, hcases⟩ := updateWaitingForRemoteKv_ok hupdate
    rcases eq_or_ne a r with rfl | hne
    · have hparams : (promoted q').kvTransferParams = q.kvTransferParams := by
        rcases hcases with ⟨-, -, h⟩ | ⟨-, -, h⟩
        · rw [h]
          rfl
        · rw [h]
          unfold Scheduler.recomputeLast
          split <;> rfl
      have hput := hrec.put hq hparams (by simp [hstatus]) (by
        simp [Request.isFinished, hstatus, RequestStatus.isFinished])
      exact hput.same (.of_eq rfl rfl rfl) hdec
    · exact hrec.same (.of_eq (Dict.get?_insert_ne hne) rfl rfl) hdec
  | @skip s st a w => cases w <;> exact hrec.same (.of_eq rfl rfl rfl) hdec
  | @load s st a w q m kv blocks s' q' hqueue _ hq _ hmatch _ hkv hupdate =>
    apply hrec.entered hok hqueue hq hmatch hkv hupdate hdec <;> cases w <;> rfl
  | @start s st a w q m n kv blocks s' q' hqueue _ hq _ hmatch _ _ _ hkv hupdate =>
    apply hrec.entered hok hqueue hq hmatch hkv hupdate hdec <;> cases w <;> rfl
  | requeue => exact hrec.same (.of_eq rfl rfl rfl) hdec

end Steps

section Update

variable {E : CacheEnv κ} {out : SchedulerOutput} {sampled : ReqId → List TokenId}
  {kvOut : KVConnectorOutput} {now : Nat} {s s' t : Scheduler κ} {r a : ReqId} {q q' : Request}

theorem Decoder.freeBlocks (hdec : Decoder s) (h : s.freeBlocks a = .ok s') : Decoder s' := by
  obtain ⟨q, kv, -, -, hkv, rfl⟩ := freeBlocks_ok h
  exact ⟨hdec.connector, (numGroups_free hkv).symm ▸ hdec.groups⟩

theorem Decoder.freeRequest (hdec : Decoder s)
    (h : s.freeRequest a q delay now = .ok (res, s')) : Decoder s' := by
  obtain ⟨-, connectorDelay, s₁, hfin, hend⟩ := freeRequest_ok h
  have hfinished : Decoder (s₁.logHandoff a res) := by
    have hlog : (s₁.logHandoff a res).connector = s₁.connector ∧
        (s₁.logHandoff a res).kvCacheManager = s₁.kvCacheManager := by
      cases res <;> exact ⟨rfl, rfl⟩
    have hs₁ : Decoder s₁ := by
      rcases connectorFinished_ok hfin with ⟨-, -, rfl⟩ | ⟨c, kv, c', q', -, hkv, -, rfl⟩
      · exact ⟨hdec.connector, hdec.groups⟩
      · exact ⟨rfl, (numGroups_removeSkippedBlocks hkv).symm ▸ hdec.groups⟩
    exact ⟨hlog.1 ▸ hs₁.connector, hlog.2 ▸ hs₁.groups⟩
  rcases hend with ⟨-, rfl⟩ | ⟨-, -, hfree⟩
  · exact ⟨hfinished.connector, hfinished.groups⟩
  · exact hfinished.freeBlocks hfree

theorem updateRequestWithOutput_numGroups {ts used : List TokenId} {stopped : Bool}
    (h : s.updateRequestWithOutput E q ts = .ok (q', used, stopped, kv)) :
    kv.numGroups = s.kvCacheManager.numGroups := by
  obtain ⟨q₁, -, -, rfl | ⟨view, n, hkv⟩⟩ := updateRequestWithOutput_ok h
  · rfl
  · exact numGroups_cacheBlocks hkv

theorem leaveStopped_frame (s : Scheduler κ) (a : ReqId) (status : RequestStatus) :
    (leaveStopped s a status).connector = s.connector ∧
    (leaveStopped s a status).log = s.log ∧
    (leaveStopped s a status).kvCacheManager = s.kvCacheManager ∧
    (leaveStopped s a status).requests = s.requests := by
  unfold leaveStopped
  split <;> exact ⟨rfl, rfl, rfl, rfl⟩

theorem beforeFree_frame (s : Scheduler κ) (a : ReqId) (q : Request) :
    (beforeFree s a q).connector = s.connector ∧ (beforeFree s a q).log = s.log ∧
    (beforeFree s a q).kvCacheManager = s.kvCacheManager ∧
    (beforeFree s a q).requests = s.requests := by
  unfold beforeFree leaveQueues
  split <;> split <;> exact ⟨rfl, rfl, rfl, rfl⟩

theorem Received.freeRequest (hrec : Received s r) (hq : s.requests.get? a = some q)
    (hconnector : t.connector = s.connector) (hlog : t.log = s.log)
    (hkv : t.kvCacheManager.numGroups = s.kvCacheManager.numGroups)
    (hrequests : t.requests = s.requests) (hid : q'.requestId = a)
    (hparams : Request.StopParams q.kvTransferParams q'.kvTransferParams)
    (h : t.freeRequest a q' delay now = .ok (res, s')) : Received s' r := by
  have ht : Decoder t := ⟨hconnector ▸ hrec.1.connector, hkv ▸ hrec.1.groups⟩
  rcases eq_or_ne a r with rfl | hne
  · exact ⟨ht.freeRequest h, .inr (placed_of_freeRequest hrec hq hconnector hlog hid hparams h)⟩
  · have hst : SameFor r s t := .of_eq (by rw [hrequests]) hconnector hlog
    exact hrec.same (hst.trans (freeRequest_other hne hid h)) (ht.freeRequest h)

theorem Received.finishes (hrec : Received s r) (hok : QueuesOk s [])
    (h : Finishes now a s s') : Received s' r := by
  obtain ⟨q, status, params, hq, -, -, hfree⟩ := h
  obtain ⟨h1, h2, h3, h4⟩ := beforeFree_frame s a q
  refine hrec.freeRequest hq h1 h2 (by rw [h3]) h4 ?_ ?_ hfree
  · exact hok.keys a q hq
  · exact .inl rfl

theorem Received.finishSteps (hrec : Received s r) (hok : QueuesOk s [])
    (h : FinishSteps now s s') : Received s' r := by
  induction h with
  | refl => exact hrec
  | tail hsteps hstep ih =>
    obtain ⟨a, hfinish⟩ := hstep
    exact ih.finishes (hok.finishSteps hsteps) hfinish

theorem Received.updateStep {x y : Scheduler κ × List (ReqId × EngineCoreOutput)}
    (h : UpdateStep E out sampled kvOut now x y) (hok : QueuesOk x.1 [])
    (hrec : Received x.1 r) : Received y.1 r := by
  cases h with
  | @rewind s outs a q n hq =>
    rcases eq_or_ne a r with rfl | hne
    · exact hrec.put hq rfl id id
    · exact hrec.same (.put hne s _) ⟨hrec.1.connector, hrec.1.groups⟩
  | evict hkv =>
    exact hrec.same (.of_eq rfl rfl rfl)
      ⟨hrec.1.connector, (numGroups_evictBlocks hkv).symm ▸ hrec.1.groups⟩
  | markFailed => exact hrec.same (.of_eq rfl rfl rfl) ⟨hrec.1.connector, hrec.1.groups⟩
  | @output s outs a n q q' used kv hsched hq hlive hsome hupdate =>
    have hkv := updateRequestWithOutput_numGroups hupdate
    obtain ⟨status, stopReason, params, placeholders, rfl, -, hgoes, -⟩ :=
      updateRequestWithOutput_frame hupdate
    obtain ⟨rfl, -, rfl, -⟩ := hgoes rfl
    have hrec' : Received (s.setKv kv) r :=
      hrec.same (.of_eq rfl rfl rfl) ⟨hrec.1.connector, hkv.symm ▸ hrec.1.groups⟩
    rcases eq_or_ne a r with rfl | hne
    · exact hrec'.put hq rfl id id
    · exact hrec'.same (.put hne _ _) ⟨hrec'.1.connector, hrec'.1.groups⟩
  | @stop s outs a n q q' used kv params s' hsched hq hlive hsome hupdate hfree =>
    have hkv := updateRequestWithOutput_numGroups hupdate
    obtain ⟨status, stopReason, transfer, placeholders, rfl, hstop, -, -⟩ :=
      updateRequestWithOutput_frame hupdate
    obtain ⟨h1, h2, h3, h4⟩ := leaveStopped_frame (s.setKv kv) a q.status
    refine hrec.freeRequest hq h1 h2 ?_ h4 ?_ hstop hfree
    · rw [h3]
      exact hkv
    · exact hok.keys a q hq
  | finish hfinish => exact hrec.finishes hok hfinish
  | received => exact hrec.same (.of_eq rfl rfl rfl) ⟨hrec.1.connector, hrec.1.groups⟩
  | @free s outs a s' hmem hfree =>
    have hdec := hrec.1.freeBlocks hfree
    obtain ⟨hentries, hallocated⟩ := freeBlocks_sameFor hfree r
    obtain ⟨q, kv, hq, hfinished, -, hs'⟩ := freeBlocks_ok hfree
    rcases eq_or_ne a r with rfl | hne
    · have hgone : s'.requests.get? a = none := by
        rw [hs']
        exact Dict.get?_erase_self
      rcases hrec.2 with hpending | hplaced
      · obtain ⟨q₀, params, hq₀, -, -, hwaiting⟩ := hpending.request
        obtain rfl := some_unique hq hq₀
        rw [Request.isFinished, hwaiting] at hfinished
        cases hfinished
      · refine ⟨hdec, .inr ⟨fun q' _ hq' => ?_, ?_, fun _ q' hq' => ?_⟩⟩
        · rw [hgone] at hq'
          cases hq'
        · obtain ⟨entry, hentry, hok⟩ := hplaced.entries
          refine ⟨entry, hentries.trans hentry, ?_⟩
          unfold EntryOk at hok ⊢
          rw [hallocated]
          exact hok
        · rw [hgone] at hq'
          cases hq'
    · refine hrec.same ⟨?_, hentries, hallocated⟩ hdec
      rw [hs']
      exact Dict.get?_erase_ne hne

theorem Decoder.finishes (hdec : Decoder s) (h : Finishes now a s s') : Decoder s' := by
  obtain ⟨q, status, params, -, -, -, hfree⟩ := h
  obtain ⟨h1, -, h3, -⟩ := beforeFree_frame s a q
  have hbefore : Decoder (beforeFree s a q) := ⟨h1 ▸ hdec.connector, h3 ▸ hdec.groups⟩
  exact hbefore.freeRequest hfree

theorem Decoder.updateStep {x y : Scheduler κ × List (ReqId × EngineCoreOutput)}
    (h : UpdateStep E out sampled kvOut now x y) (hdec : Decoder x.1) : Decoder y.1 := by
  cases h with
  | rewind => exact ⟨hdec.connector, hdec.groups⟩
  | evict hkv => exact ⟨hdec.connector, (numGroups_evictBlocks hkv).symm ▸ hdec.groups⟩
  | markFailed => exact ⟨hdec.connector, hdec.groups⟩
  | output _ _ _ _ hupdate =>
    exact ⟨hdec.connector, (updateRequestWithOutput_numGroups hupdate).symm ▸ hdec.groups⟩
  | @stop s outs a n q q' used kv params s' _ _ _ _ hupdate hfree =>
    obtain ⟨h1, -, h3, -⟩ := leaveStopped_frame (s.setKv kv) a q.status
    have hkv := updateRequestWithOutput_numGroups hupdate
    have hleft : Decoder (leaveStopped (s.setKv kv) a q.status) :=
      ⟨h1 ▸ hdec.connector, by rw [h3]; exact hkv.symm ▸ hdec.groups⟩
    exact hleft.freeRequest hfree
  | finish hfinish => exact hdec.finishes hfinish
  | received => exact ⟨hdec.connector, hdec.groups⟩
  | free _ hfree => exact hdec.freeBlocks hfree

theorem Finishes.sameFor (h : Finishes now a s s') (hok : QueuesOk s [])
    (hgone : s.requests.get? r = none) : SameFor r s s' := by
  obtain ⟨q, status, params, hq, -, -, hfree⟩ := h
  have hne : a ≠ r := by
    intro heq
    rw [heq, hgone] at hq
    cases hq
  obtain ⟨h1, h2, -, h4⟩ := beforeFree_frame s a q
  have hbefore : SameFor r s (beforeFree s a q) := .of_eq (by rw [h4]) h1 h2
  refine hbefore.trans (freeRequest_other hne ?_ hfree)
  exact hok.keys a q hq

theorem UpdateStep.sameFor {x y : Scheduler κ × List (ReqId × EngineCoreOutput)}
    (h : UpdateStep E out sampled kvOut now x y) (hok : QueuesOk x.1 [])
    (hgone : x.1.requests.get? r = none) : SameFor r x.1 y.1 := by
  have hsubject : ∀ {a q}, x.1.requests.get? a = some q → a ≠ r := by
    intro a q hq heq
    rw [heq, hgone] at hq
    cases hq
  cases h with
  | rewind hq => exact .put (hsubject hq) _ _
  | evict => exact .of_eq rfl rfl rfl
  | markFailed => exact .of_eq rfl rfl rfl
  | output _ hq => exact .of_eq (Dict.get?_insert_ne (hsubject hq)) rfl rfl
  | @stop s outs a n q q' used kv params s' _ hq _ _ hupdate hfree =>
    obtain ⟨status, stopReason, transfer, placeholders, rfl, -, -, -⟩ :=
      updateRequestWithOutput_frame hupdate
    obtain ⟨h1, h2, -, h4⟩ := leaveStopped_frame (s.setKv kv) a q.status
    have hleft : SameFor r s (leaveStopped (s.setKv kv) a q.status) :=
      .of_eq (by rw [h4]; rfl) h1 h2
    refine hleft.trans (freeRequest_other (hsubject hq) ?_ hfree)
    exact hok.keys a q hq
  | finish hfinish => exact hfinish.sameFor hok hgone
  | received => exact .of_eq rfl rfl rfl
  | @free s outs a s' _ hfree =>
    obtain ⟨hentries, hallocated⟩ := freeBlocks_sameFor hfree r
    obtain ⟨q, kv, hq, -, -, rfl⟩ := freeBlocks_ok hfree
    exact ⟨Dict.get?_erase_ne (hsubject hq), hentries, hallocated⟩

end Update

/-! ### Whole runs -/

section Run

variable {E : CacheEnv κ} {out : SchedulerOutput} {sampled : ReqId → List TokenId}
  {kvOut : KVConnectorOutput} {now : Nat} {s s' : Scheduler κ} {st : StepState} {r : ReqId}

def Expecting (s : Scheduler κ) (r : ReqId) : Prop := Decoder s ∧ Untouched s r

theorem Expecting.scheduleSteps (h : ScheduleSteps E x y)
    (hok : QueuesOk x.1 x.2.stepSkippedWaiting) (hexp : Expecting x.1 r) : Expecting y.1 r := by
  induction h with
  | refl => exact hexp
  | tail hsteps hstep ih =>
    have hsame := hstep.sameFor (QueuesOk.scheduleSteps hsteps hok) ih.2.gone
    exact ⟨ih.1.scheduleStep hstep, ih.2.same hsame⟩

theorem Received.scheduleSteps (h : ScheduleSteps E x y)
    (hok : QueuesOk x.1 x.2.stepSkippedWaiting) (hrec : Received x.1 r) : Received y.1 r := by
  induction h with
  | refl => exact hrec
  | tail hsteps hstep ih => exact ih.scheduleStep hstep (QueuesOk.scheduleSteps hsteps hok)

theorem Expecting.updateSteps {x y : Scheduler κ × List (ReqId × EngineCoreOutput)}
    (h : UpdateSteps E out sampled kvOut now x y) (hok : QueuesOk x.1 [])
    (hout : RunningOrWaiting out x.1) (hexp : Expecting x.1 r) : Expecting y.1 r := by
  induction h with
  | refl => exact hexp
  | tail hsteps hstep ih =>
    have hsame := hstep.sameFor (QueuesOk.updateSteps hsteps hok hout).1 ih.2.gone
    exact ⟨ih.1.updateStep hstep, ih.2.same hsame⟩

theorem Received.updateSteps {x y : Scheduler κ × List (ReqId × EngineCoreOutput)}
    (h : UpdateSteps E out sampled kvOut now x y) (hok : QueuesOk x.1 [])
    (hout : RunningOrWaiting out x.1) (hrec : Received x.1 r) : Received y.1 r := by
  induction h with
  | refl => exact hrec
  | tail hsteps hstep ih => exact ih.updateStep hstep (QueuesOk.updateSteps hsteps hok hout).1

theorem Expecting.finishSteps (h : FinishSteps now s s') (hok : QueuesOk s [])
    (hexp : Expecting s r) : Expecting s' r := by
  induction h with
  | refl => exact hexp
  | tail hsteps hstep ih =>
    obtain ⟨a, hfinish⟩ := hstep
    have hsame := hfinish.sameFor (hok.finishSteps hsteps) ih.2.gone
    exact ⟨ih.1.finishes hfinish, ih.2.same hsame⟩

theorem takeConnectorMeta_sameFor (s : Scheduler κ) (r : ReqId) :
    SameFor r s s.takeConnectorMeta.1 ∧ (Decoder s → Decoder s.takeConnectorMeta.1) := by
  unfold Scheduler.takeConnectorMeta
  split
  · exact ⟨.of_eq rfl rfl rfl, id⟩
  · next c hc =>
    refine ⟨⟨rfl, ?_, Iff.rfl⟩, fun hdec => ⟨rfl, hdec.groups⟩⟩
    exact (entriesOf_setConnector _ _ _).trans (entriesOf_some hc r).symm

theorem Received.updateAfterSchedule {entries : List (ReqId × Nat)} {sampled : List ReqId}
    (hrec : Received s r) (h : s.updateAfterSchedule entries = .ok (s', sampled)) :
    Received s' r := by
  refine updateAfterSchedule_invariant (P := (Received · r)) (fun e _ t q hrec hq => ?_) hrec h
  rcases eq_or_ne e.1 r with heq | hne
  · rw [heq] at hq ⊢
    exact hrec.put hq rfl id id
  · exact hrec.same (.put hne t _) ⟨hrec.1.connector, hrec.1.groups⟩

theorem Received.finishSchedule (hrec : Received s r)
    (h : s.finishSchedule st = .ok (out, s')) : Received s' r := by
  obtain ⟨-, hupdate, -⟩ := finishSchedule_ok h
  obtain ⟨hsame, hdec⟩ := takeConnectorMeta_sameFor s r
  exact (hrec.same hsame (hdec hrec.1)).updateAfterSchedule hupdate

theorem Expecting.finishSchedule (hexp : Expecting s r)
    (h : s.finishSchedule st = .ok (out, s')) : Expecting s' r := by
  obtain ⟨-, hupdate, -⟩ := finishSchedule_ok h
  obtain ⟨hsame, hdec⟩ := takeConnectorMeta_sameFor s r
  have hmeta : Expecting s.takeConnectorMeta.1 r := ⟨hdec hexp.1, hexp.2.same hsame⟩
  have hprogress := Progress.updateAfterSchedule hupdate
  have hframe := updateAfterSchedule_frame hupdate
  have hgone : s'.requests.get? r = none := by
    by_contra hsome
    obtain ⟨q, hq⟩ := Option.ne_none_iff_exists'.mp hsome
    obtain ⟨q₀, hq₀, -⟩ := hprogress.record r q hq
    rw [hmeta.2.gone] at hq₀
    cases hq₀
  have hsame' : SameFor r s.takeConnectorMeta.1 s' := by
    refine .of_eq (hgone.trans hmeta.2.gone.symm) ?_ ?_
    · rw [hframe]
    · rw [hframe]
  refine ⟨⟨?_, ?_⟩, hmeta.2.same hsame'⟩
  · rw [hframe]
    exact hmeta.1.connector
  · rw [hframe]
    exact hmeta.1.groups

end Run

namespace EngineCore

section Run

variable {E : CacheEnv κ} {e e' e₀ : EngineCore κ} {r : ReqId} {req : EngineCoreRequest} {now : Nat}

theorem toRequest_kvTransferParams (req : EngineCoreRequest) :
    req.toRequest.kvTransferParams = req.params.kvTransferParams := by
  unfold EngineCoreRequest.toRequest Request.init
  simp only
  split <;> rfl

theorem added_sameFor (s : Scheduler κ) {q : Request} (hne : q.requestId ≠ r) :
    SameFor r s (added s q) :=
  .of_eq (Dict.get?_insert_ne hne) rfl rfl

theorem Decoder.added {s : Scheduler κ} (hdec : Decoder s) (q : Request) : Decoder (added s q) :=
  ⟨hdec.connector, hdec.groups⟩

theorem Expecting.add (hok : Ok e) (hexp : Expecting e.scheduler req.requestId)
    (hparams : req.params.kvTransferParams = some params) (hhandoff : IsHandoff params)
    (h : step E e (.add req now) = some e') : Received e'.scheduler req.requestId := by
  obtain ⟨-, hnew, s', hsteps, -, rfl⟩ := step_add h
  have hid := toRequest_requestId req
  have hqueues := hok.queues.added (toRequest_status req) (hid ▸ hnew)
  refine Received.finishSteps ⟨Decoder.added hexp.1 _, .inl ⟨?_, ?_, ?_⟩⟩ hqueues hsteps
  · refine ⟨req.toRequest, params, ?_, ?_, hhandoff.fields, toRequest_status req⟩
    · rw [← hid]
      exact Dict.get?_insert_self
    · exact (toRequest_kvTransferParams req).trans hparams
  · exact hexp.2.entries
  · exact hexp.2.allocated

theorem Expecting.next {ev : Event} (hok : Ok e) (hseen : r ∉ e'.seen)
    (hexp : Expecting e.scheduler r) (h : step E e ev = some e') : Expecting e'.scheduler r := by
  cases ev with
  | add req now =>
    obtain ⟨-, hnew, s', hsteps, -, rfl⟩ := step_add h
    have hid := toRequest_requestId req
    have hne : req.toRequest.requestId ≠ r := by
      intro heq
      refine hseen ?_
      rw [← heq, hid]
      exact Finset.mem_insert_self _ _
    have hadded : Expecting (added e.scheduler req.toRequest) r :=
      ⟨Decoder.added hexp.1 _, hexp.2.same (added_sameFor _ hne)⟩
    exact hadded.finishSteps hsteps (hok.queues.added (toRequest_status req) (hid ▸ hnew))
  | schedule =>
    obtain ⟨-, out, s₁, st₁, s', hsteps, -, hfinish, rfl⟩ := step_schedule hok h
    have hs₁ : Expecting s₁ r := Expecting.scheduleSteps hsteps hok.queues hexp
    exact hs₁.finishSchedule hfinish
  | update sampled kv now =>
    obtain ⟨out, rest, failed, s₁, outs, s', hinFlight, hcheck, hsteps, rfl⟩ := step_update h
    have hall := hok.inFlight
    rw [hinFlight] at hall
    have hsteps' := (checkInvalidBlocks_steps hcheck).trans hsteps
    exact Expecting.updateSteps hsteps' hok.queues hall.head hexp
  | finish ids status now =>
    obtain ⟨s', hsteps, rfl⟩ := step_finish h
    exact hexp.finishSteps hsteps hok.queues

theorem Received.next {ev : Event} (hok : Ok e) (hseen : r ∈ e.seen)
    (hrec : Received e.scheduler r) (h : step E e ev = some e') : Received e'.scheduler r := by
  cases ev with
  | add req now =>
    obtain ⟨hnot, hnew, s', hsteps, -, rfl⟩ := step_add h
    have hid := toRequest_requestId req
    have hne : req.toRequest.requestId ≠ r := by
      intro heq
      rw [← hid, heq] at hnot
      exact hnot hseen
    have hadded : Received (added e.scheduler req.toRequest) r :=
      hrec.same (added_sameFor _ hne) (Decoder.added hrec.1 _)
    exact hadded.finishSteps (hok.queues.added (toRequest_status req) (hid ▸ hnew)) hsteps
  | schedule =>
    obtain ⟨-, out, s₁, st₁, s', hsteps, -, hfinish, rfl⟩ := step_schedule hok h
    have hs₁ : Received s₁ r := Received.scheduleSteps hsteps hok.queues hrec
    exact hs₁.finishSchedule hfinish
  | update sampled kv now =>
    obtain ⟨out, rest, failed, s₁, outs, s', hinFlight, hcheck, hsteps, rfl⟩ := step_update h
    have hall := hok.inFlight
    rw [hinFlight] at hall
    have hsteps' := (checkInvalidBlocks_steps hcheck).trans hsteps
    exact Received.updateSteps hsteps' hok.queues hall.head hrec
  | finish ids status now =>
    obtain ⟨s', hsteps, rfl⟩ := step_finish h
    exact hrec.finishSteps hok.queues hsteps

structure FreshDecoder (e : EngineCore κ) : Prop extends Fresh e where
  connector : ∃ c, e.scheduler.connector = some c ∧ c.recvLog = []
  groups : 0 < e.scheduler.kvCacheManager.numGroups

theorem FreshDecoder.expecting (h : FreshDecoder e) (r : ReqId) : Expecting e.scheduler r := by
  obtain ⟨c, hc, hlog⟩ := h.connector
  refine ⟨⟨by rw [hc]; rfl, h.groups⟩, ?_, ?_, ?_⟩
  · rw [h.requests]
    rfl
  · rw [entriesOf_some hc, hlog]
    rfl
  · rw [WasAllocated, h.log]
    exact List.not_mem_nil

theorem received_of_run {es₁ es₂ : List Event} (hfresh : FreshDecoder e₀)
    (hparams : req.params.kvTransferParams = some params) (hhandoff : IsHandoff params)
    (hrun : Machine.exec (step E) e₀ (es₁ ++ .add req now :: es₂) = some e) :
    Received e.scheduler req.requestId := by
  rw [Machine.exec_append] at hrun
  obtain ⟨e₁, hrun₁, hrest⟩ := Option.bind_eq_some_iff.mp hrun
  obtain ⟨e₂, hadd, hrun₂⟩ := (Machine.exec_cons_eq_some _).mp hrest
  have hnot := (step_add hadd).1
  -- before the handoff arrives
  have hbefore : Ok e₁ ∧ (req.requestId ∉ e₁.seen → Expecting e₁.scheduler req.requestId) := by
    refine Machine.exec_invariant (P := fun e => Ok e ∧
      (req.requestId ∉ e.seen → Expecting e.scheduler req.requestId)) ?_ ?_ hrun₁
    · intro e ev e' hinv h
      refine ⟨hinv.1.step h, fun hseen => Expecting.next hinv.1 hseen (hinv.2 ?_) h⟩
      exact fun hmem => hseen (step_seen h hmem)
    · exact ⟨hfresh.toFresh.ok, fun _ => hfresh.expecting _⟩
  -- and from then on
  have hafter : Ok e ∧ req.requestId ∈ e.seen ∧ Received e.scheduler req.requestId := by
    refine Machine.exec_invariant (P := fun e => Ok e ∧ req.requestId ∈ e.seen ∧
      Received e.scheduler req.requestId) ?_ ?_ hrun₂
    · intro e ev e' hinv h
      exact ⟨hinv.1.step h, step_seen h hinv.2.1, Received.next hinv.1 hinv.2.1 hinv.2.2 h⟩
    · refine ⟨hbefore.1.step hadd, ?_, ?_⟩
      · obtain ⟨-, -, s', -, -, rfl⟩ := step_add hadd
        exact Finset.mem_insert_self _ _
      · exact Expecting.add hbefore.1 (hbefore.2 hnot) hparams hhandoff hadd
  exact hafter.2.2

def HasLeft (s : Scheduler κ) (r : ReqId) : Prop :=
  ∀ q, s.requests.get? r = some q → q.isFinished = true

/-- Each handoff that reaches a decoder is placed in the receive queue at most once, exactly once
by the time the request leaves the scheduler, and with no blocks just when there is nothing to
load or it ended before blocks were allocated. -/
theorem handoff_placed_once {es₁ es₂ : List Event} {params : KVTransferParams}
    (hfresh : FreshDecoder e₀) (hparams : req.params.kvTransferParams = some params)
    (hhandoff : IsHandoff params)
    (hrun : Machine.exec (step E) e₀ (es₁ ++ .add req now :: es₂) = some e) :
    (entriesOf e.scheduler req.requestId).length ≤ 1 ∧
    (HasLeft e.scheduler req.requestId → (entriesOf e.scheduler req.requestId).length = 1) ∧
    ∀ entry ∈ entriesOf e.scheduler req.requestId, (entry.blockIds = [] ↔
      entry.external = some 0 ∨ ¬ WasAllocated e.scheduler req.requestId) := by
  have hreceived := received_of_run hfresh hparams hhandoff hrun
  rcases hreceived.2 with hpending | hplaced
  · refine ⟨by simp [hpending.entries], fun hleft => ?_, by simp [hpending.entries]⟩
    obtain ⟨q, _, hq, -, -, hwaiting⟩ := hpending.request
    have hfinished := hleft q hq
    rw [Request.isFinished, hwaiting] at hfinished
    cases hfinished
  · obtain ⟨entry, hentries, hok⟩ := hplaced.entries
    refine ⟨by simp [hentries], fun _ => by simp [hentries], fun entry' hmem => ?_⟩
    rw [hentries] at hmem
    obtain rfl := List.mem_singleton.mp hmem
    exact hok

end Run

def oneBlock : KVTransferParams where
  doRemotePrefill := true
  remoteBlockIds := [[3]]
  remote := some ⟨0, 5, "", 0⟩
  remoteNumTokens := 1

def prefilledRequest : Request where
  requestId := 5
  samplingParams := upTo 1 Nat.one_pos
  kvTransferParams := some { doRemoteDecode := true }
  promptTokenIds := [1]
  outputTokenIds := [2]
  status := .finishedLengthCapped
  numComputedTokens := 1

theorem isHandoff_oneBlock : IsHandoff oneBlock :=
  ⟨{}, _, prefilledRequest, _, _, [[3]], 0, true, rfl, rfl, by decide, rfl⟩

def loadThenAbort : List Event :=
  [.schedule, .finish [5] .finishedAborted 0]

theorem handoff_placed_once_loadThenAbort :
    ∃ e₀ e : EngineCore (List TokenId),
      EngineCore.unit { maxNumRunningReqs := 4, maxNumScheduledTokens := 8, maxModelLen := 16 }
        8 (some {}) = .ok e₀ ∧
      Machine.exec (step unitEnv) e₀ ([] ++ .add { requestId := 5, promptTokenIds := [1], params := {
        sampling := upTo 2 Nat.two_pos, kvTransferParams := some oneBlock } } 0 ::
          loadThenAbort) = some e ∧
      HasLeft e.scheduler 5 ∧ (entriesOf e.scheduler 5).length = 1 := by
  obtain ⟨e₀, e, h₀, hrun, hleft⟩ : ∃ e₀ e : EngineCore (List TokenId),
      EngineCore.unit { maxNumRunningReqs := 4, maxNumScheduledTokens := 8, maxModelLen := 16 }
        8 (some {}) = .ok e₀ ∧
      Machine.exec (step unitEnv) e₀ ([] ++ .add { requestId := 5, promptTokenIds := [1], params := {
        sampling := upTo 2 Nat.two_pos, kvTransferParams := some oneBlock } } 0 ::
          loadThenAbort) = some e ∧
      (e.scheduler.requests.get? 5).all (·.isFinished) = true := ⟨_, _, rfl, rfl, rfl⟩
  have hfresh : FreshDecoder e₀ := by
    obtain ⟨kv, hkv, heq⟩ := unit_ok h₀
    refine ⟨Fresh.unit h₀, ?_, ?_⟩
    · rw [heq]
      exact ⟨_, rfl, rfl⟩
    · rw [heq]
      change 0 < kv.numGroups
      rw [numGroups_init hkv]
      decide
  have hleft' : HasLeft e.scheduler 5 := by
    intro q hq
    rw [hq] at hleft
    exact hleft
  exact ⟨e₀, e, h₀, hrun, hleft',
    (handoff_placed_once hfresh rfl isHandoff_oneBlock hrun).2.1 hleft'⟩

end EngineCore

end EldrServing.Sched
