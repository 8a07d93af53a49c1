import EldrServing.Sched.Update
import Mathlib.Logic.Relation

/-!
# The state changes of `schedule`

`ScheduleStep` lists the state changes that `schedule` is made of; `schedule_steps` says that a
call is a sequence of them followed by `finishSchedule`. An invariant of the scheduler is then
proved once per state change.
-/

namespace EldrServing.Sched

set_option autoImplicit false
set_option linter.unusedSectionVars false

open Engine KVCache Nixl Relation

variable {κ : Type} [DecidableEq κ]

@[simp] theorem getRequest_eq_ok {s : Scheduler κ} {r : ReqId} {q : Request} :
    s.getRequest r = .ok q ↔ s.requests.get? r = some q := by
  unfold Scheduler.getRequest
  split
  · next h => simp [h]
  · next h => simp [h]

def preempted (q : Request) : Request :=
  { q with status := .preempted, numComputedTokens := 0, numPreemptions := q.numPreemptions + 1 }

theorem preemptRequest_ok {s s' : Scheduler κ} {r : ReqId} (h : s.preemptRequest r = .ok s') :
    ∃ q kv, s.requests.get? r = some q ∧ q.status = .running ∧ s.kvCacheManager.free r = .ok kv ∧
      s' = { (s.setKv kv).putRequest r (preempted q) with waiting := r :: s.waiting } := by
  simp only [Scheduler.preemptRequest, except_bind_eq_ok, getRequest_eq_ok, assert_eq_ok] at h
  obtain ⟨q, hq, -, hstatus, kv, hkv, hok⟩ := h
  exact ⟨q, kv, hq, hstatus, hkv, (Except.ok.inj hok).symm⟩

/-- What the step keeps for a preempted request: nothing. -/
def dropScheduled (st : StepState) (r : ReqId) : StepState :=
  if r ∈ st.scheduledRunningReqs then Scheduler.unschedule st r else st

@[simp] theorem dropScheduled_preemptedReqs (st : StepState) (r : ReqId) :
    (dropScheduled st r).preemptedReqs = st.preemptedReqs := by
  unfold dropScheduled
  split <;> rfl

@[simp] theorem dropScheduled_stepSkippedWaiting (st : StepState) (r : ReqId) :
    (dropScheduled st r).stepSkippedWaiting = st.stepSkippedWaiting := by
  unfold dropScheduled
  split <;> rfl

/-- The request that a load has ended for, as `tryPromote` leaves it. -/
def promoted (q : Request) : Request :=
  { q with status := if 0 < q.numPreemptions then .preempted else .waiting }

def runningArgs (s : Scheduler κ) (n : Nat) : AllocateSlotsArgs :=
  { numNewTokens := n, newComputedBlocks := s.emptyKvCacheBlocks }

def waitingArgs (s : Scheduler κ) (m : Scheduler.PrefixMatch) (n : Nat) : AllocateSlotsArgs :=
  { numNewTokens := n
    numNewComputedTokens := m.numNewLocalComputedTokens
    newComputedBlocks := m.newComputedBlocks
    numExternalComputedTokens := m.numExternalComputedTokens
    delayCacheBlocks := m.loadKvAsync
    fullSequenceMustFit := s.config.schedulerReserveFullIsl }

/-- The request for which slots are asked, and how many. -/
inductive Asks (E : CacheEnv κ) (s : Scheduler κ) (r : ReqId) (q : Request) :
    AllocateSlotsArgs → Prop where
  | running (n : Nat) (h : r ∈ s.running) : Asks E s r q (runningArgs s n)
  | waiting {w m} (n : Nat) (h : r ∈ s.queue w)
      (hready : isBlockedWaitingStatus q.status = false) (hmatch : s.matchPrefix E q = .ok m) :
      Asks E s r q (waitingArgs s m n)

/-- The state changes of `schedule`. -/
inductive ScheduleStep (E : CacheEnv κ) :
    Scheduler κ × StepState → Scheduler κ × StepState → Prop where
  /-- An allocation did not succeed; it may still have dropped blocks outside the window. -/
  | allocateFails {s st r q args kv}
      (hq : s.requests.get? r = some q)
      (hlookup : LookupOk s.kvCacheManager (E.hasher.view q) args)
      (hkv : s.kvCacheManager.allocateSlots (E.hasher.view q) args = .ok (none, kv))
      (hasks : Asks E s r q args) :
      ScheduleStep E (s, st) (s.setKv kv, st)
  | preempt {s st v q kv}
      (hrunning : v ∈ s.running)
      (hq : s.requests.get? v = some q)
      (hstatus : q.status = .running)
      (hfcfs : s.config.policy = .fcfs → v ∉ st.scheduledRunningReqs)
      (hkeys : ∀ a, a ∉ st.scheduledRunningReqs → st.numScheduledTokens.get? a = none)
      (hkv : s.kvCacheManager.free v = .ok kv) :
      ScheduleStep E (s, st)
        ({ ((s.setRunning (s.running.erase v)).setKv kv).putRequest v (preempted q) with
            waiting := v :: s.waiting },
          { dropScheduled st v with preemptedReqs := st.preemptedReqs ++ [v] })
  | run {s st r q budget n kv blocks}
      (hrunning : r ∈ s.running)
      (hq : s.requests.get? r = some q)
      (hpos : 0 < n)
      (hn : n = Scheduler.numNewTokensRunning s.config q budget)
      (hnew : r ∉ st.scheduledRunningReqs)
      (hkv : s.kvCacheManager.allocateSlots (E.hasher.view q)
        { numNewTokens := n, newComputedBlocks := s.emptyKvCacheBlocks } = .ok (some blocks, kv))
      (hmore : Scheduler.reachesMaxTokens q = false)
      (hfree : st.numScheduledTokens.get? r = none) :
      ScheduleStep E (s, st) (s.setKv kv, Scheduler.scheduleRunning st r n)
  | promote {s st r q s' q'}
      (hq : s.requests.get? r = some q)
      (hstatus : q.status = .waitingForRemoteKvs)
      (hdone : r ∈ s.finishedRecvingKvReqIds)
      (hupdate : s.updateWaitingForRemoteKv E r q = .ok (s', q')) :
      ScheduleStep E (s, st) (s'.putRequest r (promoted q'), st)
  | skip {s st r w}
      (hqueue : r ∈ s.queue w)
      (hpreempted : st.preemptedReqs = []) :
      ScheduleStep E (s, st) (s.popRequest r w, Scheduler.skipWaiting st r)
  | load {s st r w q m kv blocks s' q'}
      (hqueue : r ∈ s.queue w)
      (hpreempted : st.preemptedReqs = [])
      (hq : s.requests.get? r = some q)
      (hready : isBlockedWaitingStatus q.status = false)
      (hmatch : s.matchPrefix E q = .ok m)
      (hasync : m.loadKvAsync = true)
      (hkv : s.allocateWaiting E q m 0 = .ok (some blocks, kv))
      (hupdate : (s.setKv kv).updateConnectorAfterAlloc r q
        m.numExternalComputedTokens = .ok (s', q')) :
      ScheduleStep E (s, st)
        ((((s'.popRequest r w).logAction (.allocated r)).setHitBlocks r
          m.newComputedBlocks).putRequest r { q' with
            status := .waitingForRemoteKvs, numComputedTokens := m.numComputedTokens },
        Scheduler.skipWaiting st r)
  | start {s st r w q m n kv blocks s' q'}
      (hqueue : r ∈ s.queue w)
      (hpreempted : st.preemptedReqs = [])
      (hq : s.requests.get? r = some q)
      (hready : q.status = .waiting ∨ q.status = .preempted)
      (hmatch : s.matchPrefix E q = .ok m)
      (hsync : m.loadKvAsync = false)
      (hn : 0 < n)
      (hle : n ≤ q.numTokens - m.numComputedTokens)
      (hkv : s.allocateWaiting E q m n = .ok (some blocks, kv))
      (hupdate : (s.setKv kv).updateConnectorAfterAlloc r q
        m.numExternalComputedTokens = .ok (s', q')) :
      ScheduleStep E (s, st)
        (((((s'.popRequest r w).logAction (.allocated r)).setHitBlocks r
          m.newComputedBlocks).setRunning (s'.running ++ [r])).putRequest r { q' with
            status := .running, numComputedTokens := m.numComputedTokens },
        Scheduler.scheduleWaiting st r n)
  | requeue {s st} :
      ScheduleStep E (s, st)
        ({ s with skippedWaiting := st.stepSkippedWaiting.reverse ++ s.skippedWaiting },
          { st with stepSkippedWaiting := [] })

abbrev ScheduleSteps (E : CacheEnv κ) := ReflTransGen (ScheduleStep E)

section Running

variable {E : CacheEnv κ} {s s' s₁ : Scheduler κ} {st st' st₁ : StepState} {r v : ReqId}
  {i i' i₁ n fuel : Nat}

theorem best_mem {beats : Request → Request → Bool} {rs : List ReqId}
    (h : s.best beats rs = some r) : r ∈ rs := by
  induction rs generalizing r with
  | nil => cases h
  | cons a rs ih =>
    unfold Scheduler.best at h
    split at h
    · exact Option.some.inj h ▸ List.mem_cons_self
    · next b hb =>
      split at h
      · split at h
        · exact Option.some.inj h ▸ List.mem_cons_of_mem a (ih hb)
        · exact Option.some.inj h ▸ List.mem_cons_self
      · exact Option.some.inj h ▸ List.mem_cons_self

theorem victim_mem (h : s.victim = some v) : v ∈ s.running := by
  unfold Scheduler.victim at h
  split at h
  · exact List.mem_of_getLast? h
  · exact best_mem h

theorem lookupOk_empty (s : Scheduler κ) (q : Request) (n : Nat) :
    LookupOk s.kvCacheManager (E.hasher.view q)
      { numNewTokens := n, newComputedBlocks := s.emptyKvCacheBlocks } := by
  refine ⟨by simp [Scheduler.emptyKvCacheBlocks], fun e he => ?_⟩
  have hnil : e.1 = [] := by
    obtain ⟨_, -, h⟩ := List.mem_map.mp (List.of_mem_zip he).1
    exact h.symm
  exact ⟨by simp [hnil], by simp [hnil]⟩

/-- Where the loop over the running requests is: it has scheduled requests before index `i`
only. -/
structure RunningLoopOk (s : Scheduler κ) (st : StepState) (i : Nat) : Prop where
  nodup : s.running.Nodup
  scheduled_nodup : st.scheduledRunningReqs.Nodup
  scheduled : ∀ a ∈ st.scheduledRunningReqs, a ∈ s.running.take i
  keys : ∀ a, a ∉ st.scheduledRunningReqs → st.numScheduledTokens.get? a = none

/-- In the allocation loop for `r`, which stands at index `i` or before and is not scheduled. -/
structure AllocateLoopOk (s : Scheduler κ) (st : StepState) (r : ReqId) (i : Nat) : Prop extends
    RunningLoopOk s st i where
  mem : r ∈ s.running.take (i + 1)
  not_scheduled : r ∉ st.scheduledRunningReqs
  fcfs : s.config.policy = .fcfs → s.running[i]? = some r

theorem erase_getLast? {l : List ReqId} (hl : l.Nodup) (h : l.getLast? = some v) :
    l.erase v = l.dropLast := by
  obtain ⟨ys, rfl⟩ := List.getLast?_eq_some_iff.mp h
  have hnot : v ∉ ys := fun hv =>
    (List.nodup_append.mp hl).2.2 v hv v (List.mem_singleton_self v) rfl
  rw [List.erase_append_right _ hnot]
  simp

theorem mem_take_erase {l : List ReqId} {a : ReqId} (hav : a ≠ v) (ha : a ∈ l.take i) :
    a ∈ (l.erase v).take i := by
  induction l generalizing i with
  | nil => simpa using ha
  | cons b l ih =>
    cases i with
    | zero => simp at ha
    | succ i =>
      rw [List.take_succ_cons, List.mem_cons] at ha
      rcases eq_or_ne b v with rfl | hbv
      · rw [List.erase_cons_head]
        exact List.take_subset_take_left l (Nat.le_succ i) (ha.resolve_left hav)
      · rw [List.erase_cons_tail (by simpa using hbv), List.take_succ_cons, List.mem_cons]
        exact ha.imp_right ih

theorem mem_take_pred_erase {l : List ReqId} {a : ReqId} (hav : a ≠ v) (hv : v ∈ l.take i)
    (ha : a ∈ l.take i) : a ∈ (l.erase v).take (i - 1) := by
  induction l generalizing i with
  | nil => simp at ha
  | cons b l ih =>
    cases i with
    | zero => simp at hv
    | succ i =>
      rw [List.take_succ_cons, List.mem_cons] at ha hv
      rcases eq_or_ne b v with rfl | hbv
      · rw [List.erase_cons_head]
        exact ha.resolve_left hav
      · have hv := hv.resolve_left hbv.symm
        obtain ⟨j, rfl⟩ : ∃ j, i = j + 1 := Nat.exists_eq_succ_of_ne_zero fun h => by simp [h] at hv
        rw [List.erase_cons_tail (by simpa using hbv), Nat.add_sub_cancel, List.take_succ_cons,
          List.mem_cons]
        exact ha.imp_right fun ha => ih hv ha

theorem not_mem_take_of_getLast? {l : List ReqId} (hl : l.Nodup) (hv : l.getLast? = some v)
    (hi : i < l.length) : v ∉ l.take i := by
  obtain ⟨ys, rfl⟩ := List.getLast?_eq_some_iff.mp hv
  have hle : i ≤ ys.length := by simpa [Nat.lt_succ_iff] using hi
  rw [List.take_append_of_le_length hle]
  intro hmem
  exact (List.nodup_append.mp hl).2.2 v (List.mem_of_mem_take hmem) v
    (List.mem_singleton_self v) rfl

theorem AllocateLoopOk.congr (hok : AllocateLoopOk s st r i) (hrunning : s'.running = s.running)
    (hconfig : s'.config = s.config) : AllocateLoopOk s' st r i := by
  refine ⟨⟨?_, hok.scheduled_nodup, ?_, hok.keys⟩, ?_, hok.not_scheduled, ?_⟩
  · rw [hrunning]
    exact hok.nodup
  · rw [hrunning]
    exact hok.scheduled
  · rw [hrunning]
    exact hok.mem
  · rw [hrunning, hconfig]
    exact hok.fcfs

theorem takeVictim_ok (hok : AllocateLoopOk s st r i) (hv : s.victim = some v) :
    ∃ i', s.takeVictim st i v =
        ((s.setRunning (s.running.erase v)), dropScheduled st v, i') ∧
      (s.config.policy = .fcfs → v ∉ st.scheduledRunningReqs) ∧
      (v ≠ r → AllocateLoopOk (s.setRunning (s.running.erase v)) (dropScheduled st v) r i') := by
  unfold Scheduler.takeVictim
  unfold Scheduler.victim at hv
  cases hpolicy : s.config.policy with
  | fcfs =>
    rw [hpolicy] at hv
    have hr := hok.fcfs hpolicy
    have hi : i < s.running.length := (List.getElem?_eq_some_iff.mp hr).1
    have hnot : v ∉ st.scheduledRunningReqs := fun hmem =>
      not_mem_take_of_getLast? hok.nodup hv hi (hok.scheduled v hmem)
    have hdrop : dropScheduled st v = st := if_neg hnot
    have herase := erase_getLast? hok.nodup hv
    refine ⟨i, by simp only [herase, hdrop], fun _ => hnot, fun hne => ?_⟩
    rw [hdrop]
    refine ⟨⟨hok.nodup.erase v, hok.scheduled_nodup, fun a ha => ?_, hok.keys⟩,
      mem_take_erase hne.symm hok.mem, hok.not_scheduled, fun _ => ?_⟩
    · exact mem_take_erase (fun h => hnot (h ▸ ha)) (hok.scheduled a ha)
    · change (s.running.erase v)[i]? = some r
      rw [herase, List.getElem?_dropLast, if_pos]
      · exact hr
      · obtain ⟨ys, hys⟩ := List.getLast?_eq_some_iff.mp hv
        have hlast : i ≠ ys.length := by
          rintro rfl
          rw [hys] at hr
          simp at hr
          exact hne hr
        rw [hys] at hi ⊢
        simp at hi ⊢
        omega
  | priority =>
    have hfcfs : ¬ s.config.policy = .fcfs := by simp [hpolicy]
    simp only [hpolicy, reduceCtorEq, false_implies, true_and]
    split
    · next hmem =>
      have hdrop : dropScheduled st v = Scheduler.unschedule st v := if_pos hmem
      have htake := hok.scheduled v hmem
      have hpos : i ≠ 0 := fun h => by simp [h] at htake
      refine ⟨i - 1, by rw [hdrop], fun hne => ?_⟩
      rw [hdrop]
      refine ⟨⟨hok.nodup.erase v, hok.scheduled_nodup.erase v, fun a ha => ?_, fun a ha => ?_⟩,
        ?_, fun hr => hok.not_scheduled (List.mem_of_mem_erase hr), fun h => absurd h hfcfs⟩
      · obtain ⟨hav, ha⟩ := hok.scheduled_nodup.mem_erase_iff.mp ha
        exact mem_take_pred_erase hav htake (hok.scheduled a ha)
      · change (st.numScheduledTokens.erase v).get? a = none
        rcases eq_or_ne v a with rfl | hva
        · exact Dict.get?_erase_self
        · rw [Dict.get?_erase_ne hva]
          exact hok.keys a fun h => ha (hok.scheduled_nodup.mem_erase_iff.mpr ⟨hva.symm, h⟩)
      · rw [Nat.sub_add_cancel (Nat.pos_of_ne_zero hpos)]
        exact mem_take_pred_erase hne.symm
          (List.take_subset_take_left _ (Nat.le_succ i) htake) hok.mem
    · next hnot =>
      have hdrop : dropScheduled st v = st := if_neg hnot
      refine ⟨i, by rw [hdrop], fun hne => ?_⟩
      rw [hdrop]
      refine ⟨⟨hok.nodup.erase v, hok.scheduled_nodup, fun a ha => ?_, hok.keys⟩,
        mem_take_erase hne.symm hok.mem, hok.not_scheduled, fun h => absurd h hfcfs⟩
      exact mem_take_erase (fun h => hnot (h ▸ ha)) (hok.scheduled a ha)

theorem takeVictim_preempt (hok : AllocateLoopOk s st r i) (hv : s.victim = some v)
    (hs' : (s.takeVictim st i v).1.preemptRequest v = .ok s') :
    ScheduleStep E (s, st) (s', { (s.takeVictim st i v).2.1 with
        preemptedReqs := (s.takeVictim st i v).2.1.preemptedReqs ++ [v] }) ∧
      (v ≠ r → AllocateLoopOk s' { (s.takeVictim st i v).2.1 with
          preemptedReqs := (s.takeVictim st i v).2.1.preemptedReqs ++ [v] } r
          (s.takeVictim st i v).2.2 ∧
        s'.requests.get? r = s.requests.get? r) ∧ s'.config = s.config ∧
      (s.takeVictim st i v).2.1.stepSkippedWaiting = st.stepSkippedWaiting := by
  obtain ⟨i', htake, hfcfs, hnext⟩ := takeVictim_ok hok hv
  rw [htake] at hs' ⊢
  obtain ⟨q, kv, hq, hstatus, hkv, rfl⟩ := preemptRequest_ok hs'
  refine ⟨?_, fun hne => ⟨?_, ?_⟩, rfl, dropScheduled_stepSkippedWaiting st v⟩
  · rw [dropScheduled_preemptedReqs]
    exact .preempt (victim_mem hv) hq hstatus hfcfs hok.keys hkv
  · have := hnext hne
    exact ⟨⟨this.nodup, this.scheduled_nodup, this.scheduled, this.keys⟩, this.mem,
      this.not_scheduled, this.fcfs⟩
  · exact Dict.get?_insert_ne hne

/-- The allocation loop preempts until the tokens of `r` fit or `r` itself is preempted. -/
theorem allocateLoop_steps {q : Request} {fits : Bool} (hok : AllocateLoopOk s st r i)
    (hq : s.requests.get? r = some q)
    (h : s.allocateLoop E r n fuel st i = .ok (fits, s', st', i')) :
    st'.stepSkippedWaiting = st.stepSkippedWaiting ∧
    ((fits = false ∧ ScheduleSteps E (s, st) (s', st')) ∨
    (fits = true ∧ ∃ s₁ kv blocks, ScheduleSteps E (s, st) (s₁, st') ∧
      AllocateLoopOk s₁ st' r i' ∧ s₁.requests.get? r = some q ∧ s₁.config = s.config ∧
      s₁.kvCacheManager.allocateSlots (E.hasher.view q)
        { numNewTokens := n, newComputedBlocks := s₁.emptyKvCacheBlocks } =
          .ok (some blocks, kv) ∧
      s' = s₁.setKv kv)) := by
  induction fuel generalizing s st i with
  | zero => cases h
  | succ fuel ih =>
    unfold Scheduler.allocateLoop at h
    simp only [except_bind_eq_ok, getRequest_eq_ok, Prod.exists] at h
    obtain ⟨q', hq', blocks, kv, hkv, h⟩ := h
    obtain rfl := some_unique hq hq'
    cases blocks with
    | some blocks =>
      simp only [Except.ok.injEq, Prod.mk.injEq] at h
      obtain ⟨rfl, rfl, rfl, rfl⟩ := h
      exact ⟨rfl, .inr ⟨rfl, s, kv, blocks, .refl, hok, hq, rfl, hkv, rfl⟩⟩
    | none =>
      have hfail : ScheduleStep E (s, st) (s.setKv kv, st) :=
        .allocateFails hq (lookupOk_empty s q n) hkv (.running n (List.mem_of_mem_take hok.mem))
      have hok₁ : AllocateLoopOk (s.setKv kv) st r i := hok.congr rfl rfl
      simp only at h
      split at h
      · cases h
      · next v hv =>
        simp only [except_bind_eq_ok] at h
        obtain ⟨s₂, hs₂, h⟩ := h
        obtain ⟨hstep, hnext, hconfig, hskip⟩ := takeVictim_preempt (E := E) hok₁ hv hs₂
        have htwo := (ReflTransGen.single hfail).tail hstep
        split at h
        · simp only [Except.ok.injEq, Prod.mk.injEq] at h
          obtain ⟨rfl, rfl, rfl, rfl⟩ := h
          exact ⟨hskip, .inl ⟨rfl, htwo⟩⟩
        · next hne =>
          obtain ⟨hok₂, hget⟩ := hnext hne
          obtain ⟨hskip', hcases⟩ := ih hok₂ (hget.trans hq) h
          refine ⟨hskip'.trans hskip, ?_⟩
          rcases hcases with ⟨hf, hsteps⟩ | ⟨hf, s₁, kv₁, blocks, hsteps, hrest⟩
          · exact .inl ⟨hf, htwo.trans hsteps⟩
          · obtain ⟨hok₃, hq₃, hconfig₃, hkv₃, hs'⟩ := hrest
            exact .inr ⟨hf, s₁, kv₁, blocks, htwo.trans hsteps, hok₃, hq₃,
              hconfig₃.trans hconfig, hkv₃, hs'⟩

theorem RunningLoopOk.allocateLoopOk (hok : RunningLoopOk s st i) (hr : s.running[i]? = some r) :
    AllocateLoopOk s st r i := by
  have hmem : r ∈ s.running.take (i + 1) := by
    rw [List.take_add_one, hr]
    exact List.mem_append_right _ (List.mem_singleton_self r)
  refine ⟨hok, hmem, fun hsched => ?_, fun _ => hr⟩
  obtain ⟨j, hj⟩ := List.mem_iff_getElem?.mp (hok.scheduled r hsched)
  rw [List.getElem?_take] at hj
  split at hj
  · next hlt =>
    have hi := (List.getElem?_eq_some_iff.mp hr).1
    have := (List.getElem?_inj (by omega) hok.nodup).mp (hj.trans hr.symm)
    omega
  · cases hj

theorem RunningLoopOk.next (hok : RunningLoopOk s st i) : RunningLoopOk s st (i + 1) :=
  ⟨hok.nodup, hok.scheduled_nodup,
    fun a ha => List.take_subset_take_left _ (Nat.le_succ i) (hok.scheduled a ha), hok.keys⟩

theorem AllocateLoopOk.scheduleRunning (hok : AllocateLoopOk s st r i) (n : Nat) :
    RunningLoopOk s (Scheduler.scheduleRunning st r n) (i + 1) := by
  refine ⟨hok.nodup, ?_, fun a ha => ?_, fun a ha => ?_⟩
  · refine List.nodup_append.mpr ⟨hok.scheduled_nodup, List.nodup_singleton r, fun a ha b hb => ?_⟩
    obtain rfl := List.mem_singleton.mp hb
    exact fun hab => hok.not_scheduled (hab ▸ ha)
  · rcases List.mem_append.mp ha with ha | ha
    · exact List.take_subset_take_left _ (Nat.le_succ i) (hok.scheduled a ha)
    · exact List.mem_singleton.mp ha ▸ hok.mem
  · change a ∉ st.scheduledRunningReqs ++ [r] at ha
    simp only [List.mem_append, List.mem_singleton, not_or] at ha
    exact (Dict.get?_insert_ne (Ne.symm ha.2)).trans (hok.keys a ha.1)

theorem runningLoop_steps (hok : RunningLoopOk s st i)
    (h : s.runningLoop E fuel st i = .ok (s', st')) :
    ScheduleSteps E (s, st) (s', st') ∧ st'.stepSkippedWaiting = st.stepSkippedWaiting := by
  induction fuel generalizing s st i with
  | zero => cases h
  | succ fuel ih =>
    unfold Scheduler.runningLoop at h
    split at h
    · obtain ⟨rfl, rfl⟩ := ok_pair_inj h
      exact ⟨.refl, rfl⟩
    · next r hr =>
      split at h
      · obtain ⟨rfl, rfl⟩ := ok_pair_inj h
        exact ⟨.refl, rfl⟩
      · simp only [except_bind_eq_ok, getRequest_eq_ok] at h
        obtain ⟨q, hq, h⟩ := h
        split at h
        · exact ih hok.next h
        split at h
        · cases h
        split at h
        · exact ih hok.next h
        · next hmore hlen hpos =>
          simp only [except_bind_eq_ok, Prod.exists] at h
          obtain ⟨fits, s₁, st₁, i₁, halloc, h⟩ := h
          have hloop := hok.allocateLoopOk hr
          obtain ⟨hkept, hcases⟩ := allocateLoop_steps hloop hq halloc
          rcases hcases with ⟨rfl, hsteps⟩ | ⟨rfl, s₂, kv, blocks, hrest⟩
          · obtain ⟨rfl, rfl⟩ := ok_pair_inj h
            exact ⟨hsteps, hkept⟩
          · obtain ⟨hsteps, hok₂, hq₂, hconfig, hkv, rfl⟩ := hrest
            rw [if_pos rfl] at h
            have hrun : ScheduleStep E (s₂, st₁) (s₂.setKv kv, Scheduler.scheduleRunning st₁ r _) :=
              .run (List.mem_of_mem_take hok₂.mem) hq₂ (Nat.pos_of_ne_zero hpos)
                (by rw [hconfig]) hok₂.not_scheduled hkv (by simpa using hmore)
                (hok₂.keys r hok₂.not_scheduled)
            have hok₃ : AllocateLoopOk (s₂.setKv kv) st₁ r i₁ := hok₂.congr rfl rfl
            obtain ⟨hrest, hkept'⟩ := ih (hok₃.scheduleRunning _) h
            exact ⟨(hsteps.tail hrun).trans hrest, hkept'.trans hkept⟩

end Running

section Waiting

variable {E : CacheEnv κ} {s s' : Scheduler κ} {st st' : StepState} {r : ReqId} {q : Request}
  {m : Scheduler.PrefixMatch} {n fuel : Nat}

theorem peekRequest_mem {rs : List ReqId} (h : s.peekRequest rs = some r) : r ∈ rs := by
  unfold Scheduler.peekRequest at h
  split at h
  · exact List.mem_of_mem_head? h
  · exact best_mem h

theorem selectWaitingQueue_mem {w : Scheduler.WaitingQueue}
    (h : s.selectWaitingQueue = some (w, r)) : r ∈ s.queue w := by
  unfold Scheduler.selectWaitingQueue at h
  split at h
  · split at h
    · next hr =>
      obtain ⟨rfl, rfl⟩ := Prod.mk.inj (Option.some.inj h)
      exact peekRequest_mem hr
    · next hr =>
      obtain ⟨rfl, rfl⟩ := Prod.mk.inj (Option.some.inj h)
      exact peekRequest_mem hr
    · cases h
  · split at h
    · next hr hr' =>
      split at h
      · split at h
        · obtain ⟨rfl, rfl⟩ := Prod.mk.inj (Option.some.inj h)
          exact peekRequest_mem hr
        · obtain ⟨rfl, rfl⟩ := Prod.mk.inj (Option.some.inj h)
          exact peekRequest_mem hr'
      · cases h
    · next hr _ =>
      obtain ⟨rfl, rfl⟩ := Prod.mk.inj (Option.some.inj h)
      exact peekRequest_mem hr
    · next _ hr' =>
      obtain ⟨rfl, rfl⟩ := Prod.mk.inj (Option.some.inj h)
      exact peekRequest_mem hr'
    · cases h

theorem matchPrefix_lookupOk (h : s.matchPrefix E q = .ok m) (n : Nat) (delay fit : Bool) :
    LookupOk s.kvCacheManager (E.hasher.view q)
      { numNewTokens := n
        numNewComputedTokens := m.numNewLocalComputedTokens
        newComputedBlocks := m.newComputedBlocks
        numExternalComputedTokens := m.numExternalComputedTokens
        delayCacheBlocks := delay
        fullSequenceMustFit := fit } := by
  unfold Scheduler.matchPrefix at h
  split at h
  · simp only [except_bind_eq_ok, assert_eq_ok] at h
    obtain ⟨-, -, -, -, hok⟩ := h
    obtain rfl := Except.ok.inj hok
    unfold Scheduler.getComputedBlocks
    split
    · exact lookupOk_empty s q n
    · refine ⟨E.lookup.length_eq _ _ _, fun e he => ?_⟩
      obtain ⟨hlen, hhits⟩ := E.lookup.covers _ _ _ e he
      exact ⟨hlen, hhits.1⟩
  · obtain rfl := Except.ok.inj h
    exact lookupOk_empty s q n

theorem numNewTokensWaiting_some {config : SchedulerConfig} {budget : Nat}
    (h : Scheduler.numNewTokensWaiting config q m budget = .ok (some n)) :
    (m.loadKvAsync = true ∧ n = 0 ∧ 0 < m.numExternalComputedTokens) ∨
    (m.loadKvAsync = false ∧ 0 < n ∧ n ≤ q.numTokens - m.numComputedTokens) := by
  unfold Scheduler.numNewTokensWaiting at h
  split at h
  · next hasync =>
    rw [assert_bind_eq_ok] at h
    exact .inl ⟨hasync, (Option.some.inj (Except.ok.inj h.2)).symm, h.1⟩
  · next hasync =>
    simp only at h
    generalize hk : (if 0 < config.longPrefillTokenThreshold ∧
      config.longPrefillTokenThreshold < q.numTokens - m.numComputedTokens
      then config.longPrefillTokenThreshold else q.numTokens - m.numComputedTokens) = k at h
    have hle : k ≤ q.numTokens - m.numComputedTokens := by
      rw [← hk]
      split
      · next hlt => exact hlt.2.le
      · exact le_refl _
    split at h
    · cases h
    · rw [assert_bind_eq_ok] at h
      obtain rfl := Option.some.inj (Except.ok.inj h.2)
      exact .inr ⟨by simpa using hasync, h.1, (Nat.min_le_left _ _).trans hle⟩

theorem updateWaitingForRemoteKv_ok {q' : Request}
    (h : s.updateWaitingForRemoteKv E r q = .ok (s', q')) :
    ∃ kv, s' = { s.setKv kv with
        failedRecvingKvReqIds := s.failedRecvingKvReqIds.erase r
        finishedRecvingKvReqIds := s.finishedRecvingKvReqIds.erase r } ∧
      ((r ∈ s.failedRecvingKvReqIds ∧ s.settleFailedLoad E r q = .ok kv ∧ q' = q) ∨
       (r ∉ s.failedRecvingKvReqIds ∧
        s.kvCacheManager.cacheBlocks (E.hasher.view q) q.numComputedTokens = .ok kv ∧
        q' = Scheduler.recomputeLast q)) := by
  unfold Scheduler.updateWaitingForRemoteKv at h
  simp only at h
  split at h
  · next hfailed =>
    simp only [except_bind_eq_ok] at h
    obtain ⟨kv, hkv, hok⟩ := h
    obtain ⟨rfl, rfl⟩ := ok_pair_inj hok
    exact ⟨kv, rfl, .inl ⟨hfailed, hkv, rfl⟩⟩
  · next hfailed =>
    simp only [except_bind_eq_ok] at h
    obtain ⟨kv, hkv, hok⟩ := h
    obtain ⟨rfl, rfl⟩ := ok_pair_inj hok
    refine ⟨kv, ?_, .inr ⟨hfailed, hkv, rfl⟩⟩
    rw [Finset.erase_eq_of_notMem hfailed]
    rfl

theorem tryPromote_steps (st : StepState) {ready : Bool} (h : s.tryPromote E r = .ok (ready, s')) :
    ScheduleSteps E (s, st) (s', st) ∧ (∀ w, s'.queue w = s.queue w) ∧
      (ready = true → ∃ q, s'.requests.get? r = some q ∧
        isBlockedWaitingStatus q.status = false) := by
  simp only [Scheduler.tryPromote, except_bind_eq_ok, getRequest_eq_ok] at h
  obtain ⟨q, hq, h⟩ := h
  split at h
  · next hdone =>
    simp only [except_bind_eq_ok, Prod.exists] at h
    obtain ⟨s₁, q', hupdate, hok⟩ := h
    obtain ⟨rfl, rfl⟩ := ok_pair_inj hok
    refine ⟨.single (.promote hq hdone.1 hdone.2 hupdate), fun w => ?_, fun _ => ?_⟩
    · obtain ⟨kv, rfl, -⟩ := updateWaitingForRemoteKv_ok hupdate
      cases w <;> rfl
    · refine ⟨promoted q', Dict.get?_insert_self, ?_⟩
      unfold promoted
      simp only
      split <;> rfl
  · obtain ⟨rfl, rfl⟩ := ok_pair_inj h
    exact ⟨.refl, fun _ => rfl, fun hready => ⟨q, hq, by simpa using hready⟩⟩

theorem updateConnectorAfterAlloc_ok {ext : Nat} {q' : Request}
    (h : s.updateConnectorAfterAlloc r q ext = .ok (s', q')) :
    (s.connector = none ∧ s' = s ∧ q' = q) ∨
    ∃ c c', s.connector = some c ∧
      c.updateStateAfterAlloc q (s.getUnhashedBlockIds r) ext = .ok (c', q') ∧
      s' = s.setConnector c' := by
  unfold Scheduler.updateConnectorAfterAlloc at h
  split at h
  · next hc =>
    obtain ⟨rfl, rfl⟩ := ok_pair_inj h
    exact .inl ⟨hc, rfl, rfl⟩
  · next c hc =>
    simp only [except_bind_eq_ok, Prod.exists] at h
    obtain ⟨c', q'', hupdate, hok⟩ := h
    obtain ⟨rfl, rfl⟩ := ok_pair_inj hok
    exact .inr ⟨c, c', hc, hupdate, rfl⟩

theorem updateConnectorAfterAlloc_frame {ext : Nat} {q' : Request}
    (h : s.updateConnectorAfterAlloc r q ext = .ok (s', q')) :
    (∃ c, s' = { s with connector := c }) ∧ ∃ params, q' = { q with kvTransferParams := params } := by
  rcases updateConnectorAfterAlloc_ok h with ⟨-, rfl, rfl⟩ | ⟨c, c', -, hupdate, rfl⟩
  · exact ⟨⟨_, rfl⟩, ⟨_, rfl⟩⟩
  · exact ⟨⟨_, rfl⟩, NixlConnectorScheduler.updateStateAfterAlloc_request hupdate⟩

theorem tryAdmit_steps {w : Scheduler.WaitingQueue} {budget : Nat} {a : Scheduler.Admission κ}
    (hqueue : r ∈ s.queue w) (hpre : st.preemptedReqs = []) (hq : s.requests.get? r = some q)
    (hready : isBlockedWaitingStatus q.status = false)
    (h : s.tryAdmit E w r budget = .ok a) :
    match a with
    | .stop s' => ScheduleSteps E (s, st) (s', st)
    | .load s' => ScheduleStep E (s, st) (s', Scheduler.skipWaiting st r)
    | .run s' n => ScheduleStep E (s, st) (s', Scheduler.scheduleWaiting st r n) := by
  simp only [Scheduler.tryAdmit, except_bind_eq_ok, getRequest_eq_ok] at h
  obtain ⟨q', hq', m, hmatch, n?, hn?, h⟩ := h
  obtain rfl := some_unique hq hq'
  cases n? with
  | none =>
    obtain rfl := Except.ok.inj h
    exact .refl
  | some n =>
    simp only [except_bind_eq_ok, Prod.exists] at h
    obtain ⟨blocks, kv, hkv, h⟩ := h
    cases blocks with
    | none =>
      obtain rfl := Except.ok.inj h
      exact .single (.allocateFails hq (matchPrefix_lookupOk hmatch _ _ _) hkv
        (.waiting n hqueue hready hmatch))
    | some blocks =>
      simp only [except_bind_eq_ok, Prod.exists] at h
      obtain ⟨s₁, q₁, hupdate, h⟩ := h
      obtain ⟨⟨c, hs₁⟩, params, hq₁⟩ := updateConnectorAfterAlloc_frame hupdate
      rcases numNewTokensWaiting_some hn? with ⟨hasync, rfl, -⟩ | ⟨hsync, hpos, hle⟩
      · rw [if_pos hasync] at h
        obtain rfl := Except.ok.inj h
        exact .load hqueue hpre hq hready hmatch hasync hkv hupdate
      · rw [if_neg (by simp [hsync])] at h
        split at h
        · next hstatus =>
          obtain rfl := Except.ok.inj h
          have hstart : ScheduleStep E (s, st) (_, Scheduler.scheduleWaiting st r n) :=
            .start hqueue hpre hq (by simpa [hq₁] using hstatus) hmatch hsync hpos hle hkv hupdate
          convert hstart using 3
          cases w <;> rfl
        · cases h

theorem waitingLoop_steps (hpre : st.preemptedReqs = [])
    (h : s.waitingLoop E fuel st = .ok (s', st')) :
    ScheduleSteps E (s, st) (s', st') ∧ st'.preemptedReqs = [] := by
  induction fuel generalizing s st with
  | zero => cases h
  | succ fuel ih =>
    unfold Scheduler.waitingLoop at h
    split at h
    · obtain ⟨rfl, rfl⟩ := ok_pair_inj h
      exact ⟨.refl, hpre⟩
    · split at h
      · obtain ⟨rfl, rfl⟩ := ok_pair_inj h
        exact ⟨.refl, hpre⟩
      · next w r hselect =>
        simp only [except_bind_eq_ok, Prod.exists] at h
        obtain ⟨ready, s₁, hpromote, h⟩ := h
        obtain ⟨hsteps, hqueue, hready⟩ := tryPromote_steps st hpromote
        have hmem : r ∈ s₁.queue w := hqueue w ▸ selectWaitingQueue_mem hselect
        split at h
        · have hskip : (Scheduler.skipWaiting st r).preemptedReqs = [] := hpre
          obtain ⟨hrest, hpre'⟩ := ih hskip h
          exact ⟨(hsteps.tail (.skip hmem hpre)).trans hrest, hpre'⟩
        · next hnot =>
          obtain ⟨q, hq, hstatus⟩ := hready (by simpa using hnot)
          simp only [except_bind_eq_ok] at h
          obtain ⟨a, ha, h⟩ := h
          have hstep := tryAdmit_steps hmem hpre hq hstatus ha
          cases a with
          | stop s₂ =>
            obtain ⟨rfl, rfl⟩ := ok_pair_inj h
            exact ⟨hsteps.trans hstep, hpre⟩
          | load s₂ =>
            have hskip : (Scheduler.skipWaiting st r).preemptedReqs = [] := hpre
            obtain ⟨hrest, hpre'⟩ := ih hskip h
            exact ⟨(hsteps.tail hstep).trans hrest, hpre'⟩
          | run s₂ n =>
            have hrun : (Scheduler.scheduleWaiting st r n).preemptedReqs = [] := hpre
            obtain ⟨hrest, hpre'⟩ := ih hrun h
            exact ⟨(hsteps.tail hstep).trans hrest, hpre'⟩

theorem scheduleWaitingRequests_steps (hskip : st.stepSkippedWaiting = [])
    (h : s.scheduleWaitingRequests E st = .ok (s', st')) :
    ScheduleSteps E (s, st) (s', st') ∧ st'.stepSkippedWaiting = [] := by
  unfold Scheduler.scheduleWaitingRequests at h
  split at h
  · next hpre =>
    simp only [except_bind_eq_ok, Prod.exists] at h
    obtain ⟨s₁, st₁, hloop, hok⟩ := h
    obtain ⟨rfl, rfl⟩ := ok_pair_inj hok
    exact ⟨(waitingLoop_steps hpre hloop).1.tail .requeue, rfl⟩
  · obtain ⟨rfl, rfl⟩ := ok_pair_inj h
    exact ⟨.refl, hskip⟩

end Waiting

def StepState.init (config : SchedulerConfig) : StepState :=
  { tokenBudget := config.maxNumScheduledTokens }

theorem schedule_steps {E : CacheEnv κ} {s s' : Scheduler κ} {out : SchedulerOutput}
    (hnodup : s.running.Nodup) (h : s.schedule E = .ok (out, s')) :
    ∃ s₁ st₁, ScheduleSteps E (s, .init s.config) (s₁, st₁) ∧ st₁.stepSkippedWaiting = [] ∧
      s₁.finishSchedule st₁ = .ok (out, s') := by
  simp only [Scheduler.schedule, except_bind_eq_ok, Prod.exists] at h
  obtain ⟨s₂, st₂, hrunning, s₁, st₁, hwaiting, hfinish⟩ := h
  have hok : RunningLoopOk s (.init s.config) 0 :=
    ⟨hnodup, List.nodup_nil, fun _ h => absurd h List.not_mem_nil, fun _ _ => rfl⟩
  obtain ⟨hsteps, hskip⟩ := runningLoop_steps hok hrunning
  obtain ⟨hsteps', hskip'⟩ := scheduleWaitingRequests_steps hskip hwaiting
  exact ⟨s₁, st₁, hsteps.trans hsteps', hskip', hfinish⟩

section Finish

variable {s s' : Scheduler κ} {st : StepState} {entries : List (ReqId × Nat)}
  {sampled : List ReqId}

theorem updateAfterSchedule_invariant {P : Scheduler κ → Prop}
    (hput : ∀ e ∈ entries, ∀ s q, P s → s.requests.get? e.1 = some q →
      P (s.putRequest e.1 (Scheduler.advance s.config.asyncScheduling q e.2)))
    (hs : P s) (h : s.updateAfterSchedule entries = .ok (s', sampled)) : P s' := by
  induction entries generalizing s sampled with
  | nil =>
    obtain ⟨rfl, -⟩ := ok_pair_inj h
    exact hs
  | cons e entries ih =>
    simp only [Scheduler.updateAfterSchedule, except_bind_eq_ok, getRequest_eq_ok,
      Prod.exists] at h
    obtain ⟨q, hq, s₁, sampled', hrest, hok⟩ := h
    obtain ⟨rfl, -⟩ := ok_pair_inj hok
    exact ih (fun e' he' => hput e' (List.mem_cons_of_mem e he'))
      (hput e List.mem_cons_self s q hs hq) hrest

theorem updateAfterSchedule_frame (h : s.updateAfterSchedule entries = .ok (s', sampled)) :
    s' = { s with requests := s'.requests, tokens := s'.tokens } := by
  refine updateAfterSchedule_invariant
    (P := fun t => t = { s with requests := t.requests, tokens := t.tokens }) ?_ rfl h
  intro e _ t q ht _
  rw [ht]
  rfl

theorem updateAfterSchedule_other {r : ReqId} (hr : r ∉ entries.map Prod.fst)
    (h : s.updateAfterSchedule entries = .ok (s', sampled)) :
    s'.requests.get? r = s.requests.get? r := by
  refine updateAfterSchedule_invariant
    (P := fun t => t.requests.get? r = s.requests.get? r) (fun e he t q ht _ => ?_) rfl h
  have hne : e.1 ≠ r := fun heq => hr (heq ▸ List.mem_map_of_mem he)
  exact (Dict.get?_insert_ne hne).trans ht

theorem updateAfterSchedule_sampled (h : s.updateAfterSchedule entries = .ok (s', sampled)) :
    ∀ r ∈ sampled, r ∈ entries.map Prod.fst := by
  induction entries generalizing s s' sampled with
  | nil =>
    obtain ⟨-, rfl⟩ := ok_pair_inj h
    simp
  | cons e entries ih =>
    simp only [Scheduler.updateAfterSchedule, except_bind_eq_ok, getRequest_eq_ok,
      Prod.exists] at h
    obtain ⟨q, -, s₁, sampled', hrest, hok⟩ := h
    obtain ⟨-, rfl⟩ := ok_pair_inj hok
    intro r hr
    split at hr
    · exact List.mem_cons_of_mem _ (ih hrest r hr)
    · rcases List.mem_cons.mp hr with rfl | hr
      · exact List.mem_cons_self
      · exact List.mem_cons_of_mem _ (ih hrest r hr)

/-- Each scheduled request advances by its tokens; those that are not in the middle of a prefill
get a token. -/
theorem updateAfterSchedule_scheduled (hnodup : (entries.map Prod.fst).Nodup)
    (h : s.updateAfterSchedule entries = .ok (s', sampled)) {r : ReqId} {n : Nat}
    (hr : (r, n) ∈ entries) :
    ∃ q, s.requests.get? r = some q ∧
      s'.requests.get? r = some (Scheduler.advance s.config.asyncScheduling q n) ∧
      (r ∈ sampled ↔
        (Scheduler.advance s.config.asyncScheduling q n).isPrefillChunk = false) := by
  induction entries generalizing s sampled with
  | nil => cases hr
  | cons e entries ih =>
    obtain ⟨a, k⟩ := e
    rw [List.map_cons, List.nodup_cons] at hnodup
    simp only [Scheduler.updateAfterSchedule, except_bind_eq_ok, getRequest_eq_ok,
      Prod.exists] at h
    obtain ⟨q, hq, s₁, sampled', hrest, hok⟩ := h
    obtain ⟨rfl, rfl⟩ := ok_pair_inj hok
    have hsub := updateAfterSchedule_sampled hrest
    rcases List.mem_cons.mp hr with heq | hr
    · obtain ⟨rfl, rfl⟩ := Prod.mk.inj heq
      refine ⟨q, hq, ?_, ?_⟩
      · rw [updateAfterSchedule_other hnodup.1 hrest]
        exact Dict.get?_insert_self
      · split
        · next hchunk =>
          exact iff_of_false (fun hmem => hnodup.1 (hsub r hmem)) (by simp [hchunk])
        · next hchunk => simp [hchunk]
    · have hne : r ≠ a := fun heq =>
        hnodup.1 (heq ▸ List.mem_map.mpr ⟨(r, n), hr, rfl⟩)
      obtain ⟨q', hq', hget, hsampled⟩ := ih hnodup.2 hrest hr
      refine ⟨q', (Dict.get?_insert_ne hne.symm).symm.trans hq', hget, ?_⟩
      split
      · exact hsampled
      · exact (List.mem_cons.trans (or_iff_right hne)).trans hsampled

end Finish

end EldrServing.Sched
