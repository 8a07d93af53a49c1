import EldrServing.Encoder.ScheduleSteps

/-!
# Multimodal requests in the engine core

Over whole runs of the engine: the accounts of the encoder cache, and the outputs behind its
entries. The second holds as long as no step loses an input it has booked; a step with the priority
policy may, when it preempts a request that it has scheduled already.
-/

namespace EldrServing.Encoder

set_option autoImplicit false
set_option linter.unusedSectionVars false

open Engine KVCache Nixl Sched Relation EncoderCacheManager

variable {κ : Type} [DecidableEq κ]

/-! ### Between two steps inputs are only released -/

structure Releases (I : EncoderCacheManager → Prop) (env : EncoderEnv) : Prop where
  free : ∀ m r, I m → I (m.free env.ord (env.request r))
  freePassed : ∀ m r n, I m → I (m.freePassed env.ord (env.request r) n)

section Update

variable {E : CacheEnv κ} {env : EncoderEnv} {I : EncoderCacheManager → Prop} {s s' : Scheduler κ}
  {m m' : EncoderCacheManager} {sampled : ReqId → List TokenId} {now : Nat}

theorem Releases.freeFinished (hI : Releases I env) (ids : List ReqId) (hm : I m) :
    I (MmSchedule.freeFinished env s ids m) := by
  unfold MmSchedule.freeFinished
  generalize ids.dedup.filter (s.hasStatus fun st => !st.isFinished) = rs
  induction rs generalizing m with
  | nil => exact hm
  | cons r rs ih => exact ih (hI.free m r hm)

theorem updateLoop_base {failed : List ReqId} {entries : List (ReqId × Nat)}
    {u u' : Scheduler.UpdateState} (hI : Releases I env) (hm : I m)
    (h : MmSchedule.updateLoop E env failed sampled now entries s u m = .ok (s', u', m')) :
    Scheduler.updateLoop E failed sampled now entries s u = .ok (s', u') ∧ I m' := by
  induction entries generalizing s u m with
  | nil =>
    simp only [MmSchedule.updateLoop, Except.ok.injEq, Prod.mk.injEq] at h
    obtain ⟨rfl, rfl, rfl⟩ := h
    exact ⟨rfl, hm⟩
  | cons entry rest ih =>
    obtain ⟨r, n⟩ := entry
    simp only [MmSchedule.updateLoop, assert_bind_eq_ok] at h
    obtain ⟨hpos, h⟩ := h
    simp only [Scheduler.updateLoop, assert_bind_eq_ok]
    split at h
    · next hfailed =>
      rw [if_pos hfailed]
      exact ⟨⟨hpos, (ih hm h).1⟩, (ih hm h).2⟩
    next hfailed =>
    rw [if_neg hfailed]
    cases hq : s.requests.get? r with
    | none =>
      simp only [hq] at h
      exact ⟨⟨hpos, (ih hm h).1⟩, (ih hm h).2⟩
    | some q =>
    simp only [hq] at h
    simp only
    split at h
    · next hdone =>
      rw [if_pos hdone]
      exact ⟨⟨hpos, (ih hm h).1⟩, (ih hm h).2⟩
    next hdone =>
    rw [if_neg hdone]
    simp only [except_bind_eq_ok, Prod.exists] at h ⊢
    obtain ⟨s₁, u₁, hupdate, h⟩ := h
    have hpassed := hI.freePassed m r q.numComputedTokens hm
    have hreleased : I (if r ∈ u₁.stoppedRunning ∨ r ∈ u₁.stoppedPreempted
        then (m.freePassed env.ord (env.request r) q.numComputedTokens).free env.ord (env.request r)
        else m.freePassed env.ord (env.request r) q.numComputedTokens) := by
      split
      · exact hI.free _ r hpassed
      · exact hpassed
    exact ⟨⟨hpos, s₁, u₁, hupdate, (ih hreleased h).1⟩, (ih hreleased h).2⟩

theorem updateFromOutput_base {out : SchedulerOutput} {kv : KVConnectorOutput}
    {outs : List (ReqId × EngineCoreOutput)} (hI : Releases I env) (hm : I m)
    (h : MmSchedule.updateFromOutput E env s out sampled kv now m = .ok (outs, s', m')) :
    s.updateFromOutput E out sampled kv now = .ok (outs, s') ∧ I m' := by
  simp only [MmSchedule.updateFromOutput, except_bind_eq_ok, Prod.exists] at h
  obtain ⟨failed, s₁, hcheck, s₂, u, m₂, hloop, s₃, hfail, s₄, hxfer, h⟩ := h
  simp only [Except.ok.injEq, Prod.mk.injEq] at h
  obtain ⟨rfl, rfl, rfl⟩ := h
  obtain ⟨hbase, hm₂⟩ := updateLoop_base hI hm hloop
  constructor
  · simp only [Scheduler.updateFromOutput, except_bind_eq_ok, Prod.exists]
    exact ⟨failed, s₁, hcheck, s₂, u, hbase, s₃, hfail, s₄, hxfer, rfl⟩
  · split
    · exact hI.freeFinished failed hm₂
    · exact hm₂

end Update

theorem releases_same (env : EncoderEnv) (m : EncoderCacheManager) :
    Releases (fun m' => m.SameEntries m') env :=
  ⟨fun m' r h => h.trans (free_same env.ord m' (env.request r)),
    fun m' r n h => h.trans (freePassed_same env.ord m' (env.request r) n)⟩

namespace MmEngine

/-! ### What an event does -/

section Steps

variable {E : CacheEnv κ} {e e' : MmEngine κ}

theorem step_schedule {stored : MmHash → Bool} (hok : e.core.Ok)
    (h : step E e (.schedule stored) = some e') :
    ∃ out s p, e.schedulePass E stored = .ok (out, s, p) ∧ e' = e.send out s p ∧
      PassSteps (e.env stored) e.core.scheduler.config.policy (e.startPass, none) (p, none) ∧
      e'.core.Ok := by
  simp only [step] at h
  split at h
  · next hlt =>
    obtain ⟨⟨out, s, p⟩, hs, rfl⟩ := Option.map_eq_some_iff.mp h
    rw [toOption_eq_some] at hs
    obtain ⟨⟨s₁, st₁, hsteps, hskip, hfinish⟩, hpass⟩ := schedule_passes hok.queues rfl hs
    exact ⟨out, s, p, hs, rfl, hpass, hok.scheduled hlt hsteps hskip hfinish⟩
  · cases h

theorem step_other {I : EncoderCacheManager → Prop} {ev : MmEvent}
    (hI : Releases I (e.env fun _ => false))
    (hadd : ∀ req mmFeatures now, ev = .add req mmFeatures now → ∀ m, I m →
      I (m.free e.ord ⟨req.requestId, mmFeatures⟩))
    (hm : I e.encoder) (hok : e.core.Ok) (hsched : ∀ stored, ev ≠ .schedule stored)
    (hreset : ev ≠ .resetEncoderCache) (h : step E e ev = some e') :
    I e'.encoder ∧ e'.core.Ok ∧ e'.worker = e.worker ∧ e'.unbacked = e.unbacked ∧
      e'.ord = e.ord ∧ (e'.mmFeatures = e.mmFeatures ∨ ∃ req mmFeatures now,
        ev = .add req mmFeatures now ∧
          e'.mmFeatures = Function.update e.mmFeatures req.requestId mmFeatures) := by
  cases ev with
  | schedule stored => exact absurd rfl (hsched stored)
  | resetEncoderCache => exact absurd rfl hreset
  | add req mmFeatures now =>
    obtain ⟨core, hcore, rfl⟩ := Option.map_eq_some_iff.mp h
    refine ⟨?_, hok.add hcore, rfl, rfl, rfl, .inr ⟨req, mmFeatures, now, rfl, rfl⟩⟩
    simp only
    split
    · exact hadd req mmFeatures now rfl e.encoder hm
    · exact hm
  | update sampled kv now =>
    simp only [step] at h
    split at h
    · cases h
    · next out rest hinFlight =>
      obtain ⟨⟨outs, s, m⟩, hs, rfl⟩ := Option.map_eq_some_iff.mp h
      rw [toOption_eq_some] at hs
      obtain ⟨hbase, hm'⟩ := updateFromOutput_base hI hm hs
      have hcore : e.core.step E (.update sampled kv now) = some { e.core with
          scheduler := s, inFlight := rest, outputs := e.core.outputs ++ outs } := by
        simp only [EngineCore.step, hinFlight, hbase]
        rfl
      exact ⟨hm', hok.update hcore, rfl, rfl, rfl, .inl rfl⟩
  | finish ids status now =>
    obtain ⟨core, hcore, rfl⟩ := Option.map_eq_some_iff.mp h
    exact ⟨hI.freeFinished ids hm, hok.finish hcore, rfl, rfl, rfl, .inl rfl⟩

/-! ### The engine issues the operations of the books -/

def Reached (ord : SetOrder) (size : MmHash → Nat) (cacheSize : Nat) (b : Books) : Prop :=
  ∃ evs, (∀ ev ∈ evs, ev.Sized size) ∧
    Machine.exec (Books.step ord) (Books.init cacheSize) evs = some b

section Reached

variable {ord : SetOrder} {size : MmHash → Nat} {cacheSize : Nat} {b b' : Books}

theorem Reached.next (ev : CacheEvent) (h : Reached ord size cacheSize b) (hev : ev.Sized size)
    (hon : b.Enabled ev) (hb : b.apply ord ev = .ok b') : Reached ord size cacheSize b' := by
  obtain ⟨evs, hevs, hrun⟩ := h
  refine ⟨evs ++ [ev], ?_, ?_⟩
  · intro ev' hmem
    rcases List.mem_append.mp hmem with hmem | hmem
    · exact hevs ev' hmem
    · exact List.mem_singleton.mp hmem ▸ hev
  · rw [Machine.exec_append, hrun]
    simp [Machine.exec, Books.step, hon, hb, Except.toOption]

def books (env : EncoderEnv) (x : EncoderPass × Option (ReqId × Choice)) : Books :=
  ⟨x.1.manager, x.2.map fun (r, c) => (env.request r, c.inputs)⟩

theorem Reached.passSteps {env : EncoderEnv} {policy : SchedulingPolicy}
    {x y : EncoderPass × Option (ReqId × Choice)} (hsized : ∀ r, (env.request r).Sized size)
    (h : PassSteps env policy x y) (hx : Reached env.ord size cacheSize (books env x)) :
    Reached env.ord size cacheSize (books env y) := by
  induction h with
  | refl => exact hx
  | tail _ hstep ih =>
    cases hstep with
    | @choose p p' r numComputedTokens numNewTokens c h =>
      simp only [EncoderPass.choose, except_bind_eq_ok, Prod.exists] at h
      obtain ⟨c', m, hm, h⟩ := h
      obtain ⟨rfl, rfl⟩ := ok_pair_inj h
      exact ih.next (.choose _ (env.request r) _ _) (hsized r) rfl
        (except_bind_eq_ok.mpr ⟨_, hm, rfl⟩)
    | giveUp => exact ih.next .giveUp trivial trivial rfl
    | takeBack => exact ih
    | @free p r x => exact ih.next (.free (env.request r)) (hsized r) trivial rfl
    | @book p p' r c hnew h =>
      obtain ⟨m, hm, hmanager, -⟩ := EncoderPass.book_ok h
      have hbook : (books env (p, some (r, c))).apply env.ord .book =
          .ok (books env (p', none)) := by
        refine except_bind_eq_ok.mpr ⟨m, hm, ?_⟩
        rw [← hmanager]
        rfl
      exact ih.next .book trivial rfl hbook

end Reached

def Sized (size : MmHash → Nat) : MmEvent → Prop
  | .add req mmFeatures _ => MmRequest.Sized size ⟨req.requestId, mmFeatures⟩
  | _ => True

/-- The encoder cache is as the operations of the scheduler can leave it after a step. -/
structure Issued (size : MmHash → Nat) (cacheSize : Nat) (e : MmEngine κ) : Prop where
  core : e.core.Ok
  sized : ∀ r, MmRequest.Sized size ⟨r, e.mmFeatures r⟩
  reached : Reached e.ord size cacheSize ⟨e.encoder, none⟩

theorem Issued.step {size : MmHash → Nat} {cacheSize : Nat} {ev : MmEvent}
    (hi : e.Issued size cacheSize) (hev : Sized size ev) (h : step E e ev = some e') :
    e'.Issued size cacheSize := by
  have hother : (∀ stored, ev ≠ .schedule stored) → ev ≠ .resetEncoderCache →
      e'.Issued size cacheSize := by
    intro hsched hreset
    obtain ⟨hm, hcore, -, -, hord, hfeatures⟩ :=
      step_other (I := fun m => Reached e.ord size cacheSize ⟨m, none⟩)
        ⟨fun m r hm => hm.next (.free _) (hi.sized r) trivial rfl,
          fun m r n hm => hm.next (.freePassed _ n) (hi.sized r) trivial rfl⟩
        (fun req fs now heq m hm => hm.next (.free _) (by rw [heq] at hev; exact hev) trivial rfl)
        hi.reached hi.core hsched hreset h
    refine ⟨hcore, fun r => ?_, hord ▸ hm⟩
    rcases hfeatures with hsame | ⟨req, fs, now, rfl, hnew⟩
    · rw [hsame]
      exact hi.sized r
    · rw [hnew]
      rcases eq_or_ne r req.requestId with rfl | hne
      · rw [Function.update_self]
        exact hev
      · rw [Function.update_of_ne hne]
        exact hi.sized r
  cases ev with
  | schedule stored =>
    obtain ⟨out, s, p, -, rfl, hpass, hcore⟩ := step_schedule hi.core h
    have hp : Reached e.ord size cacheSize ⟨p.manager, none⟩ :=
      hi.reached.passSteps hi.sized hpass
    exact ⟨hcore, hi.sized, hp.next .getFreedMmHashes trivial trivial rfl⟩
  | resetEncoderCache =>
    obtain rfl := Option.some.inj h
    exact ⟨hi.core, hi.sized, hi.reached.next .reset trivial rfl rfl⟩
  | add | update | finish => exact hother nofun nofun

/-! ### The outputs behind the entries -/

/-- The worker has the output of every entry, and of every input that was found in the cache. -/
structure Backed (e : MmEngine κ) : Prop where
  core : e.core.Ok
  worker : ∀ h, e.encoder.Holds h → h ∈ e.worker
  freed : e.encoder.freed = []
  unbacked : e.unbacked = []

structure Fresh (e : MmEngine κ) : Prop where
  core : e.core.Fresh
  encoder : e.encoder = { cacheSize := e.encoder.cacheSize }
  unbacked : e.unbacked = []

theorem Fresh.backed (h : e.Fresh) : e.Backed where
  core := h.core.ok
  worker k hk := by
    rw [h.encoder] at hk
    exact absurd rfl hk
  freed := by rw [h.encoder]
  unbacked := h.unbacked

theorem Fresh.issued {size : MmHash → Nat} (h : e.Fresh)
    (hsized : ∀ r, MmRequest.Sized size ⟨r, e.mmFeatures r⟩) :
    e.Issued size e.encoder.cacheSize := by
  refine ⟨h.core.ok, hsized, [], nofun, ?_⟩
  rw [h.encoder]
  rfl

/-- In every run of the engine the encoder cache is as the accounting of its operations says. -/
theorem encoder_kept {size : MmHash → Nat} {e₀ : MmEngine κ} {evs : List MmEvent}
    (hfresh : e₀.Fresh) (hsized : ∀ r, MmRequest.Sized size ⟨r, e₀.mmFeatures r⟩)
    (hevs : ∀ ev ∈ evs, Sized size ev) (hrun : Machine.exec (step E) e₀ evs = some e) :
    Books.Kept size e₀.encoder.cacheSize ⟨e.encoder, none⟩ := by
  have hi : e.Issued size e₀.encoder.cacheSize := Machine.exec_invariant_along
    (fun _ _ _ hi hev h => hi.step hev h) (hfresh.issued hsized) (.of_mem hevs) hrun
  obtain ⟨ops, hops, hrun⟩ := hi.reached
  exact Books.Kept.exec hops hrun

/-- The step brings every input that it books: under FCFS, unless a connector that is no consumer
is asked for outputs, and under the priority policy if the step takes no input back. -/
def KeepsBooked (E : CacheEnv κ) (e : MmEngine κ) : MmEvent → Prop
  | .schedule stored =>
    (e.core.scheduler.config.policy = .fcfs ∧ e.ecConsumer ≠ some false) ∨
      ∀ out s p, e.schedulePass E stored = .ok (out, s, p) → p.lost = []
  | _ => True

theorem loads_of_consumer {stored : MmHash → Bool} (hec : e.ecConsumer ≠ some false) (h : MmHash)
    (hhas : ECConnector.hasCacheItem (e.env stored).ecConnector h = true) :
    ECConnector.loads (e.env stored).ecConnector h = true := by
  simp only [env, ECConnector.hasCacheItem, ECConnector.loads] at hhas ⊢
  cases hc : e.ecConsumer with
  | none => simp [hc] at hhas
  | some isConsumer =>
    cases isConsumer with
    | false => exact absurd hc hec
    | true => simpa [hc] using hhas

theorem Backed.schedule {stored : MmHash → Bool} (hb : e.Backed)
    (hkeeps : e.KeepsBooked E (.schedule stored)) (h : step E e (.schedule stored) = some e') :
    e'.Backed := by
  obtain ⟨out, s, p, hsched, rfl, hpass, hcore⟩ := step_schedule hb.core h
  have hlost : p.lost = [] := by
    rcases hkeeps with ⟨hpolicy, hec⟩ | hkeeps
    · exact (hpass.lost_of_fcfs hpolicy (loads_of_consumer hec) nofun).1
    · exact hkeeps out s p hsched
  have hstart : e.startPass.Ok := by
    refine ⟨fun k hk => .inr ⟨hb.worker k hk, ?_⟩, rfl⟩
    rw [show e.startPass.manager.freed = [] from hb.freed]
    exact List.not_mem_nil
  have hp := hpass.ok hstart hlost
  have hworker : p.worker = e.worker := hpass.worker
  refine ⟨hcore, fun k hk => ?_, rfl, ?_⟩
  · -- dropped outputs are announced, and what the step brings comes after
    simp only [send, getFreedMmHashes, Finset.mem_union, Finset.mem_sdiff, List.mem_toFinset]
    rcases hp.backed k hk with hbrought | ⟨hw, hf⟩
    · exact .inr hbrought
    · exact .inl ⟨hworker ▸ hw, hf⟩
  · simp only [send]
    rw [hb.unbacked, hp.unbacked]
    rfl

theorem Backed.step {ev : MmEvent} (hb : e.Backed) (hkeeps : e.KeepsBooked E ev)
    (h : step E e ev = some e') : e'.Backed := by
  have hother : (∀ stored, ev ≠ .schedule stored) → ev ≠ .resetEncoderCache → e'.Backed := by
    intro hsched hreset
    obtain ⟨hm, hcore, hworker, hunbacked, -⟩ :=
      step_other (releases_same _ e.encoder) (fun _ _ _ _ m hm => hm.trans (free_same _ m _))
        (.refl e.encoder) hb.core hsched hreset h
    exact ⟨hcore, fun k hk => hworker ▸ hb.worker k (hm.holds k hk), hm.freed.trans hb.freed,
      hunbacked.trans hb.unbacked⟩
  cases ev with
  | schedule stored => exact hb.schedule hkeeps h
  | resetEncoderCache =>
    obtain rfl := Option.some.inj h
    exact ⟨hb.core, fun k hk => absurd rfl hk, rfl, hb.unbacked⟩
  | add | update | finish => exact hother nofun nofun

end Steps

def chunked (policy : SchedulingPolicy) : SchedulerConfig where
  policy := policy
  maxNumRunningReqs := 4
  maxNumScheduledTokens := 8
  longPrefillTokenThreshold := 2
  maxModelLen := 16
  schedulerReserveFullIsl := false

def unit (policy : SchedulingPolicy) (numBlocks : Nat) :
    Except PyError (MmEngine (List TokenId)) := do
  let core ← EngineCore.unit (chunked policy) numBlocks none
  .ok { core, encoder := { cacheSize := 4 }, maxNumEncoderInputTokens := 4,
        ord := ⟨fun _ fs => fs, fun _ _ => .refl _⟩ }

theorem Fresh.unit {policy : SchedulingPolicy} {numBlocks : Nat} {e : MmEngine (List TokenId)}
    (h : MmEngine.unit policy numBlocks = .ok e) : e.Fresh := by
  simp only [MmEngine.unit, except_bind_eq_ok] at h
  obtain ⟨core, hcore, h⟩ := h
  obtain rfl := Except.ok.inj h
  exact ⟨EngineCore.Fresh.unit hcore, rfl, rfl⟩

/-- Six tokens, the last two of which are an image; the request gives way to others. -/
def withImage : MmEvent :=
  .add { requestId := 0, priority := 1, promptTokenIds := [1, 2, 3, 4, 0, 0],
         params := { sampling := EngineCore.upTo 2 Nat.two_pos } }
    [{ identifier := 7, mmPosition := { offset := 4, length := 2 } }] 0

def urgent : MmEvent :=
  .add { requestId := 1, priority := 0, promptTokenIds := [5, 6, 7, 8],
         params := { sampling := EngineCore.upTo 2 Nat.two_pos } } [] 0

def imageScheduled : List MmEvent :=
  [withImage, .schedule fun _ => false, .update (fun _ => 9) {} 0,
    urgent, .schedule fun _ => false, .update (fun _ => 9) {} 0, .schedule fun _ => false]

theorem encoder_kept_image :
    ∃ e₀ e, MmEngine.unit .fcfs 20 = .ok e₀ ∧
      Machine.exec (step EngineCore.unitEnv) e₀ imageScheduled = some e ∧
      Books.Kept (fun _ => 2) 4 ⟨e.encoder, none⟩ := by
  obtain ⟨e₀, e, h₀, hrun, hsize, hnone⟩ : ∃ e₀ e, MmEngine.unit .fcfs 20 = .ok e₀ ∧
      Machine.exec (step EngineCore.unitEnv) e₀ imageScheduled = some e ∧
      e₀.encoder.cacheSize = 4 ∧ ∀ r, e₀.mmFeatures r = [] := ⟨_, _, rfl, rfl, rfl, fun _ => rfl⟩
  refine ⟨e₀, e, h₀, hrun, hsize ▸ encoder_kept (Fresh.unit h₀) ?_ ?_ hrun⟩
  · simp [hnone, MmRequest.Sized]
  · simp [imageScheduled, withImage, urgent, Sized, MmRequest.Sized]
    rfl

end MmEngine

end EldrServing.Encoder
