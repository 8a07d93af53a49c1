import EldrServing.Encoder.Schedule

/-!
# Every entry of the encoder cache has an output

The worker has the output of every entry of the encoder cache, or gets it with the step that is
being built. Choosing inputs and releasing them only removes entries; booking adds an entry
together with its output, unless the step loses it again.
-/

namespace EldrServing.Encoder

set_option autoImplicit false
set_option linter.unusedSectionVars false

open Engine KVCache Nixl Sched Relation

namespace EncoderCacheManager

variable {m m' m'' : EncoderCacheManager} {h : MmHash}

def Holds (m : EncoderCacheManager) (h : MmHash) : Prop := m.cached.get? h ≠ none

/-- Entries may go, and what goes is announced; no entry that stays is. -/
def Shrinks (m m' : EncoderCacheManager) : Prop :=
  ∀ h, m'.Holds h → m.Holds h ∧ (h ∈ m'.freed → h ∈ m.freed)

theorem Shrinks.refl (m : EncoderCacheManager) : m.Shrinks m := fun _ hh => ⟨hh, id⟩

theorem Shrinks.trans (h₁ : m.Shrinks m') (h₂ : m'.Shrinks m'') : m.Shrinks m'' := by
  intro h hh
  obtain ⟨hh', hf'⟩ := h₂ h hh
  obtain ⟨hh'', hf''⟩ := h₁ h hh'
  exact ⟨hh'', hf'' ∘ hf'⟩

theorem holds_of_insert {d : Dict MmHash (Finset ReqId)} {k : MmHash} {refs refs' : Finset ReqId}
    (hk : d.get? k = some refs) (hh : (d.insert k refs').get? h ≠ none) : d.get? h ≠ none :=
  fun hnone => hh (absent_insert hk hnone)

theorem checkAndUpdateCache_shrinks {r : ReqId} {f : MmFeature} {b : Bool}
    (h : m.checkAndUpdateCache r f = .ok (b, m')) : m.Shrinks m' := by
  unfold checkAndUpdateCache at h
  split at h
  · obtain ⟨-, rfl⟩ := ok_pair_inj h
    exact .refl m
  · next refs hrefs =>
    split at h
    · simp only [except_bind_eq_ok, orRaise_eq_ok] at h
      obtain ⟨n, -, h⟩ := h
      obtain ⟨-, rfl⟩ := ok_pair_inj h
      exact fun k hk => ⟨holds_of_insert hrefs hk, id⟩
    · obtain ⟨-, rfl⟩ := ok_pair_inj h
      exact fun k hk => ⟨holds_of_insert hrefs hk, id⟩

theorem evict_shrinks (m : EncoderCacheManager) (k : MmHash) (n : Nat) :
    m.Shrinks (m.evict k n) := by
  intro h hh
  have hne : k ≠ h := by
    rintro rfl
    exact hh (Dict.get?_erase_self)
  refine ⟨fun hnone => hh ((Dict.get?_erase_ne hne).trans hnone), fun hf => ?_⟩
  simpa [evict, observe, hne.symm] using hf

theorem evictLoop_shrinks {numEmbeds : Nat} {es : List (MmHash × Nat)}
    (h : evictLoop numEmbeds es m = .ok m') : m.Shrinks m' := by
  induction es generalizing m with
  | nil =>
    unfold evictLoop at h
    split at h
    · obtain rfl := Except.ok.inj h
      exact .refl m
    · cases h
  | cons e es ih =>
    unfold evictLoop at h
    split at h
    · obtain rfl := Except.ok.inj h
      exact .refl m
    · simp only [except_bind_eq_ok] at h
      obtain ⟨-, -, h⟩ := h
      exact (evict_shrinks m e.1 e.2).trans (ih h)

theorem canAllocate_shrinks {f : MmFeature} {budget scheduled : Nat} {b : Bool}
    (h : m.canAllocate f budget scheduled = .ok (b, m')) : m.Shrinks m' := by
  simp only [canAllocate] at h
  split at h
  · obtain ⟨-, rfl⟩ := ok_pair_inj h
    exact .refl m
  split at h
  · obtain ⟨-, rfl⟩ := ok_pair_inj h
    exact .refl m
  split at h
  · obtain ⟨-, rfl⟩ := ok_pair_inj h
    exact .refl m
  · simp only [except_bind_eq_ok] at h
    obtain ⟨m₁, hm₁, h⟩ := h
    obtain ⟨-, rfl⟩ := ok_pair_inj h
    exact evictLoop_shrinks hm₁

structure SameEntries (m m' : EncoderCacheManager) : Prop where
  holds : ∀ h, m'.Holds h → m.Holds h
  freed : m'.freed = m.freed

theorem SameEntries.refl (m : EncoderCacheManager) : m.SameEntries m := ⟨fun _ => id, rfl⟩

theorem SameEntries.trans (h₁ : m.SameEntries m') (h₂ : m'.SameEntries m'') : m.SameEntries m'' :=
  ⟨fun h hh => h₁.holds h (h₂.holds h hh), h₂.freed.trans h₁.freed⟩

theorem SameEntries.shrinks (hs : m.SameEntries m') : m.Shrinks m' :=
  fun h hh => ⟨hs.holds h hh, fun hf => hs.freed ▸ hf⟩

theorem SameEntries.foldl {α : Type} {g : EncoderCacheManager → α → EncoderCacheManager}
    (hg : ∀ (m : EncoderCacheManager) (a : α), m.SameEntries (g m a)) (as : List α) (m : EncoderCacheManager) :
    m.SameEntries (as.foldl g m) := by
  induction as generalizing m with
  | nil => exact .refl m
  | cons a as ih => exact (hg m a).trans (ih (g m a))

theorem freeEncoderInput_same (m : EncoderCacheManager) (r : ReqId) (f : MmFeature) :
    m.SameEntries (m.freeEncoderInput r f) := by
  simp only [freeEncoderInput]
  split
  · exact .refl m
  next hne =>
  obtain ⟨refs, hrefs⟩ : ∃ refs, m.cached.get? f.identifier = some refs := by
    cases hget : m.cached.get? f.identifier with
    | none => exact absurd (by simp [refs, Dict.getD, hget]) hne
    | some refs => exact ⟨refs, rfl⟩
  split
  · exact ⟨fun k hk => holds_of_insert hrefs hk, rfl⟩
  · exact ⟨fun k hk => holds_of_insert hrefs hk, rfl⟩

theorem free_same (ord : SetOrder) (m : EncoderCacheManager) (request : MmRequest) :
    m.SameEntries (m.free ord request) :=
  .foldl (fun m f => freeEncoderInput_same m request.requestId f) _ m

theorem freePassed_same (ord : SetOrder) (m : EncoderCacheManager) (request : MmRequest)
    (numComputedTokens : Nat) : m.SameEntries (m.freePassed ord request numComputedTokens) := by
  refine .foldl (fun m f => ?_) _ m
  split
  · exact freeEncoderInput_same m request.requestId f
  · exact .refl m

theorem allocate_holds {r : ReqId} {f : MmFeature} (h : m.allocate r f = .ok m') :
    m'.freed = m.freed ∧ ∀ k, m'.Holds k → k = f.identifier ∨ m.Holds k := by
  simp only [allocate, assert_bind_eq_ok] at h
  obtain rfl := Except.ok.inj h.2.2
  refine ⟨rfl, fun k hk => ?_⟩
  rcases eq_or_ne f.identifier k with heq | hne
  · exact .inl heq.symm
  · exact .inr fun hnone => hk ((Dict.get?_insert_ne hne).trans hnone)

end EncoderCacheManager

open EncoderCacheManager

theorem allocateInputs_holds {m m' : EncoderCacheManager} {r : ReqId} {fs : List MmFeature}
    (h : allocateInputs m r fs = .ok m') :
    m'.freed = m.freed ∧ ∀ k, m'.Holds k → k ∈ fs.map MmFeature.identifier ∨ m.Holds k := by
  induction fs generalizing m with
  | nil =>
    obtain rfl := Except.ok.inj h
    exact ⟨rfl, fun _ => .inr⟩
  | cons f fs ih =>
    obtain ⟨m₁, hm₁, hm'⟩ := foldlM_cons_eq_ok.mp h
    obtain ⟨hfreed₁, hholds₁⟩ := allocate_holds hm₁
    obtain ⟨hfreed, hholds⟩ := ih hm'
    refine ⟨hfreed.trans hfreed₁, fun k hk => ?_⟩
    rcases hholds k hk with hmem | hk₁
    · exact .inl (List.mem_cons_of_mem _ hmem)
    · rcases hholds₁ k hk₁ with rfl | hk₀
      · exact .inl List.mem_cons_self
      · exact .inr hk₀

/-! ### What a choice can do -/

section Choice

variable {ctx : ChoiceContext} {request : MmRequest} {r : ReqId} {numNewTokens budget : Nat}
  {c c' : Choice} {m m' : EncoderCacheManager}

theorem chooseLoop_rule {P : Choice → EncoderCacheManager → Prop}
    (hcheck : ∀ c m f b m', P c m → m.checkAndUpdateCache r f = .ok (b, m') → P c m')
    (hcan : ∀ c m f b m', P c m →
      m.canAllocate f c.encoderComputeBudget c.numEmbedsToSchedule = .ok (b, m') → P c m')
    (hstop : ∀ c m f, P c m → f.mmPosition.offset <
      ctx.numComputedTokens + c.numNewTokens + ctx.shiftComputedTokens → P (c.stopBefore ctx f) m)
    (htake : ∀ c m f, P c m → P (c.take ctx f) m) {fs : List MmFeature} (hP : P c m)
    (h : chooseLoop ctx r fs c m = .ok (c', m')) : P c' m' := by
  induction fs generalizing c m with
  | nil =>
    obtain ⟨rfl, rfl⟩ := ok_pair_inj h
    exact hP
  | cons f fs ih =>
    simp only [chooseLoop] at h
    split at h
    · obtain ⟨rfl, rfl⟩ := ok_pair_inj h
      exact hP
    next hbefore =>
    split at h
    · exact ih hP h
    split at h
    · exact ih hP h
    simp only [except_bind_eq_ok, Prod.exists] at h
    obtain ⟨isCached, m₁, hm₁, h⟩ := h
    have hP₁ := hcheck c m f isCached m₁ hP hm₁
    split at h
    · exact ih hP₁ h
    split at h
    · obtain ⟨rfl, rfl⟩ := ok_pair_inj h
      exact hstop c m₁ f hP₁ (not_le.mp hbefore)
    simp only [except_bind_eq_ok, Prod.exists] at h
    obtain ⟨fits, m₂, hm₂, h⟩ := h
    have hP₂ := hcan c m₁ f fits m₂ hP₁ hm₂
    split at h
    · exact ih (htake c m₂ f hP₂) h
    · obtain ⟨rfl, rfl⟩ := ok_pair_inj h
      exact hstop c m₂ f hP₂ (not_le.mp hbefore)

theorem tryScheduleEncoderInputs_shrinks
    (h : tryScheduleEncoderInputs ctx m request numNewTokens budget = .ok (c, m')) :
    m.Shrinks m' := by
  unfold tryScheduleEncoderInputs at h
  split at h
  · obtain ⟨-, rfl⟩ := ok_pair_inj h
    exact .refl m
  · exact chooseLoop_rule (P := fun _ m' => m.Shrinks m')
      (fun _ _ _ _ _ hs hcheck => hs.trans (checkAndUpdateCache_shrinks hcheck))
      (fun _ _ _ _ _ hs hcan => hs.trans (canAllocate_shrinks hcan))
      (fun _ _ _ hs _ => hs) (fun _ _ _ hs => hs) (.refl m) h

theorem Choice.take_numNewTokens (c : Choice) (ctx : ChoiceContext) (f : MmFeature) :
    (c.take ctx f).numNewTokens = c.numNewTokens := by
  unfold Choice.take
  split
  · rfl
  · split <;> rfl

theorem tryScheduleEncoderInputs_numNewTokens
    (h : tryScheduleEncoderInputs ctx m request numNewTokens budget = .ok (c, m')) :
    c.numNewTokens ≤ numNewTokens := by
  unfold tryScheduleEncoderInputs at h
  split at h
  · obtain ⟨rfl, -⟩ := ok_pair_inj h
    exact le_refl _
  · refine chooseLoop_rule (P := fun c _ => c.numNewTokens ≤ numNewTokens)
      (fun _ _ _ _ _ hle _ => hle) (fun _ _ _ _ _ hle _ => hle) ?_ ?_ (le_refl _) h
    · intro c _ f hle hbefore
      simp only [Choice.stopBefore]
      omega
    · intro c _ f hle
      rw [Choice.take_numNewTokens]
      exact hle

theorem tryScheduleEncoderInputs_external
    (h : tryScheduleEncoderInputs ctx m request numNewTokens budget = .ok (c, m')) :
    ∀ f ∈ c.externalLoadEncoderInput, ctx.hasCacheItem f.identifier = true := by
  unfold tryScheduleEncoderInputs at h
  split at h
  · obtain ⟨rfl, -⟩ := ok_pair_inj h
    exact fun _ hf => absurd hf List.not_mem_nil
  · refine chooseLoop_rule
      (P := fun c _ => ∀ f ∈ c.externalLoadEncoderInput, ctx.hasCacheItem f.identifier = true)
      (fun _ _ _ _ _ hext _ => hext) (fun _ _ _ _ _ hext _ => hext) (fun _ _ _ hext _ => hext)
      ?_ (fun _ hf => absurd hf List.not_mem_nil) h
    intro c _ f hext
    unfold Choice.take
    split
    · exact hext
    split
    · next hhas =>
      intro g hg
      rcases List.mem_append.mp hg with hg | hg
      · exact hext g hg
      · rw [List.mem_singleton.mp hg]
        exact hhas
    · exact hext

end Choice

/-! ### What a step does to the encoder cache -/

/-- The changes of the encoder's part of a scheduling step, with the inputs that are chosen and not
yet booked. -/
inductive PassStep (env : EncoderEnv) (policy : SchedulingPolicy) :
    EncoderPass × Option (ReqId × Choice) → EncoderPass × Option (ReqId × Choice) → Prop where
  | choose {p p' r numComputedTokens numNewTokens c}
      (h : p.choose env r numComputedTokens numNewTokens = .ok (c, p')) :
      PassStep env policy (p, none) (p', some (r, c))
  | giveUp {p x} : PassStep env policy (p, x) (p, none)
  | takeBack {p r x} (h : policy = .priority) : PassStep env policy (p, x) (p.takeBack r, x)
  | free {p r x} : PassStep env policy (p, x) (p.free env r, x)
  | book {p p' r c} (hnew : p.scheduledEncoderInputs.get? r = none)
      (h : p.book env r c = .ok p') : PassStep env policy (p, some (r, c)) (p', none)

abbrev PassSteps (env : EncoderEnv) (policy : SchedulingPolicy) := ReflTransGen (PassStep env policy)

namespace EncoderPass

variable {env : EncoderEnv} {policy : SchedulingPolicy} {p p' : EncoderPass} {h : MmHash}
  {r : ReqId} {c : Choice}

theorem mem_brought : h ∈ p.brought ↔
    (∃ r fs, p.scheduledEncoderInputs.get? r = some fs ∧ h ∈ fs.map MmFeature.identifier) ∨
      h ∈ p.mmDatasNeedLoads := by
  simp only [brought, List.mem_append, List.mem_flatMap, Prod.exists, Dict.get?_eq_some_iff]

theorem choose_ok {numComputedTokens numNewTokens : Nat}
    (h : p.choose env r numComputedTokens numNewTokens = .ok (c, p')) :
    p.manager.Shrinks p'.manager ∧ c.numNewTokens ≤ numNewTokens ∧
      (∀ f ∈ c.externalLoadEncoderInput,
        ECConnector.hasCacheItem env.ecConnector f.identifier = true) ∧
      p' = { p with
        manager := p'.manager
        unbacked := p.unbacked ++ p.unbackedInputs env r } := by
  simp only [choose, except_bind_eq_ok, Prod.exists] at h
  obtain ⟨c', m, hm, h⟩ := h
  obtain ⟨rfl, rfl⟩ := ok_pair_inj h
  exact ⟨tryScheduleEncoderInputs_shrinks hm, tryScheduleEncoderInputs_numNewTokens hm,
    tryScheduleEncoderInputs_external hm, rfl⟩

/-- Every entry has its output, and had it whenever the cache was consulted. -/
structure Ok (p : EncoderPass) : Prop where
  backed : ∀ h, p.manager.Holds h → p.Backs h
  unbacked : p.unbacked = []

theorem Backs.shrinks {m : EncoderCacheManager} (hs : p.manager.Shrinks m) (hh : m.Holds h)
    (hb : p.Backs h) : (p.setManager m).Backs h :=
  hb.imp_right fun ⟨hw, hf⟩ => ⟨hw, fun hmem => hf ((hs h hh).2 hmem)⟩

theorem Ok.setManager {m : EncoderCacheManager} (hp : p.Ok) (hs : p.manager.Shrinks m) :
    (p.setManager m).Ok :=
  ⟨fun h hh => (hp.backed h (hs h hh).1).shrinks hs hh, hp.unbacked⟩

theorem Ok.choose {numComputedTokens numNewTokens : Nat} (hp : p.Ok)
    (h : p.choose env r numComputedTokens numNewTokens = .ok (c, p')) : p'.Ok := by
  obtain ⟨hs, -, -, hp'⟩ := choose_ok h
  rw [hp']
  refine ⟨(hp.setManager hs).backed, ?_⟩
  have hnone : p.unbackedInputs env r = [] := by
    refine List.filter_eq_nil_iff.mpr fun h _ => ?_
    simp only [decide_eq_true_eq, not_and, not_not]
    intro hcontains
    exact hp.backed h (Option.isSome_iff_ne_none.mp hcontains)
  rw [hnone, hp.unbacked]
  rfl

theorem Ok.takeBack (hp : p.Ok) (hlost : (p.takeBack r).lost = []) : (p.takeBack r).Ok := by
  have hinputs : p.scheduledEncoderInputs.getD r [] = [] := by
    simpa using (List.append_eq_nil_iff.mp hlost).2
  refine ⟨fun h hh => (hp.backed h hh).imp_left fun hmem => ?_, hp.unbacked⟩
  rw [mem_brought] at hmem ⊢
  refine hmem.imp_left ?_
  rintro ⟨r', fs, hfs, hin⟩
  refine ⟨r', fs, ?_, hin⟩
  rw [show (p.takeBack r).scheduledEncoderInputs = p.scheduledEncoderInputs.erase r from rfl,
    Dict.get?_erase_ne]
  · exact hfs
  · rintro rfl
    rw [Dict.getD, hfs] at hinputs
    simp [show fs = [] from hinputs] at hin

theorem book_ok (h : p.book env r c = .ok p') :
    ∃ m, allocateInputs p.manager r c.inputs = .ok m ∧ p'.manager = m ∧ p'.worker = p.worker ∧
      p'.unbacked = p.unbacked ∧
      p'.mmDatasNeedLoads = p.mmDatasNeedLoads ++
        (c.inputs.map MmFeature.identifier).filter (ECConnector.loads env.ecConnector) ∧
      p'.lost = p.lost ++ (c.externalLoadEncoderInput.map MmFeature.identifier).filter
        (fun h => !ECConnector.loads env.ecConnector h) ∧
      p'.scheduledEncoderInputs =
        if c.encoderInputsToSchedule = [] then p.scheduledEncoderInputs
        else p.scheduledEncoderInputs.insert r c.encoderInputsToSchedule := by
  simp only [book, except_bind_eq_ok] at h
  obtain ⟨m, hm, h⟩ := h
  obtain rfl := Except.ok.inj h
  refine ⟨m, hm, ?_⟩
  split <;> exact ⟨rfl, rfl, rfl, rfl, rfl, rfl⟩

theorem book_brought (hnew : p.scheduledEncoderInputs.get? r = none)
    (hbook : p.book env r c = .ok p') (hlost : p'.lost = []) :
    (∀ h ∈ p.brought, h ∈ p'.brought) ∧
      ∀ h ∈ c.inputs.map MmFeature.identifier, h ∈ p'.brought := by
  obtain ⟨m, -, -, -, -, hloads, hlost', hsched⟩ := book_ok hbook
  constructor
  · intro h hmem
    rw [mem_brought] at hmem ⊢
    rcases hmem with ⟨r', fs, hfs, hin⟩ | hmem
    · refine .inl ⟨r', fs, ?_, hin⟩
      rw [hsched]
      split
      · exact hfs
      · rw [Dict.get?_insert_ne]
        · exact hfs
        · rintro rfl
          rw [hnew] at hfs
          cases hfs
    · rw [hloads]
      exact .inr (List.mem_append_left _ hmem)
  · intro h hmem
    have hmem' := hmem
    rw [Choice.inputs, List.map_append, List.mem_append] at hmem'
    rw [mem_brought]
    rcases hmem' with henc | hext
    · refine .inl ⟨r, c.encoderInputsToSchedule, ?_, henc⟩
      rw [hsched, if_neg]
      · exact Dict.get?_insert_self
      · intro hnil
        simp [hnil] at henc
    · -- the connector loads it, since it is not lost
      rw [hlost', List.append_eq_nil_iff, List.filter_eq_nil_iff] at hlost
      rw [hloads]
      exact .inr (List.mem_append_right _ (List.mem_filter.mpr
        ⟨hmem, by simpa using hlost.2 h hext⟩))

theorem Ok.book (hp : p.Ok) (hnew : p.scheduledEncoderInputs.get? r = none)
    (hbook : p.book env r c = .ok p') (hlost : p'.lost = []) : p'.Ok := by
  obtain ⟨m, hm, hmanager, hworker, hunbacked, -⟩ := book_ok hbook
  obtain ⟨hold, hinputs⟩ := book_brought hnew hbook hlost
  obtain ⟨hfreed, hholds⟩ := allocateInputs_holds hm
  refine ⟨fun h hh => ?_, hunbacked.trans hp.unbacked⟩
  rw [hmanager] at hh
  rcases hholds h hh with hmem | hh
  · exact .inl (hinputs h hmem)
  · refine (hp.backed h hh).imp (hold h) ?_
    rintro ⟨hw, hf⟩
    exact ⟨hworker ▸ hw, by rwa [hmanager, hfreed]⟩

end EncoderPass

section PassSteps

variable {env : EncoderEnv} {policy : SchedulingPolicy}
  {x y : EncoderPass × Option (ReqId × Choice)}

theorem PassStep.frame (h : PassStep env policy x y) :
    (y.1.lost = [] → x.1.lost = []) ∧ y.1.worker = x.1.worker := by
  cases h with
  | choose h =>
    obtain ⟨-, -, -, hp'⟩ := EncoderPass.choose_ok h
    simp only
    rw [hp']
    exact ⟨id, rfl⟩
  | giveUp => exact ⟨id, rfl⟩
  | takeBack => exact ⟨fun h => (List.append_eq_nil_iff.mp h).1, rfl⟩
  | free => exact ⟨id, rfl⟩
  | book hnew h =>
    obtain ⟨m, -, -, hworker, -, -, hlost, -⟩ := EncoderPass.book_ok h
    exact ⟨fun h => (List.append_eq_nil_iff.mp (hlost ▸ h)).1, hworker⟩

theorem PassStep.ok (h : PassStep env policy x y) (hx : x.1.Ok) (hlost : y.1.lost = []) :
    y.1.Ok := by
  cases h with
  | choose h => exact hx.choose h
  | giveUp => exact hx
  | takeBack => exact hx.takeBack hlost
  | free => exact hx.setManager (free_same _ _ _).shrinks
  | book hnew h => exact hx.book hnew h hlost

theorem PassSteps.worker (h : PassSteps env policy x y) : y.1.worker = x.1.worker := by
  induction h with
  | refl => rfl
  | tail _ hstep ih => exact hstep.frame.2.trans ih

theorem PassSteps.ok (h : PassSteps env policy x y) (hx : x.1.Ok) (hlost : y.1.lost = []) :
    y.1.Ok := by
  induction h with
  | refl => exact hx
  | tail _ hstep ih => exact hstep.ok (ih (hstep.frame.1 hlost)) hlost

def FromConnector (env : EncoderEnv) (x : Option (ReqId × Choice)) : Prop :=
  ∀ r c, x = some (r, c) → ∀ f ∈ c.externalLoadEncoderInput,
    ECConnector.hasCacheItem env.ecConnector f.identifier = true

/-- Under FCFS nothing is taken back, so nothing is lost if the connector loads what it has. -/
theorem PassSteps.lost_of_fcfs (hpolicy : policy = .fcfs)
    (hec : ∀ h, ECConnector.hasCacheItem env.ecConnector h = true →
      ECConnector.loads env.ecConnector h = true)
    (h : PassSteps env policy x y) (hx : FromConnector env x.2) :
    y.1.lost = x.1.lost ∧ FromConnector env y.2 := by
  induction h with
  | refl => exact ⟨rfl, hx⟩
  | tail _ hstep ih =>
    obtain ⟨hlost, hfrom⟩ := ih
    cases hstep with
    | choose h =>
      obtain ⟨-, -, hext, hp'⟩ := EncoderPass.choose_ok h
      refine ⟨?_, fun r c hc => ?_⟩
      · rw [hp']
        exact hlost
      · cases hc
        exact hext
    | giveUp => exact ⟨hlost, nofun⟩
    | takeBack h => exact absurd (hpolicy.symm.trans h) (by decide)
    | free => exact ⟨hlost, hfrom⟩
    | @book p p' r c hnew h =>
      obtain ⟨m, -, -, -, -, -, hlost', -⟩ := EncoderPass.book_ok h
      refine ⟨?_, nofun⟩
      have hnone : (c.externalLoadEncoderInput.map MmFeature.identifier).filter
          (fun h => !ECConnector.loads env.ecConnector h) = [] := by
        refine List.filter_eq_nil_iff.mpr fun h hmem => ?_
        obtain ⟨f, hf, rfl⟩ := List.mem_map.mp hmem
        simpa using hec _ (hfrom r c rfl f hf)
      simp only at hlost
      rw [hlost', hnone, List.append_nil, hlost]

end PassSteps

end EldrServing.Encoder
