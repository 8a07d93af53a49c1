import EldrServing.Encoder.CacheManager

/-!
# The accounting of the encoder cache

Inputs with one identifier have one size. The two counters are then what their names say, the
entries without references stand in the order in which they lost the last one, and the inputs the
scheduler has chosen can be booked, whatever is released in between.
-/

namespace EldrServing.Encoder

set_option autoImplicit false

open KVCache (ReqId)

variable {fs : List MmFeature} {request : MmRequest}

namespace EncoderCacheManager

variable {size : MmHash → Nat} {m m' : EncoderCacheManager}

def cachedSize (size : MmHash → Nat) (m : EncoderCacheManager) : Nat :=
  m.cached.sumBy fun h _ => size h

def sizeIfReferenced (size : MmHash → Nat) (h : MmHash) (refs : Finset ReqId) : Nat :=
  if refs = ∅ then 0 else size h

def referencedSize (size : MmHash → Nat) (m : EncoderCacheManager) : Nat :=
  m.cached.sumBy (sizeIfReferenced size)

@[simp] theorem sizeIfReferenced_empty (h : MmHash) : sizeIfReferenced size h ∅ = 0 := if_pos rfl

variable {h : MmHash} {refs : Finset ReqId}

theorem sizeIfReferenced_of_ne (hne : refs ≠ ∅) :
    sizeIfReferenced size h refs = size h := if_neg hne

/-- The entries without references stand in the order in which they lost the last one. -/
structure Queued (m : EncoderCacheManager) : Prop where
  order : m.freeable.keys.Pairwise fun h k => m.unreferencedAt h < m.unreferencedAt k
  past : ∀ h ∈ m.freeable.keys, m.unreferencedAt h < m.clock

structure Accounted (size : MmHash → Nat) (m : EncoderCacheManager) : Prop where
  free : m.numFreeSlots + m.cachedSize size = m.cacheSize
  freeable : m.numFreeableSlots + m.referencedSize size = m.cacheSize
  reclaim : m.numFreeableSlots = m.numFreeSlots + (m.freeable.sumBy fun _ n => n)
  idle : ∀ h n, m.freeable.get? h = some n ↔ m.Idle h ∧ n = size h
  nonneg : 0 ≤ m.numFreeSlots
  queued : m.Queued

/-! ### The order of the queue -/

theorem observe_time_of_idle (hidle : m.Idle h) :
    (m.observe m').unreferencedAt h = m.unreferencedAt h := by
  have hrefs : m.refs h = ∅ := by simp [refs, Dict.getD, show m.cached.get? h = some ∅ from hidle]
  simp [observe, hrefs]

theorem observe_time_of_released (href : m.refs h ≠ ∅)
    (hidle : m'.cached.get? h = some ∅) : (m.observe m').unreferencedAt h = m.clock := by
  simp [observe, href, hidle]

theorem Accounted.idle_of_mem_keys (ha : m.Accounted size)
    (hh : h ∈ m.freeable.keys) : m.Idle h := by
  obtain ⟨n, hn⟩ := Dict.mem_keys_iff.mp hh
  exact ((ha.idle h n).mp hn).1

theorem Accounted.queued_sublist (ha : m.Accounted size)
    (hsub : m'.freeable.keys.Sublist m.freeable.keys) : (m.observe m').Queued where
  order := by
    refine (ha.queued.order.sublist hsub).imp_of_mem ?_
    intro h k hh hk hlt
    rw [observe_time_of_idle (ha.idle_of_mem_keys (hsub.subset hh)),
      observe_time_of_idle (ha.idle_of_mem_keys (hsub.subset hk))]
    exact hlt
  past := by
    intro h hh
    have hmem := hsub.subset hh
    rw [observe_time_of_idle (ha.idle_of_mem_keys hmem)]
    exact Nat.lt_succ_of_lt (ha.queued.past h hmem)

theorem Accounted.queued_append (ha : m.Accounted size) {k : MmHash} (href : m.refs k ≠ ∅)
    (hidle : m'.cached.get? k = some ∅) (hkeys : m'.freeable.keys = m.freeable.keys ++ [k]) :
    (m.observe m').Queued := by
  have hold : ∀ h ∈ m.freeable.keys, (m.observe m').unreferencedAt h < m.clock := by
    intro h hh
    rw [observe_time_of_idle (ha.idle_of_mem_keys hh)]
    exact ha.queued.past h hh
  have hnew := observe_time_of_released href hidle
  have hk : (m.observe m').freeable.keys = m.freeable.keys ++ [k] := hkeys
  constructor
  · rw [hk, List.pairwise_append]
    refine ⟨ha.queued.order.imp_of_mem ?_, List.pairwise_singleton _ _, ?_⟩
    · intro h l hh hl hlt
      rw [observe_time_of_idle (ha.idle_of_mem_keys hh),
        observe_time_of_idle (ha.idle_of_mem_keys hl)]
      exact hlt
    · intro h hh l hl
      rw [List.mem_singleton.mp hl, hnew]
      exact hold h hh
  · intro h hh
    rw [hk, List.mem_append, List.mem_singleton] at hh
    change _ < m.clock + 1
    rcases hh with hh | rfl
    · exact Nat.lt_succ_of_lt (hold h hh)
    · rw [hnew]
      exact Nat.lt_succ_self _

/-! ### What an operation leaves to the inputs chosen before it -/

/-- No space is taken, and what was not cached is not cached now. -/
structure Spares (m m' : EncoderCacheManager) : Prop where
  cacheSize : m'.cacheSize = m.cacheSize
  room : m.numFreeSlots ≤ m'.numFreeSlots
  absent : ∀ h, m.cached.get? h = none → m'.cached.get? h = none

theorem Spares.refl (m : EncoderCacheManager) : m.Spares m := ⟨rfl, le_refl _, fun _ h => h⟩

theorem Spares.trans {m'' : EncoderCacheManager} (h : m.Spares m') (h' : m'.Spares m'') :
    m.Spares m'' :=
  ⟨h'.cacheSize.trans h.cacheSize, h.room.trans h'.room, fun k hk => h'.absent k (h.absent k hk)⟩

/-! ### The operations keep the accounts -/

theorem absent_insert {d : Dict MmHash (Finset ReqId)} {k : MmHash} {r : Finset ReqId}
    (hh : d.get? h = some refs) (hk : d.get? k = none) : (d.insert h r).get? k = none := by
  rw [Dict.get?_insert_ne (by rintro rfl; rw [hh] at hk; cases hk)]
  exact hk

theorem Accounted.insert_refs (ha : m.Accounted size) {refs' : Finset ReqId}
    (hh : m.cached.get? h = some refs) (hne : refs ≠ ∅) (hne' : refs' ≠ ∅) :
    (m.observe { m with cached := m.cached.insert h refs' }).Accounted size where
  free := by
    have hsum := Dict.sumBy_insert_of_some (fun h _ => size h) hh refs'
    have hfree := ha.free
    simp only [observe, cachedSize] at hfree ⊢
    omega
  freeable := by
    have hsum := Dict.sumBy_insert_of_some (sizeIfReferenced size) hh refs'
    have hfreeable := ha.freeable
    rw [sizeIfReferenced_of_ne hne, sizeIfReferenced_of_ne hne'] at hsum
    simp only [observe, referencedSize] at hfreeable ⊢
    omega
  reclaim := ha.reclaim
  idle := by
    intro k n
    refine (ha.idle k n).trans (and_congr_left fun _ => ?_)
    simp only [Idle, observe, Dict.get?_insert]
    by_cases hk : h = k
    · subst hk
      simp [hh, hne, hne']
    · simp [hk]
  nonneg := ha.nonneg
  queued := ha.queued_sublist (List.Sublist.refl _)

theorem Accounted.revive (ha : m.Accounted size) (hidle : m.Idle h) (hne : refs ≠ ∅) :
    (m.observe { m with
      freeable := m.freeable.erase h
      numFreeableSlots := m.numFreeableSlots - size h
      cached := m.cached.insert h refs }).Accounted size where
  free := by
    have hsum := Dict.sumBy_insert_of_some (fun h _ => size h) hidle refs
    have hfree := ha.free
    simp only [observe, cachedSize] at hfree ⊢
    omega
  freeable := by
    have hsum := Dict.sumBy_insert_of_some (sizeIfReferenced size) hidle refs
    have hfreeable := ha.freeable
    rw [sizeIfReferenced_empty, sizeIfReferenced_of_ne hne] at hsum
    simp only [observe, referencedSize] at hfreeable ⊢
    omega
  reclaim := by
    have hsum := Dict.sumBy_erase_of_some (fun _ n => n) ((ha.idle h _).mpr ⟨hidle, rfl⟩)
    have hreclaim := ha.reclaim
    simp only [observe]
    omega
  idle := by
    intro k n
    simp only [Idle, observe, Dict.get?_insert, Dict.get?_erase]
    by_cases hk : h = k
    · simp [hk, hne]
    · simpa [hk, Idle] using ha.idle k n
  nonneg := ha.nonneg
  queued := by
    apply ha.queued_sublist
    rw [show (m.freeable.erase h).keys = _ from Dict.keys_erase _ _]
    exact List.filter_sublist

theorem Accounted.evict (ha : m.Accounted size) (hidle : m.Idle h) :
    (m.evict h (size h)).Accounted size where
  free := by
    have hsum := Dict.sumBy_erase_of_some (fun h _ => size h) hidle
    have hfree := ha.free
    simp only [EncoderCacheManager.evict, observe, cachedSize] at hfree ⊢
    omega
  freeable := by
    have hsum := Dict.sumBy_erase_of_some (sizeIfReferenced size) hidle
    have hfreeable := ha.freeable
    rw [sizeIfReferenced_empty] at hsum
    simp only [EncoderCacheManager.evict, observe, referencedSize] at hfreeable ⊢
    omega
  reclaim := by
    have hsum := Dict.sumBy_erase_of_some (fun _ n => n) ((ha.idle h _).mpr ⟨hidle, rfl⟩)
    have hreclaim := ha.reclaim
    simp only [EncoderCacheManager.evict, observe]
    omega
  idle := by
    intro k n
    simp only [Idle, EncoderCacheManager.evict, observe, Dict.get?_erase]
    by_cases hk : h = k
    · simp [hk]
    · simpa [hk, Idle] using ha.idle k n
  nonneg := by
    have hnonneg := ha.nonneg
    simp only [EncoderCacheManager.evict, observe]
    omega
  queued := by
    apply ha.queued_sublist
    rw [show (m.freeable.erase h).keys = _ from Dict.keys_erase _ _]
    exact List.filter_sublist

theorem Accounted.release (ha : m.Accounted size)
    (hh : m.cached.get? h = some refs) (hne : refs ≠ ∅) :
    (m.observe { m with
      cached := m.cached.insert h ∅
      freeable := m.freeable.insert h (size h)
      numFreeableSlots := m.numFreeableSlots + size h }).Accounted size := by
  have hnone : m.freeable.get? h = none := by
    cases hn : m.freeable.get? h with
    | none => rfl
    | some n =>
      have hidle : m.cached.get? h = some ∅ := ((ha.idle h n).mp hn).1
      rw [hh] at hidle
      exact absurd (Option.some.inj hidle) hne
  constructor
  case free =>
    have hsum := Dict.sumBy_insert_of_some (fun h _ => size h) hh ∅
    have hfree := ha.free
    simp only [observe, cachedSize] at hfree ⊢
    omega
  case freeable =>
    have hsum := Dict.sumBy_insert_of_some (sizeIfReferenced size) hh ∅
    have hfreeable := ha.freeable
    rw [sizeIfReferenced_empty, sizeIfReferenced_of_ne hne] at hsum
    simp only [observe, referencedSize] at hfreeable ⊢
    omega
  case reclaim =>
    have hsum := Dict.sumBy_insert_of_none (fun _ n => n) hnone (size h)
    have hreclaim := ha.reclaim
    simp only [observe]
    omega
  case idle =>
    intro k n
    simp only [Idle, observe, Dict.get?_insert]
    by_cases hk : h = k
    · simp [hk, eq_comm]
    · simpa [hk, Idle] using ha.idle k n
  case nonneg => exact ha.nonneg
  case queued =>
    apply ha.queued_append (k := h)
    · simpa [EncoderCacheManager.refs, Dict.getD, hh] using hne
    · exact Dict.get?_insert_self
    · exact Dict.keys_insert_of_none hnone _

theorem Accounted.book (ha : m.Accounted size)
    (hh : m.cached.get? h = none) (hne : refs ≠ ∅) (hroom : (size h : Int) ≤ m.numFreeSlots) :
    (m.observe { m with
      cached := m.cached.insert h refs
      numFreeSlots := m.numFreeSlots - size h
      numFreeableSlots := m.numFreeableSlots - size h }).Accounted size where
  free := by
    have hsum := Dict.sumBy_insert_of_none (fun h _ => size h) hh refs
    have hfree := ha.free
    simp only [observe, cachedSize] at hfree ⊢
    omega
  freeable := by
    have hsum := Dict.sumBy_insert_of_none (sizeIfReferenced size) hh refs
    have hfreeable := ha.freeable
    rw [sizeIfReferenced_of_ne hne] at hsum
    simp only [observe, referencedSize] at hfreeable ⊢
    omega
  reclaim := by
    have hreclaim := ha.reclaim
    simp only [observe]
    omega
  idle := by
    intro k n
    refine (ha.idle k n).trans (and_congr_left fun _ => ?_)
    simp only [Idle, observe, Dict.get?_insert]
    by_cases hk : h = k
    · subst hk
      simp [hh, hne]
    · simp [hk]
  nonneg := by
    simp only [observe]
    omega
  queued := ha.queued_sublist (List.Sublist.refl _)

theorem Accounted.checkAndUpdateCache (ha : m.Accounted size) (r : ReqId) (f : MmFeature) :
    ∃ b m', m.checkAndUpdateCache r f = .ok (b, m') ∧ m'.Accounted size ∧ m.Spares m' ∧
      (b = false → m'.cached.get? f.identifier = none) := by
  unfold EncoderCacheManager.checkAndUpdateCache
  cases hh : m.cached.get? f.identifier with
  | none => exact ⟨false, m, rfl, ha, .refl m, fun _ => hh⟩
  | some refs =>
    have hspare : ∀ k, m.cached.get? k = none →
        (m.cached.insert f.identifier (insert r refs)).get? k = none :=
      fun k hk => absent_insert hh hk
    by_cases hne : refs = ∅
    · subst hne
      have hn := (ha.idle f.identifier _).mpr ⟨hh, rfl⟩
      refine ⟨true, _, ?_, ha.revive hh (Finset.insert_ne_empty r ∅), ⟨rfl, le_refl _, hspare⟩,
        nofun⟩
      simp only [if_pos, hn]
      rfl
    · refine ⟨true, _, by simp only [if_neg hne], ha.insert_refs hh hne
        (Finset.insert_ne_empty r refs), ⟨rfl, le_refl _, hspare⟩, nofun⟩

theorem Spares.evict (m : EncoderCacheManager) (h : MmHash) (n : Nat) : m.Spares (m.evict h n) where
  cacheSize := rfl
  room := by
    simp only [EncoderCacheManager.evict, observe]
    omega
  absent := by
    intro k hk
    simp only [EncoderCacheManager.evict, observe, Dict.get?_erase, hk, ite_self]

/-- With enough space to reclaim, the eviction loop makes the room and does not raise. -/
theorem Accounted.evictLoop {numEmbeds : Nat} {es : List (MmHash × Nat)} (ha : m.Accounted size)
    (hes : m.freeable.entries = es) (hroom : (numEmbeds : Int) ≤ m.numFreeableSlots) :
    ∃ m', EncoderCacheManager.evictLoop numEmbeds es m = .ok m' ∧ m'.Accounted size ∧
      m.Spares m' ∧ (numEmbeds : Int) ≤ m'.numFreeSlots := by
  -- The list is what is left of the queue, so the loop cannot run past its end.
  induction es generalizing m with
  | nil =>
    have hreclaim := ha.reclaim
    have hfits : (numEmbeds : Int) ≤ m.numFreeSlots := by
      simp only [Dict.sumBy, hes, List.map_nil, List.sum_nil] at hreclaim
      omega
    exact ⟨m, if_pos hfits, ha, .refl m, hfits⟩
  | cons e es ih =>
    obtain ⟨h, n⟩ := e
    unfold EncoderCacheManager.evictLoop
    by_cases hfits : (numEmbeds : Int) ≤ m.numFreeSlots
    · exact ⟨m, if_pos hfits, ha, .refl m, hfits⟩
    · have hn : m.freeable.get? h = some n :=
        (Dict.get?_eq_some_iff _ _ _).mpr (by simp [hes])
      obtain ⟨hidle, rfl⟩ := (ha.idle h n).mp hn
      obtain ⟨m', hm', ha', hs, hr⟩ :=
        ih (ha.evict hidle) (Dict.entries_erase_head hes) hroom
      refine ⟨m', ?_, ha', (Spares.evict m h (size h)).trans hs, hr⟩
      rw [if_neg hfits, show m.cached.get? h = some ∅ from hidle]
      exact hm'

/-- `can_allocate` does not raise, and what it accepts fits beside the inputs chosen before. -/
theorem Accounted.canAllocate (ha : m.Accounted size) (f : MmFeature) (budget scheduled : Nat) :
    ∃ b m', m.canAllocate f budget scheduled = .ok (b, m') ∧ m'.Accounted size ∧ m.Spares m' ∧
      (b = true → ((f.numEmbeds + scheduled : Nat) : Int) ≤ m'.numFreeSlots) := by
  unfold EncoderCacheManager.canAllocate
  by_cases hbudget : budget < f.numEmbeds
  · exact ⟨false, m, if_pos hbudget, ha, .refl m, nofun⟩
  rw [if_neg hbudget]
  by_cases hfree : ((f.numEmbeds + scheduled : Nat) : Int) ≤ m.numFreeSlots
  · exact ⟨true, m, if_pos hfree, ha, .refl m, fun _ => hfree⟩
  by_cases hfull : m.numFreeableSlots < ((f.numEmbeds + scheduled : Nat) : Int)
  · refine ⟨false, m, ?_, ha, .refl m, nofun⟩
    simp only [if_neg hfree, if_pos hfull]
  · obtain ⟨m', hm', ha', hs, hr⟩ := ha.evictLoop rfl (not_lt.mp hfull)
    refine ⟨true, m', ?_, ha', hs, fun _ => hr⟩
    simp only [if_neg hfree, if_neg hfull, hm']
    rfl

theorem Accounted.freeEncoderInput (ha : m.Accounted size) (r : ReqId) {f : MmFeature}
    (hf : f.numEmbeds = size f.identifier) :
    (m.freeEncoderInput r f).Accounted size ∧ m.Spares (m.freeEncoderInput r f) := by
  unfold EncoderCacheManager.freeEncoderInput
  by_cases hempty : m.refs f.identifier = ∅
  · rw [if_pos hempty]
    exact ⟨ha, .refl m⟩
  rw [if_neg hempty]
  obtain ⟨refs, hh, hne⟩ : ∃ refs, m.cached.get? f.identifier = some refs ∧ refs ≠ ∅ := by
    cases hh : m.cached.get? f.identifier with
    | none => exact absurd (by simp [refs, Dict.getD, hh]) hempty
    | some refs =>
      refine ⟨refs, rfl, ?_⟩
      simpa [EncoderCacheManager.refs, Dict.getD, hh] using hempty
  have hspare : ∀ refs' k, m.cached.get? k = none →
      (m.cached.insert f.identifier refs').get? k = none :=
    fun _ _ hk => absent_insert hh hk
  by_cases hlast : (m.refs f.identifier).erase r = ∅
  · simp only [hlast, if_pos, hf]
    exact ⟨ha.release hh hne, ⟨rfl, le_refl _, hspare ∅⟩⟩
  · simp only [if_neg hlast]
    exact ⟨ha.insert_refs hh hne hlast, ⟨rfl, le_refl _, hspare _⟩⟩

theorem Accounted.foldl {g : EncoderCacheManager → MmFeature → EncoderCacheManager}
    (ha : m.Accounted size)
    (hg : ∀ m f, m.Accounted size → f ∈ fs → (g m f).Accounted size ∧ m.Spares (g m f)) :
    (fs.foldl g m).Accounted size ∧ m.Spares (fs.foldl g m) := by
  induction fs generalizing m with
  | nil => exact ⟨ha, .refl m⟩
  | cons f fs ih =>
    obtain ⟨ha₁, hs₁⟩ := hg m f ha List.mem_cons_self
    obtain ⟨ha₂, hs₂⟩ := ih ha₁ fun m f hm hf => hg m f hm (List.mem_cons_of_mem _ hf)
    exact ⟨ha₂, hs₁.trans hs₂⟩

end EncoderCacheManager

def MmRequest.Sized (size : MmHash → Nat) (request : MmRequest) : Prop :=
  ∀ f ∈ request.mmFeatures, f.numEmbeds = size f.identifier

namespace EncoderCacheManager

variable {size : MmHash → Nat} {m m' : EncoderCacheManager}

theorem mem_of_mem_order {ord : SetOrder} {f : MmFeature}
    (hf : f ∈ ord.order request (m.getCachedInputIds request)) : f ∈ request.mmFeatures :=
  List.mem_of_mem_filter ((ord.perm _ _).mem_iff.mp hf)

theorem Accounted.free_request (ha : m.Accounted size) (ord : SetOrder) (hr : request.Sized size) :
    (m.free ord request).Accounted size ∧ m.Spares (m.free ord request) := by
  apply ha.foldl
  intro m f hm hf
  exact hm.freeEncoderInput _ (hr f (mem_of_mem_order hf))

theorem Accounted.freePassed (ha : m.Accounted size) (ord : SetOrder)
    (hr : request.Sized size) (numComputedTokens : Nat) :
    (m.freePassed ord request numComputedTokens).Accounted size ∧
      m.Spares (m.freePassed ord request numComputedTokens) := by
  apply ha.foldl
  intro m f hm hf
  split
  · exact hm.freeEncoderInput _ (hr f (mem_of_mem_order hf))
  · exact ⟨hm, .refl m⟩

theorem Accounted.init (size : MmHash → Nat) (cacheSize : Nat) :
    Accounted size { cacheSize } where
  free := by simp [cachedSize, Dict.sumBy, Dict.empty]
  freeable := by simp [referencedSize, Dict.sumBy, Dict.empty]
  reclaim := by simp [Dict.sumBy, Dict.empty]
  idle := by simp [Idle]
  nonneg := Int.natCast_nonneg _
  queued := ⟨List.Pairwise.nil, nofun⟩

theorem Accounted.reset (ha : m.Accounted size) : m.reset.Accounted size where
  free := by simp [EncoderCacheManager.reset, observe, cachedSize, Dict.sumBy, Dict.empty]
  freeable := by simp [EncoderCacheManager.reset, observe, referencedSize, Dict.sumBy, Dict.empty]
  reclaim := by simp [EncoderCacheManager.reset, observe, Dict.sumBy, Dict.empty]
  idle := by simp [EncoderCacheManager.reset, observe, Idle]
  nonneg := Int.natCast_nonneg _
  queued := ha.queued_sublist (List.nil_sublist _)

/-! ### The chosen inputs can be booked -/

/-- The inputs are not cached, differ from each other, and there is room for all of them. -/
structure Fits (size : MmHash → Nat) (m : EncoderCacheManager) (fs : List MmFeature) : Prop where
  sized : ∀ f ∈ fs, f.numEmbeds = size f.identifier
  distinct : (fs.map MmFeature.identifier).Nodup
  absent : ∀ f ∈ fs, m.cached.get? f.identifier = none
  room : ((fs.map MmFeature.numEmbeds).sum : Int) ≤ m.numFreeSlots

theorem Fits.spares (h : m.Fits size fs) (hs : m.Spares m') :
    m'.Fits size fs :=
  ⟨h.sized, h.distinct, fun f hf => hs.absent _ (h.absent f hf), h.room.trans hs.room⟩

theorem Fits.perm {gs : List MmFeature} (h : m.Fits size fs) (hp : fs.Perm gs) :
    m.Fits size gs where
  sized f hf := h.sized f (hp.mem_iff.mpr hf)
  distinct := (hp.map _).nodup_iff.mp h.distinct
  absent f hf := h.absent f (hp.mem_iff.mpr hf)
  room := by
    rw [← (hp.map MmFeature.numEmbeds).sum_eq]
    exact h.room

theorem Fits.nil (ha : m.Accounted size) : m.Fits size [] :=
  ⟨nofun, List.nodup_nil, nofun, ha.nonneg⟩

/-- The assertions of `allocate` hold for an input that fits, and the other inputs still fit. -/
theorem Accounted.allocate (ha : m.Accounted size) (r : ReqId) {f : MmFeature}
    (hfits : m.Fits size (f :: fs)) :
    ∃ m', m.allocate r f = .ok m' ∧ m'.Accounted size ∧ m'.Fits size fs := by
  have hf := hfits.sized f List.mem_cons_self
  have hnone := hfits.absent f List.mem_cons_self
  have hroom := hfits.room
  simp only [List.map_cons, List.sum_cons] at hroom
  have hfree : (f.numEmbeds : Int) ≤ m.numFreeSlots := by omega
  have hfreeable : (f.numEmbeds : Int) ≤ m.numFreeableSlots := by
    have hreclaim := ha.reclaim
    omega
  refine ⟨_, ?_, ha.book hnone (Finset.insert_ne_empty r (m.refs f.identifier)) (hf ▸ hfree), ?_⟩
  · refine assert_bind_eq_ok.mpr ⟨hfree, assert_bind_eq_ok.mpr ⟨hfreeable, ?_⟩⟩
    rw [hf]
  · have hdistinct := List.nodup_cons.mp hfits.distinct
    refine ⟨fun g hg => hfits.sized g (List.mem_cons_of_mem _ hg), hdistinct.2, ?_, ?_⟩
    · intro g hg
      have hne : f.identifier ≠ g.identifier := by
        intro heq
        exact hdistinct.1 (heq ▸ List.mem_map_of_mem hg)
      simp only [observe, Dict.get?_insert_ne hne]
      exact hfits.absent g (List.mem_cons_of_mem _ hg)
    · simp only [observe]
      omega

theorem Accounted.allocateInputs (ha : m.Accounted size) (r : ReqId) (hfits : m.Fits size fs) :
    ∃ m', allocateInputs m r fs = .ok m' ∧ m'.Accounted size := by
  induction fs generalizing m with
  | nil => exact ⟨m, rfl, ha⟩
  | cons f fs ih =>
    obtain ⟨m₁, hm₁, ha₁, hfits₁⟩ := ha.allocate r hfits
    obtain ⟨m₂, hm₂, ha₂⟩ := ih ha₁ hfits₁
    exact ⟨m₂, foldlM_cons_eq_ok.mpr ⟨m₁, hm₁, hm₂⟩, ha₂⟩

end EncoderCacheManager

open EncoderCacheManager

structure Choice.Ok (size : MmHash → Nat) (m : EncoderCacheManager) (c : Choice) : Prop where
  fits : m.Fits size c.inputs
  noted : ∀ f ∈ c.inputs, f.identifier ∈ c.mmHashesToSchedule
  total : c.numEmbedsToSchedule = (c.inputs.map MmFeature.numEmbeds).sum

namespace Choice

variable {size : MmHash → Nat} {m m' : EncoderCacheManager} {c c' : Choice} {f : MmFeature}

theorem Ok.spares (h : c.Ok size m) (hs : m.Spares m') : c.Ok size m' :=
  ⟨h.fits.spares hs, h.noted, h.total⟩

theorem Ok.add (h : c.Ok size m) (hf : f.numEmbeds = size f.identifier)
    (hnew : f.identifier ∉ c.mmHashesToSchedule) (hnone : m.cached.get? f.identifier = none)
    (hroom : ((f.numEmbeds + c.numEmbedsToSchedule : Nat) : Int) ≤ m.numFreeSlots)
    (hinputs : (f :: c.inputs).Perm c'.inputs)
    (hhashes : c'.mmHashesToSchedule = f.identifier :: c.mmHashesToSchedule)
    (htotal : c'.numEmbedsToSchedule = c.numEmbedsToSchedule + f.numEmbeds) : c'.Ok size m := by
  have hfits : m.Fits size (f :: c.inputs) := by
    refine ⟨List.forall_mem_cons.mpr ⟨hf, h.fits.sized⟩, ?_,
      List.forall_mem_cons.mpr ⟨hnone, h.fits.absent⟩, ?_⟩
    · refine List.nodup_cons.mpr ⟨?_, h.fits.distinct⟩
      intro hmem
      obtain ⟨g, hg, heq⟩ := List.mem_map.mp hmem
      exact hnew (heq ▸ h.noted g hg)
    · rw [List.map_cons, List.sum_cons, ← h.total]
      exact hroom
  constructor
  · exact hfits.perm hinputs
  · intro g hg
    rw [hhashes]
    rcases List.mem_cons.mp (hinputs.mem_iff.mpr hg) with rfl | hg
    · exact List.mem_cons_self
    · exact List.mem_cons_of_mem _ (h.noted g hg)
  · rw [← (hinputs.map MmFeature.numEmbeds).sum_eq, List.map_cons, List.sum_cons, htotal, h.total,
      Nat.add_comm]

theorem Ok.take (h : c.Ok size m) (ctx : ChoiceContext) (hf : f.numEmbeds = size f.identifier)
    (hnew : f.identifier ∉ c.mmHashesToSchedule) (hnone : m.cached.get? f.identifier = none)
    (hroom : ((f.numEmbeds + c.numEmbedsToSchedule : Nat) : Int) ≤ m.numFreeSlots) :
    (c.take ctx f).Ok size m := by
  unfold Choice.take
  split
  · exact h
  split
  · refine h.add hf hnew hnone hroom ?_ rfl rfl
    simp only [inputs, loadExternally, ← List.append_assoc]
    exact (List.perm_append_singleton f _).symm
  · refine h.add hf hnew hnone hroom ?_ rfl rfl
    simp only [inputs, scheduleInput, List.append_assoc, List.singleton_append]
    exact List.perm_middle.symm

end Choice

variable {size : MmHash → Nat} {m : EncoderCacheManager}

/-- The loop does not raise, and what it chooses can be booked. -/
theorem chooseLoop_ok (ctx : ChoiceContext) (r : ReqId) {c : Choice}
    (hfs : ∀ f ∈ fs, f.numEmbeds = size f.identifier) (ha : m.Accounted size) (hc : c.Ok size m) :
    ∃ c' m', chooseLoop ctx r fs c m = .ok (c', m') ∧ m'.Accounted size ∧
      m'.cacheSize = m.cacheSize ∧ c'.Ok size m' := by
  induction fs generalizing c m with
  | nil => exact ⟨c, m, rfl, ha, rfl, hc⟩
  | cons f fs ih =>
    obtain ⟨hf, hfs⟩ := List.forall_mem_cons.mp hfs
    unfold chooseLoop
    simp only
    split
    · exact ⟨c, m, rfl, ha, rfl, hc⟩
    split
    · exact ih hfs ha hc
    split
    · exact ih hfs ha hc
    rename_i hnew
    obtain ⟨b, m₁, hm₁, ha₁, hs₁, hnone⟩ := ha.checkAndUpdateCache r f
    have hc₁ := hc.spares hs₁
    rw [hm₁]
    cases b with
    | true =>
      obtain ⟨c', m', hm', ha', hsize, hc'⟩ := ih hfs ha₁ hc₁
      exact ⟨c', m', hm', ha', hsize.trans hs₁.cacheSize, hc'⟩
    | false =>
      simp only [bind, Except.bind, Bool.false_eq_true, if_false]
      split
      · exact ⟨_, m₁, rfl, ha₁, hs₁.cacheSize, hc₁.fits, hc₁.noted, hc₁.total⟩
      obtain ⟨b, m₂, hm₂, ha₂, hs₂, hroom⟩ :=
        ha₁.canAllocate f c.encoderComputeBudget c.numEmbedsToSchedule
      have hc₂ := hc₁.spares hs₂
      have hsize₂ := (hs₁.trans hs₂).cacheSize
      rw [hm₂]
      cases b with
      | true =>
        obtain ⟨c', m', hm', ha', hsize, hc'⟩ := ih hfs ha₂
          (hc₂.take ctx hf hnew (hs₂.absent _ (hnone rfl)) (hroom rfl))
        exact ⟨c', m', hm', ha', hsize.trans hsize₂, hc'⟩
      | false => exact ⟨_, m₂, rfl, ha₂, hsize₂, hc₂.fits, hc₂.noted, hc₂.total⟩

theorem tryScheduleEncoderInputs_ok (ctx : ChoiceContext)
    (hr : request.Sized size) (ha : m.Accounted size) (numNewTokens budget : Nat) :
    ∃ c m', tryScheduleEncoderInputs ctx m request numNewTokens budget = .ok (c, m') ∧
      m'.Accounted size ∧ m'.cacheSize = m.cacheSize ∧ m'.Fits size c.inputs := by
  have hstart : Choice.Ok size m
      { numNewTokens := numNewTokens, encoderComputeBudget := budget } :=
    ⟨.nil ha, nofun, rfl⟩
  unfold tryScheduleEncoderInputs
  split
  · exact ⟨_, m, rfl, ha, rfl, hstart.fits⟩
  · obtain ⟨c, m', hm', ha', hsize, hc⟩ := chooseLoop_ok ctx request.requestId hr ha hstart
    exact ⟨c, m', hm', ha', hsize, hc.fits⟩

/-! ### Every sequence of operations of the scheduler -/

/-- The manager, and the inputs that are chosen and not yet booked, with their request. -/
structure Books where
  manager : EncoderCacheManager
  chosen : Option (MmRequest × List MmFeature) := none

/-- The operations the scheduler issues. Between choosing the inputs of a request and booking them
it allocates KV blocks, where it may preempt requests and may give the request up. -/
inductive CacheEvent where
  | choose (ctx : ChoiceContext) (request : MmRequest) (numNewTokens encoderComputeBudget : Nat)
  | book
  | giveUp
  | free (request : MmRequest)
  | freePassed (request : MmRequest) (numComputedTokens : Nat)
  | getFreedMmHashes
  | reset

def CacheEvent.Sized (size : MmHash → Nat) : CacheEvent → Prop
  | choose _ request _ _ | free request | freePassed request _ => request.Sized size
  | _ => True

namespace Books

variable (ord : SetOrder) {cacheSize : Nat} {b : Books} {ev : CacheEvent}

def init (cacheSize : Nat) : Books := { manager := { cacheSize } }

/-- The inputs of one request at a time are chosen, and the cache is not reset within a step. -/
def Enabled (b : Books) : CacheEvent → Prop
  | .choose .. | .reset => b.chosen.isNone
  | .book => b.chosen.isSome
  | _ => True

instance (b : Books) : (ev : CacheEvent) → Decidable (b.Enabled ev)
  | .choose .. | .reset => inferInstanceAs (Decidable (b.chosen.isNone = true))
  | .book => inferInstanceAs (Decidable (b.chosen.isSome = true))
  | .giveUp | .free _ | .freePassed .. | .getFreedMmHashes => inferInstanceAs (Decidable True)

def apply (b : Books) : CacheEvent → Except PyError Books
  | .choose ctx request numNewTokens budget => do
    let (c, m) ← tryScheduleEncoderInputs ctx b.manager request numNewTokens budget
    .ok { manager := m, chosen := some (request, c.inputs) }
  | .book =>
    match b.chosen with
    | none => .ok b
    | some (request, fs) => do
      let m ← allocateInputs b.manager request.requestId fs
      .ok { manager := m }
  | .giveUp => .ok { b with chosen := none }
  | .free request => .ok { b with manager := b.manager.free ord request }
  | .freePassed request n => .ok { b with manager := b.manager.freePassed ord request n }
  | .getFreedMmHashes => .ok { b with manager := b.manager.getFreedMmHashes.2 }
  | .reset => .ok { b with manager := b.manager.reset }

def step (b : Books) (ev : CacheEvent) : Option Books :=
  if b.Enabled ev then (b.apply ord ev).toOption else none

structure Kept (size : MmHash → Nat) (cacheSize : Nat) (b : Books) : Prop where
  accounted : b.manager.Accounted size
  cacheSize : b.manager.cacheSize = cacheSize
  fits : ∀ request fs, b.chosen = some (request, fs) → b.manager.Fits size fs

theorem Kept.spares (hk : b.Kept size cacheSize) (hm : m.Accounted size)
    (hs : b.manager.Spares m) : Kept size cacheSize { b with manager := m } :=
  ⟨hm, hs.cacheSize.trans hk.cacheSize, fun request fs h => (hk.fits request fs h).spares hs⟩

theorem allocate_cacheSize {m m' : EncoderCacheManager} {r : ReqId} {f : MmFeature}
    (h : m.allocate r f = .ok m') : m'.cacheSize = m.cacheSize := by
  simp only [EncoderCacheManager.allocate, assert_bind_eq_ok] at h
  obtain rfl := Except.ok.inj h.2.2
  rfl

theorem allocateInputs_cacheSize {m m' : EncoderCacheManager} {r : ReqId}
    (h : allocateInputs m r fs = .ok m') : m'.cacheSize = m.cacheSize := by
  induction fs generalizing m with
  | nil =>
    obtain rfl := Except.ok.inj h
    rfl
  | cons f fs ih =>
    obtain ⟨m₁, hm₁, hm'⟩ := foldlM_cons_eq_ok.mp h
    exact (ih hm').trans (allocate_cacheSize hm₁)

theorem Kept.apply (hk : b.Kept size cacheSize) (hev : ev.Sized size) (hon : b.Enabled ev) :
    ∃ b', b.apply ord ev = .ok b' ∧ b'.Kept size cacheSize := by
  cases ev with
  | choose ctx request numNewTokens budget =>
    obtain ⟨c, m, hm, ha, hsize, hfits⟩ :=
      tryScheduleEncoderInputs_ok ctx hev hk.accounted numNewTokens budget
    refine ⟨{ manager := m, chosen := some (request, c.inputs) }, ?_, ha,
      hsize.trans hk.cacheSize, ?_⟩
    · exact except_bind_eq_ok.mpr ⟨_, hm, rfl⟩
    · intro request' fs h
      cases h
      exact hfits
  | book =>
    obtain ⟨⟨request, fs⟩, hchosen⟩ := Option.isSome_iff_exists.mp hon
    obtain ⟨m, hm, ha⟩ :=
      hk.accounted.allocateInputs request.requestId (hk.fits request fs hchosen)
    refine ⟨{ manager := m }, ?_, ha, (allocateInputs_cacheSize hm).trans hk.cacheSize, nofun⟩
    simp only [Books.apply, hchosen]
    exact except_bind_eq_ok.mpr ⟨m, hm, rfl⟩
  | giveUp => exact ⟨_, rfl, hk.accounted, hk.cacheSize, nofun⟩
  | free request =>
    obtain ⟨ha, hs⟩ := hk.accounted.free_request ord hev
    exact ⟨_, rfl, hk.spares ha hs⟩
  | freePassed request n =>
    obtain ⟨ha, hs⟩ := hk.accounted.freePassed ord hev n
    exact ⟨_, rfl, hk.spares ha hs⟩
  | getFreedMmHashes =>
    have ha := hk.accounted
    exact ⟨_, rfl, ⟨ha.free, ha.freeable, ha.reclaim, ha.idle, ha.nonneg, ha.queued.order,
      ha.queued.past⟩, hk.cacheSize, fun request fs h =>
        let hf := hk.fits request fs h
        ⟨hf.sized, hf.distinct, hf.absent, hf.room⟩⟩
  | reset =>
    refine ⟨_, rfl, hk.accounted.reset, hk.cacheSize, ?_⟩
    intro request fs h
    exact absurd hon (by simp [Enabled, show b.chosen = _ from h])

theorem kept_init (size : MmHash → Nat) (cacheSize : Nat) :
    (init cacheSize).Kept size cacheSize where
  accounted := .init size cacheSize
  cacheSize := rfl
  fits := by
    intro request fs h
    cases h

variable {ord} in
theorem Kept.exec {evs : List CacheEvent} (hevs : ∀ ev ∈ evs, ev.Sized size)
    (hrun : Machine.exec (step ord) (init cacheSize) evs = some b) : b.Kept size cacheSize := by
  refine Machine.exec_invariant_along (C := fun _ ev => ev.Sized size) ?_
    (kept_init size cacheSize) (Machine.Along.of_mem hevs) hrun
  intro b ev b' hk hev hb
  unfold step at hb
  split at hb
  · rename_i hon
    obtain ⟨b₁, hb₁, hk₁⟩ := hk.apply ord hev hon
    rw [hb₁] at hb
    obtain rfl := Option.some.inj hb
    exact hk₁
  · cases hb

/-- In every state the scheduler can bring the encoder cache to, both counters are the capacity
less the entries they are to count, `freeable` holds the entries without references in the order
in which they lost the last one, and no operation raises: booking the chosen inputs, in
particular, passes the assertions of `allocate`. -/
theorem encoderCache_accounting (ord : SetOrder) (size : MmHash → Nat) (cacheSize : Nat)
    {evs : List CacheEvent} (hevs : ∀ ev ∈ evs, ev.Sized size) {b : Books}
    (hrun : Machine.exec (step ord) (init cacheSize) evs = some b) :
    b.manager.numFreeSlots = cacheSize - b.manager.cachedSize size ∧
    b.manager.numFreeableSlots = cacheSize - b.manager.referencedSize size ∧
    (∀ h n, b.manager.freeable.get? h = some n ↔ b.manager.Idle h ∧ n = size h) ∧
    b.manager.freeable.keys.Pairwise
      (fun h k => b.manager.unreferencedAt h < b.manager.unreferencedAt k) ∧
    0 ≤ b.manager.numFreeSlots ∧
    b.manager.numFreeSlots ≤ b.manager.numFreeableSlots ∧
    b.manager.numFreeableSlots ≤ cacheSize ∧
    ∀ ev, ev.Sized size → b.Enabled ev → ∃ b', b.apply ord ev = .ok b' := by
  have hk := Kept.exec hevs hrun
  have ha := hk.accounted
  have hfree := ha.free
  have hfreeable := ha.freeable
  have hreclaim := ha.reclaim
  rw [hk.cacheSize] at hfree hfreeable
  refine ⟨by omega, by omega, ha.idle, ha.queued.order, ha.nonneg, by omega, by omega, ?_⟩
  intro ev hev hon
  obtain ⟨b', hb', -⟩ := hk.apply ord hev hon
  exact ⟨b', hb'⟩

/-- Two requests share the input `1`; the first one's other input is evicted for the second. -/
theorem encoderCache_accounting_shared :
    let input (h offset : Nat) : MmFeature :=
      { identifier := h, mmPosition := { offset := offset, length := 4 } }
    let first : MmRequest := { requestId := 0, mmFeatures := [input 1 0, input 2 4] }
    let second : MmRequest := { requestId := 1, mmFeatures := [input 1 0, input 3 4] }
    ∃ b, Machine.exec (step ⟨fun _ fs => fs, fun _ _ => .refl _⟩) (init 8)
        [.choose { numComputedTokens := 0 } first 8 8, .book, .free first,
          .choose { numComputedTokens := 0 } second 8 8] = some b ∧
      b.manager.freed = [2] ∧
      b.manager.numFreeSlots = 8 - b.manager.cachedSize (fun _ => 4) ∧
      ∃ b', b.apply ⟨fun _ fs => fs, fun _ _ => .refl _⟩ .book = .ok b' := by
  intro input first second
  obtain ⟨b, hb, hfreed, hon⟩ : ∃ b, Machine.exec (step ⟨fun _ fs => fs, fun _ _ => .refl _⟩)
      (init 8) [.choose { numComputedTokens := 0 } first 8 8, .book, .free first,
        .choose { numComputedTokens := 0 } second 8 8] = some b ∧
      b.manager.freed = [2] ∧ b.Enabled .book := ⟨_, rfl, rfl, rfl⟩
  have hevs : ∀ ev ∈ [CacheEvent.choose { numComputedTokens := 0 } first 8 8, .book, .free first,
      .choose { numComputedTokens := 0 } second 8 8], ev.Sized fun _ => 4 := by
    simp [CacheEvent.Sized, MmRequest.Sized, first, second, input, MmFeature.numEmbeds,
      PlaceholderRange.getNumEmbeds]
  obtain ⟨hfree, -, -, -, -, -, -, hok⟩ := encoderCache_accounting _ (fun _ => 4) 8 hevs hb
  exact ⟨b, hb, hfreed, hfree, hok .book trivial hon⟩

end Books

end EldrServing.Encoder
