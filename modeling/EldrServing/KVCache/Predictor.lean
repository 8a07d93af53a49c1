import EldrServing.KVCache.Accounting
import EldrServing.KVCache.Groups

/-!
# The allocation predictor

`get_num_blocks_to_allocate` predicts how many free blocks `allocate_slots` takes. When the
prediction fits, the allocation goes through and every table gets the blocks it needs; when it
does not, only blocks outside the attention window have been given back.
-/

namespace EldrServing.KVCache

set_option autoImplicit false
set_option linter.unusedSectionVars false

open Machine SingleTypeKVCacheManager

variable {κ : Type} [DecidableEq κ]

/-! ### The number of free blocks -/

section Free

variable {p p' : BlockPool κ} {refs refs' : Nat → Nat} {bs : List Nat}

theorem PoolInv.getNumFreeBlocks_eq (h : PoolInv p refs) : p.getNumFreeBlocks =
    (List.range p.numGpuBlocks).countP fun b => b ≠ p.nullBlock ∧ refs b = 0 := by
  obtain ⟨ids, hthr, hids⟩ := h.free
  have hperm : ids.Perm ((List.range p.numGpuBlocks).filter fun b =>
      b ≠ p.nullBlock ∧ refs b = 0) := by
    refine (List.perm_ext_iff_of_nodup hthr.nodup (List.nodup_range.filter _)).mpr fun b => ?_
    simp only [hids b, List.mem_filter, List.mem_range, decide_eq_true_iff]
    tauto
  rw [BlockPool.getNumFreeBlocks, hthr.length_eq, List.countP_eq_length_filter, hperm.length_eq]

theorem countP_le_add_of_nodup {l : List Nat} (hl : l.Nodup) (q : Nat → Bool) (bs : List Nat) :
    l.countP q ≤ l.countP (fun b => q b && !bs.contains b) + bs.countP q := by
  have hsplit : l.countP q =
      l.countP (fun b => q b && !bs.contains b) + l.countP (fun b => q b && bs.contains b) := by
    induction l with
    | nil => rfl
    | cons a l ih =>
      simp only [List.countP_cons, ih (List.nodup_cons.mp hl).2]
      cases q a <;> cases bs.contains a <;> simp <;> omega
  have hsub : l.countP (fun b => q b && bs.contains b) ≤ bs.countP q := by
    rw [List.countP_eq_length_filter, List.countP_eq_length_filter]
    refine (List.subperm_of_subset (hl.filter _) ?_).length_le
    intro b hb
    obtain ⟨-, hq⟩ := List.mem_filter.mp hb
    rw [Bool.and_eq_true, List.contains_iff_mem] at hq
    exact List.mem_filter.mpr ⟨hq.2, hq.1⟩
  omega

theorem PoolInv.free_le_of_refs (h : PoolInv p refs)
    (h' : PoolInv p' fun b => refs b + bs.count b) (hsame : SamePool p p') :
    p.getNumFreeBlocks - bs.countP (fun b => b ≠ p.nullBlock ∧ refs b = 0) ≤
      p'.getNumFreeBlocks := by
  rw [h.getNumFreeBlocks_eq, h'.getNumFreeBlocks_eq, hsame.numGpuBlocks, hsame.nullBlock]
  have hcount := countP_le_add_of_nodup (List.nodup_range (n := p.numGpuBlocks))
    (fun b => decide (b ≠ p.nullBlock ∧ refs b = 0)) bs
  have hmono : (List.range p.numGpuBlocks).countP (fun b =>
        decide (b ≠ p.nullBlock ∧ refs b = 0) && !bs.contains b) ≤
      (List.range p.numGpuBlocks).countP fun b =>
        b ≠ p.nullBlock ∧ refs b + bs.count b = 0 := by
    refine List.countP_mono_left fun b _ hb => ?_
    simp only [Bool.and_eq_true, decide_eq_true_iff, Bool.not_eq_true', List.contains_eq_mem,
      decide_eq_false_iff_not] at hb
    simpa [hb.1.1, hb.1.2, List.count_eq_zero] using hb.2
  omega

theorem PoolInv.getNumEvictableBlocks_eq (h : PoolInv p refs) (bs : List Nat) :
    getNumEvictableBlocks p bs = bs.countP fun b => b ≠ p.nullBlock ∧ refs b = 0 := by
  refine List.countP_congr fun b _ => ?_
  simp only [decide_eq_true_iff]
  by_cases hb : b = p.nullBlock
  · simp [hb, (h.isNull_iff p.nullBlock).mpr rfl]
  · simp [hb, h.isNull_eq_false hb, h.refCnt_eq b hb]

/-- The pool in the course of an allocation: no reference is given back. -/
def Taking (p : BlockPool κ) (refs : Nat → Nat) (s : BlockPool κ) : Prop :=
  SamePool p s ∧ ∃ held, PoolInv s held ∧ ∀ b, refs b ≤ held b

theorem Taking.evictable_le {s : BlockPool κ} (h : PoolInv p refs) (hs : Taking p refs s)
    (bs : List Nat) : getNumEvictableBlocks s bs ≤ getNumEvictableBlocks p bs := by
  obtain ⟨hsame, held, hinv, hle⟩ := hs
  rw [h.getNumEvictableBlocks_eq, hinv.getNumEvictableBlocks_eq, hsame.nullBlock]
  refine List.countP_mono_left fun b _ hb => ?_
  simp only [decide_eq_true_iff] at hb ⊢
  have := hle b
  exact ⟨hb.1, by omega⟩

end Free

/-! ### One manager -/

section Manager

variable {m : SingleTypeKVCacheManager} {p s : BlockPool κ} {refs : Nat → Nat} {rid : ReqId}
  {hits : List Nat} {loc ext total numTokens : Nat}

theorem Taking.getNewBlocks (hs : Taking p refs s) {n : Nat} (hn : n ≤ s.getNumFreeBlocks) :
    ∃ bs t, s.getNewBlocks n = .ok (bs, t) ∧ bs.length = n ∧ Taking p refs t ∧
      s.getNumFreeBlocks - n ≤ t.getNumFreeBlocks := by
  obtain ⟨hsame, held, hinv, hle⟩ := hs
  obtain ⟨bs, t, hget, hlen, hnew⟩ := hinv.getNewBlocks_total hn
  refine ⟨bs, t, hget, hlen, ⟨hsame.trans hnew.same, _, hnew.inv, fun b => ?_⟩, ?_⟩
  · have := hle b
    omega
  · have hfree := hinv.free_le_of_refs hnew.inv hnew.same
    have hall := List.countP_le_length (p := fun b => decide (b ≠ s.nullBlock ∧ held b = 0))
      (l := bs)
    omega

theorem Taking.touchHits (h : PoolInv p refs) (hs : Taking p refs s) {bs : List Nat}
    (hlt : ∀ b ∈ bs, b < p.numGpuBlocks) (hcaching : p.enableCaching = true ∨ bs = []) :
    ∃ t, touchHits s bs = .ok t ∧ Taking p refs t ∧
      s.getNumFreeBlocks - getNumEvictableBlocks p bs ≤ t.getNumFreeBlocks := by
  have hevict := hs.evictable_le h bs
  obtain ⟨hsame, held, hinv, hle⟩ := hs
  have hlt' : ∀ b ∈ bs, b < s.numGpuBlocks := by
    rw [hsame.numGpuBlocks]
    exact hlt
  obtain ⟨t, htouch⟩ : ∃ t, SingleTypeKVCacheManager.touchHits s bs = .ok t := by
    unfold SingleTypeKVCacheManager.touchHits
    rw [hsame.enableCaching]
    rcases hcaching with hcaching | rfl
    · obtain ⟨t, ht, -⟩ := hinv.touch_total hlt'
      exact ⟨t, by rw [if_pos hcaching, ht]⟩
    · split
      · exact ⟨s, rfl⟩
      · exact ⟨s, rfl⟩
  obtain ⟨hinv', hsame', -⟩ := touchHits_account hinv hlt' htouch
  refine ⟨t, htouch, ⟨hsame.trans hsame', _, hinv', fun b => ?_⟩, ?_⟩
  · have := hle b
    omega
  · have hfree := hinv.free_le_of_refs hinv' hsame'
    rw [← hinv.getNumEvictableBlocks_eq] at hfree
    omega

def startLength (spec : KVCacheSpec) (hits : List Nat) (total : Nat) : Nat :=
  max (spec.getNumSkippedTokens total / spec.blockSize) hits.length

theorem length_computedTable (m : SingleTypeKVCacheManager) (null total : Nat) (hits : List Nat) :
    (computedTable m null total hits).length = startLength m.spec hits total := by
  simp only [computedTable, List.length_append, List.length_replicate, List.length_drop,
    startLength]
  omega

/-- The table length that `allocate_new_computed_blocks` leaves. -/
def computedLength (m : SingleTypeKVCacheManager) (rid : ReqId) (hits : List Nat)
    (loc ext : Nat) : Nat :=
  if m.numCachedBlock.contains rid then (m.blocksOf rid).length
  else if 0 < numExternalTokens m.spec loc ext then cdiv (loc + ext) m.spec.blockSize
  else startLength m.spec hits (loc + ext)

/-- The free blocks that `allocate_new_computed_blocks` may take. -/
def computedDemand (m : SingleTypeKVCacheManager) (p : BlockPool κ) (rid : ReqId)
    (hits : List Nat) (loc ext : Nat) : Nat :=
  if m.numCachedBlock.contains rid then 0
  else getNumEvictableBlocks p
      (hits.drop (m.spec.getNumSkippedTokens (loc + ext) / m.spec.blockSize)) +
    (computedLength m rid hits loc ext - startLength m.spec hits (loc + ext))

structure Given (m : SingleTypeKVCacheManager) (p : BlockPool κ) (rid : ReqId) (hits : List Nat)
    (loc : Nat) : Prop where
  cached : m.numCachedBlock.contains rid = true → hits = []
  fresh : m.numCachedBlock.contains rid = false → m.blocksOf rid = []
  valid : HitsValid p m.spec loc hits
  caching : p.enableCaching = true ∨ hits = []

theorem Given.startLength_le (hg : Given m p rid hits loc) (ext : Nat) :
    startLength m.spec hits (loc + ext) ≤ cdiv (loc + ext) m.spec.blockSize := by
  rw [← length_computedTable m 0]
  exact computedTable_length_le m 0 hg.valid.length_le

theorem Taking.allocateNewComputedBlocks (h : PoolInv p refs) (hs : Taking p refs s)
    (hg : Given m p rid hits loc)
    (hfree : computedDemand m p rid hits loc ext ≤ s.getNumFreeBlocks) :
    ∃ m' t, m.allocateNewComputedBlocks s rid hits loc ext = .ok (m', t) ∧ Taking p refs t ∧
      s.getNumFreeBlocks - computedDemand m p rid hits loc ext ≤ t.getNumFreeBlocks ∧
      (m'.spec, (m'.blocksOf rid).length) = (m.spec, computedLength m rid hits loc ext) := by
  by_cases hc : m.numCachedBlock.contains rid = true
  · refine ⟨m, s, ?_, hs, ?_, ?_⟩
    · simp [SingleTypeKVCacheManager.allocateNewComputedBlocks, hc, hg.cached hc, assert, bind,
        Except.bind]
    · simp [computedDemand, hc]
    · simp [computedLength, hc]
  · have hnil := hg.fresh (by simpa using hc)
    have hstart := hg.startLength_le ext
    obtain ⟨kept, hkept⟩ : ∃ kept,
      kept = hits.drop (m.spec.getNumSkippedTokens (loc + ext) / m.spec.blockSize) := ⟨_, rfl⟩
    have hdemand : computedDemand m p rid hits loc ext = getNumEvictableBlocks p kept +
        (computedLength m rid hits loc ext - startLength m.spec hits (loc + ext)) := by
      rw [computedDemand, if_neg hc, hkept]
    have hlt : ∀ b ∈ kept, b < p.numGpuBlocks := fun b hb =>
      hg.valid.lt b (List.mem_of_mem_drop (hkept ▸ hb))
    have hcaching : p.enableCaching = true ∨ kept = [] :=
      hg.caching.imp_right fun hempty => by rw [hkept, hempty, List.drop_nil]
    obtain ⟨q, htouch, hq, hqfree⟩ := hs.touchHits h hlt hcaching
    obtain ⟨table, htab⟩ : ∃ table,
      table = computedTable m q.nullBlock (loc + ext) hits := ⟨_, rfl⟩
    have htable : table.length = startLength m.spec hits (loc + ext) :=
      htab ▸ length_computedTable m q.nullBlock (loc + ext) hits
    rw [computedTable, ← hkept] at htab
    unfold SingleTypeKVCacheManager.allocateNewComputedBlocks
    rw [if_neg hc]
    simp only [hnil, ← hkept, assert, if_true, bind, Except.bind, htouch, ← htab]
    by_cases hext : 0 < numExternalTokens m.spec loc ext
    · have hlen : computedLength m rid hits loc ext = cdiv (loc + ext) m.spec.blockSize := by
        rw [computedLength, if_neg hc, if_pos hext]
      obtain ⟨bs, t, hget, hbs, ht, hleft⟩ := hq.getNewBlocks
        (n := cdiv (loc + ext) m.spec.blockSize - startLength m.spec hits (loc + ext)) (by
          rw [hlen] at hdemand
          omega)
      rw [Int.ofNat_sub hstart, ← htable] at hget
      refine ⟨{ m.setBlocks rid table with
        numCachedBlock := m.numCachedBlock.insert rid table.length }.setBlocks rid (table ++ bs),
        t, ?_, ht, by omega, ?_⟩
      · rw [if_pos (show 0 < numExternalTokens (m.setBlocks rid table).spec loc ext from hext)]
        simp only [show (m.setBlocks rid table).spec = m.spec from rfl, hget]
      · rw [blocksOf_setBlocks_self, List.length_append, htable, hbs, hlen]
        refine Prod.ext rfl ?_
        simp only
        omega
    · have hlen : computedLength m rid hits loc ext = startLength m.spec hits (loc + ext) := by
        rw [computedLength, if_neg hc, if_neg hext]
      refine ⟨_, q, if_neg hext, hq, by omega, ?_⟩
      refine Prod.ext rfl ?_
      rw [hlen, ← htable]
      simp [setBlocks, blocksOf, Dict.getD]

theorem Taking.allocateNewBlocks (hs : Taking p refs s)
    (hfree : ((cdiv numTokens m.spec.blockSize - (m.blocksOf rid).length : Nat) : Int) ≤
      s.getNumFreeBlocks) :
    ∃ r t, m.allocateNewBlocks s rid numTokens = .ok (r, t) ∧ Taking p refs t ∧
      s.getNumFreeBlocks - (cdiv numTokens m.spec.blockSize - (m.blocksOf rid).length : Nat) ≤
        t.getNumFreeBlocks ∧
      (r.2.spec, (r.2.blocksOf rid).length) =
        (m.spec, max (m.blocksOf rid).length (cdiv numTokens m.spec.blockSize)) := by
  unfold SingleTypeKVCacheManager.allocateNewBlocks
  simp only
  by_cases hle : (cdiv numTokens m.spec.blockSize : Int) - (m.blocksOf rid).length ≤ 0
  · rw [if_pos hle]
    refine ⟨_, s, rfl, hs, by omega, ?_⟩
    rw [blocksOf_setBlocks_self]
    refine Prod.ext rfl ?_
    simp only
    omega
  · rw [if_neg hle]
    obtain ⟨bs, t, hget, hlen, ht, hleft⟩ := hs.getNewBlocks hfree
    refine ⟨(bs, m.setBlocks rid (m.blocksOf rid ++ bs)), t, ?_, ht, hleft, ?_⟩
    · rw [show (cdiv numTokens m.spec.blockSize : Int) - (m.blocksOf rid).length =
        ((cdiv numTokens m.spec.blockSize - (m.blocksOf rid).length : Nat) : Int) by omega, hget]
      rfl
    · rw [blocksOf_setBlocks_self, List.length_append, hlen]
      refine Prod.ext rfl ?_
      simp only
      omega

def predicted (m : SingleTypeKVCacheManager) (p : BlockPool κ) (rid : ReqId) (numTokens : Nat)
    (hits : List Nat) (total : Nat) : Nat :=
  let numSkipped := m.spec.getNumSkippedTokens total / m.spec.blockSize
  let numReqBlocks := (m.blocksOf rid).length
  if m.numCachedBlock.contains rid then cdiv numTokens m.spec.blockSize - numReqBlocks
  else cdiv numTokens m.spec.blockSize - max numSkipped (hits.length + numReqBlocks) +
    getNumEvictableBlocks p (hits.drop (numSkipped - numReqBlocks))

theorem getNumBlocksToAllocate_ok (hcached : m.numCachedBlock.contains rid = true → hits = [])
    (numTokens total : Nat) (cap : Bool) :
    ∃ n, m.getNumBlocksToAllocate p rid numTokens hits total cap = .ok n := by
  unfold SingleTypeKVCacheManager.getNumBlocksToAllocate
  by_cases hc : m.numCachedBlock.contains rid = true
  · simp only [hc, if_true, hcached hc, assert, bind, Except.bind]
    exact ⟨_, rfl⟩
  · simp only [if_neg hc]
    exact ⟨_, rfl⟩

theorem getNumBlocksToAllocate_eq (hcached : m.numCachedBlock.contains rid = true → hits = [])
    (numTokens total : Nat) : m.getNumBlocksToAllocate p rid numTokens hits total false =
      .ok (predicted m p rid numTokens hits total) := by
  unfold SingleTypeKVCacheManager.getNumBlocksToAllocate predicted
  by_cases hc : m.numCachedBlock.contains rid = true
  · simp only [hc, if_true, hcached hc, assert, bind, Except.bind]
    cases m.spec.maxAdmissionBlocksPerRequest <;> rfl
  · simp only [if_neg hc]
    cases m.spec.maxAdmissionBlocksPerRequest <;> rfl

theorem Given.predicted_eq (hg : Given m p rid hits loc)
    (hle : cdiv (loc + ext) m.spec.blockSize ≤ cdiv numTokens m.spec.blockSize) :
    predicted m p rid numTokens hits (loc + ext) = computedDemand m p rid hits loc ext +
      (cdiv numTokens m.spec.blockSize - computedLength m rid hits loc ext) := by
  have hstart := hg.startLength_le ext
  by_cases hc : m.numCachedBlock.contains rid = true
  · simp only [predicted, computedDemand, computedLength, hc, if_true]
    omega
  · have hnil := hg.fresh (by simpa using hc)
    simp only [predicted, computedDemand, computedLength, if_neg hc, hnil, List.length_nil,
      Nat.sub_zero, Nat.add_zero]
    rw [← startLength]
    split <;> omega

theorem Given.max_computedLength (hg : Given m p rid hits loc)
    (hle : cdiv (loc + ext) m.spec.blockSize ≤ cdiv numTokens m.spec.blockSize) :
    max (computedLength m rid hits loc ext) (cdiv numTokens m.spec.blockSize) =
      max (m.blocksOf rid).length (cdiv numTokens m.spec.blockSize) := by
  have hstart := hg.startLength_le ext
  by_cases hc : m.numCachedBlock.contains rid = true
  · rw [computedLength, if_pos hc]
  · rw [computedLength, if_neg hc, hg.fresh (by simpa using hc), List.length_nil]
    split <;> omega

theorem predicted_eq_of_covered {computed : Nat}
    (hcovered : computed ≤ (m.blocksOf rid).length * m.spec.blockSize) :
    predicted m p rid numTokens [] computed =
      cdiv numTokens m.spec.blockSize - (m.blocksOf rid).length := by
  have hskip : m.spec.getNumSkippedTokens computed / m.spec.blockSize ≤
      (m.blocksOf rid).length := by
    apply Nat.div_le_of_le_mul
    rw [Nat.mul_comm]
    exact (m.spec.getNumSkippedTokens_le computed).trans hcovered
  unfold predicted
  simp only
  split
  · rfl
  · rw [List.length_nil, Nat.zero_add, Nat.max_eq_right hskip, List.drop_nil]
    rfl

end Manager

/-! ### Skipped blocks -/

section Skipped

variable {m m' : SingleTypeKVCacheManager} {p t : BlockPool κ} {rid : ReqId} {total : Nat}

theorem length_skipLoop (null i : Nat) (blocks : List Nat) :
    (skipLoop null i blocks).2.length = blocks.length := by
  induction i generalizing blocks with
  | zero => rfl
  | succ i ih =>
    rw [skipLoop]
    split
    · rfl
    · split
      · rfl
      · rw [ih, List.length_set]

theorem mem_skipLoop {null i b : Nat} {blocks : List Nat} (h : b ∈ (skipLoop null i blocks).1) :
    ∃ j < i, blocks[j]? = some b := by
  induction i generalizing blocks with
  | zero => simp [skipLoop] at h
  | succ i ih =>
    rw [skipLoop] at h
    split at h
    · simp at h
    · rename_i a hget
      split at h
      · simp at h
      · rcases List.mem_cons.mp h with rfl | h
        · exact ⟨i, Nat.lt_succ_self i, hget⟩
        · obtain ⟨j, hj, hb⟩ := ih h
          rw [List.getElem?_set_ne (by omega)] at hb
          exact ⟨j, by omega, hb⟩

theorem foldl_addRef_of_notMem {bs : List Nat} {b : Nat} (hb : b ∉ bs) (d : Int) :
    ∀ p : BlockPool κ, (bs.foldl (fun p b => p.addRef b d) p).blocks b = p.blocks b := by
  induction bs with
  | nil => exact fun p => rfl
  | cons a bs ih =>
    intro p
    rw [List.mem_cons, not_or] at hb
    rw [List.foldl_cons, ih hb.2]
    simp [BlockPool.addRef, BlockPool.setBlock, Function.update_of_ne hb.1]

theorem foldl_addRef_frame (bs : List Nat) (d : Int) : ∀ p : BlockPool κ,
    (bs.foldl (fun p b => p.addRef b d) p).cachedBlockHashToBlock = p.cachedBlockHashToBlock ∧
    (bs.foldl (fun p b => p.addRef b d) p).nullBlock = p.nullBlock ∧
    ∀ b, (bs.foldl (fun p b => p.addRef b d) p).hashOf b = p.hashOf b := by
  induction bs with
  | nil => exact fun p => ⟨rfl, rfl, fun _ => rfl⟩
  | cons a bs ih =>
    intro p
    obtain ⟨hcache, hnull, hhash⟩ := ih (p.addRef a d)
    exact ⟨hcache, hnull, fun b => (hhash b).trans (BlocksInv.addRef_hashOf p a b d)⟩

theorem freeBlocks_frame {bs : List Nat} (h : p.freeBlocks bs = .ok t) :
    t.cachedBlockHashToBlock = p.cachedBlockHashToBlock ∧ t.nullBlock = p.nullBlock ∧
      (∀ b, t.hashOf b = p.hashOf b) ∧ ∀ b, b ∉ bs → t.blocks b = p.blocks b := by
  simp only [BlockPool.freeBlocks, except_bind_eq_ok] at h
  obtain ⟨queue, -, hok⟩ := h
  obtain rfl := Except.ok.inj hok
  obtain ⟨hcache, hnull, hhash⟩ := foldl_addRef_frame bs (-1) p
  exact ⟨hcache, hnull, hhash, fun b hb => foldl_addRef_of_notMem hb (-1) p⟩

/-- The blocks of one request that the attention no longer reads were replaced by the null block,
or some of them. -/
structure SkipsBlocks (null : Nat) (rid : ReqId) (total : Nat) (m m' : SingleTypeKVCacheManager) :
    Prop where
  spec : m'.spec = m.spec
  numCachedBlock : m'.numCachedBlock = m.numCachedBlock
  others : ∀ r, r ≠ rid → m'.blocksOf r = m.blocksOf r
  length : (m'.blocksOf rid).length = (m.blocksOf rid).length
  entry : ∀ i : Nat, (m'.blocksOf rid)[i]? = (m.blocksOf rid)[i]? ∨
    (i + 1) * m.spec.blockSize ≤ m.spec.getNumSkippedTokens total ∧
      (m'.blocksOf rid)[i]? = some null

theorem SkipsBlocks.refl (null : Nat) (rid : ReqId) (total : Nat) (m : SingleTypeKVCacheManager) :
    SkipsBlocks null rid total m m :=
  ⟨rfl, rfl, fun _ _ => rfl, rfl, fun _ => Or.inl rfl⟩

theorem skipsBlocks_of_removeSkippedBlocks
    (h : m.removeSkippedBlocks p rid total = .ok (m', t)) :
    SkipsBlocks p.nullBlock rid total m m' := by
  rcases removeSkippedBlocks_ok h with ⟨-, rfl, -⟩ | ⟨n, hn, rfl, -⟩
  · exact SkipsBlocks.refl _ rid total m'
  · refine ⟨rfl, rfl, fun r hr => blocksOf_setBlocks_ne m _ hr, ?_, fun i => ?_⟩
    · rw [blocksOf_setBlocks_self, length_skipLoop]
    · rw [blocksOf_setBlocks_self]
      refine (skipLoop_getElem? p.nullBlock n i (m.blocksOf rid)).imp_right fun h => ⟨?_, h.2⟩
      exact (Nat.le_div_iff_mul_le m.spec.blockSize_pos).mp (by omega)

/-- Between the two states only blocks outside the attention window of the request were given
back. -/
structure OnlySkipped (k k' : KVCacheManager κ) (rid : ReqId) (total : Nat) : Prop where
  tables : List.Forall₂ (SkipsBlocks k.blockPool.nullBlock rid total) k.singleTypeManagers
    k'.singleTypeManagers
  blocks : ∀ b, (∀ m ∈ k.singleTypeManagers, ∀ i : Nat, (m.blocksOf rid)[i]? = some b →
      m.spec.getNumSkippedTokens total < (i + 1) * m.spec.blockSize) →
    k'.blockPool.blocks b = k.blockPool.blocks b
  hashes : ∀ b, (k'.blockPool.blocks b).blockHash = (k.blockPool.blocks b).blockHash
  cache : k'.blockPool.cachedBlockHashToBlock = k.blockPool.cachedBlockHashToBlock

theorem OnlySkipped.refl (k : KVCacheManager κ) (rid : ReqId) (total : Nat) :
    OnlySkipped k k rid total :=
  ⟨List.forall₂_same.mpr fun m _ => SkipsBlocks.refl _ rid total m, fun _ _ => rfl, fun _ => rfl,
    rfl⟩

theorem KVInv.removeSkippedBlocks_total {k : KVCacheManager κ} (hk : KVInv k) (rid : ReqId)
    (total : Nat) : ∃ ms pool,
      k.removeSkippedBlocks rid total =
        .ok { k with singleTypeManagers := ms, blockPool := pool } ∧
      OnlySkipped k { k with singleTypeManagers := ms, blockPool := pool } rid total := by
  obtain ⟨ms, pool, hmap⟩ := mapState_account_total
    (f := fun m pool => m.removeSkippedBlocks pool rid total)
    (I := fun s c => PoolInv s c ∧ s.nullBlock = k.blockPool.nullBlock)
    (w := fun m => m.refs) (v := fun m => m.refs)
    (P := fun m => TablesOk k.blockPool.nullBlock m) (c := fun _ => 0)
    (fun m s c hP hI => by
      obtain ⟨m', t, hok, -, hinv, hsame, -⟩ :=
        SingleTypeKVCacheManager.removeSkippedBlocks_total rid total hI.1 (hI.2.symm ▸ hP)
      exact ⟨m', t, hok, hinv, hsame.nullBlock.trans hI.2⟩)
    hk.tables ⟨hk.pool.congr_refs fun b => by simp [refsOf], rfl⟩
  refine ⟨ms, pool, ?_, ?_⟩
  · rw [KVCacheManager.removeSkippedBlocks, KVCacheManager.forManagers, hmap]
    rfl
  · obtain ⟨htables, -, hcache, hhash, hblocks⟩ := mapState_relates
      (R := SkipsBlocks k.blockPool.nullBlock rid total)
      (P := fun m => m ∈ k.singleTypeManagers)
      (J := fun s => s.nullBlock = k.blockPool.nullBlock ∧
        s.cachedBlockHashToBlock = k.blockPool.cachedBlockHashToBlock ∧
        (∀ b, s.hashOf b = k.blockPool.hashOf b) ∧
        ∀ b, (∀ m ∈ k.singleTypeManagers, ∀ i : Nat, (m.blocksOf rid)[i]? = some b →
          m.spec.getNumSkippedTokens total < (i + 1) * m.spec.blockSize) →
          s.blocks b = k.blockPool.blocks b)
      (fun m s m' t hm hJ hok => by
        have hskips := skipsBlocks_of_removeSkippedBlocks hok
        rw [hJ.1] at hskips
        refine ⟨hskips, ?_⟩
        rcases removeSkippedBlocks_ok hok with ⟨-, -, rfl⟩ | ⟨n, hn, -, hfree⟩
        · exact hJ
        · obtain ⟨hcache, hnull, hhash, hkeep⟩ := freeBlocks_frame hfree
          refine ⟨hnull.trans hJ.1, hcache.trans hJ.2.1, fun b => (hhash b).trans (hJ.2.2.1 b),
            fun b hb => (hkeep b fun hmem => ?_).trans (hJ.2.2.2 b hb)⟩
          obtain ⟨j, hj, hget⟩ := mem_skipLoop hmem
          have hlt := hb m hm j hget
          have hle := (Nat.le_div_iff_mul_le m.spec.blockSize_pos).mp
            (show j + 1 ≤ m.spec.getNumSkippedTokens total / m.spec.blockSize by omega)
          omega)
      (fun m hm => hm) ⟨rfl, rfl, fun _ => rfl, fun _ _ => rfl⟩ hmap
    exact ⟨htables, hblocks, hhash, hcache⟩

end Skipped

/-! ### The whole call -/

section Call

variable {k : KVCacheManager κ} {request : RequestView κ} {args : AllocateSlotsArgs}

def computedTokens (request : RequestView κ) (args : AllocateSlotsArgs) : Nat :=
  request.numComputedTokens + args.numNewComputedTokens + args.numExternalComputedTokens

/-- How `allocate_slots` is called: the hits come from a lookup, hits and external tokens are
passed only for a request that the managers know nothing of, the tokens a request has computed
have slots in its tables, and no request outgrows the model. -/
def SlotsContract (k : KVCacheManager κ) (request : RequestView κ) (args : AllocateSlotsArgs) :
    Prop :=
  LookupOk k request args ∧
  (k.blockPool.enableCaching = true ∨ args.numNewComputedTokens = 0) ∧
  (args.numNewComputedTokens = 0 ∧ args.numExternalComputedTokens = 0 ∨
    ∀ m ∈ k.singleTypeManagers, m.blocksOf request.requestId = [] ∧
      m.numCachedBlock.contains request.requestId = false) ∧
  (∀ m ∈ k.singleTypeManagers,
    request.numComputedTokens ≤ (m.blocksOf request.requestId).length * m.spec.blockSize) ∧
  computedTokens request args ≤ k.maxModelLen

instance (k : KVCacheManager κ) (request : RequestView κ) (args : AllocateSlotsArgs) :
    Decidable (SlotsContract k request args) := by
  unfold SlotsContract
  infer_instance

/-- Every table of the request has grown to the blocks that `numTokens` tokens need. -/
def SlotsReady (k k' : KVCacheManager κ) (rid : ReqId) (numTokens : Nat) : Prop :=
  k'.singleTypeManagers.map (fun m => (m.spec, (m.blocksOf rid).length)) =
    k.singleTypeManagers.map fun m =>
      (m.spec, max (m.blocksOf rid).length (cdiv numTokens m.spec.blockSize))

theorem cdiv_le_cdiv {a b : Nat} (h : a ≤ b) (n : Nat) : cdiv a n ≤ cdiv b n :=
  Nat.div_le_div_right (by omega)

theorem SlotsContract.cached (hc : SlotsContract k request args) {hits : List Nat}
    {m : SingleTypeKVCacheManager}
    (he : (hits, m) ∈ args.newComputedBlocks.zip k.singleTypeManagers)
    (hcached : m.numCachedBlock.contains request.requestId = true) : hits = [] := by
  obtain ⟨hlookup, -, hfresh, -⟩ := hc
  have hlen := (hlookup.2 _ he).1
  rcases hfresh with ⟨hzero, -⟩ | hfresh
  · rw [hzero] at hlen
    exact List.length_eq_zero_iff.mp
      ((Nat.mul_eq_zero.mp hlen).resolve_right m.spec.blockSize_pos.ne')
  · rw [(hfresh m (List.of_mem_zip he).2).2] at hcached
    cases hcached

theorem getNumBlocksToAllocate_sum {rid : ReqId} {numTokens total : Nat} {cap : Bool}
    {hits : List (List Nat)} {n : List Nat × SingleTypeKVCacheManager → Nat}
    (h : ∀ e ∈ hits.zip k.singleTypeManagers,
      e.2.getNumBlocksToAllocate k.blockPool rid numTokens e.1 total cap = .ok (n e)) :
    k.getNumBlocksToAllocate rid numTokens hits total cap =
      .ok ((hits.zip k.singleTypeManagers).map n).sum := by
  unfold KVCacheManager.getNumBlocksToAllocate
  rw [mapM_eq_ok (g := n) fun e he => h e he]
  rfl

theorem SlotsContract.fullSequenceFits_ok (hc : SlotsContract k request args) :
    ∃ fits, k.fullSequenceFits request args = .ok fits := by
  unfold KVCacheManager.fullSequenceFits
  split
  · have hall : ∀ e ∈ args.newComputedBlocks.zip k.singleTypeManagers, ∃ n,
        e.2.getNumBlocksToAllocate k.blockPool request.requestId
          (min request.numTokens k.maxModelLen) e.1
          (min (computedTokens request args) k.maxModelLen) true = .ok n :=
      fun e he => getNumBlocksToAllocate_ok (hc.cached he) _ _ true
    choose! n hn using hall
    have hsum := getNumBlocksToAllocate_sum hn
    rw [computedTokens] at hsum
    rw [hsum]
    exact ⟨_, rfl⟩
  · exact ⟨true, rfl⟩

structure Pending (k : KVCacheManager κ) (request : RequestView κ) (args : AllocateSlotsArgs)
    (hits : List Nat) (m : SingleTypeKVCacheManager) : Prop where
  cached : m.numCachedBlock.contains request.requestId = true → hits = []
  given : 0 < args.numNewComputedTokens ∨ 0 < args.numExternalComputedTokens →
    Given m k.blockPool request.requestId hits
      (request.numComputedTokens + args.numNewComputedTokens)
  covered : hits = [] → request.numComputedTokens + args.numNewComputedTokens ≤
    (m.blocksOf request.requestId).length * m.spec.blockSize

theorem SlotsContract.pending (hc : SlotsContract k request args) (hk : KVInv k)
    {ms : List SingleTypeKVCacheManager} {pool : BlockPool κ} {total : Nat}
    (hsame : SamePool k.blockPool pool)
    (hskip : List.Forall₂ (SkipsBlocks k.blockPool.nullBlock request.requestId total)
      k.singleTypeManagers ms) :
    ∀ e ∈ args.newComputedBlocks.zip ms,
      Pending { k with singleTypeManagers := ms, blockPool := pool } request args e.1 e.2 := by
  rintro ⟨hits, m'⟩ he
  obtain ⟨i, hi⟩ := List.mem_iff_getElem?.mp he
  obtain ⟨hhits, hm'⟩ := List.getElem?_zip_eq_some.mp hi
  obtain ⟨m, hm, hskips⟩ := forall₂_getElem? hskip hm'
  have hmem : (hits, m) ∈ args.newComputedBlocks.zip k.singleTypeManagers :=
    List.mem_iff_getElem?.mpr ⟨i, List.getElem?_zip_eq_some.mpr ⟨hhits, hm⟩⟩
  have hcached : m'.numCachedBlock.contains request.requestId = true → hits = [] := by
    rw [hskips.numCachedBlock]
    exact hc.cached hmem
  obtain ⟨hlookup, hcaching, hfresh, hgranted, -⟩ := hc
  have hlen := (hlookup.2 _ hmem).1
  have hempty : args.numNewComputedTokens = 0 → hits = [] := fun hzero =>
    List.length_eq_zero_iff.mp ((Nat.mul_eq_zero.mp (hlen.trans hzero)).resolve_right
      m.spec.blockSize_pos.ne')
  refine ⟨hcached, fun hsome => ?_, fun hnil => ?_⟩
  · obtain ⟨hblocks, hnot⟩ := hfresh.resolve_left (by omega) m (List.of_mem_zip hmem).2
    have hvalid := hlookup.hitsValid hk (hits, m.spec) (by
      rw [List.zip_map_right]
      exact List.mem_map.mpr ⟨_, hmem, rfl⟩)
    refine ⟨hcached, fun _ => ?_, ⟨?_, ?_, ?_⟩, ?_⟩
    · exact List.length_eq_zero_iff.mp (by rw [hskips.length, hblocks]; rfl)
    · exact hsame.numGpuBlocks ▸ hvalid.lt
    · exact hsame.nullBlock ▸ hvalid.nodup
    · exact hskips.spec ▸ hvalid.length_le
    · exact (hsame.enableCaching ▸ hcaching).imp_right hempty
  · have hzero : args.numNewComputedTokens = 0 := by
      rw [← hlen]
      simp [show hits = [] from hnil]
    rw [hzero, Nat.add_zero, hskips.length, hskips.spec]
    exact hgranted m (List.of_mem_zip hmem).2

theorem allocateNewBlocks_stage {p : BlockPool κ} {refs : Nat → Nat} (rid : ReqId)
    (numTokens : Nat) (hs : Taking p refs k.blockPool)
    (hfree : ((k.singleTypeManagers.map fun m =>
      cdiv numTokens m.spec.blockSize - (m.blocksOf rid).length).sum : Int) ≤
        k.blockPool.getNumFreeBlocks) :
    ∃ newBlocks k', k.allocateNewBlocks rid numTokens = .ok (newBlocks, k') ∧
      SlotsReady k k' rid numTokens := by
  obtain ⟨rs, pool, hmap, -, -, hlen⟩ := mapState_spends
    (f := fun m pool => SingleTypeKVCacheManager.allocateNewBlocks m pool rid numTokens)
    (I := Taking p refs) (P := fun _ => True)
    (g := fun m => (m.spec, max (m.blocksOf rid).length (cdiv numTokens m.spec.blockSize)))
    (fun m s _ hs hd => hs.allocateNewBlocks hd) (fun _ _ => trivial) hs hfree
  refine ⟨rs.map Prod.fst,
    { k with singleTypeManagers := rs.map Prod.snd, blockPool := pool }, ?_, ?_⟩
  · rw [KVCacheManager.allocateNewBlocks, hmap]
    rfl
  · rw [SlotsReady, List.map_map]
    exact hlen

theorem allocate_stages (hk : KVInv k) (hlookup : args.newComputedBlocks.length =
      k.singleTypeManagers.length)
    (hpending : ∀ e ∈ args.newComputedBlocks.zip k.singleTypeManagers,
      Pending k request args e.1 e.2)
    (hhits : ∀ hits ∈ args.newComputedBlocks, hits ≠ [] → 0 < args.numNewComputedTokens)
    {numTokens : Nat} (hle : computedTokens request args ≤ numTokens)
    (hfree : (((args.newComputedBlocks.zip k.singleTypeManagers).map fun e =>
      predicted e.2 k.blockPool request.requestId numTokens e.1
        (computedTokens request args)).sum : Int) ≤ k.blockPool.getNumFreeBlocks) :
    ∃ k₁ newBlocks k', k.addComputedBlocks request args = .ok k₁ ∧
      k₁.allocateNewBlocks request.requestId numTokens = .ok (newBlocks, k') ∧
      SlotsReady k k' request.requestId numTokens := by
  have htaking : Taking k.blockPool (refsOf k.singleTypeManagers) k.blockPool :=
    ⟨SamePool.refl _, _, hk.pool, fun _ => le_rfl⟩
  have hsnd : (args.newComputedBlocks.zip k.singleTypeManagers).map Prod.snd =
      k.singleTypeManagers := List.map_snd_zip (by omega)
  unfold KVCacheManager.addComputedBlocks
  by_cases hadd : args.newComputedBlocks.any (· ≠ []) = true ∨ 0 < args.numExternalComputedTokens
  · rw [if_pos hadd]
    have hsome : 0 < args.numNewComputedTokens ∨ 0 < args.numExternalComputedTokens := by
      refine hadd.imp_left fun hany => ?_
      obtain ⟨hits, hmem, hne⟩ := List.any_eq_true.mp hany
      exact hhits hits hmem (by simpa using hne)
    have hgiven : ∀ e ∈ args.newComputedBlocks.zip k.singleTypeManagers,
        Given e.2 k.blockPool request.requestId e.1
          (request.numComputedTokens + args.numNewComputedTokens) :=
      fun e he => (hpending e he).given hsome
    have hcdiv : ∀ n, cdiv (computedTokens request args) n ≤ cdiv numTokens n := cdiv_le_cdiv hle
    have hsplit : ((args.newComputedBlocks.zip k.singleTypeManagers).map fun e =>
        predicted e.2 k.blockPool request.requestId numTokens e.1
          (computedTokens request args)).sum =
        ((args.newComputedBlocks.zip k.singleTypeManagers).map fun e =>
          computedDemand e.2 k.blockPool request.requestId e.1
            (request.numComputedTokens + args.numNewComputedTokens)
            args.numExternalComputedTokens).sum +
        ((args.newComputedBlocks.zip k.singleTypeManagers).map fun e =>
          cdiv numTokens e.2.spec.blockSize - computedLength e.2 request.requestId e.1
            (request.numComputedTokens + args.numNewComputedTokens)
            args.numExternalComputedTokens).sum := by
      rw [← List.sum_map_add]
      exact congrArg List.sum
        (List.map_congr_left fun e he => (hgiven e he).predicted_eq (hcdiv _))
    rw [hsplit, Int.natCast_add] at hfree
    obtain ⟨ms, pool, hmap, hs, hleft, hlen⟩ := mapState_spends
      (f := fun e pool => e.2.allocateNewComputedBlocks pool request.requestId e.1
        (request.numComputedTokens + args.numNewComputedTokens) args.numExternalComputedTokens)
      (fun e s hg hs hd => hs.allocateNewComputedBlocks hk.pool hg hd) hgiven htaking (by omega)
    obtain ⟨newBlocks, k', hok, hready⟩ := allocateNewBlocks_stage (k := { k with
        singleTypeManagers := ms, blockPool := pool }) request.requestId numTokens hs (by
      have hsum := congrArg (List.map fun e : KVCacheSpec × Nat =>
        cdiv numTokens e.1.blockSize - e.2) hlen
      rw [List.map_map, List.map_map] at hsum
      rw [show ms.map (fun m => cdiv numTokens m.spec.blockSize -
        (m.blocksOf request.requestId).length) = _ from hsum]
      refine le_trans ?_ hleft
      simp only [Function.comp_def]
      omega)
    refine ⟨_, newBlocks, k', ?_, hok, ?_⟩
    · unfold KVCacheManager.allocateNewComputedBlocks
      erw [hmap]
      rfl
    · have htables := congrArg (List.map fun e : KVCacheSpec × Nat =>
        (e.1, max e.2 (cdiv numTokens e.1.blockSize))) hlen
      rw [List.map_map, List.map_map] at htables
      rw [SlotsReady] at hready ⊢
      rw [hready]
      refine htables.trans ?_
      conv_rhs => rw [← hsnd, List.map_map]
      refine List.map_congr_left fun e he => ?_
      exact Prod.ext rfl ((hgiven e he).max_computedLength (hcdiv _))
  · rw [if_neg hadd]
    rw [not_or, Bool.not_eq_true, List.any_eq_false] at hadd
    have hnil : ∀ e ∈ args.newComputedBlocks.zip k.singleTypeManagers, e.1 = [] := fun e he => by
      simpa using hadd.1 e.1 (List.of_mem_zip he).1
    obtain ⟨newBlocks, k', hok, hready⟩ := allocateNewBlocks_stage request.requestId numTokens
      htaking (by
        have hsum : (args.newComputedBlocks.zip k.singleTypeManagers).map (fun e =>
            predicted e.2 k.blockPool request.requestId numTokens e.1
              (computedTokens request args)) =
            k.singleTypeManagers.map fun m => cdiv numTokens m.spec.blockSize -
              (m.blocksOf request.requestId).length := by
          conv_rhs => rw [← hsnd]
          rw [List.map_map]
          refine List.map_congr_left fun e he => ?_
          rw [hnil e he, Function.comp_apply]
          refine predicted_eq_of_covered ?_
          have hcov := (hpending e he).covered (hnil e he)
          rw [computedTokens]
          omega
        rwa [hsum] at hfree)
    exact ⟨k, newBlocks, k', rfl, hok, hready⟩

theorem SlotsContract.hits_pos (hc : SlotsContract k request args) :
    ∀ hits ∈ args.newComputedBlocks, hits ≠ [] → 0 < args.numNewComputedTokens := by
  intro hits hmem hne
  obtain ⟨i, hi⟩ := List.mem_iff_getElem?.mp hmem
  obtain ⟨m, hm⟩ : ∃ m, k.singleTypeManagers[i]? = some m := by
    refine ⟨_, List.getElem?_eq_getElem ?_⟩
    rw [← hc.1.1]
    exact (List.getElem?_eq_some_iff.mp hi).1
  have hlen := (hc.1.2 (hits, m) (List.mem_iff_getElem?.mpr
    ⟨i, List.getElem?_zip_eq_some.mpr ⟨hi, hm⟩⟩)).1
  rw [← hlen]
  exact Nat.mul_pos (List.length_pos_iff.mpr hne) m.spec.blockSize_pos

theorem allocateSlots_of_fits {k₁ : KVCacheManager κ} {need n : Nat}
    (hsome : 0 < args.numNewTokens ∨ 0 < args.numExternalComputedTokens)
    (hfits : k.fullSequenceFits request args = .ok true)
    (hremove : k.removeSkippedBlocks request.requestId
      (min (computedTokens request args) k.maxModelLen) = .ok k₁)
    (hn : k₁.numTokensNeedSlot (computedTokens request args) args = n)
    (hneed : k₁.getNumBlocksToAllocate request.requestId n args.newComputedBlocks
      (computedTokens request args) false = .ok need) :
    k.allocateSlots request args =
      if k₁.blockPool.getNumFreeBlocks < need then .ok (none, k₁)
      else k₁.addComputedBlocks request args >>= fun k₂ =>
        k₂.allocateNewBlocks request.requestId n >>= fun r =>
        r.2.commitBlocks request args (computedTokens request args) >>= fun k₃ =>
        .ok (some r.1, k₃) := by
  unfold KVCacheManager.allocateSlots
  rw [if_neg (by omega), hfits]
  simp only [bind, Except.bind]
  rw [← computedTokens, hremove]
  simp only [Bool.true_eq_false, if_false]
  rw [hn, hneed]

theorem allocateSlots_outcome (hk : KVInv k) (hc : SlotsContract k request args)
    (hsome : 0 < args.numNewTokens ∨ 0 < args.numExternalComputedTokens) :
    (∃ k', k.allocateSlots request args = .ok (none, k') ∧
      OnlySkipped k k' request.requestId (min (computedTokens request args) k.maxModelLen)) ∨
    ∃ newBlocks k', k.allocateSlots request args =
        (k'.commitBlocks request args (computedTokens request args)).map
          (fun k'' => (some newBlocks, k'')) ∧
      SlotsReady k k' request.requestId
        (k.numTokensNeedSlot (computedTokens request args) args) := by
  obtain ⟨fits, hfits⟩ := hc.fullSequenceFits_ok
  cases fits with
  | false =>
    refine Or.inl ⟨k, ?_, OnlySkipped.refl k _ _⟩
    unfold KVCacheManager.allocateSlots
    rw [if_neg (by omega), hfits]
    rfl
  | true =>
    obtain ⟨ms, pool, hremove, hskip⟩ := hk.removeSkippedBlocks_total request.requestId
      (min (computedTokens request args) k.maxModelLen)
    obtain ⟨hk₁, hsame, -⟩ := hk.removeSkippedBlocks hremove
    have hpending := hc.pending hk hsame hskip.tables
    have hneed := getNumBlocksToAllocate_sum
      (k := { k with singleTypeManagers := ms, blockPool := pool })
      fun e he => getNumBlocksToAllocate_eq (hpending e he).cached
        (k.numTokensNeedSlot (computedTokens request args) args) (computedTokens request args)
    have hle : computedTokens request args ≤
        k.numTokensNeedSlot (computedTokens request args) args := by
      have := hc.2.2.2.2
      unfold KVCacheManager.numTokensNeedSlot
      omega
    rw [allocateSlots_of_fits (n := k.numTokensNeedSlot (computedTokens request args) args) hsome
      hfits hremove rfl hneed]
    by_cases hfree : pool.getNumFreeBlocks <
        (((args.newComputedBlocks.zip ms).map fun e => predicted e.2 pool request.requestId
          (k.numTokensNeedSlot (computedTokens request args) args) e.1
          (computedTokens request args)).sum : Int)
    · exact Or.inl ⟨_, if_pos hfree, hskip⟩
    · rw [if_neg hfree]
      obtain ⟨k₂, newBlocks, k₃, hadd, halloc, hready⟩ := allocate_stages hk₁
        (hc.1.1.trans hskip.tables.length_eq) hpending hc.hits_pos hle (Int.not_lt.mp hfree)
      refine Or.inr ⟨newBlocks, k₃, ?_, ?_⟩
      · rw [hadd]
        simp only [bind, Except.bind]
        rw [halloc]
        simp only
        cases k₃.commitBlocks request args (computedTokens request args) <;> rfl
      · refine hready.trans ?_
        have hsame : ms.map (fun m => (m.spec, (m.blocksOf request.requestId).length)) =
            k.singleTypeManagers.map fun m =>
              (m.spec, (m.blocksOf request.requestId).length) :=
          map_eq_of_forall₂ (hskip.tables.imp fun m m' h => Prod.ext h.spec h.length)
        have htables := congrArg (List.map fun e : KVCacheSpec × Nat => (e.1, max e.2 (cdiv
          (k.numTokensNeedSlot (computedTokens request args) args) e.1.blockSize))) hsame
        rwa [List.map_map, List.map_map] at htables

theorem commitBlocks_lengths {k' : KVCacheManager κ} {computed : Nat}
    (h : k.commitBlocks request args computed = .ok k') (rid : ReqId) :
    k'.singleTypeManagers.map (fun m => (m.spec, (m.blocksOf rid).length)) =
      k.singleTypeManagers.map fun m => (m.spec, (m.blocksOf rid).length) := by
  unfold KVCacheManager.commitBlocks KVCacheManager.cacheBlocks at h
  split at h
  · obtain rfl := Except.ok.inj h
    rfl
  · split at h
    · obtain ⟨ms, pool, hmap, rfl⟩ := forManagers_ok h
      refine mapState_map_eq (fun m s m' t hm => ?_) hmap
      rcases cacheBlocks_ok hm with ⟨-, rfl, -⟩ | ⟨-, -, rfl⟩
      · rfl
      · by_cases hr : rid = request.requestId
        · subst hr
          exact Prod.ext rfl (congrArg List.length (blocksOf_setBlocks_self m _ _))
        · exact Prod.ext rfl (congrArg List.length (blocksOf_setBlocks_ne m _ hr))
    · obtain rfl := Except.ok.inj h
      rfl

/-- From any state the calls lead to, `allocate_slots` either returns `None` and has only given
back blocks outside the attention window, or allocates in every group what the tokens need; only
hashing the full blocks is left then. -/
theorem allocateSlots_predicted {numBlocks maxModelLen hashBlockSize : Nat} {caching : Bool}
    {groups : List KVCacheSpec} {k₀ k : KVCacheManager κ}
    (hinit : KVCacheManager.init numBlocks maxModelLen hashBlockSize caching groups = .ok k₀)
    (hreach : Reachable call k₀ k) (hc : SlotsContract k request args)
    (hsome : 0 < args.numNewTokens ∨ 0 < args.numExternalComputedTokens) :
    (∃ k', k.allocateSlots request args = .ok (none, k') ∧
      OnlySkipped k k' request.requestId (min (computedTokens request args) k.maxModelLen)) ∨
    ∃ newBlocks k', k.allocateSlots request args =
        (k'.commitBlocks request args (computedTokens request args)).map
          (fun k'' => (some newBlocks, k'')) ∧
      SlotsReady k k' request.requestId
        (k.numTokensNeedSlot (computedTokens request args) args) ∧
      ∀ k'', k'.commitBlocks request args (computedTokens request args) = .ok k'' →
        SlotsReady k k'' request.requestId
          (k.numTokensNeedSlot (computedTokens request args) args) := by
  have hk : KVInv k := hreach.invariant (KVInv.init hinit) fun _ _ _ hs hcall => hs.call hcall
  refine (allocateSlots_outcome hk hc hsome).imp_right ?_
  rintro ⟨newBlocks, k', hok, hready⟩
  refine ⟨newBlocks, k', hok, hready, fun k'' hcommit => ?_⟩
  exact (commitBlocks_lengths hcommit _).trans hready

def threeTokens : RequestView Nat := ⟨0, 2, 3, [7, 8, 9], by decide⟩

theorem allocateSlots_predicted_threeTokens : ∃ k₀ k : KVCacheManager Nat,
    KVCacheManager.init 4 8 1 true [unitGroup] = .ok k₀ ∧
    exec call k₀ [.allocateSlots twoTokens ⟨2, 0, [[]], 0, 0, false, true⟩] = some k ∧
    SlotsContract k threeTokens ⟨1, 0, [[]], 0, 0, false, false⟩ ∧
    ((∃ k', k.allocateSlots threeTokens ⟨1, 0, [[]], 0, 0, false, false⟩ = .ok (none, k') ∧
      OnlySkipped k k' 0 (min 2 k.maxModelLen)) ∨
    ∃ newBlocks k', k.allocateSlots threeTokens ⟨1, 0, [[]], 0, 0, false, false⟩ =
        (k'.commitBlocks threeTokens ⟨1, 0, [[]], 0, 0, false, false⟩ 2).map
          (fun k'' => (some newBlocks, k'')) ∧
      SlotsReady k k' 0 (k.numTokensNeedSlot 2 ⟨1, 0, [[]], 0, 0, false, false⟩)) := by
  have hsome : ((KVCacheManager.init 4 8 1 true [unitGroup]).toOption.bind fun k₀ =>
      (exec call k₀ [.allocateSlots twoTokens ⟨2, 0, [[]], 0, 0, false, true⟩]).bind fun k =>
      if SlotsContract k threeTokens ⟨1, 0, [[]], 0, 0, false, false⟩ then some (k₀, k)
      else none).isSome = true := by
    decide
  obtain ⟨⟨k₀', k'⟩, hk⟩ := Option.isSome_iff_exists.mp hsome
  obtain ⟨k₀, hk₀, hrun⟩ := Option.bind_eq_some_iff.mp hk
  obtain ⟨k, hexec, hif⟩ := Option.bind_eq_some_iff.mp hrun
  have hc : SlotsContract k threeTokens ⟨1, 0, [[]], 0, 0, false, false⟩ := by
    by_contra hnot
    rw [if_neg hnot] at hif
    cases hif
  have hinit := toOption_eq_some.mp hk₀
  refine ⟨k₀, k, hinit, hexec, hc, ?_⟩
  refine (allocateSlots_predicted hinit ⟨_, hexec⟩ hc (by decide)).imp_right ?_
  rintro ⟨newBlocks, k', hok, hready, -⟩
  exact ⟨newBlocks, k', hok, hready⟩

end Call

end EldrServing.KVCache
