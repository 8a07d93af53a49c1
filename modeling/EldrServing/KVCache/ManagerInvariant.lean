import EldrServing.KVCache.Manager
import EldrServing.KVCache.PoolInvariant

/-!
# Accounting of one manager

What each operation of a `SingleTypeKVCacheManager` does to the block tables, and that it keeps
the pool consistent with the references in the tables. The demand `c` of the other managers is
left open, so that the managers can be composed.
-/

namespace EldrServing.KVCache

set_option autoImplicit false

variable {κ : Type} [DecidableEq κ]

variable {b : Nat}

theorem le_cdiv_mul (a : Nat) (hb : 0 < b) : a ≤ cdiv a b * b := by
  have := Nat.div_add_mod (a + b - 1) b
  have := Nat.mod_lt (a + b - 1) hb
  rw [cdiv, Nat.mul_comm]
  omega

theorem le_cdiv_of_mul_le {a n : Nat} (hb : 0 < b) (h : n * b ≤ a) : n ≤ cdiv a b := by
  rw [cdiv, Nat.le_div_iff_mul_le hb]
  omega

theorem KVCacheSpec.getNumSkippedTokens_le (spec : KVCacheSpec) (n : Nat) :
    spec.getNumSkippedTokens n ≤ n := by
  unfold getNumSkippedTokens
  split
  · exact Nat.zero_le n
  · rename_i w hw
    have := spec.window_pos w hw
    omega
  · exact Nat.div_mul_le_self n _

abbrev realBlocks (null : Nat) (blocks : List Nat) : List Nat := blocks.filter (· ≠ null)

namespace SingleTypeKVCacheManager

variable {m m' : SingleTypeKVCacheManager} {pool pool' : BlockPool κ} {rid : ReqId}
  {c : Nat → Nat} {bs blocks : List Nat}

@[simp] theorem blocksOf_setBlocks_self (m : SingleTypeKVCacheManager) (rid : ReqId)
    (blocks : List Nat) : (m.setBlocks rid blocks).blocksOf rid = blocks := by
  simp [blocksOf, setBlocks, Dict.getD]

theorem blocksOf_setBlocks_ne (m : SingleTypeKVCacheManager) {rid r : ReqId} (blocks : List Nat)
    (h : r ≠ rid) : (m.setBlocks rid blocks).blocksOf r = m.blocksOf r := by
  simp [blocksOf, setBlocks, Dict.getD, Dict.get?_insert_ne h.symm]

def refs (m : SingleTypeKVCacheManager) (b : Nat) : Nat :=
  m.reqToBlocks.sumBy fun _ blocks => blocks.count b

def otherRefs (m : SingleTypeKVCacheManager) (rid : ReqId) (b : Nat) : Nat :=
  (m.reqToBlocks.erase rid).sumBy fun _ blocks => blocks.count b

theorem refs_eq (m : SingleTypeKVCacheManager) (rid : ReqId) (b : Nat) :
    m.refs b = m.otherRefs rid b + (m.blocksOf rid).count b := by
  rw [refs, Dict.sumBy_eq_erase _ _ rid, otherRefs, blocksOf, Dict.getD]
  cases m.reqToBlocks.get? rid <;> simp

@[simp] theorem refs_setBlocks (m : SingleTypeKVCacheManager) (rid : ReqId) (blocks : List Nat)
    (b : Nat) : (m.setBlocks rid blocks).refs b = m.otherRefs rid b + blocks.count b :=
  Dict.sumBy_insert _ _ _ _

theorem count_le_refs (m : SingleTypeKVCacheManager) (rid : ReqId) (b : Nat) :
    (m.blocksOf rid).count b ≤ m.refs b := by
  rw [refs_eq m rid]
  omega

theorem blocksOf_lt (hinv : PoolInv pool fun b => c b + m.refs b) :
    ∀ b ∈ m.blocksOf rid, b < pool.numGpuBlocks := by
  intro b hb
  apply hinv.refs_lt
  have := List.count_pos_iff.mpr hb
  have := count_le_refs m rid b
  omega

def TablesOk (null : Nat) (m : SingleTypeKVCacheManager) : Prop :=
  ∀ rid, (realBlocks null (m.blocksOf rid)).Nodup

variable {numTokens null loc ext : Nat} {hits : List Nat}

theorem TablesOk.setBlocks (h : TablesOk null m) (rid : ReqId)
    (hb : (realBlocks null blocks).Nodup) : TablesOk null (m.setBlocks rid blocks) := by
  intro r
  by_cases hr : r = rid
  · subst hr
    simpa using hb
  · rw [blocksOf_setBlocks_ne m blocks hr]
    exact h r

theorem nodup_append_fresh (h : (realBlocks null blocks).Nodup) (hbs : bs.Nodup)
    (hfresh : ∀ b ∈ bs, b ∉ realBlocks null blocks) :
    (realBlocks null (blocks ++ bs)).Nodup := by
  rw [realBlocks, List.filter_append]
  refine List.nodup_append.mpr ⟨h, hbs.filter _, ?_⟩
  rintro a ha b hb rfl
  exact hfresh a (List.mem_of_mem_filter hb) ha

/-! ### Allocation -/

theorem allocateNewBlocks_ok {newBlocks : List Nat}
    (h : m.allocateNewBlocks pool rid numTokens = .ok ((newBlocks, m'), pool')) :
    m' = m.setBlocks rid (m.blocksOf rid ++ newBlocks) ∧
      ((newBlocks = [] ∧ pool' = pool ∧ cdiv numTokens m.spec.blockSize ≤ (m.blocksOf rid).length) ∨
        ∃ n : Nat, (m.blocksOf rid).length + n = cdiv numTokens m.spec.blockSize ∧
          pool.getNewBlocks n = .ok (newBlocks, pool')) := by
  unfold allocateNewBlocks at h
  simp only at h
  split at h
  · rename_i hle
    obtain ⟨hpair, rfl⟩ := ok_pair_inj h
    obtain ⟨rfl, rfl⟩ := Prod.mk.inj hpair
    exact ⟨by simp, Or.inl ⟨rfl, rfl, by omega⟩⟩
  · rename_i hgt
    simp only [except_bind_eq_ok, Prod.exists] at h
    obtain ⟨nb, q, hget, hok⟩ := h
    obtain ⟨hpair, rfl⟩ := ok_pair_inj hok
    obtain ⟨rfl, rfl⟩ := Prod.mk.inj hpair
    refine ⟨rfl, Or.inr ⟨cdiv numTokens m.spec.blockSize - (m.blocksOf rid).length, by omega, ?_⟩⟩
    rw [← hget]
    congr 1
    omega

theorem allocateNewBlocks_account {newBlocks : List Nat}
    (hinv : PoolInv pool fun b => c b + m.refs b) (htab : TablesOk pool.nullBlock m)
    (h : m.allocateNewBlocks pool rid numTokens = .ok ((newBlocks, m'), pool')) :
    TablesOk pool.nullBlock m' ∧ PoolInv pool' (fun b => c b + m'.refs b) ∧ SamePool pool pool' := by
  obtain ⟨rfl, hcase⟩ := allocateNewBlocks_ok h
  rcases hcase with ⟨rfl, rfl, -⟩ | ⟨n, -, hget⟩
  · refine ⟨htab.setBlocks rid (by simpa using htab rid), ?_, SamePool.refl _⟩
    apply hinv.congr_refs
    intro b
    simp [refs_eq m rid]
  · obtain ⟨-, hnew⟩ := hinv.getNewBlocks_ok (Int.natCast_nonneg n) hget
    refine ⟨htab.setBlocks rid (nodup_append_fresh (htab rid) hnew.nodup ?_), ?_, hnew.same⟩
    · intro b hb hm
      have := List.count_pos_iff.mpr (List.mem_of_mem_filter hm)
      have := count_le_refs m rid b
      have := (hnew.fresh b hb).2.2
      omega
    · apply hnew.inv.congr_refs
      intro b
      simp [refs_eq m rid]
      omega

/-- What a prefix hit passed to the manager satisfies: valid blocks, no real block twice, and no
more tokens than are said to be computed. -/
structure HitsValid (pool : BlockPool κ) (spec : KVCacheSpec) (local_ : Nat) (hits : List Nat) :
    Prop where
  lt : ∀ b ∈ hits, b < pool.numGpuBlocks
  nodup : (realBlocks pool.nullBlock hits).Nodup
  length_le : hits.length * spec.blockSize ≤ local_

/-- The table `allocate_new_computed_blocks` starts from: the skipped blocks are null. -/
def computedTable (m : SingleTypeKVCacheManager) (null total : Nat) (hits : List Nat) : List Nat :=
  let k := m.spec.getNumSkippedTokens total / m.spec.blockSize
  List.replicate k null ++ hits.drop k

theorem allocateNewComputedBlocks_ok
    (h : m.allocateNewComputedBlocks pool rid hits loc ext = .ok (m', pool')) :
    (m.numCachedBlock.contains rid = true ∧ hits = [] ∧ m' = m ∧ pool' = pool) ∨
    (m.numCachedBlock.contains rid = false ∧ m.blocksOf rid = [] ∧ ∃ q allocated,
      touchHits pool (hits.drop (m.spec.getNumSkippedTokens (loc + ext) / m.spec.blockSize))
        = .ok q ∧
      m' = { m.setBlocks rid (computedTable m q.nullBlock (loc + ext) hits ++ allocated) with
        numCachedBlock := m.numCachedBlock.insert rid
          (computedTable m q.nullBlock (loc + ext) hits).length } ∧
      ((allocated = [] ∧ pool' = q) ∨ (0 < numExternalTokens m.spec loc ext ∧
        q.getNewBlocks ((cdiv (loc + ext) m.spec.blockSize : Int) -
          (computedTable m q.nullBlock (loc + ext) hits).length) = .ok (allocated, pool')))) := by
  unfold allocateNewComputedBlocks at h
  split at h
  · rename_i hc
    rw [assert_bind_eq_ok] at h
    obtain ⟨rfl, rfl⟩ := ok_pair_inj h.2
    exact Or.inl ⟨hc, h.1, rfl, rfl⟩
  · rename_i hc
    rw [assert_bind_eq_ok, except_bind_eq_ok] at h
    obtain ⟨hnil, q, htouch, h⟩ := h
    refine Or.inr ⟨by simpa using hc, hnil, q, ?_⟩
    simp only at h
    split at h
    · rename_i hext
      simp only [except_bind_eq_ok, Prod.exists] at h
      obtain ⟨allocated, q', hget, hok⟩ := h
      obtain ⟨rfl, rfl⟩ := ok_pair_inj hok
      refine ⟨allocated, htouch, ?_, Or.inr ⟨hext, hget⟩⟩
      simp only [setBlocks, computedTable, Dict.insert_insert]
    · obtain ⟨rfl, rfl⟩ := ok_pair_inj h
      exact ⟨[], htouch, by simp [computedTable], Or.inl ⟨rfl, rfl⟩⟩

theorem realBlocks_computedTable (m : SingleTypeKVCacheManager) (null total : Nat)
    (hits : List Nat) : realBlocks null (computedTable m null total hits) =
      realBlocks null (hits.drop (m.spec.getNumSkippedTokens total / m.spec.blockSize)) := by
  simp [computedTable, realBlocks]

theorem computedTable_length_le (m : SingleTypeKVCacheManager) (null : Nat)
    (h : hits.length * m.spec.blockSize ≤ loc) :
    (computedTable m null (loc + ext) hits).length ≤ cdiv (loc + ext) m.spec.blockSize := by
  have hpos := m.spec.blockSize_pos
  have hhits := le_cdiv_of_mul_le hpos (Nat.le_trans h (Nat.le_add_right loc ext))
  have hskip : m.spec.getNumSkippedTokens (loc + ext) / m.spec.blockSize ≤
      cdiv (loc + ext) m.spec.blockSize := le_cdiv_of_mul_le hpos
    (Nat.le_trans (Nat.div_mul_le_self _ _) (m.spec.getNumSkippedTokens_le _))
  simp only [computedTable, List.length_append, List.length_replicate, List.length_drop]
  omega

theorem touchHits_account {refs : Nat → Nat} (hinv : PoolInv pool refs)
    (hlt : ∀ b ∈ bs, b < pool.numGpuBlocks) (h : touchHits pool bs = .ok pool') :
    PoolInv pool' (fun b => refs b + bs.count b) ∧ SamePool pool pool' ∧
      ∀ b, pool'.hashOf b = pool.hashOf b := by
  unfold touchHits at h
  split at h
  · obtain ⟨q, hq, hinv', hsame, hhash⟩ := hinv.touch_total hlt
    rw [h] at hq
    obtain rfl := Except.ok.inj hq
    exact ⟨hinv', hsame, hhash⟩
  · rw [assert_bind_eq_ok] at h
    obtain ⟨rfl, hok⟩ := h
    obtain rfl := Except.ok.inj hok
    exact ⟨by simpa using hinv, SamePool.refl _, fun _ => rfl⟩

theorem allocateNewComputedBlocks_account
    (hinv : PoolInv pool fun b => c b + m.refs b) (htab : TablesOk pool.nullBlock m)
    (hhits : HitsValid pool m.spec loc hits)
    (h : m.allocateNewComputedBlocks pool rid hits loc ext = .ok (m', pool')) :
    TablesOk pool.nullBlock m' ∧ PoolInv pool' (fun b => c b + m'.refs b) ∧ SamePool pool pool' := by
  rcases allocateNewComputedBlocks_ok h with ⟨-, -, rfl, rfl⟩ | ⟨-, hnil, q, allocated, htouch, rfl, hcase⟩
  · exact ⟨htab, hinv, SamePool.refl _⟩
  obtain ⟨kept, hkept⟩ : ∃ kept,
      kept = hits.drop (m.spec.getNumSkippedTokens (loc + ext) / m.spec.blockSize) := ⟨_, rfl⟩
  rw [← hkept] at htouch
  have hsub : kept.Sublist hits := hkept ▸ List.drop_sublist _ _
  obtain ⟨hq, hsame, -⟩ := touchHits_account hinv (fun b hb => hhits.lt b (hsub.subset hb)) htouch
  obtain ⟨table, htable⟩ : ∃ table, table = computedTable m q.nullBlock (loc + ext) hits := ⟨_, rfl⟩
  have hreal : realBlocks q.nullBlock table = realBlocks q.nullBlock kept := by
    rw [htable, realBlocks_computedTable, hkept]
  have hnodup : (realBlocks pool.nullBlock table).Nodup := by
    rw [← hsame.nullBlock, hreal, hsame.nullBlock]
    exact hhits.nodup.sublist (hsub.filter _)
  have hcount : ∀ b, b ≠ q.nullBlock → table.count b = kept.count b := by
    intro b hb
    have hfilter := congrArg (List.count b) hreal
    rwa [List.count_filter (by simpa using hb), List.count_filter (by simpa using hb)] at hfilter
  rw [← htable] at hcase ⊢
  have hrefs : ∀ blocks b, ({ m.setBlocks rid blocks with
      numCachedBlock := m.numCachedBlock.insert rid table.length } :
      SingleTypeKVCacheManager).refs b = m.otherRefs rid b + blocks.count b :=
    fun blocks b => refs_setBlocks m rid blocks b
  have hold : ∀ b, m.refs b = m.otherRefs rid b := fun b => by simp [refs_eq m rid, hnil]
  rcases hcase with ⟨rfl, rfl⟩ | ⟨-, hget⟩
  · refine ⟨?_, ?_, hsame⟩
    · exact htab.setBlocks rid (by simpa using hnodup)
    · apply hq.congr_real
      intro b hb
      rw [hrefs, List.append_nil, hcount b hb, hold]
      omega
  · have hlen : (table.length : Int) ≤ cdiv (loc + ext) m.spec.blockSize := by
      rw [htable]
      exact_mod_cast computedTable_length_le m q.nullBlock hhits.length_le
    obtain ⟨-, hnew⟩ := hq.getNewBlocks_ok (by omega) hget
    refine ⟨?_, ?_, hsame.trans hnew.same⟩
    · refine htab.setBlocks rid (nodup_append_fresh hnodup hnew.nodup ?_)
      intro b hb hm
      rw [← hsame.nullBlock, hreal] at hm
      have := List.count_pos_iff.mpr (List.mem_of_mem_filter hm)
      have := (hnew.fresh b hb).2.2
      omega
    · apply hnew.inv.congr_real
      intro b hb
      rw [hnew.same.nullBlock] at hb
      rw [hrefs, List.count_append, hcount b hb, hold]
      omega

/-! ### Caching and freeing -/

theorem cacheBlocks_ok {request : RequestView κ}
    (h : m.cacheBlocks pool request numTokens = .ok (m', pool')) :
    (numTokens / m.spec.blockSize ≤ m.numCachedBlock.getD request.requestId 0 ∧
      m' = m ∧ pool' = pool) ∨
    (m.numCachedBlock.getD request.requestId 0 < numTokens / m.spec.blockSize ∧
      pool.cacheFullBlocks request.blockHashes (m.blocksOf request.requestId)
        (m.numCachedBlock.getD request.requestId 0) (numTokens / m.spec.blockSize)
        m.spec.blockSize m.kvCacheGroupId = .ok pool' ∧
      m' = { m.setBlocks request.requestId (m.blocksOf request.requestId) with
        numCachedBlock :=
          m.numCachedBlock.insert request.requestId (numTokens / m.spec.blockSize) }) := by
  unfold cacheBlocks at h
  simp only at h
  split at h
  · rename_i hle
    obtain ⟨rfl, rfl⟩ := ok_pair_inj h
    exact Or.inl ⟨hle, rfl, rfl⟩
  · rename_i hgt
    rw [except_bind_eq_ok] at h
    obtain ⟨q, hq, hok⟩ := h
    obtain ⟨rfl, rfl⟩ := ok_pair_inj hok
    exact Or.inr ⟨by omega, hq, rfl⟩

theorem cacheFullBlocks_ok {refs : Nat → Nat} {hashes : List κ} {cached full bsize gid : Nat}
    (hinv : PoolInv pool refs) (hlt : ∀ b ∈ blocks, b < pool.numGpuBlocks)
    (h : pool.cacheFullBlocks hashes blocks cached full bsize gid = .ok pool') :
    PoolInv pool' refs ∧ SamePool pool pool' ∧
      PoolInv.Cached pool gid ((blocks.take full).drop cached)
        ((blockHashesAt hashes pool.hashBlockSize bsize).drop cached) pool' := by
  unfold BlockPool.cacheFullBlocks at h
  split at h
  · rename_i hle
    obtain rfl := Except.ok.inj h
    have hempty : (blocks.take full).drop cached = [] := by
      apply List.drop_eq_nil_of_le
      rw [List.length_take]
      omega
    refine ⟨hinv, SamePool.refl _, fun _ _ => rfl, ?_⟩
    rw [hempty]
    simp
  · simp only [assert_bind_eq_ok] at h
    refine hinv.cacheLoop_ok (fun b hb => hlt b ?_) h.2.2
    exact List.mem_of_mem_take (List.mem_of_mem_drop hb)

theorem cacheBlocks_account {request : RequestView κ}
    (hinv : PoolInv pool fun b => c b + m.refs b) (htab : TablesOk pool.nullBlock m)
    (h : m.cacheBlocks pool request numTokens = .ok (m', pool')) :
    TablesOk pool.nullBlock m' ∧ PoolInv pool' (fun b => c b + m'.refs b) ∧ SamePool pool pool' := by
  rcases cacheBlocks_ok h with ⟨-, rfl, rfl⟩ | ⟨-, hcache, rfl⟩
  · exact ⟨htab, hinv, SamePool.refl _⟩
  · obtain ⟨hinv', hsame, -⟩ := cacheFullBlocks_ok hinv (blocksOf_lt hinv) hcache
    refine ⟨htab.setBlocks request.requestId (htab request.requestId), ?_, hsame⟩
    apply hinv'.congr_refs
    intro b
    have := refs_setBlocks m request.requestId (m.blocksOf request.requestId) b
    rw [refs_eq m request.requestId b]
    exact congrArg (c b + ·) this

theorem blocksOf_erase_self (m : SingleTypeKVCacheManager) (rid : ReqId) (d : Dict ReqId Nat) :
    ({ m with reqToBlocks := m.reqToBlocks.erase rid, numCachedBlock := d } :
      SingleTypeKVCacheManager).blocksOf rid = [] := by
  simp [blocksOf, Dict.getD]

theorem blocksOf_erase_ne (m : SingleTypeKVCacheManager) {rid r : ReqId} (d : Dict ReqId Nat)
    (h : r ≠ rid) : ({ m with reqToBlocks := m.reqToBlocks.erase rid, numCachedBlock := d } :
      SingleTypeKVCacheManager).blocksOf r = m.blocksOf r := by
  simp [blocksOf, Dict.getD, Dict.get?_erase_ne h.symm]

theorem free_account (hinv : PoolInv pool fun b => c b + m.refs b)
    (htab : TablesOk pool.nullBlock m) (h : m.free pool rid = .ok (m', pool')) :
    TablesOk pool.nullBlock m' ∧ PoolInv pool' (fun b => c b + m'.refs b) ∧ SamePool pool pool' ∧
      m' = { m with
        reqToBlocks := m.reqToBlocks.erase rid, numCachedBlock := m.numCachedBlock.erase rid } ∧
      ∀ b, pool'.hashOf b = pool.hashOf b := by
  have hinv' : PoolInv pool fun b =>
      (c b + m.otherRefs rid b) + (m.blocksOf rid).reverse.count b := by
    apply hinv.congr_refs
    intro b
    rw [List.count_reverse, refs_eq m rid]
    omega
  obtain ⟨q, hq, hpool, hsame, hhash⟩ := hinv'.freeBlocks_total (by
    rw [List.filter_reverse]
    exact List.nodup_reverse.mpr (htab rid))
  simp only [free, hq, bind, Except.bind] at h
  obtain ⟨rfl, rfl⟩ := ok_pair_inj h
  refine ⟨?_, hpool, hsame, rfl, hhash⟩
  intro r
  by_cases hr : r = rid
  · subst hr
    rw [blocksOf_erase_self]
    simp
  · rw [blocksOf_erase_ne m _ hr]
    exact htab r

theorem realBlocks_set {i : Nat} (hget : blocks[i]? = some b) (hb : b ≠ null) :
    (realBlocks null blocks).Perm (b :: realBlocks null (blocks.set i null)) := by
  induction blocks generalizing i with
  | nil => simp at hget
  | cons a blocks ih =>
    cases i with
    | zero =>
      obtain rfl : a = b := by simpa using hget
      simp [realBlocks, hb]
    | succ i =>
      have hrec := ih (by simpa using hget)
      by_cases ha : a = null
      · simpa [realBlocks, ha] using hrec
      · have hperm := (hrec.cons a).trans (List.Perm.swap b a _)
        simpa [realBlocks, ha] using hperm

theorem skipLoop_perm (null i : Nat) (blocks : List Nat) :
    (realBlocks null blocks).Perm
      ((skipLoop null i blocks).1 ++ realBlocks null (skipLoop null i blocks).2) ∧
    ∀ b ∈ (skipLoop null i blocks).1, b ≠ null := by
  induction i generalizing blocks with
  | zero => simp [skipLoop]
  | succ i ih =>
    rw [skipLoop]
    split
    · simp
    · rename_i b hget
      by_cases hb : b = null
      · simp [hb]
      · obtain ⟨hperm, hne⟩ := ih (blocks.set i null)
        simp only [if_neg hb]
        refine ⟨(realBlocks_set hget hb).trans (hperm.cons b), ?_⟩
        intro a ha
        rcases List.mem_cons.mp ha with rfl | ha
        · exact hb
        · exact hne a ha

theorem skipLoop_getElem? (null i j : Nat) (blocks : List Nat) :
    (skipLoop null i blocks).2[j]? = blocks[j]? ∨
      (j < i ∧ (skipLoop null i blocks).2[j]? = some null) := by
  induction i generalizing blocks with
  | zero => exact Or.inl rfl
  | succ i ih =>
    rw [skipLoop]
    split
    · exact Or.inl rfl
    · rename_i b hget
      by_cases hb : b = null
      · simp [hb]
      · simp only [if_neg hb]
        have hi : i < blocks.length := (List.getElem?_eq_some_iff.mp hget).1
        rcases ih (blocks.set i null) with hsame | ⟨hlt, hnull⟩
        · by_cases hj : i = j
          · subst hj
            exact Or.inr ⟨by omega, hsame.trans (by simp [hi])⟩
          · exact Or.inl (hsame.trans (by simp [hj]))
        · exact Or.inr ⟨by omega, hnull⟩

theorem removeSkippedBlocks_ok {total : Nat}
    (h : m.removeSkippedBlocks pool rid total = .ok (m', pool')) :
    (m.spec.getNumSkippedTokens total = 0 ∧ m' = m ∧ pool' = pool) ∨
    ∃ n, n = min (m.spec.getNumSkippedTokens total / m.spec.blockSize) (m.blocksOf rid).length ∧
      m' = m.setBlocks rid (skipLoop pool.nullBlock n (m.blocksOf rid)).2 ∧
      pool.freeBlocks (skipLoop pool.nullBlock n (m.blocksOf rid)).1 = .ok pool' := by
  unfold removeSkippedBlocks at h
  simp only at h
  split at h
  · next hzero =>
    obtain ⟨rfl, rfl⟩ := ok_pair_inj h
    exact .inl ⟨hzero, rfl, rfl⟩
  · rw [except_bind_eq_ok] at h
    obtain ⟨q, hfree, hok⟩ := h
    obtain ⟨rfl, rfl⟩ := ok_pair_inj hok
    exact .inr ⟨_, rfl, rfl, hfree⟩

theorem removeSkippedBlocks_total (rid : ReqId) (total : Nat)
    (hinv : PoolInv pool fun b => c b + m.refs b)
    (htab : TablesOk pool.nullBlock m) :
    ∃ m' pool', m.removeSkippedBlocks pool rid total = .ok (m', pool') ∧
      TablesOk pool.nullBlock m' ∧ PoolInv pool' (fun b => c b + m'.refs b) ∧ SamePool pool pool' ∧
      (m' = m ∨ m' = m.setBlocks rid (skipLoop pool.nullBlock
        (min (m.spec.getNumSkippedTokens total / m.spec.blockSize) (m.blocksOf rid).length)
        (m.blocksOf rid)).2) ∧
      ∀ b, pool'.hashOf b = pool.hashOf b := by
  unfold removeSkippedBlocks
  simp only
  split
  · exact ⟨m, pool, rfl, htab, hinv, SamePool.refl _, Or.inl rfl, fun _ => rfl⟩
  · obtain ⟨n, hn⟩ : ∃ n, n = min (m.spec.getNumSkippedTokens total / m.spec.blockSize)
      (m.blocksOf rid).length := ⟨_, rfl⟩
    rw [← hn]
    obtain ⟨hperm, hne⟩ := skipLoop_perm pool.nullBlock n (m.blocksOf rid)
    obtain ⟨removed, hremoved⟩ : ∃ r, r = (skipLoop pool.nullBlock n (m.blocksOf rid)).1 := ⟨_, rfl⟩
    obtain ⟨table, htable⟩ : ∃ t, t = (skipLoop pool.nullBlock n (m.blocksOf rid)).2 := ⟨_, rfl⟩
    rw [← hremoved, ← htable] at hperm
    rw [← hremoved] at hne
    simp only [← hremoved, ← htable]
    have hnd := hperm.nodup_iff.mp (htab rid)
    have hcount : ∀ b, b ≠ pool.nullBlock →
        (m.blocksOf rid).count b = removed.count b + table.count b := by
      intro b hb
      have hp := hperm.count_eq b
      rwa [List.count_append, List.count_filter (by simpa using hb),
        List.count_filter (by simpa using hb)] at hp
    have hinv' : PoolInv pool fun b =>
        (c b + (m.setBlocks rid table).refs b) + removed.count b := by
      apply hinv.congr_real
      intro b hb
      rw [refs_setBlocks, refs_eq m rid, hcount b hb]
      omega
    obtain ⟨q, hq, hpool, hsame, hhash⟩ := hinv'.freeBlocks_total (by
      rw [List.filter_eq_self.mpr (fun b hb => by simpa using hne b hb)]
      exact (List.nodup_append.mp hnd).1)
    refine ⟨m.setBlocks rid table, q, ?_, htab.setBlocks rid (List.nodup_append.mp hnd).2.1, hpool,
      hsame, Or.inr rfl, hhash⟩
    rw [hq]
    rfl

theorem removeSkippedBlocks_account {total : Nat} (hinv : PoolInv pool fun b => c b + m.refs b)
    (htab : TablesOk pool.nullBlock m)
    (h : m.removeSkippedBlocks pool rid total = .ok (m', pool')) :
    TablesOk pool.nullBlock m' ∧ PoolInv pool' (fun b => c b + m'.refs b) ∧ SamePool pool pool' ∧
      (m' = m ∨ m' = m.setBlocks rid (skipLoop pool.nullBlock
        (min (m.spec.getNumSkippedTokens total / m.spec.blockSize) (m.blocksOf rid).length)
        (m.blocksOf rid)).2) ∧
      ∀ b, pool'.hashOf b = pool.hashOf b := by
  obtain ⟨m₁, pool₁, hok, hrest⟩ := removeSkippedBlocks_total rid total hinv htab
  rw [h] at hok
  obtain ⟨rfl, rfl⟩ := ok_pair_inj hok
  exact hrest

end SingleTypeKVCacheManager

end EldrServing.KVCache
