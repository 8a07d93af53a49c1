import EldrServing.KVCache.Ledger

/-!
# The calls of the cache manager on the ledger

Each call of the scheduler on the cache manager as a sequence of ledger operations.
-/

namespace EldrServing.KVCache

set_option autoImplicit false
set_option linter.unusedSectionVars false

open SingleTypeKVCacheManager Relation

variable {κ : Type} [DecidableEq κ] {k k' k₁ : KVCacheManager κ} {request : RequestView κ}
  {spec : KVCacheSpec} {blocks : List Nat} {g total n null b : Nat} {caching : Bool}
  {L L' : Ledger κ} {op : LedgerOp κ}

section Calls

variable {r : ReqId} {m m' : SingleTypeKVCacheManager} {pool : BlockPool κ}

/-! ### Skipping, freeing and evicting -/

/-- The blocks that the attention no longer looks at leave the tables of `r`. -/
def SkipOp (specs : List KVCacheSpec) (r : ReqId) (total : Nat) (op : LedgerOp κ) : Prop :=
  ∃ g spec, specs[g]? = some spec ∧
    op = .skip g r (spec.getNumSkippedTokens total / spec.blockSize)

theorem removeSkippedBlocks_id {m m' : SingleTypeKVCacheManager} {s t : BlockPool κ}
    (h : m.removeSkippedBlocks s r total = .ok (m', t)) : m'.kvCacheGroupId = m.kvCacheGroupId := by
  rcases removeSkippedBlocks_ok h with ⟨-, rfl, -⟩ | ⟨n, -, rfl, -⟩ <;> rfl

theorem KVOk.pool_account (hk : KVOk k) (hg : k.singleTypeManagers[g]? = some m) :
    PoolInv k.blockPool (fun b => refsOf (k.singleTypeManagers.eraseIdx g) b + m.refs b) :=
  hk.pool.congr_refs fun b => (refsOf_eraseIdx hg b).symm

theorem KVOk.tablesOk (hk : KVOk k) (hg : k.singleTypeManagers[g]? = some m) :
    TablesOk k.blockPool.nullBlock m :=
  hk.tables m (List.mem_of_getElem? hg)

theorem removeSkippedBlocks_round (hk : KVOk k) (hg : k.singleTypeManagers[g]? = some m)
    (h : m.removeSkippedBlocks k.blockPool r total = .ok (m', pool)) :
    Calls (SkipOp k.specs r total) k (k.setManager g m' pool) := by
  have htab := hk.tablesOk hg
  obtain ⟨-, -, hsame, htable, hhash⟩ := removeSkippedBlocks_account (hk.pool_account hg) htab h
  refine .single _ (hk.setManager hg (removeSkippedBlocks_id h) fun c hc => ?_)
    (.setManager hg (removeSkippedBlocks_spec h) hsame) ⟨g, m.spec, specs_getElem? hg, rfl⟩
    ⟨funext hhash, ?_, fun i => ?_⟩
  · obtain ⟨h1, h2, h3, -⟩ := removeSkippedBlocks_account hc htab h
    exact ⟨h1, h2, h3⟩
  · refine sameTables_setManager hg fun r' hr' => ?_
    rcases htable with rfl | rfl
    · rfl
    · exact blocksOf_setBlocks_ne m _ hr'
  · change ((k.setManager g m' pool).table g r)[i]? = (k.table g r)[i]? ∨
      _ ∧ (k.table g r)[i]?.isSome ∧ ((k.setManager g m' pool).table g r)[i]? = _
    rw [table_setManager_self hg, table_eq hg]
    rcases htable with rfl | rfl
    · exact .inl rfl
    · rw [blocksOf_setBlocks_self]
      rcases skipLoop_getElem? k.blockPool.nullBlock
          (min (m.spec.getNumSkippedTokens total / m.spec.blockSize) (m.blocksOf r).length) i
          (m.blocksOf r) with heq | ⟨hlt, hnull⟩
      · exact .inl heq
      · have hi : i < (m.blocksOf r).length := by omega
        exact .inr ⟨by omega, by simp [hi], hnull⟩

theorem removeSkippedBlocks_calls (hk : KVOk k)
    (h : k.removeSkippedBlocks r total = .ok k') : Calls (SkipOp k.specs r total) k k' :=
  Calls.forManagers (fun _ _ _ _ _ hk₁ hsame hg hm =>
    (hsame.specs ▸ removeSkippedBlocks_round hk₁ hg hm)) hk h

def FreeOp (r : ReqId) (op : LedgerOp κ) : Prop := ∃ g, op = .free g r

theorem free_calls (hk : KVOk k) (h : k.free r = .ok k') : Calls (FreeOp r) k k' := by
  refine Calls.forManagers (fun k₁ g m m' pool hk₁ _ hg hm => ?_) hk h
  have htab := hk₁.tablesOk hg
  obtain ⟨-, -, hsame, hm', hhash⟩ := free_account (hk₁.pool_account hg) htab hm
  have hid : m'.kvCacheGroupId = m.kvCacheGroupId := by rw [hm']
  have hspec : m'.spec = m.spec := by rw [hm']
  refine .single _ (hk₁.setManager hg hid fun c hc => ?_) (.setManager hg hspec hsame) ⟨g, rfl⟩
    ⟨funext hhash, ?_, ?_⟩
  · obtain ⟨h1, h2, h3, -⟩ := free_account hc htab hm
    exact ⟨h1, h2, h3⟩
  · refine sameTables_setManager hg fun r' hr' => ?_
    rw [hm']
    exact blocksOf_erase_ne m _ hr'
  · change (k₁.setManager g m' pool).table g r = []
    rw [table_setManager_self hg, hm']
    exact blocksOf_erase_self m r _

theorem free_table (h : k.free r = .ok k') (g : Nat) : k'.table g r = [] := by
  obtain ⟨ms, pool, hmap, rfl⟩ := forManagers_ok h
  have hempty : ms.map (·.blocksOf r) = k.singleTypeManagers.map fun _ => [] := by
    refine mapState_map_eq (fun m s m' t hm => ?_) hmap
    simp only [SingleTypeKVCacheManager.free, except_bind_eq_ok] at hm
    obtain ⟨_, -, hok⟩ := hm
    obtain ⟨rfl, -⟩ := ok_pair_inj hok
    exact blocksOf_erase_self m r _
  unfold KVCacheManager.table
  split
  · next m hm =>
    have hget := congrArg (·[g]?) hempty
    simp only [List.getElem?_map] at hget
    rw [show ms[g]? = some m from hm] at hget
    obtain ⟨_, -, heq⟩ := Option.map_eq_some_iff.mp hget.symm
    exact heq.symm
  · rfl

theorem evictBlocks_calls {ids : List Nat} (hk : KVOk k) (h : k.evictBlocks ids = .ok k') :
    Calls (· = .evict ids) k k' := by
  have hinv := hk.toKVInv.evictBlocks h
  simp only [KVCacheManager.evictBlocks, except_bind_eq_ok] at h
  obtain ⟨pool, hpool, hok⟩ := h
  obtain rfl := Except.ok.inj hok
  obtain ⟨-, hsame, hhash⟩ := hk.pool.evictBlocks_ok hpool
  exact .single _ ⟨hinv, hk.ids, hk.caching.trans hsame.enableCaching.symm⟩
    ⟨hsame, rfl, rfl, rfl⟩ rfl ⟨rfl, hhash⟩

/-! ### Hashing full blocks -/

def keysOf (hashBlockSize : Nat) (request : RequestView κ) (spec : KVCacheSpec) (i : Nat) :
    Option (BlockHash κ) :=
  (blockHashesAt request.blockHashes hashBlockSize spec.blockSize)[i]?

/-- Blocks of the request that the first `n` tokens fill get their hashes. -/
def CacheOp (specs : List KVCacheSpec) (hashBlockSize : Nat) (request : RequestView κ) (n : Nat)
    (op : LedgerOp κ) : Prop :=
  ∃ g spec first last, specs[g]? = some spec ∧ last ≤ n / spec.blockSize ∧
    op = .cache g request.requestId first last (keysOf hashBlockSize request spec)

theorem cacheBlocks_round (hk : KVOk k) (hg : k.singleTypeManagers[g]? = some m)
    (h : m.cacheBlocks k.blockPool request n = .ok (m', pool)) :
    Calls (CacheOp k.specs k.blockPool.hashBlockSize request n) k (k.setManager g m' pool) := by
  have htab := hk.tablesOk hg
  have haccount := hk.pool_account hg
  obtain ⟨-, -, hsame⟩ := cacheBlocks_account haccount htab h
  have hkeep := cacheBlocks_ok h
  have hid : m'.kvCacheGroupId = m.kvCacheGroupId ∧ m'.spec = m.spec ∧
      ∀ r, m'.blocksOf r = m.blocksOf r := by
    rcases hkeep with ⟨-, rfl, -⟩ | ⟨-, -, rfl⟩
    · exact ⟨rfl, rfl, fun _ => rfl⟩
    · refine ⟨rfl, rfl, fun r => ?_⟩
      rcases eq_or_ne r request.requestId with rfl | hne
      · exact blocksOf_setBlocks_self m _ _
      · exact blocksOf_setBlocks_ne m _ hne
  obtain ⟨hgroup, hspec, hblocks⟩ := hid
  have hok : KVOk (k.setManager g m' pool) :=
    hk.setManager hg hgroup fun c hc => cacheBlocks_account hc htab h
  have htables : (k.setManager g m' pool).table = k.table := by
    funext g' r'
    rcases eq_or_ne g' g with rfl | hne
    · rw [table_setManager_self hg, table_eq hg]
      exact hblocks r'
    · exact table_setManager_ne hne k m' pool r'
  rcases hkeep with ⟨-, -, rfl⟩ | ⟨-, hcache, -⟩
  · -- nothing new is full
    refine .single (.cache g request.requestId 0 0 (keysOf _ request m.spec)) hok
      (.setManager hg hspec hsame) ⟨g, m.spec, 0, 0, specs_getElem? hg, Nat.zero_le _, rfl⟩
      ⟨htables, fun _ _ => rfl, fun i b _ hi => absurd hi (Nat.not_lt_zero i)⟩
  · obtain ⟨-, -, hcached⟩ := cacheFullBlocks_ok haccount (blocksOf_lt haccount) hcache
    have hsegment : ∀ i b, m.numCachedBlock.getD request.requestId 0 ≤ i → i < n / m.spec.blockSize →
        (m.blocksOf request.requestId)[i]? = some b →
        (((m.blocksOf request.requestId).take (n / m.spec.blockSize)).drop
          (m.numCachedBlock.getD request.requestId 0))[i -
            m.numCachedBlock.getD request.requestId 0]? = some b := by
      intro i b hfirst hlast hb
      rw [List.getElem?_drop, Nat.add_sub_cancel' hfirst, List.getElem?_take, if_pos hlast]
      exact hb
    refine .single (.cache g request.requestId (m.numCachedBlock.getD request.requestId 0)
        (n / m.spec.blockSize) (keysOf _ request m.spec)) hok (.setManager hg hspec hsame)
      ⟨g, m.spec, _, _, specs_getElem? hg, Nat.le_refl _, rfl⟩ ⟨htables, fun b hb => ?_, fun i b hfirst hlast hb hne => ?_⟩
    · refine hcached.keep b ?_
      rcases hb with hb | hb
      · left
        intro hmem
        obtain ⟨j, hj⟩ := List.mem_iff_getElem?.mp hmem
        rw [List.getElem?_drop, List.getElem?_take] at hj
        split at hj
        · next hlt =>
          refine hb _ (Nat.le_add_right _ j) hlt ?_
          change (k.table g request.requestId)[_]? = some b
          rw [table_eq hg]
          exact hj
        · cases hj
      · exact .inr hb
    · change (k.table g request.requestId)[i]? = some b at hb
      rw [table_eq hg] at hb
      obtain ⟨hnone, hash, hget, hnew⟩ := hcached.fresh _ b (hsegment i b hfirst hlast hb) hne
      rw [List.getElem?_drop, Nat.add_sub_cancel' hfirst] at hget
      refine ⟨hnone, hash, hget, ?_⟩
      rw [← hk.ids g m hg]
      exact hnew

theorem cacheBlocks_calls (hk : KVOk k) (h : k.cacheBlocks request n = .ok k') :
    Calls (CacheOp k.specs k.blockPool.hashBlockSize request n) k k' := by
  unfold KVCacheManager.cacheBlocks at h
  split at h
  · refine Calls.forManagers (fun k₁ g m m' pool hk₁ hsame hg hm => ?_) hk h
    rw [← hsame.specs, ← hsame.pool.hashBlockSize]
    exact cacheBlocks_round hk₁ hg hm
  · obtain rfl := Except.ok.inj h
    exact .refl _ hk

/-! ### New blocks -/

def ExtendOp (r : ReqId) (op : LedgerOp κ) : Prop := ∃ g blocks, op = .extend g r blocks

theorem allocateNewBlocks_round {newBlocks : List Nat} (hk : KVOk k)
    (hg : k.singleTypeManagers[g]? = some m)
    (h : SingleTypeKVCacheManager.allocateNewBlocks m k.blockPool r n =
    .ok ((newBlocks, m'), pool)) :
    Calls (ExtendOp r) k (k.setManager g m' pool) := by
  have htab := hk.tablesOk hg
  have haccount := hk.pool_account hg
  obtain ⟨-, -, hsame⟩ := allocateNewBlocks_account haccount htab h
  obtain ⟨hm', hcase⟩ := allocateNewBlocks_ok h
  have hok : KVOk (k.setManager g m' pool) :=
    hk.setManager hg (by rw [hm']; rfl) fun c hc => allocateNewBlocks_account hc htab h
  have hothers : Ledger.SameTables g r k.ledger (k.setManager g m' pool).ledger :=
    sameTables_setManager hg fun r' hr' => by
      rw [hm']
      exact blocksOf_setBlocks_ne m _ hr'
  have htable : (k.setManager g m' pool).table g r = k.table g r ++ newBlocks := by
    rw [table_setManager_self hg, table_eq hg, hm', blocksOf_setBlocks_self]
  refine .single _ hok (.setManager hg (by rw [hm']; rfl) hsame) ⟨g, newBlocks, rfl⟩
    ⟨hothers, htable, ?_⟩
  rcases hcase with ⟨rfl, rfl, -⟩ | ⟨count, -, hget⟩
  · exact ⟨List.nodup_nil, by simp, fun _ _ => rfl, by simp⟩
  · obtain ⟨-, hnew⟩ := haccount.getNewBlocks_ok (Int.natCast_nonneg count) hget
    refine ⟨hnew.nodup, fun b hb => ?_, fun b hb => ?_, fun b hb => ?_⟩
    · obtain ⟨hne, -, hzero⟩ := hnew.fresh b hb
      exact ⟨hne, ledger_free ((refsOf_eraseIdx hg b).trans hzero)⟩
    · exact (hnew.hashOf b).trans (if_neg fun h => hb h.2)
    · refine (hnew.hashOf b).trans ?_
      simp [hb]
      rfl

theorem allocateNewBlocks_calls {newBlocks : List (List Nat)} (hk : KVOk k)
    (h : k.allocateNewBlocks r n = .ok (newBlocks, k')) : Calls (ExtendOp r) k k' := by
  simp only [KVCacheManager.allocateNewBlocks, except_bind_eq_ok, Prod.exists] at h
  obtain ⟨rs, pool, hmap, hok⟩ := h
  obtain ⟨-, rfl⟩ := ok_pair_inj hok
  have hmain := mapState_managers (Q := fun _ k₁ => Calls (ExtendOp r) k k₁)
    (R := fun _ _ => True) id Prod.snd k.singleTypeManagers
    (fun k₁ g m ms res pool hcalls _ hg hm =>
      ⟨hcalls.trans (allocateNewBlocks_round hcalls.ok hg hm), .single trivial⟩)
    k.singleTypeManagers [] [] rfl rfl k (by simp) (.refl _ hk) hmap
  simpa using hmain.1

/-! ### Prefix hits and external tokens -/

def hitTable (spec : KVCacheSpec) (null total : Nat) (hits : List Nat) : List Nat :=
  List.replicate (spec.getNumSkippedTokens total / spec.blockSize) null ++
    hits.drop (spec.getNumSkippedTokens total / spec.blockSize)

/-- The operations by which `allocate_new_computed_blocks` adds the hits `hits` for `r`. With
`checked`, the hits carry the hashes of the request. -/
def ComputedOp (k : KVCacheManager κ) (request : RequestView κ) (checked : Bool)
    (hits : List (List Nat)) (total : Nat) (op : LedgerOp κ) : Prop :=
  ExtendOp request.requestId op ∨ ∃ (g : Nat) (spec : KVCacheSpec) (blocks : List Nat),
    k.specs[g]? = some spec ∧ hits[g]? = some blocks ∧
    op = .hit g request.requestId (hitTable spec k.blockPool.nullBlock total blocks)
      (if checked then some (keysOf k.blockPool.hashBlockSize request spec) else none)

/-- Hits of one group carry the hashes of the request. -/
def HitsCarry (k : KVCacheManager κ) (request : RequestView κ) (g : Nat) (spec : KVCacheSpec)
    (total : Nat) (hits : List Nat) : Prop :=
  ∀ i b, (hitTable spec k.blockPool.nullBlock total hits)[i]? = some b →
    b ≠ k.blockPool.nullBlock → ∃ key,
      keysOf k.blockPool.hashBlockSize request spec i = some key ∧
        k.ledger.hash b = some ⟨key, g⟩

variable {loc ext : Nat} {hits : List (List Nat)}

theorem allocateNewComputedBlocks_round
    {checked : Bool} (hk : KVOk k) (hg : k.singleTypeManagers[g]? = some m)
    (hhits : hits[g]? = some blocks) (hvalid : HitsValid k.blockPool m.spec loc blocks)
    (hcarry : checked = true → HitsCarry k request g m.spec (loc + ext) blocks)
    (h : m.allocateNewComputedBlocks k.blockPool request.requestId blocks loc ext =
    .ok (m', pool)) :
    Calls (ComputedOp k request checked hits (loc + ext)) k (k.setManager g m' pool) := by
  have htab := hk.tablesOk hg
  have haccount := hk.pool_account hg
  obtain ⟨-, -, hsame⟩ := allocateNewComputedBlocks_account haccount htab hvalid h
  have hcases := allocateNewComputedBlocks_ok h
  have hkeep : m'.kvCacheGroupId = m.kvCacheGroupId ∧ m'.spec = m.spec := by
    rcases hcases with ⟨-, -, rfl, -⟩ | ⟨-, -, q, allocated, -, rfl, -⟩
    · exact ⟨rfl, rfl⟩
    · exact ⟨rfl, rfl⟩
  have hok : KVOk (k.setManager g m' pool) :=
    hk.setManager hg hkeep.1 fun c hc => allocateNewComputedBlocks_account hc htab hvalid h
  refine ⟨hok, .setManager hg hkeep.2 hsame, ?_⟩
  rcases hcases with ⟨-, -, rfl, rfl⟩ | ⟨-, hnil, q, allocated, htouch, hm', hcase⟩
  · have hsame' : (k.setManager g m' k.blockPool).ledger = k.ledger := by
      have : k.singleTypeManagers.set g m' = k.singleTypeManagers := by
        refine List.ext_getElem? fun i => ?_
        rcases eq_or_ne g i with rfl | hne
        · rw [List.getElem?_set_self (List.getElem?_eq_some_iff.mp hg).1, hg]
        · rw [List.getElem?_set_ne hne]
      rw [KVCacheManager.setManager, this]
    rw [hsame']
  obtain ⟨hq, hsameq, hhashq⟩ := touchHits_account haccount
    (fun b hb => hvalid.lt b (List.mem_of_mem_drop hb)) htouch
  have htable : computedTable m q.nullBlock (loc + ext) blocks =
      hitTable m.spec k.blockPool.nullBlock (loc + ext) blocks := by
    rw [hsameq.nullBlock]
    rfl
  rw [htable] at hm' hcase
  obtain ⟨table, hdef⟩ : ∃ table,
      table = hitTable m.spec k.blockPool.nullBlock (loc + ext) blocks := ⟨_, rfl⟩
  rw [← hdef] at hm' hcase
  -- the table with the hits, before blocks for external tokens are added
  obtain ⟨L, hL⟩ : ∃ L : Ledger κ, L = ⟨fun g' r' =>
      if g' = g ∧ r' = request.requestId then table else k.table g' r', k.ledger.hash⟩ := ⟨_, rfl⟩
  have hothers : Ledger.SameTables g request.requestId k.ledger L := by
    intro g' r' hne
    rw [hL]
    exact if_neg fun heq => hne (by rw [heq.1, heq.2])
  have hself : L.table g request.requestId = table := by
    rw [hL]
    exact if_pos ⟨rfl, rfl⟩
  have hhit : Ledger.Step k.blockPool.nullBlock k.blockPool.enableCaching k.ledger L
      (.hit g request.requestId table
        (if checked then some (keysOf k.blockPool.hashBlockSize request m.spec) else none)) := by
    refine ⟨by rw [hL], hothers, ?_, hself, fun hoff b hb => ?_, fun f hf i b hb hne => ?_⟩
    · exact (table_eq hg _).trans hnil
    · simp only [touchHits, hoff, assert_bind_eq_ok, Bool.false_eq_true, if_false] at htouch
      rw [hdef, hitTable, htouch.1, List.append_nil] at hb
      exact List.eq_of_mem_replicate hb
    · rcases checked with _ | _
      · cases hf
      · obtain rfl := Option.some.inj hf
        exact hcarry rfl i b (hdef ▸ hb) hne
  have hend : (k.setManager g m' pool).table g request.requestId = table ++ allocated := by
    rw [table_setManager_self hg, hm']
    exact blocksOf_setBlocks_self m _ _
  have hothers' : Ledger.SameTables g request.requestId L (k.setManager g m' pool).ledger := by
    intro g' r' hne
    rw [hothers g' r' hne]
    refine sameTables_setManager hg (fun r₁ hr₁ => ?_) g' r' hne
    rw [hm']
    exact blocksOf_setBlocks_ne m _ hr₁
  have hextend : Ledger.Step k.blockPool.nullBlock k.blockPool.enableCaching L
      (k.setManager g m' pool).ledger (.extend g request.requestId allocated) := by
    have hhash : L.hash = q.hashOf := by
      rw [hL]
      exact funext fun b => (hhashq b).symm
    refine ⟨hothers', by rw [hself]; exact hend, ?_⟩
    rw [hhash]
    rcases hcase with ⟨rfl, rfl⟩ | ⟨-, hget⟩
    · exact ⟨List.nodup_nil, by simp, fun _ _ => rfl, by simp⟩
    · have hlen : (table.length : Int) ≤ cdiv (loc + ext) m.spec.blockSize := by
        rw [hdef]
        exact_mod_cast computedTable_length_le m k.blockPool.nullBlock hvalid.length_le
      obtain ⟨-, hnew⟩ := hq.getNewBlocks_ok (by omega) hget
      refine ⟨hnew.nodup, fun b hb => ?_, fun b hb => ?_, fun b hb => ?_⟩
      · obtain ⟨hne, -, hzero⟩ := hnew.fresh b hb
        rw [hsameq.nullBlock] at hne
        refine ⟨hne, fun g' r' hmem => ?_⟩
        have hfree : k.ledger.Free b :=
          ledger_free ((refsOf_eraseIdx hg b).trans (by omega))
        by_cases hgr : (g', r') = (g, request.requestId)
        · obtain ⟨rfl, rfl⟩ := Prod.mk.inj hgr
          rw [hself, hdef, hitTable, List.mem_append] at hmem
          rcases hmem with hmem | hmem
          · exact hne (List.eq_of_mem_replicate hmem)
          · have := List.count_pos_iff.mpr hmem
            omega
        · rw [hothers g' r' hgr] at hmem
          exact hfree g' r' hmem
      · exact (hnew.hashOf b).trans (if_neg fun h => hb h.2)
      · refine (hnew.hashOf b).trans ?_
        rw [hsameq.enableCaching]
        simp [hb]
  refine (ReflTransGen.single ⟨_, .inr ⟨g, m.spec, blocks, specs_getElem? hg, hhits, rfl⟩, ?_⟩).tail
    ⟨_, .inl ⟨g, allocated, rfl⟩, hextend⟩
  rw [← hdef]
  exact hhit

theorem ComputedOp.congr {checked : Bool} (hsame : SameConfig k k₁)
    (h : ComputedOp k₁ request checked hits total op) :
    ComputedOp k request checked hits total op := by
  unfold ComputedOp at h ⊢
  rwa [hsame.specs, hsame.pool.nullBlock, hsame.pool.hashBlockSize] at h

theorem Ledger.Path.keeps_used {checked : Bool}
    (h : Ledger.Path null caching (ComputedOp k request checked hits total) L L')
    (hb : ¬ L.Free b) : ¬ L'.Free b ∧ L'.hash b = L.hash b := by
  refine Ledger.Path.invariant (I := fun L₁ => ¬ L₁.Free b ∧ L₁.hash b = L.hash b) ?_ h ⟨hb, rfl⟩
  intro op L₁ L₂ hop hstep hI
  obtain ⟨hused, hhash⟩ := hI
  simp only [Ledger.Free, not_forall, not_not] at hused
  obtain ⟨g₀, r₀, hmem⟩ := hused
  rcases hop with ⟨g, blocks, rfl⟩ | ⟨g, spec, blocks, -, -, rfl⟩
  · obtain ⟨hothers, htable, -, hfresh, hkeep, -⟩ := hstep
    refine ⟨fun hfree => hfree g₀ r₀ ?_, ?_⟩
    · rcases eq_or_ne (g₀, r₀) (g, request.requestId) with heq | hne
      · obtain ⟨rfl, rfl⟩ := Prod.mk.inj heq
        rw [htable]
        exact List.mem_append_left _ hmem
      · rw [hothers g₀ r₀ hne]
        exact hmem
    · exact (hkeep b fun hnew => (hfresh b hnew).2 g₀ r₀ hmem).trans hhash
  · obtain ⟨hsame, hothers, hnil, -⟩ := hstep
    refine ⟨fun hfree => hfree g₀ r₀ ?_, by rw [hsame, hhash]⟩
    rcases eq_or_ne (g₀, r₀) (g, request.requestId) with heq | hne
    · obtain ⟨rfl, rfl⟩ := Prod.mk.inj heq
      rw [hnil] at hmem
      cases hmem
    · rw [hothers g₀ r₀ hne]
      exact hmem

theorem allocateNewComputedBlocks_hash (hk : KVOk k)
    (hg : k.singleTypeManagers[g]? = some m) (hvalid : HitsValid k.blockPool m.spec loc blocks)
    (hzero : numExternalTokens m.spec loc ext = 0)
    (h : m.allocateNewComputedBlocks k.blockPool r blocks loc ext = .ok (m', pool)) (b : Nat) :
    pool.hashOf b = k.blockPool.hashOf b := by
  rcases allocateNewComputedBlocks_ok h with ⟨-, -, -, rfl⟩ | ⟨-, -, q, _, htouch, -, hcase⟩
  · rfl
  · rcases hcase with ⟨-, rfl⟩ | ⟨hpos, -⟩
    · exact (touchHits_account (hk.pool_account hg)
        (fun b hb => hvalid.lt b (List.mem_of_mem_drop hb)) htouch).2.2 b
    · omega

/-- A group that takes blocks for external tokens comes after no group with a hit that may be
taken: real hits of the later groups are in use. -/
def HitsSafe (k : KVCacheManager κ) (hits : List (List Nat)) (loc ext : Nat) : Prop :=
  ∀ (g g' : Nat) (spec spec' : KVCacheSpec) (blocks : List Nat), g < g' →
    k.specs[g]? = some spec → k.specs[g']? = some spec' → hits[g']? = some blocks →
    numExternalTokens spec loc ext = 0 ∨
      ∀ b ∈ hitTable spec' k.blockPool.nullBlock (loc + ext) blocks,
        b = k.blockPool.nullBlock ∨ ¬ k.ledger.Free b

theorem HitsSafe.of_oneGroup (hone : k.specs.length = 1) (hits : List (List Nat))
    (loc ext : Nat) : HitsSafe k hits loc ext := by
  intro g g' spec spec' blocks hlt _ hg' _
  have := (List.getElem?_eq_some_iff.mp hg').1
  omega

theorem allocateNewComputedBlocks_table
    (hg : k.singleTypeManagers[g]? = some m) (hvalid : HitsValid k.blockPool m.spec loc blocks)
    (hk : KVOk k) (hnew : m.numCachedBlock.contains r = false)
    (h : m.allocateNewComputedBlocks k.blockPool r blocks loc ext = .ok (m', pool)) :
    ∃ rest, (k.setManager g m' pool).table g r =
      hitTable m.spec k.blockPool.nullBlock (loc + ext) blocks ++ rest := by
  rcases allocateNewComputedBlocks_ok h with ⟨hcached, -⟩ | ⟨-, -, q, rest, htouch, hm', -⟩
  · rw [hnew] at hcached
    cases hcached
  · have hsame := (touchHits_account (hk.pool_account hg)
      (fun b hb => hvalid.lt b (List.mem_of_mem_drop hb)) htouch).2.1
    refine ⟨rest, ?_⟩
    rw [table_setManager_self hg, hm', ← hsame.nullBlock]
    exact blocksOf_setBlocks_self m _ _

theorem allocateNewComputedBlocks_keeps (hk : KVOk k)
    (hg : k.singleTypeManagers[g]? = some m) (hvalid : HitsValid k.blockPool m.spec loc blocks)
    (h : m.allocateNewComputedBlocks k.blockPool r blocks loc ext = .ok (m', pool))
    (hb : b ∈ hitTable m.spec k.blockPool.nullBlock (loc + ext) blocks)
    (hne : b ≠ k.blockPool.nullBlock) : pool.hashOf b = k.blockPool.hashOf b := by
  rcases allocateNewComputedBlocks_ok h with ⟨-, -, -, rfl⟩ | ⟨-, -, q, allocated, htouch, -, hcase⟩
  · rfl
  obtain ⟨hq, hsame, hhash⟩ := touchHits_account (hk.pool_account hg)
    (fun b hb => hvalid.lt b (List.mem_of_mem_drop hb)) htouch
  rcases hcase with ⟨-, rfl⟩ | ⟨-, hget⟩
  · exact hhash b
  have hlen : (computedTable m q.nullBlock (loc + ext) blocks).length ≤
      cdiv (loc + ext) m.spec.blockSize := computedTable_length_le m _ hvalid.length_le
  obtain ⟨-, hnew⟩ := hq.getNewBlocks_ok (by omega) hget
  have hmem : b ∈ blocks.drop (m.spec.getNumSkippedTokens (loc + ext) / m.spec.blockSize) := by
    rcases List.mem_append.mp hb with hb | hb
    · exact absurd (List.eq_of_mem_replicate hb) hne
    · exact hb
  rw [hnew.hashOf, if_neg, hhash]
  rintro ⟨-, hfresh⟩
  have := (hnew.fresh b hfresh).2.2
  have := List.count_pos_iff.mpr hmem
  omega

/-- Where the hits of a group are after its round: in the table, or there were none to add. -/
def HitsPlaced (k k₁ : KVCacheManager κ) (r : ReqId) (total g : Nat) (blocks : List Nat) : Prop :=
  ∀ m, k.singleTypeManagers[g]? = some m →
    if m.numCachedBlock.contains r = true then blocks = [] ∧ k₁.table g r = k.table g r
    else k.table g r = [] ∧
      ∃ rest, k₁.table g r = hitTable m.spec k.blockPool.nullBlock total blocks ++ rest

theorem HitsPlaced.used
    (h : HitsPlaced k k₁ r total g blocks) (hg : k.singleTypeManagers[g]? = some m)
    (hb : b ∈ hitTable m.spec k.blockPool.nullBlock total blocks)
    (hne : b ≠ k.blockPool.nullBlock) : ¬ k₁.ledger.Free b := by
  have hplaced := h m hg
  split at hplaced
  · obtain ⟨rfl, -⟩ := hplaced
    rw [hitTable, List.drop_nil, List.append_nil] at hb
    exact absurd (List.eq_of_mem_replicate hb) hne
  · obtain ⟨-, rest, hrest⟩ := hplaced
    intro hfree
    refine hfree g r ?_
    change b ∈ k₁.table g r
    rw [hrest]
    exact List.mem_append_left _ hb

theorem allocateNewComputedBlocks_placed {k₀ : KVCacheManager κ}
    (hk : KVOk k) (hg₀ : k₀.singleTypeManagers[g]? = some m)
    (hg : k.singleTypeManagers[g]? = some m) (hsame : SamePool k₀.blockPool k.blockPool)
    (hvalid : HitsValid k.blockPool m.spec loc blocks)
    (h : m.allocateNewComputedBlocks k.blockPool r blocks loc ext = .ok (m', pool)) :
    HitsPlaced k₀ (k.setManager g m' pool) r (loc + ext) g blocks := by
  intro m₀ hm₀
  obtain rfl := some_unique hg₀ hm₀
  split
  · next hcached =>
    rcases allocateNewComputedBlocks_ok h with ⟨-, hnil, rfl, -⟩ | ⟨hnew, -⟩
    · exact ⟨hnil, (table_setManager_self hg _ _ r).trans (table_eq hg₀ r).symm⟩
    · rw [hcached] at hnew
      cases hnew
  · next hnew =>
    rw [← hsame.nullBlock]
    refine ⟨?_, allocateNewComputedBlocks_table hg hvalid hk (by simpa using hnew) h⟩
    rcases allocateNewComputedBlocks_ok h with ⟨hcached, -⟩ | ⟨-, hnil, -⟩
    · exact absurd hcached hnew
    · exact (table_eq hg₀ r).trans hnil

theorem allocateNewComputedBlocks_calls {checked : Bool}
    (hk : KVOk k) (hlen : hits.length = k.singleTypeManagers.length)
    (hvalid : ∀ (g : Nat) spec blocks, k.specs[g]? = some spec → hits[g]? = some blocks →
    HitsValid k.blockPool spec loc blocks)
    (hcarry : checked = true → ∀ (g : Nat) spec blocks, k.specs[g]? = some spec →
    hits[g]? = some blocks → HitsCarry k request g spec (loc + ext) blocks)
    (hsafe : checked = true → HitsSafe k hits loc ext)
    (h : k.allocateNewComputedBlocks request.requestId hits loc ext = .ok k') :
    Calls (ComputedOp k request checked hits (loc + ext)) k k' ∧
    (checked = true → ∀ (g : Nat) spec blocks, k.specs[g]? = some spec →
      hits[g]? = some blocks → HitsCarry k' request g spec (loc + ext) blocks) ∧
    ∀ (g : Nat) blocks, g < k.singleTypeManagers.length → hits[g]? = some blocks →
      HitsPlaced k k' request.requestId (loc + ext) g blocks := by
  simp only [KVCacheManager.allocateNewComputedBlocks, except_bind_eq_ok, Prod.exists] at h
  obtain ⟨ms, pool, hmap, hok⟩ := h
  obtain rfl := Except.ok.inj hok
  have hsnd : (hits.zip k.singleTypeManagers).map Prod.snd = k.singleTypeManagers :=
    List.map_snd_zip (by omega)
  obtain ⟨all, hall⟩ : ∃ all, all = hits.zip k.singleTypeManagers := ⟨_, rfl⟩
  have hallLen : all.length = k.singleTypeManagers.length := by
    rw [hall, List.length_zip]
    omega
  rw [← hall] at hmap hsnd
  -- the groups before `all.length - as.length` are done
  have hmain := mapState_managers (R := fun _ _ => True) (Q := fun as k₁ =>
      Calls (ComputedOp k request checked hits (loc + ext)) k k₁ ∧
      (checked = true → ∀ (g : Nat) spec blocks, k.specs[g]? = some spec →
        hits[g]? = some blocks → HitsCarry k₁ request g spec (loc + ext) blocks) ∧
      ∀ (g : Nat) blocks, g < all.length - as.length → hits[g]? = some blocks →
        HitsPlaced k k₁ request.requestId (loc + ext) g blocks)
    Prod.snd id all (fun k₁ g e as m' pool hQ hdrop hg hround => ?_) all [] [] rfl rfl k
    (by simpa using hsnd.symm) ⟨.refl _ hk, hcarry, fun g blocks hlt => absurd hlt (by omega)⟩ hmap
  · obtain ⟨hcalls, hcarried, hdone⟩ := hmain.1
    simp only [List.nil_append, List.map_id] at hcalls hcarried hdone
    exact ⟨hcalls, hcarried, fun g blocks hlt => hdone g blocks (by simp; omega)⟩
  · obtain ⟨hcalls, hcarry₁, hdone⟩ := hQ
    obtain ⟨blocks, m⟩ := e
    have hcount : all.length - (((blocks, m) :: as).length) = g ∧ all.length - as.length = g + 1 := by
      have := congrArg List.length hdrop
      simp at this ⊢
      omega
    rw [hcount.1] at hdone
    rw [hcount.2]
    have hzip : all[g]? = some (blocks, m) := by
      have := congrArg (·[0]?) hdrop
      simpa using this
    rw [hall, List.getElem?_zip_eq_some] at hzip
    obtain ⟨hblocks, hm⟩ := hzip
    have hspec := specs_getElem? hm
    have hvalid₁ : HitsValid k₁.blockPool m.spec loc blocks :=
      hitsValid_congr (hvalid g m.spec blocks hspec hblocks) hcalls.same.pool
    have hstep : Calls (ComputedOp k₁ request checked hits (loc + ext)) k₁
        (k₁.setManager g m' pool) := allocateNewComputedBlocks_round hcalls.ok hg hblocks hvalid₁
      (fun hc => hcarry₁ hc g m.spec blocks hspec hblocks) hround
    have hsame₂ : SamePool k.blockPool pool := hcalls.same.pool.trans hstep.same.pool
    refine ⟨⟨hcalls.trans (hstep.mono fun op => ComputedOp.congr hcalls.same), ?_, ?_⟩,
      .single trivial⟩
    · intro hc g' spec' blocks' hspec' hblocks' i b hb hne
      change (hitTable spec' pool.nullBlock (loc + ext) blocks')[i]? = some b at hb
      change b ≠ pool.nullBlock at hne
      rw [hsame₂.nullBlock] at hb hne
      obtain ⟨key, hkey, hhash⟩ := hcarry₁ hc g' spec' blocks' hspec' hblocks' i b
        (by rwa [hcalls.same.pool.nullBlock]) (by rwa [hcalls.same.pool.nullBlock])
      rw [hcalls.same.pool.hashBlockSize] at hkey
      refine ⟨key, hsame₂.hashBlockSize ▸ hkey, ?_⟩
      rw [← hhash]
      -- the round leaves the hash of the hit alone
      have hmem := List.mem_of_getElem? hb
      rcases Nat.lt_trichotomy g g' with hlt | rfl | hlt
      · rcases hsafe hc g g' m.spec spec' blocks' hlt hspec hspec' hblocks' with hzero | hused
        · exact allocateNewComputedBlocks_hash hcalls.ok hg hvalid₁ hzero hround b
        · have hinUse := (hused b hmem).resolve_left hne
          exact (hstep.path.keeps_used (hcalls.path.keeps_used hinUse).1).2
      · obtain rfl := some_unique hspec hspec'
        obtain rfl := some_unique hblocks hblocks'
        rw [← hcalls.same.pool.nullBlock] at hmem hne
        exact allocateNewComputedBlocks_keeps hcalls.ok hg hvalid₁ hround hmem hne
      · obtain ⟨m₀, hm₀, rfl⟩ : ∃ m, k.singleTypeManagers[g']? = some m ∧ m.spec = spec' := by
          rw [KVCacheManager.specs, List.getElem?_map] at hspec'
          exact Option.map_eq_some_iff.mp hspec'
        exact (hstep.path.keeps_used ((hdone g' blocks' hlt hblocks').used hm₀ hmem hne)).2
    · intro g' blocks' hlt' hblocks'
      rcases Nat.lt_succ_iff_lt_or_eq.mp hlt' with hlt' | rfl
      · intro m₀ hm₀
        have hplaced := hdone g' blocks' hlt' hblocks' m₀ hm₀
        split at hplaced
        · next hcached =>
          rw [if_pos hcached]
          exact ⟨hplaced.1, (table_setManager_ne (by omega) k₁ _ pool _).trans hplaced.2⟩
        · next hnew =>
          rw [if_neg hnew]
          obtain ⟨hnil, rest, hrest⟩ := hplaced
          exact ⟨hnil, rest, (table_setManager_ne (by omega) k₁ _ pool _).trans hrest⟩
      · obtain rfl := some_unique hblocks hblocks'
        exact allocateNewComputedBlocks_placed hcalls.ok hm hg hcalls.same.pool hvalid₁ hround

end Calls

/-! ### `allocate_slots` -/

section AllocateSlots

variable {args : AllocateSlotsArgs} {checked : Bool}

def totalComputed (request : RequestView κ) (args : AllocateSlotsArgs) : Nat :=
  request.numComputedTokens + args.numNewComputedTokens + args.numExternalComputedTokens

def tokensToCache (k : KVCacheManager κ) (request : RequestView κ) (args : AllocateSlotsArgs) :
    Nat :=
  min (min (totalComputed request args) k.maxModelLen + args.numNewTokens) request.numTokens

def AllocateOp (k : KVCacheManager κ) (request : RequestView κ) (args : AllocateSlotsArgs)
    (checked : Bool) (op : LedgerOp κ) : Prop :=
  SkipOp k.specs request.requestId (min (totalComputed request args) k.maxModelLen) op ∨
  ComputedOp k request checked args.newComputedBlocks (totalComputed request args) op ∨
  args.delayCacheBlocks = false ∧
    CacheOp k.specs k.blockPool.hashBlockSize request (tokensToCache k request args) op

theorem hitTable_getElem? {i : Nat} {hits : List Nat}
    (h : (hitTable spec null total hits)[i]? = some b) (hne : b ≠ null) : hits[i]? = some b := by
  unfold hitTable at h
  rw [List.getElem?_append] at h
  split at h
  · obtain ⟨hlt, hget⟩ := List.getElem?_eq_some_iff.mp h
    rw [List.getElem_replicate] at hget
    exact absurd hget.symm hne
  · next hle =>
    rw [List.length_replicate] at h hle
    rw [List.getElem?_drop, Nat.add_sub_cancel' (by omega)] at h
    exact h

theorem LookupOk.hitsCarry (hlookup : LookupOk k request args) (hk : KVOk k) {g : Nat}
    (hspec : k.specs[g]? = some spec)
    (hblocks : args.newComputedBlocks[g]? = some blocks) (total : Nat) :
    HitsCarry k request g spec total blocks := by
  intro i b hb hne
  have hi := hitTable_getElem? hb hne
  obtain ⟨m, hm, rfl⟩ : ∃ m, k.singleTypeManagers[g]? = some m ∧ m.spec = spec := by
    rw [KVCacheManager.specs, List.getElem?_map] at hspec
    exact Option.map_eq_some_iff.mp hspec
  have hmem : (blocks, m) ∈ args.newComputedBlocks.zip k.singleTypeManagers :=
    List.mem_of_getElem? (List.getElem?_zip_eq_some.mpr ⟨hblocks, hm⟩)
  have hhit := (hlookup.2 _ hmem).2 (b, i) (List.mem_zipIdx_iff_getElem?.mpr hi)
  obtain ⟨key, hkey, hcached⟩ := Option.bind_eq_some_iff.mp (hhit.resolve_left hne)
  refine ⟨key, hkey, ?_⟩
  rw [← hk.ids g m hm]
  exact (hk.pool.hash_iff _ _).mpr (BlockHashToBlockMap.stored_of_getOneBlock hcached)

theorem HitsCarry.congr {g : Nat}
    (h : HitsCarry k request g spec total blocks) (hsame : SameConfig k k₁)
    (hhash : k₁.ledger.hash = k.ledger.hash) : HitsCarry k₁ request g spec total blocks := by
  unfold HitsCarry at h ⊢
  rwa [hsame.pool.nullBlock, hsame.pool.hashBlockSize, hhash]

theorem Ledger.Path.skip_hash {specs : List KVCacheSpec}
    {r : ReqId} (h : Ledger.Path null caching (SkipOp specs r total) L L') :
    L'.hash = L.hash := by
  refine Ledger.Path.invariant (I := fun L₁ => L₁.hash = L.hash) ?_ h rfl
  rintro op L₁ L₂ ⟨g, spec, -, rfl⟩ ⟨hhash, -⟩ hI
  exact hhash.trans hI

theorem LookupOk.hitsValid_getElem? (hlookup : LookupOk k request args) (hk : KVOk k) {g : Nat}
    (hspec : k.specs[g]? = some spec) (hblocks : args.newComputedBlocks[g]? = some blocks) :
    HitsValid k.blockPool spec (request.numComputedTokens + args.numNewComputedTokens) blocks :=
  hlookup.hitsValid hk.toKVInv (blocks, spec)
    (List.mem_of_getElem? (List.getElem?_zip_eq_some.mpr ⟨hblocks, hspec⟩))

theorem addComputedBlocks_calls (hk : KVOk k) (hlookup : LookupOk k request args)
    (hskip : Calls (SkipOp k.specs request.requestId
    (min (totalComputed request args) k.maxModelLen)) k k₁)
    (hsafe : checked = true → HitsSafe k₁ args.newComputedBlocks
    (request.numComputedTokens + args.numNewComputedTokens) args.numExternalComputedTokens)
    (h : k₁.addComputedBlocks request args = .ok k') :
    Calls (ComputedOp k request checked args.newComputedBlocks (totalComputed request args)) k₁ k' ∧
    (checked = true → ∀ (g : Nat) spec blocks, k.specs[g]? = some spec →
      args.newComputedBlocks[g]? = some blocks →
      HitsCarry k' request g spec (totalComputed request args) blocks) ∧
    (args.newComputedBlocks.any (· ≠ []) ∨ 0 < args.numExternalComputedTokens →
      ∀ (g : Nat) blocks, g < k₁.singleTypeManagers.length →
        args.newComputedBlocks[g]? = some blocks →
        HitsPlaced k₁ k' request.requestId (totalComputed request args) g blocks) := by
  have hspecs := hskip.same.specs
  have hcarry : ∀ (g : Nat) spec blocks, k₁.specs[g]? = some spec →
      args.newComputedBlocks[g]? = some blocks →
      HitsCarry k₁ request g spec (totalComputed request args) blocks := by
    intro g spec blocks hspec hblocks
    exact (hlookup.hitsCarry hk (hspecs ▸ hspec) hblocks _).congr hskip.same
      hskip.path.skip_hash
  unfold KVCacheManager.addComputedBlocks at h
  split at h
  · have hlen : args.newComputedBlocks.length = k₁.singleTypeManagers.length := by
      have := congrArg List.length hspecs
      simp only [KVCacheManager.specs, List.length_map] at this
      exact hlookup.1.trans this.symm
    have hmain : Calls (ComputedOp k₁ request checked args.newComputedBlocks
        (totalComputed request args)) k₁ k' ∧ _ := allocateNewComputedBlocks_calls hskip.ok hlen
      (fun g spec blocks hspec hblocks => hitsValid_congr
        (hlookup.hitsValid_getElem? hk (hspecs ▸ hspec) hblocks) hskip.same.pool)
      (fun _ => hcarry) hsafe h
    rw [← hspecs]
    exact ⟨hmain.1.mono fun op => ComputedOp.congr hskip.same, hmain.2.1, fun _ => hmain.2.2⟩
  · next hnone =>
    obtain rfl := Except.ok.inj h
    rw [← hspecs]
    exact ⟨.refl _ hskip.ok, fun _ => hcarry, fun hsome => absurd hsome hnone⟩

theorem commitBlocks_calls (hk : KVOk k)
    (h : k.commitBlocks request args (totalComputed request args) = .ok k') :
    Calls (fun op => args.delayCacheBlocks = false ∧ CacheOp k.specs k.blockPool.hashBlockSize
      request (tokensToCache k request args) op) k k' := by
  unfold KVCacheManager.commitBlocks at h
  split at h
  · obtain rfl := Except.ok.inj h
    exact .refl _ hk
  · next hcommit =>
    have hdelay : args.delayCacheBlocks = false := by
      simpa using fun hd => hcommit (.inr hd)
    exact (cacheBlocks_calls hk h).mono fun op hop => ⟨hdelay, hop⟩

theorem CacheOp.congr (hsame : SameConfig k k₁)
    (h : CacheOp k₁.specs k₁.blockPool.hashBlockSize request n op) :
    CacheOp k.specs k.blockPool.hashBlockSize request n op := by
  rwa [hsame.specs, hsame.pool.hashBlockSize] at h

theorem allocateSlots_calls {res : Option (List (List Nat))} (hk : KVOk k)
    (hlookup : LookupOk k request args)
    (hsafe : checked = true → ∀ k₁, Calls (SkipOp k.specs request.requestId
      (min (totalComputed request args) k.maxModelLen)) k k₁ →
      HitsSafe k₁ args.newComputedBlocks (request.numComputedTokens + args.numNewComputedTokens)
        args.numExternalComputedTokens)
    (h : k.allocateSlots request args = .ok (res, k')) :
    Calls (AllocateOp k request args checked) k k' := by
  rcases allocateSlots_ok h with ⟨-, rfl⟩ | ⟨k₁, hremove, hcases⟩
  · exact .refl _ hk
  have hskip := removeSkippedBlocks_calls hk hremove
  have hfirst : Calls (AllocateOp k request args checked) k k₁ := hskip.mono fun op => .inl
  rcases hcases with ⟨-, rfl⟩ | ⟨k₂, newBlocks, k₃, -, hadd, halloc, hcommit⟩
  · exact hfirst
  obtain ⟨hcomputed, -⟩ := addComputedBlocks_calls hk hlookup hskip (fun hc => hsafe hc k₁ hskip)
    hadd
  have hextend := allocateNewBlocks_calls hcomputed.ok halloc
  have hcache := commitBlocks_calls hextend.ok hcommit
  have hsame₃ := hskip.same.trans (hcomputed.same.trans hextend.same)
  refine hfirst.trans ((hcomputed.mono fun op hop => .inr (.inl hop)).trans
    ((hextend.mono fun op hop => .inr (.inl (.inl hop))).trans (hcache.mono fun op hop => ?_)))
  refine .inr (.inr ⟨hop.1, CacheOp.congr hsame₃ ?_⟩)
  have htokens : tokensToCache k₃ request args = tokensToCache k request args := by
    unfold tokensToCache
    rw [hsame₃.maxModelLen]
  rw [← htokens]
  exact hop.2

theorem AllocateOp.on (h : AllocateOp k request args checked op) :
    op.On (· = request.requestId) := by
  obtain ⟨g, spec, -, rfl⟩ | (⟨g, blocks, rfl⟩ | ⟨g, spec, blocks, -, -, rfl⟩) |
    ⟨-, g, spec, first, last, -, -, rfl⟩ := h
  all_goals rfl

theorem Ledger.Path.cache_table {P : LedgerOp κ → Prop} {specs : List KVCacheSpec} {hbs : Nat}
    (hP : ∀ op, P op → CacheOp specs hbs request n op)
    (h : Ledger.Path null caching P L L') : L'.table = L.table := by
  refine Ledger.Path.invariant (I := fun L₁ => L₁.table = L.table) ?_ h rfl
  intro op L₁ L₂ hop hstep hI
  obtain ⟨g, spec, first, last, -, -, rfl⟩ := hP op hop
  exact hstep.1.trans hI

theorem Ledger.Path.extend_table {r : ReqId}
    (h : Ledger.Path null caching (ExtendOp r) L L') (g : Nat) (r' : ReqId) :
    ∃ rest, L'.table g r' = L.table g r' ++ rest := by
  refine Ledger.Path.invariant (I := fun L₁ => ∃ rest, L₁.table g r' = L.table g r' ++ rest) ?_ h
    ⟨[], (List.append_nil _).symm⟩
  rintro op L₁ L₂ ⟨g₁, blocks, rfl⟩ ⟨hothers, htable, -⟩ ⟨rest, hrest⟩
  rcases eq_or_ne (g, r') (g₁, r) with heq | hne
  · obtain ⟨rfl, rfl⟩ := Prod.mk.inj heq
    exact ⟨rest ++ blocks, by rw [htable, hrest, List.append_assoc]⟩
  · exact ⟨rest, (hothers g r' hne).trans hrest⟩

end AllocateSlots

end EldrServing.KVCache
