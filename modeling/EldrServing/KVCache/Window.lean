import EldrServing.KVCache.Lookup
import EldrServing.KVCache.Ownership
import EldrServing.KVCache.Predictor
import Mathlib.Data.List.Induction

/-!
# Recycling the blocks of a sliding window

The table of a request in a sliding-window group begins with null blocks, one for each block
that has left the window, and holds real blocks behind them. How many of these there can be is
`SlidingWindowSpec.max_admission_blocks_per_request`.
-/

namespace EldrServing.KVCache

set_option autoImplicit false

open Machine SingleTypeKVCacheManager

variable {κ : Type} [DecidableEq κ]

def SlidingWindowSpec.maxAdmissionBlocksPerRequest
    (blockSize slidingWindow maxNumBatchedTokens maxModelLen : Nat) : Nat :=
  let numTokens := min (slidingWindow - 1 + maxNumBatchedTokens) maxModelLen
  cdiv numTokens blockSize + 1

/-! ### Tables that begin with null blocks -/

/-- The first `z` blocks are null and the others are not. -/
def NullPrefix (null z : Nat) (blocks : List Nat) : Prop :=
  ∃ rest, blocks = List.replicate z null ++ rest ∧ null ∉ rest

section NullPrefix

variable {null z n i : Nat} {blocks bs : List Nat}

theorem skipLoop_replicate (null z : Nat) (rest : List Nat) :
    (skipLoop null z (List.replicate z null ++ rest)).2 = List.replicate z null ++ rest := by
  cases z with
  | zero => rfl
  | succ z =>
    rw [skipLoop, List.getElem?_append_left (by simp), List.getElem?_replicate_of_lt (by omega)]
    simp

theorem skipLoop_clears (z : Nat) {mid : List Nat} (hmid : null ∉ mid) (rest : List Nat) :
    (skipLoop null (z + mid.length) (List.replicate z null ++ (mid ++ rest))).2 =
      List.replicate (z + mid.length) null ++ rest := by
  induction mid using List.reverseRecOn generalizing rest with
  | nil => exact skipLoop_replicate null z rest
  | append_singleton mid b ih =>
    rw [List.mem_append, not_or] at hmid
    have hb : b ≠ null := fun heq => hmid.2 (by simp [heq])
    have hget : (List.replicate z null ++ (mid ++ [b] ++ rest))[z + mid.length]? = some b := by
      rw [List.getElem?_append_right (by simp)]
      simp
    have hset : (List.replicate z null ++ (mid ++ [b] ++ rest)).set (z + mid.length) null =
        List.replicate z null ++ (mid ++ null :: rest) := by
      rw [List.set_append_right _ _ (by simp)]
      simp
    rw [List.length_append, List.length_singleton, ← Nat.add_assoc, skipLoop, hget]
    simp only [if_neg hb, hset]
    rw [ih hmid.1, List.replicate_succ', List.append_assoc]
    rfl

theorem NullPrefix.skipLoop (h : NullPrefix null z blocks) (hz : z ≤ n) (hn : n ≤ blocks.length) :
    NullPrefix null n (skipLoop null n blocks).2 := by
  obtain ⟨rest, rfl, hrest⟩ := h
  rw [List.length_append, List.length_replicate] at hn
  have hlen : z + (rest.take (n - z)).length = n := by
    rw [List.length_take]
    omega
  have htake : null ∉ rest.take (n - z) := fun hmem => hrest (List.mem_of_mem_take hmem)
  have hclears := skipLoop_clears z htake (rest.drop (n - z))
  rw [hlen, List.take_append_drop] at hclears
  exact ⟨rest.drop (n - z), hclears, fun hmem => hrest (List.mem_of_mem_drop hmem)⟩

theorem NullPrefix.append (h : NullPrefix null z blocks) (hbs : null ∉ bs) :
    NullPrefix null z (blocks ++ bs) := by
  obtain ⟨rest, rfl, hrest⟩ := h
  refine ⟨rest ++ bs, List.append_assoc _ _ _, ?_⟩
  rw [List.mem_append, not_or]
  exact ⟨hrest, hbs⟩

theorem NullPrefix.length_le (h : NullPrefix null z blocks) : z ≤ blocks.length := by
  obtain ⟨rest, rfl, -⟩ := h
  simp

theorem NullPrefix.getElem? (h : NullPrefix null z blocks) (hz : z ≤ i) (hi : i < blocks.length) :
    ∃ b, blocks[i]? = some b ∧ b ≠ null := by
  obtain ⟨rest, rfl, hrest⟩ := h
  have hget := List.getElem?_eq_getElem hi
  refine ⟨_, hget, fun heq => hrest ?_⟩
  rw [heq, List.getElem?_append_right (by simpa using hz)] at hget
  exact List.mem_of_getElem? hget

theorem NullPrefix.length_realBlocks (h : NullPrefix null z blocks) :
    (realBlocks null blocks).length = blocks.length - z := by
  obtain ⟨rest, rfl, hrest⟩ := h
  have hall : rest.filter (· ≠ null) = rest :=
    List.filter_eq_self.mpr fun b hb => by
      simpa using fun heq : b = null => hrest (heq ▸ hb)
  rw [realBlocks, List.filter_append, hall]
  simp

theorem NullPrefix.nil (null : Nat) : NullPrefix null 0 [] := ⟨[], rfl, by simp⟩

end NullPrefix

theorem cdiv_sub_div_le {a s x : Nat} {bs : Nat} (hbs : 0 < bs) (h : a ≤ s + x) :
    cdiv a bs - s / bs ≤ cdiv x bs + 1 := by
  have hx := le_cdiv_mul x hbs
  have hs := Nat.lt_div_mul_add hbs (a := s)
  have hle : cdiv a bs ≤ s / bs + (cdiv x bs + 1) := by
    rw [cdiv, Nat.div_le_iff_le_mul_add_pred hbs]
    rw [Nat.mul_comm bs, Nat.add_mul, Nat.add_mul, Nat.one_mul]
    omega
  omega

/-! ### The window of a table -/

/-- A table whose blocks cover `d` tokens, up to `maxModelLen`, and whose null blocks lie outside
the window of the token `d` and include those outside the window of the token `c`. -/
structure Recycled (spec : KVCacheSpec) (null maxModelLen c d : Nat) (blocks : List Nat) : Prop where
  nulls : ∃ z, spec.getNumSkippedTokens c / spec.blockSize ≤ z ∧
    z ≤ spec.getNumSkippedTokens d / spec.blockSize ∧ NullPrefix null z blocks
  length : blocks.length = cdiv (min d maxModelLen) spec.blockSize

section Window

variable {spec : KVCacheSpec} {w null maxModelLen c d : Nat} {blocks : List Nat}

variable {p : Nat}

theorem lt_length_of_lt {n : Nat} (hlen : blocks.length = cdiv n spec.blockSize) (hp : p < n) :
    p / spec.blockSize < blocks.length := by
  have hle := le_cdiv_mul n spec.blockSize_pos
  rw [Nat.div_lt_iff_lt_mul spec.blockSize_pos, hlen]
  omega

/-- No position of the window at `c` lies in one of the null blocks. -/
theorem skipped_le_div (hspec : spec.attention = .slidingWindow w) (hp : c ≤ p + (w - 1)) :
    spec.getNumSkippedTokens c / spec.blockSize ≤ p / spec.blockSize := by
  have hw := spec.window_pos w hspec
  refine Nat.div_le_div_right ?_
  rw [KVCacheSpec.getNumSkippedTokens, hspec]
  simp only
  omega

theorem NullPrefix.window (hspec : spec.attention = .slidingWindow w) {n : Nat}
    (h : NullPrefix null (spec.getNumSkippedTokens c / spec.blockSize) blocks)
    (hlen : blocks.length = cdiv n spec.blockSize) (hp : c ≤ p + (w - 1)) (hlt : p < n) :
    ∃ b, blocks[p / spec.blockSize]? = some b ∧ b ≠ null :=
  h.getElem? (skipped_le_div hspec hp) (lt_length_of_lt hlen hlt)

theorem Recycled.window (hspec : spec.attention = .slidingWindow w)
    (h : Recycled spec null maxModelLen c d blocks) (hp : d ≤ p + (w - 1))
    (hlt : p < min d maxModelLen) : ∃ b, blocks[p / spec.blockSize]? = some b ∧ b ≠ null := by
  obtain ⟨z, -, hz, hnulls⟩ := h.nulls
  exact hnulls.getElem? (hz.trans (skipped_le_div hspec hp)) (lt_length_of_lt h.length hlt)

theorem Recycled.bounded (hspec : spec.attention = .slidingWindow w)
    (h : Recycled spec null maxModelLen c d blocks) {B : Nat} (hB : d ≤ c + B) :
    (realBlocks null blocks).length ≤
      SlidingWindowSpec.maxAdmissionBlocksPerRequest spec.blockSize w B maxModelLen := by
  obtain ⟨z, hz, -, hnulls⟩ := h.nulls
  have hw := spec.window_pos w hspec
  have hskip : spec.getNumSkippedTokens c = c + 1 - w := by
    rw [KVCacheSpec.getNumSkippedTokens, hspec]
  have hbound := cdiv_sub_div_le (a := min d maxModelLen) (s := spec.getNumSkippedTokens c)
    (x := min (w - 1 + B) maxModelLen) spec.blockSize_pos (by omega)
  rw [hnulls.length_realBlocks, h.length, SlidingWindowSpec.maxAdmissionBlocksPerRequest]
  omega

end Window

/-! ### What the stages of `allocate_slots` do to one table -/

variable {total numTokens loc ext : Nat} {newBlocks : List (List Nat)}

section Stages

variable {k k' : KVCacheManager κ} {rid : ReqId} {m m' : SingleTypeKVCacheManager}

/-- The table of `rid` is `start` with real blocks behind it, up to `n` blocks in all. -/
structure Grows (null : Nat) (rid : ReqId) (start : List Nat) (n : Nat)
    (m m' : SingleTypeKVCacheManager) : Prop where
  spec : m'.spec = m.spec
  begins : ∃ fresh, m'.blocksOf rid = start ++ fresh ∧ null ∉ fresh
  length_le : (m'.blocksOf rid).length ≤ max start.length n

theorem Grows.refl (null : Nat) (rid : ReqId) (n : Nat) (m : SingleTypeKVCacheManager) :
    Grows null rid (m.blocksOf rid) n m m :=
  ⟨rfl, ⟨[], by simp, by simp⟩, Nat.le_max_left _ _⟩

variable {pool : BlockPool κ}

theorem allocateNewComputedBlocks_grows {pool' : BlockPool κ} {c : Nat → Nat}
    {hits : List Nat} (hinv : PoolInv pool fun b => c b + m.refs b)
    (hhits : HitsValid pool m.spec loc hits)
    (h : m.allocateNewComputedBlocks pool rid hits loc ext = .ok (m', pool')) :
    Grows pool.nullBlock rid (if m.numCachedBlock.contains rid then m.blocksOf rid
      else hitTable m.spec pool.nullBlock (loc + ext) hits)
      (cdiv (loc + ext) m.spec.blockSize) m m' := by
  rcases allocateNewComputedBlocks_ok h with
    ⟨hc, -, rfl, -⟩ | ⟨hc, -, q, allocated, htouch, rfl, hcase⟩
  · rw [if_pos hc]
    exact Grows.refl _ rid _ m'
  have hlen : (computedTable m q.nullBlock (loc + ext) hits).length ≤
      cdiv (loc + ext) m.spec.blockSize :=
    computedTable_length_le m q.nullBlock hhits.length_le
  obtain ⟨hq, hsame, -⟩ := touchHits_account hinv
    (fun b hb => hhits.lt b (List.mem_of_mem_drop hb)) htouch
  have htable : hitTable m.spec pool.nullBlock (loc + ext) hits =
      computedTable m q.nullBlock (loc + ext) hits := by
    rw [hsame.nullBlock]
    rfl
  have hnew : pool.nullBlock ∉ allocated ∧ (computedTable m q.nullBlock (loc + ext) hits).length +
      allocated.length ≤ max (computedTable m q.nullBlock (loc + ext) hits).length
        (cdiv (loc + ext) m.spec.blockSize) := by
    rcases hcase with ⟨rfl, -⟩ | ⟨-, hget⟩
    · exact ⟨by simp, Nat.le_max_left _ _⟩
    · obtain ⟨hcount, hfresh⟩ := hq.getNewBlocks_ok (by omega) hget
      refine ⟨fun hmem => (hfresh.fresh _ hmem).1 hsame.nullBlock.symm, ?_⟩
      omega
  rw [hc, htable]
  refine ⟨rfl, ⟨allocated, blocksOf_setBlocks_self m _ _, hnew.1⟩, ?_⟩
  refine le_trans (le_of_eq ?_) hnew.2
  exact (congrArg List.length (blocksOf_setBlocks_self m rid _)).trans List.length_append

theorem allocateNewBlocks_grows {pool' : BlockPool κ} {c : Nat → Nat}
    {newBlocks : List Nat} (hinv : PoolInv pool fun b => c b + m.refs b)
    (h : m.allocateNewBlocks pool rid numTokens = .ok ((newBlocks, m'), pool')) :
    Grows pool.nullBlock rid (m.blocksOf rid) (cdiv numTokens m.spec.blockSize) m m' ∧
      cdiv numTokens m.spec.blockSize ≤ (m'.blocksOf rid).length := by
  obtain ⟨rfl, hcase⟩ := allocateNewBlocks_ok h
  have hlen : ((m.setBlocks rid (m.blocksOf rid ++ newBlocks)).blocksOf rid).length =
      (m.blocksOf rid).length + newBlocks.length := by
    rw [blocksOf_setBlocks_self, List.length_append]
  rcases hcase with ⟨rfl, -, hle⟩ | ⟨n, hn, hget⟩
  · refine ⟨⟨rfl, ⟨[], blocksOf_setBlocks_self m _ _, by simp⟩, ?_⟩, ?_⟩ <;>
      rw [hlen, List.length_nil] <;> omega
  · obtain ⟨hcount, hfresh⟩ := hinv.getNewBlocks_ok (Int.natCast_nonneg n) hget
    refine ⟨⟨rfl, ⟨newBlocks, blocksOf_setBlocks_self m _ _, ?_⟩, ?_⟩, ?_⟩
    · exact fun hmem => (hfresh.fresh _ hmem).1 rfl
    · omega
    · omega

theorem Grows.trans {null n n' : Nat} {start : List Nat} {m₁ : SingleTypeKVCacheManager}
    (h : Grows null rid start n m m₁) (h' : Grows null rid (m₁.blocksOf rid) n' m₁ m') :
    Grows null rid start (max n n') m m' := by
  obtain ⟨fresh, hfresh, hnull⟩ := h.begins
  obtain ⟨fresh', hfresh', hnull'⟩ := h'.begins
  refine ⟨h'.spec.trans h.spec, ⟨fresh ++ fresh', ?_, ?_⟩, ?_⟩
  · rw [hfresh', hfresh, List.append_assoc]
  · rw [List.mem_append, not_or]
    exact ⟨hnull, hnull'⟩
  · have hle := h.length_le
    have hle' := h'.length_le
    omega

theorem allocateNewComputedBlocks_group {hits : List (List Nat)} {g : Nat}
    {blocks : List Nat} (hk : KVInv k) (hlen : hits.length = k.singleTypeManagers.length)
    (hvalid : ∀ e ∈ hits.zip (k.singleTypeManagers.map (·.spec)), HitsValid k.blockPool e.2 loc e.1)
    (h : k.allocateNewComputedBlocks rid hits loc ext = .ok k')
    (hg : k.singleTypeManagers[g]? = some m) (hblocks : hits[g]? = some blocks) :
    ∃ m', k'.singleTypeManagers[g]? = some m' ∧
      Grows k.blockPool.nullBlock rid (if m.numCachedBlock.contains rid then m.blocksOf rid
        else hitTable m.spec k.blockPool.nullBlock (loc + ext) blocks)
        (cdiv (loc + ext) m.spec.blockSize) m m' := by
  simp only [KVCacheManager.allocateNewComputedBlocks, except_bind_eq_ok, Prod.exists] at h
  obtain ⟨ms, pool, hmap, hok⟩ := h
  obtain rfl := Except.ok.inj hok
  have hsnd : (hits.zip k.singleTypeManagers).map Prod.snd = k.singleTypeManagers :=
    List.map_snd_zip (by omega)
  obtain ⟨hall, -⟩ := KVInv.of_mapState (k := k) Prod.snd id
    (fun e => TablesOk k.blockPool.nullBlock e.2 ∧ HitsValid k.blockPool e.2.spec loc e.1)
    (R := fun e m' => Grows k.blockPool.nullBlock rid
      (if e.2.numCachedBlock.contains rid then e.2.blocksOf rid
        else hitTable e.2.spec k.blockPool.nullBlock (loc + ext) e.1)
      (cdiv (loc + ext) e.2.spec.blockSize) e.2 m')
    (fun e s t m' c hP hI hsame hf => by
      have hhits := hitsValid_congr hP.2 hsame
      rw [← hsame.nullBlock] at hP ⊢
      exact ⟨allocateNewComputedBlocks_grows hI hhits hf,
        allocateNewComputedBlocks_account hI hP.1 hhits hf⟩)
    (fun e he => by
      refine ⟨hk.tables e.2 (List.of_mem_zip he).2, hvalid (e.1, e.2.spec) ?_⟩
      rw [List.zip_map_right]
      exact List.mem_map.mpr ⟨e, he, rfl⟩)
    (by rw [hsnd]; exact hk.pool) hmap
  have hzip : (hits.zip k.singleTypeManagers)[g]? = some (blocks, m) :=
    List.getElem?_zip_eq_some.mpr ⟨hblocks, hg⟩
  exact forall₂_getElem?_left hall hzip

theorem allocateNewBlocks_group {g : Nat} (hk : KVInv k)
    (h : k.allocateNewBlocks rid numTokens = .ok (newBlocks, k'))
    (hg : k.singleTypeManagers[g]? = some m) :
    ∃ m', k'.singleTypeManagers[g]? = some m' ∧
      Grows k.blockPool.nullBlock rid (m.blocksOf rid) (cdiv numTokens m.spec.blockSize) m m' ∧
      cdiv numTokens m.spec.blockSize ≤ (m'.blocksOf rid).length := by
  simp only [KVCacheManager.allocateNewBlocks, except_bind_eq_ok, Prod.exists] at h
  obtain ⟨rs, pool, hmap, hok⟩ := h
  obtain ⟨-, rfl⟩ := ok_pair_inj hok
  obtain ⟨hall, -⟩ := KVInv.of_mapState (k := k) id Prod.snd
    (fun m => TablesOk k.blockPool.nullBlock m) (R := fun m r => Grows k.blockPool.nullBlock rid (m.blocksOf rid) (cdiv numTokens m.spec.blockSize)
      m r.2 ∧ cdiv numTokens m.spec.blockSize ≤ (r.2.blocksOf rid).length)
    (fun m s t r c hP hI hsame hf => by
      rw [← hsame.nullBlock] at hP ⊢
      exact ⟨allocateNewBlocks_grows hI hf, allocateNewBlocks_account hI hP hf⟩)
    hk.tables (by simpa using hk.pool) hmap
  obtain ⟨r, hr, hgrows⟩ := forall₂_getElem?_left hall hg
  exact ⟨r.2, by simp [hr], hgrows⟩

theorem cacheBlocks_group {request : RequestView κ} {n g : Nat}
    (h : k.cacheBlocks request n = .ok k') (hg : k.singleTypeManagers[g]? = some m) :
    ∃ m', k'.singleTypeManagers[g]? = some m' ∧ m'.spec = m.spec ∧
      ∀ r, m'.blocksOf r = m.blocksOf r := by
  unfold KVCacheManager.cacheBlocks at h
  split at h
  · obtain ⟨ms, pool, hmap, rfl⟩ := forManagers_ok h
    refine forall₂_getElem?_left (mapState_forall₂
      (R := fun m m' => m'.spec = m.spec ∧ ∀ r, m'.blocksOf r = m.blocksOf r)
      (fun m s m' t hm => ?_) hmap) hg
    rcases cacheBlocks_ok hm with ⟨-, rfl, -⟩ | ⟨-, -, rfl⟩
    · exact ⟨rfl, fun _ => rfl⟩
    · refine ⟨rfl, fun r => ?_⟩
      by_cases hr : r = request.requestId
      · subst hr
        exact blocksOf_setBlocks_self m _ _
      · exact blocksOf_setBlocks_ne m _ hr
  · obtain rfl := Except.ok.inj h
    exact ⟨m, hg, rfl, fun _ => rfl⟩

theorem commitBlocks_group {request : RequestView κ} {args : AllocateSlotsArgs} {computed g : Nat}
    (h : k.commitBlocks request args computed = .ok k')
    (hg : k.singleTypeManagers[g]? = some m) :
    ∃ m', k'.singleTypeManagers[g]? = some m' ∧ m'.spec = m.spec ∧
      ∀ r, m'.blocksOf r = m.blocksOf r := by
  unfold KVCacheManager.commitBlocks at h
  split at h
  · obtain rfl := Except.ok.inj h
    exact ⟨m, hg, rfl, fun _ => rfl⟩
  · exact cacheBlocks_group h hg

end Stages

/-! ### The table after a successful call -/

section Call

variable {k k' : KVCacheManager κ} {request : RequestView κ} {args : AllocateSlotsArgs}
  {g : Nat} {m : SingleTypeKVCacheManager} {hits : List Nat}

theorem addComputedBlocks_group {k₁ : KVCacheManager κ} (hk : KVOk k)
    (hlookup : LookupOk k request args)
    (hremove : k.removeSkippedBlocks request.requestId
      (min (totalComputed request args) k.maxModelLen) = .ok k₁)
    (h : k₁.addComputedBlocks request args = .ok k')
    (hg : k.singleTypeManagers[g]? = some m) (hhits : args.newComputedBlocks[g]? = some hits) :
    KVInv k' ∧ SamePool k.blockPool k'.blockPool ∧ ∃ m', k'.singleTypeManagers[g]? = some m' ∧
      Grows k.blockPool.nullBlock request.requestId (startTable k request args m hits)
        (cdiv (totalComputed request args) m.spec.blockSize) m m' := by
  obtain ⟨m₁, hg₁, hspec₁, hcached₁, hblocks₁⟩ := removeSkippedBlocks_manager hk hremove hg
  obtain ⟨hk₁, hsame₁, hspecs⟩ := hk.toKVInv.removeSkippedBlocks hremove
  unfold KVCacheManager.addComputedBlocks at h
  split at h
  · rename_i hadd
    have hlen : args.newComputedBlocks.length = k₁.singleTypeManagers.length := by
      have := congrArg List.length hspecs
      simpa using hlookup.1.trans (by simpa using this.symm)
    have hvalid : ∀ e ∈ args.newComputedBlocks.zip (k₁.singleTypeManagers.map (·.spec)),
        HitsValid k₁.blockPool e.2 (request.numComputedTokens + args.numNewComputedTokens) e.1 := by
      intro e he
      rw [hspecs] at he
      exact hitsValid_congr (hlookup.hitsValid hk.toKVInv e he) hsame₁
    obtain ⟨hk₂, hsame₂⟩ := hk₁.allocateNewComputedBlocks hlen hvalid h
    obtain ⟨m₂, hg₂, hgrows⟩ := allocateNewComputedBlocks_group hk₁ hlen hvalid h hg₁ hhits
    rw [hcached₁, hsame₁.nullBlock, hspec₁, hblocks₁] at hgrows
    have hstart : startTable k request args m hits =
        if m.numCachedBlock.contains request.requestId then
          skipTable m.spec k.blockPool.nullBlock (min (totalComputed request args) k.maxModelLen)
            (m.blocksOf request.requestId)
        else hitTable m.spec k.blockPool.nullBlock (totalComputed request args) hits := by
      by_cases hc : m.numCachedBlock.contains request.requestId = true
      · rw [if_pos hc, startTable, if_neg fun hadds => absurd hadds.2 (by simp [hc])]
      · rw [if_neg hc, startTable, if_pos ⟨hadd, by simpa using hc⟩]
    rw [hstart]
    exact ⟨hk₂, hsame₁.trans hsame₂, m₂, hg₂, hgrows.spec.trans hspec₁, hgrows.begins,
      hgrows.length_le⟩
  · rename_i hadd
    obtain rfl := Except.ok.inj h
    have hstart : startTable k request args m hits = m₁.blocksOf request.requestId := by
      rw [hblocks₁, startTable, if_neg fun hadds => hadd hadds.1]
    rw [hstart]
    exact ⟨hk₁, hsame₁, m₁, hg₁, hspec₁, ⟨[], by simp, by simp⟩, Nat.le_max_left _ _⟩

/-- A successful `allocate_slots` puts real blocks behind the table it starts from, as many as the
tokens need. -/
theorem allocateSlots_grows (hk : KVOk k)
    (hlookup : LookupOk k request args) (hle : totalComputed request args ≤ k.maxModelLen)
    (h : k.allocateSlots request args = .ok (some newBlocks, k'))
    (hg : k.singleTypeManagers[g]? = some m) (hhits : args.newComputedBlocks[g]? = some hits) :
    ∃ m', k'.singleTypeManagers[g]? = some m' ∧
      Grows k.blockPool.nullBlock request.requestId (startTable k request args m hits)
        (cdiv (k.numTokensNeedSlot (totalComputed request args) args) m.spec.blockSize) m m' ∧
      cdiv (k.numTokensNeedSlot (totalComputed request args) args) m.spec.blockSize ≤
        (m'.blocksOf request.requestId).length := by
  rcases allocateSlots_ok h with ⟨hnone, -⟩ | ⟨k₁, hremove, hcases⟩
  · cases hnone
  rcases hcases with ⟨hnone, -⟩ | ⟨k₂, new, k₃, -, hadd, halloc, hcommit⟩
  · cases hnone
  obtain ⟨hk₂, hsame₂, m₂, hg₂, hgrows₂⟩ :=
    addComputedBlocks_group hk hlookup hremove hadd hg hhits
  obtain ⟨m₃, hg₃, hgrows₃, hcovers⟩ := allocateNewBlocks_group hk₂ halloc hg₂
  obtain ⟨m₄, hg₄, hspec₄, hblocks₄⟩ := commitBlocks_group hcommit hg₃
  have hmax : k₁.maxModelLen = k.maxModelLen := (removeSkippedBlocks_calls hk hremove).same.maxModelLen
  have hneed : k₁.numTokensNeedSlot (totalComputed request args) args =
      k.numTokensNeedSlot (totalComputed request args) args := by
    simp only [KVCacheManager.numTokensNeedSlot, hmax]
  have hcdiv : cdiv (totalComputed request args) m.spec.blockSize ≤
      cdiv (k.numTokensNeedSlot (totalComputed request args) args) m.spec.blockSize := by
    refine cdiv_le_cdiv ?_ _
    unfold KVCacheManager.numTokensNeedSlot
    omega
  have htotal : request.numComputedTokens + args.numNewComputedTokens +
    args.numExternalComputedTokens = totalComputed request args := rfl
  rw [htotal, hneed, hgrows₂.spec, hsame₂.nullBlock] at hgrows₃
  rw [htotal, hneed, hgrows₂.spec] at hcovers
  have hgrows := hgrows₂.trans hgrows₃
  rw [max_eq_right hcdiv] at hgrows
  refine ⟨m₄, hg₄, ⟨hspec₄.trans hgrows.spec, ?_, ?_⟩, ?_⟩
  · rw [hblocks₄]
    exact hgrows.begins
  · rw [hblocks₄]
    exact hgrows.length_le
  · rw [hblocks₄]
    exact hcovers

end Call

/-! ### Calls for other requests -/

section Others

variable {k k' : KVCacheManager κ} {rid r : ReqId} {m m' : SingleTypeKVCacheManager}
  {s t : BlockPool κ}

structure SameRequest (r : ReqId) (m m' : SingleTypeKVCacheManager) : Prop where
  spec : m'.spec = m.spec
  blocks : m'.blocksOf r = m.blocksOf r
  cached : m'.numCachedBlock.contains r = m.numCachedBlock.contains r

theorem SameRequest.refl (r : ReqId) (m : SingleTypeKVCacheManager) : SameRequest r m m :=
  ⟨rfl, rfl, rfl⟩

theorem SameRequest.trans {m₁ m₂ m₃ : SingleTypeKVCacheManager} (h : SameRequest r m₁ m₂)
    (h' : SameRequest r m₂ m₃) : SameRequest r m₁ m₃ :=
  ⟨h'.spec.trans h.spec, h'.blocks.trans h.blocks, h'.cached.trans h.cached⟩

theorem contains_insert_ne (d : Dict ReqId Nat) (n : Nat) (hne : r ≠ rid) :
    (d.insert rid n).contains r = d.contains r := by
  simp [Dict.contains, Dict.get?_insert_ne hne.symm]

theorem SameRequest.removeSkippedBlocks (hne : r ≠ rid)
    (h : m.removeSkippedBlocks s rid total = .ok (m', t)) : SameRequest r m m' := by
  have hskips := skipsBlocks_of_removeSkippedBlocks h
  exact ⟨hskips.spec, hskips.others r hne, by rw [hskips.numCachedBlock]⟩

theorem SameRequest.allocateNewComputedBlocks {hits : List Nat} (hne : r ≠ rid)
    (h : m.allocateNewComputedBlocks s rid hits loc ext = .ok (m', t)) : SameRequest r m m' := by
  rcases allocateNewComputedBlocks_ok h with ⟨-, -, rfl, -⟩ | ⟨-, -, q, allocated, -, rfl, -⟩
  · exact SameRequest.refl r m'
  · exact ⟨rfl, blocksOf_setBlocks_ne m _ hne, contains_insert_ne _ _ hne⟩

theorem SameRequest.allocateNewBlocks {res : List Nat × SingleTypeKVCacheManager} (hne : r ≠ rid)
    (h : m.allocateNewBlocks s rid numTokens = .ok (res, t)) : SameRequest r m res.2 := by
  obtain ⟨hm, -⟩ := allocateNewBlocks_ok h
  rw [hm]
  exact ⟨rfl, blocksOf_setBlocks_ne m _ hne, rfl⟩

theorem SameRequest.cacheBlocks {request : RequestView κ} {n : Nat} (hne : r ≠ request.requestId)
    (h : m.cacheBlocks s request n = .ok (m', t)) : SameRequest r m m' := by
  rcases cacheBlocks_ok h with ⟨-, rfl, -⟩ | ⟨-, -, rfl⟩
  · exact SameRequest.refl r m'
  · exact ⟨rfl, blocksOf_setBlocks_ne m _ hne, contains_insert_ne _ _ hne⟩

omit [DecidableEq κ] in
theorem SameRequest.free (hne : r ≠ rid) (h : m.free s rid = .ok (m', t)) : SameRequest r m m' := by
  unfold SingleTypeKVCacheManager.free at h
  rw [except_bind_eq_ok] at h
  obtain ⟨q, -, hok⟩ := h
  obtain ⟨rfl, -⟩ := ok_pair_inj hok
  refine ⟨rfl, ?_, ?_⟩
  · simp only [blocksOf, Dict.getD, Dict.get?_erase_ne hne.symm]
  · simp only [Dict.contains, Dict.get?_erase_ne hne.symm]

def SameInGroups (r : ReqId) (k k' : KVCacheManager κ) : Prop :=
  List.Forall₂ (SameRequest r) k.singleTypeManagers k'.singleTypeManagers

omit [DecidableEq κ] in
theorem SameInGroups.refl (r : ReqId) (k : KVCacheManager κ) : SameInGroups r k k :=
  List.forall₂_same.mpr fun m _ => SameRequest.refl r m

omit [DecidableEq κ] in
theorem SameInGroups.trans {k₁ : KVCacheManager κ} (h : SameInGroups r k k₁)
    (h' : SameInGroups r k₁ k') : SameInGroups r k k' := by
  unfold SameInGroups at h h' ⊢
  rw [List.forall₂_iff_get] at h h' ⊢
  refine ⟨h.1.trans h'.1, fun i hi hi' => ?_⟩
  exact (h.2 i hi (h.1 ▸ hi)).trans (h'.2 i (h.1 ▸ hi) hi')

omit [DecidableEq κ] in
theorem SameInGroups.forManagers {f : SingleTypeKVCacheManager → BlockPool κ →
      Except PyError (SingleTypeKVCacheManager × BlockPool κ)}
    (hf : ∀ m s m' t, f m s = .ok (m', t) → SameRequest r m m')
    (h : k.forManagers f = .ok k') : SameInGroups r k k' := by
  obtain ⟨ms, pool, hmap, rfl⟩ := forManagers_ok h
  exact mapState_forall₂ hf hmap

theorem SameInGroups.cacheBlocks {request : RequestView κ} {n : Nat} (hne : r ≠ request.requestId)
    (h : k.cacheBlocks request n = .ok k') : SameInGroups r k k' := by
  unfold KVCacheManager.cacheBlocks at h
  split at h
  · exact SameInGroups.forManagers (fun _ _ _ _ hm => SameRequest.cacheBlocks hne hm) h
  · obtain rfl := Except.ok.inj h
    exact SameInGroups.refl r k

theorem SameInGroups.addComputedBlocks {request : RequestView κ} {args : AllocateSlotsArgs}
    (hne : r ≠ request.requestId)
    (hlen : args.newComputedBlocks.length = k.singleTypeManagers.length)
    (h : k.addComputedBlocks request args = .ok k') : SameInGroups r k k' := by
  unfold KVCacheManager.addComputedBlocks at h
  split at h
  · simp only [KVCacheManager.allocateNewComputedBlocks, except_bind_eq_ok, Prod.exists] at h
    obtain ⟨ms, pool, hmap, hok⟩ := h
    obtain rfl := Except.ok.inj hok
    have hall := mapState_forall₂ (R := fun e m' => SameRequest r e.2 m')
      (fun e s m' t hm => SameRequest.allocateNewComputedBlocks hne hm) hmap
    rw [← List.forall₂_map_left_iff (f := Prod.snd), List.map_snd_zip (by omega)] at hall
    exact hall
  · obtain rfl := Except.ok.inj h
    exact SameInGroups.refl r k

theorem SameInGroups.allocateNewBlocks
    (hne : r ≠ rid) (h : k.allocateNewBlocks rid numTokens = .ok (newBlocks, k')) :
    SameInGroups r k k' := by
  simp only [KVCacheManager.allocateNewBlocks, except_bind_eq_ok, Prod.exists] at h
  obtain ⟨rs, pool, hmap, hok⟩ := h
  obtain ⟨-, rfl⟩ := ok_pair_inj hok
  have hall := mapState_forall₂ (R := fun m res => SameRequest r m res.2)
    (fun m s res t hm => SameRequest.allocateNewBlocks hne hm) hmap
  rwa [SameInGroups, List.forall₂_map_right_iff]

theorem SameInGroups.allocateSlots {request : RequestView κ} {args : AllocateSlotsArgs}
    {res : Option (List (List Nat))} (hne : r ≠ request.requestId)
    (hlen : args.newComputedBlocks.length = k.singleTypeManagers.length)
    (h : k.allocateSlots request args = .ok (res, k')) : SameInGroups r k k' := by
  rcases allocateSlots_ok h with ⟨-, rfl⟩ | ⟨k₁, hremove, hcases⟩
  · exact SameInGroups.refl r k'
  have hskip : SameInGroups r k k₁ :=
    SameInGroups.forManagers (fun _ _ _ _ hm => SameRequest.removeSkippedBlocks hne hm) hremove
  rcases hcases with ⟨-, rfl⟩ | ⟨k₂, new, k₃, -, hadd, halloc, hcommit⟩
  · exact hskip
  have hadded := SameInGroups.addComputedBlocks hne (hlen.trans hskip.length_eq) hadd
  have hallocated := SameInGroups.allocateNewBlocks hne halloc
  refine hskip.trans (hadded.trans (hallocated.trans ?_))
  unfold KVCacheManager.commitBlocks at hcommit
  split at hcommit
  · obtain rfl := Except.ok.inj hcommit
    exact SameInGroups.refl r _
  · exact SameInGroups.cacheBlocks hne hcommit

end Others

/-! ### The calls of one request -/

section Runs

/-- A cache manager, and the tokens of one request that have slots: none before the first
allocation that succeeds. -/
structure Tracked (κ : Type) where
  manager : KVCacheManager κ
  granted : Option Nat

def trackedCall (r : ReqId) (s : Tracked κ) : Call κ → Option (Tracked κ)
  | .allocateSlots request args =>
    if LookupOk s.manager request args then
      (s.manager.allocateSlots request args).toOption.map fun res =>
        ⟨res.2, if request.requestId = r ∧ res.1.isSome then
          some (totalComputed request args + args.numNewTokens) else s.granted⟩
    else none
  | .free rid =>
    (s.manager.free rid).toOption.map fun k => ⟨k, if rid = r then none else s.granted⟩
  | c => (call s.manager c).map fun k => ⟨k, s.granted⟩

/-- The hits of group `g` are what the lookup of a sliding-window manager finds for it. -/
def WindowLookup (k : KVCacheManager κ) (request : RequestView κ) (g blockSize w : Nat)
    (hits : List Nat) : Prop :=
  hits = [] ∨ ∃ maxLength groupIds alignmentTokens rows i,
    Covers k.blockPool request.blockHashes maxLength ∧ groupIds[i]? = some g ∧
    SlidingWindowManager.findLongestCacheHit k.blockPool request.blockHashes maxLength groupIds
      blockSize w alignmentTokens = .ok rows ∧
    hits = rows.map fun row => row.getD i k.blockPool.nullBlock

/-- How the request `r` is served: first prefix hits and external tokens, then at most `B` new
tokens a step. A prompt that was loaded as a whole has its last token computed again. -/
def WindowCall (r : ReqId) (B : Nat) (s : Tracked κ) : Call κ → Prop
  | .allocateSlots request args => request.requestId = r →
    args.numNewTokens ≤ B ∧ args.numLookaheadTokens = 0 ∧
    totalComputed request args ≤ s.manager.maxModelLen ∧
    (s.granted = none ∧ request.numComputedTokens = 0 ∨
      args.numNewComputedTokens = 0 ∧ args.numExternalComputedTokens = 0 ∧
      (s.granted = some request.numComputedTokens ∨
        s.granted = some (request.numComputedTokens + 1) ∧
          request.numComputedTokens + 1 = request.numTokens))
  | .removeSkippedBlocks rid total => rid = r → s.granted = none ∨ s.granted = some total
  | .cacheBlocks request _ => request.requestId = r → s.granted ≠ none
  | _ => True

instance (r : ReqId) (B : Nat) (s : Tracked κ) (c : Call κ) : Decidable (WindowCall r B s c) := by
  cases c <;> unfold WindowCall <;> infer_instance

/-- The hits of `r` in the group `g` of window `w` come from a lookup. -/
def FoundHits (g blockSize w : Nat) (r : ReqId) (s : Tracked κ) : Call κ → Prop
  | .allocateSlots request args => request.requestId = r →
    ∀ hits, args.newComputedBlocks[g]? = some hits →
      WindowLookup s.manager request g blockSize w hits
  | _ => True

def Continues (r : ReqId) (s : Tracked κ) : Call κ → Prop
  | .allocateSlots request _ => request.requestId = r →
    s.granted = none ∨ s.granted = some request.numComputedTokens
  | _ => True

instance (r : ReqId) (s : Tracked κ) (c : Call κ) : Decidable (Continues r s c) := by
  cases c <;> unfold Continues <;> infer_instance

/-- What one group holds for a request that has `granted` tokens. -/
def GroupInv (spec : KVCacheSpec) (null maxModelLen B : Nat) (r : ReqId)
    (m : SingleTypeKVCacheManager) : Option Nat → Prop
  | none => m.blocksOf r = [] ∧ m.numCachedBlock.contains r = false
  | some d => ∃ c, c ≤ d ∧ d ≤ c + B ∧ Recycled spec null maxModelLen c d (m.blocksOf r)

structure WindowInv (spec : KVCacheSpec) (g : Nat) (r : ReqId) (B : Nat) (s : Tracked κ) :
    Prop where
  ok : KVOk s.manager
  hash_dvd : s.manager.blockPool.hashBlockSize ∣ spec.blockSize
  group : ∃ m, s.manager.singleTypeManagers[g]? = some m ∧ m.spec = spec ∧
    GroupInv spec s.manager.blockPool.nullBlock s.manager.maxModelLen B r m s.granted

variable {spec : KVCacheSpec} {g w B : Nat} {r : ReqId} {s s' : Tracked κ}

theorem trackedCall_call {c : Call κ} (h : trackedCall r s c = some s') :
    call s.manager c = some s'.manager := by
  cases c with
  | allocateSlots request args =>
    simp only [trackedCall] at h
    split at h
    · rename_i hlookup
      obtain ⟨res, hres, rfl⟩ := Option.map_eq_some_iff.mp h
      simp only [call, if_pos hlookup, hres, Option.map_some]
    · cases h
  | free rid =>
    obtain ⟨k, hk, rfl⟩ := Option.map_eq_some_iff.mp h
    exact hk
  | removeSkippedBlocks rid total =>
    obtain ⟨k, hk, rfl⟩ := Option.map_eq_some_iff.mp h
    exact hk
  | cacheBlocks request n =>
    obtain ⟨k, hk, rfl⟩ := Option.map_eq_some_iff.mp h
    exact hk
  | evictBlocks ids =>
    obtain ⟨k, hk, rfl⟩ := Option.map_eq_some_iff.mp h
    exact hk
  | resetPrefixCache =>
    obtain rfl := Option.some.inj h
    rfl

theorem SameConfig.of_call {k k' : KVCacheManager κ} {c : Call κ} (hk : KVOk k)
    (h : call k c = some k') : SameConfig k k' := by
  cases c with
  | allocateSlots request args =>
    simp only [call] at h
    split at h
    · rename_i hlookup
      obtain ⟨⟨res, k₁⟩, hres, rfl⟩ := Option.map_eq_some_iff.mp h
      have hcalls : Calls (AllocateOp k request args false) k k₁ :=
        allocateSlots_calls hk hlookup (by simp) (toOption_eq_some.mp hres)
      exact hcalls.same
    · cases h
  | removeSkippedBlocks rid total =>
    exact (removeSkippedBlocks_calls hk (toOption_eq_some.mp h)).same
  | cacheBlocks request n => exact (cacheBlocks_calls hk (toOption_eq_some.mp h)).same
  | free rid => exact (free_calls hk (toOption_eq_some.mp h)).same
  | evictBlocks ids => exact (evictBlocks_calls hk (toOption_eq_some.mp h)).same
  | resetPrefixCache =>
    obtain rfl := Option.some.inj h
    exact ⟨PoolInv.resetPrefixCache_same k.blockPool, rfl, rfl, rfl⟩

theorem WindowLookup.null_notMem {k : KVCacheManager κ} {request : RequestView κ}
    {hits : List Nat} (hspec : spec.attention = .slidingWindow w) (hk : KVInv k)
    (hdvd : k.blockPool.hashBlockSize ∣ spec.blockSize)
    (h : WindowLookup k request g spec.blockSize w hits)
    (hle : hits.length * spec.blockSize ≤ total) :
    k.blockPool.nullBlock ∉ hits.drop (spec.getNumSkippedTokens total / spec.blockSize) := by
  rcases h with rfl | ⟨maxLength, groupIds, alignmentTokens, rows, i, hcov, hi, hfind, rfl⟩
  · simp
  intro hmem
  obtain ⟨j, hj⟩ := List.mem_iff_getElem?.mp hmem
  rw [List.getElem?_drop, List.getElem?_map] at hj
  obtain ⟨row, hrow, hnull⟩ := Option.map_eq_some_iff.mp hj
  obtain ⟨out, hout, hhit⟩ := SlidingWindowManager.findLongestCacheHit_ok groupIds hdvd hcov w
    alignmentTokens
  obtain rfl := Except.ok.inj (hfind.symm.trans hout)
  rcases hhit.entry _ row hrow with hcached | ⟨-, hlt⟩
  · have hget := rowAt_getElem? hcached hi
    -- a block that the cache knows has a hash, and the null block has none
    have hsome : row[i]? = some k.blockPool.nullBlock := by
      rw [List.getD_eq_getElem?_getD] at hnull
      obtain ⟨hash, hhash, hblocks⟩ := Option.bind_eq_some_iff.mp hcached
      rw [getCachedBlocks_getElem? hblocks hi] at hnull ⊢
      have hmem := getCachedBlocks_isSome.mp (by rw [hblocks]; rfl) g (List.mem_of_getElem? hi)
      obtain ⟨b, hb⟩ := Option.isSome_iff_exists.mp hmem
      rw [hb, Option.getD_some] at hnull
      rw [hb, hnull]
    rw [hget] at hsome
    obtain ⟨hash, -, hblock⟩ := Option.bind_eq_some_iff.mp hsome
    have hhash := (hk.pool.hash_iff _ _).mpr (BlockHashToBlockMap.stored_of_getOneBlock hblock)
    rw [hk.pool.null_hash] at hhash
    cases hhash
  · rw [List.length_map] at hle
    have hpos := spec.blockSize_pos
    have hw := spec.window_pos w hspec
    have hneed := le_cdiv_mul (w - 1) hpos
    have hskip : spec.getNumSkippedTokens total = total + 1 - w := by
      rw [KVCacheSpec.getNumSkippedTokens, hspec]
    have hfirst : rows.length - cdiv (w - 1) spec.blockSize ≤
        spec.getNumSkippedTokens total / spec.blockSize := by
      rw [Nat.le_div_iff_mul_le hpos, Nat.sub_mul, hskip]
      omega
    omega

omit [DecidableEq κ] in
theorem LookupOk.hits_length {k : KVCacheManager κ} {request : RequestView κ}
    {args : AllocateSlotsArgs} (h : LookupOk k request args) {m : SingleTypeKVCacheManager}
    {hits : List Nat} (hg : k.singleTypeManagers[g]? = some m)
    (hhits : args.newComputedBlocks[g]? = some hits) :
    hits.length * m.spec.blockSize = args.numNewComputedTokens := by
  have hzip : (args.newComputedBlocks.zip k.singleTypeManagers)[g]? = some (hits, m) :=
    List.getElem?_zip_eq_some.mpr ⟨hhits, hg⟩
  exact (h.2 _ (List.mem_of_getElem? hzip)).1

theorem skipTable_nil (spec : KVCacheSpec) (null total : Nat) : skipTable spec null total [] = [] :=
  List.length_eq_zero_iff.mp (by rw [skipTable, length_skipLoop]; rfl)

theorem hitTable_nullPrefix {k : KVCacheManager κ} {request : RequestView κ} {hits : List Nat}
    (hspec : spec.attention = .slidingWindow w) (hk : KVInv k)
    (hdvd : k.blockPool.hashBlockSize ∣ spec.blockSize)
    (h : WindowLookup k request g spec.blockSize w hits)
    (hle : hits.length * spec.blockSize ≤ total) :
    NullPrefix k.blockPool.nullBlock (spec.getNumSkippedTokens total / spec.blockSize)
      (hitTable spec k.blockPool.nullBlock total hits) :=
  ⟨_, rfl, h.null_notMem hspec hk hdvd hle⟩

theorem Recycled.skipTable {null maxModelLen c d : Nat} {blocks : List Nat}
    (h : Recycled spec null maxModelLen c d blocks) (hd : d ≤ maxModelLen) :
    NullPrefix null (spec.getNumSkippedTokens d / spec.blockSize)
      (skipTable spec null d blocks) := by
  obtain ⟨z, -, hz, hnulls⟩ := h.nulls
  have hlen : spec.getNumSkippedTokens d / spec.blockSize ≤ blocks.length := by
    rw [h.length, min_eq_left hd]
    exact le_cdiv_of_mul_le spec.blockSize_pos
      ((Nat.div_mul_le_self _ _).trans (spec.getNumSkippedTokens_le d))
  rw [KVCache.skipTable, min_eq_left hlen]
  exact hnulls.skipLoop hz hlen

theorem getNumSkippedTokens_mono (hspec : spec.attention = .slidingWindow w) {c d : Nat}
    (h : c ≤ d) :
    spec.getNumSkippedTokens c / spec.blockSize ≤ spec.getNumSkippedTokens d / spec.blockSize := by
  refine Nat.div_le_div_right ?_
  simp only [KVCacheSpec.getNumSkippedTokens, hspec]
  omega

theorem Recycled.skip {null maxModelLen c d : Nat} {blocks : List Nat}
    (h : Recycled spec null maxModelLen c d blocks) :
    Recycled spec null maxModelLen c d (KVCache.skipTable spec null d blocks) := by
  obtain ⟨z, hc, hd, hnulls⟩ := h.nulls
  have hz := hnulls.length_le
  refine ⟨⟨_, ?_, Nat.min_le_left _ _, hnulls.skipLoop ?_ (Nat.min_le_right _ _)⟩, ?_⟩
  · omega
  · omega
  · rw [KVCache.skipTable, length_skipLoop, h.length]

theorem GroupInv.congr {null maxModelLen : Nat} {m m' : SingleTypeKVCacheManager}
    {granted : Option Nat} (h : GroupInv spec null maxModelLen B r m granted)
    (hsame : SameRequest r m m') : GroupInv spec null maxModelLen B r m' granted := by
  cases granted with
  | none => exact ⟨hsame.blocks.trans h.1, hsame.cached.trans h.2⟩
  | some d =>
    obtain ⟨c, hc, hd, hrecycled⟩ := h
    exact ⟨c, hc, hd, hsame.blocks.symm ▸ hrecycled⟩

theorem GroupInv.skip {null maxModelLen : Nat} {m m' : SingleTypeKVCacheManager}
    {granted : Option Nat} (h : GroupInv spec null maxModelLen B r m granted)
    (htotal : granted = none ∨ granted = some total)
    (hcached : m'.numCachedBlock = m.numCachedBlock)
    (hblocks : m'.blocksOf r = KVCache.skipTable spec null total (m.blocksOf r)) :
    GroupInv spec null maxModelLen B r m' granted := by
  cases granted with
  | none =>
    refine ⟨?_, hcached ▸ h.2⟩
    rw [hblocks, h.1, skipTable_nil]
  | some d =>
    obtain ⟨c, hc, hd, hrecycled⟩ := h
    refine ⟨c, hc, hd, ?_⟩
    obtain rfl := Option.some.inj (htotal.resolve_left (Option.some_ne_none d))
    rw [hblocks]
    exact hrecycled.skip

omit [DecidableEq κ] in
theorem WindowInv.moves {k' : KVCacheManager κ} {m : SingleTypeKVCacheManager} {granted : Option Nat}
    (hinv : WindowInv spec g r B s) (hok : KVOk k') (hsame : SameConfig s.manager k')
    (hg : k'.singleTypeManagers[g]? = some m) (hm : m.spec = spec)
    (hgroup : GroupInv spec s.manager.blockPool.nullBlock s.manager.maxModelLen B r m granted) :
    WindowInv spec g r B ⟨k', granted⟩ := by
  rw [← hsame.pool.nullBlock, ← hsame.maxModelLen] at hgroup
  refine ⟨hok, ?_, m, hg, hm, hgroup⟩
  rw [hsame.pool.hashBlockSize]
  exact hinv.hash_dvd

omit [DecidableEq κ] in
theorem WindowInv.of_same {k' : KVCacheManager κ} (hinv : WindowInv spec g r B s) (hok : KVOk k')
    (hsame : SameConfig s.manager k') (hall : SameInGroups r s.manager k') :
    WindowInv spec g r B ⟨k', s.granted⟩ := by
  obtain ⟨m, hg, hm, hgroup⟩ := hinv.group
  obtain ⟨m', hg', hsame'⟩ := forall₂_getElem?_left hall hg
  exact hinv.moves hok hsame hg' (hsame'.spec.trans hm) (hgroup.congr hsame')

theorem WindowInv.removeSkippedBlocks {k' : KVCacheManager κ}
    (hinv : WindowInv spec g r B s) (htotal : s.granted = none ∨ s.granted = some total)
    (h : s.manager.removeSkippedBlocks r total = .ok k') :
    WindowInv spec g r B ⟨k', s.granted⟩ := by
  obtain ⟨m, hg, hm, hgroup⟩ := hinv.group
  obtain ⟨m', hg', hspec', hcached, hblocks⟩ := removeSkippedBlocks_manager hinv.ok h hg
  have hcalls := removeSkippedBlocks_calls hinv.ok h
  rw [hm] at hblocks
  exact hinv.moves hcalls.ok hcalls.same hg' (hspec'.trans hm) (hgroup.skip htotal hcached hblocks)

section Allocation

variable {request : RequestView κ} {args : AllocateSlotsArgs} {m : SingleTypeKVCacheManager}
  {hits : List Nat} (hinv : WindowInv spec g r B s) (hspec : spec.attention = .slidingWindow w)
  (hlookup : LookupOk s.manager request args) (hr : request.requestId = r)
  (hcall : WindowCall r B s (.allocateSlots request args))
  (hfound : FoundHits g spec.blockSize w r s (.allocateSlots request args))
  (hcont : Continues r s (.allocateSlots request args))
include hinv hspec hlookup hr hcall hfound hcont

theorem WindowInv.start (hg : s.manager.singleTypeManagers[g]? = some m) (hm : m.spec = spec)
    (hgroup : GroupInv spec s.manager.blockPool.nullBlock s.manager.maxModelLen B r m s.granted)
    (hhits : args.newComputedBlocks[g]? = some hits) :
    NullPrefix s.manager.blockPool.nullBlock
        (spec.getNumSkippedTokens (totalComputed request args) / spec.blockSize)
        (startTable s.manager request args m hits) ∧
      (startTable s.manager request args m hits).length ≤
        cdiv (totalComputed request args) spec.blockSize := by
  subst hm
  have hlen := hlookup.hits_length hg hhits
  obtain ⟨-, -, hle, hcase⟩ := hcall hr
  cases hgranted : s.granted with
  | none =>
    rw [hgranted] at hcase hgroup
    obtain ⟨hnil, hcached⟩ := hgroup
    have hzero : request.numComputedTokens = 0 := by simpa using hcase
    have hcount : hits.length * m.spec.blockSize ≤ request.numComputedTokens +
        args.numNewComputedTokens := by omega
    unfold startTable
    by_cases hadds : AddsHits request args m
    · rw [if_pos hadds]
      refine ⟨hitTable_nullPrefix hspec hinv.ok.toKVInv hinv.hash_dvd (hfound hr hits hhits) ?_, ?_⟩
      · unfold totalComputed
        omega
      · exact computedTable_length_le m _ hcount
    · -- no hits and no external tokens, so nothing is computed
      have hnone : ¬ (args.newComputedBlocks.any (· ≠ []) ∨ 0 < args.numExternalComputedTokens) :=
        fun hsome => hadds ⟨hsome, by rw [hr]; exact hcached⟩
      rw [not_or, Bool.not_eq_true, List.any_eq_false] at hnone
      have hempty : hits = [] := by simpa using hnone.1 hits (List.mem_of_getElem? hhits)
      have htotal : totalComputed request args = 0 := by
        rw [hempty, List.length_nil, Nat.zero_mul] at hlen
        unfold totalComputed
        omega
      rw [if_neg hadds, htotal, hr, hnil, skipTable_nil,
        Nat.le_zero.mp (m.spec.getNumSkippedTokens_le 0), Nat.zero_div]
      exact ⟨NullPrefix.nil _, Nat.zero_le _⟩
  | some d =>
    rw [hgranted] at hcase hgroup
    obtain ⟨c, -, -, hrecycled⟩ := hgroup
    obtain ⟨hnew, hext, -⟩ := hcase.resolve_left fun hnone => Option.some_ne_none d hnone.1
    have htotal : totalComputed request args = d := by
      have heq := Option.some.inj ((hcont hr).resolve_left (by simp [hgranted]) |>.symm.trans hgranted)
      unfold totalComputed
      omega
    have hnone : ¬ AddsHits request args m := by
      rintro ⟨hany | hpos, -⟩
      · obtain ⟨hits', hmem, hne⟩ := List.any_eq_true.mp hany
        obtain ⟨g', hg'⟩ := List.mem_iff_getElem?.mp hmem
        obtain ⟨m', hm'⟩ : ∃ m', s.manager.singleTypeManagers[g']? = some m' := by
          refine ⟨_, List.getElem?_eq_getElem ?_⟩
          rw [← hlookup.1]
          exact (List.getElem?_eq_some_iff.mp hg').1
        have hlen' := hlookup.hits_length hm' hg'
        rw [hnew, Nat.mul_eq_zero] at hlen'
        have hnil := List.length_eq_zero_iff.mp (hlen'.resolve_right m'.spec.blockSize_pos.ne')
        simp [hnil] at hne
      · omega
    rw [htotal] at hle
    rw [startTable, if_neg hnone, htotal, min_eq_left hle, hr]
    refine ⟨hrecycled.skipTable hle, ?_⟩
    rw [KVCache.skipTable, length_skipLoop, hrecycled.length, min_eq_left hle]

theorem WindowInv.granted {k' : KVCacheManager κ}
    (h : s.manager.allocateSlots request args = .ok (some newBlocks, k')) :
    ∃ m', k'.singleTypeManagers[g]? = some m' ∧ m'.spec = spec ∧
      NullPrefix s.manager.blockPool.nullBlock
        (spec.getNumSkippedTokens (totalComputed request args) / spec.blockSize) (m'.blocksOf r) ∧
      (m'.blocksOf r).length = cdiv (min (totalComputed request args + args.numNewTokens)
        s.manager.maxModelLen) spec.blockSize := by
  obtain ⟨m, hg, hm, hgroup⟩ := hinv.group
  obtain ⟨hits, hhits⟩ : ∃ hits, args.newComputedBlocks[g]? = some hits := by
    refine ⟨_, List.getElem?_eq_getElem ?_⟩
    rw [hlookup.1]
    exact (List.getElem?_eq_some_iff.mp hg).1
  obtain ⟨hnulls, hstart⟩ := hinv.start hspec hlookup hr hcall hfound hcont hg hm hgroup hhits
  obtain ⟨-, hahead, hle, -⟩ := hcall hr
  obtain ⟨m', hg', hgrows, hcovers⟩ := allocateSlots_grows hinv.ok hlookup hle h hg hhits
  have hneed : s.manager.numTokensNeedSlot (totalComputed request args) args =
      min (totalComputed request args + args.numNewTokens) s.manager.maxModelLen := by
    rw [KVCacheManager.numTokensNeedSlot, hahead, min_eq_left hle, Nat.add_zero]
  have hcdiv : cdiv (totalComputed request args) spec.blockSize ≤
      cdiv (min (totalComputed request args + args.numNewTokens) s.manager.maxModelLen)
        spec.blockSize :=
    cdiv_le_cdiv (by omega) _
  rw [hneed, hm, hr] at hgrows
  rw [hneed, hm, hr] at hcovers
  obtain ⟨fresh, hfresh, hnull⟩ := hgrows.begins
  refine ⟨m', hg', hgrows.spec.trans hm, ?_, ?_⟩
  · rw [hfresh]
    exact hnulls.append hnull
  · have hlength := hgrows.length_le
    omega

theorem WindowInv.allocateSlots {res : Option (List (List Nat))} {k' : KVCacheManager κ} (hok : KVOk k')
    (hsame : SameConfig s.manager k')
    (h : s.manager.allocateSlots request args = .ok (res, k')) :
    WindowInv spec g r B ⟨k', if res.isSome then
      some (totalComputed request args + args.numNewTokens) else s.granted⟩ := by
  obtain ⟨hB, -, hle, hcase⟩ := hcall hr
  cases res with
  | some newBlocks =>
    obtain ⟨m', hg', hm', hnulls, hlen⟩ := hinv.granted hspec hlookup hr hcall hfound hcont h
    exact hinv.moves hok hsame hg' hm' ⟨totalComputed request args, Nat.le_add_right _ _, by omega,
      ⟨_, le_rfl, getNumSkippedTokens_mono hspec (Nat.le_add_right _ _), hnulls⟩, hlen⟩
  | none =>
    rcases allocateSlots_ok h with ⟨-, rfl⟩ | ⟨k₁, hremove, ⟨-, rfl⟩ | ⟨k₂, new, k₃, hsome, -⟩⟩
    · exact hinv
    · rw [hr] at hremove
      refine hinv.removeSkippedBlocks ?_ hremove
      refine (hcont hr).imp_right fun hgranted => ?_
      obtain ⟨hnew, hext, -⟩ := hcase.resolve_left fun hnone => by simp [hnone.1] at hgranted
      unfold totalComputed at hle
      rw [hgranted]
      congr 1
      omega
    · cases hsome

end Allocation

omit [DecidableEq κ] in
theorem free_group {k k' : KVCacheManager κ} {m : SingleTypeKVCacheManager}
    (h : k.free r = .ok k') (hg : k.singleTypeManagers[g]? = some m) :
    ∃ m', k'.singleTypeManagers[g]? = some m' ∧ m'.spec = m.spec ∧ m'.blocksOf r = [] ∧
      m'.numCachedBlock.contains r = false := by
  obtain ⟨ms, pool, hmap, rfl⟩ := forManagers_ok h
  refine forall₂_getElem?_left (mapState_forall₂ (R := fun m m' => m'.spec = m.spec ∧
    m'.blocksOf r = [] ∧ m'.numCachedBlock.contains r = false) (fun m s m' t hm => ?_) hmap) hg
  simp only [SingleTypeKVCacheManager.free, except_bind_eq_ok] at hm
  obtain ⟨q, -, hok⟩ := hm
  obtain ⟨rfl, -⟩ := ok_pair_inj hok
  simp [blocksOf, Dict.getD, Dict.contains]

theorem WindowInv.step (hspec : spec.attention = .slidingWindow w) {c : Call κ}
    (hinv : WindowInv spec g r B s) (hcall : WindowCall r B s c)
    (hfound : FoundHits g spec.blockSize w r s c) (hcont : Continues r s c)
    (h : trackedCall r s c = some s') : WindowInv spec g r B s' := by
  have hcalled := trackedCall_call h
  have hok := KVOk.call hinv.ok hcalled
  have hsame := SameConfig.of_call hinv.ok hcalled
  cases c with
  | allocateSlots request args =>
    simp only [trackedCall] at h
    split at h
    · rename_i hlookup
      obtain ⟨⟨res, k'⟩, hres, rfl⟩ := Option.map_eq_some_iff.mp h
      rw [toOption_eq_some] at hres
      by_cases hr : request.requestId = r
      · have hstep := hinv.allocateSlots hspec hlookup hr hcall hfound hcont hok hsame hres
        simpa only [hr, true_and] using hstep
      · simp only [hr, false_and, if_false]
        exact hinv.of_same hok hsame
          (SameInGroups.allocateSlots (fun heq => hr heq.symm) hlookup.1 hres)
    · cases h
  | removeSkippedBlocks rid total =>
    obtain ⟨k', hk', rfl⟩ := Option.map_eq_some_iff.mp h
    have hremove := toOption_eq_some.mp hk'
    by_cases hr : rid = r
    · rw [hr] at hremove
      exact hinv.removeSkippedBlocks (hcall hr) hremove
    · exact hinv.of_same hok hsame (SameInGroups.forManagers
        (fun _ _ _ _ hm => SameRequest.removeSkippedBlocks (fun heq => hr heq.symm) hm) hremove)
  | cacheBlocks request n =>
    obtain ⟨k', hk', rfl⟩ := Option.map_eq_some_iff.mp h
    have hcache := toOption_eq_some.mp hk'
    by_cases hr : request.requestId = r
    · obtain ⟨m, hg, hm, hgroup⟩ := hinv.group
      obtain ⟨m', hg', hspec', hblocks⟩ := cacheBlocks_group hcache hg
      refine hinv.moves hok hsame hg' (hspec'.trans hm) ?_
      cases hgranted : s.granted with
      | none => exact absurd hgranted (hcall hr)
      | some d =>
        rw [hgranted] at hgroup
        obtain ⟨c, hc, hd, hrecycled⟩ := hgroup
        exact ⟨c, hc, hd, (hblocks r).symm ▸ hrecycled⟩
    · exact hinv.of_same hok hsame (SameInGroups.cacheBlocks (fun heq => hr heq.symm) hcache)
  | free rid =>
    obtain ⟨k', hk', rfl⟩ := Option.map_eq_some_iff.mp h
    have hfree := toOption_eq_some.mp hk'
    by_cases hr : rid = r
    · obtain ⟨m, hg, hm, -⟩ := hinv.group
      rw [hr] at hfree
      obtain ⟨m', hg', hspec', hblocks, hcached⟩ := free_group hfree hg
      simp only [if_pos hr]
      exact hinv.moves hok hsame hg' (hspec'.trans hm) ⟨hblocks, hcached⟩
    · simp only [if_neg hr]
      exact hinv.of_same hok hsame (SameInGroups.forManagers
        (fun _ _ _ _ hm => SameRequest.free (fun heq => hr heq.symm) hm) hfree)
  | evictBlocks ids =>
    obtain ⟨k', hk', rfl⟩ := Option.map_eq_some_iff.mp h
    have hevict := toOption_eq_some.mp hk'
    simp only [KVCacheManager.evictBlocks, except_bind_eq_ok] at hevict
    obtain ⟨pool, -, hpool⟩ := hevict
    obtain rfl := Except.ok.inj hpool
    exact hinv.of_same hok hsame (SameInGroups.refl r s.manager)
  | resetPrefixCache =>
    obtain rfl := Option.some.inj h
    exact hinv.of_same hok hsame (SameInGroups.refl r s.manager)

theorem WindowInv.init {numBlocks maxModelLen hashBlockSize : Nat} {caching : Bool}
    {groups : List KVCacheSpec} {k₀ : KVCacheManager κ}
    (hinit : KVCacheManager.init numBlocks maxModelLen hashBlockSize caching groups = .ok k₀)
    (hg : groups[g]? = some spec) (hdvd : hashBlockSize ∣ spec.blockSize) :
    WindowInv spec g r B ⟨k₀, none⟩ := by
  refine ⟨KVOk.init hinit, ?_, ⟨spec, g, .empty, .empty⟩, ?_, rfl, rfl, rfl⟩
  all_goals
    simp only [KVCacheManager.init, except_bind_eq_ok] at hinit
    obtain ⟨pool, hpool, hok⟩ := hinit
    obtain rfl := Except.ok.inj hok
  · simp only [BlockPool.init, except_bind_eq_ok, Prod.exists] at hpool
    obtain ⟨-, -, null, queue, -, hpool⟩ := hpool
    obtain rfl := Except.ok.inj hpool
    exact hdvd
  · simp only
    rw [List.getElem?_mapIdx, hg, Option.map_some]

/-- What the recycling of blocks guarantees for the request `r` in the sliding-window group `g`. -/
structure WindowSafe (spec : KVCacheSpec) (g w : Nat) (r : ReqId) (B : Nat) (s : Tracked κ) :
    Prop where
  nulls : ∃ z, NullPrefix s.manager.blockPool.nullBlock z (s.manager.table g r)
  bounded : (realBlocks s.manager.blockPool.nullBlock (s.manager.table g r)).length ≤
    SlidingWindowSpec.maxAdmissionBlocksPerRequest spec.blockSize w B s.manager.maxModelLen
  /-- The window before the next token is in real blocks. -/
  window : ∀ d p, s.granted = some d → d ≤ p + (w - 1) → p < min d s.manager.maxModelLen →
    ∃ b, (s.manager.table g r)[p / spec.blockSize]? = some b ∧ b ≠ s.manager.blockPool.nullBlock
  /-- So are the window and the new tokens of a step that gets its slots. -/
  step : ∀ request args newBlocks k', request.requestId = r → LookupOk s.manager request args →
    WindowCall r B s (.allocateSlots request args) →
    FoundHits g spec.blockSize w r s (.allocateSlots request args) →
    Continues r s (.allocateSlots request args) →
    s.manager.allocateSlots request args = .ok (some newBlocks, k') →
    ∀ p, totalComputed request args ≤ p + (w - 1) →
      p < min (totalComputed request args + args.numNewTokens) s.manager.maxModelLen →
      ∃ b, (k'.table g r)[p / spec.blockSize]? = some b ∧ b ≠ s.manager.blockPool.nullBlock

theorem WindowInv.safe (hspec : spec.attention = .slidingWindow w)
    (hinv : WindowInv spec g r B s) : WindowSafe spec g w r B s := by
  obtain ⟨m, hg, hm, hgroup⟩ := hinv.group
  have htable : s.manager.table g r = m.blocksOf r := table_eq hg r
  refine ⟨?_, ?_, ?_, ?_⟩
  · rw [htable]
    cases hgranted : s.granted with
    | none =>
      rw [hgranted] at hgroup
      exact ⟨0, hgroup.1.symm ▸ NullPrefix.nil _⟩
    | some d =>
      rw [hgranted] at hgroup
      obtain ⟨c, -, -, hrecycled⟩ := hgroup
      obtain ⟨z, -, -, hnulls⟩ := hrecycled.nulls
      exact ⟨z, hnulls⟩
  · rw [htable]
    cases hgranted : s.granted with
    | none =>
      rw [hgranted] at hgroup
      rw [hgroup.1]
      exact Nat.zero_le _
    | some d =>
      rw [hgranted] at hgroup
      obtain ⟨c, -, hd, hrecycled⟩ := hgroup
      exact hrecycled.bounded hspec hd
  · intro d p hgranted hp hlt
    rw [hgranted] at hgroup
    obtain ⟨c, -, -, hrecycled⟩ := hgroup
    rw [htable]
    exact hrecycled.window hspec hp hlt
  · intro request args newBlocks k' hr hlookup hcall hfound hcont h p hp hlt
    obtain ⟨m', hg', -, hnulls, hlen⟩ := hinv.granted hspec hlookup hr hcall hfound hcont h
    rw [table_eq hg' r]
    exact hnulls.window hspec hlen hp hlt

/-- Along every sequence of calls in which each allocation for the request starts where its last
one ended. -/
theorem slidingWindow_recycles {numBlocks maxModelLen hashBlockSize : Nat} {caching : Bool}
    {groups : List KVCacheSpec} {k₀ : KVCacheManager κ} {calls : List (Call κ)}
    (hinit : KVCacheManager.init numBlocks maxModelLen hashBlockSize caching groups = .ok k₀)
    (hg : groups[g]? = some spec) (hspec : spec.attention = .slidingWindow w)
    (hdvd : hashBlockSize ∣ spec.blockSize)
    (hcalls : Along (trackedCall r) (fun s c => WindowCall r B s c ∧
      FoundHits g spec.blockSize w r s c ∧ Continues r s c) ⟨k₀, none⟩ calls)
    (hrun : exec (trackedCall r) ⟨k₀, none⟩ calls = some s) : WindowSafe spec g w r B s := by
  refine WindowInv.safe hspec (exec_invariant_along (fun s c s' hinv hc hstep => ?_)
    (WindowInv.init hinit hg hdvd) hcalls hrun)
  exact hinv.step hspec hc.1 hc.2.1 hc.2.2 hstep

def NoHits : Call κ → Prop
  | .allocateSlots _ args => ∀ hits ∈ args.newComputedBlocks, hits = []
  | _ => True

instance (c : Call κ) : Decidable (NoHits c) := by
  cases c <;> unfold NoHits <;> infer_instance

theorem NoHits.foundHits {c : Call κ} (h : NoHits c) (blockSize : Nat) :
    FoundHits g blockSize w r s c := by
  cases c with
  | allocateSlots request args =>
    intro _ hits hhits
    exact Or.inl (h hits (List.mem_of_getElem? hhits))
  | _ => trivial

end Runs

theorem pair_window_pos : ∀ w, AttentionType.slidingWindow 2 = .slidingWindow w → 0 < w := by simp

def pairWindow : KVCacheSpec := ⟨1, .slidingWindow 2, none, Nat.one_pos, pair_window_pos⟩

def loadedPrompt (n : Nat) : RequestView Nat := ⟨0, n, 3, [7, 8, 9], threeTokens.nodup⟩

def twoSteps : List (Call Nat) :=
  [.allocateSlots (loadedPrompt 0) ⟨1, 0, [[]], 0, 3, false, false⟩,
    .allocateSlots (loadedPrompt 4) ⟨1, 0, [[]], 0, 0, false, false⟩]

theorem slidingWindow_recycles_twoSteps : ∃ (k₀ : KVCacheManager Nat) (s : Tracked Nat),
    KVCacheManager.init 8 8 1 false [pairWindow] = .ok k₀ ∧
    exec (trackedCall 0) ⟨k₀, none⟩ twoSteps = some s ∧ WindowSafe pairWindow 0 2 0 1 s := by
  have hsome : ((KVCacheManager.init 8 8 1 false [pairWindow]).toOption.bind fun k₀ =>
      if Along (trackedCall 0) (fun s c => WindowCall 0 1 s c ∧ Continues 0 s c) ⟨k₀, none⟩ twoSteps
      then (exec (trackedCall 0) ⟨k₀, none⟩ twoSteps).map fun s => (k₀, s) else none).isSome =
        true := by
    decide
  obtain ⟨⟨k, s⟩, hrun⟩ := Option.isSome_iff_exists.mp hsome
  obtain ⟨k₀, hk₀, hif⟩ := Option.bind_eq_some_iff.mp hrun
  split at hif
  · rename_i halong
    obtain ⟨s', hs', heq⟩ := Option.map_eq_some_iff.mp hif
    refine ⟨k₀, s', toOption_eq_some.mp hk₀, hs', ?_⟩
    have hgroup : [pairWindow][0]? = some pairWindow := rfl
    refine slidingWindow_recycles (toOption_eq_some.mp hk₀) hgroup rfl (one_dvd _) ?_ hs'
    refine (halong.and_of_mem (D := NoHits) (by decide)).mono fun s c h => ?_
    exact ⟨h.1.1, h.2.foundHits _, h.1.2⟩
  · cases hif

def fullLoad : List (Call Nat) :=
  [.allocateSlots (loadedPrompt 0) ⟨0, 0, [[]], 0, 3, true, false⟩, .cacheBlocks (loadedPrompt 3) 3,
    .allocateSlots (loadedPrompt 2) ⟨1, 0, [[]], 0, 0, false, false⟩]

/-- The token at position 2 attends to position 1, whose block is null. -/
theorem slidingWindow_fullLoad : ∃ (k₀ : KVCacheManager Nat) (s : Tracked Nat),
    KVCacheManager.init 8 8 1 true [pairWindow] = .ok k₀ ∧
    Along (trackedCall 0) (fun s c => WindowCall 0 1 s c ∧ FoundHits 0 1 2 0 s c) ⟨k₀, none⟩
      fullLoad ∧
    exec (trackedCall 0) ⟨k₀, none⟩ fullLoad = some s ∧ s.granted = some 3 ∧
    (s.manager.table 0 0)[1]? = some s.manager.blockPool.nullBlock := by
  have hsome : ((KVCacheManager.init 8 8 1 true [pairWindow]).toOption.bind fun k₀ =>
      if Along (trackedCall 0) (fun s c => WindowCall 0 1 s c) ⟨k₀, none⟩ fullLoad
      then (exec (trackedCall 0) ⟨k₀, none⟩ fullLoad).bind fun s =>
        if s.granted = some 3 ∧ (s.manager.table 0 0)[1]? = some s.manager.blockPool.nullBlock
        then some (k₀, s) else none
      else none).isSome = true := by
    decide
  obtain ⟨⟨k, s⟩, hrun⟩ := Option.isSome_iff_exists.mp hsome
  obtain ⟨k₀, hk₀, hif⟩ := Option.bind_eq_some_iff.mp hrun
  split at hif
  · rename_i halong
    obtain ⟨s', hs', hif'⟩ := Option.bind_eq_some_iff.mp hif
    split at hif'
    · rename_i hnull
      refine ⟨k₀, s', toOption_eq_some.mp hk₀, ?_, hs', hnull⟩
      refine (halong.and_of_mem (D := NoHits) (by decide)).mono fun s c h => ?_
      exact ⟨h.1, h.2.foundHits 1⟩
    · cases hif'
  · cases hif

end EldrServing.KVCache
