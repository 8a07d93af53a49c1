import EldrServing.KVCache.Ownership

/-!
# Common prefixes of the block tables

`get_num_common_prefix_blocks` infers from a reference count that every request shares a block.
The hashes of a request are chained, so a block stands at one index only, in all the tables that
list it; if the tables hold all the references, a block with as many references as there are
tables is listed by every one of them, at that index. A connector that holds references for a
transfer breaks the count.
-/

namespace EldrServing

set_option autoImplicit false
set_option linter.unusedSectionVars false

theorem Dict.eq_one_of_sumBy_eq {κ ν : Type} [DecidableEq κ] {f : κ → ν → Nat} {d : Dict κ ν}
    (hle : ∀ k v, d.get? k = some v → f k v ≤ 1) (hsum : d.sumBy f = d.keys.length) {k : κ} {v : ν}
    (h : d.get? k = some v) : f k v = 1 := by
  have hall : d.sumBy f + d.sumBy (fun k v => 1 - f k v) = d.keys.length := by
    have hone : d.sumBy (fun k v => f k v + (1 - f k v)) = d.sumBy fun _ _ => 1 := by
      apply sumBy_congr
      intro k v hkv
      have := hle k v hkv
      omega
    simp only [sumBy, List.sum_map_add] at hone ⊢
    rw [hone, keys]
    simp
  have hmissing := le_sumBy (fun k v => 1 - f k v) h
  have := hle k v h
  omega

namespace KVCache

open SingleTypeKVCacheManager Machine

variable {κ : Type} [DecidableEq κ]

/-- `get_num_common_prefix_blocks`; only the full-attention manager looks at the blocks. -/
def SingleTypeKVCacheManager.getNumCommonPrefixBlocks (m : SingleTypeKVCacheManager)
    (pool : BlockPool κ) (runningRequestId : ReqId) : Nat × SingleTypeKVCacheManager :=
  match m.spec.attention with
  | .fullAttention =>
    let blocks := m.blocksOf runningRequestId
    -- the lookup in the `defaultdict` enters a request that is not there yet
    let m := m.setBlocks runningRequestId blocks
    ((blocks.takeWhile fun b => (pool.blocks b).refCnt = m.reqToBlocks.keys.length).length, m)
  | .slidingWindow _ | .chunkedLocal _ => (0, m)

/-! ### What the count says about the tables -/

section Count

variable {m : SingleTypeKVCacheManager} {pool : BlockPool κ} {rid r : ReqId} {blocks : List Nat}

theorem refs_setBlocks_blocksOf (m : SingleTypeKVCacheManager) (rid : ReqId) (b : Nat) :
    (m.setBlocks rid (m.blocksOf rid)).refs b = m.refs b := by
  rw [refs_setBlocks, refs_eq m rid]

theorem blocksOf_setBlocks_blocksOf (m : SingleTypeKVCacheManager) (rid r : ReqId) :
    (m.setBlocks rid (m.blocksOf rid)).blocksOf r = m.blocksOf r := by
  by_cases hr : r = rid
  · rw [hr, blocksOf_setBlocks_self]
  · exact blocksOf_setBlocks_ne m _ hr

theorem blocksOf_eq_of_get? (h : m.reqToBlocks.get? r = some blocks) : m.blocksOf r = blocks := by
  rw [blocksOf, Dict.getD, h, Option.getD_some]

theorem mem_of_refs_eq (hnodup : ∀ r, (m.blocksOf r).Nodup) {b : Nat}
    (hb : m.refs b = m.reqToBlocks.keys.length) (h : m.reqToBlocks.get? r = some blocks) :
    b ∈ blocks := by
  have hone : blocks.count b = 1 := by
    refine Dict.eq_one_of_sumBy_eq (f := fun _ (blocks : List Nat) => blocks.count b) ?_ hb h
    intro r' blocks' h'
    rw [← blocksOf_eq_of_get? h']
    exact List.nodup_iff_count_le_one.mp (hnodup r') b
  exact List.count_pos_iff.mp (by omega)

theorem nodup_of_index {l : List Nat}
    (h : ∀ (i i' : Nat) b, l[i]? = some b → l[i']? = some b → i = i') : l.Nodup := by
  rw [List.nodup_iff_getElem?_ne_getElem?]
  intro i j hij hj heq
  have := h i j l[j] (heq.trans (List.getElem?_eq_getElem hj)) (List.getElem?_eq_getElem hj)
  omega

theorem takeWhile_entry {α : Type} (p : α → Bool) {l : List α} {i : Nat}
    (h : i < (l.takeWhile p).length) : ∃ a, l[i]? = some a ∧ p a = true := by
  induction l generalizing i with
  | nil => simp at h
  | cons a l ih =>
    rw [List.takeWhile_cons] at h
    split at h
    · next ha =>
      cases i with
      | zero => exact ⟨a, rfl, ha⟩
      | succ i => exact ih (by simpa using h)
    · simp at h

theorem getNumCommonPrefixBlocks_take
    (hrefs : ∀ b ∈ m.blocksOf rid, (pool.blocks b).refCnt = m.refs b)
    (hsame : ∀ r r' (i i' : Nat) b, (m.blocksOf r)[i]? = some b →
      (m.blocksOf r')[i']? = some b → i = i')
    (h : m.reqToBlocks.get? r = some blocks) :
    blocks.take (m.getNumCommonPrefixBlocks pool rid).1 =
      (m.blocksOf rid).take (m.getNumCommonPrefixBlocks pool rid).1 := by
  have hblocks := blocksOf_eq_of_get? h
  unfold SingleTypeKVCacheManager.getNumCommonPrefixBlocks
  split
  · -- the lookup changes no table
    have hkeep := blocksOf_setBlocks_blocksOf m rid
    have hget : (m.setBlocks rid (m.blocksOf rid)).reqToBlocks.get? r = some blocks := by
      rw [SingleTypeKVCacheManager.setBlocks, Dict.get?_insert]
      split
      · next hr => rw [hr, hblocks]
      · exact h
    apply List.ext_getElem?
    intro i
    rw [List.getElem?_take, List.getElem?_take]
    split
    · next hi =>
      obtain ⟨b, hb, hcount⟩ := takeWhile_entry _ hi
      rw [decide_eq_true_eq, hrefs b (List.mem_of_getElem? hb),
        ← refs_setBlocks_blocksOf m rid b] at hcount
      have hmem : b ∈ blocks := by
        refine mem_of_refs_eq (fun r' => ?_) (Int.ofNat.inj hcount) hget
        rw [hkeep]
        exact nodup_of_index (hsame r' r')
      obtain ⟨i', hi'⟩ := List.mem_iff_getElem?.mp hmem
      obtain rfl : i = i' := hsame rid r i i' b hb (by rw [hblocks]; exact hi')
      rw [hb, hi']
    · rfl
  · rfl
  · rfl

end Count

/-! ### Blocks keep their index -/

/-- Every real block has one index in all tables that list it, and its hash tells that index. -/
structure Ledger.Aligned (null : Nat) (caching : Bool) (index : BlockHash κ → Nat)
    (L : Ledger κ) : Prop where
  real : ∀ g r, null ∉ L.table g r
  same : ∀ g g' r r' (i i' : Nat) b, (L.table g r)[i]? = some b → (L.table g' r')[i']? = some b →
    i = i'
  hashed : caching = true → ∀ g r (i : Nat) b key g', (L.table g r)[i]? = some b →
    L.hash b = some ⟨key, g'⟩ → index key = i

def LedgerOp.Indexed (null : Nat) (index : BlockHash κ → Nat) : LedgerOp κ → Prop
  | .skip _ _ below => below = 0
  | .hit _ _ blocks keys => null ∉ blocks ∧
      ∃ f, keys = some f ∧ ∀ i key, f i = some key → index key = i
  | .cache _ _ _ _ keys => ∀ i key, keys i = some key → index key = i
  | .extend _ _ _ | .free _ _ | .evict _ => True

namespace Ledger.Aligned

variable {null : Nat} {caching : Bool} {index : BlockHash κ → Nat} {L L' : Ledger κ}

theorem anti (h : Aligned null caching index L)
    (htable : ∀ g r (i : Nat) b, (L'.table g r)[i]? = some b → (L.table g r)[i]? = some b)
    (hhash : ∀ b key, L'.hash b = some key → L.hash b = some key) :
    Aligned null caching index L' := by
  refine ⟨fun g r hmem => ?_, fun g g' r r' i i' b hi hi' => ?_,
    fun hc g r i b key g' hi hkey => ?_⟩
  · obtain ⟨i, hi⟩ := List.mem_iff_getElem?.mp hmem
    exact h.real g r (List.mem_of_getElem? (htable g r i null hi))
  · exact h.same g g' r r' i i' b (htable g r i b hi) (htable g' r' i' b hi')
  · exact h.hashed hc g r i b key g' (htable g r i b hi) (hhash b _ hkey)

theorem hit {g : Nat} {r : ReqId} {blocks : List Nat}
    {keys : Option (Nat → Option (BlockHash κ))} (h : Aligned null caching index L)
    (hop : (LedgerOp.hit g r blocks keys).Indexed null index)
    (hstep : Step null caching L L' (.hit g r blocks keys)) : Aligned null caching index L' := by
  obtain ⟨hnull, f, rfl, hf⟩ := hop
  obtain ⟨hhash, hothers, -, htable, hoff, hcarry⟩ := hstep
  -- each entry is an old one or carries the hash of its index
  have hentry : ∀ g' r' (i : Nat) b, (L'.table g' r')[i]? = some b →
      (L.table g' r')[i]? = some b ∨ b ≠ null ∧ caching = true ∧
        ∃ key, L.hash b = some ⟨key, g⟩ ∧ index key = i := by
    intro g' r' i b hi
    by_cases hgr : (g', r') = (g, r)
    · obtain ⟨rfl, rfl⟩ := Prod.mk.inj hgr
      rw [htable] at hi
      have hb := List.mem_of_getElem? hi
      have hne : b ≠ null := fun heq => hnull (heq ▸ hb)
      obtain ⟨key, hkey, hstored⟩ := hcarry f rfl i b hi hne
      refine .inr ⟨hne, ?_, key, hstored, hf i key hkey⟩
      by_contra hc
      exact hne (hoff (by simpa using hc) b hb)
    · rw [hothers g' r' hgr] at hi
      exact .inl hi
  refine ⟨fun g' r' hmem => ?_, fun g₁ g₂ r₁ r₂ i₁ i₂ b h₁ h₂ => ?_,
    fun hc g' r' i b key g'' hi hkey => ?_⟩
  · obtain ⟨i, hi⟩ := List.mem_iff_getElem?.mp hmem
    rcases hentry g' r' i null hi with hold | ⟨hne, -⟩
    · exact h.real g' r' (List.mem_of_getElem? hold)
    · exact hne rfl
  · rcases hentry _ _ _ _ h₁ with hold₁ | ⟨-, hc, key₁, hkey₁, hidx₁⟩
    · rcases hentry _ _ _ _ h₂ with hold₂ | ⟨-, hc, key₂, hkey₂, hidx₂⟩
      · exact h.same _ _ _ _ _ _ _ hold₁ hold₂
      · exact (h.hashed hc _ _ _ _ _ _ hold₁ hkey₂).symm.trans hidx₂
    · rcases hentry _ _ _ _ h₂ with hold₂ | ⟨-, -, key₂, hkey₂, hidx₂⟩
      · exact hidx₁.symm.trans (h.hashed hc _ _ _ _ _ _ hold₂ hkey₁)
      · rw [hkey₁] at hkey₂
        rw [← hidx₁, ← hidx₂]
        simp only [Option.some.injEq, BlockHashWithGroupId.mk.injEq] at hkey₂
        rw [hkey₂.1]
  · rw [hhash] at hkey
    rcases hentry _ _ _ _ hi with hold | ⟨-, -, key', hkey', hidx⟩
    · exact h.hashed hc _ _ _ _ _ _ hold hkey
    · rw [hkey'] at hkey
      simp only [Option.some.injEq, BlockHashWithGroupId.mk.injEq] at hkey
      rw [← hkey.1]
      exact hidx

theorem extend {g : Nat} {r : ReqId} {blocks : List Nat} (h : Aligned null caching index L)
    (hstep : Step null caching L L' (.extend g r blocks)) : Aligned null caching index L' := by
  obtain ⟨hothers, htable, hnodup, hfresh, hkeep, hnew⟩ := hstep
  have hentry : ∀ g' r' (i : Nat) b, (L'.table g' r')[i]? = some b →
      b ∉ blocks ∧ (L.table g' r')[i]? = some b ∨
      b ∈ blocks ∧ (L.table g r).length ≤ i ∧ blocks[i - (L.table g r).length]? = some b := by
    intro g' r' i b hi
    have hold : (L.table g' r')[i]? = some b → b ∉ blocks := fun hb hmem =>
      (hfresh b hmem).2 g' r' (List.mem_of_getElem? hb)
    by_cases hgr : (g', r') = (g, r)
    · obtain ⟨rfl, rfl⟩ := Prod.mk.inj hgr
      rw [htable, List.getElem?_append] at hi
      split at hi
      · exact .inl ⟨hold hi, hi⟩
      · next hle => exact .inr ⟨List.mem_of_getElem? hi, by omega, hi⟩
    · rw [hothers g' r' hgr] at hi
      exact .inl ⟨hold hi, hi⟩
  refine ⟨fun g' r' hmem => ?_, fun g₁ g₂ r₁ r₂ i₁ i₂ b h₁ h₂ => ?_,
    fun hc g' r' i b key g'' hi hkey => ?_⟩
  · obtain ⟨i, hi⟩ := List.mem_iff_getElem?.mp hmem
    rcases hentry g' r' i null hi with ⟨-, hold⟩ | ⟨hb, -⟩
    · exact h.real g' r' (List.mem_of_getElem? hold)
    · exact (hfresh null hb).1 rfl
  · rcases hentry _ _ _ _ h₁ with ⟨hb, hold₁⟩ | ⟨hb, hle₁, hj₁⟩
    · rcases hentry _ _ _ _ h₂ with ⟨-, hold₂⟩ | ⟨hb', -⟩
      · exact h.same _ _ _ _ _ _ _ hold₁ hold₂
      · exact absurd hb' hb
    · rcases hentry _ _ _ _ h₂ with ⟨hb', -⟩ | ⟨-, hle₂, hj₂⟩
      · exact absurd hb hb'
      · have hlt := (List.getElem?_eq_some_iff.mp hj₁).1
        have := (List.getElem?_inj hlt hnodup).mp (hj₁.trans hj₂.symm)
        omega
  · rcases hentry _ _ _ _ hi with ⟨hb, hold⟩ | ⟨hb, -⟩
    · rw [hkeep b hb] at hkey
      exact h.hashed hc _ _ _ _ _ _ hold hkey
    · rw [hnew b hb, hc, if_pos rfl] at hkey
      cases hkey

theorem cache {g : Nat} {r : ReqId} {first last : Nat} {keys : Nat → Option (BlockHash κ)}
    (h : Aligned null caching index L)
    (hop : (LedgerOp.cache g r first last keys).Indexed null index)
    (hstep : Step null caching L L' (.cache g r first last keys)) :
    Aligned null caching index L' := by
  obtain ⟨htable, hkeep, hnew⟩ := hstep
  refine ⟨?_, ?_, fun hc g' r' i b key g'' hi hkey => ?_⟩
  · rw [htable]
    exact h.real
  · rw [htable]
    exact h.same
  rw [htable] at hi
  by_cases hrange : ∃ j, first ≤ j ∧ j < last ∧ (L.table g r)[j]? = some b
  · obtain ⟨j, hfirst, hlast, hj⟩ := hrange
    have hne : b ≠ null := fun heq => h.real g r (heq ▸ List.mem_of_getElem? hj)
    obtain ⟨-, key', hkey', hhash⟩ := hnew j b hfirst hlast hj hne
    rw [hhash] at hkey
    simp only [Option.some.injEq, BlockHashWithGroupId.mk.injEq] at hkey
    rw [← hkey.1, hop j key' hkey']
    exact h.same _ _ _ _ _ _ _ hj hi
  · have hout : ∀ j, first ≤ j → j < last → (L.table g r)[j]? ≠ some b := by
      intro j hfirst hlast hj
      exact hrange ⟨j, hfirst, hlast, hj⟩
    rw [hkeep b (.inl hout)] at hkey
    exact h.hashed hc _ _ _ _ _ _ hi hkey

theorem step {op : LedgerOp κ} (h : Aligned null caching index L) (hop : op.Indexed null index)
    (hstep : Step null caching L L' op) : Aligned null caching index L' := by
  cases op with
  | skip g r below =>
    obtain ⟨hhash, hothers, hskip⟩ := hstep
    refine h.anti (fun g' r' i b hi => ?_) fun b key hkey => by rwa [hhash] at hkey
    by_cases hgr : (g', r') = (g, r)
    · obtain ⟨rfl, rfl⟩ := Prod.mk.inj hgr
      rcases hskip i with heq | ⟨hlt, -⟩
      · exact heq ▸ hi
      · change below = 0 at hop
        omega
    · rwa [hothers g' r' hgr] at hi
  | hit g r blocks keys => exact h.hit hop hstep
  | extend g r blocks => exact h.extend hstep
  | cache g r first last keys => exact h.cache hop hstep
  | free g r =>
    obtain ⟨hhash, hothers, hempty⟩ := hstep
    refine h.anti (fun g' r' i b hi => ?_) fun b key hkey => by rwa [hhash] at hkey
    by_cases hgr : (g', r') = (g, r)
    · obtain ⟨rfl, rfl⟩ := Prod.mk.inj hgr
      rw [hempty] at hi
      simp at hi
    · rwa [hothers g' r' hgr] at hi
  | evict blocks =>
    obtain ⟨htable, hhash⟩ := hstep
    refine h.anti (fun g' r' i b hi => by rwa [htable] at hi) fun b key hkey => ?_
    rw [hhash b] at hkey
    split at hkey
    · cases hkey
    · exact hkey

end Ledger.Aligned

/-! ### The calls of the scheduler -/

/-- `pos` tells at which index of a request's hashes each of them stands: hashes are chained, so
equal hashes stand for equal prefixes. -/
def RequestView.Chained (pos : κ → Nat) (request : RequestView κ) : Prop :=
  ∀ i h, request.blockHashes[i]? = some h → pos h = i

def Call.Chained (pos : κ → Nat) : Call κ → Prop
  | .allocateSlots request _ | .cacheBlocks request _ => request.Chained pos
  | .removeSkippedBlocks _ _ | .free _ | .evictBlocks _ | .resetPrefixCache => True

/-- The index of the block whose hash joins `scale` hashes of the request. -/
def blockIndex (pos : κ → Nat) (scale : Nat) (key : BlockHash κ) : Nat :=
  key.head?.elim 0 fun h => pos h / scale

theorem keysOf_blockIndex {pos : κ → Nat} {request : RequestView κ} (h : request.Chained pos)
    {hashBlockSize i : Nat} {spec : KVCacheSpec} {key : BlockHash κ}
    (hkey : keysOf hashBlockSize request spec i = some key) :
    blockIndex pos (spec.blockSize / hashBlockSize) key = i := by
  unfold keysOf blockHashesAt at hkey
  split at hkey
  · next heq =>
    rw [List.getElem?_map] at hkey
    obtain ⟨hash, hhash, rfl⟩ := Option.map_eq_some_iff.mp hkey
    rw [← heq, Nat.div_self spec.blockSize_pos]
    simpa [blockIndex] using h i hash hhash
  · rw [List.getElem?_map] at hkey
    obtain ⟨j, hj, rfl⟩ := Option.map_eq_some_iff.mp hkey
    obtain ⟨hlt, hij⟩ := List.getElem?_eq_some_iff.mp hj
    rw [List.getElem_range] at hij
    rw [List.length_range] at hlt
    subst hij
    set scale := spec.blockSize / hashBlockSize
    have hpos : 0 < scale := by
      by_contra hzero
      rw [Nat.eq_zero_of_not_pos hzero, Nat.div_zero] at hlt
      omega
    have hin : i * scale < request.blockHashes.length := by
      have := (Nat.le_div_iff_mul_le hpos).mp hlt
      rw [Nat.succ_mul] at this
      omega
    rw [blockIndex, take_drop_head hin hpos, List.getElem?_eq_getElem hin]
    change pos request.blockHashes[i * scale] / scale = i
    rw [h _ _ (List.getElem?_eq_getElem hin), Nat.mul_div_cancel i hpos]

/-- The hits of a full-attention group are cached blocks, never the null block. -/
def Call.FullHits (k : KVCacheManager κ) : Call κ → Prop
  | .allocateSlots _ args => ∀ e ∈ args.newComputedBlocks.zip k.singleTypeManagers,
      e.2.spec.attention = .fullAttention → k.blockPool.nullBlock ∉ e.1
  | .removeSkippedBlocks _ _ | .cacheBlocks _ _ | .free _ | .evictBlocks _ | .resetPrefixCache =>
    True

instance (k : KVCacheManager κ) : ∀ c : Call κ, Decidable (c.FullHits k)
  | .allocateSlots _ args => inferInstanceAs (Decidable
      (∀ e ∈ args.newComputedBlocks.zip k.singleTypeManagers,
        e.2.spec.attention = .fullAttention → k.blockPool.nullBlock ∉ e.1))
  | .removeSkippedBlocks _ _ | .cacheBlocks _ _ | .free _ | .evictBlocks _ | .resetPrefixCache =>
    .isTrue trivial

section Calls

variable {k k' : KVCacheManager κ} {spec : KVCacheSpec} {pos : κ → Nat} {request : RequestView κ}
  {args : AllocateSlotsArgs} {op : LedgerOp κ}

/-- The index of a block in the only group of `k`, read from its hash. -/
def KVCacheManager.indexBy (k : KVCacheManager κ) (spec : KVCacheSpec) (pos : κ → Nat) :
    BlockHash κ → Nat :=
  blockIndex pos (spec.blockSize / k.blockPool.hashBlockSize)

theorem spec_eq_of_one (hone : k.specs = [spec]) {g : Nat} {spec' : KVCacheSpec}
    (h : k.specs[g]? = some spec') : spec' = spec := by
  rw [hone] at h
  exact List.mem_singleton.mp (List.mem_of_getElem? h)

theorem SkipOp.indexed (hone : k.specs = [spec]) (hfull : spec.attention = .fullAttention)
    {r : ReqId} {total null : Nat} {index : BlockHash κ → Nat} (h : SkipOp k.specs r total op) :
    op.Indexed null index := by
  obtain ⟨g, spec', hspec, rfl⟩ := h
  rw [spec_eq_of_one hone hspec]
  simp [LedgerOp.Indexed, KVCacheSpec.getNumSkippedTokens, hfull]

theorem CacheOp.indexed (hone : k.specs = [spec]) (hchain : request.Chained pos) {n null : Nat}
    (h : CacheOp k.specs k.blockPool.hashBlockSize request n op) :
    op.Indexed null (k.indexBy spec pos) := by
  obtain ⟨g, spec', first, last, hspec, -, rfl⟩ := h
  rw [spec_eq_of_one hone hspec]
  intro i key hkey
  exact keysOf_blockIndex hchain hkey

theorem AllocateOp.indexed (hone : k.specs = [spec]) (hfull : spec.attention = .fullAttention)
    (hchain : request.Chained pos) (hhits : (Call.allocateSlots request args).FullHits k)
    (h : AllocateOp k request args true op) :
    op.Indexed k.blockPool.nullBlock (k.indexBy spec pos) := by
  rcases h with hskip | (⟨g, blocks, rfl⟩ | ⟨g, spec', blocks, hspec, hblocks, rfl⟩) | ⟨-, hcache⟩
  · exact hskip.indexed hone hfull
  · trivial
  · obtain ⟨m, hm, hspec'⟩ : ∃ m, k.singleTypeManagers[g]? = some m ∧ m.spec = spec' := by
      rw [KVCacheManager.specs, List.getElem?_map] at hspec
      exact Option.map_eq_some_iff.mp hspec
    have heq := spec_eq_of_one hone hspec
    have hattn : m.spec.attention = .fullAttention := by rw [hspec', heq, hfull]
    have hnull : k.blockPool.nullBlock ∉ blocks := hhits (blocks, m)
      (List.mem_of_getElem? (List.getElem?_zip_eq_some.mpr ⟨hblocks, hm⟩)) hattn
    rw [heq]
    refine ⟨?_, _, if_pos rfl, fun i key hkey => keysOf_blockIndex hchain hkey⟩
    simpa [hitTable, KVCacheSpec.getNumSkippedTokens, hfull] using hnull
  · exact hcache.indexed hone hchain

theorem Calls.aligned {P : LedgerOp κ → Prop} {index : BlockHash κ → Nat} (h : Calls P k k')
    (hP : ∀ op, P op → op.Indexed k.blockPool.nullBlock index)
    (hal : k.ledger.Aligned k.blockPool.nullBlock k.blockPool.enableCaching index) :
    k'.ledger.Aligned k'.blockPool.nullBlock k'.blockPool.enableCaching index := by
  rw [h.same.pool.nullBlock, h.same.pool.enableCaching]
  exact h.path.invariant (fun op L L' hop hstep hL => hL.step (hP op hop) hstep) hal

/-- A manager of one full-attention group whose blocks stand at the index their hash tells. -/
structure FullInv (spec : KVCacheSpec) (pos : κ → Nat) (k : KVCacheManager κ) : Prop extends
    KVOk k where
  one : k.specs = [spec]
  aligned : k.ledger.Aligned k.blockPool.nullBlock k.blockPool.enableCaching (k.indexBy spec pos)

theorem FullInv.of_calls {P : LedgerOp κ → Prop} (h : FullInv spec pos k) (hcalls : Calls P k k')
    (hP : ∀ op, P op → op.Indexed k.blockPool.nullBlock (k.indexBy spec pos)) :
    FullInv spec pos k' := by
  refine ⟨hcalls.ok, hcalls.same.specs.trans h.one, ?_⟩
  rw [KVCacheManager.indexBy, hcalls.same.pool.hashBlockSize]
  exact hcalls.aligned hP h.aligned

theorem FullInv.resetPrefixCache (h : FullInv spec pos k) :
    FullInv spec pos k.resetPrefixCache.2 := by
  have hsame := PoolInv.resetPrefixCache_same k.blockPool
  refine ⟨h.toKVOk.resetPrefixCache, h.one, ?_⟩
  change Ledger.Aligned k.blockPool.resetPrefixCache.2.nullBlock
    k.blockPool.resetPrefixCache.2.enableCaching
    (blockIndex pos (spec.blockSize / k.blockPool.resetPrefixCache.2.hashBlockSize)) _
  rw [hsame.nullBlock, hsame.enableCaching, hsame.hashBlockSize]
  refine h.aligned.anti (fun g r i b hi => hi) fun b key hkey => ?_
  change k.blockPool.resetPrefixCache.2.hashOf b = some key at hkey
  unfold BlockPool.resetPrefixCache at hkey
  split at hkey
  · exact hkey
  · cases hkey

theorem FullInv.call {c : Call κ} (hfull : spec.attention = .fullAttention)
    (h : FullInv spec pos k) (hchain : c.Chained pos)
    (hhits : c.FullHits k)
    (hcall : call k c = some k') : FullInv spec pos k' := by
  have hk := h.toKVOk
  cases c with
  | allocateSlots request args =>
    simp only [KVCache.call] at hcall
    split at hcall
    · next hlookup =>
      obtain ⟨⟨res, k₁⟩, hres, rfl⟩ := Option.map_eq_some_iff.mp hcall
      have hcalls : Calls (AllocateOp k request args true) k k₁ := by
        refine allocateSlots_calls hk hlookup (fun _ k₁ hskip => ?_) (toOption_eq_some.mp hres)
        apply HitsSafe.of_oneGroup
        rw [hskip.same.specs, h.one]
        rfl
      exact h.of_calls hcalls fun op hop =>
        hop.indexed h.one hfull hchain hhits
    · cases hcall
  | removeSkippedBlocks rid total =>
    exact h.of_calls (removeSkippedBlocks_calls hk (toOption_eq_some.mp hcall)) fun op hop =>
      hop.indexed h.one hfull
  | cacheBlocks request n =>
    exact h.of_calls (cacheBlocks_calls hk (toOption_eq_some.mp hcall)) fun op hop =>
      hop.indexed h.one hchain
  | free rid =>
    refine h.of_calls (free_calls hk (toOption_eq_some.mp hcall)) fun op hop => ?_
    obtain ⟨g, rfl⟩ := hop
    trivial
  | evictBlocks ids =>
    refine h.of_calls (evictBlocks_calls hk (toOption_eq_some.mp hcall)) fun op hop => ?_
    obtain rfl := hop
    trivial
  | resetPrefixCache =>
    obtain rfl := Option.some.inj hcall
    exact h.resetPrefixCache

theorem FullInv.init {numBlocks maxModelLen hashBlockSize : Nat} {caching : Bool}
    (h : KVCacheManager.init numBlocks maxModelLen hashBlockSize caching [spec] = .ok k) :
    FullInv spec pos k := by
  have htable : ∀ g r, k.ledger.table g r = [] := table_init h
  refine ⟨KVOk.init h, ?_, ⟨fun g r => ?_, fun g g' r r' i i' b hi => ?_,
    fun _ g r i b key g' hi => ?_⟩⟩
  · simp only [KVCacheManager.init, except_bind_eq_ok] at h
    obtain ⟨pool, -, hok⟩ := h
    obtain rfl := Except.ok.inj hok
    rfl
  · simp [htable]
  · simp [htable] at hi
  · simp [htable] at hi

theorem FullInv.take_eq (h : FullInv spec pos k) {m : SingleTypeKVCacheManager}
    (hm : m ∈ k.singleTypeManagers) {r : ReqId} {blocks : List Nat}
    (hr : m.reqToBlocks.get? r = some blocks) (rid : ReqId) :
    blocks.take (m.getNumCommonPrefixBlocks k.blockPool rid).1 =
      (m.blocksOf rid).take (m.getNumCommonPrefixBlocks k.blockPool rid).1 := by
  have hone : k.singleTypeManagers = [m] := by
    have hlen : k.singleTypeManagers.length = 1 := by
      have := congrArg List.length h.one
      simpa [KVCacheManager.specs] using this
    obtain ⟨m', hm'⟩ := List.length_eq_one_iff.mp hlen
    rw [hm'] at hm ⊢
    rw [List.mem_singleton.mp hm]
  have htable : ∀ r, k.ledger.table 0 r = m.blocksOf r := by
    intro r'
    change k.table 0 r' = _
    unfold KVCacheManager.table
    rw [hone]
    rfl
  refine getNumCommonPrefixBlocks_take (fun b hb => ?_) (fun r₁ r₂ i₁ i₂ b h₁ h₂ => ?_) hr
  · have hne : b ≠ k.blockPool.nullBlock := by
      rintro rfl
      rw [← htable rid] at hb
      exact h.aligned.real 0 rid hb
    rw [h.pool.refCnt_eq b hne, hone]
    simp [refsOf]
  · rw [← htable] at h₁ h₂
    exact h.aligned.same 0 0 r₁ r₂ i₁ i₂ b h₁ h₂

end Calls

/-! ### Beside a connector -/

/-- The cache manager and the transfers under way of a connector that touches the blocks it
stores or loads. -/
structure Offload (κ : Type) where
  manager : KVCacheManager κ
  transfers : Dict Nat (List Nat)

inductive OffloadEvent (κ : Type) where
  | call (c : Call κ)
  | touch (transfer : Nat) (blocks : List Nat)
  | complete (transfer : Nat)

def OffloadEvent.Chained (pos : κ → Nat) : OffloadEvent κ → Prop
  | .call c => c.Chained pos
  | .touch _ _ | .complete _ => True

def OffloadEvent.TablesOnly : OffloadEvent κ → Prop
  | .touch _ _ => False
  | .call _ | .complete _ => True

namespace Offload

def step (s : Offload κ) : OffloadEvent κ → Option (Offload κ)
  | .call c =>
    if c.FullHits s.manager then (call s.manager c).map fun k => { s with manager := k } else none
  | .touch transfer blocks =>
    if s.transfers.contains transfer then none
    else (s.manager.blockPool.touch blocks).toOption.map fun pool =>
      { manager := { s.manager with blockPool := pool }
        transfers := s.transfers.insert transfer blocks }
  | .complete transfer =>
    (s.transfers.get? transfer).bind fun blocks =>
      (s.manager.blockPool.freeBlocks blocks).toOption.map fun pool =>
        { manager := { s.manager with blockPool := pool }
          transfers := s.transfers.erase transfer }

variable {s t : Offload κ} {e : OffloadEvent κ} {spec : KVCacheSpec} {pos : κ → Nat}

theorem step_fullInv (hfull : spec.attention = .fullAttention)
    (h : FullInv spec pos s.manager ∧ s.transfers = .empty)
    (hchain : e.Chained pos) (htables : e.TablesOnly) (hstep : step s e = some t) :
    FullInv spec pos t.manager ∧ t.transfers = .empty := by
  cases e with
  | call c =>
    simp only [step] at hstep
    split at hstep
    · next hhits =>
      obtain ⟨k, hcall, rfl⟩ := Option.map_eq_some_iff.mp hstep
      exact ⟨h.1.call hfull hchain hhits hcall, h.2⟩
    · cases hstep
  | touch transfer blocks => exact htables.elim
  | complete transfer =>
    simp only [step, h.2, Dict.get?_empty, Option.bind_none] at hstep
    cases hstep

/-- In every run in which only tables hold references, the number that
`get_num_common_prefix_blocks` returns for a request counts blocks with which the tables of all
requests start. -/
theorem common_blocks_shared {numBlocks maxModelLen hashBlockSize : Nat} {caching : Bool}
    {k₀ : KVCacheManager κ} {events : List (OffloadEvent κ)}
    (hfull : spec.attention = .fullAttention)
    (hinit : KVCacheManager.init numBlocks maxModelLen hashBlockSize caching [spec] = .ok k₀)
    (hchain : ∀ e ∈ events, e.Chained pos) (htables : ∀ e ∈ events, e.TablesOnly)
    (hrun : exec step ⟨k₀, .empty⟩ events = some s) :
    ∀ m ∈ s.manager.singleTypeManagers, ∀ rid n,
      (m.getNumCommonPrefixBlocks s.manager.blockPool rid).1 = n →
      ∀ r blocks, m.reqToBlocks.get? r = some blocks → blocks.take n = (m.blocksOf rid).take n := by
  have hinv : FullInv spec pos s.manager ∧ s.transfers = .empty := by
    refine exec_invariant_along (P := fun s => FullInv spec pos s.manager ∧ s.transfers = .empty)
      (C := fun _ e => e.Chained pos ∧ e.TablesOnly)
      (fun s e t hs he hstep => step_fullInv hfull hs he.1 he.2 hstep)
      ⟨FullInv.init hinit, rfl⟩ ?_ hrun
    exact Along.of_mem fun e he => ⟨hchain e he, htables e he⟩
  rintro m hm rid n rfl r blocks hr
  exact hinv.1.take_eq hm hr rid

def twoTokensElse : RequestView Nat := ⟨1, 0, 2, [7, 9], by decide⟩

theorem twoTokens_chained : twoTokens.Chained fun h => if h = 7 then 0 else 1 := by
  rintro (_ | _ | i) h hi
  · cases hi
    rfl
  · cases hi
    rfl
  · simp [twoTokens] at hi

theorem twoTokensElse_chained : twoTokensElse.Chained fun h => if h = 7 then 0 else 1 := by
  rintro (_ | _ | i) h hi
  · cases hi
    rfl
  · cases hi
    rfl
  · simp [twoTokensElse] at hi

def sharedRun : List (OffloadEvent Nat) :=
  [.call (.allocateSlots twoTokens ⟨2, 0, [[]], 0, 0, false, false⟩),
    .call (.allocateSlots twoTokensElse ⟨1, 1, [[1]], 0, 0, false, false⟩)]

theorem common_blocks_shared_hit : ∃ (k₀ : KVCacheManager Nat) (s : Offload Nat),
    KVCacheManager.init 6 8 1 true [unitGroup] = .ok k₀ ∧
    exec step ⟨k₀, .empty⟩ sharedRun = some s ∧
    ∀ m ∈ s.manager.singleTypeManagers,
      (m.getNumCommonPrefixBlocks s.manager.blockPool 0).1 = 1 ∧
      ∀ r blocks, m.reqToBlocks.get? r = some blocks → blocks.take 1 = (m.blocksOf 0).take 1 := by
  obtain ⟨k₀, hinit⟩ : ∃ k₀ : KVCacheManager Nat,
    KVCacheManager.init 6 8 1 true [unitGroup] = .ok k₀ := ⟨_, rfl⟩
  obtain ⟨s, hrun, hcount⟩ : ∃ s, exec step ⟨k₀, .empty⟩ sharedRun = some s ∧
      ∀ m ∈ s.manager.singleTypeManagers,
        (m.getNumCommonPrefixBlocks s.manager.blockPool 0).1 = 1 := by
    obtain rfl := Except.ok.inj hinit
    exact ⟨_, rfl, by decide⟩
  have hshared := common_blocks_shared rfl hinit
    (by
      intro e he
      simp only [sharedRun, List.mem_cons, List.not_mem_nil, or_false] at he
      rcases he with rfl | rfl
      · exact twoTokens_chained
      · exact twoTokensElse_chained)
    (by simp [sharedRun, OffloadEvent.TablesOnly]) hrun
  exact ⟨k₀, s, hinit, hrun, fun m hm => ⟨hcount m hm, hshared m hm 0 1 (hcount m hm)⟩⟩

def oneTokenElse : RequestView Nat := ⟨1, 0, 1, [5], otherToken.nodup⟩

def storeRun : List (OffloadEvent Nat) :=
  [.call (.allocateSlots twoTokens ⟨2, 0, [[]], 0, 0, false, false⟩),
    .call (.allocateSlots oneTokenElse ⟨1, 0, [[]], 0, 0, false, false⟩),
    .touch 0 [1]]

/-- The reference of the connector counts as that of the second table. -/
theorem store_counts_as_table : ∃ (k₀ : KVCacheManager Nat) (s : Offload Nat),
    KVCacheManager.init 6 8 1 true [unitGroup] = .ok k₀ ∧
    exec step ⟨k₀, .empty⟩ storeRun = some s ∧
    ∃ m ∈ s.manager.singleTypeManagers,
      (m.getNumCommonPrefixBlocks s.manager.blockPool 0).1 = 1 ∧
      m.blocksOf 0 = [1, 2] ∧ m.reqToBlocks.get? 1 = some [3] := by
  refine ⟨_, _, rfl, rfl, _, List.mem_singleton.mpr rfl, ?_⟩
  decide

end Offload

end KVCache

end EldrServing
