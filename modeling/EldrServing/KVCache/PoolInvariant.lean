import EldrServing.KVCache.BlockPool

/-!
# Accounting of the block pool

`PoolInv p refs` says that the pool `p` is consistent when `refs b` references to each block
`b` are held outside it. Every operation is specified by how it changes `refs`; who holds the
references is left to the managers.
-/

namespace EldrServing.KVCache

set_option autoImplicit false
set_option linter.unusedSectionVars false

open Function FreeKVCacheBlockQueue BlockHashToBlockMap

variable {κ : Type} [DecidableEq κ]

/-- The fields of the blocks are consistent, with reference counts `cnt`. -/
structure BlocksInv (p : BlockPool κ) (cnt : Nat → Int) : Prop where
  refCnt_eq : ∀ b, b ≠ p.nullBlock → (p.blocks b).refCnt = cnt b
  null_lt : p.nullBlock < p.numGpuBlocks
  isNull_iff : ∀ b, (p.blocks b).isNull = true ↔ b = p.nullBlock
  hash_iff : ∀ b key, (p.blocks b).blockHash = some key ↔ p.cachedBlockHashToBlock.Stored key b
  null_hash : (p.blocks p.nullBlock).blockHash = none
  hash_lt : ∀ b, (p.blocks b).blockHash ≠ none → b < p.numGpuBlocks

structure PoolInv (p : BlockPool κ) (refs : Nat → Nat) : Prop extends
    BlocksInv p fun b => refs b where
  /-- The queue threads the unreferenced blocks. -/
  free : ∃ ids, Threads p.freeBlockQueue ids ∧
    ∀ b, b ∈ ids ↔ b ≠ p.nullBlock ∧ b < p.numGpuBlocks ∧ refs b = 0
  refs_lt : ∀ b, refs b ≠ 0 → b < p.numGpuBlocks

structure SamePool (p p' : BlockPool κ) : Prop where
  numGpuBlocks : p'.numGpuBlocks = p.numGpuBlocks
  nullBlock : p'.nullBlock = p.nullBlock
  enableCaching : p'.enableCaching = p.enableCaching
  hashBlockSize : p'.hashBlockSize = p.hashBlockSize

theorem SamePool.refl (p : BlockPool κ) : SamePool p p := ⟨rfl, rfl, rfl, rfl⟩

theorem SamePool.trans {p q r : BlockPool κ} (h : SamePool p q) (k : SamePool q r) :
    SamePool p r :=
  ⟨k.1.trans h.1, k.2.trans h.2, k.3.trans h.3, k.4.trans h.4⟩

def BlockPool.hashOf (p : BlockPool κ) (b : Nat) : Option (BlockHashWithGroupId κ) :=
  (p.blocks b).blockHash

namespace BlocksInv

variable {p p' : BlockPool κ} {cnt : Nat → Int} {b : Nat} {bs : List Nat}

theorem isNull_eq_false (h : BlocksInv p cnt) (hb : b ≠ p.nullBlock) :
    (p.blocks b).isNull = false := by
  rw [Bool.eq_false_iff]
  intro hnull
  exact hb ((h.isNull_iff b).mp hnull)

theorem addRef (h : BlocksInv p cnt) (b : Nat) (d : Int) :
    BlocksInv (p.addRef b d) (update cnt b (cnt b + d)) := by
  have hproj : ∀ c, ((p.addRef b d).blocks c).isNull = (p.blocks c).isNull ∧
      ((p.addRef b d).blocks c).blockHash = (p.blocks c).blockHash := by
    intro c
    by_cases hc : c = b
    · simp [BlockPool.addRef, BlockPool.setBlock, hc]
    · simp [BlockPool.addRef, BlockPool.setBlock, update_of_ne hc]
  refine ⟨?_, h.null_lt, ?_, ?_, ?_, ?_⟩
  · intro c hc
    by_cases hcb : c = b
    · subst hcb
      simp [BlockPool.addRef, BlockPool.setBlock, h.refCnt_eq c hc]
    · simpa [BlockPool.addRef, BlockPool.setBlock, update_of_ne hcb] using h.refCnt_eq c hc
  · intro c
    rw [(hproj c).1]
    exact h.isNull_iff c
  · intro c key
    rw [(hproj c).2]
    exact h.hash_iff c key
  · rw [(hproj _).2]
    exact h.null_hash
  · intro c
    rw [(hproj c).2]
    exact h.hash_lt c

theorem addRef_hashOf (p : BlockPool κ) (b c : Nat) (d : Int) :
    (p.addRef b d).hashOf c = p.hashOf c := by
  by_cases hc : c = b
  · simp [BlockPool.hashOf, BlockPool.addRef, BlockPool.setBlock, hc]
  · simp [BlockPool.hashOf, BlockPool.addRef, BlockPool.setBlock, update_of_ne hc]

/-! ### Eviction -/

theorem maybeEvict_same (p : BlockPool κ) (b : Nat) : SamePool p (p.maybeEvictCachedBlock b) := by
  unfold BlockPool.maybeEvictCachedBlock
  split
  · exact SamePool.refl p
  · split <;> exact ⟨rfl, rfl, rfl, rfl⟩

theorem maybeEvict_blocks (h : BlocksInv p cnt) (b : Nat) :
    (p.maybeEvictCachedBlock b).blocks =
      update p.blocks b { p.blocks b with blockHash := none } ∧
    (p.maybeEvictCachedBlock b).freeBlockQueue = p.freeBlockQueue ∧
    ∀ key c, (p.maybeEvictCachedBlock b).cachedBlockHashToBlock.Stored key c ↔
      p.cachedBlockHashToBlock.Stored key c ∧ c ≠ b := by
  unfold BlockPool.maybeEvictCachedBlock
  split
  · rename_i hnone
    refine ⟨?_, rfl, ?_⟩
    · rw [← hnone]
      exact (update_eq_self b p.blocks).symm
    · intro key c
      refine ⟨fun hc => ⟨hc, ?_⟩, And.left⟩
      rintro rfl
      have := (h.hash_iff c key).mpr hc
      rw [hnone] at this
      cases this
  · rename_i key hkey
    have hstored := (h.hash_iff b key).mp hkey
    have hne : (p.cachedBlockHashToBlock.pop key b).1 ≠ none := fun hnone =>
      (pop_eq_none_iff _ _ _).mp hnone hstored
    split
    · rename_i cached hpop
      exact absurd (by rw [hpop]) hne
    · rename_i a cached hpop
      refine ⟨rfl, rfl, ?_⟩
      intro k c
      have := stored_pop p.cachedBlockHashToBlock key k b c
      rw [hpop] at this
      change cached.Stored k c ↔ _
      rw [this]
      refine and_congr_right fun hc => not_congr ⟨And.right, fun hcb => ⟨?_, hcb⟩⟩
      subst hcb
      have := (h.hash_iff c k).mpr hc
      rw [hkey] at this
      exact (Option.some.inj this).symm

theorem maybeEvict (h : BlocksInv p cnt) (b : Nat) : BlocksInv (p.maybeEvictCachedBlock b) cnt := by
  obtain ⟨hblocks, -, hstored⟩ := h.maybeEvict_blocks b
  have hsame := maybeEvict_same p b
  have hproj : ∀ c, ((p.maybeEvictCachedBlock b).blocks c).refCnt = (p.blocks c).refCnt ∧
      ((p.maybeEvictCachedBlock b).blocks c).isNull = (p.blocks c).isNull := by
    intro c
    rw [hblocks]
    by_cases hc : c = b
    · simp [hc]
    · simp [update_of_ne hc]
  refine ⟨?_, ?_, ?_, ?_, ?_, ?_⟩
  · intro c hc
    rw [hsame.nullBlock] at hc
    rw [(hproj c).1, h.refCnt_eq c hc]
  · rw [hsame.nullBlock, hsame.numGpuBlocks]
    exact h.null_lt
  · intro c
    rw [hsame.nullBlock, (hproj c).2, h.isNull_iff]
  · intro c key
    rw [hstored, hblocks]
    by_cases hc : c = b
    · simp [hc]
    · simp [hc, h.hash_iff]
  · rw [hsame.nullBlock, hblocks]
    by_cases hc : p.nullBlock = b
    · simp [hc]
    · simp [update_of_ne hc, h.null_hash]
  · intro c
    rw [hsame.numGpuBlocks, hblocks]
    by_cases hc : c = b
    · simp [hc]
    · simpa [update_of_ne hc] using h.hash_lt c

theorem maybeEvict_hashOf (h : BlocksInv p cnt) (b c : Nat) :
    (p.maybeEvictCachedBlock b).hashOf c = if c = b then none else p.hashOf c := by
  rw [BlockPool.hashOf, (h.maybeEvict_blocks b).1]
  by_cases hc : c = b
  · simp [hc]
  · simp [hc, BlockPool.hashOf]

end BlocksInv

namespace PoolInv

variable {p p' : BlockPool κ} {refs refs' : Nat → Nat} {b : Nat} {bs : List Nat}

theorem congr_refs (h : PoolInv p refs) (heq : ∀ b, refs' b = refs b) : PoolInv p refs' := by
  obtain rfl : refs' = refs := funext heq
  exact h

theorem congr_real (h : PoolInv p refs) (heq : ∀ b, b ≠ p.nullBlock → refs' b = refs b) :
    PoolInv p refs' := by
  obtain ⟨ids, hthr, hids⟩ := h.free
  refine ⟨⟨?_, h.null_lt, h.isNull_iff, h.hash_iff, h.null_hash, h.hash_lt⟩, ⟨ids, hthr, ?_⟩, ?_⟩
  · intro b hb
    rw [h.refCnt_eq b hb, heq b hb]
  · intro b
    rw [hids b]
    refine and_congr_right fun hb => ?_
    rw [heq b hb]
  · intro b hb
    by_cases hnull : b = p.nullBlock
    · exact hnull ▸ h.null_lt
    · exact h.refs_lt b (by rwa [← heq b hnull])

theorem init (n : Nat) (caching : Bool) (hbs : Nat)
    (hp : BlockPool.init n caching hbs = .ok p) :
    PoolInv p (fun _ => 0) ∧ p.nullBlock = 0 ∧ p.numGpuBlocks = n ∧
      p.enableCaching = caching ∧ p.hashBlockSize = hbs ∧ ∀ b, p.hashOf b = none := by
  simp only [BlockPool.init, except_bind_eq_ok, assert_eq_ok] at hp
  obtain ⟨-, hn, ⟨null, queue⟩, hpop, hok⟩ := hp
  obtain ⟨m, rfl⟩ : ∃ m, n = m + 1 := ⟨n - 1, by omega⟩
  have hthr : Threads (FreeKVCacheBlockQueue.init (m + 1)) (0 :: (List.range m).map (· + 1)) := by
    rw [← List.range_succ_eq_map]
    exact Threads.init_range (m + 1)
  obtain ⟨q', hq', hthr'⟩ := hthr.popleft_ok
  rw [hpop] at hq'
  obtain ⟨rfl, rfl⟩ := ok_pair_inj hq'
  obtain rfl := Except.ok.inj hok
  refine ⟨⟨⟨?_, hn, ?_, ?_, ?_, ?_⟩, ⟨_, hthr', ?_⟩, ?_⟩, rfl, rfl, rfl, rfl, ?_⟩
  · intro b hb
    simp [update_of_ne hb]
  · intro b
    by_cases hb : b = 0
    · simp [hb]
    · simp [hb]
  · intro b key
    by_cases hb : b = 0
    · simp [hb]
    · simp [hb]
  · simp
  · intro b hb
    by_cases h0 : b = 0
    · simp [h0] at hb
    · simp [update_of_ne h0] at hb
  · intro b
    simp only [List.mem_map, List.mem_range]
    constructor
    · rintro ⟨a, ha, rfl⟩
      exact ⟨Nat.succ_ne_zero a, by omega, trivial⟩
    · rintro ⟨h0, hlt, -⟩
      exact ⟨b - 1, by omega, by omega⟩
  · intro b hb
    exact absurd rfl hb
  · intro b
    by_cases hb : b = 0
    · simp [BlockPool.hashOf, hb]
    · simp [BlockPool.hashOf, update_of_ne hb]

theorem maybeEvict (h : PoolInv p refs) (b : Nat) : PoolInv (p.maybeEvictCachedBlock b) refs := by
  have hsame := BlocksInv.maybeEvict_same p b
  refine ⟨h.toBlocksInv.maybeEvict b, ?_, ?_⟩
  · rw [(h.maybeEvict_blocks b).2.1, hsame.nullBlock, hsame.numGpuBlocks]
    exact h.free
  · rw [hsame.numGpuBlocks]
    exact h.refs_lt

theorem evictBlocks_ok (h : PoolInv p refs) (hp : BlockPool.evictBlocks bs p = .ok p') :
    PoolInv p' refs ∧ SamePool p p' ∧
      ∀ b, p'.hashOf b = if b ∈ bs then none else p.hashOf b := by
  induction bs generalizing p with
  | nil =>
    obtain rfl := Except.ok.inj hp
    exact ⟨h, SamePool.refl p, by simp⟩
  | cons a bs ih =>
    simp only [BlockPool.evictBlocks, assert_bind_eq_ok] at hp
    obtain ⟨hinv, hsame, hhash⟩ := ih (h.maybeEvict a) hp.2
    refine ⟨hinv, (BlocksInv.maybeEvict_same p a).trans hsame, ?_⟩
    intro b
    rw [hhash, h.maybeEvict_hashOf]
    by_cases hb : b = a
    · simp [hb]
    · simp [hb]

/-! ### Allocation -/

theorem takeLoop_ok {cnt : Nat → Int} (h : BlocksInv p cnt) (hnodup : bs.Nodup)
    (hnull : p.nullBlock ∉ bs) (hzero : ∀ b ∈ bs, cnt b = 0) :
    ∃ p', BlockPool.takeLoop bs p = .ok p' ∧ BlocksInv p' (fun b => cnt b + bs.count b) ∧
      SamePool p p' ∧ p'.freeBlockQueue = p.freeBlockQueue ∧
      ∀ b, p'.hashOf b = if p.enableCaching = true ∧ b ∈ bs then none else p.hashOf b := by
  induction bs generalizing p cnt with
  | nil => exact ⟨p, rfl, by simpa using h, SamePool.refl p, rfl, by simp⟩
  | cons a bs ih =>
    -- `q` is the pool after the possible eviction of `a`
    obtain ⟨q, hq⟩ : ∃ q, q = if p.enableCaching then p.maybeEvictCachedBlock a else p := ⟨_, rfl⟩
    have hinv : BlocksInv q cnt := by
      rw [hq]
      split
      · exact h.maybeEvict a
      · exact h
    have hsame : SamePool p q := by
      rw [hq]
      split
      · exact BlocksInv.maybeEvict_same p a
      · exact SamePool.refl p
    have hqueue : q.freeBlockQueue = p.freeBlockQueue := by
      rw [hq]
      split
      · exact (h.maybeEvict_blocks a).2.1
      · rfl
    have hhash : ∀ b, q.hashOf b = if p.enableCaching = true ∧ b = a then none else p.hashOf b := by
      intro b
      rw [hq]
      by_cases hc : p.enableCaching = true
      · simp [hc, h.maybeEvict_hashOf]
      · simp [hc]
    rw [List.nodup_cons] at hnodup
    have hne : a ≠ q.nullBlock := by
      rw [hsame.nullBlock]
      exact fun heq => hnull (heq ▸ List.mem_cons_self)
    have hcount : (q.blocks a).refCnt = 0 := by
      rw [hinv.refCnt_eq a hne, hzero a List.mem_cons_self]
    obtain ⟨p', hp', hinv', hsame', hqueue', hhash'⟩ := ih (hinv.addRef a 1) hnodup.2
      (by
        change q.nullBlock ∉ bs
        rw [hsame.nullBlock]
        exact fun hm => hnull (List.mem_cons_of_mem _ hm))
      (by
        intro b hb
        have hba : b ≠ a := fun hba => hnodup.1 (hba ▸ hb)
        rw [update_of_ne hba]
        exact hzero b (List.mem_cons_of_mem _ hb))
    refine ⟨p', ?_, ?_, ?_, hqueue'.trans hqueue, ?_⟩
    · rw [BlockPool.takeLoop]
      simp only [← hq, assert_bind_eq_ok]
      exact ⟨hcount, hp'⟩
    · convert hinv' using 2 with b
      by_cases hb : b = a
      · subst hb
        simp
        omega
      · simp [update_of_ne hb, List.count_cons_of_ne (Ne.symm hb)]
    · exact hsame.trans ⟨hsame'.1, hsame'.2, hsame'.3, hsame'.4⟩
    · intro b
      rw [hhash' b, BlocksInv.addRef_hashOf, hhash b]
      change (if q.enableCaching = true ∧ b ∈ bs then none else _) = _
      rw [hsame.enableCaching]
      by_cases hc : p.enableCaching = true <;> by_cases hb : b = a <;> simp [hc, hb]

/-- What `get_new_blocks` returns. -/
structure NewBlocks (p : BlockPool κ) (refs : Nat → Nat) (bs : List Nat) (p' : BlockPool κ) :
    Prop where
  inv : PoolInv p' fun b => refs b + bs.count b
  same : SamePool p p'
  nodup : bs.Nodup
  fresh : ∀ b ∈ bs, b ≠ p.nullBlock ∧ b < p.numGpuBlocks ∧ refs b = 0
  hashOf : ∀ b, p'.hashOf b = if p.enableCaching = true ∧ b ∈ bs then none else p.hashOf b

theorem getNewBlocks_total (h : PoolInv p refs) {n : Nat} (hn : n ≤ p.getNumFreeBlocks) :
    ∃ bs p', p.getNewBlocks n = .ok (bs, p') ∧ bs.length = n ∧ NewBlocks p refs bs p' := by
  obtain ⟨ids, hthr, hids⟩ := h.free
  have hlen : n ≤ ids.length := by
    have := hthr.length_eq
    simp only [BlockPool.getNumFreeBlocks] at hn
    omega
  obtain ⟨queue, hpop, hthr'⟩ := (show Threads p.freeBlockQueue (ids.take n ++ ids.drop n) by
    rwa [List.take_append_drop]).popleftN_ok
  have htake : (ids.take n).length = n := by simp [hlen]
  rw [htake] at hpop
  have hfresh : ∀ b ∈ ids.take n, b ≠ p.nullBlock ∧ b < p.numGpuBlocks ∧ refs b = 0 :=
    fun b hb => (hids b).mp (List.mem_of_mem_take hb)
  have hnd : (ids.take n).Nodup := hthr.nodup.sublist (List.take_sublist n ids)
  have hblk : BlocksInv { p with freeBlockQueue := queue } fun b => refs b :=
    ⟨h.refCnt_eq, h.null_lt, h.isNull_iff, h.hash_iff, h.null_hash, h.hash_lt⟩
  obtain ⟨p', htk, hinv, hsame, hqueue, hhash⟩ := takeLoop_ok hblk hnd
    (fun hm => (hfresh _ hm).1 rfl) (fun b hb => by simp [(hfresh b hb).2.2])
  refine ⟨ids.take n, p', ?_, htake, ⟨?_, ⟨?_, ?_, ?_⟩, ?_⟩,
    ⟨hsame.1, hsame.2, hsame.3, hsame.4⟩, hnd, hfresh, hhash⟩
  · simp only [BlockPool.getNewBlocks, if_neg (Int.not_lt.mpr hn), hpop]
    simp only [bind, Except.bind] at htk ⊢
    rw [htk]
  · simpa using hinv
  · exact ids.drop n
  · rw [hqueue]
    exact hthr'
  · intro b
    rw [hsame.nullBlock, hsame.numGpuBlocks]
    have hmem : b ∈ ids ↔ b ∈ ids.take n ∨ b ∈ ids.drop n := by
      conv_lhs => rw [← List.take_append_drop n ids]
      exact List.mem_append
    have hdisj : b ∈ ids.take n → b ∉ ids.drop n := fun ht hd =>
      List.disjoint_take_drop hthr.nodup (Nat.le_refl n) ht hd
    constructor
    · intro hb
      have hnot : b ∉ ids.take n := fun ht => hdisj ht hb
      obtain ⟨h1, h2, h3⟩ := (hids b).mp (hmem.mpr (Or.inr hb))
      exact ⟨h1, h2, by simp [h3, List.count_eq_zero_of_not_mem hnot]⟩
    · rintro ⟨h1, h2, h3⟩
      have hnot : b ∉ ids.take n := by
        intro ht
        have := List.count_pos_iff.mpr ht
        omega
      have := hmem.mp ((hids b).mpr ⟨h1, h2, by omega⟩)
      exact this.resolve_left hnot
  · intro b hb
    rw [hsame.numGpuBlocks]
    by_cases hr : refs b = 0
    · have : b ∈ ids.take n := List.count_pos_iff.mp (by omega)
      exact (hfresh b this).2.1
    · exact h.refs_lt b hr

theorem getNewBlocks_ok (h : PoolInv p refs) {n : Int} (hn : 0 ≤ n)
    (hp : p.getNewBlocks n = .ok (bs, p')) : bs.length = n ∧ NewBlocks p refs bs p' := by
  obtain ⟨m, rfl⟩ := Int.eq_ofNat_of_zero_le hn
  have hle : (m : Int) ≤ p.getNumFreeBlocks := by
    by_contra hlt
    simp [BlockPool.getNewBlocks, Int.not_le.mp hlt] at hp
  obtain ⟨bs', q, hq, hlen, hnew⟩ := h.getNewBlocks_total hle
  rw [hq] at hp
  obtain ⟨rfl, rfl⟩ := ok_pair_inj hp
  exact ⟨by exact_mod_cast hlen, hnew⟩

/-! ### References -/

theorem touchOne_total (h : PoolInv p refs) (hb : b < p.numGpuBlocks) :
    ∃ p', p.touchOne b = .ok p' ∧ PoolInv p' (update refs b (refs b + 1)) ∧ SamePool p p' ∧
      ∀ c, p'.hashOf c = p.hashOf c := by
  have hblk : ∀ queue, BlocksInv ({ p with freeBlockQueue := queue }.addRef b 1)
      fun c => (update refs b (refs b + 1) c : Nat) := by
    intro queue
    have hq : BlocksInv { p with freeBlockQueue := queue } fun c => refs c :=
      ⟨h.refCnt_eq, h.null_lt, h.isNull_iff, h.hash_iff, h.null_hash, h.hash_lt⟩
    convert hq.addRef b 1 using 2 with c
    by_cases hc : c = b
    · subst hc
      simp
    · simp [update_of_ne hc]
  have hlt : ∀ c, update refs b (refs b + 1) c ≠ 0 → c < p.numGpuBlocks := by
    intro c hc
    by_cases hcb : c = b
    · exact hcb ▸ hb
    · rw [update_of_ne hcb] at hc
      exact h.refs_lt c hc
  obtain ⟨ids, hthr, hids⟩ := h.free
  by_cases hin : b ∈ ids
  · obtain ⟨hnull, -, hzero⟩ := (hids b).mp hin
    obtain ⟨xs, ys, rfl⟩ := List.append_of_mem hin
    obtain ⟨queue, hrem, hthr'⟩ := hthr.remove_ok
    have hcond : (p.blocks b).refCnt = 0 ∧ (p.blocks b).isNull = false :=
      ⟨by rw [h.refCnt_eq b hnull, hzero]; rfl, h.isNull_eq_false hnull⟩
    refine ⟨{ p with freeBlockQueue := queue }.addRef b 1, ?_,
      ⟨hblk queue, ⟨xs ++ ys, hthr', ?_⟩, hlt⟩, ⟨rfl, rfl, rfl, rfl⟩, ?_⟩
    · rw [BlockPool.touchOne, if_pos hcond, hrem]
      rfl
    · intro c
      have hnb := (List.nodup_cons.mp (List.nodup_middle.mp hthr.nodup)).1
      by_cases hc : c = b
      · subst hc
        refine ⟨fun hm => absurd hm hnb, fun hm => absurd hm.2.2 ?_⟩
        simp
      · have hm : c ∈ xs ++ ys ↔ c ∈ xs ++ b :: ys := by simp [hc]
        rw [hm, hids c, update_of_ne hc]
        rfl
    · exact fun c => BlocksInv.addRef_hashOf _ b c 1
  · have hcond : ¬ ((p.blocks b).refCnt = 0 ∧ (p.blocks b).isNull = false) := by
      rintro ⟨hcnt, hflag⟩
      have hnull : b ≠ p.nullBlock := by
        intro hbn
        rw [(h.isNull_iff b).mpr hbn] at hflag
        cases hflag
      rw [h.refCnt_eq b hnull] at hcnt
      exact hin ((hids b).mpr ⟨hnull, hb, by omega⟩)
    refine ⟨p.addRef b 1, by rw [BlockPool.touchOne, if_neg hcond],
      ⟨hblk p.freeBlockQueue, ⟨ids, hthr, ?_⟩, hlt⟩, ⟨rfl, rfl, rfl, rfl⟩, ?_⟩
    · intro c
      by_cases hc : c = b
      · subst hc
        refine ⟨fun hm => absurd hm hin, fun hm => absurd hm.2.2 ?_⟩
        simp
      · rw [hids c, update_of_ne hc]
        rfl
    · exact fun c => BlocksInv.addRef_hashOf _ b c 1

theorem touch_total (h : PoolInv p refs) (hbs : ∀ b ∈ bs, b < p.numGpuBlocks) :
    ∃ p', BlockPool.touch bs p = .ok p' ∧ PoolInv p' (fun b => refs b + bs.count b) ∧
      SamePool p p' ∧ ∀ b, p'.hashOf b = p.hashOf b := by
  induction bs generalizing p refs with
  | nil => exact ⟨p, rfl, h, SamePool.refl p, fun _ => rfl⟩
  | cons a bs ih =>
    obtain ⟨q, hq, hinv, hsame, hhash⟩ := h.touchOne_total (hbs a List.mem_cons_self)
    obtain ⟨p', hp', hinv', hsame', hhash'⟩ := ih hinv (fun b hb => by
      rw [hsame.numGpuBlocks]
      exact hbs b (List.mem_cons_of_mem _ hb))
    refine ⟨p', ?_, ?_, hsame.trans hsame', fun b => (hhash' b).trans (hhash b)⟩
    · rw [BlockPool.touch, hq]
      exact hp'
    · apply hinv'.congr_refs
      intro b
      by_cases hb : b = a
      · subst hb
        simp
        omega
      · simp [update_of_ne hb, List.count_cons_of_ne (Ne.symm hb)]

theorem foldl_addRef (p : BlockPool κ) {cnt : Nat → Int} (h : BlocksInv p cnt) (bs : List Nat) :
    let p' := bs.foldl (fun p b => p.addRef b (-1)) p
    BlocksInv p' (fun b => cnt b - bs.count b) ∧ SamePool p p' ∧
      p'.freeBlockQueue = p.freeBlockQueue ∧ ∀ b, p'.hashOf b = p.hashOf b := by
  induction bs generalizing p cnt with
  | nil => exact ⟨by simpa using h, SamePool.refl p, rfl, fun _ => rfl⟩
  | cons a bs ih =>
    obtain ⟨hinv, hsame, hqueue, hhash⟩ := ih (p.addRef a (-1)) (h.addRef a (-1))
    refine ⟨?_, ⟨hsame.1, hsame.2, hsame.3, hsame.4⟩, hqueue, ?_⟩
    · simp only [List.foldl_cons]
      convert hinv using 2 with b
      by_cases hb : b = a
      · subst hb
        simp
        omega
      · simp [update_of_ne hb, List.count_cons_of_ne (Ne.symm hb)]
    · intro b
      rw [List.foldl_cons, hhash b, BlocksInv.addRef_hashOf]

theorem freeBlocks_total (h : PoolInv p fun b => refs b + bs.count b)
    (hnodup : (bs.filter (· ≠ p.nullBlock)).Nodup) :
    ∃ p', p.freeBlocks bs = .ok p' ∧ PoolInv p' refs ∧ SamePool p p' ∧
      ∀ b, p'.hashOf b = p.hashOf b := by
  obtain ⟨hinv, hsame, hqueue, hhash⟩ := foldl_addRef p h.toBlocksInv bs
  obtain ⟨q, hq⟩ : ∃ q, q = bs.foldl (fun p b => p.addRef b (-1)) p := ⟨_, rfl⟩
  rw [← hq] at hinv hsame hqueue hhash
  have hcnt : ∀ b, b ≠ p.nullBlock → (q.blocks b).refCnt = refs b := by
    intro b hb
    rw [hinv.refCnt_eq b (by rwa [hsame.nullBlock])]
    omega
  obtain ⟨ids, hthr, hids⟩ := h.free
  obtain ⟨gone, hgone⟩ : ∃ gone, gone =
      bs.filter fun b => (q.blocks b).refCnt = 0 ∧ (q.blocks b).isNull = false := ⟨_, rfl⟩
  have hmem : ∀ b, b ∈ gone ↔ b ∈ bs ∧ b ≠ p.nullBlock ∧ refs b = 0 := by
    intro b
    rw [hgone, List.mem_filter]
    refine and_congr_right fun _ => ?_
    rw [decide_eq_true_iff]
    constructor
    · rintro ⟨hc, hf⟩
      have hnull : b ≠ p.nullBlock := by
        intro hbn
        rw [(hinv.isNull_iff b).mpr (hbn.trans hsame.nullBlock.symm)] at hf
        cases hf
      rw [hcnt b hnull] at hc
      exact ⟨hnull, by omega⟩
    · rintro ⟨hnull, hz⟩
      exact ⟨by rw [hcnt b hnull, hz]; rfl, hinv.isNull_eq_false (by rwa [hsame.nullBlock])⟩
  have hgnd : gone.Nodup := by
    have hsub : gone = (bs.filter (· ≠ p.nullBlock)).filter fun b =>
        (q.blocks b).refCnt = 0 ∧ (q.blocks b).isNull = false := by
      rw [hgone, List.filter_filter]
      apply List.filter_congr
      intro b hb
      rw [Bool.eq_iff_iff]
      simp only [decide_eq_true_iff, Bool.and_eq_true]
      refine ⟨fun hc => ⟨hc, ?_⟩, And.left⟩
      have : b ∈ gone := by
        rw [hgone, List.mem_filter]
        exact ⟨hb, by simpa using hc⟩
      exact ((hmem b).mp this).2.1
    rw [hsub]
    exact hnodup.filter _
  have hdisj : (ids ++ gone).Nodup := by
    refine List.nodup_append.mpr ⟨hthr.nodup, hgnd, ?_⟩
    rintro a ha b hb rfl
    have h0 := ((hids a).mp ha).2.2
    have := List.count_pos_iff.mpr ((hmem a).mp hb).1
    omega
  obtain ⟨queue, happ, hthr'⟩ := hthr.appendN_ok hdisj
  refine ⟨{ q with freeBlockQueue := queue }, ?_, ⟨⟨?_, ?_, ?_, ?_, ?_, ?_⟩, ⟨_, hthr', ?_⟩, ?_⟩,
    ⟨hsame.1, hsame.2, hsame.3, hsame.4⟩, hhash⟩
  · simp only [BlockPool.freeBlocks, ← hq, ← hgone, hqueue, happ]
    rfl
  · intro b hb
    exact hcnt b (by rwa [← hsame.nullBlock])
  · exact hinv.null_lt
  · exact hinv.isNull_iff
  · exact hinv.hash_iff
  · exact hinv.null_hash
  · exact hinv.hash_lt
  · intro b
    change b ∈ ids ++ gone ↔ b ≠ q.nullBlock ∧ b < q.numGpuBlocks ∧ refs b = 0
    rw [List.mem_append, hids, hmem, hsame.nullBlock, hsame.numGpuBlocks]
    constructor
    · rintro (⟨h1, h2, h3⟩ | ⟨h1, h2, h3⟩)
      · exact ⟨h1, h2, by omega⟩
      · have := List.count_pos_iff.mpr h1
        exact ⟨h2, h.refs_lt b (by omega), h3⟩
    · rintro ⟨h1, h2, h3⟩
      by_cases hb : b ∈ bs
      · exact Or.inr ⟨hb, h1, h3⟩
      · exact Or.inl ⟨h1, h2, by simp [h3, List.count_eq_zero_of_not_mem hb]⟩
  · intro b hb
    change b < q.numGpuBlocks
    rw [hsame.numGpuBlocks]
    exact h.refs_lt b (by omega)

/-! ### Caching -/

theorem cacheOne (h : PoolInv p refs) (key : BlockHashWithGroupId κ) (hb : b ≠ p.nullBlock)
    (hlt : b < p.numGpuBlocks) (hnone : (p.blocks b).blockHash = none) :
    PoolInv { p.setBlock b { p.blocks b with blockHash := some key } with
      cachedBlockHashToBlock := p.cachedBlockHashToBlock.insert key b } refs := by
  refine ⟨⟨?_, h.null_lt, ?_, ?_, ?_, ?_⟩, h.free, h.refs_lt⟩
  · intro c hc
    by_cases hcb : c = b
    · subst hcb
      simpa [BlockPool.setBlock] using h.refCnt_eq c hc
    · simpa [BlockPool.setBlock, update_of_ne hcb] using h.refCnt_eq c hc
  · intro c
    by_cases hcb : c = b
    · subst hcb
      simpa [BlockPool.setBlock] using h.isNull_iff c
    · simpa [BlockPool.setBlock, update_of_ne hcb] using h.isNull_iff c
  · intro c k
    change (update p.blocks b _ c).blockHash = some k ↔
      (p.cachedBlockHashToBlock.insert key b).Stored k c
    rw [stored_insert, ← h.hash_iff]
    by_cases hcb : c = b
    · subst hcb
      simp [hnone, eq_comm]
    · simp [hcb]
  · change (update p.blocks b _ p.nullBlock).blockHash = none
    rw [update_of_ne hb.symm]
    exact h.null_hash
  · intro c
    change (update p.blocks b _ c).blockHash ≠ none → c < p.numGpuBlocks
    by_cases hcb : c = b
    · exact fun _ => hcb ▸ hlt
    · rw [update_of_ne hcb]
      exact h.hash_lt c

/-- What `cache_full_blocks` did to the hashes of the blocks `bs`: the real ones had none and now
have the hashes listed for them. -/
structure Cached (p : BlockPool κ) (groupId : Nat) (bs : List Nat) (hashes : List (BlockHash κ))
    (p' : BlockPool κ) : Prop where
  keep : ∀ b, b ∉ bs ∨ b = p.nullBlock → p'.hashOf b = p.hashOf b
  fresh : ∀ i b : Nat, bs[i]? = some b → b ≠ p.nullBlock → p.hashOf b = none ∧
    ∃ hash, hashes[i]? = some hash ∧ p'.hashOf b = some ⟨hash, groupId⟩

theorem cacheLoop_ok {groupId : Nat} {hashes : List (BlockHash κ)} (h : PoolInv p refs)
    (hlt : ∀ b ∈ bs, b < p.numGpuBlocks) (hp : BlockPool.cacheLoop groupId bs hashes p = .ok p') :
    PoolInv p' refs ∧ SamePool p p' ∧ Cached p groupId bs hashes p' := by
  induction bs generalizing p hashes with
  | nil =>
    obtain rfl := Except.ok.inj hp
    exact ⟨h, SamePool.refl p, fun _ _ => rfl, by simp⟩
  | cons a bs ih =>
    rw [BlockPool.cacheLoop] at hp
    by_cases hnull : (p.blocks a).isNull = true
    · have ha := (h.isNull_iff a).mp hnull
      rw [if_pos hnull] at hp
      obtain ⟨hinv, hsame, hc⟩ := ih h (fun b hb => hlt b (List.mem_cons_of_mem _ hb)) hp
      refine ⟨hinv, hsame, ?_, ?_⟩
      · intro b hb
        apply hc.keep
        rcases hb with hb | hb
        · exact Or.inl fun hm => hb (List.mem_cons_of_mem _ hm)
        · exact Or.inr hb
      · intro i b hi hb
        cases i with
        | zero =>
          obtain rfl : a = b := by simpa using hi
          exact absurd ha hb
        | succ i =>
          obtain ⟨hnone, hash, hget, hhash⟩ := hc.fresh i b (by simpa using hi) hb
          exact ⟨hnone, hash, by simpa using hget, hhash⟩
    · rw [if_neg hnull, assert_bind_eq_ok] at hp
      obtain ⟨hnone, hp⟩ := hp
      have ha : a ≠ p.nullBlock := fun heq => hnull ((h.isNull_iff a).mpr heq)
      cases hashes with
      | nil => cases hp
      | cons hash hashes =>
        have hkeep : ∀ b, b ≠ a → (update p.blocks a
            { p.blocks a with blockHash := some ⟨hash, groupId⟩ } b).blockHash = p.hashOf b := by
          intro b hb
          rw [update_of_ne hb]
          rfl
        obtain ⟨hinv, hsame, hc⟩ := ih (h.cacheOne ⟨hash, groupId⟩ ha (hlt a List.mem_cons_self) hnone)
          (fun b hb => hlt b (List.mem_cons_of_mem _ hb)) hp
        have hna : a ∉ bs := by
          intro hm
          obtain ⟨i, hi⟩ := List.mem_iff_getElem?.mp hm
          have := (hc.fresh i a hi ha).1
          simp [BlockPool.hashOf, BlockPool.setBlock] at this
        refine ⟨hinv, ⟨hsame.1, hsame.2, hsame.3, hsame.4⟩, ?_, ?_⟩
        · intro b hb
          have hba : b ≠ a := by
            rintro rfl
            rcases hb with hb | hb
            · exact hb List.mem_cons_self
            · exact ha hb
          rw [hc.keep b (hb.imp (fun hb hm => hb (List.mem_cons_of_mem _ hm)) id)]
          exact hkeep b hba
        · intro i b hi hb
          cases i with
          | zero =>
            obtain rfl : a = b := by simpa using hi
            refine ⟨hnone, hash, rfl, ?_⟩
            rw [hc.keep a (Or.inl hna)]
            simp [BlockPool.hashOf, BlockPool.setBlock]
          | succ i =>
            have hi' : bs[i]? = some b := by simpa using hi
            obtain ⟨hnone', hash', hget, hhash⟩ := hc.fresh i b hi' hb
            have hba : b ≠ a := by
              rintro rfl
              exact hna (List.mem_iff_getElem?.mpr ⟨i, hi'⟩)
            exact ⟨(hkeep b hba).symm.trans hnone', hash', by simpa using hget, hhash⟩

theorem resetPrefixCache (h : PoolInv p refs) : PoolInv p.resetPrefixCache.2 refs := by
  unfold BlockPool.resetPrefixCache
  split
  · exact h
  · exact ⟨⟨h.refCnt_eq, h.null_lt, h.isNull_iff, by simp, rfl, fun _ hb => absurd rfl hb⟩, h.free,
      h.refs_lt⟩

theorem resetPrefixCache_same (p : BlockPool κ) : SamePool p p.resetPrefixCache.2 := by
  unfold BlockPool.resetPrefixCache
  split <;> exact ⟨rfl, rfl, rfl, rfl⟩

theorem resetPrefixCache_hashOf (p : BlockPool κ) (b : Nat) :
    p.resetPrefixCache.2.hashOf b = if p.resetPrefixCache.1 then none else p.hashOf b := by
  unfold BlockPool.resetPrefixCache
  split <;> rfl

/-- A reset is accepted only when the queue has every block but the null block. -/
theorem refs_eq_zero_of_reset (h : PoolInv p refs) (hreset : p.resetPrefixCache.1 = true)
    (hb : b ≠ p.nullBlock) : refs b = 0 := by
  by_contra hpos
  have hlt := h.refs_lt b hpos
  obtain ⟨ids, hthr, hids⟩ := h.free
  have hlen : (p.numGpuBlocks : Int) - ids.length = 1 := by
    by_contra hne
    rw [← hthr.length_eq] at hne
    simp [BlockPool.resetPrefixCache, BlockPool.getNumFreeBlocks, hne] at hreset
  -- the free blocks together with `b` and the null block are too many
  have hsub : (b :: p.nullBlock :: ids) ⊆ List.range p.numGpuBlocks := by
    intro c hc
    rw [List.mem_range]
    rcases List.mem_cons.mp hc with rfl | hc
    · exact hlt
    · rcases List.mem_cons.mp hc with rfl | hc
      · exact h.null_lt
      · exact ((hids c).mp hc).2.1
  have hnd : (b :: p.nullBlock :: ids).Nodup := by
    refine List.nodup_cons.mpr ⟨?_, List.nodup_cons.mpr ⟨?_, hthr.nodup⟩⟩
    · intro hm
      rcases List.mem_cons.mp hm with hm | hm
      · exact hb hm
      · exact hpos ((hids b).mp hm).2.2
    · exact fun hm => ((hids _).mp hm).1 rfl
  have := (List.subperm_of_subset hnd hsub).length_le
  simp at this
  omega

end PoolInv

end EldrServing.KVCache
