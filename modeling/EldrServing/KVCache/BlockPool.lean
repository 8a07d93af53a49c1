import EldrServing.KVCache.FreeQueue
import Mathlib.Data.List.Count

/-!
# The block pool

The prefix-cache hash map and the pool of KV-cache blocks. Blocks are named by their id.
The pool's events and metrics are not modelled: nothing in the pool reads them back.
-/

namespace EldrServing.KVCache

set_option autoImplicit false

open Function

/-- A block hash: one digest, or the digests of several consecutive hash blocks joined. -/
abbrev BlockHash (κ : Type) := List κ

structure BlockHashWithGroupId (κ : Type) where
  hash : BlockHash κ
  groupId : Nat
  deriving DecidableEq, Repr

/-- What the map stores under one key: a block, or a dict of blocks with the same hash. -/
inductive CacheEntry where
  | single (block : Nat)
  | dict (blocks : List Nat)
  deriving DecidableEq, Repr

def CacheEntry.Holds : CacheEntry → Nat → Prop
  | .single a, b => b = a
  | .dict as, b => b ∈ as

structure BlockHashToBlockMap (κ : Type) where
  cache : BlockHashWithGroupId κ → Option CacheEntry

namespace BlockHashToBlockMap

variable {κ : Type} [DecidableEq κ]

def empty : BlockHashToBlockMap κ := ⟨fun _ => none⟩

def Stored (m : BlockHashToBlockMap κ) (key : BlockHashWithGroupId κ) (b : Nat) : Prop :=
  ∃ e, m.cache key = some e ∧ e.Holds b

def getOneBlock (m : BlockHashToBlockMap κ) (key : BlockHashWithGroupId κ) : Option Nat :=
  match m.cache key with
  | none => none
  | some (.single a) => some a
  | some (.dict as) => as.head?

def insert (m : BlockHashToBlockMap κ) (key : BlockHashWithGroupId κ) (b : Nat) :
    BlockHashToBlockMap κ :=
  match m.cache key with
  | none => ⟨update m.cache key (some (.single b))⟩
  | some (.single a) => ⟨update m.cache key (some (.dict (if a = b then [a] else [a, b])))⟩
  | some (.dict as) => ⟨update m.cache key (some (.dict (if b ∈ as then as else as ++ [b])))⟩

def pop (m : BlockHashToBlockMap κ) (key : BlockHashWithGroupId κ) (b : Nat) :
    Option Nat × BlockHashToBlockMap κ :=
  match m.cache key with
  | none => (none, m)
  | some (.single a) => if a = b then (some a, ⟨update m.cache key none⟩) else (none, m)
  | some (.dict as) =>
    let rest := as.filter (· ≠ b)
    (if b ∈ as then some b else none,
      ⟨update m.cache key (if rest = [] then none else some (.dict rest))⟩)

@[simp] theorem not_stored_empty (key : BlockHashWithGroupId κ) (b : Nat) :
    ¬ (empty : BlockHashToBlockMap κ).Stored key b := by
  simp [empty, Stored]

theorem stored_of_getOneBlock {m : BlockHashToBlockMap κ} {key : BlockHashWithGroupId κ} {b : Nat}
    (h : m.getOneBlock key = some b) : m.Stored key b := by
  unfold getOneBlock at h
  split at h
  · cases h
  · rename_i a ha
    cases h
    exact ⟨_, ha, rfl⟩
  · rename_i as ha
    exact ⟨_, ha, List.mem_of_mem_head? h⟩

theorem stored_insert (m : BlockHashToBlockMap κ) (key k : BlockHashWithGroupId κ) (b c : Nat) :
    (m.insert key b).Stored k c ↔ m.Stored k c ∨ (k = key ∧ c = b) := by
  by_cases hk : k = key
  · subst hk
    unfold insert
    split
    · rename_i h
      simp [Stored, h, CacheEntry.Holds]
    · rename_i a h
      by_cases hab : a = b
      · subst hab
        simp [Stored, h, CacheEntry.Holds]
      · simp [Stored, h, CacheEntry.Holds, hab]
    · rename_i as h
      by_cases hb : b ∈ as
      · simp only [Stored, h, update_self, if_pos hb, Option.some.injEq, exists_eq_left',
          CacheEntry.Holds, true_and]
        exact ⟨Or.inl, fun h => h.elim id fun hcb => hcb ▸ hb⟩
      · simp [Stored, h, CacheEntry.Holds, hb]
  · have : (m.insert key b).cache k = m.cache k := by
      unfold insert
      split <;> simp [update_of_ne hk]
    simp [Stored, this, hk]

theorem stored_pop (m : BlockHashToBlockMap κ) (key k : BlockHashWithGroupId κ) (b c : Nat) :
    (m.pop key b).2.Stored k c ↔ m.Stored k c ∧ ¬ (k = key ∧ c = b) := by
  by_cases hk : k = key
  · subst hk
    unfold pop
    split
    · rename_i h
      simp [Stored, h]
    · rename_i a h
      by_cases hab : a = b
      · subst hab
        simp [Stored, h, CacheEntry.Holds]
      · simp only [Stored, h, if_neg hab, CacheEntry.Holds, Option.some.injEq, exists_eq_left',
          true_and]
        exact ⟨fun hc => ⟨hc, fun hcb => hab (hc.symm.trans hcb)⟩, And.left⟩
    · rename_i as h
      by_cases hr : as.filter (· ≠ b) = []
      · have hall : ∀ x ∈ as, x = b := by simpa using hr
        simp only [Stored, h, update_self, if_pos hr, CacheEntry.Holds]
        simpa using hall c
      · simp only [Stored, h, update_self, if_neg hr, CacheEntry.Holds]
        simp
  · have : (m.pop key b).2.cache k = m.cache k := by
      unfold pop
      split
      · rfl
      · split
        · simp [update_of_ne hk]
        · rfl
      · simp [update_of_ne hk]
    simp [Stored, this, hk]

theorem pop_eq_none_iff (m : BlockHashToBlockMap κ) (key : BlockHashWithGroupId κ) (b : Nat) :
    (m.pop key b).1 = none ↔ ¬ m.Stored key b := by
  unfold pop
  split
  · rename_i h
    simp [Stored, h]
  · rename_i a h
    by_cases hab : a = b
    · simp [Stored, h, CacheEntry.Holds, hab]
    · simp [Stored, h, CacheEntry.Holds, hab, Ne.symm hab]
  · rename_i as h
    simp [Stored, h, CacheEntry.Holds]

end BlockHashToBlockMap

structure KVCacheBlock (κ : Type) where
  refCnt : Int := 0
  blockHash : Option (BlockHashWithGroupId κ) := none
  isNull : Bool := false

structure BlockPool (κ : Type) where
  numGpuBlocks : Nat
  enableCaching : Bool
  hashBlockSize : Nat
  blocks : Nat → KVCacheBlock κ
  freeBlockQueue : FreeKVCacheBlockQueue
  cachedBlockHashToBlock : BlockHashToBlockMap κ
  nullBlock : Nat

/-- `BlockHashListWithBlockSize`: the request's hashes at the granularity of `blockSize`. -/
def blockHashesAt {κ : Type} (hashes : List κ) (hashBlockSize blockSize : Nat) :
    List (BlockHash κ) :=
  if blockSize = hashBlockSize then hashes.map fun h => [h]
  else
    let scale := blockSize / hashBlockSize
    (List.range (hashes.length / scale)).map fun i => (hashes.drop (i * scale)).take scale

namespace BlockPool

variable {κ : Type} [DecidableEq κ]

def init (numGpuBlocks : Nat) (enableCaching : Bool) (hashBlockSize : Nat) :
    Except PyError (BlockPool κ) := do
  assert (0 < numGpuBlocks) ""
  let (null, queue) ← (FreeKVCacheBlockQueue.init numGpuBlocks).popleft
  .ok { numGpuBlocks, enableCaching, hashBlockSize
        blocks := update (fun _ => {}) null { isNull := true }
        freeBlockQueue := queue
        cachedBlockHashToBlock := .empty
        nullBlock := null }

def getNumFreeBlocks (p : BlockPool κ) : Int := p.freeBlockQueue.numFreeBlocks

def setBlock (p : BlockPool κ) (b : Nat) (blk : KVCacheBlock κ) : BlockPool κ :=
  { p with blocks := update p.blocks b blk }

def addRef (p : BlockPool κ) (b : Nat) (d : Int) : BlockPool κ :=
  p.setBlock b { p.blocks b with refCnt := (p.blocks b).refCnt + d }

def getCachedBlock (p : BlockPool κ) (hash : BlockHash κ) (groupId : Nat) : Option Nat :=
  p.cachedBlockHashToBlock.getOneBlock ⟨hash, groupId⟩

/-- The loop of `cache_full_blocks` over the new full blocks and their hashes. -/
def cacheLoop (groupId : Nat) : List Nat → List (BlockHash κ) → BlockPool κ →
    Except PyError (BlockPool κ)
  | [], _, p => .ok p
  | b :: bs, hashes, p =>
    if (p.blocks b).isNull then cacheLoop groupId bs hashes.tail p
    else do
      assert ((p.blocks b).blockHash = none) ""
      match hashes.head? with
      | none => .error (.indexError "list index out of range")
      | some hash =>
        cacheLoop groupId bs hashes.tail
          { p.setBlock b { p.blocks b with blockHash := some ⟨hash, groupId⟩ } with
            cachedBlockHashToBlock := p.cachedBlockHashToBlock.insert ⟨hash, groupId⟩ b }

def cacheFullBlocks (p : BlockPool κ) (hashes : List κ) (blocks : List Nat)
    (numCachedBlocks numFullBlocks blockSize groupId : Nat) : Except PyError (BlockPool κ) :=
  if numFullBlocks ≤ numCachedBlocks then .ok p
  else do
    assert (numFullBlocks ≤ hashes.length) ""
    assert (blockSize = p.hashBlockSize ∨ blockSize % p.hashBlockSize = 0) ""
    cacheLoop groupId ((blocks.take numFullBlocks).drop numCachedBlocks)
      ((blockHashesAt hashes p.hashBlockSize blockSize).drop numCachedBlocks) p

/-- `_maybe_evict_cached_block`, without its unused result. -/
def maybeEvictCachedBlock (p : BlockPool κ) (b : Nat) : BlockPool κ :=
  match (p.blocks b).blockHash with
  | none => p
  | some key =>
    match p.cachedBlockHashToBlock.pop key b with
    | (none, cached) => { p with cachedBlockHashToBlock := cached }
    | (some _, cached) =>
      { p.setBlock b { p.blocks b with blockHash := none } with cachedBlockHashToBlock := cached }

/-- The loop of `get_new_blocks` over the popped blocks. -/
def takeLoop : List Nat → BlockPool κ → Except PyError (BlockPool κ)
  | [], p => .ok p
  | b :: bs, p => do
    let p := if p.enableCaching then p.maybeEvictCachedBlock b else p
    assert ((p.blocks b).refCnt = 0) ""
    takeLoop bs (p.addRef b 1)

def getNewBlocks (p : BlockPool κ) (n : Int) : Except PyError (List Nat × BlockPool κ) :=
  if p.getNumFreeBlocks < n then
    .error (.valueError s!"Cannot get {n} free blocks from the pool")
  else do
    let (ret, queue) ← p.freeBlockQueue.popleftN n
    let p ← takeLoop ret { p with freeBlockQueue := queue }
    .ok (ret, p)

def touchOne (p : BlockPool κ) (b : Nat) : Except PyError (BlockPool κ) :=
  -- a count of 0 means that the block is an eviction candidate in the free queue
  if (p.blocks b).refCnt = 0 ∧ (p.blocks b).isNull = false then
    (p.freeBlockQueue.remove b).map fun queue => { p with freeBlockQueue := queue }.addRef b 1
  else .ok (p.addRef b 1)

def touch : List Nat → BlockPool κ → Except PyError (BlockPool κ)
  | [], p => .ok p
  | b :: bs, p => do
    let p ← p.touchOne b
    touch bs p

def freeBlocks (p : BlockPool κ) (orderedBlocks : List Nat) : Except PyError (BlockPool κ) := do
  let p := orderedBlocks.foldl (fun p b => p.addRef b (-1)) p
  let queue ← p.freeBlockQueue.appendN
    (orderedBlocks.filter fun b => (p.blocks b).refCnt = 0 ∧ (p.blocks b).isNull = false)
  .ok { p with freeBlockQueue := queue }

def evictBlocks : List Nat → BlockPool κ → Except PyError (BlockPool κ)
  | [], p => .ok p
  | b :: bs, p => do
    let n := p.numGpuBlocks
    assert (b < n) (s!"Invalid block_id {b} >= {n}. This indicates a bug in the KV connector - " ++
      "workers should only report block IDs that were allocated by the scheduler.")
    evictBlocks bs (p.maybeEvictCachedBlock b)

def resetPrefixCache (p : BlockPool κ) : Bool × BlockPool κ :=
  if p.numGpuBlocks - p.getNumFreeBlocks ≠ 1 then (false, p)
  else (true, { p with
    cachedBlockHashToBlock := .empty
    blocks := fun b => { p.blocks b with blockHash := none } })

end BlockPool

end EldrServing.KVCache
