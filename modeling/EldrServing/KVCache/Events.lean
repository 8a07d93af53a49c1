import EldrServing.KVCache.PoolInvariant
import EldrServing.Lib.Machine
import EldrServing.Request.BlockHashing
import Mathlib.Data.List.Count

/-!
# KV cache events

The events by which the block pool tells what is in its hash map: blocks stored, blocks removed,
everything cleared. Counting them gives back the contents of the map. The external form of a hash
is the hash itself; the medium and the deprecated id of a LoRA adapter are left out.
-/

namespace EldrServing.KVCache

set_option autoImplicit false
set_option linter.unusedSectionVars false

open Function BlockHashing

inductive KVCacheEvent (κ δ : Type) where
  | blockStored (blockHashes : List (BlockHash κ)) (parentBlockHash : Option (BlockHash κ))
      (tokenIds : List Nat) (blockSize : Nat) (loraName : Option String)
      (extraKeys : Option (List (Option (List (ExtraKey δ))))) (groupIdx : Nat)
  | blockRemoved (blockHashes : List (BlockHash κ)) (groupIdx : Nat)
  | allBlocksCleared

structure EventPool (κ δ : Type) where
  pool : BlockPool κ
  enableKvCacheEvents : Bool
  kvEventQueue : List (KVCacheEvent κ δ)

namespace EventPool

variable {κ δ ε : Type} [DecidableEq κ]

def init (numGpuBlocks : Nat) (enableCaching : Bool) (hashBlockSize : Nat)
    (enableKvCacheEvents : Bool) : Except PyError (EventPool κ δ) := do
  let pool ← BlockPool.init numGpuBlocks enableCaching hashBlockSize
  .ok ⟨pool, enableKvCacheEvents, []⟩

def emit (e : EventPool κ δ) (event : KVCacheEvent κ δ) : EventPool κ δ :=
  if e.enableKvCacheEvents then { e with kvEventQueue := e.kvEventQueue ++ [event] } else e

/-- The hashes that `cache_full_blocks` collects: null blocks have none. -/
def newHashes (isNull : Nat → Bool) : List Nat → List (BlockHash κ) → List (BlockHash κ)
  | [], _ => []
  | b :: bs, hashes =>
    if isNull b then newHashes isNull bs hashes.tail
    else hashes.head?.toList ++ newHashes isNull bs hashes.tail

/-- The extra keys of the blocks with the given indices, one entry for each that is not null. -/
def extraKeysLoop (h : Hasher κ δ ε) (r : BlockHashing.Request κ δ ε) (isNull : Nat → Bool)
    (blocks : List Nat) (blockSize : Nat) :
    List Nat → Int → Dict (Nat × Nat) δ → Except PyError (List (Option (List (ExtraKey δ))))
  | [], _, _ => .ok []
  | i :: is, currMmIdx, table =>
    match blocks[i]? with
    | none => .error (.indexError "list index out of range")
    | some b =>
      if isNull b then extraKeysLoop h r isNull blocks blockSize is currMmIdx table
      else do
        let keys ← generateBlockHashExtraKeys h r table (i * blockSize)
          (i * blockSize + blockSize) currMmIdx
        let rest ← extraKeysLoop h r isNull blocks blockSize is keys.mmIdx keys.embedsHashes
        .ok (keys.keys :: rest)

def parentBlockHash (hashes : List (BlockHash κ)) (numCachedBlocks : Nat) :
    Except PyError (Option (BlockHash κ)) :=
  if numCachedBlocks = 0 then .ok none
  else
    match hashes[numCachedBlocks - 1]? with
    | some hash => .ok (some hash)
    | none => .error (.indexError "list index out of range")

/-- `cache_full_blocks`: the blocks are put in the map, and one event tells of all of them. -/
def cacheFullBlocks (h : Hasher κ δ ε) (e : EventPool κ δ) (r : BlockHashing.Request κ δ ε)
    (blocks : List Nat) (numCachedBlocks numFullBlocks blockSize groupId : Nat) :
    Except PyError (EventPool κ δ) :=
  if numFullBlocks ≤ numCachedBlocks then .ok e
  else do
    let pool ← e.pool.cacheFullBlocks r.blockHashes blocks numCachedBlocks numFullBlocks blockSize
      groupId
    if e.enableKvCacheEvents then
      let hashes := blockHashesAt r.blockHashes e.pool.hashBlockSize blockSize
      let isNull := fun b => (e.pool.blocks b).isNull
      let parent ← parentBlockHash hashes numCachedBlocks
      let extraKeys ← extraKeysLoop h r isNull blocks blockSize
        (List.range' numCachedBlocks (numFullBlocks - numCachedBlocks)) 0 r.embedsHashes
      .ok ({ e with pool }.emit (.blockStored
        (newHashes isNull ((blocks.take numFullBlocks).drop numCachedBlocks)
          (hashes.drop numCachedBlocks))
        parent
        (blockTokens r (numCachedBlocks * blockSize) (numFullBlocks * blockSize))
        blockSize r.loraName (if extraKeys.isEmpty then none else some extraKeys) groupId))
    else .ok { e with pool }

/-- `_maybe_evict_cached_block`: an event only if the block was in the map. -/
def maybeEvictCachedBlock (e : EventPool κ δ) (b : Nat) : EventPool κ δ :=
  match (e.pool.blocks b).blockHash with
  | none => e
  | some key =>
    match (e.pool.cachedBlockHashToBlock.pop key b).1 with
    | none => { e with pool := e.pool.maybeEvictCachedBlock b }
    | some _ =>
      { e with pool := e.pool.maybeEvictCachedBlock b }.emit (.blockRemoved [key.hash] key.groupId)

def takeLoop : List Nat → EventPool κ δ → Except PyError (EventPool κ δ)
  | [], e => .ok e
  | b :: bs, e => do
    let e := if e.pool.enableCaching then e.maybeEvictCachedBlock b else e
    assert ((e.pool.blocks b).refCnt = 0) ""
    takeLoop bs { e with pool := e.pool.addRef b 1 }

def getNewBlocks (e : EventPool κ δ) (n : Int) : Except PyError (List Nat × EventPool κ δ) :=
  if e.pool.getNumFreeBlocks < n then
    .error (.valueError s!"Cannot get {n} free blocks from the pool")
  else do
    let (ret, queue) ← e.pool.freeBlockQueue.popleftN n
    let e ← takeLoop ret { e with pool := { e.pool with freeBlockQueue := queue } }
    .ok (ret, e)

def touch (e : EventPool κ δ) (bs : List Nat) : Except PyError (EventPool κ δ) :=
  (BlockPool.touch bs e.pool).map fun pool => { e with pool }

def freeBlocks (e : EventPool κ δ) (bs : List Nat) : Except PyError (EventPool κ δ) :=
  (e.pool.freeBlocks bs).map fun pool => { e with pool }

def evictBlocks : List Nat → EventPool κ δ → Except PyError (EventPool κ δ)
  | [], e => .ok e
  | b :: bs, e => do
    let n := e.pool.numGpuBlocks
    assert (b < n) (s!"Invalid block_id {b} >= {n}. This indicates a bug in the KV connector - " ++
      "workers should only report block IDs that were allocated by the scheduler.")
    evictBlocks bs (e.maybeEvictCachedBlock b)

def resetPrefixCache (e : EventPool κ δ) : Bool × EventPool κ δ :=
  let (done, pool) := e.pool.resetPrefixCache
  (done, if done then { e with pool }.emit .allBlocksCleared else { e with pool })

def takeEvents (e : EventPool κ δ) : List (KVCacheEvent κ δ) × EventPool κ δ :=
  if e.enableKvCacheEvents then (e.kvEventQueue, { e with kvEventQueue := [] }) else ([], e)

/-! ### The pool under the events -/

theorem emit_pool (e : EventPool κ δ) (event : KVCacheEvent κ δ) : (e.emit event).pool = e.pool := by
  unfold emit
  split <;> rfl

theorem maybeEvictCachedBlock_pool (e : EventPool κ δ) (b : Nat) :
    (e.maybeEvictCachedBlock b).pool = e.pool.maybeEvictCachedBlock b := by
  unfold maybeEvictCachedBlock
  split
  · rename_i hnone
    simp only [BlockPool.maybeEvictCachedBlock, hnone]
  · split
    · rfl
    · rw [emit_pool]

theorem takeLoop_pool (bs : List Nat) (e : EventPool κ δ) :
    (takeLoop bs e).map (·.pool) = BlockPool.takeLoop bs e.pool := by
  induction bs generalizing e with
  | nil => rfl
  | cons b bs ih =>
    have hevict : (if e.pool.enableCaching then e.maybeEvictCachedBlock b else e).pool =
        if e.pool.enableCaching then e.pool.maybeEvictCachedBlock b else e.pool := by
      split
      · exact maybeEvictCachedBlock_pool e b
      · rfl
    simp only [takeLoop, BlockPool.takeLoop, ← hevict, assert, bind, Except.bind]
    split
    · rfl
    · exact ih _

theorem getNewBlocks_pool (e : EventPool κ δ) (n : Int) :
    (e.getNewBlocks n).map (fun r => (r.1, r.2.pool)) = e.pool.getNewBlocks n := by
  unfold getNewBlocks BlockPool.getNewBlocks
  split
  · rfl
  · rcases e.pool.freeBlockQueue.popleftN n with _ | ⟨ret, queue⟩
    · rfl
    · have hloop := takeLoop_pool ret { e with pool := { e.pool with freeBlockQueue := queue } }
      simp only [bind, Except.bind]
      rw [← hloop]
      rcases takeLoop ret { e with pool := { e.pool with freeBlockQueue := queue } } <;> rfl

theorem evictBlocks_pool (bs : List Nat) (e : EventPool κ δ) :
    (evictBlocks bs e).map (·.pool) = BlockPool.evictBlocks bs e.pool := by
  induction bs generalizing e with
  | nil => rfl
  | cons b bs ih =>
    have hrest := ih (e.maybeEvictCachedBlock b)
    rw [maybeEvictCachedBlock_pool] at hrest
    simp only [evictBlocks, BlockPool.evictBlocks, ← hrest, assert, bind, Except.bind]
    split <;> rfl

/-! ### Runs -/

inductive Op (κ δ ε : Type) where
  | cacheFullBlocks (r : BlockHashing.Request κ δ ε) (blocks : List Nat)
      (numCachedBlocks numFullBlocks blockSize groupId : Nat)
  | getNewBlocks (n : Int)
  | touch (bs : List Nat)
  | freeBlocks (bs : List Nat)
  | evictBlocks (bs : List Nat)
  | resetPrefixCache
  | takeEvents

structure Published (κ δ : Type) where
  taken : List (KVCacheEvent κ δ)
  pool : EventPool κ δ

def Published.stream (s : Published κ δ) : List (KVCacheEvent κ δ) :=
  s.taken ++ s.pool.kvEventQueue

def step (h : Hasher κ δ ε) (s : Published κ δ) : Op κ δ ε → Except PyError (Published κ δ)
  | .cacheFullBlocks r blocks numCached numFull blockSize groupId =>
    (cacheFullBlocks h s.pool r blocks numCached numFull blockSize groupId).map (⟨s.taken, ·⟩)
  | .getNewBlocks n => (s.pool.getNewBlocks n).map fun r => ⟨s.taken, r.2⟩
  | .touch bs => (s.pool.touch bs).map (⟨s.taken, ·⟩)
  | .freeBlocks bs => (s.pool.freeBlocks bs).map (⟨s.taken, ·⟩)
  | .evictBlocks bs => (evictBlocks bs s.pool).map (⟨s.taken, ·⟩)
  | .resetPrefixCache => .ok ⟨s.taken, s.pool.resetPrefixCache.2⟩
  | .takeEvents => .ok ⟨s.taken ++ s.pool.takeEvents.1, s.pool.takeEvents.2⟩

def run (h : Hasher κ δ ε) (s : Published κ δ) (ops : List (Op κ δ ε)) : Option (Published κ δ) :=
  Machine.exec (fun s op => (step h s op).toOption) s ops

/-- The operation on the pool alone. -/
def poolStep (p : BlockPool κ) : Op κ δ ε → Except PyError (BlockPool κ)
  | .cacheFullBlocks r blocks numCached numFull blockSize groupId =>
    p.cacheFullBlocks r.blockHashes blocks numCached numFull blockSize groupId
  | .getNewBlocks n => (p.getNewBlocks n).map (·.2)
  | .touch bs => p.touch bs
  | .freeBlocks bs => p.freeBlocks bs
  | .evictBlocks bs => p.evictBlocks bs
  | .resetPrefixCache => .ok p.resetPrefixCache.2
  | .takeEvents => .ok p

section Pool

variable {h : Hasher κ δ ε} {s s' : Published κ δ}

theorem cacheFullBlocks_pool {e e' : EventPool κ δ} {r : BlockHashing.Request κ δ ε}
    {blocks : List Nat} {numCached numFull blockSize groupId : Nat}
    (hcache : cacheFullBlocks h e r blocks numCached numFull blockSize groupId = .ok e') :
    e.pool.cacheFullBlocks r.blockHashes blocks numCached numFull blockSize groupId =
      .ok e'.pool := by
  unfold cacheFullBlocks at hcache
  split at hcache
  · next hle =>
    obtain rfl := Except.ok.inj hcache
    rw [BlockPool.cacheFullBlocks, if_pos hle]
  · obtain ⟨pool, hpool, hcache⟩ := except_bind_eq_ok.mp hcache
    split at hcache
    · simp only [except_bind_eq_ok] at hcache
      obtain ⟨parent, -, extraKeys, -, hcache⟩ := hcache
      obtain rfl := Except.ok.inj hcache
      rw [hpool, emit_pool]
    · obtain rfl := Except.ok.inj hcache
      exact hpool

theorem step_pool {op : Op κ δ ε} (hstep : step h s op = .ok s') :
    poolStep s.pool.pool op = .ok s'.pool.pool := by
  cases op with
  | cacheFullBlocks r blocks numCached numFull blockSize groupId =>
    obtain ⟨e, he, rfl⟩ := except_map_eq_ok.mp hstep
    exact cacheFullBlocks_pool he
  | getNewBlocks n =>
    obtain ⟨r, hr, rfl⟩ := except_map_eq_ok.mp hstep
    rw [poolStep, ← getNewBlocks_pool, hr]
    rfl
  | touch bs | freeBlocks bs =>
    obtain ⟨e, he, rfl⟩ := except_map_eq_ok.mp hstep
    obtain ⟨p, hp, rfl⟩ := except_map_eq_ok.mp he
    exact hp
  | evictBlocks bs =>
    obtain ⟨e, he, rfl⟩ := except_map_eq_ok.mp hstep
    rw [poolStep, ← evictBlocks_pool, he]
    rfl
  | resetPrefixCache =>
    obtain rfl := Except.ok.inj hstep
    simp only [poolStep, EventPool.resetPrefixCache]
    split
    · rw [emit_pool]
    · rfl
  | takeEvents =>
    obtain rfl := Except.ok.inj hstep
    simp only [poolStep, EventPool.takeEvents]
    split <;> rfl

end Pool

/-! ### Counting -/

/-- One event of a stream, for one key: occurrences stored less occurrences removed. -/
def netStep (key : BlockHashWithGroupId κ) (n : Int) : KVCacheEvent κ δ → Int
  | .blockStored hashes _ _ _ _ _ group =>
    if group = key.groupId then n + hashes.count key.hash else n
  | .blockRemoved hashes group => if group = key.groupId then n - hashes.count key.hash else n
  | .allBlocksCleared => 0

/-- The occurrences of a key in the stored events less those in the removed ones, since the last
clear. -/
def net (key : BlockHashWithGroupId κ) (events : List (KVCacheEvent κ δ)) : Int :=
  events.foldl (netStep key) 0

end EventPool

namespace BlockHashToBlockMap

variable {κ : Type} [DecidableEq κ]

def numStored (m : BlockHashToBlockMap κ) (key : BlockHashWithGroupId κ) : Nat :=
  match m.cache key with
  | none => 0
  | some (.single _) => 1
  | some (.dict as) => as.length

def DictsNodup (m : BlockHashToBlockMap κ) : Prop :=
  ∀ key as, m.cache key = some (.dict as) → as.Nodup

variable {m : BlockHashToBlockMap κ}

theorem numStored_insert {key : BlockHashWithGroupId κ} {b : Nat}
    (hb : ¬ m.Stored key b) (k : BlockHashWithGroupId κ) :
    (m.insert key b).numStored k = m.numStored k + if k = key then 1 else 0 := by
  by_cases hk : k = key
  · subst hk
    rw [if_pos rfl]
    unfold insert
    split
    · rename_i h
      simp [numStored, h]
    · rename_i a h
      have hab : a ≠ b := fun hab => hb ⟨_, h, hab.symm⟩
      simp [numStored, h, hab]
    · rename_i as h
      have hmem : b ∉ as := fun hmem => hb ⟨_, h, hmem⟩
      simp [numStored, h, hmem]
  · have hcache : (m.insert key b).cache k = m.cache k := by
      unfold insert
      split <;> simp [update_of_ne hk]
    simp [numStored, hcache, hk]

theorem DictsNodup.insert (h : m.DictsNodup)
    (key : BlockHashWithGroupId κ) (b : Nat) : (m.insert key b).DictsNodup := by
  intro k as hk
  unfold BlockHashToBlockMap.insert at hk
  by_cases hkey : k = key
  · subst hkey
    split at hk
    · simp at hk
    · rename_i a _
      by_cases hab : a = b
      · simp only [update_self, if_pos hab, Option.some.injEq, CacheEntry.dict.injEq] at hk
        exact hk ▸ List.nodup_singleton a
      · simp only [update_self, if_neg hab, Option.some.injEq, CacheEntry.dict.injEq] at hk
        subst hk
        simpa using hab
    · rename_i old hold
      by_cases hmem : b ∈ old
      · simp only [update_self, if_pos hmem, Option.some.injEq, CacheEntry.dict.injEq] at hk
        exact hk ▸ h k old hold
      · simp only [update_self, if_neg hmem, Option.some.injEq, CacheEntry.dict.injEq] at hk
        subst hk
        exact (h k old hold).append (List.nodup_singleton b) (by simpa using hmem)
  · split at hk <;> exact h k as (by simpa [update_of_ne hkey] using hk)

theorem DictsNodup.pop (h : m.DictsNodup)
    (key : BlockHashWithGroupId κ) (b : Nat) : (m.pop key b).2.DictsNodup := by
  intro k as hk
  unfold BlockHashToBlockMap.pop at hk
  by_cases hkey : k = key
  · subst hkey
    split at hk
    · exact h k as hk
    · split at hk
      · simp at hk
      · exact h k as hk
    · rename_i old hold
      simp only [update_self] at hk
      split at hk
      · cases hk
      · simp only [Option.some.injEq, CacheEntry.dict.injEq] at hk
        exact hk ▸ (h k old hold).filter _
  · split at hk
    · exact h k as hk
    · split at hk
      · exact h k as (by simpa [update_of_ne hkey] using hk)
      · exact h k as hk
    · exact h k as (by simpa [update_of_ne hkey] using hk)

theorem numStored_pop (h : m.DictsNodup)
    (key : BlockHashWithGroupId κ) (b : Nat) (k : BlockHashWithGroupId κ) :
    m.numStored k = (m.pop key b).2.numStored k +
      if k = key ∧ (m.pop key b).1.isSome then 1 else 0 := by
  by_cases hk : k = key
  · subst hk
    unfold pop
    split
    · rename_i hnone
      simp [numStored, hnone]
    · rename_i a hsingle
      by_cases hab : a = b
      · simp [numStored, hsingle, hab]
      · simp [numStored, hsingle, hab]
    · rename_i as hdict
      have hlength : as.length = (as.filter (· ≠ b)).length + if b ∈ as then 1 else 0 := by
        rw [← (h k as hdict).count, List.length_eq_countP_add_countP (· ≠ b),
          List.countP_eq_length_filter]
        congr 1
        refine List.countP_congr fun a _ => ?_
        simp
      obtain ⟨rest, hrest⟩ : ∃ rest, rest = as.filter (· ≠ b) := ⟨_, rfl⟩
      simp only [← hrest] at hlength ⊢
      have hafter : (⟨update m.cache k (if rest = [] then none else some (.dict rest))⟩ :
          BlockHashToBlockMap κ).numStored k = rest.length := by
        by_cases hnil : rest = []
        · simp [numStored, hnil]
        · simp [numStored, hnil]
      have hbefore : m.numStored k = as.length := by simp [numStored, hdict]
      rw [hafter, hbefore, hlength]
      by_cases hmem : b ∈ as <;> simp [hmem]
  · have hcache : (m.pop key b).2.cache k = m.cache k := by
      unfold pop
      split
      · rfl
      · split
        · simp [update_of_ne hk]
        · rfl
      · simp [update_of_ne hk]
    simp [numStored, hcache, hk]

end BlockHashToBlockMap

/-! ### Hashes of the blocks -/

section Hashes

variable {κ : Type} [DecidableEq κ] {p p' : BlockPool κ} {b : Nat} {bs : List Nat}

structure HashInv (p : BlockPool κ) : Prop where
  stored : ∀ key b, p.cachedBlockHashToBlock.Stored key b → p.hashOf b = some key
  nodup : p.cachedBlockHashToBlock.DictsNodup

structure SameHashes (p p' : BlockPool κ) : Prop where
  map : p'.cachedBlockHashToBlock = p.cachedBlockHashToBlock
  hashOf : ∀ b, p'.hashOf b = p.hashOf b

theorem SameHashes.refl (p : BlockPool κ) : SameHashes p p := ⟨rfl, fun _ => rfl⟩

theorem SameHashes.trans {q r : BlockPool κ} (h : SameHashes p q) (k : SameHashes q r) :
    SameHashes p r :=
  ⟨k.map.trans h.map, fun b => (k.hashOf b).trans (h.hashOf b)⟩

theorem HashInv.congr (h : HashInv p) (hsame : SameHashes p p') : HashInv p' := by
  refine ⟨fun key b hb => ?_, ?_⟩
  · rw [hsame.map] at hb
    rw [hsame.hashOf]
    exact h.stored key b hb
  · rw [hsame.map]
    exact h.nodup

theorem addRef_sameHashes (p : BlockPool κ) (b : Nat) (d : Int) : SameHashes p (p.addRef b d) :=
  ⟨rfl, fun c => BlocksInv.addRef_hashOf p b c d⟩

theorem touch_sameHashes (h : BlockPool.touch bs p = .ok p') : SameHashes p p' := by
  induction bs generalizing p with
  | nil =>
    obtain rfl := Except.ok.inj h
    exact .refl p
  | cons b bs ih =>
    obtain ⟨q, hq, h⟩ := except_bind_eq_ok.mp h
    refine .trans ?_ (ih h)
    unfold BlockPool.touchOne at hq
    split at hq
    · rcases hremove : p.freeBlockQueue.remove b with _ | queue
      · rw [hremove] at hq
        cases hq
      · rw [hremove] at hq
        obtain rfl := Except.ok.inj hq
        exact ⟨rfl, (addRef_sameHashes { p with freeBlockQueue := queue } b 1).hashOf⟩
    · obtain rfl := Except.ok.inj hq
      exact addRef_sameHashes p b 1

theorem freeBlocks_sameHashes (h : p.freeBlocks bs = .ok p') : SameHashes p p' := by
  have hfold : ∀ q : BlockPool κ, SameHashes q (bs.foldl (fun p b => p.addRef b (-1)) q) := by
    intro q
    clear h
    induction bs generalizing q with
    | nil => exact .refl q
    | cons b bs ih => exact (addRef_sameHashes q b (-1)).trans (ih _)
  obtain ⟨queue, -, h⟩ := except_bind_eq_ok.mp h
  obtain rfl := Except.ok.inj h
  exact ⟨(hfold p).map, (hfold p).hashOf⟩

theorem HashInv.maybeEvict (h : HashInv p) (b : Nat) :
    HashInv (p.maybeEvictCachedBlock b) ∧
      ∀ key, p.cachedBlockHashToBlock.numStored key =
        (p.maybeEvictCachedBlock b).cachedBlockHashToBlock.numStored key +
          if p.hashOf b = some key ∧ (p.cachedBlockHashToBlock.pop key b).1.isSome then 1 else 0 := by
  unfold BlockPool.maybeEvictCachedBlock
  split
  · rename_i hnone
    refine ⟨h, fun key => ?_⟩
    simp [BlockPool.hashOf, hnone]
  · rename_i key hkey
    have hcount := BlockHashToBlockMap.numStored_pop h.nodup key b
    have hiff : ∀ k, (k = key ∧ (p.cachedBlockHashToBlock.pop key b).1.isSome) ↔
        p.hashOf b = some k ∧ (p.cachedBlockHashToBlock.pop k b).1.isSome := by
      intro k
      rw [BlockPool.hashOf, hkey, Option.some.injEq]
      constructor
      · rintro ⟨hk, hs⟩
        exact ⟨hk.symm, hk ▸ hs⟩
      · rintro ⟨hk, hs⟩
        exact ⟨hk.symm, hk ▸ hs⟩
    rcases hpop : p.cachedBlockHashToBlock.pop key b with ⟨_ | a, cached⟩
    · rw [hpop] at hcount
      refine ⟨⟨fun k c hc => ?_, ?_⟩, fun k => ?_⟩
      · have hst := (BlockHashToBlockMap.stored_pop p.cachedBlockHashToBlock key k b c).mp
        rw [hpop] at hst
        exact h.stored k c (hst hc).1
      · have := h.nodup.pop key b
        rw [hpop] at this
        exact this
      · rw [hcount k]
        have := hiff k
        rw [hpop] at this
        simp only [this]
    · have hst : ∀ k c, cached.Stored k c ↔
          p.cachedBlockHashToBlock.Stored k c ∧ ¬ (k = key ∧ c = b) := by
        intro k c
        have := BlockHashToBlockMap.stored_pop p.cachedBlockHashToBlock key k b c
        rwa [hpop] at this
      refine ⟨⟨fun k c hc => ?_, ?_⟩, fun k => ?_⟩
      · obtain ⟨hc, hne⟩ := (hst k c).mp hc
        have hhash := h.stored k c hc
        by_cases hcb : c = b
        · subst hcb
          rw [BlockPool.hashOf, hkey] at hhash
          exact absurd ⟨(Option.some.inj hhash).symm, rfl⟩ hne
        · simpa [BlockPool.hashOf, BlockPool.setBlock, update_of_ne hcb] using hhash
      · have := h.nodup.pop key b
        rw [hpop] at this
        exact this
      · have := hcount k
        rw [this]
        have := hiff k
        simp only [hpop] at this ⊢
        simp only [this]

theorem HashInv.not_stored (h : HashInv p) (hb : p.hashOf b = none)
    (key : BlockHashWithGroupId κ) : ¬ p.cachedBlockHashToBlock.Stored key b := by
  intro hstored
  rw [h.stored key b hstored] at hb
  cases hb

theorem HashInv.cacheOne (h : HashInv p) (hb : p.hashOf b = none)
    (key : BlockHashWithGroupId κ) :
    HashInv { p.setBlock b { p.blocks b with blockHash := some key } with
      cachedBlockHashToBlock := p.cachedBlockHashToBlock.insert key b } := by
  refine ⟨fun k c hc => ?_, h.nodup.insert key b⟩
  rcases (BlockHashToBlockMap.stored_insert _ _ _ _ _).mp hc with hold | ⟨rfl, rfl⟩
  · have hcb : c ≠ b := by
      rintro rfl
      exact h.not_stored hb k hold
    simpa [BlockPool.hashOf, BlockPool.setBlock, update_of_ne hcb] using h.stored k c hold
  · simp [BlockPool.hashOf, BlockPool.setBlock]

theorem HashInv.cacheLoop (h : HashInv p) {isNull : Nat → Bool}
    (hisNull : ∀ b, (p.blocks b).isNull = isNull b) {groupId : Nat} {hashes : List (BlockHash κ)}
    (hloop : BlockPool.cacheLoop groupId bs hashes p = .ok p') :
    HashInv p' ∧
      (∀ key, p'.cachedBlockHashToBlock.numStored key = p.cachedBlockHashToBlock.numStored key +
        if groupId = key.groupId then (EventPool.newHashes isNull bs hashes).count key.hash
        else 0) ∧
      (EventPool.newHashes isNull bs hashes).length = bs.countP fun b => !isNull b := by
  induction bs generalizing p hashes with
  | nil =>
    obtain rfl := Except.ok.inj hloop
    exact ⟨h, fun key => by simp [EventPool.newHashes], rfl⟩
  | cons a bs ih =>
    rw [BlockPool.cacheLoop, hisNull a] at hloop
    by_cases hnull : isNull a = true
    · rw [if_pos hnull] at hloop
      simpa [EventPool.newHashes, hnull] using ih h hisNull hloop
    · rw [if_neg hnull, assert_bind_eq_ok] at hloop
      obtain ⟨hnone, hloop⟩ := hloop
      cases hashes with
      | nil => cases hloop
      | cons hash hashes =>
        have hisNull' : ∀ b, (update p.blocks a { p.blocks a with
            blockHash := some (⟨hash, groupId⟩ : BlockHashWithGroupId κ) } b).isNull =
              isNull b := by
          intro b
          by_cases hba : b = a
          · subst hba
            simpa using hisNull b
          · rw [update_of_ne hba]
            exact hisNull b
        obtain ⟨hinv, hcount, hlength⟩ := ih (h.cacheOne hnone ⟨hash, groupId⟩) hisNull' hloop
        have hnew : EventPool.newHashes isNull (a :: bs) (hash :: hashes) =
            hash :: EventPool.newHashes isNull bs hashes := by
          simp [EventPool.newHashes, hnull]
        rw [hnew]
        refine ⟨hinv, fun key => ?_, ?_⟩
        · rw [hcount key, BlockHashToBlockMap.numStored_insert (h.not_stored hnone _)]
          obtain ⟨keyHash, keyGroup⟩ := key
          simp only [List.count_cons, BlockHashWithGroupId.mk.injEq, List.tail_cons]
          by_cases hgroup : groupId = keyGroup
          · subst hgroup
            by_cases hhash : keyHash = hash
            · simp [hhash]
              omega
            · simp [hhash, Ne.symm hhash]
          · simp [hgroup, Ne.symm hgroup]
        · simpa [hnull] using hlength

end Hashes

/-! ### Replaying the stream -/

namespace EventPool

variable {κ δ ε : Type} [DecidableEq κ]

def ExtraKeysMatch : KVCacheEvent κ δ → Prop
  | .blockStored hashes _ _ _ _ extraKeys _ => (extraKeys.getD []).length = hashes.length
  | _ => True

/-- The stream of events counts the blocks of the map. -/
structure Replays (taken : List (KVCacheEvent κ δ)) (e : EventPool κ δ) : Prop where
  enabled : e.enableKvCacheEvents = true
  hashed : HashInv e.pool
  counts : ∀ key, net key (taken ++ e.kvEventQueue) =
    e.pool.cachedBlockHashToBlock.numStored key
  nonneg : ∀ key k, 0 ≤ net key ((taken ++ e.kvEventQueue).take k)
  extraKeys : ∀ event ∈ taken ++ e.kvEventQueue, ExtraKeysMatch event

section Replay

variable {taken : List (KVCacheEvent κ δ)} {e e' : EventPool κ δ} {b : Nat} {bs : List Nat}

variable {pool : BlockPool κ} {h : Hasher κ δ ε}

theorem Replays.silent (h : Replays taken e) (hinv : HashInv pool)
    (hcount : ∀ key, pool.cachedBlockHashToBlock.numStored key =
    e.pool.cachedBlockHashToBlock.numStored key) :
    Replays taken { e with pool } :=
  ⟨h.enabled, hinv, fun key => (h.counts key).trans (congrArg _ (hcount key).symm), h.nonneg,
    h.extraKeys⟩

theorem Replays.sameHashes (h : Replays taken e)
    (hsame : SameHashes e.pool pool) : Replays taken { e with pool } :=
  h.silent (h.hashed.congr hsame) fun key => by rw [hsame.map]

theorem Replays.emit (h : Replays taken e) {event : KVCacheEvent κ δ}
    (hinv : HashInv pool) (hextra : ExtraKeysMatch event)
    (hcount : ∀ key, netStep key (e.pool.cachedBlockHashToBlock.numStored key) event =
    pool.cachedBlockHashToBlock.numStored key) :
    Replays taken ({ e with pool }.emit event) := by
  have hqueue : taken ++ ({ e with pool }.emit event).kvEventQueue =
      taken ++ e.kvEventQueue ++ [event] := by
    simp [EventPool.emit, h.enabled]
  have hpool : ({ e with pool }.emit event).pool = pool := by
    simp [EventPool.emit, h.enabled]
  have hnet : ∀ key, net key (taken ++ e.kvEventQueue ++ [event]) =
      pool.cachedBlockHashToBlock.numStored key := by
    intro key
    rw [net, List.foldl_append, ← hcount key, ← h.counts key]
    rfl
  refine ⟨?_, ?_, ?_, ?_, ?_⟩
  · simp [EventPool.emit, h.enabled]
  · rw [hpool]
    exact hinv
  · rw [hqueue, hpool]
    exact hnet
  · intro key k
    rw [hqueue]
    rcases Nat.lt_or_ge (taken ++ e.kvEventQueue).length k with hlt | hle
    · rw [List.take_of_length_le (by
        rw [List.length_append, List.length_singleton]
        omega), hnet key]
      omega
    · rw [List.take_append_of_le_length hle]
      exact h.nonneg key k
  · intro ev hev
    rw [hqueue, List.mem_append, List.mem_singleton] at hev
    rcases hev with hev | rfl
    · exact h.extraKeys ev hev
    · exact hextra

theorem Replays.maybeEvict (h : Replays taken e) (b : Nat) :
    Replays taken (e.maybeEvictCachedBlock b) := by
  obtain ⟨hinv, hcount⟩ := h.hashed.maybeEvict b
  unfold maybeEvictCachedBlock
  split
  · exact h
  · rename_i key hkey
    have hhash : e.pool.hashOf b = some key := hkey
    split
    · rename_i hpop
      refine h.silent hinv fun k => ?_
      have hnot : ¬ (e.pool.hashOf b = some k ∧
          (e.pool.cachedBlockHashToBlock.pop k b).1.isSome = true) := by
        rintro ⟨hk, hsome⟩
        obtain rfl : key = k := some_unique hhash hk
        rw [hpop] at hsome
        cases hsome
      rw [hcount k, if_neg hnot]
      rfl
    · rename_i a hpop
      refine h.emit hinv trivial fun k => ?_
      have := hcount k
      simp only [netStep]
      by_cases hk : key = k
      · subst hk
        rw [if_pos ⟨hhash, by simp [hpop]⟩] at this
        simp [this]
      · rw [if_neg (fun hand => hk (some_unique hhash hand.1))] at this
        rw [this]
        split
        · rename_i hgroup
          have hne : key.hash ≠ k.hash := fun hhash => hk (by
            obtain ⟨_, _⟩ := key
            obtain ⟨_, _⟩ := k
            simp_all)
          simp [hne]
        · rfl

theorem Replays.takeLoop (h : Replays taken e) (hloop : EventPool.takeLoop bs e = .ok e') :
    Replays taken e' := by
  induction bs generalizing e with
  | nil =>
    obtain rfl := Except.ok.inj hloop
    exact h
  | cons b bs ih =>
    have hevict : Replays taken (if e.pool.enableCaching then e.maybeEvictCachedBlock b else e) := by
      split
      · exact h.maybeEvict b
      · exact h
    obtain ⟨-, hloop⟩ := assert_bind_eq_ok.mp hloop
    exact ih (hevict.sameHashes (addRef_sameHashes _ b 1)) hloop

theorem Replays.getNewBlocks (h : Replays taken e) {n : Int} {r : List Nat × EventPool κ δ}
    (hget : e.getNewBlocks n = .ok r) : Replays taken r.2 := by
  unfold EventPool.getNewBlocks at hget
  split at hget
  · cases hget
  · obtain ⟨⟨ret, queue⟩, -, hget⟩ := except_bind_eq_ok.mp hget
    obtain ⟨e', hloop, hget⟩ := except_bind_eq_ok.mp hget
    obtain rfl := Except.ok.inj hget
    have hsame : SameHashes e.pool { e.pool with freeBlockQueue := queue } := ⟨rfl, fun _ => rfl⟩
    exact (h.sameHashes hsame).takeLoop hloop

theorem Replays.evictBlocks (h : Replays taken e) (hevict : EventPool.evictBlocks bs e = .ok e') :
    Replays taken e' := by
  induction bs generalizing e with
  | nil =>
    obtain rfl := Except.ok.inj hevict
    exact h
  | cons b bs ih =>
    obtain ⟨-, hevict⟩ := assert_bind_eq_ok.mp hevict
    exact ih (h.maybeEvict b) hevict

theorem Replays.resetPrefixCache (h : Replays taken e) : Replays taken e.resetPrefixCache.2 := by
  unfold EventPool.resetPrefixCache BlockPool.resetPrefixCache
  split
  · rename_i hpair
    split at hpair
    · obtain ⟨rfl, rfl⟩ := Prod.mk.inj hpair
      exact h
    · obtain ⟨rfl, rfl⟩ := Prod.mk.inj hpair
      refine h.emit ⟨fun key b hb => absurd hb (BlockHashToBlockMap.not_stored_empty key b),
        fun key as has => ?_⟩ trivial fun key => rfl
      cases has

theorem extraKeysLoop_length {r : BlockHashing.Request κ δ ε}
    {isNull : Nat → Bool} {blocks : List Nat} {blockSize i n : Nat} {mmIdx : Int}
    {table : Dict (Nat × Nat) δ} {extraKeys : List (Option (List (ExtraKey δ)))}
    (hloop : extraKeysLoop h r isNull blocks blockSize (List.range' i n) mmIdx table =
    .ok extraKeys) :
    extraKeys.length = ((blocks.drop i).take n).countP fun b => !isNull b := by
  induction n generalizing i mmIdx table extraKeys with
  | zero =>
    obtain rfl := Except.ok.inj hloop
    simp
  | succ n ih =>
    rw [List.range'_succ, extraKeysLoop] at hloop
    rcases hb : blocks[i]? with _ | b
    · rw [hb] at hloop
      cases hloop
    · have hdrop : blocks.drop i = b :: blocks.drop (i + 1) := by
        obtain ⟨hi, rfl⟩ := List.getElem?_eq_some_iff.mp hb
        exact List.drop_eq_getElem_cons hi
      simp only [hb] at hloop
      rw [hdrop, List.take_succ_cons, List.countP_cons]
      split at hloop
      · rename_i hnull
        simpa [hnull] using ih hloop
      · rename_i hnull
        obtain ⟨keys, -, hloop⟩ := except_bind_eq_ok.mp hloop
        obtain ⟨rest, hrest, hloop⟩ := except_bind_eq_ok.mp hloop
        obtain rfl := Except.ok.inj hloop
        simpa [hnull] using ih hrest

theorem Replays.cacheFullBlocks (hr : Replays taken e)
    {r : BlockHashing.Request κ δ ε} {blocks : List Nat} {numCached numFull blockSize groupId : Nat}
    (hcache : EventPool.cacheFullBlocks h e r blocks numCached numFull blockSize groupId =
    .ok e') : Replays taken e' := by
  unfold EventPool.cacheFullBlocks at hcache
  split at hcache
  · obtain rfl := Except.ok.inj hcache
    exact hr
  · rename_i hlt
    obtain ⟨pool, hpool, hcache⟩ := except_bind_eq_ok.mp hcache
    rw [if_pos hr.enabled] at hcache
    obtain ⟨parent, -, hcache⟩ := except_bind_eq_ok.mp hcache
    obtain ⟨extraKeys, hextra, hcache⟩ := except_bind_eq_ok.mp hcache
    obtain rfl := Except.ok.inj hcache
    rw [BlockPool.cacheFullBlocks, if_neg hlt, assert_bind_eq_ok, assert_bind_eq_ok] at hpool
    obtain ⟨hinv, hcount, hlength⟩ := hr.hashed.cacheLoop (fun _ => rfl) hpool.2.2
    refine hr.emit hinv ?_ fun key => ?_
    · have hentries := extraKeysLoop_length hextra
      rw [← List.drop_take, ← hlength] at hentries
      simp only [ExtraKeysMatch]
      split
      · rename_i hempty
        rw [List.isEmpty_iff.mp hempty] at hentries
        exact hentries
      · exact hentries
    · rw [hcount key]
      simp only [netStep]
      split <;> simp

theorem Replays.takeEvents (h : Replays taken e) :
    Replays (taken ++ e.takeEvents.1) e.takeEvents.2 := by
  have hstream : taken ++ e.takeEvents.1 ++ e.takeEvents.2.kvEventQueue =
      taken ++ e.kvEventQueue := by
    simp [EventPool.takeEvents, h.enabled]
  have hpool : e.takeEvents.2.pool = e.pool := by
    simp [EventPool.takeEvents, h.enabled]
  refine ⟨?_, ?_, ?_, ?_, ?_⟩
  · simp [EventPool.takeEvents, h.enabled]
  · rw [hpool]
    exact h.hashed
  · rw [hstream, hpool]
    exact h.counts
  · rw [hstream]
    exact h.nonneg
  · rw [hstream]
    exact h.extraKeys

theorem step_replays {s s' : Published κ δ} {op : Op κ δ ε}
    (hs : Replays s.taken s.pool) (hstep : (step h s op).toOption = some s') :
    Replays s'.taken s'.pool := by
  rw [toOption_eq_some] at hstep
  cases op with
  | cacheFullBlocks r blocks numCached numFull blockSize groupId =>
    obtain ⟨e, he, rfl⟩ := except_map_eq_ok.mp hstep
    exact hs.cacheFullBlocks he
  | getNewBlocks n =>
    obtain ⟨r, hr, rfl⟩ := except_map_eq_ok.mp hstep
    exact hs.getNewBlocks hr
  | touch bs =>
    obtain ⟨e, he, rfl⟩ := except_map_eq_ok.mp hstep
    obtain ⟨pool, hpool, rfl⟩ := except_map_eq_ok.mp he
    exact hs.sameHashes (touch_sameHashes hpool)
  | freeBlocks bs =>
    obtain ⟨e, he, rfl⟩ := except_map_eq_ok.mp hstep
    obtain ⟨pool, hpool, rfl⟩ := except_map_eq_ok.mp he
    exact hs.sameHashes (freeBlocks_sameHashes hpool)
  | evictBlocks bs =>
    obtain ⟨e, he, rfl⟩ := except_map_eq_ok.mp hstep
    exact hs.evictBlocks he
  | resetPrefixCache =>
    obtain rfl := Except.ok.inj hstep
    exact hs.resetPrefixCache
  | takeEvents =>
    obtain rfl := Except.ok.inj hstep
    exact hs.takeEvents

theorem init_replays {numGpuBlocks hashBlockSize : Nat} {enableCaching : Bool}
    (hinit : EventPool.init numGpuBlocks enableCaching hashBlockSize true = .ok e) :
    Replays [] e := by
  obtain ⟨pool, hpool, hinit⟩ := except_bind_eq_ok.mp hinit
  obtain rfl := Except.ok.inj hinit
  obtain ⟨-, hpool⟩ := assert_bind_eq_ok.mp hpool
  obtain ⟨⟨null, queue⟩, -, hpool⟩ := except_bind_eq_ok.mp hpool
  obtain rfl := Except.ok.inj hpool
  refine ⟨rfl, ⟨fun key b hb => absurd hb (BlockHashToBlockMap.not_stored_empty key b),
    fun key as has => (by cases has)⟩, fun key => rfl, fun key k => ?_, fun event hevent => ?_⟩
  · simp [net]
  · cases hevent

end Replay

/-- The events replay to the contents of the cache. For every key, what was stored less what was
removed since the last clear is the number of blocks under the key, at no point of the stream is it
negative, and every stored event has as many extra-key entries as hashes. -/
theorem events_replay (h : Hasher κ δ ε) (numGpuBlocks hashBlockSize : Nat) (enableCaching : Bool)
    (e : EventPool κ δ)
    (hinit : EventPool.init numGpuBlocks enableCaching hashBlockSize true = .ok e)
    (ops : List (Op κ δ ε)) (s : Published κ δ) (hrun : run h ⟨[], e⟩ ops = some s) :
    (∀ key, net key s.stream = s.pool.pool.cachedBlockHashToBlock.numStored key) ∧
      (∀ key k, 0 ≤ net key (s.stream.take k)) ∧
      ∀ event ∈ s.stream, ExtraKeysMatch event := by
  have hreplays : Replays s.taken s.pool :=
    Machine.exec_invariant (P := fun s => Replays s.taken s.pool)
      (fun s op s' hs hstep => step_replays hs hstep) (init_replays hinit) hrun
  exact ⟨hreplays.counts, hreplays.nonneg, hreplays.extraKeys⟩

def oneBlockRequest : BlockHashing.Request Nat Unit Unit where
  promptTokenIds := some [5, 6]
  numPromptTokens := 2
  allTokenIds := [5, 6]
  outputTokenIds := []
  numComputedTokens := 0
  mmFeatures := []
  loraName := none
  cacheSalt := none
  promptEmbeds := none
  embedsHashes := .empty
  blockHashes := [7]

def plainHasher : Hasher Nat Unit Unit where
  blockSize := 2
  hashFn _ _ _ := 7
  noneHash := 0
  embedsHash _ := ()
  blockSize_pos := Nat.two_pos

/-- A block is cached, freed, and evicted by an allocation: stored once and removed once. -/
theorem events_replay_evicted :
    ∃ (e : EventPool Nat Unit) (s : Published Nat Unit),
      EventPool.init 3 true 2 true = .ok e ∧
      run plainHasher ⟨[], e⟩ [.getNewBlocks 1, .cacheFullBlocks oneBlockRequest [1] 0 1 2 0,
        .takeEvents, .freeBlocks [1], .getNewBlocks 2] = some s ∧
      s.stream.length = 2 ∧ net ⟨[7], 0⟩ (s.stream.take 1) = 1 ∧ net ⟨[7], 0⟩ s.stream = 0 := by
  obtain ⟨e, he⟩ : ∃ e : EventPool Nat Unit, EventPool.init 3 true 2 true = .ok e := ⟨_, rfl⟩
  obtain ⟨s, hs⟩ : ∃ s, run plainHasher ⟨[], e⟩ [.getNewBlocks 1,
      .cacheFullBlocks oneBlockRequest [1] 0 1 2 0, .takeEvents, .freeBlocks [1],
      .getNewBlocks 2] = some s := by
    obtain rfl := Except.ok.inj he
    exact ⟨_, rfl⟩
  have hreplay := (events_replay plainHasher 3 2 true e he _ s hs).1 ⟨[7], 0⟩
  refine ⟨e, s, he, hs, ?_⟩
  obtain rfl := Except.ok.inj he
  obtain rfl := Option.some.inj hs
  exact ⟨rfl, rfl, hreplay⟩

end EventPool

end EldrServing.KVCache
