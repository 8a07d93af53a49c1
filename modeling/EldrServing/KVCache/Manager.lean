import EldrServing.Lib.Dict
import EldrServing.Lib.Loop
import EldrServing.KVCache.BlockPool

/-!
# The KV-cache managers

One `SingleTypeKVCacheManager` keeps the block tables of a KV-cache group; the
`KVCacheManager` allocates, caches and frees blocks in all groups over one block pool.
Full attention, sliding window and chunked local attention are modelled; encoder tokens,
Mamba and cross attention are not.
-/

namespace EldrServing.KVCache

set_option autoImplicit false

abbrev ReqId := Nat

def cdiv (a b : Nat) : Nat := (a + b - 1) / b

inductive AttentionType where
  | fullAttention
  | slidingWindow (window : Nat)
  | chunkedLocal (chunkSize : Nat)
  deriving DecidableEq, Repr

structure KVCacheSpec where
  blockSize : Nat
  attention : AttentionType
  maxAdmissionBlocksPerRequest : Option Nat := none
  blockSize_pos : 0 < blockSize
  window_pos : ∀ w, attention = .slidingWindow w → 0 < w

/-- `get_num_skipped_tokens` of the managers. -/
def KVCacheSpec.getNumSkippedTokens (spec : KVCacheSpec) (numComputedTokens : Nat) : Nat :=
  match spec.attention with
  | .fullAttention => 0
  | .slidingWindow w => numComputedTokens + 1 - w
  | .chunkedLocal c => numComputedTokens / c * c

/-- What the cache managers read of a request. The hashes of a request are chained, so no two of
them are equal. -/
structure RequestView (κ : Type) where
  requestId : ReqId
  numComputedTokens : Nat
  numTokens : Nat
  blockHashes : List κ
  nodup : blockHashes.Nodup

structure SingleTypeKVCacheManager where
  spec : KVCacheSpec
  kvCacheGroupId : Nat
  reqToBlocks : Dict ReqId (List Nat)
  numCachedBlock : Dict ReqId Nat

namespace SingleTypeKVCacheManager

variable {κ : Type} [DecidableEq κ]

/-- The block table of a request; `req_to_blocks` is a `defaultdict`. -/
def blocksOf (m : SingleTypeKVCacheManager) (rid : ReqId) : List Nat := m.reqToBlocks.getD rid []

def setBlocks (m : SingleTypeKVCacheManager) (rid : ReqId) (blocks : List Nat) :
    SingleTypeKVCacheManager :=
  { m with reqToBlocks := m.reqToBlocks.insert rid blocks }

def getNumEvictableBlocks (pool : BlockPool κ) (blocks : List Nat) : Nat :=
  blocks.countP fun b => (pool.blocks b).refCnt = 0 ∧ (pool.blocks b).isNull = false

def getNumBlocksToAllocate (m : SingleTypeKVCacheManager) (pool : BlockPool κ) (rid : ReqId)
    (numTokens : Nat) (newComputedBlocks : List Nat) (totalComputedTokens : Nat)
    (applyAdmissionCap : Bool) : Except PyError Nat :=
  let required := cdiv numTokens m.spec.blockSize
  let required :=
    match m.spec.maxAdmissionBlocksPerRequest with
    | some cap => if applyAdmissionCap then min required cap else required
    | none => required
  let numReqBlocks := (m.blocksOf rid).length
  if m.numCachedBlock.contains rid then do
    assert (newComputedBlocks = []) ""
    .ok (required - numReqBlocks)
  else
    let numSkippedBlocks := m.spec.getNumSkippedTokens totalComputedTokens / m.spec.blockSize
    let numLocalComputedBlocks := newComputedBlocks.length + numReqBlocks
    let numNewBlocks := required - max numSkippedBlocks numLocalComputedBlocks
    let numSkippedNewComputedBlocks := numSkippedBlocks - numReqBlocks
    .ok (numNewBlocks +
      getNumEvictableBlocks pool (newComputedBlocks.drop numSkippedNewComputedBlocks))

def touchHits (pool : BlockPool κ) (blocks : List Nat) : Except PyError (BlockPool κ) :=
  if pool.enableCaching then pool.touch blocks
  else do
    assert (blocks = []) "Computed blocks should be empty when prefix caching is disabled"
    .ok pool

/-- The external tokens of `allocate_new_computed_blocks` that are not skipped. -/
def numExternalTokens (spec : KVCacheSpec) (numLocalComputedTokens numExternalComputedTokens : Nat) :
    Nat :=
  let total := numLocalComputedTokens + numExternalComputedTokens
  let numSkippedTokens := spec.getNumSkippedTokens total
  if 0 < numSkippedTokens / spec.blockSize
  then min (total - numSkippedTokens) numExternalComputedTokens
  else numExternalComputedTokens

def allocateNewComputedBlocks (m : SingleTypeKVCacheManager) (pool : BlockPool κ) (rid : ReqId)
    (newComputedBlocks : List Nat) (numLocalComputedTokens numExternalComputedTokens : Nat) :
    Except PyError (SingleTypeKVCacheManager × BlockPool κ) :=
  if m.numCachedBlock.contains rid then do
    assert (newComputedBlocks = []) ""
    .ok (m, pool)
  else do
    assert (m.blocksOf rid = []) ""
    let total := numLocalComputedTokens + numExternalComputedTokens
    let numSkippedBlocks := m.spec.getNumSkippedTokens total / m.spec.blockSize
    let newComputedBlocks := newComputedBlocks.drop numSkippedBlocks
    let pool ← touchHits pool newComputedBlocks
    let reqBlocks := List.replicate numSkippedBlocks pool.nullBlock ++ newComputedBlocks
    let m := { m.setBlocks rid reqBlocks with
      numCachedBlock := m.numCachedBlock.insert rid reqBlocks.length }
    if 0 < numExternalTokens m.spec numLocalComputedTokens numExternalComputedTokens then do
      let (allocated, pool) ←
        pool.getNewBlocks ((cdiv total m.spec.blockSize : Int) - reqBlocks.length)
      .ok (m.setBlocks rid (reqBlocks ++ allocated), pool)
    else .ok (m, pool)

def allocateNewBlocks (m : SingleTypeKVCacheManager) (pool : BlockPool κ) (rid : ReqId)
    (numTokens : Nat) : Except PyError ((List Nat × SingleTypeKVCacheManager) × BlockPool κ) :=
  let reqBlocks := m.blocksOf rid
  let numNewBlocks : Int := cdiv numTokens m.spec.blockSize - reqBlocks.length
  if numNewBlocks ≤ 0 then .ok (([], m.setBlocks rid reqBlocks), pool)
  else do
    let (newBlocks, pool) ← pool.getNewBlocks numNewBlocks
    .ok ((newBlocks, m.setBlocks rid (reqBlocks ++ newBlocks)), pool)

def cacheBlocks (m : SingleTypeKVCacheManager) (pool : BlockPool κ) (request : RequestView κ)
    (numTokens : Nat) : Except PyError (SingleTypeKVCacheManager × BlockPool κ) :=
  let numCachedBlocks := m.numCachedBlock.getD request.requestId 0
  let numFullBlocks := numTokens / m.spec.blockSize
  if numFullBlocks ≤ numCachedBlocks then .ok (m, pool)
  else do
    let blocks := m.blocksOf request.requestId
    let pool ← pool.cacheFullBlocks request.blockHashes blocks numCachedBlocks numFullBlocks
      m.spec.blockSize m.kvCacheGroupId
    .ok ({ m.setBlocks request.requestId blocks with
      numCachedBlock := m.numCachedBlock.insert request.requestId numFullBlocks }, pool)

def free (m : SingleTypeKVCacheManager) (pool : BlockPool κ) (rid : ReqId) :
    Except PyError (SingleTypeKVCacheManager × BlockPool κ) := do
  let pool ← pool.freeBlocks (m.blocksOf rid).reverse
  .ok ({ m with
    reqToBlocks := m.reqToBlocks.erase rid
    numCachedBlock := m.numCachedBlock.erase rid }, pool)

/-- The loop of `remove_skipped_blocks`, from index `i - 1` down to the first null block: the
removed blocks and the table. -/
def skipLoop (null : Nat) : Nat → List Nat → List Nat × List Nat
  | 0, blocks => ([], blocks)
  | i + 1, blocks =>
    match blocks[i]? with
    | none => ([], blocks)
    | some b =>
      if b = null then ([], blocks)
      else
        let (removed, blocks) := skipLoop null i (blocks.set i null)
        (b :: removed, blocks)

def removeSkippedBlocks (m : SingleTypeKVCacheManager) (pool : BlockPool κ) (rid : ReqId)
    (totalComputedTokens : Nat) : Except PyError (SingleTypeKVCacheManager × BlockPool κ) :=
  let numSkippedTokens := m.spec.getNumSkippedTokens totalComputedTokens
  if numSkippedTokens = 0 then .ok (m, pool)
  else do
    let blocks := m.blocksOf rid
    let (removed, blocks) := skipLoop pool.nullBlock
      (min (numSkippedTokens / m.spec.blockSize) blocks.length) blocks
    let pool ← pool.freeBlocks removed
    .ok (m.setBlocks rid blocks, pool)

end SingleTypeKVCacheManager

structure KVCacheManager (κ : Type) where
  maxModelLen : Nat
  enableCaching : Bool
  blockPool : BlockPool κ
  singleTypeManagers : List SingleTypeKVCacheManager

/-- The arguments of `allocate_slots` after the request, with their defaults. -/
structure AllocateSlotsArgs where
  numNewTokens : Nat
  numNewComputedTokens : Nat := 0
  newComputedBlocks : List (List Nat)
  numLookaheadTokens : Nat := 0
  numExternalComputedTokens : Nat := 0
  delayCacheBlocks : Bool := false
  fullSequenceMustFit : Bool := false

namespace KVCacheManager

open SingleTypeKVCacheManager

variable {κ : Type} [DecidableEq κ]

def init (numBlocks maxModelLen hashBlockSize : Nat) (enableCaching : Bool)
    (groups : List KVCacheSpec) : Except PyError (KVCacheManager κ) := do
  let blockPool ← BlockPool.init numBlocks enableCaching hashBlockSize
  .ok { maxModelLen, enableCaching, blockPool
        singleTypeManagers := groups.mapIdx fun i spec => ⟨spec, i, .empty, .empty⟩ }

/-- `get_num_blocks_to_allocate` summed over the groups. -/
def getNumBlocksToAllocate (k : KVCacheManager κ) (rid : ReqId) (numTokens : Nat)
    (newComputedBlocks : List (List Nat)) (totalComputedTokens : Nat) (applyAdmissionCap : Bool) :
    Except PyError Nat := do
  let nums ← (newComputedBlocks.zip k.singleTypeManagers).mapM fun (hits, m) =>
    m.getNumBlocksToAllocate k.blockPool rid numTokens hits totalComputedTokens applyAdmissionCap
  .ok nums.sum

def forManagers (k : KVCacheManager κ)
    (f : SingleTypeKVCacheManager → BlockPool κ →
      Except PyError (SingleTypeKVCacheManager × BlockPool κ)) :
    Except PyError (KVCacheManager κ) := do
  let (ms, blockPool) ← mapState f k.singleTypeManagers k.blockPool
  .ok { k with singleTypeManagers := ms, blockPool := blockPool }

def removeSkippedBlocks (k : KVCacheManager κ) (rid : ReqId) (totalComputedTokens : Nat) :
    Except PyError (KVCacheManager κ) :=
  k.forManagers fun m pool => m.removeSkippedBlocks pool rid totalComputedTokens

def allocateNewComputedBlocks (k : KVCacheManager κ) (rid : ReqId)
    (newComputedBlocks : List (List Nat)) (numLocalComputedTokens numExternalComputedTokens : Nat) :
    Except PyError (KVCacheManager κ) := do
  let (ms, blockPool) ← mapState (fun (hits, m) pool =>
    m.allocateNewComputedBlocks pool rid hits numLocalComputedTokens numExternalComputedTokens)
    (newComputedBlocks.zip k.singleTypeManagers) k.blockPool
  .ok { k with singleTypeManagers := ms, blockPool := blockPool }

def allocateNewBlocks (k : KVCacheManager κ) (rid : ReqId) (numTokens : Nat) :
    Except PyError (List (List Nat) × KVCacheManager κ) := do
  let (rs, blockPool) ← mapState (fun m pool =>
    SingleTypeKVCacheManager.allocateNewBlocks m pool rid numTokens)
    k.singleTypeManagers k.blockPool
  .ok (rs.map Prod.fst, { k with singleTypeManagers := rs.map Prod.snd, blockPool := blockPool })

def cacheBlocks (k : KVCacheManager κ) (request : RequestView κ) (numComputedTokens : Nat) :
    Except PyError (KVCacheManager κ) :=
  if k.enableCaching then k.forManagers fun m pool => m.cacheBlocks pool request numComputedTokens
  else .ok k

/-- The tokens of `allocate_slots` that need a slot, given the computed ones. -/
def numTokensNeedSlot (k : KVCacheManager κ) (computed : Nat) (args : AllocateSlotsArgs) : Nat :=
  min (min computed k.maxModelLen + args.numNewTokens + args.numLookaheadTokens) k.maxModelLen

/-- The stage of `allocate_slots` that adds prefix hits and external tokens, if there are any. -/
def addComputedBlocks (k : KVCacheManager κ) (request : RequestView κ) (args : AllocateSlotsArgs) :
    Except PyError (KVCacheManager κ) :=
  if args.newComputedBlocks.any (· ≠ []) ∨ 0 < args.numExternalComputedTokens then
    k.allocateNewComputedBlocks request.requestId args.newComputedBlocks
      (request.numComputedTokens + args.numNewComputedTokens) args.numExternalComputedTokens
  else .ok k

/-- The last stage of `allocate_slots`: hash the blocks that will be full. -/
def commitBlocks (k : KVCacheManager κ) (request : RequestView κ) (args : AllocateSlotsArgs)
    (computed : Nat) : Except PyError (KVCacheManager κ) :=
  if k.enableCaching = false ∨ args.delayCacheBlocks = true then .ok k
  else k.cacheBlocks request (min (min computed k.maxModelLen + args.numNewTokens) request.numTokens)

/-- The admission gate of `allocate_slots`: the whole sequence must fit. -/
def fullSequenceFits (k : KVCacheManager κ) (request : RequestView κ) (args : AllocateSlotsArgs) :
    Except PyError Bool :=
  if args.fullSequenceMustFit then do
    let need ← k.getNumBlocksToAllocate request.requestId (min request.numTokens k.maxModelLen)
      args.newComputedBlocks
      (min (request.numComputedTokens + args.numNewComputedTokens + args.numExternalComputedTokens)
        k.maxModelLen) true
    .ok (decide ((need : Int) ≤ k.blockPool.getNumFreeBlocks))
  else .ok true

/-- `allocate_slots`: `none` when there are not enough free blocks. -/
def allocateSlots (k : KVCacheManager κ) (request : RequestView κ) (args : AllocateSlotsArgs) :
    Except PyError (Option (List (List Nat)) × KVCacheManager κ) :=
  if args.numNewTokens = 0 ∧ args.numExternalComputedTokens = 0 then
    .error (.valueError
      "num_new_tokens must be greater than 0 when there are no external computed tokens")
  else do
    let computed :=
      request.numComputedTokens + args.numNewComputedTokens + args.numExternalComputedTokens
    let fits ← k.fullSequenceFits request args
    if fits = false then .ok (none, k)
    else do
      let k ← k.removeSkippedBlocks request.requestId (min computed k.maxModelLen)
      let numTokens := k.numTokensNeedSlot computed args
      let need ←
        k.getNumBlocksToAllocate request.requestId numTokens args.newComputedBlocks computed false
      if k.blockPool.getNumFreeBlocks < need then .ok (none, k)
      else do
        let k ← k.addComputedBlocks request args
        let (newBlocks, k) ← k.allocateNewBlocks request.requestId numTokens
        let k ← k.commitBlocks request args computed
        .ok (some newBlocks, k)

def free (k : KVCacheManager κ) (rid : ReqId) : Except PyError (KVCacheManager κ) :=
  k.forManagers fun m pool => m.free pool rid

def evictBlocks (k : KVCacheManager κ) (blockIds : List Nat) :
    Except PyError (KVCacheManager κ) := do
  let blockPool ← k.blockPool.evictBlocks blockIds
  .ok { k with blockPool := blockPool }

def resetPrefixCache (k : KVCacheManager κ) : Bool × KVCacheManager κ :=
  let (ok, blockPool) := k.blockPool.resetPrefixCache
  (ok, { k with blockPool := blockPool })

end KVCacheManager

end EldrServing.KVCache
