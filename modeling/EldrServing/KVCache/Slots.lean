import EldrServing.KVCache.Ownership

/-!
# The slots of a request

What a successful `allocate_slots` without external tokens does to the tables and to the hashes.
An entry behind the prefix hits of its request is its own: no other entry that is an own one
lists the same block.
-/

namespace EldrServing.KVCache

set_option autoImplicit false
set_option linter.unusedSectionVars false

open SingleTypeKVCacheManager Relation

section Allocates

variable {κ : Type} [DecidableEq κ] {k k' : KVCacheManager κ} {request : RequestView κ}
  {args : AllocateSlotsArgs}

/-- A successful `allocate_slots` without external tokens, which leads from `k` to `k'`. -/
structure Allocates (k k' : KVCacheManager κ) (request : RequestView κ)
    (args : AllocateSlotsArgs) : Prop extends SlotsIntact k k' request args where
  ok : KVOk k'
  same : SameConfig k k'
  others : ∀ g r, r ≠ request.requestId → k'.table g r = k.table g r
  covers : ∀ (g : Nat) spec, k.specs[g]? = some spec →
    k.numTokensNeedSlot (totalComputed request args) args ≤
      (k'.table g request.requestId).length * spec.blockSize
  /-- A hash in `k'` was there before, on a block that was not taken, or belongs to the position
  of the request at which the block stands. -/
  hashes : ∀ b g key, k'.ledger.hash b = some ⟨key, g⟩ →
    (k.ledger.hash b = some ⟨key, g⟩ ∧ ∀ (g' : Nat) m hits i, k.singleTypeManagers[g']? = some m →
      args.newComputedBlocks[g']? = some hits → (startTable k request args m hits).length ≤ i →
      (k'.table g' request.requestId)[i]? ≠ some b) ∨
    ∃ spec i, k.specs[g]? = some spec ∧ (k'.table g request.requestId)[i]? = some b ∧
      b ≠ k.blockPool.nullBlock ∧ (i + 1) * spec.blockSize ≤ tokensToCache k request args ∧
      keysOf k.blockPool.hashBlockSize request spec i = some key ∧
      ∀ m hits, k.singleTypeManagers[g]? = some m → args.newComputedBlocks[g]? = some hits →
        i < (startTable k request args m hits).length → k.ledger.hash b = none
  /-- The blocks that stay in a table keep their hashes. -/
  held : ∀ (g : Nat) r (i b : Nat) key, (k.table g r)[i]? = some b → (k'.table g r)[i]? = some b →
    b ≠ k.blockPool.nullBlock → k.ledger.hash b = some key → k'.ledger.hash b = some key

end Allocates

/-! ### Own entries -/

section Owns

variable {κ : Type} [DecidableEq κ] {k k' : KVCacheManager κ} {hits hits' : Nat → ReqId → Nat}

/-- A real block at an index behind the `hits g r` prefix hits of the table. -/
structure Owns (k : KVCacheManager κ) (hits : Nat → ReqId → Nat) (g : Nat) (r : ReqId)
    (i b : Nat) : Prop where
  behind : hits g r ≤ i
  entry : (k.table g r)[i]? = some b
  real : b ≠ k.blockPool.nullBlock

/-- No two own entries list the same block. -/
def Exclusive (k : KVCacheManager κ) (hits : Nat → ReqId → Nat) : Prop :=
  ∀ g r i g' r' i' b, Owns k hits g r i b → Owns k hits g' r' i' b → g = g' ∧ r = r' ∧ i = i'

end Owns

end EldrServing.KVCache
