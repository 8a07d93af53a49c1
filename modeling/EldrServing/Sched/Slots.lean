import EldrServing.KVCache.Slots
import EldrServing.Sched.DelayedFree
import EldrServing.Sched.UnderWay

/-!
# The slots of the scheduled tokens

Where no request loads KV from another engine, the table of a running request begins with its
prefix hits, covers its computed and scheduled tokens, and lists real blocks behind the computed
ones. These own blocks stand at one position over all tables, so the positions that a step
computes are written to slots that nothing else uses.
-/

namespace EldrServing.Sched

set_option autoImplicit false
set_option linter.unusedSectionVars false

open Engine KVCache Nixl Relation

variable {κ : Type} [DecidableEq κ]

/-! ### Requests whose KV is computed here -/

def LocalParams (params : Option KVTransferParams) : Prop :=
  ∀ p, params = some p → p.doRemotePrefill = false ∧
    (p.doRemoteDecode = true → p.remoteBlockIds = [] ∨ p.remote = none)

structure LocalRecord (connected : Bool) (q : Request) : Prop where
  notLoading : q.status ≠ .waitingForRemoteKvs
  waits : q.isFinished = false → q.status ≠ .running → q.numComputedTokens = 0
  params : q.isFinished = false → connected = true → LocalParams q.kvTransferParams

/-! ### The invariant -/

/-- The number of entries that the table of `r` in group `g` took from its last prefix hit. -/
def hitCount (s : Scheduler κ) (g : Nat) (r : ReqId) : Nat := ((s.hitBlocks r)[g]?.getD []).length

/-- The tables of one request, of which `scheduled` tokens take part in the step being built. -/
structure RequestSlots (s : Scheduler κ) (scheduled : Nat) (r : ReqId) : Prop where
  record : ∀ q, s.requests.get? r = some q → LocalRecord s.connector.isSome q
  waits : ∀ q, s.requests.get? r = some q → q.isFinished = false → q.status ≠ .running →
    ∀ g, blockTable s g r = []
  /-- Null entries and prefix hits lie below the computed tokens. -/
  nulls : ∀ (g : Nat) spec i, s.kvCacheManager.specs[g]? = some spec →
    (blockTable s g r)[i]? = some s.kvCacheManager.blockPool.nullBlock →
    (i + 1) * spec.blockSize ≤ s.computedTokens r
  hits : r ∈ s.running → ∀ (g : Nat) spec, s.kvCacheManager.specs[g]? = some spec →
    hitCount s g r * spec.blockSize ≤ s.computedTokens r
  covered : r ∈ s.running → ∀ (g : Nat) spec, s.kvCacheManager.specs[g]? = some spec →
    s.computedTokens r + scheduled ≤ (blockTable s g r).length * spec.blockSize

structure SlotsOk (s : Scheduler κ) (scheduled : ReqId → Nat) : Prop where
  maxModelLen : s.kvCacheManager.maxModelLen = s.config.maxModelLen
  caching : s.kvCacheManager.blockPool.enableCaching = true
  requests : ∀ r, RequestSlots s (scheduled r) r
  exclusive : Exclusive s.kvCacheManager (hitCount s)

/-- The request `a` is not touched. -/
structure Unaffected (a : ReqId) (s s' : Scheduler κ) : Prop where
  record : s'.requests.get? a = s.requests.get? a
  tables : ∀ g, blockTable s' g a = blockTable s g a
  hits : s'.hitBlocks a = s.hitBlocks a
  tokens : s'.tokens a = s.tokens a
  running : a ∈ s'.running ↔ a ∈ s.running

structure SameCache (s s' : Scheduler κ) : Prop where
  kv : SameConfig s.kvCacheManager s'.kvCacheManager
  setup : SameSetup s s'

section Frame

variable {s s' : Scheduler κ} {scheduled scheduled' : ReqId → Nat} {a r : ReqId} {n : Nat}

end Frame

/-! ### Steps -/

/-- The tokens of the request in the step being built. -/
def scheduledOf (st : StepState) (r : ReqId) : Nat := st.numScheduledTokens.getD r 0

/-- The scheduler `t` after the waiting request `r` took part in the step, with the cache manager
`kv` and the prefix `m`. -/
structure Starts (s t : Scheduler κ) (r : ReqId) (kv : KVCacheManager κ) (q : Request)
    (m : Scheduler.PrefixMatch) : Prop where
  kv : t.kvCacheManager = kv
  setup : SameSetup s t
  record : ∃ q', t.requests.get? r = some q' ∧ q'.status = .running ∧
    q'.numComputedTokens = m.numComputedTokens ∧
    SameTransfer q.kvTransferParams q'.kvTransferParams ∧ q'.allTokenIds = q.allTokenIds
  hits : t.hitBlocks r = m.newComputedBlocks
  tokens : t.tokens r = q.allTokenIds
  running : r ∈ t.running
  others : ∀ a, a ≠ r → t.requests.get? a = s.requests.get? a ∧ t.hitBlocks a = s.hitBlocks a ∧
    t.tokens a = s.tokens a ∧ (a ∈ t.running ↔ a ∈ s.running)

def Fits (s : Scheduler κ) : Prop :=
  ∀ r q, s.requests.get? r = some q → q.isFinished = false → q.numTokens ≤ s.config.maxModelLen

/-- The request `r` is gone, or finished with its blocks kept. -/
structure Ending (r : ReqId) (s s' : Scheduler κ) : Prop where
  cache : SameCache s s'
  others : ∀ a, a ≠ r → Unaffected a s s'
  hits : s'.hitBlocks r = s.hitBlocks r
  notRunning : r ∉ s'.running
  ends : (s'.requests.get? r = none ∧ ∀ g, blockTable s' g r = []) ∨
    ∃ q', s'.requests.get? r = some q' ∧ q'.isFinished = true ∧
      q'.numComputedTokens = s.computedTokens r ∧
      Windowed s.kvCacheManager s'.kvCacheManager r (s.computedTokens r)

/-- The request `r` gets a token and goes on. -/
structure Answers (r : ReqId) (s s' : Scheduler κ) : Prop where
  cache : SameCache s s'
  others : ∀ a, a ≠ r → Unaffected a s s'
  tables : ∀ g, blockTable s' g r = blockTable s g r
  hits : s'.hitBlocks r = s.hitBlocks r
  running : r ∈ s'.running ↔ r ∈ s.running
  record : ∃ q q', s.requests.get? r = some q ∧ s'.requests.get? r = some q' ∧
    q'.numComputedTokens = q.numComputedTokens ∧ q'.status = q.status ∧
    q'.kvTransferParams = q.kvTransferParams

end EldrServing.Sched
