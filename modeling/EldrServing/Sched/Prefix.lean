import EldrServing.Engine.Request
import EldrServing.KVCache.Accounting

/-!
# Prefix hashes and prefix lookup

What the scheduler needs to know of block hashing and of `find_longest_cache_hit`: the hash of
a full block stands for the tokens up to its end, and a lookup returns cached blocks of the
request's own prefix.
-/

namespace EldrServing.Sched

set_option autoImplicit false
set_option linter.unusedSectionVars false

open Engine KVCache

structure PrefixHasher (κ : Type) where
  hashBlockSize : Nat
  hashBlockSize_pos : 0 < hashBlockSize
  hash : List TokenId → κ
  injective : Function.Injective hash

namespace PrefixHasher

variable {κ : Type} (H : PrefixHasher κ)

/-- The hashes of the full blocks of `tokens`, each of the prefix up to the block's end. -/
def blockHashes (tokens : List TokenId) : List κ :=
  (List.range (tokens.length / H.hashBlockSize)).map fun i =>
    H.hash (tokens.take ((i + 1) * H.hashBlockSize))

theorem blockHashes_nodup (tokens : List TokenId) : (H.blockHashes tokens).Nodup := by
  refine List.Nodup.map_on ?_ List.nodup_range
  intro i hi j hj hij
  have hlen := congrArg List.length (H.injective hij)
  have hfits : ∀ k ∈ List.range (tokens.length / H.hashBlockSize),
      (k + 1) * H.hashBlockSize ≤ tokens.length := by
    intro k hk
    exact (Nat.le_div_iff_mul_le H.hashBlockSize_pos).mp (List.mem_range.mp hk)
  rw [List.length_take, List.length_take, Nat.min_eq_left (hfits i hi),
    Nat.min_eq_left (hfits j hj)] at hlen
  have := Nat.eq_of_mul_eq_mul_right H.hashBlockSize_pos hlen
  omega

def view (q : Request) : RequestView κ where
  requestId := q.requestId
  numComputedTokens := q.numComputedTokens
  numTokens := q.numTokens
  blockHashes := H.blockHashes q.allTokenIds
  nodup := H.blockHashes_nodup q.allTokenIds

end PrefixHasher

section Lookup

variable {κ : Type} [DecidableEq κ]

/-- The hits of one group for the hashes `hashes`: null, or cached under the hash of their
position; in a full-attention group none is null. -/
def HitsOk (k : KVCacheManager κ) (hashes : List κ) (m : SingleTypeKVCacheManager)
    (hits : List Nat) : Prop :=
  (∀ hit ∈ hits.zipIdx, hit.1 = k.blockPool.nullBlock ∨
    (blockHashesAt hashes k.blockPool.hashBlockSize m.spec.blockSize)[hit.2]?.bind
      (fun hash => k.blockPool.getCachedBlock hash m.kvCacheGroupId) = some hit.1) ∧
  (m.spec.attention = .fullAttention → ∀ i b : Nat, hits[i]? = some b →
    (blockHashesAt hashes k.blockPool.hashBlockSize m.spec.blockSize)[i]?.bind
      (fun hash => k.blockPool.getCachedBlock hash m.kvCacheGroupId) = some b)

/-- `find_longest_cache_hit` of a cache coordinator: the hits of each group, and how many
tokens they cover. -/
structure PrefixLookup (κ : Type) [DecidableEq κ] where
  findLongestCacheHit : KVCacheManager κ → List κ → Nat → List (List Nat) × Nat
  length_eq : ∀ k hashes n,
    (findLongestCacheHit k hashes n).1.length = k.singleTypeManagers.length
  le_max : ∀ k hashes n, (findLongestCacheHit k hashes n).2 ≤ n
  covers : ∀ k hashes n, ∀ e ∈ (findLongestCacheHit k hashes n).1.zip k.singleTypeManagers,
    e.1.length * e.2.spec.blockSize = (findLongestCacheHit k hashes n).2 ∧
      HitsOk k hashes e.2 e.1

/-- The loop of `FullAttentionManager.find_longest_cache_hit` over the hashes. -/
def hitLoop (pool : BlockPool κ) (groupId : Nat) : List (BlockHash κ) → List Nat
  | [] => []
  | hash :: hashes =>
    match pool.getCachedBlock hash groupId with
    | some b => b :: hitLoop pool groupId hashes
    | none => []

theorem hitLoop_getElem? (pool : BlockPool κ) (groupId : Nat) (hashes : List (BlockHash κ))
    (i b : Nat) (h : (hitLoop pool groupId hashes)[i]? = some b) :
    hashes[i]?.bind (fun hash => pool.getCachedBlock hash groupId) = some b := by
  induction hashes generalizing i with
  | nil => simp [hitLoop] at h
  | cons hash hashes ih =>
    unfold hitLoop at h
    split at h
    · next c hc =>
      cases i with
      | zero => simpa [hc] using h
      | succ i => simpa using ih i (by simpa using h)
    · simp at h

theorem hitLoop_length_le (pool : BlockPool κ) (groupId : Nat) (hashes : List (BlockHash κ)) :
    (hitLoop pool groupId hashes).length ≤ hashes.length := by
  induction hashes with
  | nil => simp [hitLoop]
  | cons hash hashes ih =>
    unfold hitLoop
    split
    · simpa using ih
    · simp

/-- The lookup of `UnitaryKVCacheCoordinator` over a full-attention group. -/
def findUnitary (k : KVCacheManager κ) (hashes : List κ) (maxLength : Nat) :
    List (List Nat) × Nat :=
  match k.singleTypeManagers with
  | [m] =>
    let hits := hitLoop k.blockPool m.kvCacheGroupId
      ((blockHashesAt hashes k.blockPool.hashBlockSize m.spec.blockSize).take
        (maxLength / m.spec.blockSize))
    ([hits], hits.length * m.spec.blockSize)
  | ms => (ms.map fun _ => [], 0)

/-- One full-attention group, as the launcher configures the workers. -/
def unitaryLookup : PrefixLookup κ where
  findLongestCacheHit := findUnitary
  length_eq := by
    intro k hashes n
    unfold findUnitary
    split
    · next hm => simp [hm]
    · simp
  le_max := by
    intro k hashes n
    unfold findUnitary
    split
    · next m _ =>
      refine le_trans (Nat.mul_le_mul_right _ ?_) (Nat.div_mul_le_self n m.spec.blockSize)
      exact (hitLoop_length_le _ _ _).trans (List.length_take_le _ _)
    · exact Nat.zero_le n
  covers := by
    intro k hashes n e he
    unfold findUnitary at he ⊢
    split at he
    · next m hm =>
      rw [hm] at he
      obtain rfl := List.mem_singleton.mp he
      have hfind : ∀ i b : Nat, (hitLoop k.blockPool m.kvCacheGroupId
          ((blockHashesAt hashes k.blockPool.hashBlockSize m.spec.blockSize).take
            (n / m.spec.blockSize)))[i]? = some b →
          (blockHashesAt hashes k.blockPool.hashBlockSize m.spec.blockSize)[i]?.bind
            (fun hash => k.blockPool.getCachedBlock hash m.kvCacheGroupId) = some b := by
        intro i b hb
        have := hitLoop_getElem? _ _ _ i b hb
        rw [List.getElem?_take] at this
        split at this
        · exact this
        · cases this
      refine ⟨by simp, fun hit hhit => .inr ?_, fun _ => hfind⟩
      exact hfind hit.2 hit.1 (List.mem_zipIdx_iff_getElem?.mp hhit)
    · obtain ⟨i, hi⟩ := List.mem_iff_getElem?.mp he
      obtain ⟨hfst, -⟩ := List.getElem?_zip_eq_some.mp hi
      have hnil : e.1 = [] := by
        rw [List.getElem?_map] at hfst
        obtain ⟨_, -, h⟩ := Option.map_eq_some_iff.mp hfst
        exact h.symm
      exact ⟨by simp [hnil], by simp [hnil], by simp [hnil]⟩

end Lookup

structure CacheEnv (κ : Type) [DecidableEq κ] where
  hasher : PrefixHasher κ
  lookup : PrefixLookup κ

end EldrServing.Sched
