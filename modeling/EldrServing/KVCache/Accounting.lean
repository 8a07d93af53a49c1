import EldrServing.Lib.Machine
import EldrServing.KVCache.ManagerInvariant
import Mathlib.Algebra.Order.BigOperators.Group.List
import Mathlib.Algebra.Order.Ring.Nat

/-!
# Accounting of the KV cache over whole runs

The `KVCacheManager` as a machine whose events are the calls the scheduler makes. In every
state of every run the block pool agrees with the block tables of all groups.
-/

namespace EldrServing.KVCache

set_option autoImplicit false
set_option linter.unusedSectionVars false

open SingleTypeKVCacheManager Machine

variable {κ : Type} [DecidableEq κ]

theorem take_drop_head {α : Type} {l : List α} {i n : Nat} (hi : i < l.length) (hn : 0 < n) :
    ((l.drop i).take n).head? = l[i]? := by
  obtain ⟨m, rfl⟩ : ∃ m, n = m + 1 := ⟨n - 1, by omega⟩
  rw [List.drop_eq_getElem_cons hi, List.take_succ_cons, List.head?_cons, List.getElem?_eq_getElem hi]

theorem nodup_filter_of_index {α : Type} {l : List α} {p : α → Bool}
    (h : ∀ (i j : Nat) a, l[i]? = some a → l[j]? = some a → p a = true → i = j) :
    (l.filter p).Nodup := by
  induction l with
  | nil => simp
  | cons a l ih =>
    have hrest := ih fun i j b hi hj hb => by
      have := h (i + 1) (j + 1) b (by simpa using hi) (by simpa using hj) hb
      omega
    by_cases ha : p a = true
    · rw [List.filter_cons_of_pos ha, List.nodup_cons]
      refine ⟨fun hm => ?_, hrest⟩
      obtain ⟨j, hj⟩ := List.mem_iff_getElem?.mp (List.mem_of_mem_filter hm)
      have := h 0 (j + 1) a rfl (by simpa using hj) ha
      omega
    · rwa [List.filter_cons_of_neg ha]

theorem blockHashesAt_nodup {hashes : List κ} (h : hashes.Nodup) (hbs bs : Nat) :
    (blockHashesAt hashes hbs bs).Nodup := by
  unfold blockHashesAt
  split
  · exact h.map fun a b hab => by simpa using hab
  · obtain ⟨scale, hscale⟩ : ∃ scale, scale = bs / hbs := ⟨_, rfl⟩
    simp only [← hscale]
    rcases Nat.eq_zero_or_pos scale with rfl | hpos
    · simp
    apply List.Nodup.map_on _ List.nodup_range
    intro i hi j hj hij
    have hlt : ∀ k, k ∈ List.range (hashes.length / scale) → k * scale < hashes.length := by
      intro k hk
      have := (Nat.le_div_iff_mul_le hpos).mp (List.mem_range.mp hk)
      rw [Nat.succ_mul] at this
      omega
    have hhead := congrArg List.head? hij
    rw [take_drop_head (hlt i hi) hpos, take_drop_head (hlt j hj) hpos] at hhead
    exact Nat.eq_of_mul_eq_mul_right hpos ((List.getElem?_inj (hlt i hi) h).mp hhead)

def refsOf (ms : List SingleTypeKVCacheManager) (b : Nat) : Nat := (ms.map (·.refs b)).sum

structure KVInv (k : KVCacheManager κ) : Prop where
  pool : PoolInv k.blockPool (refsOf k.singleTypeManagers)
  tables : ∀ m ∈ k.singleTypeManagers, TablesOk k.blockPool.nullBlock m

/-- The prefix hits handed to `allocate_slots` come from a lookup in the current state: in every
group they cover `num_new_computed_tokens`, and each is the null block or the block cached under
the hash of its position. -/
def LookupOk (k : KVCacheManager κ) (request : RequestView κ) (args : AllocateSlotsArgs) : Prop :=
  args.newComputedBlocks.length = k.singleTypeManagers.length ∧
  ∀ e ∈ args.newComputedBlocks.zip k.singleTypeManagers,
    e.1.length * e.2.spec.blockSize = args.numNewComputedTokens ∧
    ∀ hit ∈ e.1.zipIdx, hit.1 = k.blockPool.nullBlock ∨
      (blockHashesAt request.blockHashes k.blockPool.hashBlockSize e.2.spec.blockSize)[hit.2]?.bind
        (fun hash => k.blockPool.getCachedBlock hash e.2.kvCacheGroupId) = some hit.1

instance (k : KVCacheManager κ) (request : RequestView κ) (args : AllocateSlotsArgs) :
    Decidable (LookupOk k request args) := by
  unfold LookupOk
  infer_instance

inductive Call (κ : Type) where
  | allocateSlots (request : RequestView κ) (args : AllocateSlotsArgs)
  | removeSkippedBlocks (rid : ReqId) (totalComputedTokens : Nat)
  | cacheBlocks (request : RequestView κ) (numComputedTokens : Nat)
  | free (rid : ReqId)
  | evictBlocks (blockIds : List Nat)
  | resetPrefixCache

def call (k : KVCacheManager κ) : Call κ → Option (KVCacheManager κ)
  | .allocateSlots request args =>
    if LookupOk k request args then (k.allocateSlots request args).toOption.map Prod.snd else none
  | .removeSkippedBlocks rid total => (k.removeSkippedBlocks rid total).toOption
  | .cacheBlocks request n => (k.cacheBlocks request n).toOption
  | .free rid => (k.free rid).toOption
  | .evictBlocks ids => (k.evictBlocks ids).toOption
  | .resetPrefixCache => some k.resetPrefixCache.2

section Loops

variable {k k' : KVCacheManager κ}

omit [DecidableEq κ] in
theorem forManagers_ok {f : SingleTypeKVCacheManager → BlockPool κ →
      Except PyError (SingleTypeKVCacheManager × BlockPool κ)} (h : k.forManagers f = .ok k') :
    ∃ ms pool, mapState f k.singleTypeManagers k.blockPool = .ok (ms, pool) ∧
      k' = { k with singleTypeManagers := ms, blockPool := pool } := by
  simp only [KVCacheManager.forManagers, except_bind_eq_ok, Prod.exists] at h
  obtain ⟨ms, pool, hmap, hok⟩ := h
  exact ⟨ms, pool, hmap, (Except.ok.inj hok).symm⟩

/-- A loop over the managers keeps the invariant if each round does, whatever the others hold, and
does in every group what its rounds do. -/
theorem KVInv.of_mapState {α β : Type} {f : α → BlockPool κ → Except PyError (β × BlockPool κ)}
    (before : α → SingleTypeKVCacheManager) (after : β → SingleTypeKVCacheManager) (P : α → Prop)
    {R : α → β → Prop}
    (hf : ∀ a s t b (c : Nat → Nat), P a → PoolInv s (fun x => c x + (before a).refs x) →
      SamePool k.blockPool s → f a s = .ok (b, t) →
      R a b ∧ TablesOk k.blockPool.nullBlock (after b) ∧
        PoolInv t (fun x => c x + (after b).refs x) ∧ SamePool s t)
    {as : List α} {r : List β} {pool : BlockPool κ} (hP : ∀ a ∈ as, P a)
    (hinv : PoolInv k.blockPool (refsOf (as.map before)))
    (h : mapState f as k.blockPool = .ok (r, pool)) :
    List.Forall₂ R as r ∧ KVInv { k with singleTypeManagers := r.map after, blockPool := pool } ∧
      SamePool k.blockPool pool := by
  obtain ⟨hall, hpool, hsame⟩ := mapState_account_relates
    (I := fun s c => PoolInv s c ∧ SamePool k.blockPool s)
    (w := fun a => (before a).refs) (v := fun b => (after b).refs) (P := P)
    (R := fun a b => R a b ∧ TablesOk k.blockPool.nullBlock (after b)) (c := fun _ => 0)
    (fun a s t b c hPa hI hfa => by
      obtain ⟨hR, htab, hpool, hsame⟩ := hf a s t b c hPa hI.1 hI.2 hfa
      exact ⟨⟨hR, htab⟩, hpool, hI.2.trans hsame⟩) hP
    ⟨hinv.congr_refs fun b => by simp [refsOf, List.map_map, Function.comp_def], SamePool.refl _⟩ h
  refine ⟨hall.imp fun _ _ => And.left, ⟨?_, ?_⟩, hsame⟩
  · refine hpool.congr_refs fun b => ?_
    simp [refsOf, List.map_map, Function.comp_def]
  · intro m hm
    obtain ⟨b, hb, rfl⟩ := List.mem_map.mp hm
    obtain ⟨i, hi⟩ := List.mem_iff_getElem?.mp hb
    obtain ⟨-, -, -, htab⟩ := forall₂_getElem? hall hi
    rw [hsame.nullBlock]
    exact htab

theorem KVInv.forManagers (hk : KVInv k)
    {f : SingleTypeKVCacheManager → BlockPool κ →
      Except PyError (SingleTypeKVCacheManager × BlockPool κ)}
    (hf : ∀ m s t m' (c : Nat → Nat), PoolInv s (fun x => c x + m.refs x) → TablesOk s.nullBlock m →
      f m s = .ok (m', t) →
      TablesOk s.nullBlock m' ∧ PoolInv t (fun x => c x + m'.refs x) ∧ SamePool s t)
    (h : k.forManagers f = .ok k') : KVInv k' ∧ SamePool k.blockPool k'.blockPool := by
  obtain ⟨ms, pool, hmap, rfl⟩ := forManagers_ok h
  have hmain := KVInv.of_mapState (k := k) id id (fun m => TablesOk k.blockPool.nullBlock m)
    (R := fun _ _ => True) (fun m s t m' c hP hI hsame hfm => by
      rw [← hsame.nullBlock] at hP ⊢
      exact ⟨trivial, hf m s t m' c hI hP hfm⟩) hk.tables (by simpa using hk.pool) hmap
  simpa using hmain.2

end Loops

section Calls

variable {k k' : KVCacheManager κ} {request : RequestView κ} {args : AllocateSlotsArgs}
  {rid : ReqId}

theorem removeSkippedBlocks_spec {m m' : SingleTypeKVCacheManager} {s t : BlockPool κ} {total : Nat}
    (h : m.removeSkippedBlocks s rid total = .ok (m', t)) : m'.spec = m.spec := by
  rcases removeSkippedBlocks_ok h with ⟨-, rfl, -⟩ | ⟨n, -, rfl, -⟩ <;> rfl

theorem KVInv.removeSkippedBlocks {total : Nat} (hk : KVInv k)
    (h : k.removeSkippedBlocks rid total = .ok k') :
    KVInv k' ∧ SamePool k.blockPool k'.blockPool ∧
      k'.singleTypeManagers.map (·.spec) = k.singleTypeManagers.map (·.spec) := by
  obtain ⟨hinv, hsame⟩ := hk.forManagers (fun m s t m' c hI htab hm => by
    obtain ⟨h1, h2, h3, -⟩ := removeSkippedBlocks_account hI htab hm
    exact ⟨h1, h2, h3⟩) h
  refine ⟨hinv, hsame, ?_⟩
  obtain ⟨ms, pool, hmap, rfl⟩ := forManagers_ok h
  exact mapState_map_eq (fun m s m' t hm => removeSkippedBlocks_spec hm) hmap

theorem LookupOk.hitsValid (h : LookupOk k request args) (hk : KVInv k) :
    ∀ e ∈ args.newComputedBlocks.zip (k.singleTypeManagers.map (·.spec)),
      HitsValid k.blockPool e.2 (request.numComputedTokens + args.numNewComputedTokens) e.1 := by
  intro e he
  rw [List.zip_map_right] at he
  obtain ⟨⟨hits, m⟩, hmem, rfl⟩ := List.mem_map.mp he
  obtain ⟨hlen, hhit⟩ := h.2 _ hmem
  simp only [Prod.map_apply, id_eq] at hlen hhit ⊢
  -- a real hit carries the hash of its position
  have hhash : ∀ i b : Nat, hits[i]? = some b → b ≠ k.blockPool.nullBlock → ∃ hash,
      (blockHashesAt request.blockHashes k.blockPool.hashBlockSize m.spec.blockSize)[i]? =
        some hash ∧ (k.blockPool.blocks b).blockHash = some ⟨hash, m.kvCacheGroupId⟩ := by
    intro i b hi hb
    have := (hhit (b, i) (List.mem_zipIdx_iff_getElem?.mpr hi)).resolve_left hb
    obtain ⟨hash, hget, hcached⟩ := Option.bind_eq_some_iff.mp this
    exact ⟨hash, hget, (hk.pool.hash_iff _ _).mpr
      (BlockHashToBlockMap.stored_of_getOneBlock hcached)⟩
  refine ⟨?_, ?_, by omega⟩
  · intro b hb
    obtain ⟨i, hi⟩ := List.mem_iff_getElem?.mp hb
    by_cases hnull : b = k.blockPool.nullBlock
    · exact hnull ▸ hk.pool.null_lt
    · obtain ⟨hash, -, hbh⟩ := hhash i b hi hnull
      exact hk.pool.hash_lt b (by simp [hbh])
  · have hnd := blockHashesAt_nodup request.nodup k.blockPool.hashBlockSize m.spec.blockSize
    apply nodup_filter_of_index
    intro i j b hi hj hb
    have hnull : b ≠ k.blockPool.nullBlock := by simpa using hb
    obtain ⟨hash, hgi, hbi⟩ := hhash i b hi hnull
    obtain ⟨hash', hgj, hbj⟩ := hhash j b hj hnull
    have heq : hash = hash' := by
      rw [hbi, Option.some.injEq, BlockHashWithGroupId.mk.injEq] at hbj
      exact hbj.1
    subst heq
    exact (List.getElem?_inj (List.getElem?_eq_some_iff.mp hgi).1 hnd).mp (hgi.trans hgj.symm)

omit [DecidableEq κ] in
theorem hitsValid_congr {p p' : BlockPool κ} {spec : KVCacheSpec} {loc : Nat} {blocks : List Nat}
    (h : HitsValid p spec loc blocks) (hsame : SamePool p p') : HitsValid p' spec loc blocks :=
  ⟨by rw [hsame.numGpuBlocks]; exact h.lt, by rw [hsame.nullBlock]; exact h.nodup, h.length_le⟩

theorem KVInv.allocateNewComputedBlocks {hits : List (List Nat)} {loc ext : Nat} (hk : KVInv k)
    (hlen : hits.length = k.singleTypeManagers.length)
    (hhits : ∀ e ∈ hits.zip (k.singleTypeManagers.map (·.spec)), HitsValid k.blockPool e.2 loc e.1)
    (h : k.allocateNewComputedBlocks rid hits loc ext = .ok k') :
    KVInv k' ∧ SamePool k.blockPool k'.blockPool := by
  simp only [KVCacheManager.allocateNewComputedBlocks, except_bind_eq_ok, Prod.exists] at h
  obtain ⟨ms, pool, hmap, hok⟩ := h
  obtain rfl := Except.ok.inj hok
  have hsnd : (hits.zip k.singleTypeManagers).map Prod.snd = k.singleTypeManagers :=
    List.map_snd_zip (by omega)
  have hmain := KVInv.of_mapState (k := k) Prod.snd id (R := fun _ _ => True)
    (fun e => TablesOk k.blockPool.nullBlock e.2 ∧ HitsValid k.blockPool e.2.spec loc e.1)
    (fun e s t m' c hP hI hsame hf => by
      have hvalid := hitsValid_congr hP.2 hsame
      rw [← hsame.nullBlock] at hP ⊢
      exact ⟨trivial, allocateNewComputedBlocks_account hI hP.1 hvalid hf⟩)
    (fun e he => by
      refine ⟨hk.tables e.2 (List.of_mem_zip he).2, hhits (e.1, e.2.spec) ?_⟩
      rw [List.zip_map_right]
      exact List.mem_map.mpr ⟨e, he, rfl⟩)
    (by rw [hsnd]; exact hk.pool) hmap
  simpa using hmain.2

theorem KVInv.allocateNewBlocks {numTokens : Nat} {newBlocks : List (List Nat)} (hk : KVInv k)
    (h : k.allocateNewBlocks rid numTokens = .ok (newBlocks, k')) :
    KVInv k' ∧ SamePool k.blockPool k'.blockPool := by
  simp only [KVCacheManager.allocateNewBlocks, except_bind_eq_ok, Prod.exists] at h
  obtain ⟨rs, pool, hmap, hok⟩ := h
  obtain ⟨-, rfl⟩ := ok_pair_inj hok
  exact (KVInv.of_mapState (k := k) id Prod.snd (fun m => TablesOk k.blockPool.nullBlock m)
    (R := fun _ _ => True) (fun m s t r c hP hI hsame hf => by
      rw [← hsame.nullBlock] at hP ⊢
      exact ⟨trivial, allocateNewBlocks_account hI hP hf⟩) hk.tables (by simpa using hk.pool) hmap).2

theorem KVInv.cacheBlocks {n : Nat} (hk : KVInv k) (h : k.cacheBlocks request n = .ok k') :
    KVInv k' ∧ SamePool k.blockPool k'.blockPool := by
  unfold KVCacheManager.cacheBlocks at h
  split at h
  · exact hk.forManagers (fun m s t m' c hI htab hm => cacheBlocks_account hI htab hm) h
  · obtain rfl := Except.ok.inj h
    exact ⟨hk, SamePool.refl _⟩

theorem allocateSlots_ok
    {blocks : Option (List (List Nat))} (h : k.allocateSlots request args = .ok (blocks, k')) :
    (blocks = none ∧ k' = k) ∨
    ∃ k₁, k.removeSkippedBlocks request.requestId
        (min (request.numComputedTokens + args.numNewComputedTokens +
          args.numExternalComputedTokens) k.maxModelLen) = .ok k₁ ∧
      ((blocks = none ∧ k' = k₁) ∨
        ∃ k₂ newBlocks k₃, blocks = some newBlocks ∧
          k₁.addComputedBlocks request args = .ok k₂ ∧
          k₂.allocateNewBlocks request.requestId (k₁.numTokensNeedSlot
            (request.numComputedTokens + args.numNewComputedTokens +
              args.numExternalComputedTokens) args) = .ok (newBlocks, k₃) ∧
          k₃.commitBlocks request args (request.numComputedTokens + args.numNewComputedTokens +
            args.numExternalComputedTokens) = .ok k') := by
  unfold KVCacheManager.allocateSlots at h
  split at h
  · cases h
  simp only [except_bind_eq_ok] at h
  obtain ⟨fits, -, h⟩ := h
  split at h
  · obtain ⟨rfl, rfl⟩ := ok_pair_inj h
    exact .inl ⟨rfl, rfl⟩
  simp only [except_bind_eq_ok] at h
  obtain ⟨k₁, hremove, need, -, h⟩ := h
  refine .inr ⟨k₁, hremove, ?_⟩
  split at h
  · obtain ⟨rfl, rfl⟩ := ok_pair_inj h
    exact .inl ⟨rfl, rfl⟩
  simp only [except_bind_eq_ok, Prod.exists] at h
  obtain ⟨k₂, hadd, newBlocks, k₃, halloc, k₄, hcommit, hok⟩ := h
  obtain ⟨rfl, rfl⟩ := ok_pair_inj hok
  exact .inr ⟨k₂, newBlocks, k₃, rfl, hadd, halloc, hcommit⟩

theorem KVInv.allocateSlots {r : Option (List (List Nat))} (hk : KVInv k)
    (hlookup : LookupOk k request args) (h : k.allocateSlots request args = .ok (r, k')) :
    KVInv k' := by
  rcases allocateSlots_ok h with ⟨-, rfl⟩ | ⟨k₁, hremove, hcases⟩
  · exact hk
  obtain ⟨hk₁, hsame₁, hspec⟩ := hk.removeSkippedBlocks hremove
  rcases hcases with ⟨-, rfl⟩ | ⟨k₂, newBlocks, k₃, -, hadd, halloc, hcommit⟩
  · exact hk₁
  have hk₂ : KVInv k₂ := by
    unfold KVCacheManager.addComputedBlocks at hadd
    split at hadd
    · refine (hk₁.allocateNewComputedBlocks ?_ ?_ hadd).1
      · have := congrArg List.length hspec
        simpa using hlookup.1.trans (by simpa using this.symm)
      · intro e he
        rw [hspec] at he
        exact hitsValid_congr (hlookup.hitsValid hk e he) hsame₁
    · obtain rfl := Except.ok.inj hadd
      exact hk₁
  have hk₃ := (hk₂.allocateNewBlocks halloc).1
  unfold KVCacheManager.commitBlocks at hcommit
  split at hcommit
  · obtain rfl := Except.ok.inj hcommit
    exact hk₃
  · exact (hk₃.cacheBlocks hcommit).1

theorem KVInv.free (hk : KVInv k) (h : k.free rid = .ok k') : KVInv k' :=
  (hk.forManagers (fun m s t m' c hI htab hm => by
    obtain ⟨h1, h2, h3, -⟩ := free_account hI htab hm
    exact ⟨h1, h2, h3⟩) h).1

theorem KVInv.evictBlocks {ids : List Nat} (hk : KVInv k) (h : k.evictBlocks ids = .ok k') :
    KVInv k' := by
  simp only [KVCacheManager.evictBlocks, except_bind_eq_ok] at h
  obtain ⟨pool, hpool, hok⟩ := h
  obtain rfl := Except.ok.inj hok
  obtain ⟨hinv, hsame, -⟩ := hk.pool.evictBlocks_ok hpool
  refine ⟨hinv, ?_⟩
  intro m hm
  rw [hsame.nullBlock]
  exact hk.tables m hm

theorem KVInv.resetPrefixCache (hk : KVInv k) : KVInv k.resetPrefixCache.2 := by
  refine ⟨hk.pool.resetPrefixCache, ?_⟩
  intro m hm
  change TablesOk k.blockPool.resetPrefixCache.2.nullBlock m
  rw [(PoolInv.resetPrefixCache_same k.blockPool).nullBlock]
  exact hk.tables m hm

theorem KVInv.call {c : Call κ} (hk : KVInv k) (h : call k c = some k') : KVInv k' := by
  cases c with
  | allocateSlots request args =>
    simp only [KVCache.call] at h
    split at h
    · rename_i hlookup
      obtain ⟨⟨r, k₁⟩, hr, rfl⟩ := Option.map_eq_some_iff.mp h
      exact hk.allocateSlots hlookup (toOption_eq_some.mp hr)
    · cases h
  | removeSkippedBlocks rid total => exact (hk.removeSkippedBlocks (toOption_eq_some.mp h)).1
  | cacheBlocks request n => exact (hk.cacheBlocks (toOption_eq_some.mp h)).1
  | free rid => exact hk.free (toOption_eq_some.mp h)
  | evictBlocks ids => exact hk.evictBlocks (toOption_eq_some.mp h)
  | resetPrefixCache =>
    obtain rfl := Option.some.inj h
    exact hk.resetPrefixCache

theorem KVInv.init {numBlocks maxModelLen hashBlockSize : Nat} {caching : Bool}
    {groups : List KVCacheSpec}
    (h : KVCacheManager.init numBlocks maxModelLen hashBlockSize caching groups = .ok k) :
    KVInv k := by
  simp only [KVCacheManager.init, except_bind_eq_ok] at h
  obtain ⟨pool, hpool, hok⟩ := h
  obtain rfl := Except.ok.inj hok
  have hnil : ∀ m ∈ groups.mapIdx fun i spec => (⟨spec, i, .empty, .empty⟩ :
      SingleTypeKVCacheManager), m.reqToBlocks = .empty := by
    intro m hm
    obtain ⟨i, hi, rfl⟩ := List.mem_mapIdx.mp hm
    rfl
  refine ⟨(PoolInv.init _ _ _ hpool).1.congr_refs ?_, ?_⟩
  · intro b
    refine List.sum_eq_zero ?_
    intro n hn
    obtain ⟨m, hm, rfl⟩ := List.mem_map.mp hn
    simp [refs, hnil m hm, Dict.sumBy, Dict.empty]
  · intro m hm rid
    simp [blocksOf, hnil m hm, Dict.getD]

end Calls

/-- The block pool agrees with the block tables of the requests. -/
structure Accounting (k : KVCacheManager κ) : Prop where
  /-- The reference count of a block is the number of positions it has in the tables. -/
  refCnt_eq : ∀ b, b ≠ k.blockPool.nullBlock →
    (k.blockPool.blocks b).refCnt = refsOf k.singleTypeManagers b
  /-- The queue lists each unreferenced block once, and nothing else. -/
  free_blocks : ∃ ids : List Nat,
    k.blockPool.freeBlockQueue.getAllFreeBlocks k.blockPool.numGpuBlocks =
      .ok (ids.map Node.block) ∧
    ids.Nodup ∧ k.blockPool.getNumFreeBlocks = ids.length ∧
    ∀ b, b ∈ ids ↔ b ≠ k.blockPool.nullBlock ∧ b < k.blockPool.numGpuBlocks ∧
      (k.blockPool.blocks b).refCnt = 0
  hash_iff : ∀ b key, (k.blockPool.blocks b).blockHash = some key ↔
    k.blockPool.cachedBlockHashToBlock.Stored key b
  /-- The null block is not cached, and no allocation or lookup returns it. -/
  null_unused : (k.blockPool.blocks k.blockPool.nullBlock).blockHash = none ∧
    (∀ hash gid, k.blockPool.getCachedBlock hash gid ≠ some k.blockPool.nullBlock) ∧
    ∀ (n : Nat) bs pool, k.blockPool.getNewBlocks n = .ok (bs, pool) → k.blockPool.nullBlock ∉ bs
  /-- A reset succeeds only if no request holds a block, and leaves no hash. -/
  reset : k.resetPrefixCache.1 = true →
    (∀ m ∈ k.singleTypeManagers, ∀ rid, ∀ b ∈ m.blocksOf rid, b = k.blockPool.nullBlock) ∧
    (∀ b, (k.resetPrefixCache.2.blockPool.blocks b).blockHash = none) ∧
    ∀ key b, ¬ k.resetPrefixCache.2.blockPool.cachedBlockHashToBlock.Stored key b

theorem refs_le_refsOf {ms : List SingleTypeKVCacheManager} {m : SingleTypeKVCacheManager}
    (hm : m ∈ ms) (b : Nat) : m.refs b ≤ refsOf ms b :=
  List.le_sum_of_mem (List.mem_map.mpr ⟨m, hm, rfl⟩)

theorem KVInv.accounting {k : KVCacheManager κ} (hk : KVInv k) : Accounting k := by
  refine ⟨hk.pool.refCnt_eq, ?_, hk.pool.hash_iff, ⟨hk.pool.null_hash, ?_, ?_⟩, ?_⟩
  · obtain ⟨ids, hthr, hids⟩ := hk.pool.free
    have hlen : ids.length < k.blockPool.numGpuBlocks := by
      have hnd : (k.blockPool.nullBlock :: ids).Nodup :=
        List.nodup_cons.mpr ⟨fun hm => ((hids _).mp hm).1 rfl, hthr.nodup⟩
      have hsub : (k.blockPool.nullBlock :: ids) ⊆ List.range k.blockPool.numGpuBlocks := by
        intro b hb
        rw [List.mem_range]
        rcases List.mem_cons.mp hb with rfl | hb
        · exact hk.pool.null_lt
        · exact ((hids b).mp hb).2.1
      have := (List.subperm_of_subset hnd hsub).length_le
      simp only [List.length_cons, List.length_range] at this
      omega
    refine ⟨ids, hthr.getAllFreeBlocks_ok hlen, hthr.nodup, hthr.length_eq, ?_⟩
    intro b
    rw [hids b]
    refine and_congr_right fun hb => and_congr_right fun _ => ?_
    rw [hk.pool.refCnt_eq b hb]
    omega
  · intro hash gid hget
    have := (hk.pool.hash_iff _ _).mpr (BlockHashToBlockMap.stored_of_getOneBlock hget)
    rw [hk.pool.null_hash] at this
    cases this
  · intro n bs pool hget hm
    obtain ⟨-, hnew⟩ := hk.pool.getNewBlocks_ok (Int.natCast_nonneg n) hget
    exact (hnew.fresh _ hm).1 rfl
  · intro hreset
    have hclear : ∀ b, k.resetPrefixCache.2.blockPool.hashOf b = none := by
      intro b
      have := PoolInv.resetPrefixCache_hashOf k.blockPool b
      change k.blockPool.resetPrefixCache.1 = true at hreset
      rwa [hreset, if_pos rfl] at this
    refine ⟨?_, hclear, ?_⟩
    · intro m hm rid b hb
      by_contra hnull
      have hzero := hk.pool.refs_eq_zero_of_reset hreset hnull
      have := List.count_pos_iff.mpr hb
      have := count_le_refs m rid b
      have := refs_le_refsOf hm b
      omega
    · intro key b hs
      have := (hk.resetPrefixCache.pool.hash_iff b key).mpr hs
      rw [show (k.resetPrefixCache.2.blockPool.blocks b).blockHash = none from hclear b] at this
      cases this

/-- In every state that the calls of the scheduler can lead to, the pool is accounted for. -/
theorem reachable_accounting {numBlocks maxModelLen hashBlockSize : Nat} {caching : Bool}
    {groups : List KVCacheSpec} {k₀ k : KVCacheManager κ}
    (hinit : KVCacheManager.init numBlocks maxModelLen hashBlockSize caching groups = .ok k₀)
    (hreach : Reachable call k₀ k) : Accounting k :=
  (hreach.invariant (KVInv.init hinit) fun _ _ _ hs hcall => KVInv.call hs hcall).accounting

def unitGroup : KVCacheSpec := ⟨1, .fullAttention, none, Nat.one_pos, by simp⟩

def twoTokens : RequestView Nat := ⟨0, 0, 2, [7, 8], by decide⟩

theorem reachable_accounting_two_tokens : ∃ k₀ k : KVCacheManager Nat,
    KVCacheManager.init 4 8 1 true [unitGroup] = .ok k₀ ∧
    exec call k₀ [.allocateSlots twoTokens ⟨2, 0, [[]], 0, 0, false, true⟩] = some k ∧
    Accounting k := by
  have hsome : ((KVCacheManager.init 4 8 1 true [unitGroup]).toOption.bind fun k₀ =>
    exec call k₀ [.allocateSlots twoTokens ⟨2, 0, [[]], 0, 0, false, true⟩]).isSome = true := by
    decide
  obtain ⟨k, hk⟩ := Option.isSome_iff_exists.mp hsome
  obtain ⟨k₀, hk₀, hrun⟩ := Option.bind_eq_some_iff.mp hk
  have hinit := toOption_eq_some.mp hk₀
  exact ⟨k₀, k, hinit, hrun, reachable_accounting hinit ⟨_, hrun⟩⟩

end EldrServing.KVCache
