import EldrServing.KVCache.Accounting

/-!
# The groups of the cache manager

No call adds or removes a KV-cache group.
-/

namespace EldrServing.KVCache

set_option autoImplicit false

variable {κ : Type} [DecidableEq κ] {k k' : KVCacheManager κ} {rid : ReqId}

def KVCacheManager.numGroups (k : KVCacheManager κ) : Nat := k.singleTypeManagers.length

theorem numGroups_init {numBlocks maxModelLen hashBlockSize : Nat} {caching : Bool}
    {groups : List KVCacheSpec}
    (h : KVCacheManager.init numBlocks maxModelLen hashBlockSize caching groups = .ok k) :
    k.numGroups = groups.length := by
  simp only [KVCacheManager.init, except_bind_eq_ok, Except.ok.injEq] at h
  obtain ⟨pool, -, rfl⟩ := h
  exact List.length_mapIdx

theorem numGroups_forManagers {f : SingleTypeKVCacheManager → BlockPool κ →
      Except PyError (SingleTypeKVCacheManager × BlockPool κ)}
    (h : k.forManagers f = .ok k') : k'.numGroups = k.numGroups := by
  obtain ⟨ms, pool, hmap, rfl⟩ := forManagers_ok h
  exact mapState_length hmap

theorem numGroups_removeSkippedBlocks {total : Nat}
    (h : k.removeSkippedBlocks rid total = .ok k') : k'.numGroups = k.numGroups :=
  numGroups_forManagers h

theorem numGroups_free (h : k.free rid = .ok k') : k'.numGroups = k.numGroups :=
  numGroups_forManagers h

variable {request : RequestView κ} {args : AllocateSlotsArgs}

theorem numGroups_cacheBlocks {n : Nat}
    (h : k.cacheBlocks request n = .ok k') : k'.numGroups = k.numGroups := by
  unfold KVCacheManager.cacheBlocks at h
  split at h
  · exact numGroups_forManagers h
  · obtain rfl := Except.ok.inj h
    rfl

theorem numGroups_evictBlocks {ids : List Nat} (h : k.evictBlocks ids = .ok k') :
    k'.numGroups = k.numGroups := by
  simp only [KVCacheManager.evictBlocks, except_bind_eq_ok] at h
  obtain ⟨pool, -, hok⟩ := h
  obtain rfl := Except.ok.inj hok
  rfl

theorem numGroups_addComputedBlocks (hlen : args.newComputedBlocks.length = k.numGroups)
    (h : k.addComputedBlocks request args = .ok k') : k'.numGroups = k.numGroups := by
  unfold KVCacheManager.addComputedBlocks at h
  split at h
  · simp only [KVCacheManager.allocateNewComputedBlocks, except_bind_eq_ok, Prod.exists] at h
    obtain ⟨ms, pool, hmap, hok⟩ := h
    obtain rfl := Except.ok.inj hok
    have hms := mapState_length hmap
    rw [List.length_zip, hlen] at hms
    exact hms.trans (Nat.min_self _)
  · obtain rfl := Except.ok.inj h
    rfl

theorem numGroups_allocateNewBlocks {n : Nat} {blocks : List (List Nat)}
    (h : k.allocateNewBlocks rid n = .ok (blocks, k')) : k'.numGroups = k.numGroups := by
  simp only [KVCacheManager.allocateNewBlocks, except_bind_eq_ok, Prod.exists] at h
  obtain ⟨rs, pool, hmap, hok⟩ := h
  obtain ⟨-, rfl⟩ := ok_pair_inj hok
  exact (List.length_map _).trans (mapState_length hmap)

theorem numGroups_allocateSlots
    {blocks : Option (List (List Nat))} (hlen : args.newComputedBlocks.length = k.numGroups)
    (h : k.allocateSlots request args = .ok (blocks, k')) : k'.numGroups = k.numGroups := by
  rcases allocateSlots_ok h with ⟨-, rfl⟩ | ⟨k₁, hremove, hcases⟩
  · rfl
  have hremoved := numGroups_removeSkippedBlocks hremove
  rcases hcases with ⟨-, rfl⟩ | ⟨k₂, newBlocks, k₃, -, hadd, halloc, hcommit⟩
  · exact hremoved
  have hadded := numGroups_addComputedBlocks (hlen.trans hremoved.symm) hadd
  have hallocated := numGroups_allocateNewBlocks halloc
  refine Eq.trans ?_ (hallocated.trans (hadded.trans hremoved))
  unfold KVCacheManager.commitBlocks at hcommit
  split at hcommit
  · obtain rfl := Except.ok.inj hcommit
    rfl
  · exact numGroups_cacheBlocks hcommit

end EldrServing.KVCache
