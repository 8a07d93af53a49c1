import EldrServing.KVCache.LedgerCalls

/-!
# Blocks of a successful allocation

After `allocate_slots` the tables of the request begin with its prefix hits, which keep their
hashes, and every block that was added stands at one position of one table. In a cache with
several groups this takes a condition: a group that takes blocks for external tokens must not
take the hits of a later group.
-/

namespace EldrServing.KVCache

set_option autoImplicit false
set_option linter.unusedSectionVars false

open SingleTypeKVCacheManager Relation Machine

variable {b : Nat}

namespace Ledger

variable {κ : Type} {null : Nat} {caching : Bool} {L L' : Ledger κ} {g g₁ : Nat} {r r₁ : ReqId}
  {n : Nat} {blocks : List Nat}

/-- Block `b` stands at index `i` in the table of `r` in group `g` and nowhere else. -/
def Sole (L : Ledger κ) (g : Nat) (r : ReqId) (i b : Nat) : Prop :=
  ∀ g' r' i', (L.table g' r')[i']? = some b → g' = g ∧ r' = r ∧ i' = i

/-- From index `n` on, the table of `r` has real blocks that no other position lists and that
are not hashed. -/
def FreshFrom (null : Nat) (caching : Bool) (L : Ledger κ) (g : Nat) (r : ReqId) (n : Nat) : Prop :=
  ∀ i b, n ≤ i → (L.table g r)[i]? = some b →
    b ≠ null ∧ L.Sole g r i b ∧ (caching = true → L.hash b = none)

theorem not_free_of_getElem? {i : Nat} (h : (L.table g r)[i]? = some b) : ¬ L.Free b :=
  fun hfree => hfree g r (List.mem_of_getElem? h)

theorem extend_entry (h : Step null caching L L' (.extend g₁ r₁ blocks)) {i : Nat}
    (hb : (L'.table g r)[i]? = some b) :
    (L.table g r)[i]? = some b ∧ b ∉ blocks ∨ g = g₁ ∧ r = r₁ ∧ (L.table g r).length ≤ i ∧
      blocks[i - (L.table g r).length]? = some b := by
  obtain ⟨hothers, htable, -, hfresh, -⟩ := h
  have hold : (L.table g r)[i]? = some b → b ∉ blocks := fun hi hmem =>
    not_free_of_getElem? hi (hfresh b hmem).2
  rcases eq_or_ne (g, r) (g₁, r₁) with heq | hne
  · obtain ⟨rfl, rfl⟩ := Prod.mk.inj heq
    rw [htable, List.getElem?_append] at hb
    split at hb
    · exact .inl ⟨hb, hold hb⟩
    · next hle => exact .inr ⟨rfl, rfl, by omega, hb⟩
  · rw [hothers g r hne] at hb
    exact .inl ⟨hb, hold hb⟩

theorem FreshFrom.extend (h : FreshFrom null caching L g r n)
    (hstep : Step null caching L L' (.extend g₁ r₁ blocks)) : FreshFrom null caching L' g r n := by
  obtain ⟨-, -, hnodup, hfresh, hkeep, hclear⟩ := id hstep
  intro i b hi hb
  rcases extend_entry hstep hb with ⟨hold, hnotin⟩ | ⟨rfl, rfl, hle, hnew⟩
  · obtain ⟨hne, hsole, hnone⟩ := h i b hi hold
    refine ⟨hne, fun g' r' i' hb' => ?_, fun hc => (hkeep b hnotin).trans (hnone hc)⟩
    rcases extend_entry hstep hb' with ⟨hold', -⟩ | ⟨-, -, -, hnew'⟩
    · exact hsole g' r' i' hold'
    · exact absurd (List.mem_of_getElem? hnew') hnotin
  · have hmem := List.mem_of_getElem? hnew
    refine ⟨(hfresh b hmem).1, fun g' r' i' hb' => ?_, fun hc => ?_⟩
    · rcases extend_entry hstep hb' with ⟨-, hnotin⟩ | ⟨rfl, rfl, hle', hnew'⟩
      · exact absurd hmem hnotin
      · have hlt := (List.getElem?_eq_some_iff.mp hnew).1
        have hidx := (List.getElem?_inj hlt hnodup).mp (hnew.trans hnew'.symm)
        exact ⟨rfl, rfl, by omega⟩
    · rw [hclear b hmem, if_pos hc]

theorem FreshFrom.hit {keys : Nat → Option (BlockHash κ)} (h : FreshFrom null caching L g r n)
    (hstep : Step null caching L L' (.hit g₁ r₁ blocks (some keys)))
    (hlen : (g, r) = (g₁, r₁) → blocks.length ≤ n) : FreshFrom null caching L' g r n := by
  obtain ⟨hhash, hothers, -, htable, hnull, hkeys⟩ := hstep
  intro i b hi hb
  rcases eq_or_ne (g, r) (g₁, r₁) with heq | hne
  · obtain ⟨rfl, rfl⟩ := Prod.mk.inj heq
    rw [htable] at hb
    have := (List.getElem?_eq_some_iff.mp hb).1
    have := hlen rfl
    omega
  · rw [hothers g r hne] at hb
    obtain ⟨hreal, hsole, hnone⟩ := h i b hi hb
    refine ⟨hreal, fun g' r' i' hb' => ?_, fun hc => hhash ▸ hnone hc⟩
    rcases eq_or_ne (g', r') (g₁, r₁) with heq' | hne'
    · obtain ⟨rfl, rfl⟩ := Prod.mk.inj heq'
      rw [htable] at hb'
      cases hcaching : caching with
      | false => exact absurd (hnull hcaching b (List.mem_of_getElem? hb')) hreal
      | true =>
        obtain ⟨key, -, hkey⟩ := hkeys keys rfl i' b hb' hreal
        rw [hnone hcaching] at hkey
        cases hkey
    · rw [hothers g' r' hne'] at hb'
      exact hsole g' r' i' hb'

theorem FreshFrom.of_length_le (h : (L.table g r).length ≤ n) : FreshFrom null caching L g r n := by
  intro i b hi hb
  have := (List.getElem?_eq_some_iff.mp hb).1
  omega

end Ledger

/-! ### What a successful allocation leaves -/

section Slots

variable {κ : Type} [DecidableEq κ] {k k' : KVCacheManager κ} {request : RequestView κ}
  {args : AllocateSlotsArgs}

def skipTable (spec : KVCacheSpec) (null total : Nat) (blocks : List Nat) : List Nat :=
  (skipLoop null (min (spec.getNumSkippedTokens total / spec.blockSize) blocks.length) blocks).2

/-- `allocate_slots` is given hits or external tokens, and the request is new to the group. -/
def AddsHits (request : RequestView κ) (args : AllocateSlotsArgs) (m : SingleTypeKVCacheManager) :
    Prop :=
  (args.newComputedBlocks.any (· ≠ []) ∨ 0 < args.numExternalComputedTokens) ∧
    m.numCachedBlock.contains request.requestId = false

instance (request : RequestView κ) (args : AllocateSlotsArgs) (m : SingleTypeKVCacheManager) :
    Decidable (AddsHits request args m) := by
  unfold AddsHits
  infer_instance

/-- What the table of the request in the group of `m` begins with after `allocate_slots`. -/
def startTable (k : KVCacheManager κ) (request : RequestView κ) (args : AllocateSlotsArgs)
    (m : SingleTypeKVCacheManager) (hits : List Nat) : List Nat :=
  if AddsHits request args m then
    hitTable m.spec k.blockPool.nullBlock (totalComputed request args) hits
  else
    skipTable m.spec k.blockPool.nullBlock (min (totalComputed request args) k.maxModelLen)
      (m.blocksOf request.requestId)

/-- The tables after a successful `allocate_slots` that leads from `k` to `k'`. -/
structure SlotsIntact (k k' : KVCacheManager κ) (request : RequestView κ)
    (args : AllocateSlotsArgs) : Prop where
  new : ∀ (g : Nat) m hits, k.singleTypeManagers[g]? = some m →
    args.newComputedBlocks[g]? = some hits → hits ≠ [] →
    AddsHits request args m ∧ m.blocksOf request.requestId = []
  begins : ∀ (g : Nat) m hits, k.singleTypeManagers[g]? = some m →
    args.newComputedBlocks[g]? = some hits →
    ∃ rest, k'.table g request.requestId = startTable k request args m hits ++ rest
  /-- The hits keep their hash and are stored under it. -/
  keeps : ∀ (g : Nat) m hits, k.singleTypeManagers[g]? = some m →
    args.newComputedBlocks[g]? = some hits →
    ∀ b ∈ hitTable m.spec k.blockPool.nullBlock (totalComputed request args) hits,
      b ≠ k.blockPool.nullBlock → ∃ key, (k.blockPool.blocks b).blockHash = some key ∧
        (k'.blockPool.blocks b).blockHash = some key ∧
        k'.blockPool.cachedBlockHashToBlock.Stored key b
  /-- A new block stands at one position over all tables. -/
  fresh : ∀ (g : Nat) m hits, k.singleTypeManagers[g]? = some m →
    args.newComputedBlocks[g]? = some hits →
    ∀ i b, (startTable k request args m hits).length ≤ i →
      (k'.table g request.requestId)[i]? = some b →
      b ≠ k.blockPool.nullBlock ∧ k'.ledger.Sole g request.requestId i b

/-- Where an earlier group places external tokens, the hits of a later one are held by another
request. -/
def HitsHeld (k : KVCacheManager κ) (request : RequestView κ) (args : AllocateSlotsArgs) : Prop :=
  ∀ (g g' : Nat) (spec spec' : KVCacheSpec) (hits : List Nat), g < g' →
    k.specs[g]? = some spec → k.specs[g']? = some spec' →
    args.newComputedBlocks[g']? = some hits →
    numExternalTokens spec (request.numComputedTokens + args.numNewComputedTokens)
        args.numExternalComputedTokens = 0 ∨
      ∀ b ∈ hitTable spec' k.blockPool.nullBlock (totalComputed request args) hits,
        b = k.blockPool.nullBlock ∨ ∃ g₀ r₀, r₀ ≠ request.requestId ∧ b ∈ k.table g₀ r₀

variable {total : Nat} {m : SingleTypeKVCacheManager} {spec : KVCacheSpec}

theorem Ledger.Path.skip_others {null : Nat} {caching : Bool} {specs : List KVCacheSpec}
    {r r' : ReqId} {L L' : Ledger κ} (hne : r' ≠ r)
    (h : Ledger.Path null caching (SkipOp specs r total) L L') (g : Nat) :
    L'.table g r' = L.table g r' := by
  refine Ledger.Path.invariant (I := fun L₁ => L₁.table g r' = L.table g r') ?_ h rfl
  rintro op L₁ L₂ ⟨g₁, spec, -, rfl⟩ ⟨-, hothers, -⟩ hI
  exact (hothers g r' fun heq => hne (Prod.mk.inj heq).2).trans hI

theorem HitsHeld.safe (h : HitsHeld k request args) {k₁ : KVCacheManager κ}
    (hskip : Calls (SkipOp k.specs request.requestId
      (min (totalComputed request args) k.maxModelLen)) k k₁) :
    HitsSafe k₁ args.newComputedBlocks (request.numComputedTokens + args.numNewComputedTokens)
      args.numExternalComputedTokens := by
  intro g g' spec spec' hits hlt hspec hspec' hhits
  rw [hskip.same.specs] at hspec hspec'
  refine (h g g' spec spec' hits hlt hspec hspec' hhits).imp_right fun hheld b hb => ?_
  rw [hskip.same.pool.nullBlock] at hb ⊢
  refine (hheld b hb).imp_right ?_
  rintro ⟨g₀, r₀, hr₀, hmem⟩ hfree
  refine hfree g₀ r₀ ?_
  rw [hskip.path.skip_others hr₀ g₀]
  exact hmem

theorem removeSkippedBlocks_keeps {m' : SingleTypeKVCacheManager} {s t : BlockPool κ}
    {r : ReqId} (h : m.removeSkippedBlocks s r total = .ok (m', t)) :
    m'.numCachedBlock = m.numCachedBlock ∧
      m'.blocksOf r = skipTable m.spec s.nullBlock total (m.blocksOf r) := by
  rcases removeSkippedBlocks_ok h with ⟨hzero, rfl, -⟩ | ⟨n, rfl, rfl, -⟩
  · refine ⟨rfl, ?_⟩
    rw [skipTable, hzero, Nat.zero_div, Nat.zero_min, skipLoop]
  · exact ⟨rfl, blocksOf_setBlocks_self m _ _⟩

theorem removeSkippedBlocks_manager {r : ReqId} (hk : KVOk k)
    (h : k.removeSkippedBlocks r total = .ok k') {g : Nat}
    (hg : k.singleTypeManagers[g]? = some m) :
    ∃ m', k'.singleTypeManagers[g]? = some m' ∧ m'.spec = m.spec ∧
      m'.numCachedBlock = m.numCachedBlock ∧
      m'.blocksOf r = skipTable m.spec k.blockPool.nullBlock total (m.blocksOf r) := by
  obtain ⟨ms, pool, hmap, rfl⟩ := forManagers_ok h
  obtain ⟨hall, -⟩ := KVInv.of_mapState (k := k) id id (fun m => TablesOk k.blockPool.nullBlock m)
    (R := fun m m' => m'.spec = m.spec ∧ m'.numCachedBlock = m.numCachedBlock ∧
      m'.blocksOf r = skipTable m.spec k.blockPool.nullBlock total (m.blocksOf r))
    (fun m s t m' c hP hI hsame hround => by
      rw [← hsame.nullBlock] at hP ⊢
      obtain ⟨htab, hpool, hsame', -⟩ := removeSkippedBlocks_account hI hP hround
      exact ⟨⟨removeSkippedBlocks_spec hround, removeSkippedBlocks_keeps hround⟩, htab, hpool,
        hsame'⟩)
    hk.tables (by simpa using hk.pool) hmap
  exact forall₂_getElem?_left hall hg

/-- Along the operations that add hits and blocks, the table of a request that had no blocks is
fresh behind its hits. -/
theorem Ledger.Path.computed_freshFrom {null g : Nat} {caching : Bool}
    {hits : List (List Nat)} {L L' : Ledger κ} {blocks : List Nat}
    (hspec : k.specs[g]? = some spec) (hblocks : hits[g]? = some blocks)
    (h : Ledger.Path null caching (ComputedOp k request true hits total) L L')
    (hL : Ledger.FreshFrom null caching L g request.requestId
    (hitTable spec k.blockPool.nullBlock total blocks).length) :
    Ledger.FreshFrom null caching L' g request.requestId
      (hitTable spec k.blockPool.nullBlock total blocks).length := by
  refine Ledger.Path.invariant (I := fun L₁ => Ledger.FreshFrom null caching L₁ g
    request.requestId (hitTable spec k.blockPool.nullBlock total blocks).length) ?_ h hL
  rintro op L₁ L₂ (⟨g₁, new, rfl⟩ | ⟨g₁, spec₁, blocks₁, hspec₁, hblocks₁, rfl⟩) hstep hI
  · exact hI.extend hstep
  · refine hI.hit hstep fun heq => ?_
    obtain ⟨rfl, -⟩ := Prod.mk.inj heq
    obtain rfl := some_unique hspec hspec₁
    obtain rfl := some_unique hblocks hblocks₁
    exact Nat.le_refl _

theorem Ledger.Path.extend_freshFrom {null n g : Nat} {caching : Bool} {r r₁ : ReqId}
    {L L' : Ledger κ} (h : Ledger.Path null caching (ExtendOp r₁) L L')
    (hL : Ledger.FreshFrom null caching L g r n) : Ledger.FreshFrom null caching L' g r n := by
  refine Ledger.Path.invariant (I := fun L₁ => Ledger.FreshFrom null caching L₁ g r n) ?_ h hL
  rintro op L₁ L₂ ⟨g₁, new, rfl⟩ hstep hI
  exact hI.extend hstep

theorem Ledger.Path.cache_keeps {null : Nat} {caching : Bool} {P : LedgerOp κ → Prop}
    {specs : List KVCacheSpec} {hbs n : Nat} {L L' : Ledger κ}
    (hP : ∀ op, P op → CacheOp specs hbs request n op) (h : Ledger.Path null caching P L L')
    {key : BlockHashWithGroupId κ} (hb : L.hash b = some key) : L'.hash b = some key := by
  refine Ledger.Path.invariant (I := fun L₁ => L₁.hash b = some key) ?_ h hb
  intro op L₁ L₂ hop hstep hI
  obtain ⟨g, spec, first, last, -, -, rfl⟩ := hP op hop
  obtain ⟨-, hkeep, hset⟩ := hstep
  rw [← hI]
  refine hkeep b ?_
  by_contra hcon
  simp only [not_or, not_forall, not_not] at hcon
  obtain ⟨⟨i, hfirst, hlast, hi⟩, hne⟩ := hcon
  obtain ⟨hnone, -⟩ := hset i b hfirst hlast hi hne
  rw [hI] at hnone
  cases hnone

theorem skipTable_eq_nil {null : Nat} {blocks : List Nat}
    (h : skipTable spec null total blocks = []) : blocks = [] := by
  rcases skipLoop_getElem? null (min (spec.getNumSkippedTokens total / spec.blockSize)
    blocks.length) 0 blocks with heq | ⟨-, hnull⟩
  · rw [← List.head?_eq_getElem?, ← List.head?_eq_getElem?] at heq
    rw [← skipTable, h] at heq
    exact List.head?_eq_none_iff.mp heq.symm
  · rw [← skipTable, h] at hnull
    cases hnull

theorem addComputedBlocks_start {k₁ : KVCacheManager κ} (hk : KVOk k)
    (hlookup : LookupOk k request args) (hheld : HitsHeld k request args)
    (hremove : k.removeSkippedBlocks request.requestId
    (min (totalComputed request args) k.maxModelLen) = .ok k₁)
    (h : k₁.addComputedBlocks request args = .ok k') {g : Nat}
    {hits : List Nat} (hg : k.singleTypeManagers[g]? = some m)
    (hhits : args.newComputedBlocks[g]? = some hits) :
    (∃ rest, k'.table g request.requestId = startTable k request args m hits ++ rest) ∧
    k'.ledger.FreshFrom k.blockPool.nullBlock k.blockPool.enableCaching g request.requestId
      (startTable k request args m hits).length ∧
    (AddsHits request args m → m.blocksOf request.requestId = []) ∧
    (¬ AddsHits request args m → hits = []) := by
  have hskip := removeSkippedBlocks_calls hk hremove
  obtain ⟨m₁, hg₁, hspec₁, hcached₁, hblocks₁⟩ := removeSkippedBlocks_manager hk hremove hg
  have htable₁ : k₁.table g request.requestId = m₁.blocksOf request.requestId := table_eq hg₁ _
  have hadded : Calls (ComputedOp k request true args.newComputedBlocks
      (totalComputed request args)) k₁ k' ∧ _ :=
    addComputedBlocks_calls hk hlookup hskip (fun _ => hheld.safe hskip) h
  obtain ⟨hcalls, -, hplaced⟩ := hadded
  have hlt := (List.getElem?_eq_some_iff.mp hg₁).1
  by_cases hadds : AddsHits request args m
  · have hnew : m₁.numCachedBlock.contains request.requestId = false := hcached₁ ▸ hadds.2
    have hstart : startTable k request args m hits =
        hitTable m.spec k.blockPool.nullBlock (totalComputed request args) hits := if_pos hadds
    have hgroup := hplaced hadds.1 g hits hlt hhits m₁ hg₁
    rw [if_neg (by rw [hnew]; exact Bool.false_ne_true), hspec₁, hskip.same.pool.nullBlock] at hgroup
    obtain ⟨hnil, rest, hrest⟩ := hgroup
    rw [hstart]
    refine ⟨⟨rest, hrest⟩, ?_, fun _ => ?_, fun hnot => absurd hadds hnot⟩
    · have hpath := hcalls.path
      rw [hskip.same.pool.nullBlock, hskip.same.pool.enableCaching] at hpath
      refine hpath.computed_freshFrom (specs_getElem? hg) hhits (.of_length_le ?_)
      change (k₁.table g request.requestId).length ≤ _
      rw [hnil]
      exact Nat.zero_le _
    · -- skipping blocks does not change the length of the table
      rw [htable₁, hblocks₁] at hnil
      exact skipTable_eq_nil hnil
  · have hstart : startTable k request args m hits = k₁.table g request.requestId := by
      rw [htable₁, hblocks₁]
      exact if_neg hadds
    have hsame : hits = [] ∧ k'.table g request.requestId = k₁.table g request.requestId := by
      by_cases hany : args.newComputedBlocks.any (· ≠ []) ∨ 0 < args.numExternalComputedTokens
      · have hknown : m₁.numCachedBlock.contains request.requestId = true := by
          rw [hcached₁]
          simpa using fun hnot => hadds ⟨hany, hnot⟩
        have hgroup := hplaced hany g hits hlt hhits m₁ hg₁
        rwa [if_pos hknown] at hgroup
      · rw [KVCacheManager.addComputedBlocks, if_neg hany] at h
        obtain rfl := Except.ok.inj h
        refine ⟨?_, rfl⟩
        by_contra hne
        exact hany (.inl (List.any_eq_true.mpr ⟨hits, List.mem_of_getElem? hhits, by simpa using hne⟩))
    rw [hstart]
    refine ⟨⟨[], ?_⟩, .of_length_le ?_, fun hnot => absurd hnot hadds, fun _ => hsame.1⟩
    · rw [List.append_nil]
      exact hsame.2
    · exact Nat.le_of_eq (congrArg List.length hsame.2)

theorem mem_hitTable_of_ne {null : Nat} {hits : List Nat}
    (hb : b ∈ hitTable spec null total hits) (hne : b ≠ null) :
    ∃ i : Nat, (hitTable spec null total hits)[i]? = some b ∧ hits[i]? = some b := by
  obtain ⟨i, hi⟩ := List.mem_iff_getElem?.mp hb
  exact ⟨i, hi, hitTable_getElem? hi hne⟩

theorem SlotsIntact.of_allocateSlots {newBlocks : List (List Nat)} (hk : KVOk k)
    (hlookup : LookupOk k request args) (hheld : HitsHeld k request args)
    (h : k.allocateSlots request args = .ok (some newBlocks, k')) :
    SlotsIntact k k' request args := by
  rcases allocateSlots_ok h with ⟨hnone, -⟩ | ⟨k₁, hremove, ⟨hnone, -⟩ |
    ⟨k₂, new, k₃, -, hadd, halloc, hcommit⟩⟩
  · cases hnone
  · cases hnone
  have hskip := removeSkippedBlocks_calls hk hremove
  have hadded : Calls (ComputedOp k request true args.newComputedBlocks
      (totalComputed request args)) k₁ k₂ ∧ _ :=
    addComputedBlocks_calls hk hlookup hskip (fun _ => hheld.safe hskip) hadd
  obtain ⟨hcomputed, hcarry, -⟩ := hadded
  have hextend := allocateNewBlocks_calls hcomputed.ok halloc
  have hcache := commitBlocks_calls hextend.ok hcommit
  have hsame₂ := hskip.same.trans hcomputed.same
  have htable := hcache.path.cache_table fun op hop => hop.2
  have hstart := fun (g : Nat) m hits (hg : k.singleTypeManagers[g]? = some m)
    (hhits : args.newComputedBlocks[g]? = some hits) =>
    addComputedBlocks_start hk hlookup hheld hremove hadd hg hhits
  refine ⟨fun g m hits hg hhits hne => ?_, fun g m hits hg hhits => ?_,
    fun g m hits hg hhits b hb hne => ?_, fun g m hits hg hhits i b hi hb => ?_⟩
  · obtain ⟨-, -, hempty, hnil⟩ := hstart g m hits hg hhits
    have hadds : AddsHits request args m := by
      by_contra hnot
      exact hne (hnil hnot)
    exact ⟨hadds, hempty hadds⟩
  · obtain ⟨⟨rest, hrest⟩, -⟩ := hstart g m hits hg hhits
    obtain ⟨more, hmore⟩ := hextend.path.extend_table g request.requestId
    refine ⟨rest ++ more, ?_⟩
    change k'.ledger.table g request.requestId = _
    rw [htable, hmore, ← List.append_assoc]
    exact congrArg (· ++ more) hrest
  · obtain ⟨i, hi, hget⟩ := mem_hitTable_of_ne hb hne
    obtain ⟨key, hkey, hhash⟩ := hlookup.hitsCarry hk (specs_getElem? hg) hhits _ i b hi hne
    have hnull₂ := hsame₂.pool.nullBlock
    obtain ⟨key₂, hkey₂, hhash₂⟩ := hcarry rfl g m.spec hits (specs_getElem? hg) hhits i b
      (by rwa [hnull₂]) (by rwa [hnull₂])
    rw [hsame₂.pool.hashBlockSize] at hkey₂
    obtain rfl := some_unique hkey hkey₂
    -- the hit is in a table, so it is not taken as a new block
    have hused : ¬ k₂.ledger.Free b := by
      obtain ⟨⟨rest, hrest⟩, -, -, hnil⟩ := hstart g m hits hg hhits
      have hadds : AddsHits request args m := by
        by_contra hnot
        rw [hnil hnot] at hget
        cases hget
      refine fun hfree => hfree g request.requestId ?_
      change b ∈ k₂.table g request.requestId
      rw [hrest, startTable, if_pos hadds]
      exact List.mem_append_left _ hb
    have hplain : Ledger.Path k₂.blockPool.nullBlock k₂.blockPool.enableCaching
        (ComputedOp k request true [] 0) k₂.ledger k₃.ledger :=
      hextend.path.mono fun op hop => .inl hop
    have hhash₃ : k₃.ledger.hash b = some ⟨key, g⟩ :=
      (hplain.keeps_used hused).2.trans hhash₂
    have hend : (k'.blockPool.blocks b).blockHash = some ⟨key, g⟩ :=
      hcache.path.cache_keeps (fun op hop => hop.2) hhash₃
    exact ⟨⟨key, g⟩, hhash, hend, (hcache.ok.pool.hash_iff _ _).mp hend⟩
  · obtain ⟨-, hfresh, -⟩ := hstart g m hits hg hhits
    have hpath := hextend.path
    rw [hsame₂.pool.nullBlock, hsame₂.pool.enableCaching] at hpath
    have hend := hpath.extend_freshFrom hfresh
    have hb₃ : (k₃.ledger.table g request.requestId)[i]? = some b := by
      rw [← htable]
      exact hb
    obtain ⟨hne, hsole, -⟩ := hend i b hi hb₃
    refine ⟨hne, fun g' r' i' hb' => hsole g' r' i' ?_⟩
    rw [← htable]
    exact hb'

end Slots

/-! ### Along the calls of the scheduler -/

section Runs

variable {κ : Type} [DecidableEq κ] {k k' : KVCacheManager κ}

theorem KVOk.init {numBlocks maxModelLen hashBlockSize : Nat} {caching : Bool}
    {groups : List KVCacheSpec}
    (h : KVCacheManager.init numBlocks maxModelLen hashBlockSize caching groups = .ok k) :
    KVOk k := by
  refine ⟨KVInv.init h, fun g m hg => ?_, ?_⟩
  · simp only [KVCacheManager.init, except_bind_eq_ok] at h
    obtain ⟨pool, -, hok⟩ := h
    obtain rfl := Except.ok.inj hok
    rw [List.getElem?_mapIdx] at hg
    obtain ⟨spec, -, rfl⟩ := Option.map_eq_some_iff.mp hg
    rfl
  · simp only [KVCacheManager.init, except_bind_eq_ok] at h
    obtain ⟨pool, hpool, hok⟩ := h
    obtain rfl := Except.ok.inj hok
    simp only [BlockPool.init, except_bind_eq_ok, Prod.exists] at hpool
    obtain ⟨-, -, null, queue, -, hpool⟩ := hpool
    obtain rfl := Except.ok.inj hpool
    rfl

theorem table_init {numBlocks maxModelLen hashBlockSize : Nat} {caching : Bool}
    {groups : List KVCacheSpec}
    (h : KVCacheManager.init numBlocks maxModelLen hashBlockSize caching groups = .ok k)
    (g : Nat) (r : ReqId) : k.table g r = [] := by
  simp only [KVCacheManager.init, except_bind_eq_ok] at h
  obtain ⟨pool, -, hok⟩ := h
  obtain rfl := Except.ok.inj hok
  unfold KVCacheManager.table
  split
  · next m hm =>
    simp only [List.getElem?_mapIdx] at hm
    obtain ⟨spec, -, rfl⟩ := Option.map_eq_some_iff.mp hm
    rfl
  · rfl

theorem KVOk.resetPrefixCache (hk : KVOk k) : KVOk k.resetPrefixCache.2 :=
  ⟨hk.toKVInv.resetPrefixCache, hk.ids,
    hk.caching.trans (PoolInv.resetPrefixCache_same k.blockPool).enableCaching.symm⟩

theorem KVOk.call {c : Call κ} (hk : KVOk k) (h : call k c = some k') : KVOk k' := by
  cases c with
  | allocateSlots request args =>
    simp only [KVCache.call] at h
    split at h
    · next hlookup =>
      obtain ⟨⟨res, k₁⟩, hres, rfl⟩ := Option.map_eq_some_iff.mp h
      have hcalls : Calls (AllocateOp k request args false) k k₁ :=
        allocateSlots_calls hk hlookup (by simp) (toOption_eq_some.mp hres)
      exact hcalls.ok
    · cases h
  | removeSkippedBlocks rid total => exact (removeSkippedBlocks_calls hk (toOption_eq_some.mp h)).ok
  | cacheBlocks request n => exact (cacheBlocks_calls hk (toOption_eq_some.mp h)).ok
  | free rid => exact (free_calls hk (toOption_eq_some.mp h)).ok
  | evictBlocks ids => exact (evictBlocks_calls hk (toOption_eq_some.mp h)).ok
  | resetPrefixCache =>
    obtain rfl := Option.some.inj h
    exact hk.resetPrefixCache

def windowGroup : KVCacheSpec := ⟨1, .slidingWindow 4, none, Nat.one_pos, by simp⟩

def oneToken : RequestView Nat := ⟨0, 0, 1, [7], by decide⟩

def otherToken : RequestView Nat := ⟨1, 0, 1, [5], by decide⟩

/-- A prompt of which the first token is cached in both groups and the second comes from outside. -/
def remoteToken : RequestView Nat := ⟨2, 0, 2, [7, 8], twoTokens.nodup⟩

def remoteArgs : AllocateSlotsArgs := ⟨0, 1, [[1], [2]], 0, 1, true, false⟩

end Runs

end EldrServing.KVCache
