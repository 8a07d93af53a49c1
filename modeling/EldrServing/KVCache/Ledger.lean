import EldrServing.KVCache.Groups
import Mathlib.Logic.Relation

/-!
# The ledger of the KV cache

What the rest of the engine relies on is which blocks stand in the tables of the groups and
which hash each block carries. `Ledger` keeps just that, and `LedgerOp` lists what can happen
to it; free blocks are those in no table. Every call of the cache manager is a sequence of such
operations, so a property of the tables is proved once for each operation.
-/

namespace EldrServing.KVCache

set_option autoImplicit false
set_option linter.unusedSectionVars false

open SingleTypeKVCacheManager Relation

/-- The block tables by group and request, and the hashes of the blocks. -/
structure Ledger (κ : Type) where
  table : Nat → ReqId → List Nat
  hash : Nat → Option (BlockHashWithGroupId κ)

inductive LedgerOp (κ : Type) where
  /-- Blocks below the index `below` leave the table of `r`. -/
  | skip (g : Nat) (r : ReqId) (below : Nat)
  /-- The table of `r` starts with the blocks of a prefix hit. If `keys` is given, the blocks
  carry these hashes. -/
  | hit (g : Nat) (r : ReqId) (blocks : List Nat) (keys : Option (Nat → Option (BlockHash κ)))
  /-- Free blocks are added to the table of `r`. -/
  | extend (g : Nat) (r : ReqId) (blocks : List Nat)
  /-- The blocks of `r` from index `first` up to `last` get the hashes `keys`. -/
  | cache (g : Nat) (r : ReqId) (first last : Nat) (keys : Nat → Option (BlockHash κ))
  | free (g : Nat) (r : ReqId)
  /-- The hashes of these blocks are removed. -/
  | evict (blocks : List Nat)

/-- The table that the operation is about, if any, belongs to a request with `p`. -/
def LedgerOp.On {κ : Type} (p : ReqId → Prop) : LedgerOp κ → Prop
  | .skip _ r _ | .hit _ r _ _ | .extend _ r _ | .cache _ r _ _ _ | .free _ r => p r
  | .evict _ => True

theorem LedgerOp.On.mono {κ : Type} {p p' : ReqId → Prop} {op : LedgerOp κ} (h : op.On p)
    (hp : ∀ r, p r → p' r) : op.On p' := by
  cases op with
  | evict => trivial
  | _ => exact hp _ h

namespace Ledger

variable {κ : Type}

def Free (L : Ledger κ) (b : Nat) : Prop := ∀ g r, b ∉ L.table g r

/-- Only the table of `r` in group `g` may change. -/
def SameTables (g : Nat) (r : ReqId) (L L' : Ledger κ) : Prop :=
  ∀ g' r', (g', r') ≠ (g, r) → L'.table g' r' = L.table g' r'

/-- The operation takes `L` to `L'`. `null` is the null block; without prefix caching the pool
does not look at hashes. -/
def Step (null : Nat) (caching : Bool) (L L' : Ledger κ) : LedgerOp κ → Prop
  | .skip g r below => L'.hash = L.hash ∧ SameTables g r L L' ∧
      ∀ i, (L'.table g r)[i]? = (L.table g r)[i]? ∨
        i < below ∧ (L.table g r)[i]?.isSome ∧ (L'.table g r)[i]? = some null
  | .hit g r blocks keys => L'.hash = L.hash ∧ SameTables g r L L' ∧
      L.table g r = [] ∧ L'.table g r = blocks ∧
      (caching = false → ∀ b ∈ blocks, b = null) ∧
      ∀ f, keys = some f → ∀ i b, blocks[i]? = some b → b ≠ null →
        ∃ key, f i = some key ∧ L.hash b = some ⟨key, g⟩
  | .extend g r blocks => SameTables g r L L' ∧ L'.table g r = L.table g r ++ blocks ∧
      blocks.Nodup ∧ (∀ b ∈ blocks, b ≠ null ∧ L.Free b) ∧
      (∀ b, b ∉ blocks → L'.hash b = L.hash b) ∧
      ∀ b ∈ blocks, L'.hash b = if caching then none else L.hash b
  | .cache g r first last keys => L'.table = L.table ∧
      (∀ b, (∀ i, first ≤ i → i < last → (L.table g r)[i]? ≠ some b) ∨ b = null →
        L'.hash b = L.hash b) ∧
      ∀ i b, first ≤ i → i < last → (L.table g r)[i]? = some b → b ≠ null →
        L.hash b = none ∧ ∃ key, keys i = some key ∧ L'.hash b = some ⟨key, g⟩
  | .free g r => L'.hash = L.hash ∧ SameTables g r L L' ∧ L'.table g r = []
  | .evict blocks => L'.table = L.table ∧
      ∀ b, L'.hash b = if b ∈ blocks then none else L.hash b

abbrev Path (null : Nat) (caching : Bool) (P : LedgerOp κ → Prop) : Ledger κ → Ledger κ → Prop :=
  ReflTransGen fun L L' => ∃ op, P op ∧ Step null caching L L' op

section

variable {null : Nat} {caching : Bool} {P Q : LedgerOp κ → Prop} {L L' : Ledger κ}

theorem Path.mono (h : Path null caching P L L') (hPQ : ∀ op, P op → Q op) :
    Path null caching Q L L' := by
  induction h with
  | refl => exact .refl
  | tail _ hlast ih =>
    obtain ⟨op, hop, hstep⟩ := hlast
    exact ih.tail ⟨op, hPQ op hop, hstep⟩

theorem Path.invariant {I : Ledger κ → Prop}
    (hstep : ∀ op L L', P op → Step null caching L L' op → I L → I L')
    (h : Path null caching P L L') (hL : I L) : I L' := by
  induction h with
  | refl => exact hL
  | tail _ hlast ih =>
    obtain ⟨op, hop, hs⟩ := hlast
    exact hstep op _ _ hop hs ih

theorem Path.others {p : ReqId → Prop} {r : ReqId} (h : Path null caching (LedgerOp.On p) L L')
    (hr : ¬ p r) (g : Nat) : L'.table g r = L.table g r := by
  refine Path.invariant (I := fun L₁ => L₁.table g r = L.table g r) ?_ h rfl
  intro op L₁ L₂ hop hstep hI
  have hne : ∀ {g' r'}, p r' → (g, r) ≠ (g', r') := by
    rintro g' r' hp heq
    exact hr ((Prod.mk.inj heq).2 ▸ hp)
  cases op with
  | skip | hit | free => exact (hstep.2.1 g r (hne hop)).trans hI
  | extend => exact (hstep.1 g r (hne hop)).trans hI
  | cache | evict => exact (congrFun (congrFun hstep.1 g) r).trans hI

end

end Ledger

/-! ### The ledger of a cache manager -/

namespace KVCacheManager

variable {κ : Type}

def table (k : KVCacheManager κ) (g : Nat) (r : ReqId) : List Nat :=
  match k.singleTypeManagers[g]? with
  | some m => m.blocksOf r
  | none => []

def ledger (k : KVCacheManager κ) : Ledger κ := ⟨k.table, k.blockPool.hashOf⟩

@[simps] def setManager (k : KVCacheManager κ) (g : Nat) (m : SingleTypeKVCacheManager)
    (pool : BlockPool κ) : KVCacheManager κ :=
  { k with singleTypeManagers := k.singleTypeManagers.set g m, blockPool := pool }

end KVCacheManager

section Managers

variable {κ : Type} [DecidableEq κ] {k k' : KVCacheManager κ} {g : Nat} {r : ReqId}
  {m m' : SingleTypeKVCacheManager} {pool : BlockPool κ}

theorem table_eq (hg : k.singleTypeManagers[g]? = some m) (r : ReqId) :
    k.table g r = m.blocksOf r := by
  simp only [KVCacheManager.table, hg]

theorem table_setManager_self (hg : k.singleTypeManagers[g]? = some m) (m' : SingleTypeKVCacheManager)
    (pool : BlockPool κ) (r : ReqId) : (k.setManager g m' pool).table g r = m'.blocksOf r := by
  have hlt : g < k.singleTypeManagers.length := (List.getElem?_eq_some_iff.mp hg).1
  exact table_eq (List.getElem?_set_self hlt) r

theorem table_setManager_ne {g' : Nat} (hne : g' ≠ g) (k : KVCacheManager κ)
    (m : SingleTypeKVCacheManager) (pool : BlockPool κ) (r : ReqId) :
    (k.setManager g m pool).table g' r = k.table g' r := by
  simp only [KVCacheManager.table, KVCacheManager.setManager_singleTypeManagers,
    List.getElem?_set_ne hne.symm]

theorem refsOf_eraseIdx {ms : List SingleTypeKVCacheManager} (hg : ms[g]? = some m) (b : Nat) :
    refsOf ms b = refsOf (ms.eraseIdx g) b + m.refs b := by
  induction ms generalizing g with
  | nil => cases hg
  | cons a ms ih =>
    cases g with
    | zero =>
      obtain rfl : a = m := by simpa using hg
      simp [refsOf, Nat.add_comm]
    | succ g =>
      have := ih (g := g) (by simpa using hg)
      simp only [refsOf, List.map_cons, List.sum_cons, List.eraseIdx_cons_succ] at this ⊢
      omega

theorem KVInv.setManager (hk : KVInv k) (hg : k.singleTypeManagers[g]? = some m)
    (h : ∀ c : Nat → Nat, PoolInv k.blockPool (fun b => c b + m.refs b) →
      TablesOk k.blockPool.nullBlock m' ∧ PoolInv pool (fun b => c b + m'.refs b) ∧
        SamePool k.blockPool pool) : KVInv (k.setManager g m' pool) := by
  have hlt : g < k.singleTypeManagers.length := (List.getElem?_eq_some_iff.mp hg).1
  obtain ⟨htab, hpool, hsame⟩ := h (refsOf (k.singleTypeManagers.eraseIdx g))
    (hk.pool.congr_refs fun b => (refsOf_eraseIdx hg b).symm)
  refine ⟨hpool.congr_refs fun b => ?_, fun a ha => ?_⟩
  · have hset : (k.singleTypeManagers.set g m')[g]? = some m' := List.getElem?_set_self hlt
    rw [KVCacheManager.setManager_singleTypeManagers, refsOf_eraseIdx hset, List.eraseIdx_set_eq]
  · change TablesOk pool.nullBlock a
    rw [hsame.nullBlock]
    rcases List.mem_or_eq_of_mem_set ha with ha | rfl
    · exact hk.tables a ha
    · exact htab

theorem refs_le_refsOf_of_getElem? {ms : List SingleTypeKVCacheManager} (hg : ms[g]? = some m)
    (b : Nat) : m.refs b ≤ refsOf ms b := by
  rw [refsOf_eraseIdx hg]
  omega

theorem ledger_free {b : Nat} (h : refsOf k.singleTypeManagers b = 0) : k.ledger.Free b := by
  intro g r hb
  change b ∈ k.table g r at hb
  unfold KVCacheManager.table at hb
  split at hb
  · next m hg =>
    have := List.count_pos_iff.mpr hb
    have := count_le_refs m r b
    have := refs_le_refsOf_of_getElem? hg b
    omega
  · cases hb

theorem sameTables_setManager (hg : k.singleTypeManagers[g]? = some m)
    (h : ∀ r', r' ≠ r → m'.blocksOf r' = m.blocksOf r') :
    Ledger.SameTables g r k.ledger (k.setManager g m' pool).ledger := by
  intro g' r' hne
  rcases eq_or_ne g' g with rfl | hg'
  · have hr : r' ≠ r := fun heq => hne (by rw [heq])
    exact (table_setManager_self hg m' pool r').trans ((h r' hr).trans (table_eq hg r').symm)
  · exact table_setManager_ne hg' k m' pool r'

/-! ### Loops over the managers -/

/-- A loop over the managers, given what one round does. `Q` holds of the elements still to come
and the state before each round; the element at index `g` belongs to group `g`. -/
theorem mapState_managers {α β : Type} {f : α → BlockPool κ → Except PyError (β × BlockPool κ)}
    (before : α → SingleTypeKVCacheManager) (after : β → SingleTypeKVCacheManager) (all : List α)
    {Q : List α → KVCacheManager κ → Prop} {R : KVCacheManager κ → KVCacheManager κ → Prop}
    (hf : ∀ k g a as b pool, Q (a :: as) k → all.drop g = a :: as →
      k.singleTypeManagers[g]? = some (before a) → f a k.blockPool = .ok (b, pool) →
      Q as (k.setManager g (after b) pool) ∧ ReflTransGen R k (k.setManager g (after b) pool))
    (as done : List α) (pre : List SingleTypeKVCacheManager) (hall : all = done ++ as)
    (hpre : pre.length = done.length) (k : KVCacheManager κ)
    (hk : k.singleTypeManagers = pre ++ as.map before) (hQ : Q as k) {rs : List β}
    {pool : BlockPool κ} (h : mapState f as k.blockPool = .ok (rs, pool)) :
    Q [] { k with singleTypeManagers := pre ++ rs.map after, blockPool := pool } ∧
      ReflTransGen R k { k with singleTypeManagers := pre ++ rs.map after, blockPool := pool } := by
  induction as generalizing done pre k rs with
  | nil =>
    obtain ⟨rfl, rfl⟩ := ok_pair_inj h
    simp only [List.map_nil] at hk ⊢
    have heq : { k with singleTypeManagers := pre ++ [] } = k := by
      rw [← hk]
    rw [heq]
    exact ⟨hQ, .refl⟩
  | cons a as ih =>
    obtain ⟨b, u, bs, hfa, hrest, rfl⟩ := mapState_cons_eq_ok.mp h
    have hg : k.singleTypeManagers[pre.length]? = some (before a) := by
      rw [hk]
      simp
    have ha : all.drop pre.length = a :: as := by
      rw [hall, hpre]
      simp
    obtain ⟨hQ', hR⟩ := hf k pre.length a as b u hQ ha hg hfa
    have hset : (k.setManager pre.length (after b) u).singleTypeManagers =
        (pre ++ [after b]) ++ as.map before := by
      rw [KVCacheManager.setManager_singleTypeManagers, hk]
      simp
    obtain ⟨hQ'', hR'⟩ := ih (done ++ [a]) (pre ++ [after b]) (by rw [hall]; simp)
      (by simp [hpre]) _ hset hQ' hrest
    have hend : ({ k.setManager pre.length (after b) u with
        singleTypeManagers := (pre ++ [after b]) ++ bs.map after, blockPool := pool } :
          KVCacheManager κ) =
        { k with singleTypeManagers := pre ++ (b :: bs).map after, blockPool := pool } := by
      simp [KVCacheManager.setManager]
    rw [hend] at hQ'' hR'
    exact ⟨hQ'', hR.trans hR'⟩

theorem forManagers_path {f : SingleTypeKVCacheManager → BlockPool κ →
      Except PyError (SingleTypeKVCacheManager × BlockPool κ)}
    {Q : KVCacheManager κ → Prop} {R : KVCacheManager κ → KVCacheManager κ → Prop}
    (hf : ∀ k g m m' pool, Q k → k.singleTypeManagers[g]? = some m →
      f m k.blockPool = .ok (m', pool) →
      Q (k.setManager g m' pool) ∧ ReflTransGen R k (k.setManager g m' pool))
    (hQ : Q k) (h : k.forManagers f = .ok k') : Q k' ∧ ReflTransGen R k k' := by
  obtain ⟨ms, pool, hmap, rfl⟩ := forManagers_ok h
  have hmain := mapState_managers (Q := fun _ k => Q k) (R := R) id id k.singleTypeManagers
    (fun k g a as b pool hQ _ hg hfa => hf k g a b pool hQ hg hfa)
    k.singleTypeManagers [] [] rfl rfl k (by simp) hQ hmap
  simpa using hmain

/-! ### What the calls keep -/

def KVCacheManager.specs (k : KVCacheManager κ) : List KVCacheSpec :=
  k.singleTypeManagers.map (·.spec)

structure KVOk (k : KVCacheManager κ) : Prop extends KVInv k where
  ids : ∀ (g : Nat) (m : SingleTypeKVCacheManager), k.singleTypeManagers[g]? = some m →
    m.kvCacheGroupId = g
  caching : k.enableCaching = k.blockPool.enableCaching

structure SameConfig (k k' : KVCacheManager κ) : Prop where
  pool : SamePool k.blockPool k'.blockPool
  specs : k'.specs = k.specs
  maxModelLen : k'.maxModelLen = k.maxModelLen
  enableCaching : k'.enableCaching = k.enableCaching

theorem SameConfig.refl (k : KVCacheManager κ) : SameConfig k k := ⟨.refl _, rfl, rfl, rfl⟩

theorem SameConfig.trans {k₁ k₂ k₃ : KVCacheManager κ} (h : SameConfig k₁ k₂)
    (h' : SameConfig k₂ k₃) : SameConfig k₁ k₃ :=
  ⟨h.pool.trans h'.pool, h'.specs.trans h.specs, h'.maxModelLen.trans h.maxModelLen,
    h'.enableCaching.trans h.enableCaching⟩

theorem specs_getElem? (hg : k.singleTypeManagers[g]? = some m) :
    k.specs[g]? = some m.spec := by
  simp only [KVCacheManager.specs, List.getElem?_map, hg, Option.map_some]

theorem SameConfig.setManager (hg : k.singleTypeManagers[g]? = some m)
    (hspec : m'.spec = m.spec) (hsame : SamePool k.blockPool pool) :
    SameConfig k (k.setManager g m' pool) := by
  refine ⟨hsame, ?_, rfl, rfl⟩
  simp only [KVCacheManager.specs, KVCacheManager.setManager_singleTypeManagers, List.map_set,
    hspec]
  refine List.ext_getElem? fun i => ?_
  have hlt : g < k.singleTypeManagers.length := (List.getElem?_eq_some_iff.mp hg).1
  rcases eq_or_ne g i with rfl | hne
  · rw [List.getElem?_set_self (by simpa using hlt), List.getElem?_map, hg, Option.map_some]
  · rw [List.getElem?_set_ne hne]

theorem KVOk.setManager (hk : KVOk k) (hg : k.singleTypeManagers[g]? = some m)
    (hid : m'.kvCacheGroupId = m.kvCacheGroupId)
    (h : ∀ c : Nat → Nat, PoolInv k.blockPool (fun b => c b + m.refs b) →
      TablesOk k.blockPool.nullBlock m' ∧ PoolInv pool (fun b => c b + m'.refs b) ∧
        SamePool k.blockPool pool) : KVOk (k.setManager g m' pool) := by
  have hlt : g < k.singleTypeManagers.length := (List.getElem?_eq_some_iff.mp hg).1
  obtain ⟨-, -, hsame⟩ := h _ (hk.pool.congr_refs fun b => (refsOf_eraseIdx hg b).symm)
  refine ⟨hk.toKVInv.setManager hg h, fun g' a ha => ?_, ?_⟩
  · rw [KVCacheManager.setManager_singleTypeManagers] at ha
    rcases eq_or_ne g' g with rfl | hne
    · rw [List.getElem?_set_self hlt] at ha
      rw [← Option.some.inj ha, hid]
      exact hk.ids _ m hg
    · rw [List.getElem?_set_ne hne.symm] at ha
      exact hk.ids g' a ha
  · exact hk.caching.trans hsame.enableCaching.symm

/-- The operations `P` lead from the manager `k` to `k'`. -/
structure Calls (P : LedgerOp κ → Prop) (k k' : KVCacheManager κ) : Prop where
  ok : KVOk k'
  same : SameConfig k k'
  path : Ledger.Path k.blockPool.nullBlock k.blockPool.enableCaching P k.ledger k'.ledger

theorem Calls.refl (P : LedgerOp κ → Prop) (hk : KVOk k) : Calls P k k :=
  ⟨hk, .refl k, .refl⟩

theorem Calls.single {P : LedgerOp κ → Prop} (op : LedgerOp κ) (hk : KVOk k')
    (hsame : SameConfig k k') (hP : P op) (hstep : Ledger.Step k.blockPool.nullBlock
      k.blockPool.enableCaching k.ledger k'.ledger op) : Calls P k k' :=
  ⟨hk, hsame, .single ⟨op, hP, hstep⟩⟩

theorem Calls.trans {P : LedgerOp κ → Prop} {k₁ k₂ k₃ : KVCacheManager κ} (h : Calls P k₁ k₂)
    (h' : Calls P k₂ k₃) : Calls P k₁ k₃ := by
  refine ⟨h'.ok, h.same.trans h'.same, h.path.trans ?_⟩
  have := h'.path
  rwa [h.same.pool.nullBlock, h.same.pool.enableCaching] at this

theorem Calls.mono {P Q : LedgerOp κ → Prop} (h : Calls P k k') (hPQ : ∀ op, P op → Q op) :
    Calls Q k k' :=
  ⟨h.ok, h.same, h.path.mono hPQ⟩

theorem Calls.forManagers {P : LedgerOp κ → Prop}
    {f : SingleTypeKVCacheManager → BlockPool κ →
      Except PyError (SingleTypeKVCacheManager × BlockPool κ)}
    (hf : ∀ (k₁ : KVCacheManager κ) (g : Nat) m m' pool, KVOk k₁ → SameConfig k k₁ → k₁.singleTypeManagers[g]? = some m →
      f m k₁.blockPool = .ok (m', pool) → Calls P k₁ (k₁.setManager g m' pool))
    (hk : KVOk k) (h : k.forManagers f = .ok k') : Calls P k k' := by
  have hmain := forManagers_path (Q := Calls P k) (R := fun _ _ => True)
    (fun k₁ g m m' pool hcalls hg hfm =>
      ⟨hcalls.trans (hf k₁ g m m' pool hcalls.ok hcalls.same hg hfm), .single trivial⟩)
    (.refl P hk) h
  exact hmain.1

end Managers

end EldrServing.KVCache
