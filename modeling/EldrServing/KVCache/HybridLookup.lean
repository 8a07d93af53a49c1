import EldrServing.Lib.Lowering
import EldrServing.KVCache.Lookup

/-!
# Prefix lookup over several attention groups

`HybridKVCacheCoordinator.find_longest_cache_hit` passes a candidate length along the attention
groups, each of which accepts or lowers it, until a pass changes nothing.
-/

namespace EldrServing.KVCache

set_option autoImplicit false
set_option linter.unusedSectionVars false

deriving instance DecidableEq for KVCacheSpec

/-- The spec of a KV-cache group. The lookup does not read the layout of a block, heads and
sizes, but specs with different layouts are different. -/
structure GroupSpec (τ : Type) where
  spec : KVCacheSpec
  layout : τ
  deriving DecidableEq

def GroupSpec.isFullAttention {τ : Type} (g : GroupSpec τ) : Bool :=
  match g.spec.attention with
  | .fullAttention => true
  | _ => false

/-- The KV-cache groups with one spec. -/
structure AttentionGroup (τ : Type) where
  spec : GroupSpec τ
  groupIds : List Nat

structure HybridKVCacheCoordinator (κ τ : Type) where
  blockPool : BlockPool κ
  kvCacheGroups : List (GroupSpec τ)
  attentionGroups : List (AttentionGroup τ)
  lcmBlockSize : Nat

namespace HybridKVCacheCoordinator

variable {κ τ : Type} [DecidableEq κ] [DecidableEq τ]

/-- Add group `i` to the attention group with its spec, or start one. -/
def addGroup (i : Nat) (spec : GroupSpec τ) : List (AttentionGroup τ) → List (AttentionGroup τ)
  | [] => [⟨spec, [i]⟩]
  | g :: gs => if g.spec = spec then ⟨g.spec, g.groupIds ++ [i]⟩ :: gs else g :: addGroup i spec gs

/-- The loop of `verify_and_split_kv_cache_groups` from group `i` on. -/
def splitGroups : Nat → List (GroupSpec τ) → List (AttentionGroup τ) → List (AttentionGroup τ)
  | _, [], groups => groups
  | i, spec :: specs, groups => splitGroups (i + 1) specs (addGroup i spec groups)

def lcmOf (sizes : List Nat) : Nat := sizes.foldr Nat.lcm 1

def init (blockPool : BlockPool κ) (kvCacheGroups : List (GroupSpec τ)) :
    Except PyError (HybridKVCacheCoordinator κ τ) := do
  assert (∀ g ∈ kvCacheGroups, g.spec.blockSize % blockPool.hashBlockSize = 0)
    "block_size must be divisible by hash_block_size"
  let groups := splitGroups 0 kvCacheGroups []
  assert (1 < groups.length) "HybridKVCacheCoordinator requires at least two attention groups."
  .ok { blockPool, kvCacheGroups
        -- a stable sort that puts full attention first
        attentionGroups := groups.filter (·.spec.isFullAttention) ++
          groups.filter (!·.spec.isFullAttention)
        lcmBlockSize := lcmOf (groups.map (·.spec.spec.blockSize)) }

/-- `hit_blocks_by_group`. -/
abbrev HitBlocks := Nat → Option (List Nat)

def store (null : Nat) (hits : HitBlocks) (groupIds : List Nat) (rows : List (List Nat)) :
    HitBlocks :=
  fun gid =>
    match groupIds.idxOf? gid with
    | some i => some (rows.map fun row => row.getD i null)
    | none => hits gid

variable (c : HybridKVCacheCoordinator κ τ) (blockHashes : List κ)

/-- The `for` loop over the attention groups: the hits and the current length. -/
def pass : List (AttentionGroup τ) → HitBlocks → Nat → Except PyError (HitBlocks × Nat)
  | [], hits, curr => .ok (hits, curr)
  | g :: gs, hits, curr =>
    if g.spec.isFullAttention ∧ (g.groupIds.head?.bind hits).isSome then
      -- full attention is downward closed: it is looked up once
      pass gs hits (curr / g.spec.spec.blockSize * g.spec.spec.blockSize)
    else do
      let rows ← g.spec.spec.findLongestCacheHit c.blockPool blockHashes curr g.groupIds
        c.lcmBlockSize
      pass gs (store c.blockPool.nullBlock hits g.groupIds rows)
        (rows.length * g.spec.spec.blockSize)

def isSimpleHybrid : Bool :=
  c.attentionGroups.length = 2 && (c.attentionGroups.head?.any (·.spec.isFullAttention))

/-- The `while` loop; `none` when the fuel is spent. -/
def passes : Nat → HitBlocks → Nat → Except PyError (Option (HitBlocks × Nat))
  | 0, _, _ => .ok none
  | fuel + 1, hits, hitLength => do
    let (hits, curr) ← c.pass blockHashes c.attentionGroups hits hitLength
    if hitLength ≤ curr then .ok (some (hits, hitLength))
    else if c.isSimpleHybrid then .ok (some (hits, curr))
    else passes fuel hits curr

def truncate (hits : HitBlocks) (hitLength : Nat) : HitBlocks :=
  match c.attentionGroups with
  | [] => hits
  | g :: _ =>
    if g.spec.isFullAttention then fun gid =>
      if gid ∈ g.groupIds then (hits gid).map (·.take (hitLength / g.spec.spec.blockSize))
      else hits gid
    else hits

def findLongestCacheHit (fuel maxCacheHitLength : Nat) :
    Except PyError (Option (List (List Nat) × Nat)) := do
  match ← c.passes blockHashes fuel (fun _ => none) maxCacheHitLength with
  | none => .ok none
  | some (hits, hitLength) =>
    let hits := c.truncate hits hitLength
    .ok (some ((List.range c.kvCacheGroups.length).map fun gid => (hits gid).getD [], hitLength))

/-! ### The attention groups -/

variable {n maxLength : Nat} {f : AttentionGroup τ}

section Split

variable {i : Nat} {spec : GroupSpec τ} {groups : List (AttentionGroup τ)}

theorem mem_addGroup {g : AttentionGroup τ} (h : g ∈ addGroup i spec groups) :
    g ∈ groups ∨ g.spec = spec ∧ ∃ ids, g.groupIds = ids ++ [i] ∧
      (ids = [] ∨ ⟨spec, ids⟩ ∈ groups) := by
  induction groups with
  | nil =>
    obtain rfl := List.mem_singleton.mp h
    exact Or.inr ⟨rfl, [], rfl, Or.inl rfl⟩
  | cons a groups ih =>
    unfold addGroup at h
    split at h
    · rename_i heq
      rcases List.mem_cons.mp h with rfl | h
      · refine Or.inr ⟨heq, a.groupIds, rfl, Or.inr ?_⟩
        rw [← heq]
        exact List.mem_cons_self
      · exact Or.inl (List.mem_cons_of_mem a h)
    · rcases List.mem_cons.mp h with rfl | h
      · exact Or.inl List.mem_cons_self
      · rcases ih h with h | ⟨hspec, ids, hids, hmem⟩
        · exact Or.inl (List.mem_cons_of_mem a h)
        · exact Or.inr ⟨hspec, ids, hids, hmem.imp_right (List.mem_cons_of_mem a)⟩

theorem exists_mem_addGroup (i : Nat) (spec : GroupSpec τ) (groups : List (AttentionGroup τ)) :
    (∃ g ∈ addGroup i spec groups, i ∈ g.groupIds) ∧
      ∀ g ∈ groups, ∃ g' ∈ addGroup i spec groups, g.groupIds ⊆ g'.groupIds := by
  induction groups with
  | nil => exact ⟨⟨_, List.mem_cons_self, List.mem_cons_self⟩, by simp⟩
  | cons a groups ih =>
    unfold addGroup
    split
    · refine ⟨⟨_, List.mem_cons_self, by simp⟩, ?_⟩
      intro g hg
      rcases List.mem_cons.mp hg with rfl | hg
      · exact ⟨_, List.mem_cons_self, by simp⟩
      · exact ⟨g, List.mem_cons_of_mem _ hg, List.Subset.refl _⟩
    · obtain ⟨⟨g₀, hg₀, hi⟩, hall⟩ := ih
      refine ⟨⟨g₀, List.mem_cons_of_mem _ hg₀, hi⟩, ?_⟩
      intro g hg
      rcases List.mem_cons.mp hg with rfl | hg
      · exact ⟨g, List.mem_cons_self, List.Subset.refl _⟩
      · obtain ⟨g', hg', hsub⟩ := hall g hg
        exact ⟨g', List.mem_cons_of_mem _ hg', hsub⟩

theorem nodup_specs_addGroup (h : (groups.map (·.spec)).Nodup) :
    ((addGroup i spec groups).map (·.spec)).Nodup ∧
      ∀ s ∈ (addGroup i spec groups).map (·.spec), s ∈ groups.map (·.spec) ∨ s = spec := by
  induction groups with
  | nil => exact ⟨by simp [addGroup], by simp [addGroup]⟩
  | cons a groups ih =>
    rw [List.map_cons, List.nodup_cons] at h
    unfold addGroup
    split
    · exact ⟨List.nodup_cons.mpr h, fun s hs => Or.inl hs⟩
    · rename_i hne
      obtain ⟨hnd, hsub⟩ := ih h.2
      refine ⟨List.nodup_cons.mpr ⟨fun hm => ?_, hnd⟩, ?_⟩
      · rcases hsub _ hm with hm | hm
        · exact h.1 hm
        · exact hne hm
      · intro s hs
        rcases List.mem_cons.mp hs with rfl | hs
        · exact Or.inl List.mem_cons_self
        · exact (hsub s hs).imp_left (List.mem_cons_of_mem _)

/-- The attention groups are the first `n` KV-cache groups sorted by spec. -/
structure IsSplit (specs : List (GroupSpec τ)) (n : Nat) (groups : List (AttentionGroup τ)) :
    Prop where
  nonempty : ∀ g ∈ groups, g.groupIds ≠ []
  spec_eq : ∀ g ∈ groups, ∀ i ∈ g.groupIds, specs[i]? = some g.spec
  cover : ∀ i < n, ∃ g ∈ groups, i ∈ g.groupIds
  nodup : (groups.map (·.spec)).Nodup

theorem IsSplit.addGroup {specs : List (GroupSpec τ)} (h : IsSplit specs n groups)
    (hspec : specs[n]? = some spec) : IsSplit specs (n + 1) (addGroup n spec groups) := by
  refine ⟨?_, ?_, ?_, (nodup_specs_addGroup h.nodup).1⟩
  · intro g hg
    rcases mem_addGroup hg with hg | ⟨-, ids, hids, -⟩
    · exact h.nonempty g hg
    · simp [hids]
  · intro g hg i hi
    rcases mem_addGroup hg with hg | ⟨rfl, ids, hids, hmem⟩
    · exact h.spec_eq g hg i hi
    · rw [hids] at hi
      rcases List.mem_append.mp hi with hi | hi
      · rcases hmem with rfl | hmem
        · cases hi
        · exact h.spec_eq _ hmem i hi
      · obtain rfl := List.mem_singleton.mp hi
        exact hspec
  · intro i hi
    obtain ⟨hlast, hkeep⟩ := exists_mem_addGroup n spec groups
    by_cases heq : i = n
    · exact heq ▸ hlast
    · obtain ⟨g, hg, hig⟩ := h.cover i (by omega)
      obtain ⟨g', hg', hsub⟩ := hkeep g hg
      exact ⟨g', hg', hsub hig⟩

theorem IsSplit.splitGroups {specs rest : List (GroupSpec τ)}
    (h : IsSplit specs n groups) (hrest : specs.drop n = rest) :
    IsSplit specs specs.length (splitGroups n rest groups) := by
  induction rest generalizing n groups with
  | nil =>
    have hn : specs.length ≤ n := List.drop_eq_nil_iff.mp hrest
    exact ⟨h.nonempty, h.spec_eq, fun i hi => h.cover i (by omega), h.nodup⟩
  | cons spec rest ih =>
    have hget : specs[n]? = some spec := by
      rw [← List.head?_drop, hrest, List.head?_cons]
    apply ih (h.addGroup hget)
    rw [← List.tail_drop, hrest, List.tail_cons]

theorem isSplit_splitGroups (specs : List (GroupSpec τ)) :
    IsSplit specs specs.length (HybridKVCacheCoordinator.splitGroups 0 specs []) :=
  IsSplit.splitGroups ⟨by simp, by simp, by simp, by simp⟩ rfl

theorem lcmOf_dvd_iff {sizes : List Nat} : lcmOf sizes ∣ n ↔ ∀ a ∈ sizes, a ∣ n := by
  induction sizes with
  | nil => simp [lcmOf]
  | cons a sizes ih =>
    rw [List.forall_mem_cons, ← ih]
    exact Nat.lcm_dvd_iff

theorem lcmOf_splitGroups (specs : List (GroupSpec τ)) :
    lcmOf ((HybridKVCacheCoordinator.splitGroups 0 specs []).map (·.spec.spec.blockSize)) =
      lcmOf (specs.map (·.spec.blockSize)) := by
  have h := isSplit_splitGroups specs
  apply Nat.dvd_antisymm
  · rw [lcmOf_dvd_iff]
    intro a ha
    obtain ⟨g, hg, rfl⟩ := List.mem_map.mp ha
    obtain ⟨i, hi⟩ := List.exists_mem_of_ne_nil _ (h.nonempty g hg)
    apply lcmOf_dvd_iff.mp dvd_rfl
    exact List.mem_map.mpr ⟨g.spec, List.mem_of_getElem? (h.spec_eq g hg i hi), rfl⟩
  · rw [lcmOf_dvd_iff]
    intro a ha
    obtain ⟨s, hs, rfl⟩ := List.mem_map.mp ha
    obtain ⟨i, hi⟩ := List.mem_iff_getElem?.mp hs
    obtain ⟨g, hg, hig⟩ := h.cover i (List.getElem?_eq_some_iff.mp hi).1
    have heq : g.spec = s := some_unique (h.spec_eq g hg i hig) hi
    apply lcmOf_dvd_iff.mp dvd_rfl
    exact List.mem_map.mpr ⟨g, hg, by rw [heq]⟩

end Split

/-! ### One pass -/

section Pass

def GroupHit (spec : KVCacheSpec) (pool : BlockPool κ) (blockHashes : List κ) (gid : Nat)
    (blocks : List Nat) : Prop :=
  ∀ j b, blocks[j]? = some b → cachedAt pool blockHashes spec.blockSize gid j = some b ∨
    b = pool.nullBlock ∧ j < spec.firstNeeded blocks.length

/-- The lengths that the attention group accepts. -/
def accepted (g : AttentionGroup τ) : Set Nat :=
  g.spec.spec.Accepts c.blockPool blockHashes g.groupIds c.lcmBlockSize

/-- The hits of the attention group are stored with `n` blocks for each of its groups. -/
structure HoldsAt (hits : HitBlocks) (g : AttentionGroup τ) (n : Nat) : Prop where
  lists : ∀ gid ∈ g.groupIds, ∃ blocks, hits gid = some blocks ∧ blocks.length = n ∧
    GroupHit g.spec.spec c.blockPool blockHashes gid blocks
  accepted : n * g.spec.spec.blockSize ∈ c.accepted blockHashes g

structure Regular (g : AttentionGroup τ) : Prop where
  nonempty : g.groupIds ≠ []
  dvd_lcm : g.spec.spec.blockSize ∣ c.lcmBlockSize
  hash_dvd : c.blockPool.hashBlockSize ∣ g.spec.spec.blockSize
  attention : g.spec.spec.attention = .fullAttention ∨
    ∃ w, 2 ≤ w ∧ g.spec.spec.attention = .slidingWindow w

variable {c blockHashes} {g : AttentionGroup τ} {gs : List (AttentionGroup τ)} {hits : HitBlocks}
  {curr : Nat}

theorem isFullAttention_iff {spec : GroupSpec τ} :
    spec.isFullAttention = true ↔ spec.spec.attention = .fullAttention := by
  unfold GroupSpec.isFullAttention
  cases spec.spec.attention <;> simp

theorem find_ok (hg : c.Regular g)
    (hcov : g.spec.isFullAttention = true ∨ Covers c.blockPool blockHashes curr) :
    ∃ rows, g.spec.spec.findLongestCacheHit c.blockPool blockHashes curr g.groupIds
        c.lcmBlockSize = .ok rows ∧
      IsLongestHit g.spec.spec c.blockPool blockHashes g.groupIds c.lcmBlockSize curr rows := by
  rcases hg.attention with hfull | ⟨w, hw, hwin⟩
  · refine ⟨_, ?_, FullAttentionManager.find_isLongestHit hfull hg.nonempty hg.dvd_lcm
      curr⟩
    simp only [KVCacheSpec.findLongestCacheHit, hfull]
  · have hcov' := hcov.resolve_left fun hfull => by
      rw [isFullAttention_iff, hwin] at hfull
      cases hfull
    obtain ⟨rows, hrows, hhit⟩ := SlidingWindowManager.find_isLongestHit hwin hw
      hg.nonempty hg.dvd_lcm hg.hash_dvd hcov'
    exact ⟨rows, by simp only [KVCacheSpec.findLongestCacheHit, hwin, hrows], hhit⟩

theorem store_of_notMem {null gid : Nat} {groupIds : List Nat} {rows : List (List Nat)}
    (h : gid ∉ groupIds) : store null hits groupIds rows gid = hits gid := by
  simp only [store, List.idxOf?_eq_none_iff.mpr h]

theorem holdsAt_store {rows : List (List Nat)}
    (h : IsLongestHit g.spec.spec c.blockPool blockHashes g.groupIds c.lcmBlockSize curr rows) :
    c.HoldsAt blockHashes (store c.blockPool.nullBlock hits g.groupIds rows) g rows.length := by
  refine ⟨?_, h.greatest.1.1⟩
  intro gid hgid
  obtain ⟨i, hi⟩ : ∃ i, g.groupIds.idxOf? gid = some i :=
    Option.ne_none_iff_exists'.mp fun hnone => List.idxOf?_eq_none_iff.mp hnone hgid
  have hget : g.groupIds[i]? = some gid := by
    obtain ⟨hlt, heq, -⟩ := List.idxOf?_eq_some_iff.mp hi
    exact List.getElem?_eq_some_iff.mpr ⟨hlt, by simpa using heq⟩
  refine ⟨rows.map fun row => row.getD i c.blockPool.nullBlock, by simp only [store, hi],
    List.length_map _, ?_⟩
  intro j b hb
  rw [List.getElem?_map] at hb
  obtain ⟨row, hrow, rfl⟩ := Option.map_eq_some_iff.mp hb
  rcases h.entry j row hrow with hcached | ⟨rfl, hlt⟩
  · left
    have hcol := rowAt_getElem? hcached hget
    have hsome := (rowAt_isSome (List.ne_nil_of_mem hgid)).mp (by rw [hcached]; rfl) gid hgid
    obtain ⟨b, hb⟩ := Option.isSome_iff_exists.mp hsome
    rw [hb] at hcol ⊢
    simp [List.getD_eq_getElem?_getD, hcol]
  · right
    refine ⟨?_, by simpa using hlt⟩
    rw [List.getD_eq_getElem?_getD, List.getElem?_map, hget]
    rfl

theorem pass_lookup (gs : List (AttentionGroup τ)) (hg : c.Regular g)
    (hcov : g.spec.isFullAttention = true ∨ Covers c.blockPool blockHashes curr)
    (hnew : ¬ (g.spec.isFullAttention = true ∧ (g.groupIds.head?.bind hits).isSome = true)) :
    ∃ rows, IsLongestHit g.spec.spec c.blockPool blockHashes g.groupIds c.lcmBlockSize curr rows ∧
      c.pass blockHashes (g :: gs) hits curr = c.pass blockHashes gs
        (store c.blockPool.nullBlock hits g.groupIds rows)
        (rows.length * g.spec.spec.blockSize) := by
  obtain ⟨rows, hrows, hhit⟩ := find_ok hg hcov
  refine ⟨rows, hhit, ?_⟩
  rw [pass, if_neg hnew, hrows]
  rfl

theorem Covers.mono {pool : BlockPool κ} {m : Nat} (h : Covers pool blockHashes n)
    (hle : m ≤ n) : Covers pool blockHashes m :=
  (Nat.div_le_div_right hle).trans h

theorem pass_sliding (hits : HitBlocks) (hregular : ∀ g ∈ gs, c.Regular g)
    (hsliding : ∀ g ∈ gs, g.spec.isFullAttention = false)
    (hdisj : gs.Pairwise fun g g' => ∀ i ∈ g.groupIds, i ∉ g'.groupIds)
    (hcov : Covers c.blockPool blockHashes curr) :
    ∃ hits' curr', c.pass blockHashes gs hits curr = .ok (hits', curr') ∧
      Lowering.Lowers (gs.map (c.accepted blockHashes)) curr curr' ∧
      (∀ gid, (∀ g ∈ gs, gid ∉ g.groupIds) → hits' gid = hits gid) ∧
      ∀ g ∈ gs, ∃ n, c.HoldsAt blockHashes hits' g n ∧
        curr' ≤ n * g.spec.spec.blockSize ∧ n * g.spec.spec.blockSize ≤ curr := by
  induction gs generalizing hits curr with
  | nil => exact ⟨hits, curr, rfl, .nil curr, fun _ _ => rfl, by simp⟩
  | cons g gs ih =>
    obtain ⟨hg, hgs⟩ := List.pairwise_cons.mp hdisj
    obtain ⟨rows, hhit, hpass⟩ := pass_lookup gs (hregular g List.mem_cons_self)
      (Or.inr hcov) (fun hfull => by
        rw [hsliding g List.mem_cons_self] at hfull
        cases hfull.1)
    have hle : rows.length * g.spec.spec.blockSize ≤ curr := hhit.greatest.1.2
    obtain ⟨hits', curr', hok, hlow, hkeep, hold⟩ := ih _
      (fun a ha => hregular a (List.mem_cons_of_mem g ha))
      (fun a ha => hsliding a (List.mem_cons_of_mem g ha)) hgs (Covers.mono hcov hle)
    refine ⟨hits', curr', hpass.trans hok, .cons hhit.greatest hlow, ?_, ?_⟩
    · intro gid hgid
      rw [hkeep gid fun a ha => hgid a (List.mem_cons_of_mem g ha),
        store_of_notMem (hgid g List.mem_cons_self)]
    · intro a ha
      rcases List.mem_cons.mp ha with rfl | ha
      · refine ⟨rows.length, ⟨?_, hhit.greatest.1.1⟩, hlow.le, hle⟩
        intro gid hgid
        rw [hkeep gid fun b hb => hg b hb gid hgid]
        exact (holdsAt_store hhit).lists gid hgid
      · obtain ⟨n, hn, hlo, hhi⟩ := hold a ha
        exact ⟨n, hn, hlo, hhi.trans hle⟩

theorem accepted_of_le (hfull : g.spec.isFullAttention = true) {m : Nat}
    (h : n ∈ c.accepted blockHashes g) (hle : m ≤ n) (hdvd : c.lcmBlockSize ∣ m) :
    m ∈ c.accepted blockHashes g := by
  have hfirst : ∀ k, g.spec.spec.firstNeeded k = 0 := fun k => by
    simp [KVCacheSpec.firstNeeded, isFullAttention_iff.mp hfull]
  refine ⟨hdvd, fun j _ hj => h.2 j ?_ (hj.trans_le (Nat.div_le_div_right hle))⟩
  rw [hfirst]
  exact Nat.zero_le j

theorem covers_of_accepted (hg : c.Regular g) (hfull : g.spec.isFullAttention = true)
    (h : n ∈ c.accepted blockHashes g) : Covers c.blockPool blockHashes n := by
  have hpos := g.spec.spec.blockSize_pos
  obtain ⟨gid, hgid⟩ := List.exists_mem_of_ne_nil _ hg.nonempty
  have hmul : n / g.spec.spec.blockSize * g.spec.spec.blockSize = n :=
    Nat.div_mul_cancel (hg.dvd_lcm.trans h.1)
  have hlen : n / g.spec.spec.blockSize ≤
      (blockHashesAt blockHashes c.blockPool.hashBlockSize g.spec.spec.blockSize).length := by
    by_contra hlt
    have hsome := h.2 (n / g.spec.spec.blockSize - 1)
      (by simp [KVCacheSpec.firstNeeded, isFullAttention_iff.mp hfull]) (by omega) gid hgid
    rw [cachedAt, List.getElem?_eq_none (by omega)] at hsome
    cases hsome
  unfold Covers
  obtain ⟨scale, hscale⟩ := hg.hash_dvd
  rw [hscale] at hpos hmul
  have hhbs : 0 < c.blockPool.hashBlockSize := Nat.pos_of_mul_pos_right hpos
  have hscale_pos : 0 < scale := Nat.pos_of_mul_pos_left hpos
  have hdiv : n / c.blockPool.hashBlockSize =
      n / (c.blockPool.hashBlockSize * scale) * scale := by
    conv_lhs => rw [← hmul, Nat.mul_left_comm, Nat.mul_div_cancel_left _ hhbs]
  rw [hdiv, ← hscale]
  unfold blockHashesAt at hlen
  split at hlen
  · rename_i heq
    have hone : scale = 1 := Nat.eq_of_mul_eq_mul_left hhbs (by omega)
    simpa [hone] using hlen
  · rw [List.length_map, List.length_range, hscale, Nat.mul_div_cancel_left _ hhbs] at hlen
    rw [hscale]
    exact (Nat.le_div_iff_mul_le hscale_pos).mp hlen

end Pass

/-! ### The fixed point -/

section Passes

variable {c : HybridKVCacheCoordinator κ τ} {blockHashes : List κ}
  {full : Option (AttentionGroup τ)} {sliding : List (AttentionGroup τ)}

structure Ordered (c : HybridKVCacheCoordinator κ τ) (full : Option (AttentionGroup τ))
    (sliding : List (AttentionGroup τ)) : Prop where
  groups : c.attentionGroups = full.toList ++ sliding
  first : ∀ f ∈ full, f.spec.isFullAttention = true
  others : ∀ g ∈ sliding, g.spec.isFullAttention = false
  nonempty : c.attentionGroups ≠ []
  regular : ∀ g ∈ c.attentionGroups, c.Regular g
  disjoint : c.attentionGroups.Pairwise fun g g' => ∀ i ∈ g.groupIds, i ∉ g'.groupIds

/-- The state between two passes: the full-attention hits are not looked up yet or longer than
the candidate. -/
structure Ready (c : HybridKVCacheCoordinator κ τ) (blockHashes : List κ)
    (full : Option (AttentionGroup τ)) (hits : HitBlocks) (curr : Nat) : Prop where
  held : ∀ f ∈ full, (∀ gid ∈ f.groupIds, hits gid = none) ∨
    c.lcmBlockSize ∣ curr ∧ ∃ n, c.HoldsAt blockHashes hits f n ∧ curr ≤ n * f.spec.spec.blockSize
  covers : full.isSome ∨ Covers c.blockPool blockHashes curr

def acceptedSets (c : HybridKVCacheCoordinator κ τ) (blockHashes : List κ) : List (Set Nat) :=
  c.attentionGroups.map (c.accepted blockHashes)

structure Passed (c : HybridKVCacheCoordinator κ τ) (blockHashes : List κ)
    (full : Option (AttentionGroup τ)) (sliding : List (AttentionGroup τ)) (curr : Nat)
    (hits : HitBlocks) (curr' : Nat) : Prop where
  lowers : Lowering.Lowers (c.acceptedSets blockHashes) curr curr'
  first : ∀ f ∈ full, ∃ n, c.HoldsAt blockHashes hits f n ∧ curr' ≤ n * f.spec.spec.blockSize
  others : ∀ g ∈ sliding, ∃ n, c.HoldsAt blockHashes hits g n ∧
    curr' ≤ n * g.spec.spec.blockSize ∧ n * g.spec.spec.blockSize ≤ curr ∧
    ∀ f ∈ full, n * g.spec.spec.blockSize ∈ c.accepted blockHashes f

/-- The full-attention group is looked up in the first pass and accepts the candidate as it is in
the later ones. -/
theorem pass_full {hits : HitBlocks} {curr : Nat}
    (gs : List (AttentionGroup τ)) (hf : f.spec.isFullAttention = true) (hreg : c.Regular f)
    (hr : Ready c blockHashes (some f) hits curr) :
    ∃ hits' n m, c.pass blockHashes (f :: gs) hits curr = c.pass blockHashes gs hits' m ∧
      c.HoldsAt blockHashes hits' f n ∧ m ≤ n * f.spec.spec.blockSize ∧
      IsGreatest (c.accepted blockHashes f ∩ Set.Iic curr) m := by
  obtain ⟨gid, hgid⟩ : ∃ gid, f.groupIds.head? = some gid :=
    ⟨_, List.head?_eq_some_head hreg.nonempty⟩
  have hmem : gid ∈ f.groupIds := List.mem_of_mem_head? hgid
  rcases hr.held f rfl with hnone | ⟨hdvd, n, hhold, hle⟩
  · have hnew : ¬ (f.spec.isFullAttention = true ∧
        (f.groupIds.head?.bind hits).isSome = true) := by
      rw [hgid, Option.bind_some, hnone gid hmem]
      simp
    obtain ⟨rows, hhit, hpass⟩ := pass_lookup gs hreg (Or.inl hf) hnew
    exact ⟨_, rows.length, _, hpass, holdsAt_store hhit, le_rfl, hhit.greatest⟩
  · refine ⟨hits, n, curr, ?_, hhold, hle, ⟨accepted_of_le hf hhold.accepted hle hdvd,
      Set.mem_Iic.mpr le_rfl⟩, fun x hx => hx.2⟩
    obtain ⟨blocks, hblocks, -⟩ := hhold.lists gid hmem
    rw [pass, if_pos ⟨hf, by rw [hgid, Option.bind_some, hblocks]; rfl⟩,
      Nat.div_mul_cancel (hreg.dvd_lcm.trans hdvd)]

theorem pass_ok (ho : Ordered c full sliding) {hits : HitBlocks} {curr : Nat}
    (hr : Ready c blockHashes full hits curr) :
    ∃ hits' curr', c.pass blockHashes c.attentionGroups hits curr = .ok (hits', curr') ∧
      Passed c blockHashes full sliding curr hits' curr' := by
  have hreg := ho.regular
  have hdisj := ho.disjoint
  cases full with
  | none =>
    have hgroups : c.attentionGroups = sliding := ho.groups
    rw [hgroups] at hreg hdisj
    obtain ⟨hits', curr', hok, hlow, -, hold⟩ := pass_sliding hits hreg ho.others hdisj
      (hr.covers.resolve_left (by simp))
    refine ⟨hits', curr', by rw [hgroups]; exact hok,
      by rw [acceptedSets, hgroups]; exact hlow, by simp, ?_⟩
    intro g hg
    obtain ⟨n, hn, hlo, hhi⟩ := hold g hg
    exact ⟨n, hn, hlo, hhi, by simp⟩
  | some f =>
    have hgroups : c.attentionGroups = f :: sliding := ho.groups
    have hf : f.spec.isFullAttention = true := ho.first f rfl
    rw [hgroups] at hreg hdisj
    obtain ⟨hne, hrest⟩ := List.pairwise_cons.mp hdisj
    have hregf := hreg f List.mem_cons_self
    obtain ⟨hits₁, n, m, hpass, hhold, hmn, hgreatest⟩ := pass_full sliding hf hregf hr
    obtain ⟨hits', curr', hok, hlow, hkeep, hold⟩ := pass_sliding hits₁
      (fun g hg => hreg g (List.mem_cons_of_mem f hg)) ho.others hrest
      (covers_of_accepted hregf hf hgreatest.1.1)
    refine ⟨hits', curr', by rw [hgroups, hpass]; exact hok,
      by rw [acceptedSets, hgroups]; exact .cons hgreatest hlow, ?_, ?_⟩
    · rintro f' ⟨⟩
      refine ⟨n, ⟨?_, hhold.accepted⟩, hlow.le.trans hmn⟩
      intro gid hgid
      rw [hkeep gid fun g hg => hne g hg gid hgid]
      exact hhold.lists gid hgid
    · intro g hg
      obtain ⟨k, hk, hlo, hhi⟩ := hold g hg
      refine ⟨k, hk, hlo, hhi.trans hgreatest.1.2, ?_⟩
      rintro f' ⟨⟩
      exact accepted_of_le hf hgreatest.1.1 hhi hk.accepted.1

structure Settled (c : HybridKVCacheCoordinator κ τ) (blockHashes : List κ)
    (full : Option (AttentionGroup τ)) (sliding : List (AttentionGroup τ)) (maxLength : Nat)
    (hits : HitBlocks) (hitLength : Nat) : Prop where
  greatest : IsGreatest {x | (∀ A ∈ c.acceptedSets blockHashes, x ∈ A) ∧ x ≤ maxLength} hitLength
  first : ∀ f ∈ full, ∃ n, c.HoldsAt blockHashes hits f n ∧ hitLength ≤ n * f.spec.spec.blockSize
  others : ∀ g ∈ sliding, ∃ n, c.HoldsAt blockHashes hits g n ∧
    n * g.spec.spec.blockSize = hitLength

variable {curr' : Nat}

theorem Passed.dvd {curr : Nat} {hits : HitBlocks} (ho : Ordered c full sliding)
    (h : Passed c blockHashes full sliding curr hits curr') : c.lcmBlockSize ∣ curr' := by
  obtain ⟨A, hA, hmem⟩ := h.lowers.exists_mem (by simpa [acceptedSets] using ho.nonempty)
  obtain ⟨g, -, rfl⟩ := List.mem_map.mp hA
  exact hmem.1

theorem Passed.ready {curr : Nat} {hits : HitBlocks} (ho : Ordered c full sliding)
    (h : Passed c blockHashes full sliding curr hits curr')
    (hcov : full.isSome ∨ Covers c.blockPool blockHashes curr) :
    Ready c blockHashes full hits curr' :=
  ⟨fun f hf => Or.inr ⟨h.dvd ho, h.first f hf⟩,
    hcov.imp_right fun hcov => Covers.mono hcov h.lowers.le⟩

theorem Passed.settled_of_le {curr : Nat} {hits : HitBlocks}
    (h : Passed c blockHashes full sliding curr hits curr') (hle : curr ≤ curr')
    (hmax : curr ≤ maxLength)
    (hup : ∀ x, (∀ A ∈ c.acceptedSets blockHashes, x ∈ A) → x ≤ maxLength → x ≤ curr) :
    Settled c blockHashes full sliding maxLength hits curr := by
  refine ⟨h.lowers.isGreatest_of_le hle hmax hup, ?_, ?_⟩
  · intro f hf
    obtain ⟨n, hn, hlo⟩ := h.first f hf
    exact ⟨n, hn, hle.trans hlo⟩
  · intro g hg
    obtain ⟨n, hn, hlo, hhi, -⟩ := h.others g hg
    exact ⟨n, hn, le_antisymm hhi (hle.trans hlo)⟩

/-- With full attention and one other group a single pass is enough. -/
theorem Passed.settled_of_simple {curr : Nat} {hits : HitBlocks}
    {g : AttentionGroup τ} (ho : Ordered c (some f) [g])
    (h : Passed c blockHashes (some f) [g] curr hits curr') (hmax : curr ≤ maxLength)
    (hup : ∀ x, (∀ A ∈ c.acceptedSets blockHashes, x ∈ A) → x ≤ maxLength → x ≤ curr) :
    Settled c blockHashes (some f) [g] maxLength hits curr' := by
  have hsets : c.acceptedSets blockHashes =
      [c.accepted blockHashes f, c.accepted blockHashes g] := by
    rw [acceptedSets, ho.groups]
    rfl
  obtain ⟨n, hn, hlo⟩ := h.first f rfl
  obtain ⟨k, hk, hklo, hkhi, hkf⟩ := h.others g List.mem_cons_self
  -- what `g` found is accepted by both, so the pass cannot end below it
  have hkeq : k * g.spec.spec.blockSize = curr' := by
    refine le_antisymm (h.lowers.common_le ?_ hkhi) hklo
    rw [hsets]
    intro A hA
    rcases List.mem_cons.mp hA with rfl | hA
    · exact hkf f rfl
    · rw [List.mem_singleton.mp hA]
      exact hk.accepted
  refine ⟨⟨⟨?_, h.lowers.le.trans hmax⟩, fun x hx => ?_⟩, h.first, ?_⟩
  · rw [hsets]
    intro A hA
    rcases List.mem_cons.mp hA with rfl | hA
    · exact hkeq ▸ hkf f rfl
    · rw [List.mem_singleton.mp hA]
      exact hkeq ▸ hk.accepted
  · exact h.lowers.common_le hx.1 (hup x hx.1 hx.2)
  · intro g' hg'
    obtain rfl := List.mem_singleton.mp hg'
    exact ⟨k, hk, hkeq⟩

theorem exists_of_isSimpleHybrid (ho : Ordered c full sliding) (h : c.isSimpleHybrid = true) :
    ∃ f g, full = some f ∧ sliding = [g] := by
  have hgroups := ho.groups
  rw [isSimpleHybrid, Bool.and_eq_true, decide_eq_true_iff] at h
  obtain ⟨hlen, hhead⟩ := h
  cases full with
  | none =>
    have hs : c.attentionGroups = sliding := hgroups
    rw [hs] at hlen hhead
    cases sliding with
    | nil => cases hlen
    | cons g sliding =>
      have := ho.others g List.mem_cons_self
      simp only [List.head?_cons, Option.any_some] at hhead
      rw [hhead] at this
      cases this
  | some f =>
    have hs : c.attentionGroups = f :: sliding := hgroups
    rw [hs, List.length_cons] at hlen
    obtain ⟨g, rfl⟩ := List.length_eq_one_iff.mp (Nat.succ.inj hlen)
    exact ⟨f, g, rfl, rfl⟩

/-- The passes end, with any fuel above the length they start from. -/
theorem passes_ok (ho : Ordered c full sliding) {hits : HitBlocks} {curr : Nat}
    (hr : Ready c blockHashes full hits curr) (hmax : curr ≤ maxLength)
    (hup : ∀ x, (∀ A ∈ c.acceptedSets blockHashes, x ∈ A) → x ≤ maxLength → x ≤ curr) :
    ∃ hits' hitLength, Settled c blockHashes full sliding maxLength hits' hitLength ∧
      ∀ fuel, curr < fuel → c.passes blockHashes fuel hits curr = .ok (some (hits', hitLength)) := by
  induction curr using Nat.strong_induction_on generalizing hits with
  | _ curr ih =>
    obtain ⟨hits₁, curr₁, hpass, hpassed⟩ := pass_ok ho hr
    have hrun : ∀ fuel, c.passes blockHashes (fuel + 1) hits curr =
        if curr ≤ curr₁ then .ok (some (hits₁, curr))
        else if c.isSimpleHybrid then .ok (some (hits₁, curr₁))
        else c.passes blockHashes fuel hits₁ curr₁ := by
      intro fuel
      rw [passes, hpass]
      rfl
    by_cases hle : curr ≤ curr₁
    · refine ⟨hits₁, curr, hpassed.settled_of_le hle hmax hup, ?_⟩
      rintro (_ | fuel) hfuel
      · omega
      · rw [hrun, if_pos hle]
    · by_cases hsimple : c.isSimpleHybrid = true
      · obtain ⟨f, g, rfl, rfl⟩ := exists_of_isSimpleHybrid ho hsimple
        refine ⟨hits₁, curr₁, hpassed.settled_of_simple ho hmax hup, ?_⟩
        rintro (_ | fuel) hfuel
        · omega
        · rw [hrun, if_neg hle, if_pos hsimple]
      · obtain ⟨hits', hitLength, hsettled, hok⟩ := ih curr₁ (by omega)
          (hpassed.ready ho hr.covers) (hpassed.lowers.le.trans hmax)
          (fun x hx hxmax => hpassed.lowers.common_le hx (hup x hx hxmax))
        refine ⟨hits', hitLength, hsettled, ?_⟩
        rintro (_ | fuel) hfuel
        · omega
        · rw [hrun, if_neg hle, if_neg hsimple]
          exact hok fuel (by omega)

end Passes

/-! ### The lookup -/

section Lookup

variable {pool : BlockPool κ} {specs : List (GroupSpec τ)} {c : HybridKVCacheCoordinator κ τ}
  {blockHashes : List κ}

/-- A hit of `hitLength` tokens that is valid in every KV-cache group. -/
structure IsCommonHit (pool : BlockPool κ) (specs : List (GroupSpec τ)) (blockHashes : List κ)
    (hitLength : Nat) (lists : List (List Nat)) : Prop where
  groups : lists.length = specs.length
  length : ∀ (i : Nat) (g : GroupSpec τ) (blocks : List Nat), specs[i]? = some g →
    lists[i]? = some blocks →
    g.spec.blockSize ∣ hitLength ∧ blocks.length = hitLength / g.spec.blockSize
  fullAttention : ∀ (i : Nat) (g : GroupSpec τ) (blocks : List Nat), specs[i]? = some g →
    lists[i]? = some blocks → g.spec.attention = .fullAttention → ∀ j b, blocks[j]? = some b →
      cachedAt pool blockHashes g.spec.blockSize i j = some b
  slidingWindow : ∀ (i : Nat) (g : GroupSpec τ) (blocks : List Nat) (w : Nat),
    specs[i]? = some g → lists[i]? = some blocks →
    g.spec.attention = .slidingWindow w → ∀ j b, blocks[j]? = some b →
      (cachedAt pool blockHashes g.spec.blockSize i j = some b ∨ b = pool.nullBlock) ∧
      (blocks.length - min (hitLength / g.spec.blockSize) (cdiv (w - 1) g.spec.blockSize) ≤ j →
        cachedAt pool blockHashes g.spec.blockSize i j = some b)

structure IsInit (pool : BlockPool κ) (specs : List (GroupSpec τ))
    (c : HybridKVCacheCoordinator κ τ) : Prop where
  blockPool : c.blockPool = pool
  kvCacheGroups : c.kvCacheGroups = specs
  lcm_eq : c.lcmBlockSize = lcmOf (specs.map (·.spec.blockSize))
  hash_dvd : ∀ g ∈ specs, pool.hashBlockSize ∣ g.spec.blockSize
  nonempty : c.attentionGroups ≠ []
  split : IsSplit specs specs.length c.attentionGroups
  order : ∃ fs ss, c.attentionGroups = fs ++ ss ∧
    (∀ f ∈ fs, f.spec.isFullAttention = true) ∧ ∀ g ∈ ss, g.spec.isFullAttention = false

theorem isInit_of_init (h : init pool specs = .ok c) : IsInit pool specs c := by
  simp only [init, assert_bind_eq_ok] at h
  obtain ⟨hdvd, htwo, hok⟩ := h
  obtain rfl := Except.ok.inj hok
  have hsplit := isSplit_splitGroups specs
  have hperm := List.filter_append_perm (fun g : AttentionGroup τ => g.spec.isFullAttention)
    (splitGroups 0 specs [])
  refine ⟨rfl, rfl, lcmOf_splitGroups specs, fun g hg => Nat.dvd_of_mod_eq_zero (hdvd g hg), ?_,
    ⟨?_, ?_, ?_, ?_⟩, _, _, rfl, ?_, ?_⟩
  · intro hnil
    have hlen := hperm.length_eq
    rw [show _ ++ _ = [] from hnil, List.length_nil] at hlen
    omega
  · exact fun g hg => hsplit.nonempty g (hperm.mem_iff.mp hg)
  · exact fun g hg => hsplit.spec_eq g (hperm.mem_iff.mp hg)
  · intro i hi
    obtain ⟨g, hg, hig⟩ := hsplit.cover i hi
    exact ⟨g, hperm.mem_iff.mpr hg, hig⟩
  · exact (hperm.map _).nodup_iff.mpr hsplit.nodup
  · exact fun f hf => (List.mem_filter.mp hf).2
  · exact fun g hg => by simpa using (List.mem_filter.mp hg).2

theorem IsSplit.disjoint {groups : List (AttentionGroup τ)} (h : IsSplit specs n groups) :
    groups.Pairwise fun g g' => ∀ i ∈ g.groupIds, i ∉ g'.groupIds := by
  refine (List.pairwise_map.mp h.nodup).imp_of_mem ?_
  intro g g' hg hg' hne i hi hi'
  exact hne (Option.some.inj ((h.spec_eq g hg i hi).symm.trans (h.spec_eq g' hg' i hi')))

theorem IsInit.ordered (h : IsInit pool specs c)
    (hspecs : ∀ g ∈ specs, g.spec.attention = .fullAttention ∨
      ∃ w, 2 ≤ w ∧ g.spec.attention = .slidingWindow w)
    (hone : ∀ g ∈ specs, ∀ g' ∈ specs, g.spec.attention = .fullAttention →
      g'.spec.attention = .fullAttention → g = g') :
    ∃ full sliding, Ordered c full sliding := by
  obtain ⟨fs, ss, hgroups, hfs, hss⟩ := h.order
  have hmem : ∀ g ∈ c.attentionGroups, g.spec ∈ specs := by
    intro g hg
    obtain ⟨i, hi⟩ := List.exists_mem_of_ne_nil _ (h.split.nonempty g hg)
    exact List.mem_of_getElem? (h.split.spec_eq g hg i hi)
  have hreg : ∀ g ∈ c.attentionGroups, c.Regular g := by
    intro g hg
    refine ⟨h.split.nonempty g hg, ?_, ?_, hspecs _ (hmem g hg)⟩
    · rw [h.lcm_eq]
      exact lcmOf_dvd_iff.mp dvd_rfl _ (List.mem_map.mpr ⟨g.spec, hmem g hg, rfl⟩)
    · rw [h.blockPool]
      exact h.hash_dvd _ (hmem g hg)
  -- two full-attention groups would have the same spec
  have hshort : ∃ full : Option (AttentionGroup τ), fs = full.toList := by
    match fs, hgroups, hfs with
    | [], _, _ => exact ⟨none, rfl⟩
    | [f], _, _ => exact ⟨some f, rfl⟩
    | f :: f' :: fs, hgroups, hfs =>
      have hnd := h.split.nodup
      rw [hgroups] at hnd
      have heq := hone f.spec (hmem f (by simp [hgroups])) f'.spec (hmem f' (by simp [hgroups]))
        (isFullAttention_iff.mp (hfs f (by simp))) (isFullAttention_iff.mp (hfs f' (by simp)))
      simp [heq] at hnd
  obtain ⟨full, rfl⟩ := hshort
  exact ⟨full, ss, hgroups, fun f hf => hfs f (Option.mem_toList.mpr hf), hss, h.nonempty, hreg,
    h.split.disjoint⟩

variable {hitLength : Nat}

theorem IsCommonHit.mem_accepted (h : IsInit pool specs c)
    {lists : List (List Nat)} (hhit : IsCommonHit pool specs blockHashes hitLength lists)
    (hspecs : ∀ g ∈ specs, g.spec.attention = .fullAttention ∨
    ∃ w, 2 ≤ w ∧ g.spec.attention = .slidingWindow w)
    (hdvd : lcmOf (specs.map (·.spec.blockSize)) ∣ hitLength) :
    ∀ A ∈ c.acceptedSets blockHashes, hitLength ∈ A := by
  intro A hA
  obtain ⟨g, hg, rfl⟩ := List.mem_map.mp hA
  refine ⟨h.lcm_eq ▸ hdvd, fun j hj hlt i hi => ?_⟩
  rw [h.blockPool]
  have hspec := h.split.spec_eq g hg i hi
  obtain ⟨blocks, hblocks⟩ : ∃ blocks, lists[i]? = some blocks := by
    refine ⟨_, List.getElem?_eq_getElem ?_⟩
    rw [hhit.groups]
    exact (List.getElem?_eq_some_iff.mp hspec).1
  have hlen := (hhit.length i g.spec blocks hspec hblocks).2
  obtain ⟨b, hb⟩ : ∃ b, blocks[j]? = some b := ⟨_, List.getElem?_eq_getElem (by omega)⟩
  have hcached : cachedAt pool blockHashes g.spec.spec.blockSize i j = some b := by
    rcases hspecs g.spec (List.mem_of_getElem? hspec) with hfull | ⟨w, -, hwin⟩
    · exact hhit.fullAttention i g.spec blocks hspec hblocks hfull j b hb
    · refine (hhit.slidingWindow i g.spec blocks w hspec hblocks hwin j b hb).2 ?_
      simp only [KVCacheSpec.firstNeeded, hwin] at hj
      omega
  rw [hcached]
  rfl

theorem truncate_of_mem {sliding : List (AttentionGroup τ)}
    (ho : Ordered c (some f) sliding) (hits : HitBlocks) (hitLength : Nat) {i : Nat}
    (hi : i ∈ f.groupIds) : c.truncate hits hitLength i =
      (hits i).map (·.take (hitLength / f.spec.spec.blockSize)) := by
  have hgroups : c.attentionGroups = f :: sliding := ho.groups
  simp only [truncate, hgroups, ho.first f rfl, if_true, if_pos hi]

theorem truncate_of_notMem {full : Option (AttentionGroup τ)} {sliding : List (AttentionGroup τ)}
    (ho : Ordered c full sliding) (hits : HitBlocks) (hitLength : Nat) {i : Nat}
    (hi : ∀ f ∈ full, i ∉ f.groupIds) : c.truncate hits hitLength i = hits i := by
  cases full with
  | none =>
    have hgroups : c.attentionGroups = sliding := ho.groups
    cases sliding with
    | nil => simp only [truncate, hgroups]
    | cons g sliding =>
      simp only [truncate, hgroups, ho.others g List.mem_cons_self, Bool.false_eq_true, if_false]
  | some f =>
    have hgroups : c.attentionGroups = f :: sliding := ho.groups
    simp only [truncate, hgroups, ho.first f rfl, if_true, if_neg (hi f rfl)]

theorem Settled.truncate {full : Option (AttentionGroup τ)} {sliding : List (AttentionGroup τ)}
    {hits : HitBlocks} (ho : Ordered c full sliding)
    (hs : Settled c blockHashes full sliding maxLength hits hitLength) {g : AttentionGroup τ}
    (hg : g ∈ c.attentionGroups) {i : Nat} (hi : i ∈ g.groupIds) :
    ∃ blocks, c.truncate hits hitLength i = some blocks ∧ g.spec.spec.blockSize ∣ hitLength ∧
      blocks.length = hitLength / g.spec.spec.blockSize ∧
      GroupHit g.spec.spec c.blockPool blockHashes i blocks := by
  have hpos := g.spec.spec.blockSize_pos
  have hdvd : g.spec.spec.blockSize ∣ hitLength := (ho.regular g hg).dvd_lcm.trans
    (hs.greatest.1.1 _ (List.mem_map.mpr ⟨g, hg, rfl⟩)).1
  have hmem := hg
  rw [ho.groups] at hmem
  rcases List.mem_append.mp hmem with hfirst | hother
  · obtain rfl := Option.mem_toList.mp hfirst
    obtain ⟨n, hn, hle⟩ := hs.first g rfl
    obtain ⟨blocks, hblocks, rfl, hhit⟩ := hn.lists i hi
    refine ⟨blocks.take (hitLength / g.spec.spec.blockSize), ?_, hdvd, ?_, ?_⟩
    · rw [truncate_of_mem ho hits hitLength hi, hblocks]
      rfl
    · rw [List.length_take]
      exact Nat.min_eq_left (Nat.div_le_of_le_mul (by rwa [Nat.mul_comm]))
    · intro j b hj
      rw [List.getElem?_take] at hj
      split at hj
      · refine Or.inl ((hhit j b hj).resolve_right fun hnull => ?_)
        simp [KVCacheSpec.firstNeeded, isFullAttention_iff.mp (ho.first g rfl)] at hnull
      · cases hj
  · obtain ⟨n, hn, hlen⟩ := hs.others g hother
    obtain ⟨blocks, hblocks, rfl, hhit⟩ := hn.lists i hi
    refine ⟨blocks, ?_, hdvd, ?_, hhit⟩
    · rw [truncate_of_notMem ho hits hitLength, hblocks]
      rintro f ⟨⟩ hif
      have hdisj := ho.disjoint
      rw [ho.groups] at hdisj
      exact (List.pairwise_cons.mp hdisj).1 g hother i hif hi
    · rw [← hlen, Nat.mul_div_cancel _ hpos]

theorem Settled.isCommonHit {full : Option (AttentionGroup τ)} {sliding : List (AttentionGroup τ)}
    {hits : HitBlocks} (h : IsInit pool specs c) (ho : Ordered c full sliding)
    (hs : Settled c blockHashes full sliding maxLength hits hitLength) :
    IsCommonHit pool specs blockHashes hitLength
      ((List.range specs.length).map fun gid => (c.truncate hits hitLength gid).getD []) := by
  have hlist : ∀ (i : Nat) (g : GroupSpec τ) (blocks : List Nat), specs[i]? = some g →
      ((List.range specs.length).map fun gid =>
        (c.truncate hits hitLength gid).getD [])[i]? = some blocks →
      g.spec.blockSize ∣ hitLength ∧ blocks.length = hitLength / g.spec.blockSize ∧
        GroupHit g.spec pool blockHashes i blocks := by
    intro i g blocks hi hblocks
    have hlt := (List.getElem?_eq_some_iff.mp hi).1
    obtain ⟨a, ha, hia⟩ := h.split.cover i hlt
    obtain rfl : a.spec = g := some_unique (h.split.spec_eq a ha i hia) hi
    obtain ⟨blocks', htrunc, hdvd, hlen, hhit⟩ := hs.truncate ho ha hia
    rw [List.getElem?_map, List.getElem?_range hlt, Option.map_some, htrunc] at hblocks
    obtain rfl : blocks' = blocks := by simpa using hblocks
    exact ⟨hdvd, hlen, h.blockPool ▸ hhit⟩
  refine ⟨by simp, ?_, ?_, ?_⟩
  · intro i g blocks hi hblocks
    obtain ⟨hdvd, hlen, -⟩ := hlist i g blocks hi hblocks
    exact ⟨hdvd, hlen⟩
  · intro i g blocks hi hblocks hfull j b hb
    refine ((hlist i g blocks hi hblocks).2.2 j b hb).resolve_right fun hnull => ?_
    simp [KVCacheSpec.firstNeeded, hfull] at hnull
  · intro i g blocks w hi hblocks hwin j b hb
    obtain ⟨-, hlen, hhit⟩ := hlist i g blocks hi hblocks
    refine ⟨(hhit j b hb).imp_right And.left, fun hj => (hhit j b hb).resolve_right fun hnull => ?_⟩
    simp only [KVCacheSpec.firstNeeded, hwin] at hnull
    omega

end Lookup

def cachingPool (entries : List (BlockHashWithGroupId Nat × Nat)) : BlockPool Nat where
  numGpuBlocks := 8
  enableCaching := true
  hashBlockSize := 1
  blocks := fun _ => {}
  freeBlockQueue := .init 8
  cachedBlockHashToBlock := entries.foldl (fun m e => m.insert e.1 e.2) .empty
  nullBlock := 0

def fullGroup : GroupSpec Nat := ⟨unitGroup, 0⟩

def wideGroup : GroupSpec Nat := ⟨⟨2, .fullAttention, none, Nat.two_pos, unitGroup.window_pos⟩, 0⟩

def windowGroup : GroupSpec Nat :=
  ⟨⟨1, .slidingWindow 2, none, Nat.one_pos, by rintro w ⟨⟩; decide⟩, 0⟩

/-- Two tokens are cached for full attention, the first of them for the sliding window. -/
def twoGroupPool : BlockPool Nat := cachingPool [(⟨[10], 0⟩, 1), (⟨[11], 0⟩, 2), (⟨[10], 1⟩, 3)]

/-- Four tokens are cached for full attention, at both block sizes, and the second of them for
the sliding window. -/
def threeGroupPool : BlockPool Nat := cachingPool
  [(⟨[10], 0⟩, 1), (⟨[11], 0⟩, 2), (⟨[12], 0⟩, 3), (⟨[13], 0⟩, 4),
    (⟨[10, 11], 1⟩, 5), (⟨[12, 13], 1⟩, 6), (⟨[11], 2⟩, 7)]

end HybridKVCacheCoordinator

end EldrServing.KVCache
