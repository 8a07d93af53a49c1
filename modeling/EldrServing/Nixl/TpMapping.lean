import EldrServing.Lib.FirstIndex
import EldrServing.Nixl.WorkerSend
import Mathlib.Tactic.Ring

/-!
# Tensor-parallel read mapping

`compute_tp_mapping` of `tp_mapping.py`: which ranks of the remote engine a local rank reads from,
and which of their heads, when the two engines have different tensor-parallel sizes. The ranks of
an engine of size `T` hold equal runs of the `K` heads if `T ≤ K`, and one head each otherwise.
-/

namespace EldrServing.Nixl

set_option autoImplicit false

open FirstIndex

/-- The fields of `TransferTopology` that the mapping reads. -/
structure TransferTopology where
  tpRank : Nat
  tpSize : Nat
  isMla : Bool
  totalNumKvHeads : Nat
  rank_lt : tpRank < tpSize
  heads_pos : 0 < totalNumKvHeads

/-- The class of a group's specification; `attention` is every class but `MambaSpec`. -/
inductive SpecType where
  | attention
  | mamba
  deriving DecidableEq, Repr

structure TPMapping where
  sourceRanksPerGroup : List (List Nat)
  allSourceRanks : List Nat
  rankToAttentionSlot : Dict Nat Nat
  rankOffsetFactor : Int

namespace TransferTopology

variable (t : TransferTopology) (remoteTpSize : Nat)

/-- The attention source ranks. Of several remote ranks with the same head the first is kept. -/
def attnRanks : List Nat :=
  if t.isMla ∨ remoteTpSize ≤ t.tpSize then [t.tpRank * remoteTpSize / t.tpSize]
  else
    let absTp := remoteTpSize / t.tpSize
    let start := t.tpRank * absTp
    let heads := (List.range' start absTp).map fun r => r * t.totalNumKvHeads / remoteTpSize
    (firstIndices heads).map fun j => start + j

def ssmRanks (groupSpecTypes : List SpecType) : List Nat :=
  if SpecType.mamba ∈ groupSpecTypes then
    if t.tpSize < remoteTpSize then
      let absTp := remoteTpSize / t.tpSize
      List.range' (t.tpRank * absTp) ((t.tpRank + 1) * absTp - t.tpRank * absTp)
    else t.attnRanks remoteTpSize
  else []

def allRanks (groupSpecTypes : List SpecType) : List Nat :=
  (t.attnRanks remoteTpSize ++ t.ssmRanks remoteTpSize groupSpecTypes).dedup.insertionSort (· ≤ ·)

/-- The head slots: the index of the source rank that holds the head. -/
def headToSlot : Dict Nat Nat :=
  (t.attnRanks remoteTpSize).zipIdx.foldl
    (fun slots e => slots.insert (e.1 * t.totalNumKvHeads / remoteTpSize) e.2) .empty

def rankOffsetFactor : Int :=
  if t.isMla ∨ t.tpSize ≤ remoteTpSize then 0
  else if t.totalNumKvHeads < t.tpSize then
    let localHead := t.tpRank * t.totalNumKvHeads / t.tpSize
    let pStart := (t.attnRanks remoteTpSize).headD 0 * t.totalNumKvHeads / remoteTpSize
    (localHead : Int) - pStart
  else (t.tpRank % (t.tpSize / remoteTpSize) : Nat)

def computeTpMapping (groupSpecTypes : List SpecType) : TPMapping where
  sourceRanksPerGroup := groupSpecTypes.map fun
    | .mamba => t.ssmRanks remoteTpSize groupSpecTypes
    | .attention => t.attnRanks remoteTpSize
  allSourceRanks := t.allRanks remoteTpSize groupSpecTypes
  rankToAttentionSlot := (t.allRanks remoteTpSize groupSpecTypes).foldl
    (fun slots r => slots.insert r
      ((t.headToSlot remoteTpSize).getD (r * t.totalNumKvHeads / remoteTpSize) 0)) .empty
  rankOffsetFactor := t.rankOffsetFactor remoteTpSize

def handshakeTargetRanks : Except PyError (List Nat) := do
  let ratio ← tpRatio t.tpSize remoteTpSize
  if 0 < ratio then .ok [t.tpRank / ratio.toNat]
  else
    let absRatio := (-ratio).toNat
    .ok ((List.range absRatio).map fun i => t.tpRank * absRatio + i)

end TransferTopology

/-! ### Heads -/

def headsOf (heads size rank : Nat) : List Nat :=
  if size ≤ heads then
    List.range' (rank * heads / size) ((rank + 1) * heads / size - rank * heads / size)
  else [rank * heads / size]

theorem headsOf_mul {size : Nat} (hsize : 0 < size) {k : Nat} (hk : 0 < k) (rank : Nat) :
    headsOf (size * k) size rank = List.range' (rank * k) k := by
  have hdiv : ∀ r, r * (size * k) / size = r * k := by
    intro r
    rw [Nat.mul_left_comm, Nat.mul_div_cancel_left _ hsize]
  rw [headsOf, if_pos (Nat.le_mul_of_pos_right _ hk), hdiv, hdiv, Nat.succ_mul,
    Nat.add_sub_cancel_left]

theorem mul_div_mul_self {heads : Nat} (hheads : 0 < heads) (b rank : Nat) :
    rank * heads / (b * heads) = rank / b := by
  rw [Nat.mul_div_mul_right _ _ hheads]

theorem headsOf_replicated {heads : Nat} (hheads : 0 < heads) {b : Nat} (hb : 1 < b)
    (rank : Nat) : headsOf heads (b * heads) rank = [rank / b] := by
  have hlt : ¬ b * heads ≤ heads := by
    have := Nat.mul_le_mul_right heads hb
    omega
  rw [headsOf, if_neg hlt, mul_div_mul_self hheads]

theorem flatMap_range'_blocks (c k n : Nat) :
    (List.range n).flatMap (fun j => List.range' (c + j * k) k) = List.range' c (n * k) := by
  induction n with
  | zero => simp
  | succ n ih =>
    rw [List.range_succ, List.flatMap_append, ih, List.flatMap_singleton, List.range'_append_1,
      Nat.succ_mul]

theorem take_drop_range' (start : Nat) {n offset len : Nat} (h : offset + len ≤ n) :
    ((List.range' start n).drop offset).take len = List.range' (start + offset) len := by
  obtain ⟨rest, rfl⟩ := Nat.exists_eq_add_of_le h
  rw [Nat.add_assoc, ← List.range'_append_1, List.drop_left' List.length_range',
    ← List.range'_append_1, List.take_left' List.length_range']

theorem one_lt_of_not_dvd {x y b : Nat} (hx : 0 < x) (h : x = y * b) (hdvd : ¬ x ∣ y) :
    1 < b := by
  have h₀ : b ≠ 0 := by
    rintro rfl
    omega
  have h₁ : b ≠ 1 := by
    rintro rfl
    exact hdvd ⟨1, by omega⟩
  omega

theorem dvd_of_lt {x y : Nat} (hx : 0 < x) (hlt : x < y) (h : x ∣ y ∨ y ∣ x) : x ∣ y :=
  h.resolve_right fun hdvd => Nat.not_lt_of_le (Nat.le_of_dvd hx hdvd) hlt

theorem dvd_of_le {x y : Nat} (hy : 0 < y) (hle : y ≤ x) (h : x ∣ y ∨ y ∣ x) : y ∣ x := by
  rcases h with h | h
  · exact Nat.le_antisymm hle (Nat.le_of_dvd hy h) ▸ Nat.dvd_refl _
  · exact h

namespace TransferTopology

variable {t : TransferTopology} {remoteTpSize : Nat}

/-! ### Many remote ranks -/

theorem attnRanks_of_lt (hmla : t.isMla = false) (hlt : t.tpSize < remoteTpSize) :
    t.attnRanks remoteTpSize =
      (firstIndices ((List.range (remoteTpSize / t.tpSize)).map fun j =>
        (t.tpRank * (remoteTpSize / t.tpSize) + j) * t.totalNumKvHeads / remoteTpSize)).map
          fun j => t.tpRank * (remoteTpSize / t.tpSize) + j := by
  have hcond : ¬ (t.isMla = true ∨ remoteTpSize ≤ t.tpSize) := by
    rintro (h | h)
    · exact absurd (hmla.symm.trans h) Bool.false_ne_true
    · omega
  rw [attnRanks, if_neg hcond]
  simp only [List.range'_eq_map_range, List.map_map, Function.comp_def]

/-- More remote ranks than heads or as many: every rank is read. -/
theorem attnRanks_covers_split (hmla : t.isMla = false) {n k : Nat} (hn : 1 < n) (hk : 0 < k)
    (hremote : remoteTpSize = t.tpSize * n) (hheads : t.totalNumKvHeads = remoteTpSize * k) :
    (t.attnRanks remoteTpSize).flatMap (headsOf t.totalNumKvHeads remoteTpSize) =
      headsOf t.totalNumKvHeads t.tpSize t.tpRank := by
  have hsize : 0 < t.tpSize := Nat.zero_lt_of_lt t.rank_lt
  have hlt : t.tpSize < remoteTpSize := hremote ▸ lt_mul_of_one_lt_right hsize hn
  have hpos : 0 < remoteTpSize := hsize.trans hlt
  have hratio : remoteTpSize / t.tpSize = n := by rw [hremote, Nat.mul_div_cancel_left _ hsize]
  have hhead : ∀ j, (t.tpRank * n + j) * (remoteTpSize * k) / remoteTpSize =
      (t.tpRank * n + j) * k := by
    intro j
    rw [Nat.mul_left_comm, Nat.mul_div_cancel_left _ hpos]
  have hmono : StrictMono fun j => (t.tpRank * n + j) * k := by
    intro i j hij
    exact Nat.mul_lt_mul_of_pos_right (Nat.add_lt_add_left hij _) hk
  rw [attnRanks_of_lt hmla hlt, hratio, hheads]
  simp only [hhead]
  rw [firstIndices_of_strictMono n hmono, List.flatMap_map]
  simp only [headsOf_mul hpos hk, Nat.add_mul]
  rw [flatMap_range'_blocks, hremote, Nat.mul_assoc t.tpSize, Nat.mul_assoc t.tpRank,
    headsOf_mul hsize (Nat.mul_pos (Nat.zero_lt_of_lt hn) hk)]

/-- More remote ranks than heads, and every local rank holds `m` heads: one rank of each `b` is
read. -/
theorem attnRanks_covers_dedup (hmla : t.isMla = false) {b m : Nat} (hb : 1 < b) (hm : 0 < m)
    (hheads : t.totalNumKvHeads = t.tpSize * m) (hremote : remoteTpSize = b * t.totalNumKvHeads) :
    (t.attnRanks remoteTpSize).flatMap (headsOf t.totalNumKvHeads remoteTpSize) =
      headsOf t.totalNumKvHeads t.tpSize t.tpRank := by
  have hsize : 0 < t.tpSize := Nat.zero_lt_of_lt t.rank_lt
  have hb₀ : 0 < b := Nat.zero_lt_of_lt hb
  have hprod : remoteTpSize = t.tpSize * (m * b) := by
    rw [hremote, hheads]
    ring
  have hratio : remoteTpSize / t.tpSize = m * b := by rw [hprod, Nat.mul_div_cancel_left _ hsize]
  have hlt : t.tpSize < remoteTpSize := by
    rw [hprod]
    exact lt_mul_of_one_lt_right hsize (Nat.lt_of_lt_of_le hb (Nat.le_mul_of_pos_left _ hm))
  have hhead : ∀ j, (t.tpRank * (m * b) + j) / b = t.tpRank * m + j / b := by
    intro j
    rw [← Nat.mul_assoc, Nat.mul_comm _ b, Nat.mul_add_div hb₀]
  rw [attnRanks_of_lt hmla hlt, hratio, hremote]
  simp only [mul_div_mul_self t.heads_pos, hhead]
  rw [firstIndices_div _ _ hb₀, List.map_map, List.flatMap_map]
  simp only [headsOf_replicated t.heads_pos hb, Function.comp_def, hhead,
    Nat.mul_div_cancel _ hb₀]
  rw [hheads, headsOf_mul hsize hm, List.range'_eq_map_range, ← List.map_eq_flatMap]

/-- More ranks than heads on both sides: one rank is read. -/
theorem attnRanks_covers_replicated (hmla : t.isMla = false) {a n : Nat} (ha : 1 < a) (hn : 1 < n)
    (hsize : t.tpSize = a * t.totalNumKvHeads) (hremote : remoteTpSize = t.tpSize * n) :
    (t.attnRanks remoteTpSize).flatMap (headsOf t.totalNumKvHeads remoteTpSize) =
      headsOf t.totalNumKvHeads t.tpSize t.tpRank := by
  have hpos : 0 < t.tpSize := Nat.zero_lt_of_lt t.rank_lt
  have hn₀ : 0 < n := Nat.zero_lt_of_lt hn
  have hlt : t.tpSize < remoteTpSize := hremote ▸ lt_mul_of_one_lt_right hpos hn
  have hratio : remoteTpSize / t.tpSize = n := by rw [hremote, Nat.mul_div_cancel_left _ hpos]
  have hprod : remoteTpSize = n * a * t.totalNumKvHeads := by
    rw [hremote, hsize]
    ring
  have hhead : ∀ j ∈ List.range n, (t.tpRank * n + j) / (n * a) = t.tpRank / a + j / n := by
    intro j hj
    have hj : j / n = 0 := Nat.div_eq_of_lt (List.mem_range.mp hj)
    rw [← Nat.div_div_eq_div_mul, Nat.mul_comm, Nat.mul_add_div hn₀, hj, Nat.add_zero, Nat.add_zero]
  have hna : 1 < n * a := Nat.lt_of_lt_of_le ha (Nat.le_mul_of_pos_left _ hn₀)
  have hone := firstIndices_div (t.tpRank / a) 1 hn₀
  rw [Nat.one_mul] at hone
  rw [attnRanks_of_lt hmla hlt, hratio, hprod, hsize]
  simp only [mul_div_mul_self t.heads_pos]
  rw [List.map_congr_left hhead, hone, headsOf_replicated t.heads_pos ha]
  have hzero := hhead 0 (List.mem_range.mpr hn₀)
  rw [Nat.zero_div, Nat.add_zero, Nat.add_zero] at hzero
  simp [headsOf_replicated t.heads_pos hna, hzero]

theorem attnRanks_covers (hmla : t.isMla = false) (hlt : t.tpSize < remoteTpSize)
    (hdvd : t.tpSize ∣ remoteTpSize)
    (hlocal : t.tpSize ∣ t.totalNumKvHeads ∨ t.totalNumKvHeads ∣ t.tpSize)
    (hremote : remoteTpSize ∣ t.totalNumKvHeads ∨ t.totalNumKvHeads ∣ remoteTpSize) :
    (t.attnRanks remoteTpSize).flatMap (headsOf t.totalNumKvHeads remoteTpSize) =
      headsOf t.totalNumKvHeads t.tpSize t.tpRank := by
  have hsize : 0 < t.tpSize := Nat.zero_lt_of_lt t.rank_lt
  have hpos : 0 < remoteTpSize := hsize.trans hlt
  obtain ⟨n, hn⟩ := hdvd
  have hn₁ : 1 < n :=
    one_lt_of_not_dvd hpos hn fun h => Nat.not_lt_of_le (Nat.le_of_dvd hsize h) hlt
  by_cases hsplit : remoteTpSize ∣ t.totalNumKvHeads
  · obtain ⟨k, hk⟩ := hsplit
    have hk₀ : 0 < k := Nat.pos_of_mul_pos_left (hk ▸ t.heads_pos)
    exact attnRanks_covers_split hmla hn₁ hk₀ hn hk
  · obtain ⟨b, hb⟩ := hremote.resolve_left hsplit
    have hb₁ : 1 < b := one_lt_of_not_dvd hpos hb hsplit
    by_cases hheads : t.tpSize ∣ t.totalNumKvHeads
    · obtain ⟨m, hm⟩ := hheads
      have hm₀ : 0 < m := Nat.pos_of_mul_pos_left (hm ▸ t.heads_pos)
      exact attnRanks_covers_dedup hmla hb₁ hm₀ hm (hb.trans (Nat.mul_comm _ _))
    · obtain ⟨a, ha⟩ := hlocal.resolve_left hheads
      have ha₁ : 1 < a := one_lt_of_not_dvd hsize ha hheads
      exact attnRanks_covers_replicated hmla ha₁ hn₁ (ha.trans (Nat.mul_comm _ _)) hn

/-! ### One remote rank -/

theorem attnRanks_of_le (hle : remoteTpSize ≤ t.tpSize) :
    t.attnRanks remoteTpSize = [t.tpRank * remoteTpSize / t.tpSize] :=
  if_pos (.inr hle)

/-- The heads read of one source rank: at the offset, in what the rank holds, and the local ones. -/
structure ReadsAt (t : TransferTopology) (remoteTpSize source offset : Nat) : Prop where
  factor : (offset : Int) = t.rankOffsetFactor remoteTpSize *
    (headsOf t.totalNumKvHeads t.tpSize t.tpRank).length
  within : offset + (headsOf t.totalNumKvHeads t.tpSize t.tpRank).length ≤
    (headsOf t.totalNumKvHeads remoteTpSize source).length
  heads : ((headsOf t.totalNumKvHeads remoteTpSize source).drop offset).take
    (headsOf t.totalNumKvHeads t.tpSize t.tpRank).length =
      headsOf t.totalNumKvHeads t.tpSize t.tpRank

theorem rankOffsetFactor_of_replicated (hmla : t.isMla = false)
    (hheads : t.totalNumKvHeads < t.tpSize) (hlt : remoteTpSize < t.tpSize) :
    t.rankOffsetFactor remoteTpSize = (t.tpRank * t.totalNumKvHeads / t.tpSize : Nat) -
      (t.tpRank * remoteTpSize / t.tpSize * t.totalNumKvHeads / remoteTpSize : Nat) := by
  have hcond : ¬ (t.isMla = true ∨ t.tpSize ≤ remoteTpSize) := by
    rintro (h | h)
    · exact absurd (hmla.symm.trans h) Bool.false_ne_true
    · omega
  rw [rankOffsetFactor, if_neg hcond, if_pos hheads, attnRanks_of_le (Nat.le_of_lt hlt)]
  rfl

theorem rankOffsetFactor_of_split (hmla : t.isMla = false) {s k : Nat} (hs : 0 < s) (hk : 0 < k)
    (hremote : 0 < remoteTpSize) (hsize : t.tpSize = remoteTpSize * s)
    (hheads : t.totalNumKvHeads = t.tpSize * k) :
    t.rankOffsetFactor remoteTpSize = (t.tpRank % s : Nat) := by
  have hle : t.tpSize ≤ t.totalNumKvHeads := hheads ▸ Nat.le_mul_of_pos_right _ hk
  by_cases hlt : remoteTpSize < t.tpSize
  · have hcond : ¬ (t.isMla = true ∨ t.tpSize ≤ remoteTpSize) := by
      rintro (h | h)
      · exact absurd (hmla.symm.trans h) Bool.false_ne_true
      · omega
    rw [rankOffsetFactor, if_neg hcond, if_neg (Nat.not_lt_of_le hle), hsize,
      Nat.mul_div_cancel_left _ hremote]
  · have hs₁ : s = 1 := by
      have hle' : remoteTpSize * s ≤ remoteTpSize * 1 := by omega
      have := Nat.le_of_mul_le_mul_left hle' hremote
      omega
    rw [rankOffsetFactor, if_pos (.inr (Nat.le_of_not_lt hlt)), hs₁, Nat.mod_one]
    rfl

/-- A rank of the remote engine holds the heads of `s` local ranks. -/
theorem readsAt_split (hmla : t.isMla = false) {s k : Nat} (hs : 0 < s) (hk : 0 < k)
    (hremote : 0 < remoteTpSize) (hsize : t.tpSize = remoteTpSize * s)
    (hheads : t.totalNumKvHeads = t.tpSize * k) :
    ReadsAt t remoteTpSize (t.tpRank * remoteTpSize / t.tpSize) (t.tpRank % s * k) := by
  have hpos : 0 < t.tpSize := Nat.zero_lt_of_lt t.rank_lt
  have hsource : t.tpRank * remoteTpSize / t.tpSize = t.tpRank / s := by
    rw [hsize, Nat.mul_comm, Nat.mul_div_mul_left _ _ hremote]
  have hlocal : headsOf t.totalNumKvHeads t.tpSize t.tpRank = List.range' (t.tpRank * k) k := by
    rw [hheads, headsOf_mul hpos hk]
  have hheld : headsOf t.totalNumKvHeads remoteTpSize (t.tpRank / s) =
      List.range' (t.tpRank / s * (s * k)) (s * k) := by
    rw [hheads, hsize, Nat.mul_assoc, headsOf_mul hremote (Nat.mul_pos hs hk)]
  have hwithin : t.tpRank % s * k + k ≤ s * k := by
    rw [← Nat.succ_mul]
    exact Nat.mul_le_mul_right k (Nat.mod_lt _ hs)
  have hstart : t.tpRank / s * (s * k) + t.tpRank % s * k = t.tpRank * k := by
    rw [← Nat.mul_assoc, ← Nat.add_mul, Nat.div_add_mod']
  rw [hsource]
  refine ⟨?_, ?_, ?_⟩
  · rw [rankOffsetFactor_of_split hmla hs hk hremote hsize hheads, hlocal, List.length_range']
    push_cast
    rfl
  · rw [hlocal, hheld, List.length_range', List.length_range']
    exact hwithin
  · rw [hlocal, hheld, List.length_range', take_drop_range' _ hwithin, hstart]

/-- More local ranks than heads, and a rank of the remote engine holds `k` of them. -/
theorem readsAt_replicated (hmla : t.isMla = false) {a k : Nat} (ha : 1 < a) (hk : 0 < k)
    (hremote : 0 < remoteTpSize) (hheads : t.totalNumKvHeads = remoteTpSize * k)
    (hsize : t.tpSize = a * t.totalNumKvHeads) :
    ReadsAt t remoteTpSize (t.tpRank * remoteTpSize / t.tpSize) (t.tpRank / a % k) := by
  have hlt : t.totalNumKvHeads < t.tpSize := hsize ▸ lt_mul_of_one_lt_left t.heads_pos ha
  have hle : remoteTpSize ≤ t.totalNumKvHeads := hheads ▸ Nat.le_mul_of_pos_right _ hk
  have hsource : t.tpRank * remoteTpSize / t.tpSize = t.tpRank / a / k := by
    rw [hsize, hheads, Nat.mul_left_comm, Nat.mul_comm t.tpRank,
      Nat.mul_div_mul_left _ _ hremote, Nat.div_div_eq_div_mul]
  have hlocal : headsOf t.totalNumKvHeads t.tpSize t.tpRank = [t.tpRank / a] := by
    rw [hsize, headsOf_replicated t.heads_pos ha]
  have hheld : ∀ q, headsOf t.totalNumKvHeads remoteTpSize q = List.range' (q * k) k := by
    intro q
    rw [hheads, headsOf_mul hremote hk]
  have hstart : t.tpRank / a / k * k + t.tpRank / a % k = t.tpRank / a := Nat.div_add_mod' _ _
  have hmod : t.tpRank / a % k < k := Nat.mod_lt _ hk
  refine ⟨?_, ?_, ?_⟩
  · have hhead : t.tpRank * t.totalNumKvHeads / t.tpSize = t.tpRank / a := by
      rw [hsize, mul_div_mul_self t.heads_pos]
    have hfirst : t.tpRank / a / k * t.totalNumKvHeads / remoteTpSize = t.tpRank / a / k * k := by
      rw [hheads, Nat.mul_left_comm, Nat.mul_div_cancel_left _ hremote]
    rw [rankOffsetFactor_of_replicated hmla hlt (Nat.lt_of_le_of_lt hle hlt), hsource, hhead,
      hfirst, hlocal, List.length_singleton]
    omega
  · rw [hlocal, hheld, List.length_range', List.length_singleton]
    exact hmod
  · rw [hlocal, hsource, hheld, List.length_singleton, take_drop_range' _ hmod, hstart]
    rfl

/-- More ranks than heads on both sides. -/
theorem readsAt_replicated_both (hmla : t.isMla = false) {b s : Nat} (hb : 1 < b) (hs : 0 < s)
    (hremote : remoteTpSize = b * t.totalNumKvHeads) (hsize : t.tpSize = remoteTpSize * s) :
    ReadsAt t remoteTpSize (t.tpRank * remoteTpSize / t.tpSize) 0 := by
  have hgt : t.totalNumKvHeads < remoteTpSize := hremote ▸ lt_mul_of_one_lt_left t.heads_pos hb
  have hpos : 0 < remoteTpSize := t.heads_pos.trans hgt
  have hle : remoteTpSize ≤ t.tpSize := hsize ▸ Nat.le_mul_of_pos_right _ hs
  have hprod : t.tpSize = s * b * t.totalNumKvHeads := by
    rw [hsize, hremote]
    ring
  have hsb : 1 < s * b := Nat.lt_of_lt_of_le hb (Nat.le_mul_of_pos_left _ hs)
  have hsource : t.tpRank * remoteTpSize / t.tpSize = t.tpRank / s := by
    rw [hsize, Nat.mul_comm, Nat.mul_div_mul_left _ _ hpos]
  have hlocal : headsOf t.totalNumKvHeads t.tpSize t.tpRank = [t.tpRank / (s * b)] := by
    rw [hprod, headsOf_replicated t.heads_pos hsb]
  have hheld : ∀ q, headsOf t.totalNumKvHeads remoteTpSize q = [q / b] := by
    intro q
    rw [hremote, headsOf_replicated t.heads_pos hb]
  have hfactor : t.rankOffsetFactor remoteTpSize = 0 := by
    by_cases hlt : remoteTpSize < t.tpSize
    · rw [rankOffsetFactor_of_replicated hmla (hgt.trans_le hle) hlt, hsource, hremote, hprod,
        mul_div_mul_self t.heads_pos, mul_div_mul_self t.heads_pos, Nat.div_div_eq_div_mul,
        Int.sub_self]
    · exact if_pos (.inr (Nat.le_of_not_lt hlt))
  refine ⟨?_, ?_, ?_⟩
  · rw [hfactor, Int.zero_mul]
    rfl
  · rw [hlocal, hheld]
    exact Nat.le_refl _
  · rw [hlocal, hheld, hsource, Nat.div_div_eq_div_mul]
    rfl

theorem exists_readsAt (hmla : t.isMla = false) (hremote : 0 < remoteTpSize)
    (hdvd : remoteTpSize ∣ t.tpSize)
    (hlocal : t.tpSize ∣ t.totalNumKvHeads ∨ t.totalNumKvHeads ∣ t.tpSize)
    (hheads : remoteTpSize ∣ t.totalNumKvHeads ∨ t.totalNumKvHeads ∣ remoteTpSize) :
    ∃ offset, ReadsAt t remoteTpSize (t.tpRank * remoteTpSize / t.tpSize) offset := by
  have hpos : 0 < t.tpSize := Nat.zero_lt_of_lt t.rank_lt
  obtain ⟨s, hs⟩ := hdvd
  have hs₀ : 0 < s := Nat.pos_of_mul_pos_left (hs ▸ hpos)
  by_cases hsplit : t.tpSize ∣ t.totalNumKvHeads
  · obtain ⟨k, hk⟩ := hsplit
    have hk₀ : 0 < k := Nat.pos_of_mul_pos_left (hk ▸ t.heads_pos)
    exact ⟨_, readsAt_split hmla hs₀ hk₀ hremote hs hk⟩
  · obtain ⟨a, ha⟩ := hlocal.resolve_left hsplit
    have ha₁ : 1 < a := one_lt_of_not_dvd hpos ha hsplit
    by_cases hheld : remoteTpSize ∣ t.totalNumKvHeads
    · obtain ⟨k, hk⟩ := hheld
      have hk₀ : 0 < k := Nat.pos_of_mul_pos_left (hk ▸ t.heads_pos)
      exact ⟨_, readsAt_replicated hmla ha₁ hk₀ hremote hk (ha.trans (Nat.mul_comm _ _))⟩
    · obtain ⟨b, hb⟩ := hheads.resolve_left hheld
      have hb₁ : 1 < b := one_lt_of_not_dvd hremote hb hheld
      exact ⟨_, readsAt_replicated_both hmla hb₁ hs₀ (hb.trans (Nat.mul_comm _ _)) hs⟩

/-! ### Slots -/

theorem attnRanks_heads_nodup (hmla : t.isMla = false) (remoteTpSize : Nat) :
    ((t.attnRanks remoteTpSize).map fun r =>
      r * t.totalNumKvHeads / remoteTpSize).Nodup := by
  rcases Nat.lt_or_ge t.tpSize remoteTpSize with hlt | hle
  · rw [attnRanks_of_lt hmla hlt, List.map_map]
    exact map_firstIndices_nodup _ _
  · rw [attnRanks_of_le hle]
    exact List.nodup_singleton _

theorem headToSlot_get? (hmla : t.isMla = false) {i r : Nat}
    (h : (t.attnRanks remoteTpSize)[i]? = some r) :
    (t.headToSlot remoteTpSize).get? (r * t.totalNumKvHeads / remoteTpSize) = some i := by
  have hfold : t.headToSlot remoteTpSize = ((t.attnRanks remoteTpSize).zipIdx.map fun e =>
      (e.1 * t.totalNumKvHeads / remoteTpSize, e.2)).foldl
        (fun d e => d.insert e.1 e.2) .empty := by
    rw [List.foldl_map]
    rfl
  rw [hfold]
  apply Dict.get?_foldl_insert_of_mem
  · have hkeys := attnRanks_heads_nodup hmla remoteTpSize
    rw [← List.zipIdx_map_fst 0 (t.attnRanks remoteTpSize), List.map_map] at hkeys
    rwa [List.map_map]
  · exact List.mem_map.mpr ⟨(r, i), List.mk_mem_zipIdx_iff_getElem?.mpr h, rfl⟩

theorem rankToAttentionSlot_get? (hmla : t.isMla = false) (groupSpecTypes : List SpecType)
    {i r : Nat} (h : (t.attnRanks remoteTpSize)[i]? = some r) :
    (t.computeTpMapping remoteTpSize groupSpecTypes).rankToAttentionSlot.get? r = some i := by
  have hmem : r ∈ t.allRanks remoteTpSize groupSpecTypes := by
    rw [allRanks, List.mem_insertionSort, List.mem_dedup]
    exact List.mem_append_left _ (List.mem_of_getElem? h)
  have hnodup : (t.allRanks remoteTpSize groupSpecTypes).Nodup :=
    (List.perm_insertionSort _ _).nodup_iff.mpr (List.nodup_dedup _)
  have hfold : (t.computeTpMapping remoteTpSize groupSpecTypes).rankToAttentionSlot =
      ((t.allRanks remoteTpSize groupSpecTypes).map fun r => (r,
        (t.headToSlot remoteTpSize).getD (r * t.totalNumKvHeads / remoteTpSize) 0)).foldl
          (fun d e => d.insert e.1 e.2) .empty := by
    rw [List.foldl_map]
    rfl
  rw [hfold]
  apply Dict.get?_foldl_insert_of_mem
  · rw [List.map_map]
    exact (List.map_id _).symm ▸ hnodup
  · refine List.mem_map.mpr ⟨r, hmem, ?_⟩
    rw [Dict.getD, headToSlot_get? hmla h]
    rfl

theorem sourceRanksPerGroup_attention {groupSpecTypes : List SpecType} {g : Nat}
    (h : groupSpecTypes[g]? = some .attention) :
    (t.computeTpMapping remoteTpSize groupSpecTypes).sourceRanksPerGroup[g]? =
      some (t.attnRanks remoteTpSize) := by
  rw [computeTpMapping, List.getElem?_map, h]
  rfl

/-- Every rank that is read was asked for its metadata before. -/
theorem attnRanks_subset_handshake (hmla : t.isMla = false) (hremote : 0 < remoteTpSize)
    (hdvd : t.tpSize ∣ remoteTpSize ∨ remoteTpSize ∣ t.tpSize) :
    ∃ targets, t.handshakeTargetRanks remoteTpSize = .ok targets ∧
      t.attnRanks remoteTpSize ⊆ targets := by
  have hpos : 0 < t.tpSize := Nat.zero_lt_of_lt t.rank_lt
  rcases Nat.lt_or_ge t.tpSize remoteTpSize with hlt | hle
  · obtain ⟨n, hn⟩ := dvd_of_lt hpos hlt hdvd
    have hratio : tpRatio t.tpSize remoteTpSize = .ok (-(n : Int)) := by
      rw [tpRatio, if_neg (Nat.not_le_of_lt hlt), hn]
      simp [assert, hpos, bind, Except.bind]
    refine ⟨(List.range n).map fun i => t.tpRank * n + i, ?_, ?_⟩
    · have hneg : ¬ (0 : Int) < -(n : Int) := by omega
      simp only [handshakeTargetRanks, hratio, bind, Except.bind, if_neg hneg]
      simp
    · rw [attnRanks_of_lt hmla hlt, hn, Nat.mul_div_cancel_left _ hpos]
      apply List.map_subset
      intro j hj
      exact List.mem_range.mpr (mem_firstIndices_map_range.mp hj).1
  · obtain ⟨s, hs⟩ := dvd_of_le hremote hle hdvd
    have hs₀ : 0 < s := Nat.pos_of_mul_pos_left (hs ▸ hpos)
    have hratio : tpRatio t.tpSize remoteTpSize = .ok (s : Int) := by
      rw [tpRatio, if_pos hle, hs]
      simp [assert, hremote, bind, Except.bind]
    refine ⟨[t.tpRank / s], ?_, ?_⟩
    · have hsi : (0 : Int) < s := by omega
      simp only [handshakeTargetRanks, hratio, bind, Except.bind, if_pos hsi]
      rfl
    · rw [attnRanks_of_le hle, hs, Nat.mul_comm, Nat.mul_div_mul_left _ _ hremote]
      exact List.Subset.refl _

/-- The mapping covers each head of the local rank once. Of more remote ranks, the heads of the
source ranks in the order of their slots are the local heads; of one remote rank, the local heads
stand at the offset. -/
theorem computeTpMapping_covers_heads (t : TransferTopology) (hmla : t.isMla = false)
    (remoteTpSize : Nat) (hremote : 0 < remoteTpSize)
    (hdvd : t.tpSize ∣ remoteTpSize ∨ remoteTpSize ∣ t.tpSize)
    (hlocal : t.tpSize ∣ t.totalNumKvHeads ∨ t.totalNumKvHeads ∣ t.tpSize)
    (hheads : remoteTpSize ∣ t.totalNumKvHeads ∨ t.totalNumKvHeads ∣ remoteTpSize)
    (groupSpecTypes : List SpecType) (g : Nat) (hg : groupSpecTypes[g]? = some .attention) :
    ∃ ranks,
      (t.computeTpMapping remoteTpSize groupSpecTypes).sourceRanksPerGroup[g]? = some ranks ∧
      (t.tpSize < remoteTpSize →
        ranks.flatMap (headsOf t.totalNumKvHeads remoteTpSize) =
          headsOf t.totalNumKvHeads t.tpSize t.tpRank ∧
        ∀ i r, ranks[i]? = some r →
          (t.computeTpMapping remoteTpSize groupSpecTypes).rankToAttentionSlot.get? r = some i) ∧
      (remoteTpSize ≤ t.tpSize → ∃ source offset : Nat, ranks = [source] ∧
        (offset : Int) = (t.computeTpMapping remoteTpSize groupSpecTypes).rankOffsetFactor *
          (headsOf t.totalNumKvHeads t.tpSize t.tpRank).length ∧
        offset + (headsOf t.totalNumKvHeads t.tpSize t.tpRank).length ≤
          (headsOf t.totalNumKvHeads remoteTpSize source).length ∧
        ((headsOf t.totalNumKvHeads remoteTpSize source).drop offset).take
          (headsOf t.totalNumKvHeads t.tpSize t.tpRank).length =
            headsOf t.totalNumKvHeads t.tpSize t.tpRank) := by
  have hpos : 0 < t.tpSize := Nat.zero_lt_of_lt t.rank_lt
  refine ⟨t.attnRanks remoteTpSize, sourceRanksPerGroup_attention hg, fun hlt => ?_, fun hle => ?_⟩
  · exact ⟨attnRanks_covers hmla hlt (dvd_of_lt hpos hlt hdvd) hlocal hheads, fun i r hr =>
      rankToAttentionSlot_get? hmla groupSpecTypes hr⟩
  · obtain ⟨offset, hfactor, hwithin, hread⟩ :=
      exists_readsAt hmla hremote (dvd_of_le hremote hle hdvd) hlocal hheads
    exact ⟨_, offset, attnRanks_of_le hle, hfactor, hwithin, hread⟩

/-- Eight heads, one local rank of two and eight remote ranks: heads 4 to 7, of ranks 4 to 7. -/
theorem computeTpMapping_covers_heads_eight :
    [4, 5, 6, 7].flatMap (headsOf 8 8) = headsOf 8 2 1 := by
  obtain ⟨ranks, hranks, hmany, -⟩ := computeTpMapping_covers_heads
    ⟨1, 2, false, 8, by decide, by decide⟩ rfl 8 (by decide) (by decide) (by decide) (by decide)
    [.attention] 0 rfl
  have hranks' : some [4, 5, 6, 7] = some ranks := hranks
  obtain rfl := Option.some.inj hranks'
  exact (hmany (by decide)).1

theorem attnRanks_subset_handshake_eight : ∃ targets,
    (⟨1, 2, false, 8, by decide, by decide⟩ : TransferTopology).handshakeTargetRanks 8 =
      .ok targets ∧ [4, 5, 6, 7] ⊆ targets :=
  attnRanks_subset_handshake rfl (by decide) (by decide)

end TransferTopology

end EldrServing.Nixl
