import Mathlib.Algebra.BigOperators.Group.List.Basic
import Mathlib.Algebra.Order.Monoid.Defs
import Mathlib.Data.Finset.Card
import Mathlib.Data.Finset.Max
import Mathlib.Data.Fintype.Pi
import Mathlib.Data.List.OfFn
import Mathlib.Data.List.Perm.Subperm
import Mathlib.Order.Interval.Finset.Nat

/-!
# Assignments with a capacity

A rectangular assignment gives every row its own column. When every one of `k` clusters is
repeated `cap` times among the columns, an optimal rectangular assignment is an optimal
assignment of the rows to clusters that take at most `cap` rows each.
-/

namespace EldrServing.Assignment

set_option autoImplicit false

section Cost

variable {K : Type} [AddCommMonoid K] [LE K]

def totalCost (cost : List (List K)) (cols : List Nat) : K :=
  (List.zipWith (fun row j => row.getD j 0) cost cols).sum

/-- Every one of `n` rows has its own one of `m` columns. -/
structure IsInjective (n m : Nat) (cols : List Nat) : Prop where
  length : cols.length = n
  nodup : cols.Nodup
  lt : ∀ j ∈ cols, j < m

structure IsOptimal (m : Nat) (cost : List (List K)) (cols : List Nat) : Prop extends
    IsInjective cost.length m cols where
  minimal : ∀ cols', IsInjective cost.length m cols' → totalCost cost cols ≤ totalCost cost cols'

end Cost

variable {cap k : Nat} {assign cols : List Nat} {seen : Nat → Nat}

theorem IsInjective.perm_range (h : IsInjective k k cols) :
    cols.Perm (List.range k) := by
  have hsub : cols ⊆ List.range k := fun j hj => List.mem_range.mpr (h.lt j hj)
  exact (List.subperm_of_subset h.nodup hsub).perm_of_length_le (by simp [h.length])

section Exists

variable {K : Type} [AddCommMonoid K] [LinearOrder K]

theorem isOptimal_nil (m : Nat) : IsOptimal m ([] : List (List K)) [] where
  length := rfl
  nodup := List.nodup_nil
  lt := by simp
  minimal cols' _ := by simp [totalCost]

theorem exists_isOptimal (cost : List (List K)) {m : Nat} (hle : cost.length ≤ m) :
    ∃ cols, IsOptimal m cost cols := by
  -- injective choices of columns are embeddings of the rows, and there are finitely many
  let ofEmbedding (f : Fin cost.length ↪ Fin m) : List Nat := List.ofFn fun i => (f i).val
  have hinjective : ∀ f, IsInjective cost.length m (ofEmbedding f) := by
    intro f
    refine ⟨List.length_ofFn, List.nodup_ofFn.mpr fun i j hij => f.injective (Fin.ext hij), ?_⟩
    intro j hj
    obtain ⟨i, rfl⟩ := List.mem_ofFn.mp hj
    exact (f i).isLt
  obtain ⟨f, -, hf⟩ := Finset.exists_min_image Finset.univ (fun f => totalCost cost (ofEmbedding f))
    ⟨Fin.castLEEmb hle, Finset.mem_univ _⟩
  refine ⟨ofEmbedding f, hinjective f, ?_⟩
  intro cols hcols
  have hget : ∀ i : Fin cost.length, i.val < cols.length := fun i => hcols.length.symm ▸ i.isLt
  let g : Fin cost.length ↪ Fin m :=
    ⟨fun i => ⟨cols.get ⟨i, hget i⟩, hcols.lt _ (List.get_mem cols _)⟩, fun i j hij => by
      have := (List.Nodup.get_inj_iff hcols.nodup).mp (Fin.mk.inj hij)
      exact Fin.ext (Fin.mk.inj this)⟩
  have hg : ofEmbedding g = cols := by
    apply List.ext_getElem
    · rw [List.length_ofFn, hcols.length]
    · intro i hi hi'
      simp [ofEmbedding, g]
  rw [← hg]
  exact hf g (Finset.mem_univ g)

end Exists

/-- Every one of `n` rows is in one of `k` clusters, none of which has more than `cap` rows. -/
structure Respects (n k cap : Nat) (assign : List Nat) : Prop where
  length : assign.length = n
  lt : ∀ c ∈ assign, c < k
  count_le : ∀ c, assign.count c ≤ cap

/-- The cluster of each column when every cluster is repeated `cap` times. -/
def slotClusters (k cap : Nat) : List Nat := (List.range k).flatMap (List.replicate cap)

theorem slotClusters_eq (k cap : Nat) :
    slotClusters k cap = (List.range (k * cap)).map (· / cap) := by
  induction k with
  | zero => simp [slotClusters]
  | succ k ih =>
    rw [slotClusters] at ih ⊢
    rw [List.range_succ, List.flatMap_append, ih, Nat.succ_mul, List.range_add, List.map_append,
      List.map_map]
    congr 1
    rw [List.flatMap_singleton, eq_comm, List.eq_replicate_iff]
    refine ⟨by simp, ?_⟩
    intro c hc
    obtain ⟨i, hi, rfl⟩ := List.mem_map.mp hc
    rw [List.mem_range] at hi
    rw [Function.comp_apply, Nat.add_comm, Nat.add_mul_div_right _ _ (by omega),
      Nat.div_eq_of_lt hi, Nat.zero_add]

@[simp] theorem length_slotClusters (k cap : Nat) : (slotClusters k cap).length = k * cap := by
  simp [slotClusters_eq]

theorem getD_slotClusters {j : Nat} (hj : j < k * cap) :
    (slotClusters k cap).getD j 0 = j / cap := by
  simp [slotClusters_eq, hj]

theorem count_div_le (hnodup : cols.Nodup) (c : Nat) (hcap : 0 < cap) :
    (cols.map (· / cap)).count c ≤ cap := by
  rw [List.count_eq_countP, List.countP_map, List.countP_eq_length_filter]
  have hsub : (cols.filter ((· == c) ∘ (· / cap))).toFinset ⊆ Finset.Ico (c * cap) ((c + 1) * cap) := by
    intro j hj
    rw [List.mem_toFinset, List.mem_filter] at hj
    have hdiv : j / cap = c := by simpa using hj.2
    have hsplit := Nat.div_add_mod j cap
    have hmod := Nat.mod_lt j hcap
    rw [hdiv, Nat.mul_comm] at hsplit
    rw [Finset.mem_Ico, Nat.succ_mul]
    omega
  calc (cols.filter ((· == c) ∘ (· / cap))).length
      = (cols.filter ((· == c) ∘ (· / cap))).toFinset.card :=
        (List.toFinset_card_of_nodup (hnodup.filter _)).symm
    _ ≤ (Finset.Ico (c * cap) ((c + 1) * cap)).card := Finset.card_le_card hsub
    _ = cap := by
      rw [Nat.card_Ico, Nat.succ_mul]
      omega

/-- Columns for an assignment of rows to clusters: a row takes the first free column of its
cluster; `seen c` columns of the cluster `c` are taken already. -/
def slots (cap : Nat) : (Nat → Nat) → List Nat → List Nat
  | _, [] => []
  | seen, c :: assign =>
    (c * cap + seen c) :: slots cap (Function.update seen c (seen c + 1)) assign

theorem length_slots (cap : Nat) (seen : Nat → Nat) (assign : List Nat) :
    (slots cap seen assign).length = assign.length := by
  induction assign generalizing seen with
  | nil => rfl
  | cons c assign ih => simp [slots, ih]

theorem seen_update_le {c : Nat} (hroom : ∀ d, seen d + (c :: assign).count d ≤ cap) (d : Nat) :
    Function.update seen c (seen c + 1) d + assign.count d ≤ cap := by
  have := hroom d
  by_cases hd : d = c
  · subst hd
    rw [Function.update_self]
    rw [List.count_cons_self] at this
    omega
  · rw [Function.update_of_ne hd]
    rw [List.count_cons_of_ne (Ne.symm hd)] at this
    exact this

theorem mem_slots {j : Nat}
    (hroom : ∀ d, seen d + assign.count d ≤ cap) (hj : j ∈ slots cap seen assign) :
    ∃ c ∈ assign, c * cap + seen c ≤ j ∧ j < c * cap + cap := by
  induction assign generalizing seen with
  | nil => cases hj
  | cons c assign ih =>
    rcases List.mem_cons.mp hj with rfl | hj
    · have := hroom c
      rw [List.count_cons_self] at this
      exact ⟨c, List.mem_cons_self, Nat.le_refl _, by omega⟩
    · obtain ⟨d, hd, hle, hlt⟩ := ih (seen_update_le hroom) hj
      refine ⟨d, List.mem_cons_of_mem c hd, ?_, hlt⟩
      by_cases hdc : d = c
      · subst hdc
        rw [Function.update_self] at hle
        omega
      · rwa [Function.update_of_ne hdc] at hle

theorem slots_nodup
    (hroom : ∀ d, seen d + assign.count d ≤ cap) : (slots cap seen assign).Nodup := by
  induction assign generalizing seen with
  | nil => exact List.nodup_nil
  | cons c assign ih =>
    refine List.nodup_cons.mpr ⟨?_, ih (seen_update_le hroom)⟩
    intro hmem
    obtain ⟨d, -, hle, hlt⟩ := mem_slots (seen_update_le hroom) hmem
    have hroomc := hroom c
    rw [List.count_cons_self] at hroomc
    rcases Nat.lt_trichotomy d c with hdc | rfl | hcd
    · have : (d + 1) * cap ≤ c * cap := Nat.mul_le_mul_right cap hdc
      rw [Nat.succ_mul] at this
      omega
    · rw [Function.update_self] at hle
      omega
    · have : (c + 1) * cap ≤ d * cap := Nat.mul_le_mul_right cap hcd
      rw [Nat.succ_mul] at this
      omega

theorem slots_div (hroom : ∀ d, seen d + assign.count d ≤ cap) :
    (slots cap seen assign).map (· / cap) = assign := by
  induction assign generalizing seen with
  | nil => rfl
  | cons c assign ih =>
    have hroomc := hroom c
    rw [List.count_cons_self] at hroomc
    rw [slots, List.map_cons, ih (seen_update_le hroom), Nat.add_comm,
      Nat.add_mul_div_right _ _ (by omega), Nat.div_eq_of_lt (by omega), Nat.zero_add]

theorem Respects.exists_cols {n : Nat} (h : Respects n k cap assign) :
    ∃ cols, IsInjective n (k * cap) cols ∧ cols.map (· / cap) = assign := by
  have hroom : ∀ d, (fun _ => 0) d + assign.count d ≤ cap := fun d => by
    simpa using h.count_le d
  refine ⟨slots cap (fun _ => 0) assign, ⟨?_, slots_nodup hroom, ?_⟩, slots_div hroom⟩
  · rw [length_slots, h.length]
  · intro j hj
    obtain ⟨c, hc, -, hlt⟩ := mem_slots hroom hj
    have : (c + 1) * cap ≤ k * cap := Nat.mul_le_mul_right cap (h.lt c hc)
    rw [Nat.succ_mul] at this
    omega

section Replicated

variable {K : Type} [AddCommMonoid K] [LE K]

def replicateColumns (k cap : Nat) (cost : List (List K)) : List (List K) :=
  cost.map fun row => (slotClusters k cap).map fun c => row.getD c 0

omit [LE K] in
theorem totalCost_replicateColumns (k cap : Nat) (cost : List (List K))
    (hcols : ∀ j ∈ cols, j < k * cap) :
    totalCost (replicateColumns k cap cost) cols = totalCost cost (cols.map (· / cap)) := by
  induction cost generalizing cols with
  | nil => rfl
  | cons row cost ih =>
    cases cols with
    | nil => rfl
    | cons j cols =>
      have hj := hcols j List.mem_cons_self
      have hrest := ih fun i hi => hcols i (List.mem_cons_of_mem j hi)
      have hget : ((slotClusters k cap).map fun c => row.getD c 0).getD j 0 = row.getD (j / cap) 0 := by
        simp [slotClusters_eq, hj]
      simp only [totalCost, replicateColumns] at hrest ⊢
      rw [List.map_cons, List.map_cons, List.zipWith_cons_cons, List.zipWith_cons_cons, List.sum_cons,
        List.sum_cons, hget, hrest]

/-- An optimal assignment to repeated columns is optimal under the capacity. -/
theorem IsOptimal.respects {cost : List (List K)} (hcap : 0 < cap)
    (h : IsOptimal (k * cap) (replicateColumns k cap cost) cols) :
    Respects cost.length k cap (cols.map (· / cap)) ∧
      ∀ assign, Respects cost.length k cap assign →
        totalCost cost (cols.map (· / cap)) ≤ totalCost cost assign := by
  have hlen : (replicateColumns k cap cost).length = cost.length := List.length_map _
  refine ⟨⟨by rw [List.length_map, h.length, hlen], ?_, fun c => count_div_le h.nodup c hcap⟩, ?_⟩
  · intro c hc
    obtain ⟨j, hj, rfl⟩ := List.mem_map.mp hc
    exact Nat.div_lt_of_lt_mul (Nat.mul_comm k cap ▸ h.lt j hj)
  · intro assign hassign
    obtain ⟨cols', hcols', rfl⟩ := hassign.exists_cols
    rw [← totalCost_replicateColumns k cap cost h.lt,
      ← totalCost_replicateColumns k cap cost hcols'.lt]
    exact h.minimal cols' (hlen.symm ▸ hcols')

end Replicated

end EldrServing.Assignment
