import EldrServing.Lib.Assignment
import EldrServing.Routing.CentroidUpdate
import EldrServing.Routing.Signature
import Mathlib.Algebra.BigOperators.Group.Finset.Basic

/-!
# Balanced spherical k-means

An iteration assigns the vectors to clusters through a rectangular assignment on repeated columns
and moves every centroid to the direction of the mean of its vectors. The assignment problem is
solved by a parameter, `linearSumAssignment`; arithmetic is exact.
-/

namespace EldrServing.Routing

open RealVec Assignment

set_option autoImplicit false

noncomputable section

/-- `linear_sum_assignment` gives the rows of a cost matrix with at least as many columns as rows
distinct columns of least total cost. -/
def SolvesAssignment (lsa : Rows ℝ → List Nat) : Prop :=
  ∀ (m : Nat) (cost : Rows ℝ), (∀ row ∈ cost, row.length = m) → cost.length ≤ m →
    IsOptimal m cost (lsa cost)

/-- `X[labels == c]`. -/
def members (X : Rows ℝ) (labels : List Nat) (c : Nat) : Rows ℝ :=
  ((X.zip labels).filter (·.2 == c)).map (·.1)

/-- `rows.mean(0)` of rows of length `d`. -/
def mean (d : Nat) (rows : Rows ℝ) : List ℝ := divBy rows.length (sumRows d rows)

def moveCentroids (X C : Rows ℝ) (labels : List Nat) : Rows ℝ :=
  C.zipIdx.map fun (center, c) =>
    normalize (if members X labels c = [] then center
      else mean (X.headD []).length (members X labels c))

/-- `1.0 - X @ C.T`. -/
def cosineDistances (X C : Rows ℝ) : Rows ℝ := X.map fun x => C.map fun c => 1 - dot x c

def AllClose (A B : Rows ℝ) : Prop :=
  ∀ p ∈ A.zip B, ∀ q ∈ p.1.zip p.2, |q.1 - q.2| ≤ 1e-8 + 1e-5 * |q.2|

/-- The loop both fits share: move the centroids until they settle or the iterations are used. -/
def fitLoop (moved : Rows ℝ → Rows ℝ) : Nat → Rows ℝ → Rows ℝ
  | 0, C => C
  | iters + 1, C =>
    open Classical in
    if AllClose (moved C) C then moved C else fitLoop moved iters (moved C)

/-- `-(-n // k)`. -/
def capacity (n k : Nat) : Nat := (n + k - 1) / k

/-- The clusters of the vectors in an iteration with the centroids `C`. -/
def balancedLabels (lsa : Rows ℝ → List Nat) (X C : Rows ℝ) : List Nat :=
  let cap := capacity X.length C.length
  let clusterOfSlot := slotClusters C.length cap
  let cost := (cosineDistances X C).map fun row => clusterOfSlot.map fun c => row.getD c 0
  (lsa cost).map fun j => clusterOfSlot.getD j 0

def balancedStep (lsa : Rows ℝ → List Nat) (X C : Rows ℝ) : Rows ℝ :=
  moveCentroids X C (balancedLabels lsa X C)

def balancedSphericalKmeans (lsa : Rows ℝ → List Nat) (X C : Rows ℝ) (iters : Nat) : Rows ℝ :=
  fitLoop (balancedStep lsa X) iters (C.map normalize)

/-- `np.argmax(X @ C.T, axis=1)`. -/
def nearestLabels (X C : Rows ℝ) : List Nat :=
  X.map fun x => ((List.range C.length).argmax fun c => dot x (C.getD c [])).getD 0

def vanillaSphericalKmeans (X C : Rows ℝ) (iters : Nat) : Rows ℝ :=
  fitLoop (fun C => moveCentroids X C (nearestLabels X C)) iters C

def totalDistance (X C : Rows ℝ) (labels : List Nat) : ℝ := totalCost (cosineDistances X C) labels

def UnitRows (d : Nat) (rows : Rows ℝ) : Prop := ∀ row ∈ rows, row.length = d ∧ norm row = 1

end

section Labels

variable {lsa : Rows ℝ → List Nat} {X C : Rows ℝ}

theorem le_mul_capacity {n k : Nat} (hk : 0 < k) : n ≤ k * capacity n k := by
  have hsplit := Nat.div_add_mod (n + k - 1) k
  have hmod := Nat.mod_lt (n + k - 1) hk
  rw [capacity]
  omega

theorem capacity_pos {n k : Nat} (hn : 0 < n) (hk : 0 < k) : 0 < capacity n k := by
  have := le_mul_capacity (n := n) hk
  rcases Nat.eq_zero_or_pos (capacity n k) with hzero | hpos
  · rw [hzero] at this
    omega
  · exact hpos

@[simp] theorem length_cosineDistances (X C : Rows ℝ) : (cosineDistances X C).length = X.length := by
  simp [cosineDistances]

theorem balancedLabels_optimal (hsolves : SolvesAssignment lsa) (hk : 0 < C.length)
    (hn : C.length ≤ X.length) :
    Respects X.length C.length (capacity X.length C.length) (balancedLabels lsa X C) ∧
      ∀ labels, Respects X.length C.length (capacity X.length C.length) labels →
        totalDistance X C (balancedLabels lsa X C) ≤ totalDistance X C labels := by
  set cap := capacity X.length C.length with hcapdef
  have hcap : 0 < cap := capacity_pos (by omega) hk
  have hoptimal : IsOptimal (C.length * cap) (replicateColumns C.length cap (cosineDistances X C))
      (lsa (replicateColumns C.length cap (cosineDistances X C))) := by
    apply hsolves
    · intro row hrow
      obtain ⟨_, -, rfl⟩ := List.mem_map.mp hrow
      simp
    · rw [replicateColumns, List.length_map, length_cosineDistances]
      exact le_mul_capacity hk
  have hlabels : balancedLabels lsa X C =
      (lsa (replicateColumns C.length cap (cosineDistances X C))).map (· / cap) :=
    List.map_congr_left fun j hj => getD_slotClusters (hoptimal.lt j hj)
  obtain ⟨hrespects, hminimal⟩ := hoptimal.respects hcap
  rw [hlabels]
  rw [length_cosineDistances] at hrespects hminimal
  exact ⟨hrespects, hminimal⟩

end Labels

section Means

variable {d : Nat} {rows : Rows ℝ}

/-- The mean of unit vectors without negative entries is not clipped. -/
theorem normalize_mean (hunit : UnitRows d rows) (hnonneg : ∀ row ∈ rows, ∀ x ∈ row, 0 ≤ x)
    (hne : rows ≠ []) (hcount : rows.length ≤ 10 ^ 18) :
    0 < norm (sumRows d rows) ∧
      normalize (mean d rows) = divBy (norm (sumRows d rows)) (sumRows d rows) := by
  have hlength : ∀ row ∈ rows, row.length = d := fun row hrow => (hunit row hrow).1
  have hpos : (0 : ℝ) < rows.length := by
    exact_mod_cast List.length_pos_iff.mpr hne
  have hle : (rows.length : ℝ) ≤ 10 ^ 18 := by exact_mod_cast hcount
  have hsq : (rows.length : ℝ) ≤ norm (sumRows d rows) ^ 2 := by
    rw [norm_sq]
    exact length_le_dot_sumRows hlength (fun row hrow => (hunit row hrow).2) hnonneg
  have hlarge : 1e-9 * (rows.length : ℝ) ≤ norm (sumRows d rows) := by
    have hsq' : (1e-9 * (rows.length : ℝ)) ^ 2 ≤ norm (sumRows d rows) ^ 2 := by
      refine le_trans ?_ hsq
      norm_num
      nlinarith
    exact (abs_le_of_sq_le_sq' hsq' (norm_nonneg _)).2
  have hnorm : 0 < norm (sumRows d rows) := lt_of_lt_of_le (by positivity) hlarge
  refine ⟨hnorm, ?_⟩
  have hclip : 1e-9 ≤ norm (sumRows d rows) / rows.length := (le_div_iff₀ hpos).mpr hlarge
  rw [normalize, mean, norm_divBy hpos, max_eq_left hclip]
  simp only [divBy, List.map_map]
  congr 1
  funext x
  exact div_div_div_cancel_right₀ hpos.ne' x _

/-- The normalized mean has at least the total similarity to its vectors that any unit vector
has. -/
theorem sum_dot_le_normalize_mean (hunit : UnitRows d rows)
    (hnonneg : ∀ row ∈ rows, ∀ x ∈ row, 0 ≤ x) (hne : rows ≠ []) (hcount : rows.length ≤ 10 ^ 18)
    {c : List ℝ} (hc : norm c = 1) :
    (rows.map (dot · c)).sum ≤ (rows.map (dot · (normalize (mean d rows)))).sum := by
  have hlength : ∀ row ∈ rows, row.length = d := fun row hrow => (hunit row hrow).1
  obtain ⟨hpos, hmean⟩ := normalize_mean hunit hnonneg hne hcount
  rw [← dot_sumRows hlength, ← dot_sumRows hlength, hmean, dot_divBy_right, ← norm_sq]
  calc dot (sumRows d rows) c ≤ norm (sumRows d rows) * norm c := dot_le_norm_mul_norm _ _
    _ = norm (sumRows d rows) := by rw [hc, mul_one]
    _ = norm (sumRows d rows) ^ 2 / norm (sumRows d rows) := by
      rw [sq, mul_div_assoc, div_self hpos.ne', mul_one]

theorem norm_normalize_mean (hunit : UnitRows d rows) (hnonneg : ∀ row ∈ rows, ∀ x ∈ row, 0 ≤ x)
    (hne : rows ≠ []) (hcount : rows.length ≤ 10 ^ 18) :
    (normalize (mean d rows)).length = d ∧ norm (normalize (mean d rows)) = 1 := by
  obtain ⟨hpos, hmean⟩ := normalize_mean hunit hnonneg hne hcount
  rw [hmean, length_divBy, length_sumRows fun row hrow => (hunit row hrow).1, norm_divBy hpos,
    div_self hpos.ne']
  exact ⟨rfl, rfl⟩

theorem normalize_of_unit {v : List ℝ} (hv : norm v = 1) : normalize v = v := by
  rw [normalize, hv, max_eq_left (by norm_num), divBy_one]

end Means

section Move

variable {d : Nat} {X C : Rows ℝ} {labels : List Nat}

theorem mem_members {x : List ℝ} {c : Nat} (h : x ∈ members X labels c) : x ∈ X := by
  obtain ⟨p, hp, rfl⟩ := List.mem_map.mp h
  exact (List.of_mem_zip (List.mem_filter.mp hp).1).1

theorem length_members_le (X : Rows ℝ) (labels : List Nat) (c : Nat) :
    (members X labels c).length ≤ X.length := by
  rw [members, List.length_map]
  refine (List.length_filter_le _ _).trans ?_
  rw [List.length_zip]
  exact Nat.min_le_left _ _

@[simp] theorem length_moveCentroids (X C : Rows ℝ) (labels : List Nat) :
    (moveCentroids X C labels).length = C.length := by
  simp [moveCentroids]

theorem getElem?_moveCentroids (X C : Rows ℝ) (labels : List Nat) (c : Nat) :
    (moveCentroids X C labels)[c]? = C[c]?.map fun center =>
      normalize (if members X labels c = [] then center
        else mean (X.headD []).length (members X labels c)) := by
  rw [moveCentroids, List.getElem?_map, List.getElem?_zipIdx]
  cases C[c]? <;> simp

theorem moveCentroids_cluster (hX : UnitRows d X) (hnonneg : ∀ x ∈ X, ∀ y ∈ x, 0 ≤ y)
    (hcount : X.length ≤ 10 ^ 18) (labels : List Nat) (c : Nat) {center : List ℝ}
    (hcenter : center.length = d) (hunit : norm center = 1) :
    let moved := normalize (if members X labels c = [] then center
      else mean (X.headD []).length (members X labels c))
    moved.length = d ∧ norm moved = 1 ∧
      ((members X labels c).map (dot · center)).sum ≤ ((members X labels c).map (dot · moved)).sum := by
  by_cases hempty : members X labels c = []
  · simp only [if_pos hempty, normalize_of_unit hunit]
    exact ⟨hcenter, hunit, le_refl _⟩
  · simp only [if_neg hempty]
    have hrows : UnitRows d (members X labels c) := fun x hx => hX x (mem_members hx)
    have hrows' : ∀ x ∈ members X labels c, ∀ y ∈ x, 0 ≤ y := fun x hx => hnonneg x (mem_members hx)
    have hsize := (length_members_le X labels c).trans hcount
    have hd : (X.headD []).length = d := by
      cases X with
      | nil => exact absurd rfl hempty
      | cons x X => exact (hX x List.mem_cons_self).1
    rw [hd]
    obtain ⟨hlen, hnorm⟩ := norm_normalize_mean hrows hrows' hempty hsize
    exact ⟨hlen, hnorm, sum_dot_le_normalize_mean hrows hrows' hempty hsize hunit⟩

theorem unitRows_moveCentroids (hX : UnitRows d X) (hnonneg : ∀ x ∈ X, ∀ y ∈ x, 0 ≤ y)
    (hcount : X.length ≤ 10 ^ 18) (hC : UnitRows d C) : UnitRows d (moveCentroids X C labels) := by
  intro row hrow
  obtain ⟨c, hc⟩ := List.getElem?_of_mem hrow
  rw [getElem?_moveCentroids] at hc
  obtain ⟨center, hcenter, rfl⟩ := Option.map_eq_some_iff.mp hc
  obtain ⟨hlen, hunit⟩ := hC center (List.mem_of_getElem? hcenter)
  obtain ⟨hlen', hunit', -⟩ := moveCentroids_cluster hX hnonneg hcount labels c hlen hunit
  exact ⟨hlen', hunit'⟩

theorem totalDistance_eq_sum {k : Nat} (hk : C.length = k) (hlen : labels.length = X.length)
    (hlt : ∀ c ∈ labels, c < k) : totalDistance X C labels =
      ∑ c ∈ Finset.range k, ((members X labels c).map fun x => 1 - dot x (C.getD c [])).sum := by
  induction X generalizing labels with
  | nil => simp [totalDistance, totalCost, cosineDistances, members]
  | cons x X ih =>
    cases labels with
    | nil => simp at hlen
    | cons l labels =>
      have hl := hlt l List.mem_cons_self
      have hrest := ih (by simpa using hlen) fun c hc => hlt c (List.mem_cons_of_mem l hc)
      have hhead : (C.map fun c => 1 - dot x c).getD l 0 = 1 - dot x (C.getD l []) := by
        simp [hk, hl]
      have hmembers : ∀ c, members (x :: X) (l :: labels) c =
          if l = c then x :: members X labels c else members X labels c := by
        intro c
        by_cases hlc : l = c
        · simp [members, hlc]
        · simp [members, hlc]
      have hterm : ∀ c ∈ Finset.range k,
          ((members (x :: X) (l :: labels) c).map fun x => 1 - dot x (C.getD c [])).sum =
            (if l = c then 1 - dot x (C.getD c []) else 0) +
              ((members X labels c).map fun x => 1 - dot x (C.getD c [])).sum := by
        intro c _
        rw [hmembers]
        split
        · rw [List.map_cons, List.sum_cons]
        · rw [zero_add]
      rw [Finset.sum_congr rfl hterm, Finset.sum_add_distrib, Finset.sum_ite_eq,
        if_pos (Finset.mem_range.mpr hl), ← hrest, ← hhead]
      simp [totalDistance, totalCost, cosineDistances]

theorem totalDistance_moveCentroids_le (hX : UnitRows d X) (hnonneg : ∀ x ∈ X, ∀ y ∈ x, 0 ≤ y)
    (hcount : X.length ≤ 10 ^ 18) (hC : UnitRows d C) (hlen : labels.length = X.length)
    (hlt : ∀ c ∈ labels, c < C.length) :
    totalDistance X (moveCentroids X C labels) labels ≤ totalDistance X C labels := by
  rw [totalDistance_eq_sum (length_moveCentroids X C labels) hlen hlt,
    totalDistance_eq_sum rfl hlen hlt]
  apply Finset.sum_le_sum
  intro c hc
  have hc' := Finset.mem_range.mp hc
  have hget : C[c]? = some (C.getD c []) := by simp [hc']
  have hmoved := getElem?_moveCentroids X C labels c
  rw [hget, Option.map_some] at hmoved
  obtain ⟨hlen, hunit⟩ := hC _ (List.mem_of_getElem? hget)
  obtain ⟨-, -, hle⟩ := moveCentroids_cluster hX hnonneg hcount labels c hlen hunit
  have hsum : ∀ (rows : Rows ℝ) (v : List ℝ), (rows.map fun x => 1 - dot x v).sum =
      rows.length - (rows.map (dot · v)).sum := by
    intro rows v
    induction rows with
    | nil => simp
    | cons x rows ih =>
      simp only [List.map_cons, List.sum_cons, ih, List.length_cons, Nat.cast_succ]
      ring
  rw [hsum, hsum, List.getD_eq_getElem?_getD, hmoved, Option.getD_some]
  exact sub_le_sub_left hle _

end Move

section Refit

variable {lsa : Rows ℝ → List Nat} {d : Nat} {X C : Rows ℝ}

theorem fitLoop_eq_iterate (moved : Rows ℝ → Rows ℝ) (iters : Nat) (C : Rows ℝ) :
    ∃ t ≤ iters, fitLoop moved iters C = moved^[t] C := by
  induction iters generalizing C with
  | zero => exact ⟨0, Nat.le_refl 0, rfl⟩
  | succ iters ih =>
    rw [fitLoop]
    split
    · exact ⟨1, by omega, rfl⟩
    · obtain ⟨t, ht, heq⟩ := ih (moved C)
      exact ⟨t + 1, by omega, by rw [heq, Function.iterate_succ_apply]⟩

noncomputable def negSimilarities (current fitted : Rows ℝ) : Rows ℝ :=
  current.map fun a => fitted.map fun b => -dot a b

theorem SolvesAssignment.negSimilarities (hsolves : SolvesAssignment lsa) {current fitted : Rows ℝ}
    (hlen : fitted.length = current.length) :
    IsOptimal fitted.length (negSimilarities current fitted) (lsa (negSimilarities current fitted)) := by
  apply hsolves
  · intro row hrow
    obtain ⟨_, -, rfl⟩ := List.mem_map.mp hrow
    simp
  · simp [Routing.negSimilarities, hlen]

theorem length_eq_of_shape {A B : Rows ℝ} (h : shape A = shape B) : A.length = B.length := by
  simpa [shape] using congrArg List.length h

noncomputable def lsaFitter (lsa : Rows ℝ → List Nat) (hsolves : SolvesAssignment lsa) :
    Fitter ℝ where
  kmeans balanced signatures centroids :=
    .ok (if balanced then balancedSphericalKmeans lsa signatures centroids 50
      else vanillaSphericalKmeans signatures centroids 50)
  columns current fitted := lsa (negSimilarities current fitted)
  columns_length current fitted hshape := by
    rw [(hsolves.negSimilarities (length_eq_of_shape hshape)).length, Routing.negSimilarities,
      List.length_map, length_eq_of_shape hshape]
  columns_lt current fitted hshape :=
    (hsolves.negSimilarities (length_eq_of_shape hshape)).lt

noncomputable def similarity (current rows : Rows ℝ) : ℝ := (List.zipWith dot current rows).sum

theorem totalCost_negSimilarities (current fitted : Rows ℝ) {cols : List Nat}
    (hcols : ∀ j ∈ cols, j < fitted.length) : totalCost (negSimilarities current fitted) cols =
      -similarity current (cols.map fun j => fitted.getD j []) := by
  induction current generalizing cols with
  | nil => simp [totalCost, negSimilarities, similarity]
  | cons a current ih =>
    cases cols with
    | nil => simp [totalCost, negSimilarities, similarity]
    | cons j cols =>
      have hj := hcols j List.mem_cons_self
      have hrest := ih fun i hi => hcols i (List.mem_cons_of_mem j hi)
      have hget : (fitted.map fun b => -dot a b).getD j 0 = -dot a (fitted.getD j []) := by
        simp [hj]
      simp only [totalCost, negSimilarities, similarity] at hrest ⊢
      rw [List.map_cons, List.zipWith_cons_cons, List.sum_cons, hget, hrest, List.map_cons,
        List.zipWith_cons_cons, List.sum_cons]
      ring

/-- The alignment permutes the fitted centroids, with the largest total similarity. -/
theorem alignCentroids_maximal (hsolves : SolvesAssignment lsa) {current fitted : Rows ℝ}
    (hlen : fitted.length = current.length) :
    ∃ p : List Nat, p.Perm (List.range fitted.length) ∧
      alignCentroids (lsaFitter lsa hsolves) current fitted = p.map (fun j => fitted.getD j []) ∧
      ∀ q : List Nat, q.Perm (List.range fitted.length) →
        similarity current (q.map fun j => fitted.getD j []) ≤
          similarity current (alignCentroids (lsaFitter lsa hsolves) current fitted) := by
  have hoptimal := hsolves.negSimilarities hlen
  have hrows : (negSimilarities current fitted).length = fitted.length := by
    rw [Routing.negSimilarities, List.length_map, hlen]
  have hcols := hoptimal.toIsInjective
  rw [hrows] at hcols
  refine ⟨_, hcols.perm_range, rfl, ?_⟩
  intro q hq
  have hq' : IsInjective fitted.length fitted.length q :=
    ⟨by rw [hq.length_eq, List.length_range], hq.nodup_iff.mpr List.nodup_range,
      fun j hj => List.mem_range.mp (hq.mem_iff.mp hj)⟩
  have hle := hoptimal.minimal q (hrows.symm ▸ hq')
  rw [totalCost_negSimilarities current fitted hcols.lt,
    totalCost_negSimilarities current fitted hq'.lt] at hle
  exact neg_le_neg_iff.mp hle

/-- The centroids before the iteration `t` of a balanced fit. -/
noncomputable def fitIterate (lsa : Rows ℝ → List Nat) (X C : Rows ℝ) (t : Nat) : Rows ℝ :=
  (balancedStep lsa X)^[t] (C.map normalize)

theorem fitIterate_succ (t : Nat) : fitIterate lsa X C (t + 1) =
    moveCentroids X (fitIterate lsa X C t) (balancedLabels lsa X (fitIterate lsa X C t)) := by
  rw [fitIterate, Function.iterate_succ_apply']
  rfl

theorem fitIterate_unit (hX : UnitRows d X) (hnonneg : ∀ x ∈ X, ∀ y ∈ x, 0 ≤ y)
    (hcount : X.length ≤ 10 ^ 18) (hC : UnitRows d C) (t : Nat) :
    UnitRows d (fitIterate lsa X C t) ∧ (fitIterate lsa X C t).length = C.length := by
  induction t with
  | zero =>
    have hsame : C.map normalize = C := by
      rw [List.map_congr_left fun c hc => normalize_of_unit (hC c hc).2, List.map_id']
    exact ⟨by rw [fitIterate, Function.iterate_zero_apply, hsame]; exact hC, by simp [fitIterate]⟩
  | succ t ih =>
    rw [fitIterate_succ]
    exact ⟨unitRows_moveCentroids hX hnonneg hcount ih.1, by rw [length_moveCentroids, ih.2]⟩

theorem UnitRows.shape_eq {A B : Rows ℝ} (hA : UnitRows d A) (hB : UnitRows d B)
    (hlen : A.length = B.length) : shape A = shape B := by
  rw [shape, shape, List.map_congr_left fun a ha => (hA a ha).1,
    List.map_congr_left fun b hb => (hB b hb).1, List.map_const', List.map_const', hlen]

/-- Every iteration of a balanced fit assigns within the capacity at least total distance, the
total never increases, and the refit puts the fitted centroids where they are most similar to the
installed ones. -/
theorem balancedRefit_laws (hsolves : SolvesAssignment lsa) (hk : 1 ≤ C.length)
    (hn : C.length ≤ X.length) (hcount : X.length ≤ 10 ^ 18) (hX : UnitRows d X)
    (hnonneg : ∀ x ∈ X, ∀ y ∈ x, 0 ≤ y) (hC : UnitRows d C) :
    (∀ t,
      let labels := balancedLabels lsa X (fitIterate lsa X C t)
      Respects X.length C.length (capacity X.length C.length) labels ∧
      (∀ other, Respects X.length C.length (capacity X.length C.length) other →
        totalDistance X (fitIterate lsa X C t) labels ≤
          totalDistance X (fitIterate lsa X C t) other) ∧
      totalDistance X (fitIterate lsa X C (t + 1)) labels ≤
        totalDistance X (fitIterate lsa X C t) labels ∧
      totalDistance X (fitIterate lsa X C (t + 1))
          (balancedLabels lsa X (fitIterate lsa X C (t + 1))) ≤
        totalDistance X (fitIterate lsa X C t) labels) ∧
    (∃ t ≤ 50, balancedSphericalKmeans lsa X C 50 = fitIterate lsa X C t) ∧
    ∃ (aligned : Rows ℝ) (p : List Nat), runRefit (lsaFitter lsa hsolves) X C true = .ok aligned ∧
      p.Perm (List.range C.length) ∧
      aligned = p.map (fun j => (balancedSphericalKmeans lsa X C 50).getD j []) ∧
      ∀ q : List Nat, q.Perm (List.range C.length) →
        similarity C (q.map fun j => (balancedSphericalKmeans lsa X C 50).getD j []) ≤
          similarity C aligned := by
  have hunit : ∀ t, UnitRows d (fitIterate lsa X C t) ∧
      (fitIterate lsa X C t).length = C.length := fitIterate_unit hX hnonneg hcount hC
  have hoptimal : ∀ t, Respects X.length C.length (capacity X.length C.length)
      (balancedLabels lsa X (fitIterate lsa X C t)) ∧
        ∀ other, Respects X.length C.length (capacity X.length C.length) other →
          totalDistance X (fitIterate lsa X C t) (balancedLabels lsa X (fitIterate lsa X C t)) ≤
            totalDistance X (fitIterate lsa X C t) other := by
    intro t
    have hlen := (hunit t).2
    have h := balancedLabels_optimal (X := X) (C := fitIterate lsa X C t) hsolves
      (by rw [hlen]; exact hk) (by rw [hlen]; exact hn)
    rwa [hlen] at h
  refine ⟨fun t => ?_, fitLoop_eq_iterate _ _ _, ?_⟩
  · obtain ⟨hrespects, hminimal⟩ := hoptimal t
    have hmove : totalDistance X (fitIterate lsa X C (t + 1))
        (balancedLabels lsa X (fitIterate lsa X C t)) ≤
          totalDistance X (fitIterate lsa X C t) (balancedLabels lsa X (fitIterate lsa X C t)) := by
      rw [fitIterate_succ]
      exact totalDistance_moveCentroids_le hX hnonneg hcount (hunit t).1 hrespects.length
        (by rw [(hunit t).2]; exact hrespects.lt)
    exact ⟨hrespects, hminimal, hmove, ((hoptimal (t + 1)).2 _ hrespects).trans hmove⟩
  · obtain ⟨t, -, hfit⟩ := fitLoop_eq_iterate (balancedStep lsa X) 50 (C.map normalize)
    have hfitted : balancedSphericalKmeans lsa X C 50 = fitIterate lsa X C t := hfit
    have hlen : (balancedSphericalKmeans lsa X C 50).length = C.length := by
      rw [hfitted, (hunit t).2]
    have hshape : shape (balancedSphericalKmeans lsa X C 50) = shape C := by
      rw [hfitted]
      exact (hunit t).1.shape_eq hC (hunit t).2
    obtain ⟨p, hp, halign, hmax⟩ := alignCentroids_maximal hsolves hlen
    rw [hlen] at hp hmax
    refine ⟨_, p, ?_, hp, halign, hmax⟩
    simp only [runRefit, lsaFitter, bind, Except.bind, if_true]
    exact if_neg (not_not.mpr hshape)

/-- A solver exists, so the laws are about something; the two vectors and centroids are the axes. -/
theorem balancedRefit_laws_axes : ∃ (lsa : Rows ℝ → List Nat) (hsolves : SolvesAssignment lsa)
    (aligned : Rows ℝ) (p : List Nat),
    runRefit (lsaFitter lsa hsolves) [[1, 0], [0, 1]] [[0, 1], [1, 0]] true = .ok aligned ∧
      p.Perm (List.range 2) ∧ aligned = p.map (fun j =>
        (balancedSphericalKmeans lsa [[1, 0], [0, 1]] [[0, 1], [1, 0]] 50).getD j []) := by
  have hexists : ∀ cost : Rows ℝ, ∃ cols, ∀ m, (∀ row ∈ cost, row.length = m) → cost.length ≤ m →
      IsOptimal m cost cols := by
    intro cost
    cases cost with
    | nil => exact ⟨[], fun m _ _ => isOptimal_nil m⟩
    | cons row cost =>
      by_cases hle : (row :: cost).length ≤ row.length
      · obtain ⟨cols, hcols⟩ := exists_isOptimal (row :: cost) hle
        exact ⟨cols, fun m hm _ => hm row List.mem_cons_self ▸ hcols⟩
      · exact ⟨[], fun m hm hlen => absurd (hm row List.mem_cons_self ▸ hlen) hle⟩
  choose lsa hlsa using hexists
  have hsolves : SolvesAssignment lsa := fun m cost => hlsa cost m
  have hunit : UnitRows 2 [[1, 0], [0, 1]] := by
    simp [UnitRows, RealVec.norm]
  have hunit' : UnitRows 2 [[0, 1], [1, 0]] := by
    simp [UnitRows, RealVec.norm]
  obtain ⟨-, -, aligned, p, hrun, hp, haligned, -⟩ := balancedRefit_laws hsolves (by simp) (by simp)
    (by simp) hunit (by simp) hunit'
  exact ⟨lsa, hsolves, aligned, p, hrun, hp, haligned⟩

end Refit

end EldrServing.Routing
