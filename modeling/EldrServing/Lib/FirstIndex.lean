import Mathlib.Data.List.Dedup
import Mathlib.Data.List.Sort
import Mathlib.Data.List.Range

/-!
# First occurrences

The indices of the first occurrences of the values of a list, in increasing order. Such a list is
determined by its members, which is how the results below identify it.
-/

namespace EldrServing.FirstIndex

set_option autoImplicit false

/-- `np.unique(xs, return_index=True)[1]`: for each value, in increasing order of the values, the
index of its first occurrence. -/
def uniqueIndex (xs : List Nat) : List Nat :=
  (xs.dedup.insertionSort (· ≤ ·)).map fun x => xs.idxOf x

/-- `np.sort` of the indices of `np.unique`. -/
def firstIndices (xs : List Nat) : List Nat := (uniqueIndex xs).insertionSort (· ≤ ·)

variable {xs ys : List Nat} {j : Nat}

theorem mem_firstIndices_iff : j ∈ firstIndices xs ↔ ∃ x ∈ xs, xs.idxOf x = j := by
  simp [firstIndices, uniqueIndex]

theorem firstIndices_nodup (xs : List Nat) : (firstIndices xs).Nodup := by
  rw [firstIndices, (List.perm_insertionSort _ _).nodup_iff, uniqueIndex]
  refine List.Nodup.map_on ?_ ((List.perm_insertionSort _ _).nodup_iff.mpr xs.nodup_dedup)
  intro x hx y _ hxy
  have hx : x ∈ xs := by simpa using hx
  exact (List.idxOf_inj hx).mp hxy

theorem firstIndices_pairwise_le (xs : List Nat) : (firstIndices xs).Pairwise (· ≤ ·) :=
  List.pairwise_insertionSort _ _

theorem eq_firstIndices (hys : ys.Pairwise (· < ·))
    (hmem : ∀ j, j ∈ firstIndices xs ↔ j ∈ ys) : firstIndices xs = ys := by
  have hnodup : ys.Nodup := hys.imp fun h => Nat.ne_of_lt h
  have hperm : (firstIndices xs).Perm ys :=
    (List.perm_ext_iff_of_nodup (firstIndices_nodup xs) hnodup).mpr hmem
  exact hperm.eq_of_pairwise' (firstIndices_pairwise_le xs) (hys.imp fun h => Nat.le_of_lt h)

theorem mem_firstIndices_map_range {n : Nat} {f : Nat → Nat} :
    j ∈ firstIndices ((List.range n).map f) ↔ j < n ∧ ∀ i < j, f i ≠ f j := by
  rw [mem_firstIndices_iff]
  constructor
  · rintro ⟨x, hx, rfl⟩
    have hlt := List.idxOf_lt_length_of_mem hx
    have hget := List.getElem_idxOf hlt
    rw [List.getElem_map, List.getElem_range] at hget
    refine ⟨by simpa using hlt, fun i hi heq => ?_⟩
    have hne := List.not_of_lt_findIdx (p := (· == x)) hi
    simp only [List.getElem_map, List.getElem_range] at hne
    exact absurd (heq.trans hget) (by simpa using hne)
  · rintro ⟨hj, hfirst⟩
    have hmem : f j ∈ (List.range n).map f :=
      List.mem_map.mpr ⟨j, List.mem_range.mpr hj, rfl⟩
    refine ⟨f j, hmem, ?_⟩
    rw [List.idxOf, List.findIdx_eq (by simpa using hj)]
    refine ⟨by simp, fun i hi => ?_⟩
    simpa using hfirst i hi

theorem map_firstIndices_nodup (n : Nat) (f : Nat → Nat) :
    ((firstIndices ((List.range n).map f)).map f).Nodup := by
  refine List.Nodup.map_on ?_ (firstIndices_nodup _)
  intro i hi j hj hij
  have hi := (mem_firstIndices_map_range.mp hi).2
  have hj := (mem_firstIndices_map_range.mp hj).2
  rcases Nat.lt_trichotomy i j with h | h | h
  · exact absurd hij (hj i h)
  · exact h
  · exact absurd hij.symm (hi j h)

theorem firstIndices_of_strictMono (n : Nat) {f : Nat → Nat} (hf : StrictMono f) :
    firstIndices ((List.range n).map f) = List.range n := by
  refine eq_firstIndices List.pairwise_lt_range fun j => ?_
  rw [mem_firstIndices_map_range, List.mem_range]
  exact and_iff_left fun i hi => Nat.ne_of_lt (hf hi)

/-- Runs of `b` equal values: the first of each run is kept. -/
theorem firstIndices_div (c m : Nat) {b : Nat} (hb : 0 < b) :
    firstIndices ((List.range (m * b)).map fun j => c + j / b) =
      (List.range m).map fun i => i * b := by
  refine eq_firstIndices ?_ fun j => ?_
  · rw [List.pairwise_map]
    exact List.pairwise_lt_range.imp fun h => Nat.mul_lt_mul_of_pos_right h hb
  · rw [mem_firstIndices_map_range, List.mem_map]
    constructor
    · rintro ⟨hj, hfirst⟩
      -- the start of the run of `j` has the same value, so it is `j`
      have hstart : j / b * b = j := by
        by_contra hne
        have hlt : j / b * b < j := lt_of_le_of_ne (Nat.div_mul_le_self j b) hne
        exact hfirst _ hlt (by rw [Nat.mul_div_cancel _ hb])
      exact ⟨j / b, List.mem_range.mpr (Nat.div_lt_of_lt_mul (by rwa [Nat.mul_comm])), hstart⟩
    · rintro ⟨i, hi, rfl⟩
      have hi := List.mem_range.mp hi
      refine ⟨Nat.mul_lt_mul_of_pos_right hi hb, fun j hj heq => ?_⟩
      rw [Nat.mul_div_cancel _ hb] at heq
      have hlt : j / b < i := Nat.div_lt_of_lt_mul (by rwa [Nat.mul_comm])
      omega

end EldrServing.FirstIndex
