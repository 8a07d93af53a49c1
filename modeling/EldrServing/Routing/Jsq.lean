import EldrServing.Lib.RealVec
import Mathlib.Data.List.MinMax

/-!
# The locality band and the shortest queue in it

The decoders whose score is within `tau` of the best one form the band; the choice is the first
of the band with the least load. `Chosen` says this without the lists the code builds, and
determines the decoder.
-/

namespace EldrServing.Routing

set_option autoImplicit false

noncomputable section

/-- `scores.max()` of a non-empty array. -/
def maxScore : List ℝ → ℝ
  | [] => 0
  | x :: xs => xs.foldl max x

/-- `np.flatnonzero(scores >= scores.max() - tau)`. -/
def localityCandidates (scores : List ℝ) (tau : ℝ) : List Nat :=
  (List.range scores.length).filter fun i => maxScore scores - tau ≤ scores.getD i 0

/-- `candidates[np.argmin(loads[candidates])]`; there is none among no candidates. -/
def firstLeastLoaded (loads : List ℝ) (candidates : List Nat) : Option Nat :=
  candidates.argmin fun i => loads.getD i 0

end

theorem le_foldl_max (x : ℝ) (xs : List ℝ) :
    x ≤ xs.foldl max x ∧ ∀ y ∈ xs, y ≤ xs.foldl max x := by
  induction xs generalizing x with
  | nil => simp
  | cons z xs ih =>
    obtain ⟨hhead, htail⟩ := ih (max x z)
    rw [List.foldl_cons]
    refine ⟨(le_max_left x z).trans hhead, ?_⟩
    intro y hy
    rcases List.mem_cons.mp hy with rfl | hy
    · exact (le_max_right x y).trans hhead
    · exact htail y hy

theorem foldl_max_mem (x : ℝ) (xs : List ℝ) : xs.foldl max x ∈ x :: xs := by
  induction xs generalizing x with
  | nil => simp
  | cons z xs ih =>
    rw [List.foldl_cons]
    rcases List.mem_cons.mp (ih (max x z)) with heq | hmem
    · rw [heq]
      rcases max_choice x z with hx | hz
      · rw [hx]
        exact List.mem_cons_self
      · rw [hz]
        exact List.mem_cons_of_mem x List.mem_cons_self
    · exact List.mem_cons_of_mem x (List.mem_cons_of_mem z hmem)

theorem le_maxScore {scores : List ℝ} {s : ℝ} (hs : s ∈ scores) : s ≤ maxScore scores := by
  cases scores with
  | nil => cases hs
  | cons x xs =>
    rcases List.mem_cons.mp hs with rfl | hs
    · exact (le_foldl_max s xs).1
    · exact (le_foldl_max x xs).2 s hs

theorem maxScore_mem {scores : List ℝ} (hne : scores ≠ []) : maxScore scores ∈ scores := by
  cases scores with
  | nil => exact absurd rfl hne
  | cons x xs => exact foldl_max_mem x xs

/-- The decoder `i` scores `s` and no decoder scores more than `s + tau`. -/
structure InBand (scores : List ℝ) (tau : ℝ) (i : Nat) (s : ℝ) : Prop where
  score : scores[i]? = some s
  near : ∀ t ∈ scores, t ≤ s + tau

/-- The decoder `w` is the first of the least loaded decoders in the band. -/
structure Chosen (scores loads : List ℝ) (tau : ℝ) (w : Nat) (load : ℝ) : Prop where
  band : ∃ s, InBand scores tau w s
  has : loads[w]? = some load
  least : ∀ i s l, InBand scores tau i s → loads[i]? = some l → load ≤ l
  first : ∀ i s, InBand scores tau i s → loads[i]? = some load → w ≤ i

section Choice

variable {scores loads scores' loads' : List ℝ} {tau tau' load load' : ℝ} {w w' i : Nat}

theorem mem_localityCandidates :
    i ∈ localityCandidates scores tau ↔ ∃ s, InBand scores tau i s := by
  rw [localityCandidates, List.mem_filter, List.mem_range, decide_eq_true_iff]
  constructor
  · rintro ⟨hi, hnear⟩
    have hget : scores.getD i 0 = scores[i] := by simp [hi]
    rw [hget] at hnear
    refine ⟨scores[i], List.getElem?_eq_getElem hi, fun t ht => ?_⟩
    linarith only [hnear, le_maxScore ht]
  · rintro ⟨s, hscore, hnear⟩
    obtain ⟨hi, rfl⟩ := List.getElem?_eq_some_iff.mp hscore
    have hget : scores.getD i 0 = scores[i] := by simp [hi]
    have hbest := hnear _ (maxScore_mem (List.ne_nil_of_length_pos (by omega)))
    rw [hget]
    exact ⟨hi, by linarith only [hbest]⟩

theorem localityCandidates_pairwise (scores : List ℝ) (tau : ℝ) :
    (localityCandidates scores tau).Pairwise (· < ·) :=
  List.Pairwise.filter _ List.pairwise_lt_range

theorem exists_inBand (hne : scores ≠ []) (htau : 0 ≤ tau) : ∃ i s, InBand scores tau i s := by
  obtain ⟨i, hi⟩ := List.getElem?_of_mem (maxScore_mem hne)
  exact ⟨i, _, hi, fun t ht => by linarith only [le_maxScore ht, htau]⟩

theorem InBand.lt_length {s : ℝ} (h : InBand scores tau i s) : i < scores.length :=
  (List.getElem?_eq_some_iff.mp h.score).1

theorem InBand.mono {s : ℝ} (h : InBand scores tau i s) (hle : tau ≤ tau') :
    InBand scores tau' i s :=
  ⟨h.score, fun t ht => by linarith only [h.near t ht, hle]⟩

theorem firstLeastLoaded_chosen (hlen : loads.length = scores.length) (hne : scores ≠ [])
    (htau : 0 ≤ tau) : ∃ w load, firstLeastLoaded loads (localityCandidates scores tau) = some w ∧
      Chosen scores loads tau w load := by
  have hload : ∀ {i s}, InBand scores tau i s → loads[i]? = some (loads.getD i 0) := fun h => by
    rw [List.getD_eq_getElem?_getD, List.getElem?_eq_getElem (hlen ▸ h.lt_length), Option.getD_some]
  cases hmin : firstLeastLoaded loads (localityCandidates scores tau) with
  | none =>
    obtain ⟨i, s, hi⟩ := exists_inBand hne htau
    have hmem : i ∈ localityCandidates scores tau := mem_localityCandidates.mpr ⟨s, hi⟩
    rw [List.argmin_eq_none.mp hmin] at hmem
    cases hmem
  | some w =>
    have hmem := List.argmin_mem hmin
    obtain ⟨s, hs⟩ := mem_localityCandidates.mp hmem
    refine ⟨w, loads.getD w 0, rfl, ⟨s, hs⟩, hload hs, ?_, ?_⟩
    · intro i t l hi hl
      have hle := List.le_of_mem_argmin (mem_localityCandidates.mpr ⟨t, hi⟩) hmin
      rwa [Option.some.inj ((hload hi).symm.trans hl)] at hle
    · intro i t hi hl
      have hmem' := mem_localityCandidates.mpr ⟨t, hi⟩
      have hindex := List.index_of_argmin hmin hmem' (by
        rw [Option.some.inj ((hload hi).symm.trans hl)])
      -- the candidates are listed in order, so the earlier position is the smaller decoder
      by_contra hlt
      rw [not_le] at hlt
      obtain ⟨a, ha, hw⟩ := List.getElem_of_mem hmem
      obtain ⟨b, hb, hib⟩ := List.getElem_of_mem hmem'
      have hnodup := (localityCandidates_pairwise scores tau).imp ne_of_lt
      subst hw hib
      rw [List.Nodup.idxOf_getElem hnodup, List.Nodup.idxOf_getElem hnodup] at hindex
      rcases Nat.lt_or_eq_of_le hindex with hab | rfl
      · have := List.pairwise_iff_getElem.mp (localityCandidates_pairwise scores tau) a b ha hb hab
        omega
      · omega

theorem Chosen.unique (h : Chosen scores loads tau w load) (h' : Chosen scores loads tau w' load') :
    w = w' ∧ load = load' := by
  obtain ⟨s, hs⟩ := h.band
  obtain ⟨s', hs'⟩ := h'.band
  have hload : load = load' := le_antisymm (h.least w' s' load' hs' h'.has)
    (h'.least w s load hs h.has)
  subst hload
  exact ⟨Nat.le_antisymm (h.first w' s' hs' h'.has) (h'.first w s hs h.has), rfl⟩

theorem Chosen.load_antitone (h : Chosen scores loads tau w load)
    (h' : Chosen scores loads tau' w' load') (hle : tau ≤ tau') : load' ≤ load := by
  obtain ⟨s, hs⟩ := h.band
  exact h'.least w s load (hs.mono hle) h.has

theorem Chosen.best (h : Chosen scores loads 0 w load) :
    ∃ s, scores[w]? = some s ∧ ∀ t ∈ scores, t ≤ s := by
  obtain ⟨s, hs⟩ := h.band
  exact ⟨s, hs.score, fun t ht => by simpa using hs.near t ht⟩

theorem Chosen.of_const {c : ℝ} (h : Chosen scores loads tau w load) (htau : 0 ≤ tau)
    (hlen : loads.length = scores.length) (hconst : ∀ s ∈ scores, s = c) :
    (∀ l ∈ loads, load ≤ l) ∧ ∀ i, loads[i]? = some load → w ≤ i := by
  have hband : ∀ i l, loads[i]? = some l → InBand scores tau i c := by
    intro i l hl
    have hi : i < scores.length := hlen ▸ (List.getElem?_eq_some_iff.mp hl).1
    refine ⟨?_, fun t ht => by linarith only [hconst t ht, htau]⟩
    rw [List.getElem?_eq_getElem hi, hconst _ (List.getElem_mem hi)]
  constructor
  · intro l hl
    obtain ⟨i, hi⟩ := List.getElem?_of_mem hl
    exact h.least i c l (hband i l hi) hi
  · intro i hi
    exact h.first i c (hband i load hi) hi

theorem exists_getElem?_of_mem_zip {α β : Type} {as : List α} {bs : List β} {a : α} {b : β}
    (h : (a, b) ∈ as.zip bs) : ∃ i : Nat, as[i]? = some a ∧ bs[i]? = some b := by
  obtain ⟨i, hi⟩ := List.getElem?_of_mem h
  exact ⟨i, List.getElem?_zip_eq_some.mp hi⟩

theorem mem_zip_of_getElem? {α β : Type} {as : List α} {bs : List β} {a : α} {b : β} {i : Nat}
    (ha : as[i]? = some a) (hb : bs[i]? = some b) : (a, b) ∈ as.zip bs :=
  List.mem_of_getElem? (List.getElem?_zip_eq_some.mpr ⟨ha, hb⟩)

theorem InBand.perm {s l : ℝ} (hlen : loads.length = scores.length)
    (hperm : (scores.zip loads).Perm (scores'.zip loads')) (hlen' : loads'.length = scores'.length)
    (h : InBand scores tau i s) (hl : loads[i]? = some l) :
    ∃ j, InBand scores' tau j s ∧ loads'[j]? = some l := by
  obtain ⟨j, hs', hl'⟩ := exists_getElem?_of_mem_zip
    (hperm.mem_iff.mp (mem_zip_of_getElem? h.score hl))
  refine ⟨j, ⟨hs', fun t ht => h.near t ?_⟩, hl'⟩
  have hscores := hperm.map Prod.fst
  rw [List.map_fst_zip (by omega), List.map_fst_zip (by omega)] at hscores
  exact hscores.mem_iff.mpr ht

theorem Chosen.load_perm (hlen : loads.length = scores.length)
    (hlen' : loads'.length = scores'.length) (hperm : (scores.zip loads).Perm (scores'.zip loads'))
    (h : Chosen scores loads tau w load) (h' : Chosen scores' loads' tau w' load') :
    load = load' := by
  obtain ⟨s, hs⟩ := h.band
  obtain ⟨s', hs'⟩ := h'.band
  apply le_antisymm
  · obtain ⟨j, hj, hl⟩ := hs'.perm hlen' hperm.symm hlen h'.has
    exact h.least j s' load' hj hl
  · obtain ⟨j, hj, hl⟩ := hs.perm hlen hperm hlen' h.has
    exact h'.least j s load hj hl

end Choice

end EldrServing.Routing
