import EldrServing.Lib.Py
import EldrServing.Routing.Jsq
import Mathlib.Data.List.Sort
import Mathlib.Tactic.NormNum

/-!
# Centroid files, signature vectors and static routing

The JSON object of a centroid file is a record with the defaults its readers use; values of
another JSON type than the field's are refused by the source and not represented. Numbers are
real and every operation on them is exact, so the finiteness tests have nothing to refuse.
-/

namespace EldrServing.Routing

open RealVec

set_option autoImplicit false

inductive SignatureVariant where
  | count
  | countIdf
  | gateProbAll
  | unknown
  deriving DecidableEq, Repr

inductive WireDtype where
  | i2
  | f4
  | unknown
  deriving DecidableEq, Repr

/-- The type of the numbers a producer sends for the variant. -/
def SignatureVariant.wireDtype : SignatureVariant → WireDtype
  | .gateProbAll => .f4
  | _ => .i2

inductive ClusterAlgo where
  | kmbal
  | km
  | unknown
  deriving DecidableEq, Repr

structure CentroidJson where
  L : Int
  e : Int
  /-- One of `sig_mean` and `_mean` is given and not null. -/
  sigMean : Bool := false
  sigPerLayerNorm : Bool := false
  variant : SignatureVariant := .count
  sigDtype : WireDtype := .i2
  layerMask : Option (List Int) := none
  /-- The key `_mask`. -/
  packedMask : Option (List Int) := none
  sigIdf : Option (List ℝ) := none
  /-- The key `_idf`. -/
  packedIdf : Option (List ℝ) := none
  algo : ClusterAlgo := .kmbal
  centroids : Option (List (List ℝ)) := none
  microCentroids : Option (List (List ℝ)) := none
  k : Option Int := none

noncomputable section

open Classical in
def validateSignatureMetadata (data : CentroidJson) : Except PyError Nat :=
  if data.L < 1 ∨ data.e < 1 then .error (.valueError "Positive integer model geometry required")
  else if data.sigMean ∨ data.sigPerLayerNorm ∨ data.variant = .unknown ∨
      data.sigDtype ≠ data.variant.wireDtype then
    .error (.valueError "Unsupported signature transform or wire dtype")
  else
    let layers := (List.range data.L.toNat).map Int.ofNat
    let mask := data.layerMask.getD layers
    if mask = [] ∨ (∃ i ∈ mask, ¬ (0 ≤ i ∧ i < data.L)) ∨
        mask ≠ mask.dedup.insertionSort (· ≤ ·) ∨ (∃ m, data.packedMask = some m ∧ m ≠ mask) then
      .error (.valueError "Layer mask must contain sorted, distinct model layers")
    else
      let dim := mask.length * data.e.toNat
      match data.variant with
      | .count =>
        if mask ≠ layers ∨ data.sigIdf.isSome ∨ data.packedIdf.isSome then
          .error (.valueError "Counts requires all layers and no IDF weights")
        else .ok dim
      | .gateProbAll =>
        if data.layerMask = none ∨ data.sigIdf.isSome ∨ data.packedIdf.isSome then
          .error (.valueError "Gate-probability signatures require a mask and no IDF")
        else .ok dim
      | _ =>
        if data.layerMask = none then
          .error (.valueError "Full signatures require an explicit layer mask")
        else
          match data.sigIdf with
          | none => .error (.valueError
              "Full signatures require finite nonnegative packed IDF weights")
          | some idf =>
            if idf.length ≠ dim ∨ (∃ x ∈ idf, x < 0) ∨ (∀ x ∈ idf, x = 0) ∨
                (∃ p, data.packedIdf = some p ∧ p ≠ idf) then
              .error (.valueError
                "Full signatures require finite nonnegative packed IDF weights")
            else .ok dim

structure CentroidData where
  L : Nat
  e : Nat
  variant : SignatureVariant
  mask : List Nat
  idf : List ℝ
  /-- `algo == "kmbal"`. -/
  balanced : Bool
  centroidMatrix : List (List ℝ)
  nonempty : centroidMatrix ≠ []
  nearUnit : ∀ row ∈ centroidMatrix, |norm row - 1| ≤ 1e-3 + 1e-5 * |1|

open Classical in
/-- The checks of the centroid rows. The norms are compared with `np.allclose`, which adds its
default relative tolerance. -/
def checkCentroids (data : CentroidJson) (dim : Nat) (centroids : List (List ℝ)) :
    Except PyError CentroidData :=
  if hshape : centroids = [] ∨ ∃ row ∈ centroids, row.length ≠ dim then
    .error (.valueError "Centroids must have finite shape [K, signature dimension]")
  else if data.k.getD centroids.length ≠ centroids.length then
    let k := data.k.getD 0
    .error (.valueError s!"metadata k={k} differs from centroid rows")
  else if hunit : ∃ row ∈ centroids, ¬ |norm row - 1| ≤ 1e-3 + 1e-5 * |(1 : ℝ)| then
    .error (.valueError "Centroids must be unit-normed")
  else
    let layers := (List.range data.L.toNat).map Int.ofNat
    .ok { L := data.L.toNat
          e := data.e.toNat
          variant := data.variant
          mask := (data.layerMask.getD layers).map Int.toNat
          idf := data.sigIdf.getD []
          balanced := data.algo = .kmbal
          centroidMatrix := centroids
          nonempty := fun hnil => hshape (.inl hnil)
          nearUnit := fun row hrow => not_not.mp fun hfar => hunit ⟨row, hrow, hfar⟩ }

def loadCentroidFile (data : CentroidJson) : Except PyError CentroidData := do
  let dim ← validateSignatureMetadata data
  if data.algo = .unknown then .error (.valueError "Unsupported clustering algorithm")
  else checkCentroids data dim ((data.centroids.or data.microCentroids).getD [])

def packCounts (data : CentroidData) (counts : List (List ℝ)) : List ℝ :=
  match data.variant with
  | .count => counts.flatten
  | .countIdf =>
    List.zipWith (· * ·) (data.mask.map fun layer => counts.getD layer []).flatten data.idf
  | _ => (data.mask.map fun layer => counts.getD layer []).flatten

/-- The vector divided by its norm, which is clipped at `1e-9`. -/
def normalize (v : List ℝ) : List ℝ := divBy (max (norm v) 1e-9) v

def buildSignature (data : CentroidData) (counts : List (List ℝ)) : Except PyError (List ℝ) :=
  if counts.length ≠ data.L ∨ ∃ row ∈ counts, row.length ≠ data.e then
    .error (.valueError "Counts do not match fitted model geometry")
  else .ok (normalize (packCounts data counts))

def routeJsq (data : CentroidData) (counts : List (List ℝ)) (loads : List ℝ) (tau : ℝ) :
    Except PyError Nat := do
  if tau < 0 then .error (.valueError "A finite nonnegative locality threshold is required")
  else
    let vector ← buildSignature data counts
    if loads = [] ∨ data.centroidMatrix.length ≠ loads.length then
      .error (.valueError "static ELDR requires exactly one centroid per decoder")
    else
      let scores := data.centroidMatrix.map (dot · vector)
      match firstLeastLoaded loads (localityCandidates scores tau) with
      | some w => .ok w
      | none => .error (.valueError "attempt to get argmin of an empty sequence")

structure Geometry (data : CentroidData) (counts : List (List ℝ)) : Prop where
  layers : counts.length = data.L
  experts : ∀ row ∈ counts, row.length = data.e
  nonneg : ∀ row ∈ counts, ∀ x ∈ row, 0 ≤ x

def scores (data : CentroidData) (counts : List (List ℝ)) : List ℝ :=
  data.centroidMatrix.map (dot · (normalize (packCounts data counts)))

end

def scaleCounts (m : ℝ) (counts : List (List ℝ)) : List (List ℝ) := counts.map (·.map (m * ·))

section Static

variable {data data' : CentroidData} {counts : List (List ℝ)} {loads loads' : List ℝ} {tau m : ℝ}

theorem buildSignature_ok (hgeo : Geometry data counts) :
    buildSignature data counts = .ok (normalize (packCounts data counts)) := by
  unfold buildSignature
  rw [if_neg]
  rintro (hlayers | ⟨row, hrow, hne⟩)
  · exact hlayers hgeo.layers
  · exact hne (hgeo.experts row hrow)

theorem Geometry.scale (hgeo : Geometry data counts) (hm : 0 ≤ m) :
    Geometry data (scaleCounts m counts) := by
  refine ⟨by simp [scaleCounts, hgeo.layers], ?_, ?_⟩
  · intro row hrow
    obtain ⟨row, hmem, rfl⟩ := List.mem_map.mp hrow
    simp [hgeo.experts row hmem]
  · intro row hrow x hx
    obtain ⟨row, hmem, rfl⟩ := List.mem_map.mp hrow
    obtain ⟨y, hy, rfl⟩ := List.mem_map.mp hx
    exact mul_nonneg hm (hgeo.nonneg row hmem y hy)

theorem routeJsq_chosen (hgeo : Geometry data counts)
    (hloads : loads.length = data.centroidMatrix.length) (htau : 0 ≤ tau) :
    ∃ w load, routeJsq data counts loads tau = .ok w ∧
      Chosen (scores data counts) loads tau w load := by
  have hlen : loads.length = (scores data counts).length := by simp [scores, hloads]
  have hne : scores data counts ≠ [] := by simpa [scores] using data.nonempty
  have hne' : loads ≠ [] := fun hnil => hne (List.length_eq_zero_iff.mp (by rw [← hlen, hnil]; rfl))
  obtain ⟨w, load, hw, hchosen⟩ := firstLeastLoaded_chosen hlen hne htau
  refine ⟨w, load, ?_, hchosen⟩
  rw [scores] at hw
  simp only [routeJsq, not_lt.mpr htau, if_false, buildSignature_ok hgeo, bind, Except.bind, hne',
    hloads, ne_eq, not_true_eq_false, or_self, hw]

theorem packCounts_scale (data : CentroidData) (m : ℝ) (counts : List (List ℝ)) :
    packCounts data (scaleCounts m counts) = (packCounts data counts).map (m * ·) := by
  have hrow : ∀ layer, (scaleCounts m counts).getD layer [] =
      (counts.getD layer []).map (m * ·) := fun layer => by
    rw [scaleCounts, List.getD_eq_getElem?_getD, List.getElem?_map, List.getD_eq_getElem?_getD]
    cases counts[layer]? <;> rfl
  have hmask : (data.mask.map fun layer => (scaleCounts m counts).getD layer []).flatten =
      (data.mask.map fun layer => counts.getD layer []).flatten.map (m * ·) := by
    simp only [hrow, List.map_flatten, List.map_map]
    rfl
  unfold packCounts
  cases data.variant with
  | count => rw [scaleCounts, List.map_flatten]
  | countIdf =>
    simp only [hmask, List.zipWith_map_left, List.map_zipWith]
    congr 1
    funext x y
    ring
  | gateProbAll => exact hmask
  | unknown => exact hmask

theorem normalize_scale {v : List ℝ} (hm : 1 ≤ m) (hv : 1e-9 ≤ norm v) :
    normalize (v.map (m * ·)) = normalize v := by
  have hpos : 0 < m := lt_of_lt_of_le one_pos hm
  have hnorm : norm (v.map (m * ·)) = m * norm v := by
    rw [norm_map_mul, abs_of_pos hpos]
  have hclip : (1e-9 : ℝ) ≤ m * norm v :=
    hv.trans (le_mul_of_one_le_left (norm_nonneg v) hm)
  rw [normalize, normalize, hnorm, max_eq_left hclip, max_eq_left hv, divBy, divBy, List.map_map]
  congr 1
  funext x
  exact mul_div_mul_left x (norm v) hpos.ne'

theorem scores_scale (hm : 1 ≤ m) (hv : 1e-9 ≤ norm (packCounts data counts)) :
    scores data (scaleCounts m counts) = scores data counts := by
  rw [scores, scores, packCounts_scale, normalize_scale hm hv]

theorem scores_zero (hzero : ∀ x ∈ normalize (packCounts data counts), x = 0) :
    ∀ s ∈ scores data counts, s = 0 := by
  intro s hs
  obtain ⟨row, -, rfl⟩ := List.mem_map.mp hs
  rw [List.eq_replicate_of_mem hzero, dot_comm, dot_replicate_zero]

theorem scores_zip (data : CentroidData) (counts : List (List ℝ)) (loads : List ℝ) :
    (scores data counts).zip loads = (data.centroidMatrix.zip loads).map
      (Prod.map (dot · (normalize (packCounts data counts))) id) := by
  rw [scores, List.zip_map_left]

end Static

def CentroidJson.mask (json : CentroidJson) : List Int :=
  json.layerMask.getD ((List.range json.L.toNat).map Int.ofNat)

variable {rows : List (List ℝ)} {dim : Nat}

theorem checkCentroids_ok {json : CentroidJson}
    {data : CentroidData} (h : checkCentroids json dim rows = .ok data) :
    ¬ (rows = [] ∨ ∃ row ∈ rows, row.length ≠ dim) ∧ ¬ json.k.getD rows.length ≠ rows.length ∧
      data.centroidMatrix = rows := by
  unfold checkCentroids at h
  split at h
  · cases h
  next hshape =>
  split at h
  · cases h
  next hk =>
  split at h
  · cases h
  next hunit =>
  obtain rfl := Except.ok.inj h
  exact ⟨hshape, hk, rfl⟩

theorem checkCentroids_fields {json : CentroidJson}
    {data : CentroidData} (h : checkCentroids json dim rows = .ok data) :
    data.L = json.L.toNat ∧ data.e = json.e.toNat ∧ data.variant = json.variant ∧
      data.mask = json.mask.map Int.toNat ∧ data.idf = json.sigIdf.getD [] := by
  unfold checkCentroids at h
  split at h
  · cases h
  split at h
  · cases h
  split at h
  · cases h
  obtain rfl := Except.ok.inj h
  exact ⟨rfl, rfl, rfl, rfl, rfl⟩

theorem checkCentroids_reorder {json : CentroidJson} {rows' : List (List ℝ)}
    {data : CentroidData} (h : checkCentroids json dim rows = .ok data)
    (hperm : rows'.Perm data.centroidMatrix) :
    ∃ data', checkCentroids json dim rows' = .ok data' ∧
      data'.centroidMatrix = rows' ∧ data'.L = data.L ∧ data'.e = data.e ∧
      data'.variant = data.variant ∧ data'.mask = data.mask ∧ data'.idf = data.idf := by
  have hunit := data.nearUnit
  obtain ⟨hshape, hk, hmatrix⟩ := checkCentroids_ok h
  rw [hmatrix] at hperm hunit
  have hshape' : ¬ (rows' = [] ∨ ∃ row ∈ rows', row.length ≠ dim) := by
    rintro (rfl | ⟨row, hrow, hne⟩)
    · exact hshape (.inl hperm.symm.eq_nil)
    · exact hshape (.inr ⟨row, hperm.mem_iff.mp hrow, hne⟩)
  have hunit' : ¬ ∃ row ∈ rows', ¬ |norm row - 1| ≤ 1e-3 + 1e-5 * |(1 : ℝ)| := by
    rintro ⟨row, hrow, hfar⟩
    exact hfar (hunit row (hperm.mem_iff.mp hrow))
  have hunit₀ : ¬ ∃ row ∈ rows, ¬ |norm row - 1| ≤ 1e-3 + 1e-5 * |(1 : ℝ)| := by
    rintro ⟨row, hrow, hfar⟩
    exact hfar (hunit row hrow)
  unfold checkCentroids at h ⊢
  rw [dif_neg hshape, if_neg hk, dif_neg hunit₀] at h
  rw [dif_neg hshape', hperm.length_eq, if_neg hk, dif_neg hunit']
  obtain rfl := Except.ok.inj h
  exact ⟨_, rfl, rfl, rfl, rfl, rfl, rfl, rfl⟩

/-- A file with the rows in another order is accepted as well, with everything else as before. -/
theorem loadCentroidFile_reorder {json : CentroidJson} {data : CentroidData}
    (hload : loadCentroidFile json = .ok data) (hperm : rows.Perm data.centroidMatrix) :
    ∃ data', loadCentroidFile { json with centroids := some rows } = .ok data' ∧
      data'.centroidMatrix = rows ∧ data'.L = data.L ∧ data'.e = data.e ∧
      data'.variant = data.variant ∧ data'.mask = data.mask ∧ data'.idf = data.idf := by
  obtain ⟨dim, hdim, hrest⟩ := except_bind_eq_ok.mp hload
  split at hrest
  · cases hrest
  next halgo =>
  obtain ⟨data', hcheck, hsame⟩ := checkCentroids_reorder hrest hperm
  refine ⟨data', ?_, hsame⟩
  unfold loadCentroidFile
  rw [show validateSignatureMetadata { json with centroids := some rows } = .ok dim from hdim]
  simp only [bind, Except.bind, if_neg halgo]
  exact hcheck

theorem validateSignatureMetadata_ok {json : CentroidJson}
    (h : validateSignatureMetadata json = .ok dim) :
    (∀ i ∈ json.mask, 0 ≤ i ∧ i < json.L) ∧ dim = json.mask.length * json.e.toNat ∧
      (json.variant = .count → json.mask = (List.range json.L.toNat).map Int.ofNat) ∧
      (json.variant = .countIdf → (json.sigIdf.getD []).length = dim) := by
  unfold validateSignatureMetadata at h
  split at h
  · cases h
  split at h
  · cases h
  next hknown =>
  dsimp only at h
  split at h
  · cases h
  next hmask =>
  have hbounds : ∀ i ∈ json.mask, 0 ≤ i ∧ i < json.L := by
    intro i hi
    by_contra hout
    exact hmask (.inr (.inl ⟨i, hi, hout⟩))
  cases hvariant : json.variant with
  | count =>
    rw [hvariant] at h
    dsimp only at h
    split at h
    · cases h
    · next hlayers =>
      refine ⟨hbounds, (Except.ok.inj h).symm, fun _ => ?_, nofun⟩
      by_contra hne
      exact hlayers (.inl hne)
  | gateProbAll =>
    rw [hvariant] at h
    dsimp only at h
    split at h
    · cases h
    · exact ⟨hbounds, (Except.ok.inj h).symm, nofun, nofun⟩
  | countIdf =>
    rw [hvariant] at h
    dsimp only at h
    split at h
    · cases h
    · split at h
      · cases h
      · next idf hidf =>
        split at h
        · cases h
        · next hweights =>
          obtain rfl := Except.ok.inj h
          refine ⟨hbounds, rfl, nofun, fun _ => ?_⟩
          rw [hidf]
          by_contra hne
          exact hweights (.inl hne)
  | unknown => exact absurd (.inr (.inr (.inl hvariant))) hknown

theorem length_flatten_of_length {n : Nat}
    (hrows : ∀ row ∈ rows, row.length = n) : rows.flatten.length = rows.length * n := by
  rw [List.length_flatten, List.map_congr_left hrows]
  simp

theorem length_packCounts {json : CentroidJson} {data : CentroidData} {counts : List (List ℝ)}
    (hload : loadCentroidFile json = .ok data) (hgeo : Geometry data counts) :
    ∀ row ∈ data.centroidMatrix, row.length = (packCounts data counts).length := by
  obtain ⟨dim, hdim, hrest⟩ := except_bind_eq_ok.mp hload
  split at hrest
  · cases hrest
  obtain ⟨hbounds, hlength, hcount, hidf⟩ := validateSignatureMetadata_ok hdim
  obtain ⟨hshape, -, hmatrix⟩ := checkCentroids_ok hrest
  obtain ⟨hL, he, hvariant, hmask, hweights⟩ := checkCentroids_fields hrest
  -- the rows the mask picks are rows of the counts
  have hpicked : ((data.mask.map fun layer => counts.getD layer []).flatten).length = dim := by
    rw [length_flatten_of_length (n := data.e), hmask, hlength, he]
    · simp
    · intro row hrow
      obtain ⟨layer, hlayer, rfl⟩ := List.mem_map.mp hrow
      rw [hmask] at hlayer
      obtain ⟨i, hi, rfl⟩ := List.mem_map.mp hlayer
      obtain ⟨hi0, hiL⟩ := hbounds i hi
      have hlt : i.toNat < counts.length := by
        rw [hgeo.layers, hL]
        omega
      have hget : counts[i.toNat]? = some (counts.getD i.toNat []) := by simp [hlt]
      rw [hgeo.experts _ (List.mem_of_getElem? hget)]
  intro row hrow
  rw [hmatrix] at hrow
  have hrowlen : row.length = dim := by
    by_contra hne
    exact hshape (.inr ⟨row, hrow, hne⟩)
  rw [hrowlen, packCounts]
  cases hv : data.variant with
  | count =>
    dsimp only
    rw [length_flatten_of_length hgeo.experts, hgeo.layers, hL, he, hlength,
      hcount (hvariant ▸ hv)]
    simp
  | countIdf =>
    dsimp only
    rw [List.length_zipWith, hpicked, hweights, hidf (hvariant ▸ hv), min_self]
  | gateProbAll => exact hpicked.symm
  | unknown => exact hpicked.symm

section Laws

variable {json : CentroidJson} {data : CentroidData} {counts : List (List ℝ)} {loads : List ℝ}
  {tau load : ℝ} {w : Nat}

/-- Decoders that change places together with their centroids take the choice along. -/
theorem routeJsq_reorder (hload : loadCentroidFile json = .ok data) (hgeo : Geometry data counts)
    (hloads : loads.length = data.centroidMatrix.length) (htau : 0 ≤ tau)
    (hchosen : Chosen (scores data counts) loads tau w load) (hnodup : loads.Nodup)
    {loads' : List ℝ} (hloads' : loads'.length = rows.length)
    (hperm : (rows.zip loads').Perm (data.centroidMatrix.zip loads)) :
    ∃ data' w', loadCentroidFile { json with centroids := some rows } = .ok data' ∧
      routeJsq data' counts loads' tau = .ok w' ∧ rows[w']? = data.centroidMatrix[w]? ∧
      loads'[w']? = loads[w]? := by
  have hrows := hperm.map Prod.fst
  rw [List.map_fst_zip (by omega), List.map_fst_zip (by omega)] at hrows
  obtain ⟨data', hload', rfl, hL, he, hvariant, hmask, hidf⟩ := loadCentroidFile_reorder hload hrows
  have hpack : packCounts data' counts = packCounts data counts := by
    rw [packCounts, packCounts, hvariant, hmask, hidf]
  have hgeo' : Geometry data' counts :=
    ⟨by rw [hL, hgeo.layers], by rw [he]; exact hgeo.experts, hgeo.nonneg⟩
  obtain ⟨w', load', hroute', hchosen'⟩ := routeJsq_chosen hgeo' hloads' htau
  have hscores : ((scores data counts).zip loads).Perm ((scores data' counts).zip loads') := by
    rw [scores_zip, scores_zip, hpack]
    exact (hperm.map _).symm
  obtain rfl := hchosen.load_perm (by simp [scores, hloads]) (by simp [scores, hloads']) hscores
    hchosen'
  refine ⟨data', w', hload', hroute', ?_, hchosen'.has.trans hchosen.has.symm⟩
  -- the chosen pair is in both lists, and its load is in one place only
  have hw' : w' < data'.centroidMatrix.length :=
    hloads' ▸ (List.getElem?_eq_some_iff.mp hchosen'.has).1
  have hrow' := List.getElem?_eq_getElem hw'
  obtain ⟨i, hrow, hi⟩ := exists_getElem?_of_mem_zip
    (hperm.mem_iff.mp (mem_zip_of_getElem? hrow' hchosen'.has))
  obtain ⟨hiw, hival⟩ := List.getElem?_eq_some_iff.mp hi
  obtain ⟨hww, hwval⟩ := List.getElem?_eq_some_iff.mp hchosen.has
  obtain rfl : i = w := (hnodup.getElem_inj_iff).mp (hival.trans hwval.symm)
  rw [hrow', hrow]

end Laws

end EldrServing.Routing
