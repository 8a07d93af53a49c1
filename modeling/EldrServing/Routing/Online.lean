import EldrServing.Routing.Signature
import EldrServing.Routing.UpdaterRuns

/-!
# The online router

It shares the band and the queue rule with static routing, but scores a signature with the
centroids its updater has installed. Until a fit has been installed these are the rows of the
centroid file, divided by their norms.
-/

namespace EldrServing.Routing

open RealVec

set_option autoImplicit false

structure OnlineJSQRouter where
  updater : CentroidUpdater ℝ ℝ
  workerUrls : List String
  tau : ℝ

namespace OnlineJSQRouter

noncomputable section

def create (workerUrls : List String) (seedCentroids : Rows ℝ) (tau windowSeconds refitSeconds : ℝ)
    (balanced : Bool) : Except PyError OnlineJSQRouter := do
  if workerUrls = [] then .error (.valueError "worker_urls must be non-empty")
  else if tau < 0 then .error (.valueError "tau must be finite and non-negative")
  else if workerUrls.length ≠ seedCentroids.length then
    .error (.valueError "Require one nonzero seed per decoder in a fixed group")
  else
    let updater ←
      CentroidUpdater.create norm 1e-9 seedCentroids windowSeconds refitSeconds balanced
    .ok { updater, workerUrls, tau }

def routeOwned (router : OnlineJSQRouter) (signature loads : List ℝ) (now : ℝ) :
    Except PyError (Nat × OnlineJSQRouter) :=
  if loads.length ≠ router.workerUrls.length then
    .error (.valueError "loads length must equal number of workers")
  else
    let updater := router.updater.update signature now
    let scores := updater.centroids.map (dot · signature)
    match firstLeastLoaded loads (localityCandidates scores router.tau) with
    | some w => .ok (w, { router with updater })
    | none => .error (.valueError "attempt to get argmin of an empty sequence")

/-- Routes a vector of any length; a vector with a norm above `_EPS` is normalized first. -/
def route (router : OnlineJSQRouter) (signature loads : List ℝ) (now : ℝ) :
    Except PyError (Nat × OnlineJSQRouter) :=
  if signature.length ≠ router.updater.dim then
    let dim := router.updater.dim
    .error (.valueError s!"sig_vec must have shape [{dim}]")
  else
    let signature := if 1e-9 < norm signature then divBy (norm signature) signature else signature
    router.routeOwned signature loads now

def routeTransformed (router : OnlineJSQRouter) (signature loads : List ℝ) (now : ℝ) :
    Except PyError (Nat × OnlineJSQRouter) :=
  if signature.length ≠ router.updater.dim then
    let dim := router.updater.dim
    .error (.valueError s!"signature must be float32 with shape [{dim}]")
  else router.routeOwned signature loads now

end

variable {workerUrls : List String} {json : CentroidJson} {data : CentroidData} {seeds : Rows ℝ}
  {tau window refit : ℝ} {balanced : Bool} {router : OnlineJSQRouter} {fitter : Fitter ℝ}
  {es : List (CentroidUpdater.Event ℝ ℝ)} {s : CentroidUpdater ℝ ℝ}

theorem create_ok (h : create workerUrls seeds tau window refit balanced = .ok router) :
    0 ≤ tau ∧ workerUrls.length = seeds.length ∧ router.workerUrls = workerUrls ∧
      router.tau = tau ∧
      CentroidUpdater.create norm 1e-9 seeds window refit balanced = .ok router.updater := by
  unfold create at h
  split at h
  · cases h
  split at h
  · cases h
  next htau =>
  split at h
  · cases h
  next hlen =>
  obtain ⟨updater, hupdater, hrouter⟩ := except_bind_eq_ok.mp h
  obtain rfl := Except.ok.inj hrouter
  exact ⟨not_lt.mp htau, not_not.mp hlen, rfl, rfl, hupdater⟩

theorem centroids_of_no_refit {s₀ : CentroidUpdater ℝ ℝ}
    (hcreate : CentroidUpdater.create norm 1e-9 seeds window refit balanced = .ok s₀)
    (hrun : Machine.exec (CentroidUpdater.step fitter) s₀ es = some s)
    (hnone : s.refitsCompleted = 0) :
    s.centroids = seeds.map (fun row => divBy (norm row) row) ∧
      s.dim = (seeds.headD []).length := by
  obtain ⟨hwindow, hinit, hrect⟩ := CentroidUpdater.create_ok hcreate
  have hshape : shape s₀.centroids = shape seeds := by
    rw [hinit]
    simp [shape, CentroidUpdater.initial]
  have hreaches := CentroidUpdater.reaches (hshape.trans hrect)
    (CentroidUpdater.Clock.of_orderedGroup hwindow.le) (by rw [hinit]; rfl) hrun
  obtain ⟨old, wait, hsound⟩ := hreaches.sound
  obtain ⟨got, -, hcentroids, hcompleted, -⟩ := hsound.installed
  have hlatest : CentroidUpdater.latest got = none := by
    rw [hnone, eq_comm, List.countP_eq_zero] at hcompleted
    rw [CentroidUpdater.latest, List.getLast?_eq_none_iff, List.filterMap_eq_nil_iff]
    intro t ht
    simpa using hcompleted t ht
  rw [hcentroids, hlatest, hreaches.dim, hinit]
  exact ⟨rfl, rfl⟩

theorem routeTransformed_ok {signature loads : List ℝ} {now : ℝ} {w : Nat}
    (hlength : signature.length = router.updater.dim)
    (hloads : loads.length = router.workerUrls.length)
    (hchoice : firstLeastLoaded loads (localityCandidates
      ((router.updater.update signature now).centroids.map (dot · signature)) router.tau) = some w) :
    router.routeTransformed signature loads now =
      .ok (w, { router with updater := router.updater.update signature now }) := by
  unfold routeTransformed routeOwned
  rw [if_neg (not_not.mpr hlength), if_neg (not_not.mpr hloads)]
  simp only [hchoice]

/-- The two routers agree until a refit has completed, when the rows of the file are unit
vectors. -/
theorem routeTransformed_eq_routeJsq (hload : loadCentroidFile json = .ok data)
    (hunit : ∀ row ∈ data.centroidMatrix, norm row = 1)
    (hcreate : create workerUrls data.centroidMatrix tau window refit balanced = .ok router)
    (hrun : Machine.exec (CentroidUpdater.step fitter) router.updater es = some s)
    {counts : List (List ℝ)} {signature loads : List ℝ} {now : ℝ} (hgeo : Geometry data counts)
    (hsignature : buildSignature data counts = .ok signature)
    (hloads : loads.length = workerUrls.length)
    (hnone : (s.update signature now).refitsCompleted = 0) :
    ∃ w router', routeTransformed { router with updater := s } signature loads now =
      .ok (w, router') ∧ routeJsq data counts loads tau = .ok w := by
  obtain ⟨htau, hworkers, hurls, hrtau, hupdater⟩ := create_ok hcreate
  have hrun' : Machine.exec (CentroidUpdater.step fitter) router.updater
      (es ++ [.route signature now]) = some (s.update signature now) := by
    rw [Machine.exec_append, hrun]
    rfl
  obtain ⟨hcentroids, hdim'⟩ := centroids_of_no_refit hupdater hrun' hnone
  have hsame : data.centroidMatrix.map (fun row => divBy (norm row) row) = data.centroidMatrix := by
    rw [List.map_congr_left fun row hrow => by rw [hunit row hrow, divBy_one], List.map_id']
  rw [hsame] at hcentroids
  obtain rfl := Except.ok.inj ((buildSignature_ok hgeo).symm.trans hsignature)
  have hlength : (normalize (packCounts data counts)).length = s.dim := by
    rw [← (CentroidUpdater.update_frame s (normalize (packCounts data counts)) now).1, hdim']
    obtain ⟨row, rows, hmatrix⟩ := List.exists_cons_of_ne_nil data.nonempty
    rw [hmatrix, List.headD_cons,
      length_packCounts hload hgeo row (hmatrix ▸ List.mem_cons_self), normalize, length_divBy]
  have hlen : loads.length = data.centroidMatrix.length := hloads.trans hworkers
  obtain ⟨w, load, hroute, hchosen⟩ := routeJsq_chosen hgeo hlen htau
  have hlen' : loads.length = (scores data counts).length := by simpa [scores] using hlen
  have hne : scores data counts ≠ [] := by simpa [scores] using data.nonempty
  obtain ⟨w', load', hchoice, hchosen'⟩ := firstLeastLoaded_chosen hlen' hne htau
  obtain rfl := (hchosen.unique hchosen').1
  refine ⟨w, _, routeTransformed_ok hlength (by rw [hloads, hurls]) ?_, hroute⟩
  rw [hcentroids, hrtau]
  exact hchoice

def idleFitter : Fitter ℝ where
  kmeans _ _ centroids := .ok centroids
  columns _ fitted := List.range fitted.length
  columns_length := by simp
  columns_lt := by simp

theorem norm_pair_left {x : ℝ} (hx : 0 ≤ x) : norm [x, 0] = x := by
  simp [RealVec.norm, Real.sqrt_mul_self hx]

theorem norm_pair_right {x : ℝ} (hx : 0 ≤ x) : norm [0, x] = x := by
  simp [RealVec.norm, Real.sqrt_mul_self hx]

theorem loadCentroidFile_diagonal {x y : ℝ} (hx : |x - 1| ≤ 1e-3) (hy : |y - 1| ≤ 1e-3) :
    ∃ data, loadCentroidFile { L := 1, e := 2, centroids := some [[x, 0], [0, y]] } = .ok data ∧
      data.centroidMatrix = [[x, 0], [0, y]] ∧ data.L = 1 ∧ data.e = 2 ∧ data.variant = .count := by
  have hx0 : 0 ≤ x := by
    have := (abs_le.mp hx).1
    norm_num at this
    linarith
  have hy0 : 0 ≤ y := by
    have := (abs_le.mp hy).1
    norm_num at this
    linarith
  have hvalid : validateSignatureMetadata
      { L := 1, e := 2, centroids := some [[x, 0], [0, y]] } = .ok 2 := by
    simp [validateSignatureMetadata, SignatureVariant.wireDtype]
  have htol : (1e-3 : ℝ) ≤ 1e-3 + 1e-5 * |1| := by norm_num
  have hunit : ¬ ∃ row ∈ [[x, 0], [0, y]], ¬ |norm row - 1| ≤ 1e-3 + 1e-5 * |(1 : ℝ)| := by
    simp only [List.mem_cons, List.not_mem_nil, or_false, exists_eq_or_imp, exists_eq_left, not_or,
      not_not]
    rw [norm_pair_left hx0, norm_pair_right hy0]
    exact ⟨hx.trans htol, hy.trans htol⟩
  unfold loadCentroidFile
  rw [hvalid]
  simp only [bind, Except.bind, reduceCtorEq, if_false, Option.some_or, Option.getD_some]
  unfold checkCentroids
  rw [dif_neg (by simp), if_neg (by simp), dif_neg hunit]
  exact ⟨_, rfl, rfl, rfl, rfl, rfl⟩

theorem create_diagonal {x y tau : ℝ} (hx : 0.9 ≤ x) (hy : 0.9 ≤ y) (htau : 0 ≤ tau) :
    create ["d0", "d1"] [[x, 0], [0, y]] tau 5 1 true =
      .ok { updater := CentroidUpdater.initial 2 5 1 true
              ([[x, 0], [0, y]].map fun row => row.map (· / norm row))
            workerUrls := ["d0", "d1"]
            tau } := by
  have hx0 : 0 ≤ x := le_trans (by norm_num) hx
  have hy0 : 0 ≤ y := le_trans (by norm_num) hy
  have hnorms : ([[x, 0], [0, y]].any fun row => decide (norm row ≤ 1e-9)) = false := by
    have hxn : ¬ x ≤ 1e-9 := not_le.mpr (lt_of_lt_of_le (by norm_num) hx)
    have hyn : ¬ y ≤ 1e-9 := not_le.mpr (lt_of_lt_of_le (by norm_num) hy)
    simp [norm_pair_left hx0, norm_pair_right hy0, hxn, hyn]
  have hupdater : CentroidUpdater.create norm 1e-9 [[x, 0], [0, y]] (5 : ℝ) 1 true =
      .ok (CentroidUpdater.initial 2 5 1 true
        ([[x, 0], [0, y]].map fun row => row.map (· / norm row))) := by
    unfold CentroidUpdater.create
    rw [if_neg (by norm_num), if_neg (by norm_num)]
    simp only [hnorms]
    rfl
  unfold create
  rw [if_neg (by simp), if_neg (not_lt.mpr htau), if_neg (by simp), hupdater]
  rfl

theorem update_initial (dim : Nat) (window refit : ℝ) (balanced : Bool) (centroids : Rows ℝ)
    (signature : List ℝ) (now : ℝ) :
    ((CentroidUpdater.initial dim window refit balanced centroids).update signature now).centroids =
        centroids ∧
      ((CentroidUpdater.initial dim window refit balanced centroids).update signature
        now).refitsCompleted = 0 := by
  rw [CentroidUpdater.update_eq]
  split
  · rw [CentroidUpdater.maybeStartRefit_frame]
    exact ⟨rfl, rfl⟩
  · exact ⟨rfl, rfl⟩

theorem routeTransformed_eq_routeJsq_twoDecoders : ∃ data router w router',
    loadCentroidFile { L := 1, e := 2, centroids := some [[1, 0], [0, 1]] } = .ok data ∧
      create ["d0", "d1"] data.centroidMatrix 0 5 1 true = .ok router ∧
      router.routeTransformed (normalize [3, 4]) [1, 0] 0 = .ok (w, router') ∧
      routeJsq data [[3, 4]] [1, 0] 0 = .ok w := by
  have hnear : |(1 : ℝ) - 1| ≤ 1e-3 := by norm_num
  obtain ⟨data, hdata, hmatrix, hL, he, hvariant⟩ := loadCentroidFile_diagonal hnear hnear
  have hgeo : Geometry data [[3, 4]] := ⟨hL.symm, by simp [he], by simp⟩
  have hunit : ∀ row ∈ data.centroidMatrix, norm row = 1 := by
    rw [hmatrix]
    simp [norm_pair_left, norm_pair_right]
  have hcreate := create_diagonal (x := 1) (y := 1) (by norm_num) (by norm_num) (le_refl (0 : ℝ))
  have hpack : packCounts data [[3, 4]] = [3, 4] := by simp [packCounts, hvariant]
  have hsignature := buildSignature_ok hgeo
  rw [hpack] at hsignature
  rw [← hmatrix] at hcreate
  have hrun := Machine.exec_nil (CentroidUpdater.step idleFitter) (CentroidUpdater.initial 2 (5 : ℝ) 1
    true (data.centroidMatrix.map fun row => row.map (· / norm row)))
  have hloads : [(1 : ℝ), 0].length = ["d0", "d1"].length := rfl
  obtain ⟨w, router', honline, hstatic⟩ := routeTransformed_eq_routeJsq hdata hunit hcreate hrun hgeo
    hsignature hloads (update_initial _ _ _ _ _ _ 0).2
  exact ⟨data, _, w, router', hdata, hcreate, honline, hstatic⟩

/-- The loader accepts rows whose norm is only near one. Static routing scores with them as they
are and takes the first decoder; the online router divides by the norms, finds two equal scores
and takes the decoder with the shorter queue. -/
theorem online_differs_from_static : ∃ data router router',
    loadCentroidFile { L := 1, e := 2, centroids := some [[1.0005, 0], [0, 0.9995]] } = .ok data ∧
      create ["d0", "d1"] data.centroidMatrix 0 5 1 true = .ok router ∧
      buildSignature data [[1, 1]] = .ok (normalize [1, 1]) ∧
      routeJsq data [[1, 1]] [1, 0] 0 = .ok 0 ∧
      router.routeTransformed (normalize [1, 1]) [1, 0] 0 = .ok (1, router') := by
  have hx : |(1.0005 : ℝ) - 1| ≤ 1e-3 := by norm_num [abs_le]
  have hy : |(0.9995 : ℝ) - 1| ≤ 1e-3 := by norm_num [abs_le]
  obtain ⟨data, hdata, hmatrix, hL, he, hvariant⟩ := loadCentroidFile_diagonal hx hy
  have hgeo : Geometry data [[1, 1]] := ⟨hL.symm, by simp [he], by simp⟩
  have hpack : packCounts data [[1, 1]] = [1, 1] := by simp [packCounts, hvariant]
  have hsignature := buildSignature_ok hgeo
  rw [hpack] at hsignature
  have hcreate := create_diagonal (x := 1.0005) (y := 0.9995) (by norm_num) (by norm_num)
    (le_refl (0 : ℝ))
  obtain ⟨c, hc, hvector⟩ : ∃ c : ℝ, 0 < c ∧ normalize [1, 1] = [1 / c, 1 / c] :=
    ⟨max (norm [1, 1]) 1e-9, lt_max_of_lt_right (by norm_num), rfl⟩
  have hloads : [(1 : ℝ), 0].length = data.centroidMatrix.length := by rw [hmatrix]; rfl
  -- the static choice has the best score
  obtain ⟨w, load, hroute, hchosen⟩ := routeJsq_chosen hgeo hloads (le_refl 0)
  have hstatic : w = 0 := by
    have hscores : scores data [[1, 1]] = [1.0005 * (1 / c), 0.9995 * (1 / c)] := by
      rw [scores, hmatrix, hpack, hvector]
      simp
    obtain ⟨s, hs, hbest⟩ := hchosen.best
    rw [hscores] at hs hbest
    have hlt : 0.9995 * (1 / c) < 1.0005 * (1 / c) :=
      mul_lt_mul_of_pos_right (by norm_num) (by positivity)
    have hfirst := hbest (1.0005 * (1 / c)) List.mem_cons_self
    rcases w with _ | _ | w
    · rfl
    · obtain rfl := Option.some.inj hs
      exact absurd hfirst (not_le.mpr hlt)
    · simp at hs
  -- the online scores are equal
  have honline : ([[1.0005, 0], [0, 0.9995]].map fun row => row.map (· / norm row)).map
      (dot · (normalize [1, 1])) = [1 / c, 1 / c] := by
    have hleft : norm [1.0005, 0] = 1.0005 := norm_pair_left (by norm_num)
    have hright : norm [0, 0.9995] = 0.9995 := norm_pair_right (by norm_num)
    rw [hvector]
    simp only [List.map_cons, List.map_nil, hleft, hright, dot_cons, dot_nil_left]
    norm_num
  have hlen : [(1 : ℝ), 0].length = [1 / c, 1 / c].length := rfl
  obtain ⟨w', load', hchoice, hchosen'⟩ :=
    firstLeastLoaded_chosen hlen (List.cons_ne_nil _ _) (le_refl (0 : ℝ))
  have hshort : w' = 1 := by
    have hleast := (hchosen'.of_const (c := 1 / c) (le_refl 0) hlen (by simp)).1 0 (by simp)
    have hload := hchosen'.has
    rcases w' with _ | _ | w'
    · obtain rfl := Option.some.inj hload
      exact absurd hleast (by norm_num)
    · rfl
    · simp at hload
  subst hstatic hshort
  rw [← hmatrix] at hcreate honline
  refine ⟨data, _, _, hdata, hcreate, hsignature, hroute, routeTransformed_ok rfl rfl ?_⟩
  rw [(update_initial _ _ _ _ _ _ 0).1, honline]
  exact hchoice

end OnlineJSQRouter

end EldrServing.Routing
