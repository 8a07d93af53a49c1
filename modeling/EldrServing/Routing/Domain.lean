import EldrServing.Lib.Apportion
import EldrServing.Lib.Loop
import Mathlib.Algebra.BigOperators.Group.List.Lemmas
import Mathlib.Tactic.Positivity

/-!
# The domain baseline

`build_domain_mapping` splits the decoders into one pool for every label that holds at least a
`1/k` share of the calibration prompts and one for all other labels, with sizes rounded by largest
remainders. `choose_decode` then takes a least loaded decoder of the pool of the request's label.
Quotas are exact rationals here. The label of a request is found by the hash of its prompt, and the
draw of the random generator is a parameter.
-/

namespace EldrServing.Routing

set_option autoImplicit false
set_option linter.unusedSectionVars false

open Apportion

variable {Λ η π : Type} [DecidableEq Λ]

structure DomainMapping (Λ η : Type) where
  k : Nat
  dom2dec : List (Λ × List Nat)
  miscDec : List Nat
  hash2dom : η → Option Λ
  calibrationMix : List (Λ × Nat)

/-- `Counter(labels)`: the labels in the order of their first occurrence, with their counts. -/
def counter (labels : List Λ) : List (Λ × Nat) :=
  labels.reverse.dedup.reverse.map fun d => (d, labels.count d)

def headLabels (mix : List (Λ × Nat)) (total k : Nat) : List (Λ × Nat) :=
  mix.filter fun e => (total : ℚ) / k ≤ e.2

def tailSize (mix head : List (Λ × Nat)) : Nat :=
  ((mix.filter fun e => e.1 ∉ head.map Prod.fst).map Prod.snd).sum

/-- `groups`, where `none` stands for all labels of the tail. -/
def domainGroups (mix : List (Λ × Nat)) (total k : Nat) : List (Option Λ × Nat) :=
  let head := headLabels mix total k
  let tail := tailSize mix head
  head.map (fun e => (some e.1, e.2)) ++ if tail = 0 then [] else [(none, tail)]

def domainQuota (k total : Nat) (g : Option Λ × Nat) : ℚ := k * g.2 / total

def domainAllocation (k total : Nat) (groups : List (Option Λ × Nat)) : List (Option Λ × Int) :=
  groups.map fun g => (g.1, allotted (domainQuota k total) k groups g)

/-- The loop that cuts the decoders into pools, from `index` on. -/
def cutPools : Nat → List (Option Λ × Int) → List (Option Λ × List Nat)
  | _, [] => []
  | index, (d, size) :: rest =>
    (d, List.range' index size.toNat) :: cutPools (index + size.toNat) rest

def domainPools (calibration : List Λ) (k : Nat) : List (Option Λ × List Nat) :=
  cutPools 0 (domainAllocation k calibration.length
    (domainGroups (counter calibration) calibration.length k))

def buildDomainMapping (pairs : List (π × Λ)) (labels : η → Option Λ) (k : Nat) :
    DomainMapping Λ η :=
  let pools := domainPools (pairs.map Prod.snd) k
  { k
    dom2dec := pools.filterMap fun p => p.1.map (·, p.2)
    miscDec := (pools.lookup none).getD []
    hash2dom := labels
    calibrationMix := counter (pairs.map Prod.snd) }

/-- The decoders among which the domain policy chooses; an empty list is false. -/
def eligibleDecoders (mapping : DomainMapping Λ η) (key : η) (decoders : Nat) : List Nat :=
  let pool := ((mapping.hash2dom key).bind fun d => mapping.dom2dec.lookup d).getD []
  if pool ≠ [] then pool else if mapping.miscDec ≠ [] then mapping.miscDec else List.range decoders

/-- The branch of `choose_decode` for the domain policy, for a request with the prompt hash `key`;
`draw` is what the random generator gives, reduced to the number of candidates. -/
def chooseByDomain (mapping : DomainMapping Λ η) (key : η) (loads : List Nat) (draw : Nat) :
    Except PyError Nat := do
  let eligible := eligibleDecoders mapping key loads.length
  let eligibleLoads ← eligible.mapM fun i =>
    orRaise (.indexError "list index out of range") loads[i]?
  let minimum ← orRaise (.valueError "min() iterable argument is empty") eligibleLoads.min?
  let candidates := eligible.filter fun i => loads[i]? = some minimum
  orRaise (.indexError "Cannot choose from an empty sequence")
    candidates[draw % candidates.length]?

def share (labels : List Λ) (d : Λ) : ℚ := labels.count d / labels.length

/-- The share of the labels that hold less than a `1/k` share each. -/
def tailShare (labels : List Λ) (k : Nat) : ℚ :=
  labels.countP (fun d => share labels d < 1 / k) / labels.length

/-! ### The groups -/

section Groups

variable {labels : List Λ} {k : Nat}

theorem counter_nodup (labels : List Λ) : ((counter labels).map Prod.fst).Nodup := by
  rw [counter, List.map_map]
  exact (List.map_id _).symm ▸ List.nodup_reverse.mpr (List.nodup_dedup _)

theorem mem_counter {e : Λ × Nat} :
    e ∈ counter labels ↔ e.1 ∈ labels ∧ e.2 = labels.count e.1 := by
  simp only [counter, List.mem_map, List.mem_reverse, List.mem_dedup]
  constructor
  · rintro ⟨d, hd, rfl⟩
    exact ⟨hd, rfl⟩
  · rintro ⟨hd, hn⟩
    exact ⟨e.1, hd, Prod.ext rfl hn.symm⟩

theorem sum_counter (p : Λ → Bool) (labels : List Λ) :
    (((counter labels).filter fun e => p e.1).map Prod.snd).sum = labels.countP p := by
  have h := List.sum_map_count_dedup_filter_eq_countP p labels.reverse
  simp only [List.count_reverse, List.countP_reverse] at h
  rw [← h, counter, List.filter_map, List.map_map, List.filter_reverse, List.map_reverse,
    List.sum_reverse]
  rfl

variable (hlabels : labels ≠ []) (hk : 1 ≤ k)
include hlabels hk

theorem mem_headLabels {e : Λ × Nat} (he : e ∈ counter labels) :
    e ∈ headLabels (counter labels) labels.length k ↔ 1 / (k : ℚ) ≤ share labels e.1 := by
  have hlen : (0 : ℚ) < labels.length := by exact_mod_cast List.length_pos_iff.mpr hlabels
  have hk' : (0 : ℚ) < k := by exact_mod_cast hk
  rw [headLabels, List.mem_filter, and_iff_right he, decide_eq_true_eq, (mem_counter.mp he).2,
    share, div_le_iff₀ hk', div_le_div_iff₀ hk' hlen, one_mul]

theorem mem_headKeys (d : Λ) : d ∈ (headLabels (counter labels) labels.length k).map Prod.fst ↔
    1 / (k : ℚ) ≤ share labels d := by
  constructor
  · intro h
    obtain ⟨e, he, rfl⟩ := List.mem_map.mp h
    exact (mem_headLabels hlabels hk (List.mem_of_mem_filter he)).mp he
  · intro h
    have hd : d ∈ labels := by
      apply List.count_pos_iff.mp
      apply Nat.pos_of_ne_zero
      intro hzero
      rw [share, hzero, Nat.cast_zero, zero_div, one_div, inv_nonpos] at h
      exact absurd h (not_le.mpr (by exact_mod_cast hk))
    have he : (d, labels.count d) ∈ counter labels := mem_counter.mpr ⟨hd, rfl⟩
    exact List.mem_map.mpr ⟨_, (mem_headLabels hlabels hk he).mpr h, rfl⟩

theorem tailSize_eq : tailSize (counter labels) (headLabels (counter labels) labels.length k) =
    labels.countP fun d => share labels d < 1 / k := by
  rw [tailSize, ← sum_counter]
  congr 2
  apply List.filter_congr
  intro e _
  rw [decide_eq_decide, mem_headKeys hlabels hk, not_le]

theorem mem_domainGroups {g : Option Λ × Nat} :
    g ∈ domainGroups (counter labels) labels.length k →
      (∃ d, g = (some d, labels.count d)) ∨
        g = (none, labels.countP fun d => share labels d < 1 / k) := by
  rw [domainGroups, tailSize_eq hlabels hk, List.mem_append]
  rintro (hg | hg)
  · obtain ⟨e, he, rfl⟩ := List.mem_map.mp hg
    exact .inl ⟨e.1, by rw [(mem_counter.mp (List.mem_of_mem_filter he)).2]⟩
  · split at hg
    · cases hg
    · exact .inr (List.mem_singleton.mp hg)

theorem sum_domainGroups :
    ((domainGroups (counter labels) labels.length k).map Prod.snd).sum = labels.length := by
  have hhead : ((headLabels (counter labels) labels.length k).map Prod.snd).sum =
      labels.countP fun d => 1 / (k : ℚ) ≤ share labels d := by
    rw [← sum_counter]
    congr 2
    apply List.filter_congr
    intro e he
    rw [decide_eq_decide, ← mem_headLabels hlabels hk he, headLabels, List.mem_filter,
      and_iff_right he, decide_eq_true_eq]
  have hall := List.length_eq_countP_add_countP (l := labels) fun d => 1 / (k : ℚ) ≤ share labels d
  simp only [decide_eq_true_eq, not_le] at hall
  have htail : ∀ tail : Nat,
      ((if tail = 0 then [] else [((none : Option Λ), tail)]).map Prod.snd).sum = tail := by
    intro tail
    split
    · next h => rw [h]; rfl
    · rfl
  rw [domainGroups, tailSize_eq hlabels hk, List.map_append, List.sum_append, List.map_map, htail]
  exact (congrArg (· + _) hhead).trans hall.symm

omit hlabels hk in
theorem domainGroups_nodup (labels : List Λ) (k : Nat) :
    ((domainGroups (counter labels) labels.length k).map Prod.fst).Nodup := by
  rw [domainGroups, List.map_append, List.map_map, List.nodup_append]
  refine ⟨?_, by split <;> simp, ?_⟩
  · have hhead : ((headLabels (counter labels) labels.length k).map Prod.fst).Nodup :=
      (counter_nodup labels).sublist (List.filter_sublist.map Prod.fst)
    have hsome := hhead.map (Option.some_injective Λ)
    rwa [List.map_map] at hsome
  · intro a ha b hb
    obtain ⟨e, -, rfl⟩ := List.mem_map.mp ha
    split at hb
    · cases hb
    · rw [List.mem_singleton.mp hb]
      exact Option.some_ne_none e.1

end Groups

/-! ### The pools -/

theorem cutPools_flatMap {sizes : List (Option Λ × Int)} (hsizes : ∀ s ∈ sizes, 0 ≤ s.2)
    (index : Nat) : ∃ n : Nat, (sizes.map Prod.snd).sum = n ∧
      (cutPools index sizes).flatMap Prod.snd = List.range' index n := by
  induction sizes generalizing index with
  | nil => exact ⟨0, rfl, rfl⟩
  | cons s sizes ih =>
    rw [List.forall_mem_cons] at hsizes
    obtain ⟨n, hsum, hpools⟩ := ih hsizes.2 (index + s.2.toNat)
    refine ⟨s.2.toNat + n, ?_, ?_⟩
    · rw [List.map_cons, List.sum_cons, hsum, Int.natCast_add, Int.toNat_of_nonneg hsizes.1]
    · rw [cutPools, List.flatMap_cons, hpools, List.range'_append_1]

theorem cutPools_keys (index : Nat) (sizes : List (Option Λ × Int)) :
    (cutPools index sizes).map Prod.fst = sizes.map Prod.fst := by
  induction sizes generalizing index with
  | nil => rfl
  | cons s sizes ih => rw [cutPools, List.map_cons, ih, List.map_cons]

theorem mem_cutPools {index : Nat} {sizes : List (Option Λ × Int)} {d : Option Λ}
    {pool : List Nat} (h : (d, pool) ∈ cutPools index sizes) :
    ∃ size, (d, size) ∈ sizes ∧ pool.length = size.toNat := by
  induction sizes generalizing index with
  | nil => cases h
  | cons s sizes ih =>
    rw [cutPools] at h
    rcases List.mem_cons.mp h with heq | h
    · obtain ⟨rfl, rfl⟩ := Prod.mk.inj heq
      exact ⟨s.2, List.mem_cons_self, List.length_range'⟩
    · obtain ⟨size, hmem, hlen⟩ := ih h
      exact ⟨size, List.mem_cons_of_mem _ hmem, hlen⟩

theorem lookup_eq_some {α δ : Type} [BEq α] [LawfulBEq α] {entries : List (α × δ)}
    (hkeys : (entries.map Prod.fst).Nodup) {d : α} {v : δ} :
    entries.lookup d = some v ↔ (d, v) ∈ entries := by
  induction entries with
  | nil => simp
  | cons e entries ih =>
    rw [List.map_cons, List.nodup_cons] at hkeys
    rw [List.lookup_cons, List.mem_cons]
    by_cases hd : d = e.1
    · subst hd
      have hnot : (e.1, v) ∉ entries := fun h => hkeys.1 (List.mem_map.mpr ⟨_, h, rfl⟩)
      simp only [beq_self_eq_true, Option.some.injEq, hnot, or_false]
      exact ⟨fun h => by rw [← h], fun h => congrArg Prod.snd h.symm⟩
    · simp only [beq_eq_false_iff_ne.mpr hd, ih hkeys.2]
      exact ⟨.inr, fun h => h.resolve_left fun he => hd (congrArg Prod.fst he)⟩

theorem flatMap_pools {pools : List (Option Λ × List Nat)} {keys : List Λ} {last : List (Option Λ)}
    (hlast : last = [] ∨ last = [none]) (hkeys : pools.map Prod.fst = keys.map some ++ last) :
    (pools.filterMap fun p => p.1.map (·, p.2)).flatMap Prod.snd ++ (pools.lookup none).getD [] =
        pools.flatMap Prod.snd ∧
      (pools.filterMap fun p => p.1.map (·, p.2)).map Prod.fst = keys := by
  induction keys generalizing pools with
  | nil =>
    rcases hlast with rfl | rfl
    · rw [List.map_eq_nil_iff.mp hkeys]
      exact ⟨rfl, rfl⟩
    · obtain ⟨⟨d, pool⟩, rfl⟩ := List.length_eq_one_iff.mp
        ((List.length_map Prod.fst).symm.trans (congrArg List.length hkeys))
      obtain rfl : d = none := (List.cons.inj hkeys).1
      simp
  | cons key keys ih =>
    obtain ⟨⟨d, pool⟩, pools, rfl, hp, hrest⟩ := List.map_eq_cons_iff.mp hkeys
    obtain rfl : d = some key := hp
    obtain ⟨hall, hlabels⟩ := ih hrest
    rw [List.filterMap_cons, List.lookup_cons, List.flatMap_cons (f := Prod.snd), ← hall]
    simp [hlabels]

section Pools

variable {labels : List Λ} {k : Nat} (hlabels : labels ≠ []) (hk : 1 ≤ k)
include hlabels hk

theorem domainQuota_sum : ((domainGroups (counter labels) labels.length k).map
    (domainQuota k labels.length)).sum = ((k : Int) : ℚ) := by
  have hne : (labels.length : ℚ) ≠ 0 := by
    exact_mod_cast (List.length_pos_iff.mpr hlabels).ne'
  have hsum : ∀ groups : List (Option Λ × Nat), (groups.map (domainQuota k labels.length)).sum =
      k / labels.length * ((groups.map Prod.snd).sum : Nat) := by
    intro groups
    induction groups with
    | nil => simp
    | cons g groups ih =>
      rw [List.map_cons, List.sum_cons, ih, List.map_cons, List.sum_cons, Nat.cast_add, domainQuota]
      ring
  rw [hsum, sum_domainGroups hlabels hk, div_mul_cancel₀ _ hne, Int.cast_natCast]

omit hlabels hk in
theorem domainQuota_nonneg (k total : Nat) (g : Option Λ × Nat) : 0 ≤ domainQuota k total g := by
  unfold domainQuota
  positivity

theorem mem_domainPools {d : Option Λ} {pool : List Nat} (h : (d, pool) ∈ domainPools labels k) :
    ∃ n, (d, n) ∈ domainGroups (counter labels) labels.length k ∧
      trunc (k * (n / labels.length)) ≤ pool.length ∧
      |(pool.length : ℚ) - k * (n / labels.length)| < 1 := by
  obtain ⟨size, hmem, hlen⟩ := mem_cutPools h
  obtain ⟨g, hg, heq⟩ := List.mem_map.mp hmem
  obtain ⟨rfl, rfl⟩ := Prod.mk.inj heq
  obtain ⟨hnonneg, hle, hnear⟩ :=
    allotted_near (domainQuota_nonneg k labels.length) (domainQuota_sum hlabels hk) g
  rw [← Int.toNat_of_nonneg hnonneg, ← hlen, domainQuota, mul_div_assoc] at hle hnear
  exact ⟨g.2, hg, hle, hnear⟩

theorem domainPools_flatMap : (domainPools labels k).flatMap Prod.snd = List.range k := by
  have hnonneg : ∀ s ∈ domainAllocation k labels.length
      (domainGroups (counter labels) labels.length k), 0 ≤ s.2 := by
    intro s hs
    obtain ⟨g, -, rfl⟩ := List.mem_map.mp hs
    exact (allotted_near (domainQuota_nonneg k _) (domainQuota_sum hlabels hk) g).1
  obtain ⟨n, hn, hpools⟩ := cutPools_flatMap hnonneg 0
  have hsum := sum_allotted (domainQuota_nonneg k _) (domainQuota_sum hlabels hk)
    (List.Nodup.of_map Prod.fst (domainGroups_nodup labels k))
  rw [domainAllocation, List.map_map] at hn
  have hkn : (k : Int) = n := hsum.symm.trans hn
  rw [domainPools, hpools, List.range_eq_range']
  congr 1
  omega

theorem domainPools_keys : (domainPools labels k).map Prod.fst =
    ((headLabels (counter labels) labels.length k).map Prod.fst).map some ++
      if (labels.countP fun d => share labels d < 1 / k) = 0 then [] else [none] := by
  rw [domainPools, cutPools_keys, domainAllocation, List.map_map, domainGroups,
    tailSize_eq hlabels hk, List.map_append, List.map_map, List.map_map]
  congr 1
  split <;> rfl

omit hlabels hk in
theorem domainPools_nodup (labels : List Λ) (k : Nat) :
    ((domainPools labels k).map Prod.fst).Nodup := by
  rw [domainPools, cutPools_keys, domainAllocation, List.map_map]
  exact domainGroups_nodup labels k

end Pools

/-! ### The choice -/

theorem chooseByDomain_ok {mapping : DomainMapping Λ η} {key : η} {loads eligible : List Nat}
    (heligible : eligibleDecoders mapping key loads.length = eligible) (hne : eligible ≠ [])
    (hin : ∀ i ∈ eligible, i < loads.length) (draw : Nat) :
    ∃ i ∈ eligible, chooseByDomain mapping key loads draw = .ok i ∧
      ∀ j ∈ eligible, loads.getD i 0 ≤ loads.getD j 0 := by
  have hget : ∀ i ∈ eligible, loads[i]? = some (loads.getD i 0) := by
    intro i hi
    rw [List.getD_eq_getElem?_getD, List.getElem?_eq_getElem (hin i hi), Option.getD_some]
  have hloads : (eligible.mapM fun i => orRaise (.indexError "list index out of range") loads[i]?) =
      .ok (eligible.map fun i => loads.getD i 0) := by
    apply mapM_eq_ok
    intro i hi
    rw [hget i hi]
    rfl
  obtain ⟨minimum, hmin⟩ :
      ∃ minimum, (eligible.map fun i => loads.getD i 0).min? = some minimum := by
    rw [← Option.isSome_iff_exists, List.isSome_min?_iff]
    simpa using hne
  obtain ⟨hmem, hle⟩ := List.min?_eq_some_iff.mp hmin
  have hcandidates : 0 < (eligible.filter fun i => loads[i]? = some minimum).length := by
    obtain ⟨i, hi, hload⟩ := List.mem_map.mp hmem
    refine List.length_pos_of_mem (List.mem_filter.mpr ⟨hi, ?_⟩)
    rw [hget i hi, hload]
    exact decide_eq_true rfl
  obtain ⟨i, hchosen⟩ : ∃ i, (eligible.filter fun i => loads[i]? = some minimum)[draw %
      (eligible.filter fun i => loads[i]? = some minimum).length]? = some i :=
    ⟨_, List.getElem?_eq_getElem (Nat.mod_lt draw hcandidates)⟩
  obtain ⟨hi, hload⟩ := List.mem_filter.mp (List.mem_of_getElem? hchosen)
  refine ⟨i, hi, ?_, fun j hj => ?_⟩
  · simp only [chooseByDomain, heligible, except_bind_eq_ok, orRaise_eq_ok]
    exact ⟨_, hloads, minimum, hmin, hchosen⟩
  · have heq : some (loads.getD i 0) = some minimum :=
      (hget i hi).symm.trans (of_decide_eq_true hload)
    rw [Option.some.inj heq]
    exact hle _ (List.mem_map_of_mem hj)

section Mapping

variable {pairs : List (π × Λ)} {k : Nat} (hpairs : pairs.map Prod.snd ≠ []) (hk : 1 ≤ k)
  (labels : η → Option Λ)
include hpairs hk

theorem dom2dec_keys : (buildDomainMapping pairs labels k).dom2dec.flatMap Prod.snd ++
      (buildDomainMapping pairs labels k).miscDec = List.range k ∧
    (buildDomainMapping pairs labels k).dom2dec.map Prod.fst =
      (headLabels (counter (pairs.map Prod.snd)) (pairs.map Prod.snd).length k).map Prod.fst := by
  rw [← domainPools_flatMap hpairs hk]
  refine flatMap_pools ?_ (domainPools_keys hpairs hk)
  split
  · exact .inl rfl
  · exact .inr rfl

theorem dom2dec_nodup : ((buildDomainMapping pairs labels k).dom2dec.map Prod.fst).Nodup := by
  rw [(dom2dec_keys hpairs hk labels).2]
  exact (counter_nodup _).sublist (List.filter_sublist.map Prod.fst)

theorem dom2dec_head (d : Λ) : 1 / (k : ℚ) ≤ share (pairs.map Prod.snd) d ↔
    ∃ pool, (d, pool) ∈ (buildDomainMapping pairs labels k).dom2dec := by
  rw [← mem_headKeys hpairs hk, ← (dom2dec_keys hpairs hk labels).2]
  simp

theorem dom2dec_near {d : Λ} {pool : List Nat}
    (h : (d, pool) ∈ (buildDomainMapping pairs labels k).dom2dec) :
    pool ≠ [] ∧ |(pool.length : ℚ) - k * share (pairs.map Prod.snd) d| < 1 := by
  have hmem : (some d, pool) ∈ domainPools (pairs.map Prod.snd) k := by
    obtain ⟨⟨d', pool'⟩, hmem, heq⟩ := List.mem_filterMap.mp h
    obtain ⟨d'', hd, heq⟩ := Option.map_eq_some_iff.mp heq
    cases heq
    rwa [← hd]
  obtain ⟨n, hn, hle, hnear⟩ := mem_domainPools hpairs hk hmem
  obtain ⟨d', heq⟩ | heq := mem_domainGroups hpairs hk hn
  · cases heq
    refine ⟨fun hnil => ?_, hnear⟩
    have hk' : (0 : ℚ) < k := by exact_mod_cast hk
    have hhead := (dom2dec_head hpairs hk labels d).mpr ⟨pool, h⟩
    rw [div_le_iff₀' hk', share] at hhead
    have hone :
        (1 : ℤ) ≤ trunc (k * ((pairs.map Prod.snd).count d / (pairs.map Prod.snd).length)) := by
      rw [trunc_of_nonneg (zero_le_one.trans hhead), Int.le_floor]
      exact_mod_cast hhead
    rw [hnil, List.length_nil] at hle
    omega
  · cases heq

theorem miscDec_near : |((buildDomainMapping pairs labels k).miscDec.length : ℚ) -
    k * tailShare (pairs.map Prod.snd) k| < 1 := by
  change |((((domainPools (pairs.map Prod.snd) k).lookup none).getD []).length : ℚ) - _| < 1
  have hnodup := domainPools_nodup (pairs.map Prod.snd) k
  have hkeys := domainPools_keys hpairs hk
  cases hlookup : (domainPools (pairs.map Prod.snd) k).lookup none with
  | none =>
    split at hkeys
    · next htail =>
      rw [tailShare, htail]
      simp
    · have hmem : none ∈ (domainPools (pairs.map Prod.snd) k).map Prod.fst :=
        hkeys ▸ List.mem_append_right _ (List.mem_singleton_self none)
      obtain ⟨⟨d, pool⟩, hp, rfl⟩ := List.mem_map.mp hmem
      rw [(lookup_eq_some hnodup).mpr hp] at hlookup
      cases hlookup
  | some pool =>
    obtain ⟨n, hn, -, hnear⟩ := mem_domainPools hpairs hk ((lookup_eq_some hnodup).mp hlookup)
    obtain ⟨d, heq⟩ | heq := mem_domainGroups hpairs hk hn
    · cases heq
    · cases heq
      exact hnear

theorem eligibleDecoders_head {key : η} {d : Λ} {pool : List Nat} (hd : labels key = some d)
    (hpool : (d, pool) ∈ (buildDomainMapping pairs labels k).dom2dec) (decoders : Nat) :
    eligibleDecoders (buildDomainMapping pairs labels k) key decoders = pool := by
  have hlabel : (buildDomainMapping pairs labels k).hash2dom key = some d := hd
  rw [eligibleDecoders, hlabel, Option.bind_some,
    (lookup_eq_some (dom2dec_nodup hpairs hk labels)).mpr hpool, Option.getD_some,
    if_pos (dom2dec_near hpairs hk labels hpool).1]

theorem eligibleDecoders_tail {key : η}
    (htail : ∀ d pool, labels key = some d →
      (d, pool) ∉ (buildDomainMapping pairs labels k).dom2dec) (decoders : Nat) :
    eligibleDecoders (buildDomainMapping pairs labels k) key decoders =
      if (buildDomainMapping pairs labels k).miscDec ≠ [] then
        (buildDomainMapping pairs labels k).miscDec else List.range decoders := by
  have hnone : (((buildDomainMapping pairs labels k).hash2dom key).bind fun d =>
      (buildDomainMapping pairs labels k).dom2dec.lookup d) = none := by
    change ((labels key).bind _) = none
    rw [Option.bind_eq_none_iff]
    intro d hd
    rw [Option.eq_none_iff_forall_ne_some]
    intro pool hlookup
    exact htail d pool hd ((lookup_eq_some (dom2dec_nodup hpairs hk labels)).mp hlookup)
  rw [eligibleDecoders, hnone]
  exact if_neg fun hne => hne rfl

end Mapping

theorem domainPools_partition (pairs : List (π × Λ)) (hpairs : pairs ≠ []) (k : Nat) (hk : 1 ≤ k)
    (labels : η → Option Λ) (mapping : DomainMapping Λ η)
    (hmapping : buildDomainMapping pairs labels k = mapping) :
    -- The pools, one after the other, are all decoders.
    mapping.dom2dec.flatMap Prod.snd ++ mapping.miscDec = List.range k ∧
      (mapping.dom2dec.map Prod.fst).Nodup ∧
      (∀ d, 1 / (k : ℚ) ≤ share (pairs.map Prod.snd) d ↔ ∃ pool, (d, pool) ∈ mapping.dom2dec) ∧
      (∀ d pool, (d, pool) ∈ mapping.dom2dec →
        pool ≠ [] ∧ |(pool.length : ℚ) - k * share (pairs.map Prod.snd) d| < 1) ∧
      |(mapping.miscDec.length : ℚ) - k * tailShare (pairs.map Prod.snd) k| < 1 ∧
      ∀ (key : η) (loads : List Nat) (draw : Nat), loads.length = k →
        ∃ pool, ∃ i ∈ pool, chooseByDomain mapping key loads draw = .ok i ∧
          (∀ j ∈ pool, loads.getD i 0 ≤ loads.getD j 0) ∧
          ((∃ d, labels key = some d ∧ (d, pool) ∈ mapping.dom2dec) ∨
            (∀ d, labels key = some d → share (pairs.map Prod.snd) d < 1 / k) ∧
              pool = if mapping.miscDec ≠ [] then mapping.miscDec else List.range k) := by
  subst hmapping
  set mapping := buildDomainMapping pairs labels k
  have hne : pairs.map Prod.snd ≠ [] := by simpa using hpairs
  have hpools := (dom2dec_keys hne hk labels).1
  have hin : ∀ i ∈ mapping.dom2dec.flatMap Prod.snd ++ mapping.miscDec, i < k :=
    fun i hi => List.mem_range.mp (hpools ▸ hi)
  refine ⟨hpools, dom2dec_nodup hne hk labels, dom2dec_head hne hk labels,
    fun d pool => dom2dec_near hne hk labels, miscDec_near hne hk labels, ?_⟩
  rintro key loads draw rfl
  by_cases hhead : ∃ d pool, labels key = some d ∧ (d, pool) ∈ mapping.dom2dec
  · obtain ⟨d, pool, hd, hpool⟩ := hhead
    obtain ⟨i, hi, hok, hmin⟩ := chooseByDomain_ok (eligibleDecoders_head hne hk labels hd hpool _)
      (dom2dec_near hne hk labels hpool).1
      (fun i hi => hin i (List.mem_append_left _ (List.mem_flatMap.mpr ⟨_, hpool, hi⟩))) draw
    exact ⟨pool, i, hi, hok, hmin, .inl ⟨d, hd, hpool⟩⟩
  · have htail : ∀ d pool, labels key = some d → (d, pool) ∉ mapping.dom2dec :=
      fun d pool hd hpool => hhead ⟨d, pool, hd, hpool⟩
    have heligible := eligibleDecoders_tail hne hk labels htail loads.length
    have hok : (if mapping.miscDec ≠ [] then mapping.miscDec else List.range loads.length) ≠ [] ∧
        ∀ i ∈ (if mapping.miscDec ≠ [] then mapping.miscDec else List.range loads.length),
          i < loads.length := by
      split
      · next hmisc => exact ⟨hmisc, fun i hi => hin i (List.mem_append_right _ hi)⟩
      · refine ⟨fun hnil => ?_, fun i => List.mem_range.mp⟩
        rw [List.range_eq_nil] at hnil
        omega
    obtain ⟨i, hi, hok, hmin⟩ := chooseByDomain_ok heligible hok.1 hok.2 draw
    refine ⟨_, i, hi, hok, hmin, .inr ⟨fun d hd => not_le.mp fun hle => ?_, rfl⟩⟩
    obtain ⟨pool, hpool⟩ := (dom2dec_head hne hk labels d).mp hle
    exact htail d pool hd hpool

theorem domainPools_partition_two :
    ∃ mapping, buildDomainMapping [((), 7), ((), 7), ((), 8)] (fun _ : Unit => some 7) 2 = mapping ∧
      mapping.dom2dec.flatMap Prod.snd ++ mapping.miscDec = [0, 1] :=
  ⟨_, rfl, (domainPools_partition [((), 7), ((), 7), ((), 8)] (by decide) 2 (by decide)
    (fun _ : Unit => some 7) _ rfl).1⟩

end EldrServing.Routing
