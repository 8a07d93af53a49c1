import EldrServing.Lib.Apportion
import EldrServing.Lib.Py
import Mathlib.Data.List.Sort
import Mathlib.Tactic.NormNum

/-!
# The drift workload

`drift_workload.py`: a schedule of requests from four domains whose mix moves from a baseline to a
drifted one and back. Every second the targets of all seconds so far are rounded to whole requests,
so that rounding errors are carried forward. Shares are exact rationals here. Reading the input
files and writing the manifest are not modelled: a pool holds the records of its domain in the
order of `_stable_pool`.
-/

namespace EldrServing.Workload

set_option autoImplicit false

open Apportion

inductive Domain where
  | code
  | math
  | medical
  | legal
  deriving DecidableEq, Repr

instance : Fintype Domain where
  elems := {.code, .math, .medical, .legal}
  complete d := by cases d <;> decide

namespace Domain

def name : Domain → String
  | code => "code"
  | math => "math"
  | medical => "medical"
  | legal => "legal"

def index : Domain → Nat
  | code => 0
  | math => 1
  | medical => 2
  | legal => 3

end Domain

def domains : List Domain := [.code, .math, .medical, .legal]

abbrev Mix := Domain → ℚ

def baselineMix : Mix
  | .code => 24 / 100
  | .math => 25 / 100
  | .medical => 19 / 100
  | .legal => 32 / 100

def driftMix : Mix
  | .code => 45 / 100
  | .math => 35 / 100
  | .medical => 8 / 100
  | .legal => 12 / 100

def mixProfiles (profile : String) : Option (Mix × Mix) :=
  if profile = "moderate" then some (baselineMix, driftMix) else none

def baselinePhaseEnd : ℚ := 1 / 3
def driftRampEnd : ℚ := 5 / 12
def driftPhaseEnd : ℚ := 2 / 3
def returnRampEnd : ℚ := 3 / 4

def lerp (left right : Mix) (amount : ℚ) : Mix := fun d => left d + amount * (right d - left d)

def mixAt (elapsed : ℚ) (duration : Int) (baseline drift : Mix) : Mix :=
  let progress := elapsed / duration
  if progress < baselinePhaseEnd then baseline
  else if progress < driftRampEnd then
    lerp baseline drift ((progress - baselinePhaseEnd) / (driftRampEnd - baselinePhaseEnd))
  else if progress < driftPhaseEnd then drift
  else if progress < returnRampEnd then
    lerp drift baseline ((progress - driftPhaseEnd) / (returnRampEnd - driftPhaseEnd))
  else baseline

/-- `xs[:n]`, where a negative `n` counts from the end. -/
def pySliceTo {α : Type} (xs : List α) (n : Int) : List α :=
  if 0 ≤ n then xs.take n.toNat else xs.take (xs.length + n).toNat

def remainderKey (quotas : Mix) (d : Domain) : Int :=
  roundHalfEven ((quotas d - trunc (quotas d)) * 10 ^ 12)

/-- Larger remainders first, in the order of `DOMAINS` if they are equal. -/
def Precedes (quotas : Mix) (a b : Domain) : Prop :=
  remainderKey quotas b < remainderKey quotas a ∨
    remainderKey quotas b = remainderKey quotas a ∧ a.index ≤ b.index

instance (quotas : Mix) (a b : Domain) : Decidable (Precedes quotas a b) := by
  unfold Precedes
  infer_instance

def sortedDomains (quotas : Mix) : List Domain := domains.insertionSort (Precedes quotas)

def remaining (quotas : Mix) (total : Int) : Int :=
  total - ((domains.map fun d => trunc (quotas d)).sum)

def allocateQuotas (quotas : Mix) (total : Int) (d : Domain) : Int :=
  trunc (quotas d) +
    if d ∈ pySliceTo (sortedDomains quotas) (remaining quotas total) then 1 else 0

structure ScheduleItem where
  second : Int
  counts : Domain → Int

def targetMix (duration guard : Int) (baseline drift : Mix) (second : Nat) : Mix :=
  let experimentSecond : Int := second - guard
  if experimentSecond < 0 ∨ duration ≤ experimentSecond then baseline
  else mixAt (experimentSecond + 1 / 2) duration baseline drift

/-- The loop of `build` over the seconds, with `requested` and `target_totals`. -/
def scheduleLoop (rate guard : Int) (target : Nat → Mix) :
    List Nat → (Domain → Int) → Mix → List ScheduleItem
  | [], _, _ => []
  | second :: rest, requested, targetTotals =>
    let targetTotals : Mix := fun d => targetTotals d + target second d * rate
    let counts := allocateQuotas (fun d => targetTotals d - requested d) rate
    ⟨second - guard, counts⟩ ::
      scheduleLoop rate guard target rest (fun d => requested d + counts d) targetTotals

/-- A copy of a record, with `_eldr_domain` and `_eldr_second`. -/
structure OutputRecord (ρ : Type) where
  source : ρ
  domain : Domain
  second : Int

section Records

variable {ρ : Type}

def TagLe (a b : Nat × Domain) : Prop := a.1 < b.1 ∨ a.1 = b.1 ∧ a.2.name ≤ b.2.name

instance (a b : Nat × Domain) : Decidable (TagLe a b) := by
  unfold TagLe
  infer_instance

/-- `_interleaved_domains`; `digest` is the SHA-256 of the seed, the second, the domain and the
ordinal. -/
def interleavedDomains (digest : Int → Domain → Nat → Nat) (counts : Domain → Int)
    (second : Int) : List Domain :=
  ((domains.flatMap fun d => (List.range (counts d).toNat).map fun ordinal =>
    (digest second d ordinal, d)).insertionSort TagLe).map Prod.snd

def takeRecords (pools : Domain → List ρ) (second : Int) :
    List Domain → (Domain → Nat) → Except PyError (List (OutputRecord ρ) × (Domain → Nat))
  | [], offsets => .ok ([], offsets)
  | d :: rest, offsets => do
    let source ← match (pools d)[offsets d % (pools d).length]? with
      | some source => .ok source
      | none => .error (.indexError "list index out of range")
    let (records, offsets) ←
      takeRecords pools second rest (Function.update offsets d (offsets d + 1))
    .ok (⟨source, d, second⟩ :: records, offsets)

def outputRecords (digest : Int → Domain → Nat → Nat) (pools : Domain → List ρ) :
    List ScheduleItem → (Domain → Nat) → Except PyError (List (OutputRecord ρ))
  | [], _ => .ok []
  | item :: rest, offsets => do
    let (records, offsets) ← takeRecords pools item.second
      (interleavedDomains digest item.counts item.second) offsets
    let more ← outputRecords digest pools rest offsets
    .ok (records ++ more)

/-- `build`: the schedule and the records of the dataset. -/
def build (digest : Int → Domain → Nat → Nat) (pools : Domain → List ρ)
    (rate duration guard : Int) (profile : String) :
    Except PyError (List ScheduleItem × List (OutputRecord ρ)) :=
  if rate < 1 ∨ duration < 1 ∨ guard < 0 then
    .error (.valueError "rate and duration must be positive; guard must be non-negative")
  else
    match mixProfiles profile with
    | none => .error (.valueError ("unknown mixture profile: " ++ profile))
    | some (baseline, drift) =>
      match domains.find? fun d => (pools d).isEmpty with
      | some d => .error (.valueError ("Missing evaluation domain: " ++ d.name))
      | none => do
        let trafficDuration := duration + 2 * guard
        let schedule := scheduleLoop rate guard (targetMix duration guard baseline drift)
          (List.range trafficDuration.toNat) (fun _ => 0) fun _ => 0
        let records ← outputRecords digest pools schedule fun _ => 0
        let expected := rate * trafficDuration
        if (records.length : Int) ≠ expected then
          .error (.runtimeError ("internal error: generated " ++ toString records.length ++ " != " ++
            toString expected))
        else .ok (schedule, records)

end Records

/-! ### One second -/

theorem sum_domains {M : Type} [AddCommMonoid M] (g : Domain → M) :
    ∑ d, g d = g .code + g .math + g .medical + g .legal := by
  change ∑ d ∈ {Domain.code, Domain.math, Domain.medical, Domain.legal}, g d = _
  simp [add_assoc]

theorem sum_map_domains {M : Type} [AddCommMonoid M] (g : Domain → M) :
    (domains.map g).sum = ∑ d, g d := by
  simp [domains, sum_domains, add_assoc]

theorem mem_domains (d : Domain) : d ∈ domains := by
  cases d <;> simp [domains]

instance (quotas : Mix) : Std.Total (Precedes quotas) where
  total a b := by
    rcases lt_trichotomy (remainderKey quotas a) (remainderKey quotas b) with h | h | h
    · exact .inr (.inl h)
    · rcases le_total a.index b.index with hle | hle
      · exact .inl (.inr ⟨h.symm, hle⟩)
      · exact .inr (.inr ⟨h, hle⟩)
    · exact .inl (.inl h)

instance (quotas : Mix) : IsTrans Domain (Precedes quotas) where
  trans a b c hab hbc := by
    rcases hab with hab | ⟨hab, hi⟩
    · rcases hbc with hbc | ⟨hbc, -⟩
      · exact .inl (hbc.trans hab)
      · exact .inl (hbc ▸ hab)
    · rcases hbc with hbc | ⟨hbc, hj⟩
      · exact .inl (hab ▸ hbc)
      · exact .inr ⟨hbc.trans hab, hi.trans hj⟩

theorem sortedDomains_perm (quotas : Mix) : (sortedDomains quotas).Perm domains :=
  List.perm_insertionSort _ _

theorem sortedDomains_nodup (quotas : Mix) : (sortedDomains quotas).Nodup :=
  (sortedDomains_perm quotas).nodup_iff.mpr (by decide)

theorem sortedDomains_pairwise (quotas : Mix) :
    (sortedDomains quotas).Pairwise (Precedes quotas) :=
  List.pairwise_insertionSort _ _

def raisedDomains (quotas : Mix) (total : Int) : Finset Domain :=
  (pySliceTo (sortedDomains quotas) (remaining quotas total)).toFinset

theorem allocateQuotas_eq (quotas : Mix) (total : Int) (d : Domain) :
    allocateQuotas quotas total d =
      trunc (quotas d) + if d ∈ raisedDomains quotas total then 1 else 0 := by
  simp [allocateQuotas, raisedDomains]

theorem remaining_cast {quotas : Mix} {total : Int} (hsum : ∑ d, quotas d = total) :
    (remaining quotas total : ℚ) = ∑ d, (quotas d - trunc (quotas d)) := by
  rw [remaining, sum_map_domains, Finset.sum_sub_distrib, hsum]
  push_cast
  rfl

theorem card_raisedDomains {quotas : Mix} {total : Int} (hsum : ∑ d, quotas d = total)
    (hpos : 0 ≤ remaining quotas total) :
    ((raisedDomains quotas total).card : ℤ) = remaining quotas total := by
  have hlt : (remaining quotas total : ℚ) < 4 := by
    rw [remaining_cast hsum, sum_domains]
    linarith [sub_trunc_lt_one (quotas .code), sub_trunc_lt_one (quotas .math),
      sub_trunc_lt_one (quotas .medical), sub_trunc_lt_one (quotas .legal)]
  have hle : (remaining quotas total).toNat ≤ (sortedDomains quotas).length := by
    have hlength : (sortedDomains quotas).length = 4 := (sortedDomains_perm quotas).length_eq
    have hlt' : remaining quotas total < 4 := by exact_mod_cast hlt
    omega
  rw [raisedDomains, pySliceTo, if_pos hpos,
    List.toFinset_card_of_nodup ((sortedDomains_nodup quotas).sublist (List.take_sublist _ _)),
    List.length_take, Nat.min_eq_left hle]
  exact Int.toNat_of_nonneg hpos

def tolerance : ℚ := 1 / 10 ^ 12

theorem le_add_tolerance {quotas : Mix} {a b : Domain} (h : Precedes quotas a b) :
    quotas b - trunc (quotas b) ≤ quotas a - trunc (quotas a) + tolerance := by
  have hkey : remainderKey quotas b ≤ remainderKey quotas a := by
    rcases h with h | ⟨h, -⟩
    · exact h.le
    · exact h.le
  exact le_add_of_roundHalfEven_le (by norm_num) hkey

theorem rounds_raisedDomains {quotas : Mix} {total : Int} (hsum : ∑ d, quotas d = total)
    (hpos : 0 ≤ remaining quotas total) :
    Rounds (fun d => quotas d - trunc (quotas d)) (raisedDomains quotas total) tolerance where
  lt_one d := sub_trunc_lt_one (quotas d)
  sum := by
    rw [← remaining_cast hsum, ← card_raisedDomains hsum hpos]
    norm_cast
  le a ha b hb := by
    rw [raisedDomains, pySliceTo, if_pos hpos, List.mem_toFinset] at ha hb
    have hmem : b ∈ sortedDomains quotas := (sortedDomains_perm quotas).mem_iff.mpr (mem_domains b)
    rw [← List.take_append_drop (remaining quotas total).toNat (sortedDomains quotas),
      List.mem_append] at hmem
    have hpair := sortedDomains_pairwise quotas
    rw [← List.take_append_drop (remaining quotas total).toNat (sortedDomains quotas),
      List.pairwise_append] at hpair
    exact le_add_tolerance (hpair.2.2 a ha b (hmem.resolve_left hb))

structure Carried (err : Mix) : Prop where
  sum : ∑ d, err d = 0
  lower : ∀ d, -19 / 25 ≤ err d
  pair : ∀ d d', d ≠ d' → -59 / 50 ≤ err d + err d'
  upper : ∀ d, err d < 1

structure Demand (rate : Int) (x : Mix) : Prop where
  sum : ∑ d, x d = rate
  nonneg : ∀ d, 0 ≤ x d
  pair : ∀ d d', d ≠ d' → 1 / 5 ≤ x d + x d'

section Second

variable {err x : Mix} {rate : Int}

theorem Carried.neg_one_lt (h : Carried err) (hx : Demand rate x) (d : Domain) :
    -1 < err d + x d := by
  linarith [h.lower d, hx.nonneg d]

theorem Carried.remainder (h : Carried err) (hx : Demand rate x) (d : Domain) :
    0 ≤ err d + x d - trunc (err d + x d) ∨
      err d + x d - trunc (err d + x d) = err d + x d ∧ err d + x d < 0 := by
  rcases le_or_gt 0 (err d + x d) with hq | hq
  · exact .inl (sub_trunc_nonneg hq)
  · rw [trunc_of_neg hq (h.neg_one_lt hx d)]
    exact .inr ⟨by simp, hq⟩

theorem Carried.remaining_nonneg (h : Carried err) (hx : Demand rate x) (hrate : 1 ≤ rate) :
    0 ≤ remaining (fun d => err d + x d) rate := by
  have hsum : ∑ d, (err d + x d) = rate := by
    rw [Finset.sum_add_distrib, h.sum, hx.sum, zero_add]
  have hrate' : (1 : ℚ) ≤ rate := by exact_mod_cast hrate
  have hcast : (-1 : ℚ) < remaining (fun d => err d + x d) rate := by
    rw [remaining_cast hsum, sum_domains]
    have herr := h.sum
    have hx' := hx.sum
    rw [sum_domains] at herr hx'
    have hp := h.pair
    have hxp := hx.pair
    -- at most three quotas are negative; one, two and three of them sum to more than -1
    rcases h.remainder hx .code with h₁ | ⟨h₁, n₁⟩ <;>
      rcases h.remainder hx .math with h₂ | ⟨h₂, n₂⟩ <;>
        rcases h.remainder hx .medical with h₃ | ⟨h₃, n₃⟩ <;>
          rcases h.remainder hx .legal with h₄ | ⟨h₄, n₄⟩ <;>
            linarith [h.lower .code, h.lower .math, h.lower .medical, h.lower .legal,
              h.upper .code, h.upper .math, h.upper .medical, h.upper .legal,
              hx.nonneg .code, hx.nonneg .math, hx.nonneg .medical, hx.nonneg .legal,
              hp .code .math (by decide), hp .code .medical (by decide),
              hp .code .legal (by decide), hp .math .medical (by decide),
              hp .math .legal (by decide), hp .medical .legal (by decide),
              hxp .code .math (by decide), hxp .code .medical (by decide),
              hxp .code .legal (by decide), hxp .math .medical (by decide),
              hxp .math .legal (by decide), hxp .medical .legal (by decide)]
  have hint : (-1 : ℤ) < remaining (fun d => err d + x d) rate := by exact_mod_cast hcast
  omega

theorem card_compl_le {s : Finset Domain} {n m : Nat} (h : n ≤ s.card) (hnm : 4 ≤ n + m) :
    (sᶜ.card : ℚ) ≤ m := by
  have hcard : s.card + sᶜ.card = 4 := s.card_add_card_compl
  have hle : sᶜ.card ≤ m := by omega
  exact_mod_cast hle

section Raised

variable {f : Mix} {raised : Finset Domain} {a b : Domain}

theorem le_of_mem_raised (h : Rounds f raised tolerance) (ha : a ∈ raised) : 6 / 25 ≤ f a := by
  by_contra! hlt
  have hone := h.card_le (Finset.singleton_subset_iff.mpr ha)
  rw [Finset.card_singleton, Nat.cast_one, Finset.sum_singleton] at hone
  have hcard : (raisedᶜ.card : ℚ) ≤ (3 : ℕ) :=
    card_compl_le (Finset.card_pos.mpr ⟨a, ha⟩) (by norm_num)
  have hrest : ∑ d ∈ raisedᶜ, f d ≤ 3 * (6 / 25 + tolerance) := calc
    ∑ d ∈ raisedᶜ, f d ≤ raisedᶜ.card * (f a + tolerance) := h.sum_compl_le ha
    _ ≤ raisedᶜ.card * (6 / 25 + tolerance) := by gcongr
    _ ≤ 3 * (6 / 25 + tolerance) := by
      have : (0 : ℚ) ≤ 6 / 25 + tolerance := by norm_num [tolerance]
      gcongr
      exact hcard
  norm_num [tolerance] at hrest
  linarith

theorem le_add_of_mem_raised (h : Rounds f raised tolerance) (ha : a ∈ raised) (hb : b ∈ raised)
    (hne : a ≠ b) : 41 / 50 ≤ f a + f b := by
  by_contra! hlt
  have hsub : {a, b} ⊆ raised := by
    rw [Finset.insert_subset_iff, Finset.singleton_subset_iff]
    exact ⟨ha, hb⟩
  have hpair : ({a, b} : Finset Domain).card = 2 := Finset.card_pair hne
  have htwo := h.card_le hsub
  rw [hpair, Finset.sum_pair hne] at htwo
  have hcard : (raisedᶜ.card : ℚ) ≤ (2 : ℕ) :=
    card_compl_le (hpair ▸ Finset.card_le_card hsub) (by norm_num)
  -- one of the two is below 41/100
  obtain ⟨c, hc, hsmall⟩ : ∃ c ∈ raised, f c ≤ 41 / 100 := by
    rcases le_total (f a) (f b) with hle | hle
    · exact ⟨a, ha, by linarith⟩
    · exact ⟨b, hb, by linarith⟩
  have hrest : ∑ d ∈ raisedᶜ, f d ≤ 2 * (41 / 100 + tolerance) := calc
    ∑ d ∈ raisedᶜ, f d ≤ raisedᶜ.card * (f c + tolerance) := h.sum_compl_le hc
    _ ≤ raisedᶜ.card * (41 / 100 + tolerance) := by gcongr
    _ ≤ 2 * (41 / 100 + tolerance) := by
      have : (0 : ℚ) ≤ 41 / 100 + tolerance := by norm_num [tolerance]
      gcongr
      exact hcard
  norm_num [tolerance] at hrest htwo
  linarith

theorem le_add_of_not_mem_raised (h : Rounds f raised tolerance) (ha : a ∈ raised)
    (hb : b ∉ raised) (hlow : -19 / 25 ≤ f b) : -9 / 50 ≤ f a + f b := by
  by_contra! hlt
  have hone := h.card_le (Finset.singleton_subset_iff.mpr ha)
  have hb' : b ∈ raisedᶜ := Finset.mem_compl.mpr hb
  rw [Finset.card_singleton, Nat.cast_one, Finset.sum_singleton,
    ← Finset.add_sum_erase raisedᶜ f hb'] at hone
  have hcard : (raisedᶜ.card : ℚ) ≤ (3 : ℕ) :=
    card_compl_le (Finset.card_pos.mpr ⟨a, ha⟩) (by norm_num)
  have herase : ((raisedᶜ.erase b).card : ℚ) + 1 = raisedᶜ.card := by
    exact_mod_cast Finset.card_erase_add_one hb'
  have hrest : ∑ d ∈ raisedᶜ.erase b, f d ≤ 2 * (29 / 50 + tolerance) := calc
    ∑ d ∈ raisedᶜ.erase b, f d ≤ (raisedᶜ.erase b).card * (f a + tolerance) := by
      have hle := Finset.sum_le_card_nsmul (raisedᶜ.erase b) f (f a + tolerance) fun d hd =>
        h.le a ha d (Finset.mem_compl.mp (Finset.mem_of_mem_erase hd))
      rwa [nsmul_eq_mul] at hle
    _ ≤ (raisedᶜ.erase b).card * (29 / 50 + tolerance) := by
      gcongr
      linarith
    _ ≤ 2 * (29 / 50 + tolerance) := by
      have : (0 : ℚ) ≤ 29 / 50 + tolerance := by norm_num [tolerance]
      gcongr
      push_cast at hcard
      linarith
  norm_num [tolerance] at hrest
  linarith

end Raised

theorem Carried.allocate (h : Carried err) (hx : Demand rate x) (hrate : 1 ≤ rate) :
    (∀ d, 0 ≤ allocateQuotas (fun d => err d + x d) rate d) ∧
      ∑ d, allocateQuotas (fun d => err d + x d) rate d = rate ∧
      Carried fun d => err d + x d - allocateQuotas (fun d => err d + x d) rate d := by
  obtain ⟨q, hq⟩ : ∃ q : Mix, q = fun d => err d + x d := ⟨_, rfl⟩
  have hqd : ∀ d, err d + x d = q d := fun d => by rw [hq]
  have hsum : ∑ d, q d = rate := by
    rw [hq, Finset.sum_add_distrib, h.sum, hx.sum, zero_add]
  have hpos : 0 ≤ remaining q rate := hq ▸ h.remaining_nonneg hx hrate
  have hrounds := rounds_raisedDomains hsum hpos
  have hlow : ∀ d, -19 / 25 ≤ q d - trunc (q d) := fun d => by
    rcases h.remainder hx d with hr | ⟨hr, -⟩
    · rw [hqd] at hr
      linarith
    · rw [hqd] at hr
      rw [hr, ← hqd]
      linarith [h.lower d, hx.nonneg d]
  have htotal : ∑ d, allocateQuotas q rate d = rate := by
    have hcard := card_raisedDomains hsum hpos
    simp only [allocateQuotas_eq, Finset.sum_add_distrib, Finset.sum_boole,
      Finset.filter_mem_eq_inter, Finset.univ_inter]
    rw [remaining, sum_map_domains] at hcard
    omega
  -- the new error is the remainder, less one if the domain was raised
  have hnew : ∀ d, q d - allocateQuotas q rate d =
      q d - trunc (q d) - if d ∈ raisedDomains q rate then 1 else 0 := fun d => by
    rw [allocateQuotas_eq]
    push_cast
    ring
  simp only [hqd]
  refine ⟨fun d => ?_, htotal, ?_, fun d => ?_, fun d d' hne => ?_, fun d => ?_⟩
  · rw [allocateQuotas_eq]
    have := trunc_nonneg (hqd d ▸ h.neg_one_lt hx d)
    split <;> omega
  · rw [Finset.sum_sub_distrib, hsum]
    have : ((∑ d, allocateQuotas q rate d : ℤ) : ℚ) = rate := by rw [htotal]
    push_cast at this
    rw [this, sub_self]
  · rw [hnew]
    split
    · next hd => linarith [le_of_mem_raised hrounds hd]
    · linarith [hlow d]
  · rw [hnew, hnew]
    by_cases hd : d ∈ raisedDomains q rate
    · rw [if_pos hd]
      by_cases hd' : d' ∈ raisedDomains q rate
      · rw [if_pos hd']
        linarith [le_add_of_mem_raised hrounds hd hd' hne]
      · rw [if_neg hd']
        linarith [le_add_of_not_mem_raised hrounds hd hd' (hlow d')]
    · rw [if_neg hd]
      by_cases hd' : d' ∈ raisedDomains q rate
      · rw [if_pos hd']
        linarith [le_add_of_not_mem_raised hrounds hd' hd (hlow d)]
      · rw [if_neg hd']
        rcases h.remainder hx d with hr | ⟨hr, -⟩
        · rw [hqd] at hr
          linarith [hlow d']
        · rcases h.remainder hx d' with hr' | ⟨hr', -⟩
          · rw [hqd] at hr'
            linarith [hlow d]
          · rw [hqd] at hr hr'
            rw [hr, hr', ← hqd, ← hqd]
            linarith [h.pair d d' hne, hx.nonneg d, hx.nonneg d']
  · rw [hnew]
    have := sub_trunc_lt_one (q d)
    split <;> linarith

end Second

/-! ### The shipped profile -/

theorem demand_lerp {rate : Int} (hrate : 1 ≤ rate) {amount : ℚ} (h₀ : 0 ≤ amount)
    (h₁ : amount ≤ 1) : Demand rate fun d => lerp baselineMix driftMix amount d * rate := by
  have hrate' : (1 : ℚ) ≤ rate := by exact_mod_cast hrate
  have hshare : ∀ d, 2 / 25 ≤ lerp baselineMix driftMix amount d := by
    intro d
    cases d <;> norm_num [lerp, baselineMix, driftMix] <;> linarith
  have hpair : ∀ d d', d ≠ d' →
      1 / 5 ≤ lerp baselineMix driftMix amount d + lerp baselineMix driftMix amount d' := by
    intro d d' hne
    cases d <;> cases d' <;>
      first
        | exact absurd rfl hne
        | (norm_num [lerp, baselineMix, driftMix]; linarith)
  refine ⟨?_, fun d => ?_, fun d d' hne => ?_⟩
  · rw [← Finset.sum_mul, sum_domains]
    norm_num [lerp, baselineMix, driftMix]
    ring_nf
  · have := hshare d
    exact mul_nonneg (by linarith) (by linarith)
  · rw [← add_mul]
    calc (1 : ℚ) / 5 = 1 / 5 * 1 := by norm_num
      _ ≤ _ := by
        have := hpair d d' hne
        gcongr

theorem lerp_swap (left right : Mix) (amount : ℚ) :
    lerp right left amount = lerp left right (1 - amount) := by
  funext d
  simp only [lerp]
  ring

theorem ramp_bounds {start stop progress : ℚ} (h : ¬ progress < start) (h' : progress < stop) :
    0 ≤ (progress - start) / (stop - start) ∧ (progress - start) / (stop - start) ≤ 1 := by
  have hpos : 0 < stop - start := by linarith
  constructor
  · exact div_nonneg (by linarith) hpos.le
  · rw [div_le_one hpos]
    linarith

theorem targetMix_eq_lerp (duration guard : Int) (second : Nat) : ∃ amount : ℚ,
    0 ≤ amount ∧ amount ≤ 1 ∧
      targetMix duration guard baselineMix driftMix second =
        lerp baselineMix driftMix amount := by
  have hbase : lerp baselineMix driftMix 0 = baselineMix := by
    funext d
    simp [lerp]
  have hdrift : lerp baselineMix driftMix 1 = driftMix := by
    funext d
    simp [lerp]
  unfold targetMix
  simp only
  split
  · exact ⟨0, le_rfl, by norm_num, hbase.symm⟩
  unfold mixAt baselinePhaseEnd driftRampEnd driftPhaseEnd returnRampEnd
  simp only
  generalize (((second : Int) - guard : Int) + 1 / 2 : ℚ) / duration = progress
  split
  · exact ⟨0, le_rfl, by norm_num, hbase.symm⟩
  next hstart =>
  split
  · next hend =>
    obtain ⟨h₀, h₁⟩ := ramp_bounds hstart hend
    exact ⟨_, h₀, h₁, rfl⟩
  next hramp =>
  split
  · exact ⟨1, by norm_num, le_rfl, hdrift.symm⟩
  next hphase =>
  split
  · next hend =>
    obtain ⟨h₀, h₁⟩ := ramp_bounds hphase hend
    exact ⟨_, sub_nonneg.mpr h₁, sub_le_self 1 h₀, lerp_swap _ _ _⟩
  · exact ⟨0, le_rfl, by norm_num, hbase.symm⟩

/-! ### Whole schedules -/

section Schedule

variable {rate : Int} {target : Nat → Mix}

/-- The n-th item of a schedule whose first second is `first`: whole requests, and cumulative
requests within one of the cumulative targets, with `requested` and `totals` from before. -/
structure Tracks (rate guard : Int) (target : Nat → Mix) (first : Nat) (requested : Domain → Int)
    (totals : Mix) (items : List ScheduleItem) (n : Nat) (item : ScheduleItem) : Prop where
  second : item.second = (first + n : Nat) - guard
  nonneg : ∀ d, 0 ≤ item.counts d
  sum : ∑ d, item.counts d = rate
  close : ∀ d, |(requested d + ((items.take (n + 1)).map fun i => i.counts d).sum : Int) -
    (totals d + rate * ∑ m ∈ Finset.range (n + 1), target (first + m) d)| < 1

theorem Carried.abs_lt_one {err : Mix} (h : Carried err) (d : Domain) : |err d| < 1 := by
  rw [abs_lt]
  exact ⟨by linarith [h.lower d], h.upper d⟩

theorem scheduleLoop_tracks (hrate : 1 ≤ rate)
    (hdemand : ∀ second, Demand rate fun d => target second d * rate) (guard : Int)
    (len first : Nat)
    (requested : Domain → Int) (totals : Mix)
    (hcarried : Carried fun d => totals d - requested d) :
    (scheduleLoop rate guard target (List.range' first len) requested totals).length = len ∧
      ∀ n item, (scheduleLoop rate guard target (List.range' first len) requested totals)[n]? =
        some item → Tracks rate guard target first requested totals
          (scheduleLoop rate guard target (List.range' first len) requested totals) n item := by
  -- the errors carried are the invariant of the loop
  induction len generalizing first requested totals with
  | zero => exact ⟨rfl, fun n item h => by simp [scheduleLoop] at h⟩
  | succ len ih =>
    obtain ⟨hnonneg, hsum, hnext⟩ := hcarried.allocate (hdemand first) hrate
    rw [List.range'_succ, scheduleLoop]
    have hquotas : (fun d => totals d + target first d * rate - requested d) =
        fun d => totals d - requested d + target first d * rate := by
      funext d
      ring
    simp only [hquotas]
    obtain ⟨counts, hcounts⟩ : ∃ counts, counts = allocateQuotas
      (fun d => totals d - requested d + target first d * rate) rate := ⟨_, rfl⟩
    rw [← hcounts] at hnonneg hsum hnext ⊢
    have hcarried' : Carried fun d => totals d + target first d * rate -
        ((requested d + counts d : Int) : ℚ) := by
      convert hnext using 2 with d
      push_cast
      ring
    obtain ⟨hlength, hall⟩ := ih (first + 1) (fun d => requested d + counts d)
      (fun d => totals d + target first d * rate) hcarried'
    refine ⟨by rw [List.length_cons, hlength], fun n item hitem => ?_⟩
    cases n with
    | zero =>
      obtain rfl := Option.some.inj hitem
      refine ⟨rfl, hnonneg, hsum, fun d => ?_⟩
      have hclose := hcarried'.abs_lt_one d
      rw [abs_sub_comm] at hclose
      simp only [Nat.zero_add, List.take_succ_cons, List.take_zero, List.map_cons, List.map_nil,
        List.sum_cons, List.sum_nil, add_zero, Finset.sum_range_one]
      rwa [mul_comm (rate : ℚ)]
    | succ n =>
      rw [List.getElem?_cons_succ] at hitem
      obtain ⟨hsecond, hnonneg', hsum', hclose⟩ := hall n item hitem
      refine ⟨?_, hnonneg', hsum', fun d => ?_⟩
      · rw [hsecond]
        push_cast
        ring
      · have := hclose d
        rw [Finset.sum_range_succ' _ (n + 1)]
        simp only [List.take_succ_cons, List.map_cons, List.sum_cons]
        convert this using 2
        push_cast
        simp only [Nat.add_zero, Nat.add_assoc, Nat.add_comm 1]
        ring

end Schedule

section Records

variable {ρ : Type} {digest : Int → Domain → Nat → Nat} {pools : Domain → List ρ}

theorem interleavedDomains_length {counts : Domain → Int} (h : ∀ d, 0 ≤ counts d)
    (second : Int) : ((interleavedDomains digest counts second).length : Int) =
      ∑ d, counts d := by
  rw [interleavedDomains, List.length_map, List.length_insertionSort, List.length_flatMap,
    sum_domains]
  simp only [domains, List.length_map, List.length_range, List.map_cons, List.map_nil,
    List.sum_cons, List.sum_nil]
  have h₁ := h .code
  have h₂ := h .math
  have h₃ := h .medical
  have h₄ := h .legal
  omega

theorem takeRecords_ok (hpools : ∀ d, pools d ≠ []) (second : Int) (ds : List Domain)
    (offsets : Domain → Nat) : ∃ records offsets',
      takeRecords pools second ds offsets = .ok (records, offsets') ∧
        records.length = ds.length := by
  induction ds generalizing offsets with
  | nil => exact ⟨[], offsets, rfl, rfl⟩
  | cons d ds ih =>
    have hlt : offsets d % (pools d).length < (pools d).length :=
      Nat.mod_lt _ (List.length_pos_iff.mpr (hpools d))
    obtain ⟨records, offsets', hrest, hlength⟩ := ih (Function.update offsets d (offsets d + 1))
    refine ⟨⟨(pools d)[offsets d % (pools d).length], d, second⟩ :: records, offsets', ?_,
      congrArg (· + 1) hlength⟩
    simp only [takeRecords, List.getElem?_eq_getElem hlt, hrest, bind, Except.bind]

theorem outputRecords_ok (digest : Int → Domain → Nat → Nat) (hpools : ∀ d, pools d ≠ [])
    (items : List ScheduleItem)
    (offsets : Domain → Nat) : ∃ records, outputRecords digest pools items offsets = .ok records ∧
      records.length = (items.map fun item =>
        (interleavedDomains digest item.counts item.second).length).sum := by
  induction items generalizing offsets with
  | nil => exact ⟨[], rfl, rfl⟩
  | cons item items ih =>
    obtain ⟨records, offsets', htake, hlength⟩ := takeRecords_ok hpools item.second
      (interleavedDomains digest item.counts item.second) offsets
    obtain ⟨more, hmore, hlength'⟩ := ih offsets'
    refine ⟨records ++ more, ?_, ?_⟩
    · simp only [outputRecords, htake, hmore, bind, Except.bind]
    · rw [List.length_append, hlength, hlength', List.map_cons, List.sum_cons]

end Records

theorem carried_zero : Carried fun _ => 0 where
  sum := Finset.sum_const_zero
  lower _ := by norm_num
  pair _ _ _ := by norm_num
  upper _ := by norm_num

/-- The schedule tracks its target mix: in every second the counts are not negative and sum to the
rate, and what was requested of a domain so far is within one of its targets so far. So the dataset
has one record for each request. -/
theorem build_tracks_mix {ρ : Type} (digest : Int → Domain → Nat → Nat) (pools : Domain → List ρ)
    (hpools : ∀ d, pools d ≠ []) {rate duration guard : Int} (hrate : 1 ≤ rate)
    (hduration : 1 ≤ duration) (hguard : 0 ≤ guard) :
    ∃ schedule records,
      build digest pools rate duration guard "moderate" = .ok (schedule, records) ∧
      (schedule.length : Int) = duration + 2 * guard ∧
      (records.length : Int) = rate * (duration + 2 * guard) ∧
      ∀ (n : Nat) item, schedule[n]? = some item →
        item.second = n - guard ∧ (∀ d, 0 ≤ item.counts d) ∧ ∑ d, item.counts d = rate ∧
        ∀ d, |((((schedule.take (n + 1)).map fun i => i.counts d).sum : Int) : ℚ) -
          rate * ∑ m ∈ Finset.range (n + 1),
            targetMix duration guard baselineMix driftMix m d| < 1 := by
  obtain ⟨target, htarget⟩ : ∃ target, target = targetMix duration guard baselineMix driftMix :=
    ⟨_, rfl⟩
  have hdemand : ∀ second, Demand rate fun d => target second d * rate := by
    intro second
    obtain ⟨amount, h₀, h₁, hlerp⟩ := targetMix_eq_lerp duration guard second
    rw [htarget, hlerp]
    exact demand_lerp hrate h₀ h₁
  obtain ⟨schedule, hschedule⟩ : ∃ schedule, schedule = scheduleLoop rate guard target
    (List.range (duration + 2 * guard).toNat) (fun _ => 0) fun _ => 0 := ⟨_, rfl⟩
  obtain ⟨hlength, hall⟩ := scheduleLoop_tracks hrate hdemand guard
    (duration + 2 * guard).toNat 0 (fun _ => 0) (fun _ => 0) (by simpa using carried_zero)
  rw [← List.range_eq_range', ← hschedule] at hlength hall
  have hseconds : (schedule.length : Int) = duration + 2 * guard := by omega
  obtain ⟨records, hrecords, hcount⟩ := outputRecords_ok digest hpools schedule
    fun _ => 0
  have hexpected : (records.length : Int) = rate * (duration + 2 * guard) := by
    have hitems : ∀ item ∈ schedule,
        ((interleavedDomains digest item.counts item.second).length : Int) = rate := by
      intro item hitem
      obtain ⟨n, hn⟩ := List.mem_iff_getElem?.mp hitem
      obtain ⟨-, hnonneg, hsum, -⟩ := hall n item hn
      rw [interleavedDomains_length hnonneg, hsum]
    have hmap : (schedule.map fun item =>
        ((interleavedDomains digest item.counts item.second).length : Int)) =
          List.replicate schedule.length rate :=
      List.map_eq_replicate_iff.mpr hitems
    rw [hcount, ← hseconds]
    push_cast
    rw [List.map_map]
    simp only [Function.comp_def, hmap, List.sum_replicate, nsmul_eq_mul]
    ring
  refine ⟨schedule, records, ?_, hseconds, hexpected, fun n item hitem => ?_⟩
  · have hargs : ¬ (rate < 1 ∨ duration < 1 ∨ guard < 0) := by omega
    have hfind : domains.find? (fun d => (pools d).isEmpty) = none := by
      rw [List.find?_eq_none]
      intro d _ hempty
      exact hpools d (List.isEmpty_iff.mp hempty)
    simp only [build, if_neg hargs, mixProfiles, if_true, hfind, ← htarget, ← hschedule, hrecords,
      bind, Except.bind]
    rw [if_neg (not_not.mpr hexpected)]
  · obtain ⟨hsecond, hnonneg, hsum, hclose⟩ := hall n item hitem
    refine ⟨by rw [hsecond, Nat.zero_add], hnonneg, hsum, fun d => ?_⟩
    have := hclose d
    rw [← htarget]
    simpa using this

/-- The default experiment at rate 25, with one record in each pool and a guard of 5 seconds. -/
theorem build_tracks_mix_default :
    ∃ schedule records,
      build (fun _ _ ordinal => ordinal) (fun _ => [()]) 25 120 5 "moderate" =
        .ok (schedule, records) ∧ schedule.length = 130 ∧ records.length = 3250 := by
  have hpools : ∀ _ : Domain, [()] ≠ [] := fun _ => List.cons_ne_nil _ _
  obtain ⟨schedule, records, hbuild, hlength, hrecords, -⟩ :=
    build_tracks_mix (fun _ _ ordinal => ordinal) (fun _ => [()]) hpools
      (by decide : (1 : Int) ≤ 25) (by decide : (1 : Int) ≤ 120) (by decide : (0 : Int) ≤ 5)
  exact ⟨schedule, records, hbuild, by omega, by omega⟩

end EldrServing.Workload
