import Mathlib.Algebra.BigOperators.Ring.Finset
import Mathlib.Algebra.Order.BigOperators.Group.Finset
import Mathlib.Algebra.Order.BigOperators.Group.List
import Mathlib.Algebra.Order.Floor.Ring
import Mathlib.Data.Fintype.BigOperators
import Mathlib.Data.List.Sort
import Mathlib.Data.Rat.Floor
import Mathlib.Tactic.Linarith
import Mathlib.Tactic.Ring

/-!
# Rounding by largest remainders

Fractions that sum to an integer `k` are rounded by raising `k` of them, and no other one exceeds
a raised one by more than a tolerance `ε`.
-/

namespace EldrServing.Apportion

set_option autoImplicit false
set_option linter.unusedSectionVars false

def trunc (q : ℚ) : ℤ := if 0 ≤ q then ⌊q⌋ else ⌈q⌉

section Trunc

variable {q : ℚ}

theorem trunc_of_nonneg (h : 0 ≤ q) : trunc q = ⌊q⌋ := if_pos h

theorem trunc_of_neg (h : q < 0) (hlt : -1 < q) : trunc q = 0 := by
  rw [trunc, if_neg (not_le.mpr h), Int.ceil_eq_zero_iff]
  exact ⟨hlt, h.le⟩

theorem trunc_nonneg (hlt : -1 < q) : 0 ≤ trunc q := by
  rcases le_or_gt 0 q with h | h
  · rw [trunc_of_nonneg h]
    exact Int.floor_nonneg.mpr h
  · rw [trunc_of_neg h hlt]

theorem sub_trunc_lt_one (q : ℚ) : q - trunc q < 1 := by
  rcases le_or_gt 0 q with h | h
  · rw [trunc_of_nonneg h]
    linarith [Int.lt_floor_add_one q]
  · rw [trunc, if_neg (not_le.mpr h)]
    linarith [Int.le_ceil q]

theorem sub_trunc_nonneg (h : 0 ≤ q) : 0 ≤ q - trunc q := by
  rw [trunc_of_nonneg h]
  linarith [Int.floor_le q]

end Trunc

/-- `round` to the nearest integer, a half to the even one. -/
def roundHalfEven (q : ℚ) : ℤ :=
  if q - ⌊q⌋ < 1 / 2 then ⌊q⌋
  else if 1 / 2 < q - ⌊q⌋ then ⌊q⌋ + 1
  else if ⌊q⌋ % 2 = 0 then ⌊q⌋ else ⌊q⌋ + 1

theorem abs_roundHalfEven_sub_le (q : ℚ) : |(roundHalfEven q : ℚ) - q| ≤ 1 / 2 := by
  have hlow := Int.floor_le q
  have hhigh := Int.lt_floor_add_one q
  rw [abs_le]
  unfold roundHalfEven
  split
  · constructor <;> linarith
  · split
    · push_cast
      constructor <;> linarith
    · split
      · constructor <;> linarith
      · push_cast
        constructor <;> linarith

/-- The order of rounded values is the order of the values, up to the rounding unit. -/
theorem le_add_of_roundHalfEven_le {x y unit : ℚ} (hunit : 0 < unit)
    (h : roundHalfEven (x * unit) ≤ roundHalfEven (y * unit)) : x ≤ y + 1 / unit := by
  have hx := (abs_le.mp (abs_roundHalfEven_sub_le (x * unit))).1
  have hy := (abs_le.mp (abs_roundHalfEven_sub_le (y * unit))).2
  have hle : (roundHalfEven (x * unit) : ℚ) ≤ roundHalfEven (y * unit) := by exact_mod_cast h
  have hmul : x * unit ≤ (y + 1 / unit) * unit := by
    rw [add_mul, one_div, inv_mul_cancel₀ hunit.ne']
    linarith
  exact le_of_mul_le_mul_right hmul hunit

section Prefix

variable {α : Type} {f : α → ℚ} {sorted : List α} {m : Nat}

theorem sum_lt_length {l : List α} (hne : l ≠ []) (hlt : ∀ a ∈ l, f a < 1) :
    (l.map f).sum < l.length := by
  have h := List.sum_lt_sum_of_ne_nil hne f (fun _ => 1) hlt
  simpa using h

theorem pos_of_mem_take (hlt : ∀ a ∈ sorted, f a < 1) (hsum : (sorted.map f).sum = m)
    (hpair : sorted.Pairwise fun a b => f b ≤ f a) :
    m ≤ sorted.length ∧ ∀ a ∈ sorted.take m, 0 < f a := by
  have hle : m ≤ sorted.length := by
    rcases eq_or_ne sorted [] with rfl | hne
    · have hzero : (0 : ℚ) = m := hsum
      exact_mod_cast hzero.symm.le
    · have := sum_lt_length hne hlt
      rw [hsum] at this
      exact_mod_cast this.le
  refine ⟨hle, fun a ha => ?_⟩
  have hfirst : ((sorted.take m).map f).sum < m := by
    have := sum_lt_length (List.ne_nil_of_mem ha) fun b hb => hlt b (List.mem_of_mem_take hb)
    rwa [List.length_take, Nat.min_eq_left hle] at this
  rw [← List.take_append_drop m sorted, List.map_append, List.sum_append] at hsum
  rw [← List.take_append_drop m sorted, List.pairwise_append] at hpair
  by_contra hnot
  have hrest : ((sorted.drop m).map f).sum ≤ 0 := by
    have hall : ∀ x ∈ (sorted.drop m).map f, x ≤ 0 := by
      intro x hx
      obtain ⟨b, hb, rfl⟩ := List.mem_map.mp hx
      exact (hpair.2.2 a ha b hb).trans (not_lt.mp hnot)
    simpa using List.sum_le_card_nsmul _ 0 hall
  linarith

end Prefix
section LargestRemainders

variable {α : Type} [DecidableEq α]

def remainder (quota : α → ℚ) (a : α) : ℚ := quota a - trunc (quota a)

/-- Larger remainders first; equal ones keep their order. -/
def byRemainder (quota : α → ℚ) (items : List α) : List α :=
  items.insertionSort fun a b => remainder quota b ≤ remainder quota a

/-- The items that are rounded up so that the sizes sum to `k`. -/
def raisedItems (quota : α → ℚ) (k : Int) (items : List α) : List α :=
  (byRemainder quota items).take (k - (items.map fun a => trunc (quota a)).sum).toNat

/-- Largest remainders: the size of the item `a`. -/
def allotted (quota : α → ℚ) (k : Int) (items : List α) (a : α) : Int :=
  trunc (quota a) + if a ∈ raisedItems quota k items then 1 else 0

variable {quota : α → ℚ} {k : Int} {items : List α}

theorem byRemainder_perm (quota : α → ℚ) (items : List α) :
    (byRemainder quota items).Perm items :=
  List.perm_insertionSort _ _

theorem byRemainder_pairwise (quota : α → ℚ) (items : List α) :
    (byRemainder quota items).Pairwise fun a b => remainder quota b ≤ remainder quota a := by
  let r : α → α → Prop := fun a b => remainder quota b ≤ remainder quota a
  have : Std.Total r := ⟨fun a b => le_total _ _⟩
  have : IsTrans _ r := ⟨fun a b c hab hbc => hbc.trans hab⟩
  exact List.pairwise_insertionSort r items

theorem sum_remainder (quota : α → ℚ) (items : List α) : (items.map (remainder quota)).sum =
    (items.map quota).sum - ((items.map fun a => trunc (quota a)).sum : Int) := by
  induction items with
  | nil => simp
  | cons a items ih =>
    rw [List.map_cons, List.sum_cons, ih, List.map_cons, List.sum_cons, List.map_cons,
      List.sum_cons, Int.cast_add, remainder]
    ring

variable (hquota : ∀ a, 0 ≤ quota a) (hsum : (items.map quota).sum = k)
include hquota hsum

theorem raisedItems_spec :
    ((raisedItems quota k items).length : Int) = k - (items.map fun a => trunc (quota a)).sum ∧
      ∀ a ∈ raisedItems quota k items, 0 < remainder quota a := by
  have hleft : (items.map (remainder quota)).sum =
      (k - (items.map fun a => trunc (quota a)).sum : Int) := by
    rw [sum_remainder, hsum, Int.cast_sub]
  have hnonneg : 0 ≤ k - (items.map fun a => trunc (quota a)).sum := by
    rw [← Int.cast_nonneg_iff (R := ℚ), ← hleft]
    apply List.sum_nonneg
    intro x hx
    obtain ⟨a, -, rfl⟩ := List.mem_map.mp hx
    exact sub_trunc_nonneg (hquota a)
  obtain ⟨m, hm⟩ := Int.eq_ofNat_of_zero_le hnonneg
  have hsorted : ((byRemainder quota items).map (remainder quota)).sum = m := by
    rw [((byRemainder_perm quota items).map _).sum_eq, hleft, hm, Int.cast_natCast]
  have hlt : ∀ a ∈ byRemainder quota items, remainder quota a < 1 := fun a _ => sub_trunc_lt_one _
  obtain ⟨hle, htake⟩ := pos_of_mem_take hlt hsorted (byRemainder_pairwise quota items)
  rw [raisedItems, hm, Int.toNat_natCast, List.length_take, Nat.min_eq_left hle]
  exact ⟨rfl, htake⟩

theorem allotted_near (a : α) : 0 ≤ allotted quota k items a ∧
    trunc (quota a) ≤ allotted quota k items a ∧ |(allotted quota k items a : ℚ) - quota a| < 1 := by
  have hfloor := trunc_nonneg (lt_of_lt_of_le neg_one_lt_zero (hquota a))
  have hlow := sub_trunc_nonneg (hquota a)
  have hhigh := sub_trunc_lt_one (quota a)
  rw [abs_lt]
  unfold allotted
  split
  · next ha =>
    have hpos := (raisedItems_spec hquota hsum).2 a ha
    rw [remainder] at hpos
    refine ⟨by omega, by omega, ?_⟩
    push_cast
    constructor <;> linarith
  · refine ⟨by omega, by omega, ?_⟩
    push_cast
    constructor <;> linarith

theorem sum_allotted (hnodup : items.Nodup) : (items.map (allotted quota k items)).sum = k := by
  have hraised : (items.filter fun a => a ∈ raisedItems quota k items).Perm
      (raisedItems quota k items) := by
    have hsub : (raisedItems quota k items).Sublist (byRemainder quota items) :=
      List.take_sublist _ _
    have hsorted := (byRemainder_perm quota items).nodup_iff.mpr hnodup
    refine (List.perm_ext_iff_of_nodup (hnodup.filter _) (hsorted.sublist hsub)).mpr fun a => ?_
    rw [List.mem_filter, decide_eq_true_eq]
    exact and_iff_right_of_imp fun ha => (byRemainder_perm quota items).mem_iff.mp (hsub.subset ha)
  have hcount : ∀ l : List α, (l.map fun a =>
      if a ∈ raisedItems quota k items then (1 : Int) else 0).sum =
      (l.filter fun a => a ∈ raisedItems quota k items).length := by
    intro l
    induction l with
    | nil => rfl
    | cons a l ih => by_cases ha : a ∈ raisedItems quota k items <;> simp [ha, ih, add_comm]
  have hsplit : (items.map (allotted quota k items)).sum = _ := List.sum_map_add
  rw [hsplit, hcount, hraised.length_eq, (raisedItems_spec hquota hsum).1]
  ring

end LargestRemainders
variable {ι : Type} [Fintype ι] [DecidableEq ι]

/-- The fractions `f` are rounded by raising those in `raised`. -/
structure Rounds (f : ι → ℚ) (raised : Finset ι) (ε : ℚ) : Prop where
  lt_one : ∀ i, f i < 1
  sum : ∑ i, f i = raised.card
  le : ∀ i ∈ raised, ∀ j, j ∉ raised → f j ≤ f i + ε

namespace Rounds

variable {f : ι → ℚ} {raised : Finset ι} {ε : ℚ} {i j : ι}

/-- What the raised fractions in `s` lack to one each is made up by those that are not raised. -/
theorem card_le (h : Rounds f raised ε) {s : Finset ι} (hs : s ⊆ raised) :
    (s.card : ℚ) ≤ ∑ a ∈ s, f a + ∑ a ∈ raisedᶜ, f a := by
  have hsplit : ∑ a ∈ s, f a + ∑ a ∈ raised \ s, f a + ∑ a ∈ raisedᶜ, f a = raised.card := by
    rw [add_comm (∑ a ∈ s, f a), Finset.sum_sdiff hs, Finset.sum_add_sum_compl, h.sum]
  have hrest : ∑ a ∈ raised \ s, f a ≤ (raised \ s).card := by
    have hle := Finset.sum_le_card_nsmul (raised \ s) f 1 fun a _ => (h.lt_one a).le
    simpa using hle
  have hcard : ((raised \ s).card : ℚ) + s.card = raised.card := by
    exact_mod_cast Finset.card_sdiff_add_card_eq_card hs
  linarith

theorem sum_compl_le (h : Rounds f raised ε) (hi : i ∈ raised) :
    ∑ a ∈ raisedᶜ, f a ≤ raisedᶜ.card * (f i + ε) := by
  have hle := Finset.sum_le_card_nsmul raisedᶜ f (f i + ε)
    fun a ha => h.le i hi a (Finset.mem_compl.mp ha)
  rwa [nsmul_eq_mul] at hle

end Rounds

end EldrServing.Apportion
