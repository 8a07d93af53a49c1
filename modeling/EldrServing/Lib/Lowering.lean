import Mathlib.Order.Bounds.Basic

/-!
# Lowering a candidate to a common member

A candidate is passed along a list of sets, and each set lowers it to its own greatest member
below it. A candidate that comes back unchanged is the greatest common member below the start.
-/

namespace EldrServing.Lowering

set_option autoImplicit false

universe u
variable {α : Type u}

/-- One pass over the sets, from `n` to `k`. -/
inductive Lowers [Preorder α] : List (Set α) → α → α → Prop
  | nil (n : α) : Lowers [] n n
  | cons {A : Set α} {As : List (Set α)} {n m k : α} (head : IsGreatest (A ∩ Set.Iic n) m)
      (tail : Lowers As m k) : Lowers (A :: As) n k

section Preorder

variable [Preorder α] {As Bs : List (Set α)} {n m k x : α}

theorem Lowers.le (h : Lowers As n k) : k ≤ n := by
  induction h with
  | nil n => exact le_rfl
  | cons head _ ih => exact ih.trans head.1.2

/-- No common member is passed over. -/
theorem Lowers.common_le (h : Lowers As n k) (hx : ∀ A ∈ As, x ∈ A) (hle : x ≤ n) : x ≤ k := by
  induction h with
  | nil n => exact hle
  | cons head _ ih =>
    apply ih
    · exact fun A hA => hx A (List.mem_cons_of_mem _ hA)
    · exact head.2 ⟨hx _ List.mem_cons_self, hle⟩

theorem Lowers.exists_mem (h : Lowers As n k) (hne : As ≠ []) : ∃ A ∈ As, k ∈ A := by
  induction h with
  | nil n => exact absurd rfl hne
  | @cons A As n m k head tail ih =>
    cases As with
    | nil =>
      cases tail
      exact ⟨A, List.mem_cons_self, head.1.1⟩
    | cons B Bs =>
      obtain ⟨C, hC, hk⟩ := ih (List.cons_ne_nil B Bs)
      exact ⟨C, List.mem_cons_of_mem A hC, hk⟩

end Preorder

section PartialOrder

variable [PartialOrder α] {As : List (Set α)} {n k : α}

/-- A pass that changes nothing has found a common member. -/
theorem Lowers.mem_of_le (h : Lowers As n k) (hle : n ≤ k) : ∀ A ∈ As, n ∈ A := by
  induction h with
  | nil n => simp
  | @cons A As n m k head tail ih =>
    obtain rfl : m = n := le_antisymm head.1.2 (hle.trans tail.le)
    intro B hB
    rcases List.mem_cons.mp hB with rfl | hB
    · exact head.1.1
    · exact ih hle B hB

/-- The fixed point of the passes, started above every common member below `max`. -/
theorem Lowers.isGreatest_of_le {max : α} (h : Lowers As n k) (hle : n ≤ k) (hmax : n ≤ max)
    (hup : ∀ x, (∀ A ∈ As, x ∈ A) → x ≤ max → x ≤ n) :
    IsGreatest {x | (∀ A ∈ As, x ∈ A) ∧ x ≤ max} n :=
  ⟨⟨h.mem_of_le hle, hmax⟩, fun x hx => hup x hx.1 hx.2⟩

end PartialOrder

end EldrServing.Lowering
