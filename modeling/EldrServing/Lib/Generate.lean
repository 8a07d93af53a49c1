import Mathlib.Data.List.Basic

/-!
# Generating until a stop

A sequence grows by one element at a time, a function of what is there, until a stop rule ends
it. Whatever part of it two observers have seen, one has seen a prefix of what the other has.
-/

namespace EldrServing.Generate

set_option autoImplicit false

universe u v
variable {α : Type u} {ε : Type v} (next : List α → α) (stops : List α → Option ε)

/-- At most `k` rounds from the sequence `xs`, and how it ended. -/
def generate (xs : List α) : Nat → List α × Option ε
  | 0 => (xs, none)
  | k + 1 =>
    match stops (xs ++ [next xs]) with
    | some e => (xs ++ [next xs], some e)
    | none => generate (xs ++ [next xs]) k

@[simp] theorem generate_zero (xs : List α) : generate next stops xs 0 = (xs, none) := rfl

variable {next stops} {xs ys zs : List α} {e e' : ε} {j k : Nat}

theorem generate_succ_some (h : stops (xs ++ [next xs]) = some e) (k : Nat) :
    generate next stops xs (k + 1) = (xs ++ [next xs], some e) := by
  simp only [generate, h]

theorem generate_succ_none (h : stops (xs ++ [next xs]) = none) (k : Nat) :
    generate next stops xs (k + 1) = generate next stops (xs ++ [next xs]) k := by
  simp only [generate, h]

theorem generate_add (h : generate next stops xs j = (ys, none)) (k : Nat) :
    generate next stops xs (j + k) = generate next stops ys k := by
  induction j generalizing xs with
  | zero =>
    obtain ⟨rfl, -⟩ := Prod.mk.inj h
    rw [Nat.zero_add]
  | succ j ih =>
    cases hstop : stops (xs ++ [next xs]) with
    | some e =>
      rw [generate_succ_some hstop] at h
      cases h
    | none =>
      rw [generate_succ_none hstop] at h
      rw [Nat.add_right_comm, generate_succ_none hstop]
      exact ih h

theorem generate_ended (h : generate next stops xs j = (ys, some e)) (hle : j ≤ k) :
    generate next stops xs k = (ys, some e) := by
  induction j generalizing xs k with
  | zero => cases h
  | succ j ih =>
    obtain ⟨k, rfl⟩ : ∃ l, k = l + 1 := Nat.exists_eq_succ_of_ne_zero (by omega)
    cases hstop : stops (xs ++ [next xs]) with
    | some e' =>
      rw [generate_succ_some hstop] at h ⊢
      exact h
    | none =>
      rw [generate_succ_none hstop] at h ⊢
      exact ih h (Nat.le_of_succ_le_succ hle)

theorem generate_next (h : generate next stops xs k = (ys, none)) :
    generate next stops xs (k + 1) = (ys ++ [next ys], stops (ys ++ [next ys])) := by
  rw [generate_add h 1]
  cases hstop : stops (ys ++ [next ys]) with
  | some e => exact generate_succ_some hstop 0
  | none => exact generate_succ_none hstop 0

theorem prefix_generate (xs : List α) (k : Nat) : xs <+: (generate next stops xs k).1 := by
  induction k generalizing xs with
  | zero => exact List.prefix_refl xs
  | succ k ih =>
    cases hstop : stops (xs ++ [next xs]) with
    | some e =>
      rw [generate_succ_some hstop]
      exact List.prefix_append _ _
    | none =>
      rw [generate_succ_none hstop]
      exact (List.prefix_append _ _).trans (ih _)

theorem generate_self {o : Option ε} (h : generate next stops xs k = (xs, o)) : o = none := by
  cases k with
  | zero => exact (Prod.mk.inj h).2.symm
  | succ k =>
    have hlonger : xs ++ [next xs] <+: (generate next stops xs (k + 1)).1 := by
      cases hstop : stops (xs ++ [next xs]) with
      | some e =>
        simp only [generate_succ_some hstop, List.prefix_refl]
      | none =>
        rw [generate_succ_none hstop]
        exact prefix_generate _ _
    rw [h] at hlonger
    have hle : (xs ++ [next xs]).length ≤ xs.length := hlonger.length_le
    rw [List.length_append, List.length_singleton] at hle
    omega

theorem generate_prefix_of_le (xs : List α) (hle : j ≤ k) :
    (generate next stops xs j).1 <+: (generate next stops xs k).1 := by
  obtain ⟨ys, o, hj⟩ : ∃ ys o, generate next stops xs j = (ys, o) := ⟨_, _, rfl⟩
  cases o with
  | some e =>
    simp only [generate_ended hj hle, hj, List.prefix_refl]
  | none =>
    obtain ⟨l, rfl⟩ := Nat.exists_eq_add_of_le hle
    rw [generate_add hj, hj]
    exact prefix_generate ys l

/-- Two parts of one sequence: one is a prefix of the other. -/
theorem generate_comparable (next : List α → α) (stops : List α → Option ε) (xs : List α)
    (j k : Nat) :
    (generate next stops xs j).1 <+: (generate next stops xs k).1 ∨
      (generate next stops xs k).1 <+: (generate next stops xs j).1 := by
  rcases Nat.le_total j k with h | h
  · exact .inl (generate_prefix_of_le xs h)
  · exact .inr (generate_prefix_of_le xs h)

theorem prefix_of_ended (h : generate next stops xs j = (ys, some e)) (k : Nat) :
    (generate next stops xs k).1 <+: ys := by
  rcases Nat.le_total j k with hle | hle
  · simp only [generate_ended h hle, List.prefix_refl]
  · calc (generate next stops xs k).1 <+: (generate next stops xs j).1 :=
          generate_prefix_of_le xs hle
      _ = ys := by rw [h]

theorem ended_unique (h : generate next stops xs j = (ys, some e))
    (h' : generate next stops xs k = (zs, some e')) : ys = zs ∧ e = e' := by
  have heq : (ys, some e) = (zs, some e') := by
    rcases Nat.le_total j k with hle | hle
    · exact (generate_ended h hle).symm.trans h'
    · exact h.symm.trans (generate_ended h' hle)
  obtain ⟨rfl, he⟩ := Prod.mk.inj heq
  exact ⟨rfl, Option.some.inj he⟩

end EldrServing.Generate
