import Mathlib.Analysis.Real.Sqrt
import Mathlib.Algebra.BigOperators.Ring.List
import Mathlib.Tactic.Linarith
import Mathlib.Tactic.Ring

/-!
# Vectors of real numbers as lists

Inner product and Euclidean norm in exact arithmetic. A product of vectors of different lengths
uses the common part; the lemmas about sums ask for equal lengths.
-/

namespace EldrServing.RealVec

set_option autoImplicit false

noncomputable section

def dot (a b : List ℝ) : ℝ := (List.zipWith (· * ·) a b).sum

def norm (a : List ℝ) : ℝ := √(dot a a)

def divBy (r : ℝ) (a : List ℝ) : List ℝ := a.map (· / r)

def add (a b : List ℝ) : List ℝ := List.zipWith (· + ·) a b

@[simp] theorem dot_nil_left (b : List ℝ) : dot [] b = 0 := by simp [dot]

@[simp] theorem dot_nil_right (a : List ℝ) : dot a [] = 0 := by simp [dot]

@[simp] theorem dot_cons (x y : ℝ) (a b : List ℝ) : dot (x :: a) (y :: b) = x * y + dot a b := by
  simp [dot]

theorem dot_comm (a b : List ℝ) : dot a b = dot b a := by
  induction a generalizing b with
  | nil => simp
  | cons x a ih =>
    cases b with
    | nil => simp
    | cons y b => rw [dot_cons, dot_cons, ih, mul_comm]

theorem dot_map_mul (r : ℝ) (a b : List ℝ) : dot (a.map (r * ·)) b = r * dot a b := by
  induction a generalizing b with
  | nil => simp
  | cons x a ih =>
    cases b with
    | nil => simp
    | cons y b =>
      rw [List.map_cons, dot_cons, dot_cons, ih]
      ring

theorem divBy_eq (r : ℝ) (a : List ℝ) : divBy r a = a.map (r⁻¹ * ·) := by
  simp only [divBy, div_eq_inv_mul]

@[simp] theorem length_divBy (r : ℝ) (a : List ℝ) : (divBy r a).length = a.length := by
  simp [divBy]

theorem divBy_one (a : List ℝ) : divBy 1 a = a := by
  simp [divBy]

theorem dot_divBy_left (r : ℝ) (a b : List ℝ) : dot (divBy r a) b = dot a b / r := by
  rw [divBy_eq, dot_map_mul, div_eq_inv_mul]

theorem dot_divBy_right (r : ℝ) (a b : List ℝ) : dot a (divBy r b) = dot a b / r := by
  rw [dot_comm, dot_divBy_left, dot_comm]

theorem dot_self_nonneg (a : List ℝ) : 0 ≤ dot a a := by
  induction a with
  | nil => simp
  | cons x a ih =>
    rw [dot_cons]
    exact add_nonneg (mul_self_nonneg x) ih

theorem norm_nonneg (a : List ℝ) : 0 ≤ norm a := Real.sqrt_nonneg _

theorem norm_sq (a : List ℝ) : norm a ^ 2 = dot a a := Real.sq_sqrt (dot_self_nonneg a)

theorem norm_map_mul (r : ℝ) (a : List ℝ) : norm (a.map (r * ·)) = |r| * norm a := by
  have hdot : dot (a.map (r * ·)) (a.map (r * ·)) = r ^ 2 * dot a a := by
    rw [dot_map_mul, dot_comm, dot_map_mul]
    ring
  rw [norm, hdot, Real.sqrt_mul (sq_nonneg r), Real.sqrt_sq_eq_abs, norm]

theorem norm_divBy {r : ℝ} (hr : 0 < r) (a : List ℝ) : norm (divBy r a) = norm a / r := by
  rw [divBy_eq, norm_map_mul, abs_of_pos (inv_pos.mpr hr), div_eq_inv_mul]

theorem dot_replicate_zero (n : Nat) (b : List ℝ) : dot (List.replicate n 0) b = 0 := by
  induction n generalizing b with
  | zero => simp
  | succ n ih =>
    cases b with
    | nil => simp
    | cons y b =>
      rw [List.replicate_succ, dot_cons, ih]
      ring

theorem dot_sq_le (a b : List ℝ) : dot a b ^ 2 ≤ dot a a * dot b b := by
  induction a generalizing b with
  | nil => simp
  | cons x a ih =>
    cases b with
    | nil => simp
    | cons y b =>
      simp only [dot_cons]
      have hrest := ih b
      have ha := dot_self_nonneg a
      have hb := dot_self_nonneg b
      generalize dot a a = A at *
      generalize dot b b = B at *
      generalize dot a b = S at *
      -- the mixed term is at most the sum of the two mixed squares
      have hmixed : (2 * x * y * S) ^ 2 ≤ (x ^ 2 * B + y ^ 2 * A) ^ 2 := by
        have hscaled := mul_le_mul_of_nonneg_left hrest (sq_nonneg (x * y))
        nlinarith only [hscaled, sq_nonneg (x ^ 2 * B - y ^ 2 * A)]
      have hsum : 0 ≤ x ^ 2 * B + y ^ 2 * A :=
        add_nonneg (mul_nonneg (sq_nonneg x) hb) (mul_nonneg (sq_nonneg y) ha)
      have hle := (abs_le_of_sq_le_sq' hmixed hsum).2
      nlinarith only [hle, hrest]

theorem dot_le_norm_mul_norm (a b : List ℝ) : dot a b ≤ norm a * norm b := by
  have hsq : dot a b ^ 2 ≤ (norm a * norm b) ^ 2 := by
    rw [mul_pow, norm_sq, norm_sq]
    exact dot_sq_le a b
  exact (abs_le_of_sq_le_sq' hsq (mul_nonneg (norm_nonneg a) (norm_nonneg b))).2

@[simp] theorem length_add (a b : List ℝ) : (add a b).length = min a.length b.length := by
  simp [add]

variable {d : Nat} {rows : List (List ℝ)} {a b : List ℝ}

theorem dot_add_left (hlen : a.length = b.length) (c : List ℝ) :
    dot (add a b) c = dot a c + dot b c := by
  induction a generalizing b c with
  | nil =>
    obtain rfl := List.length_eq_zero_iff.mp hlen.symm
    simp [add]
  | cons x a ih =>
    cases b with
    | nil => simp at hlen
    | cons y b =>
      cases c with
      | nil => simp
      | cons z c =>
        have hrest := ih (by simpa using hlen) c
        rw [add] at hrest
        rw [add, List.zipWith_cons_cons, dot_cons, dot_cons, dot_cons, hrest]
        ring

def sumRows (d : Nat) (rows : List (List ℝ)) : List ℝ := rows.foldr add (List.replicate d 0)

theorem length_sumRows (hrows : ∀ row ∈ rows, row.length = d) :
    (sumRows d rows).length = d := by
  induction rows with
  | nil => simp [sumRows]
  | cons row rows ih =>
    have hrest := ih fun r hr => hrows r (List.mem_cons_of_mem row hr)
    rw [sumRows] at hrest
    rw [sumRows, List.foldr_cons, length_add, hrest, hrows row List.mem_cons_self, min_self]

theorem dot_sumRows (hrows : ∀ row ∈ rows, row.length = d)
    (c : List ℝ) : dot (sumRows d rows) c = (rows.map (dot · c)).sum := by
  induction rows with
  | nil => simp [sumRows, dot_replicate_zero]
  | cons row rows ih =>
    have htail : ∀ r ∈ rows, r.length = d := fun r hr => hrows r (List.mem_cons_of_mem row hr)
    have hlen : row.length = (sumRows d rows).length := by
      rw [hrows row List.mem_cons_self, length_sumRows htail]
    rw [List.map_cons, List.sum_cons, ← ih htail, ← dot_add_left hlen]
    rfl

theorem dot_nonneg (ha : ∀ x ∈ a, 0 ≤ x) (hb : ∀ y ∈ b, 0 ≤ y) : 0 ≤ dot a b := by
  induction a generalizing b with
  | nil => simp
  | cons x a ih =>
    cases b with
    | nil => simp
    | cons y b =>
      rw [dot_cons]
      have hxy := mul_nonneg (ha x List.mem_cons_self) (hb y List.mem_cons_self)
      have hrest := ih (fun z hz => ha z (List.mem_cons_of_mem x hz))
        fun z hz => hb z (List.mem_cons_of_mem y hz)
      exact add_nonneg hxy hrest

theorem add_entries_nonneg (ha : ∀ x ∈ a, 0 ≤ x) (hb : ∀ y ∈ b, 0 ≤ y) :
    ∀ z ∈ add a b, 0 ≤ z := by
  induction a generalizing b with
  | nil => simp [add]
  | cons x a ih =>
    cases b with
    | nil => simp [add]
    | cons y b =>
      intro z hz
      rw [add, List.zipWith_cons_cons] at hz
      rcases List.mem_cons.mp hz with rfl | hz
      · exact add_nonneg (ha x List.mem_cons_self) (hb y List.mem_cons_self)
      · exact ih (fun w hw => ha w (List.mem_cons_of_mem x hw))
          (fun w hw => hb w (List.mem_cons_of_mem y hw)) z hz

theorem sumRows_entries_nonneg
    (hrows : ∀ row ∈ rows, ∀ x ∈ row, 0 ≤ x) : ∀ z ∈ sumRows d rows, 0 ≤ z := by
  induction rows with
  | nil =>
    intro z hz
    exact (List.eq_of_mem_replicate hz).ge
  | cons row rows ih =>
    exact add_entries_nonneg (hrows row List.mem_cons_self)
      (ih fun r hr => hrows r (List.mem_cons_of_mem row hr))

/-- Vectors without negative entries do not cancel: the square of the norm of the sum of unit
vectors is at least their number. -/
theorem length_le_dot_sumRows
    (hlength : ∀ row ∈ rows, row.length = d) (hunit : ∀ row ∈ rows, norm row = 1)
    (hrows : ∀ row ∈ rows, ∀ x ∈ row, 0 ≤ x) :
    (rows.length : ℝ) ≤ dot (sumRows d rows) (sumRows d rows) := by
  induction rows with
  | nil => simp [dot_self_nonneg]
  | cons row rows ih =>
    have htail : ∀ r ∈ rows, r ∈ row :: rows := fun r hr => List.mem_cons_of_mem row hr
    have hrest := ih (fun r hr => hlength r (htail r hr)) (fun r hr => hunit r (htail r hr))
      fun r hr => hrows r (htail r hr)
    have hlen : row.length = (sumRows d rows).length := by
      rw [hlength row List.mem_cons_self, length_sumRows fun r hr => hlength r (htail r hr)]
    have hone : dot row row = 1 := by
      rw [← norm_sq, hunit row List.mem_cons_self, one_pow]
    have hcross : 0 ≤ dot row (sumRows d rows) := dot_nonneg (hrows row List.mem_cons_self)
      (sumRows_entries_nonneg fun r hr => hrows r (htail r hr))
    have hsum : dot (add row (sumRows d rows)) (add row (sumRows d rows)) =
        dot row row + 2 * dot row (sumRows d rows) + dot (sumRows d rows) (sumRows d rows) := by
      rw [dot_add_left hlen, dot_comm row, dot_add_left hlen, dot_comm (sumRows d rows) (add _ _),
        dot_add_left hlen, dot_comm (sumRows d rows) row]
      ring
    rw [show sumRows d (row :: rows) = add row (sumRows d rows) from rfl, hsum, hone,
      List.length_cons, Nat.cast_succ]
    linarith

end

end EldrServing.RealVec
