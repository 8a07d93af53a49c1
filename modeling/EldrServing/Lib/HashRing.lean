import EldrServing.Lib.Py
import Mathlib.Data.List.Sort
import Mathlib.Data.List.MinMax

/-!
# Points on a ring

`bisectLeft` is the binary search of a sorted list for the first value that is not below a key.
A point `e` is the successor of `h` when it is the first point at or after `h`, or the first
point at all when there is none.
-/

namespace EldrServing.HashRing

set_option autoImplicit false

def bisectLoop (a : List Nat) (x : Nat) : Nat → Nat → Nat → Nat
  | 0, lo, _ => lo
  | fuel + 1, lo, hi =>
    if lo < hi then
      let mid := (lo + hi) / 2
      if a.getD mid 0 < x then bisectLoop a x fuel (mid + 1) hi else bisectLoop a x fuel lo mid
    else lo

/-- Each round shrinks the interval, so its length is enough fuel. -/
def bisectLeft (a : List Nat) (x : Nat) : Nat := bisectLoop a x a.length 0 a.length

/-- `i` splits the list at the key. -/
structure Splits (a : List Nat) (x i : Nat) : Prop where
  le_length : i ≤ a.length
  below : ∀ j y, j < i → a[j]? = some y → y < x
  above : ∀ j y, i ≤ j → a[j]? = some y → x ≤ y

theorem bisectLoop_splits {a : List Nat} (hsorted : a.Pairwise (· ≤ ·)) (x fuel lo hi : Nat)
    (hfuel : hi - lo ≤ fuel) (hlo : lo ≤ hi) (hhi : hi ≤ a.length)
    (hbelow : ∀ j y, j < lo → a[j]? = some y → y < x)
    (habove : ∀ j y, hi ≤ j → a[j]? = some y → x ≤ y) :
    Splits a x (bisectLoop a x fuel lo hi) := by
  induction fuel generalizing lo hi with
  | zero =>
    obtain rfl : lo = hi := by omega
    exact ⟨hhi, hbelow, habove⟩
  | succ fuel ih =>
    unfold bisectLoop
    split
    · next hlt =>
      have hmid : (lo + hi) / 2 < a.length := by omega
      have hget : a.getD ((lo + hi) / 2) 0 = a[(lo + hi) / 2] := by
        rw [List.getD_eq_getElem?_getD, List.getElem?_eq_getElem hmid, Option.getD_some]
      simp only [hget]
      split
      · next hval =>
        apply ih
        · omega
        · omega
        · exact hhi
        · intro j y hj hy
          obtain ⟨hjl, rfl⟩ := List.getElem?_eq_some_iff.mp hy
          rcases Nat.lt_or_ge j ((lo + hi) / 2) with hjm | hjm
          · exact lt_of_le_of_lt (List.pairwise_iff_getElem.mp hsorted _ _ hjl hmid hjm) hval
          · obtain rfl : j = (lo + hi) / 2 := by omega
            exact hval
        · exact habove
      · next hval =>
        apply ih
        · omega
        · omega
        · omega
        · exact hbelow
        · intro j y hj hy
          obtain ⟨hjl, rfl⟩ := List.getElem?_eq_some_iff.mp hy
          rcases Nat.lt_or_ge ((lo + hi) / 2) j with hjm | hjm
          · exact (Nat.le_of_not_lt hval).trans
              (List.pairwise_iff_getElem.mp hsorted _ _ hmid hjl hjm)
          · obtain rfl : j = (lo + hi) / 2 := by omega
            exact Nat.le_of_not_lt hval
    · obtain rfl : lo = hi := by omega
      exact ⟨hhi, hbelow, habove⟩

theorem bisectLeft_splits {a : List Nat} (hsorted : a.Pairwise (· ≤ ·)) (x : Nat) :
    Splits a x (bisectLeft a x) := by
  apply bisectLoop_splits hsorted
  · omega
  · omega
  · exact Nat.le_refl _
  · intro j y hj
    omega
  · intro j y hj hy
    obtain ⟨hjl, -⟩ := List.getElem?_eq_some_iff.mp hy
    omega

example : bisectLeft [1, 3, 4, 4, 8] 4 = 2 ∧ bisectLeft [1, 3, 4, 4, 8] 9 = 5 := by decide

section Successor

variable {π ρ : Type} [LinearOrder π] [LinearOrder ρ] (pos : π → Nat) (pos' : ρ → Nat)

structure IsSuccessor (points : List π) (h : Nat) (e : π) : Prop where
  mem : e ∈ points
  first : h ≤ pos e → ∀ p ∈ points, h ≤ pos p → e ≤ p
  wraps : pos e < h → ∀ p ∈ points, pos p < h ∧ e ≤ p

variable {pos pos'} {points points' : List π} {h : Nat} {e e' : π}

theorem IsSuccessor.unique (he : IsSuccessor pos points h e) (he' : IsSuccessor pos points h e') :
    e = e' := by
  rcases Nat.lt_or_ge (pos e) h with hlt | hge
  · have hlt' := (he.wraps hlt e' he'.mem).1
    exact le_antisymm (he.wraps hlt e' he'.mem).2 (he'.wraps hlt' e he.mem).2
  · rcases Nat.lt_or_ge (pos e') h with hlt' | hge'
    · have := (he'.wraps hlt' e he.mem).1
      omega
    · exact le_antisymm (he.first hge e' he'.mem hge') (he'.first hge' e he.mem hge)

/-- Points that go away or are renamed in order do not move the successor, unless it is one of
those that went away. -/
theorem IsSuccessor.comap {f : ρ → π} {points' : List ρ} {e' : ρ} (hf : StrictMono f)
    (hpos : ∀ p, pos (f p) = pos' p) (hsub : ∀ p ∈ points', f p ∈ points)
    (he : IsSuccessor pos points h (f e')) (hmem : e' ∈ points') :
    IsSuccessor pos' points' h e' := by
  constructor
  · exact hmem
  · intro hge p hp hp'
    rw [← hpos] at hge hp'
    exact hf.le_iff_le.mp (he.first hge (f p) (hsub p hp) hp')
  · intro hlt p hp
    rw [← hpos] at hlt ⊢
    obtain ⟨hlt', hle⟩ := he.wraps hlt (f p) (hsub p hp)
    exact ⟨hlt', hf.le_iff_le.mp hle⟩

theorem IsSuccessor.perm (hperm : points.Perm points') (he : IsSuccessor pos points h e) :
    IsSuccessor pos points' h e :=
  he.comap strictMono_id (fun _ => rfl) (fun _ hp => hperm.mem_iff.mpr hp) (hperm.mem_iff.mp he.mem)

theorem isSuccessor_bisectLeft (hpos : Monotone pos) (hsorted : points.Pairwise (· ≤ ·)) {i : Nat}
    (hi : i = bisectLeft (points.map pos) h)
    (hget : points[if points.length ≤ i then 0 else i]? = some e) :
    IsSuccessor pos points h e := by
  have hsorted' : (points.map pos).Pairwise (· ≤ ·) := hsorted.map pos fun _ _ hab => hpos hab
  have hs := bisectLeft_splits hsorted' h
  rw [← hi] at hs
  have hbelow : ∀ (j : Nat) p, j < i → points[j]? = some p → pos p < h := fun j p hj hp =>
    hs.below j (pos p) hj (by rw [List.getElem?_map, hp, Option.map_some])
  have habove : ∀ (j : Nat) p, i ≤ j → points[j]? = some p → h ≤ pos p := fun j p hj hp =>
    hs.above j (pos p) hj (by rw [List.getElem?_map, hp, Option.map_some])
  have hle : ∀ (k j : Nat) p q, k ≤ j → points[k]? = some p → points[j]? = some q → p ≤ q := by
    intro k j p q hkj hp hq
    obtain ⟨hk, rfl⟩ := List.getElem?_eq_some_iff.mp hp
    obtain ⟨hj, rfl⟩ := List.getElem?_eq_some_iff.mp hq
    rcases Nat.lt_or_eq_of_le hkj with hlt | rfl
    · exact List.pairwise_iff_getElem.mp hsorted _ _ hk hj hlt
    · exact le_refl _
  have hidx : ∀ p ∈ points, ∃ j : Nat, points[j]? = some p := fun p hp => List.getElem?_of_mem hp
  constructor
  · exact List.mem_of_getElem? hget
  · intro hge p hp hph
    obtain ⟨j, hj⟩ := hidx p hp
    split at hget
    · exact hle 0 j e p (Nat.zero_le j) hget hj
    · rcases Nat.lt_or_ge j i with hji | hij
      · have := hbelow j p hji hj
        omega
      · exact hle i j e p hij hget hj
  · intro hlt p hp
    obtain ⟨j, hj⟩ := hidx p hp
    split at hget
    · next hend =>
      have hjl := (List.getElem?_eq_some_iff.mp hj).1
      exact ⟨hbelow j p (by omega) hj, hle 0 j e p (Nat.zero_le j) hget hj⟩
    · have := habove i e (Nat.le_refl i) hget
      omega

end Successor

end EldrServing.HashRing
