import Mathlib.Data.List.Nodup
import Mathlib.Logic.Function.Basic

/-!
# Lists threaded through link maps

`succIn l` is the successor map that a list `l` of distinct nodes induces. A doubly linked
list whose `next` map is `succIn l` and whose `prev` map is `succIn l.reverse` threads
exactly `l`: both maps are undefined outside `l`. The lemmas say how such a map changes
when a node is taken out, put in, or a whole prefix is cut.
-/

namespace EldrServing.Linked

set_option autoImplicit false

open Function

universe u
variable {ν : Type u} [DecidableEq ν]

def succIn : List ν → ν → Option ν
  | [], _ => none
  | a :: l, c => if c = a then l.head? else succIn l c

@[simp] theorem succIn_nil (c : ν) : succIn [] c = none := rfl

@[simp] theorem succIn_cons_self (a : ν) (l : List ν) : succIn (a :: l) a = l.head? := by
  simp [succIn]

theorem succIn_cons_of_ne {a c : ν} (l : List ν) (h : c ≠ a) :
    succIn (a :: l) c = succIn l c := by
  simp [succIn, h]

theorem succIn_append_of_notMem {xs : List ν} {c : ν} (l : List ν) (h : c ∉ xs) :
    succIn (xs ++ l) c = succIn l c := by
  induction xs with
  | nil => rfl
  | cons a xs ih =>
    rw [List.mem_cons, not_or] at h
    rw [List.cons_append, succIn_cons_of_ne _ h.1, ih h.2]

theorem succIn_of_notMem {l : List ν} {c : ν} (h : c ∉ l) : succIn l c = none := by
  simpa using succIn_append_of_notMem [] h

theorem succIn_append_cons_self {xs : List ν} {a : ν} (l : List ν) (h : a ∉ xs) :
    succIn (xs ++ a :: l) a = l.head? := by
  rw [succIn_append_of_notMem _ h, succIn_cons_self]

theorem succIn_append_cons_of_notMem {l m m' : List ν} {z c : ν} (hz : c ≠ z)
    (hm : c ∉ m) (hm' : c ∉ m') : succIn (l ++ z :: m) c = succIn (l ++ z :: m') c := by
  induction l with
  | nil => rw [List.nil_append, List.nil_append, succIn_cons_of_ne _ hz, succIn_cons_of_ne _ hz,
      succIn_of_notMem hm, succIn_of_notMem hm']
  | cons a l ih =>
    by_cases h : c = a
    · subst h
      cases l <;> simp
    · rw [List.cons_append, List.cons_append, succIn_cons_of_ne _ h, succIn_cons_of_ne _ h, ih]

section Middle

variable {xs ys : List ν} {p x n : ν}

theorem succIn_of_ne_of_ne {c : ν} (hp : c ≠ p) (hx : c ≠ x) :
    succIn (xs ++ p :: x :: n :: ys) c = succIn (xs ++ p :: n :: ys) c := by
  induction xs with
  | nil => simp [succIn_cons_of_ne, hp, hx]
  | cons a xs ih =>
    by_cases h : c = a
    · subst h
      cases xs <;> simp
    · rw [List.cons_append, List.cons_append, succIn_cons_of_ne _ h, succIn_cons_of_ne _ h, ih]

/-- Bypassing `x` and clearing its link takes `x` out of the list. -/
theorem update_succIn_remove (h : (xs ++ p :: x :: n :: ys).Nodup) :
    update (update (succIn (xs ++ p :: x :: n :: ys)) p (some n)) x none =
      succIn (xs ++ p :: n :: ys) := by
  have hpx : p ≠ x := by rintro rfl; simp [List.nodup_append] at h
  have hp : p ∉ xs := fun hm => by simp [List.nodup_append] at h; exact (h.2.2 p hm).1 rfl
  have hx : x ∉ xs ++ p :: n :: ys := by
    simp [List.nodup_append] at h ⊢
    exact ⟨fun hm => (h.2.2 x hm).2.1 rfl, Ne.symm hpx, h.2.1.2.1.1, h.2.1.2.1.2⟩
  funext c
  by_cases hcx : c = x
  · subst hcx
    rw [update_self, succIn_of_notMem hx]
  · rw [update_of_ne hcx]
    by_cases hcp : c = p
    · subst hcp
      rw [update_self, succIn_append_cons_self _ hp]
      rfl
    · rw [update_of_ne hcp, succIn_of_ne_of_ne hcp hcx]

/-- Linking `x` between the neighbours `p` and `n` puts it into the list there. -/
theorem update_succIn_insert (h : (xs ++ p :: x :: n :: ys).Nodup) :
    update (update (succIn (xs ++ p :: n :: ys)) p (some x)) x (some n) =
      succIn (xs ++ p :: x :: n :: ys) := by
  have hp : p ∉ xs := fun hm => by simp [List.nodup_append] at h; exact (h.2.2 p hm).1 rfl
  have hx : x ∉ xs ++ [p] := by
    simp [List.nodup_append] at h ⊢
    exact ⟨fun hm => (h.2.2 x hm).2.1 rfl, fun hxp => h.2.1.1.1 hxp.symm⟩
  funext c
  by_cases hcx : c = x
  · subst hcx
    have := succIn_append_cons_self (n :: ys) hx
    rw [List.append_assoc] at this
    rw [update_self]
    exact this.symm
  · rw [update_of_ne hcx]
    by_cases hcp : c = p
    · subst hcp
      rw [update_self, succIn_append_cons_self _ hp]
      rfl
    · rw [update_of_ne hcp, succIn_of_ne_of_ne hcp hcx]

end Middle

def clearAll (as : List ν) (f : ν → Option ν) : ν → Option ν :=
  fun c => if c ∈ as then none else f c

theorem clearAll_cons (a : ν) (as : List ν) (f : ν → Option ν) :
    clearAll as (update f a none) = clearAll (a :: as) f := by
  funext c
  by_cases ha : c = a
  · subst ha
    simp [clearAll]
  · simp [clearAll, ha]

theorem update_clearAll_succIn {h n : ν} {as bs : List ν}
    (hn : (h :: (as ++ n :: bs)).Nodup) :
    update (clearAll as (succIn (h :: (as ++ n :: bs)))) h (some n) = succIn (h :: n :: bs) := by
  rw [List.nodup_cons] at hn
  funext c
  by_cases hc : c = h
  · subst hc
    rw [update_self, succIn_cons_self, List.head?_cons]
  · rw [update_of_ne hc, succIn_cons_of_ne _ hc, clearAll]
    by_cases hm : c ∈ as
    · have hnot : c ∉ n :: bs := fun hb =>
        (List.nodup_append.mp hn.2).2.2 c hm c hb rfl
      rw [if_pos hm, succIn_of_notMem hnot]
    · rw [if_neg hm, succIn_cons_of_ne _ hc, succIn_append_of_notMem _ hm]

theorem update_clearAll_succIn_reverse {h n : ν} {as bs : List ν}
    (hn : (h :: (as ++ n :: bs)).Nodup) :
    update (clearAll as (succIn (h :: (as ++ n :: bs)).reverse)) n (some h) =
      succIn (h :: n :: bs).reverse := by
  rw [List.nodup_cons] at hn
  have hsplit := List.nodup_append.mp hn.2
  have hnbs : n ∉ bs.reverse := fun hm =>
    (List.nodup_cons.mp hsplit.2.1).1 (List.mem_reverse.mp hm)
  have hfull : (h :: (as ++ n :: bs)).reverse = bs.reverse ++ n :: (as.reverse ++ [h]) := by simp
  have hcut : (h :: n :: bs).reverse = bs.reverse ++ n :: [h] := by simp
  rw [hfull, hcut]
  funext c
  by_cases hc : c = n
  · subst hc
    rw [update_self, succIn_append_cons_self _ hnbs, List.head?_cons]
  · rw [update_of_ne hc, clearAll]
    by_cases hm : c ∈ as
    · have hnot : c ∉ bs.reverse ++ n :: [h] := by
        simp only [List.mem_append, List.mem_reverse, List.mem_cons, List.not_mem_nil, or_false]
        rintro (hb | hb | hb)
        · exact hsplit.2.2 c hm c (List.mem_cons_of_mem _ hb) rfl
        · exact hc hb
        · exact hn.1 (hb ▸ List.mem_append_left _ hm)
      rw [if_pos hm, succIn_of_notMem hnot]
    · rw [if_neg hm]
      by_cases hh : c = h
      · subst hh
        have h1 : c ∉ bs.reverse ++ n :: as.reverse := by
          simp only [List.mem_append, List.mem_cons, List.mem_reverse] at hn ⊢
          tauto
        have h2 : c ∉ bs.reverse ++ [n] := by
          simp only [List.mem_append, List.mem_cons, List.mem_reverse] at hn ⊢
          tauto
        have e1 := succIn_append_of_notMem [c] h1
        have e2 := succIn_append_of_notMem [c] h2
        rw [List.append_assoc, List.cons_append] at e1
        rw [List.append_assoc] at e2
        exact e1.trans e2.symm
      · exact succIn_append_cons_of_notMem hc (by simp [hm, hh]) (by simp [hh])

end EldrServing.Linked
