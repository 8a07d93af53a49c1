import Mathlib.Data.List.Nodup
import Mathlib.Algebra.BigOperators.Group.List.Basic
import Mathlib.Algebra.GroupWithZero.Nat

/-!
# Insertion-ordered dictionaries

A dictionary with the behaviour of Python's `dict`: a key occurs once, assigning to a
present key keeps its place and a new key goes to the end. Sums over the entries are
what reference counting needs.
-/

namespace EldrServing

set_option autoImplicit false

universe u v

structure Dict (κ : Type u) (ν : Type v) where
  entries : List (κ × ν)
  nodup : (entries.map Prod.fst).Nodup

namespace Dict

variable {κ : Type u} {ν : Type v}

def empty : Dict κ ν := ⟨[], List.nodup_nil⟩

def keys (d : Dict κ ν) : List κ := d.entries.map Prod.fst

def sumBy (f : κ → ν → Nat) (d : Dict κ ν) : Nat := (d.entries.map fun e => f e.1 e.2).sum

variable [DecidableEq κ]

def get? (d : Dict κ ν) (k : κ) : Option ν := (d.entries.find? fun e => e.1 = k).map Prod.snd

def getD (d : Dict κ ν) (k : κ) (default : ν) : ν := (d.get? k).getD default

def contains (d : Dict κ ν) (k : κ) : Bool := (d.get? k).isSome

def erase (d : Dict κ ν) (k : κ) : Dict κ ν :=
  ⟨d.entries.filter fun e => e.1 ≠ k, by
    exact d.nodup.sublist (List.filter_sublist.map Prod.fst)⟩

def filterKeys (p : κ → Bool) (d : Dict κ ν) : Dict κ ν :=
  ⟨d.entries.filter fun e => p e.1, d.nodup.sublist (List.filter_sublist.map Prod.fst)⟩

def setEntries (k : κ) (v : ν) : List (κ × ν) → List (κ × ν)
  | [] => [(k, v)]
  | e :: es => if e.1 = k then (k, v) :: es else e :: setEntries k v es

theorem setEntries_keys (k : κ) (v : ν) (es : List (κ × ν)) :
    (setEntries k v es).map Prod.fst =
      if k ∈ es.map Prod.fst then es.map Prod.fst else es.map Prod.fst ++ [k] := by
  induction es with
  | nil => simp [setEntries]
  | cons e es ih =>
    by_cases h : e.1 = k
    · simp [setEntries, h]
    · have h' : k ≠ e.1 := fun hk => h hk.symm
      simp only [setEntries, if_neg h, List.map_cons, ih, List.mem_cons, h', false_or]
      split <;> simp

def insert (d : Dict κ ν) (k : κ) (v : ν) : Dict κ ν :=
  ⟨setEntries k v d.entries, by
    rw [setEntries_keys]
    split
    · exact d.nodup
    · rename_i h
      exact List.nodup_append.mpr ⟨d.nodup, List.nodup_singleton k, by
        intro a ha b hb
        rw [List.mem_singleton.mp hb]
        rintro rfl
        exact h ha⟩⟩

theorem find_setEntries (k k' : κ) (v : ν) (es : List (κ × ν)) :
    ((setEntries k v es).find? fun e => e.1 = k').map Prod.snd =
      if k = k' then some v else (es.find? fun e => e.1 = k').map Prod.snd := by
  induction es with
  | nil => by_cases h : k = k' <;> simp [setEntries, h]
  | cons e es ih =>
    by_cases hk : e.1 = k
    · by_cases h : k = k'
      · simp [setEntries, hk, h]
      · have he : e.1 ≠ k' := fun h' => h (hk.symm.trans h')
        simp [setEntries, hk, h]
    · by_cases he : e.1 = k'
      · have h : k ≠ k' := fun h => hk (he.trans h.symm)
        rw [setEntries, if_neg hk, if_neg h]
        simp only [List.find?_cons, he, decide_true]
      · simpa [setEntries, hk, List.find?_cons, he] using ih

@[simp] theorem get?_empty (k : κ) : (empty : Dict κ ν).get? k = none := rfl

theorem get?_insert (d : Dict κ ν) (k k' : κ) (v : ν) :
    (d.insert k v).get? k' = if k = k' then some v else d.get? k' :=
  find_setEntries k k' v d.entries

@[simp] theorem get?_insert_self {d : Dict κ ν} {k : κ} {v : ν} :
    (d.insert k v).get? k = some v := by simp [get?_insert]

variable {k : κ} {d : Dict κ ν} {v : ν}

theorem get?_insert_ne {d : Dict κ ν} {k' : κ} {v : ν} (h : k ≠ k') :
    (d.insert k v).get? k' = d.get? k' := by simp [get?_insert, h]

theorem find_filter_ne (k k' : κ) (es : List (κ × ν)) :
    ((es.filter fun e => e.1 ≠ k).find? fun e => e.1 = k').map Prod.snd =
      if k = k' then none else (es.find? fun e => e.1 = k').map Prod.snd := by
  induction es with
  | nil => simp
  | cons e es ih =>
    by_cases hk : e.1 = k
    · by_cases h : k = k'
      · simp [h]
      · have he : e.1 ≠ k' := fun h' => h (hk.symm.trans h')
        simpa [hk, h, List.find?_cons, he] using ih
    · by_cases he : e.1 = k'
      · have h : k ≠ k' := fun h => hk (he.trans h.symm)
        rw [List.filter_cons_of_pos (by simpa using hk)]
        simp only [List.find?_cons, he, if_neg h, decide_true]
      · simpa [hk, List.find?_cons, he] using ih

theorem get?_erase (d : Dict κ ν) (k k' : κ) :
    (d.erase k).get? k' = if k = k' then none else d.get? k' :=
  find_filter_ne k k' d.entries

@[simp] theorem get?_erase_self {d : Dict κ ν} {k : κ} : (d.erase k).get? k = none := by
  simp [get?_erase]

theorem get?_erase_ne {d : Dict κ ν} {k' : κ} (h : k ≠ k') :
    (d.erase k).get? k' = d.get? k' := by simp [get?_erase, h]

theorem get?_eq_some_iff (d : Dict κ ν) (k : κ) (v : ν) :
    d.get? k = some v ↔ (k, v) ∈ d.entries := by
  obtain ⟨es, hn⟩ := d
  simp only [get?]
  induction es with
  | nil => simp
  | cons e es ih =>
    simp only [List.map_cons, List.nodup_cons] at hn
    have ih := ih hn.2
    by_cases h : e.1 = k
    · have hnot : (k, v) ∉ es := fun hm => hn.1 (h ▸ List.mem_map_of_mem hm)
      constructor
      · intro hs
        have : e.2 = v := by simpa [h] using hs
        exact List.mem_cons.mpr (Or.inl (by rw [← h, ← this]))
      · intro hm
        rcases List.mem_cons.mp hm with he | hm
        · simp [← he]
        · exact absurd hm hnot
    · have hne : (k, v) ≠ e := fun he => h (by rw [← he])
      simp only [List.find?_cons, h, decide_false, List.mem_cons, hne, false_or]
      exact ih

theorem mem_keys_iff {d : Dict κ ν} {k : κ} : k ∈ d.keys ↔ ∃ v, d.get? k = some v := by
  simp only [keys, List.mem_map, get?_eq_some_iff]
  constructor
  · rintro ⟨⟨a, b⟩, hm, rfl⟩
    exact ⟨b, hm⟩
  · rintro ⟨v, hm⟩
    exact ⟨(k, v), hm, rfl⟩

theorem get?_eq_none_iff (d : Dict κ ν) (k : κ) : d.get? k = none ↔ k ∉ d.keys := by
  rw [mem_keys_iff]
  cases d.get? k <;> simp

theorem keys_erase (d : Dict κ ν) (k : κ) : (d.erase k).keys = d.keys.filter (· ≠ k) := by
  simp only [keys, erase, List.filter_map, Function.comp_def]

theorem entries_erase_head {es : List (κ × ν)}
    (h : d.entries = (k, v) :: es) : (d.erase k).entries = es := by
  have hn := d.nodup
  rw [h, List.map_cons, List.nodup_cons] at hn
  have hne : ∀ e ∈ es, e.1 ≠ k := by
    intro e he hek
    have hmem : e.1 ∈ es.map Prod.fst := List.mem_map_of_mem he
    rw [hek] at hmem
    exact hn.1 hmem
  simpa [erase, h, List.filter_eq_self] using hne

theorem keys_insert_of_none (h : d.get? k = none) (v : ν) :
    (d.insert k v).keys = d.keys ++ [k] := by
  rw [get?_eq_none_iff] at h
  simp only [keys, insert, setEntries_keys] at h ⊢
  rw [if_neg h]

/-- Copying the entries whose key satisfies `p` into `d`, one by one. -/
theorem get?_foldl_insert_if (p : κ → Prop) [DecidablePred p] (es : List (κ × ν))
    (hes : (es.map Prod.fst).Nodup) (d : Dict κ ν) (k : κ) :
    (es.foldl (fun d e => if p e.1 then d.insert e.1 e.2 else d) d).get? k =
      if p k then ((es.find? fun e => e.1 = k).map Prod.snd).or (d.get? k) else d.get? k := by
  induction es generalizing d with
  | nil => simp
  | cons e es ih =>
    obtain ⟨hnot, hes⟩ := List.nodup_cons.mp hes
    rw [List.foldl_cons, ih hes]
    rcases eq_or_ne e.1 k with rfl | hne
    · have hfind : (es.find? fun e' => e'.1 = e.1) = none := by
        refine List.find?_eq_none.mpr fun e' he' hk => hnot ?_
        exact List.mem_map.mpr ⟨e', he', by simpa using hk⟩
      split
      · simp [hfind]
      · rfl
    · have hd : (if p e.1 then d.insert e.1 e.2 else d).get? k = d.get? k := by
        split
        · exact get?_insert_ne hne
        · rfl
      simp [hd, List.find?_cons, hne]

theorem get?_foldl_insert_of_mem {es : List (κ × ν)} (hes : (es.map Prod.fst).Nodup)
    (h : (k, v) ∈ es) (d : Dict κ ν) :
    (es.foldl (fun d e => d.insert e.1 e.2) d).get? k = some v := by
  have hfold := get?_foldl_insert_if (fun _ => True) es hes d k
  have hfind : (es.find? fun e => e.1 = k).map Prod.snd = some v :=
    (get?_eq_some_iff ⟨es, hes⟩ k v).mpr h
  simpa [hfind] using hfold

theorem get?_filterKeys (p : κ → Bool) (d : Dict κ ν) (k : κ) :
    (d.filterKeys p).get? k = if p k then d.get? k else none := by
  unfold get? filterKeys
  simp only
  generalize d.entries = es
  induction es with
  | nil => simp
  | cons e es ih =>
    rw [List.filter_cons]
    by_cases he : e.1 = k
    · subst he
      by_cases hp : p e.1 = true
      · simp [hp]
      · rw [if_neg hp, ih, if_neg hp, if_neg hp]
    · by_cases hp : p e.1 = true
      · simpa [hp, he] using ih
      · simpa [hp, he] using ih

theorem sum_filter_ne (f : κ → ν → Nat) (k : κ) (es : List (κ × ν))
    (hn : (es.map Prod.fst).Nodup) :
    (es.map fun e => f e.1 e.2).sum =
      ((es.filter fun e => e.1 ≠ k).map fun e => f e.1 e.2).sum +
        (((es.find? fun e => e.1 = k).map Prod.snd).map (f k)).getD 0 := by
  induction es with
  | nil => simp
  | cons e es ih =>
    simp only [List.map_cons, List.nodup_cons] at hn
    have ih := ih hn.2
    by_cases h : e.1 = k
    · have hnone : es.find? (fun e => e.1 = k) = none := by
        apply List.find?_eq_none.mpr
        intro x hx hxk
        exact hn.1 (by rw [h, ← of_decide_eq_true hxk]; exact List.mem_map_of_mem hx)
      simp [h, hnone] at ih ⊢
      omega
    · simp [h] at ih ⊢
      omega

theorem sumBy_eq_erase (f : κ → ν → Nat) (d : Dict κ ν) (k : κ) :
    d.sumBy f = (d.erase k).sumBy f + ((d.get? k).map (f k)).getD 0 :=
  sum_filter_ne f k d.entries d.nodup

theorem filter_setEntries (k : κ) (v : ν) (es : List (κ × ν)) :
    (setEntries k v es).filter (fun e => e.1 ≠ k) = es.filter fun e => e.1 ≠ k := by
  induction es with
  | nil => simp [setEntries]
  | cons e es ih =>
    by_cases h : e.1 = k
    · simp [setEntries, h]
    · simpa [setEntries, h] using ih

theorem erase_insert (d : Dict κ ν) (k : κ) (v : ν) : (d.insert k v).erase k = d.erase k := by
  simp only [erase, insert, filter_setEntries]

theorem setEntries_setEntries (k : κ) (v w : ν) (es : List (κ × ν)) :
    setEntries k w (setEntries k v es) = setEntries k w es := by
  induction es with
  | nil => simp [setEntries]
  | cons e es ih =>
    by_cases h : e.1 = k
    · simp [setEntries, h]
    · simpa [setEntries, h] using ih

theorem insert_insert (d : Dict κ ν) (k : κ) (v w : ν) :
    (d.insert k v).insert k w = d.insert k w := by
  simp only [insert, setEntries_setEntries]

theorem sumBy_insert (f : κ → ν → Nat) (d : Dict κ ν) (k : κ) (v : ν) :
    (d.insert k v).sumBy f = (d.erase k).sumBy f + f k v := by
  rw [sumBy_eq_erase f (d.insert k v) k, erase_insert, get?_insert_self]
  rfl

theorem sumBy_erase_of_some (f : κ → ν → Nat)
    (h : d.get? k = some v) : (d.erase k).sumBy f + f k v = d.sumBy f := by
  rw [sumBy_eq_erase f d k, h]
  rfl

theorem sumBy_insert_of_some (f : κ → ν → Nat) (h : d.get? k = some v) (w : ν) :
    (d.insert k w).sumBy f + f k v = d.sumBy f + f k w := by
  rw [sumBy_insert, ← sumBy_erase_of_some f h, Nat.add_right_comm]

theorem sumBy_insert_of_none (f : κ → ν → Nat) (h : d.get? k = none)
    (v : ν) : (d.insert k v).sumBy f = d.sumBy f + f k v := by
  rw [sumBy_insert, sumBy_eq_erase f d k, h]
  rfl

theorem sumBy_congr {f g : κ → ν → Nat} (d : Dict κ ν)
    (h : ∀ k v, d.get? k = some v → f k v = g k v) : d.sumBy f = d.sumBy g := by
  simp only [sumBy]
  congr 1
  apply List.map_congr_left
  intro e he
  exact h e.1 e.2 ((get?_eq_some_iff d e.1 e.2).mpr he)

theorem le_sumBy (f : κ → ν → Nat) (h : d.get? k = some v) :
    f k v ≤ d.sumBy f := by
  rw [sumBy_eq_erase f d k, h]
  simp

end Dict

end EldrServing
