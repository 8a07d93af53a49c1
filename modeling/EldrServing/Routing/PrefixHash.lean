import EldrServing.Lib.Py
import EldrServing.Lib.HashRing
import Mathlib.Data.Prod.Lex
import Mathlib.Data.Rat.Defs
import Mathlib.Algebra.Order.Field.Basic
import Mathlib.Algebra.Order.BigOperators.Group.List
import Mathlib.Tactic.NormNum

/-!
# The prefix-hash router of the prefill workers

Every worker has `vnodesPerWorker` points on a ring; a key belongs to the worker of the first
point at or after the hash of its first bytes. That worker is kept while its load is at most the
load factor times the average, and the least loaded worker is chosen otherwise.

The hash function is a parameter, and so is the rounding `rnd` of a float operation. Exact
arithmetic is the case where it is the identity.
-/

namespace EldrServing.Routing

open HashRing

set_option autoImplicit false

abbrev Bytes := List UInt8

/-- A ring entry `(position, worker index)`, compared as Python compares tuples. -/
abbrev Point := Nat ×ₗ Nat

def Point.position (p : Point) : Nat := (ofLex p).1
def Point.worker (p : Point) : Nat := (ofLex p).2

def vnodeLabel (url : String) (v : Nat) : Bytes := (url ++ "#" ++ toString v).toUTF8.data.toList

def ringEntries (hash64 : Bytes → Nat) (workerUrls : List String) (vnodesPerWorker : Nat) :
    List Point :=
  workerUrls.zipIdx.flatMap fun (url, wIdx) =>
    (List.range vnodesPerWorker).map fun v => toLex (hash64 (vnodeLabel url v), wIdx)

structure PrefixHashRouter where
  workerUrls : List String
  prefixByteCount : Nat
  loadFactor : ℚ
  ringPos : List Nat
  ringIdx : List Nat

namespace PrefixHashRouter

def init (hash64 : Bytes → Nat) (workerUrls : List String) (prefixByteCount : Int)
    (loadFactor : ℚ) (vnodesPerWorker : Nat) : Except PyError PrefixHashRouter :=
  if workerUrls = [] then .error (.valueError "worker_urls must be non-empty")
  else if prefixByteCount ≤ 0 then .error (.valueError "prefix_byte_count must be positive")
  else if loadFactor < 1 then .error (.valueError "load_factor must be finite and >= 1.0")
  else
    let entries := (ringEntries hash64 workerUrls vnodesPerWorker).insertionSort (· ≤ ·)
    .ok { workerUrls
          prefixByteCount := prefixByteCount.toNat
          loadFactor
          ringPos := entries.map Point.position
          ringIdx := entries.map Point.worker }

/-- `min(workers, key=lambda i: (loads[i], i))`. -/
def leastLoaded (loads : List Nat) : Except PyError Nat :=
  match (List.range loads.length).argmin fun i => toLex (loads.getD i 0, i) with
  | some i => .ok i
  | none => .error (.valueError "min() iterable argument is empty")

def ringLookup (router : PrefixHashRouter) (h : Nat) : Except PyError Nat :=
  let i := bisectLeft router.ringPos h
  let i := if router.ringPos.length ≤ i then 0 else i
  match router.ringIdx[i]? with
  | some w => .ok w
  | none => .error (.indexError "list index out of range")

def threshold (rnd : ℚ → ℚ) (router : PrefixHashRouter) (loads : List Nat) : ℚ :=
  let total := loads.sum + 1
  let avg := rnd (total / router.workerUrls.length)
  rnd (avg * router.loadFactor)

def select (hash64 : Bytes → Nat) (rnd : ℚ → ℚ) (router : PrefixHashRouter) (key : Bytes)
    (loads : List Nat) : Except PyError Nat := do
  if loads.length ≠ router.workerUrls.length then
    .error (.valueError "loads length must equal number of workers")
  else if key = [] then leastLoaded loads
  else
    let h := hash64 (key.take router.prefixByteCount)
    let initial ← router.ringLookup h
    if (loads.getD initial 0 : ℚ) ≤ router.threshold rnd loads then .ok initial
    else leastLoaded loads

end PrefixHashRouter

/-- `w` owns `h`: the first ring point at or after `h`, wrapping at the end, is one of its. -/
def Owner (hash64 : Bytes → Nat) (workerUrls : List String) (vnodesPerWorker h w : Nat) : Prop :=
  ∃ p, IsSuccessor Point.position (ringEntries hash64 workerUrls vnodesPerWorker) h p ∧
    p.worker = w

section Entries

variable {hash64 : Bytes → Nat} {workerUrls : List String} {vnodes h w : Nat} {p : Point}

theorem mem_ringEntries : p ∈ ringEntries hash64 workerUrls vnodes ↔
    ∃ url, workerUrls[p.worker]? = some url ∧
      ∃ v < vnodes, hash64 (vnodeLabel url v) = p.position := by
  simp only [ringEntries, List.mem_flatMap, List.mem_map, List.mem_range, Prod.exists]
  constructor
  · rintro ⟨url, i, hmem, v, hv, rfl⟩
    exact ⟨url, List.mk_mem_zipIdx_iff_getElem?.mp hmem, v, hv, rfl⟩
  · rintro ⟨url, hurl, v, hv, hpos⟩
    exact ⟨url, p.worker, List.mk_mem_zipIdx_iff_getElem?.mpr hurl, v, hv, by rw [hpos]; rfl⟩

theorem Owner.unique {w' : Nat} (hw : Owner hash64 workerUrls vnodes h w)
    (hw' : Owner hash64 workerUrls vnodes h w') : w = w' := by
  obtain ⟨p, hp, rfl⟩ := hw
  obtain ⟨p', hp', rfl⟩ := hw'
  rw [hp.unique hp']

theorem position_monotone : Monotone Point.position := fun _ _ hpq => Prod.Lex.monotone_fst _ _ hpq

/-- The index a worker had before the worker `j` was taken out of the list. -/
def formerIndex (j w : Nat) : Nat := if w < j then w else w + 1

theorem formerIndex_strictMono (j : Nat) : StrictMono (formerIndex j) := by
  intro a b hab
  unfold formerIndex
  split <;> split <;> omega

theorem exists_formerIndex {j : Nat} (hw : w ≠ j) : ∃ w', formerIndex j w' = w := by
  unfold formerIndex
  rcases Nat.lt_or_gt_of_ne hw with hlt | hgt
  · exact ⟨w, if_pos hlt⟩
  · exact ⟨w - 1, by rw [if_neg (by omega)]; omega⟩

theorem getElem?_eraseIdx_formerIndex {α : Type} (l : List α) (j w : Nat) :
    (l.eraseIdx j)[w]? = l[formerIndex j w]? := by
  rw [List.getElem?_eraseIdx, formerIndex]
  split <;> rfl

def formerPoint (j : Nat) (p : Point) : Point := toLex (p.position, formerIndex j p.worker)

theorem formerPoint_strictMono (j : Nat) : StrictMono (formerPoint j) := by
  intro p q hpq
  rcases Prod.Lex.lt_iff.mp hpq with hlt | ⟨heq, hlt⟩
  · exact Prod.Lex.lt_iff.mpr (.inl hlt)
  · exact Prod.Lex.lt_iff.mpr (.inr ⟨heq, formerIndex_strictMono j hlt⟩)

theorem Owner.eraseIdx {j : Nat} (hown : Owner hash64 workerUrls vnodes h (formerIndex j w)) :
    Owner hash64 (workerUrls.eraseIdx j) vnodes h w := by
  obtain ⟨p, hp, hworker⟩ := hown
  have hback : formerPoint j (toLex (p.position, w)) = p := by
    rw [formerPoint, show Point.worker (toLex (p.position, w)) = w from rfl, ← hworker]
    rfl
  have hsub : ∀ q ∈ ringEntries hash64 (workerUrls.eraseIdx j) vnodes,
      formerPoint j q ∈ ringEntries hash64 workerUrls vnodes := by
    intro q hq
    obtain ⟨url, hurl, hv⟩ := mem_ringEntries.mp hq
    rw [getElem?_eraseIdx_formerIndex] at hurl
    exact mem_ringEntries.mpr ⟨url, hurl, hv⟩
  have hmem : toLex (p.position, w) ∈ ringEntries hash64 (workerUrls.eraseIdx j) vnodes := by
    obtain ⟨url, hurl, hv⟩ := mem_ringEntries.mp hp.mem
    rw [hworker, ← getElem?_eraseIdx_formerIndex] at hurl
    exact mem_ringEntries.mpr ⟨url, hurl, hv⟩
  rw [← hback] at hp
  have hpos : ∀ q, (formerPoint j q).position = q.position := fun _ => rfl
  exact ⟨_, hp.comap (formerPoint_strictMono j) hpos hsub hmem, rfl⟩

end Entries

namespace PrefixHashRouter

section Select

variable {hash64 : Bytes → Nat} {workerUrls : List String} {prefixByteCount : Int} {loadFactor : ℚ}
  {vnodes : Nat} {router : PrefixHashRouter} {loads : List Nat}

theorem init_ok
    (hinit : init hash64 workerUrls prefixByteCount loadFactor vnodes = .ok router) :
    workerUrls ≠ [] ∧ 0 < prefixByteCount ∧ 1 ≤ loadFactor ∧ router.workerUrls = workerUrls ∧
      router.prefixByteCount = prefixByteCount.toNat ∧ router.loadFactor = loadFactor ∧
      router.ringPos = ((ringEntries hash64 workerUrls vnodes).insertionSort (· ≤ ·)).map
        Point.position ∧
      router.ringIdx = ((ringEntries hash64 workerUrls vnodes).insertionSort (· ≤ ·)).map
        Point.worker := by
  unfold init at hinit
  split at hinit
  · cases hinit
  · next hurls =>
    split at hinit
    · cases hinit
    · next hbytes =>
      split at hinit
      · cases hinit
      · next hfactor =>
        obtain rfl := Except.ok.inj hinit
        exact ⟨hurls, Int.not_le.mp hbytes, not_lt.mp hfactor, rfl, rfl, rfl, rfl, rfl⟩

theorem ringLookup_owner (hvnodes : 1 ≤ vnodes)
    (hinit : init hash64 workerUrls prefixByteCount loadFactor vnodes = .ok router) (h : Nat) :
    ∃ w, router.ringLookup h = .ok w ∧ w < workerUrls.length ∧
      Owner hash64 workerUrls vnodes h w := by
  obtain ⟨hne, -, -, -, -, -, hpos, hidx⟩ := init_ok hinit
  have hperm := List.perm_insertionSort (· ≤ ·) (ringEntries hash64 workerUrls vnodes)
  have hsorted := List.pairwise_insertionSort (· ≤ ·) (ringEntries hash64 workerUrls vnodes)
  set entries := (ringEntries hash64 workerUrls vnodes).insertionSort (· ≤ ·)
  have hentries : 0 < entries.length := by
    rw [hperm.length_eq]
    obtain ⟨url, urls, rfl⟩ := List.exists_cons_of_ne_nil hne
    apply List.length_pos_of_mem (a := toLex (hash64 (vnodeLabel url 0), 0))
    exact mem_ringEntries.mpr ⟨url, rfl, 0, hvnodes, rfl⟩
  unfold ringLookup
  rw [hpos, hidx]
  simp only [List.length_map, List.getElem?_map]
  set i := bisectLeft (entries.map Point.position) h with hi
  have hlt : (if entries.length ≤ i then 0 else i) < entries.length := by
    split <;> omega
  have hget := List.getElem?_eq_getElem hlt
  have hsucc := (isSuccessor_bisectLeft position_monotone hsorted hi hget).perm hperm
  obtain ⟨url, hurl, -⟩ := mem_ringEntries.mp hsucc.mem
  rw [hget]
  exact ⟨_, rfl, (List.getElem?_eq_some_iff.mp hurl).1, _, hsucc, rfl⟩

theorem leastLoaded_spec (hne : loads ≠ []) :
    ∃ w load, leastLoaded loads = .ok w ∧ loads[w]? = some load ∧ ∀ x ∈ loads, load ≤ x := by
  unfold leastLoaded
  cases hmin : (List.range loads.length).argmin fun i => toLex (loads.getD i 0, i) with
  | none => exact absurd (List.range_eq_nil.mp (List.argmin_eq_none.mp hmin)) (by simpa using hne)
  | some w =>
    have hw : w < loads.length := List.mem_range.mp (List.argmin_mem hmin)
    refine ⟨w, loads[w], rfl, List.getElem?_eq_getElem hw, ?_⟩
    intro x hx
    obtain ⟨i, hi, rfl⟩ := List.getElem_of_mem hx
    have hle := List.le_of_mem_argmin (List.mem_range.mpr hi) hmin
    have hfst := Prod.Lex.monotone_fst _ _ hle
    simpa [hw, hi] using hfst

theorem le_threshold_of_min {rnd : ℚ → ℚ} (hmono : Monotone rnd)
    (hlen : loads.length = router.workerUrls.length) (hfactor : 1 ≤ router.loadFactor) {load : Nat}
    (hmem : load ∈ loads) (hload : rnd load = load) (hmin : ∀ x ∈ loads, load ≤ x) :
    (load : ℚ) ≤ router.threshold rnd loads := by
  have hsum : loads.length * load ≤ loads.sum := by
    simpa using List.card_nsmul_le_sum loads load hmin
  have hn : (0 : ℚ) < loads.length := by
    exact_mod_cast List.length_pos_of_mem hmem
  have havg : (load : ℚ) ≤ ((loads.sum + 1 : Nat) : ℚ) / router.workerUrls.length := by
    rw [← hlen, le_div_iff₀ hn]
    have : load * loads.length ≤ loads.sum + 1 := by
      rw [Nat.mul_comm]
      omega
    exact_mod_cast this
  have hrounded : (load : ℚ) ≤ rnd (((loads.sum + 1 : Nat) : ℚ) / router.workerUrls.length) := by
    rw [← hload]
    exact hmono havg
  have hscaled : (load : ℚ) ≤
      rnd (((loads.sum + 1 : Nat) : ℚ) / router.workerUrls.length) * router.loadFactor := by
    refine hrounded.trans (le_mul_of_one_le_right ?_ hfactor)
    exact (Nat.cast_nonneg load).trans hrounded
  calc (load : ℚ) = rnd load := hload.symm
    _ ≤ router.threshold rnd loads := hmono hscaled

theorem select_of_owner {rnd : ℚ → ℚ} {key : Bytes} {o : Nat}
    (hlen : loads.length = router.workerUrls.length) (hkey : key ≠ [])
    (hlookup : router.ringLookup (hash64 (key.take router.prefixByteCount)) = .ok o) :
    router.select hash64 rnd key loads =
      if (loads.getD o 0 : ℚ) ≤ router.threshold rnd loads then .ok o else leastLoaded loads := by
  simp only [select, hlen, ne_eq, not_true_eq_false, if_false, hkey, hlookup, bind, Except.bind]

theorem select_congr {rnd : ℚ → ℚ} {key key' : Bytes} (hpos : 0 < router.prefixByteCount)
    (hfirst : key.take router.prefixByteCount = key'.take router.prefixByteCount) :
    router.select hash64 rnd key loads = router.select hash64 rnd key' loads := by
  have hnil : key = [] ↔ key' = [] := by
    have htake : ∀ k : Bytes, k.take router.prefixByteCount = [] ↔ k = [] := fun k => by
      simp [List.take_eq_nil_iff, hpos.ne']
    rw [← htake key, hfirst, htake key']
  simp only [select, hfirst, hnil]

theorem ringLookup_eraseIdx (hvnodes : 1 ≤ vnodes)
    (hinit : init hash64 workerUrls prefixByteCount loadFactor vnodes = .ok router) {j h o : Nat}
    (hlookup : router.ringLookup h = .ok o) (hne : o ≠ j) :
    ∃ router' o', init hash64 (workerUrls.eraseIdx j) prefixByteCount loadFactor vnodes =
        .ok router' ∧ router'.ringLookup h = .ok o' ∧ o = formerIndex j o' ∧
      (workerUrls.eraseIdx j)[o']? = workerUrls[o]? := by
  obtain ⟨-, hbytes, hfactor, -⟩ := init_ok hinit
  obtain ⟨w, hw, hlt, hown⟩ := ringLookup_owner hvnodes hinit h
  obtain rfl := Except.ok.inj (hw.symm.trans hlookup)
  obtain ⟨o', rfl⟩ := exists_formerIndex hne
  have hsame := getElem?_eraseIdx_formerIndex workerUrls j o'
  have hurls : workerUrls.eraseIdx j ≠ [] := by
    intro hnil
    rw [hnil, List.getElem?_eq_getElem hlt] at hsame
    cases hsame
  have hinit' : ∃ router', init hash64 (workerUrls.eraseIdx j) prefixByteCount loadFactor vnodes =
      .ok router' := by
    unfold init
    rw [if_neg hurls, if_neg (Int.not_le.mpr hbytes), if_neg (not_lt.mpr hfactor)]
    exact ⟨_, rfl⟩
  obtain ⟨router', hrouter'⟩ := hinit'
  obtain ⟨w', hw', -, hown'⟩ := ringLookup_owner hvnodes hrouter' h
  obtain rfl := hown'.unique hown.eraseIdx
  exact ⟨router', w', hrouter', hw', rfl, hsame⟩

/-- The load of the chosen worker is bounded, a key stays with its owner while the owner is within
the bound, only the first bytes of a key count, and a worker that leaves moves only its own keys. -/
theorem select_bounded_and_stable {rnd : ℚ → ℚ} (hmono : Monotone rnd) (hvnodes : 1 ≤ vnodes)
    (hinit : init hash64 workerUrls prefixByteCount loadFactor vnodes = .ok router) :
    (∀ (key : Bytes) (loads : List Nat), loads.length = workerUrls.length →
      (∀ x ∈ loads, rnd x = x) →
      ∃ w load, router.select hash64 rnd key loads = .ok w ∧ loads[w]? = some load ∧
        (load : ℚ) ≤ rnd (rnd ((loads.sum + 1 : Nat) / workerUrls.length) * loadFactor)) ∧
    (∀ (key : Bytes) (loads : List Nat), loads.length = workerUrls.length → key ≠ [] →
      ∃ o load, Owner hash64 workerUrls vnodes (hash64 (key.take prefixByteCount.toNat)) o ∧
        loads[o]? = some load ∧
        ((load : ℚ) ≤ rnd (rnd ((loads.sum + 1 : Nat) / workerUrls.length) * loadFactor) →
          router.select hash64 rnd key loads = .ok o)) ∧
    (∀ (key key' : Bytes) (loads : List Nat),
      key.take prefixByteCount.toNat = key'.take prefixByteCount.toNat →
      router.select hash64 rnd key loads = router.select hash64 rnd key' loads) ∧
    ∀ j h o, router.ringLookup h = .ok o → o ≠ j →
      ∃ router' o', init hash64 (workerUrls.eraseIdx j) prefixByteCount loadFactor vnodes =
          .ok router' ∧ router'.ringLookup h = .ok o' ∧ o = formerIndex j o' ∧
        (workerUrls.eraseIdx j)[o']? = workerUrls[o]? := by
  obtain ⟨hne, hbytes, hfactor, hurls, hcount, hload, -⟩ := init_ok hinit
  have hthreshold : ∀ loads, router.threshold rnd loads =
      rnd (rnd ((loads.sum + 1 : Nat) / workerUrls.length) * loadFactor) := fun loads => by
    rw [threshold, hurls, hload]
  refine ⟨?_, ?_, ?_, fun j h o => ringLookup_eraseIdx hvnodes hinit⟩
  · intro key loads hlen hfloat
    have hloads : loads ≠ [] := fun hnil => hne (by simpa [hnil, eq_comm] using hlen)
    obtain ⟨m, low, hleast, hlow, hmin⟩ := leastLoaded_spec hloads
    have hmem := List.mem_of_getElem? hlow
    have hbound := le_threshold_of_min hmono (hlen.trans (by rw [hurls])) (by rwa [hload]) hmem
      (hfloat low hmem) hmin
    rw [← hthreshold]
    by_cases hkey : key = []
    · subst hkey
      exact ⟨m, low, by simpa [select, hlen, hurls] using hleast, hlow, hbound⟩
    · obtain ⟨o, hlookup, ho, -⟩ := ringLookup_owner hvnodes hinit
        (hash64 (key.take router.prefixByteCount))
      have hget : loads[o]? = some (loads.getD o 0) := by
        rw [List.getD_eq_getElem?_getD, List.getElem?_eq_getElem (hlen ▸ ho), Option.getD_some]
      rw [select_of_owner (hlen.trans (by rw [hurls])) hkey hlookup]
      split
      · next hwithin => exact ⟨o, _, rfl, hget, hwithin⟩
      · exact ⟨m, low, hleast, hlow, hbound⟩
  · intro key loads hlen hkey
    obtain ⟨o, hlookup, ho, hown⟩ := ringLookup_owner hvnodes hinit
      (hash64 (key.take router.prefixByteCount))
    have hget : loads[o]? = some (loads.getD o 0) := by
      rw [List.getD_eq_getElem?_getD, List.getElem?_eq_getElem (hlen ▸ ho), Option.getD_some]
    rw [hcount] at hown
    refine ⟨o, _, hown, hget, fun hwithin => ?_⟩
    rw [← hthreshold] at hwithin
    rw [select_of_owner (hlen.trans (by rw [hurls])) hkey hlookup, if_pos hwithin]
  · intro key key' loads hfirst
    rw [← hcount] at hfirst
    exact select_congr (by omega) hfirst

end Select

/-- Two workers with two points each; the loads are compared in exact arithmetic. -/
theorem select_bounded_and_stable_two :
    ∃ router, init List.length ["a", "bb"] 4 (5 / 4) 2 = .ok router ∧
      ∃ w load, router.select List.length id [1, 2, 3] [3, 0] = .ok w ∧
        ([3, 0] : List Nat)[w]? = some load ∧
        (load : ℚ) ≤ 4 / 2 * (5 / 4) := by
  obtain ⟨router, hrouter⟩ : ∃ router, init List.length ["a", "bb"] 4 (5 / 4) 2 = .ok router :=
    ⟨_, by rw [init, if_neg (by decide), if_neg (by decide), if_neg (by norm_num)]⟩
  have h := select_bounded_and_stable monotone_id (by decide) hrouter
  obtain ⟨w, load, hw, hload, hle⟩ := h.1 [1, 2, 3] [3, 0] rfl (fun _ _ => rfl)
  exact ⟨router, hrouter, w, load, hw, hload, by simpa using hle⟩

end PrefixHashRouter

end EldrServing.Routing
