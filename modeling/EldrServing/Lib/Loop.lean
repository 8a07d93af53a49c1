import EldrServing.Lib.Py
import Mathlib.Algebra.BigOperators.Group.List.Basic
import Mathlib.Algebra.GroupWithZero.Nat

/-!
# Loops that thread a shared state

`mapState f as s` runs `f` on each element in turn, each time on the state the previous round
left, and collects the results.
-/

namespace EldrServing

set_option autoImplicit false

variable {α β σ : Type}

def mapState (f : α → σ → Except PyError (β × σ)) : List α → σ → Except PyError (List β × σ)
  | [], s => .ok ([], s)
  | a :: as, s => do
    let (b, s) ← f a s
    let (bs, s) ← mapState f as s
    .ok (b :: bs, s)

variable {as : List α} {s t : σ} {f : α → σ → Except PyError (β × σ)} {r bs : List β} {P : α → Prop}
  {a : α} {R : α → β → Prop} {γ : Type} {g : α → γ} {g' : β → γ} {I : σ → (Nat → Nat) → Prop}
  {w : α → Nat → Nat} {v : β → Nat → Nat} {c : Nat → Nat}

theorem mapState_cons_eq_ok : mapState f (a :: as) s = .ok (r, t) ↔
      ∃ b u bs, f a s = .ok (b, u) ∧ mapState f as u = .ok (bs, t) ∧ r = b :: bs := by
  simp only [mapState, except_bind_eq_ok, Except.ok.injEq, Prod.mk.injEq, Prod.exists]
  constructor
  · rintro ⟨b, u, hf, bs, v, hm, rfl, rfl⟩
    exact ⟨b, u, bs, hf, hm, rfl⟩
  · rintro ⟨b, u, bs, hf, hm, rfl⟩
    exact ⟨b, u, hf, bs, t, hm, rfl, rfl⟩

theorem mapState_length (h : mapState f as s = .ok (r, t)) : r.length = as.length := by
  induction as generalizing s r with
  | nil =>
    obtain ⟨rfl, -⟩ := ok_pair_inj h
    rfl
  | cons a as ih =>
    obtain ⟨b, u, bs, -, hm, rfl⟩ := mapState_cons_eq_ok.mp h
    simp [ih hm]

theorem mapState_map_eq (hf : ∀ a s b t, f a s = .ok (b, t) → g' b = g a)
    (h : mapState f as s = .ok (r, t)) : r.map g' = as.map g := by
  induction as generalizing s r with
  | nil =>
    obtain ⟨rfl, -⟩ := ok_pair_inj h
    rfl
  | cons a as ih =>
    obtain ⟨b, u, bs, hfa, hm, rfl⟩ := mapState_cons_eq_ok.mp h
    rw [List.map_cons, List.map_cons, ih hm, hf a s b u hfa]

theorem forall₂_getElem? (h : List.Forall₂ R as bs)
    {i : Nat} {b : β} (hb : bs[i]? = some b) : ∃ a, as[i]? = some a ∧ R a b := by
  induction h generalizing i with
  | nil => simp at hb
  | cons hR _ ih =>
    cases i with
    | zero =>
      obtain rfl : _ = b := by simpa using hb
      exact ⟨_, rfl, hR⟩
    | succ i => simpa using ih (by simpa using hb)

theorem forall₂_getElem?_left (h : List.Forall₂ R as bs) {i : Nat} (ha : as[i]? = some a) :
    ∃ b, bs[i]? = some b ∧ R a b :=
  forall₂_getElem? (R := fun b a => R a b) (List.Forall₂.flip h) ha

theorem map_eq_of_forall₂
    (h : List.Forall₂ (fun a b => g' b = g a) as bs) : bs.map g' = as.map g := by
  induction h with
  | nil => rfl
  | cons heq _ ih => rw [List.map_cons, List.map_cons, heq, ih]

theorem mapState_relates {J : σ → Prop}
    (hf : ∀ a s b t, P a → J s → f a s = .ok (b, t) → R a b ∧ J t) (hP : ∀ a ∈ as, P a) (hJ : J s)
    (h : mapState f as s = .ok (r, t)) : List.Forall₂ R as r ∧ J t := by
  induction as generalizing s r with
  | nil =>
    obtain ⟨rfl, rfl⟩ := ok_pair_inj h
    exact ⟨.nil, hJ⟩
  | cons a as ih =>
    obtain ⟨b, u, bs, hfa, hm, rfl⟩ := mapState_cons_eq_ok.mp h
    obtain ⟨hR, hu⟩ := hf a s b u (hP a List.mem_cons_self) hJ hfa
    obtain ⟨hRs, ht⟩ := ih (fun a' ha => hP a' (List.mem_cons_of_mem _ ha)) hu hm
    exact ⟨.cons hR hRs, ht⟩

theorem mapState_forall₂ (hf : ∀ a s b t, f a s = .ok (b, t) → R a b)
    (h : mapState f as s = .ok (r, t)) : List.Forall₂ R as r :=
  (mapState_relates (P := fun _ => True) (J := fun _ => True)
    (fun a s b t _ _ hfa => ⟨hf a s b t hfa, trivial⟩) (fun _ _ => trivial) trivial h).1

/-- Accounting over a loop. `I s c` is an invariant of the state against a demand `c`; an element
contributes `w a` to the demand before its round and its result `v b` after it. -/
theorem mapState_account_relates
    (hf : ∀ a s t b (c : Nat → Nat), P a → I s (fun x => c x + w a x) → f a s = .ok (b, t) →
    R a b ∧ I t (fun x => c x + v b x)) (hP : ∀ a ∈ as, P a)
    (hI : I s fun x => c x + (as.map (w · x)).sum) (h : mapState f as s = .ok (r, t)) :
    List.Forall₂ R as r ∧ I t fun x => c x + (r.map (v · x)).sum := by
  induction as generalizing s r c with
  | nil =>
    obtain ⟨rfl, rfl⟩ := ok_pair_inj h
    exact ⟨.nil, by simpa using hI⟩
  | cons a as ih =>
    obtain ⟨b, u, bs, hfa, hm, rfl⟩ := mapState_cons_eq_ok.mp h
    -- the other elements are part of the demand while `a` has its round, and so is `b` after it
    have hthis := hf a s u b (fun x => c x + (as.map (w · x)).sum) (hP a List.mem_cons_self) (by
      convert hI using 2 with x
      simp only [List.map_cons, List.sum_cons]
      omega) hfa
    have hrest := ih (c := fun x => c x + v b x) (fun a' ha => hP a' (List.mem_cons_of_mem _ ha)) (by
      convert hthis.2 using 2 with x
      omega) hm
    refine ⟨.cons hthis.1 hrest.1, ?_⟩
    convert hrest.2 using 2 with x
    simp only [List.map_cons, List.sum_cons]
    omega

/-- A loop whose rounds all succeed under the accounting succeeds. -/
theorem mapState_account_total (hf : ∀ a s (c : Nat → Nat), P a → I s (fun x => c x + w a x) →
    ∃ b t, f a s = .ok (b, t) ∧ I t fun x => c x + v b x) (hP : ∀ a ∈ as, P a)
    (hI : I s fun x => c x + (as.map (w · x)).sum) : ∃ r t, mapState f as s = .ok (r, t) := by
  induction as generalizing s c with
  | nil => exact ⟨[], s, rfl⟩
  | cons a as ih =>
    obtain ⟨b, u, hfa, hu⟩ := hf a s (fun x => c x + (as.map (w · x)).sum)
      (hP a List.mem_cons_self) (by
        convert hI using 2 with x
        simp only [List.map_cons, List.sum_cons]
        omega)
    obtain ⟨bs, t, hm⟩ := ih (fun a' ha => hP a' (List.mem_cons_of_mem _ ha))
      (show I u fun x => (c x + v b x) + (as.map (w · x)).sum by
        convert hu using 2 with x
        omega)
    exact ⟨b :: bs, t, mapState_cons_eq_ok.mpr ⟨b, u, bs, hfa, hm, rfl⟩⟩

/-- A loop that spends a budget succeeds if the budget covers what its rounds may spend. -/
theorem mapState_spends {I : σ → Prop} {budget : σ → Int} {d : α → Nat}
    (hf : ∀ a s, P a → I s → (d a : Int) ≤ budget s →
    ∃ b t, f a s = .ok (b, t) ∧ I t ∧ budget s - d a ≤ budget t ∧ g' b = g a)
    (hP : ∀ a ∈ as, P a) (hI : I s) (hbudget : ((as.map d).sum : Int) ≤ budget s) :
    ∃ r t, mapState f as s = .ok (r, t) ∧ I t ∧ budget s - (as.map d).sum ≤ budget t ∧
      r.map g' = as.map g := by
  induction as generalizing s with
  | nil => exact ⟨[], s, rfl, hI, by simp, rfl⟩
  | cons a as ih =>
    rw [List.map_cons, List.sum_cons, Int.natCast_add] at hbudget
    have hnonneg := Int.natCast_nonneg (as.map d).sum
    obtain ⟨b, u, hfa, hu, hspent, hg⟩ := hf a s (hP a List.mem_cons_self) hI (by omega)
    obtain ⟨bs, t, hm, ht, hrest, hgs⟩ := ih (fun a' ha => hP a' (List.mem_cons_of_mem _ ha)) hu
      (by omega)
    refine ⟨b :: bs, t, mapState_cons_eq_ok.mpr ⟨b, u, bs, hfa, hm, rfl⟩, ht, ?_, ?_⟩
    · rw [List.map_cons, List.sum_cons, Int.natCast_add]
      omega
    · rw [List.map_cons, List.map_cons, hg, hgs]

/-! ### Loops that only change the state -/

theorem foldlM_cons_eq_ok {f : σ → α → Except PyError σ} :
    (a :: as).foldlM f s = .ok t ↔ ∃ u, f s a = .ok u ∧ as.foldlM f u = .ok t := by
  rw [List.foldlM_cons, except_bind_eq_ok]

theorem foldlM_invariant {f : σ → α → Except PyError σ} {P : σ → Prop}
    (hf : ∀ a ∈ as, ∀ s t, P s → f s a = .ok t → P t) (hs : P s) (h : as.foldlM f s = .ok t) :
    P t := by
  induction as generalizing s with
  | nil =>
    obtain rfl : s = t := Except.ok.inj h
    exact hs
  | cons a as ih =>
    obtain ⟨u, hu, h⟩ := foldlM_cons_eq_ok.mp h
    exact ih (fun b hb => hf b (List.mem_cons_of_mem a hb)) (hf a List.mem_cons_self s u hs hu) h

/-- What each round establishes for its element holds at the end, if it is kept by whatever the
rounds do to the state. -/
theorem foldlM_visits {f : σ → α → Except PyError σ} {R : σ → σ → Prop} {P : α → σ → Prop}
    (hrefl : ∀ s, R s s) (htrans : ∀ s t u, R s t → R t u → R s u)
    (hf : ∀ s a t, f s a = .ok t → R s t ∧ P a t) (hkeep : ∀ a s t, P a s → R s t → P a t)
    (h : as.foldlM f s = .ok t) : R s t ∧ ∀ a ∈ as, P a t := by
  induction as generalizing s with
  | nil =>
    obtain rfl : s = t := Except.ok.inj h
    exact ⟨hrefl s, by simp⟩
  | cons a as ih =>
    obtain ⟨u, hu, hrest⟩ := foldlM_cons_eq_ok.mp h
    obtain ⟨hR, hP⟩ := hf s a u hu
    obtain ⟨hR', hP'⟩ := ih hrest
    refine ⟨htrans s u t hR hR', fun b hb => ?_⟩
    rcases List.mem_cons.mp hb with rfl | hb
    · exact hkeep b u t hP hR'
    · exact hP' b hb

theorem mapM_ok_of_mem {f : α → Except PyError β}
    (h : as.mapM f = .ok bs) (ha : a ∈ as) : ∃ b ∈ bs, f a = .ok b := by
  induction as generalizing bs with
  | nil => cases ha
  | cons a' as ih =>
    simp only [List.mapM_cons, except_bind_eq_ok] at h
    obtain ⟨b, hb, bs', hbs', hok⟩ := h
    obtain rfl := Except.ok.inj hok
    rcases List.mem_cons.mp ha with rfl | ha
    · exact ⟨b, List.mem_cons_self, hb⟩
    · obtain ⟨b', hmem, hb'⟩ := ih hbs' ha
      exact ⟨b', List.mem_cons_of_mem b hmem, hb'⟩

theorem mapM_eq_ok {f : α → Except PyError β} {g : α → β} {l : List α}
    (h : ∀ a ∈ l, f a = .ok (g a)) : l.mapM f = .ok (l.map g) := by
  induction l with
  | nil => rfl
  | cons a l ih =>
    rw [List.mapM_cons, h a List.mem_cons_self, ih fun b hb => h b (List.mem_cons_of_mem a hb)]
    rfl

end EldrServing
