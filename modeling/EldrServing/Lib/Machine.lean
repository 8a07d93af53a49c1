import Mathlib.Logic.Relation

/-!
# Runs of a deterministic machine driven by events

`step s e` is the state after event `e`, or `none` when `e` cannot happen in `s`
or the step raises. Nondeterminism of the modelled system is carried by the events.
-/

namespace EldrServing.Machine

set_option autoImplicit false

universe u v
variable {σ : Type u} {ε : Type v} (step : σ → ε → Option σ)

def exec : σ → List ε → Option σ
  | s, [] => some s
  | s, e :: es => (step s e).bind fun t => exec t es

@[simp] theorem exec_nil (s : σ) : exec step s [] = some s := rfl

theorem exec_cons_eq_some {s u : σ} {e : ε} {es : List ε} :
    exec step s (e :: es) = some u ↔ ∃ t, step s e = some t ∧ exec step t es = some u := by
  simp [exec, Option.bind_eq_some_iff]

theorem exec_append {s : σ} (es fs : List ε) :
    exec step s (es ++ fs) = (exec step s es).bind fun t => exec step t fs := by
  induction es generalizing s with
  | nil => simp [exec]
  | cons e es ih =>
    simp only [List.cons_append, exec]
    cases step s e with
    | none => rfl
    | some t => simpa using ih

theorem exec_repeat {s : σ} {es : List ε} (h : exec step s es = some s) (k : Nat) :
    exec step s (List.replicate k es).flatten = some s := by
  induction k with
  | zero => rfl
  | succ k ih =>
    rw [List.replicate_succ, List.flatten_cons, exec_append, h]
    exact ih

def Reachable (init s : σ) : Prop := ∃ es, exec step init es = some s

theorem Reachable.refl (s : σ) : Reachable step s s := ⟨[], rfl⟩

variable {step}

/-- What holds initially and is kept by every step holds after every run. -/
theorem exec_invariant {P : σ → Prop}
    (hstep : ∀ s e t, P s → step s e = some t → P t)
    {s t : σ} {es : List ε} (hs : P s) (hrun : exec step s es = some t) : P t := by
  induction es generalizing s with
  | nil =>
    obtain rfl : s = t := by simpa [exec] using hrun
    exact hs
  | cons e es ih =>
    obtain ⟨u, hu, hrest⟩ := (exec_cons_eq_some step).mp hrun
    exact ih (hstep s e u hs hu) hrest

theorem Reachable.invariant {P : σ → Prop} {init s : σ} (h : Reachable step init s)
    (hinit : P init) (hstep : ∀ s e t, P s → step s e = some t → P t) : P s := by
  obtain ⟨es, hes⟩ := h
  exact exec_invariant hstep hinit hes

variable (step)

/-- Every step of the run from `s` along `es` satisfies `C`. -/
def Along (C : σ → ε → Prop) : σ → List ε → Prop
  | _, [] => True
  | s, e :: es => C s e ∧ ∀ t, step s e = some t → Along C t es

instance Along.decidable (C : σ → ε → Prop) [∀ s e, Decidable (C s e)] :
    ∀ s es, Decidable (Along step C s es)
  | _, [] => .isTrue trivial
  | s, e :: es =>
    have : Decidable (∀ t, step s e = some t → Along step C t es) :=
      match h : step s e with
      | none => .isTrue fun _ ht => nomatch ht
      | some t =>
        match Along.decidable C t es with
        | .isTrue ht => .isTrue fun u hu => Option.some.inj hu ▸ ht
        | .isFalse ht => .isFalse fun hall => ht (hall t rfl)
    inferInstanceAs (Decidable (C s e ∧ ∀ t, step s e = some t → Along step C t es))

variable {step}

theorem Along.append_right {C : σ → ε → Prop} {s t : σ} {es fs : List ε}
    (h : Along step C s (es ++ fs)) (hrun : exec step s es = some t) : Along step C t fs := by
  induction es generalizing s with
  | nil =>
    obtain rfl : s = t := by simpa [exec] using hrun
    exact h
  | cons e es ih =>
    obtain ⟨u, hu, hrest⟩ := (exec_cons_eq_some step).mp hrun
    exact ih (h.2 u hu) hrest

theorem Along.append_left {C : σ → ε → Prop} {s : σ} {es fs : List ε}
    (h : Along step C s (es ++ fs)) : Along step C s es := by
  induction es generalizing s with
  | nil => trivial
  | cons e es ih => exact ⟨h.1, fun t ht => ih (h.2 t ht)⟩

theorem Along.mono {C D : σ → ε → Prop} {s : σ} {es : List ε} (h : Along step C s es)
    (hCD : ∀ s e, C s e → D s e) : Along step D s es := by
  induction es generalizing s with
  | nil => trivial
  | cons e es ih => exact ⟨hCD s e h.1, fun t ht => ih (h.2 t ht)⟩

theorem Along.and {C D : σ → ε → Prop} {s : σ} {es : List ε} (h : Along step C s es)
    (h' : Along step D s es) : Along step (fun s e => C s e ∧ D s e) s es := by
  induction es generalizing s with
  | nil => trivial
  | cons e es ih => exact ⟨⟨h.1, h'.1⟩, fun t ht => ih (h.2 t ht) (h'.2 t ht)⟩

theorem Along.of_mem {D : ε → Prop} {s : σ} {es : List ε} (hD : ∀ e ∈ es, D e) :
    Along step (fun _ e => D e) s es := by
  induction es generalizing s with
  | nil => trivial
  | cons e es ih =>
    exact ⟨hD e List.mem_cons_self, fun _ _ => ih fun f hf => hD f (List.mem_cons_of_mem e hf)⟩

theorem Along.and_of_mem {C : σ → ε → Prop} {D : ε → Prop} {s : σ} {es : List ε}
    (h : Along step C s es) (hD : ∀ e ∈ es, D e) : Along step (fun s e => C s e ∧ D e) s es :=
  h.and (.of_mem hD)

/-- An invariant kept by the steps that satisfy `C` holds after every run made of such steps. -/
theorem exec_invariant_along {P : σ → Prop} {C : σ → ε → Prop}
    (hstep : ∀ s e t, P s → C s e → step s e = some t → P t)
    {s t : σ} {es : List ε} (hs : P s) (hC : Along step C s es)
    (hrun : exec step s es = some t) : P t := by
  induction es generalizing s with
  | nil =>
    obtain rfl : s = t := by simpa [exec] using hrun
    exact hs
  | cons e es ih =>
    obtain ⟨u, hu, hrest⟩ := (exec_cons_eq_some step).mp hrun
    exact ih (hstep s e u hs hC.1 hu) (hC.2 u hu) hrest

/-- An invariant of the state and of the events so far, kept by the steps that satisfy `C`. -/
theorem exec_history_invariant_along {P : σ → List ε → Prop} {C : σ → ε → Prop}
    (hstep : ∀ s e t past, P s past → C s e → step s e = some t → P t (past ++ [e]))
    {s t : σ} {past es : List ε} (hs : P s past) (hC : Along step C s es)
    (hrun : exec step s es = some t) : P t (past ++ es) := by
  induction es generalizing s past with
  | nil =>
    obtain rfl : s = t := by simpa [exec] using hrun
    simpa using hs
  | cons e es ih =>
    obtain ⟨u, hu, hrest⟩ := (exec_cons_eq_some step).mp hrun
    simpa using ih (hstep s e u past hs hC.1 hu) (hC.2 u hu) hrest

/-- A run whose steps satisfy `C` gets through if each of them does, and keeps the invariant. -/
theorem exec_history_total_along {P : σ → List ε → Prop} {C : σ → ε → Prop}
    (hstep : ∀ s e past, P s past → C s e → ∃ t, step s e = some t ∧ P t (past ++ [e]))
    {s : σ} {past es : List ε} (hs : P s past) (hC : Along step C s es) :
    ∃ t, exec step s es = some t ∧ P t (past ++ es) := by
  induction es generalizing s past with
  | nil => exact ⟨s, rfl, by simpa using hs⟩
  | cons e es ih =>
    obtain ⟨u, hu, hpast⟩ := hstep s e past hs hC.1
    obtain ⟨t, ht, hend⟩ := ih hpast (hC.2 u hu)
    exact ⟨t, (exec_cons_eq_some step).mpr ⟨u, hu, ht⟩, by simpa using hend⟩

theorem exec_history_invariant {P : σ → List ε → Prop}
    (hstep : ∀ s e t past, P s past → step s e = some t → P t (past ++ [e]))
    {s t : σ} {past es : List ε} (hs : P s past) (hrun : exec step s es = some t) :
    P t (past ++ es) :=
  exec_history_invariant_along (fun s e t past h _ => hstep s e t past h) hs
    (Along.of_mem (D := fun _ => True) fun _ _ => trivial) hrun

/-- Machines whose related states step to related states, or both to none, run alike. -/
theorem exec_rel {τ : Type u} {step' : τ → ε → Option τ} {R : σ → τ → Prop} {C : τ → ε → Prop}
    (hstep : ∀ s t e, R s t → C t e → Option.Rel R (step s e) (step' t e))
    {s : σ} {t : τ} {es : List ε} (hs : R s t) (hC : Along step' C t es) :
    Option.Rel R (exec step s es) (exec step' t es) := by
  induction es generalizing s t with
  | nil => exact .some hs
  | cons e es ih =>
    have h := hstep s t e hs hC.1
    have hrest := hC.2
    rw [exec, exec]
    generalize step s e = u at h ⊢
    generalize step' t e = v at h hrest ⊢
    cases h with
    | none => exact .none
    | some h => exact ih h (hrest _ rfl)

section Collect

variable {α : Type u} (step) (emits : σ → ε → σ → List α)

/-- What the steps of the run from `s` along `es` emit, in order. -/
def collect : σ → List ε → List α
  | _, [] => []
  | s, e :: es =>
    match step s e with
    | none => []
    | some t => emits s e t ++ collect t es

variable {step emits}

/-- An invariant of the state and of what was emitted so far. -/
theorem exec_collect_invariant {P : σ → List α → Prop} {C : σ → ε → Prop}
    (hstep : ∀ s e t log, P s log → C s e → step s e = some t → P t (log ++ emits s e t))
    {s t : σ} {es : List ε} {log : List α} (hs : P s log) (hC : Along step C s es)
    (hrun : exec step s es = some t) : P t (log ++ collect step emits s es) := by
  induction es generalizing s log with
  | nil =>
    obtain rfl : s = t := by simpa [exec] using hrun
    simpa [collect] using hs
  | cons e es ih =>
    obtain ⟨u, hu, hrest⟩ := (exec_cons_eq_some step).mp hrun
    have h := ih (hstep s e u log hs hC.1 hu) (hC.2 u hu) hrest
    rw [List.append_assoc] at h
    simpa only [collect, hu] using h

end Collect

end EldrServing.Machine
