import EldrServing.Routing.CentroidUpdate
import Mathlib.Algebra.Order.Ring.Int

/-!
# Runs of the centroid updater

The executor's fits are the ones that are done and at most one the updater waits for (`Waits`);
every step keeps the updater consistent with them (`Sound`). The signatures kept are compared
with the calls of the history (`Keeps`). Both together give what holds after every run.
-/

namespace EldrServing.Routing

set_option autoImplicit false

namespace CentroidUpdater

section Clock

variable {α T : Type} [LinearOrder T] [Sub T]

structure Clock (window : T) : Prop where
  mono : ∀ a b : T, a ≤ b → a - window ≤ b - window
  back : ∀ a : T, a - window ≤ a

end Clock

section Calls

variable {α T : Type}

def calls (es : List (Event α T)) : List (T × List α) :=
  es.filterMap fun
    | .route signature now => some (now, signature)
    | _ => none

def nonzeroCalls [Zero α] [DecidableEq α] (es : List (Event α T)) : List (T × List α) :=
  (calls es).filter (nonzero ·.2)

end Calls

theorem Clock.of_orderedGroup {G : Type} [AddCommGroup G] [LinearOrder G] [IsOrderedAddMonoid G]
    {window : G} (h : 0 ≤ window) : Clock window where
  mono _ _ hab := sub_le_sub_right hab window
  back a := sub_le_self a h

variable {α T : Type}

/-- The result of the latest fit that succeeded. -/
def latest (tasks : List (Task α T)) : Option (Rows α) := (tasks.filterMap Task.result?).getLast?

/-- The executor holds the fits `old`, all of them done, and the one the updater waits for. -/
structure Waits (s : CentroidUpdater α T) (old : List (Task α T)) (wait : Option (Task α T)) :
    Prop where
  tasks : s.tasks = old ++ wait.toList
  future : s.fitFuture = wait.map fun _ => old.length
  done : ∀ t ∈ old, t.done = true

/-- The updater against the fits it submitted; `seeds` are the centroids it began with. -/
structure Sound (seeds : Rows α) (s : CentroidUpdater α T) (old : List (Task α T))
    (wait : Option (Task α T)) : Prop extends Waits s old wait where
  started : s.refitsStarted = s.tasks.length
  shapes : shape s.centroids = shape seeds
  taskShapes : ∀ t ∈ s.tasks, shape t.centroids = shape seeds ∧
    ∀ c, t.result? = some c → shape c = shape seeds
  lastStart : s.lastRefitStartedAt = s.tasks.getLast?.map Task.startedAt
  installed : ∃ got, got <+: old ∧ s.centroids = (latest got).getD seeds ∧
    s.refitsCompleted = got.countP (·.result?.isSome) ∧ (s.closed = false → got = old)
  settled : s.closed = false → ∀ t ∈ s.tasks, t.done = true → t.result?.isSome ∨ t.failed = true

section Poll

variable {s : CentroidUpdater α T} {old : List (Task α T)} {wait : Option (Task α T)}
  {seeds : Rows α}

theorem Waits.lookup (h : Waits s old wait) : s.fitFuture.bind (s.tasks[·]?) = wait := by
  rw [h.future, h.tasks]
  cases wait with
  | none => rfl
  | some t => simp

theorem pollRefit_cases (h : Waits s old wait) :
    (s.pollRefit = s ∧ ∀ t, wait = some t → t.done = false) ∨
    (∃ t error, wait = some t ∧ t.done = true ∧ t.result? = none ∧
      s.pollRefit = { s with fitFuture := none, lastRefitError := some error }) ∨
    ∃ t c, wait = some t ∧ t.done = true ∧ t.result? = some c ∧
      (s.closed = true ∧ s.pollRefit = { s with fitFuture := none } ∨
        s.closed = false ∧ s.pollRefit = { s with
          fitFuture := none
          centroids := c
          refitsCompleted := s.refitsCompleted + 1
          lastRefitError := none }) := by
  unfold pollRefit
  rw [h.lookup]
  cases wait with
  | none => exact .inl ⟨rfl, fun _ ht => nomatch ht⟩
  | some t =>
    obtain ⟨startedAt, signatureRows, centroids, state⟩ := t
    cases state with
    | queued | running =>
      refine .inl ⟨rfl, ?_⟩
      intro t ht
      obtain rfl := Option.some.inj ht
      rfl
    | failed error => exact .inr (.inl ⟨_, error, rfl, rfl, rfl, rfl⟩)
    | cancelled => exact .inr (.inl ⟨_, _, rfl, rfl, rfl, rfl⟩)
    | finished c =>
      refine .inr (.inr ⟨_, c, rfl, rfl, rfl, ?_⟩)
      cases hclosed : s.closed with
      | true => exact .inl ⟨rfl, if_pos rfl⟩
      | false => exact .inr ⟨rfl, if_neg nofun⟩

theorem Waits.settle {t : Task α T} {s' : CentroidUpdater α T} (h : Waits s old (some t))
    (htasks : s'.tasks = s.tasks) (hfuture : s'.fitFuture = none) (hdone : t.done = true) :
    Waits s' (old ++ [t]) none where
  tasks := by rw [htasks, h.tasks]; simp
  future := hfuture
  done u hu := by
    rcases List.mem_append.mp hu with hu | hu
    · exact h.done u hu
    · rwa [List.mem_singleton.mp hu]

theorem latest_append (old : List (Task α T)) (t : Task α T) :
    latest (old ++ [t]) = t.result?.or (latest old) := by
  unfold latest
  rw [List.filterMap_append]
  cases h : t.result? with
  | none => simp [h]
  | some c => simp [h]

theorem pollRefit_frame (s : CentroidUpdater α T) : s.pollRefit = { s with
    fitFuture := s.pollRefit.fitFuture
    centroids := s.pollRefit.centroids
    refitsCompleted := s.pollRefit.refitsCompleted
    lastRefitError := s.pollRefit.lastRefitError } := by
  unfold pollRefit
  split
  · rfl
  · split
    · rfl
    · rfl
    · rfl
    · rfl
    · split <;> rfl

theorem pollRefit_closed (s : CentroidUpdater α T) : s.pollRefit.closed = s.closed := by
  rw [pollRefit_frame]

theorem pollRefit_centroids_of_closed (hclosed : s.closed = true) :
    s.pollRefit.centroids = s.centroids := by
  unfold pollRefit
  split
  · rfl
  · split
    · rfl
    · rfl
    · rfl
    · rfl
    · rw [if_pos hclosed]

/-- After a poll the fit in the executor, if there is one the updater waits for, is not done. -/
theorem Sound.pollRefit (h : Sound seeds s old wait) : ∃ old' wait',
    Sound seeds s.pollRefit old' wait' ∧ s.pollRefit.tasks = s.tasks ∧
      ∀ t, wait' = some t → t.done = false := by
  rcases pollRefit_cases h.toWaits with ⟨heq, hdone⟩ | ⟨t, error, rfl, hdone, hresult, heq⟩ |
    ⟨t, c, rfl, hdone, hresult, ⟨hclosed, heq⟩ | ⟨hclosed, heq⟩⟩
  · rw [heq]
    exact ⟨old, wait, h, rfl, hdone⟩
  · rw [heq]
    refine ⟨old ++ [t], none, ⟨h.toWaits.settle rfl rfl hdone, h.started, h.shapes, h.taskShapes,
      h.lastStart, ?_, h.settled⟩, rfl, nofun⟩
    obtain ⟨got, hgot, hcentroids, hcount, hopen⟩ := h.installed
    cases hclosed : s.closed with
    | true => exact ⟨got, hgot.trans (List.prefix_append _ _), hcentroids, hcount, nofun⟩
    | false =>
      obtain rfl := hopen hclosed
      refine ⟨got ++ [t], List.prefix_refl _, ?_, ?_, fun _ => rfl⟩
      · rw [latest_append, hresult, Option.none_or]
        exact hcentroids
      · rw [List.countP_append]
        simpa [hresult] using hcount
  · rw [heq]
    obtain ⟨got, hgot, hcentroids, hcount, -⟩ := h.installed
    exact ⟨old ++ [t], none, ⟨h.toWaits.settle rfl rfl hdone, h.started, h.shapes, h.taskShapes,
      h.lastStart, ⟨got, hgot.trans (List.prefix_append _ _), hcentroids, hcount, by simp [hclosed]⟩,
      h.settled⟩, rfl, nofun⟩
  · rw [heq]
    have hmem : t ∈ s.tasks := by rw [h.tasks]; simp
    obtain ⟨got, -, -, hcount, hopen⟩ := h.installed
    obtain rfl := hopen hclosed
    refine ⟨got ++ [t], none, ⟨h.toWaits.settle rfl rfl hdone, h.started,
      (h.taskShapes t hmem).2 c hresult, h.taskShapes, h.lastStart,
      ⟨got ++ [t], List.prefix_refl _, ?_, ?_, fun _ => rfl⟩, h.settled⟩, rfl, nofun⟩
    · rw [latest_append, hresult]
      rfl
    · rw [List.countP_append, ← hcount]
      simp [hresult]

def collected (s : CentroidUpdater α T) : List (Task α T) :=
  s.tasks.take (s.fitFuture.getD s.tasks.length)

theorem Waits.collected (h : Waits s old wait) : s.collected = old := by
  rw [CentroidUpdater.collected, h.future, h.tasks]
  cases wait <;> simp

theorem Waits.pending_le_one (h : Waits s old wait) : (s.tasks.filter fun t => !t.done).length ≤ 1 := by
  have hold : old.filter (fun t => !t.done) = [] := by
    rw [List.filter_eq_nil_iff]
    intro t ht
    simp [h.done t ht]
  rw [h.tasks, List.filter_append, hold, List.nil_append]
  cases wait with
  | none => simp
  | some t =>
    have := List.length_filter_le (fun t => !t.done) [t]
    simpa using this

theorem result?_of_not_done {t : Task α T} (h : t.done = false) : t.result? = none := by
  obtain ⟨_, _, _, state⟩ := t
  cases state with
  | queued | running => rfl
  | _ => cases h

theorem length_eq_succeeded_add_failed (hdone : ∀ t ∈ old, t.done = true)
    (h : ∀ t ∈ old, t.done = true → t.result?.isSome ∨ t.failed = true) :
    old.length = old.countP (·.result?.isSome) + old.countP Task.failed := by
  have hcompl : old.countP Task.failed = old.countP fun t => !t.result?.isSome := by
    apply List.countP_congr
    intro t ht
    have ht' := h t ht (hdone t ht)
    obtain ⟨_, _, _, state⟩ := t
    cases state with
    | finished c | failed e => simp [Task.failed, Task.result?]
    | queued | running | cancelled => simp [Task.failed, Task.result?] at ht'
  rw [hcompl, List.length_eq_countP_add_countP (fun t : Task α T => t.result?.isSome)]
  congr 2
  funext t
  cases t.result? <;> rfl

end Poll

section Worker

variable {s t : CentroidUpdater α T} {old : List (Task α T)} {wait : Option (Task α T)}
  {seeds : Rows α} {fitter : Fitter α}

theorem shape_alignCentroids {current fitted : Rows α} {k d : Nat}
    (hrect : shape current = List.replicate k d) (h : shape fitted = shape current) :
    shape (alignCentroids fitter current fitted) = shape current := by
  have hlen := fitter.columns_length current fitted h
  have hlt := fitter.columns_lt current fitted h
  have hfitted : fitted.length = k := by
    simpa [shape] using congrArg List.length (h.trans hrect)
  rw [hrect, List.eq_replicate_iff]
  constructor
  · simp [shape, alignCentroids, hlen, hfitted]
  · intro n hn
    simp only [shape, alignCentroids, List.map_map, List.mem_map] at hn
    obtain ⟨j, hj, rfl⟩ := hn
    have hget : fitted[j]? = some (fitted.getD j []) := by simp [hlt j hj]
    have hmem : (fitted.getD j []).length ∈ shape fitted :=
      List.mem_map_of_mem (List.mem_of_getElem? hget)
    rw [h, hrect] at hmem
    exact List.eq_of_mem_replicate hmem

theorem shape_runRefit {rows centroids result : Rows α} {balanced : Bool} {k d : Nat}
    (hrect : shape centroids = List.replicate k d)
    (h : runRefit fitter rows centroids balanced = .ok result) : shape result = shape centroids := by
  unfold runRefit at h
  cases hfit : fitter.kmeans balanced rows centroids with
  | error e => simp [hfit, bind, Except.bind] at h
  | ok fitted =>
    simp only [hfit, bind, Except.bind] at h
    split at h
    · cases h
    · next hshape =>
      obtain rfl := Except.ok.inj h
      exact shape_alignCentroids hrect (not_not.mp hshape)

theorem Waits.wait_of_not_done {task : Task α T} {i : Nat} (h : Waits s old wait)
    (htask : s.tasks[i]? = some task) (hdone : task.done = false) :
    i = old.length ∧ wait = some task := by
  rw [h.tasks] at htask
  rcases Nat.lt_or_ge i old.length with hlt | hge
  · rw [List.getElem?_append_left hlt] at htask
    rw [h.done task (List.mem_of_getElem? htask)] at hdone
    cases hdone
  · rw [List.getElem?_append_right hge] at htask
    cases wait with
    | none => simp at htask
    | some t =>
      obtain ⟨hi, ht⟩ := List.getElem?_eq_some_iff.mp htask
      have hi' : i - old.length = 0 := by simpa using hi
      refine ⟨by omega, ?_⟩
      rw [← ht]
      simp [hi']

theorem Sound.setTask {task : Task α T} {i : Nat} {state : TaskState α} (h : Sound seeds s old wait)
    (htask : s.tasks[i]? = some task) (hdone : task.done = false)
    (hshape : ∀ c, state = .finished c → shape c = shape seeds)
    (hstate : s.closed = false → state ≠ .cancelled) :
    Sound seeds (s.setTask i task state) old (some { task with state }) := by
  obtain ⟨rfl, rfl⟩ := h.toWaits.wait_of_not_done htask hdone
  have htasks : (s.setTask old.length task state).tasks = old ++ [{ task with state }] := by
    rw [CentroidUpdater.setTask, h.tasks]
    simp
  have hmem : ∀ t ∈ (s.setTask old.length task state).tasks, t ∈ s.tasks ∨ t = { task with state } := by
    intro t ht
    rw [htasks] at ht
    rcases List.mem_append.mp ht with ht | ht
    · exact .inl (by rw [h.tasks]; exact List.mem_append_left _ ht)
    · exact .inr (List.mem_singleton.mp ht)
  refine ⟨⟨htasks, h.future, h.done⟩, ?_, h.shapes, ?_, ?_, h.installed, ?_⟩
  · show s.refitsStarted = _
    rw [htasks, h.started, h.tasks]
    simp
  · intro t ht
    rcases hmem t ht with ht | rfl
    · exact h.taskShapes t ht
    · refine ⟨(h.taskShapes task (List.mem_of_getElem? htask)).1, fun c hc => hshape c ?_⟩
      cases state <;> cases hc
      rfl
  · show s.lastRefitStartedAt = _
    rw [htasks, h.lastStart, h.tasks]
    simp
  · intro hclosed t ht htdone
    rcases hmem t ht with ht | rfl
    · exact h.settled hclosed t ht htdone
    · have hne := hstate hclosed
      cases state with
      | queued | running => cases htdone
      | finished c => exact .inl rfl
      | failed e => exact .inr rfl
      | cancelled => exact absurd rfl hne

theorem workerStep_ok {event : Event α T} {task : Task α T} {state : TaskState α}
    (h : workerStep fitter s task event = some state) :
    task.done = false ∧ state ≠ .cancelled ∧ ∀ c, state = .finished c →
      runRefit fitter task.signatureRows task.centroids s.balanced = .ok c := by
  obtain ⟨startedAt, rows, centroids, current⟩ := task
  cases event with
  | route _ _ => cases h
  | close => cases h
  | begin i =>
    cases current with
    | queued =>
      simp only [workerStep] at h
      split at h
      · cases h
      · obtain rfl := Option.some.inj h
        exact ⟨rfl, nofun, nofun⟩
    | _ => cases h
  | complete i =>
    cases current with
    | running =>
      obtain rfl := Option.some.inj h
      dsimp only
      cases runRefit fitter rows centroids s.balanced with
      | ok c =>
        refine ⟨rfl, nofun, fun c' hc => ?_⟩
        cases hc
        rfl
      | error e => exact ⟨rfl, nofun, nofun⟩
    | _ => cases h
  | crash i e =>
    cases current with
    | running =>
      obtain rfl := Option.some.inj h
      exact ⟨rfl, nofun, nofun⟩
    | _ => cases h

theorem Sound.cancelFuture (h : Sound seeds s old wait) (hclosed : s.closed = true) :
    ∃ wait', Sound seeds s.cancelFuture old wait' := by
  unfold CentroidUpdater.cancelFuture
  split
  · exact ⟨wait, h⟩
  · next i hi =>
    split
    · exact ⟨wait, h⟩
    · next task htask =>
      split
      · next hqueued =>
        have hdone : task.done = false := by rw [Task.done, hqueued]
        exact ⟨_, h.setTask htask hdone nofun (by simp [hclosed])⟩
      · exact ⟨wait, h⟩

theorem cancelFuture_frame (s : CentroidUpdater α T) :
    s.cancelFuture = { s with tasks := s.cancelFuture.tasks } := by
  unfold cancelFuture
  split
  · rfl
  · split
    · rfl
    · split <;> rfl

theorem close_frame (s : CentroidUpdater α T) :
    s.close = { s with tasks := s.close.tasks, closed := true } := by
  unfold close
  split
  · next hclosed => rw [← hclosed]
  · exact cancelFuture_frame { s with closed := true }

theorem Sound.close (h : Sound seeds s old wait) : ∃ wait', Sound seeds s.close old wait' := by
  unfold CentroidUpdater.close
  split
  · exact ⟨wait, h⟩
  · obtain ⟨got, hgot, hcentroids, hcount, -⟩ := h.installed
    have hsound : Sound seeds { s with closed := true } old wait :=
      ⟨⟨h.tasks, h.future, h.done⟩, h.started, h.shapes, h.taskShapes, h.lastStart,
        ⟨got, hgot, hcentroids, hcount, nofun⟩, nofun⟩
    exact hsound.cancelFuture rfl

end Worker

section Update

variable [LinearOrder T] [Sub T] {s : CentroidUpdater α T} {old : List (Task α T)}
  {wait : Option (Task α T)} {seeds : Rows α} {now : T}

def MayStart (s : CentroidUpdater α T) (now : T) : Prop :=
  s.closed = false ∧ s.fitFuture = none ∧ s.centroids.length ≤ s.signatures.length ∧
    s.firstWindowReady now = true ∧ s.intervalReady now = true

/-- The fit submitted at the time `now`. -/
def newTask (s : CentroidUpdater α T) (now : T) : Task α T where
  startedAt := now
  signatureRows := s.signatures.map (·.2)
  centroids := s.centroids
  state := .queued

theorem maybeStartRefit_cases (s : CentroidUpdater α T) (now : T) :
    s.maybeStartRefit now = s ∨ MayStart s now ∧ s.maybeStartRefit now = { s with
      fitFuture := some s.tasks.length
      tasks := s.tasks ++ [newTask s now]
      lastRefitStartedAt := some now
      refitsStarted := s.refitsStarted + 1 } := by
  unfold maybeStartRefit
  split
  · exact .inl rfl
  · next hready =>
    refine .inr ⟨?_, rfl⟩
    simp only [not_or, Bool.not_eq_true, Option.isSome_eq_false_iff, Option.isNone_iff_eq_none,
      Nat.not_lt, Bool.not_eq_false] at hready
    exact hready

theorem maybeStartRefit_frame (s : CentroidUpdater α T) (now : T) :
    s.maybeStartRefit now = { s with
      fitFuture := (s.maybeStartRefit now).fitFuture
      tasks := (s.maybeStartRefit now).tasks
      lastRefitStartedAt := (s.maybeStartRefit now).lastRefitStartedAt
      refitsStarted := (s.maybeStartRefit now).refitsStarted } := by
  rcases maybeStartRefit_cases s now with heq | ⟨-, heq⟩ <;> rw [heq]

theorem Sound.maybeStartRefit (h : Sound seeds s old wait)
    (hwaits : ∀ t, wait = some t → t.done = false) :
    ∃ old' wait', Sound seeds (s.maybeStartRefit now) old' wait' ∧
      ∀ t, wait' = some t → t.done = false := by
  rcases maybeStartRefit_cases s now with heq | ⟨⟨hopen, hfuture, -⟩, heq⟩
  · rw [heq]
    exact ⟨old, wait, h, hwaits⟩
  · rw [heq]
    have hwait : wait = none := by
      have := h.future
      rw [hfuture] at this
      cases wait with
      | none => rfl
      | some t => cases this
    subst hwait
    have hold : s.tasks = old := by simpa using h.tasks
    have hmem : ∀ t ∈ s.tasks ++ [newTask s now], t ∈ s.tasks ∨ t = newTask s now := by
      intro t ht
      simpa using ht
    refine ⟨old, some (newTask s now), ⟨⟨by simp [hold], by simp [hold], h.done⟩, ?_, h.shapes, ?_, ?_,
      h.installed, ?_⟩, ?_⟩
    · simp [h.started]
    · intro t ht
      rcases hmem t ht with ht | rfl
      · exact h.taskShapes t ht
      · exact ⟨h.shapes, nofun⟩
    · simp [newTask]
    · intro hclosed t ht hdone
      rcases hmem t ht with ht | rfl
      · exact h.settled hclosed t ht hdone
      · cases hdone
    · intro t ht
      obtain rfl := Option.some.inj ht
      rfl

def received (s : CentroidUpdater α T) (signature : List α) (now : T) : CentroidUpdater α T :=
  let s := s.pollRefit.expireSignatures now
  { s with
    historyStartedAt := s.historyStartedAt.or (some now)
    signatures := s.signatures ++ [(now, signature)] }

theorem received_frame (s : CentroidUpdater α T) (signature : List α) (now : T) :
    (s.received signature now).tasks = s.tasks ∧
      (s.received signature now).windowSeconds = s.windowSeconds ∧
      (s.received signature now).refitSeconds = s.refitSeconds ∧
      (s.received signature now).lastRefitStartedAt = s.lastRefitStartedAt := by
  rw [received, expireSignatures, pollRefit_frame]
  exact ⟨rfl, rfl, rfl, rfl⟩

theorem Sound.expire (h : Sound seeds s old wait) :
    Sound seeds (s.expireSignatures now) old wait :=
  ⟨⟨h.tasks, h.future, h.done⟩, h.started, h.shapes, h.taskShapes, h.lastStart, h.installed,
    h.settled⟩

theorem Sound.received (h : Sound seeds s old wait) (signature : List α) :
    ∃ old' wait', Sound seeds (s.received signature now) old' wait' ∧
      ∀ t, wait' = some t → t.done = false := by
  obtain ⟨old', wait', hpoll, -, hdone⟩ := h.pollRefit
  exact ⟨old', wait', ⟨⟨hpoll.tasks, hpoll.future, hpoll.done⟩, hpoll.started, hpoll.shapes,
    hpoll.taskShapes, hpoll.lastStart, hpoll.installed, hpoll.settled⟩, hdone⟩

variable [Zero α] [DecidableEq α]

theorem update_eq (s : CentroidUpdater α T) (signature : List α) (now : T) :
    s.update signature now =
      if s.closed = false ∧ nonzero signature = true then
        (s.received signature now).maybeStartRefit now
      else s.pollRefit.expireSignatures now := by
  have hclosed : (s.pollRefit.expireSignatures now).closed = s.closed := pollRefit_closed s
  unfold update received
  simp only [hclosed, Bool.not_eq_true]

theorem Sound.update (h : Sound seeds s old wait) (signature : List α) (now : T) :
    ∃ old' wait', Sound seeds (s.update signature now) old' wait' ∧
      ∀ t, wait' = some t → t.done = false := by
  rw [update_eq]
  split
  · obtain ⟨old', wait', hreceived, hdone⟩ := h.received signature
    exact hreceived.maybeStartRefit hdone
  · obtain ⟨old', wait', hpoll, -, hdone⟩ := h.pollRefit
    exact ⟨old', wait', hpoll.expire, hdone⟩

theorem step_cases {fitter : Fitter α} {event : Event α T} {t : CentroidUpdater α T}
    (hstep : step fitter s event = some t) :
    (∃ signature now, event = .route signature now ∧ t = s.update signature now) ∨
    (event = .close ∧ t = s.close) ∨
    ∃ i task state, (∀ signature now, event ≠ .route signature now) ∧ s.tasks[i]? = some task ∧
      workerStep fitter s task event = some state ∧ t = s.setTask i task state := by
  have hworker : ∀ i, (do
      let task ← s.tasks[i]?
      let state ← workerStep fitter s task event
      some (s.setTask i task state)) = some t → ∃ task state, s.tasks[i]? = some task ∧
        workerStep fitter s task event = some state ∧ t = s.setTask i task state := by
    intro i hi
    obtain ⟨task, htask, hrest⟩ := Option.bind_eq_some_iff.mp hi
    obtain ⟨state, hstate, hset⟩ := Option.bind_eq_some_iff.mp hrest
    exact ⟨task, state, htask, hstate, (Option.some.inj hset).symm⟩
  cases event with
  | route signature now => exact .inl ⟨signature, now, rfl, (Option.some.inj hstep).symm⟩
  | close => exact .inr (.inl ⟨rfl, (Option.some.inj hstep).symm⟩)
  | begin i =>
    obtain ⟨task, state, h⟩ := hworker i hstep
    exact .inr (.inr ⟨i, task, state, nofun, h⟩)
  | complete i =>
    obtain ⟨task, state, h⟩ := hworker i hstep
    exact .inr (.inr ⟨i, task, state, nofun, h⟩)
  | crash i e =>
    obtain ⟨task, state, h⟩ := hworker i hstep
    exact .inr (.inr ⟨i, task, state, nofun, h⟩)

theorem Sound.step {fitter : Fitter α} {event : Event α T} {t : CentroidUpdater α T} {k d : Nat}
    (hrect : shape seeds = List.replicate k d) (h : Sound seeds s old wait)
    (hstep : step fitter s event = some t) : ∃ old' wait', Sound seeds t old' wait' := by
  rcases step_cases hstep with ⟨signature, now, -, rfl⟩ | ⟨-, rfl⟩ |
    ⟨i, task, state, -, htask, hstate, rfl⟩
  · obtain ⟨old', wait', hupdate, -⟩ := h.update signature now
    exact ⟨old', wait', hupdate⟩
  · exact ⟨old, h.close⟩
  · obtain ⟨hdone, hcancel, hresult⟩ := workerStep_ok hstate
    have hshape := (h.taskShapes task (List.mem_of_getElem? htask)).1
    refine ⟨_, _, h.setTask htask hdone (fun c hc => ?_) fun _ => hcancel⟩
    rw [shape_runRefit (hshape.trans hrect) (hresult c hc), hshape]

theorem update_frame (s : CentroidUpdater α T) (signature : List α) (now : T) :
    (s.update signature now).dim = s.dim ∧
      (s.update signature now).windowSeconds = s.windowSeconds ∧
      (s.update signature now).refitSeconds = s.refitSeconds ∧
      (s.update signature now).closed = s.closed ∧
      (s.closed = true → (s.update signature now).centroids = s.centroids) := by
  have hpoll := pollRefit_frame s
  rw [update_eq]
  split
  · next hopen =>
    rw [maybeStartRefit_frame, received, expireSignatures]
    refine ⟨by rw [hpoll], by rw [hpoll], by rw [hpoll], by rw [hpoll], fun hclosed => ?_⟩
    rw [hopen.1] at hclosed
    cases hclosed
  · rw [expireSignatures]
    refine ⟨by rw [hpoll], by rw [hpoll], by rw [hpoll], by rw [hpoll], fun hclosed => ?_⟩
    exact pollRefit_centroids_of_closed hclosed

end Update

section History

variable {s t : CentroidUpdater α T} {es : List (Event α T)} {event : Event α T} {now : T}
  {signature : List α} {fitter : Fitter α}

@[simp] theorem calls_append_route : calls (es ++ [.route signature now]) =
    calls es ++ [(now, signature)] := by
  simp [calls]

theorem calls_append_other (h : ∀ signature now, event ≠ .route signature now) :
    calls (es ++ [event]) = calls es := by
  cases event with
  | route signature now => exact absurd rfl (h signature now)
  | _ => simp [calls]

variable [LinearOrder T]

theorem dropWhile_eq_filter {l : List (T × List α)} (hsorted : l.Pairwise (·.1 ≤ ·.1)) (cutoff : T) :
    l.dropWhile (fun p => p.1 < cutoff) = l.filter fun p => cutoff ≤ p.1 := by
  induction l with
  | nil => rfl
  | cons p l ih =>
    rw [List.pairwise_cons] at hsorted
    by_cases hp : p.1 < cutoff
    · rw [List.dropWhile_cons_of_pos (by simpa using hp), ih hsorted.2,
        List.filter_cons_of_neg (by simpa using hp)]
    · rw [List.dropWhile_cons_of_neg (by simpa using hp), List.filter_eq_self.mpr]
      intro q hq
      rw [not_lt] at hp
      rcases List.mem_cons.mp hq with rfl | hq
      · simpa using hp
      · simpa using hp.trans (hsorted.1 q hq)

variable [Sub T] [Zero α] [DecidableEq α]

/-- The signatures the updater keeps against the calls so far; `s` is not closed. -/
structure Keeps (s : CentroidUpdater α T) (es : List (Event α T)) : Prop where
  first : s.historyStartedAt = (nonzeroCalls es).head?.map (·.1)
  window : ∀ now, (calls es).getLast?.map (·.1) = some now →
    s.signatures = (nonzeroCalls es).filter fun p => now - s.windowSeconds ≤ p.1
  none : calls es = [] → s.signatures = []

theorem Keeps.congr (h : Keeps s es) (hcalls : calls (es ++ [event]) = calls es)
    (hsignatures : t.signatures = s.signatures) (hstarted : t.historyStartedAt = s.historyStartedAt)
    (hwindow : t.windowSeconds = s.windowSeconds) : Keeps t (es ++ [event]) := by
  have hnonzero : nonzeroCalls (es ++ [event]) = nonzeroCalls es := by
    rw [nonzeroCalls, hcalls, nonzeroCalls]
  refine ⟨by rw [hstarted, hnonzero, h.first], fun now hnow => ?_, fun hnil => ?_⟩
  · rw [hcalls] at hnow
    rw [hsignatures, hnonzero, hwindow, h.window now hnow]
  · rw [hcalls] at hnil
    rw [hsignatures, h.none hnil]

theorem Keeps.expire (hclock : Clock s.windowSeconds) (h : Keeps s es)
    (hsorted : (calls es).Pairwise (·.1 ≤ ·.1)) (hnow : ∀ p ∈ calls es, p.1 ≤ now) :
    s.signatures.dropWhile (fun p => p.1 < now - s.windowSeconds) =
      (nonzeroCalls es).filter fun p => now - s.windowSeconds ≤ p.1 := by
  have hnonzero : (nonzeroCalls es).Pairwise (·.1 ≤ ·.1) := hsorted.filter _
  cases hlast : (calls es).getLast? with
  | none =>
    have hnil := List.getLast?_eq_none_iff.mp hlast
    rw [h.none hnil, nonzeroCalls, hnil]
    rfl
  | some last =>
    have hle := hclock.mono last.1 now (hnow last (List.mem_of_getLast? hlast))
    rw [h.window last.1 (by rw [hlast]; rfl), dropWhile_eq_filter (hnonzero.filter _),
      List.filter_filter]
    apply List.filter_congr
    intro p hp
    rw [Bool.eq_iff_iff, Bool.and_eq_true, decide_eq_true_iff, decide_eq_true_iff]
    exact ⟨fun hp => hp.1, fun hp => ⟨hp, hle.trans hp⟩⟩

theorem Keeps.received (hclock : Clock s.windowSeconds) (h : Keeps s es)
    (hsorted : (calls es).Pairwise (·.1 ≤ ·.1)) (hnow : ∀ p ∈ calls es, p.1 ≤ now)
    (hnonzero : nonzero signature = true) :
    Keeps (s.received signature now) (es ++ [.route signature now]) := by
  have hcalls : nonzeroCalls (es ++ [.route signature now]) =
      nonzeroCalls es ++ [(now, signature)] := by
    rw [nonzeroCalls, calls_append_route, List.filter_append, nonzeroCalls]
    simp [hnonzero]
  have hpoll := pollRefit_frame s
  have hwindow : (s.received signature now).windowSeconds = s.windowSeconds := by
    rw [CentroidUpdater.received, expireSignatures, hpoll]
  have hsignatures : (s.received signature now).signatures =
      s.signatures.dropWhile (fun p => p.1 < now - s.windowSeconds) ++ [(now, signature)] := by
    rw [CentroidUpdater.received, expireSignatures, hpoll]
  have hstarted : (s.received signature now).historyStartedAt =
      s.historyStartedAt.or (some now) := by
    rw [CentroidUpdater.received, expireSignatures, hpoll]
  refine ⟨?_, fun now' hnow' => ?_, fun hnil => ?_⟩
  · rw [hstarted, h.first, hcalls]
    cases nonzeroCalls es <;> rfl
  · obtain rfl : now = now' := by simpa using hnow'
    rw [hsignatures, h.expire hclock hsorted hnow, hwindow, hcalls, List.filter_append]
    simp [hclock.back now]
  · simp at hnil

theorem Keeps.expired (hclock : Clock s.windowSeconds) (h : Keeps s es)
    (hsorted : (calls es).Pairwise (·.1 ≤ ·.1)) (hnow : ∀ p ∈ calls es, p.1 ≤ now)
    (hzero : nonzero signature = false) :
    Keeps (s.pollRefit.expireSignatures now) (es ++ [.route signature now]) := by
  have hcalls : nonzeroCalls (es ++ [.route signature now]) = nonzeroCalls es := by
    rw [nonzeroCalls, calls_append_route, List.filter_append, nonzeroCalls]
    simp [hzero]
  have hpoll := pollRefit_frame s
  have hwindow : (s.pollRefit.expireSignatures now).windowSeconds = s.windowSeconds := by
    rw [expireSignatures, hpoll]
  have hsignatures : (s.pollRefit.expireSignatures now).signatures =
      s.signatures.dropWhile (fun p => p.1 < now - s.windowSeconds) := by
    rw [expireSignatures, hpoll]
  have hstarted : (s.pollRefit.expireSignatures now).historyStartedAt = s.historyStartedAt := by
    rw [expireSignatures, hpoll]
  refine ⟨by rw [hstarted, h.first, hcalls], fun now' hnow' => ?_, fun hnil => ?_⟩
  · obtain rfl : now = now' := by simpa using hnow'
    rw [hsignatures, h.expire hclock hsorted hnow, hwindow, hcalls]
  · simp at hnil

theorem Keeps.update (hclock : Clock s.windowSeconds) (h : Keeps s es)
    (hsorted : (calls es).Pairwise (·.1 ≤ ·.1)) (hnow : ∀ p ∈ calls es, p.1 ≤ now)
    (hopen : s.closed = false) :
    Keeps (s.update signature now) (es ++ [.route signature now]) := by
  rw [update_eq]
  split
  · next hnonzero =>
    have hreceived := h.received hclock hsorted hnow hnonzero.2
    rw [maybeStartRefit_frame]
    exact ⟨hreceived.first, hreceived.window, hreceived.none⟩
  · next hzero =>
    exact h.expired hclock hsorted hnow (by simpa [hopen] using hzero)

theorem Keeps.step (hclock : Clock s.windowSeconds)
    (hsorted : (calls (es ++ [event])).Pairwise (·.1 ≤ ·.1)) (hstep : step fitter s event = some t)
    (h : s.closed = false → Keeps s es) (hopen : t.closed = false) : Keeps t (es ++ [event]) := by
  rcases step_cases hstep with ⟨signature, now, rfl, rfl⟩ | ⟨rfl, rfl⟩ |
    ⟨i, task, state, hevent, -, -, rfl⟩
  · rw [calls_append_route, List.pairwise_append] at hsorted
    have hnow : ∀ p ∈ calls es, p.1 ≤ now := fun p hp => hsorted.2.2 p hp _ List.mem_cons_self
    rw [(update_frame s signature now).2.2.2.1] at hopen
    exact (h hopen).update hclock hsorted.1 hnow hopen
  · rw [close_frame] at hopen
    cases hopen
  · exact (h hopen).congr (calls_append_other hevent) rfl rfl rfl

theorem step_closed (hstep : step fitter s event = some t) (hclosed : s.closed = true) :
    t.closed = true ∧ t.centroids = s.centroids := by
  rcases step_cases hstep with ⟨signature, now, -, rfl⟩ | ⟨-, rfl⟩ | ⟨i, task, state, -, -, -, rfl⟩
  · obtain ⟨-, -, -, hsame, hcentroids⟩ := update_frame s signature now
    exact ⟨hsame.trans hclosed, hcentroids hclosed⟩
  · rw [close_frame]
    exact ⟨rfl, rfl⟩
  · exact ⟨hclosed, rfl⟩

theorem step_setup (hstep : step fitter s event = some t) :
    t.dim = s.dim ∧ t.windowSeconds = s.windowSeconds ∧ t.refitSeconds = s.refitSeconds := by
  rcases step_cases hstep with ⟨signature, now, -, rfl⟩ | ⟨-, rfl⟩ | ⟨i, task, state, -, -, -, rfl⟩
  · obtain ⟨hdim, hwindow, hrefit, -⟩ := update_frame s signature now
    exact ⟨hdim, hwindow, hrefit⟩
  · rw [close_frame]
    exact ⟨rfl, rfl, rfl⟩
  · exact ⟨rfl, rfl, rfl⟩

end History

section Run

variable {seeds : Rows α} {norm : List α → α} {eps : α} {window refit : T} {balanced : Bool}

def initial (dim : Nat) (window refit : T) (balanced : Bool) (centroids : Rows α) :
    CentroidUpdater α T :=
  { dim, windowSeconds := window, refitSeconds := refit, balanced, centroids }

theorem create_ok [Div α] [LinearOrder α] [LinearOrder T] [Zero T] {s₀ : CentroidUpdater α T}
    (h : create norm eps seeds window refit balanced = .ok s₀) :
    0 < window ∧ s₀ = initial (seeds.headD []).length window refit balanced
        (seeds.map fun row => row.map (· / norm row)) ∧
      shape seeds = List.replicate seeds.length (seeds.headD []).length := by
  unfold create at h
  split at h
  · cases h
  next hwindow =>
  split at h
  · cases h
  dsimp only at h
  split at h
  · cases h
  next hshape =>
  split at h
  · cases h
  obtain rfl := Except.ok.inj h
  refine ⟨not_le.mp hwindow, rfl, List.eq_replicate_iff.mpr ⟨by simp [shape], ?_⟩⟩
  intro n hn
  obtain ⟨row, hrow, rfl⟩ := List.mem_map.mp hn
  simp only [not_or, List.any_eq_true, not_exists, not_and, decide_eq_true_iff, not_not] at hshape
  exact hshape.2.2 row hrow

variable [LinearOrder T] [Sub T] [Zero α] [DecidableEq α] {s₀ s : CentroidUpdater α T}
  {es : List (Event α T)} {fitter : Fitter α}

structure Reaches (s₀ : CentroidUpdater α T) (window refit : T) (s : CentroidUpdater α T)
    (es : List (Event α T)) : Prop where
  sound : ∃ old wait, Sound s₀.centroids s old wait
  dim : s.dim = s₀.dim
  windowSeconds : s.windowSeconds = window
  refitSeconds : s.refitSeconds = refit
  keeps : (calls es).Pairwise (·.1 ≤ ·.1) → s.closed = false → Keeps s es
  polled : ∀ past signature now, es = past ++ [.route signature now] →
    ∃ old wait, Sound s₀.centroids s old wait ∧ ∀ t, wait = some t → t.done = false

theorem reaches {k d : Nat} (hrect : shape s₀.centroids = List.replicate k d)
    (hclock : Clock window)
    (hinit : s₀ = initial s₀.dim window refit s₀.balanced s₀.centroids)
    (hrun : Machine.exec (step fitter) s₀ es = some s) : Reaches s₀ window refit s es := by
  have hstart : Reaches s₀ window refit s₀ [] := by
    rw [hinit]
    have hnone : ∀ t : Task α T, t ∉ ([] : List (Task α T)) := fun _ => List.not_mem_nil
    refine ⟨⟨[], none, ⟨rfl, rfl, fun t ht => absurd ht (hnone t)⟩, rfl, rfl,
      fun t ht => absurd ht (hnone t), rfl, ⟨[], List.prefix_refl _, rfl, rfl, fun _ => rfl⟩,
      fun _ t ht => absurd ht (hnone t)⟩, rfl, rfl, rfl,
      fun _ _ => ⟨rfl, by simp [calls], fun _ => rfl⟩, by simp⟩
  apply Machine.exec_history_invariant _ hstart hrun
  intro s e t past h hstep
  obtain ⟨old, wait, hsound⟩ := h.sound
  obtain ⟨hdim, hwindow, hrefit⟩ := step_setup hstep
  refine ⟨hsound.step hrect hstep, hdim.trans h.dim, hwindow.trans h.windowSeconds,
    hrefit.trans h.refitSeconds, ?_, ?_⟩
  · intro hsorted hopen
    have hpast : (calls past).Pairwise (·.1 ≤ ·.1) := by
      rw [calls, List.filterMap_append, List.pairwise_append] at hsorted
      exact hsorted.1
    exact Keeps.step (h.windowSeconds.symm ▸ hclock) hsorted hstep (h.keeps hpast) hopen
  · intro past' signature now heq
    obtain ⟨rfl, hlast⟩ := List.append_inj' heq rfl
    obtain rfl := List.singleton_inj.mp hlast
    obtain rfl := Option.some.inj hstep
    exact hsound.update signature now

structure StartsFit (s : CentroidUpdater α T) (es : List (Event α T)) (signature : List α) (now : T)
    (t : CentroidUpdater α T) : Prop where
  window : ∃ first rest, nonzeroCalls (es ++ [.route signature now]) = first :: rest ∧
    s.windowSeconds ≤ now - first.1
  interval : ∀ last, s.tasks.getLast? = some last → s.refitSeconds ≤ now - last.startedAt
  free : ∀ u ∈ s.tasks, u.done = true
  enough : t.centroids.length ≤ t.signatures.length
  task : t.tasks = s.tasks ++ [{ startedAt := now, signatureRows := t.signatures.map (·.2),
                                 centroids := t.centroids, state := .queued }]

theorem startsFit {old : List (Task α T)} {wait : Option (Task α T)} {signature : List α} {now : T}
    (hsound : Sound seeds s old wait) (hclock : Clock s.windowSeconds)
    (hkeeps : s.closed = false → Keeps s es) (hsorted : (calls es).Pairwise (·.1 ≤ ·.1))
    (hnow : ∀ p ∈ calls es, p.1 ≤ now) (hstarts : (s.update signature now).tasks ≠ s.tasks) :
    StartsFit s es signature now (s.update signature now) := by
  obtain ⟨htasks, hwindow, hrefit, hlast⟩ := received_frame s signature now
  rw [update_eq] at hstarts ⊢
  split at hstarts
  case isFalse =>
    rw [expireSignatures, pollRefit_frame] at hstarts
    exact absurd rfl hstarts
  case isTrue hcond =>
    rw [if_pos hcond]
    rcases maybeStartRefit_cases (s.received signature now) now with heq | ⟨hmay, heq⟩
    · rw [heq, htasks] at hstarts
      exact absurd rfl hstarts
    · obtain ⟨-, hfuture, henough, hfirst, hinterval⟩ := hmay
      have hreceived := (hkeeps hcond.1).received hclock hsorted hnow hcond.2
      obtain ⟨old', wait', hsound', -⟩ := hsound.received signature
      rw [heq]
      refine ⟨?_, ?_, ?_, henough, ?_⟩
      · rw [firstWindowReady, hreceived.first] at hfirst
        cases hcalls : nonzeroCalls (es ++ [.route signature now]) with
        | nil =>
          rw [hcalls] at hfirst
          cases hfirst
        | cons first rest =>
          rw [hcalls] at hfirst
          refine ⟨first, rest, rfl, ?_⟩
          rw [← hwindow]
          simpa using hfirst
      · intro last hlast'
        rw [intervalReady, hlast, hsound.lastStart, hlast'] at hinterval
        rw [← hrefit]
        simpa using hinterval
      · intro u hu
        have hold : s.tasks = old' := by
          have hwait := hsound'.future
          rw [hfuture] at hwait
          cases wait' with
          | none => rw [← htasks, hsound'.tasks]; simp
          | some t => cases hwait
        exact hsound'.done u (hold ▸ hu)
      · rw [htasks]
        rfl

/-- The laws of the updater along every run. -/
theorem updater_laws [Div α] [LinearOrder α] [Zero T] (hclock : Clock window)
    (hcreate : create norm eps seeds window refit balanced = .ok s₀)
    (hrun : Machine.exec (step fitter) s₀ es = some s)
    (htimes : (calls es).Pairwise (·.1 ≤ ·.1)) :
    -- at most one fit is pending
    (s.tasks.filter fun t => !t.done).length ≤ 1 ∧
    -- the window after each call before close
    (∀ past signature now, es = past ++ [.route signature now] → s.closed = false →
      s.signatures = (nonzeroCalls es).filter fun p => now - window ≤ p.1 ∧ p.1 ≤ now) ∧
    -- when a fit starts, and what it is given
    (∀ signature now, (∀ p ∈ calls es, p.1 ≤ now) → (s.update signature now).tasks ≠ s.tasks →
      StartsFit s es signature now (s.update signature now)) ∧
    -- the installed centroids
    s₀.centroids = seeds.map (fun row => row.map (· / norm row)) ∧
    (∃ got, got <+: s.tasks ∧ s.centroids = (latest got).getD s₀.centroids ∧
      s.refitsCompleted = got.countP (·.result?.isSome)) ∧
    (∀ past signature now, es = past ++ [.route signature now] → s.closed = false →
      s.centroids = (latest s.tasks).getD s₀.centroids) ∧
    (∀ event t, s.closed = true → step fitter s event = some t → t.centroids = s.centroids) ∧
    shape s.centroids = shape seeds ∧ s.centroids.length = seeds.length ∧
    -- a failed fit
    (∀ i task error, s.fitFuture = some i → s.tasks[i]? = some task → task.state = .failed error →
      s.pollRefit = { s with fitFuture := none, lastRefitError := some error }) ∧
    -- the counters
    (s.closed = false → s.refitsStarted = s.refitsCompleted + s.collected.countP Task.failed +
      if s.fitFuture.isSome then 1 else 0) := by
  obtain ⟨-, hinit, hrect⟩ := create_ok hcreate
  have hshape : shape s₀.centroids = shape seeds := by
    rw [hinit]
    simp [shape, initial]
  have hreaches : Reaches s₀ window refit s es :=
    reaches (hshape.trans hrect) hclock (by rw [hinit]; rfl) hrun
  obtain ⟨old, wait, hsound⟩ := hreaches.sound
  have hclock' : Clock s.windowSeconds := hreaches.windowSeconds.symm ▸ hclock
  obtain ⟨got, hgot, hcentroids, hcompleted, hopen⟩ := hsound.installed
  refine ⟨hsound.toWaits.pending_le_one, ?_, ?_, by rw [hinit]; rfl, ?_, ?_, ?_, hsound.shapes.trans hshape,
    ?_, ?_, ?_⟩
  · intro past signature now hes hclosed
    have hlast : (calls es).getLast?.map (·.1) = some now := by simp [hes]
    rw [(hreaches.keeps htimes hclosed).window now hlast, hreaches.windowSeconds]
    apply List.filter_congr
    intro p hp
    have hle : p.1 ≤ now := by
      rw [hes, calls_append_route, List.pairwise_append] at htimes
      rw [nonzeroCalls, hes, calls_append_route] at hp
      rcases List.mem_append.mp (List.mem_filter.mp hp).1 with hp | hp
      · exact htimes.2.2 p hp _ List.mem_cons_self
      · rw [List.mem_singleton.mp hp]
    simp [hle]
  · intro signature now hnow hstarts
    exact startsFit hsound hclock' (hreaches.keeps htimes) htimes hnow hstarts
  · refine ⟨got, hgot.trans ?_, hcentroids, hcompleted⟩
    rw [hsound.tasks]
    exact List.prefix_append _ _
  · intro past signature now hes hclosed
    obtain ⟨old', wait', hsound', hwaits⟩ := hreaches.polled past signature now hes
    obtain ⟨got', -, hcentroids', -, hopen'⟩ := hsound'.installed
    rw [hcentroids', hopen' hclosed, hsound'.tasks]
    cases wait' with
    | none => simp
    | some t => rw [Option.toList_some, latest_append, result?_of_not_done (hwaits t rfl), Option.none_or]
  · intro event t hclosed hstep
    exact (step_closed hstep hclosed).2
  · simpa [shape] using congrArg List.length (hsound.shapes.trans hshape)
  · intro i task error hfuture htask hfailed
    rw [pollRefit, hfuture, Option.bind_some, htask]
    simp only [hfailed]
  · intro hclosed
    rw [hsound.started, hcompleted, hopen hclosed, hsound.toWaits.collected,
      hsound.toWaits.future, hsound.tasks, List.length_append,
      length_eq_succeeded_add_failed hsound.done fun t ht => hsound.settled hclosed t (by
        rw [hsound.tasks]
        exact List.mem_append_left _ ht)]
    cases wait <;> rfl

/-- Two decoders, a window of two seconds: the third call submits a fit, which is done before the
fourth. -/
theorem updater_laws_oneRefit :
    let fitter : Fitter Int :=
      { kmeans := fun _ _ centroids => .ok centroids
        columns := fun _ fitted => List.range fitted.length
        columns_length := by simp
        columns_lt := by simp }
    let es : List (Event Int Int) := [.route [1, 0] 0, .route [0, 1] 1, .route [1, 0] 2, .begin 0,
      .complete 0, .route [0, 1] 3]
    ∃ s₀ s, create List.sum 0 [[2, 0], [0, 4]] 2 1 true = .ok s₀ ∧
      Machine.exec (step fitter) s₀ es = some s ∧ s.refitsStarted = 2 ∧ s.refitsCompleted = 1 ∧
      s.signatures = [(1, [0, 1]), (2, [1, 0]), (3, [0, 1])] ∧
      (s.tasks.filter fun t => !t.done).length ≤ 1 := by
  intro fitter es
  obtain ⟨s₀, hcreate⟩ : ∃ s₀ : CentroidUpdater Int Int,
      create List.sum 0 [[2, 0], [0, 4]] 2 1 true = .ok s₀ := ⟨_, rfl⟩
  obtain ⟨s, hs⟩ : ∃ s, Machine.exec (step fitter) s₀ es = some s := by
    obtain rfl := Except.ok.inj hcreate
    exact ⟨_, rfl⟩
  have hlaws := updater_laws (Clock.of_orderedGroup (by decide)) hcreate hs (by decide)
  refine ⟨s₀, s, hcreate, hs, ?_, ?_, ?_, hlaws.1⟩
  all_goals
    obtain rfl := Except.ok.inj hcreate
    obtain rfl := Option.some.inj hs
    rfl

end Run

end CentroidUpdater

end EldrServing.Routing
