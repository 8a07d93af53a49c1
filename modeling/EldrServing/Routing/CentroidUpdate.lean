import EldrServing.Lib.Machine
import EldrServing.Lib.Py
import Mathlib.Algebra.Order.Group.Defs
import Mathlib.Algebra.Order.Sub.Basic
import Mathlib.Order.Basic

/-!
# The background centroid updater

`update` runs on the routing thread: it collects a finished fit, drops the signatures that left
the window, appends the new one and may submit the next fit. The worker thread takes a fit up,
finishes it or fails between any two calls. The executor keeps every fit it was given, in the
order of submission, and the updater holds the index of the one it waits for.

Vectors are lists over any type with a zero. Times are in any linear order with a subtraction,
which need not be exact: `Clock` states the two facts the window rests on, and they hold of
rounded subtraction too.
-/

namespace EldrServing.Routing

set_option autoImplicit false

abbrev Rows (α : Type) := List (List α)

def shape {α : Type} (m : Rows α) : List Nat := m.map List.length

/-- The numeric routines a refit calls: k-means, which may raise, and the columns
`linear_sum_assignment` returns for the square matrix of the negated similarities. -/
structure Fitter (α : Type) where
  kmeans : (balanced : Bool) → (signatures centroids : Rows α) → Except String (Rows α)
  columns : (current fitted : Rows α) → List Nat
  columns_length : ∀ current fitted, shape fitted = shape current →
    (columns current fitted).length = fitted.length
  columns_lt : ∀ current fitted, shape fitted = shape current →
    ∀ j ∈ columns current fitted, j < fitted.length

section Refit

variable {α : Type} (fitter : Fitter α)

/-- `aligned[rows] = fitted[columns]`. -/
def alignCentroids (current fitted : Rows α) : Rows α :=
  (fitter.columns current fitted).map fun j => fitted.getD j []

def runRefit (signatureRows centroids : Rows α) (balanced : Bool) : Except String (Rows α) := do
  let fitted ← fitter.kmeans balanced signatureRows centroids
  if shape fitted ≠ shape centroids then .error "ValueError: invalid centroid shape/value"
  else .ok (alignCentroids fitter centroids fitted)

end Refit

inductive TaskState (α : Type) where
  | queued
  | running
  | finished (centroids : Rows α)
  | failed (error : String)
  | cancelled

structure Task (α T : Type) where
  /-- Not in the source: the time of the submission. -/
  startedAt : T
  signatureRows : Rows α
  centroids : Rows α
  state : TaskState α

namespace Task

variable {α T : Type}

def done (t : Task α T) : Bool :=
  match t.state with
  | .queued | .running => false
  | _ => true

def result? (t : Task α T) : Option (Rows α) :=
  match t.state with
  | .finished centroids => some centroids
  | _ => none

def failed (t : Task α T) : Bool :=
  match t.state with
  | .failed _ => true
  | _ => false

end Task

structure CentroidUpdater (α T : Type) where
  dim : Nat
  windowSeconds : T
  refitSeconds : T
  balanced : Bool
  centroids : Rows α
  signatures : List (T × List α) := []
  historyStartedAt : Option T := none
  lastRefitStartedAt : Option T := none
  fitFuture : Option Nat := none
  /-- The fits submitted to the executor so far. -/
  tasks : List (Task α T) := []
  closed : Bool := false
  refitsStarted : Nat := 0
  refitsCompleted : Nat := 0
  lastRefitError : Option String := none

namespace CentroidUpdater

variable {α T : Type}

/-- The constructor. Rows are divided by their norm; `norm` and `eps` are the norm in use and the
constant `_EPS`. -/
def create [Div α] [LinearOrder α] [LinearOrder T] [Zero T] (norm : List α → α) (eps : α)
    (seeds : Rows α) (windowSeconds refitSeconds : T) (balanced : Bool) :
    Except PyError (CentroidUpdater α T) :=
  if windowSeconds ≤ 0 then .error (.valueError "window_seconds must be positive and finite")
  else if refitSeconds ≤ 0 then .error (.valueError "refit_seconds must be positive and finite")
  else
    let dim := (seeds.headD []).length
    if seeds = [] ∨ dim < 1 ∨ seeds.any fun row => row.length ≠ dim then
      .error (.valueError "seed_centroids must have shape [K, dim]")
    else if seeds.any fun row => norm row ≤ eps then
      .error (.valueError "Require one nonzero seed per decoder in a fixed group")
    else
      .ok { dim, windowSeconds, refitSeconds, balanced
            centroids := seeds.map fun row => row.map (· / norm row) }

def pollRefit (s : CentroidUpdater α T) : CentroidUpdater α T :=
  match s.fitFuture.bind (s.tasks[·]?) with
  | none => s
  | some task =>
    match task.state with
    | .queued | .running => s
    | .failed error => { s with fitFuture := none, lastRefitError := some error }
    | .cancelled => { s with fitFuture := none, lastRefitError := some "CancelledError()" }
    | .finished fitted =>
      if s.closed then { s with fitFuture := none }
      else { s with
        fitFuture := none
        centroids := fitted
        refitsCompleted := s.refitsCompleted + 1
        lastRefitError := none }

section Update

variable [LinearOrder T] [Sub T]

def expireSignatures (s : CentroidUpdater α T) (now : T) : CentroidUpdater α T :=
  { s with signatures := s.signatures.dropWhile fun p => p.1 < now - s.windowSeconds }

def firstWindowReady (s : CentroidUpdater α T) (now : T) : Bool :=
  match s.historyStartedAt with
  | some started => s.windowSeconds ≤ now - started
  | none => false

def intervalReady (s : CentroidUpdater α T) (now : T) : Bool :=
  match s.lastRefitStartedAt with
  | some started => s.refitSeconds ≤ now - started
  | none => true

def maybeStartRefit (s : CentroidUpdater α T) (now : T) : CentroidUpdater α T :=
  if s.closed ∨ s.fitFuture.isSome ∨ s.signatures.length < s.centroids.length ∨
      ¬ s.firstWindowReady now ∨ ¬ s.intervalReady now then s
  else { s with
    fitFuture := some s.tasks.length
    tasks := s.tasks ++ [{ startedAt := now, signatureRows := s.signatures.map (·.2),
                           centroids := s.centroids, state := .queued }]
    lastRefitStartedAt := some now
    refitsStarted := s.refitsStarted + 1 }

variable [Zero α] [DecidableEq α]

def nonzero (signature : List α) : Bool := signature.any (· ≠ 0)

def update (s : CentroidUpdater α T) (signature : List α) (now : T) : CentroidUpdater α T :=
  let s := s.pollRefit.expireSignatures now
  if ¬ s.closed ∧ nonzero signature then
    let s := { s with historyStartedAt := s.historyStartedAt.or (some now) }
    maybeStartRefit { s with signatures := s.signatures ++ [(now, signature)] } now
  else s

end Update

def setTask (s : CentroidUpdater α T) (i : Nat) (task : Task α T) (state : TaskState α) :
    CentroidUpdater α T :=
  { s with tasks := s.tasks.set i { task with state } }

/-- `future.cancel()`: a fit the worker has not taken up is cancelled, one it runs goes on. -/
def cancelFuture (s : CentroidUpdater α T) : CentroidUpdater α T :=
  match s.fitFuture with
  | none => s
  | some i =>
    match s.tasks[i]? with
    | none => s
    | some task =>
      match task.state with
      | .queued => s.setTask i task .cancelled
      | _ => s

def close (s : CentroidUpdater α T) : CentroidUpdater α T :=
  if s.closed then s else cancelFuture { s with closed := true }

inductive Event (α T : Type) where
  | route (signature : List α) (now : T)
  /-- The worker thread takes the fit `i` up, finishes it, or the fit raises. -/
  | begin (i : Nat)
  | complete (i : Nat)
  | crash (i : Nat) (error : String)
  | close

def TaskState.ofResult : Except String (Rows α) → TaskState α
  | .ok centroids => .finished centroids
  | .error error => .failed error

/-- The state of the fit `i` after a step of the worker, which runs one fit at a time. -/
def workerStep (fitter : Fitter α) (s : CentroidUpdater α T) (task : Task α T) :
    Event α T → Option (TaskState α)
  | .begin _ =>
    match task.state with
    | .queued =>
      if s.tasks.any fun t => match t.state with | .running => true | _ => false then none
      else some .running
    | _ => none
  | .complete _ =>
    match task.state with
    | .running =>
      some (TaskState.ofResult (runRefit fitter task.signatureRows task.centroids s.balanced))
    | _ => none
  | .crash _ error =>
    match task.state with
    | .running => some (.failed error)
    | _ => none
  | _ => none

variable [LinearOrder T] [Sub T] [Zero α] [DecidableEq α]

def step (fitter : Fitter α) (s : CentroidUpdater α T) (event : Event α T) :
    Option (CentroidUpdater α T) :=
  match event with
  | .route signature now => some (s.update signature now)
  | .close => some s.close
  | .begin i | .complete i | .crash i _ => do
    let task ← s.tasks[i]?
    let state ← workerStep fitter s task event
    some (s.setTask i task state)

end CentroidUpdater

end EldrServing.Routing
