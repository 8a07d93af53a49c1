import Mathlib.Init

/-!
# Exceptions

The exception classes of the modelled Python code, with their messages. A function that
can raise returns in `Except PyError`; an `assert` without a message carries the empty text.
-/

namespace EldrServing

set_option autoImplicit false

inductive PyError where
  | assertionError (msg : String)
  | valueError (msg : String)
  | runtimeError (msg : String)
  | keyError (msg : String)
  | indexError (msg : String)
  | http (status : Nat) (reason : String)
  deriving DecidableEq, Repr

def assert (p : Prop) [Decidable p] (msg : String) : Except PyError Unit :=
  if p then .ok () else .error (.assertionError msg)

variable {α β : Type}

@[simp] theorem assert_bind_eq_ok {p : Prop} [Decidable p] {msg : String}
    {f : Unit → Except PyError α} {a : α} : (assert p msg >>= f) = .ok a ↔ p ∧ f () = .ok a := by
  by_cases h : p
  · simp [assert, h, bind, Except.bind]
  · simp [assert, h, bind, Except.bind]

@[simp] theorem assert_eq_ok {p : Prop} [Decidable p] {msg : String} {u : Unit} :
    assert p msg = .ok u ↔ p := by
  by_cases h : p <;> simp [assert, h]

theorem except_bind_eq_ok {x : Except PyError α} {f : α → Except PyError β} {b : β} :
    (x >>= f) = .ok b ↔ ∃ a, x = .ok a ∧ f a = .ok b := by
  cases x with
  | error e => simp [bind, Except.bind]
  | ok a => simp [bind, Except.bind]

theorem ok_pair_inj {a c : α} {b d : β} (h : (.ok (a, b) : Except PyError (α × β)) = .ok (c, d)) :
    a = c ∧ b = d := Prod.mk.inj (Except.ok.inj h)

theorem some_unique {x : Option α} {a b : α} (h : x = some a) (h' : x = some b) : a = b :=
  Option.some.inj (h.symm.trans h')

theorem except_map_eq_ok {x : Except PyError α} {f : α → β} {b : β} :
    x.map f = .ok b ↔ ∃ a, x = .ok a ∧ f a = b := by
  cases x with
  | error e => simp [Except.map]
  | ok a => simp [Except.map]

/-- A lookup that raises `e` where there is nothing. -/
def orRaise (e : PyError) : Option α → Except PyError α
  | some a => .ok a
  | none => .error e

@[simp] theorem orRaise_eq_ok {e : PyError} {x : Option α} {a : α} :
    orRaise e x = .ok a ↔ x = some a := by
  cases x <;> simp [orRaise]

theorem toOption_eq_some {x : Except PyError α} {a : α} : x.toOption = some a ↔ x = .ok a := by
  cases x with
  | error e => simp [Except.toOption]
  | ok b => simp [Except.toOption]

end EldrServing
