import Scim.Parse.Event
import Scim.ParseError

/-!
# `Scim.Parse.Attempt`: reading with records

An `Attempt` is the outcome of reading something, a value or the reason why there is none, together
with the events on the way. Events are kept when reading fails, since it is then that one wants to
know how far it got. What is read never depends on the events: `outcome` takes a sequence of steps
to the sequence of their outcomes (`outcome_bind`).

The readers are written with `do` in this monad. The simp lemmas `outcome_…` turn such a sequence
into one of `Except ParseError`, where events play no role.
-/

set_option autoImplicit false

namespace Scim

/-- The outcome of reading something and the events on the way. -/
structure Attempt (α : Type) where
  events : List Event
  outcome : Except ParseError α

namespace Attempt

variable {α β : Type}

/-- Nothing happens, and the value is there. -/
def succeed (a : α) : Attempt α := ⟨[], .ok a⟩

/-- Reading fails. -/
def fail (e : ParseError) : Attempt α := ⟨[], .error e⟩

/-- Records an event. -/
def note (e : Event) : Attempt Unit := ⟨[e], .ok ()⟩

/-- One step after another. The second step is not taken if the first one fails. -/
def andThen (a : Attempt α) (f : α → Attempt β) : Attempt β :=
  match a.outcome with
  | .ok x => ⟨a.events ++ (f x).events, (f x).outcome⟩
  | .error e => ⟨a.events, .error e⟩

/-- Steps in a row, as `do` writes them. Failing ends them, and the events so far are kept. -/
instance : Monad Attempt where
  pure := succeed
  bind := andThen

/-- There is nothing to do before the next step. -/
@[simp]
theorem pure_bind (a : α) (f : α → Attempt β) : (pure a >>= f) = f a := rfl

/-- A value that is there is the outcome. -/
@[simp]
theorem outcome_pure (a : α) : (pure a : Attempt α).outcome = .ok a := rfl

/-- A failure is the outcome. -/
@[simp]
theorem outcome_fail (e : ParseError) : (fail e : Attempt α).outcome = .error e := rfl

/-- Recording an event always succeeds. -/
@[simp]
theorem outcome_note (e : Event) : (note e).outcome = .ok () := rfl

/-- The outcome of two steps is that of the second one on the value of the first. No event matters.
-/
@[simp]
theorem outcome_bind (a : Attempt α) (f : α → Attempt β) :
    (a >>= f).outcome = a.outcome.bind fun x => (f x).outcome := by
  show (andThen a f).outcome = _
  unfold andThen
  cases a.outcome <;> rfl

end Attempt

end Scim
