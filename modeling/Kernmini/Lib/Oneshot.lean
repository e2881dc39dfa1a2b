/-
Kernmini.Lib.Oneshot — a channel for one value.

Whichever end acts first decides: the sender sends, the sender is dropped,
or the receiver is closed. What happens to the channel after that changes
nothing.
-/
import Mathlib.Logic.Basic

namespace Kernmini.Lib

inductive Oneshot (α : Type*) where
  /-- neither end has acted -/
  | waiting
  /-- the sender has sent -/
  | sent (a : α)
  /-- the receiver was closed first -/
  | closed
  /-- the sender was dropped first -/
  | dropped
  deriving DecidableEq

namespace Oneshot

variable {α : Type*} {c : Oneshot α} {a b : α}

/-- `Sender::send`, which fails unless the channel is waiting. -/
def send (c : Oneshot α) (a : α) : Oneshot α :=
  match c with
  | waiting => sent a
  | settled => settled

/-- `Receiver::close`. -/
def close (c : Oneshot α) : Oneshot α :=
  match c with
  | waiting => closed
  | settled => settled

/-- The sender is dropped. -/
def dropSender (c : Oneshot α) : Oneshot α :=
  match c with
  | waiting => dropped
  | settled => settled

/-- `Sender::is_closed`. -/
def isClosed (c : Oneshot α) : Bool :=
  match c with
  | closed => true
  | _ => false

@[simp] theorem isClosed_iff : c.isClosed = true ↔ c = closed := by
  cases c <;> simp [isClosed]

@[simp] theorem send_waiting : (waiting : Oneshot α).send a = sent a := rfl

theorem send_of_ne (h : c ≠ waiting) : c.send a = c := by
  cases c with
  | waiting => exact absurd rfl h
  | sent b => rfl
  | closed => rfl
  | dropped => rfl

theorem dropSender_of_ne (h : c ≠ waiting) : c.dropSender = c := by
  cases c with
  | waiting => exact absurd rfl h
  | sent b => rfl
  | closed => rfl
  | dropped => rfl

theorem close_ne_waiting (c : Oneshot α) : c.close ≠ waiting := by
  cases c <;> simp [close]

theorem send_ne_waiting (c : Oneshot α) (a : α) : c.send a ≠ waiting := by
  cases c <;> simp [send]

/-- A value is in the channel after a send only if it was there, or was sent
now to a waiting channel. -/
theorem send_eq_sent : c.send a = sent b ↔ c = sent b ∨ c = waiting ∧ a = b := by
  cases c <;> simp [send]

theorem close_eq_sent : c.close = sent b ↔ c = sent b := by
  cases c <;> simp [close]

end Oneshot

end Kernmini.Lib
