/-
Kernmini.Engine.ExecutionInterrupt — the interrupt requests of one execution
(`ExecutionInterrupt` of `language.rs`), its one handler and its waiters.

`request` and `set_handler` each have a section under the lock of the handler
and call a handler behind it; the sections are one step each. `request` sets
the flag and copies the handler in its section, and notifies the waiters
before it calls. `set_handler` looks at the flag in its section. `cancelled`
takes no lock. Handlers return `Ok`.
-/
import Mathlib.Logic.Function.Basic
import Kernmini.Engine.Language
import Kernmini.Lib.Notify
import Kernmini.Lib.Transition

namespace Kernmini.Engine

open Kernmini.Lib

/-- Who calls a handler. -/
inductive Caller where
  | request (c : Nat)
  | setHandler (k : Nat)
  deriving DecidableEq

/-- A call of `request` behind its section. -/
inductive RequestCall (η : Type*) where
  /-- at `notify_waiters()` -/
  | notifying (first : Bool) (handler : Option η)
  /-- at the call of the handler -/
  | calling (first : Bool) (handler : Option η)
  | returned (first : Bool)

/-- A call of `set_handler` behind its section. -/
inductive SetHandlerCall (η : Type*) where
  /-- at the call of the handler, if it was `requested` -/
  | calling (requested : Bool) (handler : η)
  | returned (result : Except Error Unit)

structure ExecutionInterrupt (η : Type*) where
  requested : Bool := false
  handler : Option η := none
  requests : Nat → Option (RequestCall η) := fun _ => none
  setters : Nat → Option (SetHandlerCall η) := fun _ => none
  /-- the calls of `cancelled` -/
  waiters : Nat → Option (Waiter Unit) := fun _ => none
  /-- the handlers that were called, and by whom -/
  calls : List (Caller × η) := []

inductive InterruptLabel (η : Type*) where
  -- `request`
  | request (c : Nat)
  | notify (c : Nat)
  | finish (c : Nat)
  -- `set_handler`
  | setHandler (k : Nat) (handler : η)
  | finishSet (k : Nat)
  -- `cancelled`
  | cancelled (w : Nat)
  | enable (w : Nat)
  | check (w : Nat)
  | poll (w : Nat)
  | drop (w : Nat)

/-- The result of `set_handler` when a handler is registered. -/
def alreadyRegistered : Error := ⟨.invalidInput, "execution interrupt handler already registered"⟩

namespace ExecutionInterrupt

variable {η : Type*}

def setRequest (s : ExecutionInterrupt η) (c : Nat) (call : RequestCall η) : ExecutionInterrupt η :=
  { s with requests := Function.update s.requests c (some call) }

def setSetter (s : ExecutionInterrupt η) (k : Nat) (call : SetHandlerCall η) :
    ExecutionInterrupt η :=
  { s with setters := Function.update s.setters k (some call) }

def setWaiter (s : ExecutionInterrupt η) (w : Nat) (waiter : Option (Waiter Unit)) :
    ExecutionInterrupt η :=
  { s with waiters := Function.update s.waiters w waiter }

/-- `if !self.requested() { .. }`. -/
def seen (s : ExecutionInterrupt η) : Option Unit := if s.requested then some () else none

def step (s : ExecutionInterrupt η) : InterruptLabel η → Option (ExecutionInterrupt η)
  | .request c =>
      match s.requests c with
      | none => some { s.setRequest c (.notifying (!s.requested) s.handler) with requested := true }
      | some _ => none
  | .notify c =>
      match s.requests c with
      | some (.notifying first handler) =>
          some { s.setRequest c (.calling first handler) with
            waiters := fun w => (s.waiters w).map Waiter.wake }
      | _ => none
  | .finish c =>
      match s.requests c with
      | some (.calling first handler) =>
          some { s.setRequest c (.returned first) with
            calls := s.calls ++ (handler.map (fun h => (Caller.request c, h))).toList }
      | _ => none
  | .setHandler k handler =>
      match s.setters k, s.handler with
      | none, none => some { s.setSetter k (.calling s.requested handler) with handler := some handler }
      | none, some _ => some (s.setSetter k (.returned (.error alreadyRegistered)))
      | some _, _ => none
  | .finishSet k =>
      match s.setters k with
      | some (.calling requested handler) =>
          some { s.setSetter k (.returned (.ok ())) with
            calls := s.calls ++ if requested then [(Caller.setHandler k, handler)] else [] }
      | _ => none
  | .cancelled w =>
      match s.waiters w with
      | none => some (s.setWaiter w (some (.created false)))
      | some _ => none
  | .enable w => ((s.waiters w).bind Waiter.enable).map (fun waiter => s.setWaiter w (some waiter))
  | .check w =>
      ((s.waiters w).bind (Waiter.look s.seen)).map (fun waiter => s.setWaiter w (some waiter))
  | .poll w =>
      match s.waiters w with
      | some (.parked true) => some (s.setWaiter w (some (.returned ())))
      | _ => none
  | .drop w =>
      match s.waiters w with
      | some _ => some (s.setWaiter w none)
      | none => none

end ExecutionInterrupt

end Kernmini.Engine
