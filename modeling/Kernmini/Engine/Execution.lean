/-
Kernmini.Engine.Execution — one spawned execution: `run_execution` and
`execute` as a task that runs beside the scheduler.

The task publishes the two opening messages, calls the language, flushes
the output, publishes the outcome, replies and goes idle. `out` holds the
messages of the part it is in that are still to be sent, so the task can
be preempted at every one of them; `phase` is where it continues once
`out` is empty. Dropping an `ActiveExecution` aborts its task at the await
it is in; an aborted task keeps what it had still to send.
-/
import Kernmini.Engine.Queue
import Kernmini.Engine.Output

namespace Kernmini.Engine

open Kernmini.Wire

/-- Where `run_execution` is. -/
inductive TaskPhase where
  /-- `language.execute` is pending (once `out` is empty) -/
  | running
  /-- the language returned; `output.flush()` is pending -/
  | flushing (outcome : Except Error ExecuteOutcome)
  /-- the outcome, the reply and idle are being sent -/
  | finishing (result : Except Error ExecutionDone)
  /-- the task has returned -/
  | finished (result : Except Error ExecutionDone)
  /-- the language call panicked, so the join handle reports an error -/
  | panicked

/-- `ActiveExecution` together with the state of its task. `item` is the
request the task was spawned for. -/
structure ActiveExecution where
  item : QueueItem
  execution : ExecuteRequest
  executionCount : Nat
  /-- `interrupt.requested()` -/
  interrupted : Bool := false
  /-- `task.abort()` has taken effect -/
  aborted : Bool := false
  phase : TaskPhase := .running
  output : Output := {}
  out : List Emission

/-- The task's own steps and the language's. -/
inductive TaskLabel where
  /-- the next pending message is sent -/
  | emit
  /-- the language emits while its call is pending -/
  | accept (m : ContextMessage)
  /-- the language call returns -/
  | returned (outcome : Except Error ExecuteOutcome)
  /-- the language call panics -/
  | panic
  /-- the pump of this execution's output -/
  | pump (l : OutputLabel)
  /-- the flush is complete -/
  | flushed
  /-- the task returns -/
  | finish

/-- The pump is a task of its own. -/
def TaskLabel.isPump : TaskLabel → Bool
  | .pump _ => true
  | _ => false

/-- What the language hands to the output in a task step. -/
def TaskLabel.emits : TaskLabel → List ContextMessage
  | .accept m => [m]
  | _ => []

namespace ActiveExecution

/-- `tokio::spawn(run_execution(..))`. -/
def spawn (item : QueueItem) (execution : ExecuteRequest) (executionCount : Nat) :
    ActiveExecution :=
  { item, execution, executionCount, out := startExecution execution executionCount }

/-- The result the join handle gives once the task has ended. -/
def result (a : ActiveExecution) : Option (Except Error ExecutionDone) :=
  match a.phase with
  | .finished result => some result
  | .panicked => some (.error (.closed "kernel task"))
  | _ => none

/-- `task.is_finished()`. -/
def isFinished (a : ActiveExecution) : Bool := a.result.isSome

/-- The reply of the request is among the messages sent or pending. -/
def replying (a : ActiveExecution) : Bool :=
  match a.phase with
  | .finishing _ => true
  | .finished _ => true
  | _ => false

/-- A language may emit an event or ask for input; only the engine flushes. -/
def acceptable : ContextMessage → Bool
  | .flush => false
  | _ => true

/-- One step of the task, with what it emits. -/
def step (a : ActiveExecution) : TaskLabel → Option (ActiveExecution × List Emission)
  | .emit =>
      match a.out with
      | e :: rest => some ({ a with out := rest }, [e])
      | [] => none
  | .accept m =>
      match a.phase, a.out with
      | .running, [] =>
          if acceptable m then some ({ a with output := a.output.accept m }, []) else none
      | _, _ => none
  | .returned outcome =>
      match a.phase, a.out with
      | .running, [] =>
          some ({ a with phase := .flushing outcome, output := a.output.accept .flush }, [])
      | _, _ => none
  | .panic =>
      match a.phase, a.out with
      | .running, [] => some ({ a with phase := .panicked }, [])
      | _, _ => none
  | .pump l =>
      match a.output.step a.execution.silent l with
      | some (output, es) => some ({ a with output }, es)
      | none => none
  | .flushed =>
      match a.phase with
      | .flushing outcome =>
          if a.output.flushed then
            match finishExecution a.item.request a.execution.silent a.executionCount outcome with
            | (out, result) => some ({ a with phase := .finishing result, out }, [])
          else none
      | _ => none
  | .finish =>
      match a.phase, a.out with
      | .finishing result, [] => some ({ a with phase := .finished result }, [])
      | _, _ => none

/-! ## What a step can do -/

/-- The task's next state and what it sends, by the step it takes. -/
inductive Rule (a : ActiveExecution) : TaskLabel → ActiveExecution → List Emission → Prop
  | emit {e : Emission} {rest : List Emission} (hout : a.out = e :: rest) :
      Rule a .emit { a with out := rest } [e]
  | accept {m : ContextMessage} (hphase : a.phase = .running) (hout : a.out = [])
      (hm : acceptable m = true) : Rule a (.accept m) { a with output := a.output.accept m } []
  | returned {outcome : Except Error ExecuteOutcome} (hphase : a.phase = .running)
      (hout : a.out = []) :
      Rule a (.returned outcome)
        { a with phase := .flushing outcome, output := a.output.accept .flush } []
  | panic (hphase : a.phase = .running) (hout : a.out = []) :
      Rule a .panic { a with phase := .panicked } []
  | pump {l : OutputLabel} {output : Output} {es : List Emission}
      (hpump : a.output.step a.execution.silent l = some (output, es)) :
      Rule a (.pump l) { a with output } es
  | flushed {outcome : Except Error ExecuteOutcome} (hphase : a.phase = .flushing outcome)
      (hflushed : a.output.flushed = true) :
      Rule a .flushed
        { a with
          phase := .finishing
            (finishExecution a.item.request a.execution.silent a.executionCount outcome).2
          out := (finishExecution a.item.request a.execution.silent a.executionCount outcome).1 }
        []
  | finish {result : Except Error ExecutionDone} (hphase : a.phase = .finishing result)
      (hout : a.out = []) : Rule a .finish { a with phase := .finished result } []

theorem step_rule {a a' : ActiveExecution} {l : TaskLabel} {es : List Emission}
    (h : a.step l = some (a', es)) : Rule a l a' es := by
  cases l with
  | emit =>
      simp only [step] at h
      split at h
      · next hout =>
          cases h
          exact .emit hout
      · cases h
  | accept m =>
      simp only [step] at h
      split at h
      · next hphase hout =>
          split at h
          · next hm =>
              cases h
              exact .accept hphase hout hm
          · cases h
      · cases h
  | returned outcome =>
      simp only [step] at h
      split at h
      · next hphase hout =>
          cases h
          exact .returned hphase hout
      · cases h
  | panic =>
      simp only [step] at h
      split at h
      · next hphase hout =>
          cases h
          exact .panic hphase hout
      · cases h
  | pump l =>
      simp only [step] at h
      split at h
      · next hpump =>
          cases h
          exact .pump hpump
      · cases h
  | flushed =>
      simp only [step] at h
      split at h
      · next hphase =>
          split at h
          · next hflushed =>
              cases h
              exact .flushed hphase hflushed
          · cases h
      · cases h
  | finish =>
      simp only [step] at h
      split at h
      · next hphase hout =>
          cases h
          exact .finish hphase hout
      · cases h

end ActiveExecution

end Kernmini.Engine
