/-
Kernmini.Worker.ThreadWorker — `ThreadWorker::call` and `shutdown` from any
number of clones, and the loop of the worker's thread.

Jobs wait in the channel in the order of the sends. When the thread leaves
the loop, the receiver is dropped a little later than the state; what is in
the channel then is dropped with it, and later sends fail. The model begins
when `start` has returned.

`sent`, `ran` and `dropped` record history and are never read by a step.
-/
import Kernmini.Worker.Serial
import Kernmini.Engine.Language
import Kernmini.Lib.Oneshot
import Mathlib.Logic.Function.Basic

namespace Kernmini.Worker

open Kernmini.Engine Kernmini.Lib

/-- A call of `call` or of `shutdown`. -/
abbrev CallId := Nat

inductive CallPc (ρ : Type*) where
  /-- at `result.await`, with the resource a failure names -/
  | awaiting (resource : String) (channel : Oneshot (Reply ρ))
  | returned (result : Except Error (Reply ρ))
  /-- the future was dropped -/
  | abandoned

inductive WorkerPc (σ ρ : Type*) where
  /-- at `receive.recv()` -/
  | receiving (state : σ)
  /-- in `call(&mut state)` -/
  | calling (state : σ) (c : CallId) (callback : σ → Option (ρ × σ))
  /-- behind `drop(state)` -/
  | stopping (c : CallId)
  /-- out of the loop -/
  | closing
  /-- the receiver is dropped -/
  | ended

structure ThreadWorker (σ ρ : Type*) where
  pc : WorkerPc σ ρ
  queue : List (Job CallId σ ρ) := []
  /-- a clone of the `ThreadWorker` is left -/
  handles : Bool := true
  calls : CallId → Option (CallPc ρ) := fun _ => none
  /-- every job that was put into the channel -/
  sent : List (Job CallId σ ρ) := []
  /-- every callback that has run, with the state it saw and its value -/
  ran : List (CallId × σ × Option ρ) := []
  /-- how often the state was dropped -/
  dropped : Nat := 0

inductive WorkerLabel (σ ρ : Type*) where
  | call (c : CallId) (callback : σ → Option (ρ × σ))
  | shutdown (c : CallId)
  /-- the last clone is dropped; that a call in flight borrows one is not used -/
  | hangUp
  | receive
  | run
  | reply
  | close
  | return (c : CallId)
  | abandon (c : CallId)

/-- The steps of the worker's thread. -/
def WorkerLabel.isOwn {σ ρ : Type*} : WorkerLabel σ ρ → Bool
  | .receive | .run | .reply | .close => true
  | _ => false

/-- The sender was dropped under `result.await`. -/
def channelClosed (resource : String) : Error := (Error.closed resource).causedBy "channel closed"

namespace ThreadWorker

variable {σ ρ : Type*}

/-- `start` has returned. -/
def start (state : σ) : ThreadWorker σ ρ := { pc := .receiving state }

def setCall (s : ThreadWorker σ ρ) (c : CallId) (pc : CallPc ρ) : ThreadWorker σ ρ :=
  { s with calls := Function.update s.calls c (some pc) }

@[simp] theorem setCall_calls (s : ThreadWorker σ ρ) (c : CallId) (pc : CallPc ρ) :
    (s.setCall c pc).calls = Function.update s.calls c (some pc) := rfl

/-- `self.send(job)?`, and the await if it succeeds. -/
def send (s : ThreadWorker σ ρ) (job : Job CallId σ ρ) (resource : String) :
    Option (ThreadWorker σ ρ) :=
  match s.handles, s.calls job.id with
  | true, none =>
      match s.pc with
      | .ended => some (s.setCall job.id (.returned (.error (Error.closed "interpreter worker"))))
      | _ =>
          some { s.setCall job.id (.awaiting resource .waiting) with
            queue := s.queue ++ [job], sent := s.sent ++ [job] }
  | _, _ => none

/-- An end of the channel of a call acts. -/
def settle (act : Oneshot (Reply ρ) → Oneshot (Reply ρ)) : CallPc ρ → CallPc ρ
  | .awaiting resource channel => .awaiting resource (act channel)
  | other => other

/-- The sender of the call `c` acts. -/
def settleCall (s : ThreadWorker σ ρ) (c : CallId) (act : Oneshot (Reply ρ) → Oneshot (Reply ρ)) :
    ThreadWorker σ ρ :=
  { s with calls := Function.update s.calls c ((s.calls c).map (settle act)) }

@[simp] theorem settleCall_calls (s : ThreadWorker σ ρ) (c : CallId)
    (act : Oneshot (Reply ρ) → Oneshot (Reply ρ)) :
    (s.settleCall c act).calls = Function.update s.calls c ((s.calls c).map (settle act)) := rfl

/-- The receiver is dropped, and with it every job in the channel. -/
def dropReceiver (s : ThreadWorker σ ρ) : ThreadWorker σ ρ :=
  let drop (c : CallId) (pc : CallPc ρ) : CallPc ρ :=
    if c ∈ s.queue.map Job.id then settle (·.dropSender) pc else pc
  { s with pc := .ended, queue := [], calls := fun c => (s.calls c).map (drop c) }

def step (s : ThreadWorker σ ρ) : WorkerLabel σ ρ → Option (ThreadWorker σ ρ)
  | .call c f => s.send (.call c f) "interpreter worker"
  | .shutdown c => s.send (.stop c) "interpreter worker during shutdown"
  | .hangUp => if s.handles then some { s with handles := false } else none
  | .receive =>
      match s.pc, s.queue with
      | .receiving state, .call c f :: rest => some { s with pc := .calling state c f, queue := rest }
      | .receiving _, .stop c :: rest =>
          some { s with pc := .stopping c, queue := rest, dropped := s.dropped + 1 }
      | .receiving _, [] =>
          if s.handles then none else some { s with pc := .closing, dropped := s.dropped + 1 }
      | _, _ => none
  | .run =>
      match s.pc with
      | .calling state c f =>
          match f state with
          | some (r, next) =>
              some { s.settleCall c (·.send (.value r)) with
                pc := .receiving next, ran := s.ran ++ [(c, state, some r)] }
          | none =>
              -- the panic unwinds the thread
              some { s.settleCall c (·.dropSender) with
                pc := .closing, ran := s.ran ++ [(c, state, none)], dropped := s.dropped + 1 }
      | _ => none
  | .reply =>
      match s.pc with
      | .stopping c => some { s.settleCall c (·.send .stopped) with pc := .closing }
      | _ => none
  | .close =>
      match s.pc with
      | .closing => some s.dropReceiver
      | _ => none
  | .return c =>
      match s.calls c with
      | some (.awaiting _ (.sent reply)) => some (s.setCall c (.returned (.ok reply)))
      | some (.awaiting resource .dropped) =>
          some (s.setCall c (.returned (.error (channelClosed resource))))
      | _ => none
  | .abandon c =>
      match s.calls c with
      | some (.awaiting _ _) => some (s.setCall c .abandoned)
      | _ => none

end ThreadWorker

end Kernmini.Worker
