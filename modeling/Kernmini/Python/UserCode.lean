/-
Kernmini.Python.UserCode — how the Python adapter delivers interrupts, for a
shell without an `interrupt()` hook.

`UserCode` is the state behind the lock, with one function for each locked
section. Around it are the parties: the engine's thread in
`Delivery::request`, which never holds the GIL; a thread in
`Delivery::deliver`; the event loop with the `DeferredCancel`s; the SIGINT
handler; and the session's thread, which enters and exits `user_code()`.
What holds the GIL is one step. The handler is two: Python takes note of the
signals, and the handler takes the lock.

`log` records history and is never read by a step.
-/
import Kernmini.Lib.HashMap

namespace Kernmini.Python

open Kernmini.Lib

abbrev ThreadId := Nat

/-- A call of `Delivery::request`. -/
abbrev RequestId := Nat

/-- Executions are numbered in the order they start. -/
abbrev ExecutionId := Nat

/-! ## The locked sections -/

structure UserCode where
  thread : Option ThreadId := none
  depth : Nat := 0
  pending : Bool := false
  woken : Bool := false
  deriving DecidableEq

namespace UserCode

/-- In `Delivery::request`; the thread to signal. -/
def request (signals : ThreadId → Bool) (code : UserCode) : Option ThreadId × UserCode :=
  let main := code.thread.filter signals
  (main, { code with pending := true, woken := code.woken || main.isSome })

/-- In `Delivery::deliver`; the thread to inject the exception into. -/
def deliver (signals : ThreadId → Bool) (code : UserCode) : Option ThreadId × UserCode :=
  match code.thread with
  | some thread =>
      if code.pending && !signals thread then (some thread, { code with pending := false })
      else (none, code)
  | none => (none, code)

/-- In `DeferredCancel::__call__`; whether to cancel the task. -/
def cancel (code : UserCode) : Bool × UserCode :=
  match code.thread with
  | some _ => (false, code)
  | none => (code.pending, { code with pending := false })

/-- In `ExecutionSink::started`. -/
def started (code : UserCode) : UserCode := { code with pending := false }

/-- In `__enter__`; whether it raises. -/
def enter (thread : ThreadId) (code : UserCode) : Bool × UserCode :=
  if code.pending then (true, { code with pending := false })
  else
    (false, { code with
      thread := if code.depth = 0 then some thread else code.thread
      depth := code.depth + 1 })

/-- In `__exit__`; the thread to clear, or `none` where `depth -= 1`
underflows. -/
def exit (code : UserCode) : Option (Option ThreadId × UserCode) :=
  match code.depth with
  | 0 => none
  | depth + 1 =>
      if 0 < depth then some (none, { code with depth := depth })
      else some (code.thread, { code with depth := depth, thread := none })

/-- In `SignalRouter::__call__`; `none` is a signal that kernmini did not
send, `some raise` says whether to raise. -/
def handle (code : UserCode) : Option Bool × UserCode :=
  if code.woken then
    match code.thread with
    | some _ => (some code.pending, { code with woken := false, pending := false })
    | none => (some false, { code with woken := false })
  else (none, code)

end UserCode

/-! ## The parties -/

inductive RequestPc where
  /-- before `pthread_kill` -/
  | killing
  /-- before `thread::spawn` -/
  | spawning
  /-- before the locked section of `deliver` -/
  | delivering
  /-- before `call_soon_threadsafe` -/
  | posting
  /-- the event loop has the `DeferredCancel` -/
  | cancelling
  | over
  deriving DecidableEq

structure Request where
  execution : ExecutionId
  pc : RequestPc
  deriving DecidableEq

inductive Event where
  /-- `Delivery::request` for an execution -/
  | requested (r : RequestId) (e : ExecutionId)
  /-- `KeyboardInterrupt` as a block is entered -/
  | entered
  /-- `KeyboardInterrupt` from the SIGINT handler -/
  | signalled
  /-- an injected `KeyboardInterrupt` -/
  | fired
  /-- `task.cancel()` -/
  | cancelled (e : ExecutionId)
  /-- `KernelInterrupter::interrupt` -/
  | escalated
  deriving DecidableEq

/-- The execution receives the interrupt. -/
def Event.isDelivery : Event → Bool
  | .entered | .signalled | .fired | .cancelled _ => true
  | .requested _ _ | .escalated => false

/-- The event is a `KeyboardInterrupt` raised on the session's thread. -/
def Event.raises : Event → Bool
  | .entered | .signalled | .fired => true
  | .requested _ _ | .cancelled _ | .escalated => false

/-- The thread of the session, and the main thread where SIGINT is used. -/
structure Threads where
  self : ThreadId
  main : Option ThreadId

def Threads.signals (threads : Threads) (thread : ThreadId) : Bool := threads.main = some thread

structure Session where
  code : UserCode := {}
  /-- the `with` statements the session's thread is in -/
  blocks : Nat := 0
  /-- `__exit__` has panicked -/
  underflowed : Bool := false
  /-- the thread with an injected exception that has not fired -/
  injected : Option ThreadId := none
  /-- signals sent that Python has not taken note of -/
  signals : Nat := 0
  /-- Python is about to call the handler -/
  handling : Bool := false
  requests : HashMap RequestId Request := ∅
  /-- the last execution that started -/
  execution : ExecutionId := 0
  /-- its task is done -/
  done : Bool := true
  log : List Event := []

inductive Label where
  | started
  /-- the task is done -/
  | finish
  | request (r : RequestId) (e : ExecutionId)
  | kill (r : RequestId)
  | spawn (r : RequestId)
  | deliver (r : RequestId)
  | post (r : RequestId)
  | cancel (r : RequestId)
  /-- Python takes note of `n + 1` of the signals sent -/
  | signal (n : Nat)
  | handle
  | enter
  | exit
  /-- the injected exception fires -/
  | fire
  deriving DecidableEq

namespace Session

def setRequest (s : Session) (r : RequestId) (request : Request) : Session :=
  { s with requests := s.requests.insert r request }

/-- The task of the execution is done. -/
def taskDone (s : Session) (e : ExecutionId) : Bool := e ≠ s.execution || s.done

def step (threads : Threads) (s : Session) : Label → Option Session
  | .started =>
      -- a session runs one execution at a time
      if s.done then
        some { s with code := s.code.started, execution := s.execution + 1, done := false }
      else none
  | .finish => if s.done then none else some { s with done := true }
  | .request r e =>
      match s.requests.lookup r with
      | some _ => none
      | none =>
          -- only an execution that has started has a `Delivery`
          if 0 < e ∧ e ≤ s.execution then
            let (main, code) := s.code.request threads.signals
            let pc := if main.isSome then .killing else .spawning
            some { s.setRequest r ⟨e, pc⟩ with code := code, log := s.log ++ [.requested r e] }
          else none
  | .kill r =>
      match s.requests.lookup r with
      | some ⟨e, .killing⟩ => some { s.setRequest r ⟨e, .spawning⟩ with signals := s.signals + 1 }
      | _ => none
  | .spawn r =>
      match s.requests.lookup r with
      | some ⟨e, .spawning⟩ => some (s.setRequest r ⟨e, .delivering⟩)
      | _ => none
  | .deliver r =>
      match s.requests.lookup r with
      | some ⟨e, .delivering⟩ =>
          let (thread, code) := s.code.deliver threads.signals
          some { s.setRequest r ⟨e, .posting⟩ with code := code, injected := thread.or s.injected }
      | _ => none
  | .post r =>
      match s.requests.lookup r with
      | some ⟨e, .posting⟩ => some (s.setRequest r ⟨e, .cancelling⟩)
      | _ => none
  | .cancel r =>
      match s.requests.lookup r with
      | some ⟨e, .cancelling⟩ =>
          let t := s.setRequest r ⟨e, .over⟩
          if s.taskDone e then some t
          else
            let (cancel, code) := s.code.cancel
            some { t with code := code, log := s.log ++ if cancel then [.cancelled e] else [] }
      | _ => none
  | .signal n =>
      if s.handling = false ∧ n < s.signals then
        some { s with handling := true, signals := s.signals - (n + 1) }
      else none
  | .handle =>
      if s.handling then
        let (raise, code) := s.code.handle
        let events := match raise with
          | none => [.escalated]
          | some true => [.signalled]
          | some false => []
        some { s with handling := false, code := code, log := s.log ++ events }
      else none
  | .enter =>
      match s.code.enter threads.self with
      | (true, code) => some { s with code := code, log := s.log ++ [.entered] }
      | (false, code) => some { s with code := code, blocks := s.blocks + 1 }
  | .exit =>
      match s.blocks with
      | 0 => none
      | blocks + 1 =>
          match s.code.exit with
          | none => some { s with blocks := blocks, underflowed := true }
          | some (thread, code) =>
              let injected := if thread.isSome ∧ s.injected = thread then none else s.injected
              some { s with blocks := blocks, code := code, injected := injected }
  | .fire =>
      match s.injected with
      | none => none
      | some _ => some { s with injected := none, log := s.log ++ [.fired] }

end Session

end Kernmini.Python
