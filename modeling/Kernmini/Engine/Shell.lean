/-
Kernmini.Engine.Shell — the scheduler object of one shell session:
`Shell::run` and everything it calls, as a transition system.

The program counter `Pc` names the places of the loop in `Shell::run`
between which another thread can act: every channel operation, every test
of the loop, every language call that is awaited. A handler that publishes
and replies leaves its messages in `out`; they are sent one by one (`emit`)
before the scheduler does anything else, so the environment can also act
at each of those awaits.

Labels split into the scheduler's own steps and its environment: messages
and controls arriving on the two channels, the task of the active
execution, and the returns of language calls. The hold deadline is a label
of its own (`selectTimeout`), enabled whenever a hold is parked: time is
not modelled.

The last group of fields of `Shell` is history. No function reads it; it
records what an observer has seen, so that properties of whole runs can be
stated about a state.
-/
import Kernmini.Lib.Transition
import Kernmini.Engine.Execution

namespace Kernmini.Engine

open Kernmini.Wire Kernmini.Lib

/-! ## State -/

/-- `ShellControl`; `complete` numbers the oneshot channel of a release. -/
inductive ShellControl where
  | release (msgId releaseStatus : String) (complete : Nat)
  | interrupt
  | stop
deriving DecidableEq

/-- Where the caller of `apply_control`, `execution_done` or
`abort_pending` continues: the drain of the controls, the next test of the
loop, or the top of the loop. -/
inductive Resume where
  | controls
  | settle
  | top

/-- Where `Shell::run` is. -/
inductive Pc where
  /-- `while let Ok(inbound) = self.incoming.try_recv()` -/
  | drainIncoming
  /-- `while let Ok(control) = self.controls.try_recv()` -/
  | drainControls
  /-- `if … active.task.is_finished()` -/
  | reap
  /-- `if self.interrupting && self.active.is_none()` -/
  | settle
  /-- `if self.stopping && …` -/
  | stopTest
  /-- `pop_runnable` -/
  | dispatch
  /-- `handle_item` is about to run -/
  | handle (item : QueueItem)
  /-- `handle_shell` awaits a language call; `comm` is the output of a comm
  message -/
  | call (item : QueueItem) (call : ServiceCall) (comm : Option Nat)
  /-- `output.flush().await` after a comm message -/
  | commFlush (item : QueueItem) (comm : Nat)
  /-- `self.held = Some(..)` follows the messages of `begin_hold` -/
  | park (item : QueueItem)
  /-- `abort_pending`, for a release that is still to be answered or not -/
  | abort (release : Option Nat) (resume : Resume)
  /-- `complete.send(true)` of a release -/
  | answer (release : Nat) (resume : Resume)
  /-- `tokio::select!` -/
  | select
  /-- `language.shutdown().await`, after a shutdown request or a stop -/
  | shutdown (requested : Bool)
  /-- the error to return once the pending messages are sent -/
  | failing (error : Error)
  /-- `run` returned the result of `language.shutdown()` -/
  | ended (requested : Bool) (result : Except Error Unit)
  /-- `run` returned an error before it shut the language down -/
  | failed (error : Error)

def Resume.pc : Resume → Pc
  | .controls => .drainControls
  | .settle => .settle
  | .top => .drainIncoming

/-- What a shell knows of the kernel: `ShellServices`, less the handles. -/
structure Services where
  supportsSubshells : Bool
  connection : Value

/-- `Shell`. -/
structure Shell where
  incoming : List Inbound := []
  controls : List ShellControl := []
  queue : Queue := Heap.empty
  order : Nat := 0
  held : Option QueueItem := none
  active : Option ActiveExecution := none
  stopping : Bool := false
  interrupting : Bool := false
  executionCount : Nat := 0
  pc : Pc := .drainIncoming
  /-- the messages the current handler has still to send, by request -/
  out : List (Nat × Emission) := []
  /-- the outputs of comm messages, which outlive the call -/
  comms : List (Nat × Output) := []
  /-- history: every item `enqueue` made, in order -/
  taken : List QueueItem := []
  /-- history: the items an execution was spawned for -/
  started : List QueueItem := []
  /-- history: everything sent, by request -/
  log : List (Nat × Emission) := []
  /-- history: what languages emitted while their call was pending, by request -/
  accepted : List (Nat × ContextMessage) := []
  /-- history: the releases answered -/
  answers : List (Nat × Bool) := []
  /-- history: how many messages had been delivered when the first stop was -/
  stopMark : Option Nat := none

/-- The outcomes of the synchronous language calls a step may make. -/
structure Oracle where
  /-- `kernel_info()`, `supports_debugger()`, `supported_features()` -/
  kernelInfo : Except Error (KernelInfo × Bool × List String)
  /-- the error of the interrupt handler, if it fails -/
  interruptHandler : Option Error

/-- Tag the messages of a handler with their request. -/
def tag (item : QueueItem) (es : List Emission) : List (Nat × Emission) :=
  es.map (item.order, ·)

namespace Shell

/-- The receivers of the two channels are alive. -/
def isOpen (s : Shell) : Bool :=
  match s.pc with
  | .ended _ _ => false
  | .failed _ => false
  | _ => true

/-- Leave messages to be sent with `item` as their parent. -/
def say (s : Shell) (item : QueueItem) (es : List Emission) : Shell :=
  { s with out := s.out ++ tag item es }

/-- `Shell::enqueue`. -/
def enqueue (s : Shell) (inbound : Inbound) : Shell :=
  let priority := ((inbound.message.metadata.get "priority").bind Value.asF64).getD 0
  let item : QueueItem := { priority, order := s.order, inbound }
  { s with queue := s.queue.push item, order := s.order + 1, taken := s.taken ++ [item] }

/-! ## Handlers -/

/-- `Shell::execution_done`. -/
def executionDone (s : Shell) (done : ExecutionDone) (resume : Resume) : Shell :=
  { s with
    active := none
    pc := if done.failed && done.stopOnError && !s.interrupting then .abort none resume
          else resume.pc }

/-- `Shell::apply_control`. The error of an interrupt handler ends `run`. -/
def applyControl (o : Oracle) (s : Shell) (control : ShellControl) (resume : Resume) : Shell :=
  match control with
  | .release msgId releaseStatus complete =>
      match s.held with
      | some held =>
          if held.request.msgId = msgId then
            match finishHold s.executionCount releaseStatus with
            | (es, failed) =>
                { s.say held es with
                  held := none
                  pc := if failed then .abort (some complete) resume
                        else .answer complete resume }
          else { s with answers := s.answers ++ [(complete, false)], pc := resume.pc }
      | none => { s with answers := s.answers ++ [(complete, false)], pc := resume.pc }
  | .interrupt =>
      let s := { s with
        interrupting := true
        active := s.active.map (fun a : ActiveExecution => { a with interrupted := true }) }
      match s.active.isSome, o.interruptHandler with
      | true, some error => { s with pc := .failed error }
      | _, _ =>
          match s.held with
          | some held =>
              { s.say held (finishHold s.executionCount "interrupt").1 with
                held := none, pc := .abort none resume }
          | none => { s with pc := .abort none resume }
  | .stop => { s with stopping := true, pc := resume.pc }

/-- `Shell::count_execution`. -/
def countExecution (s : Shell) (execution : ExecuteRequest) : Nat :=
  if execution.storeHistory && !execution.silent then s.executionCount + 1
  else s.executionCount

/-- `report_failure` in `handle_item`: a closed language service ends `run`. -/
def failItem (s : Shell) (item : QueueItem) (error : Error) : Shell :=
  { s.say item (reportFailure item.request error s.executionCount) with
    pc := if error.kind = .closed then .failing error else .drainIncoming }

/-- The content of a `kernel_info_reply`. -/
def kernelInfoContent (services : Services) (info : KernelInfo) (debugger : Bool)
    (features : List String) : Value :=
  let features := features ++ (if services.supportsSubshells then ["kernel subshells"] else []) ++
    (if debugger then ["debugger"] else [])
  .object
    [("status", .string "ok"), ("protocol_version", .string "5.3"),
     ("implementation", .string info.implementation),
     ("implementation_version", .string info.implementationVersion),
     ("banner", .string info.banner), ("language_info", info.languageInfo),
     ("help_links", .array []), ("debugger", .bool debugger),
     ("supported_features", .array (features.map .string))]

/-- `handle_shell` up to its language call. -/
def handleShell (services : Services) (o : Oracle) (s : Shell) (item : QueueItem) : Shell :=
  let request := item.request
  let missing := missingFields request
  if !missing.isEmpty then
    { s.say item (replyMissing s.executionCount request missing) with pc := .drainIncoming }
  else if request.msgType = "shutdown_request" then
    { s.say item [.reply "shutdown_reply" (.object
        [("status", .string "ok"),
         ("restart", .bool (request.content.boolOr "restart" false))])] with
      pc := .shutdown true }
  else if request.msgType = "kernel_info_request" then
    match o.kernelInfo with
    | .ok (info, debugger, features) =>
        { s.say item [busy, .reply request.replyType
            (kernelInfoContent services info debugger features), idle] with
          pc := .drainIncoming }
    | .error error => (s.say item [busy]).failItem item error
  else
    match serviceCall request with
    | some (.message msgType content buffers) =>
        { s with
          pc := .call item (.message msgType content buffers) (some s.comms.length)
          comms := s.comms ++ [(item.order, {})] }
    | some (.commInfo content) => { s with pc := .call item (.commInfo content) none }
    | some call => { s.say item [busy] with pc := .call item call none }
    | none =>
        if request.msgType = "connect_request" then
          { s.say item [.reply "connect_reply" services.connection] with pc := .drainIncoming }
        else if request.isRequest then
          { s.say item [.reply request.replyType (.object [("status", .string "ok")])] with
            pc := .drainIncoming }
        else { s with pc := .drainIncoming }

/-- `handle_shell` after its language call, and the error path of
`handle_item`. -/
def callReturned (s : Shell) (item : QueueItem) (call : ServiceCall) (comm : Option Nat)
    (result : Except Error Value) : Shell :=
  match result with
  | .error error => s.failItem item error
  | .ok content =>
      match call, comm with
      | .message _ _ _, some comm =>
          { s with
            comms := s.comms.modify comm (fun entry => (entry.1, entry.2.accept .flush))
            pc := .commFlush item comm }
      | .commInfo _, _ =>
          { s.say item [.reply "comm_info_reply" content] with pc := .drainIncoming }
      | _, _ =>
          { s.say item [.reply item.request.replyType content, idle] with
            pc := .drainIncoming }

/-- `Shell::handle_item`. -/
def handleItem (services : Services) (o : Oracle) (s : Shell) (item : QueueItem) : Shell :=
  let request := item.request
  if !item.isExecute then s.handleShell services o item
  else if s.interrupting then
    { s.say item (interruptExecute s.executionCount) with pc := .drainIncoming }
  else if !(missingFields request).isEmpty then
    { s.say item (replyMissing s.executionCount request (missingFields request)) with
      pc := .abort none .top }
  else if isHold request then
    { s.say item (beginHold s.executionCount request) with pc := .park item }
  else
    let execution := executeRequest request.content
    let executionCount := s.countExecution execution
    { s with
      executionCount
      active := some (.spawn item execution executionCount)
      started := s.started ++ [item]
      pc := .drainIncoming }

/-- The end of `abort_pending`, once the incoming channel is drained. -/
def abortQueued (s : Shell) (release : Option Nat) (resume : Resume) : Shell :=
  match abortQueue s.queue with
  | (aborted, keep) =>
      { s with
        queue := keep
        out := s.out ++ aborted.flatMap (fun item => tag item (abortExecute s.executionCount))
        pc := match release with
          | some complete => .answer complete resume
          | none => resume.pc }

/-! ## The transition system -/

/-- Everything that can happen in or to a shell. -/
inductive Label where
  /-- the scheduler sends the next pending message -/
  | emit
  /-- the scheduler takes its next step -/
  | next (o : Oracle)
  /-- the branches of `tokio::select!` -/
  | selectIncoming
  | selectControl (o : Oracle)
  | selectDone
  | selectTimeout
  | selectClosed (channel : String)
  /-- the pump of a comm output -/
  | commPump (comm : Nat) (l : OutputLabel)
  /-- the environment: the two channels -/
  | deliver (inbound : Inbound)
  | control (c : ShellControl)
  /-- the environment: the active execution, and the awaited language call -/
  | task (l : TaskLabel)
  | callAccept (m : ContextMessage)
  | callReturned (result : Except Error Value)
  | shutdownReturned (result : Except Error Unit)
  /-- `run` has returned, and the abort that dropping the active execution
  asks for takes effect -/
  | dropped

/-- The scheduler's step at its program counter, when it has nothing left to
send. `none` where it waits. -/
def next (services : Services) (o : Oracle) (s : Shell) : Option Shell :=
  match s.pc with
  | .drainIncoming =>
      match s.incoming with
      | inbound :: rest => some ({ s with incoming := rest }.enqueue inbound)
      | [] => some { s with pc := .drainControls }
  | .drainControls =>
      match s.controls with
      | control :: rest => some ({ s with controls := rest }.applyControl o control .controls)
      | [] => some { s with pc := .reap }
  | .reap =>
      match s.active.bind ActiveExecution.result with
      | some (.ok done) => some (s.executionDone done .settle)
      | some (.error error) => some { s with pc := .failed error }
      | none => some { s with pc := .settle }
  | .settle =>
      some { s with interrupting := s.interrupting && s.active.isSome, pc := .stopTest }
  | .stopTest =>
      if s.stopping && s.queue.isEmpty && s.active.isNone && s.held.isNone then
        some { s with pc := .shutdown false }
      else some { s with pc := .dispatch }
  | .dispatch =>
      match popRunnable s.queue s.active.isSome s.held with
      | (some item, queue) => some { s with queue, pc := .handle item }
      | (none, queue) => some { s with queue, pc := .select }
  | .handle item => some (s.handleItem services o item)
  | .commFlush _ comm =>
      match s.comms[comm]? with
      | some (_, output) => if output.flushed then some { s with pc := .drainIncoming } else none
      | none => none
  | .park item => some { s with held := some item, pc := .drainIncoming }
  | .abort release resume =>
      match s.incoming with
      | inbound :: rest => some ({ s with incoming := rest }.enqueue inbound)
      | [] => some (s.abortQueued release resume)
  | .answer release resume =>
      some { s with answers := s.answers ++ [(release, true)], pc := resume.pc }
  | .failing error => some { s with pc := .failed error }
  | .call _ _ _ => none
  | .select => none
  | .shutdown _ => none
  | .ended _ _ => none
  | .failed _ => none

/-- `mpsc::channel(256)`. -/
def incomingCapacity : Nat := 256

/-- `mpsc::channel(64)`. -/
def controlsCapacity : Nat := 64

/-- `sender.send(inbound)` on the incoming channel, when it does not wait. -/
def deliver (s : Shell) (inbound : Inbound) : Option Shell :=
  if s.isOpen ∧ s.incoming.length < incomingCapacity then
    some { s with incoming := s.incoming ++ [inbound] }
  else none

/-- `sender.send(control)` on the controls channel, when it does not wait. -/
def control (s : Shell) (c : ShellControl) : Option Shell :=
  if s.isOpen ∧ s.controls.length < controlsCapacity then
    some { s with
      controls := s.controls ++ [c]
      stopMark := match c, s.stopMark with
        | .stop, none => some (s.order + s.incoming.length)
        | _, mark => mark }
  else none

/-- One of the branches of `tokio::select!` is ready. -/
def selectStep (s : Shell) : Label → Option Shell
  | .selectIncoming =>
      match s.incoming with
      | inbound :: rest =>
          some { { s with incoming := rest }.enqueue inbound with pc := .drainIncoming }
      | [] => none
  | .selectControl o =>
      match s.controls with
      | control :: rest => some ({ s with controls := rest }.applyControl o control .top)
      | [] => none
  | .selectDone =>
      match s.active.bind ActiveExecution.result with
      | some (.ok done) => some (s.executionDone done .top)
      | some (.error error) => some { s with pc := .failed error }
      | none => none
  | .selectTimeout =>
      match s.held with
      | some held =>
          some { s.say held (finishHold s.executionCount "timeout").1 with
            held := none, pc := .abort none .top }
      | none => none
  | .selectClosed channel => some { s with pc := .failed (.closed channel) }
  | _ => none

/-- The step function. -/
def step (services : Services) (s : Shell) (l : Label) : Option Shell :=
  match l with
  | .emit =>
      match s.out with
      | e :: rest => some { s with out := rest, log := s.log ++ [e] }
      | [] => none
  | .next o => if s.out.isEmpty then s.next services o else none
  | .selectIncoming | .selectControl _ | .selectDone | .selectTimeout | .selectClosed _ =>
      match s.pc, s.out with
      | .select, [] => s.selectStep l
      | _, _ => none
  | .commPump comm l =>
      match s.comms[comm]? with
      | some (order, output) =>
          match output.step false l with
          | some (output, es) =>
              some { s with
                comms := s.comms.set comm (order, output)
                log := s.log ++ es.map (order, ·) }
          | none => none
      | none => none
  | .deliver inbound => s.deliver inbound
  | .control c => s.control c
  | .task l =>
      match s.active with
      | some a =>
          if a.aborted && !l.isPump then none
          else
            match a.step l with
            | some (a', es) =>
                some { s with
                  active := some a'
                  log := s.log ++ tag a.item es
                  accepted := match l with
                    | .accept m => s.accepted ++ [(a.item.order, m)]
                    | _ => s.accepted }
            | none => none
      | none => none
  | .callAccept m =>
      match s.pc, s.out with
      | .call item _ (some comm), [] =>
          if ActiveExecution.acceptable m then
            some { s with
              comms := s.comms.modify comm (fun entry => (entry.1, entry.2.accept m))
              accepted := s.accepted ++ [(item.order, m)] }
          else none
      | _, _ => none
  | .callReturned result =>
      match s.pc, s.out with
      | .call item call comm, [] => some (s.callReturned item call comm result)
      | _, _ => none
  | .shutdownReturned result =>
      match s.pc, s.out with
      | .shutdown requested, [] => some { s with pc := .ended requested result }
      | _, _ => none
  | .dropped =>
      match s.active with
      | some a =>
          if s.isOpen then none else some { s with active := some { a with aborted := true } }
      | none => none

end Shell

/-- The runs of a shell: `Shell::run` on a fresh scheduler, with any
environment. -/
def Shell.Reachable (services : Services) (s : Shell) : Prop :=
  Lib.Reachable (Shell.step services) {} s

end Kernmini.Engine
