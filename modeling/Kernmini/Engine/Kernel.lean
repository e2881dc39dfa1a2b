/-
Kernmini.Engine.Kernel — the main loop of `run_kernel_with_interrupter`
together with the shells it has spawned, as one transition system.

`tasks` holds every shell task ever spawned, by number; the parent session
is task 0. The `shells` table maps ids to task numbers, so a shell that is
being stopped in the background is still a task but no longer in the table.

The program counter `MainPc` names the awaits of the loop: the `select!`,
the sends to a shell's bounded channels, the answer of a release, the
creation of a child session, the debugger. A job of `stop_in_background`
is a small machine of its own beside the loop. Labels carry the choices of
the environment: which branch of the `select!` is taken, the order in
which a hash map is iterated, fresh ids, the outcomes of language calls,
and everything that happens inside a shell.

Messages from the router are numbered on arrival; what the loop itself
sends is tagged with that number. The last group of fields of `Kernel` is
history.
-/
import Kernmini.Lib.HashMap
import Kernmini.Engine.Shell

namespace Kernmini.Engine

open Kernmini.Wire Kernmini.Lib

/-! ## State -/

/-- A spawned shell task, by the order of spawning. -/
abbrev TaskId := Nat

/-- The two `SocketRouter`s whose messages the loop handles. -/
inductive Router where
  | shell
  | control
deriving DecidableEq

/-- A message received by a router, with its arrival number. -/
structure Arrival (router : Router) where
  number : Nat
  inbound : Inbound

namespace Arrival

variable {router : Router}

def request (a : Arrival router) : Message := a.inbound.message

/-- What the loop's messages for `a` are tagged with. -/
def source (a : Arrival router) : Router × Nat := (router, a.number)

end Arrival

/-- `SessionCommand`, with the shell whose cell sent it and waits. -/
inductive SessionCommand where
  | openSubshell (cell : TaskId) (clientSession : String) (subshellId : Option String)
  | closeSubshell (cell : TaskId) (clientSession subshellId : String) (delete : Bool)

def SessionCommand.cell : SessionCommand → TaskId
  | .openSubshell cell _ _ => cell
  | .closeSubshell cell _ _ _ => cell

/-- Where the caller of `route_shell` continues: the loop, or the loop of
`route_pending_shells` for a control request. -/
inductive After where
  | select
  | pending (a : Arrival .control)

/-- What `create_subshell` was called for. -/
inductive Creation where
  | route (a : Arrival .shell) (after : After)
  | command (cell : TaskId) (clientSession : String)
  | request (a : Arrival .control)

/-- Where `stop_shell` is. -/
inductive StopPhase where
  | interrupt
  | stop
  | join

/-- What `stop_in_background` runs once the shell has ended. -/
inductive StopDone where
  | complete (cell : TaskId)
  | reply (a : Arrival .control)

/-- A task of `stop_in_background`; `phase` is `none` once it is over. -/
structure StopJob where
  task : TaskId
  phase : Option StopPhase
  done : StopDone

/-- Where the main loop is. -/
inductive MainPc where
  /-- `tokio::select!` -/
  | select
  /-- `route_shell` -/
  | route (a : Arrival .shell) (after : After)
  /-- `language.create_child().await` -/
  | create (id : String) (purpose : Creation)
  /-- `target.incoming.send(inbound).await` -/
  | send (task : TaskId) (a : Arrival .shell) (after : After)
  /-- `route_pending_shells`, for an interrupt or a release request -/
  | routePending (a : Arrival .control)
  /-- `interrupt_shells`; `mark` is where the sweep starts in `interrupted` -/
  | interruptShells (mark : Nat) (todo : List TaskId) (request : Option (Arrival .control))
  /-- a send of `interrupt_shells` failed -/
  | interruptFailed (mark : Nat) (error : Error)
  /-- the loop of a `release_request` -/
  | release (todo : List TaskId) (found : Bool) (a : Arrival .control)
  /-- `result.await` of one release -/
  | awaitRelease (task : TaskId) (complete : Nat) (todo : List TaskId) (found : Bool)
      (a : Arrival .control)
  /-- `control_language.debug(..).await` -/
  | debug (a : Arrival .control)
  /-- the loop is over, with this result -/
  | returning (result : Except Error Unit)
  /-- `stop_shell` for what the drain of the table has left -/
  | stopShells (todo : List TaskId) (phase : StopPhase) (result : Except Error Unit)
  /-- `run_kernel_with_interrupter` has returned -/
  | returned (result : Except Error Unit)

def After.pc : After → MainPc
  | .select => .select
  | .pending a => .routePending a

/-- The kernel: the loop's state, its shells and its stop jobs. -/
structure Kernel where
  shell : List (Arrival .shell) := []
  control : List (Arrival .control) := []
  commands : List SessionCommand := []
  /-- the permit of `KernelInterrupter` -/
  notified : Bool := false
  failures : List Error := []
  shells : HashMap String TaskId := AList.singleton "" 0
  routeOverrides : HashMap String String := ∅
  tasks : List Shell := [{}]
  stops : List StopJob := []
  pc : MainPc := .select
  /-- the messages the loop has still to send, by arrival -/
  out : List ((Router × Nat) × Emission) := []
  /-- the next arrival number -/
  arrivals : Nat := 0
  /-- the next release number -/
  releases : Nat := 0
  /-- history: the messages the shell router received, and of these the ones
  the loop has put into a shell's channel -/
  received : List (Arrival .shell) := []
  delivered : List (Arrival .shell) := []
  /-- history: everything the loop and its stop jobs sent, by arrival -/
  log : List ((Router × Nat) × Emission) := []
  /-- history: the shells `interrupt_shells` has put an interrupt to -/
  interrupted : List TaskId := []
  /-- history: the commands answered, by cell -/
  answers : List (TaskId × Except Error String) := []

/-- The result of a shell task that has ended. -/
def Shell.result (s : Shell) : Option (Except Error Unit) :=
  match s.pc with
  | .ended _ result => some result
  | .failed error => some (.error error)
  | _ => none

namespace Kernel

/-! ## Channels -/

/-- The outcome of a send to a shell's channel. -/
inductive Send where
  | sent (s : Kernel)
  | closed
  /-- the channel is full -/
  | wait

/-- A send to shell `k`, given how it changes an open shell with room. -/
def sendTo (s : Kernel) (k : TaskId) (put : Shell → Option Shell) : Send :=
  match s.tasks[k]? with
  | some t =>
      if t.isOpen then
        match put t with
        | some t' => .sent { s with tasks := s.tasks.set k t' }
        | none => .wait
      else .closed
  | none => .closed

/-- `controls.send(control).await`. -/
def sendControl (s : Kernel) (k : TaskId) (c : ShellControl) : Send :=
  s.sendTo k (fun t => t.control c)

/-- `incoming.send(inbound).await`. -/
def sendIncoming (s : Kernel) (k : TaskId) (inbound : Inbound) : Send :=
  s.sendTo k (fun t => t.deliver inbound)

/-- Leave messages to be sent with arrival `a` as their parent. -/
def say {router : Router} (s : Kernel) (a : Arrival router) (es : List Emission) : Kernel :=
  { s with out := s.out ++ es.map (a.source, ·) }

/-- `complete.send(result)` of a command. -/
def answer (s : Kernel) (cell : TaskId) (result : Except Error String) : Kernel :=
  { s with answers := s.answers ++ [(cell, result)] }

/-! ## Routing and creation -/

/-- `spawn_shell`, entered into the table. -/
def spawnShell (s : Kernel) (id : String) : Kernel :=
  { s with shells := s.shells.insert id s.tasks.length, tasks := s.tasks ++ [{}] }

/-- The rest of `route_shell` once the id is settled. -/
def routeTo (s : Kernel) (id : String) (a : Arrival .shell) (after : After) : Kernel :=
  match s.shells.lookup id with
  | some k => { s with pc := .send k a after }
  | none => { s.say a (replySubshellNotFound a.request) with pc := after.pc }

/-- What the three callers of `create_subshell` do with its result. -/
def created (s : Kernel) (id : String) (purpose : Creation) (result : Except Error Unit) :
    Kernel :=
  match purpose, result with
  | .route a after, .ok _ => s.routeTo id a after
  | .route a after, .error error =>
      { s.say a (replySubshellError a.request "SubshellCreationError" error.message) with
        pc := after.pc }
  | .command cell clientSession, .ok _ =>
      { s.answer cell (.ok id) with
        routeOverrides := s.routeOverrides.insert clientSession id, pc := .select }
  | .command cell _, .error error => { s.answer cell (.error error) with pc := .select }
  | .request a, .ok _ =>
      { s.say a [.reply "create_subshell_reply" (.object
          [("status", .string "ok"), ("subshell_id", .string id)])] with pc := .select }
  | .request a, .error error =>
      { s.say a [.reply "create_subshell_reply" (.object
          [("status", .string "error"), ("ename", .string "SubshellCreationError"),
           ("evalue", .string error.message), ("traceback", .array [])])] with pc := .select }

/-- `create_subshell`, up to the creation of the child session. -/
def createSubshell (services : Services) (s : Kernel) (id : String) (purpose : Creation) :
    Kernel :=
  if id = "" then
    s.created id purpose (.error ⟨.invalidInput, "subshell_id cannot be empty"⟩)
  else if !services.supportsSubshells then
    s.created id purpose (.error ⟨.unavailable, "subshells are not supported"⟩)
  else if id ∈ s.shells then s.created id purpose (.ok ())
  else { s with pc := .create id purpose }

/-- The id `route_shell` routes a message to. -/
def routeId (s : Kernel) (request : Message) : String :=
  let explicit := subshellId request
  if explicit ≠ "" then explicit
  else if request.isExecute then
    (s.routeOverrides.lookup (request.header.strOr "session")).getD ""
  else ""

/-- `route_shell`. -/
def routeShell (services : Services) (s : Kernel) (a : Arrival .shell) (after : After) : Kernel :=
  let id := s.routeId a.request
  if subshellId a.request ≠ "" ∧ id ∉ s.shells then
    s.createSubshell services id (.route a after)
  else s.routeTo id a after

/-! ## Commands and control requests -/

/-- `stop_in_background` for a shell that has been taken out of the table. -/
def stopInBackground (s : Kernel) (task : TaskId) (interrupt : Bool) (done : StopDone) :
    Kernel :=
  { s with stops := s.stops ++
      [{ task, phase := some (if interrupt then .interrupt else .stop), done }] }

/-- The `subshell_commands` branch; `fresh` is the id a new uuid would give. -/
def handleCommand (services : Services) (s : Kernel) (fresh : String) :
    SessionCommand → Kernel
  | .openSubshell cell clientSession requested =>
      if clientSession ∈ s.routeOverrides then
        s.answer cell
          (.error ⟨.invalidInput, "this client session already has a subshell route"⟩)
      else s.createSubshell services (requested.getD fresh) (.command cell clientSession)
  | .closeSubshell cell clientSession id delete =>
      if s.routeOverrides.lookup clientSession ≠ some id then
        s.answer cell (.error ⟨.invalidInput, "subshell route is not active"⟩)
      else
        let s := { s with routeOverrides := s.routeOverrides.erase clientSession }
        match if delete then s.shells.lookup id else none with
        | some task =>
            { s with shells := s.shells.erase id }.stopInBackground task false (.complete cell)
        | none => s.answer cell (.ok "")

/-- `content.get("subshell_id")…unwrap_or("")` of a delete request. -/
def deleteId (request : Message) : String :=
  ((request.content.get "subshell_id").bind Value.asStr).getD ""

/-- The loop's `match request.msg_type()`. -/
def handleControl (services : Services) (s : Kernel) (fresh : String) (a : Arrival .control) :
    Kernel :=
  let request := a.request
  if request.msgType = "shutdown_request" then
    { s.say a [.reply "shutdown_reply" (.object
        [("status", .string "ok"),
         ("restart", .bool (request.content.boolOr "restart" false))])] with
      pc := .returning (.ok ()) }
  else if request.msgType = "interrupt_request" then { s with pc := .routePending a }
  else if request.msgType = "create_subshell_request" then
    if !services.supportsSubshells then
      s.say a [.reply "create_subshell_reply" (.object
        [("status", .string "error"), ("ename", .string "SubshellsNotSupported"),
         ("evalue", .string "kernel subshells are not supported"), ("traceback", .array [])])]
    else
      s.createSubshell services
        (((request.content.get "subshell_id").bind Value.asStr).getD fresh) (.request a)
  else if request.msgType = "list_subshell_request" then
    s.say a [.reply "list_subshell_reply" (.object
      [("status", .string "ok"),
       ("subshell_id", .array ((s.shells.keys.filter (· ≠ "")).map .string))])]
  else if request.msgType = "delete_subshell_request" then
    let id := deleteId request
    match s.shells.lookup id with
    | some task =>
        { s with
          shells := s.shells.erase id
          routeOverrides := s.routeOverrides.retain (fun _ routed => routed ≠ id) }.stopInBackground
            task true (.reply a)
    | none =>
        s.say a [.reply "delete_subshell_reply" (.object
          [("status", .string "error"), ("ename", .string "SubshellNotFound"),
           ("evalue", .string ("Unknown subshell_id " ++ debugStr id)),
           ("traceback", .array [])])]
  else if request.msgType = "release_request" then { s with pc := .routePending a }
  else if request.msgType = "debug_request" then { s.say a [busy] with pc := .debug a }
  else if request.isRequest then
    s.say a [.reply request.replyType (.object [("status", .string "ok")])]
  else s

/-- The reply and the events of a `debug_request`. -/
def debugReturned (s : Kernel) (a : Arrival .control) (result : Except Error Value) : Kernel :=
  let content := a.request.content
  let result := match result with
    | .ok result => result
    | .error error => .object
        [("response", .object
          [("type", .string "response"), ("request_seq", (content.get "seq").getD .null),
           ("command", (content.get "command").getD .null), ("success", .bool false),
           ("message", .string error.message)])]
  let events := ((result.get "events").bind Value.asArray).getD []
  { s.say a ([.reply "debug_reply" ((result.get "response").getD (.object []))] ++
      events.map (.iopub "debug_event") ++ [idle]) with
    pc := .select }

/-! ## The transition system -/

/-- The branches of the loop's `tokio::select!`. -/
inductive Branch where
  /-- a background service ended, with its error if it has one -/
  | background (error : Option Error)
  | failed
  /-- the task of the shell `id` is polled and has ended -/
  | reaped (id : String)
  | terminate
  | notified (order : List TaskId)
  | shell
  | command (fresh : String)
  | control (fresh : String)

/-- Everything that can happen in or to the kernel. -/
inductive Label where
  /-- a step of shell `k`, of its language, or of its execution -/
  | shell (k : TaskId) (l : Shell.Label)
  /-- the routers -/
  | receive (inbound : Inbound)
  | receiveControl (inbound : Inbound)
  /-- a cell calls `open_subshell` or `close_subshell` -/
  | command (c : SessionCommand)
  /-- `KernelInterrupter::interrupt` -/
  | notify
  /-- the loop sends its next pending message -/
  | emit
  /-- the loop continues; `order` is the iteration order of a loop it starts -/
  | next (order : List TaskId)
  | select (b : Branch)
  /-- the loop's language calls return -/
  | childCreated (result : Except Error Unit)
  | debugReturned (result : Except Error Value)
  /-- a stop job takes its next step -/
  | stop (job : Nat)

/-- A shell changes in steps of its own; its two channels are filled by the
loop and the stop jobs only. -/
def ownLabel : Shell.Label → Bool
  | .deliver _ => false
  | .control _ => false
  | _ => true

/-- `mpsc::channel(256)` and `mpsc::channel(64)` of the two routers. -/
def shellCapacity : Nat := 256

def controlCapacity : Nat := 64

/-- `order` is an iteration order of the table. -/
def isOrder (s : Kernel) (order : List TaskId) : Bool := order.isPerm (HashMap.values s.shells)

/-- One step of `interrupt_shells`. -/
def interruptStep (s : Kernel) (mark : Nat) (request : Option (Arrival .control)) :
    List TaskId → Option Kernel
  | k :: todo =>
      match s.sendControl k .interrupt with
      | .sent s =>
          some { s with
            interrupted := s.interrupted ++ [k], pc := .interruptShells mark todo request }
      | .closed => some { s with pc := .interruptFailed mark serviceClosed }
      | .wait => none
  | [] =>
      match request with
      | some a =>
          some { s.say a [.reply "interrupt_reply" (.object [("status", .string "ok")])] with
            pc := .select }
      | none => some { s with pc := .select }

/-- The `msg_id` a `release_request` names. -/
def releaseMsgId (request : Message) : String :=
  ((request.content.get "msg_id").bind Value.asStr).getD ""

/-- The status it finishes the hold with. -/
def releaseStatus (request : Message) : String :=
  ((request.content.get "status").bind Value.asStr).getD "ok"

/-- The control it puts to each shell. -/
def releaseControl (request : Message) (complete : Nat) : ShellControl :=
  .release (releaseMsgId request) (releaseStatus request) complete

def releaseReply (found : Bool) : Emission :=
  .reply "release_reply" (.object [("status", .string "ok"), ("found", .bool found)])

/-- One send of the loop of a `release_request`. -/
def releaseStep (s : Kernel) (found : Bool) (a : Arrival .control) :
    List TaskId → Option Kernel
  | k :: todo =>
      match s.sendControl k (releaseControl a.request s.releases) with
      | .sent s' =>
          some { s' with
            releases := s.releases + 1, pc := .awaitRelease k s.releases todo found a }
      | .closed => some { s with pc := .returning (.error serviceClosed) }
      | .wait => none
  | [] =>
      some { s.say a [releaseReply found] with pc := .select }

/-- `result.await?` of one release. A shell that ended without an answer has
dropped its end of the channel. -/
def awaitStep (s : Kernel) (k : TaskId) (complete : Nat) (todo : List TaskId) (found : Bool)
    (a : Arrival .control) : Option Kernel :=
  match s.tasks[k]? with
  | some t =>
      match t.answers.lookup complete with
      | some result => some { s with pc := .release todo (found || result) a }
      | none =>
          if t.isOpen then none
          else some { s with pc := .returning (.error recvFailed) }
  | none => none

/-- `stop_shell`: the next phase, or the result of the task. -/
def stopStep (s : Kernel) (k : TaskId) : StopPhase →
    Option (Kernel × (StopPhase ⊕ Except Error Unit))
  | .interrupt =>
      match s.sendControl k .interrupt with
      | .sent s => some (s, .inl .stop)
      | .closed => some (s, .inl .stop)
      | .wait => none
  | .stop =>
      match s.sendControl k .stop with
      | .sent s => some (s, .inl .join)
      | .closed => some (s, .inl .join)
      | .wait => none
  | .join =>
      match s.tasks[k]?.bind Shell.result with
      | some result => some (s, .inr result)
      | none => none

/-- What a stop job does once its shell has ended. -/
def stopDone (s : Kernel) (done : StopDone) : Except Error Unit → Kernel
  | .error error => { s with failures := s.failures ++ [error] }
  | .ok _ =>
      match done with
      | .complete cell => s.answer cell (.ok "")
      | .reply a =>
          { s with log := s.log ++
              [(a.source, .reply "delete_subshell_reply" (.object [("status", .string "ok")]))] }

/-- One step of a stop job. -/
def jobStep (s : Kernel) (j : Nat) : Option Kernel :=
  match s.stops[j]? with
  | some job =>
      match job.phase with
      | some phase =>
          match s.stopStep job.task phase with
          | some (s, .inl phase) =>
              some { s with stops := s.stops.set j { job with phase := some phase } }
          | some (s, .inr result) =>
              some ({ s with stops := s.stops.set j { job with phase := none } }.stopDone
                job.done result)
          | none => none
      | none => none
  | none => none

/-- The shells of the table are stopped in turn, once the loop is over. -/
def stopShellsStep (s : Kernel) (phase : StopPhase) (result : Except Error Unit) :
    List TaskId → Option Kernel
  | k :: todo =>
      match s.stopStep k phase with
      | some (s, .inl phase) => some { s with pc := .stopShells (k :: todo) phase result }
      | some (s, .inr ended) =>
          some { s with pc := .stopShells todo .interrupt (match result with
            | .ok _ => ended
            | .error error => .error error) }
      | none => none
  | [] => some { s with pc := .returned result }

/-- The loop's step at its program counter, when it has nothing left to send. -/
def next (services : Services) (s : Kernel) (order : List TaskId) : Option Kernel :=
  match s.pc with
  | .route a after => some (s.routeShell services a after)
  | .send k a after =>
      match s.sendIncoming k a.inbound with
      | .sent s => some { s with delivered := s.delivered ++ [a], pc := after.pc }
      | .closed => some { s.say a (replySubshellNotFound a.request) with pc := after.pc }
      | .wait => none
  | .routePending a =>
      match s.shell with
      | b :: rest => some { s with shell := rest, pc := .route b (.pending a) }
      | [] =>
          if s.isOrder order then
            if a.request.msgType = "interrupt_request" then
              some { s with pc := .interruptShells s.interrupted.length order (some a) }
            else some { s with pc := .release order false a }
          else none
  | .interruptShells mark todo request => s.interruptStep mark request todo
  | .interruptFailed _ error => some { s with pc := .returning (.error error) }
  | .release todo found a => s.releaseStep found a todo
  | .awaitRelease k complete todo found a => s.awaitStep k complete todo found a
  | .returning result =>
      if s.isOrder order then
        some { s with shells := ∅, pc := .stopShells order .interrupt result }
      else none
  | .stopShells todo phase result => s.stopShellsStep phase result todo
  | .select => none
  | .create _ _ => none
  | .debug _ => none
  | .returned _ => none

/-- A branch of the `select!` is taken. -/
def selectStep (services : Services) (s : Kernel) : Branch → Option Kernel
  | .background error =>
      some { s with pc := .returning (.error (error.getD serviceClosed)) }
  | .failed =>
      match s.failures with
      | error :: rest => some { s with failures := rest, pc := .returning (.error error) }
      | [] => none
  | .reaped id =>
      match s.shells.lookup id with
      | some k =>
          match s.tasks[k]?.bind Shell.result with
          | some (.ok _) =>
              if id = "" then
                some { s with shells := s.shells.erase id, pc := .returning (.ok ()) }
              else
                some { s with
                  shells := s.shells.erase id
                  routeOverrides := s.routeOverrides.retain (fun _ routed => routed ≠ id) }
          | some (.error error) =>
              some { s with shells := s.shells.erase id, pc := .returning (.error error) }
          | none => none
      | none => none
  | .terminate => some { s with pc := .returning (.ok ()) }
  | .notified order =>
      if s.notified ∧ s.isOrder order then
        some { s with
          notified := false, pc := .interruptShells s.interrupted.length order none }
      else none
  | .shell =>
      match s.shell with
      | a :: rest => some { s with shell := rest, pc := .route a .select }
      | [] => none
  | .command fresh =>
      match s.commands with
      | c :: rest =>
          if fresh ≠ "" then some ({ s with commands := rest }.handleCommand services fresh c)
          else none
      | [] => none
  | .control fresh =>
      match s.control with
      | a :: rest =>
          if fresh ≠ "" then some ({ s with control := rest }.handleControl services fresh a)
          else none
      | [] => none

/-- The step function. -/
def step (services : Services) (s : Kernel) (l : Label) : Option Kernel :=
  match l with
  | .shell k l =>
      match s.tasks[k]? with
      | some t =>
          if ownLabel l then
            match t.step services l with
            | some t' => some { s with tasks := s.tasks.set k t' }
            | none => none
          else none
      | none => none
  | .receive inbound =>
      if s.shell.length < shellCapacity then
        some { s with
          shell := s.shell ++ [⟨s.arrivals, inbound⟩]
          received := s.received ++ [⟨s.arrivals, inbound⟩]
          arrivals := s.arrivals + 1 }
      else none
  | .receiveControl inbound =>
      if s.control.length < controlCapacity then
        some { s with
          control := s.control ++ [⟨s.arrivals, inbound⟩], arrivals := s.arrivals + 1 }
      else none
  | .command c => some { s with commands := s.commands ++ [c] }
  | .notify => some { s with notified := true }
  | .emit =>
      match s.out with
      | e :: rest => some { s with out := rest, log := s.log ++ [e] }
      | [] => none
  | .next order => if s.out.isEmpty then s.next services order else none
  | .select b =>
      match s.pc, s.out with
      | .select, [] => s.selectStep services b
      | _, _ => none
  | .childCreated result =>
      match s.pc, s.out with
      | .create id purpose, [] =>
          match result with
          | .ok _ => some ((s.spawnShell id).created id purpose (.ok ()))
          | .error error => some (s.created id purpose (.error error))
      | _, _ => none
  | .debugReturned result =>
      match s.pc, s.out with
      | .debug a, [] => some (s.debugReturned a result)
      | _, _ => none
  | .stop j => s.jobStep j

/-- The runs of a kernel that has just started. -/
def Reachable (services : Services) (s : Kernel) : Prop :=
  Lib.Reachable (Kernel.step services) {} s

end Kernel

end Kernmini.Engine
