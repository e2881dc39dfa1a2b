/-
Kernmini.Engine.KernelSteps — the steps of the kernel as rules.

`Kernel.step` is written the way the loop is, as nested matches. `Rule`
lists what it can come to: one constructor for each way a step can go, with
the label, what is known of the state before it, and the state after it.
`step_rule` says that the list is complete. Every fact about all steps of
the kernel is a case split over these rules.
-/
import Kernmini.Engine.Kernel

namespace Kernmini.Engine

open Kernmini.Wire Kernmini.Lib

namespace Kernel

variable {services : Services} {s s' : Kernel} {l : Label}

/-! ## The handlers -/

/-- What `create_subshell` comes to. -/
inductive CreateRule (s : Kernel) (id : String) (purpose : Creation) : Kernel → Prop
  | refused {error : Error} : CreateRule s id purpose (s.created id purpose (.error error))
  | found (hid : id ≠ "") (hmem : id ∈ s.shells) :
      CreateRule s id purpose (s.created id purpose (.ok ()))
  | creating (hid : id ≠ "") (hnew : id ∉ s.shells) :
      CreateRule s id purpose { s with pc := .create id purpose }

theorem createSubshell_rule (id : String) (purpose : Creation) :
    CreateRule s id purpose (s.createSubshell services id purpose) := by
  unfold createSubshell
  split
  · exact .refused
  · next hid =>
      split
      · exact .refused
      · split
        · next hmem => exact .found hid hmem
        · next hnew => exact .creating hid hnew

/-- What `route_shell` comes to. -/
inductive RouteRule (s : Kernel) (a : Arrival .shell) (after : After) : Kernel → Prop
  | known : RouteRule s a after (s.routeTo (s.routeId a.request) a after)
  | create {m : Kernel} (hnew : s.routeId a.request ∉ s.shells)
      (h : CreateRule s (s.routeId a.request) (.route a after) m) : RouteRule s a after m

theorem routeShell_rule (a : Arrival .shell) (after : After) :
    RouteRule s a after (s.routeShell services a after) := by
  unfold routeShell
  simp only
  split
  · next hnew => exact .create hnew.2 (createSubshell_rule _ _)
  · exact .known

/-- What handling a command comes to. -/
inductive CommandRule (s : Kernel) : SessionCommand → Kernel → Prop
  | refused {c : SessionCommand} {error : Error} : CommandRule s c (s.answer c.cell (.error error))
  | openSubshell {cell : TaskId} {clientSession id : String} {requested : Option String}
      {m : Kernel} (h : CreateRule s id (.command cell clientSession) m) :
      CommandRule s (.openSubshell cell clientSession requested) m
  | close {cell : TaskId} {clientSession id : String} {delete : Bool}
      (hroute : s.routeOverrides.lookup clientSession = some id) :
      CommandRule s (.closeSubshell cell clientSession id delete)
        ({ s with routeOverrides := s.routeOverrides.erase clientSession }.answer cell (.ok ""))
  | closeDelete {cell task : TaskId} {clientSession id : String}
      (hroute : s.routeOverrides.lookup clientSession = some id)
      (hlookup : s.shells.lookup id = some task) :
      CommandRule s (.closeSubshell cell clientSession id true)
        ({ s with
          routeOverrides := s.routeOverrides.erase clientSession
          shells := s.shells.erase id }.stopInBackground task false (.complete cell))

theorem handleCommand_rule (fresh : String) (c : SessionCommand) :
    CommandRule s c (s.handleCommand services fresh c) := by
  cases c with
  | openSubshell cell clientSession requested =>
      simp only [handleCommand]
      split
      · exact .refused
      · exact .openSubshell (createSubshell_rule _ _)
  | closeSubshell cell clientSession id delete =>
      simp only [handleCommand]
      split
      · exact .refused
      · next hroute =>
          have hroute : s.routeOverrides.lookup clientSession = some id := by simpa using hroute
          cases delete with
          | false => exact .close hroute
          | true =>
              simp only [if_true]
              split
              · next hlookup => exact .closeDelete hroute hlookup
              · exact .close hroute

/-- What handling a control request comes to. -/
inductive ControlRule (s : Kernel) (a : Arrival .control) : Kernel → Prop
  | shutdown {es : List Emission} (htype : a.request.msgType = "shutdown_request") :
      ControlRule s a { s.say a es with pc := .returning (.ok ()) }
  | pending
      (htype : a.request.msgType = "interrupt_request" ∨ a.request.msgType = "release_request") :
      ControlRule s a { s with pc := .routePending a }
  | create {id : String} {m : Kernel} (htype : a.request.msgType = "create_subshell_request")
      (h : CreateRule s id (.request a) m) : ControlRule s a m
  | delete {task : TaskId} (htype : a.request.msgType = "delete_subshell_request")
      (hlookup : s.shells.lookup (deleteId a.request) = some task) :
      ControlRule s a ({ s with
        shells := s.shells.erase (deleteId a.request)
        routeOverrides := s.routeOverrides.retain (fun _ routed => routed ≠ deleteId a.request)
        }.stopInBackground task true (.reply a))
  | debug (htype : a.request.msgType = "debug_request") :
      ControlRule s a { s.say a [busy] with pc := .debug a }
  | reply {es : List Emission}
      (hdelete : a.request.msgType = "delete_subshell_request" →
        s.shells.lookup (deleteId a.request) = none) : ControlRule s a (s.say a es)
  | ignored (hrequest : a.request.isRequest = false) : ControlRule s a s

theorem handleControl_rule (fresh : String) (a : Arrival .control) :
    ControlRule s a (s.handleControl services fresh a) := by
  unfold handleControl
  simp only
  split
  · next htype => exact .shutdown htype
  · split
    · next htype => exact .pending (Or.inl htype)
    · split
      · next htype =>
          split
          · exact .reply (fun h => absurd (htype.symm.trans h) (by decide))
          · exact .create htype (createSubshell_rule _ _)
      · split
        · next htype => exact .reply (fun h => absurd (htype.symm.trans h) (by decide))
        · split
          · next htype =>
              split
              · next hlookup => exact .delete htype hlookup
              · next hlookup => exact .reply (fun _ => hlookup)
          · next hdelete =>
              split
              · next htype => exact .pending (Or.inr htype)
              · split
                · next htype => exact .debug htype
                · split
                  · exact .reply (fun h => absurd h hdelete)
                  · next hrequest => exact .ignored (Bool.eq_false_iff.mpr hrequest)

/-! ## The steps -/

/-- What the kernel can do in one step. -/
inductive Rule (services : Services) (s : Kernel) : Label → Kernel → Prop
  -- beside the loop
  | shell {k : TaskId} {t t' : Shell} {l : Shell.Label} (hown : ownLabel l = true)
      (hget : s.tasks[k]? = some t) (hstep : t.step services l = some t') :
      Rule services s (.shell k l) { s with tasks := s.tasks.set k t' }
  | receive {inbound : Inbound} :
      Rule services s (.receive inbound) { s with
        shell := s.shell ++ [⟨s.arrivals, inbound⟩]
        received := s.received ++ [⟨s.arrivals, inbound⟩], arrivals := s.arrivals + 1 }
  | receiveControl {inbound : Inbound} :
      Rule services s (.receiveControl inbound) { s with
        control := s.control ++ [⟨s.arrivals, inbound⟩], arrivals := s.arrivals + 1 }
  | command {c : SessionCommand} :
      Rule services s (.command c) { s with commands := s.commands ++ [c] }
  | notify : Rule services s .notify { s with notified := true }
  | emit {e : (Router × Nat) × Emission} {rest : List ((Router × Nat) × Emission)}
      (hout : s.out = e :: rest) :
      Rule services s .emit { s with out := rest, log := s.log ++ [e] }
  -- `route_shell` and `route_pending_shells`
  | route {order : List TaskId} {a : Arrival .shell} {after : After} {m : Kernel}
      (hpc : s.pc = .route a after) (h : RouteRule s a after m) :
      Rule services s (.next order) m
  | deliver {order : List TaskId} {k : TaskId} {a : Arrival .shell} {after : After} {t t' : Shell}
      (hpc : s.pc = .send k a after) (hget : s.tasks[k]? = some t)
      (hput : t.deliver a.inbound = some t') :
      Rule services s (.next order) { s with
        tasks := s.tasks.set k t', delivered := s.delivered ++ [a], pc := after.pc }
  | undelivered {order : List TaskId} {k : TaskId} {a : Arrival .shell} {after : After}
      (hpc : s.pc = .send k a after) (hclosed : s.sendIncoming k a.inbound = .closed) :
      Rule services s (.next order)
        { s.say a (replySubshellNotFound a.request) with pc := after.pc }
  | takePending {order : List TaskId} {a : Arrival .control} {b : Arrival .shell}
      {rest : List (Arrival .shell)} (hpc : s.pc = .routePending a) (hshell : s.shell = b :: rest) :
      Rule services s (.next order) { s with shell := rest, pc := .route b (.pending a) }
  -- `interrupt_shells`
  | startInterrupt {order : List TaskId} {a : Arrival .control} (hpc : s.pc = .routePending a)
      (hshell : s.shell = []) (horder : s.isOrder order = true)
      (htype : a.request.msgType = "interrupt_request") :
      Rule services s (.next order)
        { s with pc := .interruptShells s.interrupted.length order (some a) }
  | interrupt {order : List TaskId} {mark : Nat} {k : TaskId} {todo : List TaskId}
      {request : Option (Arrival .control)} {t t' : Shell}
      (hpc : s.pc = .interruptShells mark (k :: todo) request) (hget : s.tasks[k]? = some t)
      (hput : t.control .interrupt = some t') :
      Rule services s (.next order) { s with
        tasks := s.tasks.set k t', interrupted := s.interrupted ++ [k]
        pc := .interruptShells mark todo request }
  | interruptClosed {order : List TaskId} {mark : Nat} {k : TaskId} {todo : List TaskId}
      {request : Option (Arrival .control)}
      (hpc : s.pc = .interruptShells mark (k :: todo) request)
      (hclosed : s.sendControl k .interrupt = .closed) :
      Rule services s (.next order) { s with pc := .interruptFailed mark serviceClosed }
  | interruptFailed {order : List TaskId} {mark : Nat} {error : Error}
      (hpc : s.pc = .interruptFailed mark error) :
      Rule services s (.next order) { s with pc := .returning (.error error) }
  | interruptReply {order : List TaskId} {mark : Nat} {a : Arrival .control}
      (hpc : s.pc = .interruptShells mark [] (some a)) :
      Rule services s (.next order)
        { s.say a [.reply "interrupt_reply" (.object [("status", .string "ok")])] with
          pc := .select }
  | interruptDone {order : List TaskId} {mark : Nat}
      (hpc : s.pc = .interruptShells mark [] none) :
      Rule services s (.next order) { s with pc := .select }
  -- `release_request`
  | startRelease {order : List TaskId} {a : Arrival .control} (hpc : s.pc = .routePending a)
      (hshell : s.shell = []) (horder : s.isOrder order = true) :
      Rule services s (.next order) { s with pc := .release order false a }
  | release {order : List TaskId} {k : TaskId} {todo : List TaskId} {found : Bool}
      {a : Arrival .control} {t t' : Shell}
      (hpc : s.pc = .release (k :: todo) found a) (hget : s.tasks[k]? = some t)
      (hput : t.control (releaseControl a.request s.releases) = some t') :
      Rule services s (.next order) { s with
        tasks := s.tasks.set k t', releases := s.releases + 1
        pc := .awaitRelease k s.releases todo found a }
  | releaseClosed {order : List TaskId} {k : TaskId} {todo : List TaskId} {found : Bool}
      {a : Arrival .control} (hpc : s.pc = .release (k :: todo) found a)
      (hclosed : s.sendControl k (releaseControl a.request s.releases) = .closed) :
      Rule services s (.next order) { s with pc := .returning (.error serviceClosed) }
  | released {order : List TaskId} {k : TaskId} {complete : Nat} {todo : List TaskId}
      {found result : Bool} {a : Arrival .control} {t : Shell}
      (hpc : s.pc = .awaitRelease k complete todo found a) (hget : s.tasks[k]? = some t)
      (hanswer : t.answers.lookup complete = some result) :
      Rule services s (.next order) { s with pc := .release todo (found || result) a }
  | unreleased {order : List TaskId} {k : TaskId} {complete : Nat} {todo : List TaskId}
      {found : Bool} {a : Arrival .control} {t : Shell}
      (hpc : s.pc = .awaitRelease k complete todo found a) (hget : s.tasks[k]? = some t)
      (hanswer : t.answers.lookup complete = none) (hended : t.isOpen = false) :
      Rule services s (.next order) { s with pc := .returning (.error recvFailed) }
  | releaseReply {order : List TaskId} {found : Bool} {a : Arrival .control}
      (hpc : s.pc = .release [] found a) :
      Rule services s (.next order)
        { s.say a [releaseReply found] with pc := .select }
  -- the end of the loop
  | drain {order : List TaskId} {result : Except Error Unit} (hpc : s.pc = .returning result)
      (horder : s.isOrder order = true) :
      Rule services s (.next order)
        { s with shells := ∅, pc := .stopShells order .interrupt result }
  | stopPut {order : List TaskId} {k : TaskId} {todo : List TaskId} {phase phase' : StopPhase}
      {result : Except Error Unit} {c : ShellControl} {t t' : Shell}
      (hpc : s.pc = .stopShells (k :: todo) phase result) (hget : s.tasks[k]? = some t)
      (hput : t.control c = some t') (hc : c = .interrupt ∨ c = .stop) :
      Rule services s (.next order)
        { s with tasks := s.tasks.set k t', pc := .stopShells (k :: todo) phase' result }
  | stopClosed {order : List TaskId} {k : TaskId} {todo : List TaskId} {phase phase' : StopPhase}
      {result : Except Error Unit} (hpc : s.pc = .stopShells (k :: todo) phase result) :
      Rule services s (.next order) { s with pc := .stopShells (k :: todo) phase' result }
  | stopped {order : List TaskId} {k : TaskId} {todo : List TaskId} {phase : StopPhase}
      {result ended : Except Error Unit} (hpc : s.pc = .stopShells (k :: todo) phase result)
      (hended : s.tasks[k]?.bind Shell.result = some ended) :
      Rule services s (.next order)
        { s with pc := .stopShells todo .interrupt (result.bind (fun _ => ended)) }
  | returned {order : List TaskId} {phase : StopPhase} {result : Except Error Unit}
      (hpc : s.pc = .stopShells [] phase result) :
      Rule services s (.next order) { s with pc := .returned result }
  -- `tokio::select!`
  | background {error : Option Error} (hpc : s.pc = .select) :
      Rule services s (.select (.background error))
        { s with pc := .returning (.error (error.getD serviceClosed)) }
  | failed {error : Error} {rest : List Error} (hpc : s.pc = .select)
      (hfailures : s.failures = error :: rest) :
      Rule services s (.select .failed)
        { s with failures := rest, pc := .returning (.error error) }
  | reapedParent {k : TaskId} (hpc : s.pc = .select) (hlookup : s.shells.lookup "" = some k)
      (hended : s.tasks[k]?.bind Shell.result = some (.ok ())) :
      Rule services s (.select (.reaped ""))
        { s with shells := s.shells.erase "", pc := .returning (.ok ()) }
  | reaped {id : String} {k : TaskId} (hpc : s.pc = .select) (hlookup : s.shells.lookup id = some k)
      (hended : s.tasks[k]?.bind Shell.result = some (.ok ())) (hid : id ≠ "") :
      Rule services s (.select (.reaped id)) { s with
        shells := s.shells.erase id
        routeOverrides := s.routeOverrides.retain (fun _ routed => routed ≠ id) }
  | reapedError {id : String} {k : TaskId} {error : Error} (hpc : s.pc = .select)
      (hlookup : s.shells.lookup id = some k)
      (hended : s.tasks[k]?.bind Shell.result = some (.error error)) :
      Rule services s (.select (.reaped id))
        { s with shells := s.shells.erase id, pc := .returning (.error error) }
  | terminate (hpc : s.pc = .select) :
      Rule services s (.select .terminate) { s with pc := .returning (.ok ()) }
  | notified {order : List TaskId} (hpc : s.pc = .select) (hnotified : s.notified = true)
      (horder : s.isOrder order = true) :
      Rule services s (.select (.notified order)) { s with
        notified := false, pc := .interruptShells s.interrupted.length order none }
  | takeShell {a : Arrival .shell} {rest : List (Arrival .shell)} (hpc : s.pc = .select)
      (hshell : s.shell = a :: rest) :
      Rule services s (.select .shell) { s with shell := rest, pc := .route a .select }
  | takeCommand {fresh : String} {c : SessionCommand} {rest : List SessionCommand} {m : Kernel}
      (hpc : s.pc = .select) (hcommands : s.commands = c :: rest)
      (h : CommandRule { s with commands := rest } c m) :
      Rule services s (.select (.command fresh)) m
  | takeControl {fresh : String} {a : Arrival .control} {rest : List (Arrival .control)}
      {m : Kernel} (hpc : s.pc = .select) (hcontrol : s.control = a :: rest)
      (h : ControlRule { s with control := rest } a m) :
      Rule services s (.select (.control fresh)) m
  -- language calls
  | childCreated {id : String} {purpose : Creation} (hpc : s.pc = .create id purpose) :
      Rule services s (.childCreated (.ok ())) ((s.spawnShell id).created id purpose (.ok ()))
  | childFailed {id : String} {purpose : Creation} {error : Error}
      (hpc : s.pc = .create id purpose) :
      Rule services s (.childCreated (.error error)) (s.created id purpose (.error error))
  | debugReturned {a : Arrival .control} {result : Except Error Value} (hpc : s.pc = .debug a) :
      Rule services s (.debugReturned result) (s.debugReturned a result)
  -- stop jobs
  | jobPut {j : Nat} {job : StopJob} {phase : StopPhase} {c : ShellControl} {t t' : Shell}
      (hjob : s.stops[j]? = some job) (hget : s.tasks[job.task]? = some t)
      (hput : t.control c = some t') (hc : c = .interrupt ∨ c = .stop) :
      Rule services s (.stop j) { s with
        tasks := s.tasks.set job.task t'
        stops := s.stops.set j { job with phase := some phase } }
  | jobClosed {j : Nat} {job : StopJob} {phase : StopPhase} (hjob : s.stops[j]? = some job) :
      Rule services s (.stop j)
        { s with stops := s.stops.set j { job with phase := some phase } }
  | jobFailed {j : Nat} {job : StopJob} {error : Error} (hjob : s.stops[j]? = some job)
      (hended : s.tasks[job.task]?.bind Shell.result = some (.error error)) :
      Rule services s (.stop j) { s with
        stops := s.stops.set j { job with phase := none }, failures := s.failures ++ [error] }
  | jobCompleted {j : Nat} {job : StopJob} {cell : TaskId} (hjob : s.stops[j]? = some job)
      (hended : s.tasks[job.task]?.bind Shell.result = some (.ok ()))
      (hdone : job.done = .complete cell) :
      Rule services s (.stop j) { s with
        stops := s.stops.set j { job with phase := none }
        answers := s.answers ++ [(cell, .ok "")] }
  | jobReplied {j : Nat} {job : StopJob} {a : Arrival .control} (hjob : s.stops[j]? = some job)
      (hended : s.tasks[job.task]?.bind Shell.result = some (.ok ()))
      (hdone : job.done = .reply a) :
      Rule services s (.stop j) { s with
        stops := s.stops.set j { job with phase := none }
        log := s.log ++
          [(a.source, .reply "delete_subshell_reply" (.object [("status", .string "ok")]))] }

/-! ## The rules are complete -/

/-- A send that goes through is a step of the shell it goes to. -/
theorem sendTo_sent {k : TaskId} {put : Shell → Option Shell} (h : s.sendTo k put = .sent s') :
    ∃ t t', s.tasks[k]? = some t ∧ put t = some t' ∧
      s' = { s with tasks := s.tasks.set k t' } := by
  unfold sendTo at h
  split at h
  · next t ht =>
      split at h
      · split at h
        · next t' hput =>
            cases h
            exact ⟨t, t', ht, hput, rfl⟩
        · cases h
      · cases h
  · cases h

/-- `stop_shell` passes over a shell that has ended, or puts a control. -/
theorem stopStep_inl {k : TaskId} {phase phase' : StopPhase} {m : Kernel}
    (h : s.stopStep k phase = some (m, .inl phase')) :
    m = s ∨ ∃ c t t', s.tasks[k]? = some t ∧ t.control c = some t' ∧
      (c = .interrupt ∨ c = .stop) ∧ m = { s with tasks := s.tasks.set k t' } := by
  cases phase with
  | join =>
      simp only [stopStep] at h
      split at h <;> cases h
  | _ =>
      simp only [stopStep] at h
      split at h
      · next hsend =>
          cases h
          obtain ⟨t, t', hget, hput, hm⟩ := sendTo_sent hsend
          exact Or.inr ⟨_, t, t', hget, hput, by simp, hm⟩
      · cases h
        exact Or.inl rfl
      · cases h

/-- Or it has the result of the shell's task. -/
theorem stopStep_inr {k : TaskId} {phase : StopPhase} {m : Kernel} {result : Except Error Unit}
    (h : s.stopStep k phase = some (m, .inr result)) :
    m = s ∧ s.tasks[k]?.bind Shell.result = some result := by
  cases phase with
  | join =>
      simp only [stopStep] at h
      split at h
      · next hended =>
          cases h
          exact ⟨rfl, hended⟩
      · cases h
  | _ =>
      simp only [stopStep] at h
      split at h <;> cases h

theorem jobStep_rule {j : Nat} (h : s.jobStep j = some s') : Rule services s (.stop j) s' := by
  unfold jobStep at h
  split at h
  · next job hjob =>
      split at h
      · split at h
        · next hstop =>
            cases h
            rcases stopStep_inl hstop with rfl | ⟨c, t, t', hget, hput, hc, rfl⟩
            · exact .jobClosed hjob
            · exact .jobPut hjob hget hput hc
        · next result hstop =>
            cases h
            obtain ⟨rfl, hended⟩ := stopStep_inr hstop
            cases result with
            | error error => exact .jobFailed hjob hended
            | ok _ =>
                simp only [stopDone]
                split
                · next hdone => exact .jobCompleted hjob hended hdone
                · next hdone => exact .jobReplied hjob hended hdone
        · cases h
      · cases h
  · cases h

theorem next_rule {order : List TaskId} (h : s.next services order = some s') :
    Rule services s (.next order) s' := by
  unfold next at h
  split at h
  · next hpc =>
      cases h
      exact .route hpc (routeShell_rule _ _)
  · next hpc =>
      split at h
      · next hsend =>
          cases h
          obtain ⟨t, t', hget, hput, rfl⟩ := sendTo_sent hsend
          exact .deliver hpc hget hput
      · next hclosed =>
          cases h
          exact .undelivered hpc hclosed
      · cases h
  · next hpc =>
      split at h
      · next hshell =>
          cases h
          exact .takePending hpc hshell
      · next hshell =>
          split at h
          · next horder =>
              split at h
              · next htype =>
                  cases h
                  exact .startInterrupt hpc hshell horder htype
              · cases h
                exact .startRelease hpc hshell horder
          · cases h
  · next mark todo request hpc =>
      cases todo with
      | nil =>
          simp only [interruptStep] at h
          split at h
          · cases h
            exact .interruptReply hpc
          · cases h
            exact .interruptDone hpc
      | cons k todo =>
          simp only [interruptStep] at h
          split at h
          · next hsend =>
              cases h
              obtain ⟨t, t', hget, hput, rfl⟩ := sendTo_sent hsend
              exact .interrupt hpc hget hput
          · next hclosed =>
              cases h
              exact .interruptClosed hpc hclosed
          · cases h
  · next hpc =>
      cases h
      exact .interruptFailed hpc
  · next todo found a hpc =>
      cases todo with
      | nil =>
          cases h
          exact .releaseReply hpc
      | cons k todo =>
          simp only [releaseStep] at h
          split at h
          · next hsend =>
              cases h
              obtain ⟨t, t', hget, hput, rfl⟩ := sendTo_sent hsend
              exact .release hpc hget hput
          · next hclosed =>
              cases h
              exact .releaseClosed hpc hclosed
          · cases h
  · next hpc =>
      unfold awaitStep at h
      split at h
      · next hget =>
          split at h
          · next hanswer =>
              cases h
              exact .released hpc hget hanswer
          · next hanswer =>
              split at h
              · cases h
              · next hended =>
                  cases h
                  exact .unreleased hpc hget hanswer (Bool.eq_false_iff.mpr hended)
      · cases h
  · next hpc =>
      split at h
      · next horder =>
          cases h
          exact .drain hpc horder
      · cases h
  · next todo phase result hpc =>
      cases todo with
      | nil =>
          cases h
          exact .returned hpc
      | cons k todo =>
          simp only [stopShellsStep] at h
          split at h
          · next hstop =>
              cases h
              rcases stopStep_inl hstop with rfl | ⟨c, t, t', hget, hput, hc, rfl⟩
              · exact .stopClosed hpc
              · exact .stopPut hpc hget hput hc
          · next hstop =>
              cases h
              obtain ⟨rfl, hended⟩ := stopStep_inr hstop
              cases result with
              | ok | error => exact .stopped hpc hended
          · cases h
  all_goals cases h

theorem selectStep_rule {b : Branch} (hpc : s.pc = .select)
    (h : s.selectStep services b = some s') : Rule services s (.select b) s' := by
  cases b with
  | background error =>
      cases h
      exact .background hpc
  | failed =>
      simp only [selectStep] at h
      split at h
      · next hfailures =>
          cases h
          exact .failed hpc hfailures
      · cases h
  | reaped id =>
      simp only [selectStep] at h
      split at h
      · next hlookup =>
          split at h
          · next hended =>
              split at h
              · next hid =>
                  cases h
                  subst hid
                  exact .reapedParent hpc hlookup hended
              · next hid =>
                  cases h
                  exact .reaped hpc hlookup hended hid
          · next hended =>
              cases h
              exact .reapedError hpc hlookup hended
          · cases h
      · cases h
  | terminate =>
      cases h
      exact .terminate hpc
  | notified order =>
      simp only [selectStep] at h
      split at h
      · next hcond =>
          cases h
          exact .notified hpc hcond.1 hcond.2
      · cases h
  | shell =>
      simp only [selectStep] at h
      split at h
      · next hshell =>
          cases h
          exact .takeShell hpc hshell
      · cases h
  | command fresh =>
      simp only [selectStep] at h
      split at h
      · next hcommands =>
          split at h
          · cases h
            exact .takeCommand hpc hcommands (handleCommand_rule _ _)
          · cases h
      · cases h
  | control fresh =>
      simp only [selectStep] at h
      split at h
      · next hcontrol =>
          split at h
          · cases h
            exact .takeControl hpc hcontrol (handleControl_rule _ _)
          · cases h
      · cases h

theorem step_rule (h : s.step services l = some s') : Rule services s l s' := by
  cases l with
  | shell k l =>
      simp only [step] at h
      split at h
      · next hget =>
          split at h
          · next hown =>
              split at h
              · next hstep =>
                  cases h
                  exact .shell hown hget hstep
              · cases h
          · cases h
      · cases h
  | receive inbound =>
      simp only [step] at h
      split at h
      · cases h
        exact .receive
      · cases h
  | receiveControl inbound =>
      simp only [step] at h
      split at h
      · cases h
        exact .receiveControl
      · cases h
  | command c =>
      cases h
      exact .command
  | notify =>
      cases h
      exact .notify
  | emit =>
      simp only [step] at h
      split at h
      · next hout =>
          cases h
          exact .emit hout
      · cases h
  | next order =>
      simp only [step] at h
      split at h
      · exact next_rule h
      · cases h
  | select b =>
      simp only [step] at h
      split at h
      · next hpc _ => exact selectStep_rule hpc h
      · cases h
  | childCreated result =>
      simp only [step] at h
      split at h
      · next hpc _ =>
          split at h
          · cases h
            exact .childCreated hpc
          · cases h
            exact .childFailed hpc
      · cases h
  | debugReturned result =>
      simp only [step] at h
      split at h
      · next hpc _ =>
          cases h
          exact .debugReturned hpc
      · cases h
  | stop j => exact jobStep_rule h

end Kernel

end Kernmini.Engine
