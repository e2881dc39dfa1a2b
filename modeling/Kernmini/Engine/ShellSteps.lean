/-
Kernmini.Engine.ShellSteps — the steps of a shell as rules.

`Shell.step` is written the way `Shell::run` is, as nested matches.
`LoopRule` lists the steps the scheduler itself takes, each at one place of
its loop and with nothing left to send; `Rule` adds what happens beside the
loop. `step_rule` says that nothing else happens. Every fact about all
steps of a shell is a case split over these rules.
-/
import Kernmini.Engine.Shell

namespace Kernmini.Engine

open Kernmini.Wire Kernmini.Lib

namespace Shell

variable {services : Services} {s s' : Shell} {l : Label} {o : Oracle} {item : QueueItem}

/-! ## The handlers -/

/-- What `apply_control` comes to. -/
inductive ApplyRule (s : Shell) (resume : Resume) : ShellControl → Shell → Prop
  | release {msgId releaseStatus : String} {complete : Nat} {held : QueueItem}
      (hheld : s.held = some held) (hid : held.request.msgId = msgId)
      (hok : (finishHold s.executionCount releaseStatus).2 = false) :
      ApplyRule s resume (.release msgId releaseStatus complete)
        { s.say held (finishHold s.executionCount releaseStatus).1 with
          held := none, pc := .answer complete resume }
  | releaseFailed {msgId releaseStatus : String} {complete : Nat} {held : QueueItem}
      (hheld : s.held = some held) (hid : held.request.msgId = msgId)
      (hfailed : (finishHold s.executionCount releaseStatus).2 = true) :
      ApplyRule s resume (.release msgId releaseStatus complete)
        { s.say held (finishHold s.executionCount releaseStatus).1 with
          held := none, pc := .abort (some complete) resume }
  | notHeld {msgId releaseStatus : String} {complete : Nat}
      (hheld : ∀ held ∈ s.held, held.request.msgId ≠ msgId) :
      ApplyRule s resume (.release msgId releaseStatus complete)
        { s with answers := s.answers ++ [(complete, false)], pc := resume.pc }
  | interruptFailed {error : Error} (hactive : s.active.isSome = true) :
      ApplyRule s resume .interrupt { s with
        interrupting := true
        active := s.active.map (fun a : ActiveExecution => { a with interrupted := true })
        pc := .failed error }
  | interruptHeld {held : QueueItem} (hheld : s.held = some held) :
      ApplyRule s resume .interrupt
        { s.say held (finishHold s.executionCount "interrupt").1 with
          interrupting := true
          active := s.active.map (fun a : ActiveExecution => { a with interrupted := true })
          held := none, pc := .abort none resume }
  | interrupt (hheld : s.held = none) :
      ApplyRule s resume .interrupt { s with
        interrupting := true
        active := s.active.map (fun a : ActiveExecution => { a with interrupted := true })
        pc := .abort none resume }
  | stop : ApplyRule s resume .stop { s with stopping := true, pc := resume.pc }

theorem applyControl_rule (c : ShellControl) (resume : Resume) :
    ApplyRule s resume c (s.applyControl o c resume) := by
  cases c with
  | release msgId releaseStatus complete =>
      simp only [applyControl]
      split
      · next held hheld =>
          split
          · next hid =>
              cases hfinish : (finishHold s.executionCount releaseStatus).2 with
              | false => exact .release hheld hid hfinish
              | true => exact .releaseFailed hheld hid hfinish
          · next hid =>
              refine .notHeld (fun held' hheld' => ?_)
              rw [hheld] at hheld'
              cases hheld'
              exact hid
      · next hheld => exact .notHeld (by simp [hheld])
  | interrupt =>
      simp only [applyControl]
      split
      · next hactive _ => exact .interruptFailed (by simpa using hactive)
      · split
        · next hheld => exact .interruptHeld hheld
        · next hheld => exact .interrupt hheld
  | stop => exact .stop

/-- What `handle_shell` comes to, up to its language call. -/
inductive HandleShellRule (services : Services) (s : Shell) (item : QueueItem) : Shell → Prop
  | missing (hmissing : (missingFields item.request).isEmpty = false) :
      HandleShellRule services s item
        { s.say item (replyMissing s.executionCount item.request
            (missingFields item.request)) with pc := .drainIncoming }
  | shutdown (htype : item.request.msgType = "shutdown_request") :
      HandleShellRule services s item
        { s.say item [.reply "shutdown_reply" (.object
            [("status", .string "ok"),
             ("restart", .bool (item.request.content.boolOr "restart" false))])] with
          pc := .shutdown true }
  | kernelInfo {content : Value} (htype : item.request.msgType = "kernel_info_request") :
      HandleShellRule services s item
        { s.say item [busy, .reply item.request.replyType content, idle] with
          pc := .drainIncoming }
  | kernelInfoFailed {error : Error} (htype : item.request.msgType = "kernel_info_request") :
      HandleShellRule services s item ((s.say item [busy]).failItem item error)
  | comm {msgType : String} {content : Value} {buffers : List Bytes}
      (hfields : (missingFields item.request).isEmpty = true)
      (hcall : serviceCall item.request = some (.message msgType content buffers)) :
      HandleShellRule services s item { s with
        pc := .call item (.message msgType content buffers) (some s.comms.length)
        comms := s.comms ++ [(item.order, {})] }
  | commInfo {content : Value} (hfields : (missingFields item.request).isEmpty = true)
      (hcall : serviceCall item.request = some (.commInfo content)) :
      HandleShellRule services s item { s with pc := .call item (.commInfo content) none }
  | call {call : ServiceCall} (hfields : (missingFields item.request).isEmpty = true)
      (hcall : serviceCall item.request = some call) (hcomm : call.isComm = false) :
      HandleShellRule services s item { s.say item [busy] with pc := .call item call none }
  | connect (htype : item.request.msgType = "connect_request")
      (hcall : serviceCall item.request = none) :
      HandleShellRule services s item
        { s.say item [.reply "connect_reply" services.connection] with pc := .drainIncoming }
  | otherRequest (hrequest : item.isRequest = true)
      (htype : item.request.msgType ≠ "shutdown_request")
      (hcall : serviceCall item.request = none) :
      HandleShellRule services s item
        { s.say item [.reply item.request.replyType (.object [("status", .string "ok")])] with
          pc := .drainIncoming }
  | ignored (hrequest : item.isRequest = false)
      (htype : item.request.msgType ≠ "shutdown_request")
      (hcall : serviceCall item.request = none) :
      HandleShellRule services s item { s with pc := .drainIncoming }

theorem handleShell_rule : HandleShellRule services s item (s.handleShell services o item) := by
  simp only [handleShell]
  split
  · next hmissing => exact .missing (by simpa using hmissing)
  · next hmissing =>
      have hfields : (missingFields item.request).isEmpty = true := by simpa using hmissing
      split
      · next htype => exact .shutdown htype
      · next hshutdown =>
        split
        · next htype =>
            split
            · exact .kernelInfo htype
            · exact .kernelInfoFailed htype
        · split
          · next hcall => exact .comm hfields hcall
          · next hcall => exact .commInfo hfields hcall
          · next call hmessage _ hcall =>
              refine .call hfields hcall ?_
              cases call with
              | message msgType content buffers => exact absurd rfl (hmessage msgType content buffers)
              | _ => rfl
          · next hcall =>
            split
            · next htype => exact .connect htype hcall
            · split
              · next hrequest => exact .otherRequest hrequest hshutdown hcall
              · next hrequest =>
                  exact .ignored (Bool.eq_false_iff.mpr hrequest) hshutdown hcall

/-- What `handle_item` comes to. -/
inductive HandleItemRule (services : Services) (s : Shell) (item : QueueItem) : Shell → Prop
  | shell {m : Shell} (hex : item.isExecute = false) (h : HandleShellRule services s item m) :
      HandleItemRule services s item m
  | interrupted (hex : item.isExecute = true) (hinterrupting : s.interrupting = true) :
      HandleItemRule services s item
        { s.say item (interruptExecute s.executionCount) with pc := .drainIncoming }
  | missing (hex : item.isExecute = true)
      (hmissing : (missingFields item.request).isEmpty = false) :
      HandleItemRule services s item
        { s.say item (replyMissing s.executionCount item.request
            (missingFields item.request)) with pc := .abort none .top }
  | hold (hex : item.isExecute = true) (hhold : isHold item.request = true) :
      HandleItemRule services s item
        { s.say item (beginHold s.executionCount item.request) with pc := .park item }
  | execute (hex : item.isExecute = true) (hinterrupting : s.interrupting = false)
      (hhold : isHold item.request = false) :
      HandleItemRule services s item { s with
        executionCount := s.countExecution (executeRequest item.request.content)
        active := some (.spawn item (executeRequest item.request.content)
          (s.countExecution (executeRequest item.request.content)))
        started := s.started ++ [item]
        pc := .drainIncoming }

theorem handleItem_rule : HandleItemRule services s item (s.handleItem services o item) := by
  simp only [handleItem]
  split
  · next hex => exact .shell (by simpa using hex) handleShell_rule
  · next hex =>
      have hex : item.isExecute = true := by simpa using hex
      split
      · next hinterrupting => exact .interrupted hex hinterrupting
      · next hinterrupting =>
          split
          · next hmissing => exact .missing hex (by simpa using hmissing)
          · split
            · next hhold => exact .hold hex hhold
            · next hhold =>
                exact .execute hex (Bool.eq_false_iff.mpr hinterrupting)
                  (Bool.eq_false_iff.mpr hhold)

/-! ## The loop -/

/-- What the scheduler can do in one step, once it has sent its messages. -/
inductive LoopRule (services : Services) (s : Shell) : Label → Shell → Prop
  | takeIncoming {o : Oracle} {inbound : Inbound} {rest : List Inbound}
      (hpc : s.pc = .drainIncoming) (hincoming : s.incoming = inbound :: rest) :
      LoopRule services s (.next o) ({ s with incoming := rest }.enqueue inbound)
  | incomingDrained {o : Oracle} (hpc : s.pc = .drainIncoming) (hincoming : s.incoming = []) :
      LoopRule services s (.next o) { s with pc := .drainControls }
  | takeControl {o : Oracle} {c : ShellControl} {rest : List ShellControl} {m : Shell}
      (hpc : s.pc = .drainControls) (hcontrols : s.controls = c :: rest)
      (h : ApplyRule { s with controls := rest } .controls c m) :
      LoopRule services s (.next o) m
  | controlsDrained {o : Oracle} (hpc : s.pc = .drainControls) (hcontrols : s.controls = []) :
      LoopRule services s (.next o) { s with pc := .reap }
  | reap {o : Oracle} {a : ActiveExecution} {done : ExecutionDone} (hpc : s.pc = .reap)
      (hactive : s.active = some a) (hresult : a.result = some (.ok done)) :
      LoopRule services s (.next o) (s.executionDone done .settle)
  | reapFailed {o : Oracle} {error : Error} (hpc : s.pc = .reap)
      (hresult : s.active.bind ActiveExecution.result = some (.error error)) :
      LoopRule services s (.next o) { s with pc := .failed error }
  | notReaped {o : Oracle} (hpc : s.pc = .reap)
      (hresult : s.active.bind ActiveExecution.result = none) :
      LoopRule services s (.next o) { s with pc := .settle }
  | settle {o : Oracle} (hpc : s.pc = .settle) :
      LoopRule services s (.next o)
        { s with interrupting := s.interrupting && s.active.isSome, pc := .stopTest }
  | leave {o : Oracle} (hpc : s.pc = .stopTest) (hstopping : s.stopping = true)
      (hqueue : s.queue.isEmpty = true) (hactive : s.active = none) (hheld : s.held = none) :
      LoopRule services s (.next o) { s with pc := .shutdown false }
  | goOn {o : Oracle} (hpc : s.pc = .stopTest) :
      LoopRule services s (.next o) { s with pc := .dispatch }
  | pop {o : Oracle} {item : QueueItem} {queue : Queue} (hpc : s.pc = .dispatch)
      (hpop : popRunnable s.queue s.active.isSome s.held = (some item, queue)) :
      LoopRule services s (.next o) { s with queue, pc := .handle item }
  | idle {o : Oracle} {queue : Queue} (hpc : s.pc = .dispatch)
      (hpop : popRunnable s.queue s.active.isSome s.held = (none, queue)) :
      LoopRule services s (.next o) { s with queue, pc := .select }
  | handle {o : Oracle} {item : QueueItem} {m : Shell} (hpc : s.pc = .handle item)
      (h : HandleItemRule services s item m) : LoopRule services s (.next o) m
  | commFlushed {o : Oracle} {item : QueueItem} {comm : Nat} (hpc : s.pc = .commFlush item comm) :
      LoopRule services s (.next o) { s with pc := .drainIncoming }
  | park {o : Oracle} {item : QueueItem} (hpc : s.pc = .park item) :
      LoopRule services s (.next o) { s with held := some item, pc := .drainIncoming }
  | abortIncoming {o : Oracle} {release : Option Nat} {resume : Resume} {inbound : Inbound}
      {rest : List Inbound} (hpc : s.pc = .abort release resume)
      (hincoming : s.incoming = inbound :: rest) :
      LoopRule services s (.next o) ({ s with incoming := rest }.enqueue inbound)
  | abort {o : Oracle} {release : Option Nat} {resume : Resume}
      (hpc : s.pc = .abort release resume) (hincoming : s.incoming = []) :
      LoopRule services s (.next o) (s.abortQueued release resume)
  | answer {o : Oracle} {release : Nat} {resume : Resume} (hpc : s.pc = .answer release resume) :
      LoopRule services s (.next o)
        { s with answers := s.answers ++ [(release, true)], pc := resume.pc }
  | failing {o : Oracle} {error : Error} (hpc : s.pc = .failing error) :
      LoopRule services s (.next o) { s with pc := .failed error }
  -- `tokio::select!`
  | selectIncoming {inbound : Inbound} {rest : List Inbound} (hpc : s.pc = .select)
      (hincoming : s.incoming = inbound :: rest) :
      LoopRule services s .selectIncoming
        { { s with incoming := rest }.enqueue inbound with pc := .drainIncoming }
  | selectControl {o : Oracle} {c : ShellControl} {rest : List ShellControl} {m : Shell}
      (hpc : s.pc = .select) (hcontrols : s.controls = c :: rest)
      (h : ApplyRule { s with controls := rest } .top c m) :
      LoopRule services s (.selectControl o) m
  | selectDone {a : ActiveExecution} {done : ExecutionDone} (hpc : s.pc = .select)
      (hactive : s.active = some a) (hresult : a.result = some (.ok done)) :
      LoopRule services s .selectDone (s.executionDone done .top)
  | selectFailed {error : Error} (hpc : s.pc = .select)
      (hresult : s.active.bind ActiveExecution.result = some (.error error)) :
      LoopRule services s .selectDone { s with pc := .failed error }
  | selectTimeout {held : QueueItem} (hpc : s.pc = .select) (hheld : s.held = some held) :
      LoopRule services s .selectTimeout
        { s.say held (finishHold s.executionCount "timeout").1 with
          held := none, pc := .abort none .top }
  | selectClosed {channel : String} (hpc : s.pc = .select) :
      LoopRule services s (.selectClosed channel) { s with pc := .failed (.closed channel) }
  -- language calls
  | callFailed {item : QueueItem} {call : ServiceCall} {comm : Option Nat} {error : Error}
      (hpc : s.pc = .call item call comm) :
      LoopRule services s (.callReturned (.error error)) (s.failItem item error)
  | commReturned {item : QueueItem} {msgType : String} {content value : Value}
      {buffers : List Bytes} {comm : Nat}
      (hpc : s.pc = .call item (.message msgType content buffers) (some comm)) :
      LoopRule services s (.callReturned (.ok value)) { s with
        comms := s.comms.modify comm (fun entry => (entry.1, entry.2.accept .flush))
        pc := .commFlush item comm }
  | commInfoReturned {item : QueueItem} {content value : Value} {comm : Option Nat}
      (hpc : s.pc = .call item (.commInfo content) comm) :
      LoopRule services s (.callReturned (.ok value))
        { s.say item [.reply "comm_info_reply" value] with pc := .drainIncoming }
  | callReturned {item : QueueItem} {call : ServiceCall} {comm : Option Nat} {value : Value}
      (hpc : s.pc = .call item call comm) (hcomm : call.isComm = true → comm = none) :
      LoopRule services s (.callReturned (.ok value))
        { s.say item [.reply item.request.replyType value, idle] with pc := .drainIncoming }
  | shutdownReturned {requested : Bool} {result : Except Error Unit}
      (hpc : s.pc = .shutdown requested) :
      LoopRule services s (.shutdownReturned result) { s with pc := .ended requested result }

theorem next_rule (h : s.next services o = some s') : LoopRule services s (.next o) s' := by
  unfold next at h
  split at h
  · next hpc =>
      split at h
      · next hincoming =>
          cases h
          exact .takeIncoming hpc hincoming
      · next hincoming =>
          cases h
          exact .incomingDrained hpc hincoming
  · next hpc =>
      split at h
      · next hcontrols =>
          cases h
          exact .takeControl hpc hcontrols (applyControl_rule _ _)
      · next hcontrols =>
          cases h
          exact .controlsDrained hpc hcontrols
  · next hpc =>
      split at h
      · next hresult =>
          cases h
          obtain ⟨a, hactive, hresult⟩ := Option.bind_eq_some_iff.mp hresult
          exact .reap hpc hactive hresult
      · next hresult =>
          cases h
          exact .reapFailed hpc hresult
      · next hresult =>
          cases h
          exact .notReaped hpc hresult
  · next hpc =>
      cases h
      exact .settle hpc
  · next hpc =>
      split at h
      · next htest =>
          cases h
          simp only [Bool.and_eq_true, Option.isNone_iff_eq_none] at htest
          obtain ⟨⟨⟨hstopping, hqueue⟩, hactive⟩, hheld⟩ := htest
          exact .leave hpc hstopping hqueue hactive hheld
      · cases h
        exact .goOn hpc
  · next hpc =>
      split at h
      · next hpop =>
          cases h
          exact .pop hpc hpop
      · next hpop =>
          cases h
          exact .idle hpc hpop
  · next hpc =>
      cases h
      exact .handle hpc handleItem_rule
  · next hpc =>
      split at h
      · split at h
        · cases h
          exact .commFlushed hpc
        · cases h
      · cases h
  · next hpc =>
      cases h
      exact .park hpc
  · next hpc =>
      split at h
      · next hincoming =>
          cases h
          exact .abortIncoming hpc hincoming
      · next hincoming =>
          cases h
          exact .abort hpc hincoming
  · next hpc =>
      cases h
      exact .answer hpc
  · next hpc =>
      cases h
      exact .failing hpc
  all_goals cases h

theorem selectStep_rule (hpc : s.pc = .select) (h : s.selectStep l = some s') :
    LoopRule services s l s' := by
  cases l with
  | selectIncoming =>
      simp only [selectStep] at h
      split at h
      · next hincoming =>
          cases h
          exact .selectIncoming hpc hincoming
      · cases h
  | selectControl o =>
      simp only [selectStep] at h
      split at h
      · next hcontrols =>
          cases h
          exact .selectControl hpc hcontrols (applyControl_rule _ _)
      · cases h
  | selectDone =>
      simp only [selectStep] at h
      split at h
      · next hresult =>
          cases h
          obtain ⟨a, hactive, hresult⟩ := Option.bind_eq_some_iff.mp hresult
          exact .selectDone hpc hactive hresult
      · next hresult =>
          cases h
          exact .selectFailed hpc hresult
      · cases h
  | selectTimeout =>
      simp only [selectStep] at h
      split at h
      · next hheld =>
          cases h
          exact .selectTimeout hpc hheld
      · cases h
  | selectClosed channel =>
      cases h
      exact .selectClosed hpc
  | _ => cases h

theorem callReturned_rule {call : ServiceCall} {comm : Option Nat} {result : Except Error Value}
    (hpc : s.pc = .call item call comm) :
    LoopRule services s (.callReturned result) (s.callReturned item call comm result) := by
  cases result with
  | error error => exact .callFailed hpc
  | ok value =>
      simp only [callReturned]
      split
      · exact .commReturned hpc
      · exact .commInfoReturned hpc
      · next hmessage =>
          refine .callReturned hpc (fun hcomm => ?_)
          cases call with
          | message msgType content buffers =>
              cases comm with
              | none => rfl
              | some comm => exact (hmessage msgType content buffers comm rfl rfl).elim
          | _ => cases hcomm

/-- A scheduler that takes a step has not ended. -/
theorem LoopRule.isOpen (h : LoopRule services s l s') : s.isOpen = true := by
  cases h with
  | _ => simp [Shell.isOpen, *]

/-! ## Every step -/

/-- What can happen in or to a shell in one step. -/
inductive Rule (services : Services) (s : Shell) : Label → Shell → Prop
  | loop {l : Label} {m : Shell} (hout : s.out = []) (h : LoopRule services s l m) :
      Rule services s l m
  | emit {e : Nat × Emission} {rest : List (Nat × Emission)} (hout : s.out = e :: rest) :
      Rule services s .emit { s with out := rest, log := s.log ++ [e] }
  | commPump {comm order : Nat} {l : OutputLabel} {output output' : Output} {es : List Emission}
      (hget : s.comms[comm]? = some (order, output))
      (hpump : output.step false l = some (output', es)) :
      Rule services s (.commPump comm l) { s with
        comms := s.comms.set comm (order, output'), log := s.log ++ es.map (order, ·) }
  | deliver {inbound : Inbound} (hopen : s.isOpen = true) :
      Rule services s (.deliver inbound) { s with incoming := s.incoming ++ [inbound] }
  | control {c : ShellControl} (hopen : s.isOpen = true)
      (hmark : c = .stop → ∃ mark, s.stopMark = some mark) :
      Rule services s (.control c) { s with controls := s.controls ++ [c] }
  | firstStop (hopen : s.isOpen = true) (hmark : s.stopMark = none) :
      Rule services s (.control .stop) { s with
        controls := s.controls ++ [.stop], stopMark := some (s.order + s.incoming.length) }
  | task {l : TaskLabel} {a a' : ActiveExecution} {es : List Emission}
      (hactive : s.active = some a) (hrunning : (a.aborted && !l.isPump) = false)
      (hstep : a.step l = some (a', es)) :
      Rule services s (.task l) { s with
        active := some a'
        log := s.log ++ tag a.item es
        accepted := s.accepted ++ l.emits.map (a.item.order, ·) }
  | callAccept {item : QueueItem} {call : ServiceCall} {comm : Nat} {m : ContextMessage}
      (hpc : s.pc = .call item call (some comm)) :
      Rule services s (.callAccept m) { s with
        comms := s.comms.modify comm (fun entry => (entry.1, entry.2.accept m))
        accepted := s.accepted ++ [(item.order, m)] }
  | dropped {a : ActiveExecution} (hactive : s.active = some a) (hclosed : s.isOpen = false) :
      Rule services s .dropped { s with active := some { a with aborted := true } }

theorem control_rule {c : ShellControl} (h : s.control c = some s') :
    Rule services s (.control c) s' := by
  unfold control at h
  split at h
  · next hroom =>
      cases h
      cases hmark : s.stopMark with
      | some mark =>
          cases c with
          | _ =>
              simp only
              rw [← hmark]
              exact .control hroom.1 (fun _ => ⟨mark, hmark⟩)
      | none =>
          cases c with
          | stop => exact .firstStop hroom.1 hmark
          | _ =>
              simp only
              rw [← hmark]
              exact .control hroom.1 (fun hstop => nomatch hstop)
  · cases h

theorem task_rule {l : TaskLabel} (h : s.step services (.task l) = some s') :
    Rule services s (.task l) s' := by
  simp only [step] at h
  split at h
  · next a hactive =>
      split at h
      · cases h
      · next hrunning =>
          split at h
          · next a' es hstep =>
              cases h
              have hrule := @Rule.task services s l a a' es hactive
                (Bool.eq_false_iff.mpr hrunning) hstep
              cases l with
              | accept m => exact hrule
              | _ => simpa [TaskLabel.emits] using hrule
          · cases h
  · cases h

theorem step_rule (h : s.step services l = some s') : Rule services s l s' := by
  cases l with
  | emit =>
      simp only [step] at h
      split at h
      · next hout =>
          cases h
          exact .emit hout
      · cases h
  | next o =>
      simp only [step] at h
      split at h
      · next hout => exact .loop (List.isEmpty_iff.mp hout) (next_rule h)
      · cases h
  | selectIncoming | selectControl | selectDone | selectTimeout | selectClosed =>
      simp only [step] at h
      split at h
      · next hpc hout => exact .loop hout (selectStep_rule hpc h)
      · cases h
  | commPump comm l =>
      simp only [step] at h
      split at h
      · next hget =>
          split at h
          · next hpump =>
              cases h
              exact .commPump hget hpump
          · cases h
      · cases h
  | deliver inbound =>
      simp only [step, deliver] at h
      split at h
      · next hroom =>
          cases h
          exact .deliver hroom.1
      · cases h
  | control c => exact control_rule h
  | task l => exact task_rule h
  | callAccept m =>
      simp only [step] at h
      split at h
      · next hpc _ =>
          split at h
          · cases h
            exact .callAccept hpc
          · cases h
      · cases h
  | callReturned result =>
      simp only [step] at h
      split at h
      · next hpc hout =>
          cases h
          exact .loop hout (callReturned_rule hpc)
      · cases h
  | shutdownReturned result =>
      simp only [step] at h
      split at h
      · next hpc hout =>
          cases h
          exact .loop hout (.shutdownReturned hpc)
      · cases h
  | dropped =>
      simp only [step] at h
      split at h
      · next hactive =>
          split at h
          · cases h
          · next hclosed =>
              cases h
              exact .dropped hactive (Bool.eq_false_iff.mpr hclosed)
      · cases h

end Shell

end Kernmini.Engine
