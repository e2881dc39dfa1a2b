/-
Kernmini.Engine.Rest — a shell left to itself comes to rest, and at rest it
has left nothing undone.

The engine's part of a shell is its scheduler, the task around the language
call of an execution, and the output pumps. The rest is environment: what
arrives on the channels, what the language does, the hold's deadline, and the
sockets: a publication or a reply is taken to go through, while in the code
`Iopub::publish` waits for a client that does not read. Each
step of the engine's part costs effort that what has arrived has brought in
(`effort_lt`), so without further input there are only that many. Where no
step is left (`atRest_of_stuck`), the scheduler is in a language call, or
at its `select!` with nothing to receive, no result to take and no message
queued that may run; and if it was told to stop, there is an execution or a
hold it waits for.
-/
import Mathlib
import Kernmini.Engine.Numbering
import Kernmini.Engine.QueueTheorems

namespace Kernmini.Engine

open Kernmini.Wire Kernmini.Lib

/-! ## The engine's own steps -/

def TaskLabel.isEngine : TaskLabel → Bool
  | .emit | .pump _ | .flushed | .finish => true
  | .accept _ | .returned _ | .panic => false

namespace Shell

def Label.isEngine : Label → Bool
  | .emit | .next _ | .selectIncoming | .selectControl _ | .selectDone | .commPump _ _ => true
  | .task l => l.isEngine
  | _ => false

end Shell

/-! ## Effort

What each place can still cost. A step may leave up to four messages, and
most of them lead back to the top of the loop. -/

def Resume.effort : Resume → Nat
  | .controls => 6
  | .settle => 4
  | .top => 7

def Pc.effort : Pc → Nat
  | .drainIncoming => 7
  | .drainControls => 6
  | .reap => 5
  | .settle => 4
  | .stopTest => 3
  | .dispatch => 2
  | .select => 1
  | .handle _ => 20
  | .park _ => 11
  | .commFlush _ _ => 8
  | .abort _ resume => 2 + resume.effort
  | .answer _ resume => 1 + resume.effort
  | .failing _ => 1
  | .call _ _ _ | .shutdown _ | .ended _ _ | .failed _ => 0

section

variable (item : QueueItem) (n : Nat) (release : Option Nat) (resume : Resume) (error : Error)

@[simp] theorem Pc.effort_drainIncoming : Pc.drainIncoming.effort = 7 := rfl
@[simp] theorem Pc.effort_drainControls : Pc.drainControls.effort = 6 := rfl
@[simp] theorem Pc.effort_reap : Pc.reap.effort = 5 := rfl
@[simp] theorem Pc.effort_settle : Pc.settle.effort = 4 := rfl
@[simp] theorem Pc.effort_stopTest : Pc.stopTest.effort = 3 := rfl
@[simp] theorem Pc.effort_dispatch : Pc.dispatch.effort = 2 := rfl
@[simp] theorem Pc.effort_select : Pc.select.effort = 1 := rfl
@[simp] theorem Pc.effort_handle : (Pc.handle item).effort = 20 := rfl
@[simp] theorem Pc.effort_park : (Pc.park item).effort = 11 := rfl
@[simp] theorem Pc.effort_commFlush : (Pc.commFlush item n).effort = 8 := rfl
@[simp] theorem Pc.effort_abort : (Pc.abort release resume).effort = 2 + resume.effort := rfl
@[simp] theorem Pc.effort_answer : (Pc.answer n resume).effort = 1 + resume.effort := rfl
@[simp] theorem Pc.effort_failing : (Pc.failing error).effort = 1 := rfl
@[simp] theorem Pc.effort_failed : (Pc.failed error).effort = 0 := rfl
@[simp] theorem Pc.effort_shutdown (requested : Bool) : (Pc.shutdown requested).effort = 0 := rfl
@[simp] theorem Pc.effort_call (call : ServiceCall) (comm : Option Nat) :
    (Pc.call item call comm).effort = 0 := rfl

end

@[simp] theorem Resume.effort_pc (resume : Resume) : resume.pc.effort = resume.effort := by
  cases resume <;> rfl

def TaskPhase.effort : TaskPhase → Nat
  | .running | .panicked => 0
  | .flushing _ => 15
  | .finishing _ => 11
  | .finished _ => 10

def ActiveExecution.effort (a : ActiveExecution) : Nat :=
  a.phase.effort + a.out.length + a.output.work

/-- Every step of a pump takes something off its work. -/
theorem Output.work_lt {silent : Bool} {o o' : Output} {l : OutputLabel} {es : List Emission}
    (h : o.step silent l = some (o', es)) : o'.work < o.work := by
  cases Output.step_rule h with
  | @recvMany n hactions hpos hle =>
      have hbatch := pumpBatch_length_le silent (o.channel.take n)
      simp only [List.length_take] at hbatch
      simp only [work, hactions, List.length_drop, List.length_nil]
      omega
  | publish hactions | flush hactions | input hactions => simp [work, hactions]

/-- A pump with work left can take a step. -/
theorem Output.step_of_work (silent : Bool) {o : Output} (h : o.work ≠ 0) :
    ∃ l o' es, o.step silent l = some (o', es) := by
  cases hactions : o.actions with
  | nil =>
      have hpos : 0 < o.channel.length := by
        simp only [work, hactions, List.length_nil] at h
        omega
      exact ⟨.recvMany 1, _, _, by simp only [step, hactions]; rw [if_pos ⟨rfl, Nat.one_pos, hpos⟩]⟩
  | cons action rest =>
      cases action with
      | publish p =>
          exact ⟨.act true, { o with actions := rest }, [.event p], by simp only [step, hactions]⟩
      | flush =>
          exact ⟨.act true, { o with actions := rest, flushed := true }, [],
            by simp only [step, hactions]⟩
      | input prompt password =>
          exact ⟨.act false, { o with actions := rest }, [], by simp [step, hactions]⟩

/-- Where the pump has nothing left, a flush on its way has been performed. -/
theorem Output.flushed_of_work {o : Output} (hf : o.Flushing) (h : o.work = 0) :
    o.flushed = true := by
  have hchannel : o.channel = [] := List.eq_nil_of_length_eq_zero (by simp only [work] at h; omega)
  have hactions : o.actions = [] := List.eq_nil_of_length_eq_zero (by simp only [work] at h; omega)
  simpa [Flushing, hchannel, hactions] using hf

namespace Shell

variable {services : Services} {s t : Shell} {l : Label} {item : QueueItem}

def effort (s : Shell) : Nat :=
  27 * s.incoming.length + 10 * s.controls.length + 20 * s.queue.items.length + s.pc.effort +
    s.out.length + 3 * s.held.toList.length + (s.active.toList.map ActiveExecution.effort).sum +
    (s.comms.map (fun entry => entry.2.work)).sum

/-! ### The messages of the handlers -/

theorem length_replyError_le (request : Message) (content : Value) :
    (replyError request content).length ≤ 4 := by
  unfold replyError
  split <;> simp

theorem length_replyMissing_le (n : Nat) (request : Message) (missing : List String) :
    (replyMissing n request missing).length ≤ 4 :=
  length_replyError_le _ _

theorem length_reportFailure_le (request : Message) (error : Error) (n : Nat) :
    (reportFailure request error n).length ≤ 3 := by
  unfold reportFailure
  by_cases hex : request.isExecute <;> by_cases hreq : request.isRequest <;> simp [hex, hreq]

theorem length_startExecution_le (execution : ExecuteRequest) (n : Nat) :
    (startExecution execution n).length ≤ 2 := by
  unfold startExecution
  split <;> simp

theorem length_finishExecution_le (request : Message) (silent : Bool) (n : Nat)
    (outcome : Except Error ExecuteOutcome) :
    (finishExecution request silent n outcome).1.length ≤ 3 := by
  cases outcome with
  | error error => exact length_reportFailure_le request error n
  | ok outcome =>
      simp only [finishExecution, executeOutcome]
      split
      · simp
      · split
        · split <;> simp
        · simp

theorem length_beginHold_le (n : Nat) (request : Message) : (beginHold n request).length ≤ 2 := by
  unfold beginHold
  split <;> simp

theorem length_finishHold_le (n : Nat) (releaseStatus : String) :
    (finishHold n releaseStatus).1.length ≤ 3 := by
  unfold finishHold
  split <;> simp

/-! ### Every step costs -/

@[simp] theorem length_tag (item : QueueItem) (es : List Emission) :
    (tag item es).length = es.length := by
  simp [tag]

/-- An interrupt is noted by the execution and costs nothing. -/
theorem effort_interrupted (active : Option ActiveExecution) :
    ((active.map (fun a : ActiveExecution => { a with interrupted := true })).toList.map
      ActiveExecution.effort).sum = (active.toList.map ActiveExecution.effort).sum := by
  cases active <;> rfl

theorem ApplyRule.effort_lt {c : ShellControl} {resume : Resume} {rest : List ShellControl}
    (h : ApplyRule { s with controls := rest } resume c t)
    (hpc : resume.effort ≤ s.pc.effort + 6) (hcontrols : s.controls = c :: rest) :
    t.effort < s.effort := by
  have hlen := length_finishHold_le s.executionCount
  cases h with
  | @release msgId releaseStatus complete held hheld hid hok =>
      have hheld : s.held = some held := hheld
      have hlen := hlen releaseStatus
      simp [effort, hcontrols, hheld, say]
      omega
  | @releaseFailed msgId releaseStatus complete held hheld hid hfailed =>
      have hheld : s.held = some held := hheld
      have hlen := hlen releaseStatus
      simp [effort, hcontrols, hheld, say]
      omega
  | @interruptHeld held hheld =>
      have hheld : s.held = some held := hheld
      have hlen := hlen "interrupt"
      simp [effort, hcontrols, hheld, say, effort_interrupted]
      omega
  | interruptFailed hactive =>
      simp [effort, hcontrols, effort_interrupted]
      omega
  | interrupt hheld =>
      simp [effort, hcontrols, effort_interrupted]
      omega
  | notHeld hheld =>
      simp [effort, hcontrols]
      omega
  | stop =>
      simp [effort, hcontrols]
      omega

theorem executionDone_effort_lt {a : ActiveExecution} {done : ExecutionDone} {resume : Resume}
    (hactive : s.active = some a) (hresult : a.result = some (.ok done))
    (hpc : resume.effort ≤ s.pc.effort + 7) : (s.executionDone done resume).effort < s.effort := by
  have hphase := ActiveExecution.phase_of_result hresult
  have hcost : 10 ≤ a.effort := by
    simp only [ActiveExecution.effort, hphase, TaskPhase.effort]
    omega
  simp only [executionDone]
  split
  · simp [effort, hactive]
    omega
  · simp [effort, hactive]
    omega

theorem HandleShellRule.effort_lt (h : HandleShellRule services s item t)
    (hpc : s.pc = .handle item) : t.effort < s.effort := by
  cases h with
  | missing hmissing =>
      have hlen := length_replyMissing_le s.executionCount item.request (missingFields item.request)
      simp [effort, say, hpc]
      omega
  | @kernelInfoFailed error htype =>
      have hlen := length_reportFailure_le item.request error s.executionCount
      simp only [failItem]
      split
      · simp [effort, say, hpc]
        omega
      · simp [effort, say, hpc]
        omega
  | comm hfields hcall => simp [effort, hpc, Output.work]
  | _ =>
      simp [effort, say, hpc]
      try omega

theorem HandleItemRule.effort_lt (h : HandleItemRule services s item t)
    (hpc : s.pc = .handle item) (hactive : item.isExecute = true → s.active = none) :
    t.effort < s.effort := by
  cases h with
  | shell hex h => exact h.effort_lt hpc
  | interrupted hex hinterrupting =>
      simp [effort, say, hpc, interruptExecute]
      omega
  | missing hex hmissing =>
      have hlen := length_replyMissing_le s.executionCount item.request (missingFields item.request)
      simp [effort, say, hpc, Resume.effort]
      omega
  | hold hex hhold =>
      have hlen := length_beginHold_le s.executionCount item.request
      simp [effort, say, hpc]
      omega
  | execute hex hinterrupting hhold =>
      have hlen := length_startExecution_le (executeRequest item.request.content)
        (s.countExecution (executeRequest item.request.content))
      simp [effort, hpc, hactive hex, ActiveExecution.spawn, ActiveExecution.effort,
        TaskPhase.effort, Output.work]
      omega

/-- An aborted cell pays for its three messages. -/
theorem abortQueued_effort_lt {release : Option Nat} {resume : Resume}
    (hpc : s.pc = .abort release resume) : (s.abortQueued release resume).effort < s.effort := by
  have hlen := (abortQueue_perm s.queue).length_eq
  have hout : ((abortQueue s.queue).1.flatMap
      (fun item => tag item (abortExecute s.executionCount))).length =
        3 * (abortQueue s.queue).1.length := by
    rw [List.length_flatMap]
    simp [abortExecute, Nat.mul_comm]
  simp only [List.length_append] at hlen
  cases release with
  | none =>
      simp only [effort, abortQueued, List.length_append, hout, hpc, Pc.effort_abort,
        Resume.effort_pc]
      omega
  | some complete =>
      simp only [effort, abortQueued, List.length_append, hout, hpc, Pc.effort_abort,
        Pc.effort_answer]
      omega

theorem enqueue_effort_lt {inbound : Inbound} {rest : List Inbound} (pc : Pc)
    (hincoming : s.incoming = inbound :: rest) (hpc : pc.effort ≤ s.pc.effort + 6) :
    Shell.effort { { s with incoming := rest }.enqueue inbound with pc := pc } < s.effort := by
  have hlen : ∀ item : QueueItem, (s.queue.push item).items.length = s.queue.items.length + 1 :=
    fun item => (Heap.push_perm s.queue item).length_eq
  simp [effort, enqueue, hincoming, hlen]
  omega

theorem LoopRule.effort_lt (hsh : s.Shape) (h : LoopRule services s l t) (hl : l.isEngine = true) :
    t.effort < s.effort := by
  cases h with
  | takeIncoming hpc hincoming =>
      exact enqueue_effort_lt s.pc hincoming (Nat.le_add_right _ _)
  | abortIncoming hpc hincoming =>
      exact enqueue_effort_lt s.pc hincoming (Nat.le_add_right _ _)
  | selectIncoming hpc hincoming =>
      exact enqueue_effort_lt _ hincoming (by simp [hpc])
  | takeControl hpc hcontrols h | selectControl hpc hcontrols h =>
      exact h.effort_lt (by simp [hpc, Resume.effort]) hcontrols
  | reap hpc hactive hresult =>
      exact executionDone_effort_lt hactive hresult (by simp [hpc, Resume.effort])
  | selectDone hpc hactive hresult =>
      exact executionDone_effort_lt hactive hresult (by simp [hpc, Resume.effort])
  | pop hpc hpop =>
      have hlen := (popRunnable_perm hpop).length_eq
      simp only [Option.toList_some, List.length_append, List.length_singleton] at hlen
      simp only [effort, hpc, Pc.effort_dispatch, Pc.effort_handle]
      omega
  | idle hpc hpop =>
      have hlen := (popRunnable_perm hpop).length_eq
      simp only [Option.toList_none, List.nil_append] at hlen
      simp only [effort, hpc, Pc.effort_dispatch, Pc.effort_select]
      omega
  | handle hpc h => exact h.effort_lt hpc (fun hex => (hsh.handle hpc hex).1)
  | park hpc =>
      simp only [effort, hpc, Pc.effort_park, Pc.effort_drainIncoming, Option.toList_some,
        List.length_singleton]
      omega
  | abort hpc hincoming => exact abortQueued_effort_lt hpc
  | callFailed | commReturned | commInfoReturned | callReturned | shutdownReturned | selectTimeout
  | selectClosed => cases hl
  | _ => simp [effort, *]

/-- The task around a language call costs, too. -/
theorem task_effort_lt {a a' : ActiveExecution} {l : TaskLabel} {es : List Emission}
    (h : a.step l = some (a', es)) (hl : l.isEngine = true) : a'.effort < a.effort := by
  cases ActiveExecution.step_rule h with
  | emit hout =>
      simp only [ActiveExecution.effort, hout, List.length_cons]
      omega
  | pump hpump =>
      have hwork := Output.work_lt hpump
      simp only [ActiveExecution.effort]
      omega
  | @flushed outcome hphase hflushed =>
      have hlen := length_finishExecution_le a.item.request a.execution.silent a.executionCount outcome
      simp only [ActiveExecution.effort, hphase, TaskPhase.effort]
      omega
  | finish hphase hout =>
      simp only [ActiveExecution.effort, hphase, TaskPhase.effort]
      omega
  | accept | returned | panic => cases hl

/-- The sum of a list with one entry replaced by a smaller one. -/
theorem comms_effort_lt {comms : List (Nat × Output)} {comm order : Nat}
    {output output' : Output} (hget : comms[comm]? = some (order, output))
    (hlt : output'.work < output.work) :
    ((comms.set comm (order, output')).map (fun entry => entry.2.work)).sum <
      (comms.map (fun entry => entry.2.work)).sum := by
  induction comms generalizing comm with
  | nil => simp at hget
  | cons entry rest ih =>
      cases comm with
      | zero =>
          simp only [List.getElem?_cons_zero, Option.some.injEq] at hget
          subst hget
          simpa using hlt
      | succ comm =>
          simp only [List.getElem?_cons_succ] at hget
          simpa using ih hget

/-- Every step of the engine's part of a shell costs effort. -/
theorem effort_lt (hsh : s.Shape) (h : s.step services l = some t) (hl : l.isEngine = true) :
    t.effort < s.effort := by
  cases step_rule h with
  | loop hout h => exact h.effort_lt hsh hl
  | emit hout => simp [effort, hout]
  | commPump hget hpump =>
      have hlt := comms_effort_lt hget (Output.work_lt hpump)
      simp only [effort]
      omega
  | task hactive hrunning hstep =>
      have hlt := task_effort_lt hstep hl
      simp only [effort, hactive, Option.toList_some, List.map_cons, List.map_nil, List.sum_cons,
        List.sum_nil]
      omega
  | deliver | control | firstStop | callAccept | dropped => cases hl

/-! ## What the scheduler knows where it waits -/

end Shell

/-- The two last places of the loop, behind the test for a stop. -/
def Pc.pastStop : Pc → Bool
  | .dispatch | .select => true
  | _ => false

@[simp] theorem Resume.pastStop_pc (resume : Resume) : resume.pc.pastStop = false := by
  cases resume <;> rfl

namespace Shell

variable {services : Services} {s t : Shell} {l : Label}

/-- How a step of the scheduler can change the active execution. -/
inductive LoopActive : Option ActiveExecution → Option ActiveExecution → Prop
  | same (active : Option ActiveExecution) : LoopActive active active
  | interrupted (a : ActiveExecution) : LoopActive (some a) (some { a with interrupted := true })
  | done (active : Option ActiveExecution) : LoopActive active none
  | spawned (active : Option ActiveExecution) (item : QueueItem) (execution : ExecuteRequest)
      (n : Nat) : LoopActive active (some (.spawn item execution n))

theorem LoopActive.of_interrupt (active : Option ActiveExecution) :
    LoopActive active (active.map (fun a : ActiveExecution => { a with interrupted := true })) := by
  cases active with
  | none => exact .same none
  | some a => exact .interrupted a

theorem ApplyRule.loopActive {c : ShellControl} {resume : Resume} {rest : List ShellControl}
    (h : ApplyRule { s with controls := rest } resume c t) : LoopActive s.active t.active := by
  cases h with
  | interruptFailed | interruptHeld | interrupt => exact .of_interrupt s.active
  | _ => exact .same s.active

theorem LoopRule.loopActive (h : LoopRule services s l t) : LoopActive s.active t.active := by
  cases h with
  | takeControl hpc hcontrols h | selectControl hpc hcontrols h => exact h.loopActive
  | reap hpc hactive hresult | selectDone hpc hactive hresult => exact .done s.active
  | handle hpc h =>
      cases h with
      | shell hex h => cases h <;> exact .same s.active
      | execute hex hinterrupting hhold => exact .spawned s.active _ _ _
      | _ => exact .same s.active
  | _ => exact .same s.active

/-- The scheduler comes to its `select!` by the test for a stop. -/
theorem LoopRule.pastStop (h : LoopRule services s l t) (hpast : t.pc.pastStop = true) :
    (s.pc = .stopTest ∧ (∃ o, l = .next o) ∧ t = { s with pc := .dispatch }) ∨
    (s.pc = .dispatch ∧ ∃ queue, popRunnable s.queue s.active.isSome s.held = (none, queue) ∧
      t = { s with queue, pc := .select }) := by
  have hresume : ∀ resume : Resume, resume.pc.pastStop = true → False := by simp
  cases h with
  | goOn hpc => exact .inl ⟨hpc, ⟨_, rfl⟩, rfl⟩
  | idle hpc hpop => exact .inr ⟨hpc, _, hpop, rfl⟩
  | takeIncoming hpc hincoming | abortIncoming hpc hincoming =>
      have hpast : s.pc.pastStop = true := hpast
      rw [hpc] at hpast
      cases hpast
  | takeControl hpc hcontrols h | selectControl hpc hcontrols h =>
      cases h <;> cases hpast
  | reap hpc hactive hresult | selectDone hpc hactive hresult =>
      simp only [executionDone] at hpast
      split at hpast <;> cases hpast
  | handle hpc h =>
      cases h with
      | shell hex h =>
          cases h with
          | kernelInfoFailed htype =>
              simp only [failItem] at hpast
              split at hpast <;> cases hpast
          | _ => cases hpast
      | _ => cases hpast
  | @abort o release resume hpc hincoming =>
      cases release with
      | none => exact (hresume _ hpast).elim
      | some complete => cases hpast
  | answer hpc => exact (hresume _ hpast).elim
  | callFailed hpc =>
      simp only [failItem] at hpast
      split at hpast <;> cases hpast
  | _ => cases hpast

/-- What the test for a stop has found where the loop goes on. -/
theorem not_done_of_stopTest {o : Oracle} (hpc : s.pc = .stopTest)
    (h : s.step services (.next o) = some t) (hpast : t.pc = .dispatch)
    (hstop : s.stopping = true) : s.queue.items ≠ [] ∨ s.active.isSome ∨ s.held.isSome := by
  by_contra hnone
  simp only [not_or, not_not, Bool.not_eq_true, Option.isSome_eq_false_iff] at hnone
  obtain ⟨hqueue, hactive, hheld⟩ := hnone
  simp only [step] at h
  split at h
  · simp [next, hpc, hstop, Heap.isEmpty, hqueue, hactive, hheld] at h
    rw [← h] at hpast
    cases hpast
  · cases h

/-- What is known of the active execution, of a shell that was told to stop,
and of the queue where the scheduler waits. -/
structure Tidy (s : Shell) : Prop where
  aborted : s.isOpen = true → ∀ a ∈ s.active, a.aborted = false
  flushing : ∀ a ∈ s.active, ∀ outcome, a.phase = .flushing outcome → a.output.Flushing
  stopping : s.pc.pastStop = true → s.stopping = true →
    s.queue.items ≠ [] ∨ s.active.isSome ∨ s.held.isSome
  blocked : s.pc = .select → ∀ item ∈ s.queue.items,
    item.isExecute = true ∧ Blocked s.active.isSome s.held item

theorem tidy_init : Tidy {} where
  aborted := by simp
  flushing := by simp
  stopping := by simp
  blocked := by simp

theorem LoopActive.of_mem {active active' : Option ActiveExecution} {a' : ActiveExecution}
    (h : LoopActive active active') (ha' : a' ∈ active') :
    (∃ a ∈ active, a'.phase = a.phase ∧ a'.output = a.output ∧ a'.aborted = a.aborted) ∨
      (a'.phase = .running ∧ a'.aborted = false) := by
  cases h with
  | same => exact .inl ⟨a', ha', rfl, rfl, rfl⟩
  | interrupted a =>
      cases ha'
      exact .inl ⟨a, rfl, rfl, rfl, rfl⟩
  | done => cases ha'
  | spawned active item execution n =>
      cases ha'
      exact .inr ⟨rfl, rfl⟩

theorem task_flushing {a a' : ActiveExecution} {l : TaskLabel} {es : List Emission}
    (h : a.step l = some (a', es))
    (ha : ∀ outcome, a.phase = .flushing outcome → a.output.Flushing)
    {outcome : Except Error ExecuteOutcome} (hphase' : a'.phase = .flushing outcome) :
    a'.output.Flushing := by
  cases ActiveExecution.step_rule h with
  | emit hout => exact ha outcome hphase'
  | accept hphase hout hm =>
      rw [hphase] at hphase'
      cases hphase'
  | returned hphase hout => exact Output.flushing_accept_flush a.output
  | pump hpump => exact Output.flushing_step (ha outcome hphase') hpump
  | panic | flushed | finish => cases hphase'

/-- What `pop_runnable` leaves when it returns nothing. -/
theorem blocked_of_popRunnable {queue rest : Queue} {active : Bool} {held : Option QueueItem}
    (hpop : popRunnable queue active held = (none, rest)) :
    ∀ item ∈ rest.items, item.isExecute = true ∧ Blocked active held item := by
  intro item hmem
  have hfind : queue.items.find? (runnable active held) = none := by
    rw [← popRunnable_found, hpop]
  have hitem : item ∈ queue.items := (popRunnable_perm hpop).symm.subset (by simpa using hmem)
  exact runnable_eq_false_iff.mp (by simpa using List.find?_eq_none.mp hfind item hitem)

theorem LoopRule.tidy (hs : s.Tidy) (h : s.step services l = some t)
    (hloop : LoopRule services s l t) : t.Tidy := by
  constructor
  · intro _ a ha
    rcases hloop.loopActive.of_mem ha with ⟨b, hb, _, _, haborted⟩ | ⟨_, haborted⟩
    · exact haborted.trans (hs.aborted hloop.isOpen b hb)
    · exact haborted
  · intro a ha outcome hphase
    rcases hloop.loopActive.of_mem ha with ⟨b, hb, hphase', houtput, _⟩ | ⟨hphase', _⟩
    · rw [houtput]
      exact hs.flushing b hb outcome (hphase' ▸ hphase)
    · rw [hphase'] at hphase
      cases hphase
  · intro hpast hstop
    rcases hloop.pastStop hpast with ⟨hpc, ⟨o, rfl⟩, rfl⟩ | ⟨hpc, queue, hpop, rfl⟩
    · have hleft := not_done_of_stopTest hpc h rfl hstop
      exact hleft
    · have hsame : queue.items ≠ [] ↔ s.queue.items ≠ [] := by
        rw [← List.length_pos_iff, ← List.length_pos_iff, (popRunnable_perm hpop).length_eq]
        simp
      rw [hsame]
      exact hs.stopping (by rw [hpc]; rfl) hstop
  · intro hselect
    rcases hloop.pastStop (by rw [hselect]; rfl) with ⟨_, _, rfl⟩ | ⟨_, queue, hpop, rfl⟩
    · cases hselect
    · exact blocked_of_popRunnable hpop

theorem tidy_step (hs : s.Tidy) (h : s.step services l = some t) : t.Tidy := by
  cases step_rule h with
  | loop hout hloop => exact hloop.tidy hs h
  | @task tl a a' es hactive hrunning hstep =>
      refine ⟨?_, ?_, fun _ _ => .inr (.inl rfl), ?_⟩
      · intro hopen b hb
        cases hb
        rw [(ActiveExecution.sameTask_of_step hstep).aborted]
        exact hs.aborted hopen a hactive
      · intro b hb outcome hphase
        cases hb
        exact task_flushing hstep (hs.flushing a hactive) hphase
      · exact fun _ item hmem => ⟨(hs.blocked ‹_› item hmem).1, .inl rfl⟩
  | @dropped a hactive hclosed =>
      refine ⟨?_, ?_, fun _ _ => .inr (.inl rfl), ?_⟩
      · intro hopen
        have hopen : s.isOpen = true := hopen
        rw [hclosed] at hopen
        cases hopen
      · intro b hb outcome hphase
        cases hb
        exact hs.flushing a hactive outcome hphase
      · exact fun _ item hmem => ⟨(hs.blocked ‹_› item hmem).1, .inl rfl⟩
  | _ => exact ⟨hs.aborted, hs.flushing, hs.stopping, hs.blocked⟩

theorem tidy_of_reachable (h : Reachable services s) : s.Tidy :=
  Lib.Reachable.invariant h tidy_init (fun _ _ _ ha hstep => tidy_step ha hstep)

/-! ## At rest -/

/-- The shell waits for its environment. -/
structure AtRest (s : Shell) : Prop where
  sent : s.out = []
  pumped : (∀ a ∈ s.active, a.output.work = 0) ∧ ∀ entry ∈ s.comms, entry.2.work = 0
  /-- where the scheduler waits -/
  pc : s.pc = .select ∨ (∃ item call comm, s.pc = .call item call comm) ∨
    (∃ requested, s.pc = .shutdown requested) ∨ s.isOpen = false
  /-- the active execution waits for its language, or for the scheduler -/
  active : s.isOpen = true → ∀ a ∈ s.active,
    (a.phase = .running ∧ a.out = []) ∨ (a.result.isSome = true ∧ s.pc ≠ .select)
  /-- at the `select!` there is nothing to do -/
  received : s.pc = .select → s.incoming = [] ∧ s.controls = []
  blocked : s.pc = .select → ∀ item ∈ s.queue.items,
    item.isExecute = true ∧ Blocked s.active.isSome s.held item
  stopping : s.pc = .select → s.stopping = true → s.active.isSome ∨ s.held.isSome

/-- No step of the engine's part is possible. -/
def Stuck (services : Services) (s : Shell) : Prop :=
  ∀ l, l.isEngine = true → s.step services l = none

theorem Stuck.sent (h : Stuck services s) : s.out = [] := by
  cases hout : s.out with
  | nil => rfl
  | cons e rest =>
      have hemit := h .emit rfl
      simp [step, hout] at hemit

theorem Stuck.pumped (h : Stuck services s) :
    (∀ a ∈ s.active, a.output.work = 0) ∧ ∀ entry ∈ s.comms, entry.2.work = 0 := by
  constructor
  · intro a ha
    by_contra hwork
    obtain ⟨l, o', es, hpump⟩ := Output.step_of_work a.execution.silent hwork
    have ha : s.active = some a := ha
    have htask := h (.task (.pump l)) rfl
    simp [step, ha, TaskLabel.isPump, ActiveExecution.step, hpump] at htask
  · intro entry hmem
    by_contra hwork
    obtain ⟨comm, hlt, hget⟩ := List.getElem_of_mem hmem
    obtain ⟨l, o', es, hpump⟩ := Output.step_of_work false hwork
    have hcomm := h (.commPump comm l) rfl
    have hget : s.comms[comm]? = some (entry.1, entry.2) := by
      rw [List.getElem?_eq_getElem hlt, hget]
    simp [step, hget, hpump] at hcomm

/-- The scheduler moves on from everywhere but the places where it waits. -/
theorem Stuck.pc (hsh : s.Shape) (h : Stuck services s) :
    s.pc = .select ∨ (∃ item call comm, s.pc = .call item call comm) ∨
      (∃ requested, s.pc = .shutdown requested) ∨ s.isOpen = false := by
  have hnext : ∀ o, s.next services o = none := by
    intro o
    have hstep := h (.next o) rfl
    simpa [step, h.sent] using hstep
  have hnext := hnext quiet
  cases hpc : s.pc with
  | select => exact .inl rfl
  | call item call comm => exact .inr (.inl ⟨item, call, comm, rfl⟩)
  | shutdown requested => exact .inr (.inr (.inl ⟨requested, rfl⟩))
  | ended | failed => exact .inr (.inr (.inr (by simp [isOpen, hpc])))
  | commFlush item n =>
      obtain ⟨_, order, output, hget, hflushing⟩ := hsh.commFlush hpc
      have hwork := h.pumped.2 (order, output) (List.mem_of_getElem? hget)
      have hflushed := Output.flushed_of_work hflushing hwork
      simp [next, hpc, hget, hflushed] at hnext
  | drainIncoming => cases hin : s.incoming <;> simp [next, hpc, hin] at hnext
  | drainControls => cases hin : s.controls <;> simp [next, hpc, hin] at hnext
  | abort release resume => cases hin : s.incoming <;> simp [next, hpc, hin] at hnext
  | reap =>
      simp only [next, hpc] at hnext
      split at hnext <;> cases hnext
  | stopTest =>
      simp only [next, hpc] at hnext
      split at hnext <;> cases hnext
  | dispatch =>
      simp only [next, hpc] at hnext
      split at hnext <;> cases hnext
  | settle | handle | park | answer | failing => simp [next, hpc] at hnext

/-- The task of an execution moves on from everywhere but the language call. -/
theorem Stuck.active (ht : s.Tidy) (h : Stuck services s) (hopen : s.isOpen = true) :
    ∀ a ∈ s.active, (a.phase = .running ∧ a.out = []) ∨ (a.result.isSome = true ∧ s.pc ≠ .select) := by
  intro a ha
  have haborted := ht.aborted hopen a ha
  have hactive : s.active = some a := ha
  have htask : ∀ l : TaskLabel, l.isEngine = true → a.step l = none := by
    intro l hl
    have hstep := h (.task l) hl
    simp only [step, hactive, haborted, Bool.false_and, Bool.false_eq_true, if_false] at hstep
    split at hstep
    · cases hstep
    · assumption
  have hout : a.out = [] := by
    cases hout : a.out with
    | nil => rfl
    | cons e rest =>
        have hemit := htask .emit rfl
        simp [ActiveExecution.step, hout] at hemit
  have hselect : a.result.isSome = true → s.pc ≠ .select := by
    intro hresult hpc
    have hdone := h .selectDone rfl
    obtain ⟨result, hresult⟩ := Option.isSome_iff_exists.mp hresult
    simp only [step, hpc, h.sent, selectStep, hactive, Option.bind_some, hresult] at hdone
    cases result <;> cases hdone
  cases hphase : a.phase with
  | running => exact .inl ⟨rfl, hout⟩
  | flushing outcome =>
      have hwork := h.pumped.1 a ha
      have hflushed := Output.flushed_of_work (ht.flushing a ha outcome hphase) hwork
      have hstep := htask .flushed rfl
      simp [ActiveExecution.step, hphase, hflushed] at hstep
  | finishing result =>
      have hstep := htask .finish rfl
      simp [ActiveExecution.step, hphase, hout] at hstep
  | finished result =>
      have hresult : a.result.isSome = true := by simp [ActiveExecution.result, hphase]
      exact .inr ⟨hresult, hselect hresult⟩
  | panicked =>
      have hresult : a.result.isSome = true := by simp [ActiveExecution.result, hphase]
      exact .inr ⟨hresult, hselect hresult⟩

theorem Stuck.received (h : Stuck services s) (hpc : s.pc = .select) :
    s.incoming = [] ∧ s.controls = [] := by
  constructor
  · cases hin : s.incoming with
    | nil => rfl
    | cons inbound rest =>
        have hselect := h .selectIncoming rfl
        simp [step, hpc, h.sent, selectStep, hin] at hselect
  · cases hin : s.controls with
    | nil => rfl
    | cons c rest =>
        have hselect := h (.selectControl quiet) rfl
        simp [step, hpc, h.sent, selectStep, hin] at hselect

/-- Where no step is left, the shell is at rest. -/
theorem atRest_of_stuck (hsh : s.Shape) (ht : s.Tidy) (h : Stuck services s) : s.AtRest where
  sent := h.sent
  pumped := h.pumped
  pc := h.pc hsh
  active := h.active ht
  received := h.received
  blocked := ht.blocked
  stopping := by
    intro hpc hstop
    rcases ht.stopping (by rw [hpc]; rfl) hstop with hqueue | hleft
    · obtain ⟨item, hmem⟩ := List.exists_mem_of_ne_nil _ hqueue
      rcases (ht.blocked hpc item hmem).2 with hactive | ⟨hold, hheld, _⟩
      · exact .inl hactive
      · exact .inr (Option.isSome_of_mem hheld)
    · exact hleft

/-! ## Whole runs -/

/-- From every state a run can lead to, whatever steps the engine's part of
the shell takes: without further input it takes no more of them than the
effort of that state, it can come to rest, and where it can do nothing more
it is at rest. Every publication and reply is taken to go through. -/
theorem comes_to_rest (hr : Reachable services s) :
    (∀ ls t, (∀ l ∈ ls, l.isEngine = true) → run (step services) s ls = some t →
      ls.length ≤ s.effort ∧ (Stuck services t → t.AtRest)) ∧
    ∃ t, ReachesBy (step services) (fun l => l.isEngine = true) s t ∧ t.AtRest := by
  have hgood : s.Shape ∧ s.Tidy := ⟨shape_of_reachable hr, tidy_of_reachable hr⟩
  have hkeeps : ∀ a l b, a.Shape ∧ a.Tidy → step services a l = some b → b.Shape ∧ b.Tidy :=
    fun _ _ _ ha hstep => ⟨shape_step ha.1 hstep, tidy_step ha.2 hstep⟩
  constructor
  · intro ls t hown hrun
    have hlen := length_le_of_rank effort hkeeps
      (fun a l b ha hl hstep => effort_lt ha.1 hstep hl) hown hrun hgood
    refine ⟨by omega, fun hstuck => ?_⟩
    obtain ⟨hsh, ht⟩ := run_invariant hkeeps hrun hgood
    exact atRest_of_stuck hsh ht hstuck
  · have hprogress : ∀ a : Shell, a.Shape ∧ a.Tidy → a.AtRest ∨ ∃ l b, l.isEngine = true ∧
        step services a l = some b ∧ (b.Shape ∧ b.Tidy) ∧ b.effort < a.effort := by
      intro a ha
      by_cases hstuck : Stuck services a
      · exact .inl (atRest_of_stuck ha.1 ha.2 hstuck)
      · simp only [Stuck, not_forall] at hstuck
        obtain ⟨l, hl, hsome⟩ := hstuck
        obtain ⟨b, hb⟩ := Option.ne_none_iff_exists'.mp hsome
        exact .inr ⟨l, b, hl, hb, hkeeps a l b ha hb, effort_lt ha.1 hb hl⟩
    obtain ⟨t, hreach, _, hrest⟩ := reachesBy_of_rank effort hprogress s hgood
    exact ⟨t, hreach, hrest⟩

/-- A cell in the channel of a fresh shell costs 34 steps at most. -/
theorem comes_to_rest_one_cell :
    ∃ s, run (step plainServices) {} [.deliver (cell "a" 0 false)] = some s ∧ s.effort = 34 ∧
      ∃ t, ReachesBy (step plainServices) (fun l => l.isEngine = true) s t ∧ t.AtRest := by
  have hview : (run (step plainServices) {} [.deliver (cell "a" 0 false)]).map effort = some 34 := by
    decide
  obtain ⟨s, hs, heffort⟩ := Option.map_eq_some_iff.mp hview
  exact ⟨s, hs, heffort, (comes_to_rest ⟨_, hs⟩).2⟩

end Shell

end Kernmini.Engine
