/-
Kernmini.Engine.InterruptRoutes — an interrupt by notification and an
interrupt by request.

Both branches of the loop end in `interrupt_shells`. The branch of an
`interrupt_request` first routes what waits in the shell channel, so that the
interrupt comes behind it. The branch of a `KernelInterrupter` notification
does not: what waits there is routed after the interrupt, and left to run.

Where nothing waits in the channel, the two branches go through the same
states under every schedule (`Alike`): the same shells, with the same
contents, and at the end the same kernel but for the `interrupt_reply`.
-/
import Kernmini.Engine.KernelWaits
import Kernmini.Engine.KernelTable

namespace Kernmini.Engine

open Kernmini.Wire Kernmini.Lib

namespace Kernel

variable {services : Services} {s n c : Kernel} {l : Label} {a : Arrival .control}

/-! ## Steps that do not depend on where the loop is -/

/-- The kernel with the loop elsewhere, and with another permit of the
interrupter. -/
def recast (n : Kernel) (pc : MainPc) (notified : Bool) : Kernel := { n with pc, notified }

/-- The permit after a step beside the loop. -/
def permit (notified : Bool) : Label → Bool
  | .notify => true
  | _ => notified

/-- What a send comes to in the recast kernel. -/
def Send.recast (pc : MainPc) (notified : Bool) : Send → Send
  | .sent s => .sent (s.recast pc notified)
  | .closed => .closed
  | .wait => .wait

theorem sendTo_recast (pc : MainPc) (notified : Bool) (k : TaskId) (put : Shell → Option Shell) :
    (n.recast pc notified).sendTo k put = (n.sendTo k put).recast pc notified := by
  simp only [sendTo, recast]
  cases n.tasks[k]? with
  | none => rfl
  | some t =>
      by_cases hopen : t.isOpen
      · cases hput : put t <;> simp [hopen, hput, Send.recast, recast]
      · simp [hopen, Send.recast]

theorem stopStep_recast (pc : MainPc) (notified : Bool) (k : TaskId) (phase : StopPhase) :
    (n.recast pc notified).stopStep k phase =
      (n.stopStep k phase).map (fun r => (r.1.recast pc notified, r.2)) := by
  cases phase with
  | interrupt =>
      simp only [stopStep, sendControl, sendTo_recast]
      cases n.sendTo k (fun t => t.control .interrupt) <;> rfl
  | stop =>
      simp only [stopStep, sendControl, sendTo_recast]
      cases n.sendTo k (fun t => t.control .stop) <;> rfl
  | join =>
      simp only [stopStep, recast]
      cases n.tasks[k]?.bind Shell.result <;> rfl

theorem jobStep_recast (pc : MainPc) (notified : Bool) (j : Nat) :
    (n.recast pc notified).jobStep j = (n.jobStep j).map (fun n' => n'.recast pc notified) := by
  have hstops : (n.recast pc notified).stops = n.stops := rfl
  simp only [jobStep, hstops]
  cases n.stops[j]? with
  | none => rfl
  | some job =>
      cases hphase : job.phase with
      | none => simp [hphase]
      | some phase =>
          simp only [hphase, stopStep_recast]
          cases n.stopStep job.task phase with
          | none => rfl
          | some r =>
              obtain ⟨m, next | result⟩ := r
              · rfl
              · cases result with
                | error error => rfl
                | ok value => cases job.done <;> simp [stopDone, recast, answer]

/-- The loop is in `interrupt_shells`. -/
def InSweep (n : Kernel) (_ : Label) : Prop :=
  ∃ mark todo request, n.pc = .interruptShells mark todo request

def isSweep : MainPc → Bool
  | .interruptShells .. => true
  | _ => false

instance (n : Kernel) (l : Label) : Decidable (InSweep n l) :=
  decidable_of_iff (isSweep n.pc = true) (by unfold InSweep; cases n.pc <;> simp [isSweep])

/-- A step beside the loop. -/
def besideLoop : Label → Bool
  | .next _ => false
  | _ => true

/-- While the loop is in `interrupt_shells`, what happens beside it does not
depend on what the interrupt is for. -/
theorem step_recast {mark : Nat} {todo : List TaskId} {request : Option (Arrival .control)}
    (hpc : n.pc = .interruptShells mark todo none) (hl : besideLoop l = true) (notified : Bool) :
    (n.recast (.interruptShells mark todo request) notified).step services l =
      (n.step services l).map
        (fun n' => n'.recast (.interruptShells mark todo request) (permit notified l)) := by
  cases l with
  | next order => cases hl
  | shell k l =>
      simp only [step, recast]
      cases n.tasks[k]? with
      | none => rfl
      | some t =>
          by_cases hown : ownLabel l
          · cases hstep : t.step services l <;> simp [hown, hstep, permit]
          · simp [hown]
  | receive inbound =>
      by_cases hroom : n.shell.length < shellCapacity <;> simp [step, recast, hroom, permit]
  | receiveControl inbound =>
      by_cases hroom : n.control.length < controlCapacity <;> simp [step, recast, hroom, permit]
  | command c => rfl
  | notify => rfl
  | emit =>
      simp only [step, recast]
      cases n.out <;> rfl
  | select | childCreated | debugReturned => simp [step, recast, hpc]
  | stop j =>
      simp only [step]
      exact jobStep_recast _ _ j

theorem pc_of_besideLoop {n' : Kernel} {mark : Nat} {todo : List TaskId}
    {request : Option (Arrival .control)} (hpc : n.pc = .interruptShells mark todo request)
    (hl : besideLoop l = true) (h : n.step services l = some n') : n'.pc = n.pc := by
  cases step_rule h with
  | shell | receive | receiveControl | command | notify | emit | jobPut | jobClosed | jobFailed
  | jobCompleted | jobReplied => rfl
  | _ => simp_all [besideLoop]

/-! ## In lockstep -/

/-- `interrupt_reply`. -/
def interruptReply (a : Arrival .control) : (Router × Nat) × Emission :=
  (a.source, .reply "interrupt_reply" (.object [("status", .string "ok")]))

/-- `n` handles a notification and `c` the interrupt request `a`, and they are
the same kernel but for the reply. -/
inductive Alike (a : Arrival .control) (n c : Kernel) : Prop
  | sweeping (mark : Nat) (todo : List TaskId) (notified : Bool)
      (hpc : n.pc = .interruptShells mark todo none)
      (hc : c = n.recast (.interruptShells mark todo (some a)) notified)
  /-- a send failed, and the loop is about to return its error -/
  | failed (mark : Nat) (error : Error) (notified : Bool) (hpc : n.pc = .interruptFailed mark error)
      (hc : c = n.recast n.pc notified)
  /-- the loop is done, and `c` has the reply to send -/
  | done (notified : Bool) (hpc : n.pc = .select) (hout : n.out = [])
      (hc : c = { n.recast .select notified with out := [interruptReply a] })

/-- The shells, and everything else that decides what becomes of a request. -/
theorem Alike.tasks (h : Alike a n c) : c.tasks = n.tasks ∧ c.shell = n.shell ∧
    c.shells = n.shells ∧ c.delivered = n.delivered ∧ c.stops = n.stops := by
  cases h with
  | sweeping mark todo notified hpc hc => subst hc; exact ⟨rfl, rfl, rfl, rfl, rfl⟩
  | failed mark error notified hpc hc => subst hc; exact ⟨rfl, rfl, rfl, rfl, rfl⟩
  | done notified hpc hout hc => subst hc; exact ⟨rfl, rfl, rfl, rfl, rfl⟩

/-- The reply is sent, and the two kernels differ in the log and the permit
only. -/
theorem Alike.replied (h : Alike a n c) (hpc : n.pc = .select) :
    ∃ notified, c.step services .emit =
      some { n.recast .select notified with log := n.log ++ [interruptReply a] } := by
  cases h with
  | sweeping mark todo notified hpc' =>
      rw [hpc] at hpc'
      cases hpc'
  | failed mark error notified hpc' =>
      rw [hpc] at hpc'
      cases hpc'
  | done notified hpc' hout hc =>
      subst hc
      exact ⟨notified, by simp [step, recast, hout]⟩

/-- One step of `interrupt_shells`. -/
theorem interruptStep_alike {mark : Nat} {todo : List TaskId} (notified : Bool)
    (hpc : n.pc = .interruptShells mark todo none) (hout : n.out = []) :
    Option.Rel (Alike a) (n.interruptStep mark none todo)
      ((n.recast (.interruptShells mark todo (some a)) notified).interruptStep mark (some a) todo) := by
  cases todo with
  | nil =>
      refine .some (.done notified rfl hout ?_)
      simp [say, recast, hout, interruptReply]
  | cons k todo =>
      simp only [interruptStep, sendControl, sendTo_recast]
      cases n.sendTo k (fun t => t.control .interrupt) with
      | sent m => exact .some (.sweeping mark todo notified rfl rfl)
      | closed => exact .some (.failed mark _ notified rfl rfl)
      | wait => exact .none

theorem alike_step (h : Alike a n c) (hsweep : InSweep n l) :
    Option.Rel (Alike a) (n.step services l) (c.step services l) := by
  obtain ⟨mark', todo', request', hin⟩ := hsweep
  cases h with
  | failed mark error notified hpc =>
      rw [hpc] at hin
      cases hin
  | done notified hpc =>
      rw [hpc] at hin
      cases hin
  | sweeping mark todo notified hpc hc =>
      subst hc
      cases hl : besideLoop l with
      | true =>
          rw [step_recast hpc hl notified]
          cases hstep : n.step services l with
          | none => exact .none
          | some n' =>
              have hpc' := (pc_of_besideLoop hpc hl hstep).trans hpc
              exact .some (.sweeping mark todo _ hpc' rfl)
      | false =>
          cases l with
          | next order =>
              have hsame : (n.recast (.interruptShells mark todo (some a)) notified).out = n.out := rfl
              simp only [step, hsame]
              by_cases hout : n.out.isEmpty
              · simp only [hout, if_true, next, hpc, recast]
                exact interruptStep_alike notified hpc (List.isEmpty_iff.mp hout)
              · simp only [hout]
                exact .none
          | _ => cases hl

/-- Where nothing waits in the shell channel, a notification and an
`interrupt_request` have the same effect: under every schedule the loop puts
the same interrupts to the same shells, which do the same, until it has
handled them. What is left then is to send the reply. -/
theorem interrupt_routes_agree (order : List TaskId) (fresh : String) (hpc : s.pc = .select)
    (hout : s.out = []) (hshell : s.shell = []) (horder : s.isOrder order = true)
    (ha : a.request.msgType = "interrupt_request") (hfresh : fresh ≠ "") :
    ∃ n c, step services { s with notified := true } (.select (.notified order)) = some n ∧
      run (step services) { s with control := a :: s.control }
        [.select (.control fresh), .next order] = some c ∧ Alike a n c ∧
      ∀ ls, StepsMeet (step services) InSweep n ls →
        Option.Rel (Alike a) (run (step services) n ls) (run (step services) c ls) ∧
        ∀ n' c', run (step services) n ls = some n' → run (step services) c ls = some c' →
          (c'.tasks = n'.tasks ∧ c'.shell = n'.shell ∧ c'.shells = n'.shells ∧
            c'.delivered = n'.delivered ∧ c'.stops = n'.stops) ∧
          (n'.pc = .select → ∃ notified, c'.step services .emit =
            some { n'.recast .select notified with log := n'.log ++ [interruptReply a] }) := by
  have hperm : order.isPerm (HashMap.values s.shells) = true := horder
  have hn : step services { s with notified := true } (.select (.notified order)) =
      some { s with notified := false, pc := .interruptShells s.interrupted.length order none } := by
    simp [step, hpc, hout, selectStep, isOrder, hperm]
  have hc : run (step services) { s with control := a :: s.control }
      [.select (.control fresh), .next order] =
      some (s.recast (.interruptShells s.interrupted.length order (some a)) s.notified) := by
    refine run_cons_eq_some.mpr ⟨{ s with pc := .routePending a }, ?_, ?_⟩
    · simp [step, hpc, hout, selectStep, hfresh, handleControl, ha]
    · simp [run_singleton, step, hout, next, hshell, isOrder, hperm, ha, recast]
  have halike : Alike a
      { s with notified := false, pc := .interruptShells s.interrupted.length order none }
      (s.recast (.interruptShells s.interrupted.length order (some a)) s.notified) :=
    .sweeping _ _ s.notified rfl rfl
  refine ⟨_, _, hn, hc, halike, fun ls hls => ?_⟩
  have hrel := run_rel (fun x y l h hok => @alike_step services x y l a h hok) halike hls
  refine ⟨hrel, fun n' c' hn' hc' => ?_⟩
  rw [hn', hc'] at hrel
  cases hrel with
  | some hend => exact ⟨hend.tasks, hend.replied⟩

/-- The request of an interrupt, as it arrives. -/
def interruptArrival : Arrival .control :=
  { number := 0, inbound := controlRequest "interrupt_request" (.object []) }

/-- A cell is received and put to the parent shell. -/
def routeCell (inbound : Inbound) : List Label :=
  [.receive inbound, .select .shell, .next [], .next []]

/-- The parent shell holds the cell `a`, runs `b` before it, and has `c` in its
queue. -/
def holdRunQueue : List Label :=
  let nexts (count : Nat) : List Label := List.replicate count (.shell 0 (.next Shell.quiet))
  routeCell (Shell.cell "a" 0 true) ++ nexts 8 ++ [.shell 0 .emit, .shell 0 .emit] ++ nexts 1 ++
    routeCell (Shell.cell "b" 1 false) ++ routeCell (Shell.cell "c" 0 false) ++ nexts 15

/-- The interrupt is put to the shell, which takes it before the loop is done. -/
def sweepParent : List Label :=
  [.next [], .shell 0 (.selectControl Shell.quiet), .shell 0 .emit, .shell 0 .emit,
    .shell 0 .emit, .shell 0 (.next Shell.quiet), .next []]

/-- What becomes of the requests of the parent shell. -/
def requestsOf (s : Kernel) : Option (Option (String × Bool) × Option String × List String) :=
  s.tasks[0]?.map fun t =>
    (t.active.map fun x => (x.item.request.msgId, x.interrupted),
      t.held.map fun x => x.request.msgId, t.queue.items.map fun x => x.request.msgId)

/-- A running, a held and a queued cell are interrupted: the first is told, the
hold is finished and the third is aborted. -/
theorem interrupt_routes_agree_busy :
    ∃ s n c n' c', run (step subshellServices) {} holdRunQueue = some s ∧
      requestsOf s = some (some ("b", false), some "a", ["c"]) ∧
      step subshellServices { s with notified := true } (.select (.notified [0])) = some n ∧
      run (step subshellServices) { s with control := interruptArrival :: s.control }
        [.select (.control "u"), .next [0]] = some c ∧
      run (step subshellServices) n sweepParent = some n' ∧
      run (step subshellServices) c sweepParent = some c' ∧
      requestsOf n' = some (some ("b", true), none, []) ∧ c'.tasks = n'.tasks ∧
      ∃ notified, c'.step subshellServices .emit = some { n'.recast .select notified with
        log := n'.log ++ [interruptReply interruptArrival] } := by
  obtain ⟨s, n, n', hs, hview, hpc, hout, hshell, horder, hn, hmeets, hn', hview', hpc'⟩ :
      ∃ s n n', run (step subshellServices) {} holdRunQueue = some s ∧
        requestsOf s = some (some ("b", false), some "a", ["c"]) ∧ s.pc = .select ∧ s.out = [] ∧
        s.shell = [] ∧ s.isOrder [0] = true ∧
        step subshellServices { s with notified := true } (.select (.notified [0])) = some n ∧
        StepsMeet (step subshellServices) InSweep n sweepParent ∧
        run (step subshellServices) n sweepParent = some n' ∧
        requestsOf n' = some (some ("b", true), none, []) ∧ n'.pc = .select :=
    ⟨_, _, _, rfl, rfl, rfl, rfl, rfl, rfl, rfl, by decide +kernel, rfl, rfl, rfl⟩
  obtain ⟨n₂, c, hn₂, hc, _, hall⟩ := @interrupt_routes_agree subshellServices s interruptArrival
    [0] "u" hpc hout hshell horder (by decide) (by decide)
  obtain rfl : n = n₂ := Option.some.inj (hn.symm.trans hn₂)
  obtain ⟨hrel, hsame⟩ := hall sweepParent hmeets
  obtain ⟨c', hc'⟩ : ∃ c', run (step subshellServices) c sweepParent = some c' := by
    rw [hn'] at hrel
    generalize run (step subshellServices) c sweepParent = r at hrel
    cases hrel with
    | some => exact ⟨_, rfl⟩
  obtain ⟨htasks, hreply⟩ := hsame n' c' hn' hc'
  exact ⟨s, n, c, n', c', hs, hview, hn, hc, hn', hc', hview', htasks.1, hreply hpc'⟩

/-! ## What waits in the shell channel -/

/-- A cell is received while the parent shell waits in its `select!`. -/
def waitingCell : List Label :=
  (List.replicate 6 (.shell 0 (.next Shell.quiet))).concat (.receive (Shell.cell "b" 0 false))

/-- The kernel is interrupted by a notification: the shell takes the interrupt,
and then the cell. -/
def notifyFirst : List Label :=
  let sweep : List Label :=
    [.notify, .select (.notified [0]), .next [], .next [], .shell 0 (.selectControl Shell.quiet),
      .shell 0 (.next Shell.quiet)]
  let route : List Label := [.select .shell, .next [], .next []]
  let handle : List Label := List.replicate 8 (.shell 0 (.next Shell.quiet))
  waitingCell ++ sweep ++ route ++ handle

/-- The kernel is interrupted by a request: the cell is put to the shell first,
and the shell takes the interrupt. -/
def requestFirst : List Label :=
  let sweep : List Label :=
    [.receiveControl (controlRequest "interrupt_request" (.object [])), .select (.control "u"),
      .next [], .next [], .next [], .next [0], .next [], .next [], .emit]
  let handle : List Label :=
    [.shell 0 (.selectControl Shell.quiet), .shell 0 (.next Shell.quiet),
      .shell 0 (.next Shell.quiet), .shell 0 .emit, .shell 0 .emit, .shell 0 .emit]
  waitingCell ++ sweep ++ handle

/-- The cell that waits in the shell channel runs on after the notification, and
is aborted by the request. -/
theorem interrupt_routes_differ :
    ∃ n c, run (step subshellServices) {} notifyFirst = some n ∧
      run (step subshellServices) {} requestFirst = some c ∧
      n.interrupted = [0] ∧ c.interrupted = [0] ∧
      (n.tasks[0]?.bind Shell.active).map (fun x => (x.item.request.msgId, x.interrupted)) =
        some ("b", false) ∧
      c.tasks[0]?.map (fun x => (x.started.length, x.log)) =
        some (0, (abortExecute 0).map (0, ·)) := by
  exact ⟨_, _, rfl, rfl, rfl, rfl, rfl, rfl⟩

end Kernel

end Kernmini.Engine
