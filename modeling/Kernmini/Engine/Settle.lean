/-
Kernmini.Engine.Settle — a shell whose language returns serves everything it
has received.

To the engine's own steps (`Label.isEngine`) come the returns of the language
and the deadline of a hold. Each of these uses up a turn: a message still to be
handled, the message in hand, the execution that runs, the hold that is parked,
or the shutdown that every shell has before it. The engine's steps make no turn
(`turns_le`). So with a price for a turn above what a return can cost, all of
them together are bounded (`labour_lt`), and where none is left the shell has
ended, or it is idle: nothing received, queued, parked or running, and nobody
has told it to stop (`settled_of_still`).
-/
import Mathlib
import Kernmini.Engine.Rest

namespace Kernmini.Engine

open Kernmini.Wire Kernmini.Lib

/-! ## Steps that settle -/

/-- The language call of an execution ends. -/
def TaskLabel.isReturn : TaskLabel → Bool
  | .returned _ | .panic => true
  | .emit | .accept _ | .pump _ | .flushed | .finish => false

namespace Shell

/-- A language call returns, or a hold's time is up. -/
def Label.isReturn : Label → Bool
  | .callReturned _ | .shutdownReturned _ | .selectTimeout => true
  | .task l => l.isReturn
  | _ => false

/-- The steps of a shell without further input. -/
def Label.settles (l : Label) : Bool := l.isEngine || l.isReturn

end Shell

/-! ## Turns -/

def Pc.turns : Pc → Nat
  | .handle _ | .call _ _ _ | .park _ => 2
  | .ended _ _ | .failed _ => 0
  | _ => 1

section

variable (item : QueueItem) (n : Nat) (release : Option Nat) (resume : Resume) (error : Error)

@[simp] theorem Pc.turns_drainIncoming : Pc.drainIncoming.turns = 1 := rfl
@[simp] theorem Pc.turns_drainControls : Pc.drainControls.turns = 1 := rfl
@[simp] theorem Pc.turns_reap : Pc.reap.turns = 1 := rfl
@[simp] theorem Pc.turns_settle : Pc.settle.turns = 1 := rfl
@[simp] theorem Pc.turns_stopTest : Pc.stopTest.turns = 1 := rfl
@[simp] theorem Pc.turns_dispatch : Pc.dispatch.turns = 1 := rfl
@[simp] theorem Pc.turns_select : Pc.select.turns = 1 := rfl
@[simp] theorem Pc.turns_handle : (Pc.handle item).turns = 2 := rfl
@[simp] theorem Pc.turns_park : (Pc.park item).turns = 2 := rfl
@[simp] theorem Pc.turns_commFlush : (Pc.commFlush item n).turns = 1 := rfl
@[simp] theorem Pc.turns_abort : (Pc.abort release resume).turns = 1 := rfl
@[simp] theorem Pc.turns_answer : (Pc.answer n resume).turns = 1 := rfl
@[simp] theorem Pc.turns_failing : (Pc.failing error).turns = 1 := rfl
@[simp] theorem Pc.turns_failed : (Pc.failed error).turns = 0 := rfl
@[simp] theorem Pc.turns_shutdown (requested : Bool) : (Pc.shutdown requested).turns = 1 := rfl
@[simp] theorem Pc.turns_ended (requested : Bool) (result : Except Error Unit) :
    (Pc.ended requested result).turns = 0 := rfl
@[simp] theorem Pc.turns_call (call : ServiceCall) (comm : Option Nat) :
    (Pc.call item call comm).turns = 2 := rfl

end

@[simp] theorem Resume.turns_pc (resume : Resume) : resume.pc.turns = 1 := by
  cases resume <;> rfl

/-- The scheduler is at its `select!`. -/
def Pc.isSelect : Pc → Bool
  | .select => true
  | _ => false

theorem Pc.isSelect_iff {pc : Pc} : pc.isSelect = true ↔ pc = .select := by
  cases pc <;> simp [isSelect]

def TaskPhase.turns : TaskPhase → Nat
  | .running => 1
  | .flushing _ | .finishing _ | .finished _ | .panicked => 0

namespace Shell

variable {services : Services} {s t : Shell} {l : Label} {item : QueueItem}

/-- The language calls and holds still to come. -/
def turns (s : Shell) : Nat :=
  s.incoming.length + s.queue.items.length + s.pc.turns + s.held.toList.length +
    (s.active.toList.map (fun a => a.phase.turns)).sum

/-- The steps still to come, with a price of 20 for a turn. -/
def labour (s : Shell) : Nat := s.effort + 20 * s.turns

theorem turns_interrupted (active : Option ActiveExecution) :
    ((active.map (fun a : ActiveExecution => { a with interrupted := true })).toList.map
      (fun a => a.phase.turns)).sum = (active.toList.map (fun a => a.phase.turns)).sum := by
  cases active <;> rfl

theorem ApplyRule.turns_le {c : ShellControl} {resume : Resume} {rest : List ShellControl}
    (h : ApplyRule { s with controls := rest } resume c t) (hpc : s.pc.turns = 1) :
    t.turns ≤ s.turns := by
  cases h with
  | interruptHeld hheld | interrupt hheld | interruptFailed hactive =>
      simp [turns, say, turns_interrupted, hpc]
  | _ => simp [turns, say, hpc]

theorem executionDone_turns_le {done : ExecutionDone} {resume : Resume} (hpc : s.pc.turns = 1) :
    (s.executionDone done resume).turns ≤ s.turns := by
  simp only [executionDone]
  split <;> simp [turns, hpc]

theorem failItem_turns_le (error : Error) :
    (s.failItem item error).turns + s.pc.turns ≤ s.turns + 1 := by
  simp only [failItem]
  split <;> simp [turns, say] <;> omega

theorem HandleItemRule.turns_le (h : HandleItemRule services s item t)
    (hpc : s.pc = .handle item) (hactive : item.isExecute = true → s.active = none) :
    t.turns ≤ s.turns := by
  have hturns : s.pc.turns = 2 := by rw [hpc]; rfl
  cases h with
  | shell hex h =>
      cases h with
      | kernelInfoFailed htype =>
          have hle := @failItem_turns_le (s.say item [busy]) item ‹_›
          have hsame : (s.say item [busy]).turns = s.turns := rfl
          have hpc' : (s.say item [busy]).pc.turns = 2 := hturns
          omega
      | _ => simp [turns, say, hturns]
  | execute hex hinterrupting hhold =>
      simp [turns, hturns, hactive hex, ActiveExecution.spawn, TaskPhase.turns]
  | _ => simp [turns, say, hturns]

theorem abortQueued_turns_le {release : Option Nat} {resume : Resume}
    (hpc : s.pc = .abort release resume) : (s.abortQueued release resume).turns ≤ s.turns := by
  have hlen := (abortQueue_perm s.queue).length_eq
  simp only [List.length_append] at hlen
  cases release with
  | none =>
      simp only [turns, abortQueued, hpc, Resume.turns_pc, Pc.turns_abort]
      omega
  | some complete =>
      simp only [turns, abortQueued, hpc, Pc.turns_answer, Pc.turns_abort]
      omega

theorem enqueue_turns {inbound : Inbound} {rest : List Inbound} {pc : Pc}
    (hincoming : s.incoming = inbound :: rest) (hpc : pc.turns = s.pc.turns) :
    Shell.turns { { s with incoming := rest }.enqueue inbound with pc := pc } = s.turns := by
  have hlen : ∀ item : QueueItem, (s.queue.push item).items.length = s.queue.items.length + 1 :=
    fun item => (Heap.push_perm s.queue item).length_eq
  simp [turns, enqueue, hincoming, hlen, hpc]
  omega

theorem LoopRule.turns_le (hsh : s.Shape) (h : LoopRule services s l t) (hl : l.isEngine = true) :
    t.turns ≤ s.turns := by
  cases h with
  | takeIncoming hpc hincoming | abortIncoming hpc hincoming =>
      exact (@enqueue_turns s _ _ s.pc hincoming rfl).le
  | selectIncoming hpc hincoming => exact (enqueue_turns hincoming (by rw [hpc]; rfl)).le
  | takeControl hpc hcontrols h | selectControl hpc hcontrols h =>
      exact h.turns_le (by rw [hpc]; rfl)
  | reap hpc | selectDone hpc => exact executionDone_turns_le (by rw [hpc]; rfl)
  | pop hpc hpop =>
      have hlen := (popRunnable_perm hpop).length_eq
      simp only [Option.toList_some, List.length_append, List.length_singleton] at hlen
      simp only [turns, hpc, Pc.turns_dispatch, Pc.turns_handle]
      omega
  | idle hpc hpop =>
      have hlen := (popRunnable_perm hpop).length_eq
      simp only [Option.toList_none, List.nil_append] at hlen
      simp only [turns, hpc, Pc.turns_dispatch, Pc.turns_select]
      omega
  | handle hpc h => exact h.turns_le hpc (fun hex => (hsh.handle hpc hex).1)
  | park hpc =>
      simp only [turns, hpc, Pc.turns_park, Pc.turns_drainIncoming, Option.toList_some,
        List.length_singleton]
      omega
  | abort hpc hincoming => exact abortQueued_turns_le hpc
  | answer hpc => simp [turns, hpc]
  | callFailed | commReturned | commInfoReturned | callReturned | shutdownReturned | selectTimeout
  | selectClosed => cases hl
  | _ hpc => simp [turns, hpc]

theorem task_turns_le {a a' : ActiveExecution} {l : TaskLabel} {es : List Emission}
    (h : a.step l = some (a', es)) (hl : l.isEngine = true) : a'.phase.turns ≤ a.phase.turns := by
  cases ActiveExecution.step_rule h with
  | accept | returned | panic => cases hl
  | flushed hphase | finish hphase => simp [TaskPhase.turns]
  | _ => exact le_rfl

/-- The engine makes no turn. -/
theorem turns_le (hsh : s.Shape) (h : s.step services l = some t) (hl : l.isEngine = true) :
    t.turns ≤ s.turns := by
  cases step_rule h with
  | loop hout h => exact h.turns_le hsh hl
  | emit | commPump => exact le_rfl
  | task hactive hrunning hstep =>
      have hle := task_turns_le hstep hl
      simp only [turns, hactive, Option.toList_some, List.map_cons, List.map_nil, List.sum_cons,
        List.sum_nil]
      omega
  | deliver | control | firstStop | callAccept | dropped => cases hl

/-! ## What a return costs -/

theorem failItem_effort_le (error : Error) (hpc : s.pc.effort = 0) :
    (s.failItem item error).effort ≤ s.effort + 10 := by
  have hlen := length_reportFailure_le item.request error s.executionCount
  simp only [failItem]
  split
  · simp [effort, say, hpc]
    omega
  · simp [effort, say, hpc]
    omega

/-- The flush marker is two steps of the pump. -/
theorem comms_accept_le (comms : List (Nat × Output)) (n : Nat) (m : ContextMessage) :
    ((comms.modify n (fun entry => (entry.1, entry.2.accept m))).map (fun entry => entry.2.work)).sum ≤
      (comms.map (fun entry => entry.2.work)).sum + 2 := by
  induction comms generalizing n with
  | nil => simp
  | cons entry rest ih =>
      cases n with
      | zero =>
          simp [Output.accept, Output.work]
          omega
      | succ n =>
          have hle := ih n
          simp only [List.modify_succ_cons, List.map_cons, List.sum_cons]
          omega

theorem LoopRule.return_le (h : LoopRule services s l t) (hl : l.isReturn = true) :
    t.effort < s.effort + 20 ∧ t.turns < s.turns := by
  cases h with
  | @callFailed item call comm error hpc =>
      have heffort := @failItem_effort_le s item error (by rw [hpc]; rfl)
      have hturns := @failItem_turns_le s item error
      rw [hpc] at hturns
      simp only [Pc.turns_call] at hturns
      omega
  | @commReturned item msgType content value buffers comm hpc =>
      have hle := comms_accept_le s.comms comm .flush
      constructor
      · simp only [effort, hpc, Pc.effort_call, Pc.effort_commFlush]
        omega
      · simp [turns, hpc]
  | commInfoReturned hpc =>
      constructor
      · simp [effort, say, hpc]
        omega
      · simp [turns, say, hpc]
  | callReturned hpc =>
      constructor
      · simp [effort, say, hpc]
        omega
      · simp [turns, say, hpc]
  | shutdownReturned hpc => simp [effort, turns, hpc, Pc.effort]
  | @selectTimeout held hpc hheld =>
      have hlen := length_finishHold_le s.executionCount "timeout"
      constructor
      · simp [effort, say, hpc, hheld, Resume.effort]
        omega
      · simp [turns, say, hpc, hheld]
  | _ => cases hl

theorem task_return_le {a a' : ActiveExecution} {l : TaskLabel} {es : List Emission}
    (h : a.step l = some (a', es)) (hl : l.isReturn = true) :
    a'.effort < a.effort + 20 ∧ a'.phase.turns < a.phase.turns := by
  cases ActiveExecution.step_rule h with
  | returned hphase hout =>
      constructor
      · simp [ActiveExecution.effort, hphase, TaskPhase.effort, Output.accept, Output.work]
        omega
      · simp [hphase, TaskPhase.turns]
  | panic hphase hout =>
      constructor
      · simp [ActiveExecution.effort, hphase, TaskPhase.effort]
      · simp [hphase, TaskPhase.turns]
  | emit | accept | pump | flushed | finish => cases hl

theorem return_le (h : s.step services l = some t) (hl : l.isReturn = true) :
    t.effort < s.effort + 20 ∧ t.turns < s.turns := by
  cases step_rule h with
  | loop hout h => exact h.return_le hl
  | task hactive hrunning hstep =>
      obtain ⟨heffort, hturns⟩ := task_return_le hstep hl
      simp only [effort, turns, hactive, Option.toList_some, List.map_cons, List.map_nil,
        List.sum_cons, List.sum_nil]
      omega
  | emit | commPump | deliver | control | firstStop | callAccept | dropped => cases hl

/-- Every step without input lowers the labour. -/
theorem labour_lt (hsh : s.Shape) (h : s.step services l = some t) (hl : l.settles = true) :
    t.labour < s.labour := by
  unfold labour
  rcases Bool.or_eq_true_iff.mp hl with hengine | hreturn
  · have heffort := effort_lt hsh h hengine
    have hturns := turns_le hsh h hengine
    omega
  · obtain ⟨heffort, hturns⟩ := return_le h hreturn
    omega

/-! ## Where nothing is left -/

/-- Everything the shell received has been served. -/
structure Idle (s : Shell) : Prop where
  pc : s.pc = .select
  sent : s.out = []
  incoming : s.incoming = []
  controls : s.controls = []
  queue : s.queue.items = []
  held : s.held = none
  active : s.active = none
  stopping : s.stopping = false

instance decidableIdle (s : Shell) : Decidable s.Idle :=
  decidable_of_iff (s.pc.isSelect = true ∧ s.out = [] ∧ s.incoming = [] ∧ s.controls = [] ∧
      s.queue.items = [] ∧ s.held = none ∧ s.active = none ∧ s.stopping = false)
    ⟨fun ⟨hpc, hsent, hincoming, hcontrols, hqueue, hheld, hactive, hstopping⟩ =>
      ⟨Pc.isSelect_iff.mp hpc, hsent, hincoming, hcontrols, hqueue, hheld, hactive, hstopping⟩,
    fun h => ⟨Pc.isSelect_iff.mpr h.pc, h.sent, h.incoming, h.controls, h.queue, h.held, h.active,
      h.stopping⟩⟩

/-- No step is possible without input. -/
def Still (services : Services) (s : Shell) : Prop :=
  ∀ l, l.settles = true → s.step services l = none

theorem Still.stuck (h : Still services s) : Stuck services s := by
  intro l hl
  exact h l (by rw [Label.settles, hl, Bool.true_or])

/-- The shell has ended, or it is idle. -/
theorem settled_of_still (hsh : s.Shape) (ht : s.Tidy) (h : Still services s) :
    s.isOpen = false ∨ s.Idle := by
  have hrest := atRest_of_stuck hsh ht h.stuck
  cases hopen : s.isOpen with
  | false => exact .inl rfl
  | true =>
      right
      rcases hrest.pc with hpc | ⟨item, call, comm, hpc⟩ | ⟨requested, hpc⟩ | hclosed
      · have hheld : s.held = none := by
          cases hheld : s.held with
          | none => rfl
          | some held =>
              have hstep := h .selectTimeout rfl
              simp [step, hpc, hrest.sent, selectStep, hheld] at hstep
        have hactive : s.active = none := by
          cases hactive : s.active with
          | none => rfl
          | some a =>
              rcases hrest.active hopen a hactive with ⟨hphase, hout⟩ | ⟨_, hne⟩
              · have hstep := h (.task (.returned (.error .interrupted))) rfl
                have haborted := ht.aborted hopen a hactive
                simp [step, hactive, haborted, ActiveExecution.step, hphase, hout] at hstep
              · exact absurd hpc hne
        obtain ⟨hincoming, hcontrols⟩ := hrest.received hpc
        refine ⟨hpc, hrest.sent, hincoming, hcontrols, ?_, hheld, hactive, ?_⟩
        · by_contra hqueue
          obtain ⟨item, hmem⟩ := List.exists_mem_of_ne_nil _ hqueue
          rcases (hrest.blocked hpc item hmem).2 with hblocked | ⟨hold, hblocked, _⟩
          · rw [hactive] at hblocked
            cases hblocked
          · rw [hheld] at hblocked
            cases hblocked
        · cases hstop : s.stopping with
          | false => rfl
          | true =>
              rcases hrest.stopping hpc hstop with hleft | hleft
              · rw [hactive] at hleft
                cases hleft
              · rw [hheld] at hleft
                cases hleft
      · have hstep := h (.callReturned (.error .interrupted)) rfl
        simp [step, hpc, hrest.sent] at hstep
      · have hstep := h (.shutdownReturned (.ok ())) rfl
        simp [step, hpc, hrest.sent] at hstep
      · rw [hclosed] at hopen
        cases hopen

end Shell

end Kernmini.Engine
