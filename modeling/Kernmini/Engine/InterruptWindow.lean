/-
Kernmini.Engine.InterruptWindow — what an interrupt does to the requests
that come after it.

`interrupting` is set when an `Interrupt` is applied and cleared by the
test that follows the reaping of the active execution. While it is set, a
failed execution does not call `abort_pending`, and `handle_item` would
answer an execute request with `interrupt_execute`. `Window` says what the
flag means in every reachable state: it is set for as long as the execution
the interrupt hit is the active one, and past the test it is set only while
some execution is active. So `pop_runnable` finds no execute request in the
window, and no request is aborted because of an execution that was
interrupted.

An observer (`watchAborts`) remembers, for each request `abort_pending`
answers, the failed execution on whose account it was called.
-/
import Kernmini.Lib.Observe
import Kernmini.Engine.ShellTheorems

namespace Kernmini.Engine

open Kernmini.Wire Kernmini.Lib

/-! ## The flag -/

/-- The places between the test that clears `interrupting` and the handling
of the item `pop_runnable` returned. -/
def Pc.tested : Pc → Bool
  | .stopTest | .dispatch | .handle _ => true
  | _ => false

@[simp] theorem Resume.tested_pc (resume : Resume) : resume.pc.tested = false := by
  cases resume <;> rfl

/-- What `interrupting` means. -/
structure Shell.Window (s : Shell) : Prop where
  /-- the execution an interrupt hit is active: the flag is still set -/
  hit : ∀ a ∈ s.active, a.interrupted = true → s.interrupting = true
  /-- past the test the flag is set only while an execution is active -/
  tested : s.pc.tested = true → s.interrupting = true → s.active.isSome = true

namespace Shell

variable {services : Services} {s s' : Shell} {l : Label} {item : QueueItem}

theorem window_init : Window {} := ⟨by simp, by simp⟩

/-- A step that leaves the flag and the active execution alone, short of the
test or before it. -/
theorem Window.of_same (hw : s.Window) (hactive : s'.active = s.active)
    (hflag : s'.interrupting = s.interrupting)
    (hpc : s'.pc.tested = true → s.pc.tested = true) : s'.Window where
  hit := by
    rw [hactive, hflag]
    exact hw.hit
  tested := fun htested hset => by
    rw [hactive]
    rw [hflag] at hset
    exact hw.tested (hpc htested) hset

/-- A step that ends before the test. -/
theorem Window.of_untested (hpc : s'.pc.tested = false)
    (hit : ∀ a ∈ s'.active, a.interrupted = true → s'.interrupting = true) : s'.Window :=
  ⟨hit, by simp [hpc]⟩

theorem ApplyRule.window {c : ShellControl} {resume : Resume} {rest : List ShellControl}
    (h : ApplyRule { s with controls := rest } resume c s') (hw : s.Window) : s'.Window := by
  cases h with
  | notHeld | stop => exact .of_untested (Resume.tested_pc resume) hw.hit
  | release | releaseFailed => exact .of_untested rfl hw.hit
  | _ => exact .of_untested rfl (fun _ _ _ => rfl)

theorem executionDone_window (done : ExecutionDone) (resume : Resume) :
    (s.executionDone done resume).Window := by
  refine .of_untested ?_ (by simp [executionDone])
  simp only [executionDone]
  split
  · rfl
  · exact Resume.tested_pc resume

theorem failItem_window {error : Error} (hw : s.Window) : (s.failItem item error).Window := by
  refine .of_untested ?_ hw.hit
  simp only [failItem]
  split <;> rfl

theorem HandleItemRule.window (h : HandleItemRule services s item s') (hw : s.Window) :
    s'.Window := by
  cases h with
  | shell hex h =>
      cases h with
      | kernelInfoFailed htype => exact failItem_window ⟨hw.hit, hw.tested⟩
      | _ => exact .of_untested rfl hw.hit
  | execute hex hinterrupting hhold =>
      refine .of_untested rfl ?_
      -- a new execution has not been interrupted
      intro a ha hset
      cases ha
      cases hset
  | _ => exact .of_untested rfl hw.hit

theorem abortQueued_window {release : Option Nat} {resume : Resume} (hw : s.Window) :
    (s.abortQueued release resume).Window := by
  refine .of_untested ?_ hw.hit
  cases release with
  | none => exact Resume.tested_pc resume
  | some complete => rfl

theorem LoopRule.window (h : LoopRule services s l s') (hw : s.Window) : s'.Window := by
  cases h with
  | takeControl hpc hcontrols h | selectControl hpc hcontrols h => exact h.window hw
  | reap | selectDone => exact executionDone_window _ _
  | settle hpc =>
      refine ⟨?_, ?_⟩
      · intro a ha hset
        have hflag := hw.hit a ha hset
        have ha : s.active = some a := ha
        simp [hflag, ha]
      · intro _ hset
        exact (Bool.and_eq_true_iff.mp hset).2
  | goOn hpc | pop hpc => exact hw.of_same rfl rfl (fun _ => by rw [hpc]; rfl)
  | handle hpc h => exact h.window hw
  | takeIncoming | abortIncoming => exact hw.of_same rfl rfl id
  | abort hpc hincoming => exact abortQueued_window hw
  | answer hpc => exact .of_untested (Resume.tested_pc _) hw.hit
  | callFailed hpc => exact failItem_window hw
  | _ => exact .of_untested rfl hw.hit

theorem window_step (hw : s.Window) (h : s.step services l = some s') : s'.Window := by
  cases step_rule h with
  | loop hout h => exact h.window hw
  | task hactive hrunning hstep =>
      have hsame := ActiveExecution.sameTask_of_step hstep
      refine ⟨?_, fun _ _ => rfl⟩
      intro a' ha' hset
      cases ha'
      exact hw.hit _ hactive (by rw [← hsame.interrupted]; exact hset)
  | dropped hactive hclosed =>
      refine ⟨?_, fun _ _ => rfl⟩
      intro a' ha' hset
      cases ha'
      exact hw.hit _ hactive hset
  | _ => exact hw.of_same rfl rfl id

theorem window_of_reachable (h : Reachable services s) : s.Window :=
  h.invariant window_init (fun _ _ _ hw hstep => window_step hw hstep)

/-- In the window `pop_runnable` returns no execute request. -/
theorem Window.not_popped (hw : s.Window) (hpc : s.pc = .dispatch) (hset : s.interrupting = true)
    {queue : Queue} (hpop : popRunnable s.queue s.active.isSome s.held = (some item, queue)) :
    item.isExecute = false := by
  have hactive : s.active.isSome = true := hw.tested (by rw [hpc]; rfl) hset
  by_contra hex
  have hnone := (runnable_execute (popRunnable_runnable hpop) (by simpa using hex)).1
  rw [hactive] at hnone
  cases hnone

/-- `handle_item` never finds the flag set at an execute request. -/
theorem Window.handle (hw : s.Window) (hsh : s.Shape) (hpc : s.pc = .handle item)
    (hex : item.isExecute = true) : s.interrupting = false := by
  have hnone : s.active = none := (hsh.handle hpc hex).1
  by_contra hset
  have hactive := hw.tested (by rw [hpc]; rfl) (by simpa using hset)
  rw [hnone] at hactive
  cases hactive

end Shell

/-! ## The active execution -/

namespace Shell

variable {services : Services} {s s' : Shell} {l : Label} {item : QueueItem}

/-- The execution that was active still is, and an interrupt that hit it still
stands. -/
def KeepsActive (s s' : Shell) : Prop :=
  ∀ a ∈ s.active, ∃ a' ∈ s'.active, a'.item = a.item ∧
    (a.interrupted = true → a'.interrupted = true)

theorem KeepsActive.of_eq (h : s'.active = s.active) : KeepsActive s s' := by
  intro a ha
  exact ⟨a, by rw [h]; exact ha, rfl, id⟩

theorem KeepsActive.of_interrupt
    (h : s'.active = s.active.map (fun a => { a with interrupted := true })) :
    KeepsActive s s' := by
  intro a ha
  have ha : s.active = some a := ha
  exact ⟨{ a with interrupted := true }, by rw [h, ha]; rfl, rfl, fun _ => rfl⟩

theorem ApplyRule.keepsActive {c : ShellControl} {resume : Resume}
    {rest : List ShellControl} (h : ApplyRule { s with controls := rest } resume c s') :
    KeepsActive s s' := by
  cases h with
  | interruptFailed | interruptHeld | interrupt => exact .of_interrupt rfl
  | _ => exact .of_eq rfl

theorem HandleItemRule.keepsActive (h : HandleItemRule services s item s') (hsh : s.Shape)
    (hpc : s.pc = .handle item) : KeepsActive s s' := by
  cases h with
  | shell hex h =>
      cases h with
      | _ => exact .of_eq rfl
  | execute hex hinterrupting hhold =>
      intro a ha
      rw [(hsh.handle hpc hex).1] at ha
      cases ha
  | _ => exact .of_eq rfl

/-- A step keeps the active execution, unless it reaps it. -/
theorem step_active (hsh : s.Shape) (h : s.step services l = some s') :
    KeepsActive s s' ∨ ∃ a done resume, s.out = [] ∧ s.active = some a ∧
      a.result = some (.ok done) ∧ s' = s.executionDone done resume := by
  cases step_rule h with
  | loop hout h =>
      cases h with
      | reap hpc hactive hresult | selectDone hpc hactive hresult =>
          exact Or.inr ⟨_, _, _, hout, hactive, hresult, rfl⟩
      | takeControl hpc hcontrols h | selectControl hpc hcontrols h => exact Or.inl h.keepsActive
      | handle hpc h => exact Or.inl (h.keepsActive hsh hpc)
      | _ => exact Or.inl (.of_eq rfl)
  | task hactive hrunning hstep =>
      have hsame := ActiveExecution.sameTask_of_step hstep
      left
      intro b hb
      rw [hactive] at hb
      cases hb
      exact ⟨_, rfl, hsame.item, by rw [hsame.interrupted]; exact id⟩
  | dropped hactive hclosed =>
      left
      intro b hb
      rw [hactive] at hb
      cases hb
      exact ⟨_, rfl, rfl, id⟩
  | _ => exact Or.inl (.of_eq rfl)

end Shell

/-! ## On whose account a request is aborted -/

/-- `abort_pending` is running. -/
def Pc.aborting : Pc → Bool
  | .abort _ _ => true
  | _ => false

@[simp] theorem Resume.aborting_pc (resume : Resume) : resume.pc.aborting = false := by
  cases resume <;> rfl

/-- The execution failed, asked for the rest of the queue to be aborted, and
no interrupt had hit it. -/
structure ActiveExecution.Aborts (a : ActiveExecution) : Prop where
  failed : ∃ done, a.result = some (.ok done) ∧ done.failed = true ∧ done.stopOnError = true
  spared : a.interrupted = false

/-- What the observer remembers of `abort_pending`. -/
structure AbortNotes where
  /-- the execution on whose account it is running; none when a hold, an
  interrupt or a malformed request is the reason -/
  account : Option ActiveExecution := none
  /-- the requests it has answered, with that execution -/
  aborted : List (QueueItem × Option ActiveExecution) := []

namespace Shell

variable {services : Services} {s s' : Shell} {l : Label} {ls : List Label} {item : QueueItem}

/-- The execute requests that a step at the end of `abort_pending` answers. -/
def abortedBy (s : Shell) : Label → List QueueItem
  | .next _ => if s.pc.aborting && s.incoming.isEmpty then (abortQueue s.queue).1 else []
  | _ => []

/-- The execution on whose account `abort_pending` runs after a step. It is
called for an execution when that execution is reaped. -/
def accountAfter (s s' : Shell) (account : Option ActiveExecution) : Option ActiveExecution :=
  if s'.pc.aborting then
    if s.pc.aborting then account
    else if s'.active.isNone then s.active else none
  else none

/-- The note of one step. -/
def watchAborts (s : Shell) (l : Label) (s' : Shell) (n : AbortNotes) : AbortNotes :=
  { account := accountAfter s s' n.account
    aborted := n.aborted ++ (s.abortedBy l).map (·, n.account) }

theorem executionDone_aborting {done : ExecutionDone} {resume : Resume}
    (h : (s.executionDone done resume).pc.aborting = true) :
    done.failed = true ∧ done.stopOnError = true ∧ s.interrupting = false := by
  simp only [executionDone] at h
  split at h
  · next htest => simpa [and_assoc] using htest
  · rw [Resume.aborting_pc] at h
    cases h

/-- An execution that is reaped by a step into `abort_pending` failed, and
no interrupt had hit it. -/
theorem aborts_of_step (hw : s.Window) (hsh : s.Shape) (h : s.step services l = some s')
    {a : ActiveExecution} (hactive : s.active = some a) (hnone : s'.active = none)
    (habort : s'.pc.aborting = true) : a.Aborts := by
  rcases step_active hsh h with hkept | ⟨b, done, resume, _, hb, hresult, rfl⟩
  · obtain ⟨a', ha', _⟩ := hkept a hactive
    rw [hnone] at ha'
    cases ha'
  · rw [hactive] at hb
    cases hb
    obtain ⟨hfailed, hstop, hclear⟩ := executionDone_aborting habort
    refine ⟨⟨done, hresult, hfailed, hstop⟩, ?_⟩
    -- the flag is clear, so the active execution was not interrupted
    by_contra hset
    have hflag := hw.hit a hactive (by simpa using hset)
    rw [hclear] at hflag
    cases hflag

/-- The observer's notes name only executions that may abort. -/
structure Watched (services : Services) (o : Observed Shell AbortNotes) : Prop where
  reachable : Reachable services o.state
  account : ∀ a ∈ o.notes.account, a.Aborts
  aborted : ∀ item a, (item, some a) ∈ o.notes.aborted → a.Aborts

theorem watched_init : Watched services ⟨{}, {}⟩ :=
  ⟨Lib.Reachable.refl _, by simp, by simp⟩

theorem watched_step {o o' : Observed Shell AbortNotes} (hw : Watched services o)
    (h : observe (Shell.step services) watchAborts o l = some o') : Watched services o' := by
  obtain ⟨hstep, hnotes⟩ := observe_cases h
  refine ⟨hw.reachable.trans (.single hstep), ?_, ?_⟩
  · rw [hnotes]
    intro a ha
    simp only [watchAborts, accountAfter] at ha
    split at ha
    · next habort =>
        split at ha
        · exact hw.account a ha
        · split at ha
          · next hnone =>
              exact aborts_of_step (window_of_reachable hw.reachable)
                (shape_of_reachable hw.reachable) hstep ha (Option.isNone_iff_eq_none.mp hnone)
                habort
          · cases ha
    · cases ha
  · rw [hnotes]
    intro item a hmem
    rcases List.mem_append.mp hmem with hold | hnew
    · exact hw.aborted item a hold
    · obtain ⟨_, _, heq⟩ := List.mem_map.mp hnew
      exact hw.account a (Prod.mk.inj heq).2

/-- No request is aborted on account of an execution that an interrupt hit,
whatever its `stop_on_error`. Where `pop_runnable` is called with
`interrupting` set, an execution is active and no execute request is popped;
`handle_item` never sees the flag at an execute request, so
`interrupt_execute` answers none. -/
theorem interrupt_spares_later_work {o : Observed Shell AbortNotes}
    (h : run (observe (Shell.step services) watchAborts) ⟨{}, {}⟩ ls = some o) :
    (∀ item a, (item, some a) ∈ o.notes.aborted → a.interrupted = false) ∧
      (o.state.pc = .dispatch → o.state.interrupting = true →
        o.state.active.isSome = true ∧
          ∀ item queue, popRunnable o.state.queue o.state.active.isSome o.state.held =
            (some item, queue) → item.isExecute = false) ∧
      ∀ item, o.state.pc = .handle item → item.isExecute = true →
        o.state.interrupting = false := by
  have hn : Watched services o :=
    run_invariant (fun _ _ _ hn hstep => watched_step hn hstep) h watched_init
  have hw : o.state.Window := window_of_reachable hn.reachable
  refine ⟨fun item a hmem => (hn.aborted item a hmem).spared, fun hpc hset => ⟨?_, ?_⟩, ?_⟩
  · exact hw.tested (by rw [hpc]; rfl) hset
  · intro item queue hpop
    exact hw.not_popped hpc hset hpop
  · intro item hpc hex
    exact hw.handle (shape_of_reachable hn.reachable) hpc hex

/-- The active execution fails. -/
def failCell : List Label :=
  [.task .emit, .task .emit, .task (.returned (.ok { error := some ⟨"Error", "", []⟩ })),
    .task (.pump (.recvMany 1)), .task (.pump (.act true)), .task .flushed, .task .emit,
    .task .emit, .task .emit, .task .finish]

/-- Cell `a` is interrupted, `b` arrives, and `a` fails; then `b` runs, `c`
arrives, and `b` fails. -/
def interruptThenFail : List Label :=
  popMessage (cell "a" 0 false) ++ [.next quiet, .control .interrupt] ++
    List.replicate 3 (.next quiet) ++ [.deliver (cell "b" 0 false)] ++ failCell ++
    List.replicate 5 (.next quiet) ++ [.selectIncoming] ++
    List.replicate 7 (.next quiet) ++ [.deliver (cell "c" 0 false)] ++ failCell ++
    List.replicate 5 (.next quiet)

/-- The cell that came after the interrupt is started; the failure of that
cell, which no interrupt hit, aborts the third. -/
theorem interrupt_spares_second_cell :
    ∃ o item a, run (observe (Shell.step plainServices) watchAborts) ⟨{}, {}⟩
        interruptThenFail = some o ∧
      o.state.started.map (fun item => item.request.msgId) = ["a", "b"] ∧
      (item, some a) ∈ o.notes.aborted ∧ item.request.msgId = "c" ∧
      a.item.request.msgId = "b" ∧ a.interrupted = false := by
  have hrun : run (observe (Shell.step plainServices) watchAborts) ⟨{}, {}⟩
      interruptThenFail = some _ := rfl
  refine ⟨_, _, _, hrun, by decide, List.mem_singleton.mpr rfl, by decide, by decide, ?_⟩
  exact (interrupt_spares_later_work hrun).1 _ _ (List.mem_singleton.mpr rfl)

end Shell

end Kernmini.Engine
