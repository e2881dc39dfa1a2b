/-
Kernmini.Engine.KernelErrors — how the main loop comes to end with an
error.

A shell that ends is in the table until the loop reaps it. In between the
loop may route a message to it, which it answers as an unknown subshell,
or put a control to it: `interrupt_shells` and the loop of a
`release_request` pass the error of such a send on, and so does the await
of a release that the shell did not live to answer. Each of the three ends
the kernel although nothing has failed (`ended_child_ends_kernel`).

`error_free` is the other half: as long as the loop puts interrupts and
releases to live shells only, and every release is answered, the loop has
an error to return only when a background service or a shell has failed.
-/
import Kernmini.Engine.KernelInterrupt

namespace Kernmini.Engine

open Kernmini.Wire Kernmini.Lib

/-- The error of a result. -/
def errorOf : Except Error Unit → Option Error
  | .ok _ => none
  | .error error => some error

/-- The error the loop is about to return, or has returned. -/
def MainPc.error : MainPc → Option Error
  | .interruptFailed _ error => some error
  | .returning result => errorOf result
  | .stopShells _ _ result => errorOf result
  | .returned result => errorOf result
  | _ => none

@[simp] theorem After.error_pc (after : After) : after.pc.error = none := by
  cases after <;> rfl

namespace Shell

variable {services : Services} {s s' : Shell} {l : Shell.Label}

/-- The error the task ended with. -/
def failure (s : Shell) : Option Error := s.result.bind errorOf

theorem isOpen_of_result {result : Except Error Unit} (h : s.result = some result) :
    s.isOpen = false := by
  cases hpc : s.pc with
  | ended | failed => simp [isOpen, hpc]
  | _ =>
      rw [Shell.result, hpc] at h
      cases h

theorem failure_step {error : Error} (hfailed : s.failure = some error)
    (h : s.step services l = some s') : s'.failure = some error := by
  obtain ⟨result, hresult, _⟩ := Option.bind_eq_some_iff.mp hfailed
  rw [failure, Shell.result, pc_of_closed (isOpen_of_result hresult) h]
  exact hfailed

end Shell

namespace Kernel

variable {services : Services} {s s' : Kernel} {l : Label}

/-! ## What the loop asks of its shells -/

/-- The shell the step puts an interrupt or a release to. -/
def controlTarget (s : Kernel) : Label → Option TaskId
  | .next _ =>
      match s.pc with
      | .interruptShells _ (k :: _) _ => some k
      | .release (k :: _) _ _ => some k
      | _ => none
  | _ => none

/-- The shell and the release whose answer the step waits for. -/
def awaited (s : Kernel) : Label → Option (TaskId × Nat)
  | .next _ =>
      match s.pc with
      | .awaitRelease k complete _ _ _ => some (k, complete)
      | _ => none
  | _ => none

/-- The shell has answered the release. -/
def hasAnswered (s : Kernel) (k : TaskId) (complete : Nat) : Bool :=
  s.tasks[k]?.any (fun t => (t.answers.lookup complete).isSome)

/-- An interrupt or a release is put to a shell that has not ended, and a
release the loop waits for is answered before its shell ends. -/
def AsksLive (s : Kernel) (l : Label) : Prop :=
  (∀ k ∈ s.controlTarget l, s.live k = true) ∧
    ∀ p ∈ s.awaited l, s.live p.1 = true ∨ s.hasAnswered p.1 p.2 = true

instance : DecidableRel AsksLive := fun s l => by unfold AsksLive; infer_instance

/-- The label is the end of a background service. -/
def Label.isBackground : Label → Bool
  | .select (.background _) => true
  | _ => false

/-- A control put to a live shell is not refused. -/
theorem AsksLive.not_closed {k : TaskId} {c : ShellControl} (hok : AsksLive s l)
    (htarget : s.controlTarget l = some k) : s.sendControl k c ≠ .closed := by
  obtain ⟨t, hget, hopen⟩ := live_iff.mp (hok.1 k htarget)
  simp only [sendControl, sendTo, hget, hopen, if_true]
  split <;> simp

/-- A shell whose release is awaited does not end without an answer. -/
theorem AsksLive.isOpen {k : TaskId} {complete : Nat} {t : Shell} (hok : AsksLive s l)
    (hawaited : s.awaited l = some (k, complete)) (hget : s.tasks[k]? = some t)
    (hanswer : t.answers.lookup complete = none) : t.isOpen = true := by
  rcases hok.2 (k, complete) hawaited with hlive | hanswered
  · simpa [live, hget] using hlive
  · simp [hasAnswered, hget, hanswer] at hanswered

/-! ## Where an error comes from -/

/-- Some shell task ended with an error. -/
def TaskFailed (s : Kernel) : Prop :=
  ∃ (k : TaskId) (error : Error), ∃ x, s.tasks[k]? = some x ∧ Shell.failure x = some error

/-- The loop has no error to return and none waits to be received. -/
structure ErrorFree (s : Kernel) : Prop where
  pc : s.pc.error = none
  failures : s.failures = []

theorem taskFailed_step (hf : s.TaskFailed) (h : s.step services l = some s') :
    s'.TaskFailed := by
  obtain ⟨k, error, hx⟩ := hf
  exact ⟨k, error, task_keeps (fun _ _ _ hx hstep => Shell.failure_step hx hstep) hx h⟩

theorem taskFailed_of_result {k : TaskId} {error : Error}
    (h : s.tasks[k]?.bind Shell.result = some (.error error)) : s.TaskFailed := by
  obtain ⟨x, hget, hresult⟩ := Option.bind_eq_some_iff.mp h
  exact ⟨k, error, x, hget, by rw [Shell.failure, hresult]; rfl⟩

theorem routeTo_errorFree {id : String} {a : Arrival .shell} {after : After}
    (he : s.ErrorFree) : (s.routeTo id a after).ErrorFree := by
  unfold routeTo
  split
  · exact ⟨rfl, he.failures⟩
  · exact ⟨After.error_pc after, he.failures⟩

theorem created_errorFree {id : String} {purpose : Creation} {result : Except Error Unit}
    (he : s.ErrorFree) : (s.created id purpose result).ErrorFree := by
  unfold created
  split
  · exact routeTo_errorFree he
  · exact ⟨After.error_pc _, he.failures⟩
  all_goals exact ⟨rfl, he.failures⟩

theorem CreateRule.errorFree {id : String} {purpose : Creation} (h : CreateRule s id purpose s')
    (he : s.ErrorFree) : s'.ErrorFree := by
  cases h with
  | creating hid hnew => exact ⟨rfl, he.failures⟩
  | _ => exact created_errorFree he

theorem RouteRule.errorFree {a : Arrival .shell} {after : After} (h : RouteRule s a after s')
    (he : s.ErrorFree) : s'.ErrorFree := by
  cases h with
  | known => exact routeTo_errorFree he
  | create hnew h => exact h.errorFree he

theorem CommandRule.errorFree {c : SessionCommand} (h : CommandRule s c s')
    (he : s.ErrorFree) : s'.ErrorFree := by
  cases h with
  | openSubshell h => exact h.errorFree he
  | _ => exact ⟨he.pc, he.failures⟩

theorem ControlRule.errorFree {a : Arrival .control} (h : ControlRule s a s')
    (he : s.ErrorFree) : s'.ErrorFree := by
  cases h with
  | create htype h => exact h.errorFree he
  | delete | reply => exact ⟨he.pc, he.failures⟩
  | ignored hrequest => exact he
  | _ => exact ⟨rfl, he.failures⟩

/-- The result of the shells that are stopped at the end. -/
theorem stopped_errorFree {k : TaskId} {todo : List TaskId} {phase : StopPhase}
    {result ended : Except Error Unit} (hpc : s.pc = .stopShells (k :: todo) phase result)
    (hended : s.tasks[k]?.bind Shell.result = some ended) (he : s.ErrorFree) :
    ErrorFree { s with pc := .stopShells todo .interrupt (result.bind (fun _ => ended)) } ∨
      s.TaskFailed := by
  have hresult := he.pc
  rw [hpc] at hresult
  cases result with
  | error error => cases hresult
  | ok _ =>
      cases ended with
      | ok _ => exact Or.inl ⟨rfl, he.failures⟩
      | error error => exact Or.inr (taskFailed_of_result hended)

/-- A step that asks live shells only brings no error, unless a service ends
or a task has failed. -/
theorem errorFree_step (he : s.ErrorFree) (hok : AsksLive s l) (hl : l.isBackground = false)
    (h : s.step services l = some s') : s'.ErrorFree ∨ s.TaskFailed := by
  have hpc0 := he.pc
  cases step_rule h with
  | route hpc h => exact Or.inl (h.errorFree he)
  | deliver | undelivered => exact Or.inl ⟨After.error_pc _, he.failures⟩
  | interruptClosed hpc hclosed => exact absurd hclosed (hok.not_closed (by simp only [controlTarget, hpc]))
  | interruptFailed hpc =>
      rw [hpc] at hpc0
      cases hpc0
  | releaseClosed hpc hclosed => exact absurd hclosed (hok.not_closed (by simp only [controlTarget, hpc]))
  | unreleased hpc hget hanswer hended =>
      rw [hok.isOpen (by simp only [awaited, hpc]) hget hanswer] at hended
      cases hended
  | drain hpc horder =>
      rw [hpc] at hpc0
      exact Or.inl ⟨hpc0, he.failures⟩
  | stopPut hpc hget hput =>
      rw [hpc] at hpc0
      exact Or.inl ⟨hpc0, he.failures⟩
  | stopClosed hpc =>
      rw [hpc] at hpc0
      exact Or.inl ⟨hpc0, he.failures⟩
  | stopped hpc hended => exact stopped_errorFree hpc hended he
  | returned hpc =>
      rw [hpc] at hpc0
      exact Or.inl ⟨hpc0, he.failures⟩
  | background hpc => cases hl
  | failed hpc hfailures =>
      rw [he.failures] at hfailures
      cases hfailures
  | reaped hpc hlookup hended hid => exact Or.inl ⟨hpc0, he.failures⟩
  | reapedError hpc hlookup hended => exact Or.inr (taskFailed_of_result hended)
  | takeCommand hpc hcommands h | takeControl hpc hcontrol h =>
      exact Or.inl (h.errorFree ⟨hpc0, he.failures⟩)
  | childCreated hpc => exact Or.inl (created_errorFree ⟨hpc0, he.failures⟩)
  | childFailed hpc => exact Or.inl (created_errorFree he)
  | jobFailed hjob hended => exact Or.inr (taskFailed_of_result hended)
  | _ =>
      first
        | exact Or.inl ⟨hpc0, he.failures⟩
        | exact Or.inl ⟨rfl, he.failures⟩

/-- In every run in which interrupts and releases are put to live shells only,
every release is answered before its shell ends, and no service and no
shell has failed, the loop has no error to return. -/
theorem error_free {ls : List Label} {t : Kernel}
    (hrun : run (Kernel.step services) {} ls = some t)
    (hok : StepsMeet (Kernel.step services) AsksLive {} ls)
    (hservices : ∀ l ∈ ls, l.isBackground = false) (htasks : ∀ x ∈ t.tasks, x.failure = none) :
    t.pc.error = none := by
  have hfree : t.ErrorFree ∨ t.TaskFailed := by
    refine @run_invariant_of_meets _ _ _ _ (fun s : Kernel => s.ErrorFree ∨ s.TaskFailed)
      (fun a l b ha hl h => ?_) _ _ _ hrun (hok.and_mem hservices) (Or.inl ⟨rfl, rfl⟩)
    rcases ha with he | hf
    · rcases errorFree_step he hl.1 hl.2 h with he' | hf
      · exact Or.inl he'
      · exact Or.inr (taskFailed_step hf h)
    · exact Or.inr (taskFailed_step hf h)
  rcases hfree with he | ⟨k, error, x, hget, hfailed⟩
  · exact he.pc
  · rw [htasks x (List.mem_of_getElem? hget)] at hfailed
    cases hfailed

/-! ## The window between the end of a shell and its reaping -/

/-- A `shutdown_request` to subshell `x`. -/
def shutdownChild : Inbound :=
  { message :=
      { header := [("msg_id", .string "s"), ("msg_type", .string "shutdown_request"),
          ("subshell_id", .string "x")]
        content := .object [("restart", .bool false)] }
    reply := 0
    identity := [] }

/-- The subshell `x` is opened, and handles a `shutdown_request`. -/
def endChild : List Label :=
  openRoute ++ [.receive shutdownChild, .select .shell, .next [], .next []] ++
    List.replicate 8 (.shell 1 (.next Shell.quiet)) ++
    [.shell 1 .emit, .shell 1 (.shutdownReturned (.ok ()))]

/-- The child is reaped, and then the kernel is interrupted. -/
def interruptAfterReap : List Label :=
  endChild ++ [.select (.reaped "x"), .notify, .select (.notified [0]), .next [], .next []]

theorem error_free_after_reap :
    ∃ t, run (Kernel.step subshellServices) {} interruptAfterReap = some t ∧
      t.interrupted = [0] ∧ t.live 1 = false ∧ t.pc.error = none := by
  have hrun : (run (Kernel.step subshellServices) {} interruptAfterReap).map (fun t =>
      (t.interrupted, t.live 1, t.tasks.map (fun x => x.failure.isNone))) =
        some ([0], false, [true, true]) := by decide
  obtain ⟨t, ht, hview⟩ := Option.map_eq_some_iff.mp hrun
  simp only [Prod.mk.injEq] at hview
  obtain ⟨hsent, hended, hgood⟩ := hview
  refine ⟨t, ht, hsent, hended, error_free ht (by decide) (by decide) (fun x hx => ?_)⟩
  have hmem := List.mem_map_of_mem (f := fun x => x.failure.isNone) hx
  rw [hgood] at hmem
  simpa using hmem

/-- A `release_request` for the hold `a`. -/
def releaseA : Inbound :=
  { message :=
      { header := [("msg_id", .string "r"), ("msg_type", .string "release_request")]
        content := .object [("msg_id", .string "a")] }
    reply := 0
    identity := [] }

/-- The loop stops the parent's shell and the child's, and returns. -/
def leaveLoop : List Label :=
  [.next [0, 1], .next [], .next []] ++ List.replicate 8 (.shell 0 (.next Shell.quiet)) ++
    [.shell 0 (.shutdownReturned (.ok ()))] ++ List.replicate 5 (.next [])

/-- The kernel is interrupted before the child is reaped. -/
def interruptBeforeReap : List Label :=
  endChild ++ [.notify, .select (.notified [1, 0]), .next [], .next []] ++ leaveLoop

/-- A `release_request` is handled before the child is reaped. -/
def releaseBeforeReap : List Label :=
  endChild ++ [.receiveControl releaseA, .select (.control "u"), .next [1, 0], .next []] ++
    leaveLoop

/-- The child handles its `shutdown_request` and ends with the release still
in its controls. -/
def releaseUnanswered : List Label :=
  openRoute ++ [.receive shutdownChild, .select .shell, .next [], .next []] ++
    List.replicate 7 (.shell 1 (.next Shell.quiet)) ++
    [.receiveControl releaseA, .select (.control "u"), .next [1, 0], .next [],
      .shell 1 (.next Shell.quiet), .shell 1 .emit, .shell 1 (.shutdownReturned (.ok ())),
      .next []] ++ leaveLoop

/-- The kernel has returned an error; every shell ended without one. -/
def returnedError (t : Kernel) : Bool :=
  match t.pc with
  | .returned (.error _) => t.tasks.all (fun x => x.failure.isNone)
  | _ => false

/-- The run has no failed service in it, and returns an error. -/
def EndsKernel (ls : List Label) : Prop :=
  (∀ l ∈ ls, l.isBackground = false) ∧
    (run (Kernel.step subshellServices) {} ls).map returnedError = some true

/-- The orderly end of a child ends the kernel with an error: by an interrupt,
by a release, and by a release that the child does not live to answer. -/
theorem ended_child_ends_kernel :
    EndsKernel interruptBeforeReap ∧ EndsKernel releaseBeforeReap ∧
      EndsKernel releaseUnanswered :=
  ⟨⟨by decide, by decide⟩, ⟨by decide, by decide⟩, ⟨by decide, by decide⟩⟩

end Kernel

end Kernmini.Engine
