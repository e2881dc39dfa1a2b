/-
Kernmini.Engine.KernelInterrupt — which shells a kernel interrupt reaches.

`interrupt_shells` walks the table, so a shell that is being stopped in the
background is passed over (`interrupt_misses_closed_shell`), and it gives
up at the first shell of the table that has ended. `interrupt_reaches_all`
is the guarantee that is left: where a sweep starts with every live shell
in the table and finds none of them ended, every live shell has been put
an interrupt when the sweep is over.
-/
import Kernmini.Engine.KernelTable

namespace Kernmini.Engine

open Kernmini.Wire Kernmini.Lib

/-- The mark of the sweep the loop is in. -/
def MainPc.sweep : MainPc → Option Nat
  | .interruptShells mark _ _ => some mark
  | .interruptFailed mark _ => some mark
  | _ => none

/-- The mark of a sweep that is over: it has nothing left to do, or a send
failed. -/
def MainPc.sweepOver : MainPc → Option Nat
  | .interruptShells mark [] _ => some mark
  | .interruptFailed mark _ => some mark
  | _ => none

@[simp] theorem After.sweep_pc (after : After) : after.pc.sweep = none := by
  cases after <;> rfl

namespace Kernel

variable {services : Services} {s s' : Kernel} {l : Label}

/-- The task has been spawned and its `run` has not returned. -/
def live (s : Kernel) (k : TaskId) : Bool := s.tasks[k]?.any Shell.isOpen

theorem live_iff {k : TaskId} :
    s.live k = true ↔ ∃ t, s.tasks[k]? = some t ∧ t.isOpen = true := by
  simp [live, Option.any_eq_true_iff_get, Option.eq_some_iff_get_eq]

/-- Where handling an interrupt is over, every live shell has been put one
since it began. -/
def InterruptReachesAll (s : Kernel) : Prop :=
  ∀ mark, s.pc.sweepOver = some mark → ∀ k, s.live k = true → k ∈ s.interrupted.drop mark

/-- The step begins `interrupt_shells`. -/
def startsSweep (s : Kernel) : Label → Bool
  | .select (.notified _) => true
  | .next _ =>
      match s.pc with
      | .routePending a =>
          s.shell.isEmpty && decide (a.request.msgType = "interrupt_request")
      | _ => false
  | _ => false

/-- The shell the step sends an interrupt of the sweep to. -/
def sweepTarget (s : Kernel) : Label → Option TaskId
  | .next _ =>
      match s.pc with
      | .interruptShells _ (k :: _) _ => some k
      | _ => none
  | _ => none

/-- A sweep begins with every live shell in the table, and no shell has ended
when its interrupt is sent. -/
def SweepsLive (s : Kernel) (l : Label) : Prop :=
  (s.startsSweep l = true →
    ∀ k < s.tasks.length, s.live k = true → k ∈ HashMap.values s.shells) ∧
  ∀ k ∈ s.sweepTarget l, s.live k = true

instance : DecidableRel SweepsLive := fun s l => by unfold SweepsLive; infer_instance

/-! ## How a sweep turns -/

/-- What a step does to the sweep the loop is in. -/
inductive SweepTurn (s : Kernel) (l : Label) (s' : Kernel) : Prop
  | stay (hpc : s'.pc = s.pc) (hsent : s'.interrupted = s.interrupted)
  | outside (hpc : s'.pc.sweep = none)
  | start (order : List TaskId) (request : Option (Arrival .control)) (hstart : s.startsSweep l = true)
      (hpc : s'.pc = .interruptShells s.interrupted.length order request)
      (horder : s.isOrder order = true) (hsent : s'.interrupted = s.interrupted)
      (htasks : s'.tasks = s.tasks)
  | advance (order : List TaskId) (mark : Nat) (k : TaskId) (todo : List TaskId)
      (request : Option (Arrival .control)) (hl : l = .next order)
      (hpc : s.pc = .interruptShells mark (k :: todo) request)
      (hpc' : s'.pc = .interruptShells mark todo request)
      (hsent : s'.interrupted = s.interrupted ++ [k])
  | failed (order : List TaskId) (mark : Nat) (k : TaskId) (todo : List TaskId)
      (request : Option (Arrival .control)) (error : Error) (hl : l = .next order)
      (hpc : s.pc = .interruptShells mark (k :: todo) request)
      (hclosed : s.sendControl k .interrupt = .closed)
      (hpc' : s'.pc = .interruptFailed mark error)

theorem routeTo_sweep (id : String) (a : Arrival .shell) (after : After) :
    (s.routeTo id a after).pc.sweep = none := by
  unfold routeTo
  split
  · rfl
  · exact After.sweep_pc after

theorem created_sweep (id : String) (purpose : Creation) (result : Except Error Unit) :
    (s.created id purpose result).pc.sweep = none := by
  unfold created
  split
  · exact routeTo_sweep id _ _
  · exact After.sweep_pc _
  all_goals rfl

theorem CreateRule.sweep {id : String} {purpose : Creation} (h : CreateRule s id purpose s') :
    s'.pc.sweep = none := by
  cases h with
  | creating hid hnew => rfl
  | _ => exact created_sweep id purpose _

theorem RouteRule.sweep {a : Arrival .shell} {after : After} (h : RouteRule s a after s') :
    s'.pc.sweep = none := by
  cases h with
  | known => exact routeTo_sweep _ _ _
  | create hnew h => exact h.sweep

theorem CommandRule.sweep {c : SessionCommand} (h : CommandRule s c s') (hpc : s.pc = .select) :
    s'.pc.sweep = none := by
  cases h with
  | openSubshell h => exact h.sweep
  | _ => exact congrArg MainPc.sweep hpc

theorem ControlRule.sweep {a : Arrival .control} (h : ControlRule s a s') (hpc : s.pc = .select) :
    s'.pc.sweep = none := by
  cases h with
  | create htype h => exact h.sweep
  | _ =>
      first
        | rfl
        | exact congrArg MainPc.sweep hpc

theorem step_sweep (h : s.step services l = some s') : SweepTurn s l s' := by
  cases step_rule h with
  | route hpc h => exact .outside h.sweep
  | deliver | undelivered => exact .outside (After.sweep_pc _)
  | startInterrupt hpc hshell horder htype =>
      refine .start _ _ ?_ rfl horder rfl rfl
      simp [startsSweep, hpc, hshell, htype]
  | notified hpc hnotified horder => exact .start _ none rfl rfl horder rfl rfl
  | interrupt hpc hget hput => exact .advance _ _ _ _ _ rfl hpc rfl rfl
  | interruptClosed hpc hclosed => exact .failed _ _ _ _ _ _ rfl hpc hclosed rfl
  | reaped hpc hlookup hended hid => exact .outside (by rw [hpc]; rfl)
  | takeCommand hpc hcommands h | takeControl hpc hcontrol h => exact .outside (h.sweep hpc)
  | childCreated | childFailed => exact .outside (created_sweep _ _ _)
  | _ =>
      first
        | exact .stay rfl rfl
        | exact .outside rfl

/-! ## Every live shell -/

theorem isOpen_of_step {t t' : Shell} {l' : Shell.Label} (h : t.step services l' = some t')
    (hopen : t'.isOpen = true) : t.isOpen = true := by
  by_contra hclosed
  rw [Bool.not_eq_true] at hclosed
  have hpc := Shell.pc_of_closed hclosed h
  rw [Shell.isOpen, hpc] at hopen
  rw [Shell.isOpen, hopen] at hclosed
  cases hclosed

/-- A task that is live after a step was live before, or is the new one. -/
theorem live_of_step {k : TaskId} (h : s.step services l = some s') (hk : s'.live k = true) :
    s.live k = true ∨ ∃ id purpose, s.pc = .create id purpose ∧ l = .childCreated (.ok ()) := by
  obtain ⟨t, hget, hopen⟩ := live_iff.mp hk
  cases task_turn h hget with
  | same hget => exact Or.inl (live_iff.mpr ⟨t, hget, hopen⟩)
  | own x l' hl hx hstep | put x l' hput hx hstep =>
      exact Or.inl (live_iff.mpr ⟨x, hx, isOpen_of_step hstep hopen⟩)
  | spawn id purpose hl hpc => exact Or.inr ⟨id, purpose, hpc, hl⟩

/-- In a sweep every live shell has been put an interrupt or is still to be;
no send of it has failed. -/
def Sweeping (s : Kernel) : Prop :=
  match s.pc with
  | .interruptShells mark todo _ =>
      mark ≤ s.interrupted.length ∧
        ∀ k, s.live k = true → k ∈ s.interrupted.drop mark ∨ k ∈ todo
  | .interruptFailed _ _ => False
  | _ => True

theorem sweeping_of_none (h : s.pc.sweep = none) : s.Sweeping := by
  unfold Sweeping
  cases hpc : s.pc with
  | interruptShells mark todo request =>
      rw [hpc] at h
      cases h
  | interruptFailed mark error =>
      rw [hpc] at h
      cases h
  | _ => trivial

theorem sweeping_step (hs : s.Sweeping) (hok : SweepsLive s l)
    (h : s.step services l = some s') : s'.Sweeping := by
  have hsweep := step_sweep h
  -- inside a sweep no shell is spawned
  have hback : s'.pc.sweep ≠ none → ∀ k, s'.live k = true → s.live k = true := by
    intro hin k hk
    rcases live_of_step h hk with hlive | ⟨id, purpose, hpc, rfl⟩
    · exact hlive
    · cases hsweep with
      | stay hpc' _ =>
          rw [hpc', hpc] at hin
          exact absurd rfl hin
      | outside hpc' => exact absurd hpc' hin
      | start order request hstart => cases hstart
      | advance order mark k' todo request hl => cases hl
      | failed order mark k' todo request error hl => cases hl
  cases hsweep with
  | outside hpc => exact sweeping_of_none hpc
  | stay hpc hsent =>
      unfold Sweeping at hs ⊢
      rw [hpc, hsent]
      cases hpc0 : s.pc with
      | interruptShells mark todo request =>
          rw [hpc0] at hs hpc
          obtain ⟨hmark, hall⟩ := hs
          have hin : s'.pc.sweep ≠ none := by simp [hpc, MainPc.sweep]
          exact ⟨hmark, fun k hk => hall k (hback hin k hk)⟩
      | interruptFailed mark error =>
          rw [hpc0] at hs
          exact hs
      | _ => trivial
  | start order request hstart hpc horder hsent htasks =>
      have hin : s'.pc.sweep ≠ none := by simp [hpc, MainPc.sweep]
      unfold Sweeping
      rw [hpc, hsent]
      refine ⟨Nat.le_refl _, fun k hk => Or.inr ?_⟩
      have hlive := hback hin k hk
      obtain ⟨t, hget, _⟩ := live_iff.mp hlive
      have hlt : k < s.tasks.length := (List.getElem?_eq_some_iff.mp hget).1
      exact (List.isPerm_iff.mp horder).mem_iff.mpr (hok.1 hstart k hlt hlive)
  | advance order mark k todo request hl hpc hpc' hsent =>
      have hin : s'.pc.sweep ≠ none := by simp [hpc', MainPc.sweep]
      unfold Sweeping at hs ⊢
      rw [hpc] at hs
      obtain ⟨hmark, hall⟩ := hs
      rw [hpc', hsent]
      refine ⟨by simp only [List.length_append]; omega, fun j hj => ?_⟩
      rw [List.drop_append_of_le_length hmark, List.mem_append, List.mem_singleton]
      rcases hall j (hback hin j hj) with hsent | htodo
      · exact Or.inl (Or.inl hsent)
      · rcases List.mem_cons.mp htodo with rfl | hrest
        · exact Or.inl (Or.inr rfl)
        · exact Or.inr hrest
  | failed order mark k todo request error hl hpc hclosed hpc' =>
      have hlive : s.live k = true := hok.2 k (by simp [hl, sweepTarget, hpc])
      obtain ⟨t, hget, hopen⟩ := live_iff.mp hlive
      simp only [sendControl, sendTo, hget, hopen, if_true] at hclosed
      split at hclosed <;> cases hclosed

/-- In every run in which each sweep begins with every live shell in the
table and finds no shell of it ended, an interrupt that has been handled has
been put to every live shell. -/
theorem interrupt_reaches_all {ls : List Label} {t : Kernel}
    (hrun : run (Kernel.step services) {} ls = some t)
    (hok : StepsMeet (Kernel.step services) SweepsLive {} ls) : t.InterruptReachesAll := by
  have hs : t.Sweeping :=
    run_invariant_of_meets (fun a l b ha hl h => sweeping_step ha hl h) hrun hok trivial
  intro mark hover k hk
  unfold Sweeping at hs
  cases hpc : t.pc with
  | interruptShells mark' todo request =>
      rw [hpc] at hs hover
      cases todo with
      | nil =>
          cases hover
          rcases hs.2 k hk with hsent | htodo
          · exact hsent
          · cases htodo
      | cons j todo => cases hover
  | interruptFailed mark' error =>
      rw [hpc] at hs
      exact hs.elim
  | _ =>
      rw [hpc] at hover
      cases hover

/-- Two shells are swept on a notification. -/
def sweepTwo : List Label :=
  openRoute ++ [.notify, .select (.notified [1, 0]), .next [], .next []]

theorem interrupt_reaches_all_two :
    ∃ t, run (Kernel.step subshellServices) {} sweepTwo = some t ∧
      t.pc.sweepOver = some 0 ∧ t.tasks.length = 2 ∧ t.InterruptReachesAll := by
  have hrun : (run (Kernel.step subshellServices) {} sweepTwo).map
      (fun t => (t.pc.sweepOver, t.tasks.length)) = some (some 0, 2) := by decide
  obtain ⟨t, ht, hview⟩ := Option.map_eq_some_iff.mp hrun
  obtain ⟨hover, hlength⟩ := Prod.mk.inj hview
  exact ⟨t, ht, hover, hlength, interrupt_reaches_all ht (by decide)⟩

/-- A cell of client session `A`. -/
def sessionCell : Inbound :=
  { message :=
      { header := [("msg_id", .string "a"), ("msg_type", .string "execute_request"),
          ("session", .string "A")]
        content := .object [("code", .string "")] }
    reply := 0
    identity := [] }

/-- It is routed to the subshell `x`, which starts it. -/
def runRouted : List Label :=
  openRoute ++ [.receive sessionCell, .select .shell, .next [], .next []] ++
    List.replicate 8 (.shell 1 (.next Shell.quiet))

/-- `A` closes the subshell with delete while the cell runs, and then the
kernel is interrupted. -/
def interruptAfterClose : List Label :=
  runRouted ++
    [.command (.closeSubshell 0 "A" "x" true), .select (.command "u"), .stop 0,
      .notify, .select (.notified [0]), .next []]

/-- The interrupt has been handled, the cell runs, and its shell was passed
over. -/
theorem interrupt_misses_closed_shell :
    ∃ t, run (Kernel.step subshellServices) {} interruptAfterClose = some t ∧
      (t.tasks[1]?.bind Shell.active).isSome = true ∧ ¬ t.InterruptReachesAll := by
  have hrun : (run (Kernel.step subshellServices) {} interruptAfterClose).map
      (fun t => ((t.tasks[1]?.bind Shell.active).isSome, t.pc.sweepOver, t.live 1,
        t.interrupted)) = some (true, some 0, true, [0]) := by decide
  obtain ⟨t, ht, hview⟩ := Option.map_eq_some_iff.mp hrun
  simp only [Prod.mk.injEq] at hview
  obtain ⟨hactive, hover, hlive, hsent⟩ := hview
  refine ⟨t, ht, hactive, fun hall => ?_⟩
  have hmem := hall 0 hover 1 hlive
  rw [hsent] at hmem
  revert hmem
  decide

end Kernel

end Kernmini.Engine
