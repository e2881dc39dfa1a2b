/-
Kernmini.Engine.KernelShells — how the kernel acts on its shells.

Every step of the kernel leaves the shell tasks alone, spawns a fresh one,
or takes one of them through one step of its own transition system
(`step_tasks`). So every task of a reachable kernel is a reachable shell
(`shell_reachable`), and what holds of every run of a shell holds of every
shell of every kernel.
-/
import Kernmini.Engine.KernelSteps
import Kernmini.Engine.ShellTheorems

namespace Kernmini.Engine

open Kernmini.Wire Kernmini.Lib

namespace Kernel

variable {services : Services} {s s' : Kernel}

/-- The condition on the steps of the shells; none is put on the other steps. -/
def Label.OnShell (P : TaskId → Shell.Label → Prop) : Label → Prop
  | .shell k l => P k l
  | _ => True

instance (P : TaskId → Shell.Label → Prop) [∀ k l, Decidable (P k l)] :
    ∀ l : Label, Decidable (l.OnShell P)
  | .shell k l => inferInstanceAs (Decidable (P k l))
  | .receive _ | .receiveControl _ | .command _ | .notify | .emit | .next _ | .select _
  | .childCreated _ | .debugReturned _ | .stop _ => .isTrue trivial

/-! ## Frames

Routing, creation, commands and control requests change the table, the
routes and what is to be sent, and nothing else of what follows. -/

/-- The fields the handlers of the loop leave alone. -/
structure Frame (s s' : Kernel) : Prop where
  tasks : s'.tasks = s.tasks
  interrupted : s'.interrupted = s.interrupted
  commands : s'.commands = s.commands
  delivered : s'.delivered = s.delivered
  releases : s'.releases = s.releases
  log : s'.log = s.log

theorem routeTo_frame (id : String) (a : Arrival .shell) (after : After) :
    Frame s (s.routeTo id a after) := by
  unfold routeTo
  split <;> exact ⟨rfl, rfl, rfl, rfl, rfl, rfl⟩

theorem created_frame (id : String) (purpose : Creation) (result : Except Error Unit) :
    Frame s (s.created id purpose result) := by
  unfold created
  split
  · exact routeTo_frame id _ _
  all_goals exact ⟨rfl, rfl, rfl, rfl, rfl, rfl⟩

theorem CreateRule.frame {id : String} {purpose : Creation} (h : CreateRule s id purpose s') :
    Frame s s' := by
  cases h with
  | refused | found => exact created_frame id purpose _
  | creating hid hnew => exact ⟨rfl, rfl, rfl, rfl, rfl, rfl⟩

theorem RouteRule.frame {a : Arrival .shell} {after : After} (h : RouteRule s a after s') :
    Frame s s' := by
  cases h with
  | known => exact routeTo_frame _ a after
  | create hnew h => exact h.frame

theorem CommandRule.frame {c : SessionCommand} (h : CommandRule s c s') : Frame s s' := by
  cases h with
  | openSubshell h => exact h.frame
  | _ => exact ⟨rfl, rfl, rfl, rfl, rfl, rfl⟩

theorem ControlRule.frame {a : Arrival .control} (h : ControlRule s a s') : Frame s s' := by
  cases h with
  | create htype h => exact h.frame
  | _ => exact ⟨rfl, rfl, rfl, rfl, rfl, rfl⟩

/-! ## One step, seen from the shells -/

/-- A shell is put a message or a control. -/
def IsPut : Shell.Label → Prop
  | .deliver _ => True
  | .control _ => True
  | _ => False

/-- What a step of the kernel does to the shell tasks. -/
inductive TasksTurn (services : Services) (s : Kernel) (l : Label) (s' : Kernel) : Prop
  | same (h : s'.tasks = s.tasks)
  | own (k : TaskId) (t t' : Shell) (l' : Shell.Label) (hl : l = .shell k l')
      (hown : ownLabel l' = true) (hget : s.tasks[k]? = some t)
      (hstep : t.step services l' = some t') (h : s'.tasks = s.tasks.set k t')
  | put (k : TaskId) (t t' : Shell) (l' : Shell.Label) (hput : IsPut l')
      (hget : s.tasks[k]? = some t) (hstep : t.step services l' = some t')
      (h : s'.tasks = s.tasks.set k t')
  | spawn (id : String) (purpose : Creation) (hl : l = .childCreated (.ok ()))
      (hpc : s.pc = .create id purpose) (h : s'.tasks = s.tasks ++ [({} : Shell)])

theorem step_tasks {l : Label} (h : s.step services l = some s') :
    TasksTurn services s l s' := by
  cases step_rule h with
  | shell hown hget hstep => exact .own _ _ _ _ rfl hown hget hstep rfl
  | deliver hpc hget hput => exact .put _ _ _ (.deliver _) trivial hget hput rfl
  | interrupt hpc hget hput | release hpc hget hput | stopPut hpc hget hput
  | jobPut hjob hget hput => exact .put _ _ _ (.control _) trivial hget hput rfl
  | route hpc h | takeCommand hpc hcommands h | takeControl hpc hcontrol h =>
      exact .same h.frame.tasks
  | childCreated hpc => exact .spawn _ _ rfl hpc (created_frame _ _ _).tasks
  | childFailed hpc => exact .same (created_frame _ _ _).tasks
  | _ => exact .same rfl

/-! ## One task -/

/-- Where the task `k` of the state after a step comes from. -/
inductive TaskTurn (services : Services) (s : Kernel) (l : Label) (k : TaskId) (x' : Shell) :
    Prop
  | same (hget : s.tasks[k]? = some x')
  | own (x : Shell) (l' : Shell.Label) (hl : l = .shell k l') (hget : s.tasks[k]? = some x)
      (hstep : x.step services l' = some x')
  | put (x : Shell) (l' : Shell.Label) (hput : IsPut l') (hget : s.tasks[k]? = some x)
      (hstep : x.step services l' = some x')
  | spawn (id : String) (purpose : Creation) (hl : l = .childCreated (.ok ()))
      (hpc : s.pc = .create id purpose) (hk : s.tasks[k]? = none) (hx : x' = {})

theorem getElem?_set_cases {ts : List Shell} {j k : Nat} {t x : Shell}
    (h : (ts.set j t)[k]? = some x) : ts[k]? = some x ∨ (j = k ∧ x = t) := by
  rw [List.getElem?_set] at h
  split at h
  · next heq =>
      split at h
      · cases h
        exact Or.inr ⟨heq, rfl⟩
      · cases h
  · exact Or.inl h

theorem task_turn {l : Label} {k : TaskId} {x' : Shell} (h : s.step services l = some s')
    (hget : s'.tasks[k]? = some x') : TaskTurn services s l k x' := by
  cases step_tasks h with
  | same htasks => exact .same (htasks ▸ hget)
  | own j t t' l' hl hown ht hstep htasks =>
      rw [htasks] at hget
      rcases getElem?_set_cases hget with hold | ⟨rfl, rfl⟩
      · exact .same hold
      · exact .own t l' hl ht hstep
  | put j t t' l' hput ht hstep htasks =>
      rw [htasks] at hget
      rcases getElem?_set_cases hget with hold | ⟨rfl, rfl⟩
      · exact .same hold
      · exact .put t l' hput ht hstep
  | spawn id purpose hl hpc htasks =>
      rw [htasks, List.getElem?_append] at hget
      split at hget
      · exact .same hget
      · next hge =>
          have hnone : s.tasks[k]? = none := List.getElem?_eq_none (by omega)
          exact .spawn id purpose hl hpc hnone
            (List.mem_singleton.mp (List.mem_of_getElem? hget))

/-- No task goes away. -/
theorem task_stays {l : Label} {k : TaskId} {x : Shell} (h : s.step services l = some s')
    (hget : s.tasks[k]? = some x) : ∃ x', s'.tasks[k]? = some x' := by
  have hlt : k < s.tasks.length := (List.getElem?_eq_some_iff.mp hget).1
  have hle : s.tasks.length ≤ s'.tasks.length := by
    cases step_tasks h with
    | same htasks => rw [htasks]
    | own j t t' l' hl hown ht hstep htasks | put j t t' l' hput ht hstep htasks =>
        rw [htasks, List.length_set]
    | spawn id purpose hl hpc htasks =>
        rw [htasks, List.length_append]
        omega
  exact ⟨_, List.getElem?_eq_getElem (hlt.trans_le hle)⟩

/-- What the steps of a shell keep, the steps of the kernel keep for each of
its shells. -/
theorem task_keeps {Inv : Shell → Prop}
    (hstep : ∀ t l t', Inv t → t.step services l = some t' → Inv t') {l : Label} {k : TaskId}
    (hs : ∃ x, s.tasks[k]? = some x ∧ Inv x) (h : s.step services l = some s') :
    ∃ x', s'.tasks[k]? = some x' ∧ Inv x' := by
  obtain ⟨x, hx, hinv⟩ := hs
  obtain ⟨x', hx'⟩ := task_stays h hx
  refine ⟨x', hx', ?_⟩
  have hold : ∀ {y : Shell}, s.tasks[k]? = some y → Inv y := by
    intro y hy
    rw [hx] at hy
    cases hy
    exact hinv
  cases task_turn h hx' with
  | same hget => exact hold hget
  | own y l' hl hget ht | put y l' hput hget ht => exact hstep y l' x' (hold hget) ht
  | spawn id purpose hl hpc hnone =>
      rw [hx] at hnone
      cases hnone

/-! ## Every task is a reachable shell -/

/-- What holds of a fresh shell and is kept by the steps of a shell holds of
every shell of the kernel. -/
theorem tasks_step {Inv : Shell → Prop} (h0 : Inv {})
    (hstep : ∀ t l t', Inv t → t.step services l = some t' → Inv t') {l : Label}
    (hs : ∀ t ∈ s.tasks, Inv t) (h : s.step services l = some s') : ∀ t ∈ s'.tasks, Inv t := by
  intro x' hx'
  obtain ⟨k, hget⟩ := List.getElem?_of_mem hx'
  cases task_turn h hget with
  | same hget => exact hs x' (List.mem_of_getElem? hget)
  | own x l' hl hget ht | put x l' hput hget ht =>
      exact hstep x l' x' (hs x (List.mem_of_getElem? hget)) ht
  | spawn id purpose hl hpc hnone hx =>
      rw [hx]
      exact h0

theorem shell_reachable (hr : Reachable services s) :
    ∀ t ∈ s.tasks, Shell.Reachable services t := by
  refine @Lib.Reachable.invariant _ _ _ _ _
    (fun s : Kernel => ∀ t ∈ s.tasks, Shell.Reachable services t) hr ?_ ?_
  · intro t ht
    rw [List.mem_singleton.mp ht]
    exact Lib.Reachable.refl _
  · intro a l b ha hstep
    refine tasks_step (Lib.Reachable.refl _) ?_ ha hstep
    intro t l' t' ht ht'
    exact Lib.Reachable.trans ht (Lib.Reachable.single ht')

end Kernel

end Kernmini.Engine
