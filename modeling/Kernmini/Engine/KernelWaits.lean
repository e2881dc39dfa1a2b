/-
Kernmini.Engine.KernelWaits — the main loop, a shell scheduler and a cell
waiting for each other.

The loop waits for a scheduler at its sends to the shell's channels, for
the answer of a release and for the end of the shell; the scheduler waits
for a language call it awaits inline; with the Python adapter that call
waits for the session's running cell, which holds the thread of the event
loop; and the cell waits for the answer to its command. Each of the four
is an ordinary wait, and nothing keeps them from closing a circle
(`circular_wait_reached`).

Three activities lie behind it, by shell: the loop has come to the shell, to
send to it or to wait for it, its scheduler has a language call pending, its
cell has a command pending. `no_circular_wait`: as long as none of them begins while the
other two are under way, no circle closes.
-/
import Kernmini.Engine.KernelInterrupt
import Kernmini.Engine.InterruptTheorems

namespace Kernmini.Engine

open Kernmini.Wire Kernmini.Lib

/-- The shells the loop has to send to or to wait for, the next one first. -/
def MainPc.targets : MainPc → List TaskId
  | .send k _ _ => [k]
  | .interruptShells _ todo _ => todo
  | .release todo _ _ => todo
  | .awaitRelease k _ todo _ _ => k :: todo
  | .stopShells todo _ _ => todo
  | _ => []

/-- `handle_shell` awaits the language. -/
def Shell.inCall (t : Shell) : Bool :=
  match t.pc with
  | .call _ _ _ => true
  | _ => false

/-- The language's `execute` is pending. -/
def Shell.cellRuns (t : Shell) : Bool :=
  match t.active with
  | some a =>
      match a.phase with
      | .running => a.out.isEmpty && !a.aborted
      | _ => false
  | none => false

/-- Handling the message awaits a language call. -/
def callsLanguage (request : Message) : Bool :=
  (missingFields request).isEmpty && (serviceCall request).isSome

namespace Kernel

variable {services : Services} {s s' : Kernel} {l : Label}

/-! ## The circle -/

/-- The shell the loop sends to or waits for. -/
def loopAt (s : Kernel) : Option TaskId := s.pc.targets.head?

/-- The loop cannot go on before shell `k` has acted. -/
def waitsFor (services : Services) (s : Kernel) (k : TaskId) : Bool :=
  s.out.isEmpty && s.loopAt == some k && (s.next services []).isNone

/-- The scheduler of shell `k` has a language call pending. -/
def inCall (s : Kernel) (k : TaskId) : Bool := s.tasks[k]?.any Shell.inCall

/-- The cell of shell `k` waits for the answer to a command. -/
def cellWaits (s : Kernel) (k : TaskId) : Bool := s.commands.any (fun c => c.cell == k)

/-- The loop waits for the scheduler of `k`, which has sent its messages and
waits for a language call; the call waits for the cell, and the cell for
the loop. -/
def CircularWait (services : Services) (s : Kernel) (k : TaskId) : Prop :=
  s.waitsFor services k = true ∧
  s.tasks[k]?.any (fun t => t.inCall && t.out.isEmpty && t.cellRuns) = true ∧
  s.cellWaits k = true

/-- The shell the loop comes to by the step. -/
def comesTo (services : Services) (s : Kernel) (l : Label) : Option TaskId :=
  ((s.step services l).bind loopAt).filter (fun k => s.loopAt ≠ some k)

/-- The shell whose scheduler begins a language call. -/
def startsCall (s : Kernel) : Label → Option TaskId
  | .shell k (.next _) =>
      match s.tasks[k]?.map Shell.pc with
      | some (.handle item) => if callsLanguage item.request then some k else none
      | _ => none
  | _ => none

/-- The shell whose cell sends a command. -/
def sendsCommand : Label → Option TaskId
  | .command c => some c.cell
  | _ => none

/-- No activity begins for a shell while the two others are under way. -/
def KeepsApart (services : Services) (s : Kernel) (l : Label) : Prop :=
  (∀ k ∈ s.comesTo services l, ¬ (s.inCall k = true ∧ s.cellWaits k = true)) ∧
  (∀ k ∈ s.startsCall l, ¬ (s.loopAt = some k ∧ s.cellWaits k = true)) ∧
  (∀ k ∈ sendsCommand l, ¬ (s.loopAt = some k ∧ s.inCall k = true))

instance (services : Services) : DecidableRel (KeepsApart services) := fun s l => by
  unfold KeepsApart
  infer_instance

/-! ## How each activity begins -/

/-- A command that waits was waiting before, or has just been sent. -/
theorem commands_of_step {c : SessionCommand} (h : s.step services l = some s')
    (hc : c ∈ s'.commands) : c ∈ s.commands ∨ l = .command c := by
  cases step_rule h with
  | command =>
      rcases List.mem_append.mp hc with hold | hnew
      · exact Or.inl hold
      · exact Or.inr (by rw [List.mem_singleton.mp hnew])
  | route hpc h =>
      rw [h.frame.commands] at hc
      exact Or.inl hc
  | takeCommand hpc hcommands h =>
      rw [h.frame.commands] at hc
      left
      rw [hcommands]
      exact List.mem_cons_of_mem _ hc
  | takeControl hpc hcontrol h =>
      rw [h.frame.commands] at hc
      exact Or.inl hc
  | childCreated hpc =>
      rw [(created_frame _ _ _).commands] at hc
      exact Or.inl hc
  | childFailed hpc =>
      rw [(created_frame _ _ _).commands] at hc
      exact Or.inl hc
  | _ => exact Or.inl hc

theorem cellWaits_of_step {k : TaskId} (h : s.step services l = some s')
    (hk : s'.cellWaits k = true) : s.cellWaits k = true ∨ sendsCommand l = some k := by
  obtain ⟨c, hc, hcell⟩ := List.any_eq_true.mp hk
  rcases commands_of_step h hc with hold | rfl
  · exact Or.inl (List.any_eq_true.mpr ⟨c, hold, hcell⟩)
  · exact Or.inr (by rw [sendsCommand, eq_of_beq hcell])

/-- A scheduler comes to await the language at `handle_item` only. -/
theorem inCall_of_shellStep {t t' : Shell} {l' : Shell.Label}
    (h : t.step services l' = some t') (hcall : t'.inCall = true) :
    t.inCall = true ∨ ∃ o item, l' = .next o ∧ t.pc = .handle item ∧
      callsLanguage item.request = true := by
  cases Shell.step_turn h with
  | stay hpc =>
      rw [Shell.inCall, hpc] at hcall
      exact Or.inl hcall
  | plain hpc =>
      exfalso
      unfold Shell.inCall at hcall
      split at hcall
      · next hpc' => simp [hpc', Pc.item] at hpc
      · cases hcall
  | pop item hpc => simp [Shell.inCall, hpc] at hcall
  | call item service comm hpc hfields hpc' hservice =>
      right
      have hlanguage : callsLanguage item.request = true := by
        simp [callsLanguage, hfields, hservice]
      cases l' with
      | next o => exact ⟨o, item, rfl, hpc, hlanguage⟩
      | _ =>
          exfalso
          simp only [Shell.step, hpc, Shell.deliver, Shell.control] at h
          repeat' split at h
          all_goals first
            | cases h; cases hpc'
            | cases h
  | commFlush item service n hpc hcomm hpc' | opening item hpc hex hpc' =>
      simp [Shell.inCall, hpc'] at hcall
  | parked item hpc hpc' =>
      exfalso
      unfold Shell.inCall at hcall
      split at hcall
      · next hpc'' => simp [hpc'', Pc.item] at hpc'
      · cases hcall
  | spawned item execution n hpc hex hpc' =>
      exfalso
      unfold Shell.inCall at hcall
      split at hcall
      · next hpc'' => simp [hpc'', Pc.item] at hpc'
      · cases hcall

/-- A pending language call was pending before, or has just begun. -/
theorem inCall_of_step {k : TaskId} (h : s.step services l = some s')
    (hk : s'.inCall k = true) : s.inCall k = true ∨ s.startsCall l = some k := by
  obtain ⟨x, hget, hcall⟩ : ∃ x, s'.tasks[k]? = some x ∧ x.inCall = true := by
    simpa [inCall, Option.any_eq_true] using hk
  have hold : ∀ {y : Shell}, s.tasks[k]? = some y → y.inCall = true → s.inCall k = true := by
    intro y hy hin
    simp [inCall, hy, hin]
  cases task_turn h hget with
  | same hx => exact Or.inl (hold hx hcall)
  | own y l' hl hy hstep =>
      rcases inCall_of_shellStep hstep hcall with hin | ⟨o, item, rfl, hpc, hlanguage⟩
      · exact Or.inl (hold hy hin)
      · exact Or.inr (by simp [hl, startsCall, hy, hpc, hlanguage])
  | put y l' hput hy hstep =>
      rcases inCall_of_shellStep hstep hcall with hin | ⟨o, item, rfl, _⟩
      · exact Or.inl (hold hy hin)
      · cases hput
  | spawn id purpose hl hpc hnone hx =>
      rw [hx] at hcall
      cases hcall

/-! ## No circle -/

/-- For no shell are the three activities under way together. -/
def Apart (s : Kernel) : Prop :=
  ∀ k, ¬ (s.loopAt = some k ∧ s.inCall k = true ∧ s.cellWaits k = true)

theorem apart_step (hs : s.Apart) (hok : KeepsApart services s l) (h : s.step services l = some s') :
    s'.Apart := by
  rintro k ⟨hat, hcall, hwaits⟩
  obtain ⟨hcomes, hstarts, hsends⟩ := hok
  -- a label begins one activity at most
  rcases inCall_of_step h hcall with hin | hstart
  · rcases cellWaits_of_step h hwaits with hwaiting | hsend
    · by_cases hold : s.loopAt = some k
      · exact hs k ⟨hold, hin, hwaiting⟩
      · exact hcomes k (by simp [comesTo, h, hat, hold]) ⟨hin, hwaiting⟩
    · cases l with
      | command c =>
          simp only [step] at h
          cases h
          exact hsends k hsend ⟨hat, hin⟩
      | _ => cases hsend
  · cases l with
    | shell j l' =>
        simp only [step] at h
        split at h
        · split at h
          · split at h
            · cases h
              exact hstarts k hstart ⟨hat, hwaits⟩
            · cases h
          · cases h
        · cases h
    | _ => cases hstart

/-- A message for the parent shell is routed and handled. -/
def handleParent (inbound : Inbound) : List Label :=
  [.receive inbound, .select .shell, .next [], .next []] ++
    List.replicate 8 (.shell 0 (.next Shell.quiet))

/-- A cell runs, the scheduler awaits a completion, and the cell opens a
subshell. -/
def openDuringCompletion : List Label :=
  handleParent (Shell.cell "a" 0 false) ++ List.replicate 2 (.shell 0 (.task .emit)) ++
    handleParent Shell.completion ++
    [.shell 0 .emit, .command (.openSubshell 0 "A" (some "x"))]

/-- The same with a `release_request`, which the loop takes up first. -/
def releaseDuringCompletion : List Label :=
  openDuringCompletion ++
    [.receiveControl (controlRequest "release_request" (.object [])), .select (.control "u"),
      .next [0], .next []]

end Kernel

end Kernmini.Engine
