/-
Kernmini.Engine.KernelFence — an `interrupt_request` is a fence between the
requests received before it and those that come after.

The request and the interrupt travel through different sockets and
channels. Two drains keep them in order: `route_pending_shells` empties the
shell channel before the loop puts an interrupt to any shell, and
`abort_pending` empties the shell's own channel before it aborts the queue.
`interrupt_fence` puts the two together: an execute request received before
the loop took the `interrupt_request` is answered by the loop, or it had
been put to a shell by then, and once that shell has applied the interrupt
it is behind the fence.

One request slips through: a hold that another hold has been parked over is
lost, and no interrupt finishes it (`lost_hold_passes_fence`).
-/
import Kernmini.Engine.KernelPosts

namespace Kernmini.Engine

open Kernmini.Wire Kernmini.Lib

namespace Kernel

variable {services : Services} {s s' : Kernel} {l : Label} {n : PostNotes} {k : TaskId}
  {ls : List Label} {o o' : Watched}

/-- No shell parks a hold while another is parked. -/
def ParksFree (s : Kernel) : Label → Prop
  | .shell k l => ∀ x ∈ s.tasks[k]?, x.ParksFree l
  | _ => True

instance (s : Kernel) (l : Label) : Decidable (ParksFree s l) :=
  inferInstanceAs (Decidable (l.OnShell fun k l => ∀ x ∈ s.tasks[k]?, x.ParksFree l))

/-! ## No request is lost -/

/-- No shell has lost a request, and none had when it took a control. -/
structure Unlost (x : Shell) (ts : Takings) : Prop where
  now : x.NoLoss
  taken : ∀ y ∈ ts, y.1.NoLoss

theorem parksFree_of_isPut {x : Shell} {l' : Shell.Label} (h : IsPut l') : x.ParksFree l' := by
  intro o item hl
  rw [hl] at h
  cases h

theorem Unlost.turn {x x' : Shell} {ts ts' : Takings} (hu : Unlost x ts) (ha : x.Accounts)
    (hget : s.tasks[k]? = some x) (hok : ParksFree s l)
    (h : TakingTurn services l k x ts x' ts') : Unlost x' ts' := by
  have hown : ∀ {l' : Shell.Label}, l = .shell k l' → x.ParksFree l' := by
    intro l' hl
    rw [hl] at hok
    exact hok x hget
  cases h with
  | same hx hts => rwa [hx, hts]
  | other l' hl hstep htakes hts =>
      rw [hts]
      refine ⟨(Shell.noLoss_step_iff ha hu.now hstep).mpr ?_, hu.taken⟩
      rcases hl with hl | hput
      · exact hown hl
      · exact parksFree_of_isPut hput
  | take l' hl hstep htakes hts =>
      rw [hts]
      refine ⟨(Shell.noLoss_step_iff ha hu.now hstep).mpr (hown hl), fun y hy => ?_⟩
      rcases List.mem_append.mp hy with hold | hnew
      · exact hu.taken y hold
      · rw [List.mem_singleton.mp hnew]
        exact hu.now

/-- The notes are true, and no shell has lost a request. -/
structure Lossless (services : Services) (o : Watched) : Prop where
  notes : Notes services o
  tasks : ∀ k x, o.state.tasks[k]? = some x → Unlost x (o.notes.takes k)

theorem unlost_init : Unlost {} [] := ⟨Shell.noLoss_init, by intro y hy; cases hy⟩

theorem lossless_init : Lossless services ⟨{}, {}⟩ where
  notes := notes_init
  tasks := by
    intro k x hx
    rw [List.mem_singleton.mp (List.mem_of_getElem? hx)]
    exact unlost_init

theorem lossless_step (hl : Lossless services o) (hok : ParksFree o.state l)
    (h : watchedStep services o l = some o') : Lossless services o' := by
  refine ⟨notes_step hl.notes h, fun k x' hx' => ?_⟩
  obtain ⟨hstep, hnotes⟩ := observe_cases h
  rw [hnotes]
  refine takings_step unlost_init ?_ (hl.notes.shells.unborn k) (hl.tasks k) hstep hx'
  intro x y ts' hx hu hturn
  have hr := (hl.notes.shells.past k x hx).reachable
  exact hu.turn (Shell.accounts_of_reachable hr) hx hok hturn

theorem lossless_of_run (hrun : run (watchedStep services) ⟨{}, {}⟩ ls = some o)
    (hok : StepsMeet (Kernel.step services) ParksFree {} ls) : Lossless services o :=
  @run_invariant_of_meets _ _ _ _ (Lossless services)
    (fun _ _ _ hl hok h => lossless_step hl hok h) _ _ _ hrun
    (@StepsMeet.observe _ _ _ _ watchPosts ⟨{}, {}⟩ _ _ hok) lossless_init

/-! ## The fence -/

/-- When the shell takes the control `p`, it is an interrupt; and if its
handler does not fail, the message `q` is behind the fence from the moment
`abort_pending` has come to it. -/
def Fences (o : Watched) (p : Put) (q : Post) : Prop :=
  ∀ x x', (o.notes.takes p.task)[p.number]? = some (x, x') →
    x.controls.head? = some .interrupt ∧
      (x'.pc.aborting = true → ∃ y, o.state.tasks[p.task]? = some y ∧
        (y.Applying q.item ∨ Shell.Fenced x y q.item))

/-- In every run in which no shell parks a hold over another: an execute
request received before the loop took an `interrupt_request` had been put to
a shell, or answered by the loop, when the loop put the interrupt to a
shell; and if that is the request's own shell, the request is fenced. -/
theorem interrupt_fence (hrun : run (watchedStep services) ⟨{}, {}⟩ ls = some o)
    (hok : StepsMeet (Kernel.step services) ParksFree {} ls) :
    ∀ p ∈ o.notes.puts, p.control = .interrupt → ∀ a ∈ p.before,
      a.request.isExecute = true →
        o.state.Refused a ∨
          ∃ q ∈ p.posted, q.arrival = a ∧ (q.task = p.task → Fences o p q) := by
  have hl := lossless_of_run hrun hok
  intro p hp hcontrol a ha hex
  rcases hl.notes.loop.fenced p hp a ha (Message.isRequest_of_isExecute hex) with
    ⟨q, hq, rfl⟩ | hrefused
  · refine Or.inr ⟨q, hq, rfl, fun htask x x' htaken => ?_⟩
    obtain ⟨y, hy, hnumbered⟩ := hl.notes.shells.numbered p hp
    obtain ⟨_, _, hmail⟩ := hl.notes.shells.mailBy p hp q hq htask
    have hhead := hnumbered.taken _ htaken
    rw [hcontrol] at hhead
    refine ⟨hhead, fun habort => ⟨y, hy, ?_⟩⟩
    have hmem : (x, x') ∈ o.notes.takes p.task := List.mem_of_getElem? htaken
    obtain ⟨⟨hreach, l, c, rest, hstep, htake⟩, hlater⟩ :=
      (hl.notes.shells.past p.task y hy).taken _ hmem
    rw [htake.controls] at hhead
    cases hhead
    exact Shell.fenced_of_interrupt hreach ((hl.tasks p.task y hy).taken _ hmem) hstep htake
      habort hlater (hmail.taken _ htaken) hex
  · exact Or.inl hrefused

/-- An `interrupt_request` is received and taken by the loop. -/
def takeInterrupt : List Label :=
  [.receiveControl (controlRequest "interrupt_request" (.object [])), .select (.control "u")]

/-- Cell `a` runs, cell `b` is received, and the interrupt reaches their shell,
which aborts `b`. -/
def interruptTwoCells : List Label :=
  handleParent (Shell.cell "a" 0 false) ++ [.receive (Shell.cell "b" 0 false)] ++
    takeInterrupt ++ [.next [], .next [], .next [], .next [0], .next []] ++
    List.replicate 4 (.shell 0 (.next Shell.quiet))

theorem interrupt_fence_two_cells :
    ∃ o p a b, run (watchedStep subshellServices) ⟨{}, {}⟩ interruptTwoCells = some o ∧
      p ∈ o.notes.puts ∧ p.before = [a, b] ∧
      ((o.notes.takes p.task)[p.number]?).any (fun y => y.2.pc.aborting) = true ∧
      (o.state.Refused b ∨
        ∃ q ∈ p.posted, q.arrival = b ∧ (q.task = p.task → Fences o p q)) := by
  have hrun : run (watchedStep subshellServices) ⟨{}, {}⟩ interruptTwoCells = some _ := rfl
  refine ⟨_, _, _, _, hrun, List.mem_singleton.mpr rfl, rfl, by decide, ?_⟩
  exact interrupt_fence hrun (by decide) _ (List.mem_singleton.mpr rfl) rfl _
    (List.mem_cons_of_mem _ List.mem_cons_self) (by decide)

/-! ## A lost hold -/

/-- A hold for the parent shell is handled, up to the moment it is parked. -/
def parkParent (inbound : Inbound) : List Label :=
  handleParent inbound ++ [.shell 0 .emit, .shell 0 .emit, .shell 0 (.next Shell.quiet)]

/-- Hold `a` is parked, hold `b` of higher priority is parked over it, and the
shell takes the interrupt, finishes `b` and aborts its queue. -/
def interruptTwoHolds : List Label :=
  parkParent (Shell.cell "a" 0 true) ++ parkParent (Shell.cell "b" 1 true) ++
    takeInterrupt ++ [.next [0], .next []] ++ List.replicate 2 (.shell 0 (.next Shell.quiet)) ++
    List.replicate 3 (.shell 0 .emit) ++ [.shell 0 (.next Shell.quiet)]

/-- A request that was neither answered, nor active, nor the hold when the
interrupt was taken, and has no reply since, is not behind the fence. -/
theorem not_fenced {x y : Shell} {item : QueueItem} (hactive : x.active = none)
    (hheld : x.held.map QueueItem.order ≠ some item.order) (hlog : item.order ∉ repliesIn x.log)
    (hsaid : replyCount (y.said item.order) = 0) : ¬ Shell.Fenced x y item := by
  rintro ⟨houtcome, _⟩
  cases houtcome with
  | answered h => exact hlog h
  | active hworks =>
      rw [hworks.1] at hactive
      cases hactive
  | finished hworks =>
      rw [hworks.1] at hactive
      cases hactive
  | held h => exact hheld (by rw [h]; rfl)
  | aborted h =>
      rw [h, replyCount_abortExecute] at hsaid
      cases hsaid

/-- The shell has applied the interrupt, and the first hold is not behind the
fence: it has no reply. -/
theorem lost_hold_passes_fence :
    ∃ o p q x x' y, run (watchedStep subshellServices) ⟨{}, {}⟩ interruptTwoHolds = some o ∧
      p ∈ o.notes.puts ∧ p.control = .interrupt ∧ q.arrival ∈ p.before ∧
      q.arrival.request.isExecute = true ∧ q ∈ p.posted ∧ q.task = p.task ∧
      (o.notes.takes p.task)[p.number]? = some (x, x') ∧ x'.pc.aborting = true ∧
      o.state.tasks[p.task]? = some y ∧ ¬ y.Applying q.item ∧ ¬ Shell.Fenced x y q.item ∧
      replyCount (y.said q.number) = 0 := by
  have hrun : run (watchedStep subshellServices) ⟨{}, {}⟩ interruptTwoHolds = some _ := rfl
  refine ⟨_, _, _, _, _, _, hrun, List.mem_singleton.mpr rfl, rfl, List.mem_cons_self, by decide,
    List.mem_cons_self, rfl, rfl, rfl, rfl, ?_, ?_, by decide⟩
  · rintro ⟨habort, _⟩
    cases habort
  · exact not_fenced rfl (by decide) (by decide) (by decide)

end Kernel

end Kernmini.Engine
