/-
Kernmini.Engine.Order — the order in which a shell gets to what it has
received.

`pop_runnable` looks at one queue. Between two of its calls messages arrive,
executions start and end, holds come and go, and the queue is emptied by an
abort; so what it picks at one moment says little about the order of a run.
An observer writes down every message as it is dispatched, together with
the number of messages taken from the channel by then, whether a cell was
running and what was held. Of two messages that were both there, the one
behind in the queue is dispatched first only if it is no execute request and
the other one is, and had to wait for the execution or for the hold
(`dispatch_in_order`).
-/
import Kernmini.Engine.QueueTheorems
import Kernmini.Engine.Numbering
import Kernmini.Lib.Observe

namespace Kernmini.Engine

open Kernmini.Wire Kernmini.Lib

/-- A message as it was dispatched. -/
structure Dispatched where
  item : QueueItem
  /-- the messages taken from the channel by then -/
  taken : Nat
  /-- a cell was running -/
  active : Bool
  held : Option QueueItem

/-- A later message is not passed over: if it was there and ahead in the queue
when the first was dispatched, it is an execute request that was blocked then,
and the first is none. -/
def Dispatched.InOrder (first : Dispatched) (second : QueueItem) : Prop :=
  second.order < first.taken → second.precedes first.item →
    second.isExecute = true ∧ first.item.isExecute = false ∧ Blocked first.active first.held second

/-- The item `handle_item` is about to be called with. -/
def Pc.handling : Pc → Option QueueItem
  | .handle item => some item
  | _ => none

@[simp] theorem Resume.handling_pc (resume : Resume) : resume.pc.handling = none := by
  cases resume <;> rfl

theorem Pc.handling_eq_some {pc : Pc} {item : QueueItem} (h : pc.handling = some item) :
    pc = .handle item := by
  cases pc with
  | handle other => simpa [handling] using h
  | _ => cases h

namespace Shell

variable {services : Services} {s t : Shell} {l : Label} {item : QueueItem}

/-- An observer writes down what is dispatched. -/
def watchDispatch (s : Shell) (_ : Label) (t : Shell) (notes : List Dispatched) :
    List Dispatched :=
  match s.pc, t.pc.handling with
  | .dispatch, some item => notes ++ [⟨item, s.order, s.active.isSome, s.held⟩]
  | _, _ => notes

/-! ## How a step changes the queue -/

inductive QueueTurn (s t : Shell) : Prop
  /-- nothing enters the queue -/
  | keep (hitems : ∀ item ∈ t.queue.items, item ∈ s.queue.items) (horder : t.order = s.order)
      (hpc : t.pc.handling = none ∨ t.pc = s.pc)
  /-- `enqueue` -/
  | take (item : QueueItem) (hnew : item.order = s.order)
      (hitems : ∀ other ∈ t.queue.items, other = item ∨ other ∈ s.queue.items)
      (horder : t.order = s.order + 1) (hpc : t.pc.handling = none)
  /-- `pop_runnable` returns an item -/
  | pop (item : QueueItem) (hpc : s.pc = .dispatch) (hpc' : t.pc = .handle item)
      (hpop : popRunnable s.queue s.active.isSome s.held = (some item, t.queue))
      (horder : t.order = s.order)

theorem QueueTurn.of_same (hqueue : t.queue = s.queue) (horder : t.order = s.order)
    (hpc : t.pc.handling = none) : QueueTurn s t :=
  .keep (by simp [hqueue]) horder (.inl hpc)

theorem enqueue_queueTurn {pc : Pc} (inbound : Inbound) (rest : List Inbound)
    (hpc : pc.handling = none) :
    QueueTurn s { { s with incoming := rest }.enqueue inbound with pc := pc } :=
  .take _ rfl (fun _ hmem => Heap.mem_push.mp hmem) rfl hpc

theorem ApplyRule.queueTurn {c : ShellControl} {resume : Resume} {rest : List ShellControl}
    (h : ApplyRule { s with controls := rest } resume c t) : QueueTurn s t := by
  cases h with
  | notHeld | stop => exact .of_same rfl rfl (Resume.handling_pc resume)
  | _ => exact .of_same rfl rfl rfl

theorem executionDone_queueTurn (done : ExecutionDone) (resume : Resume) :
    QueueTurn s (s.executionDone done resume) := by
  refine .of_same rfl rfl ?_
  simp only [executionDone]
  split
  · rfl
  · exact Resume.handling_pc resume

theorem failItem_queueTurn (es : List Emission) (error : Error) :
    QueueTurn s ((s.say item es).failItem item error) := by
  refine .of_same rfl rfl ?_
  simp only [failItem]
  split <;> rfl

theorem HandleShellRule.queueTurn (h : HandleShellRule services s item t) : QueueTurn s t := by
  cases h with
  | kernelInfoFailed htype => exact failItem_queueTurn [busy] _
  | _ => exact .of_same rfl rfl rfl

theorem HandleItemRule.queueTurn (h : HandleItemRule services s item t) : QueueTurn s t := by
  cases h with
  | shell hex h => exact h.queueTurn
  | _ => exact .of_same rfl rfl rfl

/-- `abort_pending` only takes away. -/
theorem abortQueued_queueTurn (release : Option Nat) (resume : Resume) :
    QueueTurn s (s.abortQueued release resume) := by
  refine .keep ?_ rfl (.inl ?_)
  · intro item hmem
    exact (abortQueue_perm s.queue).symm.subset (List.mem_append_right _ hmem)
  · simp only [abortQueued]
    cases release with
    | none => exact Resume.handling_pc resume
    | some complete => rfl

theorem LoopRule.queueTurn (h : LoopRule services s l t) : QueueTurn s t := by
  cases h with
  | takeIncoming hpc hincoming =>
      have hhandling : s.pc.handling = none := by rw [hpc]; rfl
      exact enqueue_queueTurn _ _ hhandling
  | abortIncoming hpc hincoming =>
      have hhandling : s.pc.handling = none := by rw [hpc]; rfl
      exact enqueue_queueTurn _ _ hhandling
  | selectIncoming hpc hincoming => exact enqueue_queueTurn _ _ rfl
  | takeControl hpc hcontrols h | selectControl hpc hcontrols h => exact h.queueTurn
  | reap | selectDone => exact executionDone_queueTurn _ _
  | pop hpc hpop => exact .pop _ hpc rfl hpop rfl
  | idle hpc hpop =>
      refine .keep ?_ rfl (.inl rfl)
      intro item hmem
      exact (popRunnable_perm hpop).symm.subset (by simpa using hmem)
  | handle hpc h => exact h.queueTurn
  | abort hpc hincoming => exact abortQueued_queueTurn _ _
  | answer hpc => exact .of_same rfl rfl (Resume.handling_pc _)
  | callFailed hpc =>
      refine .of_same rfl rfl ?_
      simp only [failItem]
      split <;> rfl
  | _ => exact .of_same rfl rfl rfl

theorem step_queueTurn (h : s.step services l = some t) : QueueTurn s t := by
  cases step_rule h with
  | loop hout h => exact h.queueTurn
  | _ => exact .keep (fun _ hmem => hmem) rfl (.inr rfl)

/-! ## What was dispatched, and what is still queued -/

/-- Everything queued was taken from the channel, and no two have one
arrival number. -/
theorem queue_orders (ha : s.Accounts) :
    (s.queue.items.map QueueItem.order).Nodup ∧ ∀ item ∈ s.queue.items, item.order < s.order := by
  obtain ⟨_, settled, dropped, hl⟩ := ha
  have hsub : s.queue.items.Sublist (s.waiting ++ (s.executing ++ (settled ++ dropped))) :=
    (List.sublist_append_left _ _).trans (List.sublist_append_left _ _)
  constructor
  · exact (hsub.map _).nodup ((hl.taken.map QueueItem.order).nodup hl.nodup_order)
  · intro item hmem
    have htaken : item ∈ s.taken := hl.taken.symm.subset (hsub.subset hmem)
    have horder := List.mem_map_of_mem (f := QueueItem.order) htaken
    rw [hl.orders] at horder
    exact List.mem_range.mp horder

/-- What `pop_runnable` leaves behind was not ahead of what it picks, unless it
is an execute request that is blocked and the other is none. -/
theorem popRunnable_inOrder {queue rest : Queue} {active : Bool} {held : Option QueueItem}
    {other : QueueItem} (hnodup : (queue.items.map QueueItem.order).Nodup)
    (hpop : popRunnable queue active held = (some item, rest)) (hother : other ∈ queue.items)
    (hahead : other.precedes item) :
    other.isExecute = true ∧ item.isExecute = false ∧ Blocked active held other := by
  have hsorted := pairwise_precedes queue.sorted hnodup
  have hfind : queue.items.find? (runnable active held) = some item := by
    rw [← popRunnable_found, hpop]
  have hne : other ≠ item := by
    rintro rfl
    rcases hahead with hlt | ⟨_, hlt⟩
    · exact lt_irrefl _ hlt
    · exact lt_irrefl _ hlt
  -- the two cannot be ahead of each other
  have hbehind : ¬ item.precedes other := by
    intro hprecedes
    rcases hahead with hlt | ⟨heq, hlt⟩ <;> rcases hprecedes with hlt' | ⟨heq', hlt'⟩
    · exact lt_asymm hlt hlt'
    · exact hlt.ne heq'
    · exact hlt'.ne heq
    · omega
  have hwaits : runnable active held other = false := by
    by_contra hrun
    exact hbehind (precedes_of_find hsorted hfind hother (Bool.eq_true_of_not_eq_false hrun) hne)
  obtain ⟨hexecute, hblocked⟩ := runnable_eq_false_iff.mp hwaits
  refine ⟨hexecute, ?_, hblocked⟩
  by_contra hex
  exact hbehind (precedes_of_execute hsorted hfind (Bool.eq_true_of_not_eq_false hex) hother hne)

/-- What holds between the notes and the shell at every moment. -/
structure Dispatching (o : Observed Shell (List Dispatched)) : Prop where
  accounts : o.state.Accounts
  taken : ∀ d ∈ o.notes, d.item.order < d.taken ∧ d.taken ≤ o.state.order
  queued : ∀ d ∈ o.notes, ∀ item ∈ o.state.queue.items, d.InOrder item
  ordered : o.notes.Pairwise (fun first second => first.InOrder second.item)
  started : (o.state.started ++ o.state.pc.handling.toList).Sublist (o.notes.map Dispatched.item)
  executes : ∀ item ∈ o.state.started, item.isExecute = true

theorem dispatching_init : Dispatching ⟨{}, []⟩ where
  accounts := accounts_init
  taken := by simp
  queued := by simp
  ordered := List.Pairwise.nil
  started := List.Sublist.refl _
  executes := by simp

/-- A step that dispatches nothing leaves the notes. -/
theorem watchDispatch_of_none {notes : List Dispatched} (h : t.pc.handling = none ∨ t.pc = s.pc) :
    watchDispatch s l t notes = notes := by
  unfold watchDispatch
  split
  · next hpc hhandling =>
      rcases h with hnone | hsame
      · rw [hnone] at hhandling
        cases hhandling
      · rw [hsame, hpc] at hhandling
        cases hhandling
  · rfl

/-- What is started is what was dispatched last. -/
theorem runs_step (h : s.step services l = some t) (hnone : t.pc.handling = none ∨ t.pc = s.pc) :
    (t.started ++ t.pc.handling.toList).Sublist (s.started ++ s.pc.handling.toList) := by
  rcases (step_turn h).started with hsame | ⟨item, hpc, _, hstarted⟩
  · rw [hsame]
    refine List.Sublist.append (List.Sublist.refl _) ?_
    rcases hnone with hnone | hpc
    · simp [hnone]
    · rw [hpc]
  · have hnone' : t.pc.handling = none := by
      rcases hnone with hnone | hsame
      · exact hnone
      · -- the scheduler moves on as it starts an execution
        cases step_turn h with
        | spawned item' execution n hpc' hex hitem =>
            cases hhandling : t.pc.handling with
            | none => rfl
            | some other =>
                rw [Pc.handling_eq_some hhandling] at hitem
                cases hitem
        | _ => simp_all
    rw [hstarted, hnone', hpc]
    simp [Pc.handling]

theorem executes_step (h : s.step services l = some t)
    (hs : ∀ item ∈ s.started, item.isExecute = true) : ∀ item ∈ t.started, item.isExecute = true := by
  rcases (step_turn h).started with hsame | ⟨item, _, hex, hstarted⟩
  · rwa [hsame]
  · rw [hstarted]
    intro other hmem
    rcases List.mem_append.mp hmem with hold | hnew
    · exact hs other hold
    · rw [List.mem_singleton.mp hnew]
      exact hex

theorem dispatching_step {o o' : Observed Shell (List Dispatched)} (ho : Dispatching o)
    (h : observe (step services) watchDispatch o l = some o') : Dispatching o' := by
  obtain ⟨hstep, hnotes⟩ := observe_cases h
  have haccounts := accounts_step ho.accounts hstep
  have hexecutes := executes_step hstep ho.executes
  obtain ⟨hnodup, hbound⟩ := queue_orders ho.accounts
  cases step_queueTurn hstep with
  | keep hitems horder hpc =>
      rw [watchDispatch_of_none hpc] at hnotes
      refine ⟨haccounts, ?_, ?_, ?_, ?_, hexecutes⟩
      · rw [hnotes, horder]
        exact ho.taken
      · rw [hnotes]
        exact fun d hd item hmem => ho.queued d hd item (hitems item hmem)
      · rw [hnotes]
        exact ho.ordered
      · rw [hnotes]
        exact (runs_step hstep hpc).trans ho.started
  | take item hnew hitems horder hpc =>
      rw [watchDispatch_of_none (.inl hpc)] at hnotes
      refine ⟨haccounts, ?_, ?_, ?_, ?_, hexecutes⟩
      · rw [hnotes, horder]
        exact fun d hd => ⟨(ho.taken d hd).1, (ho.taken d hd).2.trans (Nat.le_succ _)⟩
      · rw [hnotes]
        intro d hd other hmem hthere
        rcases hitems other hmem with rfl | hold
        · -- it arrives after everything that was dispatched
          have hle := (ho.taken d hd).2
          have hlt : other.order < d.taken := hthere
          omega
        · exact ho.queued d hd other hold hthere
      · rw [hnotes]
        exact ho.ordered
      · rw [hnotes]
        exact (runs_step hstep (.inl hpc)).trans ho.started
  | pop item hpc hpc' hpop horder =>
      have hnew : o'.notes =
          o.notes ++ [⟨item, o.state.order, o.state.active.isSome, o.state.held⟩] := by
        rw [hnotes]
        simp [watchDispatch, hpc, hpc', Pc.handling]
      have hperm := popRunnable_perm hpop
      have hmem : item ∈ o.state.queue.items := hperm.symm.subset (by simp)
      have hrest : ∀ other ∈ o'.state.queue.items, other ∈ o.state.queue.items :=
        fun other hother => hperm.symm.subset (by simp [hother])
      have hstarted : o'.state.started = o.state.started := by
        rcases (step_turn hstep).started with hsame | ⟨_, hhandle, _⟩
        · exact hsame
        · rw [hpc] at hhandle
          cases hhandle
      refine ⟨haccounts, ?_, ?_, ?_, ?_, hexecutes⟩
      · rw [hnew, horder]
        intro d hd
        rcases List.mem_append.mp hd with hold | hlast
        · exact ho.taken d hold
        · rw [List.mem_singleton.mp hlast]
          exact ⟨hbound item hmem, le_refl _⟩
      · rw [hnew]
        intro d hd other hother
        rcases List.mem_append.mp hd with hold | hlast
        · exact ho.queued d hold other (hrest other hother)
        · rw [List.mem_singleton.mp hlast]
          exact fun _ hahead => popRunnable_inOrder hnodup hpop (hrest other hother) hahead
      · rw [hnew]
        refine List.pairwise_append.mpr ⟨ho.ordered, List.pairwise_singleton _ _, ?_⟩
        intro d hd e he
        rw [List.mem_singleton.mp he]
        exact ho.queued d hd item hmem
      · rw [hnew, hstarted, hpc', List.map_append]
        refine List.Sublist.append ?_ (List.Sublist.refl _)
        simpa [hpc, Pc.handling] using ho.started

/-! ## Whole runs -/

/-- In every run of a shell, whatever arrives, is held, released, aborted or
interrupted in between: of two messages that had both been received when the
first of them was dispatched, the one behind in the queue goes first only if
it is no execute request and the other one is, and was blocked by the cell that
was running or by the hold. So an execution that is started before one that had
arrived earlier is of a higher priority. -/
theorem dispatch_in_order {ls : List Label} {o : Observed Shell (List Dispatched)}
    (hrun : run (observe (step services) watchDispatch) ⟨{}, []⟩ ls = some o) :
    o.notes.Pairwise (fun first second => first.InOrder second.item) ∧
    o.state.started.Pairwise (fun first second =>
      second.order < first.order → second.priority < first.priority) := by
  have ho : Dispatching o :=
    run_invariant (fun a l b ha hab => dispatching_step ha hab) hrun dispatching_init
  refine ⟨ho.ordered, ?_⟩
  have hitems : (o.notes.map Dispatched.item).Pairwise (fun first second =>
      second.order < first.order → second.precedes first → first.isExecute = false) := by
    refine List.pairwise_map.mpr (ho.ordered.imp_of_mem ?_)
    intro d e hd _ hinOrder hearlier hahead
    exact (hinOrder (hearlier.trans (ho.taken d hd).1) hahead).2.1
  have hstarted := hitems.sublist ((List.sublist_append_left _ _).trans ho.started)
  refine hstarted.imp_of_mem ?_
  intro first second hfirst _ hinOrder hearlier
  by_contra hnot
  have hahead : second.precedes first := by
    rcases (not_lt.mp hnot).lt_or_eq with hlt | heq
    · exact .inl hlt
    · exact .inr ⟨heq.symm, hearlier⟩
  have hnone := hinOrder hearlier hahead
  rw [ho.executes first hfirst] at hnone
  cases hnone

/-- A request that is answered at once. -/
def connectRequest : Inbound :=
  { message := { header := [("msg_type", .string "connect_request")] }
    reply := 0
    identity := [] }

/-- Two cells wait in the channel, the second with the higher priority, and
behind them a request that is no cell. -/
def urgentSecond : List Label :=
  [.deliver (cell "a" 0 false), .deliver (cell "b" 1 false), .deliver connectRequest] ++
    List.replicate 17 (.next quiet) ++ [.emit] ++ runCell.tail ++ List.replicate 7 (.next quiet)

/-- The second cell is dispatched first, while it runs the request passes the
first cell, and then that one is started. -/
theorem dispatch_in_order_urgent :
    ∃ o, run (observe (step plainServices) watchDispatch) ⟨{}, []⟩ urgentSecond = some o ∧
      o.notes.map (fun d => (d.item.order, d.taken, d.active)) =
        [(1, 3, false), (2, 3, true), (0, 3, false)] ∧
      o.notes.Pairwise (fun first second => first.InOrder second.item) ∧
      o.state.started.map QueueItem.order = [1, 0] ∧
      o.state.started.Pairwise (fun first second =>
        second.order < first.order → second.priority < first.priority) := by
  have hview : (run (observe (step plainServices) watchDispatch) ⟨{}, []⟩ urgentSecond).map
      (fun o => (o.notes.map (fun d => (d.item.order, d.taken, d.active)),
        o.state.started.map QueueItem.order)) =
      some ([(1, 3, false), (2, 3, true), (0, 3, false)], [1, 0]) := by
    decide +kernel
  obtain ⟨o, ho, hnotes⟩ := Option.map_eq_some_iff.mp hview
  obtain ⟨hordered, hstarted⟩ := dispatch_in_order ho
  exact ⟨o, ho, congrArg Prod.fst hnotes, hordered, congrArg Prod.snd hnotes, hstarted⟩

end Shell

end Kernmini.Engine
