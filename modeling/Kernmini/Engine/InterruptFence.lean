/-
Kernmini.Engine.InterruptFence — what an interrupt does to the requests
that come before it.

When the scheduler takes an `Interrupt`, every execute request put to it so
far is answered, active, parked as the hold, queued, or still in the
channel. The interrupt marks the active execution, finishes the hold, and
calls `abort_pending`, which empties the channel before it aborts the
queue. So once `abort_pending` has come to a request, the request is behind
the fence (`Fenced`): it was answered before, or runs with its interrupt
requested, or is answered by the interrupt; and it is not started later.
-/
import Kernmini.Engine.InterruptWindow
import Kernmini.Engine.ShellMail

namespace Kernmini.Engine

open Kernmini.Wire Kernmini.Lib

namespace Shell

variable {services : Services} {s s' t t' : Shell} {l : Label} {item : QueueItem} {n : Nat}
  {inbound : Inbound}

/-- `abort_pending` is running and has not come to the request. -/
def Applying (s : Shell) (item : QueueItem) : Prop :=
  s.pc.aborting = true ∧ (item ∈ s.queue.items ∨ s.InChannel item.order item.inbound)

/-- What has become of a request in `t`, when an interrupt was taken in `s`. -/
inductive Outcome (s t : Shell) (item : QueueItem) : Prop
  /-- it had been answered -/
  | answered (h : item.order ∈ repliesIn s.log)
  /-- it was the active execution, and still is, with its interrupt requested -/
  | active {a a' : ActiveExecution} (hactive : s.Works item a) (hactive' : t.Works item a')
      (hset : a'.interrupted = true)
  /-- it was the active execution, and has been answered since -/
  | finished {a : ActiveExecution} (hactive : s.Works item a)
      (h : item.order ∈ repliesIn t.log)
  /-- it was the hold, and has been answered as interrupted -/
  | held (hheld : s.held = some item)
      (hsaid : t.said item.order =
        s.said item.order ++ (finishHold s.executionCount "interrupt").1)
  /-- it has been answered as aborted -/
  | aborted (hsaid : t.said item.order = abortExecute s.executionCount)

/-- The request is behind the fence of an interrupt that was taken in `s`. -/
structure Fenced (s t : Shell) (item : QueueItem) : Prop where
  outcome : Outcome s t item
  started : item ∈ t.started → item ∈ s.started

/-! ## What no step undoes -/

/-- A turn of the loop puts nothing on the log, appends to the answers, and
starts no hold. -/
structure Records (s s' : Shell) : Prop where
  log : s'.log = s.log
  answers : s.answers <+: s'.answers
  started : s'.started = s.started ∨
    ∃ item, isHold item.request = false ∧ s'.started = s.started ++ [item]

theorem Records.same (hlog : s'.log = s.log) (hanswers : s'.answers = s.answers)
    (hstarted : s'.started = s.started) : Records s s' :=
  ⟨hlog, hanswers ▸ List.prefix_rfl, Or.inl hstarted⟩

theorem ApplyRule.records {resume : Resume} {control : ShellControl}
    (h : ApplyRule s resume control s') : Records s s' := by
  cases h with
  | notHeld hheld => exact ⟨rfl, List.prefix_append _ _, Or.inl rfl⟩
  | _ => exact .same rfl rfl rfl

theorem HandleItemRule.records (h : HandleItemRule services s item s') : Records s s' := by
  cases h with
  | shell hex h =>
      cases h with
      | _ => exact .same rfl rfl rfl
  | execute hex hinterrupting hhold => exact ⟨rfl, List.prefix_rfl, Or.inr ⟨item, hhold, rfl⟩⟩
  | _ => exact .same rfl rfl rfl

theorem LoopRule.records (h : LoopRule services s l s') : Records s s' := by
  cases h with
  | takeControl hpc hcontrols h | selectControl hpc hcontrols h =>
      exact ⟨h.records.log, h.records.answers, h.records.started⟩
  | handle hpc h => exact h.records
  | answer hpc => exact ⟨rfl, List.prefix_append _ _, Or.inl rfl⟩
  | _ => exact .same rfl rfl rfl

theorem replied_step (h : s.step services l = some s') (hr : n ∈ repliesIn s.log) :
    n ∈ repliesIn s'.log := by
  cases step_rule h with
  | loop hout h =>
      rw [h.records.log]
      exact hr
  | emit hout =>
      rw [repliesIn_append]
      exact List.mem_append_left _ hr
  | commPump hget hpump =>
      rw [repliesIn_append]
      exact List.mem_append_left _ hr
  | task hactive hrunning hstep =>
      rw [repliesIn_append]
      exact List.mem_append_left _ hr
  | _ => exact hr

/-- A message that was taken and waits no more does not wait again. -/
theorem not_waiting_step (ha : s.Accounts) (h : s.step services l = some s')
    (hmem : item ∈ s.taken) (hw : item ∉ s.waiting) : item ∉ s'.waiting := by
  obtain ⟨new, begun, settled, finished, dropped, _, _, hnew, _, hmove, _⟩ := step_effect ha.1 h
  intro hw'
  have hin : item ∈ s.waiting ++ new := hmove.symm.subset (List.mem_append_left _ hw')
  rcases List.mem_append.mp hin with hold | hfresh
  · exact hw hold
  · have hrange : item.order ∈ List.range' s.order new.length := by
      rw [← hnew]
      exact List.mem_map_of_mem hfresh
    have hge := (List.mem_range'_1.mp hrange).1
    have hlt := order_lt_of_mem_taken ha hmem
    omega

/-- Only a waiting message is started. -/
theorem started_step (h : s.step services l = some s') (hw : item ∉ s.waiting)
    (hstarted : item ∈ s'.started) : item ∈ s.started := by
  rcases (step_turn h).started with hsame | ⟨m, hpc, hex, hmore⟩
  · exact hsame ▸ hstarted
  · rw [hmore] at hstarted
    rcases List.mem_append.mp hstarted with hold | hnew
    · exact hold
    · rw [List.mem_singleton.mp hnew] at hw
      exact absurd (by simp [waiting, hpc, Pc.item]) hw

/-- The request an execution was active for is active, with its interrupt
standing, or has been answered. -/
theorem works_step (ht : s.Traces) (h : s.step services l = some s') {a : ActiveExecution}
    (hworks : s.Works item a) (hset : a.interrupted = true) :
    (∃ a', s'.Works item a' ∧ a'.interrupted = true) ∨ item.order ∈ repliesIn s'.log := by
  obtain ⟨hactive, hitem⟩ := hworks
  rcases step_active ht.accounts.1 h with hkept | ⟨b, done, resume, hout, hb, hresult, rfl⟩
  · obtain ⟨a', ha', hitem', hset'⟩ := hkept a hactive
    exact Or.inl ⟨a', ⟨ha', hitem'.trans hitem⟩, hset' hset⟩
  · right
    rw [hactive] at hb
    cases hb
    -- a task that has returned has sent its reply
    obtain ⟨hsh, settled, dropped, hl⟩ := ht.accounts
    have hphase := ActiveExecution.phase_of_result hresult
    have hsettled : a.item ∈ settled :=
      hl.answering a hactive (by simp [ActiveExecution.replying, hphase])
    have hreply : a.item.order ∈ s.replies :=
      hl.replies.symm.subset (List.mem_map_of_mem hsettled)
    have hnone : a.out = [] := (hsh.active a hactive).finished _ hphase
    simp only [replies, activeOut, hactive, hout, hnone, tag, List.map_nil, repliesIn_nil,
      List.append_nil] at hreply
    rw [← hitem]
    exact hreply

theorem Gone.step (hg : s.Gone item) (ht : s.Traces) (hex : item.isExecute = true)
    (h : s.step services l = some s') :
    s'.Gone item ∧ s'.said item.order = s.said item.order := by
  have hapart : s.Apart item := by
    intro other hother hne heq
    obtain ⟨_, settled, dropped, hl⟩ := ht.accounts
    exact hne (hl.eq_of_order hother hg.taken heq)
  exact hg.of_lifeStep ht.accounts (step_life ht.accounts ht.comms hapart hex h)

/-! ## The stages of an interrupt -/

/-- Where a request is between the taking of an interrupt in `s` and `t`. -/
inductive Stage (s t : Shell) (item : QueueItem) : Prop
  /-- `abort_pending` has not come to it -/
  | applying (happlying : t.Applying item) (hcount : t.executionCount = s.executionCount)
  /-- it had been answered -/
  | answered (h : item.order ∈ repliesIn s.log) (hmem : item ∈ t.taken)
      (hw : item ∉ t.waiting)
  | active {a a' : ActiveExecution} (hactive : s.Works item a) (hactive' : t.Works item a')
      (hset : a'.interrupted = true)
  | finished {a : ActiveExecution} (hactive : s.Works item a)
      (h : item.order ∈ repliesIn t.log) (hmem : item ∈ t.taken) (hw : item ∉ t.waiting)
  | held (hheld : s.held = some item) (hgone : t.Gone item)
      (hsaid : t.said item.order =
        s.said item.order ++ (finishHold s.executionCount "interrupt").1)
  | aborted (hgone : t.Gone item) (hsaid : t.said item.order = abortExecute s.executionCount)

theorem Stage.outcome (h : Stage s t item) : t.Applying item ∨ Outcome s t item := by
  cases h with
  | applying happlying => exact Or.inl happlying
  | answered h => exact Or.inr (.answered h)
  | active hactive hactive' hset => exact Or.inr (.active hactive hactive' hset)
  | finished hactive h => exact Or.inr (.finished hactive h)
  | held hheld hgone hsaid => exact Or.inr (.held hheld hsaid)
  | aborted hgone hsaid => exact Or.inr (.aborted hsaid)

/-- What `abort_pending` does in one step. -/
theorem LoopRule.of_aborting (h : LoopRule services s l s') (habort : s.pc.aborting = true) :
    (∃ first rest, s.incoming = first :: rest ∧
        s' = { s with incoming := rest }.enqueue first) ∨
      ∃ release resume, s.incoming = [] ∧ s' = s.abortQueued release resume := by
  cases h with
  | abortIncoming hpc hincoming => exact Or.inl ⟨_, _, hincoming, rfl⟩
  | abort hpc hincoming => exact Or.inr ⟨_, _, hincoming, rfl⟩
  | _ => simp_all [Pc.aborting]

theorem item_of_aborting (habort : s.pc.aborting = true) : s.pc.item = none := by
  cases hpc : s.pc with
  | abort release resume => rfl
  | _ =>
      rw [hpc] at habort
      cases habort

/-- What happens beside the loop leaves the queue alone. -/
theorem Rule.loop_or_stay (h : Rule services t l t') :
    LoopRule services t l t' ∨
      (t'.pc = t.pc ∧ t'.queue = t.queue ∧ t'.executionCount = t.executionCount) := by
  cases h with
  | loop hout h => exact Or.inl h
  | _ => exact Or.inr ⟨rfl, rfl, rfl⟩

/-- Nothing has been said about a request that `abort_pending` has still to
come to. -/
theorem Applying.said (h : t.Applying item) (ht : t.Traces) (hex : item.isExecute = true) :
    t.said item.order = [] := by
  rcases h.2 with hqueue | ⟨hle, _⟩
  · have hwaits : t.Waits item := Or.inl hqueue
    have hmem := mem_taken_of_mem_waiting ht.accounts (mem_waiting_of_waits hwaits)
    exact ((ht.told item hex (Or.inl hmem)).of_waits ht.accounts hwaits).1
  · exact ((ht.told item hex (Or.inr hle)).of_unborn ht.accounts hle).1

/-- A request that `abort_pending` has not come to is left, enqueued, or
aborted by a step. -/
theorem Applying.step (happlying : t.Applying item) (ht : t.Traces)
    (hex : item.isExecute = true) (hitem : item = itemOf item.order item.inbound)
    (hcount : t.executionCount = s.executionCount) (h : t.step services l = some t') :
    Stage s t' item := by
  have hsaid := happlying.said ht hex
  obtain ⟨habort, hplace⟩ := happlying
  -- where the request is after a step that aborts nothing
  have hplace' : t.queue.items ⊆ t'.queue.items →
      item ∈ t'.queue.items ∨ t'.InChannel item.order item.inbound := by
    intro hsub
    rcases hplace with hqueue | hchannel
    · exact Or.inl (hsub hqueue)
    · rcases hchannel.step (step_mail h) with hchannel' | ⟨_, hqueue⟩
      · exact Or.inr hchannel'
      · left
        rw [hitem]
        exact hqueue
  rcases (step_rule h).loop_or_stay with hloop | ⟨hpc', hqueue', hcount'⟩
  · rcases hloop.of_aborting habort with ⟨first, rest, hincoming, rfl⟩ | ⟨release, resume, hincoming, rfl⟩
    · refine .applying ⟨habort, hplace' ?_⟩ hcount
      intro m hm
      exact Heap.mem_push.mpr (Or.inr hm)
    · have hqueue : item ∈ t.queue.items := by
        rcases hplace with hqueue | ⟨_, hget⟩
        · exact hqueue
        · rw [hincoming] at hget
          cases hget
      obtain ⟨hgone, hsaid'⟩ :=
        abortQueued_answers ht.accounts hex (item_of_aborting habort) hqueue
      refine .aborted hgone ?_
      rw [hsaid', hsaid, hcount]
      rfl
  · refine .applying ⟨by rw [hpc']; exact habort, hplace' ?_⟩ (hcount'.trans hcount)
    rw [hqueue']
    exact List.Subset.refl _

/-- Every stage is followed by a stage. -/
theorem Stage.step (hstage : Stage s t item) (ht : t.Traces) (hex : item.isExecute = true)
    (hitem : item = itemOf item.order item.inbound) (h : t.step services l = some t') :
    Stage s t' item := by
  have hsub := taken_subset_of_step ht.accounts h
  cases hstage with
  | applying happlying hcount => exact happlying.step ht hex hitem hcount h
  | answered hr hmem hw =>
      exact .answered hr (hsub hmem) (not_waiting_step ht.accounts h hmem hw)
  | active hactive hactive' hset =>
      have hmem := mem_taken_of_works ht.accounts hactive'
      have hw := not_mem_waiting_of_works ht.accounts hactive'
      rcases works_step ht h hactive' hset with ⟨b, hb, hset'⟩ | hr
      · exact .active hactive hb hset'
      · exact .finished hactive hr (hsub hmem) (not_waiting_step ht.accounts h hmem hw)
  | finished hactive hr hmem hw =>
      exact .finished hactive (replied_step h hr) (hsub hmem)
        (not_waiting_step ht.accounts h hmem hw)
  | held hheld hgone hsaid =>
      obtain ⟨hgone', hsaid'⟩ := hgone.step ht hex h
      exact .held hheld hgone' (hsaid'.trans hsaid)
  | aborted hgone hsaid =>
      obtain ⟨hgone', hsaid'⟩ := hgone.step ht hex h
      exact .aborted hgone' (hsaid'.trans hsaid)

/-- A request at any stage is not started. -/
theorem Stage.started_step (hstage : Stage s t item) (ht : t.Traces)
    (h : t.step services l = some t') (hstarted : item ∈ t'.started) : item ∈ t.started := by
  cases hstage with
  | applying happlying hcount =>
      rcases (step_turn h).started with hsame | ⟨m, hpc, hm, hmore⟩
      · exact hsame ▸ hstarted
      · -- nothing is started while `abort_pending` runs
        have habort := happlying.1
        rw [hpc] at habort
        cases habort
  | answered hr hmem hw => exact Shell.started_step h hw hstarted
  | active hactive hactive' hset =>
      exact Shell.started_step h (not_mem_waiting_of_works ht.accounts hactive') hstarted
  | finished hactive hr hmem hw => exact Shell.started_step h hw hstarted
  | held hheld hgone | aborted hgone => exact Shell.started_step h hgone.waiting hstarted

/-! ## The interrupt is taken -/

/-- Where an execute request is when the scheduler takes a control, if none
has been lost. -/
inductive Place (s : Shell) (n : Nat) (inbound : Inbound) : Prop
  | channel (h : s.InChannel n inbound)
  | queue (hmem : itemOf n inbound ∈ s.taken) (h : itemOf n inbound ∈ s.queue.items)
  | held (hmem : itemOf n inbound ∈ s.taken) (h : s.held = some (itemOf n inbound))
  | active {a : ActiveExecution} (h : s.Works (itemOf n inbound) a)
  | answered (hmem : itemOf n inbound ∈ s.taken) (h : n ∈ repliesIn s.log)

theorem Takes.place {c : ShellControl} {rest : List ShellControl} (htake : s.Takes c rest t)
    (hnl : s.NoLoss) (hmail : s.HasMail n inbound)
    (hex : (itemOf n inbound).isExecute = true) : Place s n inbound := by
  have hgood : s.endedBadly = false := endedBadly_of_isOpen htake.isOpen
  rcases hmail with hmem | hchannel
  · rcases hnl hgood _ hmem (isRequest_of_isExecute hex) with
      hqueue | hheld | ⟨a, ha, hitem⟩ | (hpc | hout) | hlog
    · exact .queue hmem hqueue
    · exact .held hmem hheld
    · exact .active ⟨ha, hitem⟩
    · rw [htake.item] at hpc
      cases hpc
    · rw [htake.out] at hout
      cases hout
    · exact .answered hmem hlog
  · exact .channel hchannel

/-- The state after an interrupt whose handler did not fail. -/
theorem Takes.marks {rest : List ShellControl} (htake : s.Takes .interrupt rest t)
    (habort : t.pc.aborting = true) :
    t.active = s.active.map (fun a => { a with interrupted := true }) ∧ t.queue = s.queue ∧
      t.incoming = s.incoming ∧ t.order = s.order ∧ t.executionCount = s.executionCount := by
  obtain ⟨resume, happly⟩ := htake.apply
  cases happly with
  | interruptFailed hactive => cases habort
  | _ => exact ⟨rfl, rfl, rfl, rfl, rfl⟩

/-- The interrupt finishes the hold. -/
theorem Takes.finishes {rest : List ShellControl} (htake : s.Takes .interrupt rest t)
    (habort : t.pc.aborting = true) (ha : s.Accounts) (hheld : s.held = some item) :
    t.Gone item ∧ t.said item.order =
      s.said item.order ++ (finishHold s.executionCount "interrupt").1 := by
  obtain ⟨resume, happly⟩ := htake.apply
  cases happly with
  | interruptFailed hactive => cases habort
  | interrupt hnone =>
      rw [hheld] at hnone
      cases hnone
  | @interruptHeld held hheld' =>
      obtain rfl : held = item := Option.some.inj (hheld'.symm.trans hheld)
      refine ⟨gone_of_leave ha (List.mem_singleton_self held) ?_ rfl
        (map_unmarked_interrupt s.active), ?_⟩
      · exact waiting_leave_held rfl htake.item.symm hheld rfl
      · simp [said, say, tag]

/-- Taking an interrupt whose handler does not fail brings every execute
request put so far to a stage, if none has been lost. -/
theorem stage_of_interrupt {rest : List ShellControl} (ht : s.Traces) (hnl : s.NoLoss)
    (h : s.step services l = some t) (htake : s.Takes .interrupt rest t)
    (habort : t.pc.aborting = true) (hmail : s.HasMail n inbound)
    (hex : (itemOf n inbound).isExecute = true) : Stage s t (itemOf n inbound) := by
  obtain ⟨hmark, hqueue, hincoming, horder, hcount⟩ := htake.marks habort
  cases htake.place hnl hmail hex with
  | channel hchannel =>
      refine .applying ⟨habort, Or.inr ?_⟩ hcount
      rw [InChannel, hincoming, horder]
      exact hchannel
  | queue hmem hin => exact .applying ⟨habort, Or.inl (by rw [hqueue]; exact hin)⟩ hcount
  | held hmem hheld =>
      obtain ⟨hgone, hsaid⟩ := htake.finishes habort ht.accounts hheld
      exact .held hheld hgone hsaid
  | @active a hworks =>
      have hworks' : t.Works (itemOf n inbound) { a with interrupted := true } := by
        refine ⟨?_, hworks.2⟩
        rw [hmark, hworks.1]
        rfl
      exact .active hworks hworks' rfl
  | answered hmem hr =>
      obtain ⟨_, settled, dropped, hl⟩ := ht.accounts
      have hw : itemOf n inbound ∉ s.waiting :=
        fun hw => hl.not_replied_of_waiting hw (List.mem_append_left _ hr)
      exact .answered hr (taken_subset_of_step ht.accounts h hmem)
        (not_waiting_step ht.accounts h hmem hw)

/-- Every execute request put to a shell before it takes an interrupt is
behind the fence, from the moment `abort_pending` has come to it and for
good. -/
theorem fenced_of_interrupt {rest : List ShellControl} (hr : Reachable services s)
    (hnl : s.NoLoss) (h : s.step services l = some s') (htake : s.Takes .interrupt rest s')
    (habort : s'.pc.aborting = true) (hreach : Lib.Reachable (Shell.step services) s' t)
    (hmail : s.HasMail n inbound) (hex : (itemOf n inbound).isExecute = true) :
    t.Applying (itemOf n inbound) ∨ Fenced s t (itemOf n inbound) := by
  have ht : s.Traces := traces_of_reachable hr
  have hinv : t.Traces ∧ Stage s t (itemOf n inbound) ∧
      (itemOf n inbound ∈ t.started → itemOf n inbound ∈ s.started) := by
    refine @Lib.Reachable.invariant _ _ _ _ _ (fun t => t.Traces ∧
      Stage s t (itemOf n inbound) ∧ (itemOf n inbound ∈ t.started → itemOf n inbound ∈ s.started))
      hreach ⟨traces_step ht h, stage_of_interrupt ht hnl h htake habort hmail hex, ?_⟩ ?_
    · obtain ⟨resume, happly⟩ := htake.apply
      cases happly with
      | _ => exact id
    · rintro a l' b ⟨hta, hstage, hstarted⟩ hstep
      exact ⟨traces_step hta hstep, hstage.step hta hex rfl hstep,
        fun hin => hstarted (hstage.started_step hta hstep hin)⟩
  rcases hinv.2.1.outcome with happlying | houtcome
  · exact Or.inl happlying
  · exact Or.inr ⟨houtcome, hinv.2.2⟩

end Shell

end Kernmini.Engine
