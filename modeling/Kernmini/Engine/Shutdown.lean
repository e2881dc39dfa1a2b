/-
Kernmini.Engine.Shutdown — what is running when a shell shuts its language
down.

`Shell::run` calls `language.shutdown()` in two places. After a `Stop` it
leaves only with nothing active. A `shutdown_request` of the shell channel is
no execute request, so `pop_runnable` returns it beside an active execution,
and `handle_item` leaves at once: nothing interrupts that execution. A run
shuts down over no execution that was not interrupted exactly when no such
request is handled beside one.

The input of an execution that was interrupted: after the flag is set and the
waiters are notified, the next poll of each of its requests ends with
`Interrupted`.
-/
import Kernmini.Engine.ShellTheorems
import Kernmini.Engine.StdinTheorems

namespace Kernmini.Engine

open Kernmini.Wire Kernmini.Lib

namespace Shell

variable {services : Services} {s t : Shell} {l : Label} {ls : List Label} {item : QueueItem}

/-! ## The active execution at a shutdown -/

/-- `language.shutdown()` is called, or is about to be. -/
def shuttingDown (s : Shell) : Bool :=
  match s.pc with
  | .shutdown _ => true
  | _ => false

/-- Nothing is active, or an interrupt was requested for it. -/
def ActiveSettled (s : Shell) : Prop := ∀ a ∈ s.active, a.interrupted = true

instance (s : Shell) : Decidable s.ActiveSettled :=
  inferInstanceAs (Decidable (∀ a ∈ s.active, a.interrupted = true))

/-- The language is not shut down under an execution that goes on. -/
def SettledShutdown (s : Shell) : Prop := s.shuttingDown = true → s.ActiveSettled

/-- The step handles a `shutdown_request` of the queue. -/
def handlesShutdown (s : Shell) (l : Label) : Bool :=
  match s.pc, l with
  | .handle item, .next _ => item.request.msgType = "shutdown_request"
  | _, _ => false

/-- A `shutdown_request` is handled only when no execution goes on. -/
def RequestedSettled (s : Shell) (l : Label) : Prop := s.handlesShutdown l = true → s.ActiveSettled

instance (s : Shell) (l : Label) : Decidable (s.RequestedSettled l) :=
  inferInstanceAs (Decidable (s.handlesShutdown l = true → s.ActiveSettled))

/-- A `shutdown_request` leads to the shutdown at once. -/
theorem handlesShutdown_step (hl : s.handlesShutdown l = true) (h : s.step services l = some t) :
    t.shuttingDown = true ∧ t.active = s.active := by
  unfold handlesShutdown at hl
  split at hl
  · next item o hpc =>
      have htype : item.request.msgType = "shutdown_request" := by simpa using hl
      have hmissing : missingFields item.request = [] := by
        simp [missingFields, requiredFields, htype]
      have hex : item.isExecute = false := by
        simp [QueueItem.isExecute, Message.isExecute, htype]
      simp only [step] at h
      split at h
      · simp only [Shell.next, hpc, Option.some.injEq] at h
        rw [← h]
        simp [handleItem, hex, handleShell, hmissing, htype, shuttingDown, say]
      · cases h
  · cases hl

/-- A step that does not lead to the shutdown. -/
theorem SettledShutdown.of_not (h : t.shuttingDown = false) : t.SettledShutdown := by
  intro hdown
  rw [h] at hdown
  cases hdown

/-- A step that stays where it is, and leaves the interrupts as they are. -/
theorem SettledShutdown.of_same (hs : s.SettledShutdown) (hpc : t.pc = s.pc)
    (hactive : s.ActiveSettled → t.ActiveSettled) : t.SettledShutdown := by
  intro hdown
  refine hactive (hs ?_)
  simpa [shuttingDown, hpc] using hdown

theorem shuttingDown_resume {resume : Resume} (h : t.pc = resume.pc) : t.shuttingDown = false := by
  unfold shuttingDown
  rw [h]
  cases resume <;> rfl

theorem ApplyRule.not_shuttingDown {c : ShellControl} {resume : Resume} (h : ApplyRule s resume c t) :
    t.shuttingDown = false := by
  cases h with
  | notHeld | stop => exact shuttingDown_resume rfl
  | _ => rfl

theorem executionDone_not_shuttingDown (done : ExecutionDone) (resume : Resume) :
    (s.executionDone done resume).shuttingDown = false := by
  by_cases habort : (done.failed && done.stopOnError && !s.interrupting) = true
  · simp [executionDone, shuttingDown, habort]
  · exact shuttingDown_resume (if_neg habort)

theorem failItem_not_shuttingDown (s : Shell) (item : QueueItem) (error : Error) :
    (s.failItem item error).shuttingDown = false := by
  by_cases hclosed : error.kind = .closed <;> simp [failItem, shuttingDown, hclosed]

theorem abortQueued_not_shuttingDown (release : Option Nat) (resume : Resume) :
    (s.abortQueued release resume).shuttingDown = false := by
  cases release with
  | none => exact shuttingDown_resume rfl
  | some complete => rfl

theorem HandleItemRule.not_shuttingDown (h : HandleItemRule services s item t)
    (htype : item.request.msgType ≠ "shutdown_request") : t.shuttingDown = false := by
  cases h with
  | shell hex h =>
      cases h with
      | shutdown hshutdown => exact absurd hshutdown htype
      | kernelInfoFailed => exact failItem_not_shuttingDown _ _ _
      | _ => rfl
  | _ => rfl

/-- Every other step keeps to it. -/
theorem settledShutdown_step (hs : s.SettledShutdown) (hl : s.handlesShutdown l = false)
    (h : s.step services l = some t) : t.SettledShutdown := by
  cases step_rule h with
  | loop hout h =>
      cases h with
      | leave hpc hstopping hqueue hactive hheld =>
          intro _ a ha
          have hnone : s.active = some a := ha
          rw [hactive] at hnone
          cases hnone
      | takeControl hpc hcontrols h | selectControl hpc hcontrols h =>
          exact .of_not h.not_shuttingDown
      | reap | selectDone => exact .of_not (executionDone_not_shuttingDown _ _)
      | handle hpc h =>
          refine .of_not (h.not_shuttingDown ?_)
          simpa [handlesShutdown, hpc] using hl
      | callFailed => exact .of_not (failItem_not_shuttingDown _ _ _)
      | abort => exact .of_not (abortQueued_not_shuttingDown _ _)
      | answer => exact .of_not (shuttingDown_resume rfl)
      | takeIncoming | abortIncoming => exact hs.of_same rfl id
      | _ => exact .of_not rfl
  | task hactive hrunning hstep =>
      refine hs.of_same rfl ?_
      intro hsettled a ha
      cases ha
      rw [(ActiveExecution.sameTask_of_step hstep).interrupted]
      exact hsettled _ hactive
  | dropped hactive hclosed =>
      refine hs.of_same rfl ?_
      intro hsettled a ha
      cases ha
      have hsame := hsettled _ hactive
      exact hsame
  | _ => exact hs.of_same rfl id

/-- What a step does to it. -/
theorem settledShutdown_iff (hs : s.SettledShutdown) (h : s.step services l = some t) :
    t.SettledShutdown ↔ s.RequestedSettled l := by
  cases hl : s.handlesShutdown l with
  | false =>
      have ht := settledShutdown_step hs hl h
      simp [RequestedSettled, hl, ht]
  | true =>
      obtain ⟨hdown, hactive⟩ := handlesShutdown_step hl h
      simp [SettledShutdown, RequestedSettled, hl, hdown, ActiveSettled, hactive]

end Shell

/-! ## The input of an interrupted execution -/

namespace Stdin

variable {s t : Stdin} {l : StdinLabel} {token : Token}

/-- The interrupt was requested, and no request of it waits to be told. -/
structure Told (s : Stdin) (token : Token) : Prop where
  requested : s.requested token = true
  requests : ∀ id r, s.requests id = some r → r.interrupt = token → r.cancelled ≠ .parked

/-- What a step does to the interrupts and to the requests that wait for
them. -/
structure ParksFrom (s t : Stdin) : Prop where
  /-- an interrupt that was requested stays so -/
  requested : ∀ token, s.requested token = true → t.requested token = true
  /-- a request parks only while its interrupt is not requested -/
  parks : ∀ id r', t.requests id = some r' → r'.cancelled = .parked →
    ∃ r, s.requests id = some r ∧ r.interrupt = r'.interrupt ∧
      (r.cancelled = .parked ∨ s.requested r.interrupt = false)

theorem ParksFrom.of_eq (hrequested : ∀ token, s.requested token = true → t.requested token = true)
    (h : t.requests = s.requests) : ParksFrom s t := by
  refine ⟨hrequested, ?_⟩
  intro id r hr hparked
  rw [h] at hr
  exact ⟨r, hr, rfl, .inl hparked⟩

theorem ParksFrom.map {f : Request → Request} (hrequested : t.requested = s.requested)
    (ht : t.requests = (s.mapRequests f).requests)
    (hf : ∀ r, (f r).interrupt = r.interrupt ∧ ((f r).cancelled = .parked → r.cancelled = .parked)) :
    ParksFrom s t := by
  refine ⟨fun token h => hrequested ▸ h, ?_⟩
  intro id r' hr' hparked
  rw [ht] at hr'
  obtain ⟨r, hr, rfl⟩ := Option.map_eq_some_iff.mp hr'
  exact ⟨r, hr, (hf r).1.symm, .inl ((hf r).2 hparked)⟩

/-- One request changes, or is new. -/
theorem ParksFrom.update {id : String} {request : Option Request}
    (hrequested : t.requested = s.requested)
    (ht : t.requests = Function.update s.requests id request)
    (hparks : ∀ r', request = some r' → r'.cancelled = .parked →
      ∃ r, s.requests id = some r ∧ r.interrupt = r'.interrupt ∧
        (r.cancelled = .parked ∨ s.requested r.interrupt = false)) : ParksFrom s t := by
  refine ⟨fun token h => hrequested ▸ h, ?_⟩
  intro id' r' hr' hparked
  rw [ht] at hr'
  by_cases hid : id' = id
  · subst hid
    rw [Function.update_self] at hr'
    exact hparks r' hr' hparked
  · rw [Function.update_of_ne hid] at hr'
    exact ⟨r', hr', rfl, .inl hparked⟩

theorem ParksFrom.set {id : String} {r r' : Request} (hr : s.requests id = some r)
    (hrequested : t.requested = s.requested) (ht : t.requests = (s.setRequest id r').requests)
    (hinterrupt : r'.interrupt = r.interrupt)
    (hparked : r'.cancelled = .parked → r.cancelled = .parked ∨ s.requested r.interrupt = false) :
    ParksFrom s t := by
  refine .update hrequested ht ?_
  intro r₁ hr₁ hcancelled
  cases hr₁
  exact ⟨r, hr, hinterrupt.symm, hparked hcancelled⟩

/-- A poll parks only a request whose interrupt was not requested. -/
theorem poll_parks {r r' : Request} {place : Place} {stage : Stage}
    (h : s.poll r place stage = some r') : r'.interrupt = r.interrupt ∧
      (r'.cancelled = .parked → r.cancelled = .parked ∨ s.requested r.interrupt = false) := by
  unfold poll at h
  split at h
  · split at h
    · split at h
      · cases h
        exact ⟨rfl, .inl⟩
      · next hrequested =>
          cases h
          exact ⟨rfl, fun _ => .inr (by simpa using hrequested)⟩
    · cases h
      exact ⟨rfl, .inl⟩
    · cases h
      exact ⟨rfl, .inl⟩
  · split at h
    · cases h
      exact ⟨rfl, .inl⟩
    · split at h <;> cases h <;> exact ⟨rfl, .inl⟩
    · cases h
      exact ⟨rfl, .inl⟩
    · cases h
      exact ⟨rfl, .inl⟩
    · split at h <;> cases h <;> exact ⟨rfl, .inl⟩
    · split at h <;> cases h <;> exact ⟨rfl, .inl⟩
  · split at h
    · cases h
      exact ⟨rfl, .inl⟩
    · cases h
      exact ⟨rfl, .inl⟩
    · cases h
      exact ⟨rfl, .inl⟩
    · cases h

theorem wakePeers_parks (r : Request) : r.wakePeers.interrupt = r.interrupt ∧
    (r.wakePeers.cancelled = .parked → r.cancelled = .parked) := by
  unfold Request.wakePeers
  split <;> exact ⟨rfl, id⟩

theorem wakeInterrupt_parks (token : Token) (r : Request) :
    (r.wakeInterrupt token).interrupt = r.interrupt ∧
      ((r.wakeInterrupt token).cancelled = .parked → r.cancelled = .parked) := by
  unfold Request.wakeInterrupt
  split
  · exact ⟨rfl, nofun⟩
  · exact ⟨rfl, id⟩

theorem parksFrom_step (h : s.step l = some t) : ParksFrom s t := by
  cases l with
  | connect k identity =>
      simp only [step] at h
      split at h <;> cases h
      exact .of_eq (fun _ hrequested => hrequested) rfl
  | announce k =>
      simp only [step] at h
      split at h
      · split at h <;> cases h
        exact .map rfl rfl wakePeers_parks
      · cases h
  | arrive k message =>
      simp only [step] at h
      split at h
      · split at h <;> cases h
        exact .of_eq (fun _ hrequested => hrequested) rfl
      · cases h
  | lose k error =>
      simp only [step] at h
      split at h
      · split at h <;> cases h
        exact .of_eq (fun _ hrequested => hrequested) rfl
      · cases h
  | unregister k =>
      simp only [step] at h
      split at h
      · split at h <;> cases h
        exact .of_eq (fun _ hrequested => hrequested) rfl
      · cases h
  | interrupt token =>
      cases h
      refine .of_eq (fun other hother => ?_) rfl
      by_cases htoken : other = token <;> simp [htoken, hother]
  | notify token =>
      simp only [step] at h
      split at h <;> cases h
      exact .map rfl rfl (wakeInterrupt_parks token)
  | request id identity token =>
      simp only [step] at h
      split at h
      · cases h
        refine .update rfl rfl ?_
        intro r' hr' hparked
        cases hr'
        cases hparked
      · cases h
  | advance id =>
      simp only [step] at h
      split at h
      · next r hr =>
          split at h
          · cases h
            exact .set hr rfl rfl rfl .inl
          · obtain ⟨r', hpoll, rfl⟩ := Option.map_eq_some_iff.mp h
            obtain ⟨hinterrupt, hparks⟩ := poll_parks hpoll
            exact .set hr rfl rfl hinterrupt hparks
          · cases h
            exact .set hr rfl rfl rfl .inl
          · cases h
      · cases h
  | sent id result =>
      simp only [step] at h
      split at h
      · next r hr =>
          split at h <;> cases h <;> exact .set hr rfl rfl rfl .inl
      · cases h
  | pend id =>
      simp only [step] at h
      split at h
      · next r hr =>
          split at h <;> cases h <;> exact .set hr rfl rfl rfl .inl
      · cases h
  | take =>
      simp only [step] at h
      split at h <;> cases h
      exact .of_eq (fun _ hrequested => hrequested) rfl
  | handle order =>
      obtain ⟨inbound, htask, _, hhandles⟩ := handles_of_step h
      cases hhandles with
      | ignored => exact .of_eq (fun _ hrequested => hrequested) rfl
      | matched htype hkey =>
          refine .update rfl rfl ?_
          intro r' hr' hparked
          obtain ⟨r, hr, rfl⟩ := Option.map_eq_some_iff.mp hr'
          exact ⟨r, hr, rfl, .inl hparked⟩

theorem told_step (hs : s.Told token) (h : s.step l = some t) : t.Told token where
  requested := (parksFrom_step h).requested token hs.requested
  requests := by
    intro id r' hr' htoken hparked
    obtain ⟨r, hr, hinterrupt, hfrom⟩ := (parksFrom_step h).parks id r' hr' hparked
    have hr_token : r.interrupt = token := hinterrupt.trans htoken
    rcases hfrom with hwas | hunset
    · exact hs.requests id r hr hr_token hwas
    · rw [hr_token, hs.requested] at hunset
      cases hunset

/-- `notify_waiters()` tells every request that waits. -/
theorem told_of_notify (h : s.step (.notify token) = some t) : t.Told token := by
  simp only [step] at h
  split at h
  · next hrequested =>
      cases h
      refine ⟨hrequested, ?_⟩
      intro id r' hr' htoken hparked
      obtain ⟨r, hr, rfl⟩ := Option.map_eq_some_iff.mp hr'
      obtain ⟨hsame, hwas⟩ := wakeInterrupt_parks token r
      have hmatch : r.interrupt = token ∧ r.cancelled = .parked :=
        ⟨hsame.symm.trans htoken, hwas hparked⟩
      rw [Request.wakeInterrupt, if_pos hmatch] at hparked
      cases hparked
  · cases h

theorem told_of_run {labels : List StdinLabel} (h : run Stdin.step s labels = some t)
    (hnotify : .notify token ∈ labels) : t.Told token := by
  obtain ⟨before, after, rfl⟩ := List.append_of_mem hnotify
  obtain ⟨mid, _, hrest⟩ := run_append_eq_some.mp h
  obtain ⟨told, hstep, hafter⟩ := run_cons_eq_some.mp hrest
  exact run_invariant (fun _ _ _ hs hstep => told_step hs hstep) hafter (told_of_notify hstep)

/-- The next poll of a request that was told ends it. -/
theorem Told.returns {id : String} {r : Request} {place : Place} (hs : s.Told token)
    (hr : s.requests id = some r) (htoken : r.interrupt = token)
    (hpc : r.pc = .select place .idle) :
    ∃ u r', run Stdin.step s [.advance id, .advance id] = some u ∧ u.requests id = some r' ∧
      r'.pc = .returned (.error .interrupted) := by
  have hpoll : s.poll r place .idle = some (r.leave (.error .interrupted)) := by
    have hnot := hs.requests id r hr htoken
    unfold poll
    cases hcancelled : r.cancelled with
    | unpolled => simp [htoken, hs.requested]
    | parked => exact absurd hcancelled hnot
    | notified => rfl
  have hleft : s.step (.advance id) = some (s.setRequest id (r.leave (.error .interrupted))) := by
    simp [step, hr, hpc, hpoll]
  have hreturned : ∃ u r',
      (s.setRequest id (r.leave (.error .interrupted))).step (.advance id) = some u ∧
      u.requests id = some r' ∧ r'.pc = .returned (.error .interrupted) := by
    simp [step, setRequest, Request.leave]
  obtain ⟨u, r', hu, hr', hpc'⟩ := hreturned
  have hrun : run Stdin.step s [.advance id, .advance id] = some u :=
    run_cons_eq_some.mpr ⟨_, hleft, run_cons_eq_some.mpr ⟨_, hu, rfl⟩⟩
  exact ⟨u, r', hrun, hr', hpc'⟩

end Stdin

/-! ## Shutting down -/

namespace Shell

variable {services : Services} {t : Shell} {ls : List Label}

/-- A shell shuts its language down over no execution that goes on, throughout
a run, exactly when no `shutdown_request` of its queue is handled beside one.
Where an interrupt was requested and its waiters were notified, a pending
`input()` of that execution returns `Interrupted` at its next poll. -/
theorem shutdown_settled_iff (hrun : run (step services) {} ls = some t) :
    (Throughout (step services) SettledShutdown {} ls ↔
      StepsMeet (step services) RequestedSettled {} ls) ∧
    ∀ (labels : List StdinLabel) (stdin : Stdin) (token : Token) (id : String) (r : Request)
      (place : Engine.Place), run Stdin.step {} labels = some stdin → .notify token ∈ labels →
      stdin.requests id = some r → r.interrupt = token → r.pc = .select place .idle →
        ∃ u r', run Stdin.step stdin [.advance id, .advance id] = some u ∧
          u.requests id = some r' ∧ r'.pc = .returned (.error .interrupted) := by
  refine ⟨?_, ?_⟩
  · refine throughout_iff_stepsMeet (fun _ _ _ _ _ => trivial)
      (fun _ _ _ _ hs h => settledShutdown_iff hs h) hrun trivial ?_
    exact .of_not rfl
  · intro labels stdin token id r place hstdin hnotify hr htoken hpc
    exact (Stdin.told_of_run hstdin hnotify).returns hr htoken hpc

def shutdownRequest : Inbound :=
  { message := { header := [("msg_id", .string "end"), ("msg_type", .string "shutdown_request")] }
    reply := 0
    identity := [] }

/-- The cell that runs is interrupted, and then the shell is shut down. -/
def shutdownInterrupted : List Label :=
  popMessage (cell "a" 0 false) ++ [.next quiet, .control .interrupt, .deliver shutdownRequest] ++
    List.replicate 10 (.next quiet)

/-- An `input()` waits for its answer when its execution is interrupted. -/
def promptInterrupted : List StdinLabel :=
  [.connect 0 [7], .announce 0, .request "a" [7] 0] ++ Stdin.prompt "a" ++ [.interrupt 0, .notify 0]

theorem shutdown_settled_interrupted :
    ∃ t stdin u r', run (step plainServices) {} shutdownInterrupted = some t ∧
      t.shuttingDown = true ∧ t.active.map (·.interrupted) = some true ∧
      Throughout (step plainServices) SettledShutdown {} shutdownInterrupted ∧
      run Stdin.step {} promptInterrupted = some stdin ∧
      run Stdin.step stdin [.advance "a", .advance "a"] = some u ∧
      u.requests "a" = some r' ∧ r'.pc = .returned (.error .interrupted) := by
  obtain ⟨t, hrun, hdown, hactive⟩ : ∃ t, run (step plainServices) {} shutdownInterrupted = some t ∧
      t.shuttingDown = true ∧ t.active.map (·.interrupted) = some true := ⟨_, rfl, rfl, rfl⟩
  obtain ⟨stdin, r, place, hstdin, hr, htoken, hpc⟩ : ∃ stdin r place,
      run Stdin.step {} promptInterrupted = some stdin ∧ stdin.requests "a" = some r ∧
      r.interrupt = 0 ∧ r.pc = .select place .idle := ⟨_, _, _, rfl, rfl, rfl, rfl⟩
  obtain ⟨hiff, hinput⟩ := shutdown_settled_iff hrun
  obtain ⟨u, r', hu, hr', hpc'⟩ :=
    hinput promptInterrupted stdin 0 "a" r place hstdin (by simp [promptInterrupted]) hr htoken hpc
  exact ⟨t, stdin, u, r', hrun, hdown, hactive, hiff.mpr (by decide +kernel), hstdin, hu, hr', hpc'⟩

/-- A `shutdown_request` behind a cell that runs: the language is shut down
while the cell goes on, and nothing interrupts it. -/
theorem shutdown_under_running_cell :
    ∃ t, run (step plainServices) {}
        (popMessage (cell "a" 0 false) ++ [Label.next quiet] ++ popMessage shutdownRequest ++
          [Label.next quiet, Label.emit]) = some t ∧
      t.pc = .shutdown true ∧ t.out = [] ∧ t.active.map (·.interrupted) = some false := by
  exact ⟨_, rfl, rfl, rfl, rfl⟩

end Shell

end Kernmini.Engine
