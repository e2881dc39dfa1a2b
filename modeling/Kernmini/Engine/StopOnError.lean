/-
Kernmini.Engine.StopOnError — on whose account requests are aborted, and what
the flag `stop_on_error` of that request says.

`execution_done` looks at the flag before it calls `abort_pending`. The other
callers do not: the answer to a request with missing fields, a release with a
failing status, and the timeout of a hold. An observer (`watchBlame`) notes for
each aborted request the request whose failure led to it, none for an
interrupt.
-/
import Kernmini.Engine.InterruptWindow

namespace Kernmini.Engine

open Kernmini.Wire Kernmini.Lib

/-! ## The flag of an execution -/

/-- The result of a task carries the flag of its request. -/
def ActiveExecution.Flagged (a : ActiveExecution) : Prop :=
  ∀ done, a.phase = .finishing (.ok done) ∨ a.phase = .finished (.ok done) →
    done.stopOnError = stopOnError a.item.request

theorem stopOnError_finishExecution {request : Message} {silent : Bool} {n : Nat}
    {outcome : Except Error ExecuteOutcome} {done : ExecutionDone}
    (h : (finishExecution request silent n outcome).2 = .ok done) :
    done.stopOnError = stopOnError request := by
  cases outcome with
  | ok outcome =>
      cases h
      rfl
  | error error =>
      simp only [finishExecution] at h
      split at h
      · cases h
      · cases h
        rfl

theorem ActiveExecution.flagged_step {a a' : ActiveExecution} {l : TaskLabel} {es : List Emission}
    (ha : a.Flagged) (h : a.step l = some (a', es)) : a'.Flagged := by
  intro done hdone
  cases step_rule h with
  | emit | accept => exact ha done hdone
  | returned hphase hout => rcases hdone with hdone | hdone <;> cases hdone
  | panic hphase hout => rcases hdone with hdone | hdone <;> cases hdone
  | pump hpump => exact ha done hdone
  | flushed hphase hflushed =>
      rcases hdone with hdone | hdone
      · exact stopOnError_finishExecution (TaskPhase.finishing.inj hdone)
      · cases hdone
  | finish hphase hout =>
      rcases hdone with hdone | hdone
      · cases hdone
      · rw [TaskPhase.finished.inj hdone] at hphase
        exact ha done (.inl hphase)

theorem ActiveExecution.Flagged.result {a : ActiveExecution} (ha : a.Flagged) {done : ExecutionDone}
    (h : a.result = some (.ok done)) : done.stopOnError = stopOnError a.item.request :=
  ha done (.inr (phase_of_result h))

namespace Shell

variable {services : Services} {s s' : Shell} {l : Label} {ls : List Label} {item : QueueItem}

theorem ApplyRule.flagged_active {c : ShellControl} {resume : Resume} {rest : List ShellControl}
    (h : ApplyRule { s with controls := rest } resume c s') (hs : ∀ a ∈ s.active, a.Flagged) :
    ∀ a ∈ s'.active, a.Flagged := by
  have hmark : ∀ a' ∈ s.active.map (fun a : ActiveExecution => { a with interrupted := true }),
      a'.Flagged := by
    intro a' ha'
    obtain ⟨a, ha, rfl⟩ := Option.mem_map.mp ha'
    exact hs a ha
  cases h with
  | interruptFailed | interruptHeld | interrupt => exact hmark
  | _ => exact hs

theorem flagged_step (hs : ∀ a ∈ s.active, a.Flagged) (h : s.step services l = some s') :
    ∀ a ∈ s'.active, a.Flagged := by
  cases step_rule h with
  | loop hout h =>
      cases h with
      | takeControl hpc hcontrols h | selectControl hpc hcontrols h => exact h.flagged_active hs
      | reap | selectDone => exact fun a ha => by cases ha
      | handle hpc h =>
          cases h with
          | shell hex h => cases h <;> exact hs
          | execute hex hinterrupting hhold =>
              intro a ha done hdone
              cases ha
              rcases hdone with hdone | hdone <;> cases hdone
          | _ => exact hs
      | _ => exact hs
  | task hactive hrunning hstep =>
      intro a ha
      cases ha
      exact ActiveExecution.flagged_step (hs _ hactive) hstep
  | dropped hactive hclosed =>
      intro a ha
      cases ha
      have hflag := hs _ hactive
      exact hflag
  | _ => exact hs

/-! ## On whose account -/

/-- The request whose failure a step into `abort_pending` is about; none when
it is an interrupt. -/
def blamedBy (s : Shell) (l : Label) : Option QueueItem :=
  match s.pc, l with
  | .handle item, _ => some item
  | .reap, _ => s.active.map ActiveExecution.item
  | .drainControls, _ =>
      match s.controls with
      | .release _ _ _ :: _ => s.held
      | _ => none
  | .select, .selectControl _ =>
      match s.controls with
      | .release _ _ _ :: _ => s.held
      | _ => none
  | .select, .selectDone => s.active.map ActiveExecution.item
  | .select, .selectTimeout => s.held
  | _, _ => none

/-- What the observer remembers of `abort_pending`. -/
structure BlameNotes where
  /-- the request on whose account it is running -/
  blamed : Option QueueItem := none
  /-- the requests it has answered, with that request -/
  aborted : List (QueueItem × Option QueueItem) := []

/-- The note of one step. -/
def watchBlame (s : Shell) (l : Label) (s' : Shell) (n : BlameNotes) : BlameNotes :=
  { blamed :=
      if s'.pc.aborting then if s.pc.aborting then n.blamed else s.blamedBy l else none
    aborted := n.aborted ++ (s.abortedBy l).map (·, n.blamed) }

/-- The held request, if the next control releases it with a failing status. -/
def releasedAsFailed (s : Shell) : Option QueueItem :=
  match s.controls, s.held with
  | .release msgId releaseStatus _ :: _, some held =>
      if held.request.msgId = msgId ∧ (releaseError releaseStatus).isSome then some held else none
  | _, _ => none

/-- The request that a step finds failed where nothing looks at the flag:
missing fields, a release with a failing status, a timeout. -/
def failsUnseen (s : Shell) (l : Label) : Option QueueItem :=
  match s.pc, l with
  | .handle item, .next _ =>
      if item.isExecute && !(missingFields item.request).isEmpty then some item else none
  | .drainControls, .next _ => s.releasedAsFailed
  | .select, .selectControl _ => s.releasedAsFailed
  | .select, .selectTimeout => s.held
  | _, _ => none

/-- A request that fails in one of these ways has the flag set. -/
def FailsFlagged (s : Shell) (l : Label) : Prop :=
  ∀ item ∈ s.failsUnseen l, stopOnError item.request = true

instance (s : Shell) (l : Label) : Decidable (s.FailsFlagged l) :=
  inferInstanceAs (Decidable (∀ item ∈ s.failsUnseen l, stopOnError item.request = true))

theorem releaseError_of_failed {n : Nat} {releaseStatus : String}
    (h : (finishHold n releaseStatus).2 = true) : (releaseError releaseStatus).isSome = true := by
  unfold finishHold at h
  split at h
  · next herror => rw [herror]; rfl
  · cases h

theorem ApplyRule.flagged {c : ShellControl} {resume : Resume} {rest : List ShellControl}
    (h : ApplyRule { s with controls := rest } resume c s') (hcontrols : s.controls = c :: rest)
    (hok : ∀ item ∈ s.releasedAsFailed, stopOnError item.request = true)
    (habort : s'.pc.aborting = true)
    (hblamed : (match s.controls with
      | .release _ _ _ :: _ => s.held
      | _ => none) = some item) : stopOnError item.request = true := by
  rw [hcontrols] at hblamed
  cases h with
  | release => cases habort
  | releaseFailed hheld hid hfailed =>
      have hsame : s.held = some item := hblamed
      have hheld' : s.held = some _ := hheld
      rw [hsame] at hheld'
      cases hheld'
      refine hok item ?_
      simp [releasedAsFailed, hcontrols, hsame, hid, releaseError_of_failed hfailed]
  | notHeld => simp at habort
  | stop => simp at habort
  | interruptFailed | interruptHeld | interrupt => cases hblamed

/-- An execution that is reaped into `abort_pending` has the flag set. -/
theorem executionDone_flagged {a : ActiveExecution} {done : ExecutionDone} {resume : Resume}
    (hflag : ∀ a ∈ s.active, a.Flagged) (hactive : s.active = some a)
    (hresult : a.result = some (.ok done))
    (habort : (s.executionDone done resume).pc.aborting = true)
    (hblamed : s.active.map ActiveExecution.item = some item) :
    stopOnError item.request = true := by
  rw [hactive] at hblamed
  cases hblamed
  rw [← (hflag a hactive).result hresult]
  exact (executionDone_aborting habort).2.1

theorem failItem_not_aborting (s : Shell) (item : QueueItem) (error : Error) :
    (s.failItem item error).pc.aborting = false := by
  simp only [failItem]
  split <;> rfl

/-- A request that is to blame for a call of `abort_pending` has the flag set. -/
theorem flag_of_blamed (hflag : ∀ a ∈ s.active, a.Flagged) (hok : s.FailsFlagged l)
    (h : s.step services l = some s') (hbefore : s.pc.aborting = false)
    (habort : s'.pc.aborting = true) (hblamed : s.blamedBy l = some item) :
    stopOnError item.request = true := by
  have hsame : s'.pc = s.pc → stopOnError item.request = true := by
    intro hpc
    rw [hpc, hbefore] at habort
    cases habort
  cases step_rule h with
  | loop hout h =>
      cases h with
      | takeControl hpc hcontrols h =>
          simp only [blamedBy, hpc] at hblamed
          simp only [FailsFlagged, failsUnseen, hpc] at hok
          exact h.flagged hcontrols hok habort hblamed
      | selectControl hpc hcontrols h =>
          simp only [blamedBy, hpc] at hblamed
          simp only [FailsFlagged, failsUnseen, hpc] at hok
          exact h.flagged hcontrols hok habort hblamed
      | reap hpc hactive hresult =>
          simp only [blamedBy, hpc] at hblamed
          exact executionDone_flagged hflag hactive hresult habort hblamed
      | selectDone hpc hactive hresult =>
          simp only [blamedBy, hpc] at hblamed
          exact executionDone_flagged hflag hactive hresult habort hblamed
      | selectTimeout hpc hheld =>
          simp only [blamedBy, hpc] at hblamed
          simp only [FailsFlagged, failsUnseen, hpc] at hok
          exact hok item hblamed
      | handle hpc h =>
          simp only [blamedBy, hpc] at hblamed
          cases hblamed
          cases h with
          | missing hex hmissing =>
              simp only [FailsFlagged, failsUnseen, hpc] at hok
              exact hok item (by simp [hex, hmissing])
          | shell hex h =>
              cases h with
              | kernelInfoFailed => rw [failItem_not_aborting] at habort; cases habort
              | _ => cases habort
          | _ => cases habort
      | callFailed hpc => rw [failItem_not_aborting] at habort; cases habort
      | answer hpc => simp at habort
      | abort hpc | abortIncoming hpc => rw [hpc] at hbefore; cases hbefore
      | takeIncoming hpc => exact hsame rfl
      | _ => cases habort
  | _ => exact hsame rfl

/-! ## Whole runs -/

/-- The observer blames only requests with the flag. -/
structure BlameFlagged (o : Observed Shell BlameNotes) : Prop where
  active : ∀ a ∈ o.state.active, a.Flagged
  blamed : ∀ item ∈ o.notes.blamed, stopOnError item.request = true
  aborted : ∀ other item, (other, some item) ∈ o.notes.aborted → stopOnError item.request = true

theorem blameFlagged_step {o o' : Observed Shell BlameNotes} (ho : BlameFlagged o)
    (hok : o.state.FailsFlagged l) (h : observe (step services) watchBlame o l = some o') :
    BlameFlagged o' := by
  obtain ⟨hstep, hnotes⟩ := observe_cases h
  refine ⟨flagged_step ho.active hstep, ?_, ?_⟩
  · rw [hnotes]
    intro item hitem
    simp only [watchBlame] at hitem
    split at hitem
    · next habort =>
        split at hitem
        · exact ho.blamed item hitem
        · next hbefore =>
            exact flag_of_blamed ho.active hok hstep (by simpa using hbefore) habort hitem
    · cases hitem
  · rw [hnotes]
    intro other item hmem
    rcases List.mem_append.mp hmem with hold | hnew
    · exact ho.aborted other item hold
    · obtain ⟨_, _, heq⟩ := List.mem_map.mp hnew
      exact ho.blamed item (Prod.mk.inj heq).2

/-- In every run in which the requests that are answered for missing fields,
released with a failing status or timed out have `stop_on_error` set, no
request is aborted on account of one that has it unset. -/
theorem stop_on_error_honoured {o : Observed Shell BlameNotes}
    (hrun : run (observe (step services) watchBlame) ⟨{}, {}⟩ ls = some o)
    (hflagged : StepsMeet (step services) FailsFlagged {} ls) :
    ∀ other item, (other, some item) ∈ o.notes.aborted → stopOnError item.request = true := by
  have hmeets : StepsMeet (observe (step services) watchBlame) (fun o l => o.state.FailsFlagged l)
      ⟨{}, {}⟩ ls := StepsMeet.observe hflagged
  have hinit : BlameFlagged ⟨{}, {}⟩ :=
    ⟨by simp, by simp, by simp⟩
  exact (run_invariant_of_meets (fun a l b ha hok hab => blameFlagged_step ha hok hab)
    hrun hmeets hinit).aborted

/-- A hold that fails aborts the cell behind it, and it has the flag set. -/
theorem stop_on_error_honoured_release :
    ∃ o other item, run (observe (step plainServices) watchBlame) ⟨{}, {}⟩
        (parkCell (cell "a" 0 true) ++ releaseFailed) = some o ∧
      o.notes.aborted = [(other, some item)] ∧ other.request.msgId = "b" ∧
      item.request.msgId = "a" ∧ stopOnError item.request = true := by
  have hrun : run (observe (step plainServices) watchBlame) ⟨{}, {}⟩
      (parkCell (cell "a" 0 true) ++ releaseFailed) = some _ := rfl
  refine ⟨_, _, _, hrun, rfl, by decide, by decide, ?_⟩
  exact stop_on_error_honoured hrun (by decide) _ _ (List.mem_singleton.mpr rfl)

/-- A held cell with `stop_on_error` false. -/
def unflaggedHold (msgId : String) : Inbound :=
  { message :=
      { header := [("msg_id", .string msgId), ("msg_type", .string "execute_request")]
        metadata := [("hold", .bool true)]
        content := .object [("code", .string ""), ("stop_on_error", .bool false)] }
    reply := 0
    identity := [] }

/-- The hold is released with an error, and the cell behind it is aborted. -/
theorem stop_on_error_ignored_by_release :
    ∃ o other item, run (observe (step plainServices) watchBlame) ⟨{}, {}⟩
        (parkCell (unflaggedHold "a") ++ releaseFailed) = some o ∧
      o.notes.aborted = [(other, some item)] ∧ other.request.msgId = "b" ∧
      item.request.msgId = "a" ∧ stopOnError item.request = false ∧
      repliesIn o.state.log = [0, 1] := by
  have hrun : run (observe (step plainServices) watchBlame) ⟨{}, {}⟩
      (parkCell (unflaggedHold "a") ++ releaseFailed) = some _ := rfl
  exact ⟨_, _, _, hrun, rfl, by decide, by decide, by decide, by decide⟩

end Shell

end Kernmini.Engine
