/-
Kernmini.Engine.CommOutput — one comm message in a shell, beside its
producers, its output pump and other publishers.

As in `Completion`, the call returns first and the flush marker follows, and a
producer that kept its context may emit at any time. `handle_shell` awaits
`language.message(..)` with `?`: when the call succeeds the marker orders the
output before everything that follows, and when it fails `handle_item` reports
the failure at once, with no marker. `execute` flushes before it looks at the
outcome. `tracks_step` connects this model with the steps of a shell.
-/
import Kernmini.Engine.Completion
import Kernmini.Engine.Statuses

namespace Kernmini.Engine

open Kernmini.Wire Kernmini.Lib

/-! ## The system -/

/-- Where `handle_item` is with a comm message. -/
inductive CommPhase where
  /-- at `language.message(..).await` -/
  | calling
  /-- the call succeeded; `output.flush()` has not sent its marker yet -/
  | returned
  | flushing
  /-- what is left is to send the messages of `report_failure`, if any -/
  | leaving
  /-- `handle_item` returned, and the scheduler goes on to its next item -/
  | left
  deriving DecidableEq

structure CommTurn where
  request : Message
  executionCount : Nat
  phase : CommPhase := .calling
  output : Output := {}
  out : List Emission := []
  /-- events accepted before the language call returned -/
  accepted : List ContextMessage := []
  log : List Entry := []

inductive CommLabel where
  /-- a producer's event enters the channel -/
  | accept (m : ContextMessage)
  | returned (result : Except Error Value)
  /-- the flush marker enters the channel -/
  | flush
  | pump (l : OutputLabel)
  | flushed
  /-- a message of `report_failure` is sent -/
  | emit
  | leave
  /-- another publisher -/
  | other (e : Emission)

namespace CommTurn

def start (request : Message) (executionCount : Nat) : CommTurn := { request, executionCount }

def step (t : CommTurn) : CommLabel → Option CommTurn
  | .accept m =>
      if ActiveExecution.acceptable m then
        match t.phase with
        | .calling => some { t with output := t.output.accept m, accepted := t.accepted ++ [m] }
        | _ => some { t with output := t.output.accept m }
      else none
  | .returned result =>
      match t.phase, result with
      | .calling, .ok _ => some { t with phase := .returned }
      | .calling, .error error =>
          some { t with
            phase := .leaving
            out := t.out ++ reportFailure t.request error t.executionCount }
      | _, _ => none
  | .flush =>
      match t.phase with
      | .returned => some { t with phase := .flushing, output := t.output.accept .flush }
      | _ => none
  | .pump l =>
      match t.output.step false l with
      | some (output, es) => some { t with output, log := t.log ++ es.map .own }
      | none => none
  | .flushed =>
      match t.phase with
      | .flushing => if t.output.flushed then some { t with phase := .leaving } else none
      | _ => none
  | .emit =>
      match t.out with
      | e :: rest => some { t with out := rest, log := t.log ++ [.own e] }
      | [] => none
  | .leave =>
      match t.phase, t.out with
      | .leaving, [] => some { t with phase := .left }
      | _, _ => none
  | .other e => some { t with log := t.log ++ [.other e] }

/-- The engine has published a status for the message, or has gone on to the
next item. -/
def Reported (t : CommTurn) : Prop :=
  t.phase = .left ∨ ∃ e, .own e ∈ t.log ∧ e.isStatus = true

/-- By then every event that was accepted before the call returned is out. -/
def OutputFirst (t : CommTurn) : Prop :=
  t.Reported → Published false t.accepted (outputOf t.log) ∧
    ∀ m ∈ t.accepted, Shown false (outputOf t.log) m

/-- The pump has published all it was given. -/
def drained (t : CommTurn) : Bool := t.output.channel.isEmpty && t.output.actions.isEmpty

/-- The call does not fail with output still on its way. -/
def FailsDrained (t : CommTurn) : CommLabel → Prop
  | .returned (.error _) => t.drained = true
  | _ => True

instance (t : CommTurn) (l : CommLabel) : Decidable (t.FailsDrained l) := by
  unfold FailsDrained
  split <;> infer_instance

/-! ## Every interleaving -/

/-- No status has been published for the message. -/
def Unreported (log : List Entry) : Prop := ∀ e, .own e ∈ log → e.isStatus = false

theorem Unreported.append {log log' : List Entry} (h : Unreported log) (h' : Unreported log') :
    Unreported (log ++ log') := by
  intro e he
  rcases List.mem_append.mp he with hold | hnew
  · exact h e hold
  · exact h' e hnew

theorem unreported_output {es : List Emission} (h : ∀ e ∈ es, e.isOutput = true) :
    Unreported (es.map .own) := by
  intro e he
  obtain ⟨e', he', heq⟩ := List.mem_map.mp he
  cases heq
  have hout := h e he'
  cases e with
  | iopub msgType content => cases hout
  | _ => rfl

theorem unreported_other (e : Emission) : Unreported [.other e] := by
  intro e' he'
  cases List.mem_singleton.mp he'

/-- What has gone out before the handler leaves, where `accepted` is all that
entered the channel and `n` the number of markers. -/
structure Pending (t : CommTurn) (accepted : List ContextMessage) (n : Nat) : Prop where
  delivered : t.output.Delivered false accepted (outputOf t.log)
  markers : t.output.markers = n
  log : Unreported t.log
  out : t.out = []

/-- What has gone out in each phase. -/
def Stage (t : CommTurn) : Prop :=
  match t.phase with
  | .calling => t.Pending t.accepted 0
  | .returned => ∃ more, t.Pending (t.accepted ++ more) 0
  | .flushing => ∃ more late, t.Pending (t.accepted ++ more ++ .flush :: late) 1
  | .leaving => Published false t.accepted (outputOf t.log)
  | .left => Published false t.accepted (outputOf t.log)

theorem stage_start (request : Message) (n : Nat) : (start request n).Stage :=
  ⟨Output.delivered_init, rfl, fun e he => (by cases he), rfl⟩

variable {t t' : CommTurn} {l : CommLabel} {accepted : List ContextMessage} {n : Nat}

/-- The handler is leaving and the output is out, or nothing has been said about
the message. -/
theorem Stage.published_or_unreported (h : t.Stage) :
    ((t.phase = .leaving ∨ t.phase = .left) ∧ Published false t.accepted (outputOf t.log)) ∨
      (t.phase ≠ .left ∧ Unreported t.log ∧ t.out = []) := by
  cases hphase : t.phase <;> simp only [Stage, hphase] at h
  case calling => exact .inr ⟨nofun, h.log, h.out⟩
  case returned =>
    obtain ⟨more, hpending⟩ := h
    exact .inr ⟨nofun, hpending.log, hpending.out⟩
  case flushing =>
    obtain ⟨more, late, hpending⟩ := h
    exact .inr ⟨nofun, hpending.log, hpending.out⟩
  case leaving => exact .inl ⟨.inl rfl, h⟩
  case left => exact .inl ⟨.inr rfl, h⟩

theorem Stage.outputFirst (h : t.Stage) : t.OutputFirst := by
  intro hreported
  have hpublished : Published false t.accepted (outputOf t.log) := by
    rcases h.published_or_unreported with ⟨_, hpublished⟩ | ⟨hphase, hlog, _⟩
    · exact hpublished
    · rcases hreported with hleft | ⟨e, he, hstatus⟩
      · exact absurd hleft hphase
      · rw [hlog e he] at hstatus
        cases hstatus
  exact ⟨hpublished, fun m hm => hpublished.shown hm⟩

theorem Pending.accept (h : t.Pending accepted n) {m : ContextMessage} (hm : m ≠ .flush)
    (phase : CommPhase) (before : List ContextMessage) :
    Pending { t with phase, output := t.output.accept m, accepted := before } (accepted ++ [m]) n :=
  ⟨h.delivered.accept m, (Output.markers_accept hm).trans h.markers, h.log, h.out⟩

/-- A producer emits after the call has returned. -/
theorem Stage.late (h : t.Stage) {m : ContextMessage} (hm : m ≠ .flush)
    (hcalling : t.phase ≠ .calling) : Stage { t with output := t.output.accept m } := by
  cases hphase : t.phase <;> simp only [Stage, hphase] at h ⊢
  case calling => exact absurd hphase hcalling
  case returned =>
    obtain ⟨more, hpending⟩ := h
    refine ⟨more ++ [m], ?_⟩
    rw [← List.append_assoc]
    exact hpending.accept hm _ _
  case flushing =>
    obtain ⟨more, late, hpending⟩ := h
    refine ⟨more, late ++ [m], ?_⟩
    rw [← List.cons_append, ← List.append_assoc]
    exact hpending.accept hm _ _
  case leaving => exact h
  case left => exact h

/-- The pump, or another publisher: what goes out is no status of the message. -/
theorem Stage.grow (h : t.Stage) {output : Output} {es : List Emission} {log : List Entry}
    (hlog : outputOf log = es) (hunreported : Unreported log)
    (hdelivered : ∀ accepted, t.output.Delivered false accepted (outputOf t.log) →
      output.Delivered false accepted (outputOf t.log ++ es))
    (hmarkers : t.output.markers ≤ 1 → output.markers = t.output.markers) :
    Stage { t with output, log := t.log ++ log } := by
  have hout : outputOf (t.log ++ log) = outputOf t.log ++ es := by rw [outputOf_append, hlog]
  have hgrow : ∀ {accepted n} (phase : CommPhase), n ≤ 1 → t.Pending accepted n →
      Pending { t with phase, output, log := t.log ++ log } accepted n := by
    intro accepted n phase hn hpending
    refine ⟨?_, ?_, hpending.log.append hunreported, hpending.out⟩
    · rw [hout]
      exact hdelivered _ hpending.delivered
    · have hone : t.output.markers ≤ 1 := by rw [hpending.markers]; exact hn
      exact (hmarkers hone).trans hpending.markers
  cases hphase : t.phase <;> simp only [Stage, hphase] at h ⊢
  case calling => exact hgrow _ (by omega) h
  case returned =>
    obtain ⟨more, hpending⟩ := h
    exact ⟨more, hgrow _ (by omega) hpending⟩
  case flushing =>
    obtain ⟨more, late, hpending⟩ := h
    exact ⟨more, late, hgrow _ (by omega) hpending⟩
  all_goals
    rw [hout]
    exact h.append es

/-- A pump that is done has published all it was given. -/
theorem published_of_drained (h : t.output.Delivered false t.accepted (outputOf t.log))
    (hdrained : t.drained = true) : Published false t.accepted (outputOf t.log) := by
  simp only [drained, Bool.and_eq_true, List.isEmpty_iff] at hdrained
  obtain ⟨batches, performed, hacc, hacts, hes⟩ := h
  refine ⟨batches, [], outputOf t.log, [], ?_, (List.append_nil _).symm, ?_⟩
  · rw [hacc, hdrained.1]
    simp
  · rw [hacts, hdrained.2, List.append_nil]
    exact hes

theorem stage_step (h : t.Stage) (hok : t.FailsDrained l) (hstep : t.step l = some t') :
    t'.Stage := by
  cases l with
  | accept m =>
      simp only [step] at hstep
      split at hstep
      · next hm =>
          have hne : m ≠ .flush := by
            rintro rfl
            cases hm
          split at hstep
          · next hphase =>
              cases hstep
              simp only [Stage, hphase] at h ⊢
              exact h.accept hne _ _
          · next hphase =>
              cases hstep
              exact h.late hne hphase
      · cases hstep
  | returned result =>
      simp only [step] at hstep
      split at hstep
      · next hphase =>
          cases hstep
          simp only [Stage, hphase] at h ⊢
          refine ⟨[], ?_⟩
          rw [List.append_nil]
          exact ⟨h.delivered, h.markers, h.log, h.out⟩
      · next hphase =>
          cases hstep
          simp only [Stage, hphase] at h ⊢
          exact published_of_drained h.delivered hok
      · cases hstep
  | flush =>
      simp only [step] at hstep
      split at hstep
      · next hphase =>
          cases hstep
          simp only [Stage, hphase] at h ⊢
          obtain ⟨more, hpending⟩ := h
          exact ⟨more, [], hpending.delivered.accept .flush,
            by rw [Output.markers_accept_flush, hpending.markers], hpending.log, hpending.out⟩
      · cases hstep
  | pump l =>
      simp only [step] at hstep
      split at hstep
      · next output es hpump =>
          cases hstep
          have hes := Output.step_isOutput hpump
          exact h.grow (outputOf_own hes) (unreported_output hes)
            (fun _ hdelivered => hdelivered.step hpump) (fun hone => Output.markers_step hone hpump)
      · cases hstep
  | flushed =>
      simp only [step] at hstep
      split at hstep
      · next hphase =>
          split at hstep
          · next hflushed =>
              cases hstep
              simp only [Stage, hphase] at h ⊢
              obtain ⟨more, late, hpending⟩ := h
              exact hpending.delivered.published (by rw [hpending.markers]) hflushed
          · cases hstep
      · cases hstep
  | emit =>
      simp only [step] at hstep
      split at hstep
      · next e rest hout =>
          cases hstep
          rcases h.published_or_unreported with ⟨hphase, hpublished⟩ | ⟨_, _, hnil⟩
          · have hgrown := hpublished.append (outputOf [.own e])
            rw [← outputOf_append] at hgrown
            rcases hphase with hphase | hphase <;> simpa only [Stage, hphase] using hgrown
          · rw [hout] at hnil
            cases hnil
      · cases hstep
  | leave =>
      simp only [step] at hstep
      split at hstep
      · next hphase _ =>
          cases hstep
          simp only [Stage, hphase] at h ⊢
          exact h
      · cases hstep
  | other e =>
      cases hstep
      have hnone : outputOf [.other e] = [] := rfl
      exact h.grow hnone (unreported_other e)
        (fun _ hdelivered => by rw [List.append_nil]; exact hdelivered) (fun _ => rfl)

/-- In every run in which the call does not fail with output still on its way,
every event that was accepted before the call returned is out before the
engine publishes a status for the message or goes on to the next item. -/
theorem comm_output_first {request : Message} {ls : List CommLabel}
    (hrun : run step (start request n) ls = some t)
    (hmeets : StepsMeet step FailsDrained (start request n) ls) : t.OutputFirst :=
  (run_invariant_of_meets (fun _ _ _ h hok hstep => stage_step h hok hstep) hrun hmeets
    (stage_start request n)).outputFirst

/-- A comm message that writes and fails after the pump has caught up. -/
theorem comm_output_first_caught_up :
    ∃ t, run step (start {} 0)
        [.accept (.event (.stream "stdout" "a")), .pump (.recvMany 1), .pump (.act true),
          .returned (.error .interrupted), .emit, .leave] = some t ∧
      t.log = [.own (.event (streamPublication "stdout" "a")), .own idle] ∧ t.OutputFirst := by
  have hrun : run step (start {} 0)
      [.accept (.event (.stream "stdout" "a")), .pump (.recvMany 1), .pump (.act true),
        .returned (.error .interrupted), .emit, .leave] = some _ := rfl
  exact ⟨_, hrun, rfl, comm_output_first hrun (by decide)⟩

/-- A comm message that writes and fails at once: its `idle` is out, the
scheduler has gone on, and its output is still in the channel. -/
theorem comm_output_after_idle :
    ∃ t, run step (start {} 0)
        [.accept (.event (.stream "stdout" "a")), .returned (.error .interrupted), .emit,
          .leave] = some t ∧
      t.accepted = [.event (.stream "stdout" "a")] ∧ t.phase = .left ∧ t.log = [.own idle] ∧
      ¬ t.OutputFirst := by
  refine ⟨_, rfl, rfl, rfl, rfl, fun hfirst => ?_⟩
  obtain ⟨_, _, hout⟩ := (hfirst (.inl rfl)).2 _ (List.mem_singleton.mpr rfl) rfl
  cases hout

/-! ## The steps of a shell -/

/-- Where the shell is, by the phase of the message. -/
def PcAt (s : Shell) (item : QueueItem) (comm : Nat) : CommPhase → Prop
  | .calling => ∃ call, s.pc = .call item call (some comm) ∧ call.isComm = true
  | .returned => False
  | .flushing => s.pc = .commFlush item comm
  | .leaving => s.pc = .drainIncoming ∨ ∃ error, s.pc = .failing error
  | .left => True

/-- The shell stands where `t` says it does with its message `item`. -/
structure Tracks (s : Shell) (item : QueueItem) (comm : Nat) (t : CommTurn) : Prop where
  request : t.request = item.request
  executionCount : t.phase = .calling → t.executionCount = s.executionCount
  phase : PcAt s item comm t.phase
  output : ∃ order, s.comms[comm]? = some (order, t.output)
  out : t.out = traceOf item.order s.out

/-- What the step accepts for the message. -/
def accepts (l : Shell.Label) : List ContextMessage :=
  match l with
  | .callAccept m => [m]
  | _ => []

/-- The emission of an entry. -/
def emission : Entry → Emission
  | .own e => e
  | .other e => e

theorem run_others (t : CommTurn) (es : List Emission) :
    run step t (es.map .other) = some { t with log := t.log ++ es.map .other } := by
  induction es generalizing t with
  | nil => simp [run]
  | cons e es ih =>
      refine run_cons_eq_some.mpr ⟨{ t with log := t.log ++ [.other e] }, rfl, ?_⟩
      rw [ih]
      simp

variable {services : Services} {s s' : Shell} {l' : Shell.Label} {item : QueueItem} {comm : Nat}

theorem msgType_of_message {request : Message} {msgType : String} {content : Value}
    {buffers : List Bytes} (h : serviceCall request = some (.message msgType content buffers)) :
    request.msgType = "comm_open" ∨ request.msgType = "comm_msg" ∨ request.msgType = "comm_close" := by
  unfold serviceCall at h
  split_ifs at h <;> simp_all

/-- A comm message is handled: its turn begins. -/
theorem tracks_start {o : Oracle} {msgType : String} {content : Value} {buffers : List Bytes}
    (hpc : s.pc = .handle item)
    (hcall : serviceCall item.request = some (.message msgType content buffers))
    (h : s.step services (.next o) = some s') :
    Tracks s' item s.comms.length (start item.request s.executionCount) := by
  have hex : item.isExecute = false := isExecute_of_serviceCall hcall
  have htype := msgType_of_message hcall
  have hfields : missingFields item.request = [] := by
    rcases htype with htype | htype | htype <;> simp [missingFields, requiredFields, htype]
  simp only [Shell.step] at h
  split at h
  · next hout =>
      have hs' : s' = { s with
          pc := .call item (.message msgType content buffers) (some s.comms.length)
          comms := s.comms ++ [(item.order, {})] } := by
        simp only [Shell.next, hpc, Shell.handleItem, hex, Shell.handleShell, hfields, hcall] at h
        rcases htype with htype | htype | htype <;> simpa [htype] using h.symm
      subst hs'
      refine ⟨rfl, fun _ => rfl, ⟨_, rfl, rfl⟩, ⟨item.order, by simp [start]⟩, ?_⟩
      simp [start, List.isEmpty_iff.mp hout]
  · cases h

/-- The scheduler waits for the call. -/
theorem loop_of_call {call : ServiceCall} {n : Option Nat} (hpc : s.pc = .call item call n)
    (h : Shell.LoopRule services s l' s') : ∃ result, l' = .callReturned result := by
  cases h <;> simp_all

/-- The scheduler waits for the flush. -/
theorem loop_of_commFlush (hpc : s.pc = .commFlush item comm)
    (h : Shell.LoopRule services s l' s') : ∃ o, l' = .next o := by
  cases h <;> simp_all

/-- The scheduler goes on. -/
theorem loop_of_leaving (hpc : PcAt s item comm .leaving) (h : Shell.LoopRule services s l' s') :
    s'.comms = s.comms ∧ s'.out = s.out ∧ s'.log = s.log ∧ accepts l' = [] := by
  cases h with
  | takeIncoming | incomingDrained | failing => exact ⟨rfl, rfl, rfl, rfl⟩
  | _ => simp_all [PcAt]

/-- `t'` follows the shell through a step. -/
structure Follows (s s' : Shell) (l' : Shell.Label) (item : QueueItem) (comm : Nat)
    (t t' : CommTurn) (entries : List Entry) : Prop where
  tracks : Tracks s' item comm t'
  log : t'.log = t.log ++ entries
  sent : s'.log.map Prod.snd = s.log.map Prod.snd ++ entries.map emission
  accepted : t'.accepted = t.accepted ++ accepts l'

theorem Follows.silent {t' : CommTurn} (htracks : Tracks s' item comm t') (hlog : t'.log = t.log)
    (hsent : s'.log = s.log) (haccepts : accepts l' = []) (haccepted : t'.accepted = t.accepted) :
    Follows s s' l' item comm t t' [] :=
  ⟨htracks, by simp [hlog], by simp [hsent], by simp [haccepts, haccepted]⟩

/-- The call returns. -/
theorem follows_returned {call : ServiceCall} {result : Except Error Value}
    (h : Tracks s item comm t) (ht : t.phase = .calling) (hout : s.out = [])
    (hpc : s.pc = .call item call (some comm)) (hcomm : call.isComm = true)
    (hs' : s' = s.callReturned item call (some comm) result) :
    ∃ ls t', run step t ls = some t' ∧
      Follows s s' (.callReturned result) item comm t t' [] := by
  obtain ⟨order, houtput⟩ := h.output
  have htout : t.out = [] := by rw [h.out, hout]; rfl
  subst hs'
  cases result with
  | error error =>
      let failed : CommTurn := { t with
        phase := .leaving
        out := t.out ++ reportFailure t.request error t.executionCount }
      refine ⟨[.returned (.error error)], failed, by simp [run_singleton, step, ht, failed],
        .silent ⟨h.request, by simp, ?_, ⟨order, houtput⟩, ?_⟩ rfl rfl rfl rfl⟩
      · show PcAt (s.failItem item error) item comm .leaving
        by_cases hclosed : error.kind = .closed <;> simp [PcAt, Shell.failItem, hclosed]
      · show t.out ++ _ = traceOf item.order (s.failItem item error).out
        simp [Shell.failItem, Shell.say, htout, hout, tag, h.request, h.executionCount ht]
  | ok value =>
      cases call with
      | message msgType content buffers =>
          let flushing : CommTurn := { t with
            phase := .flushing, output := t.output.accept .flush }
          refine ⟨[.returned (.ok value), .flush], flushing, ?_,
            .silent ⟨h.request, by simp, rfl, ⟨order, ?_⟩, h.out⟩ rfl rfl rfl rfl⟩
          · refine run_cons_eq_some.mpr ⟨{ t with phase := .returned }, by simp [step, ht], ?_⟩
            simp [run_singleton, step, flushing]
          · show (s.comms.modify comm (fun entry => (entry.1, entry.2.accept .flush)))[comm]? = _
            simp [houtput, flushing]
      | _ => cases hcomm

/-- The scheduler's own steps. -/
theorem follows_loop (h : Tracks s item comm t) (hleft : t.phase ≠ .left) (hout : s.out = [])
    (hloop : Shell.LoopRule services s l' s') (hstep : s.step services l' = some s') :
    ∃ ls t', run step t ls = some t' ∧ Follows s s' l' item comm t t' [] := by
  have htout : t.out = [] := by rw [h.out, hout]; rfl
  obtain ⟨order, houtput⟩ := h.output
  have hphase := h.phase
  cases ht : t.phase <;> simp only [ht] at hphase
  case left => exact absurd ht hleft
  case returned => exact hphase.elim
  case calling =>
    obtain ⟨call, hpc, hcomm⟩ := hphase
    obtain ⟨result, rfl⟩ := loop_of_call hpc hloop
    exact follows_returned h ht hout hpc hcomm (Shell.step_callReturned hpc hstep)
  case flushing =>
    have hpc : s.pc = .commFlush item comm := hphase
    obtain ⟨o, rfl⟩ := loop_of_commFlush hpc hloop
    simp only [Shell.step, hout, List.isEmpty_nil, if_true, Shell.next, hpc, houtput] at hstep
    split at hstep
    · next hflushed =>
        cases hstep
        refine ⟨[.flushed, .leave], { t with phase := .left }, ?_,
          .silent ⟨h.request, by simp, trivial, ⟨order, houtput⟩, htout⟩ rfl rfl rfl rfl⟩
        refine run_cons_eq_some.mpr ⟨{ t with phase := .leaving }, by simp [step, ht, hflushed], ?_⟩
        simp [run_singleton, step, htout]
    · cases hstep
  case leaving =>
    obtain ⟨hcomms, hsame, hlog, haccepts⟩ := loop_of_leaving hphase hloop
    refine ⟨[.leave], { t with phase := .left }, by simp [run_singleton, step, ht, htout],
      .silent ⟨h.request, by simp, trivial, ⟨order, hcomms ▸ houtput⟩, ?_⟩ rfl hlog haccepts rfl⟩
    rw [hsame]
    exact h.out

/-- Each step of the shell is a run here, which sends what the step sends and
accepts what it accepts. -/
theorem tracks_step (h : Tracks s item comm t) (hleft : t.phase ≠ .left)
    (hstep : s.step services l' = some s') :
    ∃ ls t' entries, run step t ls = some t' ∧ Follows s s' l' item comm t t' entries := by
  obtain ⟨order, houtput⟩ := h.output
  cases Shell.step_rule hstep with
  | loop hout hloop =>
      obtain ⟨ls, t', hrun, hfollows⟩ := follows_loop h hleft hout hloop hstep
      exact ⟨ls, t', [], hrun, hfollows⟩
  | @emit e rest hout =>
      by_cases hown : e.1 = item.order
      · have htout : t.out = e.2 :: traceOf item.order rest := by
          rw [h.out, hout, traceOf_cons]
          simp [traceOf, hown]
        refine ⟨[.emit], { t with out := traceOf item.order rest, log := t.log ++ [.own e.2] },
          [.own e.2], by simp [run_singleton, step, htout], ?_⟩
        exact ⟨⟨h.request, h.executionCount, h.phase, h.output, rfl⟩, rfl, by simp [emission],
          (List.append_nil _).symm⟩
      · have htout : t.out = traceOf item.order rest := by
          rw [h.out, hout, traceOf_cons]
          simp [traceOf, hown]
        refine ⟨[.other e.2], { t with log := t.log ++ [.other e.2] }, [.other e.2],
          by simp [run_singleton, step], ?_⟩
        exact ⟨⟨h.request, h.executionCount, h.phase, h.output, htout⟩, rfl, by simp [emission],
          (List.append_nil _).symm⟩
  | @commPump comm' order' l output output' es hget hpump =>
      by_cases hcomm : comm' = comm
      · subst hcomm
        rw [houtput, Option.some.injEq, Prod.mk.injEq] at hget
        obtain ⟨rfl, rfl⟩ := hget
        have hlt : comm' < s.comms.length := (List.getElem?_eq_some_iff.mp houtput).1
        refine ⟨[.pump l], { t with output := output', log := t.log ++ es.map .own }, es.map .own,
          by simp [run_singleton, step, hpump], ?_⟩
        refine ⟨⟨h.request, h.executionCount, h.phase, ⟨order, ?_⟩, h.out⟩, rfl, ?_,
          (List.append_nil _).symm⟩
        · simp [hlt]
        · simp [emission, Function.comp_def]
      · refine ⟨es.map .other, _, es.map .other, run_others t es, ?_⟩
        refine ⟨⟨h.request, h.executionCount, h.phase, ⟨order, ?_⟩, h.out⟩, rfl, ?_,
          (List.append_nil _).symm⟩
        · show (s.comms.set comm' _)[comm]? = _
          rw [List.getElem?_set_ne hcomm]
          exact houtput
        · simp [emission, Function.comp_def]
  | @task l a a' es hactive hrunning hstep =>
      refine ⟨es.map .other, _, es.map .other, run_others t es, ?_⟩
      refine ⟨⟨h.request, h.executionCount, h.phase, h.output, h.out⟩, rfl, ?_,
        (List.append_nil _).symm⟩
      simp [emission, Function.comp_def, tag]
  | @callAccept m call n message hpc =>
      have hphase := h.phase
      cases ht : t.phase <;> simp only [ht, PcAt, hpc] at hphase
      case left => exact absurd ht hleft
      case flushing => cases hphase
      case leaving =>
        rcases hphase with hpc' | ⟨error, hpc'⟩ <;> cases hpc'
      case calling =>
        obtain ⟨call', heq, hcomm⟩ := hphase
        cases heq
        simp only [Shell.step, hpc] at hstep
        split at hstep
        · split at hstep
          · next hm =>
              refine ⟨[.accept message], { t with
                output := t.output.accept message, accepted := t.accepted ++ [message] }, [],
                by simp [run_singleton, step, ht, hm], ?_⟩
              refine ⟨⟨h.request, h.executionCount, ?_, ⟨order, ?_⟩, h.out⟩,
                (List.append_nil _).symm, by simp, rfl⟩
              · rw [ht]
                exact ⟨call, hpc, hcomm⟩
              · simp [houtput]
          · cases hstep
        · cases hstep
  | _ =>
      exact ⟨[], t, [], rfl,
        .silent ⟨h.request, h.executionCount, h.phase, h.output, h.out⟩ rfl rfl rfl rfl⟩

/-- A run of the shell is a run here, up to where the scheduler goes on. -/
theorem tracks_run {labels : List Shell.Label} (hrun : run (Shell.step services) s labels = some s')
    (h : Tracks s item comm t) :
    ∃ done rest mid ls t', labels = done ++ rest ∧ run (Shell.step services) s done = some mid ∧
      run step t ls = some t' ∧ Tracks mid item comm t' ∧ (rest = [] ∨ t'.phase = .left) := by
  induction labels generalizing s t with
  | nil => exact ⟨[], [], s, [], t, rfl, rfl, rfl, h, .inl rfl⟩
  | cons l labels ih =>
      by_cases hleft : t.phase = .left
      · exact ⟨[], l :: labels, s, [], t, rfl, rfl, rfl, h, .inr hleft⟩
      · obtain ⟨m, hstep, hrest⟩ := run_cons_eq_some.mp hrun
        obtain ⟨ls, t₁, entries, hls, hfollows⟩ := tracks_step h hleft hstep
        obtain ⟨done, rest, mid, ls', t', rfl, hdone, hls', htracks, hend⟩ :=
          ih hrest hfollows.tracks
        exact ⟨l :: done, rest, mid, ls ++ ls', t', rfl, run_cons_eq_some.mpr ⟨m, hstep, hdone⟩,
          run_append_eq_some.mpr ⟨t₁, hls, hls'⟩, htracks, hend⟩

end CommTurn

end Kernmini.Engine
