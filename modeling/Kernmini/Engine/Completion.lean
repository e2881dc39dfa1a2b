/-
Kernmini.Engine.Completion — the end of one execution, beside its producers,
its output pump and other publishers.

`ActiveExecution.step` puts the flush marker into the channel at the moment
the language call returns, and has no events after that. Here the call
returns first and the marker follows, a producer that kept its context may
emit at any time, and everything that goes out is in one log with the
messages of other publishers. Each step of `ActiveExecution.step` is one or
two steps here (`run_of_task_step`).

The marker orders the two ways out: `output_precedes_completion`. The pump
of an execution lives as long as the kernel runs; what a kernel that has
returned leaves behind is outside this model.
-/
import Kernmini.Engine.ExecutionTraces
import Kernmini.Engine.PumpTheorems

namespace Kernmini.Engine

open Kernmini.Wire Kernmini.Lib

/-! ## The system -/

/-- Where `run_execution` is, with the return of the call and the sending of
the flush marker apart. -/
inductive CompletionPhase where
  | running
  /-- the language returned; `output.flush()` has not sent its marker yet -/
  | returned (outcome : Except Error ExecuteOutcome)
  | flushing (outcome : Except Error ExecuteOutcome)
  | finishing (result : Except Error ExecutionDone)
  | finished (result : Except Error ExecutionDone)
  | panicked

/-- A message that went out, of this execution or of another publisher. -/
inductive Entry where
  | own (e : Emission)
  | other (e : Emission)

structure Completion where
  request : Message
  execution : ExecuteRequest
  executionCount : Nat
  phase : CompletionPhase := .running
  output : Output := {}
  out : List Emission
  /-- events accepted before the language call returned -/
  accepted : List ContextMessage := []
  log : List Entry := []

inductive CompletionLabel where
  | emit
  /-- a producer's event enters the channel -/
  | accept (m : ContextMessage)
  | returned (outcome : Except Error ExecuteOutcome)
  /-- the flush marker enters the channel -/
  | flush
  | panic
  | pump (l : OutputLabel)
  | flushed
  | finish
  /-- another publisher -/
  | other (e : Emission)

namespace Completion

def spawn (request : Message) (execution : ExecuteRequest) (executionCount : Nat) : Completion :=
  { request, execution, executionCount, out := startExecution execution executionCount }

def step (t : Completion) : CompletionLabel → Option Completion
  | .emit =>
      match t.out with
      | e :: rest => some { t with out := rest, log := t.log ++ [.own e] }
      | [] => none
  | .accept m =>
      if ActiveExecution.acceptable m then
        match t.phase, t.out with
        | .running, [] =>
            some { t with output := t.output.accept m, accepted := t.accepted ++ [m] }
        -- the context is handed out when the opening messages are sent
        | .running, _ :: _ => none
        | _, _ => some { t with output := t.output.accept m }
      else none
  | .returned outcome =>
      match t.phase, t.out with
      | .running, [] => some { t with phase := .returned outcome }
      | _, _ => none
  | .flush =>
      match t.phase with
      | .returned outcome =>
          some { t with phase := .flushing outcome, output := t.output.accept .flush }
      | _ => none
  | .panic =>
      match t.phase, t.out with
      | .running, [] => some { t with phase := .panicked }
      | _, _ => none
  | .pump l =>
      match t.output.step t.execution.silent l with
      | some (output, es) => some { t with output, log := t.log ++ es.map .own }
      | none => none
  | .flushed =>
      match t.phase with
      | .flushing outcome =>
          if t.output.flushed then
            match finishExecution t.request t.execution.silent t.executionCount outcome with
            | (out, result) => some { t with phase := .finishing result, out }
          else none
      | _ => none
  | .finish =>
      match t.phase, t.out with
      | .finishing result, [] => some { t with phase := .finished result }
      | _, _ => none
  | .other e => some { t with log := t.log ++ [.other e] }

end Completion

/-- The messages that tell a client how an execution ended. -/
def Emission.completes : Emission → Bool
  | .reply _ _ => true
  | .iopub msgType content =>
      msgType = "error" || msgType = "execute_result" ||
        (msgType = "status" && (content.get "execution_state").bind Value.asStr = some "idle")
  | _ => false

/-- The messages of the output pump. -/
def Emission.isOutput : Emission → Bool
  | .event _ => true
  | .inputRequest _ _ => true
  | _ => false

/-- What the output pump of this execution has sent. -/
def outputOf (log : List Entry) : List Emission :=
  log.filterMap fun
    | .own e => if e.isOutput then some e else none
    | .other _ => none

/-- All of `events` is out: `es` begins with what a pump makes of them and of
what it took together with them. -/
def Published (silent : Bool) (events : List ContextMessage) (es : List Emission) : Prop :=
  ∃ (batches : List (List ContextMessage)) (more : List ContextMessage) (es₁ es₂ : List Emission),
    batches.flatten = events ++ more ∧ es = es₁ ++ es₂ ∧
      Performed (batches.flatMap (pumpBatch silent)) es₁

/-! ## The flush marker -/

namespace Output

variable {silent : Bool} {o o' : Output} {l : OutputLabel} {es : List Emission}

/-- The flush markers on their way, and the one that was performed. -/
def markers (o : Output) : Nat :=
  o.channel.countP ContextMessage.isFlush + o.actions.countP PumpAction.isFlush + o.flushed.toNat

theorem markers_accept {m : ContextMessage} (h : m ≠ .flush) : (o.accept m).markers = o.markers := by
  have hm : m.isFlush = false := by
    cases hflush : m.isFlush with
    | false => rfl
    | true => exact absurd (ContextMessage.isFlush_iff.mp hflush) h
  simp [markers, accept, List.countP_append, hm]

theorem markers_accept_flush : (o.accept .flush).markers = o.markers + 1 := by
  simp only [markers, accept, List.countP_append, List.countP_singleton, ContextMessage.isFlush,
    if_true]
  omega

/-- The pump keeps a single marker. -/
theorem markers_step (hone : o.markers ≤ 1) (h : o.step silent l = some (o', es)) :
    o'.markers = o.markers := by
  cases step_rule h with
  | @recvMany n hactions hpos hle =>
      have hsplit : o.channel.countP ContextMessage.isFlush =
          (o.channel.take n).countP ContextMessage.isFlush +
            (o.channel.drop n).countP ContextMessage.isFlush := by
        rw [← List.countP_append, List.take_append_drop]
      simp only [markers, countP_pumpBatch, hactions, List.countP_nil, hsplit]
      omega
  | publish hactions => simp [markers, hactions, PumpAction.isFlush]
  | @flush sent rest hactions =>
      have hflushed : o.flushed = false := by
        cases hf : o.flushed with
        | false => rfl
        | true => simp [markers, hactions, hf, PumpAction.isFlush] at hone
      have hcount : (PumpAction.flush :: rest).countP PumpAction.isFlush =
          rest.countP PumpAction.isFlush + 1 := List.countP_cons_of_pos rfl
      simp only [markers, hactions, hflushed, hcount, Bool.toNat_true, Bool.toNat_false]
      omega
  | input hactions => simp [markers, hactions, PumpAction.isFlush]

/-- A marker that was performed is nowhere else. -/
theorem not_mem_of_flushed (hone : o.markers ≤ 1) (hflushed : o.flushed = true) :
    .flush ∉ o.channel ∧ .flush ∉ o.actions := by
  simp only [markers, hflushed, Bool.toNat_true] at hone
  constructor
  · intro hmem
    have hpos := flush_mem_iff.mp hmem
    omega
  · intro hmem
    have hpos := flush_mem_actions_iff.mp hmem
    omega

end Output

/-- What a part of the actions has emitted. -/
theorem Performed.split {first second : List PumpAction} {es : List Emission}
    (h : Performed (first ++ second) es) :
    ∃ es₁ es₂, es = es₁ ++ es₂ ∧ Performed first es₁ := by
  induction first generalizing es with
  | nil => exact ⟨[], es, rfl, .nil⟩
  | cons action first ih =>
      cases h with
      | publish p h =>
          obtain ⟨es₁, es₂, rfl, hfirst⟩ := ih h
          exact ⟨.event p :: es₁, es₂, rfl, .publish p hfirst⟩
      | flush h =>
          obtain ⟨es₁, es₂, rfl, hfirst⟩ := ih h
          exact ⟨es₁, es₂, rfl, .flush hfirst⟩
      | input prompt password sent h =>
          obtain ⟨es₁, es₂, rfl, hfirst⟩ := ih h
          exact ⟨_, es₂, (List.append_assoc _ _ _).symm, .input prompt password sent hfirst⟩

/-- The piece that holds an element of a flattened list. -/
theorem flatten_eq_append_cons {α : Type*} {pieces : List (List α)} {ys zs : List α} {y : α}
    (h : pieces.flatten = ys ++ y :: zs) :
    ∃ as bs cs ds, pieces = as ++ (bs ++ y :: cs) :: ds ∧ ys = as.flatten ++ bs := by
  rcases List.flatten_eq_append_iff.mp h with ⟨as, bs, rfl, hys, hzs⟩ | ⟨as, bs, c, cs, ds, rfl, hys, hzs⟩
  · obtain ⟨as', bs', cs', rfl, hnil, _⟩ := List.flatten_eq_cons_iff.mp hzs.symm
    refine ⟨as ++ as', [], bs', cs', by simp, ?_⟩
    rw [List.flatten_append, List.flatten_eq_nil_iff.mpr hnil, hys]
    simp
  · cases hzs
    exact ⟨as, bs, cs, ds, rfl, hys⟩

/-- Once the marker is performed, all that was accepted before it is out. -/
theorem Output.Delivered.published {silent : Bool} {o : Output} {es : List Emission}
    {events more late : List ContextMessage}
    (h : o.Delivered silent (events ++ more ++ .flush :: late) es)
    (hone : o.markers ≤ 1) (hflushed : o.flushed = true) : Published silent events es := by
  obtain ⟨hchannel, hactions⟩ := Output.not_mem_of_flushed hone hflushed
  obtain ⟨batches, performed, hacc, hacts, hes⟩ := h
  -- the marker is in a batch, which it cuts in two
  obtain ⟨late', hbatches⟩ : ∃ late', batches.flatten = events ++ more ++ .flush :: late' := by
    rcases List.append_eq_append_iff.mp hacc with ⟨rest, hflat, hrest⟩ | ⟨rest, hflat, hrest⟩
    · cases rest with
      | nil =>
          rw [List.nil_append] at hrest
          exact absurd (by rw [← hrest]; exact List.mem_cons_self ..) hchannel
      | cons m rest =>
          cases hrest
          exact ⟨rest, hflat⟩
    · exact absurd (by rw [hrest]; simp) hchannel
  obtain ⟨as, bs, c, cs, rfl, hbefore⟩ := flatten_eq_append_cons hbatches
  have hcut : (as ++ (bs ++ .flush :: c) :: cs).flatMap (pumpBatch silent) =
      (as ++ [bs]).flatMap (pumpBatch silent) ++
        .flush :: (pumpBatch silent c ++ cs.flatMap (pumpBatch silent)) := by
    simp [List.flatMap_append, pumpBatch_append_flush]
  rw [hcut] at hacts
  -- so what comes before it has been performed
  obtain ⟨rest, hperformed⟩ : ∃ rest, performed = (as ++ [bs]).flatMap (pumpBatch silent) ++ rest := by
    rcases List.append_eq_append_iff.mp hacts with ⟨rest, hp, _⟩ | ⟨rest, _, hrest⟩
    · exact ⟨rest, hp⟩
    · exact absurd (by rw [hrest]; simp) hactions
  rw [hperformed] at hes
  obtain ⟨es₁, es₂, rfl, hfirst⟩ := hes.split
  exact ⟨as ++ [bs], more, es₁, es₂, by rw [hbefore]; simp, rfl, hfirst⟩

/-! ## Every interleaving -/

theorem outputOf_append (log log' : List Entry) :
    outputOf (log ++ log') = outputOf log ++ outputOf log' := List.filterMap_append

theorem Output.step_isOutput {silent : Bool} {o o' : Output} {l : OutputLabel} {es : List Emission}
    (h : o.step silent l = some (o', es)) : ∀ e ∈ es, e.isOutput = true := by
  cases step_rule h with
  | recvMany | flush => simp
  | publish => simp [Emission.isOutput]
  | input => split <;> simp [Emission.isOutput]

theorem outputOf_own {es : List Emission} (h : ∀ e ∈ es, e.isOutput = true) :
    outputOf (es.map .own) = es := by
  rw [outputOf, List.filterMap_map]
  refine (List.filterMap_congr fun e he => ?_).trans List.filterMap_some
  simp [h e he]

/-- No message of `log` tells how the execution ended. -/
def Incomplete (log : List Entry) : Prop := ∀ e, .own e ∈ log → e.completes = false

theorem Incomplete.append {log log' : List Entry} (h : Incomplete log) (h' : Incomplete log') :
    Incomplete (log ++ log') := by
  intro e he
  rcases List.mem_append.mp he with hold | hnew
  · exact h e hold
  · exact h' e hnew

theorem incomplete_output {es : List Emission} (h : ∀ e ∈ es, e.isOutput = true) :
    Incomplete (es.map .own) := by
  intro e he
  obtain ⟨e', he', heq⟩ := List.mem_map.mp he
  cases heq
  have hout := h e he'
  cases e with
  | event | inputRequest => rfl
  | iopub | reply => cases hout

theorem incomplete_other (e : Emission) : Incomplete [.other e] := by
  intro e' he'
  cases List.mem_singleton.mp he'

theorem Published.append {silent : Bool} {events : List ContextMessage} {es : List Emission}
    (h : Published silent events es) (es' : List Emission) : Published silent events (es ++ es') := by
  obtain ⟨batches, more, es₁, es₂, hflat, rfl, hperf⟩ := h
  exact ⟨batches, more, es₁, es₂ ++ es', hflat, List.append_assoc _ _ _, hperf⟩

namespace Completion

/-- The language call is pending. -/
structure Running (t : Completion) : Prop where
  delivered : t.output.Delivered t.execution.silent t.accepted (outputOf t.log)
  markers : t.output.markers = 0
  log : Incomplete t.log
  out : ∀ e ∈ t.out, e.completes = false ∧ e.isOutput = false

/-- The call has returned or panicked, and no marker has been sent. -/
structure Returned (t : Completion) : Prop where
  delivered : ∃ more, t.output.Delivered t.execution.silent (t.accepted ++ more) (outputOf t.log)
  markers : t.output.markers = 0
  log : Incomplete t.log
  out : t.out = []

/-- The marker has been sent. -/
structure Flushing (t : Completion) : Prop where
  delivered : ∃ more late,
    t.output.Delivered t.execution.silent (t.accepted ++ more ++ .flush :: late) (outputOf t.log)
  markers : t.output.markers = 1
  log : Incomplete t.log
  out : t.out = []

/-- A part of the log has all the output, and nothing of the end. -/
def Finishing (t : Completion) : Prop :=
  ∃ settled rest, t.log = settled ++ rest ∧ Incomplete settled ∧
    Published t.execution.silent t.accepted (outputOf settled)

/-- What has gone out in each phase. -/
def Stage (t : Completion) : Prop :=
  match t.phase with
  | .running => t.Running
  | .returned _ => t.Returned
  | .panicked => t.Returned
  | .flushing _ => t.Flushing
  | .finishing _ => t.Finishing
  | .finished _ => t.Finishing

theorem stage_spawn (request : Message) (execution : ExecuteRequest) (n : Nat) :
    (spawn request execution n).Stage := by
  refine ⟨Output.delivered_init, rfl, fun e he => (by cases he), fun e he => ?_⟩
  simp only [spawn, startExecution] at he
  rcases List.mem_cons.mp he with rfl | hin
  · decide
  · split at hin
    · cases hin
    · rw [List.mem_singleton.mp hin]
      exact ⟨rfl, rfl⟩

variable {t t' : Completion} {l : CompletionLabel}

theorem Finishing.extend (h : t.Finishing) (more : List Entry) (out : List Emission)
    (output : Output) : Finishing { t with out, output, log := t.log ++ more } := by
  obtain ⟨settled, rest, hlog, hsettled, hpublished⟩ := h
  exact ⟨settled, rest ++ more, by simp [hlog], hsettled, hpublished⟩

theorem Running.emit (h : t.Running) {e : Emission} {rest : List Emission}
    (hout : t.out = e :: rest) (phase : CompletionPhase) :
    Running { t with phase, out := rest, log := t.log ++ [.own e] } := by
  have he := h.out e (by rw [hout]; exact List.mem_cons_self ..)
  refine ⟨?_, h.markers, h.log.append fun e' he' => ?_, fun e' he' => ?_⟩
  · have hnone : outputOf [.own e] = [] := by simp [outputOf, he.2]
    show t.output.Delivered _ _ (outputOf (t.log ++ [.own e]))
    rw [outputOf_append, hnone, List.append_nil]
    exact h.delivered
  · cases List.mem_singleton.mp he'
    exact he.1
  · exact h.out e' (by rw [hout]; exact List.mem_cons_of_mem _ he')

/-- A message of the task itself. -/
theorem Stage.emit (h : t.Stage) {e : Emission} {rest : List Emission} (hout : t.out = e :: rest) :
    Stage { t with out := rest, log := t.log ++ [.own e] } := by
  have hnil : t.out ≠ [] := by simp [hout]
  cases hphase : t.phase <;> simp only [Stage, hphase] at h ⊢
  case running => exact h.emit hout _
  case returned => exact absurd h.out hnil
  case flushing => exact absurd h.out hnil
  case panicked => exact absurd h.out hnil
  case finishing => exact h.extend _ rest t.output
  case finished => exact h.extend _ rest t.output

theorem Returned.late (h : t.Returned) {m : ContextMessage} (hm : m ≠ .flush)
    (phase : CompletionPhase) : Returned { t with phase, output := t.output.accept m } := by
  obtain ⟨more, hdelivered⟩ := h.delivered
  refine ⟨⟨more ++ [m], ?_⟩, (Output.markers_accept hm).trans h.markers, h.log, h.out⟩
  rw [← List.append_assoc]
  exact hdelivered.accept m

theorem Flushing.late (h : t.Flushing) {m : ContextMessage} (hm : m ≠ .flush)
    (phase : CompletionPhase) : Flushing { t with phase, output := t.output.accept m } := by
  obtain ⟨more, late, hdelivered⟩ := h.delivered
  refine ⟨⟨more, late ++ [m], ?_⟩, (Output.markers_accept hm).trans h.markers, h.log, h.out⟩
  rw [← List.cons_append, ← List.append_assoc]
  exact hdelivered.accept m

/-- A producer emits after the call has returned. -/
theorem Stage.late (h : t.Stage) {m : ContextMessage} (hm : m ≠ .flush)
    (hrunning : t.phase ≠ .running) : Stage { t with output := t.output.accept m } := by
  cases hphase : t.phase <;> simp only [Stage, hphase] at h ⊢
  case running => exact absurd hphase hrunning
  case returned => exact h.late hm _
  case flushing => exact h.late hm _
  case panicked => exact h.late hm _
  case finishing => exact h
  case finished => exact h

/-- The pump, or another publisher: what goes out does not tell the end. -/
theorem Stage.grow (h : t.Stage) {output : Output} {es : List Emission} {log : List Entry}
    (hlog : outputOf log = es) (hincomplete : Incomplete log)
    (hdelivered : ∀ accepted, t.output.Delivered t.execution.silent accepted (outputOf t.log) →
      output.Delivered t.execution.silent accepted (outputOf t.log ++ es))
    (hmarkers : t.output.markers ≤ 1 → output.markers = t.output.markers) :
    Stage { t with output, log := t.log ++ log } := by
  have hout : outputOf (t.log ++ log) = outputOf t.log ++ es := by rw [outputOf_append, hlog]
  cases hphase : t.phase <;> simp only [Stage, hphase] at h ⊢
  case running =>
    refine ⟨?_, (hmarkers (by rw [h.markers]; omega)).trans h.markers, h.log.append hincomplete, h.out⟩
    rw [hout]
    exact hdelivered _ h.delivered
  case finishing => exact h.extend log t.out output
  case finished => exact h.extend log t.out output
  case flushing =>
    obtain ⟨more, late, hold⟩ := h.delivered
    refine ⟨⟨more, late, ?_⟩, (hmarkers (by rw [h.markers])).trans h.markers,
      h.log.append hincomplete, h.out⟩
    rw [hout]
    exact hdelivered _ hold
  all_goals
    obtain ⟨more, hold⟩ := h.delivered
    refine ⟨⟨more, ?_⟩, (hmarkers (by rw [h.markers]; omega)).trans h.markers,
      h.log.append hincomplete, h.out⟩
    rw [hout]
    exact hdelivered _ hold

theorem stage_step (h : t.Stage) (hstep : t.step l = some t') : t'.Stage := by
  cases l with
  | emit =>
      simp only [step] at hstep
      split at hstep
      · next e rest hout =>
          cases hstep
          exact h.emit hout
      · cases hstep
  | accept m =>
      simp only [step] at hstep
      split at hstep
      · next hm =>
          have hne : m ≠ .flush := by
            rintro rfl
            cases hm
          split at hstep
          · next hphase hout =>
              cases hstep
              simp only [Stage, hphase] at h ⊢
              exact ⟨h.delivered.accept m, (Output.markers_accept hne).trans h.markers, h.log,
                by simp [hout]⟩
          · cases hstep
          · next hnil hcons =>
              cases hstep
              refine h.late hne fun hphase => ?_
              cases hout : t.out with
              | nil => exact hnil hphase hout
              | cons e rest => exact hcons e rest hphase hout
      · cases hstep
  | returned outcome =>
      simp only [step] at hstep
      split at hstep
      · next hphase hout =>
          cases hstep
          simp only [Stage, hphase] at h ⊢
          exact ⟨⟨[], by rw [List.append_nil]; exact h.delivered⟩, h.markers, h.log, hout⟩
      · cases hstep
  | flush =>
      simp only [step] at hstep
      split at hstep
      · next outcome hphase =>
          cases hstep
          simp only [Stage, hphase] at h ⊢
          obtain ⟨more, hdelivered⟩ := h.delivered
          exact ⟨⟨more, [], hdelivered.accept .flush⟩,
            by rw [Output.markers_accept_flush, h.markers], h.log, h.out⟩
      · cases hstep
  | panic =>
      simp only [step] at hstep
      split at hstep
      · next hphase hout =>
          cases hstep
          simp only [Stage, hphase] at h ⊢
          exact ⟨⟨[], by rw [List.append_nil]; exact h.delivered⟩, h.markers, h.log, hout⟩
      · cases hstep
  | pump l =>
      simp only [step] at hstep
      split at hstep
      · next output es hpump =>
          cases hstep
          have hes := Output.step_isOutput hpump
          exact h.grow (outputOf_own hes) (incomplete_output hes)
            (fun _ hdelivered => hdelivered.step hpump) (fun hone => Output.markers_step hone hpump)
      · cases hstep
  | flushed =>
      simp only [step] at hstep
      split at hstep
      · next outcome hphase =>
          split at hstep
          · next hflushed =>
              cases hstep
              simp only [Stage, hphase] at h ⊢
              obtain ⟨more, late, hdelivered⟩ := h.delivered
              exact ⟨t.log, [], (List.append_nil _).symm, h.log,
                hdelivered.published (by rw [h.markers]) hflushed⟩
          · cases hstep
      · cases hstep
  | finish =>
      simp only [step] at hstep
      split at hstep
      · next result hphase hout =>
          cases hstep
          simp only [Stage, hphase] at h ⊢
          exact h
      · cases hstep
  | other e =>
      cases hstep
      have hnone : outputOf [.other e] = [] := rfl
      exact h.grow hnone (incomplete_other e)
        (fun _ hdelivered => by rw [List.append_nil]; exact hdelivered) (fun _ => rfl)

theorem execution_step (hstep : t.step l = some t') : t'.execution = t.execution := by
  unfold step at hstep
  repeat' split at hstep
  all_goals first
    | cases hstep; rfl
    | cases hstep

/-! ### The task of an execution -/

def ofPhase : TaskPhase → CompletionPhase
  | .running => .running
  | .flushing outcome => .flushing outcome
  | .finishing result => .finishing result
  | .finished result => .finished result
  | .panicked => .panicked

/-- The task of an active execution, with its history. -/
def ofTask (a : ActiveExecution) (accepted : List ContextMessage) (log : List Entry) : Completion :=
  { request := a.item.request, execution := a.execution, executionCount := a.executionCount
    phase := ofPhase a.phase, output := a.output, out := a.out, accepted, log }

/-- A step of the task is one step here, or two at the return of the call. -/
theorem run_of_task_step {a a' : ActiveExecution} {l : TaskLabel} {es : List Emission}
    (h : a.step l = some (a', es)) (accepted : List ContextMessage) (log : List Entry) :
    ∃ ls, run step (ofTask a accepted log) ls =
      some (ofTask a' (accepted ++ l.emits) (log ++ es.map .own)) := by
  cases ActiveExecution.step_rule h with
  | emit hout => exact ⟨[.emit], by simp [run_singleton, step, ofTask, hout, TaskLabel.emits]⟩
  | @accept m hphase hout hm =>
      exact ⟨[.accept m], by
        simp [run_singleton, step, ofTask, hphase, hout, hm, ofPhase, TaskLabel.emits]⟩
  | @returned outcome hphase hout =>
      refine ⟨[.returned outcome, .flush], run_cons_eq_some.mpr
        ⟨{ ofTask a accepted log with phase := .returned outcome }, ?_, ?_⟩⟩
      · simp [step, ofTask, hphase, hout, ofPhase]
      · simp [run_singleton, step, ofTask, ofPhase, TaskLabel.emits]
  | panic hphase hout =>
      exact ⟨[.panic], by
        simp [run_singleton, step, ofTask, hphase, hout, ofPhase, TaskLabel.emits]⟩
  | @pump l output es hpump =>
      exact ⟨[.pump l], by simp [run_singleton, step, ofTask, hpump, TaskLabel.emits]⟩
  | flushed hphase hflushed =>
      exact ⟨[.flushed], by
        simp [run_singleton, step, ofTask, hphase, hflushed, ofPhase, TaskLabel.emits]⟩
  | finish hphase hout =>
      exact ⟨[.finish], by
        simp [run_singleton, step, ofTask, hphase, hout, ofPhase, TaskLabel.emits]⟩

end Completion

/-! ## Output precedes completion -/

/-- The event is out: as its publication, or as part of the text of a stream. -/
def Shown (silent : Bool) (es : List Emission) : ContextMessage → Prop
  | .event (.stream name text) => silent = false →
      ∃ before after, .event (streamPublication name (before ++ text ++ after)) ∈ es
  | .event e => ∀ p ∈ publishEvent silent e, .event p ∈ es
  | _ => True

/-- `m'` is `m`, or a stream event whose text contains that of `m`. -/
def Covers (m m' : ContextMessage) : Prop :=
  m = m' ∨ ∃ name text before after, m = .event (.stream name text) ∧
    m' = .event (.stream name (before ++ text ++ after))

theorem Covers.trans {a b c : ContextMessage} (h : Covers a b) (h' : Covers b c) : Covers a c := by
  rcases h with rfl | ⟨name, text, before, after, rfl, rfl⟩
  · exact h'
  · rcases h' with rfl | ⟨name', text', before', after', heq, rfl⟩
    · exact .inr ⟨name, text, before, after, rfl, rfl⟩
    · cases heq
      exact .inr ⟨name, text, before' ++ before, after ++ after', rfl, by simp [String.append_assoc]⟩

theorem covers_glue {a b : ContextMessage} (h : streams.Together a b) :
    Covers a (streams.glue a b) ∧ Covers b (streams.glue a b) := by
  obtain ⟨name, ha, hb⟩ := h.keys
  obtain ⟨text, rfl⟩ := streamName_eq_some.mp ha
  obtain ⟨more, rfl⟩ := streamName_eq_some.mp hb
  exact ⟨.inr ⟨name, text, "", more, rfl, by simp [streams, glueStream]⟩,
    .inr ⟨name, more, text, "", rfl, by simp [streams, glueStream]⟩⟩

theorem Performed.mem {actions : List PumpAction} {es : List Emission} (h : Performed actions es)
    {p : Publication} (hp : .publish p ∈ actions) : .event p ∈ es := by
  induction h with
  | nil => cases hp
  | publish q _ ih =>
      rcases List.mem_cons.mp hp with heq | hrest
      · cases heq
        exact List.mem_cons_self ..
      · exact List.mem_cons_of_mem _ (ih hrest)
  | flush _ ih =>
      rcases List.mem_cons.mp hp with heq | hrest
      · cases heq
      · exact ih hrest
  | input prompt password sent _ ih =>
      rcases List.mem_cons.mp hp with heq | hrest
      · cases heq
      · exact List.mem_append_right _ (ih hrest)

theorem Published.shown {silent : Bool} {events : List ContextMessage} {es : List Emission}
    (h : Published silent events es) {m : ContextMessage} (hm : m ∈ events) :
    Shown silent es m := by
  obtain ⟨batches, more, es₁, es₂, hflat, rfl, hperf⟩ := h
  have hmem : m ∈ batches.flatten := by
    rw [hflat]
    exact List.mem_append_left _ hm
  obtain ⟨batch, hbatch, hin⟩ := List.mem_flatten.mp hmem
  obtain ⟨m', hm', hcovers⟩ : ∃ m' ∈ streams.join batch, Covers m m' :=
    Joining.exists_mem_join (fun _ => .inl rfl) (fun _ _ _ => Covers.trans)
      (fun _ _ => covers_glue) hin
  have hout : ∀ p, pumpAction silent m' = some (.publish p) → .event p ∈ es₁ ++ es₂ := by
    intro p hp
    refine List.mem_append_left _ (hperf.mem (List.mem_flatMap.mpr ⟨batch, hbatch, ?_⟩))
    rw [pumpBatch, coalesce_none]
    exact List.mem_filterMap.mpr ⟨m', hm', hp⟩
  rcases hcovers with rfl | ⟨name, text, before, after, rfl, rfl⟩
  · cases m with
    | event e =>
        cases e with
        | stream name text =>
            intro hsilent
            refine ⟨"", "", ?_⟩
            simpa using hout (streamPublication name text) (by rw [pumpAction_stream, hsilent]; rfl)
        | display event buffers =>
            intro p hp
            exact hout p (by rw [pumpAction, hp]; rfl)
        | message msgType content metadata identity buffers =>
            intro p hp
            exact hout p (by rw [pumpAction, hp]; rfl)
    | flush | input => trivial
  · intro hsilent
    exact ⟨before, after, hout _ (by rw [pumpAction_stream, hsilent]; rfl)⟩

/-- Before a message that tells how the execution ended, every event that was
accepted before the language call returned is out. -/
theorem output_precedes_completion {request : Message} {execution : ExecuteRequest} {n : Nat}
    {ls : List CompletionLabel} {t : Completion}
    (hrun : run Completion.step (Completion.spawn request execution n) ls = some t)
    {before after : List Entry} {e : Emission} (hlog : t.log = before ++ .own e :: after)
    (hcompletes : e.completes = true) :
    Published execution.silent t.accepted (outputOf before) ∧
      ∀ m ∈ t.accepted, Shown execution.silent (outputOf before) m := by
  have hstage : t.Stage :=
    run_invariant (fun _ _ _ => Completion.stage_step) hrun (Completion.stage_spawn request execution n)
  have hexecution : t.execution = execution :=
    run_invariant (fun a l b h hstep => (Completion.execution_step hstep).trans h) hrun rfl
  have hnot : ¬ Incomplete t.log := by
    intro hlog'
    have hfalse := hlog' e (by rw [hlog]; simp)
    rw [hcompletes] at hfalse
    cases hfalse
  have hfinishing : t.Finishing := by
    cases hphase : t.phase <;> simp only [Completion.Stage, hphase] at hstage
    case finishing => exact hstage
    case finished => exact hstage
    all_goals exact absurd hstage.log hnot
  obtain ⟨settled, rest, hsplit, hsettled, hpublished⟩ := hfinishing
  rw [hexecution] at hpublished
  -- the message is not in the settled part, so it comes after all of it
  obtain ⟨more, hbefore⟩ : ∃ more, before = settled ++ more := by
    rw [hlog] at hsplit
    rcases List.append_eq_append_iff.mp hsplit with ⟨x, hx, hrest⟩ | ⟨x, hx, _⟩
    · cases x with
      | nil => exact ⟨[], by rw [hx]; simp⟩
      | cons y x =>
          cases hrest
          have hfalse := hsettled e (by rw [hx]; simp)
          rw [hcompletes] at hfalse
          cases hfalse
    · exact ⟨x, hx⟩
  have hall : Published execution.silent t.accepted (outputOf before) := by
    rw [hbefore, outputOf_append]
    exact hpublished.append _
  exact ⟨hall, fun m hm => hall.shown hm⟩

/-- A cell that writes to stdout, with a write of a thread it left behind:
both are out before the reply. -/
theorem output_precedes_completion_stdout :
    ∃ t before after content, run Completion.step (Completion.spawn {} ⟨"", false, true, .null, true⟩ 1)
        [.emit, .emit, .accept (.event (.stream "stdout" "a")), .returned (.ok {}),
          .accept (.event (.stream "stdout" "b")), .flush, .other busy, .pump (.recvMany 3),
          .pump (.act true), .pump (.act true), .flushed, .emit, .emit] = some t ∧
      t.log = before ++ .own (.reply "execute_reply" content) :: after ∧
      t.accepted = [.event (.stream "stdout" "a")] ∧
      outputOf before = [.event (streamPublication "stdout" "ab")] ∧
      Shown false (outputOf before) (.event (.stream "stdout" "a")) := by
  have hrun : run Completion.step (Completion.spawn {} ⟨"", false, true, .null, true⟩ 1)
      [.emit, .emit, .accept (.event (.stream "stdout" "a")), .returned (.ok {}),
        .accept (.event (.stream "stdout" "b")), .flush, .other busy, .pump (.recvMany 3),
        .pump (.act true), .pump (.act true), .flushed, .emit, .emit] = some _ := rfl
  refine ⟨_, [.own busy, .own (.iopub "execute_input" (.object
      [("code", .string ""), ("execution_count", .count 1)])), .other busy,
    .own (.event (streamPublication "stdout" "ab"))], [.own idle], _, hrun, rfl, rfl, rfl, ?_⟩
  exact (output_precedes_completion hrun rfl rfl).2 _ (List.mem_singleton.mpr rfl)

end Kernmini.Engine
