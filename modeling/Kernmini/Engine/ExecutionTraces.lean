/-
Kernmini.Engine.ExecutionTraces — the trace of one execution, as far as its
task goes.

The task of an execution sends the opening, waits for its language, flushes
the output, and sends the closing. `Told` says for each phase what has been
sent and what the language has emitted; every step of the task keeps it
(`told_step`), and once the reply is out the trace is whole
(`Told.executeTrace`).
-/
import Kernmini.Engine.Traces
import Kernmini.Engine.Execution

namespace Kernmini.Engine

open Kernmini.Wire Kernmini.Lib

/-- The task without the marks the scheduler leaves on it. -/
def ActiveExecution.unmarked (a : ActiveExecution) : ActiveExecution :=
  { a with interrupted := false, aborted := false }

/-- What a task has sent, and its language emitted, in each phase. -/
inductive ActiveExecution.Told (a : ActiveExecution) (sent : List Emission)
    (emitted : List ContextMessage) : Prop
  | starting (hphase : a.phase = .running)
      (hsent : startExecution a.execution a.executionCount = sent ++ a.out)
      (hemitted : emitted = []) (houtput : a.output = {})
  | running (es : List Emission) (hphase : a.phase = .running ∨ a.phase = .panicked)
      (hout : a.out = []) (hsent : sent = startExecution a.execution a.executionCount ++ es)
      (hdelivered : a.output.Delivered a.execution.silent emitted es) (hopen : a.output.Open)
  | flushing (outcome : Except Error ExecuteOutcome) (es : List Emission)
      (hphase : a.phase = .flushing outcome) (hout : a.out = [])
      (hsent : sent = startExecution a.execution a.executionCount ++ es)
      (hdelivered : a.output.Delivered a.execution.silent (emitted ++ [.flush]) es)
      (hlast : a.output.Last)
  | finishing (result : Except Error ExecutionDone) (es closing : List Emission)
      (hphase : a.phase = .finishing result ∨ a.phase = .finished result)
      (hsent : sent ++ a.out = startExecution a.execution a.executionCount ++ (es ++ closing))
      (hevents : EventsOf a.execution.silent emitted es) (hclosing : Closing closing)
      (hover : a.output.Over)

namespace ActiveExecution

variable {a a' : ActiveExecution} {sent es : List Emission} {emitted : List ContextMessage}

theorem told_spawn (item : QueueItem) (execution : ExecuteRequest) (n : Nat) :
    (spawn item execution n).Told [] [] :=
  .starting rfl rfl rfl rfl

/-- The marks of the scheduler say nothing. -/
theorem Told.of_unmarked (h : a.Told sent emitted) (heq : a'.unmarked = a.unmarked) :
    a'.Told sent emitted := by
  have hphase : a'.phase = a.phase := congrArg (·.phase) heq
  have hexecution : a'.execution = a.execution := congrArg (·.execution) heq
  have hcount : a'.executionCount = a.executionCount := congrArg (·.executionCount) heq
  have hout : a'.out = a.out := congrArg (·.out) heq
  have houtput : a'.output = a.output := congrArg (·.output) heq
  cases h with
  | starting hp hs he ho =>
      exact .starting (hphase ▸ hp) (by rw [hexecution, hcount, hout]; exact hs) he
        (houtput ▸ ho)
  | running es hp ho hs hd hopen =>
      exact .running es (hphase ▸ hp) (hout ▸ ho) (by rw [hexecution, hcount]; exact hs)
        (by rw [houtput, hexecution]; exact hd) (houtput ▸ hopen)
  | flushing outcome es hp ho hs hd hlast =>
      exact .flushing outcome es (hphase ▸ hp) (hout ▸ ho)
        (by rw [hexecution, hcount]; exact hs) (by rw [houtput, hexecution]; exact hd)
        (houtput ▸ hlast)
  | finishing result es closing hp hs he hc hover =>
      exact .finishing result es closing (hphase ▸ hp)
        (by rw [hexecution, hcount, hout]; exact hs) (hexecution ▸ he) hc (houtput ▸ hover)

/-- The language is at work once the two opening messages are sent. -/
theorem Told.at_work (h : a.Told sent emitted) (hphase : a.phase = .running)
    (hout : a.out = []) :
    ∃ es, sent = startExecution a.execution a.executionCount ++ es ∧
      a.output.Delivered a.execution.silent emitted es ∧ a.output.Open := by
  cases h with
  | starting hp hs he ho =>
      refine ⟨[], ?_, ?_, ?_⟩
      · simp [hs, hout]
      · rw [he, ho]
        exact Output.delivered_init
      · rw [ho]
        exact Output.open_init
  | running es hp ho hs hd hopen => exact ⟨es, hs, hd, hopen⟩
  | flushing outcome es hp =>
      rw [hphase] at hp
      cases hp
  | finishing result es closing hp =>
      rw [hphase] at hp
      rcases hp with hp | hp <;> cases hp

theorem told_step {l : TaskLabel} (h : a.Told sent emitted) (hex : a.item.isExecute = true)
    (hstep : a.step l = some (a', es)) : a'.Told (sent ++ es) (emitted ++ l.emits) := by
  cases step_rule hstep with
  | emit hout =>
      simp only [TaskLabel.emits, List.append_nil]
      cases h with
      | starting hp hs he ho => exact .starting hp (by simp [hs, hout]) he ho
      | running es hp ho =>
          rw [hout] at ho
          cases ho
      | flushing outcome es hp ho =>
          rw [hout] at ho
          cases ho
      | finishing result es closing hp hs he hc hover =>
          exact .finishing result es closing hp (by simpa [hout] using hs) he hc hover
  | @accept m hp hout hm =>
      obtain ⟨es, hs, hd, hopen⟩ := h.at_work hp hout
      have hne : m ≠ .flush := by
        rintro rfl
        cases hm
      exact .running es (Or.inl hp) hout (by rw [List.append_nil]; exact hs) (hd.accept m)
        (hopen.accept hne)
  | @returned outcome hp hout =>
      obtain ⟨es, hs, hd, hopen⟩ := h.at_work hp hout
      simp only [TaskLabel.emits, List.append_nil]
      exact .flushing outcome es rfl hout hs (hd.accept .flush) hopen.accept_flush
  | panic hp hout =>
      obtain ⟨es, hs, hd, hopen⟩ := h.at_work hp hout
      simp only [TaskLabel.emits, List.append_nil]
      exact .running es (Or.inr rfl) hout hs hd hopen
  | pump hpump =>
      simp only [TaskLabel.emits, List.append_nil]
      cases h with
      | starting hp hs he ho =>
          rw [ho, Output.Over.step ⟨rfl, rfl⟩] at hpump
          cases hpump
      | running es₀ hp ho hs hd hopen =>
          exact .running (es₀ ++ es) hp ho (by rw [hs, List.append_assoc]) (hd.step hpump)
            (hopen.step hpump)
      | flushing outcome es₀ hp ho hs hd hlast =>
          exact .flushing outcome (es₀ ++ es) hp ho (by rw [hs, List.append_assoc])
            (hd.step hpump) (hlast.step hpump)
      | finishing result es₀ closing hp hs he hc hover =>
          rw [hover.step] at hpump
          cases hpump
  | flushed hp hflushed =>
      simp only [TaskLabel.emits, List.append_nil]
      cases h with
      | starting hp' =>
          rw [hp] at hp'
          cases hp'
      | running es hp' =>
          rw [hp] at hp'
          rcases hp' with hp' | hp' <;> cases hp'
      | flushing outcome' es hp' ho hs hd hlast =>
          have hover := hlast.over_of_flushed hflushed
          exact .finishing _ es _ (Or.inl rfl) (by rw [hs, List.append_assoc])
            (hd.eventsOf hover) (closing_finishExecution hex _ _ _) hover
      | finishing result es closing hp' =>
          rw [hp] at hp'
          rcases hp' with hp' | hp' <;> cases hp'
  | finish hp hout =>
      simp only [TaskLabel.emits, List.append_nil]
      cases h with
      | starting hp' =>
          rw [hp] at hp'
          cases hp'
      | running es hp' =>
          rw [hp] at hp'
          rcases hp' with hp' | hp' <;> cases hp'
      | flushing outcome' es hp' =>
          rw [hp] at hp'
          cases hp'
      | finishing result' es closing hp' hs he hc hover =>
          exact .finishing _ es closing (Or.inr rfl) hs he hc hover

/-- The trace of a task that has come to its reply, sent and pending. -/
theorem Told.executeTrace (h : a.Told sent emitted) (hreply : ∃ e ∈ sent, e.isReply = true) :
    ∃ events, EventsOf a.execution.silent emitted events ∧
      ExecuteTrace events (sent ++ a.out) := by
  obtain ⟨e, he, hreply⟩ := hreply
  have hstart := isReply_of_opening (opening_startExecution a.execution a.executionCount)
  cases h with
  | starting hp hs _ _ =>
      have hnone := hstart e (by rw [hs]; exact List.mem_append_left _ he)
      rw [hreply] at hnone
      cases hnone
  | running es hp ho hs hd hopen =>
      rw [hs] at he
      rcases List.mem_append.mp he with hin | hin
      · rw [hstart e hin] at hreply
        cases hreply
      · rw [hd.isReply e hin] at hreply
        cases hreply
  | flushing outcome es hp ho hs hd hlast =>
      rw [hs] at he
      rcases List.mem_append.mp he with hin | hin
      · rw [hstart e hin] at hreply
        cases hreply
      · rw [hd.isReply e hin] at hreply
        cases hreply
  | finishing result es closing hp hs hev hc hover =>
      exact ⟨es, hev, _, closing, opening_startExecution _ _, hc, hs⟩

/-- A task that has returned has left a whole trace. -/
theorem Told.executeTrace_of_finished (h : a.Told sent emitted)
    {result : Except Error ExecutionDone} (hphase : a.phase = .finished result)
    (hout : a.out = []) :
    ∃ events, EventsOf a.execution.silent emitted events ∧ ExecuteTrace events sent := by
  cases h with
  | starting hp =>
      rw [hphase] at hp
      cases hp
  | running es hp =>
      rw [hphase] at hp
      rcases hp with hp | hp <;> cases hp
  | flushing outcome es hp =>
      rw [hphase] at hp
      cases hp
  | finishing result' es closing hp hs hev hc hover =>
      rw [hout, List.append_nil] at hs
      exact ⟨es, hev, _, closing, opening_startExecution _ _, hc, hs⟩

end ActiveExecution

end Kernmini.Engine
