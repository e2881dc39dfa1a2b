/-
Kernmini.Engine.Numbering — the execution counts of a shell.

The scheduler counts the executions that store history and are not silent.
Every message with a count takes it from the scheduler, but not at the same
time: an execution gets its count when it is started and reports it from a
task of its own, and everything else reports the counter as it is. That both
are the number of executions counted so far is an invariant of the whole run:
the counter moves only when an execution is started, when no other has
anything left to report.

The counts are those of the messages the engine builds. An event of a language
is published as the language made it.
-/
import Kernmini.Lib.Observe
import Kernmini.Engine.ShellTheorems

namespace Kernmini.Engine

open Kernmini.Wire Kernmini.Lib

/-! ## Messages with a count -/

/-- The count in an `execute_input`, `execute_result` or `execute_reply`. -/
def Emission.executionCount : Emission → Option UInt64
  | .iopub msgType content =>
      if msgType = "execute_input" ∨ msgType = "execute_result" then
        (content.get "execution_count").bind Value.asU64
      else none
  | .reply msgType content =>
      if msgType = "execute_reply" then (content.get "execution_count").bind Value.asU64 else none
  | .event _ | .inputRequest _ _ => none

/-- All counts in these messages are `n`. -/
def Counts (n : Nat) (es : List Emission) : Prop :=
  ∀ e ∈ es, ∀ count, e.executionCount = some count → count = UInt64.ofNat n

@[simp] theorem counts_nil (n : Nat) : Counts n [] := nofun

@[simp] theorem counts_cons {n : Nat} {e : Emission} {es : List Emission} :
    Counts n (e :: es) ↔
      (∀ count, e.executionCount = some count → count = UInt64.ofNat n) ∧ Counts n es := by
  simp [Counts]

@[simp] theorem counts_append {n : Nat} {es es' : List Emission} :
    Counts n (es ++ es') ↔ Counts n es ∧ Counts n es' := by
  simp only [Counts, List.mem_append]
  grind

@[simp] theorem executionCount_iopub (msgType : String) (content : Value) :
    (Emission.iopub msgType content).executionCount =
      if msgType = "execute_input" ∨ msgType = "execute_result" then
        (content.get "execution_count").bind Value.asU64
      else none := rfl

@[simp] theorem executionCount_reply (msgType : String) (content : Value) :
    (Emission.reply msgType content).executionCount =
      if msgType = "execute_reply" then (content.get "execution_count").bind Value.asU64
      else none := rfl

@[simp] theorem executionCount_busy : busy.executionCount = none := by
  simp [busy, status, Emission.executionCount]

@[simp] theorem executionCount_idle : idle.executionCount = none := by
  simp [idle, status, Emission.executionCount]

@[simp] theorem asU64_count (n : Nat) : Value.asU64 (.count n) = some (UInt64.ofNat n) := rfl

/-- The count in this content, if it has one, is `n`. -/
def Carries (n : Nat) (content : Value) : Prop :=
  ∀ count, (content.get "execution_count").bind Value.asU64 = some count → count = UInt64.ofNat n

theorem carries_of_none {n : Nat} {content : Value} (h : content.get "execution_count" = none) :
    Carries n content := by
  simp [Carries, h]

theorem counts_reply {n : Nat} {msgType : String} {content : Value}
    (h : msgType ≠ "execute_reply" ∨ Carries n content) : Counts n [.reply msgType content] := by
  refine counts_cons.mpr ⟨?_, counts_nil n⟩
  intro count hcount
  rw [Emission.executionCount] at hcount
  split at hcount
  · next hreply => exact h.resolve_left (not_not.mpr hreply) count hcount
  · cases hcount

theorem carries_errorContent (request : Message) (n : Nat) (ename evalue : String) :
    Carries n (errorContent request n ename evalue) := by
  by_cases hex : request.msgType = "execute_request"
  · simp [Carries, errorContent, hex, Value.set, Map.insert, Value.get, Map.get, eq_comm]
  · refine carries_of_none ?_
    rw [errorContent, if_neg hex]
    split_ifs <;> rfl

theorem counts_replyError {n : Nat} (request : Message) {content : Value}
    (h : Carries n content) : Counts n (replyError request content) := by
  have hreply : Counts n [.reply request.replyType content] := counts_reply (.inr h)
  unfold replyError
  split
  all_goals simpa using hreply

theorem counts_replyMissing (n : Nat) (request : Message) (missing : List String) :
    Counts n (replyMissing n request missing) :=
  counts_replyError request (carries_errorContent request n _ _)

theorem counts_reportFailure (request : Message) (error : Error) (n : Nat) :
    Counts n (reportFailure request error n) := by
  have hreply := @counts_reply n request.replyType _
    (.inr (carries_errorContent request n
      (if error.kind = .interrupted then "KeyboardInterrupt" else "KernelError") error.message))
  refine counts_append.mpr ⟨counts_append.mpr ⟨?_, ?_⟩, by simp⟩
  · split
    · simp
    · exact counts_nil n
  · split
    · exact hreply
    · exact counts_nil n

theorem counts_startExecution (execution : ExecuteRequest) (n : Nat) :
    Counts n (startExecution execution n) := by
  unfold startExecution
  split <;> simp [Value.get, Map.get]

theorem counts_finishExecution (request : Message) (silent : Bool) (n : Nat)
    (outcome : Except Error ExecuteOutcome) :
    Counts n (finishExecution request silent n outcome).1 := by
  cases outcome with
  | error error => exact counts_reportFailure request error n
  | ok outcome =>
      simp only [finishExecution, executeOutcome]
      split
      · simp [Value.get, Map.get]
      · cases outcome.result <;> cases silent <;> simp [Value.get, Map.get]

theorem counts_abortExecute (n : Nat) : Counts n (abortExecute n) := by
  simp [abortExecute, Value.get, Map.get]

theorem counts_interruptExecute (n : Nat) : Counts n (interruptExecute n) := by
  simp [interruptExecute, Value.get, Map.get]

theorem counts_beginHold (n : Nat) (request : Message) : Counts n (beginHold n request) := by
  unfold beginHold
  split <;> simp [Value.get, Map.get]

theorem counts_finishHold (n : Nat) (releaseStatus : String) :
    Counts n (finishHold n releaseStatus).1 := by
  have hnull : Value.asU64 .null = none := rfl
  unfold finishHold
  split <;> simp [Value.get, Map.get, hnull]

/-- The reply of a service call has another type. -/
theorem replyType_of_serviceCall {request : Message} {call : ServiceCall}
    (h : serviceCall request = some call) : request.replyType ≠ "execute_reply" := by
  have key : ∀ t, request.msgType = t → request.replyType = replace t "_request" "_reply" := by
    intro t ht
    rw [Message.replyType, ht]
  unfold serviceCall at h
  split at h
  · next ht => rw [key _ ht]; decide
  · split at h
    · next ht => rw [key _ ht]; decide
    · split at h
      · next ht => rw [key _ ht]; decide
      · split at h
        · next ht => rw [key _ ht]; decide
        · split at h
          · next ht => rw [key _ ht]; decide
          · split at h
            · next ht => rcases ht with ht | ht | ht <;> rw [key _ ht] <;> decide
            · cases h

theorem Output.counts {silent : Bool} {o o' : Output} {l : OutputLabel} {es : List Emission}
    (h : o.step silent l = some (o', es)) (n : Nat) : Counts n es := by
  cases Output.step_rule h with
  | recvMany => exact counts_nil n
  | publish => simp [Emission.executionCount]
  | flush => exact counts_nil n
  | input => split <;> simp [Emission.executionCount]

/-! ## Executions that are counted -/

/-- An execution of this request stores history and is not silent. -/
def QueueItem.counted (item : QueueItem) : Bool :=
  (executeRequest item.request.content).storeHistory && !(executeRequest item.request.content).silent

namespace Shell

variable {services : Services} {s t : Shell} {l : Label} {item : QueueItem}

/-- The executions counted so far. -/
def countedSoFar (s : Shell) : Nat := s.started.countP QueueItem.counted

/-- All counts in these messages are `n`. -/
def Tagged (n : Nat) (es : List (Nat × Emission)) : Prop := Counts n (es.map Prod.snd)

theorem tagged_tag {n : Nat} {es : List Emission} : Tagged n (tag item es) ↔ Counts n es := by
  have hsnd : (tag item es).map Prod.snd = es := by simp [tag]
  rw [Tagged, hsnd]

/-- What is pending and what is running carries the number of executions
counted so far. -/
structure Numbering (s : Shell) : Prop where
  count : s.executionCount = s.countedSoFar
  out : Tagged s.executionCount s.out
  active : ∀ a ∈ s.active, a.executionCount = s.executionCount ∧ Counts s.executionCount a.out

/-- A step of the scheduler that starts nothing: it leaves messages with the
count there is. -/
structure Reports (s t : Shell) : Prop where
  log : t.log = s.log
  started : t.started = s.started
  executionCount : t.executionCount = s.executionCount
  active : ∀ a' ∈ t.active, ∃ a ∈ s.active, a'.executionCount = a.executionCount ∧ a'.out = a.out
  out : s.out = [] → Tagged s.executionCount t.out

theorem Reports.numbering (h : Reports s t) (hout : s.out = []) (hs : s.Numbering) :
    t.Numbering := by
  refine ⟨?_, ?_, ?_⟩
  · rw [h.executionCount, hs.count, countedSoFar, countedSoFar, h.started]
  · rw [h.executionCount]
    exact h.out hout
  · intro a' ha'
    obtain ⟨a, ha, hcount, houts⟩ := h.active a' ha'
    rw [h.executionCount, hcount, houts]
    exact hs.active a ha

/-- A step that sends nothing. -/
theorem Reports.quiet (hlog : t.log = s.log) (hstarted : t.started = s.started)
    (hcount : t.executionCount = s.executionCount) (hactive : t.active = s.active)
    (hout : t.out = s.out) : Reports s t := by
  refine ⟨hlog, hstarted, hcount, ?_, ?_⟩
  · intro a ha
    exact ⟨a, hactive ▸ ha, rfl, rfl⟩
  · intro hnone
    rw [hout, hnone]
    exact counts_nil _

/-- A step that leaves the messages of a handler. -/
theorem Reports.say (item : QueueItem) {es : List Emission} (hlog : t.log = s.log)
    (hstarted : t.started = s.started)
    (hcount : t.executionCount = s.executionCount) (hactive : t.active = s.active)
    (hout : t.out = s.out ++ tag item es) (hes : Counts s.executionCount es) : Reports s t := by
  refine ⟨hlog, hstarted, hcount, ?_, ?_⟩
  · intro a ha
    exact ⟨a, hactive ▸ ha, rfl, rfl⟩
  · intro hnone
    rw [hout, hnone]
    exact tagged_tag.mpr hes

theorem ApplyRule.reports {resume : Resume} {c : ShellControl} (h : ApplyRule s resume c t) :
    Reports s t := by
  -- an interrupt marks the active execution
  have hmark : ∀ a' ∈ s.active.map (fun a : ActiveExecution => { a with interrupted := true }),
      ∃ a ∈ s.active, a'.executionCount = a.executionCount ∧ a'.out = a.out := by
    intro a' ha'
    obtain ⟨a, ha, rfl⟩ := Option.mem_map.mp ha'
    exact ⟨a, ha, rfl, rfl⟩
  cases h with
  | release | releaseFailed => exact .say _ rfl rfl rfl rfl rfl (counts_finishHold _ _)
  | notHeld hheld => exact .quiet rfl rfl rfl rfl rfl
  | interruptFailed hactive =>
      exact ⟨rfl, rfl, rfl, hmark, fun hout => by rw [hout]; exact counts_nil _⟩
  | interruptHeld hheld =>
      refine ⟨rfl, rfl, rfl, hmark, fun hout => ?_⟩
      show Tagged s.executionCount (s.out ++ tag _ _)
      rw [hout]
      exact tagged_tag.mpr (counts_finishHold _ _)
  | interrupt hheld =>
      exact ⟨rfl, rfl, rfl, hmark, fun hout => by rw [hout]; exact counts_nil _⟩
  | stop => exact .quiet rfl rfl rfl rfl rfl

theorem Reports.of_controls {rest : List ShellControl} (h : Reports { s with controls := rest } t) :
    Reports s t := ⟨h.log, h.started, h.executionCount, h.active, h.out⟩

/-- `report_failure`, after what the handler had sent. -/
theorem failItem_reports {m : Shell} {error : Error} {es : List Emission}
    (hm : m = s ∨ m = s.say item es) (hes : Counts s.executionCount es) :
    Reports s (m.failItem item error) := by
  have hfailure := counts_reportFailure item.request error s.executionCount
  rcases hm with rfl | rfl
  · exact .say _ rfl rfl rfl rfl rfl hfailure
  · refine .say item rfl rfl rfl rfl ?_ (counts_append.mpr ⟨hes, hfailure⟩)
    simp [failItem, say, tag]

theorem HandleShellRule.reports (h : HandleShellRule services s item t) : Reports s t := by
  cases h with
  | missing hmissing => exact .say _ rfl rfl rfl rfl rfl (counts_replyMissing _ _ _)
  | shutdown htype =>
      exact .say _ rfl rfl rfl rfl rfl (counts_reply (.inl (by decide)))
  | kernelInfo htype =>
      have hreply : item.request.replyType ≠ "execute_reply" := by
        rw [Message.replyType, htype]
        decide
      exact .say _ rfl rfl rfl rfl rfl (by simp [hreply])
  | kernelInfoFailed htype => exact failItem_reports (.inr rfl) (by simp)
  | comm | commInfo => exact .quiet rfl rfl rfl rfl rfl
  | call hfields hcall hcomm => exact .say _ rfl rfl rfl rfl rfl (by simp)
  | connect htype hcall => exact .say _ rfl rfl rfl rfl rfl (counts_reply (.inl (by decide)))
  | otherRequest hrequest htype hcall =>
      exact .say _ rfl rfl rfl rfl rfl (counts_reply (.inr (carries_of_none rfl)))
  | ignored hrequest htype hcall => exact .quiet rfl rfl rfl rfl rfl

theorem executionDone_reports (done : ExecutionDone) (resume : Resume) :
    Reports s (s.executionDone done resume) := by
  refine ⟨rfl, rfl, rfl, ?_, ?_⟩
  · intro a ha
    simp [executionDone] at ha
  · intro hout
    show Tagged s.executionCount s.out
    rw [hout]
    exact counts_nil _

theorem abortQueued_reports (release : Option Nat) (resume : Resume) :
    Reports s (s.abortQueued release resume) := by
  refine ⟨rfl, rfl, rfl, fun a ha => ⟨a, ha, rfl, rfl⟩, ?_⟩
  intro hout e he count hcount
  obtain ⟨p, hp, rfl⟩ := List.mem_map.mp he
  simp only [abortQueued, hout, List.nil_append, List.mem_flatMap] at hp
  obtain ⟨item, _, hp⟩ := hp
  obtain ⟨e, hsent, rfl⟩ := List.mem_map.mp hp
  exact counts_abortExecute _ e hsent count hcount

/-- A step of the scheduler starts an execution, or reports. -/
theorem LoopRule.reports (hsh : s.Shape) (h : LoopRule services s l t) :
    Reports s t ∨ ∃ item, t = { s with
      executionCount := s.countExecution (executeRequest item.request.content)
      active := some (.spawn item (executeRequest item.request.content)
        (s.countExecution (executeRequest item.request.content)))
      started := s.started ++ [item]
      pc := .drainIncoming } := by
  cases h with
  | takeControl hpc hcontrols h | selectControl hpc hcontrols h =>
      exact .inl (h.reports.of_controls)
  | reap | selectDone => exact .inl (executionDone_reports _ _)
  | handle hpc h =>
      cases h with
      | shell hex h => exact .inl h.reports
      | interrupted hex hinterrupting =>
          exact .inl (.say _ rfl rfl rfl rfl rfl (counts_interruptExecute _))
      | missing hex hmissing => exact .inl (.say _ rfl rfl rfl rfl rfl (counts_replyMissing _ _ _))
      | hold hex hhold => exact .inl (.say _ rfl rfl rfl rfl rfl (counts_beginHold _ _))
      | execute hex hinterrupting hhold => exact .inr ⟨_, rfl⟩
  | abort hpc hincoming => exact .inl (abortQueued_reports _ _)
  | selectTimeout hpc hheld => exact .inl (.say _ rfl rfl rfl rfl rfl (counts_finishHold _ _))
  | callFailed hpc => exact .inl (failItem_reports (.inl rfl) (counts_nil _))
  | commInfoReturned hpc =>
      exact .inl (.say _ rfl rfl rfl rfl rfl (counts_reply (.inl (by decide))))
  | callReturned hpc hcomm =>
      have hok := hsh.pc
      rw [hpc] at hok
      have hreply := replyType_of_serviceCall hok.1
      exact .inl (.say _ rfl rfl rfl rfl rfl (by simp [hreply]))
  | _ => exact .inl (.quiet rfl rfl rfl rfl rfl)

theorem countExecution_eq (s : Shell) (item : QueueItem) :
    s.countExecution (executeRequest item.request.content) =
      s.executionCount + if item.counted then 1 else 0 := by
  unfold countExecution QueueItem.counted
  split <;> rfl

theorem countedSoFar_snoc (h : t.started = s.started ++ [item]) :
    t.countedSoFar = s.countedSoFar + if item.counted then 1 else 0 := by
  rw [countedSoFar, h, List.countP_append, List.countP_singleton]
  rfl

/-- A new execution carries the number of executions counted with it. -/
theorem numbering_spawn {pc : Pc} (hs : s.Numbering) (hout : s.out = []) :
    ({ s with
      executionCount := s.countExecution (executeRequest item.request.content)
      active := some (.spawn item (executeRequest item.request.content)
        (s.countExecution (executeRequest item.request.content)))
      started := s.started ++ [item]
      pc := pc } : Shell).Numbering := by
  refine ⟨?_, ?_, ?_⟩
  · show s.countExecution _ = (s.started ++ [item]).countP QueueItem.counted
    rw [countExecution_eq, hs.count, List.countP_append, List.countP_singleton]
    rfl
  · show Tagged _ s.out
    rw [hout]
    exact counts_nil _
  · intro a ha
    cases ha
    exact ⟨rfl, counts_startExecution _ _⟩

/-- A step of the task keeps its count, and what it sends carries it. -/
theorem task_counts {a a' : ActiveExecution} {tl : TaskLabel} {es : List Emission} {n : Nat}
    (hcount : a.executionCount = n) (hout : Counts n a.out) (h : a.step tl = some (a', es)) :
    a'.executionCount = n ∧ Counts n a'.out ∧ Counts n es := by
  cases ActiveExecution.step_rule h with
  | emit hcons =>
      rw [hcons] at hout
      obtain ⟨hfirst, hrest⟩ := counts_cons.mp hout
      exact ⟨hcount, hrest, counts_cons.mpr ⟨hfirst, counts_nil n⟩⟩
  | accept | returned | panic => exact ⟨hcount, hout, counts_nil n⟩
  | pump hpump => exact ⟨hcount, hout, Output.counts hpump n⟩
  | flushed hphase hflushed =>
      subst hcount
      exact ⟨rfl, counts_finishExecution _ _ _ _, counts_nil _⟩
  | finish hphase hnone => exact ⟨hcount, hout, counts_nil n⟩

/-- A step keeps the numbering, and what it sends carries the number of
executions counted so far. -/
theorem numbering_step (hsh : s.Shape) (hs : s.Numbering) (h : s.step services l = some t) :
    t.Numbering ∧ ∃ sent, t.log = s.log ++ sent ∧ Tagged t.countedSoFar sent := by
  have hnothing : t.log = s.log → ∃ sent, t.log = s.log ++ sent ∧ Tagged t.countedSoFar sent :=
    fun hlog => ⟨[], by rw [hlog, List.append_nil], counts_nil _⟩
  cases step_rule h with
  | loop hout hloop =>
      rcases hloop.reports hsh with hreports | ⟨item, rfl⟩
      · exact ⟨hreports.numbering hout hs, hnothing hreports.log⟩
      · exact ⟨numbering_spawn hs hout, hnothing rfl⟩
  | emit hout =>
      rename_i e rest
      have hpending := hs.out
      rw [hout, Tagged, List.map_cons, counts_cons] at hpending
      refine ⟨⟨hs.count, hpending.2, hs.active⟩, [e], rfl, ?_⟩
      show Tagged s.countedSoFar [e]
      rw [← hs.count]
      exact counts_cons.mpr ⟨hpending.1, counts_nil _⟩
  | commPump hget hpump =>
      rename_i comm order l output output' es
      refine ⟨⟨hs.count, hs.out, hs.active⟩, es.map (order, ·), rfl, ?_⟩
      have hsnd : (es.map (order, ·)).map Prod.snd = es := by simp
      rw [Tagged, hsnd]
      exact Output.counts hpump _
  | task hactive hrunning hstep =>
      rename_i l a a' es
      obtain ⟨hcount, hout⟩ := hs.active a hactive
      obtain ⟨hcount', hout', hsent⟩ := task_counts hcount hout hstep
      refine ⟨⟨hs.count, hs.out, ?_⟩, tag a.item es, rfl, ?_⟩
      · intro b hb
        cases hb
        exact ⟨hcount', hout'⟩
      · show Tagged s.countedSoFar (tag a.item es)
        rw [← hs.count]
        exact tagged_tag.mpr hsent
  | dropped hactive hclosed =>
      refine ⟨⟨hs.count, hs.out, ?_⟩, hnothing rfl⟩
      intro b hb
      cases hb
      have hsame := hs.active _ hactive
      exact hsame
  | _ => exact ⟨⟨hs.count, hs.out, hs.active⟩, hnothing rfl⟩

/-! ## Whole runs -/

/-- An observer writes down the counts of the executions that are counted. -/
def watchCounts (s : Shell) (_ : Label) (t : Shell) (counts : List Nat) : List Nat :=
  match t.started.drop s.started.length, t.active with
  | item :: _, some a => if item.counted then counts ++ [a.executionCount] else counts
  | _, _ => counts

/-- A step starts nothing, or one execution, which is then active. -/
theorem starts_of_step (hsh : s.Shape) (h : s.step services l = some t) :
    t.started = s.started ∨ ∃ item a, t.started = s.started ++ [item] ∧ t.active = some a := by
  cases step_rule h with
  | loop hout hloop =>
      rcases hloop.reports hsh with hreports | ⟨item, rfl⟩
      · exact .inl hreports.started
      · exact .inr ⟨item, _, rfl, rfl⟩
  | _ => exact .inl rfl

/-- The counts given so far are those of the executions counted so far. -/
structure CountsGiven (o : Observed Shell (List Nat)) : Prop where
  shape : o.state.Shape
  numbering : o.state.Numbering
  notes : o.notes = List.range' 1 o.state.countedSoFar

theorem countsGiven_step {o o' : Observed Shell (List Nat)} (ho : CountsGiven o)
    (h : observe (step services) watchCounts o l = some o') : CountsGiven o' := by
  obtain ⟨hstep, hnotes⟩ := observe_cases h
  obtain ⟨hnumbering, _⟩ := numbering_step ho.shape ho.numbering hstep
  refine ⟨shape_step ho.shape hstep, hnumbering, ?_⟩
  rw [hnotes, ho.notes]
  rcases starts_of_step ho.shape hstep with hsame | ⟨item, a, hstarted, hactive⟩
  · simp [watchCounts, countedSoFar, hsame]
  · have hcount : a.executionCount = o'.state.countedSoFar :=
      (hnumbering.active a hactive).1.trans hnumbering.count
    have hsum := countedSoFar_snoc hstarted
    have hdrop : o'.state.started.drop o.state.started.length = [item] := by
      rw [hstarted, List.drop_left]
    simp only [watchCounts, hdrop, hactive]
    by_cases hcounted : item.counted
    · rw [if_pos hcounted] at hsum ⊢
      rw [hcount, hsum, List.range'_1_concat, Nat.add_comm 1]
    · rw [if_neg hcounted] at hsum ⊢
      rw [hsum, Nat.add_zero]

/-- In every run of a shell the executions that store history and are not
silent are given the counts 1, 2, 3, … in the order they start. The count that
the language of an execution reads, and the count in whatever is sent with one,
is the number of those started so far. -/
theorem execution_numbering {ls : List Label} {o : Observed Shell (List Nat)}
    (hrun : run (observe (step services) watchCounts) ⟨{}, []⟩ ls = some o) :
    o.notes = List.range' 1 (o.state.started.countP QueueItem.counted) ∧
    (∀ a ∈ o.state.active, a.executionCount = o.state.started.countP QueueItem.counted) ∧
    ∀ l t, o.state.step services l = some t → ∃ sent, t.log = o.state.log ++ sent ∧
      ∀ n e count, (n, e) ∈ sent → e.executionCount = some count →
        count = UInt64.ofNat (t.started.countP QueueItem.counted) := by
  have hinit : CountsGiven ⟨{}, []⟩ :=
    ⟨shape_init, ⟨rfl, counts_nil _, fun a ha => by cases ha⟩, rfl⟩
  have hgiven : CountsGiven o :=
    run_invariant (fun a l b ha hab => countsGiven_step ha hab) hrun hinit
  refine ⟨hgiven.notes, ?_, ?_⟩
  · intro a ha
    exact (hgiven.numbering.active a ha).1.trans hgiven.numbering.count
  · intro l t hstep
    obtain ⟨_, sent, hlog, hsent⟩ := numbering_step hgiven.shape hgiven.numbering hstep
    refine ⟨sent, hlog, ?_⟩
    intro n e count hmem hcount
    exact hsent e (List.mem_map.mpr ⟨(n, e), hmem, rfl⟩) count hcount

/-- A cell is started and runs to its end. -/
def runCell : List Label :=
  [.next quiet, .task .emit, .task .emit, .task (.returned (.ok {})), .task (.pump (.recvMany 1)),
    .task (.pump (.act true)), .task .flushed, .task .emit, .task .emit, .task .finish]

/-- Cell `a` is run, and then cell `b`. -/
def runTwo : List Label :=
  popMessage (cell "a" 0 false) ++ runCell ++ (popMessage (cell "b" 0 false) ++ runCell)

/-- The reply of the second cell carries the second count. -/
theorem execution_numbering_two :
    ∃ o, run (observe (step plainServices) watchCounts) ⟨{}, []⟩ runTwo = some o ∧
      o.notes = [1, 2] ∧ o.state.log.filterMap (fun p => p.2.executionCount) = [1, 1, 2, 2] ∧
      o.notes = List.range' 1 (o.state.started.countP QueueItem.counted) := by
  have hview : (run (observe (step plainServices) watchCounts) ⟨{}, []⟩ runTwo).map
      (fun o => (o.notes, o.state.log.filterMap (fun p => p.2.executionCount))) =
      some ([1, 2], [1, 1, 2, 2]) := by decide
  obtain ⟨o, ho, hview⟩ := Option.map_eq_some_iff.mp hview
  obtain ⟨hnotes, hcounts⟩ := Prod.mk.inj hview
  exact ⟨o, ho, hnotes, hcounts, (execution_numbering ho).1⟩

end Shell

end Kernmini.Engine
