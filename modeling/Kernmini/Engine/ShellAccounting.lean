/-
Kernmini.Engine.ShellAccounting — where every message a shell has taken
out of its channel is, at every moment of every run.

A message is WAITING (queued, in the scheduler's hands, or parked as the
hold), EXECUTING (its task runs and has not come to its reply), or
accounted for by a reply that is sent or about to be sent. `Effect` says,
once for all of `Shell.step`, how one step moves messages between these
places; every result about lost, duplicated or restarted requests is
derived from `step_effect` and from `Shape`, the facts about the program
counter that the moves rest on.
-/
import Kernmini.Engine.ShellSteps

namespace Kernmini.Engine

open Kernmini.Wire Kernmini.Lib

/-! ## Places -/

/-- The item the scheduler has in its hands. -/
def Pc.item : Pc → Option QueueItem
  | .handle item => some item
  | .call item _ _ => some item
  | .commFlush item _ => some item
  | .park item => some item
  | _ => none

@[simp] theorem Resume.item_pc (resume : Resume) : resume.pc.item = none := by
  cases resume <;> rfl

/-- The rest of the `if` that reaps a finished execution. -/
def Pc.afterReap : Pc → Bool
  | .abort _ .settle => true
  | .answer _ .settle => true
  | _ => false

@[simp] theorem Resume.afterReap_pc (resume : Resume) : resume.pc.afterReap = false := by
  cases resume <;> rfl

/-- The requests that some tagged messages reply to, in order. -/
def repliesIn (l : List (Nat × Emission)) : List Nat :=
  (l.filter (fun e => e.2.isReply)).map Prod.fst

@[simp] theorem repliesIn_nil : repliesIn [] = [] := rfl

@[simp] theorem repliesIn_append (l l' : List (Nat × Emission)) :
    repliesIn (l ++ l') = repliesIn l ++ repliesIn l' := by
  simp [repliesIn]

theorem repliesIn_map (o : Nat) (es : List Emission) :
    repliesIn (es.map (o, ·)) = List.replicate (replyCount es) o := by
  induction es with
  | nil => rfl
  | cons e es ih =>
    by_cases he : e.isReply <;>
      simp_all [repliesIn, List.replicate_succ]

@[simp] theorem repliesIn_tag (item : QueueItem) (es : List Emission) :
    repliesIn (tag item es) = List.replicate (replyCount es) item.order :=
  repliesIn_map item.order es

theorem repliesIn_abort (n : Nat) (items : List QueueItem) :
    repliesIn (items.flatMap (fun item => tag item (abortExecute n))) =
      items.map QueueItem.order := by
  induction items with
  | nil => rfl
  | cons item items ih =>
    simp [ih, replyCount_abortExecute]

namespace Shell

/-- Not answered and not started: queued, in hand, or parked. -/
def waiting (s : Shell) : List QueueItem :=
  s.queue.items ++ (s.pc.item.toList ++ s.held.toList)

/-- Started, and not yet come to its reply. -/
def executing (s : Shell) : List QueueItem :=
  match s.active with
  | some a => if a.replying then [] else [a.item]
  | none => []

/-- The messages the active execution has still to send. -/
def activeOut (s : Shell) : List (Nat × Emission) :=
  match s.active with
  | some a => tag a.item a.out
  | none => []

/-- The requests whose reply is sent or about to be sent. -/
def replies (s : Shell) : List Nat :=
  repliesIn s.log ++ (repliesIn s.out ++ repliesIn s.activeOut)

/-! ## The shape of a reachable state -/

end Shell

/-- What a task has pending in each phase. -/
structure ActiveExecution.Shape (a : ActiveExecution) : Prop where
  isExecute : a.item.isExecute = true
  running : a.phase = .running → replyCount a.out = 0
  panicked : a.phase = .panicked → a.out = []
  flushing : ∀ outcome, a.phase = .flushing outcome → a.out = []
  finished : ∀ result, a.phase = .finished result → a.out = []

/-- An execute request about to be started or parked: nothing is active and
it outranks the hold. -/
def Shell.MayStart (s : Shell) (item : QueueItem) : Prop :=
  s.active = none ∧ ∀ hold ∈ s.held, hold.priority < item.priority

/-- What a reachable state satisfies at each program counter. -/
def Pc.Ok (s : Shell) : Pc → Prop
  | .handle item => item.isExecute = true → s.MayStart item
  | .park item => item.isExecute = true ∧ s.MayStart item
  | .call item service comm =>
      serviceCall item.request = some service ∧ comm.isSome = service.isComm ∧
        ∀ n ∈ comm, n < s.comms.length
  | .commFlush item n =>
      item.isRequest = false ∧
        ∃ order output, s.comms[n]? = some (order, output) ∧ output.Flushing
  | .abort _ .settle => s.active = none
  | .answer _ .settle => s.active = none
  | _ => True

/-- What the program counter, the hold and the active execution of a
reachable state satisfy. -/
structure Shell.Shape (s : Shell) : Prop where
  pc : s.pc.Ok s
  held : ∀ item ∈ s.held, item.isExecute = true
  active : ∀ a ∈ s.active, a.Shape

section

variable {s : Shell} {item : QueueItem}

theorem Shell.Shape.handle (hsh : s.Shape) (hpc : s.pc = .handle item)
    (hex : item.isExecute = true) : s.MayStart item := by
  have h := hsh.pc
  rw [hpc] at h
  exact h hex

theorem Shell.Shape.park (hsh : s.Shape) (hpc : s.pc = .park item) :
    item.isExecute = true ∧ s.MayStart item := by
  have h := hsh.pc
  rw [hpc] at h
  exact h

theorem Shell.Shape.call {call : ServiceCall} {comm : Option Nat} (hsh : s.Shape)
    (hpc : s.pc = .call item call comm) :
    serviceCall item.request = some call ∧ comm.isSome = call.isComm ∧
      ∀ n ∈ comm, n < s.comms.length := by
  have h := hsh.pc
  rw [hpc] at h
  exact h

theorem Shell.Shape.commFlush {n : Nat} (hsh : s.Shape) (hpc : s.pc = .commFlush item n) :
    item.isRequest = false ∧
      ∃ order output, s.comms[n]? = some (order, output) ∧ output.Flushing := by
  have h := hsh.pc
  rw [hpc] at h
  exact h

theorem Shell.Shape.afterReap (hsh : s.Shape) (h : s.pc.afterReap = true) :
    s.active = none := by
  have hok := hsh.pc
  cases hpc : s.pc with
  | abort release resume =>
      rw [hpc] at h hok
      cases resume with
      | settle => exact hok
      | _ => cases h
  | answer release resume =>
      rw [hpc] at h hok
      cases resume with
      | settle => exact hok
      | _ => cases h
  | _ =>
      rw [hpc] at h
      cases h

/-- Nothing is asked of a program counter with no item in hand, unless it
follows a reaped execution. -/
theorem Pc.ok_of_plain {pc : Pc} (hitem : pc.item = none)
    (hreap : pc.afterReap = true → s.active = none) : pc.Ok s := by
  cases pc with
  | abort release resume =>
      cases resume with
      | settle => exact hreap rfl
      | _ => trivial
  | answer release resume =>
      cases resume with
      | settle => exact hreap rfl
      | _ => trivial
  | handle | park | call | commFlush => cases hitem
  | _ => trivial

end

theorem ActiveExecution.shape_spawn {item : QueueItem} (h : item.isExecute = true)
    (execution : ExecuteRequest) (n : Nat) : (spawn item execution n).Shape where
  isExecute := h
  running := fun _ => replyCount_startExecution execution n
  panicked := by intro hp; cases hp
  flushing := by intro _ hp; cases hp
  finished := by intro _ hp; cases hp

/-- What a task keeps from the moment it is spawned; only the scheduler sets
the two flags. -/
structure ActiveExecution.SameTask (a a' : ActiveExecution) : Prop where
  item : a'.item = a.item
  execution : a'.execution = a.execution
  interrupted : a'.interrupted = a.interrupted
  aborted : a'.aborted = a.aborted

theorem ActiveExecution.sameTask_of_step {a a' : ActiveExecution} {l : TaskLabel}
    {es : List Emission} (h : a.step l = some (a', es)) : a.SameTask a' := by
  cases step_rule h with
  | _ => exact ⟨rfl, rfl, rfl, rfl⟩

/-- Only a task that has returned has a result to hand on. -/
theorem ActiveExecution.phase_of_result {a : ActiveExecution} {done : ExecutionDone}
    (h : a.result = some (.ok done)) : a.phase = .finished (.ok done) := by
  unfold result at h
  split at h
  · next result hphase =>
      cases h
      exact hphase
  · cases h
  · cases h

/-- A task step keeps the shape of the task. -/
theorem ActiveExecution.shape_step {a a' : ActiveExecution} {l : TaskLabel}
    {es : List Emission} (hs : a.Shape) (h : a.step l = some (a', es)) : a'.Shape := by
  obtain ⟨hex, hrun, hpanic, hflush, hfin⟩ := hs
  cases step_rule h with
  | @emit e rest hout =>
      refine ⟨hex, ?_, ?_, ?_, ?_⟩
      · intro hp
        have := hrun hp
        rw [hout, replyCount_cons] at this
        show replyCount rest = 0
        omega
      · intro hp
        have := hpanic hp
        rw [hout] at this
        cases this
      · intro outcome hp
        have := hflush outcome hp
        rw [hout] at this
        cases this
      · intro result hp
        have := hfin result hp
        rw [hout] at this
        cases this
  | accept hphase hout hm => exact ⟨hex, hrun, hpanic, hflush, hfin⟩
  | returned hphase hout => exact ⟨hex, by simp, by simp, fun _ _ => hout, by simp⟩
  | panic hphase hout => exact ⟨hex, by simp, fun _ => hout, by simp, by simp⟩
  | pump hpump => exact ⟨hex, hrun, hpanic, hflush, hfin⟩
  | flushed hphase hflushed => exact ⟨hex, by simp, by simp, by simp, by simp⟩
  | finish hphase hout => exact ⟨hex, by simp, by simp, by simp, fun _ _ => hout⟩

/-- A task step either keeps the count of its replies, sent and pending, or
is the one that comes to the reply. -/
theorem ActiveExecution.replying_step {a a' : ActiveExecution} {l : TaskLabel}
    {es : List Emission} (hs : a.Shape) (h : a.step l = some (a', es)) :
    (a'.replying = a.replying ∧ replyCount es + replyCount a'.out = replyCount a.out) ∨
      (a.replying = false ∧ a'.replying = true ∧
        replyCount es + replyCount a'.out = replyCount a.out + 1) := by
  cases step_rule h with
  | @emit e rest hout =>
      left
      refine ⟨rfl, ?_⟩
      show replyCount [e] + replyCount rest = replyCount a.out
      rw [hout]
      simp only [replyCount_cons, replyCount_nil]
      omega
  | accept hphase hout hm => exact Or.inl ⟨rfl, by simp⟩
  | returned hphase | panic hphase => exact Or.inl ⟨by simp [replying, hphase], by simp⟩
  | pump hpump =>
      left
      refine ⟨rfl, ?_⟩
      have hzero : replyCount es = 0 :=
        List.countP_eq_zero.mpr (fun e he => by simp [Output.step_no_reply hpump e he])
      simp [hzero]
  | @flushed outcome hphase hflushed =>
      right
      refine ⟨by simp [replying, hphase], rfl, ?_⟩
      rw [hs.flushing outcome hphase]
      have hreq := Message.isRequest_of_isExecute hs.isExecute
      simpa using replyCount_finishExecution hreq a.execution.silent a.executionCount outcome
  | finish hphase hout => exact Or.inl ⟨by simp [replying, hphase], by simp⟩

/-! ## How the scheduler turns

`Turn` says, once for all of `Shell.step`, how a step can change the
program counter, the hold, the active execution and the list of started
requests. -/

/-- How a step can change the active execution, apart from a spawn. -/
inductive ActiveTurn : Option ActiveExecution → Option ActiveExecution → Prop
  | same (active : Option ActiveExecution) : ActiveTurn active active
  | step {a a' : ActiveExecution} (hitem : a'.item = a.item) (hshape : a.Shape → a'.Shape) :
      ActiveTurn (some a) (some a')
  | done {a : ActiveExecution} {done : ExecutionDone} (h : a.result = some (.ok done)) :
      ActiveTurn (some a) none

/-- How the environment can change the outputs of comm messages. -/
inductive CommsTurn : List (Nat × Output) → List (Nat × Output) → Prop
  | same (comms : List (Nat × Output)) : CommsTurn comms comms
  | pump {comms : List (Nat × Output)} {comm order : Nat} {output output' : Output}
      {l : OutputLabel} {es : List Emission} (hget : comms[comm]? = some (order, output))
      (hstep : output.step false l = some (output', es)) :
      CommsTurn comms (comms.set comm (order, output'))
  | accept (comms : List (Nat × Output)) (comm : Nat) (m : ContextMessage) :
      CommsTurn comms (comms.modify comm (fun entry => (entry.1, entry.2.accept m)))

/-- How a step can change what the scheduler is doing. -/
inductive Shell.Turn (s s' : Shell) : Prop
  /-- the environment acts, or a pending message is sent -/
  | stay (hpc : s'.pc = s.pc) (hheld : s'.held = s.held) (hstarted : s'.started = s.started)
      (hactive : ActiveTurn s.active s'.active) (hcomms : CommsTurn s.comms s'.comms)
  /-- the scheduler goes on with nothing in its hands -/
  | plain (hpc : s'.pc.item = none) (hheld : s'.held = s.held ∨ s'.held = none)
      (hstarted : s'.started = s.started) (hactive : ActiveTurn s.active s'.active)
      (hreap : s'.pc.afterReap = true →
        s'.active = none ∨ (s.pc.afterReap = true ∧ s'.active = s.active))
  /-- `pop_runnable` returns an item -/
  | pop (item : QueueItem) (hpc : s'.pc = .handle item)
      (hrun : runnable s.active.isSome s.held item = true) (hheld : s'.held = s.held)
      (hstarted : s'.started = s.started) (hactive : s'.active = s.active)
  /-- `handle_shell` calls the language -/
  | call (item : QueueItem) (call : ServiceCall) (comm : Option Nat)
      (hpc : s.pc = .handle item) (hfields : (missingFields item.request).isEmpty = true)
      (hpc' : s'.pc = .call item call comm) (hcall : serviceCall item.request = some call)
      (hcomm : comm.isSome = call.isComm) (hlen : ∀ n ∈ comm, n < s'.comms.length)
      (hheld : s'.held = s.held) (hstarted : s'.started = s.started)
      (hactive : s'.active = s.active)
  /-- a comm message is flushed -/
  | commFlush (item : QueueItem) (call : ServiceCall) (n : Nat)
      (hpc : s.pc = .call item call (some n)) (hcall : call.isComm = true)
      (hpc' : s'.pc = .commFlush item n)
      (hcomms : s'.comms = s.comms.modify n (fun entry => (entry.1, entry.2.accept .flush)))
      (hheld : s'.held = s.held) (hstarted : s'.started = s.started)
      (hactive : s'.active = s.active)
  /-- `begin_hold` -/
  | opening (item : QueueItem) (hpc : s.pc = .handle item) (hex : item.isExecute = true)
      (hpc' : s'.pc = .park item) (hheld : s'.held = s.held)
      (hstarted : s'.started = s.started) (hactive : s'.active = s.active)
  /-- `self.held = Some(..)` -/
  | parked (item : QueueItem) (hpc : s.pc = .park item) (hpc' : s'.pc.item = none)
      (hreap : s'.pc.afterReap = false) (hheld : s'.held = some item)
      (hstarted : s'.started = s.started) (hactive : s'.active = s.active)
  /-- `tokio::spawn(run_execution(..))` -/
  | spawned (item : QueueItem) (execution : ExecuteRequest) (n : Nat)
      (hpc : s.pc = .handle item) (hex : item.isExecute = true) (hpc' : s'.pc.item = none)
      (hreap : s'.pc.afterReap = false) (hheld : s'.held = s.held)
      (hstarted : s'.started = s.started ++ [item])
      (hactive : s'.active = some (.spawn item execution n))

namespace Shell

variable {services : Services} {s s' : Shell} {l : Label} {item : QueueItem}

theorem Turn.of_plain (hreap : s'.pc.afterReap = false) (hpc : s'.pc.item = none)
    (hheld : s'.held = s.held ∨ s'.held = none) (hstarted : s'.started = s.started)
    (hactive : ActiveTurn s.active s'.active) : Turn s s' :=
  .plain hpc hheld hstarted hactive (by simp [hreap])

theorem ActiveTurn.of_interrupt (active : Option ActiveExecution) :
    ActiveTurn active (active.map (fun a => { a with interrupted := true })) := by
  cases active with
  | none => exact .same _
  | some a =>
      exact .step rfl (fun h => ⟨h.isExecute, h.running, h.panicked, h.flushing, h.finished⟩)

theorem ApplyRule.turn {c : ShellControl} {resume : Resume} {rest : List ShellControl}
    (h : ApplyRule { s with controls := rest } resume c s') (hresume : resume ≠ .settle) :
    Turn s s' := by
  have habort : ∀ release, (Pc.abort release resume).afterReap = false := by
    intro release
    cases resume with
    | settle => exact absurd rfl hresume
    | _ => rfl
  have hanswer : ∀ release, (Pc.answer release resume).afterReap = false := by
    intro release
    cases resume with
    | settle => exact absurd rfl hresume
    | _ => rfl
  cases h with
  | release hheld hid hok => exact .of_plain (hanswer _) rfl (Or.inr rfl) rfl (.same _)
  | releaseFailed hheld hid hfailed => exact .of_plain (habort _) rfl (Or.inr rfl) rfl (.same _)
  | interruptFailed hactive =>
      exact .of_plain rfl rfl (Or.inl rfl) rfl (ActiveTurn.of_interrupt _)
  | interruptHeld hheld =>
      exact .of_plain (habort _) rfl (Or.inr rfl) rfl (ActiveTurn.of_interrupt _)
  | interrupt hheld =>
      exact .of_plain (habort _) rfl (Or.inl rfl) rfl (ActiveTurn.of_interrupt _)
  | notHeld hheld =>
      exact .of_plain (Resume.afterReap_pc _) (Resume.item_pc _) (Or.inl rfl) rfl (.same _)
  | stop =>
      exact .of_plain (Resume.afterReap_pc _) (Resume.item_pc _) (Or.inl rfl) rfl (.same _)

theorem executionDone_turn {a : ActiveExecution} {done : ExecutionDone} {resume : Resume}
    (hactive : s.active = some a) (hresult : a.result = some (.ok done)) :
    Turn s (s.executionDone done resume) := by
  refine .plain ?_ (Or.inl rfl) rfl ?_ (fun _ => Or.inl rfl)
  · simp only [executionDone]
    split
    · rfl
    · exact Resume.item_pc resume
  · rw [hactive]
    exact .done hresult

theorem failItem_turn {error : Error} (hheld : s'.held = s.held)
    (hstarted : s'.started = s.started) (hactive : s'.active = s.active) :
    Turn s (s'.failItem item error) := by
  refine .plain ?_ (Or.inl hheld) hstarted ?_ ?_
  · simp only [failItem]
    split <;> rfl
  · show ActiveTurn s.active s'.active
    rw [hactive]
    exact .same _
  · intro hreap
    simp only [failItem] at hreap
    split at hreap <;> cases hreap

theorem HandleShellRule.turn (h : HandleShellRule services s item s')
    (hpc : s.pc = .handle item) : Turn s s' := by
  cases h with
  | kernelInfoFailed htype => exact failItem_turn rfl rfl rfl
  | comm hfields hcall =>
      refine .call item _ _ hpc hfields rfl hcall rfl ?_ rfl rfl rfl
      intro n hn
      cases hn
      simp
  | commInfo hfields hcall =>
      exact .call item _ _ hpc hfields rfl hcall rfl (fun _ hn => nomatch hn) rfl rfl rfl
  | call hfields hcall hcomm =>
      exact .call item _ _ hpc hfields rfl hcall hcomm.symm (fun _ hn => nomatch hn) rfl rfl rfl
  | _ => exact .of_plain rfl rfl (Or.inl rfl) rfl (.same _)

theorem HandleItemRule.turn (h : HandleItemRule services s item s')
    (hpc : s.pc = .handle item) : Turn s s' := by
  cases h with
  | shell hex h => exact h.turn hpc
  | hold hex hhold => exact .opening item hpc hex rfl rfl rfl rfl
  | execute hex hinterrupting hhold => exact .spawned item _ _ hpc hex rfl rfl rfl rfl rfl
  | _ => exact .of_plain rfl rfl (Or.inl rfl) rfl (.same _)

theorem abortQueued_turn {release : Option Nat} {resume : Resume}
    (hpc : s.pc = .abort release resume) : Turn s (s.abortQueued release resume) := by
  cases release with
  | none => exact .of_plain (Resume.afterReap_pc _) (Resume.item_pc _) (Or.inl rfl) rfl (.same _)
  | some complete =>
      refine .plain rfl (Or.inl rfl) rfl (.same _) (fun hreap => Or.inr ⟨?_, rfl⟩)
      rw [hpc]
      cases resume with
      | settle => rfl
      | _ => cases hreap

theorem LoopRule.turn (h : LoopRule services s l s') : Turn s s' := by
  cases h with
  | takeIncoming | abortIncoming => exact .stay rfl rfl rfl (.same _) (.same _)
  | takeControl hpc hcontrols h | selectControl hpc hcontrols h => exact h.turn (by simp)
  | reap hpc hactive hresult | selectDone hpc hactive hresult =>
      exact executionDone_turn hactive hresult
  | pop hpc hpop => exact .pop _ rfl (popRunnable_runnable hpop) rfl rfl rfl
  | handle hpc h => exact h.turn hpc
  | park hpc => exact .parked _ hpc rfl rfl rfl rfl rfl
  | abort hpc hincoming => exact abortQueued_turn hpc
  | answer hpc =>
      exact .of_plain (Resume.afterReap_pc _) (Resume.item_pc _) (Or.inl rfl) rfl (.same _)
  | selectTimeout hpc hheld => exact .of_plain rfl rfl (Or.inr rfl) rfl (.same _)
  | callFailed hpc => exact failItem_turn rfl rfl rfl
  | commReturned hpc => exact .commFlush _ _ _ hpc rfl rfl rfl rfl rfl rfl
  | _ => exact .of_plain rfl rfl (Or.inl rfl) rfl (.same _)

theorem step_turn (h : s.step services l = some s') : Turn s s' := by
  cases step_rule h with
  | loop hout h => exact h.turn
  | commPump hget hpump => exact .stay rfl rfl rfl (.same _) (.pump hget hpump)
  | callAccept hpc => exact .stay rfl rfl rfl (.same _) (.accept _ _ _)
  | task hactive hrunning hstep =>
      refine .stay rfl rfl rfl ?_ (.same _)
      rw [hactive]
      exact .step (ActiveExecution.sameTask_of_step hstep).item
        (fun hs => ActiveExecution.shape_step hs hstep)
  | dropped hactive hclosed =>
      refine .stay rfl rfl rfl ?_ (.same _)
      rw [hactive]
      exact .step rfl (fun h => ⟨h.isExecute, h.running, h.panicked, h.flushing, h.finished⟩)
  | _ => exact .stay rfl rfl rfl (.same _) (.same _)

end Shell

/-! ## What a step moves -/

/-- `Effect s s'`: the step from `s` to `s'` takes `new` messages out of the
channel, starts `begun`, brings `settled` (waiting) and `finished`
(executing) to their reply, and lets go of `dropped` without one. -/
def Shell.Effect (s s' : Shell) : Prop :=
  ∃ new begun settled finished dropped : List QueueItem,
    s'.taken = s.taken ++ new ∧
    s'.order = s.order + new.length ∧
    new.map QueueItem.order = List.range' s.order new.length ∧
    s'.started = s.started ++ begun ∧
    (s.waiting ++ new).Perm (s'.waiting ++ (begun ++ (settled ++ dropped))) ∧
    (s.executing ++ begun).Perm (s'.executing ++ finished) ∧
    s'.replies.Perm (s.replies ++ (settled ++ finished).map QueueItem.order) ∧
    ∀ item ∈ dropped, item.isRequest = false ∨
      (s.held = some item ∧ ∃ hold, s.pc = .park hold)

namespace Shell

variable {services : Services} {s s' : Shell} {l : Label}

/-- The accounts that most handlers leave alone. -/
structure SameAccounts (s s' : Shell) : Prop where
  taken : s'.taken = s.taken
  order : s'.order = s.order
  started : s'.started = s.started
  log : s'.log = s.log
  executing : s'.executing = s.executing
  activeOut : s'.activeOut = s.activeOut

theorem replies_of_say {item : QueueItem} {es : List Emission} (h : SameAccounts s s')
    (hout : s'.out = s.out ++ tag item es) :
    s'.replies.Perm (s.replies ++ List.replicate (replyCount es) item.order) := by
  simp only [replies, h.log, hout, h.activeOut, repliesIn_append, repliesIn_tag,
    List.append_assoc]
  exact List.Perm.append_left _ (List.Perm.append_left _ List.perm_append_comm)

/-- A handler that is done with `item`: one reply if it is a request, none
otherwise. -/
theorem Effect.of_leave {item : QueueItem} {es : List Emission} (h : SameAccounts s s')
    (hout : s'.out = s.out ++ tag item es)
    (hone : replyCount es = if item.isRequest then 1 else 0)
    (hw : s.waiting.Perm (s'.waiting ++ [item])) : Effect s s' := by
  have hrep := replies_of_say h hout
  by_cases hreq : item.isRequest
  · refine ⟨[], [], [item], [], [], by simp [h.taken], by simp [h.order], rfl,
      by simp [h.started], by simpa using hw, by simp [h.executing], ?_, by simp⟩
    simpa [hone, hreq] using hrep
  · refine ⟨[], [], [], [], [item], by simp [h.taken], by simp [h.order], rfl,
      by simp [h.started], by simpa using hw, by simp [h.executing], ?_, by simp [hreq]⟩
    simpa [hone, hreq] using hrep

/-- A handler that sends no reply and keeps every item. -/
theorem Effect.of_keep {item : QueueItem} {es : List Emission} (h : SameAccounts s s')
    (hout : s'.out = s.out ++ tag item es) (hnone : replyCount es = 0)
    (hw : s.waiting.Perm s'.waiting) : Effect s s' := by
  refine ⟨[], [], [], [], [], by simp [h.taken], by simp [h.order], rfl,
    by simp [h.started], by simpa using hw, by simp [h.executing], ?_, by simp⟩
  simpa [hnone] using replies_of_say h hout

/-- A step that sends nothing and keeps every item. -/
theorem Effect.of_frame (h : SameAccounts s s') (hout : s'.out = s.out)
    (hw : s.waiting.Perm s'.waiting) : Effect s s' := by
  refine ⟨[], [], [], [], [], by simp [h.taken], by simp [h.order], rfl,
    by simp [h.started], by simpa using hw, by simp [h.executing], ?_, by simp⟩
  simp [replies, h.log, hout, h.activeOut]

theorem waiting_congr (hq : s'.queue = s.queue) (hheld : s'.held = s.held)
    (hpc : s'.pc.item = s.pc.item) : s.waiting.Perm s'.waiting := by
  simp [waiting, hq, hheld, hpc]

/-- The item in hand is let go. -/
theorem waiting_leave_pc {item : QueueItem} (hq : s'.queue = s.queue)
    (hheld : s'.held = s.held) (hpc : s.pc.item = some item) (hpc' : s'.pc.item = none) :
    s.waiting.Perm (s'.waiting ++ [item]) := by
  simp only [waiting, hq, hheld, hpc, hpc', Option.toList_some, Option.toList_none,
    List.nil_append, List.append_assoc]
  exact List.Perm.append_left _ List.perm_append_comm

/-- The hold is let go. -/
theorem waiting_leave_held {item : QueueItem} (hq : s'.queue = s.queue)
    (hpc : s'.pc.item = s.pc.item) (hheld : s.held = some item) (hheld' : s'.held = none) :
    s.waiting.Perm (s'.waiting ++ [item]) := by
  simp [waiting, hq, hheld, hheld', hpc]

/-! ### Handlers -/

theorem enqueue_effect (inbound : Inbound) (rest : List Inbound) :
    Effect s ({ s with incoming := rest }.enqueue inbound) := by
  refine ⟨[_], [], [], [], [], rfl, rfl, rfl, (List.append_nil _).symm, ?_, ?_, ?_, by simp⟩
  · simp only [List.append_nil]
    refine List.perm_append_comm.trans ?_
    exact ((Heap.push_perm s.queue _).symm.append_right _)
  · exact List.Perm.refl _
  · simp [enqueue, replies, activeOut]

theorem isRequest_of_isExecute {item : QueueItem} (h : item.isExecute = true) :
    item.isRequest = true := Message.isRequest_of_isExecute h

/-- `finish_hold` answers the hold and takes it away. -/
theorem finishHold_effect {held : QueueItem} {releaseStatus : String} (hsh : s.Shape)
    (h : SameAccounts s s') (hheld : s.held = some held) (hheld' : s'.held = none)
    (hq : s'.queue = s.queue) (hpc : s'.pc.item = s.pc.item)
    (hout : s'.out = s.out ++ tag held (finishHold s.executionCount releaseStatus).1) :
    Effect s s' := by
  have hreq : held.isRequest = true := isRequest_of_isExecute (hsh.held held hheld)
  refine Effect.of_leave h hout ?_ (waiting_leave_held hq hpc hheld hheld')
  simp [hreq, replyCount_finishHold]

/-- A step of the scheduler with nothing in its hands, which sends nothing. -/
theorem Effect.of_go (h : SameAccounts s s') (hout : s'.out = s.out) (hq : s'.queue = s.queue)
    (hheld : s'.held = s.held) (hpc : s.pc.item = none) (hpc' : s'.pc.item = none) :
    Effect s s' :=
  .of_frame h hout (waiting_congr hq hheld (hpc'.trans hpc.symm))

theorem SameAccounts.of_interrupt
    (hactive : s'.active = s.active.map (fun a => { a with interrupted := true }))
    (htaken : s'.taken = s.taken) (horder : s'.order = s.order)
    (hstarted : s'.started = s.started) (hlog : s'.log = s.log) : SameAccounts s s' := by
  refine ⟨htaken, horder, hstarted, hlog, ?_, ?_⟩
  · unfold Shell.executing
    rw [hactive]
    cases s.active <;> rfl
  · unfold Shell.activeOut
    rw [hactive]
    cases s.active <;> rfl

theorem ApplyRule.effect {c : ShellControl} {resume : Resume} {rest : List ShellControl}
    (h : ApplyRule { s with controls := rest } resume c s') (hsh : s.Shape)
    (hpc : s.pc.item = none) : Effect s s' := by
  cases h with
  | release hheld hid hok =>
      exact finishHold_effect hsh ⟨rfl, rfl, rfl, rfl, rfl, rfl⟩ hheld rfl rfl hpc.symm rfl
  | releaseFailed hheld hid hfailed =>
      exact finishHold_effect hsh ⟨rfl, rfl, rfl, rfl, rfl, rfl⟩ hheld rfl rfl hpc.symm rfl
  | interruptFailed hactive => exact .of_go (.of_interrupt rfl rfl rfl rfl rfl) rfl rfl rfl hpc rfl
  | interruptHeld hheld =>
      exact finishHold_effect hsh (.of_interrupt rfl rfl rfl rfl rfl) hheld rfl rfl hpc.symm rfl
  | interrupt hheld => exact .of_go (.of_interrupt rfl rfl rfl rfl rfl) rfl rfl rfl hpc rfl
  | notHeld hheld =>
      exact .of_go ⟨rfl, rfl, rfl, rfl, rfl, rfl⟩ rfl rfl rfl hpc (Resume.item_pc resume)
  | stop => exact .of_go ⟨rfl, rfl, rfl, rfl, rfl, rfl⟩ rfl rfl rfl hpc (Resume.item_pc resume)

/-- A finished task has nothing pending, so nothing is lost with it. -/
theorem executionDone_effect {done : ExecutionDone} {resume : Resume} {a : ActiveExecution}
    (hsh : s.Shape) (hpc : s.pc.item = none) (ha : s.active = some a)
    (hres : a.result = some (.ok done)) : Effect s (s.executionDone done resume) := by
  have hph := ActiveExecution.phase_of_result hres
  have hout : a.out = [] := (hsh.active a ha).finished _ hph
  have hacc : SameAccounts s (s.executionDone done resume) := by
    refine ⟨rfl, rfl, rfl, rfl, ?_, ?_⟩
    · simp [executionDone, executing, ha, ActiveExecution.replying, hph]
    · simp [executionDone, activeOut, ha, hout, tag]
  refine Effect.of_frame hacc rfl (waiting_congr rfl rfl ?_)
  rw [hpc]
  simp only [executionDone]
  split
  · rfl
  · exact Resume.item_pc resume

theorem failItem_effect {item : QueueItem} {error : Error} (hpc : s.pc.item = some item) :
    Effect s (s.failItem item error) := by
  refine Effect.of_leave ⟨rfl, rfl, rfl, rfl, rfl, rfl⟩ rfl
    (replyCount_reportFailure item.request error s.executionCount)
    (waiting_leave_pc rfl rfl hpc ?_)
  simp only [failItem]
  split <;> rfl

theorem isRequest_of_msgType {item : QueueItem} {t : String} (h : item.request.msgType = t)
    (hend : endsWith t "_request" = true) : item.isRequest = true := by
  rw [QueueItem.isRequest, Message.isRequest, h, hend]

/-- A handler that answers the request in hand at once. -/
theorem Effect.of_answer {item : QueueItem} {es : List Emission} (h : SameAccounts s s')
    (hout : s'.out = s.out ++ tag item es) (hone : replyCount es = 1)
    (hreq : item.isRequest = true) (hq : s'.queue = s.queue) (hheld : s'.held = s.held)
    (hpc : s.pc.item = some item) (hpc' : s'.pc.item = none) : Effect s s' :=
  .of_leave h hout (by simp [hone, hreq]) (waiting_leave_pc hq hheld hpc hpc')

/-- A message that is no request is let go without an answer. -/
theorem Effect.of_ignored {item : QueueItem} (h : SameAccounts s s') (hout : s'.out = s.out)
    (hreq : item.isRequest = false) (hq : s'.queue = s.queue) (hheld : s'.held = s.held)
    (hpc : s.pc.item = some item) (hpc' : s'.pc.item = none) : Effect s s' :=
  @Effect.of_leave s s' item [] h (by simp [hout, tag]) (by simp [hreq])
    (waiting_leave_pc hq hheld hpc hpc')

theorem HandleShellRule.effect {item : QueueItem} (h : HandleShellRule services s item s')
    (hpc : s.pc.item = some item) : Effect s s' := by
  cases h with
  | missing hmissing =>
      have hreq : item.isRequest = true := isRequest_of_missingFields (by simpa using hmissing)
      exact .of_answer ⟨rfl, rfl, rfl, rfl, rfl, rfl⟩ rfl (replyCount_replyMissing _ _ _) hreq
        rfl rfl hpc rfl
  | shutdown htype =>
      exact .of_answer ⟨rfl, rfl, rfl, rfl, rfl, rfl⟩ rfl rfl
        (isRequest_of_msgType htype (by decide)) rfl rfl hpc rfl
  | kernelInfo htype =>
      exact .of_answer ⟨rfl, rfl, rfl, rfl, rfl, rfl⟩ rfl (by simp)
        (isRequest_of_msgType htype (by decide)) rfl rfl hpc rfl
  | @kernelInfoFailed error htype =>
      have hreq : item.request.isRequest = true := isRequest_of_msgType htype (by decide)
      refine @Effect.of_answer s _ item (busy :: reportFailure item.request error s.executionCount)
        ⟨rfl, rfl, rfl, rfl, rfl, rfl⟩ ?_ ?_ hreq rfl rfl hpc ?_
      · simp [failItem, say, tag]
      · simp [replyCount_reportFailure, hreq]
      · simp only [failItem]
        split <;> rfl
  | comm hfields hcall =>
      exact .of_frame ⟨rfl, rfl, rfl, rfl, rfl, rfl⟩ rfl (waiting_congr rfl rfl hpc.symm)
  | commInfo hfields hcall =>
      exact .of_frame ⟨rfl, rfl, rfl, rfl, rfl, rfl⟩ rfl (waiting_congr rfl rfl hpc.symm)
  | call hfields hcall hcomm =>
      exact .of_keep ⟨rfl, rfl, rfl, rfl, rfl, rfl⟩ rfl (by simp) (waiting_congr rfl rfl hpc.symm)
  | connect htype =>
      exact .of_answer ⟨rfl, rfl, rfl, rfl, rfl, rfl⟩ rfl (by simp)
        (isRequest_of_msgType htype (by decide)) rfl rfl hpc rfl
  | otherRequest hrequest =>
      exact .of_answer ⟨rfl, rfl, rfl, rfl, rfl, rfl⟩ rfl (by simp) hrequest rfl rfl hpc rfl
  | ignored hrequest =>
      exact .of_ignored ⟨rfl, rfl, rfl, rfl, rfl, rfl⟩ rfl hrequest rfl rfl hpc rfl

theorem HandleItemRule.effect {item : QueueItem} (h : HandleItemRule services s item s')
    (hsh : s.Shape) (hpc : s.pc = .handle item) : Effect s s' := by
  have hitem : s.pc.item = some item := by rw [hpc]; rfl
  cases h with
  | shell hex h => exact h.effect hitem
  | interrupted hex hinterrupting =>
      exact .of_answer ⟨rfl, rfl, rfl, rfl, rfl, rfl⟩ rfl (replyCount_interruptExecute _)
        (isRequest_of_isExecute hex) rfl rfl hitem rfl
  | missing hex hmissing =>
      exact .of_answer ⟨rfl, rfl, rfl, rfl, rfl, rfl⟩ rfl (replyCount_replyMissing _ _ _)
        (isRequest_of_isExecute hex) rfl rfl hitem rfl
  | hold hex hhold =>
      exact .of_keep ⟨rfl, rfl, rfl, rfl, rfl, rfl⟩ rfl (replyCount_beginHold _ _)
        (waiting_congr rfl rfl hitem.symm)
  | execute hex hinterrupting hhold =>
      -- the one place where an execution is spawned
      obtain ⟨hnone, _⟩ := hsh.handle hpc hex
      refine ⟨[], [item], [], [], [], by simp, rfl, rfl, rfl, ?_, ?_, ?_, by simp⟩
      · rw [List.append_nil]
        exact waiting_leave_pc rfl rfl hitem rfl
      · simp [executing, hnone, ActiveExecution.spawn, ActiveExecution.replying]
      · simp [replies, activeOut, hnone, ActiveExecution.spawn, replyCount_startExecution]

theorem abortQueued_item (s : Shell) (release : Option Nat) (resume : Resume) :
    (s.abortQueued release resume).pc.item = none := by
  cases release with
  | none => exact Resume.item_pc resume
  | some complete => rfl

theorem abortQueued_effect {release : Option Nat} {resume : Resume}
    (hpc : s.pc.item = none) : Effect s (s.abortQueued release resume) := by
  have hperm := abortQueue_perm s.queue
  have hpc' := abortQueued_item s release resume
  refine ⟨[], [], (abortQueue s.queue).1, [], [], by simp [abortQueued], by simp [abortQueued],
    rfl, by simp [abortQueued], ?_, by simp [abortQueued, executing], ?_, by simp⟩
  · simp only [waiting, hpc, hpc']
    simp only [abortQueued, Option.toList_none, List.nil_append, List.append_nil]
    refine (hperm.append_right _).trans ?_
    rw [List.append_assoc]
    exact List.perm_append_comm
  · simp only [abortQueued, replies, activeOut, repliesIn_append, repliesIn_abort,
      List.append_nil, List.append_assoc]
    exact List.Perm.append_left _ (List.Perm.append_left _ List.perm_append_comm)

/-- Parking a hold lets go of the hold that was parked before. -/
theorem park_effect {item : QueueItem} (hpc : s.pc = .park item) :
    Effect s { s with held := some item, pc := .drainIncoming } := by
  refine ⟨[], [], [], [], s.held.toList, by simp, rfl, rfl, by simp, ?_, by simp [executing],
    by simp [replies, activeOut], ?_⟩
  · simp [waiting, hpc, Pc.item]
  · intro old hold
    exact Or.inr ⟨Option.mem_toList.mp hold, item, hpc⟩

theorem dispatch_effect {found : Option QueueItem} {queue : Queue} (hpc : s.pc = .dispatch)
    (h : popRunnable s.queue s.active.isSome s.held = (found, queue)) (hs' : s'.queue = queue)
    (hacc : SameAccounts s s') (hout : s'.out = s.out) (hheld : s'.held = s.held)
    (hpc' : s'.pc.item = found) : Effect s s' := by
  refine Effect.of_frame hacc hout ?_
  have hperm := popRunnable_perm h
  have hitem : s.pc.item = none := by rw [hpc]; rfl
  simp only [waiting, hs', hheld, hpc', hitem, Option.toList_none, List.nil_append]
  refine (hperm.append_right _).trans ?_
  rw [← List.append_assoc]
  exact List.perm_append_comm.append_right _

theorem LoopRule.effect (h : LoopRule services s l s') (hsh : s.Shape) : Effect s s' := by
  cases h with
  | takeIncoming | abortIncoming => exact enqueue_effect _ _
  | @selectIncoming inbound rest hpc hincoming =>
      have heff : Effect s ({ s with incoming := rest }.enqueue inbound) := enqueue_effect _ _
      -- the program counter moves, but neither place holds an item
      simpa [Effect, waiting, executing, replies, activeOut, enqueue, hpc, Pc.item] using heff
  | takeControl hpc hcontrols h | selectControl hpc hcontrols h =>
      exact h.effect hsh (by rw [hpc]; rfl)
  | reap hpc hactive hresult => exact executionDone_effect hsh (by rw [hpc]; rfl) hactive hresult
  | selectDone hpc hactive hresult =>
      exact executionDone_effect hsh (by rw [hpc]; rfl) hactive hresult
  | pop hpc hpop =>
      exact dispatch_effect hpc hpop rfl ⟨rfl, rfl, rfl, rfl, rfl, rfl⟩ rfl rfl rfl
  | idle hpc hpop =>
      exact dispatch_effect hpc hpop rfl ⟨rfl, rfl, rfl, rfl, rfl, rfl⟩ rfl rfl rfl
  | handle hpc h => exact h.effect hsh hpc
  | commFlushed hpc =>
      exact .of_ignored ⟨rfl, rfl, rfl, rfl, rfl, rfl⟩ rfl (hsh.commFlush hpc).1 rfl rfl
        (by rw [hpc]; rfl) rfl
  | park hpc => exact park_effect hpc
  | abort hpc hincoming => exact abortQueued_effect (by rw [hpc]; rfl)
  | answer hpc =>
      exact .of_go ⟨rfl, rfl, rfl, rfl, rfl, rfl⟩ rfl rfl rfl (by rw [hpc]; rfl)
        (Resume.item_pc _)
  | selectTimeout hpc hheld =>
      exact finishHold_effect hsh ⟨rfl, rfl, rfl, rfl, rfl, rfl⟩ hheld rfl rfl
        (by rw [hpc]; rfl) rfl
  | callFailed hpc => exact failItem_effect (by rw [hpc]; rfl)
  | commReturned hpc =>
      exact .of_frame ⟨rfl, rfl, rfl, rfl, rfl, rfl⟩ rfl (waiting_congr rfl rfl (by rw [hpc]; rfl))
  | commInfoReturned hpc =>
      have hreq := isRequest_of_serviceCall (hsh.call hpc).1
      exact .of_answer ⟨rfl, rfl, rfl, rfl, rfl, rfl⟩ rfl (by simp) hreq rfl rfl
        (by rw [hpc]; rfl) rfl
  | @callReturned item call comm value hpc hcomm =>
      obtain ⟨hcall, hsome, _⟩ := hsh.call hpc
      have hreq : item.isRequest = !call.isComm := isRequest_of_serviceCall hcall
      have hkind : call.isComm = false := by
        by_contra hkind
        rw [hcomm (by simpa using hkind)] at hsome
        exact hkind hsome.symm
      rw [hkind] at hreq
      exact .of_answer ⟨rfl, rfl, rfl, rfl, rfl, rfl⟩ rfl (by simp) hreq rfl rfl
        (by rw [hpc]; rfl) rfl
  | _ => exact .of_go ⟨rfl, rfl, rfl, rfl, rfl, rfl⟩ rfl rfl rfl (by simp [Pc.item, *]) rfl

/-- The messages a task sends leave its pending ones, so the replies of a
task step are those it comes to. -/
theorem task_effect {a a' : ActiveExecution} {l : TaskLabel} {es : List Emission}
    (hsh : s.Shape) (ha : s.active = some a) (h : a.step l = some (a', es))
    (htaken : s'.taken = s.taken) (horder : s'.order = s.order)
    (hstarted : s'.started = s.started) (hw : s'.waiting = s.waiting)
    (hact : s'.active = some a') (hlog : s'.log = s.log ++ tag a.item es)
    (hout : s'.out = s.out) : Effect s s' := by
  have hitem := (ActiveExecution.sameTask_of_step h).item
  have hrep : ∀ k, replyCount es + replyCount a'.out = replyCount a.out + k →
      s'.replies.Perm (s.replies ++ List.replicate k a.item.order) := by
    intro k hk
    simp only [replies, hlog, hout, activeOut, ha, hact, hitem, repliesIn_append, repliesIn_tag,
      List.append_assoc]
    refine List.Perm.append_left _ ?_
    refine List.perm_append_comm.trans ?_
    rw [List.append_assoc]
    refine List.Perm.append_left _ ?_
    rw [← List.replicate_add, ← List.replicate_add, Nat.add_comm, hk]
  rcases ActiveExecution.replying_step (hsh.active a ha) h with ⟨hr, hk⟩ | ⟨hr, hr', hk⟩
  · refine ⟨[], [], [], [], [], by simp [htaken], by simp [horder], rfl, by simp [hstarted],
      by simp [hw], by simp [executing, ha, hact, hr, hitem], by simpa using hrep 0 hk, by simp⟩
  · refine ⟨[], [], [], [a.item], [], by simp [htaken], by simp [horder], rfl,
      by simp [hstarted], by simp [hw], by simp [executing, ha, hact, hr, hr'],
      by simpa using hrep 1 hk, by simp⟩

/-- What one step of a shell does to the messages it has taken. -/
theorem step_effect (hsh : s.Shape) (h : s.step services l = some s') : Effect s s' := by
  cases step_rule h with
  | loop hout h => exact h.effect hsh
  | @emit e rest hout =>
      refine ⟨[], [], [], [], [], by simp, rfl, rfl, by simp, by simp [waiting],
        by simp [executing], ?_, by simp⟩
      have hsplit : repliesIn s.out = repliesIn [e] ++ repliesIn rest := by
        rw [hout, ← repliesIn_append]
        rfl
      simp [replies, activeOut, hsplit]
  | @commPump comm order l output output' es hget hpump =>
      have hzero : replyCount es = 0 :=
        List.countP_eq_zero.mpr (fun e he => by simp [Output.step_no_reply hpump e he])
      refine ⟨[], [], [], [], [], by simp, rfl, rfl, by simp, by simp [waiting],
        by simp [executing], ?_, by simp⟩
      simp [replies, activeOut, repliesIn_map, hzero]
  | task hactive hrunning hstep => exact task_effect hsh hactive hstep rfl rfl rfl rfl rfl rfl rfl
  | @dropped a hactive hclosed =>
      have hrep : ({ a with aborted := true } : ActiveExecution).replying = a.replying := rfl
      refine .of_frame ⟨rfl, rfl, rfl, rfl, ?_, ?_⟩ rfl (waiting_congr rfl rfl rfl)
      · simp [executing, hactive, hrep]
      · simp [activeOut, hactive]
  | _ => exact .of_frame ⟨rfl, rfl, rfl, rfl, rfl, rfl⟩ rfl (waiting_congr rfl rfl rfl)

end Shell

end Kernmini.Engine
