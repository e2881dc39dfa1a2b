/-
Kernmini.Engine.KernelTraces — the trace of every execute request of the
kernel, whoever answers it.

A message of the shell channel is answered by the shell it is delivered
to, or by the main loop, when there is no such shell; never by both. The
first part of the module keeps the loop's books on these messages. With
the traces of the shells they give `executions_traced`: what has
been sent about an answered execute request, together with what its sender
has still to send, is one whole trace.

Two things are not covered by it, and cannot be (`untraced_executions`):
an `execute_request` on the control channel gets the bare reply of any
unknown request there, and an execution whose shell ends is aborted
between two of its messages.
-/
import Kernmini.Engine.KernelWaits
import Kernmini.Engine.ShellTraces

namespace Kernmini.Engine

open Kernmini.Wire Kernmini.Lib

/-- The shell message a creation is for. -/
def Creation.hand : Creation → Option (Arrival .shell)
  | .route a _ => some a
  | _ => none

/-- The shell message the loop has in its hands. -/
def MainPc.hand : MainPc → Option (Arrival .shell)
  | .route a _ => some a
  | .create _ purpose => purpose.hand
  | .send _ a _ => some a
  | _ => none

@[simp] theorem After.hand_pc (after : After) : after.pc.hand = none := by
  cases after <;> rfl

namespace Kernel

variable {services : Services} {s s' : Kernel} {l : Label}

/-! ## The loop's books -/

/-- What the loop has sent, and has still to send, about a shell message. -/
def said (s : Kernel) (a : Arrival .shell) : List Emission :=
  traceOf a.source s.log ++ traceOf a.source s.out

/-- The books on the messages of the shell channel; `answered` are those the
loop has answered itself. -/
structure Books (s : Kernel) (answered : List (Arrival .shell)) : Prop where
  numbers : (s.received.map Arrival.number).Nodup
  bound : ∀ a ∈ s.received, a.number < s.arrivals
  places : s.received.Perm (s.shell ++ (s.pc.hand.toList ++ (s.delivered ++ answered)))
  silent : ∀ a ∈ s.shell ++ (s.pc.hand.toList ++ s.delivered), s.said a = []
  answers : ∀ a ∈ answered, ∃ ename evalue, s.said a = replySubshellError a.request ename evalue
  fresh : ∀ a : Arrival .shell, s.arrivals ≤ a.number → s.said a = []

/-- The step leaves the messages of the shell channel where they are. -/
structure Keeps (s s' : Kernel) : Prop where
  shell : s'.shell = s.shell
  received : s'.received = s.received
  delivered : s'.delivered = s.delivered
  arrivals : s.arrivals ≤ s'.arrivals
  hand : s'.pc.hand = s.pc.hand
  said : ∀ a, s'.said a = s.said a

/-- What a step does to the messages of the shell channel. -/
inductive HandTurn (s s' : Kernel) : Prop
  | keep (h : Keeps s s')
  | receive (a : Arrival .shell) (hnumber : a.number = s.arrivals)
      (harrivals : s'.arrivals = s.arrivals + 1) (hshell : s'.shell = s.shell ++ [a])
      (hreceived : s'.received = s.received ++ [a]) (hdelivered : s'.delivered = s.delivered)
      (hhand : s'.pc.hand = s.pc.hand) (hsaid : ∀ a, s'.said a = s.said a)
  | take (a : Arrival .shell) (hshell : s.shell = a :: s'.shell)
      (hreceived : s'.received = s.received) (hdelivered : s'.delivered = s.delivered)
      (harrivals : s'.arrivals = s.arrivals) (hhand : s.pc.hand = none)
      (hhand' : s'.pc.hand = some a) (hsaid : ∀ a, s'.said a = s.said a)
  | deliver (a : Arrival .shell) (hshell : s'.shell = s.shell)
      (hreceived : s'.received = s.received) (hdelivered : s'.delivered = s.delivered ++ [a])
      (harrivals : s'.arrivals = s.arrivals) (hhand : s.pc.hand = some a)
      (hhand' : s'.pc.hand = none) (hsaid : ∀ a, s'.said a = s.said a)
  | answer (a : Arrival .shell) (ename evalue : String) (hshell : s'.shell = s.shell)
      (hreceived : s'.received = s.received) (hdelivered : s'.delivered = s.delivered)
      (harrivals : s'.arrivals = s.arrivals) (hhand : s.pc.hand = some a)
      (hhand' : s'.pc.hand = none)
      (hsaid : s'.said a = s.said a ++ replySubshellError a.request ename evalue)
      (hothers : ∀ b : Arrival .shell, b.number ≠ a.number → s'.said b = s.said b)

theorem books_init : Books {} [] where
  numbers := List.nodup_nil
  bound := by intro a ha; cases ha
  places := List.Perm.refl _
  silent := by intro a ha; cases ha
  answers := by intro a ha; cases ha
  fresh := fun _ _ => rfl

/-- Messages may move between the channel, the hand and the shells: the books
look at the three together. -/
theorem Books.moved {answered : List (Arrival .shell)} (hb : Books s answered)
    (hreceived : s'.received = s.received) (harrivals : s.arrivals ≤ s'.arrivals)
    (hplaces : (s.shell ++ (s.pc.hand.toList ++ s.delivered)).Perm
      (s'.shell ++ (s'.pc.hand.toList ++ s'.delivered)))
    (hsaid : ∀ a, s'.said a = s.said a) : Books s' answered where
  numbers := by
    rw [hreceived]
    exact hb.numbers
  bound := by
    intro a ha
    rw [hreceived] at ha
    exact (hb.bound a ha).trans_le harrivals
  places := by
    rw [hreceived]
    refine hb.places.trans ?_
    simpa only [List.append_assoc] using hplaces.append_right answered
  silent := by
    intro a ha
    rw [hsaid]
    exact hb.silent a (hplaces.mem_iff.mpr ha)
  answers := by
    intro a ha
    rw [hsaid]
    exact hb.answers a ha
  fresh := by
    intro a ha
    rw [hsaid]
    exact hb.fresh a (harrivals.trans ha)

theorem books_step {answered : List (Arrival .shell)} (hb : Books s answered)
    (h : HandTurn s s') : ∃ answered', Books s' answered' := by
  cases h with
  | keep h =>
      refine ⟨answered, hb.moved h.received h.arrivals ?_ h.said⟩
      rw [h.shell, h.hand, h.delivered]
  | receive a hnumber harrivals hshell hreceived hdelivered hhand hsaid =>
      refine ⟨answered, ?_, ?_, ?_, ?_, ?_, ?_⟩
      · rw [hreceived, List.map_append, List.nodup_append]
        refine ⟨hb.numbers, List.nodup_singleton _, ?_⟩
        intro n hn m hm heq
        obtain ⟨b, hmem, rfl⟩ := List.mem_map.mp hn
        have hlt := hb.bound b hmem
        rw [List.map_singleton, List.mem_singleton] at hm
        omega
      · intro b hmem
        rw [hreceived] at hmem
        rcases List.mem_append.mp hmem with hold | hnew
        · have := hb.bound b hold
          omega
        · rw [List.mem_singleton.mp hnew]
          omega
      · rw [hreceived, hshell, hhand, hdelivered, List.append_assoc]
        refine (hb.places.append_right [a]).trans ?_
        rw [List.append_assoc]
        exact List.Perm.append_left _ List.perm_append_comm
      · rw [hshell, hhand, hdelivered]
        intro b hmem
        rw [hsaid]
        by_cases heq : b = a
        · rw [heq]
          exact hb.fresh a hnumber.ge
        · refine hb.silent b ?_
          simpa [heq] using hmem
      · intro b hmem
        rw [hsaid]
        exact hb.answers b hmem
      · intro b hle
        rw [hsaid]
        exact hb.fresh b (by omega)
  | take a hshell hreceived hdelivered harrivals hhand hhand' hsaid =>
      refine ⟨answered, hb.moved hreceived harrivals.ge ?_ hsaid⟩
      rw [hshell, hhand, hhand', hdelivered]
      exact List.perm_middle.symm
  | deliver a hshell hreceived hdelivered harrivals hhand hhand' hsaid =>
      refine ⟨answered, hb.moved hreceived harrivals.ge ?_ hsaid⟩
      rw [hshell, hhand, hhand', hdelivered]
      exact List.Perm.append_left _ List.perm_append_comm
  | answer a ename evalue hshell hreceived hdelivered harrivals hhand hhand' hsaid hothers =>
      have hfront : s.received.Perm (a :: (s.shell ++ (s.delivered ++ answered))) := by
        refine hb.places.trans ?_
        rw [hhand]
        exact List.perm_middle
      have hmem : a ∈ s.received := hfront.mem_iff.mpr List.mem_cons_self
      -- the message in hand is in no other place, so no other one is spoken to
      have hapart : ∀ b ∈ s.shell ++ (s.delivered ++ answered), s'.said b = s.said b := by
        intro b hmem
        refine hothers b (fun heq => ?_)
        have hnodup := (hfront.map Arrival.number).nodup_iff.mp hb.numbers
        rw [List.map_cons, List.nodup_cons] at hnodup
        exact hnodup.1 (heq ▸ List.mem_map_of_mem hmem)
      refine ⟨a :: answered, ?_, ?_, ?_, ?_, ?_, ?_⟩
      · rw [hreceived]
        exact hb.numbers
      · rw [hreceived, harrivals]
        exact hb.bound
      · rw [hreceived, hshell, hhand', hdelivered]
        refine hb.places.trans (List.Perm.append_left _ ?_)
        rw [hhand]
        exact (@List.perm_middle _ a s.delivered answered).symm
      · rw [hshell, hhand', hdelivered]
        intro b hmem
        have hrest : b ∈ s.shell ++ (s.delivered ++ answered) := by
          rw [← List.append_assoc]
          exact List.mem_append_left _ hmem
        rw [hapart b hrest]
        refine hb.silent b ?_
        rw [hhand]
        simp only [List.mem_append] at hmem ⊢
        tauto
      · intro b hmem
        rcases List.mem_cons.mp hmem with rfl | hold
        · refine ⟨ename, evalue, ?_⟩
          rw [hsaid, hb.silent b (by simp [hhand]), List.nil_append]
        · rw [hapart b (by simp [hold])]
          exact hb.answers b hold
      · intro b hle
        rw [hothers b (by have := hb.bound a hmem; omega)]
        exact hb.fresh b (by omega)

/-! ## One step of the loop -/

theorem source_ne (a : Arrival .control) (b : Arrival .shell) : a.source ≠ b.source := by
  intro heq
  cases congrArg Prod.fst heq

/-- The replies to control requests are no messages about shell requests. -/
theorem said_say_control (a : Arrival .control) (es : List Emission) (b : Arrival .shell) :
    (s.say a es).said b = s.said b := by
  simp only [said, say, traceOf_append, traceOf_tag_ne (source_ne a b), List.append_nil]

theorem said_say_self (a : Arrival .shell) (es : List Emission) :
    (s.say a es).said a = s.said a ++ es := by
  simp only [said, say, traceOf_append, traceOf_tag_self, List.append_assoc]

theorem said_say_ne {a b : Arrival .shell} (h : b.number ≠ a.number) (es : List Emission) :
    (s.say a es).said b = s.said b := by
  have hne : a.source ≠ b.source := by
    intro heq
    exact h (congrArg Prod.snd heq).symm
  simp only [said, say, traceOf_append, traceOf_tag_ne hne, List.append_nil]

theorem HandTurn.of_answer {a : Arrival .shell} {ename evalue : String} {pc : MainPc}
    (hhand : s.pc.hand = some a) (hhand' : pc.hand = none) :
    HandTurn s { s.say a (replySubshellError a.request ename evalue) with pc } :=
  .answer a ename evalue rfl rfl rfl rfl hhand hhand' (@said_say_self s a _)
    (fun _ hne => @said_say_ne s _ _ hne _)

theorem Keeps.of_reply {a : Arrival .control} {es : List Emission} {pc : MainPc}
    (hhand : pc.hand = s.pc.hand) : Keeps s { s.say a es with pc } :=
  ⟨rfl, rfl, rfl, le_rfl, hhand, @said_say_control s a es⟩

/-- A handler starts where the step has left the message it handles. -/
theorem HandTurn.after_keeps {m : Kernel} (hk : Keeps s m) (harrivals : m.arrivals = s.arrivals)
    (h : HandTurn m s') : HandTurn s s' := by
  obtain ⟨hshell, hreceived, hdelivered, _, hhand, hsaid⟩ := hk
  cases h with
  | keep h =>
      refine .keep ⟨h.shell.trans hshell, h.received.trans hreceived,
        h.delivered.trans hdelivered, harrivals ▸ h.arrivals, h.hand.trans hhand, fun a => ?_⟩
      rw [h.said, hsaid]
  | receive a hnumber h1 h2 h3 h4 h5 h6 =>
      refine .receive a (hnumber.trans harrivals) (harrivals ▸ h1) (hshell ▸ h2) (hreceived ▸ h3)
        (h4.trans hdelivered) (h5.trans hhand) (fun a => ?_)
      rw [h6, hsaid]
  | take a h1 h2 h3 h4 h5 h6 h7 =>
      refine .take a (hshell ▸ h1) (h2.trans hreceived) (h3.trans hdelivered)
        (h4.trans harrivals) (hhand ▸ h5) h6 (fun a => ?_)
      rw [h7, hsaid]
  | deliver a h1 h2 h3 h4 h5 h6 h7 =>
      refine .deliver a (h1.trans hshell) (h2.trans hreceived) (hdelivered ▸ h3)
        (h4.trans harrivals) (hhand ▸ h5) h6 (fun a => ?_)
      rw [h7, hsaid]
  | answer a ename evalue h1 h2 h3 h4 h5 h6 h7 h8 =>
      refine .answer a ename evalue (h1.trans hshell) (h2.trans hreceived) (h3.trans hdelivered)
        (h4.trans harrivals) (hhand ▸ h5) h6 (hsaid a ▸ h7) (fun b hne => ?_)
      rw [h8 b hne, hsaid]

theorem routeTo_hand {id : String} {a : Arrival .shell} {after : After}
    (h : s.pc.hand = some a) : HandTurn s (s.routeTo id a after) := by
  unfold routeTo
  split
  · exact .keep ⟨rfl, rfl, rfl, le_rfl, h.symm, fun _ => rfl⟩
  · exact .of_answer h after.hand_pc

theorem created_hand {id : String} {purpose : Creation} {result : Except Error Unit}
    (h : s.pc.hand = purpose.hand) : HandTurn s (s.created id purpose result) := by
  unfold created
  split
  · exact routeTo_hand h
  · exact .of_answer h (After.hand_pc _)
  · exact .keep ⟨rfl, rfl, rfl, le_rfl, h.symm, fun _ => rfl⟩
  · exact .keep ⟨rfl, rfl, rfl, le_rfl, h.symm, fun _ => rfl⟩
  · exact .keep (.of_reply h.symm)
  · exact .keep (.of_reply h.symm)

theorem CreateRule.hand {id : String} {purpose : Creation} (h : CreateRule s id purpose s')
    (hhand : s.pc.hand = purpose.hand) : HandTurn s s' := by
  cases h with
  | creating hid hnew => exact .keep ⟨rfl, rfl, rfl, le_rfl, hhand.symm, fun _ => rfl⟩
  | _ => exact created_hand hhand

theorem RouteRule.hand {a : Arrival .shell} {after : After} (h : RouteRule s a after s')
    (hhand : s.pc.hand = some a) : HandTurn s s' := by
  cases h with
  | known => exact routeTo_hand hhand
  | create hnew h => exact h.hand hhand

theorem CommandRule.hand {c : SessionCommand} (h : CommandRule s c s') (hhand : s.pc.hand = none) :
    HandTurn s s' := by
  cases h with
  | openSubshell h => exact h.hand hhand
  | _ => exact .keep ⟨rfl, rfl, rfl, le_rfl, rfl, fun _ => rfl⟩

theorem ControlRule.hand {a : Arrival .control} (h : ControlRule s a s')
    (hhand : s.pc.hand = none) : HandTurn s s' := by
  cases h with
  | shutdown | debug => exact .keep (.of_reply hhand.symm)
  | reply hdelete => exact .keep (.of_reply rfl)
  | create htype h => exact h.hand hhand
  | pending htype => exact .keep ⟨rfl, rfl, rfl, le_rfl, hhand.symm, fun _ => rfl⟩
  | delete | ignored => exact .keep ⟨rfl, rfl, rfl, le_rfl, rfl, fun _ => rfl⟩

theorem step_hand (h : s.step services l = some s') : HandTurn s s' := by
  cases step_rule h with
  | receive => exact .receive _ rfl rfl rfl rfl rfl rfl (fun _ => rfl)
  | receiveControl => exact .keep ⟨rfl, rfl, rfl, Nat.le_succ _, rfl, fun _ => rfl⟩
  | @emit e rest hout =>
      refine .keep ⟨rfl, rfl, rfl, le_rfl, rfl, fun a => ?_⟩
      simp only [said, hout, traceOf_append]
      rw [traceOf_cons _ e rest, List.append_assoc]
  | route hpc h => exact h.hand (by rw [hpc]; rfl)
  | @deliver order k a after t t' hpc hget hput =>
      exact .deliver a rfl rfl rfl rfl (by rw [hpc]; rfl) after.hand_pc (fun _ => rfl)
  | @undelivered order k a after hpc hclosed => exact .of_answer (by rw [hpc]; rfl) after.hand_pc
  | takePending hpc hshell =>
      exact .take _ hshell rfl rfl rfl (by rw [hpc]; rfl) rfl (fun _ => rfl)
  | takeShell hpc hshell =>
      exact .take _ hshell rfl rfl rfl (by rw [hpc]; rfl) rfl (fun _ => rfl)
  | interruptReply hpc | releaseReply hpc | debugReturned hpc =>
      exact .keep (.of_reply (by rw [hpc]; rfl))
  | takeCommand hpc hcommands h =>
      refine .after_keeps ?_ ?_ (h.hand ?_)
      · exact ⟨rfl, rfl, rfl, le_rfl, rfl, fun _ => rfl⟩
      · rfl
      · exact congrArg MainPc.hand hpc
  | takeControl hpc hcontrol h =>
      refine .after_keeps ?_ ?_ (h.hand ?_)
      · exact ⟨rfl, rfl, rfl, le_rfl, rfl, fun _ => rfl⟩
      · rfl
      · exact congrArg MainPc.hand hpc
  | @childCreated id purpose hpc =>
      have hhand : s.pc.hand = purpose.hand := congrArg MainPc.hand hpc
      refine .after_keeps ?_ ?_ (created_hand ?_)
      · exact ⟨rfl, rfl, rfl, le_rfl, rfl, fun _ => rfl⟩
      · rfl
      · exact hhand
  | childFailed hpc => exact created_hand (by rw [hpc]; rfl)
  | @jobReplied j job a hjob hended hdone =>
      refine .keep ⟨rfl, rfl, rfl, le_rfl, rfl, fun b => ?_⟩
      have hnone := traceOf_tag_ne (source_ne a b)
        [Emission.reply "delete_subshell_reply" (.object [("status", .string "ok")])]
      rw [List.map_singleton] at hnone
      simp only [said, traceOf_append, hnone, List.append_nil]
  | _ =>
      refine .keep ⟨rfl, rfl, rfl, le_rfl, ?_, fun _ => rfl⟩
      first
        | rfl
        | simp [MainPc.hand, *]

theorem books_of_reachable (hr : Reachable services s) : ∃ answered, Books s answered :=
  @Lib.Reachable.invariant _ _ _ _ _ (fun s : Kernel => ∃ answered, Books s answered) hr
    ⟨[], books_init⟩ (fun _ _ _ ⟨_, hb⟩ hstep => books_step hb (step_hand hstep))

/-! ## Every answered execute request is traced -/

/-- Every execute request of the shell channel that has been answered has its
whole trace, sent or still to be sent: one a shell has taken in, by that
shell; one the loop answered, by the loop alone. -/
structure ExecutionsTraced (s : Kernel) : Prop where
  shells : ∀ t ∈ s.tasks, ∀ item ∈ t.taken, item.isExecute = true → t.Answered item →
    t.Traced item
  loop : ∀ a ∈ s.received, a.request.isExecute = true →
    (∃ e ∈ traceOf a.source s.log, e.isReply = true) →
    a ∉ s.delivered ∧ ExecuteTrace [] (traceOf a.source s.log ++ traceOf a.source s.out)
  delivered : ∀ a ∈ s.delivered, traceOf a.source s.log ++ traceOf a.source s.out = []

theorem executions_traced (hr : Reachable services s) : s.ExecutionsTraced := by
  obtain ⟨answered, hb⟩ := books_of_reachable hr
  have hdelivered : ∀ a ∈ s.delivered, s.said a = [] := fun a ha =>
    hb.silent a (by simp [ha])
  refine ⟨fun t ht item hmem hex hans => ?_, fun a ha hex hans => ?_, hdelivered⟩
  · exact Shell.traced_of_answered (shell_reachable hr t ht) hmem hex hans
  · obtain ⟨e, he, _⟩ := hans
    have hsaid : s.said a ≠ [] := List.ne_nil_of_mem (List.mem_append_left _ he)
    have hplaces := hb.places.mem_iff.mp ha
    have hanswered : a ∈ answered := by
      by_contra hno
      refine hsaid (hb.silent a ?_)
      simp only [List.mem_append] at hplaces ⊢
      tauto
    obtain ⟨ename, evalue, heq⟩ := hb.answers a hanswered
    refine ⟨fun hmem => hsaid (hdelivered a hmem), ?_⟩
    show ExecuteTrace [] (s.said a)
    rw [heq]
    exact executeTrace_replySubshellError hex ename evalue

/-- A cell runs, its language returns, and its reply is sent. -/
def replyToCell : List Label :=
  handleParent (Shell.cell "a" 0 false) ++ List.replicate 2 (.shell 0 (.task .emit)) ++
    [.shell 0 (.task (.returned (.ok {}))), .shell 0 (.task (.pump (.recvMany 1))),
      .shell 0 (.task (.pump (.act true))), .shell 0 (.task .flushed), .shell 0 (.task .emit)]

theorem executions_traced_reply :
    ∃ t, run (Kernel.step subshellServices) {} replyToCell = some t ∧
      (∃ x ∈ t.tasks, ∃ item ∈ x.taken, item.isExecute = true ∧ x.Answered item) ∧
      t.ExecutionsTraced := by
  have hrun : (run (Kernel.step subshellServices) {} replyToCell).map (fun t =>
      t.tasks.any (fun x => x.taken.any (fun item => item.isExecute &&
        (traceOf item.order x.log).any Emission.isReply))) = some true := by decide
  obtain ⟨t, ht, hview⟩ := Option.map_eq_some_iff.mp hrun
  refine ⟨t, ht, ?_, executions_traced ⟨_, ht⟩⟩
  simpa [Shell.Answered, List.any_eq_true] using hview

/-! ## Executions without a whole trace -/

/-- A trace ends with idle, not with the reply. -/
theorem not_executeTrace_of_reply_last {es : List Emission}
    (h : (es.map Emission.isReply).getLast? = some true) (events : List Emission) :
    ¬ ExecuteTrace events es := by
  rintro ⟨opening, closing, _, ⟨outcome, content, rfl, _⟩, rfl⟩
  simp [idle, status, Emission.isReply] at h

/-- A silenced shell of the kernel stays as it is. -/
theorem silenced_stays {k : TaskId} {x : Shell} (hx : s.tasks[k]? = some x)
    (hsilenced : x.Silenced) (h : Lib.Reachable (Kernel.step services) s s') :
    ∃ x', s'.tasks[k]? = some x' ∧ x'.log = x.log ∧ x'.taken = x.taken := by
  have hkept : ∃ x', s'.tasks[k]? = some x' ∧
      (x'.Silenced ∧ x'.log = x.log ∧ x'.taken = x.taken) := by
    refine @Lib.Reachable.invariant _ _ _ _ _ (fun s : Kernel => ∃ x', s.tasks[k]? = some x' ∧
      (x'.Silenced ∧ x'.log = x.log ∧ x'.taken = x.taken)) h ⟨x, hx, hsilenced, rfl, rfl⟩ ?_
    intro a l b ha hstep
    refine task_keeps ?_ ha hstep
    rintro y l' y' ⟨hy, hlog, htaken⟩ hy'
    obtain ⟨hsil, hlog', htaken'⟩ := Shell.silenced_step hy hy'
    exact ⟨hsil, hlog'.trans hlog, htaken'.trans htaken⟩
  obtain ⟨x', hx', _, hsame⟩ := hkept
  exact ⟨x', hx', hsame⟩

/-- An `execute_request` on the control channel. -/
def controlExecution : List Label :=
  [.receiveControl (controlRequest "execute_request" (.object [("code", .string "")])),
    .select (.control "u"), .emit]

/-- The reply to the cell is followed by the shutdown of its shell. -/
def shutdownAfterReply : List Label :=
  replyToCell ++
    handleParent (controlRequest "shutdown_request" (.object [("restart", .bool false)])) ++
    [.shell 0 .emit, .shell 0 (.shutdownReturned (.ok ())), .shell 0 .dropped]

/-- Both are answered and neither gets its idle: the first has no other message
at all, and nothing more is ever sent about the second. -/
theorem untraced_executions :
    (∃ t, run (Kernel.step subshellServices) {} controlExecution = some t ∧ t.out = [] ∧
      (∃ e ∈ traceOf (Router.control, 0) t.log, e.isReply = true) ∧
      ∀ events, ¬ ExecuteTrace events (traceOf (Router.control, 0) t.log)) ∧
    (∃ t, run (Kernel.step subshellServices) {} shutdownAfterReply = some t ∧
      ∀ t', Lib.Reachable (Kernel.step subshellServices) t t' →
        ∃ x, t'.tasks[0]? = some x ∧ ∃ item ∈ x.taken, item.isExecute = true ∧
          x.Answered item ∧ ∀ events, ¬ ExecuteTrace events (traceOf item.order x.log)) := by
  constructor
  · have hrun : (run (Kernel.step subshellServices) {} controlExecution).map
        (fun t => (t.out.isEmpty,
          (traceOf (Router.control, 0) t.log).map Emission.isReply)) = some (true, [true]) := by
      decide
    obtain ⟨t, ht, hview⟩ := Option.map_eq_some_iff.mp hrun
    obtain ⟨hout, hlog⟩ := Prod.mk.inj hview
    refine ⟨t, ht, List.isEmpty_iff.mp hout, ?_, not_executeTrace_of_reply_last (by rw [hlog]; rfl)⟩
    have hmem : true ∈ (traceOf (Router.control, 0) t.log).map Emission.isReply := by
      rw [hlog]
      exact List.mem_singleton_self true
    exact List.mem_map.mp hmem
  · have hrun : (run (Kernel.step subshellServices) {} shutdownAfterReply).map (fun t =>
        t.tasks[0]?.map (fun x => (!x.isOpen && x.out.isEmpty && x.comms.isEmpty && x.active.any
          (fun a => a.aborted && a.output.channel.isEmpty && a.output.actions.isEmpty),
          x.taken.map (fun item => (item.isExecute, item.order)),
          (traceOf 0 x.log).map Emission.isReply))) =
        some (some (true, [(true, 0), (false, 1)], [false, false, true])) := by decide
    obtain ⟨t, ht, hview⟩ := Option.map_eq_some_iff.mp hrun
    obtain ⟨x, hx, hview⟩ := Option.map_eq_some_iff.mp hview
    simp only [Prod.mk.injEq, Bool.and_eq_true, Bool.not_eq_true', List.isEmpty_iff] at hview
    obtain ⟨⟨⟨⟨hended, hout⟩, hcomms⟩, htask⟩, htaken, hlog⟩ := hview
    have hsilenced : x.Silenced := by
      refine ⟨hended, hout, hcomms, ?_⟩
      simpa [Option.any_eq_true, and_assoc] using htask
    refine ⟨t, ht, fun t' ht' => ?_⟩
    obtain ⟨x', hx', hlog', htaken'⟩ := silenced_stays hx hsilenced ht'
    have hmem : (true, 0) ∈ x.taken.map (fun item => (item.isExecute, item.order)) := by
      rw [htaken]
      exact List.mem_cons_self
    obtain ⟨item, hitem, heq⟩ := List.mem_map.mp hmem
    obtain ⟨hex, horder⟩ := Prod.mk.inj heq
    refine ⟨x', hx', item, htaken' ▸ hitem, hex, ?_, ?_⟩
    · have hreply : true ∈ (traceOf 0 x.log).map Emission.isReply := by
        rw [hlog]
        simp
      rw [Shell.Answered, hlog', horder]
      exact List.mem_map.mp hreply
    · rw [hlog', horder]
      exact not_executeTrace_of_reply_last (by rw [hlog]; rfl)

end Kernel

end Kernmini.Engine
