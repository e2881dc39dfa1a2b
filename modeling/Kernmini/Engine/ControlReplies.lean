/-
Kernmini.Engine.ControlReplies — every control request is answered once.

A control request the loop has received is in one place: answered, in the loop's
hand (which may meanwhile route what waits on the shell channel, create a child
session or ask one shell after the other), in the channel, or with a stop job
that will answer it. Wherever it is, its number and the type of its reply are
settled; `owing` is the list of these pairs over all places. A step moves a pair
on, adds that of a request that arrives, or gives one up, and the last only where
the kernel itself ends (`OwingTurn`): a shell that has ended cannot be interrupted
or asked, and a stop job passes the error of its shell on.

So no control request is answered twice or with another's reply type, and a kernel
that is at rest while it serves has answered them all (`control_answered`).
-/
import Kernmini.Engine.Quiesce

namespace Kernmini.Engine

open Kernmini.Wire Kernmini.Lib
open scoped List

/-! ## What is owed -/

/-- The reply after routing what waits on the shell channel. -/
def pendingReply (request : Message) : String :=
  if request.msgType = "interrupt_request" then "interrupt_reply" else "release_reply"

/-- The number and the reply type of a request. -/
def Arrival.entry (a : Arrival .control) : Nat × String := (a.number, a.request.replyType)

def After.owes : After → Option (Nat × String)
  | .select => none
  | .pending a => some (a.number, pendingReply a.request)

def Creation.owes : Creation → Option (Nat × String)
  | .route _ after => after.owes
  | .command _ _ => none
  | .request a => some (a.number, "create_subshell_reply")

/-- The reply the loop is working on. -/
def MainPc.owes : MainPc → Option (Nat × String)
  | .route _ after | .send _ _ after => after.owes
  | .create _ purpose => purpose.owes
  | .routePending a => some (a.number, pendingReply a.request)
  | .interruptShells _ _ request => request.map (fun a => (a.number, "interrupt_reply"))
  | .release _ _ a | .awaitRelease _ _ _ _ a => some (a.number, "release_reply")
  | .debug a => some (a.number, "debug_reply")
  | .select | .interruptFailed _ _ | .returning _ | .stopShells _ _ _ | .returned _ => none

@[simp] theorem After.owes_pc (after : After) : after.pc.owes = after.owes := by
  cases after <;> rfl

def StopDone.owes : StopDone → Option (Nat × String)
  | .complete _ => none
  | .reply a => some (a.number, "delete_subshell_reply")

/-- The reply a stop job will send. -/
def StopJob.owes (job : StopJob) : Option (Nat × String) := job.phase.bind (fun _ => job.done.owes)

/-- The loop is ending. -/
def MainPc.over : MainPc → Bool
  | .interruptFailed _ _ | .returning _ | .stopShells _ _ _ | .returned _ => true
  | _ => false

/-- A reply to a control request, as an entry. -/
def replyEntry : (Router × Nat) × Emission → Option (Nat × String)
  | ((.control, n), .reply msgType _) => some (n, msgType)
  | _ => none

namespace Kernel

variable {services : Services} {s s' t : Kernel} {l : Label} {ls : List Label}
  {a : Arrival .control}

/-- The replies sent or about to be. -/
def replied (s : Kernel) : List (Nat × String) := (s.log ++ s.out).filterMap replyEntry

/-- The requests in the channel. -/
def waiting (s : Kernel) : List (Nat × String) :=
  (s.control.filter (fun a => a.request.isRequest)).map Arrival.entry

/-- The replies of the control requests, wherever these are. -/
def owing (s : Kernel) : List (Nat × String) :=
  s.replied ++ (s.pc.owes.toList ++ (s.waiting ++ s.stops.filterMap StopJob.owes))

/-- The kernel is ending, or a stop job has failed. -/
def Failing (s : Kernel) : Prop := s.failures ≠ [] ∨ s.pc.over = true

/-- Messages for a shell request are no replies to control requests. -/
theorem replied_shell {b : Arrival .shell} {es : List Emission} (hlog : s'.log = s.log)
    (hout : s'.out = s.out ++ es.map (b.source, ·)) : s'.replied = s.replied := by
  have hnone : (es.map (b.source, ·)).filterMap replyEntry = [] := by
    simp [replyEntry, Arrival.source]
  rw [replied, replied, hlog, hout, ← List.append_assoc, List.filterMap_append, hnone,
    List.append_nil]

theorem replied_control {reply : String} {content : Value} (hlog : s'.log = s.log)
    (hout : s'.out = s.out ++ [(a.source, .reply reply content)]) :
    s'.replied = s.replied ++ [(a.number, reply)] := by
  rw [replied, replied, hlog, hout, ← List.append_assoc, List.filterMap_append]
  rfl

/-- The reply of the debugger, among its events. -/
theorem replied_debugReturned (result : Except Error Value) :
    (s.debugReturned a result).replied = s.replied ++ [(a.number, "debug_reply")] := by
  obtain ⟨content, events, heq⟩ : ∃ content, ∃ events : List Value, s.debugReturned a result =
      { s.say a ([.reply "debug_reply" content] ++ events.map (.iopub "debug_event") ++ [idle]) with
        pc := .select } := ⟨_, _, rfl⟩
  simp [heq, replied, say, replyEntry, Arrival.source, idle, status]

/-! ## One step -/

/-- What a step does to the replies that are owed. -/
inductive OwingTurn (s s' : Kernel) : Prop
  | same (h : s'.owing ~ s.owing)
  | receive (e : Nat × String) (hnumber : e.1 = s.arrivals)
      (harrivals : s'.arrivals = s.arrivals + 1) (h : s'.owing ~ e :: s.owing)
  | giveUp (hfailing : s'.Failing) (h : s'.owing <+~ s.owing)

/-- What the handlers leave alone, with `e` in the loop's hand in the end. -/
structure Handled (s s' : Kernel) (e : Option (Nat × String)) : Prop where
  control : s'.control = s.control
  stops : s'.stops = s.stops
  replied : s'.replied = s.replied
  hand : s'.pc.owes = e

theorem Handled.turn (h : Handled s s' s.pc.owes) : OwingTurn s s' := by
  refine .same ?_
  rw [owing, owing, waiting, waiting, h.replied, h.hand, h.control, h.stops]

/-- The reply in the loop's hand is sent. -/
theorem turn_of_reply {e : Nat × String} (hhand : s.pc.owes = some e) (hhand' : s'.pc.owes = none)
    (hcontrol : s'.control = s.control) (hstops : s'.stops = s.stops)
    (hreplied : s'.replied = s.replied ++ [e]) : OwingTurn s s' := by
  refine .same ?_
  rw [owing, owing, waiting, waiting, hreplied, hhand, hhand', hcontrol, hstops, List.append_assoc]
  rfl

/-- The reply in the loop's hand is given up. -/
theorem turn_of_over (hover : s'.pc.over = true) (hhand : s'.pc.owes = none)
    (hcontrol : s'.control = s.control) (hstops : s'.stops = s.stops)
    (hreplied : s'.replied = s.replied) : OwingTurn s s' := by
  refine .giveUp (.inr hover) ?_
  rw [owing, owing, waiting, waiting, hreplied, hhand, hcontrol, hstops]
  exact ((List.sublist_append_right _ _).append_left _).subperm

theorem routeTo_handled (id : String) (b : Arrival .shell) (after : After) :
    Handled s (s.routeTo id b after) after.owes := by
  unfold routeTo
  split
  · exact ⟨rfl, rfl, rfl, rfl⟩
  · exact ⟨rfl, rfl, replied_shell rfl rfl, After.owes_pc after⟩

theorem created_handled (id : String) (purpose : Creation) (result : Except Error Unit)
    (h : ∀ a, purpose ≠ .request a) :
    Handled s (s.created id purpose result) purpose.owes := by
  cases purpose with
  | route b after =>
      cases result with
      | ok _ => exact routeTo_handled id b after
      | error error => exact ⟨rfl, rfl, replied_shell rfl rfl, After.owes_pc after⟩
  | command cell clientSession => cases result <;> exact ⟨rfl, rfl, rfl, rfl⟩
  | request a => exact absurd rfl (h a)

theorem CreateRule.handled {id : String} {purpose : Creation} (h : CreateRule s id purpose s')
    (hpurpose : ∀ a, purpose ≠ .request a) : Handled s s' purpose.owes := by
  cases h with
  | refused | found => exact created_handled id purpose _ hpurpose
  | creating hid hnew => exact ⟨rfl, rfl, rfl, rfl⟩

theorem RouteRule.handled {b : Arrival .shell} {after : After} (h : RouteRule s b after s') :
    Handled s s' after.owes := by
  cases h with
  | known => exact routeTo_handled _ b after
  | create hnew h => exact h.handled (by simp)

theorem CommandRule.owingTurn {c : SessionCommand} {rest : List SessionCommand}
    (h : CommandRule { s with commands := rest } c s') (hpc : s.pc = .select) : OwingTurn s s' := by
  have hhand : s.pc.owes = none := by rw [hpc]; rfl
  cases h with
  | openSubshell h =>
      have hh := h.handled (by simp)
      exact Handled.turn ⟨hh.control, hh.stops, hh.replied, hh.hand.trans hhand.symm⟩
  | closeDelete hroute hlookup =>
      refine .same ?_
      simp [owing, replied, waiting, stopInBackground, StopJob.owes, StopDone.owes]
  | _ => exact Handled.turn ⟨rfl, rfl, rfl, rfl⟩

/-- The answer to a request to create a subshell. -/
theorem created_request_turn {m : Kernel} (id : String) (result : Except Error Unit)
    (howing : s.owing = m.replied ++ ((a.number, "create_subshell_reply") ::
      (m.waiting ++ m.stops.filterMap StopJob.owes))) :
    OwingTurn s (m.created id (.request a) result) := by
  refine .same ?_
  have hreplied : (m.created id (.request a) result).replied =
      m.replied ++ [(a.number, "create_subshell_reply")] := by
    cases result <;> exact replied_control rfl rfl
  have hrest : (m.created id (.request a) result).owing =
      (m.created id (.request a) result).replied ++ (m.waiting ++ m.stops.filterMap StopJob.owes) := by
    cases result <;> rfl
  rw [hrest, hreplied, howing, List.append_assoc]
  rfl

/-- Where the reply of the request that is taken up goes. -/
theorem owing_of_take {rest : List (Arrival .control)} {reply : String} (hpc : s.pc = .select)
    (hcontrol : s.control = a :: rest) (hrequest : a.request.isRequest = true)
    (hreply : a.request.replyType = reply) :
    s.owing = s.replied ++ ((a.number, reply) :: (Kernel.waiting { s with control := rest } ++
      s.stops.filterMap StopJob.owes)) := by
  simp only [owing, waiting, hpc, hcontrol, List.filter_cons, hrequest, if_true, List.map_cons,
    Arrival.entry, hreply]
  rfl

/-- The request and the reply type of a known message type. -/
theorem request_of_type {request : Message} {msgType : String} (reply : String)
    (h : request.msgType = msgType)
    (hrequest : endsWith msgType "_request" = true)
    (hreply : replace msgType "_request" "_reply" = reply) :
    request.isRequest = true ∧ request.replyType = reply := by
  rw [Message.isRequest, Message.replyType, h]
  exact ⟨hrequest, hreply⟩

/-- The request goes on in the loop. -/
theorem turn_of_hold {rest : List (Arrival .control)} {reply : String} (hpc : s.pc = .select)
    (hcontrol : s.control = a :: rest) (hrequest : a.request.isRequest = true)
    (hreply : a.request.replyType = reply) (hcontrol' : s'.control = rest)
    (hstops : s'.stops = s.stops) (hreplied : s'.replied = s.replied)
    (hhand : s'.pc.owes = some (a.number, reply)) : OwingTurn s s' := by
  refine .same ?_
  rw [owing_of_take hpc hcontrol hrequest hreply, owing, waiting, hreplied, hhand, hcontrol', hstops]
  rfl

/-- The request is answered at once. -/
theorem turn_of_answer {rest : List (Arrival .control)} {reply : String} (hpc : s.pc = .select)
    (hcontrol : s.control = a :: rest) (hrequest : a.request.isRequest = true)
    (hreply : a.request.replyType = reply) (hcontrol' : s'.control = rest)
    (hstops : s'.stops = s.stops) (hreplied : s'.replied = s.replied ++ [(a.number, reply)])
    (hhand : s'.pc.owes = none) : OwingTurn s s' := by
  refine .same ?_
  rw [owing_of_take hpc hcontrol hrequest hreply, owing, waiting, hreplied, hhand, hcontrol', hstops,
    List.append_assoc]
  rfl

/-- The request is left to a stop job. -/
theorem turn_of_leave {rest : List (Arrival .control)} {reply : String} {job : StopJob}
    (hpc : s.pc = .select) (hcontrol : s.control = a :: rest) (hrequest : a.request.isRequest = true)
    (hreply : a.request.replyType = reply) (hcontrol' : s'.control = rest)
    (hstops : s'.stops = s.stops ++ [job]) (hreplied : s'.replied = s.replied)
    (hhand : s'.pc.owes = none) (hjob : job.owes = some (a.number, reply)) : OwingTurn s s' := by
  refine .same ?_
  rw [owing_of_take hpc hcontrol hrequest hreply, owing, waiting, hreplied, hhand, hcontrol', hstops,
    List.filterMap_append, List.filterMap_cons, hjob]
  refine List.Perm.append_left _ ?_
  rw [Option.toList_none, List.nil_append, ← List.append_assoc]
  exact List.perm_append_singleton _ _

theorem CreateRule.request_turn {id : String} {rest : List (Arrival .control)}
    (h : CreateRule { s with control := rest } id (.request a) s') (hpc : s.pc = .select)
    (hcontrol : s.control = a :: rest) (htype : a.request.msgType = "create_subshell_request") :
    OwingTurn s s' := by
  obtain ⟨hrequest, hreply⟩ :=
    request_of_type "create_subshell_reply" htype (by decide) (by decide)
  have howing := owing_of_take hpc hcontrol hrequest hreply
  cases h with
  | refused | found => exact created_request_turn id _ howing
  | creating hid hnew => exact turn_of_hold hpc hcontrol hrequest hreply rfl rfl rfl rfl

theorem handleControl_turn {rest : List (Arrival .control)} (fresh : String) (hpc : s.pc = .select)
    (hcontrol : s.control = a :: rest) :
    OwingTurn s ({ s with control := rest }.handleControl services fresh a) := by
  have hgoesOn : ∀ {m : Kernel} {msgType : String} (reply : String), a.request.msgType = msgType →
      endsWith msgType "_request" = true → replace msgType "_request" "_reply" = reply →
      m.control = rest → m.stops = s.stops → m.replied = s.replied →
      m.pc.owes = some (a.number, reply) → OwingTurn s m := by
    intro m msgType reply htype hrequest hreply
    obtain ⟨hrequest, hreply⟩ := request_of_type reply htype hrequest hreply
    exact turn_of_hold hpc hcontrol hrequest hreply
  have hanswered : ∀ {m : Kernel} {msgType : String} (reply : String), a.request.msgType = msgType →
      endsWith msgType "_request" = true → replace msgType "_request" "_reply" = reply →
      m.control = rest → m.stops = s.stops → m.replied = s.replied ++ [(a.number, reply)] →
      m.pc.owes = none → OwingTurn s m := by
    intro m msgType reply htype hrequest hreply
    obtain ⟨hrequest, hreply⟩ := request_of_type reply htype hrequest hreply
    exact turn_of_answer hpc hcontrol hrequest hreply
  have hselect : s.pc.owes = none := by rw [hpc]; rfl
  unfold handleControl
  simp only
  split
  · next htype =>
      exact hanswered "shutdown_reply" htype (by decide) (by decide) rfl rfl
                  (replied_control rfl rfl) rfl
  · split
    · next htype =>
        exact hgoesOn "interrupt_reply" htype (by decide) (by decide) rfl rfl rfl
          (by simp [MainPc.owes, pendingReply, htype])
    · split
      · next htype =>
          split
          · exact hanswered "create_subshell_reply" htype (by decide) (by decide) rfl rfl
                  (replied_control rfl rfl) hselect
          · exact (createSubshell_rule _ _).request_turn hpc hcontrol htype
      · split
        · next htype =>
            exact hanswered "list_subshell_reply" htype (by decide) (by decide) rfl rfl
                  (replied_control rfl rfl) hselect
        · split
          · next htype =>
              split
              · obtain ⟨hrequest, hreply⟩ :=
                  request_of_type "delete_subshell_reply" htype (by decide) (by decide)
                exact turn_of_leave hpc hcontrol hrequest hreply rfl rfl rfl hselect rfl
              · exact hanswered "delete_subshell_reply" htype (by decide) (by decide) rfl rfl
                  (replied_control rfl rfl) hselect
          · split
            · next htype =>
                exact hgoesOn "release_reply" htype (by decide) (by decide) rfl rfl rfl
                  (by simp [MainPc.owes, pendingReply, htype])
            · split
              · next htype =>
                  exact hgoesOn "debug_reply" htype (by decide) (by decide) rfl rfl
                    (by simp [replied, say, replyEntry, busy, status]) rfl
              · split
                · next hrequest =>
                    exact turn_of_answer hpc hcontrol hrequest rfl rfl rfl (replied_control rfl rfl) hselect
                · next hrequest =>
                    refine .same ?_
                    simp [owing, waiting, replied, hcontrol, hrequest]

theorem jobStep_turn {j : Nat} (h : s.jobStep j = some s') : OwingTurn s s' := by
  obtain ⟨job, phase, hjob, hphase, hcase⟩ := jobStep_cases h
  have howes : job.owes = job.done.owes := by rw [StopJob.owes, hphase, Option.bind_some]
  have hset := fun job' => @filterMap_set _ _ StopJob.owes _ _ _ job' hjob
  rcases hcase with ⟨m, next, hstop, rfl⟩ | ⟨ended, _, _, rfl⟩
  · obtain ⟨_, tasks, rfl⟩ := stopStep_price hstop
    have hgoesOn := hset { job with phase := some next }
    have hsame : StopJob.owes { job with phase := some next } = job.owes := by
      rw [howes, StopJob.owes, Option.bind_some]
    rw [hsame] at hgoesOn
    refine .same ?_
    exact (((List.perm_append_left_iff _).mp hgoesOn).symm.append_left _).append_left _ |>.append_left _
  · have hover := hset { job with phase := none }
    rw [howes] at hover
    cases ended with
    | error error =>
        refine .giveUp (.inl (by simp [stopDone])) ?_
        have hless := (List.sublist_append_right _ _).subperm.trans hover.symm.subperm
        exact (List.subperm_append_left _).mpr ((List.subperm_append_left _).mpr
          ((List.subperm_append_left _).mpr hless))
    | ok _ =>
        cases hdone : job.done with
        | complete cell =>
            rw [hdone] at hover
            refine .same ?_
            exact ((hover.symm.append_left _).append_left _).append_left _
        | reply a =>
            rw [hdone] at hover
            refine .same (List.perm_iff_count.mpr (fun e => ?_))
            have hcount := hover.count_eq e
            simp only [StopJob.owes, StopDone.owes, Option.bind_none, Option.toList_none,
              List.nil_append, Option.toList_some, List.singleton_append, List.count_cons] at hcount
            simp only [owing, replied, waiting, stopDone, List.filterMap_append, List.filterMap_cons,
              List.filterMap_nil, replyEntry, Arrival.source, List.count_append, List.count_cons,
              List.count_nil, hcount]
            omega

/-- What is not an interrupt is a release. -/
theorem type_of_release {order todo : List TaskId} {found : Bool}
    (h : s.step services (.next order) = some s') (hpc : s.pc = .routePending a)
    (hpc' : s'.pc = .release todo found a) : a.request.msgType ≠ "interrupt_request" := by
  intro htype
  simp only [step] at h
  split at h
  · simp only [next, hpc, htype, if_true] at h
    split at h
    · cases h
      cases hpc'
    · split at h
      · cases h
        cases hpc'
      · cases h
  · cases h

theorem next_owingTurn {order : List TaskId} (h : s.step services (.next order) = some s') :
    OwingTurn s s' := by
  have hsame : ∀ {m : Kernel}, m.control = s.control → m.stops = s.stops → m.replied = s.replied →
      m.pc.owes = s.pc.owes → OwingTurn s m :=
    fun hcontrol hstops hreplied hpc => Handled.turn ⟨hcontrol, hstops, hreplied, hpc⟩
  cases step_rule h with
  | route hpc h =>
      have hh := h.handled
      exact hsame hh.control hh.stops hh.replied (by rw [hh.hand, hpc]; rfl)
  | deliver hpc => exact hsame rfl rfl rfl (by rw [hpc]; exact After.owes_pc _)
  | undelivered hpc =>
      exact hsame rfl rfl (replied_shell rfl rfl) (by rw [hpc]; exact After.owes_pc _)
  | startInterrupt hpc hshell horder htype =>
      exact hsame rfl rfl rfl (by simp [hpc, MainPc.owes, pendingReply, htype])
  | startRelease hpc =>
      exact hsame rfl rfl rfl (by simp [hpc, MainPc.owes, pendingReply, type_of_release h hpc rfl])
  | interruptClosed hpc => exact turn_of_over rfl rfl rfl rfl rfl
  | interruptReply hpc =>
      exact turn_of_reply (by rw [hpc]; rfl) rfl rfl rfl (replied_control rfl rfl)
  | releaseClosed | unreleased => exact turn_of_over rfl rfl rfl rfl rfl
  | releaseReply hpc => exact turn_of_reply (by rw [hpc]; rfl) rfl rfl rfl (replied_control rfl rfl)
  | takePending hpc | interrupt hpc | interruptFailed hpc | interruptDone hpc | release hpc
  | released hpc | drain hpc | stopPut hpc | stopClosed hpc | stopped hpc | returned hpc =>
      exact hsame rfl rfl rfl (by rw [hpc]; rfl)

theorem takeControl_turn {fresh : String} (h : s.step services (.select (.control fresh)) = some s') :
    OwingTurn s s' := by
  simp only [step] at h
  split at h
  · next hpc hout =>
      simp only [selectStep] at h
      split at h
      · next hcontrol =>
          split at h
          · cases h
            exact handleControl_turn fresh hpc hcontrol
          · cases h
      · cases h
  · cases h

theorem created_owingTurn {id : String} {purpose : Creation} {m : Kernel}
    (result : Except Error Unit) (hpc : s.pc = .create id purpose) (hcontrol : m.control = s.control)
    (hstops : m.stops = s.stops) (hreplied : m.replied = s.replied) :
    OwingTurn s (m.created id purpose result) := by
  have hhandled : (∀ a, purpose ≠ .request a) → OwingTurn s (m.created id purpose result) := by
    intro hpurpose
    have hh := @created_handled m id purpose result hpurpose
    refine Handled.turn ⟨hh.control.trans hcontrol, hh.stops.trans hstops,
      hh.replied.trans hreplied, ?_⟩
    rw [hh.hand, hpc]
    rfl
  cases purpose with
  | route | command => exact hhandled (by simp)
  | request a =>
      refine created_request_turn id result ?_
      rw [owing, hpc, hreplied, hstops, waiting, waiting, hcontrol]
      rfl

theorem owingTurn (h : s.step services l = some s') : OwingTurn s s' := by
  cases l with
  | receiveControl inbound =>
      cases step_rule h with
      | receiveControl =>
          cases hrequest : (⟨s.arrivals, inbound⟩ : Arrival .control).request.isRequest with
          | false =>
              refine .same ?_
              simp [owing, replied, waiting, hrequest]
          | true =>
              refine .receive (⟨s.arrivals, inbound⟩ : Arrival .control).entry rfl rfl
                (List.perm_iff_count.mpr (fun e => ?_))
              simp only [owing, replied, waiting, List.filter_append, List.filter_cons, hrequest,
                List.filter_nil, if_true, List.map_append, List.map_cons, List.map_nil,
                List.count_append, List.count_cons, List.count_nil]
              omega
  | emit =>
      cases step_rule h with
      | emit hout =>
          refine Handled.turn ⟨rfl, rfl, ?_, rfl⟩
          simp [replied, hout]
  | next order => exact next_owingTurn h
  | select b =>
      cases step_rule h with
      | takeCommand hpc hcommands h => exact h.owingTurn hpc
      | takeControl hpc hcontrol h' => exact takeControl_turn h
      | reaped hpc => exact Handled.turn ⟨rfl, rfl, rfl, rfl⟩
      | background hpc | failed hpc | reapedParent hpc | reapedError hpc | terminate hpc
      | notified hpc | takeShell hpc => exact Handled.turn ⟨rfl, rfl, rfl, by rw [hpc]; rfl⟩
  | childCreated result =>
      cases step_rule h with
      | childCreated hpc | childFailed hpc => exact created_owingTurn _ hpc rfl rfl rfl
  | debugReturned result =>
      cases step_rule h with
      | debugReturned hpc =>
          exact turn_of_reply (by rw [hpc]; rfl) rfl rfl rfl (replied_debugReturned result)
  | stop j => exact jobStep_turn h
  | shell k l | receive inbound | command c | notify =>
      cases step_rule h
      exact Handled.turn ⟨rfl, rfl, rfl, rfl⟩

/-! ## Whole runs -/

theorem arrivals_le (h : s.step services l = some s') : s.arrivals ≤ s'.arrivals := by
  cases step_hand h with
  | keep h => exact h.arrivals
  | receive b hnumber harrivals => omega
  | take b hshell hreceived hdelivered harrivals | deliver b hshell hreceived hdelivered harrivals
  | answer b ename evalue hshell hreceived hdelivered harrivals => exact harrivals.ge

/-- Every reply is owed once. -/
structure OwedOnce (s : Kernel) : Prop where
  nodup : (s.owing.map Prod.fst).Nodup
  below : ∀ e ∈ s.owing, e.1 < s.arrivals

theorem owedOnce_init : OwedOnce {} where
  nodup := List.nodup_nil
  below := by
    intro e he
    cases he

theorem owedOnce_step (hs : s.OwedOnce) (h : s.step services l = some s') : s'.OwedOnce := by
  have hle := arrivals_le h
  cases owingTurn h with
  | same h =>
      refine ⟨(h.map _).nodup_iff.mpr hs.nodup, fun e he => ?_⟩
      exact Nat.lt_of_lt_of_le (hs.below e (h.mem_iff.mp he)) hle
  | receive new hnumber harrivals h =>
      refine ⟨(h.map _).nodup_iff.mpr (List.nodup_cons.mpr ⟨?_, hs.nodup⟩), fun e he => ?_⟩
      · intro hmem
        obtain ⟨e, he, heq⟩ := List.mem_map.mp hmem
        have hlt := hs.below e he
        omega
      · rcases List.mem_cons.mp (h.mem_iff.mp he) with rfl | hold
        · omega
        · exact Nat.lt_of_lt_of_le (hs.below e hold) hle
  | giveUp hfailing h =>
      refine ⟨?_, fun e he => Nat.lt_of_lt_of_le (hs.below e (h.subset he)) hle⟩
      obtain ⟨kept, hperm, hsub⟩ := h
      exact (hperm.map _).nodup_iff.mp (hs.nodup.sublist (hsub.map _))

/-- The creation of a subshell fails no stop job. -/
theorem created_failures (id : String) (purpose : Creation) (result : Except Error Unit) :
    (s.created id purpose result).failures = s.failures := by
  unfold created routeTo
  split
  · split <;> rfl
  all_goals rfl

theorem CreateRule.failures {id : String} {purpose : Creation} (h : CreateRule s id purpose s') :
    s'.failures = s.failures := by
  cases h with
  | refused | found => exact created_failures _ _ _
  | creating hid hnew => rfl

theorem RouteRule.failures {b : Arrival .shell} {after : After} (h : RouteRule s b after s') :
    s'.failures = s.failures := by
  cases h with
  | known =>
      unfold routeTo
      split <;> rfl
  | create hnew h => exact h.failures

theorem CommandRule.failures {c : SessionCommand} (h : CommandRule s c s') :
    s'.failures = s.failures := by
  cases h with
  | openSubshell h => exact h.failures
  | _ => rfl

theorem ControlRule.failures (h : ControlRule s a s') : s'.failures = s.failures := by
  cases h with
  | create htype h => exact h.failures
  | _ => rfl

theorem failures_step (hfailures : s.failures ≠ []) (h : s.step services l = some s') :
    s'.Failing := by
  have hsame : s'.failures = s.failures → s'.Failing := fun heq => .inl (heq ▸ hfailures)
  cases step_rule h with
  | failed hpc => exact .inr rfl
  | jobFailed hjob hended => exact .inl (by simp)
  | route hpc h | takeCommand hpc hcommands h | takeControl hpc hcontrol h => exact hsame h.failures
  | @childCreated id purpose hpc => exact hsame (@created_failures (s.spawnShell id) id purpose _)
  | childFailed hpc => exact hsame (created_failures _ _ _)
  | _ => exact hsame rfl

theorem over_step (hover : s.pc.over = true) (h : s.step services l = some s') :
    s'.pc.over = true := by
  cases step_rule h with
  | shell | receive | receiveControl | command | notify | emit | jobPut | jobClosed | jobFailed
  | jobCompleted | jobReplied => exact hover
  | interruptFailed hpc | drain hpc | stopPut hpc | stopClosed hpc | stopped hpc | returned hpc => rfl
  | _ hpc =>
      rw [hpc] at hover
      cases hover

/-- A kernel that is ending does not serve again. -/
theorem failing_step (hs : s.Failing) (h : s.step services l = some s') : s'.Failing := by
  rcases hs with hfailures | hover
  · exact failures_step hfailures h
  · exact .inr (over_step hover h)

/-- What is owed since `start`. -/
structure Since (start s : Kernel) : Prop where
  arrivals : start.arrivals ≤ s.arrivals
  old : ∀ e ∈ s.owing, e ∈ start.owing ∨ start.arrivals ≤ e.1
  kept : s.Failing ∨ ∀ e ∈ start.owing, e ∈ s.owing

theorem since_step {start : Kernel} (hs : Since start s) (h : s.step services l = some s') :
    Since start s' := by
  refine ⟨hs.arrivals.trans (arrivals_le h), fun e he => ?_, ?_⟩
  · cases owingTurn h with
    | same h => exact hs.old e (h.mem_iff.mp he)
    | receive new hnumber harrivals h =>
        rcases List.mem_cons.mp (h.mem_iff.mp he) with rfl | hold
        · exact .inr (hnumber ▸ hs.arrivals)
        · exact hs.old e hold
    | giveUp hfailing h => exact hs.old e (h.subset he)
  · rcases hs.kept with hfailing | hkept
    · exact .inl (failing_step hfailing h)
    · cases owingTurn h with
      | same h => exact .inr (fun e he => h.mem_iff.mpr (hkept e he))
      | receive new hnumber harrivals h =>
          exact .inr (fun e he => h.mem_iff.mpr (List.mem_cons_of_mem _ (hkept e he)))
      | giveUp hfailing h => exact .inl hfailing

/-- The types of the replies sent to a control request. -/
def repliesTo (s : Kernel) (a : Arrival .control) : List String :=
  traceOf a.number (s.log.filterMap replyEntry)

/-- What has been sent is owed no more. -/
theorem sent_sublist (s : Kernel) : s.log.filterMap replyEntry <+ s.owing := by
  rw [owing, replied, List.filterMap_append, List.append_assoc]
  exact List.sublist_append_left _ _

/-- At rest a kernel that serves has sent every reply. -/
theorem AtRest.owing (h : s.AtRest) (hserving : s.serving = true) :
    ¬ s.Failing ∧ s.owing = s.log.filterMap replyEntry := by
  have hserved : s.Served := by
    rcases h.pc with hserved | hreturned
    · exact hserved
    · obtain ⟨result, hpc⟩ := hreturned.pc
      rw [serving, hpc] at hserving
      cases hserving
  constructor
  · rintro (hfailures | hover)
    · exact hfailures hserved.failures
    · rw [hserved.pc] at hover
      cases hover
  · have hjobs : s.stops.filterMap StopJob.owes = [] := by
      refine List.filterMap_eq_nil_iff.mpr (fun job hjob => ?_)
      rw [StopJob.owes, h.jobs job hjob]
      rfl
    rw [Kernel.owing, replied, waiting, hjobs, hserved.pc, hserved.control, h.sent]
    simp [MainPc.owes]

/-- However the loop, the shells and the stop jobs interleave: a request that
waits on the control channel gets one reply at most, of its own reply type, and it
has got it whenever the kernel is at rest and still serves. -/
theorem control_answered (hr : Reachable services s) (ha : a ∈ s.control)
    (hrequest : a.request.isRequest = true) (hrun : run (Kernel.step services) s ls = some t) :
    (t.repliesTo a = [] ∨ t.repliesTo a = [a.request.replyType]) ∧
      (t.AtRest → t.serving = true → t.repliesTo a = [a.request.replyType]) := by
  have honce : s.OwedOnce := Lib.Reachable.invariant hr owedOnce_init (fun _ _ _ => owedOnce_step)
  have hmem : a.entry ∈ s.owing := by
    refine List.mem_append_right _ (List.mem_append_right _ (List.mem_append_left _ ?_))
    exact List.mem_map_of_mem (List.mem_filter.mpr ⟨ha, hrequest⟩)
  have honce' : t.OwedOnce := run_invariant (fun _ _ _ => owedOnce_step) hrun honce
  have hsince : Since s t := run_invariant (fun _ _ _ => since_step) hrun
    ⟨Nat.le_refl _, fun e he => .inl he, .inr (fun e he => he)⟩
  have hnodup : ((t.log.filterMap replyEntry).map Prod.fst).Nodup :=
    honce'.nodup.sublist (t.sent_sublist.map _)
  -- a reply with the number of the request has its type
  have htype : ∀ reply, (a.number, reply) ∈ t.log.filterMap replyEntry →
      t.repliesTo a = [a.request.replyType] := by
    intro reply hreply
    rcases hsince.old _ (t.sent_sublist.subset hreply) with hold | hnew
    · have heq : (a.number, reply) = a.entry := List.inj_on_of_nodup_map honce.nodup hold hmem rfl
      rw [heq] at hreply
      exact traceOf_of_nodup hnodup hreply
    · have hlt := honce.below _ hmem
      exact absurd hnew (Nat.not_le.mpr hlt)
  constructor
  · by_cases hreply : ∃ reply, (a.number, reply) ∈ t.log.filterMap replyEntry
    · obtain ⟨reply, hreply⟩ := hreply
      exact .inr (htype reply hreply)
    · exact .inl (traceOf_of_not_mem (fun reply hmem => hreply ⟨reply, hmem⟩))
  · intro hrest hserving
    obtain ⟨hhealthy, howing⟩ := hrest.owing hserving
    refine htype a.request.replyType ?_
    rw [← howing]
    exact hsince.kept.resolve_left hhealthy a.entry hmem

/-- An interrupt is answered, and the kernel comes to rest. -/
def answerInterrupt : List Label :=
  [.select (.control "u"), .next [0], .next [], .next [], .emit] ++
    List.replicate 8 (.shell 0 (.next Shell.quiet))

theorem control_answered_interrupt :
    ∃ s t, run (Kernel.step subshellServices) {}
        [.receiveControl (controlRequest "interrupt_request" (.object []))] = some s ∧
      run (Kernel.step subshellServices) s answerInterrupt = some t ∧ t.AtRest ∧
      t.repliesTo ⟨0, controlRequest "interrupt_request" (.object [])⟩ = ["interrupt_reply"] := by
  have hview : (run (Kernel.step subshellServices) {}
      [.receiveControl (controlRequest "interrupt_request" (.object []))]).map
        (fun s => (run (Kernel.step subshellServices) s answerInterrupt).map
          (fun t => (t.out.isEmpty, t.stops.length, decide t.Served))) =
      some (some (true, 0, true)) := by decide +kernel
  obtain ⟨s, hs, hview⟩ := Option.map_eq_some_iff.mp hview
  obtain ⟨t, ht, hview⟩ := Option.map_eq_some_iff.mp hview
  obtain ⟨hsent, hstops, hserved⟩ : t.out = [] ∧ t.stops = [] ∧ t.Served := by simpa using hview
  have hrest : t.AtRest := ⟨hsent, by simp [hstops], .inl hserved⟩
  have hcontrol : s.control = [⟨0, controlRequest "interrupt_request" (.object [])⟩] := by
    rw [run_singleton] at hs
    cases hs
    rfl
  have hanswered := control_answered ⟨_, hs⟩ (by rw [hcontrol]; exact List.mem_singleton_self _)
    (by decide +kernel) ht
  refine ⟨s, t, hs, ht, hrest, (hanswered.2 hrest ?_).trans (by decide +kernel)⟩
  rw [serving, hserved.pc]

end Kernel

end Kernmini.Engine
