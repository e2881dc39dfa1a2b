/-
Kernmini.Engine.ShellTraces — the trace every execute request leaves in a
shell.

Only the scheduler and the request's own task say anything about an
execute request, and the stages of its life determine what
(`traces_of_reachable`). A shell ends with nothing left to send, except
what a task it cuts off had still to send (`settled_of_reachable`). So an
answered request has a whole trace, sent or still to be sent
(`traced_of_answered`).
-/
import Kernmini.Engine.ShellLife

namespace Kernmini.Engine

open Kernmini.Wire Kernmini.Lib

namespace Shell

variable {services : Services} {s s' : Shell} {l : Label} {item : QueueItem}

/-! ## Comm messages -/

/-- A comm message that is handled gets an output, and no output changes
hands. -/
def CommsGrow (s s' : Shell) : Prop :=
  s'.comms.map Prod.fst = s.comms.map Prod.fst ∨
    ∃ m, s.pc = .handle m ∧ m.isExecute = false ∧
      s'.comms.map Prod.fst = s.comms.map Prod.fst ++ [m.order]

theorem map_fst_accept (comms : List (Nat × Output)) (n : Nat) (m : ContextMessage) :
    (comms.modify n (fun entry => (entry.1, entry.2.accept m))).map Prod.fst =
      comms.map Prod.fst := by
  induction comms generalizing n with
  | nil => simp
  | cons entry comms ih =>
      cases n with
      | zero => simp
      | succ n => simpa using ih n

theorem ApplyRule.comms {c : ShellControl} {resume : Resume} {rest : List ShellControl}
    (h : ApplyRule { s with controls := rest } resume c s') : s'.comms = s.comms := by
  cases h with
  | _ => rfl

theorem HandleItemRule.comms {m : QueueItem} (h : HandleItemRule services s m s')
    (hpc : s.pc = .handle m) : CommsGrow s s' := by
  cases h with
  | shell hm h =>
      cases h with
      | comm hfields hcall => exact Or.inr ⟨m, hpc, hm, by simp⟩
      | _ => exact Or.inl rfl
  | _ => exact Or.inl rfl

theorem LoopRule.comms (h : LoopRule services s l s') : CommsGrow s s' := by
  cases h with
  | takeControl hpc hcontrols h | selectControl hpc hcontrols h => exact Or.inl (by rw [h.comms])
  | handle hpc h => exact h.comms hpc
  | commReturned hpc => exact Or.inl (map_fst_accept s.comms _ _)
  | _ => exact Or.inl rfl

theorem step_comms (h : s.step services l = some s') : CommsGrow s s' := by
  cases step_rule h with
  | loop hout h => exact h.comms
  | @commPump comm order l output output' es hget hpump =>
      have hfst : (s.comms.map Prod.fst)[comm]? = some order := by simp [hget]
      obtain ⟨hlt, heq⟩ := List.getElem?_eq_some_iff.mp hfst
      refine Or.inl ?_
      rw [List.map_set, ← heq]
      exact List.set_getElem_self hlt
  | callAccept hpc => exact Or.inl (map_fst_accept s.comms _ _)
  | _ => exact Or.inl rfl

theorem taken_subset_of_step (ha : s.Accounts) (h : s.step services l = some s') :
    s.taken ⊆ s'.taken := by
  obtain ⟨new, _, _, _, _, htaken, _⟩ := step_effect ha.1 h
  rw [htaken]
  exact List.subset_append_left _ _

theorem commsApart_step (ha : s.Accounts) (hc : s.CommsApart)
    (h : s.step services l = some s') : s'.CommsApart := by
  have hsub := taken_subset_of_step ha h
  intro entry hentry
  have hfst : entry.1 ∈ s'.comms.map Prod.fst := List.mem_map_of_mem hentry
  have hold : entry.1 ∈ s.comms.map Prod.fst →
      ∃ m ∈ s'.taken, m.order = entry.1 ∧ m.isExecute = false := by
    intro hmem
    obtain ⟨entry', hentry', heq⟩ := List.mem_map.mp hmem
    obtain ⟨m, hm, horder, hex⟩ := hc entry' hentry'
    exact ⟨m, hsub hm, horder.trans heq, hex⟩
  rcases step_comms h with hsame | ⟨m, hpc, hex, hgrow⟩
  · exact hold (hsame ▸ hfst)
  · rw [hgrow] at hfst
    rcases List.mem_append.mp hfst with hmem | hnew
    · exact hold hmem
    · have hm : m ∈ s.taken := mem_taken_of_mem_waiting ha (by simp [waiting, hpc, Pc.item])
      exact ⟨m, hsub hm, (List.mem_singleton.mp hnew).symm, hex⟩

/-! ## The trace of every request -/

/-- The invariant of every run: books, comm messages, and what has been told
about every execute request, past or future. -/
structure Traces (s : Shell) : Prop where
  accounts : s.Accounts
  comms : s.CommsApart
  told : ∀ item : QueueItem, item.isExecute = true →
    (item ∈ s.taken ∨ s.order ≤ item.order) → s.Told item

theorem traces_init : Traces {} where
  accounts := accounts_init
  comms := by intro entry hentry; cases hentry
  told := by
    intro item _ _
    exact .unborn (Nat.zero_le _) rfl rfl

/-- A message of the state after a step was taken before, or is yet to come. -/
theorem born_before (ha : s.Accounts) (h : s.step services l = some s')
    (hborn : item ∈ s'.taken ∨ s'.order ≤ item.order) : item ∈ s.taken ∨ s.order ≤ item.order := by
  obtain ⟨new, _, _, _, _, htaken, horder, hnew, _⟩ := step_effect ha.1 h
  rcases hborn with hmem | hle
  · rw [htaken] at hmem
    rcases List.mem_append.mp hmem with hold | hin
    · exact Or.inl hold
    · have hrange : item.order ∈ List.range' s.order new.length := by
        rw [← hnew]
        exact List.mem_map_of_mem hin
      exact Or.inr (List.mem_range'_1.mp hrange).1
  · exact Or.inr (by omega)

theorem apart_of_born (ha : s.Accounts) (hborn : item ∈ s.taken ∨ s.order ≤ item.order) :
    s.Apart item := by
  intro other hother hne heq
  rcases hborn with hmem | hle
  · obtain ⟨_, settled, dropped, hl⟩ := ha
    exact hne (hl.eq_of_order hother hmem heq)
  · have hlt := order_lt_of_mem_taken ha hother
    omega

theorem traces_step (ht : s.Traces) (h : s.step services l = some s') : s'.Traces := by
  obtain ⟨ha, hc, htold⟩ := ht
  refine ⟨accounts_step ha h, commsApart_step ha hc h, fun item hex hborn => ?_⟩
  have hbefore := born_before ha h hborn
  have hapart := apart_of_born ha hbefore
  exact told_step (htold item hex hbefore) ha hex (step_life ha hc hapart hex h) hborn

theorem traces_of_reachable (h : Reachable services s) : s.Traces :=
  Lib.Reachable.invariant h traces_init (fun _ _ _ ht hstep => traces_step ht hstep)

/-! ## How a shell ends

The scheduler ends `run` with nothing left to send; only a task can be cut
off, and only then. -/

/-- What a step of the scheduler respects. -/
structure EndsQuiet (s s' : Shell) : Prop where
  out : s'.isOpen = true ∨ s'.out = s.out
  aborted : ∀ a', s'.active = some a' → a'.aborted = true →
    ∃ a, s.active = some a ∧ a.aborted = true

theorem EndsQuiet.of_active (hactive : s'.active = s.active)
    (hout : s'.isOpen = true ∨ s'.out = s.out) : EndsQuiet s s' :=
  ⟨hout, fun a' ha' habort => ⟨a', hactive ▸ ha', habort⟩⟩

theorem isOpen_of_resume {resume : Resume} (hpc : s'.pc = resume.pc) : s'.isOpen = true := by
  rw [isOpen, hpc]
  cases resume <;> rfl

theorem ApplyRule.ends {c : ShellControl} {resume : Resume} {rest : List ShellControl}
    (h : ApplyRule { s with controls := rest } resume c s') : EndsQuiet s s' := by
  have hmarked : ∀ a', s.active.map (fun a : ActiveExecution =>
      { a with interrupted := true }) = some a' → a'.aborted = true →
      ∃ a, s.active = some a ∧ a.aborted = true := by
    intro a' ha' habort
    obtain ⟨a, ha, rfl⟩ := Option.map_eq_some_iff.mp ha'
    exact ⟨a, ha, habort⟩
  cases h with
  | release | releaseFailed => exact .of_active rfl (Or.inl rfl)
  | notHeld hheld => exact .of_active rfl (Or.inr rfl)
  | interruptFailed hactive => exact ⟨Or.inr rfl, hmarked⟩
  | interruptHeld | interrupt => exact ⟨Or.inl rfl, hmarked⟩
  | stop => exact .of_active rfl (Or.inr rfl)

theorem failItem_isOpen {m : QueueItem} {error : Error} : (s.failItem m error).isOpen = true := by
  by_cases hkind : error.kind = .closed <;> simp [failItem, isOpen, hkind]

theorem HandleItemRule.ends {m : QueueItem} (h : HandleItemRule services s m s') :
    EndsQuiet s s' := by
  cases h with
  | shell hm h =>
      cases h with
      | kernelInfoFailed htype => exact .of_active rfl (Or.inl failItem_isOpen)
      | _ => exact .of_active rfl (Or.inl rfl)
  | execute hm hinterrupting hhold =>
      refine ⟨Or.inl rfl, fun a' ha' habort => ?_⟩
      cases ha'
      cases habort
  | _ => exact .of_active rfl (Or.inl rfl)

theorem LoopRule.ends (h : LoopRule services s l s') : EndsQuiet s s' := by
  cases h with
  | takeControl hpc hcontrols h => exact h.ends
  | selectControl hpc hcontrols h => exact h.ends
  | reap | selectDone => exact ⟨Or.inr rfl, fun _ ha' => nomatch ha'⟩
  | handle hpc h => exact h.ends
  | @abort o release resume hpc hincoming =>
      refine .of_active rfl (Or.inl ?_)
      cases release with
      | some complete => rfl
      | none => exact isOpen_of_resume rfl
  | selectTimeout hpc hheld => exact .of_active rfl (Or.inl rfl)
  | callFailed hpc => exact .of_active rfl (Or.inl failItem_isOpen)
  | commInfoReturned | callReturned => exact .of_active rfl (Or.inl rfl)
  | _ => exact .of_active rfl (Or.inr rfl)

/-- A shell that has ended has said everything it had to say, and only a shell
that has ended has its task aborted. -/
structure Settled (s : Shell) : Prop where
  out : s.isOpen = false → s.out = []
  aborted : ∀ a, s.active = some a → a.aborted = true → s.isOpen = false

theorem settled_of_ends (hs : s.Settled) (hopen : s.isOpen = true) (hout : s.out = [])
    (h : EndsQuiet s s') : s'.Settled := by
  refine ⟨fun hclosed => ?_, fun a' ha' habort => ?_⟩
  · rcases h.out with hopen' | hsame
    · rw [hclosed] at hopen'
      cases hopen'
    · rw [hsame, hout]
  · obtain ⟨a, ha, habort⟩ := h.aborted a' ha' habort
    rw [hs.aborted a ha habort] at hopen
    cases hopen

theorem settled_step (hs : s.Settled) (h : s.step services l = some s') : s'.Settled := by
  cases step_rule h with
  | loop hout h => exact settled_of_ends hs h.isOpen hout h.ends
  | emit hout =>
      refine ⟨fun hclosed => ?_, hs.aborted⟩
      have hnone := hs.out hclosed
      rw [hout] at hnone
      cases hnone
  | @task l a a' es hactive hrunning hstep =>
      refine ⟨hs.out, fun b hb habort => ?_⟩
      cases hb
      rw [(ActiveExecution.sameTask_of_step hstep).aborted] at habort
      exact hs.aborted a hactive habort
  | dropped hactive hclosed => exact ⟨hs.out, fun _ _ _ => hclosed⟩
  | _ => exact ⟨hs.out, hs.aborted⟩

theorem settled_init : Settled {} where
  out := fun _ => rfl
  aborted := by intro a ha; cases ha

theorem settled_of_reachable (h : Reachable services s) : s.Settled :=
  Lib.Reachable.invariant h settled_init (fun _ _ _ hs hstep => settled_step hs hstep)

/-- The shell has ended, its task is aborted, and no output is under way. -/
structure Silenced (s : Shell) : Prop where
  ended : s.isOpen = false
  out : s.out = []
  comms : s.comms = []
  task : ∃ a, s.active = some a ∧ a.aborted = true ∧
    a.output.channel = [] ∧ a.output.actions = []

/-- Nothing is ever sent again, and nothing taken in. -/
theorem silenced_step (hs : s.Silenced) (h : s.step services l = some s') :
    s'.Silenced ∧ s'.log = s.log ∧ s'.taken = s.taken := by
  obtain ⟨hended, hout, hcomms, a, hactive, haborted, hchannel, hactions⟩ := hs
  have hopen : s.isOpen ≠ true := by simp [hended]
  cases step_rule h with
  | loop _ hloop => exact absurd hloop.isOpen hopen
  | deliver hopen' | control hopen' | firstStop hopen' => exact absurd hopen' hopen
  | emit hcons =>
      rw [hout] at hcons
      cases hcons
  | commPump hget =>
      rw [hcomms] at hget
      cases hget
  | callAccept hpc => exact absurd (by rw [isOpen, hpc]) hopen
  | dropped hsome _ =>
      rw [hactive] at hsome
      cases hsome
      exact ⟨⟨hended, hout, hcomms, _, rfl, rfl, hchannel, hactions⟩, rfl, rfl⟩
  | @task l b b' es hsome hrunning hstep =>
      rw [hactive] at hsome
      cases hsome
      cases l with
      | pump l =>
          have hpump : a.output.step a.execution.silent l = none := by
            cases l with
            | recvMany n =>
                rw [Output.step, if_neg]
                rintro ⟨_, hpos, hle⟩
                rw [hchannel, List.length_nil] at hle
                omega
            | act sent => rw [Output.step, hactions]
          simp [ActiveExecution.step, hpump] at hstep
      | _ => simp [haborted, TaskLabel.isPump] at hrunning

/-! ## Answered requests -/

/-- A reply to the request has been sent. -/
def Answered (s : Shell) (item : QueueItem) : Prop :=
  ∃ e ∈ traceOf item.order s.log, e.isReply = true

/-- Who has still to send `rest` about an answered request: nobody, for there
is nothing left; the scheduler, which is running; the request's task, which
has not been aborted; or nobody, because the shell has ended and with it
the task. -/
inductive Sender (s : Shell) (item : QueueItem) : List Emission → Prop
  | none : Sender s item []
  | scheduler (hopen : s.isOpen = true) : Sender s item (traceOf item.order s.out)
  | task (a : ActiveExecution) (hworks : s.Works item a) (hrunning : a.aborted = false) :
      Sender s item a.out
  | aborted (a : ActiveExecution) (hworks : s.Works item a) (haborted : a.aborted = true)
      (hclosed : s.isOpen = false) : Sender s item a.out

/-- What a client sees of an answered execute request, and is still to see, is
a whole trace. -/
def Traced (s : Shell) (item : QueueItem) : Prop :=
  ∃ events rest, EventsOf (executeRequest item.request.content).silent
      (s.emitted item.order) events ∧
    s.Sender item rest ∧ ExecuteTrace events (traceOf item.order s.log ++ rest)

theorem traced_of_answered (hr : Reachable services s) (hmem : item ∈ s.taken)
    (hex : item.isExecute = true) (hans : s.Answered item) : s.Traced item := by
  have hset := settled_of_reachable hr
  obtain ⟨e, he, hreply⟩ := hans
  have hsaid : e ∈ s.said item.order := List.mem_append_left _ he
  have hopening : Opening (s.said item.order) → False := by
    intro ho
    rw [isReply_of_opening ho e hsaid] at hreply
    cases hreply
  cases (traces_of_reachable hr).told item hex (Or.inl hmem) with
  | unborn _ hnone =>
      rw [hnone] at hsaid
      cases hsaid
  | waiting _ hnone =>
      rw [hnone] at hsaid
      cases hsaid
  | opened _ ho | lost _ ho => exact (hopening ho).elim
  | working a hworks hexecution hout htold =>
      obtain ⟨events, hevents, htrace⟩ := htold.executeTrace ⟨e, he, hreply⟩
      refine ⟨events, a.out, hexecution ▸ hevents, ?_, htrace⟩
      cases habort : a.aborted with
      | true => exact .aborted a hworks habort (hset.aborted a hworks.1 habort)
      | false => exact .task a hworks habort
  | closed events hgone hevents htrace =>
      cases hopen : s.isOpen with
      | true => exact ⟨events, _, hevents, .scheduler hopen, htrace⟩
      | false =>
          refine ⟨events, [], hevents, .none, ?_⟩
          rw [said, hset.out hopen] at htrace
          exact htrace

end Shell

end Kernmini.Engine
