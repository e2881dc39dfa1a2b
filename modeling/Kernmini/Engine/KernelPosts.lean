/-
Kernmini.Engine.KernelPosts — what the loop has put to its shells, and in
which state a shell took it.

A message and a control go to a shell through two channels, and a control
request (an `interrupt_request`, a `release_request`) reaches a shell long
after the loop has taken it. To speak of "the requests received before an
interrupt_request, once their shell has applied the interrupt", an observer
(`watchPosts`) notes

  * what had been received when the loop took a control request,
  * for each message put to a shell, the number it has there,
  * for each control put for a control request, its number in the channel,
    and what had been received and put by then,
  * for each control a shell takes, the states before and after.

The notes are true. `LoopNotes`: by the time a control is put, everything
that was received before the request has been put to a shell or answered by
the loop. `ShellNotes`: a numbered message has been taken under its number
or is at its place in the channel, and so is a numbered control.
-/
import Kernmini.Lib.Observe
import Kernmini.Engine.KernelTraces
import Kernmini.Engine.InterruptFence

namespace Kernmini.Engine

open Kernmini.Wire Kernmini.Lib

/-! ## The observer -/

/-- A message put to a shell, as its `number`-th. -/
structure Post where
  arrival : Arrival .shell
  task : TaskId
  number : Nat

/-- The item the shell makes of it. -/
def Post.item (q : Post) : QueueItem := itemOf q.number q.arrival.inbound

/-- A control put to a shell for a control request, as its `number`-th. -/
structure Put where
  task : TaskId
  number : Nat
  control : ShellControl
  /-- what had been received when the loop took the request -/
  before : List (Arrival .shell)
  /-- what had been put to shells when the control was put -/
  posted : List Post

/-- A shell before and after it took a control, for each it has taken. -/
abbrev Takings := List (Shell × Shell)

structure PostNotes where
  /-- what had been received when the loop last took a control request -/
  before : List (Arrival .shell) := []
  posted : List Post := []
  puts : List Put := []
  takes : TaskId → Takings := fun _ => []

namespace PostNotes

def post (n : PostNotes) (k : TaskId) (a : Arrival .shell) (x : Shell) : PostNotes :=
  { n with posted := n.posted ++ [⟨a, k, x.order + x.incoming.length⟩] }

def put (n : PostNotes) (k : TaskId) (c : ShellControl) (x : Shell) : PostNotes :=
  { n with puts := n.puts ++
      [⟨k, (n.takes k).length + x.controls.length, c, n.before, n.posted⟩] }

def take (n : PostNotes) (k : TaskId) (x x' : Shell) : PostNotes :=
  { n with takes := fun j => if j = k then n.takes j ++ [(x, x')] else n.takes j }

end PostNotes

/-- The loop puts controls to the shells for a control request. -/
def MainPc.asking : MainPc → Bool
  | .interruptShells _ _ (some _) => true
  | .release _ _ _ => true
  | .awaitRelease _ _ _ _ _ => true
  | _ => false

@[simp] theorem After.asking_pc (after : After) : after.pc.asking = false := by
  cases after <;> rfl

theorem MainPc.hand_of_asking {pc : MainPc} (h : pc.asking = true) : pc.hand = none := by
  cases pc with
  | interruptShells | release | awaitRelease => rfl
  | _ => cases h

namespace Kernel

variable {services : Services} {s s' : Kernel} {l : Label} {n n' : PostNotes} {k : TaskId}

/-- The note of a put to shell `k`, if it is live. -/
def noteIfLive (s : Kernel) (k : TaskId) (note : Shell → PostNotes) (n : PostNotes) :
    PostNotes :=
  match s.tasks[k]? with
  | some x => if x.isOpen then note x else n
  | none => n

/-- The note of one step. -/
def watchPosts (s : Kernel) (l : Label) (s' : Kernel) (n : PostNotes) : PostNotes :=
  match l with
  | .shell k l' =>
      match s.tasks[k]?, s'.tasks[k]? with
      | some x, some x' => if x.takes l' then n.take k x x' else n
      | _, _ => n
  | .select (.control _) => { n with before := s.received }
  | .next _ =>
      match s.pc with
      | .send k a _ => s.noteIfLive k (n.post k a) n
      | .interruptShells _ (k :: _) (some _) => s.noteIfLive k (n.put k .interrupt) n
      | .release (k :: _) _ a =>
          s.noteIfLive k (n.put k (releaseControl a.request s.releases)) n
      | _ => n
  | _ => n

/-- The kernel under observation. -/
abbrev Watched := Observed Kernel PostNotes

def watchedStep (services : Services) : Watched → Label → Option Watched :=
  observe (Kernel.step services) watchPosts

/-! ## One step of the loop -/

/-- What a step does to the notes, but for the controls taken. -/
inductive NoteTurn (s s' : Kernel) (n n' : PostNotes) : Prop
  | post (k : TaskId) (a : Arrival .shell) (x x' : Shell) (hasking : s.pc.asking = false)
      (hget : s.tasks[k]? = some x) (hput : x.deliver a.inbound = some x')
      (htasks : s'.tasks = s.tasks.set k x') (hdelivered : s'.delivered = s.delivered ++ [a])
      (hn : n' = n.post k a x)
  | put (k : TaskId) (c : ShellControl) (x x' : Shell) (hasking : s.pc.asking = true)
      (hout : s.out = []) (hget : s.tasks[k]? = some x) (hput : x.control c = some x')
      (htasks : s'.tasks = s.tasks.set k x') (hdelivered : s'.delivered = s.delivered)
      (hn : n' = n.put k c x)
  | ask (hasking : s.pc.asking = false) (hasking' : s'.pc.asking = false)
      (hdelivered : s'.delivered = s.delivered) (hn : n' = { n with before := s.received })
  | quiet (takes : TaskId → Takings) (hdelivered : s'.delivered = s.delivered)
      (hn : n' = { n with takes })

theorem routeTo_asking (id : String) (a : Arrival .shell) (after : After) :
    (s.routeTo id a after).pc.asking = false := by
  unfold routeTo
  split
  · rfl
  · exact after.asking_pc

theorem created_asking (id : String) (purpose : Creation) (result : Except Error Unit) :
    (s.created id purpose result).pc.asking = false := by
  unfold created
  split
  · exact routeTo_asking id _ _
  · exact After.asking_pc _
  all_goals rfl

theorem CreateRule.asking {id : String} {purpose : Creation} (h : CreateRule s id purpose s') :
    s'.pc.asking = false := by
  cases h with
  | refused | found => exact created_asking id purpose _
  | creating hid hnew => rfl

theorem RouteRule.asking {a : Arrival .shell} {after : After} (h : RouteRule s a after s') :
    s'.pc.asking = false := by
  cases h with
  | known => exact routeTo_asking _ a after
  | create hnew h => exact h.asking

theorem CommandRule.asking {c : SessionCommand} (h : CommandRule s c s') (hpc : s.pc = .select) :
    s'.pc.asking = false := by
  cases h with
  | openSubshell h => exact h.asking
  | _ => exact congrArg MainPc.asking hpc

theorem ControlRule.asking {a : Arrival .control} (h : ControlRule s a s')
    (hpc : s.pc = .select) : s'.pc.asking = false := by
  cases h with
  | create htype h => exact h.asking
  | _ =>
      first
        | rfl
        | exact congrArg MainPc.asking hpc

theorem noteIfLive_of_put {note : Shell → PostNotes} {x : Shell} (hget : s.tasks[k]? = some x)
    (hopen : x.isOpen = true) : s.noteIfLive k note n = note x := by
  simp [noteIfLive, hget, hopen]

theorem noteIfLive_of_closed {note : Shell → PostNotes} {put : Shell → Option Shell}
    (h : s.sendTo k put = .closed) : s.noteIfLive k note n = n := by
  unfold sendTo at h
  split at h
  · next t hget =>
      split at h
      · split at h <;> cases h
      · next hclosed => simp [noteIfLive, hget, hclosed]
  · next hget => simp [noteIfLive, hget]

theorem isOpen_of_deliver {x x' : Shell} {inbound : Inbound} (h : x.deliver inbound = some x') :
    x.isOpen = true := by
  unfold Shell.deliver at h
  split at h
  · next hroom => exact hroom.1
  · cases h

theorem isOpen_of_control {x x' : Shell} {c : ShellControl} (h : x.control c = some x') :
    x.isOpen = true := by
  unfold Shell.control at h
  split at h
  · next hroom => exact hroom.1
  · cases h

theorem out_of_next {order : List TaskId} (h : s.step services (.next order) = some s') :
    s.out = [] := by
  simp only [step] at h
  split at h
  · next hout => exact List.isEmpty_iff.mp hout
  · cases h

/-- A step the observer takes no note of. -/
theorem NoteTurn.same (hdelivered : s'.delivered = s.delivered) (hn : n' = n) :
    NoteTurn s s' n n' := .quiet n.takes hdelivered hn

theorem step_notes (h : s.step services l = some s') :
    NoteTurn s s' n (watchPosts s l s' n) := by
  cases step_rule h with
  | @shell k x x' l' hown hget hstep =>
      simp only [watchPosts]
      split
      · split
        · exact .quiet _ rfl rfl
        · exact .same rfl rfl
      · exact .same rfl rfl
  | @deliver order k a after x x' hpc hget hput =>
      refine .post k a x x' (by rw [hpc]; rfl) hget hput rfl rfl ?_
      simp only [watchPosts, hpc]
      exact noteIfLive_of_put hget (isOpen_of_deliver hput)
  | undelivered hpc hclosed =>
      refine .same rfl ?_
      simp only [watchPosts, hpc]
      exact noteIfLive_of_closed hclosed
  | @interrupt order mark k todo request x x' hpc hget hput =>
      cases request with
      | none => exact .same rfl (by simp only [watchPosts, hpc])
      | some a =>
          refine .put k _ x x' (by rw [hpc]; rfl) (out_of_next h) hget hput rfl rfl ?_
          simp only [watchPosts, hpc]
          exact noteIfLive_of_put hget (isOpen_of_control hput)
  | @interruptClosed order mark k todo request hpc hclosed =>
      refine .same rfl ?_
      cases request with
      | none => simp only [watchPosts, hpc]
      | some a =>
          simp only [watchPosts, hpc]
          exact noteIfLive_of_closed hclosed
  | @release order k todo found a x x' hpc hget hput =>
      refine .put k _ x x' (by rw [hpc]; rfl) (out_of_next h) hget hput rfl rfl ?_
      simp only [watchPosts, hpc]
      exact noteIfLive_of_put hget (isOpen_of_control hput)
  | releaseClosed hpc hclosed =>
      refine .same rfl ?_
      simp only [watchPosts, hpc]
      exact noteIfLive_of_closed hclosed
  | takeControl hpc hcontrol h =>
      exact .ask (by rw [hpc]; rfl) (h.asking hpc) h.frame.delivered rfl
  | takeCommand hpc hcommands h => exact .same h.frame.delivered rfl
  | route hpc h => exact .same h.frame.delivered (by simp only [watchPosts, hpc])
  | childCreated | childFailed => exact .same (created_frame _ _ _).delivered rfl
  | takePending hpc | startInterrupt hpc | interruptFailed hpc | interruptReply hpc
  | interruptDone hpc | startRelease hpc | released hpc | unreleased hpc | releaseReply hpc
  | drain hpc | stopPut hpc | stopClosed hpc | stopped hpc | returned hpc =>
      exact .same rfl (by simp only [watchPosts, hpc])
  | _ => exact .same rfl rfl

/-- The loop starts to ask when the shell channel is empty. -/
theorem asking_step (h : s.step services l = some s') (hasking : s'.pc.asking = true) :
    s.pc.asking = true ∨ s'.shell = [] := by
  cases step_rule h with
  | startInterrupt hpc hshell | startRelease hpc hshell => exact Or.inr hshell
  | @interrupt order mark k todo request x x' hpc =>
      left
      rw [hpc]
      cases request with
      | none => cases hasking
      | some a => rfl
  | release hpc =>
      left
      rw [hpc]
      rfl
  | released hpc =>
      left
      rw [hpc]
      rfl
  | route hpc h =>
      rw [h.asking] at hasking
      cases hasking
  | deliver hpc =>
      rw [After.asking_pc] at hasking
      cases hasking
  | undelivered hpc =>
      rw [After.asking_pc] at hasking
      cases hasking
  | takeCommand hpc hcommands h =>
      rw [h.asking hpc] at hasking
      cases hasking
  | takeControl hpc hcontrol h =>
      rw [h.asking hpc] at hasking
      cases hasking
  | childCreated hpc =>
      rw [created_asking] at hasking
      cases hasking
  | childFailed hpc =>
      rw [created_asking] at hasking
      cases hasking
  | shell | receive | receiveControl | command | notify | emit | reaped | jobPut | jobClosed
  | jobFailed | jobCompleted | jobReplied => exact Or.inl hasking
  | _ => cases hasking

/-- A message that has left the shell channel does not come back. -/
theorem not_mem_shell_step {a : Arrival .shell} {answered : List (Arrival .shell)}
    (hb : Books s answered) (h : s.step services l = some s') (hmem : a ∈ s.received)
    (hshell : a ∉ s.shell) : a ∉ s'.shell := by
  cases step_hand h with
  | keep h => rwa [h.shell]
  | receive b hnumber harrivals hshell' =>
      rw [hshell', List.mem_append, not_or]
      refine ⟨hshell, fun heq => ?_⟩
      rw [List.mem_singleton.mp heq] at hmem
      have := hb.bound b hmem
      omega
  | take b hshell' =>
      intro hin
      rw [hshell'] at hshell
      exact hshell (List.mem_cons_of_mem b hin)
  | deliver b hshell' => rwa [hshell']
  | answer b ename evalue hshell' => rwa [hshell']

theorem received_step {a : Arrival .shell} (h : s.step services l = some s')
    (hmem : a ∈ s.received) : a ∈ s'.received := by
  cases step_hand h with
  | keep h => rwa [h.received]
  | receive b hnumber harrivals hshell hreceived =>
      rw [hreceived]
      exact List.mem_append_left _ hmem
  | take b hshell hreceived | deliver b hshell hreceived | answer b ename evalue hshell hreceived =>
      rwa [hreceived]

/-- The loop only ever sends more. -/
theorem log_step (h : s.step services l = some s') : ∃ es, s'.log = s.log ++ es := by
  cases step_rule h with
  | emit | jobReplied => exact ⟨_, rfl⟩
  | route hpc h | takeCommand hpc hcommands h | takeControl hpc hcontrol h =>
      exact ⟨[], by rw [h.frame.log, List.append_nil]⟩
  | childCreated hpc => exact ⟨[], by rw [(created_frame _ _ _).log, List.append_nil]; rfl⟩
  | childFailed hpc => exact ⟨[], by rw [(created_frame _ _ _).log, List.append_nil]⟩
  | _ => exact ⟨[], (List.append_nil _).symm⟩

/-! ## The notes of the loop -/

/-- The loop has answered the message itself. -/
def Refused (s : Kernel) (a : Arrival .shell) : Prop :=
  ∃ e ∈ traceOf a.source s.log, e.isReply = true

theorem refused_step {a : Arrival .shell} (hr : s.Refused a) (h : s.step services l = some s') :
    s'.Refused a := by
  obtain ⟨e, he, hreply⟩ := hr
  obtain ⟨es, hlog⟩ := log_step h
  refine ⟨e, ?_, hreply⟩
  rw [hlog, traceOf_append]
  exact List.mem_append_left _ he

/-- What holds of the notes and the loop. -/
structure LoopNotes (s : Kernel) (n : PostNotes) : Prop where
  delivered : s.delivered = n.posted.map Post.arrival
  before : ∀ a ∈ n.before, a ∈ s.received
  /-- the shell channel has been emptied before the loop asks the shells -/
  routed : s.pc.asking = true → ∀ a ∈ n.before, a ∉ s.shell
  posted : ∀ p ∈ n.puts, ∀ q ∈ p.posted, q ∈ n.posted
  /-- by then every request is at a shell, or answered -/
  fenced : ∀ p ∈ n.puts, ∀ a ∈ p.before, a.request.isRequest = true →
    (∃ q ∈ p.posted, q.arrival = a) ∨ s.Refused a

theorem loopNotes_init : LoopNotes {} {} where
  delivered := rfl
  before := by intro a ha; cases ha
  routed := by intro h; cases h
  posted := by intro p hp; cases hp
  fenced := by intro p hp; cases hp

/-- Where a message is that the loop has taken from the shell channel, when it
asks the shells. -/
theorem place_of_asking {answered : List (Arrival .shell)} (hb : Books s answered)
    (hasking : s.pc.asking = true) (hout : s.out = []) {a : Arrival .shell}
    (hmem : a ∈ s.received) (hshell : a ∉ s.shell) (hreq : a.request.isRequest = true) :
    a ∈ s.delivered ∨ s.Refused a := by
  have hplace := hb.places.mem_iff.mp hmem
  rw [MainPc.hand_of_asking hasking] at hplace
  simp only [Option.toList_none, List.nil_append, List.mem_append] at hplace
  rcases hplace with hin | hdelivered | hanswered
  · exact absurd hin hshell
  · exact Or.inl hdelivered
  · right
    obtain ⟨ename, evalue, hsaid⟩ := hb.answers a hanswered
    have hlog : traceOf a.source s.log = replySubshellError a.request ename evalue := by
      rw [← hsaid, said, hout]
      exact (List.append_nil _).symm
    rw [Refused, hlog]
    have hcount : 0 < replyCount (replySubshellError a.request ename evalue) := by
      rw [replySubshellError, if_pos hreq, replyCount_replyError]
      exact Nat.one_pos
    exact List.countP_pos_iff.mp hcount

theorem loopNotes_step {answered : List (Arrival .shell)} (hb : Books s answered)
    (hn : LoopNotes s n) (h : s.step services l = some s') :
    LoopNotes s' (watchPosts s l s' n) := by
  have hrefused : ∀ p ∈ n.puts, ∀ a ∈ p.before, a.request.isRequest = true →
      (∃ q ∈ p.posted, q.arrival = a) ∨ s'.Refused a := by
    intro p hp a ha hreq
    rcases hn.fenced p hp a ha hreq with hposted | hr
    · exact Or.inl hposted
    · exact Or.inr (refused_step hr h)
  have hbefore : ∀ a ∈ n.before, a ∈ s'.received := fun a ha => received_step h (hn.before a ha)
  have hrouted : s'.pc.asking = true → ∀ a ∈ n.before, a ∉ s'.shell := by
    intro hasking' a ha
    rcases asking_step h hasking' with hasking | hempty
    · exact not_mem_shell_step hb h (hn.before a ha) (hn.routed hasking a ha)
    · rw [hempty]
      exact List.not_mem_nil
  cases @step_notes _ _ _ _ n h with
  | post k a x x' hasking hget hput htasks hdelivered heq =>
      rw [heq]
      refine ⟨?_, hbefore, hrouted, ?_, hrefused⟩
      · rw [hdelivered, hn.delivered]
        simp [PostNotes.post]
      · intro p hp q hq
        exact List.mem_append_left _ (hn.posted p hp q hq)
  | put k c x x' hasking hout hget hput htasks hdelivered heq =>
      rw [heq]
      refine ⟨hdelivered.trans hn.delivered, hbefore, hrouted, ?_, ?_⟩
      · intro p hp q hq
        rcases List.mem_append.mp hp with hold | hnew
        · exact hn.posted p hold q hq
        · rw [List.mem_singleton.mp hnew] at hq
          exact hq
      · intro p hp a ha hreq
        rcases List.mem_append.mp hp with hold | hnew
        · exact hrefused p hold a ha hreq
        · rw [List.mem_singleton.mp hnew] at ha ⊢
          rcases place_of_asking hb hasking hout (hn.before a ha) (hn.routed hasking a ha) hreq with
            hin | hr
          · rw [hn.delivered] at hin
            exact Or.inl (List.mem_map.mp hin)
          · exact Or.inr (refused_step hr h)
  | ask hasking hasking' hdelivered heq =>
      rw [heq]
      refine ⟨hdelivered.trans hn.delivered, fun a ha => received_step h ha, ?_, hn.posted,
        hrefused⟩
      intro hasking
      rw [hasking'] at hasking
      cases hasking
  | quiet takes hdelivered heq =>
      rw [heq]
      exact ⟨hdelivered.trans hn.delivered, hbefore, hrouted, hn.posted, hrefused⟩

/-! ## The notes of a shell -/

/-- What a step does to shell `k`, and to the notes of the controls it took. -/
inductive TakingTurn (services : Services) (l : Label) (k : TaskId) (x : Shell) (ts : Takings)
    (x' : Shell) (ts' : Takings) : Prop
  | same (hx : x' = x) (hts : ts' = ts)
  | other (l' : Shell.Label) (hl : l = .shell k l' ∨ IsPut l')
      (hstep : x.step services l' = some x') (htakes : x.takes l' = false) (hts : ts' = ts)
  | take (l' : Shell.Label) (hl : l = .shell k l') (hstep : x.step services l' = some x')
      (htakes : x.takes l' = true) (hts : ts' = ts ++ [(x, x')])

theorem noteIfLive_takes {note : Shell → PostNotes} (hnote : ∀ x, (note x).takes = n.takes) :
    (s.noteIfLive k note n).takes = n.takes := by
  unfold noteIfLive
  split
  · split
    · exact hnote _
    · rfl
  · rfl

/-- Only a step of a shell takes a control. -/
theorem watchPosts_takes (hl : ∀ k l', l ≠ .shell k l') :
    (watchPosts s l s' n).takes = n.takes := by
  cases l with
  | shell k l' => exact absurd rfl (hl k l')
  | next order =>
      simp only [watchPosts]
      split
      · exact noteIfLive_takes (fun _ => rfl)
      · exact noteIfLive_takes (fun _ => rfl)
      · exact noteIfLive_takes (fun _ => rfl)
      · rfl
  | select b => cases b <;> rfl
  | _ => rfl

theorem takes_of_isPut {x : Shell} {l' : Shell.Label} (h : IsPut l') : x.takes l' = false := by
  cases l' with
  | deliver inbound => rfl
  | control c => rfl
  | _ => cases h

theorem taking_turn {x : Shell} (h : s.step services l = some s') (hget : s.tasks[k]? = some x) :
    ∃ x', s'.tasks[k]? = some x' ∧
      TakingTurn services l k x (n.takes k) x' ((watchPosts s l s' n).takes k) := by
  have hold : ∀ {y : Shell}, s.tasks[k]? = some y → y = x := by
    intro y hy
    exact Option.some.inj (hy.symm.trans hget)
  by_cases hl : ∃ j l', l = .shell j l'
  · obtain ⟨j, l', rfl⟩ := hl
    cases step_rule h with
    | @shell _ y y' _ hown hy hstep =>
        have hlt : j < s.tasks.length := (List.getElem?_eq_some_iff.mp hy).1
        have hset : (s.tasks.set j y')[j]? = some y' := List.getElem?_set_self hlt
        by_cases hjk : k = j
        · subst hjk
          obtain rfl := hold hy
          refine ⟨y', hset, ?_⟩
          simp only [watchPosts, hy, hset]
          split
          · next htakes => exact .take l' rfl hstep htakes (by simp [PostNotes.take])
          · next htakes => exact .other l' (Or.inl rfl) hstep (Bool.eq_false_iff.mpr htakes) rfl
        · refine ⟨x, ?_, .same rfl ?_⟩
          · rw [List.getElem?_set_ne (Ne.symm hjk)]
            exact hget
          · simp only [watchPosts, hy, hset]
            split
            · exact if_neg hjk
            · rfl
  · have hne : ∀ j l', l ≠ .shell j l' := fun j l' heq => hl ⟨j, l', heq⟩
    rw [watchPosts_takes hne]
    obtain ⟨x', hx'⟩ := task_stays h hget
    refine ⟨x', hx', ?_⟩
    cases task_turn h hx' with
    | same hget' => exact .same (hold hget') rfl
    | own y l' heq => exact absurd heq (hne k l')
    | put y l' hput hy hstep =>
        obtain rfl := hold hy
        exact .other l' (Or.inr hput) hstep (takes_of_isPut hput) rfl
    | spawn id purpose hl hpc hnone =>
        rw [hget] at hnone
        cases hnone

/-- What the turns of a task keep, the steps of the kernel keep for it. -/
theorem taking_keeps {P : Shell → Takings → Prop}
    (hturn : ∀ x ts x' ts', P x ts → TakingTurn services l k x ts x' ts' → P x' ts')
    (hs : ∃ x, s.tasks[k]? = some x ∧ P x (n.takes k)) (h : s.step services l = some s') :
    ∃ x', s'.tasks[k]? = some x' ∧ P x' ((watchPosts s l s' n).takes k) := by
  obtain ⟨x, hx, hP⟩ := hs
  obtain ⟨x', hx', hturn'⟩ := @taking_turn _ _ _ _ n _ _ h hx
  exact ⟨x', hx', hturn _ _ _ _ hP hturn'⟩

/-! ### Messages and controls keep their numbers -/

/-- The control is the `i`-th put to the shell: it was taken as that, or it is
at its place in the channel. -/
structure Numbered (i : Nat) (c : ShellControl) (x : Shell) (ts : Takings) : Prop where
  taken : ∀ y, ts[i]? = some y → y.1.controls.head? = some c
  waits : ts.length ≤ i → x.controls[i - ts.length]? = some c

/-- The message is the `m`-th put to the shell, and had been put when the
shell took its `i`-th control. -/
structure MailBy (i m : Nat) (inbound : Inbound) (x : Shell) (ts : Takings) : Prop where
  mail : x.HasMail m inbound
  taken : ∀ y, ts[i]? = some y → y.1.HasMail m inbound

theorem getElem?_concat_cases {ts : Takings} {y z : Shell × Shell} {i : Nat}
    (h : (ts ++ [y])[i]? = some z) : ts[i]? = some z ∨ (i = ts.length ∧ z = y) := by
  rw [List.getElem?_append] at h
  split at h
  · exact Or.inl h
  · next hge =>
      have hlt := (List.getElem?_eq_some_iff.mp h).1
      rw [List.length_singleton] at hlt
      have hi : i = ts.length := by omega
      subst hi
      rw [Nat.sub_self] at h
      exact Or.inr ⟨rfl, (Option.some.inj h).symm⟩

theorem Numbered.turn {i : Nat} {c : ShellControl} {x x' : Shell} {ts ts' : Takings}
    (hn : Numbered i c x ts) (h : TakingTurn services l k x ts x' ts') : Numbered i c x' ts' := by
  cases h with
  | same hx hts => rwa [hx, hts]
  | other l' hl hstep htakes hts =>
      rw [hts]
      refine ⟨hn.taken, fun hle => ?_⟩
      have hget := hn.waits hle
      rcases Shell.controls_of_step hstep htakes with heq | ⟨c', _, heq⟩
      · rwa [heq]
      · rw [heq, List.getElem?_append_left (List.getElem?_eq_some_iff.mp hget).1]
        exact hget
  | take l' hl hstep htakes hts =>
      obtain ⟨c', rest, htake⟩ := Shell.takes_rule hstep htakes
      rw [hts]
      constructor
      · intro y hy
        rcases getElem?_concat_cases hy with hold | ⟨rfl, rfl⟩
        · exact hn.taken y hold
        · have hget := hn.waits le_rfl
          rw [Nat.sub_self] at hget
          rw [List.head?_eq_getElem?]
          exact hget
      · intro hle
        rw [List.length_append, List.length_singleton] at hle ⊢
        have hget := hn.waits (by omega)
        have hsub : i - ts.length = i - (ts.length + 1) + 1 := by omega
        rw [htake.controls, hsub, List.getElem?_cons_succ] at hget
        rw [htake.controls_rest]
        exact hget

theorem MailBy.turn {i m : Nat} {inbound : Inbound} {x x' : Shell} {ts ts' : Takings}
    (hm : MailBy i m inbound x ts) (h : TakingTurn services l k x ts x' ts') :
    MailBy i m inbound x' ts' := by
  cases h with
  | same hx hts => rwa [hx, hts]
  | other l' hl hstep htakes hts =>
      rw [hts]
      exact ⟨hm.mail.step hstep, hm.taken⟩
  | take l' hl hstep htakes hts =>
      rw [hts]
      refine ⟨hm.mail.step hstep, fun y hy => ?_⟩
      rcases getElem?_concat_cases hy with hold | ⟨_, rfl⟩
      · exact hm.taken y hold
      · exact hm.mail

/-- The shell took a control in `x`, in the state of a run. -/
structure Taken (services : Services) (x x' : Shell) : Prop where
  reachable : Shell.Reachable services x
  take : ∃ l c rest, x.step services l = some x' ∧ x.Takes c rest x'

/-- The notes of a shell are from its past. -/
structure Past (services : Services) (x : Shell) (ts : Takings) : Prop where
  reachable : Shell.Reachable services x
  taken : ∀ y ∈ ts, Taken services y.1 y.2 ∧ Lib.Reachable (Shell.step services) y.2 x

theorem past_init : Past services {} [] :=
  ⟨Lib.Reachable.refl _, by intro y hy; cases hy⟩

theorem Past.turn {x x' : Shell} {ts ts' : Takings} (hp : Past services x ts)
    (h : TakingTurn services l k x ts x' ts') : Past services x' ts' := by
  have hlater : ∀ {l' : Shell.Label}, x.step services l' = some x' → ∀ y ∈ ts,
      Taken services y.1 y.2 ∧ Lib.Reachable (Shell.step services) y.2 x' := by
    intro l' hstep y hy
    obtain ⟨htaken, hreach⟩ := hp.taken y hy
    exact ⟨htaken, hreach.trans (Lib.Reachable.single hstep)⟩
  cases h with
  | same hx hts => rwa [hx, hts]
  | other l' hl hstep htakes hts =>
      rw [hts]
      exact ⟨hp.reachable.trans (Lib.Reachable.single hstep), hlater hstep⟩
  | take l' hl hstep htakes hts =>
      obtain ⟨c, rest, htake⟩ := Shell.takes_rule hstep htakes
      rw [hts]
      refine ⟨hp.reachable.trans (Lib.Reachable.single hstep), fun y hy => ?_⟩
      rcases List.mem_append.mp hy with hold | hnew
      · exact hlater hstep y hold
      · rw [List.mem_singleton.mp hnew]
        exact ⟨⟨hp.reachable, l', c, rest, hstep, htake⟩, Lib.Reachable.refl _⟩

/-! ## The notes of the shells -/

/-- What holds of the notes and the shells. -/
structure ShellNotes (services : Services) (s : Kernel) (n : PostNotes) : Prop where
  past : ∀ k x, s.tasks[k]? = some x → Past services x (n.takes k)
  unborn : ∀ k, s.tasks[k]? = none → n.takes k = []
  mail : ∀ q ∈ n.posted, ∃ x, s.tasks[q.task]? = some x ∧ x.HasMail q.number q.arrival.inbound
  numbered : ∀ p ∈ n.puts, ∃ x, s.tasks[p.task]? = some x ∧
    Numbered p.number p.control x (n.takes p.task)
  mailBy : ∀ p ∈ n.puts, ∀ q ∈ p.posted, q.task = p.task → ∃ x, s.tasks[p.task]? = some x ∧
    MailBy p.number q.number q.arrival.inbound x (n.takes p.task)

theorem shellNotes_init : ShellNotes services {} {} where
  past := by
    intro k x hx
    have hmem := List.mem_singleton.mp (List.mem_of_getElem? hx)
    rw [hmem]
    exact past_init
  unborn := fun _ _ => rfl
  mail := by intro q hq; cases hq
  numbered := by intro p hp; cases hp
  mailBy := by intro p hp; cases hp

/-- What holds of a fresh shell, and is kept by the turns of a task, holds of
every task. -/
theorem takings_step {P : Shell → Takings → Prop} (hinit : P {} [])
    (hturn : ∀ x x' ts', s.tasks[k]? = some x → P x (n.takes k) →
      TakingTurn services l k x (n.takes k) x' ts' → P x' ts')
    (hunborn : s.tasks[k]? = none → n.takes k = [])
    (hs : ∀ x, s.tasks[k]? = some x → P x (n.takes k)) (h : s.step services l = some s')
    {x' : Shell} (hget : s'.tasks[k]? = some x') : P x' ((watchPosts s l s' n).takes k) := by
  cases hx : s.tasks[k]? with
  | some x =>
      obtain ⟨y, hy, hturn'⟩ := @taking_turn _ _ _ _ n _ _ h hx
      rw [hget] at hy
      cases hy
      exact hturn x x' _ hx (hs x hx) hturn'
  | none =>
      cases task_turn h hget with
      | same hold =>
          rw [hx] at hold
          cases hold
      | own y l' hl hold =>
          rw [hx] at hold
          cases hold
      | put y l' hput hold =>
          rw [hx] at hold
          cases hold
      | spawn id purpose hl hpc hnone hnew =>
          rw [hnew, watchPosts_takes (by rw [hl]; exact nofun), hunborn hx]
          exact hinit

theorem unborn_step (hn : ShellNotes services s n) (h : s.step services l = some s')
    (hnone : s'.tasks[k]? = none) : (watchPosts s l s' n).takes k = [] := by
  have hnone' : s.tasks[k]? = none := by
    by_contra hne
    obtain ⟨x, hx⟩ := Option.ne_none_iff_exists'.mp hne
    obtain ⟨x', hx'⟩ := task_stays h hx
    rw [hnone] at hx'
    cases hx'
  by_cases hl : ∃ j l', l = .shell j l'
  · obtain ⟨j, l', rfl⟩ := hl
    cases step_rule h with
    | @shell _ y y' _ hown hy hstep =>
        have hne : k ≠ j := by
          rintro rfl
          rw [hnone'] at hy
          cases hy
        have hset : (s.tasks.set j y')[j]? = some y' :=
          List.getElem?_set_self (List.getElem?_eq_some_iff.mp hy).1
        simp only [watchPosts, hy, hset]
        split
        · exact (if_neg hne).trans (hn.unborn k hnone')
        · exact hn.unborn k hnone'
  · rw [watchPosts_takes (fun j l' heq => hl ⟨j, l', heq⟩)]
    exact hn.unborn k hnone'

theorem posted_of_step {q : Post} (h : s.step services l = some s')
    (hq : q ∈ (watchPosts s l s' n).posted) :
    q ∈ n.posted ∨ ∃ x', s'.tasks[q.task]? = some x' ∧ x'.HasMail q.number q.arrival.inbound := by
  cases @step_notes _ _ _ _ n h with
  | post k a x x' hasking hget hput htasks hdelivered heq =>
      rw [heq] at hq
      rcases List.mem_append.mp hq with hold | hnew
      · exact Or.inl hold
      · rw [List.mem_singleton.mp hnew, htasks]
        have hlt : k < s.tasks.length := (List.getElem?_eq_some_iff.mp hget).1
        exact Or.inr ⟨x', List.getElem?_set_self hlt, Shell.hasMail_of_deliver hput⟩
  | put k c x x' hasking hout hget hput htasks hdelivered heq =>
      rw [heq] at hq
      exact Or.inl hq
  | ask hasking hasking' hdelivered heq =>
      rw [heq] at hq
      exact Or.inl hq
  | quiet takes hdelivered heq =>
      rw [heq] at hq
      exact Or.inl hq

/-- A control that has just been put is the last in the channel, and every
message put so far comes before it. -/
structure FreshPut (s s' : Kernel) (n n' : PostNotes) (p : Put) : Prop where
  posted : p.posted = n.posted
  takes : n'.takes = n.takes
  put : ∃ x x', s.tasks[p.task]? = some x ∧ x.control p.control = some x' ∧
    s'.tasks[p.task]? = some x' ∧ p.number = (n.takes p.task).length + x.controls.length

theorem puts_of_step {p : Put} (h : s.step services l = some s')
    (hp : p ∈ (watchPosts s l s' n).puts) :
    p ∈ n.puts ∨ FreshPut s s' n (watchPosts s l s' n) p := by
  cases @step_notes _ _ _ _ n h with
  | post k a x x' hasking hget hput htasks hdelivered heq =>
      rw [heq] at hp
      exact Or.inl hp
  | put k c x x' hasking hout hget hput htasks hdelivered heq =>
      rw [heq] at hp ⊢
      rcases List.mem_append.mp hp with hold | hnew
      · exact Or.inl hold
      · have hlt : k < s.tasks.length := (List.getElem?_eq_some_iff.mp hget).1
        rw [List.mem_singleton.mp hnew]
        refine Or.inr ⟨rfl, rfl, x, x', hget, hput, ?_, rfl⟩
        rw [htasks]
        exact List.getElem?_set_self hlt
  | ask hasking hasking' hdelivered heq =>
      rw [heq] at hp
      exact Or.inl hp
  | quiet takes hdelivered heq =>
      rw [heq] at hp
      exact Or.inl hp

theorem controls_of_control {x x' : Shell} {c : ShellControl} (h : x.control c = some x') :
    x'.controls = x.controls ++ [c] := by
  unfold Shell.control at h
  split at h
  · cases h
    rfl
  · cases h

/-- Nothing has been taken under a number that is still to come. -/
theorem getElem?_takings_none {ts : Takings} {m : Nat} {y : Shell × Shell}
    (h : ts[ts.length + m]? = some y) : False := by
  have hlt := (List.getElem?_eq_some_iff.mp h).1
  omega

theorem shellNotes_step (hn : ShellNotes services s n)
    (h : s.step services l = some s') : ShellNotes services s' (watchPosts s l s' n) := by
  -- what was noted before stays true
  have hmail : ∀ q ∈ n.posted, ∃ x, s'.tasks[q.task]? = some x ∧
      x.HasMail q.number q.arrival.inbound := fun q hq =>
    task_keeps (fun _ _ _ hm hstep => hm.step hstep) (hn.mail q hq) h
  have hnumbered : ∀ p ∈ n.puts, ∃ x, s'.tasks[p.task]? = some x ∧
      Numbered p.number p.control x ((watchPosts s l s' n).takes p.task) := fun p hp =>
    taking_keeps (fun _ _ _ _ hm hturn => hm.turn hturn) (hn.numbered p hp) h
  have hmailBy : ∀ p ∈ n.puts, ∀ q ∈ p.posted, q.task = p.task →
      ∃ x, s'.tasks[p.task]? = some x ∧
        MailBy p.number q.number q.arrival.inbound x ((watchPosts s l s' n).takes p.task) :=
    fun p hp q hq htask =>
      taking_keeps (fun _ _ _ _ hm hturn => hm.turn hturn) (hn.mailBy p hp q hq htask) h
  refine ⟨fun k x hx => ?_, fun k hk => unborn_step hn h hk, ?_, ?_, ?_⟩
  · exact takings_step past_init (fun _ _ _ _ hp hturn => hp.turn hturn) (hn.unborn k)
      (hn.past k) h hx
  · intro q hq
    rcases posted_of_step h hq with hold | hnew
    · exact hmail q hold
    · exact hnew
  · intro p hp
    rcases puts_of_step h hp with hold | ⟨_, htakes, x, x', hget, hput, hget', hnumber⟩
    · exact hnumbered p hold
    · refine ⟨x', hget', ?_, ?_⟩
      · intro y hy
        rw [htakes, hnumber] at hy
        exact (getElem?_takings_none hy).elim
      · intro _
        rw [htakes, hnumber, controls_of_control hput, Nat.add_sub_cancel_left]
        exact List.getElem?_concat_length
  · intro p hp q hq htask
    rcases puts_of_step h hp with hold | ⟨hposted, htakes, x, x', hget, hput, hget', hnumber⟩
    · exact hmailBy p hold q hq htask
    · obtain ⟨y, hy, hm⟩ := hmail q (hposted ▸ hq)
      rw [htask, hget'] at hy
      cases hy
      refine ⟨x', hget', hm, fun y hy => ?_⟩
      rw [htakes, hnumber] at hy
      exact (getElem?_takings_none hy).elim

/-! ## Over a whole run -/

/-- The notes of the observer are true. -/
structure Notes (services : Services) (o : Watched) : Prop where
  reachable : Reachable services o.state
  loop : LoopNotes o.state o.notes
  shells : ShellNotes services o.state o.notes

theorem notes_init : Notes services ⟨{}, {}⟩ where
  reachable := Lib.Reachable.refl _
  loop := loopNotes_init
  shells := shellNotes_init

theorem notes_step {o o' : Watched} (hn : Notes services o)
    (h : watchedStep services o l = some o') : Notes services o' := by
  obtain ⟨hstep, hnotes⟩ := observe_cases h
  obtain ⟨answered, hb⟩ := books_of_reachable hn.reachable
  refine ⟨hn.reachable.trans (Lib.Reachable.single hstep), ?_, ?_⟩
  · rw [hnotes]
    exact loopNotes_step hb hn.loop hstep
  · rw [hnotes]
    exact shellNotes_step hn.shells hstep

end Kernel

end Kernmini.Engine
