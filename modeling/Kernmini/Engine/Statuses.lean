/-
Kernmini.Engine.Statuses — the status messages of a shell message that is no
execute request.

`handle_shell` publishes `busy` for the five requests it brackets, and nothing
for comm messages, `comm_info_request`, `connect_request` and the rest.
`report_failure` ends every message that failed with `idle`. So a failed
language call of one of the five closes its bracket, and a failed comm message
or `comm_info_request` is left with an `idle` that follows no `busy`. A run
brackets every message exactly when no such call fails.

Only the engine's own statuses are counted. A language can publish a message
of any type through its context.
-/
import Kernmini.Engine.ShellTraces

namespace Kernmini.Engine

open Kernmini.Wire Kernmini.Lib

/-! ## Brackets -/

/-- The engine's own `status` message. -/
def Emission.isStatus : Emission → Bool
  | .iopub msgType _ => msgType = "status"
  | _ => false

/-- The statuses and the replies of a trace. -/
def marks (es : List Emission) : List Emission :=
  es.filter (fun e => e.isStatus || e.isReply)

/-- No status at all, or one `busy`, the replies, and one `idle`. -/
def Bracketed (es : List Emission) : Prop :=
  (∀ e ∈ marks es, e.isStatus = false) ∨
    ∃ replies, marks es = busy :: replies ++ [idle] ∧ ∀ e ∈ replies, e.isStatus = false

@[simp] theorem marks_nil : marks [] = [] := rfl

@[simp] theorem marks_append (es es' : List Emission) : marks (es ++ es') = marks es ++ marks es' :=
  List.filter_append ..

@[simp] theorem marks_marks (es : List Emission) : marks (marks es) = marks es :=
  List.filter_filter .. |>.trans (by simp [marks])

@[simp] theorem marks_busy (es : List Emission) : marks (busy :: es) = busy :: marks es := rfl

@[simp] theorem marks_idle (es : List Emission) : marks (idle :: es) = idle :: marks es := rfl

@[simp] theorem marks_reply (msgType : String) (content : Value) (es : List Emission) :
    marks (.reply msgType content :: es) = .reply msgType content :: marks es := rfl

theorem bracketed_congr {es es' : List Emission} (h : marks es = marks es') :
    Bracketed es ↔ Bracketed es' := by
  simp [Bracketed, h]

theorem bracketed_nil : Bracketed [] := Or.inl (by simp)

theorem bracketed_reply (msgType : String) (content : Value) : Bracketed [.reply msgType content] :=
  Or.inl (by simp [Emission.isStatus])

theorem marks_reportFailure {request : Message} (hex : request.isExecute = false)
    (error : Error) (n : Nat) :
    ∃ replies, marks (reportFailure request error n) = replies ++ [idle] ∧
      ∀ e ∈ replies, e.isStatus = false := by
  by_cases hrequest : request.isRequest
  · refine ⟨[.reply request.replyType _], by simp [reportFailure, hex, hrequest]; rfl, ?_⟩
    simp [Emission.isStatus]
  · exact ⟨[], by simp [reportFailure, hex, hrequest], by simp⟩

/-- A failure closes a bracket, and opens none. -/
theorem bracketed_reportFailure {request : Message} (hex : request.isExecute = false)
    (error : Error) (n : Nat) : Bracketed (busy :: reportFailure request error n) := by
  obtain ⟨replies, hmarks, hreplies⟩ := marks_reportFailure hex error n
  exact Or.inr ⟨replies, by simp [hmarks], hreplies⟩

theorem not_bracketed_reportFailure {request : Message} (hex : request.isExecute = false)
    (error : Error) (n : Nat) : ¬ Bracketed (reportFailure request error n) := by
  obtain ⟨replies, hmarks, hreplies⟩ := marks_reportFailure hex error n
  rintro (hnone | ⟨others, hothers, _⟩)
  · exact absurd (hnone idle (by simp [hmarks])) (by decide)
  · have hbusy : replies = busy :: others := by
      rw [hmarks] at hothers
      exact List.append_cancel_right hothers
    exact absurd (hreplies busy (by simp [hbusy])) (by decide)

/-! ## What a handler says -/

/-- `handle_shell` makes the call without a `busy`. -/
def ServiceCall.unannounced : ServiceCall → Bool
  | .message _ _ _ => true
  | .commInfo _ => true
  | _ => false

/-- What is said before the call is made. -/
def ServiceCall.opening (call : ServiceCall) : List Emission :=
  if call.unannounced then [] else [busy]

namespace Shell

variable {services : Services} {s s' : Shell} {l : Label} {ls : List Label} {item m : QueueItem}
  {es : List Emission}

/-- `handle_shell` is done, or is at its call. -/
inductive HandlerOutcome (t : Shell) (item : QueueItem) (es : List Emission) : Prop
  | done (hpc : t.pc.item = none) (hes : Bracketed es)
  | calling (call : ServiceCall) (comm : Option Nat) (hpc : t.pc = .call item call comm)
      (hes : marks es = call.opening)

theorem failItem_item (s : Shell) (item : QueueItem) (error : Error) :
    (s.failItem item error).pc.item = none := by
  by_cases hclosed : error.kind = .closed <;> simp [failItem, hclosed, Pc.item]

theorem handleShell_outcome (services : Services) (o : Oracle) (s : Shell)
    (hex : item.isExecute = false) :
    ∃ es, Handled s (s.handleShell services o item) item es ∧
      (s.handleShell services o item).queue = s.queue ∧
      HandlerOutcome (s.handleShell services o item) item es := by
  have hex' : item.request.isExecute = false := hex
  unfold handleShell
  simp only
  split
  · refine ⟨_, ⟨rfl, rfl, rfl, rfl, rfl⟩, rfl, .done rfl ?_⟩
    simpa [replyMissing, replyError, hex'] using bracketed_reply _ _
  · split
    · exact ⟨_, ⟨rfl, rfl, rfl, rfl, rfl⟩, rfl, .done rfl (bracketed_reply _ _)⟩
    · split
      · split
        · refine ⟨_, ⟨rfl, rfl, rfl, rfl, rfl⟩, rfl, .done rfl ?_⟩
          exact Or.inr ⟨[_], rfl, by simp [Emission.isStatus]⟩
        · next error _ =>
            refine ⟨busy :: reportFailure item.request error s.executionCount,
              ⟨rfl, by simp [failItem, say, tag], rfl, rfl, rfl⟩, rfl,
              .done (failItem_item _ _ _) (bracketed_reportFailure hex' _ _)⟩
      · split
        · exact ⟨[], ⟨rfl, (List.append_nil _).symm, rfl, rfl, rfl⟩, rfl, .calling _ _ rfl rfl⟩
        · exact ⟨[], ⟨rfl, (List.append_nil _).symm, rfl, rfl, rfl⟩, rfl, .calling _ _ rfl rfl⟩
        · next call hmessage hinfo hcall =>
            refine ⟨_, ⟨rfl, rfl, rfl, rfl, rfl⟩, rfl, .calling _ _ rfl ?_⟩
            cases call with
            | message msgType content buffers => exact absurd rfl (hmessage _ _ _)
            | commInfo content => exact absurd rfl (hinfo _)
            | _ => rfl
        · split
          · exact ⟨_, ⟨rfl, rfl, rfl, rfl, rfl⟩, rfl, .done rfl (bracketed_reply _ _)⟩
          · split
            · exact ⟨_, ⟨rfl, rfl, rfl, rfl, rfl⟩, rfl, .done rfl (bracketed_reply _ _)⟩
            · exact ⟨[], ⟨rfl, (List.append_nil _).symm, rfl, rfl, rfl⟩, rfl, .done rfl bracketed_nil⟩

/-- A call whose failure leaves an `idle` alone. -/
def failsUnannounced (s : Shell) : Label → Bool
  | .callReturned (.error _) =>
      match s.pc with
      | .call _ call _ => call.unannounced
      | _ => false
  | _ => false

/-- No comm message and no `comm_info_request` fails. -/
def CommsSucceed (s : Shell) (l : Label) : Prop := s.failsUnannounced l = false

instance (s : Shell) (l : Label) : Decidable (s.CommsSucceed l) :=
  inferInstanceAs (Decidable (s.failsUnannounced l = false))

/-- What is said once the call has returned. -/
theorem callReturned_outcome {call : ServiceCall} {comm : Option Nat} (result : Except Error Value)
    (hex : item.isExecute = false) (hpc : s.pc = .call item call comm)
    (hcomm : comm.isSome = call.isComm) :
    ∃ es, Handled s (s.callReturned item call comm result) item es ∧
      (s.callReturned item call comm result).queue = s.queue ∧
      (((s.callReturned item call comm result).pc.item = none ∧
        (Bracketed (call.opening ++ es) ↔ s.CommsSucceed (.callReturned result))) ∨
      (∃ n, (s.callReturned item call comm result).pc = .commFlush item n ∧ es = [] ∧
        call.opening = [] ∧ s.CommsSucceed (.callReturned result))) := by
  cases result with
  | error error =>
      refine ⟨_, ⟨rfl, rfl, rfl, rfl, rfl⟩, rfl, Or.inl ⟨failItem_item s item error, ?_⟩⟩
      cases hun : call.unannounced with
      | true =>
          have hnot := not_bracketed_reportFailure hex error s.executionCount
          simpa [CommsSucceed, failsUnannounced, hpc, ServiceCall.opening, hun] using hnot
      | false =>
          have hyes := bracketed_reportFailure hex error s.executionCount
          simpa [CommsSucceed, failsUnannounced, hpc, ServiceCall.opening, hun] using hyes
  | ok value =>
      have hok : s.CommsSucceed (.callReturned (.ok value)) := rfl
      cases call with
      | message msgType content buffers =>
          cases comm with
          | none => cases hcomm
          | some n =>
              exact ⟨[], ⟨rfl, (List.append_nil _).symm, rfl, rfl, rfl⟩, rfl,
                Or.inr ⟨n, rfl, rfl, rfl, hok⟩⟩
      | commInfo content =>
          exact ⟨_, ⟨rfl, rfl, rfl, rfl, rfl⟩, rfl,
            Or.inl ⟨rfl, iff_of_true (bracketed_reply _ _) hok⟩⟩
      | _ =>
          refine ⟨_, ⟨rfl, rfl, rfl, rfl, rfl⟩, rfl, Or.inl ⟨rfl, iff_of_true ?_ hok⟩⟩
          exact Or.inr ⟨[_], rfl, by simp [Emission.isStatus]⟩

/-! ## The life of a message -/

/-- What is said about message `n` while its call is pending. -/
def openMarks (s : Shell) (n : Nat) : List Emission :=
  match s.pc with
  | .call m call _ => if m.order = n then call.opening else []
  | _ => []

/-- The shell is done with the message. -/
structure Done (s : Shell) (item : QueueItem) : Prop where
  taken : item ∈ s.taken
  queue : item ∉ s.queue.items
  pc : s.pc.item ≠ some item

/-- The step says nothing that counts about the message. -/
structure Keeps (s s' : Shell) (item : QueueItem) : Prop where
  marks : marks (s'.said item.order) = marks (s.said item.order)
  opening : s'.openMarks item.order = s.openMarks item.order
  done : s'.Done item ↔ s.Done item

/-- A step of the shell, seen from a message that is no execute request; `ok`
says whether a message that is let go is bracketed. -/
inductive PlainStep (s s' : Shell) (item : QueueItem) (ok : Prop) : Prop
  | kept (h : Keeps s s' item)
  | called (call : ServiceCall) (comm : Option Nat) (hpc : s.pc = .handle item)
      (hpc' : s'.pc = .call item call comm)
      (hmarks : marks (s'.said item.order) = marks (s.said item.order) ++ call.opening)
  | left (es : List Emission) (hpc : s.pc.item = some item) (hdone : s'.Done item)
      (hmarks : marks (s'.said item.order) = marks (s.said item.order) ++ marks es)
      (hes : Bracketed (s.openMarks item.order ++ es) ↔ ok)

theorem openMarks_of_item (h : s.pc.item = none) (n : Nat) : s.openMarks n = [] := by
  unfold openMarks
  split
  · next hpc =>
      rw [hpc] at h
      cases h
  · rfl

theorem openMarks_of_ne (h : s.pc.item = some m) (hne : m.order ≠ item.order) :
    s.openMarks item.order = [] := by
  unfold openMarks
  split
  · next hpc =>
      rw [hpc, Pc.item, Option.some.injEq] at h
      rw [h, if_neg hne]
  · rfl

/-- Whatever is in the scheduler's hands, it is not the message. -/
def Elsewhere (s : Shell) (item : QueueItem) : Prop :=
  ∀ m, s.pc.item = some m → m.order ≠ item.order

theorem Elsewhere.of_none (h : s.pc.item = none) : s.Elsewhere item := by
  intro m hm
  rw [h] at hm
  cases hm

theorem Elsewhere.of_some (h : s.pc.item = some m) (hne : m.order ≠ item.order) :
    s.Elsewhere item := by
  intro m' hm'
  rw [h, Option.some.injEq] at hm'
  exact hm' ▸ hne

theorem Elsewhere.openMarks (h : s.Elsewhere item) : s.openMarks item.order = [] := by
  cases hpc : s.pc.item with
  | none => exact openMarks_of_item hpc _
  | some m => exact openMarks_of_ne hpc (h m hpc)

theorem Elsewhere.ne (h : s.Elsewhere item) : s.pc.item ≠ some item :=
  fun hpc => h item hpc rfl

/-- The scheduler does something else, and says nothing about the message. -/
theorem Keeps.of_elsewhere (hlog : s'.log = s.log)
    (hout : traceOf item.order s'.out = traceOf item.order s.out) (hpc : s.Elsewhere item)
    (hpc' : s'.Elsewhere item)
    (hplaces : (item ∈ s'.taken ∧ item ∉ s'.queue.items) ↔ (item ∈ s.taken ∧ item ∉ s.queue.items)) :
    Keeps s s' item where
  marks := by rw [said, said, hlog, hout]
  opening := by rw [hpc.openMarks, hpc'.openMarks]
  done := by
    constructor
    · intro h
      obtain ⟨htaken, hqueue⟩ := hplaces.mp ⟨h.taken, h.queue⟩
      exact ⟨htaken, hqueue, hpc.ne⟩
    · intro h
      obtain ⟨htaken, hqueue⟩ := hplaces.mpr ⟨h.taken, h.queue⟩
      exact ⟨htaken, hqueue, hpc'.ne⟩

/-- The scheduler speaks of another message. -/
theorem Keeps.of_handled (h : Handled s s' m es) (hne : es = [] ∨ m.order ≠ item.order)
    (hqueue : s'.queue = s.queue) (hpc : s.Elsewhere item) (hpc' : s'.Elsewhere item) :
    Keeps s s' item := by
  have hnone : traceOf item.order (tag m es) = [] := by
    rcases hne with rfl | hne
    · rfl
    · exact traceOf_tag_ne hne es
  exact .of_elsewhere h.log (by simp [h.out, hnone]) hpc hpc' (by rw [h.taken, hqueue])

/-- The scheduler stays where it is. -/
theorem Keeps.of_stay (hmarks : Engine.marks (s'.said item.order) = Engine.marks (s.said item.order))
    (hpc : s'.pc = s.pc) (htaken : s'.taken = s.taken) (hqueue : s'.queue = s.queue) :
    Keeps s s' item where
  marks := hmarks
  opening := by rw [openMarks, openMarks, hpc]
  done := by
    constructor
    · intro h
      exact ⟨htaken ▸ h.taken, hqueue ▸ h.queue, hpc ▸ h.pc⟩
    · intro h
      exact ⟨htaken ▸ h.taken, hqueue ▸ h.queue, hpc ▸ h.pc⟩

theorem Keeps.of_quiet (hlog : s'.log = s.log) (hout : s'.out = s.out) (htaken : s'.taken = s.taken)
    (hqueue : s'.queue = s.queue) (hpc : s.pc.item = none) (hpc' : s'.pc.item = none) :
    Keeps s s' item :=
  .of_elsewhere hlog (by rw [hout]) (.of_none hpc) (.of_none hpc') (by rw [htaken, hqueue])

/-! ### One handler at a time -/

theorem Keeps.of_enqueue {new : QueueItem} (ha : s.Accounts) (hlog : s'.log = s.log)
    (hout : s'.out = s.out) (hnew : new.order = s.order) (hqueue : s'.queue = s.queue.push new)
    (htaken : s'.taken = s.taken ++ [new]) (hpc : s.pc.item = none) (hpc' : s'.pc.item = none) :
    Keeps s s' item := by
  refine .of_elsewhere hlog (by rw [hout]) (.of_none hpc) (.of_none hpc') ?_
  rw [htaken, hqueue, Heap.mem_push]
  by_cases heq : item = new
  · have hnot : item ∉ s.taken := by
      intro hmem
      have hlt := order_lt_of_mem_taken ha hmem
      rw [heq] at hlt
      omega
    simp [heq, heq ▸ hnot]
  · simp [heq]

theorem Keeps.of_dispatch {found : Option QueueItem} {queue : Queue} (hpc : s.pc = .dispatch)
    (h : popRunnable s.queue s.active.isSome s.held = (found, queue)) (hapart : s.Apart item)
    (ha : s.Accounts) :
    Keeps s { s with queue, pc := match found with
      | some m => .handle m
      | none => .select } item := by
  have hperm := popRunnable_perm h
  have hitem : s.pc.item = none := by rw [hpc]; rfl
  cases found with
  | none =>
      refine .of_elsewhere rfl rfl (.of_none hitem) (.of_none rfl) ?_
      simp [hperm.mem_iff]
  | some m =>
      by_cases heq : m = item
      · subst heq
        have hqueue : m ∈ s.queue.items := hperm.symm.subset (by simp)
        refine ⟨rfl, ?_, iff_of_false (fun hdone => hdone.pc rfl) (fun hdone => hdone.queue hqueue)⟩
        rw [openMarks_of_item hitem]
        rfl
      · have hmem : m ∈ s.queue.items := hperm.symm.subset (by simp)
        have hne : m.order ≠ item.order :=
          hapart m (mem_taken_of_mem_waiting ha (List.mem_append_left _ hmem)) heq
        refine .of_elsewhere rfl rfl (.of_none hitem) (.of_some rfl hne) ?_
        simp [hperm.mem_iff, Ne.symm heq]

/-- `abort_pending` leaves every other message in the queue. -/
theorem Keeps.of_abort (ha : s.Accounts) (hapart : s.Apart item) (hex : item.isExecute = false)
    (hpc : s.pc.item = none) (release : Option Nat) (resume : Resume) :
    Keeps s (s.abortQueued release resume) item := by
  have hperm := abortQueue_perm s.queue
  have hnot : item ∉ (abortQueue s.queue).1 := by
    rw [abortQueue_aborted]
    simp [hex]
  have hnone : traceOf item.order ((abortQueue s.queue).1.flatMap
      (fun m => tag m (abortExecute s.executionCount))) = [] := by
    refine traceOf_flatMap_of_not_mem fun hin => ?_
    obtain ⟨m, hm, horder⟩ := List.mem_map.mp hin
    have hm' : m ∈ s.queue.items := hperm.symm.subset (List.mem_append_left _ hm)
    have hne : m ≠ item := fun heq => hnot (heq ▸ hm)
    exact hapart m (mem_taken_of_mem_waiting ha (List.mem_append_left _ hm')) hne horder
  refine .of_elsewhere rfl ?_ (.of_none hpc) (.of_none (abortQueued_item s release resume)) ?_
  · simp [abortQueued, hnone]
  · have hmem : item ∈ s.queue.items ↔ item ∈ (abortQueue s.queue).2.items := by
      rw [hperm.mem_iff, List.mem_append]
      simp [hnot]
    rw [hmem]
    rfl

theorem ApplyRule.keeps {c : ShellControl} {resume : Resume} {rest : List ShellControl}
    (h : ApplyRule { s with controls := rest } resume c s')
    (hheld : ∀ m, s.held = some m → m.order ≠ item.order) (hpc : s.pc.item = none) :
    Keeps s s' item := by
  have hsay : ∀ {m es}, s.held = some m → s'.log = s.log → s'.out = s.out ++ tag m es →
      s'.taken = s.taken → s'.queue = s.queue → s'.pc.item = none → Keeps s s' item := by
    intro m es hm hlog hout htaken hqueue hpc'
    have hnone : traceOf item.order (tag m es) = [] := traceOf_tag_ne (hheld m hm) es
    exact .of_elsewhere hlog (by simp [hout, hnone]) (.of_none hpc) (.of_none hpc')
      (by rw [htaken, hqueue])
  cases h with
  | release hheld | releaseFailed hheld | interruptHeld hheld =>
      exact hsay hheld rfl rfl rfl rfl rfl
  | notHeld | stop => exact .of_quiet rfl rfl rfl rfl hpc (Resume.item_pc resume)
  | _ => exact .of_quiet rfl rfl rfl rfl hpc rfl

/-- The message in hand is in no other place. -/
theorem done_of_leave (ha : s.Accounts) (hpc : s.pc.item = some item) (hpc' : s'.pc.item = none)
    (htaken : s'.taken = s.taken) (hqueue : s'.queue = s.queue) : s'.Done item := by
  have hmem : item ∈ s.taken := mem_taken_of_mem_waiting ha (by simp [waiting, hpc])
  refine ⟨htaken ▸ hmem, ?_, by simp [hpc']⟩
  rw [hqueue]
  intro hq
  obtain ⟨_, settled, dropped, hl⟩ := ha
  have hnodup := (List.nodup_append.mp hl.nodup_places).1
  unfold waiting at hnodup
  exact (List.nodup_append.mp hnodup).2.2 item hq item (by simp [hpc]) rfl

theorem marks_of_handled (h : Handled s s' item es) :
    Engine.marks (s'.said item.order) = Engine.marks (s.said item.order) ++ Engine.marks es := by
  rw [h.saying.said, marks_append]

/-- An execute request is handled. -/
theorem HandleItemRule.keeps (h : HandleItemRule services s m s') (hm : m.isExecute = true)
    (hpc : s.pc.item = some m) (hne : m.order ≠ item.order) : Keeps s s' item := by
  have helse : s.Elsewhere item := .of_some hpc hne
  cases h with
  | shell hm' => rw [hm] at hm'; cases hm'
  | interrupted =>
      exact .of_handled ⟨rfl, rfl, rfl, rfl, rfl⟩ (.inr hne) rfl helse (.of_none rfl)
  | missing => exact .of_handled ⟨rfl, rfl, rfl, rfl, rfl⟩ (.inr hne) rfl helse (.of_none rfl)
  | hold => exact .of_handled ⟨rfl, rfl, rfl, rfl, rfl⟩ (.inr hne) rfl helse (.of_some rfl hne)
  | execute => exact .of_elsewhere rfl rfl helse (.of_none rfl) Iff.rfl

theorem executionDone_keeps {done : ExecutionDone} {resume : Resume} (hpc : s.pc.item = none) :
    Keeps s (s.executionDone done resume) item := by
  refine .of_quiet rfl rfl rfl rfl hpc ?_
  simp only [executionDone]
  split
  · rfl
  · exact Resume.item_pc resume

/-- `handle_item`. -/
theorem plainStep_of_handle {o : Oracle} (ha : s.Accounts) (hapart : s.Apart item)
    (hex : item.isExecute = false) (hpc : s.pc = .handle m)
    (h : s.step services (.next o) = some s') : PlainStep s s' item (s.CommsSucceed (.next o)) := by
  have hitem : s.pc.item = some m := by rw [hpc]; rfl
  have hmem : m ∈ s.taken := mem_taken_of_mem_waiting ha (by simp [waiting, hitem])
  have hs' : s' = s.handleItem services o m := by
    simp only [step] at h
    split at h
    · simpa [Shell.next, hpc] using h.symm
    · cases h
  subst hs'
  cases hm : m.isExecute with
  | true =>
      have hne : m.order ≠ item.order := by
        refine hapart m hmem ?_
        rintro rfl
        rw [hex] at hm
        cases hm
      exact .kept (handleItem_rule.keeps hm hitem hne)
  | false =>
      have hshell : s.handleItem services o m = s.handleShell services o m := by
        simp [handleItem, hm]
      rw [hshell]
      obtain ⟨es, hhandled, hqueue, hout⟩ := handleShell_outcome services o s hm
      by_cases heq : m = item
      · subst heq
        cases hout with
        | done hpc' hes =>
            refine .left es hitem (done_of_leave ha hitem hpc' hhandled.taken hqueue)
              (marks_of_handled hhandled) (iff_of_true ?_ rfl)
            simpa [openMarks, hpc] using hes
        | calling call comm hpc' hes =>
            refine .called call comm hpc hpc' ?_
            rw [marks_of_handled hhandled, hes]
      · have hne : m.order ≠ item.order := hapart m hmem heq
        refine .kept (.of_handled hhandled (.inr hne) hqueue (.of_some hitem hne) ?_)
        cases hout with
        | done hpc' => exact .of_none hpc'
        | calling call comm hpc' => exact .of_some (by rw [hpc']; rfl) hne

theorem step_callReturned {call : ServiceCall} {comm : Option Nat} {result : Except Error Value}
    (hpc : s.pc = .call m call comm) (h : s.step services (.callReturned result) = some s') :
    s' = s.callReturned m call comm result := by
  simp only [step, hpc] at h
  split at h
  · next heq _ =>
      cases heq
      exact (Option.some.inj h).symm
  · cases h

/-- The return of a language call. -/
theorem plainStep_of_returned {call : ServiceCall} {comm : Option Nat} {result : Except Error Value}
    (ha : s.Accounts) (hapart : s.Apart item) (hpc : s.pc = .call m call comm)
    (h : s.step services (.callReturned result) = some s') :
    PlainStep s s' item (s.CommsSucceed (.callReturned result)) := by
  have hitem : s.pc.item = some m := by rw [hpc]; rfl
  have hmem : m ∈ s.taken := mem_taken_of_mem_waiting ha (by simp [waiting, hitem])
  obtain ⟨hcall, hcomm, _⟩ := ha.1.call hpc
  have hs' := step_callReturned hpc h
  subst hs'
  obtain ⟨es, hhandled, hqueue, hout⟩ :=
    callReturned_outcome result (isExecute_of_serviceCall hcall) hpc hcomm
  by_cases heq : m = item
  · subst heq
    rcases hout with ⟨hpc', hes⟩ | ⟨n, hpc', rfl, hopening, hok⟩
    · refine .left es hitem (done_of_leave ha hitem hpc' hhandled.taken hqueue)
        (marks_of_handled hhandled) ?_
      simpa [openMarks, hpc] using hes
    · refine .kept ⟨by simp [marks_of_handled hhandled], by simp [openMarks, hpc, hpc', hopening], ?_⟩
      exact iff_of_false (fun hdone => hdone.pc (by rw [hpc']; rfl)) (fun hdone => hdone.pc hitem)
  · have hne : m.order ≠ item.order := hapart m hmem heq
    refine .kept (.of_handled hhandled (.inr hne) hqueue (.of_some hitem hne) ?_)
    rcases hout with ⟨hpc', _⟩ | ⟨n, hpc', _⟩
    · exact .of_none hpc'
    · exact .of_some (by rw [hpc']; rfl) hne

theorem Output.step_marks {silent : Bool} {o o' : Output} {l : OutputLabel} {es : List Emission}
    (h : o.step silent l = some (o', es)) : Engine.marks es = [] := by
  cases Output.step_rule h with
  | recvMany | flush => rfl
  | publish => rfl
  | input => split <;> rfl

theorem plainStep (ha : s.Accounts) (hapart : s.Apart item) (hex : item.isExecute = false)
    (h : s.step services l = some s') : PlainStep s s' item (s.CommsSucceed l) := by
  have hne : ∀ {m : QueueItem}, m ∈ s.taken → m.isExecute = true → m.order ≠ item.order := by
    intro m hmem hm
    refine hapart m hmem ?_
    rintro rfl
    rw [hex] at hm
    cases hm
  have hheld : ∀ m, s.held = some m → m.order ≠ item.order := by
    intro m hm
    exact hne (mem_taken_of_mem_waiting ha (by simp [waiting, hm])) (ha.1.held m hm)
  cases step_rule h with
  | loop hout hloop =>
      cases hloop with
      | handle hpc _ => exact plainStep_of_handle ha hapart hex hpc h
      | callFailed hpc | commReturned hpc | commInfoReturned hpc | callReturned hpc =>
          exact plainStep_of_returned ha hapart hpc h
      | takeIncoming hpc hincoming =>
          have hitem : s.pc.item = none := by rw [hpc]; rfl
          exact .kept (.of_enqueue ha rfl rfl rfl rfl rfl hitem hitem)
      | abortIncoming hpc hincoming =>
          have hitem : s.pc.item = none := by rw [hpc]; rfl
          exact .kept (.of_enqueue ha rfl rfl rfl rfl rfl hitem hitem)
      | selectIncoming hpc hincoming =>
          exact .kept (.of_enqueue ha rfl rfl rfl rfl rfl (by rw [hpc]; rfl) rfl)
      | takeControl hpc hcontrols h | selectControl hpc hcontrols h =>
          exact .kept (h.keeps hheld (by rw [hpc]; rfl))
      | pop hpc hpop | idle hpc hpop => exact .kept (.of_dispatch hpc hpop hapart ha)
      | abort hpc hincoming => exact .kept (.of_abort ha hapart hex (by rw [hpc]; rfl) _ _)
      | @commFlushed o m comm hpc =>
          have hitem : s.pc.item = some m := by rw [hpc]; rfl
          by_cases heq : m = item
          · subst heq
            refine .left [] hitem (done_of_leave ha hitem rfl rfl rfl) (by simp [said]) ?_
            exact iff_of_true (by simpa [openMarks, hpc] using bracketed_nil) rfl
          · have hmem : m ∈ s.taken := mem_taken_of_mem_waiting ha (by simp [waiting, hitem])
            exact .kept (.of_elsewhere rfl rfl (.of_some hitem (hapart m hmem heq)) (.of_none rfl)
              Iff.rfl)
      | @park o m hpc =>
          have hitem : s.pc.item = some m := by rw [hpc]; rfl
          have hmem : m ∈ s.taken := mem_taken_of_mem_waiting ha (by simp [waiting, hitem])
          exact .kept (.of_elsewhere rfl rfl (.of_some hitem (hne hmem (ha.1.park hpc).1))
            (.of_none rfl) Iff.rfl)
      | selectTimeout hpc hm =>
          exact .kept (.of_handled ⟨rfl, rfl, rfl, rfl, rfl⟩ (.inr (hheld _ hm)) rfl
            (.of_none (by rw [hpc]; rfl)) (.of_none rfl))
      | reap hpc | selectDone hpc => exact .kept (executionDone_keeps (by rw [hpc]; rfl))
      | answer hpc => exact .kept (.of_quiet rfl rfl rfl rfl (by rw [hpc]; rfl) (Resume.item_pc _))
      | _ => exact .kept (.of_quiet rfl rfl rfl rfl (by simp [Pc.item, *]) rfl)
  | @emit e rest hout =>
      refine .kept (.of_stay ?_ rfl rfl rfl)
      simp only [said, hout, traceOf_append, List.append_assoc]
      rw [traceOf_cons item.order e rest]
  | @commPump comm order l output output' es hget hpump =>
      refine .kept (.of_stay ?_ rfl rfl rfl)
      have hnone : Engine.marks (traceOf item.order (es.map (order, ·))) = [] := by
        by_cases horder : order = item.order
        · rw [horder, traceOf_tag_self]
          exact Output.step_marks hpump
        · rw [traceOf_tag_ne horder]
          rfl
      simp [said, hnone]
  | @task l a a' es hactive hrunning hstep =>
      refine .kept (.of_stay ?_ rfl rfl rfl)
      have hnone : traceOf item.order (tag a.item es) = [] :=
        traceOf_tag_ne
          (hne (mem_taken_of_works ha ⟨hactive, rfl⟩) (ha.1.active a hactive).isExecute) es
      simp [said, hnone]
  | _ => exact .kept (.of_stay rfl rfl rfl rfl)

/-! ## Every run -/

/-- While a message waits or its call is pending, only the `busy` of the call
has been said about it. -/
structure Statuses (s : Shell) : Prop where
  accounts : s.Accounts
  opened : ∀ item : QueueItem, item.isExecute = false →
    (item ∈ s.taken ∨ s.order ≤ item.order) → ¬ s.Done item →
      marks (s.said item.order) = s.openMarks item.order

theorem statuses_init : Statuses {} where
  accounts := accounts_init
  opened := by
    intro item _ _ _
    rfl

theorem statuses_step (hs : s.Statuses) (h : s.step services l = some s') : s'.Statuses := by
  refine ⟨accounts_step hs.accounts h, ?_⟩
  intro item hex hborn' hdone
  have hborn := born_before hs.accounts h hborn'
  have hopened := hs.opened item hex hborn
  cases plainStep hs.accounts (apart_of_born hs.accounts hborn) hex h with
  | kept hkeeps =>
      rw [hkeeps.marks, hkeeps.opening]
      exact hopened (fun hwas => hdone (hkeeps.done.mpr hwas))
  | called call comm hpc hpc' hmarks =>
      have hnot : ¬ s.Done item := fun hwas => hwas.pc (by rw [hpc]; rfl)
      rw [hmarks, hopened hnot]
      simp [openMarks, hpc, hpc']
  | left es hpc hleft => exact absurd hleft hdone

/-- The statuses of every message that is no execute request: what has been
sent is the beginning of a bracket, and the bracket is whole once the shell is
done with the message. -/
def StatusesBracketed (s : Shell) : Prop :=
  ∀ item ∈ s.taken, item.isExecute = false →
    (∃ rest, Bracketed (traceOf item.order s.log ++ rest)) ∧
      (s.Done item → Bracketed (s.said item.order))

theorem bracketed_opening (call : ServiceCall) :
    ∃ rest, Bracketed (call.opening ++ rest) := by
  by_cases hun : call.unannounced
  · exact ⟨[], by simpa [ServiceCall.opening, hun] using bracketed_nil⟩
  · refine ⟨[idle], Or.inr ⟨[], ?_, by simp⟩⟩
    simp [ServiceCall.opening, hun]

theorem bracketed_openMarks (s : Shell) (n : Nat) : ∃ rest, Bracketed (s.openMarks n ++ rest) := by
  unfold openMarks
  split
  · split
    · exact bracketed_opening _
    · exact ⟨[], bracketed_nil⟩
  · exact ⟨[], bracketed_nil⟩

/-- A bracket that is whole, or begun, is begun. -/
theorem StatusesBracketed.of_done (hs : s.Statuses)
    (h : ∀ item ∈ s.taken, item.isExecute = false → s.Done item → Bracketed (s.said item.order)) :
    s.StatusesBracketed := by
  intro item hmem hex
  refine ⟨?_, h item hmem hex⟩
  by_cases hdone : s.Done item
  · exact ⟨traceOf item.order s.out, h item hmem hex hdone⟩
  · obtain ⟨rest, hrest⟩ := bracketed_openMarks s item.order
    refine ⟨traceOf item.order s.out ++ rest, ?_⟩
    have hopened := hs.opened item hex (.inl hmem) hdone
    refine (bracketed_congr ?_).mpr hrest
    have hmarked : marks (s.openMarks item.order) = s.openMarks item.order := by
      rw [← hopened, marks_marks]
    rw [← List.append_assoc, ← said, marks_append, marks_append, hmarked, hopened]

/-- The failure of an unannounced call leaves its message with a lone `idle`. -/
theorem not_bracketed_of_fails (hs : s.Statuses) (hl : s.failsUnannounced l = true)
    (h : s.step services l = some s') : ¬ s'.StatusesBracketed := by
  unfold failsUnannounced at hl
  split at hl
  · next error =>
      split at hl
      · next item call comm hpc =>
          have ha := hs.accounts
          have hitem : s.pc.item = some item := by rw [hpc]; rfl
          have hmem : item ∈ s.taken := mem_taken_of_mem_waiting ha (by simp [waiting, hitem])
          have hex : item.isExecute = false := isExecute_of_serviceCall (ha.1.call hpc).1
          have hfail : ¬ s.CommsSucceed (.callReturned (.error error)) := by
            simp [CommsSucceed, failsUnannounced, hpc, hl]
          have hopened := hs.opened item hex (.inl hmem) (fun hdone => hdone.pc hitem)
          intro hbracketed
          cases plainStep ha (apart_of_born ha (.inl hmem)) hex h with
          | kept hkeeps =>
              have hdone : s'.Done item := by
                rw [step_callReturned hpc h]
                exact done_of_leave ha hitem (failItem_item s item error) rfl rfl
              exact (hkeeps.done.mp hdone).pc hitem
          | called call comm hpc₁ =>
              rw [hpc] at hpc₁
              cases hpc₁
          | left es hpc' hdone hmarks hes =>
              have hwhole := (hbracketed item hdone.taken hex).2 hdone
              refine hfail (hes.mp ((bracketed_congr ?_).mp hwhole))
              rw [hmarks, marks_append, hopened, ← hopened, marks_marks]
      · cases hl
  · cases hl

theorem statusesBracketed_iff (hs : s.Statuses) (hb : s.StatusesBracketed)
    (h : s.step services l = some s') : s'.StatusesBracketed ↔ s.CommsSucceed l := by
  constructor
  · intro hb'
    by_contra hfails
    exact not_bracketed_of_fails hs (by simpa [CommsSucceed] using hfails) h hb'
  · intro hok
    refine .of_done (statuses_step hs h) ?_
    intro item hmem hex hdone
    have hborn := born_before hs.accounts h (.inl hmem)
    cases plainStep hs.accounts (apart_of_born hs.accounts hborn) hex h with
    | kept hkeeps =>
        have hwas := hkeeps.done.mp hdone
        exact (bracketed_congr hkeeps.marks).mpr ((hb item hwas.taken hex).2 hwas)
    | called call comm hpc hpc' => exact absurd (by rw [hpc']; rfl) hdone.pc
    | left es hpc _ hmarks hes =>
        have hopened := hs.opened item hex hborn (fun hwas => hwas.pc hpc)
        refine (bracketed_congr ?_).mpr (hes.mpr hok)
        rw [hmarks, marks_append, hopened, ← hopened, marks_marks]

/-- Every message that is no execute request has its statuses bracketed
throughout a run exactly when no comm message and no `comm_info_request` of
the run fails. -/
theorem statuses_bracketed_iff {t : Shell} (hrun : run (step services) {} ls = some t) :
    Throughout (step services) StatusesBracketed {} ls ↔
      StepsMeet (step services) CommsSucceed {} ls := by
  refine throughout_iff_stepsMeet (fun _ _ _ hs h => statuses_step hs h)
    (fun _ _ _ hs hb h => statusesBracketed_iff hs hb h) hrun statuses_init ?_
  intro item hmem
  cases hmem

/-- A message with one field of content. -/
def shellMessage (msgType key : String) : Inbound :=
  { message :=
      { header := [("msg_id", .string "m"), ("msg_type", .string msgType)]
        content := .object [(key, .string "")] }
    reply := 0
    identity := [] }

/-- A request whose language call fails after its `busy`. -/
def failedRequest : List Label :=
  popMessage (shellMessage "is_complete_request" "code") ++
    [Label.next quiet, Label.emit, Label.callReturned (.error .interrupted), Label.emit, Label.emit]

theorem statuses_bracketed_failed_request :
    Throughout (step plainServices) StatusesBracketed {} failedRequest := by
  have hrun : ∃ t, run (step plainServices) {} failedRequest = some t := ⟨_, rfl⟩
  obtain ⟨t, hrun⟩ := hrun
  exact (statuses_bracketed_iff hrun).mpr (by decide)

/-- A comm message whose handler fails: its only status is `idle`. -/
theorem failed_comm_goes_idle :
    ∃ t, run (step plainServices) {}
        (popMessage (shellMessage "comm_open" "comm_id") ++
          [Label.next quiet, Label.callReturned (.error .interrupted), Label.emit]) = some t ∧
      t.log = [(0, idle)] ∧ t.out = [] ∧ t.taken.map QueueItem.isExecute = [false] := by
  exact ⟨_, rfl, rfl, rfl, rfl⟩

end Shell

end Kernmini.Engine
