/-
Kernmini.Engine.AbortPending — `abort_pending` as a whole, from the drain of
the incoming channel to the last message it sends.

The scheduler takes the incoming messages into the queue one by one, sets
the execute requests of the queue apart, and sends the answer of each. The
run below has no step of anybody else in it; it starts from any queue and
any content of the channel.
-/
import Kernmini.Engine.QueueTheorems
import Kernmini.Engine.ShellLife

namespace Kernmini.Engine

open Kernmini.Wire Kernmini.Lib

/-- The items `enqueue` makes of some messages, numbered from `order`. -/
def numbered (order : Nat) : List Inbound → List QueueItem
  | [] => []
  | inbound :: rest =>
      { priority := ((inbound.message.metadata.get "priority").bind Value.asF64).getD 0
        order, inbound } :: numbered (order + 1) rest

theorem order_of_mem_numbered {order : Nat} {inbounds : List Inbound} {item : QueueItem}
    (h : item ∈ numbered order inbounds) : order ≤ item.order := by
  induction inbounds generalizing order with
  | nil => cases h
  | cons inbound rest ih =>
      rcases List.mem_cons.mp h with rfl | hrest
      · exact Nat.le_refl _
      · have := ih hrest
        omega

theorem nodup_numbered (order : Nat) (inbounds : List Inbound) :
    ((numbered order inbounds).map QueueItem.order).Nodup := by
  induction inbounds generalizing order with
  | nil => exact List.nodup_nil
  | cons inbound rest ih =>
      refine List.nodup_cons.mpr ⟨?_, ih (order + 1)⟩
      intro hmem
      obtain ⟨item, hitem, horder⟩ := List.mem_map.mp hmem
      have hle := order_of_mem_numbered hitem
      simp only at horder
      omega

namespace Shell

variable {services : Services} {o : Oracle} {s t : Shell}

/-! ## The drain -/

/-- `while let Ok(inbound) = self.incoming.try_recv() { self.enqueue(inbound) }`. -/
def drained (s : Shell) : Shell :=
  s.incoming.foldl enqueue { s with incoming := [] }

theorem drained_cons {inbound : Inbound} {rest : List Inbound}
    (h : s.incoming = inbound :: rest) :
    s.drained = ({ s with incoming := rest }.enqueue inbound).drained := by
  simp only [drained, h, List.foldl_cons]
  rfl

/-- A field that `enqueue` leaves alone is the same after the drain. -/
theorem foldl_enqueue_same {α : Type} (field : Shell → α)
    (h : ∀ s inbound, field (enqueue s inbound) = field s) (s : Shell) (inbounds : List Inbound) :
    field (inbounds.foldl enqueue s) = field s := by
  induction inbounds generalizing s with
  | nil => rfl
  | cons inbound rest ih => exact (ih (s.enqueue inbound)).trans (h s inbound)

@[simp] theorem drained_incoming (s : Shell) : s.drained.incoming = [] :=
  foldl_enqueue_same Shell.incoming (fun _ _ => rfl) _ _

@[simp] theorem drained_pc (s : Shell) : s.drained.pc = s.pc :=
  foldl_enqueue_same Shell.pc (fun _ _ => rfl) _ _

@[simp] theorem drained_out (s : Shell) : s.drained.out = s.out :=
  foldl_enqueue_same Shell.out (fun _ _ => rfl) _ _

@[simp] theorem drained_log (s : Shell) : s.drained.log = s.log :=
  foldl_enqueue_same Shell.log (fun _ _ => rfl) _ _

@[simp] theorem drained_held (s : Shell) : s.drained.held = s.held :=
  foldl_enqueue_same Shell.held (fun _ _ => rfl) _ _

@[simp] theorem drained_active (s : Shell) : s.drained.active = s.active :=
  foldl_enqueue_same Shell.active (fun _ _ => rfl) _ _

@[simp] theorem drained_executionCount (s : Shell) : s.drained.executionCount = s.executionCount :=
  foldl_enqueue_same Shell.executionCount (fun _ _ => rfl) _ _

@[simp] theorem drained_started (s : Shell) : s.drained.started = s.started :=
  foldl_enqueue_same Shell.started (fun _ _ => rfl) _ _

theorem foldl_enqueue_queue (s : Shell) (inbounds : List Inbound) :
    (inbounds.foldl enqueue s).queue.items.Perm (s.queue.items ++ numbered s.order inbounds) := by
  induction inbounds generalizing s with
  | nil => simp [numbered]
  | cons inbound rest ih =>
      have hrest := ih (s.enqueue inbound)
      refine hrest.trans ?_
      simp only [enqueue, numbered]
      exact ((Heap.push_perm _ _).append_right _).trans List.perm_middle.symm

/-- The queue that `abort_pending` empties: what was queued and what was in
the channel, numbered as it arrived. -/
theorem drained_queue (s : Shell) :
    s.drained.queue.items.Perm (s.queue.items ++ numbered s.order s.incoming) :=
  foldl_enqueue_queue { s with incoming := [] } s.incoming

/-! ## Arrival numbers -/

/-- The arrival numbers of the queue are distinct, and are given out. -/
structure Numbered (s : Shell) : Prop where
  nodup : (s.queue.items.map QueueItem.order).Nodup
  below : ∀ item ∈ s.queue.items, item.order < s.order

theorem numbered_of_reachable (h : Reachable services s) : s.Numbered where
  nodup := nodup_queue_orders (accounts_of_reachable h)
  below item hmem := by
    have ha := accounts_of_reachable h
    exact order_lt_of_mem_taken ha (mem_taken_of_mem_waiting ha (List.mem_append_left _ hmem))

theorem Numbered.drained (h : s.Numbered) :
    (s.drained.queue.items.map QueueItem.order).Nodup := by
  have hperm := s.drained_queue.map QueueItem.order
  refine hperm.symm.nodup ?_
  rw [List.map_append]
  refine h.nodup.append (nodup_numbered _ _) ?_
  intro n hqueue hnew
  obtain ⟨a, ha, rfl⟩ := List.mem_map.mp hqueue
  obtain ⟨b, hb, horder⟩ := List.mem_map.mp hnew
  have hbelow := h.below a ha
  have hle := order_of_mem_numbered hb
  omega

/-! ## The run -/

/-- The scheduler takes in one message in each step. -/
theorem run_drain {release : Option Nat} {resume : Resume} (inbounds : List Inbound) :
    ∀ {s : Shell}, s.incoming = inbounds → s.pc = .abort release resume → s.out = [] →
      run (step services) s (List.replicate inbounds.length (.next o)) = some s.drained := by
  induction inbounds with
  | nil =>
      intro s hin _ _
      have hsame : s.drained = s := by
        cases s
        simp only at hin
        subst hin
        rfl
      rw [hsame]
      rfl
  | cons inbound rest ih =>
      intro s hin hpc hout
      have hstep : step services s (.next o) =
          some ({ s with incoming := rest }.enqueue inbound) := by
        simp [step, hout, Shell.next, hpc, hin]
      rw [drained_cons hin]
      exact run_cons_eq_some.mpr ⟨_, hstep, ih rfl hpc hout⟩

/-- The scheduler sends one message in each step. -/
theorem run_emit (es : List (Nat × Emission)) :
    ∀ {s : Shell}, s.out = es → run (step services) s (List.replicate es.length .emit) =
      some { s with out := [], log := s.log ++ es } := by
  induction es with
  | nil =>
      intro s hout
      cases s
      simp only at hout
      subst hout
      simp
  | cons e es ih =>
      intro s hout
      have hstep : step services s .emit = some { s with out := es, log := s.log ++ [e] } := by
        simp [step, hout]
      refine run_cons_eq_some.mpr ⟨_, hstep, ?_⟩
      rw [ih rfl]
      simp

/-- `abort_pending` alone: one step for each message of the channel, one to
empty the queue, and one for each message to send. -/
def abortRun (o : Oracle) (s : Shell) : List Label :=
  List.replicate s.incoming.length (Label.next o) ++ Label.next o ::
    List.replicate (3 * (s.drained.queue.items.filter QueueItem.isExecute).length) Label.emit

theorem length_aborts (count : Nat) (items : List QueueItem) :
    (items.flatMap (fun item => tag item (abortExecute count))).length = 3 * items.length := by
  induction items with
  | nil => rfl
  | cons item items ih =>
      simp only [List.flatMap_cons, List.length_append, ih, List.length_cons]
      simp [tag, abortExecute]
      omega

theorem run_abortRun {release : Option Nat} {resume : Resume}
    (hpc : s.pc = .abort release resume) (hout : s.out = []) :
    run (step services) s (abortRun o s) = some { s.drained.abortQueued release resume with
      out := []
      log := s.log ++ (s.drained.queue.items.filter QueueItem.isExecute).flatMap
        (fun item => tag item (abortExecute s.executionCount)) } := by
  have hstep : step services s.drained (.next o) = some (s.drained.abortQueued release resume) := by
    simp [step, Shell.next, hpc, hout]
  have hsent : (s.drained.abortQueued release resume).out =
      (s.drained.queue.items.filter QueueItem.isExecute).flatMap
        (fun item => tag item (abortExecute s.executionCount)) := by
    simp [abortQueued, abortQueue_aborted, hout]
  have hemit := @run_emit services _ _ hsent
  rw [length_aborts] at hemit
  refine run_append_eq_some.mpr ⟨_, run_drain _ rfl hpc hout, ?_⟩
  refine run_cons_eq_some.mpr ⟨_, hstep, ?_⟩
  rw [hemit]
  simp [abortQueued]

/-- For every queue and every content of the incoming channel, `abort_pending`
answers each execute request of both with busy, one aborted reply and idle, in
the order of the queue, starts nothing, and keeps everything else as it was
numbered. When the arrival numbers are distinct, as they always are, what is
kept is in the order it would have been popped in. -/
theorem abort_pending_aborts_waiting {release : Option Nat} {resume : Resume}
    (hpc : s.pc = .abort release resume) (hout : s.out = []) :
    ∃ (waiting : List QueueItem) (t : Shell), run (step services) s (abortRun o s) = some t ∧
      waiting.Perm (s.queue.items ++ numbered s.order s.incoming) ∧
      waiting.Pairwise QueueItem.before ∧
      t.log = s.log ++ (waiting.filter QueueItem.isExecute).flatMap
        (fun item => tag item (abortExecute s.executionCount)) ∧
      t.queue.items.Perm (waiting.filter (fun item => !item.isExecute)) ∧
      (s.Numbered → waiting.Pairwise QueueItem.precedes ∧
        t.queue.items = waiting.filter (fun item => !item.isExecute)) ∧
      t.incoming = [] ∧ t.out = [] ∧ t.started = s.started ∧ t.held = s.held ∧
      t.active = s.active ∧ t.executionCount = s.executionCount ∧
      t.pc = release.elim resume.pc (fun complete => .answer complete resume) := by
  have hrun := @run_abortRun services o s release resume hpc hout
  refine ⟨s.drained.queue.items, _, hrun, s.drained_queue, s.drained.queue.sorted, rfl, ?_, ?_, ?_⟩
  · have hperm := abortQueue_perm s.drained.queue
    rw [abortQueue_aborted] at hperm
    have hsplit := (List.filter_append_perm QueueItem.isExecute s.drained.queue.items).symm
    exact (List.perm_append_left_iff _).mp (hperm.symm.trans hsplit)
  · intro hnumbered
    exact ⟨pairwise_precedes s.drained.queue.sorted hnumbered.drained,
      abortQueue_kept hnumbered.drained⟩
  · cases release <;> simp [abortQueued]

/-- A comm message of an unknown target. -/
def commMessage (msgId : String) : Inbound :=
  { message :=
      { header := [("msg_id", .string msgId), ("msg_type", .string "comm_msg")]
        content := .object [("comm_id", .string "c"), ("data", .object [])] }
    reply := 0
    identity := [] }

/-- A hold is released with an error while a comm message and two cells are in
the channel; the answer of the hold is sent. -/
def releaseOverChannel : List Label :=
  let release : List Label := [.control (.release "a" "error" 0), .next quiet, .next quiet]
  let arrive : List Label :=
    [.deliver (commMessage "m"), .deliver (cell "b" 0 false), .deliver (cell "c" 1 false)]
  parkCell (cell "a" 0 true) ++ release ++ arrive ++ List.replicate 3 Label.emit

/-- The shell is about to abort for its first release, with nothing to send. -/
def abortsRelease (s : Shell) : Bool :=
  match s.pc with
  | .abort (some 0) .controls => s.out.isEmpty
  | _ => false

theorem abortsRelease_spec {s : Shell} (h : s.abortsRelease = true) :
    s.pc = .abort (some 0) .controls ∧ s.out = [] := by
  unfold abortsRelease at h
  split at h
  · next hpc => exact ⟨hpc, List.isEmpty_iff.mp h⟩
  · cases h

/-- The cell of higher priority is aborted first, and the comm message stays. -/
theorem abort_pending_aborts_waiting_channel :
    ∃ s t, run (step plainServices) {} releaseOverChannel = some s ∧
      run (step plainServices) s (abortRun quiet s) = some t ∧ s.Numbered ∧
      t.queue.items.map QueueItem.order = [1] ∧ repliesIn t.log = [0, 3, 2] ∧
      ∃ waiting : List QueueItem, waiting.Pairwise QueueItem.precedes ∧
        t.queue.items = waiting.filter (fun item => !item.isExecute) := by
  have hview : ((run (step plainServices) {} releaseOverChannel).bind
      (fun s => (run (step plainServices) s (abortRun quiet s)).map (fun t =>
        (s.abortsRelease, t.queue.items.map QueueItem.order, repliesIn t.log)))) =
      some (true, [1], [0, 3, 2]) := by
    decide
  obtain ⟨s, hs, hrest⟩ := Option.bind_eq_some_iff.mp hview
  obtain ⟨t, ht, hview⟩ := Option.map_eq_some_iff.mp hrest
  simp only [Prod.mk.injEq] at hview
  obtain ⟨hat, hkept, hreplies⟩ := hview
  have hpc := abortsRelease_spec hat
  have hnumbered : s.Numbered := numbered_of_reachable ⟨_, hs⟩
  obtain ⟨waiting, t', ht', _, _, _, _, hdistinct, _⟩ :=
    @abort_pending_aborts_waiting plainServices quiet s _ _ hpc.1 hpc.2
  rw [ht] at ht'
  cases ht'
  exact ⟨s, t, hs, ht, hnumbered, hkept, hreplies, waiting, hdistinct hnumbered⟩

end Shell

end Kernmini.Engine
