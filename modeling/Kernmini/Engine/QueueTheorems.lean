/-
Kernmini.Engine.QueueTheorems — what `pop_runnable` picks, and what
`abort_pending` does with a queue.

Both loops pop the heap from the front. The first stops at the first item
that may run, so what it finds is `find?` on the items in their pop order;
the second goes through to the end, so what it leaves is a `filter`. That
the parked or kept items come back in the order they had rests on their
arrival numbers being distinct.
-/
import Kernmini.Engine.Queue

namespace Kernmini.Engine

open Kernmini.Wire Kernmini.Lib

/-! ## The order of the queue -/

/-- Higher priority, or the same and an earlier arrival. -/
def QueueItem.precedes (a b : QueueItem) : Prop :=
  b.priority < a.priority ∨ (a.priority = b.priority ∧ a.order < b.order)

theorem QueueItem.precedes_of_before {a b : QueueItem} (h : a.before b) (hne : a.order ≠ b.order) :
    a.precedes b := by
  rcases before_iff.mp h with hpriority | ⟨hpriority, horder⟩
  · exact .inl hpriority
  · exact .inr ⟨hpriority, by omega⟩

theorem QueueItem.not_before_of_precedes {a b : QueueItem} (h : a.precedes b) : ¬ b.before a := by
  rw [before_iff]
  rintro (hpriority | ⟨hpriority, horder⟩)
  · rcases h with h | ⟨h, -⟩
    · exact absurd (h.trans hpriority) (lt_irrefl _)
    · exact absurd (h ▸ hpriority) (lt_irrefl _)
  · rcases h with h | ⟨-, h⟩
    · exact absurd (hpriority ▸ h) (lt_irrefl _)
    · omega

/-- With distinct arrival numbers the queue is popped in the strict order. -/
theorem pairwise_precedes {items : List QueueItem} (hsorted : items.Pairwise QueueItem.before)
    (hnodup : (items.map QueueItem.order).Nodup) : items.Pairwise QueueItem.precedes := by
  have hne : items.Pairwise (fun a b => a.order ≠ b.order) := List.pairwise_map.mp hnodup
  refine (hsorted.and hne).imp ?_
  intro a b h
  exact QueueItem.precedes_of_before h.1 h.2

/-! ## `pop_runnable` -/

/-- An execute request waits: an execution is active, or a hold is not below it. -/
def Blocked (executionActive : Bool) (held : Option QueueItem) (item : QueueItem) : Prop :=
  executionActive = true ∨ ∃ hold ∈ held, item.priority ≤ hold.priority

theorem runnable_eq_false_iff {active : Bool} {held : Option QueueItem} {item : QueueItem} :
    runnable active held item = false ↔ item.isExecute = true ∧ Blocked active held item := by
  unfold runnable Blocked
  cases held with
  | none => simp
  | some hold => cases active <;> simp

theorem runnable_iff {active : Bool} {held : Option QueueItem} {item : QueueItem} :
    runnable active held item = true ↔ item.isExecute = false ∨ ¬ Blocked active held item := by
  rw [← Bool.not_eq_false, runnable_eq_false_iff, not_and_or, Bool.not_eq_true]

theorem popRunnableLoop_found (active : Bool) (held : Option QueueItem) (items : List QueueItem)
    (hs : items.Pairwise QueueItem.before) (parked : List QueueItem) :
    (popRunnableLoop active held items hs parked).1 = items.find? (runnable active held) := by
  induction items generalizing parked with
  | nil => rfl
  | cons item rest ih =>
      simp only [popRunnableLoop, List.find?_cons]
      cases h : runnable active held item with
      | true => simp
      | false => simpa using ih hs.of_cons (parked ++ [item])

theorem popRunnable_found (queue : Queue) (active : Bool) (held : Option QueueItem) :
    (popRunnable queue active held).1 = queue.items.find? (runnable active held) := by
  have hloop := popRunnableLoop_found active held queue.items queue.sorted []
  unfold popRunnable
  split
  next found rest parked h =>
    rw [h] at hloop
    exact hloop

/-- What is picked comes before everything else that may run. -/
theorem precedes_of_find {items : List QueueItem} {p : QueueItem → Bool} {item other : QueueItem}
    (hsorted : items.Pairwise QueueItem.precedes) (hfind : items.find? p = some item)
    (hother : other ∈ items) (hp : p other = true) (hne : other ≠ item) : item.precedes other := by
  obtain ⟨_, front, rest, rfl, hfront⟩ := List.find?_eq_some_iff_append.mp hfind
  have hrest : other ∈ rest := by
    rcases List.mem_append.mp hother with hmem | hmem
    · have hnot := hfront other hmem
      rw [hp] at hnot
      cases hnot
    · exact (List.mem_cons.mp hmem).resolve_left hne
  have htail := (List.pairwise_append.mp hsorted).2.1
  exact List.rel_of_pairwise_cons htail hrest

/-- An execute request that may run has no execute request in front of it: one
that waits is blocked by the hold, which is below what may run. -/
theorem precedes_of_execute {items : List QueueItem} {active : Bool} {held : Option QueueItem}
    {item other : QueueItem} (hsorted : items.Pairwise QueueItem.precedes)
    (hfind : items.find? (runnable active held) = some item) (hex : item.isExecute = true)
    (hother : other ∈ items) (hne : other ≠ item) : item.precedes other := by
  cases hrun : runnable active held other with
  | true => exact precedes_of_find hsorted hfind hother hrun hne
  | false =>
      obtain ⟨hactive, habove⟩ := runnable_execute (List.find?_some hfind) hex
      obtain ⟨_, hblocked⟩ := runnable_eq_false_iff.mp hrun
      rcases hblocked with htrue | ⟨hold, hheld, hle⟩
      · rw [hactive] at htrue
        cases htrue
      · exact .inl (hle.trans_lt (habove hold hheld))

/-- For every queue with distinct arrival numbers: nothing is returned exactly
when every item is an execute request that is blocked; what is returned is the
first of the others in the order of the queue, and an execute request is also
first of the execute requests; and all other items stay. -/
theorem pop_runnable_picks (queue : Queue) (active : Bool) (held : Option QueueItem)
    (hnodup : (queue.items.map QueueItem.order).Nodup) :
    ((popRunnable queue active held).1 = none ↔
      ∀ item ∈ queue.items, item.isExecute = true ∧ Blocked active held item) ∧
    (∀ item, (popRunnable queue active held).1 = some item →
      item ∈ queue.items ∧ (item.isExecute = false ∨ ¬ Blocked active held item) ∧
      (∀ other ∈ queue.items, (other.isExecute = false ∨ ¬ Blocked active held other) →
        other ≠ item → item.precedes other) ∧
      (item.isExecute = true → ∀ other ∈ queue.items, other.isExecute = true → other ≠ item →
        item.precedes other)) ∧
    queue.items.Perm
      ((popRunnable queue active held).1.toList ++ (popRunnable queue active held).2.items) := by
  have hsorted := pairwise_precedes queue.sorted hnodup
  refine ⟨?_, ?_, popRunnable_perm rfl⟩
  · rw [popRunnable_found, List.find?_eq_none]
    constructor
    · intro h item hmem
      exact runnable_eq_false_iff.mp (by simpa using h item hmem)
    · intro h item hmem
      rw [runnable_eq_false_iff.mpr (h item hmem)]
      simp
  · intro item hfound
    rw [popRunnable_found] at hfound
    refine ⟨List.mem_of_find?_eq_some hfound, runnable_iff.mp (List.find?_some hfound), ?_, ?_⟩
    · intro other hother hfree hne
      exact precedes_of_find hsorted hfound hother (runnable_iff.mpr hfree) hne
    · intro hex other hother _ hne
      exact precedes_of_execute hsorted hfound hex hother hne

/-- A message of this type, with its place in the queue. -/
def queued (msgType : String) (priority : ℚ) (order : Nat) : QueueItem :=
  { priority, order
    inbound := { message := { header := [("msg_type", .string msgType)] }, reply := 0, identity := [] } }

/-- Two cells around a hold of priority 1, and a message of another type. -/
def holdQueue : Queue :=
  Heap.empty.extend
    [queued "execute_request" 1 0, queued "execute_request" 2 1, queued "comm_msg" 0 2]

/-- The cell above the hold is picked. -/
theorem pop_runnable_picks_above_hold :
    ((popRunnable holdQueue false (some (queued "execute_request" 1 9))).1.map QueueItem.order) =
        some 1 ∧
      ∀ item, (popRunnable holdQueue false (some (queued "execute_request" 1 9))).1 = some item →
        ∀ other ∈ holdQueue.items, other.isExecute = true → other ≠ item → item.precedes other := by
  have hpicks := pop_runnable_picks holdQueue false (some (queued "execute_request" 1 9)) (by decide)
  refine ⟨by decide, ?_⟩
  intro item hitem other hother hex hne
  have hexecute : item.isExecute = true := by
    have hview : (popRunnable holdQueue false (some (queued "execute_request" 1 9))).1.map
        QueueItem.isExecute = some true := by decide
    rw [hitem] at hview
    exact Option.some.inj hview
  exact (hpicks.2.1 item hitem).2.2.2 hexecute other hother hex hne

/-! ## `abort_pending` -/

/-- What is kept stays in the order it had. -/
theorem abortQueue_kept {queue : Queue} (hnodup : (queue.items.map QueueItem.order).Nodup) :
    (abortQueue queue).2.items = queue.items.filter (fun item => !item.isExecute) := by
  have hsorted := pairwise_precedes queue.sorted hnodup
  have hkeep : (queue.items.filter (fun item => !item.isExecute)).Pairwise
      (fun a b => ¬ b.before a) :=
    (hsorted.imp QueueItem.not_before_of_precedes).filter _
  have hextend := Heap.extend_sorted (Heap.empty : Queue) (by simpa [Heap.empty] using hkeep)
  simpa [abortQueue, abortLoop_eq, Heap.empty] using hextend

end Kernmini.Engine
