/-
Kernmini.Engine.Queue — the shell's queue: `QueueItem` with its order,
the heap over it, `pop_runnable`, and the partition `abort_pending` makes.

An item is ordered by priority, then by earlier arrival. `before` is the
relation `cmp` induces on the heap (`a` is popped no later than `b`), and
it is total and transitive, so `BinaryHeap<QueueItem>` is `Lib.Heap
before`. The arrival number `order` also names the request: it is
assigned once, by `enqueue`.
-/
import Kernmini.Lib.Heap
import Kernmini.Engine.Replies

namespace Kernmini.Engine

open Kernmini.Wire Kernmini.Lib

/-! ## Items and their order -/

/-- `QueueItem`. -/
structure QueueItem where
  priority : ℚ
  order : Nat
  inbound : Inbound

namespace QueueItem

def request (item : QueueItem) : Message := item.inbound.message

def isExecute (item : QueueItem) : Bool := item.request.isExecute

def isRequest (item : QueueItem) : Bool := item.request.isRequest

/-- `Ord for QueueItem`: the greater item is the one popped first. -/
def cmp (a b : QueueItem) : Ordering :=
  (compare a.priority b.priority).then (compare b.order a.order)

/-- `a` is popped no later than `b`. -/
def before (a b : QueueItem) : Prop := a.cmp b ≠ .lt

instance : DecidableRel before := fun a b => inferInstanceAs (Decidable (a.cmp b ≠ .lt))

theorem before_iff {a b : QueueItem} :
    a.before b ↔ b.priority < a.priority ∨ (a.priority = b.priority ∧ a.order ≤ b.order) := by
  unfold before cmp
  rcases lt_trichotomy a.priority b.priority with h | h | h
  · simp [compare_lt_iff_lt.mpr h, h.not_gt, h.ne]
  · rw [h, compare_eq_iff_eq.mpr rfl]
    simp [compare_lt_iff_lt, Ordering.then]
  · simp [compare_gt_iff_gt.mpr h, h]

instance : Std.Total before where
  total a b := by
    rw [before_iff, before_iff]
    rcases lt_trichotomy a.priority b.priority with h | h | h
    · exact Or.inr (Or.inl h)
    · rcases Nat.le_total a.order b.order with ho | ho
      · exact Or.inl (Or.inr ⟨h, ho⟩)
      · exact Or.inr (Or.inr ⟨h.symm, ho⟩)
    · exact Or.inl (Or.inl h)

instance : IsTrans QueueItem before where
  trans a b c := by
    rw [before_iff, before_iff, before_iff]
    rintro (h | ⟨h, ho⟩) (h' | ⟨h', ho'⟩)
    · exact Or.inl (h'.trans h)
    · exact Or.inl (h' ▸ h)
    · exact Or.inl (h ▸ h')
    · exact Or.inr ⟨h.trans h', ho.trans ho'⟩

end QueueItem

/-- `BinaryHeap<QueueItem>`. -/
abbrev Queue := Heap QueueItem.before

/-! ## `pop_runnable` -/

/-- The test of `pop_runnable`: everything but an execute request may run
at once; an execute request waits for the active execution and for a hold
of its own priority or above. -/
def runnable (executionActive : Bool) (held : Option QueueItem) (item : QueueItem) : Bool :=
  !item.isExecute ||
    (!executionActive &&
      match held with
      | none => true
      | some hold => decide (hold.priority < item.priority))

/-- The loop of `pop_runnable`: pop, and park what may not run. -/
def popRunnableLoop (executionActive : Bool) (held : Option QueueItem) :
    (items : List QueueItem) → items.Pairwise QueueItem.before → List QueueItem →
      Option QueueItem × Queue × List QueueItem
  | [], hs, parked => (none, ⟨[], hs⟩, parked)
  | item :: rest, hs, parked =>
      if runnable executionActive held item then (some item, ⟨rest, hs.of_cons⟩, parked)
      else popRunnableLoop executionActive held rest hs.of_cons (parked ++ [item])

/-- `pop_runnable`: the item that may run, and the queue left behind. -/
def popRunnable (queue : Queue) (executionActive : Bool) (held : Option QueueItem) :
    Option QueueItem × Queue :=
  match popRunnableLoop executionActive held queue.items queue.sorted [] with
  | (found, rest, parked) => (found, rest.extend parked)

theorem popRunnableLoop_spec (active : Bool) (held : Option QueueItem) :
    ∀ (items : List QueueItem) (hs : items.Pairwise QueueItem.before)
      (parked : List QueueItem) {found : Option QueueItem} {rest : Queue}
      {parked' : List QueueItem},
      popRunnableLoop active held items hs parked = (found, rest, parked') →
        (parked ++ items).Perm (found.toList ++ (parked' ++ rest.items)) ∧
          (∀ item ∈ found, runnable active held item = true)
  | [], hs, parked, found, rest, parked' => by
      intro h
      simp only [popRunnableLoop, Prod.mk.injEq] at h
      obtain ⟨rfl, rfl, rfl⟩ := h
      simp
  | item :: items, hs, parked, found, rest, parked' => by
      intro h
      simp only [popRunnableLoop] at h
      split at h
      · next hrun =>
          simp only [Prod.mk.injEq] at h
          obtain ⟨rfl, rfl, rfl⟩ := h
          refine ⟨?_, by simpa using hrun⟩
          exact List.perm_middle
      · obtain ⟨hperm, hfound⟩ := popRunnableLoop_spec active held items hs.of_cons _ h
        refine ⟨?_, hfound⟩
        simpa using hperm

/-- `pop_runnable` takes out one item at most and keeps all the others. -/
theorem popRunnable_perm {queue rest : Queue} {active : Bool} {held found : Option QueueItem}
    (h : popRunnable queue active held = (found, rest)) :
    queue.items.Perm (found.toList ++ rest.items) := by
  unfold popRunnable at h
  split at h
  next found' left parked hloop =>
    simp only [Prod.mk.injEq] at h
    obtain ⟨rfl, rfl⟩ := h
    have hp := (popRunnableLoop_spec active held _ _ _ hloop).1
    exact hp.trans ((Heap.extend_perm left parked).symm.append_left _)

/-- What `pop_runnable` returns passed its test. -/
theorem popRunnable_runnable {queue rest : Queue} {active : Bool} {held : Option QueueItem}
    {item : QueueItem} (h : popRunnable queue active held = (some item, rest)) :
    runnable active held item = true := by
  unfold popRunnable at h
  split at h
  next found' left parked hloop =>
    simp only [Prod.mk.injEq] at h
    obtain ⟨rfl, rfl⟩ := h
    exact (popRunnableLoop_spec active held _ _ _ hloop).2 item rfl

/-- An execute request that passed the test found no execution active and
outranks the hold. -/
theorem runnable_execute {active : Bool} {held : Option QueueItem} {item : QueueItem}
    (h : runnable active held item = true) (he : item.isExecute = true) :
    active = false ∧ ∀ hold ∈ held, hold.priority < item.priority := by
  cases held <;> simp_all [runnable]

/-! ## `abort_pending` -/

/-- The second loop of `abort_pending`: pop everything, set aside what is
not an execute request. -/
def abortLoop : List QueueItem → List QueueItem → List QueueItem →
    List QueueItem × List QueueItem
  | [], aborted, keep => (aborted, keep)
  | item :: rest, aborted, keep =>
      if item.isExecute then abortLoop rest (aborted ++ [item]) keep
      else abortLoop rest aborted (keep ++ [item])

/-- The execute requests `abort_pending` answers, in the order it pops
them, and the queue it leaves. -/
def abortQueue (queue : Queue) : List QueueItem × Queue :=
  match abortLoop queue.items [] [] with
  | (aborted, keep) => (aborted, Heap.empty.extend keep)

theorem abortLoop_eq : ∀ (items aborted keep : List QueueItem),
    abortLoop items aborted keep =
      (aborted ++ items.filter QueueItem.isExecute,
        keep ++ items.filter (fun item => !item.isExecute))
  | [], aborted, keep => by simp [abortLoop]
  | item :: items, aborted, keep => by
      by_cases h : item.isExecute <;> simp [abortLoop, h, abortLoop_eq items]

theorem abortQueue_aborted (queue : Queue) :
    (abortQueue queue).1 = queue.items.filter QueueItem.isExecute := by
  simp [abortQueue, abortLoop_eq]

/-- Every item is either aborted or kept. -/
theorem abortQueue_perm (queue : Queue) :
    queue.items.Perm ((abortQueue queue).1 ++ (abortQueue queue).2.items) := by
  have hkeep : (abortQueue queue).2.items.Perm
      (queue.items.filter (fun item => !item.isExecute)) := by
    simpa [abortQueue, abortLoop_eq, Heap.empty] using
      Heap.extend_perm (Heap.empty : Queue) (queue.items.filter (fun item => !item.isExecute))
  rw [abortQueue_aborted]
  exact (List.filter_append_perm QueueItem.isExecute queue.items).symm.trans
    (hkeep.symm.append_left _)

end Kernmini.Engine
