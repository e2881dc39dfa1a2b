/-
Kernmini.Lib.Heap — a max-heap seen through what its interface shows:
`push`, `pop`, `extend`.

A heap over a total and transitive relation `r` (read `r a b` as "a is
popped no later than b") is the list of its items in the order `pop`
returns them. The order is a field of the structure, so no value of the
type can pop anything but a maximum, and a loop that pops until the heap
is empty is a structural recursion on `items`.
-/
import Mathlib.Data.List.Sort

namespace Kernmini.Lib

variable {α : Type*} {r : α → α → Prop}

/-- A heap whose items are popped in the order `r`. -/
structure Heap (r : α → α → Prop) where
  items : List α
  sorted : items.Pairwise r

namespace Heap

def empty : Heap r := ⟨[], List.Pairwise.nil⟩

def isEmpty (h : Heap r) : Bool := h.items.isEmpty

/-- The first item in the order `r`, and the heap without it. -/
def pop (h : Heap r) : Option (α × Heap r) :=
  match h with
  | ⟨[], _⟩ => none
  | ⟨a :: rest, hs⟩ => some (a, ⟨rest, hs.of_cons⟩)

section Push

variable [DecidableRel r] [Std.Total r] [IsTrans α r]

def push (h : Heap r) (a : α) : Heap r :=
  ⟨h.items.orderedInsert r a, h.sorted.orderedInsert a _⟩

/-- Push every item of the list, in turn. -/
def extend (h : Heap r) (xs : List α) : Heap r :=
  xs.foldl push h

theorem push_perm (h : Heap r) (a : α) : (h.push a).items.Perm (a :: h.items) :=
  List.perm_orderedInsert r a h.items

@[simp] theorem mem_push {h : Heap r} {a b : α} :
    b ∈ (h.push a).items ↔ b = a ∨ b ∈ h.items := by
  simp [push]

theorem extend_perm (h : Heap r) (xs : List α) :
    (h.extend xs).items.Perm (xs ++ h.items) := by
  induction xs generalizing h with
  | nil => exact List.Perm.refl _
  | cons x xs ih =>
    have h1 := ih (h.push x)
    have h2 : (xs ++ (h.push x).items).Perm (xs ++ x :: h.items) :=
      (push_perm h x).append_left xs
    exact (h1.trans h2).trans List.perm_middle

/-- An item that comes before none of the others goes to the end. -/
theorem push_last (h : Heap r) {a : α} (ha : ∀ b ∈ h.items, ¬ r a b) :
    (h.push a).items = h.items ++ [a] := by
  have hinsert : ∀ l : List α, (∀ b ∈ l, ¬ r a b) → l.orderedInsert r a = l ++ [a] := by
    intro l hl
    induction l with
    | nil => rfl
    | cons b l ih =>
      rw [List.orderedInsert_cons, if_neg (hl b List.mem_cons_self),
        ih (fun c hc => hl c (List.mem_cons_of_mem b hc)), List.cons_append]
  exact hinsert h.items ha

/-- Items that are pushed in their strict order stay in it. -/
theorem extend_sorted (h : Heap r) {xs : List α}
    (hxs : (h.items ++ xs).Pairwise (fun a b => ¬ r b a)) : (h.extend xs).items = h.items ++ xs := by
  induction xs generalizing h with
  | nil => simp [extend]
  | cons x xs ih =>
    have hpush : (h.push x).items = h.items ++ [x] :=
      push_last h (fun b hb => (List.pairwise_append.mp hxs).2.2 b hb x List.mem_cons_self)
    have hrest := ih (h.push x) (by simpa [hpush] using hxs)
    calc (h.extend (x :: xs)).items = ((h.push x).extend xs).items := rfl
      _ = h.items ++ (x :: xs) := by rw [hrest, hpush]; simp

end Push

end Heap

end Kernmini.Lib
