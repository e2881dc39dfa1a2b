/-
Kernmini.Lib.SwapRemove — removal from a vector by moving its last element
into the hole.

A loop that keeps or swap-removes the element at its index goes through
every element once: the part before the index is left alone
(`take_swapRemove`), and the rest loses the one element
(`swapRemove_perm`).
-/
import Mathlib.Data.List.Perm.Basic

namespace Kernmini.Lib

variable {α : Type*}

/-- Remove the element at `i`; the last element takes its place. -/
def swapRemove (xs : List α) (i : Nat) : List α :=
  match xs.getLast? with
  | none => []
  | some last => (xs.set i last).dropLast

theorem swapRemove_last (xs : List α) (x : α) : swapRemove (xs ++ [x]) xs.length = xs := by
  simp [swapRemove]

theorem swapRemove_middle (xs ys : List α) (x y : α) :
    swapRemove (xs ++ x :: (ys ++ [y])) xs.length = xs ++ y :: ys := by
  have hlast : (xs ++ x :: (ys ++ [y])).getLast? = some y := by
    rw [← List.cons_append, ← List.append_assoc, List.getLast?_concat]
  simp only [swapRemove, hlast, List.set_append_right _ _ (Nat.le_refl _), Nat.sub_self,
    List.set_cons_zero]
  rw [← List.cons_append, ← List.append_assoc, List.dropLast_concat]

/-- The two shapes of a list around its element at `i`. -/
theorem swapRemove_cases {xs : List α} {i : Nat} {x : α} (h : xs[i]? = some x) :
    (xs = xs.take i ++ [x] ∧ swapRemove xs i = xs.take i) ∨
      ∃ ys y, xs = xs.take i ++ x :: (ys ++ [y]) ∧ swapRemove xs i = xs.take i ++ y :: ys := by
  obtain ⟨hi, hx⟩ := List.getElem?_eq_some_iff.mp h
  have hlen : (xs.take i).length = i := List.length_take_of_le (Nat.le_of_lt hi)
  have hsplit : xs = xs.take i ++ x :: xs.drop (i + 1) := by
    rw [← hx, ← List.drop_eq_getElem_cons hi, List.take_append_drop]
  rcases List.eq_nil_or_concat (xs.drop (i + 1)) with hnil | ⟨ys, y, hys⟩
  · refine .inl ⟨by rw [hnil] at hsplit; exact hsplit, ?_⟩
    have hlast := swapRemove_last (xs.take i) x
    rw [hlen] at hlast
    rw [hnil] at hsplit
    rw [hsplit, hlast]
    simp [hlen]
  · rw [List.concat_eq_append] at hys
    refine .inr ⟨ys, y, by rw [hys] at hsplit; exact hsplit, ?_⟩
    have hmiddle := swapRemove_middle (xs.take i) ys x y
    rw [hlen] at hmiddle
    rw [hys] at hsplit
    rw [hsplit, hmiddle]
    simp [hlen]

theorem swapRemove_perm {xs : List α} {i : Nat} {x : α} (h : xs[i]? = some x) :
    (x :: swapRemove xs i).Perm xs := by
  rcases swapRemove_cases h with ⟨hxs, hremove⟩ | ⟨ys, y, hxs, hremove⟩
  · rw [hremove]
    nth_rewrite 2 [hxs]
    exact (List.perm_append_singleton x _).symm
  · rw [hremove]
    nth_rewrite 2 [hxs]
    have hys : (y :: ys).Perm (ys ++ [y]) := (List.perm_append_singleton y ys).symm
    exact (List.perm_middle.symm).trans ((hys.cons x).append_left _)

theorem take_swapRemove {xs : List α} {i : Nat} {x : α} (h : xs[i]? = some x) :
    (swapRemove xs i).take i = xs.take i := by
  obtain ⟨hi, _⟩ := List.getElem?_eq_some_iff.mp h
  have hlen : (xs.take i).length = i := List.length_take_of_le (Nat.le_of_lt hi)
  rcases swapRemove_cases h with ⟨_, hremove⟩ | ⟨ys, y, _, hremove⟩
  · rw [hremove, List.take_take, Nat.min_self]
  · rw [hremove, List.take_left' hlen]

end Kernmini.Lib
