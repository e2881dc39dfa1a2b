/-
Kernmini.Lib.SelfDelimiting — words that show where they end.

A reader goes over a text one letter at a time and is done at some of its
states. A word that leaves the reader done at its last letter and not
before is found again in front of any continuation (`Ends.append_inj`).
-/
import Mathlib.Data.List.Basic

namespace Kernmini.Lib

variable {α S : Type*}

/-- A reader: what it becomes with the next letter, and whether it is done. -/
structure Reader (α S : Type*) where
  next : S → α → S
  done : S → Bool

namespace Reader

variable (r : Reader α S)

/-- Reading the word leads from `s` to `t`, and the reader is not done
before the end of the word. -/
def Through : S → List α → S → Prop
  | s, [], t => s = t
  | s, a :: word, t => r.done s = false ∧ Through (r.next s a) word t

/-- The reader is done at the end of the word and not before. -/
def Ends : S → List α → Prop
  | s, [] => r.done s = true
  | s, a :: word => r.done s = false ∧ Ends (r.next s a) word

variable {r} {s t u : S} {word word' rest rest' : List α}

theorem Through.append (h : r.Through s word t) (h' : r.Through t word' u) :
    r.Through s (word ++ word') u := by
  induction word generalizing s with
  | nil =>
      cases h
      exact h'
  | cons a word ih => exact ⟨h.1, ih h.2⟩

theorem Through.ends (h : r.Through s word t) (h' : r.Ends t word') : r.Ends s (word ++ word') := by
  induction word generalizing s with
  | nil =>
      cases h
      exact h'
  | cons a word ih => exact ⟨h.1, ih h.2⟩

/-- Letters that leave the reader where it is. -/
theorem through_of_stays (hdone : r.done s = false) (h : ∀ a ∈ word, r.next s a = s) :
    r.Through s word s := by
  induction word with
  | nil => rfl
  | cons a word ih =>
      refine ⟨hdone, ?_⟩
      rw [h a (List.mem_cons_self ..)]
      exact ih fun b hb => h b (List.mem_cons_of_mem _ hb)

/-- A list of words that each lead back to where they begin. -/
theorem through_flatten {words : List (List α)} (h : ∀ word ∈ words, r.Through s word s) :
    r.Through s words.flatten s := by
  induction words with
  | nil => rfl
  | cons word words ih =>
      rw [List.flatten_cons]
      exact (h word (List.mem_cons_self ..)).append
        (ih fun word' hmem => h word' (List.mem_cons_of_mem _ hmem))

/-- Two words at the front of one text, both with their end, are the same. -/
theorem Ends.append_inj (h : r.Ends s word) (h' : r.Ends s word')
    (heq : word ++ rest = word' ++ rest') : word = word' ∧ rest = rest' := by
  induction word generalizing s word' with
  | nil =>
      cases word' with
      | nil => exact ⟨rfl, heq⟩
      | cons a word' =>
          have hnot := h'.1
          rw [show r.done s = true from h] at hnot
          cases hnot
  | cons a word ih =>
      cases word' with
      | nil =>
          have hnot := h.1
          rw [show r.done s = true from h'] at hnot
          cases hnot
      | cons b word' =>
          rw [List.cons_append, List.cons_append, List.cons.injEq] at heq
          obtain ⟨rfl, heq⟩ := heq
          obtain ⟨rfl, hrest⟩ := ih h.2 h'.2 heq
          exact ⟨rfl, hrest⟩

end Reader

end Kernmini.Lib
