/-
Kernmini.Lib.FirstWins — calls that race for one thing.

Each call decides under a lock whether it wins and goes on from there by
itself. `ids` are the calls in the order in which they held the lock. The
first one wins and no other does, whatever the calls do afterwards.
-/
import Mathlib.Data.List.Nodup

namespace Kernmini.Lib

variable {ι κ : Type*}

/-- The calls are those of `ids`, and the first of them is the one that wins. -/
structure FirstWins (wins : κ → Bool) (ids : List ι) (calls : ι → Option κ) : Prop where
  mem : ∀ c, c ∈ ids ↔ ∃ call, calls c = some call
  nodup : ids.Nodup
  wins : ∀ c call, calls c = some call → (wins call = true ↔ ids.head? = some c)

namespace FirstWins

variable {wins : κ → Bool} {ids : List ι} {calls : ι → Option κ} {c : ι} {call call' : κ}

theorem nil : FirstWins wins ([] : List ι) (fun _ => (none : Option κ)) := by
  constructor <;> simp

/-- A new call holds the lock, and wins if it is the first. -/
theorem open_call [DecidableEq ι] (h : FirstWins wins ids calls) (hnew : calls c = none)
    (hwins : wins call = true ↔ ids = []) :
    FirstWins wins (ids ++ [c]) (Function.update calls c (some call)) := by
  have hc : c ∉ ids := by simp [h.mem, hnew]
  constructor
  · intro c'
    by_cases heq : c' = c
    · simp [heq]
    · simp [heq, h.mem]
  · rw [← List.concat_eq_append]
    exact h.nodup.concat hc
  · intro c' found hfound
    by_cases heq : c' = c
    · rw [heq, Function.update_self] at hfound
      rw [← Option.some.inj hfound, hwins, heq]
      cases ids with
      | nil => simp
      | cons head rest =>
          have hne : head ≠ c := fun heq => hc (by simp [heq])
          simp [hne]
    · rw [Function.update_of_ne heq] at hfound
      rw [h.wins c' found hfound]
      cases ids with
      | nil => simpa using fun heq' => heq heq'.symm
      | cons head rest => simp

/-- A call goes on with what was decided. -/
theorem advance [DecidableEq ι] (h : FirstWins wins ids calls) (hc : calls c = some call)
    (hsame : wins call' = wins call) :
    FirstWins wins ids (Function.update calls c (some call')) := by
  constructor
  · intro c'
    by_cases heq : c' = c
    · simp [heq, h.mem, hc]
    · simp [heq, h.mem]
  · exact h.nodup
  · intro c' found hfound
    by_cases heq : c' = c
    · rw [heq, Function.update_self] at hfound
      rw [← Option.some.inj hfound, hsame, heq]
      exact h.wins c call hc
    · rw [Function.update_of_ne heq] at hfound
      exact h.wins c' found hfound

theorem existsUnique (h : FirstWins wins ids calls) (hne : ids ≠ []) :
    ∃! c, ∃ call, calls c = some call ∧ wins call = true := by
  obtain ⟨head, rest, rfl⟩ := List.exists_cons_of_ne_nil hne
  obtain ⟨call, hcall⟩ := (h.mem head).mp (by simp)
  refine ⟨head, ⟨call, hcall, by simp [h.wins head call hcall]⟩, ?_⟩
  intro c ⟨call', hcall', hwins⟩
  simpa [eq_comm] using (h.wins c call' hcall').mp hwins

end FirstWins

end Kernmini.Lib
