/-
Kernmini.Lib.Observe — a transition system under observation.

A property of a run often speaks of its past: what had arrived when a
request was handled, in which state a message was taken. An observer keeps
notes of that beside the system, one note for each step. It does not act:
the runs of the observed system are the runs of the system
(`run_of_observe`), and a condition on the steps of the one is a condition
on the steps of the other (`StepsMeet.observe`).
-/
import Kernmini.Lib.Transition

namespace Kernmini.Lib

/-- A state and what the observer has noted so far. -/
structure Observed (S H : Type*) where
  state : S
  notes : H

variable {S L H : Type*} {step : S → L → Option S} {note : S → L → S → H → H}
  {o o' : Observed S H} {l : L} {ls : List L}

/-- The system takes a step, and the observer takes its note of it. -/
def observe (step : S → L → Option S) (note : S → L → S → H → H) (o : Observed S H) (l : L) :
    Option (Observed S H) :=
  match step o.state l with
  | some s => some ⟨s, note o.state l s o.notes⟩
  | none => none

theorem observe_cases (h : observe step note o l = some o') :
    step o.state l = some o'.state ∧ o'.notes = note o.state l o'.state o.notes := by
  unfold observe at h
  split at h
  · next s hs =>
      cases h
      exact ⟨hs, rfl⟩
  · cases h

theorem run_of_observe (h : run (observe step note) o ls = some o') :
    run step o.state ls = some o'.state := by
  induction ls generalizing o with
  | nil =>
      cases h
      rfl
  | cons l ls ih =>
      obtain ⟨m, hm, hrest⟩ := run_cons_eq_some.mp h
      exact run_cons_eq_some.mpr ⟨m.state, (observe_cases hm).1, ih hrest⟩

theorem StepsMeet.observe {ok : S → L → Prop} (h : StepsMeet step ok o.state ls) :
    StepsMeet (Lib.observe step note) (fun o l => ok o.state l) o ls := by
  induction ls generalizing o with
  | nil => trivial
  | cons l ls ih =>
      refine ⟨h.1, fun o' ho' => ih (h.2 o'.state (observe_cases ho').1)⟩

end Kernmini.Lib
