/-
Kernmini.Lib.Notify — a task that waits on a `Notify` for something it looks
for itself.

The task makes a `Notified`, enables it, looks, and awaits the notification
only if it looked in vain. A `Notified` receives every `notify_waiters` from
the moment it is made, not only from the moment it is awaited. So whoever
makes a change first and notifies then wakes every task that looked before
the change: after `wake` no waiter is parked without a notification, and a
waiter that is parked so has looked in vain.
-/
import Mathlib.Logic.Basic

namespace Kernmini.Lib

/-- Where the task is; `woken` once it was notified. -/
inductive Waiter (ρ : Type*) where
  /-- `notify.notified()` was called -/
  | created (woken : Bool)
  /-- `enable()` was called -/
  | enabled (woken : Bool)
  /-- it has looked in vain, and is at `notified.await` -/
  | parked (woken : Bool)
  | returned (result : ρ)

namespace Waiter

variable {ρ : Type*} {w w' : Waiter ρ} {found : Option ρ}

/-- `notify_waiters()`. -/
def wake : Waiter ρ → Waiter ρ
  | .created _ => .created true
  | .enabled _ => .enabled true
  | .parked _ => .parked true
  | .returned result => .returned result

def enable : Waiter ρ → Option (Waiter ρ)
  | .created woken => some (.enabled woken)
  | _ => none

/-- The look at what is there. -/
def look (found : Option ρ) : Waiter ρ → Option (Waiter ρ)
  | .enabled woken =>
      match found with
      | some result => some (.returned result)
      | none => some (.parked woken)
  | _ => none

theorem wake_ne_parked (w : Waiter ρ) : w.wake ≠ .parked false := by
  cases w <;> simp [wake]

theorem enable_ne_parked (h : w.enable = some w') : w' ≠ .parked false := by
  cases w with
  | created woken =>
      cases h
      simp
  | _ => cases h

/-- Only a waiter that found nothing parks. -/
theorem look_parked (h : w.look found = some w') (hparked : w' = .parked false) : found = none := by
  cases w with
  | enabled woken =>
      cases found with
      | none => rfl
      | some result =>
          rw [hparked] at h
          cases h
  | _ => cases h

theorem look_returned {result : ρ} (h : w.look found = some w') (hreturned : w' = .returned result) :
    found = some result := by
  cases w with
  | enabled woken =>
      cases found with
      | none =>
          rw [hreturned] at h
          cases h
      | some other =>
          rw [hreturned] at h
          cases h
          rfl
  | _ => cases h

end Waiter

end Kernmini.Lib
