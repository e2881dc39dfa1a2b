/-
Kernmini.Engine.DebugEvents — the `DebugEventSender` that
`run_kernel_with_interrupter` installs, on top of IOPub.

Each call of the sender spawns a task that publishes its event, and the
tasks run in any order. Two tasks that are short of the lock of IOPub at the
same time can get it in either order (`debug_events_swapped`). As long as a
call finds no earlier event waiting, the events appear in the order of the
calls (`debug_events_in_order`).
-/
import Kernmini.Transport.IopubTheorems

namespace Kernmini.Engine

open Kernmini.Wire Kernmini.Lib Kernmini.Transport

/-- The tasks of the sender. Task `n` is spawned by call `n` of it. -/
structure DebugEvents where
  iopub : Iopub := {}
  /-- the events of the calls, in order -/
  events : List Value := []
  /-- the call of `publish` a task has made -/
  publishes : Nat → Option CallId := fun _ => none
  /-- and the task that made a call of `publish`; none of them, for another publisher -/
  task : CallId → Option Nat := fun _ => none

inductive DebugLabel where
  /-- the language calls the sender -/
  | event (event : Value)
  /-- task `n` runs to the lock of IOPub -/
  | start (n : Nat) (c : CallId) (msgId date : String)
  /-- IOPub and its other publishers -/
  | iopub (l : IopubLabel)

namespace DebugEvents

def step (config : IopubConfig) (s : DebugEvents) : DebugLabel → Option DebugEvents
  | .event event => some { s with events := s.events ++ [event] }
  | .start n c msgId date => do
      let event ← s.events[n]?
      match s.publishes n with
      | some _ => none
      | none =>
          let message := config.session.message msgId date "debug_event" event none
          let iopub ← s.iopub.step config (.publish c message)
          return { s with
            iopub
            publishes := Function.update s.publishes n (some c)
            task := Function.update s.task c (some n) }
  | .iopub l => do
      let iopub ← s.iopub.step config l
      return { s with iopub }

/-- The debug events on IOPub, each as the number of its call. -/
def order (s : DebugEvents) : List Nat :=
  s.iopub.published.filterMap (fun publication => s.task publication.1)

/-- The task has not got to the lock. -/
def waiting (s : DebugEvents) (n : Nat) : Bool :=
  match s.publishes n with
  | none => true
  | some c =>
      match s.iopub.calls c with
      | some (.waiting _) => true
      | _ => false

/-- A call of the sender finds no earlier event waiting. -/
def Unhurried (s : DebugEvents) : DebugLabel → Prop
  | .event _ => ∀ n < s.events.length, s.waiting n = false
  | _ => True

instance (s : DebugEvents) : (l : DebugLabel) → Decidable (s.Unhurried l)
  | .event _ => inferInstanceAs (Decidable (∀ n < s.events.length, s.waiting n = false))
  | .start .. => .isTrue trivial
  | .iopub _ => .isTrue trivial

/-! ## What IOPub does to a call of `publish` -/

variable {config : IopubConfig}

/-- A call waits from its start to its lock. -/
theorem waits_of_step {s s' : Iopub} {l : IopubLabel} (h : s.step config l = some s') {c : CallId}
    {frames : Frames} (hwaits : s'.calls c = some (.waiting frames)) :
    s.calls c = some (.waiting frames) ∨ ∃ message, l = .publish c message := by
  cases Iopub.step_rule h with
  | encodeFailed d message hnew error =>
      rw [Iopub.setCall_calls] at hwaits
      split at hwaits
      · cases hwaits
      · exact .inl hwaits
  | publish d message hnew frames' hencode =>
      rw [Iopub.setCall_calls] at hwaits
      split at hwaits
      · next heq => exact .inr ⟨message, by rw [heq]⟩
      · exact .inl hwaits
  | lock d frames' hfree hcall =>
      rw [Iopub.setCall_calls] at hwaits
      split at hwaits
      · cases hwaits
      · exact .inl hwaits
  | finish turn hturn hend =>
      rw [Iopub.setCall_calls] at hwaits
      split at hwaits
      · cases hwaits
      · exact .inl hwaits
  | _ => exact .inl hwaits

theorem published_of_step {s s' : Iopub} {l : IopubLabel} (h : s.step config l = some s') :
    s'.published = s.published ∨ ∃ c frames, s.calls c = some (.waiting frames) ∧
      s'.published = s.published ++ [(c, frames)] := by
  cases Iopub.step_rule h with
  | lock c frames hfree hcall => exact .inr ⟨c, frames, hcall, rfl⟩
  | _ => exact .inl rfl

theorem calls_isSome_of_step {s s' : Iopub} {l : IopubLabel} (h : s.step config l = some s')
    {c : CallId} (hc : (s.calls c).isSome = true) : (s'.calls c).isSome = true := by
  have hset : ∀ d pc, ((s.setCall d pc).calls c).isSome = true := by
    intro d pc
    rw [Iopub.setCall_calls]
    split
    · rfl
    · exact hc
  cases Iopub.step_rule h with
  | encodeFailed | publish | lock | finish => exact hset _ _
  | _ => exact hc

/-! ## The tasks -/

inductive Rule (config : IopubConfig) (s : DebugEvents) : DebugLabel → DebugEvents → Prop
  | event (event : Value) : Rule config s (.event event) { s with events := s.events ++ [event] }
  | start (n : Nat) (c : CallId) (msgId date : String) (event : Value)
      (hevent : s.events[n]? = some event) (hnew : s.publishes n = none) (iopub : Iopub)
      (h : s.iopub.step config (.publish c
        (config.session.message msgId date "debug_event" event none)) = some iopub) :
      Rule config s (.start n c msgId date)
        { s with iopub
                 publishes := Function.update s.publishes n (some c)
                 task := Function.update s.task c (some n) }
  | iopub (l : IopubLabel) (iopub : Iopub) (h : s.iopub.step config l = some iopub) :
      Rule config s (.iopub l) { s with iopub }

variable {s s' : DebugEvents} {l : DebugLabel}

theorem step_rule (h : s.step config l = some s') : Rule config s l s' := by
  cases l with
  | event event =>
      cases h
      exact .event event
  | start n c msgId date =>
      simp only [step, bind, Option.bind_eq_some_iff] at h
      obtain ⟨event, hevent, h⟩ := h
      split at h
      · cases h
      · next hnew =>
          obtain ⟨iopub, hiopub, h⟩ := Option.bind_eq_some_iff.mp h
          cases h
          exact .start n c msgId date event hevent hnew iopub hiopub
  | iopub l =>
      simp only [step, bind, Option.bind_eq_some_iff] at h
      obtain ⟨iopub, hiopub, h⟩ := h
      cases h
      exact .iopub l iopub hiopub

/-- Tasks and their calls, whatever the scheduling. -/
structure TaskInv (s : DebugEvents) : Prop where
  order : s.iopub.OrderInv
  task : ∀ {c n}, s.task c = some n ↔ s.publishes n = some c
  made : ∀ {c n}, s.task c = some n → (s.iopub.calls c).isSome = true ∧ n < s.events.length

/-- The events so far are in order, and only the last may be waiting. -/
structure Inv (s : DebugEvents) : Prop where
  tasks : TaskInv s
  sorted : s.order.Pairwise (· < ·)
  last : ∀ n, s.waiting n = true → s.events.length ≤ n + 1

theorem taskInv_init : TaskInv {} := ⟨Iopub.orderInv_init, by simp, by simp⟩

theorem publish_new {s s' : Iopub} {c : CallId} {message : Message}
    (h : s.step config (.publish c message) = some s') :
    s.calls c = none ∧ s'.published = s.published ∧ (s'.calls c).isSome = true := by
  cases Iopub.step_rule h with
  | encodeFailed c message hnew | publish c message hnew =>
      exact ⟨hnew, rfl, by simp [Iopub.setCall_calls]⟩

theorem taskInv_step (h : TaskInv s) (hstep : s.step config l = some s') : TaskInv s' := by
  cases step_rule hstep with
  | event event =>
      refine ⟨h.order, h.task, fun {c n} hc => ?_⟩
      have hmade := h.made hc
      refine ⟨hmade.1, ?_⟩
      simp only [List.length_append]
      omega
  | start n c msgId date event hevent hnew iopub hiopub =>
      obtain ⟨hcall, _, hmade⟩ := publish_new hiopub
      have hc : s.task c = none := by
        cases htask : s.task c with
        | none => rfl
        | some m =>
            have hsome := (h.made htask).1
            rw [hcall] at hsome
            cases hsome
      refine ⟨Iopub.orderInv_step h.order hiopub, fun {d m} => ?_, fun {d m} htask => ?_⟩
      · simp only [Function.update_apply]
        by_cases hd : d = c <;> by_cases hm : m = n
        · simp [hd, hm]
        · have hother : s.publishes m ≠ some c := by
            intro hp
            rw [h.task.mpr hp] at hc
            cases hc
          simp [hd, hm, hother, Ne.symm hm]
        · have hother : s.task d ≠ some n := by
            intro ht
            rw [h.task.mp ht] at hnew
            cases hnew
          simp [hd, hm, hother, Ne.symm hd]
        · simp [hd, hm, h.task]
      · simp only [Function.update_apply] at htask
        split at htask
        · next heq =>
          cases htask
          rw [heq]
          exact ⟨hmade, (List.getElem?_eq_some_iff.mp hevent).1⟩
        · exact ⟨calls_isSome_of_step hiopub (h.made htask).1, (h.made htask).2⟩
  | iopub l iopub hiopub =>
      exact ⟨Iopub.orderInv_step h.order hiopub, h.task,
        fun htask => ⟨calls_isSome_of_step hiopub (h.made htask).1, (h.made htask).2⟩⟩

theorem waiting_of_call {n : Nat} {c : CallId} {frames : Frames} (hn : s.publishes n = some c)
    (hc : s.iopub.calls c = some (.waiting frames)) : s.waiting n = true := by
  simp [waiting, hn, hc]

/-- A step of IOPub for a task or another publisher makes no other task wait. -/
theorem waiting_of_iopub {iopub : Iopub} {l : IopubLabel} (h : TaskInv s)
    (hiopub : s.iopub.step config l = some iopub) {n : Nat} {c : CallId} (hn : s.publishes n = some c)
    {frames : Frames} (hc : iopub.calls c = some (.waiting frames)) : s.waiting n = true := by
  rcases waits_of_step hiopub hc with hold | ⟨message, rfl⟩
  · exact waiting_of_call hn hold
  · have hnone := (publish_new hiopub).1
    have hsome := (h.made (h.task.mpr hn)).1
    rw [hnone] at hsome
    cases hsome

theorem waits_cases {n : Nat} (h : s.waiting n = true) :
    s.publishes n = none ∨
      ∃ c frames, s.publishes n = some c ∧ s.iopub.calls c = some (.waiting frames) := by
  unfold waiting at h
  split at h
  · next hnone => exact .inl hnone
  · next c hc =>
      split at h
      · next frames hwaits => exact .inr ⟨c, frames, hc, hwaits⟩
      · cases h

/-- An event that is out comes before one that is waiting. -/
theorem lt_of_mem_order (h : Inv s) {m n : Nat} {c : CallId} {frames : Frames}
    (hn : s.publishes n = some c) (hc : s.iopub.calls c = some (.waiting frames))
    (hm : m ∈ s.order) : m < n := by
  obtain ⟨⟨d, frames'⟩, hmem, htask⟩ := List.mem_filterMap.mp hm
  have hd := (h.tasks.order.calls d).mp (List.mem_map_of_mem hmem)
  have hne : m ≠ n := by
    rintro rfl
    rw [h.tasks.task.mp htask] at hn
    cases hn
    rw [hc] at hd
    rcases hd with hd | hd <;> cases hd
  have hlast := h.last n (waiting_of_call hn hc)
  have hlt := (h.tasks.made htask).2
  omega

theorem inv_step (h : Inv s) (hok : s.Unhurried l) (hstep : s.step config l = some s') :
    Inv s' := by
  have htasks := taskInv_step h.tasks hstep
  cases step_rule hstep with
  | event event =>
      refine ⟨htasks, h.sorted, fun n hn => ?_⟩
      have hge : s.events.length ≤ n := by
        by_contra hlt
        have hnot := hok n (by omega)
        rw [show s.waiting n = true from hn] at hnot
        cases hnot
      simp only [List.length_append, List.length_singleton]
      omega
  | start n c msgId date event hevent hnew iopub hiopub =>
      obtain ⟨hcall, hpublished, _⟩ := publish_new hiopub
      refine ⟨htasks, ?_, fun m hm => ?_⟩
      · -- the call is new, so none of the publications is its own
        have hsame : iopub.published.filterMap
            (fun publication => Function.update s.task c (some n) publication.1) = s.order := by
          rw [hpublished]
          refine List.filterMap_congr fun e he => ?_
          have hne : e.1 ≠ c := by
            intro heq
            have hd := (h.tasks.order.calls e.1).mp (List.mem_map_of_mem he)
            rw [heq, hcall] at hd
            rcases hd with hd | hd <;> cases hd
          rw [Function.update_of_ne hne]
        rw [order, hsame]
        exact h.sorted
      · refine h.last m ?_
        rcases waits_cases hm with hnone | ⟨d, frames, hd, hwaits⟩
        · simp only [Function.update_apply] at hnone
          split at hnone
          · cases hnone
          · simp [waiting, hnone]
        · simp only [Function.update_apply] at hd
          split at hd
          · next heq => simp [waiting, heq, hnew]
          · exact waiting_of_iopub h.tasks hiopub hd hwaits
  | iopub l iopub hiopub =>
      refine ⟨htasks, ?_, fun m hm => h.last m ?_⟩
      · rcases published_of_step hiopub with hsame | ⟨c, frames, hc, hpublished⟩
        · simp only [order, hsame]
          exact h.sorted
        · simp only [order, hpublished, List.filterMap_append]
          cases htask : s.task c with
          | none =>
              have hone : [(c, frames)].filterMap (fun e => s.task e.1) = [] := by simp [htask]
              rw [hone, List.append_nil]
              exact h.sorted
          | some n =>
              have hn := h.tasks.task.mp htask
              have hone : [(c, frames)].filterMap (fun e => s.task e.1) = [n] := by simp [htask]
              rw [hone, List.pairwise_append]
              refine ⟨h.sorted, List.pairwise_singleton _ _, fun m hm k hk => ?_⟩
              rw [List.mem_singleton.mp hk]
              exact lt_of_mem_order h hn hc hm
      · rcases waits_cases hm with hnone | ⟨d, frames, hd, hwaits⟩
        · simp [waiting, show s.publishes m = none from hnone]
        · exact waiting_of_iopub h.tasks hiopub hd hwaits

theorem inv_init : Inv {} := ⟨taskInv_init, List.Pairwise.nil, fun _ _ => Nat.zero_le _⟩

/-- If every call of the sender finds no earlier event waiting, the events
appear on IOPub in the order of the calls. -/
theorem debug_events_in_order {ls : List DebugLabel} {t : DebugEvents}
    (hrun : run (step config) {} ls = some t)
    (hunhurried : StepsMeet (step config) Unhurried {} ls) : t.order.Pairwise (· < ·) :=
  (run_invariant_of_meets (fun _ _ _ => inv_step) hrun hunhurried inv_init).sorted

/-- `serde_json::to_vec` on an object whose values are strings without
characters to escape. -/
def flatText (fields : Map) : Bytes :=
  let field (f : String × Value) := "\"" ++ f.1 ++ "\":\"" ++ (f.2.asStr.getD "") ++ "\""
  ascii ("\x7b" ++ ",".intercalate (fields.map field) ++ "\x7d")

/-- Nothing is read on the way to IOPub. -/
def flatJson : SerdeJson where
  toVec
    | .object fields => .ok (flatText fields)
    | _ => .error ⟨"not an object"⟩
  fromSlice _ := .error ⟨"expected value"⟩
  mapFromSlice _ := .error ⟨"expected value"⟩
  mapFromSlice_ok b m := by simp

/-- An unsigned session, and room for 16 messages for each peer. -/
def debugConfig : IopubConfig :=
  { hmac := fun _ _ => [], serde := flatJson, session := ⟨[], "s", "kernel"⟩, capacity := 16 }

def stopped : Value := .object [("event", .string "stopped")]
def continued : Value := .object [("event", .string "continued")]

/-- Two events, the second sent when the first is out. -/
theorem debug_events_in_order_two :
    ∃ t, run (step debugConfig) {}
        [.iopub (.register 0), .event stopped, .start 0 0 "a" "d", .iopub (.lock 0), .event continued,
          .iopub .send, .start 1 1 "b" "d", .iopub .finish, .iopub (.lock 1)] = some t ∧
      t.order = [0, 1] ∧ t.order.Pairwise (· < ·) := by
  have hrun : run (step debugConfig) {}
      [.iopub (.register 0), .event stopped, .start 0 0 "a" "d", .iopub (.lock 0), .event continued,
        .iopub .send, .start 1 1 "b" "d", .iopub .finish, .iopub (.lock 1)] = some _ := rfl
  exact ⟨_, hrun, rfl, debug_events_in_order hrun (by decide)⟩

/-- The debugger stops and continues, the task of the second event gets to the
lock first, and the peer is told that it continued and then stopped. -/
theorem debug_events_swapped :
    ∃ t, run (step debugConfig) {}
        [.iopub (.register 0), .event stopped, .event continued, .start 0 0 "a" "d",
          .start 1 1 "b" "d", .iopub (.lock 1), .iopub .send, .iopub .finish, .iopub (.lock 0),
          .iopub .send, .iopub .finish] = some t ∧
      t.order = [1, 0] ∧ ¬ t.order.Pairwise (· < ·) ∧
      (t.iopub.table 0).map (fun peer => peer.sent.map (fun frames => frames[5]?)) =
        some [some (flatText [("event", .string "continued")]),
          some (flatText [("event", .string "stopped")])] :=
  ⟨_, rfl, rfl, by decide, rfl⟩

end DebugEvents

end Kernmini.Engine
