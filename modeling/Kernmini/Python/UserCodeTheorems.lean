/-
Kernmini.Python.UserCodeTheorems — interrupts of Python executions.

Three results about whole runs: where `KeyboardInterrupt` can be raised
(`keyboardInterrupt_inside`), when a request is sure to be delivered
(`interrupts_delivered`), and when a SIGINT of kernmini's own is taken for
somebody else's (`own_signal_stays`). The last two have a condition, with a
run that breaks it after them.
-/
import Kernmini.Python.UserCodeSteps

namespace Kernmini.Python

open Kernmini.Lib

namespace Session

variable {threads : Threads} {s t : Session} {l : Label} {r : RequestId} {e : ExecutionId}

/-! ## Where `KeyboardInterrupt` is raised -/

/-- The counter counts the blocks, and an exception is injected only inside
one. -/
structure Nested (threads : Threads) (s : Session) : Prop where
  depth : s.code.depth = s.blocks
  thread : s.code.thread = if s.code.depth = 0 then none else some threads.self
  injected : ∀ {thread}, s.injected = some thread → s.code.thread = some thread
  underflowed : s.underflowed = false

theorem nested_init : ({} : Session).Nested threads := ⟨rfl, rfl, nofun, rfl⟩

theorem nested_step (hs : s.Nested threads) (h : s.step threads l = some t) : t.Nested threads := by
  obtain ⟨hdepth, hthread, hinjected, hunderflowed⟩ := hs
  cases step_rule h with
  | inject _ hcode _ _ =>
      refine ⟨hdepth, hthread, fun {thread'} heq => ?_, hunderflowed⟩
      cases heq
      exact hcode
  | enter _ =>
      refine ⟨by simp [hdepth], ?_, fun {thread} heq => ?_, hunderflowed⟩
      · by_cases hzero : s.code.depth = 0
        · simp [hzero]
        · simp [hzero, hthread]
      · have hopen := hinjected heq
        by_cases hzero : s.code.depth = 0
        · simp [hthread, hzero] at hopen
        · simpa [hzero] using hopen
  | underflow hblocks hzero => omega
  | exitInner hblocks hinner =>
      refine ⟨?_, ?_, hinjected, hunderflowed⟩
      · simp only
        omega
      · simpa [hinner] using hthread
  | exitOuter hblocks houter =>
      refine ⟨?_, rfl, fun {thread} heq => ?_, hunderflowed⟩
      · simp only
        omega
      · -- the exception could only be on the thread that is cleared
        simp only at heq
        split at heq
        · cases heq
        · rename_i hkept
          have hopen := hinjected heq
          exact absurd ⟨by simp [hopen], by rw [heq, hopen]⟩ hkept
  | fire _ => exact ⟨hdepth, hthread, nofun, hunderflowed⟩
  | _ => exact ⟨hdepth, hthread, hinjected, hunderflowed⟩

theorem nested_of_run {ls : List Label} (h : run (step threads) {} ls = some s) : s.Nested threads :=
  run_invariant (fun _ _ _ => nested_step) h nested_init

theorem Nested.thread_iff (hs : s.Nested threads) : s.code.thread.isSome = true ↔ 0 < s.code.depth := by
  rw [hs.thread]
  by_cases hzero : s.code.depth = 0
  · simp [hzero]
  · simp [hzero, Nat.pos_of_ne_zero hzero]

/-- An exception is raised inside a block, or as one is entered. -/
theorem Nested.raises (hs : s.Nested threads) {event : Event} (h : s.step threads l = some t)
    (hlog : t.log = s.log ++ [event]) (hraises : event.raises = true) :
    0 < s.code.depth ∨ event = .entered ∧ l = .enter := by
  have hnone : t.log ≠ s.log := by
    rw [hlog]
    simp
  have hopen : ∀ {thread}, s.code.thread = some thread → 0 < s.code.depth := fun hthread =>
    hs.thread_iff.mp (by simp [hthread])
  cases step_rule h with
  | raise _ _ hthread _ => exact .inl (hopen hthread)
  | fire hinjected => exact .inl (hopen (hs.injected hinjected))
  | enterRaises _ =>
      simp only [List.append_cancel_left_eq, List.cons.injEq, and_true] at hlog
      exact .inr ⟨hlog.symm, rfl⟩
  | signalMain | request | cancel | escalate =>
      simp only [List.append_cancel_left_eq, List.cons.injEq, and_true] at hlog
      rw [← hlog] at hraises
      cases hraises
  | _ => exact absurd rfl hnone

/-- In every state that is reached: `depth` has not underflowed and is the
number of open blocks, a thread is recorded exactly inside a block, and an
injected exception is outstanding only on a thread inside a block. Every
step from there that raises `KeyboardInterrupt` does it inside a block or by
entering one; in particular the SIGINT handler raises only inside a block. -/
theorem keyboardInterrupt_inside {ls : List Label} (hrun : run (step threads) {} ls = some s) :
    s.underflowed = false ∧ s.code.depth = s.blocks ∧
    (s.code.thread.isSome = true ↔ 0 < s.code.depth) ∧
    (∀ thread, s.injected = some thread → s.code.thread = some thread ∧ 0 < s.code.depth) ∧
    ∀ l t event, s.step threads l = some t → t.log = s.log ++ [event] → event.raises = true →
      0 < s.code.depth ∨ event = .entered ∧ l = .enter := by
  have hs := nested_of_run hrun
  refine ⟨hs.underflowed, hs.depth, hs.thread_iff, fun thread hinjected => ?_,
    fun l t event h => hs.raises h⟩
  have hthread := hs.injected hinjected
  exact ⟨hthread, hs.thread_iff.mp (by simp [hthread])⟩

/-- The session of the main thread, and one on another thread. -/
def mainSession : Threads := ⟨1, some 1⟩

def subshellSession : Threads := ⟨2, some 1⟩

/-- An exception is injected in a block of depth two. -/
theorem keyboardInterrupt_inside_nested :
    ∃ s, run (step subshellSession) {} [.started, .enter, .enter, .request 0 1, .spawn 0,
        .deliver 0] = some s ∧ s.injected = some 2 ∧ s.code.thread = some 2 ∧ 0 < s.code.depth := by
  have hrun : run (step subshellSession) {} [.started, .enter, .enter, .request 0 1, .spawn 0,
      .deliver 0] = some _ := rfl
  obtain ⟨_, _, _, hinjected, _⟩ := keyboardInterrupt_inside hrun
  exact ⟨_, hrun, rfl, hinjected 2 rfl⟩

/-! ## SIGINT -/

/-- A request has set `woken` and has not sent its signal. -/
def Unsent (s : Session) : Prop := ∃ request ∈ s.requests.values, request.pc = .killing

/-- When the handler takes `woken`, no signal is on its way besides those it
runs for. -/
def NoneOnItsWay (s : Session) (l : Label) : Prop :=
  l = .handle → s.signals = 0 ∧ ¬ s.Unsent

instance (s : Session) : Decidable s.Unsent := inferInstanceAs (Decidable (∃ _ ∈ _, _))

instance (s : Session) (l : Label) : Decidable (NoneOnItsWay s l) :=
  inferInstanceAs (Decidable (_ → _))

/-- A signal of kernmini's own finds `woken` set. -/
structure Owned (s : Session) : Prop where
  woken : 0 < s.signals ∨ s.handling = true ∨ s.Unsent → s.code.woken = true
  quiet : .escalated ∉ s.log

theorem owned_init : ({} : Session).Owned := by
  refine ⟨fun h => ?_, List.not_mem_nil⟩
  rcases h with h | h | ⟨request, hmem, _⟩
  · cases h
  · cases h
  · cases hmem

theorem lookup_setRequest (s : Session) (r r' : RequestId) (request : Request) :
    (s.setRequest r request).requests.lookup r' =
      if r' = r then some request else s.requests.lookup r' := by
  by_cases hr : r' = r
  · rw [if_pos hr, hr]
    exact AList.lookup_insert s.requests
  · rw [if_neg hr]
    exact AList.lookup_insert_ne hr

theorem unsent_iff : s.Unsent ↔ ∃ r e, s.requests.lookup r = some ⟨e, .killing⟩ := by
  constructor
  · rintro ⟨⟨e, pc⟩, hmem, hpc⟩
    obtain ⟨r, hlookup⟩ := HashMap.mem_values.mp hmem
    cases hpc
    exact ⟨r, e, hlookup⟩
  · rintro ⟨r, e, hlookup⟩
    exact ⟨⟨e, .killing⟩, HashMap.mem_values.mpr ⟨r, hlookup⟩, rfl⟩

/-- A request that goes on with something else than its signal. -/
theorem unsent_of_setRequest {request : Request} (hpc : request.pc ≠ .killing)
    (h : (s.setRequest r request).Unsent) : s.Unsent := by
  obtain ⟨r', e, hlookup⟩ := unsent_iff.mp h
  rw [lookup_setRequest] at hlookup
  split at hlookup
  · cases hlookup
    exact absurd rfl hpc
  · exact unsent_iff.mpr ⟨r', e, hlookup⟩

/-- A step that says and takes no signal. -/
theorem Owned.keep (hs : s.Owned) (hsignals : t.signals = s.signals) (hhandling : t.handling = s.handling)
    (hunsent : t.Unsent → s.Unsent) (hwoken : t.code.woken = s.code.woken)
    (hquiet : .escalated ∉ t.log) : t.Owned := by
  refine ⟨fun hsigns => ?_, hquiet⟩
  rw [hsignals, hhandling] at hsigns
  rw [hwoken]
  exact hs.woken (hsigns.imp id (Or.imp id hunsent))

/-- After the handler has taken `woken` there is nothing left to answer for. -/
theorem owned_of_handle (hway : s.signals = 0 ∧ ¬ s.Unsent) (hsignals : t.signals = s.signals)
    (hhandling : t.handling = false) (hrequests : t.requests = s.requests)
    (hquiet : .escalated ∉ t.log) : t.Owned := by
  refine ⟨fun hsigns => ?_, hquiet⟩
  rcases hsigns with hsent | hbusy | hunsent
  · omega
  · rw [hhandling] at hbusy
    cases hbusy
  · unfold Unsent at hunsent
    rw [hrequests] at hunsent
    exact absurd hunsent hway.2

theorem owned_step (hs : s.Owned) (hway : NoneOnItsWay s l) (h : s.step threads l = some t) :
    t.Owned := by
  have hlog : ∀ {event : Event}, event ≠ .escalated → .escalated ∉ s.log ++ [event] := by
    intro event hne hmem
    rcases List.mem_append.mp hmem with hmem | hmem
    · exact hs.quiet hmem
    · exact hne (List.mem_singleton.mp hmem).symm
  have hgoes : ∀ {pc : RequestPc}, pc ≠ .killing → ∀ {r e}, (s.setRequest r ⟨e, pc⟩).Unsent → s.Unsent :=
    fun hpc => unsent_of_setRequest hpc
  cases step_rule h with
  | signalMain _ _ _ _ _ => exact ⟨fun _ => rfl, hlog Event.noConfusion⟩
  | request _ _ _ _ => exact hs.keep rfl rfl (hgoes RequestPc.noConfusion) rfl (hlog Event.noConfusion)
  | kill hpc => exact ⟨fun _ => hs.woken (.inr (.inr (unsent_iff.mpr ⟨_, _, hpc⟩))), hs.quiet⟩
  | spawn | inject | pass | post | stale =>
      exact hs.keep rfl rfl (hgoes RequestPc.noConfusion) rfl hs.quiet
  | cancel _ _ _ _ => exact hs.keep rfl rfl (hgoes RequestPc.noConfusion) rfl (hlog Event.noConfusion)
  | idle _ _ _ => exact hs.keep rfl rfl (hgoes RequestPc.noConfusion) rfl hs.quiet
  | signal _ hn => exact ⟨fun _ => hs.woken (.inl (by omega)), hs.quiet⟩
  | raise _ _ _ _ => exact owned_of_handle (hway rfl) rfl rfl rfl (hlog Event.noConfusion)
  | swallow _ _ _ => exact owned_of_handle (hway rfl) rfl rfl rfl hs.quiet
  | escalate hhandling hnot =>
      rw [hs.woken (.inr (.inl hhandling))] at hnot
      cases hnot
  | enterRaises | fire => exact hs.keep rfl rfl id rfl (hlog Event.noConfusion)
  | _ => exact hs.keep rfl rfl id rfl hs.quiet

/-- If the handler takes `woken` only when no signal is on its way, no signal
of kernmini's own is taken for somebody else's. -/
theorem own_signal_stays {ls : List Label} (hrun : run (step threads) {} ls = some s)
    (hway : StepsMeet (step threads) NoneOnItsWay {} ls) : .escalated ∉ s.log :=
  (run_invariant_of_meets (fun _ _ _ => owned_step) hrun hway owned_init).quiet

/-- Two requests, the second after the handler has run. -/
theorem own_signal_stays_two :
    ∃ s, run (step mainSession) {} [.started, .enter, .request 0 1, .kill 0, .signal 0, .handle,
        .request 1 1, .kill 1, .signal 0, .handle] = some s ∧ .escalated ∉ s.log := by
  have hrun : run (step mainSession) {} [.started, .enter, .request 0 1, .kill 0, .signal 0, .handle,
      .request 1 1, .kill 1, .signal 0, .handle] = some _ := rfl
  exact ⟨_, hrun, own_signal_stays hrun (by decide)⟩

/-- The second request sets `woken` before the handler of the first runs, and
sends its signal after it. -/
theorem own_signal_escalates :
    (run (step mainSession) {} [.started, .enter, .request 0 1, .kill 0, .request 1 1, .signal 0,
      .handle, .kill 1, .signal 0, .handle]).map log =
      some [.requested 0 1, .requested 1 1, .signalled, .escalated] := by
  decide

/-! ## Every request is delivered -/

/-- The request was made for a task that is not done, and nothing has been
delivered since. -/
def Owed (s : Session) (r : RequestId) : Prop :=
  ∃ e before after, s.log = before ++ .requested r e :: after ∧
    (∀ event ∈ after, event.isDelivery = false) ∧ s.taskDone e = false

/-- A delivery is still to come: `pending` is set and a deferred cancel (with
its way to the event loop) or a signal is still to run, or an injected
exception is set on the thread. -/
def Outstanding (s : Session) : Prop :=
  s.code.pending = true ∧
      ((∃ request ∈ s.requests.values, request.execution = s.execution ∧ request.pc ≠ .over) ∨
        0 < s.signals ∨ s.handling = true) ∨
    s.injected ≠ none

/-- No block ends with an injected exception still set, and no deferred cancel
runs inside a block while an interrupt is pending. -/
def NoneDropped (s : Session) : Label → Prop
  | .exit => s.code.depth = 1 → s.injected = none
  | .cancel _ => s.code.thread = none ∨ s.code.pending = false
  | .started | .finish | .request _ _ | .kill _ | .spawn _ | .deliver _ | .post _ | .signal _ | .handle
  | .enter | .fire => True

instance (s : Session) : (l : Label) → Decidable (NoneDropped s l)
  | .exit => inferInstanceAs (Decidable (_ → _))
  | .cancel _ => inferInstanceAs (Decidable (_ ∨ _))
  | .started | .finish | .request _ _ | .kill _ | .spawn _ | .deliver _ | .post _ | .signal _ | .handle
  | .enter | .fire => .isTrue trivial

/-- What keeps the promise for one request. -/
def Assured (s : Session) (r : RequestId) : Prop :=
  s.injected ≠ none ∨ s.code.pending = true ∧
    ∃ request, s.requests.lookup r = some request ∧ request.execution = s.execution ∧ request.pc ≠ .over

structure Promised (s : Session) : Prop where
  /-- requests are made for executions that have started -/
  logged : ∀ {r e}, .requested r e ∈ s.log → e ≤ s.execution
  assured : ∀ {r}, s.Owed r → s.Assured r

theorem promised_init : ({} : Session).Promised := by
  refine ⟨fun h => (List.not_mem_nil h).elim, fun {r} h => ?_⟩
  obtain ⟨e, before, after, hlog, _⟩ := h
  simp at hlog

/-- Nothing is owed after a delivery. -/
theorem not_owed_of_delivery {event : Event} (hlog : t.log = s.log ++ [event])
    (hdelivery : event.isDelivery = true) (r : RequestId) : ¬ t.Owed r := by
  rintro ⟨e, before, after, hsplit, hafter, _⟩
  have hlast : (Event.requested r e :: after).getLast? = some event := by
    have h := congrArg List.getLast? (hlog.symm.trans hsplit)
    simpa using h.symm
  cases after with
  | nil =>
      simp only [List.getLast?_singleton, Option.some.injEq] at hlast
      rw [← hlast] at hdelivery
      cases hdelivery
  | cons first rest =>
      rw [List.getLast?_cons_cons] at hlast
      rw [hafter event (List.mem_of_getLast? hlast)] at hdelivery
      cases hdelivery

/-- What is owed after a step that delivers nothing was owed before it, or was
requested by it. -/
theorem owed_of_append {events : List Event} (hlog : t.log = s.log ++ events)
    (hshort : events = [] ∨ ∃ event, events = [event]) (htask : ∀ e, t.taskDone e = s.taskDone e)
    (h : t.Owed r) : s.Owed r ∨ ∃ e, events = [.requested r e] ∧ s.taskDone e = false := by
  obtain ⟨e, before, after, hsplit, hafter, hrunning⟩ := h
  rw [htask] at hrunning
  rcases hshort with rfl | ⟨event, rfl⟩
  · rw [List.append_nil] at hlog
    exact .inl ⟨e, before, after, hlog ▸ hsplit, hafter, hrunning⟩
  · rw [hlog] at hsplit
    rcases List.eq_nil_or_concat after with rfl | ⟨after', last, rfl⟩
    · have hsame : s.log = before ∧ event = .requested r e := by
        simpa using List.append_inj' hsplit rfl
      exact .inr ⟨e, by rw [hsame.2], hrunning⟩
    · have hsame : s.log = before ++ .requested r e :: after' ∧ event = last := by
        have hsplit' : s.log ++ [event] = (before ++ .requested r e :: after') ++ [last] := by
          simpa using hsplit
        simpa using List.append_inj' hsplit' rfl
      exact .inl ⟨e, before, after', hsame.1, fun ev hev => hafter ev (by simp [hev]), hrunning⟩

/-- The promise goes on with the request. -/
theorem Assured.goes {pc : RequestPc} {r' : RequestId} (h : s.Assured r)
    (hpc : s.requests.lookup r' = some ⟨e, pc⟩) {pc' : RequestPc} (hnext : pc' ≠ .over) :
    (s.setRequest r' ⟨e, pc'⟩).Assured r := by
  rcases h with hinjected | ⟨hpending, request, hlookup, hexecution, hgoes⟩
  · exact .inl hinjected
  · refine .inr ⟨hpending, ?_⟩
    rw [lookup_setRequest]
    split
    · rename_i hr
      rw [hr, hpc] at hlookup
      cases hlookup
      exact ⟨_, rfl, hexecution, hnext⟩
    · exact ⟨request, hlookup, hexecution, hgoes⟩

/-- A step that neither requests nor delivers. -/
theorem Promised.keep (hs : s.Promised) (hlog : t.log = s.log ∨ t.log = s.log ++ [.escalated])
    (hexecution : t.execution = s.execution) (hdone : t.done = s.done)
    (hassured : ∀ {r}, s.Owed r → s.Assured r → t.Assured r) : t.Promised := by
  have htask : ∀ e, t.taskDone e = s.taskDone e := fun e => by simp [taskDone, hexecution, hdone]
  refine ⟨fun {r e} hmem => ?_, fun {r} howed => ?_⟩
  · rw [hexecution]
    rcases hlog with hlog | hlog
    · exact hs.logged (hlog ▸ hmem)
    · simp only [hlog, List.mem_append, List.mem_singleton, reduceCtorEq, or_false] at hmem
      exact hs.logged hmem
  · have hold : s.Owed r := by
      rcases hlog with hlog | hlog
      · rcases owed_of_append (by simpa using hlog) (.inl rfl) htask howed with hold | ⟨e, hnew, _⟩
        · exact hold
        · cases hnew
      · rcases owed_of_append hlog (.inr ⟨_, rfl⟩) htask howed with hold | ⟨e, hnew, _⟩
        · exact hold
        · cases hnew
    exact hassured hold (hs.assured hold)

/-- A step that delivers. -/
theorem Promised.delivered (hs : s.Promised) {event : Event} (hlog : t.log = s.log ++ [event])
    (hdelivery : event.isDelivery = true) (hexecution : t.execution = s.execution) : t.Promised := by
  refine ⟨fun {r e} hmem => ?_, fun {r} howed => ?_⟩
  · rw [hexecution]
    rw [hlog, List.mem_append, List.mem_singleton] at hmem
    rcases hmem with hmem | heq
    · exact hs.logged hmem
    · rw [← heq] at hdelivery
      cases hdelivery
  · exact absurd howed (not_owed_of_delivery hlog hdelivery r)

/-- A request is recorded, and keeps its own promise. -/
theorem Promised.requested (hs : s.Promised) {r' : RequestId} (hlog : t.log = s.log ++ [.requested r' e])
    (hle : e ≤ s.execution) (hexecution : t.execution = s.execution) (hdone : t.done = s.done)
    (hassured : ∀ {r}, s.Assured r → t.Assured r) (hnew : e = s.execution → t.Assured r') :
    t.Promised := by
  have htask : ∀ e, t.taskDone e = s.taskDone e := fun e => by simp [taskDone, hexecution, hdone]
  refine ⟨fun {r e'} hmem => ?_, fun {r} howed => ?_⟩
  · rw [hexecution]
    rw [hlog, List.mem_append, List.mem_singleton] at hmem
    rcases hmem with hmem | heq
    · exact hs.logged hmem
    · cases heq
      exact hle
  · rcases owed_of_append hlog (.inr ⟨_, rfl⟩) htask howed with hold | ⟨e', heq, hrunning⟩
    · exact hassured (hs.assured hold)
    · cases heq
      simp only [taskDone, Bool.or_eq_false_iff, decide_eq_false_iff_not, ne_eq, not_not] at hrunning
      exact hnew hrunning.1

/-- The promise of an old request does not mind a new one. -/
theorem Assured.beside {r' : RequestId} {request : Request} (h : s.Assured r)
    (hnew : s.requests.lookup r' = none) : (s.setRequest r' request).Assured r := by
  rcases h with hinjected | ⟨hpending, old, hlookup, hold⟩
  · exact .inl hinjected
  · refine .inr ⟨hpending, old, ?_, hold⟩
    rw [lookup_setRequest, if_neg (fun hr => by rw [hr, hnew] at hlookup; cases hlookup), hlookup]

theorem promised_step (hs : s.Promised) (hdropped : NoneDropped s l) (h : s.step threads l = some t) :
    t.Promised := by
  cases step_rule h with
  | started _ =>
      refine ⟨fun hmem => Nat.le_succ_of_le (hs.logged hmem), fun {r} howed => ?_⟩
      -- the log names no execution that has not started
      obtain ⟨e, before, after, hlog, _, hrunning⟩ := howed
      have hmem : .requested r e ∈ s.log := by
        rw [show s.log = _ from hlog]
        simp
      have hle : e ≤ s.execution := hs.logged hmem
      simp only [taskDone, Bool.or_eq_false_iff, decide_eq_false_iff_not, ne_eq, not_not] at hrunning
      have hnew : e = s.execution + 1 := hrunning.1
      rw [hnew] at hle
      exact absurd hle (Nat.not_succ_le_self _)
  | finish _ =>
      refine ⟨hs.logged, fun {r} howed => ?_⟩
      obtain ⟨e, before, after, _, _, hrunning⟩ := howed
      simp [taskDone] at hrunning
  | signalMain hnew _ hle _ _ =>
      refine hs.requested rfl hle rfl rfl (fun hold => ?_)
        (fun he => .inr ⟨rfl, ⟨_, .killing⟩, ?_, he, ?_⟩)
      · exact (hold.beside hnew).imp id (fun hpending => ⟨rfl, hpending.2⟩)
      · exact (lookup_setRequest ..).trans (if_pos rfl)
      · exact RequestPc.noConfusion
  | request hnew _ hle _ =>
      refine hs.requested rfl hle rfl rfl (fun hold => ?_)
        (fun he => .inr ⟨rfl, ⟨_, .spawning⟩, ?_, he, ?_⟩)
      · exact (hold.beside hnew).imp id (fun hpending => ⟨rfl, hpending.2⟩)
      · exact (lookup_setRequest ..).trans (if_pos rfl)
      · exact RequestPc.noConfusion
  | kill hpc | spawn hpc =>
      exact hs.keep (.inl rfl) rfl rfl (fun _ hold => hold.goes hpc RequestPc.noConfusion)
  | inject _ _ _ _ => exact hs.keep (.inl rfl) rfl rfl (fun _ _ => .inl (Option.some_ne_none _))
  | pass hpc | post hpc =>
      exact hs.keep (.inl rfl) rfl rfl (fun _ hold => hold.goes hpc RequestPc.noConfusion)
  | stale hpc hdone =>
      refine hs.keep (.inl rfl) rfl rfl (fun {r} howed hold => ?_)
      rcases hold with hinjected | ⟨hpending, request, hlookup, hexecution, hgoes⟩
      · exact .inl hinjected
      · -- the deferred cancel of a task that is done is not that of `r`
        refine .inr ⟨hpending, request, ?_, hexecution, hgoes⟩
        rw [lookup_setRequest, if_neg, hlookup]
        intro hr
        rw [hr, hpc] at hlookup
        cases hlookup
        obtain ⟨e, _, _, _, _, hrunning⟩ := howed
        simp only [taskDone, Bool.or_eq_false_iff, decide_eq_false_iff_not, ne_eq, not_not] at hrunning
        simp [taskDone, hrunning.2] at hdone
        exact hdone hexecution
  | cancel _ _ _ _ => exact hs.delivered rfl rfl rfl
  | idle _ _ hidle =>
      have hclear : s.code.pending = false := by
        rcases hidle with hthread | hclear
        · exact hdropped.resolve_left hthread
        · exact hclear
      refine hs.keep (.inl rfl) rfl rfl (fun _ hold => ?_)
      rcases hold with hinjected | ⟨hpending, _⟩
      · exact .inl hinjected
      · rw [hclear] at hpending
        cases hpending
  | signal _ _ => exact hs.keep (.inl rfl) rfl rfl (fun _ hold => hold)
  | raise _ _ _ _ => exact hs.delivered rfl rfl rfl
  | swallow _ _ _ => exact hs.keep (.inl rfl) rfl rfl (fun _ hold => hold)
  | escalate _ _ => exact hs.keep (.inr rfl) rfl rfl (fun _ hold => hold)
  | enterRaises _ => exact hs.delivered rfl rfl rfl
  | enter | underflow | exitInner => exact hs.keep (.inl rfl) rfl rfl (fun _ hold => hold)
  | exitOuter _ houter =>
      refine hs.keep (.inl rfl) rfl rfl (fun _ hold => ?_)
      rcases hold with hinjected | hpending
      · exact absurd (hdropped houter) hinjected
      · exact .inr hpending
  | fire _ => exact hs.delivered rfl rfl rfl

/-- In every run in which no block ends with an injected exception still set,
and no deferred cancel runs inside a block while an interrupt is pending: a
request for a task that is not done has been followed by a delivery, or one
is still to come. -/
theorem interrupts_delivered {ls : List Label} (hrun : run (step threads) {} ls = some s)
    (hdropped : StepsMeet (step threads) NoneDropped {} ls) {r : RequestId} (howed : s.Owed r) :
    s.Outstanding := by
  have hs : s.Promised := run_invariant_of_meets (fun _ _ _ => promised_step) hrun hdropped promised_init
  rcases hs.assured howed with hinjected | ⟨hpending, request, hlookup, hexecution, hgoes⟩
  · exact .inr hinjected
  · exact .inl ⟨hpending, .inl ⟨request, HashMap.mem_values.mpr ⟨r, hlookup⟩, hexecution, hgoes⟩⟩

/-- An interrupt of code on a subshell's thread, up to the injection. -/
theorem interrupts_delivered_injected :
    ∃ s, run (step subshellSession) {} [.started, .enter, .request 0 1, .spawn 0, .deliver 0] = some s ∧
      s.Owed 0 ∧ s.Outstanding := by
  have hrun : run (step subshellSession) {} [.started, .enter, .request 0 1, .spawn 0,
      .deliver 0] = some _ := rfl
  exact ⟨_, hrun, ⟨1, [], [], rfl, nofun, rfl⟩,
    interrupts_delivered hrun (by decide) ⟨1, [], [], rfl, nofun, rfl⟩⟩

/-- The exception is injected as the block ends, `__exit__` takes it back, and
the deferred cancel finds nothing pending. -/
theorem interrupt_dropped_at_exit :
    ∃ s, run (step subshellSession) {} [.started, .enter, .request 0 1, .spawn 0, .deliver 0, .exit,
        .post 0, .cancel 0] = some s ∧ s.Owed 0 ∧ ¬ s.Outstanding := by
  refine ⟨_, rfl, ⟨1, [], [], rfl, nofun, rfl⟩, ?_⟩
  unfold Outstanding
  decide

end Session

end Kernmini.Python
