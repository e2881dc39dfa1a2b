/-
Kernmini.Python.UserCodeSteps — what the locked sections do, and what one
step of a session can do.
-/
import Kernmini.Python.UserCode
import Kernmini.Lib.Transition
import Mathlib.Tactic

namespace Kernmini.Python

open Kernmini.Lib

/-! ## The locked sections -/

namespace UserCode

variable {signals : ThreadId → Bool} {code : UserCode} {thread : ThreadId}

theorem request_main (hthread : code.thread = some thread) (hmain : signals thread = true) :
    code.request signals = (some thread, { code with pending := true, woken := true }) := by
  simp [request, hthread, hmain]

theorem request_other (hother : ∀ thread, code.thread = some thread → signals thread = false) :
    code.request signals = (none, { code with pending := true }) := by
  have hfilter : code.thread.filter signals = none := by
    cases hthread : code.thread with
    | none => rfl
    | some thread => simp [hother thread hthread]
  simp [request, hfilter]

theorem deliver_cases (signals : ThreadId → Bool) (code : UserCode) :
    (∃ thread, code.thread = some thread ∧ code.pending = true ∧ signals thread = false ∧
        code.deliver signals = (some thread, { code with pending := false })) ∨
      code.deliver signals = (none, code) := by
  unfold deliver
  split
  · rename_i thread hthread
    split
    · rename_i hcond
      simp only [Bool.and_eq_true, Bool.not_eq_true'] at hcond
      exact .inl ⟨thread, hthread, hcond.1, hcond.2, rfl⟩
    · exact .inr rfl
  · exact .inr rfl

theorem cancel_cases (code : UserCode) :
    code.thread = none ∧ code.pending = true ∧ code.cancel = (true, { code with pending := false }) ∨
      (code.thread ≠ none ∨ code.pending = false) ∧ code.cancel = (false, code) := by
  unfold cancel
  split
  · rename_i thread hthread
    exact .inr ⟨.inl (by simp [hthread]), rfl⟩
  · rename_i hthread
    cases hpending : code.pending with
    | true => exact .inl ⟨hthread, rfl, rfl⟩
    | false =>
        refine .inr ⟨.inr rfl, ?_⟩
        rw [← hpending]

theorem handle_cases (code : UserCode) :
    (∃ thread, code.woken = true ∧ code.thread = some thread ∧ code.pending = true ∧
        code.handle = (some true, { code with woken := false, pending := false })) ∨
      code.woken = true ∧ (code.thread = none ∨ code.pending = false) ∧
        code.handle = (some false, { code with woken := false }) ∨
      code.woken = false ∧ code.handle = (none, code) := by
  unfold handle
  split
  · rename_i hwoken
    split
    · rename_i thread hthread
      cases hpending : code.pending with
      | true => exact .inl ⟨thread, hwoken, hthread, rfl, rfl⟩
      | false => exact .inr (.inl ⟨hwoken, .inr rfl, by rw [← hpending]⟩)
    · rename_i hthread
      exact .inr (.inl ⟨hwoken, .inl hthread, rfl⟩)
  · rename_i hwoken
    exact .inr (.inr ⟨by simpa using hwoken, rfl⟩)

theorem enter_pending (hpending : code.pending = true) :
    code.enter thread = (true, { code with pending := false }) := by
  rw [enter, if_pos hpending]

theorem enter_clear (hpending : code.pending = false) :
    code.enter thread = (false, { code with
      thread := if code.depth = 0 then some thread else code.thread
      depth := code.depth + 1 }) := by
  rw [enter, if_neg (by simp [hpending])]

theorem exit_inner {depth : Nat} (hdepth : code.depth = depth + 2) :
    code.exit = some (none, { code with depth := depth + 1 }) := by
  simp [exit, hdepth]

theorem exit_outer (hdepth : code.depth = 1) :
    code.exit = some (code.thread, { code with depth := 0, thread := none }) := by
  simp [exit, hdepth]

end UserCode

namespace Session

variable {threads : Threads} {s t : Session} {l : Label} {r : RequestId} {e : ExecutionId}

/-! ## What a step can do -/

inductive Rule (threads : Threads) (s : Session) : Label → Session → Prop
  | started (hdone : s.done = true) :
      Rule threads s .started
        { s with code := s.code.started, execution := s.execution + 1, done := false }
  | finish (hdone : s.done = false) : Rule threads s .finish { s with done := true }
  | signalMain {r : RequestId} {e : ExecutionId} {thread : ThreadId} (hnew : s.requests.lookup r = none)
      (hpos : 0 < e) (hle : e ≤ s.execution) (hthread : s.code.thread = some thread)
      (hmain : threads.signals thread = true) :
      Rule threads s (.request r e)
        { s.setRequest r ⟨e, .killing⟩ with
          code := { s.code with pending := true, woken := true }, log := s.log ++ [.requested r e] }
  | request {r : RequestId} {e : ExecutionId} (hnew : s.requests.lookup r = none) (hpos : 0 < e)
      (hle : e ≤ s.execution)
      (hthread : ∀ thread, s.code.thread = some thread → threads.signals thread = false) :
      Rule threads s (.request r e)
        { s.setRequest r ⟨e, .spawning⟩ with
          code := { s.code with pending := true }, log := s.log ++ [.requested r e] }
  | kill {r : RequestId} {e : ExecutionId} (hpc : s.requests.lookup r = some ⟨e, .killing⟩) :
      Rule threads s (.kill r) { s.setRequest r ⟨e, .spawning⟩ with signals := s.signals + 1 }
  | spawn {r : RequestId} {e : ExecutionId} (hpc : s.requests.lookup r = some ⟨e, .spawning⟩) :
      Rule threads s (.spawn r) (s.setRequest r ⟨e, .delivering⟩)
  | inject {r : RequestId} {e : ExecutionId} {thread : ThreadId}
      (hpc : s.requests.lookup r = some ⟨e, .delivering⟩) (hthread : s.code.thread = some thread)
      (hpending : s.code.pending = true) (hmain : threads.signals thread = false) :
      Rule threads s (.deliver r)
        { s.setRequest r ⟨e, .posting⟩ with
          code := { s.code with pending := false }, injected := some thread }
  | pass {r : RequestId} {e : ExecutionId} (hpc : s.requests.lookup r = some ⟨e, .delivering⟩) :
      Rule threads s (.deliver r) (s.setRequest r ⟨e, .posting⟩)
  | post {r : RequestId} {e : ExecutionId} (hpc : s.requests.lookup r = some ⟨e, .posting⟩) :
      Rule threads s (.post r) (s.setRequest r ⟨e, .cancelling⟩)
  | stale {r : RequestId} {e : ExecutionId} (hpc : s.requests.lookup r = some ⟨e, .cancelling⟩)
      (hdone : s.taskDone e = true) : Rule threads s (.cancel r) (s.setRequest r ⟨e, .over⟩)
  | cancel {r : RequestId} {e : ExecutionId} (hpc : s.requests.lookup r = some ⟨e, .cancelling⟩)
      (hrunning : s.taskDone e = false) (hthread : s.code.thread = none)
      (hpending : s.code.pending = true) :
      Rule threads s (.cancel r)
        { s.setRequest r ⟨e, .over⟩ with
          code := { s.code with pending := false }, log := s.log ++ [.cancelled e] }
  | idle {r : RequestId} {e : ExecutionId} (hpc : s.requests.lookup r = some ⟨e, .cancelling⟩)
      (hrunning : s.taskDone e = false)
      (hidle : s.code.thread ≠ none ∨ s.code.pending = false) :
      Rule threads s (.cancel r) (s.setRequest r ⟨e, .over⟩)
  | signal {n : Nat} (hhandling : s.handling = false) (hn : n < s.signals) :
      Rule threads s (.signal n) { s with handling := true, signals := s.signals - (n + 1) }
  | raise {thread : ThreadId} (hhandling : s.handling = true) (hwoken : s.code.woken = true)
      (hthread : s.code.thread = some thread) (hpending : s.code.pending = true) :
      Rule threads s .handle
        { s with handling := false, code := { s.code with woken := false, pending := false }
                 log := s.log ++ [.signalled] }
  | swallow (hhandling : s.handling = true) (hwoken : s.code.woken = true)
      (hidle : s.code.thread = none ∨ s.code.pending = false) :
      Rule threads s .handle { s with handling := false, code := { s.code with woken := false } }
  | escalate (hhandling : s.handling = true) (hwoken : s.code.woken = false) :
      Rule threads s .handle { s with handling := false, log := s.log ++ [.escalated] }
  | enterRaises (hpending : s.code.pending = true) :
      Rule threads s .enter
        { s with code := { s.code with pending := false }, log := s.log ++ [.entered] }
  | enter (hpending : s.code.pending = false) :
      Rule threads s .enter
        { s with
          code := { s.code with
            thread := if s.code.depth = 0 then some threads.self else s.code.thread
            depth := s.code.depth + 1 }
          blocks := s.blocks + 1 }
  | underflow {blocks : Nat} (hblocks : s.blocks = blocks + 1) (hdepth : s.code.depth = 0) :
      Rule threads s .exit { s with blocks := blocks, underflowed := true }
  | exitInner {blocks depth : Nat} (hblocks : s.blocks = blocks + 1)
      (hdepth : s.code.depth = depth + 2) :
      Rule threads s .exit { s with blocks := blocks, code := { s.code with depth := depth + 1 } }
  | exitOuter {blocks : Nat} (hblocks : s.blocks = blocks + 1) (hdepth : s.code.depth = 1) :
      Rule threads s .exit
        { s with
          blocks := blocks, code := { s.code with depth := 0, thread := none }
          injected := if s.code.thread.isSome ∧ s.injected = s.code.thread then none else s.injected }
  | fire {thread : ThreadId} (hinjected : s.injected = some thread) :
      Rule threads s .fire { s with injected := none, log := s.log ++ [.fired] }

theorem request_rule (h : s.step threads (.request r e) = some t) : Rule threads s (.request r e) t := by
  simp only [step] at h
  split at h
  · cases h
  · rename_i hnew
    split at h
    · rename_i he
      by_cases hmain : ∃ thread, s.code.thread = some thread ∧ threads.signals thread = true
      · obtain ⟨thread, hthread, hmain⟩ := hmain
        rw [UserCode.request_main hthread hmain] at h
        cases h
        exact .signalMain hnew he.1 he.2 hthread hmain
      · have hother : ∀ thread, s.code.thread = some thread → threads.signals thread = false := by
          intro thread hthread
          by_contra hne
          exact hmain ⟨thread, hthread, by simpa using hne⟩
        rw [UserCode.request_other hother] at h
        cases h
        exact .request hnew he.1 he.2 hother
    · cases h

theorem deliver_rule (hpc : s.requests.lookup r = some ⟨e, .delivering⟩)
    (h : s.step threads (.deliver r) = some t) : Rule threads s (.deliver r) t := by
  simp only [step, hpc] at h
  rcases UserCode.deliver_cases threads.signals s.code with
    ⟨thread, hthread, hpending, hmain, heq⟩ | heq
  · rw [heq] at h
    cases h
    exact .inject hpc hthread hpending hmain
  · rw [heq] at h
    cases h
    exact .pass hpc

theorem cancel_rule (hpc : s.requests.lookup r = some ⟨e, .cancelling⟩)
    (h : s.step threads (.cancel r) = some t) : Rule threads s (.cancel r) t := by
  simp only [step, hpc] at h
  split at h
  · rename_i hdone
    cases h
    exact .stale hpc hdone
  · rename_i hrunning
    have hrunning : s.taskDone e = false := by simpa using hrunning
    rcases UserCode.cancel_cases s.code with ⟨hthread, hpending, heq⟩ | ⟨hidle, heq⟩
    · rw [heq] at h
      cases h
      exact .cancel hpc hrunning hthread hpending
    · rw [heq] at h
      simp only [Bool.false_eq_true, if_false, List.append_nil] at h
      cases h
      exact .idle hpc hrunning hidle

theorem handle_rule (h : s.step threads .handle = some t) : Rule threads s .handle t := by
  simp only [step] at h
  split at h
  · rename_i hhandling
    rcases UserCode.handle_cases s.code with
      ⟨thread, hwoken, hthread, hpending, heq⟩ | ⟨hwoken, hidle, heq⟩ | ⟨hwoken, heq⟩
    · rw [heq] at h
      cases h
      exact .raise hhandling hwoken hthread hpending
    · rw [heq] at h
      simp only [List.append_nil] at h
      cases h
      exact .swallow hhandling hwoken hidle
    · rw [heq] at h
      cases h
      exact .escalate hhandling hwoken
  · cases h

theorem enter_rule (h : s.step threads .enter = some t) : Rule threads s .enter t := by
  simp only [step] at h
  cases hpending : s.code.pending with
  | true =>
      rw [UserCode.enter_pending hpending] at h
      cases h
      exact .enterRaises hpending
  | false =>
      rw [UserCode.enter_clear hpending] at h
      cases h
      exact .enter hpending

theorem exit_rule (h : s.step threads .exit = some t) : Rule threads s .exit t := by
  simp only [step] at h
  split at h
  · cases h
  · rename_i blocks hblocks
    match hdepth : s.code.depth with
    | 0 =>
        simp only [UserCode.exit, hdepth] at h
        cases h
        exact .underflow hblocks hdepth
    | 1 =>
        rw [UserCode.exit_outer hdepth] at h
        cases h
        exact .exitOuter hblocks hdepth
    | depth + 2 =>
        rw [UserCode.exit_inner hdepth] at h
        simp only [Option.isSome_none, Bool.false_eq_true, false_and, if_false] at h
        cases h
        exact .exitInner hblocks hdepth

theorem step_rule (h : s.step threads l = some t) : Rule threads s l t := by
  cases l with
  | started =>
      simp only [step] at h
      split at h
      · rename_i hdone
        cases h
        exact .started hdone
      · cases h
  | finish =>
      simp only [step] at h
      split at h
      · cases h
      · rename_i hdone
        cases h
        exact .finish (by simpa using hdone)
  | request r e => exact request_rule h
  | kill r =>
      simp only [step] at h
      split at h
      · rename_i e hpc
        cases h
        exact .kill hpc
      · cases h
  | spawn r =>
      simp only [step] at h
      split at h
      · rename_i e hpc
        cases h
        exact .spawn hpc
      · cases h
  | deliver r =>
      have h' := h
      simp only [step] at h'
      split at h'
      · rename_i e hpc
        exact deliver_rule hpc h
      · cases h'
  | post r =>
      simp only [step] at h
      split at h
      · rename_i e hpc
        cases h
        exact .post hpc
      · cases h
  | cancel r =>
      have h' := h
      simp only [step] at h'
      split at h'
      · rename_i e hpc
        exact cancel_rule hpc h
      · cases h'
  | signal n =>
      simp only [step] at h
      split at h
      · rename_i hcond
        cases h
        exact .signal hcond.1 hcond.2
      · cases h
  | handle => exact handle_rule h
  | enter => exact enter_rule h
  | exit => exact exit_rule h
  | fire =>
      simp only [step] at h
      split at h
      · cases h
      · rename_i thread hinjected
        cases h
        exact .fire hinjected

end Session

end Kernmini.Python
