/-
Kernmini.Engine.StopTheorems — the requests of a shell that is stopped.

`stop_shell` puts a stop into the controls channel, after the requests that
are in the incoming channel by then. The shell leaves its loop once it has
taken the stop and has nothing left to do. Two things can leave one of
those requests without an answer (`requests_lost_at_stop`):

  * the shell drains the incoming channel before the controls. A request
    put between the two drains, and a stop put after it, are then seen in
    the wrong order: the shell takes the stop and leaves;
  * a hold that is parked over another hold loses the other.

In every run in which neither happens, a shell that has left by the
stopping branch has answered every request that was put before the stop
(`stop_loses_none`).

The ghost field `stopMark` of a shell counts the messages put before its
first stop. Messages are taken in the order they were put, so `order`
counts the messages taken, and the item with order `i` is the `i`-th
message put.
-/
import Kernmini.Engine.KernelInterrupt

namespace Kernmini.Engine

open Kernmini.Wire Kernmini.Lib

/-- The stopping branch of `run` has been taken. -/
def Pc.left : Pc → Bool
  | .shutdown requested => !requested
  | .ended requested _ => !requested
  | _ => false

/-- The iteration resumes behind the drain of the incoming channel. -/
def Resume.late : Resume → Bool
  | .controls => true
  | .settle => true
  | .top => false

/-- Behind the drain of the incoming channel and not past the stop test, or
left by it. -/
def Pc.late : Pc → Bool
  | .drainControls => true
  | .reap => true
  | .settle => true
  | .stopTest => true
  | .abort _ resume => resume.late
  | .answer _ resume => resume.late
  | .shutdown requested => !requested
  | .ended requested _ => !requested
  | _ => false

theorem Pc.late_of_left {pc : Pc} (h : pc.left = true) : pc.late = true := by
  cases pc with
  | shutdown | ended => exact h
  | _ => cases h

@[simp] theorem Resume.late_pc (resume : Resume) : resume.pc.late = resume.late := by
  cases resume <;> rfl

@[simp] theorem Resume.left_pc (resume : Resume) : resume.pc.left = false := by
  cases resume <;> rfl

namespace Shell

variable {services : Services} {s s' : Shell} {l : Label}

/-! ## Statement -/

/-- The messages in the channel that were put before the stop. -/
def early (s : Shell) : List Inbound :=
  match s.stopMark with
  | some mark => s.incoming.take (mark - s.order)
  | none => []

/-- No request waits in the channel that was put before the stop. -/
def Drained (s : Shell) : Prop := ∀ m ∈ s.early, m.message.isRequest = false

instance : Decidable s.Drained := by unfold Drained; infer_instance

/-- A shell that has left by the stopping branch has answered every request put
before the stop. -/
def StopLosesNone (s : Shell) : Prop :=
  s.pc.left = true → s.Drained ∧
    ∀ mark, s.stopMark = some mark → ∀ item ∈ s.taken, item.order < mark →
      item.isRequest = true → item.order ∈ repliesIn s.log

/-- The step takes a stop in the drain of the controls. -/
def takesStop (s : Shell) : Label → Bool
  | .next _ =>
      match s.pc, s.controls with
      | .drainControls, .stop :: _ => true
      | _, _ => false
  | _ => false

/-- The step does not take the stop before a request that was put earlier. -/
def StopsDrained (s : Shell) (l : Label) : Prop := s.takesStop l = true → s.Drained

instance : Decidable (s.StopsDrained l) := by unfold StopsDrained; infer_instance

/-! ## One step, seen from the two channels -/

/-- What a step does to the channels, the stop and the place in the loop. -/
inductive StopTurn (s : Shell) (l : Label) (s' : Shell) : Prop
  | keep (hincoming : s'.incoming = s.incoming) (horder : s'.order = s.order)
      (hmark : s'.stopMark = s.stopMark) (hstopping : s'.stopping = s.stopping)
      (hcontrols : s'.controls ⊆ s.controls) (hlate : s'.pc.late = true → s.pc.late = true)
      (hleft : s'.pc.left = true → s.pc.left = true)
  | drained (hincoming : s.incoming = []) (h : s' = { s with pc := .drainControls })
  | enqueue (m : Inbound) (rest : List Inbound) (hincoming : s.incoming = m :: rest)
      (hincoming' : s'.incoming = rest) (horder : s'.order = s.order + 1)
      (hmark : s'.stopMark = s.stopMark) (hstopping : s'.stopping = s.stopping)
      (hcontrols : s'.controls = s.controls) (hlate : s'.pc.late = true → s.pc.late = true)
      (hleft : s'.pc.left = false)
  | deliver (m : Inbound) (h : s' = { s with incoming := s.incoming ++ [m] })
  | control (c : ShellControl) (hmark : c = .stop → ∃ mark, s.stopMark = some mark)
      (h : s' = { s with controls := s.controls ++ [c] })
  | stopped (hmark : s.stopMark = none)
      (h : s' = { s with
        controls := s.controls ++ [.stop], stopMark := some (s.order + s.incoming.length) })
  | stop (rest : List ShellControl) (pc : Pc) (hcontrols : s.controls = .stop :: rest)
      (hlate : pc.late = true → s.takesStop l = true) (hleft : pc.left = false)
      (h : s' = { s with controls := rest, stopping := true, pc })
  | leave (hpc : s.pc = .stopTest) (hqueue : s.queue.isEmpty = true)
      (hactive : s.active = none) (hheld : s.held = none) (hout : s.out = [])
      (hstopping : s.stopping = true) (h : s' = { s with pc := .shutdown false })

theorem StopTurn.of_pc (hincoming : s'.incoming = s.incoming) (horder : s'.order = s.order)
    (hmark : s'.stopMark = s.stopMark) (hstopping : s'.stopping = s.stopping)
    (hcontrols : s'.controls = s.controls) (hlate : s'.pc.late = true → s.pc.late = true)
    (hleft : s'.pc.left = true → s.pc.left = true) : StopTurn s l s' :=
  .keep hincoming horder hmark hstopping (by rw [hcontrols]; exact List.Subset.refl _) hlate hleft

/-- A handler that goes back to the top of the loop, or ends it otherwise. -/
theorem StopTurn.of_early (hincoming : s'.incoming = s.incoming) (horder : s'.order = s.order)
    (hmark : s'.stopMark = s.stopMark) (hstopping : s'.stopping = s.stopping)
    (hcontrols : s'.controls = s.controls) (hlate : s'.pc.late = false) : StopTurn s l s' := by
  refine .of_pc hincoming horder hmark hstopping hcontrols (fun h => ?_) (fun h => ?_)
  · rw [hlate] at h
    cases h
  · rw [Pc.late_of_left h] at hlate
    cases hlate

theorem failItem_late {item : QueueItem} {error : Error} :
    (s.failItem item error).pc.late = false := by
  by_cases hkind : error.kind = .closed <;> simp [failItem, hkind, Pc.late]

theorem HandleItemRule.stop {item : QueueItem} (h : HandleItemRule services s item s') :
    StopTurn s l s' := by
  cases h with
  | shell hex h =>
      cases h with
      | kernelInfoFailed htype => exact .of_early rfl rfl rfl rfl rfl failItem_late
      | _ => exact .of_early rfl rfl rfl rfl rfl rfl
  | _ => exact .of_early rfl rfl rfl rfl rfl rfl

/-- A control is taken at `resume`. -/
theorem ApplyRule.takes {c : ShellControl} {resume : Resume} {rest : List ShellControl}
    (h : ApplyRule { s with controls := rest } resume c s') (hcontrols : s.controls = c :: rest)
    (hlate : resume.late = true → s.pc.late = true)
    (htakes : resume.late = true → c = .stop → s.takesStop l = true) : StopTurn s l s' := by
  have hsub : rest ⊆ s.controls := by
    rw [hcontrols]
    exact List.subset_cons_self c rest
  cases h with
  | stop =>
      refine .stop rest resume.pc hcontrols (fun h => ?_) resume.left_pc rfl
      rw [Resume.late_pc] at h
      exact htakes h rfl
  | notHeld hheld =>
      exact .keep rfl rfl rfl rfl hsub (fun h => hlate (by simpa using h)) (fun h => by simp at h)
  | interruptFailed hactive =>
      exact .keep rfl rfl rfl rfl hsub (fun h => absurd h Bool.false_ne_true)
        (fun h => absurd h Bool.false_ne_true)
  | _ => exact .keep rfl rfl rfl rfl hsub hlate (fun h => absurd h Bool.false_ne_true)

theorem executionDone_stop {done : ExecutionDone} {resume : Resume}
    (hlate : resume.late = true → s.pc.late = true) :
    StopTurn s l (s.executionDone done resume) := by
  unfold executionDone
  split
  · exact .of_pc rfl rfl rfl rfl rfl hlate (fun h => absurd h Bool.false_ne_true)
  · exact .of_pc rfl rfl rfl rfl rfl (fun h => hlate (by simpa using h))
      (fun h => by simp at h)

theorem LoopRule.stop (h : LoopRule services s l s') (hout : s.out = []) : StopTurn s l s' := by
  cases h with
  | @takeIncoming o m rest hpc hincoming =>
      refine .enqueue m rest hincoming rfl rfl rfl rfl rfl id ?_
      simp [enqueue, hpc, Pc.left]
  | @abortIncoming o release resume m rest hpc hincoming =>
      refine .enqueue m rest hincoming rfl rfl rfl rfl rfl id ?_
      simp [enqueue, hpc, Pc.left]
  | @selectIncoming m rest hpc hincoming =>
      exact .enqueue m rest hincoming rfl rfl rfl rfl rfl (fun h => absurd h Bool.false_ne_true) rfl
  | incomingDrained hpc hincoming => exact .drained hincoming rfl
  | takeControl hpc hcontrols h =>
      refine h.takes hcontrols (fun _ => by rw [hpc]; rfl) (fun _ hc => ?_)
      simp [takesStop, hpc, hcontrols, hc]
  | selectControl hpc hcontrols h =>
      exact h.takes hcontrols (fun h => absurd h Bool.false_ne_true) (fun h => absurd h Bool.false_ne_true)
  | controlsDrained hpc =>
      exact .of_pc rfl rfl rfl rfl rfl (fun _ => by rw [hpc]; rfl) (fun h => absurd h Bool.false_ne_true)
  | reap hpc hactive hresult => exact executionDone_stop (fun _ => by rw [hpc]; rfl)
  | selectDone hpc hactive hresult => exact executionDone_stop (fun h => absurd h Bool.false_ne_true)
  | notReaped hpc hresult =>
      exact .of_pc rfl rfl rfl rfl rfl (fun _ => by rw [hpc]; rfl) (fun h => absurd h Bool.false_ne_true)
  | settle hpc =>
      exact .of_pc rfl rfl rfl rfl rfl (fun _ => by rw [hpc]; rfl) (fun h => absurd h Bool.false_ne_true)
  | leave hpc hstopping hqueue hactive hheld =>
      exact .leave hpc hqueue hactive hheld hout hstopping rfl
  | handle hpc h => exact h.stop
  | @abort o release resume hpc hincoming =>
      have hlate : resume.late = true → s.pc.late = true := by
        rw [hpc]
        exact id
      unfold abortQueued
      cases release with
      | some complete => exact .of_pc rfl rfl rfl rfl rfl hlate (fun h => absurd h Bool.false_ne_true)
      | none =>
          exact .of_pc rfl rfl rfl rfl rfl (fun h => hlate (by simpa using h))
            (fun h => by simp at h)
  | answer hpc =>
      refine .of_pc rfl rfl rfl rfl rfl (fun h => ?_) (fun h => by simp at h)
      rw [Resume.late_pc] at h
      rw [hpc]
      exact h
  | callFailed hpc => exact .of_early rfl rfl rfl rfl rfl failItem_late
  | shutdownReturned hpc =>
      refine .of_pc rfl rfl rfl rfl rfl (fun h => ?_) (fun h => ?_)
      · rw [hpc]
        exact h
      · rw [hpc]
        exact h
  | _ => exact .of_early rfl rfl rfl rfl rfl rfl

theorem step_stop (h : s.step services l = some s') : StopTurn s l s' := by
  cases step_rule h with
  | loop hout h => exact h.stop hout
  | deliver hopen => exact .deliver _ rfl
  | control hopen hmark => exact .control _ hmark rfl
  | firstStop hopen hmark => exact .stopped hmark rfl
  | _ => exact .of_pc rfl rfl rfl rfl rfl id id

/-! ## The invariant of a stop -/

/-- What is known of a stop while no request is passed over. -/
structure StopInv (s : Shell) : Prop where
  mark : ∀ mark, s.stopMark = some mark → mark ≤ s.order + s.incoming.length
  marked : s.stopping = true ∨ .stop ∈ s.controls → ∃ mark, s.stopMark = some mark
  drained : s.stopping = true → s.pc.late = true → s.Drained
  left : s.pc.left = true → s.stopping = true ∧
    ∀ item ∈ s.taken, item.isRequest = true → item.order ∈ repliesIn s.log

theorem stopInv_init : StopInv {} where
  mark := fun mark h => absurd h.symm (Option.some_ne_none mark)
  marked := by rintro (h | h) <;> cases h
  drained := fun h => absurd h Bool.false_ne_true
  left := fun h => absurd h Bool.false_ne_true

theorem drained_of_nil (h : s.incoming = []) : s.Drained := by
  intro m hm
  unfold early at hm
  split at hm
  · rw [h, List.take_nil] at hm
    cases hm
  · cases hm

/-- Taking a message takes the oldest, so none becomes early. -/
theorem drained_of_enqueue {m : Inbound} {rest : List Inbound} (hd : s.Drained)
    (hincoming : s.incoming = m :: rest) (hincoming' : s'.incoming = rest)
    (horder : s'.order = s.order + 1) (hmark : s'.stopMark = s.stopMark) : s'.Drained := by
  intro m' hm'
  refine hd m' ?_
  unfold early at hm' ⊢
  rw [hmark] at hm'
  cases hstop : s.stopMark with
  | none =>
      rw [hstop] at hm'
      cases hm'
  | some mark =>
      rw [hstop] at hm'
      simp only [hincoming', horder] at hm'
      simp only [hincoming]
      cases hlen : mark - s.order with
      | zero =>
          rw [show mark - (s.order + 1) = 0 by omega, List.take_zero] at hm'
          cases hm'
      | succ n =>
          rw [show mark - (s.order + 1) = n by omega] at hm'
          exact List.mem_cons_of_mem m hm'

/-- A message put after the stop is not early. -/
theorem drained_of_deliver {m : Inbound} (hd : s.Drained)
    (hle : ∀ mark, s.stopMark = some mark → mark ≤ s.order + s.incoming.length) :
    Drained { s with incoming := s.incoming ++ [m] } := by
  intro m' hm'
  refine hd m' ?_
  unfold early at hm' ⊢
  cases hstop : s.stopMark with
  | none =>
      simp only [hstop] at hm'
      cases hm'
  | some mark =>
      have hlen := hle mark hstop
      simp only [hstop] at hm'
      rwa [List.take_append_of_le_length (by omega)] at hm'

/-- Once a shell has left, it takes nothing in, and its log only grows. -/
theorem left_step (hleft : s.pc.left = true) (h : s.step services l = some s') :
    s'.taken = s.taken ∧ ∃ es, s'.log = s.log ++ es := by
  cases step_rule h with
  | loop hout h =>
      cases h with
      | shutdownReturned hpc => exact ⟨rfl, [], by simp⟩
      | _ => simp_all [Pc.left]
  | emit | commPump | task => exact ⟨rfl, _, rfl⟩
  | _ => exact ⟨rfl, [], by simp⟩

/-- The requests taken by a shell that finds nothing left to do are answered. -/
theorem answered_of_idle (hnl : s.NoLoss) (hpc : s.pc = .stopTest)
    (hqueue : s.queue.isEmpty = true) (hactive : s.active = none) (hheld : s.held = none)
    (hout : s.out = []) : ∀ item ∈ s.taken, item.isRequest = true →
      item.order ∈ repliesIn s.log := by
  intro item hmem hreq
  have hgood : s.endedBadly = false := by rw [endedBadly, hpc]
  rcases hnl hgood item hmem hreq with hq | hh | ⟨a, ha, _⟩ | (hp | ho) | hlog
  · rw [List.isEmpty_iff.mp hqueue] at hq
    cases hq
  · rw [hheld] at hh
    cases hh
  · rw [hactive] at ha
    cases ha
  · rw [hpc] at hp
    cases hp
  · rw [hout] at ho
    cases ho
  · exact hlog

theorem stopInv_step (hi : s.StopInv) (hnl : s.NoLoss) (hok : s.StopsDrained l)
    (h : s.step services l = some s') : s'.StopInv := by
  obtain ⟨hmark, hmarked, hdrained, hleft⟩ := hi
  cases step_stop h with
  | keep hincoming' horder' hmark' hstopping' hcontrols' hlate' hleft' =>
      refine ⟨?_, ?_, ?_, ?_⟩
      · rw [hmark', horder', hincoming']
        exact hmark
      · rw [hmark', hstopping']
        exact fun hstop => hmarked (hstop.imp_right (fun hmem => hcontrols' hmem))
      · rw [hstopping']
        intro hstop hl
        have hd := hdrained hstop (hlate' hl)
        simpa only [Drained, early, hmark', hincoming', horder'] using hd
      · intro hl
        obtain ⟨hstop, hanswered⟩ := hleft (hleft' hl)
        obtain ⟨htaken, es, hlog⟩ := left_step (hleft' hl) h
        rw [hstopping', htaken, hlog, repliesIn_append]
        exact ⟨hstop, fun item hmem hreq => List.mem_append_left _ (hanswered item hmem hreq)⟩
  | drained hincoming h' =>
      subst h'
      exact ⟨hmark, hmarked, fun _ _ => drained_of_nil hincoming,
        fun hl => absurd hl Bool.false_ne_true⟩
  | enqueue m rest hincoming hincoming' horder' hmark' hstopping' hcontrols' hlate' hleft' =>
      refine ⟨?_, ?_, ?_, ?_⟩
      · intro mark hm
        rw [hmark'] at hm
        have hle := hmark mark hm
        rw [hincoming, List.length_cons] at hle
        rw [horder', hincoming']
        omega
      · rw [hmark', hstopping', hcontrols']
        exact hmarked
      · rw [hstopping']
        intro hstop hl
        exact drained_of_enqueue (hdrained hstop (hlate' hl)) hincoming hincoming' horder' hmark'
      · rw [hleft']
        exact fun hl => absurd hl Bool.false_ne_true
  | deliver m h' =>
      subst h'
      refine ⟨fun mark hm => ?_, hmarked, fun hstop hl => ?_, hleft⟩
      · have hle := hmark mark hm
        simp only [List.length_append, List.length_singleton]
        omega
      · exact drained_of_deliver (hdrained hstop hl) hmark
  | control c hmark' h' =>
      subst h'
      refine ⟨hmark, ?_, hdrained, hleft⟩
      rintro (hstop | hmem)
      · exact hmarked (Or.inl hstop)
      · rcases List.mem_append.mp hmem with hold | hnew
        · exact hmarked (Or.inr hold)
        · exact hmark' (List.mem_singleton.mp hnew).symm
  | stopped hnone h' =>
      -- no stop was put before, so none has been taken
      have hrunning : s.stopping = false := by
        by_contra hstop
        obtain ⟨mark, hm⟩ := hmarked (Or.inl (by simpa using hstop))
        rw [hnone] at hm
        cases hm
      subst h'
      refine ⟨fun mark hm => ?_, fun _ => ⟨_, rfl⟩, fun hstop => ?_, hleft⟩
      · cases hm
        exact le_rfl
      · rw [hrunning] at hstop
        cases hstop
  | stop rest pc hcontrols hlate' hleft' h' =>
      have hmem : ShellControl.stop ∈ s.controls := by
        rw [hcontrols]
        exact List.mem_cons_self
      subst h'
      refine ⟨hmark, fun _ => hmarked (Or.inr hmem), fun _ hl => hok (hlate' hl), fun hl => ?_⟩
      rw [hleft'] at hl
      cases hl
  | leave hpc hqueue hactive hheld hout hstopping h' =>
      have hanswered := answered_of_idle hnl hpc hqueue hactive hheld hout
      subst h'
      refine ⟨hmark, hmarked, fun hstop _ => hdrained hstop ?_, fun _ => ⟨hstopping, hanswered⟩⟩
      rw [hpc]
      rfl

/-- A shell in a run that parks no hold over another and passes over no request
at a stop. -/
structure StopSafe (s : Shell) : Prop where
  accounts : s.Accounts
  noLoss : s.NoLoss
  stop : s.StopInv

theorem stopSafe_init : StopSafe {} := ⟨accounts_init, noLoss_init, stopInv_init⟩

theorem stopSafe_step (hs : s.StopSafe) (hparks : s.ParksFree l) (hstops : s.StopsDrained l)
    (h : s.step services l = some s') : s'.StopSafe :=
  ⟨accounts_step hs.accounts h, (noLoss_step_iff hs.accounts hs.noLoss h).mpr hparks,
    stopInv_step hs.stop hs.noLoss hstops h⟩

theorem StopSafe.stopLosesNone (hs : s.StopSafe) : s.StopLosesNone := by
  intro hleft
  obtain ⟨hstopping, hanswered⟩ := hs.stop.left hleft
  refine ⟨hs.stop.drained hstopping (Pc.late_of_left hleft), ?_⟩
  intro mark _ item hmem _ hreq
  exact hanswered item hmem hreq

end Shell

namespace Kernel

variable {services : Services} {s s' : Kernel} {l : Label}

/-! ## Every shell of the kernel -/

/-- The step of a shell parks no hold over another, and does not take the stop
in the drain of the controls while a request put before it is waiting. -/
def StopsClean (s : Kernel) : Label → Prop
  | .shell k l => ∀ x ∈ s.tasks[k]?, x.ParksFree l ∧ x.StopsDrained l
  | _ => True

instance : DecidableRel StopsClean := fun s l =>
  inferInstanceAs (Decidable (l.OnShell fun k l => ∀ x ∈ s.tasks[k]?, x.ParksFree l ∧ x.StopsDrained l))

theorem stopSafe_of_step (hs : ∀ x ∈ s.tasks, x.StopSafe) (hok : StopsClean s l)
    (h : s.step services l = some s') : ∀ x ∈ s'.tasks, x.StopSafe := by
  intro x' hx'
  obtain ⟨k, hget⟩ := List.getElem?_of_mem hx'
  cases task_turn h hget with
  | same hget => exact hs x' (List.mem_of_getElem? hget)
  | own x l' hl hget hstep =>
      subst hl
      obtain ⟨hparks, hstops⟩ := hok x hget
      exact Shell.stopSafe_step (hs x (List.mem_of_getElem? hget)) hparks hstops hstep
  | put x l' hput hget hstep =>
      -- a put is no step of the scheduler
      refine Shell.stopSafe_step (hs x (List.mem_of_getElem? hget)) ?_ ?_ hstep
      · intro o item hl
        subst hl
        cases hput
      · intro htakes
        cases l' with
        | next o => cases hput
        | _ => cases htakes
  | spawn id purpose hl hpc hnone hx =>
      rw [hx]
      exact Shell.stopSafe_init

/-- In every run in which no hold is parked over another, and no stop is taken
before a request that was put earlier, every shell that has left by the
stopping branch has answered all requests put before the stop. -/
theorem stop_loses_none {ls : List Label} {t : Kernel}
    (hrun : run (Kernel.step services) {} ls = some t)
    (hok : StepsMeet (Kernel.step services) StopsClean {} ls) :
    ∀ x ∈ t.tasks, x.StopLosesNone := by
  have hsafe : ∀ x ∈ t.tasks, x.StopSafe := by
    refine @run_invariant_of_meets _ _ _ _ (fun s : Kernel => ∀ x ∈ s.tasks, x.StopSafe)
      (fun _ _ _ ha hl h => stopSafe_of_step ha hl h) _ _ _ hrun hok ?_
    intro x hx
    rw [List.mem_singleton.mp hx]
    exact Shell.stopSafe_init
  exact fun x hx => (hsafe x hx).stopLosesNone

/-- The client session `A` closes its subshell with delete, and the stop is put. -/
def closeWithDelete : List Label :=
  [.command (.closeSubshell 0 "A" "x" true), .select (.command "u"), .stop 0]

/-- The cell of `A` is routed to its subshell. -/
def routeSessionCell : List Label := [.receive sessionCell, .select .shell, .next [], .next []]

/-- The execution of shell 1 returns and its trace is sent. -/
def finishCell : List Label :=
  [Shell.Label.task .emit, .task .emit, .task (.returned (.ok {})), .task (.pump (.recvMany 1)),
    .task (.pump (.act true)), .task .flushed, .task .emit, .task .emit, .task .finish].map
      (.shell 1)

/-- The cell comes before the stop, and the shell sees them in that order. -/
def stopAfterCell : List Label :=
  openRoute ++ routeSessionCell ++ closeWithDelete ++
    List.replicate 9 (.shell 1 (.next Shell.quiet)) ++ finishCell ++
    List.replicate 5 (.shell 1 (.next Shell.quiet))

/-- The shell leaves by the stopping branch, with the cell answered. -/
theorem stop_loses_none_in_order :
    ∃ t x, run (Kernel.step subshellServices) {} stopAfterCell = some t ∧ x ∈ t.tasks ∧
      x.pc.left = true ∧ x.stopMark = some 1 ∧ x.StopLosesNone := by
  have hrun : (run (Kernel.step subshellServices) {} stopAfterCell).map
      (fun t => t.tasks[1]?.map (fun x => (x.pc.left, x.stopMark))) =
        some (some (true, some 1)) := by decide
  obtain ⟨t, ht, hview⟩ := Option.map_eq_some_iff.mp hrun
  obtain ⟨x, hx, hview⟩ := Option.map_eq_some_iff.mp hview
  obtain ⟨hleft, hmark⟩ := Prod.mk.inj hview
  have hmem : x ∈ t.tasks := List.mem_of_getElem? hx
  exact ⟨t, x, ht, hmem, hleft, hmark, stop_loses_none ht (by decide) x hmem⟩

/-- The cell comes between the two drains of the shell, and the stop after it. -/
def stopBeforeCell : List Label :=
  openRoute ++ [.shell 1 (.next Shell.quiet)] ++ routeSessionCell ++ closeWithDelete ++
    List.replicate 5 (.shell 1 (.next Shell.quiet)) ++ [.shell 1 (.shutdownReturned (.ok ()))]

/-- A held cell for the subshell `x`. -/
def heldCell (msgId : String) (priority : UInt64) : Inbound :=
  { message :=
      { header := [("msg_id", .string msgId), ("msg_type", .string "execute_request"),
          ("subshell_id", .string "x")]
        metadata := [("priority", .number (.posInt priority)), ("hold", .bool true)]
        content := .object [("code", .string "")] }
    reply := 0
    identity := [] }

/-- A held cell is routed to shell 1, which parks it. -/
def parkHeld (msgId : String) (priority : UInt64) : List Label :=
  [.receive (heldCell msgId priority), .select .shell, .next [], .next []] ++
    List.replicate 8 (.shell 1 (.next Shell.quiet)) ++ List.replicate 2 (.shell 1 .emit) ++
    [.shell 1 (.next Shell.quiet)]

/-- Two held cells, the second over the first, come before the stop, and the
second times out. -/
def stopAfterOverwrite : List Label :=
  openRoute ++ parkHeld "a" 0 ++ parkHeld "b" 1 ++ closeWithDelete ++
    List.replicate 7 (.shell 1 (.next Shell.quiet)) ++
    [.shell 1 .selectTimeout] ++ List.replicate 3 (.shell 1 .emit) ++
    List.replicate 6 (.shell 1 (.next Shell.quiet))

/-- In both runs the shell leaves by the stopping branch, and a request put
before the stop has no answer: in the first it is still in the channel, in
the second its hold was overwritten. -/
theorem requests_lost_at_stop :
    (∃ t x, run (Kernel.step subshellServices) {} stopBeforeCell = some t ∧ x ∈ t.tasks ∧
      ¬ x.StopLosesNone) ∧
    (∃ t x, run (Kernel.step subshellServices) {} stopAfterOverwrite = some t ∧ x ∈ t.tasks ∧
      ¬ x.StopLosesNone) := by
  constructor
  · have hrun : (run (Kernel.step subshellServices) {} stopBeforeCell).map
        (fun t => t.tasks[1]?.map (fun x => (x.pc.left, decide x.Drained))) =
          some (some (true, false)) := by decide
    obtain ⟨t, ht, hview⟩ := Option.map_eq_some_iff.mp hrun
    obtain ⟨x, hx, hview⟩ := Option.map_eq_some_iff.mp hview
    obtain ⟨hleft, hwaiting⟩ := Prod.mk.inj hview
    exact ⟨t, x, ht, List.mem_of_getElem? hx,
      fun h => of_decide_eq_false hwaiting (h hleft).1⟩
  · have hrun : (run (Kernel.step subshellServices) {} stopAfterOverwrite).map
        (fun t => t.tasks[1]?.map (fun x => (x.pc.left, x.stopMark,
          x.taken.any (fun item => item.order == 0 && item.isRequest), repliesIn x.log))) =
          some (some (true, some 2, true, [1])) := by decide
    obtain ⟨t, ht, hview⟩ := Option.map_eq_some_iff.mp hrun
    obtain ⟨x, hx, hview⟩ := Option.map_eq_some_iff.mp hview
    simp only [Prod.mk.injEq] at hview
    obtain ⟨hleft, hmark, htaken, hreplies⟩ := hview
    refine ⟨t, x, ht, List.mem_of_getElem? hx, fun h => ?_⟩
    obtain ⟨item, hmem, hitem⟩ := List.any_eq_true.mp htaken
    simp only [Bool.and_eq_true, beq_iff_eq] at hitem
    have hanswer := (h hleft).2 2 hmark item hmem (by omega) hitem.2
    rw [hreplies, hitem.1] at hanswer
    revert hanswer
    decide

end Kernel

end Kernmini.Engine
