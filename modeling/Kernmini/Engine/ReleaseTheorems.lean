/-
Kernmini.Engine.ReleaseTheorems — what a shell does with a release.

A release has a number, that of the oneshot channel it is answered on. A
shell answers its releases one at a time and in the order they were put:
the numbers of those answered, of the one it is answering and of those in
its channel are one list that only grows (`releases_of_step`).

A release finds the parked hold and nothing else. When a shell takes one,
the hold it names has been answered, or is parked, or has not been popped
yet (`Takes.place`; a hold never runs). If it is parked, it is finished,
and the answer is `true` (`released_of_take`).
-/
import Kernmini.Engine.InterruptFence

namespace Kernmini.Engine

open Kernmini.Wire Kernmini.Lib

/-- The release that is being answered. -/
def Pc.release : Pc → Option Nat
  | .abort release _ => release
  | .answer release _ => some release
  | _ => none

@[simp] theorem Resume.release_pc (resume : Resume) : resume.pc.release = none := by
  cases resume <;> rfl

/-- The number of a release. -/
def ShellControl.complete : ShellControl → Option Nat
  | .release _ _ complete => some complete
  | _ => none

namespace Shell

variable {services : Services} {s s' t t' : Shell} {l : Label} {item : QueueItem} {n c : Nat}
  {inbound : Inbound}

/-! ## Every release is answered in its turn -/

/-- The releases put to the shell: those answered, the one being answered,
those in the channel. -/
def releases (s : Shell) : List Nat :=
  s.answers.map Prod.fst ++
    (s.pc.release.toList ++ s.controls.filterMap ShellControl.complete)

theorem releases_congr (hanswers : s'.answers = s.answers) (hcontrols : s'.controls = s.controls)
    (hpc : s'.pc.release = s.pc.release) : s'.releases = s.releases := by
  rw [releases, releases, hanswers, hcontrols, hpc]

theorem ApplyRule.releases {control : ShellControl} {resume : Resume}
    {rest : List ShellControl} (h : ApplyRule { s with controls := rest } resume control s')
    (hcontrols : s.controls = control :: rest) (hpc : s.pc.release = none) :
    s'.releases = s.releases := by
  have hbefore : s.releases = s.answers.map Prod.fst ++
      (control.complete.toList ++ rest.filterMap ShellControl.complete) := by
    rw [Shell.releases, hpc, hcontrols]
    cases control <;> rfl
  rw [hbefore]
  cases h with
  | notHeld | stop => simp [Shell.releases, ShellControl.complete]
  | _ => rfl

theorem failItem_release (m : QueueItem) (error : Error) :
    (s.failItem m error).pc.release = none := by
  simp only [failItem]
  split <;> rfl

theorem executionDone_release (done : ExecutionDone) (resume : Resume) :
    (s.executionDone done resume).pc.release = none := by
  simp only [executionDone]
  split
  · rfl
  · exact resume.release_pc

theorem HandleItemRule.releases (h : HandleItemRule services s item s')
    (hpc : s.pc = .handle item) : s'.releases = s.releases := by
  have hnone : s.pc.release = none := by rw [hpc]; rfl
  cases h with
  | shell hex h =>
      cases h with
      | kernelInfoFailed htype => exact releases_congr rfl rfl ((failItem_release _ _).trans hnone.symm)
      | _ => exact releases_congr rfl rfl hnone.symm
  | _ => exact releases_congr rfl rfl hnone.symm

theorem LoopRule.releases (h : LoopRule services s l s') : s'.releases = s.releases := by
  cases h with
  | takeControl hpc hcontrols h | selectControl hpc hcontrols h =>
      exact h.releases hcontrols (by rw [hpc]; rfl)
  | handle hpc h => exact h.releases hpc
  | reap hpc =>
      exact releases_congr rfl rfl ((executionDone_release _ _).trans (by rw [hpc]; rfl))
  | selectDone hpc =>
      exact releases_congr rfl rfl ((executionDone_release _ _).trans (by rw [hpc]; rfl))
  | callFailed hpc =>
      exact releases_congr rfl rfl ((failItem_release _ _).trans (by rw [hpc]; rfl))
  | takeIncoming | abortIncoming => exact releases_congr rfl rfl rfl
  | @abort o release resume hpc hincoming =>
      cases release with
      | none => exact releases_congr rfl rfl (resume.release_pc.trans (by rw [hpc]; rfl))
      | some c => exact releases_congr rfl rfl (by rw [hpc]; rfl)
  | @answer o release resume hpc =>
      have hbefore : s.releases = s.answers.map Prod.fst ++
          ([release] ++ s.controls.filterMap ShellControl.complete) := by
        rw [Shell.releases, hpc]
        rfl
      rw [hbefore]
      simp [Shell.releases]
  | _ hpc => exact releases_congr rfl rfl (by rw [hpc]; rfl)

theorem releases_of_step (h : s.step services l = some s') :
    s'.releases = s.releases ∨
      ∃ control, l = .control control ∧ s'.releases = s.releases ++ control.complete.toList := by
  cases step_rule h with
  | loop hout h => exact Or.inl h.releases
  | @control control hopen hmark =>
      refine Or.inr ⟨control, rfl, ?_⟩
      cases control <;> simp [releases, ShellControl.complete]
  | firstStop hopen hmark =>
      refine Or.inr ⟨.stop, rfl, ?_⟩
      simp [releases, ShellControl.complete]
  | _ => exact Or.inl rfl

/-! ## A release that has found its hold -/

/-- The release is being answered `true`, or has been. -/
def Released (s : Shell) (c : Nat) : Prop := s.pc.release = some c ∨ (c, true) ∈ s.answers

theorem answers_of_step (h : s.step services l = some s') : s.answers <+: s'.answers := by
  cases step_rule h with
  | loop hout h => exact h.records.answers
  | _ => exact List.prefix_rfl

theorem LoopRule.released (h : LoopRule services s l s') (hrelease : s.pc.release = some c) :
    s'.Released c := by
  cases h with
  | abortIncoming hpc => exact Or.inl hrelease
  | abort hpc =>
      rw [hpc] at hrelease
      cases hrelease
      exact Or.inl rfl
  | answer hpc =>
      rw [hpc] at hrelease
      cases hrelease
      exact Or.inr (List.mem_append_right _ (List.mem_singleton_self _))
  | _ hpc =>
      rw [hpc] at hrelease
      cases hrelease

theorem Released.step (hr : s.Released c) (h : s.step services l = some s') : s'.Released c := by
  rcases hr with hrelease | hmem
  · cases step_rule h with
    | loop hout h => exact h.released hrelease
    | _ => exact Or.inl hrelease
  · exact Or.inr ((answers_of_step h).subset hmem)

theorem mem_of_lookup {answers : List (Nat × Bool)} {result : Bool}
    (h : answers.lookup c = some result) : (c, result) ∈ answers := by
  obtain ⟨front, back, heq, _⟩ := List.lookup_eq_some_iff.mp h
  rw [heq]
  simp

/-- Releases have numbers of their own, so the answer is the one that was
meant. -/
theorem Released.answer {result : Bool} (hr : s.Released c) (hnodup : s.releases.Nodup)
    (hlookup : s.answers.lookup c = some result) : result = true := by
  have hmem := mem_of_lookup hlookup
  rcases hr with hrelease | htrue
  · have hin : c ∈ s.answers.map Prod.fst := List.mem_map_of_mem hmem
    exact absurd rfl ((List.nodup_append.mp hnodup).2.2 c hin c (by simp [hrelease]))
  · have hkeys := (List.nodup_append.mp hnodup).1
    exact (Prod.mk.inj (List.inj_on_of_nodup_map hkeys hmem htrue rfl)).2

/-- A release that names the hold finishes it. -/
theorem Takes.releases {msgId releaseStatus : String} {rest : List ShellControl}
    (htake : s.Takes (.release msgId releaseStatus c) rest t) (ha : s.Accounts)
    (hheld : s.held = some item) (hid : item.request.msgId = msgId) :
    t.Released c ∧ t.Gone item ∧ t.said item.order =
      s.said item.order ++ (finishHold s.executionCount releaseStatus).1 := by
  obtain ⟨resume, happly⟩ := htake.apply
  have hleave : ∀ {t' : Shell}, t'.queue = s.queue → t'.pc.item = none → t'.held = none →
      t'.taken = s.taken → t'.active = s.active → t'.Gone item := by
    intro t' hqueue hpc hnone htaken hactive
    refine gone_of_leave ha (List.mem_singleton_self item) ?_ htaken (by rw [hactive])
    exact waiting_leave_held hqueue (hpc.trans htake.item.symm) hheld hnone
  cases happly with
  | @release _ _ _ held hheld' hid' hok =>
      obtain rfl : held = item := Option.some.inj (hheld'.symm.trans hheld)
      exact ⟨Or.inl rfl, hleave rfl rfl rfl rfl rfl, by simp [said, say, tag]⟩
  | @releaseFailed _ _ _ held hheld' hid' hfailed =>
      obtain rfl : held = item := Option.some.inj (hheld'.symm.trans hheld)
      exact ⟨Or.inl rfl, hleave rfl rfl rfl rfl rfl, by simp [said, say, tag]⟩
  | notHeld hne => exact absurd hid (hne item hheld)

/-- What a release does to the hold it names lasts, and so does its answer. -/
theorem released_of_take {msgId releaseStatus : String} {rest : List ShellControl}
    (hr : Reachable services s) (h : s.step services l = some s')
    (htake : s.Takes (.release msgId releaseStatus c) rest s') (hheld : s.held = some item)
    (hid : item.request.msgId = msgId) (hex : item.isExecute = true)
    (hreach : Lib.Reachable (Shell.step services) s' t) :
    t.Released c ∧
      t.said item.order = s.said item.order ++ (finishHold s.executionCount releaseStatus).1 := by
  have ht : s.Traces := traces_of_reachable hr
  obtain ⟨hreleased, hgone, hsaid⟩ := htake.releases ht.accounts hheld hid
  have hinv : t.Traces ∧ t.Released c ∧ t.Gone item ∧ t.said item.order =
      s.said item.order ++ (finishHold s.executionCount releaseStatus).1 := by
    refine @Lib.Reachable.invariant _ _ _ _ _ (fun t => t.Traces ∧ t.Released c ∧ t.Gone item ∧
      t.said item.order = s.said item.order ++ (finishHold s.executionCount releaseStatus).1)
      hreach ⟨traces_step ht h, hreleased, hgone, hsaid⟩ ?_
    rintro a l' b ⟨hta, hra, hga, hsa⟩ hstep
    obtain ⟨hgb, hsb⟩ := hga.step hta hex hstep
    exact ⟨traces_step hta hstep, hra.step hstep, hgb, hsb.trans hsa⟩
  exact ⟨hinv.2.1, hinv.2.2.2⟩

/-! ## Where the hold is when a release is taken -/

/-- A hold is never executed. -/
theorem not_hold_of_started (hr : Reachable services s) :
    ∀ item ∈ s.started, isHold item.request = false := by
  refine @Lib.Reachable.invariant _ _ _ _ _
    (fun s : Shell => ∀ item ∈ s.started, isHold item.request = false) hr
    (by intro item hmem; cases hmem) ?_
  intro a l b ha h item hmem
  cases step_rule h with
  | loop hout h =>
      rcases h.records.started with hsame | ⟨new, hnew, hmore⟩
      · exact ha item (hsame ▸ hmem)
      · rw [hmore] at hmem
        rcases List.mem_append.mp hmem with hold | hlast
        · exact ha item hold
        · rw [List.mem_singleton.mp hlast]
          exact hnew
  | _ => exact ha item hmem

/-- A hold with this `msg_id`. -/
def isHoldFor (msgId : String) (request : Message) : Bool :=
  isHold request && request.msgId == msgId

/-- Such a hold is in the channel or in the queue. -/
def holdWaits (s : Shell) (msgId : String) : Bool :=
  s.incoming.any (fun inbound => isHoldFor msgId inbound.message) ||
    s.queue.items.any (fun item => isHoldFor msgId item.request)

/-- A release is not taken while a hold it names waits to be parked. -/
def releasesParked (s : Shell) (l : Label) : Bool :=
  match s.controls with
  | .release msgId _ _ :: _ => !(s.takes l && s.holdWaits msgId)
  | _ => true

/-- A release that is not early finds its hold parked, or answered. -/
theorem Takes.parked {msgId releaseStatus : String} {rest : List ShellControl}
    (htake : s.Takes (.release msgId releaseStatus c) rest t) (hr : Reachable services s)
    (hnl : s.NoLoss) (hwaits : s.holdWaits msgId = false) (hmail : s.HasMail n inbound)
    (hex : (itemOf n inbound).isExecute = true) (hhold : isHold inbound.message = true)
    (hid : inbound.message.msgId = msgId) :
    s.held = some (itemOf n inbound) ∨ n ∈ repliesIn s.log := by
  have hfor : isHoldFor msgId inbound.message = true := by simp [isHoldFor, hhold, hid]
  rw [holdWaits, Bool.or_eq_false_iff, List.any_eq_false, List.any_eq_false] at hwaits
  cases htake.place hnl hmail hex with
  | channel h => exact absurd hfor (hwaits.1 inbound (List.mem_of_getElem? h.2))
  | queue hmem h => exact absurd hfor (hwaits.2 _ h)
  | held hmem h => exact Or.inl h
  | @active a hworks =>
      have hstarted := active_started hr a hworks.1
      have hnot := not_hold_of_started hr _ hstarted
      rw [hworks.2] at hnot
      exact absurd (hhold.symm.trans hnot) (by decide)
  | answered hmem h => exact Or.inr h

end Shell

end Kernmini.Engine
