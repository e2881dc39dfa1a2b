/-
Kernmini.Engine.ShellMail — what is put into the two channels of a shell
keeps its identity.

Messages leave the incoming channel in the order they were put, so the
`n`-th message put becomes the item with `order` `n` (`itemOf`), and at
every moment it has been taken or stands at its place in the channel
(`HasMail`). Controls are taken one at a time, in order, at two places of
the loop (`takes`).
-/
import Kernmini.Engine.ShellTraces

namespace Kernmini.Engine

open Kernmini.Wire Kernmini.Lib

/-- The item `enqueue` makes of the `n`-th message. -/
def itemOf (n : Nat) (inbound : Inbound) : QueueItem :=
  { priority := ((inbound.message.metadata.get "priority").bind Value.asF64).getD 0
    order := n
    inbound }

namespace Shell

variable {services : Services} {s s' t : Shell} {l : Label} {item : QueueItem}

/-! ## The incoming channel -/

/-- The message has not been taken and stands at its place in the channel. -/
def InChannel (s : Shell) (n : Nat) (inbound : Inbound) : Prop :=
  s.order ≤ n ∧ s.incoming[n - s.order]? = some inbound

/-- The message has been put to the shell as its `n`-th. -/
def HasMail (s : Shell) (n : Nat) (inbound : Inbound) : Prop :=
  itemOf n inbound ∈ s.taken ∨ s.InChannel n inbound

/-- What a step does to the messages of the channel. -/
inductive MailTurn (s s' : Shell) : Prop
  | keep (hincoming : s'.incoming = s.incoming) (horder : s'.order = s.order)
      (htaken : s'.taken = s.taken)
  | enqueue (inbound : Inbound) (rest : List Inbound) (hincoming : s.incoming = inbound :: rest)
      (hincoming' : s'.incoming = rest) (horder : s'.order = s.order + 1)
      (htaken : s'.taken = s.taken ++ [itemOf s.order inbound])
      (hqueue : s'.queue = s.queue.push (itemOf s.order inbound))
  | deliver (inbound : Inbound) (hincoming : s'.incoming = s.incoming ++ [inbound])
      (horder : s'.order = s.order) (htaken : s'.taken = s.taken)

theorem LoopRule.mail (h : LoopRule services s l s') : MailTurn s s' := by
  cases h with
  | takeIncoming hpc hincoming | abortIncoming hpc hincoming | selectIncoming hpc hincoming =>
      exact .enqueue _ _ hincoming rfl rfl rfl rfl
  | takeControl hpc hcontrols h =>
      cases h with
      | _ => exact .keep rfl rfl rfl
  | selectControl hpc hcontrols h =>
      cases h with
      | _ => exact .keep rfl rfl rfl
  | handle hpc h =>
      cases h with
      | shell hex h =>
          cases h with
          | _ => exact .keep rfl rfl rfl
      | _ => exact .keep rfl rfl rfl
  | _ => exact .keep rfl rfl rfl

theorem step_mail (h : s.step services l = some s') : MailTurn s s' := by
  cases step_rule h with
  | loop hout h => exact h.mail
  | deliver hopen => exact .deliver _ rfl rfl rfl
  | _ => exact .keep rfl rfl rfl

/-- A step leaves a message of the channel there, or takes it. -/
theorem InChannel.step {n : Nat} {inbound : Inbound} (hm : s.InChannel n inbound)
    (h : MailTurn s s') :
    s'.InChannel n inbound ∨ (itemOf n inbound ∈ s'.taken ∧ itemOf n inbound ∈ s'.queue.items) := by
  obtain ⟨hle, hget⟩ := hm
  cases h with
  | keep hincoming horder htaken =>
      left
      rw [InChannel, hincoming, horder]
      exact ⟨hle, hget⟩
  | enqueue first rest hincoming hincoming' horder htaken hqueue =>
      rw [hincoming] at hget
      rcases Nat.eq_or_lt_of_le hle with heq | hlt
      · right
        subst heq
        rw [Nat.sub_self] at hget
        cases hget
        rw [htaken, hqueue]
        exact ⟨by simp, Heap.mem_push.mpr (Or.inl rfl)⟩
      · left
        have hsub : n - s.order = n - (s.order + 1) + 1 := by omega
        rw [hsub, List.getElem?_cons_succ] at hget
        rw [InChannel, horder, hincoming']
        exact ⟨hlt, hget⟩
  | deliver last hincoming horder htaken =>
      left
      have hlt : n - s.order < s.incoming.length := (List.getElem?_eq_some_iff.mp hget).1
      rw [InChannel, hincoming, horder, List.getElem?_append_left hlt]
      exact ⟨hle, hget⟩

theorem HasMail.step {n : Nat} {inbound : Inbound} (hm : s.HasMail n inbound)
    (h : s.step services l = some s') : s'.HasMail n inbound := by
  rcases hm with htaken | hchannel
  · left
    cases step_mail h with
    | keep hincoming horder htaken' => exact htaken' ▸ htaken
    | enqueue inbound rest hincoming hincoming' horder htaken' =>
        rw [htaken']
        exact List.mem_append_left _ htaken
    | deliver inbound hincoming horder htaken' => exact htaken' ▸ htaken
  · rcases hchannel.step (step_mail h) with hchannel' | ⟨htaken', _⟩
    · exact Or.inr hchannel'
    · exact Or.inl htaken'

/-- A message that is put goes to the end of the channel. -/
theorem hasMail_of_deliver {inbound : Inbound} (h : s.deliver inbound = some s') :
    s'.HasMail (s.order + s.incoming.length) inbound := by
  unfold deliver at h
  split at h
  · cases h
    right
    refine ⟨Nat.le_add_right _ _, ?_⟩
    simp
  · cases h

/-! ## The controls -/

/-- The step takes a control. -/
def takes (s : Shell) : Label → Bool
  | .next _ =>
      match s.pc with
      | .drainControls => !s.controls.isEmpty
      | _ => false
  | .selectControl _ => true
  | _ => false

/-- A control is taken with nothing in hand and nothing left to send. -/
structure Takes (s : Shell) (c : ShellControl) (rest : List ShellControl) (s' : Shell) :
    Prop where
  controls : s.controls = c :: rest
  out : s.out = []
  item : s.pc.item = none
  isOpen : s.isOpen = true
  apply : ∃ resume, ApplyRule { s with controls := rest } resume c s'

theorem takes_rule (h : s.step services l = some s') (htakes : s.takes l = true) :
    ∃ c rest, s.Takes c rest s' := by
  cases step_rule h with
  | loop hout h =>
      have hopen := h.isOpen
      cases h with
      | takeControl hpc hcontrols h =>
          exact ⟨_, _, hcontrols, hout, by rw [hpc]; rfl, hopen, _, h⟩
      | selectControl hpc hcontrols h =>
          exact ⟨_, _, hcontrols, hout, by rw [hpc]; rfl, hopen, _, h⟩
      | _ => simp_all [takes]
  | _ => cases htakes

theorem Takes.controls_rest {c : ShellControl} {rest : List ShellControl}
    (h : s.Takes c rest s') : s'.controls = rest := by
  obtain ⟨resume, happly⟩ := h.apply
  cases happly with
  | _ => rfl

/-- A step that takes no control leaves the channel alone, or a control is
put. -/
theorem controls_of_step (h : s.step services l = some s') (htakes : s.takes l = false) :
    s'.controls = s.controls ∨ ∃ c, l = .control c ∧ s'.controls = s.controls ++ [c] := by
  cases step_rule h with
  | loop hout h =>
      left
      cases h with
      | takeControl hpc hcontrols h => simp [takes, hpc, hcontrols] at htakes
      | selectControl hpc hcontrols h => cases htakes
      | handle hpc h =>
          cases h with
          | shell hex h =>
              cases h with
              | _ => rfl
          | _ => rfl
      | _ => rfl
  | control | firstStop => exact Or.inr ⟨_, rfl, rfl⟩
  | _ => exact Or.inl rfl

end Shell

end Kernmini.Engine
