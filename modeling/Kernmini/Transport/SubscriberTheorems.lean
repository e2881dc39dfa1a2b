/-
Kernmini.Transport.SubscriberTheorems — what a client sees on the IOPub socket.

The loop of a subscriber and its channel see the same publications: that is one
equation between the two states (`Linked`), kept by every step. With the order
of the publications this gives the stream on the socket (`subscriber_stream`):
it answers and passes on what the loop took, in that order, and the
publications in it are those since the registration, without a gap.
-/
import Kernmini.Transport.Subscribers

namespace Kernmini.Transport

open Kernmini.Wire Kernmini.Engine Kernmini.Lib
open Kernmini.Wire.Session (secretHmac emptyObjectJson)

/-! ## The channel, as the loop sees it -/

namespace Iopub

variable {config : IopubConfig} {s s' : Iopub} {l : IopubLabel} {p q : PeerId}

/-- What a peer has received from its channel, and whether its receiver is
there. -/
def view (s : Iopub) (p : PeerId) : Option (List Frames × Bool) :=
  (s.table p).map fun peer => (peer.received, peer.alive)

theorem view_setPeer {peer : Peer} :
    (s.setPeer p peer).view q = if q = p then some (peer.received, peer.alive) else s.view q := by
  simp only [view, setPeer_table]
  split <;> rfl

/-- `publish` takes nothing from a channel and ends none. -/
theorem view_of_publisher (hl : l.isPublisher = true) (h : s.step config l = some s') :
    s'.view = s.view := by
  cases step_rule h with
  | send turn p peer hturn hp hpeer halive =>
      funext q
      have hset := @view_setPeer s p q
        { peer with queue := peer.queue ++ [turn.frames], sent := peer.sent ++ [turn.frames] }
      refine hset.trans ?_
      split
      · next heq =>
          rw [heq]
          simp [view, hpeer]
      · rfl
  | register | recv | drop => cases hl
  | _ => rfl

theorem view_register (h : s.step config (.register p) = some s') :
    s.view p = none ∧ s'.view q = if q = p then some ([], true) else s.view q := by
  cases step_rule h with
  | register _ hfree hnew => exact ⟨by simp [view, hnew], view_setPeer⟩

theorem view_recv (h : s.step config (.recv p) = some s') :
    ∃ peer frames rest, s.table p = some peer ∧ peer.queue = frames :: rest ∧ peer.alive = true ∧
      s'.view q = if q = p then some (peer.received ++ [frames], true) else s.view q := by
  cases step_rule h with
  | recv _ peer hpeer halive frames rest hqueue =>
      refine ⟨peer, frames, rest, hpeer, hqueue, halive, ?_⟩
      rw [view_setPeer, halive]

theorem view_drop (h : s.step config (.drop p) = some s') :
    ∃ peer, s.table p = some peer ∧ peer.alive = true ∧
      s'.view q = if q = p then some (peer.received, false) else s.view q := by
  cases step_rule h with
  | drop _ peer hpeer halive => exact ⟨peer, hpeer, halive, view_setPeer⟩

end Iopub

/-! ## One step -/

namespace Broadcast

variable {config : BroadcastConfig} {s s' t : Broadcast} {l : BroadcastLabel}
  {p q : PeerId} {sub sub' : Subscriber}

theorem subscribers_setSubscriber :
    (s.setSubscriber p sub).subscribers q = if q = p then some sub else s.subscribers q := by
  simp [setSubscriber, Function.update_apply]

/-- What a step does. -/
inductive Rule (config : BroadcastConfig) (s : Broadcast) : BroadcastLabel → Broadcast → Prop
  | publisher {l : IopubLabel} {iopub : Iopub} (hl : l.isPublisher = true)
      (h : s.iopub.step config.toIopubConfig l = some iopub) :
      Rule config s (.publisher l) { s with iopub }
  | connect {p : PeerId} {iopub : Iopub} (hp : s.subscribers p = none)
      (h : s.iopub.step config.toIopubConfig (.register p) = some iopub) :
      Rule config s (.connect p) ({ s with iopub }.setSubscriber p {})
  /-- an event that is answered -/
  | answer {p : PeerId} {sub : Subscriber} {e : SubscriberEvent} {msgId date : String} {w : Written}
      (hp : s.subscribers p = some sub) (hpc : sub.pc = .select) (hw : w.cause = .event e)
      (hwelcome : ∀ topic frames, w = .welcome topic frames →
        config.welcome msgId date topic = .ok frames) :
      Rule config s (.event p e msgId date) (s.setSubscriber p
        { sub with taken := sub.taken ++ [.event e], pc := .writing w })
  | cancel {p : PeerId} {sub : Subscriber} {topic : Bytes} {msgId date : String}
      (hp : s.subscribers p = some sub) (hpc : sub.pc = .select) :
      Rule config s (.event p (.cancel topic) msgId date) (s.setSubscriber p
        { sub with taken := sub.taken ++ [.event (.cancel topic)] })
  | take {p : PeerId} {sub : Subscriber} {peer : Peer} {frames : Frames} {rest : List Frames}
      {iopub : Iopub} (hp : s.subscribers p = some sub) (hpc : sub.pc = .select)
      (hpeer : s.iopub.table p = some peer) (hqueue : peer.queue = frames :: rest)
      (h : s.iopub.step config.toIopubConfig (.recv p) = some iopub) :
      Rule config s (.take p) ({ s with iopub }.setSubscriber p { sub with
        pc := .writing (.publication frames), taken := sub.taken ++ [Taken.publication frames] })
  | wrote {p : PeerId} {sub : Subscriber} {w : Written} (hp : s.subscribers p = some sub)
      (hpc : sub.pc = .writing w) :
      Rule config s (.wrote p)
        (s.setSubscriber p { sub with pc := .select, written := sub.written ++ [w] })
  /-- the loop ends, perhaps for an event that it took up -/
  | ended {l : BroadcastLabel} {p : PeerId} {sub : Subscriber} {taken : List Taken}
      {iopub : Iopub} {error : Option Error} (hp : s.subscribers p = some sub)
      (hrunning : sub.running = true)
      (htaken : taken = sub.taken ∨
        sub.pc = .select ∧ ∃ e, taken = sub.taken ++ [Taken.event e])
      (h : s.iopub.step config.toIopubConfig (.drop p) = some iopub) :
      Rule config s l ({ s with iopub }.setSubscriber p { sub with taken, pc := .ended error })

theorem finish_eq_some {error : Option Error} (h : s.finish config p sub error = some s') :
    ∃ iopub, s.iopub.step config.toIopubConfig (.drop p) = some iopub ∧
      s' = { s with iopub }.setSubscriber p { sub with pc := .ended error } := by
  simp only [finish, bind, Option.bind_eq_some_iff, pure, Option.some.injEq] at h
  obtain ⟨iopub, hdrop, heq⟩ := h
  exact ⟨iopub, hdrop, heq.symm⟩

theorem event_rule {e : SubscriberEvent} {msgId date : String} (hp : s.subscribers p = some sub)
    (hpc : sub.pc = .select) (h : s.event config p sub e msgId date = some s') :
    Rule config s (.event p e msgId date) s' := by
  have hrunning : sub.running = true := by rw [Subscriber.running, hpc]
  cases e with
  | subscribe topic =>
      simp only [event] at h
      split at h
      · next frames hwelcome =>
          cases h
          refine .answer hp hpc rfl ?_
          intro topic' frames' heq
          cases heq
          exact hwelcome
      · obtain ⟨iopub, hdrop, rfl⟩ := finish_eq_some h
        exact @Rule.ended config s _ p sub _ iopub _ hp hrunning (.inr ⟨hpc, _, rfl⟩) hdrop
  | cancel topic =>
      cases h
      exact .cancel hp hpc
  | ping context =>
      cases h
      exact .answer hp hpc rfl (by simp)
  | message =>
      obtain ⟨iopub, hdrop, rfl⟩ := finish_eq_some h
      exact @Rule.ended config s _ p sub _ iopub _ hp hrunning (.inr ⟨hpc, _, rfl⟩) hdrop
  | failed error =>
      obtain ⟨iopub, hdrop, rfl⟩ := finish_eq_some h
      exact @Rule.ended config s _ p sub _ iopub _ hp hrunning (.inr ⟨hpc, _, rfl⟩) hdrop

theorem step_rule (h : s.step config l = some s') : Rule config s l s' := by
  -- the loop ends without an event
  have hended : ∀ {p : PeerId} {sub : Subscriber} {error : Option Error},
      s.subscribers p = some sub → sub.running = true → s.finish config p sub error = some s' →
      Rule config s l s' := by
    intro p sub error hp hrunning h
    obtain ⟨iopub, hdrop, rfl⟩ := finish_eq_some h
    exact .ended hp hrunning (.inl rfl) hdrop
  cases l with
  | publisher l =>
      simp only [step] at h
      split at h
      · next hl =>
          obtain ⟨iopub, hiopub, rfl⟩ := Option.map_eq_some_iff.mp h
          exact .publisher hl hiopub
      · cases h
  | connect p =>
      simp only [step] at h
      split at h
      · next hp =>
          obtain ⟨iopub, hiopub, rfl⟩ := Option.map_eq_some_iff.mp h
          exact .connect hp hiopub
      · cases h
  | event p e msgId date =>
      simp only [step, bind, Option.bind_eq_some_iff] at h
      obtain ⟨sub, hp, h⟩ := h
      split at h
      · next hpc => exact event_rule hp hpc h
      · cases h
      · cases h
  | take p =>
      simp only [step, bind, Option.bind_eq_some_iff] at h
      obtain ⟨sub, hp, peer, hpeer, h⟩ := h
      split at h
      · next hpc hqueue =>
          obtain ⟨iopub, hiopub, rfl⟩ := Option.map_eq_some_iff.mp h
          exact .take hp hpc hpeer hqueue hiopub
      · cases h
  | wrote p =>
      simp only [step, bind, Option.bind_eq_some_iff] at h
      obtain ⟨sub, hp, h⟩ := h
      split at h
      · next hpc =>
          cases h
          exact .wrote hp hpc
      · cases h
      · cases h
  | writeFailed p error =>
      simp only [step, bind, Option.bind_eq_some_iff] at h
      obtain ⟨sub, hp, h⟩ := h
      split at h
      · next hpc => exact hended hp (by rw [Subscriber.running, hpc]) h
      · cases h
      · cases h
  | abort p =>
      simp only [step, bind, Option.bind_eq_some_iff] at h
      obtain ⟨sub, hp, h⟩ := h
      split at h
      · next hpc => exact hended hp (by rw [Subscriber.running, hpc]) h
      · next hpc => exact hended hp (by rw [Subscriber.running, hpc]) h
      · cases h

/-! ## Whole runs -/

/-- What a subscriber has taken from its channel, and whether its loop runs. -/
def view (s : Broadcast) (p : PeerId) : Option (List Frames × Bool) :=
  (s.subscribers p).map fun sub => (sub.taken.filterMap Taken.frames, sub.running)

/-- The loops and the channels see the same publications, and end together. -/
def Linked (s : Broadcast) : Prop := ∀ p, s.iopub.view p = s.view p

theorem view_setSubscriber : (s.setSubscriber p sub).view q =
    if q = p then some (sub.taken.filterMap Taken.frames, sub.running) else s.view q := by
  simp only [view, subscribers_setSubscriber]
  split <;> rfl

/-- The loop of one subscriber goes on, and its channel is left alone. -/
theorem Linked.setSubscriber (hs : s.Linked) (hp : s.subscribers p = some sub)
    (htaken : sub'.taken.filterMap Taken.frames = sub.taken.filterMap Taken.frames)
    (hrunning : sub'.running = sub.running) : (s.setSubscriber p sub').Linked := by
  intro q
  rw [view_setSubscriber, htaken, hrunning]
  have hq := hs q
  split
  · next heq =>
      rw [view, heq, hp] at hq
      rw [heq]
      exact hq
  · exact hq

/-- The peer of a subscriber whose loop runs, by its channel. -/
theorem Linked.peer (hs : s.Linked) (hp : s.subscribers p = some sub) :
    ∃ peer, s.iopub.table p = some peer ∧ peer.received = sub.taken.filterMap Taken.frames ∧
      peer.alive = sub.running := by
  have hview := hs p
  rw [view, hp, Option.map_some, Iopub.view] at hview
  obtain ⟨peer, hpeer, heq⟩ := Option.map_eq_some_iff.mp hview
  exact ⟨peer, hpeer, congrArg Prod.fst heq, congrArg Prod.snd heq⟩

/-- A channel has its loop. -/
theorem Linked.subscriber {peer : Peer} (hs : s.Linked) (hpeer : s.iopub.table p = some peer) :
    ∃ sub, s.subscribers p = some sub ∧ sub.running = peer.alive := by
  have hview := hs p
  rw [Iopub.view, hpeer] at hview
  obtain ⟨sub, hsub, heq⟩ := Option.map_eq_some_iff.mp hview.symm
  exact ⟨sub, hsub, congrArg Prod.snd heq⟩

theorem linked_step (hs : s.Linked) (h : s.step config l = some s') : s'.Linked := by
  cases step_rule h with
  | publisher hl hiopub =>
      intro q
      rw [Iopub.view_of_publisher hl hiopub]
      exact hs q
  | connect hp hiopub =>
      intro q
      rw [view_setSubscriber]
      refine (Iopub.view_register hiopub).2.trans ?_
      split
      · rfl
      · exact hs q
  | @answer p sub e msgId date w hp hpc hw hwelcome =>
      exact hs.setSubscriber hp (by simp [Taken.frames]) (by simp [Subscriber.running, hpc])
  | cancel hp hpc => exact hs.setSubscriber hp (by simp [Taken.frames]) rfl
  | @take p sub peer frames rest iopub hp hpc hpeer hqueue hiopub =>
      intro q
      obtain ⟨peer', frames', rest', hpeer', hqueue', halive, hview⟩ :=
        @Iopub.view_recv _ _ _ _ q hiopub
      rw [hpeer] at hpeer'
      cases hpeer'
      rw [hqueue] at hqueue'
      cases hqueue'
      rw [view_setSubscriber]
      refine hview.trans ?_
      split
      · obtain ⟨peer₀, hpeer₀, hreceived, _⟩ := hs.peer hp
        rw [hpeer] at hpeer₀
        cases hpeer₀
        simp [hreceived, Taken.frames, Subscriber.running]
      · exact hs q
  | @wrote p sub w hp hpc => exact hs.setSubscriber hp rfl (by simp [Subscriber.running, hpc])
  | @ended _ p sub taken iopub error hp hrunning htaken hiopub =>
      intro q
      obtain ⟨peer, hpeer, halive, hview⟩ := @Iopub.view_drop _ _ _ _ q hiopub
      have hframes : taken.filterMap Taken.frames = sub.taken.filterMap Taken.frames := by
        rcases htaken with rfl | ⟨_, e, rfl⟩
        · rfl
        · simp [Taken.frames]
      rw [view_setSubscriber]
      refine hview.trans ?_
      split
      · obtain ⟨peer₀, hpeer₀, hreceived, _⟩ := hs.peer hp
        rw [hpeer] at hpeer₀
        cases hpeer₀
        rw [hreceived, hframes]
        rfl
      · exact hs q

/-- What a loop has written, for what it has taken up. -/
structure Answers (config : BroadcastConfig) (sub : Subscriber) : Prop where
  front : sub.written.map Written.cause <+: sub.taken.filter Taken.answered
  conserved : sub.running = true →
    sub.taken.filter Taken.answered = (sub.written ++ sub.writing.toList).map Written.cause
  welcome : ∀ topic frames, Written.welcome topic frames ∈ sub.written ++ sub.writing.toList →
    ∃ msgId date, config.welcome msgId date topic = .ok frames

/-- One thing more is taken up, and is being written. -/
theorem Answers.take (ha : Answers config sub) (hpc : sub.pc = .select) {w : Written}
    (hw : w.cause.answered = true)
    (hwelcome : ∀ topic frames, w = .welcome topic frames →
      ∃ msgId date, config.welcome msgId date topic = .ok frames) :
    Answers config { sub with taken := sub.taken ++ [w.cause], pc := .writing w } := by
  have hrunning : sub.running = true := by rw [Subscriber.running, hpc]
  have hwriting : sub.writing = none := by rw [Subscriber.writing, hpc]
  have hall := ha.conserved hrunning
  have hwelcomes := ha.welcome
  rw [hwriting, Option.toList_none, List.append_nil] at hall hwelcomes
  refine ⟨?_, ?_, ?_⟩
  · rw [List.filter_append]
    exact ha.front.trans (List.prefix_append _ _)
  · intro _
    rw [List.filter_append, hall, List.map_append]
    simp [Subscriber.writing, hw]
  · intro topic frames hmem
    rcases List.mem_append.mp hmem with hold | hnew
    · exact hwelcomes topic frames hold
    · exact hwelcome topic frames (List.mem_singleton.mp hnew).symm

theorem answers_step (hs : ∀ p sub, s.subscribers p = some sub → Answers config sub)
    (h : s.step config l = some s') : ∀ p sub, s'.subscribers p = some sub → Answers config sub := by
  have hset : ∀ {m : Broadcast} {p₀ : PeerId} {x : Subscriber}, m.subscribers = s.subscribers →
      Answers config x → ∀ p sub, (m.setSubscriber p₀ x).subscribers p = some sub →
      Answers config sub := by
    intro m p₀ x hm hx p sub hp
    rw [subscribers_setSubscriber, hm] at hp
    split at hp
    · cases hp
      exact hx
    · exact hs p sub hp
  cases step_rule h with
  | publisher hl h => exact hs
  | connect hp h => exact hset rfl ⟨List.prefix_refl _, fun _ => rfl, by simp [Subscriber.writing]⟩
  | @answer p sub e msgId date w hp hpc hw hwelcome =>
      have hanswered : w.cause.answered = true := by cases w <;> rfl
      rw [← hw]
      refine hset rfl ((hs p sub hp).take hpc hanswered ?_)
      exact fun topic frames heq => ⟨msgId, date, hwelcome topic frames heq⟩
  | @cancel p sub topic msgId date hp hpc =>
      have ha := hs p sub hp
      have hfilter : (sub.taken ++ [Taken.event (.cancel topic)]).filter Taken.answered =
          sub.taken.filter Taken.answered := by
        simp [Taken.answered]
      refine hset rfl ⟨?_, ?_, ha.welcome⟩
      · rw [hfilter]
        exact ha.front
      · intro hrunning
        rw [hfilter]
        exact ha.conserved hrunning
  | @take p sub peer frames rest iopub hp hpc hpeer hqueue h =>
      exact hset rfl ((hs p sub hp).take (w := .publication frames) hpc rfl (by simp))
  | @wrote p sub w hp hpc =>
      have ha := hs p sub hp
      have hrunning : sub.running = true := by rw [Subscriber.running, hpc]
      have hwriting : sub.writing = some w := by rw [Subscriber.writing, hpc]
      have hall := ha.conserved hrunning
      have hwelcome := ha.welcome
      rw [hwriting] at hall hwelcome
      refine hset rfl ⟨?_, ?_, ?_⟩
      · rw [hall]
        exact List.prefix_refl _
      · intro _
        simpa [Subscriber.writing] using hall
      · simpa [Subscriber.writing] using hwelcome
  | @ended _ p sub taken iopub error hp hrunning htaken h =>
      have ha := hs p sub hp
      refine hset rfl ⟨?_, (by simp [Subscriber.running]), ?_⟩
      · rcases htaken with rfl | ⟨_, e, rfl⟩
        · exact ha.front
        · rw [List.filter_append]
          exact ha.front.trans (List.prefix_append _ _)
      · intro topic frames hmem
        have hmem : Written.welcome topic frames ∈ sub.written := by
          simpa [Subscriber.writing] using hmem
        exact ha.welcome topic frames (List.mem_append_left _ hmem)

/-! ## The stream on the socket -/

/-- A step leaves `Iopub` alone, or is a step of it. -/
theorem iopub_step (h : s.step config l = some s') :
    s'.iopub = s.iopub ∨ ∃ l', s.iopub.step config.toIopubConfig l' = some s'.iopub := by
  cases step_rule h with
  | publisher hl hiopub | connect hp hiopub | take hp hpc hpeer hqueue hiopub
  | ended hp hrunning htaken hiopub => exact .inr ⟨_, hiopub⟩
  | _ => exact .inl rfl

/-- What every step of `Iopub` keeps. -/
theorem iopub_invariant {P : Iopub → Prop}
    (hkeeps : ∀ a l b, P a → Iopub.step config.toIopubConfig a l = some b → P b)
    (hs : P s.iopub) (h : s.step config l = some s') : P s'.iopub := by
  rcases iopub_step h with heq | ⟨l', hl'⟩
  · rw [heq]
    exact hs
  · exact hkeeps _ l' _ hs hl'

/-- What a channel has been taken from is what it was given first. -/
def ReceivedFirst (s : Iopub) : Prop :=
  s.Inv ∧ ∀ p peer, s.table p = some peer → peer.received <+: peer.sent

theorem receivedFirst_step {a b : Iopub} {l : IopubLabel} (ha : ReceivedFirst a)
    (h : a.step config.toIopubConfig l = some b) : ReceivedFirst b := by
  have hinv : b.Inv := Iopub.inv_step ha.1 h
  refine ⟨hinv, ?_⟩
  intro p peer hpeer
  cases halive : peer.alive with
  | true =>
      rw [(hinv.peer hpeer).queue halive]
      exact List.prefix_append _ _
  | false =>
      cases Iopub.step_rule h with
      | send turn q old hturn hq hold hlive =>
          have hp : (a.setPeer q { old with queue := old.queue ++ [turn.frames]
                                            sent := old.sent ++ [turn.frames] }).table p = some peer := hpeer
          rw [Iopub.setPeer_table] at hp
          split at hp
          · cases hp
            rw [hlive] at halive
            cases halive
          · exact ha.2 p peer hp
      | register q hfree hnew =>
          have hp : (a.setPeer q { since := a.published.length }).table p = some peer := hpeer
          rw [Iopub.setPeer_table] at hp
          split at hp
          · cases hp
            cases halive
          · exact ha.2 p peer hp
      | recv q old hold hlive frames rest hqueue =>
          rw [Iopub.setPeer_table] at hpeer
          split at hpeer
          · cases hpeer
            rw [hlive] at halive
            cases halive
          · exact ha.2 p peer hpeer
      | drop q old hold hlive =>
          -- a receiver that is dropped now had received the front of what was sent
          rw [Iopub.setPeer_table] at hpeer
          split at hpeer
          · cases hpeer
            exact ha.2 q old hold
          · exact ha.2 p peer hpeer
      | _ => exact ha.2 p peer hpeer

/-- Everything at once, for every state of every run. -/
structure Sound (config : BroadcastConfig) (s : Broadcast) : Prop where
  linked : s.Linked
  answers : ∀ p sub, s.subscribers p = some sub → Answers config sub
  received : ReceivedFirst s.iopub

theorem sound_step (hs : Sound config s) (h : s.step config l = some s') : Sound config s' :=
  ⟨linked_step hs.linked h, answers_step hs.answers h,
    iopub_invariant (fun _ _ _ => receivedFirst_step) hs.received h⟩

theorem sound_init : Sound config {} := by
  refine ⟨fun _ => rfl, ?_, Iopub.inv_init, ?_⟩
  · intro p sub hp
    cases hp
  · intro p peer hp
    cases hp

theorem sound_of_reachable (hr : Reachable config s) : Sound config s :=
  Lib.Reachable.invariant hr sound_init (fun _ _ _ => sound_step)

theorem since_of_run {ls : List BroadcastLabel} {peer : Peer}
    (hrun : run (step config) s ls = some t) (hpeer : s.iopub.table p = some peer) :
    ∃ peer', t.iopub.table p = some peer' ∧ peer'.since = peer.since := by
  have hkeeps : ∀ a l b, (∃ peer', a.iopub.table p = some peer' ∧ peer'.since = peer.since) →
      step config a l = some b → ∃ peer', b.iopub.table p = some peer' ∧ peer'.since = peer.since := by
    intro a l b ha hstep
    refine iopub_invariant (P := fun i => ∃ peer', i.table p = some peer' ∧ peer'.since = peer.since)
      ?_ ha hstep
    rintro i l' i' ⟨peer', hpeer', hsince⟩ hi
    obtain ⟨peer₂, hpeer₂, hfollows⟩ := Iopub.peer_step hi hpeer'
    exact ⟨peer₂, hpeer₂, hfollows.since.trans hsince⟩
  exact run_invariant hkeeps hrun ⟨peer, hpeer, rfl⟩

/-- What a client that is connected in `s` has on its socket in any later state:
an answer to each of its subscriptions and pings, and the publications, in the
order in which the loop took them up; of the publications those since the
connection was registered, in the one order of all publications and without a
gap. While the loop runs nothing is missing but what is still in its channel,
and whatever is published after `s` is among it. -/
theorem subscriber_stream {ls : List BroadcastLabel} (hr : Reachable config s)
    (hrun : run (step config) s ls = some t) (hp : s.subscribers p = some sub) :
    ∃ sub' peer, t.subscribers p = some sub' ∧ t.iopub.table p = some peer ∧
      peer.since ≤ s.iopub.published.length ∧
      sub'.written.map Written.cause <+: sub'.taken.filter Taken.answered ∧
      sub'.taken.filterMap Taken.frames <+: (t.iopub.published.drop peer.since).map Prod.snd ∧
      (sub'.running = true →
        sub'.taken.filter Taken.answered = (sub'.written ++ sub'.writing.toList).map Written.cause ∧
        sub'.taken.filterMap Taken.frames ++ peer.queue =
          ((t.iopub.done p).drop peer.since).map Prod.snd) ∧
      ∀ topic frames, Written.welcome topic frames ∈ sub'.written →
        ∃ msgId date, config.welcome msgId date topic = .ok frames := by
  have hs := sound_of_reachable hr
  have ht := sound_of_reachable (Lib.Reachable.trans hr ⟨ls, hrun⟩)
  obtain ⟨peer₀, hpeer₀, _⟩ := hs.linked.peer hp
  obtain ⟨peer, hpeer, hsince⟩ := since_of_run hrun hpeer₀
  obtain ⟨sub', hsub', _⟩ := ht.linked.subscriber hpeer
  obtain ⟨peer₁, hpeer₁, hreceived, halive⟩ := ht.linked.peer hsub'
  rw [hpeer] at hpeer₁
  cases hpeer₁
  have hfirst := ht.received.2 p peer hpeer
  have hinv := ht.received.1.peer hpeer
  have ha := ht.answers p sub' hsub'
  refine ⟨sub', peer, hsub', hpeer, ?_, ha.front, ?_, ?_, ?_⟩
  · rw [hsince]
    exact (hs.received.1.peer hpeer₀).since.trans (Iopub.done_length_le _ _)
  · rw [← hreceived]
    exact hfirst.trans hinv.before
  · intro hrunning
    rw [hrunning] at halive
    refine ⟨ha.conserved hrunning, ?_⟩
    rw [← hreceived, ← hinv.queue halive, hinv.given halive]
  · intro topic frames hmem
    exact ha.welcome topic frames (List.mem_append_left _ hmem)

/-- A kernel with channels of one place. -/
def onePlace : BroadcastConfig :=
  { hmac := secretHmac, serde := emptyObjectJson, session := ⟨[], "s", "kernel"⟩, capacity := 1
    utf8Lossy := fun _ => "" }

def oneConnected : Broadcast :=
  { iopub := { peers := [0], table := Function.update (fun _ => none) 0 (some { since := 0 }) }
    subscribers := Function.update (fun _ => none) 0 (some {}) }

/-- A ping is taken up, and the message published then waits until the pong is
written. A second one is in the channel at the end. -/
def pongThenPublication : List BroadcastLabel :=
  let publish (c : CallId) : List BroadcastLabel :=
    [.publisher (.publish c { content := .object [] }), .publisher (.lock c), .publisher .send,
      .publisher .finish]
  .event 0 (.ping []) "i" "d" :: publish 7 ++ [.wrote 0, .take 0] ++ publish 8

theorem subscriber_stream_pong :
    ∃ t sub' peer, run (step onePlace) oneConnected pongThenPublication = some t ∧
      t.subscribers 0 = some sub' ∧ t.iopub.table 0 = some peer ∧
      (sub'.written.length, sub'.writing.isSome, peer.queue.length) = (1, true, 1) ∧
      sub'.written.map Written.cause <+: sub'.taken.filter Taken.answered ∧
      sub'.taken.filterMap Taken.frames <+: (t.iopub.published.drop peer.since).map Prod.snd ∧
      sub'.taken.filter Taken.answered = (sub'.written ++ sub'.writing.toList).map Written.cause ∧
      sub'.taken.filterMap Taken.frames ++ peer.queue =
        ((t.iopub.done 0).drop peer.since).map Prod.snd := by
  obtain ⟨t, sub, peer, ht, hsub, hpeer, hview, hrunning⟩ : ∃ t sub peer,
      run (step onePlace) oneConnected pongThenPublication = some t ∧
      t.subscribers 0 = some sub ∧ t.iopub.table 0 = some peer ∧
      (sub.written.length, sub.writing.isSome, peer.queue.length) = (1, true, 1) ∧
      sub.running = true := ⟨_, _, _, rfl, rfl, rfl, rfl, rfl⟩
  have hr : Reachable onePlace oneConnected := ⟨[.connect 0], rfl⟩
  obtain ⟨sub', peer', hsub', hpeer', _, hfront, hreceived, hrest, _⟩ :=
    subscriber_stream hr ht (p := 0) rfl
  rw [hsub] at hsub'
  cases hsub'
  rw [hpeer] at hpeer'
  cases hpeer'
  obtain ⟨hconserved, hqueue⟩ := hrest hrunning
  exact ⟨t, sub, peer, ht, hsub, hpeer, hview, hfront, hreceived, hconserved, hqueue⟩

end Broadcast

end Kernmini.Transport
