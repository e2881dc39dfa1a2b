/-
Kernmini.Transport.PublishReturns — no call of `Iopub::publish` is left hanging.

A publication holds the lock while it waits for room in the channel of each
subscriber, and the others wait for the lock. `tokio`'s mutex gives it to those
who wait in the order in which they came, be it a call of `publish` or the task
of a new peer: `Locked` is `Broadcast` with that queue, and with fewer runs. The
list of peers may still hold the sender of a loop that has ended.

`publish_returns` says that none of this is for ever: with room for one message
in a channel, a call comes to its return by the turns of those who came to the
lock before it, the steps of the publication that has it and of the loops of
the subscribers, whatever has happened before. A loop that runs can always make
room, and a sender whose loop has ended is removed.

`turnRank` counts the steps before the lock is given back: four for each peer
still to come to, of which two are for the loop of the peer that the
publication is at. `rank` adds as much for everybody ahead.
-/
import Kernmini.Transport.SubscriberTheorems

namespace Kernmini.Transport

open Kernmini.Wire Kernmini.Engine Kernmini.Lib

namespace Iopub

variable {config : IopubConfig} {s s' : Iopub} {l : IopubLabel}

/-- A call that sends has the lock, and no channel is given more than it holds. -/
structure Held (config : IopubConfig) (s : Iopub) : Prop where
  sending : ∀ c, s.calls c = some .sending → ∃ turn, s.turn = some turn ∧ turn.call = c
  room : ∀ p peer, s.table p = some peer → peer.queue.length ≤ config.capacity

theorem Held.setCall (hs : Held config s) {c : CallId} {pc : PublishPc} (hpc : pc ≠ .sending) :
    Held config (s.setCall c pc) := by
  refine ⟨?_, hs.room⟩
  intro d hd
  rw [setCall_calls] at hd
  split at hd
  · cases hd
    exact absurd rfl hpc
  · exact hs.sending d hd

theorem Held.setPeer (hs : Held config s) {p : PeerId} {peer : Peer}
    (hroom : peer.queue.length ≤ config.capacity) : Held config (s.setPeer p peer) := by
  refine ⟨hs.sending, ?_⟩
  intro q peer' hq
  rw [setPeer_table] at hq
  split at hq
  · cases hq
    exact hroom
  · exact hs.room q peer' hq

/-- A send is made when there is room. -/
theorem room_of_send (h : s.step config .send = some s') :
    ∃ turn p peer, s.turn = some turn ∧ s.peers[turn.index]? = some p ∧ s.table p = some peer ∧
      peer.queue.length < config.capacity := by
  simp only [step, bind, Option.bind_eq_some_iff] at h
  obtain ⟨turn, hturn, p, hp, peer, hpeer, h⟩ := h
  split at h
  · next hsend => exact ⟨turn, p, peer, hturn, hp, hpeer, hsend.2⟩
  · cases h

theorem held_step (hs : Held config s) (h : s.step config l = some s') : Held config s' := by
  cases step_rule h with
  | encodeFailed | publish => exact hs.setCall (by simp)
  | lock c frames hfree hcall =>
      refine ⟨?_, hs.room⟩
      intro d hd
      have hd' : (s.setCall c .sending).calls d = some .sending := hd
      rw [setCall_calls] at hd'
      split at hd'
      · next heq => exact ⟨_, rfl, heq.symm⟩
      · obtain ⟨turn, hturn, _⟩ := hs.sending d hd'
        rw [hfree] at hturn
        cases hturn
  | send turn p peer hturn hp hpeer halive =>
      obtain ⟨turn', p', peer', hturn', hp', hpeer', hroom⟩ := room_of_send h
      rw [hturn] at hturn'
      cases hturn'
      rw [hp] at hp'
      cases hp'
      rw [hpeer] at hpeer'
      cases hpeer'
      have hset : Held config (s.setPeer p { peer with queue := peer.queue ++ [turn.frames]
                                                       sent := peer.sent ++ [turn.frames] }) := by
        apply hs.setPeer
        simp only [List.length_append, List.length_singleton]
        omega
      refine ⟨?_, hset.room⟩
      intro d hd
      obtain ⟨turn', hturn', hcall⟩ := hs.sending d hd
      rw [hturn] at hturn'
      cases hturn'
      exact ⟨_, rfl, hcall⟩
  | sendFailed turn p peer hturn hp hpeer hdead =>
      refine ⟨?_, hs.room⟩
      intro d hd
      obtain ⟨turn', hturn', hcall⟩ := hs.sending d hd
      rw [hturn] at hturn'
      cases hturn'
      exact ⟨_, rfl, hcall⟩
  | finish turn hturn hend =>
      refine ⟨?_, hs.room⟩
      intro d hd
      have hd' : (s.setCall turn.call (.returned (.ok ()))).calls d = some .sending := hd
      rw [setCall_calls] at hd'
      split at hd'
      · cases hd'
      · next hne =>
          obtain ⟨turn', hturn', hcall⟩ := hs.sending d hd'
          rw [hturn] at hturn'
          cases hturn'
          exact absurd hcall.symm hne
  | register p hfree hnew => exact ⟨hs.sending, (hs.setPeer (Nat.zero_le _)).room⟩
  | recv p peer hpeer halive frames rest hqueue =>
      have hroom := hs.room p peer hpeer
      rw [hqueue, List.length_cons] at hroom
      exact hs.setPeer (by show rest.length ≤ _; omega)
  | drop p peer hpeer halive => exact hs.setPeer (Nat.zero_le _)

end Iopub

namespace Broadcast

variable {config : BroadcastConfig} {s s' t : Broadcast} {p : PeerId} {c : CallId}

/-! ## The steps before the lock is given back -/

/-- The publication that has the lock goes on, and the loops of the subscribers
take and write. -/
def goesOn : BroadcastLabel → Bool
  | .publisher .send | .publisher .sendFailed | .publisher .finish | .take _ | .wrote _ => true
  | _ => false

/-- The steps of the loop of `p` before there is room in its channel. -/
def stalled (config : BroadcastConfig) (s : Broadcast) (p : PeerId) : Nat :=
  match s.iopub.table p, s.subscribers p with
  | some peer, some sub =>
      if peer.alive && decide (config.capacity ≤ peer.queue.length) then
        if sub.writing.isSome then 2 else 1
      else 0
  | _, _ => 0

/-- The steps before the lock is given back. -/
def turnRank (config : BroadcastConfig) (s : Broadcast) : Nat :=
  match s.iopub.turn with
  | none => 0
  | some turn =>
      1 + 4 * (s.iopub.peers.length - turn.index) +
        ((s.iopub.peers[turn.index]?).map (stalled config s)).getD 0

theorem stalled_le : stalled config s p ≤ 2 := by
  unfold stalled
  split
  · split
    · split <;> omega
    · omega
  · omega

theorem stalled_getD_le (o : Option PeerId) : (o.map (stalled config s)).getD 0 ≤ 2 := by
  cases o with
  | none => simp
  | some p => exact stalled_le

/-- A full channel, by what its loop does. -/
theorem stalled_of_full {peer : Peer} {sub : Subscriber} (hpeer : s.iopub.table p = some peer)
    (hp : s.subscribers p = some sub) (halive : peer.alive = true)
    (hfull : config.capacity ≤ peer.queue.length) :
    stalled config s p = if sub.writing.isSome then 2 else 1 := by
  simp [stalled, hpeer, hp, halive, hfull]

theorem stalled_of_room {peer : Peer} {sub : Subscriber} (hpeer : s.iopub.table p = some peer)
    (hp : s.subscribers p = some sub) (hroom : peer.queue.length < config.capacity) :
    stalled config s p = 0 := by
  have hle : ¬ config.capacity ≤ peer.queue.length := by omega
  simp [stalled, hpeer, hp, hle]

theorem turnRank_of_turn {turn : Turn} (hturn : s.iopub.turn = some turn) :
    turnRank config s = 1 + 4 * (s.iopub.peers.length - turn.index) +
      ((s.iopub.peers[turn.index]?).map (stalled config s)).getD 0 := by
  simp only [turnRank, hturn]

/-- A turn that has begun, at the first of the peers. -/
theorem turnRank_le {turn : Turn} (hturn : s.iopub.turn = some turn) :
    turnRank config s ≤ 4 * s.iopub.peers.length + 3 := by
  have hle : ((s.iopub.peers[turn.index]?).map (stalled config s)).getD 0 ≤ 2 := stalled_getD_le _
  rw [turnRank_of_turn hturn]
  omega

/-- A step by which the lock is given back sooner. -/
def Progress (config : BroadcastConfig) (s : Broadcast) : Prop :=
  ∃ l b, goesOn l = true ∧ s.step config l = some b ∧ turnRank config b < turnRank config s ∧
    b.iopub.peers.length ≤ s.iopub.peers.length

/-! ## Each place the publication can be at -/

theorem progress_finish {turn : Turn} (hturn : s.iopub.turn = some turn)
    (hend : s.iopub.peers.length ≤ turn.index) : Progress config s := by
  let b : Broadcast :=
    { s with iopub := { s.iopub.setCall turn.call (.returned (.ok ())) with turn := none } }
  have hstep : s.step config (.publisher .finish) = some b := by
    simp [step, IopubLabel.isPublisher, Iopub.step, hturn, Nat.not_lt.mpr hend, b]
  refine ⟨_, b, rfl, hstep, ?_, le_refl _⟩
  rw [turnRank_of_turn hturn]
  show 0 < _
  omega

theorem progress_sendFailed {turn : Turn} {peer : Peer} (hturn : s.iopub.turn = some turn)
    (hp : s.iopub.peers[turn.index]? = some p) (hpeer : s.iopub.table p = some peer)
    (hdead : peer.alive = false) : Progress config s := by
  let turn' : Turn := { turn with failed := turn.failed ++ [p] }
  let b : Broadcast :=
    { s with iopub := { s.iopub with peers := swapRemove s.iopub.peers turn.index, turn := some turn' } }
  have hstep : s.step config (.publisher .sendFailed) = some b := by
    simp [step, IopubLabel.isPublisher, Iopub.step, hturn, hp, hpeer, hdead, b, turn']
  have hlength := (swapRemove_perm hp).length_eq
  rw [List.length_cons] at hlength
  refine ⟨_, b, rfl, hstep, ?_, by show (swapRemove _ _).length ≤ _; omega⟩
  obtain ⟨hi, _⟩ := List.getElem?_eq_some_iff.mp hp
  have hle : ((b.iopub.peers[turn'.index]?).map (stalled config b)).getD 0 ≤ 2 := stalled_getD_le _
  have hpeers : b.iopub.peers = swapRemove s.iopub.peers turn.index := rfl
  have hindex : turn'.index = turn.index := rfl
  rw [turnRank_of_turn (show b.iopub.turn = some turn' from rfl), turnRank_of_turn hturn]
  rw [hpeers, hindex] at hle ⊢
  omega

theorem progress_send {turn : Turn} {peer : Peer} (hturn : s.iopub.turn = some turn)
    (hp : s.iopub.peers[turn.index]? = some p) (hpeer : s.iopub.table p = some peer)
    (halive : peer.alive = true) (hroom : peer.queue.length < config.capacity) :
    Progress config s := by
  let turn' : Turn := { turn with index := turn.index + 1, sent := turn.sent ++ [p] }
  let b : Broadcast :=
    { s with iopub := { s.iopub.setPeer p { peer with queue := peer.queue ++ [turn.frames]
                                                      sent := peer.sent ++ [turn.frames] } with
                        turn := some turn' } }
  have hstep : s.step config (.publisher .send) = some b := by
    simp [step, IopubLabel.isPublisher, Iopub.step, hturn, hp, hpeer, halive, hroom, b, turn']
  refine ⟨_, b, rfl, hstep, ?_, le_refl _⟩
  obtain ⟨hi, _⟩ := List.getElem?_eq_some_iff.mp hp
  have hle : ((b.iopub.peers[turn'.index]?).map (stalled config b)).getD 0 ≤ 2 := stalled_getD_le _
  have hpeers : b.iopub.peers = s.iopub.peers := rfl
  have hindex : turn'.index = turn.index + 1 := rfl
  rw [turnRank_of_turn (show b.iopub.turn = some turn' from rfl), turnRank_of_turn hturn]
  rw [hpeers, hindex] at hle ⊢
  omega

/-- A step of the loop of `p` that leaves the publication where it is. -/
theorem turnRank_lt_of_stalled {b : Broadcast} {turn : Turn} (hturn : s.iopub.turn = some turn)
    (hp : s.iopub.peers[turn.index]? = some p) (hpeers : b.iopub.peers = s.iopub.peers)
    (hturn' : b.iopub.turn = s.iopub.turn) (hlt : stalled config b p < stalled config s p) :
    turnRank config b < turnRank config s := by
  rw [hturn] at hturn'
  rw [turnRank_of_turn hturn', turnRank_of_turn hturn, hpeers, hp]
  simp only [Option.map_some, Option.getD_some]
  omega

/-- The loop of a subscriber makes room in its channel. -/
theorem progress_stalled {turn : Turn} {peer : Peer} {sub : Subscriber}
    (hturn : s.iopub.turn = some turn) (hp : s.iopub.peers[turn.index]? = some p)
    (hpeer : s.iopub.table p = some peer) (hsub : s.subscribers p = some sub)
    (halive : peer.alive = true) (hrunning : sub.running = true) (hcapacity : 0 < config.capacity)
    (hbound : peer.queue.length ≤ config.capacity) (hfull : config.capacity ≤ peer.queue.length) :
    Progress config s := by
  have hstalled := stalled_of_full hpeer hsub halive hfull
  cases hpc : sub.pc with
  | select =>
      cases hqueue : peer.queue with
      | nil =>
          rw [hqueue, List.length_nil] at hfull
          omega
      | cons frames rest =>
          let peer' : Peer := { peer with queue := rest, received := peer.received ++ [frames] }
          let sub' : Subscriber := { sub with
            pc := .writing (.publication frames), taken := sub.taken ++ [Taken.publication frames] }
          let b : Broadcast := { s with iopub := s.iopub.setPeer p peer' }.setSubscriber p sub'
          have hstep : s.step config (.take p) = some b := by
            simp [step, hsub, hpeer, hpc, hqueue, Iopub.step, halive, b, peer', sub']
          refine ⟨_, b, rfl, hstep, ?_, le_refl _⟩
          apply turnRank_lt_of_stalled (b := b) hturn hp rfl rfl
          have hpeer' : b.iopub.table p = some peer' := by
            show (s.iopub.setPeer p peer').table p = _
            rw [Iopub.setPeer_table, if_pos rfl]
          have hsub' : b.subscribers p = some sub' := by
            show Function.update s.subscribers p (some sub') p = _
            rw [Function.update_self]
          rw [hqueue, List.length_cons] at hbound
          have hroom : peer'.queue.length < config.capacity := hbound
          rw [stalled_of_room hpeer' hsub' hroom, hstalled, Subscriber.writing, hpc]
          exact Nat.zero_lt_one
  | writing w =>
      let sub' : Subscriber := { sub with pc := .select, written := sub.written ++ [w] }
      let b : Broadcast := s.setSubscriber p sub'
      have hstep : s.step config (.wrote p) = some b := by
        simp [step, hsub, hpc, b, sub']
      refine ⟨_, b, rfl, hstep, ?_, le_refl _⟩
      apply turnRank_lt_of_stalled (b := b) hturn hp rfl rfl
      have hsub' : b.subscribers p = some sub' := by
        show Function.update s.subscribers p (some sub') p = _
        rw [Function.update_self]
      have hpeer' : b.iopub.table p = some peer := hpeer
      have hwriting : sub.writing = some w := by rw [Subscriber.writing, hpc]
      rw [stalled_of_full hpeer' hsub' halive hfull, hstalled, hwriting]
      exact Nat.lt_add_one 1
  | ended error =>
      rw [Subscriber.running, hpc] at hrunning
      cases hrunning

/-! ## Whole runs -/

/-- What is used of a state of a run. -/
structure Running (config : BroadcastConfig) (s : Broadcast) : Prop where
  sound : Sound config s
  order : s.iopub.OrderInv
  held : s.iopub.Held config.toIopubConfig

theorem running_step {l : BroadcastLabel} (hs : Running config s) (h : s.step config l = some s') :
    Running config s' :=
  ⟨sound_step hs.sound h, iopub_invariant (fun _ _ _ => Iopub.orderInv_step) hs.order h,
    iopub_invariant (fun _ _ _ => Iopub.held_step) hs.held h⟩

theorem running_init : Running config {} := by
  refine ⟨sound_init, Iopub.orderInv_init, ?_, ?_⟩
  · intro d hd
    cases hd
  · intro p peer hp
    cases hp

/-- While the lock is taken, it comes nearer to being given back. -/
theorem progress {turn : Turn} (hcapacity : 0 < config.capacity) (hs : Running config s)
    (hturn : s.iopub.turn = some turn) : Progress config s := by
  cases hp : s.iopub.peers[turn.index]? with
  | none => exact progress_finish hturn (List.getElem?_eq_none_iff.mp hp)
  | some p =>
      have hknown := hs.sound.received.1.known (List.mem_of_getElem? hp)
      obtain ⟨peer, hpeer⟩ := Option.isSome_iff_exists.mp hknown
      cases halive : peer.alive with
      | false => exact progress_sendFailed hturn hp hpeer halive
      | true =>
          by_cases hroom : peer.queue.length < config.capacity
          · exact progress_send hturn hp hpeer halive hroom
          · obtain ⟨sub, hsub, hrunning⟩ := hs.sound.linked.subscriber hpeer
            rw [halive] at hrunning
            exact progress_stalled hturn hp hpeer hsub halive hrunning hcapacity
              (hs.held.room p peer hpeer) (Nat.not_lt.mp hroom)

end Broadcast

/-! ## The queue at the lock -/

/-- Who waits at `self.peers.lock().await`. -/
inductive Waiter where
  | call (c : CallId)
  | peer (p : PeerId)
  deriving DecidableEq

def PublishPc.waits : Option PublishPc → Bool
  | some (.waiting _) => true
  | _ => false

theorem waiting_of_waits {pc : Option PublishPc} (h : PublishPc.waits pc = true) :
    ∃ frames, pc = some (.waiting frames) := by
  unfold PublishPc.waits at h
  split at h
  · exact ⟨_, rfl⟩
  · cases h

/-- Who gets the lock by a step. -/
def BroadcastLabel.locker : BroadcastLabel → Option Waiter
  | .publisher (.lock c) => some (.call c)
  | .connect p => some (.peer p)
  | _ => none

/-- The call that a step brings to the lock. -/
def Broadcast.joins (b : Broadcast) : BroadcastLabel → List Waiter
  | .publisher (.publish c _) => if PublishPc.waits (b.iopub.calls c) then [.call c] else []
  | _ => []

/-- The kernel's `Iopub`, with the queue of its mutex. -/
structure Locked where
  broadcast : Broadcast := {}
  waiters : List Waiter := []

inductive LockedLabel where
  | go (l : BroadcastLabel)
  /-- the handshake of a peer is done, and its task comes to the lock -/
  | arrive (p : PeerId)
  /-- the task of a peer is aborted at the lock -/
  | leave (p : PeerId)

namespace Locked

def step (config : BroadcastConfig) (s : Locked) : LockedLabel → Option Locked
  | .go l =>
      match s.broadcast.step config l, l.locker with
      | some b, none => some ⟨b, s.waiters ++ b.joins l⟩
      | some b, some w => if s.waiters.head? = some w then some ⟨b, s.waiters.tail⟩ else none
      | none, _ => none
  | .arrive p =>
      if .peer p ∈ s.waiters ∨ (s.broadcast.subscribers p).isSome then none
      else some { s with waiters := s.waiters ++ [.peer p] }
  | .leave p => some { s with waiters := s.waiters.erase (.peer p) }

/-- The runs from the start of the kernel. -/
def Reachable (config : BroadcastConfig) (s : Locked) : Prop := Lib.Reachable (step config) {} s

variable {config : BroadcastConfig} {s s' : Locked} {b : Broadcast} {l : BroadcastLabel}
  {c : CallId} {p : PeerId}

/-- What a step does to the queue. -/
inductive Rule (config : BroadcastConfig) (s : Locked) : LockedLabel → Locked → Prop
  | join {l : BroadcastLabel} {b : Broadcast} (h : s.broadcast.step config l = some b)
      (hl : l.locker = none) : Rule config s (.go l) ⟨b, s.waiters ++ b.joins l⟩
  | lock {l : BroadcastLabel} {b : Broadcast} {w : Waiter} {rest : List Waiter}
      (h : s.broadcast.step config l = some b) (hl : l.locker = some w)
      (hhead : s.waiters = w :: rest) : Rule config s (.go l) ⟨b, rest⟩
  | arrive {p : PeerId} (hout : Waiter.peer p ∉ s.waiters)
      (hnew : s.broadcast.subscribers p = none) :
      Rule config s (.arrive p) { s with waiters := s.waiters ++ [.peer p] }
  | leave {p : PeerId} : Rule config s (.leave p) { s with waiters := s.waiters.erase (.peer p) }

theorem step_rule {l : LockedLabel} (h : s.step config l = some s') : Rule config s l s' := by
  cases l with
  | go l =>
      simp only [step] at h
      split at h
      · next hstep hl =>
          cases h
          exact .join hstep hl
      · next hstep hl =>
          split at h
          · next hhead =>
              cases h
              exact .lock hstep hl (List.eq_cons_of_mem_head? hhead)
          · cases h
      · cases h
  | arrive p =>
      simp only [step] at h
      split at h
      · cases h
      · next hnew =>
          cases h
          obtain ⟨hout, hnone⟩ := not_or.mp hnew
          exact .arrive hout (Option.not_isSome_iff_eq_none.mp hnone)
  | leave p =>
      cases h
      exact .leave

/-! ## Who is in it -/

/-- The calls are changed by the steps of publications alone. -/
theorem calls_step {b' : Broadcast} (h : b.step config l = some b')
    (hl : ∀ l', l ≠ .publisher l') : b'.iopub.calls = b.iopub.calls := by
  have hkept : ∀ {l' : IopubLabel} {iopub : Iopub}, l'.isPublisher = false →
      b.iopub.step config.toIopubConfig l' = some iopub → iopub.calls = b.iopub.calls := by
    intro l' iopub hl' hstep
    cases Iopub.step_rule hstep with
    | register | recv | drop => rfl
    | _ => cases hl'
  cases Broadcast.step_rule h with
  | publisher hpublisher hstep => exact absurd rfl (hl _)
  | connect hp hstep | take hp hpc hpeer hqueue hstep | ended hp hrunning htaken hstep =>
      exact hkept rfl hstep
  | answer | cancel | wrote => rfl

/-- A step of a publication is one of `Iopub`. -/
theorem publisher_step {b' : Broadcast} {l : IopubLabel}
    (h : b.step config (.publisher l) = some b') : l.isPublisher = true ∧
      ∃ iopub, b.iopub.step config.toIopubConfig l = some iopub ∧ b' = { b with iopub } := by
  simp only [Broadcast.step] at h
  split at h
  · next hl =>
      obtain ⟨iopub, hstep, heq⟩ := Option.map_eq_some_iff.mp h
      exact ⟨hl, iopub, hstep, heq.symm⟩
  · cases h

/-- A call waits once it has come to the lock, until it has it. -/
theorem waits_step (hs : b.iopub.OrderInv) {b' : Broadcast} (h : b.step config l = some b') :
    PublishPc.waits (b'.iopub.calls c) = true ↔
      .call c ∈ b'.joins l ∨ PublishPc.waits (b.iopub.calls c) = true ∧ l.locker ≠ some (.call c) := by
  cases l with
  | publisher l =>
      obtain ⟨hl, iopub, hstep, rfl⟩ := publisher_step h
      cases Iopub.step_rule hstep with
      | encodeFailed d message hnew error =>
          by_cases heq : c = d <;> simp [Broadcast.joins, BroadcastLabel.locker,
            Iopub.setCall_calls, PublishPc.waits, heq, hnew]
      | publish d message hnew frames hencode =>
          by_cases heq : c = d <;> simp [Broadcast.joins, BroadcastLabel.locker,
            Iopub.setCall_calls, PublishPc.waits, heq]
      | lock d frames hfree hcall =>
          by_cases heq : c = d
          · simp [Broadcast.joins, BroadcastLabel.locker, Iopub.setCall, PublishPc.waits, heq]
          · simp [Broadcast.joins, BroadcastLabel.locker, Iopub.setCall, PublishPc.waits, heq,
              Ne.symm heq]
      | finish turn hturn hend =>
          have hsending := hs.turn hturn
          by_cases heq : c = turn.call <;> simp [Broadcast.joins, BroadcastLabel.locker,
            Iopub.setCall, PublishPc.waits, heq, hsending]
      | send | sendFailed => simp [Broadcast.joins, BroadcastLabel.locker, Iopub.setPeer]
      | register | recv | drop => cases hl
  | _ =>
      rw [calls_step h (by simp)]
      simp [Broadcast.joins, BroadcastLabel.locker]

/-- A call that joins the queue is new. -/
theorem new_of_joins {b' : Broadcast} (h : b.step config l = some b')
    (hjoins : Waiter.call c ∈ b'.joins l) : b.iopub.calls c = none := by
  cases l with
  | publisher l =>
      obtain ⟨_, iopub, hstep, rfl⟩ := publisher_step h
      cases Iopub.step_rule hstep with
      | encodeFailed d message hnew | publish d message hnew =>
          have heq : c = d := by
            simp only [Broadcast.joins] at hjoins
            split at hjoins
            · simpa using hjoins
            · cases hjoins
          rw [heq, hnew]
      | _ => cases hjoins
  | _ => cases hjoins

/-- A step brings one call to the lock at most. -/
theorem joins_cases (b : Broadcast) (l : BroadcastLabel) :
    b.joins l = [] ∨ ∃ c, b.joins l = [.call c] := by
  unfold Broadcast.joins
  split
  · split
    · exact .inr ⟨_, rfl⟩
    · exact .inl rfl
  · exact .inl rfl

theorem joins_of_locker {w : Waiter} (hl : l.locker = some w) : b.joins l = [] := by
  unfold Broadcast.joins
  split
  · cases hl
  · rfl

/-- A task that has not registered does so only by its own step. -/
theorem unregistered_step {b' : Broadcast} (h : b.step config l = some b')
    (hp : b.subscribers p = none) (hl : l.locker ≠ some (.peer p)) : b'.subscribers p = none := by
  have hset : ∀ {q : PeerId} {sub sub' : Subscriber} {x : Broadcast}, b.subscribers q = some sub →
      x.subscribers = b.subscribers → (x.setSubscriber q sub').subscribers p = none := by
    intro q sub sub' x hq hx
    have hne : p ≠ q := by
      rintro rfl
      rw [hp] at hq
      cases hq
    rw [Broadcast.subscribers_setSubscriber, if_neg hne, hx, hp]
  cases Broadcast.step_rule h with
  | publisher => exact hp
  | @connect q iopub hq hstep =>
      have hne : p ≠ q := by
        rintro rfl
        exact hl rfl
      rw [Broadcast.subscribers_setSubscriber, if_neg hne]
      exact hp
  | answer hq | cancel hq | take hq | wrote hq | ended hq => exact hset hq rfl

/-- Everybody who waits is in the queue, once. -/
structure Queued (s : Locked) : Prop where
  nodup : s.waiters.Nodup
  calls : ∀ c, .call c ∈ s.waiters ↔ PublishPc.waits (s.broadcast.iopub.calls c) = true
  peers : ∀ p, .peer p ∈ s.waiters → s.broadcast.subscribers p = none

theorem queued_step {l : LockedLabel} (hs : Queued s) (hrun : s.broadcast.iopub.OrderInv)
    (h : s.step config l = some s') : Queued s' := by
  cases step_rule h with
  | @join l b hstep hl =>
      refine ⟨?_, fun c => ?_, fun p hp => ?_⟩
      · refine List.nodup_append'.mpr ⟨hs.nodup, ?_, ?_⟩
        · rcases joins_cases b l with hnone | ⟨c, hone⟩
          · simp [hnone]
          · simp [hone]
        · intro w hw hjoins
          rcases joins_cases b l with hnone | ⟨c, hone⟩
          · simp [hnone] at hjoins
          · have hnew := new_of_joins (c := c) hstep (by simp [hone])
            rw [hone, List.mem_singleton] at hjoins
            rw [hjoins, hs.calls, hnew] at hw
            cases hw
      · rw [waits_step hrun hstep, List.mem_append, hs.calls, hl]
        simp [or_comm]
      · rcases List.mem_append.mp hp with hold | hnew
        · exact unregistered_step hstep (hs.peers p hold) (by simp [hl])
        · rcases joins_cases b l with hnone | ⟨c, hone⟩
          · simp [hnone] at hnew
          · simp [hone] at hnew
  | @lock l b w rest hstep hl hhead =>
      have hnodup := hs.nodup
      rw [hhead, List.nodup_cons] at hnodup
      have hjoins := joins_of_locker (b := b) hl
      have hrest : ∀ {w'}, w' ∈ rest ↔ w' ∈ s.waiters ∧ w' ≠ w := by
        intro w'
        rw [hhead, List.mem_cons]
        constructor
        · intro hw'
          refine ⟨.inr hw', ?_⟩
          rintro rfl
          exact hnodup.1 hw'
        · rintro ⟨rfl | hw', hne⟩
          · exact absurd rfl hne
          · exact hw'
      refine ⟨hnodup.2, fun c => ?_, fun p hp => ?_⟩
      · rw [waits_step hrun hstep, hjoins, hrest, hs.calls, hl]
        simp only [List.not_mem_nil, false_or, ne_eq, Option.some.injEq]
        exact and_congr_right fun _ => not_congr eq_comm
      · obtain ⟨hold, hne⟩ := hrest.mp hp
        refine unregistered_step hstep (hs.peers p hold) ?_
        rw [hl]
        exact fun heq => hne (Option.some.inj heq).symm
  | @arrive p hout hnew =>
      refine ⟨?_, fun c => ?_, fun q hq => ?_⟩
      · simp only [List.nodup_append', List.nodup_singleton, List.disjoint_singleton]
        exact ⟨hs.nodup, trivial, hout⟩
      · rw [← hs.calls]
        simp
      · rcases List.mem_append.mp hq with hold | hq
        · exact hs.peers q hold
        · cases List.mem_singleton.mp hq
          exact hnew
  | @leave p =>
      refine ⟨hs.nodup.erase _, fun c => ?_, fun q hq => hs.peers q (List.mem_of_mem_erase hq)⟩
      rw [← hs.calls]
      exact List.mem_erase_of_ne (by simp)

/-! ## The return -/

/-- The turns of those who wait, the publication that has the lock, and the loops
of the subscribers. -/
def serves : LockedLabel → Bool
  | .go l => Broadcast.goesOn l || l.locker.isSome
  | _ => false

/-- The place of a call in the queue, the next one being 1. -/
def ahead (c : CallId) (s : Locked) : Nat :=
  if PublishPc.waits (s.broadcast.iopub.calls c) then s.waiters.idxOf (.call c) + 1 else 0

/-- The steps of `turns` turns, in each of which a peer may be added. -/
def load (peers turns : Nat) : Nat := turns * (4 * (peers + turns) + 5)

theorem load_turn (peers turns : Nat) : load peers turns + (4 * peers + 3) < load peers (turns + 1) := by
  have hle : turns * (4 * (peers + turns) + 5) ≤ turns * (4 * (peers + (turns + 1)) + 5) :=
    Nat.mul_le_mul_left _ (by omega)
  rw [load, load, Nat.add_mul, Nat.one_mul]
  omega

theorem load_register (peers turns : Nat) : load (peers + 1) turns < load peers (turns + 1) := by
  have heq : peers + 1 + turns = peers + (turns + 1) := by omega
  rw [load, load, heq, Nat.add_mul, Nat.one_mul]
  omega

theorem load_mono {peers peers' : Nat} (turns : Nat) (h : peers ≤ peers') :
    load peers turns ≤ load peers' turns :=
  Nat.mul_le_mul_left _ (by omega)

/-- A bound for the steps before the call `c` returns. -/
def rank (config : BroadcastConfig) (c : CallId) (s : Locked) : Nat :=
  load s.broadcast.iopub.peers.length (ahead c s) + Broadcast.turnRank config s.broadcast

/-- A call of `publish` that encoded its message, at whatever point it is. -/
def Called (c : CallId) (s : Iopub) : Prop :=
  PublishPc.waits (s.calls c) = true ∨ s.calls c = some .sending ∨
    s.calls c = some (.returned (.ok ()))

/-- What is used of a state of a run. -/
structure Good (config : BroadcastConfig) (c : CallId) (s : Locked) : Prop where
  running : Broadcast.Running config s.broadcast
  queued : Queued s
  called : Called c s.broadcast.iopub

/-- A step that brings the call `c` nearer to its return. -/
def Progress (config : BroadcastConfig) (c : CallId) (s : Locked) : Prop :=
  ∃ l b, serves l = true ∧ s.step config l = some b ∧ rank config c b < rank config c s

/-- While the lock is taken. -/
theorem progress_turn (hs : Good config c s) (h : Broadcast.Progress config s.broadcast) :
    Progress config c s := by
  obtain ⟨l, b, hl, hstep, hlt, hpeers⟩ := h
  have hlocker : l.locker = none ∧ b.joins l = [] := by
    unfold Broadcast.goesOn at hl
    split at hl
    all_goals first | exact ⟨rfl, rfl⟩ | cases hl
  have hgo : s.step config (.go l) = some ⟨b, s.waiters⟩ := by
    simp only [step, hstep, hlocker, List.append_nil]
  refine ⟨.go l, _, by simp [serves, hl], hgo, ?_⟩
  have hwaits := waits_step (c := c) hs.running.order hstep
  rw [hlocker.1, hlocker.2] at hwaits
  have hahead : ahead c ⟨b, s.waiters⟩ = ahead c s := by
    simp only [ahead]
    simp [hwaits]
  have hload := load_mono (ahead c s) hpeers
  simp only [rank, hahead]
  omega

/-- Everybody behind moves up by one. -/
theorem ahead_lock {w : Waiter} {rest : List Waiter} (hs : Good config c s)
    (hhead : s.waiters = w :: rest) (hstep : s.broadcast.step config l = some b)
    (hl : l.locker = some w) (hwaits : PublishPc.waits (s.broadcast.iopub.calls c) = true) :
    ahead c s = ahead c ⟨b, rest⟩ + 1 := by
  have hjoins : b.joins l = [] := joins_of_locker hl
  have hafter := waits_step (c := c) hs.running.order hstep
  rw [hjoins, hl, hwaits] at hafter
  by_cases hw : w = .call c
  · simp [ahead, hwaits, hafter, hhead, hw]
  · simp [ahead, hwaits, hafter, hhead, hw, List.idxOf_cons_ne rest hw]

/-- The first in the queue is given the lock. -/
theorem progress_lock (hs : Good config c s) (hfree : s.broadcast.iopub.turn = none)
    (hwaits : PublishPc.waits (s.broadcast.iopub.calls c) = true) : Progress config c s := by
  have hmem := (hs.queued.calls c).mpr hwaits
  obtain ⟨w, rest, hhead⟩ := List.exists_cons_of_ne_nil (List.ne_nil_of_mem hmem)
  have hfirst : w ∈ s.waiters := by simp [hhead]
  have hgo : ∀ {l b}, s.broadcast.step config l = some b → l.locker = some w →
      s.step config (.go l) = some ⟨b, rest⟩ := by
    intro l b hstep hl
    simp [step, hstep, hl, hhead]
  have hzero : Broadcast.turnRank config s.broadcast = 0 := by simp [Broadcast.turnRank, hfree]
  cases w with
  | call d =>
      obtain ⟨frames, hcall⟩ := waiting_of_waits ((hs.queued.calls d).mp hfirst)
      let b : Broadcast :=
        { s.broadcast with iopub := { s.broadcast.iopub.setCall d .sending with
            turn := some { call := d, frames, before := s.broadcast.iopub.peers }
            published := s.broadcast.iopub.published ++ [(d, frames)] } }
      have hstep : s.broadcast.step config (.publisher (.lock d)) = some b := by
        simp [Broadcast.step, IopubLabel.isPublisher, Iopub.step, hfree, hcall, b]
      refine ⟨_, ⟨b, rest⟩, rfl, hgo hstep rfl, ?_⟩
      have hload := load_turn s.broadcast.iopub.peers.length (ahead c ⟨b, rest⟩)
      have hturn : Broadcast.turnRank config b ≤ 4 * b.iopub.peers.length + 3 :=
        Broadcast.turnRank_le rfl
      have hpeers : b.iopub.peers = s.broadcast.iopub.peers := rfl
      rw [hpeers] at hturn
      simp only [rank, hzero, ahead_lock hs hhead hstep rfl hwaits, hpeers]
      omega
  | peer p =>
      have hnone := hs.queued.peers p hfirst
      have htable : s.broadcast.iopub.table p = none := by
        have hlinked := hs.running.sound.linked p
        rw [Broadcast.view, hnone] at hlinked
        exact Option.map_eq_none_iff.mp hlinked
      let b : Broadcast :=
        { s.broadcast with iopub :=
          { s.broadcast.iopub.setPeer p { since := s.broadcast.iopub.published.length } with
            peers := s.broadcast.iopub.peers ++ [p] } }.setSubscriber p {}
      have hstep : s.broadcast.step config (.connect p) = some b := by
        simp [Broadcast.step, hnone, Iopub.step, hfree, htable, b]
      refine ⟨_, ⟨b, rest⟩, rfl, hgo hstep rfl, ?_⟩
      have hturn : b.iopub.turn = none := hfree
      have hzero' : Broadcast.turnRank config b = 0 := by simp [Broadcast.turnRank, hturn]
      have hpeers : b.iopub.peers.length = s.broadcast.iopub.peers.length + 1 :=
        List.length_append
      simp only [rank, hzero, hzero', ahead_lock hs hhead hstep rfl hwaits, hpeers]
      exact load_register _ _

theorem called_step {b' : Broadcast} (hc : Called c b.iopub) (h : b.step config l = some b') :
    Called c b'.iopub := by
  refine Broadcast.iopub_invariant (P := Called c) ?_ hc h
  intro i l' i' hi hstep
  have hset : ∀ {d : CallId} {pc : PublishPc}, (c = d → pc = .sending ∨ pc = .returned (.ok ())) →
      Called c (i.setCall d pc) := by
    intro d pc hpc
    rw [Called, Iopub.setCall_calls]
    split
    · next heq => rcases hpc heq with rfl | rfl <;> simp
    · exact hi
  have hnew : ∀ {d : CallId}, i.calls d = none → c ≠ d := by
    intro d hd heq
    rw [heq, Called, hd] at hi
    simp [PublishPc.waits] at hi
  cases Iopub.step_rule hstep with
  | encodeFailed d message hd | publish d message hd => exact hset fun heq => absurd heq (hnew hd)
  | lock d frames hfree hcall => exact hset fun _ => .inl rfl
  | finish turn hturn hend => exact hset fun _ => .inr rfl
  | _ => exact hi

theorem good_step {l : LockedLabel} (hs : Good config c s) (h : s.step config l = some s') :
    Good config c s' := by
  have hqueued := queued_step hs.queued hs.running.order h
  cases step_rule h with
  | join hstep | lock hstep =>
      exact ⟨Broadcast.running_step hs.running hstep, hqueued, called_step hs.called hstep⟩
  | arrive | leave => exact ⟨hs.running, hqueued, hs.called⟩

theorem queued_of_reachable (hr : Reachable config s) :
    Broadcast.Running config s.broadcast ∧ Queued s := by
  refine @Lib.Reachable.invariant _ _ _ _ _
    (fun s => Broadcast.Running config s.broadcast ∧ Queued s) hr ⟨Broadcast.running_init, ?_⟩ ?_
  · exact ⟨List.nodup_nil, by simp [PublishPc.waits], by simp⟩
  · rintro a l b ⟨hrunning, hqueued⟩ h
    have hqueued' := queued_step hqueued hrunning.order h
    cases step_rule h with
    | join hstep | lock hstep => exact ⟨Broadcast.running_step hrunning hstep, hqueued'⟩
    | arrive | leave => exact ⟨hrunning, hqueued'⟩

theorem progress (hcapacity : 0 < config.capacity) (hs : Good config c s) :
    s.broadcast.iopub.calls c = some (.returned (.ok ())) ∨ Progress config c s := by
  cases hturn : s.broadcast.iopub.turn with
  | none =>
      rcases hs.called with hwaits | hsending | hreturned
      · exact .inr (progress_lock hs hturn hwaits)
      · obtain ⟨turn, hturn', _⟩ := hs.running.held.sending c hsending
        rw [hturn] at hturn'
        cases hturn'
      · exact .inl hreturned
  | some turn => exact .inr (progress_turn hs (Broadcast.progress hcapacity hs.running hturn))

/-- A call of `publish` that has encoded its message comes to its return, with
success, by the turns of those ahead of it at the lock, and by steps of the
publication that has the lock and of the loops of subscribers. -/
theorem publish_returns (hr : Reachable config s) (hcapacity : 0 < config.capacity)
    (hc : (∃ frames, s.broadcast.iopub.calls c = some (.waiting frames)) ∨
      s.broadcast.iopub.calls c = some .sending) :
    ∃ t, ReachesBy (step config) (fun l => serves l = true) s t ∧
      t.broadcast.iopub.calls c = some (.returned (.ok ())) := by
  obtain ⟨hrunning, hqueued⟩ := queued_of_reachable hr
  have hcalled : Called c s.broadcast.iopub := by
    rcases hc with ⟨frames, hwaiting⟩ | hsending
    · exact .inl (by rw [hwaiting]; rfl)
    · exact .inr (.inl hsending)
  have hprogress : ∀ a, Good config c a → a.broadcast.iopub.calls c = some (.returned (.ok ())) ∨
      ∃ l b, serves l = true ∧ step config a l = some b ∧ Good config c b ∧
        rank config c b < rank config c a := by
    intro a ha
    rcases progress hcapacity ha with hreturned | ⟨l, b, hl, hstep, hlt⟩
    · exact .inl hreturned
    · exact .inr ⟨l, b, hl, hstep, good_step ha hstep, hlt⟩
  obtain ⟨t, hreach, _, hreturned⟩ :=
    reachesBy_of_rank (rank config c) hprogress s ⟨hrunning, hqueued, hcalled⟩
  exact ⟨t, hreach, hreturned⟩

/-- One message is in the only place of a channel, and a second publication has
the lock. A third, the task of a new peer and a fourth wait for it. -/
def fullChannel : List LockedLabel :=
  let publish (c : CallId) : LockedLabel := .go (.publisher (.publish c { content := .object [] }))
  [.arrive 0, .go (.connect 0), publish 7, .go (.publisher (.lock 7)), .go (.publisher .send),
    .go (.publisher .finish), publish 8, .go (.publisher (.lock 8)), publish 9, .arrive 1, publish 10]

/-- The last of them is not given the lock before the others, and returns. -/
theorem publish_returns_full :
    ∃ s t, run (step Broadcast.onePlace) {} fullChannel = some s ∧
      s.waiters = [.call 9, .peer 1, .call 10] ∧
      s.broadcast.step Broadcast.onePlace (.publisher .send) = none ∧
      ReachesBy (step Broadcast.onePlace) (fun l => serves l = true) s t ∧
      t.broadcast.iopub.calls 10 = some (.returned (.ok ())) := by
  have hview : (run (step Broadcast.onePlace) {} fullChannel).map (fun s =>
      (s.waiters, PublishPc.waits (s.broadcast.iopub.calls 10),
        (s.broadcast.step Broadcast.onePlace (.publisher .send)).isNone)) =
      some ([.call 9, .peer 1, .call 10], true, true) := by decide
  obtain ⟨s, hs, hview⟩ := Option.map_eq_some_iff.mp hview
  obtain ⟨hwaiters, hwaits, hsend⟩ : s.waiters = [.call 9, .peer 1, .call 10] ∧
      PublishPc.waits (s.broadcast.iopub.calls 10) = true ∧
      s.broadcast.step Broadcast.onePlace (.publisher .send) = none := by
    simpa using hview
  obtain ⟨t, hreach, hreturned⟩ :=
    publish_returns ⟨_, hs⟩ Nat.zero_lt_one (.inl (waiting_of_waits hwaits))
  exact ⟨s, t, hs, hwaiters, hsend, hreach, hreturned⟩

end Locked

end Kernmini.Transport
