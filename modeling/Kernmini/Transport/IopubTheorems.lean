/-
Kernmini.Transport.IopubTheorems — IOPub is a broadcast in one order.

The order is that of the lock: `published`. `Inv` holds in every state, and
says for a peer whose receiver is there that its channel was given exactly
the publications since it registered, short of the one in progress when the
loop has not come to it yet (`given`). A dropped receiver's channel is given
nothing more. `TurnInv` is the invariant of the swap-remove loop.
-/
import Kernmini.Transport.Iopub
import Kernmini.Wire.SessionTheorems
import Kernmini.Lib.Transition

namespace Kernmini.Transport

open Kernmini.Wire Kernmini.Lib

/-- `peer'` is `peer` at a later time: a channel whose receiver is dropped is
given nothing more. -/
structure Peer.Follows (peer peer' : Peer) : Prop where
  since : peer'.since = peer.since
  alive : peer.alive = false → peer'.alive = false
  sent : peer.alive = false → peer'.sent = peer.sent

namespace Iopub

variable {config : IopubConfig} {s s' : Iopub} {l : IopubLabel}

/-! ## What a step can do -/

inductive Rule (config : IopubConfig) (s : Iopub) : IopubLabel → Iopub → Prop
  | encodeFailed (c : CallId) (message : Message) (hnew : s.calls c = none) (error : WireError) :
      Rule config s (.publish c message) (s.setCall c (.returned (.error error)))
  | publish (c : CallId) (message : Message) (hnew : s.calls c = none) (frames : Frames)
      (hencode : config.session.encode config.hmac config.serde message = .ok frames) :
      Rule config s (.publish c message) (s.setCall c (.waiting frames))
  | lock (c : CallId) (frames : Frames) (hfree : s.turn = none)
      (hcall : s.calls c = some (.waiting frames)) :
      Rule config s (.lock c)
        { s.setCall c .sending with
          turn := some { call := c, frames, before := s.peers }
          published := s.published ++ [(c, frames)] }
  | send (turn : Turn) (p : PeerId) (peer : Peer) (hturn : s.turn = some turn)
      (hp : s.peers[turn.index]? = some p) (hpeer : s.table p = some peer)
      (halive : peer.alive = true) :
      Rule config s .send
        { s.setPeer p { peer with queue := peer.queue ++ [turn.frames]
                                  sent := peer.sent ++ [turn.frames] } with
          turn := some { turn with index := turn.index + 1, sent := turn.sent ++ [p] } }
  | sendFailed (turn : Turn) (p : PeerId) (peer : Peer) (hturn : s.turn = some turn)
      (hp : s.peers[turn.index]? = some p) (hpeer : s.table p = some peer)
      (hdead : peer.alive = false) :
      Rule config s .sendFailed
        { s with
          peers := swapRemove s.peers turn.index
          turn := some { turn with failed := turn.failed ++ [p] } }
  | finish (turn : Turn) (hturn : s.turn = some turn) (hend : s.peers.length ≤ turn.index) :
      Rule config s .finish { s.setCall turn.call (.returned (.ok ())) with turn := none }
  | register (p : PeerId) (hfree : s.turn = none) (hnew : s.table p = none) :
      Rule config s (.register p)
        { s.setPeer p { since := s.published.length } with peers := s.peers ++ [p] }
  | recv (p : PeerId) (peer : Peer) (hpeer : s.table p = some peer) (halive : peer.alive = true)
      (frames : Frames) (rest : List Frames) (hqueue : peer.queue = frames :: rest) :
      Rule config s (.recv p)
        (s.setPeer p { peer with queue := rest, received := peer.received ++ [frames] })
  | drop (p : PeerId) (peer : Peer) (hpeer : s.table p = some peer) (halive : peer.alive = true) :
      Rule config s (.drop p) (s.setPeer p { peer with alive := false, queue := [] })

theorem step_rule (h : s.step config l = some s') : Rule config s l s' := by
  cases l with
  | publish c message =>
      simp only [step] at h
      split at h
      · cases h
      · next hnew =>
          split at h
          · next error _ =>
              cases h
              exact .encodeFailed c message hnew error
          · next frames hencode =>
              cases h
              exact .publish c message hnew frames hencode
  | lock c =>
      simp only [step] at h
      split at h
      · next frames hfree hcall =>
          cases h
          exact .lock c frames hfree hcall
      · cases h
  | send =>
      simp only [step, bind, Option.bind_eq_some_iff] at h
      obtain ⟨turn, hturn, p, hp, peer, hpeer, h⟩ := h
      split at h
      · next hsend =>
          cases h
          exact .send turn p peer hturn hp hpeer hsend.1
      · cases h
  | sendFailed =>
      simp only [step, bind, Option.bind_eq_some_iff] at h
      obtain ⟨turn, hturn, p, hp, peer, hpeer, h⟩ := h
      split at h
      · cases h
      · next hdead =>
          cases h
          exact .sendFailed turn p peer hturn hp hpeer (by simpa using hdead)
  | finish =>
      simp only [step, bind, Option.bind_eq_some_iff] at h
      obtain ⟨turn, hturn, h⟩ := h
      split at h
      · cases h
      · next hend =>
          cases h
          exact .finish turn hturn (by omega)
  | register p =>
      simp only [step] at h
      split at h
      · next hfree hnew =>
          cases h
          exact .register p hfree hnew
      · cases h
  | recv p =>
      simp only [step, bind, Option.bind_eq_some_iff] at h
      obtain ⟨peer, hpeer, h⟩ := h
      split at h
      · next frames rest halive hqueue =>
          cases h
          exact .recv p peer hpeer halive frames rest hqueue
      · cases h
  | drop p =>
      simp only [step, bind, Option.bind_eq_some_iff] at h
      obtain ⟨peer, hpeer, h⟩ := h
      split at h
      · next halive =>
          cases h
          exact .drop p peer hpeer halive
      · cases h

theorem setPeer_table (s : Iopub) (p q : PeerId) (peer : Peer) :
    (s.setPeer p peer).table q = if q = p then some peer else s.table q := by
  simp [setPeer, Function.update_apply]

theorem setCall_calls (s : Iopub) (c d : CallId) (pc : PublishPc) :
    (s.setCall c pc).calls d = if d = c then some pc else s.calls d := by
  simp [setCall, Function.update_apply]

/-! ## The loop over the peers -/

/-- Where the loop of `publish` stands. -/
structure TurnInv (peers : List PeerId) (table : PeerId → Option Peer) (turn : Turn) : Prop where
  sent : turn.sent = peers.take turn.index
  bound : turn.index ≤ peers.length
  perm : (peers ++ turn.failed).Perm turn.before
  failed : ∀ p ∈ turn.failed, ∀ peer, table p = some peer → peer.alive = false

/-- `publish` is at `p`, so it has not been sent to before. -/
theorem TurnInv.not_sent {peers : List PeerId} {table : PeerId → Option Peer} {turn : Turn}
    {p : PeerId} (h : TurnInv peers table turn) (hnodup : peers.Nodup)
    (hp : peers[turn.index]? = some p) : p ∉ turn.sent := by
  obtain ⟨hi, hget⟩ := List.getElem?_eq_some_iff.mp hp
  rw [h.sent]
  intro hmem
  have hdrop : p ∈ peers.drop turn.index := by
    rw [List.drop_eq_getElem_cons hi, hget]
    exact List.mem_cons_self ..
  rw [← List.take_append_drop turn.index peers, List.nodup_append] at hnodup
  exact hnodup.2.2 p hmem p hdrop rfl

theorem TurnInv.send {peers : List PeerId} {table : PeerId → Option Peer} {turn : Turn}
    {p : PeerId} {peer : Peer} (h : TurnInv peers table turn)
    (hp : peers[turn.index]? = some p) (hpeer : table p = some peer) (halive : peer.alive = true)
    (sent : Peer) :
    TurnInv peers (Function.update table p (some sent))
      { turn with index := turn.index + 1, sent := turn.sent ++ [p] } := by
  obtain ⟨hi, hget⟩ := List.getElem?_eq_some_iff.mp hp
  refine ⟨?_, hi, h.perm, fun q hq peer' hpeer' => ?_⟩
  · rw [h.sent, ← hget]
    exact List.take_append_getElem hi
  · rw [Function.update_apply] at hpeer'
    split at hpeer'
    · next heq =>
      have hdead := h.failed q hq peer (heq ▸ hpeer)
      rw [halive] at hdead
      cases hdead
    · exact h.failed q hq peer' hpeer'

theorem TurnInv.sendFailed {peers : List PeerId} {table : PeerId → Option Peer} {turn : Turn}
    {p : PeerId} {peer : Peer} (h : TurnInv peers table turn)
    (hp : peers[turn.index]? = some p) (hpeer : table p = some peer) (hdead : peer.alive = false) :
    TurnInv (swapRemove peers turn.index) table { turn with failed := turn.failed ++ [p] } := by
  obtain ⟨hi, _⟩ := List.getElem?_eq_some_iff.mp hp
  have hperm := swapRemove_perm hp
  refine ⟨by rw [take_swapRemove hp]; exact h.sent, ?_, ?_, fun q hq peer' hpeer' => ?_⟩
  · have hlen := hperm.length_eq
    rw [List.length_cons] at hlen
    show turn.index ≤ _
    omega
  · -- the removed peer moves from the list to the failed ones
    have hmove : (swapRemove peers turn.index ++ (turn.failed ++ [p])).Perm
        (p :: swapRemove peers turn.index ++ turn.failed) := by
      rw [← List.append_assoc]
      exact List.perm_append_singleton _ _
    exact (hmove.trans (hperm.append_right _)).trans h.perm
  · rcases List.mem_append.mp hq with hold | hnew
    · exact h.failed q hold peer' hpeer'
    · rw [List.mem_singleton.mp hnew, hpeer] at hpeer'
      cases hpeer'
      exact hdead

/-- A dropped receiver stays dropped, so a change of one peer that revives
nobody keeps the invariant. -/
theorem TurnInv.update {peers : List PeerId} {table : PeerId → Option Peer} {turn : Turn}
    {p : PeerId} {peer peer' : Peer} (h : TurnInv peers table turn) (hpeer : table p = some peer)
    (hdead : peer.alive = false → peer'.alive = false) :
    TurnInv peers (Function.update table p (some peer')) turn := by
  refine ⟨h.sent, h.bound, h.perm, fun q hq peer₁ hpeer₁ => ?_⟩
  rw [Function.update_apply] at hpeer₁
  split at hpeer₁
  · next heq =>
    cases hpeer₁
    exact hdead (h.failed q hq peer (heq ▸ hpeer))
  · exact h.failed q hq peer₁ hpeer₁

/-! ## What a peer has been given -/

/-- The publications whose send to `p` has been made. -/
def done (s : Iopub) (p : PeerId) : List (CallId × Frames) :=
  match s.turn with
  | some turn => if p ∈ turn.sent then s.published else s.published.dropLast
  | none => s.published

/-- The history of one peer. -/
structure PeerInv (s : Iopub) (p : PeerId) (peer : Peer) : Prop where
  listed : peer.alive = true → p ∈ s.peers
  since : peer.since ≤ (s.done p).length
  given : peer.alive = true → peer.sent = ((s.done p).drop peer.since).map Prod.snd
  before : peer.sent <+: (s.published.drop peer.since).map Prod.snd
  queue : peer.alive = true → peer.sent = peer.received ++ peer.queue

structure Inv (s : Iopub) : Prop where
  nodup : s.peers.Nodup
  known : ∀ {p}, p ∈ s.peers → (s.table p).isSome = true
  peer : ∀ {p peer}, s.table p = some peer → PeerInv s p peer
  turn : ∀ {turn}, s.turn = some turn → TurnInv s.peers s.table turn
  last : ∀ {turn}, s.turn = some turn → s.published.getLast? = some (turn.call, turn.frames)

theorem done_length_le (s : Iopub) (p : PeerId) : (s.done p).length ≤ s.published.length := by
  unfold done
  split
  · split
    · exact Nat.le_refl _
    · simp
  · exact Nat.le_refl _

theorem inv_init : Inv {} where
  nodup := List.nodup_nil
  known h := by cases h
  peer h := by cases h
  turn h := by cases h
  last h := by cases h

/-- Making or ending a call does not touch the peers. -/
theorem Inv.setCall (h : Inv s) (c : CallId) (pc : PublishPc) : Inv (s.setCall c pc) :=
  ⟨h.nodup, h.known, fun hpeer => ⟨(h.peer hpeer).listed, (h.peer hpeer).since, (h.peer hpeer).given,
    (h.peer hpeer).before, (h.peer hpeer).queue⟩, h.turn, h.last⟩

theorem Inv.lock (h : Inv s) (hfree : s.turn = none) (c : CallId) (frames : Frames) :
    Inv { s with turn := some { call := c, frames, before := s.peers }
                 published := s.published ++ [(c, frames)] } := by
  refine ⟨h.nodup, h.known, fun {p peer} hpeer => ?_, fun {turn} hturn => ?_, fun {turn} hturn => ?_⟩
  · have hp := h.peer hpeer
    have hold : s.done p = s.published := by simp [done, hfree]
    have hdone : done { s with
        turn := some { call := c, frames, before := s.peers }
        published := s.published ++ [(c, frames)] } p = s.published := by
      simp [done]
    have hsince := hp.since
    rw [hold] at hsince
    refine ⟨hp.listed, by rw [hdone]; exact hsince, ?_, ?_, hp.queue⟩
    · rw [hdone, ← hold]
      exact hp.given
    · show peer.sent <+: ((s.published ++ [(c, frames)]).drop peer.since).map Prod.snd
      rw [List.drop_append_of_le_length hsince, List.map_append]
      exact hp.before.trans (List.prefix_append _ _)
  · cases hturn
    exact ⟨by simp, Nat.zero_le _, by simp, by simp⟩
  · cases hturn
    simp

theorem Inv.send (h : Inv s) {turn : Turn} {p : PeerId} {peer : Peer} (hturn : s.turn = some turn)
    (hp : s.peers[turn.index]? = some p) (hpeer : s.table p = some peer)
    (halive : peer.alive = true) :
    Inv { s.setPeer p { peer with queue := peer.queue ++ [turn.frames]
                                  sent := peer.sent ++ [turn.frames] } with
          turn := some { turn with index := turn.index + 1, sent := turn.sent ++ [p] } } := by
  have hloop := h.turn hturn
  have hnot := hloop.not_sent h.nodup hp
  have hlast := h.last hturn
  refine ⟨h.nodup, fun {q} hq => ?_, fun {q peer'} hpeer' => ?_, fun {turn'} hturn' => ?_,
    fun {turn'} hturn' => ?_⟩
  · have hknown := h.known hq
    simp only [setPeer_table]
    split
    · rfl
    · exact hknown
  · simp only [setPeer_table] at hpeer'
    split at hpeer'
    · next heq =>
        -- the publication in progress is now the last one `p` was given
        cases hpeer'
        rw [heq]
        have hold := h.peer hpeer
        have hdone : s.done p = s.published.dropLast := by simp [done, hturn, hnot]
        have hsplit : s.published = s.published.dropLast ++ [(turn.call, turn.frames)] :=
          (List.dropLast_append_getLast? _ hlast).symm
        have hsince := hold.since
        rw [hdone] at hsince
        have hdrop : s.published.drop peer.since =
            s.published.dropLast.drop peer.since ++ [(turn.call, turn.frames)] := by
          nth_rewrite 1 [hsplit]
          exact List.drop_append_of_le_length hsince
        have hsent : peer.sent ++ [turn.frames] = (s.published.drop peer.since).map Prod.snd := by
          rw [hold.given halive, hdone, hdrop, List.map_append]
          rfl
        refine ⟨fun _ => hold.listed halive, ?_, fun _ => ?_, ?_, fun _ => ?_⟩
        · simp only [done, List.mem_append, List.mem_singleton, or_true, if_true]
          show peer.since ≤ s.published.length
          exact hsince.trans (by simp)
        · simp only [done, List.mem_append, List.mem_singleton, or_true, if_true]
          exact hsent
        · exact ⟨[], by rw [List.append_nil]; exact hsent⟩
        · rw [← List.append_assoc, ← hold.queue halive]
    · next hne =>
        have hold := h.peer hpeer'
        have hdone : done { s.setPeer p { peer with queue := peer.queue ++ [turn.frames]
                                                    sent := peer.sent ++ [turn.frames] } with
            turn := some { turn with index := turn.index + 1, sent := turn.sent ++ [p] } } q =
              s.done q := by
          simp [done, hturn, hne, setPeer]
        exact ⟨hold.listed, by rw [hdone]; exact hold.since, by rw [hdone]; exact hold.given,
          hold.before, hold.queue⟩
  · cases hturn'
    exact hloop.send hp hpeer halive _
  · cases hturn'
    exact hlast

theorem Inv.sendFailed (h : Inv s) {turn : Turn} {p : PeerId} {peer : Peer}
    (hturn : s.turn = some turn) (hp : s.peers[turn.index]? = some p)
    (hpeer : s.table p = some peer) (hdead : peer.alive = false) :
    Inv { s with peers := swapRemove s.peers turn.index
                 turn := some { turn with failed := turn.failed ++ [p] } } := by
  have hperm := swapRemove_perm hp
  refine ⟨?_, fun {q} hq => ?_, fun {q peer'} hpeer' => ?_, fun {turn'} hturn' => ?_,
    fun {turn'} hturn' => ?_⟩
  · exact (List.nodup_cons.mp (hperm.nodup_iff.mpr h.nodup)).2
  · exact h.known (hperm.subset (List.mem_cons_of_mem p hq))
  · have hold := h.peer hpeer'
    have hdone : done { s with
        peers := swapRemove s.peers turn.index
        turn := some { turn with failed := turn.failed ++ [p] } } q = s.done q := by
      simp [done, hturn]
    refine ⟨fun halive => ?_, by rw [hdone]; exact hold.since, by rw [hdone]; exact hold.given,
      hold.before, hold.queue⟩
    -- only the dropped receiver's sender leaves the list
    rcases List.mem_cons.mp (hperm.symm.subset (hold.listed halive)) with heq | hmem
    · rw [heq, hpeer] at hpeer'
      cases hpeer'
      rw [hdead] at halive
      cases halive
    · exact hmem
  · cases hturn'
    exact (h.turn hturn).sendFailed hp hpeer hdead
  · have hlast := h.last hturn
    cases hturn'
    exact hlast

theorem Inv.finish (h : Inv s) {turn : Turn} (hturn : s.turn = some turn)
    (hend : s.peers.length ≤ turn.index) : Inv { s with turn := none } := by
  refine ⟨h.nodup, h.known, fun {q peer} hpeer => ?_, fun hturn' => (by cases hturn'),
    fun hturn' => (by cases hturn')⟩
  have hold := h.peer hpeer
  refine ⟨hold.listed, hold.since.trans (done_length_le s q), fun halive => ?_, hold.before,
    hold.queue⟩
  have hsent : q ∈ turn.sent := by
    rw [(h.turn hturn).sent, List.take_of_length_le hend]
    exact hold.listed halive
  have hdone : s.done q = s.published := by simp [done, hturn, hsent]
  have hgiven := hold.given halive
  rw [hdone] at hgiven
  exact hgiven

theorem Inv.register (h : Inv s) {p : PeerId} (hfree : s.turn = none) (hnew : s.table p = none) :
    Inv { s.setPeer p { since := s.published.length } with peers := s.peers ++ [p] } := by
  have hp : p ∉ s.peers := by
    intro hmem
    have hknown := h.known hmem
    rw [hnew] at hknown
    cases hknown
  refine ⟨?_, fun {q} hq => ?_, fun {q peer} hpeer => ?_, fun {turn} hturn => ?_,
    fun {turn} hturn => ?_⟩
  · rw [List.nodup_append]
    refine ⟨h.nodup, by simp, fun q hq q' hq' heq => hp ?_⟩
    rw [List.mem_singleton.mp hq'] at heq
    exact heq ▸ hq
  · simp only [setPeer_table]
    split
    · rfl
    · next hne =>
        refine h.known ?_
        rcases List.mem_append.mp hq with hold | hnew
        · exact hold
        · exact absurd (List.mem_singleton.mp hnew) hne
  · have hdone : ∀ peers', done { s.setPeer p { since := s.published.length } with
        peers := peers' } q = s.published := by
      intro peers'
      simp [done, setPeer, hfree]
    simp only [setPeer_table] at hpeer
    split at hpeer
    · next heq =>
        cases hpeer
        rw [heq] at hdone ⊢
        refine ⟨fun _ => by simp, by rw [hdone], fun _ => by rw [hdone]; simp, by simp, fun _ => rfl⟩
    · have hold := h.peer hpeer
      have hsame : s.done q = s.published := by simp [done, hfree]
      have hsince := hold.since
      have hgiven := hold.given
      rw [hsame] at hsince hgiven
      exact ⟨fun halive => List.mem_append_left _ (hold.listed halive), by rw [hdone]; exact hsince,
        by rw [hdone]; exact hgiven, hold.before, hold.queue⟩
  · have hnone : s.turn = some turn := hturn
    rw [hfree] at hnone
    cases hnone
  · have hnone : s.turn = some turn := hturn
    rw [hfree] at hnone
    cases hnone

/-- The task of a peer receives, or ends. -/
theorem Inv.setPeer (h : Inv s) {p : PeerId} {peer peer' : Peer} (hpeer : s.table p = some peer)
    (halive : peer.alive = true) (hsent : peer'.sent = peer.sent) (hsince : peer'.since = peer.since)
    (hqueue : peer'.alive = true → peer'.sent = peer'.received ++ peer'.queue) :
    Inv (s.setPeer p peer') := by
  refine ⟨h.nodup, fun {q} hq => ?_, fun {q peer₁} hpeer₁ => ?_, fun {turn} hturn => ?_, h.last⟩
  · rw [setPeer_table]
    split
    · rfl
    · exact h.known hq
  · rw [setPeer_table] at hpeer₁
    split at hpeer₁
    · next heq =>
        cases hpeer₁
        have hold := h.peer hpeer
        rw [heq]
        refine ⟨fun _ => hold.listed halive, by rw [hsince]; exact hold.since, fun _ => ?_, ?_, hqueue⟩
        · rw [hsent, hsince]
          exact hold.given halive
        · rw [hsent, hsince]
          exact hold.before
    · have hold := h.peer hpeer₁
      exact ⟨hold.listed, hold.since, hold.given, hold.before, hold.queue⟩
  · exact (h.turn hturn).update hpeer (fun hdead => by rw [halive] at hdead; cases hdead)

theorem inv_step (h : Inv s) (hstep : s.step config l = some s') : Inv s' := by
  cases step_rule hstep with
  | encodeFailed c | publish c => exact h.setCall c _
  | lock c frames hfree hcall => exact (h.setCall c .sending).lock hfree c frames
  | send turn p peer hturn hp hpeer halive => exact h.send hturn hp hpeer halive
  | sendFailed turn p peer hturn hp hpeer hdead => exact h.sendFailed hturn hp hpeer hdead
  | finish turn hturn hend => exact (h.setCall turn.call _).finish hturn hend
  | register p hfree hnew => exact h.register hfree hnew
  | recv p peer hpeer halive frames rest hqueue =>
      refine h.setPeer hpeer halive rfl rfl fun _ => ?_
      have hold := (h.peer hpeer).queue halive
      rw [hqueue] at hold
      simpa using hold
  | drop p peer hpeer halive =>
      exact h.setPeer hpeer halive rfl rfl (fun hdead => by cases hdead)

/-! ## The order -/

/-- The publications are those of the calls that have taken the lock, once each. -/
structure OrderInv (s : Iopub) : Prop where
  nodup : (s.published.map Prod.fst).Nodup
  calls : ∀ c, c ∈ s.published.map Prod.fst ↔
    s.calls c = some .sending ∨ s.calls c = some (.returned (.ok ()))
  turn : ∀ {turn}, s.turn = some turn → s.calls turn.call = some .sending

theorem orderInv_init : OrderInv {} where
  nodup := List.nodup_nil
  calls c := by simp
  turn h := by cases h

/-- A call that has not taken the lock changes its state short of that. -/
theorem OrderInv.setCall (h : OrderInv s) {c : CallId} {pc : PublishPc} (hnew : s.calls c = none)
    (hsending : pc ≠ .sending) (hreturned : pc ≠ .returned (.ok ())) : OrderInv (s.setCall c pc) := by
  refine ⟨h.nodup, fun d => ?_, fun {turn} hturn => ?_⟩
  · rw [setCall_calls]
    refine Iff.trans (h.calls d) ?_
    split
    · next heq =>
      rw [heq, hnew]
      simp [hsending, hreturned]
    · rfl
  · rw [setCall_calls, if_neg, h.turn hturn]
    rintro heq
    have hcall := h.turn hturn
    rw [heq, hnew] at hcall
    cases hcall

theorem OrderInv.lock (h : OrderInv s) {c : CallId} {frames : Frames}
    (hcall : s.calls c = some (.waiting frames)) :
    OrderInv { s.setCall c .sending with
      turn := some { call := c, frames, before := s.peers }
      published := s.published ++ [(c, frames)] } := by
  have hc : c ∉ s.published.map Prod.fst := by
    rw [h.calls c, hcall]
    simp
  refine ⟨?_, fun d => ?_, fun {turn} hturn => ?_⟩
  · rw [List.map_append, List.nodup_append]
    refine ⟨h.nodup, by simp, fun d hd d' hd' heq => hc ?_⟩
    have hdc : d = c := heq.trans (List.mem_singleton.mp hd')
    exact hdc ▸ hd
  · simp only [setCall_calls, List.map_append, List.mem_append, List.map_cons, List.map_nil,
      List.mem_singleton]
    split
    · next heq => simp [heq]
    · next hne =>
      rw [h.calls d]
      simp [hne]
  · cases hturn
    simp [setCall_calls]

theorem OrderInv.finish (h : OrderInv s) {turn : Turn} (hturn : s.turn = some turn) :
    OrderInv { s.setCall turn.call (.returned (.ok ())) with turn := none } := by
  refine ⟨h.nodup, fun d => ?_, fun {turn} hnone => (by cases hnone)⟩
  simp only [setCall_calls]
  refine Iff.trans (h.calls d) ?_
  split
  · next heq =>
    rw [heq, h.turn hturn]
    simp
  · rfl

/-- A step that makes no call, ends none, and leaves the lock with its call. -/
theorem OrderInv.of_same (h : OrderInv s) (hcalls : s'.calls = s.calls)
    (hpublished : s'.published = s.published)
    (hturn : s'.turn.map Turn.call = s.turn.map Turn.call) : OrderInv s' := by
  refine ⟨by rw [hpublished]; exact h.nodup, fun c => by rw [hpublished, hcalls]; exact h.calls c,
    fun {turn} hturn' => ?_⟩
  rw [hturn', Option.map_some] at hturn
  obtain ⟨old, hold, hcall⟩ := Option.map_eq_some_iff.mp hturn.symm
  rw [hcalls, ← hcall]
  exact h.turn hold

theorem orderInv_step (h : OrderInv s) (hstep : s.step config l = some s') : OrderInv s' := by
  cases step_rule hstep with
  | encodeFailed c message hnew | publish c message hnew => exact h.setCall hnew (by simp) (by simp)
  | lock c frames hfree hcall => exact h.lock hcall
  | send turn p peer hturn | sendFailed turn p peer hturn =>
      exact h.of_same rfl rfl (by simp [hturn])
  | finish turn hturn hend => exact h.finish hturn
  | register | recv | drop => exact h.of_same rfl rfl rfl

/-! ## A peer over a run -/

theorem peer_step {p : PeerId} {peer : Peer} (hstep : s.step config l = some s')
    (hpeer : s.table p = some peer) : ∃ peer', s'.table p = some peer' ∧ peer.Follows peer' := by
  have hsame : ∃ peer', s.table p = some peer' ∧ peer.Follows peer' :=
    ⟨peer, hpeer, rfl, id, fun _ => rfl⟩
  -- a peer that the step changes has its receiver, and keeps its registration
  have hset : ∀ q old new, s.table q = some old → old.alive = true → new.since = old.since →
      ∃ peer', (s.setPeer q new).table p = some peer' ∧ peer.Follows peer' := by
    intro q old new hold halive hsince
    rw [setPeer_table]
    split
    · next heq =>
      rw [heq, hold] at hpeer
      cases hpeer
      have hnot : peer.alive ≠ false := by simp [halive]
      exact ⟨new, rfl, hsince, fun hdead => absurd hdead hnot, fun hdead => absurd hdead hnot⟩
    · exact hsame
  cases step_rule hstep with
  | send turn q old _ _ hold halive => exact hset q old _ hold halive rfl
  | register q hfree hnew =>
      have hne : p ≠ q := by
        rintro rfl
        rw [hpeer] at hnew
        cases hnew
      simpa [setPeer_table, hne] using hsame
  | recv q old hold halive | drop q old hold halive => exact hset q old _ hold halive rfl
  | _ => exact hsame

theorem peer_run {p : PeerId} {ls : List IopubLabel} :
    ∀ {s : Iopub} {peer : Peer}, run (step config) s ls = some s' → s.table p = some peer →
      ∃ peer', s'.table p = some peer' ∧ peer.Follows peer' := by
  induction ls with
  | nil =>
      intro s peer hrun hpeer
      cases hrun
      exact ⟨peer, hpeer, rfl, id, fun _ => rfl⟩
  | cons l ls ih =>
      intro s peer hrun hpeer
      obtain ⟨m, hm, hrest⟩ := run_cons_eq_some.mp hrun
      obtain ⟨peer₁, hpeer₁, h₁⟩ := peer_step hm hpeer
      obtain ⟨peer₂, hpeer₂, h₂⟩ := ih hrest hpeer₁
      exact ⟨peer₂, hpeer₂, h₂.since.trans h₁.since, fun hdead => h₂.alive (h₁.alive hdead),
        fun hdead => (h₂.sent (h₁.alive hdead)).trans (h₁.sent hdead)⟩

/-! ## The broadcast -/

/-- IOPub is a broadcast in the order of `published`. -/
theorem broadcast_in_order {ls : List IopubLabel} {t : Iopub}
    (hrun : run (step config) {} ls = some t) :
    -- each publication that was performed stands in the order once
    (t.published.map Prod.fst).Nodup ∧
    (∀ c, c ∈ t.published.map Prod.fst ↔
      t.calls c = some .sending ∨ t.calls c = some (.returned (.ok ()))) ∧
    -- a channel is given, in that order, the publications since its peer registered
    (∀ p peer, t.table p = some peer →
      peer.sent <+: (t.published.drop peer.since).map Prod.snd ∧
      (peer.alive = true → peer.sent = ((t.done p).drop peer.since).map Prod.snd ∧
        peer.sent = peer.received ++ peer.queue)) ∧
    -- until the receiver is dropped
    (∀ ls' u, run (step config) t ls' = some u → ∀ p peer, t.table p = some peer →
      ∃ peer', u.table p = some peer' ∧ peer.Follows peer') ∧
    -- a publication leaves in the list exactly the peers whose send succeeded
    ∀ u, step config t .finish = some u → ∃ turn, t.turn = some turn ∧ u.peers = turn.sent ∧
      u.peers.Nodup ∧ (turn.sent ++ turn.failed).Perm turn.before ∧
      ∀ p ∈ turn.failed, ∀ peer, t.table p = some peer → peer.alive = false := by
  have hinv : Inv t := run_invariant (fun _ _ _ => inv_step) hrun inv_init
  have horder : OrderInv t := run_invariant (fun _ _ _ => orderInv_step) hrun orderInv_init
  refine ⟨horder.nodup, horder.calls, fun p peer hpeer => ?_,
    fun ls' u hrun' p peer hpeer => peer_run hrun' hpeer, fun u hstep => ?_⟩
  · have hp := hinv.peer hpeer
    exact ⟨hp.before, fun halive => ⟨hp.given halive, hp.queue halive⟩⟩
  · cases step_rule hstep with
    | finish turn hturn hend =>
        have hloop := hinv.turn hturn
        have hsent : t.peers = turn.sent := by
          rw [hloop.sent, List.take_of_length_le hend]
        refine ⟨turn, hturn, hsent, hinv.nodup, ?_, hloop.failed⟩
        rw [← hsent]
        exact hloop.perm

/-- Two peers, of which the first is gone when a message is published. -/
theorem broadcast_in_order_one_gone :
    ∃ t peer, run (step ⟨Session.secretHmac, Session.emptyObjectJson, ⟨[], "s", "kernel"⟩, 1⟩) {}
        [.register 0, .register 1, .drop 0, .publish 7 { content := .object [] }, .lock 7,
          .sendFailed, .send, .finish] = some t ∧
      t.table 1 = some peer ∧ t.peers = [1] ∧
      peer.sent = ((t.done 1).drop peer.since).map Prod.snd := by
  have hrun : run (step ⟨Session.secretHmac, Session.emptyObjectJson, ⟨[], "s", "kernel"⟩, 1⟩) {}
      [.register 0, .register 1, .drop 0, .publish 7 { content := .object [] }, .lock 7,
        .sendFailed, .send, .finish] = some _ := rfl
  exact ⟨_, _, hrun, rfl, rfl, (((broadcast_in_order hrun).2.2.1 1 _ rfl).2 rfl).1⟩

end Iopub

end Kernmini.Transport
