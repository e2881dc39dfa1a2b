/-
Kernmini.Transport.Iopub — `Iopub::publish`, and what `Iopub::peer` shares
with it: the list of senders behind its lock, and one bounded channel for
each peer.

A call of `publish` encodes its message, takes the lock, and keeps it over
the sends to all peers. A send waits while the channel is full and fails
when the receiver is dropped; the loop then swap-removes the sender. A peer
registers under the same lock. Whoever waits for the lock may get it next.

`published`, `since`, `sent`, and the three lists of a `Turn` record history
and are never read by a step. A `publish` whose caller is cancelled at a
send is outside this model.
-/
import Kernmini.Wire.Session
import Kernmini.Lib.SwapRemove
import Mathlib.Logic.Function.Basic

namespace Kernmini.Transport

open Kernmini.Wire Kernmini.Lib

abbrev PeerId := Nat

/-- A call of `publish`. -/
abbrev CallId := Nat

abbrev Frames := List Bytes

/-- The channel between `publish` and the task of a peer. -/
structure Peer where
  /-- the receiver is not dropped -/
  alive : Bool := true
  /-- sent, not yet received -/
  queue : List Frames := []
  /-- received by the task of the peer -/
  received : List Frames := []
  /-- everything the channel was given -/
  sent : List Frames := []
  /-- publications performed before the peer registered -/
  since : Nat
  deriving DecidableEq

/-- A call of `publish` that holds the lock. -/
structure Turn where
  call : CallId
  frames : Frames
  /-- `i` -/
  index : Nat := 0
  /-- the peers when the lock was taken -/
  before : List PeerId
  /-- peers whose send succeeded, and those whose send failed -/
  sent : List PeerId := []
  failed : List PeerId := []
  deriving DecidableEq

inductive PublishPc where
  /-- at `self.peers.lock().await` -/
  | waiting (frames : Frames)
  | sending
  | returned (result : Except WireError Unit)

structure Iopub where
  peers : List PeerId := []
  table : PeerId → Option Peer := fun _ => none
  calls : CallId → Option PublishPc := fun _ => none
  turn : Option Turn := none
  /-- in the order of the lock -/
  published : List (CallId × Frames) := []

inductive IopubLabel where
  | publish (c : CallId) (message : Message)
  | lock (c : CallId)
  | send
  | sendFailed
  | finish
  /-- `self.peers.lock().await.push(send)` -/
  | register (p : PeerId)
  /-- `outgoing.recv()` -/
  | recv (p : PeerId)
  /-- the task of the peer ends -/
  | drop (p : PeerId)

/-- What does not change: `session` and `capacity`, and the crates used. -/
structure IopubConfig where
  hmac : HmacSha256
  serde : SerdeJson
  session : Session
  capacity : Nat

namespace Iopub

def setPeer (s : Iopub) (p : PeerId) (peer : Peer) : Iopub :=
  { s with table := Function.update s.table p (some peer) }

def setCall (s : Iopub) (c : CallId) (pc : PublishPc) : Iopub :=
  { s with calls := Function.update s.calls c (some pc) }

def step (config : IopubConfig) (s : Iopub) : IopubLabel → Option Iopub
  | .publish c message =>
      match s.calls c with
      | some _ => none
      | none =>
          match config.session.encode config.hmac config.serde message with
          | .error error => some (s.setCall c (.returned (.error error)))
          | .ok frames => some (s.setCall c (.waiting frames))
  | .lock c =>
      match s.turn, s.calls c with
      | none, some (.waiting frames) =>
          some { s.setCall c .sending with
            turn := some { call := c, frames, before := s.peers }
            published := s.published ++ [(c, frames)] }
      | _, _ => none
  | .send => do
      let turn ← s.turn
      let p ← s.peers[turn.index]?
      let peer ← s.table p
      if peer.alive ∧ peer.queue.length < config.capacity then
        let sent := { peer with queue := peer.queue ++ [turn.frames]
                                sent := peer.sent ++ [turn.frames] }
        some { s.setPeer p sent with
          turn := some { turn with index := turn.index + 1, sent := turn.sent ++ [p] } }
      else none
  | .sendFailed => do
      let turn ← s.turn
      let p ← s.peers[turn.index]?
      let peer ← s.table p
      if peer.alive then none
      else
        some { s with
          peers := swapRemove s.peers turn.index
          turn := some { turn with failed := turn.failed ++ [p] } }
  | .finish => do
      let turn ← s.turn
      if turn.index < s.peers.length then none
      else some { s.setCall turn.call (.returned (.ok ())) with turn := none }
  | .register p =>
      match s.turn, s.table p with
      | none, none =>
          some { s.setPeer p { since := s.published.length } with peers := s.peers ++ [p] }
      | _, _ => none
  | .recv p => do
      let peer ← s.table p
      match peer.alive, peer.queue with
      | true, frames :: rest =>
          some (s.setPeer p { peer with queue := rest, received := peer.received ++ [frames] })
      | _, _ => none
  | .drop p => do
      let peer ← s.table p
      if peer.alive then some (s.setPeer p { peer with alive := false, queue := [] }) else none

end Iopub

end Kernmini.Transport
