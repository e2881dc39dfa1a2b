/-
Kernmini.Engine.Stdin — `Stdin::request`, called any number of times at
once, and the task that matches the `input_reply` messages.

A poll of a request looks at its branches in the order of the biased
selects: first at the interrupt, then at the registry or the peer's end, last
at the send or the answer. Each look is a step of its own, since another
thread can act between two of them. What the peer's connection does with a
message is not followed here: a send ends at some time, with any result.

A request is known by the `msg_id` of its message, which no other request
has. `received` and `matched` record history and are never read by a step.
-/
import Kernmini.Transport.RouterPeers
import Kernmini.Lib.Oneshot
import Mathlib.Data.List.Perm.Basic
import Mathlib.Logic.Function.Basic

namespace Kernmini.Engine

open Kernmini.Wire Kernmini.Transport Kernmini.Lib

/-- An `ExecutionInterrupt`. -/
abbrev Token := Nat

/-- `interrupt.cancelled()`. -/
inductive Cancelled where
  | unpolled
  /-- enabled, and the flag was not set -/
  | parked
  | notified
  deriving DecidableEq

/-- Where the second branch of the select is. -/
inductive Place where
  | unpolled
  /-- in `peers.wait`, with the `notified` enabled -/
  | looking (woken : Bool)
  /-- at `notified.await` -/
  | parked (woken : Bool)
  /-- at `peer.send(..).await` -/
  | sending (peer : ReplySink)
  /-- at `result.await` -/
  | awaiting (peer : ReplySink)
  deriving DecidableEq

/-- How far the current poll is. -/
inductive Stage where
  | idle
  /-- the interrupt has not come -/
  | entered
  /-- nor the end of the peer -/
  | open
  deriving DecidableEq

inductive RequestPc where
  /-- at `pending.lock().await.insert(..)` -/
  | inserting
  | select (place : Place) (stage : Stage)
  /-- at `pending.lock().await.remove(..)` -/
  | removing (result : Except Error String)
  | returned (result : Except Error String)

structure Request where
  identity : Bytes
  interrupt : Token
  cancelled : Cancelled := .unpolled
  pc : RequestPc := .inserting
  channel : Oneshot (Except Error String) := .waiting

/-- `PendingInput`; its sender is that of the request it is filed under. -/
structure PendingInput where
  identity : Bytes

structure Stdin where
  peers : RouterPeers := {}
  connections : ReplySink → Option Connection := fun _ => none
  /-- the flags of the interrupts -/
  requested : Token → Bool := fun _ => false
  requests : String → Option Request := fun _ => none
  pending : HashMap String PendingInput := ∅
  incoming : List Inbound := []
  /-- the message the reply task has taken -/
  task : Option Inbound := none
  /-- every message that was passed on -/
  received : List Inbound := []
  /-- every message the task is done with, and the request whose entry it took -/
  matched : List (Inbound × Option String) := []

inductive StdinLabel where
  -- connections
  | connect (k : ReplySink) (identity : Bytes)
  | announce (k : ReplySink)
  | arrive (k : ReplySink) (message : Message)
  | lose (k : ReplySink) (error : Error)
  | unregister (k : ReplySink)
  -- `ExecutionInterrupt::request`
  | interrupt (token : Token)
  | notify (token : Token)
  -- `Stdin::request`
  | request (id : String) (identity : Bytes) (token : Token)
  /-- the next step of a request that does not send -/
  | advance (id : String)
  | sent (id : String) (result : Except Error Unit)
  /-- the lock of the registry is taken, or the send goes on -/
  | pend (id : String)
  -- the reply task
  | take
  | handle (order : List String)

/-! ## What an `input_reply` says -/

/-- `parent_header["msg_id"]`. -/
def inputParent (inbound : Inbound) : String := inbound.message.parentHeader.strOr "msg_id"

/-- `content["value"]`. -/
def inputValue (inbound : Inbound) : String :=
  ((inbound.message.content.get "value").bind Value.asStr).getD ""

/-! ## What others do to a request -/

namespace Request

/-- `peers.changed.notify_waiters()`. -/
def wakePeers (r : Request) : Request :=
  match r.pc with
  | .select (.looking _) stage => { r with pc := .select (.looking true) stage }
  | .select (.parked _) stage => { r with pc := .select (.parked true) stage }
  | _ => r

/-- `interrupt.changed.notify_waiters()`. -/
def wakeInterrupt (token : Token) (r : Request) : Request :=
  if r.interrupt = token ∧ r.cancelled = .parked then { r with cancelled := .notified } else r

/-- `pending.complete.send(Ok(value))`. -/
def answer (r : Request) (inbound : Inbound) : Request :=
  { r with channel := r.channel.send (.ok (inputValue inbound)) }

/-- The select ends; the receiver goes with it. -/
def leave (r : Request) (result : Except Error String) : Request :=
  { r with pc := .removing result, channel := r.channel.close }

end Request

namespace Stdin

/-- The capacity of the channel to the reply task. -/
def capacity : Nat := 64

def setRequest (s : Stdin) (id : String) (r : Request) : Stdin :=
  { s with requests := Function.update s.requests id (some r) }

def setConnection (s : Stdin) (k : ReplySink) (c : Connection) : Stdin :=
  { s with connections := Function.update s.connections k (some c) }

def mapRequests (s : Stdin) (f : Request → Request) : Stdin :=
  { s with requests := fun id => (s.requests id).map f }

/-- The error the peer's connection ended with. -/
def peerClosed (s : Stdin) (peer : ReplySink) : Option Error :=
  (s.connections peer).bind Connection.closed

/-- The key the reply is matched with; `order` is the order of the map's
iteration. -/
def replyKey (s : Stdin) (order : List String) (inbound : Inbound) : Option String :=
  if (s.pending.lookup (inputParent inbound)).isSome then some (inputParent inbound)
  else order.find? (fun key => (s.pending.lookup key).any (·.identity == inbound.identity))

/-! ## Steps -/

/-- The next look of the poll, for a request in the select. -/
def poll (s : Stdin) (r : Request) (place : Place) : Stage → Option Request
  | .idle =>
      match r.cancelled with
      | .unpolled =>
          if s.requested r.interrupt then some (r.leave (.error .interrupted))
          else some { r with cancelled := .parked, pc := .select place .entered }
      | .parked => some { r with pc := .select place .entered }
      | .notified => some (r.leave (.error .interrupted))
  | .entered =>
      match place with
      | .unpolled => some { r with pc := .select (.looking false) .entered }
      | .looking woken =>
          match s.peers.get r.identity with
          | some peer => some { r with pc := .select (.sending peer) .entered }
          | none => some { r with pc := .select (.parked woken) .entered }
      | .parked true => some { r with pc := .select (.looking false) .entered }
      | .parked false => some { r with pc := .select place .idle }
      | .sending peer | .awaiting peer =>
          match s.peerClosed peer with
          | some error => some (r.leave (.error (error.context "waiting for stdin")))
          | none => some { r with pc := .select place .open }
  | .open =>
      match place, r.channel with
      | .awaiting _, .sent result => some (r.leave result)
      | .awaiting _, .dropped =>
          some (r.leave (.error recvFailed))
      | .awaiting _, .waiting => some { r with pc := .select place .idle }
      | _, _ => none

def step (s : Stdin) : StdinLabel → Option Stdin
  | .connect k identity =>
      match s.connections k with
      | none => some { s.setConnection k { identity } with peers := s.peers.insert identity k }
      | some _ => none
  | .announce k =>
      match s.connections k with
      | some c =>
          if c.pc = .announcing then
            some ((s.setConnection k { c with pc := .serving }).mapRequests Request.wakePeers)
          else none
      | none => none
  | .arrive k message =>
      match s.connections k with
      | some c =>
          if c.pc = .serving ∧ s.incoming.length < capacity then
            let inbound : Inbound := { message, reply := k, identity := c.identity }
            some { s with incoming := s.incoming ++ [inbound], received := s.received ++ [inbound] }
          else none
      | none => none
  | .lose k error =>
      match s.connections k with
      | some c =>
          if c.pc = .serving then some (s.setConnection k { c with pc := .removing, closed := some error })
          else none
      | none => none
  | .unregister k =>
      match s.connections k with
      | some c =>
          if c.pc = .removing then
            some { s.setConnection k { c with pc := .ended } with peers := s.peers.remove c.identity k }
          else none
      | none => none
  | .interrupt token => some { s with requested := Function.update s.requested token true }
  | .notify token =>
      if s.requested token then some (s.mapRequests (Request.wakeInterrupt token)) else none
  | .request id identity token =>
      match s.requests id with
      | none => some (s.setRequest id { identity, interrupt := token })
      | some _ => none
  | .advance id =>
      match s.requests id with
      | some r =>
          match r.pc with
          | .inserting =>
              some { s.setRequest id { r with pc := .select .unpolled .idle } with
                pending := s.pending.insert id { identity := r.identity } }
          | .select place stage => (s.poll r place stage).map (s.setRequest id)
          | .removing result =>
              some { s.setRequest id { r with pc := .returned result } with
                pending := s.pending.erase id }
          | .returned _ => none
      | none => none
  | .sent id result =>
      match s.requests id with
      | some r =>
          match r.pc, result with
          | .select (.sending peer) .open, .ok () =>
              some (s.setRequest id { r with pc := .select (.awaiting peer) .open })
          | .select (.sending _) .open, .error error => some (s.setRequest id (r.leave (.error error)))
          | _, _ => none
      | none => none
  | .pend id =>
      match s.requests id with
      | some r =>
          match r.pc with
          | .select (.looking woken) .entered =>
              some (s.setRequest id { r with pc := .select (.looking woken) .idle })
          | .select (.sending peer) .open =>
              some (s.setRequest id { r with pc := .select (.sending peer) .idle })
          | _ => none
      | none => none
  | .take =>
      match s.task, s.incoming with
      | none, inbound :: rest => some { s with task := some inbound, incoming := rest }
      | _, _ => none
  | .handle order =>
      match s.task with
      | some inbound =>
          if order.Perm s.pending.keys then
            if inbound.message.msgType = "input_reply" then
              match s.replyKey order inbound with
              | some key =>
                  some { s with
                    task := none
                    pending := s.pending.erase key
                    requests := Function.update s.requests key
                      ((s.requests key).map (·.answer inbound))
                    matched := s.matched ++ [(inbound, some key)] }
              | none => some { s with task := none, matched := s.matched ++ [(inbound, none)] }
            else some { s with task := none, matched := s.matched ++ [(inbound, none)] }
          else none
      | none => none

end Stdin

end Kernmini.Engine
