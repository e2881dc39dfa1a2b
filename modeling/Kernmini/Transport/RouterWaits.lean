/-
Kernmini.Transport.RouterWaits — the registry of a ROUTER socket's peers with
any number of connections that come and go and any number of tasks that wait
for a peer.

The sections under the lock of the registry are one step each: the insertion
and the removal of a connection, and the look of a `wait`. The notification
of an insertion is a step of its own behind it; there is no `await` between
the two, so a connection cannot be aborted there.
-/
import Mathlib.Logic.Function.Basic
import Kernmini.Lib.Notify
import Kernmini.Lib.Transition
import Kernmini.Transport.RouterPeers

namespace Kernmini.Transport

open Kernmini.Wire Kernmini.Engine Kernmini.Lib

/-- A call of `wait`. -/
structure Wait where
  identity : Bytes
  waiter : Waiter ReplySink := .created false

structure Registry (ω : Type*) where
  peers : RouterPeers := {}
  connections : ReplySink → Option Connection := fun _ => none
  waits : ω → Option Wait := fun _ => none

inductive RegistryLabel (ω : Type*) where
  -- `router_peer`
  | connect (k : ReplySink) (identity : Bytes)
  | announce (k : ReplySink)
  | lose (k : ReplySink) (error : Error)
  | unregister (k : ReplySink)
  /-- `serve_router` ends, and its connections with it -/
  | abort (k : ReplySink)
  -- `wait`
  | wait (w : ω) (identity : Bytes)
  | enable (w : ω)
  | look (w : ω)
  /-- `notified.await` returns, and the loop starts again -/
  | retry (w : ω)
  | drop (w : ω)

namespace Registry

variable {ω : Type*} [DecidableEq ω]

def setConnection {ω : Type*} (s : Registry ω) (k : ReplySink) (c : Connection) : Registry ω :=
  { s with connections := Function.update s.connections k (some c) }

def setWait (s : Registry ω) (w : ω) (wait : Option Wait) : Registry ω :=
  { s with waits := Function.update s.waits w wait }

/-- `self.changed.notify_waiters()`. -/
def notifyWaiters {ω : Type*} (s : Registry ω) : Registry ω :=
  { s with waits := fun w => (s.waits w).map fun wait => { wait with waiter := wait.waiter.wake } }

def step (s : Registry ω) : RegistryLabel ω → Option (Registry ω)
  | .connect k identity =>
      match s.connections k with
      | none => some { s.setConnection k { identity } with peers := s.peers.insert identity k }
      | some _ => none
  | .announce k =>
      match s.connections k with
      | some c =>
          if c.pc = .announcing then some (s.setConnection k { c with pc := .serving }).notifyWaiters
          else none
      | none => none
  | .lose k error =>
      match s.connections k with
      | some c =>
          if c.pc = .serving then some (s.setConnection k { c with pc := .removing, closed := some error })
          else none
      | none => none
  | .unregister k =>
      match s.connections k with
      | some c =>
          if c.pc = .removing then
            some { s.setConnection k { c with pc := .ended } with peers := s.peers.remove c.identity k }
          else none
      | none => none
  | .abort k =>
      match s.connections k with
      | some c =>
          if c.pc = .serving ∨ c.pc = .removing then
            -- the sender of the watch channel is dropped
            some (s.setConnection k { c with
              pc := .ended, closed := some (c.closed.getD (Error.closed "router peer")) })
          else none
      | none => none
  | .wait w identity =>
      match s.waits w with
      | none => some (s.setWait w (some { identity }))
      | some _ => none
  | .enable w =>
      match s.waits w with
      | some wait => wait.waiter.enable.map fun waiter => s.setWait w (some { wait with waiter })
      | none => none
  | .look w =>
      match s.waits w with
      | some wait =>
          (wait.waiter.look (s.peers.get wait.identity)).map fun waiter =>
            s.setWait w (some { wait with waiter })
      | none => none
  | .retry w =>
      match s.waits w with
      | some ⟨identity, .parked true⟩ => some (s.setWait w (some { identity }))
      | _ => none
  | .drop w =>
      match s.waits w with
      | some _ => some (s.setWait w none)
      | none => none

end Registry

end Kernmini.Transport
