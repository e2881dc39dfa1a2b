/-
Kernmini.Transport.RouterPeers — the connections of a ROUTER socket whose
peers are registered under their identity, and the registry.

`router_peer` registers its connection, wakes those who wait for a peer,
passes on what the client sends, and at the end publishes the error it ended
with and unregisters. `same_channel` is equality of connections.
-/
import Kernmini.Engine.Language
import Kernmini.Lib.HashMap

namespace Kernmini.Transport

open Kernmini.Wire Kernmini.Engine Kernmini.Lib

structure RouterPeers where
  peers : HashMap Bytes ReplySink := ∅

namespace RouterPeers

def get (self : RouterPeers) (identity : Bytes) : Option ReplySink := self.peers.lookup identity

def insert (self : RouterPeers) (identity : Bytes) (reply : ReplySink) : RouterPeers :=
  ⟨self.peers.insert identity reply⟩

def remove (self : RouterPeers) (identity : Bytes) (reply : ReplySink) : RouterPeers :=
  if self.get identity = some reply then ⟨self.peers.erase identity⟩ else self

end RouterPeers

inductive ConnectionPc where
  /-- registered, before `notify_waiters` -/
  | announcing
  /-- in the loops of the reader and the writer -/
  | serving
  /-- at `peers.remove` -/
  | removing
  | ended
  deriving DecidableEq

/-- A run of `router_peer`. -/
structure Connection where
  identity : Bytes
  pc : ConnectionPc := .announcing
  /-- the watch channel of its `ReplySink` -/
  closed : Option Error := none

end Kernmini.Transport
