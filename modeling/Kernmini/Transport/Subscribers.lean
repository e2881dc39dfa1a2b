/-
Kernmini.Transport.Subscribers — `Iopub::peer` beside the calls of `publish`.

A connection registers its channel and then loops over a `select!` of its
socket and its channel. A `Subscribe` is answered by an `iopub_welcome` with
the topic as its identity, a `Ping` by a pong; a publication is written as it
is. While the loop writes it takes nothing. The channel and the list of
senders are those of `Iopub`; the loop ends it when it ends, by dropping the
receiver. The `None` of `outgoing.recv()` does not occur: the list keeps the
sender while the receiver is there.

`taken` and `written` are history. `String::from_utf8_lossy` enters as data.
-/
import Kernmini.Transport.IopubTheorems
import Kernmini.Transport.RouterPeer

namespace Kernmini.Transport

open Kernmini.Wire Kernmini.Engine Kernmini.Lib

/-- What `reader.recv()` gives. -/
inductive SubscriberEvent where
  | subscribe (topic : Bytes)
  | cancel (topic : Bytes)
  | ping (context : Bytes)
  | message
  | failed (error : ZmtpError)

/-- What the `select!` takes up. -/
inductive Taken where
  | event (e : SubscriberEvent)
  | publication (frames : Frames)

namespace Taken

/-- It is to be answered, or passed on. -/
def answered : Taken → Bool
  | .event (.subscribe _) | .event (.ping _) | .publication _ => true
  | .event (.cancel _) | .event .message | .event (.failed _) => false

/-- The frames of a publication. -/
def frames : Taken → Option Frames
  | .publication frames => some frames
  | .event _ => none

end Taken

/-- What is written to the socket. -/
inductive Written where
  | welcome (topic : Bytes) (frames : Frames)
  | pong (context : Bytes)
  | publication (frames : Frames)

/-- What it is written for. -/
def Written.cause : Written → Taken
  | .welcome topic _ => .event (.subscribe topic)
  | .pong context => .event (.ping context)
  | .publication frames => .publication frames

inductive SubscriberPc where
  | select
  | writing (w : Written)
  /-- with its error, unless the task was aborted -/
  | ended (error : Option Error)

structure Subscriber where
  pc : SubscriberPc := .select
  taken : List Taken := []
  written : List Written := []

namespace Subscriber

def running (sub : Subscriber) : Bool :=
  match sub.pc with
  | .select | .writing _ => true
  | .ended _ => false

/-- What is being written. -/
def writing (sub : Subscriber) : Option Written :=
  match sub.pc with
  | .writing w => some w
  | .select | .ended _ => none

end Subscriber

structure Broadcast where
  iopub : Iopub := {}
  subscribers : PeerId → Option Subscriber := fun _ => none

structure BroadcastConfig extends IopubConfig where
  utf8Lossy : Bytes → String

/-- The frames of the `iopub_welcome` for a subscription. -/
def BroadcastConfig.welcome (config : BroadcastConfig) (msgId date : String) (topic : Bytes) :
    Except WireError Frames :=
  let welcome := config.session.message msgId date "iopub_welcome"
    (.object [("subscription", .string (config.utf8Lossy topic))]) none
  let welcome :=
    if topic.isEmpty then welcome else { welcome with identities := welcome.identities ++ [topic] }
  config.session.encode config.hmac config.serde welcome

def unexpectedMessage : Error := ⟨.protocol, "unexpected message on IOPub peer"⟩

inductive BroadcastLabel where
  /-- a step of a call of `publish` -/
  | publisher (l : IopubLabel)
  /-- a handshake is done, and the channel registered -/
  | connect (p : PeerId)
  /-- `reader.recv()`; `msgId` and `date` are those of a welcome -/
  | event (p : PeerId) (e : SubscriberEvent) (msgId date : String)
  /-- `outgoing.recv()` -/
  | take (p : PeerId)
  | wrote (p : PeerId)
  | writeFailed (p : PeerId) (error : ZmtpError)
  /-- the task is aborted with `serve` -/
  | abort (p : PeerId)

/-- The steps of `publish`. -/
def IopubLabel.isPublisher : IopubLabel → Bool
  | .publish _ _ | .lock _ | .send | .sendFailed | .finish => true
  | .register _ | .recv _ | .drop _ => false

namespace Broadcast

def setSubscriber (s : Broadcast) (p : PeerId) (sub : Subscriber) : Broadcast :=
  { s with subscribers := Function.update s.subscribers p (some sub) }

/-- The loop of `p` ends, and its receiver is dropped. -/
def finish (config : BroadcastConfig) (s : Broadcast) (p : PeerId) (sub : Subscriber)
    (error : Option Error) : Option Broadcast := do
  let iopub ← s.iopub.step config.toIopubConfig (.drop p)
  return { s with iopub }.setSubscriber p { sub with pc := .ended error }

/-- The branch of the `select!` for the socket. -/
def event (config : BroadcastConfig) (s : Broadcast) (p : PeerId) (sub : Subscriber)
    (e : SubscriberEvent) (msgId date : String) : Option Broadcast :=
  let sub := { sub with taken := sub.taken ++ [.event e] }
  match e with
  | .subscribe topic =>
      match config.welcome msgId date topic with
      | .ok frames => some (s.setSubscriber p { sub with pc := .writing (.welcome topic frames) })
      | .error error => s.finish config p sub (some (wireFailed error))
  | .cancel _ => some (s.setSubscriber p sub)
  | .ping context => some (s.setSubscriber p { sub with pc := .writing (.pong context) })
  | .message => s.finish config p sub (some unexpectedMessage)
  | .failed error => s.finish config p sub (some error.toError)

def step (config : BroadcastConfig) (s : Broadcast) : BroadcastLabel → Option Broadcast
  | .publisher l =>
      if l.isPublisher then
        (s.iopub.step config.toIopubConfig l).map fun iopub => { s with iopub }
      else none
  | .connect p =>
      match s.subscribers p with
      | none =>
          (s.iopub.step config.toIopubConfig (.register p)).map fun iopub =>
            { s with iopub }.setSubscriber p {}
      | some _ => none
  | .event p e msgId date => do
      let sub ← s.subscribers p
      match sub.pc with
      | .select => s.event config p sub e msgId date
      | .writing _ | .ended _ => none
  | .take p => do
      let sub ← s.subscribers p
      let peer ← s.iopub.table p
      match sub.pc, peer.queue with
      | .select, frames :: _ =>
          (s.iopub.step config.toIopubConfig (.recv p)).map fun iopub =>
            { s with iopub }.setSubscriber p { sub with
              pc := .writing (.publication frames), taken := sub.taken ++ [Taken.publication frames] }
      | _, _ => none
  | .wrote p => do
      let sub ← s.subscribers p
      match sub.pc with
      | .writing w => some (s.setSubscriber p { sub with pc := .select, written := sub.written ++ [w] })
      | .select | .ended _ => none
  | .writeFailed p error => do
      let sub ← s.subscribers p
      match sub.pc with
      | .writing _ => s.finish config p sub (some error.toError)
      | .select | .ended _ => none
  | .abort p => do
      let sub ← s.subscribers p
      match sub.pc with
      | .select | .writing _ => s.finish config p sub none
      | .ended _ => none

/-- The runs from the start of the kernel. -/
def Reachable (config : BroadcastConfig) (s : Broadcast) : Prop :=
  Lib.Reachable (step config) {} s

end Broadcast

end Kernmini.Transport
