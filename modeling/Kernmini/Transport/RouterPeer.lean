/-
Kernmini.Transport.RouterPeer — the connections of the ROUTER sockets, with
what is sent through them.

`router_peer` runs two loops in one `select!`: the writer takes the requests
of `ReplySink::send` from a bounded channel, and the reader decodes what the
client sends and puts it into the channel of its socket. When either loop
ends, the `select!` drops both, and the requests that are still queued with
them; after that the error is published in a watch channel.

`ReplySink::send` is a biased `select!` of the watch channel and of the way
through the queue. Each poll looks at the watch channel first. Between that
look and the rest of the poll other threads may go on, so the two are two
steps.

The sockets share one session and with it the set of seen signatures. The
first part of `decode` and its last read nothing that is shared, so `decode`
is one step. The registry of the stdin socket is a model of its own. The
fields `accepted`, `written`, `received` and `delivered` are history.
-/
import Kernmini.Engine.Language
import Kernmini.Lib.Oneshot
import Kernmini.Lib.Transition
import Kernmini.Wire.SessionTheorems
import Mathlib.Logic.Function.Basic

namespace Kernmini.Wire

/-- `Display for WireError`. -/
def WireError.display : WireError → String
  | .missingDelimiter => "missing <IDS|MSG> delimiter"
  | .missingParts => "insufficient Jupyter message parts"
  | .badSignature => "invalid message signature"
  | .duplicateSignature => "duplicate message signature"
  | .json error => "invalid message JSON: " ++ error.text

end Kernmini.Wire

namespace Kernmini.Transport

open Kernmini.Wire Kernmini.Engine Kernmini.Lib

/-! ## Errors -/

/-- `zmtpmini::Error`, as far as it is told apart, with its text. -/
inductive ZmtpError where
  | closed (text : String)
  | io (text : String)
  | other (text : String)

/-- `From<zmtpmini::Error>`. -/
def ZmtpError.toError : ZmtpError → Error
  | .closed text => Error.causedBy ⟨.closed, "ZMTP connection failed"⟩ text
  | .io text => Error.causedBy ⟨.io, "ZMTP connection failed"⟩ text
  | .other text => Error.causedBy ⟨.protocol, "ZMTP connection failed"⟩ text

/-- `From<WireError>`. -/
def wireFailed (error : WireError) : Error :=
  Error.causedBy ⟨.protocol, "invalid Jupyter message"⟩ error.display

def unexpectedCommand : Error := ⟨.protocol, "unexpected command on ROUTER peer"⟩

/-! ## State -/

/-- The three ROUTER sockets. -/
inductive Socket where
  | shell
  | control
  | stdin
  deriving DecidableEq

/-- The channel a socket's connections put their messages into. -/
def Socket.capacity : Socket → Nat
  | .shell => 256
  | .control => 64
  | .stdin => 64

/-- `mpsc::channel::<SendRequest>(128)`. -/
def outgoingCapacity : Nat := 128

/-- A call of `ReplySink::send`. -/
abbrev SendId := Nat

/-- `SendRequest`; `complete` belongs to the call. -/
structure SendRequest where
  call : SendId
  frames : List Bytes
  deriving DecidableEq

inductive SendPc where
  /-- in `self.outgoing.send` -/
  | sending
  /-- in `done.await` -/
  | waiting
  | returned (result : Except Error Unit)
  /-- the caller has dropped the future -/
  | cancelled

/-- The caller of `send` can still be polled, or dropped. -/
def SendPc.pending : SendPc → Bool
  | .sending | .waiting => true
  | .returned _ | .cancelled => false

structure SendCall where
  sink : ReplySink
  frames : List Bytes
  pc : SendPc := .sending
  /-- in a poll, past the look at `closed` -/
  polled : Bool := false
  /-- the channel of `complete` and `done` -/
  done : Oneshot (Except Error Unit) := .waiting

inductive PeerPc where
  | serving
  /-- one of the loops has ended; both are still there -/
  | leaving (error : Error)
  /-- the loops are dropped -/
  | closing (error : Error)
  | ended
  deriving DecidableEq

/-- The receiver of the requests is not dropped yet. -/
def PeerPc.isOpen : PeerPc → Bool
  | .serving | .leaving _ => true
  | .closing _ | .ended => false

/-- A run of `router_peer` after the handshake. -/
structure RouterPeer where
  socket : Socket
  identity : Bytes
  pc : PeerPc := .serving
  outgoing : List SendRequest := []
  /-- in `writer.send` -/
  writing : Option SendRequest := none
  /-- in `incoming.send` -/
  inbound : Option Message := none
  /-- the watch channel -/
  closed : Option Error := none
  /-- the requests that entered the queue, and those `writer.send` wrote -/
  accepted : List SendRequest := []
  written : List SendRequest := []

structure Routers where
  seen : Seen := ∅
  peers : ReplySink → Option RouterPeer := fun _ => none
  calls : SendId → Option SendCall := fun _ => none
  incoming : Socket → List Inbound := fun _ => []
  /-- the receiver of the channel is dropped -/
  gone : Socket → Bool := fun _ => false
  /-- what the connections read, and what went into the channels of the sockets -/
  received : List (ReplySink × List Bytes) := []
  delivered : List (ReplySink × Message) := []

/-- What `reader.recv()` gives. -/
inductive Received where
  | message (frames : List Bytes)
  /-- `Subscribe`, `Cancel` or `Ping` -/
  | command
  | failed (error : ZmtpError)

inductive RouterLabel where
  /-- a connection is accepted, and its handshake done -/
  | connect (k : ReplySink) (socket : Socket) (identity : Bytes)
  -- `ReplySink::send`
  | send (c : SendId) (k : ReplySink) (frames : List Bytes)
  /-- a poll begins -/
  | poll (c : SendId)
  /-- the rest of the poll -/
  | advance (c : SendId)
  | cancel (c : SendId)
  -- the writer loop
  | take (k : ReplySink)
  | wrote (k : ReplySink)
  | writeFailed (k : ReplySink) (error : ZmtpError)
  -- the reader loop
  | read (k : ReplySink) (event : Received)
  | deliver (k : ReplySink)
  -- the end of `router_peer`
  /-- the task is aborted with `serve_router` -/
  | abort (k : ReplySink)
  /-- the loops are dropped -/
  | leave (k : ReplySink)
  /-- `closed.send_replace`, or the drop of `closed` -/
  | close (k : ReplySink)
  -- the other end of the sockets' channels
  | receive (socket : Socket)
  | hangUp (socket : Socket)

namespace Routers

def setPeer (s : Routers) (k : ReplySink) (p : RouterPeer) : Routers :=
  { s with peers := Function.update s.peers k (some p) }

def setCall (s : Routers) (c : SendId) (call : SendCall) : Routers :=
  { s with calls := Function.update s.calls c (some call) }

/-- `request.complete.send(result)`. -/
def complete (s : Routers) (c : SendId) (result : Except Error Unit) : Routers :=
  { s with calls := fun c' =>
      (s.calls c').map fun call =>
        if c' = c then { call with done := call.done.send result } else call }

/-- The requests are dropped, and their senders with them. -/
def dropRequests (s : Routers) (requests : List SendRequest) : Routers :=
  { s with calls := fun c =>
      (s.calls c).map fun call =>
        if c ∈ requests.map SendRequest.call then { call with done := call.done.dropSender }
        else call }

/-- `ReplySink::send`, after the look at `closed`. -/
def advance (s : Routers) (c : SendId) (call : SendCall) (p : RouterPeer) : Option Routers :=
  match call.pc with
  | .sending =>
      if p.pc.isOpen then
        if p.outgoing.length < outgoingCapacity then
          let request : SendRequest := ⟨c, call.frames⟩
          some ((s.setCall c { call with pc := .waiting }).setPeer call.sink { p with
            outgoing := p.outgoing ++ [request], accepted := p.accepted ++ [request] })
        else some (s.setCall c { call with polled := false })
      else some (s.setCall c { call with pc := .returned (.error serviceClosed), polled := false })
  | .waiting =>
      match call.done with
      | .sent result => some (s.setCall c { call with pc := .returned result, polled := false })
      | .dropped =>
          some (s.setCall c { call with pc := .returned (.error recvFailed), polled := false })
      | .waiting => some (s.setCall c { call with polled := false })
      | .closed => none
  | .returned _ | .cancelled => none

section

variable (hmac : HmacSha256) (serde : SerdeJson) (session : Session)

/-- One round of the reader loop, up to `incoming.send`. -/
def read (s : Routers) (k : ReplySink) (p : RouterPeer) : Received → Option Routers
  | .message frames =>
      match session.decode hmac serde s.seen frames with
      | some (result, seen) =>
          let s := { s with seen, received := s.received ++ [(k, frames)] }
          match result with
          | .ok message => some (s.setPeer k { p with inbound := some message })
          | .error .duplicateSignature => some s
          | .error error => some (s.setPeer k { p with pc := .leaving (wireFailed error) })
      | none => none
  | .command => some (s.setPeer k { p with pc := .leaving unexpectedCommand })
  | .failed error => some (s.setPeer k { p with pc := .leaving error.toError })

/-- A step of a connection that is being served. -/
def serve (s : Routers) (k : ReplySink) (p : RouterPeer) : RouterLabel → Option Routers
  | .take _ =>
      match p.writing, p.outgoing with
      | none, request :: rest =>
          some (s.setPeer k { p with writing := some request, outgoing := rest })
      | _, _ => none
  | .wrote _ =>
      match p.writing with
      | some request =>
          some ((s.complete request.call (.ok ())).setPeer k { p with
            writing := none, written := p.written ++ [request] })
      | none => none
  | .writeFailed _ error =>
      match p.writing with
      | some request =>
          some ((s.complete request.call (.error error.toError)).setPeer k { p with
            writing := none, pc := .leaving error.toError })
      | none => none
  | .read _ event =>
      match p.inbound with
      | none => s.read hmac serde session k p event
      | some _ => none
  | .deliver _ =>
      match p.inbound with
      | some message =>
          if s.gone p.socket then
            some (s.setPeer k { p with inbound := none, pc := .leaving serviceClosed })
          else if (s.incoming p.socket).length < p.socket.capacity then
            let inbound : Inbound := ⟨message, k, p.identity⟩
            some { s.setPeer k { p with inbound := none } with
              incoming := Function.update s.incoming p.socket (s.incoming p.socket ++ [inbound])
              delivered := s.delivered ++ [(k, message)] }
          else none
      | none => none
  | .abort _ => some (s.setPeer k { p with pc := .leaving (Error.closed "router peer") })
  | _ => none

/-- The two loops of connection `k`, until one of them ends. -/
def loops (s : Routers) (k : ReplySink) (l : RouterLabel) : Option Routers := do
  let p ← s.peers k
  match p.pc with
  | .serving => s.serve hmac serde session k p l
  | .leaving _ | .closing _ | .ended => none

def step (s : Routers) (l : RouterLabel) : Option Routers :=
  match l with
  | .connect k socket identity =>
      match s.peers k with
      | none => some (s.setPeer k { socket, identity })
      | some _ => none
  | .send c k frames =>
      match s.calls c, s.peers k with
      | none, some _ => some (s.setCall c { sink := k, frames })
      | _, _ => none
  | .poll c => do
      let call ← s.calls c
      let p ← s.peers call.sink
      if call.pc.pending ∧ call.polled = false then
        match p.closed with
        | some error =>
            some (s.setCall c { call with
              pc := .returned (.error error), done := call.done.close })
        | none => some (s.setCall c { call with polled := true })
      else none
  | .advance c => do
      let call ← s.calls c
      let p ← s.peers call.sink
      if call.polled then s.advance c call p else none
  | .cancel c => do
      let call ← s.calls c
      if call.pc.pending ∧ call.polled = false then
        some (s.setCall c { call with pc := .cancelled, done := call.done.close })
      else none
  | .leave k => do
      let p ← s.peers k
      match p.pc with
      | .leaving error =>
          some ((s.dropRequests (p.writing.toList ++ p.outgoing)).setPeer k { p with
            pc := .closing error, writing := none, outgoing := [], inbound := none })
      | _ => none
  | .close k => do
      let p ← s.peers k
      match p.pc with
      | .closing error => some (s.setPeer k { p with pc := .ended, closed := some error })
      | _ => none
  | .receive socket =>
      match s.incoming socket with
      | _ :: rest => some { s with incoming := Function.update s.incoming socket rest }
      | [] => none
  | .hangUp socket => some { s with gone := Function.update s.gone socket true }
  | .take k | .wrote k | .writeFailed k _ | .read k _ | .deliver k | .abort k =>
      s.loops hmac serde session k l

/-- The runs from the start of the kernel. -/
def Reachable (s : Routers) : Prop := Lib.Reachable (step hmac serde session) {} s

end

/-! ## The steps as rules -/

section

variable (hmac : HmacSha256) (serde : SerdeJson) (session : Session)

/-- What can happen in one step. -/
inductive Rule (s : Routers) : RouterLabel → Routers → Prop
  | connect {k : ReplySink} {socket : Socket} {identity : Bytes} (hk : s.peers k = none) :
      Rule s (.connect k socket identity) (s.setPeer k { socket, identity })
  -- `ReplySink::send`
  | send {c : SendId} {k : ReplySink} {p : RouterPeer} {frames : List Bytes}
      (hc : s.calls c = none) (hk : s.peers k = some p) :
      Rule s (.send c k frames) (s.setCall c { sink := k, frames })
  | pollClosed {c : SendId} {call : SendCall} {p : RouterPeer} {error : Error}
      (hc : s.calls c = some call) (hk : s.peers call.sink = some p)
      (hpending : call.pc.pending = true) (hpolled : call.polled = false)
      (hclosed : p.closed = some error) :
      Rule s (.poll c) (s.setCall c { call with
        pc := .returned (.error error), done := call.done.close })
  | pollOpen {c : SendId} {call : SendCall} {p : RouterPeer}
      (hc : s.calls c = some call) (hk : s.peers call.sink = some p)
      (hpending : call.pc.pending = true) (hpolled : call.polled = false)
      (hclosed : p.closed = none) :
      Rule s (.poll c) (s.setCall c { call with polled := true })
  | enqueue {c : SendId} {call : SendCall} {p : RouterPeer}
      (hc : s.calls c = some call) (hk : s.peers call.sink = some p) (hpolled : call.polled = true)
      (hpc : call.pc = .sending) (hopen : p.pc.isOpen = true)
      (hroom : p.outgoing.length < outgoingCapacity) :
      Rule s (.advance c) ((s.setCall c { call with pc := .waiting }).setPeer call.sink { p with
        outgoing := p.outgoing ++ [⟨c, call.frames⟩], accepted := p.accepted ++ [⟨c, call.frames⟩] })
  /-- `Poll::Pending`: the queue is full, or there is no answer yet -/
  | pending {c : SendId} {call : SendCall} {p : RouterPeer}
      (hc : s.calls c = some call) (hk : s.peers call.sink = some p) (hpolled : call.polled = true)
      (hpending : call.pc.pending = true) :
      Rule s (.advance c) (s.setCall c { call with polled := false })
  | refused {c : SendId} {call : SendCall} {p : RouterPeer} {error : Error}
      (hc : s.calls c = some call) (hk : s.peers call.sink = some p) (hpolled : call.polled = true)
      (hpending : call.pc.pending = true) :
      Rule s (.advance c)
        (s.setCall c { call with pc := .returned (.error error), polled := false })
  | answered {c : SendId} {call : SendCall} {p : RouterPeer} {result : Except Error Unit}
      (hc : s.calls c = some call) (hk : s.peers call.sink = some p) (hpolled : call.polled = true)
      (hpc : call.pc = .waiting) (hdone : call.done = .sent result) :
      Rule s (.advance c) (s.setCall c { call with pc := .returned result, polled := false })
  | cancel {c : SendId} {call : SendCall} (hc : s.calls c = some call)
      (hpending : call.pc.pending = true) (hpolled : call.polled = false) :
      Rule s (.cancel c) (s.setCall c { call with pc := .cancelled, done := call.done.close })
  -- the writer loop
  | take {k : ReplySink} {p : RouterPeer} {request : SendRequest} {rest : List SendRequest}
      (hk : s.peers k = some p) (hpc : p.pc = .serving) (hwriting : p.writing = none)
      (houtgoing : p.outgoing = request :: rest) :
      Rule s (.take k) (s.setPeer k { p with writing := some request, outgoing := rest })
  | wrote {k : ReplySink} {p : RouterPeer} {request : SendRequest} (hk : s.peers k = some p)
      (hpc : p.pc = .serving) (hwriting : p.writing = some request) :
      Rule s (.wrote k) ((s.complete request.call (.ok ())).setPeer k { p with
        writing := none, written := p.written ++ [request] })
  | writeFailed {k : ReplySink} {p : RouterPeer} {request : SendRequest} {error : ZmtpError}
      (hk : s.peers k = some p) (hpc : p.pc = .serving) (hwriting : p.writing = some request) :
      Rule s (.writeFailed k error)
        ((s.complete request.call (.error error.toError)).setPeer k { p with
          writing := none, pc := .leaving error.toError })
  -- the reader loop
  | readMessage {k : ReplySink} {p : RouterPeer} {frames : List Bytes} {message : Message}
      {seen : Seen} (hk : s.peers k = some p) (hpc : p.pc = .serving) (hinbound : p.inbound = none)
      (hdecode : session.decode hmac serde s.seen frames = some (.ok message, seen)) :
      Rule s (.read k (.message frames))
        ({ s with seen, received := s.received ++ [(k, frames)] }.setPeer k { p with
          inbound := some message })
  | readDuplicate {k : ReplySink} {p : RouterPeer} {frames : List Bytes} {seen : Seen}
      (hk : s.peers k = some p) (hpc : p.pc = .serving) (hinbound : p.inbound = none)
      (hdecode : session.decode hmac serde s.seen frames =
        some (.error .duplicateSignature, seen)) :
      Rule s (.read k (.message frames)) { s with seen, received := s.received ++ [(k, frames)] }
  | readBad {k : ReplySink} {p : RouterPeer} {frames : List Bytes} {error : WireError}
      {seen : Seen} (hk : s.peers k = some p) (hpc : p.pc = .serving) (hinbound : p.inbound = none)
      (hdecode : session.decode hmac serde s.seen frames = some (.error error, seen))
      (hbad : error ≠ .duplicateSignature) :
      Rule s (.read k (.message frames))
        ({ s with seen, received := s.received ++ [(k, frames)] }.setPeer k { p with
          pc := .leaving (wireFailed error) })
  | deliver {k : ReplySink} {p : RouterPeer} {message : Message} {incoming : Socket → List Inbound}
      (hk : s.peers k = some p) (hpc : p.pc = .serving) (hinbound : p.inbound = some message) :
      Rule s (.deliver k) { s.setPeer k { p with inbound := none } with
        incoming, delivered := s.delivered ++ [(k, message)] }
  /-- the reader ends without a message, or the task is aborted -/
  | leaving {l : RouterLabel} {k : ReplySink} {p : RouterPeer} {inbound : Option Message}
      {error : Error} (hk : s.peers k = some p) (hpc : p.pc = .serving)
      (hinbound : inbound = p.inbound ∨ inbound = none) :
      Rule s l (s.setPeer k { p with inbound, pc := .leaving error })
  -- the end
  | leave {k : ReplySink} {p : RouterPeer} {error : Error} (hk : s.peers k = some p)
      (hpc : p.pc = .leaving error) :
      Rule s (.leave k) ((s.dropRequests (p.writing.toList ++ p.outgoing)).setPeer k { p with
        pc := .closing error, writing := none, outgoing := [], inbound := none })
  | close {k : ReplySink} {p : RouterPeer} {error : Error} (hk : s.peers k = some p)
      (hpc : p.pc = .closing error) :
      Rule s (.close k) (s.setPeer k { p with pc := .ended, closed := some error })
  /-- the other end of the sockets' channels -/
  | kernel {l : RouterLabel} {incoming : Socket → List Inbound} {gone : Socket → Bool} :
      Rule s l { s with incoming, gone }

variable {hmac serde session} {s s' : Routers} {l : RouterLabel}

theorem advance_rule {c : SendId} {call : SendCall} {p : RouterPeer} (hc : s.calls c = some call)
    (hk : s.peers call.sink = some p) (hpolled : call.polled = true)
    (h : s.advance c call p = some s') : Rule hmac serde session s (.advance c) s' := by
  unfold advance at h
  split at h
  · next hpc =>
      have hpending : call.pc.pending = true := by rw [hpc]; rfl
      split at h
      · next hopen =>
          split at h
          · next hroom =>
              cases h
              exact .enqueue hc hk hpolled hpc hopen hroom
          · cases h
            exact .pending hc hk hpolled hpending
      · cases h
        exact .refused hc hk hpolled hpending
  · next hpc =>
      have hpending : call.pc.pending = true := by rw [hpc]; rfl
      split at h
      · next hdone =>
          cases h
          exact .answered hc hk hpolled hpc hdone
      · cases h
        exact .refused hc hk hpolled hpending
      · cases h
        exact .pending hc hk hpolled hpending
      · cases h
  · cases h
  · cases h

theorem read_rule {k : ReplySink} {p : RouterPeer} {event : Received} (hk : s.peers k = some p)
    (hpc : p.pc = .serving) (hinbound : p.inbound = none)
    (h : s.read hmac serde session k p event = some s') :
    Rule hmac serde session s (.read k event) s' := by
  cases event with
  | command =>
      cases h
      exact .leaving hk hpc (.inl rfl)
  | failed error =>
      cases h
      exact .leaving hk hpc (.inl rfl)
  | message frames =>
      simp only [read] at h
      split at h
      · next result seen hdecode =>
          split at h
          · cases h
            exact .readMessage hk hpc hinbound hdecode
          · cases h
            exact .readDuplicate hk hpc hinbound hdecode
          · next error hbad =>
              cases h
              exact .readBad hk hpc hinbound hdecode hbad
      · cases h

theorem serve_rule {k : ReplySink} {p : RouterPeer} (hk : s.peers k = some p)
    (hpc : p.pc = .serving) (hl : l = .take k ∨ l = .wrote k ∨ (∃ error, l = .writeFailed k error) ∨
      (∃ event, l = .read k event) ∨ l = .deliver k ∨ l = .abort k)
    (h : s.serve hmac serde session k p l = some s') : Rule hmac serde session s l s' := by
  rcases hl with rfl | rfl | ⟨error, rfl⟩ | ⟨event, rfl⟩ | rfl | rfl
  · simp only [serve] at h
    split at h
    · next hwriting houtgoing =>
        cases h
        exact .take hk hpc hwriting houtgoing
    · cases h
  · simp only [serve] at h
    split at h
    · next hwriting =>
        cases h
        exact .wrote hk hpc hwriting
    · cases h
  · simp only [serve] at h
    split at h
    · next hwriting =>
        cases h
        exact .writeFailed hk hpc hwriting
    · cases h
  · simp only [serve] at h
    split at h
    · next hinbound => exact read_rule hk hpc hinbound h
    · cases h
  · simp only [serve] at h
    split at h
    · next hinbound =>
        split at h
        · cases h
          exact .leaving hk hpc (.inr rfl)
        · split at h
          · cases h
            exact .deliver hk hpc hinbound
          · cases h
    · cases h
  · cases h
    exact .leaving hk hpc (.inl rfl)

theorem loops_rule {k : ReplySink} (hl : l = .take k ∨ l = .wrote k ∨
      (∃ error, l = .writeFailed k error) ∨ (∃ event, l = .read k event) ∨ l = .deliver k ∨
      l = .abort k)
    (h : s.loops hmac serde session k l = some s') : Rule hmac serde session s l s' := by
  simp only [loops, bind, Option.bind_eq_some_iff] at h
  obtain ⟨p, hk, h⟩ := h
  split at h
  case h_1 hpc => exact serve_rule hk hpc hl h
  all_goals cases h

theorem step_rule (h : s.step hmac serde session l = some s') :
    Rule hmac serde session s l s' := by
  cases l with
  | connect k socket identity =>
      simp only [step] at h
      split at h
      · next hk =>
          cases h
          exact .connect hk
      · cases h
  | send c k frames =>
      simp only [step] at h
      split at h
      · next hc hk =>
          cases h
          exact .send hc hk
      · cases h
  | poll c =>
      simp only [step, bind, Option.bind_eq_some_iff] at h
      obtain ⟨call, hc, p, hk, h⟩ := h
      split at h
      · next hpending =>
          split at h
          · next hclosed =>
              cases h
              exact .pollClosed hc hk hpending.1 hpending.2 hclosed
          · next hclosed =>
              cases h
              exact .pollOpen hc hk hpending.1 hpending.2 hclosed
      · cases h
  | advance c =>
      simp only [step, bind, Option.bind_eq_some_iff] at h
      obtain ⟨call, hc, p, hk, h⟩ := h
      split at h
      · next hpolled => exact advance_rule hc hk hpolled h
      · cases h
  | cancel c =>
      simp only [step, bind, Option.bind_eq_some_iff] at h
      obtain ⟨call, hc, h⟩ := h
      split at h
      · next hpending =>
          cases h
          exact .cancel hc hpending.1 hpending.2
      · cases h
  | leave k =>
      simp only [step, bind, Option.bind_eq_some_iff] at h
      obtain ⟨p, hk, h⟩ := h
      split at h
      · next hpc =>
          cases h
          exact .leave hk hpc
      · cases h
  | close k =>
      simp only [step, bind, Option.bind_eq_some_iff] at h
      obtain ⟨p, hk, h⟩ := h
      split at h
      · next hpc =>
          cases h
          exact .close hk hpc
      · cases h
  | receive socket =>
      simp only [step] at h
      split at h
      · cases h
        exact .kernel
      · cases h
  | hangUp socket =>
      cases h
      exact .kernel
  | take k => exact loops_rule (.inl rfl) h
  | wrote k => exact loops_rule (.inr (.inl rfl)) h
  | writeFailed k error => exact loops_rule (.inr (.inr (.inl ⟨error, rfl⟩))) h
  | read k event => exact loops_rule (.inr (.inr (.inr (.inl ⟨event, rfl⟩)))) h
  | deliver k => exact loops_rule (.inr (.inr (.inr (.inr (.inl rfl))))) h
  | abort k => exact loops_rule (.inr (.inr (.inr (.inr (.inr rfl))))) h

end

end Routers

end Kernmini.Transport
