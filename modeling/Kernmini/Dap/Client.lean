/-
Kernmini.Dap.Client — the requests of a `DapClient`.

A state holds the map of pending requests, the close reason, the counter of
sequence numbers, the calls of `send` with the `DapRequest`s they become,
and the runs of `fail_pending`. A step is one locked section, one atomic
operation or one look at the close reason, so that any number of threads can
take steps in any order.

`fail_pending` is run by `close`, by the reader and writer tasks and by the
drop of the last client; here it may start at any time, with any error. What
the reader has read is a label.
-/
import Kernmini.Dap.Reader
import Kernmini.Lib.HashMap
import Kernmini.Lib.Oneshot
import Mathlib.Logic.Function.Basic

namespace Kernmini.Dap

open Kernmini.Wire Kernmini.Engine Kernmini.Lib

/-- A call of `send`, and the request it returns. -/
abbrev CallId := Nat

/-- A run of `fail_pending`. -/
abbrev FailId := Nat

/-- How a call ends. -/
inductive Ending where
  /-- `send` returns an error -/
  | failed (error : Error)
  /-- `wait` returns -/
  | waited (result : Except Error Value)
  /-- the owner drops the request, or the future of `send` or `wait` -/
  | abandoned

inductive CallPc where
  /-- before the first look at the close reason -/
  | checking (request : Value)
  /-- in `request_sequence` -/
  | numbering (request : Value)
  /-- in `request_sequence`, with the number -/
  | advancing (seq : UInt64) (request : Value)
  /-- at the lock of the map -/
  | inserting (seq : UInt64) (frame : Bytes)
  /-- before the second look at the close reason -/
  | rechecking (seq : UInt64) (frame : Bytes)
  /-- in `outgoing.send(frame).await` -/
  | sending (seq : UInt64) (frame : Bytes)
  /-- `send` has returned the request -/
  | owned (seq : UInt64)
  /-- in `wait` -/
  | waiting (seq : UInt64)
  /-- in `drop`, before `result.close()` -/
  | closing (seq : UInt64) (ending : Ending)
  /-- in `drop`, at the lock of the map -/
  | removing (seq : UInt64) (ending : Ending)
  | returned (ending : Ending)

structure Call where
  pc : CallPc
  /-- made when the call enters the map -/
  channel : Oneshot (Except Error Value) := .waiting

inductive FailPc where
  /-- before `send_if_modified` -/
  | setting (error : Error)
  /-- before the reason is read back -/
  | reading
  /-- at the lock of the map -/
  | draining (reason : Error)
  | finished
  /-- the `unwrap` of the reason -/
  | panicked

structure DapClient where
  close : Option Error := none
  pending : HashMap UInt64 CallId := ∅
  nextSeq : UInt64 := 1
  /-- the writer task has dropped the receiver of the frames -/
  writerGone : Bool := false
  calls : CallId → Option Call := fun _ => none
  fails : FailId → Option FailPc := fun _ => none

inductive DapLabel where
  | send (c : CallId) (request : Value)
  /-- the next step of a call that does not wait -/
  | advance (c : CallId)
  | sent (c : CallId)
  | sendFailed (c : CallId)
  | wait (c : CallId)
  /-- the result is there -/
  | receive (c : CallId)
  | timeout (c : CallId)
  | drop (c : CallId)
  /-- the reader has read a message -/
  | received (message : Value)
  | writerGone
  | fail (f : FailId) (error : Error)
  | failStep (f : FailId)

/-- The call whose step it is. -/
def DapLabel.call : DapLabel → Option CallId
  | .send c _ | .advance c | .sent c | .sendFailed c | .wait c | .receive c | .timeout c | .drop c =>
      some c
  | .received _ | .writerGone | .fail _ _ | .failStep _ => none

/-! ## Sequence numbers -/

/-- `request_sequence` up to the number; `next_sequence` is a `fetch_add`,
which wraps. -/
def requestSequence (nextSeq : UInt64) (request : Value) : Except Error (UInt64 × Value) × UInt64 :=
  match request with
  | .object content =>
      match ((Map.get content "seq").bind Value.asU64).filter (fun seq => 0 < seq) with
      | some seq => (.ok (seq, request), nextSeq)
      | none =>
          let content := Map.insert "seq" (.number (.posInt nextSeq)) content
          (.ok (nextSeq, .object content), nextSeq + 1)
  | _ => (.error ⟨.invalidInput, "DAP request must be an object"⟩, nextSeq)

/-- `seq.checked_add(1)`. -/
def checkedSucc (seq : UInt64) : Option UInt64 :=
  if seq.toNat + 1 < 2 ^ 64 then some (seq + 1) else none

def sequenceTooLarge : Error := ⟨.invalidInput, "DAP request sequence is too large"⟩

def alreadyPending (seq : UInt64) : Error :=
  ⟨.invalidInput, "DAP request " ++ toString seq ++ " is already pending"⟩

def waitTimedOut (seq : UInt64) : Error :=
  ⟨.timedOut, "waiting for DAP request " ++ toString seq ++ ": deadline has elapsed"⟩

/-- The channel was dropped under `wait`. -/
def waitClosed : Error := ⟨.closed, "DAP connection closed: channel closed"⟩

/-- `message.get("request_seq").and_then(Value::as_u64)`. -/
def requestSeq (message : Value) : Option UInt64 := (message.get "request_seq").bind Value.asU64

namespace DapClient

def setCall (s : DapClient) (c : CallId) (call : Call) : DapClient :=
  { s with calls := Function.update s.calls c (some call) }

def setFail (s : DapClient) (f : FailId) (pc : FailPc) : DapClient :=
  { s with fails := Function.update s.fails f (some pc) }

/-- `Sender::is_closed` of the sender of a call. -/
def isClosed (s : DapClient) (c : CallId) : Bool := (s.calls c).any (·.channel.isClosed)

/-- `complete.send(result)` of the sender of a call. -/
def complete (s : DapClient) (c : CallId) (result : Except Error Value) : DapClient :=
  match s.calls c with
  | some call => s.setCall c { call with channel := call.channel.send result }
  | none => s

/-- The next step of a call that does not wait. -/
def advance (serde : SerdeJson) (s : DapClient) (c : CallId) (call : Call) : Option DapClient :=
  let go (s : DapClient) (pc : CallPc) := some (s.setCall c { call with pc := pc })
  match call.pc with
  | .checking request =>
      match s.close with
      | some error => go s (.returned (.failed error))
      | none => go s (.numbering request)
  | .numbering request =>
      match requestSequence s.nextSeq request with
      | (.error error, next) => go { s with nextSeq := next } (.returned (.failed error))
      | (.ok (seq, request), next) => go { s with nextSeq := next } (.advancing seq request)
  | .advancing seq request =>
      match checkedSucc seq with
      | none => go s (.returned (.failed sequenceTooLarge))
      | some next =>
          -- `fetch_max`
          let s := { s with nextSeq := max s.nextSeq next }
          match encodeMessage serde request with
          | .error error => go s (.returned (.failed error))
          | .ok frame => go s (.inserting seq frame)
  | .inserting seq frame =>
      match s.pending.lookup seq with
      | some _ => go s (.returned (.failed (alreadyPending seq)))
      | none =>
          some { s.setCall c { pc := .rechecking seq frame } with pending := s.pending.insert seq c }
  | .rechecking seq frame =>
      match s.close with
      | some error => go s (.closing seq (.failed error))
      | none => go s (.sending seq frame)
  | .closing seq ending =>
      some (s.setCall c { pc := .removing seq ending, channel := call.channel.close })
  | .removing seq ending =>
      let t := s.setCall c { call with pc := .returned ending }
      if (s.pending.lookup seq).any s.isClosed then some { t with pending := s.pending.erase seq }
      else some t
  | .sending _ _ | .owned _ | .waiting _ | .returned _ => none

/-- `fail_pending`. -/
def failStep (s : DapClient) (f : FailId) : FailPc → Option DapClient
  | .setting error => some { s.setFail f .reading with close := some (s.close.getD error) }
  | .reading =>
      match s.close with
      | some reason => some (s.setFail f (.draining reason))
      | none => some (s.setFail f .panicked)
  | .draining reason =>
      let fail (c : CallId) (call : Call) : Call :=
        if c ∈ s.pending.values then { call with channel := call.channel.send (.error reason) } else call
      some { s.setFail f .finished with pending := ∅, calls := fun c => (s.calls c).map (fail c) }
  | .finished | .panicked => none

def step (serde : SerdeJson) (s : DapClient) : DapLabel → Option DapClient
  | .send c request =>
      match s.calls c with
      | some _ => none
      | none => some (s.setCall c { pc := .checking request })
  | .advance c => do
      let call ← s.calls c
      s.advance serde c call
  | .sent c => do
      let call ← s.calls c
      match call.pc with
      | .sending seq _ =>
          if s.writerGone then none else some (s.setCall c { call with pc := .owned seq })
      | _ => none
  | .sendFailed c => do
      let call ← s.calls c
      match call.pc with
      | .sending seq _ =>
          if s.writerGone then
            let error := s.close.getD (Error.closed "DAP connection")
            some (s.setCall c { call with pc := .closing seq (.failed error) })
          else none
      | _ => none
  | .wait c => do
      let call ← s.calls c
      match call.pc with
      | .owned seq => some (s.setCall c { call with pc := .waiting seq })
      | _ => none
  | .receive c => do
      let call ← s.calls c
      match call.pc, call.channel with
      | .waiting seq, .sent result =>
          some (s.setCall c { call with pc := .closing seq (.waited result) })
      | .waiting seq, .dropped =>
          some (s.setCall c { call with pc := .closing seq (.waited (.error waitClosed)) })
      | _, _ => none
  | .timeout c => do
      let call ← s.calls c
      match call.pc with
      | .waiting seq =>
          some (s.setCall c { call with pc := .closing seq (.waited (.error (waitTimedOut seq))) })
      | _ => none
  | .drop c => do
      let call ← s.calls c
      match call.pc with
      | .sending seq _ | .owned seq | .waiting seq =>
          some (s.setCall c { call with pc := .closing seq .abandoned })
      | _ => none
  | .received message =>
      if isEvent message then some s
      else
        match requestSeq message with
        | none => some s
        | some seq =>
            match s.pending.lookup seq with
            | none => some s
            | some c => some { s.complete c (.ok message) with pending := s.pending.erase seq }
  | .writerGone => some { s with writerGone := true }
  | .fail f error =>
      match s.fails f with
      | some _ => none
      | none => some (s.setFail f (.setting error))
  | .failStep f => do
      let pc ← s.fails f
      s.failStep f pc

end DapClient

end Kernmini.Dap
