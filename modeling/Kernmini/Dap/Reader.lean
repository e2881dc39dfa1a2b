/-
Kernmini.Dap.Reader — `read_messages`, the reader task of a DAP connection.

The task loops over a `select!` between the watch channel of the close
reason and `read_message`. Bytes arrive in pieces and at any time. When the
watch wins, the read is dropped with the bytes it has consumed; the loop
then returns if there is a close reason, and goes on with a new read if
there is none.
-/
import Kernmini.Dap.Message

namespace Kernmini.Dap

open Kernmini.Wire Kernmini.Engine

/-- `watch::channel(None)` of the close reason. -/
structure Watch where
  value : Option Error := none
  /-- counts the modifications -/
  version : Nat := 0

/-- The `send_if_modified` of `fail_pending`. -/
def Watch.setReason (w : Watch) (error : Error) : Watch :=
  match w.value with
  | some _ => w
  | none => ⟨some error, w.version + 1⟩

/-- `message.get("type").and_then(Value::as_str) == Some("event")`. -/
def isEvent (message : Value) : Bool := (message.get "type").bind Value.asStr = some "event"

inductive ReaderPc where
  /-- at the test of the close reason -/
  | head
  /-- in `select!`, with the read under way -/
  | select (read : ReadPc)
  | returned (result : Except Error Unit)
  | panicked
  /-- the process has been aborted -/
  | aborted

/-- The reader task and the stream it reads from. -/
structure Reader where
  /-- arrived and not consumed -/
  input : Bytes := []
  /-- the peer has ended the stream -/
  ended : Bool := false
  close : Watch := {}
  /-- the version of `close` the task has seen -/
  seen : Nat := 0
  pc : ReaderPc := .head
  /-- every message read, in order (for statements) -/
  messages : List Value := []
  /-- sent to the event channel -/
  events : List Value := []
  /-- looked up among the pending requests -/
  responses : List Value := []

inductive ReaderLabel where
  | arrive (chunk : Bytes)
  | eof
  /-- a `fail_pending` sets the reason -/
  | close (error : Error)
  | head
  | read
  /-- `close.changed()` -/
  | changed

/-- The steps of the task itself. -/
def ReaderLabel.isOwn : ReaderLabel → Bool
  | .head | .read | .changed => true
  | _ => false

namespace Reader

/-- Hand a message on. -/
def dispatch (s : Reader) (message : Value) : Reader :=
  let s := { s with messages := s.messages ++ [message], pc := .head }
  if isEvent message then { s with events := s.events ++ [message] }
  else { s with responses := s.responses ++ [message] }

def advance (s : Reader) : ReadStep → Reader
  | .reading read => { s with pc := .select read }
  | .message v => s.dispatch v
  | .failed error => { s with pc := .returned (.error error) }
  | .panicked => { s with pc := .panicked }
  | .aborted => { s with pc := .aborted }

def step (host : Host) (s : Reader) : ReaderLabel → Option Reader
  | .arrive chunk => if s.ended then none else some { s with input := s.input ++ chunk }
  | .eof => if s.ended then none else some { s with ended := true }
  | .close error => some { s with close := s.close.setReason error }
  | .head =>
      match s.pc with
      | .head =>
          match s.close.value with
          | some _ => some { s with pc := .returned (.ok ()) }
          | none => some { s with pc := .select .start }
      | _ => none
  | .read =>
      match s.pc with
      | .select read =>
          match s.input with
          | b :: rest => some ({ s with input := rest }.advance (feed host read b))
          | [] => if s.ended then some (s.advance (eof host read)) else none
      | _ => none
  | .changed =>
      match s.pc with
      | .select _ =>
          if s.seen < s.close.version then
            match s.close.value with
            | some _ => some { s with seen := s.close.version, pc := .returned (.ok ()) }
            | none => some { s with seen := s.close.version, pc := .head }
          else none
      | _ => none

end Reader

end Kernmini.Dap
