/-
Kernmini.Engine.Language — the vocabulary of the language boundary: the
errors of `error.rs` and the requests, outcomes, events and context
messages of `language.rs`.

What a language does with a request is not under the engine's control, so
it appears in the models only as the value a call returns and as the
events it emits while the call is pending.
-/
import Kernmini.Wire.Message

namespace Kernmini.Engine

open Kernmini.Wire

/-! ## Errors -/

/-- `ErrorKind`. -/
inductive ErrorKind where
  | interrupted
  | closed
  | timedOut
  | unavailable
  | invalidInput
  | io
  | protocol
  | adapter
  deriving DecidableEq, Repr

/-- `Error`: its kind and the text `to_string()` gives, the source chain
included. -/
structure Error where
  kind : ErrorKind
  message : String
  deriving DecidableEq, Repr

/-- `Error::closed`. -/
def Error.closed (resource : String) : Error := ⟨.closed, resource ++ " closed"⟩

/-- `Error::interrupted`. -/
def Error.interrupted : Error := ⟨.interrupted, "execution interrupted"⟩

/-- `caused_by`, with the text of the source. -/
def Error.causedBy (error : Error) (source : String) : Error :=
  ⟨error.kind, error.message ++ ": " ++ source⟩

/-- `context`. -/
def Error.context (error : Error) (message : String) : Error :=
  Error.causedBy ⟨error.kind, message⟩ error.message

/-- `From<SendError<T>>`. -/
def serviceClosed : Error := .closed "kernel service"

/-- `From<oneshot::error::RecvError>`. -/
def recvFailed : Error := serviceClosed.causedBy "channel closed"

/-! ## Requests and outcomes -/

/-- `KernelInfo`. -/
structure KernelInfo where
  implementation : String
  implementationVersion : String
  banner : String
  languageInfo : Value

/-- `ExecuteRequest`. -/
structure ExecuteRequest where
  code : String
  silent : Bool
  storeHistory : Bool
  userExpressions : Value
  allowStdin : Bool

/-- The awaited calls of `handle_shell`, with the arguments it passes. -/
inductive ServiceCall where
  | complete (code : String) (cursorPos : UInt64)
  | inspect (code : String) (cursorPos detailLevel : UInt64)
  | isComplete (code : String)
  | history (request : Value)
  | commInfo (request : Value)
  | message (msgType : String) (content : Value) (buffers : List Bytes)

def ServiceCall.isComm : ServiceCall → Bool
  | .message _ _ _ => true
  | _ => false

/-- `LanguageError`: the exception of an executed program. -/
structure LanguageError where
  ename : String
  evalue : String
  traceback : List String

/-- `ExecuteOutcome`, with the values of its `Default`. -/
structure ExecuteOutcome where
  result : Option Value := none
  resultMetadata : Value := .object []
  error : Option LanguageError := none
  userExpressions : Value := .object []
  payload : Value := .array []

/-! ## Events -/

/-- `LanguageEvent`. -/
inductive LanguageEvent where
  | stream (name text : String)
  | display (event : Value) (buffers : List Bytes)
  | message (msgType : String) (content metadata : Value) (identity : Option Bytes)
      (buffers : List Bytes)

/-- `ContextMessage`: what travels through the event channel of an
`ExecutionContext`. The completion ends of a flush and of an input request
are the channel's own and carry no data. -/
inductive ContextMessage where
  | event (e : LanguageEvent)
  | flush
  | input (prompt : String) (password : Bool)

end Kernmini.Engine
