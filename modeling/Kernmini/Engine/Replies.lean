/-
Kernmini.Engine.Replies — what the engine says about a request: the
contents it builds and, for every answering path, the messages it emits
with the request as their parent, in order.

The functions of `engine.rs` that only publish and reply
(`reply_error`, `report_failure`, `abort_execute`, `finish_hold`, …)
become functions to `List Emission`. Sending can wait but not fail:
`send_reply` drops the error of a lost client, and `publish` and `encode`
fail only when `serde_json` cannot serialise a `Value`, which it always
can. The header a message gets on its way out (a fresh id, the session,
the date) is not part of an emission; its parent is the request the list
belongs to.
-/
import Kernmini.Engine.Language

namespace Kernmini.Engine

open Kernmini.Wire

/-! ## Emissions -/

/-- A message `publish_event` puts on IOPub for a language event. -/
structure Publication where
  msgType : String
  content : Value
  metadata : Map := []
  identities : List Bytes := []
  buffers : List Bytes := []

/-- One message sent with a request as its parent. -/
inductive Emission where
  | iopub (msgType : String) (content : Value)
  | reply (msgType : String) (content : Value)
  | event (p : Publication)
  | inputRequest (prompt : String) (password : Bool)

def Emission.isReply : Emission → Bool
  | .reply _ _ => true
  | _ => false

/-- The engine's own `status` message. -/
def status (state : String) : Emission :=
  .iopub "status" (.object [("execution_state", .string state)])

def busy : Emission := status "busy"

def idle : Emission := status "idle"

/-! ## Reading a request -/

/-- The table of `missing_fields`. -/
def requiredFields (msgType : String) : List String :=
  if msgType = "execute_request" ∨ msgType = "is_complete_request" then ["code"]
  else if msgType = "complete_request" ∨ msgType = "inspect_request" then
    ["code", "cursor_pos"]
  else if msgType = "history_request" then ["hist_access_type"]
  else []

/-- `missing_fields`. -/
def missingFields (request : Message) : List String :=
  (requiredFields request.msgType).filter (fun key => (request.content.get key).isNone)

/-- `execute_request`: the protocol's defaults for missing fields. -/
def executeRequest (content : Value) : ExecuteRequest :=
  { code := ((content.get "code").bind Value.asStr).getD ""
    silent := content.boolOr "silent" false
    storeHistory := content.boolOr "store_history" true
    userExpressions := (content.get "user_expressions").getD (.object [])
    allowStdin := content.boolOr "allow_stdin" true }

/-- `metadata.get("hold")…unwrap_or(false)`. -/
def isHold (request : Message) : Bool :=
  ((request.metadata.get "hold").bind Value.asBool).getD false

/-- `content.get("stop_on_error")…unwrap_or(true)`. -/
def stopOnError (request : Message) : Bool := request.content.boolOr "stop_on_error" true

/-- The language call `handle_shell` awaits for a message, if it awaits one. -/
def serviceCall (request : Message) : Option ServiceCall :=
  let code := ((request.content.get "code").bind Value.asStr).getD ""
  let cursorPos := ((request.content.get "cursor_pos").bind Value.asU64).getD 0
  if request.msgType = "complete_request" then some (.complete code cursorPos)
  else if request.msgType = "inspect_request" then
    some (.inspect code cursorPos
      (((request.content.get "detail_level").bind Value.asU64).getD 0))
  else if request.msgType = "is_complete_request" then some (.isComplete code)
  else if request.msgType = "history_request" then some (.history request.content)
  else if request.msgType = "comm_info_request" then some (.commInfo request.content)
  else if request.msgType = "comm_open" ∨ request.msgType = "comm_msg" ∨
      request.msgType = "comm_close" then
    some (.message request.msgType request.content request.buffers)
  else none

/-! ## Error replies -/

/-- `error_content`. -/
def errorContent (request : Message) (executionCount : Nat) (ename evalue : String) : Value :=
  let content : Value := .object
    [("status", .string "error"), ("ename", .string ename), ("evalue", .string evalue),
     ("traceback", .array [])]
  if request.msgType = "execute_request" then
    ((content.set "execution_count" (.count executionCount)).set
      "user_expressions" (.object [])).set "payload" (.array [])
  else if request.msgType = "complete_request" then
    (((content.set "matches" (.array [])).set "cursor_start" (.count 0)).set
      "cursor_end" (.count 0)).set "metadata" (.object [])
  else if request.msgType = "inspect_request" then
    ((content.set "found" (.bool false)).set "data" (.object [])).set "metadata" (.object [])
  else if request.msgType = "history_request" then content.set "history" (.array [])
  else if request.msgType = "is_complete_request" then content.set "indent" (.string "")
  else content

/-- `reply_error`: only an execute request publishes the error and is
bracketed by its status. -/
def replyError (request : Message) (content : Value) : List Emission :=
  (if request.isExecute then [busy, .iopub "error" content] else []) ++
    [.reply request.replyType content] ++ (if request.isExecute then [idle] else [])

/-- `reply_missing`. -/
def replyMissing (executionCount : Nat) (request : Message) (missing : List String) :
    List Emission :=
  replyError request (errorContent request executionCount "MissingField"
    ("missing required fields: " ++ ", ".intercalate missing))

/-- `report_failure`: the second half of a request whose handling failed.
A message that is no request gets no reply. -/
def reportFailure (request : Message) (error : Error) (executionCount : Nat) :
    List Emission :=
  let ename := if error.kind = .interrupted then "KeyboardInterrupt" else "KernelError"
  let content := errorContent request executionCount ename error.message
  (if request.isExecute then [.iopub "error" content] else []) ++
    (if request.isRequest then [.reply request.replyType content] else []) ++ [idle]

/-! ## Executions -/

/-- `ExecutionDone`. -/
structure ExecutionDone where
  failed : Bool
  stopOnError : Bool

/-- The messages `execute` publishes before it calls the language. -/
def startExecution (execution : ExecuteRequest) (executionCount : Nat) : List Emission :=
  busy :: if execution.silent then [] else
    [.iopub "execute_input" (.object
      [("code", .string execution.code), ("execution_count", .count executionCount)])]

/-- The second half of `execute`, once the language's outcome is known and
its output is flushed: the message published, the reply's content, and
whether the program failed. -/
def executeOutcome (silent : Bool) (executionCount : Nat) (outcome : ExecuteOutcome) :
    List Emission × Value × Bool :=
  match outcome.error with
  | some error =>
      let traceback : Value := .array (error.traceback.map .string)
      ([.iopub "error" (.object
          [("ename", .string error.ename), ("evalue", .string error.evalue),
           ("traceback", traceback)])],
        .object
          [("status", .string "error"), ("execution_count", .count executionCount),
           ("ename", .string error.ename), ("evalue", .string error.evalue),
           ("traceback", traceback)],
        true)
  | none =>
      (match outcome.result with
        | some result =>
            if silent then [] else
              [.iopub "execute_result" (.object
                [("execution_count", .count executionCount), ("data", result),
                 ("metadata", outcome.resultMetadata)])]
        | none => [],
        .object
          [("status", .string "ok"), ("execution_count", .count executionCount),
           ("user_expressions", outcome.userExpressions), ("payload", outcome.payload)],
        false)

/-- The end of `run_execution`. An adapter error is reported like a failed
execution; a closed language service also ends the shell. -/
def finishExecution (request : Message) (silent : Bool) (executionCount : Nat) :
    Except Error ExecuteOutcome → List Emission × Except Error ExecutionDone
  | .ok outcome =>
      let (published, content, failed) := executeOutcome silent executionCount outcome
      (published ++ [.reply "execute_reply" content, idle],
        .ok ⟨failed, stopOnError request⟩)
  | .error error =>
      (reportFailure request error executionCount,
        if error.kind = .closed then .error error else .ok ⟨true, stopOnError request⟩)

/-- `abort_execute`. -/
def abortExecute (executionCount : Nat) : List Emission :=
  [busy,
    .reply "execute_reply" (.object
      [("status", .string "aborted"), ("execution_count", .count executionCount),
       ("user_expressions", .object []), ("payload", .array [])]),
    idle]

/-- `interrupt_execute`. -/
def interruptExecute (executionCount : Nat) : List Emission :=
  [busy,
    .iopub "error" (.object
      [("ename", .string "KeyboardInterrupt"), ("evalue", .string ""),
       ("traceback", .array [])]),
    .reply "execute_reply" (.object
      [("status", .string "error"), ("execution_count", .count executionCount),
       ("ename", .string "KeyboardInterrupt"), ("evalue", .string ""),
       ("traceback", .array []), ("user_expressions", .object []), ("payload", .array [])]),
    idle]

/-! ## Holds -/

/-- `begin_hold`. -/
def beginHold (executionCount : Nat) (request : Message) : List Emission :=
  busy :: if request.content.boolOr "silent" false then [] else
    [.iopub "execute_input" (.object
      [("code", .string (((request.content.get "code").bind Value.asStr).getD "")),
       ("execution_count", .count executionCount)])]

/-- The error a release status stands for, as `(ename, evalue)`. -/
def releaseError (releaseStatus : String) : Option (String × String) :=
  if releaseStatus = "error" then some ("HoldError", "released with status error")
  else if releaseStatus = "interrupt" then some ("KeyboardInterrupt", "")
  else if releaseStatus = "timeout" then some ("HoldTimeout", "held execution timed out")
  else none

/-- `finish_hold`: the messages, and whether the hold failed. -/
def finishHold (executionCount : Nat) (releaseStatus : String) : List Emission × Bool :=
  match releaseError releaseStatus with
  | some (ename, evalue) =>
      ([.iopub "error" (.object
          [("ename", .string ename), ("evalue", .string evalue), ("traceback", .array [])]),
        .reply "execute_reply" (.object
          [("status", .string "error"), ("execution_count", .count executionCount),
           ("ename", .string ename), ("evalue", .string evalue), ("traceback", .array []),
           ("user_expressions", .object []), ("payload", .array [])]),
        idle], true)
  | none =>
      ([.reply "execute_reply" (.object
          [("status", .string "ok"), ("execution_count", .null),
           ("user_expressions", .object []), ("payload", .array [])]),
        idle], false)

/-! ## Subshell errors -/

/-- `{:?}` on one character of a string. -/
def debugChar (c : Char) : List Char :=
  if c = '"' then ['\\', '"']
  else if c = '\\' then ['\\', '\\']
  else if c = '\n' then ['\\', 'n']
  else if c = '\r' then ['\\', 'r']
  else if c = '\t' then ['\\', 't']
  else if c.val = 0 then ['\\', '0']
  else if c.val < 32 ∨ c.val = 127 then
    "\\u\x7b".toList ++ Nat.toDigits 16 c.val.toNat ++ "\x7d".toList
  else [c]

/-- `{id:?}`, for text without unprintable characters beyond ASCII. -/
def debugStr (s : String) : String :=
  String.ofList ('"' :: s.toList.flatMap debugChar ++ ['"'])

/-- `subshell_id`: the explicit id of a request, `""` for the parent. -/
def subshellId (request : Message) : String := request.header.strOr "subshell_id"

/-- `reply_subshell_error`. -/
def replySubshellError (request : Message) (ename evalue : String) : List Emission :=
  if request.isRequest then
    replyError request (errorContent request 0 ename evalue)
  else []

/-- `reply_subshell_not_found`. -/
def replySubshellNotFound (request : Message) : List Emission :=
  replySubshellError request "SubshellNotFound"
    ("Unknown subshell_id " ++ debugStr (subshellId request))

/-! ## How often each path replies

Every answering path sends one reply to a request, and none of the
opening halves does. -/

/-- The number of replies among some messages. -/
def replyCount (es : List Emission) : Nat := es.countP Emission.isReply

@[simp] theorem replyCount_nil : replyCount [] = 0 := rfl

@[simp] theorem replyCount_cons (e : Emission) (es : List Emission) :
    replyCount (e :: es) = replyCount es + if e.isReply then 1 else 0 := List.countP_cons

@[simp] theorem isReply_busy : busy.isReply = false := rfl

@[simp] theorem isReply_idle : idle.isReply = false := rfl

@[simp] theorem isReply_iopub (msgType : String) (content : Value) :
    (Emission.iopub msgType content).isReply = false := rfl

@[simp] theorem isReply_reply (msgType : String) (content : Value) :
    (Emission.reply msgType content).isReply = true := rfl

theorem replyCount_replyError (request : Message) (content : Value) :
    replyCount (replyError request content) = 1 := by
  unfold replyError
  split <;> simp

theorem replyCount_replyMissing (n : Nat) (request : Message) (missing : List String) :
    replyCount (replyMissing n request missing) = 1 :=
  replyCount_replyError _ _

theorem replyCount_reportFailure (request : Message) (error : Error) (n : Nat) :
    replyCount (reportFailure request error n) = if request.isRequest then 1 else 0 := by
  unfold reportFailure
  by_cases he : request.isExecute <;> by_cases hr : request.isRequest <;> simp [he, hr]

theorem replyCount_startExecution (execution : ExecuteRequest) (n : Nat) :
    replyCount (startExecution execution n) = 0 := by
  unfold startExecution
  split <;> simp

theorem replyCount_finishExecution {request : Message} (hr : request.isRequest = true)
    (silent : Bool) (n : Nat) (outcome : Except Error ExecuteOutcome) :
    replyCount (finishExecution request silent n outcome).1 = 1 := by
  cases outcome with
  | error error => simp [finishExecution, replyCount_reportFailure, hr]
  | ok outcome =>
      simp only [finishExecution, executeOutcome]
      split
      · simp
      · split
        · split <;> simp
        · simp

theorem replyCount_abortExecute (n : Nat) : replyCount (abortExecute n) = 1 := rfl

theorem replyCount_interruptExecute (n : Nat) : replyCount (interruptExecute n) = 1 := rfl

theorem replyCount_beginHold (n : Nat) (request : Message) :
    replyCount (beginHold n request) = 0 := by
  unfold beginHold
  split <;> simp

theorem replyCount_finishHold (n : Nat) (releaseStatus : String) :
    replyCount (finishHold n releaseStatus).1 = 1 := by
  unfold finishHold
  split <;> simp

/-- Only requests have required fields. -/
theorem isRequest_of_missingFields {request : Message} (h : missingFields request ≠ []) :
    request.isRequest = true := by
  have hreq : requiredFields request.msgType ≠ [] := by
    intro hnil
    simp [missingFields, hnil] at h
  unfold requiredFields at hreq
  unfold Message.isRequest
  split at hreq
  · next ht => rcases ht with ht | ht <;> rw [ht] <;> decide
  · split at hreq
    · next ht => rcases ht with ht | ht <;> rw [ht] <;> decide
    · split at hreq
      · next ht => rw [ht]; decide
      · simp at hreq

/-- A message with a service call is a request unless it is a comm message. -/
theorem isRequest_of_serviceCall {request : Message} {call : ServiceCall}
    (h : serviceCall request = some call) : request.isRequest = !call.isComm := by
  have key : ∀ t, request.msgType = t → request.isRequest = endsWith t "_request" := by
    intro t ht
    rw [Message.isRequest, ht]
  unfold serviceCall at h
  split at h
  · next ht => cases h; rw [key _ ht]; rfl
  · split at h
    · next ht => cases h; rw [key _ ht]; rfl
    · split at h
      · next ht => cases h; rw [key _ ht]; rfl
      · split at h
        · next ht => cases h; rw [key _ ht]; rfl
        · split at h
          · next ht => cases h; rw [key _ ht]; rfl
          · split at h
            · next ht =>
                cases h
                rcases ht with ht | ht | ht <;> rw [key _ ht] <;> rfl
            · cases h

theorem isExecute_of_serviceCall {request : Message} {call : ServiceCall}
    (h : serviceCall request = some call) : request.isExecute = false := by
  by_contra hex
  have htype : request.msgType = "execute_request" := by
    simpa [Message.isExecute] using hex
  simp [serviceCall, htype] at h

end Kernmini.Engine
