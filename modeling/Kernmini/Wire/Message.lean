/-
Kernmini.Wire.Message — the Jupyter message the wire layer decodes, and
the request it becomes once a router connection has received it.
-/
import Kernmini.Wire.Value

namespace Kernmini.Wire

abbrev Bytes := List UInt8

/-- `Message`; the defaults are those of `Message::default()`. -/
structure Message where
  identities : List Bytes := []
  header : Map := []
  parentHeader : Map := []
  metadata : Map := []
  content : Value := .null
  buffers : List Bytes := []

/-- `map.get(key).and_then(Value::as_str).unwrap_or("")`. -/
def Map.strOr (m : Map) (key : String) : String :=
  ((m.get key).bind Value.asStr).getD ""

/-- `value.get(key).and_then(Value::as_bool).unwrap_or(default)`. -/
def Value.boolOr (v : Value) (key : String) (default : Bool) : Bool :=
  ((v.get key).bind Value.asBool).getD default

namespace Message

def msgType (m : Message) : String := m.header.strOr "msg_type"

def msgId (m : Message) : String := m.header.strOr "msg_id"

/-- `msg_type().ends_with("_request")`. -/
def isRequest (m : Message) : Bool := endsWith m.msgType "_request"

/-- `msg_type() == "execute_request"`. -/
def isExecute (m : Message) : Bool := m.msgType = "execute_request"

/-- `msg_type().replace("_request", "_reply")`. -/
def replyType (m : Message) : String := replace m.msgType "_request" "_reply"

end Message

theorem Message.isRequest_of_isExecute {m : Message} (h : m.isExecute = true) :
    m.isRequest = true := by
  have ht : m.msgType = "execute_request" := of_decide_eq_true h
  rw [Message.isRequest, ht]
  decide

/-- The reply to an execute request is an `execute_reply`. -/
theorem Message.replyType_of_isExecute {m : Message} (h : m.isExecute = true) :
    m.replyType = "execute_reply" := by
  have ht : m.msgType = "execute_request" := of_decide_eq_true h
  rw [Message.replyType, ht]
  decide

/-- The connection a reply goes back on: `ReplySink`, named by the number of
the router connection. -/
abbrev ReplySink := Nat

/-- `Inbound`: a decoded message with its connection and routing identity. -/
structure Inbound where
  message : Message
  reply : ReplySink
  identity : Bytes

end Kernmini.Wire
