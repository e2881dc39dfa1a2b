/-
Kernmini.Wire.Session — signing, `Session::encode` and `Session::decode`.

HMAC-SHA256 and `serde_json` are not part of this repository. They enter
as data: a function from key and text to a digest, and a `SerdeJson`.

A Rust index or range outside its slice panics. `index` and `slice` give
`none` there, so a `decode` that gives `some` has not panicked. `decode` is
cut at the two places where a concurrent call can come in between, before
and after the lock on the seen signatures.
-/
import Kernmini.Wire.Message
import Mathlib.Data.Finset.Insert

namespace Kernmini.Wire

/-! ## What the wire layer takes from other crates -/

/-- `serde_json::Error`, as its text. -/
structure JsonError where
  text : String
  deriving DecidableEq

/-- `serde_json::to_vec` and `serde_json::from_slice`, the latter at the two
types the wire layer asks for. Reading a `Map` succeeds on the text of an
object only and then gives its fields. -/
structure SerdeJson where
  toVec : Value → Except JsonError Bytes
  fromSlice : Bytes → Except JsonError Value
  mapFromSlice : Bytes → Except JsonError Map
  mapFromSlice_ok : ∀ b m, mapFromSlice b = .ok m ↔ fromSlice b = .ok (.object m)

/-- The text written for `v` is read back as `v`. -/
def SerdeJson.RoundTrips (serde : SerdeJson) (v : Value) : Prop :=
  ∃ b, serde.toVec v = .ok b ∧ serde.fromSlice b = .ok v

/-- `Hmac<Sha256>`: key, then text, to the digest. -/
abbrev HmacSha256 := Bytes → Bytes → Bytes

/-! ## Bytes -/

/-- A byte string literal. -/
def ascii (s : String) : Bytes := s.toList.map (fun c => UInt8.ofNat c.toNat)

/-- A hexadecimal digit as `hex::encode` writes it. -/
def hexDigit (n : UInt8) : UInt8 := if n < 10 then 48 + n else 87 + n

/-- `hex::encode(..).into_bytes()`. -/
def hexEncode (bytes : Bytes) : Bytes :=
  bytes.flatMap (fun b => [hexDigit (b / 16), hexDigit (b % 16)])

/-- `DELIMITER`. -/
def delimiter : Bytes := ascii "<IDS|MSG>"

inductive WireError where
  | missingDelimiter
  | missingParts
  | badSignature
  | duplicateSignature
  | json (error : JsonError)
  deriving DecidableEq

/-- A part of `decode`: it returns, fails with an error, or panics (`none`). -/
abbrev Decode := ExceptT WireError Option

/-- `xs[i]`. -/
def index {α : Type} (xs : List α) (i : Nat) : Decode α :=
  ExceptT.mk (xs[i]?.map .ok)

/-- `xs[a..b]`. -/
def slice {α : Type} (xs : List α) (a b : Nat) : Decode (List α) :=
  ExceptT.mk (if a ≤ b ∧ b ≤ xs.length then some (.ok ((xs.drop a).take (b - a))) else none)

/-- `?` on a result of `serde_json`, with `From<serde_json::Error>`. -/
def orJson {α : Type} (result : Except JsonError α) : Decode α :=
  ExceptT.mk (some (result.mapError .json))

/-! ## The session -/

/-- The part of a `Session` that never changes; `seen` is passed along. -/
structure Session where
  key : Bytes
  session : String
  username : String

/-- `HashSet<Vec<u8>>`. -/
abbrev Seen := Finset Bytes

namespace Session

variable (hmac : HmacSha256) (serde : SerdeJson)

/-- `Session::signature`: the parts are fed to one MAC in turn. -/
def signature (self : Session) (jsonParts : List Bytes) : Bytes :=
  if self.key.isEmpty then [] else hexEncode (hmac self.key jsonParts.flatten)

/-- The four calls of `to_vec`, in order. -/
def jsonParts (message : Message) : Except WireError (List Bytes) := do
  let header ← (serde.toVec (.object message.header)).mapError .json
  let parentHeader ← (serde.toVec (.object message.parentHeader)).mapError .json
  let metadata ← (serde.toVec (.object message.metadata)).mapError .json
  let content ← (serde.toVec message.content).mapError .json
  return [header, parentHeader, metadata, content]

/-- `Session::encode`. -/
def encode (self : Session) (message : Message) : Except WireError (List Bytes) := do
  let jsonParts ← jsonParts serde message
  return message.identities ++ [delimiter] ++ [self.signature hmac jsonParts] ++ jsonParts
    ++ message.buffers

/-- The locals of `decode` once the signature has been compared. -/
structure Checked where
  delimiter : Nat
  signature : Bytes
  jsonParts : List Bytes
  deriving DecidableEq

/-- `decode` up to the lock. -/
def check (self : Session) (frames : List Bytes) : Decode Checked := do
  let some position := frames.findIdx? (fun part => part = delimiter)
    | throw .missingDelimiter
  if frames.length < position + 6 then throw .missingParts
  let signature ← index frames (position + 1)
  let jsonParts ← slice frames (position + 2) (position + 6)
  if !self.key.isEmpty && self.signature hmac jsonParts ≠ signature then throw .badSignature
  return { delimiter := position, signature, jsonParts }

/-- The section of `decode` that holds the lock on `seen`. -/
def insertSeen (self : Session) (seen : Seen) (signature : Bytes) : Except WireError Unit × Seen :=
  if self.key.isEmpty then (.ok (), seen)
  else if signature ∈ seen then (.error .duplicateSignature, seen)
  else (.ok (), insert signature seen)

/-- `decode` after the lock. -/
def parse (frames : List Bytes) (checked : Checked) : Decode Message := do
  let identities ← slice frames 0 checked.delimiter
  let header ← orJson (serde.mapFromSlice (← index checked.jsonParts 0))
  let parentHeader ← orJson (serde.mapFromSlice (← index checked.jsonParts 1))
  let metadata ← orJson (serde.mapFromSlice (← index checked.jsonParts 2))
  let content ← orJson (serde.fromSlice (← index checked.jsonParts 3))
  let buffers ← slice frames (checked.delimiter + 6) frames.length
  return { identities, header, parentHeader, metadata, content, buffers }

/-- `Session::decode`: its result and the seen signatures after it; `none`
when it panics. -/
def decode (self : Session) (seen : Seen) (frames : List Bytes) :
    Option (Except WireError Message × Seen) := do
  match ← (self.check hmac frames).run with
  | .error error => return (.error error, seen)
  | .ok checked =>
      match self.insertSeen seen checked.signature with
      | (.error error, seen) => return (.error error, seen)
      | (.ok (), seen) => return (← (parse serde frames checked).run, seen)

/-- `Session::message`. The fresh id and the date are arguments. -/
def message (self : Session) (msgId date msgType : String) (content : Value)
    (parent : Option Message) : Message :=
  { header :=
      [("msg_id", .string msgId), ("session", .string self.session),
        ("username", .string self.username), ("date", .string date),
        ("msg_type", .string msgType), ("version", .string "5.3")]
    parentHeader := (parent.map Message.header).getD []
    content }

end Session

end Kernmini.Wire
