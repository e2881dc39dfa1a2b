/-
Kernmini.Dap.Message — the frames of the Debug Adapter Protocol:
`encode_message`, and `read_message` as a machine.

`read_message` reads lines up to an empty one, then as many bytes as the
last `Content-Length` said. Between two bytes it is in a `read_line` or in
the `read_exact`, with what it has so far; `ReadPc` is that place. `feed`
takes the next byte of the stream and `eof` its end. So a stream can arrive
in any pieces, and a read that is dropped is dropped at a `ReadPc`.
-/
import Kernmini.Engine.Language
import Kernmini.Wire.Session

namespace Kernmini.Dap

open Kernmini.Wire Kernmini.Engine

/-! ## Text and numbers -/

/-- `String::into_bytes`. -/
def intoBytes (s : String) : Bytes := s.toList.flatMap String.utf8EncodeChar

/-- The check and conversion `read_line` does with the bytes of a line. -/
def fromUtf8 (bytes : Bytes) : Option String := String.fromUTF8? bytes.toByteArray

/-- `char::is_whitespace`: the `White_Space` characters of Unicode. -/
def isWhitespace (c : Char) : Bool :=
  let n := c.toNat
  (0x09 ≤ n && n ≤ 0x0D) || n = 0x20 || n = 0x85 || n = 0xA0 || n = 0x1680 ||
    (0x2000 ≤ n && n ≤ 0x200A) || n = 0x2028 || n = 0x2029 || n = 0x202F || n = 0x205F ||
    n = 0x3000

/-- `str::trim`. -/
def trim (s : List Char) : List Char :=
  ((s.dropWhile isWhitespace).reverse.dropWhile isWhitespace).reverse

/-- `std::num::ParseIntError`, as far as `parse::<usize>` gives it. -/
inductive ParseIntError where
  | empty
  | invalidDigit
  | posOverflow
  deriving DecidableEq

def ParseIntError.text : ParseIntError → String
  | .empty => "cannot parse integer from empty string"
  | .invalidDigit => "invalid digit found in string"
  | .posOverflow => "number too large to fit in target type"

/-- `usize` has 64 bits. -/
def usizeBits : Nat := 64

/-- The digits of a `usize`, from the left. -/
def parseDigits (value : Nat) : List Char → Except ParseIntError Nat
  | [] => .ok value
  | c :: rest =>
      if c.isDigit then
        let value := 10 * value + (c.toNat - '0'.toNat)
        if value < 2 ^ usizeBits then parseDigits value rest else .error .posOverflow
      else .error .invalidDigit

/-- `str::parse::<usize>`. -/
def parseUsize : List Char → Except ParseIntError Nat
  | [] => .error .empty
  | ['+'] => .error .invalidDigit
  | '+' :: digits => parseDigits 0 digits
  | digits => parseDigits 0 digits

/-! ## `encode_message` -/

def encodeMessage (serde : SerdeJson) (message : Value) : Except Error Bytes := do
  let payload ← (serde.toVec message).mapError
    (fun error => ⟨.invalidInput, "invalid JSON: " ++ error.text⟩)
  return intoBytes ("Content-Length: " ++ toString payload.length ++ "\r\n\r\n") ++ payload

/-! ## `read_message` -/

/-- What `read_message` rests on: `serde_json`, `read_line`, and the memory. -/
structure Host extends SerdeJson where
  /-- the text of the error of `read_line` for a line that is not UTF-8 -/
  notUtf8 : Bytes → String
  /-- there is memory for `vec![0; length]` -/
  allocates : Nat → Bool

section

variable (host : Host)

/-- Where `read_message` waits for more bytes. -/
inductive ReadPc where
  /-- in `read_line`, with the bytes of the line so far -/
  | line (got : Bytes) (contentLength : Option Nat)
  /-- in `read_exact`, with the bytes of the payload so far -/
  | payload (got : Bytes) (length : Nat)

/-- What becomes of `read_message`. -/
inductive ReadStep where
  | reading (pc : ReadPc)
  | message (v : Value)
  | failed (error : Error)
  | panicked
  /-- the process is aborted -/
  | aborted

/-- The payload is there. -/
def payloadRead (payload : Bytes) : ReadStep :=
  match host.fromSlice payload with
  | .ok v => .message v
  | .error error => .failed ⟨.protocol, "invalid DAP JSON: " ++ error.text⟩

/-- `vec![0; length]` and the `read_exact`. The vector panics beyond `isize::MAX`,
and aborts the process where it does not get the memory; an empty one needs none. -/
def readPayload (length : Nat) : ReadStep :=
  if 2 ^ (usizeBits - 1) ≤ length then .panicked
  else if length = 0 then payloadRead host []
  else if host.allocates length then .reading (.payload [] length)
  else .aborted

/-- The body of the header loop, with a line that is not empty. -/
def headerRead (line : Bytes) (contentLength : Option Nat) : ReadStep :=
  match fromUtf8 line with
  | none => .failed (Error.causedBy ⟨.io, "I/O failed"⟩ (host.notUtf8 line))
  | some header =>
      if header = "\r\n" then
        match contentLength with
        | none => .failed ⟨.protocol, "DAP message has no Content-Length"⟩
        | some length => readPayload host length
      else
        match header.toList.dropPrefix? "Content-Length:".toList with
        | some value =>
            match parseUsize (trim value) with
            | .ok length => .reading (.line [] (some length))
            | .error error =>
                .failed ⟨.protocol, "invalid DAP Content-Length: " ++ error.text⟩
        | none => .reading (.line [] contentLength)

/-- The next byte of the stream. -/
def feed (pc : ReadPc) (b : UInt8) : ReadStep :=
  match pc with
  | .line got contentLength =>
      if b = 0x0A then headerRead host (got ++ [b]) contentLength
      else .reading (.line (got ++ [b]) contentLength)
  | .payload got length =>
      if (got ++ [b]).length = length then payloadRead host (got ++ [b])
      else .reading (.payload (got ++ [b]) length)

/-- The end of the stream. -/
def eof (pc : ReadPc) : ReadStep :=
  match pc with
  | .line [] _ => .failed (Error.closed "DAP connection")
  | .line got contentLength => headerRead host got contentLength
  | .payload _ _ => .failed ⟨.io, "I/O failed: early eof"⟩

/-- `read_message` begins. -/
def ReadPc.start : ReadPc := .line [] none

/-- `read_message` on the bytes that are there: how far it comes, and the
bytes it has left. -/
def readMessage (pc : ReadPc) : Bytes → ReadStep × Bytes
  | [] => (.reading pc, [])
  | b :: rest =>
      match feed host pc b with
      | .reading pc => readMessage pc rest
      | done => (done, rest)

end

end Kernmini.Dap
