/-
Kernmini.Wire.Value — JSON values as `serde_json` represents them, and the
string operations the engine applies to message types.

`serde_json` is built with `preserve_order`, so an object is the list of
its fields in insertion order. A number is an unsigned or a negative
64-bit integer or a finite double; a finite double is kept as the
rational number it denotes, which orders doubles as IEEE 754 does
(`-0.0` and `0.0` compare equal there too). JSON carries no NaN.
-/
import Mathlib.Algebra.Order.Ring.Rat

namespace Kernmini.Wire

/-! ## Numbers -/

/-- `serde_json::Number`. -/
inductive Number where
  | posInt (n : UInt64)
  | negInt (n : Int64)
  | float (q : ℚ)
  deriving DecidableEq

/-- `n as f64` for a natural number: the nearest number with a 53-bit
significand, ties to even. `e` is the number of low bits that do not fit. -/
def natToF64 (n : Nat) : Nat :=
  let e := n.log2 - 52
  let q := n / 2 ^ e
  let low := n % 2 ^ e
  if 2 * low < 2 ^ e ∨ (2 * low = 2 ^ e ∧ q % 2 = 0) then q * 2 ^ e else (q + 1) * 2 ^ e

/-- `Number::as_f64`, which never fails for a number JSON can carry. -/
def Number.asF64 : Number → ℚ
  | .posInt n => natToF64 n.toNat
  | .negInt n => -(natToF64 n.toInt.natAbs : ℚ)
  | .float q => q

/-! ## Values and objects -/

/-- `serde_json::Value`. -/
inductive Value where
  | null
  | bool (b : Bool)
  | number (n : Number)
  | string (s : String)
  | array (xs : List Value)
  | object (fields : List (String × Value))

/-- `serde_json::Map`. -/
abbrev Map := List (String × Value)

/-- `Map::get`. -/
def Map.get (m : Map) (key : String) : Option Value :=
  (m.find? (fun field => field.1 = key)).map Prod.snd

/-- `Map::insert`: an existing key keeps its place. -/
def Map.insert (key : String) (v : Value) : Map → Map
  | [] => [(key, v)]
  | field :: rest =>
      if field.1 = key then (key, v) :: rest else field :: Map.insert key v rest

namespace Value

/-- `Value::get` with a string index. -/
def get (v : Value) (key : String) : Option Value :=
  match v with
  | .object fields => Map.get fields key
  | _ => none

def asBool : Value → Option Bool
  | .bool b => some b
  | _ => none

def asStr : Value → Option String
  | .string s => some s
  | _ => none

def asF64 : Value → Option ℚ
  | .number n => some n.asF64
  | _ => none

def asU64 : Value → Option UInt64
  | .number (.posInt n) => some n
  | _ => none

def asArray : Value → Option (List Value)
  | .array xs => some xs
  | _ => none

def asObject : Value → Option Map
  | .object fields => some fields
  | _ => none

/-- `content[key] = v` on an object. -/
def set (content : Value) (key : String) (v : Value) : Value :=
  match content with
  | .object fields => .object (Map.insert key v fields)
  | other => other

/-- `json!(n)` for a count. -/
def count (n : Nat) : Value := .number (.posInt (UInt64.ofNat n))

end Value

/-! ## Message-type strings -/

/-- `str::ends_with`. -/
def endsWith (s pat : String) : Bool := pat.toList.isSuffixOf s.toList

/-- `str::replace` on characters, left to right without overlaps. The fuel
is the length of the text: every call consumes a character. -/
def replaceChars (pat new : List Char) : Nat → List Char → List Char
  | 0, text => text
  | _ + 1, [] => []
  | fuel + 1, c :: text =>
      match (c :: text).dropPrefix? pat with
      | some rest => new ++ replaceChars pat new fuel rest
      | none => c :: replaceChars pat new fuel text

/-- `str::replace`. -/
def replace (s pat new : String) : String :=
  String.ofList (replaceChars pat.toList new.toList s.toList.length s.toList)

example : replace "complete_request" "_request" "_reply" = "complete_reply" := by decide

end Kernmini.Wire
