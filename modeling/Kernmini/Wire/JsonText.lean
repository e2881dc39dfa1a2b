/-
Kernmini.Wire.JsonText — the texts of RFC 8259, as bytes.

The grammar is that of the RFC, nonterminal by nonterminal, without the
whitespace around a whole text. It leaves out that the bytes are UTF-8 and
so allows a little more.

An object is a self-delimiting word: a reader that counts brackets, and
knows when it is inside a string, is back at depth zero at the closing
brace of the object and not before (`object_ends`).
-/
import Kernmini.Wire.Session
import Kernmini.Lib.SelfDelimiting

namespace Kernmini.Wire.JsonText

open Kernmini.Lib

/-! ## The grammar -/

/-- `ws`: space, tab, line feed and carriage return. -/
def isSpace (b : UInt8) : Bool := b = 0x20 || b = 0x09 || b = 0x0A || b = 0x0D

def Whitespace (text : Bytes) : Prop := ∀ b ∈ text, isSpace b = true

theorem whitespace_nil : Whitespace [] := by
  simp [Whitespace]

def isDigit (b : UInt8) : Bool := 0x30 ≤ b && b ≤ 0x39

def isHexDigit (b : UInt8) : Bool :=
  isDigit b || (0x41 ≤ b && b ≤ 0x46) || (0x61 ≤ b && b ≤ 0x66)

/-- At least one digit. -/
def Digits (text : Bytes) : Prop := text ≠ [] ∧ ∀ b ∈ text, isDigit b = true

/-- `number = [ minus ] int [ frac ] [ exp ]`. -/
inductive Number : Bytes → Prop
  | mk {minus int frac exp : Bytes} (hminus : minus = [] ∨ minus = [0x2D])
      (hint : Digits int) (hzero : int.head? = some 0x30 → int = [0x30])
      (hfrac : frac = [] ∨ ∃ digits, Digits digits ∧ frac = 0x2E :: digits)
      (hexp : exp = [] ∨ ∃ e sign digits, (e = 0x65 ∨ e = 0x45) ∧
        (sign = [] ∨ sign = [0x2D] ∨ sign = [0x2B]) ∧ Digits digits ∧
        exp = e :: (sign ++ digits)) :
      Number (minus ++ int ++ frac ++ exp)

/-- `char`: unescaped, or a backslash and what it escapes. -/
inductive Char : Bytes → Prop
  | unescaped {b : UInt8} (hcontrol : 0x20 ≤ b) (hquote : b ≠ 0x22) (hescape : b ≠ 0x5C) :
      Char [b]
  | escaped {b : UInt8} (hb : b ∈ ascii "\"\\/bfnrt") : Char [0x5C, b]
  | unicode {digits : Bytes} (hlen : digits.length = 4)
      (hdigits : ∀ b ∈ digits, isHexDigit b = true) : Char (0x5C :: 0x75 :: digits)

/-- `string = quotation-mark *char quotation-mark`. -/
inductive String : Bytes → Prop
  | mk {chars : List Bytes} (h : ∀ char ∈ chars, Char char) :
      String (0x22 :: (chars.flatten ++ [0x22]))

/-- What can be derived. -/
inductive Kind where
  | value
  | object
  | array
  /-- one or more of them, with commas between -/
  | members
  | elements

/-- The derivations of the grammar. -/
inductive Derives : Kind → Bytes → Prop
  | literal {text : Bytes} (h : text ∈ [ascii "false", ascii "null", ascii "true"]) :
      Derives .value text
  | number {text : Bytes} (h : Number text) : Derives .value text
  | string {text : Bytes} (h : String text) : Derives .value text
  | ofObject {text : Bytes} (h : Derives .object text) : Derives .value text
  | ofArray {text : Bytes} (h : Derives .array text) : Derives .value text
  | emptyObject {space : Bytes} (hspace : Whitespace space) :
      Derives .object (0x7B :: (space ++ [0x7D]))
  | object {before text after : Bytes} (hbefore : Whitespace before)
      (h : Derives .members text) (hafter : Whitespace after) :
      Derives .object (0x7B :: (before ++ text ++ after ++ [0x7D]))
  | emptyArray {space : Bytes} (hspace : Whitespace space) :
      Derives .array (0x5B :: (space ++ [0x5D]))
  | array {before text after : Bytes} (hbefore : Whitespace before)
      (h : Derives .elements text) (hafter : Whitespace after) :
      Derives .array (0x5B :: (before ++ text ++ after ++ [0x5D]))
  | member {name before after value : Bytes} (hname : String name)
      (hbefore : Whitespace before) (hafter : Whitespace after) (h : Derives .value value) :
      Derives .members (name ++ before ++ 0x3A :: (after ++ value))
  | members {first before after rest : Bytes} (hfirst : Derives .members first)
      (hbefore : Whitespace before) (hafter : Whitespace after) (hrest : Derives .members rest) :
      Derives .members (first ++ before ++ 0x2C :: (after ++ rest))
  | element {text : Bytes} (h : Derives .value text) : Derives .elements text
  | elements {first before after rest : Bytes} (hfirst : Derives .elements first)
      (hbefore : Whitespace before) (hafter : Whitespace after) (hrest : Derives .elements rest) :
      Derives .elements (first ++ before ++ 0x2C :: (after ++ rest))

/-- An object, without the whitespace around it. -/
def Object (text : Bytes) : Prop := Derives .object text

/-! ## Where an object ends -/

/-- Where the reader is: between tokens, in a string, or after a backslash in
one; with the number of open brackets. -/
inductive Place where
  | token (depth : Nat)
  | string (depth : Nat)
  | escape (depth : Nat)

def next : Place → UInt8 → Place
  | .token depth, b =>
      if b = 0x22 then .string depth
      else if b = 0x7B ∨ b = 0x5B then .token (depth + 1)
      else if b = 0x7D ∨ b = 0x5D then .token (depth - 1)
      else .token depth
  | .string depth, b =>
      if b = 0x22 then .token depth else if b = 0x5C then .escape depth else .string depth
  | .escape depth, _ => .string depth

def done : Place → Bool
  | .token 0 => true
  | _ => false

/-- The reader of nested brackets. -/
def brackets : Reader UInt8 Place := ⟨next, done⟩

/-- A byte that neither opens nor closes anything outside a string. -/
def isPlain (b : UInt8) : Bool :=
  b ≠ 0x22 && b ≠ 0x7B && b ≠ 0x5B && b ≠ 0x7D && b ≠ 0x5D

theorem next_plain {b : UInt8} (h : isPlain b = true) (depth : Nat) :
    next (.token depth) b = .token depth := by
  simp only [isPlain, Bool.and_eq_true, decide_eq_true_eq] at h
  simp [next, h]

/-- A class of bytes without quotes and brackets is plain. -/
theorem isPlain_of_class {bytes : UInt8 → Bool} {b : UInt8} (h : bytes b = true)
    (hnone : [0x22, 0x7B, 0x5B, 0x7D, 0x5D].all (fun c => !bytes c) = true) :
    isPlain b = true := by
  have hne : ∀ c ∈ [0x22, 0x7B, 0x5B, 0x7D, 0x5D], b ≠ c := by
    rintro c hc rfl
    have hnot := List.all_eq_true.mp hnone b hc
    rw [h] at hnot
    cases hnot
  simp only [List.mem_cons, List.not_mem_nil, or_false, forall_eq_or_imp, forall_eq] at hne
  simp [isPlain, hne]

theorem isPlain_of_isSpace {b : UInt8} (h : isSpace b = true) : isPlain b = true :=
  isPlain_of_class h (by decide)

theorem isPlain_of_isDigit {b : UInt8} (h : isDigit b = true) : isPlain b = true :=
  isPlain_of_class h (by decide)

theorem through_plain {text : Bytes} (h : ∀ b ∈ text, isPlain b = true) (depth : Nat) :
    brackets.Through (.token (depth + 1)) text (.token (depth + 1)) :=
  Reader.through_of_stays rfl fun b hb => next_plain (h b hb) _

theorem through_space {text : Bytes} (h : Whitespace text) (depth : Nat) :
    brackets.Through (.token (depth + 1)) text (.token (depth + 1)) :=
  through_plain (fun b hb => isPlain_of_isSpace (h b hb)) depth

theorem isPlain_of_mem_number {text : Bytes} (h : Number text) : ∀ b ∈ text, isPlain b = true := by
  cases h with
  | mk hminus hint hzero hfrac hexp =>
      have hdigits : ∀ {digits : Bytes}, Digits digits → ∀ b ∈ digits, isPlain b = true :=
        fun h b hb => isPlain_of_isDigit (h.2 b hb)
      intro b hb
      simp only [List.mem_append] at hb
      rcases hb with ((hb | hb) | hb) | hb
      · rcases hminus with rfl | rfl
        · cases hb
        · rw [List.mem_singleton.mp hb]
          decide
      · exact hdigits hint b hb
      · rcases hfrac with rfl | ⟨digits, hd, rfl⟩
        · cases hb
        · rcases List.mem_cons.mp hb with rfl | hb
          · decide
          · exact hdigits hd b hb
      · rcases hexp with rfl | ⟨e, sign, digits, he, hsign, hd, rfl⟩
        · cases hb
        · rcases List.mem_cons.mp hb with rfl | hb
          · rcases he with rfl | rfl <;> decide
          · rcases List.mem_append.mp hb with hb | hb
            · rcases hsign with rfl | rfl | rfl
              · cases hb
              · rw [List.mem_singleton.mp hb]
                decide
              · rw [List.mem_singleton.mp hb]
                decide
            · exact hdigits hd b hb

/-- A character of a string does not end the string. -/
theorem through_char {text : Bytes} (h : Char text) (depth : Nat) :
    brackets.Through (.string depth) text (.string depth) := by
  cases h with
  | @unescaped b hcontrol hquote hescape =>
      refine ⟨rfl, ?_⟩
      show next (.string depth) b = .string depth
      simp [next, hquote, hescape]
  | escaped hb => exact ⟨rfl, rfl, rfl⟩
  | @unicode digits hlen hdigits =>
      refine ⟨rfl, rfl, ?_⟩
      refine Reader.through_of_stays rfl fun b hb => ?_
      have hne : ∀ c, isHexDigit c = false → b ≠ c := by
        rintro c hc rfl
        rw [hdigits b hb] at hc
        cases hc
      show next (.string depth) b = .string depth
      simp [next, hne 0x22 (by decide), hne 0x5C (by decide)]

theorem through_string {text : Bytes} (h : String text) (depth : Nat) :
    brackets.Through (.token (depth + 1)) text (.token (depth + 1)) := by
  cases h with
  | mk hchars =>
      have hbody := Reader.through_flatten fun char hmem =>
        through_char (hchars char hmem) (depth + 1)
      exact ⟨rfl, hbody.append ⟨rfl, rfl⟩⟩

/-- What is derived leaves the reader at the depth where it found it. An
object and an array get their own depth inside their brackets. -/
theorem Derives.through {kind : Kind} {text : Bytes} (h : Derives kind text) (depth : Nat) :
    brackets.Through (.token (depth + 1)) text (.token (depth + 1)) := by
  induction h generalizing depth with
  | literal h =>
      refine through_plain (fun b hb => ?_) depth
      have hall : [ascii "false", ascii "null", ascii "true"].all (·.all isPlain) = true := by decide
      exact List.all_eq_true.mp (List.all_eq_true.mp hall _ h) b hb
  | number h => exact through_plain (isPlain_of_mem_number h) depth
  | string h => exact through_string h depth
  | ofObject h ih => exact ih depth
  | ofArray h ih => exact ih depth
  | emptyObject hspace => exact ⟨rfl, (through_space hspace (depth + 1)).append ⟨rfl, rfl⟩⟩
  | object hbefore h hafter ih =>
      exact ⟨rfl, (((through_space hbefore _).append (ih _)).append (through_space hafter _)).append
        ⟨rfl, rfl⟩⟩
  | emptyArray hspace => exact ⟨rfl, (through_space hspace (depth + 1)).append ⟨rfl, rfl⟩⟩
  | array hbefore h hafter ih =>
      exact ⟨rfl, (((through_space hbefore _).append (ih _)).append (through_space hafter _)).append
        ⟨rfl, rfl⟩⟩
  | member hname hbefore hafter h ih =>
      exact ((through_string hname _).append (through_space hbefore _)).append
        ⟨rfl, (through_space hafter _).append (ih _)⟩
  | members hfirst hbefore hafter hrest ihfirst ihrest =>
      exact ((ihfirst _).append (through_space hbefore _)).append
        ⟨rfl, (through_space hafter _).append (ihrest _)⟩
  | element h ih => exact ih depth
  | elements hfirst hbefore hafter hrest ihfirst ihrest =>
      exact ((ihfirst _).append (through_space hbefore _)).append
        ⟨rfl, (through_space hafter _).append (ihrest _)⟩

/-- After its opening brace, an object ends where the reader is back at
depth zero. -/
theorem object_ends {text : Bytes} (h : Object text) :
    ∃ rest, text = 0x7B :: rest ∧ brackets.Ends (.token 1) rest := by
  cases h with
  | emptyObject hspace =>
      exact ⟨_, rfl, (through_space hspace 0).ends ⟨rfl, rfl⟩⟩
  | object hbefore h hafter =>
      exact ⟨_, rfl, (((through_space hbefore 0).append (h.through 0)).append
        (through_space hafter 0)).ends ⟨rfl, rfl⟩⟩

/-- An object is the same in front of whatever follows it. -/
theorem object_append_inj {text text' rest rest' : Bytes} (h : Object text) (h' : Object text')
    (heq : text ++ rest = text' ++ rest') : text = text' ∧ rest = rest' := by
  obtain ⟨body, rfl, hends⟩ := object_ends h
  obtain ⟨body', rfl, hends'⟩ := object_ends h'
  obtain ⟨rfl, hrest⟩ := hends.append_inj hends' (List.cons.inj heq).2
  exact ⟨rfl, hrest⟩

end Kernmini.Wire.JsonText
