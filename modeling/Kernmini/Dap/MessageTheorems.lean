/-
Kernmini.Dap.MessageTheorems — one frame, written and read back.

`encode_message` writes the length in decimal and in ASCII. The header line
is read back as the text it was written from, and its digits parse to the
length. So `read_message` takes exactly the bytes of the frame
(`readMessage_encodeMessage`), whatever follows.
-/
import Kernmini.Dap.Message
import Mathlib.Tactic

namespace Kernmini.Dap

open Kernmini.Wire Kernmini.Engine

/-! ## Text -/

theorem intoBytes_append (s t : String) : intoBytes (s ++ t) = intoBytes s ++ intoBytes t := by
  simp [intoBytes]

theorem fromUtf8_intoBytes (s : String) : fromUtf8 (intoBytes s) = some s := by
  have hbytes : (intoBytes s).toByteArray = s.toByteArray := by
    have h := String.toByteArray_ofList (l := s.toList)
    rw [String.ofList_toList] at h
    exact h.symm
  rw [fromUtf8, String.fromUTF8?, hbytes, dif_pos s.isValidUTF8]
  rfl

/-- An ASCII character is one byte, its own number. -/
theorem utf8EncodeChar_ascii {c : Char} (hc : c.toNat < 0x80) :
    String.utf8EncodeChar c = [UInt8.ofNat c.toNat] := by
  have hsize : c.utf8Size = 1 := by
    rw [Char.utf8Size_eq_one_iff]
    show c.val.toNat ≤ 127
    have hval : c.val.toNat = c.toNat := rfl
    omega
  exact String.utf8EncodeChar_eq_singleton hsize

/-- Among ASCII characters only the line feed has the byte of a line feed. -/
theorem lf_not_mem {cs : List Char} (hascii : ∀ c ∈ cs, c.toNat < 0x80) (hlf : '\n' ∉ cs) :
    (0x0A : UInt8) ∉ cs.flatMap String.utf8EncodeChar := by
  intro hmem
  obtain ⟨c, hc, hbyte⟩ := List.mem_flatMap.mp hmem
  rw [utf8EncodeChar_ascii (hascii c hc), List.mem_singleton] at hbyte
  have hnat : c.toNat = 10 := by
    have h := congrArg UInt8.toNat hbyte
    have hlt := hascii c hc
    simp only [UInt8.toNat_ofNat'] at h
    have hten : (10 : UInt8).toNat = 10 := rfl
    omega
  have hchar : c = '\n' := Char.toNat_inj.mp hnat
  exact hlf (hchar ▸ hc)

/-! ## The length in the header -/

theorem isDigit_iff {c : Char} : c.isDigit = true ↔ 48 ≤ c.toNat ∧ c.toNat ≤ 57 := by
  simp only [Char.isDigit, Bool.and_eq_true, decide_eq_true_eq]
  exact Iff.rfl

/-- Digits parse to their value, if it fits. -/
theorem parseDigits_eq (cs : List Char) (value : Nat) (hdigits : ∀ c ∈ cs, c.isDigit = true)
    (hfits : Nat.ofDigitChars 10 cs value < 2 ^ usizeBits) :
    parseDigits value cs = .ok (Nat.ofDigitChars 10 cs value) := by
  induction cs generalizing value with
  | nil => rfl
  | cons c cs ih =>
      rw [Nat.ofDigitChars_cons] at hfits ⊢
      have hle : 10 * value + (c.toNat - '0'.toNat) < 2 ^ usizeBits :=
        Nat.lt_of_le_of_lt (le_ofDigitChars cs _) hfits
      rw [parseDigits, if_pos (hdigits c (List.mem_cons_self ..))]
      simp only [hle, if_true]
      exact ih _ (fun c' hc' => hdigits c' (List.mem_cons_of_mem _ hc')) hfits
where
  /-- More digits make no smaller a number. -/
  le_ofDigitChars (cs : List Char) (value : Nat) : value ≤ Nat.ofDigitChars 10 cs value := by
    induction cs generalizing value with
    | nil => exact Nat.le_refl value
    | cons c cs ih =>
        rw [Nat.ofDigitChars_cons]
        have h := ih (10 * value + (c.toNat - '0'.toNat))
        omega

theorem parseUsize_repr (n : Nat) (hn : n < 2 ^ usizeBits) :
    parseUsize (toString n).toList = .ok n := by
  have hlist : (toString n).toList = Nat.toDigits 10 n := Nat.toList_repr
  have hdigits : ∀ c ∈ Nat.toDigits 10 n, c.isDigit = true := fun c hc =>
    Nat.isDigit_of_mem_toDigits (by omega) (by omega) hc
  have hparse : parseDigits 0 (Nat.toDigits 10 n) = .ok n := by
    have h := parseDigits_eq (Nat.toDigits 10 n) 0 hdigits
    rw [Nat.ofDigitChars_ten_toDigits] at h
    exact h hn
  rw [hlist]
  -- a digit is no sign
  cases hcs : Nat.toDigits 10 n with
  | nil => exact absurd hcs Nat.toDigits_ne_nil
  | cons c cs =>
      have hc : c ≠ '+' := by
        intro h
        have hdigit := hdigits c (hcs ▸ List.mem_cons_self ..)
        rw [h] at hdigit
        exact absurd hdigit (by decide)
      rw [hcs] at hparse
      unfold parseUsize
      split
      · contradiction
      · rename_i heq
        cases heq
        exact absurd rfl hc
      · rename_i heq
        cases heq
        exact absurd rfl hc
      · rename_i heq
        exact hparse

/-- `trim` takes off whitespace at both ends and no more. -/
theorem trim_append {before text after : List Char} (hbefore : ∀ c ∈ before, isWhitespace c = true)
    (htext : ∀ c ∈ text, isWhitespace c = false) (hne : text ≠ [])
    (hafter : ∀ c ∈ after, isWhitespace c = true) : trim (before ++ (text ++ after)) = text := by
  -- what is dropped in front of a text that begins with no whitespace
  have hdrop : ∀ (space text rest : List Char), (∀ c ∈ space, isWhitespace c = true) →
      (∀ c ∈ text, isWhitespace c = false) → text ≠ [] →
      (space ++ (text ++ rest)).dropWhile isWhitespace = text ++ rest := by
    intro space text rest hspace htext hne
    rw [List.dropWhile_append_of_pos hspace]
    cases text with
    | nil => exact absurd rfl hne
    | cons c cs => simp [htext c (List.mem_cons_self ..)]
  rw [trim, hdrop before text after hbefore htext hne, List.reverse_append]
  have hback := hdrop after.reverse text.reverse [] (by simpa using hafter) (by simpa using htext)
    (by simpa using hne)
  rw [List.append_nil] at hback
  rw [hback, List.reverse_reverse]

theorem isWhitespace_of_isDigit {c : Char} (hc : c.isDigit = true) : isWhitespace c = false := by
  obtain ⟨hlow, hhigh⟩ := isDigit_iff.mp hc
  simp only [isWhitespace, Bool.or_eq_false_iff, Bool.and_eq_false_iff, decide_eq_false_iff_not]
  omega

/-! ## Reading on -/

section

variable {host : Host}

/-- What `read_message` does with the bytes that follow a step. -/
def ReadStep.resume (host : Host) (step : ReadStep) (rest : Bytes) : ReadStep × Bytes :=
  match step with
  | .reading pc => readMessage host pc rest
  | done => (done, rest)

@[simp] theorem resume_reading (pc : ReadPc) (rest : Bytes) :
    (ReadStep.reading pc).resume host rest = readMessage host pc rest := rfl

@[simp] theorem resume_message (v : Value) (rest : Bytes) :
    (ReadStep.message v).resume host rest = (.message v, rest) := rfl

theorem readMessage_cons (pc : ReadPc) (b : UInt8) (rest : Bytes) :
    readMessage host pc (b :: rest) = (feed host pc b).resume host rest := by
  rw [readMessage]
  cases feed host pc b with
  | reading | message | failed | panicked | aborted => rfl

/-- Bytes that arrive in two pieces are read as one. -/
theorem readMessage_append {pc pc' : ReadPc} {bytes : Bytes} (rest : Bytes)
    (h : readMessage host pc bytes = (.reading pc', [])) :
    readMessage host pc (bytes ++ rest) = readMessage host pc' rest := by
  induction bytes generalizing pc with
  | nil =>
      cases h
      rfl
  | cons b bytes ih =>
      rw [List.cons_append, readMessage_cons]
      rw [readMessage_cons] at h
      cases hfeed : feed host pc b with
      | reading pc₁ =>
          rw [hfeed] at h
          exact ih h
      | message | failed | panicked | aborted => simp [hfeed, ReadStep.resume] at h

/-- A line is read whole. -/
theorem readMessage_line {body : Bytes} (hbody : (0x0A : UInt8) ∉ body) (got : Bytes)
    (contentLength : Option Nat) (rest : Bytes) :
    readMessage host (.line got contentLength) (body ++ 0x0A :: rest) =
      (headerRead host (got ++ body ++ [0x0A]) contentLength).resume host rest := by
  induction body generalizing got with
  | nil => simp [readMessage_cons, feed]
  | cons b body ih =>
      have hb : b ≠ 0x0A := fun h => hbody (h ▸ List.mem_cons_self ..)
      rw [List.cons_append, readMessage_cons, feed, if_neg hb, resume_reading,
        ih (fun h => hbody (List.mem_cons_of_mem _ h)) (got ++ [b])]
      simp

/-- The payload is read whole. -/
theorem readMessage_payload {payload : Bytes} (hne : payload ≠ []) (got rest : Bytes) :
    readMessage host (.payload got (got ++ payload).length) (payload ++ rest) =
      (payloadRead host (got ++ payload)).resume host rest := by
  induction payload generalizing got with
  | nil => exact absurd rfl hne
  | cons b payload ih =>
      rw [List.cons_append, readMessage_cons, feed]
      cases payload with
      | nil => simp
      | cons c payload =>
          have hlength : (got ++ [b]).length ≠ (got ++ b :: c :: payload).length := by simp
          have hgot : got ++ b :: c :: payload = got ++ [b] ++ c :: payload := by simp
          rw [if_neg hlength, resume_reading, hgot]
          exact ih (List.cons_ne_nil c payload) (got ++ [b])

/-! ## One frame -/

/-- The line `encode_message` writes first, up to its line feed. -/
def lengthLine (length : Nat) : String := "Content-Length: " ++ toString length ++ "\r"

theorem lengthLine_chars (length : Nat) :
    (lengthLine length).toList =
      "Content-Length:".toList ++ (' ' :: Nat.toDigits 10 length ++ ['\r']) := by
  have hdigits : (toString length).toList = Nat.toDigits 10 length := Nat.toList_repr
  have hname : "Content-Length: ".toList = "Content-Length:".toList ++ [' '] := rfl
  calc (lengthLine length).toList
      = ("Content-Length: " ++ toString length).toList ++ "\r".toList := String.toList_append
    _ = "Content-Length: ".toList ++ (toString length).toList ++ "\r".toList :=
        congrArg (· ++ _) String.toList_append
    _ = "Content-Length:".toList ++ (' ' :: Nat.toDigits 10 length ++ ['\r']) := by
        rw [hname, hdigits, List.append_assoc, List.append_assoc]
        rfl

theorem intoBytes_header (length : Nat) :
    intoBytes ("Content-Length: " ++ toString length ++ "\r\n\r\n") =
      intoBytes (lengthLine length) ++ [0x0A, 0x0D, 0x0A] := by
  have hend : intoBytes "\r\n\r\n" = intoBytes "\r" ++ [0x0A, 0x0D, 0x0A] := rfl
  calc intoBytes ("Content-Length: " ++ toString length ++ "\r\n\r\n")
      = intoBytes ("Content-Length: " ++ toString length) ++ intoBytes "\r\n\r\n" :=
        intoBytes_append _ _
    _ = intoBytes ("Content-Length: " ++ toString length) ++ intoBytes "\r" ++ [0x0A, 0x0D, 0x0A] := by
        rw [hend, List.append_assoc]
    _ = intoBytes (lengthLine length) ++ [0x0A, 0x0D, 0x0A] :=
        congrArg (· ++ _) (intoBytes_append _ _).symm

theorem lf_not_mem_lengthLine (length : Nat) : (0x0A : UInt8) ∉ intoBytes (lengthLine length) := by
  have hchars : ∀ c ∈ (lengthLine length).toList, c.toNat < 0x80 ∧ c ≠ '\n' := by
    intro c hc
    rw [lengthLine_chars, List.mem_append] at hc
    rcases hc with hname | hvalue
    · have hall : "Content-Length:".toList.all
          (fun c => decide (c.toNat < 0x80 ∧ c ≠ '\n')) = true := by decide
      exact of_decide_eq_true (List.all_eq_true.mp hall c hname)
    · rcases List.mem_append.mp hvalue with hvalue | hcr
      · rcases List.mem_cons.mp hvalue with heq | hdigit
        · rw [heq]
          decide
        · have h := isDigit_iff.mp (Nat.isDigit_of_mem_toDigits (by omega) (by omega) hdigit)
          refine ⟨by omega, fun heq => ?_⟩
          rw [heq] at h
          exact absurd h (by decide)
      · rw [List.mem_singleton.mp hcr]
        decide
  exact lf_not_mem (fun c hc => (hchars c hc).1) (fun h => (hchars _ h).2 rfl)

/-- The first line gives the length. -/
theorem headerRead_lengthLine {length : Nat} (hlength : length < 2 ^ usizeBits) :
    headerRead host (intoBytes (lengthLine length ++ "\n")) none =
      .reading (.line [] (some length)) := by
  have hchars : (lengthLine length ++ "\n").toList =
      "Content-Length:".toList ++ ([' '] ++ (Nat.toDigits 10 length ++ ['\r', '\n'])) := by
    rw [String.toList_append, lengthLine_chars]
    simp
  have hne : lengthLine length ++ "\n" ≠ "\r\n" := by
    intro h
    have hlist := congrArg String.toList h
    rw [hchars] at hlist
    have hhead : some 'C' = some '\r' := congrArg List.head? hlist
    exact absurd hhead (by decide)
  have hvalue : (lengthLine length ++ "\n").toList.dropPrefix? "Content-Length:".toList =
      some ([' '] ++ (Nat.toDigits 10 length ++ ['\r', '\n'])) := by
    rw [hchars, List.dropPrefix?_eq_some_iff]
    exact ⟨_, rfl, beq_self_eq_true _⟩
  have htrim : trim ([' '] ++ (Nat.toDigits 10 length ++ ['\r', '\n'])) =
      (toString length).toList := by
    rw [trim_append (List.all_eq_true.mp rfl) _ Nat.toDigits_ne_nil (List.all_eq_true.mp rfl)]
    · exact Nat.toList_repr.symm
    · intro c hc
      exact isWhitespace_of_isDigit (Nat.isDigit_of_mem_toDigits (by omega) (by omega) hc)
  rw [headerRead, fromUtf8_intoBytes]
  simp only [hne, if_false, hvalue, htrim, parseUsize_repr length hlength]

/-- The empty line ends the header. -/
theorem headerRead_empty (length : Nat) :
    headerRead host (intoBytes "\r\n") (some length) = readPayload host length := by
  rw [headerRead, fromUtf8_intoBytes]
  simp

/-- `vec![0; length]` fails: it panics, or does not get the memory. -/
def Host.Refuses (host : Host) (length : Nat) : Prop :=
  2 ^ (usizeBits - 1) ≤ length ∨ length ≠ 0 ∧ host.allocates length = false

instance (host : Host) (length : Nat) : Decidable (host.Refuses length) :=
  inferInstanceAs (Decidable (_ ∨ _))

theorem readPayload_of_accepts {length : Nat} (h : ¬ host.Refuses length) :
    readPayload host length =
      if length = 0 then payloadRead host [] else .reading (.payload [] length) := by
  obtain ⟨hlarge, hmemory⟩ := not_or.mp h
  rw [readPayload, if_neg hlarge]
  split
  · rfl
  · next hne => simp_all

theorem readPayload_of_refuses {length : Nat} (h : host.Refuses length) :
    readPayload host length = .panicked ∨ readPayload host length = .aborted := by
  unfold readPayload
  split
  · exact .inl rfl
  · next hlarge =>
      obtain ⟨hne, hmemory⟩ := h.resolve_left hlarge
      simp [hne, hmemory]

/-- `to_vec` returns a `Vec`, which holds at most `isize::MAX` bytes, and the
reader gets the memory for as many. -/
def WritesVec (host : Host) (v : Value) : Prop :=
  ∀ payload, host.toVec v = .ok payload → ¬ host.Refuses payload.length

/-- A frame is read back as its message, and what follows it is left. -/
theorem readMessage_encodeMessage {v : Value} {frame : Bytes} (hserde : host.RoundTrips v)
    (hvec : WritesVec host v) (hframe : encodeMessage host.toSerdeJson v = .ok frame) (rest : Bytes) :
    readMessage host .start (frame ++ rest) = (.message v, rest) := by
  obtain ⟨payload, hwrite, hread⟩ := hserde
  have hlength : payload.length < 2 ^ (usizeBits - 1) :=
    Nat.not_le.mp fun hlarge => hvec payload hwrite (.inl hlarge)
  have hframe : frame = intoBytes (lengthLine payload.length) ++ 0x0A :: ([0x0D] ++ 0x0A :: payload) := by
    simp only [encodeMessage, hwrite, Except.mapError, bind, Except.bind, pure, Except.pure,
      Except.ok.injEq] at hframe
    rw [← hframe, intoBytes_header]
    simp
  have hpayload : payloadRead host payload = .message v := by rw [payloadRead, hread]
  -- the two lines of the header
  have hfirst : headerRead host ([] ++ intoBytes (lengthLine payload.length) ++ [0x0A]) none =
      .reading (.line [] (some payload.length)) := by
    rw [← headerRead_lengthLine (Nat.lt_trans hlength (by decide)), intoBytes_append]
    rfl
  have hsecond : headerRead host ([] ++ [0x0D] ++ [0x0A]) (some payload.length) =
      readPayload host payload.length := headerRead_empty payload.length
  have hlines : readMessage host .start (frame ++ rest) =
      (readPayload host payload.length).resume host (payload ++ rest) := by
    have hbytes : frame ++ rest = intoBytes (lengthLine payload.length) ++
        0x0A :: ([0x0D] ++ 0x0A :: (payload ++ rest)) := by simp [hframe]
    rw [hbytes, ReadPc.start, readMessage_line (lf_not_mem_lengthLine payload.length), hfirst,
      resume_reading, readMessage_line (by decide), hsecond]
  rw [hlines, readPayload_of_accepts (hvec payload hwrite)]
  by_cases hempty : payload = []
  · rw [hempty] at hpayload ⊢
    simp [hpayload]
  · have hpos : payload.length ≠ 0 := fun h => hempty (List.length_eq_zero_iff.mp h)
    have hexact : readMessage host (.payload [] payload.length) (payload ++ rest) =
        (payloadRead host payload).resume host rest := readMessage_payload hempty [] rest
    rw [if_neg hpos, resume_reading, hexact, hpayload, resume_message]

end

end Kernmini.Dap
