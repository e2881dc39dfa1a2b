/-
Kernmini.Dap.ReaderFailures — the reader task on any stream.

A header block announces the length of a payload, and `vec![0; length]` is
allocated before a byte of it is read. `Oversized` says of a stream, by its
lines and payloads and without the reader, that after some whole messages it
comes to a header block that announces more than a vector can hold or than
there is memory for. On every other stream, in whatever pieces it arrives, the
reader returns, and the `fail_pending` of its task completes what is pending;
on these it panics, or the process is aborted.
-/
import Kernmini.Dap.ReaderTheorems
import Kernmini.Dap.ClientTheorems

namespace Kernmini.Dap

open Kernmini.Wire Kernmini.Engine Kernmini.Lib

variable {host : Host}

/-! ## Streams that announce too much -/

/-- A line with its line feed. -/
def IsLine (line : Bytes) : Prop := ∃ body, (0x0A : UInt8) ∉ body ∧ line = body ++ [0x0A]

/-- What follows a header line, by its text. -/
inductive HeaderLine (line : Bytes) : Option Nat → Option Nat → Prop
  | length {contentLength : Option Nat} {header : String} {value : List Char} {length : Nat}
      (hutf8 : fromUtf8 line = some header) (hend : header ≠ "\r\n")
      (hname : header.toList.dropPrefix? "Content-Length:".toList = some value)
      (hvalue : parseUsize (trim value) = .ok length) : HeaderLine line contentLength (some length)
  | other {contentLength : Option Nat} {header : String}
      (hutf8 : fromUtf8 line = some header) (hend : header ≠ "\r\n")
      (hname : header.toList.dropPrefix? "Content-Length:".toList = none) :
      HeaderLine line contentLength contentLength

/-- The stream comes to a header block that announces more than can be allocated;
`contentLength` is the last length of the block it begins in. -/
inductive Oversized (host : Host) : Option Nat → Bytes → Prop
  | announced {length : Nat} {line rest : Bytes} (hline : IsLine line)
      (hend : fromUtf8 line = some "\r\n") (hlength : host.Refuses length) :
      Oversized host (some length) (line ++ rest)
  | header {contentLength contentLength' : Option Nat} {line rest : Bytes} (hline : IsLine line)
      (hheader : HeaderLine line contentLength contentLength')
      (hrest : Oversized host contentLength' rest) : Oversized host contentLength (line ++ rest)
  | message {length : Nat} {line payload rest : Bytes} {v : Value} (hline : IsLine line)
      (hend : fromUtf8 line = some "\r\n") (hlength : ¬ host.Refuses length)
      (hpayload : payload.length = length) (hjson : host.fromSlice payload = .ok v)
      (hrest : Oversized host none rest) :
      Oversized host (some length) (line ++ (payload ++ rest))

/-! ## Where the reader dies -/

/-- The reader comes to a panic or an abort on these bytes, from this place of a
read on. -/
def Dies (host : Host) : ReadPc → Bytes → Prop
  | _, [] => False
  | read, b :: rest =>
      match feed host read b with
      | .reading read => Dies host read rest
      | .message _ => Dies host .start rest
      | .failed _ => False
      | .panicked | .aborted => True

/-- The same after a step of the read. -/
def ReadStep.Dies (host : Host) (step : ReadStep) (rest : Bytes) : Prop :=
  match step with
  | .reading read => Dap.Dies host read rest
  | .message _ => Dap.Dies host .start rest
  | .failed _ => False
  | .panicked | .aborted => True

theorem dies_cons (read : ReadPc) (b : UInt8) (rest : Bytes) :
    Dies host read (b :: rest) ↔ (feed host read b).Dies host rest := by
  rw [Dies]
  cases feed host read b <;> rfl

/-- A line is read whole. -/
theorem dies_line {body : Bytes} (hbody : (0x0A : UInt8) ∉ body) (got : Bytes)
    (contentLength : Option Nat) (rest : Bytes) :
    Dies host (.line got contentLength) (body ++ 0x0A :: rest) ↔
      (headerRead host (got ++ body ++ [0x0A]) contentLength).Dies host rest := by
  induction body generalizing got with
  | nil => simp [dies_cons, feed]
  | cons b body ih =>
      have hb : b ≠ 0x0A := fun h => hbody (h ▸ List.mem_cons_self ..)
      have hrest := ih (fun h => hbody (List.mem_cons_of_mem _ h)) (got ++ [b])
      rw [List.cons_append, dies_cons, feed, if_neg hb]
      simpa [ReadStep.Dies] using hrest

/-- Without its line feed a line leads nowhere. -/
theorem not_dies_of_no_line {bytes : Bytes} (hbytes : (0x0A : UInt8) ∉ bytes) (got : Bytes)
    (contentLength : Option Nat) : ¬ Dies host (.line got contentLength) bytes := by
  induction bytes generalizing got with
  | nil => exact not_false
  | cons b bytes ih =>
      have hb : b ≠ 0x0A := fun h => hbytes (h ▸ List.mem_cons_self ..)
      rw [dies_cons, feed, if_neg hb]
      exact ih (fun h => hbytes (List.mem_cons_of_mem _ h)) (got ++ [b])

/-- The payload is read whole. -/
theorem dies_payload {payload : Bytes} (hne : payload ≠ []) (got rest : Bytes) :
    Dies host (.payload got (got ++ payload).length) (payload ++ rest) ↔
      (payloadRead host (got ++ payload)).Dies host rest := by
  induction payload generalizing got with
  | nil => exact absurd rfl hne
  | cons b payload ih =>
      rw [List.cons_append, dies_cons, feed]
      cases payload with
      | nil => simp
      | cons c payload =>
          have hlength : (got ++ [b]).length ≠ (got ++ b :: c :: payload).length := by simp
          have hgot : got ++ b :: c :: payload = got ++ [b] ++ c :: payload := by simp
          rw [if_neg hlength, hgot]
          exact ih (List.cons_ne_nil c payload) (got ++ [b])

/-- A payload that ends early leads nowhere. -/
theorem not_dies_of_short {bytes got : Bytes} {length : Nat}
    (hshort : got.length + bytes.length < length) : ¬ Dies host (.payload got length) bytes := by
  induction bytes generalizing got with
  | nil => exact not_false
  | cons b bytes ih =>
      have hlength : (got ++ [b]).length ≠ length := by
        simp at hshort ⊢
        omega
      rw [dies_cons, feed, if_neg hlength]
      refine ih ?_
      simp at hshort ⊢
      omega

theorem payloadRead_dies (payload rest : Bytes) :
    (payloadRead host payload).Dies host rest ↔
      ∃ v, host.fromSlice payload = .ok v ∧ Dies host .start rest := by
  unfold payloadRead
  cases hjson : host.fromSlice payload with
  | ok | error => simp [ReadStep.Dies]

/-- After the empty line of a block with a length. -/
theorem readPayload_dies (length : Nat) (bytes : Bytes) :
    (readPayload host length).Dies host bytes ↔
      host.Refuses length ∨ ¬ host.Refuses length ∧ ∃ payload rest v,
        bytes = payload ++ rest ∧ payload.length = length ∧ host.fromSlice payload = .ok v ∧
        Dies host .start rest := by
  by_cases hrefuses : host.Refuses length
  · rcases readPayload_of_refuses hrefuses with heq | heq <;> simp [ReadStep.Dies, heq, hrefuses]
  · rw [readPayload_of_accepts hrefuses]
    simp only [hrefuses, not_false_eq_true, false_or, true_and]
    split
    · next hzero =>
        subst hzero
        rw [payloadRead_dies]
        constructor
        · rintro ⟨v, hjson, hrest⟩
          exact ⟨[], bytes, v, rfl, rfl, hjson, hrest⟩
        · rintro ⟨payload, rest, v, rfl, hlength, hjson, hrest⟩
          have hnil := List.eq_nil_of_length_eq_zero hlength
          subst hnil
          exact ⟨v, hjson, hrest⟩
    · next hpos =>
        constructor
        · intro h
          have hlong : length ≤ bytes.length := by
            by_contra hshort
            exact not_dies_of_short (by simpa using hshort) h
          have htake : (bytes.take length).length = length := by simp [hlong]
          have hne : bytes.take length ≠ [] := by
            intro hnil
            rw [hnil] at htake
            exact hpos htake.symm
          have hwhole : Dies host (.payload [] ([] ++ bytes.take length).length)
              (bytes.take length ++ bytes.drop length) := by
            simpa [htake, List.take_append_drop, ReadStep.Dies] using h
          have hsplit := (dies_payload hne [] (bytes.drop length)).mp hwhole
          obtain ⟨v, hjson, hrest⟩ := (payloadRead_dies _ _).mp hsplit
          exact ⟨_, _, v, (List.take_append_drop length bytes).symm, htake, hjson, hrest⟩
        · rintro ⟨payload, rest, v, rfl, rfl, hjson, hrest⟩
          have hne : payload ≠ [] := fun hnil => hpos (by rw [hnil]; rfl)
          exact (dies_payload hne [] rest).mpr ((payloadRead_dies _ _).mpr ⟨v, hjson, hrest⟩)

/-- After a line of a header block. -/
theorem headerRead_dies (line : Bytes) (contentLength : Option Nat) (rest : Bytes) :
    (headerRead host line contentLength).Dies host rest ↔
      (fromUtf8 line = some "\r\n" ∧
        ∃ length, contentLength = some length ∧ (readPayload host length).Dies host rest) ∨
      ∃ contentLength', HeaderLine line contentLength contentLength' ∧
        Dies host (.line [] contentLength') rest := by
  constructor
  · intro h
    unfold headerRead at h
    split at h
    · exact h.elim
    · next header hutf8 =>
      split at h
      · next hend =>
          subst hend
          cases contentLength with
          | none => exact h.elim
          | some length => exact .inl ⟨hutf8, length, rfl, h⟩
      · next hend =>
          split at h
          · next value hname =>
              split at h
              · next length hvalue => exact .inr ⟨_, .length hutf8 hend hname hvalue, h⟩
              · exact h.elim
          · next hname => exact .inr ⟨_, .other hutf8 hend hname, h⟩
  · rintro (⟨hutf8, length, rfl, h⟩ | ⟨contentLength', hheader, h⟩)
    · simpa [headerRead, hutf8] using h
    · cases hheader with
      | length hutf8 hend hname hvalue =>
          unfold headerRead
          simp only [hutf8, if_neg hend, hname, hvalue]
          exact h
      | other hutf8 hend hname =>
          unfold headerRead
          simp only [hutf8, if_neg hend, hname]
          exact h

theorem dies_of_oversized {contentLength : Option Nat} {bytes : Bytes}
    (h : Oversized host contentLength bytes) : Dies host (.line [] contentLength) bytes := by
  induction h with
  | announced hline hend hlength =>
      obtain ⟨body, hbody, rfl⟩ := hline
      rw [List.append_assoc, List.singleton_append, dies_line hbody, headerRead_dies]
      exact .inl ⟨hend, _, rfl, (readPayload_dies _ _).mpr (.inl hlength)⟩
  | header hline hheader _ ih =>
      obtain ⟨body, hbody, rfl⟩ := hline
      rw [List.append_assoc, List.singleton_append, dies_line hbody, headerRead_dies]
      exact .inr ⟨_, hheader, ih⟩
  | message hline hend hlength hpayload hjson _ ih =>
      obtain ⟨body, hbody, rfl⟩ := hline
      rw [List.append_assoc, List.singleton_append, dies_line hbody, headerRead_dies]
      have hrest := (readPayload_dies _ _).mpr (.inr ⟨hlength, _, _, _, rfl, hpayload, hjson, ih⟩)
      exact .inl ⟨hend, _, rfl, hrest⟩

theorem oversized_of_dies (n : Nat) : ∀ {contentLength : Option Nat} {bytes : Bytes},
    bytes.length ≤ n → Dies host (.line [] contentLength) bytes →
      Oversized host contentLength bytes := by
  induction n with
  | zero =>
      intro contentLength bytes hlength h
      rw [List.eq_nil_of_length_eq_zero (Nat.le_zero.mp hlength)] at h
      exact h.elim
  | succ n ih =>
      intro contentLength bytes hlength h
      by_cases hlf : (0x0A : UInt8) ∈ bytes
      · obtain ⟨body, rest, rfl, hbody⟩ := List.eq_append_cons_of_mem hlf
        have hsplit : body ++ 0x0A :: rest = (body ++ [0x0A]) ++ rest := by simp
        have hline : IsLine (body ++ [0x0A]) := ⟨body, hbody, rfl⟩
        have hshort : rest.length ≤ n := by
          simp at hlength
          omega
        rw [dies_line hbody, headerRead_dies] at h
        rw [hsplit]
        rcases h with ⟨hend, length, rfl, h⟩ | ⟨contentLength', hheader, h⟩
        · rcases (readPayload_dies _ _).mp h with hlarge | ⟨hlt, payload, after, v, rfl, hpayload,
            hjson, hafter⟩
          · exact .announced hline hend hlarge
          · refine .message hline hend hlt hpayload hjson (ih ?_ hafter)
            simp at hshort
            omega
        · exact .header hline hheader (ih hshort h)
      · exact (not_dies_of_no_line hlf [] contentLength h).elim

theorem dies_iff_oversized {bytes : Bytes} :
    Dies host .start bytes ↔ Oversized host none bytes :=
  ⟨oversized_of_dies bytes.length (Nat.le_refl _), dies_of_oversized⟩

/-! ## The end of the stream -/

/-- A line that is being read has no line feed yet. -/
def ReadPc.LineOpen : ReadPc → Prop
  | .line got _ => (0x0A : UInt8) ∉ got
  | .payload _ _ => True

theorem fromUtf8_bytes {bytes : Bytes} {text : String} (h : fromUtf8 bytes = some text) :
    bytes.toByteArray = text.toByteArray := by
  unfold fromUtf8 String.fromUTF8? at h
  split at h
  · cases h
    rfl
  · cases h

/-- Without a line feed a line is not the empty one. -/
theorem not_end_of_open {got : Bytes} (h : (0x0A : UInt8) ∉ got) : fromUtf8 got ≠ some "\r\n" := by
  intro hend
  have hbytes : got.toByteArray = [0x0D, 0x0A].toByteArray := fromUtf8_bytes hend
  rw [List.toByteArray_inj.mp hbytes] at h
  exact h (by decide)

/-- A header line that is not the empty one leads to the next line or to an
error. -/
theorem headerRead_of_not_end {line : Bytes} (h : fromUtf8 line ≠ some "\r\n")
    (contentLength : Option Nat) :
    (∃ error, headerRead host line contentLength = .failed error) ∨
      ∃ contentLength', headerRead host line contentLength = .reading (.line [] contentLength') := by
  unfold headerRead
  split
  · exact .inl ⟨_, rfl⟩
  · next header hutf8 =>
    have hend : header ≠ "\r\n" := fun heq => h (heq ▸ hutf8)
    rw [if_neg hend]
    split
    · split
      · exact .inr ⟨_, rfl⟩
      · exact .inl ⟨_, rfl⟩
    · exact .inr ⟨_, rfl⟩

/-- The end of the stream ends a read, after one last header line at most. -/
theorem eof_cases {read : ReadPc} (h : read.LineOpen) :
    (∃ error, eof host read = .failed error) ∨
      ∃ got contentLength contentLength', read = .line got contentLength ∧ got ≠ [] ∧
        eof host read = .reading (.line [] contentLength') := by
  cases read with
  | payload got length => exact .inl ⟨_, rfl⟩
  | line got contentLength =>
      cases got with
      | nil => exact .inl ⟨_, rfl⟩
      | cons b got =>
          rcases @headerRead_of_not_end host _ (not_end_of_open h) contentLength with
            hfailed | ⟨contentLength', hreading⟩
          · exact .inl hfailed
          · exact .inr ⟨b :: got, contentLength, contentLength', rfl, List.cons_ne_nil b got, hreading⟩

theorem readPayload_lineOpen {length : Nat} {read : ReadPc}
    (h : readPayload host length = .reading read) : read.LineOpen := by
  by_cases hrefuses : host.Refuses length
  · rcases readPayload_of_refuses hrefuses with heq | heq <;> simp [heq] at h
  · rw [readPayload_of_accepts hrefuses] at h
    unfold payloadRead at h
    split at h
    · split at h <;> cases h
    · cases h
      trivial

theorem headerRead_lineOpen {line : Bytes} {contentLength : Option Nat} {read : ReadPc}
    (h : headerRead host line contentLength = .reading read) : read.LineOpen := by
  by_cases hend : fromUtf8 line = some "\r\n"
  · cases contentLength with
    | none => simp [headerRead, hend] at h
    | some length => exact readPayload_lineOpen (by simpa [headerRead, hend] using h)
  · rcases @headerRead_of_not_end host _ hend contentLength with
      ⟨error, hfailed⟩ | ⟨contentLength', hreading⟩
    · rw [hfailed] at h
      cases h
    · rw [hreading] at h
      cases h
      exact List.not_mem_nil

theorem feed_lineOpen {read read' : ReadPc} {b : UInt8} (hread : read.LineOpen)
    (h : feed host read b = .reading read') : read'.LineOpen := by
  cases read with
  | line got contentLength =>
      simp only [feed] at h
      split at h
      · exact headerRead_lineOpen h
      · next hb =>
          cases h
          intro hmem
          rcases List.mem_append.mp hmem with hgot | hnew
          · exact hread hgot
          · exact hb (List.mem_singleton.mp hnew).symm
  | payload got length =>
      simp only [feed] at h
      split at h
      · unfold payloadRead at h
        split at h <;> cases h
      · cases h
        trivial

/-! ## The reader task -/

namespace Reader

/-- Where the reader may stand, if what it has not read does not bring it to its
death. -/
def Safe (host : Host) (unread : Bytes) : ReaderPc → Prop
  | .head => ¬ Dies host .start unread
  | .select read => ¬ Dies host read unread ∧ read.LineOpen
  | .returned _ => True
  | .panicked | .aborted => False

structure Unharmed (host : Host) (s : Reader) (future : Bytes) : Prop where
  /-- the watch channel changes only when it gets a reason -/
  reason : 0 < s.close.version → s.close.value ≠ none
  place : Safe host (s.input ++ future) s.pc

theorem advance_input (s : Reader) (step : ReadStep) : (s.advance step).input = s.input := by
  cases step with
  | message v =>
      simp only [advance, dispatch]
      split <;> rfl
  | _ => rfl

theorem dispatch_pc (s : Reader) (v : Value) : (s.dispatch v).pc = .head := by
  simp only [dispatch]
  split <;> rfl

/-- A read that the reader survives leaves it safe. -/
theorem safe_advance {s : Reader} {step : ReadStep} {unread : Bytes}
    (hsafe : ¬ step.Dies host unread) (hopen : ∀ read, step = .reading read → read.LineOpen) :
    Safe host unread (s.advance step).pc := by
  cases step with
  | reading read => exact ⟨hsafe, hopen read rfl⟩
  | message v =>
      simp only [advance, dispatch_pc]
      exact hsafe
  | failed error => trivial
  | panicked | aborted => exact hsafe trivial

theorem unharmed_step {s t : Reader} {l : ReaderLabel} {future : Bytes}
    (hs : s.Unharmed host (l.chunk ++ future)) (hended : s.ended = true → l.chunk ++ future = [])
    (h : s.step host l = some t) : t.Unharmed host future := by
  obtain ⟨hreason, hplace⟩ := hs
  cases step_rule h with
  | arrive chunk hopen =>
      refine ⟨hreason, ?_⟩
      rw [List.append_assoc]
      exact hplace
  | eof hopen => exact ⟨hreason, hplace⟩
  | close error => exact ⟨fun _ => s.close.setReason_ne_none error, hplace⟩
  | start hpc hclose =>
      rw [hpc] at hplace
      exact ⟨hreason, hplace, List.not_mem_nil⟩
  | stop hpc hclose => exact ⟨hreason, trivial⟩
  | byte hpc hinput =>
      rename_i read b rest
      rw [hpc, hinput] at hplace
      obtain ⟨hsafe, hopen⟩ := hplace
      refine ⟨by rw [advance_close]; exact hreason, ?_⟩
      rw [advance_input]
      exact safe_advance (fun hdies => hsafe ((dies_cons read b _).mpr hdies))
        (fun read' heq => feed_lineOpen hopen heq)
  | ended hpc hinput hend =>
      rename_i read
      have hnone : future = [] := (List.append_eq_nil_iff.mp (hended hend)).2
      rw [hpc] at hplace
      refine ⟨by rw [advance_close]; exact hreason, ?_⟩
      rw [advance_input, hinput, hnone]
      rcases @eof_cases host _ hplace.2 with ⟨error, heof⟩ | ⟨_, _, _, _, _, heof⟩
      · rw [heof]
        trivial
      · rw [heof]
        exact ⟨not_false, List.not_mem_nil⟩
  | closed hpc hseen hclose => exact ⟨hreason, trivial⟩
  | dropped hpc hseen hclose => exact absurd hclose (hreason (by omega))

theorem unharmed_run {s t : Reader} {ls : List ReaderLabel}
    (hs : s.Unharmed host (arrivals ls)) (h : run (step host) s ls = some t) :
    t.Unharmed host [] := by
  induction ls generalizing s with
  | nil =>
      cases h
      exact hs
  | cons l ls ih =>
      obtain ⟨m, hm, hrest⟩ := run_cons_eq_some.mp h
      have hnone : s.ended = true → l.chunk ++ arrivals ls = [] := fun hended =>
        (arrivals_of_ended hended h).1
      exact ih (unharmed_step hs hnone hm) hrest

/-- The steps the reader has before it, with one for a last header line. -/
def stepsLeft (s : Reader) : Nat :=
  match s.pc with
  | .head => 3 * s.input.length + 3
  | .select (.line [] _) => 3 * s.input.length + 1
  | .select _ => 3 * s.input.length + 2
  | .returned _ | .panicked | .aborted => 0

theorem stepsLeft_advance (s : Reader) (step : ReadStep) :
    (s.advance step).stepsLeft ≤ 3 * s.input.length + 3 := by
  cases step with
  | reading read =>
      simp only [advance, stepsLeft]
      split <;> omega
  | message v =>
      simp only [advance, dispatch]
      split <;> exact Nat.le_refl _
  | failed | panicked | aborted => exact Nat.zero_le _

/-- The stream is over, and the reader survives it. -/
structure Ending (host : Host) (s : Reader) : Prop where
  unharmed : s.Unharmed host []
  ended : s.ended = true

theorem Ending.step {s t : Reader} {l : ReaderLabel} (hs : s.Ending host)
    (h : s.step host l = some t) : t.Ending host := by
  obtain ⟨hended, hchunk⟩ := ended_step hs.ended h
  refine ⟨unharmed_step ?_ ?_ h, hended⟩
  · rw [hchunk]
    exact hs.unharmed
  · intro _
    rw [hchunk]
    rfl

/-- Short of its return the reader has a step. -/
theorem Ending.progress (s : Reader) (hs : s.Ending host) :
    (∃ result, s.pc = .returned result) ∨ ∃ l t, ReaderLabel.isOwn l = true ∧
      s.step host l = some t ∧ t.Ending host ∧ t.stepsLeft < s.stepsLeft := by
  cases hpc : s.pc with
  | head =>
      cases hclose : s.close.value with
      | none =>
          have h : s.step host .head = some { s with pc := .select .start } := by
            simp [Reader.step, hpc, hclose]
          refine .inr ⟨.head, _, rfl, h, hs.step h, ?_⟩
          simp [stepsLeft, hpc, ReadPc.start]
      | some reason =>
          have h : s.step host .head = some { s with pc := .returned (.ok ()) } := by
            simp [Reader.step, hpc, hclose]
          refine .inr ⟨.head, _, rfl, h, hs.step h, ?_⟩
          simp [stepsLeft, hpc]
  | select read =>
      have hleft : 3 * s.input.length + 1 ≤ s.stepsLeft := by
        cases read with
        | line got contentLength => cases got <;> simp [stepsLeft, hpc]
        | payload got length => simp [stepsLeft, hpc]
      cases hinput : s.input with
      | nil =>
          have h : s.step host .read = some (s.advance (Dap.eof host read)) := by
            simp [Reader.step, hpc, hinput, hs.ended]
          refine .inr ⟨.read, _, rfl, h, hs.step h, ?_⟩
          have hplace := hs.unharmed.place
          rw [hpc] at hplace
          rcases @eof_cases host _ hplace.2 with
            ⟨error, heof⟩ | ⟨got, contentLength, contentLength', rfl, hne, heof⟩
          · rw [heof]
            exact Nat.lt_of_lt_of_le (Nat.succ_pos _) hleft
          · rw [heof]
            cases got with
            | nil => exact absurd rfl hne
            | cons b got => simp [stepsLeft, advance, hpc]
      | cons b rest =>
          have h : s.step host .read = some ({ s with input := rest }.advance (feed host read b)) := by
            simp [Reader.step, hpc, hinput]
          refine .inr ⟨.read, _, rfl, h, hs.step h, ?_⟩
          have hle := stepsLeft_advance { s with input := rest } (feed host read b)
          rw [hinput] at hleft
          simp only [List.length_cons] at hleft hle
          omega
  | returned result => exact .inl ⟨result, rfl⟩
  | panicked | aborted =>
      have hplace := hs.unharmed.place
      rw [hpc] at hplace
      exact hplace.elim

/-! ## What becomes of a stream that announces too much -/

/-- Where the reader stands on its way to its death, and after it. -/
def Lost (host : Host) (unread : Bytes) : ReaderPc → Prop
  | .head => Dies host .start unread
  | .select read => Dies host read unread
  | .returned _ => False
  | .panicked | .aborted => True

structure Doomed (host : Host) (s : Reader) : Prop where
  isOpen : s.close = {}
  place : Lost host s.input s.pc

theorem doomed_step {s t : Reader} {l : ReaderLabel} (hs : s.Doomed host)
    (hl : ReaderLabel.isOwn l = true) (h : s.step host l = some t) : t.Doomed host := by
  obtain ⟨hopen, hplace⟩ := hs
  cases step_rule h with
  | arrive | eof | close => cases hl
  | start hpc hclose =>
      rw [hpc] at hplace
      exact ⟨hopen, hplace⟩
  | stop hpc hclose =>
      rw [hopen] at hclose
      cases hclose
  | byte hpc hinput =>
      rename_i read b rest
      rw [hpc, hinput] at hplace
      refine ⟨(advance_close ..).trans hopen, ?_⟩
      have hrest := (dies_cons read b rest).mp hplace
      rw [advance_input]
      cases hfeed : feed host read b with
      | reading read' =>
          rw [hfeed] at hrest
          exact hrest
      | message v =>
          rw [hfeed] at hrest
          simp only [advance, dispatch_pc]
          exact hrest
      | failed error =>
          rw [hfeed] at hrest
          exact hrest.elim
      | panicked | aborted => trivial
  | ended hpc hinput hend =>
      rw [hpc, hinput] at hplace
      exact hplace.elim
  | closed hpc hseen hclose =>
      rw [hopen] at hclose
      cases hclose
  | dropped hpc hseen hclose =>
      rw [hopen] at hseen
      exact absurd hseen (Nat.not_lt_zero _)

end Reader

/-! ## The task -/

/-- `read_messages(..).await.err().unwrap_or_else(|| Error::closed("DAP reader"))`. -/
def readerError : Except Error Unit → Error
  | .error error => error
  | .ok () => Error.closed "DAP reader"

/-- A run of `fail_pending` with this error, alone, empties the map and
completes everything in it with the close reason: this error, or the one that
was there before. -/
def CompletesPending (serde : SerdeJson) (client : DapClient) (error : Error) : Prop :=
  ∀ f, client.fails f = none → ∃ after, run (DapClient.step serde) client
      [.fail f error, .failStep f, .failStep f, .failStep f] = some after ∧
    after.pending.values = [] ∧ after.close = some (client.close.getD error) ∧
    ∀ seq c call, client.pending.lookup seq = some c → client.calls c = some call →
      call.channel = .waiting → ∃ call', after.calls c = some call' ∧ call'.pc = call.pc ∧
        call'.channel = .sent (.error (client.close.getD error))

theorem completesPending {serde : SerdeJson} (client : DapClient) (error : Error) :
    CompletesPending serde client error := by
  intro f hf
  have hset : run (DapClient.step serde) client [.fail f error, .failStep f, .failStep f] =
      some { client.setFail f (.draining (client.close.getD error)) with
        close := some (client.close.getD error) } := by
    simp [run, DapClient.step, hf, DapClient.failStep, DapClient.setFail]
  have hdrain : DapClient.step serde { client.setFail f (.draining (client.close.getD error)) with
      close := some (client.close.getD error) } (.failStep f) =
      some { client.setFail f .finished with
        close := some (client.close.getD error)
        pending := ∅
        calls := client.drained (client.close.getD error) } := by
    simp [DapClient.step, DapClient.failStep, DapClient.setFail]
    rfl
  refine ⟨_, run_snoc_eq_some.mpr ⟨_, hset, hdrain⟩, rfl, rfl, ?_⟩
  intro seq c call hentry hcall hwaiting
  have hmem : c ∈ client.pending.values := HashMap.mem_values.mpr ⟨seq, hentry⟩
  refine ⟨{ call with channel := .sent (.error (client.close.getD error)) }, ?_, rfl, rfl⟩
  simp [DapClient.drained, hcall, hmem, hwaiting]

/-- Whatever the pieces the stream arrives in, and whoever closes the client
meanwhile: once the stream has ended, the reader returns, and `fail_pending`
completes every pending request. -/
def FailsCleanly (host : Host) (bytes : Bytes) : Prop :=
  ∀ ls s, run (Reader.step host) {} ls = some s → arrivals ls = bytes → .eof ∈ ls →
    ∃ t result, ReachesBy (Reader.step host) (fun l => l.isOwn = true) s t ∧
      t.pc = .returned result ∧ ∀ client, CompletesPending host.toSerdeJson client (readerError result)

theorem not_failsCleanly_of_dies {bytes : Bytes} (h : Dies host .start bytes) :
    ¬ FailsCleanly host bytes := by
  intro hclean
  have hrun : run (Reader.step host) {} [.arrive bytes, .eof] =
      some { input := bytes, ended := true } := rfl
  have harrivals : arrivals [.arrive bytes, .eof] = bytes := by simp [arrivals, ReaderLabel.chunk]
  obtain ⟨t, result, hreach, hpc, _⟩ := hclean _ _ hrun harrivals (by simp)
  have hdoomed : t.Doomed host :=
    hreach.invariant ⟨rfl, h⟩ (fun a l b hl ha hab => Reader.doomed_step ha hl hab)
  have hplace := hdoomed.place
  rw [hpc] at hplace
  exact hplace

/-- For every byte stream and every amount of memory: the reader fails cleanly at
its end exactly when no header block that it comes to announces more bytes than
can be allocated. -/
theorem reader_fails_cleanly_iff (bytes : Bytes) :
    FailsCleanly host bytes ↔ ¬ Oversized host none bytes := by
  rw [← dies_iff_oversized]
  constructor
  · intro hclean hdies
    exact not_failsCleanly_of_dies hdies hclean
  · intro hsafe ls s hrun hbytes heof
    have hstart : ({} : Reader).Unharmed host (arrivals ls) :=
      ⟨fun hpos => absurd hpos (Nat.lt_irrefl 0), by rw [hbytes]; exact hsafe⟩
    have hending : s.Ending host := ⟨Reader.unharmed_run hstart hrun, Reader.ended_of_mem hrun heof⟩
    obtain ⟨t, hreach, _, result, hpc⟩ :=
      reachesBy_of_rank Reader.stepsLeft Reader.Ending.progress s hending
    exact ⟨t, result, hreach, hpc, fun client => completesPending client (readerError result)⟩

/-- A header block brings the reader to its payload. -/
theorem dies_header {length : Nat} (hlength : length < 2 ^ usizeBits) :
    Dies host .start (intoBytes ("Content-Length: " ++ toString length ++ "\r\n\r\n")) ↔
      (readPayload host length).Dies host [] := by
  have hfirst : headerRead host ([] ++ intoBytes (lengthLine length) ++ [0x0A]) none =
      .reading (.line [] (some length)) := by
    rw [← headerRead_lengthLine hlength, intoBytes_append]
    rfl
  have hsecond : headerRead host ([] ++ [0x0D] ++ [0x0A]) (some length) =
      readPayload host length := headerRead_empty length
  have hbytes : intoBytes ("Content-Length: " ++ toString length ++ "\r\n\r\n") =
      intoBytes (lengthLine length) ++ 0x0A :: ([0x0D] ++ 0x0A :: []) := intoBytes_header length
  rw [hbytes, ReadPc.start, dies_line (lf_not_mem_lengthLine length), hfirst]
  show Dies host (.line [] (some length)) ([0x0D] ++ 0x0A :: []) ↔ _
  rw [dies_line (by decide), hsecond]

/-- The stream is one header block. It announces `isize::MAX + 1`, for which the
vector panics; or two gibibytes where there is one. -/
theorem reader_panics_on_announcement :
    ¬ FailsCleanly eventHost
      (intoBytes ("Content-Length: " ++ toString 9223372036854775808 ++ "\r\n\r\n")) ∧
    ¬ FailsCleanly eventHost (intoBytes ("Content-Length: " ++ toString 2147483648 ++ "\r\n\r\n")) := by
  constructor
  · refine not_failsCleanly_of_dies ((dies_header (by decide)).mpr ?_)
    exact (readPayload_dies _ _).mpr (.inl (.inl (by decide)))
  · refine not_failsCleanly_of_dies ((dies_header (by decide)).mpr ?_)
    exact (readPayload_dies _ _).mpr (.inl (.inr ⟨by decide, by decide⟩))

end Kernmini.Dap
