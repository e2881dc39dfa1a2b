/-
Kernmini.Dap.ReaderTheorems — a stream of frames is read back.

The invariant follows the frames. Between two messages the bytes still to
come are the frames of the messages still to come. Inside a read they are
those frames without the part that the read has taken. The watch channel
changes only to give a close reason, so a read under way is never dropped
while the client is open.
-/
import Kernmini.Dap.MessageTheorems
import Kernmini.Dap.Reader
import Kernmini.Lib.Transition

namespace Kernmini.Dap

open Kernmini.Wire Kernmini.Engine Kernmini.Lib

section

variable {host : Host}

/-! ## What a step can do -/

/-- What one step of the reader and its stream does. -/
inductive Reader.Rule (host : Host) (s : Reader) : ReaderLabel → Reader → Prop
  | arrive (chunk : Bytes) (hopen : s.ended = false) :
      Rule host s (.arrive chunk) { s with input := s.input ++ chunk }
  | eof (hopen : s.ended = false) : Rule host s .eof { s with ended := true }
  | close (error : Error) : Rule host s (.close error) { s with close := s.close.setReason error }
  | start (hpc : s.pc = .head) (hclose : s.close.value = none) :
      Rule host s .head { s with pc := .select .start }
  | stop {reason : Error} (hpc : s.pc = .head) (hclose : s.close.value = some reason) :
      Rule host s .head { s with pc := .returned (.ok ()) }
  | byte {read : ReadPc} {b : UInt8} {rest : Bytes} (hpc : s.pc = .select read)
      (hinput : s.input = b :: rest) :
      Rule host s .read ({ s with input := rest }.advance (feed host read b))
  | ended {read : ReadPc} (hpc : s.pc = .select read) (hinput : s.input = [])
      (hended : s.ended = true) : Rule host s .read (s.advance (Dap.eof host read))
  | closed {read : ReadPc} {reason : Error} (hpc : s.pc = .select read)
      (hseen : s.seen < s.close.version) (hclose : s.close.value = some reason) :
      Rule host s .changed { s with seen := s.close.version, pc := .returned (.ok ()) }
  | dropped {read : ReadPc} (hpc : s.pc = .select read) (hseen : s.seen < s.close.version)
      (hclose : s.close.value = none) :
      Rule host s .changed { s with seen := s.close.version, pc := .head }

theorem Reader.step_rule {s t : Reader} {l : ReaderLabel} (h : s.step host l = some t) :
    Reader.Rule host s l t := by
  cases l with
  | arrive chunk =>
      simp only [Reader.step] at h
      split at h
      · cases h
      · rename_i hopen
        cases h
        exact .arrive chunk (by simpa using hopen)
  | eof =>
      simp only [Reader.step] at h
      split at h
      · cases h
      · rename_i hopen
        cases h
        exact .eof (by simpa using hopen)
  | close error =>
      cases h
      exact .close error
  | head =>
      simp only [Reader.step] at h
      split at h
      · rename_i hpc
        split at h
        · rename_i reason hclose
          cases h
          exact .stop hpc hclose
        · rename_i hclose
          cases h
          exact .start hpc hclose
      · cases h
  | read =>
      simp only [Reader.step] at h
      split at h
      · rename_i read hpc
        split at h
        · rename_i b rest hinput
          cases h
          exact .byte hpc hinput
        · rename_i hinput
          split at h
          · rename_i hended
            cases h
            exact .ended hpc hinput hended
          · cases h
      · cases h
  | changed =>
      simp only [Reader.step] at h
      split at h
      · rename_i read hpc
        split at h
        · rename_i hseen
          split at h
          · rename_i reason hclose
            cases h
            exact .closed hpc hseen hclose
          · rename_i hclose
            cases h
            exact .dropped hpc hseen hclose
        · cases h
      · cases h

/-! ## The stream of some messages -/

/-- The bytes are the frames of the messages. -/
def IsStream (host : Host) : List Value → Bytes → Prop
  | [], bytes => bytes = []
  | v :: vs, bytes => ∃ frame rest, encodeMessage host.toSerdeJson v = .ok frame ∧ bytes = frame ++ rest ∧
      IsStream host vs rest

theorem isStream_of_mapM {vs : List Value} {frames : List Bytes}
    (h : vs.mapM (encodeMessage host.toSerdeJson) = .ok frames) : IsStream host vs frames.flatten := by
  induction vs generalizing frames with
  | nil =>
      cases h
      rfl
  | cons v vs ih =>
      rw [List.mapM_cons] at h
      cases hframe : encodeMessage host.toSerdeJson v with
      | error error => simp [hframe, bind, Except.bind] at h
      | ok frame =>
          cases hrest : vs.mapM (encodeMessage host.toSerdeJson) with
          | error error => simp [hframe, hrest, bind, Except.bind] at h
          | ok rest =>
              simp only [hframe, hrest, bind, Except.bind, pure, Except.pure, Except.ok.injEq] at h
              exact ⟨frame, rest.flatten, hframe, by simp [← h], ih hrest⟩

/-- The messages are such as `to_vec` writes and `from_slice` reads back. -/
def Readable (host : Host) (vs : List Value) : Prop :=
  ∀ v ∈ vs, host.RoundTrips v ∧ WritesVec host v

/-- A read of the stream gives the first message and leaves the stream of
the others. -/
theorem readMessage_stream {v : Value} {vs : List Value} {bytes : Bytes}
    (hread : Readable host (v :: vs)) (hbytes : IsStream host (v :: vs) bytes) :
    ∃ rest, readMessage host .start bytes = (.message v, rest) ∧ IsStream host vs rest := by
  obtain ⟨frame, rest, hframe, hbytes, hrest⟩ := hbytes
  rw [hbytes]
  obtain ⟨hserde, hvec⟩ := hread v (List.mem_cons_self ..)
  exact ⟨rest, readMessage_encodeMessage hserde hvec hframe rest, hrest⟩

/-! ## The invariant -/

/-- Where the loop is before the messages `todo`, with the close reason
`close` and the bytes `unread` from now on. -/
inductive Stands (host : Host) (close : Option Error) (unread : Bytes) (todo : List Value) :
    ReaderPc → Prop
  | head (hstream : IsStream host todo unread) : Stands host close unread todo .head
  | select {read : ReadPc} (part : Bytes)
      (hpart : readMessage host .start part = (.reading read, []))
      (hstream : IsStream host todo (part ++ unread)) : Stands host close unread todo (.select read)
  | stopped (hclose : close ≠ none) : Stands host close unread todo (.returned (.ok ()))
  | ended (htodo : todo = []) :
      Stands host close unread todo (.returned (.error (Error.closed "DAP connection")))

/-- A close reason changes nothing before the loop sees it. -/
theorem Stands.of_reason {close close' : Option Error} {unread : Bytes} {todo : List Value}
    {pc : ReaderPc} (h : Stands host close unread todo pc) (hclose : close' ≠ none) :
    Stands host close' unread todo pc := by
  cases h with
  | head hstream => exact .head hstream
  | select part hpart hstream => exact .select part hpart hstream
  | stopped _ => exact .stopped hclose
  | ended htodo => exact .ended htodo

/-- What holds while the stream of `vs` is read. -/
structure Reader.Inv (host : Host) (vs : List Value) (s : Reader) (future : Bytes) : Prop where
  events : s.events = s.messages.filter isEvent
  responses : s.responses = s.messages.filter (fun v => !isEvent v)
  /-- the watch channel changes only when it gets a reason -/
  reason : 0 < s.close.version → s.close.value ≠ none
  place : ∃ todo, vs = s.messages ++ todo ∧
    Stands host s.close.value (s.input ++ future) todo s.pc

theorem Watch.setReason_ne_none (w : Watch) (error : Error) : (w.setReason error).value ≠ none := by
  unfold setReason
  split
  · rename_i hvalue
    rw [hvalue]
    exact Option.some_ne_none _
  · exact Option.some_ne_none _

/-- The stream of no message is over. -/
theorem IsStream.nil {part bytes : Bytes} (h : IsStream host [] (part ++ bytes)) :
    part = [] ∧ bytes = [] := List.append_eq_nil_iff.mp h

theorem Reader.inv_byte {vs : List Value} {s : Reader} {future rest : Bytes} {read : ReadPc} {b : UInt8}
    (hread : Readable host vs) (hs : s.Inv host vs future) (hpc : s.pc = .select read)
    (hinput : s.input = b :: rest) :
    ({ s with input := rest }.advance (feed host read b)).Inv host vs future := by
  obtain ⟨hevents, hresponses, hreason, todo, hvs, hat⟩ := hs
  rw [hpc, hinput, List.cons_append] at hat
  obtain ⟨part, hpart, hstream⟩ : ∃ part, readMessage host .start part = (.reading read, []) ∧
      IsStream host todo (part ++ b :: (rest ++ future)) := by
    cases hat with
    | select part hpart hstream => exact ⟨part, hpart, hstream⟩
  cases todo with
  | nil => exact absurd hstream.nil.2 (List.cons_ne_nil b _)
  | cons v todo =>
      have hsuffix : Readable host (v :: todo) := fun w hw =>
        hread w (hvs ▸ List.mem_append_right _ hw)
      -- the whole stream gives `v`, so the byte cannot end the read otherwise
      obtain ⟨after, hmessage, hafter⟩ := readMessage_stream hsuffix hstream
      rw [readMessage_append _ hpart, readMessage_cons] at hmessage
      cases hfeed : feed host read b with
      | reading pc =>
          refine ⟨hevents, hresponses, hreason, v :: todo, hvs, .select (part ++ [b]) ?_ ?_⟩
          · rw [readMessage_append _ hpart, readMessage_cons, hfeed]
            rfl
          · rw [List.append_assoc]
            exact hstream
      | message w =>
          rw [hfeed, resume_message, Prod.mk.injEq] at hmessage
          obtain ⟨hw, hrest⟩ := hmessage
          cases hw
          have hvs' : vs = (s.messages ++ [v]) ++ todo := by simp [hvs]
          rw [← hrest] at hafter
          simp only [Reader.advance, Reader.dispatch]
          split
          · rename_i hevent
            exact ⟨by simp [hevents, hevent], by simp [hresponses, hevent], hreason, todo, hvs',
              .head hafter⟩
          · rename_i hevent
            exact ⟨by simp [hevents, hevent], by simp [hresponses, hevent], hreason, todo, hvs',
              .head hafter⟩
      | failed | panicked | aborted => simp [hfeed, ReadStep.resume] at hmessage

theorem Reader.inv_ended {vs : List Value} {s : Reader} {read : ReadPc} (hread : Readable host vs)
    (hs : s.Inv host vs []) (hpc : s.pc = .select read) (hinput : s.input = []) :
    (s.advance (Dap.eof host read)).Inv host vs [] ∧
      (s.advance (Dap.eof host read)).pc = .returned (.error (Error.closed "DAP connection")) := by
  obtain ⟨hevents, hresponses, hreason, todo, hvs, hat⟩ := hs
  rw [hpc, hinput, List.append_nil] at hat
  obtain ⟨part, hpart, hstream⟩ : ∃ part, readMessage host .start part = (.reading read, []) ∧
      IsStream host todo part := by
    cases hat with
    | select part hpart hstream => exact ⟨part, hpart, by simpa using hstream⟩
  cases todo with
  | nil =>
      have hnil : part = [] := hstream
      rw [hnil] at hpart
      cases hpart
      exact ⟨⟨hevents, hresponses, hreason, [], hvs, .ended rfl⟩, rfl⟩
  | cons v todo =>
      -- the read would have found the message
      have hsuffix : Readable host (v :: todo) := fun w hw =>
        hread w (hvs ▸ List.mem_append_right _ hw)
      obtain ⟨after, hmessage, _⟩ := readMessage_stream hsuffix hstream
      rw [hpart] at hmessage
      cases hmessage

/-- What a label adds to the stream. -/
def ReaderLabel.chunk : ReaderLabel → Bytes
  | .arrive chunk => chunk
  | _ => []

/-- What arrives in a run. -/
def arrivals (ls : List ReaderLabel) : Bytes := ls.flatMap ReaderLabel.chunk

theorem Reader.inv_step {vs : List Value} {s t : Reader} {l : ReaderLabel} {future : Bytes}
    (hread : Readable host vs) (hs : s.Inv host vs (l.chunk ++ future))
    (hended : s.ended = true → l.chunk ++ future = []) (h : s.step host l = some t) :
    t.Inv host vs future := by
  have ⟨hevents, hresponses, hreason, todo, hvs, hat⟩ := hs
  cases Reader.step_rule h with
  | arrive chunk hopen =>
      refine ⟨hevents, hresponses, hreason, todo, hvs, ?_⟩
      rw [List.append_assoc]
      exact hat
  | eof hopen => exact ⟨hevents, hresponses, hreason, todo, hvs, hat⟩
  | close error =>
      have hset := s.close.setReason_ne_none error
      refine ⟨hevents, hresponses, fun _ => hset, todo, hvs, ?_⟩
      exact hat.of_reason hset
  | start hpc hclose =>
      rw [hpc] at hat
      cases hat with
      | head hstream => exact ⟨hevents, hresponses, hreason, todo, hvs, .select [] rfl hstream⟩
  | stop hpc hclose =>
      exact ⟨hevents, hresponses, hreason, todo, hvs, .stopped (by simp [hclose])⟩
  | byte hpc hinput => exact Reader.inv_byte hread hs hpc hinput
  | ended hpc hinput hend =>
      have hnone : future = [] := (List.append_eq_nil_iff.mp (hended hend)).2
      rw [hnone]
      rw [hnone] at hs
      exact (Reader.inv_ended hread hs hpc hinput).1
  | closed hpc hseen hclose =>
      exact ⟨hevents, hresponses, hreason, todo, hvs, .stopped (by simp [hclose])⟩
  | dropped hpc hseen hclose => exact absurd hclose (hreason (by omega))

/-! ## Whole runs -/

theorem Reader.advance_ended (s : Reader) (step : ReadStep) : (s.advance step).ended = s.ended := by
  cases step with
  | reading pc => rfl
  | message v =>
      simp only [Reader.advance, Reader.dispatch]
      split <;> rfl
  | failed | panicked | aborted => rfl

theorem Reader.advance_close (s : Reader) (step : ReadStep) : (s.advance step).close = s.close := by
  cases step with
  | reading pc => rfl
  | message v =>
      simp only [Reader.advance, Reader.dispatch]
      split <;> rfl
  | failed | panicked | aborted => rfl

theorem Reader.ended_step {s t : Reader} {l : ReaderLabel} (hended : s.ended = true)
    (h : s.step host l = some t) : t.ended = true ∧ l.chunk = [] := by
  cases Reader.step_rule h with
  | arrive chunk hopen => simp [hended] at hopen
  | eof hopen => exact ⟨rfl, rfl⟩
  | close | start | stop => exact ⟨hended, rfl⟩
  | byte | ended => exact ⟨(advance_ended ..).trans hended, rfl⟩
  | closed | dropped => exact ⟨hended, rfl⟩

/-- Nothing arrives after the end of the stream. -/
theorem Reader.arrivals_of_ended {s t : Reader} {ls : List ReaderLabel} (hended : s.ended = true)
    (h : run (Reader.step host) s ls = some t) : arrivals ls = [] ∧ t.ended = true := by
  induction ls generalizing s with
  | nil =>
      cases h
      exact ⟨rfl, hended⟩
  | cons l ls ih =>
      obtain ⟨m, hm, hrest⟩ := run_cons_eq_some.mp h
      obtain ⟨hended', hchunk⟩ := Reader.ended_step hended hm
      obtain ⟨hnone, ht⟩ := ih hended' hrest
      exact ⟨by rw [arrivals, List.flatMap_cons, hchunk]; exact hnone, ht⟩

theorem Reader.inv_run {vs : List Value} {s t : Reader} {ls : List ReaderLabel}
    (hread : Readable host vs) (hs : s.Inv host vs (arrivals ls))
    (h : run (Reader.step host) s ls = some t) : t.Inv host vs [] := by
  induction ls generalizing s with
  | nil =>
      cases h
      exact hs
  | cons l ls ih =>
      obtain ⟨m, hm, hrest⟩ := run_cons_eq_some.mp h
      have hnone : s.ended = true → l.chunk ++ arrivals ls = [] := fun hended =>
        (Reader.arrivals_of_ended hended h).1
      exact ih (Reader.inv_step hread hs hnone hm) hrest

theorem Reader.inv_init {vs : List Value} {bytes : Bytes} (h : IsStream host vs bytes) :
    ({} : Reader).Inv host vs bytes :=
  ⟨rfl, rfl, fun hpos => absurd hpos (Nat.lt_irrefl 0), vs, rfl, .head h⟩

/-- The end of the stream is in the state. -/
theorem Reader.ended_of_mem {s t : Reader} {ls : List ReaderLabel}
    (h : run (Reader.step host) s ls = some t) (hmem : .eof ∈ ls) : t.ended = true := by
  obtain ⟨before, after, rfl⟩ := List.append_of_mem hmem
  obtain ⟨m, hbefore, hafter⟩ := run_append_eq_some.mp h
  obtain ⟨m', hm, hrest⟩ := run_cons_eq_some.mp hafter
  cases Reader.step_rule hm with
  | eof hopen => exact (Reader.arrivals_of_ended rfl hrest).2

/-- Without a `fail_pending` there is no reason. -/
theorem Reader.open_run {s t : Reader} {ls : List ReaderLabel} (hs : s.close.value = none)
    (hopen : ∀ error, .close error ∉ ls) (h : run (Reader.step host) s ls = some t) :
    t.close.value = none := by
  induction ls generalizing s with
  | nil =>
      cases h
      exact hs
  | cons l ls ih =>
      obtain ⟨m, hm, hrest⟩ := run_cons_eq_some.mp h
      refine ih ?_ (fun error hmem => hopen error (List.mem_cons_of_mem _ hmem)) hrest
      cases Reader.step_rule hm with
      | arrive | eof => exact hs
      | close error => exact absurd (List.mem_cons_self ..) (hopen error)
      | start | stop => exact hs
      | byte | ended => exact (congrArg Watch.value (advance_close ..)).trans hs
      | closed | dropped => exact hs

/-- The reader has read all of `vs` and ended. -/
structure Reader.ReadBack (vs : List Value) (s : Reader) : Prop where
  result : s.pc = .returned (.error (Error.closed "DAP connection"))
  messages : s.messages = vs
  events : s.events = vs.filter isEvent
  responses : s.responses = vs.filter (fun v => !isEvent v)

theorem Reader.Inv.readBack {vs : List Value} {s : Reader} (hs : s.Inv host vs [])
    (hclose : s.close.value = none) {result : Except Error Unit} (hpc : s.pc = .returned result) :
    s.ReadBack vs := by
  obtain ⟨hevents, hresponses, _, todo, hvs, hat⟩ := hs
  rw [hpc] at hat
  cases hat with
  | stopped hreason => exact absurd hclose hreason
  | ended htodo =>
      have hmessages : s.messages = vs := by rw [hvs, htodo, List.append_nil]
      exact ⟨hpc, hmessages, hmessages ▸ hevents, hmessages ▸ hresponses⟩

/-- The whole stream is there, and the client is open. -/
structure Reader.Fed (host : Host) (vs : List Value) (s : Reader) : Prop where
  inv : s.Inv host vs []
  ended : s.ended = true
  isOpen : s.close.value = none

/-- The steps the reader has before it. -/
def Reader.rank (s : Reader) : Nat :=
  match s.pc with
  | .head => 2 * s.input.length + 2
  | .select _ => 2 * s.input.length + 1
  | .returned _ | .panicked | .aborted => 0

theorem Reader.rank_advance (s : Reader) (step : ReadStep) :
    (s.advance step).rank ≤ 2 * s.input.length + 2 := by
  cases step with
  | reading pc => exact Nat.le_succ _
  | message v =>
      simp only [Reader.advance, Reader.dispatch]
      split <;> exact Nat.le_refl _
  | failed | panicked | aborted => exact Nat.zero_le _

/-- Short of the end the reader has a step. -/
theorem Reader.Fed.progress {vs : List Value} (hread : Readable host vs) (s : Reader)
    (hs : s.Fed host vs) :
    s.ReadBack vs ∨ ∃ l t, ReaderLabel.isOwn l = true ∧ s.step host l = some t ∧ t.Fed host vs ∧
      t.rank < s.rank := by
  obtain ⟨hinv, hended, hopen⟩ := hs
  have hnext : ∀ {l t}, s.step host l = some t → l.chunk = [] → t.close = s.close → t.Fed host vs := by
    intro l t h hchunk hclose
    refine ⟨Reader.inv_step hread (by rw [hchunk]; exact hinv) (fun _ => by rw [hchunk]; rfl) h, ?_, ?_⟩
    · exact (Reader.ended_step hended h).1
    · rw [hclose]
      exact hopen
  cases hpc : s.pc with
  | head =>
      have h : s.step host .head = some { s with pc := .select .start } := by
        simp [Reader.step, hpc, hopen]
      exact .inr ⟨.head, _, rfl, h, hnext h rfl rfl, by simp [Reader.rank, hpc]⟩
  | select read =>
      cases hinput : s.input with
      | nil =>
          have h : s.step host .read = some (s.advance (Dap.eof host read)) := by
            simp [Reader.step, hpc, hinput, hended]
          have hlast := (Reader.inv_ended hread hinv hpc hinput).2
          refine .inr ⟨.read, _, rfl, h, hnext h rfl (advance_close ..), ?_⟩
          simp [Reader.rank, hpc, hlast]
      | cons b rest =>
          have h : s.step host .read = some ({ s with input := rest }.advance (feed host read b)) := by
            simp [Reader.step, hpc, hinput]
          refine .inr ⟨.read, _, rfl, h, hnext h rfl (advance_close ..), ?_⟩
          have hle := Reader.rank_advance { s with input := rest } (feed host read b)
          have hrank : s.rank = 2 * (rest.length + 1) + 1 := by simp [Reader.rank, hpc, hinput]
          simp only at hle
          omega
  | returned result => exact .inl (hinv.readBack hopen hpc)
  | panicked | aborted =>
      obtain ⟨todo, _, hat⟩ := hinv.place
      rw [hpc] at hat
      cases hat

/-- The frames of any messages, in whatever pieces they arrive, followed by
the end of the stream: a frame gives its message and leaves what follows it;
the reader has always read the messages in order and has sent each to its
place; when it returns it has read all of them, with the error that the
connection is closed, and it can always go on to that point. -/
theorem stream_read_back {vs : List Value} {frames : List Bytes} (hread : Readable host vs)
    (hframes : vs.mapM (encodeMessage host.toSerdeJson) = .ok frames) :
    (∀ v ∈ vs, ∀ frame, encodeMessage host.toSerdeJson v = .ok frame → ∀ rest,
      readMessage host .start (frame ++ rest) = (.message v, rest)) ∧
    ∀ ls s, run (Reader.step host) {} ls = some s → arrivals ls = frames.flatten → .eof ∈ ls →
      (∀ error, .close error ∉ ls) →
      s.messages <+: vs ∧ s.events = s.messages.filter isEvent ∧
      s.responses = s.messages.filter (fun v => !isEvent v) ∧
      (∀ result, s.pc = .returned result → s.ReadBack vs) ∧
      ∃ t, ReachesBy (Reader.step host) (fun l => l.isOwn = true) s t ∧ t.ReadBack vs := by
  refine ⟨fun v hv frame hframe rest => ?_, fun ls s hrun harrived heof hopen => ?_⟩
  · obtain ⟨hserde, hvec⟩ := hread v hv
    exact readMessage_encodeMessage hserde hvec hframe rest
  · have hinv : s.Inv host vs [] :=
      Reader.inv_run hread (Reader.inv_init (harrived ▸ isStream_of_mapM hframes)) hrun
    have hfed : s.Fed host vs :=
      ⟨hinv, Reader.ended_of_mem hrun heof, Reader.open_run rfl hopen hrun⟩
    obtain ⟨todo, hvs, _⟩ := hinv.place
    obtain ⟨t, hreach, _, hgoal⟩ := reachesBy_of_rank Reader.rank (Reader.Fed.progress hread) s hfed
    exact ⟨⟨todo, hvs.symm⟩, hinv.events, hinv.responses,
      fun result hpc => hinv.readBack hfed.isOpen hpc, t, hreach, hgoal⟩

/-- `serde_json` on the empty object and on a bare event, with a gibibyte of memory. -/
def eventHost : Host where
  toVec
    | .object [] => .ok (ascii "\x7b\x7d")
    | .object [("type", .string "event")] => .ok (ascii "\x7b\"type\":\"event\"\x7d")
    | _ => .error ⟨"not of interest"⟩
  fromSlice b :=
    if b = ascii "\x7b\x7d" then .ok (.object [])
    else if b = ascii "\x7b\"type\":\"event\"\x7d" then .ok (.object [("type", .string "event")])
    else .error ⟨"expected value"⟩
  mapFromSlice b :=
    if b = ascii "\x7b\x7d" then .ok []
    else if b = ascii "\x7b\"type\":\"event\"\x7d" then .ok [("type", .string "event")]
    else .error ⟨"expected value"⟩
  mapFromSlice_ok b m := by
    split
    · simp
    · split <;> simp
  notUtf8 _ := "stream did not contain valid UTF-8"
  allocates length := length ≤ 2 ^ 30

/-- An event and a message without a type. -/
def eventAndReply : List Value := [.object [("type", .string "event")], .object []]

theorem readable_eventAndReply : Readable eventHost eventAndReply := by
  intro v hv
  have hcases : v = .object [("type", .string "event")] ∨ v = .object [] := by
    simpa [eventAndReply] using hv
  rcases hcases with rfl | rfl
  · refine ⟨⟨_, rfl, rfl⟩, fun payload hpayload => ?_⟩
    cases hpayload
    decide
  · refine ⟨⟨_, rfl, rfl⟩, fun payload hpayload => ?_⟩
    cases hpayload
    decide

/-- Two frames that arrive cut inside the first header. -/
theorem stream_read_back_two :
    ∃ frames s t, eventAndReply.mapM (encodeMessage eventHost.toSerdeJson) = .ok frames ∧
      run (Reader.step eventHost) {} [.arrive (frames.flatten.take 5), .head,
        .arrive (frames.flatten.drop 5), .eof] = some s ∧
      ReachesBy (Reader.step eventHost) (fun l => l.isOwn = true) s t ∧ t.ReadBack eventAndReply := by
  obtain ⟨frames, hframes⟩ : ∃ frames, eventAndReply.mapM (encodeMessage eventHost.toSerdeJson) = .ok frames :=
    ⟨_, rfl⟩
  have hrun : run (Reader.step eventHost) {} [.arrive (frames.flatten.take 5), .head,
      .arrive (frames.flatten.drop 5), .eof] = some _ := rfl
  have harrived : arrivals [.arrive (frames.flatten.take 5), .head,
      .arrive (frames.flatten.drop 5), .eof] = frames.flatten := by
    simp [arrivals, ReaderLabel.chunk]
  obtain ⟨_, _, _, _, t, hreach, hback⟩ :=
    (stream_read_back readable_eventAndReply hframes).2 _ _ hrun harrived (by simp) (by simp)
  exact ⟨frames, _, t, hframes, hrun, hreach, hback⟩

end

end Kernmini.Dap
