/-
Kernmini.Wire.SessionTheorems — every way a call of `Session::decode` can
go, and that it undoes `Session::encode`.

The layout of a message is a value of its own, `Parts`: the frames before
and after the first delimiter, with the proof that it is the first.
`decode_rule` says what `decode` returns and how it changes the seen
signatures, and that it never panics.
-/
import Kernmini.Wire.Session

namespace Kernmini.Wire

/-! ## Results -/

section Except

variable {ε ε' α β : Type} {x : Except ε α} {f : α → Except ε β}

theorem bind_eq_ok {b : β} : (x >>= f) = .ok b ↔ ∃ a, x = .ok a ∧ f a = .ok b := by
  cases x <;> simp [bind, Except.bind]

theorem mapError_eq_ok {g : ε → ε'} {a : α} : x.mapError g = .ok a ↔ x = .ok a := by
  cases x <;> simp [Except.mapError]

end Except

/-! ## Layout -/

/-- The frames of a message around its first delimiter. -/
structure Parts where
  identities : List Bytes
  signature : Bytes
  header : Bytes
  parentHeader : Bytes
  metadata : Bytes
  content : Bytes
  buffers : List Bytes
  first : delimiter ∉ identities

namespace Parts

/-- The four frames that are signed. -/
def jsonParts (p : Parts) : List Bytes := [p.header, p.parentHeader, p.metadata, p.content]

/-- The frames on the wire. -/
def frames (p : Parts) : List Bytes :=
  p.identities ++ delimiter :: p.signature :: (p.jsonParts ++ p.buffers)

theorem length_frames (p : Parts) :
    p.frames.length = p.identities.length + 6 + p.buffers.length := by
  simp [frames, jsonParts]
  omega

theorem position_frames (p : Parts) :
    p.frames.findIdx? (fun part => part = delimiter) = some p.identities.length := by
  have hids : p.identities.findIdx? (fun part => part = delimiter) = none := by
    rw [List.findIdx?_eq_none_iff]
    intro part hmem
    have hne : part ≠ delimiter := fun heq => p.first (heq ▸ hmem)
    simp [hne]
  simp [frames, List.findIdx?_append, hids, List.findIdx?_cons]

theorem frames_identities (p : Parts) : p.frames.take p.identities.length = p.identities := by
  simp [frames]

theorem frames_signature (p : Parts) : p.frames[p.identities.length + 1]? = some p.signature := by
  simp [frames]

theorem frames_jsonParts (p : Parts) :
    (p.frames.drop (p.identities.length + 2)).take 4 = p.jsonParts := by
  simp [frames, jsonParts, ← List.drop_drop]

theorem frames_buffers (p : Parts) : p.frames.drop (p.identities.length + 6) = p.buffers := by
  simp [frames, jsonParts, ← List.drop_drop]

/-- A list of frames has one layout at most. -/
theorem eq_of_frames_eq {p q : Parts} (h : p.frames = q.frames) : p = q := by
  have hlen : p.identities.length = q.identities.length := by
    have hp := p.position_frames
    rw [h, q.position_frames] at hp
    exact (Option.some.inj hp).symm
  have hids : p.identities = q.identities := by
    rw [← p.frames_identities, ← q.frames_identities, h, hlen]
  have hsig : some p.signature = some q.signature := by
    rw [← p.frames_signature, ← q.frames_signature, h, hlen]
  have hjson : p.jsonParts = q.jsonParts := by
    rw [← p.frames_jsonParts, ← q.frames_jsonParts, h, hlen]
  have hbuffers : p.buffers = q.buffers := by
    rw [← p.frames_buffers, ← q.frames_buffers, h, hlen]
  cases p
  cases q
  simp_all [jsonParts]

/-- Frames with a delimiter and five frames after the first one have a layout. -/
theorem exists_of_position {frames : List Bytes} {position : Nat}
    (h : frames.findIdx? (fun part => part = delimiter) = some position)
    (hlen : position + 6 ≤ frames.length) : ∃ p : Parts, p.frames = frames := by
  obtain ⟨hlt, hat, hbefore⟩ := List.findIdx?_eq_some_iff_getElem.mp h
  have hfirst : delimiter ∉ frames.take position := by
    intro hmem
    obtain ⟨i, hi, hget⟩ := List.mem_take_iff_getElem.mp hmem
    have hne := hbefore i (by omega)
    simp [hget] at hne
  have hsplit := List.take_append_drop position frames
  match hdrop : frames.drop position with
  | d :: s :: a :: b :: c :: e :: rest =>
      have hd : d = delimiter := by
        have hhead : (frames.drop position)[0]? = some d := by rw [hdrop]; rfl
        rw [List.getElem?_drop, Nat.add_zero, List.getElem?_eq_getElem hlt] at hhead
        rw [← Option.some.inj hhead]
        simpa using hat
      refine ⟨⟨frames.take position, s, a, b, c, e, rest, hfirst⟩, ?_⟩
      rw [hdrop, hd] at hsplit
      exact hsplit
  | [] | [_] | [_, _] | [_, _, _] | [_, _, _, _] | [_, _, _, _, _] =>
      have hl := congrArg List.length hdrop
      simp at hl
      omega

/-- What reading the four JSON frames gives. -/
def read (serde : SerdeJson) (p : Parts) : Except WireError Message := do
  let header ← (serde.mapFromSlice p.header).mapError .json
  let parentHeader ← (serde.mapFromSlice p.parentHeader).mapError .json
  let metadata ← (serde.mapFromSlice p.metadata).mapError .json
  let content ← (serde.fromSlice p.content).mapError .json
  return ⟨p.identities, header, parentHeader, metadata, content, p.buffers⟩

/-- The parts read as `message`: three objects and a value. -/
structure Reads (serde : SerdeJson) (p : Parts) (message : Message) : Prop where
  identities : message.identities = p.identities
  header : serde.fromSlice p.header = .ok (.object message.header)
  parentHeader : serde.fromSlice p.parentHeader = .ok (.object message.parentHeader)
  metadata : serde.fromSlice p.metadata = .ok (.object message.metadata)
  content : serde.fromSlice p.content = .ok message.content
  buffers : message.buffers = p.buffers

theorem read_eq_ok {serde : SerdeJson} {p : Parts} {message : Message} :
    p.read serde = .ok message ↔ p.Reads serde message := by
  simp only [read, bind_eq_ok, mapError_eq_ok, serde.mapFromSlice_ok]
  constructor
  · rintro ⟨header, hh, parentHeader, hp, metadata, hm, content, hc, h⟩
    cases h
    exact ⟨rfl, hh, hp, hm, hc, rfl⟩
  · obtain ⟨ids, header, parentHeader, metadata, content, buffers⟩ := message
    rintro ⟨rfl, hh, hp, hm, hc, rfl⟩
    exact ⟨header, hh, parentHeader, hp, metadata, hm, content, hc, rfl⟩

end Parts

/-! ## One call -/

namespace Session

variable {hmac : HmacSha256} {serde : SerdeJson} {session : Session}

/-- The signature frame of a keyed session is the hex HMAC of the JSON frames. -/
def Signed (hmac : HmacSha256) (session : Session) (p : Parts) : Prop :=
  session.key ≠ [] →
    p.signature = hexEncode (hmac session.key (p.header ++ p.parentHeader ++ p.metadata ++ p.content))

theorem signed_iff {p : Parts} :
    session.Signed hmac p ↔ (session.key ≠ [] → session.signature hmac p.jsonParts = p.signature) := by
  have hsig (hkey : session.key ≠ []) : session.signature hmac p.jsonParts =
      hexEncode (hmac session.key (p.header ++ p.parentHeader ++ p.metadata ++ p.content)) := by
    simp [signature, Parts.jsonParts, hkey]
  constructor
  · intro h hkey
    rw [hsig hkey, h hkey]
  · intro h hkey
    rw [← hsig hkey, h hkey]

/-- The test of the source is the negation of `Signed`. -/
theorem badSignature_iff {p : Parts} :
    (!session.key.isEmpty && session.signature hmac p.jsonParts ≠ p.signature) = true ↔
      ¬ session.Signed hmac p := by
  rw [signed_iff]
  by_cases hkey : session.key = [] <;> simp [hkey]

theorem slice_eq_pure {α : Type} {xs : List α} {a b : Nat} (hab : a ≤ b) (hb : b ≤ xs.length) :
    slice xs a b = pure ((xs.drop a).take (b - a)) := by
  rw [slice, if_pos ⟨hab, hb⟩]
  rfl

theorem index_eq_pure {α : Type} {xs : List α} {i : Nat} {x : α} (h : xs[i]? = some x) :
    index xs i = pure x := by
  rw [index, h]
  rfl

theorem slice_jsonParts (p : Parts) :
    slice p.frames (p.identities.length + 2) (p.identities.length + 6) = pure p.jsonParts := by
  have hlen := p.length_frames
  rw [slice_eq_pure (by omega) (by omega), ← p.frames_jsonParts]
  congr 3
  omega

/-- `decode` up to the lock, on frames that have a layout. -/
theorem check_frames (p : Parts) :
    session.check hmac p.frames =
      if !session.key.isEmpty && session.signature hmac p.jsonParts ≠ p.signature then throw .badSignature
      else pure ⟨p.identities.length, p.signature, p.jsonParts⟩ := by
  have hlen := p.length_frames
  have hlt : ¬ p.frames.length < p.identities.length + 6 := by omega
  simp only [check, p.position_frames, if_neg hlt, pure_bind, index_eq_pure p.frames_signature,
    slice_jsonParts]
  split
  · rfl
  · rfl

theorem orJson_bind {α β : Type} {result : Except JsonError α} {f : α → Except WireError β} :
    (orJson result >>= fun a => ExceptT.mk (some (f a))) =
      ExceptT.mk (some (result.mapError .json >>= f)) := by
  cases result <;> rfl

/-- `decode` after the lock, on frames that have a layout. -/
theorem parse_frames (p : Parts) :
    parse serde p.frames ⟨p.identities.length, p.signature, p.jsonParts⟩ =
      ExceptT.mk (some (p.read serde)) := by
  have hlen := p.length_frames
  have hids : slice p.frames 0 p.identities.length = pure p.identities := by
    rw [slice_eq_pure (Nat.zero_le _) (by omega), List.drop_zero, Nat.sub_zero, p.frames_identities]
  have hbuffers : slice p.frames (p.identities.length + 6) p.frames.length = pure p.buffers := by
    rw [slice_eq_pure (by omega) (Nat.le_refl _), p.frames_buffers, List.take_of_length_le]
    omega
  have h0 : index p.jsonParts 0 = pure p.header := index_eq_pure rfl
  have h1 : index p.jsonParts 1 = pure p.parentHeader := index_eq_pure rfl
  have h2 : index p.jsonParts 2 = pure p.metadata := index_eq_pure rfl
  have h3 : index p.jsonParts 3 = pure p.content := index_eq_pure rfl
  simp only [parse, hids, hbuffers, h0, h1, h2, h3, pure_bind]
  simp only [Parts.read, ← orJson_bind]
  rfl

/-- Frames without a layout are refused before the signature is read. -/
theorem check_of_no_parts {frames : List Bytes} (h : ¬ ∃ p : Parts, p.frames = frames) :
    ∃ error, session.check hmac frames = throw error := by
  cases hfind : frames.findIdx? (fun part => part = delimiter) with
  | none => exact ⟨.missingDelimiter, by rw [check, hfind]⟩
  | some position =>
      have hlt : frames.length < position + 6 := by
        by_contra hlen
        exact h (Parts.exists_of_position hfind (by omega))
      refine ⟨.missingParts, ?_⟩
      rw [check, hfind]
      simp only [if_pos hlt]
      rfl

/-- The layout and the signature are as they must be. -/
def WellSigned (hmac : HmacSha256) (session : Session) (frames : List Bytes) : Prop :=
  ∃ p : Parts, p.frames = frames ∧ session.Signed hmac p

theorem check_of_signed {p : Parts} (h : session.Signed hmac p) :
    session.check hmac p.frames = pure ⟨p.identities.length, p.signature, p.jsonParts⟩ := by
  rw [check_frames, if_neg (by rw [badSignature_iff, not_not]; exact h)]

theorem check_of_not_wellSigned {frames : List Bytes} (h : ¬ session.WellSigned hmac frames) :
    ∃ error, session.check hmac frames = throw error := by
  by_cases hparts : ∃ p : Parts, p.frames = frames
  · obtain ⟨p, rfl⟩ := hparts
    refine ⟨.badSignature, ?_⟩
    have hsigned : ¬ session.Signed hmac p := fun hs => h ⟨p, rfl, hs⟩
    rw [check_frames, if_pos (badSignature_iff.mpr hsigned)]
  · exact check_of_no_parts hparts

/-- Every way a call of `decode` can go, with its result and the seen
signatures after it. -/
inductive Decodes (hmac : HmacSha256) (serde : SerdeJson) (session : Session) (seen : Seen) :
    List Bytes → Except WireError Message → Seen → Prop
  | refused {frames : List Bytes} (error : WireError) (h : ¬ session.WellSigned hmac frames) :
      Decodes hmac serde session seen frames (.error error) seen
  | unkeyed (p : Parts) (hkey : session.key = []) :
      Decodes hmac serde session seen p.frames (p.read serde) seen
  | duplicate (p : Parts) (hkey : session.key ≠ []) (h : session.Signed hmac p) (hseen : p.signature ∈ seen) :
      Decodes hmac serde session seen p.frames (.error .duplicateSignature) seen
  | fresh (p : Parts) (hkey : session.key ≠ []) (h : session.Signed hmac p) (hseen : p.signature ∉ seen) :
      Decodes hmac serde session seen p.frames (p.read serde) (insert p.signature seen)

theorem insertSeen_unkeyed {seen : Seen} {signature : Bytes} (hkey : session.key = []) :
    session.insertSeen seen signature = (.ok (), seen) := by
  simp [insertSeen, hkey]

theorem insertSeen_duplicate {seen : Seen} {signature : Bytes} (hkey : session.key ≠ [])
    (h : signature ∈ seen) : session.insertSeen seen signature = (.error .duplicateSignature, seen) := by
  simp [insertSeen, hkey, h]

theorem insertSeen_fresh {seen : Seen} {signature : Bytes} (hkey : session.key ≠ [])
    (h : signature ∉ seen) : session.insertSeen seen signature = (.ok (), insert signature seen) := by
  simp [insertSeen, hkey, h]

theorem decode_of_insertSeen_ok {seen seen' : Seen} {p : Parts} (h : session.Signed hmac p)
    (hinsert : session.insertSeen seen p.signature = (.ok (), seen')) :
    session.decode hmac serde seen p.frames = some (p.read serde, seen') := by
  simp only [decode, check_of_signed h, hinsert, parse_frames, ExceptT.run_pure, pure_bind]
  rfl

theorem decode_of_insertSeen_error {seen seen' : Seen} {p : Parts} {error : WireError}
    (h : session.Signed hmac p) (hinsert : session.insertSeen seen p.signature = (.error error, seen')) :
    session.decode hmac serde seen p.frames = some (.error error, seen') := by
  simp only [decode, check_of_signed h, hinsert, ExceptT.run_pure, pure_bind]
  rfl

theorem decode_of_check_error {seen : Seen} {frames : List Bytes} {error : WireError}
    (h : session.check hmac frames = throw error) :
    session.decode hmac serde seen frames = some (.error error, seen) := by
  rw [decode, h]
  rfl

/-- `decode` does not panic, and goes one of these ways. -/
theorem decode_rule (hmac : HmacSha256) (serde : SerdeJson) (session : Session) (seen : Seen)
    (frames : List Bytes) : ∃ result seen', session.decode hmac serde seen frames = some (result, seen') ∧
      Decodes hmac serde session seen frames result seen' := by
  by_cases hsigned : session.WellSigned hmac frames
  · obtain ⟨p, rfl, hp⟩ := hsigned
    by_cases hkey : session.key = []
    · exact ⟨_, _, decode_of_insertSeen_ok hp (insertSeen_unkeyed hkey), .unkeyed p hkey⟩
    · by_cases hseen : p.signature ∈ seen
      · exact ⟨_, _, decode_of_insertSeen_error hp (insertSeen_duplicate hkey hseen),
          .duplicate p hkey hp hseen⟩
      · exact ⟨_, _, decode_of_insertSeen_ok hp (insertSeen_fresh hkey hseen), .fresh p hkey hp hseen⟩
  · obtain ⟨error, herror⟩ := check_of_not_wellSigned hsigned
    exact ⟨_, _, decode_of_check_error herror, .refused error hsigned⟩

/-! A MAC and a JSON library that do on the text of the empty object what
HMAC-SHA256 (with the key `secret`) and `serde_json` do. -/

def emptyObject : Bytes := ascii "\x7b\x7d"

def secretHmac : HmacSha256 := fun key text =>
  if key = ascii "secret" ∧ text = emptyObject ++ emptyObject ++ emptyObject ++ emptyObject then
    [52, 152, 47, 11, 254, 198, 14, 123, 147, 63, 253, 224, 108, 30, 202, 176,
      251, 160, 115, 113, 122, 149, 171, 148, 61, 29, 208, 111, 130, 194, 213, 228]
  else []

def emptyObjectJson : SerdeJson where
  toVec
    | .object [] => .ok emptyObject
    | _ => .error ⟨"not the empty object"⟩
  fromSlice b := if b = emptyObject then .ok (.object []) else .error ⟨"expected value"⟩
  mapFromSlice b := if b = emptyObject then .ok [] else .error ⟨"expected value"⟩
  mapFromSlice_ok b m := by
    split <;> simp [eq_comm]

def secretSession : Session := ⟨ascii "secret", "s", "kernel"⟩

/-- The frames of a message of empty objects from the client `a`, signed. -/
def signedFrames : List Bytes :=
  [ascii "a", delimiter,
    ascii "34982f0bfec60e7b933ffde06c1ecab0fba073717a95ab943d1dd06f82c2d5e4",
    emptyObject, emptyObject, emptyObject, emptyObject, delimiter]

/-! ## Round trip -/

/-- A signature that is not seen is let through. -/
theorem insertSeen_of_unseen (session : Session) {seen : Seen} {signature : Bytes} (h : signature ∉ seen) :
    ∃ seen', session.insertSeen seen signature = (.ok (), seen') := by
  by_cases hkey : session.key = []
  · exact ⟨_, insertSeen_unkeyed hkey⟩
  · exact ⟨_, insertSeen_fresh hkey h⟩

/-- Decoding the encoded frames gives the message back, whatever stands in
its buffers. -/
theorem decode_encode {sender receiver : Session} {message : Message}
    (hkey : receiver.key = sender.key) (hids : delimiter ∉ message.identities)
    (hheader : serde.RoundTrips (.object message.header))
    (hparent : serde.RoundTrips (.object message.parentHeader))
    (hmetadata : serde.RoundTrips (.object message.metadata))
    (hcontent : serde.RoundTrips message.content) :
    ∃ frames, sender.encode hmac serde message = .ok frames ∧
      ∀ seen, (∀ signature ∈ frames[message.identities.length + 1]?, signature ∉ seen) →
        ∃ seen', receiver.decode hmac serde seen frames = some (.ok message, seen') := by
  obtain ⟨header, hwrite₁, hread₁⟩ := hheader
  obtain ⟨parentHeader, hwrite₂, hread₂⟩ := hparent
  obtain ⟨metadata, hwrite₃, hread₃⟩ := hmetadata
  obtain ⟨content, hwrite₄, hread₄⟩ := hcontent
  let p : Parts :=
    { identities := message.identities
      signature := sender.signature hmac [header, parentHeader, metadata, content]
      header, parentHeader, metadata, content
      buffers := message.buffers
      first := hids }
  have hencode : sender.encode hmac serde message = .ok p.frames := by
    simp [encode, jsonParts, hwrite₁, hwrite₂, hwrite₃, hwrite₄, Except.mapError, bind, Except.bind,
      pure, Except.pure, p, Parts.frames, Parts.jsonParts]
  have hsigned : receiver.Signed hmac p := by
    rw [signed_iff]
    intro _
    rw [signature, hkey]
    rfl
  have hread : p.read serde = .ok message :=
    Parts.read_eq_ok.mpr ⟨rfl, hread₁, hread₂, hread₃, hread₄, rfl⟩
  refine ⟨p.frames, hencode, fun seen hseen => ?_⟩
  obtain ⟨seen', hinsert⟩ := insertSeen_of_unseen receiver (hseen _ p.frames_signature)
  exact ⟨seen', by rw [← hread, decode_of_insertSeen_ok hsigned hinsert]⟩

/-- A message with a delimiter among its buffers, sent to a fresh session. -/
theorem decode_encode_secret :
    ∃ frames, secretSession.encode secretHmac emptyObjectJson
        { identities := [ascii "a"], content := .object [], buffers := [delimiter] } = .ok frames ∧
      ∀ seen, (∀ signature ∈ frames[2]?, signature ∉ seen) →
        ∃ seen', Session.decode secretHmac emptyObjectJson ⟨ascii "secret", "t", "client"⟩ seen frames =
          some (.ok { identities := [ascii "a"], content := .object [], buffers := [delimiter] }, seen') :=
  decode_encode rfl (by decide) ⟨_, rfl, rfl⟩ ⟨_, rfl, rfl⟩ ⟨_, rfl, rfl⟩ ⟨_, rfl, rfl⟩

end Session

end Kernmini.Wire
