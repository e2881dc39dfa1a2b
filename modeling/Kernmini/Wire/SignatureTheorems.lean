/-
Kernmini.Wire.SignatureTheorems — what the signature of a message binds.

`Session::signature` feeds the four JSON frames to one MAC with nothing in
between, so it is a function of their concatenation. The first three frames
are objects with whitespace around them, and an object shows where it ends:
two ways of cutting one text into four such frames differ in whitespace
only, and a JSON text does not change its meaning with the whitespace
around it (`signature_binds_parts`).
-/
import Kernmini.Wire.SessionTheorems
import Kernmini.Wire.JsonText

namespace Kernmini.Wire

open JsonText

/-! ## Cutting a text into objects -/

namespace JsonText

theorem Whitespace.append {text text' : Bytes} (h : Whitespace text) (h' : Whitespace text') :
    Whitespace (text ++ text') := by
  intro b hb
  rcases List.mem_append.mp hb with hb | hb
  · exact h b hb
  · exact h' b hb

/-- Two texts that agree once each has some whitespace in front differ by
whitespace in front of one of them. -/
theorem space_append_eq {space space' text text' : Bytes} (h : Whitespace space)
    (h' : Whitespace space') (heq : space ++ text = space' ++ text') :
    ∃ more, Whitespace more ∧ (text = more ++ text' ∨ text' = more ++ text) := by
  rcases List.append_eq_append_iff.mp heq with ⟨more, hspace, htext⟩ | ⟨more, hspace, htext⟩
  · refine ⟨more, fun b hb => h' b ?_, Or.inl htext⟩
    rw [hspace]
    exact List.mem_append_right _ hb
  · refine ⟨more, fun b hb => h b ?_, Or.inr htext⟩
    rw [hspace]
    exact List.mem_append_right _ hb

/-- No object begins with whitespace. -/
theorem object_not_space {text rest more rest' : Bytes} (h : Object text) (hmore : Whitespace more)
    (heq : text ++ rest = more ++ rest') : more = [] := by
  cases more with
  | nil => rfl
  | cons b more =>
      obtain ⟨body, rfl, _⟩ := object_ends h
      have hb : 0x7B = b := (List.cons.inj heq).1
      have hspace := hmore b (List.mem_cons_self ..)
      rw [← hb] at hspace
      cases hspace

/-- The first object of a text, whatever whitespace stands in front of it. -/
theorem object_after_space {space space' text text' rest rest' : Bytes} (h : Whitespace space)
    (h' : Whitespace space') (hobject : Object text) (hobject' : Object text')
    (heq : space ++ (text ++ rest) = space' ++ (text' ++ rest')) :
    text = text' ∧ rest = rest' := by
  obtain ⟨more, hmore, htext | htext⟩ := space_append_eq h h' heq
  · obtain rfl := object_not_space hobject hmore htext
    exact object_append_inj hobject hobject' htext
  · obtain rfl := object_not_space hobject' hmore htext
    exact object_append_inj hobject hobject' htext.symm

/-- A frame with one object in it. -/
structure Frame (frame text after : Bytes) : Prop where
  object : Object text
  space : Whitespace after
  cut : ∃ before, Whitespace before ∧ frame = before ++ (text ++ after)

/-- Where two texts agree, up to whitespace in front, their first frames have
the same object, and the texts after these objects agree. -/
theorem Frame.peel {space space' frame frame' text text' after after' rest rest' : Bytes}
    (hspace : Whitespace space) (hspace' : Whitespace space') (h : Frame frame text after)
    (h' : Frame frame' text' after') (heq : space ++ (frame ++ rest) = space' ++ (frame' ++ rest')) :
    text = text' ∧ after ++ rest = after' ++ rest' := by
  obtain ⟨before, hbefore, rfl⟩ := h.cut
  obtain ⟨before', hbefore', rfl⟩ := h'.cut
  refine object_after_space (hspace.append hbefore) (hspace'.append hbefore') h.object h'.object ?_
  simpa only [List.append_assoc] using heq

end JsonText

/-! ## What is asked of `serde_json` -/

/-- `serde_json` accepts as an object only optional whitespace, an object of
RFC 8259 and optional whitespace, and the whitespace around a text does not
change what is read. -/
structure SerdeJson.ReadsRfc8259 (serde : SerdeJson) : Prop where
  object : ∀ b m, serde.mapFromSlice b = .ok m →
    ∃ before text after, Whitespace before ∧ Object text ∧ Whitespace after ∧
      b = before ++ (text ++ after)
  around : ∀ before text after v, Whitespace before → Whitespace after →
    (serde.fromSlice (before ++ (text ++ after)) = .ok v ↔ serde.fromSlice text = .ok v)

namespace SerdeJson.ReadsRfc8259

variable {serde : SerdeJson} (hserde : serde.ReadsRfc8259)

include hserde

/-- A frame read as an object has an object in it, which reads the same. -/
theorem frame {frame : Bytes} {m : Map} (h : serde.fromSlice frame = .ok (.object m)) :
    ∃ text after, Frame frame text after ∧ serde.fromSlice text = .ok (.object m) := by
  obtain ⟨before, text, after, hbefore, hobject, hafter, rfl⟩ :=
    hserde.object frame m ((serde.mapFromSlice_ok frame m).mpr h)
  exact ⟨text, after, ⟨hobject, hafter, before, hbefore, rfl⟩,
    (hserde.around before text after _ hbefore hafter).mp h⟩

theorem fromSlice_space {space text : Bytes} {v : Value} (h : Whitespace space) :
    serde.fromSlice (space ++ text) = .ok v ↔ serde.fromSlice text = .ok v := by
  have haround := hserde.around space text [] v h whitespace_nil
  rwa [List.append_nil] at haround

/-- Two frames that agree after some whitespace are read alike. -/
theorem eq_of_space {space space' text text' : Bytes} {v v' : Value} (h : Whitespace space)
    (h' : Whitespace space') (heq : space ++ text = space' ++ text')
    (hread : serde.fromSlice text = .ok v) (hread' : serde.fromSlice text' = .ok v') : v = v' := by
  have hok : serde.fromSlice text' = .ok v := by
    obtain ⟨more, hmore, rfl | rfl⟩ := space_append_eq h h' heq
    · exact (hserde.fromSlice_space hmore).mp hread
    · exact (hserde.fromSlice_space hmore).mpr hread
  rw [hok] at hread'
  exact Except.ok.inj hread'

end SerdeJson.ReadsRfc8259

namespace Session

variable {hmac : HmacSha256} {serde : SerdeJson}

/-! ## The layout stage -/

/-- The checks of `decode` before the signature, and the locals they fill. -/
structure Layout (frames : List Bytes) (checked : Checked) : Prop where
  delimiter : frames.findIdx? (fun part => part = Wire.delimiter) = some checked.delimiter
  length : checked.delimiter + 6 ≤ frames.length
  signature : frames[checked.delimiter + 1]? = some checked.signature
  jsonParts : (frames.drop (checked.delimiter + 2)).take 4 = checked.jsonParts

theorem Layout.parts {frames : List Bytes} {checked : Checked} (h : Layout frames checked) :
    ∃ p : Parts, p.frames = frames ∧
      checked = ⟨p.identities.length, p.signature, p.jsonParts⟩ := by
  obtain ⟨p, rfl⟩ := Parts.exists_of_position h.delimiter h.length
  obtain ⟨position, signature, jsonParts⟩ := checked
  have hposition : p.identities.length = position :=
    Option.some.inj (p.position_frames.symm.trans h.delimiter)
  subst hposition
  have hsignature : p.signature = signature :=
    Option.some.inj (p.frames_signature.symm.trans h.signature)
  have hjson : p.jsonParts = jsonParts := p.frames_jsonParts.symm.trans h.jsonParts
  exact ⟨p, rfl, by rw [hsignature, hjson]⟩

/-- What passes `decode` up to the lock has passed the layout stage. -/
theorem layout_of_check {session : Session} {frames : List Bytes} {checked : Checked}
    (h : session.check hmac frames = pure checked) : Layout frames checked := by
  by_cases hparts : ∃ p : Parts, p.frames = frames
  · obtain ⟨p, rfl⟩ := hparts
    rw [check_frames] at h
    split at h
    · cases h
    · cases h
      have hlength : p.identities.length + 6 ≤ p.frames.length := by
        rw [p.length_frames]
        omega
      exact ⟨p.position_frames, hlength, p.frames_signature, p.frames_jsonParts⟩
  · obtain ⟨error, herror⟩ : ∃ error, session.check hmac frames = throw error :=
      check_of_no_parts hparts
    rw [herror] at h
    cases h

/-- Frames that pass the layout and the JSON stage have parts, and the parts
read as the message. -/
theorem Layout.reads {frames : List Bytes} {checked : Checked} {message : Message}
    (h : Layout frames checked) (hparse : (parse serde frames checked).run = some (.ok message)) :
    ∃ p : Parts, p.jsonParts = checked.jsonParts ∧ p.Reads serde message := by
  obtain ⟨p, rfl, rfl⟩ := h.parts
  rw [parse_frames] at hparse
  exact ⟨p, rfl, Parts.read_eq_ok.mp (Option.some.inj hparse)⟩

/-! ## The signature binds the parts -/

/-- Two lists of frames whose JSON frames are cut from one text: the
signature is the same, and so are the four parts it is about. -/
theorem signature_binds_parts (hserde : serde.ReadsRfc8259) {frames frames' : List Bytes}
    {checked checked' : Checked} {message message' : Message} (hlayout : Layout frames checked)
    (hlayout' : Layout frames' checked')
    (hparse : (parse serde frames checked).run = some (.ok message))
    (hparse' : (parse serde frames' checked').run = some (.ok message'))
    (htext : checked.jsonParts.flatten = checked'.jsonParts.flatten) :
    (∀ session : Session,
      session.signature hmac checked.jsonParts = session.signature hmac checked'.jsonParts) ∧
      message.header = message'.header ∧ message.parentHeader = message'.parentHeader ∧
      message.metadata = message'.metadata ∧ message.content = message'.content := by
  obtain ⟨p, hp, hreads⟩ := hlayout.reads hparse
  obtain ⟨p', hp', hreads'⟩ := hlayout'.reads hparse'
  obtain ⟨text₁, after₁, hframe₁, hread₁⟩ := hserde.frame hreads.header
  obtain ⟨text₁', after₁', hframe₁', hread₁'⟩ := hserde.frame hreads'.header
  obtain ⟨text₂, after₂, hframe₂, hread₂⟩ := hserde.frame hreads.parentHeader
  obtain ⟨text₂', after₂', hframe₂', hread₂'⟩ := hserde.frame hreads'.parentHeader
  obtain ⟨text₃, after₃, hframe₃, hread₃⟩ := hserde.frame hreads.metadata
  obtain ⟨text₃', after₃', hframe₃', hread₃'⟩ := hserde.frame hreads'.metadata
  -- the objects are peeled off one after the other, with the space between them
  have hcut : [] ++ (p.header ++ (p.parentHeader ++ (p.metadata ++ p.content))) =
      [] ++ (p'.header ++ (p'.parentHeader ++ (p'.metadata ++ p'.content))) := by
    rw [← hp, ← hp'] at htext
    simpa [Parts.jsonParts] using htext
  obtain ⟨rfl, hcut₁⟩ := hframe₁.peel whitespace_nil whitespace_nil hframe₁' hcut
  obtain ⟨rfl, hcut₂⟩ := hframe₂.peel hframe₁.space hframe₁'.space hframe₂' hcut₁
  obtain ⟨rfl, hcut₃⟩ := hframe₃.peel hframe₂.space hframe₂'.space hframe₃' hcut₂
  refine ⟨fun session => by rw [signature, signature, htext], ?_, ?_, ?_, ?_⟩
  · exact Value.object.inj (Except.ok.inj (hread₁.symm.trans hread₁'))
  · exact Value.object.inj (Except.ok.inj (hread₂.symm.trans hread₂'))
  · exact Value.object.inj (Except.ok.inj (hread₃.symm.trans hread₃'))
  · exact hserde.eq_of_space hframe₃.space hframe₃'.space hcut₃ hreads.content hreads'.content

/-- A JSON library that does on the texts of the empty object what
`serde_json` does. -/
def spacedObjectJson : SerdeJson where
  toVec
    | .object [] => .ok emptyObject
    | _ => .error ⟨"not the empty object"⟩
  fromSlice b :=
    if b.filter (fun c => !isSpace c) = emptyObject then .ok (.object [])
    else .error ⟨"expected value"⟩
  mapFromSlice b :=
    if b.filter (fun c => !isSpace c) = emptyObject then .ok [] else .error ⟨"expected value"⟩
  mapFromSlice_ok b m := by
    split <;> simp [eq_comm]

theorem filter_space {text : Bytes} (h : Whitespace text) :
    text.filter (fun c => !isSpace c) = [] := by
  rw [List.filter_eq_nil_iff]
  intro b hb
  simp [h b hb]

theorem spacedObjectJson_reads : spacedObjectJson.ReadsRfc8259 where
  object b m h := by
    have hfilter : b.filter (fun c => !isSpace c) = [0x7B, 0x7D] := by
      simp only [spacedObjectJson] at h
      split at h
      · assumption
      · cases h
    have hspace : ∀ {text : Bytes}, (∀ c ∈ text, ¬ (!isSpace c) = true) → Whitespace text := by
      intro text h c hc
      simpa using h c hc
    obtain ⟨before, rest, rfl, hbefore, _, hrest⟩ := List.filter_eq_cons_iff.mp hfilter
    obtain ⟨inside, after, rfl, hinside, _, hafter⟩ := List.filter_eq_cons_iff.mp hrest
    refine ⟨before, 0x7B :: (inside ++ [0x7D]), after, hspace hbefore,
      .emptyObject (hspace hinside), hspace (List.filter_eq_nil_iff.mp hafter), ?_⟩
    simp
  around before text after v hbefore hafter := by
    simp only [spacedObjectJson, List.filter_append, filter_space hbefore, filter_space hafter,
      List.nil_append, List.append_nil]

/-- A space moved from one frame to the next. -/
theorem signature_binds_empty_parts :
    Layout [delimiter, [], ascii "\x7b\x7d ", emptyObject, emptyObject, emptyObject]
        ⟨0, [], [ascii "\x7b\x7d ", emptyObject, emptyObject, emptyObject]⟩ ∧
      Layout [delimiter, [], emptyObject, ascii " \x7b\x7d", emptyObject, emptyObject]
        ⟨0, [], [emptyObject, ascii " \x7b\x7d", emptyObject, emptyObject]⟩ ∧
      secretSession.signature secretHmac
          [ascii "\x7b\x7d ", emptyObject, emptyObject, emptyObject] =
        secretSession.signature secretHmac
          [emptyObject, ascii " \x7b\x7d", emptyObject, emptyObject] := by
  have hlayout : Layout [delimiter, [], ascii "\x7b\x7d ", emptyObject, emptyObject, emptyObject]
      ⟨0, [], [ascii "\x7b\x7d ", emptyObject, emptyObject, emptyObject]⟩ :=
    ⟨rfl, by decide, rfl, rfl⟩
  have hlayout' : Layout [delimiter, [], emptyObject, ascii " \x7b\x7d", emptyObject, emptyObject]
      ⟨0, [], [emptyObject, ascii " \x7b\x7d", emptyObject, emptyObject]⟩ :=
    ⟨rfl, by decide, rfl, rfl⟩
  exact ⟨hlayout, hlayout', (signature_binds_parts spacedObjectJson_reads hlayout hlayout' rfl rfl
    (by decide)).1 secretSession⟩

end Session

end Kernmini.Wire
