/-
Kernmini.Engine.Output — the output pump of an `ExecutionContext`: the
event channel a language fills and the task that drains it in batches,
joins adjacent stream events of one name, and publishes.

An `Output` is the pair of the channel and what is left of the batch the
pump is working on. The channel's capacity is not modelled: a full channel
makes the sender wait and changes nothing else. Events enter while the
language's call is pending; what a language emits after its call returned
is outside this model.
-/
import Kernmini.Engine.Replies
import Kernmini.Lib.Join

namespace Kernmini.Engine

open Kernmini.Wire Kernmini.Lib

/-! ## From context messages to actions -/

/-- `publish_event`: the message an event becomes, or nothing when the
request is silent. -/
def publishEvent (silent : Bool) (e : LanguageEvent) : Option Publication :=
  if silent then none else
  match e with
  | .stream name text =>
      some { msgType := "stream"
             content := .object [("name", .string name), ("text", .string text)] }
  | .display event buffers =>
      if (event.get "type").bind Value.asStr = some "clear_output" then
        some { msgType := "clear_output"
               content := .object [("wait", .bool (event.boolOr "wait" false))]
               buffers := buffers }
      else
        some { msgType :=
                 if event.boolOr "update" false then "update_display_data" else "display_data"
               content := .object
                 [("data", (event.get "data").getD (.object [])),
                  ("metadata", (event.get "metadata").getD (.object [])),
                  ("transient", (event.get "transient").getD (.object []))]
               buffers := buffers }
  | .message msgType content metadata identity buffers =>
      some { msgType := msgType
             content := content
             metadata := metadata.asObject.getD []
             identities := identity.toList
             buffers := buffers }

/-- The joining loop of the pump over one batch. The first argument is the
stream message whose text is being extended. -/
def coalesce : Option (String × String) → List ContextMessage → List ContextMessage
  | none, [] => []
  | some (name, text), [] => [.event (.stream name text)]
  | none, .event (.stream name text) :: rest => coalesce (some (name, text)) rest
  | some (name, text), .event (.stream next more) :: rest =>
      if next = name then coalesce (some (name, text ++ more)) rest
      else .event (.stream name text) :: coalesce (some (next, more)) rest
  | none, message :: rest => message :: coalesce none rest
  | some (name, text), message :: rest =>
      .event (.stream name text) :: message :: coalesce none rest

/-- What the pump does for one message. -/
inductive PumpAction where
  | publish (p : Publication)
  | flush
  | input (prompt : String) (password : Bool)

def pumpAction (silent : Bool) : ContextMessage → Option PumpAction
  | .event e => (publishEvent silent e).map .publish
  | .flush => some .flush
  | .input prompt password => some (.input prompt password)

/-- The actions for one batch. -/
def pumpBatch (silent : Bool) (batch : List ContextMessage) : List PumpAction :=
  (coalesce none batch).filterMap (pumpAction silent)

/-! ### The joining loop as a joining -/

/-- The name of a stream event. -/
def streamName : ContextMessage → Option String
  | .event (.stream name _) => some name
  | _ => none

def glueStream : ContextMessage → ContextMessage → ContextMessage
  | .event (.stream name text), .event (.stream _ more) => .event (.stream name (text ++ more))
  | message, _ => message

theorem streamName_eq_some {m : ContextMessage} {name : String} :
    streamName m = some name ↔ ∃ text, m = .event (.stream name text) := by
  constructor
  · intro h
    unfold streamName at h
    split at h
    · next text =>
        cases h
        exact ⟨text, rfl⟩
    · cases h
  · rintro ⟨text, rfl⟩
    rfl

/-- Stream events of one name are joined by their texts. -/
def streams : Joining ContextMessage String where
  key := streamName
  glue := glueStream
  key_glue ha hb := by
    obtain ⟨text, rfl⟩ := streamName_eq_some.mp ha
    obtain ⟨more, rfl⟩ := streamName_eq_some.mp hb
    rfl
  glue_assoc ha hb hc := by
    obtain ⟨text, rfl⟩ := streamName_eq_some.mp ha
    obtain ⟨more, rfl⟩ := streamName_eq_some.mp hb
    obtain ⟨last, rfl⟩ := streamName_eq_some.mp hc
    simp [glueStream, String.append_assoc]

theorem streams_together {name next text more : String} :
    streams.Together (.event (.stream name text)) (.event (.stream next more)) ↔ name = next := by
  simp [Joining.Together, streams, streamName]

/-- A stream message that the loop meets goes before what is left. -/
theorem streams_push_stream {name text next more : String} (l : List ContextMessage) :
    streams.push (.event (.stream name text)) (streams.push (.event (.stream next more)) l) =
      if next = name then streams.push (.event (.stream name (text ++ more))) l
      else .event (.stream name text) :: streams.push (.event (.stream next more)) l := by
  by_cases h : next = name
  · rw [if_pos h, ← Joining.push_glue (streams_together.mpr h.symm)]
    rfl
  · rw [if_neg h]
    have hne : ∀ more', ¬ streams.Together (.event (.stream name text)) (.event (.stream next more')) :=
      fun more' ht => h (streams_together.mp ht).symm
    cases l with
    | nil => rw [Joining.push_nil, Joining.push_apart (hne more)]
    | cons m rest =>
        by_cases hm : streams.Together (.event (.stream next more)) m
        · obtain ⟨k, hnext, hkey⟩ := hm.keys
          obtain ⟨last, rfl⟩ := streamName_eq_some.mp hkey
          rw [Joining.push_together hm]
          exact Joining.push_apart (hne (more ++ last))
        · rw [Joining.push_apart hm, Joining.push_apart (hne more)]

/-- The joining loop joins the stream events of its batch. -/
theorem coalesce_eq (batch : List ContextMessage) :
    coalesce none batch = streams.join batch ∧ ∀ name text,
      coalesce (some (name, text)) batch =
        streams.push (.event (.stream name text)) (streams.join batch) := by
  induction batch with
  | nil => exact ⟨rfl, fun name text => rfl⟩
  | cons message rest ih =>
      obtain ⟨hnone, hsome⟩ := ih
      rw [Joining.join_cons]
      -- every other message ends the stream before it
      have hother : streams.key message = none → ∀ name text,
          .event (.stream name text) :: message :: coalesce none rest =
            streams.push (.event (.stream name text)) (streams.push message (streams.join rest)) := by
        intro hm name text
        have happart : ¬ streams.Together (.event (.stream name text)) message := by
          rintro ⟨_, hkey⟩
          cases hkey.trans hm
        rw [Joining.push_alone hm, Joining.push_apart happart, hnone]
      cases message with
      | event e =>
          cases e with
          | stream next more =>
              refine ⟨hsome next more, fun name text => ?_⟩
              rw [streams_push_stream, coalesce]
              split
              · exact hsome name (text ++ more)
              · rw [hsome next more]
          | display event buffers =>
              exact ⟨by rw [Joining.push_alone rfl, ← hnone]; rfl, hother rfl⟩
          | message msgType content metadata identity buffers =>
              exact ⟨by rw [Joining.push_alone rfl, ← hnone]; rfl, hother rfl⟩
      | flush => exact ⟨by rw [Joining.push_alone rfl, ← hnone]; rfl, hother rfl⟩
      | input prompt password =>
          exact ⟨by rw [Joining.push_alone rfl, ← hnone]; rfl, hother rfl⟩

theorem coalesce_none (batch : List ContextMessage) : coalesce none batch = streams.join batch :=
  (coalesce_eq batch).1

/-! ## The pump as a transition system -/

/-- The event channel and its pump. -/
structure Output where
  /-- accepted, not yet received by the pump -/
  channel : List ContextMessage := []
  /-- received by the pump, not yet performed -/
  actions : List PumpAction := []
  /-- the pump has performed the flush marker -/
  flushed : Bool := false

/-- The pump's own steps. -/
inductive OutputLabel where
  /-- `recv_many` returns the first `n` messages -/
  | recvMany (n : Nat)
  /-- the next action of the batch; `sent` says whether an input request got
  as far as its peer before it was answered or cancelled -/
  | act (sent : Bool)

/-- The channel accepts a message. -/
def Output.accept (o : Output) (m : ContextMessage) : Output :=
  { o with channel := o.channel ++ [m] }

/-- One step of the pump, with what it emits. -/
def Output.step (silent : Bool) (o : Output) : OutputLabel → Option (Output × List Emission)
  | .recvMany n =>
      if o.actions.isEmpty ∧ 0 < n ∧ n ≤ o.channel.length then
        some ({ o with channel := o.channel.drop n
                       actions := pumpBatch silent (o.channel.take n) }, [])
      else none
  | .act sent =>
      match o.actions with
      | [] => none
      | .publish p :: rest => some ({ o with actions := rest }, [.event p])
      | .flush :: rest => some ({ o with actions := rest, flushed := true }, [])
      | .input prompt password :: rest =>
          some ({ o with actions := rest },
            if sent then [.inputRequest prompt password] else [])

/-- What the pump can do in one step. -/
inductive Output.Rule (silent : Bool) (o : Output) : OutputLabel → Output → List Emission → Prop
  | recvMany {n : Nat} (hactions : o.actions = []) (hpos : 0 < n) (hle : n ≤ o.channel.length) :
      Rule silent o (.recvMany n)
        { o with
          channel := o.channel.drop n
          actions := pumpBatch silent (o.channel.take n) }
        []
  | publish {sent : Bool} {p : Publication} {rest : List PumpAction}
      (hactions : o.actions = .publish p :: rest) :
      Rule silent o (.act sent) { o with actions := rest } [.event p]
  | flush {sent : Bool} {rest : List PumpAction} (hactions : o.actions = .flush :: rest) :
      Rule silent o (.act sent) { o with actions := rest, flushed := true } []
  | input {sent : Bool} {prompt : String} {password : Bool} {rest : List PumpAction}
      (hactions : o.actions = .input prompt password :: rest) :
      Rule silent o (.act sent) { o with actions := rest }
        (if sent then [.inputRequest prompt password] else [])

theorem Output.step_rule {silent : Bool} {o o' : Output} {l : OutputLabel} {es : List Emission}
    (h : o.step silent l = some (o', es)) : Output.Rule silent o l o' es := by
  unfold Output.step at h
  split at h
  · split at h
    · next hn =>
        cases h
        exact .recvMany (List.isEmpty_iff.mp hn.1) hn.2.1 hn.2.2
    · cases h
  · split at h
    · cases h
    · next hactions =>
        cases h
        exact .publish hactions
    · next hactions =>
        cases h
        exact .flush hactions
    · next hactions =>
        cases h
        exact .input hactions

/-- Performing an action takes it off the list, and only the marker sets the
flag. -/
theorem Output.act_cases {silent sent : Bool} {o o' : Output} {es : List Emission}
    (h : o.step silent (.act sent) = some (o', es)) :
    ∃ action rest, o.actions = action :: rest ∧ o'.actions = rest ∧ o'.channel = o.channel ∧
      (action = .flush ∨ o'.flushed = o.flushed) := by
  cases step_rule h with
  | publish hactions => exact ⟨_, _, hactions, rfl, rfl, Or.inr rfl⟩
  | flush hactions => exact ⟨_, _, hactions, rfl, rfl, Or.inl rfl⟩
  | input hactions => exact ⟨_, _, hactions, rfl, rfl, Or.inr rfl⟩

theorem Output.step_no_reply {silent : Bool} {o o' : Output} {l : OutputLabel}
    {es : List Emission} (h : o.step silent l = some (o', es)) :
    ∀ e ∈ es, e.isReply = false := by
  cases step_rule h with
  | recvMany | flush => simp
  | publish => simp [Emission.isReply]
  | input => split <;> simp [Emission.isReply]

/-! ## Flushing -/

/-- A flush marker is on its way, or has been performed. -/
def Output.Flushing (o : Output) : Prop :=
  o.flushed = true ∨ .flush ∈ o.actions ∨ .flush ∈ o.channel

def ContextMessage.isFlush : ContextMessage → Bool
  | .flush => true
  | _ => false

def PumpAction.isFlush : PumpAction → Bool
  | .flush => true
  | _ => false

theorem ContextMessage.isFlush_iff {m : ContextMessage} : m.isFlush = true ↔ m = .flush := by
  cases m <;> simp [isFlush]

theorem PumpAction.isFlush_iff {action : PumpAction} : action.isFlush = true ↔ action = .flush := by
  cases action <;> simp [isFlush]

/-- Joining stream events keeps the flush markers of a batch. -/
theorem countP_pumpBatch (silent : Bool) (batch : List ContextMessage) :
    (pumpBatch silent batch).countP PumpAction.isFlush = batch.countP ContextMessage.isFlush := by
  have hjoin : (streams.join batch).countP ContextMessage.isFlush =
      batch.countP ContextMessage.isFlush :=
    Joining.countP_join (fun m hm => by rw [ContextMessage.isFlush_iff.mp hm]; rfl) batch
  rw [← hjoin, pumpBatch, coalesce_none, List.countP_filterMap]
  refine List.countP_congr fun m _ => ?_
  cases m with
  | event e => cases h : publishEvent silent e <;> simp [pumpAction, h, PumpAction.isFlush,
      ContextMessage.isFlush]
  | flush | input => simp [pumpAction, PumpAction.isFlush, ContextMessage.isFlush]

theorem flush_mem_iff {messages : List ContextMessage} :
    .flush ∈ messages ↔ 0 < messages.countP ContextMessage.isFlush := by
  rw [List.countP_pos_iff]
  simp only [ContextMessage.isFlush_iff, exists_eq_right]

theorem flush_mem_actions_iff {actions : List PumpAction} :
    .flush ∈ actions ↔ 0 < actions.countP PumpAction.isFlush := by
  rw [List.countP_pos_iff]
  simp only [PumpAction.isFlush_iff, exists_eq_right]

theorem flush_mem_pumpBatch {silent : Bool} {batch : List ContextMessage} :
    .flush ∈ pumpBatch silent batch ↔ .flush ∈ batch := by
  rw [flush_mem_actions_iff, countP_pumpBatch, flush_mem_iff]

/-- A flush marker ends the joining of what comes before it. -/
theorem pumpBatch_append_flush (silent : Bool) (batch rest : List ContextMessage) :
    pumpBatch silent (batch ++ .flush :: rest) =
      pumpBatch silent batch ++ .flush :: pumpBatch silent rest := by
  have halone : streams.key ContextMessage.flush = none := rfl
  simp only [pumpBatch, coalesce_none, Joining.join_append_alone halone, List.filterMap_append]
  rfl

/-- The pump never loses a flush marker. -/
theorem Output.flushing_step {silent : Bool} {o o' : Output} {l : OutputLabel}
    {es : List Emission} (hf : o.Flushing) (h : o.step silent l = some (o', es)) :
    o'.Flushing := by
  cases step_rule h with
  | @recvMany n hactions hpos hle =>
      rcases hf with hf | hf | hf
      · exact Or.inl hf
      · simp [hactions] at hf
      · rw [← List.take_append_drop n o.channel] at hf
        rcases List.mem_append.mp hf with ht | hd
        · exact Or.inr (Or.inl (flush_mem_pumpBatch.mpr ht))
        · exact Or.inr (Or.inr hd)
  | publish hactions => simpa [Output.Flushing, hactions] using hf
  | flush hactions => exact Or.inl rfl
  | input hactions => simpa [Output.Flushing, hactions] using hf

theorem Output.flushing_accept {o : Output} (hf : o.Flushing) (m : ContextMessage) :
    (o.accept m).Flushing := by
  rcases hf with hf | hf | hf
  · exact Or.inl hf
  · exact Or.inr (Or.inl hf)
  · exact Or.inr (Or.inr (List.mem_append_left _ hf))

theorem Output.flushing_accept_flush (o : Output) : (o.accept .flush).Flushing :=
  Or.inr (Or.inr (List.mem_append_right _ (List.mem_singleton.mpr rfl)))

/-! ### The pump reaches the marker -/

theorem pumpBatch_length_le (silent : Bool) (batch : List ContextMessage) :
    (pumpBatch silent batch).length ≤ batch.length := by
  have hjoin := streams.length_join_le batch
  rw [← coalesce_none] at hjoin
  exact (List.length_filterMap_le (pumpAction silent) (coalesce none batch)).trans hjoin

/-- What is left for the pump: a message costs a receipt and an action. -/
def Output.work (o : Output) : Nat := 2 * o.channel.length + o.actions.length

/-- Until its flush is performed, the pump can take a step of its own. -/
theorem Output.progress {silent : Bool} {o : Output} (hf : o.Flushing)
    (hnot : o.flushed = false) :
    ∃ l o' es, o.step silent l = some (o', es) ∧ o'.work < o.work := by
  cases hacts : o.actions with
  | nil =>
      have hchannel : .flush ∈ o.channel := by
        rcases hf with hf | hf | hf
        · rw [hnot] at hf
          cases hf
        · simp [hacts] at hf
        · exact hf
      have hpos : 0 < o.channel.length := List.length_pos_of_mem hchannel
      refine ⟨.recvMany o.channel.length,
        { o with channel := o.channel.drop o.channel.length
                 actions := pumpBatch silent (o.channel.take o.channel.length) }, [], ?_, ?_⟩
      · simp only [Output.step, hacts]
        rw [if_pos ⟨rfl, hpos, le_refl _⟩]
      · have hbatch := pumpBatch_length_le silent (o.channel.take o.channel.length)
        simp only [Output.work, hacts, List.drop_length, List.take_length, List.length_nil]
          at hbatch ⊢
        omega
  | cons action rest =>
      have hwork : ∀ flushed, Output.work { o with actions := rest, flushed } < o.work := by
        intro flushed
        simp [Output.work, hacts]
      cases action with
      | publish p =>
          exact ⟨.act true, { o with actions := rest }, [.event p],
            by simp only [Output.step, hacts], hwork o.flushed⟩
      | flush =>
          exact ⟨.act true, { o with actions := rest, flushed := true }, [],
            by simp only [Output.step, hacts], hwork true⟩
      | input prompt password =>
          exact ⟨.act false, { o with actions := rest }, [],
            by simp [Output.step, hacts], hwork o.flushed⟩

end Kernmini.Engine
