/-
Kernmini.Engine.PumpTheorems — the output pump neither loses, reorders nor
invents output, however its messages are cut into batches.

The actions of the pump and those of handling the messages one by one are
the same once adjacent stream publications of one name are joined
(`pump_joined`). `Blocks` says what the pump itself has joined: runs of
stream events of one name, by their texts, and nothing else.
-/
import Kernmini.Engine.Output
import Kernmini.Lib.Transition

namespace Kernmini.Engine

open Kernmini.Wire Kernmini.Lib

/-! ## Joined actions -/

/-- The publication of a stream event. -/
def streamPublication (name text : String) : Publication :=
  { msgType := "stream"
    content := .object [("name", .string name), ("text", .string text)] }

/-- Name and text of a stream publication. -/
def PumpAction.stream : PumpAction → Option (String × String)
  | .publish ⟨msgType, .object [(nameKey, .string name), (textKey, .string text)], [], [], []⟩ =>
      if msgType = "stream" ∧ nameKey = "name" ∧ textKey = "text" then some (name, text) else none
  | _ => none

theorem PumpAction.stream_eq_some {action : PumpAction} {name text : String} :
    action.stream = some (name, text) ↔ action = .publish (streamPublication name text) := by
  constructor
  · intro h
    unfold stream at h
    split at h
    · split at h
      · next hkeys =>
          obtain ⟨rfl, rfl, rfl⟩ := hkeys
          cases h
          rfl
      · cases h
    · cases h
  · rintro rfl
    rfl

def glueAction (a b : PumpAction) : PumpAction :=
  match a.stream, b.stream with
  | some (name, text), some (_, more) => .publish (streamPublication name (text ++ more))
  | _, _ => a

theorem PumpAction.streamName_eq_some {action : PumpAction} {name : String} :
    action.stream.map Prod.fst = some name ↔
      ∃ text, action = .publish (streamPublication name text) := by
  rw [Option.map_eq_some_iff]
  constructor
  · rintro ⟨⟨_, text⟩, h, rfl⟩
    exact ⟨text, stream_eq_some.mp h⟩
  · rintro ⟨text, rfl⟩
    exact ⟨(name, text), rfl, rfl⟩

/-- Adjacent stream publications of one name are joined by their texts. -/
def actionStreams : Joining PumpAction String where
  key action := action.stream.map Prod.fst
  glue := glueAction
  key_glue ha hb := by
    obtain ⟨text, rfl⟩ := PumpAction.streamName_eq_some.mp ha
    obtain ⟨more, rfl⟩ := PumpAction.streamName_eq_some.mp hb
    rfl
  glue_assoc ha hb hc := by
    obtain ⟨text, rfl⟩ := PumpAction.streamName_eq_some.mp ha
    obtain ⟨more, rfl⟩ := PumpAction.streamName_eq_some.mp hb
    obtain ⟨last, rfl⟩ := PumpAction.streamName_eq_some.mp hc
    show PumpAction.publish (streamPublication _ _) = PumpAction.publish (streamPublication _ _)
    rw [String.append_assoc]

/-- What a stream event becomes. -/
theorem pumpAction_stream (silent : Bool) (name text : String) :
    pumpAction silent (.event (.stream name text)) =
      if silent then none else some (.publish (streamPublication name text)) := by
  cases silent <;> rfl

theorem pumpAction_respects (silent : Bool) :
    Joining.Respects streams actionStreams (pumpAction silent) := by
  intro a b hab
  obtain ⟨name, ha, hb⟩ := hab.keys
  obtain ⟨text, rfl⟩ := streamName_eq_some.mp ha
  obtain ⟨more, rfl⟩ := streamName_eq_some.mp hb
  show (_ ∧ _ ∧ pumpAction silent (.event (.stream name (text ++ more))) = none) ∨
    ∃ x y, _ ∧ _ ∧ pumpAction silent (.event (.stream name (text ++ more))) = _ ∧ _
  simp only [pumpAction_stream]
  cases silent with
  | true => exact .inl ⟨rfl, rfl, rfl⟩
  | false => exact .inr ⟨_, _, rfl, rfl, rfl, rfl, rfl⟩

theorem flatMap_pumpBatch (silent : Bool) (batches : List (List ContextMessage)) :
    batches.flatMap (pumpBatch silent) =
      (batches.flatMap streams.join).filterMap (pumpAction silent) := by
  rw [List.filterMap_flatMap]
  refine List.flatMap_congr fun batch _ => ?_
  rw [pumpBatch, coalesce_none]

/-- However the messages are cut, the joined actions are those of handling
them one by one. -/
theorem pump_joined (silent : Bool) (batches : List (List ContextMessage)) :
    actionStreams.join (batches.flatMap (pumpBatch silent)) =
      actionStreams.join (batches.flatten.filterMap (pumpAction silent)) := by
  have hrespects := pumpAction_respects silent
  rw [flatMap_pumpBatch, ← Joining.join_filterMap_join hrespects (batches.flatMap streams.join),
    Joining.join_flatMap_join, Joining.join_filterMap_join hrespects]

theorem flatMap_singletons (silent : Bool) (messages : List ContextMessage) :
    (messages.map (fun m => [m])).flatMap (pumpBatch silent) =
      messages.filterMap (pumpAction silent) := by
  rw [flatMap_pumpBatch]
  congr 1
  induction messages with
  | nil => rfl
  | cons m messages ih =>
      rw [List.map_cons, List.flatMap_cons, ih]
      rfl

/-! ## What the pump joins -/

/-- `handled` is `messages` with runs of stream events of one name joined:
each by the concatenation of its texts. -/
inductive Blocks : List ContextMessage → List ContextMessage → Prop
  | nil : Blocks [] []
  | stream (name text : String) (texts : List String) {messages handled : List ContextMessage}
      (h : Blocks messages handled) :
      Blocks ((text :: texts).map (fun text => .event (.stream name text)) ++ messages)
        (.event (.stream name (String.join (text :: texts))) :: handled)
  | other (m : ContextMessage) (hm : streamName m = none) {messages handled : List ContextMessage}
      (h : Blocks messages handled) : Blocks (m :: messages) (m :: handled)

theorem Blocks.append {messages messages' handled handled' : List ContextMessage}
    (h : Blocks messages handled) (h' : Blocks messages' handled') :
    Blocks (messages ++ messages') (handled ++ handled') := by
  induction h with
  | nil => exact h'
  | stream name text texts _ ih =>
      rw [List.append_assoc]
      exact .stream name text texts ih
  | other m hm _ ih => exact .other m hm ih

/-- A stream event is a run of its own. -/
theorem Blocks.single {messages handled : List ContextMessage} (name text : String)
    (h : Blocks messages handled) :
    Blocks (.event (.stream name text) :: messages) (.event (.stream name text) :: handled) := by
  have hone := Blocks.stream name text [] h
  simpa [String.join] using hone

theorem Blocks.push {messages handled : List ContextMessage} (h : Blocks messages handled)
    (m : ContextMessage) : Blocks (m :: messages) (streams.push m handled) := by
  cases hm : streamName m with
  | none =>
      rw [Joining.push_alone hm]
      exact .other m hm h
  | some name =>
      obtain ⟨text, rfl⟩ := streamName_eq_some.mp hm
      cases h with
      | nil => exact .single name text .nil
      | stream next more texts h =>
          by_cases hname : name = next
          · rw [Joining.push_together (streams_together.mpr hname), hname]
            have hjoin : String.join (text :: more :: texts) = text ++ String.join (more :: texts) := by
              rw [String.join_cons]
            have hblock := Blocks.stream next text (more :: texts) h
            rw [hjoin] at hblock
            exact hblock
          · rw [Joining.push_apart (fun ht => hname (streams_together.mp ht))]
            exact .single name text (.stream next more texts h)
      | other m' hm' h =>
          have happart : ¬ streams.Together (.event (.stream name text)) m' := by
            rintro ⟨_, hkey⟩
            cases hkey.trans hm'
          rw [Joining.push_apart happart]
          exact .single name text (.other m' hm' h)

theorem blocks_join (messages : List ContextMessage) : Blocks messages (streams.join messages) := by
  induction messages with
  | nil => exact .nil
  | cons m messages ih => exact ih.push m

theorem blocks_flatMap (batches : List (List ContextMessage)) :
    Blocks batches.flatten (batches.flatMap (coalesce none)) := by
  induction batches with
  | nil => exact .nil
  | cons batch batches ih =>
      rw [List.flatten_cons, List.flatMap_cons, coalesce_none]
      exact (blocks_join batch).append ih

/-! ## Runs of the pump -/

/-- A channel and its pump, with all that was accepted and performed. -/
structure Pump where
  output : Output := {}
  accepted : List ContextMessage := []
  performed : List PumpAction := []

inductive PumpLabel where
  | accept (m : ContextMessage)
  | pump (l : OutputLabel)

namespace Pump

/-- The action a step of the pump performs. -/
def acts (o : Output) : OutputLabel → List PumpAction
  | .recvMany _ => []
  | .act _ => o.actions.head?.toList

def step (silent : Bool) (s : Pump) : PumpLabel → Option Pump
  | .accept m => some { s with output := s.output.accept m, accepted := s.accepted ++ [m] }
  | .pump l =>
      match s.output.step silent l with
      | some (output, _) => some { s with output, performed := s.performed ++ acts s.output l }
      | none => none

/-- The messages have been cut into batches, and the actions are theirs. -/
def Cut (silent : Bool) (s : Pump) (batches : List (List ContextMessage)) : Prop :=
  (∀ batch ∈ batches, batch ≠ []) ∧ s.accepted = batches.flatten ++ s.output.channel ∧
    s.performed ++ s.output.actions = batches.flatMap (pumpBatch silent)

theorem cut_step {silent : Bool} {s s' : Pump} {l : PumpLabel}
    {batches : List (List ContextMessage)} (h : s.Cut silent batches)
    (hstep : s.step silent l = some s') : ∃ batches', s'.Cut silent batches' := by
  obtain ⟨hne, hacc, hacts⟩ := h
  cases l with
  | accept m =>
      cases hstep
      exact ⟨batches, hne, by simp [hacc, Output.accept], hacts⟩
  | pump l =>
      simp only [step] at hstep
      split at hstep
      · next output es hout =>
          cases hstep
          cases l with
          | recvMany n =>
              cases Output.step_rule hout with
              | recvMany hactions hpos hle =>
                  refine ⟨batches ++ [s.output.channel.take n], fun batch hbatch => ?_, ?_, ?_⟩
                  · rcases List.mem_append.mp hbatch with hold | hnew
                    · exact hne batch hold
                    · rw [List.mem_singleton.mp hnew]
                      have hlen : (s.output.channel.take n).length = n :=
                        List.length_take_of_le hle
                      exact List.ne_nil_of_length_pos (by omega)
                  · simp [hacc]
                  · rw [hactions, List.append_nil] at hacts
                    simp [acts, hacts]
          | act sent =>
              obtain ⟨action, rest, hactions, hrest, hchannel, _⟩ := Output.act_cases hout
              refine ⟨batches, hne, by rw [hchannel]; exact hacc, ?_⟩
              simp [acts, hactions, hrest, ← hacts]
      · cases hstep

theorem cut_of_run {silent : Bool} {ls : List PumpLabel} {t : Pump}
    (hrun : run (step silent) {} ls = some t) : ∃ batches, t.Cut silent batches := by
  have hstep : ∀ a l b, (∃ batches, Cut silent a batches) → step silent a l = some b →
      ∃ batches, Cut silent b batches := by
    rintro a l b ⟨batches, h⟩ hab
    exact cut_step h hab
  exact run_invariant hstep hrun ⟨[], by simp, rfl, rfl⟩

end Pump

/-- The pump performs what handling the messages one by one would, whatever
the batching, once adjacent stream publications of one name are joined. -/
theorem pump_keeps_output (silent : Bool) :
    (∀ batches : List (List ContextMessage),
      actionStreams.join (batches.flatMap (pumpBatch silent)) =
        actionStreams.join (batches.flatten.filterMap (pumpAction silent)) ∧
      -- the pump joins runs of stream events of one name, and nothing else
      batches.flatMap (pumpBatch silent) =
        (batches.flatMap (coalesce none)).filterMap (pumpAction silent) ∧
      Blocks batches.flatten (batches.flatMap (coalesce none)) ∧
      -- joined further, each stream is one run between two other messages
      streams.join (batches.flatMap (coalesce none)) = streams.join batches.flatten ∧
      Blocks batches.flatten (streams.join batches.flatten) ∧
      (streams.join batches.flatten).IsChain (fun a b => ¬ streams.Together a b)) ∧
    ∀ ls t, run (Pump.step silent) {} ls = some t →
      -- a run of the pump has cut what it received into batches
      (∃ batches, t.Cut silent batches) ∧
      actionStreams.join (t.performed ++ t.output.actions ++
          t.output.channel.filterMap (pumpAction silent)) =
        actionStreams.join (t.accepted.filterMap (pumpAction silent)) := by
  have hcoalesce : coalesce none = streams.join := funext coalesce_none
  refine ⟨fun batches => ⟨pump_joined silent batches, ?_, blocks_flatMap batches, ?_,
    blocks_join batches.flatten, Joining.isChain_join batches.flatten⟩, fun ls t hrun => ?_⟩
  · rw [flatMap_pumpBatch, hcoalesce]
  · rw [hcoalesce, Joining.join_flatMap_join]
  · obtain ⟨batches, hne, hacc, hacts⟩ := Pump.cut_of_run hrun
    -- what is still in the channel counts as batches of one message
    have hjoined := pump_joined silent (batches ++ t.output.channel.map (fun m => [m]))
    have hflatten : (t.output.channel.map (fun m => [m])).flatten = t.output.channel := by
      rw [← List.flatMap_def, List.flatMap_singleton']
    rw [List.flatMap_append, flatMap_singletons, List.flatten_append, hflatten, ← hacts,
      ← hacc] at hjoined
    exact ⟨⟨batches, hne, hacc, hacts⟩, hjoined⟩

/-- Two writes to stdout in one batch, with a flush after them. -/
theorem pump_keeps_output_one_batch :
    ∃ t, run (Pump.step false) {}
        [.accept (.event (.stream "stdout" "a")), .accept (.event (.stream "stdout" "b")),
          .accept .flush, .pump (.recvMany 3), .pump (.act true)] = some t ∧
      t.performed = [.publish (streamPublication "stdout" "ab")] ∧
      actionStreams.join (t.performed ++ t.output.actions ++
          t.output.channel.filterMap (pumpAction false)) =
        actionStreams.join (t.accepted.filterMap (pumpAction false)) := by
  have hrun : run (Pump.step false) {}
      [.accept (.event (.stream "stdout" "a")), .accept (.event (.stream "stdout" "b")),
        .accept .flush, .pump (.recvMany 3), .pump (.act true)] = some _ := rfl
  exact ⟨_, hrun, rfl, ((pump_keeps_output false).2 _ _ hrun).2⟩

end Kernmini.Engine
