/-
Kernmini.Engine.Traces — the trace of an execute request: what a client
sees with the request as the parent.

A trace opens with busy and the input, goes on with what the language
emits, and closes with the outcome, the reply and idle (`ExecuteTrace`).
The halves are built by different functions of the engine; each of them is
shown here to build its half, whatever the path and the silent flag.

The middle part comes from the output pump. `EventsOf` says what a pump
may make of the messages a language emitted: it cuts them into batches,
joins adjacent stream events of a batch, and publishes in order. The flush
at the end of an execution waits until nothing is left (`over_of_flushed`).
-/
import Kernmini.Lib.TaggedLog
import Kernmini.Engine.Output

namespace Kernmini.Engine

open Kernmini.Wire Kernmini.Lib

/-! ## The halves of a trace -/

/-- At most one message, of one of these types. -/
def AtMostOne (msgTypes : List String) (es : List Emission) : Prop :=
  es = [] ∨ ∃ msgType ∈ msgTypes, ∃ content, es = [.iopub msgType content]

/-- Status busy, and at most one `execute_input`. -/
def Opening (es : List Emission) : Prop :=
  ∃ input, es = busy :: input ∧ AtMostOne ["execute_input"] input

/-- At most one error or `execute_result`, one `execute_reply`, status idle;
and there is an error exactly when the reply says so. -/
def Closing (es : List Emission) : Prop :=
  ∃ outcome content, es = outcome ++ [.reply "execute_reply" content, idle] ∧
    AtMostOne ["error", "execute_result"] outcome ∧
    ((∃ error, .iopub "error" error ∈ outcome) ↔
      content.get "status" = some (.string "error"))

/-- The whole trace of an execute request whose language emitted `events`. -/
def ExecuteTrace (events es : List Emission) : Prop :=
  ∃ opening closing, Opening opening ∧ Closing closing ∧ es = opening ++ (events ++ closing)

theorem closing_error {error content : Value}
    (h : content.get "status" = some (.string "error")) :
    Closing [.iopub "error" error, .reply "execute_reply" content, idle] := by
  refine ⟨[.iopub "error" error], content, rfl, Or.inr ⟨"error", by simp, error, rfl⟩, ?_⟩
  simp [h]

theorem closing_reply {content : Value} (h : content.get "status" ≠ some (.string "error")) :
    Closing [.reply "execute_reply" content, idle] :=
  ⟨[], content, rfl, Or.inl rfl, by simp [h]⟩

theorem opening_busy : Opening [busy] := ⟨[], rfl, Or.inl rfl⟩

theorem opening_startExecution (execution : ExecuteRequest) (n : Nat) :
    Opening (startExecution execution n) := by
  unfold startExecution
  split
  · exact opening_busy
  · exact ⟨_, rfl, Or.inr ⟨"execute_input", by simp, _, rfl⟩⟩

theorem opening_beginHold (n : Nat) (request : Message) : Opening (beginHold n request) := by
  unfold beginHold
  split
  · exact opening_busy
  · exact ⟨_, rfl, Or.inr ⟨"execute_input", by simp, _, rfl⟩⟩

theorem closing_finishHold (n : Nat) (releaseStatus : String) :
    Closing (finishHold n releaseStatus).1 := by
  unfold finishHold
  split
  · exact closing_error rfl
  · exact closing_reply (by simp [Value.get, Map.get])

theorem status_errorContent {request : Message} (h : request.isExecute = true) (n : Nat)
    (ename evalue : String) :
    (errorContent request n ename evalue).get "status" = some (.string "error") := by
  have htype : request.msgType = "execute_request" := of_decide_eq_true h
  simp only [errorContent, htype, if_true]
  rfl

/-- The end of an execution, by its outcome or by an adapter error. -/
theorem closing_finishExecution {request : Message} (h : request.isExecute = true)
    (silent : Bool) (n : Nat) (outcome : Except Error ExecuteOutcome) :
    Closing (finishExecution request silent n outcome).1 := by
  cases outcome with
  | error error =>
      have hreq := Message.isRequest_of_isExecute h
      simp only [finishExecution, reportFailure, h, hreq, if_true,
        Message.replyType_of_isExecute h]
      exact closing_error (status_errorContent h n _ _)
  | ok outcome =>
      simp only [finishExecution, executeOutcome]
      split
      · exact closing_error rfl
      · have hok : ∀ expressions payload : Value, (Value.object
            [("status", .string "ok"), ("execution_count", .count n),
              ("user_expressions", expressions), ("payload", payload)]).get "status" ≠
            some (.string "error") := by
          intro expressions payload
          simp [Value.get, Map.get]
        split
        · split
          · exact closing_reply (hok _ _)
          · refine ⟨[_], _, rfl, Or.inr ⟨"execute_result", by simp, _, rfl⟩, ?_⟩
            simp [hok]
        · exact closing_reply (hok _ _)

/-! ### Requests that are answered at once -/

theorem executeTrace_of_closing {es : List Emission} (h : Closing es) :
    ExecuteTrace [] (busy :: es) :=
  ⟨[busy], es, opening_busy, h, rfl⟩

theorem executeTrace_abortExecute (n : Nat) : ExecuteTrace [] (abortExecute n) :=
  executeTrace_of_closing (closing_reply (by simp [Value.get, Map.get]))

theorem executeTrace_interruptExecute (n : Nat) : ExecuteTrace [] (interruptExecute n) :=
  executeTrace_of_closing (closing_error rfl)

theorem executeTrace_replyError {request : Message} (h : request.isExecute = true) (n : Nat)
    (ename evalue : String) :
    ExecuteTrace [] (replyError request (errorContent request n ename evalue)) := by
  simp only [replyError, h, if_true, Message.replyType_of_isExecute h]
  exact executeTrace_of_closing (closing_error (status_errorContent h n ename evalue))

theorem executeTrace_replySubshellError {request : Message} (h : request.isExecute = true)
    (ename evalue : String) :
    ExecuteTrace [] (replySubshellError request ename evalue) := by
  rw [replySubshellError, if_pos (Message.isRequest_of_isExecute h)]
  exact executeTrace_replyError h 0 ename evalue

/-- An opening has no reply, and neither has what a language emits. -/
theorem isReply_of_opening {es : List Emission} (h : Opening es) :
    ∀ e ∈ es, e.isReply = false := by
  obtain ⟨input, rfl, hinput⟩ := h
  intro e he
  rcases List.mem_cons.mp he with rfl | hin
  · rfl
  · rcases hinput with rfl | ⟨msgType, _, content, rfl⟩
    · cases hin
    · rw [List.mem_singleton.mp hin]
      rfl

/-! ## The language's events -/

/-- The messages that come of a list of pump actions; an input request may be
answered or cancelled before it is sent. -/
inductive Performed : List PumpAction → List Emission → Prop
  | nil : Performed [] []
  | publish (p : Publication) {actions : List PumpAction} {es : List Emission}
      (h : Performed actions es) : Performed (.publish p :: actions) (.event p :: es)
  | flush {actions : List PumpAction} {es : List Emission} (h : Performed actions es) :
      Performed (.flush :: actions) es
  | input (prompt : String) (password sent : Bool) {actions : List PumpAction}
      {es : List Emission} (h : Performed actions es) :
      Performed (.input prompt password :: actions)
        ((if sent then [.inputRequest prompt password] else []) ++ es)

theorem Performed.append {actions actions' : List PumpAction} {es es' : List Emission}
    (h : Performed actions es) (h' : Performed actions' es') :
    Performed (actions ++ actions') (es ++ es') := by
  induction h with
  | nil => exact h'
  | publish p _ ih => exact .publish p ih
  | flush _ ih => exact .flush ih
  | input prompt password sent _ ih =>
      rw [List.append_assoc]
      exact .input prompt password sent ih

theorem Performed.isReply {actions : List PumpAction} {es : List Emission}
    (h : Performed actions es) : ∀ e ∈ es, e.isReply = false := by
  induction h with
  | nil => simp
  | publish p _ ih => simpa [Emission.isReply] using ih
  | flush _ ih => exact ih
  | input prompt password sent _ ih =>
      intro e he
      rcases List.mem_append.mp he with hin | hrest
      · split at hin
        · rw [List.mem_singleton.mp hin]
          rfl
        · cases hin
      · exact ih e hrest

/-- `events` is what a pump makes of the emitted messages, up to and with the
flush that follows them: batches in order, adjacent stream events of a
batch joined. -/
def EventsOf (silent : Bool) (emitted : List ContextMessage) (events : List Emission) : Prop :=
  ∃ batches : List (List ContextMessage), batches.flatten = emitted ++ [.flush] ∧
    Performed (batches.flatMap (pumpBatch silent)) events

theorem eventsOf_nil (silent : Bool) : EventsOf silent [] [] :=
  ⟨[[.flush]], rfl, .flush .nil⟩

/-- Where a pump stands: `accepted` is everything put into its channel, `es`
everything it has emitted. -/
def Output.Delivered (silent : Bool) (accepted : List ContextMessage) (es : List Emission)
    (o : Output) : Prop :=
  ∃ (batches : List (List ContextMessage)) (performed : List PumpAction),
    accepted = batches.flatten ++ o.channel ∧
    batches.flatMap (pumpBatch silent) = performed ++ o.actions ∧ Performed performed es

namespace Output

variable {silent : Bool} {accepted : List ContextMessage} {es es' : List Emission}
  {o o' : Output} {l : OutputLabel}

theorem delivered_init : Delivered silent [] [] {} := ⟨[], [], rfl, rfl, .nil⟩

theorem Delivered.accept (h : o.Delivered silent accepted es) (m : ContextMessage) :
    (o.accept m).Delivered silent (accepted ++ [m]) es := by
  obtain ⟨batches, performed, hacc, hacts, hes⟩ := h
  exact ⟨batches, performed, by simp [Output.accept, hacc], hacts, hes⟩

theorem Delivered.step (h : o.Delivered silent accepted es)
    (hstep : o.step silent l = some (o', es')) : o'.Delivered silent accepted (es ++ es') := by
  obtain ⟨batches, performed, hacc, hacts, hes⟩ := h
  have hone : ∀ {action rest es'}, o.actions = action :: rest → Performed [action] es' →
      batches.flatMap (pumpBatch silent) = (performed ++ [action]) ++ rest ∧
        Performed (performed ++ [action]) (es ++ es') := by
    intro action rest es' ho hp
    exact ⟨by rw [hacts, ho]; simp, hes.append hp⟩
  cases step_rule hstep with
  | @recvMany n hactions hpos hle =>
      refine ⟨batches ++ [o.channel.take n], performed, ?_, ?_, by simpa using hes⟩
      · simp [hacc, List.append_assoc]
      · simp [hacts, hactions]
  | @publish sent p rest hactions =>
      obtain ⟨hb, hp⟩ := hone hactions (.publish p .nil)
      exact ⟨batches, _, hacc, hb, hp⟩
  | flush hactions =>
      obtain ⟨hb, hp⟩ := hone hactions (.flush .nil)
      exact ⟨batches, _, hacc, hb, hp⟩
  | @input sent prompt password rest hactions =>
      obtain ⟨hb, hp⟩ := hone hactions (.input prompt password sent .nil)
      rw [List.append_nil] at hp
      exact ⟨batches, _, hacc, hb, hp⟩

theorem Delivered.isReply (h : o.Delivered silent accepted es) : ∀ e ∈ es, e.isReply = false := by
  obtain ⟨_, _, _, _, hes⟩ := h
  exact hes.isReply

/-! ### The flush comes last -/

/-- The language's call is pending: no flush has been asked for. -/
structure Open (o : Output) : Prop where
  flushed : o.flushed = false
  channel : .flush ∉ o.channel
  actions : .flush ∉ o.actions

/-- Nothing is left to do. -/
structure Over (o : Output) : Prop where
  channel : o.channel = []
  actions : o.actions = []

/-- The flush has been asked for and is the last thing to do. -/
inductive Last (o : Output) : Prop
  | channel (hflushed : o.flushed = false) (before : List ContextMessage)
      (hchannel : o.channel = before ++ [.flush]) (hbefore : .flush ∉ before)
      (hactions : .flush ∉ o.actions)
  | actions (hflushed : o.flushed = false) (hchannel : o.channel = [])
      (before : List PumpAction) (hactions : o.actions = before ++ [.flush])
      (hbefore : .flush ∉ before)
  | past (h : o.Over)

theorem open_init : Open {} := ⟨rfl, by simp, by simp⟩

theorem Open.accept (h : o.Open) {m : ContextMessage} (hm : m ≠ .flush) : (o.accept m).Open := by
  refine ⟨h.flushed, ?_, h.actions⟩
  simp [Output.accept, h.channel, hm.symm]

theorem Open.accept_flush (h : o.Open) : (o.accept .flush).Last :=
  .channel h.flushed o.channel rfl h.channel h.actions

theorem Over.step (h : o.Over) : o.step silent l = none := by
  cases l with
  | recvMany n =>
      simp only [Output.step, h.channel, List.length_nil]
      rw [if_neg (by omega)]
  | act sent => simp only [Output.step, h.actions]

theorem Open.step (h : o.Open) (hstep : o.step silent l = some (o', es')) : o'.Open := by
  cases l with
  | recvMany n =>
      cases step_rule hstep with
      | recvMany hactions hpos hle =>
          refine ⟨h.flushed, ?_, ?_⟩
          · exact fun hm => h.channel (List.mem_of_mem_drop hm)
          · exact fun hm => h.channel (List.mem_of_mem_take (flush_mem_pumpBatch.mp hm))
  | act sent =>
      obtain ⟨action, rest, ho, ho', hchannel', hflush⟩ := act_cases hstep
      refine ⟨?_, by rw [hchannel']; exact h.channel, ?_⟩
      · rcases hflush with rfl | hsame
        · exact absurd (by rw [ho]; exact .head _) h.actions
        · rw [hsame, h.flushed]
      · rw [ho']
        exact fun hm => h.actions (by rw [ho]; exact .tail _ hm)

theorem Last.step (h : o.Last) (hstep : o.step silent l = some (o', es')) : o'.Last := by
  cases h with
  | past h =>
      rw [h.step] at hstep
      cases hstep
  | channel hflushed before hchannel hbefore hactions =>
      cases l with
      | recvMany n =>
          cases step_rule hstep with
          | recvMany hnil hpos hle =>
              rw [hchannel, List.length_append, List.length_singleton] at hle
              rcases Nat.lt_or_ge before.length n with hall | hpart
              · have hn' : n = (before ++ [ContextMessage.flush]).length := by
                  rw [List.length_append, List.length_singleton]
                  omega
                refine .actions hflushed ?_ (pumpBatch silent before) ?_ ?_
                · rw [hchannel, hn', List.drop_length]
                · rw [hchannel, hn', List.take_length, pumpBatch_append_flush]
                  rfl
                · exact fun hm => hbefore (flush_mem_pumpBatch.mp hm)
              · refine .channel hflushed (before.drop n) ?_ ?_ ?_
                · rw [hchannel]
                  exact List.drop_append_of_le_length hpart
                · exact fun hm => hbefore (List.mem_of_mem_drop hm)
                · rw [hchannel, List.take_append_of_le_length hpart]
                  exact fun hm => hbefore (List.mem_of_mem_take (flush_mem_pumpBatch.mp hm))
      | act sent =>
          obtain ⟨action, rest, ho, ho', hchannel', hflush⟩ := act_cases hstep
          have hne : action ≠ .flush := by
            rintro rfl
            exact hactions (by rw [ho]; exact .head _)
          have hsame : o'.flushed = o.flushed := by
            rcases hflush with heq | hsame
            · exact absurd heq hne
            · exact hsame
          refine .channel (hsame.trans hflushed) before (hchannel'.trans hchannel) hbefore ?_
          rw [ho']
          exact fun hm => hactions (by rw [ho]; exact .tail _ hm)
  | actions hflushed hchannel before hactions hbefore =>
      cases l with
      | recvMany n =>
          cases step_rule hstep with
          | recvMany hnil hpos hle => simp [hactions] at hnil
      | act sent =>
          obtain ⟨action, rest, ho, ho', hchannel', hflush⟩ := act_cases hstep
          rw [hactions] at ho
          cases before with
          | nil =>
              cases ho
              exact .past ⟨hchannel'.trans hchannel, ho'⟩
          | cons first before =>
              cases ho
              rw [List.mem_cons, not_or] at hbefore
              have hsame : o'.flushed = o.flushed := by
                rcases hflush with heq | hsame
                · exact absurd heq.symm hbefore.1
                · exact hsame
              exact .actions (hsame.trans hflushed) (hchannel'.trans hchannel) before ho'
                hbefore.2

/-- Once the flush is performed, everything accepted before it is out. -/
theorem Last.over_of_flushed (h : o.Last) (hflushed : o.flushed = true) : o.Over := by
  cases h with
  | channel hf | actions hf => rw [hflushed] at hf; cases hf
  | past h => exact h

theorem Delivered.eventsOf (h : o.Delivered silent (accepted ++ [.flush]) es) (hover : o.Over) :
    EventsOf silent accepted es := by
  obtain ⟨batches, performed, hacc, hacts, hes⟩ := h
  rw [hover.channel, List.append_nil] at hacc
  rw [hover.actions, List.append_nil] at hacts
  exact ⟨batches, hacc.symm, by rw [hacts]; exact hes⟩

end Output

end Kernmini.Engine
