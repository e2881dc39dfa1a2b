/-
Kernmini.Dap.ClientSteps — what one step of a `DapClient` can do, in all
(`step_rule`) and to one call (`call_turn`).
-/
import Kernmini.Dap.Client
import Kernmini.Lib.Transition
import Mathlib.Tactic

namespace Kernmini.Dap

open Kernmini.Wire Kernmini.Engine Kernmini.Lib

/-! ## Where a call is -/

/-- The number under which the call has entered the map, until its `drop` is
over. -/
def CallPc.seq? : CallPc → Option UInt64
  | .rechecking seq _ | .sending seq _ | .owned seq | .waiting seq | .closing seq _
  | .removing seq _ => some seq
  | .checking _ | .numbering _ | .advancing _ _ | .inserting _ _ | .returned _ => none

/-- `send` has not returned. -/
def CallPc.inSend : CallPc → Bool
  | .checking _ | .numbering _ | .advancing _ _ | .inserting _ _ | .rechecking _ _ | .sending _ _
  | .closing _ (.failed _) | .removing _ (.failed _) => true
  | .owned _ | .waiting _ | .closing _ _ | .removing _ _ | .returned _ => false

/-- `send` has not found the client open after its insertion. -/
def CallPc.leaving : CallPc → Bool
  | .rechecking _ _ | .closing _ (.failed _) | .removing _ (.failed _) => true
  | _ => false

theorem CallPc.leaving_closing (seq : UInt64) (ending : Ending) :
    (closing seq ending).leaving = (removing seq ending).leaving := by
  cases ending <;> rfl

theorem CallPc.inSend_of_leaving {pc : CallPc} (h : pc.leaving = true) : pc.inSend = true := by
  cases pc with
  | rechecking seq frame => rfl
  | closing seq ending | removing seq ending => cases ending <;> simp_all [leaving, inSend]
  | checking | numbering | advancing | inserting | sending => rfl
  | owned | waiting | returned => cases h

/-- How the call ends, once it does. -/
def CallPc.ending? : CallPc → Option Ending
  | .closing _ ending | .removing _ ending | .returned ending => some ending
  | _ => none

/-- `send` has not reached the map. -/
def CallPc.early : CallPc → Bool
  | .checking _ | .numbering _ | .advancing _ _ | .inserting _ _ => true
  | _ => false

/-- The run of `fail_pending` has set the reason, or found it set, and has
not drained the map. -/
def FailPc.drains : FailPc → Bool
  | .reading | .draining _ => true
  | .setting _ | .finished | .panicked => false

namespace DapClient

variable {serde : SerdeJson} {s t : DapClient} {l : DapLabel} {c d : CallId} {call : Call}

/-! ## What a step can do -/

/-- A step of a call that leaves the map and its channel alone: the place
before and after it, and the counter after it. -/
inductive Moves (serde : SerdeJson) (s : DapClient) (c : CallId)
    (channel : Oneshot (Except Error Value)) : DapLabel → CallPc → CallPc → UInt64 → Prop
  | refused {request : Value} {error : Error} (hclose : s.close = some error) :
      Moves serde s c channel (.advance c) (.checking request) (.returned (.failed error)) s.nextSeq
  | checked {request : Value} (hclose : s.close = none) :
      Moves serde s c channel (.advance c) (.checking request) (.numbering request) s.nextSeq
  | unnumbered {request : Value} {error : Error} {next : UInt64}
      (hseq : requestSequence s.nextSeq request = (.error error, next)) :
      Moves serde s c channel (.advance c) (.numbering request) (.returned (.failed error)) next
  | numbered {request request' : Value} {seq next : UInt64}
      (hseq : requestSequence s.nextSeq request = (.ok (seq, request'), next)) :
      Moves serde s c channel (.advance c) (.numbering request) (.advancing seq request') next
  | tooLarge {request : Value} {seq : UInt64} (hnext : checkedSucc seq = none) :
      Moves serde s c channel (.advance c) (.advancing seq request)
        (.returned (.failed sequenceTooLarge)) s.nextSeq
  | unencoded {request : Value} {seq next : UInt64} {error : Error}
      (hnext : checkedSucc seq = some next) (hframe : encodeMessage serde request = .error error) :
      Moves serde s c channel (.advance c) (.advancing seq request) (.returned (.failed error))
        (max s.nextSeq next)
  | encoded {request : Value} {seq next : UInt64} {frame : Bytes}
      (hnext : checkedSucc seq = some next) (hframe : encodeMessage serde request = .ok frame) :
      Moves serde s c channel (.advance c) (.advancing seq request) (.inserting seq frame)
        (max s.nextSeq next)
  | taken {seq : UInt64} {frame : Bytes} {d : CallId} (hentry : s.pending.lookup seq = some d) :
      Moves serde s c channel (.advance c) (.inserting seq frame)
        (.returned (.failed (alreadyPending seq))) s.nextSeq
  | foundClosed {seq : UInt64} {frame : Bytes} {error : Error} (hclose : s.close = some error) :
      Moves serde s c channel (.advance c) (.rechecking seq frame) (.closing seq (.failed error))
        s.nextSeq
  | foundOpen {seq : UInt64} {frame : Bytes} (hclose : s.close = none) :
      Moves serde s c channel (.advance c) (.rechecking seq frame) (.sending seq frame) s.nextSeq
  | sent {seq : UInt64} {frame : Bytes} (hwriter : s.writerGone = false) :
      Moves serde s c channel (.sent c) (.sending seq frame) (.owned seq) s.nextSeq
  | sendFailed {seq : UInt64} {frame : Bytes} (hwriter : s.writerGone = true) :
      Moves serde s c channel (.sendFailed c) (.sending seq frame)
        (.closing seq (.failed (s.close.getD (Error.closed "DAP connection")))) s.nextSeq
  | wait {seq : UInt64} : Moves serde s c channel (.wait c) (.owned seq) (.waiting seq) s.nextSeq
  | answered {seq : UInt64} {result : Except Error Value} (hresult : channel = .sent result) :
      Moves serde s c channel (.receive c) (.waiting seq) (.closing seq (.waited result)) s.nextSeq
  | lost {seq : UInt64} (hresult : channel = .dropped) :
      Moves serde s c channel (.receive c) (.waiting seq)
        (.closing seq (.waited (.error waitClosed))) s.nextSeq
  | timedOut {seq : UInt64} :
      Moves serde s c channel (.timeout c) (.waiting seq)
        (.closing seq (.waited (.error (waitTimedOut seq)))) s.nextSeq
  | cancelled {seq : UInt64} {frame : Bytes} :
      Moves serde s c channel (.drop c) (.sending seq frame) (.closing seq .abandoned) s.nextSeq
  | dropped {seq : UInt64} :
      Moves serde s c channel (.drop c) (.owned seq) (.closing seq .abandoned) s.nextSeq
  | dropWait {seq : UInt64} :
      Moves serde s c channel (.drop c) (.waiting seq) (.closing seq .abandoned) s.nextSeq

/-- The calls after a drain. -/
def drained (s : DapClient) (reason : Error) (c : CallId) : Option Call :=
  (s.calls c).map (fun call =>
    if c ∈ s.pending.values then { call with channel := call.channel.send (.error reason) } else call)

/-- What one step does. -/
inductive Rule (serde : SerdeJson) (s : DapClient) : DapLabel → DapClient → Prop
  | send {c : CallId} {request : Value} (hnew : s.calls c = none) :
      Rule serde s (.send c request) (s.setCall c { pc := .checking request })
  | move {l : DapLabel} {c : CallId} {call : Call} {pc : CallPc} {next : UInt64}
      (hcall : s.calls c = some call) (hmove : Moves serde s c call.channel l call.pc pc next) :
      Rule serde s l { s.setCall c { call with pc := pc } with nextSeq := next }
  | insert {c : CallId} {call : Call} {seq : UInt64} {frame : Bytes} (hcall : s.calls c = some call)
      (hpc : call.pc = .inserting seq frame) (hfree : s.pending.lookup seq = none) :
      Rule serde s (.advance c)
        { s.setCall c { pc := .rechecking seq frame } with pending := s.pending.insert seq c }
  | close {c : CallId} {call : Call} {seq : UInt64} {ending : Ending} (hcall : s.calls c = some call)
      (hpc : call.pc = .closing seq ending) :
      Rule serde s (.advance c)
        (s.setCall c { pc := .removing seq ending, channel := call.channel.close })
  | remove {c d : CallId} {call owner : Call} {seq : UInt64} {ending : Ending}
      (hcall : s.calls c = some call) (hpc : call.pc = .removing seq ending)
      (hentry : s.pending.lookup seq = some d) (howner : s.calls d = some owner)
      (hclosed : owner.channel = .closed) :
      Rule serde s (.advance c)
        { s.setCall c { call with pc := .returned ending } with pending := s.pending.erase seq }
  | leave {c : CallId} {call : Call} {seq : UInt64} {ending : Ending} (hcall : s.calls c = some call)
      (hpc : call.pc = .removing seq ending)
      (hkeep : ∀ d owner, s.pending.lookup seq = some d → s.calls d = some owner →
        owner.channel ≠ .closed) :
      Rule serde s (.advance c) (s.setCall c { call with pc := .returned ending })
  | event {message : Value} (hevent : isEvent message = true) : Rule serde s (.received message) s
  | unknown {message : Value} (hevent : isEvent message = false)
      (hseq : ∀ seq, requestSeq message = some seq → s.pending.lookup seq = none) :
      Rule serde s (.received message) s
  | respond {message : Value} {seq : UInt64} {c : CallId} (hevent : isEvent message = false)
      (hseq : requestSeq message = some seq) (hentry : s.pending.lookup seq = some c) :
      Rule serde s (.received message)
        { s.complete c (.ok message) with pending := s.pending.erase seq }
  | writerGone : Rule serde s .writerGone { s with writerGone := true }
  | fail {f : FailId} {error : Error} (hnew : s.fails f = none) :
      Rule serde s (.fail f error) (s.setFail f (.setting error))
  | set {f : FailId} {error : Error} (hfail : s.fails f = some (.setting error)) :
      Rule serde s (.failStep f) { s.setFail f .reading with close := some (s.close.getD error) }
  | read {f : FailId} {reason : Error} (hfail : s.fails f = some .reading)
      (hclose : s.close = some reason) : Rule serde s (.failStep f) (s.setFail f (.draining reason))
  | panic {f : FailId} (hfail : s.fails f = some .reading) (hclose : s.close = none) :
      Rule serde s (.failStep f) (s.setFail f .panicked)
  | drain {f : FailId} {reason : Error} (hfail : s.fails f = some (.draining reason)) :
      Rule serde s (.failStep f)
        { s.setFail f .finished with pending := ∅, calls := s.drained reason }

theorem isClosed_iff : s.isClosed c = true ↔ ∃ call, s.calls c = some call ∧ call.channel = .closed := by
  simp [isClosed, Option.any_eq_true]

theorem advance_rule (hcall : s.calls c = some call) (h : s.advance serde c call = some t) :
    Rule serde s (.advance c) t := by
  unfold advance at h
  cases hpc : call.pc with
  | checking request =>
      simp only [hpc] at h
      split at h
      · rename_i error hclose
        cases h
        exact .move hcall (hpc ▸ .refused hclose)
      · rename_i hclose
        cases h
        exact .move hcall (hpc ▸ .checked hclose)
  | numbering request =>
      simp only [hpc] at h
      split at h
      · rename_i error next hseq
        cases h
        exact .move hcall (hpc ▸ .unnumbered hseq)
      · rename_i seq request' next hseq
        cases h
        exact .move hcall (hpc ▸ .numbered hseq)
  | advancing seq request =>
      simp only [hpc] at h
      split at h
      · rename_i hnext
        cases h
        exact .move hcall (hpc ▸ .tooLarge hnext)
      · rename_i next hnext
        split at h
        · rename_i error hframe
          cases h
          exact .move hcall (hpc ▸ .unencoded hnext hframe)
        · rename_i frame hframe
          cases h
          exact .move hcall (hpc ▸ .encoded hnext hframe)
  | inserting seq frame =>
      simp only [hpc] at h
      split at h
      · rename_i d hentry
        cases h
        exact .move hcall (hpc ▸ .taken hentry)
      · rename_i hfree
        cases h
        exact .insert hcall hpc hfree
  | rechecking seq frame =>
      simp only [hpc] at h
      split at h
      · rename_i error hclose
        cases h
        exact .move hcall (hpc ▸ .foundClosed hclose)
      · rename_i hclose
        cases h
        exact .move hcall (hpc ▸ .foundOpen hclose)
  | closing seq ending =>
      simp only [hpc] at h
      cases h
      exact .close hcall hpc
  | removing seq ending =>
      simp only [hpc] at h
      split at h
      · rename_i hclosed
        cases h
        obtain ⟨d, hentry, hd⟩ := Option.any_eq_true _ _ |>.mp hclosed
        obtain ⟨owner, howner, hchannel⟩ := isClosed_iff.mp hd
        exact .remove hcall hpc hentry howner hchannel
      · rename_i hopen
        cases h
        refine .leave hcall hpc (fun d owner hentry howner hclosed => hopen ?_)
        rw [hentry, Option.any_some]
        exact isClosed_iff.mpr ⟨owner, howner, hclosed⟩
  | sending | owned | waiting | returned => simp [hpc] at h

theorem failStep_rule {f : FailId} {pc : FailPc} (hfail : s.fails f = some pc)
    (h : s.failStep f pc = some t) : Rule serde s (.failStep f) t := by
  cases pc with
  | setting error =>
      cases h
      exact .set hfail
  | reading =>
      simp only [failStep] at h
      split at h
      · rename_i reason hclose
        cases h
        exact .read hfail hclose
      · rename_i hclose
        cases h
        exact .panic hfail hclose
  | draining reason =>
      cases h
      exact .drain hfail
  | finished => cases h
  | panicked => cases h

theorem step_rule (h : s.step serde l = some t) : Rule serde s l t := by
  cases l with
  | send c request =>
      simp only [step] at h
      split at h
      · cases h
      · rename_i hnew
        cases h
        exact .send hnew
  | advance c =>
      obtain ⟨call, hcall, h⟩ := Option.bind_eq_some_iff.mp h
      exact advance_rule hcall h
  | sent c =>
      obtain ⟨call, hcall, h⟩ := Option.bind_eq_some_iff.mp h
      split at h
      · rename_i seq frame hpc
        split at h
        · cases h
        · rename_i hwriter
          cases h
          exact .move hcall (hpc ▸ .sent (by simpa using hwriter))
      · cases h
  | sendFailed c =>
      obtain ⟨call, hcall, h⟩ := Option.bind_eq_some_iff.mp h
      split at h
      · rename_i seq frame hpc
        split at h
        · rename_i hwriter
          cases h
          exact .move hcall (hpc ▸ .sendFailed hwriter)
        · cases h
      · cases h
  | wait c =>
      obtain ⟨call, hcall, h⟩ := Option.bind_eq_some_iff.mp h
      split at h
      · rename_i seq hpc
        cases h
        exact .move hcall (hpc ▸ .wait)
      · cases h
  | receive c =>
      obtain ⟨call, hcall, h⟩ := Option.bind_eq_some_iff.mp h
      split at h
      · rename_i seq result hpc hchannel
        cases h
        exact .move hcall (hpc ▸ .answered hchannel)
      · rename_i seq hpc hchannel
        cases h
        exact .move hcall (hpc ▸ .lost hchannel)
      · cases h
  | timeout c =>
      obtain ⟨call, hcall, h⟩ := Option.bind_eq_some_iff.mp h
      split at h
      · rename_i seq hpc
        cases h
        exact .move hcall (hpc ▸ .timedOut)
      · cases h
  | drop c =>
      obtain ⟨call, hcall, h⟩ := Option.bind_eq_some_iff.mp h
      split at h
      · rename_i seq frame hpc
        cases h
        exact .move hcall (hpc ▸ .cancelled)
      · rename_i seq hpc
        cases h
        exact .move hcall (hpc ▸ .dropped)
      · rename_i seq hpc
        cases h
        exact .move hcall (hpc ▸ .dropWait)
      · cases h
  | received message =>
      simp only [step] at h
      split at h
      · rename_i hevent
        cases h
        exact .event hevent
      · rename_i hevent
        have hevent : isEvent message = false := by simpa using hevent
        split at h
        · rename_i hnone
          cases h
          exact .unknown hevent (fun seq hseq => by rw [hnone] at hseq; cases hseq)
        · rename_i seq hseq
          split at h
          · rename_i hfree
            cases h
            refine .unknown hevent (fun seq' hseq' => ?_)
            rw [hseq] at hseq'
            cases hseq'
            exact hfree
          · rename_i c hentry
            cases h
            exact .respond hevent hseq hentry
  | writerGone =>
      cases h
      exact .writerGone
  | fail f error =>
      simp only [step] at h
      split at h
      · cases h
      · rename_i hnew
        cases h
        exact .fail hnew
  | failStep f =>
      obtain ⟨pc, hfail, h⟩ := Option.bind_eq_some_iff.mp h
      exact failStep_rule hfail h

/-! ## One call -/

theorem calls_setCall (s : DapClient) (c d : CallId) (call : Call) :
    (s.setCall c call).calls d = if d = c then some call else s.calls d := by
  simp [setCall, Function.update_apply]

/-- What a step does to the call `c`. -/
inductive CallTurn (serde : SerdeJson) (s : DapClient) (l : DapLabel) (c : CallId) :
    Option Call → Option Call → Prop
  | same {o : Option Call} : CallTurn serde s l c o o
  | begins {request : Value} (hl : l = .send c request) :
      CallTurn serde s l c none (some { pc := .checking request })
  | moves {call : Call} {pc : CallPc} {next : UInt64}
      (hmove : Moves serde s c call.channel l call.pc pc next) :
      CallTurn serde s l c (some call) (some { call with pc := pc })
  | inserted {call : Call} {seq : UInt64} {frame : Bytes} (hl : l = .advance c)
      (hpc : call.pc = .inserting seq frame) :
      CallTurn serde s l c (some call) (some { pc := .rechecking seq frame })
  | closed {call : Call} {seq : UInt64} {ending : Ending} (hl : l = .advance c)
      (hpc : call.pc = .closing seq ending) :
      CallTurn serde s l c (some call)
        (some { pc := .removing seq ending, channel := call.channel.close })
  | returned {call : Call} {seq : UInt64} {ending : Ending} (hl : l = .advance c)
      (hpc : call.pc = .removing seq ending) :
      CallTurn serde s l c (some call) (some { call with pc := .returned ending })
  | answered {call : Call} {message : Value} {seq : UInt64} (hl : l = .received message)
      (hevent : isEvent message = false) (hseq : requestSeq message = some seq)
      (hentry : s.pending.lookup seq = some c) :
      CallTurn serde s l c (some call) (some { call with channel := call.channel.send (.ok message) })
  | failed {call : Call} {f : FailId} {reason : Error} (hl : l = .failStep f)
      (hfail : s.fails f = some (.draining reason)) (hmem : c ∈ s.pending.values) :
      CallTurn serde s l c (some call)
        (some { call with channel := call.channel.send (.error reason) })

/-- The other calls stay as they are. -/
theorem CallTurn.set {o : Option Call} {call' : Call} (ho : s.calls d = o)
    (h : CallTurn serde s l d o (some call')) (c : CallId) :
    CallTurn serde s l c (s.calls c) ((s.setCall d call').calls c) := by
  rw [calls_setCall]
  split
  · rename_i hc
    rw [hc, ho]
    exact h
  · exact .same

theorem call_turn (h : s.step serde l = some t) (c : CallId) :
    CallTurn serde s l c (s.calls c) (t.calls c) := by
  cases step_rule h with
  | send hnew => exact CallTurn.set hnew (.begins rfl) c
  | move hcall hmove => exact CallTurn.set hcall (.moves hmove) c
  | insert hcall hpc hfree => exact CallTurn.set hcall (.inserted rfl hpc) c
  | close hcall hpc => exact CallTurn.set hcall (.closed rfl hpc) c
  | remove hcall hpc | leave hcall hpc => exact CallTurn.set hcall (.returned rfl hpc) c
  | event | unknown => exact .same
  | respond hevent hseq hentry =>
      rename_i message seq d
      show CallTurn serde s _ c (s.calls c) ((s.complete d (.ok message)).calls c)
      unfold complete
      split
      · rename_i call hcall
        exact CallTurn.set hcall (.answered rfl hevent hseq hentry) c
      · exact .same
  | writerGone | fail | set | read | panic => exact .same
  | drain hfail =>
      rename_i f reason
      show CallTurn serde s _ c (s.calls c) (s.drained reason c)
      unfold drained
      cases hcall : s.calls c with
      | none => exact .same
      | some call =>
          rw [Option.map_some]
          split
          · rename_i hmem
            exact .failed rfl hfail hmem
          · exact .same

theorem Moves.label {channel : Oneshot (Except Error Value)} {pc pc' : CallPc} {next : UInt64}
    (h : Moves serde s c channel l pc pc' next) : l.call = some c := by
  cases h <;> rfl

/-- A step of one call leaves the others alone. -/
theorem CallTurn.other {o o' : Option Call} (h : CallTurn serde s l c o o') (hl : l.call = some d)
    (hc : c ≠ d) : o' = o := by
  cases h with
  | same => rfl
  | begins hlabel =>
      rw [hlabel] at hl
      exact absurd (Option.some.inj hl) hc
  | moves hmove =>
      rw [hmove.label] at hl
      exact absurd (Option.some.inj hl) hc
  | inserted hlabel _ | closed hlabel _ | returned hlabel _ =>
      rw [hlabel] at hl
      exact absurd (Option.some.inj hl) hc
  | answered hlabel _ _ _ | failed hlabel _ _ =>
      rw [hlabel] at hl
      cases hl

/-! ## One run of `fail_pending` -/

@[simp] theorem close_complete (s : DapClient) (c : CallId) (result : Except Error Value) :
    (s.complete c result).close = s.close := by
  unfold complete
  split <;> rfl

@[simp] theorem fails_complete (s : DapClient) (c : CallId) (result : Except Error Value) :
    (s.complete c result).fails = s.fails := by
  unfold complete
  split <;> rfl

@[simp] theorem fails_setFail (s : DapClient) (f g : FailId) (pc : FailPc) :
    (s.setFail f pc).fails g = if g = f then some pc else s.fails g := by
  simp [setFail, Function.update_apply]

/-- What a step does to the run `f`. -/
inductive FailTurn (s t : DapClient) : Option FailPc → Option FailPc → Prop
  | same {o : Option FailPc} : FailTurn s t o o
  | begins {error : Error} : FailTurn s t none (some (.setting error))
  | set {error : Error} (hclose : t.close = some (s.close.getD error)) :
      FailTurn s t (some (.setting error)) (some .reading)
  | read {reason : Error} (hclose : s.close = some reason) :
      FailTurn s t (some .reading) (some (.draining reason))
  | panic (hclose : s.close = none) : FailTurn s t (some .reading) (some .panicked)
  | drain {reason : Error} (hempty : t.pending = ∅) :
      FailTurn s t (some (.draining reason)) (some .finished)

theorem FailTurn.set_of {f : FailId} {o : Option FailPc} {pc : FailPc} (ho : s.fails f = o)
    (h : FailTurn s t o (some pc)) (g : FailId) :
    FailTurn s t (s.fails g) ((s.setFail f pc).fails g) := by
  rw [fails_setFail]
  split
  · rename_i hg
    rw [hg, ho]
    exact h
  · exact .same

theorem fail_turn (h : s.step serde l = some t) (f : FailId) :
    FailTurn s t (s.fails f) (t.fails f) := by
  cases step_rule h with
  | fail hnew => exact FailTurn.set_of hnew .begins f
  | set hfail => exact FailTurn.set_of hfail (.set rfl) f
  | read hfail hclose => exact FailTurn.set_of hfail (.read hclose) f
  | panic hfail hclose => exact FailTurn.set_of hfail (.panic hclose) f
  | drain hfail => exact FailTurn.set_of hfail (.drain rfl) f
  | respond hevent hseq hentry =>
      rw [fails_complete]
      exact .same
  | _ => exact .same

/-- The close reason comes from a run of `fail_pending`. -/
theorem set_of_close (h : s.step serde l = some t) (hbefore : s.close = none) (hafter : t.close ≠ none) :
    ∃ f error, s.fails f = some (.setting error) ∧ t.fails f = some .reading := by
  cases step_rule h with
  | set hfail => exact ⟨_, _, hfail, by simp⟩
  | respond hevent hseq hentry => exact absurd (by simpa using hbefore) hafter
  | _ => exact absurd hbefore hafter

end DapClient

end Kernmini.Dap
