/-
Kernmini.Engine.HandlerCalls — the calls of the interrupt handler over every
interleaving of `request`, `set_handler` and `cancelled`.

  * the first section of a `request` decides which one returns `true`, the
    first section of a `set_handler` which one registers;
  * a request behind the registration holds the registered handler and calls
    it once, and one before it holds none; the registration makes up for
    those with one call (`calls_perm`);
  * once a request has notified, no waiter is parked without a notification
    (`NoneMissed`).
-/
import Mathlib.Data.List.Perm.Basic
import Kernmini.Engine.ExecutionInterrupt
import Kernmini.Lib.FirstWins

namespace Kernmini.Engine

open Kernmini.Lib

variable {η : Type*}

/-! ## What a run did -/

/-- The request whose section the label is. -/
def InterruptLabel.requestOf : InterruptLabel η → Option Nat
  | .request c => some c
  | _ => none

/-- The `set_handler` whose section the label is. -/
def InterruptLabel.setterOf : InterruptLabel η → Option Nat
  | .setHandler k _ => some k
  | _ => none

/-- The requests of a run, in the order of their sections. -/
def requestsIn (ls : List (InterruptLabel η)) : List Nat := ls.filterMap InterruptLabel.requestOf

/-- The calls of `set_handler` of a run, in the order of their sections. -/
def settersIn (ls : List (InterruptLabel η)) : List Nat := ls.filterMap InterruptLabel.setterOf

theorem requestsIn_append (ls ls' : List (InterruptLabel η)) :
    requestsIn (ls ++ ls') = requestsIn ls ++ requestsIn ls' := List.filterMap_append

theorem requestsIn_concat (ls : List (InterruptLabel η)) (l : InterruptLabel η) :
    requestsIn (ls ++ [l]) = requestsIn ls ++ l.requestOf.toList := by
  cases l <;> simp [requestsIn, InterruptLabel.requestOf]

theorem settersIn_concat (ls : List (InterruptLabel η)) (l : InterruptLabel η) :
    settersIn (ls ++ [l]) = settersIn ls ++ l.setterOf.toList := by
  cases l <;> simp [settersIn, InterruptLabel.setterOf]

theorem requestsIn_concat_of_none {ls : List (InterruptLabel η)} {l : InterruptLabel η}
    (h : l.requestOf = none) : requestsIn (ls ++ [l]) = requestsIn ls := by
  simp [requestsIn_concat, h]

theorem settersIn_concat_of_none {ls : List (InterruptLabel η)} {l : InterruptLabel η}
    (h : l.setterOf = none) : settersIn (ls ++ [l]) = settersIn ls := by
  simp [settersIn_concat, h]

/-- The steps of a request behind its section. -/
inductive InterruptLabel.OfRequest (c : Nat) : InterruptLabel η → Prop
  | notify : OfRequest c (.notify c)
  | finish : OfRequest c (.finish c)

/-- The steps of a `set_handler` behind its section. -/
inductive InterruptLabel.OfSetter (k : Nat) : InterruptLabel η → Prop
  | finishSet : OfSetter k (.finishSet k)

/-- The steps of a call of `cancelled`. -/
inductive InterruptLabel.OfWaiter (w : Nat) : InterruptLabel η → Prop
  | enable : OfWaiter w (.enable w)
  | check : OfWaiter w (.check w)
  | poll : OfWaiter w (.poll w)

/-- What a request returns. -/
def RequestCall.first : RequestCall η → Bool
  | .notifying first _ => first
  | .calling first _ => first
  | .returned first => first

/-- The request is behind its notification. -/
def RequestCall.notified : RequestCall η → Bool
  | .notifying _ _ => false
  | _ => true

/-- A request that has yet to call its handler holds this one. -/
def RequestCall.Holds (handler : Option η) : RequestCall η → Prop
  | .notifying _ held => held = handler
  | .calling _ held => held = handler
  | .returned _ => True

/-- The `set_handler` has registered its handler. -/
def SetHandlerCall.registers : SetHandlerCall η → Bool
  | .returned (.error _) => false
  | _ => true

namespace ExecutionInterrupt

/-- Who has called a handler. -/
def callers (s : ExecutionInterrupt η) : List Caller := s.calls.map Prod.fst

/-- The request has returned. -/
def Answered (s : ExecutionInterrupt η) (c : Nat) : Prop :=
  ∃ first, s.requests c = some (.returned first)

/-- Every call has returned. -/
structure Settled (s : ExecutionInterrupt η) : Prop where
  requests : ∀ c call, s.requests c = some call → ∃ first, call = .returned first
  setters : ∀ k call, s.setters k = some call → ∃ result, call = .returned result

/-! ## What a step does -/

/-- What a step does to the calls; the steps of the waiters do nothing. -/
inductive Move (s : ExecutionInterrupt η) : InterruptLabel η → ExecutionInterrupt η → Prop
  | request (c : Nat) (hnew : s.requests c = none) :
      Move s (.request c)
        { s.setRequest c (.notifying (!s.requested) s.handler) with requested := true }
  | notify (c : Nat) (first : Bool) (handler : Option η) (waiters : Nat → Option (Waiter Unit))
      (hc : s.requests c = some (.notifying first handler)) :
      Move s (.notify c) { s.setRequest c (.calling first handler) with waiters := waiters }
  | finish (c : Nat) (first : Bool) (handler : Option η)
      (hc : s.requests c = some (.calling first handler)) :
      Move s (.finish c)
        { s.setRequest c (.returned first) with
          calls := s.calls ++ (handler.map (fun h => (Caller.request c, h))).toList }
  | register (k : Nat) (h : η) (hnew : s.setters k = none) (hfree : s.handler = none) :
      Move s (.setHandler k h) { s.setSetter k (.calling s.requested h) with handler := some h }
  | refuse (k : Nat) (h registered : η) (hnew : s.setters k = none)
      (htaken : s.handler = some registered) :
      Move s (.setHandler k h) (s.setSetter k (.returned (.error alreadyRegistered)))
  | finishSet (k : Nat) (requested : Bool) (h : η)
      (hk : s.setters k = some (.calling requested h)) :
      Move s (.finishSet k)
        { s.setSetter k (.returned (.ok ())) with
          calls := s.calls ++ if requested then [(Caller.setHandler k, h)] else [] }
  | wait (l : InterruptLabel η) (waiters : Nat → Option (Waiter Unit)) (hreq : l.requestOf = none)
      (hset : l.setterOf = none) : Move s l { s with waiters := waiters }

variable {s t : ExecutionInterrupt η} {l : InterruptLabel η}

theorem move_of_step (h : step s l = some t) : Move s l t := by
  cases l with
  | request c =>
      simp only [step] at h
      split at h
      · next hnew =>
          cases h
          exact .request c hnew
      · cases h
  | notify c =>
      simp only [step] at h
      split at h
      · next first handler hc =>
          cases h
          exact .notify c first handler _ hc
      · cases h
  | finish c =>
      simp only [step] at h
      split at h
      · next first handler hc =>
          cases h
          exact .finish c first handler hc
      · cases h
  | setHandler k handler =>
      simp only [step] at h
      split at h
      · next hnew hfree =>
          cases h
          exact .register k handler hnew hfree
      · next registered hnew htaken =>
          cases h
          exact .refuse k handler registered hnew htaken
      · cases h
  | finishSet k =>
      simp only [step] at h
      split at h
      · next requested handler hk =>
          cases h
          exact .finishSet k requested handler hk
      · cases h
  | cancelled | poll | drop =>
      simp only [step] at h
      split at h
      · cases h
        exact .wait _ _ rfl rfl
      · cases h
  | enable | check =>
      obtain ⟨waiter, _, rfl⟩ := Option.map_eq_some_iff.mp h
      exact .wait _ _ rfl rfl

/-! ## Who is first and who registers -/

/-- The calls there are, and what their sections have decided. -/
structure Decided (ls : List (InterruptLabel η)) (s : ExecutionInterrupt η) : Prop where
  requests : FirstWins RequestCall.first (requestsIn ls) s.requests
  setters : FirstWins SetHandlerCall.registers (settersIn ls) s.setters
  requested : s.requested = true ↔ requestsIn ls ≠ []
  handler : s.handler = none ↔ settersIn ls = []
  refused : ∀ k error, s.setters k = some (.returned (.error error)) → error = alreadyRegistered

theorem decided_nil : Decided [] ({} : ExecutionInterrupt η) where
  requests := FirstWins.nil
  setters := FirstWins.nil
  requested := by simp [requestsIn]
  handler := by simp [settersIn]
  refused := by simp

section

variable {ls : List (InterruptLabel η)}

theorem Decided.of_unlisted (hd : Decided ls s) (hreq : l.requestOf = none)
    (hset : l.setterOf = none) : Decided (ls ++ [l]) s := by
  obtain ⟨hrequests, hsetters, hrequested, hhandler, hrefused⟩ := hd
  constructor <;> simpa [requestsIn_concat, settersIn_concat, hreq, hset]

/-- A `set_handler` goes on, and is refused only for the one reason. -/
theorem refused_update {setters : Nat → Option (SetHandlerCall η)} {k : Nat}
    {call : SetHandlerCall η}
    (hrefused : ∀ k error, setters k = some (.returned (.error error)) → error = alreadyRegistered)
    (hcall : ∀ error, call = .returned (.error error) → error = alreadyRegistered) :
    ∀ k' error, Function.update setters k (some call) k' = some (.returned (.error error)) →
      error = alreadyRegistered := by
  intro k' error hk'
  by_cases heq : k' = k
  · rw [heq, Function.update_self] at hk'
    exact hcall error (Option.some.inj hk')
  · rw [Function.update_of_ne heq] at hk'
    exact hrefused k' error hk'

theorem Decided.step (hd : Decided ls s) (h : step s l = some t) : Decided (ls ++ [l]) t := by
  obtain ⟨hrequests, hsetters, hrequested, hhandler, hrefused⟩ := hd
  cases move_of_step h with
  | request c hnew =>
      have hfirst : RequestCall.first (.notifying (!s.requested) s.handler) = true ↔
          requestsIn ls = [] := by
        rw [RequestCall.first, Bool.not_eq_true', ← Bool.not_eq_true, hrequested, not_not]
      constructor
      · rw [requestsIn_concat]
        exact hrequests.open_call hnew hfirst
      · rw [settersIn_concat_of_none rfl]
        exact hsetters
      · simp [requestsIn_concat, InterruptLabel.requestOf]
      · rw [settersIn_concat_of_none rfl]
        exact hhandler
      · exact hrefused
  | notify c first handler waiters hc =>
      exact Decided.of_unlisted ⟨hrequests.advance hc rfl, hsetters, hrequested, hhandler, hrefused⟩
        rfl rfl
  | finish c first handler hc =>
      exact Decided.of_unlisted ⟨hrequests.advance hc rfl, hsetters, hrequested, hhandler, hrefused⟩
        rfl rfl
  | register k handler hnew hfree =>
      have hwins : SetHandlerCall.registers (.calling s.requested handler) = true ↔
          settersIn ls = [] := by
        simp [SetHandlerCall.registers, hhandler.mp hfree]
      constructor
      · rw [requestsIn_concat_of_none rfl]
        exact hrequests
      · rw [settersIn_concat]
        exact hsetters.open_call hnew hwins
      · rw [requestsIn_concat_of_none rfl]
        exact hrequested
      · simp [settersIn_concat, InterruptLabel.setterOf]
      · exact refused_update hrefused (by simp)
  | refuse k handler registered hnew htaken =>
      have hlost : SetHandlerCall.registers (.returned (.error alreadyRegistered) : SetHandlerCall η)
          = true ↔ settersIn ls = [] := by
        simp [SetHandlerCall.registers, ← hhandler, htaken]
      constructor
      · rw [requestsIn_concat_of_none rfl]
        exact hrequests
      · rw [settersIn_concat]
        exact hsetters.open_call hnew hlost
      · rw [requestsIn_concat_of_none rfl]
        exact hrequested
      · simp [settersIn_concat, InterruptLabel.setterOf, setSetter, htaken]
      · exact refused_update hrefused (by simp [eq_comm])
  | finishSet k requested handler hk =>
      exact Decided.of_unlisted ⟨hrequests, hsetters.advance hk rfl, hrequested, hhandler,
        refused_update hrefused (by simp)⟩ rfl rfl
  | wait l waiters hreq hset =>
      exact Decided.of_unlisted ⟨hrequests, hsetters, hrequested, hhandler, hrefused⟩ hreq hset

theorem decided (h : run ExecutionInterrupt.step {} ls = some s) : Decided ls s :=
  run_history (fun _ _ _ _ => Decided.step) h decided_nil

end

/-! ## Which handler is called by whom -/

/-- Before the registration no request holds a handler. -/
structure Bare (s : ExecutionInterrupt η) : Prop where
  handler : s.handler = none
  setters : ∀ k, s.setters k = none
  holds : ∀ c call, s.requests c = some call → call.Holds none
  calls : s.calls = []

/-- `set_handler` call `k` has registered `h`; `early` tells whether there
were requests before it, and `ls` are the labels since. -/
structure Registered (k : Nat) (h : η) (early : Bool) (ls : List (InterruptLabel η))
    (s : ExecutionInterrupt η) : Prop where
  handler : s.handler = some h
  registrar : s.setters k = some (.calling early h) ∨ s.setters k = some (.returned (.ok ()))
  others : ∀ k' early' h', s.setters k' = some (.calling early' h') → k' = k
  opened : ∀ c ∈ requestsIn ls, ∃ call, s.requests c = some call
  holds : ∀ c call, s.requests c = some call →
    call.Holds (if c ∈ requestsIn ls then some h else none)
  same : ∀ entry ∈ s.calls, entry.2 = h
  nodup : s.callers.Nodup
  request : ∀ c, Caller.request c ∈ s.callers ↔ c ∈ requestsIn ls ∧ s.Answered c
  setHandler : ∀ k', Caller.setHandler k' ∈ s.callers ↔
    k' = k ∧ early = true ∧ s.setters k = some (.returned (.ok ()))

theorem holds_update {requests : Nat → Option (RequestCall η)} {held : Nat → Option η} {c : Nat}
    {call : RequestCall η}
    (hholds : ∀ c call, requests c = some call → call.Holds (held c)) (hcall : call.Holds (held c)) :
    ∀ c' call', Function.update requests c (some call) c' = some call' →
      call'.Holds (held c') := by
  intro c' call' hc'
  by_cases heq : c' = c
  · rw [heq, Function.update_self] at hc'
    rw [heq, ← Option.some.inj hc']
    exact hcall
  · rw [Function.update_of_ne heq] at hc'
    exact hholds c' call' hc'

theorem opened_update {requests : Nat → Option (RequestCall η)} {ids : List Nat} {c : Nat}
    {call : RequestCall η} (hopened : ∀ c ∈ ids, ∃ call, requests c = some call) :
    ∀ c' ∈ ids ++ [c], ∃ call', Function.update requests c (some call) c' = some call' := by
  intro c' hc'
  by_cases heq : c' = c
  · exact ⟨call, by simp [heq]⟩
  · simpa [heq] using hopened c' (by simpa [heq] using hc')

/-- A request that goes on without returning. -/
theorem answered_setRequest {c : Nat} {call : RequestCall η} (hnot : ¬ s.Answered c)
    (hcall : ∀ first, call ≠ .returned first) (c' : Nat) :
    (s.setRequest c call).Answered c' ↔ s.Answered c' := by
  by_cases heq : c' = c
  · simp only [heq, hnot, iff_false]
    simpa [Answered, setRequest] using hcall
  · simp [Answered, setRequest, heq]

/-- A request that returns. -/
theorem answered_returned {c : Nat} {first : Bool} (c' : Nat) :
    (s.setRequest c (.returned first)).Answered c' ↔ c' = c ∨ s.Answered c' := by
  by_cases heq : c' = c
  · simp [Answered, setRequest, heq]
  · simp [Answered, setRequest, heq]

section

/-! One more call of the registered handler, or none. -/

variable {who who' : Caller} {handler : η} {p : Prop} [Decidable p]

theorem mem_called : who' ∈ (s.calls ++ if p then [(who, handler)] else []).map Prod.fst ↔
    who' ∈ s.callers ∨ p ∧ who' = who := by
  by_cases hp : p <;> simp [callers, hp]

theorem called_same (hsame : ∀ entry ∈ s.calls, entry.2 = handler) :
    ∀ entry ∈ s.calls ++ if p then [(who, handler)] else [], entry.2 = handler := by
  by_cases hp : p
  · simpa [hp, or_imp, forall_and] using hsame
  · simpa [hp] using hsame

theorem called_nodup (hnodup : s.callers.Nodup) (hnot : who ∉ s.callers) :
    ((s.calls ++ if p then [(who, handler)] else []).map Prod.fst).Nodup := by
  by_cases hp : p
  · simpa [hp, callers] using hnodup.concat hnot
  · simpa [hp, callers] using hnodup

end

theorem bare_init : Bare ({} : ExecutionInterrupt η) := by
  constructor <;> simp

/-- Only a `set_handler` ends the time before the registration. -/
theorem Bare.step (hb : Bare s) (h : step s l = some t) (hl : l.setterOf = none) : Bare t := by
  obtain ⟨hhandler, hsetters, hholds, hcalls⟩ := hb
  cases move_of_step h with
  | request c hnew => exact ⟨hhandler, hsetters, holds_update hholds hhandler, hcalls⟩
  | notify c first handler waiters hc =>
      have hnone : handler = none := hholds c _ hc
      exact ⟨hhandler, hsetters, holds_update hholds hnone, hcalls⟩
  | finish c first handler hc =>
      have hnone : handler = none := hholds c _ hc
      exact ⟨hhandler, hsetters, holds_update hholds trivial, by simp [hcalls, hnone]⟩
  | register | refuse => cases hl
  | finishSet k requested handler hk => simp [hsetters k] at hk
  | wait l waiters hreq hset => exact ⟨hhandler, hsetters, hholds, hcalls⟩

theorem bare_of_run {ls : List (InterruptLabel η)} (h : run step {} ls = some s)
    (hls : settersIn ls = []) : Bare s := by
  have hbare : settersIn ([] ++ ls) = [] → Bare s := by
    refine @run_history _ _ step (fun ls s => settersIn ls = [] → Bare s) ?_ ls [] {} s h
      (fun _ => bare_init)
    intro before a l b ha hstep hnil
    rw [settersIn_concat, List.append_eq_nil_iff] at hnil
    exact (ha hnil.1).step hstep (by simpa using hnil.2)
  exact hbare hls

section

variable {k : Nat} {handler : η} {early : Bool} {ls : List (InterruptLabel η)}

/-- The section of the first `set_handler`. -/
theorem Bare.register (hb : Bare s) (h : s.step (.setHandler k handler) = some t) :
    Registered k handler s.requested [] t := by
  obtain ⟨hhandler, hsetters, hholds, hcalls⟩ := hb
  cases move_of_step h with
  | register k handler hnew hfree =>
      constructor
      · rfl
      · exact .inl (by simp [setSetter])
      · intro k' early' h' hk'
        by_contra hne
        simp [setSetter, hne, hsetters] at hk'
      · simp [requestsIn]
      · simpa [requestsIn, setSetter] using hholds
      · simp [setSetter, hcalls]
      · simp [callers, setSetter, hcalls]
      · simp [callers, setSetter, hcalls, requestsIn]
      · simp [callers, setSetter, hcalls]
  | refuse k handler registered hnew htaken => simp [hhandler] at htaken
  | wait l waiters hreq hset => cases hset

theorem Registered.of_unlisted (hr : Registered k handler early ls s) (hreq : l.requestOf = none) :
    Registered k handler early (ls ++ [l]) s := by
  obtain ⟨hhandler, hregistrar, hothers, hopened, hholds, hsame, hnodup, hrequest, hset⟩ := hr
  rw [← requestsIn_concat_of_none hreq] at hopened hholds hrequest
  exact ⟨hhandler, hregistrar, hothers, hopened, hholds, hsame, hnodup, hrequest, hset⟩

/-- A step behind the registration. -/
theorem Registered.step (hr : Registered k handler early ls s) (h : s.step l = some t) :
    Registered k handler early (ls ++ [l]) t := by
  obtain ⟨hhandler, hregistrar, hothers, hopened, hholds, hsame, hnodup, hrequest, hset⟩ := hr
  cases move_of_step h with
  | request c hnew =>
      have hc : c ∉ requestsIn ls := fun hmem => by simpa [hnew] using hopened c hmem
      have hanswered : ∀ c', (s.setRequest c (.notifying (!s.requested) s.handler)).Answered c' ↔
          s.Answered c' := answered_setRequest (by simp [Answered, hnew]) (by simp)
      have hids : requestsIn (ls ++ [.request c]) = requestsIn ls ++ [c] := requestsIn_concat ls _
      refine ⟨hhandler, hregistrar, hothers, ?_, ?_, hsame, hnodup, ?_, hset⟩
      · rw [hids]
        exact opened_update hopened
      · rw [hids]
        refine holds_update (fun c' call hcall => ?_) (by simp [RequestCall.Holds, hhandler])
        have hne : c' ≠ c := fun heq => by simp [heq, hnew] at hcall
        simpa [hne] using hholds c' call hcall
      · intro c'
        rw [hids, List.mem_append, List.mem_singleton]
        show Caller.request c' ∈ s.callers ↔ _ ∧ (s.setRequest c _).Answered c'
        rw [hrequest, hanswered]
        by_cases heq : c' = c
        · simp [heq, hc, Answered, hnew]
        · simp [heq]
  | notify c first held waiters hc =>
      have hheld := hholds c _ hc
      have hanswered : ∀ c', (s.setRequest c (.calling first held)).Answered c' ↔ s.Answered c' :=
        answered_setRequest (by simp [Answered, hc]) (by simp)
      refine Registered.of_unlisted ⟨hhandler, hregistrar, hothers, ?_,
        holds_update hholds hheld, hsame, hnodup, ?_, hset⟩ rfl
      · exact fun c' hc' => opened_update hopened c' (List.mem_append_left _ hc')
      · exact fun c' => (hrequest c').trans (and_congr_right fun _ => (hanswered c').symm)
  | finish c first held hc =>
      have hheld : held = if c ∈ requestsIn ls then some handler else none := hholds c _ hc
      have hcalled : (held.map (fun h => (Caller.request c, h))).toList =
          if c ∈ requestsIn ls then [(Caller.request c, handler)] else [] := by
        rw [hheld]
        split <;> rfl
      have hnot : Caller.request c ∉ s.callers := by simp [hrequest, Answered, hc]
      rw [hcalled]
      refine Registered.of_unlisted ⟨hhandler, hregistrar, hothers, ?_,
        holds_update hholds trivial, called_same hsame, called_nodup hnodup hnot, ?_, ?_⟩ rfl
      · exact fun c' hc' => opened_update hopened c' (List.mem_append_left _ hc')
      · intro c'
        refine mem_called.trans ?_
        show _ ↔ c' ∈ requestsIn ls ∧ (s.setRequest c (.returned first)).Answered c'
        rw [answered_returned, hrequest]
        by_cases heq : c' = c
        · simp [heq, Answered, hc]
        · simp [heq]
      · intro k'
        refine mem_called.trans ?_
        simpa [setRequest] using hset k'
  | register k' handler' hnew hfree => simp [hhandler] at hfree
  | refuse k' handler' registered hnew htaken =>
      have hne : k ≠ k' := by
        intro heq
        simp [heq, hnew] at hregistrar
      refine Registered.of_unlisted ⟨hhandler, ?_, ?_, hopened, hholds, hsame, hnodup, hrequest, ?_⟩
        rfl
      · simpa [setSetter, hne] using hregistrar
      · intro k'' early' h' hk''
        by_cases heq : k'' = k'
        · simp [setSetter, heq] at hk''
        · exact hothers k'' early' h' (by simpa [setSetter, heq] using hk'')
      · simpa [callers, setSetter, hne] using hset
  | finishSet k' requested handler' hk =>
      obtain rfl : k' = k := hothers k' requested handler' hk
      have hnot : Caller.setHandler k' ∉ s.callers := by simp [hset, hk]
      obtain ⟨rfl, rfl⟩ : requested = early ∧ handler' = handler := by simpa [hk] using hregistrar
      have hothers' : ∀ k early' h', (s.setSetter k' (.returned (.ok ()))).setters k =
          some (.calling early' h') → k = k' := by
        intro k early' h' hk'
        by_contra hne
        exact hne (hothers k early' h' (by simpa [setSetter, hne] using hk'))
      refine Registered.of_unlisted ⟨hhandler, by simp [setSetter], hothers', hopened, hholds,
        called_same hsame, called_nodup hnodup hnot, ?_, ?_⟩ rfl
      · intro c
        refine mem_called.trans ?_
        simpa [setSetter, Answered] using hrequest c
      · intro k
        refine mem_called.trans ?_
        rw [hset]
        simp [setSetter, hk, and_comm]
  | wait l waiters hreq hset' =>
      exact Registered.of_unlisted ⟨hhandler, hregistrar, hothers, hopened, hholds, hsame, hnodup,
        hrequest, hset⟩ hreq

/-- Once everyone has returned, the callers are the requests since the
registration and, if there were requests before it, the registration. -/
theorem Registered.callers_perm (hr : Registered k handler early ls s) (hids : (requestsIn ls).Nodup)
    (hs : s.Settled) :
    s.callers.Perm ((requestsIn ls).map Caller.request ++ if early then [Caller.setHandler k] else []) := by
  have hanswered : ∀ c ∈ requestsIn ls, s.Answered c := by
    intro c hc
    obtain ⟨call, hcall⟩ := hr.opened c hc
    obtain ⟨first, rfl⟩ := hs.requests c call hcall
    exact ⟨first, hcall⟩
  have hdone : s.setters k = some (.returned (.ok ())) := by
    refine hr.registrar.resolve_left fun hcalling => ?_
    obtain ⟨result, hresult⟩ := hs.setters k _ hcalling
    cases hresult
  have hnodup : ((requestsIn ls).map Caller.request ++
      if early then [Caller.setHandler k] else []).Nodup := by
    have hmap := hids.map (f := Caller.request) (fun a b heq => by simpa using heq)
    cases early with
    | true => simpa using hmap.concat (a := Caller.setHandler k) (by simp)
    | false => simpa using hmap
  refine (List.perm_ext_iff_of_nodup hr.nodup hnodup).mpr fun who => ?_
  cases who with
  | request c =>
      rw [hr.request]
      cases early with
      | true | false => simpa using hanswered c
  | setHandler k' =>
      rw [hr.setHandler]
      cases early with
      | true => simp [hdone]
      | false => simp

end

/-! ## The waiters -/

/-- Once a request has notified, no waiter is parked without a notification. -/
def NoneMissed (s : ExecutionInterrupt η) : Prop :=
  ∀ c call, s.requests c = some call → call.notified = true →
    ∀ w, s.waiters w ≠ some (.parked false)

/-- A waiter parks only while nothing is requested, and a notification wakes
every one that has parked. -/
theorem parked_of_step (h : s.step l = some t) {w : Nat} (hw : t.waiters w = some (.parked false)) :
    (∀ c, l ≠ .notify c) ∧ (s.waiters w = some (.parked false) ∨ s.requested = false) := by
  -- of the steps of a waiter only its look can park it
  have hupdate : ∀ w' waiter, t = s.setWaiter w' waiter → waiter ≠ some (.parked false) →
      s.waiters w = some (.parked false) := by
    rintro w' waiter rfl hne
    by_cases heq : w = w'
    · simp [setWaiter, heq] at hw
      exact absurd hw hne
    · simpa [setWaiter, heq] using hw
  cases l with
  | request | finish | setHandler | finishSet =>
      simp only [step] at h
      split at h <;> cases h <;> exact ⟨by simp, .inl hw⟩
  | notify c =>
      simp only [step] at h
      split at h <;> cases h
      obtain ⟨waiter, _, hwake⟩ := Option.map_eq_some_iff.mp hw
      exact absurd hwake waiter.wake_ne_parked
  | cancelled | poll | drop =>
      simp only [step] at h
      split at h <;> cases h
      exact ⟨by simp, .inl (hupdate _ _ rfl (by simp))⟩
  | enable w' =>
      obtain ⟨waiter, henable, rfl⟩ := Option.map_eq_some_iff.mp h
      obtain ⟨old, _, hold⟩ := Option.bind_eq_some_iff.mp henable
      refine ⟨by simp, .inl (hupdate w' _ rfl fun heq => ?_)⟩
      exact Waiter.enable_ne_parked hold (Option.some.inj heq)
  | check w' =>
      obtain ⟨waiter, hlook, rfl⟩ := Option.map_eq_some_iff.mp h
      obtain ⟨old, _, hold⟩ := Option.bind_eq_some_iff.mp hlook
      refine ⟨by simp, ?_⟩
      by_cases hparked : waiter = .parked false
      · have hseen : s.seen = none := Waiter.look_parked hold hparked
        simp only [seen] at hseen
        split at hseen
        · cases hseen
        · next hreq => exact .inr (by simpa using hreq)
      · exact .inl (hupdate w' _ rfl (by simpa using hparked))

/-- Only its `notify_waiters` brings a request behind its notification. -/
theorem notified_of_step (h : s.step l = some t) (hl : ∀ c, l ≠ .notify c) {c : Nat}
    {call : RequestCall η} (hc : t.requests c = some call) (hcall : call.notified = true) :
    ∃ call', s.requests c = some call' ∧ call'.notified = true := by
  cases move_of_step h with
  | request c' hnew =>
      by_cases heq : c = c'
      · simp [setRequest, heq] at hc
        simp [← hc, RequestCall.notified] at hcall
      · exact ⟨call, by simpa [setRequest, heq] using hc, hcall⟩
  | notify c' first handler waiters hc' => exact absurd rfl (hl c')
  | finish c' first handler hc' =>
      by_cases heq : c = c'
      · exact ⟨_, heq ▸ hc', rfl⟩
      · exact ⟨call, by simpa [setRequest, heq] using hc, hcall⟩
  | register | refuse | finishSet | wait => exact ⟨call, hc, hcall⟩

section

variable {ls : List (InterruptLabel η)}

/-- A request that is there has set the flag. -/
theorem Decided.flagged (hd : Decided ls s) {c : Nat} {call : RequestCall η}
    (hc : s.requests c = some call) : s.requested = true := by
  have hmem : c ∈ requestsIn ls := (hd.requests.mem c).mpr ⟨call, hc⟩
  exact hd.requested.mpr (List.ne_nil_of_mem hmem)

theorem NoneMissed.step (hn : NoneMissed s) (hd : Decided ls s) (h : s.step l = some t) :
    NoneMissed t := by
  intro c call hc hcall w hw
  obtain ⟨hl, hparked⟩ := parked_of_step h hw
  obtain ⟨call', hc', hcall'⟩ := notified_of_step h hl hc hcall
  rcases hparked with hparked | hnone
  · exact hn c call' hc' hcall' w hparked
  · rw [hd.flagged hc'] at hnone
    cases hnone

theorem noneMissed (h : run ExecutionInterrupt.step {} ls = some s) : NoneMissed s := by
  have hboth : Decided ([] ++ ls) s ∧ NoneMissed s := by
    refine @run_history _ _ ExecutionInterrupt.step (fun ls s => Decided ls s ∧ NoneMissed s) ?_
      ls [] {} s h ⟨decided_nil, by simp [NoneMissed]⟩
    intro before a l b hinv hstep
    exact ⟨hinv.1.step hstep, hinv.2.step hinv.1 hstep⟩
  exact hboth.2

/-- A look that finds the flag returns. -/
theorem enabled_returns {w : Nat} {woken : Bool} (hreq : s.requested = true)
    (hw : s.waiters w = some (.enabled woken)) :
    ∃ t, ReachesBy ExecutionInterrupt.step (InterruptLabel.OfWaiter w) s t ∧
      t.waiters w = some (.returned ()) := by
  have hcheck : s.step (.check w) = some (s.setWaiter w (some (.returned ()))) := by
    simp [step, hw, Waiter.look, seen, hreq]
  exact ⟨_, .cons .check hcheck (.refl _), by simp [setWaiter]⟩

/-- A waiter returns by its own steps once a request has notified. -/
theorem waiter_returns (hn : NoneMissed s) (hd : Decided ls s) {c w : Nat} {call : RequestCall η}
    {waiter : Waiter Unit} (hc : s.requests c = some call) (hcall : call.notified = true)
    (hw : s.waiters w = some waiter) :
    ∃ t, ReachesBy ExecutionInterrupt.step (InterruptLabel.OfWaiter w) s t ∧
      t.waiters w = some (.returned ()) := by
  cases waiter with
  | created woken =>
      have henable : s.step (.enable w) = some (s.setWaiter w (some (.enabled woken))) := by
        simp [step, hw, Waiter.enable]
      have hflag : (s.setWaiter w (some (.enabled woken))).requested = true := hd.flagged hc
      have hw' : (s.setWaiter w (some (.enabled woken))).waiters w = some (.enabled woken) := by
        simp [setWaiter]
      obtain ⟨t, hreach, ht⟩ := enabled_returns hflag hw'
      exact ⟨t, .cons .enable henable hreach, ht⟩
  | enabled woken => exact enabled_returns (hd.flagged hc) hw
  | parked woken =>
      cases woken with
      | false => exact absurd hw (hn c call hc hcall w)
      | true =>
          have hpoll : s.step (.poll w) = some (s.setWaiter w (some (.returned ()))) := by
            simp [step, hw]
          exact ⟨_, .cons .poll hpoll (.refl _), by simp [setWaiter]⟩
  | returned result => exact ⟨s, ReachesBy.refl s, hw⟩

/-! ## Every call returns -/

theorem calling_returns {c : Nat} {first : Bool} {handler : Option η}
    (hc : s.requests c = some (.calling first handler)) :
    ∃ t, ReachesBy ExecutionInterrupt.step (InterruptLabel.OfRequest c) s t ∧
      t.requests c = some (.returned first) := by
  have hfinish : s.step (.finish c) = some { s.setRequest c (.returned first) with
      calls := s.calls ++ (handler.map (fun h => (Caller.request c, h))).toList } := by
    simp [step, hc]
  exact ⟨_, .cons .finish hfinish (.refl _), by simp [setRequest]⟩

theorem request_returns {c : Nat} {call : RequestCall η} (hc : s.requests c = some call) :
    ∃ t, ReachesBy ExecutionInterrupt.step (InterruptLabel.OfRequest c) s t ∧
      t.requests c = some (.returned call.first) := by
  cases call with
  | notifying first handler =>
      let m : ExecutionInterrupt η := { s.setRequest c (.calling first handler) with
        waiters := fun w => (s.waiters w).map Waiter.wake }
      have hnotify : s.step (.notify c) = some m := by simp [m, step, hc]
      have hm : m.requests c = some (.calling first handler) := by simp [m, setRequest]
      obtain ⟨t, hreach, ht⟩ := calling_returns hm
      exact ⟨t, .cons .notify hnotify hreach, ht⟩
  | calling first handler => exact calling_returns hc
  | returned first => exact ⟨s, ReachesBy.refl s, hc⟩

theorem setter_returns (hd : Decided ls s) {k : Nat} {call : SetHandlerCall η}
    (hk : s.setters k = some call) :
    ∃ t, ReachesBy ExecutionInterrupt.step (InterruptLabel.OfSetter k) s t ∧
      t.setters k = some (.returned (if call.registers then .ok () else .error alreadyRegistered)) := by
  cases call with
  | calling requested handler =>
      have hfinish : s.step (.finishSet k) = some { s.setSetter k (.returned (.ok ())) with
          calls := s.calls ++ if requested then [(Caller.setHandler k, handler)] else [] } := by
        simp [step, hk]
      exact ⟨_, .cons .finishSet hfinish (.refl _), by simp [setSetter, SetHandlerCall.registers]⟩
  | returned result =>
      refine ⟨s, ReachesBy.refl s, ?_⟩
      cases result with
      | ok u => simpa [SetHandlerCall.registers] using hk
      | error error =>
          rw [hd.refused k error hk] at hk
          simpa [SetHandlerCall.registers] using hk

end

/-! ## The calls of every run -/

/-- What is said of a run of the labels `ls` that has led to `s`. -/
structure HandlerCalls (ls : List (InterruptLabel η)) (s : ExecutionInterrupt η) : Prop where
  /-- exactly one request is the one that returns `true` … -/
  first : requestsIn ls ≠ [] → ∃! c, ∃ call, s.requests c = some call ∧ call.first = true
  request_returns : ∀ c call, s.requests c = some call →
    ∃ t, ReachesBy step (InterruptLabel.OfRequest c) s t ∧
      t.requests c = some (.returned call.first)
  /-- … and exactly one `set_handler` registers; the others are refused -/
  registers : settersIn ls ≠ [] → ∃! k, ∃ call, s.setters k = some call ∧ call.registers = true
  setter_returns : ∀ k call, s.setters k = some call →
    ∃ t, ReachesBy step (InterruptLabel.OfSetter k) s t ∧
      t.setters k = some (.returned (if call.registers then .ok () else .error alreadyRegistered))
  /-- no handler is called before a registration … -/
  uncalled : settersIn ls = [] → s.calls = []
  /-- … and behind the first one only the registered handler is, never twice
  by one call, and when all calls have returned by each request since the
  registration and by the registration if there were requests before it -/
  called : ∀ before k handler after, ls = before ++ .setHandler k handler :: after →
    settersIn before = [] →
    s.handler = some handler ∧ (∀ entry ∈ s.calls, entry.2 = handler) ∧ s.callers.Nodup ∧
      (s.Settled → s.callers.Perm ((requestsIn after).map Caller.request ++
        if requestsIn before = [] then [] else [Caller.setHandler k]))
  /-- once a request has notified, no waiter stays parked -/
  woken : ∀ c call, s.requests c = some call → call.notified = true →
    ∀ w waiter, s.waiters w = some waiter →
      waiter ≠ .parked false ∧ ∃ t, ReachesBy step (InterruptLabel.OfWaiter w) s t ∧
        t.waiters w = some (.returned ())

theorem registered_of_run {before after : List (InterruptLabel η)} {k : Nat} {handler : η}
    (h : run step {} (before ++ .setHandler k handler :: after) = some s)
    (hbefore : settersIn before = []) :
    ∃ early, (early = true ↔ requestsIn before ≠ []) ∧ Registered k handler early after s := by
  obtain ⟨m, hm, hrest⟩ := run_append_eq_some.mp h
  obtain ⟨m', hm', hafter⟩ := run_cons_eq_some.mp hrest
  have hstart : Registered k handler m.requested [] m' := (bare_of_run hm hbefore).register hm'
  have hend : Registered k handler m.requested ([] ++ after) s :=
    run_history (fun _ _ _ _ => Registered.step) hafter hstart
  exact ⟨m.requested, (decided hm).requested, hend⟩

/-- **Interrupt handler calls are neither lost nor doubled**, whatever the
interleaving of `request`, `set_handler` and `cancelled`. -/
theorem interrupt_handler_calls_exact {ls : List (InterruptLabel η)} {s : ExecutionInterrupt η}
    (h : run step {} ls = some s) : HandlerCalls ls s := by
  have hd : Decided ls s := decided h
  have hn : NoneMissed s := noneMissed h
  refine ⟨hd.requests.existsUnique, fun _ _ => request_returns, hd.setters.existsUnique,
    fun _ _ => setter_returns hd, fun hnil => (bare_of_run h hnil).calls, ?_, ?_⟩
  · rintro before k handler after rfl hbefore
    obtain ⟨early, hearly, hr⟩ := registered_of_run h hbefore
    refine ⟨hr.handler, hr.same, hr.nodup, fun hs => ?_⟩
    have hids : (requestsIn after).Nodup := by
      have hall := hd.requests.nodup
      rw [List.append_cons, requestsIn_append] at hall
      exact hall.of_append_right
    have hperm := hr.callers_perm hids hs
    by_cases hnil : requestsIn before = []
    · simpa [hnil, hearly] using hperm
    · simpa [hnil, hearly] using hperm
  · intro c call hc hcall w waiter hw
    refine ⟨?_, waiter_returns hn hd hc hcall hw⟩
    rintro rfl
    exact hn c call hc hcall w hw

/-- Two requests around the registration, a second `set_handler` and a waiter
that had parked before. -/
def interruptedTwice : List (InterruptLabel Nat) :=
  [.cancelled 0, .enable 0, .check 0, .request 0, .setHandler 0 7, .notify 0, .request 1,
    .finishSet 0, .setHandler 1 8, .notify 1, .finish 1, .finish 0, .poll 0]

theorem interruptedTwice_calls :
    ∃ s : ExecutionInterrupt Nat, run step {} interruptedTwice = some s ∧
      s.calls = [(.setHandler 0, 7), (.request 1, 7)] ∧ HandlerCalls interruptedTwice s :=
  ⟨_, run_and rfl fun hrun => ⟨rfl, interrupt_handler_calls_exact hrun⟩⟩

end ExecutionInterrupt

end Kernmini.Engine
