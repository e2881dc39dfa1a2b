/-
Kernmini.Dap.ClientTheorems — what becomes of the requests of a `DapClient`.

The map and the channels agree (`Agree`): an entry belongs to a call under
its own number, and a call whose channel still waits has its entry. A `drop`
decides by the channel alone, and only a call that has closed its channel can
lose its entry to it.

`send` looks at the close reason again after the insertion. So a call that
passes this look was in the map before the reason was set, and the drain of
the run that set it comes later (`Closing.drained`).
-/
import Kernmini.Dap.ClientSteps

namespace Kernmini.Dap

open Kernmini.Wire Kernmini.Engine Kernmini.Lib

namespace DapClient

variable {serde : SerdeJson} {s t : DapClient} {l : DapLabel} {c d : CallId} {call : Call}

/-! ## The map and the channels -/

theorem Moves.seq? {channel : Oneshot (Except Error Value)} {pc pc' : CallPc} {next : UInt64}
    (h : Moves serde s c channel l pc pc' next) : pc'.seq? = pc.seq? := by
  cases h <;> rfl

/-- The map and the channels of the calls agree. -/
structure Agree (s : DapClient) : Prop where
  /-- an entry belongs to a call under its own number, with its sender unused -/
  entry : ∀ {seq c}, s.pending.lookup seq = some c → ∃ call, s.calls c = some call ∧
    call.pc.seq? = some seq ∧ (call.channel = .waiting ∨ call.channel = .closed)
  /-- a call whose channel still waits has its entry -/
  awaited : ∀ {c call seq}, s.calls c = some call → call.pc.seq? = some seq →
    call.channel = .waiting → s.pending.lookup seq = some c
  /-- `drop` closes the channel before it looks at the map -/
  removing : ∀ {c call seq ending}, s.calls c = some call → call.pc = .removing seq ending →
    call.channel ≠ .waiting

theorem agree_init : ({} : DapClient).Agree where
  entry h := by simp at h
  awaited h := by cases h
  removing h := by cases h

/-- A call that moves on with its number and its channel keeps the agreement. -/
theorem Agree.move (hs : s.Agree) {pc : CallPc} (hcall : s.calls c = some call)
    (hseq : pc.seq? = call.pc.seq?) (hremoving : ∀ seq ending, pc ≠ .removing seq ending) :
    (s.setCall c { call with pc := pc }).Agree where
  entry {seq d} hentry := by
    obtain ⟨owner, howner, hnumber, hunused⟩ := hs.entry hentry
    rw [calls_setCall]
    by_cases hd : d = c
    · rw [hd, hcall] at howner
      cases howner
      exact ⟨{ call with pc := pc }, by rw [if_pos hd], hseq ▸ hnumber, hunused⟩
    · exact ⟨owner, by rw [if_neg hd, howner], hnumber, hunused⟩
  awaited {d owner seq} howner hnumber hwaits := by
    rw [calls_setCall] at howner
    split at howner
    · rename_i hd
      cases howner
      rw [hd]
      exact hs.awaited hcall (hseq ▸ hnumber) hwaits
    · exact hs.awaited howner hnumber hwaits
  removing {d owner seq ending} howner hpc := by
    rw [calls_setCall] at howner
    split at howner
    · cases howner
      exact absurd hpc (hremoving seq ending)
    · exact hs.removing howner hpc

theorem Moves.not_removing {channel : Oneshot (Except Error Value)} {pc pc' : CallPc} {next : UInt64}
    (h : Moves serde s c channel l pc pc' next) (seq : UInt64) (ending : Ending) :
    pc' ≠ .removing seq ending := by
  cases h <;> exact fun h => by cases h

theorem Agree.insert (hs : s.Agree) {seq : UInt64} {frame : Bytes} (hcall : s.calls c = some call)
    (hpc : call.pc = .inserting seq frame) (hfree : s.pending.lookup seq = none) :
    { s.setCall c { pc := .rechecking seq frame } with pending := s.pending.insert seq c }.Agree where
  entry {seq' d} hentry := by
    simp only at hentry
    show ∃ owner, (s.setCall c _).calls d = some owner ∧ _
    rw [calls_setCall]
    by_cases hseq : seq' = seq
    · rw [hseq, AList.lookup_insert] at hentry
      cases hentry
      exact ⟨_, by rw [if_pos rfl], by rw [hseq]; rfl, .inl rfl⟩
    · rw [AList.lookup_insert_ne hseq] at hentry
      obtain ⟨owner, howner, hnumber, hunused⟩ := hs.entry hentry
      have hd : d ≠ c := by
        intro hd
        rw [hd, hcall] at howner
        cases howner
        rw [hpc] at hnumber
        cases hnumber
      exact ⟨owner, by rw [if_neg hd, howner], hnumber, hunused⟩
  awaited {d owner seq'} howner hnumber hwaits := by
    change (s.setCall c _).calls d = some owner at howner
    rw [calls_setCall] at howner
    show (s.pending.insert seq c).lookup seq' = some d
    split at howner
    · rename_i hd
      cases howner
      cases hnumber
      rw [hd, AList.lookup_insert]
    · have hold := hs.awaited howner hnumber hwaits
      have hseq : seq' ≠ seq := by
        intro hseq
        rw [hseq, hfree] at hold
        cases hold
      rw [AList.lookup_insert_ne hseq]
      exact hold
  removing {d owner seq' ending} howner hpc' := by
    change (s.setCall c _).calls d = some owner at howner
    rw [calls_setCall] at howner
    split at howner
    · cases howner
      cases hpc'
    · exact hs.removing howner hpc'

theorem Agree.close (hs : s.Agree) {seq : UInt64} {ending : Ending} (hcall : s.calls c = some call)
    (hpc : call.pc = .closing seq ending) :
    (s.setCall c { pc := .removing seq ending, channel := call.channel.close }).Agree where
  entry {seq' d} hentry := by
    obtain ⟨owner, howner, hnumber, hunused⟩ := hs.entry hentry
    rw [calls_setCall]
    by_cases hd : d = c
    · rw [hd, hcall] at howner
      cases howner
      rw [hpc] at hnumber
      refine ⟨_, by rw [if_pos hd], hnumber, .inr ?_⟩
      rcases hunused with hwaits | hclosed
      · rw [hwaits]
        rfl
      · rw [hclosed]
        rfl
    · exact ⟨owner, by rw [if_neg hd, howner], hnumber, hunused⟩
  awaited {d owner seq'} howner hnumber hwaits := by
    rw [calls_setCall] at howner
    split at howner
    · cases howner
      exact absurd hwaits (Oneshot.close_ne_waiting _)
    · exact hs.awaited howner hnumber hwaits
  removing {d owner seq' ending'} howner hpc' := by
    rw [calls_setCall] at howner
    split at howner
    · cases howner
      exact Oneshot.close_ne_waiting _
    · exact hs.removing howner hpc'

/-- A call without an entry may begin or end. -/
theorem Agree.outside (hs : s.Agree) {call' : Call} (hgone : ∀ seq, s.pending.lookup seq ≠ some c)
    (hseq : call'.pc.seq? = none) : (s.setCall c call').Agree where
  entry {seq d} hentry := by
    have hd : d ≠ c := fun hd => hgone seq (hd ▸ hentry)
    rw [calls_setCall, if_neg hd]
    exact hs.entry hentry
  awaited {d owner seq} howner hnumber hwaits := by
    rw [calls_setCall] at howner
    split at howner
    · cases howner
      rw [hseq] at hnumber
      cases hnumber
    · exact hs.awaited howner hnumber hwaits
  removing {d owner seq ending} howner hpc := by
    rw [calls_setCall] at howner
    split at howner
    · cases howner
      rw [hpc] at hseq
      cases hseq
    · exact hs.removing howner hpc

/-- An entry may go when the channel of its call is settled. -/
theorem Agree.erase (hs : s.Agree) {seq : UInt64} {owner' : Call}
    (hentry : s.pending.lookup seq = some d) (hsettled : owner'.channel ≠ .waiting) :
    { s.setCall d owner' with pending := s.pending.erase seq }.Agree where
  entry {seq' c} hentry' := by
    obtain ⟨owner, howner, hnumber, _⟩ := hs.entry hentry
    change (s.pending.erase seq).lookup seq' = some c at hentry'
    show ∃ call, (s.setCall d owner').calls c = some call ∧ _
    have hseq : seq' ≠ seq := by
      intro hseq
      rw [hseq, AList.lookup_erase] at hentry'
      cases hentry'
    rw [AList.lookup_erase_ne hseq] at hentry'
    obtain ⟨call, hcall, hnumber', hunused⟩ := hs.entry hentry'
    have hc : c ≠ d := by
      intro hc
      rw [hc, howner] at hcall
      cases hcall
      exact hseq (Option.some.inj (hnumber'.symm.trans hnumber))
    exact ⟨call, by rw [calls_setCall, if_neg hc, hcall], hnumber', hunused⟩
  awaited {c call seq'} hcall hnumber hwaits := by
    change (s.setCall d owner').calls c = some call at hcall
    show (s.pending.erase seq).lookup seq' = some c
    rw [calls_setCall] at hcall
    split at hcall
    · cases hcall
      exact absurd hwaits hsettled
    · rename_i hc
      have hold := hs.awaited hcall hnumber hwaits
      have hseq : seq' ≠ seq := by
        intro hseq
        rw [hseq, hentry] at hold
        exact hc (Option.some.inj hold).symm
      rw [AList.lookup_erase_ne hseq]
      exact hold
  removing {c call seq' ending} hcall hpc := by
    change (s.setCall d owner').calls c = some call at hcall
    rw [calls_setCall] at hcall
    split at hcall
    · cases hcall
      exact hsettled
    · exact hs.removing hcall hpc

theorem Agree.remove (hs : s.Agree) {owner : Call} {seq : UInt64} {ending : Ending}
    (hcall : s.calls c = some call) (hpc : call.pc = .removing seq ending)
    (hentry : s.pending.lookup seq = some d) (howner : s.calls d = some owner)
    (hclosed : owner.channel = .closed) :
    { s.setCall c { call with pc := .returned ending } with pending := s.pending.erase seq }.Agree := by
  have herased : { s with pending := s.pending.erase seq }.Agree := by
    have hsame : s.setCall d owner = s := by
      rw [DapClient.setCall, ← howner, Function.update_eq_self]
    have h : { s.setCall d owner with pending := s.pending.erase seq }.Agree :=
      hs.erase hentry (by rw [hclosed]; exact fun h => by cases h)
    rwa [hsame] at h
  refine herased.outside (fun seq' hentry' => ?_) rfl
  -- the call has no entry under any other number
  obtain ⟨call', hcall', hnumber, _⟩ := herased.entry hentry'
  rw [hcall] at hcall'
  cases hcall'
  rw [hpc] at hnumber
  cases hnumber
  rw [AList.lookup_erase] at hentry'
  cases hentry'

theorem Agree.leave (hs : s.Agree) {seq : UInt64} {ending : Ending} (hcall : s.calls c = some call)
    (hpc : call.pc = .removing seq ending)
    (hkeep : ∀ d owner, s.pending.lookup seq = some d → s.calls d = some owner →
      owner.channel ≠ .closed) :
    (s.setCall c { call with pc := .returned ending }).Agree := by
  refine hs.outside (fun seq' hentry => ?_) rfl
  obtain ⟨call', hcall', hnumber, hunused⟩ := hs.entry hentry
  rw [hcall] at hcall'
  cases hcall'
  rw [hpc] at hnumber
  cases hnumber
  rcases hunused with hwaits | hclosed
  · exact hs.removing hcall hpc hwaits
  · exact hkeep c call hentry hcall hclosed

theorem Agree.respond (hs : s.Agree) {seq : UInt64} {result : Except Error Value}
    (hentry : s.pending.lookup seq = some c) :
    { s.complete c result with pending := s.pending.erase seq }.Agree := by
  obtain ⟨call, hcall, _, _⟩ := hs.entry hentry
  simp only [complete, hcall]
  exact hs.erase hentry (Oneshot.send_ne_waiting _ _)

theorem drained_eq_some {reason : Error} (h : s.drained reason c = some call) :
    ∃ old, s.calls c = some old ∧ call.pc = old.pc ∧
      (c ∈ s.pending.values ∧ call.channel = old.channel.send (.error reason) ∨
        c ∉ s.pending.values ∧ call = old) := by
  obtain ⟨old, hold, heq⟩ := Option.map_eq_some_iff.mp h
  refine ⟨old, hold, ?_⟩
  split at heq
  · rename_i hmem
    rw [← heq]
    exact ⟨rfl, .inl ⟨hmem, rfl⟩⟩
  · rename_i hmem
    rw [← heq]
    exact ⟨rfl, .inr ⟨hmem, rfl⟩⟩

theorem Agree.drain (hs : s.Agree) (reason : Error) :
    { s with pending := ∅, calls := s.drained reason }.Agree where
  entry hentry := by simp at hentry
  awaited {c call seq} hcall hnumber hwaits := by
    obtain ⟨old, hold, hpc, ⟨_, hchannel⟩ | ⟨hmem, heq⟩⟩ := drained_eq_some hcall
    · rw [hchannel] at hwaits
      exact absurd hwaits (Oneshot.send_ne_waiting _ _)
    · rw [heq] at hnumber hwaits
      exact absurd (HashMap.mem_values.mpr ⟨seq, hs.awaited hold hnumber hwaits⟩) hmem
  removing {c call seq ending} hcall hpc := by
    obtain ⟨old, hold, hpc', ⟨_, hchannel⟩ | ⟨_, heq⟩⟩ := drained_eq_some hcall
    · rw [hchannel]
      exact Oneshot.send_ne_waiting _ _
    · rw [heq] at hpc ⊢
      exact hs.removing hold hpc

theorem agree_step (hs : s.Agree) (h : s.step serde l = some t) : t.Agree := by
  cases step_rule h with
  | send hnew =>
      refine hs.outside (fun seq hentry => ?_) rfl
      obtain ⟨call, hcall, _⟩ := hs.entry hentry
      rw [hnew] at hcall
      cases hcall
  | move hcall hmove =>
      have hset := hs.move hcall hmove.seq? hmove.not_removing
      exact ⟨hset.entry, hset.awaited, hset.removing⟩
  | insert hcall hpc hfree => exact hs.insert hcall hpc hfree
  | close hcall hpc => exact hs.close hcall hpc
  | remove hcall hpc hentry howner hclosed => exact hs.remove hcall hpc hentry howner hclosed
  | leave hcall hpc hkeep => exact hs.leave hcall hpc hkeep
  | event | unknown => exact hs
  | respond hevent hseq hentry => exact hs.respond hentry
  | writerGone | fail | set | read | panic => exact ⟨hs.entry, hs.awaited, hs.removing⟩
  | drain hfail =>
      rename_i f reason
      have hdrain := hs.drain reason
      exact ⟨hdrain.entry, hdrain.awaited, hdrain.removing⟩

/-! ## The channel of a call -/

/-- What the place of a call says about its channel. -/
structure Shape (call : Call) : Prop where
  fresh : call.pc.early = true → call.channel = .waiting
  live : call.pc.ending? = none → call.channel = .waiting ∨ ∃ result, call.channel = .sent result
  /-- `wait` returns what was sent, unless its time is over -/
  waited : ∀ result, call.pc.ending? = some (.waited result) →
    call.channel = .sent result ∨ ∃ seq, result = .error (waitTimedOut seq)

theorem Moves.shape {pc : CallPc} {next : UInt64} (h : Moves serde s c call.channel l call.pc pc next)
    (hs : Shape call) : Shape { call with pc := pc } := by
  obtain ⟨fresh, live, waited⟩ := hs
  generalize hpc : call.pc = before at h fresh live waited
  cases h with
  | refused _ | unnumbered _ | tooLarge _ | unencoded _ _ | taken _ =>
      exact ⟨nofun, nofun, nofun⟩
  | checked _ | numbered _ | encoded _ _ => exact ⟨fun _ => fresh rfl, fun _ => live rfl, nofun⟩
  | foundClosed _ | sendFailed _ | cancelled | dropped | dropWait => exact ⟨nofun, nofun, nofun⟩
  | foundOpen _ | sent _ | wait => exact ⟨nofun, fun _ => live rfl, nofun⟩
  | answered hresult =>
      refine ⟨nofun, nofun, fun result h => ?_⟩
      cases h
      exact .inl hresult
  | lost hresult =>
      -- no sender is dropped before it has sent
      rcases live rfl with h | ⟨result, h⟩
      · rw [hresult] at h
        cases h
      · rw [hresult] at h
        cases h
  | timedOut =>
      refine ⟨nofun, nofun, fun result h => ?_⟩
      cases h
      exact .inr ⟨_, rfl⟩

theorem Shape.send (hs : Shape call) (hearly : call.pc.early = false) (result : Except Error Value) :
    Shape { call with channel := call.channel.send result } := by
  refine ⟨fun h => ?_, fun h => ?_, fun r h => ?_⟩
  · simp [hearly] at h
  · rcases hs.live h with hwaits | ⟨r, hsent⟩
    · exact .inr ⟨result, by simp [hwaits]⟩
    · exact .inr ⟨r, by simp [hsent, Oneshot.send]⟩
  · rcases hs.waited r h with hsent | htime
    · exact .inl (by simp [hsent, Oneshot.send])
    · exact .inr htime

theorem CallTurn.shape {o : Option Call} {call' : Call} (h : CallTurn serde s l c o (some call'))
    (hs : ∀ call, o = some call → Shape call)
    (hentry : c ∈ s.pending.values → ∀ call, o = some call → call.pc.early = false) : Shape call' := by
  cases h with
  | same => exact hs call' rfl
  | begins _ => exact ⟨fun _ => rfl, fun _ => .inl rfl, nofun⟩
  | moves hmove => exact hmove.shape (hs _ rfl)
  | inserted _ _ => exact ⟨nofun, fun _ => .inl rfl, nofun⟩
  | closed _ hpc =>
      refine ⟨nofun, nofun, fun result h => ?_⟩
      rcases (hs _ rfl).waited result (by rw [hpc]; exact h) with hsent | htime
      · exact .inl (Oneshot.close_eq_sent.mpr hsent)
      · exact .inr htime
  | returned _ hpc =>
      exact ⟨nofun, nofun, fun result h => (hs _ rfl).waited result (by rw [hpc]; exact h)⟩
  | answered _ _ _ hlookup =>
      exact (hs _ rfl).send (hentry (HashMap.mem_values.mpr ⟨_, hlookup⟩) _ rfl) _
  | failed _ _ hmem => exact (hs _ rfl).send (hentry hmem _ rfl) _

theorem Agree.not_early (hs : s.Agree) (hmem : c ∈ s.pending.values) (hcall : s.calls c = some call) :
    call.pc.early = false := by
  obtain ⟨seq, hentry⟩ := HashMap.mem_values.mp hmem
  obtain ⟨owner, howner, hnumber, _⟩ := hs.entry hentry
  rw [hcall] at howner
  cases howner
  cases hpc : call.pc <;> simp_all [CallPc.seq?, CallPc.early]

/-! ## Correlation -/

/-- The call has entered the map under `seq` and nobody has completed or
closed it. -/
def Awaits (call : Call) (seq : UInt64) : Prop := call.pc.seq? = some seq ∧ call.channel = .waiting

/-- What was sent stays. -/
theorem CallTurn.sent {o' : Option Call} {result : Except Error Value}
    (h : CallTurn serde s l c (some call) o') (hs : Shape call) (hsent : call.channel = .sent result) :
    ∃ call', o' = some call' ∧ call'.channel = .sent result := by
  cases h with
  | same => exact ⟨call, rfl, hsent⟩
  | moves _ => exact ⟨_, rfl, hsent⟩
  | inserted _ hpc =>
      have hwaits := hs.fresh (by rw [hpc]; rfl)
      rw [hsent] at hwaits
      cases hwaits
  | closed _ _ => exact ⟨_, rfl, Oneshot.close_eq_sent.mpr hsent⟩
  | returned _ _ => exact ⟨_, rfl, hsent⟩
  | answered | failed => exact ⟨_, rfl, by simp [hsent, Oneshot.send]⟩

/-- What the step that completes a call is. -/
theorem CallTurn.completes {call' : Call} {result : Except Error Value}
    (h : CallTurn serde s l c (some call) (some call')) (hsent : call'.channel = .sent result)
    (hnew : call.channel ≠ .sent result) :
    call.channel = .waiting ∧ ∃ seq, s.pending.lookup seq = some c ∧
      ((∃ message, l = .received message ∧ isEvent message = false ∧
          requestSeq message = some seq ∧ result = .ok message) ∨
        ∃ f reason, l = .failStep f ∧ s.fails f = some (.draining reason) ∧ result = .error reason) := by
  cases h with
  | same | moves => exact absurd hsent hnew
  | inserted _ _ => cases hsent
  | closed _ _ => exact absurd (Oneshot.close_eq_sent.mp hsent) hnew
  | returned _ _ => exact absurd hsent hnew
  | answered hl hevent hseq hentry =>
      rcases Oneshot.send_eq_sent.mp hsent with hold | ⟨hwaits, hresult⟩
      · exact absurd hold hnew
      · exact ⟨hwaits, _, hentry, .inl ⟨_, hl, hevent, hseq, hresult.symm⟩⟩
  | failed hl hfail hmem =>
      obtain ⟨seq, hentry⟩ := HashMap.mem_values.mp hmem
      rcases Oneshot.send_eq_sent.mp hsent with hold | ⟨hwaits, hresult⟩
      · exact absurd hold hnew
      · exact ⟨hwaits, seq, hentry, .inr ⟨_, _, hl, hfail, hresult.symm⟩⟩

/-! ## Closing -/

theorem close_step {reason : Error} (hclose : s.close = some reason) (h : s.step serde l = some t) :
    t.close = some reason := by
  cases step_rule h with
  | set | respond => simp [hclose]
  | _ => exact hclose

/-- A call on its way out stays on it once there is a reason. -/
theorem Moves.leaving {channel : Oneshot (Except Error Value)} {pc pc' : CallPc} {next : UInt64}
    (h : Moves serde s c channel l pc pc' next) (hclose : s.close ≠ none) (hleaving : pc.leaving = true) :
    pc'.leaving = true := by
  cases h with
  | foundClosed _ => rfl
  | foundOpen hopen => exact absurd hopen hclose
  | _ => cases hleaving

theorem CallTurn.leaving {call' : Call} (h : CallTurn serde s l c (some call) (some call'))
    (hclose : s.close ≠ none) (hseq : call'.pc.seq? ≠ none) (hleaving : call.pc.leaving = true) :
    call'.pc.leaving = true := by
  cases h with
  | same => exact hleaving
  | moves hmove => exact hmove.leaving hclose hleaving
  | inserted _ _ => rfl
  | closed _ hpc =>
      rw [hpc, CallPc.leaving_closing] at hleaving
      exact hleaving
  | returned _ _ => exact absurd rfl hseq
  | answered | failed => exact hleaving

/-- An entry is old, or its call has just entered it. -/
theorem entry_of_step {seq : UInt64} (h : s.step serde l = some t)
    (hentry : t.pending.lookup seq = some c) :
    s.pending.lookup seq = some c ∨ ∃ frame, t.calls c = some { pc := .rechecking seq frame } := by
  have herase : ∀ {key : UInt64}, (s.pending.erase key).lookup seq = some c →
      s.pending.lookup seq = some c := by
    intro key hkey
    by_cases hseq : seq = key
    · rw [hseq, AList.lookup_erase] at hkey
      cases hkey
    · rwa [AList.lookup_erase_ne hseq] at hkey
  cases step_rule h with
  | insert hcall hpc hfree =>
      rename_i d call key frame
      change (s.pending.insert key d).lookup seq = some c at hentry
      by_cases hseq : seq = key
      · rw [hseq, AList.lookup_insert, Option.some.injEq] at hentry
        refine .inr ⟨frame, ?_⟩
        show (s.setCall d _).calls c = _
        rw [calls_setCall, if_pos hentry.symm, hseq]
      · rw [AList.lookup_insert_ne hseq] at hentry
        exact .inl hentry
  | remove | respond => exact .inl (herase hentry)
  | drain hfail => simp at hentry
  | _ => exact .inl hentry

/-- The close reason, the runs of `fail_pending` and the map. -/
structure Closing (s : DapClient) : Prop where
  reading : ∀ {f}, s.fails f = some .reading → s.close ≠ none
  draining : ∀ {f reason}, s.fails f = some (.draining reason) → s.close = some reason
  /-- no error but the reason is sent to a request -/
  errors : ∀ {c call error}, s.calls c = some call → call.channel = .sent (.error error) →
    s.close = some error
  /-- a drain is to come, or only calls that will find the reason have entries -/
  drained : s.close ≠ none → (∃ f pc, s.fails f = some pc ∧ pc.drains = true) ∨
    ∀ {seq c call}, s.pending.lookup seq = some c → s.calls c = some call → call.pc.leaving = true

theorem Closing.reading_step (hs : s.Closing) (h : s.step serde l = some t) {f : FailId}
    (hf : t.fails f = some .reading) : t.close ≠ none := by
  have hturn := fail_turn h f
  rw [hf] at hturn
  generalize hold : s.fails f = o at hturn
  cases hturn with
  | same =>
      obtain ⟨reason, hclose⟩ := Option.ne_none_iff_exists'.mp (hs.reading hold)
      simp [close_step hclose h]
  | set hclose => simp [hclose]

theorem Closing.draining_step (hs : s.Closing) (h : s.step serde l = some t) {f : FailId}
    {reason : Error} (hf : t.fails f = some (.draining reason)) : t.close = some reason := by
  have hturn := fail_turn h f
  rw [hf] at hturn
  generalize hold : s.fails f = o at hturn
  cases hturn with
  | same => exact close_step (hs.draining hold) h
  | read hclose => exact close_step hclose h

theorem Closing.errors_step (hs : s.Closing) (h : s.step serde l = some t) {call' : Call}
    {error : Error} (hcall' : t.calls c = some call') (hsent : call'.channel = .sent (.error error)) :
    t.close = some error := by
  have hturn := call_turn h c
  rw [hcall'] at hturn
  cases hcall : s.calls c with
  | none =>
      rw [hcall] at hturn
      cases hturn with
      | begins _ => cases hsent
  | some call =>
      rw [hcall] at hturn
      by_cases hold : call.channel = .sent (.error error)
      · exact close_step (hs.errors hcall hold) h
      · obtain ⟨_, seq, _, ⟨message, _, _, _, hresult⟩ | ⟨f, reason, _, hfail, hresult⟩⟩ :=
          hturn.completes hsent hold
        · cases hresult
        · cases hresult
          exact close_step (hs.draining hfail) h

/-- A drain to come stays to come until it empties the map. -/
theorem drains_step (h : s.step serde l = some t) {f : FailId} {pc : FailPc}
    (hf : s.fails f = some pc) (hdrains : pc.drains = true) (hs : s.Closing) :
    (∃ f pc, t.fails f = some pc ∧ pc.drains = true) ∨ t.pending = ∅ := by
  have hturn := fail_turn h f
  rw [hf] at hturn
  generalize hnew : t.fails f = o at hturn
  cases hturn with
  | same => exact .inl ⟨f, pc, hnew, hdrains⟩
  | set | read => exact .inl ⟨f, _, hnew, rfl⟩
  | panic hopen => exact absurd hopen (hs.reading hf)
  | drain hempty => exact .inr hempty

theorem Closing.drained_step (hs : s.Closing) (ht : t.Agree) (h : s.step serde l = some t)
    (hclose : t.close ≠ none) : (∃ f pc, t.fails f = some pc ∧ pc.drains = true) ∨
      ∀ {seq c call}, t.pending.lookup seq = some c → t.calls c = some call →
        call.pc.leaving = true := by
  by_cases hbefore : s.close = none
  · -- the step that sets the reason is one of a run that will drain
    obtain ⟨f, error, _, hset⟩ := set_of_close h hbefore hclose
    exact .inl ⟨f, _, hset, rfl⟩
  · rcases hs.drained hbefore with ⟨f, pc, hf, hdrains⟩ | hleaving
    · rcases drains_step h hf hdrains hs with hdrains' | hempty
      · exact .inl hdrains'
      · refine .inr (fun hentry => ?_)
        simp [hempty] at hentry
    · refine .inr (fun {seq c call'} hentry hcall' => ?_)
      obtain ⟨owner, howner, hseq, _⟩ := ht.entry hentry
      rw [hcall'] at howner
      cases howner
      rcases entry_of_step h hentry with hold | ⟨frame, hnew⟩
      · have hturn := call_turn h c
        rw [hcall'] at hturn
        cases hcall : s.calls c with
        | none =>
            rw [hcall] at hturn
            cases hturn with
            | begins _ => cases hseq
        | some call =>
            rw [hcall] at hturn
            exact hturn.leaving hbefore (by simp [hseq]) (hleaving hold hcall)
      · rw [hcall'] at hnew
        cases hnew
        rfl

theorem closing_step (hs : s.Closing) (ht : t.Agree) (h : s.step serde l = some t) : t.Closing where
  reading := hs.reading_step h
  draining := hs.draining_step h
  errors := hs.errors_step h
  drained := hs.drained_step ht h

/-- What holds in every state. -/
structure Inv (s : DapClient) : Prop extends Agree s, Closing s where
  shape : ∀ {c call}, s.calls c = some call → Shape call

theorem closing_init : ({} : DapClient).Closing := ⟨nofun, nofun, nofun, fun hclose => absurd rfl hclose⟩

theorem inv_step (hs : s.Inv) (h : s.step serde l = some t) : t.Inv := by
  have hagree : t.Agree := agree_step hs.toAgree h
  refine ⟨hagree, closing_step hs.toClosing hagree h, fun {c call} hcall => ?_⟩
  have hturn := call_turn h c
  rw [hcall] at hturn
  exact hturn.shape (fun _ hold => hs.shape hold) (fun hmem _ hold => hs.not_early hmem hold)

theorem inv_of_run {ls : List DapLabel} (h : run (step serde) {} ls = some t) : t.Inv :=
  run_invariant (fun _ _ _ => inv_step) h ⟨agree_init, closing_init, nofun⟩

/-- In every state that is reached: at most one request awaits an answer
under a number, and it has the entry of that number. In every step from
there: a request is completed only while it waits, by a message that is not
an event and names its number, or by the reason of a closed client; a
completed request stays as it is; an event and a response to a number that
is not pending change nothing; and a step of one request, such as a timeout
or a drop, leaves every other awaited request and its entry alone. -/
theorem requests_correlated {ls : List DapLabel} (hrun : run (step serde) {} ls = some s) :
    (∀ c d call call' seq, s.calls c = some call → s.calls d = some call' → Awaits call seq →
      Awaits call' seq → c = d) ∧
    (∀ c call seq, s.calls c = some call → Awaits call seq → s.pending.lookup seq = some c) ∧
    ∀ l t, s.step serde l = some t →
      (∀ c call call' result, s.calls c = some call → t.calls c = some call' →
        call'.channel = .sent result → call.channel ≠ .sent result →
        ∃ seq, Awaits call seq ∧
          ((∃ message, l = .received message ∧ isEvent message = false ∧
              requestSeq message = some seq ∧ result = .ok message) ∨
            ∃ f reason, l = .failStep f ∧ s.close = some reason ∧ result = .error reason)) ∧
      (∀ c call result, s.calls c = some call → call.channel = .sent result →
        ∃ call', t.calls c = some call' ∧ call'.channel = .sent result) ∧
      (∀ message, l = .received message →
        (isEvent message = true ∨ ∀ seq, requestSeq message = some seq → s.pending.lookup seq = none) →
        t = s) ∧
      ∀ c d call seq, l.call = some d → c ≠ d → s.calls c = some call → Awaits call seq →
        t.calls c = some call ∧ t.pending.lookup seq = some c := by
  have hs := inv_of_run hrun
  refine ⟨fun c d call call' seq hc hd hcall hcall' => ?_, fun c call seq hc hcall => ?_,
    fun l t h => ⟨?_, ?_, ?_, ?_⟩⟩
  · have hentry := hs.awaited hc hcall.1 hcall.2
    rw [hs.awaited hd hcall'.1 hcall'.2] at hentry
    exact (Option.some.inj hentry).symm
  · exact hs.awaited hc hcall.1 hcall.2
  · intro c call call' result hc hc' hsent hnew
    have hturn := call_turn h c
    rw [hc, hc'] at hturn
    obtain ⟨hwaits, seq, hentry, hcause⟩ := hturn.completes hsent hnew
    obtain ⟨owner, howner, hseq, _⟩ := hs.entry hentry
    rw [hc] at howner
    cases howner
    refine ⟨seq, ⟨hseq, hwaits⟩, ?_⟩
    rcases hcause with hmessage | ⟨f, reason, hl, hfail, hresult⟩
    · exact .inl hmessage
    · exact .inr ⟨f, reason, hl, hs.draining hfail, hresult⟩
  · intro c call result hc hsent
    have hturn := call_turn h c
    rw [hc] at hturn
    exact hturn.sent (hs.shape hc) hsent
  · intro message hl hidle
    subst hl
    cases step_rule h with
    | move _ hmove => cases hmove
    | event _ => rfl
    | unknown _ _ => rfl
    | respond hevent hseq hentry =>
        rcases hidle with hyes | hnone
        · rw [hevent] at hyes
          cases hyes
        · rw [hnone _ hseq] at hentry
          cases hentry
  · intro c d call seq hl hne hc hcall
    have hturn := call_turn h c
    have hsame : t.calls c = some call := (hturn.other hl hne).trans hc
    exact ⟨hsame, (inv_step hs h).awaited hsame hcall.1 hcall.2⟩

/-- A request with a number of its own. -/
def requestFive : Value := .object [("seq", .number (.posInt 5))]

def responseFive : Value := .object [("request_seq", .number (.posInt 5))]

/-- `serde_json` on `requestFive`. -/
def fiveJson : SerdeJson where
  toVec v :=
    if (v.get "seq").bind Value.asU64 = some 5 then .ok (ascii "\x7b\"seq\":5\x7d")
    else .error ⟨"not of interest"⟩
  fromSlice b :=
    if b = ascii "\x7b\"seq\":5\x7d" then .ok requestFive else .error ⟨"expected value"⟩
  mapFromSlice b :=
    if b = ascii "\x7b\"seq\":5\x7d" then .ok [("seq", .number (.posInt 5))]
    else .error ⟨"expected value"⟩
  mapFromSlice_ok b m := by
    split <;> simp [requestFive]

/-- `send` up to its return. -/
def sendFive (c : CallId) : List DapLabel :=
  [.send c requestFive, .advance c, .advance c, .advance c, .advance c, .advance c, .sent c]

/-- A request times out, its response comes before its `drop` is over, and the
number is used again: the end of the `drop` leaves the new entry. -/
theorem requests_correlated_reuse :
    ∃ s t, run (step fiveJson) {} (sendFive 0 ++ [.wait 0, .timeout 0, .advance 0,
        .received responseFive] ++ sendFive 1) = some s ∧
      s.step fiveJson (.advance 0) = some t ∧ t.pending.lookup 5 = some 1 := by
  refine ⟨_, _, run_and rfl fun hrun => ⟨rfl, ?_⟩⟩
  obtain ⟨_, _, hsteps⟩ := requests_correlated hrun
  obtain ⟨_, _, _, hother⟩ := hsteps (.advance 0) _ rfl
  exact (hother 1 0 _ 5 rfl (by decide) rfl ⟨rfl, rfl⟩).2

/-! ## Nothing is left hanging -/

/-- `send` has returned the request. -/
def SentOk (pc : CallPc) : Prop :=
  match pc with
  | .owned _ | .waiting _ => True
  | .closing _ ending | .removing _ ending | .returned ending => ∀ error, ending ≠ .failed error
  | _ => False

/-- The owner has dropped the request, or given up the wait. -/
def GivenUp (pc : CallPc) : Prop :=
  pc.ending? = some .abandoned ∨ ∃ seq, pc.ending? = some (.waited (.error (waitTimedOut seq)))

theorem sentOk_cases {pc : CallPc} (h : SentOk pc) :
    (∃ seq, pc = .owned seq ∨ pc = .waiting seq) ∨ pc.ending? = some .abandoned ∨
      ∃ result, pc.ending? = some (.waited result) := by
  have hending : ∀ ending : Ending, (∀ error, ending ≠ .failed error) →
      ending = .abandoned ∨ ∃ result, ending = .waited result := by
    intro ending hne
    cases ending with
    | failed error => exact absurd rfl (hne error)
    | waited result => exact .inr ⟨result, rfl⟩
    | abandoned => exact .inl rfl
  cases pc with
  | owned seq => exact .inl ⟨seq, .inl rfl⟩
  | waiting seq => exact .inl ⟨seq, .inr rfl⟩
  | closing seq ending | removing seq ending | returned ending =>
      simpa [CallPc.ending?] using hending ending h
  | checking | numbering | advancing | inserting | rechecking | sending => cases h

/-- The calls of `send` that begin after the reason is set. -/
def Refused (reason : Error) (c : CallId) (request : Value) (s : DapClient) : Prop :=
  s.close = some reason ∧ ∃ call, s.calls c = some call ∧
    (call.pc = .checking request ∨ call.pc = .returned (.failed reason))

theorem refused_step {reason : Error} {request : Value} (hs : Refused reason c request s)
    (h : s.step serde l = some t) : Refused reason c request t := by
  obtain ⟨hclose, call, hcall, hpc⟩ := hs
  refine ⟨close_step hclose h, ?_⟩
  have hturn := call_turn h c
  rw [hcall] at hturn
  generalize hnew : t.calls c = o at hturn
  cases hturn with
  | same => exact ⟨call, rfl, hpc⟩
  | moves hmove =>
      refine ⟨_, rfl, ?_⟩
      rcases hpc with hpc | hpc
      · rw [hpc] at hmove
        cases hmove with
        | refused hreason =>
            rw [hclose] at hreason
            cases hreason
            exact .inr rfl
        | checked hopen => simp [hclose] at hopen
      · rw [hpc] at hmove
        cases hmove
  | inserted _ hpc' | closed _ hpc' | returned _ hpc' => simp [hpc'] at hpc
  | answered | failed => exact ⟨_, rfl, hpc⟩

/-- Once there is a close reason it stays. When every run of `fail_pending`
that has started is over, each request that `send` returned is completed,
with a response or with the reason, or was given up by its owner, and only
calls inside `send` have entries. A later `send` returns the reason. -/
theorem close_leaves_none_hanging {ls : List DapLabel} {reason : Error}
    (hrun : run (step serde) {} ls = some s) (hclose : s.close = some reason) :
    (∀ ls' t, run (step serde) s ls' = some t → t.close = some reason) ∧
    ((∀ f pc, s.fails f = some pc → pc = .finished) →
      (∀ c call, s.calls c = some call → SentOk call.pc →
        (∃ result, call.channel = .sent result ∧
          (result = .error reason ∨ ∃ message, result = .ok message)) ∨ GivenUp call.pc) ∧
      ∀ seq c, s.pending.lookup seq = some c →
        ∃ call, s.calls c = some call ∧ call.pc.inSend = true) ∧
    ∀ c request ls' t, run (step serde) s (.send c request :: ls') = some t →
      ∃ call, t.calls c = some call ∧
        (call.pc = .returned (.failed reason) ∨ ∃ u call', t.step serde (.advance c) = some u ∧
          u.calls c = some call' ∧ call'.pc = .returned (.failed reason)) := by
  have hs := inv_of_run hrun
  refine ⟨fun ls' t hls => ?_, fun hfinished => ?_, fun c request ls' t hls => ?_⟩
  · exact run_invariant (fun _ _ _ h hstep => close_step h hstep) hls hclose
  · have hleaving : ∀ {seq c call}, s.pending.lookup seq = some c → s.calls c = some call →
        call.pc.leaving = true := by
      rcases hs.drained (by simp [hclose]) with ⟨f, pc, hf, hdrains⟩ | hleaving
      · rw [hfinished f pc hf] at hdrains
        cases hdrains
      · exact hleaving
    have hsent : ∀ {c call result}, s.calls c = some call → call.channel = .sent result →
        result = .error reason ∨ ∃ message, result = .ok message := by
      intro c call result hcall hresult
      cases result with
      | error error =>
          have herror := hs.errors hcall hresult
          rw [hclose] at herror
          cases herror
          exact .inl rfl
      | ok message => exact .inr ⟨message, rfl⟩
    refine ⟨fun c call hcall hok => ?_, fun seq c hentry => ?_⟩
    · rcases sentOk_cases hok with ⟨seq, hpc⟩ | habandoned | ⟨result, hwaited⟩
      · -- the request is awaited, so its entry would be a leaving one
        have hlive : call.pc.ending? = none := by rcases hpc with hpc | hpc <;> rw [hpc] <;> rfl
        rcases (hs.shape hcall).live hlive with hwaits | ⟨result, hresult⟩
        · have hnumber : call.pc.seq? = some seq := by rcases hpc with hpc | hpc <;> rw [hpc] <;> rfl
          have hleft := hleaving (hs.awaited hcall hnumber hwaits) hcall
          rcases hpc with hpc | hpc <;> rw [hpc] at hleft <;> cases hleft
        · exact .inl ⟨result, hresult, hsent hcall hresult⟩
      · exact .inr (.inl habandoned)
      · rcases (hs.shape hcall).waited result hwaited with hresult | ⟨seq, htime⟩
        · exact .inl ⟨result, hresult, hsent hcall hresult⟩
        · exact .inr (.inr ⟨seq, htime ▸ hwaited⟩)
    · obtain ⟨call, hcall, _⟩ := hs.entry hentry
      exact ⟨call, hcall, CallPc.inSend_of_leaving (hleaving hentry hcall)⟩
  · obtain ⟨m, hm, hrest⟩ := run_cons_eq_some.mp hls
    have hm' : Refused reason c request m := by
      cases step_rule hm with
      | send hnew => exact ⟨hclose, _, by rw [calls_setCall, if_pos rfl], .inl rfl⟩
      | move _ hmove => cases hmove
    obtain ⟨hclose', call, hcall, hpc⟩ :=
      run_invariant (fun _ _ _ h hstep => refused_step h hstep) hrest hm'
    refine ⟨call, hcall, ?_⟩
    rcases hpc with hpc | hpc
    · refine .inr ⟨t.setCall c { call with pc := .returned (.failed reason) },
        { call with pc := .returned (.failed reason) }, ?_, ?_, rfl⟩
      · simp [step, hcall, advance, hpc, hclose']
      · rw [calls_setCall, if_pos rfl]
    · exact .inl hpc

/-- A request is out when the client is closed, and gets the reason. -/
theorem close_leaves_none_hanging_one :
    ∃ s, run (step fiveJson) {} (sendFive 0 ++ [.fail 0 (Error.closed "DAP client"), .failStep 0,
        .failStep 0, .failStep 0]) = some s ∧ s.close = some (Error.closed "DAP client") ∧
      ∃ call, s.calls 0 = some call ∧ SentOk call.pc ∧
        ((∃ result, call.channel = .sent result ∧
          (result = .error (Error.closed "DAP client") ∨ ∃ message, result = .ok message)) ∨
          GivenUp call.pc) := by
  refine ⟨_, run_and rfl fun hrun => ⟨rfl, _, rfl, trivial, ?_⟩⟩
  obtain ⟨_, hover, _⟩ := close_leaves_none_hanging hrun rfl
  obtain ⟨hcompleted, _⟩ := hover (fun f pc hf => by
    cases f with
    | zero => exact (Option.some.inj hf).symm
    | succ n => cases hf)
  exact hcompleted 0 _ rfl trivial

end DapClient

end Kernmini.Dap
