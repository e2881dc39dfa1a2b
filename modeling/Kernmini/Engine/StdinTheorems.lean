/-
Kernmini.Engine.StdinTheorems — what becomes of an input request and of an
`input_reply`.

An entry of the map belongs to a request that is in flight and unanswered.
An answer that a request holds came with a message that took the entry, and
no two messages take one entry.
-/
import Kernmini.Engine.StdinSteps
import Kernmini.Lib.Transition

namespace Kernmini.Engine

open Kernmini.Wire Kernmini.Transport Kernmini.Lib

/-! ## What a move keeps -/

namespace Request.Moves

variable {r r' : Request}

theorem identity (h : r.Moves r') : r'.identity = r.identity := by
  cases h <;> rfl

theorem channel_sent (h : r.Moves r') {result : Except Error String} :
    r'.channel = .sent result ↔ r.channel = .sent result := by
  cases h with
  | waker => exact Iff.rfl
  | within => exact Iff.rfl
  | leave => exact Oneshot.close_eq_sent

theorem inFlight (h : r.Moves r') (hr : r.pc.inFlight = true) : r'.pc.inFlight = true := by
  cases h with
  | waker => exact hr
  | within => rfl
  | leave => rfl

theorem inserting (h : r.Moves r') (hr' : r'.pc = .inserting) :
    r.pc = .inserting ∧ r'.channel = r.channel := by
  cases h with
  | waker => exact ⟨hr', rfl⟩
  | within => cases hr'
  | leave => cases hr'

theorem result (h : r.Moves r') {text : String} (hr' : r'.pc.result = some (.ok text)) :
    r.pc.result = some (.ok text) ∨ r.channel = .sent (.ok text) := by
  cases h with
  | waker => exact .inl hr'
  | within => cases hr'
  | leave _ hresult =>
      cases hr'
      exact .inr (hresult text rfl)

theorem returned (h : r.Moves r') {result : Except Error String} (hr : r.pc = .returned result) :
    r'.pc = .returned result := by
  cases h with
  | waker => exact hr
  | within _ hpc =>
      rw [hr] at hpc
      cases hpc
  | leave hpc =>
      rw [hr] at hpc
      cases hpc

end Request.Moves

namespace Stdin

section

variable {s t : Stdin}

theorem RequestsMove.forth (h : RequestsMove s t) {id : String} {r : Request}
    (hr : s.requests id = some r) : ∃ r', t.requests id = some r' ∧ r.Moves r' := by
  have hid := h id
  rw [hr] at hid
  exact hid

theorem RequestsMove.back (h : RequestsMove s t) {id : String} {r' : Request}
    (hr' : t.requests id = some r') : ∃ r, s.requests id = some r ∧ r.Moves r' := by
  have hid := h id
  split at hid
  · rw [hid] at hr'
    cases hr'
  · next r hr =>
      obtain ⟨r'', hr'', hmoves⟩ := hid
      rw [hr'] at hr''
      cases hr''
      exact ⟨r, hr, hmoves⟩

end

/-! ## The invariant -/

/-- What a request holds came with a message that took its entry. -/
structure RequestOk (log : List (Inbound × Option String)) (id : String) (r : Request) : Prop where
  fresh : r.pc = .inserting → r.channel = .waiting
  sent : ∀ result, r.channel = .sent result → ∃ inbound, (inbound, some id) ∈ log ∧
    inbound.message.msgType = "input_reply" ∧ result = .ok (inputValue inbound)
  result : ∀ text, r.pc.result = some (.ok text) → r.channel = .sent (.ok text)

structure Inv (s : Stdin) : Prop where
  entry : ∀ id p, s.pending.lookup id = some p → ∃ r, s.requests id = some r ∧
    r.identity = p.identity ∧ r.pc.inFlight = true ∧ ∀ result, r.channel ≠ .sent result
  requests : ∀ id r, s.requests id = some r → RequestOk s.matched id r
  taken : ∀ inbound id, (inbound, some id) ∈ s.matched → s.pending.lookup id = none ∧
    ∃ r, s.requests id = some r ∧ r.pc ≠ .inserting
  once : (s.matched.filterMap Prod.snd).Nodup
  queue : s.received = s.matched.map Prod.fst ++ (s.task.toList ++ s.incoming)

theorem inv_init : Inv {} where
  entry := by simp
  requests := by simp
  taken := by simp
  once := by simp
  queue := rfl

section

variable {s t : Stdin} {id : String} {r r' : Request} {log : List (Inbound × Option String)}

theorem RequestOk.moves (h : RequestOk log id r) (hmoves : r.Moves r') :
    RequestOk log id r' where
  fresh hpc := by
    obtain ⟨hpc', hchannel⟩ := hmoves.inserting hpc
    rw [hchannel]
    exact h.fresh hpc'
  sent result hchannel := h.sent result (hmoves.channel_sent.mp hchannel)
  result text hresult := by
    rw [hmoves.channel_sent]
    rcases hmoves.result hresult with hbefore | hsent
    · exact h.result text hbefore
    · exact hsent

theorem RequestOk.mono (h : RequestOk log id r) (more : List (Inbound × Option String)) :
    RequestOk (log ++ more) id r where
  fresh := h.fresh
  sent result hchannel := by
    obtain ⟨inbound, hmem, hreply⟩ := h.sent result hchannel
    exact ⟨inbound, List.mem_append_left _ hmem, hreply⟩
  result := h.result

/-- One request has changed. -/
theorem requestOk_update {requests : String → Option Request}
    (h : ∀ id r, requests id = some r → RequestOk log id r) (hr' : RequestOk log id r') :
    ∀ id' r, Function.update requests id (some r') id' = some r → RequestOk log id' r := by
  intro id' r hr
  by_cases hid : id' = id
  · subst hid
    rw [Function.update_self, Option.some.injEq] at hr
    exact hr ▸ hr'
  · rw [Function.update_of_ne hid] at hr
    exact h id' r hr

theorem Inv.move (h : Inv s) (hsame : Same s t) (hmove : RequestsMove s t) : Inv t where
  entry id p hp := by
    rw [hsame.pending] at hp
    obtain ⟨r, hr, hidentity, hflight, hunsent⟩ := h.entry id p hp
    obtain ⟨r', hr', hmoves⟩ := hmove.forth hr
    refine ⟨r', hr', hmoves.identity.trans hidentity, hmoves.inFlight hflight, ?_⟩
    intro result hresult
    exact hunsent result (hmoves.channel_sent.mp hresult)
  requests id r' hr' := by
    obtain ⟨r, hr, hmoves⟩ := hmove.back hr'
    rw [hsame.matched]
    exact (h.requests id r hr).moves hmoves
  taken inbound id hmem := by
    rw [hsame.matched] at hmem
    obtain ⟨hgone, r, hr, hpc⟩ := h.taken inbound id hmem
    obtain ⟨r', hr', hmoves⟩ := hmove.forth hr
    rw [hsame.pending]
    exact ⟨hgone, r', hr', fun hpc' => hpc (hmoves.inserting hpc').1⟩
  once := by
    rw [hsame.matched]
    exact h.once
  queue := by
    rw [hsame.received, hsame.matched, hsame.task, hsame.incoming]
    exact h.queue

theorem Inv.request (h : Inv s) {identity : Bytes} {token : Token} (hnew : s.requests id = none) :
    Inv (s.setRequest id { identity, interrupt := token }) where
  entry id' p hp := by
    obtain ⟨r, hr, hrest⟩ := h.entry id' p hp
    have hid : id' ≠ id := by
      rintro rfl
      rw [hnew] at hr
      cases hr
    exact ⟨r, (Function.update_of_ne hid _ _).trans hr, hrest⟩
  requests := requestOk_update h.requests ⟨fun _ => rfl, nofun, nofun⟩
  taken inbound id' hmem := by
    obtain ⟨hgone, r, hr, hpc⟩ := h.taken inbound id' hmem
    have hid : id' ≠ id := by
      rintro rfl
      rw [hnew] at hr
      cases hr
    exact ⟨hgone, r, (Function.update_of_ne hid _ _).trans hr, hpc⟩
  once := h.once
  queue := h.queue

theorem Inv.insert (h : Inv s) (hr : s.requests id = some r) (hpc : r.pc = .inserting) :
    Inv { s.setRequest id { r with pc := .select .unpolled .idle } with
      pending := s.pending.insert id { identity := r.identity } } where
  entry id' p hp := by
    by_cases hid : id' = id
    · subst hid
      rw [AList.lookup_insert, Option.some.injEq] at hp
      refine ⟨_, Function.update_self _ _ _, congrArg PendingInput.identity hp, rfl, ?_⟩
      intro result hresult
      rw [(h.requests id' r hr).fresh hpc] at hresult
      cases hresult
    · rw [AList.lookup_insert_ne hid] at hp
      obtain ⟨r', hr', hrest⟩ := h.entry id' p hp
      exact ⟨r', (Function.update_of_ne hid _ _).trans hr', hrest⟩
  requests := requestOk_update h.requests ⟨nofun, (h.requests id r hr).sent, nofun⟩
  taken inbound id' hmem := by
    obtain ⟨hgone, r', hr', hpc'⟩ := h.taken inbound id' hmem
    have hid : id' ≠ id := by
      rintro rfl
      rw [hr] at hr'
      cases hr'
      exact hpc' hpc
    refine ⟨?_, r', (Function.update_of_ne hid _ _).trans hr', hpc'⟩
    rw [AList.lookup_insert_ne hid]
    exact hgone
  once := h.once
  queue := h.queue

theorem Inv.remove (h : Inv s) {result : Except Error String} (hr : s.requests id = some r)
    (hpc : r.pc = .removing result) :
    Inv { s.setRequest id { r with pc := .returned result } with
      pending := s.pending.erase id } where
  entry id' p hp := by
    by_cases hid : id' = id
    · subst hid
      rw [AList.lookup_erase] at hp
      cases hp
    · rw [AList.lookup_erase_ne hid] at hp
      obtain ⟨r', hr', hrest⟩ := h.entry id' p hp
      exact ⟨r', (Function.update_of_ne hid _ _).trans hr', hrest⟩
  requests := by
    have hok := h.requests id r hr
    refine requestOk_update h.requests ⟨nofun, hok.sent, ?_⟩
    intro text htext
    refine hok.result text ?_
    rw [hpc]
    exact htext
  taken inbound id' hmem := by
    obtain ⟨hgone, r', hr', hpc'⟩ := h.taken inbound id' hmem
    by_cases hid : id' = id
    · subst hid
      exact ⟨AList.lookup_erase _ _, _, Function.update_self _ _ _, nofun⟩
    · refine ⟨?_, r', (Function.update_of_ne hid _ _).trans hr', hpc'⟩
      rw [AList.lookup_erase_ne hid]
      exact hgone
  once := h.once
  queue := h.queue

/-! ## The reply task -/

/-- The key of a reply is the key of an entry. -/
theorem pending_of_replyKey {order : List String} {inbound : Inbound} {key : String}
    (h : s.replyKey order inbound = some key) : ∃ p, s.pending.lookup key = some p ∧
      (inputParent inbound = key ∨ p.identity = inbound.identity) := by
  unfold replyKey at h
  split at h
  · next hsome =>
      obtain ⟨p, hp⟩ := Option.isSome_iff_exists.mp hsome
      cases h
      exact ⟨p, hp, .inl rfl⟩
  · have hfound := List.find?_some h
    obtain ⟨p, hp, hidentity⟩ := (Option.any_eq_true _ _).mp hfound
    exact ⟨p, hp, .inr (by simpa using hidentity)⟩

theorem Inv.ignored (h : Inv s) {inbound : Inbound} (htask : s.task = some inbound) :
    Inv { s with task := none, matched := s.matched ++ [(inbound, none)] } where
  entry := h.entry
  requests id r hr := (h.requests id r hr).mono _
  taken inbound' id hmem := by
    refine h.taken inbound' id ?_
    simpa using hmem
  once := by
    rw [List.filterMap_append]
    simpa using h.once
  queue := by
    rw [h.queue, htask]
    simp

theorem Inv.matched (h : Inv s) {order : List String} {inbound : Inbound} {key : String}
    (htask : s.task = some inbound) (htype : inbound.message.msgType = "input_reply")
    (hkey : s.replyKey order inbound = some key) :
    Inv { s with
      task := none
      pending := s.pending.erase key
      requests := Function.update s.requests key ((s.requests key).map (·.answer inbound))
      matched := s.matched ++ [(inbound, some key)] } := by
  obtain ⟨p, hp, _⟩ := pending_of_replyKey hkey
  obtain ⟨r, hr, _, hflight, hunsent⟩ := h.entry key p hp
  have hpc : r.pc ≠ .inserting := by
    intro hpc
    rw [hpc] at hflight
    cases hflight
  rw [hr, Option.map_some]
  have hother : ∀ id, id ≠ key → ∀ r', s.requests id = some r' →
      Function.update s.requests key (some (r.answer inbound)) id = some r' := by
    intro id hid r' hr'
    rwa [Function.update_of_ne hid]
  refine ⟨?_, ?_, ?_, ?_, ?_⟩
  · intro id p' hp'
    by_cases hid : id = key
    · subst hid
      rw [AList.lookup_erase] at hp'
      cases hp'
    · rw [AList.lookup_erase_ne hid] at hp'
      obtain ⟨r', hr', hrest⟩ := h.entry id p' hp'
      exact ⟨r', hother id hid r' hr', hrest⟩
  · refine requestOk_update (fun id r' hr' => (h.requests id r' hr').mono _) ⟨?_, ?_, ?_⟩
    · exact fun hpc' => absurd hpc' hpc
    · intro result hresult
      rcases Oneshot.send_eq_sent.mp hresult with hbefore | ⟨_, rfl⟩
      · exact absurd hbefore (hunsent result)
      · exact ⟨inbound, by simp, htype, rfl⟩
    · intro text htext
      exact absurd ((h.requests key r hr).result text htext) (hunsent _)
  · intro inbound' id hmem
    by_cases hid : id = key
    · subst hid
      exact ⟨AList.lookup_erase _ _, _, Function.update_self _ _ _, hpc⟩
    · have hbefore : (inbound', some id) ∈ s.matched := by simpa [hid] using hmem
      obtain ⟨hgone, r', hr', hpc'⟩ := h.taken inbound' id hbefore
      refine ⟨?_, r', hother id hid r' hr', hpc'⟩
      rw [AList.lookup_erase_ne hid]
      exact hgone
  · have hnew : key ∉ s.matched.filterMap Prod.snd := by
      intro hmem
      obtain ⟨⟨inbound', o⟩, hmem', ho⟩ := List.mem_filterMap.mp hmem
      cases ho
      rw [(h.taken inbound' key hmem').1] at hp
      cases hp
    rw [List.filterMap_append, List.filterMap_cons, List.filterMap_nil, ← List.concat_eq_append]
    exact h.once.concat hnew
  · rw [h.queue, htask]
    simp

theorem Inv.handled (h : Inv s) {order : List String} {inbound : Inbound}
    (htask : s.task = some inbound) (hhandles : Handles s order inbound t) : Inv t := by
  cases hhandles with
  | ignored => exact h.ignored htask
  | matched htype hkey => exact h.matched htask htype hkey

/-! ## Every step, every run -/

theorem Inv.step (h : Inv s) {l : StdinLabel} (hstep : s.step l = some t) : Inv t := by
  cases step_rule hstep with
  | move hsame hmove => exact h.move hsame hmove
  | request hnew => exact h.request hnew
  | insert hr hpc => exact h.insert hr hpc
  | remove hr hpc => exact h.remove hr hpc
  | arrive inbound =>
      refine ⟨h.entry, h.requests, h.taken, h.once, ?_⟩
      simp [h.queue]
  | take htask hincoming =>
      refine ⟨h.entry, h.requests, h.taken, h.once, ?_⟩
      simp [h.queue, htask, hincoming]
  | handle htask _ hhandles => exact h.handled htask hhandles

theorem inv_of_run {labels : List StdinLabel} (hrun : run Stdin.step {} labels = some s) : Inv s :=
  run_invariant (fun _ _ _ ha hstep => ha.step hstep) hrun inv_init

theorem ne_of_pc {id' : String} (hr : s.requests id = some r) (hr' : s.requests id' = some r')
    (hpc : r.pc ≠ r'.pc) : id ≠ id' := by
  rintro rfl
  rw [hr] at hr'
  cases hr'
  exact hpc rfl

/-- A request that has returned stays as it is. -/
theorem returned_step {l : StdinLabel} (hstep : s.step l = some t) {result : Except Error String}
    (h : ∃ r, s.requests id = some r ∧ r.pc = .returned result) :
    ∃ r, t.requests id = some r ∧ r.pc = .returned result := by
  obtain ⟨r, hr, hpc⟩ := h
  cases step_rule hstep with
  | move _ hmove =>
      obtain ⟨r', hr', hmoves⟩ := hmove.forth hr
      exact ⟨r', hr', hmoves.returned hpc⟩
  | @request id' _ _ hnew =>
      have hid : id ≠ id' := by
        rintro rfl
        rw [hnew] at hr
        cases hr
      exact ⟨r, (Function.update_of_ne hid _ _).trans hr, hpc⟩
  | insert hr' hpc' =>
      have hid := ne_of_pc hr hr' (by simp [hpc, hpc'])
      exact ⟨r, (Function.update_of_ne hid _ _).trans hr, hpc⟩
  | remove hr' hpc' =>
      have hid := ne_of_pc hr hr' (by simp [hpc, hpc'])
      exact ⟨r, (Function.update_of_ne hid _ _).trans hr, hpc⟩
  | arrive | take => exact ⟨r, hr, hpc⟩
  | @handle _ inbound _ _ _ hhandles =>
      cases hhandles with
      | ignored => exact ⟨r, hr, hpc⟩
      | @matched key =>
          by_cases hid : id = key
          · subst hid
            refine ⟨r.answer inbound, ?_, hpc⟩
            rw [hr]
            exact Function.update_self _ _ _
          · exact ⟨r, (Function.update_of_ne hid _ _).trans hr, hpc⟩

/-! ## What completes a request -/

/-- The step from `s` to `t` gives the request its answer. -/
def Completes (s t : Stdin) (id : String) : Prop :=
  ∃ r r' result, s.requests id = some r ∧ (∀ other, r.channel ≠ .sent other) ∧
    t.requests id = some r' ∧ r'.channel = .sent result

theorem not_completes_of_eq {id' : String} (heq : t.requests id' = s.requests id') :
    ¬ s.Completes t id' := by
  rintro ⟨r, r', result, hr, hunsent, hr', hsent⟩
  rw [heq, hr] at hr'
  cases hr'
  exact hunsent result hsent

/-- A change of the request `id` that leaves its channel alone. -/
theorem not_completes_update {id' : String} (hr : s.requests id = some r)
    (heq : t.requests = Function.update s.requests id (some r'))
    (hchannel : r'.channel = r.channel) : ¬ s.Completes t id' := by
  rintro ⟨r₁, r₂, result, hr₁, hunsent, hr₂, hsent⟩
  rw [heq] at hr₂
  by_cases hid : id' = id
  · subst hid
    rw [Function.update_self] at hr₂
    rw [hr] at hr₁
    cases hr₁
    cases hr₂
    exact hunsent result (hchannel ▸ hsent)
  · rw [Function.update_of_ne hid, hr₁] at hr₂
    cases hr₂
    exact hunsent result hsent

/-- Only a reply completes a request, and only the one whose entry it takes. -/
theorem completes_rule {l : StdinLabel} (hstep : s.step l = some t) (h : s.Completes t id) :
    ∃ order inbound, l = .handle order ∧ s.task = some inbound ∧
      s.replyKey order inbound = some id := by
  cases step_rule hstep with
  | move _ hmove =>
      obtain ⟨r, r', result, hr, hunsent, hr', hsent⟩ := h
      obtain ⟨r₁, hr₁, hmoves⟩ := hmove.back hr'
      rw [hr] at hr₁
      cases hr₁
      exact absurd (hmoves.channel_sent.mp hsent) (hunsent result)
  | @request id' _ _ hnew =>
      have hid : id ≠ id' := by
        rintro rfl
        obtain ⟨r, _, _, hr, _⟩ := h
        rw [hnew] at hr
        cases hr
      exact absurd h (not_completes_of_eq (Function.update_of_ne hid _ _))
  | insert hr | remove hr => exact absurd h (not_completes_update hr rfl rfl)
  | arrive | take => exact absurd h (not_completes_of_eq rfl)
  | @handle order inbound _ htask _ hhandles =>
      cases hhandles with
      | ignored => exact absurd h (not_completes_of_eq rfl)
      | @matched key _ hkey =>
          by_cases hid : id = key
          · exact ⟨order, inbound, rfl, htask, hid ▸ hkey⟩
          · exact absurd h (not_completes_of_eq (Function.update_of_ne hid _ _))

/-- A step completes at most one request. -/
theorem completes_unique {l : StdinLabel} {id' : String} (hstep : s.step l = some t)
    (h : s.Completes t id) (h' : s.Completes t id') : id = id' := by
  obtain ⟨order, inbound, rfl, htask, hkey⟩ := completes_rule hstep h
  obtain ⟨order', inbound', heq, htask', hkey'⟩ := completes_rule hstep h'
  cases heq
  rw [htask] at htask'
  cases htask'
  rw [hkey] at hkey'
  exact Option.some.inj hkey'

/-! ## The lifetime of a pending input -/

/-- What holds of the entries, the replies and the requests. -/
structure InputLifetime (s : Stdin) : Prop where
  /-- an entry is of a request in flight that no reply has answered -/
  keys : ∀ id ∈ s.pending, ∃ r, s.requests id = some r ∧ r.pc.inFlight = true ∧
    ∀ result, r.channel ≠ .sent result
  /-- the replies the task is done with are those received, in their order -/
  replies : s.received = s.matched.map Prod.fst ++ (s.task.toList ++ s.incoming)
  /-- a step completes one request at most, and only as it handles a reply -/
  completes : ∀ l t id, s.step l = some t → s.Completes t id →
    (∃ order, l = .handle order) ∧ ∀ id', s.Completes t id' → id' = id
  /-- an answered request was answered by a reply that was received, and by one
  only -/
  answered : ∀ id r result, s.requests id = some r → r.channel = .sent result → ∃ inbound,
    (inbound, some id) ∈ s.matched ∧ inbound.message.msgType = "input_reply" ∧
      result = .ok (inputValue inbound)
  once : (s.matched.filterMap Prod.snd).Nodup
  /-- the value that is returned is the text of that reply -/
  value : ∀ id r text, s.requests id = some r → r.pc = .returned (.ok text) → ∃ inbound,
    inbound ∈ s.received ∧ (inbound, some id) ∈ s.matched ∧
      inbound.message.msgType = "input_reply" ∧ text = inputValue inbound
  /-- a request that has returned has no entry -/
  gone : ∀ id r result, s.requests id = some r → r.pc = .returned result → id ∉ s.pending
  /-- and never returns again -/
  final : ∀ labels t id r result, run Stdin.step s labels = some t → s.requests id = some r →
    r.pc = .returned result → ∃ r', t.requests id = some r' ∧ r'.pc = .returned result

theorem pending_input_lifetime {labels : List StdinLabel} {s : Stdin}
    (hrun : run Stdin.step {} labels = some s) : InputLifetime s := by
  have h := inv_of_run hrun
  have hkeys : ∀ id ∈ s.pending, ∃ r, s.requests id = some r ∧ r.pc.inFlight = true ∧
      ∀ result, r.channel ≠ .sent result := by
    intro id hmem
    obtain ⟨p, hp⟩ := Option.isSome_iff_exists.mp (AList.lookup_isSome.mpr hmem)
    obtain ⟨r, hr, _, hflight, hunsent⟩ := h.entry id p hp
    exact ⟨r, hr, hflight, hunsent⟩
  refine ⟨hkeys, h.queue, ?_, ?_, h.once, ?_, ?_, ?_⟩
  · intro l t id hstep hcompletes
    obtain ⟨order, _, hl, _⟩ := completes_rule hstep hcompletes
    exact ⟨⟨order, hl⟩, fun id' hcompletes' => completes_unique hstep hcompletes' hcompletes⟩
  · intro id r result hr hchannel
    exact (h.requests id r hr).sent result hchannel
  · intro id r text hr hpc
    have hok := h.requests id r hr
    have hresult : r.pc.result = some (.ok text) := by rw [hpc]; rfl
    obtain ⟨inbound, hmem, htype, htext⟩ := hok.sent _ (hok.result text hresult)
    refine ⟨inbound, ?_, hmem, htype, Except.ok.inj htext⟩
    rw [h.queue]
    exact List.mem_append_left _ (List.mem_map_of_mem hmem)
  · intro id r result hr hpc hmem
    obtain ⟨r', hr', hflight, _⟩ := hkeys id hmem
    rw [hr] at hr'
    cases hr'
    rw [hpc] at hflight
    cases hflight
  · intro labels' t id r result hrun' hr hpc
    have hstep : ∀ a l b, (∃ r, a.requests id = some r ∧ r.pc = .returned result) →
        Stdin.step a l = some b → ∃ r, b.requests id = some r ∧ r.pc = .returned result :=
      fun _ _ _ ha hab => returned_step hab ha
    exact run_invariant hstep hrun' ⟨r, hr, hpc⟩

/-- An `input_reply` with this parent and text. -/
def inputReply (parent text : String) : Message :=
  { header := [("msg_type", .string "input_reply")]
    parentHeader := [("msg_id", .string parent)]
    content := .object [("value", .string text)] }

/-- The steps of a request up to its wait for the answer. -/
def prompt (id : String) : List StdinLabel :=
  [.advance id, .advance id, .advance id, .advance id, .advance id, .sent id (.ok ()), .advance id]

/-- A prompt that is answered. -/
theorem pending_input_lifetime_answered :
    ∃ s, run Stdin.step {} ([.connect 0 [7], .announce 0, .request "a" [7] 0] ++ prompt "a" ++
        [.arrive 0 (inputReply "a" "Ada"), .take, .handle ["a"], .advance "a", .advance "a",
          .advance "a", .advance "a"]) = some s ∧
      (s.requests "a").map Request.pc = some (.returned (.ok "Ada")) ∧ InputLifetime s := by
  refine ⟨_, run_and rfl fun hrun => ?_⟩
  exact ⟨rfl, pending_input_lifetime hrun⟩

/-! ## Stale replies -/

/-- The request was pending, and is no longer. -/
def Stale (s : Stdin) (id : String) : Prop :=
  id ∉ s.pending ∧ ∃ r, s.requests id = some r ∧ r.pc ≠ .inserting

/-- A reply that names no pending request is matched by its identity. -/
theorem identity_of_replyKey {order : List String} {inbound : Inbound} {key : String}
    (hparent : inputParent inbound ∉ s.pending) (h : s.replyKey order inbound = some key) :
    ∃ p, s.pending.lookup key = some p ∧ p.identity = inbound.identity := by
  obtain ⟨p, hp, hmatch⟩ := pending_of_replyKey h
  refine ⟨p, hp, hmatch.resolve_left ?_⟩
  intro heq
  rw [heq] at hparent
  exact hparent (AList.lookup_isSome.mp (by rw [hp]; rfl))

/-- The identity is found if a request of its client is pending. -/
theorem exists_replyKey {order : List String} {inbound : Inbound} {p : PendingInput}
    (horder : order.Perm s.pending.keys) (hp : s.pending.lookup id = some p)
    (hidentity : p.identity = inbound.identity) : ∃ key, s.replyKey order inbound = some key := by
  unfold replyKey
  split
  · exact ⟨_, rfl⟩
  · refine Option.isSome_iff_exists.mp (List.find?_isSome.mpr ⟨id, ?_, ?_⟩)
    · rw [horder.mem_iff]
      exact AList.mem_keys.mpr (AList.lookup_isSome.mp (by rw [hp]; rfl))
    · simp [hp, hidentity]

end

theorem stale_reply_stays_with_client {labels : List StdinLabel} {s t : Stdin} {order : List String}
    {inbound : Inbound} (hrun : run Stdin.step {} labels = some s) (htask : s.task = some inbound)
    (htype : inbound.message.msgType = "input_reply") (hstale : s.Stale (inputParent inbound))
    (hstep : s.step (.handle order) = some t) :
    -- it completes no request of another client
    (∀ id, s.Completes t id → ∃ r, s.requests id = some r ∧ r.identity = inbound.identity) ∧
    -- with no request of its own client pending it does nothing
    ((∀ id p, s.pending.lookup id = some p → p.identity ≠ inbound.identity) →
      t.pending = s.pending ∧ t.requests = s.requests) ∧
    -- otherwise it takes the entry of one of these
    ((∃ id p, s.pending.lookup id = some p ∧ p.identity = inbound.identity) →
      ∃ id p, s.pending.lookup id = some p ∧ p.identity = inbound.identity ∧
        t.pending = s.pending.erase id ∧ ∀ id', s.Completes t id' → id' = id) := by
  have h := inv_of_run hrun
  obtain ⟨hparent, _⟩ := hstale
  have hcompletes : ∀ id, s.Completes t id → s.replyKey order inbound = some id := by
    intro id hid
    obtain ⟨order', inbound', heq, htask', hkey⟩ := completes_rule hstep hid
    cases heq
    rw [htask] at htask'
    cases htask'
    exact hkey
  obtain ⟨inbound', htask', horder, hhandles⟩ := handles_of_step hstep
  rw [htask] at htask'
  cases htask'
  refine ⟨?_, ?_, ?_⟩
  · intro id hid
    obtain ⟨p, hp, hidentity⟩ := identity_of_replyKey hparent (hcompletes id hid)
    obtain ⟨r, hr, hsame, _⟩ := h.entry id p hp
    exact ⟨r, hr, hsame.trans hidentity⟩
  · intro hnone
    cases hhandles with
    | ignored => exact ⟨rfl, rfl⟩
    | matched _ hkey =>
        obtain ⟨p, hp, hidentity⟩ := identity_of_replyKey hparent hkey
        exact absurd hidentity (hnone _ p hp)
  · rintro ⟨id, p, hp, hidentity⟩
    obtain ⟨key, hkey⟩ := exists_replyKey horder hp hidentity
    cases hhandles with
    | ignored hignored =>
        rcases hignored with hother | hnone
        · exact absurd htype hother
        · rw [hkey] at hnone
          cases hnone
    | matched _ hkey' =>
        obtain ⟨p', hp', hidentity'⟩ := identity_of_replyKey hparent hkey'
        refine ⟨_, p', hp', hidentity', rfl, ?_⟩
        intro id' hid'
        have hsame := hcompletes id' hid'
        rw [hkey'] at hsame
        exact (Option.some.inj hsame).symm

/-- With another client's prompt pending. -/
theorem stale_reply_stays_with_client_two :
    ∃ s t, run Stdin.step {} ([.connect 0 [7], .announce 0, .connect 1 [8], .announce 1,
          .request "a" [7] 0] ++ prompt "a" ++ [.interrupt 0, .notify 0, .advance "a", .advance "a",
          .request "b" [8] 1] ++ prompt "b" ++
          [.arrive 0 (inputReply "a" "secret"), .take]) = some s ∧
      s.pending.lookup "b" = some { identity := [8] } ∧ s.step (.handle ["b"]) = some t ∧
      ∀ id, s.Completes t id → ∃ r, s.requests id = some r ∧ r.identity = [7] := by
  refine ⟨_, _, run_and rfl fun hrun => ⟨rfl, rfl, ?_⟩⟩
  exact (@stale_reply_stays_with_client _ _ _ ["b"] _ hrun rfl (by decide)
    ⟨by decide, _, rfl, nofun⟩ rfl).1

/-- The answer to an interrupted prompt goes to the client's next one. -/
theorem stale_reply_feeds_next_prompt :
    ∃ s t inbound, run Stdin.step {} ([.connect 0 [7], .announce 0, .request "a" [7] 0] ++
        prompt "a" ++ [.interrupt 0, .notify 0, .advance "a", .advance "a", .request "b" [7] 1] ++
        prompt "b" ++ [.arrive 0 (inputReply "a" "secret"), .take]) = some s ∧
      s.task = some inbound ∧ inbound.message.msgType = "input_reply" ∧
      s.Stale (inputParent inbound) ∧ s.step (.handle ["b"]) = some t ∧ s.Completes t "b" := by
  refine ⟨_, _, _, rfl, rfl, by decide, ⟨by decide, _, rfl, nofun⟩, rfl, ?_⟩
  exact ⟨_, _, _, rfl, nofun, rfl, rfl⟩

end Stdin

end Kernmini.Engine
