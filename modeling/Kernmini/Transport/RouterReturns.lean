/-
Kernmini.Transport.RouterReturns — no reply that was accepted for sending is
forgotten.

A call whose request has entered the queue waits for the writer to send the
outcome. `Waits` is what holds of it in every run: while the loops of the
connection are there, the request is still queued or its outcome is in the
call's channel; once they are dropped, so is the sender of every outcome that
has not been sent, and the error of the connection is published when it has
ended. So no call waits for an outcome nobody can send (`send_answered`): with
the loops gone a poll that is under way returns, and after the end of the
connection every further poll does.
-/
import Kernmini.Transport.RouterReplies

namespace Kernmini.Transport

open Kernmini.Wire Kernmini.Engine Kernmini.Lib
open Kernmini.Wire.Session (secretHmac emptyObjectJson secretSession)

namespace Routers

variable {hmac : HmacSha256} {serde : SerdeJson} {session : Session}
  {s s' : Routers} {l : RouterLabel} {k : ReplySink} {c : SendId}
  {p p' : RouterPeer} {call call' : SendCall}

/-! ## Calls that wait -/

/-- The error of a connection is published when it has ended, and not before. -/
def ClosedAtEnd (p : RouterPeer) : Prop := p.closed ≠ none ↔ p.pc = .ended

/-- Where the outcome of a call comes from: it is there, which is a success if
the connection is served; or the request is in the queue; or the loops are gone,
and the sender of the outcome with them. -/
def Awaits (c : SendId) (call : SendCall) (p : RouterPeer) : Prop :=
  call.pc = .waiting →
    (∃ result, call.done = .sent result ∧ (p.pc = .serving → result = .ok ())) ∨
    (p.pc.isOpen = true ∧ call.done = .waiting ∧ ⟨c, call.frames⟩ ∈ RouterPeer.queue p) ∨
    (p.pc.isOpen = false ∧ call.done = .dropped)

/-- The channel of a call that goes on is open, and unused before the request
is in the queue. -/
structure ChannelOpen (call : SendCall) : Prop where
  pending : call.pc.pending = true → call.done ≠ .closed
  sending : call.pc = .sending → call.done = .waiting

/-- What holds of the calls that wait in every run. -/
structure Waits (s : Routers) : Prop where
  closed : ∀ k p, s.peers k = some p → ClosedAtEnd p
  channel : ∀ c call, s.calls c = some call → ChannelOpen call
  awaits : ∀ c call p, s.calls c = some call → s.peers call.sink = some p → Awaits c call p

theorem waits_init : Waits {} where
  closed := by intro k p hk; cases hk
  channel := by intro c call hc; cases hc
  awaits := by intro c call p hc; cases hc

theorem closedAtEnd_step (hs : s.Waits) (h : s.step hmac serde session l = some s') :
    ∀ k p, s'.peers k = some p → ClosedAtEnd p := by
  have hset : ∀ {m : Routers} {k₀ : ReplySink} {q' : RouterPeer}, m.peers = s.peers →
      ClosedAtEnd q' → ∀ k p, (m.setPeer k₀ q').peers k = some p → ClosedAtEnd p := by
    intro m k₀ q' hpeers hq' k p hk
    rw [peers_setPeer, hpeers] at hk
    split at hk
    · cases hk
      exact hq'
    · exact hs.closed k p hk
  -- a connection that is not over, before and after the step
  have hopen : ∀ {k₀ : ReplySink} {q q' : RouterPeer}, s.peers k₀ = some q → q.pc ≠ .ended →
      q'.pc ≠ .ended → q'.closed = q.closed → ClosedAtEnd q' := by
    intro k₀ q q' hq hpc hpc' hclosed
    have hnone : q.closed = none := by
      by_contra hsome
      exact hpc ((hs.closed k₀ q hq).mp hsome)
    exact ⟨fun hsome => absurd (hclosed.trans hnone) hsome, fun hended => absurd hended hpc'⟩
  cases step_rule h with
  | connect hk₀ => exact hset rfl (by simp [ClosedAtEnd])
  | @enqueue c call p hc hk₀ hpolled hpc hisOpen hroom =>
      have hpc : p.pc ≠ .ended := by
        intro hpc
        rw [hpc] at hisOpen
        cases hisOpen
      exact hset rfl (hopen hk₀ hpc hpc rfl)
  | take hk₀ hpc | wrote hk₀ hpc => exact hset rfl (hopen hk₀ (by simp [hpc]) (by simp [hpc]) rfl)
  | writeFailed hk₀ hpc => exact hset rfl (hopen hk₀ (by simp [hpc]) (by simp) rfl)
  | readMessage hk₀ hpc => exact hset rfl (hopen hk₀ (by simp [hpc]) (by simp [hpc]) rfl)
  | readBad hk₀ hpc => exact hset rfl (hopen hk₀ (by simp [hpc]) (by simp) rfl)
  | deliver hk₀ hpc => exact hset rfl (hopen hk₀ (by simp [hpc]) (by simp [hpc]) rfl)
  | leaving hk₀ hpc | leave hk₀ hpc => exact hset rfl (hopen hk₀ (by simp [hpc]) (by simp) rfl)
  | close hk₀ hpc => exact hset rfl (by simp [ClosedAtEnd])
  | _ => exact hs.closed

theorem channelOpen_step (hs : s.Replies) (hw : s.Waits)
    (h : s.step hmac serde session l = some s') :
    ∀ c call, s'.calls c = some call → ChannelOpen call := by
  have hset : ∀ {m : Routers} {c₀ : SendId} {x' : SendCall}, m.calls = s.calls →
      ChannelOpen x' → ∀ c call, (m.setCall c₀ x').calls c = some call → ChannelOpen call := by
    intro m c₀ x' hcalls hx' c call hc
    rw [calls_setCall, hcalls] at hc
    split at hc
    · cases hc
      exact hx'
    · exact hw.channel c call hc
  -- an answer goes to a call whose request was accepted
  have hsent : ∀ {c : SendId} {x : SendCall} {done : Oneshot (Except Error Unit)},
      s.calls c = some x → x.pc ≠ .sending → (x.done ≠ .closed → done ≠ .closed) →
      ChannelOpen { x with done } := by
    intro c x done hx hpc hdone
    have hopen := hw.channel c x hx
    exact ⟨fun hpending => hdone (hopen.pending hpending), fun hsending => absurd hsending hpc⟩
  have hqueued : ∀ {k₀ : ReplySink} {q : RouterPeer} {request : SendRequest} {x : SendCall},
      s.peers k₀ = some q → request ∈ RouterPeer.queue q → s.calls request.call = some x →
      x.pc ≠ .sending := by
    intro k₀ q request x hq hmem hx
    obtain ⟨x₀, hx₀, _, _, hpc⟩ := (hs.own k₀ q hq).mem request ((hs.fifo k₀ q hq).queued hmem)
    rw [hx] at hx₀
    cases hx₀
    exact hpc
  cases step_rule h with
  | send hc₀ hk₀ => exact hset rfl ⟨by simp, fun _ => rfl⟩
  | pollClosed hc₀ => exact hset rfl ⟨by simp [SendPc.pending], by simp⟩
  | pollOpen hc₀ =>
      have hopen := hw.channel _ _ hc₀
      exact hset rfl ⟨hopen.pending, hopen.sending⟩
  | enqueue hc₀ hk₀ hpolled hpc =>
      have hopen := hw.channel _ _ hc₀
      exact hset rfl ⟨fun _ => hopen.pending (by rw [hpc]; rfl), by simp⟩
  | pending hc₀ =>
      have hopen := hw.channel _ _ hc₀
      exact hset rfl ⟨hopen.pending, hopen.sending⟩
  | refused | answered | cancel => exact hset rfl ⟨by simp [SendPc.pending], by simp⟩
  | @wrote k₀ q request hk₀ hpc hwriting =>
      intro c call' hc'
      obtain ⟨call, hc, heq⟩ := Option.map_eq_some_iff.mp hc'
      split at heq
      · next hcall =>
          rw [← heq]
          refine hsent hc (hqueued hk₀ (by simp [RouterPeer.queue, hwriting]) (hcall ▸ hc)) ?_
          cases call.done <;> simp [Oneshot.send]
      · rw [← heq]
        exact hw.channel c call hc
  | @writeFailed k₀ q request error hk₀ hpc hwriting =>
      intro c call' hc'
      obtain ⟨call, hc, heq⟩ := Option.map_eq_some_iff.mp hc'
      split at heq
      · next hcall =>
          rw [← heq]
          refine hsent hc (hqueued hk₀ (by simp [RouterPeer.queue, hwriting]) (hcall ▸ hc)) ?_
          cases call.done <;> simp [Oneshot.send]
      · rw [← heq]
        exact hw.channel c call hc
  | @leave k₀ q error hk₀ hpc =>
      intro c call' hc'
      obtain ⟨call, hc, heq⟩ := Option.map_eq_some_iff.mp hc'
      split at heq
      · next hmem =>
          obtain ⟨request, hrequest, hcall⟩ := List.mem_map.mp hmem
          rw [← heq]
          refine hsent hc (hqueued hk₀ hrequest (hcall ▸ hc)) ?_
          cases call.done <;> simp [Oneshot.dropSender]
      · rw [← heq]
        exact hw.channel c call hc
  | _ => exact hw.channel

/-- What a call awaits is still there, if the connection keeps its loops and what
it has queued. -/
theorem Awaits.of_turn (ha : Awaits c call p) (hopen : p'.pc.isOpen = p.pc.isOpen)
    (hserving : p'.pc = .serving → p.pc = .serving)
    (hsub : RouterPeer.queue p ⊆ RouterPeer.queue p') : Awaits c call p' := by
  intro hwaiting
  rcases ha hwaiting with ⟨result, hdone, hok⟩ | ⟨hloops, hdone, hmem⟩ | ⟨hloops, hdone⟩
  · exact .inl ⟨result, hdone, fun hpc => hok (hserving hpc)⟩
  · exact .inr (.inl ⟨hopen.trans hloops, hdone, hsub hmem⟩)
  · exact .inr (.inr ⟨hopen.trans hloops, hdone⟩)

/-- Only calls of connection `k` have a request in its queue. -/
theorem sink_of_queue (hs : s.Replies) {request : SendRequest} (hk : s.peers k = some p)
    (hmem : request ∈ RouterPeer.queue p) (hc : s.calls request.call = some call) :
    call.sink = k := by
  obtain ⟨call₀, hc₀, hsink, _⟩ := (hs.own k p hk).mem request ((hs.fifo k p hk).queued hmem)
  rw [hc] at hc₀
  cases hc₀
  exact hsink

/-- Connection `k` turns, and the step does `f` to the calls. It is enough to
look at the calls of `k`. -/
theorem awaits_map (hw : s.Waits) {q q' : RouterPeer}
    {f : SendId → SendCall → SendCall} (hq : s.peers k = some q)
    (hsink : ∀ c x, (f c x).sink = x.sink)
    (hother : ∀ c x, s.calls c = some x → x.sink ≠ k → f c x = x)
    (hmine : ∀ c x, s.calls c = some x → Awaits c x q → Awaits c (f c x) q') :
    ∀ c call p, (s.calls c).map (f c) = some call → (s.setPeer k q').peers call.sink = some p →
      Awaits c call p := by
  intro c call p hc hk
  obtain ⟨x, hx, rfl⟩ := Option.map_eq_some_iff.mp hc
  rw [peers_setPeer, hsink] at hk
  split at hk
  · next heq =>
      cases hk
      exact hmine c x hx (hw.awaits c x q hx (heq ▸ hq))
  · next hne =>
      rw [hother c x hx hne]
      exact hw.awaits c x p hx hk

/-- The writer has tried to write the request at the front, and says how that
went. -/
theorem awaits_answer (hs : s.Replies) (hw : s.Waits) {q q' : RouterPeer} {request : SendRequest}
    {result : Except Error Unit} (hq : s.peers k = some q) (hpc : q.pc = .serving)
    (hwriting : q.writing = some request) (hpc' : q'.pc.isOpen = true)
    (hok : q'.pc = .serving → result = .ok ()) (hqueue : RouterPeer.queue q' = q.outgoing) :
    ∀ c call p, (s.complete request.call result).calls c = some call →
      (s.setPeer k q').peers call.sink = some p → Awaits c call p := by
  have hfront : request ∈ RouterPeer.queue q := by simp [RouterPeer.queue, hwriting]
  refine awaits_map hw hq ?_ ?_ ?_
  · intro c x
    split <;> rfl
  · intro c x hx hne
    refine if_neg ?_
    rintro rfl
    exact hne (sink_of_queue hs hq hfront hx)
  · intro c x hx ha
    split
    · -- the answer to this call
      intro hwaiting
      rcases ha hwaiting with ⟨result', hdone, hok'⟩ | ⟨_, hdone, _⟩ | ⟨hclosed, _⟩
      · exact .inl ⟨result', by simp [hdone, Oneshot.send], fun _ => hok' hpc⟩
      · exact .inl ⟨result, by simp [hdone], hok⟩
      · rw [hpc] at hclosed
        cases hclosed
    · next hne =>
        intro hwaiting
        rcases ha hwaiting with ⟨result', hdone, hok'⟩ | ⟨_, hdone, hmem⟩ | ⟨hclosed, _⟩
        · exact .inl ⟨result', hdone, fun _ => hok' hpc⟩
        · refine .inr (.inl ⟨hpc', hdone, ?_⟩)
          rw [RouterPeer.queue, hwriting] at hmem
          rw [hqueue]
          rcases List.mem_cons.mp hmem with hfirst | hrest
          · exact absurd (congrArg SendRequest.call hfirst) hne
          · exact hrest
        · rw [hpc] at hclosed
          cases hclosed

/-- The loops are dropped, and the requests with them. -/
theorem awaits_leave (hs : s.Replies) (hw : s.Waits) {q q' : RouterPeer} {error : Error}
    (hq : s.peers k = some q) (hpc : q.pc = .leaving error) (hpc' : q'.pc.isOpen = false) :
    ∀ c call p, (s.dropRequests (RouterPeer.queue q)).calls c = some call →
      (s.setPeer k q').peers call.sink = some p → Awaits c call p := by
  have hserving : q'.pc ≠ .serving := by
    intro hserving
    rw [hserving] at hpc'
    cases hpc'
  refine awaits_map hw hq ?_ ?_ ?_
  · intro c x
    split <;> rfl
  · intro c x hx hne
    refine if_neg ?_
    intro hmem
    obtain ⟨request, hrequest, hcall⟩ := List.mem_map.mp hmem
    exact hne (sink_of_queue hs hq hrequest (hcall ▸ hx))
  · intro c x hx ha
    split
    · intro hwaiting
      rcases ha hwaiting with ⟨result, hdone, _⟩ | ⟨_, hdone, _⟩ | ⟨hclosed, _⟩
      · exact .inl ⟨result, by simp [hdone, Oneshot.dropSender], fun h => absurd h hserving⟩
      · exact .inr (.inr ⟨hpc', by simp [hdone, Oneshot.dropSender]⟩)
      · rw [hpc] at hclosed
        cases hclosed
    · next hout =>
        intro hwaiting
        rcases ha hwaiting with ⟨result, hdone, _⟩ | ⟨_, _, hmem⟩ | ⟨hclosed, _⟩
        · exact .inl ⟨result, hdone, fun h => absurd h hserving⟩
        · exact absurd (List.mem_map_of_mem hmem) hout
        · rw [hpc] at hclosed
          cases hclosed

theorem awaits_step (hs : s.Replies) (hw : s.Waits) (h : s.step hmac serde session l = some s') :
    ∀ c call p, s'.calls c = some call → s'.peers call.sink = some p → Awaits c call p := by
  -- one call turns, and the connections are left alone
  have hcall : ∀ {c₀ : SendId} {x' : SendCall},
      (∀ p, s.peers x'.sink = some p → Awaits c₀ x' p) → ∀ c call p,
      (s.setCall c₀ x').calls c = some call → s.peers call.sink = some p → Awaits c call p := by
    intro c₀ x' hx' c call p hc hk
    rw [calls_setCall] at hc
    split at hc
    · next heq =>
        cases hc
        rw [heq]
        exact hx' p hk
    · exact hw.awaits c call p hc hk
  -- a call that waits no longer
  have hover : ∀ {c : SendId} {x : SendCall} {p : RouterPeer}, x.pc ≠ .waiting → Awaits c x p :=
    fun hpc hwaiting => absurd hwaiting hpc
  -- one connection turns, and the calls are left alone
  have hpeer : ∀ {k₀ : ReplySink} {q q' : RouterPeer}, s.peers k₀ = some q →
      q'.pc.isOpen = q.pc.isOpen → (q'.pc = .serving → q.pc = .serving) →
      RouterPeer.queue q ⊆ RouterPeer.queue q' → ∀ c call p, s.calls c = some call →
      (s.setPeer k₀ q').peers call.sink = some p → Awaits c call p := by
    intro k₀ q q' hq hopen hserving hsub c call p hc hk
    rw [peers_setPeer] at hk
    split at hk
    · next heq =>
        cases hk
        exact (hw.awaits c call q hc (heq ▸ hq)).of_turn hopen hserving hsub
    · exact hw.awaits c call p hc hk
  cases step_rule h with
  | @connect k₀ socket identity hk₀ =>
      intro c call p hc hk
      obtain ⟨p₀, hp₀, _⟩ := hs.sink c call hc
      rw [peers_setPeer, if_neg (by rintro heq; rw [heq, hk₀] at hp₀; cases hp₀)] at hk
      exact hw.awaits c call p hc hk
  | send | pollClosed => exact hcall (fun p _ => hover (by simp))
  | pollOpen hc₀ | pending hc₀ =>
      refine hcall (fun p hk => ?_)
      have ha := hw.awaits _ _ p hc₀ hk
      exact ha
  | refused | answered | cancel => exact hcall (fun p _ => hover (by simp))
  | @enqueue c₀ x q hc₀ hk₀ hpolled hpc hopen hroom =>
      intro c call p hc hk
      rw [calls_setPeer, calls_setCall] at hc
      split at hc
      · next heq =>
          cases hc
          rw [peers_setPeer, if_pos rfl] at hk
          cases hk
          intro _
          refine .inr (.inl ⟨hopen, (hw.channel c₀ x hc₀).sending hpc, ?_⟩)
          rw [heq]
          simp [RouterPeer.queue]
      · have hsub : RouterPeer.queue q ⊆ RouterPeer.queue
            { q with outgoing := q.outgoing ++ [⟨c₀, x.frames⟩]
                     accepted := q.accepted ++ [⟨c₀, x.frames⟩] } := by
          rw [RouterPeer.queue, RouterPeer.queue, ← List.append_assoc]
          exact List.subset_append_left _ _
        refine hpeer hk₀ ?_ ?_ hsub c call p hc hk
        · rfl
        · exact fun hserving => hserving
  | take hk₀ hpc hwriting houtgoing =>
      exact hpeer hk₀ rfl (fun _ => hpc) (by simp [RouterPeer.queue, hwriting, houtgoing])
  | wrote hk₀ hpc hwriting =>
      exact awaits_answer hs hw hk₀ hpc hwriting (by rw [hpc]; rfl) (fun _ => rfl) rfl
  | writeFailed hk₀ hpc hwriting =>
      exact awaits_answer hs hw hk₀ hpc hwriting rfl (by simp) rfl
  | leave hk₀ hpc => exact awaits_leave hs hw hk₀ hpc rfl
  | readMessage hk₀ hpc => exact hpeer hk₀ rfl (fun _ => hpc) (List.Subset.refl _)
  | readBad hk₀ hpc => exact hpeer hk₀ (by rw [hpc]; rfl) (fun _ => hpc) (List.Subset.refl _)
  | deliver hk₀ hpc => exact hpeer hk₀ rfl (fun _ => hpc) (List.Subset.refl _)
  | leaving hk₀ hpc => exact hpeer hk₀ (by rw [hpc]; rfl) (fun _ => hpc) (List.Subset.refl _)
  | close hk₀ hpc =>
      exact hpeer hk₀ (by rw [hpc]; rfl) (by simp) (List.Subset.refl _)
  | _ => exact hw.awaits

theorem waits_of_reachable (hr : Reachable hmac serde session s) : s.Waits := by
  obtain ⟨ls, hrun⟩ := hr
  have hkeeps : ∀ a l b, a.Replies ∧ a.Waits → step hmac serde session a l = some b →
      b.Replies ∧ b.Waits := by
    rintro a l b ⟨hs, hw⟩ hstep
    exact ⟨replies_step hs hstep, closedAtEnd_step hw hstep, channelOpen_step hs hw hstep,
      awaits_step hs hw hstep⟩
  exact (run_invariant hkeeps hrun ⟨replies_init, waits_init⟩).2

/-! ## Every call is answered -/

/-- The step brings the call to its return. -/
def Returns (hmac : HmacSha256) (serde : SerdeJson) (session : Session) (s : Routers)
    (l : RouterLabel) (c : SendId) : Prop :=
  ∃ t call' result, s.step hmac serde session l = some t ∧ t.calls c = some call' ∧
    call'.pc = .returned result

theorem returns_of_setCall {result : Except Error Unit} {done : Oneshot (Except Error Unit)}
    {polled : Bool} (h : s.step hmac serde session l =
      some (s.setCall c { call with pc := .returned result, polled, done })) :
    Returns hmac serde session s l c :=
  ⟨_, _, result, h, by rw [calls_setCall, if_pos rfl], rfl⟩

/-- With the loops gone, the rest of a poll is the return of the call. -/
theorem returns_of_dropped (hc : s.calls c = some call) (hk : s.peers call.sink = some p)
    (hpolled : call.polled = true) (hpending : call.pc.pending = true) (ha : Awaits c call p)
    (hpc : p.pc.isOpen = false) : Returns hmac serde session s (.advance c) c := by
  have hstep : s.step hmac serde session (.advance c) = s.advance c call p := by
    simp [step, hc, hk, hpolled]
  cases hcall : call.pc with
  | sending =>
      have hadvance : s.advance c call p = some (s.setCall c
          { call with pc := .returned (.error serviceClosed), polled := false }) := by
        simp [advance, hcall, hpc]
      exact returns_of_setCall (hstep.trans hadvance)
  | waiting =>
      rcases ha hcall with ⟨result, hdone, _⟩ | ⟨hopen, _⟩ | ⟨_, hdone⟩
      · have hadvance : s.advance c call p = some (s.setCall c
            { call with pc := .returned result, polled := false }) := by
          simp [advance, hcall, hdone]
        exact returns_of_setCall (hstep.trans hadvance)
      · rw [hpc] at hopen
        cases hopen
      · have hadvance : s.advance c call p = some (s.setCall c
            { call with pc := .returned (.error recvFailed), polled := false }) := by
          simp [advance, hcall, hdone]
        exact returns_of_setCall (hstep.trans hadvance)
  | returned | cancelled => rw [hcall] at hpending; cases hpending

/-- In every state of every run, of a call in progress: while the loops of its
connection are there, the request that has entered the queue is still in it or
has its outcome, which is `Ok` while the connection is served; once they are
gone, a poll that is under way returns; and once the connection has ended, so
does the next poll. -/
theorem send_answered (hr : Reachable hmac serde session s) (hc : s.calls c = some call)
    (hpending : call.pc.pending = true) :
    ∃ p, s.peers call.sink = some p ∧
      (p.pc.isOpen = true → call.pc = .waiting →
        (∃ result, call.done = .sent result ∧ (p.pc = .serving → result = .ok ())) ∨
        call.done = .waiting ∧ ⟨c, call.frames⟩ ∈ RouterPeer.queue p) ∧
      (p.pc.isOpen = false → call.polled = true → Returns hmac serde session s (.advance c) c) ∧
      (p.pc = .ended → call.polled = false → Returns hmac serde session s (.poll c) c) := by
  obtain ⟨p, hk, _⟩ := (replies_of_reachable hr).sink c call hc
  have hw := waits_of_reachable hr
  have ha := hw.awaits c call p hc hk
  refine ⟨p, hk, fun hopen hwaiting => ?_, fun hpc hpolled => ?_, fun hpc hpolled => ?_⟩
  · rcases ha hwaiting with hsent | ⟨_, hqueued⟩ | ⟨hclosed, _⟩
    · exact .inl hsent
    · exact .inr hqueued
    · rw [hopen] at hclosed
      cases hclosed
  · exact returns_of_dropped hc hk hpolled hpending ha hpc
  · obtain ⟨error, hclosed⟩ := Option.ne_none_iff_exists'.mp ((hw.closed _ p hk).mpr hpc)
    have hstep : s.step hmac serde session (.poll c) = some (s.setCall c { call with
        pc := .returned (.error error), done := call.done.close }) := by
      simp [step, hc, hk, hpending, hpolled, hclosed]
    exact returns_of_setCall hstep

/-- Two calls whose requests are queued, with the first of them being written. -/
def queuedReplies : List RouterLabel :=
  [.send 0 0 [ascii "x"], .send 1 0 [ascii "y"], .poll 0, .advance 0, .poll 1, .advance 1, .advance 1,
    .take 0]

/-- The second call has its request in the queue; after an abort of the
connection it returns. -/
theorem send_answered_aborted :
    ∃ s p call t, run (step secretHmac emptyObjectJson secretSession) connected queuedReplies = some s ∧
      s.peers 0 = some p ∧ s.calls 1 = some call ∧ ⟨1, call.frames⟩ ∈ RouterPeer.queue p ∧
      run (step secretHmac emptyObjectJson secretSession) s [.poll 1, .abort 0, .leave 0] = some t ∧
      Returns secretHmac emptyObjectJson secretSession t (.advance 1) 1 := by
  obtain ⟨s, p, call, hs, hp, hc, hsink, hwaiting, hdone, hopen⟩ : ∃ s p call,
      run (step secretHmac emptyObjectJson secretSession) connected queuedReplies = some s ∧
      s.peers 0 = some p ∧ s.calls 1 = some call ∧ call.sink = 0 ∧ call.pc = .waiting ∧
      call.done = .waiting ∧ p.pc.isOpen = true := ⟨_, _, _, rfl, rfl, rfl, rfl, rfl, rfl, rfl⟩
  obtain ⟨t, p', call', ht, hp', hc', hsink', hwaiting', hpolled', hclosed'⟩ : ∃ t p' call',
      run (step secretHmac emptyObjectJson secretSession) connected
        (queuedReplies ++ [.poll 1, .abort 0, .leave 0]) = some t ∧
      t.peers 0 = some p' ∧ t.calls 1 = some call' ∧ call'.sink = 0 ∧ call'.pc = .waiting ∧
      call'.polled = true ∧ p'.pc.isOpen = false := ⟨_, _, _, rfl, rfl, rfl, rfl, rfl, rfl, rfl⟩
  have hconnected : Reachable secretHmac emptyObjectJson secretSession connected :=
    ⟨[.connect 0 .shell (ascii "a")], rfl⟩
  have hqueued : ⟨1, call.frames⟩ ∈ RouterPeer.queue p := by
    obtain ⟨q, hq, hanswered, _⟩ := send_answered (Lib.Reachable.trans hconnected ⟨_, hs⟩) hc
      (by rw [hwaiting]; rfl)
    rw [hsink, hp] at hq
    cases hq
    rcases hanswered hopen hwaiting with ⟨result, hsent, _⟩ | ⟨_, hmem⟩
    · rw [hdone] at hsent
      cases hsent
    · exact hmem
  obtain ⟨q, hq, _, hreturns, _⟩ := send_answered (Lib.Reachable.trans hconnected ⟨_, ht⟩) hc'
    (by rw [hwaiting']; rfl)
  rw [hsink', hp'] at hq
  cases hq
  obtain ⟨m, hm, hrest⟩ := run_append_eq_some.mp ht
  rw [hs] at hm
  cases hm
  exact ⟨s, p, call, t, hs, hp, hc, hqueued, hrest, hreturns hclosed' hpolled'⟩

end Routers

end Kernmini.Transport
