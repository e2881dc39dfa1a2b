/-
Kernmini.Transport.RouterReplies — what a connection writes of the replies.

Any number of tasks send through a connection while it is served, ends or is
aborted. `QueueTurn` and `CallTurn` say once for all steps what happens to the
queue of a connection and to a call of `ReplySink::send`. It follows that a
connection writes what entered its queue, in that order, each request once,
and that a call that has returned `Ok` has been written (`replies_in_order`).

The converse of the last does not hold: a call can return the error of the
connection although its request was written, since every poll looks at the
watch channel first.
-/
import Kernmini.Transport.RouterPeer

namespace Kernmini.Transport

open Kernmini.Wire Kernmini.Engine Kernmini.Lib
open Kernmini.Wire.Session (secretHmac emptyObjectJson secretSession)

namespace Routers

variable {hmac : HmacSha256} {serde : SerdeJson} {session : Session}
  {s s' t : Routers} {l : RouterLabel} {ls : List RouterLabel}
  {k : ReplySink} {c : SendId} {p p' : RouterPeer} {call call' : SendCall}

/-! ## Reading the maps -/

@[simp] theorem calls_setPeer : (s.setPeer k p).calls = s.calls := rfl

@[simp] theorem peers_setCall : (s.setCall c call).peers = s.peers := rfl

@[simp] theorem peers_complete {result : Except Error Unit} :
    (s.complete c result).peers = s.peers := rfl

@[simp] theorem peers_dropRequests {requests : List SendRequest} :
    (s.dropRequests requests).peers = s.peers := rfl

theorem peers_setPeer {k' : ReplySink} :
    (s.setPeer k p).peers k' = if k' = k then some p else s.peers k' := by
  simp [setPeer, Function.update_apply]

theorem calls_setCall {c' : SendId} :
    (s.setCall c call).calls c' = if c' = c then some call else s.calls c' := by
  simp [setCall, Function.update_apply]

/-! ## What a step does to a queue -/

/-- The requests a connection has accepted and not yet written. -/
def RouterPeer.queue (p : RouterPeer) : List SendRequest := p.writing.toList ++ p.outgoing

/-- What a step does to the queue of a connection. -/
inductive QueueTurn (s s' : Routers) (k : ReplySink) (p p' : RouterPeer) : Prop
  | keep (haccepted : p'.accepted = p.accepted) (hwritten : p'.written = p.written)
      (hsub : RouterPeer.queue p' ⊆ RouterPeer.queue p)
      (hserving : p'.pc = .serving → p.pc = .serving ∧ RouterPeer.queue p' = RouterPeer.queue p)
  | enqueue (c : SendId) (call : SendCall) (hc : s.calls c = some call) (hsink : call.sink = k)
      (hpc : call.pc = .sending) (hleft : ∀ call', s'.calls c = some call' → call'.pc ≠ .sending)
      (hpc' : p'.pc = p.pc) (hwriting : p'.writing = p.writing)
      (houtgoing : p'.outgoing = p.outgoing ++ [⟨c, call.frames⟩])
      (haccepted : p'.accepted = p.accepted ++ [⟨c, call.frames⟩]) (hwritten : p'.written = p.written)
  | wrote (request : SendRequest) (hpc : p.pc = .serving) (hwriting : p.writing = some request)
      (hwriting' : p'.writing = none) (houtgoing : p'.outgoing = p.outgoing)
      (haccepted : p'.accepted = p.accepted) (hwritten : p'.written = p.written ++ [request])

theorem QueueTurn.refl : QueueTurn s s' k p p :=
  .keep rfl rfl (List.Subset.refl _) (fun hpc => ⟨hpc, rfl⟩)

/-- The connection is served as before. -/
theorem QueueTurn.of_same (haccepted : p'.accepted = p.accepted) (hwritten : p'.written = p.written)
    (hpc : p.pc = .serving) (hqueue : RouterPeer.queue p' = RouterPeer.queue p) :
    QueueTurn s s' k p p' :=
  .keep haccepted hwritten (by rw [hqueue]; exact List.Subset.refl _) (fun _ => ⟨hpc, hqueue⟩)

/-- A connection that is no longer served keeps its history. -/
theorem QueueTurn.of_over (haccepted : p'.accepted = p.accepted) (hwritten : p'.written = p.written)
    (hsub : RouterPeer.queue p' ⊆ RouterPeer.queue p) (hpc : p'.pc ≠ .serving) :
    QueueTurn s s' k p p' :=
  .keep haccepted hwritten hsub (fun hserving => absurd hserving hpc)

/-- Only connection `k` turns. -/
theorem queueTurn_setPeer {m : Routers} {k' : ReplySink} {q' : RouterPeer}
    (hm : s'.peers = (m.setPeer k p').peers) (hpeers : m.peers = s.peers) (hk : s.peers k = some p)
    (hturn : QueueTurn s s' k p p') (hk' : s'.peers k' = some q') :
    ∃ q, s.peers k' = some q ∧ QueueTurn s s' k' q q' := by
  rw [hm, peers_setPeer, hpeers] at hk'
  split at hk'
  · next heq =>
      cases hk'
      rw [heq]
      exact ⟨p, hk, hturn⟩
  · exact ⟨q', hk', .refl⟩

/-- A connection that was there before the step, or one that is new and empty. -/
inductive PeerOrigin (s s' : Routers) (k : ReplySink) (p' : RouterPeer) : Prop
  | old (p : RouterPeer) (hk : s.peers k = some p) (hturn : QueueTurn s s' k p p')
  | new (hk : s.peers k = none) (hp : ∃ socket identity, p' = { socket, identity })

theorem step_queue (h : s.step hmac serde session l = some s') (hk' : s'.peers k = some p') :
    PeerOrigin s s' k p' := by
  have hsame : s'.peers = s.peers → PeerOrigin s s' k p' := by
    intro hpeers
    exact .old p' (hpeers ▸ hk') .refl
  have hset : ∀ {m : Routers} {k₀ : ReplySink} {q q' : RouterPeer},
      s'.peers = (m.setPeer k₀ q').peers → m.peers = s.peers → s.peers k₀ = some q →
      QueueTurn s s' k₀ q q' → PeerOrigin s s' k p' := by
    intro m k₀ q q' hm hpeers hk₀ hturn
    obtain ⟨r, hr, hturn⟩ := queueTurn_setPeer hm hpeers hk₀ hturn hk'
    exact .old r hr hturn
  cases step_rule h with
  | @connect k₀ socket identity hk₀ =>
      rw [peers_setPeer] at hk'
      split at hk'
      · next heq =>
          cases hk'
          exact .new (heq ▸ hk₀) ⟨socket, identity, rfl⟩
      · exact .old p' hk' .refl
  | enqueue hc hk₀ hpolled hpc hopen hroom =>
      refine hset rfl rfl hk₀ (.enqueue _ _ hc rfl hpc ?_ rfl rfl rfl rfl rfl)
      intro call' hc'
      rw [calls_setPeer, calls_setCall, if_pos rfl] at hc'
      cases hc'
      simp
  | take hk₀ hpc hwriting houtgoing =>
      refine hset rfl rfl hk₀ (.of_same rfl rfl hpc ?_)
      simp [RouterPeer.queue, hwriting, houtgoing]
  | wrote hk₀ hpc hwriting =>
      exact hset rfl rfl hk₀ (.wrote _ hpc hwriting rfl rfl rfl rfl)
  | writeFailed hk₀ hpc hwriting =>
      exact hset rfl rfl hk₀ (.of_over rfl rfl (by simp [RouterPeer.queue]) (by simp))
  | readMessage hk₀ hpc hinbound hdecode => exact hset rfl rfl hk₀ (.of_same rfl rfl hpc rfl)
  | readBad hk₀ hpc hinbound hdecode hbad =>
      exact hset rfl rfl hk₀ (.of_over rfl rfl (List.Subset.refl _) (by simp))
  | deliver hk₀ hpc hinbound => exact hset rfl rfl hk₀ (.of_same rfl rfl hpc rfl)
  | leaving hk₀ hpc hinbound =>
      exact hset rfl rfl hk₀ (.of_over rfl rfl (List.Subset.refl _) (by simp))
  | leave hk₀ hpc =>
      exact hset rfl rfl hk₀ (.of_over rfl rfl (by simp [RouterPeer.queue]) (by simp))
  | close hk₀ hpc => exact hset rfl rfl hk₀ (.of_over rfl rfl (List.Subset.refl _) (by simp))
  | _ => exact hsame rfl

/-! ## What a step does to a call -/

/-- `Ok` has been sent to the call, or the call has returned it. -/
def SendCall.Acknowledged (call : SendCall) : Prop :=
  call.done = .sent (.ok ()) ∨ call.pc = .returned (.ok ())

/-- What a step does to a call of `send`. -/
structure CallTurn (s s' : Routers) (c : SendId) (call call' : SendCall) : Prop where
  sink : call'.sink = call.sink
  frames : call'.frames = call.frames
  sending : call'.pc = .sending → call.pc = .sending
  acknowledged : SendCall.Acknowledged call' → SendCall.Acknowledged call ∨
    ∃ k p p' request, s.peers k = some p ∧ p.pc = .serving ∧ p.writing = some request ∧
      request.call = c ∧ s'.peers k = some p' ∧ p'.written = p.written ++ [request]

theorem CallTurn.refl : CallTurn s s' c call call := ⟨rfl, rfl, id, .inl⟩

/-- The call goes on, and is answered nothing. -/
theorem CallTurn.of_same (hsink : call'.sink = call.sink) (hframes : call'.frames = call.frames)
    (hsending : call'.pc = .sending → call.pc = .sending)
    (hdone : call'.done = .sent (.ok ()) → call.done = .sent (.ok ()))
    (hpc : call'.pc = .returned (.ok ()) → SendCall.Acknowledged call) :
    CallTurn s s' c call call' where
  sink := hsink
  frames := hframes
  sending := hsending
  acknowledged := by
    rintro (h | h)
    · exact .inl (.inl (hdone h))
    · exact .inl (hpc h)

/-- A call that was there before the step, or one that has just been made. -/
inductive CallOrigin (s s' : Routers) (c : SendId) (call' : SendCall) : Prop
  | old (call : SendCall) (hc : s.calls c = some call) (hturn : CallTurn s s' c call call')
  | new (hc : s.calls c = none) (hk : ∃ p, s.peers call'.sink = some p)
      (hcall : call' = { sink := call'.sink, frames := call'.frames })

theorem sent_of_close {done : Oneshot (Except Error Unit)} {result : Except Error Unit}
    (h : done.close = .sent result) : done = .sent result := Oneshot.close_eq_sent.mp h

theorem step_call (h : s.step hmac serde session l = some s') (hc' : s'.calls c = some call') :
    CallOrigin s s' c call' := by
  have hsame : s'.calls = s.calls → CallOrigin s s' c call' := by
    intro hcalls
    exact .old call' (hcalls ▸ hc') .refl
  have hset : ∀ {m : Routers} {c₀ : SendId} {x x' : SendCall}, s'.calls = (m.setCall c₀ x').calls →
      m.calls = s.calls → s.calls c₀ = some x → CallTurn s s' c₀ x x' → CallOrigin s s' c call' := by
    intro m c₀ x x' hm hcalls hc₀ hturn
    rw [hm, calls_setCall, hcalls] at hc'
    split at hc'
    · next heq =>
        cases hc'
        rw [← heq] at hc₀ hturn
        exact .old x hc₀ hturn
    · exact .old call' hc' .refl
  cases step_rule h with
  | @send c₀ k₀ p₀ frames hc₀ hk₀ =>
      rw [calls_setCall] at hc'
      split at hc'
      · next heq =>
          cases hc'
          exact .new (heq ▸ hc₀) ⟨p₀, hk₀⟩ rfl
      · exact .old call' hc' .refl
  | pollClosed hc₀ hk₀ hpend hpolled hclosed =>
      exact hset rfl rfl hc₀ (.of_same rfl rfl (by simp) sent_of_close (by simp))
  | pollOpen hc₀ hk₀ hpend hpolled hclosed =>
      exact hset rfl rfl hc₀ (.of_same rfl rfl id id .inr)
  | enqueue hc₀ hk₀ hpolled hpc hopen hroom =>
      exact hset rfl rfl hc₀ (.of_same rfl rfl (by simp) id (by simp))
  | pending hc₀ hk₀ hpolled hpend =>
      exact hset rfl rfl hc₀ (.of_same rfl rfl id id .inr)
  | refused hc₀ hk₀ hpolled hpend =>
      exact hset rfl rfl hc₀ (.of_same rfl rfl (by simp) id (by simp))
  | @answered c₀ x p₀ result hc₀ hk₀ hpolled hpc hdone =>
      refine hset rfl rfl hc₀ (.of_same rfl rfl (by simp) id ?_)
      intro hresult
      refine .inl (hdone.trans ?_)
      rw [SendPc.returned.inj hresult]
  | cancel hc₀ hpend hpolled =>
      exact hset rfl rfl hc₀ (.of_same rfl rfl (by simp) sent_of_close (by simp))
  | @wrote k₀ p₀ request hk₀ hpc hwriting =>
      obtain ⟨call, hc, heq⟩ := Option.map_eq_some_iff.mp hc'
      refine .old call hc ?_
      split at heq
      · next hcall =>
          rw [← heq]
          refine ⟨rfl, rfl, id, ?_⟩
          intro _
          exact .inr ⟨k₀, p₀, _, request, hk₀, hpc, hwriting, hcall.symm,
            by rw [peers_setPeer, if_pos rfl], rfl⟩
      · rw [← heq]
        exact .refl
  | @writeFailed k₀ p₀ request error hk₀ hpc hwriting =>
      obtain ⟨call, hc, heq⟩ := Option.map_eq_some_iff.mp hc'
      refine .old call hc ?_
      split at heq
      · rw [← heq]
        refine .of_same rfl rfl id ?_ .inr
        intro hsent
        rcases Oneshot.send_eq_sent.mp hsent with hold | ⟨_, herror⟩
        · exact hold
        · cases herror
      · rw [← heq]
        exact .refl
  | @leave k₀ p₀ error hk₀ hpc =>
      obtain ⟨call, hc, heq⟩ := Option.map_eq_some_iff.mp hc'
      refine .old call hc ?_
      split at heq
      · rw [← heq]
        refine .of_same rfl rfl id ?_ .inr
        intro hsent
        cases hdone : call.done <;> simp [Oneshot.dropSender, hdone] at hsent ⊢
        exact hsent
      · rw [← heq]
        exact .refl
  | _ => exact hsame rfl

/-! ## The queues over whole runs -/

/-- A connection writes from the front of its queue. -/
structure Fifo (p : RouterPeer) : Prop where
  front : p.written <+: p.accepted
  queued : RouterPeer.queue p ⊆ p.accepted
  conserved : p.pc = .serving → p.accepted = p.written ++ RouterPeer.queue p

theorem Fifo.turn (hp : Fifo p) (hturn : QueueTurn s s' k p p') : Fifo p' := by
  cases hturn with
  | keep haccepted hwritten hsub hserving =>
      refine ⟨by rw [haccepted, hwritten]; exact hp.front, ?_, ?_⟩
      · rw [haccepted]
        exact List.Subset.trans hsub hp.queued
      · intro hpc'
        obtain ⟨hpc, hqueue⟩ := hserving hpc'
        rw [haccepted, hwritten, hqueue]
        exact hp.conserved hpc
  | enqueue c call hc hsink hpc hleft hpc' hwriting houtgoing haccepted hwritten =>
      have hqueue : RouterPeer.queue p' = RouterPeer.queue p ++ [⟨c, call.frames⟩] := by
        rw [RouterPeer.queue, RouterPeer.queue, hwriting, houtgoing, List.append_assoc]
      refine ⟨?_, ?_, ?_⟩
      · rw [haccepted, hwritten]
        exact hp.front.trans (List.prefix_append _ _)
      · rw [haccepted, hqueue]
        exact List.append_subset.mpr ⟨List.Subset.trans hp.queued (List.subset_append_left _ _),
          List.subset_append_right _ _⟩
      · intro hserving
        rw [haccepted, hwritten, hqueue, hp.conserved (hpc' ▸ hserving), List.append_assoc]
  | wrote request hpc hwriting hwriting' houtgoing haccepted hwritten =>
      have hqueue : RouterPeer.queue p = request :: RouterPeer.queue p' := by
        rw [RouterPeer.queue, RouterPeer.queue, hwriting, hwriting', houtgoing]
        rfl
      have hsplit : p'.accepted = p'.written ++ RouterPeer.queue p' := by
        rw [haccepted, hwritten, hp.conserved hpc, hqueue, List.append_assoc]
        rfl
      refine ⟨?_, ?_, fun _ => hsplit⟩
      · rw [hsplit]
        exact List.prefix_append _ _
      · rw [hsplit]
        exact List.subset_append_right _ _

/-- The requests of a connection are those of its calls, one each. -/
structure Own (s : Routers) (k : ReplySink) (p : RouterPeer) : Prop where
  nodup : (p.accepted.map SendRequest.call).Nodup
  mem : ∀ request ∈ p.accepted, ∃ call, s.calls request.call = some call ∧ call.sink = k ∧
    call.frames = request.frames ∧ call.pc ≠ .sending

/-- What holds of the replies in every run. -/
structure Replies (s : Routers) : Prop where
  fifo : ∀ k p, s.peers k = some p → Fifo p
  own : ∀ k p, s.peers k = some p → Own s k p
  sink : ∀ c call, s.calls c = some call → ∃ p, s.peers call.sink = some p ∧
    (SendCall.Acknowledged call → ⟨c, call.frames⟩ ∈ p.written)

/-- No connection and no call goes away. -/
theorem peer_stays (h : s.step hmac serde session l = some s') (hk : s.peers k = some p) :
    ∃ p', s'.peers k = some p' := by
  have hset : ∀ {m : Routers} {k₀ : ReplySink} {q : RouterPeer}, m.peers = s.peers →
      ∃ p', (m.setPeer k₀ q).peers k = some p' := by
    intro m k₀ q hpeers
    rw [peers_setPeer, hpeers]
    split
    · exact ⟨q, rfl⟩
    · exact ⟨p, hk⟩
  cases step_rule h with
  | connect | enqueue | take | wrote | writeFailed | readMessage | readBad | deliver | leaving
  | leave | close => exact hset rfl
  | _ => exact ⟨p, hk⟩

theorem call_stays (h : s.step hmac serde session l = some s') (hc : s.calls c = some call) :
    ∃ call', s'.calls c = some call' := by
  have hset : ∀ {m : Routers} {c₀ : SendId} {x : SendCall}, m.calls = s.calls →
      ∃ call', (m.setCall c₀ x).calls c = some call' := by
    intro m c₀ x hcalls
    rw [calls_setCall, hcalls]
    split
    · exact ⟨x, rfl⟩
    · exact ⟨call, hc⟩
  have hmap : ∀ {f : SendCall → SendCall}, ∃ call', (s.calls c).map f = some call' := by
    intro f
    rw [hc]
    exact ⟨_, rfl⟩
  cases step_rule h with
  | send | pollClosed | pollOpen | enqueue | pending | refused | answered | cancel => exact hset rfl
  | wrote | writeFailed | leave => exact hmap
  | _ => exact ⟨call, hc⟩

/-- The call after a step, when it was there before. -/
theorem call_turn (h : s.step hmac serde session l = some s') (hc : s.calls c = some call) :
    ∃ call', s'.calls c = some call' ∧ CallTurn s s' c call call' := by
  obtain ⟨call', hc'⟩ := call_stays h hc
  refine ⟨call', hc', ?_⟩
  cases step_call h hc' with
  | old call₀ hc₀ hturn =>
      rw [hc] at hc₀
      cases hc₀
      exact hturn
  | new hnone =>
      rw [hc] at hnone
      cases hnone

/-- The connection after a step, when it was there before. -/
theorem peer_turn (h : s.step hmac serde session l = some s') (hk : s.peers k = some p) :
    ∃ p', s'.peers k = some p' ∧ QueueTurn s s' k p p' := by
  obtain ⟨p', hk'⟩ := peer_stays h hk
  refine ⟨p', hk', ?_⟩
  cases step_queue h hk' with
  | old p₀ hk₀ hturn =>
      rw [hk] at hk₀
      cases hk₀
      exact hturn
  | new hnone =>
      rw [hk] at hnone
      cases hnone

/-- What was written, or entered the queue, stays so. -/
theorem QueueTurn.grows (hturn : QueueTurn s s' k p p') :
    p.written <+: p'.written ∧ p.accepted <+: p'.accepted := by
  cases hturn with
  | keep haccepted hwritten hsub hserving =>
      rw [haccepted, hwritten]
      exact ⟨List.prefix_refl _, List.prefix_refl _⟩
  | enqueue c call hc hsink hpc hleft hpc' hwriting houtgoing haccepted hwritten =>
      rw [haccepted, hwritten]
      exact ⟨List.prefix_refl _, List.prefix_append _ _⟩
  | wrote request hpc hwriting hwriting' houtgoing haccepted hwritten =>
      rw [haccepted, hwritten]
      exact ⟨List.prefix_append _ _, List.prefix_refl _⟩

theorem Own.step (ho : Own s k p) (h : s.step hmac serde session l = some s')
    (hturn : QueueTurn s s' k p p') : Own s' k p' := by
  -- the requests that were there already
  have hold : ∀ request ∈ p.accepted, ∃ call, s'.calls request.call = some call ∧ call.sink = k ∧
      call.frames = request.frames ∧ call.pc ≠ .sending := by
    intro request hmem
    obtain ⟨call, hc, hsink, hframes, hpc⟩ := ho.mem request hmem
    obtain ⟨call', hc', hcall⟩ := call_turn h hc
    exact ⟨call', hc', hcall.sink.trans hsink, hcall.frames.trans hframes,
      fun hsending => hpc (hcall.sending hsending)⟩
  cases hturn with
  | keep haccepted hwritten hsub hserving =>
      exact ⟨by rw [haccepted]; exact ho.nodup, by rw [haccepted]; exact hold⟩
  | wrote request hpc hwriting hwriting' houtgoing haccepted hwritten =>
      exact ⟨by rw [haccepted]; exact ho.nodup, by rw [haccepted]; exact hold⟩
  | enqueue c call hc hsink hpc hleft hpc' hwriting houtgoing haccepted hwritten =>
      refine ⟨?_, ?_⟩
      · rw [haccepted, List.map_append, List.nodup_append]
        refine ⟨ho.nodup, by simp, ?_⟩
        -- a call that is still sending is not in the queue
        rintro _ hmem _ hnew rfl
        obtain ⟨request, hrequest, heq⟩ := List.mem_map.mp hmem
        obtain ⟨call₀, hc₀, _, _, hpc₀⟩ := ho.mem request hrequest
        have hcall : request.call = c := heq.trans (List.mem_singleton.mp hnew)
        rw [hcall, hc] at hc₀
        cases hc₀
        exact hpc₀ hpc
      · rw [haccepted]
        intro request hmem
        rcases List.mem_append.mp hmem with hmem | hmem
        · exact hold request hmem
        · rw [List.mem_singleton.mp hmem]
          obtain ⟨call', hc', hcall⟩ := call_turn h hc
          exact ⟨call', hc', hcall.sink.trans hsink, hcall.frames, hleft call' hc'⟩

theorem replies_init : Replies {} where
  fifo := by intro k p hk; cases hk
  own := by intro k p hk; cases hk
  sink := by intro c call hc; cases hc

theorem replies_step (hs : s.Replies) (h : s.step hmac serde session l = some s') :
    s'.Replies where
  fifo := by
    intro k p' hk'
    cases step_queue h hk' with
    | old p hk hturn => exact (hs.fifo k p hk).turn hturn
    | new hk hp =>
        obtain ⟨socket, identity, rfl⟩ := hp
        exact ⟨List.prefix_refl _, List.Subset.refl _, fun _ => rfl⟩
  own := by
    intro k p' hk'
    cases step_queue h hk' with
    | old p hk hturn => exact (hs.own k p hk).step h hturn
    | new hk hp =>
        obtain ⟨socket, identity, rfl⟩ := hp
        exact ⟨List.nodup_nil, by simp⟩
  sink := by
    intro c call' hc'
    cases step_call h hc' with
    | new hc hk hcall =>
        obtain ⟨p, hk⟩ := hk
        obtain ⟨p', hk', _⟩ := peer_turn h hk
        refine ⟨p', hk', ?_⟩
        rw [hcall]
        rintro (hdone | hpc)
        · cases hdone
        · cases hpc
    | old call hc hturn =>
        obtain ⟨p, hk, hwritten⟩ := hs.sink c call hc
        obtain ⟨p', hk', hpeer⟩ := peer_turn h hk
        refine ⟨p', hturn.sink ▸ hk', ?_⟩
        intro hacknowledged
        rw [hturn.frames]
        rcases hturn.acknowledged hacknowledged with hold |
          ⟨k₀, q, q', request, hq, hserving, hwriting, hcall, hq', hgrown⟩
        · exact hpeer.grows.1.subset (hwritten hold)
        · -- the request that was written is the call's own
          have hmem : request ∈ q.accepted := by
            exact (hs.fifo k₀ q hq).queued (by simp [RouterPeer.queue, hwriting])
          obtain ⟨call₀, hc₀, hsink, hframes, _⟩ := (hs.own k₀ q hq).mem request hmem
          rw [hcall, hc] at hc₀
          cases hc₀
          rw [hsink] at hk'
          rw [hk'] at hq'
          cases hq'
          rw [hgrown, hframes, ← hcall]
          simp

theorem replies_of_reachable (hr : Reachable hmac serde session s) : s.Replies :=
  Lib.Reachable.invariant hr replies_init (fun _ _ _ => replies_step)

/-- In a run a connection goes on from what it has accepted and written. -/
theorem grows_of_run (hrun : Lib.run (step hmac serde session) s ls = some t)
    (hk : s.peers k = some p) :
    ∃ p', t.peers k = some p' ∧ p.written <+: p'.written ∧ p.accepted <+: p'.accepted := by
  have hkeeps : ∀ a l b, (∃ q, a.peers k = some q ∧ p.written <+: q.written ∧
      p.accepted <+: q.accepted) → step hmac serde session a l = some b →
      ∃ q, b.peers k = some q ∧ p.written <+: q.written ∧ p.accepted <+: q.accepted := by
    rintro a l b ⟨q, hq, hwritten, haccepted⟩ hstep
    obtain ⟨q', hq', hturn⟩ := peer_turn hstep hq
    exact ⟨q', hq', hwritten.trans hturn.grows.1, haccepted.trans hturn.grows.2⟩
  exact run_invariant hkeeps hrun ⟨p, hk, List.prefix_refl _, List.prefix_refl _⟩

/-- However the calls of `send` and the connections interleave: a connection
accepts each call's frames at most once, and writes what it has accepted from
the front. Both only grow at their end, so what is accepted later is written
later. A call that has returned `Ok` has been written. -/
theorem replies_in_order (hr : Reachable hmac serde session s)
    (hrun : Lib.run (step hmac serde session) s ls = some t) (hk : s.peers k = some p) :
    ∃ p', t.peers k = some p' ∧ p.accepted <+: p'.accepted ∧ p.written <+: p'.written ∧
      p'.written <+: p'.accepted ∧ (p'.accepted.map SendRequest.call).Nodup ∧
      (∀ request ∈ p'.accepted, ∃ call, t.calls request.call = some call ∧ call.sink = k ∧
        call.frames = request.frames) ∧
      ∀ c call, t.calls c = some call → call.sink = k → call.pc = .returned (.ok ()) →
        ⟨c, call.frames⟩ ∈ p'.written := by
  have ht : t.Replies := replies_of_reachable (Lib.Reachable.trans hr ⟨ls, hrun⟩)
  obtain ⟨p', hk', hwritten, haccepted⟩ := grows_of_run hrun hk
  refine ⟨p', hk', haccepted, hwritten, (ht.fifo k p' hk').front, (ht.own k p' hk').nodup, ?_, ?_⟩
  · intro request hmem
    obtain ⟨call, hc, hsink, hframes, _⟩ := (ht.own k p' hk').mem request hmem
    exact ⟨call, hc, hsink, hframes⟩
  · intro c call hc hsink hpc
    obtain ⟨q, hq, hmem⟩ := ht.sink c call hc
    rw [hsink, hk'] at hq
    cases hq
    exact hmem (.inr hpc)

/-- A connection of the shell socket, as it is accepted. -/
def connected : Routers := Routers.setPeer {} 0 { socket := .shell, identity := ascii "a" }

/-- Two replies enter the queue, and the first is written and acknowledged. -/
def twoReplies : List RouterLabel :=
  [.send 0 0 [ascii "x"], .send 1 0 [ascii "y"], .poll 1, .poll 0, .advance 0, .advance 0, .advance 1,
    .take 0, .wrote 0, .poll 0, .advance 0]

def SendPc.isOk : SendPc → Bool
  | .returned (.ok _) => true
  | _ => false

theorem SendPc.eq_of_isOk {pc : SendPc} (h : SendPc.isOk pc = true) : pc = .returned (.ok ()) := by
  unfold SendPc.isOk at h
  split at h
  · rfl
  · cases h

theorem replies_in_order_two :
    ∃ t p', run (step secretHmac emptyObjectJson secretSession) connected twoReplies = some t ∧
      t.peers 0 = some p' ∧ ⟨0, [ascii "x"]⟩ ∈ p'.written ∧ p'.written <+: p'.accepted := by
  have hview : (run (step secretHmac emptyObjectJson secretSession) connected twoReplies).bind
      (fun t => (t.calls 0).map (fun call => (call.sink, call.frames, SendPc.isOk call.pc))) =
        some (0, [ascii "x"], true) := by decide
  obtain ⟨t, ht, hview⟩ := Option.bind_eq_some_iff.mp hview
  obtain ⟨call, hc, heq⟩ := Option.map_eq_some_iff.mp hview
  obtain ⟨hsink, hframes, hok⟩ :
      call.sink = 0 ∧ call.frames = [ascii "x"] ∧ SendPc.isOk call.pc = true := by
    simpa using heq
  have hr : Reachable secretHmac emptyObjectJson secretSession connected :=
    ⟨[.connect 0 .shell (ascii "a")], rfl⟩
  have hk : connected.peers 0 = some { socket := .shell, identity := ascii "a" } := rfl
  obtain ⟨p', hk', _, _, hfront, _, _, hwritten⟩ := replies_in_order hr ht hk
  refine ⟨t, p', ht, hk', ?_, hfront⟩
  rw [← hframes]
  exact hwritten 0 call hc hsink (SendPc.eq_of_isOk hok)

end Routers

end Kernmini.Transport
