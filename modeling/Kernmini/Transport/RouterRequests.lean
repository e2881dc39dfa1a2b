/-
Kernmini.Transport.RouterRequests — what the kernel gets to see of what its
clients send.

The connections of all three sockets read at the same time and share the seen
signatures. `decodeLog` is what the engine is to make of it: everything that
was read, in the order in which it was read, is decoded one after the other.
Whatever the interleaving, a connection hands on what `decodeLog` gives for
its own frames, in that order; what it cannot decode is the last it reads; and
with a key no signature is let through twice, on whichever socket it comes
again (`requests_exact`).
-/
import Kernmini.Transport.RouterReplies

namespace Kernmini.Transport

open Kernmini.Wire Kernmini.Engine Kernmini.Lib
open Kernmini.Wire.Session (secretHmac emptyObjectJson secretSession)

/-- What was read from a connection, and what `decode` made of it. -/
structure Entry where
  sink : ReplySink
  frames : List Bytes
  result : Except WireError Message

namespace Entry

/-- The message, if there is one. -/
def message (e : Entry) : Option Message :=
  match e.result with
  | .ok message => some message
  | .error _ => none

/-- The reader loop goes on after it. -/
def passed (e : Entry) : Bool :=
  match e.result with
  | .ok _ => true
  | .error .duplicateSignature => true
  | .error _ => false

/-- Two messages that were let through have two signatures. -/
def Distinct (a b : Entry) : Prop :=
  a.message.isSome → b.message.isSome → ∀ p q : Parts, p.frames = a.frames → q.frames = b.frames →
    p.signature ≠ q.signature

end Entry

/-- The entries so far, and the signatures seen in them. -/
structure Decoded where
  entries : List Entry := []
  seen : Seen := ∅

section

variable (hmac : HmacSha256) (serde : SerdeJson) (session : Session)

def decodeNext (d : Decoded) (read : ReplySink × List Bytes) : Decoded :=
  match session.decode hmac serde d.seen read.2 with
  | some (result, seen) => ⟨d.entries ++ [⟨read.1, read.2, result⟩], seen⟩
  | none => d

/-- Everything is decoded one after the other. -/
def decodeLog (log : List (ReplySink × List Bytes)) : Decoded :=
  log.foldl (decodeNext hmac serde session) {}

end

variable {hmac : HmacSha256} {serde : SerdeJson} {session : Session}

theorem decodeLog_snoc {log : List (ReplySink × List Bytes)} {k : ReplySink} {frames : List Bytes}
    {result : Except WireError Message} {seen : Seen}
    (h : session.decode hmac serde (decodeLog hmac serde session log).seen frames =
      some (result, seen)) :
    decodeLog hmac serde session (log ++ [(k, frames)]) =
      ⟨(decodeLog hmac serde session log).entries ++ [⟨k, frames, result⟩], seen⟩ := by
  have hsnoc : decodeLog hmac serde session (log ++ [(k, frames)]) =
      decodeNext hmac serde session (decodeLog hmac serde session log) (k, frames) := by
    simp only [decodeLog, List.foldl_append, List.foldl_cons, List.foldl_nil]
  rw [hsnoc, decodeNext, h]

/-! ## No signature twice -/

/-- With a key, the signature of what was let through is seen, and was not seen
before. -/
structure Fresh (d : Decoded) : Prop where
  seen : ∀ e ∈ d.entries, e.message.isSome → ∀ p : Parts, p.frames = e.frames → p.signature ∈ d.seen
  distinct : d.entries.Pairwise Entry.Distinct

theorem fresh_next {d : Decoded} (hkey : session.key ≠ []) (hd : Fresh d)
    (read : ReplySink × List Bytes) : Fresh (decodeNext hmac serde session d read) := by
  obtain ⟨k, frames⟩ := read
  obtain ⟨result, seen, hdecode, hrule⟩ := Session.decode_rule hmac serde session d.seen frames
  simp only [decodeNext, hdecode]
  have hsub : d.seen ⊆ seen := by
    cases hrule with
    | fresh q _ h hunseen => exact Finset.subset_insert _ _
    | _ => exact Finset.Subset.refl _
  -- what is let through now was not seen, and is seen from now on
  have hnew : (Entry.message ⟨k, frames, result⟩).isSome →
      ∀ p : Parts, p.frames = frames → p.signature ∉ d.seen ∧ p.signature ∈ seen := by
    intro hsome p hp
    cases hrule with
    | refused error h => cases hsome
    | unkeyed q hunkeyed => exact absurd hunkeyed hkey
    | duplicate q _ h hseen => cases hsome
    | fresh q _ h hunseen =>
        rw [Parts.eq_of_frames_eq hp]
        exact ⟨hunseen, Finset.mem_insert_self _ _⟩
  refine ⟨?_, ?_⟩
  · intro e he hsome p hp
    rcases List.mem_append.mp he with hold | hlast
    · exact hsub (hd.seen e hold hsome p hp)
    · rw [List.mem_singleton.mp hlast] at hsome hp
      exact (hnew hsome p hp).2
  · rw [List.pairwise_append]
    refine ⟨hd.distinct, List.pairwise_singleton _ _, ?_⟩
    intro a ha b hb hsome hsome' p q hp hq heq
    rw [List.mem_singleton.mp hb] at hsome' hq
    exact (hnew hsome' q hq).1 (heq ▸ hd.seen a ha hsome p hp)

theorem fresh_decodeLog (hkey : session.key ≠ []) (log : List (ReplySink × List Bytes)) :
    Fresh (decodeLog hmac serde session log) := by
  have hfold : ∀ (rest : List (ReplySink × List Bytes)) (d : Decoded), Fresh d →
      Fresh (rest.foldl (decodeNext hmac serde session) d) := by
    intro rest
    induction rest with
    | nil => exact fun d hd => hd
    | cons read rest ih => exact fun d hd => ih _ (fresh_next hkey hd read)
  exact hfold log {} ⟨by simp, List.Pairwise.nil⟩

/-! ## One connection -/

namespace Routers

variable {s s' : Routers} {l : RouterLabel} {k : ReplySink} {p p' : RouterPeer}

section

variable (hmac : HmacSha256) (serde : SerdeJson) (session : Session)

/-- What connection `k` read, and what `decodeLog` makes of it. -/
def entriesOf (s : Routers) (k : ReplySink) : List Entry :=
  (decodeLog hmac serde session s.received).entries.filter (fun e => e.sink = k)

/-- The messages connection `k` is to hand on. -/
def requestsOf (s : Routers) (k : ReplySink) : List Message :=
  (s.entriesOf hmac serde session k).filterMap Entry.message

/-- The messages connection `k` has handed on. -/
def deliveredOf (s : Routers) (k : ReplySink) : List Message :=
  (s.delivered.filter (fun d => d.1 = k)).map Prod.snd

end

/-- What a step does to the input of connection `k`. -/
inductive InputTurn (hmac : HmacSha256) (serde : SerdeJson) (session : Session) (s s' : Routers)
    (k : ReplySink) (p p' : RouterPeer) : Prop
  | keep (hentries : s'.entriesOf hmac serde session k = s.entriesOf hmac serde session k)
      (hdelivered : s'.deliveredOf k = s.deliveredOf k)
      (hserving : p'.pc = .serving → p.pc = .serving ∧ p'.inbound = p.inbound)
  | read (e : Entry) (hpc : p.pc = .serving) (hinbound : p.inbound = none)
      (hentries : s'.entriesOf hmac serde session k = s.entriesOf hmac serde session k ++ [e])
      (hdelivered : s'.deliveredOf k = s.deliveredOf k)
      (hserving : p'.pc = .serving → e.passed = true ∧ p'.inbound = e.message)
  | deliver (message : Message) (hpc : p.pc = .serving) (hinbound : p.inbound = some message)
      (hinbound' : p'.inbound = none)
      (hentries : s'.entriesOf hmac serde session k = s.entriesOf hmac serde session k)
      (hdelivered : s'.deliveredOf k = s.deliveredOf k ++ [message])

/-- What holds of the input of a connection. -/
structure Handed (hmac : HmacSha256) (serde : SerdeJson) (session : Session) (s : Routers)
    (k : ReplySink) (p : RouterPeer) : Prop where
  left : ∃ left : Option Message,
    s.requestsOf hmac serde session k = s.deliveredOf k ++ left.toList
  conserved : p.pc = .serving →
    s.requestsOf hmac serde session k = s.deliveredOf k ++ p.inbound.toList
  passed : p.pc = .serving → ∀ e ∈ s.entriesOf hmac serde session k, e.passed = true
  last : ∀ e ∈ (s.entriesOf hmac serde session k).dropLast, e.passed = true

theorem Handed.turn (hp : Handed hmac serde session s k p)
    (hturn : InputTurn hmac serde session s s' k p p') : Handed hmac serde session s' k p' := by
  cases hturn with
  | keep hentries hdelivered hserving =>
      have hrequests : s'.requestsOf hmac serde session k = s.requestsOf hmac serde session k := by
        rw [requestsOf, requestsOf, hentries]
      refine ⟨by rw [hdelivered, hrequests]; exact hp.left, ?_, ?_, by rw [hentries]; exact hp.last⟩
      · intro hpc
        rw [hrequests, hdelivered, (hserving hpc).2]
        exact hp.conserved (hserving hpc).1
      · intro hpc
        rw [hentries]
        exact hp.passed (hserving hpc).1
  | read e hpc hinbound hentries hdelivered hserving =>
      have hrequests : s'.requestsOf hmac serde session k =
          s.requestsOf hmac serde session k ++ e.message.toList := by
        rw [requestsOf, requestsOf, hentries, List.filterMap_append, List.filterMap_cons,
          List.filterMap_nil]
        cases e.message <;> rfl
      have hall := hp.conserved hpc
      rw [hinbound, Option.toList_none, List.append_nil] at hall
      refine ⟨?_, ?_, ?_, ?_⟩
      · exact ⟨e.message, by rw [hdelivered, hrequests, hall]⟩
      · intro hpc'
        rw [hrequests, hdelivered, hall, (hserving hpc').2]
      · intro hpc'
        rw [hentries]
        intro e' he'
        rcases List.mem_append.mp he' with hold | hlast
        · exact hp.passed hpc e' hold
        · rw [List.mem_singleton.mp hlast]
          exact (hserving hpc').1
      · rw [hentries, List.dropLast_concat]
        exact hp.passed hpc
  | deliver message hpc hinbound hinbound' hentries hdelivered =>
      have hrequests : s'.requestsOf hmac serde session k = s'.deliveredOf k := by
        rw [hdelivered, requestsOf, hentries]
        have hall := hp.conserved hpc
        rw [hinbound] at hall
        exact hall
      refine ⟨⟨none, by simp [hrequests]⟩, ?_, ?_, by rw [hentries]; exact hp.last⟩
      · intro _
        rw [hrequests, hinbound', Option.toList_none, List.append_nil]
      · intro _
        rw [hentries]
        exact hp.passed hpc

/-! ## Whole runs -/

/-- What holds of the input of all connections, in every run. -/
structure Requests (hmac : HmacSha256) (serde : SerdeJson) (session : Session) (s : Routers) :
    Prop where
  seen : s.seen = (decodeLog hmac serde session s.received).seen
  handed : ∀ k p, s.peers k = some p → Handed hmac serde session s k p
  silent : ∀ k, s.peers k = none →
    s.entriesOf hmac serde session k = [] ∧ s.deliveredOf k = []

theorem requests_init : Requests hmac serde session {} where
  seen := rfl
  handed := by intro k p hk; cases hk
  silent := fun _ _ => ⟨rfl, rfl⟩

/-- Connection `k` turns, and the others are left alone. -/
theorem Requests.setPeer (hs : Requests hmac serde session s) {m : Routers}
    (hpeers : s'.peers = (m.setPeer k p').peers) (hm : m.peers = s.peers) (hk : s.peers k = some p)
    (hseen : s'.seen = (decodeLog hmac serde session s'.received).seen)
    (hturn : InputTurn hmac serde session s s' k p p')
    (hother : ∀ k' ≠ k, s'.entriesOf hmac serde session k' = s.entriesOf hmac serde session k' ∧
      s'.deliveredOf k' = s.deliveredOf k') : Requests hmac serde session s' where
  seen := hseen
  handed := by
    intro k' q hk'
    rw [hpeers, peers_setPeer, hm] at hk'
    split at hk'
    · next heq =>
        cases hk'
        rw [heq]
        exact (hs.handed k p hk).turn hturn
    · next hne =>
        exact (hs.handed k' q hk').turn
          (.keep (hother k' hne).1 (hother k' hne).2 (fun hpc => ⟨hpc, rfl⟩))
  silent := by
    intro k' hk'
    rw [hpeers, peers_setPeer, hm] at hk'
    split at hk'
    · cases hk'
    · next hne =>
        rw [(hother k' hne).1, (hother k' hne).2]
        exact hs.silent k' hk'

/-- A step that reads and hands on nothing. -/
theorem Requests.keep (hs : Requests hmac serde session s) {m : Routers}
    (hpeers : s'.peers = (m.setPeer k p').peers) (hm : m.peers = s.peers) (hk : s.peers k = some p)
    (hseen : s'.seen = s.seen) (hreceived : s'.received = s.received)
    (hdelivered : s'.delivered = s.delivered)
    (hserving : p'.pc = .serving → p.pc = .serving ∧ p'.inbound = p.inbound) :
    Requests hmac serde session s' := by
  have hsame : ∀ k', s'.entriesOf hmac serde session k' = s.entriesOf hmac serde session k' ∧
      s'.deliveredOf k' = s.deliveredOf k' := by
    intro k'
    simp only [entriesOf, deliveredOf, hreceived, hdelivered, and_self]
  refine hs.setPeer hpeers hm hk ?_ (.keep (hsame k).1 (hsame k).2 hserving) (fun k' _ => hsame k')
  rw [hseen, hreceived]
  exact hs.seen

/-- A step that changes neither a connection nor the input. -/
theorem Requests.same (hs : Requests hmac serde session s) (hpeers : s'.peers = s.peers)
    (hseen : s'.seen = s.seen) (hreceived : s'.received = s.received)
    (hdelivered : s'.delivered = s.delivered) : Requests hmac serde session s' where
  seen := by rw [hseen, hreceived]; exact hs.seen
  handed := by
    intro k p hk
    refine (hs.handed k p (hpeers ▸ hk)).turn (.keep ?_ ?_ (fun hpc => ⟨hpc, rfl⟩))
    · simp only [entriesOf, hreceived]
    · simp only [deliveredOf, hdelivered]
  silent := by
    intro k hk
    simp only [entriesOf, deliveredOf, hreceived, hdelivered]
    exact hs.silent k (hpeers ▸ hk)

/-- A connection reads a message. -/
theorem Requests.read (hs : Requests hmac serde session s) {frames : List Bytes}
    {result : Except WireError Message} {seen : Seen}
    (hpeers : s'.peers k = some p') (hothers : ∀ k' ≠ k, s'.peers k' = s.peers k')
    (hk : s.peers k = some p) (hpc : p.pc = .serving) (hinbound : p.inbound = none)
    (hdecode : session.decode hmac serde s.seen frames = some (result, seen))
    (hseen : s'.seen = seen) (hreceived : s'.received = s.received ++ [(k, frames)])
    (hdelivered : s'.delivered = s.delivered)
    (hserving : p'.pc = .serving → Entry.passed ⟨k, frames, result⟩ = true ∧
      p'.inbound = Entry.message ⟨k, frames, result⟩) : Requests hmac serde session s' := by
  rw [hs.seen] at hdecode
  have hlog := @decodeLog_snoc _ _ _ _ k _ _ _ hdecode
  have hpeersEq : s'.peers = (s.setPeer k p').peers := by
    funext k'
    rw [peers_setPeer]
    split
    · next heq => rw [heq, hpeers]
    · next hne => exact hothers k' hne
  have hdelivered' : ∀ k', s'.deliveredOf k' = s.deliveredOf k' := by
    intro k'
    rw [deliveredOf, deliveredOf, hdelivered]
  refine hs.setPeer hpeersEq rfl hk ?_
    (.read ⟨k, frames, result⟩ hpc hinbound ?_ (hdelivered' k) hserving) ?_
  · rw [hreceived, hlog, hseen]
  · rw [entriesOf, entriesOf, hreceived, hlog, List.filter_append]
    simp
  · intro k' hne
    refine ⟨?_, hdelivered' k'⟩
    rw [entriesOf, entriesOf, hreceived, hlog, List.filter_append]
    simp [Ne.symm hne]

theorem requests_step (hs : Requests hmac serde session s)
    (h : s.step hmac serde session l = some s') : Requests hmac serde session s' := by
  cases step_rule h with
  | @connect k socket identity hk =>
      refine ⟨hs.seen, ?_, ?_⟩
      · intro k' q hk'
        rw [peers_setPeer] at hk'
        split at hk'
        · next heq =>
            cases hk'
            obtain ⟨hentries, hdelivered⟩ := hs.silent k hk
            have hentries : (s.setPeer k { socket, identity }).entriesOf hmac serde session k' = [] :=
              heq ▸ hentries
            have hdelivered : (s.setPeer k { socket, identity }).deliveredOf k' = [] :=
              heq ▸ hdelivered
            exact ⟨⟨none, by simp [requestsOf, hentries, hdelivered]⟩,
              fun _ => by simp [requestsOf, hentries, hdelivered],
              fun _ => by simp [hentries], by simp [hentries]⟩
        · exact (hs.handed k' q hk').turn (.keep rfl rfl (fun hpc => ⟨hpc, rfl⟩))
      · intro k' hk'
        rw [peers_setPeer] at hk'
        split at hk'
        · cases hk'
        · exact hs.silent k' hk'
  | enqueue hc hk | take hk hpc | wrote hk hpc =>
      exact hs.keep rfl rfl hk rfl rfl rfl (fun hpc => ⟨hpc, rfl⟩)
  | writeFailed hk | leaving hk | leave hk | close hk =>
      exact hs.keep rfl rfl hk rfl rfl rfl (by simp)
  | @readMessage k p frames message seen hk hpc hinbound hdecode =>
      have hk' : ({ s with seen, received := s.received ++ [(k, frames)] }.setPeer k { p with
          inbound := some message }).peers k = some { p with inbound := some message } := by
        rw [peers_setPeer, if_pos rfl]
      refine hs.read hk' ?_ hk hpc hinbound hdecode rfl rfl rfl (fun _ => ⟨rfl, rfl⟩)
      · intro k' hne
        rw [peers_setPeer, if_neg hne]
  | @readDuplicate k p frames seen hk hpc hinbound hdecode =>
      exact hs.read hk (fun _ _ => rfl) hk hpc hinbound hdecode rfl rfl rfl
        (fun _ => ⟨rfl, hinbound⟩)
  | @readBad k p frames error seen hk hpc hinbound hdecode hbad =>
      have hk' : ({ s with seen, received := s.received ++ [(k, frames)] }.setPeer k { p with
          pc := .leaving (wireFailed error) }).peers k =
            some { p with pc := .leaving (wireFailed error) } := by
        rw [peers_setPeer, if_pos rfl]
      refine hs.read hk' ?_ hk hpc hinbound hdecode rfl rfl rfl ?_
      · intro k' hne
        rw [peers_setPeer, if_neg hne]
      · intro hserving
        cases hserving
  | @deliver k p message incoming hk hpc hinbound =>
      refine hs.setPeer rfl rfl hk hs.seen (.deliver message hpc hinbound rfl rfl ?_) ?_
      · simp [deliveredOf, List.filter_append]
      · intro k' hne
        refine ⟨rfl, ?_⟩
        simp [deliveredOf, List.filter_append, Ne.symm hne]
  | _ => exact hs.same rfl rfl rfl rfl

/-- Whatever the connections of the three sockets do, and in whichever order:
connection `k` has handed on the messages `decodeLog` gives for what it read, in
that order, but for one that it may hold or have lost at its end; it reads
nothing after frames that it cannot decode; and with a key no two messages that
were let through have one signature, on whichever connections they came. -/
theorem requests_exact (hr : Reachable hmac serde session s) (hk : s.peers k = some p) :
    (∃ left : Option Message,
      s.requestsOf hmac serde session k = s.deliveredOf k ++ left.toList) ∧
    (p.pc = .serving → s.requestsOf hmac serde session k = s.deliveredOf k ++ p.inbound.toList ∧
      ∀ e ∈ s.entriesOf hmac serde session k, e.passed = true) ∧
    (∀ e ∈ (s.entriesOf hmac serde session k).dropLast, e.passed = true) ∧
    (session.key ≠ [] →
      (decodeLog hmac serde session s.received).entries.Pairwise Entry.Distinct) := by
  have hs : Requests hmac serde session s :=
    Lib.Reachable.invariant hr requests_init (fun _ _ _ => requests_step)
  have hp := hs.handed k p hk
  exact ⟨hp.left, fun hpc => ⟨hp.conserved hpc, hp.passed hpc⟩, hp.last,
    fun hkey => (fresh_decodeLog hkey s.received).distinct⟩

/-- One message, sent on the control socket and again on the shell socket; the
connection that let it through ends before it could hand it on. -/
def sentTwice : List RouterLabel :=
  [.connect 0 .shell (ascii "a"), .connect 1 .control (ascii "a"),
    .read 1 (.message Session.signedFrames), .read 0 (.message Session.signedFrames), .abort 1,
    .leave 1]

theorem requests_exact_twice :
    ∃ s p, run (step secretHmac emptyObjectJson secretSession) {} sentTwice = some s ∧
      s.peers 0 = some p ∧
      s.requestsOf secretHmac emptyObjectJson secretSession 0 = s.deliveredOf 0 ++ p.inbound.toList ∧
      (s.requestsOf secretHmac emptyObjectJson secretSession 1).length = 1 ∧
      (s.deliveredOf 1).length = 0 ∧ (∃ lost : Option Message,
        s.requestsOf secretHmac emptyObjectJson secretSession 1 = s.deliveredOf 1 ++ lost.toList) ∧
      (decodeLog secretHmac emptyObjectJson secretSession s.received).entries.Pairwise
        Entry.Distinct := by
  have hview : (run (step secretHmac emptyObjectJson secretSession) {} sentTwice).bind
      (fun s => (s.peers 0).bind (fun p => (s.peers 1).map (fun _ =>
        (decide (p.pc = .serving),
          (s.requestsOf secretHmac emptyObjectJson secretSession 1).length,
          (s.deliveredOf 1).length)))) = some (true, 1, 0) := by decide +kernel
  obtain ⟨s, hs, hview⟩ := Option.bind_eq_some_iff.mp hview
  obtain ⟨p, hp, hview⟩ := Option.bind_eq_some_iff.mp hview
  obtain ⟨q, hq, hview⟩ := Option.map_eq_some_iff.mp hview
  obtain ⟨hserving, hone, hnone⟩ : p.pc = .serving ∧
      (s.requestsOf secretHmac emptyObjectJson secretSession 1).length = 1 ∧
      (s.deliveredOf 1).length = 0 := by simpa only [Prod.mk.injEq, decide_eq_true_eq] using hview
  obtain ⟨_, hexact, _, hdistinct⟩ := requests_exact ⟨_, hs⟩ hp
  exact ⟨s, p, hs, hp, (hexact hserving).1, hone, hnone,
    (requests_exact ⟨_, hs⟩ hq).1, hdistinct (by decide)⟩

end Routers

end Kernmini.Transport
