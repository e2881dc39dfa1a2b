/-
Kernmini.Engine.StdinSteps — the steps of the input requests, by what they
can do to the map of pending requests.

Most steps leave the map alone and only move requests along; `Moves` says
how. The others are one rule each.
-/
import Kernmini.Engine.Stdin

namespace Kernmini.Engine

open Kernmini.Wire Kernmini.Transport Kernmini.Lib

/-! ## Requests that move -/

/-- What a request has got, once its select is over. -/
def RequestPc.result : RequestPc → Option (Except Error String)
  | .inserting | .select _ _ => none
  | .removing result | .returned result => some result

/-- The entry has been made, and the request has not returned. -/
def RequestPc.inFlight : RequestPc → Bool
  | .select _ _ | .removing _ => true
  | .inserting | .returned _ => false

/-- A step of a request, or of another task, that leaves the map alone. -/
inductive Request.Moves (r : Request) : Request → Prop
  | waker (cancelled : Cancelled) : Moves r { r with cancelled }
  | within (cancelled : Cancelled) {place place' : Place} {stage stage' : Stage} :
      r.pc = .select place stage → Moves r { r with cancelled, pc := .select place' stage' }
  | leave {place : Place} {stage : Stage} {result : Except Error String} :
      r.pc = .select place stage → (∀ text, result = .ok text → r.channel = .sent result) →
      Moves r (r.leave result)

theorem Request.Moves.refl (r : Request) : r.Moves r := .waker r.cancelled

theorem Request.moves_wakePeers (r : Request) : r.Moves r.wakePeers := by
  unfold Request.wakePeers
  split
  · next hpc => exact .within r.cancelled hpc
  · next hpc => exact .within r.cancelled hpc
  · exact .refl r

theorem Request.moves_wakeInterrupt (r : Request) (token : Token) :
    r.Moves (r.wakeInterrupt token) := by
  unfold Request.wakeInterrupt
  split
  · exact .waker .notified
  · exact .refl r

theorem Stdin.moves_poll {s : Stdin} {r r' : Request} {place : Place} {stage : Stage}
    (hpc : r.pc = .select place stage) (h : s.poll r place stage = some r') : r.Moves r' := by
  unfold Stdin.poll at h
  split at h
  · split at h
    · split at h
      · cases h
        exact .leave hpc nofun
      · cases h
        exact .within .parked hpc
    · cases h
      exact .within r.cancelled hpc
    · cases h
      exact .leave hpc nofun
  · split at h
    · cases h
      exact .within r.cancelled hpc
    · split at h
      · cases h
        exact .within r.cancelled hpc
      · cases h
        exact .within r.cancelled hpc
    · cases h
      exact .within r.cancelled hpc
    · cases h
      exact .within r.cancelled hpc
    · split at h
      · cases h
        exact .leave hpc nofun
      · cases h
        exact .within r.cancelled hpc
    · split at h
      · cases h
        exact .leave hpc nofun
      · cases h
        exact .within r.cancelled hpc
  · split at h
    · next hchannel =>
        cases h
        exact .leave hpc (fun _ _ => hchannel)
    · cases h
      exact .leave hpc nofun
    · cases h
      exact .within r.cancelled hpc
    · cases h

/-! ## Steps -/

namespace Stdin

/-- Nothing that the map or the reply task holds is touched. -/
structure Same (s t : Stdin) : Prop where
  pending : t.pending = s.pending
  incoming : t.incoming = s.incoming
  task : t.task = s.task
  received : t.received = s.received
  matched : t.matched = s.matched

/-- Every request is where it was, or has moved. -/
def RequestsMove (s t : Stdin) : Prop :=
  ∀ id, match s.requests id with
    | none => t.requests id = none
    | some r => ∃ r', t.requests id = some r' ∧ r.Moves r'

/-- The reply task is done with a message. -/
inductive Handles (s : Stdin) (order : List String) (inbound : Inbound) : Stdin → Prop
  | ignored : inbound.message.msgType ≠ "input_reply" ∨ s.replyKey order inbound = none →
      Handles s order inbound { s with task := none, matched := s.matched ++ [(inbound, none)] }
  | matched {key : String} : inbound.message.msgType = "input_reply" →
      s.replyKey order inbound = some key →
      Handles s order inbound { s with
        task := none
        pending := s.pending.erase key
        requests := Function.update s.requests key ((s.requests key).map (·.answer inbound))
        matched := s.matched ++ [(inbound, some key)] }

inductive Rule (s : Stdin) : StdinLabel → Stdin → Prop
  | move {l : StdinLabel} {t : Stdin} : Same s t → RequestsMove s t → Rule s l t
  | request {id : String} {identity : Bytes} {token : Token} : s.requests id = none →
      Rule s (.request id identity token) (s.setRequest id { identity, interrupt := token })
  | insert {id : String} {r : Request} : s.requests id = some r → r.pc = .inserting →
      Rule s (.advance id) { s.setRequest id { r with pc := .select .unpolled .idle } with
        pending := s.pending.insert id { identity := r.identity } }
  | remove {id : String} {r : Request} {result : Except Error String} : s.requests id = some r →
      r.pc = .removing result →
      Rule s (.advance id) { s.setRequest id { r with pc := .returned result } with
        pending := s.pending.erase id }
  | arrive {k : ReplySink} {message : Message} (inbound : Inbound) :
      Rule s (.arrive k message)
        { s with incoming := s.incoming ++ [inbound], received := s.received ++ [inbound] }
  | take {inbound : Inbound} {rest : List Inbound} : s.task = none → s.incoming = inbound :: rest →
      Rule s .take { s with task := some inbound, incoming := rest }
  | handle {order : List String} {inbound : Inbound} {t : Stdin} : s.task = some inbound →
      order.Perm s.pending.keys → Handles s order inbound t → Rule s (.handle order) t

section

variable {s t : Stdin}

theorem requestsMove_of_eq (h : t.requests = s.requests) : RequestsMove s t := by
  intro id
  rw [h]
  split
  · next hnone => exact hnone
  · next r hr => exact ⟨r, hr, .refl r⟩

theorem requestsMove_setRequest {id : String} {r r' : Request} (hr : s.requests id = some r)
    (hmoves : r.Moves r') : RequestsMove s (s.setRequest id r') := by
  intro id'
  by_cases hid : id' = id
  · subst hid
    rw [hr]
    exact ⟨r', by simp [setRequest], hmoves⟩
  · simp only [setRequest, Function.update_of_ne hid]
    exact requestsMove_of_eq rfl id'

theorem requestsMove_mapRequests {f : Request → Request} (hf : ∀ r : Request, r.Moves (f r)) :
    RequestsMove s (s.mapRequests f) := by
  intro id
  simp only [mapRequests]
  split
  · next hnone => rw [hnone, Option.map_none]
  · next r hr => exact ⟨f r, by rw [hr, Option.map_some], hf r⟩

theorem handles_of_step {order : List String} (h : s.step (.handle order) = some t) :
    ∃ inbound, s.task = some inbound ∧ order.Perm s.pending.keys ∧ Handles s order inbound t := by
  simp only [step] at h
  split at h
  · next inbound htask =>
      split at h
      · next horder =>
          refine ⟨inbound, htask, horder, ?_⟩
          split at h
          · next htype =>
              split at h
              · next hkey =>
                  cases h
                  exact .matched htype hkey
              · next hkey =>
                  cases h
                  exact .ignored (.inr hkey)
          · next htype =>
              cases h
              exact .ignored (.inl htype)
      · cases h
  · cases h

theorem step_rule {l : StdinLabel} (h : s.step l = some t) : Rule s l t := by
  cases l with
  | connect k identity =>
      simp only [step] at h
      split at h
      · cases h
        exact .move ⟨rfl, rfl, rfl, rfl, rfl⟩ (requestsMove_of_eq rfl)
      · cases h
  | announce k =>
      simp only [step] at h
      split at h
      · split at h
        · cases h
          exact .move ⟨rfl, rfl, rfl, rfl, rfl⟩ (requestsMove_mapRequests Request.moves_wakePeers)
        · cases h
      · cases h
  | arrive k message =>
      simp only [step] at h
      split at h
      · split at h
        · cases h
          exact .arrive _
        · cases h
      · cases h
  | lose k error =>
      simp only [step] at h
      split at h
      · split at h
        · cases h
          exact .move ⟨rfl, rfl, rfl, rfl, rfl⟩ (requestsMove_of_eq rfl)
        · cases h
      · cases h
  | unregister k =>
      simp only [step] at h
      split at h
      · split at h
        · cases h
          exact .move ⟨rfl, rfl, rfl, rfl, rfl⟩ (requestsMove_of_eq rfl)
        · cases h
      · cases h
  | interrupt token =>
      cases h
      exact .move ⟨rfl, rfl, rfl, rfl, rfl⟩ (requestsMove_of_eq rfl)
  | notify token =>
      simp only [step] at h
      split at h
      · cases h
        refine .move ⟨rfl, rfl, rfl, rfl, rfl⟩ (requestsMove_mapRequests ?_)
        exact fun r => r.moves_wakeInterrupt token
      · cases h
  | request id identity token =>
      simp only [step] at h
      split at h
      · next hnone =>
          cases h
          exact .request hnone
      · cases h
  | advance id =>
      simp only [step] at h
      split at h
      · next r hr =>
          split at h
          · next hpc =>
              cases h
              exact .insert hr hpc
          · next place stage hpc =>
              obtain ⟨r', hpoll, rfl⟩ := Option.map_eq_some_iff.mp h
              exact .move ⟨rfl, rfl, rfl, rfl, rfl⟩
                (requestsMove_setRequest hr (moves_poll hpc hpoll))
          · next result hpc =>
              cases h
              exact .remove hr hpc
          · cases h
      · cases h
  | sent id result =>
      simp only [step] at h
      split at h
      · next r hr =>
          split at h
          · next hpc =>
              cases h
              exact .move ⟨rfl, rfl, rfl, rfl, rfl⟩
                (requestsMove_setRequest hr (.within r.cancelled hpc))
          · next hpc =>
              cases h
              exact .move ⟨rfl, rfl, rfl, rfl, rfl⟩ (requestsMove_setRequest hr (.leave hpc nofun))
          · cases h
      · cases h
  | pend id =>
      simp only [step] at h
      split at h
      · next r hr =>
          split at h
          · next hpc =>
              cases h
              exact .move ⟨rfl, rfl, rfl, rfl, rfl⟩
                (requestsMove_setRequest hr (.within r.cancelled hpc))
          · next hpc =>
              cases h
              exact .move ⟨rfl, rfl, rfl, rfl, rfl⟩
                (requestsMove_setRequest hr (.within r.cancelled hpc))
          · cases h
      · cases h
  | take =>
      simp only [step] at h
      split at h
      · next htask hincoming =>
          cases h
          exact .take htask hincoming
      · cases h
  | handle order =>
      obtain ⟨inbound, htask, horder, hhandles⟩ := handles_of_step h
      exact .handle htask horder hhandles

end

end Stdin

end Kernmini.Engine
