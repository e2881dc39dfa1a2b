/-
Kernmini.Wire.Replay — calls of `decode` on clones of one session.

Every router connection has a clone. The clones share the set of seen
signatures and nothing else, so concurrent calls are interleaved at the
lock (`Calls.step`). `Calls.Inv` holds in every interleaving: each call is
at a stage of `decode`, and of the calls that were let through no two have
the same signature.
-/
import Kernmini.Wire.SessionTheorems
import Kernmini.Lib.Transition
import Mathlib.Logic.Function.Basic

namespace Kernmini.Wire

open Kernmini.Lib

/-! ## Concurrent calls -/

namespace Calls

/-- Where a call of `decode` stands. -/
inductive Pc where
  | check
  | insert (checked : Session.Checked)
  | parse (checked : Session.Checked)
  | returned (result : Except WireError Message)
  | panicked

structure Call where
  frames : List Bytes
  pc : Pc

/-- The calls that clones of one session have made, and what they share. -/
structure State where
  seen : Seen
  calls : Nat → Option Call

inductive Label where
  | call (c : Nat) (frames : List Bytes)
  | resume (c : Nat)

def Label.id : Label → Nat
  | .call c _ => c
  | .resume c => c

def State.set (s : State) (c : Nat) (call : Call) : State :=
  { s with calls := Function.update s.calls c (some call) }

variable (hmac : HmacSha256) (serde : SerdeJson) (session : Session)

/-- One stage of `decode`. Only the stage under the lock reads or writes `seen`. -/
def resume (seen : Seen) (frames : List Bytes) : Pc → Option (Pc × Seen)
  | .check =>
      match (session.check hmac frames).run with
      | none => some (.panicked, seen)
      | some (.error error) => some (.returned (.error error), seen)
      | some (.ok checked) => some (.insert checked, seen)
  | .insert checked =>
      match session.insertSeen seen checked.signature with
      | (.error error, seen) => some (.returned (.error error), seen)
      | (.ok (), seen) => some (.parse checked, seen)
  | .parse checked =>
      match (Session.parse serde frames checked).run with
      | none => some (.panicked, seen)
      | some result => some (.returned result, seen)
  | .returned _ | .panicked => none

def step (s : State) : Label → Option State
  | .call c frames =>
      match s.calls c with
      | none => some (s.set c ⟨frames, .check⟩)
      | some _ => none
  | .resume c => do
      let call ← s.calls c
      let (pc, seen) ← resume hmac serde session s.seen call.frames call.pc
      return { s with seen }.set c ⟨call.frames, pc⟩

/-- No call has been made yet. -/
def init (seen : Seen) : State := ⟨seen, fun _ => none⟩

variable {hmac serde session} {s s' : State} {l : Label}

/-- What is known of the stage a call is in. `p` is the layout of its frames. -/
inductive Stage (hmac : HmacSha256) (serde : SerdeJson) (session : Session) (seen : Seen) :
    List Bytes → Pc → Prop
  | check (frames : List Bytes) : Stage hmac serde session seen frames .check
  | insert (p : Parts) (h : session.Signed hmac p) :
      Stage hmac serde session seen p.frames (.insert ⟨p.identities.length, p.signature, p.jsonParts⟩)
  | parse (p : Parts) (h : session.Signed hmac p) {seen₁ seen₂ : Seen}
      (hinsert : session.insertSeen seen₁ p.signature = (.ok (), seen₂)) (hsub : seen₂ ⊆ seen) :
      Stage hmac serde session seen p.frames (.parse ⟨p.identities.length, p.signature, p.jsonParts⟩)
  | returned {frames : List Bytes} {result : Except WireError Message} {seen₁ seen₂ : Seen}
      (h : session.decode hmac serde seen₁ frames = some (result, seen₂)) (hsub : seen₂ ⊆ seen) :
      Stage hmac serde session seen frames (.returned result)

theorem Stage.mono {seen seen' : Seen} {frames : List Bytes} {pc : Pc}
    (h : Stage hmac serde session seen frames pc) (hsub : seen ⊆ seen') :
    Stage hmac serde session seen' frames pc := by
  cases h with
  | check => exact .check _
  | insert p hp => exact .insert p hp
  | parse p hp hinsert hle => exact .parse p hp hinsert (hle.trans hsub)
  | returned h hle => exact .returned h (hle.trans hsub)

/-- The call has been let through, or has returned a message. -/
def Pc.Accepted (pc : Pc) : Prop :=
  (∃ checked, pc = .parse checked) ∨ ∃ message, pc = .returned (.ok message)

theorem insertSeen_seen {seen seen' : Seen} {signature : Bytes}
    (h : session.insertSeen seen signature = (.ok (), seen')) :
    seen ⊆ seen' ∧ (session.key ≠ [] → signature ∈ seen' ∧ signature ∉ seen) := by
  by_cases hkey : session.key = []
  · rw [Session.insertSeen_unkeyed hkey] at h
    cases h
    exact ⟨Finset.Subset.refl _, fun hne => absurd hkey hne⟩
  · by_cases hseen : signature ∈ seen
    · rw [Session.insertSeen_duplicate hkey hseen] at h
      cases h
    · rw [Session.insertSeen_fresh hkey hseen] at h
      cases h
      exact ⟨Finset.subset_insert _ _, fun _ => ⟨Finset.mem_insert_self _ _, hseen⟩⟩

theorem insertSeen_error {seen seen' : Seen} {signature : Bytes} {error : WireError}
    (h : session.insertSeen seen signature = (.error error, seen')) : seen' = seen := by
  by_cases hkey : session.key = []
  · rw [Session.insertSeen_unkeyed hkey] at h
    cases h
  · by_cases hseen : signature ∈ seen
    · rw [Session.insertSeen_duplicate hkey hseen] at h
      cases h
      rfl
    · rw [Session.insertSeen_fresh hkey hseen] at h
      cases h

/-- What one stage of a call does. -/
inductive Resumes (hmac : HmacSha256) (serde : SerdeJson) (session : Session) (seen : Seen) :
    List Bytes → Pc → Pc → Seen → Prop
  | refused {frames : List Bytes} (error : WireError) (h : ¬ session.WellSigned hmac frames)
      (hcheck : session.check hmac frames = throw error) :
      Resumes hmac serde session seen frames .check (.returned (.error error)) seen
  | checked (p : Parts) (h : session.Signed hmac p) :
      Resumes hmac serde session seen p.frames .check
        (.insert ⟨p.identities.length, p.signature, p.jsonParts⟩) seen
  | duplicate (p : Parts) (h : session.Signed hmac p) (error : WireError) (seen' : Seen)
      (hinsert : session.insertSeen seen p.signature = (.error error, seen')) :
      Resumes hmac serde session seen p.frames
        (.insert ⟨p.identities.length, p.signature, p.jsonParts⟩) (.returned (.error error)) seen'
  | inserted (p : Parts) (h : session.Signed hmac p) (seen' : Seen)
      (hinsert : session.insertSeen seen p.signature = (.ok (), seen')) :
      Resumes hmac serde session seen p.frames
        (.insert ⟨p.identities.length, p.signature, p.jsonParts⟩)
        (.parse ⟨p.identities.length, p.signature, p.jsonParts⟩) seen'
  | parsed (p : Parts) (h : session.Signed hmac p) {seen₁ seen₂ : Seen}
      (hinsert : session.insertSeen seen₁ p.signature = (.ok (), seen₂)) (hsub : seen₂ ⊆ seen) :
      Resumes hmac serde session seen p.frames
        (.parse ⟨p.identities.length, p.signature, p.jsonParts⟩) (.returned (p.read serde)) seen

theorem resume_rule {seen seen' : Seen} {frames : List Bytes} {pc pc' : Pc}
    (hstage : Stage hmac serde session seen frames pc)
    (h : resume hmac serde session seen frames pc = some (pc', seen')) :
    Resumes hmac serde session seen frames pc pc' seen' := by
  cases hstage with
  | check =>
      by_cases hsigned : session.WellSigned hmac frames
      · obtain ⟨p, rfl, hp⟩ := hsigned
        simp only [resume, Session.check_of_signed hp] at h
        cases h
        exact .checked p hp
      · obtain ⟨error, herror⟩ := Session.check_of_not_wellSigned hsigned
        simp only [resume, herror] at h
        cases h
        exact .refused error hsigned herror
  | insert p hp =>
      simp only [resume] at h
      rcases hinsert : session.insertSeen seen p.signature with ⟨error | _, seen''⟩
      · rw [hinsert] at h
        cases h
        exact .duplicate p hp _ _ hinsert
      · rw [hinsert] at h
        cases h
        exact .inserted p hp _ hinsert
  | parse p hp hinsert hsub =>
      simp only [resume, Session.parse_frames] at h
      cases h
      exact .parsed p hp hinsert hsub
  | returned => cases h

namespace Resumes

variable {seen seen' : Seen} {frames : List Bytes} {pc pc' : Pc}

theorem seen_subset (h : Resumes hmac serde session seen frames pc pc' seen') : seen ⊆ seen' := by
  cases h with
  | duplicate p hp error _ hinsert => rw [insertSeen_error hinsert]
  | inserted p hp _ hinsert => exact (insertSeen_seen hinsert).1
  | _ => exact Finset.Subset.refl _

theorem stage (h : Resumes hmac serde session seen frames pc pc' seen') :
    Stage hmac serde session seen' frames pc' := by
  cases h with
  | refused error hsigned hcheck =>
      exact .returned (Session.decode_of_check_error hcheck) (Finset.Subset.refl _)
  | checked p hp => exact .insert p hp
  | duplicate p hp error _ hinsert =>
      exact .returned (Session.decode_of_insertSeen_error hp hinsert) (Finset.Subset.refl _)
  | inserted p hp _ hinsert => exact .parse p hp hinsert (Finset.Subset.refl _)
  | parsed p hp hinsert hsub => exact .returned (Session.decode_of_insertSeen_ok hp hinsert) hsub

/-- A call is let through on a signature that is not seen. -/
theorem unseen_of_accepted (hkey : session.key ≠ [])
    (h : Resumes hmac serde session seen frames pc pc' seen') (hacc : pc'.Accepted) :
    pc.Accepted ∨ ∀ p : Parts, p.frames = frames → p.signature ∉ seen := by
  cases h with
  | inserted p hp _ hinsert =>
      refine .inr fun q hq => ?_
      rw [Parts.eq_of_frames_eq hq]
      exact ((insertSeen_seen hinsert).2 hkey).2
  | parsed => exact .inl (.inl ⟨_, rfl⟩)
  | _ => rcases hacc with ⟨_, h⟩ | ⟨_, h⟩ <;> cases h

/-- Frames that are refused leave the seen signatures alone. -/
theorem seen_eq_of_not_wellSigned (h : Resumes hmac serde session seen frames pc pc' seen')
    (hsigned : ¬ session.WellSigned hmac frames) : seen' = seen := by
  cases h with
  | refused => rfl
  | checked p hp => rfl
  | duplicate p hp | inserted p hp => exact absurd ⟨p, rfl, hp⟩ hsigned
  | parsed => rfl

end Resumes

theorem Stage.signature_mem {seen : Seen} {frames : List Bytes} {pc : Pc} (hkey : session.key ≠ [])
    (h : Stage hmac serde session seen frames pc) (hacc : pc.Accepted) {p : Parts}
    (hp : p.frames = frames) : p.signature ∈ seen := by
  cases h with
  | parse q hq hinsert hsub =>
      rw [Parts.eq_of_frames_eq hp]
      exact hsub ((insertSeen_seen hinsert).2 hkey).1
  | @returned _ result seen₁ seen₂ h hsub =>
      obtain ⟨message, rfl⟩ : ∃ message, result = .ok message := by
        rcases hacc with ⟨_, h⟩ | ⟨message, h⟩
        · cases h
        · cases h
          exact ⟨message, rfl⟩
      obtain ⟨result, seen₃, hdecode, hrule⟩ := Session.decode_rule hmac serde session seen₁ frames
      rw [h] at hdecode
      cases hdecode
      generalize hresult : Except.ok message = result at hrule
      cases hrule with
      | refused => cases hresult
      | unkeyed _ hunkeyed => exact absurd hunkeyed hkey
      | duplicate => cases hresult
      | fresh q =>
          rw [Parts.eq_of_frames_eq hp]
          exact hsub (Finset.mem_insert_self _ _)
  | _ => rcases hacc with ⟨_, h⟩ | ⟨_, h⟩ <;> cases h

/-- What holds of the calls in every interleaving. -/
structure Inv (hmac : HmacSha256) (serde : SerdeJson) (session : Session) (s : State) : Prop where
  stage : ∀ {c call}, s.calls c = some call → Stage hmac serde session s.seen call.frames call.pc
  once : session.key ≠ [] → ∀ {c c' call call'} {p p' : Parts}, s.calls c = some call →
    s.calls c' = some call' → call.pc.Accepted → call'.pc.Accepted → p.frames = call.frames →
    p'.frames = call'.frames → p.signature = p'.signature → c = c'

theorem inv_init (seen : Seen) : Inv hmac serde session (init seen) where
  stage h := by cases h
  once _ _ _ _ _ _ _ h := by cases h

/-- The two things a step can do: make a call, or take a call one stage on. -/
inductive Rule (hmac : HmacSha256) (serde : SerdeJson) (session : Session) (s : State) :
    Label → State → Prop
  | call (c : Nat) (frames : List Bytes) (hnew : s.calls c = none) :
      Rule hmac serde session s (.call c frames) (s.set c ⟨frames, .check⟩)
  | resume (c : Nat) (call : Call) (hcall : s.calls c = some call) (pc : Pc) (seen : Seen)
      (h : resume hmac serde session s.seen call.frames call.pc = some (pc, seen)) :
      Rule hmac serde session s (.resume c) ({ s with seen }.set c ⟨call.frames, pc⟩)

theorem step_rule (h : step hmac serde session s l = some s') : Rule hmac serde session s l s' := by
  cases l with
  | call c frames =>
      cases hcalls : s.calls c with
      | none =>
          simp only [step, hcalls] at h
          cases h
          exact .call c frames hcalls
      | some call => simp [step, hcalls] at h
  | resume c =>
      simp only [step, bind, Option.bind_eq_some_iff, pure] at h
      obtain ⟨call, hcall, ⟨pc, seen⟩, hresume, h⟩ := h
      cases h
      exact .resume c call hcall pc seen hresume

theorem State.set_calls (s : State) (c c' : Nat) (call : Call) :
    (s.set c call).calls c' = if c' = c then some call else s.calls c' := by
  simp [State.set, Function.update_apply]

/-- Replacing one call keeps the invariant, if its stage is right and an
acceptance is either old or of a signature that was not seen. -/
theorem Inv.set (hinv : Inv hmac serde session s) {seen : Seen} (hsub : s.seen ⊆ seen) {c : Nat}
    {call : Call} (hstage : Stage hmac serde session seen call.frames call.pc)
    (haccept : session.key ≠ [] → call.pc.Accepted →
      (∃ old, s.calls c = some old ∧ old.frames = call.frames ∧ old.pc.Accepted) ∨
        ∀ p : Parts, p.frames = call.frames → p.signature ∉ s.seen) :
    Inv hmac serde session ({ s with seen }.set c call) := by
  -- no other call has been let through with the signature of `call`
  have hother : session.key ≠ [] → ∀ {c' call'} {p p' : Parts}, s.calls c' = some call' →
      call.pc.Accepted → call'.pc.Accepted → p.frames = call.frames → p'.frames = call'.frames →
      p.signature = p'.signature → c = c' := by
    intro hkey c' call' p p' hcall' hacc hacc' hp hp' hsig
    rcases haccept hkey hacc with ⟨old, hold, hframes, hold'⟩ | hunseen
    · exact hinv.once hkey hold hcall' hold' hacc' (hp.trans hframes.symm) hp' hsig
    · have hmem := (hinv.stage hcall').signature_mem hkey hacc' hp'
      exact absurd (hsig ▸ hmem) (hunseen p hp)
  constructor
  · intro c₁ call₁ hcall₁
    rw [State.set_calls] at hcall₁
    split at hcall₁
    · cases hcall₁
      exact hstage
    · exact (hinv.stage hcall₁).mono hsub
  · intro hkey c₁ c₂ call₁ call₂ p₁ p₂ hcall₁ hcall₂ hacc₁ hacc₂ hp₁ hp₂ hsig
    rw [State.set_calls] at hcall₁ hcall₂
    split at hcall₁ <;> split at hcall₂
    · next h₁ h₂ => rw [h₁, h₂]
    · next h₁ h₂ =>
      cases hcall₁
      rw [h₁]
      exact hother hkey hcall₂ hacc₁ hacc₂ hp₁ hp₂ hsig
    · next h₁ h₂ =>
      cases hcall₂
      rw [h₂]
      exact (hother hkey hcall₁ hacc₂ hacc₁ hp₂ hp₁ hsig.symm).symm
    · exact hinv.once hkey hcall₁ hcall₂ hacc₁ hacc₂ hp₁ hp₂ hsig

theorem inv_step (hinv : Inv hmac serde session s) (h : step hmac serde session s l = some s') :
    Inv hmac serde session s' := by
  cases step_rule h with
  | call c frames hnew =>
      refine hinv.set (Finset.Subset.refl _) (.check frames) fun _ hacc => ?_
      rcases hacc with ⟨_, h⟩ | ⟨_, h⟩ <;> cases h
  | resume c call hcall pc seen hresume =>
      have hrule := resume_rule (hinv.stage hcall) hresume
      refine hinv.set hrule.seen_subset hrule.stage fun hkey hacc => ?_
      rcases hrule.unseen_of_accepted hkey hacc with hold | hunseen
      · exact .inl ⟨call, hcall, rfl, hold⟩
      · exact .inr hunseen

/-- Two states that differ at most in calls of `hidden`, all of them with
frames that are refused. -/
structure Agree (hmac : HmacSha256) (serde : SerdeJson) (session : Session) (hidden : Nat → Bool)
    (s t : State) : Prop where
  inv : Inv hmac serde session s
  seen : s.seen = t.seen
  calls : ∀ c, hidden c = false → s.calls c = t.calls c
  refused : ∀ {c call}, hidden c = true → s.calls c = some call →
    ¬ session.WellSigned hmac call.frames

variable {hidden : Nat → Bool} {t : State}

/-- A step of a hidden call. -/
theorem Agree.hidden_step (hagree : Agree hmac serde session hidden s t) (hl : hidden l.id = true)
    (hbad : ∀ c frames, l = .call c frames → ¬ session.WellSigned hmac frames)
    (h : step hmac serde session s l = some s') : Agree hmac serde session hidden s' t := by
  have hinv := inv_step hagree.inv h
  cases step_rule h with
  | call c frames hnew =>
      refine ⟨hinv, hagree.seen, fun c' hc' => ?_, fun {c' call'} hc' hcall' => ?_⟩
      · rw [State.set_calls, if_neg (by rintro rfl; simp [Label.id, hc'] at hl)]
        exact hagree.calls c' hc'
      · rw [State.set_calls] at hcall'
        split at hcall'
        · cases hcall'
          exact hbad c frames rfl
        · exact hagree.refused hc' hcall'
  | resume c call hcall pc seen hresume =>
      have hrefused := hagree.refused hl hcall
      have hseen := (resume_rule (hagree.inv.stage hcall) hresume).seen_eq_of_not_wellSigned hrefused
      refine ⟨hinv, hseen.trans hagree.seen, fun c' hc' => ?_, fun {c' call'} hc' hcall' => ?_⟩
      · rw [State.set_calls, if_neg (by rintro rfl; simp [Label.id, hc'] at hl)]
        exact hagree.calls c' hc'
      · rw [State.set_calls] at hcall'
        split at hcall'
        · cases hcall'
          exact hrefused
        · exact hagree.refused hc' hcall'

/-- A step of any other call is matched. -/
theorem Agree.visible_step (hagree : Agree hmac serde session hidden s t) (hl : hidden l.id = false)
    (h : step hmac serde session s l = some s') :
    ∃ t', step hmac serde session t l = some t' ∧ Agree hmac serde session hidden s' t' := by
  have hinv := inv_step hagree.inv h
  cases step_rule h with
  | call c frames hnew =>
      refine ⟨t.set c ⟨frames, .check⟩, ?_, hinv, hagree.seen, fun c' hc' => ?_,
        fun {c' call'} hc' hcall' => ?_⟩
      · rw [hagree.calls c hl] at hnew
        simp [step, hnew]
      · rw [State.set_calls, State.set_calls, hagree.calls c' hc']
      · rw [State.set_calls, if_neg (by rintro rfl; simp [Label.id, hc'] at hl)] at hcall'
        exact hagree.refused hc' hcall'
  | resume c call hcall pc seen hresume =>
      refine ⟨{ t with seen }.set c ⟨call.frames, pc⟩, ?_, hinv, rfl, fun c' hc' => ?_,
        fun {c' call'} hc' hcall' => ?_⟩
      · rw [hagree.calls c hl] at hcall
        rw [hagree.seen] at hresume
        simp [step, hcall, hresume]
      · rw [State.set_calls, State.set_calls]
        split
        · rfl
        · exact hagree.calls c' hc'
      · rw [State.set_calls, if_neg (by rintro rfl; simp [Label.id, hc'] at hl)] at hcall'
        exact hagree.refused hc' hcall'

/-- Calls whose frames are refused can be left out of an interleaving: the
other calls and the seen signatures do not notice. -/
theorem run_without_refused {seen : Seen} {ls : List Label}
    (hrun : run (step hmac serde session) (init seen) ls = some t)
    (hbad : ∀ c frames, .call c frames ∈ ls → hidden c = true → ¬ session.WellSigned hmac frames) :
    ∃ t', run (step hmac serde session) (init seen) (ls.filter (fun l => !hidden l.id)) = some t' ∧
      t'.seen = t.seen ∧ ∀ c, hidden c = false → t'.calls c = t.calls c := by
  have hinit : Agree hmac serde session hidden (init seen) (init seen) :=
    ⟨inv_init seen, rfl, fun _ _ => rfl, fun _ h => by cases h⟩
  obtain ⟨t', hrun', hagree⟩ := run_filter_of_hidden (fun l => hidden l.id) hrun hinit
    (fun a b l a' hmem hl hagree h => hagree.hidden_step hl
      (fun c frames heq => hbad c frames (heq ▸ hmem) (by rw [heq] at hl; exact hl)) h)
    (fun a b l a' _ hl hagree h => hagree.visible_step hl h)
  exact ⟨t', hrun', hagree.seen.symm, fun c hc => (hagree.calls c hc).symm⟩

end Calls

namespace Session

variable {hmac : HmacSha256} {serde : SerdeJson} {session : Session}

/-- The frames are accepted as `message`: the layout is there, a keyed session
finds the right signature and has not seen it, and the JSON frames read as
three objects and a value. -/
def Accepts (hmac : HmacSha256) (serde : SerdeJson) (session : Session) (seen : Seen)
    (frames : List Bytes) (message : Message) : Prop :=
  ∃ p : Parts, p.frames = frames ∧ session.Signed hmac p ∧
    (session.key ≠ [] → p.signature ∉ seen) ∧ p.Reads serde message

/-- The frames carry `signature`, right and not seen, to a keyed session. -/
def Fresh (hmac : HmacSha256) (session : Session) (seen : Seen) (frames : List Bytes)
    (signature : Bytes) : Prop :=
  session.key ≠ [] ∧ signature ∉ seen ∧
    ∃ p : Parts, p.frames = frames ∧ p.signature = signature ∧ session.Signed hmac p

theorem Decodes.accepts_iff {seen seen' : Seen} {frames : List Bytes}
    {result : Except WireError Message} (h : Decodes hmac serde session seen frames result seen')
    (message : Message) :
    result = .ok message ↔ session.Accepts hmac serde seen frames message := by
  cases h with
  | refused error hsigned =>
      refine ⟨nofun, ?_⟩
      rintro ⟨p, hframes, hp, _⟩
      exact absurd ⟨p, hframes, hp⟩ hsigned
  | unkeyed p hkey =>
      rw [Parts.read_eq_ok]
      refine ⟨fun hread => ⟨p, rfl, fun h => absurd hkey h, fun h => absurd hkey h, hread⟩, ?_⟩
      rintro ⟨q, hframes, _, _, hread⟩
      rw [← Parts.eq_of_frames_eq hframes]
      exact hread
  | duplicate p hkey hp hseen =>
      refine ⟨nofun, ?_⟩
      rintro ⟨q, hframes, _, hunseen, _⟩
      rw [Parts.eq_of_frames_eq hframes] at hunseen
      exact absurd hseen (hunseen hkey)
  | fresh p hkey hp hseen =>
      rw [Parts.read_eq_ok]
      refine ⟨fun hread => ⟨p, rfl, hp, fun _ => hseen, hread⟩, ?_⟩
      rintro ⟨q, hframes, _, _, hread⟩
      rw [← Parts.eq_of_frames_eq hframes]
      exact hread

theorem Decodes.seen_eq {seen seen' : Seen} {frames : List Bytes}
    {result : Except WireError Message} (h : Decodes hmac serde session seen frames result seen') :
    (∀ signature, session.Fresh hmac seen frames signature → seen' = insert signature seen) ∧
      ((∀ signature, ¬ session.Fresh hmac seen frames signature) → seen' = seen) := by
  cases h with
  | refused error hsigned =>
      refine ⟨?_, fun _ => rfl⟩
      rintro signature ⟨_, _, p, hframes, _, hp⟩
      exact absurd ⟨p, hframes, hp⟩ hsigned
  | unkeyed p hkey => exact ⟨fun signature hfresh => absurd hkey hfresh.1, fun _ => rfl⟩
  | duplicate p hkey hp hseen =>
      refine ⟨?_, fun _ => rfl⟩
      rintro signature ⟨_, hunseen, q, hframes, rfl, _⟩
      rw [Parts.eq_of_frames_eq hframes] at hunseen
      exact absurd hseen hunseen
  | fresh p hkey hp hseen =>
      constructor
      · rintro signature ⟨_, _, q, hframes, rfl, _⟩
        rw [Parts.eq_of_frames_eq hframes]
      · intro hnone
        exact absurd ⟨hkey, hseen, p, rfl, rfl, hp⟩ (hnone p.signature)

/-- `decode` accepts exactly the frames it should, and a keyed session accepts
a signature once over all its clones. -/
theorem decode_exact_once (hmac : HmacSha256) (serde : SerdeJson) (session : Session) :
    (∀ seen frames, ∃ result seen', session.decode hmac serde seen frames = some (result, seen') ∧
      (∀ message, result = .ok message ↔ session.Accepts hmac serde seen frames message) ∧
      (∀ signature, session.Fresh hmac seen frames signature → seen' = insert signature seen) ∧
      ((∀ signature, ¬ session.Fresh hmac seen frames signature) → seen' = seen)) ∧
    ∀ seen ls t, run (Calls.step hmac serde session) (Calls.init seen) ls = some t →
      -- every call runs `decode`
      (∀ c frames pc, t.calls c = some ⟨frames, pc⟩ → pc ≠ .panicked ∧
        ∀ result, pc = .returned result → ∃ seen₁ seen₂, seen₂ ⊆ t.seen ∧
          session.decode hmac serde seen₁ frames = some (result, seen₂)) ∧
      -- a signature is accepted once
      (session.key ≠ [] → ∀ c c' (p p' : Parts) message message',
        t.calls c = some ⟨p.frames, .returned (.ok message)⟩ →
        t.calls c' = some ⟨p'.frames, .returned (.ok message')⟩ →
        p.signature = p'.signature → c = c') ∧
      -- refused calls have no effect on the others
      ∀ hidden : Nat → Bool,
        (∀ c frames, .call c frames ∈ ls → hidden c = true → ¬ session.WellSigned hmac frames) →
        ∃ t', run (Calls.step hmac serde session) (Calls.init seen)
            (ls.filter (fun l => !hidden l.id)) = some t' ∧
          t'.seen = t.seen ∧ ∀ c, hidden c = false → t'.calls c = t.calls c := by
  refine ⟨fun seen frames => ?_, fun seen ls t hrun => ?_⟩
  · obtain ⟨result, seen', hdecode, hrule⟩ := decode_rule hmac serde session seen frames
    exact ⟨result, seen', hdecode, hrule.accepts_iff, hrule.seen_eq⟩
  · have hinv : Calls.Inv hmac serde session t :=
      run_invariant (fun _ _ _ => Calls.inv_step) hrun (Calls.inv_init seen)
    refine ⟨fun c frames pc hcall => ?_, fun hkey c c' p p' message message' hcall hcall' => ?_,
      fun hidden hbad => Calls.run_without_refused hrun hbad⟩
    · have hstage := hinv.stage hcall
      constructor
      · rintro rfl
        cases hstage
      · rintro result rfl
        cases hstage with
        | @returned _ _ seen₁ seen₂ hdecode hsub => exact ⟨seen₁, seen₂, hsub, hdecode⟩
    · exact hinv.once hkey hcall hcall' (.inr ⟨message, rfl⟩) (.inr ⟨message', rfl⟩) rfl rfl

/-- Frames without a delimiter, handed in between the stages of a genuine
call, do not keep it from returning its message. -/
theorem decode_exact_once_forged :
    ∃ t, run (Calls.step secretHmac emptyObjectJson secretSession) (Calls.init ∅)
        [.call 0 signedFrames, .resume 0, .resume 0, .resume 0] = some t ∧
      t.calls 0 = some ⟨signedFrames, .returned (.ok
        { identities := [ascii "a"], content := .object [], buffers := [delimiter] })⟩ := by
  have hall := (decode_exact_once secretHmac emptyObjectJson secretSession).2 ∅
    [.call 0 signedFrames, .call 1 [], .resume 0, .resume 1, .resume 0, .resume 0] _ rfl
  obtain ⟨t, hrun, _, hcalls⟩ := hall.2.2 (fun c => c == 1) (by
    rintro c frames hmem hc ⟨p, hp, _⟩
    have hframes : frames = [] := by
      simp only [beq_iff_eq] at hc
      simpa [hc] using hmem
    simp [hframes, Parts.frames] at hp)
  exact ⟨t, hrun, hcalls 0 rfl⟩

end Session

end Kernmini.Wire
