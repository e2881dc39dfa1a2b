/-
Kernmini.Worker.ThreadWorkerTheorems — the worker serves its jobs as
`Worker.Serial` says.

At every moment the jobs that were sent split into those the thread is done
with and those still to come. What was done is a service of the first part;
a call that is still unanswered waits for a job of the second.
-/
import Kernmini.Worker.ThreadWorker
import Kernmini.Lib.Transition

namespace Kernmini.Worker

open Kernmini.Engine Kernmini.Lib

variable {σ ρ : Type*}

/-- The job the thread is at. -/
def WorkerPc.inHand : WorkerPc σ ρ → List (Job CallId σ ρ)
  | .calling _ c f => [.call c f]
  | .stopping c => [.stop c]
  | _ => []

/-- How often the state has been dropped here. -/
def WorkerPc.drops : WorkerPc σ ρ → Nat
  | .receiving _ | .calling _ _ _ => 0
  | _ => 1

/-- What the sender leaves in the channel. -/
def settled : Option (Reply ρ) → Oneshot (Reply ρ)
  | some reply => .sent reply
  | none => .dropped

/-- The result of a call with this outcome. -/
def Answer (o : Option (Reply ρ)) (result : Except Error (Reply ρ)) : Prop :=
  match o, result with
  | some reply, .ok got => got = reply
  | none, .error e => e.kind = .closed
  | _, _ => False

theorem settled_ne_waiting (o : Option (Reply ρ)) : settled o ≠ .waiting := by
  cases o <;> simp [settled]

theorem answer_of_sent {o : Option (Reply ρ)} {reply : Reply ρ} (h : .sent reply = settled o) :
    Answer o (.ok reply) := by
  cases o with
  | some reply' =>
      cases h
      rfl
  | none => cases h

theorem answer_of_dropped {o : Option (Reply ρ)} (h : .dropped = settled o) (resource : String) :
    Answer o (.error (channelClosed resource)) := by
  cases o with
  | some reply => cases h
  | none => rfl

namespace ThreadWorker

/-- The jobs the thread is not done with. -/
def toCome (s : ThreadWorker σ ρ) : List (Job CallId σ ρ) := s.pc.inHand ++ s.queue

/-- Where the thread is, given the state behind the jobs it is done with. -/
def At (s : ThreadWorker σ ρ) (left : Option σ) : Prop :=
  match s.pc with
  | .receiving state | .calling state _ _ => left = some state
  | .stopping _ => ∃ state, left = some state
  | .closing => left = none ∨ s.handles = false ∧ s.queue = []
  | .ended => s.queue = []

/-- The outcome of `c`, whose callback has run if it is a value. -/
structure Given (state : σ) (s : ThreadWorker σ ρ) (c : CallId) (o : Option (Reply ρ)) : Prop where
  outcome : (c, o) ∈ outcomes state s.sent
  ran : ∀ r, o = some (.value r) → ∃ seen, (c, seen, some r) ∈ s.ran

/-- The send failed, since the receiver was dropped. -/
def Refused (s : ThreadWorker σ ρ) (c : CallId) : Prop := c ∉ s.sent.map Job.id ∧ s.pc = .ended

def CallOk (state : σ) (s : ThreadWorker σ ρ) (c : CallId) : CallPc ρ → Prop
  | .awaiting _ channel =>
      (channel = .waiting ∧ c ∈ s.toCome.map Job.id) ∨ ∃ o, Given state s c o ∧ channel = settled o
  | .returned result =>
      (∃ o, Given state s c o ∧ Answer o result) ∨ (s.Refused c ∧ Answer none result)
  | .abandoned => True

structure Inv (state : σ) (s : ThreadWorker σ ρ) : Prop where
  split : ∃ done, s.sent = done ++ s.toCome ∧ s.ran = served state done ∧ s.At (after state done)
  calls : ∀ c pc, s.calls c = some pc → CallOk state s c pc
  known : ∀ c ∈ s.sent.map Job.id, s.calls c ≠ none
  nodup : (s.sent.map Job.id).Nodup
  dropped : s.dropped = s.pc.drops

theorem inv_start (state : σ) : Inv state (start state : ThreadWorker σ ρ) where
  split := ⟨[], rfl, rfl, rfl⟩
  calls := by simp [start]
  known := by simp [start]
  nodup := List.nodup_nil
  dropped := rfl

section

variable {state : σ} {s t : ThreadWorker σ ρ} {c : CallId}

/-! ## What a step does not touch -/

theorem Given.mono {o : Option (Reply ρ)} (h : Given state s c o) (hsent : s.sent <+: t.sent)
    (hran : s.ran <+: t.ran) : Given state t c o where
  outcome := by
    obtain ⟨more, hmore⟩ := hsent
    rw [← hmore]
    exact (outcomes_grow state s.sent more).subset h.outcome
  ran r hr := by
    obtain ⟨seen, hseen⟩ := h.ran r hr
    exact ⟨seen, hran.subset hseen⟩

theorem CallOk.mono {pc : CallPc ρ} (h : CallOk state s c pc) (hsent : s.sent <+: t.sent)
    (hran : s.ran <+: t.ran) (hcome : c ∈ s.toCome.map Job.id → c ∈ t.toCome.map Job.id)
    (hended : s.Refused c → t.Refused c) : CallOk state t c pc := by
  cases pc with
  | awaiting resource channel =>
      rcases h with ⟨hwaiting, hjob⟩ | ⟨o, ho, hchannel⟩
      · exact .inl ⟨hwaiting, hcome hjob⟩
      · exact .inr ⟨o, ho.mono hsent hran, hchannel⟩
  | returned result =>
      rcases h with ⟨o, ho, hanswer⟩ | ⟨hrefused, hanswer⟩
      · exact .inl ⟨o, ho.mono hsent hran, hanswer⟩
      · exact .inr ⟨hended hrefused, hanswer⟩
  | abandoned => trivial

/-- The jobs, the callbacks that ran and the thread are as before, and the
call `c` is at another place. -/
theorem Inv.setCall (h : Inv state s) {pc : CallPc ρ} (hpc : CallOk state s c pc) :
    Inv state (s.setCall c pc) where
  split := h.split
  calls d pc' hd := by
    by_cases hdc : d = c
    · subst hdc
      rw [setCall_calls, Function.update_self, Option.some.injEq] at hd
      subst hd
      exact hpc.mono List.prefix_rfl List.prefix_rfl id id
    · rw [setCall_calls, Function.update_of_ne hdc] at hd
      exact (h.calls d pc' hd).mono List.prefix_rfl List.prefix_rfl id id
  known d hd := by
    by_cases hdc : d = c
    · simp [hdc]
    · rw [setCall_calls, Function.update_of_ne hdc]
      exact h.known d hd
  nodup := h.nodup
  dropped := h.dropped

/-! ## Sends -/

/-- What a send does: it fails, or the job is in the channel. -/
inductive Sends (s : ThreadWorker σ ρ) (job : Job CallId σ ρ) : ThreadWorker σ ρ → Prop
  | refused : s.pc = .ended →
      Sends s job (s.setCall job.id (.returned (.error (Error.closed "interpreter worker"))))
  | queued (resource : String) : s.pc ≠ .ended →
      Sends s job { s.setCall job.id (.awaiting resource .waiting) with
        queue := s.queue ++ [job], sent := s.sent ++ [job] }

theorem sends_of_send {job : Job CallId σ ρ} {resource : String}
    (hstep : s.send job resource = some t) :
    s.handles = true ∧ s.calls job.id = none ∧ Sends s job t := by
  unfold ThreadWorker.send at hstep
  split at hstep
  · rename_i hhandles hcalls
    refine ⟨hhandles, hcalls, ?_⟩
    split at hstep
    · rename_i hpc
      cases hstep
      exact .refused hpc
    · rename_i hpc
      cases hstep
      exact .queued resource hpc
  · cases hstep

theorem Inv.send (h : Inv state s) {job : Job CallId σ ρ} {resource : String}
    (hstep : s.send job resource = some t) : Inv state t := by
  obtain ⟨hhandles, hfresh, hsends⟩ := sends_of_send hstep
  have hnew : job.id ∉ s.sent.map Job.id := fun hmem => h.known job.id hmem hfresh
  cases hsends with
  | refused hpc => exact h.setCall (.inr ⟨⟨hnew, hpc⟩, rfl⟩)
  | queued resource hpc =>
      obtain ⟨done, hsent, hran, hat⟩ := h.split
      refine ⟨⟨done, ?_, hran, ?_⟩, ?_, ?_, ?_, h.dropped⟩
      · simp [ThreadWorker.toCome, hsent, ThreadWorker.setCall]
      · -- a receiver that hung up has no sender left
        unfold At at hat ⊢
        simp only [ThreadWorker.setCall]
        split
        all_goals simp_all
      · intro d pc hd
        by_cases hdc : d = job.id
        · subst hdc
          simp only [ThreadWorker.setCall, Function.update_self, Option.some.injEq] at hd
          subst hd
          exact .inl ⟨rfl, by simp [ThreadWorker.toCome]⟩
        · simp only [ThreadWorker.setCall, Function.update_of_ne hdc] at hd
          refine (h.calls d pc hd).mono (List.prefix_append _ _) List.prefix_rfl ?_ ?_
          · intro hmem
            simp only [ThreadWorker.toCome, ThreadWorker.setCall, ← List.append_assoc, List.map_append,
              List.mem_append]
            left
            simpa [ThreadWorker.toCome] using hmem
          · exact fun hrefused => absurd hrefused.2 hpc
      · intro d hd
        by_cases hdc : d = job.id
        · simp [ThreadWorker.setCall, hdc]
        · simp only [ThreadWorker.setCall, Function.update_of_ne hdc]
          refine h.known d ?_
          simpa [hdc] using hd
      · rw [List.map_append, List.map_cons, List.map_nil, ← List.concat_eq_append]
        exact h.nodup.concat hnew

/-! ## Answers -/

/-- The sender leaves `o` in its channel, unless the receiver is gone. -/
structure SettlesBy (act : Oneshot (Reply ρ) → Oneshot (Reply ρ)) (o : Option (Reply ρ)) : Prop where
  waiting : act .waiting = settled o
  other : ∀ channel, channel ≠ .waiting → act channel = channel

theorem settlesBy_send (reply : Reply ρ) : SettlesBy (·.send reply) (some reply) :=
  ⟨rfl, fun _ h => Oneshot.send_of_ne h⟩

theorem settlesBy_dropSender : SettlesBy (fun channel : Oneshot (Reply ρ) => channel.dropSender) none :=
  ⟨rfl, fun _ h => Oneshot.dropSender_of_ne h⟩

theorem CallOk.settle {pc : CallPc ρ} {o : Option (Reply ρ)}
    {act : Oneshot (Reply ρ) → Oneshot (Reply ρ)} (h : CallOk state s c pc) (hact : SettlesBy act o)
    (hgiven : Given state t c o) (hsent : s.sent <+: t.sent) (hran : s.ran <+: t.ran)
    (hpc : s.pc ≠ .ended) : CallOk state t c (settle act pc) := by
  cases pc with
  | awaiting resource channel =>
      rcases h with ⟨hwaiting, _⟩ | ⟨o', ho', hchannel⟩
      · rw [hwaiting]
        exact .inr ⟨o, hgiven, hact.waiting⟩
      · refine .inr ⟨o', ho'.mono hsent hran, ?_⟩
        rw [hchannel]
        exact hact.other _ (settled_ne_waiting o')
  | returned result =>
      rcases h with ⟨o', ho', hanswer⟩ | ⟨hrefused, _⟩
      · exact .inl ⟨o', ho'.mono hsent hran, hanswer⟩
      · exact absurd hrefused.2 hpc
  | abandoned => trivial

/-- The thread is done with the job in hand, whose sender acts. -/
theorem Inv.handled (h : Inv state s) (job : Job CallId σ ρ) (log : List (CallId × σ × Option ρ))
    {o : Option (Reply ρ)} {act : Oneshot (Reply ρ) → Oneshot (Reply ρ)}
    (hhand : s.pc.inHand = [job]) (hact : SettlesBy act o)
    (hcalls : t.calls = (s.settleCall job.id act).calls) (hsent : t.sent = s.sent)
    (hran : t.ran = s.ran ++ log) (hcome : t.toCome = s.queue) (hdropped : t.dropped = t.pc.drops)
    (hserve : ∀ done, s.sent = done ++ job :: s.queue → s.At (after state done) →
      (job.id, o) ∈ outcomes state s.sent ∧ served state (done ++ [job]) = served state done ++ log ∧
        t.At (after state (done ++ [job])))
    (hlog : ∀ r, o = some (.value r) → ∃ seen, (job.id, seen, some r) ∈ log) : Inv state t := by
  obtain ⟨done, hsplit, hdone, hat⟩ := h.split
  have hfirst : s.toCome = job :: s.queue := by simp [ThreadWorker.toCome, hhand]
  rw [hfirst] at hsplit
  obtain ⟨houtcome, hserved, hat'⟩ := hserve done hsplit hat
  have hpc : s.pc ≠ .ended := by
    intro hended
    simp [hended, WorkerPc.inHand] at hhand
  have hsent' : s.sent <+: t.sent := hsent ▸ List.prefix_rfl
  have hran' : s.ran <+: t.ran := hran ▸ List.prefix_append _ _
  have hgiven : Given state t job.id o := by
    refine ⟨hsent ▸ houtcome, fun r hr => ?_⟩
    obtain ⟨seen, hseen⟩ := hlog r hr
    exact ⟨seen, hran ▸ List.mem_append_right _ hseen⟩
  refine ⟨⟨done ++ [job], ?_, ?_, hat'⟩, ?_, ?_, hsent ▸ h.nodup, hdropped⟩
  · rw [hsent, hcome, hsplit, List.append_assoc, List.singleton_append]
  · rw [hran, hserved, hdone]
  · intro d pc hd
    rw [hcalls, settleCall_calls] at hd
    by_cases hdc : d = job.id
    · subst hdc
      rw [Function.update_self, Option.map_eq_some_iff] at hd
      obtain ⟨pc', hpc', rfl⟩ := hd
      exact (h.calls _ pc' hpc').settle hact hgiven hsent' hran' hpc
    · rw [Function.update_of_ne hdc] at hd
      refine (h.calls d pc hd).mono hsent' hran' ?_ ?_
      · intro hmem
        rw [hfirst, List.map_cons, List.mem_cons] at hmem
        rw [hcome]
        exact hmem.resolve_left hdc
      · exact fun hrefused => absurd hrefused.2 hpc
  · intro d hd
    rw [hsent] at hd
    rw [hcalls, settleCall_calls]
    by_cases hdc : d = job.id
    · subst hdc
      rw [Function.update_self, ne_eq, Option.map_eq_none_iff]
      exact h.known _ hd
    · rw [Function.update_of_ne hdc]
      exact h.known d hd

/-! ## The thread's steps -/

/-- No job was sent or answered. -/
theorem Inv.move (h : Inv state s) (hcalls : t.calls = s.calls) (hsent : t.sent = s.sent)
    (hran : t.ran = s.ran) (hcome : t.toCome = s.toCome) (hended : s.pc = .ended → t.pc = .ended)
    (hat : ∀ left, s.At left → t.At left) (hdropped : t.dropped = t.pc.drops) : Inv state t := by
  obtain ⟨done, hsplit, hserved, hplace⟩ := h.split
  refine ⟨⟨done, ?_, ?_, hat _ hplace⟩, ?_, ?_, ?_, hdropped⟩
  · rw [hsent, hcome, hsplit]
  · rw [hran, hserved]
  · intro d pc hd
    rw [hcalls] at hd
    refine (h.calls d pc hd).mono (hsent ▸ List.prefix_rfl) (hran ▸ List.prefix_rfl) ?_ ?_
    · rw [hcome]
      exact id
    · exact fun hrefused => ⟨hsent ▸ hrefused.1, hended hrefused.2⟩
  · rw [hcalls, hsent]
    exact h.known
  · rw [hsent]
    exact h.nodup

theorem Inv.receive (h : Inv state s) (hstep : s.step .receive = some t) : Inv state t := by
  have hdropped := h.dropped
  simp only [step] at hstep
  split at hstep
  · rename_i x c f rest hpc hqueue
    cases hstep
    refine h.move rfl rfl rfl ?_ (by simp [hpc]) ?_ ?_
    · simp [ThreadWorker.toCome, hpc, hqueue, WorkerPc.inHand]
    · simp [At, hpc]
    · simp [hdropped, hpc, WorkerPc.drops]
  · rename_i x c rest hpc hqueue
    cases hstep
    refine h.move rfl rfl rfl ?_ (by simp [hpc]) ?_ ?_
    · simp [ThreadWorker.toCome, hpc, hqueue, WorkerPc.inHand]
    · intro left hleft
      simp only [At, hpc] at hleft
      exact ⟨x, hleft⟩
    · simp [hdropped, hpc, WorkerPc.drops]
  · rename_i x hpc hqueue
    split at hstep
    · cases hstep
    · rename_i hhandles
      cases hstep
      refine h.move rfl rfl rfl ?_ (by simp [hpc]) ?_ ?_
      · simp [ThreadWorker.toCome, hpc, WorkerPc.inHand]
      · exact fun left _ => .inr ⟨Bool.eq_false_iff.mpr hhandles, hqueue⟩
      · simp [hdropped, hpc, WorkerPc.drops]
  · cases hstep

theorem Inv.run (h : Inv state s) (hstep : s.step .run = some t) : Inv state t := by
  have hdropped := h.dropped
  simp only [step] at hstep
  split at hstep
  · rename_i x c f hpc
    have hhand : s.pc.inHand = [.call c f] := by rw [hpc]; rfl
    split at hstep
    · rename_i r next hf
      cases hstep
      refine h.handled (.call c f) _ hhand (settlesBy_send (.value r)) rfl rfl rfl rfl ?_ ?_ ?_
      · simp [settleCall, hdropped, hpc, WorkerPc.drops]
      · intro done hsent hat
        simp only [At, hpc] at hat
        rw [hsent, outcomes_append_some hat, served_append_some hat, after_append_some hat]
        simp [outcomes, served, after, At, hf, Job.id]
      · intro r' hr'
        cases hr'
        exact ⟨x, List.mem_singleton.mpr rfl⟩
    · rename_i hf
      cases hstep
      refine h.handled (.call c f) _ hhand settlesBy_dropSender rfl rfl rfl rfl ?_ ?_ (by simp)
      · simp [hdropped, hpc, WorkerPc.drops]
      · intro done hsent hat
        simp only [At, hpc] at hat
        rw [hsent, outcomes_append_some hat, served_append_some hat, after_append_some hat]
        simp [outcomes, served, after, At, hf, Job.id]
  · cases hstep

theorem Inv.reply (h : Inv state s) (hstep : s.step .reply = some t) : Inv state t := by
  have hdropped := h.dropped
  simp only [step] at hstep
  split at hstep
  · rename_i c hpc
    cases hstep
    have hhand : s.pc.inHand = [.stop c] := by rw [hpc]; rfl
    refine h.handled (.stop c) [] hhand (settlesBy_send .stopped) rfl rfl ?_ rfl ?_ ?_ (by simp)
    · simp [settleCall]
    · simp [settleCall, hdropped, hpc, WorkerPc.drops]
    · intro done hsent hat
      simp only [At, hpc] at hat
      obtain ⟨x, hx⟩ := hat
      rw [hsent, outcomes_append_some hx, served_append_some hx, after_append_some hx]
      simp [outcomes, served, after, At, Job.id]
  · cases hstep

theorem Inv.close (h : Inv state s) (hstep : s.step .close = some t) : Inv state t := by
  obtain ⟨done, hsent, hran, hat⟩ := h.split
  have hdropped := h.dropped
  simp only [step] at hstep
  split at hstep
  · rename_i hpc
    cases hstep
    have hcome : s.toCome = s.queue := by simp [ThreadWorker.toCome, hpc, WorkerPc.inHand]
    rw [hcome] at hsent
    simp only [At, hpc] at hat
    have houtcome : ∀ d ∈ s.queue.map Job.id, (d, none) ∈ outcomes state s.sent := by
      intro d hd
      rcases hat with hnone | ⟨_, hempty⟩
      · rw [hsent, outcomes_append_none hnone]
        exact List.mem_append_right _ (by simpa [unanswered] using hd)
      · simp [hempty] at hd
    refine ⟨⟨s.sent, ?_, ?_, rfl⟩, ?_, ?_, h.nodup, ?_⟩
    · simp [dropReceiver, ThreadWorker.toCome, WorkerPc.inHand]
    · rcases hat with hnone | ⟨_, hempty⟩
      · rw [hsent, served_append_none hnone]
        exact hran
      · rw [hsent, hempty, List.append_nil]
        exact hran
    · intro d pc hd
      simp only [dropReceiver, Option.map_eq_some_iff] at hd
      obtain ⟨pc', hpc', rfl⟩ := hd
      split
      · rename_i hmem
        refine (h.calls d pc' hpc').settle settlesBy_dropSender ?_ List.prefix_rfl List.prefix_rfl ?_
        · exact ⟨houtcome d hmem, by simp⟩
        · simp [hpc]
      · rename_i hmem
        refine (h.calls d pc' hpc').mono List.prefix_rfl List.prefix_rfl ?_ ?_
        · rw [hcome]
          exact fun hmem' => absurd hmem' hmem
        · exact fun hrefused => absurd hrefused.2 (by simp [hpc])
    · intro d hd
      simp only [dropReceiver, ne_eq, Option.map_eq_none_iff]
      exact h.known d hd
    · simp [dropReceiver, hdropped, hpc, WorkerPc.drops]
  · cases hstep

/-! ## Every step, every run -/

theorem Inv.step (h : Inv state s) {l : WorkerLabel σ ρ} (hstep : s.step l = some t) :
    Inv state t := by
  cases l with
  | call | shutdown => exact h.send hstep
  | hangUp =>
      simp only [ThreadWorker.step] at hstep
      split at hstep
      · cases hstep
        refine h.move rfl rfl rfl rfl id ?_ h.dropped
        intro left hleft
        unfold At at hleft ⊢
        split
        all_goals simp_all
      · cases hstep
  | receive => exact h.receive hstep
  | run => exact h.run hstep
  | reply => exact h.reply hstep
  | close => exact h.close hstep
  | «return» c =>
      simp only [ThreadWorker.step] at hstep
      split at hstep
      · rename_i resource reply hcall
        cases hstep
        rcases h.calls c _ hcall with ⟨hwaiting, _⟩ | ⟨o, hgiven, hchannel⟩
        · cases hwaiting
        · exact h.setCall (.inl ⟨o, hgiven, answer_of_sent hchannel⟩)
      · rename_i resource hcall
        cases hstep
        rcases h.calls c _ hcall with ⟨hwaiting, _⟩ | ⟨o, hgiven, hchannel⟩
        · cases hwaiting
        · exact h.setCall (.inl ⟨o, hgiven, answer_of_dropped hchannel resource⟩)
      · cases hstep
  | abandon c =>
      simp only [ThreadWorker.step] at hstep
      split at hstep
      · cases hstep
        exact h.setCall trivial
      · cases hstep

theorem inv_of_run {labels : List (WorkerLabel σ ρ)}
    (hrun : Lib.run ThreadWorker.step (start state) labels = some s) : Inv state s :=
  run_invariant (fun _ _ _ ha hstep => ha.step hstep) hrun (inv_start state)

/-! ## The thread gets through its jobs -/

/-- No job is left, and the thread does not wait for one that cannot come. -/
def Idle (s : ThreadWorker σ ρ) : Prop :=
  s.toCome = [] ∧ (s.handles = false → s.pc.drops = 1)

/-- What the thread still has to do. -/
def work (s : ThreadWorker σ ρ) : Nat :=
  4 * s.queue.length +
    match s.pc with
    | .calling _ _ _ | .stopping _ => 3
    | .receiving _ => 2
    | .closing => 1
    | .ended => 0

/-- The thread has a step, and less to do after it. -/
theorem own_step (h : Inv state s) (hidle : ¬ s.Idle) :
    ∃ l t, l.isOwn = true ∧ s.step l = some t ∧ (t.sent = s.sent ∧ t.handles = s.handles) ∧
      t.work < s.work := by
  obtain ⟨done, _, _, hat⟩ := h.split
  cases hpc : s.pc with
  | receiving x =>
      cases hqueue : s.queue with
      | nil =>
          have hhandles : s.handles = false := by
            simpa [Idle, ThreadWorker.toCome, hpc, hqueue, WorkerPc.inHand, WorkerPc.drops] using hidle
          refine ⟨.receive, { s with pc := .closing, dropped := s.dropped + 1 }, rfl, ?_, ⟨rfl, rfl⟩, ?_⟩
          · simp [ThreadWorker.step, hpc, hqueue, hhandles]
          · simp [work, hpc]
      | cons job rest =>
          cases job with
          | call c f =>
              refine ⟨.receive, { s with pc := .calling x c f, queue := rest }, rfl, ?_, ⟨rfl, rfl⟩, ?_⟩
              · simp [ThreadWorker.step, hpc, hqueue]
              · simp only [work, hpc, hqueue, List.length_cons]
                omega
          | stop c =>
              refine ⟨.receive, { s with pc := .stopping c, queue := rest, dropped := s.dropped + 1 },
                rfl, ?_, ⟨rfl, rfl⟩, ?_⟩
              · simp [ThreadWorker.step, hpc, hqueue]
              · simp only [work, hpc, hqueue, List.length_cons]
                omega
  | calling x c f =>
      cases hf : f x with
      | some result =>
          refine ⟨.run, { s.settleCall c (·.send (.value result.1)) with
            pc := .receiving result.2, ran := s.ran ++ [(c, x, some result.1)] },
            rfl, ?_, ⟨rfl, rfl⟩, ?_⟩
          · simp [ThreadWorker.step, hpc, hf]
          · simp [work, settleCall, hpc]
      | none =>
          refine ⟨.run, { s.settleCall c (·.dropSender) with
            pc := .closing, ran := s.ran ++ [(c, x, none)], dropped := s.dropped + 1 },
            rfl, ?_, ⟨rfl, rfl⟩, ?_⟩
          · simp [ThreadWorker.step, hpc, hf]
          · simp [work, settleCall, hpc]
  | stopping c =>
      refine ⟨.reply, { s.settleCall c (·.send .stopped) with pc := .closing }, rfl, ?_, ⟨rfl, rfl⟩, ?_⟩
      · simp [ThreadWorker.step, hpc]
      · simp [work, settleCall, hpc]
  | closing =>
      refine ⟨.close, s.dropReceiver, rfl, ?_, ⟨rfl, rfl⟩, ?_⟩
      · simp [ThreadWorker.step, hpc]
      · simp [work, dropReceiver, hpc]
  | ended =>
      simp only [At, hpc] at hat
      simp [Idle, ThreadWorker.toCome, hpc, hat, WorkerPc.inHand, WorkerPc.drops] at hidle

/-- The thread gets to the end of the jobs that were sent. -/
theorem reaches_idle (h : Inv state s) :
    ∃ t, ReachesBy step (fun l => l.isOwn = true) s t ∧
      (Inv state t ∧ t.sent = s.sent ∧ t.handles = s.handles) ∧ t.Idle := by
  have hstep : ∀ a, (Inv state a ∧ a.sent = s.sent ∧ a.handles = s.handles) → a.Idle ∨
      ∃ l b, l.isOwn = true ∧ a.step l = some b ∧
        (Inv state b ∧ b.sent = s.sent ∧ b.handles = s.handles) ∧ b.work < a.work := by
    intro a ⟨ha, hsent, hhandles⟩
    by_cases hidle : a.Idle
    · exact .inl hidle
    · obtain ⟨l, b, hown, hb, ⟨hsent', hhandles'⟩, hless⟩ := own_step ha hidle
      exact .inr ⟨l, b, hown, hb, ⟨ha.step hb, hsent'.trans hsent, hhandles'.trans hhandles⟩, hless⟩
  exact reachesBy_of_rank work hstep s ⟨h, rfl, rfl⟩

/-! ## The worker serialises its state -/

/-- The call is over with this outcome, or its next poll returns it. -/
def Settled (s : ThreadWorker σ ρ) (c : CallId) (o : Option (Reply ρ)) : Prop :=
  s.calls c = some .abandoned ∨
    (∃ result, s.calls c = some (.returned result) ∧ Answer o result) ∨
    ∃ t result, s.step (.return c) = some t ∧ t.calls c = some (.returned result) ∧ Answer o result

theorem mem_sent_of_outcome {o : Option (Reply ρ)} (h : (c, o) ∈ outcomes state s.sent) :
    c ∈ s.sent.map Job.id := by
  rw [← map_fst_outcomes state]
  exact List.mem_map_of_mem h

/-- Once no job is left, every call that was sent is settled. -/
theorem settled_of_done (h : Inv state s) (hcome : s.toCome = []) {o : Option (Reply ρ)}
    (ho : (c, o) ∈ outcomes state s.sent) : s.Settled c o := by
  have hmem : c ∈ s.sent.map Job.id := mem_sent_of_outcome ho
  obtain ⟨pc, hpc⟩ := Option.ne_none_iff_exists'.mp (h.known c hmem)
  have hok := h.calls c pc hpc
  cases pc with
  | awaiting resource channel =>
      rcases hok with ⟨_, hwaits⟩ | ⟨o', hgiven, rfl⟩
      · simp [hcome] at hwaits
      · obtain rfl := outcome_unique h.nodup ho hgiven.outcome
        refine .inr (.inr ?_)
        cases o with
        | some reply =>
            refine ⟨s.setCall c (.returned (.ok reply)), .ok reply, ?_, by simp, rfl⟩
            simp [ThreadWorker.step, hpc, settled]
        | none =>
            refine ⟨s.setCall c (.returned (.error (channelClosed resource))),
              .error (channelClosed resource), ?_, by simp, rfl⟩
            simp [ThreadWorker.step, hpc, settled]
  | returned result =>
      rcases hok with ⟨o', hgiven, hanswer⟩ | ⟨hrefused, _⟩
      · obtain rfl := outcome_unique h.nodup ho hgiven.outcome
        exact .inr (.inl ⟨result, hpc, hanswer⟩)
      · exact absurd hmem hrefused.1
  | abandoned => exact .inl hpc

theorem Inv.ran_served (h : Inv state s) : s.ran <+: served state s.sent := by
  obtain ⟨done, hsent, hran, _⟩ := h.split
  rw [hran, hsent]
  exact served_grow state done s.toCome

/-- A call that has returned `Ok` was given that reply. -/
theorem Inv.given_of_ok (h : Inv state s) {reply : Reply ρ}
    (hc : s.calls c = some (.returned (.ok reply))) : Given state s c (some reply) := by
  rcases h.calls c _ hc with ⟨o, hgiven, hanswer⟩ | ⟨_, hanswer⟩
  · cases o with
    | some reply' =>
        cases hanswer
        exact hgiven
    | none => cases hanswer
  · cases hanswer

/-- A call whose outcome is a reply returns nothing else. -/
theorem Inv.ok_of_outcome (h : Inv state s) {reply : Reply ρ} {result : Except Error (Reply ρ)}
    (ho : (c, some reply) ∈ outcomes state s.sent) (hc : s.calls c = some (.returned result)) :
    result = .ok reply := by
  rcases h.calls c _ hc with ⟨o, hgiven, hanswer⟩ | ⟨hrefused, _⟩
  · obtain rfl := outcome_unique h.nodup ho hgiven.outcome
    cases result with
    | ok got => exact congrArg Except.ok hanswer
    | error e => cases hanswer
  · exact absurd (mem_sent_of_outcome ho) hrefused.1

theorem Inv.closed_of_error (h : Inv state s) {e : Error}
    (hc : s.calls c = some (.returned (.error e))) : e.kind = .closed := by
  rcases h.calls c _ hc with ⟨o, _, hanswer⟩ | ⟨_, hanswer⟩
  · cases o with
    | some reply => cases hanswer
    | none => exact hanswer
  · exact hanswer

/-- With no job left, the callbacks that ran are all that run, and the state
is gone if the service or the handles have ended. -/
theorem Inv.all_ran (h : Inv state s) (hidle : s.Idle) :
    s.ran = served state s.sent ∧
      (after state s.sent = none ∨ s.handles = false → s.dropped = 1) := by
  obtain ⟨done, hsent, hran, hat⟩ := h.split
  rw [hidle.1, List.append_nil] at hsent
  subst hsent
  refine ⟨hran, fun hends => ?_⟩
  rw [h.dropped]
  rcases hends with hnone | hhandles
  · unfold At at hat
    split at hat
    all_goals simp_all [WorkerPc.drops]
  · exact hidle.2 hhandles

/-- The worker has served its jobs one after the other, up to the first
`Stop` and the first panic. -/
structure Serialises (state : σ) (s : ThreadWorker σ ρ) : Prop where
  /-- the callbacks that ran are the first ones of that service, with the
  states they saw, each once -/
  ran : s.ran <+: served state s.sent ∧ (s.ran.map Prod.fst).Nodup
  /-- a call returns what the service gives it, or was refused at its end -/
  returned : ∀ c result, s.calls c = some (.returned result) →
    (∃ o, (c, o) ∈ outcomes state s.sent ∧ Answer o result) ∨ (s.Refused c ∧ Answer none result)
  /-- a callback that gave a value has it returned -/
  value : ∀ c seen r result, (c, seen, some r) ∈ s.ran → s.calls c = some (.returned result) →
    result = .ok (.value r)
  /-- no value is returned without its callback -/
  callback : ∀ c r, s.calls c = some (.returned (.ok (.value r))) → ∃ seen, (c, seen, some r) ∈ s.ran
  /-- only the shutdown whose `Stop` was reached returns `Ok` -/
  stopped : ∀ c, s.calls c = some (.returned (.ok .stopped)) → ∃ front rest middle,
    s.sent = front ++ .stop c :: rest ∧ after state front = some middle
  stopped_once : ∀ c d, s.calls c = some (.returned (.ok .stopped)) →
    s.calls d = some (.returned (.ok .stopped)) → c = d
  /-- that shutdown does -/
  first_stop : ∀ front c rest middle, s.sent = front ++ .stop c :: rest →
    after state front = some middle → (c, some .stopped) ∈ outcomes state s.sent
  /-- every other answer is a `Closed` -/
  closed : ∀ c e, s.calls c = some (.returned (.error e)) → e.kind = .closed
  dropped : s.dropped = s.pc.drops
  /-- by its own steps the thread runs every callback it is to run and
  settles every call; it drops the state if the jobs or the handles end it -/
  finishes : ∃ t, ReachesBy step (fun l => l.isOwn = true) s t ∧ t.sent = s.sent ∧
    t.ran = served state s.sent ∧ (∀ c o, (c, o) ∈ outcomes state s.sent → t.Settled c o) ∧
    (after state s.sent = none ∨ s.handles = false → t.dropped = 1)

theorem serialises (state : σ) {labels : List (WorkerLabel σ ρ)} {s : ThreadWorker σ ρ}
    (hrun : Lib.run step (start state) labels = some s) : Serialises state s := by
  have h := inv_of_run hrun
  refine ⟨⟨h.ran_served, ?_⟩, ?_, ?_, ?_, ?_, ?_, ?_, ?_, h.dropped, ?_⟩
  · obtain ⟨more, hmore⟩ := h.ran_served
    have hnodup := h.nodup.sublist (served_sublist state s.sent)
    rw [← hmore, List.map_append] at hnodup
    exact hnodup.of_append_left
  · intro c result hc
    rcases h.calls c _ hc with ⟨o, hgiven, hanswer⟩ | hrefused
    · exact .inl ⟨o, hgiven.outcome, hanswer⟩
    · exact .inr hrefused
  · intro c seen r result hran hc
    exact h.ok_of_outcome (value_of_served (h.ran_served.subset hran)) hc
  · intro c r hc
    exact (h.given_of_ok hc).ran r rfl
  · intro c hc
    exact after_of_stopped (h.given_of_ok hc).outcome
  · intro c d hc hd
    exact stopped_unique (h.given_of_ok hc).outcome (h.given_of_ok hd).outcome
  · intro front c rest middle hsent hfront
    rw [hsent]
    exact stopped_of_after hfront
  · intro c e hc
    exact h.closed_of_error hc
  · obtain ⟨t, hreach, ⟨ht, hsent, hhandles⟩, hidle⟩ := reaches_idle h
    obtain ⟨hran, hdropped⟩ := ht.all_ran hidle
    rw [hsent] at hran hdropped
    rw [hhandles] at hdropped
    refine ⟨t, hreach, hsent, hran, fun c o ho => ?_, hdropped⟩
    exact settled_of_done ht hidle.1 (hsent ▸ ho)

/-- A call that adds one, a shutdown, and a call behind it. -/
theorem serialises_behind_stop :
    ∃ s : ThreadWorker Nat Nat,
      Lib.run step (start 5)
          [.call 0 (fun n => some (n, n + 1)), .receive, .shutdown 1, .call 2 (fun n => some (n, n)),
            .run, .receive, .reply, .close, .return 0, .return 1, .return 2] = some s ∧
        s.calls 0 = some (.returned (.ok (.value 5))) ∧ s.calls 1 = some (.returned (.ok .stopped)) ∧
        s.calls 2 = some (.returned (.error (channelClosed "interpreter worker"))) ∧
        Serialises 5 s := by
  have hrun : Lib.run step (start 5 : ThreadWorker Nat Nat)
      [.call 0 (fun n => some (n, n + 1)), .receive, .shutdown 1, .call 2 (fun n => some (n, n)),
        .run, .receive, .reply, .close, .return 0, .return 1, .return 2] = some _ := rfl
  exact ⟨_, hrun, rfl, rfl, rfl, serialises 5 hrun⟩

end

end ThreadWorker

end Kernmini.Worker
