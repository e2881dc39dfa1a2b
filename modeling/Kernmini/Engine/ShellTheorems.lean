/-
Kernmini.Engine.ShellTheorems — what the scheduler of one shell
guarantees over whole runs, whatever its environment does.

  * Serial execution and hold discipline: `start_discipline`.
  * No request is answered or run twice: `answered_and_started_once`.
  * No request is lost, as long as no hold is parked over another:
    `noLoss_throughout_iff`. Parking a second hold overwrites the first
    (`overwritten_hold_is_lost`).

`Ledger` is the invariant behind the last two: the messages taken from the
channel are, each exactly once, waiting, executing, settled by a reply, or
dropped. It is preserved by `step_effect`.
-/
import Kernmini.Engine.ShellAccounting

namespace Kernmini.Engine

open Kernmini.Wire Kernmini.Lib

theorem ActiveTurn.shape {a a' : Option ActiveExecution} (h : ActiveTurn a a')
    (hs : ∀ x ∈ a, x.Shape) : ∀ x ∈ a', x.Shape := by
  cases h with
  | same => exact hs
  | step hitem hshape =>
      intro x hx
      cases hx
      exact hshape (hs _ rfl)
  | done h => intro x hx; cases hx

/-- Without an active execution a step has none to change. -/
theorem ActiveTurn.of_none {a a' : Option ActiveExecution} (h : ActiveTurn a a')
    (hn : a = none) : a' = none := by
  cases h with
  | same => exact hn
  | step => cases hn
  | done => rfl

/-- An execution that is active after a step was active before it. -/
theorem ActiveTurn.item {a a' : Option ActiveExecution} {x' : ActiveExecution}
    (h : ActiveTurn a a') (hx' : a' = some x') : ∃ x, a = some x ∧ x'.item = x.item := by
  cases h with
  | same => exact ⟨x', hx', rfl⟩
  | step hitem hshape =>
      cases hx'
      exact ⟨_, rfl, hitem⟩
  | done => cases hx'

theorem CommsTurn.length {comms comms' : List (Nat × Output)} (h : CommsTurn comms comms') :
    comms'.length = comms.length := by
  cases h <;> simp

/-- The environment never loses the flush of a comm output. -/
theorem CommsTurn.flushing {comms comms' : List (Nat × Output)} {n order : Nat}
    {output : Output} (h : CommsTurn comms comms') (hget : comms[n]? = some (order, output))
    (hf : output.Flushing) :
    ∃ output', comms'[n]? = some (order, output') ∧ output'.Flushing := by
  cases h with
  | same => exact ⟨output, hget, hf⟩
  | @pump comm order' out out' l es hget' hstep =>
      by_cases heq : comm = n
      · subst heq
        rw [hget] at hget'
        cases hget'
        have hlt : comm < comms.length := (List.getElem?_eq_some_iff.mp hget).1
        exact ⟨out', by simp [hlt], Output.flushing_step hf hstep⟩
      · exact ⟨output, by rw [List.getElem?_set_ne heq, hget], hf⟩
  | accept comm m =>
      by_cases heq : comm = n
      · subst heq
        exact ⟨output.accept m, by simp [hget], Output.flushing_accept hf m⟩
      · exact ⟨output, by simp [heq, hget], hf⟩

/-- An active execution stays, or has ended. -/
theorem ActiveTurn.keep_or_done {a' : Option ActiveExecution} {x : ActiveExecution}
    {a : Option ActiveExecution} (h : ActiveTurn a a') (hx : a = some x) :
    (∃ x', a' = some x' ∧ x'.item = x.item) ∨ (a' = none ∧ x.isFinished = true) := by
  cases h with
  | same => exact Or.inl ⟨x, hx, rfl⟩
  | step hitem hshape =>
      cases hx
      exact Or.inl ⟨_, rfl, hitem⟩
  | done hres =>
      cases hx
      exact Or.inr ⟨rfl, by rw [ActiveExecution.isFinished, hres]; rfl⟩

namespace Shell

variable {services : Services} {s s' : Shell} {l : Label}

/-! ## Shape of the reachable states -/

theorem shape_init : ({} : Shell).Shape where
  pc := trivial
  held := by intro item h; cases h
  active := by intro a h; cases h

/-- What the program counter asks for survives what the environment does. -/
theorem ok_of_stay {pc : Pc} (hok : pc.Ok s) (hheld : s'.held = s.held)
    (hactive : ActiveTurn s.active s'.active) (hcomms : CommsTurn s.comms s'.comms) :
    pc.Ok s' := by
  have hmay : ∀ item, s.MayStart item → s'.MayStart item := by
    intro item ⟨hnone, hlt⟩
    exact ⟨hactive.of_none hnone, by rw [hheld]; exact hlt⟩
  cases pc with
  | handle item => exact fun hex => hmay item (hok hex)
  | park item => exact ⟨hok.1, hmay item hok.2⟩
  | call item call comm =>
      refine ⟨hok.1, hok.2.1, ?_⟩
      intro n hn
      rw [hcomms.length]
      exact hok.2.2 n hn
  | commFlush item n =>
      obtain ⟨hreq, order, output, hget, hflush⟩ := hok
      obtain ⟨output', hget', hflush'⟩ := hcomms.flushing hget hflush
      exact ⟨hreq, order, output', hget', hflush'⟩
  | abort release resume =>
      cases resume with
      | settle => exact hactive.of_none hok
      | _ => trivial
  | answer release resume =>
      cases resume with
      | settle => exact hactive.of_none hok
      | _ => trivial
  | _ => trivial

theorem shape_step (hsh : s.Shape) (h : s.step services l = some s') : s'.Shape := by
  cases step_turn h with
  | stay hpc hheld hstarted hactive hcomms =>
      refine ⟨?_, by rw [hheld]; exact hsh.held, hactive.shape hsh.active⟩
      rw [hpc]
      exact ok_of_stay hsh.pc hheld hactive hcomms
  | plain hpc hheld hstarted hactive hreap =>
      refine ⟨Pc.ok_of_plain hpc ?_, ?_, hactive.shape hsh.active⟩
      · intro hr
        rcases hreap hr with hnone | ⟨hr', hsame⟩
        · exact hnone
        · rw [hsame]
          exact hsh.afterReap hr'
      · intro item hitem
        rcases hheld with hh | hh
        · exact hsh.held item (hh ▸ hitem)
        · rw [hh] at hitem
          cases hitem
  | pop item hpc hrun hheld hstarted hactive =>
      refine ⟨?_, by rw [hheld]; exact hsh.held, by rw [hactive]; exact hsh.active⟩
      rw [hpc]
      intro hex
      obtain ⟨hact, hlt⟩ := runnable_execute hrun hex
      have hnone : s.active = none := by simpa using hact
      exact ⟨hactive.trans hnone, by rw [hheld]; exact hlt⟩
  | call item call comm hpc hfields hpc' hcall hcomm hlen hheld hstarted hactive =>
      refine ⟨?_, by rw [hheld]; exact hsh.held, by rw [hactive]; exact hsh.active⟩
      rw [hpc']
      exact ⟨hcall, hcomm, hlen⟩
  | commFlush item call n hpc hcall hpc' hcomms hheld hstarted hactive =>
      refine ⟨?_, by rw [hheld]; exact hsh.held, by rw [hactive]; exact hsh.active⟩
      obtain ⟨hservice, _, hlen⟩ := hsh.call hpc
      have hreq := isRequest_of_serviceCall hservice
      rw [hpc', Pc.Ok, hcomms]
      refine ⟨by rw [QueueItem.isRequest, hreq, hcall]; rfl, ?_⟩
      have hlt : n < s.comms.length := hlen n rfl
      refine ⟨s.comms[n].1, s.comms[n].2.accept .flush, ?_, Output.flushing_accept_flush _⟩
      simp [hlt]
  | opening item hpc hex hpc' hheld hstarted hactive =>
      refine ⟨?_, by rw [hheld]; exact hsh.held, by rw [hactive]; exact hsh.active⟩
      rw [hpc']
      obtain ⟨hnone, hlt⟩ := hsh.handle hpc hex
      exact ⟨hex, hactive.trans hnone, by rw [hheld]; exact hlt⟩
  | parked item hpc hpc' hreap hheld hstarted hactive =>
      refine ⟨Pc.ok_of_plain hpc' (by simp [hreap]), ?_, by rw [hactive]; exact hsh.active⟩
      intro it hit
      rw [hheld] at hit
      cases hit
      exact (hsh.park hpc).1
  | spawned item execution n hpc hex hpc' hreap hheld hstarted hactive =>
      refine ⟨Pc.ok_of_plain hpc' (by simp [hreap]), by rw [hheld]; exact hsh.held, ?_⟩
      intro a ha
      rw [hactive] at ha
      cases ha
      exact ActiveExecution.shape_spawn hex execution n

theorem shape_of_reachable (h : Reachable services s) : s.Shape :=
  Lib.Reachable.invariant h shape_init (fun _ _ _ hs hstep => shape_step hs hstep)

/-! ## The ledger -/

/-- The books of a shell: `settled` are the messages that came to a reply,
`dropped` those that left without one. -/
structure Ledger (s : Shell) (settled dropped : List QueueItem) : Prop where
  orders : s.taken.map QueueItem.order = List.range s.order
  taken : s.taken.Perm (s.waiting ++ (s.executing ++ (settled ++ dropped)))
  replies : s.replies.Perm (settled.map QueueItem.order)
  answering : ∀ a ∈ s.active, a.replying = true → a.item ∈ settled
  started : ∃ others, s.taken.Perm (s.waiting ++ (s.started ++ others))

theorem ledger_init : Ledger {} [] [] where
  orders := rfl
  taken := List.Perm.refl _
  replies := List.Perm.refl _
  answering := by intro a ha; cases ha
  started := ⟨[], List.Perm.refl _⟩

/-- What a step can let go of without a reply: a message that is no request,
or a hold that another is parked over. -/
def MayDrop (s : Shell) (item : QueueItem) : Prop :=
  item.isRequest = false ∨ (s.held = some item ∧ ∃ hold, s.pc = .park hold)

/-- An execution that comes to its reply in a step leaves `executing`. -/
theorem answering_step {begun finished : List QueueItem} (hturn : Turn s s')
    (hmove : (s.executing ++ begun).Perm (s'.executing ++ finished)) {a' : ActiveExecution}
    (ha' : s'.active = some a') (hrep' : a'.replying = true) :
    (∃ a, s.active = some a ∧ a.replying = true ∧ a'.item = a.item) ∨ a'.item ∈ finished := by
  have hcase : ∀ a, s.active = some a → a'.item = a.item →
      (∃ a, s.active = some a ∧ a.replying = true ∧ a'.item = a.item) ∨ a'.item ∈ finished := by
    intro a ha hitem
    cases hrep : a.replying with
    | true => exact Or.inl ⟨a, ha, hrep, hitem⟩
    | false =>
        right
        have hmem : a.item ∈ s'.executing ++ finished := by
          apply hmove.subset
          simp [executing, ha, hrep]
        rw [hitem]
        simpa [executing, ha', hrep'] using hmem
  have hsame : s'.active = s.active → ∃ a, s.active = some a ∧ a'.item = a.item :=
    fun he => ⟨a', he ▸ ha', rfl⟩
  cases hturn with
  | stay hpc hheld hstarted hact hcomms =>
      obtain ⟨a, ha, hitem⟩ := hact.item ha'
      exact hcase a ha hitem
  | plain hpc hheld hstarted hact hreap =>
      obtain ⟨a, ha, hitem⟩ := hact.item ha'
      exact hcase a ha hitem
  | spawned item execution n hpc hex hpc' hreap hheld hstarted hact =>
      rw [hact] at ha'
      cases ha'
      cases hrep'
  | _ =>
      obtain ⟨a, ha, hitem⟩ := hsame (by assumption)
      exact hcase a ha hitem

/-- A step moves messages forward through the books. -/
theorem Ledger.step {settled dropped : List QueueItem} (hl : Ledger s settled dropped)
    (hsh : s.Shape) (h : s.step services l = some s') :
    ∃ moved lost, Ledger s' (settled ++ moved) (dropped ++ lost) ∧ ∀ item ∈ lost, s.MayDrop item := by
  obtain ⟨new, begun, moved, finished, lost, htaken, horder, hnew, hstarted, hw, he, hr, hlost⟩ :=
    step_effect hsh h
  refine ⟨moved ++ finished, lost, ⟨?_, ?_, ?_, ?_, ?_⟩, hlost⟩
  · rw [htaken, List.map_append, hl.orders, hnew, horder]
    simp only [List.range_eq_range']
    exact (congrArg (List.range' 0 s.order ++ List.range' · new.length) s.order.zero_add).symm.trans
      List.range'_append_1
  · classical
    rw [List.perm_iff_count]
    intro x
    have hx := hl.taken.count_eq x
    have hwx := hw.count_eq x
    have hex := he.count_eq x
    rw [htaken]
    simp only [List.count_append] at hx hwx hex ⊢
    omega
  · refine hr.trans ?_
    exact (hl.replies.append_right _).trans (List.Perm.of_eq List.map_append.symm)
  · intro a' ha' hrep'
    rcases answering_step (step_turn h) he ha' hrep' with ⟨a, ha, hrep, hitem⟩ | hmem
    · rw [hitem]
      exact List.mem_append_left _ (hl.answering a ha hrep)
    · exact List.mem_append_right _ (List.mem_append_right _ hmem)
  · obtain ⟨others, hothers⟩ := hl.started
    refine ⟨others ++ (moved ++ lost), ?_⟩
    classical
    rw [List.perm_iff_count]
    intro x
    have hx := hothers.count_eq x
    have hwx := hw.count_eq x
    rw [htaken, hstarted]
    simp only [List.count_append] at hx hwx ⊢
    omega

/-- The invariant of every run: shape and books. -/
def Accounts (s : Shell) : Prop := s.Shape ∧ ∃ settled dropped, Ledger s settled dropped

theorem accounts_init : Accounts {} := ⟨shape_init, [], [], ledger_init⟩

theorem accounts_step (ha : s.Accounts) (h : s.step services l = some s') : s'.Accounts := by
  obtain ⟨hsh, settled, dropped, hl⟩ := ha
  obtain ⟨moved, lost, hl', _⟩ := hl.step hsh h
  exact ⟨shape_step hsh h, _, _, hl'⟩

theorem accounts_of_reachable (h : Reachable services s) : s.Accounts :=
  Lib.Reachable.invariant h accounts_init (fun _ _ _ ha hstep => accounts_step ha hstep)

namespace Ledger

variable {settled dropped : List QueueItem}

theorem nodup_order (hl : Ledger s settled dropped) : (s.taken.map QueueItem.order).Nodup := by
  rw [hl.orders]
  exact List.nodup_range

/-- The arrival number names the message. -/
theorem eq_of_order (hl : Ledger s settled dropped) {a b : QueueItem} (ha : a ∈ s.taken)
    (hb : b ∈ s.taken) (h : a.order = b.order) : a = b :=
  List.inj_on_of_nodup_map hl.nodup_order ha hb h

/-- No message stands in two places of the books. -/
theorem nodup_places (hl : Ledger s settled dropped) :
    (s.waiting ++ (s.executing ++ (settled ++ dropped))).Nodup :=
  hl.taken.nodup (List.Nodup.of_map _ hl.nodup_order)

/-- The active execution is one of the messages taken. -/
theorem active_taken (hl : Ledger s settled dropped) {a : ActiveExecution}
    (ha : s.active = some a) : a.item ∈ s.taken := by
  apply hl.taken.symm.subset
  cases hrep : a.replying with
  | true => simp [hl.answering a ha hrep]
  | false => simp [executing, ha, hrep]

/-- Each message is sent one reply at most, pending ones included. -/
theorem nodup_replies (hl : Ledger s settled dropped) : s.replies.Nodup := by
  have hsub : settled.Sublist (s.waiting ++ (s.executing ++ (settled ++ dropped))) :=
    ((List.sublist_append_left settled dropped).trans
      (List.sublist_append_right _ _)).trans (List.sublist_append_right _ _)
  have hmap := (hl.taken.map QueueItem.order).nodup hl.nodup_order
  exact hl.replies.symm.nodup ((hsub.map _).nodup hmap)

/-- A waiting message has no reply, sent or pending. -/
theorem not_replied_of_waiting (hl : Ledger s settled dropped) {item : QueueItem}
    (h : item ∈ s.waiting) : item.order ∉ s.replies := by
  intro hr
  obtain ⟨other, hother, heq⟩ := List.mem_map.mp (hl.replies.subset hr)
  have hmem : item ∈ s.taken := hl.taken.symm.subset (List.mem_append_left _ h)
  have hmem' : other ∈ s.taken := hl.taken.symm.subset (by simp [hother])
  rw [hl.eq_of_order hmem' hmem heq] at hother
  have hdisj := (List.nodup_append.mp hl.nodup_places).2.2
  exact hdisj item h item (by simp [hother]) rfl

/-- A started message waits no more, and was started once. -/
theorem nodup_started (hl : Ledger s settled dropped) :
    (s.started.map QueueItem.order).Nodup ∧ ∀ item ∈ s.waiting, item ∉ s.started := by
  obtain ⟨others, hothers⟩ := hl.started
  have hnodup := (hothers.map QueueItem.order).nodup hl.nodup_order
  rw [List.map_append, List.map_append] at hnodup
  have hright := (List.nodup_append.mp hnodup).2.1
  refine ⟨(List.nodup_append.mp hright).1, ?_⟩
  intro item hw hs
  have hdisj := (List.nodup_append.mp hnodup).2.2
  exact hdisj item.order (List.mem_map_of_mem hw) item.order
    (List.mem_append_left _ (List.mem_map_of_mem hs)) rfl

end Ledger

/-! ## A concrete environment

For the runs on fixed inputs below: a shell of a kernel without subshells,
whose interrupt handlers succeed, and the cells a client sends to it. -/

def plainServices : Services := { supportsSubshells := false, connection := .null }

def quiet : Oracle := { kernelInfo := .error (.closed "language"), interruptHandler := none }

/-- An `execute_request` with the two metadata extensions. -/
def cell (msgId : String) (priority : UInt64) (hold : Bool) : Inbound :=
  { message :=
      { header := [("msg_id", .string msgId), ("msg_type", .string "execute_request")]
        metadata := [("priority", .number (.posInt priority)), ("hold", .bool hold)]
        content := .object [("code", .string "")] }
    reply := 0
    identity := [] }

/-- From the delivery of a message to an idle shell, up to its handling. -/
def popMessage (inbound : Inbound) : List Label :=
  .deliver inbound :: List.replicate 7 (.next quiet)

/-- The same for a cell that is held, up to the moment it is parked. -/
def parkCell (inbound : Inbound) : List Label :=
  popMessage inbound ++ [.next quiet, .emit, .emit, .next quiet]

/-! ## Serial execution and hold discipline -/

theorem Turn.started (h : Turn s s') : s'.started = s.started ∨
    ∃ item, s.pc = .handle item ∧ item.isExecute = true ∧ s'.started = s.started ++ [item] := by
  cases h with
  | spawned item execution n hpc hex hpc' hreap hheld hstarted hactive =>
      exact Or.inr ⟨item, hpc, hex, hstarted⟩
  | _ => exact Or.inl (by assumption)

theorem Turn.held (h : Turn s s') : s'.held = s.held ∨ s'.held = none ∨
    ∃ item, s.pc = .park item ∧ s'.held = some item := by
  cases h with
  | plain hpc hheld hstarted hactive hreap =>
      rcases hheld with hh | hh
      · exact Or.inl hh
      · exact Or.inr (Or.inl hh)
  | parked item hpc hpc' hreap hheld hstarted hactive => exact Or.inr (Or.inr ⟨item, hpc, hheld⟩)
  | _ => exact Or.inl (by assumption)

theorem Turn.active (h : Turn s s') : ActiveTurn s.active s'.active ∨
    ∃ item execution n, s.pc = .handle item ∧ item.isExecute = true ∧
      s'.active = some (.spawn item execution n) := by
  cases h with
  | stay hpc hheld hstarted hactive | plain hpc hheld hstarted hactive => exact Or.inl hactive
  | spawned item execution n hpc hex hpc' hreap hheld hstarted hactive =>
      exact Or.inr ⟨item, execution, n, hpc, hex, hactive⟩
  | _ =>
      have hactive : s'.active = s.active := by assumption
      rw [hactive]
      exact Or.inl (.same _)

/-- The active execution was started. -/
theorem active_started (hr : Reachable services s) : ∀ a ∈ s.active, a.item ∈ s.started := by
  refine @Lib.Reachable.invariant _ _ _ _ _ (fun s => ∀ a ∈ s.active, a.item ∈ s.started) hr
    (by intro a ha; cases ha) ?_
  intro s l s' hs h a' ha'
  have hturn := step_turn h
  have hgrow : s.started ⊆ s'.started := by
    rcases hturn.started with hst | ⟨item, _, _, hst⟩
    · rw [hst]
      exact List.Subset.refl _
    · rw [hst]
      exact List.subset_append_left _ _
  cases hturn with
  | spawned item execution n hpc hex hpc' hreap hheld hstarted hactive =>
      rw [hactive] at ha'
      cases ha'
      rw [hstarted]
      exact List.mem_append_right _ (List.mem_singleton.mpr rfl)
  | stay hpc hheld hstarted hactive hcomms =>
      obtain ⟨a, ha, hitem⟩ := hactive.item ha'
      rw [hitem]
      exact hgrow (hs a ha)
  | plain hpc hheld hstarted hactive hreap =>
      obtain ⟨a, ha, hitem⟩ := hactive.item ha'
      rw [hitem]
      exact hgrow (hs a ha)
  | _ =>
      have hactive : s'.active = s.active := by assumption
      exact hgrow (hs a' (hactive ▸ ha'))

/-- What a step respects when it spawns an execution, parks a hold, or
removes the record of an execution. -/
structure StartDiscipline (s s' : Shell) : Prop where
  spawn : ∀ item, s'.started = s.started ++ [item] →
    s.active = none ∧ ∀ hold ∈ s.held, hold.priority < item.priority
  park : ∀ item, s'.held = some item → s.held ≠ some item →
    s.active = none ∧ ∀ hold ∈ s.held, hold.priority < item.priority
  record : ∀ a, s.active = some a →
    (∃ a', s'.active = some a' ∧ a'.item = a.item) ∨ (s'.active = none ∧ a.isFinished = true)

/-- In every run an execution is spawned, and a hold parked, only when no
execution is active and no hold of its priority or above is parked; and the
record of an execution is removed only after its task has ended. -/
theorem start_discipline (hr : Reachable services s) (h : s.step services l = some s') :
    StartDiscipline s s' := by
  have hsh := (accounts_of_reachable hr).1
  have hturn := step_turn h
  refine ⟨?_, ?_, ?_⟩
  · intro item hstart
    rcases hturn.started with hs | ⟨it, hpc, hex, hs⟩
    · rw [hs] at hstart
      have hlen := congrArg List.length hstart
      simp at hlen
    · have heq : it = item := by
        have happ := hs.symm.trans hstart
        simpa using happ
      rw [← heq]
      exact hsh.handle hpc hex
  · intro item hheld hne
    rcases hturn.held with hh | hh | ⟨it, hpc, hh⟩
    · exact absurd (hh ▸ hheld) hne
    · rw [hh] at hheld
      cases hheld
    · rw [hh] at hheld
      cases hheld
      exact (hsh.park hpc).2
  · intro a ha
    rcases hturn.active with hact | ⟨item, execution, n, hpc, hex, hact⟩
    · exact hact.keep_or_done ha
    · have hnone := (hsh.handle hpc hex).1
      rw [ha] at hnone
      cases hnone

/-- A cell is parked, and the step spawns the execution of one with a higher
priority. -/
theorem start_discipline_over_hold :
    ∃ s s', run (Shell.step plainServices) {}
        (parkCell (cell "a" 0 true) ++ popMessage (cell "b" 1 false)) = some s ∧
      s.held.map QueueItem.order = some 0 ∧ s.step plainServices (.next quiet) = some s' ∧
      s'.started.map QueueItem.order = [1] ∧ StartDiscipline s s' := by
  obtain ⟨s, s', hs, hheld, hlast, hstarted⟩ : ∃ s s', run (Shell.step plainServices) {}
      (parkCell (cell "a" 0 true) ++ popMessage (cell "b" 1 false)) = some s ∧
      s.held.map QueueItem.order = some 0 ∧ s.step plainServices (.next quiet) = some s' ∧
      s'.started.map QueueItem.order = [1] := ⟨_, _, rfl, rfl, rfl, rfl⟩
  exact ⟨s, s', hs, hheld, hlast, hstarted, start_discipline ⟨_, hs⟩ hlast⟩

/-! ## No request is answered or run twice -/

theorem replies_subset (hsh : s.Shape) (h : s.step services l = some s') :
    s.replies ⊆ s'.replies := by
  obtain ⟨new, begun, moved, finished, lost, _, _, _, _, _, _, hrep, _⟩ := step_effect hsh h
  intro o ho
  exact hrep.symm.subset (List.mem_append_left _ ho)

/-- A message that is started has no reply, sent or pending. -/
theorem not_replied_of_started (ha : s.Accounts) (h : s.step services l = some s')
    {item : QueueItem} (hit : item ∈ s'.started) (hnew : item ∉ s.started) :
    item.order ∉ s.replies := by
  obtain ⟨hsh, settled, dropped, hl⟩ := ha
  rcases (step_turn h).started with hs | ⟨it, hpc, hex, hs⟩
  · exact absurd (hs ▸ hit) hnew
  · rw [hs] at hit
    have heq : item = it := by simpa [hnew] using hit
    apply hl.not_replied_of_waiting
    simp [waiting, hpc, heq, Pc.item]

/-- What holds of `t` when it comes after `s` in a run. -/
structure After (s t : Shell) : Prop where
  accounts : t.Accounts
  replies : s.replies ⊆ t.replies
  started : ∀ item ∈ t.started, item.order ∈ s.replies → item ∈ s.started

theorem After.step {t t' : Shell} (ha : After s t) (h : t.step services l = some t') :
    After s t' where
  accounts := accounts_step ha.accounts h
  replies := List.Subset.trans ha.replies (replies_subset ha.accounts.1 h)
  started := by
    intro item hit hrep
    by_cases hbefore : item ∈ t.started
    · exact ha.started item hbefore hrep
    · exact absurd (ha.replies hrep) (not_replied_of_started ha.accounts h hit hbefore)

/-- No request has two replies or two starts in `t`, and none that is
answered in `s` is started between `s` and `t`. -/
structure OnlyOnce (s t : Shell) : Prop where
  replies : (repliesIn t.log).Nodup
  starts : (t.started.map QueueItem.order).Nodup
  answered : ∀ item ∈ t.started, item.order ∈ repliesIn s.log → item ∈ s.started

/-- From every reachable state on, no request is sent a second reply, none is
started a second time, and none that has been answered is started. -/
theorem answered_and_started_once (hr : Reachable services s) {ls : List Label} {t : Shell}
    (hrun : run (Shell.step services) s ls = some t) : OnlyOnce s t := by
  have hstart : After s s :=
    ⟨accounts_of_reachable hr, List.Subset.refl _, fun _ h _ => h⟩
  have hafter : After s t := run_invariant (fun _ _ _ ha hstep => ha.step hstep) hrun hstart
  obtain ⟨_, settled, dropped, hl⟩ := hafter.accounts
  refine ⟨(List.nodup_append.mp hl.nodup_replies).1, hl.nodup_started.1, ?_⟩
  intro item hit hrep
  exact hafter.started item hit (List.mem_append_left _ hrep)

/-- A cell, then a release with status error of the hold before it, until
both are answered. -/
def releaseFailed : List Label :=
  [.deliver (cell "b" 0 false), .control (.release "a" "error" 0)] ++
    List.replicate 3 (.next quiet) ++ List.replicate 3 .emit ++
    [.next quiet] ++ List.replicate 3 .emit

/-- A hold that is released with an error aborts the cell queued behind it:
both have their one reply and neither is started. -/
theorem answered_and_started_once_aborted :
    ∃ s t, run (Shell.step plainServices) {} (parkCell (cell "a" 0 true)) = some s ∧
      run (Shell.step plainServices) s releaseFailed = some t ∧
      repliesIn t.log = [0, 1] ∧ t.started = [] ∧ OnlyOnce s t := by
  have hrun : (run (Shell.step plainServices) {}
      (parkCell (cell "a" 0 true) ++ releaseFailed)).map
      (fun t => (repliesIn t.log, t.started.length)) = some ([0, 1], 0) := by decide
  obtain ⟨t, ht, hview⟩ := Option.map_eq_some_iff.mp hrun
  obtain ⟨s, hs, hrest⟩ := run_append_eq_some.mp ht
  obtain ⟨hreplies, hstarted⟩ := Prod.mk.inj hview
  exact ⟨s, t, hs, hrest, hreplies, List.eq_nil_of_length_eq_zero hstarted,
    answered_and_started_once ⟨_, hs⟩ hrest⟩

/-! ## No request is lost -/

/-- The handler of the request is running, or is sending its reply. -/
def InHand (s : Shell) (item : QueueItem) : Prop :=
  s.pc.item = some item ∨ item.order ∈ repliesIn s.out

/-- The request is queued, parked, active, being handled, or answered. -/
def Accounted (s : Shell) (item : QueueItem) : Prop :=
  item ∈ s.queue.items ∨ s.held = some item ∨ (∃ a, s.active = some a ∧ a.item = item) ∨
    s.InHand item ∨ item.order ∈ repliesIn s.log

/-- `run` ended by a fatal error or by a shutdown request. -/
def endedBadly (s : Shell) : Bool :=
  match s.pc with
  | .failed _ => true
  | .ended _ (.error _) => true
  | .ended requested (.ok _) => requested
  | _ => false

/-- Every request taken from the channel is accounted for. -/
def NoLoss (s : Shell) : Prop :=
  s.endedBadly = false → ∀ item ∈ s.taken, item.isRequest = true → s.Accounted item

/-- The step does not park a hold while another is parked. -/
def ParksFree (s : Shell) (l : Label) : Prop :=
  ∀ o item, l = .next o → s.pc = .park item → s.held = none

instance : Decidable (s.ParksFree l) :=
  decidable_of_iff ((match l, s.pc with
    | .next _, .park _ => s.held.isNone
    | _, _ => true) = true) (by
      constructor
      · rintro h o item rfl hpc
        simpa [hpc] using h
      · intro h
        split
        · next o item hpc => simpa using h o item rfl hpc
        · rfl)

theorem accounted_of_waiting {item : QueueItem} (h : item ∈ s.waiting) : s.Accounted item := by
  simp only [waiting, List.mem_append, Option.mem_toList] at h
  rcases h with hq | hp | hh
  · exact Or.inl hq
  · exact Or.inr (Or.inr (Or.inr (Or.inl (Or.inl hp))))
  · exact Or.inr (Or.inl hh)

theorem accounted_of_executing {item : QueueItem} (h : item ∈ s.executing) :
    s.Accounted item := by
  unfold executing at h
  split at h
  · next a ha =>
      split at h
      · cases h
      · exact Or.inr (Or.inr (Or.inl ⟨a, ha, (List.mem_singleton.mp h).symm⟩))
  · cases h

theorem accounted_of_replies {settled dropped : List QueueItem} (hl : Ledger s settled dropped)
    {item : QueueItem} (hit : item ∈ s.taken) (h : item.order ∈ s.replies) :
    s.Accounted item := by
  simp only [replies, List.mem_append] at h
  rcases h with hlog | hout | hactive
  · exact Or.inr (Or.inr (Or.inr (Or.inr hlog)))
  · exact Or.inr (Or.inr (Or.inr (Or.inl (Or.inr hout))))
  · -- the reply is pending in the active task, so the request is the active one
    unfold activeOut at hactive
    split at hactive
    · next a ha =>
        rw [repliesIn_tag] at hactive
        have horder := List.eq_of_mem_replicate hactive
        have heq := hl.eq_of_order hit (hl.active_taken ha) horder
        exact Or.inr (Or.inr (Or.inl ⟨a, ha, heq.symm⟩))
    · cases hactive

/-- Where an accounted request stands in the books. -/
theorem Accounted.place {settled dropped : List QueueItem} (hl : Ledger s settled dropped)
    {item : QueueItem} (hit : item ∈ s.taken) (h : s.Accounted item) :
    item ∈ s.waiting ++ (s.executing ++ settled) := by
  have hreplies : item.order ∈ s.replies → item ∈ settled := by
    intro hr
    obtain ⟨other, hother, heq⟩ := List.mem_map.mp (hl.replies.subset hr)
    have hmem : other ∈ s.taken := hl.taken.symm.subset (by simp [hother])
    rw [← hl.eq_of_order hmem hit heq]
    exact hother
  rcases h with hq | hheld | ⟨a, ha, rfl⟩ | (hpc | hout) | hlog
  · simp [waiting, hq]
  · simp [waiting, hheld]
  · cases hrep : a.replying with
    | true => simp [hl.answering a ha hrep]
    | false => simp [executing, ha, hrep]
  · simp [waiting, hpc]
  · simp [hreplies (by simp [replies, hout])]
  · simp [hreplies (by simp [replies, hlog])]

/-- The books and the places agree: what is accounted for is what was not
dropped. -/
theorem accounted_iff {settled dropped : List QueueItem} (hl : Ledger s settled dropped)
    {item : QueueItem} (hit : item ∈ s.taken) : s.Accounted item ↔ item ∉ dropped := by
  constructor
  · intro hacc hdrop
    have hnodup : ((s.waiting ++ (s.executing ++ settled)) ++ dropped).Nodup := by
      simpa only [List.append_assoc] using hl.nodup_places
    exact (List.nodup_append.mp hnodup).2.2 item (hacc.place hl hit) item hdrop rfl
  · intro hdrop
    have hplace := hl.taken.subset hit
    simp only [List.mem_append] at hplace
    rcases hplace with hw | he | hs | hd
    · exact accounted_of_waiting hw
    · exact accounted_of_executing he
    · exact accounted_of_replies hl hit (hl.replies.symm.subset (List.mem_map_of_mem hs))
    · exact absurd hd hdrop

/-- Where a hold is about to be parked, only the scheduler itself changes
the hold. -/
theorem step_of_park {item : QueueItem} (hpc : s.pc = .park item)
    (h : s.step services l = some s') : (∃ o, l = .next o) ∨ s'.held = s.held := by
  cases step_rule h with
  | loop hout h =>
      cases h with
      | park => exact Or.inl ⟨_, rfl⟩
      | _ => simp_all
  | _ => exact Or.inr rfl

/-- Once `run` has returned, its program counter stays. -/
theorem pc_of_closed (hclosed : s.isOpen = false) (h : s.step services l = some s') :
    s'.pc = s.pc := by
  cases step_rule h with
  | loop hout h =>
      rw [h.isOpen] at hclosed
      cases hclosed
  | _ => rfl

/-- A shell that is running has not ended. -/
theorem endedBadly_of_isOpen (h : s.isOpen = true) : s.endedBadly = false := by
  unfold isOpen at h
  unfold endedBadly
  split at h <;> simp_all

theorem endedBadly_step (hbad : s.endedBadly = true) (h : s.step services l = some s') :
    s'.endedBadly = true := by
  have hclosed : s.isOpen = false := by
    by_contra hopen
    rw [endedBadly_of_isOpen (by simpa using hopen)] at hbad
    cases hbad
  simpa [endedBadly, pc_of_closed hclosed h] using hbad

/-- Parking a hold over another loses the other: it is nowhere, and has no
reply. -/
theorem not_accounted_of_overwrite (ha : s.Accounts) {o : Oracle} {item hold : QueueItem}
    (hpc : s.pc = .park item) (hheld : s.held = some hold)
    (h : s.step services (.next o) = some s') :
    hold ∈ s'.taken ∧ hold.isRequest = true ∧ ¬ s'.Accounted hold := by
  obtain ⟨hsh, settled, dropped, hl⟩ := ha
  simp only [step, next, hpc] at h
  split at h
  · next hout =>
      cases h
      have hwait : s.waiting = s.queue.items ++ [item, hold] := by
        simp [waiting, hpc, hheld, Pc.item]
      have hmem : hold ∈ s.waiting := by simp [hwait]
      have hnodup : (s.queue.items ++ [item, hold]).Nodup := by
        rw [← hwait]
        exact (List.nodup_append.mp hl.nodup_places).1
      have hne : item ≠ hold := by
        intro heq
        have := (List.nodup_append.mp hnodup).2.1
        simp [heq] at this
      refine ⟨hl.taken.symm.subset (List.mem_append_left _ hmem),
        isRequest_of_isExecute (hsh.held hold hheld), ?_⟩
      rintro (hq | hh | ⟨a, hact, _⟩ | (hp | ho) | hlog)
      · exact (List.nodup_append.mp hnodup).2.2 hold hq hold (by simp) rfl
      · exact hne (Option.some.inj hh)
      · have hnone := (hsh.park hpc).2.1
        exact absurd (hnone.symm.trans hact) (by simp)
      · cases hp
      · have hnil : s.out = [] := by simpa using hout
        have : hold.order ∈ repliesIn s.out := ho
        simp [hnil] at this
      · exact hl.not_replied_of_waiting hmem (List.mem_append_left _ hlog)
  · cases h

/-- A step keeps every request accounted for exactly when it parks no hold
over another. -/
theorem noLoss_step_iff (ha : s.Accounts) (hs : s.NoLoss) (h : s.step services l = some s') :
    s'.NoLoss ↔ ParksFree s l := by
  constructor
  · intro hs' o item hl hpc
    by_contra hne
    obtain ⟨hold, hheld⟩ := Option.ne_none_iff_exists'.mp hne
    subst hl
    obtain ⟨hmem, hreq, hlost⟩ := not_accounted_of_overwrite ha hpc hheld h
    refine hlost (hs' ?_ hold hmem hreq)
    simp only [step, next, hpc] at h
    split at h
    · cases h
      rfl
    · cases h
  · intro hok hgood' item hit hreq
    obtain ⟨hsh, settled, dropped, hl⟩ := ha
    obtain ⟨moved, lost, hl', hlost⟩ := hl.step hsh h
    have hgood : s.endedBadly = false := by
      by_contra hbad
      have hbad' := endedBadly_step (by simpa using hbad) h
      rw [hbad'] at hgood'
      cases hgood'
    rw [accounted_iff hl' hit]
    intro hdrop
    rcases List.mem_append.mp hdrop with hold | hnow
    · have hbefore : item ∈ s.taken := hl.taken.symm.subset (by simp [hold])
      exact (accounted_iff hl hbefore).mp (hs hgood item hbefore hreq) hold
    · rcases hlost item hnow with hnot | ⟨hheld, hold, hpc⟩
      · rw [hnot] at hreq
        cases hreq
      · rcases step_of_park hpc h with ⟨o, rfl⟩ | hsame
        · rw [hok o hold rfl hpc] at hheld
          cases hheld
        · -- the hold is still parked, so it cannot have been dropped
          have hwait : item ∈ s'.waiting := by simp [waiting, hsame, hheld]
          have hdisj := (List.nodup_append.mp hl'.nodup_places).2.2
          exact hdisj item hwait item (by simp [hnow]) rfl

theorem noLoss_init : NoLoss {} := by
  intro _ item hit
  cases hit

/-- In every run of a shell, no request is ever lost exactly when no hold is
parked while another is. -/
theorem noLoss_throughout_iff {ls : List Label} {t : Shell}
    (hrun : run (Shell.step services) {} ls = some t) :
    Throughout (Shell.step services) NoLoss {} ls ↔
      StepsMeet (Shell.step services) ParksFree {} ls :=
  throughout_iff_stepsMeet (fun _ _ _ ha h => accounts_step ha h)
    (fun _ _ _ ha hs h => noLoss_step_iff ha hs h) hrun accounts_init noLoss_init

/-- A run that parks one hold. -/
theorem noLoss_throughout_one_hold :
    ∃ t, run (Shell.step plainServices) {} (parkCell (cell "a" 0 true)) = some t ∧
      t.held.isSome = true ∧
      (Throughout (Shell.step plainServices) NoLoss {} (parkCell (cell "a" 0 true)) ↔
        StepsMeet (Shell.step plainServices) ParksFree {} (parkCell (cell "a" 0 true))) := by
  have hrun : (run (Shell.step plainServices) {} (parkCell (cell "a" 0 true))).map
      (fun t => t.held.isSome) = some true := by decide
  obtain ⟨t, ht, hheld⟩ := Option.map_eq_some_iff.mp hrun
  exact ⟨t, ht, hheld, noLoss_throughout_iff ht⟩

/-- A hold of priority 0 is parked, then one of priority 1: the first is
nowhere and has no reply. -/
theorem overwritten_hold_is_lost :
    ∃ t, run (Shell.step plainServices) {}
      (parkCell (cell "a" 0 true) ++ parkCell (cell "b" 1 true)) = some t ∧ ¬ t.NoLoss := by
  have hrun : (run (Shell.step plainServices) {}
      (parkCell (cell "a" 0 true) ++ parkCell (cell "b" 1 true))).map
      (fun t => (t.taken.map QueueItem.order, t.taken.all QueueItem.isRequest,
        t.waiting.map QueueItem.order, t.active.isNone, repliesIn t.out ++ repliesIn t.log,
        t.endedBadly)) = some ([0, 1], true, [1], true, [], false) := by decide
  obtain ⟨t, ht, hview⟩ := Option.map_eq_some_iff.mp hrun
  simp only [Prod.mk.injEq, List.append_eq_nil_iff] at hview
  obtain ⟨htaken, hreq, hwait, hact, ⟨hout, hlog⟩, hgood⟩ := hview
  refine ⟨t, ht, fun hno => ?_⟩
  obtain ⟨item, hit, horder⟩ := List.mem_map.mp (show 0 ∈ t.taken.map QueueItem.order by
    rw [htaken]; simp)
  have hplace : item ∉ t.waiting := by
    intro hmem
    have := List.mem_map_of_mem (f := QueueItem.order) hmem
    rw [hwait, horder] at this
    simp at this
  rcases hno hgood item hit (List.all_eq_true.mp hreq item hit) with
    hq | hh | ⟨a, ha, _⟩ | (hp | ho) | hl
  · exact hplace (by simp [waiting, hq])
  · exact hplace (by simp [waiting, hh])
  · simp [ha] at hact
  · exact hplace (by simp [waiting, hp])
  · simp [hout] at ho
  · simp [hlog] at hl

end Shell

end Kernmini.Engine
