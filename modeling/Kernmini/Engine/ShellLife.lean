/-
Kernmini.Engine.ShellLife — the life of an execute request in a shell.

Seen from one request, a step of the shell either leaves it alone or takes
it one step further in its life (`LifeStep`): it is queued, answered at
once, opened as a hold, released, started, worked on, finished. `Told`
says, for each stage of that life, what has been said about the request
so far; `told_step` that each step of the life keeps it, and `step_life`
that the shell takes no other step.
-/
import Kernmini.Engine.ExecutionTraces
import Kernmini.Engine.ShellTheorems

namespace Kernmini.Engine

open Kernmini.Wire Kernmini.Lib

namespace Shell

variable {services : Services} {s s' : Shell} {l : Label} {item : QueueItem}

/-! ## The life of a request -/

/-- What has been sent about request `n`, and what the scheduler has still to
send. -/
def said (s : Shell) (n : Nat) : List Emission := traceOf n s.log ++ traceOf n s.out

/-- What the language emitted while it worked on request `n`. -/
def emitted (s : Shell) (n : Nat) : List ContextMessage := traceOf n s.accepted

/-- The request waits for its turn. -/
def Waits (s : Shell) (item : QueueItem) : Prop :=
  item ∈ s.queue.items ∨ s.pc = .handle item

/-- The request is opened as a hold. -/
def Holds (s : Shell) (item : QueueItem) : Prop :=
  s.pc = .park item ∨ s.held = some item

/-- The request is the one the task works on. -/
def Works (s : Shell) (item : QueueItem) (a : ActiveExecution) : Prop :=
  s.active = some a ∧ a.item = item

/-- The request was taken and has left the shell. -/
structure Gone (s : Shell) (item : QueueItem) : Prop where
  taken : item ∈ s.taken
  waiting : item ∉ s.waiting
  works : ∀ a, ¬ s.Works item a

/-- What has been said about an execute request at each stage of its life. -/
inductive Told (s : Shell) (item : QueueItem) : Prop
  | unborn (horder : s.order ≤ item.order) (hsaid : s.said item.order = [])
      (hemitted : s.emitted item.order = [])
  | waiting (hplace : s.Waits item) (hsaid : s.said item.order = [])
      (hemitted : s.emitted item.order = [])
  | opened (hplace : s.Holds item) (hsaid : Opening (s.said item.order))
      (hemitted : s.emitted item.order = [])
  | working (a : ActiveExecution) (hplace : s.Works item a)
      (hexecution : a.execution = executeRequest item.request.content)
      (hout : traceOf item.order s.out = [])
      (htold : a.Told (traceOf item.order s.log) (s.emitted item.order))
  | closed (events : List Emission) (hgone : s.Gone item)
      (hevents : EventsOf (executeRequest item.request.content).silent
        (s.emitted item.order) events)
      (htrace : ExecuteTrace events (s.said item.order))
  | lost (hgone : s.Gone item) (hsaid : Opening (s.said item.order))

/-- The step leaves the request where it is and says nothing about it. -/
structure Spares (s s' : Shell) (item : QueueItem) : Prop where
  said : s'.said item.order = s.said item.order
  quiet : traceOf item.order s.out = [] → traceOf item.order s'.out = []
  emitted : s'.emitted item.order = s.emitted item.order
  taken : item ∈ s'.taken → item ∈ s.taken
  waits : s.Waits item → s'.Waits item
  holds : s.Holds item → s'.Holds item
  works : ∀ a, s.Works item a → ∃ a', s'.Works item a' ∧ a'.unmarked = a.unmarked
  gone : s.Gone item → s'.Gone item

/-- The scheduler says `es` about the request. -/
structure Says (s s' : Shell) (item : QueueItem) (es : List Emission) : Prop where
  said : s'.said item.order = s.said item.order ++ es
  emitted : s'.emitted item.order = s.emitted item.order

/-- A step of the shell, seen from one execute request. -/
inductive LifeStep (s s' : Shell) (item : QueueItem) : Prop
  | spared (h : Spares s s' item)
  /-- it is taken out of the channel -/
  | born (hplace : s'.Waits item) (hsaying : Says s s' item []) (horder : item.order = s.order)
  /-- it is aborted, interrupted, or has missing fields -/
  | answered (es : List Emission) (hplace : s.Waits item) (hgone : s'.Gone item)
      (hsaying : Says s s' item es) (htrace : ExecuteTrace [] es)
  | opened (es : List Emission) (hplace : s.Waits item) (hplace' : s'.Holds item)
      (hsaying : Says s s' item es) (hopening : Opening es)
  | released (es : List Emission) (hplace : s.Holds item) (hgone : s'.Gone item)
      (hsaying : Says s s' item es) (hclosing : Closing es)
  /-- another hold is parked over it -/
  | overwritten (hplace : s.Holds item) (hgone : s'.Gone item) (hsaying : Says s s' item [])
  | started (n : Nat) (hplace : s.Waits item)
      (hplace' : s'.Works item (.spawn item (executeRequest item.request.content) n))
      (hsaying : Says s s' item [])
  | worked (a a' : ActiveExecution) (l : TaskLabel) (es : List Emission)
      (hplace : s.Works item a) (hstep : a.step l = some (a', es)) (hplace' : s'.Works item a')
      (hlog : traceOf item.order s'.log = traceOf item.order s.log ++ es)
      (hout : traceOf item.order s'.out = traceOf item.order s.out)
      (hemitted : s'.emitted item.order = s.emitted item.order ++ l.emits)
  | finished (a : ActiveExecution) (result : Except Error ExecutionDone)
      (hplace : s.Works item a) (hphase : a.phase = .finished result) (hgone : s'.Gone item)
      (hsaying : Says s s' item [])

/-! ### One stage at a time -/

theorem mem_waiting_of_waits (h : s.Waits item) : item ∈ s.waiting := by
  rcases h with hq | hpc
  · exact List.mem_append_left _ hq
  · simp [waiting, hpc, Pc.item]

theorem mem_waiting_of_holds (h : s.Holds item) : item ∈ s.waiting := by
  rcases h with hpc | hheld
  · simp [waiting, hpc, Pc.item]
  · simp [waiting, hheld]

/-- A request that waits is not opened. -/
theorem not_holds_of_waits (ha : s.Accounts) (h : s.Waits item) : ¬ s.Holds item := by
  obtain ⟨_, settled, dropped, hl⟩ := ha
  have hnodup := (List.nodup_append.mp hl.nodup_places).1
  unfold waiting at hnodup
  rw [List.nodup_append, List.nodup_append] at hnodup
  obtain ⟨_, ⟨_, _, hhand⟩, hqueue⟩ := hnodup
  rcases h with hq | hpc
  · rintro (hpark | hheld)
    · exact hqueue item hq item (by simp [hpark, Pc.item]) rfl
    · exact hqueue item hq item (by simp [hheld]) rfl
  · rintro (hpark | hheld)
    · rw [hpc] at hpark
      cases hpark
    · exact hhand item (by simp [hpc, Pc.item]) item (by simp [hheld]) rfl

/-- The request the task works on waits no more. -/
theorem not_mem_waiting_of_works (ha : s.Accounts) {a : ActiveExecution}
    (h : s.Works item a) : item ∉ s.waiting := by
  obtain ⟨_, settled, dropped, hl⟩ := ha
  obtain ⟨hactive, rfl⟩ := h
  intro hw
  have hdisjoint := (List.nodup_append.mp hl.nodup_places).2.2
  refine hdisjoint a.item hw a.item ?_ rfl
  cases hrep : a.replying with
  | true => simp [hl.answering a hactive hrep]
  | false => simp [executing, hactive, hrep]

theorem order_lt_of_mem_taken (ha : s.Accounts) (h : item ∈ s.taken) : item.order < s.order := by
  obtain ⟨_, settled, dropped, hl⟩ := ha
  have hmem : item.order ∈ s.taken.map QueueItem.order := List.mem_map_of_mem h
  rw [hl.orders] at hmem
  exact List.mem_range.mp hmem

theorem mem_taken_of_mem_waiting (ha : s.Accounts) (h : item ∈ s.waiting) : item ∈ s.taken := by
  obtain ⟨_, settled, dropped, hl⟩ := ha
  exact hl.taken.symm.subset (List.mem_append_left _ h)

theorem mem_taken_of_works (ha : s.Accounts) {a : ActiveExecution} (h : s.Works item a) :
    item ∈ s.taken := by
  obtain ⟨_, settled, dropped, hl⟩ := ha
  obtain ⟨hactive, rfl⟩ := h
  exact hl.active_taken hactive

theorem Told.of_waits (h : s.Told item) (ha : s.Accounts) (hplace : s.Waits item) :
    s.said item.order = [] ∧ s.emitted item.order = [] := by
  have hw := mem_waiting_of_waits hplace
  cases h with
  | unborn horder hsaid hemitted | waiting _ hsaid hemitted => exact ⟨hsaid, hemitted⟩
  | opened hholds => exact absurd hholds (not_holds_of_waits ha hplace)
  | working a hworks => exact absurd hw (not_mem_waiting_of_works ha hworks)
  | closed events hgone | lost hgone => exact absurd hw hgone.waiting

theorem Told.of_holds (h : s.Told item) (ha : s.Accounts) (hplace : s.Holds item) :
    Opening (s.said item.order) ∧ s.emitted item.order = [] := by
  have hw := mem_waiting_of_holds hplace
  cases h with
  | unborn horder =>
      have hlt := order_lt_of_mem_taken ha (mem_taken_of_mem_waiting ha hw)
      omega
  | waiting hwaits => exact absurd hplace (not_holds_of_waits ha hwaits)
  | opened _ hsaid hemitted => exact ⟨hsaid, hemitted⟩
  | working a hworks => exact absurd hw (not_mem_waiting_of_works ha hworks)
  | closed events hgone | lost hgone => exact absurd hw hgone.waiting

theorem Told.of_works {a : ActiveExecution} (h : s.Told item) (ha : s.Accounts)
    (hplace : s.Works item a) :
    a.execution = executeRequest item.request.content ∧ traceOf item.order s.out = [] ∧
      a.Told (traceOf item.order s.log) (s.emitted item.order) := by
  have hw := not_mem_waiting_of_works ha hplace
  cases h with
  | unborn horder =>
      have hlt := order_lt_of_mem_taken ha (mem_taken_of_works ha hplace)
      omega
  | waiting hwaits => exact absurd (mem_waiting_of_waits hwaits) hw
  | opened hholds => exact absurd (mem_waiting_of_holds hholds) hw
  | working a' hworks hexecution hout htold =>
      have heq : a' = a := Option.some.inj (hworks.1.symm.trans hplace.1)
      exact ⟨heq ▸ hexecution, hout, heq ▸ htold⟩
  | closed events hgone | lost hgone => exact absurd hplace (hgone.works a)

theorem Told.of_unborn (h : s.Told item) (ha : s.Accounts) (horder : s.order ≤ item.order) :
    s.said item.order = [] ∧ s.emitted item.order = [] := by
  have hnot : item ∉ s.taken := fun hmem => by
    have := order_lt_of_mem_taken ha hmem
    omega
  cases h with
  | unborn _ hsaid hemitted => exact ⟨hsaid, hemitted⟩
  | waiting hplace =>
      exact absurd (mem_taken_of_mem_waiting ha (mem_waiting_of_waits hplace)) hnot
  | opened hplace =>
      exact absurd (mem_taken_of_mem_waiting ha (mem_waiting_of_holds hplace)) hnot
  | working a hplace => exact absurd (mem_taken_of_works ha hplace) hnot
  | closed events hgone | lost hgone => exact absurd hgone.taken hnot

/-! ### Each step of the life keeps the account -/

theorem Told.spared (h : s.Told item) (ha : s.Accounts) (hs : Spares s s' item)
    (hborn : item ∈ s'.taken ∨ s'.order ≤ item.order) : s'.Told item := by
  cases h with
  | unborn horder hsaid hemitted =>
      refine .unborn ?_ (hs.said.trans hsaid) (hs.emitted.trans hemitted)
      rcases hborn with hmem | hle
      · have hlt := order_lt_of_mem_taken ha (hs.taken hmem)
        omega
      · exact hle
  | waiting hplace hsaid hemitted =>
      exact .waiting (hs.waits hplace) (hs.said.trans hsaid) (hs.emitted.trans hemitted)
  | opened hplace hsaid hemitted =>
      exact .opened (hs.holds hplace) (hs.said ▸ hsaid) (hs.emitted.trans hemitted)
  | working a hplace hexecution hout htold =>
      obtain ⟨a', hplace', hsame⟩ := hs.works a hplace
      have hexecution' : a'.execution = a.execution := congrArg (·.execution) hsame
      have hout' := hs.quiet hout
      have hlog : traceOf item.order s'.log = traceOf item.order s.log := by
        simpa [Shell.said, hout, hout'] using hs.said
      refine .working a' hplace' (hexecution'.trans hexecution) hout' ?_
      rw [hlog, hs.emitted]
      exact htold.of_unmarked hsame
  | closed events hgone hevents htrace =>
      exact .closed events (hs.gone hgone) (hs.emitted ▸ hevents) (hs.said ▸ htrace)
  | lost hgone hsaid => exact .lost (hs.gone hgone) (hs.said ▸ hsaid)

/-- Every step of the life of a request keeps what has been told. -/
theorem told_step (h : s.Told item) (ha : s.Accounts) (hex : item.isExecute = true)
    (hstep : LifeStep s s' item) (hborn : item ∈ s'.taken ∨ s'.order ≤ item.order) :
    s'.Told item := by
  cases hstep with
  | spared hs => exact h.spared ha hs hborn
  | born hplace hsaying horder =>
      obtain ⟨hsaid, hemitted⟩ := h.of_unborn ha horder.ge
      exact .waiting hplace (by rw [hsaying.said, hsaid, List.append_nil])
        (hsaying.emitted.trans hemitted)
  | answered es hplace hgone hsaying htrace =>
      obtain ⟨hsaid, hemitted⟩ := h.of_waits ha hplace
      refine .closed [] hgone ?_ ?_
      · rw [hsaying.emitted, hemitted]
        exact eventsOf_nil _
      · rw [hsaying.said, hsaid]
        exact htrace
  | opened es hplace hplace' hsaying hopening =>
      obtain ⟨hsaid, hemitted⟩ := h.of_waits ha hplace
      exact .opened hplace' (by rw [hsaying.said, hsaid]; exact hopening)
        (hsaying.emitted.trans hemitted)
  | released es hplace hgone hsaying hclosing =>
      obtain ⟨hsaid, hemitted⟩ := h.of_holds ha hplace
      refine .closed [] hgone ?_ ?_
      · rw [hsaying.emitted, hemitted]
        exact eventsOf_nil _
      · exact ⟨_, es, hsaid, hclosing, hsaying.said⟩
  | overwritten hplace hgone hsaying =>
      obtain ⟨hsaid, _⟩ := h.of_holds ha hplace
      exact .lost hgone (by rw [hsaying.said, List.append_nil]; exact hsaid)
  | started n hplace hplace' hsaying =>
      obtain ⟨hsaid, hemitted⟩ := h.of_waits ha hplace
      have hsaid' : s'.said item.order = [] := by rw [hsaying.said, hsaid, List.append_nil]
      obtain ⟨hlog, hout⟩ := List.append_eq_nil_iff.mp hsaid'
      refine .working _ hplace' rfl hout ?_
      rw [hlog, hsaying.emitted, hemitted]
      exact ActiveExecution.told_spawn item _ n
  | worked a a' l es hplace hstep hplace' hlog hout hemitted =>
      obtain ⟨hexecution, hnone, htold⟩ := h.of_works ha hplace
      have hitem : a.item.isExecute = true := by rw [hplace.2]; exact hex
      refine .working a' hplace' ?_ (hout.trans hnone) ?_
      · rw [← hexecution]
        exact (ActiveExecution.sameTask_of_step hstep).execution
      · rw [hlog, hemitted]
        exact ActiveExecution.told_step htold hitem hstep
  | finished a result hplace hphase hgone hsaying =>
      obtain ⟨hexecution, hnone, htold⟩ := h.of_works ha hplace
      have hout : a.out = [] := (ha.1.active a hplace.1).finished result hphase
      obtain ⟨events, hevents, htrace⟩ := htold.executeTrace_of_finished hphase hout
      have hsaid : s'.said item.order = traceOf item.order s.log := by
        rw [hsaying.said, Shell.said, hnone, List.append_nil, List.append_nil]
      refine .closed events hgone ?_ (hsaid ▸ htrace)
      rw [hsaying.emitted, ← hexecution]
      exact hevents

/-- A request that is gone stays gone, and nothing more is said about it. -/
theorem Gone.of_lifeStep (hg : s.Gone item) (ha : s.Accounts) (hstep : LifeStep s s' item) :
    s'.Gone item ∧ s'.said item.order = s.said item.order := by
  have hwaits : ¬ s.Waits item := fun h => hg.waiting (mem_waiting_of_waits h)
  have hholds : ¬ s.Holds item := fun h => hg.waiting (mem_waiting_of_holds h)
  cases hstep with
  | spared hs => exact ⟨hs.gone hg, hs.said⟩
  | born hplace hsaying horder =>
      have hlt := order_lt_of_mem_taken ha hg.taken
      omega
  | answered es hplace | opened es hplace => exact absurd hplace hwaits
  | released es hplace | overwritten hplace => exact absurd hplace hholds
  | started n hplace => exact absurd hplace hwaits
  | worked a a' l es hplace | finished a result hplace => exact absurd hplace (hg.works a)

/-! ## Every step of the shell is a step of the life -/

/-- No other message has the number of the request. -/
def Apart (s : Shell) (item : QueueItem) : Prop :=
  ∀ other ∈ s.taken, other ≠ item → other.order ≠ item.order

/-- What the handlers of the scheduler leave alone, and what they say. -/
structure Handled (s s' : Shell) (m : QueueItem) (es : List Emission) : Prop where
  log : s'.log = s.log
  out : s'.out = s.out ++ tag m es
  accepted : s'.accepted = s.accepted
  taken : s'.taken = s.taken
  active : s'.active.map ActiveExecution.unmarked = s.active.map ActiveExecution.unmarked

variable {m : QueueItem} {es : List Emission}

theorem Handled.of_frame (hlog : s'.log = s.log) (hout : s'.out = s.out)
    (haccepted : s'.accepted = s.accepted) (htaken : s'.taken = s.taken)
    (hactive : s'.active = s.active) (m : QueueItem) : Handled s s' m [] :=
  ⟨hlog, by simp [hout, tag], haccepted, htaken, by rw [hactive]⟩

theorem Handled.saying (h : Handled s s' m es) : Says s s' m es := by
  refine ⟨?_, by rw [emitted, emitted, h.accepted]⟩
  simp [said, h.log, h.out, tag]

theorem works_of_unmarked
    (h : s'.active.map ActiveExecution.unmarked = s.active.map ActiveExecution.unmarked)
    {a : ActiveExecution} (ha : s.Works item a) :
    ∃ a', s'.Works item a' ∧ a'.unmarked = a.unmarked := by
  obtain ⟨hactive, hitem⟩ := ha
  rw [hactive, Option.map_some] at h
  obtain ⟨a', ha', heq⟩ := Option.map_eq_some_iff.mp h
  have hitem' : a'.item = a.item := congrArg (·.item) heq
  exact ⟨a', ⟨ha', hitem'.trans hitem⟩, heq⟩

/-- A request that is not in the scheduler's hands is spared where nothing is
said about it and its places do not change. -/
theorem Spares.of_free (hsaid : s'.said item.order = s.said item.order)
    (hquiet : traceOf item.order s.out = [] → traceOf item.order s'.out = [])
    (hemitted : s'.emitted item.order = s.emitted item.order)
    (htaken : item ∈ s'.taken ↔ item ∈ s.taken) (hpc : s.pc.item ≠ some item)
    (hpc' : s'.pc.item ≠ some item) (hqueue : item ∈ s'.queue.items ↔ item ∈ s.queue.items)
    (hheld : s'.held = some item ↔ s.held = some item)
    (hworks : ∀ a, s.Works item a → ∃ a', s'.Works item a' ∧ a'.unmarked = a.unmarked)
    (hback : ∀ a', s'.Works item a' → ∃ a, s.Works item a) : Spares s s' item := by
  have hwaiting : item ∈ s'.waiting ↔ item ∈ s.waiting := by
    simp [waiting, hqueue, hpc, hpc', hheld]
  refine ⟨hsaid, hquiet, hemitted, htaken.mp, ?_, ?_, hworks, ?_⟩
  · rintro (hq | hhandle)
    · exact Or.inl (hqueue.mpr hq)
    · exact absurd (by rw [hhandle]; rfl) hpc
  · rintro (hpark | hh)
    · exact absurd (by rw [hpark]; rfl) hpc
    · exact Or.inr (hheld.mpr hh)
  · intro hgone
    refine ⟨htaken.mpr hgone.taken, fun hw => hgone.waiting (hwaiting.mp hw), ?_⟩
    intro a' ha'
    obtain ⟨a, hworks⟩ := hback a' ha'
    exact hgone.works a hworks

theorem Handled.spares (h : Handled s s' m es) (hne : es = [] ∨ m.order ≠ item.order)
    (hpc : s.pc.item ≠ some item) (hpc' : s'.pc.item ≠ some item)
    (hqueue : item ∈ s'.queue.items ↔ item ∈ s.queue.items)
    (hheld : s'.held = some item ↔ s.held = some item) : Spares s s' item := by
  have hnone : traceOf item.order (tag m es) = [] := by
    rcases hne with rfl | hne
    · rfl
    · exact traceOf_tag_ne hne es
  refine Spares.of_free ?_ ?_ (by rw [emitted, emitted, h.accepted]) (by rw [h.taken]) hpc hpc'
    hqueue hheld (fun a ha => works_of_unmarked h.active ha) ?_
  · simp [said, h.log, h.out, hnone]
  · intro hout
    simp [h.out, hout, hnone]
  · intro a' ha'
    obtain ⟨a, hworks, _⟩ := works_of_unmarked h.active.symm ha'
    exact ⟨a, hworks⟩

/-- The scheduler goes on with nothing in its hands and says nothing. -/
theorem LifeStep.of_quiet (hlog : s'.log = s.log) (hout : s'.out = s.out)
    (haccepted : s'.accepted = s.accepted) (htaken : s'.taken = s.taken)
    (hactive : s'.active.map ActiveExecution.unmarked = s.active.map ActiveExecution.unmarked)
    (hqueue : s'.queue = s.queue) (hheld : s'.held = s.held) (hpc : s.pc.item = none)
    (hpc' : s'.pc.item = none) : LifeStep s s' item := by
  have h : Handled s s' item [] := ⟨hlog, by simp [hout, tag], haccepted, htaken, hactive⟩
  exact .spared (h.spares (Or.inl rfl) (by simp [hpc]) (by simp [hpc']) (by rw [hqueue])
    (by rw [hheld]))

/-- A message that leaves its place in the shell is gone. -/
theorem gone_of_leave {left : List QueueItem} (ha : s.Accounts) (hleft : item ∈ left)
    (hw : s.waiting.Perm (s'.waiting ++ left)) (htaken : s'.taken = s.taken)
    (hactive : s'.active.map ActiveExecution.unmarked = s.active.map ActiveExecution.unmarked) :
    s'.Gone item := by
  have hmem : item ∈ s.waiting := hw.symm.subset (List.mem_append_right _ hleft)
  refine ⟨by rw [htaken]; exact mem_taken_of_mem_waiting ha hmem, ?_, ?_⟩
  · intro hw'
    obtain ⟨_, settled, dropped, hl⟩ := ha
    have hnodup := hw.nodup (List.nodup_append.mp hl.nodup_places).1
    exact (List.nodup_append.mp hnodup).2.2 item hw' item hleft rfl
  · intro a' ha'
    obtain ⟨a, hworks, _⟩ := works_of_unmarked hactive.symm ha'
    exact not_mem_waiting_of_works ha hworks hmem

/-! ### Handlers -/

theorem enqueue_life {new : QueueItem} (hlog : s'.log = s.log) (hout : s'.out = s.out)
    (haccepted : s'.accepted = s.accepted) (hactive : s'.active = s.active)
    (hheld : s'.held = s.held) (hnew : new.order = s.order)
    (hqueue : s'.queue = s.queue.push new) (htaken : s'.taken = s.taken ++ [new])
    (hpc : s.pc.item = none) (hpc' : s'.pc.item = none) : LifeStep s s' item := by
  have hsaid : s'.said item.order = s.said item.order := by rw [said, said, hlog, hout]
  have hemitted : s'.emitted item.order = s.emitted item.order := by
    rw [emitted, emitted, haccepted]
  have hworks : ∀ a, s'.Works item a ↔ s.Works item a := by
    intro a
    rw [Works, Works, hactive]
  by_cases heq : new = item
  · subst heq
    refine .born (Or.inl ?_) ⟨by rw [hsaid, List.append_nil], hemitted⟩ hnew
    rw [hqueue]
    exact Heap.mem_push.mpr (Or.inl rfl)
  · refine .spared (Spares.of_free hsaid (by rw [hout]; exact id) hemitted ?_ (by simp [hpc])
      (by simp [hpc']) ?_ (by rw [hheld]) (fun a ha => ⟨a, (hworks a).mpr ha, rfl⟩)
      (fun a ha => ⟨a, (hworks a).mp ha⟩))
    · simp [htaken, Ne.symm heq]
    · rw [hqueue, Heap.mem_push]
      simp [Ne.symm heq]

/-- `finish_hold` closes the trace of the hold. -/
theorem finishHold_life {held : QueueItem} {releaseStatus : String} (ha : s.Accounts)
    (hapart : s.Apart item)
    (h : Handled s s' held (finishHold s.executionCount releaseStatus).1)
    (hheld : s.held = some held) (hheld' : s'.held = none) (hqueue : s'.queue = s.queue)
    (hpc : s.pc.item = none) (hpc' : s'.pc.item = none) : LifeStep s s' item := by
  have hmem : held ∈ s.taken :=
    mem_taken_of_mem_waiting ha (mem_waiting_of_holds (Or.inr hheld))
  by_cases heq : held = item
  · subst heq
    refine .released _ (Or.inr hheld) ?_ h.saying (closing_finishHold _ _)
    exact gone_of_leave ha (List.mem_singleton_self held)
      (waiting_leave_held hqueue (hpc'.trans hpc.symm) hheld hheld') h.taken h.active
  · refine .spared (h.spares (Or.inr (hapart held hmem heq)) (by simp [hpc]) (by simp [hpc'])
      (by rw [hqueue]) ?_)
    simp [hheld, hheld', heq]

theorem map_unmarked_interrupt (active : Option ActiveExecution) :
    (active.map (fun a : ActiveExecution => { a with interrupted := true })).map
      ActiveExecution.unmarked = active.map ActiveExecution.unmarked := by
  rw [Option.map_map]
  rfl

theorem ApplyRule.life {c : ShellControl} {resume : Resume} {rest : List ShellControl}
    (h : ApplyRule { s with controls := rest } resume c s') (ha : s.Accounts)
    (hapart : s.Apart item) (hpc : s.pc.item = none) : LifeStep s s' item := by
  have hmarked := map_unmarked_interrupt s.active
  cases h with
  | release hheld hid hok =>
      exact finishHold_life ha hapart ⟨rfl, rfl, rfl, rfl, rfl⟩ hheld rfl rfl hpc rfl
  | releaseFailed hheld hid hfailed =>
      exact finishHold_life ha hapart ⟨rfl, rfl, rfl, rfl, rfl⟩ hheld rfl rfl hpc rfl
  | interruptFailed hactive => exact .of_quiet rfl rfl rfl rfl hmarked rfl rfl hpc rfl
  | interruptHeld hheld =>
      exact finishHold_life ha hapart ⟨rfl, rfl, rfl, rfl, hmarked⟩ hheld rfl rfl hpc rfl
  | interrupt hheld => exact .of_quiet rfl rfl rfl rfl hmarked rfl rfl hpc rfl
  | notHeld | stop => exact .of_quiet rfl rfl rfl rfl rfl rfl rfl hpc (Resume.item_pc resume)

theorem executionDone_life {done : ExecutionDone} {resume : Resume} {a : ActiveExecution}
    (ha : s.Accounts) (hpc : s.pc.item = none) (hactive : s.active = some a)
    (hres : a.result = some (.ok done)) : LifeStep s (s.executionDone done resume) item := by
  have hphase : a.phase = .finished (.ok done) := ActiveExecution.phase_of_result hres
  have hpc' : (s.executionDone done resume).pc.item = none := by
    simp only [executionDone]
    split
    · rfl
    · exact Resume.item_pc resume
  have hnone : ∀ a', ¬ (s.executionDone done resume).Works item a' := fun a' ha' =>
    absurd ha'.1.symm (Option.some_ne_none a')
  by_cases heq : a.item = item
  · have hworks : s.Works item a := ⟨hactive, heq⟩
    refine .finished a _ hworks hphase ⟨(mem_taken_of_works ha hworks : item ∈ s.taken), ?_, hnone⟩
      ⟨by simp [said, executionDone], rfl⟩
    have hsame : (s.executionDone done resume).waiting = s.waiting := by
      simp only [waiting, hpc, hpc']
      rfl
    rw [hsame]
    exact not_mem_waiting_of_works ha hworks
  · refine .spared (Spares.of_free rfl id rfl Iff.rfl (by simp [hpc]) (by simp [hpc']) Iff.rfl
      Iff.rfl ?_ (fun a' ha' => absurd ha' (hnone a')))
    rintro a' ⟨hactive', hitem⟩
    rw [hactive] at hactive'
    cases hactive'
    exact absurd hitem heq

/-- A handler of a message that is no execute request. -/
theorem shell_life (ha : s.Accounts) (hapart : s.Apart item) (hex : item.isExecute = true)
    (hm : m.isExecute = false) (hpc : s.pc.item = some m)
    (hpc' : s'.pc.item = none ∨ s'.pc.item = some m) (hqueue : s'.queue = s.queue)
    (hheld : s'.held = s.held) (h : Handled s s' m es) : LifeStep s s' item := by
  have hne : m ≠ item := by
    rintro rfl
    rw [hex] at hm
    cases hm
  have hmem : m ∈ s.taken := mem_taken_of_mem_waiting ha (by simp [waiting, hpc])
  refine .spared (h.spares (Or.inr (hapart m hmem hne)) (by simp [hpc, hne]) ?_ (by rw [hqueue])
    (by rw [hheld]))
  rcases hpc' with hpc' | hpc'
  · simp [hpc']
  · simp [hpc', hne]

theorem shell_life_quiet (ha : s.Accounts) (hapart : s.Apart item)
    (hex : item.isExecute = true) (hm : m.isExecute = false) (hpc : s.pc.item = some m)
    (hpc' : s'.pc.item = none ∨ s'.pc.item = some m) (hqueue : s'.queue = s.queue)
    (hheld : s'.held = s.held) (hlog : s'.log = s.log) (hout : s'.out = s.out)
    (haccepted : s'.accepted = s.accepted) (htaken : s'.taken = s.taken)
    (hactive : s'.active = s.active) : LifeStep s s' item :=
  shell_life ha hapart hex hm hpc hpc' hqueue hheld
    (.of_frame hlog hout haccepted htaken hactive m)

theorem HandleShellRule.life (h : HandleShellRule services s m s') (ha : s.Accounts)
    (hapart : s.Apart item) (hex : item.isExecute = true) (hm : m.isExecute = false)
    (hpc : s.pc.item = some m) : LifeStep s s' item := by
  cases h with
  | @kernelInfoFailed error htype =>
      refine @shell_life _ _ item m (busy :: reportFailure m.request error s.executionCount) ha
        hapart hex hm hpc (Or.inl ?_) rfl rfl ⟨rfl, ?_, rfl, rfl, rfl⟩
      · simp only [failItem]
        split <;> rfl
      · simp [failItem, say, tag]
  | comm hfields hcall =>
      exact shell_life_quiet ha hapart hex hm hpc (Or.inr rfl) rfl rfl rfl rfl rfl rfl rfl
  | commInfo hfields hcall =>
      exact shell_life_quiet ha hapart hex hm hpc (Or.inr rfl) rfl rfl rfl rfl rfl rfl rfl
  | call hfields hcall hcomm =>
      exact shell_life ha hapart hex hm hpc (Or.inr rfl) rfl rfl ⟨rfl, rfl, rfl, rfl, rfl⟩
  | ignored hrequest =>
      exact shell_life_quiet ha hapart hex hm hpc (Or.inl rfl) rfl rfl rfl rfl rfl rfl rfl
  | _ => exact shell_life ha hapart hex hm hpc (Or.inl rfl) rfl rfl ⟨rfl, rfl, rfl, rfl, rfl⟩

/-- An execute request that is answered without being started. -/
theorem answer_life (ha : s.Accounts) (hapart : s.Apart item) (hpc : s.pc = .handle m)
    (h : Handled s s' m es) (htrace : ExecuteTrace [] es) (hqueue : s'.queue = s.queue)
    (hheld : s'.held = s.held) (hpc' : s'.pc.item = none) : LifeStep s s' item := by
  have hitem : s.pc.item = some m := by rw [hpc]; rfl
  have hmem : m ∈ s.taken := mem_taken_of_mem_waiting ha (by simp [waiting, hitem])
  by_cases heq : m = item
  · subst heq
    refine .answered es (Or.inr hpc) ?_ h.saying htrace
    exact gone_of_leave ha (List.mem_singleton_self m)
      (waiting_leave_pc hqueue hheld hitem hpc') h.taken h.active
  · exact .spared (h.spares (Or.inr (hapart m hmem heq)) (by simp [hitem, heq])
      (by simp [hpc']) (by rw [hqueue]) (by rw [hheld]))

theorem HandleItemRule.life (h : HandleItemRule services s m s') (ha : s.Accounts)
    (hapart : s.Apart item) (hex : item.isExecute = true) (hpc : s.pc = .handle m) :
    LifeStep s s' item := by
  have hitem : s.pc.item = some m := by rw [hpc]; rfl
  have hmem : m ∈ s.taken := mem_taken_of_mem_waiting ha (by simp [waiting, hitem])
  cases h with
  | shell hm h => exact h.life ha hapart hex hm hitem
  | interrupted hm hinterrupting =>
      exact answer_life ha hapart hpc ⟨rfl, rfl, rfl, rfl, rfl⟩ (executeTrace_interruptExecute _)
        rfl rfl rfl
  | missing hm hmissing =>
      exact answer_life ha hapart hpc ⟨rfl, rfl, rfl, rfl, rfl⟩
        (executeTrace_replyError hm _ _ _) rfl rfl rfl
  | hold hm hhold =>
      by_cases heq : m = item
      · subst heq
        exact .opened _ (Or.inr hpc) (Or.inl rfl)
          (Handled.saying ⟨rfl, rfl, rfl, rfl, rfl⟩) (opening_beginHold _ _)
      · refine .spared (Handled.spares ⟨rfl, rfl, rfl, rfl, rfl⟩
          (Or.inr (hapart m hmem heq)) (by simp [hitem, heq]) ?_ Iff.rfl Iff.rfl)
        simp [Pc.item, heq]
  | execute hm hinterrupting hhold =>
      -- the one place where an execution is spawned
      obtain ⟨hnone, _⟩ := ha.1.handle hpc hm
      by_cases heq : m = item
      · subst heq
        exact .started _ (Or.inr hpc) ⟨rfl, rfl⟩ ⟨(List.append_nil _).symm, rfl⟩
      · refine .spared (Spares.of_free rfl id rfl Iff.rfl (by simp [hitem, heq])
          (by simp [Pc.item]) Iff.rfl Iff.rfl ?_ ?_)
        · rintro a ⟨hactive, _⟩
          rw [hnone] at hactive
          cases hactive
        · rintro a ⟨hactive, hworks⟩
          cases hactive
          exact absurd hworks heq

/-- The numbers of the queued messages are different. -/
theorem nodup_queue_orders (ha : s.Accounts) : (s.queue.items.map QueueItem.order).Nodup := by
  obtain ⟨_, settled, dropped, hl⟩ := ha
  have hnodup := (hl.taken.map QueueItem.order).nodup hl.nodup_order
  rw [waiting, List.append_assoc, List.map_append] at hnodup
  exact (List.nodup_append.mp hnodup).1

/-- `abort_pending` answers every execute request of the queue. -/
theorem abortQueued_answers {release : Option Nat} {resume : Resume} (ha : s.Accounts)
    (hex : item.isExecute = true) (hpc : s.pc.item = none) (hmem : item ∈ s.queue.items) :
    (s.abortQueued release resume).Gone item ∧
      (s.abortQueued release resume).said item.order =
        s.said item.order ++ abortExecute s.executionCount := by
  have haborted := abortQueue_aborted s.queue
  have hperm := abortQueue_perm s.queue
  have hpc' := abortQueued_item s release resume
  have hin : item ∈ (abortQueue s.queue).1 := by
    rw [haborted]
    exact List.mem_filter.mpr ⟨hmem, hex⟩
  refine ⟨gone_of_leave ha hin ?_ rfl rfl, ?_⟩
  · simp only [waiting, hpc, hpc']
    simp only [abortQueued, Option.toList_none, List.nil_append]
    refine (hperm.append_right _).trans ?_
    rw [List.append_assoc]
    exact List.perm_append_comm
  · have hnodup : ((abortQueue s.queue).1.map QueueItem.order).Nodup := by
      rw [haborted]
      exact (List.filter_sublist.map _).nodup (nodup_queue_orders ha)
    have hsay : traceOf item.order ((abortQueue s.queue).1.flatMap
        (fun m => tag m (abortExecute s.executionCount))) = abortExecute s.executionCount :=
      traceOf_flatMap_of_mem hnodup hin
    simp [said, abortQueued, hsay]

theorem abortQueued_life {release : Option Nat} {resume : Resume} (ha : s.Accounts)
    (hapart : s.Apart item) (hex : item.isExecute = true) (hpc : s.pc.item = none) :
    LifeStep s (s.abortQueued release resume) item := by
  have hperm := abortQueue_perm s.queue
  have hpc' := abortQueued_item s release resume
  by_cases hmem : item ∈ s.queue.items
  · obtain ⟨hgone, hsaid⟩ := abortQueued_answers ha hex hpc hmem
    exact .answered (abortExecute s.executionCount) (Or.inl hmem) hgone ⟨hsaid, rfl⟩
      (executeTrace_abortExecute _)
  · have hnone : traceOf item.order ((abortQueue s.queue).1.flatMap
        (fun m => tag m (abortExecute s.executionCount))) = [] := by
      refine traceOf_flatMap_of_not_mem fun hin => ?_
      obtain ⟨m, hm, horder⟩ := List.mem_map.mp hin
      have hm' : m ∈ s.queue.items := hperm.symm.subset (List.mem_append_left _ hm)
      have hne : m ≠ item := fun heq => hmem (heq ▸ hm')
      exact hapart m (mem_taken_of_mem_waiting ha (List.mem_append_left _ hm')) hne horder
    refine .spared (Spares.of_free ?_ ?_ rfl Iff.rfl (by simp [hpc]) (by simp [hpc']) ?_ Iff.rfl
      (fun a ha => ⟨a, ha, rfl⟩) (fun a ha => ⟨a, ha⟩))
    · simp [said, abortQueued, hnone]
    · intro hout
      simp [abortQueued, hout, hnone]
    · refine iff_of_false (fun hkeep => hmem ?_) hmem
      exact hperm.symm.subset (List.mem_append_right _ hkeep)

theorem park_life (ha : s.Accounts) (hpc : s.pc = .park m) :
    LifeStep s { s with held := some m, pc := .drainIncoming } item := by
  have hitem : s.pc.item = some m := by rw [hpc]; rfl
  by_cases heq : m = item
  · subst heq
    have hholds : s.Holds m := Or.inl hpc
    refine .spared ⟨rfl, id, rfl, id, ?_, fun _ => Or.inr rfl, fun a ha => ⟨a, ha, rfl⟩, ?_⟩
    · exact fun hwaits => absurd hholds (not_holds_of_waits ha hwaits)
    · exact fun hgone => absurd (mem_waiting_of_holds hholds) hgone.waiting
  · by_cases hheld : s.held = some item
    · refine .overwritten (Or.inr hheld) ?_ ⟨(List.append_nil _).symm, rfl⟩
      refine gone_of_leave ha (List.mem_singleton_self item) ?_ rfl rfl
      simp [waiting, hpc, hheld, Pc.item]
    · exact .spared (Spares.of_free rfl id rfl Iff.rfl (by simp [hitem, heq]) (by simp [Pc.item])
        Iff.rfl (by simp [hheld, heq]) (fun a ha => ⟨a, ha, rfl⟩) (fun a ha => ⟨a, ha⟩))

theorem dispatch_life {found : Option QueueItem} {queue : Queue} (ha : s.Accounts)
    (hpc : s.pc = .dispatch)
    (h : popRunnable s.queue s.active.isSome s.held = (found, queue)) :
    LifeStep s { s with queue, pc := match found with
      | some item => .handle item
      | none => .select } item := by
  have hperm := popRunnable_perm h
  have hitem : s.pc.item = none := by rw [hpc]; rfl
  cases found with
  | none =>
      exact .spared (Spares.of_free rfl id rfl Iff.rfl (by simp [hitem]) (by simp [Pc.item])
        (by simpa using hperm.symm.mem_iff) Iff.rfl (fun a ha => ⟨a, ha, rfl⟩)
        (fun a ha => ⟨a, ha⟩))
  | some m =>
      by_cases heq : m = item
      · subst heq
        have hwaits : s.Waits m := Or.inl (hperm.symm.subset (by simp))
        refine .spared ⟨rfl, id, rfl, id, fun _ => Or.inr rfl, ?_, fun a ha => ⟨a, ha, rfl⟩, ?_⟩
        · exact fun hholds => absurd hholds (not_holds_of_waits ha hwaits)
        · exact fun hgone => absurd (mem_waiting_of_waits hwaits) hgone.waiting
      · refine .spared (Spares.of_free rfl id rfl Iff.rfl (by simp [hitem])
          (by simp [Pc.item, heq]) ?_ Iff.rfl (fun a ha => ⟨a, ha, rfl⟩) (fun a ha => ⟨a, ha⟩))
        rw [hperm.mem_iff]
        simp [Ne.symm heq]

/-! ### The steps -/

theorem LoopRule.life (h : LoopRule services s l s') (ha : s.Accounts) (hapart : s.Apart item)
    (hex : item.isExecute = true) : LifeStep s s' item := by
  cases h with
  | takeIncoming hpc hincoming =>
      have hitem : s.pc.item = none := by rw [hpc]; rfl
      exact enqueue_life rfl rfl rfl rfl rfl rfl rfl rfl hitem hitem
  | abortIncoming hpc hincoming =>
      have hitem : s.pc.item = none := by rw [hpc]; rfl
      exact enqueue_life rfl rfl rfl rfl rfl rfl rfl rfl hitem hitem
  | selectIncoming hpc hincoming =>
      exact enqueue_life rfl rfl rfl rfl rfl rfl rfl rfl (by rw [hpc]; rfl) rfl
  | takeControl hpc hcontrols h | selectControl hpc hcontrols h =>
      exact h.life ha hapart (by rw [hpc]; rfl)
  | reap hpc hactive hresult => exact executionDone_life ha (by rw [hpc]; rfl) hactive hresult
  | selectDone hpc hactive hresult =>
      exact executionDone_life ha (by rw [hpc]; rfl) hactive hresult
  | pop hpc hpop | idle hpc hpop => exact dispatch_life ha hpc hpop
  | handle hpc h => exact h.life ha hapart hex hpc
  | @commFlushed o m comm hpc =>
      have hreq : m.isRequest = false := (ha.1.commFlush hpc).1
      have hm : m.isExecute = false := by
        by_contra hm
        rw [isRequest_of_isExecute (by simpa using hm)] at hreq
        cases hreq
      exact shell_life_quiet ha hapart hex hm (by rw [hpc]; rfl) (Or.inl rfl) rfl rfl rfl rfl
        rfl rfl rfl
  | park hpc => exact park_life ha hpc
  | abort hpc hincoming => exact abortQueued_life ha hapart hex (by rw [hpc]; rfl)
  | answer hpc =>
      exact .of_quiet rfl rfl rfl rfl rfl rfl rfl (by rw [hpc]; rfl) (Resume.item_pc _)
  | selectTimeout hpc hheld =>
      exact finishHold_life ha hapart ⟨rfl, rfl, rfl, rfl, rfl⟩ hheld rfl rfl (by rw [hpc]; rfl)
        rfl
  | callFailed hpc =>
      refine shell_life ha hapart hex (isExecute_of_serviceCall (ha.1.call hpc).1)
        (by rw [hpc]; rfl) (Or.inl ?_) rfl rfl ⟨rfl, rfl, rfl, rfl, rfl⟩
      simp only [failItem]
      split <;> rfl
  | commReturned hpc =>
      exact shell_life_quiet ha hapart hex (isExecute_of_serviceCall (ha.1.call hpc).1)
        (by rw [hpc]; rfl) (Or.inr rfl) rfl rfl rfl rfl rfl rfl rfl
  | commInfoReturned hpc =>
      exact shell_life ha hapart hex (isExecute_of_serviceCall (ha.1.call hpc).1)
        (by rw [hpc]; rfl) (Or.inl rfl) rfl rfl ⟨rfl, rfl, rfl, rfl, rfl⟩
  | callReturned hpc hcomm =>
      exact shell_life ha hapart hex (isExecute_of_serviceCall (ha.1.call hpc).1)
        (by rw [hpc]; rfl) (Or.inl rfl) rfl rfl ⟨rfl, rfl, rfl, rfl, rfl⟩
  | _ => exact .of_quiet rfl rfl rfl rfl rfl rfl rfl (by simp [Pc.item, *]) rfl

/-- The environment leaves every request where it is. -/
theorem Spares.of_stay (hsaid : s'.said item.order = s.said item.order)
    (hquiet : traceOf item.order s.out = [] → traceOf item.order s'.out = [])
    (hemitted : s'.emitted item.order = s.emitted item.order) (htaken : s'.taken = s.taken)
    (hqueue : s'.queue = s.queue) (hpc : s'.pc = s.pc) (hheld : s'.held = s.held)
    (hworks : ∀ a, s.Works item a → ∃ a', s'.Works item a' ∧ a'.unmarked = a.unmarked)
    (hback : ∀ a', s'.Works item a' → ∃ a, s.Works item a) : Spares s s' item := by
  refine ⟨hsaid, hquiet, hemitted, by rw [htaken]; exact id, ?_, ?_, hworks, ?_⟩
  · rw [Waits, Waits, hqueue, hpc]
    exact id
  · rw [Holds, Holds, hpc, hheld]
    exact id
  · intro hgone
    refine ⟨by rw [htaken]; exact hgone.taken, ?_, ?_⟩
    · rw [waiting, hqueue, hpc, hheld]
      exact hgone.waiting
    · intro a' ha'
      obtain ⟨a, hworks⟩ := hback a' ha'
      exact hgone.works a hworks

theorem task_life {a a' : ActiveExecution} {l : TaskLabel} {es : List Emission}
    (ha : s.Accounts) (hapart : s.Apart item) (hactive : s.active = some a)
    (hstep : a.step l = some (a', es)) (hactive' : s'.active = some a')
    (hlog : s'.log = s.log ++ tag a.item es) (hout : s'.out = s.out)
    (haccepted : s'.accepted = s.accepted ++ l.emits.map (a.item.order, ·))
    (htaken : s'.taken = s.taken) (hqueue : s'.queue = s.queue) (hpc : s'.pc = s.pc)
    (hheld : s'.held = s.held) : LifeStep s s' item := by
  have hitem := (ActiveExecution.sameTask_of_step hstep).item
  by_cases heq : a.item = item
  · subst heq
    refine .worked a a' l es ⟨hactive, rfl⟩ hstep ⟨hactive', hitem⟩ ?_ (by rw [hout]) ?_
    · simp [hlog, tag]
    · simp [emitted, haccepted]
  · have hne : a.item.order ≠ item.order :=
      hapart a.item (mem_taken_of_works ha ⟨hactive, rfl⟩) heq
    refine .spared (Spares.of_stay ?_ (by rw [hout]; exact id) ?_ htaken hqueue hpc hheld ?_ ?_)
    · simp [said, hlog, hout, tag, traceOf_tag_ne hne]
    · simp [emitted, haccepted, traceOf_tag_ne hne]
    · rintro b ⟨hb, hworks⟩
      rw [hactive] at hb
      cases hb
      exact absurd hworks heq
    · rintro b ⟨hb, hworks⟩
      rw [hactive'] at hb
      cases hb
      exact absurd (hitem.symm.trans hworks) heq

/-- Comm messages are no execute requests. -/
def CommsApart (s : Shell) : Prop :=
  ∀ entry ∈ s.comms, ∃ m ∈ s.taken, m.order = entry.1 ∧ m.isExecute = false

theorem step_life (ha : s.Accounts) (hcomms : s.CommsApart) (hapart : s.Apart item)
    (hex : item.isExecute = true) (h : s.step services l = some s') : LifeStep s s' item := by
  have hne : ∀ {m : QueueItem}, m ∈ s.taken → m.isExecute = false → m.order ≠ item.order := by
    intro m hmem hm
    refine hapart m hmem ?_
    rintro rfl
    rw [hex] at hm
    cases hm
  have hsame : ∀ a, s.Works item a → ∃ a', s.Works item a' ∧ a'.unmarked = a.unmarked :=
    fun a hworks => ⟨a, hworks, rfl⟩
  cases step_rule h with
  | loop hout h => exact h.life ha hapart hex
  | @emit e rest hout =>
      refine .spared (Spares.of_stay ?_ ?_ rfl rfl rfl rfl rfl hsame (fun a hw => ⟨a, hw⟩))
      · simp only [said, hout, traceOf_append, List.append_assoc]
        rw [traceOf_cons item.order e rest]
      · intro hnone
        rw [hout, traceOf_cons] at hnone
        exact (List.append_eq_nil_iff.mp hnone).2
  | @commPump comm order l output output' es hget hpump =>
      obtain ⟨m, hmem, horder, hm⟩ := hcomms _ (List.mem_of_getElem? hget)
      have hnone : traceOf item.order (es.map (order, ·)) = [] :=
        traceOf_tag_ne (fun heq => hne hmem hm (horder.trans heq)) es
      refine .spared (Spares.of_stay ?_ id rfl rfl rfl rfl rfl hsame (fun a hw => ⟨a, hw⟩))
      simp [said, hnone]
  | task hactive hrunning hstep =>
      exact task_life ha hapart hactive hstep rfl rfl rfl rfl rfl rfl rfl rfl
  | @callAccept m call comm message hpc =>
      have hmem : m ∈ s.taken := mem_taken_of_mem_waiting ha (by simp [waiting, hpc, Pc.item])
      have hm : m.isExecute = false := isExecute_of_serviceCall (ha.1.call hpc).1
      have hnone : traceOf item.order [(m.order, message)] = [] :=
        traceOf_tag_ne (hne hmem hm) [message]
      refine .spared (Spares.of_stay rfl id ?_ rfl rfl rfl rfl hsame (fun a hw => ⟨a, hw⟩))
      simp [emitted, hnone]
  | @dropped a hactive hclosed =>
      have hmarked : (some { a with aborted := true }).map ActiveExecution.unmarked =
          s.active.map ActiveExecution.unmarked := by
        rw [hactive]
        rfl
      refine .spared (Spares.of_stay rfl id rfl rfl rfl rfl rfl
        (fun a hw => works_of_unmarked hmarked hw) ?_)
      intro a' ha'
      obtain ⟨a, hworks, _⟩ := works_of_unmarked hmarked.symm ha'
      exact ⟨a, hworks⟩
  | _ => exact .spared (Spares.of_stay rfl id rfl rfl rfl rfl rfl hsame (fun a hw => ⟨a, hw⟩))

end Shell

end Kernmini.Engine
