/-
Kernmini.Engine.Quiesce — a kernel without further input comes to rest.

Nothing arrives any more, and the languages and the debugger return from their
calls; what happens is up to the loop, the shells and the stop jobs, in any
order. Then the kernel takes no more steps than its labour says, and whatever
order they came in, where it stops everything has been served: either the loop
waits for input with nothing left in its channels, every shell of the table is
idle and every other has ended, or the kernel has returned and every shell has
ended (`quiesces`).

The languages are the environment: a call that waits for the loop itself need not
return (`KernelWaits` says where that happens). So are the sockets: a publication
or a reply is taken to go through, while in the code it waits for a client that
does not read. Beside that nobody waits for ever. A send to a shell waits for
room in its channel, which the shell makes. The answer of a release comes,
because the release is in the shell's channel, in hand or answered
(`Shell.releases`). And a shell somebody waits for to end has been told to stop
(`Shell.ToldStop`), which it does once nothing is queued or running.
-/
import Kernmini.Engine.KernelLabour
import Kernmini.Engine.KernelRelease

namespace Kernmini.Engine

open Kernmini.Wire Kernmini.Lib

/-! ## A shell that has been told to stop -/

namespace Shell

variable {services : Services} {s t : Shell} {l : Label}

/-- A stop has been put to the shell. -/
def Stops (s : Shell) : Prop := s.stopping = true ∨ .stop ∈ s.controls

/-- A stop has been put to the shell, or it has ended without one. -/
def ToldStop (s : Shell) : Prop := s.isOpen = false ∨ s.Stops

theorem ApplyRule.stops {c : ShellControl} {resume : Resume} {rest : List ShellControl}
    (h : ApplyRule { s with controls := rest } resume c t) (hcontrols : s.controls = c :: rest)
    (hs : s.Stops) : t.Stops := by
  have hother : c ≠ .stop → s.stopping = true ∨ .stop ∈ rest := by
    intro hc
    rcases hs with hstop | hmem
    · exact .inl hstop
    · rw [hcontrols] at hmem
      rcases List.mem_cons.mp hmem with heq | hrest
      · exact absurd heq.symm hc
      · exact .inr hrest
  cases h with
  | stop => exact .inl rfl
  | _ => exact hother (by simp)

theorem LoopRule.stops (h : LoopRule services s l t) (hs : s.Stops) : t.Stops := by
  cases h with
  | takeControl hpc hcontrols h | selectControl hpc hcontrols h => exact h.stops hcontrols hs
  | handle hpc h =>
      cases h with
      | shell hex h => cases h <;> exact hs
      | _ => exact hs
  | _ => exact hs

theorem ToldStop.step (hs : s.ToldStop) (h : s.step services l = some t) : t.ToldStop := by
  rcases hs with hclosed | hs
  · left
    rw [isOpen, pc_of_closed hclosed h]
    exact hclosed
  · right
    cases step_rule h with
    | loop hout h => exact h.stops hs
    | control | firstStop => exact hs.imp_right (List.mem_append_left _)
    | _ => exact hs

theorem toldStop_of_control (h : s.control .stop = some t) : t.ToldStop := by
  unfold control at h
  split at h
  · cases h
    exact .inr (.inr (List.mem_append_right _ (List.mem_singleton_self _)))
  · cases h

theorem Idle.isOpen (h : s.Idle) : s.isOpen = true := by
  rw [Shell.isOpen, h.pc]

/-- An idle shell has answered every release put to it. -/
theorem Idle.answered {complete : Nat} (h : s.Idle) (hput : complete ∈ s.releases) :
    s.answers.lookup complete ≠ none := by
  intro hnone
  rw [releases, h.pc, h.controls] at hput
  have hmem : complete ∈ s.answers.map Prod.fst := by simpa [Pc.release] using hput
  obtain ⟨answer, hanswer, rfl⟩ := List.mem_map.mp hmem
  simpa using List.lookup_eq_none_iff.mp hnone answer hanswer

/-- A shell at rest that was told to stop has ended. -/
theorem ToldStop.ended (hs : s.ToldStop) (h : s.isOpen = false ∨ s.Idle) : s.isOpen = false := by
  rcases h with hclosed | hidle
  · exact hclosed
  · rcases hs with hclosed | hstop | hmem
    · exact hclosed
    · rw [hidle.stopping] at hstop
      cases hstop
    · rw [hidle.controls] at hmem
      cases hmem

theorem result_of_closed (h : s.isOpen = false) : ∃ result, s.result = some result := by
  unfold isOpen at h
  unfold result
  cases hpc : s.pc with
  | ended requested result => exact ⟨result, rfl⟩
  | failed error => exact ⟨.error error, rfl⟩
  | _ =>
      rw [hpc] at h
      cases h

end Shell

/-! ## What the loop and the jobs wait for -/

/-- Places of the loop the handlers do not lead to. -/
def MainPc.waits : MainPc → Bool
  | .awaitRelease _ _ _ _ _ | .stopShells _ _ _ | .returned _ => true
  | _ => false

/-- The loop is at its `select!`. -/
def MainPc.isSelect : MainPc → Bool
  | .select => true
  | _ => false

theorem MainPc.isSelect_iff {pc : MainPc} : pc.isSelect = true ↔ pc = .select := by
  cases pc <;> simp [isSelect]

/-- The last loop has begun. -/
def MainPc.drained : MainPc → Bool
  | .stopShells _ _ _ | .returned _ => true
  | _ => false

theorem MainPc.waits_of_drained {pc : MainPc} (h : pc.drained = true) : pc.waits = true := by
  cases pc with
  | stopShells | returned => rfl
  | _ => cases h

@[simp] theorem After.waits_pc (after : After) : after.pc.waits = false := by
  cases after <;> rfl

namespace Kernel

variable {services : Services} {s s' : Kernel} {l : Label} {k : TaskId}

theorem routeTo_waits (id : String) (a : Arrival .shell) (after : After) :
    (s.routeTo id a after).pc.waits = false := by
  unfold routeTo
  split
  · rfl
  · exact After.waits_pc after

theorem created_waits (id : String) (purpose : Creation) (result : Except Error Unit) :
    (s.created id purpose result).pc.waits = false := by
  unfold created
  split
  · exact routeTo_waits _ _ _
  · exact After.waits_pc _
  all_goals rfl

theorem CreateRule.waits {id : String} {purpose : Creation} (h : CreateRule s id purpose s') :
    s'.pc.waits = false := by
  cases h with
  | refused | found => exact created_waits _ _ _
  | creating hid hnew => rfl

theorem RouteRule.waits {a : Arrival .shell} {after : After} (h : RouteRule s a after s') :
    s'.pc.waits = false := by
  cases h with
  | known => exact routeTo_waits _ _ _
  | create hnew h => exact h.waits

theorem CommandRule.waits {c : SessionCommand} (h : CommandRule s c s') (hpc : s.pc = .select) :
    s'.pc.waits = false := by
  cases h with
  | openSubshell h => exact h.waits
  | _ => exact congrArg MainPc.waits hpc

theorem ControlRule.waits {a : Arrival .control} (h : ControlRule s a s') (hpc : s.pc = .select) :
    s'.pc.waits = false := by
  cases h with
  | create htype h => exact h.waits
  | delete | reply | ignored => exact congrArg MainPc.waits hpc
  | _ => rfl

/-- Shell `k` has been told to stop. -/
def Told (s : Kernel) (k : TaskId) : Prop := ∃ t, s.tasks[k]? = some t ∧ t.ToldStop

theorem Told.step (hs : s.Told k) (h : s.step services l = some s') : s'.Told k :=
  task_keeps (fun _ _ _ ht hstep => ht.step hstep) hs h

/-- Release `complete` has been put to shell `k`. -/
def Put (s : Kernel) (k : TaskId) (complete : Nat) : Prop :=
  ∃ t, s.tasks[k]? = some t ∧ complete ∈ t.releases

theorem Put.step {complete : Nat} (hs : s.Put k complete) (h : s.step services l = some s') :
    s'.Put k complete := by
  refine task_keeps ?_ hs h
  intro t l' t' ht hstep
  rcases Shell.releases_of_step hstep with hsame | ⟨c, _, hgrown⟩
  · rw [hsame]
    exact ht
  · rw [hgrown]
    exact List.mem_append_left _ ht

/-- What the loop waits for comes, and the last loop has drained the table. -/
structure Waits (s : Kernel) : Prop where
  release : ∀ {k complete todo found a}, s.pc = .awaitRelease k complete todo found a →
    s.Put k complete
  join : ∀ {k todo result}, s.pc = .stopShells (k :: todo) .join result → s.Told k
  drained : s.pc.drained = true → s.shells = ∅

theorem waits_of_pc (h : s.pc.waits = false) : s.Waits where
  release := by
    intro k complete todo found a hpc
    rw [hpc] at h
    cases h
  join := by
    intro k todo result hpc
    rw [hpc] at h
    cases h
  drained := by
    intro hdrained
    rw [MainPc.waits_of_drained hdrained] at h
    cases h

/-- The steps beside the loop. -/
theorem Waits.beside (hs : s.Waits) (h : s.step services l = some s') (hpc : s'.pc = s.pc)
    (hshells : s'.shells = s.shells) : s'.Waits where
  release := fun hpc' => (hs.release (hpc ▸ hpc')).step h
  join := fun hpc' => (hs.join (hpc ▸ hpc')).step h
  drained := by
    rw [hpc, hshells]
    exact hs.drained

theorem told_of_stop (ha : s.Accounted) (hk : k ∈ s.custody) (hclosed : s.sendControl k .stop = .closed) :
    s.Told k := by
  have hlt := ha.spawned k hk
  refine ⟨s.tasks[k], List.getElem?_eq_getElem hlt, .inl ?_⟩
  simp only [sendControl, sendTo, List.getElem?_eq_getElem hlt] at hclosed
  split at hclosed
  · split at hclosed <;> cases hclosed
  · next hopen => simpa using hopen

/-- `stop_shell` goes on to wait for a shell it has told to stop. -/
theorem told_of_stopStep {phase : StopPhase} {m : Kernel} (ha : s.Accounted) (hk : k ∈ s.custody)
    (h : s.stopStep k phase = some (m, .inl .join)) : m.Told k := by
  rcases stopStep_cases h with ⟨c, next, heq, hphase, hput⟩ | ⟨result, heq, _⟩
  · cases heq
    rcases hphase with ⟨_, _, heq⟩ | ⟨_, rfl, _⟩
    · cases heq
    · rcases hput with ⟨rfl, hclosed⟩ | ⟨t, t', hget, hcontrol, rfl⟩
      · exact told_of_stop ha hk hclosed
      · have hlt : k < s.tasks.length := (List.getElem?_eq_some_iff.mp hget).1
        exact ⟨t', List.getElem?_set_self hlt, Shell.toldStop_of_control hcontrol⟩
  · cases heq

theorem waits_of_stopShells {order : List TaskId} {todo : List TaskId} {phase : StopPhase}
    {result : Except Error Unit} (ha : s.Accounted) (hs : s.Waits)
    (h : s.step services (.next order) = some s') (hpc : s.pc = .stopShells (k :: todo) phase result) :
    s'.Waits := by
  have hempty : s.shells = ∅ := hs.drained (by rw [hpc]; rfl)
  have hk : k ∈ s.custody := by
    rw [custody, hpc]
    exact List.mem_append_right _ (List.mem_cons_self ..)
  rcases stopShells_step h hpc with ⟨m, next, hstop, rfl⟩ | ⟨ended, result', _, _, rfl⟩
  · obtain ⟨_, tasks, rfl⟩ := stopStep_price hstop
    refine ⟨fun hpc' => (by cases hpc'), ?_, fun _ => hempty⟩
    intro k' todo' result' hpc'
    cases hpc'
    have htold := told_of_stopStep ha hk hstop
    exact htold
  · exact ⟨fun hpc' => (by cases hpc'), fun hpc' => (by cases hpc'), fun _ => hempty⟩

theorem waits_step (ha : s.Accounted) (hs : s.Waits) (h : s.step services l = some s') : s'.Waits := by
  cases step_rule h with
  | route hpc h => exact waits_of_pc h.waits
  | deliver | undelivered => exact waits_of_pc (After.waits_pc _)
  | @release order k todo found a t t' hpc hget hput =>
      refine ⟨?_, fun hpc' => (by cases hpc'), fun hd => (by cases hd)⟩
      intro k' complete todo' found' a' hpc'
      cases hpc'
      have hlt : k < s.tasks.length := (List.getElem?_eq_some_iff.mp hget).1
      refine ⟨t', List.getElem?_set_self hlt, ?_⟩
      rw [releases_of_control hput]
      exact List.mem_append_right _ (List.mem_singleton_self _)
  | drain hpc horder =>
      exact ⟨fun hpc' => (by cases hpc'), fun hpc' => (by cases hpc'), fun _ => rfl⟩
  | stopPut hpc | stopClosed hpc | stopped hpc => exact waits_of_stopShells ha hs h hpc
  | returned hpc =>
      exact ⟨fun hpc' => (by cases hpc'), fun hpc' => (by cases hpc'),
        fun _ => hs.drained (by rw [hpc]; rfl)⟩
  | reaped hpc => exact waits_of_pc (congrArg MainPc.waits hpc)
  | takeCommand hpc hcommands h | takeControl hpc hcontrol h => exact waits_of_pc (h.waits hpc)
  | childCreated | childFailed => exact waits_of_pc (created_waits _ _ _)
  | shell | receive | receiveControl | command | notify | emit | jobPut | jobClosed | jobFailed
  | jobCompleted | jobReplied => exact hs.beside h rfl rfl
  | _ => exact waits_of_pc rfl

/-- The shells of the jobs that wait have been told to stop. -/
def Jobs (s : Kernel) : Prop := ∀ job ∈ s.stops, job.phase = some .join → s.Told job.task

/-- The loop starts jobs only, and a job first tells its shell to stop. -/
theorem stops_of_step (hl : ∀ j, l ≠ .stop j) (h : s.step services l = some s') :
    s'.stops = s.stops ∨ ∃ job, job.phase ≠ some .join ∧ s'.stops = s.stops ++ [job] := by
  cases step_rule h with
  | route hpc h =>
      have hstopping : s.pc.stopping = [] := by rw [hpc]; rfl
      cases h with
      | known => exact .inl (routeTo_unmoved hstopping).stops
      | create hnew h => exact .inl (h.unmoved hstopping).stops
  | takeCommand hpc hcommands h =>
      cases h with
      | openSubshell h => exact .inl (h.unmoved (congrArg MainPc.stopping hpc)).stops
      | closeDelete hroute hlookup => exact .inr ⟨_, by simp, rfl⟩
      | _ => exact .inl rfl
  | takeControl hpc hcontrol h =>
      cases h with
      | create htype h => exact .inl (h.unmoved (congrArg MainPc.stopping hpc)).stops
      | delete htype hlookup => exact .inr ⟨_, by simp, rfl⟩
      | _ => exact .inl rfl
  | @childCreated id purpose hpc =>
      exact .inl (created_unmoved (s := s.spawnShell id) (congrArg MainPc.stopping hpc)).stops
  | childFailed hpc => exact .inl (created_unmoved (congrArg MainPc.stopping hpc)).stops
  | jobPut | jobClosed | jobFailed | jobCompleted | jobReplied => exact absurd rfl (hl _)
  | _ => exact .inl rfl

theorem jobs_step (ha : s.Accounted) (hs : s.Jobs) (h : s.step services l = some s') : s'.Jobs := by
  intro job hmem hjoin
  by_cases hl : ∃ j, l = .stop j
  · obtain ⟨j, rfl⟩ := hl
    obtain ⟨job', phase, hjob', hphase', hcase⟩ := jobStep_cases h
    have hk : job'.task ∈ s.custody := by
      refine List.mem_append_left _ (List.mem_append_right _ (List.mem_filterMap.mpr ?_))
      exact ⟨job', List.mem_of_getElem? hjob', by rw [StopJob.holds, hphase']; rfl⟩
    have hset : ∀ {stop : StopJob}, s'.stops = s.stops.set j stop → job ∈ s.stops ∨ job = stop := by
      intro stop hstops
      rw [hstops] at hmem
      exact List.mem_or_eq_of_mem_set hmem
    have hold : job ∈ s.stops → s'.Told job.task := fun hold => (hs job hold hjoin).step h
    rcases hcase with ⟨m, next, hstop, heq⟩ | ⟨ended, _, _, heq⟩
    · obtain ⟨_, tasks, rfl⟩ := stopStep_price hstop
      rcases hset (by rw [heq]) with hmem' | rfl
      · exact hold hmem'
      · cases hjoin
        have htold := told_of_stopStep ha hk hstop
        rw [heq]
        exact htold
    · obtain ⟨failures, answers, log, heq', _⟩ :=
        stopDone_eq (s := { s with stops := s.stops.set j { job' with phase := none } }) job'.done ended
      rcases hset (by rw [heq, heq']) with hmem' | rfl
      · exact hold hmem'
      · cases hjoin
  · rcases stops_of_step (fun j hj => hl ⟨j, hj⟩) h with hsame | ⟨new, hnew, hgrown⟩
    · rw [hsame] at hmem
      exact (hs job hmem hjoin).step h
    · rw [hgrown] at hmem
      rcases List.mem_append.mp hmem with hmem' | hmem'
      · exact (hs job hmem' hjoin).step h
      · rw [List.mem_singleton.mp hmem'] at hjoin
        exact absurd hjoin hnew

/-! ## Whole runs -/

/-- What the steps of a kernel keep. -/
structure Sound (services : Services) (s : Kernel) : Prop where
  reachable : Reachable services s
  waits : s.Waits
  jobs : s.Jobs

theorem sound_step (hs : Sound services s) (h : s.step services l = some s') :
    Sound services s' := by
  have ha := accounted_of_reachable hs.reachable
  exact ⟨Lib.Reachable.trans hs.reachable (Lib.Reachable.single h), waits_step ha hs.waits h,
    jobs_step ha hs.jobs h⟩

theorem sound_of_reachable (hr : Reachable services s) : Sound services s := by
  refine Lib.Reachable.invariant hr ?_ (fun _ _ _ => sound_step)
  exact ⟨Lib.Reachable.refl _, waits_of_pc rfl, fun job hmem => by cases hmem⟩

theorem Sound.labour_lt (hs : Sound services s) (h : s.step services l = some s')
    (hl : l.settles = true) : s'.labour < s.labour + l.events :=
  Kernel.labour_lt (fun t ht => Shell.shape_of_reachable (shell_reachable hs.reachable t ht))
    (createsNew_of_reachable hs.reachable) h hl

/-! ## Where nothing is left -/

/-- No step is possible without input. -/
def Still (services : Services) (s : Kernel) : Prop :=
  ∀ l, l.settles = true → s.step services l = none

/-- The loop waits for input, and everything it received has been served. -/
structure Served (s : Kernel) : Prop where
  pc : s.pc = .select
  shell : s.shell = []
  control : s.control = []
  commands : s.commands = []
  failures : s.failures = []
  notified : s.notified = false
  idle : ∀ k ∈ HashMap.values s.shells, ∃ t, s.tasks[k]? = some t ∧ t.Idle
  ended : ∀ k < s.tasks.length, k ∉ HashMap.values s.shells → (s.taskResult k).isSome

instance decidableServed (s : Kernel) : Decidable s.Served :=
  have : ∀ k : TaskId, Decidable (∃ t : Shell, s.tasks[k]? = some t ∧ t.Idle) := fun k =>
    inferInstanceAs (Decidable (∃ t ∈ s.tasks[k]?, Shell.Idle t))
  decidable_of_iff (s.pc.isSelect = true ∧ s.shell = [] ∧ s.control = [] ∧ s.commands = [] ∧
      s.failures = [] ∧ s.notified = false ∧
      (∀ k ∈ HashMap.values s.shells, ∃ t, s.tasks[k]? = some t ∧ t.Idle) ∧
      ∀ k < s.tasks.length, k ∉ HashMap.values s.shells → (s.taskResult k).isSome)
    ⟨fun ⟨hpc, hshell, hcontrol, hcommands, hfailures, hnotified, hidle, hended⟩ =>
      ⟨MainPc.isSelect_iff.mp hpc, hshell, hcontrol, hcommands, hfailures, hnotified, hidle, hended⟩,
    fun h => ⟨MainPc.isSelect_iff.mpr h.pc, h.shell, h.control, h.commands, h.failures, h.notified,
      h.idle, h.ended⟩⟩

/-- The kernel has returned, and its shells have ended. -/
structure Returned (s : Kernel) : Prop where
  pc : ∃ result, s.pc = .returned result
  ended : ∀ k < s.tasks.length, (s.taskResult k).isSome

/-- Nothing is left to send or to stop. -/
structure AtRest (s : Kernel) : Prop where
  sent : s.out = []
  jobs : ∀ job ∈ s.stops, job.phase = none
  pc : s.Served ∨ s.Returned

/-- Every shell has ended or is idle. -/
def Settled (s : Kernel) : Prop := ∀ t ∈ s.tasks, t.isOpen = false ∨ t.Idle

theorem Still.settled (hs : Sound services s) (h : Still services s) : s.Settled := by
  intro t ht
  have hreach := shell_reachable hs.reachable t ht
  have hstill : Shell.Still services t := by
    intro l hl
    obtain ⟨k, hget⟩ := List.getElem?_of_mem ht
    have hnone := h (.shell k l) hl
    have hown : ownLabel l = true := by
      cases l with
      | deliver | control => cases hl
      | _ => rfl
    simp only [step, hget, hown, if_true] at hnone
    split at hnone
    · cases hnone
    · assumption
  exact Shell.settled_of_still (Shell.shape_of_reachable hreach) (Shell.tidy_of_reachable hreach) hstill

/-- A send to a shell at rest does not wait. -/
theorem sendTo_settled {put : Shell → Option Shell} (hs : s.Settled)
    (hput : ∀ t : Shell, t.Idle → put t ≠ none) : s.sendTo k put ≠ .wait := by
  unfold sendTo
  split
  · next t hget =>
      split
      · next hopen =>
          rcases hs t (List.mem_of_getElem? hget) with hclosed | hidle
          · rw [hclosed] at hopen
            cases hopen
          · split
            · simp
            · next hnone => exact absurd hnone (hput t hidle)
      · simp
  · simp

theorem sendControl_settled (hs : s.Settled) (c : ShellControl) : s.sendControl k c ≠ .wait := by
  refine sendTo_settled hs (fun t ht => ?_)
  simp [Shell.control, ht.isOpen, ht.controls, Shell.controlsCapacity]

theorem sendIncoming_settled (hs : s.Settled) (inbound : Inbound) :
    s.sendIncoming k inbound ≠ .wait := by
  refine sendTo_settled hs (fun t ht => ?_)
  simp [Shell.deliver, ht.isOpen, ht.incoming, Shell.incomingCapacity]

/-- `stop_shell` does not wait for a shell at rest. -/
theorem stopStep_settled (k : TaskId) (phase : StopPhase) (hs : s.Settled) (htold : phase = .join → s.Told k) :
    s.stopStep k phase ≠ none := by
  cases phase with
  | interrupt =>
      simp only [stopStep]
      split
      · simp
      · simp
      · next hwait => exact absurd hwait (sendControl_settled hs _)
  | stop =>
      simp only [stopStep]
      split
      · simp
      · simp
      · next hwait => exact absurd hwait (sendControl_settled hs _)
  | join =>
      obtain ⟨t, hget, htold⟩ := htold rfl
      obtain ⟨result, hresult⟩ :=
        Shell.result_of_closed (htold.ended (hs t (List.mem_of_getElem? hget)))
      simp [stopStep, hget, hresult]

theorem Still.sent (h : Still services s) : s.out = [] := by
  cases hout : s.out with
  | nil => rfl
  | cons e rest =>
      have hnone := h .emit rfl
      simp [step, hout] at hnone

theorem Still.jobs (hs : Sound services s) (h : Still services s) :
    ∀ job ∈ s.stops, job.phase = none := by
  intro job hmem
  obtain ⟨j, hj⟩ := List.getElem?_of_mem hmem
  cases hphase : job.phase with
  | none => rfl
  | some phase =>
      have hstop := stopStep_settled job.task phase (h.settled hs)
        (fun hjoin => hs.jobs job hmem (by rw [hphase, hjoin]))
      have hnone : s.jobStep j = none := h (.stop j) rfl
      simp only [jobStep, hj, hphase] at hnone
      split at hnone
      · cases hnone
      · cases hnone
      · next hwait => exact absurd hwait hstop

theorem isOrder_values (s : Kernel) : s.isOrder (HashMap.values s.shells) = true :=
  List.isPerm_iff.mpr (List.Perm.refl _)

/-- The loop is at its `select!`, or the kernel has returned. -/
theorem Still.pc (hs : Sound services s) (h : Still services s) :
    s.pc = .select ∨ ∃ result, s.pc = .returned result := by
  have hsettled := h.settled hs
  have hnext : ∀ order, s.next services order = none := by
    intro order
    have hnone := h (.next order) rfl
    simpa [step, h.sent] using hnone
  have horder := s.isOrder_values
  cases hpc : s.pc with
  | select => exact .inl rfl
  | returned result => exact .inr ⟨result, rfl⟩
  | route a after =>
      have hnone := hnext []
      simp [next, hpc] at hnone
  | create id purpose =>
      have hnone := h (.childCreated (.ok ())) rfl
      simp [step, hpc, h.sent] at hnone
  | send k a after =>
      have hnone := hnext []
      simp only [next, hpc] at hnone
      split at hnone
      · cases hnone
      · cases hnone
      · next hwait => exact absurd hwait (sendIncoming_settled hsettled _)
  | routePending a =>
      have hnone := hnext (HashMap.values s.shells)
      simp only [next, hpc, horder, if_true] at hnone
      split at hnone
      · cases hnone
      · split at hnone <;> cases hnone
  | interruptShells mark todo request =>
      have hnone := hnext []
      simp only [next, hpc] at hnone
      cases todo with
      | nil => cases request <;> cases hnone
      | cons k todo =>
          simp only [interruptStep] at hnone
          split at hnone
          · cases hnone
          · cases hnone
          · next hwait => exact absurd hwait (sendControl_settled hsettled _)
  | interruptFailed mark error =>
      have hnone := hnext []
      simp [next, hpc] at hnone
  | release todo found a =>
      have hnone := hnext []
      simp only [next, hpc] at hnone
      cases todo with
      | nil => cases hnone
      | cons k todo =>
          simp only [releaseStep] at hnone
          split at hnone
          · cases hnone
          · cases hnone
          · next hwait => exact absurd hwait (sendControl_settled hsettled _)
  | awaitRelease k complete todo found a =>
      -- the release has been put to the shell, and the shell is done with it
      obtain ⟨t, hget, hput⟩ := hs.waits.release hpc
      have hnone := hnext []
      simp only [next, hpc, awaitStep, hget] at hnone
      split at hnone
      · cases hnone
      · next hlookup =>
          split at hnone
          · next hopen =>
              rcases hsettled t (List.mem_of_getElem? hget) with hclosed | hidle
              · rw [hclosed] at hopen
                cases hopen
              · exact absurd hlookup (hidle.answered hput)
          · cases hnone
  | debug a =>
      have hnone := h (.debugReturned (.ok .null)) rfl
      simp [step, hpc, h.sent] at hnone
  | returning result =>
      have hnone := hnext (HashMap.values s.shells)
      simp [next, hpc, horder] at hnone
  | stopShells todo phase result =>
      have hnone := hnext []
      simp only [next, hpc] at hnone
      cases todo with
      | nil => cases hnone
      | cons k todo =>
          have hstop := stopStep_settled k phase hsettled
            (fun hjoin => hs.waits.join (by rw [hpc, hjoin]))
          simp only [stopShellsStep] at hnone
          split at hnone
          · cases hnone
          · cases hnone
          · next hwait => exact absurd hwait hstop

/-- A shell nobody holds has ended. -/
theorem Still.ended (hs : Sound services s) (h : Still services s) (hpc : s.pc.stopping = [])
    (hk : k < s.tasks.length) (hnot : k ∉ HashMap.values s.shells) : (s.taskResult k).isSome := by
  by_contra hrunning
  rw [Option.not_isSome_iff_eq_none] at hrunning
  have hheld := (accounted_of_reachable hs.reachable).held k hk hrunning
  have hnojob : s.stops.filterMap StopJob.holds = [] := by
    refine List.filterMap_eq_nil_iff.mpr (fun job hjob => ?_)
    rw [StopJob.holds, h.jobs hs job hjob]
    rfl
  rw [custody, hnojob, hpc] at hheld
  exact hnot (by simpa using hheld)

theorem Still.served (hs : Sound services s) (h : Still services s) (hpc : s.pc = .select) :
    s.Served := by
  have ha := accounted_of_reachable hs.reachable
  have hselect : ∀ b : Branch, b.settles = true → s.selectStep services b = none := by
    intro b hb
    have hnone := h (.select b) hb
    simpa [step, hpc, h.sent] using hnone
  refine ⟨hpc, ?_, ?_, ?_, ?_, ?_, ?_, ?_⟩
  · cases hshell : s.shell with
    | nil => rfl
    | cons a rest =>
        have hnone := hselect .shell rfl
        simp [selectStep, hshell] at hnone
  · cases hcontrol : s.control with
    | nil => rfl
    | cons a rest =>
        have hnone := hselect (.control "fresh") rfl
        simp [selectStep, hcontrol] at hnone
  · cases hcommands : s.commands with
    | nil => rfl
    | cons c rest =>
        have hnone := hselect (.command "fresh") rfl
        simp [selectStep, hcommands] at hnone
  · cases hfailures : s.failures with
    | nil => rfl
    | cons error rest =>
        have hnone := hselect .failed rfl
        simp [selectStep, hfailures] at hnone
  · cases hnotified : s.notified with
    | false => rfl
    | true =>
        have hnone := hselect (.notified (HashMap.values s.shells)) rfl
        simp [selectStep, hnotified, isOrder_values] at hnone
  · intro k hk
    have hlt := ha.spawned k (List.mem_append_left _ (List.mem_append_left _ hk))
    have hget : s.tasks[k]? = some s.tasks[k] := List.getElem?_eq_getElem hlt
    refine ⟨s.tasks[k], hget, ?_⟩
    rcases h.settled hs _ (List.getElem_mem hlt) with hclosed | hidle
    · obtain ⟨result, hresult⟩ := Shell.result_of_closed hclosed
      obtain ⟨id, hlookup⟩ := HashMap.mem_values.mp hk
      have hnone := hselect (.reaped id) rfl
      simp only [selectStep, hlookup, hget, Option.bind_some, hresult] at hnone
      split at hnone
      · split at hnone <;> cases hnone
      · cases hnone
      · next heq => cases heq
    · exact hidle
  · intro k hk hnot
    exact h.ended hs (by rw [hpc]; rfl) hk hnot

theorem atRest_of_still (hs : Sound services s) (h : Still services s) : s.AtRest := by
  refine ⟨h.sent, h.jobs hs, ?_⟩
  rcases h.pc hs with hpc | ⟨result, hpc⟩
  · exact .inl (h.served hs hpc)
  · right
    refine ⟨⟨result, hpc⟩, fun k hk => h.ended hs (by rw [hpc]; rfl) hk ?_⟩
    rw [hs.waits.drained (by rw [hpc]; rfl)]
    simp [HashMap.values]

/-- A step without events is possible where any is. -/
theorem exists_step_of_not_still (h : ¬ Still services s) :
    ∃ l b, l.settles = true ∧ l.events = 0 ∧ s.step services l = some b := by
  simp only [Still, not_forall] at h
  obtain ⟨l, hl, hsome⟩ := h
  obtain ⟨b, hb⟩ := Option.ne_none_iff_exists'.mp hsome
  cases l with
  | debugReturned result =>
      cases step_rule hb with
      | @debugReturned a _ hpc =>
          refine ⟨.debugReturned (.error .interrupted), s.debugReturned a (.error .interrupted),
            rfl, rfl, ?_⟩
          simp only [step] at hb ⊢
          split at hb
          · next hpc' hout =>
              rw [hpc] at hpc'
              cases hpc'
              rfl
          · cases hb
  | _ => exact ⟨_, b, hl, rfl, hb⟩

/-- From every state a run can lead to, with nothing more arriving, with
languages that return and with publications and replies that go through:
however the steps of the loop, the shells and the stop jobs interleave, there
are no more of them than the labour of that state and the debugger's events,
rest can be reached, and where no step is left the kernel is at rest. -/
theorem quiesces (hr : Reachable services s) :
    (∀ ls t, (∀ l ∈ ls, l.settles = true) → run (step services) s ls = some t →
      ls.length ≤ s.labour + totalGain Label.events ls ∧ (Still services t → t.AtRest)) ∧
    ∃ t, ReachesBy (step services) (fun l => l.settles = true) s t ∧ t.AtRest := by
  have hsound := sound_of_reachable hr
  have hkeeps : ∀ a l b, Sound services a → a.step services l = some b → Sound services b :=
    fun _ _ _ => sound_step
  constructor
  · intro ls t hown hrun
    have hlen := length_le_of_gain labour Label.events hkeeps
      (fun a l b ha hl hstep => ha.labour_lt hstep hl) hown hrun hsound
    refine ⟨by omega, fun hstill => ?_⟩
    exact atRest_of_still (run_invariant hkeeps hrun hsound) hstill
  · have hprogress : ∀ a : Kernel, Sound services a → a.AtRest ∨ ∃ l b, l.settles = true ∧
        a.step services l = some b ∧ Sound services b ∧ b.labour < a.labour := by
      intro a ha
      by_cases hstill : Still services a
      · exact .inl (atRest_of_still ha hstill)
      · obtain ⟨l, b, hl, hevents, hb⟩ := exists_step_of_not_still hstill
        have hlt := ha.labour_lt hb hl
        rw [hevents] at hlt
        exact .inr ⟨l, b, hl, hb, hkeeps a l b ha hb, hlt⟩
    obtain ⟨t, hreach, _, hrest⟩ := reachesBy_of_rank labour hprogress s hsound
    exact ⟨t, hreach, hrest⟩

/-- A kernel that has taken up the deletion of a subshell, with the stop job
before its first step. -/
theorem quiesces_delete :
    ∃ s, run (Kernel.step subshellServices) {} createAndDelete = some s ∧ s.stops.length = 1 ∧
      s.labour = 124 ∧
      ∃ t, ReachesBy (step subshellServices) (fun l => l.settles = true) s t ∧ t.AtRest := by
  have hview : (run (Kernel.step subshellServices) {} createAndDelete).map
      (fun s => (s.stops.length, s.labour)) = some (1, 124) := by decide +kernel
  obtain ⟨s, hs, heq⟩ := Option.map_eq_some_iff.mp hview
  obtain ⟨hstops, hlabour⟩ := Prod.mk.inj heq
  exact ⟨s, hs, hstops, hlabour, (quiesces ⟨_, hs⟩).2⟩

end Kernel

end Kernmini.Engine
