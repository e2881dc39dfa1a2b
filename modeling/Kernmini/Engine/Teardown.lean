/-
Kernmini.Engine.Teardown — who holds the shells of a kernel, and what is
left of them when it returns.

A spawned shell is in the hands of the table, of a stop job, or of the loop
that stops what the table held in the end. Every handing over moves the
handle: `shells.remove` before `stop_in_background`, `shells.drain` before the
last loop. So no shell is stopped twice and none that still runs is lost
(`no_shell_lost`).

The last loop waits for every shell it has and keeps the first error it
meets, unless the loop that served already had one (`teardown_result`). An
observer writes down the shells in the order in which the loop is through with
them.
-/
import Kernmini.Engine.KernelErrors
import Kernmini.Engine.KernelTable
import Kernmini.Lib.Observe

namespace Kernmini.Engine

open Kernmini.Wire Kernmini.Lib
open scoped List

/-- The shells the last loop has still to stop. -/
def MainPc.stopping : MainPc → List TaskId
  | .stopShells todo _ _ => todo
  | _ => []

@[simp] theorem After.stopping_pc (after : After) : after.pc.stopping = [] := by
  cases after <;> rfl

/-- The shell a stop job is about, while it is not over. -/
def StopJob.holds (job : StopJob) : Option TaskId := job.phase.map (fun _ => job.task)

namespace Kernel

variable {services : Services} {s s' t : Kernel} {l : Label} {ls : List Label}

/-- Every shell someone has yet to stop or to reap. -/
def custody (s : Kernel) : List TaskId :=
  HashMap.values s.shells ++ s.stops.filterMap StopJob.holds ++ s.pc.stopping

/-- The result of shell task `k`, once it has ended. -/
def taskResult (s : Kernel) (k : TaskId) : Option (Except Error Unit) :=
  s.tasks[k]?.bind Shell.result

/-! ## How a step hands shells over -/

/-- What a step does to the shells in someone's hands. -/
inductive CustodyTurn (s s' : Kernel) : Prop
  | same (hcustody : s'.custody.Perm s.custody) (hlen : s'.tasks.length = s.tasks.length)
  | spawn (hcustody : s'.custody.Perm (s.tasks.length :: s.custody))
      (hlen : s'.tasks.length = s.tasks.length + 1)
  /-- a shell that has ended is let go of -/
  | letGo (k : TaskId) (result : Except Error Unit)
      (hcustody : s.custody.Perm (k :: s'.custody)) (htasks : s'.tasks = s.tasks)
      (hended : s.taskResult k = some result)

/-- What all but a few steps leave alone. -/
structure Unmoved (s s' : Kernel) : Prop where
  shells : s'.shells = s.shells
  stops : s'.stops = s.stops
  stopping : s'.pc.stopping = s.pc.stopping
  tasks : s'.tasks.length = s.tasks.length

theorem Unmoved.custody (h : Unmoved s s') : s'.custody = s.custody := by
  rw [Kernel.custody, Kernel.custody, h.shells, h.stops, h.stopping]

theorem Unmoved.turn (h : Unmoved s s') : CustodyTurn s s' :=
  .same (by rw [h.custody]) h.tasks

theorem routeTo_unmoved {id : String} {a : Arrival .shell} {after : After}
    (hpc : s.pc.stopping = []) : Unmoved s (s.routeTo id a after) := by
  unfold routeTo
  split
  · exact ⟨rfl, rfl, hpc.symm, rfl⟩
  · exact ⟨rfl, rfl, (After.stopping_pc after).trans hpc.symm, rfl⟩

theorem created_unmoved {id : String} {purpose : Creation} {result : Except Error Unit}
    (hpc : s.pc.stopping = []) : Unmoved s (s.created id purpose result) := by
  unfold created
  split
  · exact routeTo_unmoved hpc
  · next a after error => exact ⟨rfl, rfl, (After.stopping_pc after).trans hpc.symm, rfl⟩
  all_goals exact ⟨rfl, rfl, hpc.symm, rfl⟩

theorem CreateRule.unmoved {id : String} {purpose : Creation} (h : CreateRule s id purpose s')
    (hpc : s.pc.stopping = []) : Unmoved s s' := by
  cases h with
  | refused | found => exact created_unmoved hpc
  | creating hid hnew => exact ⟨rfl, rfl, hpc.symm, rfl⟩

/-- A shell goes from the table to a stop job. -/
theorem custody_stopInBackground {id : String} {k : TaskId} {interrupt : Bool} {done : StopDone}
    {routes : HashMap String String} (hlookup : s.shells.lookup id = some k) :
    ({ s with shells := s.shells.erase id, routeOverrides := routes }.stopInBackground
      k interrupt done).custody.Perm s.custody := by
  have hvalues := HashMap.values_erase hlookup
  simp only [custody, stopInBackground, List.filterMap_append, StopJob.holds, List.filterMap_cons,
    List.filterMap_nil, Option.map_some]
  refine List.Perm.append_right _ ?_
  calc HashMap.values (s.shells.erase id) ++ (s.stops.filterMap StopJob.holds ++ [k])
      = HashMap.values (s.shells.erase id) ++ s.stops.filterMap StopJob.holds ++ [k] :=
        (List.append_assoc _ _ _).symm
    _ ~ k :: (HashMap.values (s.shells.erase id) ++ s.stops.filterMap StopJob.holds) :=
        List.perm_append_singleton _ _
    _ ~ HashMap.values s.shells ++ s.stops.filterMap StopJob.holds :=
        (hvalues.append_right _).symm

/-- A shell of the table that has ended leaves it. -/
theorem custody_reap {id : String} {k : TaskId} {m : Kernel}
    (hlookup : s.shells.lookup id = some k) (hshells : m.shells = s.shells.erase id)
    (hstops : m.stops = s.stops) (hpc : m.pc.stopping = s.pc.stopping) :
    s.custody.Perm (k :: m.custody) := by
  rw [custody, custody, hshells, hstops, hpc, ← List.cons_append, ← List.cons_append]
  exact ((HashMap.values_erase hlookup).append_right _).append_right _

/-- A handler that starts from the state the message was taken from. -/
theorem Unmoved.of_eq {m : Kernel} (h : Unmoved m s') (hshells : m.shells = s.shells)
    (hstops : m.stops = s.stops) (hpc : m.pc = s.pc) (htasks : m.tasks = s.tasks) :
    Unmoved s s' :=
  ⟨h.shells.trans hshells, h.stops.trans hstops, hpc ▸ h.stopping, htasks ▸ h.tasks⟩

theorem CommandRule.custodyTurn {c : SessionCommand} {rest : List SessionCommand}
    (h : CommandRule { s with commands := rest } c s') (hpc : s.pc.stopping = []) :
    CustodyTurn s s' := by
  cases h with
  | refused => exact Unmoved.turn ⟨rfl, rfl, rfl, rfl⟩
  | openSubshell h => exact (Unmoved.of_eq (s := s) (h.unmoved hpc) rfl rfl rfl rfl).turn
  | close hroute => exact Unmoved.turn ⟨rfl, rfl, rfl, rfl⟩
  | closeDelete hroute hlookup => exact .same (custody_stopInBackground hlookup) rfl

theorem ControlRule.custodyTurn {a : Arrival .control} {rest : List (Arrival .control)}
    (h : ControlRule { s with control := rest } a s') (hpc : s.pc.stopping = []) :
    CustodyTurn s s' := by
  cases h with
  | create htype h => exact (Unmoved.of_eq (s := s) (h.unmoved hpc) rfl rfl rfl rfl).turn
  | delete htype hlookup => exact .same (custody_stopInBackground hlookup) rfl
  | reply | ignored => exact Unmoved.turn ⟨rfl, rfl, rfl, rfl⟩
  | _ => exact Unmoved.turn ⟨rfl, rfl, hpc.symm, rfl⟩

/-! ## Stop jobs -/

/-- Only a job that is not over takes a step. -/
theorem phase_of_jobStep {j : Nat} (h : s.jobStep j = some s') :
    ∃ job, s.stops[j]? = some job ∧ job.holds = some job.task := by
  unfold jobStep at h
  split at h
  · next job hjob =>
      split at h
      · next phase hphase => exact ⟨job, hjob, by rw [StopJob.holds, hphase]; rfl⟩
      · cases h
  · cases h

theorem filterMap_split {α β : Type*} {f : α → Option β} {as : List α} {j : Nat} {a : α}
    (hget : as[j]? = some a) :
    as.filterMap f ~
      (f a).toList ++ ((as.take j).filterMap f ++ (as.drop (j + 1)).filterMap f) := by
  obtain ⟨hj, rfl⟩ := List.getElem?_eq_some_iff.mp hget
  have hsplit : as = as.take j ++ as[j] :: as.drop (j + 1) := by simp
  have hmap : as.filterMap f =
      (as.take j).filterMap f ++ ((f as[j]).toList ++ (as.drop (j + 1)).filterMap f) := by
    conv_lhs => rw [hsplit]
    rw [List.filterMap_append, List.filterMap_cons]
    cases f as[j] <;> rfl
  rw [hmap]
  exact List.perm_append_comm_assoc _ _ _

/-- What replacing an element does to the values taken from a list. -/
theorem filterMap_set {α β : Type*} {f : α → Option β} {as : List α} {j : Nat} {a : α} (a' : α)
    (hget : as[j]? = some a) :
    (f a').toList ++ as.filterMap f ~ (f a).toList ++ (as.set j a').filterMap f := by
  have hj : j < as.length := (List.getElem?_eq_some_iff.mp hget).1
  have hget' : (as.set j a')[j]? = some a' := by rw [List.getElem?_set_self hj]
  have hold := @filterMap_split _ _ f _ _ _ hget
  have hnew := @filterMap_split _ _ f _ _ _ hget'
  rw [List.take_set_of_le (Nat.le_refl j), List.drop_set_of_lt (Nat.lt_succ_self j)] at hnew
  calc (f a').toList ++ as.filterMap f
      ~ (f a').toList ++ ((f a).toList ++
          ((as.take j).filterMap f ++ (as.drop (j + 1)).filterMap f)) := hold.append_left _
    _ ~ (f a).toList ++ ((f a').toList ++
          ((as.take j).filterMap f ++ (as.drop (j + 1)).filterMap f)) :=
        List.perm_append_comm_assoc _ _ _
    _ ~ (f a).toList ++ (as.set j a').filterMap f := hnew.symm.append_left _

/-- A job that goes on keeps its shell. -/
theorem custody_job {j : Nat} {job : StopJob} {phase : StopPhase} {m : Kernel}
    (hjob : s.stops[j]? = some job) (hholds : job.holds = some job.task)
    (hshells : m.shells = s.shells) (hpc : m.pc = s.pc)
    (hstops : m.stops = s.stops.set j { job with phase := some phase }) :
    m.custody ~ s.custody := by
  have hset := @filterMap_set _ _ StopJob.holds _ _ _ { job with phase := some phase } hjob
  rw [hholds] at hset
  have hsame := (List.perm_cons _).mp hset
  rw [custody, custody, hshells, hpc, hstops]
  exact (hsame.symm.append_left _).append_right _

/-- A job that is over lets go of it. -/
theorem custody_jobOver {j : Nat} {job : StopJob} {m : Kernel}
    (hjob : s.stops[j]? = some job) (hholds : job.holds = some job.task)
    (hshells : m.shells = s.shells) (hpc : m.pc = s.pc)
    (hstops : m.stops = s.stops.set j { job with phase := none }) :
    s.custody ~ job.task :: m.custody := by
  have hset := @filterMap_set _ _ StopJob.holds _ _ _ { job with phase := none } hjob
  rw [hholds] at hset
  rw [custody, custody, hshells, hpc, hstops, List.append_assoc, List.append_assoc]
  exact ((hset.append_right _).append_left _).trans List.perm_middle

theorem jobStep_custody (services : Services) {j : Nat} (h : s.jobStep j = some s') :
    CustodyTurn s s' := by
  obtain ⟨job, hjob, hholds⟩ := phase_of_jobStep h
  have hsame : ∀ {job' : StopJob}, s.stops[j]? = some job' → job' = job := by
    intro job' hjob'
    rw [hjob] at hjob'
    exact (Option.some.inj hjob').symm
  have hrule : Rule services s (.stop j) s' := jobStep_rule h
  cases hrule with
  | jobPut hjob' hget hput hc =>
      cases hsame hjob'
      exact .same (custody_job hjob hholds rfl rfl rfl) (List.length_set ..)
  | jobClosed hjob' =>
      cases hsame hjob'
      exact .same (custody_job hjob hholds rfl rfl rfl) rfl
  | jobFailed hjob' hended =>
      cases hsame hjob'
      exact .letGo _ _ (custody_jobOver hjob hholds rfl rfl rfl) rfl hended
  | jobCompleted hjob' hended hdone =>
      cases hsame hjob'
      exact .letGo _ _ (custody_jobOver hjob hholds rfl rfl rfl) rfl hended
  | jobReplied hjob' hended hdone =>
      cases hsame hjob'
      exact .letGo _ _ (custody_jobOver hjob hholds rfl rfl rfl) rfl hended

/-! ## One step -/

/-- The id of a child session that is being created is not in the table. -/
def CreatesNew (s : Kernel) : Prop := ∀ id, s.pc.creates = some id → id ∉ s.shells

theorem step_custody (hnew : s.CreatesNew) (h : s.step services l = some s') :
    CustodyTurn s s' := by
  cases step_rule h with
  | shell hown hget hstep => exact Unmoved.turn ⟨rfl, rfl, rfl, List.length_set ..⟩
  | route hpc h =>
      have hstopping : s.pc.stopping = [] := by rw [hpc]; rfl
      cases h with
      | known => exact (routeTo_unmoved hstopping).turn
      | create _ h => exact (h.unmoved hstopping).turn
  | deliver hpc hget hput =>
      exact Unmoved.turn ⟨rfl, rfl, by rw [hpc]; exact After.stopping_pc _, List.length_set ..⟩
  | undelivered hpc hclosed =>
      exact Unmoved.turn ⟨rfl, rfl, by rw [hpc]; exact After.stopping_pc _, rfl⟩
  | interrupt hpc hget hput =>
      exact Unmoved.turn ⟨rfl, rfl, by rw [hpc]; rfl, List.length_set ..⟩
  | release hpc hget hput =>
      exact Unmoved.turn ⟨rfl, rfl, by rw [hpc]; rfl, List.length_set ..⟩
  | @drain order result hpc horder =>
      refine .same ?_ rfl
      have hperm : order ~ HashMap.values s.shells := List.isPerm_iff.mp horder
      simp only [custody, hpc, MainPc.stopping, List.append_nil]
      exact List.perm_append_comm.trans (hperm.append_right _)
  | stopPut hpc hget hput hc =>
      exact Unmoved.turn ⟨rfl, rfl, by rw [hpc]; rfl, List.length_set ..⟩
  | stopped hpc hended =>
      refine .letGo _ _ ?_ rfl hended
      simp only [custody, hpc, MainPc.stopping]
      exact List.perm_middle
  | reapedParent hpc hlookup hended =>
      exact .letGo _ _ (custody_reap hlookup rfl rfl (by rw [hpc]; rfl)) rfl hended
  | reaped hpc hlookup hended hid =>
      exact .letGo _ _ (custody_reap hlookup rfl rfl rfl) rfl hended
  | reapedError hpc hlookup hended =>
      exact .letGo _ _ (custody_reap hlookup rfl rfl (by rw [hpc]; rfl)) rfl hended
  | takeCommand hpc hcommands h | takeControl hpc hcontrol h =>
      exact h.custodyTurn (by rw [hpc]; rfl)
  | @childCreated id purpose hpc =>
      have hstopping : s.pc.stopping = [] := by rw [hpc]; rfl
      have hun : Unmoved (s.spawnShell id) ((s.spawnShell id).created id purpose (.ok ())) :=
        created_unmoved hstopping
      refine .spawn ?_ (hun.tasks.trans List.length_append)
      rw [hun.custody, custody, custody, spawnShell,
        HashMap.values_insert s.tasks.length (hnew id (by rw [hpc]; rfl))]
      exact List.Perm.refl _
  | childFailed hpc => exact (created_unmoved (by rw [hpc]; rfl)).turn
  | debugReturned hpc => exact Unmoved.turn ⟨rfl, rfl, by rw [hpc]; rfl, rfl⟩
  | jobPut | jobClosed | jobFailed | jobCompleted | jobReplied => exact jobStep_custody services h
  | _ =>
      first
        | exact Unmoved.turn ⟨rfl, rfl, rfl, rfl⟩
        | exact Unmoved.turn ⟨rfl, rfl, by simp [MainPc.stopping, *], rfl⟩

/-! ## Whole runs -/

/-- The result of a task is there to stay. -/
theorem taskResult_step {k : TaskId} {result : Except Error Unit}
    (hended : s.taskResult k = some result) (h : s.step services l = some s') :
    s'.taskResult k = some result := by
  obtain ⟨x, hget, hresult⟩ := Option.bind_eq_some_iff.mp hended
  have hkeeps : ∀ t l t', Shell.result t = some result → t.step services l = some t' →
      Shell.result t' = some result := by
    intro t l t' ht hstep
    rw [Shell.result, Shell.pc_of_closed (Shell.isOpen_of_result ht) hstep]
    exact ht
  obtain ⟨x', hget', hresult'⟩ := task_keeps hkeeps ⟨x, hget, hresult⟩ h
  rw [taskResult, hget']
  exact hresult'

/-- Each shell is in one hand at most, and in one if it has not ended. -/
structure Accounted (s : Kernel) : Prop where
  nodup : s.custody.Nodup
  spawned : ∀ k ∈ s.custody, k < s.tasks.length
  held : ∀ k < s.tasks.length, s.taskResult k = none → k ∈ s.custody

theorem accounted_init : Accounted {} where
  nodup := by decide
  spawned := by decide
  held := by
    intro k hk _
    have hzero : k = 0 := Nat.lt_one_iff.mp hk
    rw [hzero]
    decide

theorem accounted_step (hnew : s.CreatesNew) (hs : s.Accounted) (h : s.step services l = some s') :
    s'.Accounted := by
  -- a task that has not ended after the step had not ended before it
  have hback : ∀ k, s'.taskResult k = none → s.taskResult k = none := by
    intro k hk
    cases hresult : s.taskResult k with
    | none => rfl
    | some result =>
        rw [taskResult_step hresult h] at hk
        cases hk
  cases step_custody hnew h with
  | same hcustody hlen =>
      refine ⟨hcustody.nodup_iff.mpr hs.nodup, ?_, ?_⟩
      · intro k hk
        rw [hlen]
        exact hs.spawned k (hcustody.mem_iff.mp hk)
      · intro k hk hrunning
        exact hcustody.mem_iff.mpr (hs.held k (hlen ▸ hk) (hback k hrunning))
  | spawn hcustody hlen =>
      refine ⟨hcustody.nodup_iff.mpr (List.nodup_cons.mpr ⟨?_, hs.nodup⟩), ?_, ?_⟩
      · intro hmem
        exact Nat.lt_irrefl _ (hs.spawned _ hmem)
      · intro k hk
        rw [hlen]
        rcases List.mem_cons.mp (hcustody.mem_iff.mp hk) with rfl | hold
        · exact Nat.lt_succ_self _
        · exact Nat.lt_succ_of_lt (hs.spawned k hold)
      · intro k hk hrunning
        refine hcustody.mem_iff.mpr (List.mem_cons.mpr ?_)
        rcases Nat.lt_succ_iff_lt_or_eq.mp (hlen ▸ hk) with hlt | heq
        · exact .inr (hs.held k hlt (hback k hrunning))
        · exact .inl heq
  | letGo k result hcustody htasks hended =>
      have hnodup := List.nodup_cons.mp (hcustody.nodup_iff.mp hs.nodup)
      refine ⟨hnodup.2, ?_, ?_⟩
      · intro k' hk'
        rw [htasks]
        exact hs.spawned k' (hcustody.mem_iff.mpr (List.mem_cons_of_mem _ hk'))
      · intro k' hk' hrunning
        have hrunning := hback k' hrunning
        rcases List.mem_cons.mp (hcustody.mem_iff.mp (hs.held k' (htasks ▸ hk') hrunning)) with
          rfl | hold
        · rw [hended] at hrunning
          cases hrunning
        · exact hold

theorem createsNew_of_reachable (hr : Reachable services s) : s.CreatesNew := by
  intro id hid
  have hinv : s.serving = true → TableInv s :=
    Lib.Reachable.invariant hr (fun _ => tableInv_init) (fun _ _ _ => tableInv_step)
  have hserving : s.serving = true := by
    unfold serving
    split
    · next hpc => rw [hpc] at hid; cases hid
    · next hpc => rw [hpc] at hid; cases hid
    · next hpc => rw [hpc] at hid; cases hid
    · rfl
  exact ((hinv hserving).creates id hid).2

theorem accounted_of_reachable (hr : Reachable services s) : s.Accounted := by
  obtain ⟨ls, hrun⟩ := hr
  have hkeeps : ∀ a l b, Reachable services a ∧ a.Accounted → a.step services l = some b →
      Reachable services b ∧ b.Accounted := by
    rintro a l b ⟨ha, hacc⟩ hstep
    exact ⟨Lib.Reachable.trans ha (Lib.Reachable.single hstep),
      accounted_step (createsNew_of_reachable ha) hacc hstep⟩
  exact (run_invariant hkeeps hrun ⟨Lib.Reachable.refl _, accounted_init⟩).2

/-- In every state of every run a shell that has not ended is in exactly one
place: the table, a stop job that is not over, or the list of the last loop;
and no shell is in two. -/
theorem no_shell_lost (hr : Reachable services s) (k : TaskId) (hk : k < s.tasks.length) :
    s.custody.count k ≤ 1 ∧ (s.taskResult k = none → s.custody.count k = 1) := by
  have hacc := accounted_of_reachable hr
  refine ⟨List.nodup_iff_count_le_one.mp hacc.nodup k, fun hrunning => ?_⟩
  exact List.count_eq_one_of_mem hacc.nodup (hacc.held k hk hrunning)

/-- A deleted subshell is in the hands of its stop job. -/
theorem no_shell_lost_deleted :
    ∃ t, run (Kernel.step subshellServices) {} createAndDelete = some t ∧
      HashMap.values t.shells = [0] ∧ t.custody.count 1 = 1 := by
  have hview : (run (Kernel.step subshellServices) {} createAndDelete).map
      (fun t => (HashMap.values t.shells, t.tasks.length, (t.taskResult 1).isNone)) =
        some ([0], 2, true) := by decide
  obtain ⟨t, ht, heq⟩ := Option.map_eq_some_iff.mp hview
  obtain ⟨hvalues, hlen, hrunning⟩ :
      HashMap.values t.shells = [0] ∧ t.tasks.length = 2 ∧ t.taskResult 1 = none := by
    simpa using heq
  exact ⟨t, ht, hvalues, (no_shell_lost ⟨_, ht⟩ 1 (by rw [hlen]; decide)).2 hrunning⟩

/-! ## The result of the kernel -/

/-- The error shell task `k` ended with. -/
def taskError (s : Kernel) (k : TaskId) : Option Error := (s.taskResult k).bind errorOf

/-- The last loop has stopped the shells `done`, and has come to `result` from
the result `served` of the loop that served. -/
structure Joined (s : Kernel) (served : Except Error Unit) (done : List TaskId)
    (result : Except Error Unit) : Prop where
  ended : ∀ k ∈ done, (s.taskResult k).isSome
  error : errorOf result = (errorOf served).or (done.findSome? s.taskError)

theorem Joined.step {served result : Except Error Unit} {done : List TaskId}
    (hj : Joined s served done result) (h : s.step services l = some s') :
    Joined s' served done result := by
  have hsame : ∀ k ∈ done, s'.taskResult k = s.taskResult k := by
    intro k hk
    obtain ⟨ended, hended⟩ := Option.isSome_iff_exists.mp (hj.ended k hk)
    rw [hended, taskResult_step hended h]
  refine ⟨?_, ?_⟩
  · intro k hk
    rw [hsame k hk]
    exact hj.ended k hk
  · have herrors : done.findSome? s'.taskError = done.findSome? s.taskError := by
      rw [← List.head?_filterMap, ← List.head?_filterMap]
      congr 1
      refine List.filterMap_congr ?_
      intro k hk
      rw [taskError, taskError, hsame k hk]
    rw [herrors]
    exact hj.error

/-- One more shell has been waited for. -/
theorem Joined.snoc {served result ended : Except Error Unit} {done : List TaskId} {k : TaskId}
    (hj : Joined s served done result) (hended : s.taskResult k = some ended) :
    Joined s served (done ++ [k]) (result.bind (fun _ => ended)) := by
  refine ⟨?_, ?_⟩
  · intro k' hk'
    rcases List.mem_append.mp hk' with hold | hnew
    · exact hj.ended k' hold
    · rw [List.mem_singleton.mp hnew, hended]
      rfl
  · have hlast : errorOf (result.bind (fun _ => ended)) = (errorOf result).or (errorOf ended) := by
      cases result <;> rfl
    have hk : [k].findSome? s.taskError = errorOf ended := by
      simp only [List.findSome?_cons, List.findSome?_nil, taskError, hended, Option.bind_some]
      cases errorOf ended <;> rfl
    rw [hlast, hj.error, List.findSome?_append, hk, Option.or_assoc]

/-- An observer writes down the shells as the last loop is through with them:
`stop_shell` has returned, and the next one is taken. -/
def watchStopped (s : Kernel) (_ : Label) (s' : Kernel) (notes : List TaskId) : List TaskId :=
  match s.pc.stopping with
  | k :: todo => if s'.pc.stopping = todo then notes ++ [k] else notes
  | [] => notes

theorem watchStopped_of_same {notes : List TaskId} (h : s'.pc.stopping = s.pc.stopping) :
    watchStopped s l s' notes = notes := by
  unfold watchStopped
  rw [h]
  split
  · next k todo hstopping =>
      rw [hstopping]
      exact if_neg (List.cons_ne_self k todo)
  · rfl

theorem watchStopped_of_nil {notes : List TaskId} (h : s.pc.stopping = []) :
    watchStopped s l s' notes = notes := by
  unfold watchStopped
  rw [h]

/-- How far the end of the loop has come. -/
def Ending (start : Kernel) (served : Except Error Unit) (s : Kernel) (stopped : List TaskId) :
    Prop :=
  match s.pc with
  | .returning result => result = served ∧ s.shells = start.shells ∧ stopped = []
  | .stopShells todo _ result =>
      stopped ++ todo ~ HashMap.values start.shells ∧ Joined s served stopped result
  | .returned result => stopped ~ HashMap.values start.shells ∧ Joined s served stopped result
  | _ => False

variable {start : Kernel} {served : Except Error Unit} {stopped : List TaskId}

theorem Ending.of_same (he : Ending start served s stopped) (hpc : s'.pc = s.pc)
    (hshells : s'.shells = s.shells) (h : s.step services l = some s') :
    Ending start served s' (watchStopped s l s' stopped) := by
  rw [watchStopped_of_same (by rw [hpc])]
  unfold Ending at he ⊢
  rw [hpc]
  split at he
  · exact ⟨he.1, hshells.trans he.2.1, he.2.2⟩
  · exact ⟨he.1, he.2.step h⟩
  · exact ⟨he.1, he.2.step h⟩
  · exact he

/-- Where the loop goes on, it is not at its end. -/
theorem Ending.not_serving {p : Prop} (he : Ending start served s stopped)
    (hpc : s.serving = true) : p := by
  unfold Ending at he
  unfold serving at hpc
  split at he
  · next h => rw [h] at hpc; cases hpc
  · next h => rw [h] at hpc; cases hpc
  · next h => rw [h] at hpc; cases hpc
  · exact he.elim

theorem ending_step (he : Ending start served s stopped) (h : s.step services l = some s') :
    Ending start served s' (watchStopped s l s' stopped) := by
  cases step_rule h with
  | @drain order result hpc horder =>
      have hperm : order ~ HashMap.values s.shells := List.isPerm_iff.mp horder
      simp only [Ending, hpc] at he
      obtain ⟨rfl, hshells, rfl⟩ := he
      rw [hshells] at hperm
      rw [watchStopped_of_nil (by rw [hpc]; rfl)]
      refine ⟨hperm, by simp, ?_⟩
      rw [List.findSome?_nil, Option.or_none]
  | stopPut hpc hget hput hc =>
      rw [watchStopped_of_same (by rw [hpc]; rfl)]
      simp only [Ending, hpc] at he
      exact ⟨he.1, he.2.step h⟩
  | stopClosed hpc =>
      rw [watchStopped_of_same (by rw [hpc]; rfl)]
      simp only [Ending, hpc] at he
      exact ⟨he.1, he.2.step h⟩
  | @stopped order k todo phase result ended hpc hended =>
      have hnote : watchStopped s (.next order)
          { s with pc := .stopShells todo .interrupt (result.bind fun _ => ended) } stopped =
          stopped ++ [k] := by
        simp [watchStopped, hpc, MainPc.stopping]
      rw [hnote]
      simp only [Ending, hpc] at he
      refine ⟨?_, (he.2.snoc hended).step h⟩
      rw [List.append_assoc]
      exact he.1
  | returned hpc =>
      rw [watchStopped_of_nil (by rw [hpc]; rfl)]
      simp only [Ending, hpc, List.append_nil] at he
      exact ⟨he.1, he.2.step h⟩
  -- the steps beside the loop
  | shell | receive | receiveControl | command | notify | emit | jobPut | jobClosed | jobFailed
  | jobCompleted | jobReplied => exact he.of_same rfl rfl h
  | _ => exact he.not_serving (by simp [serving, *])

/-- However the steps of the shells, the stop jobs and the loop interleave, the
kernel returns only after every shell its table held has been stopped and has
ended. Its result is the error of the loop that served, or else the first error
of these shells in the order in which they were stopped, and otherwise
success. -/
theorem teardown_result {result final : Except Error Unit} {o : Observed Kernel (List TaskId)}
    (hpc : s.pc = .returning result)
    (hrun : Lib.run (observe (Kernel.step services) watchStopped) ⟨s, []⟩ ls = some o)
    (hfinal : o.state.pc = .returned final) :
    o.notes ~ HashMap.values s.shells ∧ (∀ k ∈ o.notes, (o.state.taskResult k).isSome) ∧
      errorOf final = (errorOf result).or (o.notes.findSome? o.state.taskError) := by
  have hstart : Ending s result s [] := by simp [Ending, hpc]
  have hkeeps : ∀ a l b, Ending s result a.state a.notes →
      observe (Kernel.step services) watchStopped a l = some b →
      Ending s result b.state b.notes := by
    intro a l b ha hab
    obtain ⟨hstep, hnotes⟩ := observe_cases hab
    rw [hnotes]
    exact ending_step ha hstep
  have hend : Ending s result o.state o.notes := run_invariant hkeeps hrun hstart
  simp only [Ending, hfinal] at hend
  exact ⟨hend.1, hend.2.ended, hend.2.error⟩

/-- A subshell is created, and the loop is told to terminate. -/
def createAndTerminate : List Label :=
  [.receiveControl (controlRequest "create_subshell_request"
      (.object [("subshell_id", .string "x")])),
    .select (.control "u"), .childCreated (.ok ()), .emit, .select .terminate]

/-- A shell is told to stop, and fails to shut its language down. -/
def failToStop (k : TaskId) (error : Error) : List Label :=
  [.next [], .next []] ++ List.replicate 8 (.shell k (.next Shell.quiet)) ++
    [.shell k (.shutdownReturned (.error error)), .next []]

/-- The subshell is stopped first. -/
def failTwice : List Label :=
  .next [1, 0] :: failToStop 1 serviceClosed ++ failToStop 0 recvFailed ++ [.next []]

/-- Both shells fail to stop, and the kernel returns the error of the one that
was stopped first. -/
theorem teardown_result_first :
    ∃ s o, run (Kernel.step subshellServices) {} createAndTerminate = some s ∧
      run (observe (Kernel.step subshellServices) watchStopped) ⟨s, []⟩ failTwice = some o ∧
      o.notes = [1, 0] ∧ o.notes.filterMap o.state.taskError = [serviceClosed, recvFailed] ∧
      o.state.pc = .returned (.error serviceClosed) ∧ o.notes ~ HashMap.values s.shells ∧
      some serviceClosed = o.notes.findSome? o.state.taskError := by
  obtain ⟨s, o, hs, hpc, ho, hnotes, herrors, hfinal⟩ : ∃ s o,
      run (Kernel.step subshellServices) {} createAndTerminate = some s ∧
      s.pc = .returning (.ok ()) ∧
      run (observe (Kernel.step subshellServices) watchStopped) ⟨s, []⟩ failTwice = some o ∧
      o.notes = [1, 0] ∧ o.notes.filterMap o.state.taskError = [serviceClosed, recvFailed] ∧
      o.state.pc = .returned (.error serviceClosed) := ⟨_, _, rfl, rfl, rfl, rfl, rfl, rfl⟩
  obtain ⟨hperm, _, herror⟩ := teardown_result hpc ho hfinal
  exact ⟨s, o, hs, ho, hnotes, herrors, hfinal, hperm, herror⟩

end Kernel

end Kernmini.Engine
