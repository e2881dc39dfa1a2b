/-
Kernmini.Engine.KernelRelease — whether a `release_request` finds a hold
that was received before it.

The loop empties the shell channel, puts a release to every shell of the
table, and awaits the answers one by one; the reply says whether one of
them was `true`. `release_finds_hold`: if no shell takes a release while
the hold it names is still to be parked (and no hold is parked over
another, and the shells asked are alive), then the loop leaves the request
only with its reply, and a hold received before the request, whose shell is
in the table, has been answered by then or is finished by the release, with
`found` set.

The first condition is not met by itself. The scheduler drains its message
channel and its controls before it pops an item, so a hold and a release
that are received together miss each other (`early_release_misses_hold`).
-/
import Kernmini.Engine.KernelErrors
import Kernmini.Engine.KernelFence
import Kernmini.Engine.ReleaseTheorems

namespace Kernmini.Engine

open Kernmini.Wire Kernmini.Lib

/-- The `release_request` the loop asks the shells for. -/
def MainPc.releasing : MainPc → Option (Arrival .control)
  | .release _ _ a => some a
  | .awaitRelease _ _ _ _ a => some a
  | _ => none

theorem MainPc.asking_of_releasing {pc : MainPc} {a : Arrival .control}
    (h : pc.releasing = some a) : pc.asking = true := by
  cases pc with
  | release | awaitRelease => rfl
  | _ => cases h

namespace Kernel

variable {services : Services} {s s' : Kernel} {l : Label} {n n' : PostNotes} {k : TaskId}
  {ls : List Label} {o o' : Watched} {a : Arrival .control} {found : Bool}

/-! ## Release numbers -/

/-- What a step does to the releases of the shells. -/
inductive ReleaseTurn (s s' : Kernel) : Prop
  | keep (hreleases : s'.releases = s.releases)
      (htasks : ∀ (k : TaskId) (x' : Shell), s'.tasks[k]? = some x' →
        x' = {} ∨ ∃ x : Shell, s.tasks[k]? = some x ∧ x'.releases = x.releases)
  | put (k : TaskId) (x x' : Shell) (hreleases : s'.releases = s.releases + 1)
      (hget : s.tasks[k]? = some x) (htasks : s'.tasks = s.tasks.set k x')
      (hput : x'.releases = x.releases ++ [s.releases])

theorem ReleaseTurn.of_same (hreleases : s'.releases = s.releases) (htasks : s'.tasks = s.tasks) :
    ReleaseTurn s s' := by
  refine .keep hreleases (fun k x' hx' => Or.inr ⟨x', ?_, rfl⟩)
  rw [← htasks]
  exact hx'

theorem ReleaseTurn.of_set {x x' : Shell} (hreleases : s'.releases = s.releases)
    (hget : s.tasks[k]? = some x) (htasks : s'.tasks = s.tasks.set k x')
    (hx : x'.releases = x.releases) : ReleaseTurn s s' := by
  refine .keep hreleases (fun j y hy => Or.inr ?_)
  rw [htasks] at hy
  rcases getElem?_set_cases hy with hold | ⟨rfl, rfl⟩
  · exact ⟨y, hold, rfl⟩
  · exact ⟨x, hget, hx⟩

theorem releases_of_deliver {x x' : Shell} {inbound : Inbound} (h : x.deliver inbound = some x') :
    x'.releases = x.releases := by
  unfold Shell.deliver at h
  split at h
  · cases h
    rfl
  · cases h

theorem releases_of_control {x x' : Shell} {c : ShellControl} (h : x.control c = some x') :
    x'.releases = x.releases ++ c.complete.toList := by
  unfold Shell.control at h
  split at h
  · cases h
    cases c <;> simp [Shell.releases, ShellControl.complete]
  · cases h

theorem releases_of_stop {x x' : Shell} {c : ShellControl} (h : x.control c = some x')
    (hc : c = .interrupt ∨ c = .stop) : x'.releases = x.releases := by
  rw [releases_of_control h]
  rcases hc with rfl | rfl
  · exact List.append_nil _
  · exact List.append_nil _

theorem release_turn (h : s.step services l = some s') : ReleaseTurn s s' := by
  cases step_rule h with
  | @shell k x x' l' hown hget hstep =>
      rcases Shell.releases_of_step hstep with hsame | ⟨c, rfl, _⟩
      · exact .of_set rfl hget rfl hsame
      · cases hown
  | deliver hpc hget hput => exact .of_set rfl hget rfl (releases_of_deliver hput)
  | interrupt hpc hget hput =>
      exact .of_set rfl hget rfl (releases_of_stop hput (Or.inl rfl))
  | release hpc hget hput => exact .put _ _ _ rfl hget rfl (releases_of_control hput)
  | stopPut hpc hget hput hc | jobPut hjob hget hput hc =>
      exact .of_set rfl hget rfl (releases_of_stop hput hc)
  | route hpc h | takeCommand hpc hcommands h | takeControl hpc hcontrol h =>
      exact .of_same h.frame.releases h.frame.tasks
  | childFailed hpc => exact .of_same (created_frame _ _ _).releases (created_frame _ _ _).tasks
  | childCreated hpc =>
      refine .keep (created_frame _ _ _).releases (fun k x' hx' => ?_)
      rw [(created_frame _ _ _).tasks, spawnShell, List.getElem?_append] at hx'
      split at hx'
      · exact Or.inr ⟨x', hx', rfl⟩
      · exact Or.inl (List.mem_singleton.mp (List.mem_of_getElem? hx'))
  | _ => exact .of_same rfl rfl

/-- The releases of a shell have numbers of their own, given out so far. -/
def ReleasesApart (s : Kernel) : Prop :=
  ∀ (k : TaskId) (x : Shell), s.tasks[k]? = some x →
    x.releases.Nodup ∧ ∀ c ∈ x.releases, c < s.releases

theorem releasesApart_init : ReleasesApart {} := by
  intro k x hx
  rw [List.mem_singleton.mp (List.mem_of_getElem? hx)]
  exact ⟨List.nodup_nil, by intro c hc; cases hc⟩

theorem releasesApart_step (hs : s.ReleasesApart) (h : s.step services l = some s') :
    s'.ReleasesApart := by
  intro j y hy
  cases release_turn h with
  | keep hreleases htasks =>
      rw [hreleases]
      rcases htasks j y hy with rfl | ⟨x, hx, heq⟩
      · exact ⟨List.nodup_nil, by intro c hc; cases hc⟩
      · rw [heq]
        exact hs j x hx
  | put k x x' hreleases hget htasks hput =>
      rw [htasks] at hy
      rcases getElem?_set_cases hy with hold | ⟨rfl, rfl⟩
      · obtain ⟨hnodup, hlt⟩ := hs j y hold
        refine ⟨hnodup, fun c hc => ?_⟩
        have := hlt c hc
        omega
      · obtain ⟨hnodup, hlt⟩ := hs k x hget
        rw [hput]
        constructor
        · refine List.nodup_append.mpr ⟨hnodup, List.nodup_singleton _, ?_⟩
          intro c hc d hd heq
          rw [List.mem_singleton.mp hd] at heq
          have := hlt c hc
          omega
        · intro c hc
          rcases List.mem_append.mp hc with hold | hnew
          · have := hlt c hold
            omega
          · rw [List.mem_singleton.mp hnew]
            omega

/-! ## The loop of a `release_request` -/

/-- Shell `k` has answered the release put to it, after everything that has
been put; and if it has found the hold, so has the loop. -/
def Asked (s : Kernel) (n : PostNotes) (a : Arrival .control) (found : Bool) (k : TaskId) : Prop :=
  ∃ p ∈ n.puts, ∃ c, p.task = k ∧ p.control = releaseControl a.request c ∧
    p.posted = n.posted ∧ ∃ x : Shell, s.tasks[k]? = some x ∧
      ∃ result, x.answers.lookup c = some result ∧ (result = true → found = true)

/-- Every shell of the table is still to be asked, or is being asked, or has
answered. -/
def Asking (s : Kernel) (n : PostNotes) : Prop :=
  match s.pc with
  | .release todo found a => ∀ k ∈ HashMap.values s.shells, k ∈ todo ∨ Asked s n a found k
  | .awaitRelease k complete todo found a =>
      (∃ p ∈ n.puts, p.task = k ∧ p.control = releaseControl a.request complete ∧
        p.posted = n.posted) ∧
      ∀ j ∈ HashMap.values s.shells, j ∈ todo ∨ j = k ∨ Asked s n a found j
  | _ => True

theorem Asked.step (hs : Asked s n a found k) (h : s.step services l = some s')
    (hputs : ∀ p ∈ n.puts, p ∈ n'.puts) (hposted : n'.posted = n.posted) :
    Asked s' n' a found k := by
  obtain ⟨p, hp, c, htask, hcontrol, hpp, hx⟩ := hs
  refine ⟨p, hputs p hp, c, htask, hcontrol, hpp.trans hposted.symm, ?_⟩
  refine task_keeps ?_ hx h
  rintro x l' x' ⟨result, hlookup, hfound⟩ hstep
  exact ⟨result, (Shell.answers_of_step hstep).lookup_eq_some hlookup, hfound⟩

theorem Asked.mono {found' : Bool} (hs : Asked s n a found k) (h : found = true → found' = true) :
    Asked s n a found' k := by
  obtain ⟨p, hp, c, htask, hcontrol, hposted, x, hx, result, hlookup, hfound⟩ := hs
  exact ⟨p, hp, c, htask, hcontrol, hposted, x, hx, result, hlookup, fun hr => h (hfound hr)⟩

/-- A step beside the loop. -/
theorem Asking.beside (hs : Asking s n) (h : s.step services l = some s') (hpc : s'.pc = s.pc)
    (hshells : s'.shells = s.shells) (hputs : n'.puts = n.puts) (hposted : n'.posted = n.posted) :
    Asking s' n' := by
  have hkeep : ∀ {a : Arrival .control} {found : Bool} {k : TaskId},
      Asked s n a found k → Asked s' n' a found k := by
    intro a found k hasked
    exact hasked.step h (fun p hp => hputs ▸ hp) hposted
  unfold Asking at hs ⊢
  rw [hpc, hshells]
  split
  · next todo found a heq =>
      rw [heq] at hs
      exact fun k hk => (hs k hk).imp_right hkeep
  · next k complete todo found a heq =>
      rw [heq] at hs
      obtain ⟨⟨p, hp, htask, hcontrol, hpp⟩, hall⟩ := hs
      refine ⟨⟨p, hputs ▸ hp, htask, hcontrol, hpp.trans hposted.symm⟩, fun j hj => ?_⟩
      exact (hall j hj).imp_right (fun hor => hor.imp_right hkeep)
  · trivial

theorem asking_of_not (h : s.pc.asking = false) : Asking s n := by
  unfold Asking
  split
  · next heq =>
      rw [heq] at h
      cases h
  · next heq =>
      rw [heq] at h
      cases h
  · trivial

theorem watchPosts_shell {l' : Shell.Label} :
    (watchPosts s (.shell k l') s' n).puts = n.puts ∧
      (watchPosts s (.shell k l') s' n).posted = n.posted := by
  simp only [watchPosts]
  split
  · split
    · exact ⟨rfl, rfl⟩
    · exact ⟨rfl, rfl⟩
  · exact ⟨rfl, rfl⟩

theorem asking_keeps (hs : Asking s n) (h : s.step services l = some s') :
    Asking s' (watchPosts s l s' n) := by
  cases step_rule h with
  | shell hown hget hstep =>
      exact hs.beside h rfl rfl watchPosts_shell.1 watchPosts_shell.2
  | receive | receiveControl | command | notify | emit | jobPut | jobClosed | jobFailed
  | jobCompleted | jobReplied => exact hs.beside h rfl rfl rfl rfl
  | @startRelease order a hpc hshell horder =>
      intro k hk
      exact Or.inl ((List.isPerm_iff.mp horder).mem_iff.mpr hk)
  | @release order k todo found a x x' hpc hget hput =>
      have hnotes : ∀ {s' : Kernel}, watchPosts s (.next order) s' n =
          n.put k (releaseControl a.request s.releases) x := by
        intro s'
        simp only [watchPosts, hpc]
        exact noteIfLive_of_put hget (isOpen_of_control hput)
      rw [hnotes]
      unfold Asking at hs
      rw [hpc] at hs
      refine ⟨⟨_, List.mem_append_right _ (List.mem_singleton_self _), rfl, rfl, rfl⟩, ?_⟩
      intro j hj
      rcases hs j hj with hmem | hasked
      · rcases List.mem_cons.mp hmem with rfl | htodo
        · exact Or.inr (Or.inl rfl)
        · exact Or.inl htodo
      · exact Or.inr (Or.inr (hasked.step h (fun p hp => List.mem_append_left _ hp) rfl))
  | @released order k complete todo found result a x hpc hget hanswer =>
      have hnotes : ∀ {s' : Kernel}, watchPosts s (.next order) s' n = n := by
        intro s'
        simp only [watchPosts, hpc]
      rw [hnotes]
      unfold Asking at hs
      rw [hpc] at hs
      obtain ⟨⟨p, hp, htask, hcontrol, hposted⟩, hall⟩ := hs
      intro j hj
      rcases hall j hj with htodo | rfl | hasked
      · exact Or.inl htodo
      · right
        refine ⟨p, hp, complete, htask, hcontrol, hposted, x, hget, result, hanswer, ?_⟩
        intro hresult
        rw [hresult, Bool.or_true]
      · right
        refine (hasked.step h (fun p hp => hp) rfl).mono ?_
        intro hfound
        rw [hfound, Bool.true_or]
  | route hpc h => exact asking_of_not h.asking
  | deliver | undelivered => exact asking_of_not (After.asking_pc _)
  | takeCommand hpc hcommands h | takeControl hpc hcontrol h => exact asking_of_not (h.asking hpc)
  | childCreated | childFailed => exact asking_of_not (created_asking _ _ _)
  | reaped hpc => exact asking_of_not (by show s.pc.asking = false; rw [hpc]; rfl)
  | _ => trivial

/-! ## The release finds the hold -/

/-- A hold is parked only where none is, a release is taken only when no hold
it names waits to be parked, and it is put to live shells that answer. -/
def ReleasesParked (s : Kernel) (l : Label) : Prop :=
  ParksFree s l ∧ AsksLive s l ∧
    match l with
    | .shell k l' => ∀ x ∈ s.tasks[k]?, x.releasesParked l' = true
    | _ => True

instance (s : Kernel) (l : Label) : Decidable (ReleasesParked s l) :=
  inferInstanceAs (Decidable (ParksFree s l ∧ AsksLive s l ∧
    l.OnShell fun k l => ∀ x ∈ s.tasks[k]?, x.releasesParked l = true))

/-- No release was taken while a hold it names waited to be parked. -/
def Timely (ts : Takings) : Prop :=
  ∀ y ∈ ts, ∀ msgId status c rest, y.1.controls = .release msgId status c :: rest →
    y.1.holdWaits msgId = false

theorem Timely.turn {x x' : Shell} {ts ts' : Takings} (ht : Timely ts)
    (hget : s.tasks[k]? = some x) (hok : ReleasesParked s l)
    (h : TakingTurn services l k x ts x' ts') : Timely ts' := by
  cases h with
  | same hx hts => rwa [hts]
  | other l' hl hstep htakes hts => rwa [hts]
  | take l' hl hstep htakes hts =>
      rw [hts]
      intro y hy msgId status c rest hcontrols
      rcases List.mem_append.mp hy with hold | hnew
      · exact ht y hold msgId status c rest hcontrols
      · obtain rfl := List.mem_singleton.mp hnew
        have hcontrols : x.controls = .release msgId status c :: rest := hcontrols
        rw [hl] at hok
        have hparked := hok.2.2 x hget
        simpa [Shell.releasesParked, hcontrols, htakes] using hparked

/-- What a run that meets the condition keeps. -/
structure Releasing (services : Services) (o : Watched) : Prop where
  lossless : Lossless services o
  timely : ∀ (k : TaskId) (x : Shell), o.state.tasks[k]? = some x → Timely (o.notes.takes k)
  apart : o.state.ReleasesApart
  asking : Asking o.state o.notes

theorem releasing_init : Releasing services ⟨{}, {}⟩ where
  lossless := lossless_init
  timely := by intro k x hx y hy; cases hy
  apart := releasesApart_init
  asking := trivial

theorem releasing_step (hr : Releasing services o) (hok : ReleasesParked o.state l)
    (h : watchedStep services o l = some o') : Releasing services o' := by
  obtain ⟨hstep, hnotes⟩ := observe_cases h
  refine ⟨lossless_step hr.lossless hok.1 h, ?_, releasesApart_step hr.apart hstep, ?_⟩
  · intro k x' hx'
    rw [hnotes]
    exact takings_step (P := fun _ ts => Timely ts) (by intro y hy; cases hy)
      (fun x _ _ hx ht hturn => ht.turn hx hok hturn)
      (hr.lossless.notes.shells.unborn k) (hr.timely k) hstep hx'
  · rw [hnotes]
    exact asking_keeps hr.asking hstep

theorem releasing_of_run (hrun : run (watchedStep services) ⟨{}, {}⟩ ls = some o)
    (hok : StepsMeet (Kernel.step services) ReleasesParked {} ls) : Releasing services o :=
  @run_invariant_of_meets _ _ _ _ (Releasing services)
    (fun _ _ _ hr hok h => releasing_step hr hok h) _ _ _ hrun
    (@StepsMeet.observe _ _ _ _ watchPosts ⟨{}, {}⟩ _ _ hok) releasing_init

/-- The shell of the hold `q` has taken the release: the hold had been
answered before, or the release has finished it and is reported. -/
def Finds (o : Watched) (a : Arrival .control) (found : Bool) (q : Post) : Prop :=
  ∃ x x' y c, (x, x') ∈ o.notes.takes q.task ∧
    x.controls.head? = some (releaseControl a.request c) ∧ o.state.tasks[q.task]? = some y ∧
    (q.number ∈ repliesIn x.log ∨
      (found = true ∧ y.said q.number =
        x.said q.number ++ (finishHold x.executionCount (releaseStatus a.request)).1))

theorem finds_of_asked {q : Post} (hr : Releasing services o)
    (hasked : Asked o.state o.notes a found q.task) (hq : q ∈ o.notes.posted)
    (hex : q.arrival.request.isExecute = true) (hhold : isHold q.arrival.request = true)
    (hid : q.arrival.request.msgId = releaseMsgId a.request) : Finds o a found q := by
  obtain ⟨p, hp, c, htask, hcontrol, hposted, y, hy, result, hlookup, hfound⟩ := hasked
  have hshells := hr.lossless.notes.shells
  obtain ⟨z, hz, hnumbered⟩ := hshells.numbered p hp
  obtain ⟨_, _, hmail⟩ := hshells.mailBy p hp q (hposted ▸ hq) htask.symm
  rw [htask, hy] at hz
  cases hz
  rw [htask] at hnumbered hmail
  have hnodup := (hr.apart q.task y hy).1
  cases htaken : (o.notes.takes q.task)[p.number]? with
  | none =>
      -- a release that is still in the channel has not been answered
      have hwaits := hnumbered.waits (List.getElem?_eq_none_iff.mp htaken)
      rw [hcontrol] at hwaits
      have hin : c ∈ y.controls.filterMap ShellControl.complete :=
        List.mem_filterMap.mpr ⟨_, List.mem_of_getElem? hwaits, rfl⟩
      have hdone : c ∈ y.answers.map Prod.fst :=
        List.mem_map_of_mem (Shell.mem_of_lookup hlookup)
      exact absurd rfl ((List.nodup_append.mp hnodup).2.2 c hdone c
        (List.mem_append_right _ hin))
  | some taken =>
      obtain ⟨x, x'⟩ := taken
      have hmem : (x, x') ∈ o.notes.takes q.task := List.mem_of_getElem? htaken
      have hhead : x.controls.head? = some (releaseControl a.request c) := by
        rw [← hcontrol]
        exact hnumbered.taken _ htaken
      refine ⟨x, x', y, c, hmem, hhead, hy, ?_⟩
      obtain ⟨⟨hreach, l, control, rest, hstep, htake⟩, hlater⟩ :=
        (hshells.past q.task y hy).taken _ hmem
      rw [htake.controls] at hhead
      cases hhead
      have hwaits := hr.timely q.task y hy _ hmem _ _ _ _ htake.controls
      rcases htake.parked hreach ((hr.lossless.tasks q.task y hy).taken _ hmem) hwaits
        (hmail.taken _ htaken) hex hhold hid with hheld | hanswered
      · right
        obtain ⟨hreleased, hsaid⟩ :=
          Shell.released_of_take hreach hstep htake hheld hid hex hlater
        exact ⟨hfound (hreleased.answer hnodup hlookup), hsaid⟩
      · exact Or.inl hanswered

/-- While it asks for a release, the loop goes on or replies. -/
theorem releasing_or_reply {order : List TaskId} (h : s.step services (.next order) = some s')
    (ha : s.pc.releasing = some a) (hok : AsksLive s (.next order)) :
    s'.pc.releasing = some a ∨
      ∃ found, s.pc = .release [] found a ∧ s'.out = [(a.source, releaseReply found)] := by
  cases step_rule h with
  | release hpc hget hput =>
      rw [hpc] at ha
      exact Or.inl ha
  | released hpc hget hanswer =>
      rw [hpc] at ha
      exact Or.inl ha
  | releaseClosed hpc hclosed =>
      exact absurd hclosed (hok.not_closed (by simp only [controlTarget, hpc]))
  | unreleased hpc hget hanswer hended =>
      rw [hok.isOpen (by simp only [awaited, hpc]) hget hanswer] at hended
      cases hended
  | @releaseReply _ found b hpc =>
      rw [hpc] at ha
      cases ha
      refine Or.inr ⟨found, hpc, ?_⟩
      simp only [say, out_of_next h, List.nil_append, List.map_singleton]
  | route hpc | deliver hpc | undelivered hpc | takePending hpc | startInterrupt hpc
  | interrupt hpc | interruptClosed hpc | interruptFailed hpc | interruptReply hpc
  | interruptDone hpc | startRelease hpc | drain hpc | stopPut hpc | stopClosed hpc
  | stopped hpc | returned hpc =>
      rw [hpc] at ha
      cases ha

/-- In every run that meets the condition, a step of the loop that handles a
`release_request` goes on with it or leaves the reply to be sent. By then,
every hold with the named `msg_id` that was received before the loop took the
request has been answered by the loop, or was put to a shell; and if that
shell is in the table, the hold had been answered when the shell took the
release, or the release has finished it and the reply says `found`. -/
theorem release_finds_hold {order : List TaskId}
    (hrun : run (watchedStep services) ⟨{}, {}⟩ ls = some o)
    (hstep : watchedStep services o (.next order) = some o')
    (hok : StepsMeet (Kernel.step services) ReleasesParked {} (ls ++ [.next order]))
    (ha : o.state.pc.releasing = some a) :
    o'.state.pc.releasing = some a ∨
      ∃ found, o'.state.out = [(a.source, releaseReply found)] ∧
        ∀ r ∈ o.notes.before, r.request.isExecute = true → isHold r.request = true →
          r.request.msgId = releaseMsgId a.request →
            o.state.Refused r ∨ ∃ q ∈ o.notes.posted, q.arrival = r ∧
              (q.task ∈ HashMap.values o.state.shells → Finds o a found q) := by
  obtain ⟨hok, hlast⟩ := hok.of_snoc (run_of_observe hrun)
  have hr := releasing_of_run hrun hok
  have hnext := (observe_cases hstep).1
  rcases releasing_or_reply hnext ha hlast.2.1 with hgoes | ⟨found, hpc, hout⟩
  · exact Or.inl hgoes
  · refine Or.inr ⟨found, hout, fun r hr' hex hhold hid => ?_⟩
    have hloop := hr.lossless.notes.loop
    obtain ⟨answered, hb⟩ := books_of_reachable hr.lossless.notes.reachable
    have hasking := MainPc.asking_of_releasing ha
    rcases place_of_asking hb hasking (out_of_next hnext) (hloop.before r hr')
      (hloop.routed hasking r hr') (Message.isRequest_of_isExecute hex) with hdelivered | hrefused
    · rw [hloop.delivered] at hdelivered
      obtain ⟨q, hq, rfl⟩ := List.mem_map.mp hdelivered
      refine Or.inr ⟨q, hq, rfl, fun htable => ?_⟩
      have hasked := hr.asking
      unfold Asking at hasked
      rw [hpc] at hasked
      rcases hasked q.task htable with htodo | hasked
      · cases htodo
      · exact finds_of_asked hr hasked hq hex hhold hid
    · exact Or.inl hrefused

/-- Hold `a` is parked; then its release is received, put to the shell, and
answered. -/
def releaseParkedHold : List Label :=
  parkParent (Shell.cell "a" 0 true) ++
    [.receiveControl releaseA, .select (.control "u"), .next [0], .next []] ++
    List.replicate 2 (.shell 0 (.next Shell.quiet)) ++ List.replicate 2 (.shell 0 .emit) ++
    [.shell 0 (.next Shell.quiet), .next []]

theorem release_finds_parked_hold :
    ∃ o o' a r found, run (watchedStep subshellServices) ⟨{}, {}⟩ releaseParkedHold = some o ∧
      watchedStep subshellServices o (.next []) = some o' ∧ r ∈ o.notes.before ∧
      isHold r.request = true ∧ r.request.msgId = releaseMsgId a.request ∧
      o'.state.out = [(a.source, releaseReply found)] ∧
      (o.state.Refused r ∨ ∃ q ∈ o.notes.posted, q.arrival = r ∧
        (q.task ∈ HashMap.values o.state.shells → Finds o a found q)) := by
  have hrun : run (watchedStep subshellServices) ⟨{}, {}⟩ releaseParkedHold = some _ := rfl
  rcases @release_finds_hold _ _ _ _ _ [] hrun rfl (by decide) rfl with
    hgoes | ⟨found, hout, hall⟩
  · cases hgoes
  · exact ⟨_, _, _, _, found, hrun, rfl, List.mem_singleton.mpr rfl, by decide, by decide, hout,
      hall _ (List.mem_singleton.mpr rfl) (by decide) (by decide) (by decide)⟩

/-! ## The release misses the hold -/

/-- Hold `a` and its release are received, and the loop takes the release
first: it delivers the hold and puts the release; the shell enqueues the
hold and takes the release. -/
def earlyRelease : List Label :=
  [.receive (Shell.cell "a" 0 true), .receiveControl releaseA, .select (.control "u"), .next [],
    .next [], .next [], .next [0], .next []] ++
    List.replicate 3 (.shell 0 (.next Shell.quiet)) ++ [.next []]

/-- The shell has the hold in its queue and nothing else to do; the reply says
that the hold was not found, and it is still unanswered. -/
theorem early_release_misses_hold :
    ∃ o o' a q x x' y, run (watchedStep subshellServices) ⟨{}, {}⟩ earlyRelease = some o ∧
      watchedStep subshellServices o (.next []) = some o' ∧
      o.state.pc.releasing = some a ∧ q.arrival ∈ o.notes.before ∧
      q.arrival.request.isExecute = true ∧ isHold q.arrival.request = true ∧
      q.arrival.request.msgId = releaseMsgId a.request ∧ q ∈ o.notes.posted ∧
      q.task ∈ HashMap.values o.state.shells ∧ o.notes.takes q.task = [(x, x')] ∧
      x.active = none ∧ x.held = none ∧ x.queue.items = [q.item] ∧ x.incoming = [] ∧
      o'.state.out = [(a.source, releaseReply false)] ∧
      o'.state.tasks[q.task]? = some y ∧ replyCount (y.said q.number) = 0 := by
  have hrun : run (watchedStep subshellServices) ⟨{}, {}⟩ earlyRelease = some _ := rfl
  refine ⟨_, _, _, _, _, _, _, hrun, rfl, rfl, List.mem_singleton.mpr rfl, by decide, by decide,
    by decide, List.mem_singleton.mpr rfl, by decide, rfl, rfl, rfl, rfl, rfl, rfl, rfl, by decide⟩

end Kernel

end Kernmini.Engine
