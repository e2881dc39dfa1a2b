/-
Kernmini.Engine.InterruptTheorems — when an interrupt waiting in a
shell's control channel can reach the active execution.

The scheduler reads its controls at two places of the loop, the drain at
the top and `tokio::select!`. Between them it handles at most one message,
and `handle_shell` awaits the language inline. `interrupt_reaches_iff`
says for every reachable state whether the scheduler, by its own steps,
comes to the interrupt: it does unless it is `blocked`, that is ending, in
a language call, bound for one before it looks at its controls again, or
about to reap the execution because its task is over.

The positive half is a progress argument (`reachesBy_of_progress`) over
`rank`; the negative half is an invariant of the scheduler's own steps.
-/
import Kernmini.Engine.ShellTheorems

namespace Kernmini.Engine

open Kernmini.Wire Kernmini.Lib

/-- Handling the message awaits the language, or ends the shell. -/
def blocking (request : Message) : Bool :=
  (missingFields request).isEmpty &&
    ((serviceCall request).isSome || decide (request.msgType = "shutdown_request"))

namespace Shell

/-- The steps of the scheduler and of the pumps it waits for: everything but
the environment, the execution's task and the returns of language calls. -/
def Label.isOwn : Label → Bool
  | .emit | .next _ | .selectIncoming | .selectControl _ | .selectDone | .selectTimeout
  | .commPump _ _ => true
  | _ => false

/-- The scheduler's next control is an interrupt, and it is about to take it. -/
def AtInterrupt (s : Shell) : Prop :=
  s.out = [] ∧ (s.pc = .drainControls ∨ s.pc = .select) ∧ s.controls.head? = some .interrupt

/-- By its own steps the scheduler comes to `apply_control(Interrupt)` while
`item` is still the active execution. -/
def CanInterrupt (services : Services) (s : Shell) (item : QueueItem) : Prop :=
  ∃ t, ReachesBy (Shell.step services) (fun l => l.isOwn = true) s t ∧ t.AtInterrupt ∧
    ∃ a, t.active = some a ∧ a.item = item

/-- The message `pop_runnable` would return now is a blocking one. -/
def nextBlocks (s : Shell) : Bool :=
  match (popRunnable s.queue s.active.isSome s.held).1 with
  | some item => blocking item.request
  | none => false

/-- The active execution's task is over. -/
def taskEnded (s : Shell) : Bool := (s.active.bind ActiveExecution.result).isSome

/-- The scheduler will not look at its controls by its own steps before the
execution is gone or the language has returned. -/
def blocked (s : Shell) : Bool :=
  match s.pc with
  | .call _ _ _ | .shutdown _ | .failing _ | .ended _ _ | .failed _ => true
  | .reap => s.taskEnded || s.nextBlocks
  | .settle | .stopTest | .dispatch => s.nextBlocks
  | .handle item => blocking item.request
  | _ => false

variable {services : Services} {s s' : Shell} {l : Label} {item : QueueItem}

/-! ## Progress -/

/-- How far the program counter is from looking at the controls. -/
def Pc.rank : Pc → Nat
  | .commFlush _ _ => 11
  | .reap => 10
  | .settle => 9
  | .stopTest => 8
  | .dispatch => 7
  | .handle _ => 6
  | .abort _ _ => 5
  | .answer _ _ => 4
  | .drainIncoming => 3
  | .drainControls => 2
  | .select => 1
  | _ => 0

/-- What is left to do at the program counter. -/
def work (s : Shell) : Nat :=
  match s.pc with
  | .commFlush _ comm =>
      match s.comms[comm]? with
      | some (_, output) => output.work
      | none => 0
  | _ => s.incoming.length

def rank (s : Shell) : Nat × Nat × Nat × Nat :=
  (s.controls.length, Pc.rank s.pc, s.work, s.out.length)

/-- An interrupt waits for the execution of `item`, and nothing blocks it. -/
structure Pending (services : Services) (item : QueueItem) (s : Shell) : Prop where
  reachable : Reachable services s
  active : ∃ a, s.active = some a ∧ a.item = item
  waits : .interrupt ∈ s.controls
  free : s.blocked = false

/-- An own step to a pending state of lower rank. -/
def Advances (services : Services) (item : QueueItem) (s : Shell) : Prop :=
  ∃ l s', l.isOwn = true ∧ s.step services l = some s' ∧ Pending services item s' ∧
    WellFoundedRelation.rel s'.rank s.rank

theorem Pending.reach (hp : Pending services item s) (h : s.step services l = some s') :
    Reachable services s' :=
  Lib.Reachable.trans hp.reachable (Lib.Reachable.single h)

/-- A step that keeps the controls and the execution and lowers the program
counter. -/
theorem Pending.down (hp : Pending services item s) (hl : l.isOwn = true)
    (h : s.step services l = some s') (hactive : s'.active = s.active)
    (hcontrols : s'.controls = s.controls) (hfree : s'.blocked = false)
    (hrank : Pc.rank s'.pc < Pc.rank s.pc) : Advances services item s := by
  refine ⟨l, s', hl, h, ⟨hp.reach h, by rw [hactive]; exact hp.active,
    by rw [hcontrols]; exact hp.waits, hfree⟩, ?_⟩
  show Prod.Lex _ _ (_, _) (_, _)
  rw [hcontrols]
  exact .right _ (.left _ _ hrank)

/-- A step that only takes a message off what is left to do. -/
theorem Pending.shrink (hp : Pending services item s) (hl : l.isOwn = true)
    (h : s.step services l = some s') (hactive : s'.active = s.active)
    (hcontrols : s'.controls = s.controls) (hfree : s'.blocked = false)
    (hpc : s'.pc = s.pc) (hwork : s'.work < s.work) : Advances services item s := by
  refine ⟨l, s', hl, h, ⟨hp.reach h, by rw [hactive]; exact hp.active,
    by rw [hcontrols]; exact hp.waits, hfree⟩, ?_⟩
  show Prod.Lex _ _ (_, _) (_, _)
  rw [hcontrols, hpc]
  exact .right _ (.right _ (.left _ _ hwork))

/-- Pending messages are sent first. -/
theorem Pending.emit (hp : Pending services item s) (hout : s.out ≠ []) :
    Advances services item s := by
  obtain ⟨e, rest, hcons⟩ := List.exists_cons_of_ne_nil hout
  have h : s.step services .emit = some { s with out := rest, log := s.log ++ [e] } := by
    simp only [step, hcons]
  refine ⟨.emit, _, rfl, h, ⟨hp.reach h, hp.active, hp.waits, hp.free⟩, ?_⟩
  refine .right _ (.right _ (.right _ ?_))
  show rest.length < s.out.length
  rw [hcons]
  exact Nat.lt_succ_self _

/-- A control ahead of the interrupt is applied, and leads back to one of the
two drains without handling a message. -/
theorem applyControl_pending {c : ShellControl} {rest : List ShellControl} {resume : Resume}
    (hne : c ≠ .interrupt) (hresume : resume ≠ .settle) :
    ({ s with controls := rest }.applyControl quiet c resume).active = s.active ∧
    ({ s with controls := rest }.applyControl quiet c resume).controls = rest ∧
    ({ s with controls := rest }.applyControl quiet c resume).blocked = false := by
  have hfree : ∀ t : Shell, t.pc = resume.pc → t.blocked = false := by
    intro t ht
    cases resume with
    | settle => exact absurd rfl hresume
    | _ => simp [blocked, ht, Resume.pc]
  cases c with
  | interrupt => exact absurd rfl hne
  | stop => exact ⟨rfl, rfl, hfree _ rfl⟩
  | release msgId releaseStatus complete =>
      simp only [applyControl]
      split
      · split
        · refine ⟨rfl, rfl, ?_⟩
          cases (finishHold s.executionCount releaseStatus).2 <;> simp [blocked]
        · exact ⟨rfl, rfl, hfree _ rfl⟩
      · exact ⟨rfl, rfl, hfree _ rfl⟩

theorem Pending.apply (hp : Pending services item s) {c : ShellControl}
    {rest : List ShellControl} {resume : Resume} (hl : l.isOwn = true)
    (hcontrols : s.controls = c :: rest) (hne : c ≠ .interrupt) (hresume : resume ≠ .settle)
    (h : s.step services l = some ({ s with controls := rest }.applyControl quiet c resume)) :
    Advances services item s := by
  obtain ⟨hactive, hrest, hfree⟩ := @applyControl_pending s c rest resume hne hresume
  refine ⟨l, _, hl, h, ⟨hp.reach h, by rw [hactive]; exact hp.active, ?_, hfree⟩, ?_⟩
  · have hmem := hp.waits
    rw [hcontrols] at hmem
    rw [hrest]
    rcases List.mem_cons.mp hmem with heq | hmem
    · exact absurd heq.symm hne
    · exact hmem
  · refine .left _ _ ?_
    rw [hrest, hcontrols]
    exact Nat.lt_succ_self _

/-- Outcomes of the synchronous calls that let every handler go on. -/
def ready : Oracle :=
  { kernelInfo := .ok (⟨"", "", "", .null⟩, false, []), interruptHandler := none }

/-- A message that does not block is handled in one step. -/
theorem handleShell_free (hfree : blocking item.request = false) :
    (s.handleShell services ready item).pc = .drainIncoming ∧
    (s.handleShell services ready item).active = s.active ∧
    (s.handleShell services ready item).controls = s.controls := by
  unfold blocking at hfree
  simp only [handleShell]
  split
  · exact ⟨rfl, rfl, rfl⟩
  · next hmissing =>
      have hempty : (missingFields item.request).isEmpty = true := by simpa using hmissing
      rw [hempty, Bool.true_and, Bool.or_eq_false_iff] at hfree
      obtain ⟨hcall, hshutdown⟩ := hfree
      have hnone : serviceCall item.request = none := by simpa using hcall
      rw [if_neg (of_decide_eq_false hshutdown)]
      split
      · exact ⟨rfl, rfl, rfl⟩
      · simp only [hnone]
        split
        · exact ⟨rfl, rfl, rfl⟩
        · split <;> exact ⟨rfl, rfl, rfl⟩

/-- The scheduler waits for the flush of a comm message: its pump goes on. -/
theorem Pending.flush (hp : Pending services item s) (hout : s.out = []) {it : QueueItem}
    {n : Nat} (hpc : s.pc = .commFlush it n) : Advances services item s := by
  have hsh := shape_of_reachable hp.reachable
  obtain ⟨_, order, output, hget, hflush⟩ := hsh.commFlush hpc
  cases hdone : output.flushed with
  | true =>
      have h : s.step services (.next quiet) = some { s with pc := .drainIncoming } := by
        simp [step, next, hpc, hout, hget, hdone]
      exact hp.down rfl h rfl rfl rfl (by simp [hpc, Pc.rank])
  | false =>
      obtain ⟨l, output', es, hpump, hlt⟩ := @Output.progress false output hflush hdone
      have h : s.step services (.commPump n l) = some { s with
          comms := s.comms.set n (order, output'), log := s.log ++ es.map (order, ·) } := by
        simp only [step, hget, hpump]
      have hbound : n < s.comms.length := (List.getElem?_eq_some_iff.mp hget).1
      refine hp.shrink rfl h rfl rfl (by simp [blocked, hpc]) rfl ?_
      have hbefore : s.work = output.work := by
        simp only [work, hpc, hget]
      rw [hbefore]
      simpa [work, hpc, hbound] using hlt

/-- Short of the interrupt, the scheduler can advance. -/
theorem Pending.progress (hp : Pending services item s) :
    s.AtInterrupt ∨ Advances services item s := by
  have hsh := shape_of_reachable hp.reachable
  obtain ⟨a, ha, hitem⟩ := hp.active
  have hnotNone : s.active ≠ none := by rw [ha]; simp
  by_cases hout : s.out = []
  · have hnext : ∀ o, s.step services (.next o) = s.next services o := by
      intro o
      simp [step, hout]
    -- both drains find the interrupt, or a control ahead of it
    obtain ⟨c, rest, hcontrols⟩ := List.exists_cons_of_ne_nil (List.ne_nil_of_mem hp.waits)
    have hfree := hp.free
    cases hpc : s.pc with
    | drainIncoming =>
        right
        cases hin : s.incoming with
        | nil =>
            have h : s.step services (.next quiet) = some { s with pc := .drainControls } := by
              simp [hnext, next, hpc, hin]
            exact hp.down rfl h rfl rfl rfl (by simp [hpc, Pc.rank])
        | cons inbound more =>
            have h : s.step services (.next quiet) =
                some ({ s with incoming := more }.enqueue inbound) := by
              simp [hnext, next, hpc, hin]
            refine hp.shrink rfl h rfl rfl ?_ rfl ?_
            · simp [blocked, enqueue, hpc]
            · simp [work, enqueue, hpc, hin]
    | drainControls =>
        by_cases hc : c = .interrupt
        · left
          exact ⟨hout, Or.inl hpc, by rw [hcontrols, hc]; rfl⟩
        · right
          refine @Pending.apply _ _ (.next quiet) _ hp c rest .controls rfl hcontrols hc ?_ ?_
          · simp
          · simp [hnext, next, hpc, hcontrols]
    | reap =>
        right
        simp only [blocked, hpc, Bool.or_eq_false_iff] at hfree
        have hnone : s.active.bind ActiveExecution.result = none := by
          simpa [taskEnded] using hfree.1
        have h : s.step services (.next quiet) = some { s with pc := .settle } := by
          simp only [hnext, next, hpc, hnone]
        exact hp.down rfl h rfl rfl hfree.2 (by simp [hpc, Pc.rank])
    | settle =>
        right
        simp only [blocked, hpc] at hfree
        have h : s.step services (.next quiet) = some { s with
            interrupting := s.interrupting && s.active.isSome, pc := .stopTest } := by
          simp only [hnext, next, hpc]
        exact hp.down rfl h rfl rfl hfree (by simp [hpc, Pc.rank])
    | stopTest =>
        right
        simp only [blocked, hpc] at hfree
        have h : s.step services (.next quiet) = some { s with pc := .dispatch } := by
          simp [hnext, next, hpc, ha]
        exact hp.down rfl h rfl rfl hfree (by simp [hpc, Pc.rank])
    | dispatch =>
        right
        simp only [blocked, hpc, nextBlocks] at hfree
        cases hpop : popRunnable s.queue s.active.isSome s.held with
        | mk found queue =>
            rw [hpop] at hfree
            cases found with
            | none =>
                have h : s.step services (.next quiet) = some { s with queue, pc := .select } := by
                  simp only [hnext, next, hpc, hpop]
                exact hp.down rfl h rfl rfl rfl (by simp [hpc, Pc.rank])
            | some it =>
                have h : s.step services (.next quiet) =
                    some { s with queue, pc := .handle it } := by
                  simp only [hnext, next, hpc, hpop]
                exact hp.down rfl h rfl rfl hfree (by simp [hpc, Pc.rank])
    | handle it =>
        right
        simp only [blocked, hpc] at hfree
        obtain ⟨hpc', hactive, hcontrols'⟩ := @handleShell_free services s it hfree
        have hexec : it.isExecute = false := by
          by_contra hex
          exact hnotNone (hsh.handle hpc (by simpa using hex)).1
        have h : s.step services (.next ready) = some (s.handleShell services ready it) := by
          simp [hnext, next, hpc, handleItem, hexec]
        refine hp.down rfl h hactive hcontrols' ?_ ?_
        · simp [blocked, hpc']
        · simp [hpc, hpc', Pc.rank]
    | call it service comm => simp [blocked, hpc] at hfree
    | commFlush it n => exact Or.inr (hp.flush hout hpc)
    | park it => exact absurd (hsh.park hpc).2.1 hnotNone
    | abort release resume =>
        right
        have hresume : resume ≠ .settle := by
          intro hr
          exact hnotNone (hsh.afterReap (by rw [hpc, hr]; rfl))
        cases hin : s.incoming with
        | nil =>
            have h : s.step services (.next quiet) = some (s.abortQueued release resume) := by
              simp [hnext, next, hpc, hin]
            refine hp.down rfl h rfl rfl ?_ ?_
            · cases release <;> cases resume <;> simp_all [blocked, abortQueued, Resume.pc]
            · rw [hpc]
              cases release <;> cases resume <;> simp_all [abortQueued, Resume.pc, Pc.rank]
        | cons inbound more =>
            have h : s.step services (.next quiet) =
                some ({ s with incoming := more }.enqueue inbound) := by
              simp [hnext, next, hpc, hin]
            refine hp.shrink rfl h rfl rfl ?_ rfl ?_
            · simp [blocked, enqueue, hpc]
            · simp [work, enqueue, hpc, hin]
    | answer release resume =>
        right
        have hresume : resume ≠ .settle := by
          intro hr
          exact hnotNone (hsh.afterReap (by rw [hpc, hr]; rfl))
        have h : s.step services (.next quiet) = some { s with
            answers := s.answers ++ [(release, true)], pc := resume.pc } := by
          simp only [hnext, next, hpc]
        refine hp.down rfl h rfl rfl ?_ ?_
        · cases resume <;> simp_all [blocked, Resume.pc]
        · rw [hpc]
          cases resume <;> simp [Resume.pc, Pc.rank] at hresume ⊢
    | select =>
        by_cases hc : c = .interrupt
        · left
          exact ⟨hout, Or.inr hpc, by rw [hcontrols, hc]; rfl⟩
        · right
          refine @Pending.apply _ _ (.selectControl quiet) _ hp c rest .top rfl hcontrols hc ?_ ?_
          · simp
          · simp [step, selectStep, hpc, hout, hcontrols]
    | shutdown | failing | ended | failed => simp [blocked, hpc] at hfree
  · exact Or.inr (hp.emit hout)

/-! ## Blocked for good -/

/-- Handling a blocking message leads into a language call or the end. -/
theorem HandleShellRule.blocked (h : HandleShellRule services s item s')
    (hb : blocking item.request = true) : s'.blocked = true := by
  simp only [blocking, Bool.and_eq_true, Bool.or_eq_true, decide_eq_true_eq] at hb
  obtain ⟨hfields, hcase⟩ := hb
  cases h with
  | missing hmissing =>
      rw [hmissing] at hfields
      cases hfields
  | kernelInfo htype | kernelInfoFailed htype => simp [serviceCall, htype] at hcase
  | connect htype hcall | otherRequest hrequest htype hcall | ignored hrequest htype hcall =>
      simp [hcall, htype] at hcase
  | shutdown | comm | commInfo | call => rfl

/-- A turn of the loop does not free a blocked scheduler while its execution
is there. -/
theorem LoopRule.blocked (h : LoopRule services s l s') (hl : l.isOwn = true) (hsh : s.Shape)
    (hb : s.blocked = true) (hactive : s.active.isSome = true)
    (hactive' : s'.active.isSome = true) : s'.blocked = true := by
  cases h with
  | notReaped hpc hresult =>
      simp only [Shell.blocked, hpc, Bool.or_eq_true] at hb
      have hnot : s.taskEnded = false := by simp [taskEnded, hresult]
      rcases hb with hb | hb
      · rw [hnot] at hb
        cases hb
      · exact hb
  | settle hpc =>
      simp only [Shell.blocked, hpc] at hb
      exact hb
  | goOn hpc =>
      simp only [Shell.blocked, hpc] at hb
      exact hb
  | pop hpc hpop =>
      simp only [Shell.blocked, hpc, nextBlocks, hpop] at hb
      exact hb
  | idle hpc hpop =>
      simp only [Shell.blocked, hpc, nextBlocks, hpop] at hb
      cases hb
  | @handle _ it _ hpc h =>
      simp only [Shell.blocked, hpc] at hb
      cases h with
      | shell hex h => exact h.blocked hb
      | interrupted hex | missing hex | hold hex | execute hex =>
          -- an execute request is popped only when nothing is active
          rw [(hsh.handle hpc hex).1] at hactive
          cases hactive
  | reap => cases hactive'
  | reapFailed | leave | failing => rfl
  -- a closed channel and the returns of language calls are not its own steps
  | selectClosed | callFailed | commReturned | commInfoReturned | callReturned
  | shutdownReturned => cases hl
  | takeIncoming hpc | incomingDrained hpc | takeControl hpc | controlsDrained hpc
  | commFlushed hpc | park hpc | abortIncoming hpc | abort hpc | answer hpc
  | selectIncoming hpc | selectControl hpc | selectDone hpc | selectFailed hpc
  | selectTimeout hpc => simp [Shell.blocked, hpc] at hb

/-- Own steps do not free a blocked scheduler while its execution is there. -/
theorem blocked_step (hl : l.isOwn = true) (hsh : s.Shape) (hb : s.blocked = true)
    (h : s.step services l = some s') (hactive : s.active.isSome = true)
    (hactive' : s'.active.isSome = true) : s'.blocked = true := by
  cases step_rule h with
  | loop hout h => exact h.blocked hl hsh hb hactive hactive'
  | emit | commPump => exact hb
  | _ => cases hl

/-- As long as `item` is the active execution, the scheduler is blocked. -/
structure Trapped (services : Services) (item : QueueItem) (s : Shell) : Prop where
  reachable : Reachable services s
  started : item ∈ s.started
  blocked : ∀ a, s.active = some a → a.item = item → s.blocked = true

theorem Trapped.step (ht : Trapped services item s) (hl : l.isOwn = true)
    (h : s.step services l = some s') : Trapped services item s' := by
  have hturn := step_turn h
  have hacc := accounts_of_reachable ht.reachable
  refine ⟨Lib.Reachable.trans ht.reachable (Lib.Reachable.single h), ?_, ?_⟩
  · rcases hturn.started with hs | ⟨it, _, _, hs⟩
    · rw [hs]
      exact ht.started
    · rw [hs]
      exact List.mem_append_left _ ht.started
  · intro a' ha' hitem
    rcases hturn.active with hact | ⟨it, execution, n, hpc, _, hact⟩
    · obtain ⟨a, ha, hsame⟩ := hact.item ha'
      refine blocked_step hl hacc.1 (ht.blocked a ha (hsame.symm.trans hitem)) h ?_ ?_
      · rw [ha]
        rfl
      · rw [ha']
        rfl
    · -- a second execution of the same request would be a second start
      rw [hact] at ha'
      cases ha'
      obtain ⟨_, settled, dropped, hledger⟩ := hacc
      have hwait : it ∈ s.waiting := by simp [waiting, hpc, Pc.item]
      have heq : it = item := hitem
      exact absurd (heq ▸ ht.started) (hledger.nodup_started.2 it hwait)

theorem not_canInterrupt_of_trapped (ht : Trapped services item s) :
    ¬ CanInterrupt services s item := by
  rintro ⟨t, hreach, ⟨_, hpc, _⟩, a, ha, hitem⟩
  have htrap : Trapped services item t :=
    hreach.invariant ht (fun _ _ _ hl hinv hstep => hinv.step hl hstep)
  have hb := htrap.blocked a ha hitem
  rcases hpc with hpc | hpc <;> simp [blocked, hpc] at hb

/-! ## When an interrupt reaches the execution -/

/-- In every reachable state with an active execution and an interrupt waiting
for it, the scheduler comes to the interrupt by its own steps exactly when
it is not blocked. -/
theorem interrupt_reaches_iff (hr : Reachable services s) {a : ActiveExecution}
    (ha : s.active = some a) (hwaits : .interrupt ∈ s.controls) :
    CanInterrupt services s a.item ↔ s.blocked = false := by
  constructor
  · intro hcan
    by_contra hb
    have htrap : Trapped services a.item s :=
      ⟨hr, active_started hr a ha, fun _ _ _ => by simpa using hb⟩
    exact not_canInterrupt_of_trapped htrap hcan
  · intro hfree
    have hpending : Pending services a.item s := ⟨hr, ⟨a, ha, rfl⟩, hwaits, hfree⟩
    obtain ⟨t, hreach, hgood, hgoal⟩ :=
      reachesBy_of_progress (fun _ hp => Pending.progress hp) s hpending
    exact ⟨t, hreach, hgoal, hgood.active⟩

/-- A cell is started, and the kernel is interrupted. -/
def interruptCell : List Label :=
  popMessage (cell "a" 0 false) ++ [.next quiet, .control .interrupt]

/-- The interrupt of a running cell with no other request around. -/
theorem interrupt_reaches_running_cell :
    ∃ s a, run (Shell.step plainServices) {} interruptCell = some s ∧ s.active = some a ∧
      .interrupt ∈ s.controls ∧ CanInterrupt plainServices s a.item := by
  have hrun : (run (Shell.step plainServices) {} interruptCell).map
      (fun s => (s.active.isSome, decide (.interrupt ∈ s.controls), s.blocked)) =
        some (true, true, false) := by decide
  obtain ⟨s, hs, hview⟩ := Option.map_eq_some_iff.mp hrun
  simp only [Prod.mk.injEq, decide_eq_true_eq] at hview
  obtain ⟨hactive, hwaits, hfree⟩ := hview
  obtain ⟨a, ha⟩ := Option.isSome_iff_exists.mp hactive
  exact ⟨s, a, hs, ha, hwaits, (interrupt_reaches_iff ⟨_, hs⟩ ha hwaits).mpr hfree⟩

/-- A completion as a client sends it. -/
def completion : Inbound :=
  { message :=
      { header := [("msg_id", .string "c"), ("msg_type", .string "complete_request")]
        content := .object [("code", .string "pri"), ("cursor_pos", .number (.posInt 3))] }
    reply := 0
    identity := [] }

/-- A cell is started, a completion is handled, and the kernel is
interrupted while the language works on the completion. -/
def interruptBehindCompletion : List Label :=
  popMessage (cell "a" 0 false) ++ [.next quiet] ++ popMessage completion ++
    [.next quiet, .emit, .control .interrupt]

/-- The scheduler awaits `language.complete` and cannot come to the interrupt
of the running cell. -/
theorem interrupt_stuck_behind_completion :
    ∃ s a, run (Shell.step plainServices) {} interruptBehindCompletion = some s ∧
      s.active = some a ∧ .interrupt ∈ s.controls ∧
      ¬ CanInterrupt plainServices s a.item := by
  have hrun : (run (Shell.step plainServices) {} interruptBehindCompletion).map
      (fun s => (s.active.isSome, decide (.interrupt ∈ s.controls), s.blocked)) =
        some (true, true, true) := by decide
  obtain ⟨s, hs, hview⟩ := Option.map_eq_some_iff.mp hrun
  simp only [Prod.mk.injEq, decide_eq_true_eq] at hview
  obtain ⟨hactive, hwaits, hblocked⟩ := hview
  obtain ⟨a, ha⟩ := Option.isSome_iff_exists.mp hactive
  have hreach : Reachable plainServices s := ⟨_, hs⟩
  have htrap : Trapped plainServices a.item s :=
    ⟨hreach, active_started hreach a ha, fun _ _ _ => hblocked⟩
  exact ⟨s, a, hs, ha, hwaits, not_canInterrupt_of_trapped htrap⟩

end Shell

end Kernmini.Engine
