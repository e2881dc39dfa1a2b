/-
Kernmini.Engine.KernelTable — the shells table and the client routes of
the main loop, over whole runs.

`TableTurn` says, once for all of `Kernel.step`, how the two maps change
while the loop serves. Two invariants are read off it:

  * the parent shell keeps its entry as long as no control request deletes
    the empty id (`parent_throughout_iff`), which the loop does not refuse
    (`parent_deleted`);
  * every route leads to a shell of the table as long as no close with
    delete removes a shell that another client session is routed to
    (`routes_throughout_iff`); removing it leaves the other route behind
    (`route_left_dangling`).
-/
import Kernmini.Engine.KernelShells

namespace Kernmini.Engine

open Kernmini.Wire Kernmini.Lib

/-- The id of the child session that is being created. -/
def MainPc.creates : MainPc → Option String
  | .create id _ => some id
  | _ => none

@[simp] theorem After.creates_pc (after : After) : after.pc.creates = none := by
  cases after <;> rfl

namespace Kernel

variable {services : Services} {s s' : Kernel} {l : Label}

/-- The main loop has not returned. -/
def serving (s : Kernel) : Bool :=
  match s.pc with
  | .returning _ | .stopShells _ _ _ | .returned _ => false
  | _ => true

/-- The control request a step takes up. -/
def handledControl (s : Kernel) : Label → Option (Arrival .control)
  | .select (.control _) => s.control.head?
  | _ => none

/-- The subshell command a step takes up. -/
def handledCommand (s : Kernel) : Label → Option SessionCommand
  | .select (.command _) => s.commands.head?
  | _ => none

/-- The step handles a `delete_subshell_request` for the empty id. -/
def DeletesParent (s : Kernel) (l : Label) : Prop :=
  ∃ a, s.handledControl l = some a ∧ a.request.msgType = "delete_subshell_request" ∧
    deleteId a.request = ""

/-! ## How the table turns -/

/-- What a step of a serving loop does to the table and the routes. -/
inductive TableTurn (s : Kernel) (l : Label) (s' : Kernel) : Prop
  | keep (hshells : s'.shells = s.shells) (hroutes : s'.routeOverrides = s.routeOverrides)
      (hcreate : ∀ id, s'.pc.creates = some id →
        s.pc.creates = some id ∨ (id ≠ "" ∧ id ∉ s.shells))
  | ending (h : s'.serving = false)
  /-- a child session has been created -/
  | grow (id : String) (hid : s.pc.creates = some id)
      (hshells : s'.shells = s.shells.insert id s.tasks.length)
      (hroutes : s'.routeOverrides = s.routeOverrides ∨
        ∃ session, s'.routeOverrides = s.routeOverrides.insert session id)
      (hcreate : s'.pc.creates = none)
  /-- a client session is routed to a shell that exists -/
  | opened (session id : String) (hne : id ≠ "") (hmem : id ∈ s.shells)
      (hshells : s'.shells = s.shells)
      (hroutes : s'.routeOverrides = s.routeOverrides.insert session id)
      (hcreate : s'.pc.creates = none)
  /-- a shell is removed, with every route to it -/
  | shrink (id : String) (hcause : id ≠ "" ∨ DeletesParent s l)
      (hshells : s'.shells = s.shells.erase id)
      (hroutes : s'.routeOverrides = s.routeOverrides.retain (fun _ routed => routed ≠ id))
      (hcreate : s'.pc.creates = none)
  /-- a client session gives up its route, and perhaps the shell -/
  | closed (cell : TaskId) (session id : String) (delete : Bool)
      (hcommand : s.handledCommand l = some (.closeSubshell cell session id delete))
      (hroute : s.routeOverrides.lookup session = some id)
      (hroutes : s'.routeOverrides = s.routeOverrides.erase session)
      (hshells : s'.shells = s.shells ∨ (delete = true ∧ s'.shells = s.shells.erase id))
      (hcreate : s'.pc.creates = none)

/-- A step that touches neither map nor starts a creation. -/
theorem TableTurn.of_same (hshells : s'.shells = s.shells)
    (hroutes : s'.routeOverrides = s.routeOverrides)
    (hpc : s'.pc.creates = none ∨ s'.pc.creates = s.pc.creates) : TableTurn s l s' := by
  refine .keep hshells hroutes ?_
  intro id hid
  rcases hpc with hnone | hsame
  · rw [hnone] at hid
    cases hid
  · exact Or.inl (hsame ▸ hid)

theorem routeTo_table (id : String) (a : Arrival .shell) (after : After) :
    (s.routeTo id a after).shells = s.shells ∧
    (s.routeTo id a after).routeOverrides = s.routeOverrides ∧
    (s.routeTo id a after).pc.creates = none := by
  unfold routeTo
  split
  · exact ⟨rfl, rfl, rfl⟩
  · exact ⟨rfl, rfl, After.creates_pc after⟩

theorem created_table (id : String) (purpose : Creation) (result : Except Error Unit) :
    (s.created id purpose result).shells = s.shells ∧
    (s.created id purpose result).pc.creates = none ∧
    ((s.created id purpose result).routeOverrides = s.routeOverrides ∨
      (∃ session, (s.created id purpose result).routeOverrides =
        s.routeOverrides.insert session id) ∧ result = .ok ()) := by
  unfold created
  split
  · next a after _ =>
      obtain ⟨hshells, hroutes, hcreate⟩ := @routeTo_table s id a after
      exact ⟨hshells, hcreate, Or.inl hroutes⟩
  · next a after error => exact ⟨rfl, After.creates_pc after, Or.inl rfl⟩
  · next cell session _ => exact ⟨rfl, rfl, Or.inr ⟨⟨session, rfl⟩, rfl⟩⟩
  · exact ⟨rfl, rfl, Or.inl rfl⟩
  · exact ⟨rfl, rfl, Or.inl rfl⟩
  · exact ⟨rfl, rfl, Or.inl rfl⟩

theorem CreateRule.table {m m' : Kernel} {id : String} {purpose : Creation}
    (h : CreateRule m id purpose m') (hshells : m.shells = s.shells)
    (hroutes : m.routeOverrides = s.routeOverrides) : TableTurn s l m' := by
  cases h with
  | @refused error =>
      obtain ⟨hs, hc, hr⟩ := @created_table m id purpose (.error error)
      rcases hr with hr | ⟨_, hok⟩
      · exact .of_same (hs.trans hshells) (hr.trans hroutes) (Or.inl hc)
      · cases hok
  | found hid hmem =>
      obtain ⟨hs, hc, hr⟩ := @created_table m id purpose (.ok ())
      rcases hr with hr | ⟨⟨session, hr⟩, _⟩
      · exact .of_same (hs.trans hshells) (hr.trans hroutes) (Or.inl hc)
      · exact .opened session id hid (hshells ▸ hmem) (hs.trans hshells) (hroutes ▸ hr) hc
  | creating hid hnew =>
      refine .keep hshells hroutes ?_
      intro id' hid'
      cases hid'
      exact Or.inr ⟨hid, hshells ▸ hnew⟩

theorem CommandRule.table {c : SessionCommand} {rest : List SessionCommand}
    (hcommand : s.handledCommand l = some c) (hpc : s.pc = .select)
    (h : CommandRule { s with commands := rest } c s') : TableTurn s l s' := by
  have hnone : s.pc.creates = none := by rw [hpc]; rfl
  cases h with
  | refused => exact .of_same rfl rfl (Or.inr rfl)
  | openSubshell h => exact h.table rfl rfl
  | close hroute => exact .closed _ _ _ _ hcommand hroute rfl (Or.inl rfl) hnone
  | closeDelete hroute hlookup =>
      exact .closed _ _ _ _ hcommand hroute rfl (Or.inr ⟨rfl, rfl⟩) hnone

theorem ControlRule.table {a : Arrival .control} {rest : List (Arrival .control)}
    (hcontrol : s.handledControl l = some a) (hpc : s.pc = .select)
    (h : ControlRule { s with control := rest } a s') : TableTurn s l s' := by
  have hnone : s.pc.creates = none := by rw [hpc]; rfl
  cases h with
  | shutdown htype => exact .ending rfl
  | create htype h => exact h.table rfl rfl
  | delete htype hlookup =>
      by_cases hid : deleteId a.request = ""
      · exact .shrink _ (Or.inr ⟨a, hcontrol, htype, hid⟩) rfl rfl hnone
      · exact .shrink _ (Or.inl hid) rfl rfl hnone
  | pending | debug => exact .of_same rfl rfl (Or.inl rfl)
  | reply | ignored => exact .of_same rfl rfl (Or.inr rfl)

theorem step_table (h : s.step services l = some s') : TableTurn s l s' := by
  cases step_rule h with
  | route hpc h =>
      cases h with
      | known =>
          obtain ⟨hs, hr, hc⟩ := @routeTo_table s (s.routeId _) _ _
          exact .of_same hs hr (Or.inl hc)
      | create hnew h => exact h.table rfl rfl
  | deliver | undelivered => exact .of_same rfl rfl (Or.inl (After.creates_pc _))
  -- these end the loop, or go on after its end
  | interruptFailed | releaseClosed | unreleased | drain | returned | background | failed
  | reapedParent | reapedError | terminate => exact .ending rfl
  | reaped hpc hlookup hended hid =>
      exact .shrink _ (Or.inl hid) rfl rfl (by rw [hpc]; rfl)
  | takeCommand hpc hcommands h => exact h.table (by simp [handledCommand, hcommands]) hpc
  | takeControl hpc hcontrol h => exact h.table (by simp [handledControl, hcontrol]) hpc
  | @childCreated id purpose hpc =>
      obtain ⟨hs, hc, hr⟩ := @created_table (s.spawnShell id) id purpose (.ok ())
      refine .grow id (by rw [hpc]; rfl) hs ?_ hc
      rcases hr with hr | ⟨hr, _⟩
      · exact Or.inl hr
      · exact Or.inr hr
  | @childFailed id purpose error hpc =>
      obtain ⟨hs, hc, hr⟩ := @created_table s id purpose (.error error)
      rcases hr with hr | ⟨_, hok⟩
      · exact .of_same hs hr (Or.inl hc)
      · cases hok
  | _ =>
      first
        | exact .of_same rfl rfl (Or.inl rfl)
        | exact .of_same rfl rfl (Or.inr rfl)

/-- The loop does not come back once it has returned. -/
theorem serving_of_step (h : s.step services l = some s') (hserving : s'.serving = true) :
    s.serving = true := by
  cases step_rule h with
  | drain | stopPut | stopClosed | stopped | returned => cases hserving
  | _ =>
      first
        | exact hserving
        | simp [serving, *]

/-! ## What the maps satisfy in every run -/

/-- Ids in creation and in routes are proper, and an id in creation is new. -/
structure TableInv (s : Kernel) : Prop where
  creates : ∀ id, s.pc.creates = some id → id ≠ "" ∧ id ∉ s.shells
  routes : ∀ session id, s.routeOverrides.lookup session = some id → id ≠ ""

theorem lookup_insert_cases {κ α : Type} [DecidableEq κ] {m : HashMap κ α} {k k' : κ} {v v' : α}
    (h : (m.insert k v).lookup k' = some v') :
    (k' = k ∧ v' = v) ∨ m.lookup k' = some v' := by
  by_cases hk : k' = k
  · subst hk
    rw [AList.lookup_insert] at h
    cases h
    exact Or.inl ⟨rfl, rfl⟩
  · rw [AList.lookup_insert_ne hk] at h
    exact Or.inr h

theorem lookup_of_erase {κ α : Type} [DecidableEq κ] {m : HashMap κ α} {k k' : κ} {v : α}
    (h : (m.erase k).lookup k' = some v) : k' ≠ k ∧ m.lookup k' = some v := by
  by_cases hk : k' = k
  · subst hk
    rw [AList.lookup_erase] at h
    cases h
  · rw [AList.lookup_erase_ne hk] at h
    exact ⟨hk, h⟩

theorem tableInv_init : TableInv {} where
  creates := by intro id hid; cases hid
  routes := by intro session id h; cases h

/-- While it serves, the loop keeps `TableInv`. -/
theorem tableInv_step (hinv : s.serving = true → TableInv s)
    (h : s.step services l = some s') : s'.serving = true → TableInv s' := by
  intro hserving'
  have hserving := serving_of_step h hserving'
  obtain ⟨hcreates, hroutes⟩ := hinv hserving
  have hnone : ∀ {P : String → Prop}, s'.pc.creates = none →
      ∀ id, s'.pc.creates = some id → P id := by
    intro P hc id hid
    rw [hc] at hid
    cases hid
  cases step_table h with
  | keep hs hr hc =>
      refine ⟨?_, by rw [hr]; exact hroutes⟩
      intro id hid
      rw [hs]
      rcases hc id hid with hold | hnew
      · exact hcreates id hold
      · exact hnew
  | ending hover =>
      rw [hover] at hserving'
      cases hserving'
  | grow id hid hs hr hc =>
      refine ⟨hnone hc, ?_⟩
      intro session id' hlookup
      rcases hr with hr | ⟨session', hr⟩
      · exact hroutes session id' (hr ▸ hlookup)
      · rw [hr] at hlookup
        rcases lookup_insert_cases hlookup with ⟨_, heq⟩ | hold
        · rw [heq]
          exact (hcreates id hid).1
        · exact hroutes session id' hold
  | opened session id hne hmem hs hr hc =>
      refine ⟨hnone hc, ?_⟩
      intro session' id' hlookup
      rw [hr] at hlookup
      rcases lookup_insert_cases hlookup with ⟨_, heq⟩ | hold
      · rw [heq]
        exact hne
      · exact hroutes session' id' hold
  | shrink id hcause hs hr hc =>
      refine ⟨hnone hc, ?_⟩
      intro session id' hlookup
      rw [hr] at hlookup
      exact hroutes session id' (HashMap.mem_retain.mp hlookup).1
  | closed cell session id delete hcommand hroute hr hs hc =>
      refine ⟨hnone hc, ?_⟩
      intro session' id' hlookup
      rw [hr] at hlookup
      exact hroutes session' id' (lookup_of_erase hlookup).2

/-! ## The parent shell -/

/-- As long as the loop has not returned, the empty id names the parent
session's shell. -/
def ParentPresent (s : Kernel) : Prop := s.serving = true → s.shells.lookup "" = some 0

/-- Deleting the empty id removes the parent from the table. -/
theorem lookup_of_deletesParent (hd : DeletesParent s l) (h : s.step services l = some s') :
    s'.serving = true ∧ s'.shells.lookup "" = none := by
  obtain ⟨a, hhandled, htype, hid⟩ := hd
  cases step_rule h with
  | @takeControl fresh a' rest m hpc hcontrol h =>
      have heq : a' = a := by simpa [handledControl, hcontrol] using hhandled
      subst heq
      have hserving : s.serving = true := by rw [serving, hpc]
      cases h with
      | delete _ hlookup => exact ⟨hserving, hid ▸ AList.lookup_erase _ _⟩
      | reply hdelete => exact ⟨hserving, hid ▸ hdelete htype⟩
      | ignored hrequest =>
          rw [Message.isRequest, htype] at hrequest
          exact absurd hrequest (by decide)
      | shutdown hother | pending hother | create hother | debug hother => simp [htype] at hother
  | _ => cases hhandled

theorem parentPresent_step_iff (hinv : s.serving = true → TableInv s) (hp : s.ParentPresent)
    (h : s.step services l = some s') : s'.ParentPresent ↔ ¬ DeletesParent s l := by
  constructor
  · intro hp' hd
    obtain ⟨hserving', hnone⟩ := lookup_of_deletesParent hd h
    rw [hp' hserving'] at hnone
    cases hnone
  · intro hspare hserving'
    have hserving := serving_of_step h hserving'
    have hparent := hp hserving
    obtain ⟨hcreates, hroutes⟩ := hinv hserving
    cases step_table h with
    | keep hs hr hc => rw [hs, hparent]
    | ending hover =>
        rw [hover] at hserving'
        cases hserving'
    | grow id hid hs hr hc =>
        have hne : "" ≠ id := (hcreates id hid).1.symm
        rw [hs, AList.lookup_insert_ne hne, hparent]
    | opened session id hne hmem hs hr hc => rw [hs, hparent]
    | shrink id hcause hs hr hc =>
        have hne : id ≠ "" := by
          rcases hcause with hne | hd
          · exact hne
          · exact absurd hd hspare
        rw [hs, AList.lookup_erase_ne hne.symm, hparent]
    | closed cell session id delete hcommand hroute hr hs hc =>
        have hne : id ≠ "" := hroutes session id hroute
        rcases hs with hs | ⟨_, hs⟩
        · rw [hs, hparent]
        · rw [hs, AList.lookup_erase_ne hne.symm, hparent]

/-- In every run the parent shell is in the table throughout exactly when no
`delete_subshell_request` for the empty id is handled. -/
theorem parent_throughout_iff {ls : List Label} {t : Kernel}
    (hrun : run (Kernel.step services) {} ls = some t) :
    Throughout (Kernel.step services) ParentPresent {} ls ↔
      StepsMeet (Kernel.step services) (fun s l => ¬ DeletesParent s l) {} ls :=
  throughout_iff_stepsMeet (fun _ _ _ hinv h => tableInv_step hinv h)
    (fun _ _ _ hinv hp h => parentPresent_step_iff hinv hp h) hrun
    (fun _ => tableInv_init) (fun _ => rfl)

/-- A kernel with subshells, for the runs on fixed inputs below. -/
def subshellServices : Services := { supportsSubshells := true, connection := .null }

/-- A request as a client sends it on the control channel. -/
def controlRequest (msgType : String) (content : Value) : Inbound :=
  { message := { header := [("msg_type", .string msgType)], content }
    reply := 0
    identity := [] }

/-- A subshell is created and deleted, and the parent stays. -/
def createAndDelete : List Label :=
  [.receiveControl (controlRequest "create_subshell_request"
      (.object [("subshell_id", .string "x")])),
    .select (.control "u"), .childCreated (.ok ()), .emit,
    .receiveControl (controlRequest "delete_subshell_request"
      (.object [("subshell_id", .string "x")])),
    .select (.control "u")]

theorem parent_throughout_named_delete :
    ∃ t, run (Kernel.step subshellServices) {} createAndDelete = some t ∧
      t.shells.lookup "" = some 0 ∧
      (Throughout (Kernel.step subshellServices) ParentPresent {} createAndDelete ↔
        StepsMeet (Kernel.step subshellServices) (fun s l => ¬ DeletesParent s l) {}
          createAndDelete) := by
  have hrun : (run (Kernel.step subshellServices) {} createAndDelete).map
      (fun t => t.shells.lookup "") = some (some 0) := by decide
  obtain ⟨t, ht, hlookup⟩ := Option.map_eq_some_iff.mp hrun
  exact ⟨t, ht, hlookup, parent_throughout_iff ht⟩

/-- A `delete_subshell_request` without an id removes the parent shell, and
the loop goes on serving. -/
theorem parent_deleted :
    ∃ t, run (Kernel.step subshellServices) {}
        [.receiveControl (controlRequest "delete_subshell_request" (.object [])),
          .select (.control "u")] = some t ∧
      ¬ t.ParentPresent := by
  have hrun : (run (Kernel.step subshellServices) {}
      [.receiveControl (controlRequest "delete_subshell_request" (.object [])),
        .select (.control "u")]).map (fun t => (t.serving, t.shells.lookup "")) =
        some (true, none) := by decide
  obtain ⟨t, ht, hview⟩ := Option.map_eq_some_iff.mp hrun
  obtain ⟨hserving, hnone⟩ := Prod.mk.inj hview
  refine ⟨t, ht, fun hp => ?_⟩
  have hparent := hp hserving
  rw [hnone] at hparent
  cases hparent

/-! ## Client routes -/

/-- As long as the loop has not returned, every route leads to a subshell of
the table. -/
def RoutesLive (s : Kernel) : Prop :=
  s.serving = true → ∀ session id, s.routeOverrides.lookup session = some id →
    id ≠ "" ∧ id ∈ s.shells

/-- A close with delete names a subshell that no other client session is
routed to. -/
def ClosesOwn (s : Kernel) (l : Label) : Prop :=
  ∀ cell session id, s.handledCommand l = some (.closeSubshell cell session id true) →
    s.routeOverrides.lookup session = some id →
      ∀ other, s.routeOverrides.lookup other = some id → other = session

/-- On a concrete run the condition can be evaluated. -/
def closesOwn (s : Kernel) (l : Label) : Bool :=
  match s.handledCommand l with
  | some (.closeSubshell _ session id true) =>
      decide (s.routeOverrides.lookup session = some id →
        ∀ route ∈ s.routeOverrides.entries, route.2 = id → route.1 = session)
  | _ => true

theorem closesOwn_iff : s.closesOwn l = true ↔ s.ClosesOwn l := by
  unfold closesOwn ClosesOwn
  split
  · next cell session id hcommand =>
      simp only [hcommand, decide_eq_true_eq]
      constructor
      · rintro hall cell' session' id' ⟨⟩ hroute other hother
        exact hall hroute _ (AList.mem_lookup_iff.mp hother) rfl
      · intro hall hroute route hmem hid
        refine hall cell session id rfl hroute route.1 (AList.mem_lookup_iff.mpr ?_)
        rw [← hid]
        exact hmem
  · next hnot => exact ⟨fun _ cell session id hcommand => absurd hcommand (hnot _ _ _), fun _ => rfl⟩

instance (s : Kernel) (l : Label) : Decidable (s.ClosesOwn l) :=
  decidable_of_iff _ closesOwn_iff

/-- Closing with delete removes the shell and one route to it. -/
theorem maps_of_close {cell k : TaskId} {session id : String}
    (hcommand : s.handledCommand l = some (.closeSubshell cell session id true))
    (hroute : s.routeOverrides.lookup session = some id) (hshell : s.shells.lookup id = some k)
    (h : s.step services l = some s') :
    s'.serving = true ∧ s'.shells = s.shells.erase id ∧
      s'.routeOverrides = s.routeOverrides.erase session := by
  cases l with
  | select b =>
      cases b with
      | command fresh =>
          simp only [step] at h
          split at h
          · next hpc _ =>
              simp only [selectStep] at h
              split at h
              · next c rest hcommands =>
                  split at h
                  · have heq : c = .closeSubshell cell session id true := by
                      simpa [handledCommand, hcommands] using hcommand
                    cases h
                    rw [heq]
                    simp only [handleCommand, hroute, hshell, ne_eq, not_true_eq_false, if_false,
                      if_true]
                    exact ⟨by simp [serving, stopInBackground, hpc], rfl, rfl⟩
                  · cases h
              · cases h
          · cases h
      | _ => cases hcommand
  | _ => cases hcommand

theorem routesLive_step_iff (hinv : s.serving = true → TableInv s) (hp : s.RoutesLive)
    (h : s.step services l = some s') : s'.RoutesLive ↔ ClosesOwn s l := by
  constructor
  · intro hp' cell session id hcommand hroute other hother
    by_contra hne
    have hserving : s.serving = true := by
      by_contra hover
      cases l with
      | select b =>
          simp only [step] at h
          split at h
          · next hpc _ => simp [serving, hpc] at hover
          · cases h
      | _ => cases hcommand
    obtain ⟨k, hk⟩ := Option.isSome_iff_exists.mp
      (AList.lookup_isSome.mpr (hp hserving session id hroute).2)
    obtain ⟨hserving', hshells, hroutes⟩ := maps_of_close hcommand hroute hk h
    have hlive : s'.routeOverrides.lookup other = some id := by
      rw [hroutes, AList.lookup_erase_ne hne, hother]
    have hmem := (hp' hserving' other id hlive).2
    rw [hshells, AList.mem_erase] at hmem
    exact hmem.1 rfl
  · intro hok hserving' session id hlookup
    have hserving := serving_of_step h hserving'
    have hold := hp hserving
    obtain ⟨hcreates, _⟩ := hinv hserving
    cases step_table h with
    | keep hs hr hc =>
        rw [hr] at hlookup
        rw [hs]
        exact hold session id hlookup
    | ending hover =>
        rw [hover] at hserving'
        cases hserving'
    | grow new hid hs hr hc =>
        rw [hs, AList.mem_insert]
        rcases hr with hr | ⟨session', hr⟩
        · rw [hr] at hlookup
          obtain ⟨hne, hmem⟩ := hold session id hlookup
          exact ⟨hne, Or.inr hmem⟩
        · rw [hr] at hlookup
          rcases lookup_insert_cases hlookup with ⟨_, heq⟩ | hbefore
          · rw [heq]
            exact ⟨(hcreates new hid).1, Or.inl rfl⟩
          · obtain ⟨hne, hmem⟩ := hold session id hbefore
            exact ⟨hne, Or.inr hmem⟩
    | opened session' id' hne hmem hs hr hc =>
        rw [hr] at hlookup
        rw [hs]
        rcases lookup_insert_cases hlookup with ⟨_, heq⟩ | hbefore
        · rw [heq]
          exact ⟨hne, hmem⟩
        · exact hold session id hbefore
    | shrink gone hcause hs hr hc =>
        rw [hr] at hlookup
        obtain ⟨hbefore, hkept⟩ := HashMap.mem_retain.mp hlookup
        obtain ⟨hne, hmem⟩ := hold session id hbefore
        rw [hs, AList.mem_erase]
        exact ⟨hne, by simpa using hkept, hmem⟩
    | closed cell session' gone delete hcommand hroute hr hs hc =>
        rw [hr] at hlookup
        obtain ⟨hother, hbefore⟩ := lookup_of_erase hlookup
        obtain ⟨hne, hmem⟩ := hold session id hbefore
        refine ⟨hne, ?_⟩
        rcases hs with hs | ⟨hdelete, hs⟩
        · rw [hs]
          exact hmem
        · rw [hs, AList.mem_erase]
          refine ⟨?_, hmem⟩
          intro heq
          rw [hdelete] at hcommand
          exact hother (hok cell session' gone hcommand hroute session (heq ▸ hbefore))

theorem routesLive_init : RoutesLive {} := by
  intro _ session id h
  cases h

/-- In every run all routes are live throughout exactly when every handled
close with delete names a subshell of its own client session only. -/
theorem routes_throughout_iff {ls : List Label} {t : Kernel}
    (hrun : run (Kernel.step services) {} ls = some t) :
    Throughout (Kernel.step services) RoutesLive {} ls ↔
      StepsMeet (Kernel.step services) ClosesOwn {} ls :=
  throughout_iff_stepsMeet (fun _ _ _ hinv h => tableInv_step hinv h)
    (fun _ _ _ hinv hp h => routesLive_step_iff hinv hp h) hrun
    (fun _ => tableInv_init) routesLive_init

/-- Client session `A` opens the subshell `x`. -/
def openRoute : List Label :=
  [.command (.openSubshell 0 "A" (some "x")), .select (.command "u"), .childCreated (.ok ())]

/-- Client session `B` opens `y`, and `A` closes its own with delete. -/
def closeOwn : List Label :=
  openRoute ++
    [.command (.openSubshell 0 "B" (some "y")), .select (.command "u"), .childCreated (.ok ()),
      .command (.closeSubshell 0 "A" "x" true), .select (.command "u")]

theorem routes_throughout_close :
    ∃ t, run (Kernel.step subshellServices) {} closeOwn = some t ∧
      t.routeOverrides.entries = [⟨"B", "y"⟩] ∧ t.shells.lookup "x" = none ∧
      Throughout (Kernel.step subshellServices) RoutesLive {} closeOwn := by
  obtain ⟨t, ht, hroutes, hgone⟩ : ∃ t, run (Kernel.step subshellServices) {} closeOwn = some t ∧
      t.routeOverrides.entries = [⟨"B", "y"⟩] ∧ t.shells.lookup "x" = none :=
    ⟨_, rfl, rfl, rfl⟩
  exact ⟨t, ht, hroutes, hgone, (routes_throughout_iff ht).mpr (by decide +kernel)⟩

/-- Client sessions `A` and `B` share the subshell `x`, and `A` closes it with
delete. -/
def closeShared : List Label :=
  openRoute ++
    [.command (.openSubshell 0 "B" (some "x")), .select (.command "u"),
      .command (.closeSubshell 0 "A" "x" true), .select (.command "u")]

/-- The route of `B` is left behind. -/
theorem route_left_dangling :
    ∃ t, run (Kernel.step subshellServices) {} closeShared = some t ∧ ¬ t.RoutesLive := by
  have hrun : (run (Kernel.step subshellServices) {} closeShared).map
      (fun t => (t.serving, t.routeOverrides.lookup "B", t.shells.lookup "x")) =
        some (true, some "x", none) := by decide
  obtain ⟨t, ht, hview⟩ := Option.map_eq_some_iff.mp hrun
  simp only [Prod.mk.injEq] at hview
  obtain ⟨hserving, hroute, hgone⟩ := hview
  refine ⟨t, ht, fun hlive => ?_⟩
  have hmem := (hlive hserving "B" "x" hroute).2
  exact AList.lookup_eq_none.mp hgone hmem

end Kernel

end Kernmini.Engine
