/-
Kernmini.Transport.RouterTheorems — the registry of stdin peers over every
interleaving of connections and waits.

  * the registry is a function of what was inserted and what was removed
    (`Kept.registered`): an identity leads to the connection inserted last
    under it, unless that one was removed;
  * a waiter that is parked without a notification waits for an identity
    whose connection, if there is one, has not notified yet (`NoneMissed`).
-/
import Kernmini.Transport.RouterWaits

namespace Kernmini.Transport

open Kernmini.Wire Kernmini.Engine Kernmini.Lib

/-! ## The registry -/

namespace RouterPeers

variable (peers : RouterPeers) (identity identity' : Bytes) (k : ReplySink)

theorem get_insert : (peers.insert identity k).get identity' =
    if identity' = identity then some k else peers.get identity' := by
  by_cases heq : identity' = identity
  · subst heq
    simp [get, insert]
  · simp only [get, insert, if_neg heq]
    exact AList.lookup_insert_ne heq

/-- Removing compares the connection, and not only the identity. -/
theorem get_remove : (peers.remove identity k).get identity' =
    if identity' = identity ∧ peers.get identity = some k then none else peers.get identity' := by
  by_cases hk : peers.get identity = some k
  · rw [remove, if_pos hk]
    by_cases heq : identity' = identity
    · subst heq
      rw [if_pos ⟨rfl, hk⟩]
      exact AList.lookup_erase _ _
    · simp only [get, heq, false_and, if_false]
      exact AList.lookup_erase_ne heq
  · rw [remove, if_neg hk, if_neg (fun h => hk h.2)]

end RouterPeers

/-! ## What a run did -/

variable {ω : Type*}

namespace RegistryLabel

def insertedUnder (identity : Bytes) : RegistryLabel ω → Option ReplySink
  | .connect k identity' => if identity' = identity then some k else none
  | _ => none

def removed : RegistryLabel ω → Option ReplySink
  | .unregister k => some k
  | _ => none

def announced : RegistryLabel ω → Option ReplySink
  | .announce k => some k
  | _ => none

/-- The steps of a call of `wait`. -/
inductive OfWait (w : ω) : RegistryLabel ω → Prop
  | enable : OfWait w (.enable w)
  | look : OfWait w (.look w)
  | retry : OfWait w (.retry w)

end RegistryLabel

/-- The connection that was inserted last under the identity. -/
def newest (identity : Bytes) (ls : List (RegistryLabel ω)) : Option ReplySink :=
  (ls.filterMap (RegistryLabel.insertedUnder identity)).getLast?

/-- The connections whose removal is complete. -/
def removedIn (ls : List (RegistryLabel ω)) : List ReplySink := ls.filterMap RegistryLabel.removed

/-- The connections that have issued the notification of their insertion. -/
def announcedIn (ls : List (RegistryLabel ω)) : List ReplySink :=
  ls.filterMap RegistryLabel.announced

theorem newest_concat (identity : Bytes) (ls : List (RegistryLabel ω)) (l : RegistryLabel ω) :
    newest identity (ls ++ [l]) = (l.insertedUnder identity).or (newest identity ls) := by
  cases h : l.insertedUnder identity <;> simp [newest, h]

theorem removedIn_concat (ls : List (RegistryLabel ω)) (l : RegistryLabel ω) :
    removedIn (ls ++ [l]) = removedIn ls ++ l.removed.toList := by
  cases h : l.removed <;> simp [removedIn, h]

theorem announcedIn_concat (ls : List (RegistryLabel ω)) (l : RegistryLabel ω) :
    announcedIn (ls ++ [l]) = announcedIn ls ++ l.announced.toList := by
  cases h : l.announced <;> simp [announcedIn, h]

namespace Registry

variable {s t : Registry ω} {l : RegistryLabel ω} {ls : List (RegistryLabel ω)}

@[simp] theorem setConnection_peers (k : ReplySink) (c : Connection) :
    (s.setConnection k c).peers = s.peers := rfl

@[simp] theorem notifyWaiters_peers : s.notifyWaiters.peers = s.peers := rfl

@[simp] theorem notifyWaiters_connections : s.notifyWaiters.connections = s.connections := rfl

@[simp] theorem setWait_waits_self [DecidableEq ω] (w : ω) (wait : Option Wait) :
    (s.setWait w wait).waits w = wait := Function.update_self ..

@[simp] theorem setWait_waits_of_ne [DecidableEq ω] {w w' : ω} (h : w' ≠ w) (wait : Option Wait) :
    (s.setWait w wait).waits w' = s.waits w' := Function.update_of_ne h ..

/-! ## What a step does -/

/-- What a step does to the connections; the steps of a `wait` do nothing. -/
inductive Move (s : Registry ω) : RegistryLabel ω → Registry ω → Prop
  | connect (k : ReplySink) (identity : Bytes) (hnew : s.connections k = none) :
      Move s (.connect k identity)
        { s.setConnection k { identity } with peers := s.peers.insert identity k }
  | announce (k : ReplySink) (c : Connection) (hc : s.connections k = some c) :
      Move s (.announce k) (s.setConnection k { c with pc := .serving }).notifyWaiters
  | unregister (k : ReplySink) (c : Connection) (hc : s.connections k = some c)
      (hpc : c.pc = .removing) :
      Move s (.unregister k)
        { s.setConnection k { c with pc := .ended } with peers := s.peers.remove c.identity k }
  /-- a connection ends, registered or not -/
  | close (l : RegistryLabel ω) (k : ReplySink) (c c' : Connection) (hc : s.connections k = some c)
      (hpc : c.pc ≠ .announcing) (hid : c'.identity = c.identity) (hpc' : c'.pc ≠ .announcing)
      (hins : ∀ identity, l.insertedUnder identity = none) (hrem : l.removed = none)
      (hann : l.announced = none) : Move s l (s.setConnection k c')
  | wait (l : RegistryLabel ω) (waits : ω → Option Wait)
      (hins : ∀ identity, l.insertedUnder identity = none) (hrem : l.removed = none)
      (hann : l.announced = none) : Move s l { s with waits := waits }

theorem move_of_step [DecidableEq ω] (h : step s l = some t) : Move s l t := by
  cases l with
  | connect k identity =>
      simp only [step] at h
      split at h
      · next hnew =>
          cases h
          exact .connect k identity hnew
      · cases h
  | announce k =>
      simp only [step] at h
      split at h
      · next c hc =>
          split at h
          · cases h
            exact .announce k c hc
          · cases h
      · cases h
  | lose k error =>
      simp only [step] at h
      split at h
      · next c hc =>
          split at h
          · next hpc =>
              cases h
              exact .close _ k c _ hc (by simp [hpc]) rfl (by simp) (fun _ => rfl) rfl rfl
          · cases h
      · cases h
  | unregister k =>
      simp only [step] at h
      split at h
      · next c hc =>
          split at h
          · next hpc =>
              cases h
              exact .unregister k c hc hpc
          · cases h
      · cases h
  | abort k =>
      simp only [step] at h
      split at h
      · next c hc =>
          split at h
          · next hpc =>
              cases h
              refine .close _ k c _ hc ?_ rfl (by simp) (fun _ => rfl) rfl rfl
              rcases hpc with hpc | hpc <;> simp [hpc]
          · cases h
      · cases h
  | wait | retry | drop =>
      simp only [step] at h
      split at h
      · cases h
        exact .wait _ _ (fun _ => rfl) rfl rfl
      · cases h
  | enable | look =>
      simp only [step] at h
      split at h
      · obtain ⟨waiter, _, rfl⟩ := Option.map_eq_some_iff.mp h
        exact .wait _ _ (fun _ => rfl) rfl rfl
      · cases h

/-! ## The registry of a run -/

/-- What the registry and the connections are, after the labels `ls`. -/
structure Kept (ls : List (RegistryLabel ω)) (s : Registry ω) : Prop where
  registered : ∀ identity,
    s.peers.get identity = (newest identity ls).filter (fun k => k ∉ removedIn ls)
  newest : ∀ identity k, newest identity ls = some k →
    ∃ c, s.connections k = some c ∧ c.identity = identity
  removed : ∀ k ∈ removedIn ls, ∃ c, s.connections k = some c
  announced : ∀ k ∈ announcedIn ls, ∃ c, s.connections k = some c ∧ c.pc ≠ .announcing

theorem kept_nil : Kept [] ({} : Registry ω) := by
  constructor
  · intro identity
    rfl
  · simp [Transport.newest]
  · simp [removedIn]
  · simp [announcedIn]

theorem Kept.of_unlisted (hk : Kept ls s) (hins : ∀ identity, l.insertedUnder identity = none)
    (hrem : l.removed = none) (hann : l.announced = none) : Kept (ls ++ [l]) s := by
  obtain ⟨hreg, hnew, hremoved, hannounced⟩ := hk
  constructor
  · simpa [newest_concat, removedIn_concat, hins, hrem] using hreg
  · simpa [newest_concat, hins] using hnew
  · simpa [removedIn_concat, hrem] using hremoved
  · simpa [announcedIn_concat, hann] using hannounced

/-- What is known of a connection stays so. -/
theorem exists_setConnection {P : Connection → Prop} {k k' : ReplySink} {c : Connection}
    (hk' : ∃ c, s.connections k' = some c ∧ P c)
    (hP : ∀ old, s.connections k = some old → P old → P c) :
    ∃ c', (s.setConnection k c).connections k' = some c' ∧ P c' := by
  obtain ⟨old, hold, hPold⟩ := hk'
  by_cases heq : k' = k
  · subst heq
    exact ⟨c, by simp [setConnection], hP old hold hPold⟩
  · exact ⟨old, by simpa [setConnection, heq] using hold, hPold⟩

/-- A connection goes on, under the identity it has. -/
theorem Kept.setConnection (hk : Kept ls s) {k : ReplySink} {c c' : Connection}
    (hc : s.connections k = some c) (hid : c'.identity = c.identity)
    (hpc : c'.pc ≠ .announcing) : Kept ls (s.setConnection k c') := by
  obtain ⟨hreg, hnew, hremoved, hannounced⟩ := hk
  refine ⟨hreg, fun identity k' hk' => ?_, fun k' hk' => ?_, fun k' hk' => ?_⟩
  · refine exists_setConnection (hnew identity k' hk') fun old hold hsame => ?_
    rw [hc] at hold
    cases hold
    rw [hid, hsame]
  · have htrue := hremoved k' hk'
    simpa using exists_setConnection (P := fun _ => True) (by simpa using htrue) (by simp)
  · exact exists_setConnection (hannounced k' hk') fun _ _ _ => hpc

/-- The removal of a connection takes away its own entry only. -/
theorem Kept.get_remove (hkept : Kept ls s) {k : ReplySink} {c : Connection}
    (hc : s.connections k = some c) (identity : Bytes) :
    (s.peers.remove c.identity k).get identity =
      (Transport.newest identity ls).filter (fun k' => k' ∉ removedIn ls ++ [k]) := by
  have hget := hkept.registered identity
  rw [RouterPeers.get_remove]
  cases hlast : Transport.newest identity ls with
  | none =>
      rw [hlast, Option.filter_none] at hget
      simp [hget]
  | some last =>
      rw [hlast, Option.filter_some] at hget
      by_cases heq : last = k
      · -- `k` is the one inserted last, so it is under its own identity
        obtain ⟨c', hc', hid⟩ := hkept.newest identity last hlast
        rw [heq, hc] at hc'
        cases hc'
        simp [Option.filter_some, heq, hid, hget]
      · have hother : s.peers.get identity ≠ some k := by
          rw [hget]
          split <;> simp [heq]
        have hcond : ¬ (identity = c.identity ∧ s.peers.get c.identity = some k) :=
          fun hboth => hother (hboth.1 ▸ hboth.2)
        rw [if_neg hcond, hget]
        simp [Option.filter_some, heq]

theorem Kept.step [DecidableEq ω] (hkept : Kept ls s) (h : s.step l = some t) :
    Kept (ls ++ [l]) t := by
  cases move_of_step h with
  | connect k identity hnew =>
      obtain ⟨hreg, hnewest, hremoved, hannounced⟩ := hkept
      have hvacuous : ∀ {P : Connection → Prop} old, s.connections k = some old → P old →
          P { identity } := fun old hold => by simp [hnew] at hold
      have hk : k ∉ removedIn ls := fun hmem => by simpa [hnew] using hremoved k hmem
      constructor
      · intro identity'
        show (s.peers.insert identity k).get identity' = _
        rw [RouterPeers.get_insert, newest_concat, removedIn_concat]
        by_cases heq : identity' = identity
        · simp [heq, RegistryLabel.insertedUnder, RegistryLabel.removed, Option.filter_some, hk]
        · simpa [heq, Ne.symm heq, RegistryLabel.insertedUnder, RegistryLabel.removed]
            using hreg identity'
      · intro identity' k' hk'
        rw [newest_concat] at hk'
        by_cases heq : identity = identity'
        · have hkk : k = k' := by simpa [heq, RegistryLabel.insertedUnder] using hk'
          exact ⟨{ identity }, by simp [Registry.setConnection, hkk], heq⟩
        · exact exists_setConnection (hnewest identity' k'
            (by simpa [heq, RegistryLabel.insertedUnder] using hk')) hvacuous
      · intro k' hk'
        have htrue := hremoved k' (by simpa [removedIn_concat, RegistryLabel.removed] using hk')
        simpa using exists_setConnection (P := fun _ => True) (by simpa using htrue) hvacuous
      · intro k' hk'
        exact exists_setConnection (hannounced k'
          (by simpa [announcedIn_concat, RegistryLabel.announced] using hk')) hvacuous
  | announce k c hc =>
      have hset : Kept ls (s.setConnection k { c with pc := .serving }) :=
        hkept.setConnection hc rfl (by simp)
      obtain ⟨hreg, hnewest, hremoved, hannounced⟩ := hset
      constructor
      · simpa [newest_concat, removedIn_concat, RegistryLabel.insertedUnder, RegistryLabel.removed]
          using hreg
      · simpa [newest_concat, RegistryLabel.insertedUnder] using hnewest
      · simpa [removedIn_concat, RegistryLabel.removed] using hremoved
      · intro k' hk'
        rcases List.mem_append.mp (announcedIn_concat ls _ ▸ hk') with hold | hthis
        · exact hannounced k' hold
        · have heq : k' = k := by simpa [RegistryLabel.announced] using hthis
          exact ⟨{ c with pc := .serving }, by simp [heq, notifyWaiters, Registry.setConnection],
            by simp⟩
  | unregister k c hc hpc =>
      have hset : Kept ls (s.setConnection k { c with pc := .ended }) :=
        hkept.setConnection hc rfl (by simp)
      obtain ⟨hreg, hnewest, hremoved, hannounced⟩ := hset
      constructor
      · intro identity
        show (s.peers.remove c.identity k).get identity = _
        rw [hkept.get_remove hc, newest_concat, removedIn_concat]
        simp [RegistryLabel.insertedUnder, RegistryLabel.removed]
      · simpa [newest_concat, RegistryLabel.insertedUnder] using hnewest
      · intro k' hk'
        rcases List.mem_append.mp (removedIn_concat ls _ ▸ hk') with hold | hthis
        · exact hremoved k' hold
        · have heq : k' = k := by simpa [RegistryLabel.removed] using hthis
          exact ⟨{ c with pc := .ended }, by simp [heq, Registry.setConnection]⟩
      · simpa [announcedIn_concat, RegistryLabel.announced] using hannounced
  | close l k c c' hc hpc hid hpc' hins hrem hann =>
      exact (hkept.setConnection hc hid hpc').of_unlisted hins hrem hann
  | wait l waits hins hrem hann =>
      obtain ⟨hreg, hnewest, hremoved, hannounced⟩ := hkept
      exact Kept.of_unlisted ⟨hreg, hnewest, hremoved, hannounced⟩ hins hrem hann

theorem kept [DecidableEq ω] (h : run Registry.step {} ls = some s) : Kept ls s :=
  run_history (fun _ _ _ _ => Kept.step) h kept_nil

/-! ## The waits -/

/-- A task that is parked without a notification waits for a connection that
is not there or has not notified yet. -/
def NoneMissed (s : Registry ω) : Prop :=
  ∀ w identity k, s.waits w = some ⟨identity, .parked false⟩ → s.peers.get identity = some k →
    ∃ c, s.connections k = some c ∧ c.pc = .announcing

/-- A `wait` parks only if it looked in vain, and a notification wakes every
one that has parked. -/
theorem parked_of_step [DecidableEq ω] (h : s.step l = some t) {w : ω} {identity : Bytes}
    (hw : t.waits w = some ⟨identity, .parked false⟩) :
    (∀ k, l ≠ .announce k) ∧ (s.waits w = some ⟨identity, .parked false⟩ ∨
      t.peers = s.peers ∧ s.peers.get identity = none) := by
  -- of the steps of a `wait` only its look can park it
  have hupdate : ∀ w' wait, t = s.setWait w' wait →
      (∀ identity, wait ≠ some ⟨identity, .parked false⟩) →
      s.waits w = some ⟨identity, .parked false⟩ := by
    rintro w' wait rfl hne
    by_cases heq : w = w'
    · rw [heq, setWait_waits_self] at hw
      exact absurd hw (hne identity)
    · simpa [heq] using hw
  cases l with
  | connect k identity =>
      simp only [step] at h
      split at h <;> cases h
      exact ⟨by simp, .inl hw⟩
  | announce k =>
      simp only [step] at h
      split at h
      · split at h <;> cases h
        obtain ⟨wait, _, hwake⟩ := Option.map_eq_some_iff.mp hw
        exact absurd (congrArg Wait.waiter hwake) wait.waiter.wake_ne_parked
      · cases h
  | lose | unregister | abort =>
      simp only [step] at h
      split at h
      · split at h <;> cases h
        exact ⟨by simp, .inl hw⟩
      · cases h
  | wait | retry | drop =>
      simp only [step] at h
      split at h <;> cases h
      exact ⟨by simp, .inl (hupdate _ _ rfl (by simp))⟩
  | enable w' =>
      simp only [step] at h
      split at h
      · obtain ⟨waiter, henable, rfl⟩ := Option.map_eq_some_iff.mp h
        refine ⟨by simp, .inl (hupdate w' _ rfl fun identity heq => ?_)⟩
        exact Waiter.enable_ne_parked henable (congrArg Wait.waiter (Option.some.inj heq))
      · cases h
  | look w' =>
      simp only [step] at h
      split at h
      · next wait hwait =>
          obtain ⟨waiter, hlook, rfl⟩ := Option.map_eq_some_iff.mp h
          refine ⟨by simp, ?_⟩
          by_cases heq : w = w'
          · rw [heq, setWait_waits_self] at hw
            cases hw
            exact .inr ⟨rfl, Waiter.look_parked hlook rfl⟩
          · exact .inl (by simpa [heq] using hw)
      · cases h

/-- A connection that has not notified yet stays so in a step of another one. -/
theorem announcing_setConnection {k k' : ReplySink} {c : Connection}
    (hk : ∃ c, s.connections k = some c ∧ c.pc = .announcing)
    (hk' : ∀ c, s.connections k' = some c → c.pc ≠ .announcing) :
    ∃ c', (s.setConnection k' c).connections k = some c' ∧ c'.pc = .announcing :=
  exists_setConnection hk fun old hold hpc => absurd hpc (hk' old hold)

theorem NoneMissed.step [DecidableEq ω] (hn : NoneMissed s) (h : s.step l = some t) :
    NoneMissed t := by
  intro w identity k hw hk
  obtain ⟨hl, hparked | ⟨hsame, hnone⟩⟩ := parked_of_step h hw
  · have hold := hn w identity k hparked
    cases move_of_step h with
    | connect k' identity' hnew =>
        replace hk : (s.peers.insert identity' k').get identity = some k := hk
        rw [RouterPeers.get_insert] at hk
        split at hk
        · cases hk
          exact ⟨{ identity := identity' }, by simp [setConnection], rfl⟩
        · exact announcing_setConnection (hold hk) (by simp [hnew])
    | announce k' c hc => exact absurd rfl (hl k')
    | unregister k' c hc hpc =>
        replace hk : (s.peers.remove c.identity k').get identity = some k := hk
        rw [RouterPeers.get_remove] at hk
        split at hk
        · cases hk
        · exact announcing_setConnection (hold hk) (by simp [hc, hpc])
    | close l k' c c' hc hpc hid hpc' hins hrem hann =>
        exact announcing_setConnection (hold hk) (by simpa [hc] using hpc)
    | wait l waits hins hrem hann => exact hold hk
  · rw [hsame, hnone] at hk
    cases hk

theorem noneMissed [DecidableEq ω] (h : run Registry.step {} ls = some s) : NoneMissed s :=
  run_invariant (fun _ _ _ => NoneMissed.step) h (by simp [NoneMissed])

section

variable [DecidableEq ω] {w : ω} {identity : Bytes} {k : ReplySink}

/-- A look that finds the peer returns it. -/
theorem enabled_returns {woken : Bool} (hw : s.waits w = some ⟨identity, .enabled woken⟩)
    (hk : s.peers.get identity = some k) :
    ∃ t, ReachesBy Registry.step (RegistryLabel.OfWait w) s t ∧
      t.waits w = some ⟨identity, .returned k⟩ := by
  have hlook : s.step (.look w) = some (s.setWait w (some ⟨identity, .returned k⟩)) := by
    simp [Registry.step, hw, Waiter.look, hk]
  exact ⟨_, .cons .look hlook (.refl _), by simp⟩

theorem created_returns {woken : Bool} (hw : s.waits w = some ⟨identity, .created woken⟩)
    (hk : s.peers.get identity = some k) :
    ∃ t, ReachesBy Registry.step (RegistryLabel.OfWait w) s t ∧
      t.waits w = some ⟨identity, .returned k⟩ := by
  let m := s.setWait w (some ⟨identity, .enabled woken⟩)
  have henable : s.step (.enable w) = some m := by simp [m, Registry.step, hw, Waiter.enable]
  have hm : m.waits w = some ⟨identity, .enabled woken⟩ := by simp [m]
  obtain ⟨t, hreach, ht⟩ := enabled_returns hm hk
  exact ⟨t, .cons .enable henable hreach, ht⟩

/-- A wait for a connection that is registered and has notified returns it,
by its own steps. -/
theorem wait_returns (hn : NoneMissed s) (hkept : Kept ls s) {waiter : Waiter ReplySink}
    (hw : s.waits w = some ⟨identity, waiter⟩) (hk : s.peers.get identity = some k)
    (hann : k ∈ announcedIn ls) :
    waiter ≠ .parked false ∧ ((∀ k', waiter ≠ .returned k') →
      ∃ t, ReachesBy Registry.step (RegistryLabel.OfWait w) s t ∧
        t.waits w = some ⟨identity, .returned k⟩) := by
  have hawake : waiter ≠ .parked false := by
    rintro rfl
    obtain ⟨c, hc, hpc⟩ := hn w identity k hw hk
    obtain ⟨c', hc', hpc'⟩ := hkept.announced k hann
    rw [hc] at hc'
    cases hc'
    exact hpc' hpc
  refine ⟨hawake, fun hopen => ?_⟩
  cases waiter with
  | created woken => exact created_returns hw hk
  | enabled woken => exact enabled_returns hw hk
  | parked woken =>
      cases woken with
      | false => exact absurd rfl hawake
      | true =>
          let m := s.setWait w (some { identity })
          have hretry : s.step (.retry w) = some m := by simp [m, Registry.step, hw]
          have hm : m.waits w = some ⟨identity, .created false⟩ := by simp [m]
          obtain ⟨t, hreach, ht⟩ := created_returns hm hk
          exact ⟨t, .cons .retry hretry hreach, ht⟩
  | returned result => exact absurd rfl (hopen result)

/-- What a look returns is in the registry. -/
theorem look_returns (h : s.step (.look w) = some t)
    (hw : t.waits w = some ⟨identity, .returned k⟩) : s.peers.get identity = some k := by
  simp only [Registry.step] at h
  split at h
  · next wait hwait =>
      obtain ⟨waiter, hlook, rfl⟩ := Option.map_eq_some_iff.mp h
      rw [setWait_waits_self] at hw
      cases hw
      exact Waiter.look_returned hlook rfl
  · cases h

end

/-! ## Every run -/

/-- What is said of a run of the labels `ls` that has led to `s`. -/
structure PeerRegistry [DecidableEq ω] (ls : List (RegistryLabel ω)) (s : Registry ω) : Prop where
  /-- an identity leads to the connection inserted last under it until that
  one is removed, and to nothing then -/
  registered : ∀ identity,
    s.peers.get identity = (newest identity ls).filter (fun k => k ∉ removedIn ls)
  /-- the end of one connection leaves the entry of another alone -/
  unregister : ∀ k t, s.step (.unregister k) = some t → ∀ identity k',
    s.peers.get identity = some k' → k' ≠ k → t.peers.get identity = some k'
  /-- a look returns the newest connection, and none that was removed before -/
  returned : ∀ w t identity k, s.step (.look w) = some t →
    t.waits w = some ⟨identity, .returned k⟩ →
    k ∉ removedIn ls ∧ newest identity ls = some k
  /-- a wait for a connection that is registered and has notified is not
  parked, and returns the connection by its own steps -/
  unparked : ∀ w identity waiter k, s.waits w = some ⟨identity, waiter⟩ →
    s.peers.get identity = some k → k ∈ announcedIn ls →
    waiter ≠ .parked false ∧ ((∀ k', waiter ≠ .returned k') →
      ∃ t, ReachesBy step (RegistryLabel.OfWait w) s t ∧
        t.waits w = some ⟨identity, .returned k⟩)

/-- **The registry of stdin peers** over every interleaving of connections
that come and go and of waits. -/
theorem stdin_peer_registry_exact [DecidableEq ω] {ls : List (RegistryLabel ω)} {s : Registry ω}
    (h : run step {} ls = some s) : PeerRegistry ls s := by
  have hkept : Kept ls s := kept h
  have hn : NoneMissed s := noneMissed h
  refine ⟨hkept.registered, ?_, ?_, fun w identity waiter k => wait_returns hn hkept⟩
  · intro k t hstep identity k' hk' hne
    cases move_of_step hstep with
    | unregister k c hc hpc =>
        show (s.peers.remove c.identity k).get identity = some k'
        rw [RouterPeers.get_remove, if_neg, hk']
        rintro ⟨rfl, hk⟩
        rw [hk'] at hk
        exact hne (Option.some.inj hk)
    | close l k'' c c' hc hpc hid hpc' hins hrem | wait l waits hins hrem => cases hrem
  · intro w t identity k hstep hw
    have hget := look_returns hstep hw
    rw [hkept.registered, Option.filter_eq_some_iff] at hget
    exact ⟨by simpa using hget.2, hget.1⟩

/-- A client connects again before its old connection has ended, and a task
has waited since before the first one. -/
def reconnected : List (RegistryLabel Nat) :=
  [.wait 0 [1], .enable 0, .look 0, .connect 0 [1], .announce 0, .lose 0 (Error.closed "router peer"),
    .connect 1 [1], .unregister 0, .announce 1]

theorem reconnected_registry :
    ∃ s : Registry Nat, run step {} reconnected = some s ∧
      s.peers.get [1] = some 1 ∧ PeerRegistry reconnected s :=
  ⟨_, run_and rfl fun hrun => ⟨by decide, stdin_peer_registry_exact hrun⟩⟩

end Registry

end Kernmini.Transport
