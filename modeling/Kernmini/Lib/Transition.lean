/-
Kernmini.Lib.Transition — labelled transition systems given by an
executable step function, and the induction rules over their runs.

A system is a function `step : S → L → Option S`: the label carries every
choice of the environment, so one label has at most one successor and a
concrete run can be evaluated. Four notions of "over a whole run" are
used by the developments on top:

  * `Reachable`   — some list of labels leads there; `Reachable.invariant`
                    is the induction rule.
  * `ReachesBy`   — one party leads there by its own labels;
                    `reachesBy_of_progress` and `ReachesBy.invariant`.
  * `StepsMeet`   — every step of a run meets a condition on the state it
                    starts from; `run_invariant_of_meets` is the induction
                    rule for an invariant that needs the condition.
  * `Throughout`  — a property holds of every state of a run;
                    `throughout_iff_stepsMeet` says when that is the same
                    as meeting a condition at every step.
-/
import Mathlib.Logic.Basic

namespace Kernmini.Lib

variable {S L : Type*} {step : S → L → Option S} {s t : S} {l : L} {ls : List L}

/-! ## Runs -/

/-- Perform the labels in order; `none` as soon as one is not enabled. -/
def run (step : S → L → Option S) (s : S) (ls : List L) : Option S :=
  ls.foldlM step s

@[simp] theorem run_nil : run step s [] = some s := rfl

theorem run_cons_eq_some :
    run step s (l :: ls) = some t ↔ ∃ m, step s l = some m ∧ run step m ls = some t := by
  simp [run, Option.bind_eq_some_iff]

theorem run_append_eq_some {ls' : List L} :
    run step s (ls ++ ls') = some t ↔
      ∃ m, run step s ls = some m ∧ run step m ls' = some t := by
  simp [run, List.foldlM_append, Option.bind_eq_some_iff]

theorem run_singleton : run step s [l] = step s l := by
  simp [run]

theorem run_snoc_eq_some :
    run step s (ls ++ [l]) = some t ↔ ∃ m, run step s ls = some m ∧ step m l = some t := by
  rw [run_append_eq_some]
  simp only [run_singleton]

/-- A run together with what is concluded from it. -/
theorem run_and {p : Prop} (hrun : run step s ls = some t) (h : run step s ls = some t → p) :
    run step s ls = some t ∧ p :=
  ⟨hrun, h hrun⟩

/-- `t` is the end of some run from `s`. -/
def Reachable (step : S → L → Option S) (s t : S) : Prop :=
  ∃ ls, run step s ls = some t

theorem Reachable.refl (s : S) : Reachable step s s := ⟨[], rfl⟩

theorem Reachable.trans {u : S} (h : Reachable step s t) (h' : Reachable step t u) :
    Reachable step s u := by
  obtain ⟨ls, hls⟩ := h
  obtain ⟨ls', hls'⟩ := h'
  exact ⟨ls ++ ls', run_append_eq_some.mpr ⟨t, hls, hls'⟩⟩

theorem Reachable.single (h : step s l = some t) : Reachable step s t :=
  ⟨[l], by rw [run_singleton, h]⟩

/-- A run keeps every property that each of its steps keeps. -/
theorem run_invariant {Inv : S → Prop} (hstep : ∀ a l b, Inv a → step a l = some b → Inv b) :
    ∀ {ls : List L} {s t : S}, run step s ls = some t → Inv s → Inv t
  | [], s, t, h, hs => by
      cases h
      exact hs
  | l :: ls, s, t, h, hs => by
      obtain ⟨m, hm, hrest⟩ := run_cons_eq_some.mp h
      exact run_invariant hstep hrest (hstep s l m hs hm)

/-- The same for a property of the state and of the labels so far. -/
theorem run_history {Inv : List L → S → Prop}
    (hstep : ∀ before a l b, Inv before a → step a l = some b → Inv (before ++ [l]) b) :
    ∀ {ls before : List L} {s t : S}, run step s ls = some t → Inv before s → Inv (before ++ ls) t
  | [], before, s, t, h, hs => by
      cases h
      rw [List.append_nil]
      exact hs
  | l :: ls, before, s, t, h, hs => by
      obtain ⟨m, hm, hrest⟩ := run_cons_eq_some.mp h
      rw [List.append_cons]
      exact run_history hstep hrest (hstep before s l m hs hm)

/-- The induction rule for reachable states. -/
theorem Reachable.invariant {Inv : S → Prop} (h : Reachable step s t) (h0 : Inv s)
    (hstep : ∀ a l b, Inv a → step a l = some b → Inv b) : Inv t := by
  obtain ⟨ls, hls⟩ := h
  exact run_invariant hstep hls h0

/-- Leaving the hidden labels out of a run gives a run again, and its end is
related to the end of the first, if a hidden step keeps the relation and
every other step is matched. -/
theorem run_filter_of_hidden {R : S → S → Prop} (hidden : L → Bool) :
    ∀ {ls : List L} {s t s' : S}, run step s ls = some t → R s s' →
      (∀ a b l a', l ∈ ls → hidden l = true → R a b → step a l = some a' → R a' b) →
      (∀ a b l a', l ∈ ls → hidden l = false → R a b → step a l = some a' →
        ∃ b', step b l = some b' ∧ R a' b') →
      ∃ t', run step s' (ls.filter (fun l => !hidden l)) = some t' ∧ R t t'
  | [], s, t, s', h, hR, _, _ => by
      cases h
      exact ⟨s', rfl, hR⟩
  | l :: ls, s, t, s', h, hR, hhid, hvis => by
      obtain ⟨m, hm, hrest⟩ := run_cons_eq_some.mp h
      have hhid' := fun a b l' a' hmem => hhid a b l' a' (List.mem_cons_of_mem l hmem)
      have hvis' := fun a b l' a' hmem => hvis a b l' a' (List.mem_cons_of_mem l hmem)
      cases hl : hidden l with
      | true =>
          have hRm : R m s' := hhid s s' l m (List.mem_cons_self ..) hl hR hm
          rw [List.filter_cons_of_neg (by simp [hl])]
          exact run_filter_of_hidden hidden hrest hRm hhid' hvis'
      | false =>
          obtain ⟨m', hm', hRm⟩ := hvis s s' l m (List.mem_cons_self ..) hl hR hm
          obtain ⟨t', ht', hRt⟩ := run_filter_of_hidden hidden hrest hRm hhid' hvis'
          rw [List.filter_cons_of_pos (by simp [hl])]
          exact ⟨t', run_cons_eq_some.mpr ⟨m', hm', ht'⟩, hRt⟩

/-! ## Runs of one party

What a party can bring about by its own steps alone, and the two rules for
it: a measure that goes down proves that a goal is reached, an invariant of
the party's steps that it is not. -/

/-- `t` is the end of a run from `s` of labels in `own` only. -/
def ReachesBy (step : S → L → Option S) (own : L → Prop) (s t : S) : Prop :=
  ∃ ls, (∀ l ∈ ls, own l) ∧ run step s ls = some t

variable {own : L → Prop}

theorem ReachesBy.refl (s : S) : ReachesBy step own s s := ⟨[], by simp, rfl⟩

theorem ReachesBy.cons {m : S} (hl : own l) (h : step s l = some m)
    (ht : ReachesBy step own m t) : ReachesBy step own s t := by
  obtain ⟨ls, hown, hrun⟩ := ht
  refine ⟨l :: ls, ?_, run_cons_eq_some.mpr ⟨m, h, hrun⟩⟩
  intro l' hl'
  rcases List.mem_cons.mp hl' with heq | hmem
  · rw [heq]
    exact hl
  · exact hown l' hmem

theorem ReachesBy.invariant {Inv : S → Prop} (h : ReachesBy step own s t) (h0 : Inv s)
    (hstep : ∀ a l b, own l → Inv a → step a l = some b → Inv b) : Inv t := by
  obtain ⟨ls, hown, hrun⟩ := h
  induction ls generalizing s with
  | nil =>
      cases hrun
      exact h0
  | cons l ls ih =>
      obtain ⟨m, hm, hrest⟩ := run_cons_eq_some.mp hrun
      have hl : own l := hown l (List.mem_cons_self ..)
      exact ih (hstep s l m hl h0 hm) (fun l' hl' => hown l' (List.mem_cons_of_mem _ hl')) hrest

/-- From a good state the party reaches the goal, if short of the goal it
can always take a step that stays good and lowers the rank. -/
theorem reachesBy_of_progress {α : Type*} [WellFoundedRelation α] {rank : S → α}
    {Good Goal : S → Prop}
    (h : ∀ a, Good a → Goal a ∨ ∃ l b, own l ∧ step a l = some b ∧ Good b ∧
      WellFoundedRelation.rel (rank b) (rank a)) (s : S) (hs : Good s) :
    ∃ t, ReachesBy step own s t ∧ Good t ∧ Goal t := by
  rcases h s hs with hgoal | ⟨l, b, hl, hstep, hgood, hlt⟩
  · exact ⟨s, ReachesBy.refl s, hs, hgoal⟩
  · obtain ⟨t, hreach, ht⟩ := reachesBy_of_progress h b hgood
    exact ⟨t, ReachesBy.cons hl hstep hreach, ht⟩
termination_by rank s

/-- The same with a number as the rank. -/
theorem reachesBy_of_rank (rank : S → Nat) {Good Goal : S → Prop}
    (h : ∀ a, Good a → Goal a ∨ ∃ l b, own l ∧ step a l = some b ∧ Good b ∧ rank b < rank a)
    (s : S) (hs : Good s) : ∃ t, ReachesBy step own s t ∧ Good t ∧ Goal t := by
  have hrel : ∀ a, Good a → Goal a ∨ ∃ l b, own l ∧ step a l = some b ∧ Good b ∧
      WellFoundedRelation.rel (rank b) (rank a) := h
  exact reachesBy_of_progress hrel s hs

/-- Where every step of a party lowers the rank, a run of its steps is no
longer than the rank. -/
theorem length_le_of_rank (rank : S → Nat) {Inv : S → Prop}
    (hinv : ∀ a l b, Inv a → step a l = some b → Inv b)
    (hrank : ∀ a l b, Inv a → own l → step a l = some b → rank b < rank a) :
    ∀ {ls : List L} {s t : S}, (∀ l ∈ ls, own l) → run step s ls = some t → Inv s →
      ls.length + rank t ≤ rank s
  | [], s, t, _, hrun, _ => by
      cases hrun
      simp
  | l :: ls, s, t, hown, hrun, hs => by
      obtain ⟨m, hm, hrest⟩ := run_cons_eq_some.mp hrun
      have hlt := hrank s l m hs (hown l (List.mem_cons_self ..)) hm
      have hle := length_le_of_rank rank hinv hrank
        (fun l' hl' => hown l' (List.mem_cons_of_mem _ hl')) hrest (hinv s l m hs hm)
      simp only [List.length_cons]
      omega

/-- What the labels of a run bring with them. -/
def totalGain (gain : L → Nat) : List L → Nat
  | [] => 0
  | l :: ls => gain l + totalGain gain ls

/-- The same where a label may bring something to do: a run is no longer than
the rank and what its labels brought. -/
theorem length_le_of_gain (rank : S → Nat) (gain : L → Nat) {Inv : S → Prop}
    (hinv : ∀ a l b, Inv a → step a l = some b → Inv b)
    (hrank : ∀ a l b, Inv a → own l → step a l = some b → rank b < rank a + gain l) :
    ∀ {ls : List L} {s t : S}, (∀ l ∈ ls, own l) → run step s ls = some t → Inv s →
      ls.length + rank t ≤ rank s + totalGain gain ls
  | [], s, t, _, hrun, _ => by
      cases hrun
      simp [totalGain]
  | l :: ls, s, t, hown, hrun, hs => by
      obtain ⟨m, hm, hrest⟩ := run_cons_eq_some.mp hrun
      have hlt := hrank s l m hs (hown l (List.mem_cons_self ..)) hm
      have hle := length_le_of_gain rank gain hinv hrank
        (fun l' hl' => hown l' (List.mem_cons_of_mem _ hl')) hrest (hinv s l m hs hm)
      simp only [List.length_cons, totalGain]
      omega

/-! ## Runs whose steps meet a condition -/

/-- Every step of the run meets `ok`, a condition on the state before the
step and its label. -/
def StepsMeet (step : S → L → Option S) (ok : S → L → Prop) : S → List L → Prop
  | _, [] => True
  | s, l :: ls => ok s l ∧ ∀ s', step s l = some s' → StepsMeet step ok s' ls

/-- On a concrete run the condition can be evaluated. -/
instance decidableStepsMeet {ok : S → L → Prop} [∀ s l, Decidable (ok s l)] :
    ∀ (s : S) (ls : List L), Decidable (StepsMeet step ok s ls)
  | _, [] => .isTrue trivial
  | s, l :: ls =>
      match h : step s l with
      | none => decidable_of_iff (ok s l) (by simp [StepsMeet, h])
      | some m =>
          have : Decidable (StepsMeet step ok m ls) := decidableStepsMeet m ls
          decidable_of_iff (ok s l ∧ StepsMeet step ok m ls) (by simp [StepsMeet, h])

/-- The last step of a run meets the condition, and the run up to it does. -/
theorem StepsMeet.of_snoc {ok : S → L → Prop} :
    ∀ {ls : List L} {s t : S}, StepsMeet step ok s (ls ++ [l]) → run step s ls = some t →
      StepsMeet step ok s ls ∧ ok t l
  | [], s, t, h, hrun => by
      cases hrun
      exact ⟨trivial, h.1⟩
  | m :: ls, s, t, h, hrun => by
      obtain ⟨s', hs', hrest⟩ := run_cons_eq_some.mp hrun
      obtain ⟨_, hlast⟩ := StepsMeet.of_snoc (h.2 s' hs') hrest
      refine ⟨⟨h.1, fun u hu => ?_⟩, hlast⟩
      rw [hs'] at hu
      cases hu
      exact (StepsMeet.of_snoc (h.2 s' hs') hrest).1

/-- A condition on the labels of a run is one on its steps. -/
theorem StepsMeet.and_mem {ok : S → L → Prop} {p : L → Prop} :
    ∀ {ls : List L} {s : S}, StepsMeet step ok s ls → (∀ l ∈ ls, p l) →
      StepsMeet step (fun s l => ok s l ∧ p l) s ls
  | [], _, _, _ => trivial
  | l :: ls, s, h, hp => by
      refine ⟨⟨h.1, hp l (List.mem_cons_self ..)⟩, fun s' hs' => ?_⟩
      exact StepsMeet.and_mem (h.2 s' hs') (fun l' hl' => hp l' (List.mem_cons_of_mem _ hl'))

/-- The induction rule for an invariant that a step keeps when it meets `ok`. -/
theorem run_invariant_of_meets {ok : S → L → Prop} {Inv : S → Prop}
    (hstep : ∀ a l b, Inv a → ok a l → step a l = some b → Inv b) :
    ∀ {ls : List L} {s t : S},
      run step s ls = some t → StepsMeet step ok s ls → Inv s → Inv t
  | [], s, t, h, _, hs => by
      cases h
      exact hs
  | l :: ls, s, t, h, hok, hs => by
      obtain ⟨m, hm, hrest⟩ := run_cons_eq_some.mp h
      exact run_invariant_of_meets hstep hrest (hok.2 m hm) (hstep s l m hs hok.1 hm)

/-- Two systems that go through the same labels in lockstep. -/
theorem run_rel {S' : Type*} {step' : S' → L → Option S'} {R : S → S' → Prop} {ok : S → L → Prop}
    (h : ∀ a b l, R a b → ok a l → Option.Rel R (step a l) (step' b l)) :
    ∀ {ls : List L} {a : S} {b : S'}, R a b → StepsMeet step ok a ls →
      Option.Rel R (run step a ls) (run step' b ls)
  | [], _, _, hab, _ => .some hab
  | l :: ls, a, b, hab, hok => by
      have hone := h a b l hab hok.1
      have hrest := hok.2
      simp only [run, List.foldlM_cons]
      revert hone hrest
      cases step a l <;> cases step' b l <;> intro hone hrest <;> cases hone
      · exact .none
      · next hR => exact run_rel h hR (hrest _ rfl)

/-- `P` holds of every state the run passes through, its ends included. -/
def Throughout (step : S → L → Option S) (P : S → Prop) : S → List L → Prop
  | s, [] => P s
  | s, l :: ls => P s ∧ ∀ s', step s l = some s' → Throughout step P s' ls

theorem Throughout.start {P : S → Prop} (h : Throughout step P s ls) : P s := by
  cases ls with
  | nil => exact h
  | cons l ls => exact h.1

/-- Where `ok` says of each step whether it keeps `P`, a run keeps `P`
throughout exactly when all its steps meet `ok`. `Inv` is what the
reachable states are known to satisfy. -/
theorem throughout_iff_stepsMeet {ok : S → L → Prop} {P Inv : S → Prop}
    (hinv : ∀ a l b, Inv a → step a l = some b → Inv b)
    (hok : ∀ a l b, Inv a → P a → step a l = some b → (P b ↔ ok a l)) :
    ∀ {ls : List L} {s t : S}, run step s ls = some t → Inv s → P s →
      (Throughout step P s ls ↔ StepsMeet step ok s ls)
  | [], s, t, _, _, hs => by simp [Throughout, StepsMeet, hs]
  | l :: ls, s, t, h, hi, hs => by
      obtain ⟨m, hm, hrest⟩ := run_cons_eq_some.mp h
      have hiff := hok s l m hi hs hm
      have hone : ∀ s', step s l = some s' → s' = m := by
        intro s' hs'
        rw [hm] at hs'
        exact (Option.some.inj hs').symm
      constructor
      · rintro ⟨_, hall⟩
        have hPm : P m := (hall m hm).start
        refine ⟨hiff.mp hPm, fun s' hs' => ?_⟩
        rw [hone s' hs']
        exact (throughout_iff_stepsMeet hinv hok hrest (hinv s l m hi hm) hPm).mp (hall m hm)
      · rintro ⟨hl, hall⟩
        have hPm : P m := hiff.mpr hl
        refine ⟨hs, fun s' hs' => ?_⟩
        rw [hone s' hs']
        exact (throughout_iff_stepsMeet hinv hok hrest (hinv s l m hi hm) hPm).mpr (hall m hm)

end Kernmini.Lib
