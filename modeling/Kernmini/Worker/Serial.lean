/-
Kernmini.Worker.Serial — what a `ThreadWorker` is for: jobs run one after the
other on one state.

A list of jobs is served from the left. A callback takes the state and gives
a value and the next state, or panics. The service ends with the first `Stop`
it comes to and with the first callback that panics; the jobs behind get no
answer.
-/
import Mathlib.Data.List.Nodup

namespace Kernmini.Worker

/-- `Job`, with the call it is from. -/
inductive Job (ι σ ρ : Type*) where
  /-- `none` is a panic -/
  | call (id : ι) (callback : σ → Option (ρ × σ))
  | stop (id : ι)

/-- What a call or a shutdown is answered with. -/
inductive Reply (ρ : Type*) where
  | value (r : ρ)
  | stopped

variable {ι σ ρ : Type*}

def Job.id : Job ι σ ρ → ι
  | .call id _ => id
  | .stop id => id

/-- The state behind the jobs, unless the service ends among them. -/
def after (state : σ) : List (Job ι σ ρ) → Option σ
  | [] => some state
  | .call _ f :: rest =>
      match f state with
      | some (_, next) => after next rest
      | none => none
  | .stop _ :: _ => none

/-- The callbacks that run: the call, the state it sees and the value it
gives. -/
def served (state : σ) : List (Job ι σ ρ) → List (ι × σ × Option ρ)
  | [] => []
  | .call id f :: rest =>
      match f state with
      | some (r, next) => (id, state, some r) :: served next rest
      | none => [(id, state, none)]
  | .stop _ :: _ => []

/-- Nobody answers these. -/
def unanswered (jobs : List (Job ι σ ρ)) : List (ι × Option (Reply ρ)) :=
  jobs.map (fun job => (job.id, none))

/-- What each job is answered with. -/
def outcomes (state : σ) : List (Job ι σ ρ) → List (ι × Option (Reply ρ))
  | [] => []
  | .call id f :: rest =>
      match f state with
      | some (r, next) => (id, some (.value r)) :: outcomes next rest
      | none => (id, none) :: unanswered rest
  | .stop id :: rest => (id, some .stopped) :: unanswered rest

/-- What holds of no jobs, of a job that ends the service and of a callback
before a service it holds of, holds of every service. -/
@[elab_as_elim]
theorem service_induction {motive : σ → List (Job ι σ ρ) → Prop} (nil : ∀ state, motive state [])
    (call : ∀ state id f rest r next, f state = some (r, next) → motive next rest →
      motive state (.call id f :: rest))
    (panic : ∀ state id f rest, f state = none → motive state (.call id f :: rest))
    (stop : ∀ state id rest, motive state (.stop id :: rest)) (state : σ)
    (jobs : List (Job ι σ ρ)) : motive state jobs := by
  induction jobs generalizing state with
  | nil => exact nil state
  | cons job rest ih =>
      cases job with
      | call id f =>
          cases hf : f state with
          | none => exact panic state id f rest hf
          | some result => exact call state id f rest result.1 result.2 hf (ih result.2)
      | stop id => exact stop state id rest

/-! ## One part of the jobs after the other -/

section

variable {state middle : σ} {jobs more : List (Job ι σ ρ)}

theorem after_append_some (h : after state jobs = some middle) :
    after state (jobs ++ more) = after middle more := by
  induction state, jobs using service_induction with
  | nil state =>
      cases h
      rfl
  | call state id f rest r next hf ih =>
      simp only [after, hf, List.cons_append] at h ⊢
      exact ih h
  | panic state id f rest hf => simp [after, hf] at h
  | stop state id rest => cases h

theorem served_append_some (h : after state jobs = some middle) :
    served state (jobs ++ more) = served state jobs ++ served middle more := by
  induction state, jobs using service_induction with
  | nil state =>
      cases h
      rfl
  | call state id f rest r next hf ih =>
      simp only [after, served, hf, List.cons_append] at h ⊢
      rw [ih h]
  | panic state id f rest hf => simp [after, hf] at h
  | stop state id rest => cases h

theorem served_append_none (h : after state jobs = none) :
    served state (jobs ++ more) = served state jobs := by
  induction state, jobs using service_induction with
  | nil state => cases h
  | call state id f rest r next hf ih =>
      simp only [after, served, hf, List.cons_append] at h ⊢
      rw [ih h]
  | panic state id f rest hf => simp [served, hf]
  | stop state id rest => rfl

theorem outcomes_append_some (h : after state jobs = some middle) :
    outcomes state (jobs ++ more) = outcomes state jobs ++ outcomes middle more := by
  induction state, jobs using service_induction with
  | nil state =>
      cases h
      rfl
  | call state id f rest r next hf ih =>
      simp only [after, outcomes, hf, List.cons_append] at h ⊢
      rw [ih h]
  | panic state id f rest hf => simp [after, hf] at h
  | stop state id rest => cases h

theorem outcomes_append_none (h : after state jobs = none) :
    outcomes state (jobs ++ more) = outcomes state jobs ++ unanswered more := by
  induction state, jobs using service_induction with
  | nil state => cases h
  | call state id f rest r next hf ih =>
      simp only [after, outcomes, hf, List.cons_append] at h ⊢
      rw [ih h]
  | panic state id f rest hf => simp [outcomes, unanswered, hf]
  | stop state id rest => simp [outcomes, unanswered]

/-- Later jobs change nothing for the earlier ones. -/
theorem outcomes_grow (state : σ) (jobs more : List (Job ι σ ρ)) :
    outcomes state jobs <+: outcomes state (jobs ++ more) := by
  cases h : after state jobs with
  | none => exact ⟨_, (outcomes_append_none h).symm⟩
  | some middle => exact ⟨_, (outcomes_append_some h).symm⟩

theorem served_grow (state : σ) (jobs more : List (Job ι σ ρ)) :
    served state jobs <+: served state (jobs ++ more) := by
  cases h : after state jobs with
  | none => exact ⟨[], by rw [served_append_none h, List.append_nil]⟩
  | some middle => exact ⟨_, (served_append_some h).symm⟩

/-! ## What the answers say -/

theorem not_mem_unanswered {id : ι} {reply : Reply ρ} : (id, some reply) ∉ unanswered jobs := by
  simp [unanswered]

/-- A callback that gives a value is answered with it. -/
theorem value_of_served {id : ι} {seen : σ} {r : ρ} (h : (id, seen, some r) ∈ served state jobs) :
    (id, some (.value r)) ∈ outcomes state jobs := by
  induction state, jobs using service_induction with
  | nil state => cases h
  | call state id' f rest r' next hf ih =>
      simp only [served, outcomes, hf, List.mem_cons, Prod.mk.injEq, Option.some.injEq] at h ⊢
      rcases h with ⟨rfl, _, rfl⟩ | hrest
      · exact .inl ⟨rfl, rfl⟩
      · exact .inr (ih hrest)
  | panic state id' f rest hf => simp [served, hf] at h
  | stop state id' rest => cases h

/-- Only the first `Stop` that is reached is answered. -/
theorem after_of_stopped {id : ι} (h : (id, some .stopped) ∈ outcomes state jobs) :
    ∃ front rest middle, jobs = front ++ .stop id :: rest ∧ after state front = some middle := by
  induction state, jobs using service_induction with
  | nil state => cases h
  | call state id' f jobs r next hf ih =>
      have hmem : (id, some .stopped) ∈ outcomes next jobs := by
        simpa [outcomes, hf] using h
      obtain ⟨front, rest, middle, rfl, hmiddle⟩ := ih hmem
      refine ⟨.call id' f :: front, rest, middle, rfl, ?_⟩
      simp only [after, hf]
      exact hmiddle
  | panic state id' f jobs hf => simp [outcomes, hf, not_mem_unanswered] at h
  | stop state id' jobs =>
      obtain rfl : id = id' := by simpa [outcomes, not_mem_unanswered] using h
      exact ⟨[], jobs, state, rfl, rfl⟩

/-- It is answered. -/
theorem stopped_of_after {id : ι} (h : after state jobs = some middle) :
    (id, some .stopped) ∈ outcomes state (jobs ++ .stop id :: more) := by
  rw [outcomes_append_some h]
  simp [outcomes]

/-- At most one job is answered with the stop. -/
theorem stopped_unique {c d : ι} (hc : (c, some .stopped) ∈ outcomes state jobs)
    (hd : (d, some .stopped) ∈ outcomes state jobs) : c = d := by
  induction state, jobs using service_induction with
  | nil state => cases hc
  | call state id f rest r next hf ih =>
      simp only [outcomes, hf, List.mem_cons, Prod.mk.injEq, Option.some.injEq, reduceCtorEq,
        and_false, false_or] at hc hd
      exact ih hc hd
  | panic state id f rest hf => simp [outcomes, hf, not_mem_unanswered] at hc
  | stop state id rest =>
      simp only [outcomes, List.mem_cons, Prod.mk.injEq, and_true, not_mem_unanswered, or_false]
        at hc hd
      exact hc.trans hd.symm

/-! ## Each job once -/

theorem map_fst_outcomes (state : σ) (jobs : List (Job ι σ ρ)) :
    (outcomes state jobs).map Prod.fst = jobs.map Job.id := by
  induction state, jobs using service_induction with
  | nil state => rfl
  | call state id f rest r next hf ih => simp [outcomes, hf, ih, Job.id]
  | panic state id f rest hf => simp [outcomes, hf, unanswered, Job.id]
  | stop state id rest => simp [outcomes, unanswered, Job.id]

theorem served_sublist (state : σ) (jobs : List (Job ι σ ρ)) :
    ((served state jobs).map Prod.fst).Sublist (jobs.map Job.id) := by
  induction state, jobs using service_induction with
  | nil state => exact List.Sublist.refl _
  | call state id f rest r next hf ih =>
      simp only [served, hf, List.map_cons]
      exact ih.cons_cons id
  | panic state id f rest hf =>
      simp only [served, hf, List.map_cons]
      exact List.Sublist.cons_cons id (List.nil_sublist _)
  | stop state id rest => exact List.nil_sublist _

/-- A job has one outcome. -/
theorem outcome_unique (hnodup : (jobs.map Job.id).Nodup) {id : ι} {o o' : Option (Reply ρ)}
    (h : (id, o) ∈ outcomes state jobs) (h' : (id, o') ∈ outcomes state jobs) : o = o' := by
  rw [← map_fst_outcomes state jobs] at hnodup
  have heq := List.inj_on_of_nodup_map hnodup h h' rfl
  exact (Prod.mk.inj heq).2

end

end Kernmini.Worker
