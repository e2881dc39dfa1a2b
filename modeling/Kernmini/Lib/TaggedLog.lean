/-
Kernmini.Lib.TaggedLog — a log of messages tagged with the party they
belong to, and the trace of one party in it.

`traceOf k` is what an observer of `k` alone sees. Appending commutes with
it, so a claim about one party's messages can be followed through a log
that many parties write to.
-/
import Mathlib.Data.List.Nodup

namespace Kernmini.Lib

variable {κ α ι : Type*} [DecidableEq κ]

/-- The messages tagged with `k`, in order. -/
def traceOf (k : κ) (l : List (κ × α)) : List α :=
  (l.filter (fun e => e.1 = k)).map Prod.snd

@[simp] theorem traceOf_nil (k : κ) : traceOf k ([] : List (κ × α)) = [] := rfl

@[simp] theorem traceOf_append (k : κ) (l l' : List (κ × α)) :
    traceOf k (l ++ l') = traceOf k l ++ traceOf k l' := by
  simp [traceOf]

theorem traceOf_cons (k : κ) (e : κ × α) (l : List (κ × α)) :
    traceOf k (e :: l) = traceOf k [e] ++ traceOf k l :=
  traceOf_append k [e] l

@[simp] theorem traceOf_tag_self (k : κ) (es : List α) : traceOf k (es.map (k, ·)) = es := by
  induction es with
  | nil => rfl
  | cons e es ih =>
      rw [List.map_cons, traceOf_cons, ih]
      simp [traceOf]

theorem traceOf_tag_ne {k k' : κ} (h : k' ≠ k) (es : List α) :
    traceOf k (es.map (k', ·)) = [] := by
  simp [traceOf, h]

theorem traceOf_of_not_mem {k : κ} {l : List (κ × α)} (h : ∀ v, (k, v) ∉ l) :
    traceOf k l = [] := by
  simp only [traceOf, List.map_eq_nil_iff, List.filter_eq_nil_iff, decide_eq_true_eq]
  rintro ⟨k', v⟩ he rfl
  exact h v he

/-- Where every tag is used once, a tag has the one message it is used with. -/
theorem traceOf_of_nodup {k : κ} {v : α} {l : List (κ × α)} (hnodup : (l.map Prod.fst).Nodup)
    (hmem : (k, v) ∈ l) : traceOf k l = [v] := by
  induction l with
  | nil => cases hmem
  | cons e l ih =>
      obtain ⟨hne, hnodup⟩ := List.nodup_cons.mp hnodup
      rcases List.mem_cons.mp hmem with rfl | hmem
      · have hrest : traceOf k l = [] :=
          traceOf_of_not_mem (fun v' hv' => hne (List.mem_map.mpr ⟨_, hv', rfl⟩))
        rw [traceOf_cons, hrest, List.append_nil]
        exact traceOf_tag_self k [v]
      · have hk : e.1 ≠ k := by
          rintro rfl
          exact hne (List.mem_map.mpr ⟨_, hmem, rfl⟩)
        rw [traceOf_cons, ih hnodup hmem, traceOf_of_not_mem, List.nil_append]
        rintro v' hv'
        exact hk (congrArg Prod.fst (List.mem_singleton.mp hv')).symm

/-- Several parties get a message list each: a party that is not among them
gets nothing. -/
theorem traceOf_flatMap_of_not_mem {k : κ} {items : List ι} {key : ι → κ} {f : ι → List α}
    (h : k ∉ items.map key) : traceOf k (items.flatMap (fun i => (f i).map (key i, ·))) = [] := by
  induction items with
  | nil => rfl
  | cons i items ih =>
      rw [List.map_cons, List.mem_cons, not_or] at h
      rw [List.flatMap_cons, traceOf_append, traceOf_tag_ne (Ne.symm h.1), ih h.2, List.nil_append]

/-- A party that is among them once gets its own. -/
theorem traceOf_flatMap_of_mem {items : List ι} {key : ι → κ} {f : ι → List α} {i : ι}
    (hnodup : (items.map key).Nodup) (h : i ∈ items) :
    traceOf (key i) (items.flatMap (fun i => (f i).map (key i, ·))) = f i := by
  induction items with
  | nil => cases h
  | cons j items ih =>
      rw [List.map_cons, List.nodup_cons] at hnodup
      rw [List.flatMap_cons, traceOf_append]
      rcases List.mem_cons.mp h with rfl | hmem
      · rw [traceOf_tag_self, traceOf_flatMap_of_not_mem hnodup.1, List.append_nil]
      · have hne : key j ≠ key i := by
          intro heq
          exact hnodup.1 (heq ▸ List.mem_map_of_mem hmem)
        rw [traceOf_tag_ne hne, List.nil_append, ih hnodup.2 hmem]

end Kernmini.Lib
