/-
Kernmini.Lib.HashMap — a hash map, as an association list with unique
keys (`AList`) plus the two operations the standard interface has and
`AList` lacks: `retain` and `values`.

The iteration order of a hash map is not specified. A definition that
iterates takes the order as an argument and asks for a permutation of
`values`.
-/
import Mathlib.Data.List.AList

namespace Kernmini.Lib

variable {κ α : Type*} [DecidableEq κ]

/-- A finite map from `κ` to `α`. -/
abbrev HashMap (κ α : Type*) := AList (fun _ : κ => α)

namespace HashMap

/-- The values, in the order of the representation. -/
def values {κ α : Type*} (m : HashMap κ α) : List α := m.entries.map Sigma.snd

/-- Keep the entries that satisfy `p`. -/
def retain {κ α : Type*} (p : κ → α → Bool) (m : HashMap κ α) : HashMap κ α :=
  ⟨m.entries.filter (fun e => p e.1 e.2), m.nodupKeys.sublist List.filter_sublist⟩

theorem mem_retain {p : κ → α → Bool} {m : HashMap κ α} {k : κ} {v : α} :
    v ∈ (retain p m).lookup k ↔ v ∈ m.lookup k ∧ p k v = true := by
  rw [AList.mem_lookup_iff, AList.mem_lookup_iff]
  simp [retain]

theorem mem_values {m : HashMap κ α} {v : α} : v ∈ m.values ↔ ∃ k, m.lookup k = some v := by
  simp only [values, List.mem_map, Sigma.exists]
  constructor
  · rintro ⟨k, v', hmem, rfl⟩
    exact ⟨k, AList.mem_lookup_iff.mpr hmem⟩
  · rintro ⟨k, hlookup⟩
    exact ⟨k, v, AList.mem_lookup_iff.mp hlookup, rfl⟩

/-- A new key adds its value. -/
theorem values_insert {m : HashMap κ α} {k : κ} (v : α) (hk : k ∉ m) :
    values (m.insert k v) = v :: m.values := by
  rw [values, AList.entries_insert_of_notMem hk]
  rfl

/-- Removing a key removes its value, once. -/
theorem values_erase {m : HashMap κ α} {k : κ} {v : α} (hk : m.lookup k = some v) :
    m.values.Perm (v :: values (m.erase k)) := by
  have hmem : k ∈ m.entries.keys := AList.lookup_isSome.mp (Option.isSome_of_mem hk)
  obtain ⟨v', l₁, l₂, hnew, hentries, herase⟩ := List.exists_of_kerase hmem
  have hv : v' = v := by
    have hv' : (⟨k, v'⟩ : Sigma fun _ : κ => α) ∈ m.entries := by simp [hentries]
    have hsame := (AList.mem_lookup_iff.mpr hv').symm.trans hk
    exact Option.some.inj hsame
  have herased : (m.erase k).entries = l₁ ++ l₂ := herase
  rw [values, values, herased, hentries, ← hv, List.map_append, List.map_cons, List.map_append]
  exact List.perm_middle

end HashMap

end Kernmini.Lib
