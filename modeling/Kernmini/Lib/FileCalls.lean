/-
Kernmini.Lib.FileCalls — what the calls on paths do to the tree when they
succeed.

`create_dir_all` adds the missing directories on the way to one place and
nothing else (`Grown`), from the `frontier` of its path on; `remove_dir_all` takes one place away with all that is
below it; `write` puts one file where the path leads.
-/
import Kernmini.Lib.FilePaths

namespace Kernmini.Lib.FileSystem

variable {ν β : Type*} [DecidableEq ν] {fs fs' fs'' : FileSystem ν β} {links : Nat}
  {path place found : List ν} {name : ν}

/-! ## One new inode -/

theorem get_put_of_new {inode : Inode ν β} (hplace : fs.get place = some .dir)
    (hnew : fs.get (place ++ [name]) = none) {other : List ν} (hsome : fs.get other ≠ none) :
    (fs.put place name inode).get other = fs.get other := by
  rw [get_put hplace (by simp [hnew]), if_neg]
  rintro rfl
  exact hsome hnew

theorem Keeps.put (inode : Inode ν β) (hplace : fs.get place = some .dir)
    (hnew : fs.get (place ++ [name]) = none) : Keeps fs (fs.put place name inode) :=
  keeps_of_get fun _ => get_put_of_new hplace hnew

theorem mkdir_eq_ok : fs.mkdir links path name = .ok fs' ↔
    ∃ place, fs.openDir links path = .ok place ∧ fs.get (place ++ [name]) = none ∧
      fs' = fs.put place name .dir := by
  unfold mkdir
  cases hdir : fs.openDir links path with
  | error error => simp
  | ok place =>
      cases hget : fs.get (place ++ [name]) with
      | some inode => simp [hget]
      | none => simp [hget, eq_comm]

/-- A `mkdir` that misses something misses the directory it is to be in. -/
theorem openDir_of_mkdir (h : fs.mkdir links path name = .error .noEntry) :
    fs.openDir links path ≠ .ok place := by
  intro hdir
  simp only [mkdir, hdir] at h
  split at h <;> cases h

/-- The new directory is where the path leads. -/
theorem openDir_put (hdir : fs.openDir links path = .ok place)
    (hnew : fs.get (place ++ [name]) = none) :
    (fs.put place name .dir).openDir links (path ++ [name]) = .ok (place ++ [name]) := by
  obtain ⟨_, hplace⟩ := openDir_eq_ok.mp hdir
  have hget : (fs.put place name .dir).get (place ++ [name]) = some .dir := by
    simp [get_put hplace]
  have hdir' := openDir_keeps (Keeps.put .dir hplace hnew) hdir
  exact openDir_eq_ok.mpr ⟨resolve_concat_of_not_link hdir' (by simp [hget]), hget⟩

/-! ## Missing directories -/

/-- The directories that were missing on the way to the place are there, and
nothing else has changed. -/
def Grown (fs fs' : FileSystem ν β) (found : List ν) : Prop :=
  ∀ place, (fs.get place = none ∧ place <+: found ∧ fs'.get place = some .dir) ∨
    (fs'.get place = fs.get place ∧ (place <+: found → fs.get place ≠ none))

/-- What is there has nothing missing on the way to it. -/
theorem get_on_way (h : fs.get found ≠ none) (hpre : place <+: found) : fs.get place ≠ none := by
  obtain ⟨rest, rfl⟩ := hpre
  by_cases hnil : rest = []
  · rwa [hnil, List.append_nil] at h
  · simp [get_above h hnil]

theorem grown_refl (h : fs.get found ≠ none) : Grown fs fs found :=
  fun _ => .inr ⟨rfl, get_on_way h⟩

theorem Grown.put (hg : Grown fs fs' place) (hplace : fs'.get place = some .dir)
    (hnew : fs'.get (place ++ [name]) = none) :
    Grown fs (fs'.put place name .dir) (place ++ [name]) := by
  intro other
  rw [get_put hplace (by simp)]
  by_cases heq : other = place ++ [name]
  · subst heq
    rw [if_pos rfl]
    refine .inl ⟨?_, List.prefix_rfl, rfl⟩
    rcases hg (place ++ [name]) with ⟨hnone, _, _⟩ | ⟨hsame, _⟩
    · exact hnone
    · rw [← hsame, hnew]
  · rw [if_neg heq]
    rcases hg other with ⟨hnone, hpre, hdir⟩ | ⟨hsame, hthere⟩
    · exact .inl ⟨hnone, hpre.trans (List.prefix_append _ _), hdir⟩
    · refine .inr ⟨hsame, fun hpre => hthere ?_⟩
      rw [List.prefix_concat_iff] at hpre
      exact hpre.resolve_left heq

/-- If the place was there, nothing has changed. -/
theorem Grown.get_eq (hg : Grown fs fs' found) (h : fs.get found ≠ none) :
    ∀ place, fs'.get place = fs.get place := by
  intro place
  rcases hg place with ⟨hnone, hpre, _⟩ | ⟨hsame, _⟩
  · exact absurd hnone (get_on_way h hpre)
  · exact hsame

theorem exists_of_toBool (h : (fs.openDir links path).toBool = true) :
    ∃ place, fs.openDir links path = .ok place := by
  cases hdir : fs.openDir links path with
  | error error => simp [hdir, Except.toBool] at h
  | ok place => exact ⟨place, rfl⟩

/-- The ways in which `create_dir_all` succeeds: the directory is made, it is
there, or the one above it is made first. -/
theorem createDirs_cons {up : List ν} (h : fs.createDirs links (name :: up) = .ok fs') :
    (∃ place, fs.openDir links up.reverse = .ok place ∧ fs.get (place ++ [name]) = none ∧
      fs' = fs.put place name .dir) ∨
    (fs' = fs ∧ ∃ place, fs.openDir links (up.reverse ++ [name]) = .ok place) ∨
    ((∀ place, fs.openDir links up.reverse ≠ .ok place) ∧
      ∃ fs₁, fs.createDirs links up = .ok fs₁ ∧
        ∀ place, fs₁.openDir links up.reverse = .ok place → fs₁.get (place ++ [name]) = none →
          fs' = fs₁.put place name .dir) := by
  simp only [createDirs] at h
  split at h
  · next made hmade =>
      cases h
      exact .inl (mkdir_eq_ok.mp hmade)
  · next hmissing =>
      split at h
      · next fs₁ hup =>
          refine .inr (.inr ⟨fun _ => openDir_of_mkdir hmissing, fs₁, hup, fun place hdir hnew => ?_⟩)
          rw [mkdir_eq_ok.mpr ⟨place, hdir, hnew, rfl⟩] at h
          cases h
          rfl
      · cases h
  · split at h
    · next hopen =>
        cases h
        exact .inr (.inl ⟨rfl, exists_of_toBool hopen⟩)
    · cases h

/-- There is nothing in a directory that was missing. -/
theorem Grown.get_concat (hg : Grown fs fs' place)
    (hmissing : ∀ place, fs.openDir links path ≠ .ok place)
    (hdir : fs'.openDir links path = .ok place) : fs'.get (place ++ [name]) = none := by
  by_contra hsome
  have hold : fs.get (place ++ [name]) ≠ none := by
    rcases hg (place ++ [name]) with ⟨_, hpre, _⟩ | ⟨hsame, _⟩
    · exact absurd hpre.length_le (by simp)
    · rwa [hsame] at hsome
  have hsame := hg.get_eq (get_on_way hold (List.prefix_append _ _))
  exact hmissing place (openDir_keeps (keeps_of_get fun other _ => (hsame other).symm) hdir)

/-- `create_dir_all` leads to a directory, and adds what was missing on the
way to it. -/
theorem createDirs_spec (up : List ν) :
    ∀ {fs'}, fs.createDirs links up = .ok fs' →
      ∃ found, fs'.openDir links up.reverse = .ok found ∧ Grown fs fs' found := by
  induction up with
  | nil =>
      rintro fs' ⟨⟩
      exact ⟨[], openDir_eq_ok.mpr ⟨by cases links <;> rfl, get_nil⟩, grown_refl (by simp)⟩
  | cons name up ih =>
      intro fs' h
      rw [List.reverse_cons]
      rcases createDirs_cons h with ⟨place, hdir, hnew, rfl⟩ | ⟨rfl, place, hdir⟩ |
        ⟨hmissing, fs₁, hup, hmade⟩
      · have hplace := (openDir_eq_ok.mp hdir).2
        exact ⟨_, openDir_put hdir hnew, (grown_refl (by simp [hplace])).put hplace hnew⟩
      · exact ⟨place, hdir, grown_refl (by simp [(openDir_eq_ok.mp hdir).2])⟩
      · obtain ⟨place, hdir, hgrown⟩ := ih hup
        have hnew : fs₁.get (place ++ [name]) = none := hgrown.get_concat hmissing hdir
        obtain rfl := hmade place hdir hnew
        exact ⟨_, openDir_put hdir hnew, hgrown.put (openDir_eq_ok.mp hdir).2 hnew⟩

/-- The place of the first name of a path that is not there, or else of the
last one. The names are given from the last one on. -/
def frontier (fs : FileSystem ν β) (links : Nat) : List ν → Option (List ν)
  | [] => none
  | name :: up =>
      match fs.openDir links up.reverse with
      | .ok place => some (place ++ [name])
      | .error _ => frontier fs links up

theorem frontier_concat {up : List ν} (h : fs.openDir links up = .ok place) :
    fs.frontier links (up ++ [name]).reverse = some (place ++ [name]) := by
  rw [List.reverse_concat', frontier, List.reverse_reverse, h]

/-- What `create_dir_all` makes of a path that is missing starts at the
frontier and goes on with the names that are left. -/
theorem createDirs_frontier (up : List ν) :
    ∀ {fs'}, fs.createDirs links up = .ok fs' →
      (∀ place, fs.openDir links up.reverse ≠ .ok place) →
      ∃ above place name rest, up.reverse = above ++ name :: rest ∧
        fs.openDir links above = .ok place ∧ fs.get (place ++ [name]) = none ∧
        fs.frontier links up = some (place ++ [name]) ∧
        fs'.openDir links up.reverse = .ok (place ++ [name] ++ rest) := by
  induction up with
  | nil =>
      intro fs' _ hnone
      exact absurd (openDir_eq_ok.mpr ⟨by cases links <;> rfl, get_nil⟩) (hnone [])
  | cons name up ih =>
      intro fs' h hnone
      rw [List.reverse_cons] at hnone ⊢
      rcases createDirs_cons h with ⟨place, hdir, hnew, rfl⟩ | ⟨rfl, place, hdir⟩ |
        ⟨hmissing, fs₁, hup, hmade⟩
      · refine ⟨up.reverse, place, name, [], rfl, hdir, hnew, by rw [frontier, hdir], ?_⟩
        rw [List.append_nil]
        exact openDir_put hdir hnew
      · exact absurd hdir (hnone place)
      · obtain ⟨above, place, first, rest, hsplit, habove, hfirst, hfrontier, hdir⟩ := ih hup hmissing
        obtain ⟨found, hfound, hgrown⟩ := createDirs_spec up hup
        rw [hdir] at hfound
        cases hfound
        have hnew : fs₁.get (place ++ [first] ++ rest ++ [name]) = none :=
          hgrown.get_concat hmissing hdir
        obtain rfl := hmade _ hdir hnew
        refine ⟨above, place, first, rest ++ [name], by simp [hsplit], habove, hfirst, ?_, ?_⟩
        · cases hopen : fs.openDir links up.reverse with
          | ok other => exact absurd hopen (hmissing other)
          | error error => rw [frontier, hopen, hfrontier]
        · rw [← List.append_assoc]
          exact openDir_put hdir hnew

theorem createDirAll_spec (h : fs.createDirAll links path = .ok fs') :
    ∃ found, fs'.openDir links path = .ok found ∧ Grown fs fs' found := by
  simpa using createDirs_spec path.reverse h

/-! ## Removing and writing -/

theorem removeDirAll_spec (h : fs.removeDirAll links path = .ok fs') :
    ∃ up name place, path = up ++ [name] ∧ fs.openDir links up = .ok place ∧
      fs.get (place ++ [name]) ≠ none ∧ fs' = fs.removeTree (place ++ [name]) := by
  unfold removeDirAll at h
  split at h
  · next name hlast =>
      split at h
      · next place hdir =>
          split at h
          · cases h
          · next inode hget =>
              cases h
              exact ⟨path.dropLast, name, place, (List.dropLast_append_getLast? name hlast).symm, hdir,
                by simp [hget], rfl⟩
          · cases h
      · cases h
  · cases h

theorem write_spec {content : β} (h : fs.write links path content = .ok fs')
    (hplace : fs.resolve links path = .ok (place ++ [name])) :
    fs.get (place ++ [name]) ≠ some .dir ∧ fs' = fs.put place name (.file content) := by
  simp only [write, hplace, List.getLast?_concat, List.dropLast_concat] at h
  split at h
  · cases h
  · next last hlast hdir =>
      cases h
      cases hlast
      exact ⟨hdir, rfl⟩
  · cases h

theorem copy_spec {source : List ν} (h : fs.copy links source path = .ok fs') :
    ∃ content, fs.look links source = some (.file content) ∧
      fs.write links path content = .ok fs' := by
  unfold copy at h
  split at h
  · next content hstat => exact ⟨content, stat_eq_ok.mp hstat, h⟩
  · cases h
  · cases h

end Kernmini.Lib.FileSystem
