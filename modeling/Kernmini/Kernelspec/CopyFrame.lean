/-
Kernmini.Kernelspec.CopyFrame — what `copy_dir` leaves alone.

The source may lead into the destination by links, or be above it, so the
tree that is copied can change while it is copied. What is not below the
destination stays as it is (`copyDir_frame`), so a path that does not come by
the destination leads to the same all the time, and one that does leads to
what has been copied there so far.

A directory is never copied into itself (`copyDir_into_itself`): such a call
does not return `Ok`, however long it runs.
-/
import Kernmini.Kernelspec.Install
import Kernmini.Lib.FileCalls

namespace Kernmini.Kernelspec

open Kernmini.Lib Kernmini.Lib.FileSystem

variable {sys : System} {fs₁ fs fs' : Files} {src dest D q : List String} {name : String}

/-! ## The destination while it is filled -/

/-- The empty destination: `dest` leads to `D`, and nothing is in it. -/
structure Ready (sys : System) (fs₁ : Files) (dest D : List String) : Prop where
  dest : fs₁.openDir sys.links dest = .ok D
  empty : ∀ rest, rest ≠ [] → fs₁.get (D ++ rest) = none

/-- Only what is below `D` has changed, and there are no links there. -/
structure Filling (fs₁ : Files) (D : List String) (fs : Files) : Prop where
  outside : AgreeOutside D fs₁ fs
  dest : fs.get D = some .dir
  links : NoLinks fs D

theorem Ready.get (hr : Ready sys fs₁ dest D) : fs₁.get D = some .dir :=
  (openDir_eq_ok.mp hr.dest).2

theorem Ready.filling (hr : Ready sys fs₁ dest D) : Filling fs₁ D fs₁ := by
  refine ⟨fun _ _ => rfl, hr.get, fun rest target => ?_⟩
  by_cases hnil : rest = []
  · simp [hnil, hr.get]
  · simp [hr.empty rest hnil]

/-- A path that leads to `D` comes by it with nothing left. -/
theorem Ready.approach_of_openDir (hr : Ready sys fs₁ dest D) {path : List String}
    (h : fs₁.openDir sys.links path = .ok D) : fs₁.approach D sys.links path = .inside [] := by
  obtain ⟨hresolve, hget⟩ := openDir_eq_ok.mp h
  cases happ : fs₁.approach D sys.links path with
  | outside result =>
      have hsame := resolve_outside (fun _ _ => rfl) sys.links path result happ
      rw [hresolve] at hsame
      rw [← hsame] at happ
      exact absurd List.prefix_rfl (approach_outside sys.links path D happ)
  | inside left =>
      obtain ⟨follow, hdescend⟩ :=
        resolve_inside (fun _ _ => rfl) hget sys.links path left happ
      cases left with
      | nil => rfl
      | cons first rest =>
          rw [hresolve, descend, hr.empty [first] (by simp)] at hdescend
          cases rest <;> simp at hdescend

theorem Ready.approach (hr : Ready sys fs₁ dest D) (q : List String) :
    fs₁.approach D sys.links (dest ++ q) = .inside q := by
  simpa using approach_append q sys.links dest [] (hr.approach_of_openDir hr.dest)

namespace Filling

/-- A path that does not come by the destination leads to the same. -/
theorem resolve_outside (hf : Filling fs₁ D fs) {path : List String}
    {result : Except Errno (List String)}
    (happ : fs₁.approach D sys.links path = .outside result) :
    fs.resolve sys.links path = result :=
  FileSystem.resolve_outside hf.outside sys.links path result happ

theorem look_outside (hf : Filling fs₁ D fs) {path : List String}
    {result : Except Errno (List String)}
    (happ : fs₁.approach D sys.links path = .outside result) :
    fs.look sys.links path = fs₁.look sys.links path :=
  FileSystem.look_outside hf.outside happ

/-- A path that comes by the destination leads to what is in it. -/
theorem look_inside (hf : Filling fs₁ D fs) {path left : List String}
    (happ : fs₁.approach D sys.links path = .inside left) :
    fs.look sys.links path = (fs.get (D ++ left)).bind Inode.stat := by
  obtain ⟨follow, hresolve⟩ := resolve_inside hf.outside hf.dest sys.links path left happ
  rw [look_eq_view, hresolve, view_of_noLinks left D hf.links]

theorem resolve_inside (hf : Filling fs₁ D fs) {path left : List String} (happ : fs₁.approach D sys.links path = .inside left)
    (hsome : fs.get (D ++ left) ≠ none) : fs.resolve sys.links path = .ok (D ++ left) := by
  obtain ⟨follow, hresolve⟩ :=
    FileSystem.resolve_inside hf.outside hf.dest sys.links path left happ
  rw [hresolve, descend_of_noLinks left D hf.links hsome]

theorem stat_get (hf : Filling fs₁ D fs) {found : Stat _} :
    (fs.get (D ++ q)).bind Inode.stat = some found ↔
      fs.get (D ++ q) = some (match found with | .dir => .dir | .file content => .file content) := by
  cases hget : fs.get (D ++ q) with
  | none => simp
  | some inode =>
      cases inode with
      | dir => cases found <;> simp [Inode.stat]
      | link target => exact absurd hget (hf.links q target)
      | file content => cases found <;> simp [Inode.stat]

theorem exists_stat (hf : Filling fs₁ D fs) (h : fs.get (D ++ q) ≠ none) :
    ∃ found, (fs.get (D ++ q)).bind Inode.stat = some found := by
  cases hget : fs.get (D ++ q) with
  | none => exact absurd hget h
  | some inode =>
      cases inode with
      | dir => exact ⟨.dir, rfl⟩
      | link target => exact absurd hget (hf.links q target)
      | file content => exact ⟨.file content, rfl⟩

/-- A directory stays where its path leads. -/
theorem openDir_stays (hf : Filling fs₁ D fs) (hf' : Filling fs₁ D fs')
    (hdirs : ∀ place, fs.get place = some .dir → fs'.get place = some .dir)
    {path place : List String} (h : fs.openDir sys.links path = .ok place) :
    fs'.openDir sys.links path = .ok place := by
  obtain ⟨hresolve, hget⟩ := openDir_eq_ok.mp h
  refine openDir_eq_ok.mpr ⟨?_, hdirs place hget⟩
  cases happ : fs₁.approach D sys.links path with
  | outside result =>
      rw [hf'.resolve_outside happ, ← hf.resolve_outside happ, hresolve]
  | inside left =>
      have hlook : fs.look sys.links path = some .dir := look_of_openDir h
      rw [hf.look_inside happ, hf.stat_get] at hlook
      have hplace := hf.resolve_inside happ (by simp [hlook])
      rw [hresolve] at hplace
      rw [hf'.resolve_inside happ (by simp [hdirs _ hlook]), ← hplace]

end Filling

/-! ## One entry -/

/-- One turn of the loop of `copy_dir` that goes well. -/
inductive EntryCopied (sys : System)
    (copy : Files → List String → List String → Option (Except Errno Files))
    (src dest : List String) (fs : Files) (name : String) (fs' : Files) : Prop
  | dir (made : Files) (hlook : fs.look sys.links (src ++ [name]) = some .dir)
      (hmade : fs.createDirAll sys.links (dest ++ [name]) = .ok made)
      (hcopy : copy made (src ++ [name]) (dest ++ [name]) = some (.ok fs'))
  | file (hcopy : fs.copy sys.links (src ++ [name]) (dest ++ [name]) = .ok fs')

theorem copyEntries_cons
    {copy : Files → List String → List String → Option (Except Errno Files)}
    {rest : List String} {fs'' : Files}
    (h : sys.copyEntries copy src dest fs (name :: rest) = some (.ok fs'')) :
    ∃ fs', EntryCopied sys copy src dest fs name fs' ∧
      sys.copyEntries copy src dest fs' rest = some (.ok fs'') := by
  simp only [System.copyEntries] at h
  split at h
  · cases h
  · next hstat =>
      split at h
      · cases h
      · next made hmade =>
          split at h
          · next copied hcopy => exact ⟨copied, .dir made (stat_eq_ok.mp hstat) hmade hcopy, h⟩
          · next hfail => exact absurd h (hfail fs'')
  · split at h
    · cases h
    · next copied hcopy => exact ⟨copied, .file hcopy, h⟩

/-- What may have changed below a directory: something new, or the content of
a file. -/
structure Changed (top : List String) (fs fs' : Files) : Prop where
  below : ∀ place, (top <+: place → place = top) → fs'.get place = fs.get place
  dirs : ∀ place, fs.get place = some .dir → fs'.get place = some .dir
  there : ∀ place, fs.get place ≠ none → fs'.get place ≠ none

namespace Changed

variable {top : List String} {fs'' : Files}

theorem refl : Changed top fs fs := ⟨fun _ _ => rfl, fun _ h => h, fun _ h => h⟩

theorem trans (h : Changed top fs fs') (h' : Changed top fs' fs'') : Changed top fs fs'' :=
  ⟨fun place hout => (h'.below place hout).trans (h.below place hout),
    fun place hdir => h'.dirs place (h.dirs place hdir),
    fun place hsome => h'.there place (h.there place hsome)⟩

/-- What has changed below a directory has changed below the one it is in. -/
theorem up (h : Changed (top ++ [name]) fs fs') : Changed top fs fs' := by
  refine ⟨fun place hout => h.below place fun hin => ?_, h.dirs, h.there⟩
  have htop := hout ((List.prefix_append top [name]).trans hin)
  exact absurd hin.length_le (by simp [htop])

theorem put {inode : Inode _ _} (htop : fs.get top = some .dir)
    (hkeep : fs.get (top ++ [name]) = some .dir → inode = .dir) :
    Changed top fs (fs.put top name inode) := by
  constructor
  · intro place hout
    rw [get_put htop hkeep, if_neg]
    rintro rfl
    simpa using hout (List.prefix_append _ _)
  · intro place hdir
    rw [get_put htop hkeep]
    split
    · next heq => rw [hkeep (heq ▸ hdir)]
    · exact hdir
  · intro place hsome
    rw [get_put htop hkeep]
    split
    · simp
    · exact hsome

end Changed

theorem Filling.put (hf : Filling fs₁ D fs) {inode : Inode _ _} (hq : fs.get (D ++ q) = some .dir)
    (hkeep : fs.get (D ++ q ++ [name]) = some .dir → inode = .dir)
    (hlink : ∀ target, inode ≠ .link target) : Filling fs₁ D (fs.put (D ++ q) name inode) := by
  constructor
  · intro place hout
    rw [get_put hq hkeep, if_neg, hf.outside place hout]
    rintro rfl
    exact hout (by simp [List.append_assoc])
  · exact (Changed.put hq hkeep).dirs D hf.dest
  · intro rest target
    rw [get_put hq hkeep]
    split
    · simpa using hlink target
    · exact hf.links rest target

/-- A copy that changes nothing but what is below its destination. -/
def Framed (fs₁ : Files) (dest D : List String)
    (copy : Files → List String → List String → Option (Except Errno Files)) : Prop :=
  ∀ fs fs' src q, copy fs src (dest ++ q) = some (.ok fs') → Filling fs₁ D fs →
    fs.get (D ++ q) = some .dir → Filling fs₁ D fs' ∧ Changed (D ++ q) fs fs'

section

variable (hr : Ready sys fs₁ dest D)

include hr

theorem Filling.openDest (hf : Filling fs₁ D fs) (hq : fs.get (D ++ q) = some .dir) :
    fs.openDir sys.links (dest ++ q) = .ok (D ++ q) :=
  openDir_eq_ok.mpr ⟨hf.resolve_inside (hr.approach q) (by simp [hq]), hq⟩

theorem Filling.look_dest (hf : Filling fs₁ D fs) (q : List String) :
    fs.look sys.links (dest ++ q) = (fs.get (D ++ q)).bind Inode.stat :=
  hf.look_inside (hr.approach q)

/-- `create_dir_all` of an entry makes it if it is not there. -/
theorem createDirAll_entry (hf : Filling fs₁ D fs) (hq : fs.get (D ++ q) = some .dir)
    (h : fs.createDirAll sys.links (dest ++ q ++ [name]) = .ok fs') :
    (fs.get (D ++ q ++ [name]) = none ∧ fs' = fs.put (D ++ q) name .dir) ∨
      (fs.get (D ++ q ++ [name]) = some .dir ∧ fs' = fs) := by
  have hdir := hf.openDest hr hq
  rw [createDirAll, List.reverse_concat', createDirs] at h
  simp only [List.reverse_reverse, mkdir, hdir] at h
  cases hget : fs.get (D ++ q ++ [name]) with
  | none =>
      simp only [hget, Except.ok.injEq] at h
      exact .inl ⟨rfl, h.symm⟩
  | some inode =>
      simp only [hget] at h
      split at h
      · next hopen =>
          cases h
          refine .inr ⟨?_, rfl⟩
          have hresolve : fs.resolve sys.links (dest ++ q ++ [name]) = .ok (D ++ q ++ [name]) :=
            resolve_concat_of_not_link hdir fun target => by
              rw [List.append_assoc]
              exact hf.links (q ++ [name]) target
          cases hopened : fs.openDir sys.links (dest ++ q ++ [name]) with
          | error errno =>
              rw [hopened] at hopen
              cases hopen
          | ok place =>
              obtain ⟨hplace, hdir'⟩ := openDir_eq_ok.mp hopened
              rw [hresolve] at hplace
              cases hplace
              rw [← hget, hdir']
      · cases h

/-- The `copy` of an entry writes it. -/
theorem copy_entry (hf : Filling fs₁ D fs) (hq : fs.get (D ++ q) = some .dir)
    {source : List String} (h : fs.copy sys.links source (dest ++ q ++ [name]) = .ok fs') :
    ∃ content, fs.look sys.links source = some (.file content) ∧
      fs.get (D ++ q ++ [name]) ≠ some .dir ∧ fs' = fs.put (D ++ q) name (.file content) := by
  obtain ⟨content, hlook, hwrite⟩ := copy_spec h
  have hresolve : fs.resolve sys.links (dest ++ q ++ [name]) = .ok (D ++ q ++ [name]) :=
    resolve_concat_of_not_link (hf.openDest hr hq) fun target => by
      rw [List.append_assoc]
      exact hf.links (q ++ [name]) target
  exact ⟨content, hlook, write_spec hwrite hresolve⟩

/-! ## Nothing but the destination changes -/

theorem createDirAll_frame (hf : Filling fs₁ D fs) (hq : fs.get (D ++ q) = some .dir)
    (h : fs.createDirAll sys.links (dest ++ q ++ [name]) = .ok fs') :
    Filling fs₁ D fs' ∧ Changed (D ++ q) fs fs' ∧ fs'.get (D ++ q ++ [name]) = some .dir := by
  rcases createDirAll_entry hr hf hq h with ⟨hnew, rfl⟩ | ⟨hold, rfl⟩
  · exact ⟨hf.put hq (by simp) (by simp), Changed.put hq (by simp), by simp [get_put hq]⟩
  · exact ⟨hf, Changed.refl, hold⟩

section

variable {copy : Files → List String → List String → Option (Except Errno Files)}
  (hcopy : Framed fs₁ dest D copy)

include hcopy

theorem entry_frame (hf : Filling fs₁ D fs) (hq : fs.get (D ++ q) = some .dir)
    (h : EntryCopied sys copy src (dest ++ q) fs name fs') :
    Filling fs₁ D fs' ∧ Changed (D ++ q) fs fs' := by
  cases h with
  | dir made hlook hmade hrec =>
      obtain ⟨hf', hchanged, hname⟩ := createDirAll_frame hr hf hq hmade
      rw [List.append_assoc] at hrec hname
      obtain ⟨hfs', hbelow⟩ := hcopy _ _ _ _ hrec hf' hname
      rw [← List.append_assoc] at hbelow
      exact ⟨hfs', hchanged.trans hbelow.up⟩
  | file hrec =>
      obtain ⟨content, _, hnot, rfl⟩ := copy_entry hr hf hq hrec
      exact ⟨hf.put hq (fun h => absurd h hnot) (by simp), Changed.put hq fun h => absurd h hnot⟩

/-- Only the entry itself changes. -/
theorem entry_elsewhere (hf : Filling fs₁ D fs) (hq : fs.get (D ++ q) = some .dir)
    (h : EntryCopied sys copy src (dest ++ q) fs name fs') {place : List String}
    (hplace : ¬ D ++ q ++ [name] <+: place) : fs'.get place = fs.get place := by
  have hne : place ≠ D ++ q ++ [name] := by
    rintro rfl
    exact hplace List.prefix_rfl
  cases h with
  | dir made hlook hmade hrec =>
      obtain ⟨hf', _, hname⟩ := createDirAll_frame hr hf hq hmade
      have hmade' : made.get place = fs.get place := by
        rcases createDirAll_entry hr hf hq hmade with ⟨_, rfl⟩ | ⟨_, rfl⟩
        · rw [get_put hq (by simp), if_neg hne]
        · rfl
      rw [List.append_assoc] at hrec hname hplace
      rw [(hcopy _ _ _ _ hrec hf' hname).2.below place fun hin => absurd hin hplace, hmade']
  | file hrec =>
      obtain ⟨content, _, hnot, rfl⟩ := copy_entry hr hf hq hrec
      rw [get_put hq (fun h => absurd h hnot), if_neg hne]

theorem copyEntries_frame (names : List String) :
    ∀ {fs fs'}, Filling fs₁ D fs → fs.get (D ++ q) = some .dir →
      sys.copyEntries copy src (dest ++ q) fs names = some (.ok fs') →
      Filling fs₁ D fs' ∧ Changed (D ++ q) fs fs' := by
  induction names with
  | nil =>
      rintro fs fs' hf _ ⟨⟩
      exact ⟨hf, Changed.refl⟩
  | cons name rest ih =>
      intro fs fs'' hf hq h
      obtain ⟨fs', hentry, hrest⟩ := copyEntries_cons h
      obtain ⟨hf', hchanged⟩ := entry_frame hr hcopy hf hq hentry
      obtain ⟨hf'', hchanged'⟩ := ih hf' (hchanged.dirs _ hq) hrest
      exact ⟨hf'', hchanged.trans hchanged'⟩

/-- Each name of the list is copied at some time of the loop. -/
theorem copyEntries_mem (names : List String) (hmem : name ∈ names) :
    ∀ {fs fs'}, Filling fs₁ D fs → fs.get (D ++ q) = some .dir →
      sys.copyEntries copy src (dest ++ q) fs names = some (.ok fs') →
      ∃ before after, Filling fs₁ D before ∧ Changed (D ++ q) fs before ∧
        EntryCopied sys copy src (dest ++ q) before name after := by
  induction names with
  | nil => cases hmem
  | cons first rest ih =>
      intro fs fs'' hf hq h
      obtain ⟨fs', hentry, hrest⟩ := copyEntries_cons h
      rcases List.mem_cons.mp hmem with rfl | hmem'
      · exact ⟨fs, fs', hf, Changed.refl, hentry⟩
      · obtain ⟨hf', hchanged⟩ := entry_frame hr hcopy hf hq hentry
        obtain ⟨before, after, hf'', hchanged', hthis⟩ := ih hmem' hf' (hchanged.dirs _ hq) hrest
        exact ⟨before, after, hf'', hchanged.trans hchanged', hthis⟩

end

/-- `copy_dir` changes nothing but what is below its destination. -/
theorem copyDir_frame (fuel : Nat) : Framed fs₁ dest D (sys.copyDir fuel) := by
  induction fuel with
  | zero =>
      intro fs fs' src q h
      cases h
  | succ fuel ih =>
      intro fs fs' src q h hf hq
      simp only [System.copyDir] at h
      split at h
      · cases h
      · exact copyEntries_frame hr ih _ hf hq h

/-! ## Copying a directory into itself -/

/-- A directory is not copied to a place below it: the directory made there
is found again in the one that is copied, with the same to be done for it. -/
theorem copyDir_into_itself (fuel : Nat) :
    ∀ {fs fs' source place q}, Filling fs₁ D fs → fs.get (D ++ q) = some .dir →
      fs.openDir sys.links source = .ok place → place <+: D ++ q → place ≠ D ++ q →
      sys.copyDir fuel fs source (dest ++ q) ≠ some (.ok fs') := by
  induction fuel with
  | zero =>
      intro fs fs' source place q _ _ _ _ _ h
      cases h
  | succ fuel ih =>
      intro fs fs' source place q hf hq hopen hpre hne h
      -- the name on the way from the directory to the destination
      obtain ⟨rest, hrest⟩ := hpre
      obtain ⟨next, rest, rfl⟩ : ∃ next rest', rest = next :: rest' := by
        cases rest with
        | nil => exact absurd (by simpa using hrest) hne
        | cons next rest => exact ⟨next, rest, rfl⟩
      rw [List.append_cons] at hrest
      have hnext : fs.get (place ++ [next]) = some .dir := by
        by_cases hnil : rest = []
        · rw [hnil, List.append_nil] at hrest
          rw [hrest, hq]
        · exact get_above (by simp [hrest, hq]) hnil
      simp only [System.copyDir, hopen] at h
      have hmem : next ∈ sys.readOrder.list fs place := by
        rw [(sys.readOrder.perm fs place).mem_iff, mem_names, hnext]
        simp
      obtain ⟨before, after, hf', hchanged, hentry⟩ :=
        copyEntries_mem hr (copyDir_frame hr fuel) _ hmem hf hq h
      have hq' := hchanged.dirs _ hq
      have hopen' := hf.openDir_stays hf' hchanged.dirs hopen
      have hnext' := hchanged.dirs _ hnext
      have hdeeper : before.openDir sys.links (source ++ [next]) = .ok (place ++ [next]) :=
        openDir_eq_ok.mpr ⟨resolve_concat_of_not_link hopen' (by simp [hnext']), hnext'⟩
      cases hentry with
      | dir made hlook hmade hrec =>
          obtain ⟨hf'', hchanged', hname⟩ := createDirAll_frame hr hf' hq' hmade
          have hopen'' := hf'.openDir_stays hf'' hchanged'.dirs hdeeper
          rw [List.append_assoc] at hrec hname
          refine ih hf'' hname hopen'' ?_ ?_ hrec
          · rw [← List.append_assoc, ← hrest, List.append_assoc]
            exact List.prefix_append _ _
          · intro heq
            have hlen := congrArg List.length heq
            have hlen' := congrArg List.length hrest
            simp only [List.length_append, List.length_cons, List.length_nil] at hlen hlen'
            omega
      | file hrec =>
          obtain ⟨content, hlook, _, _⟩ := copy_entry hr hf' hq' hrec
          rw [look_of_openDir hdeeper] at hlook
          cases hlook

end

end Kernmini.Kernelspec
