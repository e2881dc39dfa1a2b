/-
Kernmini.Kernelspec.InstallTheorems — when `install_kernelspec_dir` installs
the tree that was at its source.

The destination is emptied before the source is read. `Emptied` says what
that does: below the first place that was removed or was missing there are
only the directories on the way to the destination. If the call succeeds, the
destination looks like the source does after the call. That is the source
from before the call unless the emptying has changed it: unless the source is
the destination itself, or a link below it leads into the destination to
something the call has replaced by something else (`Undisturbed`, in terms of
the tree before the call).
-/
import Kernmini.Kernelspec.CopyTheorems

namespace Kernmini.Kernelspec

open Kernmini.Lib Kernmini.Lib.FileSystem

variable {sys : System} {fs fs₁ fs' : Files} {src dest K c q : List String} {name : String}

/-! ## Emptying -/

/-- Nothing has changed but what is at the frontier `K` of the destination and
below it, and there are only the directories on the way to the destination. -/
structure Emptied (sys : System) (fs fs₁ : Files) (dest K c : List String) : Prop where
  frontier : fs.frontier sys.links dest.reverse = some K
  dest : fs₁.openDir sys.links dest = .ok (K ++ c)
  outside : AgreeOutside K fs₁ fs
  chain : Chain fs₁ K c

theorem Emptied.ready (he : Emptied sys fs fs₁ dest K c) : Ready sys fs₁ dest (K ++ c) := by
  refine ⟨he.dest, fun rest hrest => ?_⟩
  rw [List.append_assoc]
  exact he.chain.bare (c ++ rest) (above_outside hrest)

theorem Emptied.get (he : Emptied sys fs fs₁ dest K c) : fs₁.get K = some .dir := by
  simpa using he.chain.dirs [] ( List.nil_prefix)

/-- Once there is nothing at `K`, making the destination below it leaves it
empty. -/
theorem emptied_of_grown {cleared : Files} {parent : List String} (hparent : fs.get parent = some .dir)
    (hfrontier : fs.frontier sys.links dest.reverse = some (parent ++ [name]))
    (hcleared : ∀ other, cleared.get other =
      if parent ++ [name] <+: other then none else fs.get other)
    (hfound : fs₁.openDir sys.links dest = .ok (parent ++ [name] ++ c))
    (hgrown : Grown cleared fs₁ (parent ++ [name] ++ c)) :
    Emptied sys fs fs₁ dest (parent ++ [name]) c := by
  have hbelow : ∀ rest, cleared.get (parent ++ [name] ++ rest) = none := by
    intro rest
    rw [hcleared, if_pos (List.prefix_append _ _)]
  refine ⟨hfrontier, hfound, fun other hout => ?_, fun rest hrest => ?_, fun rest hrest => ?_⟩
  · have hsame : cleared.get other = fs.get other := by rw [hcleared, if_neg hout]
    rcases hgrown other with ⟨hnone, hpre, _⟩ | ⟨hold, _⟩
    · -- what is above `K` was there
      have habove : other <+: parent := by
        rcases List.prefix_or_prefix_of_prefix hpre (List.prefix_append (parent ++ [name]) c) with h | h
        · rw [List.prefix_concat_iff] at h
          exact h.resolve_left fun heq => hout (heq ▸ List.prefix_rfl)
        · exact absurd h hout
      rw [hsame] at hnone
      exact absurd hnone (get_on_way (by simp [hparent]) habove)
    · rw [hold, hsame]
  · rcases hgrown (parent ++ [name] ++ rest) with ⟨_, _, hdir⟩ | ⟨_, hthere⟩
    · exact hdir
    · have hpre := (List.prefix_append_right_inj (parent ++ [name])).mpr hrest
      exact absurd (hbelow rest) (hthere hpre)
  · rcases hgrown (parent ++ [name] ++ rest) with ⟨_, hpre, _⟩ | ⟨hold, _⟩
    · exact absurd ((List.prefix_append_right_inj _).mp hpre) hrest
    · rw [hold, hbelow rest]

/-- The destination was there and was removed. -/
theorem emptied_of_removed {cleared : Files} (hlook : fs.look sys.links dest ≠ none)
    (hremoved : fs.removeDirAll sys.links dest = .ok cleared)
    (hmade : cleared.createDirAll sys.links dest = .ok fs₁) :
    ∃ K c, Emptied sys fs fs₁ dest K c := by
  obtain ⟨up, name, parent, rfl, hup, hentry, rfl⟩ := removeDirAll_spec hremoved
  have hcleared : ∀ other, (fs.removeTree (parent ++ [name])).get other =
      if parent ++ [name] <+: other then none else fs.get other :=
    fun other => get_removeTree (by simp)
  -- what is left was there
  have hkeeps : Keeps (fs.removeTree (parent ++ [name])) fs := by
    refine keeps_of_get fun other hsome => ?_
    rw [hcleared] at hsome ⊢
    split at hsome
    · exact absurd rfl hsome
    · next hout => rw [if_neg hout]
  have hgone : ∀ place, (fs.removeTree (parent ++ [name])).openDir sys.links (up ++ [name]) ≠ .ok place := by
    intro place hdir
    obtain ⟨parent', hup', hthere⟩ := look_concat (by rw [look_of_openDir hdir]; simp)
    have hold := openDir_keeps hkeeps hup'
    rw [hup] at hold
    cases hold
    exact hthere (by rw [hcleared, if_pos List.prefix_rfl])
  obtain ⟨found, hfound, hgrown⟩ := createDirAll_spec hmade
  obtain ⟨above, place, first, rest, hsplit, habove, hfirst, _, hdir⟩ :=
    createDirs_frontier _ hmade (by rwa [List.reverse_reverse])
  rw [List.reverse_reverse] at hsplit hdir
  rw [hfound] at hdir
  cases hdir
  -- the first name that is missing was there before, so it is below what was removed
  have hbelow : parent ++ [name] <+: place ++ [first] := by
    rw [hsplit] at hlook
    obtain ⟨place', habove', hthere⟩ := look_on_way rest hlook
    have hold := openDir_keeps hkeeps habove
    rw [habove'] at hold
    cases hold
    by_contra hout
    rw [hcleared, if_neg hout] at hfirst
    exact hthere hfirst
  obtain ⟨c, hc⟩ := hbelow.trans (List.prefix_append (place ++ [first]) rest)
  rw [← hc] at hfound hgrown
  exact ⟨parent ++ [name], c, emptied_of_grown (openDir_eq_ok.mp hup).2 (frontier_concat hup) hcleared
    hfound hgrown⟩

/-- The destination was missing. -/
theorem emptied_of_missing (hlook : fs.look sys.links dest = none)
    (hmade : fs.createDirAll sys.links dest = .ok fs₁) : ∃ K c, Emptied sys fs fs₁ dest K c := by
  have hmissing : ∀ place, fs.openDir sys.links dest ≠ .ok place := by
    intro place hdir
    rw [look_of_openDir hdir] at hlook
    cases hlook
  obtain ⟨found, hfound, hgrown⟩ := createDirAll_spec hmade
  obtain ⟨above, parent, name, c, _, habove, hnone, hfrontier, hdir⟩ :=
    createDirs_frontier _ hmade (by rwa [List.reverse_reverse])
  rw [List.reverse_reverse, hfound] at hdir
  cases hdir
  refine ⟨parent ++ [name], c, emptied_of_grown (openDir_eq_ok.mp habove).2 hfrontier ?_ hfound hgrown⟩
  intro other
  split
  · next hin =>
      obtain ⟨rest, rfl⟩ := hin
      by_contra hsome
      exact get_on_way hsome (List.prefix_append _ _) hnone
  · rfl

theorem emptied_spec (h : sys.emptied fs dest = .ok fs₁) : ∃ K c, Emptied sys fs fs₁ dest K c := by
  unfold System.emptied at h
  split at h
  · next hlook =>
    split at h
    · next cleared hremoved => exact emptied_of_removed (by simpa [← Option.isSome_iff_ne_none] using hlook) hremoved h
    · cases h
  · next hlook => exact emptied_of_missing (by simpa using hlook) h

/-! ## The source before the call and after it -/

section

variable {fs₂ : Files} (he : Emptied sys fs fs₁ dest K c) (hc : Copied sys fs₁ src dest (K ++ c) fs₂)

include he hc

/-- What has been removed is filled with directories and copies. -/
theorem filling_removed : Filling fs₁ K fs₂ := by
  have hout : ∀ rest, ¬ c <+: rest → fs₂.get (K ++ rest) = fs₁.get (K ++ rest) := by
    intro rest hrest
    refine hc.filling.outside _ fun hpre => hrest ?_
    exact (List.prefix_append_right_inj K).mp hpre
  constructor
  · intro place hplace
    exact hc.filling.outside place fun hpre => hplace ((List.prefix_append K c).trans hpre)
  · by_cases hnil : c = []
    · simpa [hnil] using hc.filling.dest
    · have hnot : ¬ c <+: [] := fun hpre => hnil (List.prefix_nil.mp hpre)
      simpa using (hout [] hnot).trans (by simpa using he.get)
  · intro rest target
    by_cases hin : c <+: rest
    · obtain ⟨left, rfl⟩ := hin
      rw [← List.append_assoc]
      exact hc.filling.links left target
    · rw [hout rest hin]
      by_cases hchain : rest <+: c
      · simp [he.chain.dirs rest hchain]
      · simp [he.chain.bare rest hchain]

/-- A directory that has been copied is not above the destination. -/
theorem prefix_of_shown {x : List String}
    (happ : fs₁.approach K sys.links (src ++ q) = .inside x)
    (hlook : fs₂.look sys.links (src ++ q) ≠ none) : c <+: x := by
  have hfK := filling_removed he hc
  have hK : fs₁.get K = some .dir := he.get
  by_contra hin
  rw [hfK.look_inside happ] at hlook
  have hthere : fs₂.get (K ++ x) ≠ none := fun hnone => hlook (by simp [hnone])
  have hsame : fs₂.get (K ++ x) = fs₁.get (K ++ x) :=
    hc.filling.outside _ fun hpre => hin ((List.prefix_append_right_inj K).mp hpre)
  have hchain : x <+: c := by
    by_contra hnot
    exact hthere (hsame.trans (he.chain.bare x hnot))
  have hplace : fs₂.get (K ++ x) = some .dir := hsame.trans (he.chain.dirs x hchain)
  have hopen : fs₂.openDir sys.links (src ++ q) = .ok (K ++ x) :=
    openDir_eq_ok.mpr ⟨hfK.resolve_inside happ hthere, hplace⟩
  have hcopied := hc.filling.stat_get.mp (hc.complete q .dir (look_of_openDir hopen))
  refine (hc.finished q _ hcopied hopen).apart ?_
  rw [List.append_nil]
  exact (List.prefix_append_right_inj K).mpr hchain

/-- A path of the source that comes by what was removed comes by the
destination. -/
theorem prefix_of_approach (q : List String) :
    ∀ x, fs₁.approach K sys.links (src ++ q) = .inside x → c <+: x := by
  have hfK := filling_removed he hc
  have hK : fs₁.get K = some .dir := he.get
  induction q using List.reverseRecOn with
  | nil =>
      intro x happ
      obtain ⟨place, hopen⟩ := hc.source
      refine prefix_of_shown he hc happ ?_
      rw [List.append_nil, look_of_openDir hopen]
      simp
  | append_singleton q name ih =>
      intro x happ
      cases hup : fs₁.approach K sys.links (src ++ q) with
      | inside x' =>
          have happ' := approach_append [name] sys.links _ _ hup
          rw [List.append_assoc, happ] at happ'
          cases happ'
          exact (ih x' hup).trans (List.prefix_append _ _)
      | outside result =>
          rw [← List.append_assoc] at happ
          obtain ⟨place, rfl, hplace, hentry⟩ := approach_concat (by simp [hK]) hup happ
          have hnot := approach_outside sys.links _ _ hup
          have hplace₂ : fs₂.get place = some .dir := (hfK.outside place hnot).trans hplace
          have hopen : fs₂.openDir sys.links (src ++ q) = .ok place :=
            openDir_eq_ok.mpr ⟨hfK.resolve_outside hup, hplace₂⟩
          have hdir := hc.filling.stat_get.mp (hc.complete q .dir (look_of_openDir hopen))
          obtain ⟨hapart, hentries⟩ := hc.finished q place hdir hopen
          rw [List.append_nil] at hapart
          have hentry₂ : fs₂.get (place ++ [name]) ≠ none := by
            rw [hfK.outside _ fun hpre => hapart ?_]
            · exact hentry
            · have heq := eq_of_prefix_concat hnot hpre
              rw [heq, List.append_assoc]
              exact List.prefix_append _ _
          have hthere := hentries name hentry₂
          rw [List.append_assoc] at hthere happ
          obtain ⟨found, hfound⟩ := hc.filling.exists_stat hthere
          refine prefix_of_shown he hc happ ?_
          rw [(hc.sound _ found (by simp) hfound).2]
          simp

/-- A path of the source that does not come by the destination does not come
by what was removed either. -/
theorem approach_removed {result : Except Errno (List String)}
    (happ : fs₁.approach (K ++ c) sys.links (src ++ q) = .outside result) :
    ∃ result', fs₁.approach K sys.links (src ++ q) = .outside result' := by
  cases hK : fs₁.approach K sys.links (src ++ q) with
  | outside result' => exact ⟨result', rfl⟩
  | inside x =>
      obtain ⟨left, rfl⟩ := prefix_of_approach he hc q x hK
      rw [(he.chain.approach_iff sys.links _).mpr hK] at happ
      cases happ

theorem look_before {result : Except Errno (List String)}
    (happ : fs₁.approach (K ++ c) sys.links (src ++ q) = .outside result) :
    fs.look sys.links (src ++ q) = fs₁.look sys.links (src ++ q) := by
  obtain ⟨result', happ'⟩ := approach_removed he hc happ
  exact look_outside he.outside happ'

/-! ### When the links into the destination led to what the source had there -/

section

variable (hlinks : ∀ q p, fs₁.approach (K ++ c) sys.links (src ++ q) = .inside p →
  fs.look sys.links (src ++ q) = fs.look sys.links (src ++ p))

include hlinks

/-- What was supplied was at the source before. -/
theorem look_supplied {found : Stat Wire.Bytes} (h : Supplied sys fs₁ src (K ++ c) q found) :
    fs.look sys.links (src ++ q) = some found := by
  induction h with
  | outside q found result happ hlook => rw [look_before he hc happ, hlook]
  | inside q p found happ _ ih => rw [hlinks q p happ, ih]

/-- An entry that was at the source of a directory has been copied. -/
theorem get_supplied {found : Stat Wire.Bytes} (h : Supplied sys fs₁ src (K ++ c) q found) :
    fs₂.get (K ++ c ++ q) = some .dir → fs.look sys.links (src ++ (q ++ [name])) ≠ none →
      fs₂.get (K ++ c ++ (q ++ [name])) ≠ none := by
  have hfK := filling_removed he hc
  have hK : fs₁.get K = some .dir := he.get
  induction h with
  | outside q found result happ hlook =>
      intro hdir hentry
      obtain ⟨result', happ'⟩ := approach_removed he hc happ
      rw [← List.append_assoc] at hentry
      obtain ⟨place, hopen, hname⟩ := look_concat hentry
      obtain ⟨hresolve, hplace⟩ := openDir_eq_ok.mp hopen
      obtain rfl : result' = .ok place := by
        rw [← hresolve, resolve_outside he.outside sys.links _ _ happ']
      have hnot := approach_outside sys.links _ _ happ'
      have hsame : ∀ other, ¬ K <+: other → fs₂.get other = fs.get other :=
        fun other hout => (hfK.outside other hout).trans (he.outside other hout).symm
      have hopen₂ : fs₂.openDir sys.links (src ++ q) = .ok place :=
        openDir_eq_ok.mpr ⟨hfK.resolve_outside happ', (hsame place hnot).trans hplace⟩
      obtain ⟨hapart, hentries⟩ := hc.finished q place hdir hopen₂
      rw [← List.append_assoc]
      refine hentries name ?_
      rw [hsame _ fun hpre => hapart ?_]
      · exact hname
      · rw [eq_of_prefix_concat hnot hpre]
        simp
  | inside q p found happ hp ih =>
      intro hdir hentry
      have happ' := approach_append [name] sys.links _ _ happ
      rw [List.append_assoc] at happ'
      have hshown : fs₂.look sys.links (src ++ q) = some .dir := by
        rw [← hc.look_copied, hc.filling.look_dest hc.ready, hdir]
        rfl
      rw [hc.filling.look_inside happ] at hshown
      have hpdir : fs₂.get (K ++ c ++ p) = some .dir := hc.filling.stat_get.mp hshown
      rw [hlinks _ _ happ'] at hentry
      obtain ⟨found', hfound'⟩ := hc.filling.exists_stat (ih hpdir hentry)
      rw [← hc.filling.look_inside happ'] at hfound'
      have hcopied := hc.complete _ _ hfound'
      intro hnone
      rw [hnone] at hcopied
      cases hcopied

/-- What the source had has been copied. -/
theorem get_of_source (q : List String) :
    fs.look sys.links (src ++ q) ≠ none → fs₂.get (K ++ c ++ q) ≠ none := by
  induction q using List.reverseRecOn with
  | nil =>
      intro _
      rw [List.append_nil, hc.filling.dest]
      simp
  | append_singleton q name ih =>
      intro hentry
      have hentry' := hentry
      rw [← List.append_assoc] at hentry'
      obtain ⟨place, hopen, _⟩ := look_concat hentry'
      have hlook := look_of_openDir hopen
      obtain ⟨found, hfound⟩ := hc.filling.exists_stat (ih (by rw [hlook]; simp))
      have hsupplied := hc.supplied hfound
      have hdir := look_supplied he hc hlinks hsupplied
      rw [hlook] at hdir
      cases hdir
      exact get_supplied he hc hlinks hsupplied (hc.filling.stat_get.mp hfound) hentry

theorem look_of_links (q : List String) :
    fs₂.look sys.links (dest ++ q) = fs.look sys.links (src ++ q) := by
  have hsound : ∀ found, (fs₂.get (K ++ c ++ q)).bind Inode.stat = some found →
      fs.look sys.links (src ++ q) = some found :=
    fun found hfound => look_supplied he hc hlinks (hc.supplied hfound)
  rw [hc.filling.look_dest hc.ready]
  cases hlook : fs.look sys.links (src ++ q) with
  | some found =>
      obtain ⟨found', hfound'⟩ :=
        hc.filling.exists_stat (get_of_source he hc hlinks q (by simp [hlook]))
      rw [hfound', ← hlook, hsound found' hfound']
  | none =>
      by_contra hsome
      obtain ⟨found, hfound⟩ := Option.ne_none_iff_exists'.mp hsome
      rw [hsound found hfound] at hlook
      cases hlook

end

/-- The destination looks like the source before the call exactly if the links
of the source into the destination led to what the source had there. -/
theorem look_copied_iff :
    (∀ q, fs₂.look sys.links (dest ++ q) = fs.look sys.links (src ++ q)) ↔
      ∀ q p, fs₁.approach (K ++ c) sys.links (src ++ q) = .inside p →
        fs.look sys.links (src ++ q) = fs.look sys.links (src ++ p) := by
  constructor
  · intro hsame q p happ
    calc fs.look sys.links (src ++ q)
      _ = fs₂.look sys.links (src ++ q) := by rw [← hsame, hc.look_copied]
      _ = (fs₂.get (K ++ c ++ p)).bind Inode.stat := hc.filling.look_inside happ
      _ = fs₂.look sys.links (dest ++ p) := (hc.filling.look_dest hc.ready p).symm
      _ = fs.look sys.links (src ++ p) := hsame p
  · exact look_of_links he hc

end

/-! ## The destination as its own source -/

/-- A `copy_dir` of the empty destination into itself does nothing. -/
theorem copyDir_of_dest {D : List String} (hr : Ready sys fs₁ dest D)
    (hsrc : fs₁.openDir sys.links src = .ok D) {fuel : Nat}
    (h : sys.copyDir fuel fs₁ src dest = some (.ok fs')) : fs' = fs₁ := by
  cases fuel with
  | zero => cases h
  | succ fuel =>
      have hnames : fs₁.names D = [] := by
        rw [List.eq_nil_iff_forall_not_mem]
        intro name hname
        exact mem_names.mp hname (hr.empty [name] (by simp))
      have hlist : sys.readOrder.list fs₁ D = [] := by
        have hperm := sys.readOrder.perm fs₁ D
        rw [hnames] at hperm
        exact hperm.eq_nil
      simp only [System.copyDir, hsrc, hlist, System.copyEntries, Option.some.injEq,
        Except.ok.injEq] at h
      exact h.symm

/-! ## The installation -/

theorem fresh_spec {base : Option PathBuf} {dest : PathBuf}
    (h : sys.fresh fs name base = .ok (dest, fs₁)) :
    (∃ kernels, sys.kernelsDir base = .ok kernels ∧ dest = kernels.join (.ofString name)) ∧
      sys.emptied fs (sys.path dest) = .ok fs₁ := by
  unfold System.fresh at h
  split at h
  · cases h
  · next kernels hkernels =>
      simp only at h
      split at h
      · next made hmade =>
          cases h
          exact ⟨⟨kernels, hkernels, rfl⟩, hmade⟩
      · cases h

theorem install_spec {fuel : Nat} {source dest : PathBuf} {base : Option PathBuf}
    (h : sys.installKernelspecDir fuel fs source name base = some (.ok (dest, fs'))) :
    ∃ fs₁, sys.fresh fs name base = .ok (dest, fs₁) ∧
      sys.copyDir fuel fs₁ (sys.path source) (sys.path dest) = some (.ok fs') := by
  unfold System.installKernelspecDir at h
  split at h
  · cases h
  · next dest' fs₁ hfresh =>
      split at h
      · cases h
      · next copied hcopy =>
          cases h
          exact ⟨fs₁, hfresh, hcopy⟩
      · cases h

/-- The call takes away what is at `K`, and the way to the destination goes on
with `c` from there. -/
def Replaces (sys : System) (fs : Files) (name : String) (base : Option PathBuf)
    (K c : List String) : Prop :=
  ∃ kernels, sys.kernelsDir base = .ok kernels ∧
    fs.frontier sys.links (sys.path (kernels.join (.ofString name))).reverse = some K ∧
    fs.approach K sys.links (sys.path (kernels.join (.ofString name))) = .inside c

/-- The path comes by what is taken away, and by the destination, with `p` left
of it. -/
def LeadsInto (sys : System) (fs : Files) (name : String) (base : Option PathBuf)
    (path p : List String) : Prop :=
  ∃ K c, Replaces sys fs name base K c ∧ fs.approach K sys.links path = .inside (c ++ p)

/-- Emptying the destination takes nothing from the source that is not put
there again. -/
structure Undisturbed (sys : System) (fs : Files) (source : PathBuf) (name : String)
    (base : Option PathBuf) : Prop where
  /-- the source is not the destination, unless it is an empty directory -/
  apart : LeadsInto sys fs name base (sys.path source) [] →
    fs.look sys.links (sys.path source) = some .dir ∧
      ∀ q, q ≠ [] → fs.look sys.links (sys.path source ++ q) = none
  /-- where a link of the source leads into the destination, to `p` there, it
  leads to what the source has at `p` -/
  links : ∀ q p, LeadsInto sys fs name base (sys.path source ++ q) p →
    fs.look sys.links (sys.path source ++ q) = fs.look sys.links (sys.path source ++ p)

/-- The paths of a call mean what their names say: no `..` is on them or in a
link, the source is not the empty path, and the name does not end with a slash
or a `.`, at which `remove_dir_all` does not stop at a link. -/
structure PlainPaths (sys : System) (fs : Files) (source : PathBuf) (name : String)
    (base : Option PathBuf) : Prop where
  nonempty : source.text ≠ ""
  source : ".." ∉ sys.path source
  dest : ∀ kernels, sys.kernelsDir base = .ok kernels →
    ".." ∉ sys.path (kernels.join (.ofString name))
  last : ∀ piece ∈ (PathBuf.ofString name).pieces.getLast?, piece ≠ "" ∧ piece ≠ "."
  links : ∀ place target, fs.get place = some (.link target) → ".." ∉ target

theorem leadsInto_iff {base : Option PathBuf} {dest : PathBuf} {path p : List String}
    (hfresh : sys.fresh fs name base = .ok (dest, fs₁))
    (he : Emptied sys fs fs₁ (sys.path dest) K c) :
    LeadsInto sys fs name base path p ↔ fs₁.approach (K ++ c) sys.links path = .inside p := by
  obtain ⟨⟨kernels, hkernels, rfl⟩, _⟩ := fresh_spec hfresh
  have hsame := approach_congr he.outside sys.links
  have hdest := (he.chain.approach_iff sys.links _).mp (he.ready.approach_of_openDir he.dest)
  rw [← hsame, List.append_nil] at hdest
  rw [he.chain.approach_iff, ← hsame]
  constructor
  · rintro ⟨K', c', ⟨kernels', hkernels', hfrontier, happ⟩, hpath⟩
    rw [hkernels] at hkernels'
    cases hkernels'
    rw [he.frontier] at hfrontier
    cases hfrontier
    rw [hdest] at happ
    cases happ
    exact hpath
  · exact fun hpath => ⟨K, c, ⟨kernels, hkernels, he.frontier, hdest⟩, hpath⟩

/-- A source without links is not disturbed if it does not lead through what
the call takes away and does not have it below it. -/
theorem undisturbed_of_apart {source : PathBuf} {base : Option PathBuf} {place : List String}
    (hopen : fs.openDir sys.links (sys.path source) = .ok place) (hlinks : NoLinks fs place)
    (hapart : ∀ K c, Replaces sys fs name base K c → ¬ place <+: K ∧
      ∃ result, fs.approach K sys.links (sys.path source) = .outside result) :
    Undisturbed sys fs source name base := by
  have hnot : ∀ q p, ¬ LeadsInto sys fs name base (sys.path source ++ q) p := by
    rintro q p ⟨K, c, hreplaces, hinside⟩
    obtain ⟨hbelow, result, hout⟩ := hapart K c hreplaces
    obtain ⟨place', followTo, rfl, _, hdescend⟩ := approach_after sys.links _ hout hinside
    have hsame := resolve_outside (fun _ _ => rfl) sys.links _ _ hout
    rw [(openDir_eq_ok.mp hopen).1] at hsame
    cases hsame
    exact descendTo_of_noLinks q place hlinks (approach_outside sys.links _ _ hout) hbelow hdescend
  constructor
  · intro hself
    rw [← List.append_nil (sys.path source)] at hself
    exact absurd hself (hnot [] [])
  · exact fun q p hinto => absurd hinto (hnot q p)

/-- **Installing a kernelspec directory**: when the call returns `Ok`, the tree
at the destination is the one that was at the source before the call exactly
if the emptying has not disturbed the source.

The argument is about names and does not look at `PlainPaths`. Without it the
model is not the code: `copy_dir` can come by a `..` to a destination that the
names of its source do not lead to. -/
theorem install_kernelspec_dir_copies_iff {fuel : Nat} {source dest : PathBuf}
    {base : Option PathBuf} (_ : PlainPaths sys fs source name base)
    (h : sys.installKernelspecDir fuel fs source name base = some (.ok (dest, fs'))) :
    (∀ q, fs'.look sys.links (sys.path dest ++ q) = fs.look sys.links (sys.path source ++ q)) ↔
      Undisturbed sys fs source name base := by
  obtain ⟨fs₁, hfresh, hcopy⟩ := install_spec h
  obtain ⟨K, c, he⟩ := emptied_spec (fresh_spec hfresh).2
  have hr := he.ready
  have hinto : ∀ {path p}, LeadsInto sys fs name base path p ↔
      fs₁.approach (K ++ c) sys.links path = .inside p := leadsInto_iff hfresh he
  by_cases hat : fs₁.openDir sys.links (sys.path source) = .ok (K ++ c)
  · -- the source is the destination, which is empty and stays so
    have hsrc := hr.approach_of_openDir hat
    obtain rfl := copyDir_of_dest hr hat hcopy
    have hroot : fs'.look sys.links (sys.path dest) = some .dir := look_of_openDir hr.dest
    have hnone : ∀ q, q ≠ [] → fs'.look sys.links (sys.path dest ++ q) = none := by
      intro q hq
      rw [hr.filling.look_dest hr, hr.empty q hq]
      rfl
    constructor
    · intro hsame
      refine ⟨fun _ => ⟨?_, fun q hq => ?_⟩, fun q p hp => ?_⟩
      · have hnil := hsame []
        rw [List.append_nil, List.append_nil, hroot] at hnil
        exact hnil.symm
      · rw [← hsame q, hnone q hq]
      · rw [hinto, approach_append q sys.links _ _ hsrc] at hp
        cases hp
        rfl
    · intro hund q
      obtain ⟨hdir, hempty⟩ := hund.apart (hinto.mpr hsrc)
      by_cases hq : q = []
      · rw [hq, List.append_nil, List.append_nil, hroot, hdir]
      · rw [hnone q hq, hempty q hq]
  · -- the source is another directory, and only its links can lead into the destination
    have hc := hr.copied hcopy hat
    rw [look_copied_iff he hc]
    constructor
    · intro hlinks
      refine ⟨fun hself => ?_, fun q p hp => hlinks q p (hinto.mp hp)⟩
      obtain ⟨result, hout⟩ := hc.outside
      rw [hinto, hout] at hself
      cases hself
    · exact fun hund q p happ => hund.links q p (hinto.mpr happ)

/-! ## Two installations -/

def plainSystem : System where
  vars := fun _ => none
  workingDir := []
  links := 40
  readOrder := ⟨fun fs place => fs.names place, fun _ _ => .refl _⟩

def rootDir : PathBuf := .ofString "/"

def packageDir : PathBuf := .ofString "/pkg"

def echoDir : PathBuf := .ofString "/share/jupyter/kernels/echo"

/-- A package with a kernelspec, beside an installed one. -/
def packaged : Files :=
  let kernels := ["share", "jupyter", "kernels"]
  let package := (({} : Files).put [] "pkg" .dir).put ["pkg"] "kernel.json" (.file [123, 125])
  let share := (package.put [] "share" .dir).put ["share"] "jupyter" .dir
  let echo := (share.put ["share", "jupyter"] "kernels" .dir).put kernels "echo" .dir
  echo.put (kernels ++ ["echo"]) "logo.svg" (.file [60, 62])

theorem exists_result {α : Type} {result : Option (Except Engine.Error (PathBuf × Files))}
    {dest : PathBuf} (f : Files → α) {a : α}
    (h : (result.bind Except.toOption).map (fun done => (done.1, f done.2)) = some (dest, a)) :
    ∃ fs', result = some (.ok (dest, fs')) ∧ f fs' = a := by
  match result, h with
  | some (.ok (_, fs')), rfl => exact ⟨fs', rfl, rfl⟩

theorem packaged_noLinks (place : List String) : NoLinks packaged place := by
  have hall : ∀ entry ∈ packaged.inodes.entries, entry.2.stat.isSome := by decide +kernel
  intro rest target hget
  unfold FileSystem.get at hget
  split at hget
  · cases hget
  · have hentry := hall _ (AList.mem_lookup_iff.mp hget)
    simp [Inode.stat] at hentry

theorem plainPaths_package :
    PlainPaths plainSystem packaged packageDir "echo" (some rootDir) where
  nonempty := by decide +kernel
  source := by decide +kernel
  dest := by
    rintro kernels ⟨⟩
    decide +kernel
  last := by decide +kernel
  links place target hget := by
    have hlink := packaged_noLinks [] place target
    rw [List.nil_append] at hlink
    exact absurd hget hlink

/-- The package is installed over the old kernelspec. -/
theorem package_installs : ∃ fs',
    plainSystem.installKernelspecDir 2 packaged packageDir "echo" (some rootDir) =
      some (.ok (echoDir, fs')) ∧
    ∀ q, fs'.look plainSystem.links (plainSystem.path echoDir ++ q) =
      packaged.look plainSystem.links (plainSystem.path packageDir ++ q) := by
  have hdone : ((plainSystem.installKernelspecDir 2 packaged packageDir "echo" (some rootDir)).bind
      Except.toOption).map (fun done => (done.1, ())) = some (echoDir, ()) := by decide +kernel
  obtain ⟨fs', h, _⟩ := exists_result (fun _ => ()) hdone
  have hopen : packaged.openDir plainSystem.links (plainSystem.path packageDir) = .ok ["pkg"] := by
    decide +kernel
  refine ⟨fs', h, (install_kernelspec_dir_copies_iff plainPaths_package h).mpr
    (undisturbed_of_apart hopen (packaged_noLinks _) ?_)⟩
  rintro K c ⟨kernels, ⟨⟩, hfrontier, _⟩
  have hK : packaged.frontier plainSystem.links echoDir.names.reverse = some echoDir.names := by
    decide +kernel
  obtain rfl : echoDir.names = K := Option.some.inj (hK.symm.trans hfrontier)
  have happ : packaged.approach echoDir.names plainSystem.links ["pkg"] = .outside (.ok ["pkg"]) := by
    decide +kernel
  exact ⟨by decide, _, happ⟩

/-- The installed kernelspec, given as its own source, is lost. -/
theorem installed_in_place_is_lost : ∃ fs',
    plainSystem.installKernelspecDir 2 packaged echoDir "echo" (some rootDir) =
      some (.ok (echoDir, fs')) ∧
    packaged.look plainSystem.links (plainSystem.path echoDir ++ ["logo.svg"]) =
      some (.file [60, 62]) ∧
    fs'.look plainSystem.links (plainSystem.path echoDir ++ ["logo.svg"]) = none := by
  have hdone : ((plainSystem.installKernelspecDir 2 packaged echoDir "echo" (some rootDir)).bind
      Except.toOption).map (fun done => (done.1, done.2.look plainSystem.links
        (plainSystem.path echoDir ++ ["logo.svg"]))) = some (echoDir, none) := by decide +kernel
  obtain ⟨fs', h, hlook⟩ := exists_result (fun fs' => fs'.look plainSystem.links
    (plainSystem.path echoDir ++ ["logo.svg"])) hdone
  exact ⟨fs', h, by decide +kernel, hlook⟩

end Kernmini.Kernelspec
