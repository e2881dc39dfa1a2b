/-
Kernmini.Kernelspec.CopyTheorems — what a `copy_dir` into an empty directory
has done when it succeeds.

`Copying` is what holds during the run. `act` is the directory that is being
copied; those above it are not done either. Every directory that is done has
an entry for each one of its source, and its source is not one of those that
are still being filled, so it gets no more. The call ends with every
directory done, and then the destination looks like the source
(`look_copied`). The source at that time is meant: what it shows through the
destination itself is what has been copied there.
-/
import Kernmini.Kernelspec.CopyFrame

namespace Kernmini.Kernelspec

open Kernmini.Lib Kernmini.Lib.FileSystem

variable {sys : System} {fs₁ fs fs' : Files} {src dest D act q : List String} {name : String}

/-! ## Where an entry comes from -/

/-- What the copy has at `q` comes from outside the destination, through any
number of links into it. -/
inductive Supplied (sys : System) (fs₁ : Files) (src D : List String) :
    List String → Stat Wire.Bytes → Prop
  | outside (q : List String) (found : Stat Wire.Bytes) (result : Except Errno (List String))
      (happ : fs₁.approach D sys.links (src ++ q) = .outside result)
      (hlook : fs₁.look sys.links (src ++ q) = some found) : Supplied sys fs₁ src D q found
  | inside (q p : List String) (found : Stat Wire.Bytes)
      (happ : fs₁.approach D sys.links (src ++ q) = .inside p)
      (hp : Supplied sys fs₁ src D p found) : Supplied sys fs₁ src D q found

/-! ## The invariant -/

/-- The directory at `q` has an entry for each one of its source, which is
`place`, and the source is not being filled. -/
structure Finished (D act : List String) (fs : Files) (q place : List String) : Prop where
  apart : ¬ place <+: D ++ act
  entries : ∀ name, fs.get (place ++ [name]) ≠ none → fs.get (D ++ q ++ [name]) ≠ none

structure Copying (sys : System) (fs₁ : Files) (src D act : List String) (fs : Files) : Prop where
  filling : Filling fs₁ D fs
  sound : ∀ q found, q ≠ [] → (fs.get (D ++ q)).bind Inode.stat = some found →
    Supplied sys fs₁ src D q found ∧ fs.look sys.links (src ++ q) = some found
  finished : ∀ q place, fs.get (D ++ q) = some .dir → ¬ q <+: act →
    fs.openDir sys.links (src ++ q) = .ok place → Finished D act fs q place

theorem Ready.copying (hr : Ready sys fs₁ dest D) : Copying sys fs₁ src D [] fs₁ := by
  refine ⟨hr.filling, fun q found hq hget => ?_, fun q place hget hq => ?_⟩
  · simp [hr.empty q hq] at hget
  · have hne : q ≠ [] := fun hnil => hq (by simp [hnil])
    simp [hr.empty q hne] at hget

/-- What a path shows stays, if nothing is replaced. -/
theorem Filling.look_stays (hf : Filling fs₁ D fs) (hf' : Filling fs₁ D fs')
    (hsame : ∀ place, fs.get place ≠ none → fs'.get place = fs.get place)
    {path : List String} {found : Stat Wire.Bytes} (h : fs.look sys.links path = some found) :
    fs'.look sys.links path = some found := by
  cases happ : fs₁.approach D sys.links path with
  | outside result => rw [hf'.look_outside happ, ← hf.look_outside happ, h]
  | inside p =>
      rw [hf.look_inside happ] at h
      have hthere : fs.get (D ++ p) ≠ none := fun hnone => by simp [hnone] at h
      rw [hf'.look_inside happ, hsame _ hthere, h]

namespace Copying

section

variable {inode : Inode String Wire.Bytes} {found : Stat Wire.Bytes}

/-- What is copied is supplied. -/
theorem supplied (hc : Copying sys fs₁ src D act fs)
    (hlook : fs.look sys.links (src ++ q) = some found)
    (hroot : fs₁.approach D sys.links (src ++ q) ≠ .inside []) : Supplied sys fs₁ src D q found := by
  cases happ : fs₁.approach D sys.links (src ++ q) with
  | outside result =>
      rw [hc.filling.look_outside happ] at hlook
      exact .outside q found result happ hlook
  | inside p =>
      rw [hc.filling.look_inside happ] at hlook
      have hp : p ≠ [] := fun hnil => hroot (hnil ▸ happ)
      exact .inside q p found happ (hc.sound p found hp hlook).1

/-- The directories that are done stay so when an entry is added to another. -/
theorem finished_put (hc : Copying sys fs₁ src D act fs)
    (hact : fs.get (D ++ act) = some .dir) (hnew : fs.get (D ++ act ++ [name]) = none)
    (hf : Filling fs₁ D (fs.put (D ++ act) name inode)) {q place : List String}
    (hdir : fs.get (D ++ q) = some .dir) (hq : ¬ q <+: act)
    (hopen : (fs.put (D ++ act) name inode).openDir sys.links (src ++ q) = .ok place) :
    place ≠ D ++ act ++ [name] ∧ Finished D act (fs.put (D ++ act) name inode) q place := by
  have hkeep : fs.get (D ++ act ++ [name]) = some .dir → inode = .dir := by
    rw [hnew]
    simp
  have hqnil : q ≠ [] := fun hnil => hq (by simp [hnil])
  have hshown := (hc.sound q .dir hqnil (by simp [hdir, Inode.stat])).2
  obtain ⟨place', hopen'⟩ := openDir_of_look hshown
  have hstays := hc.filling.openDir_stays hf (Keeps.put inode hact hnew).dir hopen'
  rw [hopen] at hstays
  cases hstays
  obtain ⟨hapart, hentries⟩ := hc.finished q place hdir hq hopen'
  refine ⟨?_, hapart, fun other hother => ?_⟩
  · rintro rfl
    rw [(openDir_eq_ok.mp hopen').2] at hnew
    cases hnew
  · rw [get_put hact hkeep] at hother
    split at hother
    · next heq =>
        rw [(List.append_inj' heq rfl).1] at hapart
        exact absurd List.prefix_rfl hapart
    · have hthere := hentries other hother
      rwa [get_put_of_new hact hnew hthere]

/-- A new entry of the directory that is being copied. If it is a directory,
it is the one to be copied next. -/
theorem put (hc : Copying sys fs₁ src D act fs)
    (hact : fs.get (D ++ act) = some .dir) (hnew : fs.get (D ++ (act ++ [name])) = none)
    (hinode : inode.stat = some found)
    (hlook : fs.look sys.links (src ++ (act ++ [name])) = some found)
    (hroot : fs₁.approach D sys.links (src ++ (act ++ [name])) ≠ .inside []) {next : List String}
    (hnext : next = act ++ [name] ∨ next = act ∧ inode ≠ .dir) :
    Copying sys fs₁ src D next (fs.put (D ++ act) name inode) := by
  rw [← List.append_assoc] at hnew
  have hkeep : fs.get (D ++ act ++ [name]) = some .dir → inode = .dir := by
    rw [hnew]
    simp
  have hget : ∀ place, (fs.put (D ++ act) name inode).get place =
      if place = D ++ act ++ [name] then some inode else fs.get place :=
    fun place => get_put hact hkeep
  have hsame : ∀ place, fs.get place ≠ none →
      (fs.put (D ++ act) name inode).get place = fs.get place :=
    fun place => get_put_of_new hact hnew
  have hf : Filling fs₁ D (fs.put (D ++ act) name inode) := by
    refine hc.filling.put hact hkeep fun target htarget => ?_
    rw [htarget] at hinode
    cases hinode
  refine ⟨hf, fun q found' hq hfound => ?_, fun q place hdir hq hopen => ?_⟩
  · rw [hget] at hfound
    split at hfound
    · next heq =>
        have hqq : q = act ++ [name] := by simpa [List.append_assoc] using heq
        have hff : found = found' := by simpa [hinode] using hfound
        subst hqq hff
        exact ⟨hc.supplied hlook hroot, hc.filling.look_stays hf hsame hlook⟩
    · obtain ⟨hsup, hshown⟩ := hc.sound q found' hq hfound
      exact ⟨hsup, hc.filling.look_stays hf hsame hshown⟩
  · -- an old directory, since the new one is not done
    have hqne : q ≠ act ++ [name] := by
      rintro rfl
      rcases hnext with rfl | ⟨_, hnot⟩
      · exact hq List.prefix_rfl
      · rw [hget, if_pos (by simp [List.append_assoc])] at hdir
        exact hnot (Option.some.inj hdir)
    rw [hget, if_neg (by simpa [List.append_assoc] using hqne)] at hdir
    rcases hnext with rfl | ⟨rfl, _⟩
    · obtain ⟨hplace, hapart, hentries⟩ := hc.finished_put hact hnew hf hdir
        (fun hpre => hq (hpre.trans (List.prefix_append _ _))) hopen
      refine ⟨?_, hentries⟩
      rw [← List.append_assoc, List.prefix_concat_iff]
      exact fun h => h.elim hplace hapart
    · exact (hc.finished_put hact hnew hf hdir hq hopen).2

end

/-- The directory that was being copied is done. -/
theorem done (hc : Copying sys fs₁ src D (act ++ [name]) fs)
    (hfin : ∀ place, fs.openDir sys.links (src ++ (act ++ [name])) = .ok place →
      Finished D (act ++ [name]) fs (act ++ [name]) place) : Copying sys fs₁ src D act fs := by
  refine ⟨hc.filling, hc.sound, fun q place hdir hq hopen => ?_⟩
  have hfinished : Finished D (act ++ [name]) fs q place := by
    by_cases heq : q = act ++ [name]
    · subst heq
      exact hfin place hopen
    · refine hc.finished q place hdir ?_ hopen
      rw [List.prefix_concat_iff]
      exact fun h => h.elim heq hq
  refine ⟨fun hpre => hfinished.apart ?_, hfinished.entries⟩
  rw [← List.append_assoc]
  exact hpre.trans (List.prefix_append _ _)

end Copying

/-! ## The run -/

/-- A copy that ends with the directory it has copied done. -/
def Completes (sys : System) (fs₁ : Files) (src dest D : List String)
    (copy : Files → List String → List String → Option (Except Errno Files)) : Prop :=
  ∀ fs fs' act, copy fs (src ++ act) (dest ++ act) = some (.ok fs') →
    Copying sys fs₁ src D act fs → fs.get (D ++ act) = some .dir →
    (∀ name, fs.get (D ++ (act ++ [name])) = none) →
    fs.openDir sys.links (src ++ act) ≠ .ok (D ++ act) →
    Copying sys fs₁ src D act fs' ∧
      ∀ place, fs'.openDir sys.links (src ++ act) = .ok place → Finished D act fs' act place

section

variable (hr : Ready sys fs₁ dest D)

include hr

/-- One entry more. -/
theorem entry_copying {fuel : Nat} (hcopy : Completes sys fs₁ src dest D (sys.copyDir fuel))
    (hc : Copying sys fs₁ src D act fs) (hact : fs.get (D ++ act) = some .dir)
    (hnew : fs.get (D ++ (act ++ [name])) = none)
    (h : EntryCopied sys (sys.copyDir fuel) (src ++ act) (dest ++ act) fs name fs') :
    Copying sys fs₁ src D act fs' ∧ fs'.get (D ++ (act ++ [name])) ≠ none := by
  cases h with
  | dir made hlook hmade hrec =>
      rw [List.append_assoc] at hlook
      rw [List.append_assoc, List.append_assoc] at hrec
      obtain ⟨_, rfl⟩ : _ ∧ made = fs.put (D ++ act) name .dir :=
        (createDirAll_entry hr hc.filling hact hmade).resolve_right
          (fun hold => by simp [hnew] at hold)
      obtain ⟨hf', hchanged, hname⟩ := createDirAll_frame hr hc.filling hact hmade
      rw [List.append_assoc] at hname
      obtain ⟨place, hopen⟩ := openDir_of_look hlook
      have hopen' := hc.filling.openDir_stays hf' hchanged.dirs hopen
      -- the source of the new directory is none of those above it, nor itself
      have hself : place ≠ D ++ (act ++ [name]) := by
        rintro rfl
        rw [(openDir_eq_ok.mp hopen).2] at hnew
        cases hnew
      have hapart : ¬ place <+: D ++ (act ++ [name]) :=
        fun hpre => copyDir_into_itself hr fuel hf' hname hopen' hpre hself hrec
      have hroot : fs₁.approach D sys.links (src ++ (act ++ [name])) ≠ .inside [] := by
        intro happ
        have hplace := hc.filling.resolve_inside happ (by simp [hc.filling.dest])
        rw [(openDir_eq_ok.mp hopen).1, List.append_nil] at hplace
        cases hplace
        exact hapart (List.prefix_append _ _)
      have hc' : Copying sys fs₁ src D (act ++ [name]) (fs.put (D ++ act) name .dir) :=
        hc.put hact hnew rfl hlook hroot (.inl rfl)
      have hempty : ∀ other, (fs.put (D ++ act) name .dir).get (D ++ (act ++ [name] ++ [other])) =
          none := by
        intro other
        rw [get_put hact (by simp), if_neg (by simp), ← List.append_assoc]
        exact get_below (by simp [hnew]) (by simp)
      obtain ⟨hcopied, hfin⟩ := hcopy _ _ _ hrec hc' hname hempty
        (fun hsame => hself (by simpa [hopen'] using hsame))
      have hthere : fs'.get (D ++ (act ++ [name])) ≠ none :=
        (copyDir_frame hr fuel _ _ _ _ hrec hf' hname).2.there _ (by rw [hname]; simp)
      exact ⟨hcopied.done hfin, hthere⟩
  | file hrec =>
      obtain ⟨content, hlook, _, rfl⟩ := copy_entry hr hc.filling hact hrec
      rw [List.append_assoc] at hlook
      have hroot : fs₁.approach D sys.links (src ++ (act ++ [name])) ≠ .inside [] := by
        intro happ
        rw [hc.filling.look_inside happ, List.append_nil, hc.filling.dest] at hlook
        cases hlook
      refine ⟨hc.put hact hnew rfl hlook hroot (.inr ⟨rfl, by simp⟩), ?_⟩
      rw [get_put hact (by simp [hnew]), if_pos (List.append_assoc ..).symm]
      simp

/-- The loop over the entries. -/
theorem copyEntries_copying {fuel : Nat}
    (hcopy : Completes sys fs₁ src dest D (sys.copyDir fuel)) (names : List String) :
    ∀ {fs fs'}, Copying sys fs₁ src D act fs → fs.get (D ++ act) = some .dir → names.Nodup →
      (∀ name ∈ names, fs.get (D ++ (act ++ [name])) = none) →
      sys.copyEntries (sys.copyDir fuel) (src ++ act) (dest ++ act) fs names = some (.ok fs') →
      Copying sys fs₁ src D act fs' ∧ ∀ name ∈ names, fs'.get (D ++ (act ++ [name])) ≠ none := by
  induction names with
  | nil =>
      rintro fs fs' hc _ _ _ ⟨⟩
      exact ⟨hc, by simp⟩
  | cons name rest ih =>
      intro fs fs'' hc hact hnodup hnew h
      obtain ⟨fs', hentry, hrest⟩ := copyEntries_cons h
      obtain ⟨hnot, hnodup'⟩ := List.nodup_cons.mp hnodup
      obtain ⟨hc', hthere⟩ :=
        entry_copying hr hcopy hc hact (hnew name (List.mem_cons_self ..)) hentry
      have hact' := (entry_frame hr (copyDir_frame hr fuel) hc.filling hact hentry).2.dirs _ hact
      have hnew' : ∀ other ∈ rest, fs'.get (D ++ (act ++ [other])) = none := by
        intro other hother
        rw [entry_elsewhere hr (copyDir_frame hr fuel) hc.filling hact hentry,
          hnew other (List.mem_cons_of_mem _ hother)]
        intro hpre
        have hsame := hpre.eq_of_length (by simp)
        simp only [List.append_assoc, List.append_cancel_left_eq, List.cons.injEq, and_true] at hsame
        exact hnot (hsame ▸ hother)
      obtain ⟨hc'', hall⟩ := ih hc' hact' hnodup' hnew' hrest
      have hstill : fs''.get (D ++ (act ++ [name])) ≠ none :=
        (copyEntries_frame hr (copyDir_frame hr fuel) rest hc'.filling hact' hrest).2.there _ hthere
      refine ⟨hc'', fun other hother => ?_⟩
      rcases List.mem_cons.mp hother with rfl | hother'
      · exact hstill
      · exact hall other hother'

/-- `copy_dir` into an empty directory ends with all directories done. -/
theorem copyDir_completes (fuel : Nat) : Completes sys fs₁ src dest D (sys.copyDir fuel) := by
  induction fuel with
  | zero =>
      intro fs fs' act h
      cases h
  | succ fuel ih =>
      intro fs fs' act h hc hact hempty hself
      have hwhole := h
      simp only [System.copyDir] at h
      split at h
      · cases h
      · next place hopen =>
          have hne : place ≠ D ++ act := fun heq => hself (heq ▸ hopen)
          have hapart : ¬ place <+: D ++ act := fun hpre =>
            copyDir_into_itself hr (fuel + 1) hc.filling hact hopen hpre hne hwhole
          have hperm := sys.readOrder.perm fs place
          obtain ⟨hc', hall⟩ := copyEntries_copying hr ih _ hc hact
            (hperm.nodup_iff.mpr (nodup_names fs place)) (fun name _ => hempty name) h
          obtain ⟨hf', hchanged⟩ := copyDir_frame hr (fuel + 1) _ _ _ _ hwhole hc.filling hact
          refine ⟨hc', fun place' hopen' => ?_⟩
          have hstays := hc.filling.openDir_stays hf' hchanged.dirs hopen
          rw [hopen'] at hstays
          cases hstays
          refine ⟨hapart, fun name hname => ?_⟩
          -- the source has the entries that were listed
          have hlisted : fs.get (place ++ [name]) ≠ none := by
            rw [← hchanged.below (place ++ [name])]
            · exact hname
            · intro hpre
              rcases List.prefix_concat_iff.mp hpre with heq | ⟨rest, hrest⟩
              · exact heq.symm
              · -- nothing was in the destination, so the source was not either
                cases rest with
                | nil => exact absurd (by simpa using hrest.symm) hne
                | cons first rest =>
                    have hplace := (openDir_eq_ok.mp hopen).2
                    have habove : D ++ (act ++ [first]) <+: place := ⟨rest, by rw [← hrest]; simp⟩
                    exact absurd (hempty first) (get_on_way (by simp [hplace]) habove)
          rw [List.append_assoc]
          exact hall name (hperm.mem_iff.mpr (mem_names.mpr hlisted))

end

/-! ## After the run -/

/-- A `copy_dir` into an empty directory that is not its source has ended. -/
structure Copied (sys : System) (fs₁ : Files) (src dest D : List String) (fs : Files) : Prop where
  ready : Ready sys fs₁ dest D
  filling : Filling fs₁ D fs
  outside : ∃ result, fs₁.approach D sys.links src = .outside result
  source : ∃ place, fs.openDir sys.links src = .ok place
  sound : ∀ q found, q ≠ [] → (fs.get (D ++ q)).bind Inode.stat = some found →
    Supplied sys fs₁ src D q found ∧ fs.look sys.links (src ++ q) = some found
  finished : ∀ q place, fs.get (D ++ q) = some .dir →
    fs.openDir sys.links (src ++ q) = .ok place → Finished D [] fs q place

/-- A `copy_dir` that succeeds has opened its source. -/
theorem openDir_of_copyDir {fuel : Nat} (h : sys.copyDir fuel fs src dest = some (.ok fs')) :
    ∃ place, fs.openDir sys.links src = .ok place := by
  cases fuel with
  | zero => cases h
  | succ fuel =>
      simp only [System.copyDir] at h
      split at h
      · cases h
      · next place hopen => exact ⟨place, hopen⟩

/-- A directory of the emptied tree is outside the destination, or is it. -/
theorem Ready.outside (hr : Ready sys fs₁ dest D) {place : List String}
    (hopen : fs₁.openDir sys.links src = .ok place) (hne : place ≠ D) :
    ∃ result, fs₁.approach D sys.links src = .outside result := by
  cases happ : fs₁.approach D sys.links src with
  | outside result => exact ⟨result, rfl⟩
  | inside p =>
      have hlook := look_of_openDir hopen
      rw [hr.filling.look_inside happ] at hlook
      have hp : p = [] := by
        by_contra hp
        simp [hr.empty p hp] at hlook
      have hresolve := hr.filling.resolve_inside happ (by simp [hp, hr.get])
      rw [(openDir_eq_ok.mp hopen).1, hp, List.append_nil] at hresolve
      exact absurd (Except.ok.inj hresolve) hne

theorem Ready.copied (hr : Ready sys fs₁ dest D) {fuel : Nat}
    (h : sys.copyDir fuel fs₁ src dest = some (.ok fs)) (hsrc : fs₁.openDir sys.links src ≠ .ok D) :
    Copied sys fs₁ src dest D fs := by
  have hcompletes : Completes sys fs₁ src dest D (sys.copyDir fuel) := copyDir_completes hr fuel
  obtain ⟨hc, hroot⟩ := hcompletes fs₁ fs [] (by simpa using h) hr.copying
    (by simpa using hr.get) (fun name => hr.empty _ (by simp)) (by simpa using hsrc)
  obtain ⟨hf, hchanged⟩ := copyDir_frame hr fuel fs₁ fs src [] (by simpa using h) hr.filling
    (by simpa using hr.get)
  obtain ⟨place, hopen⟩ := openDir_of_copyDir h
  refine ⟨hr, hf, hr.outside hopen fun heq => hsrc (heq ▸ hopen),
    ⟨place, hr.filling.openDir_stays hf hchanged.dirs hopen⟩, hc.sound, ?_⟩
  intro q place hdir hopen'
  by_cases hnil : q = []
  · subst hnil
    exact hroot place hopen'
  · exact hc.finished q place hdir (by simpa using hnil) hopen'

namespace Copied

/-- What the source shows in the end has been copied. -/
theorem complete (hc : Copied sys fs₁ src dest D fs) (q : List String) :
    ∀ found, fs.look sys.links (src ++ q) = some found →
      (fs.get (D ++ q)).bind Inode.stat = some found := by
  induction q using List.reverseRecOn with
  | nil =>
      intro found hlook
      obtain ⟨place, hopen⟩ := hc.source
      rw [List.append_nil, look_of_openDir hopen] at hlook
      cases hlook
      simp [hc.filling.dest, Inode.stat]
  | append_singleton q name ih =>
      intro found hlook
      obtain ⟨place, hopen, hname⟩ :=
        look_concat (by rw [List.append_assoc, hlook]; simp :
          fs.look sys.links (src ++ q ++ [name]) ≠ none)
      have hdir := hc.filling.stat_get.mp (ih .dir (look_of_openDir hopen))
      have hthere := (hc.finished q place hdir hopen).entries name hname
      rw [List.append_assoc] at hthere
      obtain ⟨found', hfound'⟩ := hc.filling.exists_stat hthere
      have hsame := (hc.sound (q ++ [name]) found' (by simp) hfound').2
      rw [hlook] at hsame
      rw [hfound', hsame]

/-- **After the call the destination looks like the source does then.** -/
theorem look_copied (hc : Copied sys fs₁ src dest D fs) (q : List String) :
    fs.look sys.links (dest ++ q) = fs.look sys.links (src ++ q) := by
  rw [hc.filling.look_dest hc.ready]
  apply Option.ext
  intro found
  constructor
  · intro hfound
    by_cases hnil : q = []
    · subst hnil
      obtain ⟨place, hopen⟩ := hc.source
      rw [List.append_nil, hc.filling.dest] at hfound
      rw [List.append_nil, look_of_openDir hopen]
      exact hfound
    · exact (hc.sound q found hnil hfound).2
  · exact hc.complete q found

/-- What has been copied was supplied. -/
theorem supplied (hc : Copied sys fs₁ src dest D fs) {found : Stat Wire.Bytes}
    (hfound : (fs.get (D ++ q)).bind Inode.stat = some found) : Supplied sys fs₁ src D q found := by
  by_cases hnil : q = []
  · subst hnil
    obtain ⟨result, happ⟩ := hc.outside
    rw [← List.append_nil src] at happ
    have hshown := hc.filling.look_dest hc.ready []
    rw [hc.look_copied, hfound, hc.filling.look_outside happ] at hshown
    exact .outside [] found result happ hshown
  · exact (hc.sound q found hnil hfound).1

end Copied

end Kernmini.Kernelspec
