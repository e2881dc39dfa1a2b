/-
Kernmini.Lib.FilePaths — where paths lead, in one file system and in two that
differ below one place.

  * `resolve_concat`: a path with one more name goes on from where the path
    led;
  * `Keeps`: what keeps the directories, links and files keeps where the
    paths lead;
  * `approach`: a path followed up to a place. If it does not come by the
    place, it leads to the same in every file system that differs only below
    the place (`resolve_outside`); if it does, what it leads to is found
    below the place (`resolve_inside`). Which of the two it is does not
    depend on what is there (`approach_congr`);
  * `Chain`: where only directories on one way are below a place.
-/
import Kernmini.Lib.FileSystem

namespace Kernmini.Lib.FileSystem

variable {ν β : Type*} [DecidableEq ν] {fs fs' : FileSystem ν β} {links : Nat}
  {path rest place stop : List ν} {name : ν}

/-! ## One more name -/

/-- What the step to one more name does with the result for the path. -/
def Extends (fs : FileSystem ν β) (name : ν) (before after : Except Errno (List ν)) : Prop :=
  match before with
  | .error error => after = .error error
  | .ok place =>
      match fs.get place with
      | some .dir => ∃ follow, after = descend fs follow place [name]
      | some _ => after = .error .notDirectory
      | none => after = .error .noEntry

theorem descend_concat {follow : List ν → Except Errno (List ν)}
    (hfollow : ∀ rest, Extends fs name (follow rest) (follow (rest ++ [name]))) (path : List ν) :
    ∀ place, fs.get place = some .dir →
      Extends fs name (descend fs follow place path) (descend fs follow place (path ++ [name])) := by
  induction path with
  | nil =>
      intro place hplace
      simp only [descend, Extends, hplace]
      exact ⟨follow, rfl⟩
  | cons first rest ih =>
      intro place hplace
      rw [List.cons_append, descend, descend]
      cases hget : fs.get (place ++ [first]) with
      | none => cases rest <;> simp [Extends, hget]
      | some inode =>
          cases inode with
          | dir => exact ih (place ++ [first]) hget
          | link target =>
              simp only [← List.append_assoc]
              exact hfollow (target ++ rest)
          | file content => cases rest <;> simp [Extends, hget]

theorem resolve_concat (fs : FileSystem ν β) (name : ν) (links : Nat) :
    ∀ path, Extends fs name (fs.resolve links path) (fs.resolve links (path ++ [name])) := by
  induction links with
  | zero => exact fun path => descend_concat (by simp [Extends]) path [] get_nil
  | succ links ih => exact fun path => descend_concat ih path [] get_nil

theorem openDir_eq_ok : fs.openDir links path = .ok place ↔
    fs.resolve links path = .ok place ∧ fs.get place = some .dir := by
  constructor
  · intro h
    simp only [openDir] at h
    split at h
    · next place' hresolve =>
        split at h <;> cases h
        next hget => exact ⟨hresolve, hget⟩
    · cases h
  · rintro ⟨hresolve, hget⟩
    simp [openDir, hresolve, hget]

/-- One more name from a directory on. -/
theorem resolve_concat_of_openDir (name : ν) (hdir : fs.openDir links path = .ok place) :
    ∃ follow, fs.resolve links (path ++ [name]) = descend fs follow place [name] := by
  obtain ⟨hresolve, hget⟩ := openDir_eq_ok.mp hdir
  have hext := resolve_concat fs name links path
  rw [hresolve] at hext
  simpa only [Extends, hget] using hext

/-- One more name that is no link. -/
theorem resolve_concat_of_not_link (hdir : fs.openDir links path = .ok place)
    (hlink : ∀ target, fs.get (place ++ [name]) ≠ some (.link target)) :
    fs.resolve links (path ++ [name]) = .ok (place ++ [name]) := by
  obtain ⟨follow, hresolve⟩ := resolve_concat_of_openDir name hdir
  rw [hresolve, descend]
  cases hget : fs.get (place ++ [name]) with
  | none => rfl
  | some inode =>
      cases inode with
      | dir => rfl
      | link target => exact absurd hget (hlink target)
      | file content => rfl

/-! ## What there is to see -/

/-- What is at the place a path leads to. -/
def view (fs : FileSystem ν β) (result : Except Errno (List ν)) : Option (Stat β) :=
  match result with
  | .ok place => (fs.get place).bind Inode.stat
  | .error _ => none

theorem look_eq_view : fs.look links path = fs.view (fs.resolve links path) := by
  unfold look stat view
  cases fs.resolve links path with
  | error error => rfl
  | ok place =>
      simp only
      cases (fs.get place).bind Inode.stat <;> rfl

theorem stat_eq_ok {found : Stat β} : fs.stat links path = .ok found ↔
    fs.look links path = some found := by
  unfold look
  cases fs.stat links path <;> simp [Except.toOption]

theorem openDir_of_look (h : fs.look links path = some .dir) :
    ∃ place, fs.openDir links path = .ok place := by
  rw [look_eq_view] at h
  cases hresolve : fs.resolve links path with
  | error error => simp [hresolve, view] at h
  | ok place =>
      refine ⟨place, openDir_eq_ok.mpr ⟨hresolve, ?_⟩⟩
      rw [hresolve, view] at h
      cases hget : fs.get place with
      | none => simp [hget] at h
      | some inode => cases inode <;> simp_all [Inode.stat]

theorem look_of_openDir (h : fs.openDir links path = .ok place) : fs.look links path = some .dir := by
  obtain ⟨hresolve, hget⟩ := openDir_eq_ok.mp h
  simp [look_eq_view, view, hresolve, hget, Inode.stat]

/-- What is to be seen under one more name is in a directory, under that name. -/
theorem look_concat (h : fs.look links (path ++ [name]) ≠ none) :
    ∃ place, fs.openDir links path = .ok place ∧ fs.get (place ++ [name]) ≠ none := by
  rw [look_eq_view] at h
  have hext := resolve_concat fs name links path
  cases hresolve : fs.resolve links path with
  | error error =>
      rw [hresolve] at hext
      simp only [Extends] at hext
      simp [hext, view] at h
  | ok place =>
      rw [hresolve] at hext
      cases hget : fs.get place with
      | none =>
          simp only [Extends, hget] at hext
          simp [hext, view] at h
      | some inode =>
          cases inode with
          | dir =>
              simp only [Extends, hget] at hext
              obtain ⟨follow, hafter⟩ := hext
              refine ⟨place, openDir_eq_ok.mpr ⟨hresolve, hget⟩, fun hnone => ?_⟩
              simp [hafter, descend, hnone, view] at h
          | _ =>
              simp only [Extends, hget] at hext
              simp [hext, view] at h

theorem look_on_way (rest : List ν) (h : fs.look links (path ++ name :: rest) ≠ none) :
    ∃ place, fs.openDir links path = .ok place ∧ fs.get (place ++ [name]) ≠ none := by
  induction rest using List.reverseRecOn with
  | nil => exact look_concat h
  | append_singleton rest last ih =>
      rw [← List.cons_append, ← List.append_assoc] at h
      obtain ⟨place, hdir, _⟩ := look_concat h
      refine ih ?_
      rw [look_of_openDir hdir]
      simp

/-! ## Changes that keep where paths lead -/

/-- Directories and links stay, and files stay files. -/
structure Keeps (fs fs' : FileSystem ν β) : Prop where
  dir : ∀ place, fs.get place = some .dir → fs'.get place = some .dir
  link : ∀ place target, fs.get place = some (.link target) → fs'.get place = some (.link target)
  file : ∀ place content, fs.get place = some (.file content) →
    ∃ content', fs'.get place = some (.file content')

theorem keeps_of_get (h : ∀ place, fs.get place ≠ none → fs'.get place = fs.get place) :
    Keeps fs fs' := by
  constructor
  · intro place hdir
    rw [h place (by simp [hdir]), hdir]
  · intro place target hlink
    rw [h place (by simp [hlink]), hlink]
  · intro place content hfile
    exact ⟨content, by rw [h place (by simp [hfile]), hfile]⟩

theorem descend_keeps (hk : Keeps fs fs') {follow follow' : List ν → Except Errno (List ν)}
    {found : List ν} (hfound : fs.get found ≠ none)
    (hfollow : ∀ rest, follow rest = .ok found → follow' rest = .ok found) (path : List ν) :
    ∀ place, descend fs follow place path = .ok found → descend fs' follow' place path = .ok found := by
  induction path with
  | nil => exact fun place h => h
  | cons first rest ih =>
      intro place h
      rw [descend] at h ⊢
      cases hget : fs.get (place ++ [first]) with
      | none =>
          rw [hget] at h
          cases rest with
          | nil =>
              simp only [List.isEmpty_nil, if_true, Except.ok.injEq] at h
              rw [← h] at hfound
              exact absurd hget hfound
          | cons => simp at h
      | some inode =>
          rw [hget] at h
          cases inode with
          | dir =>
              rw [hk.dir _ hget]
              exact ih (place ++ [first]) h
          | link target =>
              rw [hk.link _ _ hget]
              exact hfollow (target ++ rest) h
          | file content =>
              obtain ⟨content', hget'⟩ := hk.file _ _ hget
              rw [hget']
              exact h

theorem resolve_keeps (hk : Keeps fs fs') {found : List ν} (hfound : fs.get found ≠ none)
    (links : Nat) :
    ∀ path, fs.resolve links path = .ok found → fs'.resolve links path = .ok found := by
  induction links with
  | zero => exact fun path => descend_keeps hk hfound (fun _ h => h) path []
  | succ links ih => exact fun path => descend_keeps hk hfound ih path []

theorem openDir_keeps (hk : Keeps fs fs') (h : fs.openDir links path = .ok place) :
    fs'.openDir links path = .ok place := by
  obtain ⟨hresolve, hget⟩ := openDir_eq_ok.mp h
  exact openDir_eq_ok.mpr ⟨resolve_keeps hk (by simp [hget]) links path hresolve, hk.dir place hget⟩

/-! ## Approaching a place -/

/-- A path that is followed up to a place. -/
inductive Approach (ν : Type*) where
  /-- it comes by the place, with this much of it left -/
  | inside (rest : List ν)
  | outside (result : Except Errno (List ν))
  deriving DecidableEq

/-- What is at the place does not matter, nor what is below it. -/
def descendTo (fs : FileSystem ν β) (stop : List ν) (follow : List ν → Approach ν) :
    List ν → List ν → Approach ν
  | place, [] => if place = stop then .inside [] else .outside (.ok place)
  | place, name :: rest =>
      if place = stop then .inside (name :: rest)
      else if place ++ [name] = stop then .inside rest
      else
        match fs.get (place ++ [name]) with
        | some .dir => descendTo fs stop follow (place ++ [name]) rest
        | some (.link target) => follow (target ++ rest)
        | some (.file _) =>
            .outside (if rest.isEmpty then .ok (place ++ [name]) else .error .notDirectory)
        | none => .outside (if rest.isEmpty then .ok (place ++ [name]) else .error .noEntry)

def approach (fs : FileSystem ν β) (stop : List ν) : Nat → List ν → Approach ν
  | 0 => descendTo fs stop (fun _ => .outside (.error .tooManyLinks)) []
  | links + 1 => descendTo fs stop (approach fs stop links) []

/-- The two file systems differ at the place and below it only. -/
def AgreeOutside (stop : List ν) (fs fs' : FileSystem ν β) : Prop :=
  ∀ place, ¬ stop <+: place → fs'.get place = fs.get place

omit [DecidableEq ν] in
/-- The next place is the one to stop at if it is at or below it. -/
theorem eq_of_prefix_concat (hout : ¬ stop <+: place) (hin : stop <+: place ++ [name]) :
    stop = place ++ [name] := by
  rw [List.prefix_concat_iff] at hin
  exact hin.resolve_right hout

omit [DecidableEq ν] in
theorem ne_of_outside (hout : ¬ stop <+: place) : place ≠ stop := by
  rintro rfl
  exact hout List.prefix_rfl

omit [DecidableEq ν] in
/-- A place is not below those below it. -/
theorem above_outside {more : List ν} (hmore : more ≠ []) : ¬ stop ++ more <+: stop := by
  intro hpre
  have hlen := hpre.length_le
  rw [List.length_append] at hlen
  exact hmore (List.length_eq_zero_iff.mp (by omega))

theorem descendTo_stop {follow : List ν → Approach ν} (path : List ν) :
    descendTo fs stop follow stop path = .inside path := by
  cases path <;> simp [descendTo]

theorem approach_root (links : Nat) (path : List ν) : fs.approach [] links path = .inside path := by
  cases links <;> exact descendTo_stop path

/-- A path that does not come by a place has not started there. -/
theorem ne_root {result : Except Errno (List ν)}
    (h : fs.approach stop links path = .outside result) : ¬ stop <+: [] := by
  intro hroot
  rw [List.prefix_nil.mp hroot, approach_root] at h
  cases h

section

variable {follow : List ν → Except Errno (List ν)} {followTo followTo' : List ν → Approach ν}

/-- One name outside of the place. -/
theorem descendTo_cons (hout : ¬ stop <+: place) (hnext : ¬ stop <+: place ++ [name]) (rest : List ν) :
    descendTo fs stop followTo place (name :: rest) =
      match fs.get (place ++ [name]) with
      | some .dir => descendTo fs stop followTo (place ++ [name]) rest
      | some (.link target) => followTo (target ++ rest)
      | some (.file _) =>
          .outside (if rest.isEmpty then .ok (place ++ [name]) else .error .notDirectory)
      | none => .outside (if rest.isEmpty then .ok (place ++ [name]) else .error .noEntry) := by
  rw [descendTo, if_neg (ne_of_outside hout), if_neg (ne_of_outside hnext)]

/-- The name that leads to the place. -/
theorem descendTo_enter (hout : ¬ stop <+: place) (hnext : stop <+: place ++ [name])
    (rest : List ν) : descendTo fs stop followTo place (name :: rest) = .inside rest := by
  rw [descendTo, if_neg (ne_of_outside hout), if_pos (eq_of_prefix_concat hout hnext).symm]

theorem descendTo_nil (hout : ¬ stop <+: place) :
    descendTo fs stop followTo place [] = .outside (.ok place) := by
  rw [descendTo, if_neg (ne_of_outside hout)]

theorem descendTo_congr (hagree : AgreeOutside stop fs fs')
    (hfollow : ∀ rest, followTo' rest = followTo rest) (path : List ν) :
    ∀ place, ¬ stop <+: place →
      descendTo fs' stop followTo' place path = descendTo fs stop followTo place path := by
  induction path with
  | nil =>
      intro place hout
      rw [descendTo_nil hout, descendTo_nil hout]
  | cons name rest ih =>
      intro place hout
      by_cases hnext : stop <+: place ++ [name]
      · rw [descendTo_enter hout hnext, descendTo_enter hout hnext]
      · rw [descendTo_cons hout hnext, descendTo_cons hout hnext, hagree _ hnext, ih _ hnext]
        simp only [hfollow]

/-- Up to the place a path is the same wherever only what is at the place and
below it differs. -/
theorem approach_congr (hagree : AgreeOutside stop fs fs') (links : Nat) :
    ∀ path, fs'.approach stop links path = fs.approach stop links path := by
  by_cases hroot : stop <+: []
  · intro path
    rw [List.prefix_nil.mp hroot, approach_root, approach_root]
  · induction links with
    | zero => exact fun path => descendTo_congr hagree (fun _ => rfl) path [] hroot
    | succ links ih => exact fun path => descendTo_congr hagree ih path [] hroot

theorem descend_outside (hagree : AgreeOutside stop fs fs')
    (hfollow : ∀ rest result, followTo rest = .outside result → follow rest = result)
    {result : Except Errno (List ν)} (path : List ν) :
    ∀ place, ¬ stop <+: place → descendTo fs stop followTo place path = .outside result →
      descend fs' follow place path = result := by
  induction path with
  | nil =>
      intro place hout h
      rw [descendTo_nil hout] at h
      cases h
      rfl
  | cons name rest ih =>
      intro place hout h
      by_cases hnext : stop <+: place ++ [name]
      · rw [descendTo_enter hout hnext] at h
        cases h
      · rw [descendTo_cons hout hnext] at h
        rw [descend, hagree _ hnext]
        cases hget : fs.get (place ++ [name]) with
        | none =>
            rw [hget] at h
            cases h
            rfl
        | some inode =>
            rw [hget] at h
            cases inode with
            | dir => exact ih (place ++ [name]) hnext h
            | link target => exact hfollow _ _ h
            | file content =>
                cases h
                rfl

/-- A path that does not come by the place leads to the same wherever only
what is at the place and below it differs. -/
theorem resolve_outside (hagree : AgreeOutside stop fs fs') (links : Nat) :
    ∀ path result, fs.approach stop links path = .outside result →
      fs'.resolve links path = result := by
  induction links with
  | zero =>
      intro path result h
      refine descend_outside hagree ?_ path [] (ne_root h) h
      rintro rest result ⟨⟩
      rfl
  | succ links ih => exact fun path result h => descend_outside hagree ih path [] (ne_root h) h

theorem descendTo_outside
    (hfollow : ∀ rest found, followTo rest = .outside (.ok found) → ¬ stop <+: found)
    {found : List ν} (path : List ν) :
    ∀ place, ¬ stop <+: place → descendTo fs stop followTo place path = .outside (.ok found) →
      ¬ stop <+: found := by
  induction path with
  | nil =>
      intro place hout h
      rw [descendTo_nil hout] at h
      cases h
      exact hout
  | cons name rest ih =>
      intro place hout h
      by_cases hnext : stop <+: place ++ [name]
      · rw [descendTo_enter hout hnext] at h
        cases h
      · rw [descendTo_cons hout hnext] at h
        cases hget : fs.get (place ++ [name]) with
        | none =>
            rw [hget] at h
            cases rest with
            | nil =>
                cases h
                exact hnext
            | cons => simp at h
        | some inode =>
            rw [hget] at h
            cases inode with
            | dir => exact ih (place ++ [name]) hnext h
            | link target => exact hfollow _ _ h
            | file content =>
                cases rest with
                | nil =>
                    cases h
                    exact hnext
                | cons => simp at h

/-- What a path leads to that does not come by the place is not below it. -/
theorem approach_outside (links : Nat) :
    ∀ path found, fs.approach stop links path = .outside (.ok found) → ¬ stop <+: found := by
  induction links with
  | zero => exact fun path found h => descendTo_outside (by simp) path [] (ne_root h) h
  | succ links ih => exact fun path found h => descendTo_outside ih path [] (ne_root h) h

/-- Such a path shows the same. -/
theorem look_outside (hagree : AgreeOutside stop fs fs') {result : Except Errno (List ν)}
    (happ : fs.approach stop links path = .outside result) :
    fs'.look links path = fs.look links path := by
  have hfs := resolve_outside (fun _ _ => rfl) links path result happ
  have hfs' := resolve_outside hagree links path result happ
  rw [look_eq_view, look_eq_view, hfs, hfs']
  cases result with
  | error errno => rfl
  | ok place => rw [view, view, hagree place (approach_outside links path place happ)]

/-- A path that comes by the place only when it goes on has led to a directory,
and goes on from there. -/
theorem descendTo_after {result : Except Errno (List ν)} {more left : List ν}
    (hfollow : ∀ rest, followTo rest = .outside result → followTo (rest ++ more) = .inside left →
      ∃ place followTo', result = .ok place ∧ fs.get place = some .dir ∧
        descendTo fs stop followTo' place more = .inside left)
    (path : List ν) :
    ∀ place, ¬ stop <+: place → fs.get place = some .dir →
      descendTo fs stop followTo place path = .outside result →
      descendTo fs stop followTo place (path ++ more) = .inside left →
      ∃ place followTo', result = .ok place ∧ fs.get place = some .dir ∧
        descendTo fs stop followTo' place more = .inside left := by
  induction path with
  | nil =>
      intro place hout hplace h h'
      rw [descendTo_nil hout] at h
      cases h
      exact ⟨place, followTo, rfl, hplace, h'⟩
  | cons first rest ih =>
      intro place hout hplace h h'
      rw [List.cons_append] at h'
      by_cases hnext : stop <+: place ++ [first]
      · rw [descendTo_enter hout hnext] at h
        cases h
      · rw [descendTo_cons hout hnext] at h h'
        cases hget : fs.get (place ++ [first]) with
        | none =>
            rw [hget] at h'
            cases h'
        | some inode =>
            rw [hget] at h h'
            cases inode with
            | dir => exact ih (place ++ [first]) hnext hget h h'
            | link target =>
                simp only [← List.append_assoc] at h'
                exact hfollow _ h h'
            | file content => cases h'

theorem approach_after {result : Except Errno (List ν)} {more left : List ν} (links : Nat) :
    ∀ path, fs.approach stop links path = .outside result →
      fs.approach stop links (path ++ more) = .inside left →
      ∃ place followTo, result = .ok place ∧ fs.get place = some .dir ∧
        descendTo fs stop followTo place more = .inside left := by
  induction links with
  | zero => exact fun path h => descendTo_after (by simp) path [] (ne_root h) get_nil h
  | succ links ih => exact fun path h => descendTo_after ih path [] (ne_root h) get_nil h

/-- The step by which a path comes to the place is one to an entry. -/
theorem approach_concat {result : Except Errno (List ν)} {left : List ν}
    (hstop : fs.get stop ≠ none) (h : fs.approach stop links path = .outside result)
    (h' : fs.approach stop links (path ++ [name]) = .inside left) :
    ∃ place, result = .ok place ∧ fs.get place = some .dir ∧ fs.get (place ++ [name]) ≠ none := by
  obtain ⟨place, followTo, rfl, hdir, hnext⟩ := approach_after links path h h'
  refine ⟨place, rfl, hdir, fun hnone => ?_⟩
  have hout := approach_outside links path place h
  by_cases henter : stop <+: place ++ [name]
  · rw [← eq_of_prefix_concat hout henter] at hnone
    exact hstop hnone
  · rw [descendTo_cons hout henter, hnone] at hnext
    cases hnext

theorem descend_inside (hagree : AgreeOutside stop fs fs') (hstop : fs'.get stop = some .dir)
    (hfollow : ∀ rest left, followTo rest = .inside left →
      ∃ follow', follow rest = descend fs' follow' stop left) {left : List ν} (path : List ν) :
    ∀ place, ¬ stop <+: place → descendTo fs stop followTo place path = .inside left →
      ∃ follow', descend fs' follow place path = descend fs' follow' stop left := by
  induction path with
  | nil =>
      intro place hout h
      rw [descendTo_nil hout] at h
      cases h
  | cons name rest ih =>
      intro place hout h
      by_cases hnext : stop <+: place ++ [name]
      · rw [descendTo_enter hout hnext] at h
        cases h
        refine ⟨follow, ?_⟩
        rw [descend, ← eq_of_prefix_concat hout hnext, hstop]
      · rw [descendTo_cons hout hnext] at h
        rw [descend, hagree _ hnext]
        cases hget : fs.get (place ++ [name]) with
        | none =>
            rw [hget] at h
            cases h
        | some inode =>
            rw [hget] at h
            cases inode with
            | dir => exact ih (place ++ [name]) hnext h
            | link target => exact hfollow _ _ h
            | file content => cases h

/-- A path that comes by the place goes on from there. -/
theorem resolve_inside (hagree : AgreeOutside stop fs fs') (hstop : fs'.get stop = some .dir)
    (links : Nat) :
    ∀ path left, fs.approach stop links path = .inside left →
      ∃ follow, fs'.resolve links path = descend fs' follow stop left := by
  by_cases hroot : stop <+: []
  · intro path left h
    rw [List.prefix_nil.mp hroot] at h ⊢
    rw [approach_root] at h
    cases h
    cases links <;> exact ⟨_, rfl⟩
  · induction links with
    | zero => exact fun path left => descend_inside hagree hstop (by simp) path [] hroot
    | succ links ih => exact fun path left => descend_inside hagree hstop ih path [] hroot

theorem descendTo_append {more : List ν}
    (hfollow : ∀ rest left, followTo rest = .inside left →
      followTo (rest ++ more) = .inside (left ++ more)) {left : List ν} (path : List ν) :
    ∀ place, ¬ stop <+: place → descendTo fs stop followTo place path = .inside left →
      descendTo fs stop followTo place (path ++ more) = .inside (left ++ more) := by
  induction path with
  | nil =>
      intro place hout h
      rw [descendTo_nil hout] at h
      cases h
  | cons name rest ih =>
      intro place hout h
      rw [List.cons_append]
      by_cases hnext : stop <+: place ++ [name]
      · rw [descendTo_enter hout hnext] at h ⊢
        cases h
        rfl
      · rw [descendTo_cons hout hnext] at h ⊢
        cases hget : fs.get (place ++ [name]) with
        | none =>
            rw [hget] at h
            cases h
        | some inode =>
            rw [hget] at h
            cases inode with
            | dir => exact ih (place ++ [name]) hnext h
            | link target =>
                simp only [← List.append_assoc]
                exact hfollow _ _ h
            | file content => cases h

theorem approach_append (more : List ν) (links : Nat) :
    ∀ path left, fs.approach stop links path = .inside left →
      fs.approach stop links (path ++ more) = .inside (left ++ more) := by
  by_cases hroot : stop <+: []
  · intro path left h
    rw [List.prefix_nil.mp hroot, approach_root] at h ⊢
    cases h
    rfl
  · induction links with
    | zero => exact fun path left => descendTo_append (by simp) path [] hroot
    | succ links ih => exact fun path left => descendTo_append ih path [] hroot

end

/-! ## Approaching a place through another

Where there are only the directories of one chain below a place, the paths
that come by the end of the chain are those that come by its start and go on
along it. -/

/-- There are only the directories on the way from `stop` to `stop ++ more`. -/
structure Chain (fs : FileSystem ν β) (stop more : List ν) : Prop where
  dirs : ∀ rest, rest <+: more → fs.get (stop ++ rest) = some .dir
  bare : ∀ rest, ¬ rest <+: more → fs.get (stop ++ rest) = none

section

variable {followTo followTo' : List ν → Approach ν} {more left : List ν}

theorem Chain.next (hc : Chain fs stop (name :: more)) : Chain fs (stop ++ [name]) more := by
  constructor
  · intro rest hrest
    rw [List.append_assoc]
    exact hc.dirs ([name] ++ rest) (by simpa using hrest)
  · intro rest hrest
    rw [List.append_assoc]
    exact hc.bare ([name] ++ rest) (by simpa using hrest)

theorem Chain.descendTo_iff :
    ∀ {stop path : List ν}, Chain fs stop more →
      (descendTo fs (stop ++ more) followTo stop path = .inside left ↔ path = more ++ left) := by
  induction more with
  | nil =>
      intro stop path _
      rw [List.append_nil, List.nil_append, descendTo_stop, Approach.inside.injEq]
  | cons name more ih =>
      intro stop path hc
      have hout : ¬ stop ++ name :: more <+: stop := above_outside (by simp)
      cases path with
      | nil => simp [descendTo_nil hout]
      | cons first path =>
          by_cases hname : first = name
          · subst hname
            have hdir : fs.get (stop ++ [first]) = some .dir := hc.dirs [first] (by simp)
            rw [List.cons_append, List.cons_inj_right, ← ih hc.next, ← List.append_cons]
            by_cases hmore : more = []
            · rw [hmore, descendTo_stop, descendTo_enter (hmore ▸ hout) List.prefix_rfl]
            · have hnot : ¬ stop ++ first :: more <+: stop ++ [first] := by
                rw [List.prefix_append_right_inj]
                simpa using hmore
              rw [descendTo_cons hout hnot, hdir]
          · have hnot : ¬ [first] <+: name :: more := by simpa using hname
            have hnext : ¬ stop ++ name :: more <+: stop ++ [first] := by
              rw [List.prefix_append_right_inj]
              simpa using fun h => absurd h.symm hname
            rw [descendTo_cons hout hnext, hc.bare [first] hnot]
            simp [hname]

theorem descendTo_further (hc : Chain fs stop more)
    (hfollow : ∀ rest, followTo' rest = .inside left ↔ followTo rest = .inside (more ++ left))
    (path : List ν) :
    ∀ place, ¬ stop <+: place →
      (descendTo fs (stop ++ more) followTo' place path = .inside left ↔
        descendTo fs stop followTo place path = .inside (more ++ left)) := by
  induction path with
  | nil =>
      intro place hout
      have hout' : ¬ stop ++ more <+: place := fun hpre => hout ((List.prefix_append _ _).trans hpre)
      rw [descendTo_nil hout, descendTo_nil hout']
      simp
  | cons name rest ih =>
      intro place hout
      have hout' : ¬ stop ++ more <+: place := fun hpre => hout ((List.prefix_append _ _).trans hpre)
      by_cases hnext : stop <+: place ++ [name]
      · have heq := eq_of_prefix_concat hout hnext
        have hchain : descendTo fs (stop ++ more) followTo' stop rest = .inside left ↔
            rest = more ++ left := hc.descendTo_iff
        rw [descendTo_enter hout hnext, Approach.inside.injEq, ← hchain]
        by_cases hmore : more = []
        · rw [hmore, List.append_nil, descendTo_stop, descendTo_enter hout hnext]
        · have hstop : fs.get stop = some .dir := by simpa using hc.dirs [] List.nil_prefix
          have hnot : ¬ stop ++ more <+: place ++ [name] := by
            rw [← heq]
            exact above_outside hmore
          rw [descendTo_cons hout' hnot, ← heq, hstop]
      · have hnot : ¬ stop ++ more <+: place ++ [name] :=
          fun hpre => hnext ((List.prefix_append _ _).trans hpre)
        rw [descendTo_cons hout hnext, descendTo_cons hout' hnot]
        cases hget : fs.get (place ++ [name]) with
        | none => simp
        | some inode =>
            cases inode with
            | dir => exact ih (place ++ [name]) hnext
            | link target => exact hfollow _
            | file content => simp

theorem Chain.approach_iff (hc : Chain fs stop more) (links : Nat) :
    ∀ path, fs.approach (stop ++ more) links path = .inside left ↔
      fs.approach stop links path = .inside (more ++ left) := by
  by_cases hroot : stop <+: []
  · obtain rfl := List.prefix_nil.mp hroot
    intro path
    rw [approach_root, Approach.inside.injEq]
    cases links with
    | zero | succ => exact hc.descendTo_iff
  · induction links with
    | zero => exact fun path => descendTo_further hc (by simp) path [] hroot
    | succ links ih => exact fun path => descendTo_further hc ih path [] hroot

end

/-! ## Below a place without links -/

section

variable {follow : List ν → Except Errno (List ν)}

/-- There is no link at the place or below it. -/
def NoLinks (fs : FileSystem ν β) (place : List ν) : Prop :=
  ∀ rest target, fs.get (place ++ rest) ≠ some (.link target)

theorem NoLinks.concat (h : NoLinks fs place) : NoLinks fs (place ++ [name]) := by
  intro rest target
  rw [List.append_assoc]
  exact h ([name] ++ rest) target

/-- What is there is where the path says. -/
theorem descend_of_noLinks (path : List ν) :
    ∀ place, NoLinks fs place → fs.get (place ++ path) ≠ none →
      descend fs follow place path = .ok (place ++ path) := by
  induction path with
  | nil =>
      intro place _ _
      rw [descend, List.append_nil]
  | cons name rest ih =>
      intro place hlinks hsome
      rw [List.append_cons] at hsome ⊢
      rw [descend]
      cases hget : fs.get (place ++ [name]) with
      | none =>
          cases rest with
          | nil => simp
          | cons => exact absurd (get_below (by simp [hget]) (by simp)) hsome
      | some inode =>
          cases inode with
          | dir => exact ih (place ++ [name]) hlinks.concat hsome
          | link target => exact absurd hget (hlinks [name] target)
          | file content =>
              cases rest with
              | nil => simp
              | cons => exact absurd (get_below (by simp [hget]) (by simp)) hsome

/-- Without links a path stays below the place it starts from. -/
theorem descendTo_of_noLinks {followTo : List ν → Approach ν} {left : List ν} (path : List ν) :
    ∀ place, NoLinks fs place → ¬ stop <+: place → ¬ place <+: stop →
      descendTo fs stop followTo place path ≠ .inside left := by
  induction path with
  | nil =>
      intro place _ hout _
      simp [descendTo_nil hout]
  | cons name rest ih =>
      intro place hlinks hout habove
      have hnext : ¬ stop <+: place ++ [name] := by
        intro hin
        rw [eq_of_prefix_concat hout hin] at habove
        exact habove (List.prefix_append _ _)
      rw [descendTo_cons hout hnext]
      cases hget : fs.get (place ++ [name]) with
      | none => simp
      | some inode =>
          cases inode with
          | dir =>
              exact ih (place ++ [name]) hlinks.concat hnext
                fun hpre => habove ((List.prefix_append _ _).trans hpre)
          | link target => exact absurd hget (hlinks [name] target)
          | file content => simp

theorem view_of_noLinks (path : List ν) :
    ∀ place, NoLinks fs place →
      fs.view (descend fs follow place path) = (fs.get (place ++ path)).bind Inode.stat := by
  induction path with
  | nil =>
      intro place _
      rw [descend, view, List.append_nil]
  | cons name rest ih =>
      intro place hlinks
      have hsplit : place ++ name :: rest = place ++ [name] ++ rest := List.append_cons ..
      rw [hsplit, descend]
      cases hget : fs.get (place ++ [name]) with
      | none =>
          cases rest with
          | nil => simp [view, hget]
          | cons second rest =>
              have hbelow : fs.get (place ++ [name] ++ second :: rest) = none :=
                get_below (by simp [hget]) (by simp)
              rw [hbelow]
              rfl
      | some inode =>
          cases inode with
          | dir => exact ih (place ++ [name]) hlinks.concat
          | link target => exact absurd hget (hlinks [name] target)
          | file content =>
              cases rest with
              | nil => simp [view, hget]
              | cons second rest =>
                  have hbelow : fs.get (place ++ [name] ++ second :: rest) = none :=
                    get_below (by simp [hget]) (by simp)
                  rw [hbelow]
                  rfl

end

end Kernmini.Lib.FileSystem
