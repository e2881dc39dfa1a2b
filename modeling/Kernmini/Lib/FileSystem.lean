/-
Kernmini.Lib.FileSystem — a file system of directories, files and symbolic
links, and the calls that a program makes on paths.

A place in the tree is the list of the names that lead to it from the root;
what is there is its inode. A path is a list of names as well, but the names
on it may be links, so `resolve` says which place a path leads to. A path
starts at the root, and so does the target of a link: relative ones stand as
the path they mean. `links` bounds how many links the resolution of one path
follows, as the operating system does.

Names and contents are of any type. Permissions, special files and hard
links are not there, and nobody else changes the tree during a call.
-/
import Kernmini.Lib.HashMap
import Mathlib.Data.List.Infix

namespace Kernmini.Lib

/-- What a call fails with. -/
inductive Errno where
  | noEntry
  | notDirectory
  | isDirectory
  | alreadyExists
  | tooManyLinks
  | busy
  deriving DecidableEq

inductive Inode (ν β : Type*) where
  | file (content : β)
  | link (target : List ν)
  | dir

/-- What a path leads to, its links followed. -/
inductive Stat (β : Type*) where
  | file (content : β)
  | dir
  deriving DecidableEq

def Inode.stat {ν β : Type*} : Inode ν β → Option (Stat β)
  | .file content => some (.file content)
  | .link _ => none
  | .dir => some .dir

instance decidableEqDir {ν β : Type*} : ∀ inode : Inode ν β, Decidable (inode = .dir)
  | .dir => .isTrue rfl
  | .file _ => .isFalse nofun
  | .link _ => .isFalse nofun

instance decidableEqSomeDir {ν β : Type*} : ∀ inode : Option (Inode ν β), Decidable (inode = some .dir)
  | some inode => decidable_of_iff (inode = .dir) (by simp)
  | none => .isFalse nofun

section

variable {ν β : Type*} [DecidableEq ν]

/-- The root, or a place with a directory. -/
def DirAt (inodes : HashMap (List ν) (Inode ν β)) (place : List ν) : Prop :=
  place = [] ∨ inodes.lookup place = some .dir

/-- Whatever is there is in a directory. -/
def Nested (inodes : HashMap (List ν) (Inode ν β)) : Prop :=
  ∀ place name, inodes.lookup (place ++ [name]) ≠ none → DirAt inodes place

theorem nested_empty : Nested (∅ : HashMap (List ν) (Inode ν β)) := by
  simp [Nested]

variable {inodes : HashMap (List ν) (Inode ν β)} {place : List ν} {name : ν} {inode : Inode ν β}

theorem DirAt.insert {place' : List ν} (h : DirAt inodes place')
    (hkeep : inodes.lookup place = some .dir → inode = .dir) :
    DirAt (AList.insert place inode inodes) place' := by
  refine h.imp_right fun hdir => ?_
  by_cases heq : place' = place
  · subst heq
    rw [AList.lookup_insert, hkeep hdir]
  · rw [AList.lookup_insert_ne heq, hdir]

theorem Nested.insert (h : Nested inodes) (hplace : DirAt inodes place)
    (hkeep : inodes.lookup (place ++ [name]) = some .dir → inode = .dir) :
    Nested (AList.insert (place ++ [name]) inode inodes) := by
  intro place' name' hsome
  refine DirAt.insert ?_ hkeep
  by_cases heq : place' ++ [name'] = place ++ [name]
  · rw [(List.append_inj' heq rfl).1]
    exact hplace
  · rw [AList.lookup_insert_ne heq] at hsome
    exact h place' name' hsome

theorem lookup_retain_tree (place' : List ν) :
    (inodes.retain (fun place' _ => !place.isPrefixOf place')).lookup place' =
      if place <+: place' then none else inodes.lookup place' := by
  apply Option.ext
  intro inode
  rw [← Option.mem_def, HashMap.mem_retain]
  by_cases h : place <+: place'
  · simp [h]
  · have hnot : place.isPrefixOf place' = false := by
      rw [← Bool.not_eq_true, List.isPrefixOf_iff_prefix]
      exact h
    simp [h, hnot]

theorem Nested.removeTree (h : Nested inodes) :
    Nested (inodes.retain (fun place' _ => !place.isPrefixOf place')) := by
  intro place' name hsome
  rw [lookup_retain_tree] at hsome
  split at hsome
  · exact absurd rfl hsome
  · next hout =>
      have habove : ¬ place <+: place' := fun hin => hout (hin.trans (List.prefix_append _ _))
      refine (h place' name hsome).imp_right fun hdir => ?_
      rw [lookup_retain_tree, if_neg habove, hdir]

end

/-- The inodes below the root. -/
structure FileSystem (ν β : Type*) [DecidableEq ν] where
  inodes : HashMap (List ν) (Inode ν β) := ∅
  nested : Nested inodes := by exact nested_empty

namespace FileSystem

variable {ν β : Type*} [DecidableEq ν]

/-! ## Places -/

/-- What is at a place. The root is a directory. -/
def get (fs : FileSystem ν β) (place : List ν) : Option (Inode ν β) :=
  if place = [] then some .dir else fs.inodes.lookup place

section

variable {fs : FileSystem ν β} {place rest : List ν} {name : ν}

@[simp] theorem get_nil : fs.get [] = some .dir := by simp [get]

theorem get_eq_dir : fs.get place = some .dir ↔ DirAt fs.inodes place := by
  by_cases hroot : place = []
  · simp [get, DirAt, hroot]
  · simp [get, DirAt, hroot]

theorem get_concat : fs.get (place ++ [name]) = fs.inodes.lookup (place ++ [name]) := by
  simp [get]

/-- Whatever is there is in a directory. -/
theorem get_parent (h : fs.get (place ++ [name]) ≠ none) : fs.get place = some .dir := by
  rw [get_concat] at h
  exact get_eq_dir.mpr (fs.nested place name h)

/-- There is nothing below what is not a directory. -/
theorem get_below (h : fs.get place ≠ some .dir) (hrest : rest ≠ []) :
    fs.get (place ++ rest) = none := by
  induction rest using List.reverseRecOn with
  | nil => exact absurd rfl hrest
  | append_singleton rest name ih =>
      by_contra hsome
      rw [← List.append_assoc] at hsome
      have hdir := get_parent hsome
      by_cases hnil : rest = []
      · rw [hnil, List.append_nil] at hdir
        exact h hdir
      · rw [ih hnil] at hdir
        cases hdir

/-- What a place has above it are directories. -/
theorem get_above (h : fs.get (place ++ rest) ≠ none) (hrest : rest ≠ []) :
    fs.get place = some .dir := by
  by_contra hdir
  exact h (get_below hdir hrest)

end

/-! ## Changes -/

/-- Put an inode into a directory. A directory is not replaced by another
kind of inode. -/
def put (fs : FileSystem ν β) (place : List ν) (name : ν) (inode : Inode ν β) : FileSystem ν β :=
  if h : fs.get place = some .dir ∧ (fs.get (place ++ [name]) = some .dir → inode = .dir) then
    { inodes := fs.inodes.insert (place ++ [name]) inode
      nested := fs.nested.insert (get_eq_dir.mp h.1) (by rw [← get_concat]; exact h.2) }
  else fs

/-- Remove what is at a place, and everything below it. -/
def removeTree (fs : FileSystem ν β) (place : List ν) : FileSystem ν β where
  inodes := fs.inodes.retain (fun place' _ => !place.isPrefixOf place')
  nested := fs.nested.removeTree

section

variable {fs : FileSystem ν β} {place place' : List ν} {name : ν} {inode : Inode ν β}

theorem get_put (hplace : fs.get place = some .dir)
    (hkeep : fs.get (place ++ [name]) = some .dir → inode = .dir) :
    (fs.put place name inode).get place' =
      if place' = place ++ [name] then some inode else fs.get place' := by
  rw [put, dif_pos ⟨hplace, hkeep⟩]
  by_cases heq : place' = place ++ [name]
  · subst heq
    simp [get]
  · simp only [get, if_neg heq]
    rw [AList.lookup_insert_ne heq]

theorem get_removeTree (hroot : place ≠ []) :
    (fs.removeTree place).get place' = if place <+: place' then none else fs.get place' := by
  by_cases hnil : place' = []
  · simp [hnil, hroot]
  · simp only [get, removeTree, if_neg hnil]
    exact lookup_retain_tree place'

end

/-! ## Names -/

/-- The name of a place in a directory. -/
def nameIn (place place' : List ν) : Option ν :=
  if place'.dropLast = place then place'.getLast? else none

/-- What is in a directory, in the order of the representation. -/
def names (fs : FileSystem ν β) (place : List ν) : List ν :=
  fs.inodes.keys.filterMap (nameIn place)

theorem nameIn_eq_some {place place' : List ν} {name : ν} :
    nameIn place place' = some name ↔ place' = place ++ [name] := by
  unfold nameIn
  constructor
  · intro h
    split at h
    · next hplace =>
        rw [← hplace]
        exact (List.dropLast_append_getLast? name h).symm
    · cases h
  · rintro rfl
    simp

theorem mem_names {fs : FileSystem ν β} {place : List ν} {name : ν} :
    name ∈ fs.names place ↔ fs.get (place ++ [name]) ≠ none := by
  simp only [names, List.mem_filterMap, nameIn_eq_some, exists_eq_right, get_concat]
  rw [ne_eq, AList.lookup_eq_none, not_not, AList.mem_keys]

theorem nodup_names (fs : FileSystem ν β) (place : List ν) : (fs.names place).Nodup := by
  refine List.Nodup.filterMap ?_ fs.inodes.keys_nodup
  intro l l' name hl hl'
  rw [Option.mem_def, nameIn_eq_some] at hl hl'
  rw [hl, hl']

/-- The order in which directories are read, which is not specified. -/
structure ReadOrder (ν β : Type*) [DecidableEq ν] where
  list : FileSystem ν β → List ν → List ν
  perm : ∀ fs place, (list fs place).Perm (fs.names place)

/-! ## Paths -/

/-- Follow a path from a directory on. `follow` is what happens to the rest
of the path when there is a link. Only the last name may be missing. -/
def descend (fs : FileSystem ν β) (follow : List ν → Except Errno (List ν)) :
    List ν → List ν → Except Errno (List ν)
  | place, [] => .ok place
  | place, name :: rest =>
      match fs.get (place ++ [name]) with
      | some .dir => descend fs follow (place ++ [name]) rest
      | some (.link target) => follow (target ++ rest)
      | some (.file _) => if rest.isEmpty then .ok (place ++ [name]) else .error .notDirectory
      | none => if rest.isEmpty then .ok (place ++ [name]) else .error .noEntry

/-- The place a path leads to. -/
def resolve (fs : FileSystem ν β) : Nat → List ν → Except Errno (List ν)
  | 0 => descend fs (fun _ => .error .tooManyLinks) []
  | links + 1 => descend fs (resolve fs links) []

/-- `stat`. -/
def stat (fs : FileSystem ν β) (links : Nat) (path : List ν) : Except Errno (Stat β) :=
  match fs.resolve links path with
  | .ok place =>
      match (fs.get place).bind Inode.stat with
      | some stat => .ok stat
      | none => .error .noEntry
  | .error error => .error error

/-- What there is to see at a path. -/
def look (fs : FileSystem ν β) (links : Nat) (path : List ν) : Option (Stat β) :=
  (fs.stat links path).toOption

/-- The directory a path leads to. -/
def openDir (fs : FileSystem ν β) (links : Nat) (path : List ν) : Except Errno (List ν) :=
  match fs.resolve links path with
  | .ok place =>
      match fs.get place with
      | some .dir => .ok place
      | some _ => .error .notDirectory
      | none => .error .noEntry
  | .error error => .error error

/-- `mkdir` of `path/name`. -/
def mkdir (fs : FileSystem ν β) (links : Nat) (path : List ν) (name : ν) :
    Except Errno (FileSystem ν β) :=
  match fs.openDir links path with
  | .ok place =>
      match fs.get (place ++ [name]) with
      | some _ => .error .alreadyExists
      | none => .ok (fs.put place name .dir)
  | .error error => .error error

/-- `create_dir_all`, on the names of the path from the last one on. -/
def createDirs (fs : FileSystem ν β) (links : Nat) : List ν → Except Errno (FileSystem ν β)
  | [] => .ok fs
  | name :: up =>
      match fs.mkdir links up.reverse name with
      | .ok fs' => .ok fs'
      | .error .noEntry =>
          match createDirs fs links up with
          | .ok fs' =>
              match fs'.mkdir links up.reverse name with
              | .ok fs'' => .ok fs''
              | .error error =>
                  if (fs'.openDir links (up.reverse ++ [name])).toBool then .ok fs' else .error error
          | .error error => .error error
      | .error error =>
          if (fs.openDir links (up.reverse ++ [name])).toBool then .ok fs else .error error

/-- `create_dir_all`. -/
def createDirAll (fs : FileSystem ν β) (links : Nat) (path : List ν) :
    Except Errno (FileSystem ν β) :=
  fs.createDirs links path.reverse

/-- `remove_dir_all`: a link at the end of the path is removed itself. -/
def removeDirAll (fs : FileSystem ν β) (links : Nat) (path : List ν) :
    Except Errno (FileSystem ν β) :=
  match path.getLast? with
  | some name =>
      match fs.openDir links path.dropLast with
      | .ok place =>
          match fs.get (place ++ [name]) with
          | some (.file _) => .error .notDirectory
          | some _ => .ok (fs.removeTree (place ++ [name]))
          | none => .error .noEntry
      | .error error => .error error
  | none => .error .busy

/-- Write a file, over an old one or a new one. -/
def write (fs : FileSystem ν β) (links : Nat) (path : List ν) (content : β) :
    Except Errno (FileSystem ν β) :=
  match fs.resolve links path with
  | .ok place =>
      match fs.get place, place.getLast? with
      | some .dir, _ => .error .isDirectory
      | _, some name => .ok (fs.put place.dropLast name (.file content))
      | _, none => .error .isDirectory
  | .error error => .error error

/-- `copy` of a file. -/
def copy (fs : FileSystem ν β) (links : Nat) (source target : List ν) :
    Except Errno (FileSystem ν β) :=
  match fs.stat links source with
  | .ok (.file content) => fs.write links target content
  | .ok .dir => .error .isDirectory
  | .error error => .error error

end FileSystem

end Kernmini.Lib
