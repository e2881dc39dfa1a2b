/-
Kernmini.Kernelspec.Install — installing a kernelspec (`kernelspec.rs`):
where it goes, and how its directory is emptied and filled.

`copy_dir` reads the source while it writes the destination, so each call on
a path is made in the tree as the calls before it have left it. The recursion
takes fuel; without enough of it there is no result. What a failed call has
done to the tree is not followed.

Paths are Unix paths. A `..` is looked up like any other name, which is not
what it means: results about the tree ask for paths without one.
-/
import Mathlib.Data.List.SplitOn
import Kernmini.Engine.Language
import Kernmini.Lib.FileSystem

namespace Kernmini.Kernelspec

open Kernmini.Wire Kernmini.Engine Kernmini.Lib

abbrev Files := FileSystem String Bytes

/-! ## Paths -/

/-- `PathBuf`. -/
structure PathBuf where
  text : String
  deriving DecidableEq

namespace PathBuf

/-- `PathBuf::from`, and `Path::new`. -/
def ofString (s : String) : PathBuf := ⟨s⟩

/-- What stands between the slashes. -/
def pieces (self : PathBuf) : List String := (self.text.toList.splitOn '/').map String.ofList

def absolute (self : PathBuf) : Bool := self.text.toList.head? = some '/'

/-- The names on the path: a `.` or nothing between two slashes is no step. -/
def names (self : PathBuf) : List String := self.pieces.filter fun name => name ≠ "" ∧ name ≠ "."

def join (self path : PathBuf) : PathBuf :=
  if path.absolute then path
  else if self.text = "" ∨ self.text.toList.getLast? = some '/' then ⟨self.text ++ path.text⟩
  else ⟨self.text ++ "/" ++ path.text⟩

def display (self : PathBuf) : String := self.text

end PathBuf

inductive Platform where
  | unix
  | macos
  | windows
  deriving DecidableEq

/-- What the calls find around them. -/
structure System where
  platform : Platform := .unix
  /-- the environment -/
  vars : String → Option String
  workingDir : List String
  /-- how many links the resolution of one path follows -/
  links : Nat
  readOrder : FileSystem.ReadOrder String Bytes

namespace System

variable (sys : System)

/-- The names of a path from the root on. -/
def path (p : PathBuf) : List String := if p.absolute then p.names else sys.workingDir ++ p.names

/-! ## Where kernelspecs are -/

def var (name : String) : Option PathBuf :=
  ((sys.vars name).filter (fun value => value ≠ "")).map PathBuf.ofString

/-- `jupyter_data_dir`. -/
def jupyterDataDir : Except Error PathBuf :=
  match sys.var "JUPYTER_DATA_DIR" with
  | some dir => .ok dir
  | none =>
      match sys.var (if sys.platform = .windows then "USERPROFILE" else "HOME") with
      | none => .error ⟨.unavailable, "no home directory"⟩
      | some home =>
          match sys.platform with
          | .macos => .ok ((home.join (.ofString "Library")).join (.ofString "Jupyter"))
          | .windows => .ok (((sys.var "APPDATA").getD home).join (.ofString "jupyter"))
          | .unix =>
              .ok (((sys.var "XDG_DATA_HOME").getD
                ((home.join (.ofString ".local")).join (.ofString "share"))).join (.ofString "jupyter"))

/-- `kernels_dir`; `base` is its `prefix`. -/
def kernelsDir (base : Option PathBuf) : Except Error PathBuf :=
  match base with
  | some base =>
      .ok (((base.join (.ofString "share")).join (.ofString "jupyter")).join (.ofString "kernels"))
  | none => sys.jupyterDataDir.map fun dir => dir.join (.ofString "kernels")

/-! ## Emptying the destination -/

/-- The texts of the errors of the operating system. -/
def errnoText : Errno → String
  | .noEntry => "No such file or directory (os error 2)"
  | .notDirectory => "Not a directory (os error 20)"
  | .isDirectory => "Is a directory (os error 21)"
  | .alreadyExists => "File exists (os error 17)"
  | .tooManyLinks => "Too many levels of symbolic links (os error 40)"
  | .busy => "Device or resource busy (os error 16)"

/-- `Error::from(io::Error)`. -/
def ioError (errno : Errno) : Error := Error.causedBy ⟨.io, "I/O failed"⟩ (errnoText errno)

/-- `if dest.exists() { remove_dir_all(dest)? } create_dir_all(dest)?`. -/
def emptied (fs : Files) (dest : List String) : Except Errno Files :=
  if (fs.look sys.links dest).isSome then
    match fs.removeDirAll sys.links dest with
    | .ok fs' => fs'.createDirAll sys.links dest
    | .error errno => .error errno
  else fs.createDirAll sys.links dest

def fresh (fs : Files) (name : String) (base : Option PathBuf) : Except Error (PathBuf × Files) :=
  match sys.kernelsDir base with
  | .error error => .error error
  | .ok kernels =>
      let dest := kernels.join (.ofString name)
      match sys.emptied fs (sys.path dest) with
      | .ok fs' => .ok (dest, fs')
      | .error errno => .error (ioError errno)

/-! ## Filling it -/

/-- The loop of `copy_dir` over the entries; `copy` is the recursive call. -/
def copyEntries (copy : Files → List String → List String → Option (Except Errno Files))
    (src dest : List String) : Files → List String → Option (Except Errno Files)
  | fs, [] => some (.ok fs)
  | fs, name :: rest =>
      match fs.stat sys.links (src ++ [name]) with
      | .error errno => some (.error errno)
      | .ok .dir =>
          match fs.createDirAll sys.links (dest ++ [name]) with
          | .error errno => some (.error errno)
          | .ok made =>
              match copy made (src ++ [name]) (dest ++ [name]) with
              | some (.ok copied) => copyEntries copy src dest copied rest
              | failed => failed
      | .ok (.file _) =>
          match fs.copy sys.links (src ++ [name]) (dest ++ [name]) with
          | .error errno => some (.error errno)
          | .ok copied => copyEntries copy src dest copied rest

/-- `copy_dir`. -/
def copyDir : Nat → Files → List String → List String → Option (Except Errno Files)
  | 0, _, _, _ => none
  | fuel + 1, fs, src, dest =>
      match fs.openDir sys.links src with
      | .error errno => some (.error errno)
      | .ok place => sys.copyEntries (copyDir fuel) src dest fs (sys.readOrder.list fs place)

/-- `install_kernelspec_dir`. -/
def installKernelspecDir (fuel : Nat) (fs : Files) (src : PathBuf) (name : String)
    (base : Option PathBuf) : Option (Except Error (PathBuf × Files)) :=
  match sys.fresh fs name base with
  | .error error => some (.error error)
  | .ok (dest, fs') =>
      match sys.copyDir fuel fs' (sys.path src) (sys.path dest) with
      | none => none
      | some (.ok copied) => some (.ok (dest, copied))
      | some (.error errno) =>
          some (.error ((ioError errno).context ("copying " ++ src.display)))

end System

end Kernmini.Kernelspec
