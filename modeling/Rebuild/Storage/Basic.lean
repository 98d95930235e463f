import Rebuild.Basic
import Rebuild.Digest
import Rebuild.Text.Quoted

/-!
# Storage

What the program needs from a file system, as operations on a storage state.  Failures carry the
outermost context of what was attempted.

A path is a text whose parts are separated by slashes.  Two views of it matter: the text itself,
which is what messages and results show, and its components, which decide what it names.

* `DiskPath.components`: empty parts and single dots disappear, except a dot at the very beginning;
* `DiskPath.join`: append a path, unless it is absolute and stands alone;
* `DiskPath.parent?`: the text without its last component;
* `DiskPath.fileName?`: the last component, if it is a name;
* `DiskPath.unitPathUnder?`: the unit path of a file below a directory.
-/

namespace Rebuild

/-! ### Paths of files -/

/-- A path of a file or directory, as text. -/
abbrev DiskPath := String

inductive Component where
  /-- The root directory, at the beginning of an absolute path. -/
  | root
  /-- A single dot at the beginning of a path. -/
  | current
  /-- Two dots. -/
  | up
  /-- A name. -/
  | name (text : String)
  deriving Repr, DecidableEq

namespace Component

def text : Component → String
  | .root => "/"
  | .current => "."
  | .up => ".."
  | .name s => s

/-- The component that a part of a path stands for; empty parts and single dots stand for none. -/
def ofPart? (part : List Char) : Option Component :=
  if part.isEmpty || part == ['.'] then none
  else if part == ['.', '.'] then some .up
  else some (.name (String.ofList part))

end Component

namespace DiskPath

def components (path : DiskPath) : List Component :=
  match Text.splitOn '/' path.toList with
  | [] => []
  | first :: rest =>
      let tail := rest.filterMap Component.ofPart?
      if path.toList.head? = some '/' then .root :: tail
      else if first = ['.'] then .current :: tail
      else (Component.ofPart? first).toList ++ tail

def isAbsolute (path : DiskPath) : Bool :=
  path.toList.head? == some '/'

/-- Append a path; an absolute one replaces the first. -/
def join (base path : DiskPath) : DiskPath :=
  if isAbsolute path || base.isEmpty then path
  else if base.toList.getLast? = some '/' then base ++ path
  else base ++ "/" ++ path

/-- The number of characters before the first part that can be taken off: a slash or a dot at the
beginning. -/
def headLength (path : DiskPath) : Nat :=
  match Text.splitOn '/' path.toList with
  | [] => 0
  | first :: _ => if isAbsolute path || first == ['.'] then 1 else 0

/-- Whether a part stands for no component. -/
def isSilent (part : List Char) : Bool :=
  (Component.ofPart? part).isNone

/-- The path without its last component.  The root directory and the empty path have no parent. -/
def parent? (path : DiskPath) : Option DiskPath :=
  let chars := path.toList
  let front := chars.take (headLength path)
  let parts := (Text.splitOn '/' (chars.drop (headLength path))).reverse
  match parts.dropWhile isSilent with
  | _ :: rest =>
      let kept := (rest.dropWhile isSilent).reverse
      some (String.ofList (front ++ Text.join ['/'] kept))
  | [] => if front = ['.'] then some "" else none

/-- The last component, if it is a name. -/
def fileName? (path : DiskPath) : Option String :=
  match (components path).getLast? with
  | some (.name s) => some s
  | _ => none

/-- What is left of a list after a first part. -/
def after? {α : Type} [DecidableEq α] : List α → List α → Option (List α)
  | [], rest => some rest
  | _ :: _, [] => none
  | x :: xs, y :: ys => if x = y then after? xs ys else none

/-- The unit path of `path`, if it lies below the directory `root`. -/
def unitPathUnder? (root path : DiskPath) : Option UnitPath :=
  (after? (components root) (components path)).map fun rest =>
    UnitPath.normalize (String.intercalate "/" (rest.map Component.text))

end DiskPath

/-! ### File systems -/

inductive Opened where
  /-- Its bytes can be read. -/
  | bytes (content : List UInt8)
  /-- Reading from it fails. -/
  | unreadable

/-- A file system whose state is of type `σ`. -/
class Storage (σ : Type) where
  /-- The text of a file. -/
  readText : σ → DiskPath → Except Error String
  /-- Open a file for reading. -/
  openFile : σ → DiskPath → Except Error Opened
  /-- Write a file, creating the directories above it. -/
  write : σ → DiskPath → List UInt8 → Except Error Unit × σ
  /-- Remove a file. -/
  remove : σ → DiskPath → Except Error Unit × σ
  /-- Whether something is at a path. -/
  present : σ → DiskPath → Bool
  /-- Whether a file is at a path. -/
  isFile : σ → DiskPath → Bool
  /-- Whether a directory is at a path. -/
  isDir : σ → DiskPath → Bool
  /-- The entries of a directory, as paths below the given one. -/
  list : σ → DiskPath → Except Error (List DiskPath)
  /-- The number of files and directories. -/
  entryCount : σ → Nat

/-- A state of type `η` that has a file system of type `σ` in it. -/
class HasStorage (η : Type) (σ : outParam Type) where
  storage : η → σ
  withStorage : η → σ → η

namespace Storage

variable {σ : Type} [Storage σ]

def readBytes (s : σ) (path : DiskPath) : Except Error (List UInt8) :=
  match openFile s path with
  | .error e => .error e
  | .ok .unreadable => .error .io
  | .ok (.bytes content) => .ok content

def fileVersion (s : σ) (path : DiskPath) : Except Error String :=
  match openFile s path with
  | .error _ => .error (.other ("opening unit for hashing: " ++ Text.quotePath path))
  | .ok .unreadable => .error .io
  | .ok (.bytes content) => .ok (Digest.ofBytes content)

end Storage

end Rebuild
