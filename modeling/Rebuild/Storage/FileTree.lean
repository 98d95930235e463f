import Rebuild.Storage.Basic

/-!
# File trees

A file system as an operating system presents it: a tree of directories below a root, with a
working directory for relative paths.  Two dots lead to the directory above, a path that ends in a
slash or a dot must name a directory, and a file cannot be written where a directory is.

* `locate?`: what a path names, as the names on the way from the root;
* `makeDirs?`: create a directory and the directories above it;
* the instance of `Storage`.
-/

namespace Rebuild

/-- A tree of files: every file and directory with the names on its way from the root.  A
directory has no content. -/
structure FileTree where
  entries : List (List String × Option (List UInt8)) := []
  /-- The way to the working directory. -/
  workDir : List String := []
  deriving Repr, DecidableEq

namespace FileTree

/-- The names on the way to a file or directory. -/
abbrev Location := List String

/-- What is at a location: `some none` for a directory. -/
def get? (t : FileTree) (l : Location) : Option (Option (List UInt8)) :=
  if l = [] then some none else t.entries.lookup l

def isDirAt (t : FileTree) (l : Location) : Bool :=
  t.get? l == some none

def put (t : FileTree) (l : Location) (content : Option (List UInt8)) : FileTree :=
  { t with entries := (l, content) :: t.entries.filter (·.1 != l) }

def erase (t : FileTree) (l : Location) : FileTree :=
  { t with entries := t.entries.filter (·.1 != l) }

def parts (path : DiskPath) : List String :=
  (Text.splitOn '/' path.toList).map String.ofList

/-- Where the parts of a path start. -/
def startOf (t : FileTree) (path : DiskPath) : Location :=
  if DiskPath.isAbsolute path then [] else t.workDir

/-- Follow the parts of a path from a location. -/
def walk? (t : FileTree) (l : Location) : List String → Option Location
  | [] => some l
  | part :: rest =>
      if t.isDirAt l then
        if part = "" ∨ part = "." then walk? t l rest
        else if part = ".." then walk? t l.dropLast rest
        else if (t.get? (l ++ [part])).isSome then walk? t (l ++ [part]) rest
        else none
      else none

/-- Whether a path can name anything. -/
def isNamable (path : DiskPath) : Bool :=
  !path.isEmpty && !path.toList.contains (Char.ofNat 0)

/-- The location that a path names, if something is there. -/
def locate? (t : FileTree) (path : DiskPath) : Option Location :=
  if isNamable path then t.walk? (t.startOf path) (parts path) else none

def content? (t : FileTree) (path : DiskPath) : Option (List UInt8) :=
  ((t.locate? path).bind t.get?).join

/-- The directory that a path names. -/
def dir? (t : FileTree) (path : DiskPath) : Option Location :=
  (t.locate? path).filter t.isDirAt

/-- Create the directories on the way from a location; the tree keeps what was created before a
failure. -/
def makeDirsFrom (t : FileTree) (l : Location) : List String → Bool × FileTree
  | [] => (true, t)
  | part :: rest =>
      if part = "" ∨ part = "." then makeDirsFrom t l rest
      else if part = ".." then makeDirsFrom t l.dropLast rest
      else
        match t.get? (l ++ [part]) with
        | some none => makeDirsFrom t (l ++ [part]) rest
        | some (some _) => (false, t)
        | none => makeDirsFrom (t.put (l ++ [part]) none) (l ++ [part]) rest

/-- Create a directory and the directories above it; whether it is there afterwards. -/
def makeDirs (t : FileTree) (path : DiskPath) : Bool × FileTree :=
  if path.isEmpty then (true, t)
  else if isNamable path then t.makeDirsFrom (t.startOf path) (parts path)
  else (false, t)

/-- The location of a file to be written: a name in an existing directory, where no directory
is. -/
def target? (t : FileTree) (path : DiskPath) : Option Location :=
  if isNamable path then
    match (parts path).reverse with
    | [] => none
    | last :: above =>
        if last = "" ∨ last = "." ∨ last = ".." then none
        else
          match t.walk? (t.startOf path) above.reverse with
          | none => none
          | some l =>
              if t.isDirAt l && !t.isDirAt (l ++ [last]) then some (l ++ [last]) else none
  else none

/-- The names in the directory at a location. -/
def childrenOf (t : FileTree) (l : Location) : List String :=
  t.entries.filterMap fun entry =>
    if entry.1.dropLast = l ∧ entry.1 ≠ [] then entry.1.getLast? else none

/-- An absolute path without dots that names the same as `path`. -/
def canonical? (t : FileTree) (path : DiskPath) : Option DiskPath :=
  (t.locate? path).map fun l => "/" ++ String.intercalate "/" l

def failure (doing : String) (path : DiskPath) : Error :=
  .other (doing ++ " " ++ Text.quotePath path)

def writeFile (t : FileTree) (path : DiskPath) (content : List UInt8) :
    Except Error Unit × FileTree :=
  let above := (DiskPath.parent? path).getD ""
  match t.makeDirs above with
  | (false, t) => (.error (failure "creating dir" above), t)
  | (true, t) =>
      match t.target? path with
      | none => (.error (failure "creating file" path), t)
      | some l => (.ok (), t.put l (some content))

instance : Storage FileTree where
  readText t path :=
    match t.content? path with
    | none => .error (failure "reading file" path)
    | some content =>
        match Text.Utf8.decode content with
        | .ok text => .ok text
        | .error _ => .error (failure "reading file" path)
  openFile t path :=
    match (t.locate? path).bind t.get? with
    | none => .error (failure "opening file" path)
    | some none => .ok .unreadable
    | some (some content) => .ok (.bytes content)
  write t path content := t.writeFile path content
  remove t path :=
    match t.locate? path with
    | none => (.error (failure "removing file" path), t)
    | some l =>
        if t.isDirAt l then (.error (failure "removing file" path), t) else (.ok (), t.erase l)
  present t path := (t.locate? path).isSome
  isFile t path := (t.content? path).isSome
  isDir t path := (t.dir? path).isSome
  list t path :=
    match t.dir? path with
    | none => .error (failure "reading dir" path)
    | some l => .ok ((t.childrenOf l).map (DiskPath.join path))
  entryCount t := t.entries.length

end FileTree

end Rebuild
