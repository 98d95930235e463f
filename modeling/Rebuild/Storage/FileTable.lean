import Rebuild.Storage.Basic

/-!
# File tables

A file system in memory: a table of entries keyed by path.  Directories are entries too, and list
the names of their children in the order in which they were added.

Writing a file puts it into the table whatever was there, creates the missing directories above it
and adds its name to its directory.  Removing a file takes its name out again.  Paths that go up
are entries of their own: two dots are never resolved.
-/

namespace Rebuild

/-- What a table holds at a path. -/
inductive TableEntry where
  | file (content : List UInt8)
  /-- A directory with the names of its children. -/
  | dir (children : List String)
  deriving Repr, DecidableEq

/-- A file system in memory.  The empty key is the working directory. -/
structure FileTable where
  entries : List (List Component × TableEntry) := [([], .dir [])]
  deriving Repr, DecidableEq

namespace FileTable

/-- The key of a path: its components without a leading dot. -/
def key (path : DiskPath) : List Component :=
  (DiskPath.components path).filter (· != .current)

def get? (t : FileTable) (k : List Component) : Option TableEntry :=
  t.entries.lookup k

def put (t : FileTable) (k : List Component) (entry : TableEntry) : FileTable :=
  ⟨(k, entry) :: t.entries.filter (·.1 != k)⟩

def erase (t : FileTable) (k : List Component) : FileTable :=
  ⟨t.entries.filter (·.1 != k)⟩

/-- The directory that a key lies in: none for the root directory, and the working directory for
itself. -/
def parentKey? (k : List Component) : Option (List Component) :=
  if k = [.root] then none else some k.dropLast

def keyName? (k : List Component) : Option String :=
  match k.getLast? with
  | some (.name s) => some s
  | _ => none

/-- Add the name of `child` to the directory at `parent`. -/
def link (t : FileTable) (parent child : List Component) : FileTable :=
  match t.get? parent, keyName? child with
  | some (.dir children), some name =>
      if children.contains name then t else t.put parent (.dir (children ++ [name]))
  | _, _ => t

/-- Create the directory at a key given last component first, and the directories above it, unless
something is there. -/
def ensureDir (t : FileTable) : List Component → FileTable
  | [] => if (t.get? []).isSome then t else t.put [] (.dir [])
  | c :: above =>
      let k := (c :: above).reverse
      if (t.get? k).isSome then t
      else
        let t := t.put k (.dir [])
        if c = .root then t else (t.ensureDir above).link above.reverse k

def addFile (t : FileTable) (path : DiskPath) (content : List UInt8) : FileTable :=
  let k := key path
  let t := t.put k (.file content)
  match parentKey? k with
  | some parent => (t.ensureDir parent.reverse).link parent k
  | none => t

/-- Remove a file; nothing happens when there is none. -/
def removeFile? (t : FileTable) (path : DiskPath) : Option FileTable :=
  let k := key path
  match t.get? k with
  | some (.file _) =>
      let t := t.erase k
      match parentKey? k, keyName? k with
      | some parent, some name =>
          match t.get? parent with
          | some (.dir children) => some (t.put parent (.dir (children.filter (· != name))))
          | _ => some t
      | _, _ => some t
  | _ => none

def content? (t : FileTable) (path : DiskPath) : Option (List UInt8) :=
  match t.get? (key path) with
  | some (.file content) => some content
  | _ => none

def missing (t : FileTable) (path : DiskPath) : Error :=
  match t.get? (key path) with
  | some (.dir _) => .other ("Is a directory: " ++ Text.quotePath path)
  | _ => .other ("File not found: " ++ Text.quotePath path)

instance : Storage FileTable where
  readText t path :=
    match t.content? path with
    | none => .error (t.missing path)
    | some content =>
        match Text.Utf8.decode content with
        | .ok text => .ok text
        | .error fault => .error (.other ("Invalid UTF-8: " ++ fault.message))
  openFile t path :=
    match t.content? path with
    | none => .error (t.missing path)
    | some content => .ok (.bytes content)
  write t path content := (.ok (), t.addFile path content)
  remove t path :=
    match t.removeFile? path with
    | some t => (.ok (), t)
    | none => (.error (.other ("File not found: " ++ Text.quotePath path)), t)
  present t path := (t.get? (key path)).isSome
  isFile t path := (t.content? path).isSome
  isDir t path :=
    match t.get? (key path) with
    | some (.dir _) => true
    | _ => false
  list t path :=
    match t.get? (key path) with
    | some (.dir children) => .ok (children.map (DiskPath.join path))
    | _ => .error (.other ("Not a directory or not found: " ++ Text.quotePath path))
  entryCount t := t.entries.length

end FileTable

end Rebuild
