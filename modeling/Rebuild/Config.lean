import Rebuild.Basic
import Rebuild.Glob.Pattern
import Rebuild.Host
import Rebuild.Project.Host
import Rebuild.Text.Lowercase
import Rebuild.Toml.Reader

/-!
# Project configuration

A configuration is a TOML document with two optional sections:

* `config`: how to build, where outputs go and where the build info document is kept;
* `units`: include and exclude patterns.

Every field has a default.  A section may be given as a table or as a list of its fields in order;
unknown fields are ignored.

* `Config.parse`: read a configuration and check that it is usable: there is an include pattern
  that is not blank, all patterns are well formed, and the paths are not empty.
-/

namespace Rebuild

/-- Where the build info document is kept between runs. -/
inductive StorageMode where
  /-- In a file. -/
  | file
  /-- In memory only. -/
  | memory
  deriving Repr, DecidableEq, Inhabited

def StorageMode.names : List (String × StorageMode) :=
  [("file", .file), ("memory", .memory)]

def StorageMode.name : StorageMode → String
  | .file => "file"
  | .memory => "memory"

/-- The storage mode that a text names, blanks around it and case aside; or the complaint. -/
def StorageMode.parse (text : String) : Except String StorageMode :=
  let word := String.ofList (Text.lower (Text.trim text.toList))
  match names.lookup word with
  | some mode => .ok mode
  | none =>
      .error ("invalid build_info_storage: " ++ word ++ " (expected \"file\" or \"memory\")")

structure Config where
  dependencyTracking : Bool := true
  emitDeclarations : Bool := true
  /-- Inferred declarations count toward signatures. -/
  includeInferredTypes : Bool := true
  persistDiagnostics : Bool := true
  /-- The build info document, relative to the project root. -/
  buildInfo : DiskPath := ".incbuild/buildinfo.json"
  buildInfoStorage : StorageMode := .file
  /-- The output directory, relative to the project root. -/
  outDir : DiskPath := "out"
  includes : List String := ["src/**/*.unit"]
  excludes : List String := []
  deriving Repr, DecidableEq

namespace Config

def options (c : Config) : Options :=
  ⟨c.dependencyTracking, c.emitDeclarations, c.persistDiagnostics⟩

def matcher (c : Config) : Except Error Matcher :=
  Matcher.ofPatterns c.includes c.excludes

/-- A host for the project in a directory. -/
def host {σ : Type} (c : Config) (storage : σ) (root : DiskPath) : Except Error (ProjectHost σ) := do
  return {
    storage, root
    matcher := ← c.matcher
    outDir := c.outDir
    includeInferred := c.includeInferredTypes }

/-! ### Reading -/

def bool? : Toml → Option Bool
  | .bool b => some b
  | _ => none

def text? : Toml → Option String
  | .text s => some s
  | _ => none

def items? : Toml → Option (List Toml)
  | .list items => some items
  | .tables rows => some (rows.map (Toml.table .header))
  | _ => none

def texts? (t : Toml) : Option (List String) :=
  (items? t).bind fun items => items.mapM text?

/-- Whether a value holds nothing: an empty table or array. -/
def isHollow : Toml → Bool
  | .list [] => true
  | .table _ [] => true
  | .tables [] => true
  | _ => false

/-- A storage mode: its name, or a table that maps its name to something hollow. -/
def storageMode? : Toml → Option StorageMode
  | .text s => StorageMode.names.lookup s
  | .table _ [(s, value)] => if isHollow value then StorageMode.names.lookup s else none
  | _ => none

/-- The value of each named field of a section, `none` where it is missing. -/
def fields? (names : List String) : Toml → Option (List (Option Toml))
  | .table _ entries => some (names.map fun name => entries.lookup name)
  | value => (items? value).map fun items => (List.range names.length).map fun i => items[i]?

def withDefault {α : Type} (default : α) (read : Toml → Option α) : Option Toml → Option α
  | none => some default
  | some value => read value

/-- Read the build section into a configuration. -/
def readBuild? (c : Config) (section_ : Toml) : Option Config := do
  match ← fields? ["dependency_tracking", "emit_declarations", "include_inferred_types",
      "persist_diagnostics", "build_info", "build_info_storage", "out_dir"] section_ with
  | [tracking, declarations, inferred, diagnostics, buildInfo, storage, outDir] =>
      return { c with
        dependencyTracking := ← withDefault c.dependencyTracking bool? tracking
        emitDeclarations := ← withDefault c.emitDeclarations bool? declarations
        includeInferredTypes := ← withDefault c.includeInferredTypes bool? inferred
        persistDiagnostics := ← withDefault c.persistDiagnostics bool? diagnostics
        buildInfo := ← withDefault c.buildInfo text? buildInfo
        buildInfoStorage := ← withDefault c.buildInfoStorage storageMode? storage
        outDir := ← withDefault c.outDir text? outDir }
  | _ => none

/-- Read the unit patterns into a configuration. -/
def readUnits? (c : Config) (section_ : Toml) : Option Config := do
  match ← fields? ["include", "exclude"] section_ with
  | [includes, excludes] =>
      return { c with
        includes := ← withDefault c.includes texts? includes
        excludes := ← withDefault c.excludes texts? excludes }
  | _ => none

/-- The configuration of a document, before it is checked. -/
def read? (text : String) : Option Config := do
  let entries ← Toml.parse? text
  let c : Config := {}
  let c ← match entries.lookup "config" with
    | some section_ => c.readBuild? section_
    | none => some c
  match entries.lookup "units" with
  | some section_ => c.readUnits? section_
  | none => some c

/-! ### Checking -/

/-- The complaint about the first malformed pattern of a section. -/
def faultyPattern? (section_ : String) (patterns : List String) : Option String :=
  patterns.findSome? fun pattern =>
    match Glob.parse pattern with
    | .ok _ => none
    | .error fault =>
        some ("invalid glob in [units]." ++ section_ ++ ": '" ++ pattern ++ "': "
          ++ fault.message pattern)

/-- What makes a configuration unusable. -/
def complaint? (c : Config) : Option String :=
  if c.includes.all fun pattern => (Text.trim pattern.toList).isEmpty then
    some "[units].include must contain at least one pattern"
  else
    (faultyPattern? "include" c.includes).or <| (faultyPattern? "exclude" c.excludes).or <|
      if c.outDir.isEmpty then some "[config].out_dir must not be empty"
      else if c.buildInfo.isEmpty then some "[config].build_info must not be empty"
      else none

/-- The configuration that a text holds, if it is usable. -/
def parse (text : String) : Except Error Config :=
  match read? text with
  | none => .error .toml
  | some c =>
      match c.complaint? with
      | some reason => .error (.config reason)
      | none => .ok c

end Config

end Rebuild
