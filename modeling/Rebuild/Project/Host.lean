import Rebuild.Host
import Rebuild.Project.Matcher
import Rebuild.Source.Unit

/-!
# Project hosts

The host of a project of unit files in a storage.  A snapshot scans the project directory and reads
every unit; the text of an unchanged unit is not parsed again.  A unit that cannot be read is kept
without contents: its check, its interface and its emit fail.

* `interfaceOf`: the declarations of a unit, with those it re-exports;
* `checkContents`: the diagnostics of a unit;
* `outputs`: what an emit writes;
* the instance of `Host`.
-/

namespace Rebuild

structure LoadedUnit where
  text : String
  contents : Source.Contents
  /-- Why the unit could not be read. -/
  unreadable : Option String := none
  deriving Repr, DecidableEq

/-- A host for unit files in a storage. -/
structure ProjectHost (σ : Type) where
  storage : σ
  root : DiskPath
  matcher : Matcher
  outDir : DiskPath
  /-- Inferred declarations belong to the visible shape. -/
  includeInferred : Bool
  /-- The units of the latest snapshot. -/
  units : List (UnitPath × LoadedUnit) := []

namespace ProjectHost

/-! ### Diagnostic codes -/

def codeErrorDirective : Nat := 1001

def codeWarnDirective : Nat := 1002

def codeDuplicateExport : Nat := 2300

def codeNotImported : Nat := 2304

def codeNoExportedMember : Nat := 2305

def codeUnresolvedImport : Nat := 2307

/-- The shape of an inferred export whose source has no such member. -/
def unresolvedShape : String := "unknown"

/-! ### Interfaces -/

/-- Units by path. -/
abbrev Units := List (UnitPath × LoadedUnit)

def has (units : Units) (path : UnitPath) : Bool :=
  (units.lookup path).isSome

/-- The number of units that are not being visited. -/
def unvisited (units : Units) (visiting : List UnitPath) : Nat :=
  (units.filter fun unit => !visiting.contains unit.1).length

/-- Visiting another unit leaves fewer to visit. -/
theorem unvisited_cons_lt {units : Units} {visiting : List UnitPath} {path : UnitPath}
    {unit : LoadedUnit} (found : units.lookup path = some unit) (fresh : path ∉ visiting) :
    unvisited units (path :: visiting) < unvisited units visiting := by
  obtain ⟨before, after, hunits, _⟩ := List.lookup_eq_some_iff.mp found
  have hmem : (path, unit) ∈ units.filter fun unit => !visiting.contains unit.1 :=
    List.mem_filter.mpr ⟨by simp [hunits], by simpa using fresh⟩
  let other (unit : UnitPath × LoadedUnit) : Bool := !unit.1 == path
  have hfewer := List.length_filter_lt_length_iff_exists.mpr
    ⟨(path, unit), hmem, show ¬ other (path, unit) = true by simp [other]⟩
  rw [List.filter_filter] at hfewer
  simpa only [unvisited, other, List.contains_cons, Bool.not_or] using hfewer

/-- The declarations of a unit: its own exports in order, then those of the units it re-exports.
An inferred export has the shape of the first declaration of its source with the given name.  Units
that are being visited have no declarations, which ends cycles. -/
def interfaceFrom (units : Units) (visiting : List UnitPath) (path : UnitPath) : Interface :=
  match _found : units.lookup path with
  | none => []
  | some unit =>
      if _fresh : path ∈ visiting then []
      else
        let own := unit.contents.exports.map fun e =>
          match e with
          | .declared kind name shape _ => (⟨kind, name, shape, false⟩ : Declaration)
          | .inferred name source member _ =>
              let declarations := interfaceFrom units (path :: visiting) source
              let shape := (declarations.find? fun d => d.name == member).map (·.shape)
              ⟨"let", name, shape.getD unresolvedShape, true⟩
        let reexports := unit.contents.imports.filter (·.reexport)
        own ++ reexports.flatMap fun i => interfaceFrom units (path :: visiting) i.path
termination_by unvisited units visiting
decreasing_by
  all_goals exact unvisited_cons_lt _found _fresh

def interfaceOf (units : Units) (path : UnitPath) : Interface :=
  interfaceFrom units [] path

/-- Whether a unit exports a member, itself or by re-export. -/
def exportsMember (units : Units) (path : UnitPath) (member : String) : Bool :=
  (interfaceOf units path).any fun d => d.name == member

/-! ### Checking -/

def cannotFind (unit path : UnitPath) (line : Nat) : Diagnostic :=
  (Diagnostic.error unit codeUnresolvedImport ("cannot find unit '" ++ path ++ "'")).atLine line

def noMember (unit path : UnitPath) (member : String) (line : Nat) : Diagnostic :=
  (Diagnostic.error unit codeNoExportedMember
    ("unit '" ++ path ++ "' has no exported member '" ++ member ++ "'")).atLine line

def checkImport (units : Units) (unit : UnitPath) (i : Source.Import) : List Diagnostic :=
  if has units i.path then [] else [cannotFind unit i.path i.line]

/-- Complaints about exports; `names` holds the names exported before. -/
def checkExports (units : Units) (unit : UnitPath) (names : List String) :
    List Source.Export → List Diagnostic
  | [] => []
  | e :: rest =>
      let duplicate :=
        if names.contains e.name then
          [(Diagnostic.error unit codeDuplicateExport
            ("duplicate export '" ++ e.name ++ "'")).atLine e.line]
        else []
      let unresolved :=
        match e with
        | .inferred _ source member line =>
            if !has units source then [cannotFind unit source line]
            else if !exportsMember units source member then [noMember unit source member line]
            else []
        | .declared .. => []
      duplicate ++ unresolved ++ checkExports units unit (e.name :: names) rest

def checkUse (units : Units) (unit : UnitPath) (contents : Source.Contents)
    (site : Source.UseSite) : List Diagnostic :=
  if !contents.references site.source then
    [(Diagnostic.error unit codeNotImported
      ("'" ++ site.source ++ "' is used but not imported")).atLine site.line]
  else if has units site.source && !exportsMember units site.source site.member then
    [noMember unit site.source site.member site.line]
  else []

def checkDirective (unit : UnitPath) (d : Source.Directive) : Diagnostic :=
  match d.category with
  | .error => (Diagnostic.error unit codeErrorDirective d.message).atLine d.line
  | _ => (Diagnostic.warning unit codeWarnDirective d.message).atLine d.line

def checkContents (units : Units) (unit : UnitPath) (contents : Source.Contents) :
    List Diagnostic :=
  contents.imports.flatMap (checkImport units unit)
    ++ checkExports units unit [] contents.exports
    ++ contents.uses.flatMap (checkUse units unit contents)
    ++ contents.directives.map (checkDirective unit)

/-! ### Outputs -/

def declarationText (interface : Interface) : String :=
  String.join (interface.map fun d =>
    "export " ++ d.kind ++ " " ++ d.name ++ " " ++ d.shape ++ "\n")

/-- The lines of a unit text that are emitted: all but those that start with an exclamation
mark. -/
def bodyLines (text : String) : List (List Char) :=
  (Text.lines text.toList).filter fun line => (Text.trimStart line).head? != some '!'

/-- The text of a full output. -/
def bodyText (unit : UnitPath) (text : String) : String :=
  "// generated from " ++ unit ++ "\n"
    ++ String.ofList ((bodyLines text).flatMap fun line => line ++ ['\n'])

variable {σ : Type}

/-- The file that an emit of some kind writes for a unit. -/
def outputPath (h : ProjectHost σ) (unit : UnitPath) (kind : EmitKind) : DiskPath :=
  let extension :=
    match kind with
    | .full => ".js"
    | .types => ".d"
  DiskPath.join (DiskPath.join h.root h.outDir) (unit ++ extension)

/-- The files that an emit writes, with their texts. -/
def outputs (h : ProjectHost σ) (unit : UnitPath) (loaded : LoadedUnit) (kind : EmitKind) :
    List (DiskPath × String) :=
  let declarations := (h.outputPath unit .types, declarationText (interfaceOf h.units unit))
  match kind with
  | .full => [(h.outputPath unit .full, bodyText unit loaded.text), declarations]
  | .types => [declarations]

/-! ### Requests -/

/-- The unit with a path, if it could be read. -/
def readable (h : ProjectHost σ) (path : UnitPath) : Except Error LoadedUnit :=
  match h.units.lookup path with
  | none => .error (.unknownUnit path)
  | some unit =>
      match unit.unreadable with
      | some reason => .error (.other ("unit " ++ path ++ " is unreadable: " ++ reason))
      | none => .ok unit

variable [Storage σ]

/-- The version of a file that cannot be read as text: the digest of its bytes, or else of the
reason. -/
def unreadableVersion (s : σ) (file : DiskPath) (reason : String) : String :=
  match Storage.fileVersion s file with
  | .ok found => found
  | .error _ => Rebuild.version ("unreadable: " ++ reason)

/-- Read a unit.  `before` is what the host knew about it; contents are reused when the text is
the same. -/
def load (s : σ) (file : DiskPath) (before : Option LoadedUnit) : LoadedUnit × String :=
  match Storage.readText s file with
  | .ok text =>
      let unit :=
        match before with
        | some old =>
            if old.unreadable.isNone ∧ old.text = text then old
            else ⟨text, Source.Contents.parse text, none⟩
        | none => ⟨text, Source.Contents.parse text, none⟩
      (unit, Rebuild.version unit.text)
  | .error e =>
      (⟨"", {}, some e.message⟩, unreadableVersion s file e.message)

def sourceUnit (path : UnitPath) (unit : LoadedUnit) (found : String) : SourceUnit :=
  let base : SourceUnit :=
    { SourceUnit.ofText path unit.text with
      version := found, isGlobal := unit.contents.declaresGlobal }
  let imports := unit.contents.imports.map fun i => (⟨i.path, i.reexport⟩ : Dependency)
  let sources := (unit.contents.exports.filterMap (·.source?)).map fun path =>
    (⟨path, false⟩ : Dependency)
  (imports ++ sources).foldl SourceUnit.addDependency base

/-- Load several units; what was known about a unit serves once. -/
def loadAll (s : σ) (root : DiskPath) (known : Units) :
    List UnitPath → List (UnitPath × LoadedUnit × String)
  | [] => []
  | path :: paths =>
      (path, load s (DiskPath.join root path) (known.lookup path))
        :: loadAll s root (known.filter (·.1 != path)) paths

/-- Put a unit into a table; the last one with a path stays. -/
def putUnit (units : Units) (unit : UnitPath × LoadedUnit) : Units :=
  units.filter (·.1 != unit.1) ++ [unit]

/-- Take a snapshot.  When the project cannot be scanned, the host stays as it is. -/
def takeSnapshot (h : ProjectHost σ) : Except Error Snapshot × ProjectHost σ :=
  match h.matcher.scan h.storage h.root with
  | .error e => (.error e, h)
  | .ok paths =>
      let loaded := loadAll h.storage h.root h.units paths
      let units := (loaded.map fun unit => (unit.1, unit.2.1)).foldl putUnit []
      let sources := loaded.map fun unit => sourceUnit unit.1 unit.2.1 unit.2.2
      (.ok (Snapshot.ofUnits sources), { h with units })

/-- Write files in order, up to the first failure. -/
def writeAll (unit : UnitPath) : List (DiskPath × String) → σ → Except Error (List DiskPath) × σ
  | [], s => (.ok [], s)
  | (path, text) :: rest, s =>
      match Storage.write s path (Text.Utf8.encode text) with
      | (.error _, s) => (.error (.other ("emitting " ++ unit)), s)
      | (.ok (), s) =>
          match writeAll unit rest s with
          | (.error e, s) => (.error e, s)
          | (.ok written, s) => (.ok (path :: written), s)

def emitUnit (h : ProjectHost σ) (path : UnitPath) (kind : EmitKind) :
    Except Error EmitOutput × ProjectHost σ :=
  match h.readable path with
  | .error e => (.error e, h)
  | .ok unit =>
      match writeAll path (h.outputs path unit kind) h.storage with
      | (.error e, storage) => (.error e, { h with storage })
      | (.ok written, storage) => (.ok ⟨written, []⟩, { h with storage })

instance : HasStorage (ProjectHost σ) σ where
  storage h := h.storage
  withStorage h storage := { h with storage }

instance : Host (ProjectHost σ) where
  snapshot h _ := h.takeSnapshot
  check h path :=
    match h.readable path with
    | .error e => ({ outcome := .error e }, h)
    | .ok unit => ({ outcome := .ok (checkContents h.units path unit.contents) }, h)
  interface h path :=
    match h.readable path with
    | .error e => (.error e, h)
    | .ok _ => (.ok (interfaceOf h.units path), h)
  emit h path kind := h.emitUnit path kind
  counts h d := h.includeInferred || !d.inferred
  policy h := "include_inferred_types=" ++ toString h.includeInferred

end ProjectHost

end Rebuild
