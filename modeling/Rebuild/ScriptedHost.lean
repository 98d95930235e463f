import Rebuild.Host
import Rebuild.Storage.FileTable
import Rebuild.Text.Quoted

/-!
# Scripted hosts

A host whose units are described directly instead of being read from files, for trying out the
builder.  Every field of a unit enters its version; only exports, inferred exports and re-exports
enter its interface.  Checks, interfaces, emits and snapshots can be told to fail, and a check can
be told to cancel the build.  All checks and emits are logged.
-/

namespace Rebuild

structure ScriptedUnit where
  body : String := ""
  imports : List UnitPath := []
  reexports : List UnitPath := []
  /-- Names and shapes of exports. -/
  exports : List (String × String) := []
  /-- Names and shapes of inferred exports. -/
  inferred : List (String × String) := []
  isGlobal : Bool := false
  /-- Messages of the errors that a check finds. -/
  errors : List String := []
  failCheck : Bool := false
  failInterface : Bool := false
  failEmit : Bool := false
  deriving Repr, DecidableEq

namespace ScriptedUnit

def bracketed (items : List String) : String :=
  "[" ++ String.intercalate ", " items ++ "]"

/-- Two quoted texts in parentheses. -/
def quotedPair (pair : String × String) : String :=
  "(" ++ Text.quote pair.1 ++ ", " ++ Text.quote pair.2 ++ ")"

/-- The text that the version of a unit is the digest of. -/
def description (u : ScriptedUnit) : String :=
  "FakeUnit \x7b body: " ++ Text.quote u.body
    ++ ", imports: " ++ Text.quoteList u.imports
    ++ ", reexports: " ++ Text.quoteList u.reexports
    ++ ", exports: " ++ bracketed (u.exports.map quotedPair)
    ++ ", inferred: " ++ bracketed (u.inferred.map quotedPair)
    ++ ", global: " ++ toString u.isGlobal
    ++ ", errors: " ++ Text.quoteList u.errors
    ++ ", fail_check: " ++ toString u.failCheck
    ++ ", fail_interface: " ++ toString u.failInterface
    ++ ", fail_emit: " ++ toString u.failEmit ++ " \x7d"

def version (u : ScriptedUnit) : String :=
  Rebuild.version u.description

def declarations (u : ScriptedUnit) : Interface :=
  u.exports.map (fun e => { kind := "type", name := e.1, shape := e.2 })
    ++ u.inferred.map (fun e => { kind := "let", name := e.1, shape := e.2, inferred := true })

/-- Change the shape of an export, adding it if it is not there. -/
def setExport (u : ScriptedUnit) (name shape : String) : ScriptedUnit :=
  let rec replaceFirst : List (String × String) → List (String × String)
    | [] => [(name, shape)]
    | e :: rest => if e.1 = name then (name, shape) :: rest else e :: replaceFirst rest
  { u with exports := replaceFirst u.exports }

end ScriptedUnit

structure ScriptedHost where
  /-- The units, sorted by path. -/
  units : List (UnitPath × ScriptedUnit) := []
  includeInferred : Bool := true
  /-- The units checked, in order. -/
  checks : List UnitPath := []
  /-- The emits asked for, in order. -/
  emits : List (UnitPath × EmitKind) := []
  /-- The number of snapshots asked for. -/
  snapshots : Nat := 0
  /-- How many of the next snapshots fail. -/
  failingSnapshots : Nat := 0
  /-- The number of logged checks at which the build is cancelled. -/
  cancelAt : Option Nat := none
  /-- Files for what is kept beside the units. -/
  files : FileTable := {}
  deriving Repr, DecidableEq

namespace ScriptedHost

def codeError : Nat := 9000

/-- The code for an import of a unit that is not there. -/
def codeUnresolved : Nat := 2307

/-- Put a unit in its place in a sorted list. -/
def put (path : UnitPath) (unit : ScriptedUnit) :
    List (UnitPath × ScriptedUnit) → List (UnitPath × ScriptedUnit)
  | [] => [(path, unit)]
  | other :: rest =>
      if path < other.1 then (path, unit) :: other :: rest
      else if path = other.1 then (path, unit) :: rest
      else other :: put path unit rest

def setUnit (h : ScriptedHost) (path : UnitPath) (unit : ScriptedUnit) : ScriptedHost :=
  { h with units := put path unit h.units }

def hasUnit (h : ScriptedHost) (path : UnitPath) : Bool :=
  (h.units.lookup path).isSome

def removeUnit (h : ScriptedHost) (path : UnitPath) : ScriptedHost :=
  { h with units := h.units.filter (·.1 != path) }

/-- Change a unit; nothing happens when it is not there. -/
def edit (h : ScriptedHost) (path : UnitPath) (change : ScriptedUnit → ScriptedUnit) :
    ScriptedHost :=
  { h with
    units := h.units.map fun unit => if unit.1 = path then (path, change unit.2) else unit }

/-- Cancel the build once that many more units have been checked. -/
def cancelAfter (h : ScriptedHost) (checks : Nat) : ScriptedHost :=
  { h with cancelAt := some (h.checks.length + checks) }

def clearLogs (h : ScriptedHost) : ScriptedHost :=
  { h with checks := [], emits := [] }

def get (h : ScriptedHost) (path : UnitPath) : Except Error ScriptedUnit :=
  match h.units.lookup path with
  | some unit => .ok unit
  | none => .error (.unknownUnit path)

/-- Collect the declarations of a unit and of those it re-exports, at most `fuel` units deep.  Every
unit is collected once; `seen` holds those already met. -/
def collect (h : ScriptedHost) : Nat → List UnitPath → UnitPath → Interface × List UnitPath
  | 0, seen, _ => ([], seen)
  | fuel + 1, seen, path =>
      match h.units.lookup path with
      | none => ([], seen)
      | some unit =>
          if seen.contains path then ([], seen)
          else
            unit.reexports.foldl (fun (found, seen) target =>
              let (more, seen) := collect h fuel seen target
              (found ++ more, seen)) (unit.declarations, path :: seen)

/-- The declarations of a unit and of those it re-exports.  A chain of re-exports meets every unit
once at most. -/
def interfaceOf (h : ScriptedHost) (path : UnitPath) : Interface :=
  (h.collect (h.units.length + 1) [] path).1

def sourceUnit (path : UnitPath) (u : ScriptedUnit) : SourceUnit :=
  let imports := u.imports.map fun path => (⟨path, false⟩ : Dependency)
  let reexports := u.reexports.map fun path => (⟨path, true⟩ : Dependency)
  (imports ++ reexports).foldl SourceUnit.addDependency
    { path, version := u.version, isGlobal := u.isGlobal }

/-- Take a snapshot, unless it is told to fail. -/
def takeSnapshot (h : ScriptedHost) : Except Error Snapshot × ScriptedHost :=
  let h := { h with snapshots := h.snapshots + 1 }
  if 0 < h.failingSnapshots then
    (.error (.other "project scan failed"), { h with failingSnapshots := h.failingSnapshots - 1 })
  else (.ok (Snapshot.ofUnits (h.units.map fun unit => sourceUnit unit.1 unit.2)), h)

def diagnosticsOf (h : ScriptedHost) (path : UnitPath) : Except Error (List Diagnostic) := do
  let unit ← h.get path
  if unit.failCheck then throw (.other ("checker crashed on " ++ path))
  let missing := (unit.imports ++ unit.reexports).filter fun target => !h.hasUnit target
  return unit.errors.map (Diagnostic.error path codeError)
    ++ missing.map fun target =>
      Diagnostic.error path codeUnresolved ("cannot find unit '" ++ target ++ "'")

def checkUnit (h : ScriptedHost) (path : UnitPath) : CheckReply × ScriptedHost :=
  let h := { h with checks := h.checks ++ [path] }
  let cancels := h.cancelAt.any fun limit => decide (limit ≤ h.checks.length)
  let h := if cancels then { h with cancelAt := none } else h
  (⟨h.diagnosticsOf path, cancels⟩, h)

/-- The files that an emit reports. -/
def outputs (path : UnitPath) : EmitKind → List String
  | .full => ["out/" ++ path ++ ".js", "out/" ++ path ++ ".d"]
  | .types => ["out/" ++ path ++ ".d"]

def emitUnit (h : ScriptedHost) (path : UnitPath) (kind : EmitKind) :
    Except Error EmitOutput × ScriptedHost :=
  let h := { h with emits := h.emits ++ [(path, kind)] }
  match h.get path with
  | .error e => (.error e, h)
  | .ok unit =>
      if unit.failEmit then (.error (.other ("emitter crashed on " ++ path)), h)
      else (.ok ⟨outputs path kind, []⟩, h)

def publicInterface (h : ScriptedHost) (path : UnitPath) : Except Error Interface := do
  let unit ← h.get path
  if unit.failInterface then throw (.other ("no interface for " ++ path))
  return h.interfaceOf path

instance : HasStorage ScriptedHost FileTable where
  storage h := h.files
  withStorage h files := { h with files }

instance : Host ScriptedHost where
  snapshot h _ := h.takeSnapshot
  check h path := h.checkUnit path
  interface h path := (h.publicInterface path, h)
  emit h path kind := h.emitUnit path kind
  counts h d := h.includeInferred || !d.inferred
  policy h := "include_inferred=" ++ toString h.includeInferred

end ScriptedHost

end Rebuild
