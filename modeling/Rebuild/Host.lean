import Rebuild.EmitQueue
import Rebuild.Graph
import Rebuild.Signature

/-!
# Snapshots, options and compiler hosts

A snapshot is the program as the host saw it at one moment: its units in order, each with its
version and its dependencies.  No path occurs twice; of units with one path the first is kept.

The builder neither parses nor checks nor emits.  It asks a host: for a snapshot of the program,
for the diagnostics and the interface of a unit, and for an emit.  A host has a state of its own,
which each request may change.

Options that change what is checked or emitted enter a fingerprint, together with a description of
the host's policy.  State that was stored under another fingerprint is not trusted.
-/

namespace Rebuild

/-! ### Snapshots -/

structure SourceUnit where
  path : UnitPath
  version : String
  dependencies : List Dependency := []
  /-- The unit declares something that every unit can see. -/
  isGlobal : Bool := false
  deriving Repr, DecidableEq

namespace SourceUnit

/-- The unit with a text, before any dependency is added. -/
def ofText (path text : String) : SourceUnit :=
  { path := UnitPath.normalize path, version := Rebuild.version text }

/-- Add a dependency; its path is normalised. -/
def addDependency (unit : SourceUnit) (dep : Dependency) : SourceUnit :=
  { unit with
    dependencies := unit.dependencies ++ [⟨UnitPath.normalize dep.path, dep.reexported⟩] }

end SourceUnit

/-- The units of a program at one moment, no two with the same path. -/
structure Snapshot where
  units : List SourceUnit := []
  nodup : (units.map (·.path)).Nodup := by exact List.nodup_nil
  deriving Repr, DecidableEq

namespace Snapshot

/-- Keep the first unit of each path; `seen` holds the paths already met. -/
def distinct (seen : List UnitPath) : List SourceUnit → List SourceUnit
  | [] => []
  | unit :: rest =>
      if seen.contains unit.path then distinct seen rest
      else unit :: distinct (unit.path :: seen) rest

theorem path_not_mem_of_mem_distinct {seen : List UnitPath} {units : List SourceUnit}
    {unit : SourceUnit} (hmem : unit ∈ distinct seen units) : unit.path ∉ seen := by
  induction units generalizing seen with
  | nil => simp [distinct] at hmem
  | cons first rest ih =>
      rw [distinct] at hmem
      split at hmem
      · exact ih hmem
      · rename_i hfresh
        rcases List.mem_cons.mp hmem with rfl | hrest
        · simpa using hfresh
        · exact fun hseen => ih hrest (List.mem_cons_of_mem _ hseen)

theorem nodup_distinct (seen : List UnitPath) (units : List SourceUnit) :
    ((distinct seen units).map (·.path)).Nodup := by
  induction units generalizing seen with
  | nil => exact List.nodup_nil
  | cons first rest ih =>
      rw [distinct]
      split
      · exact ih seen
      · rw [List.map_cons, List.nodup_cons]
        refine ⟨fun hmem => ?_, ih (first.path :: seen)⟩
        obtain ⟨unit, hunit, hpath⟩ := List.mem_map.mp hmem
        exact path_not_mem_of_mem_distinct hunit (hpath ▸ List.mem_cons_self)

def ofUnits (units : List SourceUnit) : Snapshot :=
  ⟨distinct [] units, nodup_distinct [] units⟩

def unit? (s : Snapshot) (path : UnitPath) : Option SourceUnit :=
  s.units.find? fun unit => unit.path == path

/-- The graph of the dependencies that the units report. -/
def graph (s : Snapshot) (tracking : Bool) : Graph :=
  Graph.build (s.units.map fun unit => (unit.path, unit.dependencies)) tracking

end Snapshot

/-! ### Options -/

structure Options where
  /-- Follow dependencies; otherwise every change concerns the whole program. -/
  dependencyTracking : Bool := true
  /-- Emit declarations again when a signature moved. -/
  emitDeclarations : Bool := true
  /-- Store cached diagnostics in the build info document. -/
  persistDiagnostics : Bool := true
  deriving Repr, DecidableEq

namespace Options

def flagByte (b : Bool) : UInt8 :=
  if b then 1 else 0

/-- The bytes that the fingerprint is the digest of.  Whether diagnostics are stored changes no
result and is left out. -/
def fingerprintBytes (o : Options) (policy : String) : List UInt8 :=
  Text.Utf8.encode "dependency_tracking=" ++ [flagByte o.dependencyTracking]
    ++ Text.Utf8.encode ";emit_declarations=" ++ [flagByte o.emitDeclarations]
    ++ Text.Utf8.encode ";policy=" ++ Text.Utf8.encode policy

/-- The digest of everything that can change results. -/
def fingerprint (o : Options) (policy : String) : String :=
  Digest.ofBytes (o.fingerprintBytes policy)

end Options

/-! ### Hosts -/

structure EmitOutput where
  writtenFiles : List String := []
  diagnostics : List Diagnostic := []
  deriving Repr, DecidableEq

structure CheckReply where
  /-- The diagnostics, or why the check failed. -/
  outcome : Except Error (List Diagnostic)
  /-- The build was cancelled while the unit was checked. -/
  cancels : Bool := false

/-- A compiler whose state is of type `η`. -/
class Host (η : Type) where
  /-- The program as it is now.  The paths reported as changed are a hint only. -/
  snapshot : η → List UnitPath → Except Error Snapshot × η
  /-- Check a unit of the latest snapshot. -/
  check : η → UnitPath → CheckReply × η
  /-- What a checked unit offers to other units. -/
  interface : η → UnitPath → Except Error Interface × η
  /-- Write the outputs of a unit. -/
  emit : η → UnitPath → EmitKind → Except Error EmitOutput × η
  /-- Whether a declaration belongs to the visible shape of its unit. -/
  counts : η → Declaration → Bool
  /-- A description of the checking policy, part of the options fingerprint. -/
  policy : η → String

end Rebuild
