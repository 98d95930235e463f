import Rebuild.Affected
import Rebuild.EmitQueue
import Rebuild.State

/-!
# Build info documents

What the builder keeps between runs.  Units are listed once; everything else refers to them by
their position in that list.

* `Document.encode`: the document of a state, its pending work and its cached diagnostics;
* `Document.decode`: the way back, or the reason why a document is not acceptable.
-/

namespace Rebuild.BuildInfo

structure UnitEntry where
  path : String
  version : String
  signature : Option String := none
  isGlobal : Bool := false
  deriving Repr, DecidableEq

structure EmitEntry where
  unit : Nat
  kind : EmitKind
  deriving Repr, DecidableEq

structure CheckEntry where
  unit : Nat
  isGlobal : Bool := false
  deriving Repr, DecidableEq

structure Document where
  toolVersion : String
  optionsHash : Option String := none
  dependencyTracking : Bool := true
  units : List UnitEntry
  dependencyEdges : List (Nat × Nat) := []
  exportEdges : List (Nat × Nat) := []
  pendingEmit : List EmitEntry := []
  pendingEmitCursor : Nat := 0
  pendingCheck : List CheckEntry := []
  diagnostics : Option (List (Nat × List CompactDiagnostic)) := none
  deriving Repr, DecidableEq

/-- The version written into documents; a document with another one is rejected. -/
def toolVersion : String := "0.1.0+buildinfo.1"

/-- What a document is made from. -/
structure Content where
  state : State
  pendingEmit : EmitQueue
  pendingCheck : List PendingCheck
  /-- The cached diagnostics, if they are to be stored. -/
  cache : Option Cache
  optionsHash : Option String

/-- What a document was found to hold. -/
structure Decoded where
  state : State
  pendingEmit : EmitQueue
  pendingCheck : List PendingCheck
  diagnostics : List (UnitPath × List Diagnostic)
  optionsHash : Option String

namespace Document

/-! ### Encoding -/

def encodeUnit (unit : UnitPath × UnitInfo) : UnitEntry :=
  ⟨unit.1, unit.2.version, unit.2.signature.hash?, unit.2.isGlobal⟩

/-- The entry of a requested emit, if its unit is part of the program. -/
def encodeEmit (g : Graph) (entry : PendingEmit) : Option EmitEntry :=
  (g.idOf? entry.unit).map fun unit => ⟨unit, entry.kind⟩

/-- The entry of a pending recheck, if its unit is part of the program. -/
def encodeCheck (g : Graph) (check : PendingCheck) : Option CheckEntry :=
  (g.idOf? check.unit).map fun unit => ⟨unit, check.isGlobal⟩

/-- The stored diagnostics of a unit, if they were found at its current version. -/
def encodeCached (s : State) (entry : CacheEntry) : Option (Nat × List CompactDiagnostic) := do
  let unit ← s.graph.idOf? entry.unit
  let info ← s.info? unit
  if info.version = entry.version then
    some (unit, entry.diagnostics.map Diagnostic.toCompact)
  else none

/-- The document of some content.  Requests for units outside the program are dropped, and the
cursor stays between what was handed out and what remains. -/
def encode (toolVersion : String) (content : Content) : Document :=
  let g := content.state.graph
  { toolVersion
    optionsHash := content.optionsHash
    dependencyTracking := g.tracking
    units := content.state.entries.map encodeUnit
    dependencyEdges := g.dependencyEdges
    exportEdges := g.exportEdges
    pendingEmit := content.pendingEmit.entries.filterMap (encodeEmit g)
    pendingEmitCursor := (content.pendingEmit.consumed.filterMap (encodeEmit g)).length
    pendingCheck := content.pendingCheck.filterMap (encodeCheck g)
    diagnostics := content.cache.map fun cache =>
      cache.entries.filterMap (encodeCached content.state) }

/-! ### Decoding -/

def pathAt (d : Document) (subject : String) (index : Nat) : Except Error UnitPath :=
  match d.units[index]? with
  | some unit => .ok unit.path
  | none => .error (.malformed (Graph.outsideMessage subject index d.units.length))

def decodeUnit (unit : UnitEntry) : UnitInfo :=
  ⟨unit.version, Signature.ofHash? unit.signature, unit.isGlobal⟩

/-- The content of a document, which must carry the expected tool version, have distinct units and
refer to existing units only. -/
def decode (toolVersion : String) (d : Document) : Except Error Decoded := do
  if d.toolVersion ≠ toolVersion then
    throw (.versionMismatch toolVersion d.toolVersion)
  let graph ← Graph.ofIndexed (d.units.map (·.path)) d.dependencyEdges d.exportEdges
    d.dependencyTracking
  let emits ← d.pendingEmit.mapM fun entry => do
    return PendingEmit.mk (← d.pathAt "pending emit" entry.unit) entry.kind
  let checks ← d.pendingCheck.mapM fun entry => do
    return PendingCheck.mk (← d.pathAt "pending check" entry.unit) entry.isGlobal
  let diagnostics ← (d.diagnostics.getD []).mapM fun entry => do
    let unit ← d.pathAt "diagnostics" entry.1
    return (unit, entry.2.map fun diagnostic => diagnostic.expand unit)
  let state ← State.ofParts graph (d.units.map decodeUnit)
  return {
    state
    pendingEmit := EmitQueue.ofParts emits d.pendingEmitCursor
    pendingCheck := checks
    diagnostics
    optionsHash := d.optionsHash }

end Document

end Rebuild.BuildInfo
