import Rebuild.Host

/-!
# Builder state

The builder remembers one record for each unit of the program, in a table parallel to the
graph's units.

* `State.ofSnapshot`: the state of a new snapshot; a unit whose version is unchanged keeps its
  record, and a unit whose text changed remembers the signature it had before;
* `State.diff`: what changed between two states;
* `State.sign`: store the signature found by a check and say whether it moved.

Beside it stand the diagnostics of the last check of each unit, sorted by unit.  Entries are keyed by
path, so they survive a new numbering of the units.  An entry is dropped as soon as its unit is
scheduled for a recheck.
-/

namespace Rebuild

structure UnitInfo where
  /-- The digest of the unit's text. -/
  version : String
  /-- The signature found at this version. -/
  signature : Signature := .unknown
  /-- The unit declares something that every unit can see. -/
  isGlobal : Bool := false
  deriving Repr, DecidableEq

structure UnitRecord where
  info : UnitInfo
  /-- The signature digest found by the last successful check, while the text that the record
  describes has not been checked. -/
  lastKnown : Option String := none
  /-- A signature was stored since the state was created. -/
  resigned : Bool := false
  deriving Repr, DecidableEq

namespace UnitRecord

/-- The digest the next check is compared with: the current one, or the one from before the text
changed. -/
def knownHash? (r : UnitRecord) : Option String :=
  match r.info.signature with
  | .known hash => some hash
  | .unknown => r.lastKnown

/-- Whether storing `signature` moves the signature of the unit. -/
def moves (r : UnitRecord) (signature : Signature) : Bool :=
  match r.info.signature, r.lastKnown with
  | .unknown, some old => (Signature.known old).differs signature
  | current, _ => current.differs signature

/-- The record after a check found `signature`. -/
def sign (r : UnitRecord) (signature : Signature) : UnitRecord :=
  { info := { r.info with signature := signature }, lastKnown := none, resigned := true }

/-- The record of a unit of a new snapshot, given the record its path had before. -/
def next (prior : Option UnitRecord) (unit : SourceUnit) : UnitRecord :=
  let info :=
    match prior with
    | some r =>
        if r.info.version = unit.version then r.info
        else { version := unit.version, isGlobal := unit.isGlobal }
    | none => { version := unit.version, isGlobal := unit.isGlobal }
  { info, lastKnown := if info.signature.isKnown then none else prior.bind knownHash? }

end UnitRecord

/-- The units of a program, their dependencies and their records. -/
structure State where
  graph : Graph := {}
  /-- The records, parallel to the units of the graph. -/
  records : List UnitRecord := []
  deriving Repr, DecidableEq

/-- The difference between a state and an earlier one. -/
structure Delta where
  /-- Units that are new or have another version, in program order. -/
  changed : List UnitId
  /-- The number of changed units that are new. -/
  added : Nat
  /-- Paths that are gone. -/
  removed : List UnitPath
  /-- Units that depended on a removed one, in program order. -/
  orphaned : List UnitId
  /-- Changed units that are global or were so before. -/
  globalRoots : List UnitId
  /-- A removed unit was global. -/
  removedGlobal : Bool
  deriving Repr, DecidableEq

namespace State

def size (s : State) : Nat :=
  s.records.length

def record? (s : State) (id : UnitId) : Option UnitRecord :=
  s.records[id]?

def recordOf? (s : State) (path : UnitPath) : Option UnitRecord :=
  (s.graph.idOf? path).bind s.record?

def info? (s : State) (id : UnitId) : Option UnitInfo :=
  (s.record? id).map (·.info)

def infoOf? (s : State) (path : UnitPath) : Option UnitInfo :=
  (s.recordOf? path).map (·.info)

/-- The paths of the units with what is known about them, in program order. -/
def entries (s : State) : List (UnitPath × UnitInfo) :=
  List.zip s.graph.paths (s.records.map (·.info))

/-- The number of units that were signed since the state was created. -/
def resignedCount (s : State) : Nat :=
  (s.records.filter (·.resigned)).length

def ofParts (graph : Graph) (infos : List UnitInfo) : Except Error State :=
  if graph.size = infos.length then
    .ok ⟨graph, infos.map fun info => { info }⟩
  else
    .error (.malformed
      (toString infos.length ++ " unit records for " ++ toString graph.size ++ " graph units"))

/-! ### Differences -/

/-- Whether a unit is new or has another version than before. -/
def isChanged (prior : State) (path : UnitPath) (info : UnitInfo) : Bool :=
  match prior.infoOf? path with
  | some old => old.version != info.version
  | none => true

def wasOrIsGlobal (prior : State) (path : UnitPath) (info : UnitInfo) : Bool :=
  (prior.infoOf? path).any (·.isGlobal) || info.isGlobal

/-- The units of the earlier state whose paths are gone. -/
def removedIds (s prior : State) : List UnitId :=
  prior.graph.units.filter fun id => !s.graph.contains (prior.graph.pathOf id)

/-- Compare with an earlier state; units are matched by path. -/
def diff (s prior : State) : Delta :=
  let units := s.entries.zipIdx
  let changed := units.filter fun unit => isChanged prior unit.1.1 unit.1.2
  let gone := s.removedIds prior
  let touched := gone.flatMap fun id =>
    (prior.graph.dependentsOf id).filterMap fun unit => s.graph.idOf? (prior.graph.pathOf unit)
  { changed := changed.map (·.2)
    added := (changed.filter fun unit => (prior.infoOf? unit.1.1).isNone).length
    removed := gone.map prior.graph.pathOf
    orphaned := s.graph.units.filter touched.contains
    globalRoots := (changed.filter fun unit => wasOrIsGlobal prior unit.1.1 unit.1.2).map (·.2)
    removedGlobal := gone.any fun id => (prior.info? id).any (·.isGlobal) }

/-- The state of a snapshot that follows the state `prior`. -/
def ofSnapshot (snapshot : Snapshot) (tracking : Bool) (prior : State) : State :=
  { graph := snapshot.graph tracking
    records := snapshot.units.map fun unit => UnitRecord.next (prior.recordOf? unit.path) unit }

/-! ### Signatures -/

/-- Store the signature found by the latest check of a unit. -/
def sign (s : State) (id : UnitId) (signature : Signature) : State :=
  { s with records := s.records.modify id fun r => r.sign signature }

/-- Whether storing `signature` moves the signature of a unit. -/
def moves (s : State) (id : UnitId) (signature : Signature) : Bool :=
  (s.record? id).any fun r => r.moves signature

/-- Whether a unit was signed since the state was created. -/
def hasResigned (s : State) (id : UnitId) : Bool :=
  (s.record? id).any (·.resigned)

end State

/-- Whether an edit calls for a pass: the version is another one, or everything is forced. -/
def needsPass (previous : Option UnitInfo) (current : UnitInfo) (force : Bool) : Bool :=
  force ||
    match previous with
    | some old => old.version != current.version
    | none => true

/-! ### Cached diagnostics -/

structure CacheEntry where
  unit : UnitPath
  version : String
  diagnostics : List Diagnostic
  deriving Repr, DecidableEq

/-- Cached diagnostics, one entry for each unit, sorted by unit. -/
structure Cache where
  entries : List CacheEntry := []
  deriving Repr, DecidableEq

namespace Cache

def find? (c : Cache) (unit : UnitPath) : Option CacheEntry :=
  c.entries.find? fun entry => entry.unit == unit

def get? (c : Cache) (unit : UnitPath) : Option (List Diagnostic) :=
  (c.find? unit).map (·.diagnostics)

def invalidate (c : Cache) (unit : UnitPath) : Cache :=
  ⟨c.entries.filter fun entry => entry.unit != unit⟩

def invalidateAll (c : Cache) (units : List UnitPath) : Cache :=
  units.foldl invalidate c

/-- Put an entry in its place in a sorted list, instead of the entry of the same unit. -/
def put (entry : CacheEntry) : List CacheEntry → List CacheEntry
  | [] => [entry]
  | other :: rest =>
      if entry.unit < other.unit then entry :: other :: rest
      else if entry.unit = other.unit then entry :: rest
      else other :: put entry rest

/-- Store the diagnostics of a unit found at a version. -/
def commit (c : Cache) (unit : UnitPath) (version : String) (diagnostics : List Diagnostic) :
    Cache :=
  ⟨put ⟨unit, version, diagnostics⟩ c.entries⟩

/-- Keep the entries whose unit is still there at the version of the entry. -/
def retainCurrent (c : Cache) (s : State) : Cache :=
  ⟨c.entries.filter fun entry =>
    (s.infoOf? entry.unit).any fun info => info.version == entry.version⟩

end Cache

end Rebuild
