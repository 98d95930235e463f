import Rebuild.Affected
import Rebuild.BuildInfo.Layout

/-!
# Builder programs

A builder program keeps a project checked and emitted while it changes.  Work happens in rounds.
`Program.update` starts a round from a new snapshot: units that changed become roots of affected
passes, and what the round before left unfinished is carried over.

* `Program`: the state of the builder between two requests;
* `pendingChecks`: the units still owed a recheck, in the order in which they would come;
* `update`: start a round;
* `reportChanged`, `setOptions`, `forceRebuild`: the ways to come to a new round.

A program starts from nothing, or from a build info document that an earlier one stored.  A
document that is missing or not acceptable is no error: the program then starts from nothing.

* `buildInfo`: the document of a program;
* `restore`: take over the content of a document;
* `start`: a program over a host, with or without a document.  When the host has no snapshot, the
  host is returned with the error.

Which units are rechecked and emitted within a round is the subject of the module on pulls.
-/

namespace Rebuild

/-- Where a program is in its round. -/
inductive Phase where
  /-- The round was started and nothing was done in it. -/
  | created
  /-- Units are being rechecked. -/
  | iterating
  /-- All affected units were rechecked; emits remain. -/
  | fullyChecked
  /-- Units are being emitted. -/
  | emitPending
  /-- Nothing is left to do. -/
  | done
  deriving Repr, DecidableEq

def Phase.name : Phase → String
  | .created => "Created"
  | .iterating => "IteratingAffectedFiles"
  | .fullyChecked => "FullyChecked"
  | .emitPending => "EmitPending"
  | .done => "Done"

/-- A unit whose affected pass has not started. -/
structure Root where
  unit : UnitId
  /-- The pass has to reach every unit. -/
  isGlobal : Bool
  deriving Repr, DecidableEq

namespace Root

/-- Add a root at the end; a unit that is already there keeps its place and becomes global if the
new root is. -/
def insert (roots : List Root) (root : Root) : List Root :=
  if roots.any fun other => other.unit == root.unit then
    roots.map fun other =>
      if other.unit = root.unit then { other with isGlobal := other.isGlobal || root.isGlobal }
      else other
  else roots ++ [root]

/-- Roots in the order of their first mention, each unit once. -/
def merge (roots : List Root) : List Root :=
  roots.foldl insert []

end Root

/-- A builder over a host with state of type `η`. -/
structure Program (η : Type) where
  host : η
  options : Options
  snapshot : Snapshot := {}
  state : State := {}
  cache : Cache := {}
  /-- Changed units whose pass has not started. -/
  roots : List Root := []
  /-- The pass that is under way. -/
  current : Option Pass := none
  /-- Units rechecked in this round. -/
  processed : List UnitId := []
  /-- Units whose text changed in this round. -/
  changed : List UnitId := []
  pendingEmit : EmitQueue := {}
  /-- Emits that failed and are requested again in the next round. -/
  deferred : List PendingEmit := []
  /-- The next round treats every unit as changed. -/
  forceAll : Bool := false
  phase : Phase := .created
  /-- The build was cancelled and not resumed. -/
  cancelled : Bool := false

namespace Program

variable {η : Type} [Host η]

def optionsHash (p : Program η) : String :=
  p.options.fingerprint (Host.policy p.host)

/-- The units the current pass still owes. -/
def passRoots (p : Program η) : List Root :=
  match p.current with
  | some pass => pass.remaining.map fun unit => ⟨unit, pass.marksEverything unit⟩
  | none => []

/-- The units still owed a recheck, by number. -/
def pendingRoots (p : Program η) : List Root :=
  (Root.merge (p.passRoots ++ p.roots)).filter fun root => !p.processed.contains root.unit

/-- The units still owed a recheck in this round, in the order in which they would come. -/
def pendingChecks (p : Program η) : List PendingCheck :=
  p.pendingRoots.map fun root => ⟨p.state.graph.pathOf root.unit, root.isGlobal⟩

/-- The roots of units still owed a recheck, as numbered in another graph. -/
def carriedRoots (g : Graph) (checks : List PendingCheck) : List Root :=
  checks.filterMap fun check => (g.idOf? check.unit).map fun unit => ⟨unit, check.isGlobal⟩

/-- The roots of a round: the units that changed, then those that depended on a removed unit, then
what was carried over.  Everything is a root when the round is forced or a global unit is gone. -/
def roundRoots (g : Graph) (delta : Delta) (forced : Bool) (carried : List Root) : List Root :=
  let root := fun unit => Root.mk unit (delta.globalRoots.contains unit)
  if forced || delta.removedGlobal then Root.merge (g.units.map root ++ carried)
  else
    Root.merge (delta.changed.map root ++ delta.orphaned.map (Root.mk · false) ++ carried)

/-- The emit queue of a round: what remains for units that are still there, then the deferred
emits, then a full emit for every changed unit, or for every unit when the round is forced. -/
def roundEmits (g : Graph) (delta : Delta) (forced : Bool) (queue : EmitQueue)
    (deferred : List PendingEmit) : EmitQueue :=
  let full := if forced then g.units else delta.changed
  let queue := queue.compact g.contains
  let queue := queue.pushAll (deferred.filter fun entry => g.contains entry.unit)
  queue.pushAll (full.map fun unit => ⟨g.pathOf unit, .full⟩)

/-- Start a round from a new snapshot: what is still valid is kept, and what the round before left
unfinished is carried over. -/
def update (p : Program η) (snapshot : Snapshot) : Program η :=
  let state := State.ofSnapshot snapshot p.options.dependencyTracking p.state
  let delta := state.diff p.state
  let roots :=
    roundRoots state.graph delta p.forceAll (carriedRoots state.graph p.pendingChecks)
  let cache := (p.cache.retainCurrent state).invalidateAll
    (roots.map fun root => state.graph.pathOf root.unit)
  { p with
    snapshot, state, cache, roots
    current := none
    processed := []
    changed := delta.changed
    pendingEmit := roundEmits state.graph delta p.forceAll p.pendingEmit p.deferred
    deferred := []
    forceAll := false
    phase := .created }

/-- Take a new snapshot after some paths were reported as changed, and start a round from it.  When
the host has no snapshot, only the host changes. -/
def reportChanged (p : Program η) (paths : List String) : Except Error Unit × Program η :=
  match Host.snapshot p.host (paths.map UnitPath.normalize) with
  | (.error e, host) => (.error e, { p with host })
  | (.ok snapshot, host) => (.ok (), { p with host }.update snapshot)

/-- Recheck and fully emit every unit of the current program. -/
def forceRebuild (p : Program η) : Program η :=
  { p with forceAll := true }.update p.snapshot

/-- Switch options.  When the fingerprint changes, everything is rechecked and emitted. -/
def setOptions (p : Program η) (options : Options) : Program η :=
  let switched := { p with options }
  if switched.optionsHash = p.optionsHash then switched else switched.forceRebuild

/-! ### Starting and storing -/

/-- What a program stores.  Deferred emits are stored as requests. -/
def content (p : Program η) : BuildInfo.Content where
  state := p.state
  pendingEmit := p.pendingEmit.pushAll p.deferred
  pendingCheck := p.pendingChecks
  cache := if p.options.persistDiagnostics then some p.cache else none
  optionsHash := some p.optionsHash

def buildInfo (p : Program η) : BuildInfo.Document :=
  BuildInfo.Document.encode BuildInfo.toolVersion p.content

def buildInfoText (p : Program η) : String :=
  p.buildInfo.text

/-- The cache of stored diagnostics, each at the stored version of its unit. -/
def restoredCache (decoded : BuildInfo.Decoded) : Cache :=
  decoded.diagnostics.foldl (fun cache entry =>
    match decoded.state.infoOf? entry.1 with
    | some info => cache.commit entry.1 info.version entry.2
    | none => cache) {}

/-- Take over the content of a document.  Everything is checked again in the next round when the
options or the tracking of dependencies differ. -/
def restore (p : Program η) (decoded : BuildInfo.Decoded) : Program η :=
  { p with
    forceAll := p.forceAll || decoded.optionsHash != some p.optionsHash
      || decoded.state.graph.tracking != p.options.dependencyTracking
    cache := restoredCache decoded
    roots := carriedRoots decoded.state.graph decoded.pendingCheck
    state := decoded.state
    pendingEmit := decoded.pendingEmit }

/-- A program over a host that has not seen any snapshot. -/
def blank (host : η) (options : Options) : Program η :=
  { host, options }

/-- The content of an acceptable document. -/
def decoded? (document : Option String) : Option BuildInfo.Decoded :=
  document.bind fun stored => (BuildInfo.Document.read BuildInfo.toolVersion stored).toOption

/-- Start a program from the current snapshot of a host and an optional document. -/
def start (host : η) (options : Options) (document : Option String) :
    Except (Error × η) (Program η) :=
  match Host.snapshot host [] with
  | (.error e, host) => .error (e, host)
  | (.ok snapshot, host) =>
      let p := blank host options
      let p :=
        match decoded? document with
        | some decoded => p.restore decoded
        | none => p
      .ok (p.update snapshot)

end Program

end Rebuild
