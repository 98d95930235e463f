import Rebuild.State

/-!
# Affected units

A pass finds the units affected by one changed unit, its *root*, one unit at a time and breadth
first.  The root comes first.  After a unit was rechecked, `Pass.complete` tells the pass whether
its signature moved; only then do its dependents enter the queue, so no unit comes before the
dependency that called for it was signed again.

A unit that republishes a unit whose signature moved is *leaking*: it counts as moved once it is
rechecked, whatever its own signature says.

* `Pass.start`, `Pass.next?`, `Pass.complete`: the life of a pass;
* `Pass.remaining`: what a pass still owes.
-/

namespace Rebuild

/-- A unit still owed a recheck. -/
structure PendingCheck where
  unit : UnitPath
  /-- The unit was global when its change was seen, so its pass still has to reach every unit. -/
  isGlobal : Bool
  deriving Repr, DecidableEq

/-- The propagation of one changed unit. -/
structure Pass where
  root : UnitId
  /-- The root is global, or was so before the change. -/
  isGlobal : Bool
  /-- Discovered units that were not handed out. -/
  queue : List UnitId
  /-- Units that ever entered the queue. -/
  visited : List UnitId
  /-- The unit handed out and not completed. -/
  inFlight : Option UnitId := none
  /-- Units that republish a unit whose signature moved. -/
  leaking : List UnitId := []
  /-- Units handed out, in order. -/
  yielded : List UnitId := []
  deriving Repr, DecidableEq

namespace Pass

/-- A pass that is about to hand out its root. -/
def start (root : UnitId) (isGlobal : Bool) : Pass :=
  { root, isGlobal, queue := [root], visited := [root] }

/-- Whether a recheck of `unit` in this pass reaches every unit. -/
def marksEverything (p : Pass) (unit : UnitId) : Bool :=
  p.isGlobal && unit == p.root

/-- The units still owed: the one in flight, then the queue. -/
def remaining (p : Pass) : List UnitId :=
  p.inFlight.toList ++ p.queue

/-- The next unit to recheck.  Units in `processed` are passed over.  A unit in flight is handed
out again. -/
def next? (p : Pass) (processed : List UnitId) : Option UnitId × Pass :=
  match p.inFlight with
  | some unit => (some unit, p)
  | none =>
      match p.queue.dropWhile processed.contains with
      | [] => (none, { p with queue := [] })
      | unit :: rest =>
          (some unit,
            { p with queue := rest, inFlight := some unit, yielded := p.yielded ++ [unit] })

def isMoved (p : Pass) (unit : UnitId) (signatureMoved : Bool) : Bool :=
  signatureMoved || p.leaking.contains unit

def concernsAll (p : Pass) (g : Graph) (isGlobal : Bool) (unit : UnitId) (moved : Bool) : Bool :=
  !g.tracking || p.marksEverything unit || (moved && isGlobal)

/-- Put those of `candidates` into the queue that were never there and are not processed. -/
def enqueue (p : Pass) (candidates processed : List UnitId) : Pass × List UnitId :=
  let fresh := candidates.filter fun unit => !processed.contains unit && !p.visited.contains unit
  ({ p with queue := p.queue ++ fresh, visited := p.visited ++ fresh }, fresh)

/-- Record the recheck of `unit`; `isGlobal` is its global flag and `signatureMoved` whether its
signature moved.  Returns the pass and the units that entered the queue. -/
def complete (p : Pass) (g : Graph) (isGlobal : Bool) (unit : UnitId) (signatureMoved : Bool)
    (processed : List UnitId) : Pass × List UnitId :=
  let p := if p.inFlight = some unit then { p with inFlight := none } else p
  let moved := p.isMoved unit signatureMoved
  if p.concernsAll g isGlobal unit moved then p.enqueue g.units processed
  else if moved then
    let p := { p with leaking := p.leaking ++ g.exportersOf unit }
    p.enqueue (g.dependentsOf unit) processed
  else (p, [])

end Pass

end Rebuild
