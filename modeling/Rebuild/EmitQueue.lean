import Rebuild.Basic

/-!
# Pending emits

The emits a program still owes are kept as a list with a cursor: entries before the cursor were
handed out, entries from it on remain.  The cursor can be stored and restored, so an interrupted
run goes on where it stopped.

* `EmitKind.merge`: two requests for one unit combine to the stronger one;
* `EmitQueue.push`: request an emit; a remaining entry of the unit is upgraded in place;
* `EmitQueue.next?`: hand out the entry under the cursor;
* `EmitQueue.compact`: forget handed-out entries and unwanted units.
-/

namespace Rebuild

/-- What an emit regenerates. -/
inductive EmitKind where
  /-- Every output of the unit. -/
  | full
  /-- Only the declaration output. -/
  | types
  deriving Repr, DecidableEq, Inhabited

/-- Two requests for the same unit combine to the stronger one. -/
def EmitKind.merge : EmitKind → EmitKind → EmitKind
  | .types, .types => .types
  | _, _ => .full

def EmitKind.name : EmitKind → String
  | .full => "full"
  | .types => "types"

structure PendingEmit where
  unit : UnitPath
  kind : EmitKind
  deriving Repr, DecidableEq

/-- Requested emits with a cursor between those handed out and those remaining. -/
structure EmitQueue where
  entries : List PendingEmit := []
  cursor : Nat := 0
  deriving Repr, DecidableEq

namespace EmitQueue

/-- A queue from stored parts; a cursor past the end is moved to the end. -/
def ofParts (entries : List PendingEmit) (cursor : Nat) : EmitQueue :=
  ⟨entries, min cursor entries.length⟩

/-- The entries already handed out. -/
def consumed (q : EmitQueue) : List PendingEmit :=
  q.entries.take q.cursor

/-- The entries not handed out yet. -/
def remaining (q : EmitQueue) : List PendingEmit :=
  q.entries.drop q.cursor

def isEmpty (q : EmitQueue) : Bool :=
  q.remaining.isEmpty

/-- Merge a request into a list of entries: upgrade the first entry of the unit, or append one. -/
def request (unit : UnitPath) (kind : EmitKind) : List PendingEmit → List PendingEmit
  | [] => [⟨unit, kind⟩]
  | entry :: rest =>
      if entry.unit = unit then { entry with kind := entry.kind.merge kind } :: rest
      else entry :: request unit kind rest

def push (q : EmitQueue) (unit : UnitPath) (kind : EmitKind) : EmitQueue :=
  { q with entries := q.consumed ++ request unit kind q.remaining }

def pushAll (q : EmitQueue) (entries : List PendingEmit) : EmitQueue :=
  entries.foldl (fun q entry => q.push entry.unit entry.kind) q

/-- The entry under the cursor, and the queue after it was handed out. -/
def next? (q : EmitQueue) : Option (PendingEmit × EmitQueue) :=
  match q.remaining with
  | [] => none
  | entry :: _ => some (entry, { q with cursor := q.cursor + 1 })

/-- The kind a unit is still owed. -/
def kindOf? (q : EmitQueue) (unit : UnitPath) : Option EmitKind :=
  (q.remaining.find? fun entry => entry.unit == unit).map (·.kind)

/-- Forget the entries handed out and those of units that `keep` rejects. -/
def compact (q : EmitQueue) (keep : UnitPath → Bool) : EmitQueue :=
  ⟨q.remaining.filter fun entry => keep entry.unit, 0⟩

end EmitQueue

end Rebuild
