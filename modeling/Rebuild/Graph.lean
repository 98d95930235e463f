import Rebuild.Basic

/-!
# The dependency graph

The units of a program are numbered in program order.  A graph that tracks dependencies holds two
lists of edges, both without repeats and in the order in which they were first mentioned:

* import edges `(from, to)`: unit `from` depends on unit `to`;
* export edges `(from, to)`: unit `from` republishes the declarations of unit `to`.  Every export
  edge is an import edge too.

A graph that does not track dependencies holds no edges, and every unit counts as a dependency of
every other one.  All adjacency lists are views of the edge lists.

* `Graph.build`: the graph of the dependencies reported for each unit;
* `Graph.ofIndexed`: the graph of stored edges, or the reason why they make none;
* `dependenciesOf`, `dependentsOf`, `exportersOf`: neighbours of a unit;
* `allDependenciesOf`: what a unit reaches, breadth first;
* `components`, `importCycles`: the units that reach each other.

The graph may contain cycles.
-/

namespace Rebuild

/-- The number of a unit within one graph. -/
abbrev UnitId := Nat

/-- A dependency as reported for a unit. -/
structure Dependency where
  path : UnitPath
  /-- The unit republishes the declarations of this dependency. -/
  reexported : Bool := false
  deriving Repr, DecidableEq

structure Edges where
  imports : List (UnitId × UnitId) := []
  exports : List (UnitId × UnitId) := []
  deriving Repr, DecidableEq

namespace Edges

/-- Append an element unless it is there. -/
def insertLast {α : Type} [BEq α] (x : α) (xs : List α) : List α :=
  if xs.contains x then xs else xs ++ [x]

def addImport (e : Edges) (edge : UnitId × UnitId) : Edges :=
  { e with imports := insertLast edge e.imports }

/-- Add an export edge, and the import edge it presupposes. -/
def addExport (e : Edges) (edge : UnitId × UnitId) : Edges :=
  ⟨insertLast edge e.imports, insertLast edge e.exports⟩

end Edges

/-- The units of a program and, when dependencies are tracked, the edges between them. -/
structure Graph where
  paths : List UnitPath := []
  edges : Option Edges := none
  deriving Repr, DecidableEq

namespace Graph

/-- The last position of a path in a list. -/
def lastIndexOf? (path : UnitPath) : List UnitPath → Option Nat
  | [] => none
  | p :: rest =>
      match lastIndexOf? path rest with
      | some i => some (i + 1)
      | none => if p = path then some 0 else none

def size (g : Graph) : Nat :=
  g.paths.length

def tracking (g : Graph) : Bool :=
  g.edges.isSome

def units (g : Graph) : List UnitId :=
  List.range g.size

/-- The number of the unit with a path. -/
def idOf? (g : Graph) (path : UnitPath) : Option UnitId :=
  lastIndexOf? path g.paths

def contains (g : Graph) (path : UnitPath) : Bool :=
  (g.idOf? path).isSome

def pathOf (g : Graph) (id : UnitId) : UnitPath :=
  g.paths.getD id ""

/-! ### Construction -/

/-- Add the edges for one reported dependency; dependencies outside the program and of a unit on
itself leave no edge. -/
def addDependency (g : Graph) (unit : UnitId) (e : Edges) (dep : Dependency) : Edges :=
  match g.idOf? dep.path with
  | none => e
  | some target =>
      if target = unit then e
      else if dep.reexported then e.addExport (unit, target)
      else e.addImport (unit, target)

/-- Add the edges for all dependencies reported for a unit. -/
def addUnit (g : Graph) (e : Edges) (unit : UnitPath × List Dependency) : Edges :=
  match g.idOf? unit.1 with
  | none => e
  | some id => unit.2.foldl (g.addDependency id) e

/-- The graph of the dependencies reported for each unit. -/
def build (reported : List (UnitPath × List Dependency)) (tracking : Bool) : Graph :=
  let bare : Graph := ⟨reported.map (·.1), none⟩
  if tracking then { bare with edges := some (reported.foldl bare.addUnit {}) } else bare

/-- The first index of stored edges that names no unit. -/
def firstOutside? (size : Nat) (edges : List (Nat × Nat)) : Option Nat :=
  (edges.flatMap fun edge => [edge.1, edge.2]).find? fun i => !decide (i < size)

/-- The complaint about an index that names no unit. -/
def outsideMessage (subject : String) (index size : Nat) : String :=
  subject ++ " references unit index " ++ toString index ++ " but only " ++ toString size
    ++ " units exist"

/-- The graph of a unit table and stored edges.  Paths must be distinct and, when dependencies are
tracked, every index must name a unit.  An export edge brings its import edge along. -/
def ofIndexed (paths : List UnitPath) (imports exports : List (Nat × Nat)) (tracking : Bool) :
    Except Error Graph :=
  if paths.eraseDups.length ≠ paths.length then
    .error (.malformed "unit table contains duplicate paths")
  else if tracking then
    match firstOutside? paths.length (imports ++ exports) with
    | some index => .error (.malformed (outsideMessage "edge" index paths.length))
    | none =>
        let e := imports.foldl Edges.addImport {}
        .ok ⟨paths, some (exports.foldl Edges.addExport e)⟩
  else .ok ⟨paths, none⟩

/-! ### Neighbours -/

def allExcept (g : Graph) (id : UnitId) : List UnitId :=
  g.units.filter (· != id)

def dependenciesOf (g : Graph) (id : UnitId) : List UnitId :=
  match g.edges with
  | some e => (e.imports.filter (·.1 == id)).map (·.2)
  | none => g.allExcept id

/-- The units that depend on `id` directly, in program order. -/
def dependentsOf (g : Graph) (id : UnitId) : List UnitId :=
  match g.edges with
  | some e => g.units.filter fun unit => e.imports.contains (unit, id)
  | none => g.allExcept id

/-- The units that republish the declarations of `id`. -/
def exportersOf (g : Graph) (id : UnitId) : List UnitId :=
  match g.edges with
  | some e => (e.exports.filter (·.2 == id)).map (·.1)
  | none => []

/-- The import edges, by unit. -/
def dependencyEdges (g : Graph) : List (UnitId × UnitId) :=
  match g.edges with
  | some _ => g.units.flatMap fun unit => (g.dependenciesOf unit).map fun dep => (unit, dep)
  | none => []

/-- The order of edges: by source, then by target. -/
def edgeLe (a b : UnitId × UnitId) : Bool :=
  if a.1 = b.1 then decide (a.2 ≤ b.2) else decide (a.1 < b.1)

/-- The export edges, sorted. -/
def exportEdges (g : Graph) : List (UnitId × UnitId) :=
  match g.edges with
  | some e => e.exports.mergeSort edgeLe
  | none => []

/-- The number of import edges: the dependencies of all units together. -/
def edgeCount (g : Graph) : Nat :=
  match g.edges with
  | some _ => g.units.foldl (fun total unit => total + (g.dependenciesOf unit).length) 0
  | none => 0

/-! ### Reachability -/

/-- Breadth-first search with at most `fuel` expansions: `done` holds the units already expanded,
`queue` the discovered units that are not. -/
def explore (next : UnitId → List UnitId) : Nat → List UnitId → List UnitId → List UnitId
  | 0, done, queue => done ++ queue
  | _ + 1, done, [] => done
  | fuel + 1, done, current :: queue =>
      let seen := done ++ current :: queue
      explore next fuel (done ++ [current])
        (queue ++ (next current).filter fun unit => !seen.contains unit)

/-- A unit and everything it reaches along `next`, breadth first.  No unit is expanded twice, so
one expansion for each unit is enough. -/
def reach (g : Graph) (next : UnitId → List UnitId) (id : UnitId) : List UnitId :=
  explore next g.size [] [id]

/-- A unit followed by its direct and indirect dependencies, breadth first. -/
def allDependenciesOf (g : Graph) (id : UnitId) : List UnitId :=
  g.reach g.dependenciesOf id

/-- The units that one of several edges leads to from `id`. -/
def targetsIn (edges : List (UnitId × UnitId)) (id : UnitId) : List UnitId :=
  (edges.filter (·.1 == id)).map (·.2)

/-- What each unit reaches along import edges, in program order. -/
def reachTable (g : Graph) : List (List UnitId) :=
  let edges := g.dependencyEdges
  g.units.map (g.reach (targetsIn edges))

/-- The units that reach `id` and are reached by it, in program order, where `table` says what each
unit reaches. -/
def componentIn (table : List (List UnitId)) (id : UnitId) : List UnitId :=
  let reached := table[id]?.getD []
  (table.zipIdx.filter fun (others, unit) => reached.contains unit && others.contains id).map (·.2)

def textLe (a b : String) : Bool :=
  decide (a ≤ b)

/-- The order of lists of texts: by the first difference. -/
def textListLe : List String → List String → Bool
  | [], _ => true
  | _ :: _, [] => false
  | a :: as, b :: bs => if a = b then textListLe as bs else textLe a b

/-- The groups of units that reach each other along import edges.  Each group is taken at its first
unit. -/
def components (g : Graph) : List (List UnitId) :=
  let table := g.reachTable
  g.units.filterMap fun id =>
    let group := componentIn table id
    if group.head? == some id then some group else none

/-- The groups of two or more units, as sorted lists of paths in sorted order. -/
def cyclesOf (g : Graph) (groups : List (List UnitId)) : List (List UnitPath) :=
  let cycles := groups.filter fun group => decide (1 < group.length)
  (cycles.map fun group => (group.map g.pathOf).mergeSort textLe).mergeSort textListLe

/-- The import cycles: the groups of two or more units that reach each other. -/
def importCycles (g : Graph) : List (List UnitPath) :=
  g.cyclesOf g.components

end Graph

end Rebuild
