import Mathlib.Data.Finset.Insert
import Rebuild.Proofs.BuildInfo.Canonical

/-!
# Tables of neighbours

A graph answers for the neighbours of a unit from its lists of edges.  The same answers can be kept in
three tables with a row for each unit: what it depends on, what depends on it, and what republishes it.
The tables are filled edge by edge, in the order in which the edges are mentioned; two sets of pairs
remember which edges were entered, and the rows of the dependents are derived at the end.

* `Adjacency`, `Adjacency.ofReported`, `Adjacency.ofStored`: the tables, filled from the dependencies that
  units report and from stored edges;
* `Graph.adjacency`: the tables that hold the answers of a graph;
* `Adjacency.Draft.Shows`: tables that are being filled show the edges entered so far, which every entry
  keeps;
* `Graph.dependenciesOf_build`: the dependencies of a unit are those it mentions, in this order;
* `Graph.Coherent`: how the neighbours of the units fit together;
* `Graph.adjacency_exact`: both constructions make coherent graphs, fill the tables of these graphs, and
  agree with each other on the edges of a graph that was built.
-/

namespace Rebuild

namespace Edges

variable {α : Type} [BEq α] [LawfulBEq α] {x : α} {xs : List α}

theorem insertLast_of_mem (h : x ∈ xs) : insertLast x xs = xs := by
  rw [insertLast, if_pos (List.contains_iff_mem.mpr h)]

theorem insertLast_of_not_mem (h : x ∉ xs) : insertLast x xs = xs ++ [x] := by
  rw [insertLast, if_neg (mt List.contains_iff_mem.mp h)]

/-- One more edge is one more entry in one row. -/
theorem row_concat (key value : UnitId × UnitId → UnitId) (edges : List (UnitId × UnitId))
    (edge : UnitId × UnitId) (unit : UnitId) :
    (((edges ++ [edge]).filter (key · == unit)).map value)
      = if unit = key edge then ((edges.filter (key · == unit)).map value) ++ [value edge]
        else (edges.filter (key · == unit)).map value := by
  rw [List.filter_append, List.map_append]
  by_cases hkey : unit = key edge
  · rw [if_pos hkey, List.filter_cons_of_pos (by simp [hkey])]
    rfl
  · rw [if_neg hkey, List.filter_cons_of_neg (by simpa using Ne.symm hkey)]
    simp

end Edges

/-- The neighbours of all units, in tables with a row for each unit. -/
structure Adjacency where
  dependencies : List (List UnitId)
  dependents : List (List UnitId)
  exporters : List (List UnitId)
  deriving Repr, DecidableEq

namespace Adjacency

/-! ### Filling the tables -/

def push (rows : List (List UnitId)) (row unit : UnitId) : List (List UnitId) :=
  rows.modify row (· ++ [unit])

/-- The table of the opposite direction: one pass over the rows enters each unit into the rows of its
neighbours. -/
def reversed (rows : List (List UnitId)) : List (List UnitId) :=
  rows.zipIdx.foldl
    (fun table (row, unit) => row.foldl (fun table other => push table other unit) table)
    (List.replicate rows.length [])

/-- Tables that are being filled, with the edges that were entered. -/
structure Draft where
  dependencies : List (List UnitId)
  exporters : List (List UnitId)
  imported : Finset (UnitId × UnitId)
  exported : Finset (UnitId × UnitId)

namespace Draft

def empty (size : Nat) : Draft :=
  ⟨List.replicate size [], List.replicate size [], ∅, ∅⟩

def enterImport (d : Draft) (edge : UnitId × UnitId) : Draft :=
  if edge ∈ d.imported then d
  else
    { d with
      dependencies := push d.dependencies edge.1 edge.2
      imported := insert edge d.imported }

def enterExport (d : Draft) (edge : UnitId × UnitId) : Draft :=
  if edge ∈ d.exported then d
  else
    { d with
      exporters := push d.exporters edge.2 edge.1
      exported := insert edge d.exported }

/-- Enter the edges for one dependency that is reported for a unit. -/
def enterDependency (g : Graph) (unit : UnitId) (d : Draft) (dep : Dependency) : Draft :=
  match g.idOf? dep.path with
  | none => d
  | some target =>
      if target = unit then d
      else if dep.reexported then (d.enterImport (unit, target)).enterExport (unit, target)
      else d.enterImport (unit, target)

/-- Enter the edges for all dependencies that are reported for a unit. -/
def enterUnit (g : Graph) (d : Draft) (unit : UnitPath × List Dependency) : Draft :=
  match g.idOf? unit.1 with
  | none => d
  | some id => unit.2.foldl (enterDependency g id) d

/-- Enter a stored export edge, and its import edge where this is missing. -/
def enterStored (d : Draft) (edge : UnitId × UnitId) : Draft :=
  if edge ∈ d.imported then d.enterExport edge else (d.enterImport edge).enterExport edge

def finish (d : Draft) : Adjacency where
  dependencies := d.dependencies
  dependents := reversed d.dependencies
  exporters := d.exporters

end Draft

def ofReported (reported : List (UnitPath × List Dependency)) : Adjacency :=
  (reported.foldl (Draft.enterUnit ⟨reported.map (·.1), none⟩) (Draft.empty reported.length)).finish

def ofStored (size : Nat) (imports exports : List (Nat × Nat)) : Adjacency :=
  (exports.foldl Draft.enterStored (imports.foldl Draft.enterImport (Draft.empty size))).finish

/-! ### Rows -/

variable {size : Nat}

theorem push_map_range (f : UnitId → List UnitId) (row unit : UnitId) :
    push ((List.range size).map f) row unit
      = (List.range size).map fun other => if other = row then f other ++ [unit] else f other := by
  refine List.ext_getElem (by simp [push]) fun other _ _ => ?_
  simp only [push, List.getElem_modify, List.getElem_map, List.getElem_range]
  by_cases hrow : row = other
  · rw [if_pos hrow, if_pos hrow.symm]
  · rw [if_neg hrow, if_neg (Ne.symm hrow)]

/-- Rows of edges, with one more edge. -/
theorem push_rows (key value : UnitId × UnitId → UnitId) (edges : List (UnitId × UnitId))
    (edge : UnitId × UnitId) :
    push ((List.range size).map fun unit => (edges.filter (key · == unit)).map value) (key edge)
        (value edge)
      = (List.range size).map fun unit => ((edges ++ [edge]).filter (key · == unit)).map value := by
  rw [push_map_range]
  simp only [Edges.row_concat]

/-- Entering a unit into the rows of its neighbours, as often as each of them is listed. -/
theorem foldl_push (row : List UnitId) (unit : UnitId) (f : UnitId → List UnitId) :
    row.foldl (fun table other => push table other unit) ((List.range size).map f)
      = (List.range size).map fun other => f other ++ List.replicate (row.count other) unit := by
  induction row generalizing f with
  | nil => simp
  | cons first rest ih =>
      rw [List.foldl_cons, push_map_range, ih]
      refine List.map_congr_left fun other _ => ?_
      by_cases hfirst : other = first
      · rw [if_pos hfirst, hfirst, List.count_cons_self, List.append_assoc, List.replicate_succ,
          List.singleton_append]
      · rw [if_neg hfirst, List.count_cons_of_ne (Ne.symm hfirst)]

theorem foldl_foldl_push (rows : UnitId → List UnitId) (units : List UnitId)
    (f : UnitId → List UnitId) :
    units.foldl (fun table unit => (rows unit).foldl (fun table other => push table other unit) table)
        ((List.range size).map f)
      = (List.range size).map fun other =>
          f other ++ units.flatMap fun unit => List.replicate ((rows unit).count other) unit := by
  induction units generalizing f with
  | nil => simp
  | cons first rest ih =>
      rw [List.foldl_cons, foldl_push, ih]
      refine List.map_congr_left fun other _ => ?_
      rw [List.flatMap_cons, List.append_assoc]

/-- The units that are entered at most once make a filtered list. -/
theorem flatMap_replicate_count {rows : UnitId → List UnitId} {units : List UnitId}
    (hnodup : ∀ unit, (rows unit).Nodup) (other : UnitId) :
    (units.flatMap fun unit => List.replicate ((rows unit).count other) unit)
      = units.filter fun unit => (rows unit).contains other := by
  induction units with
  | nil => rfl
  | cons first rest ih =>
      rw [List.flatMap_cons, ih, List.filter_cons]
      by_cases hmem : other ∈ rows first
      · rw [List.count_eq_one_of_mem (hnodup first) hmem, if_pos (by simpa using hmem)]
        rfl
      · rw [List.count_eq_zero_of_not_mem hmem, if_neg (by simpa using hmem)]
        rfl

theorem zipIdx_map_range (f : UnitId → List UnitId) :
    ((List.range size).map f).zipIdx = (List.range size).map fun unit => (f unit, unit) := by
  refine List.ext_getElem (by simp) fun unit _ _ => ?_
  simp

/-- **The opposite direction.**  A unit is in the row of each unit whose row it is in, in program
order. -/
theorem reversed_map_range {rows : UnitId → List UnitId} (hnodup : ∀ unit, (rows unit).Nodup) :
    reversed ((List.range size).map rows)
      = (List.range size).map fun other =>
          (List.range size).filter fun unit => (rows unit).contains other := by
  have hblank : List.replicate ((List.range size).map rows).length []
      = (List.range size).map fun _ => ([] : List UnitId) := by simp
  rw [reversed, hblank, zipIdx_map_range, List.foldl_map, foldl_foldl_push]
  refine List.map_congr_left fun other _ => ?_
  rw [List.nil_append, flatMap_replicate_count hnodup]

/-! ### Tables and edges -/

namespace Draft

variable {d : Draft} {e : Edges}

/-- The tables hold the edges that were entered so far. -/
structure Shows (size : Nat) (d : Draft) (e : Edges) : Prop where
  dependencies : d.dependencies
    = (List.range size).map fun unit => (e.imports.filter (·.1 == unit)).map (·.2)
  exporters : d.exporters
    = (List.range size).map fun unit => (e.exports.filter (·.2 == unit)).map (·.1)
  imported : ∀ edge, edge ∈ d.imported ↔ edge ∈ e.imports
  exported : ∀ edge, edge ∈ d.exported ↔ edge ∈ e.exports

theorem shows_empty (size : Nat) : Shows size (empty size) {} where
  dependencies := by simp [empty]
  exporters := by simp [empty]
  imported := by simp [empty]
  exported := by simp [empty]

theorem Shows.enterImport (h : Shows size d e) (edge : UnitId × UnitId) :
    Shows size (d.enterImport edge) (e.addImport edge) := by
  by_cases hmem : edge ∈ e.imports
  · rw [Draft.enterImport, if_pos ((h.imported edge).mpr hmem), Edges.addImport,
      Edges.insertLast_of_mem hmem]
    exact h
  · rw [Draft.enterImport, if_neg (mt (h.imported edge).mp hmem), Edges.addImport,
      Edges.insertLast_of_not_mem hmem]
    refine { h with dependencies := ?_, imported := fun other => ?_ }
    · show push d.dependencies edge.1 edge.2 = _
      rw [h.dependencies]
      exact push_rows (·.1) (·.2) e.imports edge
    · rw [Finset.mem_insert, h.imported, List.mem_append, List.mem_singleton, or_comm]

theorem Shows.enterExport (h : Shows size d e) (edge : UnitId × UnitId) :
    Shows size (d.enterExport edge) { e with exports := Edges.insertLast edge e.exports } := by
  by_cases hmem : edge ∈ e.exports
  · rw [Draft.enterExport, if_pos ((h.exported edge).mpr hmem), Edges.insertLast_of_mem hmem]
    exact h
  · rw [Draft.enterExport, if_neg (mt (h.exported edge).mp hmem), Edges.insertLast_of_not_mem hmem]
    refine { h with exporters := ?_, exported := fun other => ?_ }
    · show push d.exporters edge.2 edge.1 = _
      rw [h.exporters]
      exact push_rows (·.2) (·.1) e.exports edge
    · rw [Finset.mem_insert, h.exported, List.mem_append, List.mem_singleton, or_comm]

/-- An export edge that is entered with its import edge. -/
theorem Shows.enterBoth (h : Shows size d e) (edge : UnitId × UnitId) :
    Shows size ((d.enterImport edge).enterExport edge) (e.addExport edge) :=
  (h.enterImport edge).enterExport edge

theorem Shows.enterStored (h : Shows size d e) (edge : UnitId × UnitId) :
    Shows size (d.enterStored edge) (e.addExport edge) := by
  by_cases hmem : edge ∈ d.imported
  · have hsame : d.enterImport edge = d := if_pos hmem
    rw [Draft.enterStored, if_pos hmem]
    simpa only [hsame] using h.enterBoth edge
  · rw [Draft.enterStored, if_neg hmem]
    exact h.enterBoth edge

theorem Shows.enterDependency (h : Shows size d e) (g : Graph) (unit : UnitId) (dep : Dependency) :
    Shows size (d.enterDependency g unit dep) (g.addDependency unit e dep) := by
  rw [Draft.enterDependency, Graph.addDependency]
  cases g.idOf? dep.path with
  | none => exact h
  | some target =>
      by_cases hself : target = unit
      · simp only [if_pos hself]
        exact h
      · simp only [if_neg hself]
        cases dep.reexported with
        | false => exact h.enterImport (unit, target)
        | true => exact h.enterBoth (unit, target)

/-- What every entry keeps, the filling keeps. -/
theorem Shows.foldl {α : Type} {enter : Draft → α → Draft} {add : Edges → α → Edges}
    (hkeep : ∀ {d e} (x : α), Shows size d e → Shows size (enter d x) (add e x))
    (h : Shows size d e) (xs : List α) : Shows size (xs.foldl enter d) (xs.foldl add e) := by
  induction xs generalizing d e with
  | nil => exact h
  | cons x rest ih => exact ih (hkeep x h)

theorem Shows.enterUnit (h : Shows size d e) (g : Graph) (unit : UnitPath × List Dependency) :
    Shows size (d.enterUnit g unit) (g.addUnit e unit) := by
  rw [Draft.enterUnit, Graph.addUnit]
  cases g.idOf? unit.1 with
  | none => exact h
  | some id => exact Shows.foldl (fun dep hd => hd.enterDependency g id dep) h unit.2

end Draft

end Adjacency

namespace Graph

variable {g : Graph} {e : Edges} {a b : UnitId}

theorem mem_targetsIn {edges : List (UnitId × UnitId)} : b ∈ targetsIn edges a ↔ (a, b) ∈ edges := by
  rw [targetsIn]
  constructor
  · intro h
    obtain ⟨edge, hedge, rfl⟩ := List.mem_map.mp h
    obtain ⟨hmem, hsource⟩ := List.mem_filter.mp hedge
    rw [← beq_iff_eq.mp hsource]
    exact hmem
  · intro h
    exact List.mem_map.mpr ⟨(a, b), List.mem_filter.mpr ⟨h, beq_self_eq_true a⟩, rfl⟩

theorem dependenciesOf_eq_targetsIn (hedges : g.edges = some e) (a : UnitId) :
    g.dependenciesOf a = targetsIn e.imports a := by
  rw [dependenciesOf, hedges]
  rfl

theorem mem_dependenciesOf (hedges : g.edges = some e) :
    b ∈ g.dependenciesOf a ↔ (a, b) ∈ e.imports := by
  rw [dependenciesOf_eq_targetsIn hedges, mem_targetsIn]

def adjacency (g : Graph) : Adjacency where
  dependencies := g.units.map g.dependenciesOf
  dependents := g.units.map g.dependentsOf
  exporters := g.units.map g.exportersOf

/-- Tables that show the edges of a graph hold its neighbours. -/
theorem adjacency_eq_finish {d : Adjacency.Draft} {e : Edges} (hedges : g.edges = some e)
    (himports : e.imports.Nodup) (h : d.Shows g.size e) : g.adjacency = d.finish := by
  have hdependencies : d.dependencies = g.units.map g.dependenciesOf := by
    rw [h.dependencies, units]
    refine List.map_congr_left fun unit _ => ?_
    rw [dependenciesOf, hedges]
  have hdependents : g.units.map g.dependentsOf = Adjacency.reversed d.dependencies := by
    rw [hdependencies, units, Adjacency.reversed_map_range (nodup_dependenciesOf hedges himports)]
    refine List.map_congr_left fun other _ => ?_
    rw [dependentsOf, hedges]
    refine List.filter_congr fun unit _ => ?_
    rw [Bool.eq_iff_iff, List.contains_iff_mem, List.contains_iff_mem, mem_dependenciesOf hedges]
  have hexporters : d.exporters = g.units.map g.exportersOf := by
    rw [h.exporters, units]
    refine List.map_congr_left fun unit _ => ?_
    rw [exportersOf, hedges]
  rw [adjacency, Adjacency.Draft.finish, hdependents, hdependencies, hexporters]

/-! ### Graphs that were built -/

/-- Repeated dependencies count once. -/
theorem listsOnce_build (reported : List (UnitPath × List Dependency)) (tracking : Bool) :
    (build reported tracking).ListsOnce := by
  intro e hedges
  cases tracking with
  | false => cases hedges
  | true =>
      obtain rfl := Option.some.inj ((edges_build reported).symm.trans hedges)
      refine foldl_addUnit_induct (P := fun e => e.imports.Nodup ∧ e.exports.Nodup)
        (fun e a b _ _ he => ?_) (fun e a b _ _ he => ?_) ⟨List.nodup_nil, List.nodup_nil⟩
      · exact ⟨Edges.nodup_insertLast he.1, he.2⟩
      · exact ⟨Edges.nodup_insertLast he.1, Edges.nodup_insertLast he.2⟩

/-- The tables that are filled from reported dependencies are those of the graph. -/
theorem adjacency_build (reported : List (UnitPath × List Dependency)) :
    (build reported true).adjacency = Adjacency.ofReported reported := by
  have hsize : (build reported true).size = reported.length := by
    rw [size, build, if_pos rfl, List.length_map]
  obtain ⟨himports, -⟩ := listsOnce_build reported true _ (edges_build reported)
  refine adjacency_eq_finish (edges_build reported) himports ?_
  rw [hsize]
  exact Adjacency.Draft.Shows.foldl (fun unit hd => hd.enterUnit _ unit)
    (Adjacency.Draft.shows_empty reported.length) reported

/-- The tables that are filled from stored edges are those of the graph. -/
theorem adjacency_ofIndexed {paths : List UnitPath} {imports exports : List (Nat × Nat)}
    (h : ofIndexed paths imports exports true = .ok g) :
    g.adjacency = Adjacency.ofStored paths.length imports exports := by
  obtain ⟨-, hpaths, -⟩ := ofIndexed_ok h
  have hedges := edges_of_ofIndexed h
  obtain ⟨himports, -⟩ := listsOnce_ofIndexed h _ hedges
  refine adjacency_eq_finish hedges himports ?_
  rw [size, hpaths]
  refine Adjacency.Draft.Shows.foldl (fun edge hd => hd.enterStored edge) ?_ exports
  exact Adjacency.Draft.Shows.foldl (fun edge hd => hd.enterImport edge)
    (Adjacency.Draft.shows_empty paths.length) imports

/-! ### The order of dependencies -/

/-- Elements that are appended unless they are there make a list without repeats, in the order in
which they first come. -/
theorem foldl_insertLast (xs : List UnitId) :
    xs.foldl (fun row x => Edges.insertLast x row) [] = xs.eraseDups := by
  induction xs using List.reverseRecOn with
  | nil => rfl
  | append_singleton xs x ih =>
      rw [List.foldl_append, ih, List.foldl_cons, List.foldl_nil, List.eraseDups_append]
      by_cases hmem : x ∈ xs
      · rw [Edges.insertLast_of_mem (List.mem_eraseDups.mpr hmem)]
        simp [List.removeAll, hmem]
      · rw [Edges.insertLast_of_not_mem (mt List.mem_eraseDups.mp hmem)]
        simp [List.removeAll, hmem, List.eraseDups_cons]

/-- One more import edge concerns the row of its source only. -/
theorem targetsIn_insertLast (edges : List (UnitId × UnitId)) (unit target other : UnitId) :
    targetsIn (Edges.insertLast (unit, target) edges) other
      = if other = unit then Edges.insertLast target (targetsIn edges other)
        else targetsIn edges other := by
  by_cases hmem : (unit, target) ∈ edges
  · rw [Edges.insertLast_of_mem hmem]
    split
    · rename_i hother
      rw [hother, Edges.insertLast_of_mem (mem_targetsIn.mpr hmem)]
    · rfl
  · rw [Edges.insertLast_of_not_mem hmem]
    simp only [targetsIn, Edges.row_concat]
    split
    · rename_i hother
      rw [Edges.insertLast_of_not_mem]
      rw [hother]
      exact mt mem_targetsIn.mp hmem
    · rfl

theorem targetsIn_foldl_insertLast (unit other : UnitId) (targets : List UnitId)
    (edges : List (UnitId × UnitId)) :
    targetsIn (targets.foldl (fun edges target => Edges.insertLast (unit, target) edges) edges) other
      = if other = unit
        then targets.foldl (fun row target => Edges.insertLast target row) (targetsIn edges other)
        else targetsIn edges other := by
  induction targets generalizing edges with
  | nil => simp
  | cons first rest ih =>
      rw [List.foldl_cons, ih, targetsIn_insertLast]
      split
      · rw [List.foldl_cons]
      · rfl

/-- The other units of the program that some dependencies name, as often as they do. -/
def mentioned (g : Graph) (unit : UnitId) (deps : List Dependency) : List UnitId :=
  (deps.filterMap fun dep => g.idOf? dep.path).filter fun target => decide (target ≠ unit)

theorem imports_foldl_addDependency (g : Graph) (unit : UnitId) (deps : List Dependency) (e : Edges) :
    (deps.foldl (g.addDependency unit) e).imports
      = (g.mentioned unit deps).foldl (fun edges target => Edges.insertLast (unit, target) edges)
          e.imports := by
  induction deps generalizing e with
  | nil => rfl
  | cons dep rest ih =>
      rw [List.foldl_cons, ih, mentioned, mentioned, List.filterMap_cons, addDependency]
      cases g.idOf? dep.path with
      | none => rfl
      | some target =>
          by_cases hself : target = unit
          · simp [hself]
          · cases dep.reexported with
            | false => simp [hself, Edges.addImport]
            | true => simp [hself, Edges.addExport]

/-- The rows of other units stay as they are. -/
theorem targetsIn_foldl_addUnit {reported : List (UnitPath × List Dependency)} {id : UnitId}
    (h : ∀ unit ∈ reported, g.idOf? unit.1 ≠ some id) (e : Edges) :
    targetsIn (reported.foldl g.addUnit e).imports id = targetsIn e.imports id := by
  refine List.foldlRecOn (motive := fun later => targetsIn later.imports id = targetsIn e.imports id)
    reported g.addUnit rfl fun later hlater unit hunit => ?_
  rw [addUnit]
  split
  · exact hlater
  · rename_i other hother
    have hne : id ≠ other := by
      rintro rfl
      exact h unit hunit hother
    rw [imports_foldl_addDependency, targetsIn_foldl_insertLast, if_neg hne]
    exact hlater

/-- **First mention.**  A unit depends on the other units of the program that it mentions, in the order
in which it first mentions them. -/
theorem dependenciesOf_build {reported : List (UnitPath × List Dependency)}
    (hnodup : (reported.map (·.1)).Nodup) {id : UnitId} {unit : UnitPath × List Dependency}
    (hunit : reported[id]? = some unit) :
    (build reported true).dependenciesOf id
      = ((build reported true).mentioned id unit.2).eraseDups := by
  let bare : Graph := ⟨reported.map (·.1), none⟩
  have hid : bare.idOf? unit.1 = some id := by
    refine lastIndexOf?_of_nodup hnodup ?_
    rw [List.getElem?_map, hunit]
    rfl
  -- the unit comes once, between units with other paths
  obtain ⟨before, after, hsplit⟩ := List.append_of_mem (List.mem_of_getElem? hunit)
  have hothers : ∀ other ∈ before ++ after, bare.idOf? other.1 ≠ some id := by
    intro other hother hsame
    have hpath : other.1 = unit.1 := by
      rw [← pathOf_of_idOf? hsame, ← pathOf_of_idOf? hid]
    rw [hsplit, List.map_append, List.map_cons, List.nodup_middle, List.nodup_cons,
      ← List.map_append] at hnodup
    exact hnodup.1 (hpath ▸ List.mem_map_of_mem hother)
  have hrow : targetsIn (reported.foldl bare.addUnit {}).imports id
      = (bare.mentioned id unit.2).eraseDups := by
    rw [hsplit, List.foldl_append, List.foldl_cons,
      targetsIn_foldl_addUnit fun other hother => hothers other (List.mem_append_right _ hother),
      addUnit, hid]
    show targetsIn (unit.2.foldl (bare.addDependency id) _).imports id = _
    rw [imports_foldl_addDependency, targetsIn_foldl_insertLast, if_pos rfl,
      targetsIn_foldl_addUnit fun other hother => hothers other (List.mem_append_left _ hother)]
    exact foldl_insertLast _
  rw [dependenciesOf_eq_targetsIn (edges_build reported)]
  exact hrow

/-! ### How neighbours fit together -/

/-- The neighbours of the units fit together. -/
structure Coherent (g : Graph) : Prop where
  nodup_dependencies : ∀ a, (g.dependenciesOf a).Nodup
  mem_dependents : ∀ a b, b ∈ g.dependentsOf a ↔ a ∈ g.dependenciesOf b
  /-- In program order, and therefore without repeats. -/
  ascending_dependents : ∀ a, (g.dependentsOf a).Pairwise (· < ·)
  nodup_exporters : ∀ a, (g.exportersOf a).Nodup
  exporters_subset : ∀ a, g.exportersOf a ⊆ g.dependentsOf a
  edgeCount_eq : g.edgeCount = g.dependencyEdges.length

/-- The lengths of the rows add up to the number of pairs. -/
theorem foldl_length (rows : UnitId → List UnitId) (units : List UnitId) (start : Nat) :
    units.foldl (fun total unit => total + (rows unit).length) start
      = start + (units.flatMap fun unit => (rows unit).map fun other => (unit, other)).length := by
  induction units generalizing start with
  | nil => rfl
  | cons unit rest ih =>
      rw [List.foldl_cons, ih, List.flatMap_cons, List.length_append, List.length_map, Nat.add_assoc]

theorem Regular.coherent (hregular : g.Regular) (honce : g.ListsOnce) (hedges : g.edges = some e) :
    g.Coherent := by
  obtain ⟨hbounded, hbacked⟩ := hregular e hedges
  obtain ⟨himports, hexports⟩ := honce e hedges
  have hdependents : ∀ a b, b ∈ g.dependentsOf a ↔ (b, a) ∈ e.imports := by
    intro a b
    rw [dependentsOf, hedges, List.mem_filter, List.contains_iff_mem, mem_units]
    exact ⟨And.right, fun h => ⟨(hbounded (b, a) h).1, h⟩⟩
  constructor
  · exact nodup_dependenciesOf hedges himports
  · intro a b
    rw [hdependents, mem_dependenciesOf hedges]
  · intro a
    rw [dependentsOf, hedges]
    exact List.pairwise_lt_range.filter _
  · intro a
    rw [exportersOf, hedges]
    refine List.Nodup.map_on ?_ (hexports.filter _)
    intro x hx y hy hxy
    have htarget : x.2 = y.2 := by
      rw [beq_iff_eq.mp (List.mem_filter.mp hx).2, beq_iff_eq.mp (List.mem_filter.mp hy).2]
    exact Prod.ext hxy htarget
  · intro a b hb
    rw [exportersOf, hedges] at hb
    obtain ⟨edge, hedge, rfl⟩ := List.mem_map.mp hb
    obtain ⟨hexport, htarget⟩ := List.mem_filter.mp hedge
    rw [hdependents, ← beq_iff_eq.mp htarget]
    exact hbacked edge hexport
  · rw [edgeCount, dependencyEdges, hedges]
    exact (foldl_length g.dependenciesOf g.units 0).trans (Nat.zero_add _)

/-- The graph of the stored edges has the same tables. -/
theorem adjacency_stored (hnodup : g.paths.Nodup) (hregular : g.Regular) (hsequential : g.Sequential)
    (hedges : g.edges = some e) : g.stored.adjacency = g.adjacency := by
  have hstored := ofIndexed_eq hnodup hregular hsequential.listsOnce
  have hdependents : ∀ id, g.stored.dependentsOf id = g.dependentsOf id := by
    obtain ⟨other, hother, -, -, hsame⟩ := exists_ofIndexed hnodup hregular
    rw [hstored] at hother
    cases hother
    exact hsame
  have hexporters : ∀ id, g.stored.exportersOf id = g.exportersOf id := by
    intro id
    rw [← exportersOf_stored hedges hsequential, exportersOf, stored, hedges]
    rfl
  have hunits : g.stored.units = g.units := rfl
  rw [adjacency, adjacency, hunits, funext hregular.dependenciesOf_stored, funext hdependents,
    funext hexporters]

/-- **Tables and lists of edges say the same.**  Units with distinct paths, whatever dependencies they
report, and stored edges that are accepted make graphs whose neighbours fit together and are those in the
tables that are filled edge by edge.  A unit depends on the other units of the program that it mentions,
in the order in which it first mentions them, and the stored edges of a graph that was built make the same
tables again. -/
theorem adjacency_exact :
    (∀ reported : List (UnitPath × List Dependency), (reported.map (·.1)).Nodup →
      (build reported true).Coherent
        ∧ (build reported true).adjacency = Adjacency.ofReported reported
        ∧ (∀ id unit, reported[id]? = some unit →
            (build reported true).dependenciesOf id
              = ((build reported true).mentioned id unit.2).eraseDups)
        ∧ ∃ g, ofIndexed (build reported true).paths (build reported true).dependencyEdges
              (build reported true).exportEdges true = .ok g
            ∧ g.paths = reported.map (·.1) ∧ g.adjacency = (build reported true).adjacency)
      ∧ ∀ paths imports exports g, ofIndexed paths imports exports true = .ok g →
          g.Coherent ∧ g.adjacency = Adjacency.ofStored paths.length imports exports := by
  constructor
  · intro reported hnodup
    have hregular := regular_build reported true
    have hsequential := sequential_build hnodup true
    have hedges := edges_build reported
    refine ⟨hregular.coherent hsequential.listsOnce hedges, adjacency_build reported,
      fun id unit hunit => dependenciesOf_build hnodup hunit, (build reported true).stored, ?_, rfl, ?_⟩
    · exact ofIndexed_eq hnodup hregular hsequential.listsOnce
    · exact adjacency_stored hnodup hregular hsequential hedges
  · intro paths imports exports g h
    exact ⟨(regular_ofIndexed h).coherent (listsOnce_ofIndexed h) (edges_of_ofIndexed h),
      adjacency_ofIndexed h⟩

/-- Dependencies on units outside the program, on the unit itself and on one unit twice. -/
def tangled : List (UnitPath × List Dependency) :=
  [("a", [⟨"c", false⟩, ⟨"x", true⟩, ⟨"a", true⟩, ⟨"b", false⟩, ⟨"c", true⟩]), ("b", [⟨"a", true⟩]),
    ("c", [])]

theorem adjacency_exact_tangled :
    ((tangled.map (·.1)).Nodup ∧ (build tangled true).Coherent
        ∧ Adjacency.ofReported tangled
          = ⟨[[2, 1], [0], []], [[1], [0], [0]], [[1], [], [0]]⟩)
      ∧ ∃ g, ofIndexed ["a", "b"] [(0, 0), (0, 0)] [(1, 0)] true = .ok g ∧ g.Coherent
        ∧ Adjacency.ofStored 2 [(0, 0), (0, 0)] [(1, 0)] = ⟨[[0], [0]], [[0, 1], []], [[1], []]⟩ := by
  have hnodup : (tangled.map (·.1)).Nodup := by decide
  obtain ⟨hbuilt, hstored⟩ := adjacency_exact
  obtain ⟨hcoherent, htables, -⟩ := hbuilt tangled hnodup
  obtain ⟨hcoherent', htables'⟩ := hstored ["a", "b"] [(0, 0), (0, 0)] [(1, 0)] _ rfl
  refine ⟨⟨hnodup, hcoherent, ?_⟩, _, rfl, hcoherent', ?_⟩
  · rw [← htables]
    decide
  · refine htables'.symm.trans ?_
    decide

end Graph

end Rebuild
