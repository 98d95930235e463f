import Rebuild.Host

/-!
# Units, paths and edges

Facts about the numbering of units and about the edges of a graph, for use by path:

* `Graph.idOf?` and `Graph.pathOf` are inverse to each other when no path occurs twice;
* `Graph.Imports g a b`: the unit `a` depends directly on the unit `b`;
* `Snapshot.imports_of_mem`: a dependency that a unit of a snapshot reports is an edge of its
  graph, when its target is another unit of the snapshot;
* `Snapshot.mem_dependentsOf_of_mem_exportersOf`: a unit that republishes another one depends on it.

What a graph says about a path is what the snapshot says: `Snapshot.idOf?_graph_isSome`.
-/

namespace Rebuild

namespace Graph

/-! ### Numbers and paths -/

theorem lastIndexOf?_eq_some {path : UnitPath} {paths : List UnitPath} {i : Nat}
    (h : lastIndexOf? path paths = some i) : paths[i]? = some path := by
  induction paths generalizing i with
  | nil => simp [lastIndexOf?] at h
  | cons first rest ih =>
      rw [lastIndexOf?] at h
      cases hrest : lastIndexOf? path rest with
      | some j =>
          rw [hrest] at h
          obtain rfl : j + 1 = i := by simpa using h
          simpa using ih hrest
      | none =>
          rw [hrest] at h
          by_cases hfirst : first = path
          · obtain rfl : 0 = i := by simpa [hfirst] using h
            simp [hfirst]
          · simp [hfirst] at h

theorem lastIndexOf?_isSome_iff {path : UnitPath} {paths : List UnitPath} :
    (lastIndexOf? path paths).isSome ↔ path ∈ paths := by
  induction paths with
  | nil => simp [lastIndexOf?]
  | cons first rest ih =>
      rw [lastIndexOf?, List.mem_cons, ← ih]
      cases hrest : lastIndexOf? path rest with
      | some j => simp
      | none =>
          by_cases hfirst : first = path
          · simp [hfirst]
          · simp [hfirst, Ne.symm hfirst]

theorem lastIndexOf?_of_nodup {path : UnitPath} {paths : List UnitPath} {i : Nat}
    (hnodup : paths.Nodup) (h : paths[i]? = some path) : lastIndexOf? path paths = some i := by
  have hmem : path ∈ paths := List.mem_of_getElem? h
  obtain ⟨j, hj⟩ := Option.isSome_iff_exists.mp (lastIndexOf?_isSome_iff.mpr hmem)
  have hsame : paths[j]? = paths[i]? := by rw [lastIndexOf?_eq_some hj, h]
  have hlt : j < paths.length := by
    rcases Nat.lt_or_ge j paths.length with hlt | hge
    · exact hlt
    · rw [List.getElem?_eq_none hge, h] at hsame
      exact absurd hsame (by simp)
  rw [hj, (List.getElem?_inj hlt hnodup).mp hsame]

variable {g : Graph}

theorem getElem?_paths_of_idOf? {path : UnitPath} {id : UnitId} (h : g.idOf? path = some id) :
    g.paths[id]? = some path :=
  lastIndexOf?_eq_some h

theorem lt_size_of_idOf? {path : UnitPath} {id : UnitId} (h : g.idOf? path = some id) :
    id < g.size := by
  obtain ⟨hlt, _⟩ := List.getElem?_eq_some_iff.mp (getElem?_paths_of_idOf? h)
  exact hlt

theorem pathOf_of_idOf? {path : UnitPath} {id : UnitId} (h : g.idOf? path = some id) :
    g.pathOf id = path := by
  rw [pathOf, List.getD_eq_getElem?_getD, getElem?_paths_of_idOf? h]
  rfl

theorem getElem?_paths_pathOf {id : UnitId} (h : id < g.size) : g.paths[id]? = some (g.pathOf id) := by
  rw [pathOf, List.getD_eq_getElem?_getD, List.getElem?_eq_getElem h]
  rfl

theorem idOf?_isSome_iff {path : UnitPath} : (g.idOf? path).isSome ↔ path ∈ g.paths :=
  lastIndexOf?_isSome_iff

/-- A unit is found under its own path. -/
theorem idOf?_pathOf (hnodup : g.paths.Nodup) {id : UnitId} (h : id < g.size) :
    g.idOf? (g.pathOf id) = some id :=
  lastIndexOf?_of_nodup hnodup (getElem?_paths_pathOf h)

/-- Different units have different paths. -/
theorem pathOf_inj (hnodup : g.paths.Nodup) {a b : UnitId} (ha : a < g.size) (hb : b < g.size)
    (h : g.pathOf a = g.pathOf b) : a = b := by
  have hfound := idOf?_pathOf hnodup ha
  rw [h, idOf?_pathOf hnodup hb] at hfound
  exact (Option.some.inj hfound).symm

theorem mem_units {id : UnitId} : id ∈ g.units ↔ id < g.size := by
  simp [units]

/-! ### Edges -/

theorem nodup_units (g : Graph) : g.units.Nodup :=
  List.nodup_range

/-- The units in the order of their numbers have the paths of the graph. -/
theorem map_pathOf_units (g : Graph) : g.units.map g.pathOf = g.paths := by
  refine List.ext_getElem ?_ fun id hid hid' => ?_
  · rw [List.length_map, units, List.length_range]
    rfl
  · have hpath := getElem?_paths_pathOf (g := g) hid'
    rw [List.getElem?_eq_getElem hid'] at hpath
    rw [Option.some.inj hpath]
    simp [units]

theorem lt_size_of_mem_dependentsOf {a b : UnitId} (h : a ∈ g.dependentsOf b) : a < g.size := by
  rw [dependentsOf] at h
  split at h
  · exact mem_units.mp ((List.mem_filter.mp h).1)
  · exact mem_units.mp ((List.mem_filter.mp h).1)

/-- The unit with path `a` depends directly on the unit with path `b`. -/
def Imports (g : Graph) (a b : UnitPath) : Prop :=
  ∃ i j, g.idOf? a = some i ∧ g.idOf? b = some j ∧ i ∈ g.dependentsOf j

end Graph

namespace Edges

theorem mem_insertLast {α : Type} [BEq α] [LawfulBEq α] {x y : α} {xs : List α} :
    x ∈ insertLast y xs ↔ x ∈ xs ∨ x = y := by
  rw [insertLast]
  split
  · rename_i hin
    constructor
    · exact Or.inl
    · rintro (hx | rfl)
      · exact hx
      · simpa using hin
  · simp

end Edges

namespace Graph

variable {g : Graph}

theorem imports_subset_addDependency {unit : UnitId} {e : Edges} {dep : Dependency}
    {edge : UnitId × UnitId} (h : edge ∈ e.imports) :
    edge ∈ (g.addDependency unit e dep).imports := by
  rw [addDependency]
  split
  · exact h
  · split
    · exact h
    · split
      · exact Edges.mem_insertLast.mpr (Or.inl h)
      · exact Edges.mem_insertLast.mpr (Or.inl h)

theorem mem_imports_addDependency {unit target : UnitId} {e : Edges} {dep : Dependency}
    (htarget : g.idOf? dep.path = some target) (hne : target ≠ unit) :
    (unit, target) ∈ (g.addDependency unit e dep).imports := by
  rw [addDependency, htarget]
  simp only [hne, if_false]
  split
  · exact Edges.mem_insertLast.mpr (Or.inr rfl)
  · exact Edges.mem_insertLast.mpr (Or.inr rfl)

theorem imports_subset_foldl_addDependency {unit : UnitId} {deps : List Dependency} {e : Edges}
    {edge : UnitId × UnitId} (h : edge ∈ e.imports) :
    edge ∈ (deps.foldl (g.addDependency unit) e).imports := by
  induction deps generalizing e with
  | nil => exact h
  | cons dep deps ih => exact ih (imports_subset_addDependency h)

theorem mem_imports_foldl_addDependency {unit target : UnitId} {deps : List Dependency} {e : Edges}
    {dep : Dependency} (hdep : dep ∈ deps) (htarget : g.idOf? dep.path = some target)
    (hne : target ≠ unit) : (unit, target) ∈ (deps.foldl (g.addDependency unit) e).imports := by
  induction deps generalizing e with
  | nil => simp at hdep
  | cons first rest ih =>
      rw [List.foldl_cons]
      rcases List.mem_cons.mp hdep with rfl | hrest
      · exact imports_subset_foldl_addDependency (mem_imports_addDependency htarget hne)
      · exact ih hrest

theorem imports_subset_addUnit {e : Edges} {unit : UnitPath × List Dependency}
    {edge : UnitId × UnitId} (h : edge ∈ e.imports) : edge ∈ (g.addUnit e unit).imports := by
  rw [addUnit]
  split
  · exact h
  · exact imports_subset_foldl_addDependency h

theorem imports_subset_foldl_addUnit {reported : List (UnitPath × List Dependency)} {e : Edges}
    {edge : UnitId × UnitId} (h : edge ∈ e.imports) :
    edge ∈ (reported.foldl g.addUnit e).imports := by
  induction reported generalizing e with
  | nil => exact h
  | cons unit rest ih => exact ih (imports_subset_addUnit h)

/-- A reported dependency on another unit becomes an edge. -/
theorem mem_imports_foldl_addUnit {reported : List (UnitPath × List Dependency)} {e : Edges}
    {unit : UnitPath × List Dependency} {id target : UnitId} {dep : Dependency}
    (hunit : unit ∈ reported) (hid : g.idOf? unit.1 = some id) (hdep : dep ∈ unit.2)
    (htarget : g.idOf? dep.path = some target) (hne : target ≠ id) :
    (id, target) ∈ (reported.foldl g.addUnit e).imports := by
  induction reported generalizing e with
  | nil => simp at hunit
  | cons first rest ih =>
      rw [List.foldl_cons]
      rcases List.mem_cons.mp hunit with rfl | hrest
      · refine imports_subset_foldl_addUnit ?_
        rw [addUnit, hid]
        exact mem_imports_foldl_addDependency hdep htarget hne
      · exact ih hrest

/-- **What every edge keeps.**  A property of edges that is kept when an edge between two units is
added is kept when all reported dependencies are. -/
theorem foldl_addUnit_induct {P : Edges → Prop}
    (himport : ∀ e a b, a < g.size → b < g.size → P e → P (e.addImport (a, b)))
    (hexport : ∀ e a b, a < g.size → b < g.size → P e → P (e.addExport (a, b)))
    {reported : List (UnitPath × List Dependency)} {e : Edges} (h : P e) :
    P (reported.foldl g.addUnit e) := by
  refine List.foldlRecOn reported g.addUnit h fun e he unit _ => ?_
  rw [addUnit]
  split
  · exact he
  · rename_i id hid
    refine List.foldlRecOn unit.2 (g.addDependency id) he fun e he dep _ => ?_
    rw [addDependency]
    split
    · exact he
    · rename_i target htarget
      have hlt := lt_size_of_idOf? htarget
      split
      · exact he
      · split
        · exact hexport e id target (lt_size_of_idOf? hid) hlt he
        · exact himport e id target (lt_size_of_idOf? hid) hlt he

/-- The edges of a graph that was built are those of the dependencies reported for its units. -/
theorem edges_build (reported : List (UnitPath × List Dependency)) :
    (build reported true).edges
      = some (reported.foldl (addUnit ⟨reported.map (·.1), none⟩) {}) := rfl

end Graph

/-! ### The graph of a snapshot -/

namespace Snapshot

variable {s : Snapshot} {tracking : Bool}

@[simp] theorem graph_paths : (s.graph tracking).paths = s.units.map (·.path) := by
  cases tracking <;> simp [graph, Graph.build, List.map_map, Function.comp_def]

@[simp] theorem graph_size : (s.graph tracking).size = s.units.length := by
  rw [Graph.size, graph_paths, List.length_map]

@[simp] theorem graph_tracking : (s.graph tracking).tracking = tracking := by
  cases tracking <;> simp [graph, Graph.build, Graph.tracking]

theorem graph_nodup : (s.graph tracking).paths.Nodup := by
  rw [graph_paths]
  exact s.nodup

/-- A unit is found under its own path. -/
theorem unit?_eq_some_iff {path : UnitPath} {unit : SourceUnit} :
    s.unit? path = some unit ↔ unit ∈ s.units ∧ unit.path = path := by
  constructor
  · intro h
    have hpath := List.find?_some h
    exact ⟨List.mem_of_find?_eq_some h, by simpa using hpath⟩
  · rintro ⟨hmem, rfl⟩
    obtain ⟨i, hi, rfl⟩ := List.mem_iff_getElem.mp hmem
    rw [unit?, List.find?_eq_some_iff_getElem]
    refine ⟨by simp, i, hi, rfl, fun j hj => ?_⟩
    have hne := List.pairwise_iff_getElem.mp s.nodup j i (by simp; omega) (by simpa using hi) hj
    simpa using hne

theorem unit?_eq_none_iff {path : UnitPath} :
    s.unit? path = none ↔ path ∉ s.units.map (·.path) := by
  simp [unit?]

/-- The graph numbers the units in order. -/
theorem idOf?_graph_eq_some_iff {path : UnitPath} {id : UnitId} :
    (s.graph tracking).idOf? path = some id ↔ (s.units[id]?).map (·.path) = some path := by
  constructor
  · intro h
    have hpath := Graph.getElem?_paths_of_idOf? h
    rwa [graph_paths, List.getElem?_map] at hpath
  · intro h
    refine Graph.lastIndexOf?_of_nodup graph_nodup ?_
    rwa [graph_paths, List.getElem?_map]

theorem idOf?_graph_of_getElem? (tracking : Bool) {unit : SourceUnit} {id : UnitId}
    (h : s.units[id]? = some unit) : (s.graph tracking).idOf? unit.path = some id :=
  idOf?_graph_eq_some_iff.mpr (by rw [h]; rfl)

theorem pathOf_graph {unit : SourceUnit} {id : UnitId} (h : s.units[id]? = some unit) :
    (s.graph tracking).pathOf id = unit.path :=
  Graph.pathOf_of_idOf? (idOf?_graph_of_getElem? tracking h)

/-- The units of the graph are those of the snapshot. -/
theorem idOf?_graph_isSome (s : Snapshot) (tracking : Bool) (path : UnitPath) :
    ((s.graph tracking).idOf? path).isSome = (s.unit? path).isSome := by
  rw [Bool.eq_iff_iff, Graph.idOf?_isSome_iff, graph_paths]
  rw [← Decidable.not_iff_not, Bool.not_eq_true, Option.isSome_eq_false_iff, Option.isNone_iff_eq_none,
    unit?_eq_none_iff]

theorem getElem?_units_of_idOf? {path : UnitPath} {id : UnitId}
    (h : (s.graph tracking).idOf? path = some id) : s.units[id]? = s.unit? path := by
  have hpath := idOf?_graph_eq_some_iff.mp h
  obtain ⟨unit, hunit, hp⟩ := Option.map_eq_some_iff.mp hpath
  rw [hunit, unit?_eq_some_iff.mpr ⟨List.mem_of_getElem? hunit, hp⟩]

/-- **Reported dependencies are edges.**  A dependency that a unit reports on another unit of the
snapshot is an edge of the graph; without tracking every unit depends on every other one. -/
theorem imports_of_mem {unit target : SourceUnit} {dep : Dependency} (hunit : unit ∈ s.units)
    (htarget : target ∈ s.units) (hdep : dep ∈ unit.dependencies) (hpath : dep.path = target.path)
    (hne : target.path ≠ unit.path) : (s.graph tracking).Imports unit.path target.path := by
  obtain ⟨i, hi⟩ : ∃ i, (s.graph tracking).idOf? unit.path = some i := by
    rw [← Option.isSome_iff_exists, Graph.idOf?_isSome_iff, graph_paths]
    exact List.mem_map_of_mem hunit
  obtain ⟨j, hj⟩ : ∃ j, (s.graph tracking).idOf? target.path = some j := by
    rw [← Option.isSome_iff_exists, Graph.idOf?_isSome_iff, graph_paths]
    exact List.mem_map_of_mem htarget
  have hij : j ≠ i := by
    rintro rfl
    exact hne ((Graph.pathOf_of_idOf? hj).symm.trans (Graph.pathOf_of_idOf? hi))
  have hlt := Graph.lt_size_of_idOf? hi
  refine ⟨i, j, hi, hj, ?_⟩
  cases tracking with
  | false =>
      have hedges : (s.graph false).edges = none := by simp [graph, Graph.build]
      rw [Graph.dependentsOf, hedges]
      exact List.mem_filter.mpr ⟨Graph.mem_units.mpr hlt, by simpa using Ne.symm hij⟩
  | true =>
      let reported := s.units.map fun unit => (unit.path, unit.dependencies)
      let bare : Graph := ⟨reported.map (·.1), none⟩
      have hedges : (s.graph true).edges = some (reported.foldl bare.addUnit {}) := by
        simp [graph, Graph.build, reported, bare]
      have hbare : ∀ path, bare.idOf? path = (s.graph true).idOf? path := by
        intro path
        simp [Graph.idOf?, bare, reported, List.map_map, Function.comp_def]
      have hmem : (i, j) ∈ (reported.foldl bare.addUnit {}).imports :=
        Graph.mem_imports_foldl_addUnit (List.mem_map_of_mem hunit) (by rw [hbare]; exact hi) hdep
          (by rw [hbare, hpath]; exact hj) hij
      rw [Graph.dependentsOf, hedges]
      exact List.mem_filter.mpr ⟨Graph.mem_units.mpr hlt, by simpa using hmem⟩

end Snapshot

/-! ### Republishing -/

namespace Edges

/-- Every export edge starts at a unit and is an import edge too. -/
def Backed (e : Edges) (size : Nat) : Prop :=
  ∀ edge ∈ e.exports, edge ∈ e.imports ∧ edge.1 < size

theorem Backed.addImport {e : Edges} {size : Nat} (h : e.Backed size) (edge : UnitId × UnitId) :
    (e.addImport edge).Backed size := by
  intro other hother
  obtain ⟨himport, hlt⟩ := h other hother
  exact ⟨mem_insertLast.mpr (Or.inl himport), hlt⟩

theorem Backed.addExport {e : Edges} {size : Nat} (h : e.Backed size) {edge : UnitId × UnitId}
    (hedge : edge.1 < size) : (e.addExport edge).Backed size := by
  intro other hother
  rcases mem_insertLast.mp hother with hold | rfl
  · obtain ⟨himport, hlt⟩ := h other hold
    exact ⟨mem_insertLast.mpr (Or.inl himport), hlt⟩
  · exact ⟨mem_insertLast.mpr (Or.inr rfl), hedge⟩

end Edges

namespace Graph

variable {g : Graph}

theorem backed_foldl_addUnit {reported : List (UnitPath × List Dependency)} {e : Edges}
    (h : e.Backed g.size) : (reported.foldl g.addUnit e).Backed g.size := by
  refine foldl_addUnit_induct (P := fun e => e.Backed g.size) (fun e a b _ _ he => ?_)
    (fun e a b ha _ he => ?_) h
  · exact he.addImport (a, b)
  · exact he.addExport ha

end Graph

/-- A unit that republishes another one depends on it. -/
theorem Snapshot.mem_dependentsOf_of_mem_exportersOf {s : Snapshot} {tracking : Bool}
    {unit target : UnitId} (h : unit ∈ (s.graph tracking).exportersOf target) :
    unit ∈ (s.graph tracking).dependentsOf target := by
  cases tracking with
  | false => simp [graph, Graph.build, Graph.exportersOf] at h
  | true =>
      let reported := s.units.map fun unit => (unit.path, unit.dependencies)
      let bare : Graph := ⟨reported.map (·.1), none⟩
      have hedges : (s.graph true).edges = some (reported.foldl bare.addUnit {}) := by
        simp [graph, Graph.build, reported, bare]
      have hbacked : (reported.foldl bare.addUnit {}).Backed bare.size :=
        Graph.backed_foldl_addUnit (by simp [Edges.Backed])
      have hsize : bare.size = (s.graph true).size := by
        simp [Graph.size, bare, reported]
      rw [Graph.exportersOf, hedges] at h
      obtain ⟨edge, hedge, rfl⟩ := List.mem_map.mp h
      obtain ⟨hexport, htarget⟩ := List.mem_filter.mp hedge
      obtain ⟨himport, hlt⟩ := hbacked edge hexport
      rw [hsize] at hlt
      rw [Graph.dependentsOf, hedges]
      refine List.mem_filter.mpr ⟨Graph.mem_units.mpr hlt, ?_⟩
      obtain rfl : edge.2 = target := by simpa using htarget
      simpa using himport

end Rebuild
