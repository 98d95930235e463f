import Rebuild.Proofs.BuildInfo.RoundTrip

/-!
# Reads of tables

Units are numbers.  The paths of a graph, its edges and the records of a state are tables with a row for
each unit, and the emits that remain are a slice of the entries of a queue.  Here every operation on them
is given once more, with reads that fail where there is no such row or no such slice.

* `Graph.path?`, `Graph.row?`, `Graph.laidOut?`: reads of a graph, and the making of its rows;
* `State.lookup?`, `State.ofSnapshot?`, `State.diff?`: reads of records;
* `EmitQueue.slice?`, `EmitQueue.push?`, `EmitQueue.compact?`: reads of a queue;
* `State.diff?_eq` and the like: no read fails on well-formed tables, and the result is that of the
  operation.
-/

namespace Rebuild

/-! ### Several reads -/

namespace Reads

variable {α β : Type}

/-- The elements that a test selects, where the test may fail. -/
def select? (test : α → Option Bool) : List α → Option (List α)
  | [] => some []
  | x :: rest => do
      let selected ← test x
      let others ← select? test rest
      return if selected then x :: others else others

theorem mapM_eq_some {read : α → Option β} {f : α → β} {xs : List α}
    (h : ∀ x ∈ xs, read x = some (f x)) : xs.mapM read = some (xs.map f) := by
  induction xs with
  | nil => rfl
  | cons x rest ih =>
      rw [List.mapM_cons, h x List.mem_cons_self, ih fun y hy => h y (List.mem_cons_of_mem _ hy)]
      rfl

theorem foldlM_eq_some {read : β → α → Option β} {f : β → α → β} {xs : List α} (start : β)
    (h : ∀ acc, ∀ x ∈ xs, read acc x = some (f acc x)) :
    xs.foldlM read start = some (xs.foldl f start) := by
  induction xs generalizing start with
  | nil => rfl
  | cons x rest ih =>
      rw [List.foldlM_cons, h start x List.mem_cons_self]
      exact ih (f start x) fun acc y hy => h acc y (List.mem_cons_of_mem _ hy)

theorem select?_eq_some {test : α → Option Bool} {keep : α → Bool} {xs : List α}
    (h : ∀ x ∈ xs, test x = some (keep x)) : select? test xs = some (xs.filter keep) := by
  induction xs with
  | nil => rfl
  | cons x rest ih =>
      rw [select?, h x List.mem_cons_self, ih fun y hy => h y (List.mem_cons_of_mem _ hy),
        List.filter_cons]
      rfl

end Reads

/-! ### Graphs -/

namespace Graph

variable {g : Graph} {id : UnitId}

def path? (g : Graph) (id : UnitId) : Option UnitPath :=
  g.paths[id]?

/-- The row of a unit in a table of neighbours.  Nothing is read when dependencies are not tracked. -/
def row? (g : Graph) (neighbours : UnitId → List UnitId) (id : UnitId) : Option (List UnitId) :=
  if g.tracking then (g.units.map neighbours)[id]? else some (neighbours id)

/-- A graph whose edges were entered into the rows of both ends. -/
def laidOut? (g : Graph) : Option Graph :=
  match g.edges with
  | none => some g
  | some e =>
      if ∀ edge ∈ e.imports ++ e.exports, edge.1 < g.size ∧ edge.2 < g.size then some g else none

theorem path?_eq (h : id < g.size) : g.path? id = some (g.pathOf id) :=
  getElem?_paths_pathOf h

theorem row?_eq (neighbours : UnitId → List UnitId) (h : id < g.size) :
    g.row? neighbours id = some (neighbours id) := by
  rw [row?]
  split
  · rw [List.getElem?_map, units, List.getElem?_range h]
    rfl
  · rfl

theorem mapM_path?_eq {ids : List UnitId} (h : ∀ id ∈ ids, id < g.size) :
    ids.mapM g.path? = some (ids.map g.pathOf) :=
  Reads.mapM_eq_some fun id hid => path?_eq (h id hid)

theorem Regular.laidOut?_eq (h : g.Regular) : g.laidOut? = some g := by
  rw [laidOut?]
  cases hedges : g.edges with
  | none => rfl
  | some e =>
      obtain ⟨hbounded, hbacked⟩ := h e hedges
      refine if_pos fun edge hedge => ?_
      rcases List.mem_append.mp hedge with himport | hexport
      · exact hbounded edge himport
      · exact hbounded edge (hbacked edge hexport)

end Graph

/-! ### States -/

namespace State

variable {s prior : State} {id : UnitId}

def lookup? (s : State) (path : UnitPath) : Option (Option UnitRecord) :=
  match s.graph.idOf? path with
  | some id => (s.record? id).map some
  | none => some none

/-- The state of a snapshot that follows the state `prior`. -/
def ofSnapshot? (snapshot : Snapshot) (tracking : Bool) (prior : State) : Option State := do
  let graph ← (snapshot.graph tracking).laidOut?
  let records ← snapshot.units.mapM fun unit => do
    return UnitRecord.next (← prior.lookup? unit.path) unit
  return { graph, records }

/-- A unit with what is known about it and what was known about its path before. -/
def matched? (s prior : State) (id : UnitId) : Option (UnitId × UnitInfo × Option UnitInfo) := do
  let path ← s.graph.path? id
  let info ← s.info? id
  let old ← prior.lookup? path
  return (id, info, old.map (·.info))

def removedIds? (s prior : State) : Option (List UnitId) :=
  Reads.select? (fun id => (prior.graph.path? id).map fun path => !s.graph.contains path)
    prior.graph.units

/-- The units that depended on a unit of the earlier state, as they are numbered now. -/
def touched? (s prior : State) (id : UnitId) : Option (List UnitId) := do
  let dependents ← prior.graph.row? prior.graph.dependentsOf id
  let paths ← dependents.mapM prior.graph.path?
  return paths.filterMap s.graph.idOf?

def diff? (s prior : State) : Option Delta := do
  let units ← s.graph.units.mapM (s.matched? prior)
  let gone ← s.removedIds? prior
  let removed ← gone.mapM prior.graph.path?
  let touched ← gone.mapM (s.touched? prior)
  let lost ← gone.mapM prior.info?
  let changed := units.filter fun (_, info, old) =>
    match old with
    | some old => old.version != info.version
    | none => true
  let globalRoots := changed.filter fun (_, info, old) => old.any (·.isGlobal) || info.isGlobal
  return {
    changed := changed.map (·.1)
    added := (changed.filter fun (_, _, old) => old.isNone).length
    removed
    orphaned := s.graph.units.filter touched.flatten.contains
    globalRoots := globalRoots.map (·.1)
    removedGlobal := lost.any (·.isGlobal) }

/-- What is known about a unit, and nothing where there is none. -/
def infoAt (s : State) (id : UnitId) : UnitInfo :=
  (s.info? id).getD { version := "" }

theorem any_isGlobal_info? (s : State) (id : UnitId) :
    (s.info? id).any (·.isGlobal) = (s.infoAt id).isGlobal := by
  rw [infoAt]
  cases s.info? id with
  | none => rfl
  | some info => rfl

theorem WellFormed.exists_record (hs : s.WellFormed) (hid : id < s.graph.size) :
    ∃ r, s.record? id = some r := by
  rw [← hs.length] at hid
  exact ⟨_, List.getElem?_eq_getElem hid⟩

theorem lookup?_eq (hs : s.WellFormed) (path : UnitPath) : s.lookup? path = some (s.recordOf? path) := by
  rw [lookup?, recordOf?]
  cases hid : s.graph.idOf? path with
  | none => rfl
  | some id =>
      obtain ⟨r, hr⟩ := hs.exists_record (Graph.lt_size_of_idOf? hid)
      simp only [hr, Option.map_some, Option.bind_some]

/-- A unit without a record is not taken for one that is absent. -/
example : lookup? ⟨⟨["a"], none⟩, []⟩ "a" = none ∧ lookup? ⟨⟨["a"], none⟩, []⟩ "b" = some none :=
  ⟨rfl, rfl⟩

theorem ofSnapshot?_eq (hprior : prior.WellFormed) (snapshot : Snapshot) (tracking : Bool) :
    ofSnapshot? snapshot tracking prior = some (ofSnapshot snapshot tracking prior) := by
  have hrecords : (snapshot.units.mapM fun unit => do
        return UnitRecord.next (← prior.lookup? unit.path) unit)
      = some (snapshot.units.map fun unit => UnitRecord.next (prior.recordOf? unit.path) unit) := by
    refine Reads.mapM_eq_some fun unit _ => ?_
    rw [lookup?_eq hprior]
    rfl
  rw [ofSnapshot?, (snapshot.regular_graph tracking).laidOut?_eq, hrecords]
  rfl

theorem WellFormed.info?_eq (hs : s.WellFormed) (hid : id < s.graph.size) :
    s.info? id = some (s.infoAt id) := by
  obtain ⟨r, hr⟩ := hs.exists_record hid
  rw [infoAt, info?, hr]
  rfl

/-- The entries with their numbers, one for each unit. -/
theorem zipIdx_entries (hs : s.WellFormed) :
    s.entries.zipIdx = s.graph.units.map fun id => ((s.graph.pathOf id, s.infoAt id), id) := by
  refine List.ext_getElem? fun id => ?_
  rw [List.getElem?_zipIdx, getElem?_entries hs, List.getElem?_map, Graph.units, Nat.zero_add]
  rcases Nat.lt_or_ge id s.graph.size with hlt | hge
  · obtain ⟨r, hr⟩ := hs.exists_record hlt
    have hinfo : s.infoAt id = r.info := by
      rw [infoAt, info?, hr]
      rfl
    rw [List.getElem?_range hlt, hr, Option.map_some, Option.map_some, Option.map_some, hinfo]
  · have hnone : s.record? id = none := List.getElem?_eq_none (by rw [hs.length]; exact hge)
    rw [hnone, List.getElem?_eq_none (by rw [List.length_range]; exact hge)]
    rfl

theorem matched?_eq (hs : s.WellFormed) (hprior : prior.WellFormed) (hid : id < s.graph.size) :
    s.matched? prior id
      = some (id, s.infoAt id, prior.infoOf? (s.graph.pathOf id)) := by
  rw [matched?, Graph.path?_eq hid, hs.info?_eq hid]
  show Option.bind (prior.lookup? (s.graph.pathOf id)) _ = _
  rw [lookup?_eq hprior]
  rfl

theorem removedIds?_eq (s prior : State) : s.removedIds? prior = some (s.removedIds prior) := by
  refine Reads.select?_eq_some fun id hid => ?_
  rw [Graph.path?_eq (Graph.mem_units.mp hid)]
  rfl

theorem touched?_eq (hid : id < prior.graph.size) :
    s.touched? prior id = some ((prior.graph.dependentsOf id).filterMap fun unit =>
      s.graph.idOf? (prior.graph.pathOf unit)) := by
  rw [touched?, Graph.row?_eq _ hid]
  show Option.bind ((prior.graph.dependentsOf id).mapM prior.graph.path?) _ = _
  rw [Graph.mapM_path?_eq fun unit hunit => Graph.lt_size_of_mem_dependentsOf hunit]
  show some (((prior.graph.dependentsOf id).map prior.graph.pathOf).filterMap s.graph.idOf?) = _
  rw [List.filterMap_map]
  rfl

/-- **No read fails** when two well-formed states are compared. -/
theorem diff?_eq (hs : s.WellFormed) (hprior : prior.WellFormed) :
    s.diff? prior = some (s.diff prior) := by
  have hgone : ∀ id ∈ s.removedIds prior, id < prior.graph.size :=
    fun id hid => (mem_removedIds.mp hid).1
  have hunit : ∀ id ∈ s.graph.units, s.matched? prior id
      = some (id, s.infoAt id, prior.infoOf? (s.graph.pathOf id)) :=
    fun id hid => matched?_eq hs hprior (Graph.mem_units.mp hid)
  have hunits := Reads.mapM_eq_some hunit
  have htouched := Reads.mapM_eq_some fun id hid => touched?_eq (s := s) (hgone id hid)
  have hlost := Reads.mapM_eq_some fun id hid => hprior.info?_eq (hgone id hid)
  rw [diff?, hunits, removedIds?_eq]
  simp only [bind, Option.bind_some, Graph.mapM_path?_eq hgone, htouched, hlost, pure, diff,
    zipIdx_entries hs, List.filter_map, List.map_map, List.length_map, List.any_map,
    any_isGlobal_info?, List.flatMap_def]
  rfl

end State

/-! ### Caches -/

/-- Keep the entries whose unit is still there at the version of the entry. -/
def Cache.retainCurrent? (c : Cache) (s : State) : Option Cache := do
  let entries ← Reads.select? (fun entry => do
    let record ← s.lookup? entry.unit
    return record.any fun r => r.info.version == entry.version) c.entries
  return ⟨entries⟩

theorem Cache.retainCurrent?_eq {s : State} (hs : s.WellFormed) (c : Cache) :
    c.retainCurrent? s = some (c.retainCurrent s) := by
  have hentries : (Reads.select? (fun entry => do
        let record ← s.lookup? entry.unit
        return record.any fun r => r.info.version == entry.version) c.entries)
      = some (c.entries.filter fun entry =>
          (s.infoOf? entry.unit).any fun info => info.version == entry.version) := by
    refine Reads.select?_eq_some fun entry _ => ?_
    rw [State.lookup?_eq hs, State.infoOf?, Option.any_map]
    rfl
  rw [retainCurrent?, hentries]
  rfl

/-! ### Emit queues -/

namespace EmitQueue

variable {q : EmitQueue}

/-- The slice of the entries from the cursor on. -/
def slice? (q : EmitQueue) : Option (List PendingEmit) :=
  if q.cursor ≤ q.entries.length then some q.remaining else none

def push? (q : EmitQueue) (unit : UnitPath) (kind : EmitKind) : Option EmitQueue := do
  let remaining ← q.slice?
  return { q with entries := q.consumed ++ request unit kind remaining }

def pushAll? (q : EmitQueue) (entries : List PendingEmit) : Option EmitQueue :=
  entries.foldlM (fun q entry => q.push? entry.unit entry.kind) q

def compact? (q : EmitQueue) (keep : UnitPath → Bool) : Option EmitQueue := do
  let remaining ← q.slice?
  return ⟨remaining.filter fun entry => keep entry.unit, 0⟩

namespace WellFormed

theorem slice?_eq (h : q.WellFormed) : q.slice? = some q.remaining :=
  if_pos h

/-- There is no slice from a cursor past the end. -/
example : slice? ⟨[], 1⟩ = none := rfl

theorem push?_eq (h : q.WellFormed) (unit : UnitPath) (kind : EmitKind) :
    q.push? unit kind = some (q.push unit kind) := by
  rw [push?, h.slice?_eq]
  rfl

theorem pushAll?_eq (h : q.WellFormed) (entries : List PendingEmit) :
    q.pushAll? entries = some (q.pushAll entries) := by
  induction entries generalizing q with
  | nil => rfl
  | cons entry rest ih =>
      rw [pushAll?, List.foldlM_cons, h.push?_eq]
      exact ih (h.push entry.unit entry.kind)

theorem compact?_eq (h : q.WellFormed) (keep : UnitPath → Bool) :
    q.compact? keep = some (q.compact keep) := by
  rw [compact?, h.slice?_eq]
  rfl

end WellFormed

end EmitQueue

end Rebuild
