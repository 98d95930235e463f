import Rebuild.Proofs.Bounds

/-!
# Which documents are accepted

A document refers to its units by their positions in five lists.  It is accepted when every position that
counts is one of a unit, when no path occurs twice and when the tool version is the expected one, and in no
other case.  Whatever it holds otherwise, a program that takes it over stays within its tables.

* `Graph.exists_ofIndexed_iff`, `Graph.regular_ofIndexed`: which stored edges make a graph, and that the
  graph is regular;
* `BuildInfo.Document.Acceptable`: the conditions, and `BuildInfo.Document.exists_decode_iff`: they are
  those of decoding;
* `BuildInfo.Decoded.Indexed`: what the tables of an accepted document are like;
* `BuildInfo.Document.acceptance_exact_and_safe`: both, and that no read fails afterwards.
-/

namespace Rebuild

/-! ### Steps that may fail -/

/-- Two steps succeed when the first one does, and the second one on its result. -/
theorem exists_bind_ok {α β : Type} {x : Except Error α} {f : α → Except Error β} :
    (∃ b, (x >>= f) = .ok b) ↔ ∃ a, x = .ok a ∧ ∃ b, f a = .ok b := by
  cases x with
  | error e => simp [bind, Except.bind]
  | ok a => simp [bind, Except.bind]

/-- A list is gone through when every element is. -/
theorem exists_mapM_ok {α β : Type} {f : α → Except Error β} {xs : List α} :
    (∃ ys, xs.mapM f = .ok ys) ↔ ∀ x ∈ xs, ∃ y, f x = .ok y := by
  induction xs with
  | nil => simp [pure, Except.pure]
  | cons x rest ih =>
      rw [List.mapM_cons, exists_bind_ok, List.forall_mem_cons, ← ih]
      constructor
      · rintro ⟨y, hx, hrest⟩
        obtain ⟨ys, hys, _⟩ := exists_bind_ok.mp hrest
        exact ⟨⟨y, hx⟩, ys, hys⟩
      · rintro ⟨⟨y, hx⟩, ys, hys⟩
        exact ⟨y, hx, exists_bind_ok.mpr ⟨ys, hys, y :: ys, rfl⟩⟩

/-! ### Stored edges -/

namespace Edges

/-- Adding export edges keeps all export edges backed. -/
theorem backed_foldl_addExport {e : Edges} {size : Nat} (h : e.Backed size)
    {edges : List (UnitId × UnitId)} (hedges : ∀ edge ∈ edges, edge.1 < size) :
    (edges.foldl addExport e).Backed size := by
  induction edges generalizing e with
  | nil => exact h
  | cons edge rest ih =>
      obtain ⟨hfirst, hrest⟩ := List.forall_mem_cons.mp hedges
      exact ih (h.addExport hfirst) hrest

theorem exports_foldl_addImport (e : Edges) (edges : List (UnitId × UnitId)) :
    (edges.foldl addImport e).exports = e.exports := by
  induction edges generalizing e with
  | nil => rfl
  | cons edge rest ih => exact ih (e.addImport edge)

end Edges

namespace Graph

variable {g : Graph} {paths : List UnitPath} {imports exports edges : List (Nat × Nat)}
variable {tracking : Bool} {size : Nat} {id other : UnitId}

/-- No index leads outside exactly when both ends of every edge are units. -/
theorem firstOutside?_eq_none_iff :
    firstOutside? size edges = none ↔ ∀ edge ∈ edges, edge.1 < size ∧ edge.2 < size := by
  rw [firstOutside?, List.find?_eq_none]
  simp only [List.mem_flatMap, List.mem_cons, List.not_mem_nil, or_false, Bool.not_eq_true',
    decide_eq_false_iff_not, not_not]
  constructor
  · exact fun h edge hedge => ⟨h edge.1 ⟨edge, hedge, Or.inl rfl⟩, h edge.2 ⟨edge, hedge, Or.inr rfl⟩⟩
  · rintro h index ⟨edge, hedge, hfirst | hsecond⟩
    · rw [hfirst]
      exact (h edge hedge).1
    · rw [hsecond]
      exact (h edge hedge).2

/-- **Which stored edges make a graph.** -/
theorem exists_ofIndexed_iff (paths : List UnitPath) (imports exports : List (Nat × Nat))
    (tracking : Bool) :
    (∃ g, ofIndexed paths imports exports tracking = .ok g)
      ↔ paths.Nodup ∧ (tracking = true →
        ∀ edge ∈ imports ++ exports, edge.1 < paths.length ∧ edge.2 < paths.length) := by
  rw [ofIndexed, ← length_eraseDups_eq_iff, ← firstOutside?_eq_none_iff]
  by_cases hdistinct : paths.eraseDups.length = paths.length
  · rw [if_neg (not_not.mpr hdistinct)]
    cases tracking with
    | false => simp [hdistinct]
    | true =>
        cases firstOutside? paths.length (imports ++ exports) with
        | none => simp [hdistinct]
        | some index => simp
  · rw [if_pos hdistinct]
    simp [hdistinct]

/-- The graph of stored edges joins units only, and its export edges are import edges. -/
theorem regular_ofIndexed (h : ofIndexed paths imports exports tracking = .ok g) : g.Regular := by
  intro e hedges
  obtain ⟨-, hpaths, -⟩ := ofIndexed_ok h
  obtain ⟨-, hinside⟩ := (exists_ofIndexed_iff paths imports exports tracking).mp ⟨g, h⟩
  rw [edges_of_ofIndexed h] at hedges
  cases tracking with
  | false => cases hedges
  | true =>
      obtain rfl : exports.foldl Edges.addExport (imports.foldl Edges.addImport {}) = e :=
        Option.some.inj hedges
      have hbacked : (imports.foldl Edges.addImport {}).Backed paths.length := by
        intro edge hedge
        rw [Edges.exports_foldl_addImport] at hedge
        cases hedge
      rw [size, hpaths]
      refine ⟨fun edge hedge => hinside rfl edge ?_, fun edge hedge => ?_⟩
      · rw [Edges.mem_imports_foldl_addExport, Edges.mem_imports_foldl_addImport] at hedge
        rcases hedge with (hnone | himport) | hexport
        · cases hnone
        · exact List.mem_append_left _ himport
        · exact List.mem_append_right _ hexport
      · exact (Edges.backed_foldl_addExport hbacked
          (fun other hother => (hinside rfl other (List.mem_append_right _ hother)).1) edge hedge).1

theorem lt_size_of_mem_allExcept (h : other ∈ g.allExcept id) : other < g.size :=
  mem_units.mp (List.mem_filter.mp h).1

namespace Regular

theorem lt_size_of_mem_dependenciesOf (h : g.Regular) (hother : other ∈ g.dependenciesOf id) :
    other < g.size := by
  rw [dependenciesOf] at hother
  cases hedges : g.edges with
  | none =>
      rw [hedges] at hother
      exact lt_size_of_mem_allExcept hother
  | some e =>
      rw [hedges] at hother
      obtain ⟨edge, hedge, rfl⟩ := List.mem_map.mp hother
      exact ((h e hedges).1 edge (List.mem_filter.mp hedge).1).2

theorem lt_size_of_mem_exportersOf (h : g.Regular) (hother : other ∈ g.exportersOf id) :
    other < g.size := by
  rw [exportersOf] at hother
  cases hedges : g.edges with
  | none =>
      rw [hedges] at hother
      cases hother
  | some e =>
      rw [hedges] at hother
      obtain ⟨hbounded, hbacked⟩ := h e hedges
      obtain ⟨edge, hedge, rfl⟩ := List.mem_map.mp hother
      exact (hbounded edge (hbacked edge (List.mem_filter.mp hedge).1)).1

theorem exportEdges_subset (h : g.Regular) : g.exportEdges ⊆ g.dependencyEdges := by
  intro edge hedge
  cases hedges : g.edges with
  | none =>
      rw [exportEdges, hedges] at hedge
      cases hedge
  | some e =>
      obtain ⟨hbounded, hbacked⟩ := h e hedges
      have himport := hbacked edge ((mem_exportEdges hedges).mp hedge)
      exact (mem_dependencyEdges hedges).mpr ⟨(hbounded edge himport).1, himport⟩

end Regular

end Graph

namespace BuildInfo

/-! ### What is accepted -/

structure Document.Acceptable (expected : String) (d : Document) : Prop where
  version : d.toolVersion = expected
  distinct : (d.units.map (·.path)).Nodup
  emits : ∀ entry ∈ d.pendingEmit, entry.unit < d.units.length
  checks : ∀ entry ∈ d.pendingCheck, entry.unit < d.units.length
  diagnostics : ∀ entry ∈ d.diagnostics.getD [], entry.1 < d.units.length
  /-- Edges that are not tracked may lead anywhere. -/
  edges : d.dependencyTracking = true →
    ∀ edge ∈ d.dependencyEdges ++ d.exportEdges, edge.1 < d.units.length ∧ edge.2 < d.units.length

instance (expected : String) (d : Document) : Decidable (d.Acceptable expected) :=
  decidable_of_iff
    (d.toolVersion = expected ∧ (d.units.map (·.path)).Nodup
      ∧ (∀ entry ∈ d.pendingEmit, entry.unit < d.units.length)
      ∧ (∀ entry ∈ d.pendingCheck, entry.unit < d.units.length)
      ∧ (∀ entry ∈ d.diagnostics.getD [], entry.1 < d.units.length)
      ∧ (d.dependencyTracking = true → ∀ edge ∈ d.dependencyEdges ++ d.exportEdges,
        edge.1 < d.units.length ∧ edge.2 < d.units.length))
    ⟨fun ⟨version, distinct, emits, checks, diagnostics, edges⟩ =>
        ⟨version, distinct, emits, checks, diagnostics, edges⟩,
      fun h => ⟨h.version, h.distinct, h.emits, h.checks, h.diagnostics, h.edges⟩⟩

/-- The tables that a document was found to hold fit together. -/
structure Decoded.Indexed (d : Document) (decoded : Decoded) : Prop where
  /-- The units and the records are those of the document, in the same order. -/
  paths : decoded.state.graph.paths = d.units.map (·.path)
  records : decoded.state.records.map (·.info) = d.units.map Document.decodeUnit
  dependencies : ∀ id, ∀ other ∈ decoded.state.graph.dependenciesOf id, other < d.units.length
  dependents : ∀ id, ∀ other ∈ decoded.state.graph.dependentsOf id, other < d.units.length
  exporters : ∀ id, ∀ other ∈ decoded.state.graph.exportersOf id, other < d.units.length
  republished : decoded.state.graph.exportEdges ⊆ decoded.state.graph.dependencyEdges
  cursor : decoded.pendingEmit.cursor ≤ decoded.pendingEmit.entries.length

namespace Document

variable {d : Document} {expected : String} {decoded : Decoded}

theorem exists_pathAt_iff (d : Document) (subject : String) (index : Nat) :
    (∃ path, d.pathAt subject index = .ok path) ↔ index < d.units.length := by
  rw [pathAt]
  rcases Nat.lt_or_ge index d.units.length with hlt | hge
  · rw [List.getElem?_eq_getElem hlt]
    simp [hlt]
  · rw [List.getElem?_eq_none hge]
    simp [hge]

/-- A list of entries is read when each of them refers to a unit. -/
theorem exists_mapM_pathAt_iff {α β : Type} (d : Document) (subject : String) (entries : List α)
    (index : α → Nat) (make : α → UnitPath → β) :
    (∃ read, (entries.mapM fun entry => do
        return make entry (← d.pathAt subject (index entry))) = .ok read)
      ↔ ∀ entry ∈ entries, index entry < d.units.length := by
  rw [exists_mapM_ok]
  refine forall₂_congr fun entry _ => ?_
  rw [exists_bind_ok, ← exists_pathAt_iff d subject]
  exact ⟨fun ⟨path, hpath, _⟩ => ⟨path, hpath⟩, fun ⟨path, hpath⟩ => ⟨path, hpath, _, rfl⟩⟩

/-- A graph of the units has room for their records. -/
theorem exists_ofParts {g : Graph} (h : Graph.ofIndexed (d.units.map (·.path)) d.dependencyEdges
    d.exportEdges d.dependencyTracking = .ok g) :
    ∃ state, State.ofParts g (d.units.map decodeUnit) = .ok state := by
  obtain ⟨_, hpaths, _⟩ := Graph.ofIndexed_ok h
  have hsize : g.size = (d.units.map decodeUnit).length := by
    rw [Graph.size, hpaths, List.length_map, List.length_map]
  rw [State.ofParts, if_pos hsize]
  exact ⟨_, rfl⟩

/-- **Acceptance is neither too lax nor too strict.** -/
theorem exists_decode_iff : (∃ decoded, d.decode expected = .ok decoded) ↔ d.Acceptable expected := by
  have hemits := d.exists_mapM_pathAt_iff "pending emit" d.pendingEmit EmitEntry.unit
    fun entry path => PendingEmit.mk path entry.kind
  have hchecks := d.exists_mapM_pathAt_iff "pending check" d.pendingCheck CheckEntry.unit
    fun entry path => PendingCheck.mk path entry.isGlobal
  have hdiagnostics := d.exists_mapM_pathAt_iff "diagnostics" (d.diagnostics.getD []) Prod.fst
    fun entry path => (path, entry.2.map fun diagnostic : CompactDiagnostic => diagnostic.expand path)
  have hgraph := Graph.exists_ofIndexed_iff (d.units.map (·.path)) d.dependencyEdges d.exportEdges
    d.dependencyTracking
  rw [List.length_map] at hgraph
  rw [decode]
  by_cases hversion : d.toolVersion = expected
  · rw [if_neg (not_not.mpr hversion)]
    simp only [exists_bind_ok]
    constructor
    · rintro ⟨g, hg, emits, he, checks, hc, diagnostics, hd, _⟩
      obtain ⟨hdistinct, hedges⟩ := hgraph.mp ⟨g, hg⟩
      exact ⟨hversion, hdistinct, hemits.mp ⟨emits, he⟩, hchecks.mp ⟨checks, hc⟩,
        hdiagnostics.mp ⟨diagnostics, hd⟩, hedges⟩
    · intro h
      obtain ⟨g, hg⟩ := hgraph.mpr ⟨h.distinct, h.edges⟩
      obtain ⟨emits, he⟩ := hemits.mpr h.emits
      obtain ⟨checks, hc⟩ := hchecks.mpr h.checks
      obtain ⟨diagnostics, hd⟩ := hdiagnostics.mpr h.diagnostics
      obtain ⟨state, hs⟩ := exists_ofParts hg
      exact ⟨g, hg, emits, he, checks, hc, diagnostics, hd, state, hs, _, rfl⟩
  · rw [if_pos hversion]
    constructor
    · rintro ⟨_, hdecode⟩
      cases hdecode
    · exact fun h => absurd h.version hversion

/-- The tables of an accepted document fit together. -/
theorem indexed_of_decode (h : d.decode expected = .ok decoded) : decoded.Indexed d := by
  obtain ⟨⟨g, hgraph, hsize, hstate⟩, _, _⟩ := decode_ok h
  obtain ⟨emits, hemits⟩ := exists_pendingEmit h
  obtain ⟨_, hpaths, _⟩ := Graph.ofIndexed_ok hgraph
  have hregular := Graph.regular_ofIndexed hgraph
  have hrecords : (d.units.map fun unit => ({ info := decodeUnit unit } : UnitRecord)).map (·.info)
      = d.units.map decodeUnit := by
    rw [List.map_map]
    rfl
  refine ⟨?_, ?_, ?_, ?_, ?_, ?_, ?_⟩
  · rw [hstate]
    exact hpaths
  · rw [hstate]
    exact hrecords
  · rw [hstate, ← hsize]
    exact fun id other hother => hregular.lt_size_of_mem_dependenciesOf hother
  · rw [hstate, ← hsize]
    exact fun id other hother => Graph.lt_size_of_mem_dependentsOf hother
  · rw [hstate, ← hsize]
    exact fun id other hother => hregular.lt_size_of_mem_exportersOf hother
  · rw [hstate]
    exact hregular.exportEdges_subset
  · rw [hemits]
    exact EmitQueue.wellFormed_ofParts emits d.pendingEmitCursor

/-- **Which documents are accepted, and what can be done with them.**  A document is accepted exactly when
it carries the expected version, lists no path twice and refers to its own units only; edges count when
dependencies are tracked.  What it holds then is a table with a row for each unit whose neighbours are
units, whose export edges are import edges and whose cursor is within its entries.  A program that takes it
over, starts a round from any snapshot and is drained never reads outside of its tables: every read succeeds
and the results are those of the operations. -/
theorem acceptance_exact_and_safe (expected : String) (d : Document) :
    ((∃ decoded, d.decode expected = .ok decoded) ↔ d.Acceptable expected)
      ∧ ∀ decoded, d.decode expected = .ok decoded →
        decoded.Indexed d
          ∧ ∀ {η : Type} [Host η] (host : η) (options : Options) (s : Snapshot),
            let restored := (Program.blank host options).restore decoded
            let started := restored.update s
            (Program.blank host options).restore? decoded = some restored
              ∧ restored.update? s = some started
              ∧ started.drainChecks? = some started.drainChecks
              ∧ started.drainChecks.2.drainEmits? = some started.drainChecks.2.drainEmits
              ∧ started.drainEmits? = some started.drainEmits := by
  refine ⟨exists_decode_iff, fun decoded hdecode => ⟨indexed_of_decode hdecode, ?_⟩⟩
  intro η _ host options s restored started
  have hrestored : restored.InBounds := Program.inBounds_restore host options hdecode
  have hstarted : started.InBounds := Program.inBounds_update restored s
  obtain ⟨hchecks, hchecked⟩ := hstarted.drainChecks?_eq
  exact ⟨Program.restore?_eq (wellFormed_of_decode hdecode) hrestored.phased.queue _,
    hrestored.update?_eq s, hchecks, hchecked.drainEmits?_eq.1, hstarted.drainEmits?_eq.1⟩

/-- A document with an export edge that has no import edge, checks and emits of one unit twice, and a cursor
past the end is accepted, and a program can be started from it.  With one unit less it is rejected. -/
theorem acceptance_stray_document :
    let d : Document := {
      toolVersion := BuildInfo.toolVersion
      units := [⟨"left", "1", none, true⟩, ⟨"right", "2", none, false⟩]
      exportEdges := [(1, 0)]
      pendingEmit := [⟨1, .types⟩, ⟨1, .full⟩]
      pendingEmitCursor := 7
      pendingCheck := [⟨0, true⟩, ⟨0, false⟩] }
    d.Acceptable BuildInfo.toolVersion
      ∧ ¬ Acceptable BuildInfo.toolVersion { d with units := d.units.take 1 }
      ∧ ∃ decoded, d.decode BuildInfo.toolVersion = .ok decoded ∧ decoded.Indexed d
        ∧ ∃ restored started : Program Pair,
          (Program.blank ⟨"int", "str"⟩ {}).restore? decoded = some restored
            ∧ restored.update? (Pair.snapshot ⟨"int", "str"⟩) = some started
            ∧ started.drainChecks? ≠ none ∧ started.drainEmits? ≠ none := by
  intro d
  have hacceptable : d.Acceptable BuildInfo.toolVersion := by decide
  have hrejected : ¬ Acceptable BuildInfo.toolVersion { d with units := d.units.take 1 } := by
    decide
  obtain ⟨hiff, haccepted⟩ := acceptance_exact_and_safe BuildInfo.toolVersion d
  obtain ⟨decoded, hdecode⟩ := hiff.mpr hacceptable
  obtain ⟨hindexed, hreads⟩ := haccepted decoded hdecode
  obtain ⟨hrestore, hupdate, hchecks, _, hemits⟩ :=
    hreads (⟨"int", "str"⟩ : Pair) {} (Pair.snapshot ⟨"int", "str"⟩)
  refine ⟨hacceptable, hrejected, decoded, hdecode, hindexed, _, _, hrestore, hupdate, ?_, ?_⟩
  · rw [hchecks]
    exact Option.some_ne_none _
  · rw [hemits]
    exact Option.some_ne_none _

end Document

end BuildInfo

end Rebuild
