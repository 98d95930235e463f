import Mathlib.Data.List.Nodup
import Rebuild.Proofs.Takeover

/-!
# What a document preserves

A document lists the edges of a graph unit by unit, and those of republishing units in sorted order.
Reading them back makes the same neighbours, in the same order, because a graph of a snapshot mentions
each edge once and comes to its units one after the other.

* `Graph.ListsOnce`, `Graph.Sequential`: each edge is listed once, and export edges come unit by unit;
* `Graph.stored`, `Graph.ofIndexed_eq`: the graph of the stored edges, with `Graph.dependenciesOf_stored`
  and `Graph.exportersOf_stored`: its neighbours;
* `State.Derived`: the states that come from snapshots and stored signatures;
* `BuildInfo.Preserves`: what is found in a document is what was stored, up to what a document leaves out;
* `read_text_encode`: the text of every document is read back so.
-/

namespace Rebuild

/-! ### Edges that are listed once -/

namespace Edges

variable {e : Edges} {edge : UnitId × UnitId} {edges : List (UnitId × UnitId)} {bound : Nat}

theorem nodup_insertLast {α : Type} [BEq α] [LawfulBEq α] {x : α} {xs : List α} (h : xs.Nodup) :
    (insertLast x xs).Nodup := by
  rw [insertLast]
  split
  · exact h
  · rename_i hfresh
    rw [List.nodup_append]
    refine ⟨h, List.nodup_singleton x, fun a ha b hb hab => hfresh ?_⟩
    rw [List.contains_iff_mem, ← List.mem_singleton.mp hb, ← hab]
    exact ha

/-- Import edges that are all different are kept as they are. -/
theorem foldl_addImport (h : (e.imports ++ edges).Nodup) :
    edges.foldl addImport e = { e with imports := e.imports ++ edges } := by
  induction edges generalizing e with
  | nil => rw [List.foldl_nil, List.append_nil]
  | cons first rest ih =>
      have hfresh : first ∉ e.imports := by
        intro hmem
        exact (List.nodup_append.mp h).2.2 first hmem first List.mem_cons_self rfl
      have hadd : e.addImport first = { e with imports := e.imports ++ [first] } := by
        rw [addImport, insertLast, if_neg (by simpa using hfresh)]
      rw [List.append_cons] at h
      rw [List.foldl_cons, hadd, ih h, List.append_assoc, List.singleton_append]

/-- Export edges that are all different and have their import edges are kept as they are. -/
theorem foldl_addExport (h : (e.exports ++ edges).Nodup) (hbacked : ∀ edge ∈ edges, edge ∈ e.imports) :
    edges.foldl addExport e = { e with exports := e.exports ++ edges } := by
  induction edges generalizing e with
  | nil => rw [List.foldl_nil, List.append_nil]
  | cons first rest ih =>
      have hfresh : first ∉ e.exports := by
        intro hmem
        exact (List.nodup_append.mp h).2.2 first hmem first List.mem_cons_self rfl
      have himport : first ∈ e.imports := hbacked first List.mem_cons_self
      have hadd : e.addExport first = { e with exports := e.exports ++ [first] } := by
        rw [addExport, insertLast, insertLast, if_pos (by simpa using himport),
          if_neg (by simpa using hfresh)]
      have hrest : ∀ edge ∈ rest, edge ∈ ({ e with exports := e.exports ++ [first] } : Edges).imports :=
        fun edge hedge => hbacked edge (List.mem_cons_of_mem _ hedge)
      rw [List.append_cons] at h
      rw [List.foldl_cons, hadd, ih h hrest, List.append_assoc, List.singleton_append]

/-- Each edge is listed once, and the export edges come unit by unit, up to the unit `bound`. -/
structure Sequential (e : Edges) (bound : Nat) : Prop where
  imports : e.imports.Nodup
  exports : e.exports.Nodup
  ascending : e.exports.Pairwise fun a b => a.1 ≤ b.1
  below : ∀ edge ∈ e.exports, edge.1 ≤ bound

namespace Sequential

theorem mono {more : Nat} (h : e.Sequential bound) (hle : bound ≤ more) : e.Sequential more :=
  { h with below := fun edge hedge => Nat.le_trans (h.below edge hedge) hle }

theorem addImport (h : e.Sequential bound) (edge : UnitId × UnitId) :
    (e.addImport edge).Sequential bound :=
  { h with imports := nodup_insertLast h.imports }

theorem addExport (h : e.Sequential bound) (target : UnitId) :
    (e.addExport (bound, target)).Sequential bound where
  imports := nodup_insertLast h.imports
  exports := nodup_insertLast h.exports
  ascending := by
    show (insertLast (bound, target) e.exports).Pairwise _
    rw [insertLast]
    split
    · exact h.ascending
    · rw [List.pairwise_append]
      refine ⟨h.ascending, List.pairwise_singleton _ _, fun a ha b hb => ?_⟩
      rw [List.mem_singleton.mp hb]
      exact h.below a ha
  below := by
    intro edge hedge
    rcases mem_insertLast.mp hedge with hold | rfl
    · exact h.below edge hold
    · exact Nat.le_refl bound

end Sequential

end Edges

namespace Graph

variable {g : Graph} {e : Edges}

theorem sequential_foldl_addDependency {unit : UnitId} (deps : List Dependency)
    (h : e.Sequential unit) : (deps.foldl (g.addDependency unit) e).Sequential unit := by
  induction deps generalizing e with
  | nil => exact h
  | cons dep deps ih =>
      apply ih
      rw [addDependency]
      split
      · exact h
      · split
        · exact h
        · split
          · exact h.addExport _
          · exact h.addImport _

/-- The units come one after the other: the unit at position `i` of `reported` has the number
`start + i`. -/
theorem sequential_foldl_addUnit {reported : List (UnitPath × List Dependency)} {start : Nat}
    (hnumber : ∀ i unit, reported[i]? = some unit → g.idOf? unit.1 = some (start + i))
    (h : e.Sequential start) :
    (reported.foldl g.addUnit e).Sequential (start + reported.length) := by
  induction reported generalizing e start with
  | nil => exact h
  | cons unit rest ih =>
      have hunit : g.idOf? unit.1 = some start := hnumber 0 unit rfl
      have hfirst : (g.addUnit e unit).Sequential start := by
        rw [addUnit, hunit]
        exact sequential_foldl_addDependency unit.2 h
      have hrest : ∀ i other, rest[i]? = some other → g.idOf? other.1 = some (start + 1 + i) := by
        intro i other hother
        rw [hnumber (i + 1) other (by simpa using hother)]
        congr 1
        omega
      rw [List.foldl_cons, List.length_cons]
      exact (ih hrest (hfirst.mono (Nat.le_succ start))).mono (by omega)

/-- Each edge is listed once, and the export edges come unit by unit. -/
def Sequential (g : Graph) : Prop :=
  ∀ e, g.edges = some e → e.Sequential g.size

def ListsOnce (g : Graph) : Prop :=
  ∀ e, g.edges = some e → e.imports.Nodup ∧ e.exports.Nodup

theorem Sequential.listsOnce (h : g.Sequential) : g.ListsOnce :=
  fun e hedges => ⟨(h e hedges).imports, (h e hedges).exports⟩

/-- The units of a list of distinct paths are numbered in order. -/
theorem sequential_build {reported : List (UnitPath × List Dependency)}
    (hnodup : (reported.map (·.1)).Nodup) (tracking : Bool) : (build reported tracking).Sequential := by
  intro e hedges
  cases tracking with
  | false => cases hedges
  | true =>
      obtain rfl := Option.some.inj ((edges_build reported).symm.trans hedges)
      have hsize : 0 + reported.length = (build reported true).size := by
        simp [size, build]
      rw [← hsize]
      refine sequential_foldl_addUnit (fun i unit hunit => ?_)
        ⟨List.nodup_nil, List.nodup_nil, List.Pairwise.nil, by simp⟩
      rw [Nat.zero_add]
      refine lastIndexOf?_of_nodup hnodup ?_
      rw [List.getElem?_map, hunit]
      rfl

end Graph

theorem Snapshot.sequential_graph (s : Snapshot) (tracking : Bool) :
    (s.graph tracking).Sequential := by
  refine Graph.sequential_build ?_ tracking
  rw [List.map_map]
  exact s.nodup

/-! ### Neighbours in the graph of stored edges -/

namespace Graph

variable {g : Graph} {e : Edges}

/-- Of the parts of a list that belong to its members, the part of one member. -/
theorem flatMap_ite {α β : Type} [DecidableEq α] {xs : List α} (hnodup : xs.Nodup) {x : α}
    (hx : x ∈ xs) (part : α → List β) :
    (xs.flatMap fun y => if y = x then part y else []) = part x := by
  induction xs with
  | nil => simp at hx
  | cons first rest ih =>
      obtain ⟨hfresh, hrest⟩ := List.nodup_cons.mp hnodup
      rw [List.flatMap_cons]
      by_cases hfirst : first = x
      · have hnone : (rest.flatMap fun y => if y = x then part y else []) = [] := by
          rw [List.flatMap_eq_nil_iff]
          intro y hy
          rw [if_neg]
          rintro rfl
          exact hfresh (hfirst ▸ hy)
        rw [if_pos hfirst, hnone, List.append_nil, hfirst]
      · rw [if_neg hfirst, List.nil_append]
        exact ih hrest ((List.mem_cons.mp hx).resolve_left (Ne.symm hfirst))

/-- The stored import edges of a unit lead to its dependencies. -/
theorem dependenciesOf_stored (hedges : g.edges = some e) (h : g.Regular) (id : UnitId) :
    (g.dependencyEdges.filter (·.1 == id)).map (·.2) = g.dependenciesOf id := by
  have hparts : g.dependencyEdges.filter (·.1 == id)
      = g.units.flatMap fun unit =>
          if unit = id then (g.dependenciesOf unit).map fun dep => (unit, dep) else [] := by
    rw [dependencyEdges, hedges]
    simp only [List.filter_flatMap, List.filter_map, Function.comp_def]
    congr 1
    funext unit
    by_cases hunit : unit = id
    · simp [hunit]
    · simp [hunit]
  rw [hparts]
  by_cases hid : id < g.size
  · have hunits : g.units.Nodup := List.nodup_range
    rw [flatMap_ite hunits (mem_units.mpr hid), List.map_map]
    exact List.map_id _
  · -- no edge starts at a number that is no unit
    have hnone : g.dependenciesOf id = [] := by
      rw [dependenciesOf, hedges]
      simp only [List.map_eq_nil_iff, List.filter_eq_nil_iff, beq_iff_eq]
      intro edge hedge hsource
      exact hid (hsource ▸ ((h e hedges).1 edge hedge).1)
    have hempty : (g.units.flatMap fun unit =>
        if unit = id then (g.dependenciesOf unit).map fun dep => (unit, dep) else []) = [] := by
      rw [List.flatMap_eq_nil_iff]
      intro unit hunit
      rw [if_neg]
      rintro rfl
      exact hid (mem_units.mp hunit)
    rw [hempty, hnone]
    rfl

theorem nodup_dependenciesOf (hedges : g.edges = some e) (himports : e.imports.Nodup) (unit : UnitId) :
    (g.dependenciesOf unit).Nodup := by
  rw [dependenciesOf, hedges]
  refine List.Nodup.map_on ?_ (himports.filter _)
  intro a ha b hb hab
  have hsource : a.1 = b.1 := by
    rw [beq_iff_eq.mp (List.mem_filter.mp ha).2, beq_iff_eq.mp (List.mem_filter.mp hb).2]
  exact Prod.ext hsource hab

theorem nodup_dependencyEdges (hedges : g.edges = some e) (himports : e.imports.Nodup) :
    g.dependencyEdges.Nodup := by
  rw [dependencyEdges, hedges]
  refine List.nodup_flatMap.mpr ⟨fun unit _ => ?_, ?_⟩
  · exact (nodup_dependenciesOf hedges himports unit).map fun a b hab => congrArg Prod.snd hab
  · refine List.nodup_range.imp fun {a b} hne edge ha hb => ?_
    obtain ⟨_, _, rfl⟩ := List.mem_map.mp ha
    obtain ⟨_, _, hsame⟩ := List.mem_map.mp hb
    exact hne (congrArg Prod.fst hsame).symm

theorem edgeLe_trans (a b c : UnitId × UnitId) (hab : edgeLe a b = true) (hbc : edgeLe b c = true) :
    edgeLe a c = true := by
  unfold edgeLe at *
  grind

theorem edgeLe_total (a b : UnitId × UnitId) : (edgeLe a b || edgeLe b a) = true := by
  unfold edgeLe
  grind

/-- The stored export edges to a unit come from the units that republish it, in the same order. -/
theorem exportersOf_stored (hedges : g.edges = some e) (h : g.Sequential) (id : UnitId) :
    (g.exportEdges.filter (·.2 == id)).map (·.1) = g.exportersOf id := by
  have hsorted : g.exportEdges.Pairwise fun a b => edgeLe a b = true := by
    rw [exportEdges, hedges]
    exact List.pairwise_mergeSort edgeLe_trans edgeLe_total _
  have hperm : (g.exportEdges.filter (·.2 == id)).Perm (e.exports.filter (·.2 == id)) := by
    rw [exportEdges, hedges]
    exact (List.mergeSort_perm _ _).filter _
  -- among the edges to one unit, both orders are by source
  have hstored : ((g.exportEdges.filter (·.2 == id)).map (·.1)).Pairwise (· ≤ ·) := by
    refine List.pairwise_map.mpr ((hsorted.filter _).imp fun {a b} hab => ?_)
    unfold edgeLe at hab
    grind
  have hlisted : ((e.exports.filter (·.2 == id)).map (·.1)).Pairwise (· ≤ ·) :=
    List.pairwise_map.mpr ((h e hedges).ascending.filter _)
  rw [exportersOf, hedges]
  exact List.Perm.eq_of_pairwise (fun _ _ _ _ => Nat.le_antisymm) hstored hlisted (hperm.map _)

/-- The graph of the stored edges, spelled out. -/
def stored (g : Graph) : Graph :=
  ⟨g.paths, g.edges.map fun _ => ⟨g.dependencyEdges, g.exportEdges⟩⟩

/-- Where each edge is listed once, the stored edges are kept as they are. -/
theorem ofIndexed_eq (hnodup : g.paths.Nodup) (hregular : g.Regular) (honce : g.ListsOnce) :
    ofIndexed g.paths g.dependencyEdges g.exportEdges g.tracking = .ok g.stored := by
  have hdistinct : ¬ g.paths.eraseDups.length ≠ g.paths.length := by
    rw [not_not]
    exact (length_eraseDups_eq_iff _).mpr hnodup
  rw [ofIndexed, if_neg hdistinct, stored]
  cases hedges : g.edges with
  | none =>
      have htracking : g.tracking = false := by rw [tracking, hedges]; rfl
      rw [htracking]
      rfl
  | some e =>
      have htracking : g.tracking = true := by rw [tracking, hedges]; rfl
      obtain ⟨himports, hexports⟩ := honce e hedges
      have hstored : g.exportEdges.Nodup := by
        rw [exportEdges, hedges]
        exact (List.mergeSort_perm _ _).nodup_iff.mpr hexports
      have hbacked : ∀ edge ∈ g.exportEdges, edge ∈ g.dependencyEdges := by
        intro edge hedge
        have hmem := (hregular e hedges).2 edge ((mem_exportEdges hedges).mp hedge)
        exact (mem_dependencyEdges hedges).mpr ⟨((hregular e hedges).1 edge hmem).1, hmem⟩
      have himported : g.dependencyEdges.foldl Edges.addImport {} = ⟨g.dependencyEdges, []⟩ :=
        Edges.foldl_addImport (nodup_dependencyEdges hedges himports)
      have hexported : g.exportEdges.foldl Edges.addExport ⟨g.dependencyEdges, []⟩
          = ⟨g.dependencyEdges, g.exportEdges⟩ := Edges.foldl_addExport hstored hbacked
      rw [htracking, if_pos rfl, hregular.firstOutside?_stored]
      simp only [himported, hexported, Option.map_some]

/-- The units have the same dependencies in the graph of the stored edges. -/
theorem Regular.dependenciesOf_stored (h : g.Regular) (id : UnitId) :
    g.stored.dependenciesOf id = g.dependenciesOf id := by
  cases hedges : g.edges with
  | none =>
      rw [dependenciesOf, dependenciesOf, stored, hedges]
      rfl
  | some e =>
      rw [dependenciesOf, stored, hedges]
      exact Graph.dependenciesOf_stored hedges h id

end Graph

/-! ### States that come from snapshots -/

namespace State

/-- The states that come from snapshots and stored signatures. -/
inductive Derived : State → Prop
  | empty : Derived {}
  | snapshot (s : Snapshot) (tracking : Bool) (prior : State) : Derived (ofSnapshot s tracking prior)
  | sign {s : State} (h : Derived s) (id : UnitId) (signature : Signature) :
      Derived (s.sign id signature)

namespace Derived

variable {s : State}

theorem wellFormed (h : s.Derived) : s.WellFormed := by
  induction h with
  | empty => exact ⟨List.nodup_nil, rfl⟩
  | snapshot s tracking prior => exact wellFormed_ofSnapshot
  | sign _ id signature ih => exact wellFormed_sign ih

/-- Signatures leave the graph alone, so it is that of a snapshot. -/
theorem exists_snapshot (h : s.Derived) :
    ∃ (snapshot : Snapshot) (tracking : Bool), s.graph = snapshot.graph tracking := by
  induction h with
  | empty => exact ⟨{}, false, rfl⟩
  | snapshot s tracking prior => exact ⟨s, tracking, rfl⟩
  | sign _ id signature ih => exact ih

theorem regular (h : s.Derived) : s.graph.Regular := by
  obtain ⟨snapshot, tracking, hgraph⟩ := h.exists_snapshot
  rw [hgraph]
  exact snapshot.regular_graph tracking

theorem sequential (h : s.Derived) : s.graph.Sequential := by
  obtain ⟨snapshot, tracking, hgraph⟩ := h.exists_snapshot
  rw [hgraph]
  exact snapshot.sequential_graph tracking

end Derived

end State

/-- In a sorted cache every entry is found. -/
theorem Cache.Sorted.find?_eq_some {c : Cache} (h : c.Sorted) {entry : CacheEntry}
    (hentry : entry ∈ c.entries) : c.find? entry.unit = some entry := by
  cases hfind : c.find? entry.unit with
  | none =>
      rw [Cache.find?, List.find?_eq_none] at hfind
      exact absurd (beq_self_eq_true entry.unit) (hfind entry hentry)
  | some found =>
      obtain ⟨hfound, hunit⟩ := Cache.mem_of_find? hfind
      have hnodup : (c.entries.map (·.unit)).Nodup :=
        List.pairwise_map.mpr (h.imp fun hlt hsame => absurd (hsame ▸ hlt) (String.lt_irrefl _))
      rw [List.inj_on_of_nodup_map hnodup hfound hentry hunit]

/-! ### What is preserved -/

namespace BuildInfo

/-- What was found in a document is what was stored, up to what a document leaves out: requests for units
outside the program, and diagnostics that were found at another version. -/
structure Preserves (content : Content) (decoded : Decoded) : Prop where
  entries : decoded.state.entries = content.state.entries
  tracking : decoded.state.graph.tracking = content.state.graph.tracking
  dependencies : ∀ id, decoded.state.graph.dependenciesOf id = content.state.graph.dependenciesOf id
  dependents : ∀ id, decoded.state.graph.dependentsOf id = content.state.graph.dependentsOf id
  exporters : ∀ id, decoded.state.graph.exportersOf id = content.state.graph.exportersOf id
  consumed : decoded.pendingEmit.consumed
    = content.pendingEmit.consumed.filter fun entry => content.state.graph.contains entry.unit
  remaining : decoded.pendingEmit.remaining
    = content.pendingEmit.remaining.filter fun entry => content.state.graph.contains entry.unit
  pendingCheck : decoded.pendingCheck
    = content.pendingCheck.filter fun check => content.state.graph.contains check.unit
  optionsHash : decoded.optionsHash = content.optionsHash
  /-- The diagnostics of the units that were checked at the version they have. -/
  cached : ∀ unit diagnostics, (unit, diagnostics) ∈ decoded.diagnostics ↔
    ∃ cache ∈ content.cache, ∃ entry, cache.find? unit = some entry
      ∧ content.state.versionOf? unit = some entry.version ∧ entry.diagnostics = diagnostics
  sorted : (decoded.diagnostics.map (·.1)).Pairwise (· < ·)

namespace Document

variable {tool : String} {content : Content}

/-- The graph that is read back is the one of the stored edges. -/
theorem graph_of_decode_encode (hs : content.state.WellFormed) (hregular : content.state.graph.Regular)
    (honce : content.state.graph.ListsOnce) {decoded : Decoded}
    (hread : (encode tool content).decode tool = .ok decoded) :
    decoded.state.graph = content.state.graph.stored := by
  obtain ⟨⟨found, hfound, _, hstate⟩, _, _⟩ := decode_ok hread
  have hexpected := Graph.ofIndexed_eq hs.nodup hregular honce
  rw [← paths_encode tool hs] at hexpected
  rw [hstate]
  exact Except.ok.inj (hfound.symm.trans hexpected)

/-- The graph that is read back has the same neighbours. -/
theorem neighbours_of_decode_encode (hs : content.state.Derived) {g : Graph}
    (hread : (encode tool content).decode tool = .ok (readBack content g)) (id : UnitId) :
    g.dependenciesOf id = content.state.graph.dependenciesOf id
      ∧ g.exportersOf id = content.state.graph.exportersOf id := by
  have hgraph : g = content.state.graph.stored :=
    graph_of_decode_encode hs.wellFormed hs.regular hs.sequential.listsOnce hread
  rw [hgraph]
  refine ⟨hs.regular.dependenciesOf_stored id, ?_⟩
  cases hedges : content.state.graph.edges with
  | none =>
      rw [Graph.exportersOf, Graph.exportersOf, Graph.stored, hedges]
      rfl
  | some e =>
      rw [Graph.exportersOf, Graph.stored, hedges]
      exact Graph.exportersOf_stored hedges hs.sequential id

theorem consumed_readEmits (content : Content) :
    (readEmits content).consumed
      = content.pendingEmit.consumed.filter fun entry => content.state.graph.contains entry.unit := by
  have hsplit := List.take_append_drop content.pendingEmit.cursor content.pendingEmit.entries
  show ((content.pendingEmit.entries.filter _).take (content.pendingEmit.consumed.filter _).length) = _
  rw [← hsplit, List.filter_append]
  exact List.take_left

theorem entries_readBack {g : Graph}
    (hpaths : g.paths = content.state.graph.paths) :
    (readBack content g).state.entries = content.state.entries := by
  show List.zip g.paths ((content.state.records.map _).map _) = _
  rw [hpaths, List.map_map]
  rfl

/-- The diagnostics that are read back are those that are cached at the versions of their units. -/
theorem mem_diagnostics_readBack {g : Graph} (hsorted : ∀ cache ∈ content.cache, cache.Sorted)
    (hown : ∀ cache ∈ content.cache, ∀ entry ∈ cache.entries, ∀ d ∈ entry.diagnostics,
      d.unit = entry.unit) (unit : UnitPath) (diagnostics : List Diagnostic) :
    (unit, diagnostics) ∈ (readBack content g).diagnostics ↔
      ∃ cache ∈ content.cache, ∃ entry, cache.find? unit = some entry
        ∧ content.state.versionOf? unit = some entry.version ∧ entry.diagnostics = diagnostics := by
  show (unit, diagnostics) ∈ ((content.cache.map _).getD []).filterMap _ ↔ _
  rw [List.mem_filterMap]
  cases hcache : content.cache with
  | none => simp
  | some cache =>
      have hmem : cache ∈ content.cache := hcache
      constructor
      · intro h
        obtain ⟨entry, hentry, hkept⟩ := h
        split at hkept
        · rename_i hversion
          obtain ⟨rfl, rfl⟩ := Prod.mk.inj (Option.some.inj hkept)
          refine ⟨cache, rfl, entry, (hsorted cache hmem).find?_eq_some hentry, hversion, ?_⟩
          exact (Program.relocated_eq (hown cache hmem entry hentry)).symm
        · cases hkept
      · intro h
        obtain ⟨found, hfound, entry, hfind, hversion, rfl⟩ := h
        obtain rfl : cache = found := Option.some.inj hfound
        obtain ⟨hentry, rfl⟩ := Cache.mem_of_find? hfind
        refine ⟨entry, hentry, ?_⟩
        rw [if_pos hversion, Program.relocated_eq (hown cache hmem entry hentry)]

theorem sorted_diagnostics_readBack {g : Graph} (hsorted : ∀ cache ∈ content.cache, cache.Sorted) :
    ((readBack content g).diagnostics.map (·.1)).Pairwise (· < ·) := by
  show ((((content.cache.map _).getD []).filterMap _).map _).Pairwise _
  cases hcache : content.cache with
  | none => exact List.Pairwise.nil
  | some cache =>
      rw [List.pairwise_map, List.pairwise_filterMap]
      refine (hsorted cache hcache).imp fun {a b} hlt found hfound other hother => ?_
      split at hfound
      · split at hother
        · obtain ⟨rfl, rfl⟩ := And.intro (Option.some.inj hfound) (Option.some.inj hother)
          exact hlt
        · cases hother
      · cases hfound

/-- **The text of a document is read back.**  Nothing is lost but requests for units outside the program
and diagnostics that were found at another version, whatever the texts of paths, versions, signatures and
messages. -/
theorem read_text_encode (tool : String) (hs : content.state.Derived)
    (hsize : content.state.graph.size < 4294967296)
    (hcursor : content.pendingEmit.cursor < 18446744073709551616)
    (hsorted : ∀ cache ∈ content.cache, cache.Sorted)
    (hdiagnostics : ∀ cache ∈ content.cache, ∀ entry ∈ cache.entries, ∀ d ∈ entry.diagnostics,
      d.unit = entry.unit ∧ d.toCompact.Fits) :
    ∃ decoded, Document.read tool (encode tool content).text = .ok decoded
      ∧ Preserves content decoded := by
  have hown : ∀ cache ∈ content.cache, ∀ entry ∈ cache.entries, ∀ d ∈ entry.diagnostics,
      d.unit = entry.unit :=
    fun cache hcache entry hentry d hd => (hdiagnostics cache hcache entry hentry d hd).1
  have hfits : (encode tool content).Fits :=
    fits_encode hs.regular (Nat.le_of_lt hsize) hcursor
      fun cache hcache entry hentry d hd => (hdiagnostics cache hcache entry hentry d hd).2
  have htool : (encode tool content).toolVersion = tool := rfl
  rw [read_text htool, if_pos hfits]
  obtain ⟨g, hpaths, htracking, hdependents, hread⟩ := decode_encode hs.wellFormed hs.regular
  refine ⟨readBack content g, hread, ?_⟩
  exact {
    entries := entries_readBack hpaths
    tracking := htracking
    dependencies := fun id => (neighbours_of_decode_encode hs hread id).1
    dependents := hdependents
    exporters := fun id => (neighbours_of_decode_encode hs hread id).2
    consumed := consumed_readEmits content
    remaining := remaining_readEmits content
    pendingCheck := rfl
    optionsHash := rfl
    cached := mem_diagnostics_readBack hsorted hown
    sorted := sorted_diagnostics_readBack hsorted }

/-- Two units that import each other, with texts that are escaped or not of ASCII.  One request that was
handed out and one pending check are for a unit that is gone, and one of the entries is out of date. -/
def mutualContent : Content where
  state := (State.ofSnapshot
    ⟨[⟨"é/ü.unit", "v\"1", [⟨"日本.unit", true⟩], false⟩, ⟨"日本.unit", "2\n", [⟨"é/ü.unit", false⟩], true⟩],
      by decide⟩ true {}).sign 1 (.known "σ")
  pendingEmit := ⟨[⟨"gone.unit", .full⟩, ⟨"é/ü.unit", .types⟩, ⟨"日本.unit", .full⟩], 2⟩
  pendingCheck := [⟨"日本.unit", true⟩, ⟨"gone.unit", false⟩]
  cache := some ⟨[⟨"é/ü.unit", "v\"1", [.error "é/ü.unit" 7 "naïve \t ☃"]⟩,
    ⟨"日本.unit", "1", [.warning "日本.unit" 8 "old"]⟩]⟩
  optionsHash := some "ħ"

theorem read_text_encode_mutualContent :
    ∃ decoded, Document.read "0.1.0" (encode "0.1.0" mutualContent).text = .ok decoded
      ∧ Preserves mutualContent decoded := by
  refine read_text_encode "0.1.0" (.sign (.snapshot _ _ _) _ _) (by decide) (by decide) ?_ ?_
  · intro cache hcache
    obtain rfl := Option.some.inj hcache
    show List.Pairwise _ _
    decide
  · intro cache hcache
    obtain rfl := Option.some.inj hcache
    decide

end Document

end BuildInfo

end Rebuild
