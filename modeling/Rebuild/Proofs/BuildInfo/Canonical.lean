import Rebuild.Proofs.BuildInfo.Acceptance
import Rebuild.Proofs.BuildInfo.Fidelity

/-!
# Documents that are stored again

The same content can be written in many ways: with edges that are repeated or that lead from a unit to
itself, with export edges whose import edges are left out, with several lists of diagnostics for one unit,
and with a cursor past the end.  Whatever an accepted document looks like, storing what was found in it
writes it in one way.

* `Graph.dependencyEdges_stored`, `Graph.exportEdges_stored`: the graph of the stored edges stores the same
  edges;
* `BuildInfo.Decoded.Consistent`: what is found in an accepted document refers to its units only, and
  mentions each edge once;
* `BuildInfo.Decoded.content`: what is stored of it, and `BuildInfo.Decoded.Repeats`: the same was found
  again;
* `BuildInfo.Decoded.Refers`: where the positions that are stored come from, and
  `BuildInfo.Decoded.Refers.hasRoom`: they are numbers that fit;
* `BuildInfo.Document.encode_canonical`: the text that is stored is accepted, holds the same, and is stored as
  it is from then on.
-/

namespace Rebuild

/-! ### Lists that were read -/

/-- Whatever was read from a list was read from one of its elements. -/
theorem exists_of_mem_mapM {α β : Type} {f : α → Except Error β} {xs : List α} {ys : List β}
    (h : xs.mapM f = .ok ys) {y : β} (hy : y ∈ ys) : ∃ x ∈ xs, f x = .ok y := by
  induction xs generalizing ys with
  | nil =>
      cases h
      cases hy
  | cons x rest ih =>
      rw [List.mapM_cons] at h
      obtain ⟨first, hfirst, h⟩ := bind_eq_ok_iff.mp h
      obtain ⟨later, hlater, h⟩ := bind_eq_ok_iff.mp h
      cases h
      rcases List.mem_cons.mp hy with rfl | hmem
      · exact ⟨x, List.mem_cons_self, hfirst⟩
      · obtain ⟨other, hother, hread⟩ := ih hlater hmem
        exact ⟨other, List.mem_cons_of_mem _ hother, hread⟩

/-! ### Edges that are stored again -/

namespace Edges

variable {e : Edges} {edges : List (UnitId × UnitId)}

theorem nodup_foldl_addImport (h : e.imports.Nodup ∧ e.exports.Nodup) :
    (edges.foldl addImport e).imports.Nodup ∧ (edges.foldl addImport e).exports.Nodup := by
  induction edges generalizing e with
  | nil => exact h
  | cons edge rest ih => exact ih (e := e.addImport edge) ⟨nodup_insertLast h.1, h.2⟩

theorem nodup_foldl_addExport (h : e.imports.Nodup ∧ e.exports.Nodup) :
    (edges.foldl addExport e).imports.Nodup ∧ (edges.foldl addExport e).exports.Nodup := by
  induction edges generalizing e with
  | nil => exact h
  | cons edge rest ih =>
      exact ih (e := e.addExport edge) ⟨nodup_insertLast h.1, nodup_insertLast h.2⟩

end Edges

namespace Graph

variable {g : Graph}

/-- Repeated edges count once. -/
theorem listsOnce_ofIndexed {paths : List UnitPath} {imports exports : List (Nat × Nat)}
    {tracking : Bool} (h : ofIndexed paths imports exports tracking = .ok g) : g.ListsOnce := by
  intro e hedges
  rw [edges_of_ofIndexed h] at hedges
  cases tracking with
  | false => cases hedges
  | true =>
      obtain rfl := Option.some.inj hedges
      exact Edges.nodup_foldl_addExport
        (Edges.nodup_foldl_addImport ⟨List.nodup_nil, List.nodup_nil⟩)

/-- Every edge of a graph is one of those that it was made of. -/
theorem dependencyEdges_subset_of_ofIndexed {paths : List UnitPath} {imports exports : List (Nat × Nat)}
    {tracking : Bool} (h : ofIndexed paths imports exports tracking = .ok g) :
    g.dependencyEdges ⊆ imports ++ exports := by
  intro edge hedge
  have hedges := edges_of_ofIndexed h
  cases tracking with
  | false =>
      rw [dependencyEdges, hedges] at hedge
      cases hedge
  | true =>
      have hmem := ((mem_dependencyEdges hedges).mp hedge).2
      rw [Edges.mem_imports_foldl_addExport, Edges.mem_imports_foldl_addImport] at hmem
      rcases hmem with (hnone | himport) | hexport
      · cases hnone
      · exact List.mem_append_left _ himport
      · exact List.mem_append_right _ hexport

theorem dependencyEdges_stored (h : g.Regular) : g.stored.dependencyEdges = g.dependencyEdges := by
  have hdeps : ∀ unit, g.stored.dependenciesOf unit = g.dependenciesOf unit :=
    h.dependenciesOf_stored
  rw [dependencyEdges, dependencyEdges]
  cases hedges : g.edges with
  | none =>
      rw [stored, hedges]
      rfl
  | some e =>
      have hstored : g.stored.edges = some ⟨g.dependencyEdges, g.exportEdges⟩ := by
        rw [stored, hedges]
        rfl
      rw [hstored]
      simp only [hdeps]
      rfl

/-- Sorted edges stay in their order. -/
theorem exportEdges_stored (g : Graph) : g.stored.exportEdges = g.exportEdges := by
  cases hedges : g.edges with
  | none =>
      rw [exportEdges, exportEdges, stored, hedges]
      rfl
  | some e =>
      have hsorted : g.exportEdges.Pairwise fun a b => edgeLe a b = true := by
        rw [exportEdges, hedges]
        exact List.pairwise_mergeSort edgeLe_trans edgeLe_total _
      rw [exportEdges, stored, hedges]
      exact List.mergeSort_of_pairwise hsorted

/-- The same units republish a unit, in the order of the stored edges. -/
theorem exportersOf_stored_perm (g : Graph) (id : UnitId) :
    (g.stored.exportersOf id).Perm (g.exportersOf id) := by
  rw [exportersOf, exportersOf, stored]
  cases hedges : g.edges with
  | none => exact List.Perm.refl _
  | some e =>
      refine List.Perm.map _ (List.Perm.filter _ ?_)
      rw [exportEdges, hedges]
      exact List.mergeSort_perm _ _

end Graph

/-- What is known about a path depends on the units and the records only. -/
theorem State.recordOf?_congr {s s' : State} (hpaths : s.graph.paths = s'.graph.paths)
    (hrecords : s.records = s'.records) (path : UnitPath) : s.recordOf? path = s'.recordOf? path := by
  rw [recordOf?, recordOf?, Graph.idOf?, Graph.idOf?, hpaths]
  congr 1
  funext id
  rw [record?, record?, hrecords]

namespace BuildInfo

/-! ### What is found in an accepted document -/

/-- What is found in an accepted document refers to its units only, and mentions each edge once. -/
structure Decoded.Consistent (decoded : Decoded) : Prop where
  state : decoded.state.WellFormed
  regular : decoded.state.graph.Regular
  listsOnce : decoded.state.graph.ListsOnce
  /-- Nothing is known about a unit but what a document holds. -/
  bare : ∀ r ∈ decoded.state.records, { info := r.info } = r
  queue : decoded.pendingEmit.WellFormed
  emits : ∀ entry ∈ decoded.pendingEmit.entries, decoded.state.graph.contains entry.unit = true
  checks : ∀ check ∈ decoded.pendingCheck, decoded.state.graph.contains check.unit = true
  diagnostics : ∀ entry ∈ decoded.diagnostics, ∀ d ∈ entry.2, d.unit = entry.1

/-- What is found in a document refers to units at the positions that are stored, and the cursor is not
beyond the stored one. -/
structure Decoded.Refers (decoded : Decoded) (d : Document) : Prop where
  edges : decoded.state.graph.dependencyEdges ⊆ d.dependencyEdges ++ d.exportEdges
  emits : ∀ entry ∈ decoded.pendingEmit.entries, ∃ stored ∈ d.pendingEmit,
    decoded.state.graph.idOf? entry.unit = some stored.unit
  cursor : decoded.pendingEmit.cursor ≤ d.pendingEmitCursor
  checks : ∀ check ∈ decoded.pendingCheck, ∃ stored ∈ d.pendingCheck,
    decoded.state.graph.idOf? check.unit = some stored.unit
  diagnostics : ∀ entry ∈ decoded.diagnostics, ∃ stored ∈ d.diagnostics.getD [],
    decoded.state.graph.idOf? entry.1 = some stored.1
      ∧ entry.2 = stored.2.map fun diagnostic => diagnostic.expand entry.1

namespace Document

variable {d : Document} {tool expected : String} {decoded : Decoded}

/-- What was read of a list of entries, each of which refers to a unit by its position. -/
theorem exists_of_mem_mapM_pathAt {g : Graph} (hpaths : g.paths = d.units.map (·.path))
    (hnodup : g.paths.Nodup) {α β : Type} {subject : String} {entries : List α} {index : α → Nat}
    {make : α → UnitPath → β} {read : List β}
    (h : (entries.mapM fun entry => do
      return make entry (← d.pathAt subject (index entry))) = .ok read) {y : β} (hy : y ∈ read) :
    ∃ entry ∈ entries, ∃ path, g.idOf? path = some (index entry) ∧ y = make entry path := by
  obtain ⟨entry, hmem, hentry⟩ := exists_of_mem_mapM h hy
  obtain ⟨path, hpath, hmake⟩ := bind_eq_ok_iff.mp hentry
  refine ⟨entry, hmem, path, ?_, (Except.ok.inj hmake).symm⟩
  rw [pathAt] at hpath
  split at hpath
  · rename_i unit hunit
    cases hpath
    refine Graph.lastIndexOf?_of_nodup hnodup ?_
    rw [hpaths, List.getElem?_map, hunit]
    rfl
  · cases hpath

theorem refers_of_decode (h : d.decode expected = .ok decoded) : decoded.Refers d := by
  obtain ⟨g, emits, hgraph, _, hstate, hemits, hqueue, hchecks, hdiagnostics, _⟩ := exists_of_decode h
  obtain ⟨hnodup, hpaths, _⟩ := Graph.ofIndexed_ok hgraph
  rw [← hpaths] at hnodup
  have hsame : decoded.state.graph = g := by rw [hstate]
  refine ⟨?_, fun entry hentry => ?_, ?_, fun check hcheck => ?_, fun entry hentry => ?_⟩
  · rw [hsame]
    exact Graph.dependencyEdges_subset_of_ofIndexed hgraph
  · rw [hqueue] at hentry
    obtain ⟨stored, hmem, path, hid, rfl⟩ := exists_of_mem_mapM_pathAt hpaths hnodup hemits hentry
    exact ⟨stored, hmem, hsame ▸ hid⟩
  · rw [hqueue]
    exact Nat.min_le_left _ _
  · obtain ⟨stored, hmem, path, hid, rfl⟩ := exists_of_mem_mapM_pathAt hpaths hnodup hchecks hcheck
    exact ⟨stored, hmem, hsame ▸ hid⟩
  · obtain ⟨stored, hmem, path, hid, rfl⟩ := exists_of_mem_mapM_pathAt hpaths hnodup hdiagnostics hentry
    exact ⟨stored, hmem, hsame ▸ hid, rfl⟩

theorem consistent_of_decode (h : d.decode expected = .ok decoded) : decoded.Consistent := by
  obtain ⟨g, emits, hgraph, _, hstate, _, hqueue, _⟩ := exists_of_decode h
  have hrefers := refers_of_decode h
  have hknown : ∀ {path : UnitPath} {id : UnitId}, decoded.state.graph.idOf? path = some id →
      decoded.state.graph.contains path = true := by
    intro path id hid
    rw [Graph.contains, hid]
    rfl
  refine ⟨wellFormed_of_decode h, ?_, ?_, ?_, ?_, fun entry hentry => ?_, fun check hcheck => ?_,
    fun entry hentry => ?_⟩
  · rw [hstate]
    exact Graph.regular_ofIndexed hgraph
  · rw [hstate]
    exact Graph.listsOnce_ofIndexed hgraph
  · rw [hstate]
    intro r hr
    obtain ⟨unit, _, rfl⟩ := List.mem_map.mp hr
    rfl
  · rw [hqueue]
    exact EmitQueue.wellFormed_ofParts _ _
  · obtain ⟨_, _, hid⟩ := hrefers.emits entry hentry
    exact hknown hid
  · obtain ⟨_, _, hid⟩ := hrefers.checks check hcheck
    exact hknown hid
  · obtain ⟨_, _, _, hfound⟩ := hrefers.diagnostics entry hentry
    rw [hfound]
    intro d hd
    obtain ⟨compact, _, rfl⟩ := List.mem_map.mp hd
    rfl

end Document

/-! ### What is stored again -/

namespace Decoded

variable {decoded : Decoded}

/-- What is stored of what was found.  The diagnostics are cached one after the other, each list at the
version of its unit. -/
def content (decoded : Decoded) : Content where
  state := decoded.state
  pendingEmit := decoded.pendingEmit
  pendingCheck := decoded.pendingCheck
  cache := some (Program.restoredCache decoded)
  optionsHash := decoded.optionsHash

/-- The same was found again: the units with what is known about them, the edges up to the order of those
that republish a unit, the requested emits, the pending checks, and the diagnostics of each unit. -/
structure Repeats (again decoded : Decoded) : Prop where
  paths : again.state.graph.paths = decoded.state.graph.paths
  records : again.state.records = decoded.state.records
  tracking : again.state.graph.tracking = decoded.state.graph.tracking
  dependencies : ∀ id, again.state.graph.dependenciesOf id = decoded.state.graph.dependenciesOf id
  dependents : ∀ id, again.state.graph.dependentsOf id = decoded.state.graph.dependentsOf id
  exporters : ∀ id, (again.state.graph.exportersOf id).Perm (decoded.state.graph.exportersOf id)
  pendingEmit : again.pendingEmit = decoded.pendingEmit
  pendingCheck : again.pendingCheck = decoded.pendingCheck
  cache : Program.restoredCache again = Program.restoredCache decoded
  optionsHash : again.optionsHash = decoded.optionsHash

/-- The diagnostics are cached at the versions of their units. -/
theorem current_restoredCache (decoded : Decoded) :
    (Program.restoredCache decoded).Current decoded.state := by
  rw [Program.restoredCache]
  refine List.foldlRecOn (motive := fun cache : Cache => cache.Current decoded.state) _ _
    (fun entry hentry => by cases hentry) fun cache hcache entry _ => ?_
  split
  · rename_i info hinfo
    refine hcache.commit ?_ entry.2
    rw [State.versionOf?, hinfo]
    rfl
  · exact hcache

/-- Every list in the cache is one that was found. -/
theorem exists_of_mem_restoredCache {cached : CacheEntry}
    (h : cached ∈ (Program.restoredCache decoded).entries) :
    ∃ entry ∈ decoded.diagnostics, cached.unit = entry.1 ∧ cached.diagnostics = entry.2 := by
  have hall : ∀ cached ∈ (Program.restoredCache decoded).entries, ∃ entry ∈ decoded.diagnostics,
      cached.unit = entry.1 ∧ cached.diagnostics = entry.2 := by
    rw [Program.restoredCache]
    refine List.foldlRecOn (motive := fun cache : Cache => ∀ cached ∈ cache.entries,
      ∃ entry ∈ decoded.diagnostics, cached.unit = entry.1 ∧ cached.diagnostics = entry.2) _ _
      (fun cached hcached => by cases hcached) fun cache hcache entry hentry => ?_
    split
    · intro cached hcached
      rcases Cache.mem_commit hcached with rfl | hold
      · exact ⟨entry, hentry, rfl, rfl⟩
      · exact hcache cached hold
    · exact hcache
  exact hall cached h

/-- The numbers of what is found in a document that fits are those of the document. -/
theorem Refers.hasRoom {d : Document} (h : decoded.Refers d) (hregular : decoded.state.graph.Regular)
    (hfits : d.Fits) : Document.HasRoom decoded.content := by
  obtain ⟨himports, hexports, hemits, hcursor, hchecks, hdiagnostics⟩ := hfits
  refine ⟨fun edge hedge => ?_, fun entry hentry id hid => ?_, Nat.lt_of_le_of_lt h.cursor hcursor,
    fun check hcheck id hid => ?_, fun cache hcache cached hcached => ?_⟩
  · have hstored : edge ∈ decoded.state.graph.dependencyEdges :=
      (List.mem_append.mp hedge).elim (fun himport => himport) fun hexport =>
        hregular.exportEdges_subset hexport
    rcases List.mem_append.mp (h.edges hstored) with himport | hexport
    · exact himports edge himport
    · exact hexports edge hexport
  · obtain ⟨stored, hmem, hstored⟩ := h.emits entry hentry
    cases hstored.symm.trans hid
    exact hemits stored hmem
  · obtain ⟨stored, hmem, hstored⟩ := h.checks check hcheck
    cases hstored.symm.trans hid
    exact hchecks stored hmem
  · cases hcache
    obtain ⟨entry, hentry, hunit, hfound⟩ := exists_of_mem_restoredCache hcached
    obtain ⟨stored, hmem, hstored, hcompact⟩ := h.diagnostics entry hentry
    have hwords : IsWord stored.1 ∧ ∀ compact ∈ stored.2, compact.Fits := by
      cases hlists : d.diagnostics with
      | none =>
          rw [hlists] at hmem
          cases hmem
      | some lists =>
          rw [hlists] at hmem
          exact hdiagnostics lists hlists stored hmem
    refine ⟨fun id hid => ?_, ?_⟩
    · rw [hunit] at hid
      cases hstored.symm.trans hid
      exact hwords.1
    · rw [hfound, hcompact]
      intro found hmem
      obtain ⟨compact, hcompact, rfl⟩ := List.mem_map.mp hmem
      exact hwords.2 compact hcompact

namespace Consistent

/-- The cached diagnostics are about the units that they are cached for. -/
theorem unit_eq_of_mem_restoredCache (h : decoded.Consistent) :
    ∀ cached ∈ (Program.restoredCache decoded).entries, ∀ d ∈ cached.diagnostics,
      d.unit = cached.unit := by
  intro cached hcached
  obtain ⟨entry, hentry, hunit, hfound⟩ := exists_of_mem_restoredCache hcached
  rw [hunit, hfound]
  exact h.diagnostics entry hentry

/-- Every request is stored, and the cursor stays. -/
theorem readEmits_eq (h : decoded.Consistent) :
    Document.readEmits decoded.content = decoded.pendingEmit := by
  have hall : ∀ entries : List PendingEmit, (∀ entry ∈ entries, entry ∈ decoded.pendingEmit.entries) →
      (entries.filter fun entry => decoded.content.state.graph.contains entry.unit) = entries :=
    fun entries hentries => List.filter_eq_self.mpr fun entry hentry =>
      h.emits entry (hentries entry hentry)
  have hconsumed : decoded.pendingEmit.consumed.length = decoded.pendingEmit.cursor := by
    rw [EmitQueue.consumed, List.length_take]
    exact Nat.min_eq_left h.queue
  show EmitQueue.mk (decoded.pendingEmit.entries.filter _)
    (decoded.pendingEmit.consumed.filter _).length = _
  rw [hall decoded.pendingEmit.entries fun _ hentry => hentry,
    hall decoded.pendingEmit.consumed fun _ hentry => List.mem_of_mem_take hentry, hconsumed]

end Consistent

end Decoded

namespace Document

variable {d : Document} {tool expected : String} {decoded again : Decoded}

/-- A consistent content is found again in its document, with the graph of the stored edges. -/
theorem exists_repeats (tool : String) (h : decoded.Consistent) :
    ∃ again, (encode tool decoded.content).decode tool = .ok again ∧ again.Repeats decoded
      ∧ again.state.graph = decoded.state.graph.stored := by
  have hs : decoded.content.state.WellFormed := h.state
  obtain ⟨g, hpaths, htracking, hdependents, hread⟩ : ∃ g : Graph, _ ∧ _ ∧ _
      ∧ (encode tool decoded.content).decode tool = .ok (readBack decoded.content g) :=
    decode_encode hs h.regular
  have hgraph : g = decoded.state.graph.stored := graph_of_decode_encode hs h.regular h.listsOnce hread
  have hrecords : (readBack decoded.content g).state.records = decoded.state.records := by
    show decoded.state.records.map _ = _
    rw [List.map_congr_left h.bare, List.map_id']
  have hversions : ∀ path, (readBack decoded.content g).state.versionOf? path
      = decoded.state.versionOf? path := by
    intro path
    have hsame := State.recordOf?_congr hpaths hrecords path
    rw [State.versionOf?_eq_map_recordOf?, State.versionOf?_eq_map_recordOf?, ← hsame]
  refine ⟨readBack decoded.content g, hread, ⟨hpaths, hrecords, htracking, fun id => ?_, hdependents,
    fun id => ?_, h.readEmits_eq, ?_, ?_, rfl⟩, hgraph⟩
  · show g.dependenciesOf id = _
    rw [hgraph]
    exact h.regular.dependenciesOf_stored id
  · show (g.exportersOf id).Perm _
    rw [hgraph]
    exact Graph.exportersOf_stored_perm _ id
  · exact List.filter_eq_self.mpr h.checks
  · have hcache : Program.restoredCache (readBack decoded.content g) = _ :=
      Program.restoredCache_readBack_of_current rfl (Program.sorted_restoredCache decoded)
        (Decoded.current_restoredCache decoded) hversions
    rw [hcache]
    exact Program.relocatedCache_eq h.unit_eq_of_mem_restoredCache

/-- What is found again is stored as before. -/
theorem encode_content_eq (tool : String) (h : again.Repeats decoded)
    (himports : again.state.graph.dependencyEdges = decoded.state.graph.dependencyEdges)
    (hexports : again.state.graph.exportEdges = decoded.state.graph.exportEdges) :
    encode tool again.content = encode tool decoded.content := by
  have hid : ∀ path, again.state.graph.idOf? path = decoded.state.graph.idOf? path := by
    intro path
    rw [Graph.idOf?, Graph.idOf?, h.paths]
  have hentries : again.state.entries = decoded.state.entries := by
    rw [State.entries, State.entries, h.paths, h.records]
  have hemit : encodeEmit again.state.graph = encodeEmit decoded.state.graph := by
    funext entry
    rw [encodeEmit, encodeEmit, hid]
  have hcheck : encodeCheck again.state.graph = encodeCheck decoded.state.graph := by
    funext check
    rw [encodeCheck, encodeCheck, hid]
  have hcached : encodeCached again.state = encodeCached decoded.state := by
    funext entry
    simp only [encodeCached, hid, State.info?, State.record?, h.records]
  simp only [encode, Decoded.content, hentries, himports, hexports, hemit, hcheck, hcached, h.tracking,
    h.pendingEmit, h.pendingCheck, h.cache, h.optionsHash]

/-- What was found in an accepted document is found again in the document that it is stored as, and is
stored as it is from then on. -/
theorem exists_again (h : d.decode tool = .ok decoded) :
    ∃ again, (encode tool decoded.content).decode tool = .ok again ∧ again.Repeats decoded
      ∧ encode tool again.content = encode tool decoded.content := by
  have hconsistent := consistent_of_decode h
  obtain ⟨again, hread, hrepeats, hgraph⟩ := exists_repeats tool hconsistent
  refine ⟨again, hread, hrepeats, encode_content_eq tool hrepeats ?_ ?_⟩
  · rw [hgraph]
    exact Graph.dependencyEdges_stored hconsistent.regular
  · rw [hgraph]
    exact Graph.exportEdges_stored _

/-- **Documents have a canonical form.**  What was found in an accepted text is stored as a text that is
accepted.  The same units with the same records, the same dependencies and dependents, the same queue of
emits, the same pending checks, the same diagnostics and the same options are found in it, and it is stored
as it is.  This holds however the text is laid out, and whatever the document repeats or leaves out. -/
theorem encode_canonical {stored : String} (h : read tool stored = .ok decoded) :
    ∃ again, read tool (encode tool decoded.content).text = .ok again ∧ again.Repeats decoded
      ∧ encode tool again.content = encode tool decoded.content := by
  obtain ⟨d, hfits, hdecode⟩ := exists_of_read h
  obtain ⟨again, hagain, hrepeats, hsame⟩ := exists_again hdecode
  have hroom := (refers_of_decode hdecode).hasRoom (consistent_of_decode hdecode).regular hfits
  have htool : (encode tool decoded.content).toolVersion = tool := rfl
  refine ⟨again, ?_, hrepeats, hsame⟩
  rw [read_text htool, if_pos hroom.fits_encode]
  exact hagain

/-- A document that mentions an edge twice, an edge of a unit to itself, an export edge that has no import
edge, emits, checks and diagnostics of one unit twice, and a cursor past the end. -/
def tangled : Document where
  toolVersion := BuildInfo.toolVersion
  units := [⟨"left", "1", none, true⟩, ⟨"right", "2", some "σ", false⟩]
  dependencyEdges := [(0, 1), (1, 1), (0, 1)]
  exportEdges := [(1, 0), (0, 1), (1, 0)]
  pendingEmit := [⟨1, .types⟩, ⟨1, .full⟩]
  pendingEmitCursor := 7
  pendingCheck := [⟨0, true⟩, ⟨0, false⟩]
  diagnostics := some [(1, []), (0, [⟨.error, 1, "old", none⟩]), (0, [⟨.warning, 2, "new", some 3⟩])]

/-- Of the diagnostics of a unit the last list is stored, and the cursor at the end. -/
theorem encode_canonical_tangled :
    ∃ decoded again, read BuildInfo.toolVersion tangled.text = .ok decoded
      ∧ (encode BuildInfo.toolVersion decoded.content).diagnostics
        = some [(0, [⟨.warning, 2, "new", some 3⟩]), (1, [])]
      ∧ (encode BuildInfo.toolVersion decoded.content).pendingEmitCursor = 2
      ∧ read BuildInfo.toolVersion (encode BuildInfo.toolVersion decoded.content).text = .ok again
      ∧ again.Repeats decoded
      ∧ encode BuildInfo.toolVersion again.content = encode BuildInfo.toolVersion decoded.content := by
  have htool : tangled.toolVersion = BuildInfo.toolVersion := rfl
  have hfits : tangled.Fits := by decide
  have hdecode : ∃ decoded, tangled.decode BuildInfo.toolVersion = .ok decoded
      ∧ (encode BuildInfo.toolVersion decoded.content).diagnostics
        = some [(0, [⟨.warning, 2, "new", some 3⟩]), (1, [])]
      ∧ (encode BuildInfo.toolVersion decoded.content).pendingEmitCursor = 2 :=
    ⟨_, rfl, by decide, by decide⟩
  obtain ⟨decoded, hdecode, hdiagnostics, hcursor⟩ := hdecode
  have hstored : read BuildInfo.toolVersion tangled.text = .ok decoded := by
    rw [read_text htool, if_pos hfits]
    exact hdecode
  obtain ⟨again, hread, hrepeats, hsame⟩ := encode_canonical hstored
  exact ⟨decoded, again, hstored, hdiagnostics, hcursor, hread, hrepeats, hsame⟩

end Document

end BuildInfo

end Rebuild
