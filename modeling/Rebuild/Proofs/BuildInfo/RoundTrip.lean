import Rebuild.Proofs.Cache
import Rebuild.Proofs.EmitQueue
import Rebuild.Proofs.Restore

/-!
# Documents that are read back

A document holds its content up to what it leaves out: requests for units outside the program,
diagnostics that were found at another version, the units that diagnostics name, and the order in which
edges were found.

* `Graph.Regular`: edges join units of the graph, and every export edge is an import edge;
* `Graph.exists_ofIndexed`: the stored edges of a regular graph make a graph with the same units and the
  same dependents;
* `BuildInfo.Document.readBack`: what is expected from a document, and
  `BuildInfo.Document.decode_encode`: what is read from it;
* `BuildInfo.Document.HasRoom`: the numbers of some content fit, and `BuildInfo.Document.fits_encode`: they
  do where there are no more units than words, if the cursor and the diagnostics fit.
-/

namespace Rebuild

/-! ### Edges -/

namespace Edges

variable {e : Edges} {edge : UnitId × UnitId} {edges : List (UnitId × UnitId)}

theorem mem_imports_foldl_addImport :
    edge ∈ (edges.foldl addImport e).imports ↔ edge ∈ e.imports ∨ edge ∈ edges := by
  induction edges generalizing e with
  | nil => simp
  | cons first rest ih =>
      rw [List.foldl_cons, ih, addImport, mem_insertLast, List.mem_cons, or_assoc]

theorem mem_imports_foldl_addExport :
    edge ∈ (edges.foldl addExport e).imports ↔ edge ∈ e.imports ∨ edge ∈ edges := by
  induction edges generalizing e with
  | nil => simp
  | cons first rest ih =>
      rw [List.foldl_cons, ih, addExport, mem_insertLast, List.mem_cons, or_assoc]

end Edges

namespace Graph

variable {g : Graph}

/-- Edges join units of the graph, and every export edge is an import edge. -/
def Regular (g : Graph) : Prop :=
  ∀ e, g.edges = some e → (∀ edge ∈ e.imports, edge.1 < g.size ∧ edge.2 < g.size)
    ∧ ∀ edge ∈ e.exports, edge ∈ e.imports

theorem mem_dependencyEdges {e : Edges} (hedges : g.edges = some e) {edge : UnitId × UnitId} :
    edge ∈ g.dependencyEdges ↔ edge.1 < g.size ∧ edge ∈ e.imports := by
  rw [dependencyEdges, hedges]
  simp only [List.mem_flatMap, List.mem_map, dependenciesOf, hedges, mem_units, List.mem_filter,
    beq_iff_eq]
  constructor
  · intro h
    obtain ⟨unit, hunit, dep, ⟨other, ⟨hother, hsource⟩, htarget⟩, hedge⟩ := h
    rw [← hsource, ← htarget] at hedge
    rw [← hedge, hsource]
    exact ⟨hunit, by rw [← hsource]; exact hother⟩
  · intro h
    exact ⟨edge.1, h.1, edge.2, ⟨edge, ⟨h.2, rfl⟩, rfl⟩, rfl⟩

theorem mem_exportEdges {e : Edges} (hedges : g.edges = some e) {edge : UnitId × UnitId} :
    edge ∈ g.exportEdges ↔ edge ∈ e.exports := by
  rw [exportEdges, hedges]
  exact List.mem_mergeSort

/-- The edges that are stored join units of the graph. -/
theorem Regular.lt_size_of_mem (h : g.Regular) {edge : UnitId × UnitId}
    (hedge : edge ∈ g.dependencyEdges ++ g.exportEdges) : edge.1 < g.size ∧ edge.2 < g.size := by
  cases hedges : g.edges with
  | none => simp [dependencyEdges, exportEdges, hedges] at hedge
  | some e =>
      obtain ⟨hbounded, hbacked⟩ := h e hedges
      rcases List.mem_append.mp hedge with himport | hexport
      · exact hbounded edge ((mem_dependencyEdges hedges).mp himport).2
      · exact hbounded edge (hbacked edge ((mem_exportEdges hedges).mp hexport))

/-- No stored edge leads outside. -/
theorem Regular.firstOutside?_stored (h : g.Regular) :
    firstOutside? g.paths.length (g.dependencyEdges ++ g.exportEdges) = none := by
  rw [firstOutside?, List.find?_eq_none]
  intro index hindex
  obtain ⟨edge, hedge, hend⟩ := List.mem_flatMap.mp hindex
  obtain ⟨hsource, htarget⟩ := h.lt_size_of_mem hedge
  rcases List.mem_cons.mp hend with hfirst | hsecond
  · rw [hfirst, Bool.not_eq_true', Bool.not_eq_false, decide_eq_true_iff]
    exact hsource
  · rw [List.mem_singleton.mp hsecond, Bool.not_eq_true', Bool.not_eq_false, decide_eq_true_iff]
    exact htarget

/-- The graph that is made of the stored edges has the same units and the same dependents. -/
theorem exists_ofIndexed (hnodup : g.paths.Nodup) (h : g.Regular) :
    ∃ g', ofIndexed g.paths g.dependencyEdges g.exportEdges g.tracking = .ok g'
      ∧ g'.paths = g.paths ∧ g'.tracking = g.tracking
      ∧ ∀ id, g'.dependentsOf id = g.dependentsOf id := by
  have hdistinct : ¬ g.paths.eraseDups.length ≠ g.paths.length := by
    rw [not_not]
    exact (length_eraseDups_eq_iff _).mpr hnodup
  rw [ofIndexed, if_neg hdistinct]
  cases hedges : g.edges with
  | none =>
      have htracking : g.tracking = false := by rw [tracking, hedges]; rfl
      rw [htracking]
      refine ⟨⟨g.paths, none⟩, rfl, rfl, rfl, fun id => ?_⟩
      rw [dependentsOf, dependentsOf, hedges]
      rfl
  | some e =>
      have htracking : g.tracking = true := by rw [tracking, hedges]; rfl
      obtain ⟨hbounded, hbacked⟩ := h e hedges
      rw [htracking, if_pos rfl, h.firstOutside?_stored]
      refine ⟨_, rfl, rfl, rfl, fun id => ?_⟩
      rw [dependentsOf, dependentsOf, hedges]
      refine List.filter_congr fun unit _ => ?_
      rw [Bool.eq_iff_iff, List.contains_iff_mem, List.contains_iff_mem,
        Edges.mem_imports_foldl_addExport, Edges.mem_imports_foldl_addImport,
        mem_dependencyEdges hedges, mem_exportEdges hedges]
      constructor
      · intro hmem
        rcases hmem with (hnone | himport) | hexport
        · cases hnone
        · exact himport.2
        · exact hbacked _ hexport
      · intro himport
        exact Or.inl (Or.inr ⟨(hbounded _ himport).1, himport⟩)

/-! ### Graphs that were built are regular -/

theorem regular_build (reported : List (UnitPath × List Dependency)) (tracking : Bool) :
    (build reported tracking).Regular := by
  intro e hedges
  cases tracking with
  | false => cases hedges
  | true =>
      obtain rfl := Option.some.inj ((edges_build reported).symm.trans hedges)
      let bare : Graph := ⟨reported.map (·.1), none⟩
      refine foldl_addUnit_induct (g := bare)
        (P := fun e => (∀ edge ∈ e.imports, edge.1 < bare.size ∧ edge.2 < bare.size)
          ∧ ∀ edge ∈ e.exports, edge ∈ e.imports)
        (fun e a b ha hb he => ?_) (fun e a b ha hb he => ?_) ⟨by simp, by simp⟩
      · refine ⟨fun edge hedge => ?_, fun edge hedge => ?_⟩
        · rcases Edges.mem_insertLast.mp hedge with hold | rfl
          · exact he.1 edge hold
          · exact ⟨ha, hb⟩
        · exact Edges.mem_insertLast.mpr (Or.inl (he.2 edge hedge))
      · refine ⟨fun edge hedge => ?_, fun edge hedge => ?_⟩
        · rcases Edges.mem_insertLast.mp hedge with hold | rfl
          · exact he.1 edge hold
          · exact ⟨ha, hb⟩
        · rcases Edges.mem_insertLast.mp hedge with hold | rfl
          · exact Edges.mem_insertLast.mpr (Or.inl (he.2 edge hold))
          · exact Edges.mem_insertLast.mpr (Or.inr rfl)

end Graph

theorem Snapshot.regular_graph (s : Snapshot) (tracking : Bool) : (s.graph tracking).Regular :=
  Graph.regular_build _ tracking

namespace BuildInfo.Document

variable {tool : String} {content : Content}

/-! ### Reading back -/

/-- Entries that are stored one by one and read back one by one. -/
theorem mapM_filterMap {α β γ : Type} {write : α → Option β} {read : β → Except Error γ}
    {keep : α → Option γ} {xs : List α}
    (h : ∀ x ∈ xs, (write x = none ∧ keep x = none)
      ∨ ∃ stored found, write x = some stored ∧ read stored = .ok found ∧ keep x = some found) :
    (xs.filterMap write).mapM read = .ok (xs.filterMap keep) := by
  induction xs with
  | nil => rfl
  | cons x rest ih =>
      have hrest := ih fun y hy => h y (List.mem_cons_of_mem _ hy)
      rcases h x List.mem_cons_self with ⟨hwrite, hkeep⟩ | ⟨stored, found, hwrite, hread, hkeep⟩
      · rw [List.filterMap_cons_none hwrite, List.filterMap_cons_none hkeep]
        exact hrest
      · rw [List.filterMap_cons_some hwrite, List.filterMap_cons_some hkeep, List.mapM_cons, hread,
          hrest]
        rfl

theorem filterMap_ite {α : Type} (keep : α → Bool) (xs : List α) :
    xs.filterMap (fun x => if keep x then some x else none) = xs.filter keep := by
  rw [← List.filterMap_eq_filter]
  congr 1

/-- The path of a unit is found at its number. -/
theorem pathAt_encode (hs : content.state.WellFormed) (subject : String) {path : UnitPath} {id : UnitId}
    (hid : content.state.graph.idOf? path = some id) :
    (encode tool content).pathAt subject id = .ok path := by
  have hpath := Graph.getElem?_paths_of_idOf? hid
  rw [← paths_encode tool hs, List.getElem?_map, Option.map_eq_some_iff] at hpath
  obtain ⟨unit, hunit, rfl⟩ := hpath
  rw [pathAt, hunit]

/-- The diagnostics of an entry, as being about its unit. -/
def relocated (entry : CacheEntry) : List Diagnostic :=
  entry.diagnostics.map fun d => { d with unit := entry.unit }

def readEmits (content : Content) : EmitQueue :=
  let known := fun entry : PendingEmit => content.state.graph.contains entry.unit
  ⟨content.pendingEmit.entries.filter known, (content.pendingEmit.consumed.filter known).length⟩

/-- What is expected from the document of some content, over a graph of its edges. -/
def readBack (content : Content) (g : Graph) : Decoded where
  state := ⟨g, content.state.records.map fun r => { info := r.info }⟩
  pendingEmit := readEmits content
  pendingCheck := content.pendingCheck.filter fun check => content.state.graph.contains check.unit
  diagnostics := (content.cache.map (·.entries)).getD [] |>.filterMap fun entry =>
    if content.state.versionOf? entry.unit = some entry.version then
      some (entry.unit, relocated entry)
    else none
  optionsHash := content.optionsHash

theorem mapM_emits (tool : String) (hs : content.state.WellFormed) (entries : List PendingEmit) :
    ((entries.filterMap (encodeEmit content.state.graph)).mapM fun entry => do
        return PendingEmit.mk (← (encode tool content).pathAt "pending emit" entry.unit) entry.kind)
      = .ok (entries.filter fun entry => content.state.graph.contains entry.unit) := by
  rw [← filterMap_ite]
  refine mapM_filterMap fun entry _ => ?_
  cases hid : content.state.graph.idOf? entry.unit with
  | none => exact Or.inl (by simp [encodeEmit, Graph.contains, hid])
  | some id =>
      refine Or.inr ⟨⟨id, entry.kind⟩, entry, by simp [encodeEmit, hid], ?_, by
        simp [Graph.contains, hid]⟩
      show Except.bind _ _ = _
      rw [pathAt_encode hs "pending emit" hid]
      rfl

theorem mapM_checks (tool : String) (hs : content.state.WellFormed) (checks : List PendingCheck) :
    ((checks.filterMap (encodeCheck content.state.graph)).mapM fun entry => do
        return PendingCheck.mk (← (encode tool content).pathAt "pending check" entry.unit)
          entry.isGlobal)
      = .ok (checks.filter fun check => content.state.graph.contains check.unit) := by
  rw [← filterMap_ite]
  refine mapM_filterMap fun check _ => ?_
  cases hid : content.state.graph.idOf? check.unit with
  | none => exact Or.inl (by simp [encodeCheck, Graph.contains, hid])
  | some id =>
      refine Or.inr ⟨⟨id, check.isGlobal⟩, check, by simp [encodeCheck, hid], ?_, by
        simp [Graph.contains, hid]⟩
      show Except.bind _ _ = _
      rw [pathAt_encode hs "pending check" hid]
      rfl

theorem mapM_cached (tool : String) (hs : content.state.WellFormed) (entries : List CacheEntry) :
    ((entries.filterMap (encodeCached content.state)).mapM
        fun entry : Nat × List CompactDiagnostic => do
          let unit ← (encode tool content).pathAt "diagnostics" entry.1
          return (unit, entry.2.map fun diagnostic : CompactDiagnostic => diagnostic.expand unit))
      = .ok (entries.filterMap fun entry : CacheEntry =>
          if content.state.versionOf? entry.unit = some entry.version then
            some (entry.unit, relocated entry)
          else none) := by
  refine mapM_filterMap fun entry _ => ?_
  cases hid : content.state.graph.idOf? entry.unit with
  | none =>
      have hgone : content.state.versionOf? entry.unit = none := by
        rw [State.versionOf?, State.infoOf?, State.recordOf?, hid]
        rfl
      exact Or.inl ⟨by simp [encodeCached, hid], by simp [hgone]⟩
  | some id =>
      have hversion : content.state.versionOf? entry.unit
          = (content.state.info? id).map (·.version) := by
        rw [State.versionOf?, State.infoOf?, State.recordOf?_of_idOf? hid]
        rfl
      rw [hversion]
      cases hinfo : content.state.info? id with
      | none => exact Or.inl ⟨by simp [encodeCached, hid, hinfo], by simp⟩
      | some info =>
          by_cases hsame : info.version = entry.version
          · refine Or.inr ⟨(id, entry.diagnostics.map Diagnostic.toCompact), (entry.unit, relocated entry),
              by simp [encodeCached, hid, hinfo, hsame], ?_, by simp [hsame]⟩
            show Except.bind _ _ = _
            rw [pathAt_encode hs "diagnostics" hid]
            show Except.ok (entry.unit, (entry.diagnostics.map _).map _) = _
            rw [List.map_map]
            rfl
          · exact Or.inl ⟨by simp [encodeCached, hid, hinfo, hsame], by simp [hsame]⟩

/-- The units of a document are read back as what was known about them. -/
theorem map_decodeUnit_encode (hs : content.state.WellFormed) :
    (encode tool content).units.map decodeUnit = content.state.records.map (·.info) := by
  show (content.state.entries.map encodeUnit).map decodeUnit = _
  rw [List.map_map, State.entries]
  have hread : decodeUnit ∘ encodeUnit = Prod.snd := funext fun unit => decodeUnit_encodeUnit unit
  rw [hread]
  apply List.map_snd_zip
  rw [List.length_map, hs.length]
  exact Nat.le_refl _

/-- The cursor of a document stands behind the requests that were handed out. -/
theorem cursor_encode (g : Graph) (q : EmitQueue) :
    min (q.consumed.filterMap (encodeEmit g)).length (q.entries.filter fun entry => g.contains entry.unit).length
      = (q.consumed.filter fun entry => g.contains entry.unit).length := by
  have hlength : (q.consumed.filterMap (encodeEmit g)).length
      = (q.consumed.filter fun entry => g.contains entry.unit).length := by
    rw [List.length_filterMap_eq_countP, ← List.countP_eq_length_filter]
    refine List.countP_congr fun entry _ => ?_
    simp [encodeEmit, Graph.contains]
  rw [hlength]
  refine Nat.min_eq_left (List.Sublist.length_le ?_)
  exact (List.take_sublist _ _).filter _

/-- **What is read back from a document.** -/
theorem decode_encode (hs : content.state.WellFormed) (hregular : content.state.graph.Regular) :
    ∃ g : Graph, g.paths = content.state.graph.paths ∧ g.tracking = content.state.graph.tracking
      ∧ (∀ id, g.dependentsOf id = content.state.graph.dependentsOf id)
      ∧ (encode tool content).decode tool = .ok (readBack content g) := by
  obtain ⟨g, hgraph, hpaths, htracking, hdependents⟩ := Graph.exists_ofIndexed hs.nodup hregular
  refine ⟨g, hpaths, htracking, hdependents, ?_⟩
  have hstate : State.ofParts g ((encode tool content).units.map decodeUnit)
      = .ok (readBack content g).state := by
    have hsize : g.size = (content.state.records.map (·.info)).length := by
      rw [List.length_map, hs.length, Graph.size, hpaths]
      rfl
    rw [map_decodeUnit_encode hs, State.ofParts, if_pos hsize, List.map_map]
    rfl
  have hdiagnostics : (encode tool content).diagnostics.getD []
      = ((content.cache.map (·.entries)).getD []).filterMap (encodeCached content.state) := by
    show (content.cache.map _).getD [] = _
    cases content.cache with
    | none => rfl
    | some cache => rfl
  -- the parts of the document, in the order in which they are read
  rw [decode, if_neg (by exact fun hne => hne rfl)]
  show Except.bind (Graph.ofIndexed ((encode tool content).units.map (·.path))
    content.state.graph.dependencyEdges content.state.graph.exportEdges
    content.state.graph.tracking) _ = _
  rw [paths_encode tool hs, hgraph]
  show Except.bind ((content.pendingEmit.entries.filterMap _).mapM _) _ = _
  rw [mapM_emits tool hs]
  show Except.bind ((content.pendingCheck.filterMap _).mapM _) _ = _
  rw [mapM_checks tool hs]
  show Except.bind (((encode tool content).diagnostics.getD []).mapM _) _ = _
  rw [hdiagnostics, mapM_cached tool hs]
  show Except.bind (State.ofParts g ((encode tool content).units.map decodeUnit)) _ = _
  rw [hstate]
  show Except.ok _ = Except.ok _
  congr 1
  show Decoded.mk _ (EmitQueue.ofParts _ (content.pendingEmit.consumed.filterMap _).length) _ _ _ = _
  rw [EmitQueue.ofParts, cursor_encode]
  rfl

/-! ### Room for numbers -/

/-- The numbers of some content fit: the positions of the units that it mentions and the codes and lines of
its diagnostics are words, and the cursor is a number of 64 bits. -/
structure HasRoom (content : Content) : Prop where
  edges : ∀ edge ∈ content.state.graph.dependencyEdges ++ content.state.graph.exportEdges,
    IsWord edge.1 ∧ IsWord edge.2
  emits : ∀ entry ∈ content.pendingEmit.entries, ∀ id,
    content.state.graph.idOf? entry.unit = some id → IsWord id
  cursor : content.pendingEmit.cursor < 18446744073709551616
  checks : ∀ check ∈ content.pendingCheck, ∀ id,
    content.state.graph.idOf? check.unit = some id → IsWord id
  cache : ∀ cache ∈ content.cache, ∀ entry ∈ cache.entries,
    (∀ id, content.state.graph.idOf? entry.unit = some id → IsWord id)
      ∧ ∀ d ∈ entry.diagnostics, d.toCompact.Fits

theorem HasRoom.fits_encode (h : HasRoom content) : (encode tool content).Fits := by
  refine ⟨fun edge hedge => h.edges edge (List.mem_append_left _ hedge),
    fun edge hedge => h.edges edge (List.mem_append_right _ hedge), fun entry hentry => ?_, ?_,
    fun entry hentry => ?_, fun entries hentries entry hentry => ?_⟩
  · obtain ⟨emit, hmem, hemit⟩ := List.mem_filterMap.mp hentry
    obtain ⟨id, hid, rfl⟩ := Option.map_eq_some_iff.mp hemit
    exact h.emits emit hmem id hid
  · refine Nat.lt_of_le_of_lt (List.length_filterMap_le _ _) ?_
    rw [EmitQueue.consumed, List.length_take]
    exact Nat.lt_of_le_of_lt (Nat.min_le_left _ _) h.cursor
  · obtain ⟨check, hmem, hcheck⟩ := List.mem_filterMap.mp hentry
    obtain ⟨id, hid, rfl⟩ := Option.map_eq_some_iff.mp hcheck
    exact h.checks check hmem id hid
  · obtain ⟨cache, hcache, rfl⟩ := Option.map_eq_some_iff.mp hentries
    obtain ⟨cached, hcached, hstored⟩ := List.mem_filterMap.mp hentry
    obtain ⟨hword, hdiagnostics⟩ := h.cache cache hcache cached hcached
    simp only [encodeCached, bind, Option.bind_eq_some_iff] at hstored
    obtain ⟨id, hid, info, _, hstored⟩ := hstored
    split at hstored
    · cases hstored
      refine ⟨hword id hid, fun compact hcompact => ?_⟩
      obtain ⟨d, hd, rfl⟩ := List.mem_map.mp hcompact
      exact hdiagnostics d hd
    · cases hstored

/-- The document of a program fits when the program has at most as many units as there are words, the
cursor is a number of 64 bits, and the codes and lines of the stored diagnostics are words. -/
theorem fits_encode (hregular : content.state.graph.Regular)
    (hsize : content.state.graph.size ≤ 4294967296)
    (hcursor : content.pendingEmit.cursor < 18446744073709551616)
    (hdiagnostics : ∀ cache ∈ content.cache, ∀ entry ∈ cache.entries, ∀ d ∈ entry.diagnostics,
      d.toCompact.Fits) : (encode tool content).Fits := by
  have hword : ∀ {id : Nat}, id < content.state.graph.size → IsWord id :=
    fun hid => Nat.lt_of_lt_of_le hid hsize
  have hunit : ∀ path id, content.state.graph.idOf? path = some id → IsWord id :=
    fun path id hid => hword (Graph.lt_size_of_idOf? hid)
  refine HasRoom.fits_encode ⟨fun edge hedge => ?_, fun entry _ => hunit entry.unit, hcursor,
    fun check _ => hunit check.unit, fun cache hcache entry hentry => ⟨hunit entry.unit, ?_⟩⟩
  · obtain ⟨hsource, htarget⟩ := hregular.lt_size_of_mem hedge
    exact ⟨hword hsource, hword htarget⟩
  · exact hdiagnostics cache hcache entry hentry

end BuildInfo.Document

end Rebuild
