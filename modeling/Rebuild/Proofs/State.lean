import Rebuild.State
import Rebuild.Proofs.Graph

/-!
# Records and cached diagnostics by path

The builder state is a table parallel to the units of its graph.  Here it is read by path:

* `UnitRecord.moves_eq_false_iff`: a signature stays only when it is known and is the one the
  record is compared with;
* `UnitRecord.knownHash?_next`: a new snapshot never changes what the next check is compared with;
* `State.recordOf?_ofSnapshot`: the record of a unit after a new snapshot;
* `State.mem_changed_diff`, `State.mem_orphaned_diff`, `State.removedGlobal_diff`: what the
  difference between two states reports;
* `State.recordOf?_sign`: storing a signature changes the record of one unit;
* `Cache.find?_commit`, `Cache.find?_invalidateAll`, `Cache.find?_retainCurrent`: what is cached
  after each operation.
-/

namespace Rebuild

theorem Signature.eq_known_of_hash? {signature : Signature} {hash : String}
    (h : signature.hash? = some hash) : signature = .known hash := by
  cases signature with
  | unknown => cases h
  | known found =>
      cases h
      rfl

namespace UnitRecord

/-- A signature stays exactly when it is known and equals the digest the record is compared
with. -/
theorem moves_eq_false_iff {r : UnitRecord} {signature : Signature} :
    r.moves signature = false ↔ ∃ hash, r.knownHash? = some hash ∧ signature = .known hash := by
  rcases hs : r.info.signature with _ | current
  · cases hl : r.lastKnown with
    | none => simp [moves, knownHash?, hs, hl, Signature.differs]
    | some old =>
        cases signature with
        | unknown => simp [moves, knownHash?, hs, hl, Signature.differs]
        | known new =>
            simp only [moves, knownHash?, hs, hl, Signature.differs, bne_eq_false_iff_eq,
              Option.some.injEq, Signature.known.injEq, exists_eq_left']
            exact eq_comm
  · cases signature with
    | unknown => simp [moves, knownHash?, hs, Signature.differs]
    | known new =>
        simp only [moves, knownHash?, hs, Signature.differs, bne_eq_false_iff_eq,
          Option.some.injEq, Signature.known.injEq, exists_eq_left']
        exact eq_comm

@[simp] theorem next_version (prior : Option UnitRecord) (unit : SourceUnit) :
    (next prior unit).info.version = unit.version := by
  cases prior with
  | none => rfl
  | some r =>
      simp only [next]
      split
      · assumption
      · rfl

/-- What the next check is compared with survives every new snapshot. -/
theorem knownHash?_next (prior : Option UnitRecord) (unit : SourceUnit) :
    (next prior unit).knownHash? = prior.bind knownHash? := by
  cases prior with
  | none => rfl
  | some r =>
      by_cases hversion : r.info.version = unit.version
      · cases hs : r.info.signature with
        | unknown => simp [next, hversion, knownHash?, hs, Signature.isKnown]
        | known hash => simp [next, hversion, knownHash?, hs]
      · simp [next, hversion, knownHash?, Signature.isKnown]

/-- A unit with an unchanged version keeps what is known about it. -/
theorem next_info_of_version {r : UnitRecord} {unit : SourceUnit}
    (h : r.info.version = unit.version) : (next (some r) unit).info = r.info := by
  simp [next, h]

/-- Right after a check, the digest that was found is the one to compare with. -/
theorem knownHash?_sign (r : UnitRecord) (signature : Signature) :
    (r.sign signature).knownHash? = signature.hash? := by
  cases signature <;> rfl

end UnitRecord

namespace State

/-- The records are parallel to the units of the graph, whose paths are distinct. -/
structure WellFormed (s : State) : Prop where
  nodup : s.graph.paths.Nodup
  length : s.records.length = s.graph.size

theorem record?_of_recordOf? {s : State} {path : UnitPath} {r : UnitRecord}
    (h : s.recordOf? path = some r) :
    ∃ id, s.graph.idOf? path = some id ∧ s.record? id = some r :=
  Option.bind_eq_some_iff.mp h

theorem recordOf?_of_idOf? {s : State} {path : UnitPath} {id : UnitId}
    (h : s.graph.idOf? path = some id) : s.recordOf? path = s.record? id := by
  rw [recordOf?, h]
  rfl

theorem recordOf?_isSome {s : State} (hs : s.WellFormed) (path : UnitPath) :
    (s.recordOf? path).isSome = (s.graph.idOf? path).isSome := by
  cases hid : s.graph.idOf? path with
  | none => simp [recordOf?, hid]
  | some id =>
      have hlt := Graph.lt_size_of_idOf? hid
      rw [recordOf?_of_idOf? hid, record?, List.getElem?_eq_getElem (by rw [hs.length]; exact hlt)]
      rfl

theorem infoOf?_eq_some_iff {s : State} {path : UnitPath} {info : UnitInfo} :
    s.infoOf? path = some info ↔ ∃ r, s.recordOf? path = some r ∧ r.info = info :=
  Option.map_eq_some_iff

/-! ### A new snapshot -/

section OfSnapshot

variable {snapshot : Snapshot} {tracking : Bool} {prior : State}

@[simp] theorem graph_ofSnapshot :
    (ofSnapshot snapshot tracking prior).graph = snapshot.graph tracking := rfl

theorem wellFormed_ofSnapshot : (ofSnapshot snapshot tracking prior).WellFormed where
  nodup := Snapshot.graph_nodup
  length := by rw [ofSnapshot, List.length_map, Snapshot.graph_size]

theorem record?_ofSnapshot (id : UnitId) :
    (ofSnapshot snapshot tracking prior).record? id
      = (snapshot.units[id]?).map fun unit => UnitRecord.next (prior.recordOf? unit.path) unit := by
  rw [record?, ofSnapshot, List.getElem?_map]

/-- The record of a unit of the new snapshot follows the record that its path had before. -/
theorem recordOf?_ofSnapshot (path : UnitPath) :
    (ofSnapshot snapshot tracking prior).recordOf? path
      = (snapshot.unit? path).map (UnitRecord.next (prior.recordOf? path)) := by
  cases hid : (snapshot.graph tracking).idOf? path with
  | none =>
      have hnone : snapshot.unit? path = none := by
        have hsome := Snapshot.idOf?_graph_isSome snapshot tracking path
        rw [hid] at hsome
        simpa using hsome.symm
      rw [recordOf?, graph_ofSnapshot, hid, hnone]
      rfl
  | some id =>
      rw [recordOf?_of_idOf? (by exact hid), record?_ofSnapshot,
        Snapshot.getElem?_units_of_idOf? hid]
      cases hunit : snapshot.unit? path with
      | none => rfl
      | some unit =>
          obtain ⟨_, rfl⟩ := Snapshot.unit?_eq_some_iff.mp hunit
          rfl

end OfSnapshot

/-! ### Differences -/

section Diff

variable {s prior : State}

/-- A unit is reported as changed exactly when it is new or has another version. -/
theorem mem_changed_diff {id : UnitId} :
    id ∈ (s.diff prior).changed
      ↔ ∃ unit, s.entries[id]? = some unit ∧ isChanged prior unit.1 unit.2 = true := by
  simp only [diff, List.mem_map, List.mem_filter]
  constructor
  · rintro ⟨⟨unit, i⟩, ⟨hmem, hchanged⟩, rfl⟩
    exact ⟨unit, by simpa using List.mk_mem_zipIdx_iff_getElem?.mp hmem, hchanged⟩
  · rintro ⟨unit, hunit, hchanged⟩
    exact ⟨(unit, id), ⟨List.mk_mem_zipIdx_iff_getElem?.mpr hunit, hchanged⟩, rfl⟩

theorem lt_size_of_mem_changed_diff {id : UnitId} (h : id ∈ (s.diff prior).changed) :
    id < s.graph.size := by
  obtain ⟨unit, hunit, _⟩ := mem_changed_diff.mp h
  obtain ⟨hlt, _⟩ := List.getElem?_eq_some_iff.mp hunit
  rw [entries, List.length_zip] at hlt
  exact Nat.lt_of_lt_of_le hlt (Nat.min_le_left _ _)

theorem mem_removedIds {id : UnitId} :
    id ∈ s.removedIds prior
      ↔ id < prior.graph.size ∧ s.graph.idOf? (prior.graph.pathOf id) = none := by
  simp [removedIds, Graph.mem_units, Graph.contains]

/-- A unit that is still there and depended on a removed one is reported. -/
theorem mem_orphaned_diff {a b : UnitPath} {id : UnitId} (himports : prior.graph.Imports a b)
    (hgone : s.graph.idOf? b = none) (hid : s.graph.idOf? a = some id) :
    id ∈ (s.diff prior).orphaned := by
  obtain ⟨i, j, hi, hj, hij⟩ := himports
  simp only [diff, List.mem_filter, List.contains_iff_mem, List.mem_flatMap, List.mem_filterMap]
  refine ⟨Graph.mem_units.mpr (Graph.lt_size_of_idOf? hid), j, ?_, i, hij, ?_⟩
  · exact mem_removedIds.mpr ⟨Graph.lt_size_of_idOf? hj, by rw [Graph.pathOf_of_idOf? hj]; exact hgone⟩
  · rw [Graph.pathOf_of_idOf? hi]
    exact hid

/-- Nothing else is reported. -/
theorem exists_imports_of_mem_orphaned_diff (hprior : prior.WellFormed) {id : UnitId}
    (h : id ∈ (s.diff prior).orphaned) :
    ∃ a b, prior.graph.Imports a b ∧ s.graph.idOf? b = none ∧ s.graph.idOf? a = some id := by
  simp only [diff, List.mem_filter, List.contains_iff_mem, List.mem_flatMap, List.mem_filterMap] at h
  obtain ⟨_, j, hgone, i, hij, hid⟩ := h
  obtain ⟨hsize, hnone⟩ := mem_removedIds.mp hgone
  have hi := Graph.idOf?_pathOf hprior.nodup (Graph.lt_size_of_mem_dependentsOf hij)
  have hj := Graph.idOf?_pathOf hprior.nodup hsize
  exact ⟨_, _, ⟨i, j, hi, hj, hij⟩, hnone, hid⟩

theorem lt_size_of_mem_orphaned_diff {id : UnitId} (h : id ∈ (s.diff prior).orphaned) :
    id < s.graph.size :=
  Graph.mem_units.mp (List.mem_filter.mp h).1

/-- A removed unit that was global is reported. -/
theorem removedGlobal_diff {path : UnitPath} {info : UnitInfo}
    (hinfo : prior.infoOf? path = some info) (hglobal : info.isGlobal = true)
    (hgone : s.graph.idOf? path = none) : (s.diff prior).removedGlobal = true := by
  obtain ⟨r, hr, rfl⟩ := infoOf?_eq_some_iff.mp hinfo
  obtain ⟨id, hid, hrecord⟩ := record?_of_recordOf? hr
  simp only [diff, List.any_eq_true]
  refine ⟨id, mem_removedIds.mpr ⟨Graph.lt_size_of_idOf? hid, ?_⟩, ?_⟩
  · rw [Graph.pathOf_of_idOf? hid]
    exact hgone
  · rw [info?, hrecord]
    simpa using hglobal

/-- Only then is a removed unit reported as global. -/
theorem exists_global_of_removedGlobal_diff (hprior : prior.WellFormed)
    (h : (s.diff prior).removedGlobal = true) :
    ∃ path info, prior.infoOf? path = some info ∧ info.isGlobal = true
      ∧ s.graph.idOf? path = none := by
  simp only [diff, List.any_eq_true] at h
  obtain ⟨id, hgone, hglobal⟩ := h
  obtain ⟨hsize, hnone⟩ := mem_removedIds.mp hgone
  cases hinfo : prior.info? id with
  | none =>
      rw [hinfo] at hglobal
      cases hglobal
  | some info =>
      rw [hinfo] at hglobal
      refine ⟨prior.graph.pathOf id, info, ?_, hglobal, hnone⟩
      rw [infoOf?, recordOf?_of_idOf? (Graph.idOf?_pathOf hprior.nodup hsize)]
      exact hinfo

/-- A unit is reported as global exactly when it is changed, and is global or was so before. -/
theorem mem_globalRoots_diff {id : UnitId} :
    id ∈ (s.diff prior).globalRoots
      ↔ ∃ unit, s.entries[id]? = some unit ∧ isChanged prior unit.1 unit.2 = true
        ∧ wasOrIsGlobal prior unit.1 unit.2 = true := by
  simp only [diff, List.mem_map, List.mem_filter]
  constructor
  · rintro ⟨⟨unit, i⟩, ⟨⟨hmem, hchanged⟩, hglobal⟩, rfl⟩
    exact ⟨unit, by simpa using List.mk_mem_zipIdx_iff_getElem?.mp hmem, hchanged, hglobal⟩
  · rintro ⟨unit, hunit, hchanged, hglobal⟩
    exact ⟨(unit, id), ⟨⟨List.mk_mem_zipIdx_iff_getElem?.mpr hunit, hchanged⟩, hglobal⟩, rfl⟩

end Diff

theorem getElem?_entries {s : State} (hs : s.WellFormed) (id : UnitId) :
    s.entries[id]? = (s.record? id).map fun r => (s.graph.pathOf id, r.info) := by
  rw [record?, entries]
  rcases Nat.lt_or_ge id s.graph.size with hlt | hge
  · have hrecords : id < s.records.length := by rw [hs.length]; exact hlt
    have hpaths : id < s.graph.paths.length := hlt
    have hzip : id < (s.graph.paths.zip (s.records.map (·.info))).length := by
      rw [List.length_zip, List.length_map]
      exact Nat.lt_min.mpr ⟨hpaths, hrecords⟩
    rw [List.getElem?_eq_getElem hzip, List.getElem?_eq_getElem hrecords, List.getElem_zip,
      Graph.pathOf, List.getD_eq_getElem?_getD, List.getElem?_eq_getElem hpaths]
    simp
  · have hzip : (s.graph.paths.zip (s.records.map (·.info))).length ≤ id := by
      rw [List.length_zip]
      exact Nat.le_trans (Nat.min_le_left _ _) hge
    rw [List.getElem?_eq_none hzip, List.getElem?_eq_none (by rw [hs.length]; exact hge)]
    rfl

/-! ### Signatures -/

section Sign

variable {s : State} {id : UnitId} {signature : Signature}

@[simp] theorem graph_sign : (s.sign id signature).graph = s.graph := rfl

theorem wellFormed_sign (hs : s.WellFormed) : (s.sign id signature).WellFormed where
  nodup := hs.nodup
  length := by
    show (s.records.modify id _).length = s.graph.size
    rw [List.length_modify, hs.length]

theorem record?_sign_self :
    (s.sign id signature).record? id = (s.record? id).map fun r => r.sign signature := by
  simp [record?, sign]

theorem record?_sign_of_ne {other : UnitId} (h : other ≠ id) :
    (s.sign id signature).record? other = s.record? other := by
  simp [record?, sign, Ne.symm h]

/-- Storing a signature leaves the versions of the records alone. -/
theorem versions_sign :
    (s.sign id signature).records.map (·.info.version) = s.records.map (·.info.version) := by
  refine List.ext_getElem? fun i => ?_
  rw [List.getElem?_map, List.getElem?_map]
  show ((s.sign id signature).record? i).map _ = (s.record? i).map _
  by_cases hi : i = id
  · rw [hi, record?_sign_self, Option.map_map]
    rfl
  · rw [record?_sign_of_ne hi]

/-- A signature stays exactly when it is known and is the one that the unit is compared with. -/
theorem moves_eq_false_iff (hs : s.WellFormed) (hid : id < s.graph.size) :
    s.moves id signature = false
      ↔ ∃ hash, (s.recordOf? (s.graph.pathOf id)).bind (·.knownHash?) = some hash
        ∧ signature = .known hash := by
  rw [recordOf?_of_idOf? (Graph.idOf?_pathOf hs.nodup hid), moves]
  cases hrecord : s.record? id with
  | none =>
      rw [record?, List.getElem?_eq_none_iff, hs.length] at hrecord
      exact absurd hid (Nat.not_lt.mpr hrecord)
  | some r => exact UnitRecord.moves_eq_false_iff

end Sign

end State

/-! ### Cached diagnostics -/

namespace Cache

theorem find?_put (entry : CacheEntry) (unit : UnitPath) (entries : List CacheEntry) :
    (put entry entries).find? (fun e => e.unit == unit)
      = if entry.unit = unit then some entry else entries.find? fun e => e.unit == unit := by
  induction entries with
  | nil =>
      by_cases h : entry.unit = unit
      · simp [put, h]
      · simp [put, h]
  | cons first rest ih =>
      by_cases h : entry.unit = unit
      · subst h
        rw [put]
        split
        · simp
        · split
          · simp
          · rename_i hne
            simp [Ne.symm hne, ih]
      · rw [put]
        split
        · simp [h]
        · split
          · rename_i heq
            simp [h, ← heq]
          · simp [h, List.find?_cons, ih]

theorem find?_commit (c : Cache) (unit other : UnitPath) (version : String)
    (diagnostics : List Diagnostic) :
    (c.commit unit version diagnostics).find? other
      = if unit = other then some ⟨unit, version, diagnostics⟩ else c.find? other :=
  find?_put _ _ _

theorem find?_invalidate (c : Cache) (unit other : UnitPath) :
    (c.invalidate unit).find? other = if unit = other then none else c.find? other := by
  rw [find?, find?, invalidate, List.find?_filter]
  split
  · rename_i h
    subst h
    simp
  · rename_i h
    congr 1
    funext entry
    by_cases he : entry.unit = other
    · simp [he, Ne.symm h]
    · simp [he]

theorem find?_invalidateAll (c : Cache) (units : List UnitPath) (other : UnitPath) :
    (c.invalidateAll units).find? other = if other ∈ units then none else c.find? other := by
  induction units generalizing c with
  | nil => simp [invalidateAll]
  | cons unit units ih =>
      have hstep : c.invalidateAll (unit :: units) = (c.invalidate unit).invalidateAll units := rfl
      rw [hstep, ih, find?_invalidate]
      by_cases hmem : other ∈ units
      · simp [hmem]
      · by_cases hunit : unit = other
        · simp [hunit]
        · simp [hmem, hunit, Ne.symm hunit]

/-- An entry stays when its unit is still there at the version of the entry. -/
theorem find?_retainCurrent {c : Cache} {s : State} {unit : UnitPath} {entry : CacheEntry}
    {info : UnitInfo} (hentry : c.find? unit = some entry) (hinfo : s.infoOf? unit = some info)
    (hversion : info.version = entry.version) : (c.retainCurrent s).find? unit = some entry := by
  have hunit : entry.unit = unit := by simpa using List.find?_some hentry
  rw [find?, retainCurrent, List.find?_filter]
  rw [find?, List.find?_eq_some_iff_append] at hentry
  obtain ⟨_, before, after, hsplit, hbefore⟩ := hentry
  rw [List.find?_eq_some_iff_append]
  refine ⟨?_, before, after, hsplit, ?_⟩
  · simp [hunit, hinfo, hversion]
  · intro other hother
    have hne := hbefore other hother
    simp only [Bool.not_eq_true', beq_eq_false_iff_ne, ne_eq] at hne
    simp [hne]

end Cache

end Rebuild
