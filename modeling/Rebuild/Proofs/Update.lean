import Rebuild.Proofs.Frontier

/-!
# Updates

What a new snapshot makes of a program.  The round starts with a tidy program in which nothing is
processed.  Among the units that wait are

* the units that are new or have another version (`Program.mem_frontier_update_of_changed`);
* the units that depended on one that is gone (`Program.mem_frontier_update_of_orphaned`);
* the units that waited before (`Program.mem_frontier_update_of_owed`);
* all units, when everything is forced or a global unit is gone
  (`Program.mem_frontier_update_of_everything`).

The cached diagnostics of a unit with an unchanged version stay, unless the unit waits
(`Program.find?_cache_update`).
-/

namespace Rebuild

namespace Root

theorem mem_units_insert {roots : List Root} {root : Root} {id : UnitId} :
    id ∈ (insert roots root).map (·.unit) ↔ id ∈ roots.map (·.unit) ∨ id = root.unit := by
  rw [insert]
  split
  · rename_i hany
    obtain ⟨other, hother, hsame⟩ := List.any_eq_true.mp hany
    have hunits : ∀ r : Root, (if r.unit = root.unit then
        { r with isGlobal := r.isGlobal || root.isGlobal } else r).unit = r.unit := by
      intro r
      split
      · rfl
      · rfl
    rw [List.map_map]
    simp only [Function.comp_def, hunits]
    refine ⟨Or.inl, fun hid => hid.elim (fun h => h) ?_⟩
    rintro rfl
    rw [← show other.unit = root.unit by simpa using hsame]
    exact List.mem_map_of_mem hother
  · simp

theorem mem_units_foldl_insert {roots acc : List Root} {id : UnitId} :
    id ∈ (roots.foldl insert acc).map (·.unit)
      ↔ id ∈ acc.map (·.unit) ∨ id ∈ roots.map (·.unit) := by
  induction roots generalizing acc with
  | nil => simp
  | cons root rest ih =>
      rw [List.foldl_cons, ih, mem_units_insert, List.map_cons, List.mem_cons, or_assoc]

/-- Merging loses no unit and adds none. -/
theorem mem_units_merge (roots : List Root) {id : UnitId} :
    id ∈ (merge roots).map (·.unit) ↔ id ∈ roots.map (·.unit) := by
  rw [merge, mem_units_foldl_insert]
  simp

end Root

namespace Program

variable {η : Type} {p : Program η} {s : Snapshot} {id : UnitId}

/-! ### What is carried over -/

theorem mem_pendingRoots : id ∈ p.pendingRoots.map (·.unit) ↔ p.Owed id := by
  have hunits : (p.passRoots ++ p.roots).map (·.unit) = p.frontier := by
    rw [frontier, List.map_append, passRoots]
    cases p.current with
    | none => rfl
    | some pass =>
        rw [List.map_map]
        simp [Function.comp_def]
  rw [Owed, ← hunits, ← Root.mem_units_merge (p.passRoots ++ p.roots), pendingRoots]
  constructor
  · intro hid
    obtain ⟨root, hroot, rfl⟩ := List.mem_map.mp hid
    obtain ⟨hmem, hfresh⟩ := List.mem_filter.mp hroot
    exact ⟨List.mem_map_of_mem hmem, by simpa using hfresh⟩
  · rintro ⟨hid, hfresh⟩
    obtain ⟨root, hmem, rfl⟩ := List.mem_map.mp hid
    exact List.mem_map_of_mem (List.mem_filter.mpr ⟨hmem, by simpa using hfresh⟩)

/-- The checks that are carried over are those of the units that wait. -/
theorem mem_pendingChecks {path : UnitPath} :
    path ∈ p.pendingChecks.map (·.unit) ↔ ∃ id, p.Owed id ∧ p.state.graph.pathOf id = path := by
  have hunits : p.pendingChecks.map (·.unit)
      = (p.pendingRoots.map (·.unit)).map p.state.graph.pathOf := by
    simp [pendingChecks, List.map_map, Function.comp_def]
  rw [hunits, List.mem_map]
  simp only [mem_pendingRoots]

theorem mem_carriedRoots {g : Graph} {checks : List PendingCheck} :
    id ∈ (carriedRoots g checks).map (·.unit)
      ↔ ∃ path ∈ checks.map (·.unit), g.idOf? path = some id := by
  simp only [carriedRoots, List.mem_map, List.mem_filterMap, Option.map_eq_some_iff]
  constructor
  · rintro ⟨root, ⟨check, hcheck, unit, hunit, rfl⟩, rfl⟩
    exact ⟨check.unit, ⟨check, hcheck, rfl⟩, hunit⟩
  · rintro ⟨path, ⟨check, hcheck, rfl⟩, hid⟩
    exact ⟨_, ⟨check, hcheck, id, hid, rfl⟩, rfl⟩

/-! ### The roots of a round -/

theorem mem_roundRoots_of_mem {g : Graph} {delta : Delta} {forced : Bool} {carried : List Root}
    (hchanged : ∀ id ∈ delta.changed, id < g.size) (horphaned : ∀ id ∈ delta.orphaned, id < g.size)
    (hid : id ∈ delta.changed ∨ id ∈ delta.orphaned ∨ id ∈ carried.map (·.unit)) :
    id ∈ (roundRoots g delta forced carried).map (·.unit) := by
  rw [roundRoots]
  split
  · rw [Root.mem_units_merge, List.map_append, List.mem_append]
    rcases hid with hid | hid | hid
    · exact Or.inl (by simpa [Graph.mem_units] using hchanged id hid)
    · exact Or.inl (by simpa [Graph.mem_units] using horphaned id hid)
    · exact Or.inr hid
  · rw [Root.mem_units_merge]
    simp only [List.map_append, List.map_map, List.mem_append, Function.comp_def, List.map_id']
    exact or_assoc.mpr hid

theorem lt_size_of_mem_roundRoots {g : Graph} {delta : Delta} {forced : Bool} {carried : List Root}
    (hchanged : ∀ id ∈ delta.changed, id < g.size) (horphaned : ∀ id ∈ delta.orphaned, id < g.size)
    (hcarried : ∀ id ∈ carried.map (·.unit), id < g.size)
    (hid : id ∈ (roundRoots g delta forced carried).map (·.unit)) : id < g.size := by
  rw [roundRoots] at hid
  split at hid
  · rw [Root.mem_units_merge, List.map_append, List.mem_append] at hid
    rcases hid with hid | hid
    · simpa [Graph.mem_units] using hid
    · exact hcarried id hid
  · rw [Root.mem_units_merge] at hid
    simp only [List.map_append, List.map_map, List.mem_append, Function.comp_def, List.map_id']
      at hid
    rcases hid with (hid | hid) | hid
    · exact hchanged id hid
    · exact horphaned id hid
    · exact hcarried id hid

/-! ### The start of a round -/

@[simp] theorem state_update :
    (p.update s).state = State.ofSnapshot s p.options.dependencyTracking p.state := rfl

@[simp] theorem processed_update : (p.update s).processed = [] := rfl

theorem frontier_update :
    (p.update s).frontier
      = (roundRoots (s.graph p.options.dependencyTracking)
          ((State.ofSnapshot s p.options.dependencyTracking p.state).diff p.state) p.forceAll
          (carriedRoots (s.graph p.options.dependencyTracking) p.pendingChecks)).map (·.unit) := rfl

/-- A round starts tidy, whatever the program was before. -/
theorem tidy_update (p : Program η) (s : Snapshot) : (p.update s).Tidy where
  wellFormed := State.wellFormed_ofSnapshot
  landed := by simp [update]
  accounts := by simp [update]
  finished := by simp [update]
  bounded := by
    intro id hid
    rw [frontier_update] at hid
    refine lt_size_of_mem_roundRoots (fun _ h => State.lt_size_of_mem_changed_diff h)
      (fun _ h => State.lt_size_of_mem_orphaned_diff h) (fun id hid => ?_) hid
    obtain ⟨path, _, hpath⟩ := mem_carriedRoots.mp hid
    exact Graph.lt_size_of_idOf? hpath

theorem mem_frontier_update_of_mem
    (hid : id ∈ ((State.ofSnapshot s p.options.dependencyTracking p.state).diff p.state).changed
      ∨ id ∈ ((State.ofSnapshot s p.options.dependencyTracking p.state).diff p.state).orphaned
      ∨ id ∈ (carriedRoots (s.graph p.options.dependencyTracking) p.pendingChecks).map (·.unit)) :
    id ∈ (p.update s).frontier := by
  rw [frontier_update]
  exact mem_roundRoots_of_mem (fun _ h => State.lt_size_of_mem_changed_diff h)
    (fun _ h => State.lt_size_of_mem_orphaned_diff h) hid

/-- A unit that is new or has another version waits. -/
theorem mem_frontier_update_of_changed {unit : SourceUnit}
    (hunit : s.units[id]? = some unit)
    (hchanged : ∀ info, p.state.infoOf? unit.path = some info → info.version ≠ unit.version) :
    id ∈ (p.update s).frontier := by
  refine mem_frontier_update_of_mem (Or.inl (State.mem_changed_diff.mpr ?_))
  have hid : (s.graph p.options.dependencyTracking).idOf? unit.path = some id :=
    Snapshot.idOf?_graph_eq_some_iff.mpr (by rw [hunit]; rfl)
  rw [State.getElem?_entries State.wellFormed_ofSnapshot, State.record?_ofSnapshot, hunit]
  refine ⟨_, rfl, ?_⟩
  rw [State.graph_ofSnapshot, Graph.pathOf_of_idOf? hid, State.isChanged]
  cases hinfo : p.state.infoOf? unit.path with
  | none => rfl
  | some info => simpa using hchanged info hinfo

/-- A unit that depended on one that is gone waits. -/
theorem mem_frontier_update_of_orphaned {a b : UnitPath} (himports : p.state.graph.Imports a b)
    (hgone : s.unit? b = none)
    (hid : (s.graph p.options.dependencyTracking).idOf? a = some id) :
    id ∈ (p.update s).frontier := by
  refine mem_frontier_update_of_mem (Or.inr (Or.inl (State.mem_orphaned_diff himports ?_ hid)))
  have hsome := Snapshot.idOf?_graph_isSome s p.options.dependencyTracking b
  rw [hgone] at hsome
  simpa using hsome

/-- A unit that waited and is still there waits again. -/
theorem mem_frontier_update_of_owed {old : UnitId} (howed : p.Owed old)
    (hid : (s.graph p.options.dependencyTracking).idOf? (p.state.graph.pathOf old) = some id) :
    id ∈ (p.update s).frontier := by
  refine mem_frontier_update_of_mem (Or.inr (Or.inr (mem_carriedRoots.mpr ?_)))
  exact ⟨_, mem_pendingChecks.mpr ⟨old, howed, rfl⟩, hid⟩

/-- Every unit waits when everything is forced or a global unit is gone. -/
theorem mem_frontier_update_of_everything
    (h : p.forceAll = true ∨ ∃ path info, p.state.infoOf? path = some info ∧ info.isGlobal = true
      ∧ s.unit? path = none)
    (hid : id < s.units.length) : id ∈ (p.update s).frontier := by
  have hforced : (p.forceAll || ((State.ofSnapshot s p.options.dependencyTracking p.state).diff
      p.state).removedGlobal) = true := by
    rcases h with hforce | ⟨path, info, hinfo, hglobal, hgone⟩
    · rw [hforce, Bool.true_or]
    · rw [State.removedGlobal_diff hinfo hglobal, Bool.or_true]
      have hsome := Snapshot.idOf?_graph_isSome s p.options.dependencyTracking path
      rw [hgone] at hsome
      simpa using hsome
  rw [frontier_update, roundRoots, if_pos hforced, Root.mem_units_merge, List.map_append,
    List.mem_append]
  exact Or.inl (by simpa [Graph.mem_units] using hid)

/-- Cached diagnostics stay when the version is the same and the unit does not wait. -/
theorem find?_cache_update {path : UnitPath} {unit : SourceUnit} {entry : CacheEntry}
    (hid : (s.graph p.options.dependencyTracking).idOf? path = some id)
    (hunit : s.unit? path = some unit) (hentry : p.cache.find? path = some entry)
    (hversion : unit.version = entry.version) (hwaits : id ∉ (p.update s).frontier) :
    (p.update s).cache.find? path = some entry := by
  have hinfo : (State.ofSnapshot s p.options.dependencyTracking p.state).infoOf? path
      = some (UnitRecord.next (p.state.recordOf? path) unit).info := by
    rw [State.infoOf?, State.recordOf?_ofSnapshot, hunit]
    rfl
  have hretain := Cache.find?_retainCurrent hentry hinfo (by rw [UnitRecord.next_version, hversion])
  rw [update, Cache.find?_invalidateAll, if_neg, hretain]
  intro hmem
  obtain ⟨root, hroot, hpath⟩ := List.mem_map.mp hmem
  have hwaiting : root.unit ∈ (p.update s).frontier := by
    rw [frontier_update]
    exact List.mem_map_of_mem hroot
  have hsize := (tidy_update p s).bounded _ hwaiting
  have hsame := Graph.idOf?_pathOf Snapshot.graph_nodup hsize
  rw [show (s.graph p.options.dependencyTracking).pathOf root.unit = path from hpath, hid] at hsame
  cases hsame
  exact hwaits hwaiting

end Program

end Rebuild
