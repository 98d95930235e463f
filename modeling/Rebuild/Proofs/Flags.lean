import Mathlib.Data.List.Nodup
import Rebuild.Proofs.Reachable
import Rebuild.Proofs.Pair

/-!
# Global obligations across updates

A unit that is global, or was so before its change, is listed with a flag: its pass still has to reach
every unit.  The flag is carried from round to round by the path of the unit.

* `Root.Flags`: a unit is listed with the flag; `Root.flags_merge`: merging keeps the flags, and
  `Root.nodup_merge`: it lists each unit once;
* `Program.flags_update`: which units are flagged when a round starts;
* `Program.OwesEverything`: a flag is pending, or every unit is;
* `owesEverything_update_iff`: when a round starts so.
-/

namespace Rebuild

namespace Root

/-- A unit is listed with the flag. -/
def Flags (roots : List Root) (id : UnitId) : Prop :=
  ∃ root ∈ roots, root.unit = id ∧ root.isGlobal = true

theorem flags_append {roots more : List Root} {id : UnitId} :
    Flags (roots ++ more) id ↔ Flags roots id ∨ Flags more id := by
  simp only [Flags, List.mem_append, or_and_right, exists_or]

theorem flags_insert {roots : List Root} {root : Root} {id : UnitId} :
    Flags (insert roots root) id ↔ Flags roots id ∨ (root.unit = id ∧ root.isGlobal = true) := by
  rw [insert]
  split
  · rename_i hany
    obtain ⟨same, hsame, hunit⟩ := List.any_eq_true.mp hany
    have hunit : same.unit = root.unit := by simpa using hunit
    constructor
    · rintro ⟨other, hother, rfl, hglobal⟩
      obtain ⟨old, hold, rfl⟩ := List.mem_map.mp hother
      split at hglobal
      · rename_i heq
        rw [if_pos heq]
        rcases Bool.or_eq_true _ _ |>.mp hglobal with hkept | hnew
        · exact Or.inl ⟨old, hold, rfl, hkept⟩
        · exact Or.inr ⟨heq.symm, hnew⟩
      · rename_i hne
        rw [if_neg hne]
        exact Or.inl ⟨old, hold, rfl, hglobal⟩
    · rintro (⟨old, hold, rfl, hglobal⟩ | ⟨rfl, hglobal⟩)
      · refine ⟨_, List.mem_map_of_mem hold, ?_⟩
        split
        · exact ⟨rfl, by rw [hglobal, Bool.true_or]⟩
        · exact ⟨rfl, hglobal⟩
      · refine ⟨_, List.mem_map_of_mem hsame, ?_⟩
        rw [if_pos hunit]
        exact ⟨hunit, by rw [hglobal, Bool.or_true]⟩
  · rw [flags_append]
    simp [Flags]

theorem flags_foldl_insert {roots acc : List Root} {id : UnitId} :
    Flags (roots.foldl insert acc) id ↔ Flags acc id ∨ Flags roots id := by
  induction roots generalizing acc with
  | nil => simp [Flags]
  | cons root rest ih =>
      rw [List.foldl_cons, ih, flags_insert, or_assoc, ← List.singleton_append, flags_append]
      simp [Flags]

/-- Merging keeps the flags and adds none. -/
theorem flags_merge {roots : List Root} {id : UnitId} : Flags (merge roots) id ↔ Flags roots id := by
  rw [merge, flags_foldl_insert]
  simp [Flags]

theorem nodup_insert {roots : List Root} {root : Root} (h : (roots.map (·.unit)).Nodup) :
    ((insert roots root).map (·.unit)).Nodup := by
  rw [insert]
  split
  · have hunits : (fun other : Root => (if other.unit = root.unit then
        { other with isGlobal := other.isGlobal || root.isGlobal } else other).unit)
        = fun other => other.unit := by
      funext other
      split
      · rfl
      · rfl
    rw [List.map_map, Function.comp_def, hunits]
    exact h
  · rename_i hfresh
    rw [List.map_append, List.nodup_append]
    refine ⟨h, by simp, fun a ha b hb hab => hfresh ?_⟩
    obtain ⟨other, hother, rfl⟩ := List.mem_map.mp ha
    refine List.any_eq_true.mpr ⟨other, hother, ?_⟩
    simpa [hab] using hb

/-- Merging lists each unit once. -/
theorem nodup_merge (roots : List Root) : ((merge roots).map (·.unit)).Nodup := by
  rw [merge]
  have hfold : ∀ acc : List Root, (acc.map (·.unit)).Nodup →
      ((roots.foldl insert acc).map (·.unit)).Nodup := by
    induction roots with
    | nil => exact fun acc h => h
    | cons root rest ih => exact fun acc h => ih _ (nodup_insert h)
  exact hfold [] (by simp)

/-- Where each unit is listed once, a flagged unit has the flag wherever it is listed. -/
theorem Flags.isGlobal {roots : List Root} {id : UnitId} (h : Flags roots id)
    (hnodup : (roots.map (·.unit)).Nodup) {root : Root} (hroot : root ∈ roots)
    (hunit : root.unit = id) : root.isGlobal = true := by
  obtain ⟨flagged, hflagged, hsame, hglobal⟩ := h
  rw [List.inj_on_of_nodup_map hnodup hroot hflagged (hunit.trans hsame.symm)]
  exact hglobal

end Root

namespace State

/-- A unit is recorded as global. -/
def RecordsGlobal (s : State) (path : UnitPath) : Prop :=
  ∃ info, s.infoOf? path = some info ∧ info.isGlobal = true

/-- A unit is new, or has another version than the recorded one. -/
def Outdates (s : State) (unit : SourceUnit) : Prop :=
  ∀ info, s.infoOf? unit.path = some info → info.version ≠ unit.version

theorem isChanged_next_iff {prior : State} {unit : SourceUnit} :
    isChanged prior unit.path (UnitRecord.next (prior.recordOf? unit.path) unit).info = true
      ↔ prior.Outdates unit := by
  rw [isChanged, Outdates]
  cases hinfo : prior.infoOf? unit.path with
  | none => simp
  | some info => simp

/-- An outdated unit is recorded as the snapshot has it. -/
theorem isGlobal_next_of_outdates {prior : State} {unit : SourceUnit} (h : prior.Outdates unit) :
    (UnitRecord.next (prior.recordOf? unit.path) unit).info.isGlobal = unit.isGlobal := by
  cases hrecord : prior.recordOf? unit.path with
  | none => rfl
  | some r =>
      have hversion : r.info.version ≠ unit.version :=
        h r.info (infoOf?_eq_some_iff.mpr ⟨r, hrecord, rfl⟩)
      simp [UnitRecord.next, hversion]

theorem wasOrIsGlobal_iff {prior : State} {path : UnitPath} {info : UnitInfo} :
    wasOrIsGlobal prior path info = true ↔ info.isGlobal = true ∨ prior.RecordsGlobal path := by
  rw [wasOrIsGlobal, Bool.or_eq_true, or_comm, RecordsGlobal]
  refine or_congr_right ?_
  cases prior.infoOf? path with
  | none => simp
  | some info => simp

variable {snapshot : Snapshot} {tracking : Bool} {prior : State} {id : UnitId}

/-- The units that a new snapshot changes. -/
theorem mem_changed_ofSnapshot :
    id ∈ ((ofSnapshot snapshot tracking prior).diff prior).changed
      ↔ ∃ unit, snapshot.units[id]? = some unit ∧ prior.Outdates unit := by
  rw [mem_changed_diff]
  simp only [getElem?_entries wellFormed_ofSnapshot, record?_ofSnapshot, Option.map_map,
    Option.map_eq_some_iff, Function.comp_apply]
  constructor
  · rintro ⟨_, ⟨unit, hunit, rfl⟩, hchanged⟩
    refine ⟨unit, hunit, isChanged_next_iff.mp ?_⟩
    rwa [graph_ofSnapshot, Snapshot.pathOf_graph hunit] at hchanged
  · rintro ⟨unit, hunit, houtdates⟩
    refine ⟨_, ⟨unit, hunit, rfl⟩, ?_⟩
    rw [graph_ofSnapshot, Snapshot.pathOf_graph hunit]
    exact isChanged_next_iff.mpr houtdates

/-- The units that a new snapshot flags. -/
theorem mem_globalRoots_ofSnapshot :
    id ∈ ((ofSnapshot snapshot tracking prior).diff prior).globalRoots
      ↔ ∃ unit, snapshot.units[id]? = some unit ∧ prior.Outdates unit
        ∧ (unit.isGlobal = true ∨ prior.RecordsGlobal unit.path) := by
  rw [mem_globalRoots_diff]
  simp only [getElem?_entries wellFormed_ofSnapshot, record?_ofSnapshot, Option.map_map,
    Option.map_eq_some_iff, Function.comp_apply, wasOrIsGlobal_iff]
  constructor
  · rintro ⟨_, ⟨unit, hunit, rfl⟩, hchanged, hglobal⟩
    rw [graph_ofSnapshot, Snapshot.pathOf_graph hunit] at hchanged hglobal
    have houtdates := isChanged_next_iff.mp hchanged
    rw [isGlobal_next_of_outdates houtdates] at hglobal
    exact ⟨unit, hunit, houtdates, hglobal⟩
  · rintro ⟨unit, hunit, houtdates, hglobal⟩
    refine ⟨_, ⟨unit, hunit, rfl⟩, ?_⟩
    rw [graph_ofSnapshot, Snapshot.pathOf_graph hunit, isGlobal_next_of_outdates houtdates]
    exact ⟨isChanged_next_iff.mpr houtdates, hglobal⟩

end State

namespace Program

variable {η : Type} {p : Program η} {s : Snapshot} {id : UnitId} {path : UnitPath}

/-! ### Flags -/

/-- The checks with a flag are those of the units that are flagged and not processed. -/
theorem mem_pendingChecks_flagged :
    ⟨path, true⟩ ∈ p.pendingChecks
      ↔ ∃ id, Root.Flags (p.passRoots ++ p.roots) id ∧ id ∉ p.processed
        ∧ p.state.graph.pathOf id = path := by
  rw [pendingChecks, List.mem_map]
  constructor
  · rintro ⟨root, hroot, hcheck⟩
    obtain ⟨hmerged, hfresh⟩ := List.mem_filter.mp hroot
    injection hcheck with hpath hglobal
    refine ⟨root.unit, Root.flags_merge.mp ⟨root, hmerged, rfl, hglobal⟩, ?_, hpath⟩
    simpa using hfresh
  · rintro ⟨id, hflags, hfresh, rfl⟩
    obtain ⟨root, hroot, rfl, hglobal⟩ := Root.flags_merge.mpr hflags
    refine ⟨root, List.mem_filter.mpr ⟨hroot, by simpa using hfresh⟩, ?_⟩
    rw [hglobal]

theorem flags_carriedRoots {g : Graph} {checks : List PendingCheck} :
    Root.Flags (carriedRoots g checks) id
      ↔ ∃ path, ⟨path, true⟩ ∈ checks ∧ g.idOf? path = some id := by
  simp only [Root.Flags, carriedRoots, List.mem_filterMap, Option.map_eq_some_iff]
  constructor
  · rintro ⟨_, ⟨⟨path, isGlobal⟩, hcheck, unit, hunit, rfl⟩, rfl, hglobal⟩
    cases hglobal
    exact ⟨path, hcheck, hunit⟩
  · rintro ⟨path, hcheck, hid⟩
    exact ⟨_, ⟨_, hcheck, id, hid, rfl⟩, rfl, rfl⟩

/-- The units that are flagged when a round starts: those that a change flags, and those that were
flagged before and are still there. -/
theorem flags_update :
    Root.Flags (p.update s).roots id
      ↔ (∃ unit, s.units[id]? = some unit ∧ p.state.Outdates unit
          ∧ (unit.isGlobal = true ∨ p.state.RecordsGlobal unit.path))
        ∨ ∃ path, ⟨path, true⟩ ∈ p.pendingChecks
          ∧ (s.graph p.options.dependencyTracking).idOf? path = some id := by
  have hglobal : id ∈ ((State.ofSnapshot s p.options.dependencyTracking p.state).diff
      p.state).globalRoots ↔ _ := State.mem_globalRoots_ofSnapshot
  rw [← flags_carriedRoots, ← hglobal]
  show Root.Flags (roundRoots _ _ _ _) id ↔ _
  clear hglobal
  generalize hdelta : (State.ofSnapshot s p.options.dependencyTracking p.state).diff p.state = delta
  have hchanged : id ∈ delta.globalRoots → id ∈ delta.changed := by
    rw [← hdelta, State.mem_globalRoots_ofSnapshot, State.mem_changed_ofSnapshot]
    rintro ⟨unit, hunit, houtdates, _⟩
    exact ⟨unit, hunit, houtdates⟩
  have hsize : id ∈ delta.globalRoots →
      id ∈ (s.graph p.options.dependencyTracking).units := by
    intro hglobal
    refine Graph.mem_units.mpr ?_
    rw [← hdelta] at hchanged hglobal
    exact State.lt_size_of_mem_changed_diff (hchanged hglobal)
  rw [State.graph_ofSnapshot, roundRoots]
  split
  · rw [Root.flags_merge, Root.flags_append]
    refine or_congr_left ?_
    simp only [Root.Flags, List.mem_map]
    constructor
    · rintro ⟨_, ⟨unit, _, rfl⟩, rfl, hglobal⟩
      simpa using hglobal
    · exact fun hglobal => ⟨_, ⟨id, hsize hglobal, rfl⟩, rfl, by simpa using hglobal⟩
  · rw [Root.flags_merge, Root.flags_append, Root.flags_append]
    refine or_congr_left ?_
    simp only [Root.Flags, List.mem_map]
    constructor
    · rintro (⟨_, ⟨unit, _, rfl⟩, rfl, hglobal⟩ | ⟨_, ⟨unit, _, rfl⟩, _, hglobal⟩)
      · simpa using hglobal
      · cases hglobal
    · exact fun hglobal => Or.inl ⟨_, ⟨id, hchanged hglobal, rfl⟩, rfl, by simpa using hglobal⟩

/-- When a round starts, each unit is listed as a root once. -/
theorem nodup_roots_update : ((p.update s).roots.map (·.unit)).Nodup := by
  show ((roundRoots _ _ _ _).map (·.unit)).Nodup
  rw [roundRoots]
  split
  · exact Root.nodup_merge _
  · exact Root.nodup_merge _

/-- When a round starts, the flagged checks are those of the flagged roots. -/
theorem mem_pendingChecks_update_flagged :
    ⟨path, true⟩ ∈ (p.update s).pendingChecks
      ↔ ∃ id, Root.Flags (p.update s).roots id
        ∧ (s.graph p.options.dependencyTracking).pathOf id = path := by
  rw [mem_pendingChecks_flagged]
  have hroots : (p.update s).passRoots ++ (p.update s).roots = (p.update s).roots := rfl
  simp only [hroots, processed_update, List.not_mem_nil, not_false_eq_true, true_and]
  rfl

/-! ### Everything -/

/-- A unit is called for by its own change, by a dependency that is gone, or because it waited. -/
def Calls (p : Program η) (s : Snapshot) (unit : SourceUnit) : Prop :=
  p.state.Outdates unit
    ∨ (∃ b, p.state.graph.Imports unit.path b ∧ s.unit? b = none)
    ∨ unit.path ∈ p.pendingChecks.map (·.unit)

/-- Everything is a root: the round is forced, or a unit recorded as global is gone. -/
def StartsOver (p : Program η) (s : Snapshot) : Prop :=
  p.forceAll = true ∨ ∃ path, p.state.RecordsGlobal path ∧ s.unit? path = none

/-- Which units wait when a round starts. -/
theorem mem_frontier_update_iff (hp : p.state.WellFormed) {unit : SourceUnit}
    (hunit : s.units[id]? = some unit) :
    id ∈ (p.update s).frontier ↔ p.StartsOver s ∨ p.Calls s unit := by
  have hid : ∀ {path}, (s.graph p.options.dependencyTracking).idOf? path = some id →
      path = unit.path := by
    intro path hpath
    rw [Snapshot.idOf?_graph_eq_some_iff, hunit] at hpath
    exact (Option.some.inj hpath).symm
  have hgone : ∀ {path}, (s.graph p.options.dependencyTracking).idOf? path = none →
      s.unit? path = none := by
    intro path hpath
    have hsome := Snapshot.idOf?_graph_isSome s p.options.dependencyTracking path
    rw [hpath] at hsome
    simpa using hsome.symm
  constructor
  · intro hwaits
    rw [frontier_update, roundRoots] at hwaits
    split at hwaits
    · rename_i hforced
      refine Or.inl ?_
      rcases Bool.or_eq_true _ _ |>.mp hforced with hforce | hremoved
      · exact Or.inl hforce
      · obtain ⟨path, info, hinfo, hglobal, hnone⟩ :=
          State.exists_global_of_removedGlobal_diff hp hremoved
        exact Or.inr ⟨path, ⟨info, hinfo, hglobal⟩, hgone hnone⟩
    · refine Or.inr ?_
      rw [Root.mem_units_merge] at hwaits
      simp only [List.map_append, List.map_map, List.mem_append, Function.comp_def,
        List.map_id'] at hwaits
      rcases hwaits with (hchanged | horphaned) | hcarried
      · obtain ⟨other, hother, houtdates⟩ := State.mem_changed_ofSnapshot.mp hchanged
        cases hunit.symm.trans hother
        exact Or.inl houtdates
      · obtain ⟨a, b, himports, hnone, ha⟩ := State.exists_imports_of_mem_orphaned_diff hp horphaned
        cases hid ha
        exact Or.inr (Or.inl ⟨b, himports, hgone hnone⟩)
      · obtain ⟨path, hpath, hsome⟩ := mem_carriedRoots.mp hcarried
        cases hid hsome
        exact Or.inr (Or.inr hpath)
  · have hsize : id < s.units.length := (List.getElem?_eq_some_iff.mp hunit).1
    have hnumber := Snapshot.idOf?_graph_of_getElem? p.options.dependencyTracking hunit
    rintro ((hforce | ⟨path, ⟨info, hinfo, hglobal⟩, hnone⟩) | hchanged | ⟨b, himports, hnone⟩ | hwaited)
    · exact mem_frontier_update_of_everything (Or.inl hforce) hsize
    · exact mem_frontier_update_of_everything (Or.inr ⟨path, info, hinfo, hglobal, hnone⟩) hsize
    · exact mem_frontier_update_of_changed hunit hchanged
    · exact mem_frontier_update_of_orphaned himports hnone hnumber
    · exact mem_frontier_update_of_mem (Or.inr (Or.inr (mem_carriedRoots.mpr ⟨_, hwaited, hnumber⟩)))

/-- Which checks are pending when a round starts. -/
theorem mem_pendingChecks_update_iff (hp : p.state.WellFormed) {unit : SourceUnit}
    (hunit : unit ∈ s.units) :
    unit.path ∈ (p.update s).pendingChecks.map (·.unit) ↔ p.StartsOver s ∨ p.Calls s unit := by
  obtain ⟨id, hid⟩ := List.mem_iff_getElem?.mp hunit
  rw [← mem_frontier_update_iff hp hid, mem_pendingChecks]
  constructor
  · rintro ⟨other, ⟨hwaits, _⟩, hpath⟩
    have hother := Graph.idOf?_pathOf (tidy_update p s).wellFormed.nodup
      ((tidy_update p s).bounded other hwaits)
    rw [hpath] at hother
    have hnumber := Snapshot.idOf?_graph_of_getElem? p.options.dependencyTracking hid
    cases hnumber.symm.trans hother
    exact hwaits
  · exact fun hwaits => ⟨id, ⟨hwaits, by simp⟩, Snapshot.pathOf_graph hid⟩

/-- What asks for a recheck of every unit when `p` is taken to the snapshot `s`, apart from the flags
that were pending: everything is a root, a unit that is or was global changed, or every unit is
called for. -/
def AsksForEverything (p : Program η) (s : Snapshot) : Prop :=
  p.StartsOver s
    ∨ (∃ unit ∈ s.units, p.state.Outdates unit
        ∧ (unit.isGlobal = true ∨ p.state.RecordsGlobal unit.path))
    ∨ ∀ unit ∈ s.units, p.Calls s unit

/-- A flagged check is pending, or the checks of all units are. -/
def OwesEverything (p : Program η) : Prop :=
  (∃ check ∈ p.pendingChecks, check.isGlobal = true)
    ∨ ∀ path ∈ p.state.graph.paths, path ∈ p.pendingChecks.map (·.unit)

instance (p : Program η) : Decidable p.OwesEverything :=
  inferInstanceAs (Decidable (_ ∨ _))

/-- A flag is pending when a round starts: a change flags a unit, or one was flagged before and is
still there. -/
theorem exists_flagged_update_iff :
    (∃ check ∈ (p.update s).pendingChecks, check.isGlobal = true)
      ↔ (∃ unit ∈ s.units, p.state.Outdates unit
          ∧ (unit.isGlobal = true ∨ p.state.RecordsGlobal unit.path))
        ∨ ∃ check ∈ p.pendingChecks, check.isGlobal = true ∧ (s.unit? check.unit).isSome = true := by
  have hflagged : ∀ q : Program η, (∃ check ∈ q.pendingChecks, check.isGlobal = true)
      ↔ ∃ path, ⟨path, true⟩ ∈ q.pendingChecks := by
    intro q
    constructor
    · rintro ⟨⟨path, isGlobal⟩, hcheck, rfl⟩
      exact ⟨path, hcheck⟩
    · exact fun ⟨path, hcheck⟩ => ⟨_, hcheck, rfl⟩
  rw [hflagged]
  simp only [mem_pendingChecks_update_flagged, flags_update]
  constructor
  · rintro ⟨_, id, ⟨unit, hunit, houtdates, hglobal⟩ | ⟨path, hcheck, hid⟩, _⟩
    · exact Or.inl ⟨unit, List.mem_of_getElem? hunit, houtdates, hglobal⟩
    · refine Or.inr ⟨_, hcheck, rfl, ?_⟩
      rw [← Snapshot.idOf?_graph_isSome s p.options.dependencyTracking, hid]
      rfl
  · rintro (⟨unit, hunit, houtdates, hglobal⟩ | ⟨⟨path, isGlobal⟩, hcheck, rfl, hsome⟩)
    · obtain ⟨id, hid⟩ := List.mem_iff_getElem?.mp hunit
      exact ⟨_, id, Or.inl ⟨unit, hid, houtdates, hglobal⟩, rfl⟩
    · rw [← Snapshot.idOf?_graph_isSome s p.options.dependencyTracking] at hsome
      obtain ⟨id, hid⟩ := Option.isSome_iff_exists.mp hsome
      exact ⟨_, id, Or.inr ⟨path, hcheck, hid⟩, rfl⟩

/-- Every check is pending when a round starts over, or every unit is called for. -/
theorem all_pending_update_iff (hp : p.state.WellFormed) :
    (∀ path ∈ (p.update s).state.graph.paths, path ∈ (p.update s).pendingChecks.map (·.unit))
      ↔ p.StartsOver s ∨ ∀ unit ∈ s.units, p.Calls s unit := by
  rw [state_update, State.graph_ofSnapshot, Snapshot.graph_paths]
  simp only [List.forall_mem_map]
  constructor
  · intro hall
    by_cases hover : p.StartsOver s
    · exact Or.inl hover
    · refine Or.inr fun unit hunit => ?_
      exact ((mem_pendingChecks_update_iff hp hunit).mp (hall unit hunit)).resolve_left hover
  · rintro (hover | hcalls) unit hunit
    · exact (mem_pendingChecks_update_iff hp hunit).mpr (Or.inl hover)
    · exact (mem_pendingChecks_update_iff hp hunit).mpr (Or.inr (hcalls unit hunit))

end Program

open Program in
/-- **When a round starts that owes everything.**  Take any reachable program to any snapshot.  In the
round that starts, a flagged check or all checks are pending, if and only if a flagged check was
pending whose unit is still there or is recorded as global, or something asks for everything anew.
So a flag is dropped when its unit has left the global scope and is gone. -/
theorem owesEverything_update_iff {η : Type} [Host η] {p : Program η} (hp : p.Reachable)
    (s : Snapshot) :
    (p.update s).OwesEverything
      ↔ (∃ check ∈ p.pendingChecks, check.isGlobal = true
          ∧ ((s.unit? check.unit).isSome = true ∨ p.state.RecordsGlobal check.unit))
        ∨ p.AsksForEverything s := by
  rw [OwesEverything, exists_flagged_update_iff, all_pending_update_iff hp.tidy.wellFormed]
  constructor
  · rintro ((hchanged | ⟨check, hcheck, hflag, hstays⟩) | hover | hcalls)
    · exact Or.inr (Or.inr (Or.inl hchanged))
    · exact Or.inl ⟨check, hcheck, hflag, Or.inl hstays⟩
    · exact Or.inr (Or.inl hover)
    · exact Or.inr (Or.inr (Or.inr hcalls))
  · rintro (⟨check, hcheck, hflag, hkept⟩ | hover | hchanged | hcalls)
    · cases hunit : s.unit? check.unit with
      | some unit => exact Or.inl (Or.inr ⟨check, hcheck, hflag, by rw [hunit]; rfl⟩)
      | none =>
          rw [hunit] at hkept
          have hglobal := hkept.resolve_left (by simp)
          exact Or.inr (Or.inl (Or.inr ⟨check.unit, hglobal, hunit⟩))
    · exact Or.inr (Or.inl hover)
    · exact Or.inl (Or.inl hchanged)
    · exact Or.inr (Or.inr hcalls)

namespace Stub

/-- The units `a` and `b`, followed by others. -/
def scope (others : List SourceUnit) : Stub where
  snapshot := Snapshot.ofUnits ({ path := "a", version := "one" } :: { path := "b", version := "one" }
    :: others)
  unreadable := ["a", "b", "g"]

/-- A program in which `g` was global, has left the global scope and waits. -/
def leaving : Program Stub :=
  (scope [{ path := "g", version := "two" }]).report
    (Call.play [.check, .check, .check]
      (scope [{ path := "g", version := "one", isGlobal := true }]).fresh).2

theorem reachable_leaving : leaving.Reachable :=
  reachable_report _ ((reachable_fresh _).play _)

theorem pendingChecks_leaving : leaving.pendingChecks = [⟨"g", true⟩] := by
  decide +kernel

end Stub

/-- As long as `g` is there, its flag is carried. -/
theorem owesEverything_update_iff_leaving :
    Stub.leaving.pendingChecks = [⟨"g", true⟩]
      ∧ (Stub.leaving.update Stub.leaving.snapshot).OwesEverything := by
  refine ⟨Stub.pendingChecks_leaving, ?_⟩
  apply (owesEverything_update_iff Stub.reachable_leaving Stub.leaving.snapshot).mpr
  refine Or.inl ⟨⟨"g", true⟩, ?_, rfl, Or.inl ?_⟩
  · rw [Stub.pendingChecks_leaving]
    exact List.mem_cons_self
  · decide +kernel

/-- **A pending flag can be dropped.**  When `g` is gone, no check is pending. -/
theorem flag_dropped :
    ∃ (p : Program Stub) (s : Snapshot), p.Reachable
      ∧ (∃ check ∈ p.pendingChecks, check.isGlobal = true) ∧ ¬ (p.update s).OwesEverything := by
  refine ⟨Stub.leaving, (Stub.scope []).snapshot, Stub.reachable_leaving, ?_, ?_⟩
  · rw [Stub.pendingChecks_leaving]
    exact ⟨_, List.mem_cons_self, rfl⟩
  · decide +kernel

end Rebuild
