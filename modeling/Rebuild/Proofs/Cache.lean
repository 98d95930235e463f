import Rebuild.Proofs.State

/-!
# Entries of the cache

The cache is a table sorted by unit, whose entries are tied to the versions of the units.

* `State.versionOf?`: the version of the unit with a path, which no signature changes;
* `Cache.Sorted`: the entries are sorted, and no unit has two of them;
* `Cache.Current`: every entry was stored at the version that its unit has;
* `Cache.mem_commit`, `Cache.mem_invalidateAll`, `Cache.mem_retainCurrent`: the entries after each
  operation;
* `Cache.Sorted.foldl_commit`: storing the entries of a sorted cache one after the other makes the
  same cache.
-/

namespace Rebuild

namespace State

variable {s prior : State} {path : UnitPath}

/-- The version of the unit with a path. -/
def versionOf? (s : State) (path : UnitPath) : Option String :=
  (s.infoOf? path).map (·.version)

theorem versionOf?_eq_map_recordOf? (s : State) (path : UnitPath) :
    s.versionOf? path = (s.recordOf? path).map (·.info.version) := by
  rw [versionOf?, infoOf?, Option.map_map]
  rfl

/-- Storing a signature changes no version. -/
@[simp] theorem versionOf?_sign (s : State) (id : UnitId) (signature : Signature) (path : UnitPath) :
    (s.sign id signature).versionOf? path = s.versionOf? path := by
  rw [versionOf?_eq_map_recordOf?, versionOf?_eq_map_recordOf?, recordOf?, recordOf?, graph_sign]
  cases s.graph.idOf? path with
  | none => rfl
  | some other =>
      show ((s.sign id signature).record? other).map _ = (s.record? other).map _
      by_cases hother : other = id
      · rw [hother, record?_sign_self, Option.map_map]
        rfl
      · rw [record?_sign_of_ne hother]

/-- After a new snapshot, the versions are those of the snapshot. -/
theorem versionOf?_ofSnapshot (snapshot : Snapshot) (tracking : Bool) (prior : State)
    (path : UnitPath) :
    (ofSnapshot snapshot tracking prior).versionOf? path
      = (snapshot.unit? path).map (·.version) := by
  rw [versionOf?_eq_map_recordOf?, recordOf?_ofSnapshot, Option.map_map]
  congr 1
  funext unit
  exact UnitRecord.next_version _ _

theorem versionOf?_isSome (hs : s.WellFormed) (path : UnitPath) :
    (s.versionOf? path).isSome = (s.graph.idOf? path).isSome := by
  rw [versionOf?_eq_map_recordOf?, Option.isSome_map, recordOf?_isSome hs]

/-- The version of a unit, by its number. -/
theorem versionOf?_pathOf (hs : s.WellFormed) {id : UnitId} (hid : id < s.graph.size) :
    s.versionOf? (s.graph.pathOf id) = (s.info? id).map (·.version) := by
  rw [versionOf?, infoOf?, recordOf?_of_idOf? (Graph.idOf?_pathOf hs.nodup hid)]
  rfl

end State

namespace Cache

variable {c : Cache} {s : State} {entry other : CacheEntry} {entries : List CacheEntry}

/-- The entries are sorted by unit, and no unit has two of them. -/
def Sorted (c : Cache) : Prop :=
  c.entries.Pairwise fun a b => a.unit < b.unit

/-- Every entry was stored at the version that its unit has. -/
def Current (c : Cache) (s : State) : Prop :=
  ∀ entry ∈ c.entries, s.versionOf? entry.unit = some entry.version

/-! ### Membership -/

theorem mem_of_find? {unit : UnitPath} (h : c.find? unit = some entry) :
    entry ∈ c.entries ∧ entry.unit = unit :=
  ⟨List.mem_of_find?_eq_some h, by simpa using List.find?_some h⟩

/-- A unit has an entry exactly when one is found. -/
theorem find?_isSome_iff {unit : UnitPath} :
    (c.find? unit).isSome = true ↔ unit ∈ c.entries.map (·.unit) := by
  rw [find?, List.find?_isSome, List.mem_map]
  simp

theorem mem_put (h : other ∈ put entry entries) : other = entry ∨ other ∈ entries := by
  induction entries with
  | nil => exact Or.inl (List.mem_singleton.mp h)
  | cons first rest ih =>
      rw [put] at h
      split at h
      · exact List.mem_cons.mp h
      · split at h
        · rcases List.mem_cons.mp h with hnew | hold
          · exact Or.inl hnew
          · exact Or.inr (List.mem_cons_of_mem _ hold)
        · rcases List.mem_cons.mp h with hfirst | hrest
          · exact Or.inr (hfirst ▸ List.mem_cons_self)
          · rcases ih hrest with hnew | hold
            · exact Or.inl hnew
            · exact Or.inr (List.mem_cons_of_mem _ hold)

theorem mem_commit {unit : UnitPath} {version : String} {diagnostics : List Diagnostic}
    (h : entry ∈ (c.commit unit version diagnostics).entries) :
    entry = ⟨unit, version, diagnostics⟩ ∨ entry ∈ c.entries :=
  mem_put h

theorem mem_invalidateAll {units : List UnitPath} :
    entry ∈ (c.invalidateAll units).entries ↔ entry ∈ c.entries ∧ entry.unit ∉ units := by
  induction units generalizing c with
  | nil => simp [invalidateAll]
  | cons unit units ih =>
      have hstep : c.invalidateAll (unit :: units) = (c.invalidate unit).invalidateAll units := rfl
      have hone : entry ∈ (c.invalidate unit).entries ↔ entry ∈ c.entries ∧ entry.unit ≠ unit := by
        simp [invalidate]
      rw [hstep, ih, hone, List.mem_cons, not_or, and_assoc]

theorem mem_retainCurrent :
    entry ∈ (c.retainCurrent s).entries
      ↔ entry ∈ c.entries ∧ s.versionOf? entry.unit = some entry.version := by
  rw [retainCurrent, List.mem_filter, State.versionOf?]
  cases s.infoOf? entry.unit with
  | none => simp
  | some info => simp

/-! ### Order -/

theorem pairwise_put (h : entries.Pairwise fun a b => a.unit < b.unit) :
    (put entry entries).Pairwise fun a b => a.unit < b.unit := by
  induction entries with
  | nil => exact List.pairwise_singleton _ _
  | cons first rest ih =>
      obtain ⟨hfirst, hrest⟩ := List.pairwise_cons.mp h
      rw [put]
      split
      · rename_i hless
        refine List.pairwise_cons.mpr ⟨fun later hlater => ?_, h⟩
        rcases List.mem_cons.mp hlater with hsame | hmem
        · exact hsame ▸ hless
        · exact String.lt_trans hless (hfirst later hmem)
      · rename_i hnot
        split
        · rename_i hsame
          refine List.pairwise_cons.mpr ⟨fun later hlater => ?_, hrest⟩
          rw [hsame]
          exact hfirst later hlater
        · rename_i hne
          have hmore : first.unit < entry.unit := by
            refine String.not_le.mp fun hle => hne ?_
            exact String.le_antisymm hle (String.not_lt.mp hnot)
          refine List.pairwise_cons.mpr ⟨fun later hlater => ?_, ih hrest⟩
          rcases mem_put hlater with hnew | hold
          · exact hnew ▸ hmore
          · exact hfirst later hold

theorem Sorted.commit (h : c.Sorted) (unit : UnitPath) (version : String)
    (diagnostics : List Diagnostic) : (c.commit unit version diagnostics).Sorted :=
  pairwise_put h

theorem Sorted.invalidateAll (h : c.Sorted) (units : List UnitPath) :
    (c.invalidateAll units).Sorted := by
  induction units generalizing c with
  | nil => exact h
  | cons unit units ih => exact ih (c := c.invalidate unit) (List.Pairwise.filter _ h)

theorem Sorted.retainCurrent (h : c.Sorted) (s : State) : (c.retainCurrent s).Sorted :=
  List.Pairwise.filter _ h

/-- An entry that comes after all others is put at the end. -/
theorem put_of_forall_lt (h : ∀ e ∈ entries, e.unit < entry.unit) :
    put entry entries = entries ++ [entry] := by
  induction entries with
  | nil => rfl
  | cons first rest ih =>
      have hfirst := h first List.mem_cons_self
      rw [put, if_neg (String.lt_asymm hfirst), if_neg, List.cons_append,
        ih fun e he => h e (List.mem_cons_of_mem _ he)]
      intro hsame
      rw [hsame] at hfirst
      exact String.lt_irrefl _ hfirst

/-- The cache is made again by storing its entries one after the other. -/
theorem Sorted.foldl_commit (h : c.Sorted) :
    c.entries.foldl (fun cache e => cache.commit e.unit e.version e.diagnostics) {} = c := by
  have hall : ∀ later before : List CacheEntry,
      (before ++ later).Pairwise (fun a b => a.unit < b.unit) →
      later.foldl (fun cache e => cache.commit e.unit e.version e.diagnostics) (⟨before⟩ : Cache)
        = ⟨before ++ later⟩ := by
    intro later
    induction later with
    | nil => simp
    | cons first rest ih =>
        intro before hsorted
        have hput : put first before = before ++ [first] := by
          refine put_of_forall_lt fun e he => ?_
          exact (List.pairwise_append.mp hsorted).2.2 e he first List.mem_cons_self
        show rest.foldl _ (⟨put first before⟩ : Cache) = _
        rw [hput, ih, List.append_assoc, List.singleton_append]
        rw [List.append_assoc]
        exact hsorted
  exact hall c.entries [] h

/-! ### Versions -/

theorem Current.commit (h : c.Current s) {unit : UnitPath} {version : String}
    (hversion : s.versionOf? unit = some version) (diagnostics : List Diagnostic) :
    (c.commit unit version diagnostics).Current s := by
  intro entry hentry
  rcases mem_commit hentry with hnew | hold
  · rw [hnew]
    exact hversion
  · exact h entry hold

theorem Current.invalidateAll (h : c.Current s) (units : List UnitPath) :
    (c.invalidateAll units).Current s :=
  fun entry hentry => h entry (mem_invalidateAll.mp hentry).1

theorem current_retainCurrent (c : Cache) (s : State) : (c.retainCurrent s).Current s :=
  fun _ hentry => (mem_retainCurrent.mp hentry).2

theorem Current.sign (h : c.Current s) (id : UnitId) (signature : Signature) :
    c.Current (s.sign id signature) := by
  intro entry hentry
  rw [State.versionOf?_sign]
  exact h entry hentry

end Cache

end Rebuild
