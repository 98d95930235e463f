import Rebuild.Proofs.Answers
import Rebuild.Proofs.Update

/-!
# Units that a round skips

Within a round, each unit is processed, waits, or is skipped.  Units are told apart by path here,
since their numbers change from round to round.

* `Program.Done`, `Program.Awaits`, `Program.Skips`: the three kinds of units;
* `Program.known?`: the digest that the next check of a unit is compared with;
* `Program.Stores`, `Program.Holds`: what a program remembers about a unit;
* `Program.Agrees`: two programs remember the same about every unit;
* `Program.Rechecks.done_iff`, `Program.Rechecks.skips`: what a recheck does to the three kinds;
* `Program.skips_update`: what was skipped, and what was not, before an update.
-/

namespace Rebuild

namespace Program

variable {η : Type} {p q : Program η} {path a b : UnitPath}

def Done (p : Program η) (path : UnitPath) : Prop :=
  ∃ id, p.state.graph.idOf? path = some id ∧ id ∈ p.processed

/-- A unit waits to be processed in this round. -/
def Awaits (p : Program η) (path : UnitPath) : Prop :=
  ∃ id, p.state.graph.idOf? path = some id ∧ p.Owed id

/-- A unit is neither processed nor waits: so far the round has no reason to recheck it. -/
def Skips (p : Program η) (path : UnitPath) : Prop :=
  ∃ id, p.state.graph.idOf? path = some id ∧ ¬ p.Covered id

/-- The digest that the next check of a unit is compared with. -/
def known? (p : Program η) (path : UnitPath) : Option String :=
  (p.state.recordOf? path).bind (·.knownHash?)

/-- The stored signature of a unit is that of `verdict`, and diagnostics are cached for its version
that look to `observe` like those of `verdict`. -/
def Stores {β : Type} (p : Program η) (observe : List Diagnostic → β) (path : UnitPath)
    (verdict : Signature × List Diagnostic) : Prop :=
  ∃ r found, p.state.recordOf? path = some r ∧ r.info.signature = verdict.1
    ∧ p.cache.find? path = some ⟨path, r.info.version, found⟩ ∧ observe found = observe verdict.2

/-- The program holds this signature and caches these diagnostics for a unit. -/
def Holds (p : Program η) (path : UnitPath) (signature : Signature)
    (diagnostics : List Diagnostic) : Prop :=
  (p.state.infoOf? path).map (·.signature) = some signature
    ∧ p.cache.get? path = some diagnostics

/-- Two programs have the same units, and hold the same signature and the same cached diagnostics
for each of them. -/
def Agrees (p q : Program η) : Prop :=
  p.snapshot = q.snapshot ∧ ∀ unit ∈ p.snapshot.units, ∃ signature diagnostics,
    p.Holds unit.path signature diagnostics ∧ q.Holds unit.path signature diagnostics

theorem Done.not_skips (h : p.Done path) : ¬ p.Skips path := by
  obtain ⟨id, hid, hdone⟩ := h
  rintro ⟨id', hid', huncovered⟩
  cases hid.symm.trans hid'
  exact huncovered (Or.inl hdone)

theorem Done.not_awaits (h : p.Done path) : ¬ p.Awaits path := by
  obtain ⟨id, hid, hdone⟩ := h
  rintro ⟨id', hid', howed⟩
  cases hid.symm.trans hid'
  exact howed.2 hdone

theorem Skips.not_awaits (h : p.Skips path) : ¬ p.Awaits path := by
  obtain ⟨id, hid, huncovered⟩ := h
  rintro ⟨id', hid', howed⟩
  cases hid.symm.trans hid'
  exact huncovered (Or.inr howed.1)

/-- A unit that does not wait is processed or skipped. -/
theorem done_or_skips (hunit : (p.state.graph.idOf? path).isSome = true) (hawaits : ¬ p.Awaits path) :
    p.Done path ∨ p.Skips path := by
  obtain ⟨id, hid⟩ := Option.isSome_iff_exists.mp hunit
  by_cases hcovered : p.Covered id
  · rcases hcovered.processed_or_owed with hdone | howed
    · exact Or.inl ⟨id, hid, hdone⟩
    · exact absurd ⟨id, hid, howed⟩ hawaits
  · exact Or.inr ⟨id, hid, hcovered⟩

theorem isSome_idOf?_of_recordOf? {r : UnitRecord} (h : p.state.recordOf? path = some r) :
    (p.state.graph.idOf? path).isSome = true := by
  obtain ⟨id, hid, _⟩ := State.record?_of_recordOf? h
  rw [hid]
  rfl

theorem Stores.congr {β : Type} {observe : List Diagnostic → β}
    {verdict : Signature × List Diagnostic} (h : p.Stores observe path verdict)
    (hrecord : q.state.recordOf? path = p.state.recordOf? path)
    (hcache : ∀ entry, p.cache.find? path = some entry → q.cache.find? path = some entry) :
    q.Stores observe path verdict := by
  obtain ⟨r, found, hr, hsignature, hfound, hobserve⟩ := h
  exact ⟨r, found, hrecord.trans hr, hsignature, hcache _ hfound, hobserve⟩

/-- What is right in one world is right in a world that is alike. -/
theorem Stores.alike [Host η] {β : Type} {A : Answers η} {observe : List Diagnostic → β}
    {w w' : A.World} (h : p.Stores observe path (A.verdict w path))
    (halike : A.Alike observe w w' path) : p.Stores observe path (A.verdict w' path) := by
  obtain ⟨r, found, hr, hsignature, hfound, hobserve⟩ := h
  exact ⟨r, found, hr, hsignature.trans halike.1, hfound, hobserve.trans halike.2⟩

theorem Stores.holds {path : UnitPath} {verdict : Signature × List Diagnostic}
    (h : p.Stores id path verdict) :
    p.Holds path verdict.1 verdict.2 := by
  obtain ⟨r, found, hr, hsignature, hfound, hsame⟩ := h
  refine ⟨?_, ?_⟩
  · rw [State.infoOf?, hr, ← hsignature]
    rfl
  · rw [Cache.get?, hfound, ← show found = verdict.2 from hsame]
    rfl

/-- A program holds one signature and one list of diagnostics for a unit. -/
theorem Holds.unique {signature : Signature} {diagnostics : List Diagnostic}
    {verdict : Signature × List Diagnostic} (h : p.Holds path verdict.1 verdict.2)
    (h' : p.Holds path signature diagnostics) : verdict = (signature, diagnostics) := by
  have hsignature : verdict.1 = signature := Option.some.inj (h.1.symm.trans h'.1)
  have hdiagnostics : verdict.2 = diagnostics := Option.some.inj (h.2.symm.trans h'.2)
  exact Prod.ext hsignature hdiagnostics

/-! ### Rechecks -/

namespace Rechecks

variable [Host η] {unit : UnitId}

theorem idOf?_pathOf (htidy : p.Tidy) (h : p.Rechecks unit q) :
    p.state.graph.idOf? (p.state.graph.pathOf unit) = some unit :=
  Graph.idOf?_pathOf htidy.wellFormed.nodup (htidy.bounded unit h.awaited)

/-- A recheck adds one unit to those that are processed. -/
theorem done_iff (htidy : p.Tidy) (h : p.Rechecks unit q) :
    q.Done path ↔ p.Done path ∨ path = p.state.graph.pathOf unit := by
  rw [Done, Done, h.graph, h.processed]
  constructor
  · rintro ⟨id, hid, hmem⟩
    rcases List.mem_append.mp hmem with hold | hnew
    · exact Or.inl ⟨id, hid, hold⟩
    · rw [List.mem_singleton.mp hnew] at hid
      exact Or.inr (Graph.pathOf_of_idOf? hid).symm
  · rintro (⟨id, hid, hold⟩ | rfl)
    · exact ⟨id, hid, List.mem_append_left _ hold⟩
    · exact ⟨unit, h.idOf?_pathOf htidy, List.mem_append_right _ List.mem_cons_self⟩

/-- What is skipped after a recheck was skipped before, and is not the unit itself. -/
theorem skips (htidy : p.Tidy) (h : p.Rechecks unit q) (hskips : q.Skips path) :
    p.Skips path ∧ path ≠ p.state.graph.pathOf unit := by
  refine ⟨?_, ?_⟩
  · obtain ⟨id, hid, huncovered⟩ := hskips
    rw [h.graph] at hid
    exact ⟨id, hid, fun hcovered => huncovered (h.covered id hcovered)⟩
  · rintro rfl
    exact Done.not_skips ((h.done_iff htidy).mpr (Or.inr rfl)) hskips

/-- A unit that waited waits after a recheck, unless it is the unit itself. -/
theorem awaits (h : p.Rechecks unit q) (hawaits : p.Awaits path)
    (hne : path ≠ p.state.graph.pathOf unit) : q.Awaits path := by
  obtain ⟨id, hid, hfrontier, hfresh⟩ := hawaits
  refine ⟨id, by rw [h.graph]; exact hid, ?_⟩
  rcases (h.covered id (Or.inr hfrontier)).processed_or_owed with hdone | howed
  · rw [h.processed] at hdone
    rcases List.mem_append.mp hdone with hold | hnew
    · exact absurd hold hfresh
    · rw [List.mem_singleton.mp hnew] at hid
      exact absurd (Graph.pathOf_of_idOf? hid).symm hne
  · exact howed

/-- The dependents of a unit whose signature moved are not skipped. -/
theorem not_skips_of_moved (h : p.Rechecks unit q) (hunit : p.state.graph.idOf? b = some unit)
    (hmoved : p.state.moves unit (p.found unit).1 = true) (himports : p.state.graph.Imports a b) :
    ¬ q.Skips a := by
  obtain ⟨i, j, hi, hj, hij⟩ := himports
  cases hunit.symm.trans hj
  rintro ⟨id, hid, huncovered⟩
  rw [h.graph] at hid
  cases hi.symm.trans hid
  exact huncovered (h.dependents hmoved i hij)

theorem recordOf?_self (htidy : p.Tidy) (h : p.Rechecks unit q) :
    q.state.recordOf? (p.state.graph.pathOf unit)
      = (p.state.recordOf? (p.state.graph.pathOf unit)).map fun r => r.sign (p.found unit).1 := by
  have hid := h.idOf?_pathOf htidy
  rw [State.recordOf?_of_idOf? hid, h.state, State.recordOf?_of_idOf? (by exact hid),
    State.record?_sign_self]

theorem recordOf?_of_ne (h : p.Rechecks unit q) (hne : path ≠ p.state.graph.pathOf unit) :
    q.state.recordOf? path = p.state.recordOf? path := by
  rw [State.recordOf?, State.recordOf?, h.graph]
  cases hid : p.state.graph.idOf? path with
  | none => rfl
  | some id =>
      show q.state.record? id = p.state.record? id
      rw [h.state, State.record?_sign_of_ne]
      rintro rfl
      exact hne (Graph.pathOf_of_idOf? hid).symm

/-- The diagnostics of other units stay cached, unless they wait. -/
theorem find?_of_ne (h : p.Rechecks unit q) (hunit : (p.state.graph.idOf? path).isSome = true)
    (hne : path ≠ p.state.graph.pathOf unit) (hawaits : ¬ q.Awaits path) :
    q.cache.find? path = p.cache.find? path := by
  obtain ⟨id, hid⟩ := Option.isSome_iff_exists.mp hunit
  have hkept := h.kept id (Graph.lt_size_of_idOf? hid) ?_ ?_
  · rwa [Graph.pathOf_of_idOf? hid] at hkept
  · rintro rfl
    exact hne (Graph.pathOf_of_idOf? hid).symm
  · exact fun howed => hawaits ⟨id, by rw [h.graph]; exact hid, howed⟩

/-- What is stored about another unit that does not wait stays. -/
theorem stores_of_ne {β : Type} {observe : List Diagnostic → β}
    {verdict : Signature × List Diagnostic} (h : p.Rechecks unit q)
    (hne : path ≠ p.state.graph.pathOf unit) (hawaits : ¬ q.Awaits path)
    (hstores : p.Stores observe path verdict) : q.Stores observe path verdict := by
  refine hstores.congr (h.recordOf?_of_ne hne) fun entry hentry => ?_
  obtain ⟨r, _, hrecord, _⟩ := hstores
  rw [h.find?_of_ne (isSome_idOf?_of_recordOf? hrecord) hne hawaits]
  exact hentry

end Rechecks

namespace Rests

theorem done_iff (h : p.Rests q) : q.Done path ↔ p.Done path := by
  rw [Done, Done, h.state, h.processed]

theorem skips_iff (h : p.Rests q) : q.Skips path ↔ p.Skips path := by
  simp only [Skips, h.state, h.covered]

theorem stores {β : Type} {observe : List Diagnostic → β} {verdict : Signature × List Diagnostic}
    (h : p.Rests q) (hstores : p.Stores observe path verdict) : q.Stores observe path verdict :=
  hstores.congr (by rw [h.state]) (h.cached path)

end Rests

/-! ### Updates -/

variable {s : Snapshot}

/-- What is known about a unit of the snapshot survives an update. -/
theorem known?_update {unit : SourceUnit} (hunit : s.unit? path = some unit) :
    (p.update s).known? path = p.known? path := by
  rw [known?, known?, state_update, State.recordOf?_ofSnapshot, hunit]
  exact UnitRecord.knownHash?_next _ _

theorem known?_update_of_none (hunit : s.unit? path = none) : (p.update s).known? path = none := by
  rw [known?, state_update, State.recordOf?_ofSnapshot, hunit]
  rfl

theorem not_done_update : ¬ (p.update s).Done path := by
  rintro ⟨id, _, hid⟩
  rw [processed_update] at hid
  simp at hid

/-- A unit that is skipped when a round starts is in the snapshot, had the same version before, and
did not wait. -/
theorem skips_update (h : (p.update s).Skips path) :
    ∃ unit r, s.unit? path = some unit ∧ p.state.recordOf? path = some r
      ∧ r.info.version = unit.version ∧ ¬ p.Awaits path := by
  obtain ⟨id, hid, huncovered⟩ := h
  have hid' : (s.graph p.options.dependencyTracking).idOf? path = some id := hid
  have hwaits : id ∉ (p.update s).frontier := fun hmem => huncovered (Or.inr hmem)
  obtain ⟨unit, hunit, rfl⟩ := Option.map_eq_some_iff.mp (Snapshot.idOf?_graph_eq_some_iff.mp hid')
  have hsame : ∃ info, p.state.infoOf? unit.path = some info ∧ info.version = unit.version := by
    refine Classical.byContradiction fun hnone => hwaits ?_
    exact mem_frontier_update_of_changed hunit fun info hinfo hversion =>
      hnone ⟨info, hinfo, hversion⟩
  obtain ⟨info, hinfo, hversion⟩ := hsame
  obtain ⟨r, hr, rfl⟩ := State.infoOf?_eq_some_iff.mp hinfo
  refine ⟨unit, r, ?_, hr, hversion, ?_⟩
  · rw [← Snapshot.getElem?_units_of_idOf? hid', hunit]
  · rintro ⟨old, hold, howed⟩
    refine hwaits (mem_frontier_update_of_owed howed ?_)
    rw [Graph.pathOf_of_idOf? hold]
    exact hid'

/-- A unit that is skipped when a round starts depended on no unit that is gone. -/
theorem not_imports_of_skips_update (h : (p.update s).Skips a) (hgone : s.unit? b = none) :
    ¬ p.state.graph.Imports a b := by
  obtain ⟨id, hid, huncovered⟩ := h
  exact fun himports =>
    huncovered (Or.inr (mem_frontier_update_of_orphaned himports hgone hid))

/-- What is stored about a unit that is skipped when a round starts is what was stored before. -/
theorem Stores.update {β : Type} {observe : List Diagnostic → β}
    {verdict : Signature × List Diagnostic} (hstores : p.Stores observe path verdict)
    (hskips : (p.update s).Skips path) : (p.update s).Stores observe path verdict := by
  obtain ⟨unit, r, hunit, hr, hversion, _⟩ := skips_update hskips
  obtain ⟨r', found, hr', hsignature, hfound, hobserve⟩ := hstores
  cases hr.symm.trans hr'
  have hinfo : (UnitRecord.next (some r) unit).info = r.info := UnitRecord.next_info_of_version hversion
  obtain ⟨id, hid, huncovered⟩ := hskips
  refine ⟨UnitRecord.next (some r) unit, found, ?_, by rw [hinfo, hsignature], ?_, hobserve⟩
  · rw [state_update, State.recordOf?_ofSnapshot, hunit, hr]
    rfl
  · rw [hinfo]
    exact find?_cache_update hid hunit hfound hversion.symm
      fun hmem => huncovered (Or.inr hmem)

end Program

end Rebuild
