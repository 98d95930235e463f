import Rebuild.Proofs.BuildInfo.Layout
import Rebuild.Proofs.Resume

/-!
# Programs that are stored and started again

The document of a program holds what is known about the units and which of them wait.  It does not hold
the digests from before a text changed.

* `BuildInfo.Document.recordOf?_of_decode_encode`, `BuildInfo.Document.pendingCheck_of_decode_encode`:
  what is read back from a document;
* `Program.recalls_restore`: a program that takes over a document recalls the one that was stored;
* `Program.start_buildInfoText`: a program that is started with a document recalls the one that was
  stored, or rechecks everything.
-/

namespace Rebuild

namespace BuildInfo.Document

variable {expected tool : String} {content : Content} {decoded : Decoded}

theorem decodeUnit_encodeUnit (unit : UnitPath × UnitInfo) :
    decodeUnit (encodeUnit unit) = unit.2 := by
  rcases unit with ⟨path, ⟨version, signature, isGlobal⟩⟩
  cases signature with
  | unknown => rfl
  | known hash => rfl

/-- The units of a document are those of the state, in the same order. -/
theorem paths_encode (tool : String) (hs : content.state.WellFormed) :
    (encode tool content).units.map (·.path) = content.state.graph.paths := by
  show (content.state.entries.map encodeUnit).map _ = _
  rw [List.map_map, State.entries]
  show (List.zip _ _).map Prod.fst = _
  apply List.map_fst_zip
  rw [List.length_map, hs.length]
  exact Nat.le_refl _

/-- The units that are read back have the same numbers. -/
theorem idOf?_of_decode_encode (hs : content.state.WellFormed)
    (h : (encode tool content).decode expected = .ok decoded) (path : UnitPath) :
    decoded.state.graph.idOf? path = content.state.graph.idOf? path := by
  obtain ⟨⟨g, hgraph, _, hstate⟩, _, _⟩ := decode_ok h
  obtain ⟨_, hpaths, _⟩ := Graph.ofIndexed_ok hgraph
  rw [paths_encode tool hs] at hpaths
  rw [hstate, Graph.idOf?, Graph.idOf?, hpaths]

/-- What is read back about a unit is what was known about it. -/
theorem recordOf?_of_decode_encode (hs : content.state.WellFormed)
    (h : (encode tool content).decode expected = .ok decoded) (path : UnitPath) :
    decoded.state.recordOf? path = (content.state.infoOf? path).map fun info => { info } := by
  obtain ⟨⟨g, _, _, hstate⟩, _, _⟩ := decode_ok h
  rw [State.infoOf?, State.recordOf?, State.recordOf?, idOf?_of_decode_encode hs h, hstate]
  cases hid : content.state.graph.idOf? path with
  | none => rfl
  | some id =>
      show ((content.state.entries.map encodeUnit).map _)[id]? = _
      rw [List.map_map, List.getElem?_map, State.getElem?_entries hs]
      simp only [Option.map_map, Option.bind_some]
      cases content.state.record? id with
      | none => rfl
      | some r => simp [decodeUnit_encodeUnit]

theorem tracking_of_decode_encode (h : (encode tool content).decode expected = .ok decoded) :
    decoded.state.graph.tracking = content.state.graph.tracking := by
  obtain ⟨⟨g, hgraph, _, hstate⟩, _, _⟩ := decode_ok h
  rw [hstate]
  exact (Graph.ofIndexed_ok hgraph).2.2

/-- The checks that are read back are those that were pending. -/
theorem pendingCheck_of_decode_encode (hs : content.state.WellFormed)
    (hchecks : ∀ check ∈ content.pendingCheck,
      (content.state.graph.idOf? check.unit).isSome = true)
    (h : (encode tool content).decode expected = .ok decoded) :
    decoded.pendingCheck = content.pendingCheck := by
  obtain ⟨_, hread, _⟩ := decode_ok h
  have hone : ∀ check id, content.state.graph.idOf? check = some id →
      (encode tool content).pathAt "pending check" id = .ok check := by
    intro check id hid
    have hpath := Graph.getElem?_paths_of_idOf? hid
    rw [← paths_encode tool hs, List.getElem?_map, Option.map_eq_some_iff] at hpath
    obtain ⟨unit, hunit, rfl⟩ := hpath
    rw [pathAt, hunit]
  have hall : ∀ checks : List PendingCheck,
      (∀ check ∈ checks, (content.state.graph.idOf? check.unit).isSome = true) →
      ((checks.filterMap (encodeCheck content.state.graph)).mapM fun entry => do
        return PendingCheck.mk (← (encode tool content).pathAt "pending check" entry.unit)
          entry.isGlobal) = .ok checks := by
    intro checks hchecks
    induction checks with
    | nil => rfl
    | cons check checks ih =>
        obtain ⟨id, hid⟩ := Option.isSome_iff_exists.mp (hchecks check List.mem_cons_self)
        have hentry : encodeCheck content.state.graph check = some ⟨id, check.isGlobal⟩ := by
          rw [encodeCheck, hid]
          rfl
        rw [List.filterMap_cons_some hentry, List.mapM_cons, hone check.unit id hid,
          ih fun other hother => hchecks other (List.mem_cons_of_mem _ hother)]
        rfl
  exact Except.ok.inj (hread.symm.trans (hall _ hchecks))

end BuildInfo.Document

namespace Program

variable {η : Type} {here q : Program η} {host : η} {options : Options}
variable {decoded : BuildInfo.Decoded}

/-- Every check that is pending is of a unit of the program. -/
theorem Tidy.isSome_idOf?_of_pending (htidy : here.Tidy) {path : UnitPath}
    (hpath : path ∈ here.pendingChecks.map (·.unit)) :
    (here.state.graph.idOf? path).isSome = true := by
  obtain ⟨id, howed, rfl⟩ := mem_pendingChecks.mp hpath
  rw [Graph.idOf?_pathOf htidy.wellFormed.nodup (htidy.bounded id howed.1)]
  rfl

/-- A round that is forced, or that starts from nothing, rechecks everything. -/
theorem all_mem_frontier_update {prior : Program η}
    (h : prior.forceAll = true ∨ prior.state = {}) (s : Snapshot) :
    ∀ id < s.units.length, id ∈ (prior.update s).frontier := by
  intro id hid
  rcases h with hforced | hnothing
  · exact mem_frontier_update_of_everything (Or.inl hforced) hid
  · refine mem_frontier_update_of_changed (List.getElem?_eq_getElem hid) fun info hinfo => ?_
    rw [hnothing] at hinfo
    cases hinfo

variable [Host η]

/-- **A program that takes over a document recalls the one that was stored**, unless everything is
forced. -/
theorem recalls_restore (htidy : here.Tidy)
    (hdecode : here.buildInfo.decode BuildInfo.toolVersion = .ok decoded)
    (hcalm : ((blank host options).restore decoded).forceAll = false) :
    here.Recalls ((blank host options).restore decoded) := by
  have hrecords := BuildInfo.Document.recordOf?_of_decode_encode htidy.wellFormed hdecode
  have hchecks : decoded.pendingCheck = here.pendingChecks :=
    BuildInfo.Document.pendingCheck_of_decode_encode htidy.wellFormed
      (fun _ hcheck => htidy.isSome_idOf?_of_pending (List.mem_map_of_mem hcheck)) hdecode
  have hroots : ((blank host options).restore decoded).roots
      = carriedRoots decoded.state.graph here.pendingChecks := by
    rw [← hchecks]
    rfl
  have hnumber : ∀ path ∈ here.pendingChecks.map (·.unit),
      ∃ id, decoded.state.graph.idOf? path = some id := by
    intro path hpath
    obtain ⟨id, hid⟩ := Option.isSome_iff_exists.mp (htidy.isSome_idOf?_of_pending hpath)
    exact ⟨id, (BuildInfo.Document.idOf?_of_decode_encode htidy.wellFormed hdecode path).trans hid⟩
  refine ⟨?_, fun path => ?_, fun path hash hknown => ?_, fun path hpath => ?_, fun path hcheck => ?_⟩
  · have htracking : decoded.state.graph.tracking = here.state.graph.tracking :=
      BuildInfo.Document.tracking_of_decode_encode hdecode
    simp only [restore, Bool.or_eq_false_iff, bne_eq_false_iff_eq] at hcalm
    exact hcalm.2.symm.trans htracking
  · show decoded.state.infoOf? path = _
    rw [State.infoOf?, hrecords, Option.map_map]
    exact congrFun Option.map_id_fun' _
  · -- the digest of a document is that of the signature
    have hrecord : (decoded.state.recordOf? path).bind (·.knownHash?) = some hash := hknown
    rw [hrecords, State.infoOf?, Option.map_map] at hrecord
    obtain ⟨_, hread, hhash⟩ := Option.bind_eq_some_iff.mp hrecord
    obtain ⟨r, hr, rfl⟩ := Option.map_eq_some_iff.mp hread
    rw [known?, show here.state.recordOf? path = some r from hr]
    cases hsignature : r.info.signature with
    | unknown => simp [UnitRecord.knownHash?, hsignature] at hhash
    | known found => simpa [UnitRecord.knownHash?, hsignature] using hhash
  · obtain ⟨id, hid⟩ := hnumber path hpath
    refine mem_pendingChecks.mpr ⟨id, ⟨List.mem_append_right _ ?_, List.not_mem_nil⟩,
      Graph.pathOf_of_idOf? hid⟩
    rw [hroots]
    exact mem_carriedRoots.mpr ⟨path, hpath, hid⟩
  · obtain ⟨id, hid⟩ := hnumber path (List.mem_map_of_mem hcheck)
    refine mem_pendingChecks_flagged.mpr ⟨id, Root.flags_append.mpr (Or.inr ?_), List.not_mem_nil,
      Graph.pathOf_of_idOf? hid⟩
    rw [hroots]
    exact flags_carriedRoots.mpr ⟨path, hcheck, hid⟩

/-- What is read back from the stored text is the content of the document. -/
theorem decode_of_decoded? (h : decoded? (some here.buildInfoText) = some decoded) :
    here.buildInfo.decode BuildInfo.toolVersion = .ok decoded := by
  obtain ⟨stored, hstored, hread⟩ := decoded?_eq_some h
  have htool : here.buildInfo.toolVersion = BuildInfo.toolVersion := rfl
  rw [← Option.some.inj hstored, buildInfoText, BuildInfo.Document.read_text htool] at hread
  split at hread
  · exact hread
  · cases hread

/-- **A program that is started with a document** recalls the one that was stored, or rechecks
everything. -/
theorem start_buildInfoText (htidy : here.Tidy)
    (h : start host options (some here.buildInfoText) = .ok q) :
    ∃ (prior : Program η) (s : Snapshot), q = prior.update s
      ∧ (here.Recalls prior ∨ ∀ id < s.units.length, id ∈ (prior.update s).frontier) := by
  rw [start] at h
  rcases hsnapshot : Host.snapshot host [] with ⟨outcome, host'⟩
  rw [hsnapshot] at h
  cases outcome with
  | error e => cases h
  | ok s =>
      cases hdecoded : decoded? (some here.buildInfoText) with
      | none =>
          simp only [hdecoded, Except.ok.injEq] at h
          exact ⟨blank host' options, s, h.symm, Or.inr (all_mem_frontier_update (Or.inr rfl) s)⟩
      | some decoded =>
          simp only [hdecoded, Except.ok.injEq] at h
          refine ⟨(blank host' options).restore decoded, s, h.symm, ?_⟩
          cases hforced : ((blank host' options).restore decoded).forceAll with
          | true => exact Or.inr (all_mem_frontier_update (Or.inl hforced) s)
          | false => exact Or.inl (recalls_restore htidy (decode_of_decoded? hdecoded) hforced)

end Program

end Rebuild
