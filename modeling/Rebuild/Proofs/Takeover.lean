import Rebuild.Proofs.BuildInfo.RoundTrip
import Rebuild.Proofs.Flags
import Rebuild.Proofs.History

/-!
# Taking over a document

What a program finds in the document of another one: the units with what is known about them, the checks
that are pending, the emits that remain with those that were deferred, and the cached diagnostics if they
were stored.

* `Root.merge_of_nodup`: roots of different units are merged into themselves;
* `Program.TakesOver`: a program that took over the document of another one;
* `Program.Orderly.takesOver_restore`, `Program.Orderly.prior_cases`: a program that is started from a
  document takes it over, unless the document is not readable;
* `Program.Orderly.decoded?_buildInfoText`: the document is readable if its numbers fit;
* `Stub.stopped`, `Stub.again`: a program over the host with given units, and the same after a restart.
-/

namespace Rebuild

theorem State.outdates_iff {s : State} {unit : SourceUnit} :
    s.Outdates unit ↔ s.versionOf? unit.path ≠ some unit.version := by
  rw [Outdates, versionOf?]
  cases s.infoOf? unit.path with
  | none => simp
  | some info => simp

theorem Root.merge_of_nodup {roots : List Root} (h : (roots.map (·.unit)).Nodup) :
    merge roots = roots := by
  have hall : ∀ later before : List Root, ((before ++ later).map (·.unit)).Nodup →
      later.foldl insert before = before ++ later := by
    intro later
    induction later with
    | nil => simp
    | cons first rest ih =>
        intro before hnodup
        have hfresh : (before.any fun other => other.unit == first.unit) = false := by
          rw [List.any_eq_false]
          intro other hother hsame
          rw [List.map_append, List.map_cons, List.nodup_append] at hnodup
          exact hnodup.2.2 other.unit (List.mem_map_of_mem hother) first.unit List.mem_cons_self
            (by simpa using hsame)
        rw [List.foldl_cons, insert, hfresh, if_neg Bool.false_ne_true, ih, List.append_assoc,
          List.singleton_append]
        rw [List.append_assoc]
        exact hnodup
  exact hall roots [] h

namespace BuildInfo.Document

variable {content : Content}

/-- The entries that remain after a document was read. -/
theorem remaining_readEmits (content : Content) :
    (readEmits content).remaining
      = content.pendingEmit.remaining.filter fun entry => content.state.graph.contains entry.unit := by
  have hsplit := List.take_append_drop content.pendingEmit.cursor content.pendingEmit.entries
  show ((content.pendingEmit.entries.filter _).drop (content.pendingEmit.consumed.filter _).length) = _
  rw [← hsplit, List.filter_append]
  exact List.drop_left

theorem wellFormed_readEmits (content : Content) : (readEmits content).WellFormed :=
  List.Sublist.length_le ((List.take_sublist _ _).filter _)

end BuildInfo.Document

namespace Program

open BuildInfo.Document

variable {η : Type} {p r : Program η}

/-- The entries of a cache, with diagnostics about their units. -/
def relocatedCache (c : Cache) : Cache :=
  ⟨c.entries.map fun entry => { entry with diagnostics := relocated entry }⟩

theorem relocated_eq {entry : CacheEntry} (h : ∀ d ∈ entry.diagnostics, d.unit = entry.unit) :
    relocated entry = entry.diagnostics := by
  have hsame : ∀ d ∈ entry.diagnostics, { d with unit := entry.unit } = id d := by
    intro d hd
    rw [← h d hd]
    rfl
  rw [relocated, List.map_congr_left hsame, List.map_id]

theorem relocatedCache_eq {c : Cache}
    (h : ∀ entry ∈ c.entries, ∀ d ∈ entry.diagnostics, d.unit = entry.unit) :
    relocatedCache c = c := by
  have hsame : ∀ entry ∈ c.entries, { entry with diagnostics := relocated entry } = id entry := by
    intro entry hentry
    rw [relocated_eq (h entry hentry)]
    rfl
  rw [relocatedCache, List.map_congr_left hsame, List.map_id]

/-- Units have the same entries. -/
theorem units_relocatedCache (c : Cache) :
    (relocatedCache c).entries.map (·.unit) = c.entries.map (·.unit) := by
  rw [relocatedCache, List.map_map]
  rfl

/-- The program `r` took over the document of `p`. -/
structure TakesOver (p r : Program η) : Prop where
  paths : r.state.graph.paths = p.state.graph.paths
  tracking : r.state.graph.tracking = p.state.graph.tracking
  dependents : ∀ id, r.state.graph.dependentsOf id = p.state.graph.dependentsOf id
  records : r.state.records = p.state.records.map fun record => { info := record.info }
  pending : r.pendingRoots = p.pendingRoots
  queue : r.pendingEmit.WellFormed
  remaining : r.pendingEmit.remaining = EmitQueue.requestAll p.deferred p.pendingEmit.remaining
  deferred : r.deferred = []
  sorted : r.cache.Sorted
  cache : p.options.persistDiagnostics = true → r.cache = relocatedCache p.cache

namespace TakesOver

theorem idOf? (h : p.TakesOver r) (path : UnitPath) :
    r.state.graph.idOf? path = p.state.graph.idOf? path := by
  rw [Graph.idOf?, Graph.idOf?, h.paths]

theorem info? (h : p.TakesOver r) (id : UnitId) : r.state.info? id = p.state.info? id := by
  rw [State.info?, State.info?, State.record?, State.record?, h.records, List.getElem?_map,
    Option.map_map]
  rfl

/-- What is known about each unit is the same. -/
theorem infoOf? (h : p.TakesOver r) (path : UnitPath) :
    r.state.infoOf? path = p.state.infoOf? path := by
  have hinfo : ∀ s : State, s.infoOf? path = (s.graph.idOf? path).bind s.info? := by
    intro s
    rw [State.infoOf?, State.recordOf?, Option.map_bind]
    rfl
  rw [hinfo, hinfo, h.idOf?]
  congr 1
  funext id
  exact h.info? id

theorem versionOf? (h : p.TakesOver r) (path : UnitPath) :
    r.state.versionOf? path = p.state.versionOf? path := by
  rw [State.versionOf?, State.versionOf?, h.infoOf?]

theorem pathOf (h : p.TakesOver r) (id : UnitId) :
    r.state.graph.pathOf id = p.state.graph.pathOf id := by
  rw [Graph.pathOf, h.paths]
  rfl

theorem size (h : p.TakesOver r) : r.state.graph.size = p.state.graph.size := by
  rw [Graph.size, h.paths]
  rfl

theorem wellFormed (h : p.TakesOver r) (hs : p.state.WellFormed) : r.state.WellFormed := by
  refine ⟨?_, ?_⟩
  · rw [h.paths]
    exact hs.nodup
  · rw [h.records, List.length_map, h.size]
    exact hs.length

/-- The same units wait. -/
theorem owed (h : p.TakesOver r) (id : UnitId) : r.Owed id ↔ p.Owed id := by
  rw [← mem_pendingRoots, ← mem_pendingRoots, h.pending]

/-- The same checks are pending, in the same order and with the same flags. -/
theorem pendingChecks (h : p.TakesOver r) : r.pendingChecks = p.pendingChecks := by
  rw [Program.pendingChecks, Program.pendingChecks, h.pending]
  exact List.map_congr_left fun root _ => by rw [h.pathOf]

end TakesOver

theorem nodup_pendingRoots (p : Program η) : (p.pendingRoots.map (·.unit)).Nodup := by
  rw [pendingRoots]
  exact List.Nodup.sublist (List.filter_sublist.map _) (Root.nodup_merge _)

/-- The roots of the pending checks are those that they were made from. -/
theorem Tidy.carriedRoots_eq (htidy : p.Tidy) {g : Graph} (hpaths : g.paths = p.state.graph.paths) :
    carriedRoots g p.pendingChecks = p.pendingRoots := by
  rw [carriedRoots, pendingChecks, List.filterMap_map]
  have hone : ∀ root ∈ p.pendingRoots,
      ((fun check : PendingCheck => (g.idOf? check.unit).map fun unit => Root.mk unit check.isGlobal)
        ∘ fun root : Root => PendingCheck.mk (p.state.graph.pathOf root.unit) root.isGlobal) root
        = some root := by
    intro root hroot
    have howed : p.Owed root.unit := mem_pendingRoots.mp (List.mem_map_of_mem hroot)
    have hid := Graph.idOf?_pathOf htidy.wellFormed.nodup (htidy.bounded root.unit howed.1)
    have hid' : g.idOf? (p.state.graph.pathOf root.unit) = some root.unit := by
      rw [Graph.idOf?, hpaths]
      exact hid
    simp only [Function.comp_apply, hid', Option.map_some]
  rw [List.filterMap_congr hone]
  exact List.filterMap_some

/-- Where every entry of a sorted cache is current, all of them are stored and read back. -/
theorem restoredCache_readBack_of_current {content : BuildInfo.Content} {c : Cache}
    (hcache : content.cache = some c) (hsorted : c.Sorted) (hcurrent : c.Current content.state)
    {g : Graph} (hinfo : ∀ path, (readBack content g).state.versionOf? path
      = content.state.versionOf? path) :
    restoredCache (readBack content g) = relocatedCache c := by
  have hdiagnostics : (readBack content g).diagnostics
      = c.entries.map fun entry => (entry.unit, relocated entry) := by
    show (((content.cache.map (·.entries)).getD []).filterMap _) = _
    rw [hcache, ← List.filterMap_eq_map]
    exact List.filterMap_congr fun entry hentry => if_pos (hcurrent entry hentry)
  have hrelocated : (relocatedCache c).Sorted :=
    List.pairwise_map.mpr (List.Pairwise.imp (fun hless => hless) hsorted)
  rw [restoredCache, hdiagnostics, List.foldl_map, ← hrelocated.foldl_commit, relocatedCache,
    List.foldl_map]
  refine List.foldl_ext _ _ _ fun cache entry hentry => ?_
  have hversion := (hinfo entry.unit).trans (hcurrent entry hentry)
  obtain ⟨info, hsome, hsame⟩ := Option.map_eq_some_iff.mp hversion
  simp only [hsome, hsame]

/-! ### The whole document -/

theorem Orderly.regular (hp : p.Orderly) : p.state.graph.Regular := by
  rw [hp.graph]
  exact Snapshot.regular_graph _ _

variable [Host η]

/-- What is read back from the document of an orderly program. -/
theorem Orderly.decode_buildInfo (hp : p.Orderly) :
    ∃ g : Graph, g.paths = p.state.graph.paths ∧ g.tracking = p.state.graph.tracking
      ∧ (∀ id, g.dependentsOf id = p.state.graph.dependentsOf id)
      ∧ p.buildInfo.decode BuildInfo.toolVersion = .ok (readBack p.content g) := by
  have hs : p.content.state.WellFormed := hp.tidy.wellFormed
  exact decode_encode hs hp.regular

/-- Every entry that is current is stored and read back. -/
theorem Orderly.restoredCache_readBack (hp : p.Orderly) (hpersist : p.options.persistDiagnostics = true)
    {g : Graph} (hinfo : ∀ path, (readBack p.content g).state.versionOf? path
      = p.state.versionOf? path) :
    restoredCache (readBack p.content g) = relocatedCache p.cache :=
  restoredCache_readBack_of_current (if_pos hpersist) hp.sorted hp.current hinfo

/-- **A program that takes over the document of an orderly one.** -/
theorem Orderly.takesOver_restore (hp : p.Orderly) (host : η) (options : Options)
    {decoded : BuildInfo.Decoded} (hdecode : p.buildInfo.decode BuildInfo.toolVersion = .ok decoded) :
    p.TakesOver ((blank host options).restore decoded) := by
  obtain ⟨g, hpaths, htracking, hdependents, hread⟩ := hp.decode_buildInfo
  obtain rfl : readBack p.content g = decoded := Except.ok.inj (hread.symm.trans hdecode)
  have hknown : ∀ entries : List PendingEmit,
      (∀ entry ∈ entries, entry ∈ p.pendingEmit.entries ∨ entry ∈ p.deferred) →
      (entries.filter fun entry => p.state.graph.contains entry.unit) = entries := by
    intro entries hentries
    exact List.filter_eq_self.mpr fun entry hentry => hp.known entry (hentries entry hentry)
  have hchecks : (readBack p.content g).pendingCheck = p.pendingChecks := by
    refine List.filter_eq_self.mpr fun check hcheck => ?_
    exact hp.tidy.isSome_idOf?_of_pending (List.mem_map_of_mem hcheck)
  have hroots : ((blank host options).restore (readBack p.content g)).roots = p.pendingRoots := by
    show carriedRoots g (readBack p.content g).pendingCheck = _
    rw [hchecks]
    exact hp.tidy.carriedRoots_eq hpaths
  have hversions : ∀ path, (readBack p.content g).state.versionOf? path = p.state.versionOf? path := by
    intro path
    rw [State.versionOf?_eq_map_recordOf?, recordOf?_of_decode_encode hp.tidy.wellFormed hread,
      Option.map_map]
    rfl
  refine ⟨hpaths, htracking, hdependents, rfl, ?_, wellFormed_readEmits _, ?_, rfl,
    sorted_restoredCache _, fun hpersist => ?_⟩
  · show (Root.merge ([] ++ ((blank host options).restore (readBack p.content g)).roots)).filter _ = _
    rw [hroots, List.nil_append, Root.merge_of_nodup (nodup_pendingRoots p)]
    exact List.filter_eq_self.mpr fun _ _ => rfl
  · show (readEmits p.content).remaining = _
    rw [remaining_readEmits]
    show ((p.pendingEmit.pushAll p.deferred).remaining.filter _) = _
    rw [EmitQueue.remaining_pushAll hp.queue]
    show (EmitQueue.requestAll p.deferred p.pendingEmit.remaining).filter
      (fun entry => p.state.graph.contains entry.unit) = _
    rw [EmitQueue.filter_requestAll, hknown p.deferred fun _ => Or.inr,
      hknown p.pendingEmit.remaining fun _ hentry => Or.inl (List.mem_of_mem_drop hentry)]
  · exact hp.restoredCache_readBack hpersist hversions

/-- A start from the document of an orderly program takes it over, or is a start from nothing. -/
theorem Orderly.prior_cases (hp : p.Orderly) (host : η) (options : Options) :
    prior host options (some p.buildInfoText) = blank host options
      ∨ p.TakesOver (prior host options (some p.buildInfoText)) := by
  rw [prior]
  cases hdecoded : decoded? (some p.buildInfoText) with
  | none => exact Or.inl rfl
  | some decoded => exact Or.inr (hp.takesOver_restore host options (decode_of_decoded? hdecoded))

/-- The document of an orderly program is readable when its numbers fit. -/
theorem Orderly.decoded?_buildInfoText (hp : p.Orderly) (hfits : p.buildInfo.Fits) :
    ∃ g : Graph, g.paths = p.state.graph.paths ∧ g.tracking = p.state.graph.tracking
      ∧ decoded? (some p.buildInfoText) = some (readBack p.content g) := by
  obtain ⟨g, hpaths, htracking, _, hread⟩ := hp.decode_buildInfo
  refine ⟨g, hpaths, htracking, ?_⟩
  have htool : p.buildInfo.toolVersion = BuildInfo.toolVersion := rfl
  rw [decoded?, Option.bind_some, buildInfoText, read_text htool, if_pos hfits, hread]
  rfl

end Program

/-! ### The host with given units -/

namespace Stub

/-- The program over the units `a` and `b` after some requests. -/
def stopped (requests : List (Request Stub)) : Program Stub :=
  (Request.play requests (scope []).fresh).2

/-- The same program, stored and started again. -/
def again (requests : List (Request Stub)) : Program Stub :=
  (Program.prior (stopped requests).host (stopped requests).options
    (some (stopped requests).buildInfoText)).update (stopped requests).host.snapshot

def stoppedLog (requests : List (Request Stub)) : List HistoryEvent :=
  (Request.play requests (scope []).fresh).1
    ++ ((Program.blank (scope []) {}).opening (scope []).snapshot ++ [.started false])

def againLog (requests : List (Request Stub)) : List HistoryEvent :=
  (stopped requests).opening (stopped requests).host.snapshot
    ++ .restarted (stopped requests).options.persistDiagnostics :: stoppedLog requests

theorem history_stopped (requests : List (Request Stub)) :
    History (stopped requests) (stoppedLog requests) := by
  have hfresh : Program.start (scope []) {} none = .ok (scope []).fresh := rfl
  exact (History.start hfresh).play requests

theorem history_again (requests : List (Request Stub)) :
    History (again requests) (againLog requests) :=
  .restart (history_stopped requests)
    (Program.start_eq_ok_iff.mpr ⟨(stopped requests).host, (stopped requests).host.snapshot, rfl, rfl⟩)

end Stub

end Rebuild
