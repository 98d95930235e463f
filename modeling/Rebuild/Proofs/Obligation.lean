import Rebuild.Proofs.Takeover

/-!
# Emits that are owed

A unit has to be emitted in full once after each change of its text.  Until that has succeeded, a
request for it is open: it remains in the emit queue, or it is deferred because the emit failed.
Requests are carried from round to round, and through a document when the program is stored and
started again.

* `Program.OwesFull`: a full emit of a unit is open;
* `Program.OwesFull.update`, `Program.owesFull_update_of_outdates`: a round keeps what is open and asks for
  what changed;
* `Obliges`: every unit that was not emitted in full since its last change is owed;
* `Action.obliges`, `History.obliges`: every action keeps that, and so does every history;
* `full_emit_owed`: no emit is lost.
-/

namespace Rebuild

namespace Program

variable {η : Type} {p q r : Program η} {path : UnitPath} {s : Snapshot}

/-! ### Open requests -/

/-- A full emit of a unit is requested, or failed and is deferred. -/
def OwesFull (p : Program η) (path : UnitPath) : Prop :=
  ⟨path, .full⟩ ∈ p.pendingEmit.remaining ∨ ⟨path, .full⟩ ∈ p.deferred

/-- A round keeps the requests for units that are still there. -/
theorem OwesFull.update (h : p.OwesFull path)
    (hpath : (s.graph p.options.dependencyTracking).contains path = true) :
    (p.update s).OwesFull path := by
  refine Or.inl ?_
  show _ ∈ (roundEmits _ _ _ _ _).remaining
  rw [remaining_roundEmits]
  refine EmitQueue.full_mem_requestAll.mpr (Or.inr (EmitQueue.full_mem_requestAll.mpr ?_))
  rcases h with hqueued | hdeferred
  · exact Or.inr (List.mem_filter.mpr ⟨hqueued, hpath⟩)
  · exact Or.inl (List.mem_filter.mpr ⟨hdeferred, hpath⟩)

/-- A round requests the units that are new or have another version. -/
theorem owesFull_update_of_outdates {unit : SourceUnit} (hunit : unit ∈ s.units)
    (houtdates : p.state.Outdates unit) : (p.update s).OwesFull unit.path := by
  obtain ⟨id, hid⟩ := List.mem_iff_getElem?.mp hunit
  have hpath : (s.graph p.options.dependencyTracking).pathOf id = unit.path :=
    Snapshot.pathOf_graph hid
  refine Or.inl ?_
  show _ ∈ (roundEmits _ _ _ _ _).remaining
  rw [remaining_roundEmits]
  refine EmitQueue.full_mem_requestAll.mpr (Or.inl ?_)
  refine List.mem_map.mpr ⟨id, ?_, congrArg (PendingEmit.mk · EmitKind.full) hpath⟩
  split
  · rw [Graph.mem_units, State.graph_ofSnapshot, Snapshot.graph_size]
    exact (List.getElem?_eq_some_iff.mp hid).1
  · exact State.mem_changed_ofSnapshot.mpr ⟨unit, hid, houtdates⟩

end Program

/-! ### Obligations -/

section Obliges

variable {η : Type} {p q r : Program η} {s : Snapshot} {log events : List HistoryEvent}

/-- Every unit that was not emitted in full since its last change is owed. -/
def Obliges (p : Program η) (log : List HistoryEvent) : Prop :=
  ∀ path, p.state.graph.contains path = true →
    .emitted ⟨path, .full⟩ ∉ (HistoryEvent.changed path).since log → p.OwesFull path

/-- What keeps the units and the open requests and reports no change keeps what is owed. -/
theorem Obliges.mono (h : Obliges p log) (hgraph : q.state.graph = p.state.graph)
    (hchanged : ∀ path, .changed path ∉ events)
    (howes : ∀ path, .emitted ⟨path, .full⟩ ∉ events → p.OwesFull path → q.OwesFull path) :
    Obliges q (events ++ log) := by
  intro path hpath hopen
  rw [HistoryEvent.since_append_of_not_mem (hchanged path), List.mem_append, not_or] at hopen
  rw [hgraph] at hpath
  exact howes path hopen.1 (h path hpath hopen.2)

/-- A round that starts from nothing asks for everything. -/
theorem obliges_update_of_blank (hblank : r.state = {}) : Obliges (r.update s) log := by
  intro path hpath _
  rw [Program.state_update, State.graph_ofSnapshot, Graph.contains, Snapshot.idOf?_graph_isSome] at hpath
  obtain ⟨unit, hunit⟩ := Option.isSome_iff_exists.mp hpath
  obtain ⟨hmem, rfl⟩ := Snapshot.unit?_eq_some_iff.mp hunit
  refine Program.owesFull_update_of_outdates hmem fun info hinfo => ?_
  rw [hblank] at hinfo
  cases hinfo

/-- A round that starts from `r`, which knows the versions of `p` and owes what `p` owes. -/
theorem Obliges.update (h : Obliges p log) (htidy : p.Tidy)
    (hversions : ∀ path, r.state.versionOf? path = p.state.versionOf? path)
    (howes : ∀ path, p.OwesFull path → r.OwesFull path) :
    Obliges (r.update s) (p.opening s ++ log) := by
  intro path hpath hopen
  have hin : (s.graph r.options.dependencyTracking).contains path = true := hpath
  rw [Program.state_update, State.graph_ofSnapshot, Graph.contains, Snapshot.idOf?_graph_isSome] at hpath
  obtain ⟨unit, hunit⟩ := Option.isSome_iff_exists.mp hpath
  obtain ⟨hmem, rfl⟩ := Snapshot.unit?_eq_some_iff.mp hunit
  by_cases hversion : p.state.versionOf? unit.path = some unit.version
  · -- the text is the same, so that the request was open before
    have hsame : .changed unit.path ∉ p.opening s := by
      intro hchanged
      obtain ⟨other, hother, hne⟩ := Program.exists_of_changed_mem_opening hchanged
      obtain rfl : other = unit := by
        have hfound := Snapshot.unit?_eq_some_iff.mpr ⟨hother.1, hother.2⟩
        exact Option.some.inj (hfound.symm.trans hunit)
      exact hne hversion
    rw [HistoryEvent.since_append_of_not_mem hsame, List.mem_append, not_or] at hopen
    have hknown : p.state.graph.contains unit.path = true := by
      rw [Graph.contains, ← State.versionOf?_isSome htidy.wellFormed, hversion]
      rfl
    exact (howes _ (h _ hknown hopen.2)).update hin
  · refine Program.owesFull_update_of_outdates hmem (State.outdates_iff.mpr ?_)
    rw [hversions]
    exact hversion

/-- What was taken over owes what was stored. -/
theorem Program.TakesOver.owesFull (h : p.TakesOver r) {path : UnitPath} (howes : p.OwesFull path) :
    r.OwesFull path := by
  refine Or.inl ?_
  rw [h.remaining]
  exact EmitQueue.full_mem_requestAll.mpr howes.symm

variable [Host η] {outside : Prop}

/-- An action keeps what is owed. -/
theorem Action.obliges (hp : p.Orderly) (hobliges : Obliges p log)
    (h : Action outside p events q) : Obliges q (events ++ log) := by
  cases h with
  | recheck next =>
      obtain ⟨queued, hcommits⟩ := Program.commits_of_nextUnit hp.tidy next
      refine hobliges.mono hcommits.rechecks.graph (by simp) fun path _ howes => ?_
      rw [Program.OwesFull, hcommits.pendingEmit, hcommits.deferred]
      rcases howes with hqueued | hdeferred
      · refine Or.inl ?_
        split
        · rw [EmitQueue.remaining_push hp.queue]
          exact EmitQueue.full_mem_request hqueued
        · exact hqueued
      · exact Or.inr hdeferred
  | exhaust phase next _ =>
      obtain ⟨_, rfl⟩ := Program.nextUnit_none hp.tidy next
      exact hobliges.mono rfl (by simp) fun _ _ howes => howes
  | @emit entry queue next =>
      obtain ⟨hremaining, _⟩ := EmitQueue.next?_eq_some next
      have hchanged : ∀ path, .changed path ∉ (p.writtenBy entry).map HistoryEvent.emitted := by simp
      obtain ⟨host, hwritten, hemit⟩ | ⟨host, hwritten, hemit⟩ :=
        Program.emit_cases { p with pendingEmit := queue, phase := .emitPending } entry
      · refine hobliges.mono (by rw [hemit]) hchanged fun path hnot howes => ?_
        rw [hemit]
        rw [Program.OwesFull, hremaining] at howes
        rcases howes with hqueued | hdeferred
        · rcases List.mem_cons.mp hqueued with hfirst | hrest
          · exact absurd (List.mem_map_of_mem (hwritten ▸ List.mem_singleton.mpr hfirst)) hnot
          · exact Or.inl hrest
        · exact Or.inr hdeferred
      · refine hobliges.mono (by rw [hemit]) hchanged fun path _ howes => ?_
        rw [hemit]
        rw [Program.OwesFull, hremaining] at howes
        rcases howes with hqueued | hdeferred
        · rcases List.mem_cons.mp hqueued with hfirst | hrest
          · exact Or.inr (List.mem_append_right _ (List.mem_singleton.mpr hfirst))
          · exact Or.inl hrest
        · exact Or.inr (List.mem_append_left _ hdeferred)
  | demand unit =>
      obtain ⟨host, cancelled, cache, hdemand, _⟩ := Program.demand_cases p unit
      refine hobliges.mono (by rw [hdemand]) (by simp) fun path _ howes => ?_
      rw [hdemand]
      exact howes
  | surround host cancelled _ => exact hobliges.mono rfl (by simp) fun _ _ howes => howes
  | switch options _ _ => exact hobliges.mono rfl (by simp) fun _ _ howes => howes
  | round host options forceAll s _ => exact hobliges.update hp.tidy (fun _ => rfl) fun _ howes => howes

/-- Every history that did not start from a document of unknown origin keeps what is owed. -/
theorem History.obliges (h : History p log) (hnew : .started true ∉ log) : Obliges p log := by
  induction h with
  | @start host options document p hstart =>
      obtain ⟨host', s, _, rfl⟩ := Program.start_eq_ok_iff.mp hstart
      cases document with
      | none => exact obliges_update_of_blank rfl
      | some stored => exact absurd (List.mem_append_right _ List.mem_cons_self) hnew
  | @request p log h r ih =>
      rw [List.mem_append, not_or] at hnew
      have hpair := Actions.induct (motive := fun p log => p.Orderly ∧ Obliges p log)
        (fun hp haction => ⟨haction.orderly hp.1, haction.obliges hp.1 hp.2⟩) log
        ⟨h.orderly, ih hnew.2⟩ (r.actions p)
      exact hpair.2
  | @restart p q log h host options hstart ih =>
      rw [List.mem_append, List.mem_cons, not_or, not_or] at hnew
      obtain ⟨host', s, _, rfl⟩ := Program.start_eq_ok_iff.mp hstart
      rcases h.orderly.prior_cases host' options with hblank | htakes
      · exact obliges_update_of_blank (by rw [hblank]; rfl)
      · have hobliges : Obliges p ([.restarted p.options.persistDiagnostics] ++ log) :=
          (ih hnew.2.2).mono rfl (by simp) fun _ _ howes => howes
        exact hobliges.update h.orderly.tidy htakes.versionOf? fun _ howes => htakes.owesFull howes

/-- **No emit is lost.**  However a program came about: a unit for which no full emit has succeeded since
its version last changed, or since it was added, waits in the emit queue or among the deferred emits, with
a full emit. -/
theorem full_emit_owed (h : History p log) (hnew : .started true ∉ log) :
    ∀ unit ∈ p.snapshot.units,
      .emitted ⟨unit.path, .full⟩ ∉ (HistoryEvent.changed unit.path).since log →
        ⟨unit.path, .full⟩ ∈ p.pendingEmit.remaining ∨ ⟨unit.path, .full⟩ ∈ p.deferred := by
  intro unit hunit hopen
  refine h.obliges hnew unit.path ?_ hopen
  rw [h.orderly.graph, Graph.contains, Graph.idOf?_isSome_iff, Snapshot.graph_paths]
  exact List.mem_map_of_mem hunit

end Obliges

/-- The unit `a` was emitted, then the build was cancelled and started again: `b` is still owed. -/
theorem full_emit_owed_again :
    .emitted ⟨"a", .full⟩ ∈ Stub.againLog [.check, .emit, .token true]
      ∧ (⟨"b", .full⟩ ∈ (Stub.again [.check, .emit, .token true]).pendingEmit.remaining
        ∨ ⟨"b", .full⟩ ∈ (Stub.again [.check, .emit, .token true]).deferred) := by
  have hunit : { path := "b", version := "one" }
      ∈ (Stub.again [.check, .emit, .token true]).snapshot.units := by
    show _ ∈ (Stub.stopped [.check, .emit, .token true]).host.snapshot.units
    decide
  exact ⟨by decide,
    full_emit_owed (Stub.history_again _) (by decide) _ hunit (by decide)⟩

end Rebuild
