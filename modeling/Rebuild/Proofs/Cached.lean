import Rebuild.Proofs.Takeover

/-!
# Pending or cached

Every unit waits for a recheck, or its diagnostics are cached.  Both at once happens only when
diagnostics are asked for outside the order of the round.

* `Program.Accounted`: every unit waits or is cached;
* `Program.Apart`: no unit that waits is cached;
* `Program.Accounted.update`, `Program.apart_update`: a round keeps the first and brings about the second;
* `Action.accounted`, `Action.apart`: what actions do to both;
* `pending_or_cached`: what holds of every program with a history.
-/

namespace Rebuild

namespace Program

variable {η : Type} {p q r : Program η} {s : Snapshot} {id : UnitId}

/-- Every unit waits for a recheck or has cached diagnostics. -/
def Accounted (p : Program η) : Prop :=
  ∀ id < p.state.graph.size, p.Owed id ∨ (p.cache.find? (p.state.graph.pathOf id)).isSome = true

/-- No unit that waits for a recheck has cached diagnostics. -/
def Apart (p : Program η) : Prop :=
  ∀ id, p.Owed id → p.cache.find? (p.state.graph.pathOf id) = none

/-! ### Rounds -/

theorem owed_update : (p.update s).Owed id ↔ id ∈ (p.update s).frontier := by
  rw [Owed, processed_update]
  simp

/-- A round of which nothing is known finds everything new. -/
theorem accounted_update_of_blank (hblank : r.state = {}) : (r.update s).Accounted := by
  intro id hid
  rw [state_update, State.graph_ofSnapshot, Snapshot.graph_size] at hid
  exact Or.inl (owed_update.mpr (all_mem_frontier_update (Or.inr hblank) s id hid))

/-- A round carries on what waits and keeps what is cached, unless it waits now. -/
theorem Accounted.update (h : p.Accounted) (hs : p.state.WellFormed)
    (hcurrent : p.cache.Current p.state) : (p.update s).Accounted := by
  intro id hid
  rw [owed_update]
  rw [state_update, State.graph_ofSnapshot] at hid
  by_cases hwaits : id ∈ (p.update s).frontier
  · exact Or.inl hwaits
  · have hlt : id < s.units.length := by rwa [Snapshot.graph_size] at hid
    have hunit := List.getElem?_eq_getElem hlt
    have hpath : (s.graph p.options.dependencyTracking).pathOf id = s.units[id].path :=
      Snapshot.pathOf_graph hunit
    have hnumber : (s.graph p.options.dependencyTracking).idOf? s.units[id].path = some id :=
      Snapshot.idOf?_graph_of_getElem? _ hunit
    -- the unit has the version it had, since it would wait otherwise
    have hversion : p.state.versionOf? s.units[id].path = some s.units[id].version := by
      by_contra hne
      refine hwaits (mem_frontier_update_of_changed hunit fun info hinfo hsame => hne ?_)
      rw [State.versionOf?, hinfo, Option.map_some, hsame]
    obtain ⟨old, hold⟩ := Option.isSome_iff_exists.mp
      ((State.versionOf?_isSome hs s.units[id].path).symm.trans (by rw [hversion]; rfl))
    have hsame := Graph.pathOf_of_idOf? hold
    rcases h old (Graph.lt_size_of_idOf? hold) with howed | hcached
    · exact absurd (mem_frontier_update_of_owed howed (by rw [hsame]; exact hnumber)) hwaits
    · rw [hsame] at hcached
      obtain ⟨entry, hentry⟩ := Option.isSome_iff_exists.mp hcached
      obtain ⟨hmem, hof⟩ := Cache.mem_of_find? hentry
      have hfound : s.unit? s.units[id].path = some s.units[id] :=
        Snapshot.unit?_eq_some_iff.mpr ⟨List.getElem_mem hlt, rfl⟩
      have hsaved : s.units[id].version = entry.version := by
        have hat := hcurrent entry hmem
        rw [hof, hversion] at hat
        exact Option.some.inj hat
      refine Or.inr ?_
      show ((p.update s).cache.find? ((s.graph p.options.dependencyTracking).pathOf id)).isSome = true
      rw [hpath, find?_cache_update hnumber hfound hentry hsaved hwaits]
      rfl

/-- A round forgets what is cached about the units that wait. -/
theorem apart_update (p : Program η) (s : Snapshot) : (p.update s).Apart := by
  intro id howed
  have hwaits := owed_update.mp howed
  show Cache.find? (Cache.invalidateAll _ _) _ = none
  rw [Cache.find?_invalidateAll, if_pos]
  obtain ⟨root, hroot, rfl⟩ := List.mem_map.mp (frontier_update ▸ hwaits)
  exact List.mem_map_of_mem hroot

/-- What a document brings along is accounted for, if its diagnostics were stored. -/
theorem TakesOver.accounted (h : p.TakesOver r) (hpersist : p.options.persistDiagnostics = true)
    (hacc : p.Accounted) : r.Accounted := by
  intro id hid
  rw [h.size] at hid
  rw [h.owed, h.pathOf]
  refine (hacc id hid).imp (fun howed => howed) fun hcached => ?_
  rw [Cache.find?_isSome_iff, h.cache hpersist, units_relocatedCache, ← Cache.find?_isSome_iff]
  exact hcached

theorem TakesOver.current (h : p.TakesOver r) (hpersist : p.options.persistDiagnostics = true)
    (hcurrent : p.cache.Current p.state) : r.cache.Current r.state := by
  intro entry hentry
  rw [h.cache hpersist] at hentry
  obtain ⟨stored, hstored, rfl⟩ := List.mem_map.mp hentry
  rw [h.versionOf?]
  exact hcurrent stored hstored

variable [Host η]

/-! ### Rechecks -/

theorem Commits.unit_not_owed {unit : UnitId} {queued : List UnitId} (h : p.Commits unit queued q) :
    ¬ q.Owed unit := by
  intro howed
  refine howed.2 ?_
  rw [h.rechecks.processed]
  exact List.mem_append_right _ List.mem_cons_self

/-- After a recheck, the unit is cached, and the others wait or are cached as before. -/
theorem Commits.accounted {unit : UnitId} {queued : List UnitId} (h : p.Commits unit queued q)
    (hp : p.Orderly) (hacc : p.Accounted) : q.Accounted := by
  have hgraph := h.rechecks.graph
  intro id hid
  rw [hgraph] at hid ⊢
  by_cases hunit : id = unit
  · subst hunit
    obtain ⟨record, hrecord⟩ : ∃ record, p.state.record? id = some record :=
      ⟨_, List.getElem?_eq_getElem (by rw [hp.tidy.wellFormed.length]; exact hid)⟩
    rw [h.rechecks.cached record hrecord]
    exact Or.inr rfl
  · by_cases howed : q.Owed id
    · exact Or.inl howed
    · rw [h.rechecks.kept id hid hunit howed]
      refine Or.inr ((hacc id hid).resolve_left fun hwaited => ?_)
      rcases (h.rechecks.covered id (Or.inr hwaited.1)).processed_or_owed with hdone | hwaits
      · rw [h.rechecks.processed] at hdone
        rcases List.mem_append.mp hdone with hbefore | hnow
        · exact hwaited.2 hbefore
        · exact hunit (List.mem_singleton.mp hnow)
      · exact howed hwaits

/-- A recheck forgets what is cached about the units that are queued because of it. -/
theorem Commits.apart {unit : UnitId} {queued : List UnitId} (h : p.Commits unit queued q)
    (hp : p.Orderly) (hapart : p.Apart) : q.Apart := by
  have hgraph := h.rechecks.graph
  intro id howed
  rw [hgraph, h.cache, Cache.find?_invalidateAll]
  split
  · rfl
  · rename_i hnot
    have hwaited : p.Owed id := by
      rcases h.owed_or_queued id howed with hbefore | hqueued
      · exact hbefore
      · exact absurd (List.mem_map_of_mem hqueued) hnot
    rw [Cache.find?_commit, if_neg]
    · exact hapart id hwaited
    · intro hpath
      have hsame := Graph.pathOf_inj hp.tidy.wellFormed.nodup
        (hp.tidy.bounded unit h.rechecks.awaited) (hp.tidy.bounded id hwaited.1) hpath
      exact h.unit_not_owed (hsame ▸ howed)

end Program

namespace Action

variable {η : Type} [Host η] {outside : Prop} {p q : Program η} {events : List HistoryEvent}

/-- An action keeps every unit accounted for. -/
theorem accounted (hp : p.Orderly) (hacc : p.Accounted) (h : Action outside p events q) :
    q.Accounted := by
  cases h with
  | recheck next =>
      obtain ⟨queued, hcommits⟩ := Program.commits_of_nextUnit hp.tidy next
      exact hcommits.accounted hp hacc
  | exhaust phase next _ =>
      obtain ⟨hdone, rfl⟩ := Program.nextUnit_none hp.tidy next
      intro id hid
      exact Or.inr ((hacc id hid).resolve_left fun howed => howed.2 (hdone id howed.1))
  | @emit entry queue next =>
      obtain ⟨host, deferred, hemit⟩ :=
        Program.emit_frame { p with pendingEmit := queue, phase := .emitPending } entry
      rw [hemit]
      exact hacc
  | demand unit =>
      obtain ⟨host, cancelled, cache, hdemand, hkept⟩ := Program.diagnosticsOf_frame p unit
      rw [hdemand]
      intro id hid
      refine (hacc id hid).imp (fun howed => howed) fun hcached => ?_
      obtain ⟨entry, hentry⟩ := Option.isSome_iff_exists.mp hcached
      exact Option.isSome_iff_exists.mpr ⟨entry, hkept _ _ hentry⟩
  | surround host cancelled _ => exact hacc
  | switch options _ _ => exact hacc
  | round host options forceAll s _ =>
      exact Program.Accounted.update (p := { p with host, options, forceAll }) hacc
        hp.tidy.wellFormed hp.current

/-- An action keeps the units that wait apart from those that are cached, unless diagnostics are asked
for. -/
theorem apart (hp : p.Orderly) (hapart : p.Apart) (h : Action outside p events q)
    (hcalm : .demanded ∉ events) : q.Apart := by
  cases h with
  | recheck next =>
      obtain ⟨queued, hcommits⟩ := Program.commits_of_nextUnit hp.tidy next
      exact hcommits.apart hp hapart
  | exhaust phase next _ =>
      obtain ⟨hdone, rfl⟩ := Program.nextUnit_none hp.tidy next
      intro id howed
      simp [Program.Owed, Program.frontier] at howed
  | @emit entry queue next =>
      obtain ⟨host, deferred, hemit⟩ :=
        Program.emit_frame { p with pendingEmit := queue, phase := .emitPending } entry
      rw [hemit]
      exact hapart
  | demand unit => exact absurd List.mem_cons_self hcalm
  | surround host cancelled _ => exact hapart
  | switch options _ _ => exact hapart
  | round host options forceAll s _ => exact Program.apart_update _ s

end Action

section Histories

variable {η : Type} {p q : Program η} {log events : List HistoryEvent}

/-- Since the last round was opened, the units that wait are apart from those that are cached, as long as
no diagnostics were asked for. -/
def ApartUnlessDemanded (p : Program η) (log : List HistoryEvent) : Prop :=
  .demanded ∉ HistoryEvent.opened.since log → p.Apart

/-- Opening a round starts over. -/
theorem apartUnlessDemanded_update (p r : Program η) (s : Snapshot) :
    ApartUnlessDemanded (r.update s) (p.opening s ++ log) :=
  fun _ => Program.apart_update r s

variable [Host η] {outside : Prop}

theorem Action.apartUnlessDemanded (hp : p.Orderly) (hapart : ApartUnlessDemanded p log)
    (h : Action outside p events q) : ApartUnlessDemanded q (events ++ log) := by
  intro hcalm
  by_cases hopened : .opened ∈ events
  · cases h with
    | round host options forceAll s _ => exact Program.apart_update _ s
    | _ => simp at hopened
  · rw [HistoryEvent.since_append_of_not_mem hopened, List.mem_append, not_or] at hcalm
    exact h.apart hp (hapart hcalm.2) hcalm.1

/-- Every unit waits or is cached, if the program was started from nothing and was stored with its
diagnostics each time that it was started again. -/
theorem History.accounted (h : History p log) (hnew : .started true ∉ log)
    (hstored : .restarted false ∉ log) : p.Accounted := by
  induction h with
  | @start host options document p hstart =>
      obtain ⟨host', s, _, rfl⟩ := Program.start_eq_ok_iff.mp hstart
      cases document with
      | none => exact Program.accounted_update_of_blank rfl
      | some stored => exact absurd (List.mem_append_right _ List.mem_cons_self) hnew
  | @request p log h r ih =>
      rw [List.mem_append, not_or] at hnew hstored
      have hpair := Actions.induct (motive := fun p _ => p.Orderly ∧ p.Accounted)
        (fun hp haction => ⟨haction.orderly hp.1, haction.accounted hp.1 hp.2⟩) log
        ⟨h.orderly, ih hnew.2 hstored.2⟩ (r.actions p)
      exact hpair.2
  | @restart p q log h host options hstart ih =>
      rw [List.mem_append, List.mem_cons, not_or, not_or] at hnew hstored
      obtain ⟨host', s, _, rfl⟩ := Program.start_eq_ok_iff.mp hstart
      rcases h.orderly.prior_cases host' options with hblank | htakes
      · exact Program.accounted_update_of_blank (by rw [hblank]; rfl)
      · have hpersist : p.options.persistDiagnostics = true := by
          by_contra hoff
          exact hstored.2.1 (by rw [Bool.eq_false_iff.mpr hoff])
        have hacc := htakes.accounted hpersist (ih hnew.2.2 hstored.2.2)
        exact hacc.update (htakes.wellFormed h.orderly.tidy.wellFormed)
          (htakes.current hpersist h.orderly.current)

/-- The units that wait are apart from those that are cached until diagnostics are asked for. -/
theorem History.apartUnlessDemanded (h : History p log) : ApartUnlessDemanded p log := by
  induction h with
  | start hstart =>
      obtain ⟨host', s, _, rfl⟩ := Program.start_eq_ok_iff.mp hstart
      exact apartUnlessDemanded_update _ _ s
  | @request p log h r ih =>
      have hpair := Actions.induct (motive := fun p log => p.Orderly ∧ ApartUnlessDemanded p log)
        (fun hp haction => ⟨haction.orderly hp.1, haction.apartUnlessDemanded hp.1 hp.2⟩) log
        ⟨h.orderly, ih⟩ (r.actions p)
      exact hpair.2
  | restart h hstart _ =>
      obtain ⟨host', s, _, rfl⟩ := Program.start_eq_ok_iff.mp hstart
      exact apartUnlessDemanded_update _ _ s

/-- **Pending or cached.**  Take any program that was started from nothing, went through any requests, and
was stored with its diagnostics whenever it was started again.  Every unit waits for a recheck or is
cached.  Every cached entry is of a unit of the program, at the version that it has.  And no unit that
waits is cached, as long as no diagnostics were asked for since the last round was opened. -/
theorem pending_or_cached (h : History p log) (hnew : .started true ∉ log)
    (hstored : .restarted false ∉ log) :
    (∀ unit ∈ p.snapshot.units, unit.path ∈ p.pendingChecks.map (·.unit)
        ∨ (p.cache.find? unit.path).isSome = true)
      ∧ (∀ entry ∈ p.cache.entries, ∃ unit ∈ p.snapshot.units,
        unit.path = entry.unit ∧ unit.version = entry.version)
      ∧ (.demanded ∉ HistoryEvent.opened.since log →
        ∀ path ∈ p.pendingChecks.map (·.unit), p.cache.find? path = none) := by
  have hp := h.orderly
  refine ⟨fun unit hunit => ?_, fun entry hentry => ?_, fun hcalm path hpath => ?_⟩
  · have hin : unit.path ∈ p.state.graph.paths := by
      rw [hp.graph, Snapshot.graph_paths]
      exact List.mem_map_of_mem hunit
    obtain ⟨id, hid⟩ := Option.isSome_iff_exists.mp (Graph.idOf?_isSome_iff.mpr hin)
    have hsame := Graph.pathOf_of_idOf? hid
    rcases h.accounted hnew hstored id (Graph.lt_size_of_idOf? hid) with howed | hcached
    · exact Or.inl (Program.mem_pendingChecks.mpr ⟨id, howed, hsame⟩)
    · exact Or.inr (hsame ▸ hcached)
  · have hversion := (hp.versions entry.unit).symm.trans (hp.current entry hentry)
    obtain ⟨unit, hunit, hsame⟩ := Option.map_eq_some_iff.mp hversion
    obtain ⟨hmem, hpath⟩ := Snapshot.unit?_eq_some_iff.mp hunit
    exact ⟨unit, hmem, hpath, hsame⟩
  · obtain ⟨id, howed, rfl⟩ := Program.mem_pendingChecks.mp hpath
    exact h.apartUnlessDemanded hcalm id howed

end Histories

/-- The unit `a` was rechecked before the program was started again: it is cached, and `b` waits. -/
theorem pending_or_cached_again :
    (Stub.stopped [.check, .emit]).pendingChecks = [⟨"b", false⟩]
      ∧ (∀ unit ∈ (Stub.again [.check, .emit]).snapshot.units,
        unit.path ∈ (Stub.again [.check, .emit]).pendingChecks.map (·.unit)
          ∨ ((Stub.again [.check, .emit]).cache.find? unit.path).isSome = true)
      ∧ (∀ entry ∈ (Stub.again [.check, .emit]).cache.entries,
        ∃ unit ∈ (Stub.again [.check, .emit]).snapshot.units,
          unit.path = entry.unit ∧ unit.version = entry.version)
      ∧ ∀ path ∈ (Stub.again [.check, .emit]).pendingChecks.map (·.unit),
        (Stub.again [.check, .emit]).cache.find? path = none := by
  obtain ⟨haccounted, hcurrent, hapart⟩ :=
    pending_or_cached (Stub.history_again [.check, .emit]) (by decide) (by decide)
  exact ⟨by decide, haccounted, hcurrent, hapart (by decide)⟩

end Rebuild
