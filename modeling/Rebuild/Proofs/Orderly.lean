import Rebuild.Proofs.Action

/-!
# Orderly programs

What every program has in common that went through a round, whatever it was made from.

* `Program.remaining_roundEmits`: the emits of a round;
* `Program.Orderly`: the state is that of the snapshot, the emit queue and the deferred emits name units
  of the program, nothing remains to be emitted when the program is done, and the cache is sorted and up
  to date;
* `Program.orderly_update`: a round makes a program orderly;
* `Action.orderly`: every action keeps it so.
-/

namespace Rebuild

namespace Program

variable {η : Type} {p q : Program η} {s : Snapshot}

/-! ### The emits of a round -/

section RoundEmits

variable {g : Graph} {delta : Delta} {forced : Bool} {queue : EmitQueue} {deferred : List PendingEmit}

/-- The units that a round emits in full. -/
def fullEmits (g : Graph) (delta : Delta) (forced : Bool) : List PendingEmit :=
  (if forced then g.units else delta.changed).map fun unit => ⟨g.pathOf unit, .full⟩

theorem wellFormed_roundEmits : (roundEmits g delta forced queue deferred).WellFormed :=
  ((queue.wellFormed_compact _).pushAll _).pushAll _

theorem cursor_roundEmits : (roundEmits g delta forced queue deferred).cursor = 0 := by
  simp [roundEmits, EmitQueue.compact]

/-- What remains is carried over, then comes what was deferred, then what the round asks for. -/
theorem remaining_roundEmits :
    (roundEmits g delta forced queue deferred).remaining
      = EmitQueue.requestAll (fullEmits g delta forced)
          (EmitQueue.requestAll (deferred.filter fun entry => g.contains entry.unit)
            (queue.remaining.filter fun entry => g.contains entry.unit)) := by
  have hcompact := queue.wellFormed_compact g.contains
  rw [roundEmits, EmitQueue.remaining_pushAll (hcompact.pushAll _),
    EmitQueue.remaining_pushAll hcompact, EmitQueue.remaining_compact]
  rfl

theorem entries_roundEmits :
    (roundEmits g delta forced queue deferred).entries
      = (roundEmits g delta forced queue deferred).remaining := by
  rw [EmitQueue.remaining, cursor_roundEmits, List.drop_zero]

theorem contains_of_mem_units {id : UnitId} (hid : id < g.size) :
    g.contains (g.pathOf id) = true := by
  rw [Graph.contains, Graph.idOf?_isSome_iff]
  exact List.mem_of_getElem? (Graph.getElem?_paths_pathOf hid)

/-- A round emits units of its graph only. -/
theorem contains_of_mem_roundEmits (hchanged : ∀ id ∈ delta.changed, id < g.size)
    {entry : PendingEmit} (h : entry ∈ (roundEmits g delta forced queue deferred).remaining) :
    g.contains entry.unit = true := by
  rw [remaining_roundEmits] at h
  rcases EmitQueue.mem_requestAll h with hfull | hkept
  · obtain ⟨request, hrequest, hunit⟩ := List.mem_map.mp hfull
    obtain ⟨id, hid, rfl⟩ := List.mem_map.mp hrequest
    rw [← hunit]
    refine contains_of_mem_units ?_
    split at hid
    · exact Graph.mem_units.mp hid
    · exact hchanged id hid
  · rcases EmitQueue.mem_requestAll hkept with hdeferred | hopen
    · obtain ⟨request, hrequest, hunit⟩ := List.mem_map.mp hdeferred
      rw [← hunit]
      exact (List.mem_filter.mp hrequest).2
    · exact (List.mem_filter.mp hopen).2

end RoundEmits

/-! ### Orderly programs -/

/-- What a round makes of every program, and what every action keeps. -/
structure Orderly (p : Program η) : Prop where
  tidy : p.Tidy
  graph : p.state.graph = p.snapshot.graph p.state.graph.tracking
  versions : ∀ path, p.state.versionOf? path = (p.snapshot.unit? path).map (·.version)
  calm : p.forceAll = false
  queue : p.pendingEmit.WellFormed
  quiet : p.phase = .done → p.pendingEmit.remaining = []
  known : ∀ entry, entry ∈ p.pendingEmit.entries ∨ entry ∈ p.deferred →
    p.state.graph.contains entry.unit = true
  sorted : p.cache.Sorted
  current : p.cache.Current p.state

/-- A round makes a program orderly. -/
theorem orderly_update (hsorted : p.cache.Sorted) (s : Snapshot) : (p.update s).Orderly where
  tidy := tidy_update p s
  graph := by
    show s.graph _ = s.graph (s.graph _).tracking
    rw [Snapshot.graph_tracking]
  versions := State.versionOf?_ofSnapshot s p.options.dependencyTracking p.state
  calm := rfl
  queue := wellFormed_roundEmits
  quiet := by
    intro hdone
    cases hdone
  known := by
    intro entry hentry
    rcases hentry with hqueued | hdeferred
    · have hremaining := entries_roundEmits ▸ hqueued
      exact contains_of_mem_roundEmits (fun _ h => State.lt_size_of_mem_changed_diff h) hremaining
    · cases hdeferred
  sorted := (hsorted.retainCurrent _).invalidateAll _
  current := (Cache.current_retainCurrent _ _).invalidateAll _

variable [Host η]

/-- A recheck keeps a program orderly. -/
theorem Commits.orderly {unit : UnitId} {queued : List UnitId} (h : p.Commits unit queued q)
    (hp : p.Orderly) : q.Orderly := by
  have hsize := hp.tidy.bounded unit h.rechecks.awaited
  have hgraph := h.rechecks.graph
  have hversion : p.state.versionOf? (p.state.graph.pathOf unit)
      = some ((p.state.info? unit).getD { version := "" }).version := by
    rw [State.versionOf?_pathOf hp.tidy.wellFormed hsize]
    cases hinfo : p.state.info? unit with
    | none =>
        have hsome := State.versionOf?_isSome hp.tidy.wellFormed (p.state.graph.pathOf unit)
        rw [State.versionOf?_pathOf hp.tidy.wellFormed hsize, hinfo,
          Graph.idOf?_pathOf hp.tidy.wellFormed.nodup hsize] at hsome
        cases hsome
    | some info => rfl
  refine ⟨h.rechecks.tidy, ?_, fun path => ?_, h.forceAll.trans hp.calm, ?_, fun hdone => ?_,
    fun entry hentry => ?_, ?_, ?_⟩
  · rw [hgraph, h.rechecks.snapshot]
    exact hp.graph
  · rw [h.rechecks.state, State.versionOf?_sign, h.rechecks.snapshot]
    exact hp.versions path
  · rw [h.pendingEmit]
    split
    · exact hp.queue.push _ _
    · exact hp.queue
  · cases h.phase.symm.trans hdone
  · rw [hgraph]
    rw [h.deferred, h.pendingEmit] at hentry
    rcases hentry with hqueued | hdeferred
    · split at hqueued
      · rcases List.mem_append.mp hqueued with hconsumed | hopen
        · exact hp.known entry (Or.inl (List.mem_of_mem_take hconsumed))
        · rcases EmitQueue.mem_request hopen with hunit | hremaining
          · rw [hunit]
            exact contains_of_mem_units hsize
          · exact hp.known entry (Or.inl (List.mem_of_mem_drop hremaining))
      · exact hp.known entry (Or.inl hqueued)
    · exact hp.known entry (Or.inr hdeferred)
  · rw [h.cache]
    exact (hp.sorted.commit _ _ _).invalidateAll _
  · rw [h.cache, h.rechecks.state]
    exact ((hp.current.commit hversion _).invalidateAll _).sign _ _

end Program

open Program in
/-- An action keeps a program orderly. -/
theorem Action.orderly {η : Type} [Host η] {outside : Prop} {p q : Program η}
    {events : List HistoryEvent} (hp : p.Orderly) (h : Action outside p events q) : q.Orderly := by
  have htidy := h.tidy hp.tidy
  cases h with
  | recheck next =>
      obtain ⟨queued, hcommits⟩ := commits_of_nextUnit hp.tidy next
      exact hcommits.orderly hp
  | exhaust phase next quiet =>
      obtain ⟨_, rfl⟩ := nextUnit_none hp.tidy next
      exact { hp with tidy := htidy, quiet := quiet }
  | @emit entry queue next =>
      have hentries := EmitQueue.entries_of_next? next
      have hfirst : entry ∈ p.pendingEmit.entries := by
        refine List.mem_of_mem_drop (i := p.pendingEmit.cursor) ?_
        rw [show p.pendingEmit.entries.drop _ = _ from (EmitQueue.next?_eq_some next).1]
        exact List.mem_cons_self
      obtain ⟨host, _, hemit⟩ | ⟨host, _, hemit⟩ :=
        emit_cases { p with pendingEmit := queue, phase := .emitPending } entry
      · rw [hemit] at htidy ⊢
        refine { hp with
          tidy := htidy, queue := (EmitQueue.next?_eq_some next).2, quiet := by simp, known := ?_ }
        intro other hother
        exact hp.known other (hentries ▸ hother)
      · rw [hemit] at htidy ⊢
        refine { hp with
          tidy := htidy, queue := (EmitQueue.next?_eq_some next).2, quiet := by simp, known := ?_ }
        intro other hother
        rcases hother with hqueued | hdeferred
        · exact hp.known other (Or.inl (hentries ▸ hqueued))
        · rcases List.mem_append.mp hdeferred with hold | hnew
          · exact hp.known other (Or.inr hold)
          · rw [List.mem_singleton.mp hnew]
            exact hp.known entry (Or.inl hfirst)
  | demand unit =>
      obtain ⟨host, cancelled, cache, hdemand, hcache⟩ := demand_cases p unit
      rw [hdemand] at htidy ⊢
      rcases hcache with rfl | ⟨version, diagnostics, hversion, rfl⟩
      · exact { hp with tidy := htidy }
      · exact { hp with
          tidy := htidy
          sorted := hp.sorted.commit _ _ _
          current := hp.current.commit hversion _ }
  | surround host cancelled _ => exact { hp with tidy := htidy }
  | switch options _ _ => exact { hp with tidy := htidy }
  | round host options forceAll s _ => exact orderly_update (by exact hp.sorted) s

end Rebuild
