import Rebuild.Proofs.Frontier
import Rebuild.Proofs.Round

/-!
# Rechecks

What one elementary step of a round does to a program.

* `Program.Lands`: what the current pass does when the unit in flight has been rechecked;
* `Program.Rechecks`: the effect of a recheck on the records, the cache and the frontier;
* `Program.Rests`: the effect of every other step;
* `Step.cases`: a step is a recheck or leaves the work of the round alone;
* `Step.tidy`, `Step.covered`: a step keeps a program tidy and covered units covered.
-/

namespace Rebuild

namespace Program

variable {η : Type} {p q : Program η} {unit id : UnitId}

/-! ### Rechecking -/

/-- What holds while a unit of the current pass is in flight. -/
structure Flying (p : Program η) (pass : Pass) (unit : UnitId) : Prop where
  wellFormed : p.state.WellFormed
  current : p.current = some pass
  inFlight : pass.inFlight = some unit
  accounts : pass.Accounts p.processed
  bounded : ∀ id ∈ p.frontier, id < p.state.graph.size
  fresh : unit ∉ p.processed

namespace Flying

variable {pass : Pass}

theorem mem_frontier (h : p.Flying pass unit) :
    id ∈ p.frontier ↔ id = unit ∨ id ∈ pass.queue ∨ id ∈ p.roots.map (·.unit) := by
  simp [frontier, h.current, Pass.remaining, h.inFlight]

/-- Once the unit has landed, the pass accounts for what it has visited again. -/
theorem accounts_landed (h : p.Flying pass unit) (leaking : List UnitId) :
    Pass.Accounts { pass with inFlight := none, leaking } (p.processed ++ [unit]) := by
  intro id hid
  rcases h.accounts id hid with hdone | howed
  · exact Or.inl (List.mem_append_left _ hdone)
  · rw [Pass.remaining, h.inFlight] at howed
    rcases List.mem_cons.mp howed with rfl | hrest
    · exact Or.inl (List.mem_append_right _ List.mem_cons_self)
    · exact Or.inr hrest

end Flying

/-- The unit that is handed out next is in flight. -/
theorem HandsOut.flying (htidy : p.Tidy) (h : p.HandsOut unit q) :
    ∃ pass, q.Flying pass unit := by
  obtain ⟨pass, hcurrent, hflight, haccounts⟩ := h.inFlight
  have hstate : q.state = p.state := by rw [h.same]
  have hprocessed : q.processed = p.processed := by rw [h.same]
  refine ⟨pass, ?_, hcurrent, hflight, ?_, fun id hid => ?_, ?_⟩
  · rw [hstate]
    exact htidy.wellFormed
  · rw [hprocessed]
    exact haccounts
  · rw [hstate]
    exact htidy.bounded id (h.known id hid)
  · rw [hprocessed]
    exact h.fresh

/-- The program after a recheck was stored, spelled out. -/
theorem record_eq (unit : UnitId) {pass : Pass} (hcurrent : p.current = some pass) (signature : Signature)
    (diagnostics : List Diagnostic) :
    ∃ pendingEmit,
      p.record unit signature diagnostics = { p with
        state := p.state.sign unit signature
        processed := p.processed ++ [unit]
        pendingEmit
        current := some (pass.complete p.state.graph ((p.state.info? unit).any (·.isGlobal)) unit
          (p.state.moves unit signature) (p.processed ++ [unit])).1
        cache := (p.cache.commit (p.state.graph.pathOf unit)
            ((p.state.info? unit).getD { version := "" }).version diagnostics).invalidateAll
          ((pass.complete p.state.graph ((p.state.info? unit).any (·.isGlobal)) unit
            (p.state.moves unit signature) (p.processed ++ [unit])).2.map p.state.graph.pathOf) } := by
  have hglobal : (p.state.info? unit).any (·.isGlobal)
      = ((p.state.info? unit).getD { version := "" }).isGlobal := by
    cases p.state.info? unit <;> rfl
  rw [hglobal]
  simp only [record, propagate, hcurrent]
  exact ⟨_, rfl⟩

section Recheck

variable [Host η]

theorem checkUnit_frame (p : Program η) (path : UnitPath) :
    ∃ host cancelled, (p.checkUnit path).2 = { p with host, cancelled } := by
  rw [checkUnit]
  rcases Host.check p.host path with ⟨⟨outcome, cancels⟩, host⟩
  cases outcome with
  | ok diagnostics => exact ⟨host, p.cancelled || cancels, rfl⟩
  | error e => exact ⟨host, p.cancelled || cancels, rfl⟩

theorem signUnit_frame (p : Program η) (path : UnitPath) :
    ∃ host, (p.signUnit path).2 = { p with host } := by
  rw [signUnit]
  rcases Host.interface p.host path with ⟨outcome, host⟩
  cases outcome with
  | ok interface => exact ⟨host, rfl⟩
  | error e => exact ⟨host, rfl⟩

/-- Examining a unit changes the host, and the program may be cancelled meanwhile. -/
theorem examine_frame (p : Program η) (path : UnitPath) :
    ∃ host cancelled, (p.examine path).2 = { p with host, cancelled } := by
  rw [examine]
  obtain ⟨host, cancelled, hcheck⟩ := checkUnit_frame p path
  rcases hreply : p.checkUnit path with ⟨⟨found, passed⟩, q⟩
  rw [hreply] at hcheck
  cases passed with
  | false => exact ⟨host, cancelled, hcheck⟩
  | true =>
      obtain ⟨host', hsign⟩ := signUnit_frame q path
      refine ⟨host', cancelled, ?_⟩
      show (q.signUnit path).2 = _
      rw [hsign, show q = { p with host, cancelled } from hcheck]

/-- What is found about a unit depends on the host alone. -/
theorem examine_congr (h : q.host = p.host) (path : UnitPath) :
    (q.examine path).1 = (p.examine path).1
      ∧ (q.examine path).2.host = (p.examine path).2.host := by
  simp only [examine, checkUnit, h]
  cases (Host.check p.host path).1.outcome with
  | error e => exact ⟨rfl, rfl⟩
  | ok diagnostics =>
      simp only [signUnit]
      cases Host.interface (Host.check p.host path).2 path with
      | mk outcome host =>
          cases outcome with
          | ok interface => exact ⟨rfl, rfl⟩
          | error e => exact ⟨rfl, rfl⟩

/-- A recheck records what is found about the unit; the host is another one then, and the program may be
cancelled. -/
theorem afterRecheck_eq_record (p : Program η) (unit : UnitId) :
    ∃ cancelled, p.afterRecheck unit
      = record { p with
          phase := .iterating
          host := (p.examine (p.state.graph.pathOf unit)).2.host
          cancelled } unit (p.found unit).1 (p.found unit).2 := by
  obtain ⟨hfound, hhost⟩ :=
    examine_congr (p := p) (q := { p with phase := .iterating }) rfl (p.state.graph.pathOf unit)
  obtain ⟨host, cancelled, hframe⟩ :=
    examine_frame { p with phase := .iterating } (p.state.graph.pathOf unit)
  rw [hframe] at hhost
  refine ⟨cancelled, ?_⟩
  show (examine { p with phase := .iterating } _).2.record unit
    (examine { p with phase := .iterating } _).1.1 (examine { p with phase := .iterating } _).1.2 = _
  rw [hframe, hfound, ← hhost]
  rfl

/-- The program after the recheck of a unit, spelled out. -/
theorem afterRecheck_eq (unit : UnitId) {pass : Pass} (hcurrent : p.current = some pass) :
    ∃ cancelled pendingEmit,
      p.afterRecheck unit = { p with
        host := (p.examine (p.state.graph.pathOf unit)).2.host
        cancelled
        phase := .iterating
        state := p.state.sign unit (p.found unit).1
        processed := p.processed ++ [unit]
        pendingEmit
        current := some (pass.complete p.state.graph (p.recheckOf unit).isGlobal unit
          (p.recheckOf unit).moved (p.processed ++ [unit])).1
        cache := (p.cache.commit (p.state.graph.pathOf unit)
            ((p.state.info? unit).getD { version := "" }).version (p.found unit).2).invalidateAll
          ((pass.complete p.state.graph (p.recheckOf unit).isGlobal unit (p.recheckOf unit).moved
            (p.processed ++ [unit])).2.map p.state.graph.pathOf) } := by
  obtain ⟨cancelled, hafter⟩ := afterRecheck_eq_record p unit
  let q : Program η :=
    { p with phase := .iterating, host := (p.examine (p.state.graph.pathOf unit)).2.host, cancelled }
  have hcurrent' : q.current = some pass := hcurrent
  obtain ⟨pendingEmit, hrecord⟩ := record_eq unit hcurrent' (p.found unit).1 (p.found unit).2
  exact ⟨cancelled, pendingEmit, hafter.trans hrecord⟩

/-- What the recheck of a unit does.  The unit waited and is now processed; its signature and its
diagnostics are stored.  Covered units stay covered, and the dependents join them when the
signature moved, or every unit when the recheck concerns all.  Cached diagnostics of other units
stay, except for those that wait. -/
structure Rechecks (p : Program η) (unit : UnitId) (q : Program η) : Prop where
  fresh : unit ∉ p.processed
  awaited : unit ∈ p.frontier
  host : q.host = (p.examine (p.state.graph.pathOf unit)).2.host
  snapshot : q.snapshot = p.snapshot
  state : q.state = p.state.sign unit (p.found unit).1
  processed : q.processed = p.processed ++ [unit]
  tidy : q.Tidy
  covered : ∀ id, p.Covered id → q.Covered id
  dependents : (p.recheckOf unit).moved = true →
    ∀ id ∈ p.state.graph.dependentsOf unit, q.Covered id
  everything : p.state.graph.tracking = false
      ∨ ((p.recheckOf unit).moved = true ∧ (p.recheckOf unit).isGlobal = true) →
    ∀ id ∈ p.state.graph.units, q.Covered id
  cached : ∀ r, p.state.record? unit = some r →
    q.cache.find? (p.state.graph.pathOf unit)
      = some ⟨p.state.graph.pathOf unit, r.info.version, (p.found unit).2⟩
  kept : ∀ id < p.state.graph.size, id ≠ unit → ¬ q.Owed id →
    q.cache.find? (p.state.graph.pathOf id) = p.cache.find? (p.state.graph.pathOf id)

theorem Rechecks.graph {p q : Program η} {unit : UnitId} (h : p.Rechecks unit q) :
    q.state.graph = p.state.graph := by
  rw [h.state]
  rfl

/-- The program `q` after the unit in flight has landed.  The pass, without a unit in flight, offers
candidates to its queue; what is cached about those that it takes is dropped. -/
structure Lands (p : Program η) (pass : Pass) (unit : UnitId) (later : Pass)
    (candidates : List UnitId) (q : Program η) : Prop where
  flying : p.Flying pass unit
  landed : later.inFlight = none
  queue : later.queue = pass.queue
  accounts : later.Accounts (p.processed ++ [unit])
  known : ∀ id ∈ candidates, id ∈ p.state.graph.units
  state : q.state = p.state.sign unit (p.found unit).1
  processed : q.processed = p.processed ++ [unit]
  roots : q.roots = p.roots
  phase : q.phase = .iterating
  current : q.current = some (later.enqueue candidates (p.processed ++ [unit])).1
  cache : q.cache = (p.cache.commit (p.state.graph.pathOf unit)
      ((p.state.info? unit).getD { version := "" }).version (p.found unit).2).invalidateAll
    ((later.enqueue candidates (p.processed ++ [unit])).2.map p.state.graph.pathOf)

namespace Lands

variable {pass later : Pass} {candidates : List UnitId}

theorem unit_lt (h : p.Lands pass unit later candidates q) : unit < p.state.graph.size :=
  h.flying.bounded unit (h.flying.mem_frontier.mpr (Or.inl rfl))

theorem unit_mem_processed (h : p.Lands pass unit later candidates q) : unit ∈ q.processed := by
  rw [h.processed]
  exact List.mem_append_right _ List.mem_cons_self

theorem mem_frontier (h : p.Lands pass unit later candidates q) :
    id ∈ q.frontier ↔ id ∈ (later.enqueue candidates (p.processed ++ [unit])).1.queue
      ∨ id ∈ p.roots.map (·.unit) := by
  simp [frontier, h.current, h.roots, Pass.remaining, h.landed]

/-- Every candidate is processed or waits. -/
theorem covered_of_mem (h : p.Lands pass unit later candidates q) (hid : id ∈ candidates) :
    q.Covered id := by
  rcases Pass.mem_of_mem_candidates h.accounts h.landed hid with hdone | hwaits
  · exact Or.inl (by rw [h.processed]; exact hdone)
  · exact Or.inr (h.mem_frontier.mpr (Or.inl hwaits))

/-- Whatever was covered is covered still. -/
theorem covered (h : p.Lands pass unit later candidates q) (hid : p.Covered id) : q.Covered id := by
  rcases hid with hdone | hwaits
  · exact Or.inl (by rw [h.processed]; exact List.mem_append_left _ hdone)
  · rcases h.flying.mem_frontier.mp hwaits with rfl | hold | hroot
    · exact Or.inl h.unit_mem_processed
    · refine Or.inr (h.mem_frontier.mpr (Or.inl (Pass.mem_queue_enqueue.mpr (Or.inl ?_))))
      rw [h.queue]
      exact hold
    · exact Or.inr (h.mem_frontier.mpr (Or.inr hroot))

theorem tidy (h : p.Lands pass unit later candidates q) : q.Tidy where
  wellFormed := by
    rw [h.state]
    exact State.wellFormed_sign h.flying.wellFormed
  landed := by
    intro pass' hpass'
    rw [h.current] at hpass'
    cases hpass'
    exact h.landed
  accounts := by
    intro pass' hpass'
    rw [h.current] at hpass'
    cases hpass'
    rw [h.processed]
    exact Pass.accounts_enqueue candidates h.accounts
  bounded := by
    intro id hid
    have hgraph : q.state.graph = p.state.graph := by
      rw [h.state]
      rfl
    rw [hgraph]
    rcases h.mem_frontier.mp hid with hpass | hroot
    · rcases Pass.mem_queue_enqueue.mp hpass with hold | hnew
      · rw [h.queue] at hold
        exact h.flying.bounded id (h.flying.mem_frontier.mpr (Or.inr (Or.inl hold)))
      · exact Graph.mem_units.mp (h.known id (Pass.mem_snd_enqueue.mp hnew).1)
    · exact h.flying.bounded id (h.flying.mem_frontier.mpr (Or.inr (Or.inr hroot)))
  finished := by
    intro hdone
    rw [h.phase] at hdone
    cases hdone

/-- What is dropped from the cache belongs to units that wait. -/
theorem owed_of_dropped (h : p.Lands pass unit later candidates q) (hid : id < p.state.graph.size)
    (hmem : p.state.graph.pathOf id ∈
      (later.enqueue candidates (p.processed ++ [unit])).2.map p.state.graph.pathOf) :
    q.Owed id := by
  obtain ⟨other, hother, hpath⟩ := List.mem_map.mp hmem
  obtain ⟨hcandidate, hfresh, _⟩ := Pass.mem_snd_enqueue.mp hother
  have hsize := Graph.mem_units.mp (h.known other hcandidate)
  obtain rfl : other = id := Graph.pathOf_inj h.flying.wellFormed.nodup hsize hid hpath
  refine ⟨h.mem_frontier.mpr (Or.inl (Pass.mem_queue_enqueue.mpr (Or.inr hother))), ?_⟩
  rw [h.processed]
  exact hfresh

/-- The diagnostics of the unit are cached for its version. -/
theorem cached (h : p.Lands pass unit later candidates q) {r : UnitRecord}
    (hr : p.state.record? unit = some r) :
    q.cache.find? (p.state.graph.pathOf unit)
      = some ⟨p.state.graph.pathOf unit, r.info.version, (p.found unit).2⟩ := by
  rw [h.cache, Cache.find?_invalidateAll, Cache.find?_commit, if_neg, if_pos rfl, State.info?, hr]
  · rfl
  · exact fun hmem => (h.owed_of_dropped h.unit_lt hmem).2 h.unit_mem_processed

/-- What is cached about other units stays, except for those that wait. -/
theorem kept (h : p.Lands pass unit later candidates q) (hid : id < p.state.graph.size)
    (hne : id ≠ unit) (howed : ¬ q.Owed id) :
    q.cache.find? (p.state.graph.pathOf id) = p.cache.find? (p.state.graph.pathOf id) := by
  rw [h.cache, Cache.find?_invalidateAll, Cache.find?_commit, if_neg, if_neg]
  · intro hpath
    exact hne (Graph.pathOf_inj h.flying.wellFormed.nodup hid h.unit_lt hpath.symm)
  · exact fun hmem => howed (h.owed_of_dropped hid hmem)

end Lands

/-- The unit in flight lands.  All dependents are among the candidates when the signature moved, and all
units when the recheck concerns every unit. -/
theorem Flying.exists_lands {pass : Pass} (h : p.Flying pass unit) :
    ∃ candidates leaking,
      p.Lands pass unit { pass with inFlight := none, leaking } candidates (p.afterRecheck unit)
      ∧ ((p.recheckOf unit).moved = true →
        ∀ id ∈ p.state.graph.dependentsOf unit, id ∈ candidates)
      ∧ (pass.ConcernsAll p.state.graph (p.recheckOf unit).isGlobal unit (p.recheckOf unit).moved →
        ∀ id ∈ p.state.graph.units, id ∈ candidates) := by
  obtain ⟨cancelled, pendingEmit, hafter⟩ := afterRecheck_eq unit h.current
  obtain ⟨candidates, leaking, hcomplete, hknown, hdependents, hall⟩ :=
    Pass.complete_cases pass p.state.graph (p.recheckOf unit).isGlobal unit (p.recheckOf unit).moved
      (p.processed ++ [unit]) h.inFlight
  rw [hcomplete] at hafter
  refine ⟨candidates, leaking, ?_, hdependents, hall⟩
  rw [hafter]
  exact ⟨h, rfl, rfl, h.accounts_landed leaking, hknown, rfl, rfl, rfl, rfl, rfl, rfl⟩

/-- The recheck of the unit in flight. -/
theorem Flying.rechecks {pass : Pass} (h : p.Flying pass unit) :
    p.Rechecks unit (p.afterRecheck unit) := by
  obtain ⟨cancelled, pendingEmit, hafter⟩ := afterRecheck_eq unit h.current
  obtain ⟨candidates, leaking, hlands, hdependents, hall⟩ := h.exists_lands
  refine ⟨h.fresh, h.mem_frontier.mpr (Or.inl rfl), by rw [hafter], by rw [hafter], hlands.state,
    hlands.processed, hlands.tidy, fun id => hlands.covered, fun hmoved id hid => ?_,
    fun hconcerns id hid => ?_, fun r => hlands.cached, fun id => hlands.kept⟩
  · exact hlands.covered_of_mem (hdependents hmoved id hid)
  · refine hlands.covered_of_mem (hall ?_ id hid)
    rcases hconcerns with htracking | hglobal
    · exact Or.inl htracking
    · exact Or.inr (Or.inr hglobal)

/-- The recheck of the unit that is handed out next. -/
theorem rechecks_of_nextUnit (htidy : p.Tidy) (h : p.nextUnit = (some unit, q)) :
    p.Rechecks unit (q.afterRecheck unit) ∧ q.recheckOf unit = p.recheckOf unit := by
  have hands := nextUnit_some htidy h
  obtain ⟨pass, hflying⟩ := hands.flying htidy
  obtain ⟨current, roots, rfl⟩ : ∃ current roots, q = { p with current, roots } :=
    ⟨_, _, hands.same⟩
  obtain ⟨hfound, hhost⟩ :=
    examine_congr (p := p) (q := { p with current, roots }) rfl (p.state.graph.pathOf unit)
  have hsame : recheckOf { p with current, roots } unit = p.recheckOf unit := by
    rw [recheckOf, recheckOf, found, found, hfound]
  have hr := hflying.rechecks
  refine ⟨⟨hands.fresh, hands.known unit hr.awaited, hr.host.trans hhost, hr.snapshot,
    ?_, hr.processed, hr.tidy, fun id hid => hr.covered id ?_, ?_, ?_, ?_, hr.kept⟩, hsame⟩
  · rw [hr.state, found, found, hfound]
  · rcases hid with hdone | hwaits
    · exact Or.inl hdone
    · exact hands.waiting id hwaits
  · rw [← hsame]
    exact hr.dependents
  · rw [← hsame]
    exact hr.everything
  · have hcached := hr.cached
    rw [found, hfound] at hcached
    exact hcached

/-! ### Everything else -/

theorem emit_frame (p : Program η) (entry : PendingEmit) :
    ∃ host deferred, (p.emit entry).2 = { p with host, deferred } := by
  rw [emit]
  rcases Host.emit p.host entry.unit entry.kind with ⟨outcome, host⟩
  cases outcome with
  | ok output => exact ⟨host, p.deferred, rfl⟩
  | error e => exact ⟨host, p.deferred ++ [entry], rfl⟩

/-- Diagnostics on demand change the host and the cache, and the cache only where it had none. -/
theorem diagnosticsOf_frame (p : Program η) (unit : String) :
    ∃ host cancelled cache, (p.diagnosticsOf unit).2 = { p with host, cancelled, cache } ∧
      ∀ path entry, p.cache.find? path = some entry → cache.find? path = some entry := by
  rw [diagnosticsOf]
  cases hcached : p.cache.get? (UnitPath.normalize unit) with
  | some diagnostics => exact ⟨p.host, p.cancelled, p.cache, rfl, fun _ _ h => h⟩
  | none =>
      cases hinfo : p.state.infoOf? (UnitPath.normalize unit) with
      | none => exact ⟨p.host, p.cancelled, p.cache, rfl, fun _ _ h => h⟩
      | some info =>
          obtain ⟨host, cancelled, hcheck⟩ := checkUnit_frame p (UnitPath.normalize unit)
          refine ⟨host, cancelled, p.cache.commit (UnitPath.normalize unit) info.version
            (p.checkUnit (UnitPath.normalize unit)).1.1, ?_, ?_⟩
          · simp only [hcheck]
          · intro path entry hentry
            rw [Cache.find?_commit, if_neg, hentry]
            rintro rfl
            rw [Cache.get?, hentry] at hcached
            cases hcached

/-- A program in which nothing was rechecked: the round goes on as before, and whatever was cached
still is. -/
structure Rests (p q : Program η) : Prop where
  snapshot : q.snapshot = p.snapshot
  state : q.state = p.state
  processed : q.processed = p.processed
  tidy : q.Tidy
  covered : ∀ id, p.Covered id ↔ q.Covered id
  cached : ∀ path entry, p.cache.find? path = some entry → q.cache.find? path = some entry

end Recheck

end Program

open Program in
/-- **What a step does.**  Either one unit is rechecked, or nothing is. -/
theorem Step.cases {η : Type} [Host η] {allowed : (η → η) → Prop} {p q : Program η}
    {log : List Recheck} (htidy : p.Tidy) (h : Step allowed p log q) :
    (∃ unit, log = [p.recheckOf unit] ∧ p.Rechecks unit q) ∨ (log = [] ∧ p.Rests q) := by
  have hkeep : ∀ phase, (phase = .done → p.phase = .done) → Tidy { p with phase } := fun phase hphase =>
    ⟨htidy.wellFormed, htidy.landed, htidy.accounts, htidy.bounded,
      fun hdone => htidy.finished (hphase hdone)⟩
  cases h with
  | recheck next =>
      obtain ⟨hrechecks, hsame⟩ := rechecks_of_nextUnit htidy next
      exact Or.inl ⟨_, by rw [hsame], hrechecks⟩
  | exhaust phase next =>
      obtain ⟨hdone, rfl⟩ := nextUnit_none htidy next
      refine Or.inr ⟨rfl, rfl, rfl, rfl, ?_, fun id => ⟨fun hid => ?_, fun hid => ?_⟩,
        fun _ _ h => h⟩
      · exact ⟨htidy.wellFormed, by simp, by simp, by simp [Program.frontier], by simp [Program.frontier]⟩
      · exact Or.inl (hid.elim (fun h => h) (hdone id))
      · exact Or.inl (hid.elim (fun h => h) (by simp [Program.frontier]))
  | emit queue entry =>
      obtain ⟨host, deferred, hemit⟩ :=
        emit_frame { p with pendingEmit := queue, phase := .emitPending } entry
      have htidy' := hkeep .emitPending (by simp)
      rw [hemit]
      exact Or.inr ⟨rfl, rfl, rfl, rfl,
        ⟨htidy'.wellFormed, htidy'.landed, htidy'.accounts, htidy'.bounded, htidy'.finished⟩,
        fun _ => Iff.rfl, fun _ _ h => h⟩
  | demand unit =>
      obtain ⟨host, cancelled, cache, hdemand, hcached⟩ := diagnosticsOf_frame p unit
      rw [hdemand]
      exact Or.inr ⟨rfl, rfl, rfl, rfl,
        ⟨htidy.wellFormed, htidy.landed, htidy.accounts, htidy.bounded, htidy.finished⟩,
        fun _ => Iff.rfl, hcached⟩
  | edit change _ =>
      exact Or.inr ⟨rfl, rfl, rfl, rfl,
        ⟨htidy.wellFormed, htidy.landed, htidy.accounts, htidy.bounded, htidy.finished⟩,
        fun _ => Iff.rfl, fun _ _ h => h⟩
  | token cancelled =>
      exact Or.inr ⟨rfl, rfl, rfl, rfl,
        ⟨htidy.wellFormed, htidy.landed, htidy.accounts, htidy.bounded, htidy.finished⟩,
        fun _ => Iff.rfl, fun _ _ h => h⟩
  | switch options =>
      exact Or.inr ⟨rfl, rfl, rfl, rfl,
        ⟨htidy.wellFormed, htidy.landed, htidy.accounts, htidy.bounded, htidy.finished⟩,
        fun _ => Iff.rfl, fun _ _ h => h⟩

namespace Step

variable {η : Type} [Host η] {allowed : (η → η) → Prop} {p q : Program η} {log : List Recheck}

theorem tidy (htidy : p.Tidy) (h : Step allowed p log q) : q.Tidy := by
  rcases Step.cases htidy h with ⟨unit, _, hrechecks⟩ | ⟨_, hrests⟩
  · exact hrechecks.tidy
  · exact hrests.tidy

/-- A unit that was processed or waits stays so. -/
theorem covered (htidy : p.Tidy) (h : Step allowed p log q) {id : UnitId} (hid : p.Covered id) :
    q.Covered id := by
  rcases Step.cases htidy h with ⟨unit, _, hrechecks⟩ | ⟨_, hrests⟩
  · exact hrechecks.covered id hid
  · exact (hrests.covered id).mp hid

theorem graph (htidy : p.Tidy) (h : Step allowed p log q) : q.state.graph = p.state.graph := by
  rcases Step.cases htidy h with ⟨unit, _, hrechecks⟩ | ⟨_, hrests⟩
  · exact hrechecks.graph
  · rw [hrests.state]

end Step

end Rebuild
