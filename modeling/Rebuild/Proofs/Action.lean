import Rebuild.Proofs.Cache
import Rebuild.Proofs.EmitQueue
import Rebuild.Proofs.Reachable

/-!
# Actions

Everything that happens to a program is made of a few actions: a unit is rechecked, nothing is left to
recheck, an emit is handed out, diagnostics are asked for, the surroundings change, other options are in
force, or a round is opened.  What an action means for later is kept as a list of events, the latest
event first.

* `HistoryEvent`: what is remembered, and `since`: what happened since an event;
* `Program.written`: the emits that succeed in a pull;
* `Action`: the actions, and `Actions`: several of them;
* `Program.Commits`: what a recheck does to the cache, to the emit queue and to the units that wait;
* `Action.tidy`: every action keeps a program tidy.
-/

namespace Rebuild

/-- What is remembered about the life of a program. -/
inductive HistoryEvent where
  /-- The program was started, from a document that was found or from nothing. -/
  | started (found : Bool)
  /-- The program was stored, with its diagnostics or without, and started again. -/
  | restarted (diagnostics : Bool)
  /-- A round was opened. -/
  | opened
  /-- A round found a unit that was new or had another version. -/
  | changed (path : UnitPath)
  /-- An emit succeeded. -/
  | emitted (entry : PendingEmit)
  /-- Diagnostics were asked for. -/
  | demanded
  deriving Repr, DecidableEq

namespace HistoryEvent

/-- What happened after the latest occurrence of an event, or ever if it did not occur. -/
def since (event : HistoryEvent) (log : List HistoryEvent) : List HistoryEvent :=
  log.takeWhile fun other => other != event

variable {event : HistoryEvent} {events log : List HistoryEvent}

theorem since_append_of_not_mem (h : event ∉ events) :
    event.since (events ++ log) = events ++ event.since log := by
  refine List.takeWhile_append_of_pos fun other hother => ?_
  rw [bne_iff_ne]
  intro hsame
  exact h (hsame ▸ hother)

end HistoryEvent

namespace Program

variable {η : Type} {p q : Program η} {unit id : UnitId}

/-- The events of a round that is opened with a snapshot. -/
def opening (p : Program η) (s : Snapshot) : List HistoryEvent :=
  (s.units.filter fun unit => p.state.versionOf? unit.path != some unit.version).map
    (fun unit => .changed unit.path) ++ [.opened]

/-- Only units that are new or have another version are reported. -/
theorem exists_of_changed_mem_opening {s : Snapshot} {path : UnitPath}
    (h : .changed path ∈ p.opening s) :
    ∃ unit, (unit ∈ s.units ∧ unit.path = path) ∧ p.state.versionOf? path ≠ some unit.version := by
  rcases List.mem_append.mp h with hchanged | hopened
  · obtain ⟨unit, hunit, hevent⟩ := List.mem_map.mp hchanged
    obtain ⟨hmem, hne⟩ := List.mem_filter.mp hunit
    cases hevent
    exact ⟨unit, ⟨hmem, rfl⟩, bne_iff_ne.mp hne⟩
  · cases List.mem_singleton.mp hopened

variable [Host η]

/-! ### Emits that succeed -/

/-- The emit, if the host writes the outputs. -/
def writtenBy (p : Program η) (entry : PendingEmit) : List PendingEmit :=
  match (Host.emit p.host entry.unit entry.kind).1 with
  | .ok _ => [entry]
  | .error _ => []

/-- The emit that succeeds in a pull after at most `fuel` rechecks. -/
def written : Nat → Program η → List PendingEmit
  | 0, _ => []
  | fuel + 1, p =>
      if p.phase = .done then []
      else if p.cancelled then []
      else
        match p.pendingEmit.next? with
        | some (entry, _) => p.writtenBy entry
        | none =>
            match p.nextUnit with
            | (none, _) => []
            | (some unit, p) => written fuel (p.afterRecheck unit)

/-- An emit succeeds or is deferred. -/
theorem emit_cases (p : Program η) (entry : PendingEmit) :
    (∃ host, p.writtenBy entry = [entry] ∧ (p.emit entry).2 = { p with host })
      ∨ ∃ host, p.writtenBy entry = []
        ∧ (p.emit entry).2 = { p with host, deferred := p.deferred ++ [entry] } := by
  rw [writtenBy, emit]
  rcases Host.emit p.host entry.unit entry.kind with ⟨outcome, host⟩
  cases outcome with
  | ok output => exact Or.inl ⟨host, rfl, rfl⟩
  | error e => exact Or.inr ⟨host, rfl, rfl⟩

/-- Diagnostics on demand are those of the cache, or are stored there at the version of the unit. -/
theorem demand_cases (p : Program η) (unit : String) :
    ∃ host cancelled cache, (p.diagnosticsOf unit).2 = { p with host, cancelled, cache }
      ∧ (cache = p.cache ∨ ∃ version diagnostics,
        p.state.versionOf? (UnitPath.normalize unit) = some version
          ∧ cache = p.cache.commit (UnitPath.normalize unit) version diagnostics) := by
  rw [diagnosticsOf]
  cases hcached : p.cache.get? (UnitPath.normalize unit) with
  | some diagnostics => exact ⟨p.host, p.cancelled, p.cache, rfl, Or.inl rfl⟩
  | none =>
      cases hinfo : p.state.infoOf? (UnitPath.normalize unit) with
      | none => exact ⟨p.host, p.cancelled, p.cache, rfl, Or.inl rfl⟩
      | some info =>
          obtain ⟨host, cancelled, hcheck⟩ := checkUnit_frame p (UnitPath.normalize unit)
          refine ⟨host, cancelled, p.cache.commit (UnitPath.normalize unit) info.version
            (p.checkUnit (UnitPath.normalize unit)).1.1, ?_, Or.inr ⟨info.version, _, ?_, rfl⟩⟩
          · simp only [hcheck]
          · rw [State.versionOf?, hinfo]
            rfl

end Program

/-! ### Actions and their events -/

open Program in
/-- One action, with what is remembered of it.  Where nothing comes from outside, the host is left to
the program, and the options and the snapshot stay. -/
inductive Action {η : Type} [Host η] (outside : Prop) :
    Program η → List HistoryEvent → Program η → Prop
  /-- The next unit is rechecked. -/
  | recheck {p q : Program η} {unit : UnitId} (next : p.nextUnit = (some unit, q)) :
      Action outside p [] (q.afterRecheck unit)
  /-- No unit is left, and no emit either when the program is done. -/
  | exhaust {p q : Program η} (phase : Phase) (next : p.nextUnit = (none, q))
      (quiet : phase = .done → p.pendingEmit.remaining = []) :
      Action outside p [] { q with phase }
  /-- The next emit is handed out. -/
  | emit {p : Program η} {entry : PendingEmit} {queue : EmitQueue}
      (next : p.pendingEmit.next? = some (entry, queue)) :
      Action outside p ((p.writtenBy entry).map .emitted)
        ({ p with pendingEmit := queue, phase := .emitPending }.emit entry).2
  /-- The diagnostics of a unit are asked for. -/
  | demand {p : Program η} (unit : String) :
      Action outside p [.demanded] (p.diagnosticsOf unit).2
  /-- The build may be cancelled or resumed, and the surroundings of the host may change. -/
  | surround {p : Program η} (host : η) (cancelled : Bool) (inside : outside ∨ host = p.host) :
      Action outside p [] { p with host, cancelled }
  /-- Options with the same fingerprint are in force. -/
  | switch {p : Program η} (options : Options) (given : outside)
      (same : ({ p with options } : Program η).optionsHash = p.optionsHash) :
      Action outside p [] { p with options }
  /-- A round is opened, under any options and forced or not. -/
  | round {p : Program η} (host : η) (options : Options) (forceAll : Bool) (s : Snapshot)
      (given : outside) :
      Action outside p (p.opening s) (({ p with host, options, forceAll } : Program η).update s)

inductive Actions {η : Type} [Host η] (outside : Prop) :
    Program η → List HistoryEvent → Program η → Prop
  | refl (p : Program η) : Actions outside p [] p
  | tail {p q r : Program η} {log events : List HistoryEvent} :
      Actions outside p log q → Action outside q events r → Actions outside p (events ++ log) r

namespace Actions

variable {η : Type} [Host η] {outside : Prop} {p q r : Program η} {log rest : List HistoryEvent}

theorem single (h : Action outside p log q) : Actions outside p log q := by
  have hactions := Actions.tail (Actions.refl p) h
  rwa [List.append_nil] at hactions

theorem trans (h : Actions outside p log q) (hrest : Actions outside q rest r) :
    Actions outside p (rest ++ log) r := by
  induction hrest with
  | refl => exact h
  | tail _ hlast ih =>
      rw [List.append_assoc]
      exact Actions.tail ih hlast

/-- What every action keeps, a sequence of actions keeps. -/
theorem induct {motive : Program η → List HistoryEvent → Prop}
    (hstep : ∀ {p q : Program η} {log events : List HistoryEvent}, motive p log →
      Action outside p events q → motive q (events ++ log))
    (before : List HistoryEvent) (hp : motive p before) (h : Actions outside p log q) :
    motive q (log ++ before) := by
  induction h with
  | refl => exact hp
  | tail _ hlast ih =>
      rw [List.append_assoc]
      exact hstep ih hlast

end Actions

namespace Program

variable {η : Type} [Host η] {p q : Program η} {unit id : UnitId}

/-! ### What a recheck does -/

/-- A recheck of a unit whose text did not change requests its declarations when the signature moved. -/
theorem pendingEmit_afterRecheck (p : Program η) (unit : UnitId) :
    (p.afterRecheck unit).pendingEmit
      = if (p.recheckOf unit).moved && p.options.emitDeclarations && !p.changed.contains unit then
          p.pendingEmit.push (p.state.graph.pathOf unit) .types
        else p.pendingEmit := by
  obtain ⟨cancelled, hafter⟩ := afterRecheck_eq_record p unit
  rw [hafter, record, propagate]
  split
  · rfl
  · rfl

/-- What the recheck of a unit leaves behind.  Its diagnostics are cached and its declarations are
requested, if need be.  The units that are queued because of it wait from now on, without cached
diagnostics; besides them, only units wait that waited before. -/
structure Commits (p : Program η) (unit : UnitId) (queued : List UnitId) (q : Program η) : Prop where
  rechecks : p.Rechecks unit q
  phase : q.phase = .iterating
  options : q.options = p.options
  changed : q.changed = p.changed
  deferred : q.deferred = p.deferred
  forceAll : q.forceAll = p.forceAll
  pendingEmit : q.pendingEmit
    = if (p.recheckOf unit).moved && p.options.emitDeclarations && !p.changed.contains unit then
        p.pendingEmit.push (p.state.graph.pathOf unit) .types
      else p.pendingEmit
  cache : q.cache = (p.cache.commit (p.state.graph.pathOf unit)
      ((p.state.info? unit).getD { version := "" }).version (p.found unit).2).invalidateAll
    (queued.map p.state.graph.pathOf)
  owed_of_queued : ∀ id ∈ queued, q.Owed id
  owed_or_queued : ∀ id, q.Owed id → p.Owed id ∨ id ∈ queued

/-- A unit that waits after another has landed waited before or is taken by the pass. -/
theorem Lands.owed_or_taken {pass later : Pass} {candidates : List UnitId}
    (h : p.Lands pass unit later candidates q) (hid : q.Owed id) :
    p.Owed id ∨ id ∈ (later.enqueue candidates (p.processed ++ [unit])).2 := by
  have hfresh : id ∉ p.processed := by
    intro hdone
    refine hid.2 ?_
    rw [h.processed]
    exact List.mem_append_left _ hdone
  rcases h.mem_frontier.mp hid.1 with hpass | hroot
  · rcases Pass.mem_queue_enqueue.mp hpass with hold | htaken
    · rw [h.queue] at hold
      exact Or.inl ⟨h.flying.mem_frontier.mpr (Or.inr (Or.inl hold)), hfresh⟩
    · exact Or.inr htaken
  · exact Or.inl ⟨h.flying.mem_frontier.mpr (Or.inr (Or.inr hroot)), hfresh⟩

theorem commits_of_nextUnit (htidy : p.Tidy) (h : p.nextUnit = (some unit, q)) :
    ∃ queued, p.Commits unit queued (q.afterRecheck unit) := by
  obtain ⟨hrechecks, hsame⟩ := rechecks_of_nextUnit htidy h
  have hands := nextUnit_some htidy h
  obtain ⟨pass, hflying⟩ := hands.flying htidy
  obtain ⟨candidates, leaking, hlands, _, _⟩ := hflying.exists_lands
  obtain ⟨cancelled, pendingEmit, hafter⟩ := afterRecheck_eq unit hflying.current
  have hemits := pendingEmit_afterRecheck q unit
  obtain ⟨current, roots, rfl⟩ : ∃ current roots, q = { p with current, roots } :=
    ⟨_, _, hands.same⟩
  have hfound : ({ p with current, roots } : Program η).found unit = p.found unit :=
    (examine_congr (p := p) (q := { p with current, roots }) rfl (p.state.graph.pathOf unit)).1
  have hcache := hlands.cache
  rw [hfound] at hcache
  rw [hsame] at hemits
  refine ⟨_, hrechecks, by rw [hafter], by rw [hafter], by rw [hafter], by rw [hafter],
    by rw [hafter], hemits, hcache, fun id hid => ?_, fun id hid => ?_⟩
  · have hsize := Graph.mem_units.mp (hlands.known id (Pass.mem_snd_enqueue.mp hid).1)
    exact hlands.owed_of_dropped hsize (List.mem_map_of_mem hid)
  · rcases hlands.owed_or_taken hid with hold | htaken
    · exact Or.inl ⟨hands.known id hold.1, hold.2⟩
    · exact Or.inr htaken

end Program

namespace Action

variable {η : Type} [Host η] {outside : Prop} {p q : Program η} {events : List HistoryEvent}

/-- Within a round, an action is made of elementary steps. -/
theorem step_or_round (h : Action outside p events q) :
    (∃ log, Steps (fun _ => True) p log q)
      ∨ ∃ host options forceAll s, events = p.opening s
        ∧ q = ({ p with host, options, forceAll } : Program η).update s := by
  cases h with
  | recheck next => exact Or.inl ⟨_, Steps.single (Step.recheck next)⟩
  | exhaust phase next _ => exact Or.inl ⟨_, Steps.single (Step.exhaust phase next)⟩
  | emit next => exact Or.inl ⟨_, Steps.single (Step.emit _ _)⟩
  | demand unit => exact Or.inl ⟨_, Steps.single (Step.demand unit)⟩
  | surround host cancelled _ =>
      have hedit : Step (fun _ => True) p [] { p with host } := Step.edit (fun _ => host) trivial
      exact Or.inl ⟨_, Steps.head hedit (Steps.single (Step.token cancelled))⟩
  | switch options _ _ => exact Or.inl ⟨_, Steps.single (Step.switch options)⟩
  | round host options forceAll s _ => exact Or.inr ⟨host, options, forceAll, s, rfl, rfl⟩

/-- An action keeps a program tidy. -/
theorem tidy (htidy : p.Tidy) (h : Action outside p events q) : q.Tidy := by
  rcases h.step_or_round with ⟨log, hsteps⟩ | ⟨host, options, forceAll, s, _, rfl⟩
  · exact hsteps.tidy htidy
  · exact Program.tidy_update _ s

end Action

end Rebuild
