import Rebuild.Proofs.Cycle
import Rebuild.Proofs.Project.Delivery
import Rebuild.Run

/-!
# Reports of runs

What a run over a project reports.  Nothing stops its cycle, and each unit that it rechecks is reported with
what a check finds in the unit as it is now.  Units that are up to date according to the stored document are
not rechecked, so that a run that is repeated reports nothing.

* `ProjectHost.complaints`, `ProjectHost.Faulty`: what a check of a unit finds, and that an error is found;
* `ProjectHost.drains_checks`, `ProjectHost.drains_emits`: nothing stops a cycle over a project;
* `ProjectHost.drain_update`: what a cycle reports;
* `Loaded.starting`: the program that a run starts from;
* `Loaded.report?`: the report of a run, and `Loaded.reports`: what it contains;
* `Loaded.report?_again`: a run that is repeated reports nothing.
-/

namespace Rebuild

namespace Program

variable {η : Type}

theorem cancelled_record (p : Program η) (unit : UnitId) (signature : Signature)
    (diagnostics : List Diagnostic) :
    (p.record unit signature diagnostics).cancelled = p.cancelled := by
  rw [record, propagate]
  split
  · rfl
  · rfl

variable [Host η]

/-- A program that is about to start has a host and options, and is not cancelled. -/
theorem prior_frame (host : η) (options : Options) (document : Option String) :
    (prior host options document).host = host ∧ (prior host options document).options = options
      ∧ (prior host options document).cancelled = false := by
  rw [prior]
  split
  · exact ⟨rfl, rfl, rfl⟩
  · exact ⟨rfl, rfl, rfl⟩

/-- What is known then is what the document says. -/
theorem state_prior (host : η) (options : Options) (document : Option String) :
    (prior host options document).state = ((decoded? document).map (·.state)).getD {} := by
  rw [prior]
  split
  · rename_i hdecoded
    rw [hdecoded]
    rfl
  · rename_i hdecoded
    rw [hdecoded]
    rfl

end Program

/-! ### Checks of a project -/

namespace ProjectHost

variable {σ : Type} {p q : Program (ProjectHost σ)} {unit : UnitId}

/-- What a check of a unit finds. -/
def complaints (h : ProjectHost σ) (path : UnitPath) : List Diagnostic :=
  match h.readable path with
  | .error e => [Diagnostic.hostFailure path "check" e.message]
  | .ok unit => checkContents h.units path unit.contents

/-- A check of a unit finds an error. -/
def Faulty (h : ProjectHost σ) (path : UnitPath) : Prop :=
  ∃ d ∈ h.complaints path, d.isError = true

/-- What a check finds depends on the units that were read. -/
theorem complaints_congr {h h' : ProjectHost σ} (hunits : h'.units = h.units) (path : UnitPath) :
    h'.complaints path = h.complaints path := by
  rw [complaints, complaints, readable, readable, hunits]

variable [Storage σ]

/-- Examining a unit finds the complaints about it and leaves the program alone. -/
theorem examine_eq (p : Program (ProjectHost σ)) (path : UnitPath) :
    ∃ signature, p.examine path = ((signature, p.host.complaints path), p) := by
  have hsame : ({ p with cancelled := p.cancelled || false } : Program (ProjectHost σ)) = p := by
    rw [Bool.or_false]
  rw [Program.examine, Program.checkUnit, complaints]
  simp only [Host.check]
  cases hreadable : p.host.readable path with
  | error e => exact ⟨.unknown, by simp only [hsame]⟩
  | ok found =>
      simp only [Program.signUnit, Host.interface, hreadable, hsame, List.append_nil]
      exact ⟨_, rfl⟩

/-- A recheck reports the complaints about the unit, and nothing is cancelled by it. -/
theorem process_eq (p : Program (ProjectHost σ)) (unit : UnitId) :
    ({ p with phase := .iterating }.process unit).1
        = ⟨p.state.graph.pathOf unit, p.host.complaints (p.state.graph.pathOf unit)⟩
      ∧ (p.afterRecheck unit).cancelled = p.cancelled := by
  obtain ⟨signature, hexamine⟩ := examine_eq { p with phase := .iterating } (p.state.graph.pathOf unit)
  constructor
  · simp only [Program.process, hexamine]
  · simp only [Program.afterRecheck, Program.process, hexamine]
    exact Program.cancelled_record _ _ _ _

/-- Nothing stops the checks of a project, and each one reports the complaints about its unit. -/
theorem drains_checks {drained : Drained Checked} (htidy : p.Tidy) (hgoing : p.cancelled = false)
    (h : Program.Drains Program.pullCheck p drained q) :
    drained.stopped = none ∧ q.cancelled = false
      ∧ ∀ found ∈ drained.results, found.diagnostics = p.host.complaints found.unit := by
  induction h with
  | @stopped p _ _ failed =>
      have hpull := Program.pullsCheck p
      rw [failed] at hpull
      cases hpull with
      | refused _ cancelled => cases hgoing.symm.trans cancelled
  | @finished p _ last =>
      have hpull := Program.pullsCheck p
      rw [last] at hpull
      refine ⟨rfl, ?_, by simp⟩
      cases hpull with
      | done => exact hgoing
      | exhausted _ _ _ next =>
          obtain ⟨_, rfl⟩ := Program.nextUnit_none htidy next
          exact hgoing
  | @pulled p _ _ _ drained hnext _ ih =>
      have hpull := Program.pullsCheck p
      rw [hnext] at hpull
      cases hpull with
      | @rechecked r unit _ _ next =>
          have hands := Program.nextUnit_some htidy next
          obtain ⟨hrechecks, _⟩ := Program.rechecks_of_nextUnit htidy next
          obtain ⟨current, roots, rfl⟩ : ∃ current roots, r = { p with current, roots } :=
            ⟨_, _, hands.same⟩
          obtain ⟨hreport, hcancelled⟩ := process_eq { p with current, roots } unit
          have hhost := hrechecks.host.trans (host_examine p _)
          obtain ⟨hstopped, hend, hresults⟩ := ih hrechecks.tidy (hcancelled.trans hgoing)
          refine ⟨hstopped, hend, fun found hfound => ?_⟩
          rcases List.mem_cons.mp hfound with rfl | hlater
          · exact congrArg Checked.diagnostics hreport
          · have hsame := congrArg (fun h => complaints h found.unit) hhost
            exact (hresults found hlater).trans hsame

/-- A pulled emit of a project is not refused. -/
theorem pullsEmit {log : List Recheck} {result : Except Error (Option Emitted)} (htidy : p.Tidy)
    (hgoing : p.cancelled = false) (h : p.PullsEmit log result q) :
    q.cancelled = false ∧ ∀ e, result ≠ .error e := by
  induction h with
  | done => exact ⟨hgoing, by simp⟩
  | refused _ cancelled => cases hgoing.symm.trans cancelled
  | @emitted p entry queue _ _ _ =>
      obtain ⟨host, deferred, hframe⟩ :=
        Program.emit_frame { p with pendingEmit := queue, phase := .emitPending } entry
      rw [hframe]
      exact ⟨hgoing, by simp⟩
  | exhausted _ _ _ next =>
      obtain ⟨_, rfl⟩ := Program.nextUnit_none htidy next.eq_nextUnit.symm
      exact ⟨hgoing, by simp⟩
  | @rechecked p r _ unit _ _ _ _ _ _ next _ ih =>
      have hands := Program.nextUnit_some htidy next.eq_nextUnit.symm
      obtain ⟨hrechecks, _⟩ := Program.rechecks_of_nextUnit htidy next.eq_nextUnit.symm
      have hcancelled : r.cancelled = p.cancelled := by rw [hands.same]
      exact ih hrechecks.tidy ((process_eq r unit).2.trans (hcancelled.trans hgoing))

/-- Nothing stops the emits of a project. -/
theorem drains_emits {drained : Drained Emitted} (htidy : p.Tidy) (hgoing : p.cancelled = false)
    (h : Program.Drains Program.pullEmit p drained q) : drained.stopped = none := by
  induction h with
  | @stopped p _ e failed =>
      have hpull := htidy.pullsEmit
      rw [failed] at hpull
      exact absurd rfl ((pullsEmit htidy hgoing hpull).2 e)
  | finished => rfl
  | @pulled p _ _ _ _ next _ ih =>
      have hpull := htidy.pullsEmit
      have hnext := htidy.tidy_pullEmit
      rw [next] at hpull hnext
      exact ih hnext (pullsEmit htidy hgoing hpull).1

/-- A cycle over a project is not stopped.  It reports the complaints about units of the snapshot, among
them all units that the round calls for. -/
theorem drain_update (r : Program (ProjectHost σ)) (s : Snapshot) (hgoing : r.cancelled = false) :
    ∃ report q log, Session.drain (r.update s) = ((report, none), q)
      ∧ (∀ found ∈ report.checked, found.diagnostics = r.host.complaints found.unit)
      ∧ (∀ found ∈ report.checked, ∃ unit ∈ s.units, unit.path = found.unit)
      ∧ log.map (·.path) = report.checked.map (·.unit) ∧ Rebuild.Closed r s log := by
  have htidy := Program.tidy_update r s
  have hfirst := htidy.drains_checks.1
  rcases hchecks : (r.update s).drainChecks with ⟨⟨checked, stopped⟩, q⟩
  rw [hchecks] at hfirst
  obtain ⟨rfl, hcancelled, hfound⟩ := drains_checks htidy hgoing hfirst
  obtain ⟨log, hround, hpaths, hclosed⟩ := hfirst.propagates (Program.Propagates.start r s)
  rw [List.nil_append] at hround hclosed
  have hsecond := hround.tidy.drains_emits
  rcases hemits : q.drainEmits with ⟨⟨emitted, stopped⟩, last⟩
  rw [hemits] at hsecond
  obtain rfl : stopped = none := drains_emits hround.tidy hcancelled hsecond
  refine ⟨{ checked, emitted }, last, log, ?_, hfound, fun found hmem => ?_, hpaths, hclosed rfl⟩
  · exact Program.drain_eq_iff.mpr ⟨rfl, q, hchecks, hemits⟩
  · have hin : found.unit ∈ log.map (·.path) := by
      rw [hpaths]
      exact List.mem_map_of_mem hmem
    obtain ⟨e, he, hpath⟩ := List.mem_map.mp hin
    have hunit := Snapshot.idOf?_graph_eq_some_iff.mp (hround.idOf?_path he)
    obtain ⟨unit, hget, hsame⟩ := Option.map_eq_some_iff.mp hunit
    exact ⟨unit, List.mem_of_getElem? hget, hsame.trans hpath⟩

/-! ### The policy of a project -/

variable {events : List HistoryEvent}

theorem includeInferred_emitUnit (h : ProjectHost σ) (path : UnitPath) (kind : EmitKind) :
    (h.emitUnit path kind).2.includeInferred = h.includeInferred := by
  rw [emitUnit]
  split
  · rfl
  · split
    · rfl
    · rfl

/-- Nothing in a round changes which declarations count. -/
theorem includeInferred_action (htidy : p.Tidy) (h : Action False p events q) :
    q.host.includeInferred = p.host.includeInferred := by
  cases h with
  | recheck next =>
      obtain ⟨hrechecks, _⟩ := Program.rechecks_of_nextUnit htidy next
      rw [hrechecks.host, host_examine]
  | exhaust _ next _ =>
      obtain ⟨_, rfl⟩ := Program.nextUnit_none htidy next
      rfl
  | @emit entry queue _ =>
      have hkept := includeInferred_emitUnit p.host entry.unit entry.kind
      rw [Program.emit]
      simp only [Host.emit]
      split
      · rename_i hemit
        rw [hemit] at hkept
        exact hkept
      · rename_i hemit
        rw [hemit] at hkept
        exact hkept
  | demand unit => rw [host_diagnosticsOf]
  | surround host _ inside => rw [inside.resolve_left id]
  | switch _ given _ => exact given.elim
  | round _ _ _ _ given => exact given.elim

theorem includeInferred_actions (htidy : p.Tidy) (h : Actions False p events q) :
    q.host.includeInferred = p.host.includeInferred := by
  have hboth := Actions.induct
    (motive := fun q _ => q.Tidy ∧ q.host.includeInferred = p.host.includeInferred)
    (fun hq haction => ⟨haction.tidy hq.1, (includeInferred_action hq.1 haction).trans hq.2⟩) []
    ⟨htidy, rfl⟩ h
  exact hboth.2

theorem includeInferred_takeSnapshot (h : ProjectHost σ) :
    h.takeSnapshot.2.includeInferred = h.includeInferred := by
  rw [takeSnapshot]
  split
  · rfl
  · rfl

end ProjectHost

namespace CycleReport

/-- No emit of the cycle finds an error. -/
def EmitsSucceed (r : CycleReport) : Prop :=
  ∀ emitted ∈ r.emitted, ∀ d ∈ emitted.diagnostics, d.isError = false

instance (r : CycleReport) : Decidable r.EmitsSucceed :=
  inferInstanceAs (Decidable (∀ emitted ∈ r.emitted, _))

/-- Errors are counted when there is one. -/
theorem errorCount_pos_iff {r : CycleReport} (hemits : r.EmitsSucceed) :
    0 < r.errorCount ↔ ∃ found ∈ r.checked, ∃ d ∈ found.diagnostics, d.isError = true := by
  rw [errorCount, List.length_pos_iff_exists_mem]
  constructor
  · rintro ⟨d, hd⟩
    obtain ⟨hfound, herror⟩ := List.mem_filter.mp hd
    rcases List.mem_append.mp hfound with hchecked | hemitted
    · obtain ⟨found, hmem, hin⟩ := List.mem_flatMap.mp hchecked
      exact ⟨found, hmem, d, hin, herror⟩
    · obtain ⟨emitted, hmem, hin⟩ := List.mem_flatMap.mp hemitted
      cases herror.symm.trans (hemits emitted hmem d hin)
  · rintro ⟨found, hmem, d, hin, herror⟩
    exact ⟨d, List.mem_filter.mpr
      ⟨List.mem_append_left _ (List.mem_flatMap.mpr ⟨found, hmem, hin⟩), herror⟩⟩

end CycleReport

/-! ### Runs -/

namespace Loaded

variable {σ : Type} [Storage σ] {l again : Loaded σ} {force : Bool} {report : CycleReport}
variable {session : Session (ProjectHost σ) AnyStore} {last : Program (ProjectHost σ)}

/-- The stored document, if it can be read. -/
def document (l : Loaded σ) : Option String :=
  (Store.load l.store l.host).toOption.join

/-- What the stored document says about units. -/
def known (l : Loaded σ) : State :=
  ((Program.decoded? l.document).map (·.state)).getD {}

/-- The program that a run starts from: what the document says, or a program that has to check
everything. -/
def starting (l : Loaded σ) (force : Bool) (s : Snapshot) : Program (ProjectHost σ) :=
  let p := Program.prior l.host.takeSnapshot.2 l.config.options l.document
  if force then { p.update s with forceAll := true } else p

theorem starting_frame (l : Loaded σ) (force : Bool) (s : Snapshot) :
    (l.starting force s).host = l.host.takeSnapshot.2
      ∧ (l.starting force s).options = l.config.options ∧ (l.starting force s).cancelled = false
      ∧ (l.starting force s).cache.Sorted := by
  obtain ⟨hhost, hoptions, hgoing⟩ :=
    Program.prior_frame l.host.takeSnapshot.2 l.config.options l.document
  have hsorted := Program.sorted_cache_prior l.host.takeSnapshot.2 l.config.options l.document
  cases force with
  | false => exact ⟨hhost, hoptions, hgoing, hsorted⟩
  | true => exact ⟨hhost, hoptions, hgoing, (Program.orderly_update hsorted s).sorted⟩

/-- A run opens a round on the current snapshot. -/
theorem openSession_eq (l : Loaded σ) (force : Bool) :
    l.openSession force = match l.host.takeSnapshot.1 with
      | .error e => .error ⟨e, none⟩
      | .ok s => .ok ⟨(l.starting force s).update s, l.store⟩ := by
  rcases hsnapshot : l.host.takeSnapshot with ⟨outcome, host⟩
  have htaken : Host.snapshot l.host [] = (outcome, host) := hsnapshot
  cases outcome with
  | error e => simp only [openSession, Program.start, htaken]
  | ok s =>
      have hstart : Program.start l.host l.config.options (Store.load l.store l.host).toOption.join
          = .ok ((Program.prior host l.config.options l.document).update s) :=
        Program.start_eq_ok_iff.mpr ⟨host, s, htaken, rfl⟩
      simp only [openSession, hstart, starting, hsnapshot]
      cases force with
      | false => rfl
      | true => rfl

theorem openSession_eq_ok (h : l.openSession force = .ok session) :
    ∃ s, l.host.takeSnapshot.1 = .ok s ∧ session = ⟨(l.starting force s).update s, l.store⟩ := by
  rw [openSession_eq] at h
  cases hsnapshot : l.host.takeSnapshot.1 with
  | error e =>
      rw [hsnapshot] at h
      cases h
  | ok s =>
      rw [hsnapshot] at h
      cases h
      exact ⟨s, rfl, rfl⟩

def report? (l : Loaded σ) (force : Bool) : Option CycleReport :=
  match l.openSession force with
  | .error _ => none
  | .ok session => session.runCycle.1.toOption

theorem outcome_buildOnce (h : l.report? force = some report) :
    (buildOnce l force).outcome = .ok ⟨report.errorCount, report.cancelled⟩ := by
  rw [report?] at h
  rw [buildOnce]
  cases hopen : l.openSession force with
  | error failure =>
      rw [hopen] at h
      cases h
  | ok session =>
      rw [hopen] at h
      rcases hcycle : session.runCycle with ⟨outcome, later⟩
      simp only [hcycle] at h ⊢
      cases outcome with
      | error e => cases h
      | ok found =>
          cases h
          rfl

/-- A run comes to its end when its document is stored, which is the last thing that happens. -/
theorem report?_eq (hopen : l.openSession force = .ok session)
    (hdrain : Session.drain session.program = ((report, none), last))
    (hsave : (Store.save session.store last.host last.buildInfoText).1 = .ok ()) :
    l.report? force = some report ∧ (buildOnce l force).storage
      = (Store.save session.store last.host last.buildInfoText).2.2.storage := by
  rcases hsaved : Store.save session.store last.host last.buildInfoText with ⟨outcome, store, host⟩
  rw [hsaved] at hsave
  obtain rfl : outcome = .ok () := hsave
  have hcycle : session.runCycle = (.ok report, ⟨{ last with host }, store⟩) := by
    rw [Session.runCycle, hdrain]
    simp only [Session.persist, hsaved]
  constructor
  · simp only [report?, hopen, hcycle]
    rfl
  · simp only [buildOnce, hopen, hcycle]

def sources (l : Loaded σ) : List SourceUnit :=
  (l.host.takeSnapshot.1.toOption.map (·.units)).getD []

/-- A check of a unit as it is now finds an error. -/
def Faulty (l : Loaded σ) (path : UnitPath) : Prop :=
  l.host.takeSnapshot.2.Faulty path

/-- What the report of a run contains. -/
structure Reports (l : Loaded σ) (force : Bool) (report : CycleReport) : Prop where
  completed : report.cancelled = false
  found : ∀ found ∈ report.checked,
    found.diagnostics = l.host.takeSnapshot.2.complaints found.unit
  units : ∀ found ∈ report.checked, ∃ unit ∈ l.sources, unit.path = found.unit
  /-- Units that are not stored at their version are rechecked, and all units of a forced run. -/
  rechecked : ∀ unit ∈ l.sources, force = true ∨ l.known.Outdates unit →
    ∃ found ∈ report.checked, found.unit = unit.path

theorem reports (h : l.report? force = some report) : l.Reports force report := by
  rw [report?] at h
  cases hopen : l.openSession force with
  | error failure =>
      rw [hopen] at h
      cases h
  | ok session =>
      obtain ⟨s, hsnapshot, rfl⟩ := openSession_eq_ok hopen
      obtain ⟨hhost, _, hgoing, _⟩ := l.starting_frame force s
      obtain ⟨found, q, log, hdrain, hfound, hunits, hpaths, hclosed⟩ :=
        ProjectHost.drain_update (l.starting force s) s hgoing
      have hcompleted := (Program.drain_eq_iff.mp hdrain).1
      obtain rfl : found = report := by
        simp only [hopen, Session.runCycle, hdrain] at h
        split at h
        · cases h
        · cases h
          rfl
      have hsources : l.sources = s.units := by
        rw [sources, hsnapshot]
        rfl
      rw [hhost] at hfound
      rw [← hsources] at hunits
      refine ⟨hcompleted, hfound, hunits, fun unit hunit hcalled => ?_⟩
      rw [hsources] at hunit
      -- a forced round calls for every unit, and any other one for those with another version
      have hlogged : Rechecked log unit.path := by
        cases force with
        | true => exact hclosed.everything (Or.inl rfl) unit hunit
        | false =>
            refine hclosed.changed unit hunit ?_
            show State.Outdates (Program.prior _ _ _).state unit
            rw [Program.state_prior]
            exact hcalled.resolve_left (by simp)
      obtain ⟨e, he, hpath⟩ := hlogged
      have hin : unit.path ∈ found.checked.map (·.unit) := by
        rw [← hpaths, ← hpath]
        exact List.mem_map_of_mem he
      obtain ⟨checked, hchecked, hsame⟩ := List.mem_map.mp hin
      exact ⟨checked, hchecked, hsame⟩

/-- **A run that is repeated reports nothing.**  Take a run that came to its end with emits that succeed.
The next run on the same units that finds its document rechecks nothing, emits nothing and counts no error,
whatever the first one found. -/
theorem report?_again (hopen : l.openSession force = .ok session)
    (hdrain : Session.drain session.program = ((report, none), last)) (hemits : report.EmitsSucceed)
    (hfits : last.buildInfo.Fits) (hconfig : again.config = l.config)
    (hinferred : again.host.includeInferred = l.host.includeInferred)
    (hsnapshot : again.host.takeSnapshot.1 = l.host.takeSnapshot.1)
    (hstored : again.document = some last.buildInfoText)
    (hsaves : ∀ (h : ProjectHost σ) (text : String), (Store.save again.store h text).1 = .ok ()) :
    again.report? false = some {} := by
  obtain ⟨s, hs, rfl⟩ := openSession_eq_ok hopen
  obtain ⟨hhost, hoptions, _, hsorted⟩ := l.starting_frame force s
  have hstart : ((l.starting force s).update s).Inside ((l.starting force s).update s) :=
    ⟨Program.orderly_update hsorted s, tracksAsAsked_update _ s, rfl, rfl⟩
  obtain ⟨_, hactions⟩ := hstart.orderly.tidy.actions_drain hdrain
  have hend := hstart.actions hactions
  obtain ⟨hchecks, hremaining, hdeferred⟩ := hstart.drained hdrain rfl hemits
  have hkept : last.host.includeInferred = l.host.includeInferred := by
    rw [ProjectHost.includeInferred_actions hstart.orderly.tidy hactions]
    show (l.starting force s).host.includeInferred = _
    rw [hhost, ProjectHost.includeInferred_takeSnapshot]
  have hpolicy : Host.policy again.host.takeSnapshot.2 = Host.policy last.host := by
    show "include_inferred_types=" ++ toString again.host.takeSnapshot.2.includeInferred
      = "include_inferred_types=" ++ toString last.host.includeInferred
    rw [ProjectHost.includeInferred_takeSnapshot, hinferred, hkept]
  have hidle := hend.orderly.idle_prior hend.tracks hchecks hremaining hdeferred hfits hpolicy
  have hoptions' : again.config.options = last.options := by
    rw [hconfig, hend.options]
    exact hoptions.symm
  have hopen' : again.openSession false = .ok ⟨(Program.prior again.host.takeSnapshot.2 last.options
      (some last.buildInfoText)).update s, again.store⟩ := by
    rw [openSession_eq, hsnapshot, hs, ← hoptions', ← hstored]
    rfl
  have hsame : last.snapshot = s := hend.snapshot
  rw [hsame] at hidle
  have hnothing := hidle.drain
  rcases hdrained : Session.drain ((Program.prior again.host.takeSnapshot.2 last.options
      (some last.buildInfoText)).update s) with ⟨found, q⟩
  rw [hdrained] at hnothing
  obtain rfl : found = ({}, none) := hnothing
  exact (report?_eq hopen' hdrained (hsaves _ _)).1

end Loaded

end Rebuild
