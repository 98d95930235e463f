import Rebuild.Proofs.Takeover

/-!
# Restarts

A program that is stored and started again is where the program would be that had gone on: taking a
snapshot after a restart and taking it without one leads to the same round.  Only the digests from before
a text changed are not stored.

* `Options.Separates`: options with the same fingerprint track dependencies alike;
* `State.diff_congr`: the difference of two states depends on what is known about their units;
* `Program.Matches`: two programs that differ in their host and in digests from before a change only;
* `Program.TakesOver.update`: a round that starts from a document matches one that starts from the program;
* `Program.Storable`: there is room in a document for the numbers of a program;
* `Program.Orderly.owes_nothing`: a drained program owes nothing when nothing changed;
* `restart_matches_update`: a restart matches an update.
-/

namespace Rebuild

/-- Options with the same fingerprint under a policy track dependencies alike. -/
def Options.Separates (policy : String) : Prop :=
  ∀ o o' : Options, o.fingerprint policy = o'.fingerprint policy →
    o.dependencyTracking = o'.dependencyTracking

/-- A record without the digest from before the text changed. -/
def UnitRecord.forgetful (r : UnitRecord) : UnitRecord :=
  { r with lastKnown := none }

theorem UnitRecord.forgetful_next {a b : Option UnitRecord} (unit : SourceUnit)
    (h : a.map (·.info) = b.map (·.info)) : (next a unit).forgetful = (next b unit).forgetful := by
  cases a with
  | none =>
      cases b with
      | none => rfl
      | some record => cases h
  | some record =>
      cases b with
      | none => cases h
      | some other =>
          have hinfo : record.info = other.info := Option.some.inj h
          simp only [next, forgetful, hinfo]

namespace State

variable {s s' prior prior' : State}

/-- After a snapshot, the records are the same up to digests from before a change. -/
theorem forgetful_ofSnapshot (snapshot : Snapshot) (tracking : Bool)
    (h : ∀ path, prior'.infoOf? path = prior.infoOf? path) :
    (ofSnapshot snapshot tracking prior').records.map UnitRecord.forgetful
      = (ofSnapshot snapshot tracking prior).records.map UnitRecord.forgetful := by
  rw [ofSnapshot, ofSnapshot, List.map_map, List.map_map]
  refine List.map_congr_left fun unit _ => ?_
  exact UnitRecord.forgetful_next unit (h unit.path)

theorem info_of_forgetful {records records' : List UnitRecord}
    (h : records'.map UnitRecord.forgetful = records.map UnitRecord.forgetful) :
    records'.map (·.info) = records.map (·.info) := by
  have hinfos := congrArg (List.map (·.info)) h
  rw [List.map_map, List.map_map] at hinfos
  exact hinfos

theorem entries_ofSnapshot (snapshot : Snapshot) (tracking : Bool)
    (h : ∀ path, prior'.infoOf? path = prior.infoOf? path) :
    (ofSnapshot snapshot tracking prior').entries = (ofSnapshot snapshot tracking prior).entries := by
  rw [entries, entries, info_of_forgetful (forgetful_ofSnapshot snapshot tracking h)]
  rfl

/-- What is known after a snapshot depends on what was known before. -/
theorem infoOf?_ofSnapshot_congr (snapshot : Snapshot) (tracking : Bool)
    (h : ∀ path, prior'.infoOf? path = prior.infoOf? path) (path : UnitPath) :
    (ofSnapshot snapshot tracking prior').infoOf? path
      = (ofSnapshot snapshot tracking prior).infoOf? path := by
  rw [infoOf?, infoOf?, recordOf?_ofSnapshot, recordOf?_ofSnapshot, Option.map_map, Option.map_map]
  congr 1
  funext unit
  have hnext := congrArg UnitRecord.info (UnitRecord.forgetful_next unit (h path))
  exact hnext

/-- The difference of two states depends on what is known about their units and on the dependents of
those of the earlier one. -/
theorem diff_congr (hentries : s'.entries = s.entries) (hgraph : s'.graph = s.graph)
    (hinfo : ∀ path, prior'.infoOf? path = prior.infoOf? path)
    (hnumber : ∀ id, prior'.info? id = prior.info? id)
    (hpaths : prior'.graph.paths = prior.graph.paths)
    (hdependents : ∀ id, prior'.graph.dependentsOf id = prior.graph.dependentsOf id) :
    s'.diff prior' = s.diff prior := by
  have hchanged : isChanged prior' = isChanged prior := by
    funext path info
    rw [isChanged, isChanged, hinfo]
  have hglobal : wasOrIsGlobal prior' = wasOrIsGlobal prior := by
    funext path info
    rw [wasOrIsGlobal, wasOrIsGlobal, hinfo]
  have hpath : prior'.graph.pathOf = prior.graph.pathOf := by
    funext id
    rw [Graph.pathOf, hpaths]
    rfl
  have hunits : prior'.graph.units = prior.graph.units := by
    rw [Graph.units, Graph.size, hpaths]
    rfl
  have hremoved : s'.removedIds prior' = s.removedIds prior := by
    rw [removedIds, removedIds, hgraph, hpath, hunits]
  simp only [diff, hentries, hgraph, hchanged, hglobal, hpath, hremoved, hinfo, hnumber, hdependents]

end State

namespace Program

variable {η : Type} {p q r : Program η}

/-- Two programs that differ in their hosts and in digests from before a text changed only. -/
structure Matches (q p : Program η) : Prop where
  options : q.options = p.options
  snapshot : q.snapshot = p.snapshot
  graph : q.state.graph = p.state.graph
  records : q.state.records.map UnitRecord.forgetful = p.state.records.map UnitRecord.forgetful
  checks : q.pendingChecks = p.pendingChecks
  emits : q.pendingEmit = p.pendingEmit
  deferred : q.deferred = p.deferred
  changed : q.changed = p.changed
  phase : q.phase = p.phase
  cache : q.cache = p.cache

/-! ### Rounds that start from a document -/

theorem roundEmits_congr {g : Graph} {delta : Delta} {forced : Bool} {queue queue' : EmitQueue}
    {deferred deferred' : List PendingEmit}
    (h : EmitQueue.requestAll deferred' queue'.remaining
      = EmitQueue.requestAll deferred queue.remaining) :
    roundEmits g delta forced queue' deferred' = roundEmits g delta forced queue deferred := by
  have hremaining : (roundEmits g delta forced queue' deferred').remaining
      = (roundEmits g delta forced queue deferred).remaining := by
    rw [remaining_roundEmits, remaining_roundEmits, ← EmitQueue.filter_requestAll,
      ← EmitQueue.filter_requestAll, h]
  have hentries : (roundEmits g delta forced queue' deferred').entries
      = (roundEmits g delta forced queue deferred).entries := by
    rw [entries_roundEmits, entries_roundEmits, hremaining]
  have hcursor : (roundEmits g delta forced queue' deferred').cursor
      = (roundEmits g delta forced queue deferred).cursor := by
    rw [cursor_roundEmits, cursor_roundEmits]
  calc roundEmits g delta forced queue' deferred'
      = ⟨(roundEmits g delta forced queue' deferred').entries,
          (roundEmits g delta forced queue' deferred').cursor⟩ := rfl
    _ = ⟨(roundEmits g delta forced queue deferred).entries,
          (roundEmits g delta forced queue deferred).cursor⟩ := by rw [hentries, hcursor]

/-- A snapshot differs from what was taken over as it differs from the program itself. -/
theorem TakesOver.diff_ofSnapshot (h : p.TakesOver r) (s : Snapshot) (tracking : Bool) :
    (State.ofSnapshot s tracking r.state).diff r.state
      = (State.ofSnapshot s tracking p.state).diff p.state :=
  State.diff_congr (State.entries_ofSnapshot s _ h.infoOf?) rfl h.infoOf? h.info? h.paths h.dependents

theorem graph_update (hoptions : r.options = p.options) (s : Snapshot) :
    (r.update s).state.graph = (p.update s).state.graph := by
  rw [state_update, state_update, hoptions]
  rfl

theorem TakesOver.roots_update (h : p.TakesOver r) (hoptions : r.options = p.options)
    (hforce : r.forceAll = p.forceAll) (s : Snapshot) : (r.update s).roots = (p.update s).roots := by
  show roundRoots _ _ _ _ = roundRoots _ _ _ _
  rw [hoptions, h.diff_ofSnapshot, hforce, h.pendingChecks]
  rfl

/-- The same checks are pending in the round that starts. -/
theorem TakesOver.pendingChecks_update (h : p.TakesOver r) (hoptions : r.options = p.options)
    (hforce : r.forceAll = p.forceAll) (s : Snapshot) :
    (r.update s).pendingChecks = (p.update s).pendingChecks := by
  have hpending : (r.update s).pendingRoots = (p.update s).pendingRoots := by
    show (Root.merge ([] ++ (r.update s).roots)).filter _ = (Root.merge ([] ++ _)).filter _
    rw [h.roots_update hoptions hforce]
    rfl
  rw [Program.pendingChecks, Program.pendingChecks, hpending, graph_update hoptions]

/-- The same emits are requested in the round that starts. -/
theorem TakesOver.pendingEmit_update (h : p.TakesOver r) (hoptions : r.options = p.options)
    (hforce : r.forceAll = p.forceAll) (s : Snapshot) :
    (r.update s).pendingEmit = (p.update s).pendingEmit := by
  show roundEmits _ _ _ _ _ = roundEmits _ _ _ _ _
  rw [hoptions, h.diff_ofSnapshot, hforce]
  refine roundEmits_congr ?_
  rw [h.deferred, h.remaining]
  rfl

/-- A round that starts from what was taken over matches one that starts from the program itself. -/
theorem TakesOver.update (h : p.TakesOver r) (hoptions : r.options = p.options)
    (hforce : r.forceAll = p.forceAll) (hcache : r.cache = p.cache) (s : Snapshot) :
    (r.update s).Matches (p.update s) := by
  have hinfo := State.infoOf?_ofSnapshot_congr s p.options.dependencyTracking h.infoOf?
  refine ⟨hoptions, rfl, graph_update hoptions s, ?_, h.pendingChecks_update hoptions hforce s,
    h.pendingEmit_update hoptions hforce s, rfl, ?_, rfl, ?_⟩
  · rw [state_update, state_update, hoptions]
    exact State.forgetful_ofSnapshot s _ h.infoOf?
  · show Delta.changed _ = Delta.changed _
    rw [hoptions, h.diff_ofSnapshot]
  · have hretain : r.cache.retainCurrent (State.ofSnapshot s p.options.dependencyTracking r.state)
        = p.cache.retainCurrent (State.ofSnapshot s p.options.dependencyTracking p.state) := by
      rw [hcache, Cache.retainCurrent, Cache.retainCurrent]
      simp only [hinfo]
    show Cache.invalidateAll _ ((r.update s).roots.map _) = Cache.invalidateAll _ _
    rw [h.roots_update hoptions hforce, hoptions, hretain]
    rfl

/-! ### Nothing to do -/

/-- A drained program owes nothing when nothing changed. -/
theorem Orderly.owes_nothing (hp : p.Orderly) (hchecks : p.pendingChecks = [])
    (hemits : p.pendingEmit.remaining = []) (hdeferred : p.deferred = []) :
    (p.update p.snapshot).pendingChecks = [] ∧ (p.update p.snapshot).pendingEmit.remaining = [] := by
  have hversion : ∀ unit ∈ p.snapshot.units, ¬ p.state.Outdates unit := by
    intro unit hunit houtdates
    refine State.outdates_iff.mp houtdates ?_
    rw [hp.versions, Snapshot.unit?_eq_some_iff.mpr ⟨hunit, rfl⟩]
    rfl
  have hthere : ∀ path, (p.state.graph.idOf? path).isSome = true → p.snapshot.unit? path ≠ none := by
    intro path hpath hnone
    rw [hp.graph, Snapshot.idOf?_graph_isSome, hnone] at hpath
    cases hpath
  constructor
  · rw [List.eq_nil_iff_forall_not_mem]
    intro check hcheck
    obtain ⟨id, howed, hid⟩ := mem_pendingChecks.mp (List.mem_map_of_mem (f := (·.unit)) hcheck)
    have hlt : id < p.snapshot.units.length := by
      have hbounded := (tidy_update p p.snapshot).bounded id howed.1
      rwa [state_update, State.graph_ofSnapshot, Snapshot.graph_size] at hbounded
    have hunit := List.getElem?_eq_getElem hlt
    rcases (mem_frontier_update_iff hp.tidy.wellFormed hunit).mp howed.1 with hover | hcalls
    · rcases hover with hforce | ⟨path, ⟨info, hinfo, _⟩, hgone⟩
      · rw [hp.calm] at hforce
        cases hforce
      · refine hthere path ?_ hgone
        rw [← State.recordOf?_isSome hp.tidy.wellFormed]
        obtain ⟨record, hrecord, _⟩ := State.infoOf?_eq_some_iff.mp hinfo
        rw [hrecord]
        rfl
    · rcases hcalls with houtdates | ⟨b, ⟨_, j, _, hj, _⟩, hgone⟩ | hpending
      · exact hversion _ (List.getElem_mem hlt) houtdates
      · exact hthere b (by rw [hj]; rfl) hgone
      · rw [hchecks] at hpending
        cases hpending
  · have hchanged : ((State.ofSnapshot p.snapshot p.options.dependencyTracking p.state).diff
        p.state).changed = [] := by
      rw [List.eq_nil_iff_forall_not_mem]
      intro id hid
      obtain ⟨unit, hunit, houtdates⟩ := State.mem_changed_ofSnapshot.mp hid
      exact hversion unit (List.mem_of_getElem? hunit) houtdates
    show (roundEmits _ _ _ _ _).remaining = []
    rw [remaining_roundEmits, fullEmits, hp.calm, if_neg Bool.false_ne_true, hchanged, hdeferred,
      hemits]
    rfl

/-- There is room in a document for the numbers of a program, and its cached diagnostics name the units
that they are about. -/
structure Storable (p : Program η) : Prop where
  units : p.snapshot.units.length < 4294967296
  cursor : p.pendingEmit.cursor < 18446744073709551616
  named : ∀ entry ∈ p.cache.entries, ∀ d ∈ entry.diagnostics, d.unit = entry.unit
  words : ∀ entry ∈ p.cache.entries, ∀ d ∈ entry.diagnostics, d.toCompact.Fits

instance (p : Program η) : Decidable p.Storable :=
  decidable_of_iff (p.snapshot.units.length < 4294967296
      ∧ p.pendingEmit.cursor < 18446744073709551616
      ∧ (∀ entry ∈ p.cache.entries, ∀ d ∈ entry.diagnostics, d.unit = entry.unit)
      ∧ ∀ entry ∈ p.cache.entries, ∀ d ∈ entry.diagnostics, d.toCompact.Fits)
    ⟨fun h => ⟨h.1, h.2.1, h.2.2.1, h.2.2.2⟩, fun h => ⟨h.units, h.cursor, h.named, h.words⟩⟩

variable [Host η]

/-- Everything is checked again when the options or the tracking of dependencies differ. -/
theorem forceAll_restore (p : Program η) (decoded : BuildInfo.Decoded) :
    (p.restore decoded).forceAll = (p.forceAll || decoded.optionsHash != some p.optionsHash
      || decoded.state.graph.tracking != p.options.dependencyTracking) := rfl

/-- The document of a storable program fits. -/
theorem Storable.fits (h : p.Storable) (hp : p.Orderly) : p.buildInfo.Fits := by
  refine BuildInfo.Document.fits_encode hp.regular ?_ ?_ fun cache hcache entry hentry => ?_
  · show p.state.graph.size ≤ _
    rw [hp.graph, Snapshot.graph_size]
    exact Nat.le_of_lt h.units
  · show (p.pendingEmit.pushAll p.deferred).cursor < _
    rw [EmitQueue.cursor_pushAll]
    exact h.cursor
  · have hsame : p.cache = cache := by
      simp only [content] at hcache
      split at hcache
      · exact Option.some.inj hcache
      · cases hcache
    exact h.words entry (hsame ▸ hentry)

end Program

section Histories

variable {η : Type} {p q : Program η} {log events : List HistoryEvent}

/-- Dependencies are tracked as the options say. -/
def TracksAsAsked (p : Program η) : Prop :=
  p.state.graph.tracking = p.options.dependencyTracking

theorem tracksAsAsked_update (p : Program η) (s : Snapshot) : TracksAsAsked (p.update s) :=
  Snapshot.graph_tracking

variable [Host η] {outside : Prop}

theorem Action.tracksAsAsked
    (hseparates : outside → ∀ host : η, Options.Separates (Host.policy host)) (hp : p.Orderly)
    (htracks : TracksAsAsked p) (h : Action outside p events q) : TracksAsAsked q := by
  cases h with
  | recheck next =>
      obtain ⟨queued, hcommits⟩ := Program.commits_of_nextUnit hp.tidy next
      rw [TracksAsAsked, hcommits.options, hcommits.rechecks.state]
      exact htracks
  | exhaust phase next _ =>
      obtain ⟨_, rfl⟩ := Program.nextUnit_none hp.tidy next
      exact htracks
  | @emit entry queue next =>
      obtain ⟨host, deferred, hemit⟩ :=
        Program.emit_frame { p with pendingEmit := queue, phase := .emitPending } entry
      rw [hemit]
      exact htracks
  | demand unit =>
      obtain ⟨host, cancelled, cache, hdemand, _⟩ := Program.demand_cases p unit
      rw [hdemand]
      exact htracks
  | surround host cancelled _ => exact htracks
  | switch options given same => exact htracks.trans (hseparates given p.host _ _ same.symm)
  | round host options forceAll s _ => exact tracksAsAsked_update _ s

theorem History.tracksAsAsked (hseparates : ∀ host : η, Options.Separates (Host.policy host))
    (h : History p log) : TracksAsAsked p := by
  induction h with
  | start hstart =>
      obtain ⟨host', s, _, rfl⟩ := Program.start_eq_ok_iff.mp hstart
      exact tracksAsAsked_update _ s
  | @request p log h r ih =>
      have hpair := Actions.induct (motive := fun p _ => p.Orderly ∧ TracksAsAsked p)
        (fun hp haction => ⟨haction.orderly hp.1, haction.tracksAsAsked (fun _ => hseparates) hp.1 hp.2⟩) log
        ⟨h.orderly, ih⟩ (r.actions p)
      exact hpair.2
  | restart h hstart _ =>
      obtain ⟨host', s, _, rfl⟩ := Program.start_eq_ok_iff.mp hstart
      exact tracksAsAsked_update _ s

/-- **A restart matches an update.**  Take any program with a history that stores its diagnostics, at any
point, and a host with the same policy and any snapshot.  Starting again from the document of the program
succeeds, and leads to the round that the program itself would go to with this snapshot; the checks and
emits that are owed come in the same order.  A program that was drained and finds its snapshot unchanged
owes nothing. -/
theorem restart_matches_update (hseparates : ∀ host : η, Options.Separates (Host.policy host))
    (h : History p log) (hpersist : p.options.persistDiagnostics = true) (hstorable : p.Storable)
    {host host' : η} {s : Snapshot} (hsnapshot : Host.snapshot host [] = (.ok s, host'))
    (hpolicy : Host.policy host' = Host.policy p.host) :
    ∃ q, Program.start host p.options (some p.buildInfoText) = .ok q ∧ q.Matches (p.update s)
      ∧ (s = p.snapshot → p.pendingChecks = [] → p.pendingEmit.remaining = [] → p.deferred = [] →
        q.pendingChecks = [] ∧ q.pendingEmit.remaining = []) := by
  have hp := h.orderly
  obtain ⟨g, _, htracking, hdecoded⟩ := hp.decoded?_buildInfoText (hstorable.fits hp)
  have hprior : Program.prior host' p.options (some p.buildInfoText)
      = (Program.blank host' p.options).restore (BuildInfo.Document.readBack p.content g) := by
    rw [Program.prior, hdecoded]
  have htakes := hp.takesOver_restore host' p.options (Program.decode_of_decoded? hdecoded)
  have hforce : ((Program.blank host' p.options).restore
      (BuildInfo.Document.readBack p.content g)).forceAll = p.forceAll := by
    have hhash : some (Program.blank host' p.options).optionsHash = p.content.optionsHash := by
      rw [Program.optionsHash]
      show some (p.options.fingerprint (Host.policy host')) = some p.optionsHash
      rw [hpolicy, Program.optionsHash]
    have htracks : g.tracking = p.options.dependencyTracking :=
      htracking.trans (h.tracksAsAsked hseparates)
    rw [Program.forceAll_restore, hhash, hp.calm]
    simp [BuildInfo.Document.readBack, Program.blank, htracks]
  have hcache := (htakes.cache hpersist).trans (Program.relocatedCache_eq hstorable.named)
  have hmatches := htakes.update rfl hforce hcache s
  rw [← hprior] at hmatches
  refine ⟨_, Program.start_eq_ok_iff.mpr ⟨host', s, hsnapshot, rfl⟩, hmatches, ?_⟩
  intro hsame hchecks hemits hdeferred
  subst hsame
  obtain ⟨hcheck, hemit⟩ := hp.owes_nothing hchecks hemits hdeferred
  exact ⟨hmatches.checks.trans hcheck, by rw [hmatches.emits]; exact hemit⟩

end Histories

namespace Stub

/-- The fingerprints of the host with given units are different. -/
theorem nodup_fingerprints :
    ([(true, true), (true, false), (false, true), (false, false)].map fun flags =>
      ({ dependencyTracking := flags.1, emitDeclarations := flags.2 } : Options).fingerprint
        "all declarations").Nodup := by
  decide +kernel

theorem separates (stub : Stub) : Options.Separates (Host.policy stub) := by
  intro o o' hsame
  have hall : ∀ flags : Bool × Bool,
      flags ∈ [(true, true), (true, false), (false, true), (false, false)] := by simp
  have hflags := List.inj_on_of_nodup_map nodup_fingerprints
    (hall (o.dependencyTracking, o.emitDeclarations))
    (hall (o'.dependencyTracking, o'.emitDeclarations)) hsame
  exact congrArg Prod.fst hflags

end Stub

/-- In the middle of a round, a restart with a third unit matches an update with it, in which `c` and `b`
wait.  A program that was drained owes nothing after a restart. -/
theorem restart_matches_update_scope :
    let more := Stub.scope [{ path := "c", version := "one" }]
    let midway := Stub.stopped [.check, .emit]
    let drained := Stub.stopped [.check, .check, .emit, .emit]
    (midway.update more.snapshot).pendingChecks = [⟨"c", false⟩, ⟨"b", false⟩]
      ∧ (∃ q, Program.start more midway.options (some midway.buildInfoText) = .ok q
        ∧ q.Matches (midway.update more.snapshot))
      ∧ ∃ q, Program.start drained.host drained.options (some drained.buildInfoText) = .ok q
        ∧ q.pendingChecks = [] ∧ q.pendingEmit.remaining = [] := by
  intro more midway drained
  have hfacts : (midway.update more.snapshot).pendingChecks = [⟨"c", false⟩, ⟨"b", false⟩]
      ∧ midway.Storable ∧ drained.Storable ∧ drained.host.snapshot = drained.snapshot
      ∧ drained.pendingChecks = [] ∧ drained.pendingEmit.remaining = []
      ∧ drained.deferred = [] := by decide
  obtain ⟨hpending, hmidway, hdrained, hsame, hchecks, hemits, hdeferred⟩ := hfacts
  obtain ⟨q, hq, hmatches, _⟩ := restart_matches_update Stub.separates
    (Stub.history_stopped [.check, .emit]) rfl hmidway
    (show Host.snapshot more [] = (.ok more.snapshot, more) from rfl) rfl
  obtain ⟨r, hr, _, hnothing⟩ := restart_matches_update Stub.separates
    (Stub.history_stopped [.check, .check, .emit, .emit]) rfl hdrained
    (show Host.snapshot drained.host [] = (.ok drained.host.snapshot, drained.host) from rfl) rfl
  exact ⟨hpending, ⟨q, hq, hmatches⟩, r, hr, hnothing hsame hchecks hemits hdeferred⟩

end Rebuild
