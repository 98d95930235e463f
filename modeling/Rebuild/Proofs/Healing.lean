import Rebuild.Proofs.EmitDriven
import Rebuild.Proofs.Undoubled

/-!
# Forced rounds

In a forced round every unit is a root and is owed a full emit, whatever the program was before: in the middle
of a pass, with flags and signatures from earlier texts, with emits that were deferred or half consumed.  What
it remembers is overwritten, up to one thing: emits of a unit that a document listed twice stay two.

* `Program.Forced`: the ways to come to a forced round;
* `EmitQueue.perm_full_iff`: entries of which the first for each unit is full;
* `Program.Propagates.perm`: a round that processes every unit rechecks each of them once;
* `Program.Sound.stores_of_checkAll`: after all checks, what is stored is right;
* `Program.Works.remaining_eq`: rechecks request nothing from units that are owed a full emit;
* `forced_round_heals`: a forced round ends as the first round of a new program does.
-/

namespace Rebuild

/-- Suppose that the first entry of each unit is full.  Then the entries are one full entry for each unit
exactly when no unit is named twice. -/
theorem EmitQueue.perm_full_iff {entries : List PendingEmit} {paths : List UnitPath}
    (hpaths : paths.Nodup) (hknown : ∀ entry ∈ entries, entry.unit ∈ paths)
    (hfull : ∀ path ∈ paths, firstKind? entries path = some .full) :
    entries.Perm (paths.map fun path => ⟨path, .full⟩) ↔ Distinct entries := by
  have hunits : (paths.map fun path => PendingEmit.mk path .full).map (·.unit) = paths := by
    rw [List.map_map]
    exact List.map_id paths
  constructor
  · intro hperm
    have hsame := hperm.map (·.unit)
    rw [hunits] at hsame
    exact hsame.nodup_iff.mpr hpaths
  · intro hdistinct
    refine (List.perm_ext_iff_of_nodup hdistinct.of_map ?_).mpr fun entry => ⟨fun hentry => ?_, ?_⟩
    · exact List.Nodup.of_map (·.unit) (by rw [hunits]; exact hpaths)
    · have hpath := hknown entry hentry
      have hkind := (hdistinct.firstKind?_eq hentry).symm.trans (hfull entry.unit hpath)
      exact List.mem_map.mpr ⟨entry.unit, hpath, by rw [← Option.some.inj hkind]⟩
    · intro hentry
      obtain ⟨path, hpath, rfl⟩ := List.mem_map.mp hentry
      obtain ⟨found, hfound, hkind⟩ := Option.map_eq_some_iff.mp (hfull path hpath)
      have hunit : found.unit = path := by simpa using List.find?_some hfound
      rw [← hunit, ← hkind]
      exact List.mem_of_find?_eq_some hfound

namespace Program

variable {η : Type}

/-! ### The start of a forced round -/

/-- A program at the start of a forced round.  A full rebuild was asked for, or options with another
fingerprint are in force, or it was started from a document with another fingerprint. -/
inductive Forced [Host η] : Program η → Prop
  | rebuild (p : Program η) : Forced p.forceRebuild
  | options (p : Program η) (options : Options)
      (hother : ({ p with options } : Program η).optionsHash ≠ p.optionsHash) :
      Forced (p.setOptions options)
  | document {host : η} {options : Options} {document : Option String} {decoded : BuildInfo.Decoded}
      {p : Program η} (hstart : start host options document = .ok p)
      (hdecoded : decoded? document = some decoded)
      (hother : decoded.optionsHash ≠ some p.optionsHash) : Forced p

theorem Forced.exists_update [Host η] {q : Program η} (h : q.Forced) :
    ∃ p : Program η, p.forceAll = true ∧ q = p.update q.snapshot := by
  cases h with
  | rebuild p => exact ⟨{ p with forceAll := true }, rfl, rfl⟩
  | options p options hother =>
      rw [setOptions, if_neg hother]
      exact ⟨{ p with options, forceAll := true }, rfl, rfl⟩
  | @document host options document decoded p hstart hdecoded hother =>
      obtain ⟨host', s, _, rfl⟩ := start_eq_ok_iff.mp hstart
      refine ⟨prior host' options document, ?_, rfl⟩
      have hhash : ((prior host' options document).update s).optionsHash
          = (blank host' options).optionsHash := by
        rw [prior, hdecoded]
        rfl
      rw [hhash] at hother
      rw [prior, hdecoded, forceAll_restore, bne_iff_ne.mpr hother, Bool.or_true, Bool.true_or]

/-- Every unit is owed a full emit before any other. -/
def OwesAll (p : Program η) : Prop :=
  ∀ path ∈ p.state.graph.paths, EmitQueue.firstKind? p.pendingEmit.remaining path = some .full

section Update

variable {p : Program η} {s : Snapshot}

/-- A forced round skips no unit. -/
theorem not_skips_update_of_forced (hforced : p.forceAll = true) (path : UnitPath) :
    ¬ (p.update s).Skips path := by
  rintro ⟨id, hid, huncovered⟩
  have hsize := Graph.lt_size_of_idOf? hid
  rw [state_update, State.graph_ofSnapshot, Snapshot.graph_size] at hsize
  exact huncovered (Or.inr (mem_frontier_update_of_everything (Or.inl hforced) hsize))

/-- A forced round owes a full emit of every unit. -/
theorem owesAll_update (hforced : p.forceAll = true) : (p.update s).OwesAll := by
  intro path hpath
  show EmitQueue.firstKind? (roundEmits (s.graph p.options.dependencyTracking) _ p.forceAll _ _).remaining
    path = _
  rw [remaining_roundEmits, hforced]
  refine EmitQueue.firstKind?_requestAll (Or.inl ?_)
  rw [state_update, State.graph_ofSnapshot, ← Graph.map_pathOf_units] at hpath
  obtain ⟨id, hid, rfl⟩ := List.mem_map.mp hpath
  exact List.mem_map_of_mem hid

/-- What a round owes are emits of its units. -/
theorem unit_mem_paths_of_mem_update {entry : PendingEmit}
    (h : entry ∈ (p.update s).pendingEmit.remaining) : entry.unit ∈ s.units.map (·.path) := by
  have hcontains : (s.graph p.options.dependencyTracking).contains entry.unit = true :=
    contains_of_mem_roundEmits (fun _ h => State.lt_size_of_mem_changed_diff h) h
  rw [Graph.contains, Graph.idOf?_isSome_iff, Snapshot.graph_paths] at hcontains
  exact hcontains

/-- So a forced round owes one full emit of each unit, when no unit is owed two emits. -/
theorem perm_remaining_update_iff (hforced : p.forceAll = true) :
    (p.update s).pendingEmit.remaining.Perm (s.units.map fun unit => ⟨unit.path, .full⟩)
      ↔ EmitQueue.Distinct (p.update s).pendingEmit.remaining := by
  have hpaths : (s.graph p.options.dependencyTracking).paths = s.units.map (·.path) :=
    Snapshot.graph_paths
  have hall := owesAll_update (s := s) hforced
  rw [OwesAll, state_update, State.graph_ofSnapshot, hpaths] at hall
  have hiff := EmitQueue.perm_full_iff (hpaths ▸ Snapshot.graph_nodup)
    (fun _ hentry => unit_mem_paths_of_mem_update hentry) hall
  rwa [List.map_map] at hiff

end Update

/-! ### What is rechecked -/

/-- A round that has processed every unit has rechecked each of them once. -/
theorem Propagates.perm {p q : Program η} {s : Snapshot} {log : List Recheck}
    (h : p.Propagates s log q) (honce : q.Once)
    (hall : ∀ id ∈ q.state.graph.units, id ∈ q.processed) :
    (log.map (·.path)).Perm (s.units.map (·.path)) := by
  have hprocessed : q.processed.Perm q.state.graph.units := by
    refine (List.perm_ext_iff_of_nodup honce.nodup (Graph.nodup_units _)).mpr fun id => ⟨?_, hall id⟩
    intro hid
    exact Graph.mem_units.mpr (honce.bounded id hid)
  have hlog : log.map (·.path) = q.processed.map q.state.graph.pathOf := by
    rw [h.processed, List.map_map]
    exact List.map_congr_left fun e he => (h.logged e he).2
  have hpaths := hprocessed.map q.state.graph.pathOf
  rw [Graph.map_pathOf_units, h.graph, Snapshot.graph_paths] at hpaths
  rw [hlog, h.graph]
  exact hpaths

variable [Host η] {p q : Program η} {log : List Recheck}

/-- After all checks of a forced round, each unit was rechecked once. -/
theorem Works.perm_of_forced {s : Snapshot} (hforced : p.forceAll = true)
    (h : (p.update s).Works log [] q) (hfinished : ∀ id ∈ q.frontier, id ∈ q.processed) :
    (log.map (·.path)).Perm (s.units.map (·.path)) := by
  have hsteps : Steps (fun _ => True) (p.update s) log q := h.steps
  have hround := (Propagates.start p s).steps hsteps
  rw [List.nil_append] at hround
  refine hround.perm ((Once.update p s).steps hsteps) fun id hid => ?_
  have hsize := Graph.mem_units.mp hid
  rw [hround.graph, Snapshot.graph_size] at hsize
  have hcovered := hround.roots id
    (Or.inr (mem_frontier_update_of_everything (Or.inl hforced) hsize))
  exact hcovered.elim (fun hdone => hdone) (hfinished id)

/-- After all checks, what is stored about each unit is right. -/
theorem Sound.stores_of_checkAll {β : Type} {A : Answers η} {observe : UnitPath → List Diagnostic → β} {w : A.World}
    (h : p.Sound A observe (fun _ _ => False) w) {checks : List Checked}
    (hinsists : p.Insists checkAll checks q) (path : UnitPath)
    (hunit : ((A.view w).unit? path).isSome = true) : q.Stores (observe path) path (A.verdict w path) := by
  have hfinished := processed_of_checkAll h.tidy hinsists
  obtain ⟨log, hworks⟩ := works_checkAll h.tidy hinsists
  have hq := h.steps hworks.steps
  rw [hq.view] at hunit
  refine hq.exact (fun other hawaits => ?_) (fun _ _ _ hearly => hearly.elim) hunit
  obtain ⟨id, _, hwaits, hfresh⟩ := hawaits
  exact hfresh (hfinished id hwaits)

/-! ### What is emitted -/

/-- Rechecks request nothing from units that are owed a full emit. -/
theorem Works.remaining_eq (htidy : p.Tidy) (hqueue : p.pendingEmit.WellFormed) (hall : p.OwesAll)
    (h : p.Works log [] q) : q.pendingEmit.remaining = p.pendingEmit.remaining := by
  rw [h.remaining_requestAll htidy hqueue]
  refine EmitQueue.requestAll_eq_self fun entry hentry => ?_
  obtain ⟨e, he, rfl⟩ := List.mem_map.mp hentry
  obtain ⟨_, hlt, hpath⟩ := (h.nodup_log htidy).2 e (List.mem_filter.mp he).1
  refine hall e.path ?_
  rw [hpath]
  exact List.mem_of_getElem? (Graph.getElem?_paths_pathOf hlt)

/-- When nothing is left to recheck, all emits are what remains. -/
theorem Phased.works_emitAll {A : Answers η} {w : A.World} (hp : p.Phased) (hat : A.At p.host w)
    (hfinished : ∀ id ∈ p.frontier, id ∈ p.processed) {emitted : List Emitted}
    (h : p.Insists emitAll emitted q) : p.Works [] p.pendingEmit.remaining q := by
  obtain ⟨log, emits, hworks⟩ := Program.works_emitAll hp.tidy h
  have hspent : p.core.nextUnit.1 = none := by
    rw [core_nextUnit]
    exact hp.tidy.nextUnit_eq_none hfinished
  obtain ⟨rfl, _⟩ := (hworks.runs hp.tidy hat).of_spent hspent
  have hremaining := hworks.remaining_eq_append
  rw [(hp.of_emitAll h).emits (phase_done_of_insists hp.tidy h), List.append_nil] at hremaining
  rw [hremaining]
  exact hworks

/-! ### Forced rounds, step by step -/

namespace Forced

variable {A : Answers η} {w : A.World} {r t : Program (Recorded η)} {checks : List Checked}
variable {emitted : List Emitted}

theorem phased (h : q.Forced) : q.recorded.Phased := by
  obtain ⟨p, _, hq⟩ := h.exists_update
  rw [hq]
  exact phased_update p.recorded q.snapshot

/-- No unit is skipped, so that nothing is left of what the program remembered. -/
theorem sound (h : q.Forced) (hview : A.view w = q.snapshot) (hhere : A.At q.host w) :
    q.recorded.Sound A.recorded (fun _ => id) (fun _ _ => False) w := by
  obtain ⟨p, hforce, hq⟩ := h.exists_update
  rw [hq] at hhere ⊢
  exact Sound.of_not_skips (A := A.recorded) (p := p.recorded) hview hhere
    (not_skips_update_of_forced (p := p.recorded) hforce)

/-- The host is asked to check each unit once, and for no emit. -/
theorem checks_perm (h : q.Forced) (hr : q.recorded.Insists checkAll checks r) :
    r.host.checks.Perm (q.snapshot.units.map (·.path)) ∧ r.host.emits = [] := by
  obtain ⟨p, hforce, hq⟩ := h.exists_update
  obtain ⟨log, hworks⟩ := works_checkAll h.phased.tidy hr
  obtain ⟨hchecks, hemits⟩ := hworks.calls h.phased.tidy
  have hround : (p.recorded.update q.snapshot).Works log [] r := by
    rw [hq] at hworks
    exact hworks
  refine ⟨?_, hemits⟩
  rw [hchecks]
  exact hround.perm_of_forced (p := p.recorded) hforce (processed_of_checkAll h.phased.tidy hr)

/-- After the checks, the emits are those that the round owed from its start. -/
theorem emits_eq (h : q.Forced) (hview : A.view w = q.snapshot) (hhere : A.At q.host w)
    (hr : q.recorded.Insists checkAll checks r) (ht : r.Insists emitAll emitted t) :
    t.host.checks = r.host.checks ∧ t.host.emits = q.pendingEmit.remaining := by
  obtain ⟨p, hforce, hq⟩ := h.exists_update
  obtain ⟨log, hworks⟩ := works_checkAll h.phased.tidy hr
  have howes : q.recorded.OwesAll := by
    rw [hq]
    exact owesAll_update (p := p.recorded) hforce
  have hremaining := hworks.remaining_eq h.phased.tidy h.phased.queue howes
  have hmiddle := h.phased.of_checkAll hr
  have hat := ((h.sound hview hhere).steps hworks.steps).here
  have hfinished := processed_of_checkAll h.phased.tidy hr
  obtain ⟨hchecks, hemits⟩ := (hmiddle.works_emitAll hat hfinished ht).calls hmiddle.tidy
  refine ⟨hchecks.trans (List.append_nil _), ?_⟩
  rw [hemits, (h.checks_perm hr).2, hremaining]
  rfl

/-- They are one full emit of each unit, when no unit is owed two emits. -/
theorem perm_remaining_iff (h : q.Forced) :
    q.pendingEmit.remaining.Perm (q.snapshot.units.map fun unit => ⟨unit.path, .full⟩)
      ↔ EmitQueue.Distinct q.pendingEmit.remaining := by
  obtain ⟨p, hforce, hq⟩ := h.exists_update
  rw [hq]
  exact perm_remaining_update_iff hforce

end Forced

end Program

/-- **A forced round heals any history.**  Take any program, and force a round: by asking for a full rebuild,
by other options, or by a start from a document with another fingerprint.  Let the host answer about the
world of the snapshot.  Then a caller who insists gets all checks and then all emits.  Each unit is checked
once, and afterwards the program agrees with a new one over the same world whose checks were pulled.  The
emits are one full emit of each unit, provided that the round owes no unit two emits, which is so for all
programs but those that come from a document in which a unit is named twice among the emits that remain. -/
theorem forced_round_heals {η : Type} [Host η] (A : Answers η) {q fresh : Program η} {w : A.World}
    (hforced : q.Forced) (hview : A.view w = q.snapshot) (hhere : A.At q.host w)
    {host : η} (hstart : Program.start host q.options none = .ok fresh)
    (hview' : A.view w = fresh.snapshot) (hhere' : A.At fresh.host w) :
    (∃ checks r, fresh.Insists Program.checkAll checks r)
      ∧ (∃ checks r emitted t, q.recorded.Insists Program.checkAll checks r
        ∧ r.Insists Program.emitAll emitted t)
      ∧ ∀ checks r, q.recorded.Insists Program.checkAll checks r →
          r.host.checks.Perm (q.snapshot.units.map (·.path)) ∧ r.host.emits = []
            ∧ (∀ checks' r', fresh.Insists Program.checkAll checks' r' → r.plain.Agrees r')
            ∧ ∀ emitted t, r.Insists Program.emitAll emitted t → t.host.checks = r.host.checks
              ∧ (t.host.emits.Perm (q.snapshot.units.map fun unit => ⟨unit.path, .full⟩)
                ↔ EmitQueue.Distinct q.pendingEmit.remaining)
              ∧ (q.Undoubled →
                t.host.emits.Perm (q.snapshot.units.map fun unit => ⟨unit.path, .full⟩)) := by
  have htidy := hforced.phased.tidy
  have hsound := hforced.sound hview hhere
  have hsound' : fresh.Sound A (fun _ => id) (fun _ _ => False) w := Program.Sound.start hstart hview' hhere'
  refine ⟨Program.goesOn_checkAll.exists_insists hsound'.tidy, ?_, fun checks r hr => ?_⟩
  · obtain ⟨checks, r, hr⟩ := Program.goesOn_checkAll.exists_insists htidy
    obtain ⟨emitted, t, ht⟩ :=
      Program.goesOn_emitAll.exists_insists (Program.goesOn_checkAll.tidy_of_insists htidy hr)
    exact ⟨checks, r, emitted, t, hr, ht⟩
  · obtain ⟨hchecks, hemits⟩ := hforced.checks_perm hr
    refine ⟨hchecks, hemits, fun checks' r' hr' => ?_, fun emitted t ht => ?_⟩
    · -- both programs store what the host has to say about the world
      obtain ⟨_, hworks⟩ := Program.works_checkAll htidy hr
      obtain ⟨_, hworks'⟩ := Program.works_checkAll hsound'.tidy hr'
      exact Program.agrees_of_stores (hsound.steps hworks.steps).view
        (hsound'.steps hworks'.steps).view (hsound.stores_of_checkAll hr)
        (hsound'.stores_of_checkAll hr')
    · obtain ⟨hsame, howed⟩ := hforced.emits_eq hview hhere hr ht
      rw [howed]
      exact ⟨hsame, hforced.perm_remaining_iff,
        fun hundoubled => hforced.perm_remaining_iff.mpr hundoubled.distinct⟩

namespace Pair

/-- Two units of which the right one changes after the left one was emitted, in the middle of the round. -/
def interrupted : Program Pair :=
  (Request.play [.check, .check, .emit, .edit fun _ => ⟨"int", "str"⟩,
    .update (snapshot ⟨"int", "str"⟩), .check] (fresh ⟨"int", "int"⟩)).2

end Pair

/-- A full rebuild is asked for while the left unit waits to be rechecked and the right one to be emitted. -/
theorem forced_round_heals_interrupted :
    let p := Pair.interrupted
    p.pendingChecks = [⟨"left", false⟩] ∧ p.pendingEmit.remaining = [⟨"right", .full⟩]
      ∧ ∃ checks r emitted t, p.forceRebuild.recorded.Insists Program.checkAll checks r
        ∧ r.Insists Program.emitAll emitted t ∧ r.host.checks.Perm ["left", "right"]
        ∧ t.host.emits.Perm [⟨"left", .full⟩, ⟨"right", .full⟩]
        ∧ ∃ checks' r', (Pair.fresh ⟨"int", "str"⟩).Insists Program.checkAll checks' r'
          ∧ r.plain.Agrees r' := by
  intro p
  have hstart : (Pair.fresh ⟨"int", "int"⟩).Undoubled := .start (Pair.start_fresh _) fun _ h => by cases h
  have hundoubled : p.forceRebuild.Undoubled := .request (hstart.play _) .rebuild
  have hfacts : p.pendingChecks = [⟨"left", false⟩] ∧ p.pendingEmit.remaining = [⟨"right", .full⟩]
      ∧ p.forceRebuild.options = {} ∧ p.forceRebuild.host = ⟨"int", "str"⟩
      ∧ p.forceRebuild.snapshot = Pair.snapshot ⟨"int", "str"⟩ := by decide +kernel
  obtain ⟨hwaiting, hremaining, hoptions, hhost, hsnapshot⟩ := hfacts
  have hfresh : Program.start ⟨"int", "str"⟩ p.forceRebuild.options none
      = .ok (Pair.fresh ⟨"int", "str"⟩) := by
    rw [hoptions]
    exact Pair.start_fresh _
  obtain ⟨⟨checks', r', hr'⟩, ⟨checks, r, emitted, t, hr, ht⟩, hall⟩ :=
    forced_round_heals Pair.answers (.rebuild p) hsnapshot.symm hhost hfresh rfl rfl
  obtain ⟨hchecks, _, hagrees, hrest⟩ := hall checks r hr
  obtain ⟨_, _, hemits⟩ := hrest emitted t ht
  rw [hsnapshot] at hchecks hemits
  exact ⟨hwaiting, hremaining, checks, r, emitted, t, hr, ht, hchecks, hemits hundoubled, checks', r', hr',
    hagrees checks' r' hr'⟩

namespace Stub

def single : Stub where
  snapshot := ⟨[{ path := "a", version := "one" }], by simp⟩

/-- A document with another fingerprint that lists the declarations of the unit twice. -/
def doubled : BuildInfo.Document where
  toolVersion := BuildInfo.toolVersion
  optionsHash := some "0"
  units := [{ path := "a", version := "one" }]
  pendingEmit := [⟨0, .types⟩, ⟨0, .types⟩]

/-- The program that is started from it. -/
def reborn : Program Stub :=
  match doubled.decode BuildInfo.toolVersion with
  | .ok decoded => ((Program.blank single {}).restore decoded).update single.snapshot
  | .error _ => single.fresh

theorem start_reborn : ∃ decoded, Program.decoded? (some doubled.text) = some decoded
    ∧ decoded.optionsHash = some "0" ∧ Program.start single {} (some doubled.text) = .ok reborn := by
  have hread : Program.decoded? (some doubled.text)
      = (doubled.decode BuildInfo.toolVersion).toOption := by
    have hfits : doubled.Fits := by decide
    have htool : doubled.toolVersion = BuildInfo.toolVersion := rfl
    rw [Program.decoded?, Option.bind_some, BuildInfo.Document.read_text htool, if_pos hfits]
  have hhash : (doubled.decode BuildInfo.toolVersion).toOption.map (·.optionsHash)
      = some (some "0") := by decide +kernel
  obtain ⟨decoded, hdecoded, hother⟩ := Option.map_eq_some_iff.mp hhash
  rw [hdecoded] at hread
  refine ⟨decoded, hread, hother, Program.start_eq_ok_iff.mpr ⟨single, single.snapshot, rfl, ?_⟩⟩
  rw [Program.prior, hread, reborn]
  cases hcontent : doubled.decode BuildInfo.toolVersion with
  | error e =>
      rw [hcontent] at hdecoded
      cases hdecoded
  | ok content =>
      rw [hcontent] at hdecoded
      cases hdecoded
      rfl

end Stub

/-- **A document can bring in two emits of one unit.**  The unit is emitted in full, and then its
declarations once more. -/
theorem forced_round_emits_twice :
    let q := Stub.reborn
    let r := q.recorded.checkAll.2
    let t := r.emitAll.2
    q.Forced ∧ Stub.answers.view Stub.single = q.snapshot ∧ Stub.answers.At q.host Stub.single
      ∧ (∃ checks, q.recorded.Insists Program.checkAll checks r)
      ∧ (∃ emitted, r.Insists Program.emitAll emitted t)
      ∧ t.host.emits = [⟨"a", .full⟩, ⟨"a", .types⟩]
      ∧ ¬ t.host.emits.Perm (q.snapshot.units.map fun unit => ⟨unit.path, .full⟩) := by
  intro q r t
  obtain ⟨decoded, hdecoded, hhash, hstart⟩ := Stub.start_reborn
  have hfacts : some "0" ≠ some q.optionsHash ∧ Stub.single.snapshot = q.snapshot
      ∧ q.host = Stub.single ∧ q.recorded.checkAll.1.isOk = true ∧ r.emitAll.1.isOk = true
      ∧ t.host.emits = [⟨"a", .full⟩, ⟨"a", .types⟩] ∧ q.snapshot.units.length = 1 := by
    decide +kernel
  obtain ⟨hother, hsnapshot, hhost, hchecked, hemitted, hemits, hlength⟩ := hfacts
  have hforced : q.Forced := .document hstart hdecoded (by rw [hhash]; exact hother)
  refine ⟨hforced, hsnapshot, hhost, Program.Insists.of_isOk hchecked, Program.Insists.of_isOk hemitted,
    hemits, ?_⟩
  rw [hemits]
  intro hperm
  have htwo := hperm.length_eq
  rw [List.length_map, hlength] at htwo
  cases htwo

end Rebuild
