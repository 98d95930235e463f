import Rebuild.Proofs.Everything
import Rebuild.Proofs.Soundness

/-!
# Rounds that are taken up again

A round can be left before it is finished.  A later round over the same snapshot then starts from what
the first one remembers: what is known about the units, and which of them wait.  Whether it rechecks
what the first round still had to recheck is a comparison of two logs.

* `Program.foreseen`: the recheck of a unit as it comes out in a world.  Every recheck of a round is
  foreseen when the round starts (`Steps.foreseen`);
* `Program.Recalls`: what the later round has to start from;
* `LosesLeak`, `Program.LosesFlag`: what may still get lost, since the later round makes its rechecks
  in another order;
* `Program.TakesUp`: a log that makes up for the rest of a round, and
  `Program.Retraces.steps`: it contains that rest;
* `Program.Recalls.takesUp`: a finished round that starts so takes up the first one.
-/

namespace Rebuild

/-- A unit of the rest of a round counts as moved only because it republishes one that does, and is
rechecked in the log `again` without counting there. -/
def LosesLeak (g : Graph) (made rest again : List Recheck) : Prop :=
  ∃ e ∈ rest, e ∈ movers g (made ++ rest) ∧ e.moved = false ∧ Rechecked again e.path
    ∧ ∀ d ∈ movers g again, d.unit ≠ e.unit

instance (g : Graph) (made rest again : List Recheck) : Decidable (LosesLeak g made rest again) :=
  inferInstanceAs (Decidable (∃ e ∈ rest, _))

namespace Program

/-! ### Rechecks that are foreseen -/

section Foreseen

variable {η : Type} [Host η] {A : Answers η} {w : A.World} {p q : Program η} {unit id : UnitId}

/-- The recheck of a unit as it comes out in a world. -/
def foreseen (p : Program η) (A : Answers η) (w : A.World) (unit : UnitId) : Recheck where
  unit := unit
  path := p.state.graph.pathOf unit
  moved := p.state.moves unit (A.verdict w (p.state.graph.pathOf unit)).1
  isGlobal := (p.state.info? unit).any (·.isGlobal)

theorem recheckOf_eq_foreseen (hhere : A.At p.host w) (unit : UnitId) :
    p.recheckOf unit = p.foreseen A w unit := by
  rw [recheckOf, foreseen, found, (Answers.examine_eq hhere _).1]

/-- A recheck changes nothing for the other units. -/
theorem Rechecks.foreseen_of_ne (h : p.Rechecks unit q) (hne : id ≠ unit) :
    q.foreseen A w id = p.foreseen A w id := by
  simp only [foreseen, State.moves, State.info?, h.state, State.graph_sign,
    State.record?_sign_of_ne hne]

theorem Rests.foreseen (h : p.Rests q) (id : UnitId) : q.foreseen A w id = p.foreseen A w id := by
  rw [Program.foreseen, Program.foreseen, h.state]

end Foreseen

end Program

/-- **The rechecks of a round are foreseen at every moment before them.** -/
theorem Steps.foreseen {η : Type} [Host η] {A : Answers η} {w : A.World} {p q : Program η}
    {log : List Recheck} (htidy : p.Tidy) (hhere : A.At p.host w)
    (h : Steps (A.Keeps w) p log q) :
    ∀ e ∈ log, e.unit ∉ p.processed ∧ e = p.foreseen A w e.unit := by
  induction h with
  | refl p => simp
  | @head p q r first rest hstep _ ih =>
      intro e he
      have hrest := ih (hstep.tidy htidy) (hstep.here htidy hhere)
      rcases Step.cases htidy hstep with ⟨unit, rfl, hrechecks⟩ | ⟨rfl, hrests⟩
      · rcases List.mem_append.mp he with hfirst | hlater
        · rw [List.mem_singleton.mp hfirst]
          exact ⟨hrechecks.fresh, Program.recheckOf_eq_foreseen hhere unit⟩
        · obtain ⟨hfresh, hsame⟩ := hrest e hlater
          rw [hrechecks.processed, List.mem_append, List.mem_singleton, not_or] at hfresh
          exact ⟨hfresh.1, hsame.trans (hrechecks.foreseen_of_ne hfresh.2)⟩
      · obtain ⟨hfresh, hsame⟩ := hrest e he
        rw [hrests.processed] at hfresh
        exact ⟨hfresh, hsame.trans (hrests.foreseen e.unit)⟩

namespace Program

/-! ### What a later round starts from -/

section Recalls

variable {η : Type} {p q here prior : Program η} {s : Snapshot} {id : UnitId}
variable {log made : List Recheck}

/-- Every record is of the version that the snapshot has. -/
def UpToDate (p : Program η) : Prop :=
  p.state.records.map (·.info.version) = p.snapshot.units.map (·.version)

theorem upToDate_update (p : Program η) (s : Snapshot) : (p.update s).UpToDate := by
  show (s.units.map _).map _ = s.units.map _
  rw [List.map_map]
  exact List.map_congr_left fun unit _ => UnitRecord.next_version _ _

/-- A round keeps its snapshot and the versions of the records. -/
theorem UpToDate.steps [Host η] {allowed : (η → η) → Prop} (h : p.UpToDate) (htidy : p.Tidy)
    (hsteps : Steps allowed p log q) : q.UpToDate ∧ q.snapshot = p.snapshot := by
  have hstep : ∀ {q r : Program η} {more : List Recheck},
      q.Tidy ∧ q.UpToDate ∧ q.snapshot = p.snapshot → Step allowed q more r →
        r.Tidy ∧ r.UpToDate ∧ r.snapshot = p.snapshot := by
    intro q r more ⟨hq, hversions, hsnapshot⟩ hstep
    have hkept : r.state.records.map (·.info.version) = q.state.records.map (·.info.version)
        ∧ r.snapshot = q.snapshot := by
      rcases Step.cases hq hstep with ⟨unit, _, hrechecks⟩ | ⟨_, hrests⟩
      · refine ⟨?_, hrechecks.snapshot⟩
        rw [hrechecks.state]
        exact State.versions_sign
      · exact ⟨by rw [hrests.state], hrests.snapshot⟩
    refine ⟨hstep.tidy hq, ?_, hkept.2.trans hsnapshot⟩
    rw [UpToDate, hkept.1, hkept.2]
    exact hversions
  exact (hsteps.keeps hstep ⟨htidy, h, rfl⟩).2

/-- The middle of a round that took `p` to the snapshot `s`, where `here` is the program and `made` what
was rechecked. -/
structure Midway (p : Program η) (s : Snapshot) (made : List Recheck) (here : Program η) : Prop where
  round : p.Propagates s made here
  spreads : here.Spreads (s.graph p.options.dependencyTracking) made
  versions : here.UpToDate
  snapshot : here.snapshot = s

namespace Midway

theorem start (p : Program η) (s : Snapshot) : p.Midway s [] (p.update s) :=
  ⟨Propagates.start p s, Spreads.start p s, upToDate_update p s, rfl⟩

theorem steps [Host η] {allowed : (η → η) → Prop} {rest : List Recheck} {r : Program η}
    (h : p.Midway s made here) (hsteps : Steps allowed here rest r) : p.Midway s (made ++ rest) r := by
  obtain ⟨hversions, hsnapshot⟩ := h.versions.steps h.round.tidy hsteps
  exact ⟨h.round.steps hsteps, h.spreads.steps hsteps, hversions, hsnapshot.trans h.snapshot⟩

theorem idOf?_pathOf (h : p.Midway s made here) (hid : id < here.state.graph.size) :
    (s.graph p.options.dependencyTracking).idOf? (here.state.graph.pathOf id) = some id := by
  rw [← h.round.graph]
  exact Graph.idOf?_pathOf h.round.tidy.wellFormed.nodup hid

/-- Each unit of a round is a unit of its snapshot, and has a record of its version. -/
theorem exists_unit (h : p.Midway s made here) (hid : id < here.state.graph.size) :
    ∃ unit r, s.unit? (here.state.graph.pathOf id) = some unit ∧ here.state.record? id = some r
      ∧ r.info.version = unit.version := by
  have hnumber := h.idOf?_pathOf hid
  have hsize : id < s.units.length := by
    rw [h.round.graph, Snapshot.graph_size] at hid
    exact hid
  have hversion := congrArg (·[id]?) h.versions
  simp only [h.snapshot, List.getElem?_map, List.getElem?_eq_getElem hsize, Option.map_some,
    Option.map_eq_some_iff] at hversion
  obtain ⟨r, hr, hversion⟩ := hversion
  refine ⟨s.units[id], r, ?_, hr, hversion⟩
  rw [← Snapshot.getElem?_units_of_idOf? hnumber, List.getElem?_eq_getElem hsize]

end Midway

/-- The program `prior`, from which the next round starts, remembers what `here` remembers: it has the
same units and the same infos, compares no unit with another digest, and the units that wait in `here`
wait in it, with their flags. -/
structure Recalls (here prior : Program η) : Prop where
  tracking : prior.options.dependencyTracking = here.state.graph.tracking
  info : ∀ path, prior.state.infoOf? path = here.state.infoOf? path
  known : ∀ path hash, prior.known? path = some hash → here.known? path = some hash
  pending : ∀ path ∈ here.pendingChecks.map (·.unit), path ∈ prior.pendingChecks.map (·.unit)
  flagged : ∀ path, ⟨path, true⟩ ∈ here.pendingChecks → ⟨path, true⟩ ∈ prior.pendingChecks

namespace Recalls

/-- The units have the same numbers again. -/
theorem graph (h : here.Recalls prior) (hmid : p.Midway s made here) :
    s.graph prior.options.dependencyTracking = s.graph p.options.dependencyTracking := by
  rw [h.tracking, hmid.round.graph, Snapshot.graph_tracking]

theorem covered_update (h : here.Recalls prior) (hmid : p.Midway s made here)
    (howed : here.Owed id) : (prior.update s).Covered id := by
  have hnumber := hmid.idOf?_pathOf (hmid.round.tidy.bounded id howed.1)
  have hpath : here.state.graph.pathOf id ∈ here.pendingChecks.map (·.unit) :=
    mem_pendingChecks.mpr ⟨id, howed, rfl⟩
  refine Or.inr (mem_frontier_update_of_mem (Or.inr (Or.inr (mem_carriedRoots.mpr ?_))))
  refine ⟨_, h.pending _ hpath, ?_⟩
  rw [h.graph hmid]
  exact hnumber

theorem flagged_update (h : here.Recalls prior) (hmid : p.Midway s made here) {path : UnitPath}
    (hcheck : ⟨path, true⟩ ∈ here.pendingChecks) :
    ⟨path, true⟩ ∈ (prior.update s).pendingChecks := by
  obtain ⟨flagged, hnumber, _⟩ := hmid.spreads.waitsFlagged hcheck
  rw [mem_pendingChecks_update_flagged, h.graph hmid]
  refine ⟨flagged, flags_update.mpr (Or.inr ⟨path, h.flagged path hcheck, ?_⟩),
    Graph.pathOf_of_idOf? hnumber⟩
  rw [h.graph hmid]
  exact hnumber

variable [Host η] {A : Answers η} {w : A.World}

/-- What moves now moves when the round is taken up again. -/
theorem moved_update (h : here.Recalls prior) (hmid : p.Midway s made here)
    (hid : id < here.state.graph.size)
    (hmoved : (here.foreseen A w id).moved = true) :
    ((prior.update s).foreseen A w id).moved = true := by
  have hgraph : (prior.update s).state.graph = here.state.graph :=
    (h.graph hmid).trans hmid.round.graph.symm
  obtain ⟨unit, _, hunit, _, _⟩ := hmid.exists_unit hid
  rw [← Bool.not_eq_false]
  intro hstays
  have hsize : id < (prior.update s).state.graph.size := by
    rw [hgraph]
    exact hid
  obtain ⟨hash, hknown, hverdict⟩ :=
    (State.moves_eq_false_iff (tidy_update prior s).wellFormed hsize).mp hstays
  rw [hgraph] at hknown hverdict
  have hprior : prior.known? (here.state.graph.pathOf id) = some hash :=
    (known?_update hunit).symm.trans hknown
  have hsame : (here.foreseen A w id).moved = false :=
    (State.moves_eq_false_iff hmid.round.tidy.wellFormed hid).mpr ⟨hash, h.known _ _ hprior, hverdict⟩
  rw [hsame] at hmoved
  cases hmoved

/-- A unit is global again exactly when it is now. -/
theorem isGlobal_update (h : here.Recalls prior) (hmid : p.Midway s made here)
    (hid : id < here.state.graph.size) :
    ((prior.update s).foreseen A w id).isGlobal = (here.foreseen A w id).isGlobal := by
  obtain ⟨unit, r, hunit, hr, hversion⟩ := hmid.exists_unit hid
  have hnumber := Graph.idOf?_pathOf hmid.round.tidy.wellFormed.nodup hid
  have hinfo : prior.state.infoOf? (here.state.graph.pathOf id) = some r.info := by
    rw [h.info, State.infoOf?, State.recordOf?_of_idOf? hnumber, hr]
    rfl
  obtain ⟨old, hold, hsame⟩ := State.infoOf?_eq_some_iff.mp hinfo
  have hnext : (prior.update s).state.record? id = some (UnitRecord.next (some old) unit) := by
    have hrecord : (prior.update s).state.recordOf? (here.state.graph.pathOf id) = _ :=
      State.recordOf?_ofSnapshot (here.state.graph.pathOf id)
    rw [hunit, hold] at hrecord
    rw [state_update, ← State.recordOf?_of_idOf?]
    · exact hrecord
    · rw [State.graph_ofSnapshot, h.graph hmid, ← hmid.round.graph]
      exact hnumber
  show ((prior.update s).state.info? id).any _ = (here.state.info? id).any _
  rw [State.info?, State.info?, hnext, hr, Option.map_some, Option.map_some,
    UnitRecord.next_info_of_version (by rw [hsame]; exact hversion), hsame]

end Recalls

end Recalls

/-! ### Logs that make up for the rest of a round -/

section TakesUp

variable {η : Type} {p q r here : Program η} {s : Snapshot} {g : Graph} {unit id : UnitId}
variable {log again made rest : List Recheck} {path : UnitPath}

/-- What the log `again` has to contain in order to make up for the rest of a round that is at `here`
and whose rechecks are those of `log`. -/
structure TakesUp (g : Graph) (here : Program η) (log again : List Recheck) : Prop where
  /-- The units that wait. -/
  pending : ∀ id, here.Owed id → Rechecked again (g.pathOf id)
  /-- What is rechecked in both logs and counts as moved in the first counts in the second. -/
  counted : ∀ e ∈ movers g log, e.unit ∉ here.processed → Rechecked again (g.pathOf e.unit) →
    ∃ d ∈ movers g again, d.unit = e.unit ∧ d.isGlobal = e.isGlobal
  dependents : ∀ d ∈ movers g again, ∀ id ∈ g.dependentsOf d.unit, Rechecked again (g.pathOf id)
  everything : (g.tracking = false ∧ again ≠ []) ∨ (∃ d ∈ movers g again, d.isGlobal = true) →
    ∀ id ∈ g.units, Rechecked again (g.pathOf id)
  /-- Every unit, when one waits with a flag and is not overtaken. -/
  flags : ∀ path, ⟨path, true⟩ ∈ here.pendingChecks → ¬ Overtaken g log path →
    ∀ id ∈ g.units, Rechecked again (g.pathOf id)

/-- The round has gone on from `here` to `q`.  No root was added, and what is covered now was processed
before or is rechecked in `again`. -/
structure Retraces (here : Program η) (again : List Recheck) (q : Program η) : Prop where
  graph : q.state.graph = here.state.graph
  roots : ∀ root ∈ q.roots, root ∈ here.roots
  processed : ∀ id ∈ here.processed, id ∈ q.processed
  covered : ∀ id, q.Covered id → id ∈ here.processed ∨ Rechecked again (q.state.graph.pathOf id)

/-- A unit that is handed out as a root, once everything that was reached is processed, is not
overtaken. -/
theorem Spreads.not_overtaken (h : q.Spreads g made) (hround : p.Propagates s made q)
    (hreached : ∀ id, q.Reached id → id ∈ q.processed) {e : Recheck}
    (hfresh : e.unit ∉ q.processed)
    (hlogged : ∀ d ∈ made ++ e :: rest, g.idOf? d.path = some d.unit) :
    ¬ Overtaken g (made ++ e :: rest) e.path := by
  have hself := hlogged e (List.mem_append_right _ List.mem_cons_self)
  have hsame : ∀ d ∈ made ++ e :: rest, d.path = e.path → d.unit = e.unit := by
    intro d hd hpath
    have hunit := hlogged d hd
    rw [hpath, hself] at hunit
    exact (Option.some.inj hunit).symm
  have hbefore : (made ++ e :: rest).takeWhile (·.path ≠ e.path) = made := by
    refine takeWhile_path_ne fun d hd hpath => hfresh ?_
    rw [hround.processed, ← hsame d (List.mem_append_left _ hd) hpath]
    exact List.mem_map_of_mem hd
  rintro ⟨d, hd, hpath, ⟨mover, hmover, hdepends⟩, _⟩
  rw [hbefore] at hmover
  rw [hsame d hd hpath] at hdepends
  exact hfresh (hreached e.unit (h.dependents mover hmover e.unit hdepends))

namespace Retraces

theorem rests (h : here.Retraces again q) (hrests : q.Rests r) (hidles : q.Idles r) :
    here.Retraces again r where
  graph := by
    rw [hrests.state]
    exact h.graph
  roots := by
    intro root hroot
    rcases hidles with ⟨_, hroots⟩ | ⟨_, hnone, _⟩
    · exact h.roots root (hroots ▸ hroot)
    · rw [hnone] at hroot
      simp at hroot
  processed := by
    rw [hrests.processed]
    exact h.processed
  covered := by
    intro id hid
    rw [hrests.state]
    exact h.covered id ((hrests.covered id).mpr hid)

variable [Host η] {allowed : (η → η) → Prop} {pass : Pass}

/-- What a recheck calls for is rechecked in the other log. -/
theorem rechecked_of_mem_calls (h : here.Retraces again q) (hround : p.Propagates s made q)
    (hspreads : q.Spreads g made) (htakes : TakesUp g here (made ++ q.recheckOf unit :: rest) again)
    (hlogged : ∀ d ∈ made ++ q.recheckOf unit :: rest, g.idOf? d.path = some d.unit)
    (hrechecks : q.Rechecks unit r) (hvisits : q.Visits unit pass r)
    (hid : id ∈ q.calls unit pass) : Rechecked again (g.pathOf id) := by
  have hfresh : unit ∉ here.processed := fun hdone => hvisits.fresh (h.processed unit hdone)
  have hagain : Rechecked again (g.pathOf unit) := by
    rw [← hspreads.graph]
    exact (h.covered unit (Or.inr hrechecks.awaited)).resolve_left hfresh
  have hunits : id ∈ g.units := by
    rw [← hspreads.graph]
    exact Pass.mem_units_of_mem_calls hid
  have hmover : pass.isMoved unit (q.recheckOf unit).moved = true →
      ∃ d ∈ movers g again, d.unit = unit ∧ d.isGlobal = (q.recheckOf unit).isGlobal := by
    intro hmoved
    have hcounts := mem_movers_of_counts (hspreads.counts_of_isMoved hvisits hmoved)
    refine htakes.counted (q.recheckOf unit) ?_ hfresh hagain
    rw [← List.singleton_append, ← List.append_assoc]
    exact mem_movers_append rest hcounts
  rcases Pass.calls_cases hid with hall | ⟨hmoved, hdepends⟩
  · simp only [Pass.concernsAll, Bool.or_eq_true, Bool.not_eq_true', Bool.and_eq_true] at hall
    rcases hall with (htracking | hmarks) | ⟨hmoved, hglobal⟩
    · refine htakes.everything (Or.inl ⟨hspreads.graph ▸ htracking, ?_⟩) id hunits
      rintro rfl
      obtain ⟨e, he, _⟩ := hagain
      simp at he
    · simp only [Pass.marksEverything, Bool.and_eq_true, beq_iff_eq] at hmarks
      rcases hvisits.handed.origin hround.tidy
        with ⟨current, hcurrent, _, hroot, _⟩ | ⟨hreached, root, hroot, hunit, _, hflag, _⟩
      · -- the root of the pass under way is processed
        refine absurd (hspreads.rooted current hcurrent) ?_
        rw [← hroot, ← hmarks.2]
        exact hvisits.fresh
      · have hflags : Root.Flags (here.passRoots ++ here.roots) unit :=
          ⟨root, List.mem_append_right _ (h.roots root hroot), hunit, hflag ▸ hmarks.1⟩
        have hcheck : ⟨q.state.graph.pathOf unit, true⟩ ∈ here.pendingChecks :=
          mem_pendingChecks_flagged.mpr ⟨unit, hflags, hfresh, by rw [h.graph]⟩
        exact htakes.flags _ hcheck
          (hspreads.not_overtaken hround hreached hvisits.fresh hlogged) id hunits
    · obtain ⟨d, hd, _, hsame⟩ := hmover hmoved
      exact htakes.everything (Or.inr ⟨d, hd, hsame.trans hglobal⟩) id hunits
  · obtain ⟨d, hd, hunit, _⟩ := hmover hmoved
    refine htakes.dependents d hd id ?_
    rw [hunit, ← hspreads.graph]
    exact hdepends

/-- **A recheck keeps the invariant.** -/
theorem visit (h : here.Retraces again q) (hround : p.Propagates s made q)
    (hspreads : q.Spreads g made) (htakes : TakesUp g here (made ++ q.recheckOf unit :: rest) again)
    (hlogged : ∀ d ∈ made ++ q.recheckOf unit :: rest, g.idOf? d.path = some d.unit)
    (hrechecks : q.Rechecks unit r) (hvisits : q.Visits unit pass r) : here.Retraces again r where
  graph := hvisits.graph.trans h.graph
  roots := fun root hroot => h.roots root (hvisits.handed.roots_sublist.subset hroot)
  processed := fun id hid => hvisits.mem_processed (h.processed id hid)
  covered := by
    intro id hid
    rw [hvisits.graph]
    rcases hvisits.covered_cases hround.tidy hrechecks.awaited hid with hcovered | hcalled
    · exact h.covered id hcovered
    · refine Or.inr ?_
      rw [hspreads.graph]
      exact h.rechecked_of_mem_calls hround hspreads htakes hlogged hrechecks hvisits hcalled

/-- **The rest of the round keeps it.** -/
theorem steps (h : here.Retraces again q) (hround : p.Propagates s made q)
    (hspreads : q.Spreads g made) (htakes : TakesUp g here (made ++ rest) again)
    (hlogged : ∀ d ∈ made ++ rest, g.idOf? d.path = some d.unit)
    (hsteps : Steps allowed q rest r) : here.Retraces again r := by
  induction hsteps generalizing made with
  | refl q => exact h
  | @head q q' r first rest hstep _ ih =>
      rw [← List.append_assoc] at htakes hlogged
      refine ih ?_ (hround.step hstep) (hspreads.step hstep) htakes hlogged
      rcases hstep.visits hround.tidy with ⟨unit, pass, rfl, hrechecks, hvisits⟩ | ⟨_, hrests, hidles⟩
      · rw [List.append_assoc, List.singleton_append] at htakes hlogged
        exact h.visit hround hspreads htakes hlogged hrechecks hvisits
      · exact h.rests hrests hidles

end Retraces

/-- A log that makes up for the rest of a round contains it. -/
theorem TakesUp.rechecked [Host η] {allowed : (η → η) → Prop}
    (h : TakesUp g here (made ++ rest) again) (hround : p.Propagates s made here)
    (hspreads : here.Spreads g made) (hsteps : Steps allowed here rest r) {e : Recheck}
    (he : e ∈ rest) (hfresh : e.unit ∉ here.processed) : Rechecked again e.path := by
  have hend := hround.steps hsteps
  have hgraph := hround.graph.symm.trans hspreads.graph
  have hstart : here.Retraces again here := by
    refine ⟨rfl, fun _ hroot => hroot, fun _ hid => hid, fun id hid => ?_⟩
    rw [hspreads.graph]
    exact hid.processed_or_owed.imp_right (h.pending id)
  have hretraces := hstart.steps hround hspreads h
    (fun d hd => hgraph ▸ hend.idOf?_path hd) hsteps
  have hmem : e ∈ made ++ rest := List.mem_append_right _ he
  have hdone : e.unit ∈ r.processed := by
    rw [hend.processed]
    exact List.mem_map_of_mem hmem
  rw [(hend.logged e hmem).2]
  exact (hretraces.covered e.unit (Or.inl hdone)).resolve_left hfresh

end TakesUp

/-! ### What a later round takes up -/

/-- Of the checks that wait with a flag, one is overtaken in the log `again` and not in `log`. -/
def LosesFlag {η : Type} (g : Graph) (here : Program η) (log again : List Recheck) : Prop :=
  ∃ check ∈ here.pendingChecks, check.isGlobal = true ∧ Overtaken g again check.unit
    ∧ ¬ Overtaken g log check.unit

instance {η : Type} (g : Graph) (here : Program η) (log again : List Recheck) :
    Decidable (here.LosesFlag g log again) :=
  inferInstanceAs (Decidable (∃ check ∈ here.pendingChecks, _))

section Recalls

variable {η : Type} [Host η] {A : Answers η} {w : A.World} {allowed : (η → η) → Prop}
variable {p here prior final r : Program η} {s : Snapshot} {made rest again : List Recheck}

/-- What counts as moved in the rest of the round counts again, if it is rechecked and no leak is
lost. -/
theorem Recalls.exists_mover (h : here.Recalls prior) (hmid : p.Midway s made here)
    (hhere : A.At here.host w) (hrest : Steps (A.Keeps w) here rest r)
    (hprior : A.At prior.host w) (hagain : Steps (A.Keeps w) (prior.update s) again final)
    (hleaks : ¬ LosesLeak (s.graph p.options.dependencyTracking) made rest again) {e : Recheck}
    (hmem : e ∈ rest) (he : e ∈ movers (s.graph p.options.dependencyTracking) (made ++ rest))
    (hre : Rechecked again e.path) :
    ∃ d ∈ movers (s.graph p.options.dependencyTracking) again,
      d.unit = e.unit ∧ d.isGlobal = e.isGlobal := by
  have hforeseen := Steps.foreseen (tidy_update prior s) hprior hagain
  obtain ⟨_, hself⟩ := Steps.foreseen hmid.round.tidy hhere hrest e hmem
  have hnumber := (hmid.steps hrest).round.idOf?_path (List.mem_append_right _ hmem)
  have hsize : e.unit < here.state.graph.size := by
    rw [hmid.round.graph]
    exact Graph.lt_size_of_idOf? hnumber
  have hglobal : ∀ d ∈ again, d.unit = e.unit → d.isGlobal = e.isGlobal := by
    intro d hd hunit
    rw [(hforeseen d hd).2, hself, hunit]
    exact h.isGlobal_update hmid hsize
  cases hmoved : e.moved with
  | true =>
      obtain ⟨d, hd, hpath⟩ := hre
      have hunit : d.unit = e.unit := by
        have hnumber' := ((Midway.start prior s).steps hagain).round.idOf?_path hd
        rw [h.graph hmid, hpath, hnumber] at hnumber'
        exact (Option.some.inj hnumber').symm
      refine ⟨d, mem_movers_of_signature hd ?_, hunit, hglobal d hd hunit⟩
      rw [(hforeseen d hd).2, hunit]
      rw [hself] at hmoved
      exact h.moved_update hmid hsize hmoved
  | false =>
      obtain ⟨d, hd, hunit⟩ : ∃ d ∈ movers (s.graph p.options.dependencyTracking) again,
          d.unit = e.unit := by
        refine Classical.byContradiction fun hnone => hleaks ⟨e, hmem, he, hmoved, hre, ?_⟩
        exact fun d hd hunit => hnone ⟨d, hd, hunit⟩
      exact ⟨d, hd, hunit, hglobal d (mem_of_mem_movers hd) hunit⟩

/-- **A finished round that starts from what a round remembers takes it up**, unless a leak or a flag
is lost on the way. -/
theorem Recalls.takesUp (h : here.Recalls prior) (hmid : p.Midway s made here)
    (hhere : A.At here.host w) (hrest : Steps (A.Keeps w) here rest r)
    (hprior : A.At prior.host w) (hagain : Steps (A.Keeps w) (prior.update s) again final)
    (hfinished : final.Finished)
    (hleaks : ¬ LosesLeak (s.graph p.options.dependencyTracking) made rest again)
    (hflags : ¬ LosesFlag (s.graph p.options.dependencyTracking) here (made ++ rest) again) :
    TakesUp (s.graph p.options.dependencyTracking) here (made ++ rest) again := by
  have hgraph := h.graph hmid
  have hlater := (Midway.start prior s).steps hagain
  rw [List.nil_append] at hlater
  have hspreads := hlater.spreads
  rw [hgraph] at hspreads
  -- in the finished round, what is covered was rechecked
  have hrechecked : ∀ id ∈ (s.graph p.options.dependencyTracking).units, final.Covered id →
      Rechecked again ((s.graph p.options.dependencyTracking).pathOf id) := by
    intro id hid hcovered
    refine hlater.round.rechecked hfinished ?_ hcovered
    rw [hgraph]
    exact Graph.idOf?_pathOf Snapshot.graph_nodup (Graph.mem_units.mp hid)
  refine ⟨fun id howed => ?_, fun e he hfresh hre => ?_, fun d hd id hid => ?_, fun hall id hid => ?_,
    fun path hcheck hnot id hid => ?_⟩
  · refine hrechecked id ?_ (hlater.round.roots id (h.covered_update hmid howed))
    rw [← hmid.round.graph]
    exact Graph.mem_units.mpr (hmid.round.tidy.bounded id howed.1)
  · have hlog := mem_of_mem_movers he
    have hmem : e ∈ rest := by
      refine (List.mem_append.mp hlog).resolve_left fun hmade => hfresh ?_
      rw [hmid.round.processed]
      exact List.mem_map_of_mem hmade
    have hend := (hmid.steps hrest).round
    rw [← hend.graph, ← (hend.logged e hlog).2] at hre
    exact h.exists_mover hmid hhere hrest hprior hagain hleaks hmem he hre
  · have hsize := Graph.lt_size_of_mem_dependentsOf hid
    exact hrechecked id (Graph.mem_units.mpr hsize) (hspreads.dependents d hd id hid).covered
  · refine hrechecked id hid (hspreads.everything hall id ?_).covered
    rw [hspreads.graph]
    exact hid
  · obtain ⟨flagged, hstart⟩ := (Spreads.start prior s).honours (Propagates.start prior s)
      (h.flagged_update hmid hcheck)
    have hhonours := hstart.steps hagain
    rw [List.nil_append] at hhonours
    rcases hhonours.finished hfinished with hall | hovertaken
    · refine hrechecked id hid (Or.inl (hall id ?_))
      rw [hspreads.graph]
      exact hid
    · rw [hgraph] at hovertaken
      exact absurd ⟨_, hcheck, rfl, hovertaken, hnot⟩ hflags

/-- So it rechecks everything that the round still had to recheck. -/
theorem Recalls.rechecked (h : here.Recalls prior) (hmid : p.Midway s made here)
    (hhere : A.At here.host w) (hrest : Steps (A.Keeps w) here rest r)
    (hprior : A.At prior.host w) (hagain : Steps (A.Keeps w) (prior.update s) again final)
    (hfinished : final.Finished)
    (hleaks : ¬ LosesLeak (s.graph p.options.dependencyTracking) made rest again)
    (hflags : ¬ LosesFlag (s.graph p.options.dependencyTracking) here (made ++ rest) again)
    {e : Recheck} (he : e ∈ rest) : Rechecked again e.path := by
  have htakes := h.takesUp hmid hhere hrest hprior hagain hfinished hleaks hflags
  obtain ⟨hfresh, _⟩ := Steps.foreseen hmid.round.tidy hhere hrest e he
  exact htakes.rechecked hmid.round hmid.spreads hrest he hfresh

end Recalls

end Program

end Rebuild
