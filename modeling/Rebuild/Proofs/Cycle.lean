import Rebuild.Proofs.Restart
import Rebuild.Proofs.Termination
import Rebuild.Session

/-!
# Cycles

A cycle pulls all checks of a round and then all emits.  One that is not stopped has rechecked what its
round calls for and leaves nothing behind, so that the next one has nothing to do on the same snapshot,
also after a restart.

* `Program.Drains.actions`: pulling until nothing is left is made of actions;
* `Program.Drains.propagates`: the checks that are pulled are the rechecks of the round;
* `Program.Drains.phase_done`, `Program.Drains.deferred_eq`: nothing is left after all emits, and nothing
  is deferred unless an emit failed;
* `Program.Idle`: nothing is left to do, and `Program.Idle.drain`: a cycle does nothing then;
* `Program.Orderly.idle_prior`: a drained program that is stored and started again is idle.
-/

namespace Rebuild

namespace Program

variable {η : Type} [Host η] {p q r : Program η} {s : Snapshot} {unit : UnitId}

/-! ### What a cycle is made of -/

/-- Pulling until nothing is left is made of actions if each pull is. -/
theorem Drains.actions {α : Type} {pull : Program η → Except Error (Option α) × Program η}
    (hpull : ∀ p, ∃ events, Actions False p events (pull p).2) {drained : Drained α}
    (h : Drains pull p drained q) : ∃ events, Actions False p events q := by
  induction h with
  | @stopped p _ _ failed =>
      have hone := hpull p
      rw [failed] at hone
      exact hone
  | @finished p _ last =>
      have hone := hpull p
      rw [last] at hone
      exact hone
  | @pulled p _ _ _ _ next _ ih =>
      obtain ⟨events, hone⟩ := hpull p
      obtain ⟨rest, hactions⟩ := ih
      rw [next] at hone
      exact ⟨_, hone.trans hactions⟩

/-- What stays the same while nothing comes from outside. -/
structure Inside (p q : Program η) : Prop where
  orderly : q.Orderly
  tracks : TracksAsAsked q
  options : q.options = p.options
  snapshot : q.snapshot = p.snapshot

theorem Inside.action {events : List HistoryEvent} (h : p.Inside q) (haction : Action False q events r) :
    p.Inside r := by
  have horderly := haction.orderly h.orderly
  have htracks := haction.tracksAsAsked (fun hout => hout.elim) h.orderly h.tracks
  have hsame : r.options = q.options ∧ r.snapshot = q.snapshot := by
    cases haction with
    | recheck next =>
        obtain ⟨queued, hcommits⟩ := commits_of_nextUnit h.orderly.tidy next
        exact ⟨hcommits.options, hcommits.rechecks.snapshot⟩
    | exhaust phase next _ =>
        obtain ⟨_, rfl⟩ := nextUnit_none h.orderly.tidy next
        exact ⟨rfl, rfl⟩
    | @emit entry queue next =>
        obtain ⟨host, deferred, hemit⟩ :=
          emit_frame { q with pendingEmit := queue, phase := .emitPending } entry
        rw [hemit]
        exact ⟨rfl, rfl⟩
    | demand unit =>
        obtain ⟨host, cancelled, cache, hdemand, _⟩ := demand_cases q unit
        rw [hdemand]
        exact ⟨rfl, rfl⟩
    | surround host cancelled _ => exact ⟨rfl, rfl⟩
    | switch options given _ => exact given.elim
    | round host options forceAll s given => exact given.elim
  exact ⟨horderly, htracks, hsame.1.trans h.options, hsame.2.trans h.snapshot⟩

theorem Inside.actions {events : List HistoryEvent} (h : p.Inside q) (hactions : Actions False q events r) :
    p.Inside r :=
  Actions.induct (motive := fun r _ => p.Inside r) (fun hr haction => hr.action haction) [] h hactions

/-- A cycle that is not stopped pulls all checks and then all emits. -/
theorem drain_eq_iff {report : CycleReport} :
    Session.drain p = ((report, none), q) ↔ report.cancelled = false
      ∧ ∃ checked, p.drainChecks = (⟨report.checked, none⟩, checked)
        ∧ checked.drainEmits = (⟨report.emitted, none⟩, q) := by
  rw [Session.drain]
  rcases hchecks : p.drainChecks with ⟨⟨results, stopped⟩, checked⟩
  cases stopped with
  | some e => simp
  | none =>
      rcases hemits : checked.drainEmits with ⟨⟨emitted, stopped⟩, last⟩
      constructor
      · intro hdrain
        simp only [hemits, Prod.mk.injEq] at hdrain
        obtain ⟨⟨rfl, rfl⟩, rfl⟩ := hdrain
        exact ⟨rfl, checked, rfl, hemits⟩
      · rintro ⟨hgoing, _, hchecked, hdrained⟩
        obtain ⟨found, written, cancelled⟩ := report
        cases hchecked
        cases hemits.symm.trans hdrained
        cases hgoing
        simp only [hemits]

/-- A cycle that is not stopped is made of actions. -/
theorem Tidy.actions_drain {report : CycleReport} (htidy : p.Tidy)
    (hdrain : Session.drain p = ((report, none), q)) : ∃ events, Actions False p events q := by
  obtain ⟨_, checked, hchecks, hemits⟩ := drain_eq_iff.mp hdrain
  have hfirst := htidy.drains_checks.1
  rw [hchecks] at hfirst
  obtain ⟨_, hactions⟩ := hfirst.actions fun p => ⟨_, Actions.pullCheck p⟩
  have hmiddle : checked.Tidy :=
    Actions.induct (motive := fun p _ => p.Tidy) (fun hp haction => haction.tidy hp) [] htidy hactions
  have hsecond := hmiddle.drains_emits
  rw [hemits] at hsecond
  obtain ⟨_, hmore⟩ := hsecond.actions fun p => ⟨_, Actions.emitLoop _ p⟩
  exact ⟨_, hactions.trans hmore⟩

/-! ### The checks of a cycle -/

/-- The checks that are pulled are the rechecks of the round, and unless the pulling is stopped, they are
all that the round calls for. -/
theorem Drains.propagates {drained : Drained Checked} {log : List Recheck}
    (h : Drains pullCheck q drained r) (hq : p.Propagates s log q) :
    ∃ more, p.Propagates s (log ++ more) r ∧ more.map (·.path) = drained.results.map (·.unit)
      ∧ (drained.stopped = none → Closed p s (log ++ more)) := by
  induction h generalizing log with
  | @stopped q _ _ failed =>
      have hpull := pullsCheck q
      rw [failed] at hpull
      cases hpull with
      | refused =>
          refine ⟨[], ?_, rfl, fun hnone => by cases hnone⟩
          rw [List.append_nil]
          exact hq
  | @finished q last hlast =>
      have hpull := pullsCheck q
      have hfinished : q.Finished := congrArg Prod.fst hlast
      rw [hlast] at hpull
      refine ⟨[], ?_, rfl, fun _ => ?_⟩
      · rw [List.append_nil]
        cases hpull with
        | done => exact hq
        | @exhausted r phase _ _ next =>
            have hstep : Step (fun _ => True) q [] { r with phase } := Step.exhaust phase next
            have hnext := hq.step hstep
            rwa [List.append_nil] at hnext
      · rw [List.append_nil]
        exact hq.closed hfinished
  | @pulled q _ _ _ _ hnext _ ih =>
      have hpull := pullsCheck q
      rw [hnext] at hpull
      cases hpull with
      | @rechecked r unit _ _ next =>
          have hstep : Step (fun _ => True) q [r.recheckOf unit] (r.afterRecheck unit) :=
            Step.recheck next
          obtain ⟨more, hmore, hpaths, hclosed⟩ := ih (hq.step hstep)
          rw [List.append_assoc] at hmore hclosed
          refine ⟨r.recheckOf unit :: more, hmore, ?_, hclosed⟩
          rw [List.map_cons, hpaths]
          rfl

/-! ### The emits of a cycle -/

/-- When no emit is left to pull, the round is done. -/
theorem PullsEmit.phase_done {log : List Recheck} {result : Except Error (Option Emitted)}
    (h : p.PullsEmit log result q) (hresult : result = .ok none) : q.phase = .done := by
  induction h with
  | done finished => exact finished
  | refused => cases hresult
  | emitted => cases hresult
  | exhausted => rfl
  | rechecked _ _ _ _ _ ih => exact ih hresult

/-- An emit that finds no error is not deferred. -/
theorem PullsEmit.deferred_eq {log : List Recheck} {result : Except Error (Option Emitted)}
    (htidy : p.Tidy) (h : p.PullsEmit log result q)
    (hresult : ∀ emitted, result = .ok (some emitted) → ∀ d ∈ emitted.diagnostics, d.isError = false) :
    q.deferred = p.deferred := by
  induction h with
  | done => rfl
  | refused => rfl
  | @emitted p entry queue _ _ _ =>
      have hgood := hresult _ rfl
      rw [emit] at hgood ⊢
      rcases hhost : Host.emit p.host entry.unit entry.kind with ⟨outcome, host⟩
      simp only [hhost] at hgood ⊢
      cases outcome with
      | ok output => rfl
      | error e =>
          have herror : true = false := hgood _ List.mem_cons_self
          cases herror
  | @exhausted p q _ _ _ _ next =>
      obtain ⟨_, rfl⟩ := nextUnit_none htidy next.eq_nextUnit.symm
      rfl
  | rechecked _ _ _ next _ ih =>
      obtain ⟨queued, hcommits⟩ := commits_of_nextUnit htidy next.eq_nextUnit.symm
      exact (ih hcommits.rechecks.tidy hresult).trans hcommits.deferred

theorem Drains.phase_done {drained : Drained Emitted} (htidy : p.Tidy)
    (h : Drains pullEmit p drained q) (hstopped : drained.stopped = none) : q.phase = .done := by
  induction h with
  | stopped => cases hstopped
  | @finished p _ last =>
      have hpull := htidy.pullsEmit
      rw [last] at hpull
      exact hpull.phase_done rfl
  | @pulled p _ _ _ _ next _ ih =>
      have hnext := htidy.tidy_pullEmit
      rw [next] at hnext
      exact ih hnext hstopped

/-- Nothing is deferred when no emit finds an error. -/
theorem Drains.deferred_eq {drained : Drained Emitted} (htidy : p.Tidy)
    (h : Drains pullEmit p drained q)
    (hemits : ∀ emitted ∈ drained.results, ∀ d ∈ emitted.diagnostics, d.isError = false) :
    q.deferred = p.deferred := by
  induction h with
  | @stopped p _ _ failed =>
      have hpull := htidy.pullsEmit
      rw [failed] at hpull
      exact hpull.deferred_eq htidy fun _ hsome => by cases hsome
  | @finished p _ last =>
      have hpull := htidy.pullsEmit
      rw [last] at hpull
      exact hpull.deferred_eq htidy fun _ hsome => by cases hsome
  | @pulled p _ _ emitted _ next _ ih =>
      have hpull := htidy.pullsEmit
      have hnext := htidy.tidy_pullEmit
      rw [next] at hpull hnext
      have hrest := ih hnext fun other hother => hemits other (List.mem_cons_of_mem _ hother)
      refine hrest.trans (hpull.deferred_eq htidy fun found hfound => ?_)
      cases hfound
      exact hemits emitted List.mem_cons_self

/-- Checks defer nothing. -/
theorem Drains.deferred_of_checks {drained : Drained Checked} (htidy : p.Tidy)
    (h : Drains pullCheck p drained q) : q.deferred = p.deferred := by
  induction h with
  | @stopped p _ _ failed =>
      have hpull := pullsCheck p
      rw [failed] at hpull
      cases hpull with
      | refused => rfl
  | @finished p _ last =>
      have hpull := pullsCheck p
      rw [last] at hpull
      cases hpull with
      | done => rfl
      | exhausted _ _ _ next =>
          obtain ⟨_, rfl⟩ := nextUnit_none htidy next
          rfl
  | @pulled p _ _ _ _ hnext _ ih =>
      have hpull := pullsCheck p
      rw [hnext] at hpull
      cases hpull with
      | rechecked _ _ next =>
          obtain ⟨queued, hcommits⟩ := commits_of_nextUnit htidy next
          exact (ih hcommits.rechecks.tidy).trans hcommits.deferred

/-- A cycle that is not stopped leaves nothing behind, if no emit finds an error. -/
theorem Inside.drained {report : CycleReport} (h : p.Inside q)
    (hdrain : Session.drain q = ((report, none), r)) (hdeferred : q.deferred = [])
    (hemits : ∀ emitted ∈ report.emitted, ∀ d ∈ emitted.diagnostics, d.isError = false) :
    r.pendingChecks = [] ∧ r.pendingEmit.remaining = [] ∧ r.deferred = [] := by
  obtain ⟨_, hactions⟩ := h.orderly.tidy.actions_drain hdrain
  have hr := (h.actions hactions).orderly
  obtain ⟨_, checked, hchecked, hemitted⟩ := drain_eq_iff.mp hdrain
  have hfirst := h.orderly.tidy.drains_checks.1
  rw [hchecked] at hfirst
  obtain ⟨_, hchecking⟩ := hfirst.actions fun p => ⟨_, Actions.pullCheck p⟩
  have htidy := (h.actions hchecking).orderly.tidy
  have hsecond := htidy.drains_emits
  rw [hemitted] at hsecond
  have hdone := hsecond.phase_done htidy rfl
  refine ⟨?_, hr.quiet hdone, ?_⟩
  · rw [List.eq_nil_iff_forall_not_mem]
    intro check hcheck
    obtain ⟨id, ⟨hwaits, hfresh⟩, _⟩ := mem_pendingChecks.mp (List.mem_map_of_mem hcheck)
    exact hfresh (hr.tidy.finished hdone id hwaits)
  · rw [hsecond.deferred_eq htidy hemits, hfirst.deferred_of_checks h.orderly.tidy]
    exact hdeferred

/-! ### Nothing to do -/

/-- Neither a check nor an emit is left in this round, and the build is not cancelled. -/
structure Idle (p : Program η) : Prop where
  tidy : p.Tidy
  checks : ∀ id, ¬ p.Owed id
  emits : p.pendingEmit.remaining = []
  going : p.cancelled = false

namespace Idle

theorem nextUnit_ne_some (h : p.Idle) (hnext : p.nextUnit = (some unit, q)) : False := by
  obtain ⟨hrechecks, _⟩ := rechecks_of_nextUnit h.tidy hnext
  exact h.checks unit ⟨hrechecks.awaited, hrechecks.fresh⟩

theorem drains_checks {drained : Drained Checked} (h : p.Idle) (hdrains : Drains pullCheck p drained q) :
    drained = {} ∧ q.Idle := by
  have hpull := pullsCheck p
  cases hdrains with
  | stopped failed =>
      rw [failed] at hpull
      cases hpull with
      | refused _ cancelled => cases h.going.symm.trans cancelled
  | finished last =>
      rw [last] at hpull
      refine ⟨rfl, ?_⟩
      cases hpull with
      | done => exact h
      | @exhausted r phase _ _ next =>
          have hstep : Step (fun _ => True) p [] { r with phase } := Step.exhaust phase next
          have htidy := hstep.tidy h.tidy
          obtain ⟨_, rfl⟩ := nextUnit_none h.tidy next
          refine ⟨htidy, fun id howed => ?_, h.emits, h.going⟩
          cases howed.1
  | pulled next _ =>
      rw [next] at hpull
      cases hpull with
      | rechecked _ _ hnext => exact (h.nextUnit_ne_some hnext).elim

theorem drains_emits {drained : Drained Emitted} (h : p.Idle) (hdrains : Drains pullEmit p drained q) :
    drained = {} := by
  obtain ⟨log, hpull⟩ : ∃ log, p.PullsEmit log p.pullEmit.1 p.pullEmit.2 := ⟨_, h.tidy.pullsEmit⟩
  cases hdrains with
  | stopped failed =>
      rw [failed] at hpull
      cases hpull with
      | refused _ cancelled => cases h.going.symm.trans cancelled
      | rechecked _ _ _ hnext _ => exact (h.nextUnit_ne_some hnext.eq_nextUnit.symm).elim
  | finished last => rfl
  | pulled next _ =>
      rw [next] at hpull
      cases hpull with
      | emitted _ _ hnext => cases (EmitQueue.next?_eq_none_iff.mpr h.emits).symm.trans hnext
      | rechecked _ _ _ hnext _ => exact (h.nextUnit_ne_some hnext.eq_nextUnit.symm).elim

/-- A cycle has nothing to do. -/
theorem drain (h : p.Idle) : (Session.drain p).1 = ({}, none) := by
  obtain ⟨hnothing, hidle⟩ := h.drains_checks h.tidy.drains_checks.1
  have hnone := hidle.drains_emits hidle.tidy.drains_emits
  rcases hchecks : p.drainChecks with ⟨checked, q⟩
  rw [hchecks] at hnothing hnone
  obtain rfl : checked = {} := hnothing
  rcases hemits : q.drainEmits with ⟨emitted, r⟩
  rw [hemits] at hnone
  obtain rfl : emitted = {} := hnone
  simp only [Session.drain, hchecks, hemits]

end Idle

/-- **A drained program that is stored and started again has nothing to do**, unless the snapshot, the
options or the policy changed. -/
theorem Orderly.idle_prior (hp : p.Orderly) (htracks : TracksAsAsked p) (hchecks : p.pendingChecks = [])
    (hemits : p.pendingEmit.remaining = []) (hdeferred : p.deferred = []) (hfits : p.buildInfo.Fits)
    {host : η} (hpolicy : Host.policy host = Host.policy p.host) :
    ((prior host p.options (some p.buildInfoText)).update p.snapshot).Idle := by
  obtain ⟨g, _, htracking, hdecoded⟩ := hp.decoded?_buildInfoText hfits
  have hprior : prior host p.options (some p.buildInfoText)
      = (blank host p.options).restore (BuildInfo.Document.readBack p.content g) := by
    rw [prior, hdecoded]
  have htakes := hp.takesOver_restore host p.options (decode_of_decoded? hdecoded)
  have hforce : ((blank host p.options).restore (BuildInfo.Document.readBack p.content g)).forceAll
      = p.forceAll := by
    have hhash : (blank host p.options).optionsHash = p.optionsHash := by
      show p.options.fingerprint (Host.policy host) = _
      rw [hpolicy, optionsHash]
    rw [forceAll_restore, hhash, hp.calm]
    simp [BuildInfo.Document.readBack, blank, content, htracking.trans htracks]
  obtain ⟨hcheck, hemit⟩ := hp.owes_nothing hchecks hemits hdeferred
  rw [hprior]
  refine ⟨tidy_update _ _, fun id howed => ?_, ?_, rfl⟩
  · have hpending := mem_pendingChecks.mpr ⟨id, howed, rfl⟩
    rw [htakes.pendingChecks_update rfl hforce, hcheck] at hpending
    cases hpending
  · rw [htakes.pendingEmit_update rfl hforce]
    exact hemit

end Program

end Rebuild
