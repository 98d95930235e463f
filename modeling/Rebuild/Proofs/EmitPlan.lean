import Rebuild.Proofs.InStep
import Rebuild.Proofs.Undoubled

/-!
# The emits of a cycle

A cycle pulls all checks before the first emit, so that what it emits is settled when the last check is
done: what was owed when it started, in order, and then the declarations that its rechecks requested for
units that were owed nothing.

* `EmitQueue.requestAll_types`: requests for declarations add the units that were owed nothing;
* `Program.checksLog`: the rechecks of a program that is drained;
* `Program.works_drainChecks`, `Program.Drains.works_of_emits`: both halves of a cycle as work of a round;
* `Program.Works.remaining_plan`: what the rechecks of a cycle leave to emit;
* `Program.emitPlan`: what a cycle emits, told before its first emit;
* `Session.emits_plan`: a cycle that is not cancelled emits its plan.
-/

namespace Rebuild

/-! ### Requests for declarations -/

/-- A request for declarations adds nothing to an entry. -/
theorem EmitKind.merge_types (kind : EmitKind) : kind.merge .types = kind := by
  cases kind <;> rfl

namespace EmitQueue

variable {entries requests : List PendingEmit}

/-- The requests of units that no entry names. -/
def unnamed (entries requests : List PendingEmit) : List PendingEmit :=
  requests.filter fun request => request.unit ∉ entries.map (·.unit)

theorem request_types (unit : UnitPath) (entries : List PendingEmit) :
    request unit .types entries
      = if unit ∈ entries.map (·.unit) then entries else entries ++ [⟨unit, .types⟩] := by
  induction entries with
  | nil => rfl
  | cons first rest ih =>
      rw [request]
      by_cases hsame : first.unit = unit
      · subst hsame
        simp [EmitKind.merge_types]
      · by_cases hmem : unit ∈ rest.map (·.unit)
        · simp [hsame, ih, hmem]
        · simp [hsame, Ne.symm hsame, ih, hmem]

/-- Requests for the declarations of different units keep the entries as they are and add the units that
were not named, in order. -/
theorem requestAll_types (hkinds : ∀ request ∈ requests, request.kind = .types)
    (hdistinct : Distinct requests) :
    requestAll requests entries = entries ++ unnamed entries requests := by
  induction requests generalizing entries with
  | nil => exact (List.append_nil entries).symm
  | cons first rest ih =>
      obtain ⟨hfresh, hrest⟩ := List.nodup_cons.mp hdistinct
      have hkind : first.kind = .types := hkinds first List.mem_cons_self
      rw [requestAll_cons, hkind, request_types,
        ih (fun request hrequest => hkinds request (List.mem_cons_of_mem _ hrequest)) hrest]
      by_cases hnamed : first.unit ∈ entries.map (·.unit)
      · rw [if_pos hnamed, unnamed, unnamed, List.filter_cons_of_neg (by simpa using hnamed)]
      · have hunit : (⟨first.unit, .types⟩ : PendingEmit) = first := by rw [← hkind]
        have hothers : unnamed (entries ++ [first]) rest = unnamed entries rest := by
          refine List.filter_congr fun request hrequest => ?_
          have hne : request.unit ≠ first.unit := by
            intro hsame
            refine hfresh (List.mem_map.mpr ⟨request, hrequest, hsame⟩)
          simp [hne]
        rw [if_neg hnamed, hunit, hothers, unnamed, unnamed,
          List.filter_cons_of_pos (by simpa using hnamed), List.append_assoc]
        rfl

end EmitQueue

def Emitted.entry (emitted : Emitted) : PendingEmit :=
  ⟨emitted.unit, emitted.kind⟩

namespace Program

variable {η : Type} [Host η] {p q : Program η} {log : List Recheck} {emits : List PendingEmit}

/-! ### The checks of a cycle -/

/-- The rechecks of pulling checks until there are none, at most `fuel` of them. -/
def checksLogLoop : Nat → Program η → List Recheck
  | 0, _ => []
  | fuel + 1, p =>
      match p.pullCheck with
      | (.ok (some _), q) => p.checkLog ++ checksLogLoop fuel q
      | _ => []

/-- The rechecks of a program from which all checks are pulled, in order. -/
def checksLog (p : Program η) : List Recheck :=
  checksLogLoop (p.state.size + 1) p

/-- The log tells of the units that are reported, in order. -/
theorem works_checksLogLoop (fuel : Nat) (p : Program η) :
    p.Works (checksLogLoop fuel p) [] (drainChecksLoop fuel p).2
      ∧ (checksLogLoop fuel p).map (·.path) = (drainChecksLoop fuel p).1.results.map (·.unit) := by
  induction fuel generalizing p with
  | zero => exact ⟨.rest p, rfl⟩
  | succ fuel ih =>
      obtain ⟨hworks, hpaths⟩ := works_checkLog p
      rw [checksLogLoop, drainChecksLoop]
      rcases hpull : p.pullCheck with ⟨answer, q⟩
      rw [hpull] at hworks hpaths
      cases answer with
      | error e =>
          rw [List.map_eq_nil_iff.mp hpaths] at hworks
          exact ⟨hworks, rfl⟩
      | ok checked =>
          cases checked with
          | none =>
              rw [List.map_eq_nil_iff.mp hpaths] at hworks
              exact ⟨hworks, rfl⟩
          | some checked =>
              obtain ⟨hlater, hrest⟩ := ih q
              refine ⟨hworks.trans hlater, ?_⟩
              rw [List.map_append, hpaths, hrest]
              rfl

theorem works_drainChecks (p : Program η) : p.Works p.checksLog [] p.drainChecks.2 :=
  (works_checksLogLoop _ p).1

theorem map_path_checksLog (p : Program η) :
    p.checksLog.map (·.path) = p.drainChecks.1.results.map (·.unit) :=
  (works_checksLogLoop _ p).2

namespace Works

/-- The declarations that rechecks request are those of different units. -/
theorem distinct_requests (htidy : p.Tidy) (h : p.Works log emits q) :
    EmitQueue.Distinct (p.requests log) := by
  obtain ⟨hnodup, hlog⟩ := h.nodup_log htidy
  have hpaths : (log.map (·.path)).Nodup := by
    refine List.Nodup.map_on (fun e he e' he' hsame => ?_) hnodup.of_map
    obtain ⟨_, hlt, hpath⟩ := hlog e he
    obtain ⟨_, hlt', hpath'⟩ := hlog e' he'
    rw [hpath, hpath'] at hsame
    exact List.inj_on_of_nodup_map hnodup he he'
      (Graph.pathOf_inj htidy.wellFormed.nodup hlt hlt' hsame)
  rw [EmitQueue.Distinct, requests, List.map_map]
  exact hpaths.sublist (List.filter_sublist.map _)

/-- **What rechecks leave to emit**: what was owed, as it was, and the declarations they request for units
that were owed nothing. -/
theorem remaining_plan (htidy : p.Tidy) (hqueue : p.pendingEmit.WellFormed) (h : p.Works log [] q) :
    q.pendingEmit.remaining = p.pendingEmit.remaining
      ++ EmitQueue.unnamed p.pendingEmit.remaining (p.requests log) := by
  rw [h.remaining_requestAll htidy hqueue]
  refine EmitQueue.requestAll_types (fun request hrequest => ?_) (h.distinct_requests htidy)
  obtain ⟨e, _, rfl⟩ := List.mem_map.mp hrequest
  rfl

end Works

/-! ### The emits of a cycle -/

theorem entry_emit (p : Program η) (entry : PendingEmit) : (p.emit entry).1.entry = entry := by
  rw [emit]
  rcases Host.emit p.host entry.unit entry.kind with ⟨outcome, host⟩
  cases outcome with
  | ok output => rfl
  | error e => rfl

/-- When no unit waits for a recheck, pulled emits are handed out one after another. -/
theorem Drains.works_of_emits {drained : Drained Emitted} (htidy : p.Tidy)
    (hchecked : ∀ id ∈ p.frontier, id ∈ p.processed) (h : Drains pullEmit p drained q) :
    p.Works [] (drained.results.map Emitted.entry) q := by
  induction h with
  | @stopped p q e failed =>
      obtain ⟨log, hpull⟩ : ∃ log, p.PullsEmit log p.pullEmit.1 p.pullEmit.2 := ⟨_, htidy.pullsEmit⟩
      rw [failed] at hpull
      cases hpull with
      | refused => exact .rest _
      | rechecked _ _ _ next _ =>
          cases (congrArg Prod.fst next.eq_nextUnit).trans (htidy.nextUnit_eq_none hchecked)
  | @finished p q last =>
      obtain ⟨log, hpull⟩ : ∃ log, p.PullsEmit log p.pullEmit.1 p.pullEmit.2 := ⟨_, htidy.pullsEmit⟩
      rw [last] at hpull
      cases hpull with
      | done => exact .rest _
      | exhausted _ _ _ next => exact .exhaust .done next.eq_nextUnit.symm (.rest _)
      | rechecked _ _ _ next _ =>
          cases (congrArg Prod.fst next.eq_nextUnit).trans (htidy.nextUnit_eq_none hchecked)
  | @pulled p q r emitted drained next _ ih =>
      obtain ⟨log, hpull⟩ : ∃ log, p.PullsEmit log p.pullEmit.1 p.pullEmit.2 := ⟨_, htidy.pullsEmit⟩
      rw [next] at hpull
      cases hpull with
      | @emitted _ entry queue _ _ hentry =>
          have htidy' := (Advances.emit htidy queue entry).tidy
          have hsame := entry_emit { p with pendingEmit := queue, phase := .emitPending } entry
          obtain ⟨host, deferred, hframe⟩ :=
            emit_frame { p with pendingEmit := queue, phase := .emitPending } entry
          have hstill : ∀ id ∈ ({ p with pendingEmit := queue, phase := .emitPending }.emit entry).2.frontier,
              id ∈ ({ p with pendingEmit := queue, phase := .emitPending }.emit entry).2.processed := by
            rw [hframe]
            exact hchecked
          have hlater := ih htidy' hstill
          rw [show (drained.after _).results = _ :: drained.results from rfl, List.map_cons, hsame]
          exact .emit hentry hlater
      | rechecked _ _ _ hnext _ =>
          cases (congrArg Prod.fst hnext.eq_nextUnit).trans (htidy.nextUnit_eq_none hchecked)

/-- What a cycle emits: what is owed when it starts, and then the declarations that its rechecks request
for units that are owed nothing. -/
def emitPlan (p : Program η) : List PendingEmit :=
  p.pendingEmit.remaining ++ EmitQueue.unnamed p.pendingEmit.remaining (p.requests p.checksLog)

/-- A cycle that is not stopped makes the rechecks of its log and then emits its plan. -/
theorem Phased.works_drain (hp : p.Phased) {report : CycleReport}
    (hdrain : Session.drain p = ((report, none), q)) :
    p.Works p.checksLog (report.emitted.map Emitted.entry) q
      ∧ report.checked.map (·.unit) = p.checksLog.map (·.path)
      ∧ report.emitted.map Emitted.entry = p.emitPlan := by
  obtain ⟨_, checked, hchecks, hemits⟩ := drain_eq_iff.mp hdrain
  have hchecking := works_drainChecks p
  have hpaths := map_path_checksLog p
  have hfirst := hp.tidy.drains_checks.1
  rw [hchecks] at hchecking hpaths hfirst
  have hmiddle := (hfirst.amid.phased (fun p hp => hp.pullCheck) hp).1
  have hsecond := hmiddle.tidy.drains_emits
  rw [hemits] at hsecond
  have hemitting := hsecond.works_of_emits hmiddle.tidy (hfirst.processed_of_checks hp.tidy rfl)
  have hlast := (hsecond.amid.phased (fun p hp => hp.pullEmit hp.tidy.pullsEmit) hmiddle).1
  have hempty := hlast.emits (hsecond.phase_done hmiddle.tidy rfl)
  have hplan := hchecking.remaining_plan hp.tidy hp.queue
  rw [hemitting.remaining_eq_append, hempty, List.append_nil] at hplan
  have hboth := hchecking.trans hemitting
  rw [List.append_nil] at hboth
  exact ⟨hboth, hpaths.symm, hplan⟩

end Program

/-! ### What the host is asked -/

namespace Program

variable {η : Type} [Host η]

theorem Reachable.request {p : Program η} (h : p.Reachable) (r : Request η) : (r.run p).Reachable := by
  cases r with
  | update s => exact h.update s
  | report paths => exact h.of_reportChanged rfl
  | setOptions options => exact h.setOptions options
  | rebuild => exact h.force.update _
  | check => exact h.call .check
  | emit => exact h.call .emit
  | demand unit => exact h.call (.demand unit)
  | demandAll => exact h.call .demandAll
  | edit change => exact h.call (.edit change)
  | token cancelled => exact h.call (.token cancelled)

theorem Undoubled.reachable {p : Program η} (h : p.Undoubled) : p.Reachable := by
  induction h with
  | start hstart _ => exact reachable_of_start hstart
  | request _ r ih => exact ih.request r

theorem plain_drainChecksLoop (fuel : Nat) (p : Program (Recorded η)) :
    drainChecksLoop fuel p.plain = ((drainChecksLoop fuel p).1, (drainChecksLoop fuel p).2.plain) := by
  induction fuel generalizing p with
  | zero => rfl
  | succ fuel ih =>
      rw [drainChecksLoop, drainChecksLoop, plain_pullCheck]
      rcases p.pullCheck with ⟨answer, q⟩
      cases answer with
      | error e => rfl
      | ok checked =>
          cases checked with
          | none => rfl
          | some checked => simp only [ih]

theorem Tidy.plain_drainEmitsLoop (fuel : Nat) {p : Program (Recorded η)} (htidy : p.Tidy) :
    drainEmitsLoop fuel p.plain = ((drainEmitsLoop fuel p).1, (drainEmitsLoop fuel p).2.plain) := by
  induction fuel generalizing p with
  | zero => rfl
  | succ fuel ih =>
      have hlater := htidy.tidy_pullEmit
      rw [drainEmitsLoop, drainEmitsLoop, htidy.plain_pullEmit]
      rcases hpull : p.pullEmit with ⟨answer, q⟩
      rw [hpull] at hlater
      cases answer with
      | error e => rfl
      | ok emitted =>
          cases emitted with
          | none => rfl
          | some emitted => simp only [ih hlater]

/-- A record of the requests makes no difference to a cycle. -/
theorem Tidy.plain_drain {p : Program (Recorded η)} (htidy : p.Tidy) :
    Session.drain p.plain = ((Session.drain p).1, (Session.drain p).2.plain) := by
  have hchecks : p.plain.drainChecks = (p.drainChecks.1, p.drainChecks.2.plain) :=
    plain_drainChecksLoop _ p
  have hmiddle := (works_drainChecks p).tidy htidy
  have hemits : p.drainChecks.2.plain.drainEmits
      = (p.drainChecks.2.drainEmits.1, p.drainChecks.2.drainEmits.2.plain) :=
    hmiddle.plain_drainEmitsLoop _
  rw [Session.drain, Session.drain, hchecks]
  rcases hdrained : p.drainChecks with ⟨⟨results, stopped⟩, q⟩
  rw [hdrained] at hemits
  cases stopped with
  | some e => rfl
  | none => simp only [hemits]

end Program

namespace Session

variable {η τ : Type} [Host η] [Store τ η]

/-- A cycle that is not cancelled answers with what it did, unless its document cannot be stored. -/
theorem runCycle_of_drained {s : Session η τ} (h : (drain s.program).1.2 = none) :
    s.runCycle.1
      = (persist { s with program := (drain s.program).2 }).1.map fun _ => (drain s.program).1.1 := by
  rw [runCycle]
  rcases hdrain : drain s.program with ⟨⟨report, stopped⟩, q⟩
  rw [hdrain] at h
  obtain rfl : stopped = none := h
  rcases hsaved : persist { s with program := q } with ⟨outcome, t⟩
  simp only [hsaved]
  cases outcome with
  | error e => rfl
  | ok done => rfl

/-- **A cycle emits its plan.**  Let nothing stop the rechecks and emits of a cycle, over a program that was
started from nothing or from a document that names no unit twice among its emits, as the documents that
programs write.  Then the cycle emits, in this order: what the program owed when the cycle started, as it
was owed; and the declarations of the units that were rechecked, in the order of their rechecks, if their
signature moved, their text is that of the round before, they were owed nothing and declarations are
emitted at all.  This is also what the host is asked to emit, and no unit is named twice. -/
theorem emits_plan (s : Session η τ) (hp : s.program.Undoubled)
    (hcalm : (drain s.program).1.2 = none) :
    let p := s.program
    let report := (drain p).1.1
    s.runCycle.1 = (persist { s with program := (drain p).2 }).1.map (fun _ => report)
      ∧ report.checked.map (·.unit) = p.checksLog.map (·.path)
      ∧ report.emitted.map Emitted.entry = p.emitPlan
      ∧ (drain p.recorded).2.host.emits = p.emitPlan
      ∧ EmitQueue.Distinct p.emitPlan := by
  intro p report
  have hphased := hp.reachable.phased
  have hdrain : drain p = ((report, none), (drain p).2) := by
    rw [← hcalm]
  obtain ⟨hworks, hchecked, hplan⟩ := hphased.works_drain hdrain
  refine ⟨runCycle_of_drained hcalm, hchecked, hplan, ?_, ?_⟩
  · have hrecorded : p.recorded.Phased := hphased.image _ id
    have hsame := hrecorded.tidy.plain_drain
    have hanswer : (drain p.recorded).1 = (report, none) := by
      rw [Program.plain_recorded, hdrain] at hsame
      exact (congrArg Prod.fst hsame).symm
    have hdrain' : drain p.recorded = ((report, none), (drain p.recorded).2) := by
      rw [← hanswer]
    obtain ⟨hcalls, _, _⟩ := hrecorded.works_drain hdrain'
    rw [(hcalls.calls hrecorded.tidy).2, hplan]
    rfl
  · have hremaining := (Program.works_drainChecks p).remaining_requestAll hphased.tidy hphased.queue
    rw [(Program.works_drainChecks p).remaining_plan hphased.tidy hphased.queue] at hremaining
    rw [Program.emitPlan, hremaining, EmitQueue.distinct_requestAll]
    exact hp.distinct

/-- After both units were emitted, the text of the right unit changes the signature of the left one: the
right unit is emitted in full and the left one only with its declarations. -/
theorem emits_plan_pair :
    let pulled := [.check, .check, .emit, .emit]
    let s : Session Pair MemoryStore :=
      ⟨(Request.play (pulled ++ [.edit fun _ => ⟨"int", "str"⟩, .report []])
        (Pair.fresh ⟨"int", "int"⟩)).2, {}⟩
    s.program.pendingEmit.remaining = [⟨"right", .full⟩]
      ∧ (drain s.program).1.1.checked.map (·.unit) = ["right", "left"]
      ∧ (drain s.program).1.1.emitted.map Emitted.entry = [⟨"right", .full⟩, ⟨"left", .types⟩]
      ∧ (drain s.program).1.1.emitted.map Emitted.entry = s.program.emitPlan := by
  intro pulled s
  have hfresh : (Pair.fresh ⟨"int", "int"⟩).Undoubled :=
    .start (Pair.start_fresh ⟨"int", "int"⟩) fun decoded hdecoded => by cases hdecoded
  have hundoubled : s.program.Undoubled := hfresh.play _
  have hruns : (drain s.program).1.2 = none
      ∧ s.program.pendingEmit.remaining = [⟨"right", .full⟩]
      ∧ (drain s.program).1.1.checked.map (·.unit) = ["right", "left"]
      ∧ (drain s.program).1.1.emitted.map Emitted.entry
        = [⟨"right", .full⟩, ⟨"left", .types⟩] := by decide +kernel
  obtain ⟨hcalm, howed, hchecked, hemitted⟩ := hruns
  obtain ⟨_, _, hplan, _⟩ := emits_plan s hundoubled hcalm
  exact ⟨howed, hchecked, hemitted, hplan⟩

end Session

end Rebuild
