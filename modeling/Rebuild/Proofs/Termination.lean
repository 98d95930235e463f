import Mathlib.Data.List.Nodup
import Mathlib.Data.List.Perm.Subperm
import Rebuild.Proofs.Propagation
import Rebuild.Proofs.Settled

/-!
# Rounds come to an end

No unit is rechecked twice in a round.  So every loop of a pull ends by itself, and so does a caller who
pulls until nothing is left; bounds on their turns are never met.

* `Program.Searches`, `Program.PullsEmit`, `Program.Drains`: the loops, turn by turn and without a bound;
* `Program.PullsCheck`: how a pulled check ends;
* `Program.searches_nextUnit`: the next unit is what a search finds;
* `Program.Tidy.pullsEmit`: a pulled emit is how its loop ends;
* `Program.Tidy.drains_checks`, `Program.Tidy.drains_emits`: so are all checks and all emits;
* `Program.Once`: no unit is processed twice, kept by every step;
* `rechecks_once_and_ends`: in every round.
-/

namespace Rebuild

namespace Program

variable {η : Type} {p q : Program η} {unit : UnitId}

/-! ### The search for a unit -/

/-- The search for the next unit, with the number of its turns.  In each turn the current pass hands out
a unit or is given up, or the first root is skipped or starts a pass. -/
inductive Searches : Program η → Nat → Option UnitId × Program η → Prop
  | handed {p : Program η} {pass later : Pass} {unit : UnitId} (current : p.current = some pass)
      (next : pass.next? p.processed = (some unit, later)) :
      Searches p 1 (some unit, { p with current := some later })
  | spent {p : Program η} {pass : Pass} {turns : Nat} {found : Option UnitId × Program η}
      (current : p.current = some pass) (next : (pass.next? p.processed).1 = none)
      (rest : Searches { p with current := none } turns found) : Searches p (turns + 1) found
  | stale {p : Program η} {root : Root} {roots : List Root} {turns : Nat}
      {found : Option UnitId × Program η} (current : p.current = none)
      (first : p.roots = root :: roots) (done : root.unit ∈ p.processed)
      (rest : Searches { p with roots } turns found) : Searches p (turns + 1) found
  | started {p : Program η} {root : Root} {roots : List Root} {turns : Nat}
      {found : Option UnitId × Program η} (current : p.current = none)
      (first : p.roots = root :: roots) (fresh : root.unit ∉ p.processed)
      (rest : Searches { p with current := some (Pass.start root.unit root.isGlobal), roots }
        turns found) : Searches p (turns + 1) found
  | exhausted {p : Program η} (current : p.current = none) (empty : p.roots = []) :
      Searches p 1 (none, p)

theorem nextRoot_of_nil (hcurrent : p.current = none) (hroots : p.roots = []) :
    p.nextRoot = (none, p) := by
  have hsame : ({ p with current := none, roots := [] } : Program η) = p := by
    rw [← hcurrent, ← hroots]
  rw [nextRoot, hroots, List.dropWhile_nil]
  exact congrArg (Prod.mk none) hsame

theorem nextRoot_of_stale {root : Root} {roots : List Root} (hroots : p.roots = root :: roots)
    (hdone : root.unit ∈ p.processed) : p.nextRoot = ({ p with roots } : Program η).nextRoot := by
  rw [nextRoot, nextRoot, hroots, List.dropWhile_cons_of_pos (by simpa using hdone)]

theorem nextRoot_of_fresh {root : Root} {roots : List Root} (hroots : p.roots = root :: roots)
    (hfresh : root.unit ∉ p.processed) :
    p.nextRoot = (some root.unit, { p with
      current := some { Pass.start root.unit root.isGlobal with
        queue := [], inFlight := some root.unit, yielded := [root.unit] }
      roots }) := by
  rw [nextRoot, hroots, List.dropWhile_cons_of_neg (by simpa using hfresh)]
  simp only [next?_start hfresh]

theorem searches_nextRoot (hcurrent : p.current = none) :
    ∃ turns ≤ p.roots.length + 1, p.Searches turns p.nextRoot := by
  induction hroots : p.roots generalizing p with
  | nil =>
      rw [nextRoot_of_nil hcurrent hroots]
      exact ⟨1, Nat.le_refl 1, .exhausted hcurrent hroots⟩
  | cons root roots ih =>
      by_cases hdone : root.unit ∈ p.processed
      · obtain ⟨turns, hturns, hsearch⟩ := ih (p := { p with roots }) hcurrent rfl
        rw [nextRoot_of_stale hroots hdone]
        exact ⟨turns + 1, Nat.succ_le_succ hturns, .stale hcurrent hroots hdone hsearch⟩
      · rw [nextRoot_of_fresh hroots hdone]
        refine ⟨2, by simp, .started hcurrent hroots hdone (.handed rfl ?_)⟩
        exact next?_start (p := p) hdone root.isGlobal

/-- The next unit is what a search finds, in at most two turns more than there are roots. -/
theorem searches_nextUnit (p : Program η) :
    ∃ turns ≤ p.roots.length + 2, p.Searches turns p.nextUnit := by
  rcases nextUnit_cases p with ⟨pass, later, unit, hcurrent, hnext, hunit⟩ | ⟨hspent, hroot⟩
  · rw [hunit]
    exact ⟨1, by omega, .handed hcurrent hnext⟩
  · rw [hroot]
    cases hcurrent : p.current with
    | none =>
        obtain ⟨turns, hturns, hsearch⟩ := searches_nextRoot hcurrent
        exact ⟨turns, Nat.le_succ_of_le hturns, hsearch⟩
    | some pass =>
        obtain ⟨turns, hturns, hsearch⟩ :=
          searches_nextRoot (p := { p with current := none }) rfl
        have hsame : ({ p with current := none } : Program η).nextRoot = p.nextRoot := by
          rw [nextRoot, nextRoot]
        rw [hsame] at hsearch
        exact ⟨turns + 1, Nat.succ_le_succ hturns, .spent hcurrent (hspent pass hcurrent) hsearch⟩

/-- A search finds the next unit and nothing else. -/
theorem Searches.eq_nextUnit {turns : Nat} {found : Option UnitId × Program η}
    (h : p.Searches turns found) : found = p.nextUnit := by
  have hnone : ∀ {p : Program η}, p.current = none → p.nextUnit = p.nextRoot := by
    intro p hcurrent
    rw [nextUnit, hcurrent]
  have hhanded : ∀ {p : Program η} {pass later : Pass} {unit : UnitId}, p.current = some pass →
      pass.next? p.processed = (some unit, later) →
        p.nextUnit = (some unit, { p with current := some later }) := by
    intro p pass later unit hcurrent hnext
    simp only [nextUnit, hcurrent, hnext]
  induction h with
  | handed current next => exact (hhanded current next).symm
  | @spent p pass _ _ current next _ ih =>
      have hroot : p.nextUnit = p.nextRoot := by
        rcases hpass : pass.next? p.processed with ⟨unit, later⟩
        rw [hpass] at next
        simp only [nextUnit, current, hpass, show unit = none from next]
      rw [ih, hroot, hnone rfl]
      rfl
  | stale current first done _ ih =>
      rw [ih, hnone current, nextRoot_of_stale first done]
      exact hnone current
  | @started p root roots _ _ current first fresh _ ih =>
      rw [ih, hnone current, nextRoot_of_fresh first fresh]
      exact hhanded rfl (next?_start (p := p) fresh root.isGlobal)
  | exhausted current empty => rw [hnone current, nextRoot_of_nil current empty]

/-! ### Processed units -/

theorem unprocessed_le (htidy : p.Tidy) : p.unprocessed ≤ p.state.size := by
  have hunits := List.length_filter_le (fun id => !p.processed.contains id) p.state.graph.units
  rw [Graph.units, List.length_range] at hunits
  rw [State.size, htidy.wellFormed.length]
  exact hunits

/-- No unit was processed twice in this round. -/
structure Once (p : Program η) : Prop where
  tidy : p.Tidy
  nodup : p.processed.Nodup
  bounded : ∀ id ∈ p.processed, id < p.state.graph.size

namespace Once

theorem update (p : Program η) (s : Snapshot) : (p.update s).Once :=
  ⟨tidy_update p s, List.nodup_nil, by simp [Program.update]⟩

/-- There are at most as many as there are units. -/
theorem length_le (hp : p.Once) : p.processed.length ≤ p.state.graph.size := by
  have hsubset : p.processed ⊆ List.range p.state.graph.size :=
    fun id hid => List.mem_range.mpr (hp.bounded id hid)
  have hlength := (hp.nodup.subperm hsubset).length_le
  rwa [List.length_range] at hlength

variable [Host η] {allowed : (η → η) → Prop} {log : List Recheck}

/-- A unit that is rechecked was not processed before. -/
theorem step (hp : p.Once) (h : Step allowed p log q) : q.Once := by
  rcases Step.cases hp.tidy h with ⟨unit, _, hr⟩ | ⟨_, hr⟩
  · refine ⟨hr.tidy, ?_, ?_⟩
    · rw [hr.processed, List.nodup_append]
      refine ⟨hp.nodup, List.nodup_singleton unit, fun a ha b hb hab => hr.fresh ?_⟩
      rw [← List.mem_singleton.mp hb, ← hab]
      exact ha
    · intro id hid
      rw [hr.graph]
      rw [hr.processed] at hid
      rcases List.mem_append.mp hid with hold | hnew
      · exact hp.bounded id hold
      · rw [List.mem_singleton.mp hnew]
        exact hp.tidy.bounded unit hr.awaited
  · refine ⟨hr.tidy, ?_, ?_⟩
    · rw [hr.processed]
      exact hp.nodup
    · rw [hr.processed, hr.state]
      exact hp.bounded

theorem steps (hp : p.Once) (h : Steps allowed p log q) : q.Once :=
  h.keeps step hp

end Once

variable [Host η]

/-! ### Pulls without a bound -/

/-- The loop of a pulled emit, with the rechecks of its turns. -/
inductive PullsEmit :
    Program η → List Recheck → Except Error (Option Emitted) → Program η → Prop
  | done {p : Program η} (finished : p.phase = .done) : PullsEmit p [] (.ok none) p
  | refused {p : Program η} (going : p.phase ≠ .done) (cancelled : p.cancelled = true) :
      PullsEmit p [] (.error .cancelled) p
  | emitted {p : Program η} {entry : PendingEmit} {queue : EmitQueue} (going : p.phase ≠ .done)
      (allowed : p.cancelled = false) (next : p.pendingEmit.next? = some (entry, queue)) :
      PullsEmit p [] (.ok (some ({ p with pendingEmit := queue, phase := .emitPending }.emit entry).1))
        ({ p with pendingEmit := queue, phase := .emitPending }.emit entry).2
  | exhausted {p q : Program η} {turns : Nat} (going : p.phase ≠ .done)
      (allowed : p.cancelled = false) (quiet : p.pendingEmit.next? = none)
      (next : p.Searches turns (none, q)) : PullsEmit p [] (.ok none) { q with phase := .done }
  | rechecked {p q r : Program η} {unit : UnitId} {turns : Nat} {log : List Recheck}
      {result : Except Error (Option Emitted)} (going : p.phase ≠ .done)
      (allowed : p.cancelled = false) (quiet : p.pendingEmit.next? = none)
      (next : p.Searches turns (some unit, q)) (rest : PullsEmit (q.afterRecheck unit) log result r) :
      PullsEmit p (q.recheckOf unit :: log) result r

/-- Pulling until nothing is left or a pull fails. -/
inductive Drains {α : Type} (pull : Program η → Except Error (Option α) × Program η) :
    Program η → Drained α → Program η → Prop
  | stopped {p q : Program η} {e : Error} (failed : pull p = (.error e, q)) :
      Drains pull p { stopped := some e } q
  | finished {p q : Program η} (last : pull p = (.ok none, q)) : Drains pull p {} q
  | pulled {p q r : Program η} {result : α} {drained : Drained α}
      (next : pull p = (.ok (some result), q)) (rest : Drains pull q drained r) :
      Drains pull p (drained.after result) r

/-! ### Pulled emits -/

/-- Each turn but the last leaves fewer units unprocessed, so that the loop ends within the bound. -/
theorem pullsEmit_of_unprocessed_lt (htidy : p.Tidy) {fuel : Nat} (hfuel : p.unprocessed < fuel) :
    p.PullsEmit (emitLog fuel p) (emitLoop fuel p).1 (emitLoop fuel p).2 := by
  induction fuel generalizing p with
  | zero => omega
  | succ fuel ih =>
      rw [emitLog, emitLoop]
      by_cases hdone : p.phase = .done
      · rw [if_pos hdone, if_pos hdone]
        exact .done hdone
      · rw [if_neg hdone, if_neg hdone]
        by_cases hcancelled : p.cancelled = true
        · rw [if_pos hcancelled, if_pos hcancelled]
          exact .refused hdone hcancelled
        · have hgoing := eq_false_of_ne_true hcancelled
          rw [if_neg hcancelled, if_neg hcancelled]
          cases hemit : p.pendingEmit.next? with
          | some found => exact .emitted hdone hgoing hemit
          | none =>
              obtain ⟨turns, _, hsearch⟩ := searches_nextUnit p
              rcases hnext : p.nextUnit with ⟨next, q⟩
              rw [hnext] at hsearch
              cases next with
              | none => exact .exhausted hdone hgoing hemit hsearch
              | some unit =>
                  obtain ⟨hrechecks, _⟩ := rechecks_of_nextUnit htidy hnext
                  have hfewer := hrechecks.unprocessed_lt htidy
                  exact .rechecked hdone hgoing hemit hsearch (ih hrechecks.tidy (by omega))

theorem Tidy.pullsEmit (htidy : p.Tidy) :
    p.PullsEmit (emitLog (p.state.size + 1) p) p.pullEmit.1 p.pullEmit.2 :=
  pullsEmit_of_unprocessed_lt htidy (Nat.lt_succ_of_le (unprocessed_le htidy))

/-- What a round may still have to emit and recheck. -/
def burden (p : Program η) : Nat :=
  p.pendingEmit.remaining.length + p.unprocessed

namespace PullsEmit

variable {log : List Recheck} {result : Except Error (Option Emitted)}

/-- Every turn but the last rechecks a unit that was not processed. -/
theorem length_le (htidy : p.Tidy) (h : p.PullsEmit log result q) : log.length ≤ p.unprocessed := by
  induction h with
  | done => exact Nat.zero_le _
  | refused => exact Nat.zero_le _
  | emitted => exact Nat.zero_le _
  | exhausted => exact Nat.zero_le _
  | rechecked _ _ _ next _ ih =>
      obtain ⟨hrechecks, _⟩ := rechecks_of_nextUnit htidy next.eq_nextUnit.symm
      have hfewer := hrechecks.unprocessed_lt htidy
      have hrest := ih hrechecks.tidy
      rw [List.length_cons]
      omega

/-- A recheck requests one emit at most, so that an emit in the end leaves less to do. -/
theorem burden_lt (htidy : p.Tidy) (h : p.PullsEmit log result q) {emitted : Emitted}
    (hresult : result = .ok (some emitted)) : q.burden < p.burden := by
  induction h with
  | done => cases hresult
  | refused => cases hresult
  | exhausted => cases hresult
  | @emitted p entry queue _ _ next =>
      obtain ⟨host, deferred, hframe⟩ :=
        emit_frame { p with pendingEmit := queue, phase := .emitPending } entry
      obtain ⟨hremaining, _⟩ := EmitQueue.next?_eq_some next
      rw [hframe, burden, burden, hremaining, List.length_cons]
      show queue.remaining.length + p.unprocessed < _
      omega
  | rechecked _ _ _ next _ ih =>
      obtain ⟨queued, hcommits⟩ := commits_of_nextUnit htidy next.eq_nextUnit.symm
      have hfewer := hcommits.rechecks.unprocessed_lt htidy
      have hone := hcommits.length_remaining_le
      have hrest := ih hcommits.rechecks.tidy hresult
      rw [burden] at hrest ⊢
      rw [burden] at hrest ⊢
      omega

end PullsEmit

theorem Tidy.tidy_pullEmit (htidy : p.Tidy) : p.pullEmit.2.Tidy := by
  have hsteps : Steps (fun _ => True) p _ p.pullEmit.2 := Steps.emitLoop _ p
  exact hsteps.tidy htidy

/-! ### Pulling until nothing is left -/

/-- A pulled check ends in one of four ways. -/
inductive PullsCheck (p : Program η) : Except Error (Option Checked) → Program η → Prop
  | done (finished : p.phase = .done) : PullsCheck p (.ok none) p
  | refused (going : p.phase ≠ .done) (cancelled : p.cancelled = true) :
      PullsCheck p (.error .cancelled) p
  | exhausted {q : Program η} (phase : Phase) (going : p.phase ≠ .done) (allowed : p.cancelled = false)
      (next : p.nextUnit = (none, q)) (quiet : phase = .done → p.pendingEmit.remaining = []) :
      PullsCheck p (.ok none) { q with phase }
  | rechecked {q : Program η} {unit : UnitId} (going : p.phase ≠ .done) (allowed : p.cancelled = false)
      (next : p.nextUnit = (some unit, q)) :
      PullsCheck p (.ok (some ({ q with phase := .iterating }.process unit).1)) (q.afterRecheck unit)

theorem pullsCheck (p : Program η) : p.PullsCheck p.pullCheck.1 p.pullCheck.2 := by
  rw [pullCheck]
  by_cases hdone : p.phase = .done
  · rw [if_pos hdone]
    exact .done hdone
  · rw [if_neg hdone]
    by_cases hcancelled : p.cancelled = true
    · rw [if_pos hcancelled]
      exact .refused hdone hcancelled
    · rw [if_neg hcancelled]
      have hgoing := eq_false_of_ne_true hcancelled
      rcases hnext : p.nextUnit with ⟨next, q⟩
      cases next with
      | none =>
          obtain ⟨phase, hphase, hquiet⟩ := finishChecking_eq hdone hnext
          simp only [hphase]
          exact .exhausted phase hdone hgoing hnext hquiet
      | some unit => exact .rechecked hdone hgoing hnext

/-- A check that is pulled rechecks a unit. -/
theorem rechecks_of_pullCheck (htidy : p.Tidy) {checked : Checked}
    (h : p.pullCheck = (.ok (some checked), q)) : ∃ unit, p.Rechecks unit q := by
  have hpull := pullsCheck p
  rw [h] at hpull
  cases hpull with
  | @rechecked r unit _ _ next => exact ⟨unit, (rechecks_of_nextUnit htidy next).1⟩

theorem drains_checks_of_unprocessed_lt (htidy : p.Tidy) {fuel : Nat} (hfuel : p.unprocessed < fuel) :
    Drains pullCheck p (drainChecksLoop fuel p).1 (drainChecksLoop fuel p).2
      ∧ (drainChecksLoop fuel p).1.results.length ≤ p.unprocessed := by
  induction fuel generalizing p with
  | zero => omega
  | succ fuel ih =>
      rw [drainChecksLoop]
      rcases hpull : p.pullCheck with ⟨result, q⟩
      cases result with
      | error e => exact ⟨.stopped hpull, Nat.zero_le _⟩
      | ok next =>
          cases next with
          | none => exact ⟨.finished hpull, Nat.zero_le _⟩
          | some checked =>
              obtain ⟨unit, hrechecks⟩ := rechecks_of_pullCheck htidy hpull
              have hfewer := hrechecks.unprocessed_lt htidy
              obtain ⟨hrest, hlength⟩ := ih hrechecks.tidy (by omega)
              refine ⟨.pulled hpull hrest, ?_⟩
              show (checked :: (drainChecksLoop fuel q).1.results).length ≤ _
              rw [List.length_cons]
              omega

theorem drains_emits_of_burden_lt (htidy : p.Tidy) {fuel : Nat} (hfuel : p.burden < fuel) :
    Drains pullEmit p (drainEmitsLoop fuel p).1 (drainEmitsLoop fuel p).2 := by
  induction fuel generalizing p with
  | zero => omega
  | succ fuel ih =>
      rw [drainEmitsLoop]
      have htidy' := htidy.tidy_pullEmit
      have hloop := htidy.pullsEmit
      rcases hpull : p.pullEmit with ⟨result, q⟩
      rw [hpull] at htidy' hloop
      cases result with
      | error e => exact .stopped hpull
      | ok next =>
          cases next with
          | none => exact .finished hpull
          | some emitted =>
              have hless : q.burden < p.burden := hloop.burden_lt htidy rfl
              exact .pulled hpull (ih htidy' (by omega))

/-- All checks are pulled, and there are at most as many as units that were not processed. -/
theorem Tidy.drains_checks (htidy : p.Tidy) :
    Drains pullCheck p p.drainChecks.1 p.drainChecks.2
      ∧ p.drainChecks.1.results.length ≤ p.unprocessed :=
  drains_checks_of_unprocessed_lt htidy (Nat.lt_succ_of_le (unprocessed_le htidy))

theorem Tidy.drains_emits (htidy : p.Tidy) : Drains pullEmit p p.drainEmits.1 p.drainEmits.2 := by
  refine drains_emits_of_burden_lt htidy ?_
  have hunits := unprocessed_le htidy
  rw [emitBound, burden]
  omega

/-! ### Ends -/

/-- Every pull comes to its end, and so does a caller who pulls until nothing is left.  At most `bound`
units are rechecked on the way. -/
structure Ends (p : Program η) (bound : Nat) : Prop where
  search : ∃ turns, p.Searches turns p.nextUnit
  emit : ∃ log, p.PullsEmit log p.pullEmit.1 p.pullEmit.2 ∧ log.length ≤ bound
  checkAll : Drains pullCheck p p.drainChecks.1 p.drainChecks.2
  results : ∀ checks, p.checkAll.1 = .ok checks → checks.length ≤ bound
  emitAll : Drains pullEmit p p.drainEmits.1 p.drainEmits.2

theorem Tidy.ends (htidy : p.Tidy) : p.Ends p.state.size where
  search := by
    obtain ⟨turns, _, hsearch⟩ := searches_nextUnit p
    exact ⟨turns, hsearch⟩
  emit := ⟨_, htidy.pullsEmit, Nat.le_trans (htidy.pullsEmit.length_le htidy) (unprocessed_le htidy)⟩
  checkAll := htidy.drains_checks.1
  results := by
    intro checks hchecks
    have hlength := Nat.le_trans htidy.drains_checks.2 (unprocessed_le htidy)
    have hcomplete : p.drainChecks.1.complete = .ok checks := hchecks
    rw [Drained.complete] at hcomplete
    split at hcomplete
    · cases hcomplete
    · cases hcomplete
      exact hlength
  emitAll := htidy.drains_emits

end Program

/-- **No unit is rechecked twice, and every round comes to an end.**  Whatever the host answers and
whatever is pulled in a round, each unit is rechecked at most once, and each pull after that ends, as does
pulling everything. -/
theorem rechecks_once_and_ends {η : Type} [Host η] (p : Program η) (s : Snapshot)
    (calls : List (Call η)) :
    ((Call.play calls (p.update s)).1.map (·.unit)).Nodup
      ∧ (∀ e ∈ (Call.play calls (p.update s)).1, s.units[e.unit]?.map (·.path) = some e.path)
      ∧ (Call.play calls (p.update s)).1.length ≤ s.units.length
      ∧ (Call.play calls (p.update s)).2.Ends s.units.length := by
  have hcalls : ∀ c ∈ calls, c.Within fun _ => True :=
    fun c _ => c.within_of_forall fun _ => trivial
  have hsteps := Steps.play hcalls (p.update s)
  have honce := (Program.Once.update p s).steps hsteps
  have hround := (Program.Propagates.start p s).steps hsteps
  rw [List.nil_append] at hround
  have hsize : (Call.play calls (p.update s)).2.state.graph.size = s.units.length := by
    rw [hround.graph]
    exact Snapshot.graph_size
  refine ⟨?_, fun e he => ?_, ?_, ?_⟩
  · rw [← hround.processed]
    exact honce.nodup
  · exact Snapshot.idOf?_graph_eq_some_iff.mp (hround.idOf?_path he)
  · have hlength := honce.length_le
    rwa [hround.processed, List.length_map, hsize] at hlength
  · have hends := honce.tidy.ends
    rwa [State.size, honce.tidy.wellFormed.length, hsize] at hends

end Rebuild
