import Rebuild.Proofs.Pair
import Rebuild.Proofs.Recheck
import Rebuild.Proofs.Update

/-!
# Propagation

A round is closed under propagation.  Whatever the host answers, and in whatever order checks,
emits and other calls come, a round that has no check left to pull has rechecked everything that
its snapshot and its own rechecks call for.

* `Closed`: what the rechecks of a finished round contain;
* `Program.Propagates`: the same in the middle of a round, where units may still wait;
* `Program.Propagates.step`, `Program.Propagates.steps`: a step, and a round, keep it;
* `closed_of_finished`: a finished round is closed.
-/

namespace Rebuild

def Rechecked (log : List Recheck) (path : UnitPath) : Prop :=
  ∃ e ∈ log, e.path = path

instance (log : List Recheck) (path : UnitPath) : Decidable (Rechecked log path) :=
  inferInstanceAs (Decidable (∃ e ∈ log, _))

/-- What calls for a recheck of every unit, in a round that takes `p` to the snapshot `s` and has
made the rechecks of `log`: the round is forced, a unit recorded as global is gone, dependencies are
not tracked and some unit was rechecked, or the signature of a global unit moved. -/
def ConcernsEverything {η : Type} (p : Program η) (s : Snapshot) (log : List Recheck) : Prop :=
  p.forceAll = true
    ∨ (∃ path info, p.state.infoOf? path = some info ∧ info.isGlobal = true ∧ s.unit? path = none)
    ∨ (p.options.dependencyTracking = false ∧ log ≠ [])
    ∨ ∃ e ∈ log, e.moved = true ∧ e.isGlobal = true

/-- What a round that took the program `p` to the snapshot `s` has rechecked. -/
structure Closed {η : Type} (p : Program η) (s : Snapshot) (log : List Recheck) : Prop where
  /-- Every unit that is new or has another version. -/
  changed : ∀ unit ∈ s.units,
    (∀ info, p.state.infoOf? unit.path = some info → info.version ≠ unit.version) →
    Rechecked log unit.path
  /-- Every unit that is still there and depended on one that is gone. -/
  orphaned : ∀ a b, p.state.graph.Imports a b → (s.unit? a).isSome = true → s.unit? b = none →
    Rechecked log a
  /-- Every unit that is still there and waited in the round before. -/
  carried : ∀ check ∈ p.pendingChecks, (s.unit? check.unit).isSome = true → Rechecked log check.unit
  /-- Every direct dependent of a unit whose signature moved. -/
  dependents : ∀ e ∈ log, e.moved = true →
    ∀ a, (s.graph p.options.dependencyTracking).Imports a e.path → Rechecked log a
  /-- Every unit, when the round or one of its rechecks concerns all of them. -/
  everything : ConcernsEverything p s log → ∀ unit ∈ s.units, Rechecked log unit.path

namespace Program

variable {η : Type} {p q r : Program η} {s : Snapshot} {log more : List Recheck}

/-- The middle of a round that took `p` to the snapshot `s`, where `q` is the program and `log` what
was rechecked: whatever has to be rechecked was, or waits. -/
structure Propagates (p : Program η) (s : Snapshot) (log : List Recheck) (q : Program η) : Prop where
  tidy : q.Tidy
  graph : q.state.graph = s.graph p.options.dependencyTracking
  processed : q.processed = log.map (·.unit)
  logged : ∀ e ∈ log, e.unit < q.state.graph.size ∧ e.path = q.state.graph.pathOf e.unit
  roots : ∀ id, (p.update s).Covered id → q.Covered id
  dependents : ∀ e ∈ log, e.moved = true → ∀ id ∈ q.state.graph.dependentsOf e.unit, q.Covered id
  everything : ConcernsEverything p s log → ∀ id ∈ q.state.graph.units, q.Covered id

namespace Propagates

/-- A round starts with what the update makes wait. -/
theorem start (p : Program η) (s : Snapshot) : p.Propagates s [] (p.update s) where
  tidy := tidy_update p s
  graph := rfl
  processed := rfl
  logged := by simp
  roots := fun _ hid => hid
  dependents := by simp
  everything := by
    intro hall id hid
    have hsize : id < s.units.length := by simpa [Graph.mem_units] using hid
    rcases hall with hforced | hgone | ⟨_, hempty⟩ | ⟨e, he, _⟩
    · exact Or.inr (mem_frontier_update_of_everything (Or.inl hforced) hsize)
    · exact Or.inr (mem_frontier_update_of_everything (Or.inr hgone) hsize)
    · exact absurd rfl hempty
    · simp at he

theorem rests (h : p.Propagates s log q) (hr : q.Rests r) : p.Propagates s log r := by
  have hgraph : r.state.graph = q.state.graph := by rw [hr.state]
  refine ⟨hr.tidy, hgraph.trans h.graph, hr.processed.trans h.processed, ?_,
    fun id hid => (hr.covered id).mp (h.roots id hid), ?_, ?_⟩
  · rw [hgraph]
    exact h.logged
  · rw [hgraph]
    exact fun e he hmoved id hid => (hr.covered id).mp (h.dependents e he hmoved id hid)
  · rw [hgraph]
    exact fun hall id hid => (hr.covered id).mp (h.everything hall id hid)

/-- A recheck is of the unit that has its path. -/
theorem idOf?_path (h : p.Propagates s log q) {e : Recheck} (he : e ∈ log) :
    (s.graph p.options.dependencyTracking).idOf? e.path = some e.unit := by
  obtain ⟨hsize, hpath⟩ := h.logged e he
  rw [hpath, ← h.graph]
  exact Graph.idOf?_pathOf h.tidy.wellFormed.nodup hsize

variable [Host η] {allowed : (η → η) → Prop}

/-- A recheck keeps the invariant: what it calls for is covered, and the rest stays covered. -/
theorem recheck (h : p.Propagates s log q) {unit : UnitId} (hr : q.Rechecks unit r) :
    p.Propagates s (log ++ [q.recheckOf unit]) r := by
  have hgraph : r.state.graph = q.state.graph := by rw [hr.state]; rfl
  have hsize : unit < q.state.graph.size := h.tidy.bounded unit hr.awaited
  refine ⟨hr.tidy, hgraph.trans h.graph, ?_, ?_, fun id hid => hr.covered id (h.roots id hid), ?_, ?_⟩
  · rw [hr.processed, h.processed, List.map_append]
    rfl
  · intro e he
    rw [hgraph]
    rcases List.mem_append.mp he with hold | hnew
    · exact h.logged e hold
    · rw [List.mem_singleton.mp hnew]
      exact ⟨hsize, rfl⟩
  · intro e he hmoved id hid
    rw [hgraph] at hid
    rcases List.mem_append.mp he with hold | hnew
    · exact hr.covered id (h.dependents e hold hmoved id hid)
    · rw [List.mem_singleton.mp hnew] at hmoved hid
      exact hr.dependents hmoved id hid
  · intro hall id hid
    rw [hgraph] at hid
    have htracking : q.state.graph.tracking = p.options.dependencyTracking := by
      rw [h.graph, Snapshot.graph_tracking]
    -- either the log called for everything before, or this recheck does
    rcases hall with hforced | hgone | ⟨hoff, _⟩ | ⟨e, he, hmoved, hglobal⟩
    · exact hr.covered id (h.everything (Or.inl hforced) id hid)
    · exact hr.covered id (h.everything (Or.inr (Or.inl hgone)) id hid)
    · exact hr.everything (Or.inl (htracking.trans hoff)) id hid
    · rcases List.mem_append.mp he with hold | hnew
      · exact hr.covered id
          (h.everything (Or.inr (Or.inr (Or.inr ⟨e, hold, hmoved, hglobal⟩))) id hid)
      · rw [List.mem_singleton.mp hnew] at hmoved hglobal
        exact hr.everything (Or.inr ⟨hmoved, hglobal⟩) id hid

theorem step (h : p.Propagates s log q) (hstep : Step allowed q more r) :
    p.Propagates s (log ++ more) r := by
  rcases Step.cases h.tidy hstep with ⟨unit, rfl, hrechecks⟩ | ⟨rfl, hrests⟩
  · exact h.recheck hrechecks
  · rw [List.append_nil]
    exact h.rests hrests

/-- The invariant holds at every moment of a round. -/
theorem steps (h : p.Propagates s log q) (hsteps : Steps allowed q more r) :
    p.Propagates s (log ++ more) r :=
  Steps.induct (motive := fun q log => p.Propagates s log q) step log h hsteps

/-- In a finished round, what is covered was rechecked. -/
theorem rechecked (h : p.Propagates s log q) (hfinished : q.Finished) {id : UnitId}
    {path : UnitPath} (hid : (s.graph p.options.dependencyTracking).idOf? path = some id)
    (hcovered : q.Covered id) : Rechecked log path := by
  have hdone := h.tidy.processed_of_finished hfinished hcovered
  rw [h.processed] at hdone
  obtain ⟨e, he, rfl⟩ := List.mem_map.mp hdone
  refine ⟨e, he, ?_⟩
  rw [(h.logged e he).2, h.graph, Graph.pathOf_of_idOf? hid]

/-- A finished round is closed. -/
theorem closed (h : p.Propagates s log q) (hfinished : q.Finished) : Closed p s log where
  changed := by
    intro unit hunit hchanged
    obtain ⟨id, hid⟩ := List.mem_iff_getElem?.mp hunit
    have hnumber : (s.graph p.options.dependencyTracking).idOf? unit.path = some id :=
      Snapshot.idOf?_graph_eq_some_iff.mpr (by rw [hid]; rfl)
    exact h.rechecked hfinished hnumber
      (h.roots id (Or.inr (mem_frontier_update_of_changed hid hchanged)))
  orphaned := by
    intro a b himports hstays hgone
    rw [← Snapshot.idOf?_graph_isSome s p.options.dependencyTracking] at hstays
    obtain ⟨id, hid⟩ := Option.isSome_iff_exists.mp hstays
    exact h.rechecked hfinished hid
      (h.roots id (Or.inr (mem_frontier_update_of_orphaned himports hgone hid)))
  carried := by
    intro check hcheck hstays
    rw [← Snapshot.idOf?_graph_isSome s p.options.dependencyTracking] at hstays
    obtain ⟨id, hid⟩ := Option.isSome_iff_exists.mp hstays
    obtain ⟨old, howed, hpath⟩ := mem_pendingChecks.mp (List.mem_map_of_mem hcheck)
    exact h.rechecked hfinished hid
      (h.roots id (Or.inr (mem_frontier_update_of_owed howed (by rw [hpath]; exact hid))))
  dependents := by
    intro e he hmoved a himports
    obtain ⟨i, j, hi, hj, hij⟩ := himports
    cases (h.idOf?_path he).symm.trans hj
    exact h.rechecked hfinished hi (h.dependents e he hmoved i (by rw [h.graph]; exact hij))
  everything := by
    intro hall unit hunit
    obtain ⟨id, hid⟩ := List.mem_iff_getElem?.mp hunit
    have hnumber : (s.graph p.options.dependencyTracking).idOf? unit.path = some id :=
      Snapshot.idOf?_graph_eq_some_iff.mpr (by rw [hid]; rfl)
    refine h.rechecked hfinished hnumber (h.everything hall id ?_)
    rw [h.graph]
    exact Graph.mem_units.mpr (Graph.lt_size_of_idOf? hnumber)

end Propagates

end Program

/-- **Propagation closure.**  Take any program to any snapshot and make any calls until no check is
left to pull.  The units processed in the round are those of the rechecks, and the rechecks contain
everything that the snapshot and the moved signatures call for. -/
theorem closed_of_finished {η : Type} [Host η] (p : Program η) (s : Snapshot)
    (calls : List (Call η))
    (hfinished : (Call.play calls (p.update s)).2.Finished) :
    Closed p s (Call.play calls (p.update s)).1
      ∧ (Call.play calls (p.update s)).2.processed
        = (Call.play calls (p.update s)).1.map (·.unit) := by
  have hcalls : ∀ c ∈ calls, c.Within fun _ => True :=
    fun c _ => c.within_of_forall fun _ => trivial
  have hround := (Program.Propagates.start p s).steps (Steps.play hcalls (p.update s))
  rw [List.nil_append] at hround
  exact ⟨hround.closed hfinished, hround.processed⟩

/-- Two units of which one fails its check are both rechecked in the first round. -/
theorem closed_of_finished_pair :
    let p : Program Pair := Program.blank ⟨"one", "int"⟩ {}
    let s := Pair.snapshot ⟨"one", "int"⟩
    let log := (Call.play [.check, .check] (p.update s)).1
    log.map (·.path) = ["left", "right"] ∧ log.map (·.moved) = [true, true] ∧ Closed p s log :=
  ⟨by decide, by decide, (closed_of_finished _ _ [.check, .check] (by decide +kernel)).1⟩

end Rebuild
