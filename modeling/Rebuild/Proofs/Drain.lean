import Rebuild.Proofs.Recheck

/-!
# Draining

Each recheck of a round is of a unit that was not rechecked in it, so a caller that goes on pulling
comes to the end of the round.

* `Program.unprocessed`: the number of units that were not processed in the round;
* `Program.Rechecks.unprocessed_lt`: a recheck leaves fewer of them;
* `Program.Tidy.exists_finished`: every round can be finished, whatever the host answers.
-/

namespace Rebuild

namespace Program

variable {η : Type} [Host η] {p q : Program η} {unit : UnitId}

def unprocessed (p : Program η) : Nat :=
  (p.state.graph.units.filter fun id => !p.processed.contains id).length

/-- A recheck leaves fewer units unprocessed. -/
theorem Rechecks.unprocessed_lt (htidy : p.Tidy) (h : p.Rechecks unit q) :
    q.unprocessed < p.unprocessed := by
  have hgraph : q.state.graph = p.state.graph := by
    rw [h.state]
    rfl
  have hunits : (q.state.graph.units.filter fun id => !q.processed.contains id)
      = (p.state.graph.units.filter fun id => !p.processed.contains id).filter
          fun id => decide (id ≠ unit) := by
    rw [hgraph, h.processed, List.filter_filter]
    refine List.filter_congr fun id _ => ?_
    simp [Bool.and_comm]
  rw [unprocessed, unprocessed, hunits]
  refine List.length_filter_lt_length_iff_exists.mpr ⟨unit, ?_, by simp⟩
  refine List.mem_filter.mpr ⟨List.mem_range.mpr (htidy.bounded unit h.awaited), ?_⟩
  simpa using h.fresh

/-- **Every round can be finished.**  A caller that resumes the build before each pull comes to the
end of the round. -/
theorem Tidy.exists_finished (htidy : p.Tidy) :
    ∃ calls : List (Call η), (∀ c ∈ calls, ∀ allowed, c.Within allowed)
      ∧ (Call.play calls p).2.Finished := by
  induction hsize : p.unprocessed using Nat.strongRecOn generalizing p with
  | ind size ih =>
      -- resume, and see whether there is something to pull
      let resumed : Program η := { p with cancelled := false }
      have hresumed : resumed.Tidy :=
        ⟨htidy.wellFormed, htidy.landed, htidy.accounts, htidy.bounded, htidy.finished⟩
      by_cases hdone : p.phase = .done
      · refine ⟨[.token false], fun c hc allowed => ?_, ?_⟩
        · rw [List.mem_singleton.mp hc]
          trivial
        · show resumed.pullCheck.1 = .ok none
          rw [pullCheck, if_pos hdone]
      · rcases hnext : resumed.nextUnit with ⟨next, q⟩
        cases next with
        | none =>
            refine ⟨[.token false], fun c hc allowed => ?_, ?_⟩
            · rw [List.mem_singleton.mp hc]
              trivial
            · show resumed.pullCheck.1 = .ok none
              rw [pullCheck, if_neg hdone, if_neg (by simp [resumed]), hnext]
        | some unit =>
            have hpull : resumed.pullCheck.2 = q.afterRecheck unit := by
              rw [pullCheck, if_neg hdone, if_neg (by simp [resumed]), hnext]
              rfl
            obtain ⟨hrechecks, _⟩ := rechecks_of_nextUnit hresumed hnext
            have hless : (q.afterRecheck unit).unprocessed < size :=
              Nat.lt_of_lt_of_eq (hrechecks.unprocessed_lt hresumed) hsize
            obtain ⟨calls, hcalls, hfinished⟩ := ih _ hless hrechecks.tidy rfl
            refine ⟨.token false :: .check :: calls, fun c hc allowed => ?_, ?_⟩
            · rcases List.mem_cons.mp hc with rfl | hc
              · trivial
              · rcases List.mem_cons.mp hc with rfl | hc
                · trivial
                · exact hcalls c hc allowed
            · show (Call.play calls resumed.pullCheck.2).2.Finished
              rw [hpull]
              exact hfinished

end Program

end Rebuild
