import Rebuild.Proofs.Drain
import Rebuild.Proofs.History

/-!
# Settled programs

A program is settled when neither a check nor an emit is left to pull.

* `Call.Inner`: the calls that leave the host and the options to the program;
* `Call.actions`: such a call is made of actions that nothing from outside takes part in;
* `Program.Orderly.remaining_of_settled`: no emit remains in a settled program;
* `Program.Orderly.settled_or_pull`: unless a program is settled, there is a pull that leaves less to do;
* `Program.Orderly.exists_settled`: every round can be settled, whatever the host answers.
-/

namespace Rebuild

/-! ### Inner calls -/

namespace Call

variable {η : Type}

/-- The call leaves the host and the options to the program. -/
def Inner : Call η → Prop
  | .edit _ => False
  | .switch _ => False
  | _ => True

theorem Inner.within {c : Call η} (h : c.Inner) (allowed : (η → η) → Prop) : c.Within allowed := by
  cases c with
  | edit change => exact h.elim
  | _ => trivial

variable [Host η]

/-- Nothing from outside takes part in an inner call. -/
theorem actions {c : Call η} (h : c.Inner) (p : Program η) :
    ∃ events, Actions False p events (c.run p) := by
  cases c with
  | check => exact ⟨_, Actions.pullCheck p⟩
  | emit => exact ⟨_, Actions.emitLoop _ p⟩
  | demand unit => exact ⟨_, Actions.single (Action.demand unit)⟩
  | demandAll => exact ⟨_, Actions.diagnosticsOfAll _ p⟩
  | token cancelled => exact ⟨_, Actions.single (Action.surround p.host cancelled (Or.inr rfl))⟩
  | edit change => exact h.elim
  | switch options => exact h.elim

/-- What every action keeps, inner calls keep. -/
theorem play_induct {motive : Program η → Prop} {calls : List (Call η)} {p : Program η}
    (hstep : ∀ {p q : Program η} {events : List HistoryEvent}, motive p →
      Action False p events q → motive q)
    (hcalls : ∀ c ∈ calls, c.Inner) (hp : motive p) : motive (play calls p).2 := by
  refine play_keeps (fun {p c} hp hc => ?_) hcalls hp
  obtain ⟨events, hactions⟩ := actions hc p
  exact Actions.induct (motive := fun p _ => motive p) (fun hp h => hstep hp h) [] hp hactions

end Call

/-! ### Nothing left to pull -/

namespace Program

variable {η : Type} [Host η] {p : Program η}

/-- Neither a check nor an emit is left to pull. -/
def Settled (p : Program η) : Prop :=
  p.Finished ∧ p.pullEmit.1 = .ok none

/-- No emit remains in a settled program. -/
theorem Orderly.remaining_of_settled (hp : p.Orderly) (h : p.Settled) :
    p.pendingEmit.remaining = [] := by
  have hpull : (emitLoop (p.state.size + 1) p).1 = .ok none := h.2
  rw [emitLoop] at hpull
  split at hpull
  · rename_i hdone
    exact hp.quiet hdone
  · split at hpull
    · cases hpull
    · cases hnext : p.pendingEmit.next? with
      | none => exact EmitQueue.next?_eq_none_iff.mp hnext
      | some found =>
          rw [hnext] at hpull
          obtain ⟨entry, queue⟩ := found
          simp at hpull

/-- Each recheck requests one emit at most. -/
theorem Commits.length_remaining_le {q : Program η} {unit : UnitId} {queued : List UnitId}
    (h : p.Commits unit queued q) :
    q.pendingEmit.remaining.length ≤ p.pendingEmit.remaining.length + 1 := by
  rw [h.pendingEmit]
  split
  · exact EmitQueue.length_remaining_push_le _ _ _
  · omega

/-- A bound on the pulls of this round.  A recheck may request an emit, so that units count twice. -/
def workload (p : Program η) : Nat :=
  2 * p.unprocessed + p.pendingEmit.remaining.length

/-- Unless a program is settled, there is a pull that leaves less to do. -/
theorem Orderly.settled_or_pull (hp : p.Orderly) (hresumed : p.cancelled = false) :
    p.Settled ∨ ∃ pull : Call η, pull.Inner ∧ (pull.run p).Orderly
      ∧ (pull.run p).workload < p.workload := by
  have hgo : ¬ p.cancelled = true := by simp [hresumed]
  by_cases hdone : p.phase = .done
  · refine Or.inl ⟨?_, ?_⟩
    · rw [Finished, pullCheck, if_pos hdone]
    · rw [pullEmit, emitLoop, if_pos hdone]
  · rcases hnext : p.nextUnit with ⟨next, q⟩
    cases next with
    | some unit =>
        have hpull : Call.check.run p = q.afterRecheck unit := by
          show p.pullCheck.2 = _
          rw [pullCheck, if_neg hdone, if_neg hgo, hnext]
          rfl
        obtain ⟨queued, hcommits⟩ := commits_of_nextUnit hp.tidy hnext
        refine Or.inr ⟨.check, trivial, ?_, ?_⟩
        · rw [hpull]
          exact hcommits.orderly hp
        · have hfewer := hcommits.rechecks.unprocessed_lt hp.tidy
          have hone := hcommits.length_remaining_le
          rw [hpull, workload, workload]
          omega
    | none =>
        cases hemit : p.pendingEmit.next? with
        | none =>
            refine Or.inl ⟨?_, ?_⟩
            · rw [Finished, pullCheck, if_neg hdone, if_neg hgo, hnext]
            · rw [pullEmit, emitLoop, if_neg hdone, if_neg hgo, hemit]
              simp only [hnext]
        | some found =>
            obtain ⟨entry, queue⟩ := found
            have hpull : Call.emit.run p
                = ({ p with pendingEmit := queue, phase := .emitPending }.emit entry).2 := by
              show (emitLoop (p.state.size + 1) p).2 = _
              rw [emitLoop, if_neg hdone, if_neg hgo, hemit]
            obtain ⟨hremaining, _⟩ := EmitQueue.next?_eq_some hemit
            obtain ⟨host, deferred, hframe⟩ :=
              emit_frame { p with pendingEmit := queue, phase := .emitPending } entry
            refine Or.inr ⟨.emit, trivial, ?_, ?_⟩
            · have haction : Action False p _ _ := Action.emit hemit
              rw [hpull]
              exact haction.orderly hp
            · rw [hpull, hframe, workload, workload, hremaining, List.length_cons]
              show 2 * p.unprocessed + queue.remaining.length < _
              omega

/-- **Every round can be settled.**  A caller that resumes the build before each pull comes to the end of
the checks and of the emits. -/
theorem Orderly.exists_settled (hp : p.Orderly) :
    ∃ calls : List (Call η), (∀ c ∈ calls, c.Inner) ∧ (Call.play calls p).2.Settled := by
  induction hsize : p.workload using Nat.strongRecOn generalizing p with
  | ind size ih =>
      have haction : Action False p [] (Call.run (.token false) p) :=
        Action.surround p.host false (Or.inr rfl)
      have hresumed := haction.orderly hp
      rcases hresumed.settled_or_pull rfl with hsettled | ⟨pull, hpull, hq, hless⟩
      · exact ⟨[.token false], by simp [Call.Inner], hsettled⟩
      · have hless : (pull.run (Call.run (.token false) p)).workload < size :=
          Nat.lt_of_lt_of_eq hless hsize
        obtain ⟨calls, hcalls, hsettled⟩ := ih _ hless hq rfl
        refine ⟨.token false :: pull :: calls, ?_, hsettled⟩
        intro c hc
        rcases List.mem_cons.mp hc with rfl | hc
        · trivial
        · rcases List.mem_cons.mp hc with rfl | hc
          · exact hpull
          · exact hcalls c hc

end Program

end Rebuild
