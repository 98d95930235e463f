import Rebuild.Proofs.Pair
import Rebuild.Proofs.Recorded

/-!
# Phases

What the phase of a program says about the work that is left in its round.  The phase is looked at before
the emit queue and the units that wait, so it must never run ahead of them.

* `Program.Phased`: what the phase says, and `Program.phased_update`, `Call.phased`: it is right whatever is
  done within a round;
* `Program.Phased.run_done`: nothing but a new round starts a program that is done;
* `Program.AtRest`: every pull finds nothing, asks the host for nothing and changes nothing;
* `phase_invariant`: all of this for every call in every round.
-/

namespace Rebuild

namespace Program

variable {η : Type} {p q : Program η}

/-- What the phase of a program says: a program that is done has nothing left to recheck or to emit, one
that is fully checked has something to emit and nothing to recheck, and one that was just created has
rechecked nothing. -/
structure Phased (p : Program η) : Prop where
  tidy : p.Tidy
  queue : p.pendingEmit.WellFormed
  emits : p.phase = .done → p.pendingEmit.remaining = []
  checked : p.phase = .fullyChecked →
    (∀ id ∈ p.frontier, id ∈ p.processed) ∧ p.pendingEmit.remaining ≠ []
  created : p.phase = .created → p.processed = []

/-- Nothing waits when everything in the frontier was processed. -/
theorem pendingChecks_eq_nil (h : ∀ id ∈ p.frontier, id ∈ p.processed) : p.pendingChecks = [] := by
  rw [List.eq_nil_iff_forall_not_mem]
  intro check hcheck
  obtain ⟨id, ⟨hwaits, hfresh⟩, _⟩ := mem_pendingChecks.mp (List.mem_map_of_mem hcheck)
  exact hfresh (h id hwaits)

theorem phased_update (p : Program η) (s : Snapshot) : (p.update s).Phased where
  tidy := tidy_update p s
  queue := wellFormed_roundEmits
  emits := fun hdone => by cases hdone
  checked := fun hchecked => by cases hchecked
  created := fun _ => rfl

namespace Phased

/-- The host, the options, the cache and the token do not matter. -/
theorem frame (h : p.Phased) (htidy : q.Tidy) (hphase : q.phase = p.phase)
    (hemits : q.pendingEmit = p.pendingEmit) (hfrontier : q.frontier = p.frontier)
    (hprocessed : q.processed = p.processed) : q.Phased := by
  refine ⟨htidy, ?_, ?_, ?_, ?_⟩
  · rw [hemits]
    exact h.queue
  · rw [hphase, hemits]
    exact h.emits
  · rw [hphase, hemits, hfrontier, hprocessed]
    exact h.checked
  · rw [hphase, hprocessed]
    exact h.created

theorem token (h : p.Phased) (signal : Bool) : Phased { p with cancelled := signal } :=
  h.frame (h.tidy.token signal) rfl rfl rfl rfl

theorem image {θ : Type} (h : p.Phased) (f : η → θ) (g : Bool → Bool) : (p.image f g).Phased :=
  ⟨h.tidy.image f g, h.queue, h.emits, h.checked, h.created⟩

/-- Both ways of finding that nothing is left to recheck look at the emits that remain. -/
theorem finishChecking (h : p.Phased) (hnext : p.nextUnit = (none, q)) : q.finishChecking.Phased := by
  obtain ⟨_, rfl⟩ := nextUnit_none h.tidy hnext
  have htidy : ∀ phase, Tidy { p with current := none, roots := [], phase } := by
    intro phase
    exact ⟨h.tidy.wellFormed, by simp, by simp, by simp [frontier], by simp [frontier]⟩
  -- the phase that is chosen when the units that wait are exhausted
  have hchosen : Phased { p with
      current := none, roots := []
      phase := if p.pendingEmit.isEmpty then .done else .fullyChecked } := by
    by_cases hempty : p.pendingEmit.isEmpty = true
    · rw [if_pos hempty]
      refine ⟨htidy _, h.queue, fun _ => List.isEmpty_iff.mp hempty, ?_, ?_⟩
      · exact fun hchecked => by cases hchecked
      · exact fun hcreated => by cases hcreated
    · rw [if_neg hempty]
      refine ⟨htidy _, h.queue, ?_, fun _ => ⟨by simp [frontier], ?_⟩, ?_⟩
      · exact fun hdone => by cases hdone
      · exact fun hnil => hempty (List.isEmpty_iff.mpr hnil)
      · exact fun hcreated => by cases hcreated
  rw [Program.finishChecking]
  split
  · exact hchosen
  · exact hchosen
  · exact ⟨htidy _, h.queue, h.emits, fun hchecked => ⟨by simp [frontier], (h.checked hchecked).2⟩,
      h.created⟩

/-- While units are rechecked or emitted, the phase says nothing. -/
theorem of_working (htidy : q.Tidy) (hqueue : q.pendingEmit.WellFormed)
    (h : q.phase = .iterating ∨ q.phase = .emitPending) : q.Phased := by
  have hopen : q.phase ≠ .done ∧ q.phase ≠ .fullyChecked ∧ q.phase ≠ .created := by
    rcases h with h | h
    · simp [h]
    · simp [h]
  refine ⟨htidy, hqueue, fun hdone => ?_, fun hchecked => ?_, fun hcreated => ?_⟩
  · exact absurd hdone hopen.1
  · exact absurd hchecked hopen.2.1
  · exact absurd hcreated hopen.2.2

variable [Host η]

/-- A recheck leaves the phase right. -/
theorem recheck {unit : UnitId} (h : p.Phased) (hnext : p.nextUnit = (some unit, q)) :
    (q.afterRecheck unit).Phased := by
  obtain ⟨queued, hcommits⟩ := commits_of_nextUnit h.tidy hnext
  refine of_working hcommits.rechecks.tidy ?_ (Or.inl hcommits.phase)
  rw [hcommits.pendingEmit]
  split
  · exact h.queue.push _ _
  · exact h.queue

theorem pullCheck (h : p.Phased) : p.pullCheck.2.Phased := by
  rw [Program.pullCheck]
  split
  · exact h
  · split
    · exact h
    · rcases hnext : p.nextUnit with ⟨next, q⟩
      cases next with
      | none => exact h.finishChecking hnext
      | some unit => exact h.recheck hnext

theorem pullEmit {log : List Recheck} {result : Except Error (Option Emitted)} (h : p.Phased)
    (hpull : p.PullsEmit log result q) : q.Phased := by
  induction hpull with
  | done => exact h
  | refused => exact h
  | @emitted p entry queue _ _ next =>
      have htidy := (Advances.emit h.tidy queue entry).tidy
      obtain ⟨host, deferred, hframe⟩ :=
        emit_frame { p with pendingEmit := queue, phase := .emitPending } entry
      rw [hframe] at htidy ⊢
      exact of_working htidy (EmitQueue.next?_eq_some next).2 (Or.inr rfl)
  | exhausted _ _ quiet next =>
      have htidy := (Advances.exhaust h.tidy next.eq_nextUnit.symm .done).tidy
      obtain ⟨_, rfl⟩ := nextUnit_none h.tidy next.eq_nextUnit.symm
      refine ⟨htidy, h.queue, fun _ => EmitQueue.next?_eq_none_iff.mp quiet, ?_, ?_⟩
      · exact fun hchecked => by cases hchecked
      · exact fun hcreated => by cases hcreated
  | rechecked _ _ _ next _ ih => exact ih (h.recheck next.eq_nextUnit.symm)

end Phased

/-- Asking for diagnostics changes the host and the cache, and the build may be cancelled meanwhile. -/
theorem diagnosticsOfAll_frame [Host η] (paths : List UnitPath) (p : Program η) :
    ∃ host cancelled cache,
      (Program.diagnosticsOfAll paths p).2 = { p with host, cancelled, cache } := by
  induction paths generalizing p with
  | nil => exact ⟨p.host, p.cancelled, p.cache, rfl⟩
  | cons path paths ih =>
      rw [Program.diagnosticsOfAll]
      obtain ⟨host, cancelled, cache, hfirst, _⟩ := diagnosticsOf_frame p path
      rcases hdemand : p.diagnosticsOf path with ⟨found, q⟩
      rw [hdemand] at hfirst
      obtain rfl : q = { p with host, cancelled, cache } := hfirst
      cases found with
      | error e => exact ⟨host, cancelled, cache, rfl⟩
      | ok diagnostics =>
          obtain ⟨host', cancelled', cache', hrest⟩ := ih { p with host, cancelled, cache }
          rcases hall : Program.diagnosticsOfAll paths { p with host, cancelled, cache } with ⟨more, r⟩
          rw [hall] at hrest
          simp only [hall]
          cases more with
          | error e => exact ⟨host', cancelled', cache', hrest⟩
          | ok rest => exact ⟨host', cancelled', cache', hrest⟩

end Program

open Program

namespace Call

variable {η : Type} [Host η] {p : Program η}

/-- The phase is right after every call. -/
theorem phased (c : Call η) (h : p.Phased) : (c.run p).Phased := by
  have hcall : c.Within fun _ => True := c.within_of_forall fun _ => trivial
  have htidy : (c.run p).Tidy := (Steps.call hcall p).tidy h.tidy
  cases c with
  | check => exact h.pullCheck
  | emit => exact h.pullEmit h.tidy.pullsEmit
  | demand unit =>
      obtain ⟨host, cancelled, cache, hframe, _⟩ := diagnosticsOf_frame p unit
      have hrun : (Call.demand unit).run p = { p with host, cancelled, cache } := hframe
      rw [hrun] at htidy ⊢
      exact h.frame htidy rfl rfl rfl rfl
  | demandAll =>
      obtain ⟨host, cancelled, cache, hframe⟩ := diagnosticsOfAll_frame p.state.graph.paths p
      have hrun : Call.demandAll.run p = { p with host, cancelled, cache } := hframe
      rw [hrun] at htidy ⊢
      exact h.frame htidy rfl rfl rfl rfl
  | edit change => exact h.frame htidy rfl rfl rfl rfl
  | token cancelled => exact h.frame htidy rfl rfl rfl rfl
  | switch options => exact h.frame htidy rfl rfl rfl rfl

theorem phased_play (calls : List (Call η)) (h : p.Phased) : (play calls p).2.Phased :=
  play_keeps (fun hp _ => phased _ hp) (fun _ _ => trivial) h

end Call

namespace Program

variable {η : Type} [Host η] {p : Program η}

/-- A program that takes over an accepted document has done nothing in its round. -/
theorem phased_restore (host : η) (options : Options) {d : BuildInfo.Document} {expected : String}
    {decoded : BuildInfo.Decoded} (hdecode : d.decode expected = .ok decoded) :
    ((Program.blank host options).restore decoded).Phased := by
  obtain ⟨emits, hemits⟩ := BuildInfo.Document.exists_pendingEmit hdecode
  refine ⟨tidy_restore host options hdecode, ?_, ?_, ?_, fun _ => rfl⟩
  · show decoded.pendingEmit.WellFormed
    rw [hemits]
    exact EmitQueue.wellFormed_ofParts emits _
  · exact fun hdone => by cases hdone
  · exact fun hchecked => by cases hchecked

/-- The phase of every program that can come about is right. -/
theorem Reachable.phased (h : p.Reachable) : p.Phased := by
  induction h with
  | blank host options =>
      have htidy := (Reachable.blank host options).tidy
      refine ⟨htidy, Nat.le_refl 0, ?_, ?_, fun _ => rfl⟩
      · exact fun hdone => by cases hdone
      · exact fun hchecked => by cases hchecked
  | @restore host options stored decoded hread =>
      obtain ⟨d, hdecode⟩ := BuildInfo.Document.exists_decode hread
      exact phased_restore host options hdecode
  | force h ih => exact ih.frame (Reachable.force h).tidy rfl rfl rfl rfl
  | update _ s _ => exact phased_update _ s
  | call _ c ih => exact c.phased ih

/-! ### Programs that are done -/

/-- Every pull finds nothing, asks the host for nothing and changes nothing. -/
structure AtRest (p : Program η) : Prop where
  pullCheck : p.pullCheck = (.ok none, p)
  pullEmit : p.pullEmit = (.ok none, p)
  checkCalls : p.recorded.pullCheck.2.host.calls = []
  emitCalls : p.recorded.pullEmit.2.host.calls = []

theorem pullCheck_of_done (h : p.phase = .done) : p.pullCheck = (.ok none, p) := by
  rw [Program.pullCheck, if_pos h]

theorem pullEmit_of_done (h : p.phase = .done) : p.pullEmit = (.ok none, p) := by
  rw [Program.pullEmit, emitLoop, if_pos h]

theorem atRest_of_done (h : p.phase = .done) : p.AtRest where
  pullCheck := pullCheck_of_done h
  pullEmit := pullEmit_of_done h
  checkCalls := by rw [pullCheck_of_done (p := p.recorded) h]; rfl
  emitCalls := by rw [pullEmit_of_done (p := p.recorded) h]; rfl

/-- Within its round, a program that is done stays done. -/
theorem phase_run_of_done (h : p.phase = .done) (c : Call η) : (c.run p).phase = .done := by
  cases c with
  | check =>
      show p.pullCheck.2.phase = .done
      rw [pullCheck_of_done h]
      exact h
  | emit =>
      show p.pullEmit.2.phase = .done
      rw [pullEmit_of_done h]
      exact h
  | demand unit =>
      obtain ⟨host, cancelled, cache, hframe, _⟩ := diagnosticsOf_frame p unit
      show (p.diagnosticsOf unit).2.phase = .done
      rw [hframe]
      exact h
  | demandAll =>
      obtain ⟨host, cancelled, cache, hframe⟩ := diagnosticsOfAll_frame p.state.graph.paths p
      show (Program.diagnosticsOfAll p.state.graph.paths p).2.phase = .done
      rw [hframe]
      exact h
  | edit change => exact h
  | token cancelled => exact h
  | switch options => exact h

theorem phase_play_of_done (h : p.phase = .done) (calls : List (Call η)) :
    (Call.play calls p).2.phase = .done :=
  Call.play_keeps (motive := fun p => p.phase = .done)
    (fun hp _ => phase_run_of_done hp _) (fun _ _ => trivial) h

end Program

/-- **The phase never runs ahead of the work.**  Whatever is called in a round and in whatever order, a
program that is done has no checks and no emits left, one that is fully checked has no checks but some
emit left, and one that was just created has rechecked nothing in the round.  Once it is done, every pull
finds nothing until the next round, also when the build is cancelled. -/
theorem phase_invariant {η : Type} [Host η] (p : Program η) (s : Snapshot) (calls : List (Call η)) :
    ((Call.play calls (p.update s)).2.phase = .done →
        (Call.play calls (p.update s)).2.pendingChecks = []
          ∧ (Call.play calls (p.update s)).2.pendingEmit.remaining = [])
      ∧ ((Call.play calls (p.update s)).2.phase = .fullyChecked →
        (Call.play calls (p.update s)).2.pendingChecks = []
          ∧ (Call.play calls (p.update s)).2.pendingEmit.remaining ≠ [])
      ∧ ((Call.play calls (p.update s)).2.phase = .created → (Call.play calls (p.update s)).1 = [])
      ∧ ((Call.play calls (p.update s)).2.phase = .done → ∀ more : List (Call η),
        (Call.play more (Call.play calls (p.update s)).2).2.phase = .done
          ∧ (Call.play more (Call.play calls (p.update s)).2).2.AtRest) := by
  have hphased := Call.phased_play calls (phased_update p s)
  have hcalls : ∀ c ∈ calls, c.Within fun _ => True := fun c _ => c.within_of_forall fun _ => trivial
  have hround := (Propagates.start p s).steps (Steps.play hcalls (p.update s))
  rw [List.nil_append] at hround
  refine ⟨fun hdone => ⟨?_, hphased.emits hdone⟩, fun hchecked => ⟨?_, ?_⟩, fun hcreated => ?_,
    fun hdone more => ?_⟩
  · exact pendingChecks_eq_nil (hphased.tidy.finished hdone)
  · exact pendingChecks_eq_nil (hphased.checked hchecked).1
  · exact (hphased.checked hchecked).2
  · have hprocessed := hround.processed
    rw [hphased.created hcreated] at hprocessed
    exact List.map_eq_nil_iff.mp hprocessed.symm
  · have hstill := phase_play_of_done hdone more
    exact ⟨hstill, atRest_of_done hstill⟩

/-- Two units are checked and then emitted, after which the build is cancelled. -/
theorem phase_invariant_pair :
    let p : Program Pair := Program.blank ⟨"int", "int"⟩ {}
    let s := Pair.snapshot ⟨"int", "int"⟩
    let checked := (Call.play [.check, .check, .check] (p.update s)).2
    let emitted := (Call.play [.emit, .emit, .emit, .emit] (p.update s)).2
    (checked.phase = .fullyChecked ∧ checked.pendingChecks = [] ∧ checked.pendingEmit.remaining ≠ [])
      ∧ (emitted.phase = .done ∧ emitted.pendingChecks = [] ∧ emitted.pendingEmit.remaining = [])
      ∧ ((Call.token true).run emitted).AtRest := by
  intro p s checked emitted
  have hchecked : checked.phase = .fullyChecked := by decide +kernel
  have hemitted : emitted.phase = .done := by decide +kernel
  obtain ⟨_, hfully, _, _⟩ := phase_invariant p s [.check, .check, .check]
  obtain ⟨hdone, _, _, hrests⟩ := phase_invariant p s [.emit, .emit, .emit, .emit]
  exact ⟨⟨hchecked, hfully hchecked⟩, ⟨hemitted, hdone hemitted⟩,
    (hrests hemitted [.token true]).2⟩

end Rebuild
