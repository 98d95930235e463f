import Rebuild.Proofs.Takeover

/-!
# Emits that are owed once

A request for a unit that is already owed an emit upgrades what is owed, so that a program never comes to
owe two emits of one unit by itself.  Only a document can bring them in, and the documents that programs
write do not.

* `Program.distinct_update`: a round owes no unit twice if no unit was owed twice before;
* `Action.distinct`: an action never makes a program owe a unit twice;
* `Program.Undoubled`: programs that were started from no document with such doubles;
* `Program.Undoubled.distinct`: they owe no unit twice;
* `Program.Undoubled.restart`: the document of such a program has no doubles either.
-/

namespace Rebuild

namespace Program

variable {η : Type} {p q : Program η}

/-- What a round owes is distinct if what it carries over is: deferred emits and the emits of the round are
requested one by one. -/
theorem distinct_update {s : Snapshot} :
    EmitQueue.Distinct (p.update s).pendingEmit.remaining
      ↔ EmitQueue.Distinct (p.pendingEmit.remaining.filter fun entry =>
          (s.graph p.options.dependencyTracking).contains entry.unit) := by
  show EmitQueue.Distinct (roundEmits (s.graph p.options.dependencyTracking) _ _ _ _).remaining ↔ _
  rw [remaining_roundEmits, EmitQueue.distinct_requestAll, EmitQueue.distinct_requestAll]

theorem distinct_update_of_distinct (s : Snapshot) (h : EmitQueue.Distinct p.pendingEmit.remaining) :
    EmitQueue.Distinct (p.update s).pendingEmit.remaining :=
  distinct_update.mpr (h.sublist List.filter_sublist)

end Program

section Actions

open Program

variable {η : Type} [Host η] {outside : Prop} {p q : Program η} {log events : List HistoryEvent}

/-- An action never makes a program owe two emits of one unit. -/
theorem Action.distinct (hp : p.Orderly) (hdistinct : EmitQueue.Distinct p.pendingEmit.remaining)
    (h : Action outside p events q) : EmitQueue.Distinct q.pendingEmit.remaining := by
  cases h with
  | recheck next =>
      obtain ⟨queued, hcommits⟩ := commits_of_nextUnit hp.tidy next
      rw [hcommits.pendingEmit]
      split
      · rw [EmitQueue.remaining_push hp.queue, EmitQueue.distinct_request]
        exact hdistinct
      · exact hdistinct
  | exhaust phase next _ =>
      obtain ⟨_, rfl⟩ := nextUnit_none hp.tidy next
      exact hdistinct
  | @emit entry queue next =>
      obtain ⟨host, deferred, hemit⟩ :=
        emit_frame { p with pendingEmit := queue, phase := .emitPending } entry
      rw [hemit]
      rw [(EmitQueue.next?_eq_some next).1] at hdistinct
      exact hdistinct.sublist (List.sublist_cons_self _ _)
  | demand unit =>
      obtain ⟨host, cancelled, cache, hdemand, _⟩ := demand_cases p unit
      rw [hdemand]
      exact hdistinct
  | surround host cancelled _ => exact hdistinct
  | switch options _ _ => exact hdistinct
  | round host options forceAll s _ => exact distinct_update_of_distinct s hdistinct

theorem Actions.distinct (hp : p.Orderly) (hdistinct : EmitQueue.Distinct p.pendingEmit.remaining)
    (h : Actions outside p log q) : EmitQueue.Distinct q.pendingEmit.remaining := by
  have hboth := Actions.induct
    (motive := fun p _ => p.Orderly ∧ EmitQueue.Distinct p.pendingEmit.remaining)
    (fun hp haction => ⟨haction.orderly hp.1, haction.distinct hp.1 hp.2⟩) [] ⟨hp, hdistinct⟩ h
  exact hboth.2

end Actions

namespace Program

variable {η : Type} [Host η] {p q : Program η}

/-- Programs that were started from nothing, from a document that is not readable, or from one in which no
unit is named twice among the emits that remain, and then went through any requests. -/
inductive Undoubled : Program η → Prop
  | start {host : η} {options : Options} {document : Option String} {p : Program η}
      (hstart : Program.start host options document = .ok p)
      (hdistinct : ∀ decoded, decoded? document = some decoded →
        EmitQueue.Distinct decoded.pendingEmit.remaining) : Undoubled p
  | request {p : Program η} (h : Undoubled p) (r : Request η) : Undoubled (r.run p)

namespace Undoubled

theorem play (h : p.Undoubled) (requests : List (Request η)) : (Request.play requests p).2.Undoubled := by
  induction requests generalizing p with
  | nil => exact h
  | cons request requests ih => exact ih (h.request request)

theorem orderly (h : p.Undoubled) : p.Orderly := by
  induction h with
  | start hstart _ => exact orderly_of_start hstart
  | @request p _ r ih =>
      exact Actions.induct (motive := fun p _ => p.Orderly)
        (fun hp haction => haction.orderly hp) [] ih (r.actions p)

/-- No unit is owed two emits. -/
theorem distinct (h : p.Undoubled) : EmitQueue.Distinct p.pendingEmit.remaining := by
  induction h with
  | start hstart hdistinct =>
      obtain ⟨host', s, _, rfl⟩ := start_eq_ok_iff.mp hstart
      refine distinct_update_of_distinct s ?_
      rw [prior]
      split
      · rename_i decoded hdecoded
        exact hdistinct decoded hdecoded
      · exact List.nodup_nil
  | @request p h r ih => exact (r.actions p).distinct h.orderly ih

/-- A restart from the document of such a program is a start of this kind. -/
theorem restart (h : p.Undoubled) {host : η} {options : Options}
    (hstart : Program.start host options (some p.buildInfoText) = .ok q) : q.Undoubled := by
  refine .start hstart fun decoded hdecoded => ?_
  have htakes := h.orderly.takesOver_restore host options (decode_of_decoded? hdecoded)
  have hremaining : decoded.pendingEmit.remaining
      = EmitQueue.requestAll p.deferred p.pendingEmit.remaining := htakes.remaining
  rw [hremaining, EmitQueue.distinct_requestAll]
  exact h.distinct

end Undoubled

end Program

end Rebuild
