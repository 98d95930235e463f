import Rebuild.Proofs.Cycle
import Rebuild.Proofs.Pair
import Rebuild.Proofs.Phases
import Rebuild.Proofs.Work

/-!
# Emits that drive the checks

A caller may pull all checks and then all emits, or pull the emits alone, which recheck units as long as no
emit is requested.  A unit may then be emitted before a recheck requests it again, so the emits differ
between the two; the work does not.

* `EmitQueue.strongest?`: the strongest emit of a unit among several;
* `Program.processed_of_checkAll`, `Program.phase_done_of_insists`, `Program.Phased.of_checkAll`,
  `Program.Phased.of_emitAll`: what is left after all checks and after all emits;
* `Program.Works.strongest?_eq`: emits that leave nothing behind are decided by the rechecks;
* `emit_driven_eq_check_first`: both ways of draining a program agree.
-/

namespace Rebuild

namespace EmitQueue

def strongest? (emits : List PendingEmit) (path : UnitPath) : Option EmitKind :=
  if ⟨path, .full⟩ ∈ emits then some .full
  else if ⟨path, .types⟩ ∈ emits then some .types
  else none

variable {emits others : List PendingEmit} {path : UnitPath}

/-- Any emit of a unit writes its declarations. -/
theorem asks_types_iff : Asks emits path .types ↔ ⟨path, .full⟩ ∈ emits ∨ ⟨path, .types⟩ ∈ emits := by
  constructor
  · intro h
    obtain ⟨⟨unit, kind⟩, hentry, rfl, _⟩ := h
    cases kind with
    | full => exact Or.inl hentry
    | types => exact Or.inr hentry
  · intro h
    rcases h with hfull | htypes
    · exact asks_of_full_mem hfull .types
    · exact ⟨_, htypes, rfl, EmitKind.types_mem_parts .types⟩

/-- Emits that write the same outputs are equally strong. -/
theorem strongest?_congr (h : ∀ part, Asks emits path part ↔ Asks others path part) :
    strongest? emits path = strongest? others path := by
  have hfull := h .full
  have htypes := h .types
  rw [asks_full_iff, asks_full_iff] at hfull
  rw [asks_types_iff, asks_types_iff] at htypes
  rw [strongest?, strongest?]
  by_cases hopen : ⟨path, .full⟩ ∈ emits
  · rw [if_pos hopen, if_pos (hfull.mp hopen)]
  · have hclosed : ⟨path, .full⟩ ∉ others := fun hmem => hopen (hfull.mpr hmem)
    have hsame : ⟨path, .types⟩ ∈ emits ↔ ⟨path, .types⟩ ∈ others := by
      simpa [hopen, hclosed] using htypes
    rw [if_neg hopen, if_neg hclosed]
    by_cases hpart : ⟨path, .types⟩ ∈ emits
    · rw [if_pos hpart, if_pos (hsame.mp hpart)]
    · rw [if_neg hpart, if_neg (fun hmem => hpart (hsame.mpr hmem))]

end EmitQueue

namespace Program

variable {η : Type} [Host η] {p q r : Program η} {log more : List Recheck}
variable {emits others : List PendingEmit}

/-! ### What is left after draining -/

theorem Drains.processed_of_checks {drained : Drained Checked} (htidy : p.Tidy)
    (h : Drains pullCheck p drained q) (hstopped : drained.stopped = none) :
    ∀ id ∈ q.frontier, id ∈ q.processed := by
  induction h with
  | stopped => cases hstopped
  | @finished p _ last =>
      have hpull := pullsCheck p
      rw [last] at hpull
      cases hpull with
      | done finished => exact htidy.finished finished
      | exhausted _ _ _ next =>
          obtain ⟨_, rfl⟩ := nextUnit_none htidy next
          simp [frontier]
  | @pulled p _ _ _ _ next _ ih =>
      have hnext := (goesOn_pullCheck p htidy).1.tidy
      rw [next] at hnext
      exact ih hnext hstopped

/-- After all checks, everything that waited was processed. -/
theorem processed_of_checkAll {checks : List Checked} (htidy : p.Tidy)
    (h : p.Insists checkAll checks q) : ∀ id ∈ q.frontier, id ∈ q.processed := by
  obtain ⟨r, drained, hr, hdrains, hstopped⟩ := pullsAll_checkAll.exists_drains htidy h
  exact hdrains.processed_of_checks hr hstopped

/-- After all emits, the program is done. -/
theorem phase_done_of_insists {emitted : List Emitted} (htidy : p.Tidy)
    (h : p.Insists emitAll emitted q) : q.phase = .done := by
  obtain ⟨r, drained, hr, hdrains, hstopped⟩ := pullsAll_emitAll.exists_drains htidy h
  exact hdrains.phase_done hr hstopped

theorem Phased.of_checkAll {checks : List Checked} (hp : p.Phased) (h : p.Insists checkAll checks q) :
    q.Phased := by
  refine pullsAll_checkAll.relates (R := fun p q => p.Phased → q.Phased)
    (fun p signal hp => hp.token signal) (fun p _ hp => hp.pullCheck) ?_ hp.tidy h hp
  exact fun hfirst hrest hp => hrest (hfirst hp)

theorem Phased.of_emitAll {emitted : List Emitted} (hp : p.Phased) (h : p.Insists emitAll emitted q) :
    q.Phased := by
  refine pullsAll_emitAll.relates (R := fun p q => p.Phased → q.Phased)
    (fun p signal hp => hp.token signal) (fun p htidy hp => hp.pullEmit htidy.pullsEmit) ?_ hp.tidy h hp
  exact fun hfirst hrest hp => hrest (hfirst hp)

/-- When nothing remains to be emitted, what was emitted is decided by the rechecks, whatever was emitted
before them. -/
theorem Works.strongest?_eq (hp : p.Phased) (h : p.Works log emits q)
    (hempty : q.pendingEmit.remaining = []) (h' : p.Works log others r)
    (hempty' : r.pendingEmit.remaining = []) (path : UnitPath) :
    EmitQueue.strongest? emits path = EmitQueue.strongest? others path := by
  refine EmitQueue.strongest?_congr fun part => ?_
  have hasks := h.asks hp.tidy hp.queue path part
  have hasks' := h'.asks hp.tidy hp.queue path part
  have hnothing : ¬ EmitQueue.Asks [] path part := by simp [EmitQueue.Asks]
  rw [hempty, or_iff_left hnothing] at hasks
  rw [hempty', or_iff_left hnothing] at hasks'
  exact hasks.trans hasks'.symm

end Program

/-- **Emits that drive the checks agree with checks that come first.**  Whatever is left to do in a program,
a caller who pulls all emits and one who pulls all checks before all emits both get through.  The host is
asked to check the same units in the same order, the records and the cached diagnostics are the same, nothing
is left to check or to emit, and for each unit the strongest emit is the same.  Both callers repeat what is
refused, in case the build is cancelled. -/
theorem emit_driven_eq_check_first {η : Type} [Host η] (A : Answers η) {p : Program η} {w : A.World}
    (hp : p.Reachable) (hat : A.At p.host w) :
    (∃ emitted q, p.recorded.Insists Program.emitAll emitted q)
      ∧ (∃ checks r emitted s, p.recorded.Insists Program.checkAll checks r
        ∧ r.Insists Program.emitAll emitted s)
      ∧ ∀ emitted q, p.recorded.Insists Program.emitAll emitted q →
        ∀ checks r, p.recorded.Insists Program.checkAll checks r →
        ∀ emitted' s, r.Insists Program.emitAll emitted' s →
          q.host.checks = s.host.checks ∧ q.state = s.state ∧ q.cache = s.cache
            ∧ (q.pendingChecks = [] ∧ s.pendingChecks = [])
            ∧ (q.pendingEmit.remaining = [] ∧ s.pendingEmit.remaining = [])
            ∧ ∀ path, EmitQueue.strongest? q.host.emits path = EmitQueue.strongest? s.host.emits path := by
  have hphased : p.recorded.Phased := hp.phased.image _ id
  have htidy := hphased.tidy
  refine ⟨Program.goesOn_emitAll.exists_insists htidy, ?_, fun emitted q hq checks r hr emitted' s hs => ?_⟩
  · obtain ⟨checks, r, hr⟩ := Program.goesOn_checkAll.exists_insists htidy
    obtain ⟨emitted, s, hs⟩ :=
      Program.goesOn_emitAll.exists_insists (Program.goesOn_checkAll.tidy_of_insists htidy hr)
    exact ⟨checks, r, emitted, s, hr, hs⟩
  · -- both ways are rechecks and emits in some order
    obtain ⟨log, emits, hdriven⟩ := Program.works_emitAll htidy hq
    obtain ⟨first, hchecking⟩ := Program.works_checkAll htidy hr
    have hmiddle := hphased.of_checkAll hr
    obtain ⟨second, others, hemitting⟩ := Program.works_emitAll hmiddle.tidy hs
    have hboth := hchecking.trans hemitting
    -- and both end with a program that is done
    have hq' := hphased.of_emitAll hq
    have hs' := hmiddle.of_emitAll hs
    have hdone := Program.phase_done_of_insists htidy hq
    have hdone' := Program.phase_done_of_insists hmiddle.tidy hs
    have hfinished := hq'.tidy.finished hdone
    have hfinished' := hs'.tidy.finished hdone'
    have hat' : A.recorded.At p.recorded.host w := hat
    obtain ⟨hlog, hstate, hcache⟩ := hdriven.agree htidy hat' hfinished hboth hfinished'
    obtain ⟨hchecks, hemits⟩ := hdriven.calls htidy
    obtain ⟨hchecks', hemits'⟩ := hboth.calls htidy
    refine ⟨?_, hstate, hcache, ⟨Program.pendingChecks_eq_nil hfinished,
      Program.pendingChecks_eq_nil hfinished'⟩, ⟨hq'.emits hdone, hs'.emits hdone'⟩, fun path => ?_⟩
    · rw [hchecks, hchecks', hlog]
    · subst hlog
      rw [hemits, hemits']
      exact hdriven.strongest?_eq hphased (hq'.emits hdone) hboth (hs'.emits hdone') path

/-- A unit whose dependency changes before it was emitted.  When emits drive the checks, its declarations
are requested again after it was emitted; when checks come first, that request is merged. -/
theorem emit_driven_eq_check_first_pair :
    let p := Pair.report ⟨"int", "str"⟩ (Pair.fresh ⟨"int", "int"⟩)
    let q := p.recorded.emitAll.2
    let s := p.recorded.checkAll.2.emitAll.2
    q.host.emits = [⟨"left", .full⟩, ⟨"right", .full⟩, ⟨"left", .types⟩]
      ∧ s.host.emits = [⟨"left", .full⟩, ⟨"right", .full⟩]
      ∧ q.host.checks = s.host.checks ∧ q.state = s.state ∧ q.cache = s.cache
      ∧ ∀ path, EmitQueue.strongest? q.host.emits path = EmitQueue.strongest? s.host.emits path := by
  intro p q s
  have hreachable : p.Reachable := .update (.call (.update (.blank _ _) _) (.edit fun _ => _)) _
  have hgranted : p.recorded.emitAll.1.isOk = true ∧ p.recorded.checkAll.1.isOk = true
      ∧ p.recorded.checkAll.2.emitAll.1.isOk = true := by decide +kernel
  obtain ⟨_, hdriven⟩ := Program.Insists.of_isOk hgranted.1
  obtain ⟨_, hchecking⟩ := Program.Insists.of_isOk hgranted.2.1
  obtain ⟨_, hemitting⟩ := Program.Insists.of_isOk hgranted.2.2
  obtain ⟨_, _, hagree⟩ := emit_driven_eq_check_first Pair.answers hreachable rfl
  obtain ⟨hchecks, hstate, hcache, _, _, hstrongest⟩ := hagree _ _ hdriven _ _ hchecking _ _ hemitting
  exact ⟨by decide +kernel, by decide +kernel, hchecks, hstate, hcache, hstrongest⟩

end Rebuild
