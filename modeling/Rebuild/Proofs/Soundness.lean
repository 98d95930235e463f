import Rebuild.Program.Basic
import Rebuild.Proofs.Pair
import Rebuild.Proofs.Sound

/-!
# Rounds after rounds

When each round is finished before the next snapshot is taken, what a program remembers stays right.

* `Step.here`, `Steps.here`: within a round, the host stays at the world of its latest snapshot;
* `Program.tracks_update`, `Program.Tracks.tied_of_update`: what a new snapshot does to a program;
* `Program.Sound.update`: a snapshot after a finished round keeps the invariant;
* `Run`: what a caller can do with a program, finished round after finished round;
* `Run.sound`, `Run.exact`: the invariant holds in every run, and what a finished round leaves is right;
* `incremental_eq_fresh`: a program agrees with a new one.
-/

namespace Rebuild

/-! ### The world of a round -/

section World

variable {η : Type} [Host η] {A : Answers η} {p q : Program η} {w : A.World} {log : List Recheck}

/-- Within a round the host stays at the world of its latest snapshot. -/
theorem Step.here (htidy : p.Tidy) (hhere : A.At p.host w) (h : Step (A.Keeps w) p log q) :
    A.At q.host w := by
  cases h with
  | recheck next =>
      obtain ⟨hrechecks, _⟩ := Program.rechecks_of_nextUnit htidy next
      rw [hrechecks.host]
      exact (Answers.examine_eq hhere _).2
  | exhaust phase next =>
      obtain ⟨_, rfl⟩ := Program.nextUnit_none htidy next
      exact hhere
  | emit queue entry =>
      have hemit := A.emit_at hhere entry.unit entry.kind
      rw [Program.emit]
      rcases hreply : Host.emit p.host entry.unit entry.kind with ⟨outcome, host⟩
      rw [hreply] at hemit
      cases outcome with
      | ok output => exact hemit
      | error e => exact hemit
  | demand unit =>
      rw [Program.diagnosticsOf]
      cases p.cache.get? (UnitPath.normalize unit) with
      | some diagnostics => exact hhere
      | none =>
          cases p.state.infoOf? (UnitPath.normalize unit) with
          | none => exact hhere
          | some info =>
              have hcheck := (A.check_at hhere (UnitPath.normalize unit)).2
              rw [Program.checkUnit]
              rcases hreply : Host.check p.host (UnitPath.normalize unit)
                with ⟨⟨outcome, cancels⟩, host⟩
              rw [hreply] at hcheck
              cases outcome with
              | ok found => exact hcheck
              | error e => exact hcheck
  | edit change hallowed => exact hallowed p.host hhere
  | token cancelled => exact hhere
  | switch options => exact hhere

theorem Steps.here (htidy : p.Tidy) (hhere : A.At p.host w) (h : Steps (A.Keeps w) p log q) :
    q.Tidy ∧ A.At q.host w :=
  h.keeps (motive := fun p => p.Tidy ∧ A.At p.host w)
    (fun hp hstep => ⟨hstep.tidy hp.1, hstep.here hp.1 hp.2⟩) ⟨htidy, hhere⟩

end World

namespace Program

variable {η β : Type} [Host η] {A : Answers η} {observe : UnitPath → List Diagnostic → β}
variable {p q : Program η} {w w' : A.World} {U : UnitPath → Prop} {path : UnitPath}

/-- A new program starts its first round from nothing. -/
theorem start_ok {host : η} {options : Options} (h : Program.start host options none = .ok p) :
    ∃ s host', Host.snapshot host [] = (.ok s, host') ∧ p = Program.update (blank host' options) s := by
  rw [Program.start] at h
  rcases hsnapshot : Host.snapshot host [] with ⟨outcome, host'⟩
  rw [hsnapshot] at h
  cases outcome with
  | error e => cases h
  | ok s =>
      cases h
      exact ⟨s, host', rfl, rfl⟩

/-- A report starts a round from what the program remembers. -/
theorem reportChanged_ok {paths : List String} (h : p.reportChanged paths = (.ok (), q)) :
    ∃ s host, Host.snapshot p.host (paths.map UnitPath.normalize) = (.ok s, host)
      ∧ q = Program.update { p with host } s := by
  rw [Program.reportChanged] at h
  rcases hsnapshot : Host.snapshot p.host (paths.map UnitPath.normalize) with ⟨outcome, host⟩
  rw [hsnapshot] at h
  cases outcome with
  | error e => cases h
  | ok s =>
      cases h
      exact ⟨s, host, rfl, rfl⟩

/-! ### The start of a round -/

/-- Units that are skipped when a round starts were tied to a world before, when they are now. -/
theorem Tracks.tied_of_update (h : p.Tracks A observe w) (hversioned : A.Versioned) {s : Snapshot}
    {host : η} {w₁ : A.World} (hview : A.view w₁ = s)
    (hU : ∀ path, U path → (update { p with host } s).Skips path)
    (htied : (update { p with host } s).Tied A w' U) : p.Tied A w' U := by
  intro path hpath
  obtain ⟨unit, unit', hunit, hunit', hversion, hdeps⟩ := htied path hpath
  have hunit : s.unit? path = some unit := hunit
  obtain ⟨unit₁, r, hunit₁, hr, hsame, _⟩ := skips_update (hU path hpath)
  cases hunit.symm.trans hunit₁
  obtain ⟨old, hold, hold'⟩ := h.version path r hr
  -- the version is the same as before, and so are the dependencies
  have hdependencies : old.dependencies = unit.dependencies := by
    obtain ⟨hmem, hp⟩ := Snapshot.unit?_eq_some_iff.mp hold
    obtain ⟨hmem', hp'⟩ := Snapshot.unit?_eq_some_iff.mp hunit
    rw [← h.view] at hmem
    rw [← hview] at hmem'
    exact hversioned w w₁ old hmem unit hmem' (hp.trans hp'.symm) (hold'.trans hsame)
  refine ⟨old, unit', hold, hunit', (hold'.trans hsame).trans hversion, fun dep hdep => ?_⟩
  rw [hdependencies] at hdep
  rcases hdeps dep hdep with hin | ⟨hgone, hgone'⟩ | ⟨hsome, hash, hknown, hverdict⟩
  · exact Or.inl hin
  · refine Or.inr (Or.inl ⟨?_, hgone'⟩)
    have hgone : s.unit? dep.path = none := hgone
    cases htarget : p.snapshot.unit? dep.path with
    | none => rfl
    | some target =>
        exfalso
        have hne : dep.path ≠ path := by
          rintro heq
          rw [heq, hunit] at hgone
          cases hgone
        exact not_imports_of_skips_update (hU path hpath) hgone
          (h.imports hold (by rw [hdependencies]; exact hdep) (by rw [htarget]; rfl) hne)
  · refine Or.inr (Or.inr ⟨hsome, hash, ?_, hverdict⟩)
    cases htarget : s.unit? dep.path with
    | none =>
        rw [known?_update_of_none htarget] at hknown
        cases hknown
    | some target =>
        rw [known?_update htarget] at hknown
        exact hknown

/-- A new snapshot starts a new round, in which nothing was found yet. -/
theorem tracks_of_settled {s : Snapshot} {host : η} (hview : A.view w = s) (hhere : A.At host w)
    (hsettled : ∀ path r, ¬ (update { p with host } s).Awaits path →
      (update { p with host } s).state.recordOf? path = some r → r.lastKnown = none) :
    (update { p with host } s).Tracks A observe w where
  tidy := tidy_update _ s
  here := hhere
  view := hview
  graph := ⟨p.options.dependencyTracking, rfl⟩
  version := by
    intro path r hr
    rw [state_update, State.recordOf?_ofSnapshot] at hr
    obtain ⟨unit, hunit, rfl⟩ := Option.map_eq_some_iff.mp hr
    exact ⟨unit, hunit, (UnitRecord.next_version _ _).symm⟩
  done := fun path hdone => absurd hdone not_done_update
  alarmed := fun path hdone => absurd hdone not_done_update
  settled := hsettled

/-- No signature from before the last change of a text is remembered for units that do not wait, if
this was so before. -/
theorem tracks_update {s : Snapshot} {host : η}
    (hsettled : ∀ path r, ¬ p.Awaits path → p.state.recordOf? path = some r → r.lastKnown = none)
    (hview : A.view w = s) (hhere : A.At host w) :
    (update { p with host } s).Tracks A observe w := by
  refine tracks_of_settled hview hhere fun path r hawaits hr => ?_
  have hskips := (done_or_skips (isSome_idOf?_of_recordOf? hr) hawaits).resolve_left
    not_done_update
  obtain ⟨unit, old, hunit, hold, hsame, hawaits'⟩ := skips_update hskips
  rw [state_update, State.recordOf?_ofSnapshot, hunit] at hr
  cases hr
  have hlast := hsettled path old hawaits' hold
  show (UnitRecord.next (p.state.recordOf? path) unit).lastKnown = none
  rw [show p.state.recordOf? path = some old from hold]
  cases hsignature : old.info.signature with
  | unknown => simp [UnitRecord.next, hsame, hsignature, Signature.isKnown, UnitRecord.knownHash?, hlast]
  | known hash => simp [UnitRecord.next, hsame, hsignature, Signature.isKnown]

namespace Sound

/-- When no unit is skipped, the invariant holds whatever the program was before. -/
theorem of_not_skips {s : Snapshot} {host : η} (hview : A.view w = s) (hhere : A.At host w)
    (hnone : ∀ path, ¬ (Program.update { p with host } s).Skips path) :
    (Program.update { p with host } s).Sound A observe (fun _ _ => False) w := by
  refine ⟨tracks_of_settled hview hhere fun path r hawaits hr => ?_,
    fun path _ _ hskips => absurd hskips (hnone path),
    fun _ _ hU _ _ path hpath => absurd (hU path hpath) (hnone path)⟩
  rcases done_or_skips (isSome_idOf?_of_recordOf? hr) hawaits with hdone | hskips
  · exact absurd hdone not_done_update
  · exact absurd hskips (hnone path)

/-- A new program rechecks everything, so the invariant holds of it. -/
theorem start {host : η} {options : Options} (h : Program.start host options none = .ok p)
    (hview : A.view w = p.snapshot) (hhere : A.At p.host w) :
    p.Sound A observe (fun _ _ => False) w := by
  obtain ⟨s, host', _, rfl⟩ := start_ok h
  refine of_not_skips (p := blank host' options) hview hhere fun path hskips => ?_
  -- no unit was there before
  obtain ⟨_, r, _, hr, _⟩ := skips_update hskips
  cases hr

/-- What a finished round leaves is right in every world that it is tied to. -/
theorem alike_of_finished (h : p.Sound A observe (fun _ _ => False) w)
    (hlocal : A.LocalUpTo observe) (hfinished : ∀ path, ¬ p.Awaits path)
    (htied : p.Tied A w' U) (hpath : U path) : A.Alike (observe path) w w' path := by
  refine hlocal w w' U (fun path hpath => ?_) path hpath
  obtain ⟨unit, unit', hunit, hunit', hversion, hdeps⟩ := htied path hpath
  rw [h.view]
  refine ⟨unit, unit', hunit, hunit', hversion, fun dep hdep => ?_⟩
  rcases hdeps dep hdep with hin | hneither | ⟨hsome, hash, hknown, hverdict⟩
  · exact Or.inl hin
  · exact Or.inr (Or.inl hneither)
  · have hunit := h.isSome_unit?_of_known? hknown
    refine Or.inr (Or.inr ⟨hunit, hsome, hash, ?_, hverdict⟩)
    have hstores := h.exact hfinished (fun _ _ _ hearly => hearly.elim) hunit
    have hsame := h.known?_eq (hfinished dep.path) hstores
    exact Signature.eq_known_of_hash? (hsame.symm.trans hknown)

/-- **A new snapshot keeps the invariant**, when the round before is finished. -/
theorem update (h : p.Sound A observe (fun _ _ => False) w) (hversioned : A.Versioned)
    (hlocal : A.LocalUpTo observe) (hfinished : ∀ path, ¬ p.Awaits path) {s : Snapshot} {host : η}
    (hview : A.view w' = s) (hhere : A.At host w') :
    (update { p with host } s).Sound A observe (fun _ _ => False) w' where
  toTracks := tracks_update h.settled hview hhere
  kept := fun _ _ hearly => hearly.elim
  skipped := by
    intro w₁ U hU htied _ path hpath
    obtain ⟨_, r, _, hr, _⟩ := skips_update (hU path hpath)
    have hunit : (p.snapshot.unit? path).isSome = true := by
      rw [h.isSome_unit?]
      exact isSome_idOf?_of_recordOf? hr
    have hstores := h.exact hfinished (fun _ _ _ hearly => hearly.elim) hunit
    have halike := h.alike_of_finished hlocal hfinished
      (h.tied_of_update hversioned hview hU htied) hpath
    exact (hstores.alike halike).update (hU path hpath)

/-! ### Steps of a round -/

variable {early : UnitPath → A.World → Prop}

/-- A step keeps the invariant when changes around the host leave it at the same world. -/
theorem step {log : List Recheck} (h : p.Sound A observe early w)
    (hstep : Step (A.Keeps w) p log q) :
    q.Sound A observe early w := by
  rcases Step.cases h.tidy hstep with ⟨unit, _, hrechecks⟩ | ⟨_, hrests⟩
  · exact h.recheck hrechecks
  · exact h.rests hrests (hstep.here h.tidy h.here)

theorem steps {log : List Recheck} (h : p.Sound A observe early w)
    (hsteps : Steps (A.Keeps w) p log q) :
    q.Sound A observe early w :=
  hsteps.keeps step h

end Sound

end Program

/-! ### Runs -/

/-- What a caller can do with a program over a host that answers about the world of its latest
snapshot: start it from nothing, make calls, and report changes once the round is finished.  The host
may be in any state when a change is reported; afterwards it answers about a world that the new
snapshot was taken of. -/
inductive Run {η : Type} [Host η] (A : Answers η) : Program η → A.World → Prop
  | start {host : η} {options : Options} {p : Program η} {w : A.World}
      (hstart : Program.start host options none = .ok p) (hview : A.view w = p.snapshot)
      (hhere : A.At p.host w) : Run A p w
  | call {p : Program η} {w : A.World} (c : Call η) (run : Run A p w) (hc : c.Within (A.Keeps w)) :
      Run A (c.run p) w
  | report {p q : Program η} {w w' : A.World} {host : η} {paths : List String}
      (run : Run A p w) (hfinished : p.Finished)
      (hreport : ({ p with host } : Program η).reportChanged paths = (.ok (), q))
      (hview : A.view w' = q.snapshot) (hhere : A.At q.host w') : Run A q w'

/-- When no check is left to pull, nothing waits. -/
theorem Program.Tidy.not_awaits_of_finished {η : Type} [Host η] {p : Program η} (htidy : p.Tidy)
    (h : p.Finished) (path : UnitPath) : ¬ p.Awaits path := by
  rintro ⟨id, _, hwaits, hfresh⟩
  exact hfresh (htidy.processed_of_finished h (Or.inr hwaits))

namespace Run

variable {η β : Type} [Host η] {A : Answers η} {observe : UnitPath → List Diagnostic → β}
variable {p q : Program η} {w : A.World}

/-- In every run, the host is at the world of its latest snapshot. -/
theorem here (h : Run A p w) : p.Tidy ∧ A.At p.host w := by
  induction h with
  | start hstart _ hhere =>
      obtain ⟨s, _, _, rfl⟩ := Program.start_ok hstart
      exact ⟨Program.tidy_update _ s, hhere⟩
  | @call p _ c _ hc ih => exact (Steps.call hc p).here ih.1 ih.2
  | report _ _ hreport _ hhere _ =>
      obtain ⟨s, _, _, rfl⟩ := Program.reportChanged_ok hreport
      exact ⟨Program.tidy_update _ s, hhere⟩

/-- The invariant holds in every run. -/
theorem sound (hversioned : A.Versioned) (hlocal : A.LocalUpTo observe) (h : Run A p w) :
    p.Sound A observe (fun _ _ => False) w := by
  induction h with
  | start hstart hview hhere => exact Program.Sound.start hstart hview hhere
  | @call p _ c _ hc ih => exact ih.steps (Steps.call hc p)
  | report _ hfinished hreport hview hhere ih =>
      obtain ⟨s, host', _, rfl⟩ := Program.reportChanged_ok hreport
      exact ih.update hversioned hlocal (ih.tidy.not_awaits_of_finished hfinished) hview hhere

/-- A run goes on with calls that leave the host at its world. -/
theorem play {calls : List (Call η)} (h : Run A p w)
    (hcalls : ∀ c ∈ calls, c.Within (A.Keeps w)) : Run A (Call.play calls p).2 w :=
  Call.play_keeps (motive := fun p => Run A p w) (fun hp hc => .call _ hp hc) hcalls h

/-- At the end of a round of a run, every unit is right. -/
theorem exact (hversioned : A.Versioned) (hlocal : A.LocalUpTo observe) (h : Run A p w)
    (hfinished : p.Finished) {path : UnitPath} (hunit : ((A.view w).unit? path).isSome = true) :
    p.Stores (observe path) path (A.verdict w path) := by
  have hsound : p.Sound A observe (fun _ _ => False) w := h.sound hversioned hlocal
  rw [hsound.view] at hunit
  exact hsound.exact (hsound.tidy.not_awaits_of_finished hfinished)
    (fun _ _ _ hearly => hearly.elim) hunit

end Run

namespace Pair

theorem run_fresh (pair : Pair) : Run answers pair.fresh pair :=
  .start (start_fresh pair) rfl rfl

theorem run_report (pair : Pair) {p : Program Pair} {w : Pair} (h : Run answers p w)
    (hfinished : p.Finished) : Run answers (pair.report p) pair :=
  .report h hfinished (reportChanged_report pair p) rfl rfl

end Pair

/-- Two programs agree when all that they store about the units of a common snapshot is right. -/
theorem Program.agrees_of_stores {η : Type} [Host η] {A : Answers η} {p q : Program η} {w : A.World}
    (hp : A.view w = p.snapshot) (hq : A.view w = q.snapshot)
    (hpstores : ∀ path, ((A.view w).unit? path).isSome = true → p.Stores id path (A.verdict w path))
    (hqstores : ∀ path, ((A.view w).unit? path).isSome = true → q.Stores id path (A.verdict w path)) :
    p.Agrees q := by
  refine ⟨hp.symm.trans hq, fun unit hunit => ?_⟩
  have hunit : ((A.view w).unit? unit.path).isSome = true := by
    rw [hp, Snapshot.unit?_eq_some_iff.mpr ⟨hunit, rfl⟩]
    rfl
  exact ⟨_, _, (hpstores _ hunit).holds, (hqstores _ hunit).holds⟩

/-- **Round soundness.**  Take a host that answers about the world of its latest snapshot, whose
versions determine the dependencies, and that is local.  However many snapshots a program went
through, and whatever happened in between, if each round was finished before the next change was
reported, then at the end of a round it agrees with a new program that finished its first round in
the same world. -/
theorem incremental_eq_fresh {η : Type} [Host η] (A : Answers η) (hversioned : A.Versioned)
    (hlocal : A.Local) {p fresh : Program η} {w : A.World}
    (hrun : Run A p w) (hfinished : p.Finished)
    {host : η} {options : Options} {calls : List (Call η)}
    (hstart : Program.start host options none = .ok fresh) (hview : A.view w = fresh.snapshot)
    (hhere : A.At fresh.host w)
    (hcalls : ∀ c ∈ calls, c.Within (A.Keeps w))
    (hfresh : (Call.play calls fresh).2.Finished) :
    p.Agrees (Call.play calls fresh).2 := by
  have hrun' : Run A (Call.play calls fresh).2 w := (Run.start hstart hview hhere).play hcalls
  have hsound : p.Sound A (fun _ => id) (fun _ _ => False) w := hrun.sound hversioned hlocal
  have hsound' : (Call.play calls fresh).2.Sound A (fun _ => id) (fun _ _ => False) w :=
    hrun'.sound hversioned hlocal
  exact Program.agrees_of_stores hsound.view hsound'.view
    (fun _ hunit => hrun.exact hversioned hlocal hfinished hunit)
    (fun _ hunit => hrun'.exact hversioned hlocal hfresh hunit)

/-- After a change of the left text only that unit is rechecked, and the program agrees with a new
one. -/
theorem incremental_eq_fresh_pair :
    let first := (Call.play [.check, .check] (Pair.fresh ⟨"one", "int"⟩)).2
    let second := (Call.play [.check] (Pair.report ⟨"two", "int"⟩ first)).2
    second.processed = [0]
      ∧ second.Agrees (Call.play [.check, .check] (Pair.fresh ⟨"two", "int"⟩)).2 := by
  intro first second
  have hfirst : Run Pair.answers first ⟨"one", "int"⟩ :=
    (Pair.run_fresh _).play (by simp [Call.Within])
  have hsecond : Run Pair.answers second ⟨"two", "int"⟩ :=
    (Pair.run_report _ hfirst (by decide +kernel)).play (by simp [Call.Within])
  exact ⟨by decide +kernel, incremental_eq_fresh Pair.answers Pair.versioned Pair.isLocal hsecond
    (by decide +kernel) (Pair.start_fresh _) rfl rfl (by simp [Call.Within]) (by decide +kernel)⟩

end Rebuild
