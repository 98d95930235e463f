import Rebuild.Proofs.Soundness

/-!
# Superseded rounds

A change may be reported while the round before is still being consumed.  Units that waited are
carried over, but a unit that was already rechecked in the superseded round has seen texts of its
dependencies that the program itself never signed.  When such a dependency goes back to the
signature it had before, its next check finds nothing to propagate.

* `Program.earlier`: the units that were last rechecked in a superseded round, and in which world;
* `Program.Sound.supersede`: a snapshot in the middle of a round keeps the invariant, up to the units
  that were rechecked in the round;
* `Overlap`: what a caller can do with a program when changes may be reported at any time;
* `superseded_agrees_iff`: in the end, superseding changed nothing if and only if the units that were
  last rechecked in a superseded round would be found the same in the last world;
* `superseded_disagrees`: there are runs in which they would not.
-/

namespace Rebuild

namespace Program

variable {η β : Type} [Host η] {A : Answers η} {observe : UnitPath → List Diagnostic → β}
variable {p : Program η} {w w' : A.World} {U : UnitPath → Prop} {early : UnitPath → A.World → Prop}

/-- The units that were last rechecked in a superseded round, and the worlds that this was in, after
the round in the world `w` is superseded as well. -/
def earlier {World : Type} (p : Program η) (w : World) (early : UnitPath → World → Prop) :
    UnitPath → World → Prop :=
  fun path v => (p.Done path ∧ v = w) ∨ (¬ p.Done path ∧ early path v)

/-- Among units that do not wait, the skipped ones are tied to a world on their own, when the
processed ones have the same signatures in it. -/
theorem Tracks.tied_and_skips (h : p.Tracks A observe w)
    (hU : ∀ path, U path → p.Done path ∨ p.Skips path) (htied : p.Tied A w' U)
    (hdone : ∀ path, U path → p.Done path → (A.verdict w path).1 = (A.verdict w' path).1) :
    p.Tied A w' fun path => U path ∧ p.Skips path := by
  rintro path ⟨hpath, hskips⟩
  obtain ⟨unit, unit', hunit, hunit', hversion, hdeps⟩ := htied path hpath
  refine ⟨unit, unit', hunit, hunit', hversion, fun dep hdep => ?_⟩
  rcases hdeps dep hdep with hin | hother
  · rcases hU dep.path hin with hdep' | hskips'
    · refine Or.inr (Or.inr ?_)
      obtain ⟨_, target', _, htarget', _⟩ := htied dep.path hin
      refine ⟨by rw [htarget']; rfl, ?_⟩
      obtain ⟨hash, hknown, hverdict⟩ := h.exists_known hskips hunit hdep hdep'
      exact ⟨hash, hknown, (hdone dep.path hin hdep').symm.trans hverdict⟩
    · exact Or.inl ⟨hin, hskips'⟩
  · exact Or.inr hother

/-- **A new snapshot keeps the invariant**, whatever is left of the round before.  The units that
were rechecked in that round are right only where they are like they were then. -/
theorem Sound.supersede (h : p.Sound A observe early w) (hversioned : A.Versioned) {s : Snapshot}
    {host : η} (hview : A.view w' = s) (hhere : A.At host w') :
    (Program.update { p with host } s).Sound A observe (p.earlier w early) w' := by
  -- what is skipped now did not wait before
  have hkinds : ∀ path, (Program.update { p with host } s).Skips path →
      p.Done path ∨ p.Skips path := by
    intro path hskips
    obtain ⟨_, r, _, hr, _, hawaits⟩ := skips_update hskips
    exact done_or_skips (isSome_idOf?_of_recordOf? hr) hawaits
  refine ⟨tracks_update h.settled hview hhere, ?_, ?_⟩
  · rintro path v (⟨hdone, rfl⟩ | ⟨hfresh, hearly⟩) hskips
    · exact (h.done path hdone).update hskips
    · exact (h.kept path v hearly ((hkinds path hskips).resolve_left hfresh)).update hskips
  · intro w₁ U hU htied hearly path hpath
    have hdone : ∀ path, U path → p.Done path → A.Alike (observe path) w w₁ path := fun path hpath hdone =>
      hearly path w hpath (Or.inl ⟨hdone, rfl⟩)
    refine Stores.update ?_ (hU path hpath)
    rcases hkinds path (hU path hpath) with hpath' | hskips
    · exact (h.done path hpath').alike (hdone path hpath hpath')
    · refine h.skipped w₁ (fun path => U path ∧ p.Skips path) (fun _ hp => hp.2) ?_ ?_ path
        ⟨hpath, hskips⟩
      · exact h.tied_and_skips (fun path hpath => hkinds path (hU path hpath))
          (h.tied_of_update hversioned hview hU htied)
          fun path hpath hp => (hdone path hpath hp).1
      · rintro path v ⟨hpath, hskips⟩ hv
        exact hearly path v hpath (Or.inr ⟨fun hp => hp.not_skips hskips, hv⟩)

end Program

/-- What a caller can do with a program when changes may be reported at any time: after rounds that
were finished, rounds may be superseded.  `early path v` says that the unit was last rechecked in
the world `v`, in a round that was superseded. -/
inductive Overlap {η : Type} [Host η] (A : Answers η) :
    Program η → A.World → (UnitPath → A.World → Prop) → Prop
  | run {p : Program η} {w : A.World} (run : Run A p w) : Overlap A p w fun _ _ => False
  | call {p : Program η} {w : A.World} {early : UnitPath → A.World → Prop} (c : Call η)
      (overlap : Overlap A p w early) (hc : c.Within (A.Keeps w)) : Overlap A (c.run p) w early
  | report {p q : Program η} {w w' : A.World} {early : UnitPath → A.World → Prop} {host : η}
      {paths : List String} (overlap : Overlap A p w early)
      (hreport : ({ p with host } : Program η).reportChanged paths = (.ok (), q))
      (hview : A.view w' = q.snapshot) (hhere : A.At q.host w') :
      Overlap A q w' (p.earlier w early)

namespace Overlap

variable {η β : Type} [Host η] {A : Answers η} {observe : UnitPath → List Diagnostic → β}
variable {p : Program η} {w : A.World} {early : UnitPath → A.World → Prop}

/-- The invariant holds however changes are reported. -/
theorem sound (hversioned : A.Versioned) (hlocal : A.LocalUpTo observe) (h : Overlap A p w early) :
    p.Sound A observe early w := by
  induction h with
  | run run => exact run.sound hversioned hlocal
  | @call p _ _ c _ hc ih => exact ih.steps (Steps.call hc p)
  | report _ hreport hview hhere ih =>
      obtain ⟨s, host', _, rfl⟩ := Program.reportChanged_ok hreport
      exact ih.supersede hversioned hview hhere

theorem play {calls : List (Call η)} (h : Overlap A p w early)
    (hcalls : ∀ c ∈ calls, c.Within (A.Keeps w)) : Overlap A (Call.play calls p).2 w early :=
  Call.play_keeps (motive := fun p => Overlap A p w early) (fun hp hc => .call _ hp hc) hcalls h

end Overlap

theorem Pair.overlap_report (pair : Pair) {p : Program Pair} {w : Pair}
    {early : UnitPath → Pair → Prop} (h : Overlap answers p w early) :
    Overlap answers (pair.report p) pair (p.earlier w early) :=
  .report h (reportChanged_report pair p) rfl rfl

/-- **When superseding changes nothing.**  Take a host that answers about the world of its latest
snapshot, whose versions determine the dependencies, and that is local.  However rounds were
superseded, at the end of the last one a program agrees with those that finished each of their rounds
and came to the same world, if and only if every unit that was last rechecked in a superseded round
has the verdict of then.  All other units are right in any case. -/
theorem superseded_agrees_iff {η : Type} [Host η] (A : Answers η) (hversioned : A.Versioned)
    (hlocal : A.Local) {p q : Program η} {w : A.World} {early : UnitPath → A.World → Prop}
    (hp : Overlap A p w early) (hpfinished : p.Finished) (hq : Run A q w) (hqfinished : q.Finished) :
    p.Agrees q ↔
      ∀ path v, p.Skips path → early path v → A.verdict v path = A.verdict w path := by
  have hpsound : p.Sound A (fun _ => id) early w := hp.sound hversioned hlocal
  have hqsound : q.Sound A (fun _ => id) (fun _ _ => False) w := hq.sound hversioned hlocal
  have hqstores : ∀ path, ((A.view w).unit? path).isSome = true →
      q.Stores id path (A.verdict w path) := fun _ hunit =>
    hq.exact hversioned hlocal hqfinished hunit
  constructor
  · rintro ⟨_, hagrees⟩ path v hskips hearly
    obtain ⟨unit, hunit⟩ := Option.isSome_iff_exists.mp (hpsound.isSome_unit?_of_skips hskips)
    obtain ⟨hmem, rfl⟩ := Snapshot.unit?_eq_some_iff.mp hunit
    obtain ⟨signature, diagnostics, hpholds, hqholds⟩ := hagrees unit hmem
    have hthen := (hpsound.kept unit.path v hearly hskips).holds.unique hpholds
    have hnow := (hqstores unit.path (by rw [hpsound.view, hunit]; rfl)).holds.unique hqholds
    exact hthen.trans hnow.symm
  · intro hearly
    refine Program.agrees_of_stores hpsound.view hqsound.view (fun path hunit => ?_) hqstores
    rw [hpsound.view] at hunit
    refine hpsound.exact (hpsound.tidy.not_awaits_of_finished hpfinished) ?_ hunit
    intro path v hskips hv
    rw [Answers.Alike, hearly path v hskips hv]
    exact ⟨rfl, rfl⟩

/-- The right unit is rechecked, which makes the left unit wait, and then the left text is changed too.
The right unit is not rechecked again, and has the verdict of before. -/
theorem superseded_agrees_iff_pair :
    let first := (Call.play [.check, .check] (Pair.fresh ⟨"int", "int"⟩)).2
    let second := (Call.play [.check] (Pair.report ⟨"int", "str"⟩ first)).2
    let third := (Call.play [.check] (Pair.report ⟨"str", "str"⟩ second)).2
    second.pendingChecks.map (·.unit) = ["left"] ∧ third.processed = [0]
      ∧ third.Agrees (Call.play [.check, .check] (Pair.fresh ⟨"str", "str"⟩)).2 := by
  intro first second third
  have hpulled : first.Finished ∧ second.pendingChecks.map (·.unit) = ["left"]
      ∧ (second.processed = [1] ∧ second.state.graph.pathOf 1 = "right")
      ∧ third.processed = [0] ∧ third.Finished := by decide +kernel
  obtain ⟨hfinished, hpending, ⟨hprocessed, hright⟩, hprocessed', hfinished'⟩ := hpulled
  have hfirst : Run Pair.answers first ⟨"int", "int"⟩ :=
    (Pair.run_fresh _).play (by simp [Call.Within])
  have hsecond : Run Pair.answers second ⟨"int", "str"⟩ :=
    (Pair.run_report _ hfirst hfinished).play (by simp [Call.Within])
  have hthird : Overlap Pair.answers third ⟨"str", "str"⟩ _ :=
    (Pair.overlap_report _ (.run hsecond)).play (by simp [Call.Within])
  have hfresh : Run Pair.answers (Call.play [.check, .check] (Pair.fresh ⟨"str", "str"⟩)).2
      ⟨"str", "str"⟩ :=
    (Pair.run_fresh _).play (by simp [Call.Within])
  refine ⟨hpending, hprocessed', ?_⟩
  refine (superseded_agrees_iff Pair.answers Pair.versioned Pair.isLocal hthird hfinished' hfresh
    (by decide +kernel)).mpr ?_
  rintro path v _ (⟨⟨id, hid, hdone⟩, rfl⟩ | ⟨_, hnever⟩)
  · rw [hprocessed] at hdone
    cases List.mem_singleton.mp hdone
    obtain rfl : path = "right" := (Graph.pathOf_of_idOf? hid).symm.trans hright
    rw [Pair.verdict_eq, Pair.verdict_eq]
    rfl
  · exact hnever.elim

/-- **Superseding can change something.**  Both texts are changed, the left unit is rechecked, and the
right text is changed back before the right unit was rechecked.  In the end the left unit still has
the signature that it had in between. -/
theorem superseded_disagrees :
    ∃ (p q : Program Pair) (w : Pair) (early : UnitPath → Pair → Prop),
      Overlap Pair.answers p w early ∧ p.Finished ∧ Run Pair.answers q w ∧ q.Finished
        ∧ ¬ p.Agrees q := by
  let first := (Call.play [.check, .check] (Pair.fresh ⟨"int", "int"⟩)).2
  let second := (Call.play [.check] (Pair.report ⟨"str", "str"⟩ first)).2
  let third := (Call.play [.check] (Pair.report ⟨"str", "int"⟩ second)).2
  let fresh := (Call.play [.check, .check] (Pair.fresh ⟨"str", "int"⟩)).2
  have hstale : (first.Finished ∧ third.Finished ∧ fresh.Finished)
      ∧ { path := "left", version := "str", dependencies := [⟨"right", true⟩] }
        ∈ third.snapshot.units
      ∧ (third.state.infoOf? "left").map (·.signature)
        ≠ (fresh.state.infoOf? "left").map (·.signature) := by decide +kernel
  obtain ⟨⟨hfinished, hfinished', hfinished''⟩, hleft, hdiffers⟩ := hstale
  have hfirst : Run Pair.answers first ⟨"int", "int"⟩ :=
    (Pair.run_fresh _).play (by simp [Call.Within])
  have hsecond : Run Pair.answers second ⟨"str", "str"⟩ :=
    (Pair.run_report _ hfirst hfinished).play (by simp [Call.Within])
  have hthird : Overlap Pair.answers third ⟨"str", "int"⟩ _ :=
    (Pair.overlap_report _ (.run hsecond)).play (by simp [Call.Within])
  have hfresh : Run Pair.answers fresh ⟨"str", "int"⟩ :=
    (Pair.run_fresh _).play (by simp [Call.Within])
  refine ⟨third, fresh, ⟨"str", "int"⟩, _, hthird, hfinished', hfresh, hfinished'', ?_⟩
  rintro ⟨_, hagrees⟩
  obtain ⟨signature, _, ⟨hthird, _⟩, ⟨hfresh, _⟩⟩ := hagrees _ hleft
  exact hdiffers (hthird.trans hfresh.symm)

end Rebuild
