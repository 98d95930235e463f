import Rebuild.Proofs.Restore

/-!
# Interruptions

A round is interrupted when a report comes before it is finished, or when the program is stored and
started again.  Over an unchanged snapshot the later round rechecks what the first one still had to
recheck, with two exceptions: the set of leaking units is not carried over, and a flag is honoured only
when its unit is handed out as a root.

* `Resumed`: the two ways to go on after an interruption;
* `Resumed.exists_prior`: the later round starts from what the program remembers, or rechecks
  everything;
* `rest_rechecked_again_or_lost`: what the later round rechecks.
-/

namespace Rebuild

/-- The program `q` goes on after `here` was interrupted: by a report under the same tracking of
dependencies, or by a start with the document of `here`. -/
inductive Resumed {η : Type} [Host η] (here : Program η) : Program η → Prop
  | report {q : Program η} {paths : List String}
      (htracking : here.options.dependencyTracking = here.state.graph.tracking)
      (hreport : here.reportChanged paths = (.ok (), q)) : Resumed here q
  | restart {q : Program η} {host : η} {options : Options}
      (hstart : Program.start host options (some here.buildInfoText) = .ok q) : Resumed here q

/-- The later round starts from what the program remembers, or rechecks everything. -/
theorem Resumed.exists_prior {η : Type} [Host η] {here q : Program η} (htidy : here.Tidy)
    (h : Resumed here q) :
    ∃ (prior : Program η) (s : Snapshot), q = prior.update s
      ∧ (here.Recalls prior ∨ ∀ id < s.units.length, id ∈ (prior.update s).frontier) := by
  cases h with
  | report htracking hreport =>
      obtain ⟨s, host, _, rfl⟩ := Program.reportChanged_ok hreport
      refine ⟨{ here with host }, s, rfl, Or.inl ⟨htracking, fun _ => rfl, fun _ _ h => h, ?_, ?_⟩⟩
      · exact fun _ h => h
      · exact fun _ h => h
  | restart hstart => exact Program.start_buildInfoText htidy hstart

/-- **What an interruption loses.**  Take any program to the snapshot of a world that its host answers
about, and interrupt the round after any calls.  Go on over the same world and snapshot until no check
is left to pull.  Then everything that the interrupted round would have rechecked is rechecked, unless

* a unit that counts as moved only because it republishes a moved unit does not count any more, or
* a unit that waits with a flag is overtaken, and would not have been. -/
theorem rest_rechecked_again_or_lost {η : Type} [Host η] (A : Answers η) {w : A.World}
    {p here final q last : Program η} (calls later more : List (Call η))
    {made rest again : List Recheck} (hat : A.At p.host w)
    (hround : Call.play calls (p.update (A.view w)) = (made, here))
    (hcalls : ∀ c ∈ calls, c.Within (A.Keeps w))
    (hrest : Call.play later here = (rest, final)) (hlater : ∀ c ∈ later, c.Within (A.Keeps w))
    (hresumed : Resumed here q) (hsame : q.snapshot = here.snapshot) (hq : A.At q.host w)
    (hagain : Call.play more q = (again, last)) (hmore : ∀ c ∈ more, c.Within (A.Keeps w))
    (hfinished : last.Finished) :
    (∀ e ∈ rest, Rechecked again e.path)
      ∨ LosesLeak ((A.view w).graph p.options.dependencyTracking) made rest again
      ∨ here.LosesFlag ((A.view w).graph p.options.dependencyTracking) (made ++ rest) again := by
  have hsteps := Steps.play hcalls (p.update (A.view w))
  have hsteps' := Steps.play hlater here
  have hsteps'' := Steps.play hmore q
  rw [hround] at hsteps
  rw [hrest] at hsteps'
  rw [hagain] at hsteps''
  have hmid := (Program.Midway.start p (A.view w)).steps hsteps
  rw [List.nil_append] at hmid
  obtain ⟨htidy, hhere⟩ := hsteps.here (Program.tidy_update p _) hat
  obtain ⟨prior, s, rfl, hprior⟩ := hresumed.exists_prior htidy
  obtain rfl : s = A.view w := hsame.trans hmid.snapshot
  rcases hprior with hrecalls | hall
  · by_cases hleaks : LosesLeak ((A.view w).graph p.options.dependencyTracking) made rest again
    · exact Or.inr (Or.inl hleaks)
    · by_cases hflags : here.LosesFlag ((A.view w).graph p.options.dependencyTracking)
          (made ++ rest) again
      · exact Or.inr (Or.inr hflags)
      · refine Or.inl fun e he => ?_
        exact hrecalls.rechecked hmid hhere hsteps' hq hsteps'' hfinished hleaks hflags he
  · refine Or.inl fun e he => ?_
    have hnumber := (hmid.steps hsteps').round.idOf?_path (List.mem_append_right _ he)
    have hsize := Graph.lt_size_of_idOf? hnumber
    rw [Snapshot.graph_size] at hsize
    have hend := (Program.Propagates.start prior (A.view w)).steps hsteps''
    refine hend.rechecked hfinished ?_ (hend.roots e.unit (Or.inr (hall e.unit hsize)))
    rw [Snapshot.idOf?_graph_eq_some_iff] at hnumber ⊢
    exact hnumber

/-- The round in which `g` has left the global scope is interrupted after the recheck of `g`.  When it
is taken up again, `r` and `x` are rechecked, and `g` once more. -/
theorem rest_rechecked_again_or_lost_fan :
    let w := Stub.fan "one" "two" false
    let round := Call.play [.check] ((Stub.fanned "one" "two").update w.snapshot)
    let rest := Call.play [.check, .check] round.2
    let again := Call.play [.check, .check, .check] (round.2.host.report round.2)
    rest.1.map (·.path) = ["r", "x"] ∧ again.1.map (·.path) = ["r", "g", "x"]
      ∧ ∀ e ∈ rest.1, Rechecked again.1 e.path := by
  intro w round rest again
  have hrounds : (rest.1.map (·.path) = ["r", "x"] ∧ again.1.map (·.path) = ["r", "g", "x"])
      ∧ (round.2.options.dependencyTracking = round.2.state.graph.tracking
        ∧ (round.2.host.report round.2).snapshot = round.2.snapshot
        ∧ (round.2.host.report round.2).host = w)
      ∧ again.2.Finished
      ∧ ¬ LosesLeak (w.snapshot.graph true) round.1 rest.1 again.1
      ∧ ¬ round.2.LosesFlag (w.snapshot.graph true) (round.1 ++ rest.1) again.1 := by decide +kernel
  obtain ⟨⟨hrest, hagain⟩, ⟨htracking, hsame, hhost⟩, hfinished, hleaks, hflags⟩ := hrounds
  have hresumed : Resumed round.2 (round.2.host.report round.2) :=
    .report htracking (Stub.reportChanged_eq _ [])
  have hat : Stub.answers.At (Stub.fanned "one" "two").host w := rfl
  have hround : Call.play [.check] ((Stub.fanned "one" "two").update (Stub.answers.view w))
      = (round.1, round.2) := (Prod.eta _).symm
  have hplayed : Call.play [.check, .check] round.2 = (rest.1, rest.2) := (Prod.eta _).symm
  have hplayed' : Call.play [.check, .check, .check] (round.2.host.report round.2)
      = (again.1, again.2) := (Prod.eta _).symm
  have hlost := rest_rechecked_again_or_lost Stub.answers _ _ _ hat hround (by simp [Call.Within])
    hplayed (by simp [Call.Within]) hresumed hsame hhost hplayed' (by simp [Call.Within]) hfinished
  exact ⟨hrest, hagain, hlost.resolve_right fun hlost => hlost.elim hleaks hflags⟩

/-- **An interruption can lose a recheck.**  Only `u` has a new text, and the round is interrupted after
its recheck.  It would have gone on with `e`, which counts as moved since it republishes `u`, and `d`.
After a report of no change, `e` is rechecked without counting, and `d` is not rechecked. -/
theorem interruption_loses_recheck :
    let w := Stub.chain "one" "two"
    let round := Call.play [.check] ((Stub.chainedAt "one" "two").update w.snapshot)
    let rest := Call.play [.check, .check] round.2
    let resumed := round.2.host.report round.2
    let again := Call.play [.check] resumed
    (Stub.chainedAt "one" "two").Reachable
      ∧ (Resumed round.2 resumed ∧ resumed.snapshot = round.2.snapshot ∧ resumed.host = w)
      ∧ rest.2.Finished ∧ again.2.Finished
      ∧ ∃ e ∈ rest.1, ¬ Rechecked again.1 e.path := by
  intro w round rest resumed again
  have hrounds : round.2.options.dependencyTracking = round.2.state.graph.tracking
      ∧ (resumed.snapshot = round.2.snapshot ∧ resumed.host = w)
      ∧ (rest.2.Finished ∧ again.2.Finished)
      ∧ ∃ e ∈ rest.1, ¬ Rechecked again.1 e.path := by decide +kernel
  obtain ⟨htracking, ⟨hsame, hhost⟩, ⟨hfinished, hfinished'⟩, hlost⟩ := hrounds
  have hresumed : Resumed round.2 resumed := .report htracking (Stub.reportChanged_eq _ [])
  exact ⟨Stub.reachable_chainedAt _ _, ⟨hresumed, hsame, hhost⟩, hfinished, hfinished', hlost⟩

end Rebuild
