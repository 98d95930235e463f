import Mathlib.Data.List.TakeWhile
import Rebuild.Proofs.Leak

/-!
# Flags at work

The flag of a unit makes its own pass reach every unit.  It does so only when the unit is the root of
that pass: a flagged unit that the pass of another root reaches first, as a dependent of a moved unit,
is rechecked there like any other unit, and its flag is lost.

* `Overtaken`: this happened to a unit;
* `Program.WaitsFlagged`: a unit waits as a flagged root;
* `Program.Honours`: in the middle of a round, every unit is reached, or the unit was overtaken, or
  it waits;
* `Program.Honours.visit`, `Program.Honours.steps`: a recheck, and a round, keep it;
* `everything_rechecked_or_overtaken`: what a finished round with a flag has rechecked.
-/

namespace Rebuild

/-- A unit was rechecked as a dependent of a unit that had moved, and this recheck concerned no other
units: it is not of a global unit that counts as moved. -/
def Overtaken (g : Graph) (log : List Recheck) (path : UnitPath) : Prop :=
  ∃ e ∈ log, e.path = path
    ∧ (∃ d ∈ movers g (log.takeWhile (·.path ≠ path)), e.unit ∈ g.dependentsOf d.unit)
    ∧ ¬ (e.isGlobal = true ∧ e.counts g (movers g (log.takeWhile (·.path ≠ path))) = true)

instance (g : Graph) (log : List Recheck) (path : UnitPath) : Decidable (Overtaken g log path) :=
  inferInstanceAs (Decidable (∃ e ∈ log, _))

/-- What precedes the first recheck of a unit. -/
theorem takeWhile_path_ne {made rest : List Recheck} {e : Recheck}
    (h : ∀ d ∈ made, d.path ≠ e.path) :
    (made ++ e :: rest).takeWhile (·.path ≠ e.path) = made := by
  have hne : ∀ d ∈ made, decide (d.path ≠ e.path) = true := fun d hd => decide_eq_true (h d hd)
  rw [List.takeWhile_append_of_pos hne, List.takeWhile_cons_of_neg (by simp), List.append_nil]

/-- Later rechecks change nothing about it. -/
theorem Overtaken.append {g : Graph} {log : List Recheck} {path : UnitPath}
    (h : Overtaken g log path) (more : List Recheck) : Overtaken g (log ++ more) path := by
  obtain ⟨e, he, hpath, hrest⟩ := h
  have hsame : (log ++ more).takeWhile (·.path ≠ path) = log.takeWhile (·.path ≠ path) := by
    rw [List.takeWhile_append, if_neg]
    intro hlength
    have hall := (List.takeWhile_sublist _).eq_of_length hlength
    have hne := List.mem_takeWhile_imp (hall.symm ▸ he)
    simp [hpath] at hne
  refine ⟨e, List.mem_append_left _ he, hpath, ?_⟩
  rw [hsame]
  exact hrest

namespace Program

variable {η : Type} {p q r : Program η} {s : Snapshot} {log more : List Recheck}
variable {path : UnitPath} {flagged unit : UnitId} {pass : Pass}

/-- A unit waits as a root, with the flag. -/
structure WaitsFlagged (q : Program η) (flagged : UnitId) : Prop where
  fresh : flagged ∉ q.processed
  listed : ∃ root ∈ q.roots, root.unit = flagged
  marked : ∀ root ∈ q.roots, root.unit = flagged → root.isGlobal = true

theorem WaitsFlagged.mem_frontier (h : q.WaitsFlagged flagged) : flagged ∈ q.frontier := by
  obtain ⟨root, hroot, rfl⟩ := h.listed
  exact List.mem_append_right _ (List.mem_map_of_mem hroot)

/-- The middle of a round that took `p` to the snapshot `s`, where `path` was or is flagged. -/
structure Honours (p : Program η) (s : Snapshot) (path : UnitPath) (flagged : UnitId)
    (log : List Recheck) (q : Program η) : Prop where
  round : p.Propagates s log q
  spreads : q.Spreads (s.graph p.options.dependencyTracking) log
  number : (s.graph p.options.dependencyTracking).idOf? path = some flagged
  honoured : q.AllReached ∨ Overtaken (s.graph p.options.dependencyTracking) log path
    ∨ q.WaitsFlagged flagged

namespace Honours

/-- As long as the unit is not processed, the log holds no recheck of it. -/
theorem path_ne (h : p.Honours s path flagged log q) (hfresh : flagged ∉ q.processed)
    {e : Recheck} (he : e ∈ log) : e.path ≠ path := by
  intro hpath
  have hunit := h.round.idOf?_path he
  rw [hpath, h.number] at hunit
  cases hunit
  refine hfresh ?_
  rw [h.round.processed]
  exact List.mem_map_of_mem he

theorem idles (h : p.Honours s path flagged log q) (hidles : q.Idles r) (hstate : r.state = q.state)
    (hprocessed : r.processed = q.processed) :
    r.AllReached ∨ Overtaken (s.graph p.options.dependencyTracking) log path
      ∨ r.WaitsFlagged flagged := by
  rcases h.honoured with hall | hovertaken | hwaits
  · refine Or.inl fun id hid => ?_
    rw [hstate] at hid
    exact hidles.reached hprocessed (hall id hid)
  · exact Or.inr (Or.inl hovertaken)
  · rcases hidles with ⟨_, hroots⟩ | ⟨_, _, hdone⟩
    · refine Or.inr (Or.inr ⟨?_, ?_, ?_⟩)
      · rw [hprocessed]
        exact hwaits.fresh
      · rw [hroots]
        exact hwaits.listed
      · rw [hroots]
        exact hwaits.marked
    · exact absurd (hdone flagged hwaits.mem_frontier) hwaits.fresh

variable [Host η] {allowed : (η → η) → Prop}

/-- The recheck of the flagged unit itself: its own pass reaches every unit, and the pass of another
root overtakes it, unless the recheck concerns every unit anyway. -/
theorem visit_self (h : p.Honours s path flagged log q) (hwaits : q.WaitsFlagged flagged)
    (hvisits : q.Visits flagged pass r) :
    r.AllReached
      ∨ Overtaken (s.graph p.options.dependencyTracking) (log ++ [q.recheckOf flagged]) path := by
  have hconcerns := hvisits.allReached_of_concernsAll
  rcases hvisits.handed.origin h.spreads.tidy
    with ⟨current, hcurrent, hqueued, _⟩ | ⟨_, root, hroot, hunit, hstart, hflag, _⟩
  · rcases h.spreads.queued current hcurrent flagged hqueued with hall | ⟨d, hd, hdepends⟩
    · exact Or.inl (hvisits.allReached h.spreads.tidy hall)
    · by_cases hglobal : (q.recheckOf flagged).isGlobal = true
          ∧ (q.recheckOf flagged).counts (s.graph p.options.dependencyTracking)
            (movers (s.graph p.options.dependencyTracking) log) = true
      · refine Or.inl ?_
        rcases h.spreads.isMoved_of_counts hvisits hglobal.2 with hall | hmoved
        · exact hvisits.allReached h.spreads.tidy hall
        · exact hconcerns (by simp [Pass.concernsAll, hmoved, hglobal.1])
      · have hpath : (q.recheckOf flagged).path = path := by
          show q.state.graph.pathOf flagged = path
          rw [h.round.graph]
          exact Graph.pathOf_of_idOf? h.number
        have hbefore : (log ++ [q.recheckOf flagged]).takeWhile (·.path ≠ path) = log := by
          rw [← hpath]
          refine takeWhile_path_ne fun e he => ?_
          rw [hpath]
          exact h.path_ne hvisits.fresh he
        refine Or.inr ⟨q.recheckOf flagged, List.mem_append_right _ List.mem_cons_self, hpath, ?_⟩
        rw [hbefore]
        exact ⟨⟨d, hd, hdepends⟩, hglobal⟩
  · have hmarks : pass.marksEverything flagged = true := by
      rw [Pass.marksEverything, hflag, hstart, hwaits.marked root hroot hunit]
      simp
    exact Or.inl (hconcerns (by simp [Pass.concernsAll, hmarks]))

/-- A recheck of another unit leaves the flagged root in its place. -/
theorem visit_other (hwaits : q.WaitsFlagged flagged) (hvisits : q.Visits unit pass r)
    (hne : flagged ≠ unit) : r.WaitsFlagged flagged := by
  refine ⟨?_, ?_, ?_⟩
  · rw [hvisits.processed, List.mem_append, List.mem_singleton]
    exact fun hmem => hmem.elim hwaits.fresh hne
  · obtain ⟨root, hroot, rfl⟩ := hwaits.listed
    exact ⟨root, hvisits.handed.mem_roots hroot hwaits.fresh hne, rfl⟩
  · exact fun root hroot => hwaits.marked root (hvisits.handed.roots_sublist.subset hroot)

/-- **A recheck keeps the invariant.** -/
theorem visit (h : p.Honours s path flagged log q) (hvisits : q.Visits unit pass r) :
    r.AllReached
      ∨ Overtaken (s.graph p.options.dependencyTracking) (log ++ [q.recheckOf unit]) path
      ∨ r.WaitsFlagged flagged := by
  rcases h.honoured with hall | hovertaken | hwaits
  · exact Or.inl (hvisits.allReached h.spreads.tidy hall)
  · exact Or.inr (Or.inl (hovertaken.append _))
  · by_cases hself : flagged = unit
    · subst hself
      rcases h.visit_self hwaits hvisits with hall | hovertaken
      · exact Or.inl hall
      · exact Or.inr (Or.inl hovertaken)
    · exact Or.inr (Or.inr (visit_other hwaits hvisits hself))

theorem step (h : p.Honours s path flagged log q) (hstep : Step allowed q more r) :
    p.Honours s path flagged (log ++ more) r := by
  refine ⟨h.round.step hstep, h.spreads.step hstep, h.number, ?_⟩
  rcases hstep.visits h.spreads.tidy with ⟨unit, pass, rfl, _, hvisits⟩ | ⟨rfl, hrests, hidles⟩
  · exact h.visit hvisits
  · rw [List.append_nil]
    exact h.idles hidles hrests.state hrests.processed

theorem steps (h : p.Honours s path flagged log q) (hsteps : Steps allowed q more r) :
    p.Honours s path flagged (log ++ more) r :=
  Steps.induct (motive := fun q log => p.Honours s path flagged log q) step log h hsteps

/-- In a finished round, every unit was processed, or the flagged unit was overtaken. -/
theorem finished (h : p.Honours s path flagged log q) (hfinished : q.Finished) :
    (∀ id ∈ q.state.graph.units, id ∈ q.processed)
      ∨ Overtaken (s.graph p.options.dependencyTracking) log path := by
  have htidy := h.spreads.tidy
  rcases h.honoured with hall | hovertaken | hwaits
  · exact Or.inl fun id hid => htidy.processed_of_finished hfinished (hall id hid).covered
  · exact Or.inr hovertaken
  · have hdone := htidy.processed_of_finished hfinished (Or.inr hwaits.mem_frontier)
    exact absurd hdone hwaits.fresh

end Honours

/-- A flagged check belongs to a unit that waits as a flagged root. -/
theorem Spreads.waitsFlagged {g : Graph} (h : q.Spreads g log)
    (hcheck : ⟨path, true⟩ ∈ q.pendingChecks) :
    ∃ flagged, g.idOf? path = some flagged ∧ q.WaitsFlagged flagged := by
  obtain ⟨flagged, hflags, hfresh, hpath⟩ := mem_pendingChecks_flagged.mp hcheck
  -- the root of the pass under way is processed, so that the flag is among the roots
  have hroots : Root.Flags q.roots flagged := by
    rcases Root.flags_append.mp hflags with ⟨root, hroot, rfl, hglobal⟩ | hroots
    · exfalso
      rw [passRoots] at hroot
      split at hroot
      · rename_i pass hcurrent
        obtain ⟨unit, _, rfl⟩ := List.mem_map.mp hroot
        have hsame : pass.isGlobal = true ∧ unit = pass.root := by
          simpa [Pass.marksEverything] using hglobal
        exact hfresh (hsame.2 ▸ h.rooted pass hcurrent)
      · simp at hroot
    · exact hroots
  have hwaits : q.WaitsFlagged flagged := by
    refine ⟨hfresh, ?_, fun root hroot => hroots.isGlobal h.distinct hroot⟩
    obtain ⟨root, hroot, hunit, _⟩ := hroots
    exact ⟨root, hroot, hunit⟩
  refine ⟨flagged, ?_, hwaits⟩
  rw [← hpath, ← h.graph]
  exact Graph.idOf?_pathOf h.tidy.wellFormed.nodup (h.tidy.bounded flagged hwaits.mem_frontier)

/-- A unit with a flagged check is honoured from now on. -/
theorem Spreads.honours (h : q.Spreads (s.graph p.options.dependencyTracking) log)
    (hround : p.Propagates s log q) (hcheck : ⟨path, true⟩ ∈ q.pendingChecks) :
    ∃ flagged, p.Honours s path flagged log q := by
  obtain ⟨flagged, hnumber, hwaits⟩ := h.waitsFlagged hcheck
  exact ⟨flagged, hround, h, hnumber, Or.inr (Or.inr hwaits)⟩

end Program

/-- **A flagged unit makes the round reach everything, unless it is overtaken.**  Take any program to
any snapshot, let a check with a flag be pending, and make any calls until no check is left to pull.
Then every unit was rechecked, or the pass of another root reached the flagged unit first: it was
rechecked as a dependent of a moved unit, and was not itself a global unit that counts as moved. -/
theorem everything_rechecked_or_overtaken {η : Type} [Host η] (p : Program η) (s : Snapshot)
    (calls : List (Call η)) {check : PendingCheck} (hcheck : check ∈ (p.update s).pendingChecks)
    (hflag : check.isGlobal = true) (hfinished : (Call.play calls (p.update s)).2.Finished) :
    (∀ unit ∈ s.units, Rechecked (Call.play calls (p.update s)).1 unit.path)
      ∨ Overtaken (s.graph p.options.dependencyTracking) (Call.play calls (p.update s)).1
        check.unit := by
  have hcheck : ⟨check.unit, true⟩ ∈ (p.update s).pendingChecks := by
    rw [← hflag]
    exact hcheck
  obtain ⟨flagged, hstart⟩ :=
    (Program.Spreads.start p s).honours (Program.Propagates.start p s) hcheck
  have hcalls : ∀ c ∈ calls, c.Within fun _ => True :=
    fun c _ => c.within_of_forall fun _ => trivial
  have hround := hstart.steps (Steps.play hcalls (p.update s))
  rw [List.nil_append] at hround
  rcases hround.finished hfinished with hall | hovertaken
  · refine Or.inl fun unit hunit => ?_
    obtain ⟨id, hid⟩ := List.mem_iff_getElem?.mp hunit
    have hnumber := Snapshot.idOf?_graph_of_getElem? p.options.dependencyTracking hid
    refine hround.round.rechecked hfinished hnumber (Or.inl (hall id ?_))
    rw [hround.round.graph]
    exact Graph.mem_units.mpr (Graph.lt_size_of_idOf? hnumber)
  · exact Or.inr hovertaken

namespace Stub

/-- The units `r`, `g` and `x`, where `g` depends on `r` and may be global.  None can be read. -/
def fan (r g : String) (isGlobal : Bool) : Stub where
  snapshot := ⟨[{ path := "r", version := r },
    { path := "g", version := g, dependencies := [⟨"r", false⟩], isGlobal },
    { path := "x", version := "one" }], by simp⟩
  unreadable := ["r", "g", "x"]

/-- A program that has checked all three units while `g` was global, before a round in which `g` has
left the global scope. -/
def fanned (r g : String) : Program Stub :=
  { (Call.play [.check, .check, .check] (fan "one" "one" true).fresh).2 with
    host := fan r g false }

theorem reachable_fanned (r g : String) : (fanned r g).Reachable :=
  ((reachable_fresh _).play _).call (.edit fun _ => fan r g false)

end Stub

/-- Only `g` has a new text.  Its own pass reaches every unit. -/
theorem everything_rechecked_or_overtaken_fan :
    let s := (Stub.fan "one" "two" false).snapshot
    let p := Stub.fanned "one" "two"
    (p.update s).pendingChecks = [⟨"g", true⟩]
      ∧ ∀ unit ∈ s.units,
        Rechecked (Call.play [.check, .check, .check] (p.update s)).1 unit.path := by
  intro s p
  have hround : (p.update s).pendingChecks = [⟨"g", true⟩]
      ∧ (Call.play [.check, .check, .check] (p.update s)).2.Finished
      ∧ ¬ Overtaken (s.graph true) (Call.play [.check, .check, .check] (p.update s)).1 "g" := by
    decide +kernel
  obtain ⟨hpending, hfinished, hnot⟩ := hround
  refine ⟨hpending, ?_⟩
  have hcheck : ⟨"g", true⟩ ∈ (p.update s).pendingChecks := by
    rw [hpending]
    exact List.mem_cons_self
  exact (everything_rechecked_or_overtaken p s _ hcheck rfl hfinished).resolve_right hnot

/-- **A flagged unit can be overtaken.**  Both `r` and `g` have a new text, and `r` comes first.  Its
pass reaches `g`, and `x` is not rechecked. -/
theorem flagged_unit_overtaken :
    let s := (Stub.fan "two" "two" false).snapshot
    let round := Call.play [.check, .check] ((Stub.fanned "two" "two").update s)
    (Stub.fanned "two" "two").Reachable
      ∧ ((Stub.fanned "two" "two").update s).pendingChecks = [⟨"r", false⟩, ⟨"g", true⟩]
      ∧ round.2.Finished
      ∧ ∃ unit ∈ s.units, ¬ Rechecked round.1 unit.path := by
  intro s round
  have hround : ((Stub.fanned "two" "two").update s).pendingChecks = [⟨"r", false⟩, ⟨"g", true⟩]
      ∧ round.2.Finished
      ∧ round.1.map (·.path) = ["r", "g"] := by decide +kernel
  obtain ⟨hpending, hfinished, hlog⟩ := hround
  refine ⟨Stub.reachable_fanned _ _, hpending, hfinished, { path := "x", version := "one" },
    by simp [s, Stub.fan], ?_⟩
  rintro ⟨e, he, hpath⟩
  have hmem := List.mem_map_of_mem (f := (·.path)) he
  rw [hlog, hpath] at hmem
  simp at hmem

end Rebuild
