import Mathlib.Data.List.Induction
import Rebuild.Proofs.Flags
import Rebuild.Proofs.Handout
import Rebuild.Proofs.Propagation

/-!
# Moves that leak through republishing units

A unit that republishes a moved unit counts as moved too, whatever its own signature says, if it is
rechecked later.  The set of leaking units belongs to one pass, but the dependents of a moved unit
are rechecked in that same pass, so the order of the rechecks alone decides which units count.

* `Recheck.counts`, `movers`: the rechecks of a log that count as moved;
* `Program.Spreads`: in the middle of a round, what the movers of the log call for is reached, and
  what the pass under way knows about leaking units comes from them;
* `Program.Spreads.visit`, `Program.Spreads.steps`: a recheck, and a round, keep it;
* `Moved`, `InOrder`: moves regardless of the order of the rechecks, and the order in which all of
  them count;
* `dependents_of_movers_rechecked`: what a finished round has rechecked.
-/

namespace Rebuild

/-- Whether a recheck counts as moved after the rechecks `earlier`, which do: its signature moved,
or it is of a unit that republishes the unit of an earlier one. -/
def Recheck.counts (g : Graph) (earlier : List Recheck) (e : Recheck) : Bool :=
  e.moved || earlier.any fun d => (g.exportersOf d.unit).contains e.unit

/-- The rechecks of a log that count as moved, in order. -/
def movers (g : Graph) (log : List Recheck) : List Recheck :=
  log.foldl (fun earlier e => if e.counts g earlier then earlier ++ [e] else earlier) []

section Movers

variable {g : Graph} {log more : List Recheck} {d e : Recheck}

theorem movers_append_singleton (g : Graph) (log : List Recheck) (e : Recheck) :
    movers g (log ++ [e])
      = if e.counts g (movers g log) then movers g log ++ [e] else movers g log := by
  rw [movers, List.foldl_append]
  rfl

theorem mem_movers_append (more : List Recheck) (h : d ∈ movers g log) :
    d ∈ movers g (log ++ more) := by
  induction more generalizing log with
  | nil => simpa using h
  | cons e more ih =>
      rw [← List.singleton_append, ← List.append_assoc]
      apply ih
      rw [movers_append_singleton]
      split
      · exact List.mem_append_left _ h
      · exact h

theorem mem_movers_of_counts (h : e.counts g (movers g log) = true) :
    e ∈ movers g (log ++ [e]) := by
  rw [movers_append_singleton, if_pos h]
  exact List.mem_append_right _ List.mem_cons_self

theorem mem_movers_of_signature (he : e ∈ log) (hmoved : e.moved = true) : e ∈ movers g log := by
  obtain ⟨before, after, rfl⟩ := List.append_of_mem he
  rw [← List.singleton_append, ← List.append_assoc]
  refine mem_movers_append after (mem_movers_of_counts ?_)
  rw [Recheck.counts, hmoved, Bool.true_or]

theorem mem_movers_singleton (h : d ∈ movers g (log ++ [e])) :
    d ∈ movers g log ∨ (d = e ∧ e.counts g (movers g log) = true) := by
  rw [movers_append_singleton] at h
  split at h
  · rcases List.mem_append.mp h with hold | hnew
    · exact Or.inl hold
    · exact Or.inr ⟨List.mem_singleton.mp hnew, ‹_›⟩
  · exact Or.inl h

theorem mem_of_mem_movers (h : d ∈ movers g log) : d ∈ log := by
  induction log using List.reverseRecOn with
  | nil => simp [movers] at h
  | append_singleton log e ih =>
      rcases mem_movers_singleton h with hold | ⟨rfl, _⟩
      · exact List.mem_append_left _ (ih hold)
      · exact List.mem_append_right _ List.mem_cons_self

theorem counts_of_exporter (hd : d ∈ movers g log) (h : e.unit ∈ g.exportersOf d.unit) :
    e.counts g (movers g log) = true := by
  rw [Recheck.counts, Bool.or_eq_true]
  exact Or.inr (List.any_eq_true.mpr ⟨d, hd, by simpa using h⟩)

end Movers

namespace Program

variable {η : Type} {p q : Program η} {g : Graph} {log more : List Recheck}

/-- The middle of a round over the graph `g` in which the rechecks of `log` were made. -/
structure Spreads (g : Graph) (log : List Recheck) (q : Program η) : Prop where
  tidy : q.Tidy
  graph : q.state.graph = g
  republishers : ∀ i j, i ∈ g.exportersOf j → i ∈ g.dependentsOf j
  /-- Each unit is listed as a root once. -/
  distinct : (q.roots.map (·.unit)).Nodup
  /-- The root of the pass under way was the first unit that it handed out. -/
  rooted : ∀ pass, q.current = some pass → pass.root ∈ q.processed
  /-- The dependents of every mover are reached. -/
  dependents : ∀ d ∈ movers g log, ∀ id ∈ g.dependentsOf d.unit, q.Reached id
  /-- Every unit is reached, when a recheck concerned all of them. -/
  everything : (g.tracking = false ∧ log ≠ []) ∨ (∃ d ∈ movers g log, d.isGlobal = true) →
    q.AllReached
  /-- The units that republish a mover are processed, or leak in the pass under way. -/
  leaks : q.AllReached ∨ ∀ d ∈ movers g log, ∀ id ∈ g.exportersOf d.unit,
    id ∈ q.processed ∨ ∃ pass, q.current = some pass ∧ id ∈ pass.leaking
  /-- What leaks in the pass under way republishes a mover. -/
  leaking : ∀ pass, q.current = some pass → ∀ id ∈ pass.leaking,
    ∃ d ∈ movers g log, id ∈ g.exportersOf d.unit
  /-- What waits in the pass under way depends on a mover. -/
  queued : ∀ pass, q.current = some pass → ∀ id ∈ pass.queue,
    q.AllReached ∨ ∃ d ∈ movers g log, id ∈ g.dependentsOf d.unit

namespace Spreads

/-- At the start of a round there is no pass, and nothing moved. -/
theorem start (p : Program η) (s : Snapshot) :
    (p.update s).Spreads (s.graph p.options.dependencyTracking) [] where
  tidy := tidy_update p s
  graph := rfl
  republishers := fun _ _ => Snapshot.mem_dependentsOf_of_mem_exportersOf
  distinct := nodup_roots_update
  rooted := by simp [update]
  dependents := by simp [movers]
  everything := by simp [movers]
  leaks := Or.inr (by simp [movers])
  leaking := by simp [update]
  queued := by simp [update]

theorem idles (h : q.Spreads g log) {r : Program η} (hidles : q.Idles r) (htidy : r.Tidy)
    (hstate : r.state = q.state) (hprocessed : r.processed = q.processed) : r.Spreads g log := by
  have hall : q.AllReached → r.AllReached := by
    intro hall id hid
    rw [hstate] at hid
    exact hidles.reached hprocessed (hall id hid)
  -- a pass that is still there is the pass of before
  have hsame : ∀ pass, r.current = some pass → q.current = some pass := by
    intro pass hpass
    rcases hidles with ⟨hcurrent, _⟩ | ⟨hnone, _, _⟩
    · rw [← hcurrent, hpass]
    · rw [hnone] at hpass
      cases hpass
  refine ⟨htidy, by rw [hstate]; exact h.graph, h.republishers, ?_, ?_, ?_, ?_, ?_, ?_, ?_⟩
  · rcases hidles with ⟨_, hroots⟩ | ⟨_, hnone, _⟩
    · rw [hroots]
      exact h.distinct
    · rw [hnone]
      exact List.nodup_nil
  · intro pass hpass
    rw [hprocessed]
    exact h.rooted pass (hsame pass hpass)
  · exact fun d hd id hid => hidles.reached hprocessed (h.dependents d hd id hid)
  · exact fun hconcerns => hall (h.everything hconcerns)
  · rcases h.leaks with hreached | hleaks
    · exact Or.inl (hall hreached)
    · refine Or.inr fun d hd id hid => ?_
      rw [hprocessed]
      rcases hidles with ⟨hcurrent, _⟩ | ⟨_, _, hdone⟩
      · rw [hcurrent]
        exact hleaks d hd id hid
      · have hcovered := (h.dependents d hd id (h.republishers id d.unit hid)).covered
        exact Or.inl (hcovered.elim (fun h => h) (hdone id))
  · exact fun pass hpass => h.leaking pass (hsame pass hpass)
  · intro pass hpass id hid
    rcases h.queued pass (hsame pass hpass) id hid with hreached | hmover
    · exact Or.inl (hall hreached)
    · exact Or.inr hmover

variable [Host η] {allowed : (η → η) → Prop} {r : Program η} {pass : Pass} {unit : UnitId}

/-- A unit that its pass takes for moved counts as moved. -/
theorem counts_of_isMoved (h : q.Spreads g log) (hvisits : q.Visits unit pass r)
    (hmoved : pass.isMoved unit (q.recheckOf unit).moved = true) :
    (q.recheckOf unit).counts g (movers g log) = true := by
  rw [Pass.isMoved, Bool.or_eq_true] at hmoved
  rcases hmoved with hsignature | hleaks
  · rw [Recheck.counts, hsignature, Bool.true_or]
  · have hleaking : unit ∈ pass.leaking := by simpa using hleaks
    rcases hvisits.handed.origin h.tidy
      with ⟨current, hcurrent, _, _, hsame, _⟩ | ⟨_, _, _, _, _, _, hnone, _⟩
    · rw [hsame] at hleaking
      obtain ⟨d, hd, hexports⟩ := h.leaking current hcurrent unit hleaking
      exact counts_of_exporter hd hexports
    · rw [hnone] at hleaking
      simp at hleaking

/-- A unit that counts as moved is taken for moved by its pass, or every unit is reached. -/
theorem isMoved_of_counts (h : q.Spreads g log) (hvisits : q.Visits unit pass r)
    (hcounts : (q.recheckOf unit).counts g (movers g log) = true) :
    q.AllReached ∨ pass.isMoved unit (q.recheckOf unit).moved = true := by
  rw [Recheck.counts, Bool.or_eq_true] at hcounts
  rcases hcounts with hsignature | hexports
  · refine Or.inr ?_
    rw [Pass.isMoved, hsignature, Bool.true_or]
  · obtain ⟨d, hd, hexports⟩ := List.any_eq_true.mp hexports
    have hunit : unit ∈ g.exportersOf d.unit := List.contains_iff_mem.mp hexports
    rcases h.leaks with hall | hleaks
    · exact Or.inl hall
    · -- the unit leaks in the pass under way, which is the pass that hands it out
      have hreached := h.dependents d hd unit (h.republishers unit d.unit hunit)
      obtain ⟨current, hcurrent, hsame⟩ :=
        hvisits.handed.continues h.tidy hreached hvisits.fresh
      rcases hleaks d hd unit hunit with hdone | ⟨other, hother, hleaking⟩
      · exact absurd hdone hvisits.fresh
      · cases hcurrent.symm.trans hother
        refine Or.inr ?_
        rw [Pass.isMoved, hsame, Bool.or_eq_true]
        exact Or.inr (by simpa using hleaking)

/-! ### What a recheck keeps -/

/-- A recheck that concerns every unit reaches every unit. -/
theorem allReached_of_concernsAll (h : q.Spreads g log) (hvisits : q.Visits unit pass r)
    (hconcern : pass.concernsAll g (q.recheckOf unit).isGlobal unit
      (pass.isMoved unit (q.recheckOf unit).moved) = true) : r.AllReached := by
  rw [← h.graph] at hconcern
  exact hvisits.allReached_of_concernsAll hconcern

theorem rooted_visit (h : q.Spreads g log) (hvisits : q.Visits unit pass r) {later : Pass}
    (hlater : r.current = some later) : later.root ∈ r.processed := by
  obtain ⟨later', hlater', hroot, _⟩ := hvisits.exists_current
  cases hlater'.symm.trans hlater
  rw [hroot]
  rcases hvisits.handed.origin h.tidy
    with ⟨current, hcurrent, _, hsame, _⟩ | ⟨_, _, _, _, hstart, _⟩
  · rw [hsame]
    exact hvisits.mem_processed (h.rooted current hcurrent)
  · rw [hstart]
    exact hvisits.unit_mem_processed

/-- The dependents of the rechecked unit are reached, when it counts as moved. -/
theorem dependents_visit (h : q.Spreads g log) (hvisits : q.Visits unit pass r) {d : Recheck}
    (hd : d ∈ movers g (log ++ [q.recheckOf unit])) {id : UnitId} (hid : id ∈ g.dependentsOf d.unit) :
    r.Reached id := by
  rcases mem_movers_singleton hd with hold | ⟨rfl, hcounts⟩
  · exact hvisits.reached h.tidy (h.dependents d hold id hid)
  · rcases h.isMoved_of_counts hvisits hcounts with hreached | hmoved
    · have hunit := Graph.mem_units.mpr (Graph.lt_size_of_mem_dependentsOf hid)
      exact hvisits.reached h.tidy (hreached id (by rw [h.graph]; exact hunit))
    · refine hvisits.reached_of_mem_calls (Pass.mem_calls_of_isMoved hmoved ?_)
      rw [h.graph]
      exact hid

theorem everything_visit (h : q.Spreads g log) (hvisits : q.Visits unit pass r)
    (hconcerns : g.tracking = false
      ∨ ∃ d ∈ movers g (log ++ [q.recheckOf unit]), d.isGlobal = true) : r.AllReached := by
  rcases hconcerns with htracking | ⟨d, hd, hglobal⟩
  · exact h.allReached_of_concernsAll hvisits (by simp [Pass.concernsAll, htracking])
  · rcases mem_movers_singleton hd with hold | ⟨rfl, hcounts⟩
    · exact hvisits.allReached h.tidy (h.everything (Or.inr ⟨d, hold, hglobal⟩))
    · rcases h.isMoved_of_counts hvisits hcounts with hreached | hmoved
      · exact hvisits.allReached h.tidy hreached
      · exact h.allReached_of_concernsAll hvisits (by simp [Pass.concernsAll, hmoved, hglobal])

/-- What republishes an older mover leaks in the pass that goes on, or is processed. -/
theorem leaks_of_older (h : q.Spreads g log) (hvisits : q.Visits unit pass r) {d : Recheck}
    (hd : d ∈ movers g log) {id : UnitId} (hid : id ∈ g.exportersOf d.unit)
    (hleaks : id ∈ q.processed ∨ ∃ current, q.current = some current ∧ id ∈ current.leaking) :
    id ∈ r.processed ∨ ∃ later, r.current = some later ∧ id ∈ later.leaking := by
  by_cases hdone : id ∈ q.processed
  · exact Or.inl (hvisits.mem_processed hdone)
  · obtain ⟨later, hlater, _, hleaking, _, _⟩ := hvisits.exists_current
    obtain ⟨current, hcurrent, hleak⟩ := hleaks.resolve_left hdone
    have hwaits := h.dependents d hd id (h.republishers id d.unit hid)
    obtain ⟨current', hcurrent', hsame⟩ := hvisits.handed.continues h.tidy hwaits hdone
    cases hcurrent.symm.trans hcurrent'
    refine Or.inr ⟨later, hlater, ?_⟩
    rw [hleaking]
    apply Pass.mem_leakingAfter_of_mem
    rw [hsame]
    exact hleak

/-- What republishes the rechecked unit leaks from now on, when its pass takes it for moved. -/
theorem leaks_of_moved (h : q.Spreads g log) (hvisits : q.Visits unit pass r)
    (hconcern : ¬ pass.concernsAll g (q.recheckOf unit).isGlobal unit
      (pass.isMoved unit (q.recheckOf unit).moved) = true)
    (hmoved : pass.isMoved unit (q.recheckOf unit).moved = true) {id : UnitId}
    (hid : id ∈ g.exportersOf unit) : ∃ later, r.current = some later ∧ id ∈ later.leaking := by
  obtain ⟨later, hlater, _, hleaking, _, _⟩ := hvisits.exists_current
  refine ⟨later, hlater, ?_⟩
  rw [hleaking, landed, Pass.leakingAfter, h.graph, if_neg hconcern, if_pos hmoved]
  exact List.mem_append_right _ hid

theorem leaks_visit (h : q.Spreads g log) (hvisits : q.Visits unit pass r) :
    r.AllReached ∨ ∀ d ∈ movers g (log ++ [q.recheckOf unit]), ∀ id ∈ g.exportersOf d.unit,
      id ∈ r.processed ∨ ∃ later, r.current = some later ∧ id ∈ later.leaking := by
  by_cases hconcern : pass.concernsAll g (q.recheckOf unit).isGlobal unit
      (pass.isMoved unit (q.recheckOf unit).moved) = true
  · exact Or.inl (h.allReached_of_concernsAll hvisits hconcern)
  · by_cases hreached : q.AllReached
    · exact Or.inl (hvisits.allReached h.tidy hreached)
    · refine Or.inr fun d hd id hid => ?_
      rcases mem_movers_singleton hd with hold | ⟨rfl, hcounts⟩
      · exact h.leaks_of_older hvisits hold hid (h.leaks.resolve_left hreached d hold id hid)
      · have hmoved := (h.isMoved_of_counts hvisits hcounts).resolve_left hreached
        exact Or.inr (h.leaks_of_moved hvisits hconcern hmoved hid)

theorem leaking_visit (h : q.Spreads g log) (hvisits : q.Visits unit pass r) {later : Pass}
    (hlater : r.current = some later) {id : UnitId} (hid : id ∈ later.leaking) :
    ∃ d ∈ movers g (log ++ [q.recheckOf unit]), id ∈ g.exportersOf d.unit := by
  obtain ⟨later', hlater', _, hleaking, _, _⟩ := hvisits.exists_current
  cases hlater'.symm.trans hlater
  rw [hleaking] at hid
  rcases Pass.leakingAfter_cases hid with hold | ⟨hmoved, hnew⟩
  · rcases hvisits.handed.origin h.tidy
      with ⟨current, hcurrent, _, _, hsame, _⟩ | ⟨_, _, _, _, _, _, hnone, _⟩
    · rw [hsame] at hold
      obtain ⟨d, hd, hexports⟩ := h.leaking current hcurrent id hold
      exact ⟨d, mem_movers_append _ hd, hexports⟩
    · rw [hnone] at hold
      simp at hold
  · refine ⟨_, mem_movers_of_counts (h.counts_of_isMoved hvisits hmoved), ?_⟩
    rw [← h.graph]
    exact hnew

theorem queued_visit (h : q.Spreads g log) (hvisits : q.Visits unit pass r) {later : Pass}
    (hlater : r.current = some later) {id : UnitId} (hid : id ∈ later.queue) :
    r.AllReached ∨ ∃ d ∈ movers g (log ++ [q.recheckOf unit]), id ∈ g.dependentsOf d.unit := by
  rcases hvisits.mem_queue_cases h.tidy hlater hid with ⟨current, hcurrent, hold⟩ | hcalled
  · rcases h.queued current hcurrent id hold with hreached | ⟨d, hd, hdepends⟩
    · exact Or.inl (hvisits.allReached h.tidy hreached)
    · exact Or.inr ⟨d, mem_movers_append _ hd, hdepends⟩
  · rcases Pass.calls_cases hcalled with hconcern | ⟨hmoved, hdepends⟩
    · rw [h.graph] at hconcern
      exact Or.inl (h.allReached_of_concernsAll hvisits hconcern)
    · refine Or.inr ⟨_, mem_movers_of_counts (h.counts_of_isMoved hvisits hmoved), ?_⟩
      rw [← h.graph]
      exact hdepends

/-- **A recheck keeps the invariant.** -/
theorem visit (h : q.Spreads g log) (hvisits : q.Visits unit pass r) :
    r.Spreads g (log ++ [q.recheckOf unit]) where
  tidy := hvisits.tidy
  graph := hvisits.graph.trans h.graph
  republishers := h.republishers
  distinct := h.distinct.sublist (hvisits.handed.roots_sublist.map _)
  rooted := fun _ hlater => h.rooted_visit hvisits hlater
  dependents := fun _ hd _ hid => h.dependents_visit hvisits hd hid
  everything := fun hconcerns => h.everything_visit hvisits (hconcerns.imp_left And.left)
  leaks := h.leaks_visit hvisits
  leaking := fun _ hlater _ hid => h.leaking_visit hvisits hlater hid
  queued := fun _ hlater _ hid => h.queued_visit hvisits hlater hid

theorem step (h : q.Spreads g log) (hstep : Step allowed q more r) : r.Spreads g (log ++ more) := by
  rcases hstep.visits h.tidy with ⟨unit, pass, rfl, _, hvisits⟩ | ⟨rfl, hrests, hidles⟩
  · exact h.visit hvisits
  · rw [List.append_nil]
    exact h.idles hidles hrests.tidy hrests.state hrests.processed

theorem steps (h : q.Spreads g log) (hsteps : Steps allowed q more r) :
    r.Spreads g (log ++ more) :=
  Steps.induct (motive := fun q log => q.Spreads g log) step log h hsteps

/-- In a finished round, the dependents of every mover were rechecked. -/
theorem rechecked_of_mem_movers {p : Program η} {s : Snapshot} (hround : p.Propagates s log q)
    (h : q.Spreads (s.graph p.options.dependencyTracking) log) (hfinished : q.Finished)
    {e : Recheck} (he : e ∈ movers (s.graph p.options.dependencyTracking) log) {a : UnitPath}
    (himports : (s.graph p.options.dependencyTracking).Imports a e.path) : Rechecked log a := by
  obtain ⟨i, j, hi, hj, hij⟩ := himports
  cases (hround.idOf?_path (mem_of_mem_movers he)).symm.trans hj
  exact hround.rechecked hfinished hi (h.dependents e he i hij).covered

end Spreads

/-- What holds at every moment of a round. -/
theorem spreads_play [Host η] (p : Program η) (s : Snapshot) (calls : List (Call η)) :
    p.Propagates s (Call.play calls (p.update s)).1 (Call.play calls (p.update s)).2
      ∧ (Call.play calls (p.update s)).2.Spreads (s.graph p.options.dependencyTracking)
        (Call.play calls (p.update s)).1 := by
  have hcalls : ∀ c ∈ calls, c.Within fun _ => True :=
    fun c _ => c.within_of_forall fun _ => trivial
  have hsteps := Steps.play hcalls (p.update s)
  exact ⟨(Propagates.start p s).steps hsteps, (Spreads.start p s).steps hsteps⟩

end Program

/-! ### Moves and their order -/

/-- A recheck of the log moved: its signature did, or it is of a unit that republishes a unit whose
recheck moved, earlier or later. -/
inductive Moved (g : Graph) (log : List Recheck) : Recheck → Prop
  | signature {e : Recheck} (he : e ∈ log) (hmoved : e.moved = true) : Moved g log e
  | republishes {d e : Recheck} (hd : Moved g log d) (he : e ∈ log)
      (hexports : e.unit ∈ g.exportersOf d.unit) : Moved g log e

theorem Moved.mem {g : Graph} {log : List Recheck} {e : Recheck} (h : Moved g log e) : e ∈ log := by
  cases h with
  | signature he _ => exact he
  | republishes _ he _ => exact he

/-- Units are rechecked after the moved units that they republish. -/
def InOrder (g : Graph) (log : List Recheck) : Prop :=
  ∀ d e, Moved g log d → e ∈ log → e.unit ∈ g.exportersOf d.unit → d ∈ log.takeWhile (· ≠ e)

/-- In such an order, every recheck that moved counts as moved when it is made. -/
theorem counts_of_moved {g : Graph} {log : List Recheck} {e : Recheck} (horder : InOrder g log)
    (h : Moved g log e) : ∀ before after, log = before ++ e :: after →
      e.counts g (movers g before) = true := by
  induction h with
  | signature he hmoved =>
      intro before after _
      rw [Recheck.counts, hmoved, Bool.true_or]
  | @republishes d e hd he hexports ih =>
      intro before after hlog
      have hearlier : d ∈ before := by
        have hmem := horder d e hd he hexports
        rw [hlog, List.takeWhile_append] at hmem
        split at hmem
        · simpa using hmem
        · exact (List.takeWhile_sublist _).subset hmem
      obtain ⟨first, second, hbefore⟩ := List.append_of_mem hearlier
      have hcounts := ih first (second ++ e :: after) (by rw [hlog, hbefore]; simp)
      refine counts_of_exporter (d := d) ?_ hexports
      rw [hbefore, ← List.singleton_append, ← List.append_assoc]
      exact mem_movers_append second (mem_movers_of_counts hcounts)

theorem mem_movers_of_moved {g : Graph} {log : List Recheck} {e : Recheck}
    (horder : InOrder g log) (h : Moved g log e) : e ∈ movers g log := by
  obtain ⟨before, after, hlog⟩ := List.append_of_mem h.mem
  have hmover := mem_movers_of_counts (counts_of_moved horder h before after hlog)
  have hmem := mem_movers_append after hmover
  rwa [List.append_assoc, List.singleton_append, ← hlog] at hmem

/-- **Moves leak along the order of the rechecks.**  Take any program to any snapshot and make any
calls until no check is left to pull.  Then the direct dependents of every unit that counts as moved
were rechecked: its signature moved, or it republishes a unit that counted before.  If every unit is
rechecked after the moved units that it republishes, these are all moved units. -/
theorem dependents_of_movers_rechecked {η : Type} [Host η] (p : Program η) (s : Snapshot)
    (calls : List (Call η)) (hfinished : (Call.play calls (p.update s)).2.Finished) :
    let g := s.graph p.options.dependencyTracking
    let log := (Call.play calls (p.update s)).1
    (∀ e ∈ movers g log, ∀ a, g.Imports a e.path → Rechecked log a)
      ∧ (InOrder g log → ∀ e, Moved g log e → ∀ a, g.Imports a e.path → Rechecked log a) := by
  intro g log
  obtain ⟨hround, hspreads⟩ := Program.spreads_play p s calls
  have hmovers : ∀ e ∈ movers g log, ∀ a, g.Imports a e.path → Rechecked log a :=
    fun e he a himports => hspreads.rechecked_of_mem_movers hround hfinished he himports
  exact ⟨hmovers, fun horder e he => hmovers e (mem_movers_of_moved horder he)⟩

namespace Stub

/-- Of three units, `d` depends on `e`, which republishes `u`.  The texts of `e` and `u` are given,
and only `e` can be read. -/
def chain (e u : String) : Stub where
  snapshot := ⟨[{ path := "d", version := "one", dependencies := [⟨"e", false⟩] },
    { path := "e", version := e, dependencies := [⟨"u", true⟩] },
    { path := "u", version := u }], by simp⟩
  unreadable := ["d", "u"]

/-- A program that has checked all three units, in the texts of before. -/
def chained : Program Stub :=
  (Call.play [.check, .check, .check] (chain "one" "one").fresh).2

/-- The program after the texts were changed, before the round. -/
def chainedAt (e u : String) : Program Stub :=
  { chained with host := chain e u }

theorem reachable_chainedAt (e u : String) : (chainedAt e u).Reachable :=
  ((reachable_fresh _).play _).call (.edit fun _ => chain e u)

end Stub

/-- Only `u` has a new text.  It is rechecked first, so that `e` counts as moved although its
signature is the same, and `d` is rechecked. -/
theorem dependents_of_movers_rechecked_chain :
    let s := (Stub.chain "one" "two").snapshot
    let log := (Call.play [.check, .check, .check] ((Stub.chainedAt "one" "two").update s)).1
    log.map (fun e => (e.path, e.moved)) = [("u", true), ("e", false), ("d", true)]
      ∧ ∀ e, Moved (s.graph true) log e → ∀ a, (s.graph true).Imports a e.path → Rechecked log a := by
  intro s log
  have hround : log.map (fun e => (e.path, e.moved)) = [("u", true), ("e", false), ("d", true)]
      ∧ (Call.play [.check, .check, .check] ((Stub.chainedAt "one" "two").update s)).2.Finished
      ∧ ∀ d ∈ log, ∀ e ∈ log, e.unit ∈ (s.graph true).exportersOf d.unit →
        d ∈ log.takeWhile (· ≠ e) := by decide +kernel
  obtain ⟨hlog, hfinished, horder⟩ := hround
  refine ⟨hlog, (dependents_of_movers_rechecked _ _ [.check, .check, .check] hfinished).2 ?_⟩
  exact fun d e hd he => horder d hd.mem e he

/-- **Moves do not leak against the order of the rechecks.**  Both `e` and `u` have a new text.  The
signature of `e` is the same, and `u`, which it republishes, is rechecked after it: `d` is not
rechecked. -/
theorem dependent_of_moved_not_rechecked :
    let s := (Stub.chain "two" "two").snapshot
    let round := Call.play [.check, .check] ((Stub.chainedAt "two" "two").update s)
    (Stub.chainedAt "two" "two").Reachable ∧ round.2.Finished
      ∧ ∃ e, Moved (s.graph true) round.1 e ∧ (s.graph true).Imports "d" e.path
        ∧ ¬ Rechecked round.1 "d" := by
  intro s round
  have hround : round.2.Finished
      ∧ round.1 = [⟨1, "e", false, false⟩, ⟨2, "u", true, false⟩]
      ∧ 1 ∈ (s.graph true).exportersOf 2
      ∧ ((s.graph true).idOf? "d" = some 0 ∧ (s.graph true).idOf? "e" = some 1)
      ∧ 0 ∈ (s.graph true).dependentsOf 1 := by decide +kernel
  obtain ⟨hfinished, hlog, hexports, ⟨hd, he⟩, hdepends⟩ := hround
  refine ⟨Stub.reachable_chainedAt _ _, hfinished, ⟨1, "e", false, false⟩, ?_,
    ⟨0, 1, hd, he, hdepends⟩, ?_⟩
  · rw [hlog]
    exact .republishes (.signature (e := ⟨2, "u", true, false⟩) (by simp) rfl) (by simp) hexports
  · rw [hlog]
    simp [Rechecked]

end Rebuild
