import Rebuild.Proofs.Recheck

/-!
# Passes at work

Which pass hands out a unit, and what the recheck of the unit calls for in that pass.

* `Pass.calls`, `Pass.leakingAfter`: the units that a recheck calls for, and the units that leak
  after it;
* `Program.HandedOut`: a unit comes from the pass under way, or is the root of a new pass;
* `Program.Reached`: a unit was processed or is owed by the pass under way.  A pass that ends owes
  nothing, so what is once reached stays reached;
* `Program.Visits`: the recheck of a unit together with its pass;
* `Step.visits`: a step is such a recheck, or leaves the pass and the roots alone, or finds that
  nothing is left.
-/

namespace Rebuild

namespace Pass

variable {pass : Pass} {g : Graph} {isGlobal moved : Bool} {unit id : UnitId}
variable {processed : List UnitId}

/-- The units that the recheck of a unit calls for. -/
def calls (pass : Pass) (g : Graph) (isGlobal : Bool) (unit : UnitId) (moved : Bool) :
    List UnitId :=
  if pass.concernsAll g isGlobal unit (pass.isMoved unit moved) then g.units
  else if pass.isMoved unit moved then g.dependentsOf unit
  else []

/-- The units that leak after the recheck of a unit.  None is added when every unit is called for
anyway. -/
def leakingAfter (pass : Pass) (g : Graph) (isGlobal : Bool) (unit : UnitId) (moved : Bool) :
    List UnitId :=
  if pass.concernsAll g isGlobal unit (pass.isMoved unit moved) then pass.leaking
  else if pass.isMoved unit moved then pass.leaking ++ g.exportersOf unit
  else pass.leaking

/-- Completing a unit offers to the queue what the recheck calls for, and nothing else.  Another unit that is
in flight stays there. -/
theorem complete_eq_enqueue (pass : Pass) (g : Graph) (isGlobal : Bool) (unit : UnitId) (moved : Bool)
    (processed : List UnitId) :
    pass.complete g isGlobal unit moved processed
      = ({ pass with
            inFlight := if pass.inFlight = some unit then none else pass.inFlight
            leaking := pass.leakingAfter g isGlobal unit moved } : Pass).enqueue
          (pass.calls g isGlobal unit moved) processed := by
  have hlanded : (if pass.inFlight = some unit then { pass with inFlight := none } else pass)
      = { pass with inFlight := if pass.inFlight = some unit then none else pass.inFlight } := by
    split
    · rfl
    · rfl
  rw [complete, hlanded, calls, leakingAfter]
  by_cases hconcerns : pass.concernsAll g isGlobal unit (pass.isMoved unit moved) = true
  · rw [if_pos hconcerns, if_pos hconcerns]
    exact if_pos hconcerns
  · rw [if_neg hconcerns, if_neg hconcerns]
    by_cases hcounts : pass.isMoved unit moved = true
    · rw [if_pos hcounts, if_pos hcounts]
      exact (if_neg hconcerns).trans (if_pos hcounts)
    · rw [if_neg hcounts, if_neg hcounts]
      refine (if_neg hconcerns).trans ((if_neg hcounts).trans ?_)
      simp [enqueue]

/-- No unit is called for twice. -/
theorem nodup_calls (pass : Pass) (g : Graph) (isGlobal : Bool) (unit : UnitId) (moved : Bool) :
    (pass.calls g isGlobal unit moved).Nodup := by
  rw [calls]
  split
  · exact g.nodup_units
  · split
    · rw [Graph.dependentsOf]
      split
      · exact g.nodup_units.filter _
      · exact g.nodup_units.filter _
    · exact List.nodup_nil

theorem mem_units_of_mem_calls (h : id ∈ pass.calls g isGlobal unit moved) : id ∈ g.units := by
  rw [calls] at h
  split at h
  · exact h
  · split at h
    · exact Graph.mem_units.mpr (Graph.lt_size_of_mem_dependentsOf h)
    · simp at h

/-- A moved unit calls for its dependents. -/
theorem mem_calls_of_isMoved (hmoved : pass.isMoved unit moved = true)
    (h : id ∈ g.dependentsOf unit) : id ∈ pass.calls g isGlobal unit moved := by
  rw [calls, if_pos hmoved]
  split
  · exact Graph.mem_units.mpr (Graph.lt_size_of_mem_dependentsOf h)
  · exact h

/-- What is called for is every unit, or the dependents of a moved unit. -/
theorem calls_cases (h : id ∈ pass.calls g isGlobal unit moved) :
    pass.concernsAll g isGlobal unit (pass.isMoved unit moved) = true
      ∨ (pass.isMoved unit moved = true ∧ id ∈ g.dependentsOf unit) := by
  rw [calls] at h
  split at h
  · exact Or.inl ‹_›
  · split at h
    · exact Or.inr ⟨‹_›, h⟩
    · simp at h

theorem leakingAfter_cases (h : id ∈ pass.leakingAfter g isGlobal unit moved) :
    id ∈ pass.leaking ∨ (pass.isMoved unit moved = true ∧ id ∈ g.exportersOf unit) := by
  rw [leakingAfter] at h
  split at h
  · exact Or.inl h
  · split at h
    · rcases List.mem_append.mp h with hold | hnew
      · exact Or.inl hold
      · exact Or.inr ⟨‹_›, hnew⟩
    · exact Or.inl h

theorem mem_leakingAfter_of_mem (h : id ∈ pass.leaking) :
    id ∈ pass.leakingAfter g isGlobal unit moved := by
  rw [leakingAfter]
  split
  · exact h
  · split
    · exact List.mem_append_left _ h
    · exact h

end Pass

namespace Program

variable {η : Type} {p q : Program η} {unit id : UnitId}

/-! ### Handing out -/

/-- The unit is handed out next, by this pass, and these roots are left: the pass is the one under
way, or, when that has nothing left, a new one. -/
inductive HandedOut (p : Program η) (unit : UnitId) : Pass → List Root → Prop
  | byPass {pass : Pass} {rest : List UnitId} (hcurrent : p.current = some pass)
      (hqueue : pass.queue.dropWhile p.processed.contains = unit :: rest) :
      HandedOut p unit { pass with
        queue := rest, inFlight := some unit, yielded := pass.yielded ++ [unit] } p.roots
  | asRoot {root : Root} {rest : List Root}
      (hexhausted : ∀ pass, p.current = some pass → ∀ id ∈ pass.queue, id ∈ p.processed)
      (hroots : (p.roots.dropWhile fun root => p.processed.contains root.unit) = root :: rest)
      (hunit : root.unit = unit) :
      HandedOut p unit { Pass.start unit root.isGlobal with
        queue := [], inFlight := some unit, yielded := [unit] } rest

theorem handedOut_of_nextUnit (htidy : p.Tidy) (h : p.nextUnit = (some unit, q)) :
    ∃ pass roots, p.HandedOut unit pass roots ∧ pass.inFlight = some unit
      ∧ q = { p with current := some pass, roots } := by
  rcases nextUnit_cases p with ⟨pass, pass', unit', hcurrent, hnext, hsome⟩ | ⟨hexhausted, hroot⟩
  · rw [hsome, Prod.mk.injEq, Option.some.injEq] at h
    obtain ⟨rfl, rfl⟩ := h
    obtain ⟨rest, hqueue, _, rfl⟩ := Pass.next?_some (htidy.landed pass hcurrent) hnext
    exact ⟨_, _, .byPass hcurrent hqueue, rfl, rfl⟩
  · rw [hroot] at h
    obtain ⟨root, rest, hroots, hunit, _, rfl⟩ := nextRoot_some h
    refine ⟨_, _, .asRoot (fun pass hcurrent => ?_) hroots hunit, rfl, rfl⟩
    exact Pass.next?_none (htidy.landed pass hcurrent) (hexhausted pass hcurrent)

/-! ### What the pass under way has reached -/

/-- A unit was processed or is owed by the pass under way. -/
def Reached (p : Program η) (id : UnitId) : Prop :=
  id ∈ p.processed ∨ ∃ pass, p.current = some pass ∧ id ∈ pass.remaining

/-- Every unit was processed or is owed by the pass under way. -/
def AllReached (p : Program η) : Prop :=
  ∀ id ∈ p.state.graph.units, p.Reached id

theorem Reached.covered (h : p.Reached id) : p.Covered id := by
  rcases h with hdone | ⟨pass, hcurrent, howed⟩
  · exact Or.inl hdone
  · refine Or.inr (List.mem_append_left _ ?_)
    rw [hcurrent]
    exact howed

/-- Between two calls, what is reached and not processed is in the queue of the pass. -/
theorem Reached.mem_queue (htidy : p.Tidy) (h : p.Reached id) (hfresh : id ∉ p.processed) :
    ∃ pass, p.current = some pass ∧ id ∈ pass.queue := by
  rcases h with hdone | ⟨pass, hcurrent, howed⟩
  · exact absurd hdone hfresh
  · refine ⟨pass, hcurrent, ?_⟩
    simpa [Pass.remaining, htidy.landed pass hcurrent] using howed

/-- What is reached and not processed is handed out, or stays in the queue of the pass. -/
theorem HandedOut.eq_or_mem_queue {pass : Pass} {roots : List Root} (htidy : p.Tidy)
    (h : p.HandedOut unit pass roots) (hid : p.Reached id) (hfresh : id ∉ p.processed) :
    id = unit ∨ id ∈ pass.queue := by
  obtain ⟨current, hcurrent, hwaits⟩ := hid.mem_queue htidy hfresh
  cases h with
  | byPass hcurrent' hrest =>
      cases hcurrent.symm.trans hcurrent'
      rcases Pass.mem_dropWhile_or p.processed.contains hwaits with hskipped | hmem
      · exact absurd (by simpa using hskipped) hfresh
      · rw [hrest] at hmem
        exact List.mem_cons.mp hmem
  | asRoot hexhausted _ _ => exact absurd (hexhausted current hcurrent id hwaits) hfresh

/-- The pass goes on from the pass under way, or starts with a root, once everything that was reached
is processed. -/
theorem HandedOut.origin {pass : Pass} {roots : List Root} (htidy : p.Tidy)
    (h : p.HandedOut unit pass roots) :
    (∃ current, p.current = some current ∧ unit ∈ current.queue ∧ pass.root = current.root
        ∧ pass.leaking = current.leaking ∧ ∀ id ∈ pass.queue, id ∈ current.queue)
      ∨ (∀ id, p.Reached id → id ∈ p.processed) ∧ ∃ root ∈ p.roots, root.unit = unit
        ∧ pass.root = unit ∧ pass.isGlobal = root.isGlobal ∧ pass.leaking = [] ∧ pass.queue = [] := by
  cases h with
  | @byPass current rest hcurrent hqueue =>
      have hwaits : ∀ id ∈ unit :: rest, id ∈ current.queue := by
        rw [← hqueue]
        exact fun id hid => (List.dropWhile_sublist _).subset hid
      refine Or.inl ⟨current, hcurrent, hwaits unit List.mem_cons_self, rfl, rfl, fun id hid => ?_⟩
      exact hwaits id (List.mem_cons_of_mem _ hid)
  | @asRoot root rest hexhausted hroots hunit =>
      have hmem : root ∈ p.roots.dropWhile fun root => p.processed.contains root.unit := by
        rw [hroots]
        exact List.mem_cons_self
      refine Or.inr ⟨fun id hid => ?_, root, (List.dropWhile_sublist _).subset hmem, hunit, rfl, rfl,
        rfl, rfl⟩
      by_cases hdone : id ∈ p.processed
      · exact hdone
      · obtain ⟨current, hcurrent, hwaits⟩ := hid.mem_queue htidy hdone
        exact hexhausted current hcurrent id hwaits

/-- No root is added. -/
theorem HandedOut.roots_sublist {pass : Pass} {roots : List Root} (h : p.HandedOut unit pass roots) :
    roots.Sublist p.roots := by
  cases h with
  | byPass _ _ => exact List.Sublist.refl _
  | @asRoot root _ _ hroots _ =>
      have hrest := List.dropWhile_sublist (l := p.roots) fun root => p.processed.contains root.unit
      rw [hroots] at hrest
      exact (List.sublist_cons_self root _).trans hrest

/-- A root whose unit is neither processed nor handed out stays. -/
theorem HandedOut.mem_roots {pass : Pass} {roots : List Root} (h : p.HandedOut unit pass roots)
    {root : Root} (hroot : root ∈ p.roots) (hfresh : root.unit ∉ p.processed)
    (hne : root.unit ≠ unit) : root ∈ roots := by
  cases h with
  | byPass _ _ => exact hroot
  | asRoot _ hroots hunit =>
      rcases Pass.mem_dropWhile_or (fun root => p.processed.contains root.unit) hroot
        with hdone | hmem
      · exact absurd (by simpa using hdone) hfresh
      · rw [hroots] at hmem
        rcases List.mem_cons.mp hmem with rfl | hrest
        · exact absurd hunit hne
        · exact hrest

/-- As long as a unit is reached and not processed, the pass under way goes on. -/
theorem HandedOut.continues {pass : Pass} {roots : List Root} (htidy : p.Tidy)
    (h : p.HandedOut unit pass roots) (hreached : p.Reached id) (hfresh : id ∉ p.processed) :
    ∃ current, p.current = some current ∧ pass.leaking = current.leaking := by
  rcases h.origin htidy with ⟨current, hcurrent, _, _, hsame, _⟩ | ⟨hexhausted, _⟩
  · exact ⟨current, hcurrent, hsame⟩
  · exact absurd (hexhausted id hreached) hfresh

/-- A step that is no recheck leaves the pass and the roots alone, or finds that nothing is left. -/
def Idles (p q : Program η) : Prop :=
  (q.current = p.current ∧ q.roots = p.roots)
    ∨ (q.current = none ∧ q.roots = [] ∧ ∀ id ∈ p.frontier, id ∈ p.processed)

theorem Idles.reached (h : p.Idles q) (hprocessed : q.processed = p.processed)
    (hid : p.Reached id) : q.Reached id := by
  rcases h with ⟨hcurrent, _⟩ | ⟨_, _, hdone⟩
  · rw [Reached, hcurrent, hprocessed]
    exact hid
  · refine Or.inl ?_
    rw [hprocessed]
    exact hid.covered.elim (fun h => h) (hdone id)

/-! ### Visits -/

section Visits

variable [Host η]

/-- What the recheck of a unit calls for in a pass. -/
def calls (p : Program η) (unit : UnitId) (pass : Pass) : List UnitId :=
  pass.calls p.state.graph (p.recheckOf unit).isGlobal unit (p.recheckOf unit).moved

/-- The pass after the recheck of a unit, before it takes what the recheck calls for. -/
def landed (p : Program η) (unit : UnitId) (pass : Pass) : Pass :=
  { pass with
    inFlight := none
    leaking := pass.leakingAfter p.state.graph (p.recheckOf unit).isGlobal unit
      (p.recheckOf unit).moved }

/-- The recheck of `unit` in `pass`, which leads from `p` to `q`. -/
structure Visits (p : Program η) (unit : UnitId) (pass : Pass) (q : Program η) : Prop where
  fresh : unit ∉ p.processed
  handed : p.HandedOut unit pass q.roots
  processed : q.processed = p.processed ++ [unit]
  current : q.current = some ((p.landed unit pass).enqueue (p.calls unit pass) q.processed).1
  graph : q.state.graph = p.state.graph
  tidy : q.Tidy

theorem visits_of_nextUnit (htidy : p.Tidy) (h : p.nextUnit = (some unit, q)) :
    ∃ pass, q.current = some pass ∧ p.Visits unit pass (q.afterRecheck unit) := by
  obtain ⟨hrechecks, hsame⟩ := rechecks_of_nextUnit htidy h
  obtain ⟨pass, roots, hhanded, hflight, rfl⟩ := handedOut_of_nextUnit htidy h
  obtain ⟨cancelled, pendingEmit, hafter⟩ :=
    afterRecheck_eq unit (p := { p with current := some pass, roots }) rfl
  refine ⟨pass, rfl, hrechecks.fresh, ?_, hrechecks.processed, ?_, ?_, hrechecks.tidy⟩
  · rw [hafter]
    exact hhanded
  · rw [hafter, Pass.complete_eq_enqueue, if_pos hflight, hsame]
    rfl
  · rw [hafter]
    rfl

namespace Visits

variable {pass : Pass}

theorem unit_mem_processed (h : p.Visits unit pass q) : unit ∈ q.processed := by
  rw [h.processed]
  exact List.mem_append_right _ List.mem_cons_self

theorem mem_processed (h : p.Visits unit pass q) (hid : id ∈ p.processed) : id ∈ q.processed := by
  rw [h.processed]
  exact List.mem_append_left _ hid

/-- The pass after the visit. -/
theorem exists_current (h : p.Visits unit pass q) :
    ∃ later, q.current = some later ∧ later.root = pass.root
      ∧ later.leaking = (p.landed unit pass).leaking
      ∧ (∀ id, id ∈ later.queue ↔ id ∈ pass.queue
        ∨ id ∈ ((p.landed unit pass).enqueue (p.calls unit pass) q.processed).2)
      ∧ ∀ id ∈ p.calls unit pass, id ∈ q.processed ∨ id ∈ later.visited := by
  refine ⟨_, h.current, rfl, rfl, fun id => Pass.mem_queue_enqueue, fun id hid => ?_⟩
  by_cases hdone : id ∈ q.processed
  · exact Or.inl hdone
  · refine Or.inr (List.mem_append.mpr ?_)
    by_cases hvisited : id ∈ (p.landed unit pass).visited
    · exact Or.inl hvisited
    · exact Or.inr (Pass.mem_snd_enqueue.mpr ⟨hid, hdone, hvisited⟩)

/-- A unit that waits in the pass afterwards waited before in the pass that goes on, or is called
for. -/
theorem mem_queue_cases (htidy : p.Tidy) (h : p.Visits unit pass q) {later : Pass}
    (hlater : q.current = some later) (hid : id ∈ later.queue) :
    (∃ current, p.current = some current ∧ id ∈ current.queue) ∨ id ∈ p.calls unit pass := by
  obtain ⟨later', hlater', _, _, hqueue, _⟩ := h.exists_current
  cases hlater.symm.trans hlater'
  rcases (hqueue id).mp hid with hold | hnew
  · rcases h.handed.origin htidy
      with ⟨current, hcurrent, _, _, _, hwaits⟩ | ⟨_, _, _, _, _, _, _, hempty⟩
    · exact Or.inl ⟨current, hcurrent, hwaits id hold⟩
    · rw [hempty] at hold
      simp at hold
  · exact Or.inr (Pass.mem_snd_enqueue.mp hnew).1

/-- Nothing is covered afterwards that was not covered before and is not called for. -/
theorem covered_cases (htidy : p.Tidy) (h : p.Visits unit pass q) (hunit : unit ∈ p.frontier)
    (hid : q.Covered id) : p.Covered id ∨ id ∈ p.calls unit pass := by
  rcases hid with hdone | hwaits
  · rw [h.processed] at hdone
    rcases List.mem_append.mp hdone with hdone | hself
    · exact Or.inl (Or.inl hdone)
    · rw [List.mem_singleton.mp hself]
      exact Or.inl (Or.inr hunit)
  · obtain ⟨later, hlater, _⟩ := h.exists_current
    have hsplit : id ∈ later.queue ∨ id ∈ q.roots.map (·.unit) := by
      simpa [frontier, hlater, Pass.remaining, h.tidy.landed later hlater] using hwaits
    rcases hsplit with hqueue | hroots
    · rcases h.mem_queue_cases htidy hlater hqueue with ⟨current, hcurrent, hold⟩ | hcalled
      · refine Or.inl (Or.inr (List.mem_append_left _ ?_))
        rw [hcurrent]
        exact List.mem_append_right _ hold
      · exact Or.inr hcalled
    · refine Or.inl (Or.inr (List.mem_append_right _ ?_))
      exact (h.handed.roots_sublist.map _).subset hroots

/-- Whatever the recheck calls for is reached. -/
theorem reached_of_mem_calls (h : p.Visits unit pass q) (hid : id ∈ p.calls unit pass) :
    q.Reached id := by
  obtain ⟨later, hcurrent, _, _, _, hcalls⟩ := h.exists_current
  rcases hcalls id hid with hdone | hvisited
  · exact Or.inl hdone
  · rcases h.tidy.accounts later hcurrent id hvisited with hdone | howed
    · exact Or.inl hdone
    · exact Or.inr ⟨later, hcurrent, howed⟩

/-- What was reached stays reached. -/
theorem reached (htidy : p.Tidy) (h : p.Visits unit pass q) (hid : p.Reached id) :
    q.Reached id := by
  by_cases hdone : id ∈ p.processed
  · exact Or.inl (h.mem_processed hdone)
  · obtain ⟨later, hcurrent, _, _, hqueue, _⟩ := h.exists_current
    rcases h.handed.eq_or_mem_queue htidy hid hdone with rfl | hwaits
    · exact Or.inl h.unit_mem_processed
    · exact Or.inr ⟨later, hcurrent, List.mem_append_right _ ((hqueue id).mpr (Or.inl hwaits))⟩

theorem allReached (htidy : p.Tidy) (h : p.Visits unit pass q) (hall : p.AllReached) :
    q.AllReached := by
  intro id hid
  rw [h.graph] at hid
  exact h.reached htidy (hall id hid)

/-- A recheck that concerns every unit reaches every unit. -/
theorem allReached_of_concernsAll (h : p.Visits unit pass q)
    (hall : pass.concernsAll p.state.graph (p.recheckOf unit).isGlobal unit
      (pass.isMoved unit (p.recheckOf unit).moved) = true) : q.AllReached := by
  intro id hid
  rw [h.graph] at hid
  refine h.reached_of_mem_calls ?_
  rw [calls, Pass.calls, if_pos hall]
  exact hid

end Visits

end Visits

end Program

open Program in
/-- **What a step does to the passes.**  Either it is the recheck of a unit in a pass, or nothing is
rechecked and the pass and the roots are left alone until there is nothing left. -/
theorem Step.visits {η : Type} [Host η] {allowed : (η → η) → Prop} {p q : Program η}
    {log : List Recheck} (htidy : p.Tidy) (h : Step allowed p log q) :
    (∃ unit pass, log = [p.recheckOf unit] ∧ p.Rechecks unit q ∧ p.Visits unit pass q)
      ∨ (log = [] ∧ p.Rests q ∧ p.Idles q) := by
  have hidles : log = [] → p.Idles q → p.Rests q ∧ p.Idles q := by
    intro hlog hidles
    rcases Step.cases htidy h with ⟨unit, hsome, _⟩ | ⟨_, hrests⟩
    · rw [hlog] at hsome
      simp at hsome
    · exact ⟨hrests, hidles⟩
  cases h with
  | recheck next =>
      obtain ⟨hrechecks, hsame⟩ := rechecks_of_nextUnit htidy next
      obtain ⟨pass, _, hvisits⟩ := visits_of_nextUnit htidy next
      exact Or.inl ⟨_, pass, by rw [hsame], hrechecks, hvisits⟩
  | exhaust phase next =>
      obtain ⟨hdone, hq⟩ := nextUnit_none htidy next
      refine Or.inr ⟨rfl, hidles rfl (Or.inr ⟨?_, ?_, hdone⟩)⟩
      · rw [hq]
      · rw [hq]
  | emit queue entry =>
      obtain ⟨host, deferred, hemit⟩ :=
        emit_frame { p with pendingEmit := queue, phase := .emitPending } entry
      refine Or.inr ⟨rfl, hidles rfl (Or.inl ⟨?_, ?_⟩)⟩
      · rw [hemit]
      · rw [hemit]
  | demand unit =>
      obtain ⟨host, cancelled, cache, hdemand, _⟩ := diagnosticsOf_frame p unit
      refine Or.inr ⟨rfl, hidles rfl (Or.inl ⟨?_, ?_⟩)⟩
      · rw [hdemand]
      · rw [hdemand]
  | edit change hallowed => exact Or.inr ⟨rfl, hidles rfl (Or.inl ⟨rfl, rfl⟩)⟩
  | token cancelled => exact Or.inr ⟨rfl, hidles rfl (Or.inl ⟨rfl, rfl⟩)⟩
  | switch options => exact Or.inr ⟨rfl, hidles rfl (Or.inl ⟨rfl, rfl⟩)⟩

end Rebuild
