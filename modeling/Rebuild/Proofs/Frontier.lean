import Rebuild.Program.Pull
import Rebuild.Proofs.Pass

/-!
# The frontier of a round

The units that wait to be rechecked are in the current pass or among the roots.

* `Program.frontier`: the units waiting in the current pass and among the roots;
* `Program.Covered`: a unit was processed in this round or waits in the frontier;
* `Program.Tidy`: what holds of a program between two calls;
* `Program.nextUnit_some`, `Program.nextUnit_none`: choosing the next unit loses none that waits;
* `Program.Tidy.processed_of_finished`: when no check is left to pull, everything was processed.
-/

namespace Rebuild

namespace Program

variable {η : Type} {p q : Program η} {unit id : UnitId}

/-! ### The next unit -/

/-- The units waiting in the current pass and among the roots. -/
def frontier (p : Program η) : List UnitId :=
  (match p.current with
    | some pass => pass.remaining
    | none => []) ++ p.roots.map (·.unit)

/-- A unit was processed in this round or waits for it. -/
def Covered (p : Program η) (id : UnitId) : Prop :=
  id ∈ p.processed ∨ id ∈ p.frontier

/-- A unit waits to be processed in this round. -/
def Owed (p : Program η) (id : UnitId) : Prop :=
  id ∈ p.frontier ∧ id ∉ p.processed

/-- What holds between two calls: the records are parallel to the units, nothing is in flight, the
current pass accounts for what it has visited, only units of the program wait, and none waits when
the program is done. -/
structure Tidy (p : Program η) : Prop where
  wellFormed : p.state.WellFormed
  landed : ∀ pass, p.current = some pass → pass.inFlight = none
  accounts : ∀ pass, p.current = some pass → pass.Accounts p.processed
  bounded : ∀ id ∈ p.frontier, id < p.state.graph.size
  finished : p.phase = .done → ∀ id ∈ p.frontier, id ∈ p.processed

theorem Covered.processed_or_owed (h : p.Covered id) : id ∈ p.processed ∨ p.Owed id := by
  by_cases hdone : id ∈ p.processed
  · exact Or.inl hdone
  · exact Or.inr ⟨h.resolve_left hdone, hdone⟩

/-- The program with a unit in flight: everything that waited still waits or was processed, and
nothing else waits. -/
structure HandsOut (p : Program η) (unit : UnitId) (q : Program η) : Prop where
  fresh : unit ∉ p.processed
  inFlight : ∃ pass, q.current = some pass ∧ pass.inFlight = some unit ∧ pass.Accounts p.processed
  waiting : ∀ id ∈ p.frontier, id ∈ p.processed ∨ id ∈ q.frontier
  known : ∀ id ∈ q.frontier, id ∈ p.frontier
  same : q = { p with current := q.current, roots := q.roots }

theorem mem_units_dropWhile_or (processed : List UnitId) {roots : List Root}
    (h : id ∈ roots.map (·.unit)) : id ∈ processed ∨
      id ∈ (roots.dropWhile fun root => processed.contains root.unit).map (·.unit) := by
  obtain ⟨root, hroot, rfl⟩ := List.mem_map.mp h
  rcases Pass.mem_dropWhile_or (fun root => processed.contains root.unit) hroot with hdone | hrest
  · exact Or.inl (by simpa using hdone)
  · exact Or.inr (List.mem_map_of_mem hrest)

/-- The pass of an unprocessed root starts with that root. -/
theorem next?_start (hfresh : unit ∉ p.processed) (isGlobal : Bool) :
    (Pass.start unit isGlobal).next? p.processed
      = (some unit, { Pass.start unit isGlobal with
          queue := [], inFlight := some unit, yielded := [unit] }) := by
  have hqueue : [unit].dropWhile p.processed.contains = [unit] := by
    rw [List.dropWhile_cons_of_neg (by simpa using hfresh)]
  simp only [Pass.next?, Pass.start, hqueue, List.nil_append]

/-- Starting the pass of the next root hands out that root. -/
theorem nextRoot_some (h : p.nextRoot = (some unit, q)) :
    ∃ root rest, (p.roots.dropWhile fun root => p.processed.contains root.unit) = root :: rest ∧
      root.unit = unit ∧ unit ∉ p.processed ∧
      q = { p with
        current := some { Pass.start unit root.isGlobal with
          queue := [], inFlight := some unit, yielded := [unit] }
        roots := rest } := by
  rw [nextRoot] at h
  cases hroots : p.roots.dropWhile fun root => p.processed.contains root.unit with
  | nil => simp only [hroots, Prod.mk.injEq, reduceCtorEq, false_and] at h
  | cons root rest =>
      have hfresh : root.unit ∉ p.processed := by simpa using Pass.eq_false_of_dropWhile hroots
      simp only [hroots, next?_start hfresh, Prod.mk.injEq, Option.some.injEq] at h
      obtain ⟨rfl, rfl⟩ := h
      exact ⟨root, rest, rfl, rfl, hfresh, rfl⟩

theorem nextRoot_none (h : p.nextRoot = (none, q)) :
    (∀ root ∈ p.roots, root.unit ∈ p.processed) ∧ q = { p with current := none, roots := [] } := by
  rw [nextRoot] at h
  cases hroots : p.roots.dropWhile fun root => p.processed.contains root.unit with
  | nil =>
      simp only [hroots, Prod.mk.injEq, true_and] at h
      refine ⟨fun root hroot => ?_, h.symm⟩
      rcases mem_units_dropWhile_or p.processed (List.mem_map_of_mem hroot)
        with hdone | hrest
      · exact hdone
      · rw [hroots] at hrest
        simp at hrest
  | cons root rest =>
      exfalso
      have hfresh : root.unit ∉ p.processed := by simpa using Pass.eq_false_of_dropWhile hroots
      simp only [hroots, next?_start hfresh, Prod.mk.injEq, reduceCtorEq, false_and] at h

/-- A pass that hands nothing out leaves the next unit to the roots. -/
theorem nextUnit_cases (p : Program η) :
    (∃ pass pass' unit, p.current = some pass ∧ pass.next? p.processed = (some unit, pass') ∧
        p.nextUnit = (some unit, { p with current := some pass' }))
      ∨ ((∀ pass, p.current = some pass → (pass.next? p.processed).1 = none) ∧
        p.nextUnit = p.nextRoot) := by
  cases hcurrent : p.current with
  | none => exact Or.inr ⟨by simp, by rw [nextUnit, hcurrent]⟩
  | some pass =>
      cases hnext : pass.next? p.processed with
      | mk unit pass' =>
          cases unit with
          | none =>
              refine Or.inr ⟨fun _ h => ?_, by simp [nextUnit, hcurrent, hnext]⟩
              cases h
              rw [hnext]
          | some unit =>
              exact Or.inl ⟨pass, pass', unit, rfl, hnext, by simp [nextUnit, hcurrent, hnext]⟩

/-- A pass that hands nothing out owes nothing but processed units. -/
theorem Tidy.processed_of_exhausted (htidy : p.Tidy)
    (hexhausted : ∀ pass, p.current = some pass → (pass.next? p.processed).1 = none)
    (hid : id ∈ match p.current with
      | some pass => pass.remaining
      | none => []) : id ∈ p.processed := by
  cases hcurrent : p.current with
  | none =>
      rw [hcurrent] at hid
      simp at hid
  | some pass =>
      rw [hcurrent] at hid
      have hlanded := htidy.landed pass hcurrent
      have hqueue : id ∈ pass.queue := by simpa [Pass.remaining, hlanded] using hid
      exact Pass.next?_none hlanded (hexhausted pass hcurrent) id hqueue

/-- The current pass hands out a unit of its queue. -/
theorem handsOut_of_pass (htidy : p.Tidy) {pass pass' : Pass} (hcurrent : p.current = some pass)
    (hnext : pass.next? p.processed = (some unit, pass')) :
    p.HandsOut unit { p with current := some pass' } := by
  have hlanded := htidy.landed pass hcurrent
  obtain ⟨rest, hqueue, hfresh, rfl⟩ := Pass.next?_some hlanded hnext
  have hqueued : ∀ id ∈ pass.queue, id ∈ p.processed ∨ id ∈ unit :: rest := by
    intro id hid
    rw [← hqueue]
    rcases Pass.mem_dropWhile_or p.processed.contains hid with hdone | hrest
    · exact Or.inl (by simpa using hdone)
    · exact Or.inr hrest
  have hsub : ∀ id ∈ unit :: rest, id ∈ pass.queue := by
    intro id hid
    rw [← hqueue] at hid
    exact (List.dropWhile_sublist _).subset hid
  refine ⟨hfresh, ⟨_, rfl, rfl, fun id hid => ?_⟩, fun id hid => ?_, fun id hid => ?_, rfl⟩
  · rcases htidy.accounts pass hcurrent id hid with hdone | howed
    · exact Or.inl hdone
    · simp only [Pass.remaining, hlanded, Option.toList_none, List.nil_append] at howed
      exact hqueued id howed
  · simp only [frontier, hcurrent, Pass.remaining, hlanded, Option.toList_none,
      List.nil_append, List.mem_append] at hid
    rcases hid with hpass | hroots
    · rcases hqueued id hpass with hdone | hrest
      · exact Or.inl hdone
      · exact Or.inr (List.mem_append_left _ hrest)
    · exact Or.inr (List.mem_append_right _ hroots)
  · simp only [frontier, hcurrent, Pass.remaining, hlanded, Option.toList_none, List.nil_append]
    rcases List.mem_append.mp hid with hpass | hroots
    · exact List.mem_append_left _ (hsub id hpass)
    · exact List.mem_append_right _ hroots

/-- When the current pass is exhausted, the next root is handed out. -/
theorem handsOut_of_root (htidy : p.Tidy)
    (hexhausted : ∀ pass, p.current = some pass → (pass.next? p.processed).1 = none)
    (h : p.nextRoot = (some unit, q)) : p.HandsOut unit q := by
  obtain ⟨root, rest, hroots, rfl, hfresh, rfl⟩ := nextRoot_some h
  refine ⟨hfresh, ⟨_, rfl, rfl, fun id hid => ?_⟩, fun id hid => ?_, fun id hid => ?_, rfl⟩
  · exact Or.inr (by simpa [Pass.start, Pass.remaining] using hid)
  · rcases List.mem_append.mp hid with hpass | hwaiting
    · exact Or.inl (htidy.processed_of_exhausted hexhausted hpass)
    · rcases mem_units_dropWhile_or p.processed hwaiting with hdone | hrest
      · exact Or.inl hdone
      · rw [hroots] at hrest
        exact Or.inr (by simpa [frontier, Pass.start, Pass.remaining] using hrest)
  · have hmem : id ∈ (root :: rest).map (·.unit) := by
      simpa [frontier, Pass.start, Pass.remaining] using hid
    rw [← hroots] at hmem
    obtain ⟨other, hother, rfl⟩ := List.mem_map.mp hmem
    refine List.mem_append_right _ (List.mem_map_of_mem ?_)
    exact (List.dropWhile_sublist _).subset hother

theorem nextUnit_some (htidy : p.Tidy) (h : p.nextUnit = (some unit, q)) : p.HandsOut unit q := by
  rcases nextUnit_cases p with ⟨pass, pass', unit', hcurrent, hnext, hsome⟩ | ⟨hexhausted, hroot⟩
  · rw [hsome, Prod.mk.injEq, Option.some.injEq] at h
    obtain ⟨rfl, rfl⟩ := h
    exact handsOut_of_pass htidy hcurrent hnext
  · rw [hroot] at h
    exact handsOut_of_root htidy hexhausted h

/-- When no unit is left, neither the pass nor the roots are kept. -/
theorem eq_of_nextUnit_none (h : p.nextUnit = (none, q)) :
    q = { p with current := none, roots := [] } := by
  rcases nextUnit_cases p with ⟨_, _, _, _, _, hsome⟩ | ⟨_, hroot⟩
  · rw [hsome] at h
    simp at h
  · exact (nextRoot_none (hroot ▸ h)).2

theorem nextUnit_none (htidy : p.Tidy) (h : p.nextUnit = (none, q)) :
    (∀ id ∈ p.frontier, id ∈ p.processed) ∧ q = { p with current := none, roots := [] } := by
  rcases nextUnit_cases p with ⟨pass, pass', unit, hcurrent, hnext, hsome⟩ | ⟨hexhausted, hroot⟩
  · rw [hsome] at h
    simp at h
  · refine ⟨fun id hid => ?_, eq_of_nextUnit_none h⟩
    rw [hroot] at h
    obtain ⟨hroots, _⟩ := nextRoot_none h
    rcases List.mem_append.mp hid with hpass | hwaiting
    · exact htidy.processed_of_exhausted hexhausted hpass
    · obtain ⟨root, hroot', rfl⟩ := List.mem_map.mp hwaiting
      exact hroots root hroot'

/-! ### Finished rounds -/

/-- The round is finished: no check is left to pull. -/
def Finished [Host η] (p : Program η) : Prop :=
  p.pullCheck.1 = .ok none

instance [Host η] (p : Program η) : Decidable p.Finished :=
  match h : p.pullCheck.1 with
  | .ok none => isTrue h
  | .ok (some checked) => isFalse (by simp [Finished, h])
  | .error e => isFalse (by simp [Finished, h])

/-- In a finished round, everything that waited was processed. -/
theorem Tidy.processed_of_finished [Host η] (htidy : p.Tidy) (h : p.Finished) (hid : p.Covered id) :
    id ∈ p.processed := by
  refine hid.elim (fun hdone => hdone) (fun hwaits => ?_)
  rw [Finished, pullCheck] at h
  split at h
  · rename_i hdone
    exact htidy.finished hdone id hwaits
  · split at h
    · cases h
    · cases hnext : p.nextUnit with
      | mk unit q =>
          rw [hnext] at h
          cases unit with
          | none => exact (nextUnit_none htidy hnext).1 id hwaits
          | some unit => cases h

end Program

end Rebuild
