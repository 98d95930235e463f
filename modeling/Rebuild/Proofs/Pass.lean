import Rebuild.Affected
import Rebuild.Proofs.State

/-!
# Passes

What a pass hands out and what it puts into its queue.  A pass *accounts for* the units it has
visited: each of them was processed, is in flight, or is still in the queue.

* `Pass.next?_some`, `Pass.next?_none`: the next unit is not processed, and the units that are
  passed over are;
* `Pass.complete_cases`: completing a unit puts some candidates into the queue, among them every
  dependent of a unit whose signature moved, and every unit when the recheck concerns all;
* `Pass.accounts_enqueue`, `Pass.mem_queue_enqueue`: nothing that is visited gets lost on the way.
-/

namespace Rebuild

namespace Pass

variable {pass pass' : Pass} {processed : List UnitId} {unit id : UnitId}

/-- Every unit that entered the queue was processed or is still owed. -/
def Accounts (pass : Pass) (processed : List UnitId) : Prop :=
  ∀ id ∈ pass.visited, id ∈ processed ∨ id ∈ pass.remaining

/-! ### Handing out -/

/-- What is passed over was processed. -/
theorem mem_dropWhile_or {α : Type} (skips : α → Bool) {x : α} {xs : List α} (h : x ∈ xs) :
    skips x = true ∨ x ∈ xs.dropWhile skips := by
  induction xs with
  | nil => simp at h
  | cons first rest ih =>
      by_cases hfirst : skips first = true
      · rw [List.dropWhile_cons_of_pos hfirst]
        rcases List.mem_cons.mp h with rfl | hrest
        · exact Or.inl hfirst
        · exact ih hrest
      · rw [List.dropWhile_cons_of_neg hfirst]
        exact Or.inr h

/-- What comes next was not. -/
theorem eq_false_of_dropWhile {α : Type} {skips : α → Bool} {x : α} {xs rest : List α}
    (h : xs.dropWhile skips = x :: rest) : skips x = false := by
  have hhead := List.head?_dropWhile_not skips xs
  rw [h] at hhead
  simpa using hhead

/-- What is handed out comes from the queue and is not processed; the rest of the queue stays. -/
theorem next?_some (hflight : pass.inFlight = none) (h : pass.next? processed = (some unit, pass')) :
    ∃ rest, pass.queue.dropWhile processed.contains = unit :: rest ∧ unit ∉ processed ∧
      pass' = { pass with
        queue := rest, inFlight := some unit, yielded := pass.yielded ++ [unit] } := by
  rw [next?, hflight] at h
  cases hqueue : pass.queue.dropWhile processed.contains with
  | nil => simp [hqueue] at h
  | cons first rest =>
      simp only [hqueue, Prod.mk.injEq, Option.some.injEq] at h
      obtain ⟨rfl, rfl⟩ := h
      exact ⟨rest, rfl, by simpa using eq_false_of_dropWhile hqueue, rfl⟩

/-- A pass that hands nothing out has only processed units in its queue. -/
theorem next?_none (hflight : pass.inFlight = none) (h : (pass.next? processed).1 = none) :
    ∀ id ∈ pass.queue, id ∈ processed := by
  intro id hid
  rw [next?, hflight] at h
  cases hqueue : pass.queue.dropWhile processed.contains with
  | nil =>
      rcases mem_dropWhile_or processed.contains hid with hdone | hrest
      · simpa using hdone
      · rw [hqueue] at hrest
        simp at hrest
  | cons first rest => simp [hqueue] at h

/-! ### Completing -/

theorem mem_snd_enqueue {candidates : List UnitId} :
    id ∈ (pass.enqueue candidates processed).2
      ↔ id ∈ candidates ∧ id ∉ processed ∧ id ∉ pass.visited := by
  simp [enqueue]

theorem mem_queue_enqueue {candidates : List UnitId} :
    id ∈ (pass.enqueue candidates processed).1.queue
      ↔ id ∈ pass.queue ∨ id ∈ (pass.enqueue candidates processed).2 := by
  simp [enqueue]

@[simp] theorem inFlight_enqueue (candidates : List UnitId) :
    (pass.enqueue candidates processed).1.inFlight = pass.inFlight := rfl

theorem accounts_enqueue (candidates : List UnitId) (h : pass.Accounts processed) :
    (pass.enqueue candidates processed).1.Accounts processed := by
  intro id hid
  rw [remaining, inFlight_enqueue, List.mem_append, mem_queue_enqueue]
  rcases List.mem_append.mp hid with hold | hfresh
  · rcases h id hold with hdone | howed
    · exact Or.inl hdone
    · rcases List.mem_append.mp howed with hflight | hqueue
      · exact Or.inr (Or.inl hflight)
      · exact Or.inr (Or.inr (Or.inl hqueue))
  · exact Or.inr (Or.inr (Or.inr hfresh))

/-- Every candidate was processed or is owed by the pass after it was offered to the queue. -/
theorem mem_of_mem_candidates {candidates : List UnitId} (h : pass.Accounts processed)
    (hflight : pass.inFlight = none) (hid : id ∈ candidates) :
    id ∈ processed ∨ id ∈ (pass.enqueue candidates processed).1.queue := by
  by_cases hdone : id ∈ processed
  · exact Or.inl hdone
  · refine Or.inr (mem_queue_enqueue.mpr ?_)
    by_cases hvisited : id ∈ pass.visited
    · rcases h id hvisited with hdone' | howed
      · exact absurd hdone' hdone
      · exact Or.inl (by simpa [remaining, hflight] using howed)
    · exact Or.inr (mem_snd_enqueue.mpr ⟨hid, hdone, hvisited⟩)

/-- Whether a recheck concerns every unit, apart from what is leaking in the pass. -/
def ConcernsAll (pass : Pass) (g : Graph) (isGlobal : Bool) (unit : UnitId) (moved : Bool) : Prop :=
  g.tracking = false ∨ pass.marksEverything unit = true ∨ (moved = true ∧ isGlobal = true)

/-- **What completing a unit does.**  Some candidates are offered to the queue: all dependents when
the signature moved, and all units when the recheck concerns every unit. -/
theorem complete_cases (pass : Pass) (g : Graph) (isGlobal : Bool) (unit : UnitId) (moved : Bool)
    (processed : List UnitId) (hflight : pass.inFlight = some unit) :
    ∃ candidates leaking,
      pass.complete g isGlobal unit moved processed
        = ({ pass with inFlight := none, leaking := leaking } : Pass).enqueue candidates processed
      ∧ (∀ id ∈ candidates, id ∈ g.units)
      ∧ (moved = true → ∀ id ∈ g.dependentsOf unit, id ∈ candidates)
      ∧ (pass.ConcernsAll g isGlobal unit moved → ∀ id ∈ g.units, id ∈ candidates) := by
  have hdependents : ∀ id ∈ g.dependentsOf unit, id ∈ g.units := fun id hid =>
    Graph.mem_units.mpr (Graph.lt_size_of_mem_dependentsOf hid)
  rw [complete]
  simp only [hflight, if_true]
  split
  · exact ⟨g.units, pass.leaking, rfl, fun _ hid => hid, fun _ => hdependents, fun _ _ hid => hid⟩
  · rename_i hall
    -- the two branches below are reached only when the recheck does not concern all
    have hnot : ¬ pass.ConcernsAll g isGlobal unit moved := by
      intro hconcerns
      refine hall ?_
      rcases hconcerns with htracking | hmarks | ⟨hmoved, hglobal⟩
      · simp [concernsAll, htracking]
      · have hsame : marksEverything { pass with inFlight := none } unit = true := hmarks
        simp [concernsAll, hsame]
      · simp [concernsAll, isMoved, hmoved, hglobal]
    split
    · refine ⟨g.dependentsOf unit, pass.leaking ++ g.exportersOf unit, rfl, hdependents,
        fun _ _ hid => hid, fun hconcerns => absurd hconcerns hnot⟩
    · rename_i hmoved
      refine ⟨[], pass.leaking, by simp [enqueue], by simp, fun hsignature => ?_,
        fun hconcerns => absurd hconcerns hnot⟩
      exact absurd (by simp [isMoved, hsignature]) hmoved

end Pass

end Rebuild
