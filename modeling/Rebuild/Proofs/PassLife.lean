import Mathlib.Data.List.Induction
import Mathlib.Data.List.Infix
import Mathlib.Data.List.Nodup
import Mathlib.Data.List.TakeWhile
import Rebuild.Proofs.Handout

/-!
# The life of a pass

A pass can be asked for the next unit, told about the recheck of any unit, and overtaken by rechecks
elsewhere, in any order.  Whatever happens, no unit gets lost in it and none is handed out twice.

* `Pass.next?_cases`: everything that asking for the next unit can do;
* `Pass.Op`, `Pass.Life`, `Pass.life`: any operations on a pass, with the units that were processed and those
  that were announced when they entered the queue;
* `Pass.Life.Regular`: what the parts of a pass say about each other, kept by each operation;
* `Pass.Queued`, `Pass.PassedOver`: what happened to a unit so far;
* `Pass.none_lost_none_repeated`: where the units are that ever entered the queue.
-/

namespace Rebuild

namespace Pass

variable {g : Graph} {root unit id : UnitId} {isGlobal : Bool}

/-- **Asking for the next unit** leaves the pass alone when a unit is in flight.  Otherwise it skips processed
units at the front of the queue, and hands out the first one that is not, if there is one. -/
theorem next?_cases (pass : Pass) (processed : List UnitId) :
    (pass.next? processed).2 = pass
      ∨ ((∀ id ∈ pass.queue, id ∈ processed) ∧ (pass.next? processed).2 = { pass with queue := [] })
      ∨ ∃ skipped unit rest, pass.queue = skipped ++ unit :: rest ∧ (∀ id ∈ skipped, id ∈ processed)
        ∧ unit ∉ processed
        ∧ (pass.next? processed).2 = { pass with
            queue := rest, inFlight := some unit, yielded := pass.yielded ++ [unit] } := by
  cases hflight : pass.inFlight with
  | some flying => exact Or.inl (by simp [next?, hflight])
  | none =>
      refine Or.inr ?_
      cases hqueue : pass.queue.dropWhile processed.contains with
      | nil =>
          refine Or.inl ⟨fun id hid => ?_, by simp [next?, hflight, hqueue]⟩
          simpa using List.dropWhile_eq_nil_iff.mp hqueue id hid
      | cons unit rest =>
          refine Or.inr ⟨pass.queue.takeWhile processed.contains, unit, rest, ?_, fun id hid => ?_, ?_, ?_⟩
          · rw [← hqueue, List.takeWhile_append_dropWhile]
          · simpa using List.mem_takeWhile_imp hid
          · simpa using eq_false_of_dropWhile hqueue
          · simp [next?, hflight, hqueue]

/-! ### Operations -/

inductive Op where
  /-- It is asked for the next unit. -/
  | next
  /-- It is told that a unit was rechecked, with the global flag of the unit and whether its signature moved. -/
  | complete (unit : UnitId) (isGlobal moved : Bool)
  /-- A unit counts as processed from now on. -/
  | process (unit : UnitId)
  deriving Repr, DecidableEq

/-- A pass with what is around it. -/
structure Life where
  pass : Pass
  /-- The units that were processed against the current program. -/
  processed : List UnitId := []
  /-- The units that were announced when they entered the queue, in order. -/
  announced : List UnitId := []
  deriving Repr, DecidableEq

/-- The pass after one operation. -/
def Life.apply (g : Graph) (l : Life) : Op → Life
  | .next => { l with pass := (l.pass.next? l.processed).2 }
  | .complete unit isGlobal moved =>
      let (pass, entered) := l.pass.complete g isGlobal unit moved l.processed
      { l with pass, announced := l.announced ++ entered }
  | .process unit => { l with processed := l.processed ++ [unit] }

def life (g : Graph) (root : UnitId) (isGlobal : Bool) (ops : List Op) : Life :=
  ops.foldl (Life.apply g) { pass := .start root isGlobal }

theorem life_concat (ops : List Op) (op : Op) :
    life g root isGlobal (ops ++ [op]) = (life g root isGlobal ops).apply g op := by
  simp [life]

/-! ### What the parts of a pass say about each other -/

namespace Life

variable {l : Life}

/-- **Completing a unit** lands it if it is in flight, and puts units into the queue that were never there.  All
these are announced. -/
theorem apply_complete (l : Life) (g : Graph) (unit : UnitId) (isGlobal moved : Bool) :
    ∃ inFlight leaking entered, (inFlight = none ∨ inFlight = l.pass.inFlight)
      ∧ entered.Nodup ∧ (∀ id ∈ entered, id ∉ l.pass.visited)
      ∧ l.apply g (.complete unit isGlobal moved)
        = { l with
            pass := { l.pass with
              inFlight, leaking, queue := l.pass.queue ++ entered, visited := l.pass.visited ++ entered }
            announced := l.announced ++ entered } := by
  have hcalls := l.pass.nodup_calls g isGlobal unit moved
  rw [Life.apply, complete_eq_enqueue]
  refine ⟨_, _, _, ?_, hcalls.filter _, fun id hid => ?_, rfl⟩
  · split
    · exact Or.inl rfl
    · exact Or.inr rfl
  · exact (mem_snd_enqueue.mp hid).2.2

/-- The root and the units that were announced are those that were visited, each once.  Those that were handed
out or wait are among them, each once and in one of these places.  The unit in flight was handed out last. -/
structure Regular (root : UnitId) (l : Life) : Prop where
  visited : l.pass.visited = root :: l.announced
  nodup : l.pass.visited.Nodup
  known : ∀ id ∈ l.pass.yielded ++ l.pass.queue, id ∈ l.pass.visited
  apart : (l.pass.yielded ++ l.pass.queue).Nodup
  flying : ∀ unit, l.pass.inFlight = some unit → l.pass.yielded.getLast? = some unit

theorem regular_start (root : UnitId) (isGlobal : Bool) : Regular root { pass := .start root isGlobal } where
  visited := rfl
  nodup := List.nodup_singleton root
  known := fun _ hid => hid
  apart := List.nodup_singleton root
  flying := nofun

theorem Regular.next (h : l.Regular root) (g : Graph) : (l.apply g .next).Regular root := by
  rw [Life.apply]
  rcases l.pass.next?_cases l.processed with hsame | ⟨-, hpass⟩ | ⟨skipped, unit, rest, hqueue, -, -, hpass⟩
  · rw [hsame]
    exact h
  · rw [hpass]
    refine ⟨h.visited, h.nodup, fun id hid => h.known id ?_, ?_, h.flying⟩
    · exact List.mem_append_left _ (by simpa using hid)
    · have hyielded := (List.nodup_append.mp h.apart).1
      simpa using hyielded
  · -- what was skipped is gone, and the unit moves from one place to the other
    have hsub : ((l.pass.yielded ++ [unit]) ++ rest).Sublist (l.pass.yielded ++ l.pass.queue) := by
      rw [hqueue, List.append_assoc]
      exact (List.Sublist.refl _).append (List.sublist_append_right skipped (unit :: rest))
    rw [hpass]
    refine ⟨h.visited, h.nodup, fun id hid => h.known id (hsub.subset hid), h.apart.sublist hsub, ?_⟩
    intro flying hflying
    cases hflying
    exact List.getLast?_concat

theorem Regular.complete (h : l.Regular root) (g : Graph) (unit : UnitId) (isGlobal moved : Bool) :
    (l.apply g (.complete unit isGlobal moved)).Regular root := by
  obtain ⟨inFlight, leaking, entered, hflight, hentered, hfresh, happly⟩ :=
    l.apply_complete g unit isGlobal moved
  rw [happly]
  constructor
  · show l.pass.visited ++ entered = root :: (l.announced ++ entered)
    rw [h.visited, List.cons_append]
  · show (l.pass.visited ++ entered).Nodup
    rw [List.nodup_append]
    exact ⟨h.nodup, hentered, fun id hid other hother hsame => hfresh other hother (hsame ▸ hid)⟩
  · show ∀ id ∈ l.pass.yielded ++ (l.pass.queue ++ entered), id ∈ l.pass.visited ++ entered
    intro id hid
    rw [← List.append_assoc] at hid
    rcases List.mem_append.mp hid with hold | hnew
    · exact List.mem_append_left _ (h.known id hold)
    · exact List.mem_append_right _ hnew
  · show (l.pass.yielded ++ (l.pass.queue ++ entered)).Nodup
    rw [← List.append_assoc, List.nodup_append]
    exact ⟨h.apart, hentered, fun id hid other hother hsame => hfresh other hother (hsame ▸ h.known id hid)⟩
  · show ∀ flying, inFlight = some flying → l.pass.yielded.getLast? = some flying
    intro flying hflying
    rcases hflight with rfl | rfl
    · cases hflying
    · exact h.flying flying hflying

/-- Every operation keeps the parts of a pass in order. -/
theorem Regular.apply (h : l.Regular root) (g : Graph) (op : Op) : (l.apply g op).Regular root := by
  cases op with
  | next => exact h.next g
  | complete unit isGlobal moved => exact h.complete g unit isGlobal moved
  | process unit => exact ⟨h.visited, h.nodup, h.known, h.apart, h.flying⟩

/-! ### Where units go -/

/-- What was ever visited came from the queue. -/
theorem Regular.mem_visited_apply (h : l.Regular root) (g : Graph) (op : Op) :
    id ∈ (l.apply g op).pass.visited ↔ id ∈ l.pass.visited ∨ id ∈ (l.apply g op).pass.queue := by
  have hknown : id ∈ (l.apply g op).pass.queue → id ∈ (l.apply g op).pass.visited := fun hid =>
    (h.apply g op).known id (List.mem_append_right _ hid)
  cases op with
  | next =>
      have hsame : (l.apply g .next).pass.visited = l.pass.visited := by
        rw [Life.apply]
        rcases l.pass.next?_cases l.processed with hpass | ⟨-, hpass⟩ | ⟨_, _, _, -, -, -, hpass⟩
        · rw [hpass]
        · rw [hpass]
        · rw [hpass]
      rw [hsame] at hknown ⊢
      exact ⟨Or.inl, fun hid => hid.elim (fun hold => hold) hknown⟩
  | complete unit isGlobal moved =>
      obtain ⟨_, _, entered, -, -, -, happly⟩ := l.apply_complete g unit isGlobal moved
      rw [happly] at hknown ⊢
      constructor
      · intro hid
        rcases List.mem_append.mp hid with hold | hnew
        · exact Or.inl hold
        · exact Or.inr (List.mem_append_right _ hnew)
      · intro hid
        exact hid.elim (fun hold => List.mem_append_left _ hold) hknown
  | process unit => exact ⟨Or.inl, fun hid => hid.elim (fun hold => hold) hknown⟩

theorem mem_yielded_apply (g : Graph) (op : Op) (hid : id ∈ l.pass.yielded) : id ∈ (l.apply g op).pass.yielded := by
  cases op with
  | next =>
      rw [Life.apply]
      rcases l.pass.next?_cases l.processed with hpass | ⟨-, hpass⟩ | ⟨_, _, _, -, -, -, hpass⟩
      · rwa [hpass]
      · rwa [hpass]
      · rw [hpass]
        exact List.mem_append_left _ hid
  | complete unit isGlobal moved =>
      obtain ⟨_, _, _, -, -, -, happly⟩ := l.apply_complete g unit isGlobal moved
      rwa [happly]
  | process unit => exact hid

/-- A unit leaves the queue when the pass is asked for the next unit: it is handed out, or it was processed and
is passed over. -/
theorem Regular.leaves_queue (h : l.Regular root) (g : Graph) (hid : id ∈ l.pass.queue) :
    id ∈ (l.apply g .next).pass.queue ∨ id ∈ (l.apply g .next).pass.yielded
      ∨ id ∈ l.processed ∧ id ∉ (l.apply g .next).pass.queue ∧ id ∉ (l.apply g .next).pass.yielded := by
  have happart := List.nodup_append.mp h.apart
  have hyielded : id ∉ l.pass.yielded := fun hmem => happart.2.2 id hmem id hid rfl
  rw [Life.apply]
  rcases l.pass.next?_cases l.processed with hpass | ⟨hall, hpass⟩ |
      ⟨skipped, unit, rest, hqueue, hskipped, hunit, hpass⟩
  · rw [hpass]
    exact Or.inl hid
  · rw [hpass]
    exact Or.inr (Or.inr ⟨hall id hid, List.not_mem_nil, hyielded⟩)
  · rw [hpass]
    have hnodup := happart.2.1
    rw [hqueue] at hid hnodup
    rcases List.mem_append.mp hid with hskip | hlater
    · have hdone := hskipped id hskip
      have hrest : id ∉ unit :: rest := fun hmem => (List.nodup_append.mp hnodup).2.2 id hskip id hmem rfl
      rw [List.mem_cons, not_or] at hrest
      refine Or.inr (Or.inr ⟨hdone, hrest.2, ?_⟩)
      simpa [hyielded] using hrest.1
    · rcases List.mem_cons.mp hlater with rfl | hrest
      · exact Or.inr (Or.inl (List.mem_append_right _ (List.mem_singleton_self _)))
      · exact Or.inl hrest

theorem mem_queue_apply {op : Op} (g : Graph) (hop : op ≠ .next) (hid : id ∈ l.pass.queue) :
    id ∈ (l.apply g op).pass.queue := by
  cases op with
  | next => exact absurd rfl hop
  | complete unit isGlobal moved =>
      obtain ⟨_, _, _, -, -, -, happly⟩ := l.apply_complete g unit isGlobal moved
      rw [happly]
      exact List.mem_append_left _ hid
  | process unit => exact hid

end Life

theorem regular_life (g : Graph) (root : UnitId) (isGlobal : Bool) (ops : List Op) :
    (life g root isGlobal ops).Regular root := by
  induction ops using List.reverseRecOn with
  | nil => exact Life.regular_start root isGlobal
  | append_singleton ops op ih =>
      rw [life_concat]
      exact ih.apply g op

/-! ### What happened to a unit -/

/-- The unit was in the queue at some time. -/
def Queued (g : Graph) (root : UnitId) (isGlobal : Bool) (ops : List Op) (id : UnitId) : Prop :=
  ∃ earlier, earlier <+: ops ∧ id ∈ (life g root isGlobal earlier).pass.queue

/-- At some time the pass was asked for the next unit, the unit was in the queue and among the processed ones,
and it left the queue without being handed out. -/
def PassedOver (g : Graph) (root : UnitId) (isGlobal : Bool) (ops : List Op) (id : UnitId) : Prop :=
  ∃ earlier, earlier ++ [.next] <+: ops
    ∧ id ∈ (life g root isGlobal earlier).pass.queue
    ∧ id ∈ (life g root isGlobal earlier).processed
    ∧ id ∉ (life g root isGlobal (earlier ++ [.next])).pass.queue
    ∧ id ∉ (life g root isGlobal (earlier ++ [.next])).pass.yielded

theorem queued_concat_iff (ops : List Op) (op : Op) : Queued g root isGlobal (ops ++ [op]) id
    ↔ Queued g root isGlobal ops id ∨ id ∈ (life g root isGlobal (ops ++ [op])).pass.queue := by
  constructor
  · rintro ⟨earlier, hearlier, hid⟩
    rcases List.prefix_concat_iff.mp hearlier with rfl | hbefore
    · exact Or.inr hid
    · exact Or.inl ⟨earlier, hbefore, hid⟩
  · rintro (⟨earlier, hearlier, hid⟩ | hid)
    · exact ⟨earlier, hearlier.trans (List.prefix_append _ _), hid⟩
    · exact ⟨_, List.prefix_rfl, hid⟩

/-- What was visited was in the queue at some time. -/
theorem mem_visited_iff (ops : List Op) :
    id ∈ (life g root isGlobal ops).pass.visited ↔ Queued g root isGlobal ops id := by
  induction ops using List.reverseRecOn with
  | nil =>
      constructor
      · exact fun hid => ⟨[], List.prefix_rfl, hid⟩
      · rintro ⟨earlier, hearlier, hid⟩
        rw [List.prefix_nil.mp hearlier] at hid
        exact hid
  | append_singleton ops op ih =>
      rw [queued_concat_iff, ← ih, life_concat]
      exact (regular_life g root isGlobal ops).mem_visited_apply g op

/-- What was ever in the queue is there, or was handed out, or was passed over. -/
theorem Queued.placed {ops : List Op} (h : Queued g root isGlobal ops id) :
    id ∈ (life g root isGlobal ops).pass.queue ∨ id ∈ (life g root isGlobal ops).pass.yielded
      ∨ PassedOver g root isGlobal ops id := by
  induction ops using List.reverseRecOn with
  | nil =>
      obtain ⟨earlier, hearlier, hid⟩ := h
      rw [List.prefix_nil.mp hearlier] at hid
      exact Or.inl hid
  | append_singleton ops op ih =>
      rcases (queued_concat_iff ops op).mp h with hbefore | hnow
      · rcases ih hbefore with hqueue | hyielded | ⟨earlier, hearlier, hover⟩
        · by_cases hop : op = .next
          · subst hop
            have hleaves := (regular_life g root isGlobal ops).leaves_queue g hqueue
            rw [← life_concat] at hleaves
            refine hleaves.imp_right (Or.imp_right fun hover => ?_)
            exact ⟨ops, List.prefix_rfl, hqueue, hover⟩
          · rw [life_concat]
            exact Or.inl (Life.mem_queue_apply g hop hqueue)
        · rw [life_concat]
          exact Or.inr (Or.inl (Life.mem_yielded_apply g op hyielded))
        · exact Or.inr (Or.inr ⟨earlier, hearlier.trans (List.prefix_append _ _), hover⟩)
      · exact Or.inl hnow

/-- **A pass loses no unit and repeats none.**  Take any graph, root and flag, and any sequence of operations.
No unit was handed out twice, and none is owed twice.  The unit in flight is the one handed out last.  The
units that were announced are those other than the root that were ever in the queue, each announced once.  And
whatever was ever in the queue is still there, was handed out, or was passed over while it counted as
processed. -/
theorem none_lost_none_repeated (g : Graph) (root : UnitId) (isGlobal : Bool) (ops : List Op) :
    let l := life g root isGlobal ops
    l.pass.yielded.Nodup ∧ l.pass.remaining.Nodup
      ∧ (∀ unit, l.pass.inFlight = some unit → l.pass.yielded.getLast? = some unit)
      ∧ l.announced.Nodup
      ∧ (∀ id, id ∈ l.announced ↔ id ≠ root ∧ Queued g root isGlobal ops id)
      ∧ ∀ id, Queued g root isGlobal ops id →
          id ∈ l.pass.queue ∨ id ∈ l.pass.yielded ∨ PassedOver g root isGlobal ops id := by
  intro l
  have hregular : l.Regular root := regular_life g root isGlobal ops
  obtain ⟨hyielded, hqueue, hapart⟩ := List.nodup_append.mp hregular.apart
  have hvisited := hregular.nodup
  rw [hregular.visited, List.nodup_cons] at hvisited
  refine ⟨hyielded, ?_, hregular.flying, hvisited.2, fun id => ?_, fun id hid => hid.placed⟩
  · -- the unit in flight was handed out, so it does not wait
    rw [remaining]
    cases hflight : l.pass.inFlight with
    | none => exact hqueue
    | some unit =>
        refine List.nodup_cons.mpr ⟨fun hmem => ?_, hqueue⟩
        exact hapart unit (List.mem_of_getLast? (hregular.flying unit hflight)) unit hmem rfl
  · rw [← mem_visited_iff, hregular.visited, List.mem_cons]
    constructor
    · intro hid
      refine ⟨?_, Or.inr hid⟩
      rintro rfl
      exact hvisited.1 hid
    · rintro ⟨hroot, hid⟩
      exact hid.resolve_left hroot

/-- A unit that is processed elsewhere while it waits is passed over. -/
example :
    let g := Graph.build [("a", []), ("b", [⟨"a", false⟩]), ("c", [⟨"a", false⟩])] true
    let l := life g 0 false [.next, .complete 0 false true, .process 1, .next]
    l.pass.yielded = [0, 2] ∧ l.pass.remaining = [2] ∧ l.announced = [1, 2] := by
  decide

end Pass

end Rebuild
