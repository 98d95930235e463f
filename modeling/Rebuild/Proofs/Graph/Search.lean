import Mathlib.Data.Finset.Dedup
import Mathlib.Logic.Relation
import Mathlib.Order.Lattice.Nat
import Rebuild.Proofs.Graph.Adjacency

/-!
# Breadth-first search

A search from a unit keeps the units that it has discovered, in the order of their discovery, and a queue
of those whose neighbours it has still to look at.  Each turn takes the first unit from the queue and
appends the neighbours that are new.  The distance from the start never decreases along the order of
discovery, because the units in the queue are at most one step apart.

* `Graph.Made`: the graphs that there are;
* `Graph.Reaches`, `Graph.Way`, `Graph.distance`: what a unit reaches, and in how many steps;
* `Graph.Search`: the search, turn by turn;
* `Graph.Explored`: the invariant of the search, with `Graph.Explored.step`: one turn keeps it, and
  `Graph.Explored.ends`: there are not more turns than units;
* `Graph.allDependenciesOf_breadthFirst`: the dependencies of a unit, direct and indirect.
-/

namespace Rebuild

namespace Graph

/-! ### Graphs that there are -/

/-- The graphs of reported dependencies, and those of stored edges that are accepted. -/
inductive Made : Graph → Prop
  | build (reported : List (UnitPath × List Dependency)) (tracking : Bool) :
      Made (build reported tracking)
  | stored {paths : List UnitPath} {imports exports : List (Nat × Nat)} {tracking : Bool} {g : Graph}
      (h : ofIndexed paths imports exports tracking = .ok g) : Made g

namespace Made

variable {g : Graph}

theorem regular (h : g.Made) : g.Regular := by
  cases h with
  | build reported tracking => exact regular_build reported tracking
  | stored h => exact regular_ofIndexed h

theorem listsOnce (h : g.Made) : g.ListsOnce := by
  cases h with
  | build reported tracking => exact listsOnce_build reported tracking
  | stored h => exact listsOnce_ofIndexed h

theorem nodup_dependenciesOf (h : g.Made) (unit : UnitId) : (g.dependenciesOf unit).Nodup := by
  cases hedges : g.edges with
  | none =>
      rw [dependenciesOf, hedges]
      exact g.nodup_units.filter _
  | some e => exact Graph.nodup_dependenciesOf hedges (h.listsOnce e hedges).1 unit

end Made

/-! ### Ways and distances -/

variable {next : UnitId → List UnitId} {a b c : UnitId} {n : Nat}

/-- One unit leads to another, directly or indirectly. -/
def Reaches (next : UnitId → List UnitId) : UnitId → UnitId → Prop :=
  Relation.ReflTransGen fun a b => b ∈ next a

inductive Way (next : UnitId → List UnitId) (a : UnitId) : Nat → UnitId → Prop
  | start : Way next a 0 a
  | step {n : Nat} {b c : UnitId} (h : Way next a n b) (hc : c ∈ next b) : Way next a (n + 1) c

noncomputable def distance (next : UnitId → List UnitId) (a b : UnitId) : Nat :=
  sInf {n | Way next a n b}

theorem Reaches.exists_way (h : Reaches next a b) : ∃ n, Way next a n b := by
  induction h with
  | refl => exact ⟨0, Way.start⟩
  | tail _ hc ih =>
      obtain ⟨n, hn⟩ := ih
      exact ⟨n + 1, hn.step hc⟩

theorem Way.distance_le (h : Way next a n b) : distance next a b ≤ n :=
  Nat.sInf_le h

theorem Reaches.way_distance (h : Reaches next a b) : Way next a (distance next a b) b :=
  Nat.sInf_mem h.exists_way

theorem Reaches.lt_size {size : Nat} (hlt : ∀ unit, ∀ other ∈ next unit, other < size) (ha : a < size)
    (h : Reaches next a b) : b < size := by
  cases h with
  | refl => exact ha
  | tail _ hb => exact hlt _ b hb

/-! ### The search, turn by turn -/

/-- A search under way: the units discovered, also in the order of their discovery, and those whose
neighbours were not looked at. -/
structure Search where
  seen : Finset UnitId
  order : List UnitId
  queue : List UnitId

namespace Search

/-- The search from a unit, before its first turn. -/
def start (id : UnitId) : Search :=
  ⟨{id}, [id], [id]⟩

/-- Come to a unit. -/
def discover (s : Search) (unit : UnitId) : Search :=
  if unit ∈ s.seen then s else ⟨insert unit s.seen, s.order ++ [unit], s.queue ++ [unit]⟩

/-- Look at the neighbours of the first unit in the queue. -/
def turn? (next : UnitId → List UnitId) (s : Search) : Option Search :=
  match s.queue with
  | [] => none
  | current :: queue => some ((next current).foldl discover { s with queue })

/-- A number of turns. -/
inductive Turns (next : UnitId → List UnitId) : Nat → Search → Search → Prop
  | refl (s : Search) : Turns next 0 s s
  | head {n : Nat} {s s' s'' : Search} (h : s.turn? next = some s') (rest : Turns next n s' s'') :
      Turns next (n + 1) s s''

/-- The search that has looked at the neighbours of the units `done`. -/
def after (done queue : List UnitId) : Search :=
  ⟨(done ++ queue).toFinset, done ++ queue, queue⟩

/-- The neighbours that are new when the search looks at the first unit in the queue. -/
def fresh (next : UnitId → List UnitId) (done queue : List UnitId) (current : UnitId) : List UnitId :=
  (next current).filter fun unit => !(done ++ current :: queue).contains unit

theorem mem_fresh {done queue : List UnitId} {current unit : UnitId} :
    unit ∈ fresh next done queue current ↔ unit ∈ next current ∧ unit ∉ done ++ current :: queue := by
  rw [fresh, List.mem_filter, Bool.not_eq_true', List.contains_eq_mem, decide_eq_false_iff_not]

theorem explore_cons (next : UnitId → List UnitId) (fuel : Nat) (done queue : List UnitId)
    (current : UnitId) :
    explore next (fuel + 1) done (current :: queue)
      = explore next fuel (done ++ [current]) (queue ++ fresh next done queue current) :=
  rfl

theorem after_nil (done : List UnitId) : after done [] = ⟨done.toFinset, done, []⟩ := by
  rw [after, List.append_nil]

/-- Units that are all different are discovered together. -/
theorem foldl_discover {units : List UnitId} (hnodup : units.Nodup) (s : Search) :
    units.foldl discover s
      = ⟨s.seen ∪ units.toFinset, s.order ++ units.filter fun unit => decide (unit ∉ s.seen),
          s.queue ++ units.filter fun unit => decide (unit ∉ s.seen)⟩ := by
  induction units generalizing s with
  | nil => simp
  | cons first rest ih =>
      obtain ⟨hfresh, hrest⟩ := List.nodup_cons.mp hnodup
      rw [List.foldl_cons, ih hrest, discover]
      by_cases hseen : first ∈ s.seen
      · rw [if_pos hseen, List.filter_cons_of_neg (by simpa using hseen), List.toFinset_cons,
          Finset.union_insert, Finset.insert_eq_self.mpr (Finset.mem_union_left _ hseen)]
      · have hsame : (rest.filter fun unit => decide (unit ∉ insert first s.seen))
            = rest.filter fun unit => decide (unit ∉ s.seen) := by
          refine List.filter_congr fun unit hunit => ?_
          have hne : unit ≠ first := fun h => hfresh (h ▸ hunit)
          simp [hne]
        rw [if_neg hseen, List.filter_cons_of_pos (by simpa using hseen), List.toFinset_cons]
        simp only [hsame, Finset.insert_union, Finset.union_insert, List.append_assoc,
          List.singleton_append]

theorem union_toFinset (order units : List UnitId) :
    order.toFinset ∪ units.toFinset
      = (order ++ units.filter fun unit => !order.contains unit).toFinset := by
  ext unit
  by_cases hmem : unit ∈ order
  · simp [hmem]
  · simp [hmem]

theorem order_append (done queue fresh : List UnitId) (current : UnitId) :
    (done ++ [current]) ++ (queue ++ fresh) = (done ++ current :: queue) ++ fresh := by
  simp

theorem turn?_after {done queue : List UnitId} {current : UnitId} (hnodup : (next current).Nodup) :
    (after done (current :: queue)).turn? next
      = some (after (done ++ [current]) (queue ++ fresh next done queue current)) := by
  have hfresh : ((next current).filter fun unit =>
        decide (unit ∉ (done ++ current :: queue).toFinset)) = fresh next done queue current := by
    refine List.filter_congr fun unit _ => ?_
    simp only [List.contains_eq_mem, List.mem_toFinset, decide_not]
  have hseen : (done ++ current :: queue).toFinset ∪ (next current).toFinset
      = ((done ++ [current]) ++ (queue ++ fresh next done queue current)).toFinset := by
    rw [order_append, union_toFinset, fresh]
  simp only [turn?, after, foldl_discover hnodup, hfresh, hseen, order_append]

end Search

/-! ### The invariant -/

/-- The search from `start` has looked at the neighbours of the units `done`, and `queue` holds the other
units that it has discovered. -/
structure Explored (next : UnitId → List UnitId) (start : UnitId) (done queue : List UnitId) : Prop where
  head : (done ++ queue).head? = some start
  nodup : (done ++ queue).Nodup
  reached : ∀ unit ∈ done ++ queue, Reaches next start unit
  closed : ∀ unit ∈ done, next unit ⊆ done ++ queue
  ascending : (done ++ queue).Pairwise fun a b => distance next start a ≤ distance next start b
  /-- Nothing was discovered that is more than one step farther than a unit in the queue. -/
  near : ∀ waiting ∈ queue, ∀ unit ∈ done ++ queue,
    distance next start unit ≤ distance next start waiting + 1

namespace Explored

variable {start current unit : UnitId} {done queue : List UnitId} {size : Nat}

theorem initial (next : UnitId → List UnitId) (start : UnitId) : Explored next start [] [start] where
  head := rfl
  nodup := List.nodup_singleton start
  reached := by
    intro unit hunit
    rw [List.mem_singleton.mp hunit]
    exact Relation.ReflTransGen.refl
  closed := by simp
  ascending := List.pairwise_singleton _ start
  near := by
    intro waiting hwaiting unit hunit
    rw [List.mem_singleton.mp hwaiting, List.mem_singleton.mp hunit]
    exact Nat.le_succ _

theorem start_mem (h : Explored next start done queue) : start ∈ done ++ queue :=
  List.mem_of_head? h.head

/-- A way to a unit that is not discovered leaves through the queue. -/
theorem exists_waiting (h : Explored next start done queue) (hway : Way next start n unit)
    (hunit : unit ∉ done ++ queue) : ∃ waiting ∈ queue, distance next start waiting + 1 ≤ n := by
  induction hway with
  | start => exact absurd h.start_mem hunit
  | step hway hc ih =>
      rename_i n before unit
      by_cases hbefore : before ∈ done ++ queue
      · rcases List.mem_append.mp hbefore with hdone | hqueue
        · exact absurd (h.closed before hdone hc) hunit
        · exact ⟨before, hqueue, Nat.succ_le_succ hway.distance_le⟩
      · obtain ⟨waiting, hwaiting, hle⟩ := ih hbefore
        exact ⟨waiting, hwaiting, Nat.le_succ_of_le hle⟩

/-- The first unit in the queue is nearest. -/
theorem distance_le (h : Explored next start done (current :: queue)) (hunit : unit ∈ current :: queue) :
    distance next start current ≤ distance next start unit := by
  have hqueue := (List.pairwise_append.mp h.ascending).2.1
  rcases List.mem_cons.mp hunit with rfl | hrest
  · exact Nat.le_refl _
  · exact (List.pairwise_cons.mp hqueue).1 unit hrest

theorem current_mem (done queue : List UnitId) (current : UnitId) : current ∈ done ++ current :: queue :=
  List.mem_append_right _ List.mem_cons_self

/-- A unit that is discovered from the first unit in the queue is one step farther. -/
theorem distance_fresh (h : Explored next start done (current :: queue))
    (hunit : unit ∈ Search.fresh next done queue current) :
    distance next start unit = distance next start current + 1 := by
  obtain ⟨hnext, hnew⟩ := Search.mem_fresh.mp hunit
  have hcurrent : Reaches next start current := h.reached current (current_mem done queue current)
  have hreaches : Reaches next start unit := hcurrent.tail hnext
  refine Nat.le_antisymm (hcurrent.way_distance.step hnext).distance_le ?_
  obtain ⟨waiting, hwaiting, hle⟩ := h.exists_waiting hreaches.way_distance hnew
  exact Nat.le_trans (Nat.succ_le_succ (h.distance_le hwaiting)) hle

/-- After one turn every unit is at most one step farther than the one whose turn it was. -/
theorem near_current (h : Explored next start done (current :: queue))
    (hunit : unit ∈ (done ++ current :: queue) ++ Search.fresh next done queue current) :
    distance next start unit ≤ distance next start current + 1 := by
  rcases List.mem_append.mp hunit with hold | hnew
  · exact h.near current List.mem_cons_self unit hold
  · exact Nat.le_of_eq (h.distance_fresh hnew)

/-- After one turn no unit in the queue is nearer than the one whose turn it was. -/
theorem current_le (h : Explored next start done (current :: queue))
    (hunit : unit ∈ queue ++ Search.fresh next done queue current) :
    distance next start current ≤ distance next start unit := by
  rcases List.mem_append.mp hunit with hold | hnew
  · exact h.distance_le (List.mem_cons_of_mem _ hold)
  · rw [h.distance_fresh hnew]
    exact Nat.le_succ _

/-- The neighbours of the unit whose turn it was are discovered. -/
theorem next_subset (next : UnitId → List UnitId) (done queue : List UnitId) (current : UnitId) :
    next current ⊆ (done ++ current :: queue) ++ Search.fresh next done queue current := by
  intro unit hunit
  by_cases hseen : unit ∈ done ++ current :: queue
  · exact List.mem_append_left _ hseen
  · exact List.mem_append_right _ (Search.mem_fresh.mpr ⟨hunit, hseen⟩)

/-- **One turn** keeps the invariant. -/
theorem step (h : Explored next start done (current :: queue)) (hnodup : (next current).Nodup) :
    Explored next start (done ++ [current]) (queue ++ Search.fresh next done queue current) := by
  have hcurrent := current_mem done queue current
  constructor
  · rw [Search.order_append, List.head?_append_of_ne_nil _ (List.ne_nil_of_mem hcurrent), h.head]
  · rw [Search.order_append, List.nodup_append]
    refine ⟨h.nodup, hnodup.filter _, fun old hold new hnew hsame => ?_⟩
    exact (Search.mem_fresh.mp hnew).2 (hsame ▸ hold)
  · rw [Search.order_append]
    intro unit hunit
    rcases List.mem_append.mp hunit with hold | hnew
    · exact h.reached unit hold
    · exact (h.reached current hcurrent).tail (Search.mem_fresh.mp hnew).1
  · rw [Search.order_append]
    intro unit hunit
    rcases List.mem_append.mp hunit with hdone | hlast
    · exact fun other hother => List.mem_append_left _ (h.closed unit hdone hother)
    · rw [List.mem_singleton.mp hlast]
      exact next_subset next done queue current
  · rw [Search.order_append, List.pairwise_append]
    refine ⟨h.ascending, ?_, fun old hold new hnew => ?_⟩
    · refine List.pairwise_of_forall_mem_list fun a ha b hb => ?_
      rw [h.distance_fresh ha, h.distance_fresh hb]
    · rw [h.distance_fresh hnew]
      exact h.near current List.mem_cons_self old hold
  · rw [Search.order_append]
    intro waiting hwaiting unit hunit
    exact Nat.le_trans (h.near_current hunit) (Nat.succ_le_succ (h.current_le hwaiting))

/-- There are not more discovered units than units. -/
theorem length_le (h : Explored next start done queue) (hlt : ∀ unit, Reaches next start unit → unit < size) :
    (done ++ queue).length ≤ size := by
  have hsubset : done ++ queue ⊆ List.range size :=
    fun unit hunit => List.mem_range.mpr (hlt unit (h.reached unit hunit))
  simpa using (List.subperm_of_subset h.nodup hsubset).length_le

/-- **All turns.**  With an expansion for each unit that was not expanded the queue gets empty. -/
theorem ends (h : Explored next start done queue) (hnodup : ∀ unit, (next unit).Nodup)
    (hlt : ∀ unit, Reaches next start unit → unit < size) {fuel : Nat} (hfuel : size ≤ fuel + done.length) :
    Explored next start (explore next fuel done queue) []
      ∧ ∃ turns, turns + done.length = (explore next fuel done queue).length
        ∧ Search.Turns next turns (Search.after done queue)
            (Search.after (explore next fuel done queue) []) := by
  induction fuel generalizing done queue with
  | zero =>
      have hempty : queue = [] := by
        have hlength := h.length_le hlt
        rw [List.length_append] at hlength
        exact List.eq_nil_of_length_eq_zero (by omega)
      subst hempty
      rw [explore, List.append_nil]
      exact ⟨h, 0, Nat.zero_add _, Search.Turns.refl _⟩
  | succ fuel ih =>
      cases queue with
      | nil =>
          rw [explore]
          exact ⟨h, 0, Nat.zero_add _, Search.Turns.refl _⟩
      | cons current queue =>
          have hmore : size ≤ fuel + (done ++ [current]).length := by
            rw [List.length_append, List.length_singleton]
            omega
          obtain ⟨hend, turns, hturns, hrest⟩ := ih (h.step (hnodup current)) hmore
          rw [Search.explore_cons]
          refine ⟨hend, turns + 1, ?_, Search.Turns.head (Search.turn?_after (hnodup current)) hrest⟩
          rw [List.length_append, List.length_singleton] at hturns
          omega

/-- A search whose queue is empty has discovered what the start reaches. -/
theorem mem_iff (h : Explored next start done []) : unit ∈ done ↔ Reaches next start unit := by
  have hclosed := h.closed
  have hstart := h.start_mem
  rw [List.append_nil] at hclosed hstart
  constructor
  · intro hunit
    exact h.reached unit (List.mem_append_left _ hunit)
  · intro hreaches
    induction hreaches with
    | refl => exact hstart
    | tail _ hstep ih => exact hclosed _ ih hstep

end Explored

/-! ### Dependencies, direct and indirect -/

variable {g : Graph} {unit : UnitId}

/-- A search in a graph ends, after not more turns than there are units. -/
theorem explored_reach (hnodup : ∀ unit, (next unit).Nodup)
    (hlt : ∀ unit, ∀ other ∈ next unit, other < g.size) (hunit : unit < g.size) :
    Explored next unit (g.reach next unit) []
      ∧ ∃ turns ≤ g.size, Search.Turns next turns (Search.start unit)
          ⟨(g.reach next unit).toFinset, g.reach next unit, []⟩ := by
  have hbelow : ∀ other, Reaches next unit other → other < g.size :=
    fun other hother => hother.lt_size hlt hunit
  obtain ⟨hend, turns, hturns, hrun⟩ :=
    (Explored.initial next unit).ends hnodup hbelow (Nat.le_refl g.size)
  have hlength := hend.length_le hbelow
  rw [Search.after_nil] at hrun
  rw [List.append_nil] at hlength
  rw [List.length_nil, Nat.add_zero] at hturns
  exact ⟨hend, turns, hturns ▸ hlength, hrun⟩

/-- **Breadth first.**  The search for the dependencies of a unit ends, after not more turns than there are
units, and leaves the unit and what it reaches along dependencies, each once and in the order of their
distances. -/
theorem allDependenciesOf_breadthFirst (hg : g.Made) (hunit : unit < g.size) :
    (∃ turns ≤ g.size, Search.Turns g.dependenciesOf turns (Search.start unit)
        ⟨(g.allDependenciesOf unit).toFinset, g.allDependenciesOf unit, []⟩)
      ∧ (g.allDependenciesOf unit).head? = some unit
      ∧ (g.allDependenciesOf unit).Nodup
      ∧ (∀ other, other ∈ g.allDependenciesOf unit ↔ Reaches g.dependenciesOf unit other)
      ∧ (g.allDependenciesOf unit).Pairwise fun a b =>
          distance g.dependenciesOf unit a ≤ distance g.dependenciesOf unit b := by
  obtain ⟨hend, hturns⟩ := explored_reach hg.nodup_dependenciesOf
    (fun _ _ hdep => hg.regular.lt_size_of_mem_dependenciesOf hdep) hunit
  have hhead := hend.head
  have hnodup := hend.nodup
  have hascending := hend.ascending
  rw [List.append_nil] at hhead hnodup hascending
  exact ⟨hturns, hhead, hnodup, fun other => hend.mem_iff, hascending⟩

/-- A unit that two units import, one of which it imports itself, and a unit apart. -/
def ringed : Graph :=
  build [("a", [⟨"b", false⟩, ⟨"c", true⟩]), ("b", [⟨"d", false⟩]), ("c", [⟨"d", false⟩, ⟨"a", false⟩]),
    ("d", [⟨"b", false⟩]), ("e", [⟨"a", false⟩])] true

theorem allDependenciesOf_breadthFirst_ringed :
    ringed.Made ∧ 0 < ringed.size ∧ ringed.allDependenciesOf 0 = [0, 1, 2, 3]
      ∧ distance ringed.dependenciesOf 0 2 ≤ distance ringed.dependenciesOf 0 3
      ∧ Reaches ringed.dependenciesOf 0 3 ∧ ¬ Reaches ringed.dependenciesOf 0 4 := by
  have hmade : ringed.Made := Made.build _ true
  have hsize : 0 < ringed.size := by decide
  have horder : ringed.allDependenciesOf 0 = [0, 1, 2, 3] := by decide
  obtain ⟨-, -, -, hmem, hascending⟩ := allDependenciesOf_breadthFirst hmade hsize
  rw [horder] at hmem hascending
  refine ⟨hmade, hsize, horder, ?_, (hmem 3).mp (by decide), fun h => ?_⟩
  · simp only [List.pairwise_cons] at hascending
    exact hascending.2.2.1 3 (by decide)
  · exact absurd ((hmem 4).mpr h) (by decide)

end Graph

end Rebuild
