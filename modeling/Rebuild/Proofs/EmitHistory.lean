import Mathlib.Data.List.Induction
import Mathlib.Order.Basic
import Rebuild.Proofs.EmitQueue

/-!
# What an emit queue stands for

A queue is a list with a cursor.  What it stands for is a map: each unit is owed the merge of what was
requested for it since it was last taken or dropped, and the units wait in the order in which these requests
began.  Here the map is read off a log of what happened, without a list or a cursor.

* `EmitEvent`: what happens to a queue, told by unit;
* `EmitEvent.since`, `EmitEvent.owed`, `EmitEvent.askedAt?`: the open requests of a unit, what they ask for
  together, and where they began;
* `EmitQueue.Op`, `EmitQueue.Logged`: any operations on a queue, with the log that they leave;
* `EmitQueue.Refines`: the entries that remain are the map of a log.  `Refines.request`, `Refines.take` and
  `Refines.compact` are the steps;
* `EmitQueue.owed_since_closed`: so it is after any operations;
* `EmitQueue.dropped_unit_waits_anew`: a unit that was dropped loses its place.
-/

namespace Rebuild

/-! ### Kinds -/

def EmitKind.mergeAll? : List EmitKind → Option EmitKind
  | [] => none
  | kind :: kinds => some (kinds.foldl merge kind)

theorem EmitKind.mergeAll?_concat (kinds : List EmitKind) (kind : EmitKind) :
    mergeAll? (kinds ++ [kind]) = some (((mergeAll? kinds).map (·.merge kind)).getD kind) := by
  cases kinds with
  | nil => rfl
  | cons first rest => simp [mergeAll?]

/-! ### Events -/

/-- What happens to a queue, told by unit. -/
inductive EmitEvent where
  | requested (unit : UnitPath) (kind : EmitKind)
  | taken (unit : UnitPath)
  /-- The units that are not kept are dropped. -/
  | compacted (keep : UnitPath → Bool)

namespace EmitEvent

/-- The unit is handed out. -/
def takes (path : UnitPath) : EmitEvent → Bool
  | .taken unit => unit == path
  | _ => false

/-- The unit is handed out or dropped. -/
def closes (path : UnitPath) : EmitEvent → Bool
  | .requested _ _ => false
  | .taken unit => unit == path
  | .compacted keep => !keep path

/-- What is requested for the unit. -/
def kindFor? (path : UnitPath) : EmitEvent → Option EmitKind
  | .requested unit kind => if unit = path then some kind else none
  | _ => none

/-- What happened since something last ended, in order.  A log has the latest event first. -/
def since (ends : EmitEvent → Bool) (log : List EmitEvent) : List EmitEvent :=
  (log.takeWhile fun event => !ends event).reverse

/-- What a unit is owed: everything that was requested since it was last taken or dropped. -/
def owed (path : UnitPath) (log : List EmitEvent) : Option EmitKind :=
  EmitKind.mergeAll? ((since (closes path) log).filterMap (kindFor? path))

/-- How many events came before the first request for a unit since something last ended. -/
def askedAt? (ends : EmitEvent → Bool) (path : UnitPath) (log : List EmitEvent) : Option Nat :=
  ((since ends log).findIdx? fun event => (kindFor? path event).isSome).map
    fun i => log.length - (since ends log).length + i

/-- The open requests for one unit began before those for another one, where `ends` says what ends the
requests for a unit. -/
def AskedBefore (ends : UnitPath → EmitEvent → Bool) (log : List EmitEvent) (path other : UnitPath) : Prop :=
  ∃ i j, askedAt? (ends path) path log = some i ∧ askedAt? (ends other) other log = some j ∧ i < j

variable {ends : EmitEvent → Bool} {event : EmitEvent} {log : List EmitEvent} {path : UnitPath}

theorem since_cons_of_ends (h : ends event = true) : since ends (event :: log) = [] := by
  simp [since, h]

theorem since_cons (h : ends event = false) : since ends (event :: log) = since ends log ++ [event] := by
  simp [since, h]

theorem length_since_le (ends : EmitEvent → Bool) (log : List EmitEvent) :
    (since ends log).length ≤ log.length := by
  rw [since, List.length_reverse]
  exact (List.takeWhile_sublist _).length_le

/-! ### One more event -/

theorem owed_cons_of_closes (h : closes path event = true) : owed path (event :: log) = none := by
  rw [owed, since_cons_of_ends h]
  rfl

/-- An event that neither closes a unit nor requests it changes nothing for it. -/
theorem owed_cons (hcloses : closes path event = false) (hkind : kindFor? path event = none) :
    owed path (event :: log) = owed path log := by
  simp [owed, since_cons hcloses, hkind]

theorem owed_requested (path : UnitPath) (kind : EmitKind) (log : List EmitEvent) :
    owed path (.requested path kind :: log)
      = some (((owed path log).map (·.merge kind)).getD kind) := by
  have hkind : kindFor? path (.requested path kind) = some kind := if_pos rfl
  rw [owed, since_cons rfl, List.filterMap_append, List.filterMap_cons_some hkind]
  exact EmitKind.mergeAll?_concat _ kind

theorem askedAt?_cons (hends : ends event = false) (hkind : kindFor? path event = none) :
    askedAt? ends path (event :: log) = askedAt? ends path log := by
  simp [askedAt?, since_cons hends, List.findIdx?_append, hkind]

/-- A request finds the place of the unit, or takes the last place. -/
theorem askedAt?_requested (path : UnitPath) (kind : EmitKind) (log : List EmitEvent) :
    askedAt? (closes path) path (.requested path kind :: log)
      = some ((askedAt? (closes path) path log).getD log.length) := by
  have hle := length_since_le (closes path) log
  have hkind : kindFor? path (.requested path kind) = some kind := if_pos rfl
  rw [askedAt?, askedAt?, since_cons rfl, List.findIdx?_append]
  cases hfound : (since (closes path) log).findIdx? fun event => (kindFor? path event).isSome with
  | none =>
      simp [hkind]
      omega
  | some i => simp

theorem askedAt?_lt {i : Nat} (h : askedAt? ends path log = some i) : i < log.length := by
  have hle := length_since_le ends log
  rw [askedAt?, Option.map_eq_some_iff] at h
  obtain ⟨j, hj, rfl⟩ := h
  have hlt : j < (since ends log).length := (List.findIdx?_eq_some_iff_getElem.mp hj).1
  omega

/-- A unit is owed something when it has a place. -/
theorem askedAt?_eq_none_iff : askedAt? (closes path) path log = none ↔ owed path log = none := by
  have hmerge : ∀ kinds, EmitKind.mergeAll? kinds = none ↔ kinds = [] := by
    intro kinds
    cases kinds with
    | nil => simp [EmitKind.mergeAll?]
    | cons first rest => simp [EmitKind.mergeAll?]
  rw [askedAt?, Option.map_eq_none_iff, List.findIdx?_eq_none_iff, owed, hmerge, List.filterMap_eq_nil_iff]
  simp

end EmitEvent

namespace EmitQueue

open EmitEvent

variable {q start : EmitQueue} {entry : PendingEmit} {entries : List PendingEmit} {log : List EmitEvent}
variable {path unit : UnitPath}

/-! ### Lists that stand for a map -/

theorem firstKind?_eq_none_iff : firstKind? entries path = none ↔ path ∉ entries.map (·.unit) := by
  simp [firstKind?]

theorem firstKind?_filter (keep : UnitPath → Bool) (path : UnitPath) (entries : List PendingEmit) :
    firstKind? (entries.filter fun entry => keep entry.unit) path
      = if keep path then firstKind? entries path else none := by
  induction entries with
  | nil => simp [firstKind?]
  | cons first rest ih =>
      rw [List.filter_cons]
      by_cases hfirst : keep first.unit = true
      · rw [if_pos hfirst, firstKind?_cons, firstKind?_cons, ih]
        by_cases hpath : first.unit = path
        · simp [hpath, hpath ▸ hfirst]
        · simp [hpath]
      · rw [if_neg hfirst, ih, firstKind?_cons]
        by_cases hpath : first.unit = path
        · simp [hpath ▸ hfirst]
        · simp [hpath]

/-- The entries are what is owed after a log: each unit with what it is owed, in the order in which the open
requests began. -/
structure Refines (entries : List PendingEmit) (log : List EmitEvent) : Prop where
  inOrder : (entries.map (·.unit)).Pairwise (AskedBefore closes log)
  kinds : ∀ path, firstKind? entries path = owed path log

theorem Refines.distinct (h : Refines entries log) : Distinct entries := by
  refine h.inOrder.imp fun {path other} hbefore hsame => ?_
  obtain ⟨i, j, hi, hj, hlt⟩ := hbefore
  subst hsame
  rw [hi] at hj
  cases hj
  exact Nat.lt_irrefl i hlt

theorem Refines.mem_units_iff (h : Refines entries log) : path ∈ entries.map (·.unit) ↔ owed path log ≠ none := by
  rw [← h.kinds, ne_eq, firstKind?_eq_none_iff, not_not]

theorem refines_nil : Refines [] [] :=
  ⟨List.Pairwise.nil, fun _ => rfl⟩

/-- The order does not change among units that keep their places. -/
theorem pairwise_of_places {paths : List UnitPath} {event : EmitEvent}
    (h : paths.Pairwise (AskedBefore closes log))
    (hplaces : ∀ path ∈ paths, askedAt? (closes path) path (event :: log) = askedAt? (closes path) path log) :
    paths.Pairwise (AskedBefore closes (event :: log)) := by
  refine h.imp_of_mem fun {path other} hpath hother hbefore => ?_
  rw [AskedBefore, hplaces path hpath, hplaces other hother]
  exact hbefore

/-- **A request** finds the entry of its unit, or takes the last place. -/
theorem Refines.request (h : Refines entries log) (unit : UnitPath) (kind : EmitKind) :
    Refines (request unit kind entries) (.requested unit kind :: log) := by
  have hother : ∀ path, path ≠ unit → kindFor? path (.requested unit kind) = none := by
    intro path hpath
    exact if_neg (Ne.symm hpath)
  have hplaces : ∀ path ∈ entries.map (·.unit),
      askedAt? (closes path) path (.requested unit kind :: log) = askedAt? (closes path) path log := by
    intro path hmem
    by_cases hpath : path = unit
    · subst hpath
      have hsome : askedAt? (closes path) path log ≠ none := by
        rw [ne_eq, askedAt?_eq_none_iff]
        exact h.mem_units_iff.mp hmem
      obtain ⟨i, hi⟩ := Option.ne_none_iff_exists'.mp hsome
      rw [askedAt?_requested, hi]
      rfl
    · exact askedAt?_cons rfl (hother path hpath)
  constructor
  · rw [units_request]
    split
    · exact pairwise_of_places h.inOrder hplaces
    · rename_i hfresh
      rw [List.pairwise_append]
      refine ⟨pairwise_of_places h.inOrder hplaces, List.pairwise_singleton _ _, ?_⟩
      intro path hmem other hlast
      rw [List.mem_singleton] at hlast
      subst hlast
      -- the new unit had no place, so it gets the last one
      have hnone : askedAt? (closes other) other log = none := by
        rw [askedAt?_eq_none_iff]
        exact not_not.mp fun howed => hfresh (h.mem_units_iff.mpr howed)
      have hsome : askedAt? (closes path) path log ≠ none := by
        rw [ne_eq, askedAt?_eq_none_iff]
        exact h.mem_units_iff.mp hmem
      obtain ⟨i, hi⟩ := Option.ne_none_iff_exists'.mp hsome
      refine ⟨i, log.length, ?_, ?_, askedAt?_lt hi⟩
      · rw [hplaces path hmem, hi]
      · rw [askedAt?_requested, hnone]
        rfl
  · intro path
    rw [firstKind?_request, h.kinds]
    by_cases hpath : unit = path
    · subst hpath
      rw [if_pos rfl, owed_requested]
    · rw [if_neg hpath, owed_cons rfl (hother path (Ne.symm hpath))]

/-- **Handing out** the first entry closes its unit. -/
theorem Refines.take (h : Refines (entry :: entries) log) : Refines entries (.taken entry.unit :: log) := by
  obtain ⟨hfresh, -⟩ := List.nodup_cons.mp h.distinct
  have hleaves : ∀ path, path ≠ entry.unit → closes path (.taken entry.unit) = false := by
    intro path hpath
    simp [closes, Ne.symm hpath]
  constructor
  · refine pairwise_of_places (List.pairwise_cons.mp h.inOrder).2 fun path hmem => ?_
    refine askedAt?_cons (hleaves path ?_) rfl
    rintro rfl
    exact hfresh hmem
  · intro path
    by_cases hpath : path = entry.unit
    · subst hpath
      rw [owed_cons_of_closes (by simp [closes]), firstKind?_eq_none_iff]
      exact hfresh
    · have hkind := h.kinds path
      rw [firstKind?_cons, if_neg (Ne.symm hpath)] at hkind
      rw [owed_cons (hleaves path hpath) rfl, hkind]

/-- **Compacting** closes the units that are not kept. -/
theorem Refines.compact (h : Refines entries log) (keep : UnitPath → Bool) :
    Refines (entries.filter fun entry => keep entry.unit) (.compacted keep :: log) := by
  constructor
  · refine pairwise_of_places (h.inOrder.sublist (List.filter_sublist.map _)) fun path hmem => ?_
    obtain ⟨entry, hentry, rfl⟩ := List.mem_map.mp hmem
    have hkept := (List.mem_filter.mp hentry).2
    exact askedAt?_cons (by simpa [closes] using hkept) rfl
  · intro path
    rw [firstKind?_filter, h.kinds]
    by_cases hkept : keep path = true
    · rw [if_pos hkept, owed_cons (by simp [closes, hkept]) rfl]
    · rw [if_neg hkept, owed_cons_of_closes (by simpa [closes] using hkept)]

theorem request_of_notMem (h : unit ∉ entries.map (·.unit)) (kind : EmitKind) :
    EmitQueue.request unit kind entries = entries ++ [⟨unit, kind⟩] := by
  induction entries with
  | nil => rfl
  | cons first rest ih =>
      rw [List.map_cons, List.mem_cons, not_or] at h
      rw [EmitQueue.request, if_neg (Ne.symm h.1), ih h.2]
      rfl

/-- The log of entries that count as requests. -/
def requestLog (entries : List PendingEmit) : List EmitEvent :=
  (entries.map fun entry => .requested entry.unit entry.kind).reverse

/-- Entries of different units are the map of the requests they stand for. -/
theorem refines_requestLog (h : Distinct entries) : Refines entries (requestLog entries) := by
  induction entries using List.reverseRecOn with
  | nil => exact refines_nil
  | append_singleton entries entry ih =>
      have hfresh : entry.unit ∉ entries.map (·.unit) := by
        intro hmem
        rw [Distinct, List.map_append, List.nodup_append] at h
        exact h.2.2 _ hmem _ (by simp) rfl
      have hlog : requestLog (entries ++ [entry]) = .requested entry.unit entry.kind :: requestLog entries := by
        simp [requestLog]
      rw [hlog, ← request_of_notMem hfresh]
      exact (ih (h.sublist (List.sublist_append_left _ _))).request entry.unit entry.kind

/-! ### Operations -/

inductive Op where
  | push (unit : UnitPath) (kind : EmitKind)
  | next
  | compact (keep : UnitPath → Bool)

/-- A queue with the log of what happened to it. -/
structure Logged where
  queue : EmitQueue
  log : List EmitEvent

namespace Logged

variable {r : Logged}

/-- A queue at the beginning.  What remains in it counts as requested in its order. -/
def begin (q : EmitQueue) : Logged :=
  ⟨q, requestLog q.remaining⟩

/-- The queue after one operation.  Nothing happens when the next entry is asked for and none remains. -/
def apply (r : Logged) : Op → Logged
  | .push unit kind => ⟨r.queue.push unit kind, .requested unit kind :: r.log⟩
  | .next =>
      match r.queue.next? with
      | none => r
      | some (entry, queue) => ⟨queue, .taken entry.unit :: r.log⟩
  | .compact keep => ⟨r.queue.compact keep, .compacted keep :: r.log⟩

def run (r : Logged) (ops : List Op) : Logged :=
  ops.foldl apply r

/-- The cursor is in range, and what remains is the map of the log. -/
structure Stands (r : Logged) : Prop where
  wellFormed : r.queue.WellFormed
  refines : Refines r.queue.remaining r.log

theorem stands_begin (hq : q.WellFormed) (hdistinct : Distinct q.remaining) : (begin q).Stands :=
  ⟨hq, refines_requestLog hdistinct⟩

/-- One operation keeps this. -/
theorem Stands.apply (h : r.Stands) (op : Op) : (r.apply op).Stands := by
  cases op with
  | push unit kind =>
      refine ⟨h.wellFormed.push unit kind, ?_⟩
      show Refines (r.queue.push unit kind).remaining _
      rw [remaining_push h.wellFormed]
      exact h.refines.request unit kind
  | next =>
      rw [Logged.apply]
      cases hnext : r.queue.next? with
      | none => exact h
      | some taken =>
          obtain ⟨entry, queue⟩ := taken
          obtain ⟨hremaining, hwellFormed⟩ := next?_eq_some hnext
          have hrefines := h.refines
          rw [hremaining] at hrefines
          exact ⟨hwellFormed, hrefines.take⟩
  | compact keep =>
      refine ⟨wellFormed_compact r.queue keep, ?_⟩
      show Refines (r.queue.compact keep).remaining _
      rw [remaining_compact]
      exact h.refines.compact keep

theorem Stands.run (h : r.Stands) (ops : List Op) : (r.run ops).Stands := by
  induction ops generalizing r with
  | nil => exact h
  | cons op ops ih => exact ih (h.apply op)

/-- The entry that comes next is the one whose requests began first. -/
theorem Stands.next? (h : r.Stands) {rest : EmitQueue} (hnext : r.queue.next? = some (entry, rest)) :
    owed entry.unit r.log = some entry.kind
      ∧ (∀ path, path ≠ entry.unit → owed path r.log ≠ none → AskedBefore closes r.log entry.unit path)
      ∧ r.queue.remaining = entry :: rest.remaining := by
  have hremaining := (next?_eq_some hnext).1
  have hrefines := h.refines
  rw [hremaining] at hrefines
  refine ⟨?_, fun path hpath howed => ?_, hremaining⟩
  · rw [← hrefines.kinds, firstKind?_cons, if_pos rfl]
  · have hmem := hrefines.mem_units_iff.mpr howed
    rw [List.map_cons, List.mem_cons, or_iff_right hpath] at hmem
    exact (List.pairwise_cons.mp hrefines.inOrder).1 path hmem

theorem Stands.next?_eq_none_iff (h : r.Stands) : r.queue.next? = none ↔ ∀ path, owed path r.log = none := by
  rw [EmitQueue.next?_eq_none_iff]
  constructor
  · intro hremaining path
    rw [← h.refines.kinds, hremaining]
    rfl
  · intro howed
    cases hremaining : r.queue.remaining with
    | nil => rfl
    | cons entry rest =>
        have hmem : entry.unit ∈ r.queue.remaining.map (·.unit) := by simp [hremaining]
        exact absurd (howed entry.unit) (h.refines.mem_units_iff.mp hmem)

end Logged

theorem kindOf?_compact (q : EmitQueue) (keep : UnitPath → Bool) (path : UnitPath) :
    (q.compact keep).kindOf? path = if keep path then q.kindOf? path else none := by
  show firstKind? (q.compact keep).remaining path = _
  rw [remaining_compact, firstKind?_filter]
  rfl

/-- **A queue is a map of what is owed.**  Take an empty queue, or one from stored parts in which no unit
remains twice, and any operations.  The cursor stays in range.  The units that remain are distinct, and in the
order in which the requests began that were made for them since they were last taken or dropped.  A unit is
owed the merge of these requests, and nothing if there are none.  The entry that comes next is the first in
this order.  Compacting does not change what a unit is owed that is kept. -/
theorem owed_since_closed {start : EmitQueue}
    (hstart : start = {} ∨ ∃ entries cursor, start = ofParts entries cursor ∧ Distinct start.remaining)
    (ops : List Op) :
    let r := (Logged.begin start).run ops
    r.queue.cursor ≤ r.queue.entries.length
      ∧ Distinct r.queue.remaining
      ∧ (r.queue.remaining.map (·.unit)).Pairwise (AskedBefore closes r.log)
      ∧ (∀ path, r.queue.kindOf? path = owed path r.log)
      ∧ (r.queue.next? = none ↔ ∀ path, owed path r.log = none)
      ∧ (∀ entry rest, r.queue.next? = some (entry, rest) →
          owed entry.unit r.log = some entry.kind
            ∧ (∀ path, path ≠ entry.unit → owed path r.log ≠ none → AskedBefore closes r.log entry.unit path)
            ∧ r.queue.remaining = entry :: rest.remaining)
      ∧ ∀ keep path, keep path = true → (r.queue.compact keep).kindOf? path = r.queue.kindOf? path := by
  intro r
  have hbegin : (Logged.begin start).Stands := by
    rcases hstart with rfl | ⟨entries, cursor, rfl, hdistinct⟩
    · exact Logged.stands_begin (Nat.zero_le _) List.nodup_nil
    · exact Logged.stands_begin (wellFormed_ofParts entries cursor) hdistinct
  have hstands : r.Stands := hbegin.run ops
  refine ⟨hstands.wellFormed, hstands.refines.distinct, hstands.refines.inOrder, hstands.refines.kinds,
    hstands.next?_eq_none_iff, fun entry rest hnext => hstands.next? hnext, fun keep path hkept => ?_⟩
  rw [kindOf?_compact, if_pos hkept]

/-- A queue from parts, in which a unit is upgraded, taken and requested again, and another one is dropped and
requested again. -/
theorem owed_since_closed_reopened :
    let start := ofParts [⟨"a", .full⟩, ⟨"a", .types⟩, ⟨"b", .types⟩] 1
    let r := (Logged.begin start).run
      [.push "a" .full, .next, .push "b" .full, .push "a" .types, .compact (· != "b"), .push "b" .types]
    Distinct start.remaining ∧ Distinct r.queue.remaining
      ∧ r.queue.kindOf? "a" = some .types ∧ r.queue.kindOf? "b" = some .types
      ∧ AskedBefore closes r.log "a" "b" := by
  intro start r
  have hdistinct : Distinct start.remaining := by decide
  obtain ⟨-, hremaining, -, hkinds, -, hnext, -⟩ := owed_since_closed (.inr ⟨_, _, rfl, hdistinct⟩)
    [.push "a" .full, .next, .push "b" .full, .push "a" .types, .compact (· != "b"), .push "b" .types]
  refine ⟨hdistinct, hremaining, ?_, ?_, ?_⟩
  · rw [hkinds]
    decide
  · rw [hkinds]
    decide
  · exact (hnext ⟨"a", .types⟩ _ rfl).2.1 "b" (by decide) (by decide)

/-- **A unit that was dropped loses its place.**  Its first request since it was last taken came first, and yet
it waits behind a unit that was requested later. -/
theorem dropped_unit_waits_anew :
    let r := (Logged.begin {}).run
      [.push "u" .full, .push "v" .full, .compact (· != "u"), .push "u" .full]
    r.queue.remaining.map (·.unit) = ["v", "u"]
      ∧ askedAt? (takes "u") "u" r.log = some 0 ∧ askedAt? (takes "v") "v" r.log = some 1
      ∧ ¬ (r.queue.remaining.map (·.unit)).Pairwise (AskedBefore takes r.log) := by
  intro r
  have hremaining : r.queue.remaining.map (·.unit) = ["v", "u"] := by decide
  have hfirst : askedAt? (takes "u") "u" r.log = some 0 := by decide
  refine ⟨hremaining, hfirst, by decide, fun hpairwise => ?_⟩
  rw [hremaining, List.pairwise_pair] at hpairwise
  obtain ⟨i, j, -, hj, hlt⟩ := hpairwise
  rw [hfirst] at hj
  cases hj
  exact Nat.not_lt_zero i hlt

end EmitQueue

end Rebuild
