import Rebuild.EmitQueue

/-!
# What remains of an emit queue

The operations of a queue, seen from the entries that remain.

* `EmitQueue.remaining_push`, `EmitQueue.remaining_pushAll`, `EmitQueue.remaining_compact`,
  `EmitQueue.next?_eq_some`: what each operation does to the entries that remain;
* `EmitQueue.filter_requestAll`: requests for units that are left out anyway make no difference;
* `EmitQueue.asks_requestAll`: an output is asked for when a request or an entry asks for it;
* `EmitQueue.full_mem_request`: a request for everything that is open stays open;
* `EmitQueue.Distinct`: no unit is named twice, and requests change nothing about it;
* `EmitQueue.firstKind?`: the entry that a request for a unit upgrades.
-/

namespace Rebuild

/-- The stronger of two requests is a full one when one of them is. -/
@[simp] theorem EmitKind.merge_full (kind : EmitKind) : kind.merge .full = .full := by
  cases kind <;> rfl

@[simp] theorem EmitKind.full_merge (kind : EmitKind) : EmitKind.full.merge kind = .full := by
  cases kind <;> rfl

/-- The outputs of a unit that an emit writes: the full one and the declarations, or only these. -/
def EmitKind.parts : EmitKind → List EmitKind
  | .full => [.full, .types]
  | .types => [.types]

theorem EmitKind.types_mem_parts (kind : EmitKind) : .types ∈ kind.parts := by
  cases kind <;> simp [parts]

/-- A combined request is for the outputs of both. -/
theorem EmitKind.mem_parts_merge {kind kind' part : EmitKind} :
    part ∈ (kind.merge kind').parts ↔ part ∈ kind.parts ∨ part ∈ kind'.parts := by
  cases kind <;> cases kind' <;> cases part <;> simp [merge, parts]

namespace EmitQueue

variable {q : EmitQueue} {unit path : UnitPath} {kind : EmitKind} {entry : PendingEmit}
variable {entries more : List PendingEmit}

/-- The cursor is not past the end. -/
def WellFormed (q : EmitQueue) : Prop :=
  q.cursor ≤ q.entries.length

/-- Merge several requests into a list of entries, in order. -/
def requestAll (requests entries : List PendingEmit) : List PendingEmit :=
  requests.foldl (fun entries entry => request entry.unit entry.kind entries) entries

/-! ### Operations -/

theorem WellFormed.length_consumed (h : q.WellFormed) : q.consumed.length = q.cursor := by
  rw [consumed, List.length_take]
  exact Nat.min_eq_left h

theorem wellFormed_ofParts (entries : List PendingEmit) (cursor : Nat) :
    (ofParts entries cursor).WellFormed :=
  Nat.min_le_right cursor entries.length

theorem WellFormed.push (h : q.WellFormed) (unit : UnitPath) (kind : EmitKind) :
    (q.push unit kind).WellFormed := by
  show q.cursor ≤ (q.consumed ++ request unit kind q.remaining).length
  rw [List.length_append, h.length_consumed]
  omega

theorem remaining_push (h : q.WellFormed) (unit : UnitPath) (kind : EmitKind) :
    (q.push unit kind).remaining = request unit kind q.remaining := by
  show (q.consumed ++ request unit kind q.remaining).drop q.cursor = _
  rw [← h.length_consumed, List.drop_left]

theorem WellFormed.pushAll (h : q.WellFormed) (requests : List PendingEmit) :
    (q.pushAll requests).WellFormed := by
  induction requests generalizing q with
  | nil => exact h
  | cons first rest ih => exact ih (h.push first.unit first.kind)

theorem remaining_pushAll (h : q.WellFormed) (requests : List PendingEmit) :
    (q.pushAll requests).remaining = requestAll requests q.remaining := by
  induction requests generalizing q with
  | nil => rfl
  | cons first rest ih =>
      show ((q.push first.unit first.kind).pushAll rest).remaining = _
      rw [ih (h.push first.unit first.kind), remaining_push h]
      rfl

@[simp] theorem cursor_pushAll (q : EmitQueue) (requests : List PendingEmit) :
    (q.pushAll requests).cursor = q.cursor := by
  induction requests generalizing q with
  | nil => rfl
  | cons first rest ih => exact ih (q.push first.unit first.kind)

theorem wellFormed_compact (q : EmitQueue) (keep : UnitPath → Bool) : (q.compact keep).WellFormed :=
  Nat.zero_le _

@[simp] theorem remaining_compact (q : EmitQueue) (keep : UnitPath → Bool) :
    (q.compact keep).remaining = q.remaining.filter fun entry => keep entry.unit :=
  List.drop_zero

/-- The entry that is handed out was the first of those that remained. -/
theorem next?_eq_some {queue : EmitQueue} (h : q.next? = some (entry, queue)) :
    q.remaining = entry :: queue.remaining ∧ queue.WellFormed := by
  rw [next?] at h
  cases hremaining : q.remaining with
  | nil =>
      rw [hremaining] at h
      cases h
  | cons first rest =>
      rw [hremaining] at h
      cases h
      have hdrop : q.entries.drop q.cursor = entry :: rest := hremaining
      have hlength : (q.entries.drop q.cursor).length = rest.length + 1 := by
        rw [hdrop]
        rfl
      rw [List.length_drop] at hlength
      refine ⟨?_, ?_⟩
      · show entry :: rest = entry :: q.entries.drop (q.cursor + 1)
        rw [← List.tail_drop, hdrop]
        rfl
      · show q.cursor + 1 ≤ q.entries.length
        omega

/-- Handing out moves the cursor only. -/
theorem entries_of_next? {queue : EmitQueue} (h : q.next? = some (entry, queue)) :
    queue.entries = q.entries := by
  rw [next?] at h
  split at h
  · cases h
  · cases h
    rfl

theorem next?_eq_none_iff : q.next? = none ↔ q.remaining = [] := by
  rw [next?]
  cases hremaining : q.remaining with
  | nil => simp
  | cons first rest => simp

/-! ### Requests -/

/-- A request concerns no other unit. -/
theorem mem_request (h : entry ∈ request unit kind entries) : entry.unit = unit ∨ entry ∈ entries := by
  induction entries with
  | nil =>
      rw [request, List.mem_singleton] at h
      exact Or.inl (by rw [h])
  | cons first rest ih =>
      rw [request] at h
      split at h
      · rename_i hsame
        rcases List.mem_cons.mp h with hfirst | hrest
        · exact Or.inl (by rw [hfirst]; exact hsame)
        · exact Or.inr (List.mem_cons_of_mem _ hrest)
      · rcases List.mem_cons.mp h with hfirst | hrest
        · exact Or.inr (by rw [hfirst]; exact List.mem_cons_self)
        · rcases ih hrest with hunit | hold
          · exact Or.inl hunit
          · exact Or.inr (List.mem_cons_of_mem _ hold)

theorem requestAll_cons (first : PendingEmit) (rest entries : List PendingEmit) :
    requestAll (first :: rest) entries = requestAll rest (request first.unit first.kind entries) := rfl

theorem requestAll_append {requests : List PendingEmit} :
    requestAll (requests ++ more) entries = requestAll more (requestAll requests entries) :=
  List.foldl_append

theorem mem_requestAll {requests : List PendingEmit} (h : entry ∈ requestAll requests entries) :
    entry.unit ∈ requests.map (·.unit) ∨ entry ∈ entries := by
  induction requests generalizing entries with
  | nil => exact Or.inr h
  | cons first rest ih =>
      rw [requestAll_cons] at h
      rcases ih h with hlater | hopen
      · exact Or.inl (List.mem_cons_of_mem _ hlater)
      · rcases mem_request hopen with hunit | hold
        · exact Or.inl (by rw [hunit]; exact List.mem_cons_self)
        · exact Or.inr hold

/-! ### Units that are left out -/

theorem filter_request (keep : UnitPath → Bool) (unit : UnitPath) (kind : EmitKind)
    (entries : List PendingEmit) :
    (request unit kind entries).filter (fun entry => keep entry.unit)
      = if keep unit then request unit kind (entries.filter fun entry => keep entry.unit)
        else entries.filter fun entry => keep entry.unit := by
  induction entries with
  | nil =>
      by_cases hunit : keep unit = true
      · simp [request, hunit]
      · simp [request, hunit]
  | cons first rest ih =>
      by_cases hsame : first.unit = unit
      · subst hsame
        by_cases hunit : keep first.unit = true
        · simp [request, hunit]
        · simp [request, hunit]
      · by_cases hfirst : keep first.unit = true
        · by_cases hunit : keep unit = true
          · simp [request, hsame, hfirst, hunit, ih]
          · simp [request, hsame, hfirst, hunit, ih]
        · simp [request, hsame, hfirst, ih]

/-- Leaving units out afterwards is the same as leaving them out before, among the entries and among
the requests. -/
theorem filter_requestAll (keep : UnitPath → Bool) (requests entries : List PendingEmit) :
    (requestAll requests entries).filter (fun entry => keep entry.unit)
      = requestAll (requests.filter fun entry => keep entry.unit)
          (entries.filter fun entry => keep entry.unit) := by
  induction requests generalizing entries with
  | nil => rfl
  | cons first rest ih =>
      rw [requestAll_cons, ih, filter_request]
      by_cases hfirst : keep first.unit = true
      · rw [if_pos hfirst, List.filter_cons, if_pos hfirst]
        rfl
      · rw [if_neg hfirst, List.filter_cons, if_neg hfirst]

/-! ### Outputs that are asked for -/

/-- One of several entries asks for an output of a unit. -/
def Asks (entries : List PendingEmit) (path : UnitPath) (part : EmitKind) : Prop :=
  ∃ entry ∈ entries, entry.unit = path ∧ part ∈ entry.kind.parts

variable {part : EmitKind}

theorem asks_of_full_mem (h : ⟨path, .full⟩ ∈ entries) (part : EmitKind) : Asks entries path part :=
  ⟨_, h, rfl, by cases part <;> simp [EmitKind.parts]⟩

theorem asks_cons :
    Asks (entry :: entries) path part
      ↔ (entry.unit = path ∧ part ∈ entry.kind.parts) ∨ Asks entries path part := by
  simp [Asks]

theorem asks_append :
    Asks (entries ++ more) path part ↔ Asks entries path part ∨ Asks more path part := by
  simp [Asks, or_and_right, exists_or]

theorem asks_request :
    Asks (request unit kind entries) path part
      ↔ (unit = path ∧ part ∈ kind.parts) ∨ Asks entries path part := by
  induction entries with
  | nil => simp [request, Asks]
  | cons first rest ih =>
      rw [request]
      split
      · rename_i hsame
        rw [asks_cons, asks_cons, EmitKind.mem_parts_merge, hsame, and_or_left, or_assoc,
          or_left_comm]
      · rw [asks_cons, asks_cons, ih, or_left_comm]

theorem asks_requestAll {requests : List PendingEmit} :
    Asks (requestAll requests entries) path part
      ↔ Asks requests path part ∨ Asks entries path part := by
  induction requests generalizing entries with
  | nil => simp [requestAll, Asks]
  | cons first rest ih =>
      rw [requestAll_cons, ih, asks_request, asks_cons, or_left_comm, or_assoc]

/-- Only an entry for everything asks for the full output. -/
theorem asks_full_iff : Asks entries path .full ↔ ⟨path, .full⟩ ∈ entries := by
  constructor
  · intro h
    obtain ⟨⟨unit, kind⟩, hentry, rfl, hpart⟩ := h
    cases kind with
    | full => exact hentry
    | types => simp [EmitKind.parts] at hpart
  · exact fun h => asks_of_full_mem h .full

/-- A request for everything that is open stays open. -/
theorem full_mem_request (h : ⟨path, .full⟩ ∈ entries) :
    ⟨path, .full⟩ ∈ request unit kind entries := by
  rw [← asks_full_iff, asks_request]
  exact Or.inr (asks_full_iff.mpr h)

theorem full_mem_requestAll {requests : List PendingEmit} :
    ⟨path, .full⟩ ∈ requestAll requests entries
      ↔ ⟨path, .full⟩ ∈ requests ∨ ⟨path, .full⟩ ∈ entries := by
  rw [← asks_full_iff, ← asks_full_iff, ← asks_full_iff, asks_requestAll]

/-! ### Units that are named once -/

def Distinct (entries : List PendingEmit) : Prop :=
  (entries.map (·.unit)).Nodup

instance (entries : List PendingEmit) : Decidable (Distinct entries) :=
  inferInstanceAs (Decidable (List.Nodup _))

/-- A request adds its unit at the end if it was not named yet. -/
theorem units_request (unit : UnitPath) (kind : EmitKind) (entries : List PendingEmit) :
    (request unit kind entries).map (·.unit)
      = if unit ∈ entries.map (·.unit) then entries.map (·.unit)
        else entries.map (·.unit) ++ [unit] := by
  induction entries with
  | nil => simp [request]
  | cons first rest ih =>
      by_cases hsame : first.unit = unit
      · simp [request, hsame]
      · rw [request, if_neg hsame, List.map_cons, ih]
        by_cases hmem : unit ∈ rest.map (·.unit)
        · simp [hmem]
        · simp [hmem, Ne.symm hsame]

/-- A request neither makes nor removes doubles. -/
theorem distinct_request : Distinct (request unit kind entries) ↔ Distinct entries := by
  rw [Distinct, Distinct, units_request]
  by_cases hmem : unit ∈ entries.map (·.unit)
  · rw [if_pos hmem]
  · rw [if_neg hmem, List.nodup_append]
    refine ⟨fun h => h.1, fun h => ⟨h, by simp, fun path hpath other hother hsame => hmem ?_⟩⟩
    rw [List.mem_singleton.mp hother] at hsame
    exact hsame ▸ hpath

theorem distinct_requestAll {requests : List PendingEmit} :
    Distinct (requestAll requests entries) ↔ Distinct entries := by
  induction requests generalizing entries with
  | nil => exact Iff.rfl
  | cons first rest ih => rw [requestAll_cons, ih, distinct_request]

theorem Distinct.sublist (h : Distinct entries) (hsub : more.Sublist entries) : Distinct more :=
  List.Nodup.sublist (hsub.map _) h

/-! ### First entries -/

/-- The kind of the first entry of a unit, which is the one that a request upgrades. -/
def firstKind? (entries : List PendingEmit) (path : UnitPath) : Option EmitKind :=
  (entries.find? fun entry => entry.unit == path).map (·.kind)

theorem firstKind?_cons :
    firstKind? (entry :: entries) path
      = if entry.unit = path then some entry.kind else firstKind? entries path := by
  by_cases hsame : entry.unit = path
  · simp [firstKind?, hsame]
  · simp [firstKind?, hsame]

/-- A request is merged into the first entry of its unit. -/
theorem firstKind?_request :
    firstKind? (request unit kind entries) path
      = if unit = path then some (((firstKind? entries path).map (·.merge kind)).getD kind)
        else firstKind? entries path := by
  induction entries with
  | nil =>
      rw [request, firstKind?_cons]
      rfl
  | cons first rest ih =>
      by_cases hfirst : first.unit = unit
      · rw [request, if_pos hfirst, firstKind?_cons, firstKind?_cons, hfirst]
        by_cases hsame : unit = path
        · simp [hsame]
        · simp [hsame]
      · rw [request, if_neg hfirst, firstKind?_cons, firstKind?_cons, ih]
        by_cases hpath : first.unit = path
        · rw [if_pos hpath, if_pos hpath, if_neg fun hsame => hfirst (hpath.trans hsame.symm)]
        · rw [if_neg hpath, if_neg hpath]

/-- A full request is the first entry of its unit from then on. -/
theorem firstKind?_requestAll {requests : List PendingEmit}
    (h : ⟨path, .full⟩ ∈ requests ∨ firstKind? entries path = some .full) :
    firstKind? (requestAll requests entries) path = some .full := by
  induction requests generalizing entries with
  | nil => exact h.resolve_left List.not_mem_nil
  | cons first rest ih =>
      rw [requestAll_cons]
      refine ih ?_
      rw [firstKind?_request]
      rcases h with hmem | hfull
      · rcases List.mem_cons.mp hmem with hfirst | hrest
        · refine Or.inr ?_
          subst hfirst
          cases firstKind? entries path with
          | none => simp
          | some kind => simp
        · exact Or.inl hrest
      · refine Or.inr ?_
        rw [hfull]
        split
        · simp
        · rfl

/-- A unit whose first entry is full is owed nothing more by a request. -/
theorem request_eq_self (h : firstKind? entries unit = some .full) (kind : EmitKind) :
    request unit kind entries = entries := by
  induction entries with
  | nil => cases h
  | cons first rest ih =>
      rw [firstKind?_cons] at h
      rw [request]
      by_cases hsame : first.unit = unit
      · rw [if_pos hsame] at h ⊢
        rw [Option.some.inj h, EmitKind.full_merge, ← Option.some.inj h]
      · rw [if_neg hsame] at h ⊢
        rw [ih h]

theorem requestAll_eq_self {requests : List PendingEmit}
    (h : ∀ entry ∈ requests, firstKind? entries entry.unit = some .full) :
    requestAll requests entries = entries := by
  induction requests with
  | nil => rfl
  | cons first rest ih =>
      rw [requestAll_cons, request_eq_self (h first List.mem_cons_self)]
      exact ih fun entry hentry => h entry (List.mem_cons_of_mem _ hentry)

/-- Where no unit is named twice, every entry is the first one of its unit. -/
theorem Distinct.firstKind?_eq (h : Distinct entries) (hentry : entry ∈ entries) :
    firstKind? entries entry.unit = some entry.kind := by
  induction entries with
  | nil => cases hentry
  | cons first rest ih =>
      obtain ⟨hfresh, hrest⟩ := List.nodup_cons.mp h
      rw [firstKind?_cons]
      rcases List.mem_cons.mp hentry with hfirst | hlater
      · rw [hfirst, if_pos rfl]
      · rw [if_neg, ih hrest hlater]
        intro hsame
        exact hfresh (List.mem_map.mpr ⟨entry, hlater, hsame.symm⟩)

theorem length_request_le (unit : UnitPath) (kind : EmitKind) (entries : List PendingEmit) :
    (request unit kind entries).length ≤ entries.length + 1 := by
  induction entries with
  | nil => simp [request]
  | cons first rest ih =>
      rw [request]
      split
      · simp
      · simpa using ih

/-- A request adds one entry at most to those that remain. -/
theorem length_remaining_push_le (q : EmitQueue) (unit : UnitPath) (kind : EmitKind) :
    (q.push unit kind).remaining.length ≤ q.remaining.length + 1 := by
  have hconsumed : q.consumed.length ≤ q.cursor := List.length_take_le _ _
  have hrequest := length_request_le unit kind q.remaining
  show ((q.consumed ++ request unit kind q.remaining).drop q.cursor).length ≤ _
  rw [List.length_drop, List.length_append]
  omega

end EmitQueue

end Rebuild
