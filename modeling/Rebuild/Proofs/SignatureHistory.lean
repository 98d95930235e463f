import Rebuild.Proofs.State

/-!
# What a signature is compared with

A state holds the signature of a unit in its record, and the one from before the last change of
the text beside it.  Told by path, both say one thing: the signature that was stored last for the
path while it stayed in the program.

* `PathEvent`: what happens to a state, told by path;
* `lastStored`: the signature stored last for a path, forgotten when the path leaves the program;
* `State.History`: the states that snapshots and stored signatures lead to, with their events;
* `State.History.knownHash?_eq`: what the next check of a path is compared with is the digest that
  was stored last for it;
* `State.History.moves_lastStored`: a signature stays exactly when it is known and was the last one stored.
-/

namespace Rebuild

/-! ### Events -/

/-- What happens to a state, told by path. -/
inductive PathEvent where
  /-- A snapshot of units with these paths became the state. -/
  | listed (paths : List UnitPath)
  /-- A signature was stored for the unit with this path. -/
  | signed (path : UnitPath) (signature : Signature)

/-- The signature stored last for a path since it was added to the program.  The latest event comes
first. -/
def lastStored (path : UnitPath) : List PathEvent → Option Signature
  | [] => none
  | .listed paths :: log => if path ∈ paths then lastStored path log else none
  | .signed unit signature :: log => if unit = path then some signature else lastStored path log

namespace State

/-- The states that follow the empty one through snapshots and stored signatures, each with what
happened before it, the latest first. -/
inductive History : State → List PathEvent → Prop
  | empty : History {} []
  | rebuilt {s : State} {log : List PathEvent} (h : History s log) (snapshot : Snapshot)
      (tracking : Bool) :
      History (ofSnapshot snapshot tracking s) (.listed (snapshot.units.map (·.path)) :: log)
  | signed {s : State} {log : List PathEvent} (h : History s log) {id : UnitId}
      (hid : id < s.graph.size) (signature : Signature) :
      History (s.sign id signature) (.signed (s.graph.pathOf id) signature :: log)

/-- The record of a path after a signature was stored for some unit. -/
theorem recordOf?_signed {s : State} (hs : s.WellFormed) {id : UnitId} (hid : id < s.graph.size)
    (signature : Signature) (path : UnitPath) :
    (s.sign id signature).recordOf? path
      = if s.graph.pathOf id = path then (s.recordOf? path).map (·.sign signature)
        else s.recordOf? path := by
  split
  · rename_i hpath
    have hidOf := Graph.idOf?_pathOf hs.nodup hid
    rw [hpath] at hidOf
    rw [recordOf?_of_idOf? (by exact hidOf), recordOf?_of_idOf? hidOf, record?_sign_self]
  · rename_i hpath
    cases hother : s.graph.idOf? path with
    | none =>
        rw [recordOf?, recordOf?, graph_sign, hother]
        rfl
    | some other =>
        have hne : other ≠ id := by
          rintro rfl
          exact hpath (Graph.pathOf_of_idOf? hother)
        rw [recordOf?_of_idOf? (by exact hother), recordOf?_of_idOf? hother,
          record?_sign_of_ne hne]

namespace History

variable {s : State} {log : List PathEvent}

theorem wellFormed (h : History s log) : s.WellFormed := by
  induction h with
  | empty => exact ⟨List.nodup_nil, rfl⟩
  | rebuilt h snapshot tracking ih => exact wellFormed_ofSnapshot
  | signed h hid signature ih => exact wellFormed_sign ih

/-- **What a check is compared with is what was stored last.**  Neither snapshots, nor changed texts,
nor signatures of other units come between. -/
theorem knownHash?_eq (h : History s log) (path : UnitPath) :
    (s.recordOf? path).bind (·.knownHash?) = (lastStored path log).bind Signature.hash? := by
  induction h with
  | empty => rfl
  | @rebuilt s log h snapshot tracking ih =>
      rw [recordOf?_ofSnapshot, lastStored]
      cases hunit : snapshot.unit? path with
      | none => rw [if_neg (Snapshot.unit?_eq_none_iff.mp hunit), Option.map_none]; rfl
      | some unit =>
          obtain ⟨hmem, hpath⟩ := Snapshot.unit?_eq_some_iff.mp hunit
          rw [if_pos (hpath ▸ List.mem_map_of_mem hmem), Option.map_some, Option.bind_some,
            UnitRecord.knownHash?_next, ih]
  | @signed s log h id hid signature ih =>
      rw [recordOf?_signed h.wellFormed hid, lastStored]
      split
      · rename_i hpath
        obtain ⟨r, hr⟩ : ∃ r, s.recordOf? path = some r := by
          rw [← Option.isSome_iff_exists, recordOf?_isSome h.wellFormed, ← hpath,
            Graph.idOf?_pathOf h.wellFormed.nodup hid]
          rfl
        rw [hr, Option.map_some, Option.bind_some, Option.bind_some, UnitRecord.knownHash?_sign]
      · exact ih

/-- **Signatures are compared by path, across any number of texts.**  Let `stored` be the signature
stored last for the path of a unit, with the path in the program ever since: the next signature
stays exactly when it is known and equal to `stored`.  When nothing was stored since the path was
added, it moves. -/
theorem moves_lastStored (h : History s log) {id : UnitId} (hid : id < s.graph.size)
    (signature : Signature) :
    (∀ stored, lastStored (s.graph.pathOf id) log = some stored →
      (s.moves id signature = false
        ↔ ∃ hash, signature = .known hash ∧ stored = .known hash))
    ∧ (lastStored (s.graph.pathOf id) log = none → s.moves id signature = true) := by
  have hstays : s.moves id signature = false ↔
      ∃ hash, (lastStored (s.graph.pathOf id) log).bind Signature.hash? = some hash
        ∧ signature = .known hash := by
    rw [moves_eq_false_iff h.wellFormed hid, h.knownHash?_eq]
  refine ⟨fun stored hstored => ?_, fun hnone => ?_⟩
  · rw [hstays, hstored, Option.bind_some]
    refine exists_congr fun hash => ?_
    rw [and_comm]
    refine and_congr_right fun _ => ⟨Signature.eq_known_of_hash?, ?_⟩
    rintro rfl
    rfl
  · rw [hnone] at hstays
    rw [← Bool.not_eq_false, hstays]
    rintro ⟨hash, habsurd, _⟩
    cases habsurd

/-- A signature that was stored before a change of the text still counts after the change was
reverted, and no longer after the unit was removed and added again. -/
theorem moves_reverted_and_readded :
    let first := Snapshot.ofUnits [{ path := "a.ts", version := "1" }]
    let second := Snapshot.ofUnits [{ path := "a.ts", version := "2" }]
    let signed := (ofSnapshot first true {}).sign 0 (.known "h")
    let reverted := ofSnapshot first true (ofSnapshot second true signed)
    let readded := ofSnapshot first true (ofSnapshot (Snapshot.ofUnits []) true reverted)
    reverted.moves 0 (.known "h") = false ∧ reverted.moves 0 (.known "i") = true
      ∧ readded.moves 0 (.known "h") = true := by
  intro first second signed reverted readded
  have hsigned : History signed _ := (History.empty.rebuilt first true).signed (by decide) _
  have hreverted : History reverted _ := (hsigned.rebuilt second true).rebuilt first true
  have hreadded : History readded _ := (hreverted.rebuilt (.ofUnits []) true).rebuilt first true
  have hunit : 0 < reverted.graph.size := by decide
  obtain ⟨hstored, _⟩ := moves_lastStored hreverted hunit (.known "h")
  obtain ⟨hother, _⟩ := moves_lastStored hreverted hunit (.known "i")
  have hagain : 0 < readded.graph.size := by decide
  obtain ⟨_, hfresh⟩ := moves_lastStored hreadded hagain (.known "h")
  refine ⟨(hstored (.known "h") rfl).mpr ⟨"h", rfl, rfl⟩, ?_, hfresh rfl⟩
  rw [← Bool.not_eq_false, hother (.known "h") rfl]
  rintro ⟨hash, hi, hh⟩
  cases hi
  exact absurd hh (by decide)

end History

end State

end Rebuild
