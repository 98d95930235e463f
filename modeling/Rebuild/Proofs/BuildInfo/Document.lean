import Rebuild.BuildInfo.Document
import Rebuild.Proofs.State

/-!
# What a document is found to hold

A document that is accepted lists each unit once and has a record for each, and everything that it
refers to is one of its units.

* `Graph.ofIndexed_ok`, `State.ofParts_ok`: what stored parts make;
* `BuildInfo.Document.exists_of_decode`, `BuildInfo.Document.decode_ok`: the content of an accepted
  document;
* `BuildInfo.Document.wellFormed_of_decode`: its state is well formed.
-/

namespace Rebuild

/-! ### Repeats -/

theorem length_eraseDups_le {α : Type} [BEq α] (xs : List α) :
    xs.eraseDups.length ≤ xs.length := by
  induction hn : xs.length using Nat.strongRecOn generalizing xs with
  | ind n ih =>
      cases xs with
      | nil => simp
      | cons x rest =>
          have hfilter := List.length_filter_le (fun y => !y == x) rest
          simp only [List.length_cons] at hn
          have hrest := ih (rest.filter fun y => !y == x).length (by omega) _ rfl
          rw [List.eraseDups_cons, List.length_cons]
          omega

/-- Nothing is lost by removing repeats exactly when there are none. -/
theorem length_eraseDups_eq_iff {α : Type} [BEq α] [LawfulBEq α] (xs : List α) :
    xs.eraseDups.length = xs.length ↔ xs.Nodup := by
  induction xs with
  | nil => simp
  | cons x rest ih =>
      have hshorter := length_eraseDups_le (rest.filter fun y => !y == x)
      have hfilter := List.length_filter_le (fun y => !y == x) rest
      rw [List.eraseDups_cons, List.length_cons, List.length_cons, List.nodup_cons]
      constructor
      · intro hlength
        have hall : (rest.filter fun y => !y == x) = rest :=
          List.filter_sublist.eq_of_length (by omega)
        rw [hall] at hlength
        refine ⟨fun hmem => ?_, ih.mp (by omega)⟩
        simpa using List.filter_eq_self.mp hall x hmem
      · rintro ⟨hfresh, hnodup⟩
        have hall : (rest.filter fun y => !y == x) = rest := by
          refine List.filter_eq_self.mpr fun y hy => ?_
          simp only [Bool.not_eq_true', beq_eq_false_iff_ne]
          rintro rfl
          exact hfresh hy
        rw [hall, ih.mpr hnodup]

/-! ### Stored parts -/

theorem Graph.ofIndexed_ok {paths : List UnitPath} {imports exports : List (Nat × Nat)}
    {tracking : Bool} {g : Graph} (h : Graph.ofIndexed paths imports exports tracking = .ok g) :
    paths.Nodup ∧ g.paths = paths ∧ g.tracking = tracking := by
  rw [ofIndexed] at h
  split at h
  · cases h
  · rename_i hlength
    have hnodup := (length_eraseDups_eq_iff paths).mp (by simpa using hlength)
    split at h
    · rename_i htracking
      split at h
      · cases h
      · cases h
        exact ⟨hnodup, rfl, htracking.symm⟩
    · rename_i htracking
      cases h
      rw [Bool.not_eq_true] at htracking
      exact ⟨hnodup, rfl, htracking.symm⟩

/-- The edges of a graph of stored edges: import edges first, then export edges with what they
presuppose. -/
theorem Graph.edges_of_ofIndexed {paths : List UnitPath} {imports exports : List (Nat × Nat)}
    {tracking : Bool} {g : Graph} (h : Graph.ofIndexed paths imports exports tracking = .ok g) :
    g.edges = if tracking then some (exports.foldl Edges.addExport (imports.foldl Edges.addImport {}))
      else none := by
  rw [ofIndexed] at h
  split at h
  · cases h
  · split at h
    · rename_i htracking
      split at h
      · cases h
      · cases h
        rw [if_pos htracking]
    · rename_i htracking
      cases h
      rw [if_neg htracking]

theorem State.ofParts_ok {g : Graph} {infos : List UnitInfo} {s : State}
    (h : State.ofParts g infos = .ok s) :
    g.size = infos.length ∧ s = ⟨g, infos.map fun info => { info }⟩ := by
  rw [ofParts] at h
  split at h
  · cases h
    exact ⟨‹_›, rfl⟩
  · cases h

/-- Two steps that succeeded, one by one. -/
theorem bind_eq_ok_iff {α β : Type} {x : Except Error α} {f : α → Except Error β} {b : β} :
    (x >>= f) = .ok b ↔ ∃ a, x = .ok a ∧ f a = .ok b := by
  cases x with
  | error e => simp [bind, Except.bind]
  | ok a => simp [bind, Except.bind]

namespace BuildInfo.Document

variable {expected : String} {d : Document} {decoded : Decoded}

/-- **What is found in an accepted document.**  The graph of the stored edges with what is said about the
units, the emits, the checks and the diagnostics at their positions, and the options hash. -/
theorem exists_of_decode (h : d.decode expected = .ok decoded) :
    ∃ g emits, Graph.ofIndexed (d.units.map (·.path)) d.dependencyEdges d.exportEdges
        d.dependencyTracking = .ok g
      ∧ g.size = d.units.length
      ∧ decoded.state = ⟨g, d.units.map fun unit => { info := decodeUnit unit }⟩
      ∧ (d.pendingEmit.mapM fun entry => do
          return PendingEmit.mk (← d.pathAt "pending emit" entry.unit) entry.kind) = .ok emits
      ∧ decoded.pendingEmit = EmitQueue.ofParts emits d.pendingEmitCursor
      ∧ (d.pendingCheck.mapM fun entry => do
          return PendingCheck.mk (← d.pathAt "pending check" entry.unit) entry.isGlobal)
        = .ok decoded.pendingCheck
      ∧ ((d.diagnostics.getD []).mapM fun entry => do
          let unit ← d.pathAt "diagnostics" entry.1
          return (unit, entry.2.map fun found : CompactDiagnostic => found.expand unit))
        = .ok decoded.diagnostics
      ∧ decoded.optionsHash = d.optionsHash := by
  rw [decode] at h
  split at h
  · cases h
  · obtain ⟨g, hgraph, h⟩ := bind_eq_ok_iff.mp h
    obtain ⟨emits, hemits, h⟩ := bind_eq_ok_iff.mp h
    obtain ⟨checks, hchecks, h⟩ := bind_eq_ok_iff.mp h
    obtain ⟨diagnostics, hdiagnostics, h⟩ := bind_eq_ok_iff.mp h
    obtain ⟨state, hstate, h⟩ := bind_eq_ok_iff.mp h
    cases h
    obtain ⟨hsize, rfl⟩ := State.ofParts_ok hstate
    refine ⟨g, emits, hgraph, by simpa using hsize, ?_, hemits, rfl, hchecks, hdiagnostics, rfl⟩
    rw [List.map_map]
    rfl

/-- The content of an accepted document: its units with what it says about them, and the checks that
it refers to. -/
theorem decode_ok (h : d.decode expected = .ok decoded) :
    (∃ g, Graph.ofIndexed (d.units.map (·.path)) d.dependencyEdges d.exportEdges
        d.dependencyTracking = .ok g
      ∧ g.size = d.units.length
      ∧ decoded.state = ⟨g, d.units.map fun unit => { info := decodeUnit unit }⟩)
      ∧ (d.pendingCheck.mapM fun entry => do
          return PendingCheck.mk (← d.pathAt "pending check" entry.unit) entry.isGlobal)
        = .ok decoded.pendingCheck
      ∧ decoded.optionsHash = d.optionsHash := by
  obtain ⟨g, _, hgraph, hsize, hstate, _, _, hchecks, _, hhash⟩ := exists_of_decode h
  exact ⟨⟨g, hgraph, hsize, hstate⟩, hchecks, hhash⟩

/-- An accepted document holds a well-formed state. -/
theorem wellFormed_of_decode (h : d.decode expected = .ok decoded) : decoded.state.WellFormed := by
  obtain ⟨⟨g, hgraph, hsize, hstate⟩, _, _⟩ := decode_ok h
  obtain ⟨hnodup, hpaths, _⟩ := Graph.ofIndexed_ok hgraph
  rw [hstate]
  refine ⟨?_, ?_⟩
  · show g.paths.Nodup
    rw [hpaths]
    exact hnodup
  · show (d.units.map _).length = g.size
    rw [List.length_map, hsize]

/-- The emits of an accepted document start at its cursor, or at their end. -/
theorem exists_pendingEmit (h : d.decode expected = .ok decoded) :
    ∃ emits, decoded.pendingEmit = EmitQueue.ofParts emits d.pendingEmitCursor := by
  obtain ⟨_, emits, _, _, _, _, hemits, _⟩ := exists_of_decode h
  exact ⟨emits, hemits⟩

end BuildInfo.Document

end Rebuild
