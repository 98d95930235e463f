import Rebuild.Proofs.Answers
import Rebuild.Proofs.Skipped

/-!
# What a program remembers is right

A host that answers about the world of its latest snapshot finds the same in two worlds for units
with the same texts and the same surroundings.  Therefore what a program remembers about the units
that a round skips is what a recheck would find, as soon as no check is left to pull.

* `Program.Tied`: units whose surroundings in a world are those that the program remembers;
* `Program.Tracks`: what holds in every round, in particular that what was found in it is stored;
* `Program.Sound`: the invariant of a round.  The units that the round skips are right in every world
  that they are tied to, up to those that were last rechecked in a round that was superseded;
* `Program.Sound.recheck`, `Program.Sound.rests`: a step keeps the invariant;
* `Program.Sound.exact`: in a finished round, every unit is right.
-/

namespace Rebuild

namespace Program

variable {η β : Type} [Host η] {A : Answers η} {observe : UnitPath → List Diagnostic → β}
variable {p q : Program η} {w w' : A.World} {U : UnitPath → Prop} {path : UnitPath}

/-- The units of `U` have in the world `w` the versions that they have in the program, and each of
their dependencies is in `U`, or in neither of the two, or in the world with the signature that the
program knows. -/
def Tied (A : Answers η) (p : Program η) (w : A.World) (U : UnitPath → Prop) : Prop :=
  ∀ path, U path → ∃ unit unit', p.snapshot.unit? path = some unit
    ∧ (A.view w).unit? path = some unit' ∧ unit.version = unit'.version
    ∧ ∀ dep ∈ unit.dependencies, U dep.path
      ∨ (p.snapshot.unit? dep.path = none ∧ (A.view w).unit? dep.path = none)
      ∨ ((A.view w).unit? dep.path).isSome = true
        ∧ ∃ hash, p.known? dep.path = some hash ∧ (A.verdict w dep.path).1 = .known hash

/-- What holds in every round of a program whose latest snapshot was taken of the world `w`. -/
structure Tracks (A : Answers η) (observe : UnitPath → List Diagnostic → β) (p : Program η) (w : A.World) :
    Prop where
  tidy : p.Tidy
  here : A.At p.host w
  view : A.view w = p.snapshot
  graph : ∃ tracking, p.state.graph = p.snapshot.graph tracking
  version : ∀ path r, p.state.recordOf? path = some r →
    ∃ unit, p.snapshot.unit? path = some unit ∧ unit.version = r.info.version
  /-- What was found in this round is stored. -/
  done : ∀ path, p.Done path → p.Stores (observe path) path (A.verdict w path)
  /-- A failure alarms the dependents. -/
  alarmed : ∀ path, p.Done path → (A.verdict w path).1 = .unknown →
    ∀ a, p.state.graph.Imports a path → ¬ p.Skips a
  /-- A signature from before the last change of a text is remembered only while the unit waits. -/
  settled : ∀ path r, ¬ p.Awaits path → p.state.recordOf? path = some r → r.lastKnown = none

/-- The invariant of a round, where `early path v` stands for a unit that was last rechecked in the
world `v`, in a round that was superseded. -/
structure Sound (A : Answers η) (observe : UnitPath → List Diagnostic → β)
    (early : UnitPath → A.World → Prop) (p : Program η) (w : A.World) : Prop
    extends p.Tracks A observe w where
  /-- What was found in a superseded round stays stored while the unit is skipped. -/
  kept : ∀ path v, early path v → p.Skips path → p.Stores (observe path) path (A.verdict v path)
  /-- Skipped units are right in every world that they are tied to, when those that were last
  rechecked in a superseded round are. -/
  skipped : ∀ w' U, (∀ path, U path → p.Skips path) → p.Tied A w' U →
    (∀ path v, U path → early path v → A.Alike (observe path) v w' path) →
    ∀ path, U path → p.Stores (observe path) path (A.verdict w' path)

namespace Tracks

/-! ### Reading a round -/

/-- A unit of the program is a unit of the snapshot. -/
theorem isSome_unit? (h : p.Tracks A observe w) :
    (p.snapshot.unit? path).isSome = (p.state.graph.idOf? path).isSome := by
  obtain ⟨tracking, hgraph⟩ := h.graph
  rw [hgraph, Snapshot.idOf?_graph_isSome]

/-- A dependency on another unit is an edge of the graph. -/
theorem imports (h : p.Tracks A observe w) {unit : SourceUnit} {dep : Dependency}
    (hunit : p.snapshot.unit? path = some unit) (hdep : dep ∈ unit.dependencies)
    (htarget : (p.snapshot.unit? dep.path).isSome = true) (hne : dep.path ≠ path) :
    p.state.graph.Imports path dep.path := by
  obtain ⟨tracking, hgraph⟩ := h.graph
  obtain ⟨target, htarget⟩ := Option.isSome_iff_exists.mp htarget
  obtain ⟨hmem, rfl⟩ := Snapshot.unit?_eq_some_iff.mp hunit
  obtain ⟨hmem', hpath⟩ := Snapshot.unit?_eq_some_iff.mp htarget
  rw [hgraph, ← hpath]
  exact Snapshot.imports_of_mem hmem hmem' hdep hpath.symm (by rw [hpath]; exact hne)

theorem isSome_unit?_of_skips (h : p.Tracks A observe w) (hskips : p.Skips path) :
    (p.snapshot.unit? path).isSome = true := by
  obtain ⟨id, hid, _⟩ := hskips
  rw [h.isSome_unit?, hid]
  rfl

theorem isSome_unit?_of_known? (h : p.Tracks A observe w) {hash : String}
    (hknown : p.known? path = some hash) : (p.snapshot.unit? path).isSome = true := by
  obtain ⟨r, hr, _⟩ := Option.bind_eq_some_iff.mp hknown
  rw [h.isSome_unit?]
  exact isSome_idOf?_of_recordOf? hr

/-- A unit that does not wait is compared with its stored signature. -/
theorem known?_eq (h : p.Tracks A observe w) {verdict : Signature × List Diagnostic}
    (hawaits : ¬ p.Awaits path) (hstores : p.Stores (observe path) path verdict) :
    p.known? path = verdict.1.hash? := by
  obtain ⟨r, found, hr, hsignature, _, _⟩ := hstores
  have hlast := h.settled path r hawaits hr
  rw [known?, hr, ← hsignature]
  show r.knownHash? = _
  rw [UnitRecord.knownHash?, hlast]
  cases r.info.signature with
  | unknown => rfl
  | known hash => rfl

/-- A processed dependency of a skipped unit has a known signature. -/
theorem exists_known (h : p.Tracks A observe w) {unit : SourceUnit} {dep : Dependency}
    (hskips : p.Skips path) (hunit : p.snapshot.unit? path = some unit)
    (hdep : dep ∈ unit.dependencies) (hdone : p.Done dep.path) :
    ∃ hash, p.known? dep.path = some hash ∧ (A.verdict w dep.path).1 = .known hash := by
  have hknown := h.known?_eq hdone.not_awaits (h.done dep.path hdone)
  cases hverdict : (A.verdict w dep.path).1 with
  | known hash =>
      rw [hverdict] at hknown
      exact ⟨hash, hknown, rfl⟩
  | unknown =>
      -- its failure alarmed the unit
      have hne : dep.path ≠ path := by
        intro hsame
        rw [hsame] at hdone
        exact hdone.not_skips hskips
      have htarget : (p.snapshot.unit? dep.path).isSome = true := by
        obtain ⟨id, hid, _⟩ := hdone
        rw [h.isSome_unit?, hid]
        rfl
      exact absurd hskips
        (h.alarmed dep.path hdone hverdict path (h.imports hunit hdep htarget hne))

/-! ### Steps -/

/-- A recheck finds the verdict of the world. -/
theorem found_eq (h : p.Tracks A observe w) (unit : UnitId) :
    p.found unit = A.verdict w (p.state.graph.pathOf unit) :=
  (Answers.examine_eq h.here _).1

/-- Units that are skipped after a recheck were tied to a world before it, when they are now.
Either the signature of the rechecked unit stayed, or none of its dependents is skipped. -/
theorem tied_of_recheck (h : p.Tracks A observe w) {unit : UnitId} (hr : p.Rechecks unit q)
    (hU : ∀ path, U path → q.Skips path) (htied : q.Tied A w' U) : p.Tied A w' U := by
  intro path hpath
  obtain ⟨source, source', hsource, hsource', hversion, hdeps⟩ := htied path hpath
  rw [hr.snapshot] at hsource hdeps
  refine ⟨source, source', hsource, hsource', hversion, fun dep hdep => ?_⟩
  rcases hdeps dep hdep with hin | hneither | ⟨hsome, hash, hknown, hverdict⟩
  · exact Or.inl hin
  · exact Or.inr (Or.inl hneither)
  · refine Or.inr (Or.inr ⟨hsome, hash, ?_, hverdict⟩)
    by_cases hself : dep.path = p.state.graph.pathOf unit
    · have hid := hr.idOf?_pathOf h.tidy
      rw [← hself] at hid
      have hne : dep.path ≠ path := by
        intro heq
        exact (hr.skips h.tidy (hU path hpath)).2 (heq.symm.trans hself)
      have htarget : (p.snapshot.unit? dep.path).isSome = true := by
        rw [h.isSome_unit?, hid]
        rfl
      have hstays : p.state.moves unit (p.found unit).1 = false := by
        cases hmoved : p.state.moves unit (p.found unit).1 with
        | false => rfl
        | true =>
            exact absurd (hU path hpath)
              (hr.not_skips_of_moved hid hmoved (h.imports hsource hdep htarget hne))
      obtain ⟨r, hrecord⟩ := Option.isSome_iff_exists.mp
        ((State.recordOf?_isSome h.tidy.wellFormed dep.path).trans (by rw [hid]; rfl))
      have hrecord' := hrecord
      rw [State.recordOf?_of_idOf? hid] at hrecord'
      rw [State.moves, hrecord'] at hstays
      obtain ⟨hash', hknown', hfound⟩ := UnitRecord.moves_eq_false_iff.mp hstays
      rw [known?, hself, hr.recordOf?_self h.tidy, ← hself, hrecord] at hknown
      have hsame : (p.found unit).1.hash? = some hash := by
        rw [← hknown]
        exact (UnitRecord.knownHash?_sign r _).symm
      rw [hfound] at hsame
      rw [known?, hrecord, ← hsame]
      exact hknown'
    · rw [known?, ← hr.recordOf?_of_ne hself]
      exact hknown

/-- A recheck stores what it finds, and leaves the rest of the round as it was. -/
theorem recheck (h : p.Tracks A observe w) {unit : UnitId} (hr : p.Rechecks unit q) :
    q.Tracks A observe w := by
  have hself := hr.recordOf?_self h.tidy
  have hid := hr.idOf?_pathOf h.tidy
  obtain ⟨r, hrecord⟩ := Option.isSome_iff_exists.mp
    ((State.recordOf?_isSome h.tidy.wellFormed (p.state.graph.pathOf unit)).trans
      (by rw [hid]; rfl))
  have hrecord' : p.state.record? unit = some r := by
    rw [← State.recordOf?_of_idOf? hid]
    exact hrecord
  rw [hrecord, h.found_eq] at hself
  refine ⟨hr.tidy, ?_, h.view.trans hr.snapshot.symm, ?_, ?_, ?_, ?_, ?_⟩
  · rw [hr.host]
    exact (Answers.examine_eq h.here _).2
  · obtain ⟨tracking, htracking⟩ := h.graph
    exact ⟨tracking, by rw [hr.graph, hr.snapshot, htracking]⟩
  · -- versions
    intro path r' hr'
    rw [hr.snapshot]
    by_cases hne : path = p.state.graph.pathOf unit
    · subst hne
      rw [hself] at hr'
      cases hr'
      exact h.version _ r hrecord
    · exact h.version path r' (by rw [← hr.recordOf?_of_ne hne]; exact hr')
  · -- what was found is stored
    intro path hdone
    by_cases hne : path = p.state.graph.pathOf unit
    · subst hne
      have hcached := hr.cached r hrecord'
      rw [h.found_eq] at hcached
      exact ⟨_, _, hself, rfl, hcached, rfl⟩
    · have hdone' := ((hr.done_iff h.tidy).mp hdone).resolve_right hne
      exact hr.stores_of_ne hne hdone.not_awaits (h.done path hdone')
  · -- a failure moves the signature, so the dependents are covered
    intro path hdone hunknown a himports hskips
    rw [hr.graph] at himports
    by_cases hne : path = p.state.graph.pathOf unit
    · subst hne
      refine hr.not_skips_of_moved hid ?_ himports hskips
      rw [State.moves, hrecord', h.found_eq, hunknown]
      cases hmoves : r.moves .unknown with
      | true => simp [hmoves]
      | false =>
          obtain ⟨_, _, hknown⟩ := UnitRecord.moves_eq_false_iff.mp hmoves
          cases hknown
    · have hdone' := ((hr.done_iff h.tidy).mp hdone).resolve_right hne
      exact h.alarmed path hdone' hunknown a himports (hr.skips h.tidy hskips).1
  · -- a rechecked unit remembers no older signature
    intro path r' hawaits hr'
    by_cases hne : path = p.state.graph.pathOf unit
    · subst hne
      rw [hself] at hr'
      cases hr'
      rfl
    · rw [hr.recordOf?_of_ne hne] at hr'
      exact h.settled path r' (fun hp => hawaits (hr.awaits hp hne)) hr'

/-- Whatever rechecks nothing leaves the round as it was. -/
theorem rests (h : p.Tracks A observe w) (hr : p.Rests q) (hhere : A.At q.host w) :
    q.Tracks A observe w := by
  refine ⟨hr.tidy, hhere, h.view.trans hr.snapshot.symm, ?_, ?_, ?_, ?_, ?_⟩
  · rw [hr.state, hr.snapshot]
    exact h.graph
  · rw [hr.state, hr.snapshot]
    exact h.version
  · exact fun path hdone => hr.stores (h.done path (hr.done_iff.mp hdone))
  · intro path hdone hunknown a himports hskips
    rw [hr.state] at himports
    exact h.alarmed path (hr.done_iff.mp hdone) hunknown a himports (hr.skips_iff.mp hskips)
  · intro path r hawaits hrecord
    rw [hr.state] at hrecord
    refine h.settled path r (fun hp => ?_) hrecord
    have hid : (q.state.graph.idOf? path).isSome = true := by
      rw [hr.state]
      exact isSome_idOf?_of_recordOf? hrecord
    rcases done_or_skips hid hawaits with hdone | hskips
    · exact (hr.done_iff.mp hdone).not_awaits hp
    · exact (hr.skips_iff.mp hskips).not_awaits hp

/-! ### Finished rounds -/

/-- When nothing waits, the skipped units are tied to the world of the snapshot. -/
theorem tied_skips (h : p.Tracks A observe w) (hfinished : ∀ path, ¬ p.Awaits path) :
    p.Tied A w p.Skips := by
  intro path hskips
  obtain ⟨unit, hunit⟩ := Option.isSome_iff_exists.mp (h.isSome_unit?_of_skips hskips)
  refine ⟨unit, unit, hunit, by rw [h.view]; exact hunit, rfl, fun dep hdep => ?_⟩
  rw [h.view]
  cases htarget : p.snapshot.unit? dep.path with
  | none => exact Or.inr (Or.inl ⟨rfl, rfl⟩)
  | some target =>
      have hsome : (p.snapshot.unit? dep.path).isSome = true := by rw [htarget]; rfl
      have hid := hsome
      rw [h.isSome_unit?] at hid
      rcases done_or_skips hid (hfinished dep.path) with hdone | hskipped
      · exact Or.inr (Or.inr ⟨rfl, h.exists_known hskips hunit hdep hdone⟩)
      · exact Or.inl hskipped

end Tracks

namespace Sound

variable {early : UnitPath → A.World → Prop}

/-- A recheck keeps the invariant. -/
theorem recheck (h : p.Sound A observe early w) {unit : UnitId} (hr : p.Rechecks unit q) :
    q.Sound A observe early w where
  toTracks := h.toTracks.recheck hr
  kept := by
    intro path v hearly hskips
    obtain ⟨hskips', hne⟩ := hr.skips h.tidy hskips
    exact hr.stores_of_ne hne hskips.not_awaits (h.kept path v hearly hskips')
  skipped := by
    intro w' U hU htied hearly path hpath
    have hp := hr.skips h.tidy (hU path hpath)
    refine hr.stores_of_ne hp.2 (hU path hpath).not_awaits ?_
    exact h.skipped w' U (fun path hpath => (hr.skips h.tidy (hU path hpath)).1)
      (h.tied_of_recheck hr hU htied) hearly path hpath

/-- Whatever rechecks nothing keeps the invariant, as long as the host answers about the same
world. -/
theorem rests (h : p.Sound A observe early w) (hr : p.Rests q) (hhere : A.At q.host w) :
    q.Sound A observe early w where
  toTracks := h.toTracks.rests hr hhere
  kept := fun path v hearly hskips => hr.stores (h.kept path v hearly (hr.skips_iff.mp hskips))
  skipped := by
    intro w' U hU htied hearly path hpath
    refine hr.stores (h.skipped w' U (fun path hpath => hr.skips_iff.mp (hU path hpath)) ?_ hearly
      path hpath)
    intro path hpath
    have hknown : ∀ path, q.known? path = p.known? path := fun path => by
      rw [known?, known?, hr.state]
    have htied' := htied path hpath
    simp only [hr.snapshot, hknown] at htied'
    exact htied'

/-- **Finished rounds are right.**  When nothing waits, what is stored about every unit is what a
recheck would find, if this is so for the units that were last rechecked in a superseded round. -/
theorem exact (h : p.Sound A observe early w) (hfinished : ∀ path, ¬ p.Awaits path)
    (hearly : ∀ path v, p.Skips path → early path v → A.Alike (observe path) v w path)
    (hunit : (p.snapshot.unit? path).isSome = true) :
    p.Stores (observe path) path (A.verdict w path) := by
  rw [h.isSome_unit?] at hunit
  rcases done_or_skips hunit (hfinished path) with hdone | hskips
  · exact h.done path hdone
  · exact h.skipped w p.Skips (fun _ hp => hp) (h.tied_skips hfinished) hearly path hskips

end Sound

end Program

end Rebuild
