import Rebuild.Proofs.Graph
import Rebuild.Proofs.Recheck

/-!
# Hosts that answer about their latest snapshot

A host may change its state with every request.  Still, what it answers between two snapshots can
be fixed by the moment at which the first of them was taken.

* `Answers`: the worlds that snapshots are taken of, and what a host answers in each of them;
* `Answers.verdict`: what a recheck finds, failures included;
* `Answers.examine_eq`: a recheck finds the verdict of the world of the latest snapshot;
* `Answers.Versioned`: the version of a unit determines its dependencies;
* `Answers.Frames`, `Answers.Alike`, `Answers.Local`: units with the same texts and the same
  surroundings have the same verdicts.
-/

namespace Rebuild

/-- What a host answers about the worlds that its snapshots are taken of.  A world may be the
snapshot itself, or hold more than a snapshot shows. -/
structure Answers (η : Type) [Host η] where
  World : Type
  /-- The snapshot that is taken of a world. -/
  view : World → Snapshot
  /-- The latest snapshot of a host in this state was taken of this world. -/
  At : η → World → Prop
  /-- The diagnostics of a unit, or why there are none. -/
  check : World → UnitPath → Except Error (List Diagnostic)
  /-- The signature digest of a unit, or why there is none. -/
  sign : World → UnitPath → Except Error String
  check_at : ∀ {host w}, At host w → ∀ unit,
    (Host.check host unit).1.outcome = check w unit ∧ At (Host.check host unit).2 w
  interface_at : ∀ {host w}, At host w → ∀ unit,
    ((Host.interface host unit).1.map fun interface =>
        interface.signature (Host.counts (Host.interface host unit).2)) = sign w unit
      ∧ At (Host.interface host unit).2 w
  emit_at : ∀ {host w}, At host w → ∀ unit kind, At (Host.emit host unit kind).2 w

namespace Answers

variable {η : Type} [Host η] (A : Answers η)

/-- What a recheck of a unit finds in a world: the signature and the diagnostics. -/
def verdict (w : A.World) (unit : UnitPath) : Signature × List Diagnostic :=
  match A.check w unit with
  | .error e => (.unknown, [Diagnostic.hostFailure unit "check" e.message])
  | .ok found =>
      match A.sign w unit with
      | .ok hash => (.known hash, found)
      | .error e => (.unknown, found ++ [Diagnostic.hostFailure unit "interface" e.message])

variable {A}

/-- A recheck finds the verdict of the world of the latest snapshot, and the host stays there. -/
theorem examine_eq {p : Program η} {w : A.World} (hat : A.At p.host w) (path : UnitPath) :
    (p.examine path).1 = A.verdict w path ∧ A.At (p.examine path).2.host w := by
  obtain ⟨houtcome, hchecked⟩ := A.check_at hat path
  rw [Program.examine, Program.checkUnit]
  rcases hcheck : Host.check p.host path with ⟨⟨outcome, cancels⟩, host⟩
  rw [hcheck] at houtcome hchecked
  rw [verdict, ← houtcome]
  cases outcome with
  | error e => exact ⟨rfl, hchecked⟩
  | ok found =>
      obtain ⟨hsign, hsigned⟩ := A.interface_at hchecked path
      simp only [Program.signUnit]
      rcases hinterface : Host.interface host path with ⟨reply, host'⟩
      rw [hinterface] at hsign hsigned
      rw [← hsign]
      cases reply with
      | error e => exact ⟨rfl, hsigned⟩
      | ok interface => exact ⟨by simp [Except.map], hsigned⟩

/-! ### Contracts -/

variable (A)

/-- The version of a unit determines its dependencies. -/
def Versioned : Prop :=
  ∀ w w', ∀ unit ∈ (A.view w).units, ∀ unit' ∈ (A.view w').units,
    unit.path = unit'.path → unit.version = unit'.version → unit.dependencies = unit'.dependencies

/-- The units of `U` are in both worlds with the same versions, and each of their dependencies is in
`U`, or in neither world, or in both worlds with the same known signature. -/
def Frames (w w' : A.World) (U : UnitPath → Prop) : Prop :=
  ∀ path, U path → ∃ unit unit', (A.view w).unit? path = some unit
    ∧ (A.view w').unit? path = some unit' ∧ unit.version = unit'.version
    ∧ ∀ dep ∈ unit.dependencies, U dep.path
      ∨ ((A.view w).unit? dep.path = none ∧ (A.view w').unit? dep.path = none)
      ∨ ((A.view w).unit? dep.path).isSome = true ∧ ((A.view w').unit? dep.path).isSome = true
        ∧ ∃ hash, (A.verdict w dep.path).1 = .known hash ∧ (A.verdict w' dep.path).1 = .known hash

/-- A unit has the same signature in two worlds, and diagnostics that look the same to `observe`. -/
def Alike {β : Type} (observe : List Diagnostic → β) (w w' : A.World) (path : UnitPath) : Prop :=
  (A.verdict w path).1 = (A.verdict w' path).1
    ∧ observe (A.verdict w path).2 = observe (A.verdict w' path).2

/-- Units with the same texts and the same surroundings are alike, as far as `observe` can tell of each. -/
def LocalUpTo {β : Type} (observe : UnitPath → List Diagnostic → β) : Prop :=
  ∀ w w' U, A.Frames w w' U → ∀ path, U path → A.Alike (observe path) w w' path

/-- Units with the same texts and the same surroundings have the same verdicts. -/
def Local : Prop :=
  A.LocalUpTo fun _ => id

/-- The host may be changed in this way without a new snapshot: what it answers stays. -/
def Keeps (w : A.World) (change : η → η) : Prop :=
  ∀ host, A.At host w → A.At (change host) w

variable {A}

/-- Where versions determine dependencies, both worlds play the same part. -/
theorem Frames.symm {w w' : A.World} {U : UnitPath → Prop} (hversioned : A.Versioned)
    (h : A.Frames w w' U) : A.Frames w' w U := by
  intro path hpath
  obtain ⟨unit, unit', hunit, hunit', hversion, hdeps⟩ := h path hpath
  refine ⟨unit', unit, hunit', hunit, hversion.symm, fun dep hdep => ?_⟩
  obtain ⟨hmem, hp⟩ := Snapshot.unit?_eq_some_iff.mp hunit
  obtain ⟨hmem', hp'⟩ := Snapshot.unit?_eq_some_iff.mp hunit'
  rw [← hversioned w w' unit hmem unit' hmem' (hp.trans hp'.symm) hversion] at hdep
  rcases hdeps dep hdep with hin | ⟨hgone, hgone'⟩ | ⟨hsome, hsome', hash, hhash, hhash'⟩
  · exact Or.inl hin
  · exact Or.inr (Or.inl ⟨hgone', hgone⟩)
  · exact Or.inr (Or.inr ⟨hsome', hsome, hash, hhash', hhash⟩)

end Answers

end Rebuild
