import Rebuild.Proofs.Answers
import Rebuild.Proofs.Reachable

/-!
# Small hosts

The smallest host with a dependency: the left unit republishes what the right unit declares.  The
text of a unit is a type, and a unit whose type is not known fails its check.

* `Pair`: the texts of the two units, and the host that takes its snapshots of them;
* `Pair.answers`: this host answers about the texts of its latest snapshot;
* `Pair.versioned`, `Pair.isLocal`: it is local, and versions determine dependencies;
* `Pair.fresh`, `Pair.report`: programs over this host;
* `Alarmed`: a host with the same units that cancels the build while it checks some of them.

The smallest host for any given snapshot.  Every unit passes its check and declares nothing, but the
interface of some units cannot be read: these are never signed, so that each of their rechecks counts
as a move.

* `Stub`: the snapshot and the units that cannot be read;
* `Stub.answers`: this host answers about its latest snapshot;
* `Stub.fresh`, `Stub.report`: programs over this host, which are reachable.
-/

namespace Rebuild

/-- The texts of two units. -/
structure Pair where
  left : String
  right : String
  deriving Repr, DecidableEq

namespace Pair

def text (pair : Pair) (unit : UnitPath) : String :=
  if unit = "left" then pair.left else pair.right

/-- The left unit republishes the right one. -/
def snapshot (pair : Pair) : Snapshot :=
  ⟨[{ path := "left", version := pair.left, dependencies := [⟨"right", true⟩] },
    { path := "right", version := pair.right }], by simp⟩

/-- A unit passes its check when its text is a known type. -/
def check (pair : Pair) (unit : UnitPath) : Except Error (List Diagnostic) :=
  if pair.text unit ∈ ["int", "str"] then .ok [] else .error (.other "unknown type")

/-- Both units publish a value of the type that the right unit names. -/
def interface (pair : Pair) : Interface :=
  [{ kind := "let", name := "x", shape := pair.right }]

instance : Host Pair where
  snapshot pair _ := (.ok pair.snapshot, pair)
  check pair unit := ({ outcome := pair.check unit }, pair)
  interface pair _ := (.ok pair.interface, pair)
  emit pair _ _ := (.ok {}, pair)
  counts _ _ := true
  policy _ := "all declarations"

/-- The host answers about the texts that it has. -/
@[reducible]
def answers : Answers Pair where
  World := Pair
  view := snapshot
  At pair w := pair = w
  check := check
  sign w _ := .ok (w.interface.signature fun _ => true)
  check_at := by
    rintro pair w rfl unit
    exact ⟨rfl, rfl⟩
  interface_at := by
    rintro pair w rfl unit
    exact ⟨rfl, rfl⟩
  emit_at := by
    rintro pair w rfl unit kind
    rfl

theorem unit?_snapshot {pair : Pair} {path : UnitPath} {unit : SourceUnit}
    (h : pair.snapshot.unit? path = some unit) :
    (path = "left" ∧ unit = { path := "left", version := pair.left, dependencies := [⟨"right", true⟩] })
      ∨ (path = "right" ∧ unit = { path := "right", version := pair.right }) := by
  obtain ⟨hmem, rfl⟩ := Snapshot.unit?_eq_some_iff.mp h
  simp only [snapshot, List.mem_cons, List.not_mem_nil, or_false] at hmem
  rcases hmem with rfl | rfl
  · exact Or.inl ⟨rfl, rfl⟩
  · exact Or.inr ⟨rfl, rfl⟩

theorem versioned : answers.Versioned := by
  intro w w' unit hunit unit' hunit' hpath _
  rcases unit?_snapshot (Snapshot.unit?_eq_some_iff.mpr ⟨hunit, rfl⟩) with ⟨_, rfl⟩ | ⟨_, rfl⟩
  · rcases unit?_snapshot (Snapshot.unit?_eq_some_iff.mpr ⟨hunit', rfl⟩) with ⟨_, rfl⟩ | ⟨_, rfl⟩
    · rfl
    · exact absurd (show "left" = "right" from hpath) (by decide)
  · rcases unit?_snapshot (Snapshot.unit?_eq_some_iff.mpr ⟨hunit', rfl⟩) with ⟨_, rfl⟩ | ⟨_, rfl⟩
    · exact absurd (show "right" = "left" from hpath) (by decide)
    · rfl

/-- A unit that passes its check has the signature of the common interface. -/
theorem verdict_eq (w : Pair) (path : UnitPath) :
    answers.verdict w path
      = if w.text path ∈ ["int", "str"] then (.known (w.interface.signature fun _ => true), [])
        else (.unknown, [Diagnostic.hostFailure path "check" "unknown type"]) := by
  by_cases htext : w.text path ∈ ["int", "str"]
  · simp only [Answers.verdict, check, htext, if_true]
  · simp only [Answers.verdict, check, htext, if_false]
    rfl

theorem isLocal : answers.Local := by
  intro w w' U hframes path hpath
  obtain ⟨unit, unit', hunit, hunit', hversion, hdeps⟩ := hframes path hpath
  have hright : w.right = w'.right → w.interface = w'.interface := fun h => by
    simp only [interface, h]
  rcases unit?_snapshot hunit with ⟨rfl, rfl⟩ | ⟨rfl, rfl⟩
  · rcases unit?_snapshot hunit' with ⟨_, rfl⟩ | ⟨hne, _⟩
    · have htext : w.text "left" = w'.text "left" := hversion
      have hsign : (w.interface.signature fun _ => true)
          = w'.interface.signature fun _ => true := by
        rcases hdeps ⟨"right", true⟩ List.mem_cons_self with hin | ⟨hgone, _⟩ | ⟨_, _, hash, hs, hs'⟩
        · obtain ⟨_, _, hr, hr', hsame, _⟩ := hframes "right" hin
          cases hr
          cases hr'
          rw [hright hsame]
        · cases hgone
        · rw [verdict_eq] at hs hs'
          split at hs
          · split at hs'
            · exact (Signature.known.inj hs).trans (Signature.known.inj hs').symm
            · cases hs'
          · cases hs
      rw [Answers.Alike, verdict_eq, verdict_eq, htext, hsign]
      exact ⟨rfl, rfl⟩
    · exact absurd hne (by decide)
  · rcases unit?_snapshot hunit' with ⟨hne, _⟩ | ⟨_, rfl⟩
    · exact absurd hne (by decide)
    · have htext : w.text "right" = w'.text "right" := hversion
      rw [Answers.Alike, verdict_eq, verdict_eq, htext, hright hversion]
      exact ⟨rfl, rfl⟩

def fresh (pair : Pair) : Program Pair :=
  (Program.blank pair {}).update pair.snapshot

theorem start_fresh (pair : Pair) : Program.start pair {} none = .ok pair.fresh := rfl

/-- A program after a report that the texts are now others. -/
def report (pair : Pair) (p : Program Pair) : Program Pair :=
  ({ p with host := pair } : Program Pair).update pair.snapshot

theorem reportChanged_report (pair : Pair) (p : Program Pair) :
    ({ p with host := pair } : Program Pair).reportChanged [] = (.ok (), pair.report p) := rfl

end Pair

/-! ### A host that cancels the build -/

/-- Two units, and those of them whose checks cancel the build. -/
structure Alarmed where
  pair : Pair
  alarms : List UnitPath

namespace Alarmed

instance : Host Alarmed where
  snapshot a _ := (.ok a.pair.snapshot, a)
  check a unit := ({ outcome := a.pair.check unit, cancels := unit ∈ a.alarms }, a)
  interface a _ := (.ok a.pair.interface, a)
  emit a _ _ := (.ok {}, a)
  counts _ _ := true
  policy _ := "all declarations"

def fresh : Program Alarmed :=
  (Program.blank ⟨⟨"int", "int"⟩, ["left"]⟩ {}).update (Pair.snapshot ⟨"int", "int"⟩)

end Alarmed

/-! ### Any snapshot -/

/-- A snapshot, and the units whose interface cannot be read. -/
structure Stub where
  snapshot : Snapshot
  unreadable : List UnitPath := []
  deriving DecidableEq

namespace Stub

/-- What a unit declares, if it can be read: nothing. -/
def interface (stub : Stub) (unit : UnitPath) : Except Error Interface :=
  if unit ∈ stub.unreadable then .error (.other "unreadable") else .ok []

instance : Host Stub where
  snapshot stub _ := (.ok stub.snapshot, stub)
  check stub _ := ({ outcome := .ok [] }, stub)
  interface stub unit := (stub.interface unit, stub)
  emit stub _ _ := (.ok {}, stub)
  counts _ _ := true
  policy _ := "all declarations"

/-- The host answers about the snapshot that it has. -/
@[reducible]
def answers : Answers Stub where
  World := Stub
  view := snapshot
  At stub w := stub = w
  check _ _ := .ok []
  sign w unit := (w.interface unit).map fun interface => interface.signature fun _ => true
  check_at := by
    rintro stub w rfl unit
    exact ⟨rfl, rfl⟩
  interface_at := by
    rintro stub w rfl unit
    exact ⟨rfl, rfl⟩
  emit_at := by
    rintro stub w rfl unit kind
    rfl

def fresh (stub : Stub) : Program Stub :=
  (Program.blank stub {}).update stub.snapshot

/-- A program after a report that the snapshot is now another. -/
def report (stub : Stub) (p : Program Stub) : Program Stub :=
  ({ p with host := stub } : Program Stub).update stub.snapshot

theorem reportChanged_eq (p : Program Stub) (paths : List String) :
    p.reportChanged paths = (.ok (), p.host.report p) := rfl

theorem reachable_fresh (stub : Stub) : stub.fresh.Reachable :=
  .update (.blank stub {}) stub.snapshot

theorem reachable_report (stub : Stub) {p : Program Stub} (h : p.Reachable) :
    (stub.report p).Reachable :=
  .update (h.call (.edit fun _ => stub)) stub.snapshot

end Stub

end Rebuild
