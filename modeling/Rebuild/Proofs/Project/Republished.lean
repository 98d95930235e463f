import Rebuild.Proofs.Project.Footprint
import Rebuild.Proofs.Project.Trails

/-!
# Republished declarations

A unit offers everything that the units offer which it republishes, under the same names.  Inferred shapes
can get lost on the way: where an export is inferred from the republishing unit, or from one that takes
declarations from it, the shape is looked up while the republishing unit is being visited, and units that are
being visited have no declarations.

* `ProjectHost.ReadsBack`: an inferred export that takes its shape from a unit which leads back;
* `ProjectHost.exists_republished`: what becomes of a declaration that is republished;
* `ProjectHost.republished_declarations`: the same for the interfaces that a host reports;
* `ProjectHost.republished_shape_lost`: a shape that gets lost.
-/

namespace Rebuild.ProjectHost

variable {units : Units} {path next : UnitPath} {name : String} {d : Declaration}

/-- A unit republishes, in zero or more steps, an inferred export of some name whose source is the unit `back`
or takes declarations from it, directly or indirectly. -/
def ReadsBack (units : Units) (path : UnitPath) (name : String) (back : UnitPath) : Prop :=
  ∃ target unit source member line, Relation.ReflTransGen (Republishes units) path target
    ∧ units.lookup target = some unit
    ∧ Source.Export.inferred name source member line ∈ unit.contents.exports
    ∧ Relation.ReflTransGen (Takes units) source back

/-- **What becomes of a republished declaration.**  It is offered with its name, its kind and its flag, and
it has its shape still, unless it is an inferred one that reads back to the republishing unit. -/
theorem exists_republished (hstep : Republishes units path next) (hd : d ∈ interfaceOf units next) :
    ∃ shape, { d with shape } ∈ interfaceOf units path
      ∧ (shape = d.shape ∨ d.inferred = true ∧ ReadsBack units next d.name path) := by
  obtain ⟨rest, htrail, unit, hunit, e, he, rfl⟩ := mem_interfaceOf_iff.mp hd
  obtain ⟨later, hlater, hend, hvisited⟩ := htrail.exists_of_republishes hstep
  have hfound : declarationBy (interfaceFrom units (path :: later).reverse) e
      ∈ interfaceOf units path :=
    mem_interfaceOf_iff.mpr ⟨later, hlater, unit, hend ▸ hunit, e, he, rfl⟩
  cases e with
  | declared kind name shape line => exact ⟨shape, hfound, Or.inl rfl⟩
  | inferred name source member line =>
      refine ⟨_, hfound, ?_⟩
      by_cases hback : Relation.ReflTransGen (Takes units) source path
      · exact Or.inr ⟨rfl, _, unit, source, member, line, htrail.reaches, hunit, he, hback⟩
      · -- nothing that the source takes from is visited on one of the trails only
        have hsame : interfaceFrom units (path :: later).reverse source
            = interfaceFrom units (next :: rest).reverse source := by
          refine interfaceFrom_congr (closed_reachable units source) (fun _ _ => rfl)
            (fun other hother => ?_) .refl
          rw [List.mem_reverse, List.mem_reverse]
          refine hvisited other fun hleads => hback (hother.trans ?_)
          exact Relation.ReflTransGen.mono (fun _ _ => Republishes.takes) _ _ hleads
        refine Or.inl ?_
        rw [hsame, declarationBy]

section Requests

variable {σ : Type} [Storage σ] {h : ProjectHost σ} {unit : LoadedUnit} {interface : Interface}

theorem interface_of_readable (hunit : h.readable path = .ok unit) :
    (Host.interface h path).1 = .ok (interfaceOf h.units path) := by
  simp only [Host.interface, hunit]

theorem eq_of_interface (hinterface : (Host.interface h path).1 = .ok interface) :
    interface = interfaceOf h.units path := by
  simp only [Host.interface] at hinterface
  split at hinterface
  · cases hinterface
  · cases hinterface
    rfl

end Requests

/-- **Republished declarations.**  A unit that can be read offers, of every unit that it republishes, every
declaration with its name, its kind and its flag.  The declaration has its shape still, unless it is an
inferred one whose source is the republishing unit or takes declarations from it, directly or indirectly. -/
theorem republished_declarations {σ : Type} [Storage σ] {h : ProjectHost σ} {unit : LoadedUnit}
    (hunit : h.readable path = .ok unit) {i : Source.Import} (hi : i ∈ unit.contents.imports)
    (hreexport : i.reexport = true) :
    ∃ offered, (Host.interface h path).1 = .ok offered
      ∧ ∀ theirs, (Host.interface h i.path).1 = .ok theirs → ∀ d ∈ theirs,
        ∃ shape, { d with shape } ∈ offered
          ∧ (shape = d.shape ∨ d.inferred = true ∧ ReadsBack h.units i.path d.name path) := by
  have hstep : Republishes h.units path i.path :=
    ⟨unit, lookup_of_readable hunit, i, hi, hreexport, rfl⟩
  refine ⟨interfaceOf h.units path, interface_of_readable hunit, fun theirs htheirs d hd => ?_⟩
  rw [eq_of_interface htheirs] at hd
  exact exists_republished hstep hd

/-! ### Two units that republish and infer from each other -/

namespace Mutual

/-- A unit with a member of its own, which republishes another unit. -/
def republishing : String :=
  "export fn y int\nexport * from \"b\""

/-- That unit, which infers from the member. -/
def inferring : String :=
  "export let x = \"a\".y"

def host : ProjectHost FileTable :=
  .ofFiles [("a", Text.Utf8.encode republishing), ("b", Text.Utf8.encode inferring)] true

theorem exists_snapshot :
    ∃ snapshot after, host.takeSnapshot = (.ok snapshot, after)
      ∧ after.units.lookup "a" = some (.ofText republishing)
      ∧ after.units.lookup "b" = some (.ofText inferring) := by
  have hscan : host.matcher.scan host.storage host.root = .ok ["a", "b"] := by
    refine Matcher.scan_of_sorted ?_ ?_
    · decide +kernel
    · decide
  have hread : Storage.readText host.storage (DiskPath.join host.root "a") = .ok republishing
      ∧ Storage.readText host.storage (DiskPath.join host.root "b") = .ok inferring := by
    decide
  obtain ⟨snapshot, after, htake⟩ := exists_takeSnapshot hscan
  refine ⟨snapshot, after, htake, ?_, ?_⟩
  · rw [lookup_takeSnapshot faithful_nil htake, fileAt_of_scan hscan, hread.1]
    rfl
  · rw [lookup_takeSnapshot faithful_nil htake, fileAt_of_scan hscan, hread.2]
    rfl

theorem contents_republishing : LoadedUnit.ofText republishing
    = ⟨republishing, { imports := [⟨"b", true, 2⟩], exports := [.declared "fn" "y" "int" 1] }, none⟩ := by
  decide

theorem contents_inferring : LoadedUnit.ofText inferring
    = ⟨inferring, { exports := [.inferred "x" "a" "y" 1] }, none⟩ := by
  decide

theorem readable_republishing {σ : Type} {h : ProjectHost σ}
    (ha : h.units.lookup "a" = some (.ofText republishing)) :
    h.readable "a" = .ok (.ofText republishing) := by
  rw [readable, ha]
  rfl

theorem readable_inferring {σ : Type} {h : ProjectHost σ}
    (hb : h.units.lookup "b" = some (.ofText inferring)) : h.readable "b" = .ok (.ofText inferring) := by
  rw [readable, hb]
  rfl

/-- From the inferring unit, the member is found. -/
theorem interfaceOf_inferring (ha : units.lookup "a" = some (.ofText republishing))
    (hb : units.lookup "b" = some (.ofText inferring)) :
    interfaceOf units "b" = [⟨"let", "x", "int", true⟩] := by
  have hinner : interfaceFrom units ["b"] "a" = [⟨"fn", "y", "int", false⟩] := by
    rw [interfaceFrom_of_fresh ha (by decide), contents_republishing]
    simp [declarationsBy, declarationBy, interfaceFrom_of_mem]
  rw [interfaceOf, interfaceFrom_of_fresh hb List.not_mem_nil, contents_inferring]
  simp [declarationsBy, declarationBy, hinner]

/-- From the republishing unit, it is not. -/
theorem interfaceOf_republishing (ha : units.lookup "a" = some (.ofText republishing))
    (hb : units.lookup "b" = some (.ofText inferring)) :
    interfaceOf units "a" = [⟨"fn", "y", "int", false⟩, ⟨"let", "x", "unknown", true⟩] := by
  have hinner : interfaceFrom units ["a"] "b" = [⟨"let", "x", "unknown", true⟩] := by
    rw [interfaceFrom_of_fresh hb (by decide), contents_inferring]
    simp [declarationsBy, declarationBy, interfaceFrom_of_mem, unresolvedShape]
  rw [interfaceOf, interfaceFrom_of_fresh ha List.not_mem_nil, contents_republishing]
  simp [declarationsBy, declarationBy, hinner]

end Mutual

/-- What is inferred from the republishing unit itself is republished under its name. -/
theorem republished_declarations_mutual :
    ∃ snapshot after offered, Mutual.host.takeSnapshot = (.ok snapshot, after)
      ∧ (Host.interface after "a").1 = .ok offered
      ∧ ∃ shape, ⟨"let", "x", shape, true⟩ ∈ offered
        ∧ (shape = "int" ∨ ReadsBack after.units "b" "x" "a") := by
  obtain ⟨snapshot, after, htake, ha, hb⟩ := Mutual.exists_snapshot
  have himport : ⟨"b", true, 2⟩ ∈ (LoadedUnit.ofText Mutual.republishing).contents.imports := by
    rw [Mutual.contents_republishing]
    exact List.mem_cons_self
  obtain ⟨offered, hoffered, htheirs⟩ :=
    republished_declarations (Mutual.readable_republishing ha) himport rfl
  have hinterface := interface_of_readable (Mutual.readable_inferring hb)
  rw [Mutual.interfaceOf_inferring ha hb] at hinterface
  obtain ⟨shape, hshape, hcases⟩ := htheirs _ hinterface _ List.mem_cons_self
  exact ⟨snapshot, after, offered, htake, hoffered, shape, hshape, hcases.imp_right And.right⟩

/-- **A shape gets lost.**  The export that is inferred from the republishing unit has the shape of the
member where it is written, and none where it is republished. -/
theorem republished_shape_lost :
    ∃ snapshot after unit theirs offered, Mutual.host.takeSnapshot = (.ok snapshot, after)
      ∧ after.readable "a" = .ok unit ∧ (∃ i ∈ unit.contents.imports, i.reexport = true ∧ i.path = "b")
      ∧ (Host.interface after "b").1 = .ok theirs ∧ theirs = [⟨"let", "x", "int", true⟩]
      ∧ (Host.interface after "a").1 = .ok offered
      ∧ offered = [⟨"fn", "y", "int", false⟩, ⟨"let", "x", "unknown", true⟩]
      ∧ ¬ ∀ d ∈ theirs, ∃ d' ∈ offered, d'.face = d.face := by
  obtain ⟨snapshot, after, htake, ha, hb⟩ := Mutual.exists_snapshot
  have hfirst := Mutual.readable_republishing ha
  have hsecond := Mutual.readable_inferring hb
  refine ⟨snapshot, after, _, _, _, htake, hfirst, ⟨⟨"b", true, 2⟩, ?_, rfl, rfl⟩,
    interface_of_readable hsecond, Mutual.interfaceOf_inferring ha hb,
    interface_of_readable hfirst, Mutual.interfaceOf_republishing ha hb, ?_⟩
  · rw [Mutual.contents_republishing]
    exact List.mem_cons_self
  · rw [Mutual.interfaceOf_inferring ha hb, Mutual.interfaceOf_republishing ha hb]
    decide

end Rebuild.ProjectHost
