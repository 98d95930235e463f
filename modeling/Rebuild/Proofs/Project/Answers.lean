import Rebuild.Proofs.Answers
import Rebuild.Proofs.Project.Tree

/-!
# What a project host answers

A host of a project answers about the tree of its latest snapshot.  Its versions and signatures are
digests, so they say as much as the bytes they are made of when no two of these collide.

* `Tree.hashed`: the bytes that the versions and signatures of a tree are the digests of;
* `Tree.Comparable`: two trees that versions and signatures tell apart;
* `ProjectHost.answers`: what a host answers before and after a change;
* `ProjectHost.versioned`, `ProjectHost.localUpTo`: its answers are local.
-/

namespace Rebuild

/-! ### Comparable trees -/

def Source.Export.texts : Source.Export → List String
  | .declared kind name shape _ => [kind, name, shape]
  | .inferred name _ _ _ => [name]

namespace Tree

variable {tree old new : Tree} {inferred : Bool} {path : UnitPath}

/-- The bytes that the versions and signatures of a tree are the digests of. -/
def hashed (inferred : Bool) (tree : Tree) : List (List UInt8) :=
  tree.files.map (fun file => Text.Utf8.encode file.2)
    ++ tree.files.map fun file =>
      (ProjectHost.interfaceOf tree.units file.1).encoding (ProjectHost.countsBy inferred)

/-- The lengths of all exported texts can be written with eight bytes. -/
def Short (tree : Tree) : Prop :=
  ∀ file ∈ tree.files, ∀ e ∈ (Source.Contents.parse file.2).exports, ∀ text ∈ e.texts,
    (Text.Utf8.encode text).length < 2 ^ 64

/-- Two trees that versions and signatures tell apart as far as a build depends on it. -/
structure Comparable (inferred : Bool) (old new : Tree) : Prop where
  short : old.Short ∧ new.Short
  /-- Digests do not collide. -/
  digests : ∀ x ∈ old.hashed inferred, ∀ y ∈ new.hashed inferred,
    Digest.ofBytes x = Digest.ofBytes y → x = y
  telling : ProjectHost.Telling inferred old.units new.units

/-- The fields of all declarations are short. -/
theorem Short.interfaceOf (h : tree.Short) :
    ∀ d ∈ ProjectHost.interfaceOf tree.units path, d.Short := by
  refine ProjectHost.forall_interfaceFrom fun path unit hunit interface hinterface e he => ?_
  obtain ⟨text, hfile, rfl⟩ := lookup_units.mp hunit
  have htexts := h _ hfile e he
  cases e with
  | declared kind name shape line =>
      simp only [Source.Export.texts, List.forall_mem_cons] at htexts
      exact ⟨htexts.1, htexts.2.1, htexts.2.2.1⟩
  | inferred name source member line =>
      simp only [Source.Export.texts, List.forall_mem_cons] at htexts
      have hlet : (Text.Utf8.encode "let").length < 2 ^ 64 := by decide
      have hunknown : (Text.Utf8.encode ProjectHost.unresolvedShape).length < 2 ^ 64 := by decide
      refine ⟨hlet, htexts.1, ?_⟩
      rw [ProjectHost.declarationBy]
      cases hfind : (interface source).find? fun d => d.name == member with
      | none => exact hunknown
      | some d => exact (hinterface source d (List.mem_of_find?_eq_some hfind)).shape

theorem encode_mem_hashed {text : String} (h : (path, text) ∈ tree.files) :
    Text.Utf8.encode text ∈ tree.hashed inferred :=
  List.mem_append_left _ (List.mem_map.mpr ⟨_, h, rfl⟩)

theorem encoding_mem_hashed (h : (tree.units.lookup path).isSome = true) :
    (ProjectHost.interfaceOf tree.units path).encoding (ProjectHost.countsBy inferred)
      ∈ tree.hashed inferred := by
  obtain ⟨unit, hunit⟩ := Option.isSome_iff_exists.mp h
  obtain ⟨text, hfile, _⟩ := lookup_units.mp hunit
  exact List.mem_append_right _ (List.mem_map.mpr ⟨_, hfile, rfl⟩)

namespace Comparable

/-- Equal versions mean equal texts. -/
theorem text_eq (h : Comparable inferred old new) {path' : UnitPath} {text text' : String}
    (hold : (path, text) ∈ old.files) (hnew : (path', text') ∈ new.files)
    (hversion : Rebuild.version text = Rebuild.version text') : text = text' :=
  Text.Utf8.encode_inj (h.digests _ (encode_mem_hashed hold) _ (encode_mem_hashed hnew) hversion)

/-- Equal signatures mean interfaces that look the same. -/
theorem sameFaces (h : Comparable inferred old new)
    (hold : (old.units.lookup path).isSome = true) (hnew : (new.units.lookup path).isSome = true)
    (hsignature : (ProjectHost.interfaceOf old.units path).signature (ProjectHost.countsBy inferred)
      = (ProjectHost.interfaceOf new.units path).signature (ProjectHost.countsBy inferred)) :
    ProjectHost.SameFaces inferred (ProjectHost.interfaceOf old.units path)
      (ProjectHost.interfaceOf new.units path) := by
  have hencoding := h.digests _ (encoding_mem_hashed hold) _ (encoding_mem_hashed hnew) hsignature
  exact Interface.faces_perm_of_encoding (fun d hd _ => h.short.1.interfaceOf d hd)
    (fun d hd _ => h.short.2.interfaceOf d hd) hencoding

end Comparable

end Tree

/-! ### Answers -/

/-- The latest snapshot was taken before or after a change. -/
inductive Moment where
  | before
  | after

/-- The tree at a moment. -/
def Moment.tree (old new : Tree) : Moment → Tree
  | .before => old
  | .after => new

namespace ProjectHost

variable {σ : Type} {h base : ProjectHost σ} {tree old new : Tree}
variable {path : UnitPath} {unit : LoadedUnit}

/-- Every unit of a tree can be read. -/
theorem readable_eq (hunits : h.units = tree.units) :
    h.readable path = match tree.units.lookup path with
      | none => .error (.unknownUnit path)
      | some unit => .ok unit := by
  rw [readable, hunits]
  cases hunit : tree.units.lookup path with
  | none => rfl
  | some unit =>
      obtain ⟨text, _, rfl⟩ := Tree.lookup_units.mp hunit
      rfl

def onDisk (h : ProjectHost σ) (disk : σ) : ProjectHost σ :=
  { h with storage := disk }

/-- Only the storage of a host changes. -/
def StorageOnly (change : ProjectHost σ → ProjectHost σ) : Prop :=
  ∀ h, ∃ disk, change h = h.onDisk disk

/-- The host has the settings of `base`, and its latest snapshot was taken of a tree.  The storage
may have changed since. -/
def Sees (base : ProjectHost σ) (tree : Tree) (h : ProjectHost σ) : Prop :=
  ∃ disk, h = { base.onDisk disk with units := tree.units }

namespace Sees

theorem units_eq (hsees : Sees base tree h) : h.units = tree.units := by
  obtain ⟨disk, rfl⟩ := hsees
  rfl

theorem includeInferred_eq (hsees : Sees base tree h) :
    h.includeInferred = base.includeInferred := by
  obtain ⟨disk, rfl⟩ := hsees
  rfl

theorem onDisk (hsees : Sees base tree h) (disk : σ) : Sees base tree (h.onDisk disk) := by
  obtain ⟨_, rfl⟩ := hsees
  exact ⟨disk, rfl⟩

/-- A snapshot of another tree changes nothing but the units. -/
theorem reread (hsees : Sees base tree h) (tree' : Tree) :
    Sees base tree' { h with units := tree'.units } := by
  obtain ⟨disk, rfl⟩ := hsees
  exact ⟨disk, rfl⟩

/-- A storage holds the same tree for both. -/
theorem holds [Storage σ] (hsees : Sees base tree h) {disk : σ} {tree' : Tree}
    (hholds : (base.onDisk disk).Holds tree') : (h.onDisk disk).Holds tree' := by
  obtain ⟨_, rfl⟩ := hsees
  exact ⟨hholds.scan, hholds.read⟩

end Sees

variable [Storage σ]

/-- An emit writes files, and leaves everything else of a host. -/
theorem emitUnit_storage (h : ProjectHost σ) (path : UnitPath) (kind : EmitKind) :
    ∃ disk, (h.emitUnit path kind).2 = h.onDisk disk := by
  rw [emitUnit]
  split
  · exact ⟨h.storage, rfl⟩
  · split
    · exact ⟨_, rfl⟩
    · exact ⟨_, rfl⟩

/-- What a host answers before and after a change of the tree. -/
@[reducible]
def answers (base : ProjectHost σ) (old new : Tree) : Answers (ProjectHost σ) where
  World := Moment
  view m := (m.tree old new).snapshot
  At h m := Sees base (m.tree old new) h
  check m path :=
    match (m.tree old new).units.lookup path with
    | none => .error (.unknownUnit path)
    | some unit => .ok (checkContents (m.tree old new).units path unit.contents)
  sign m path :=
    match (m.tree old new).units.lookup path with
    | none => .error (.unknownUnit path)
    | some _ =>
        .ok ((interfaceOf (m.tree old new).units path).signature (countsBy base.includeInferred))
  check_at := by
    intro h m hsees path
    simp only [Host.check, readable_eq hsees.units_eq, hsees.units_eq]
    cases (m.tree old new).units.lookup path with
    | none => exact ⟨rfl, hsees⟩
    | some unit => exact ⟨rfl, hsees⟩
  interface_at := by
    intro h m hsees path
    simp only [Host.interface, readable_eq hsees.units_eq, hsees.units_eq]
    cases (m.tree old new).units.lookup path with
    | none => exact ⟨rfl, hsees⟩
    | some unit =>
        refine ⟨?_, hsees⟩
        rw [← hsees.includeInferred_eq]
        rfl
  emit_at := by
    intro h m hsees path kind
    obtain ⟨disk, hdisk⟩ := emitUnit_storage h path kind
    simp only [Host.emit, hdisk]
    exact hsees.onDisk disk

theorem keeps_of_storageOnly {m : Moment} {change : ProjectHost σ → ProjectHost σ}
    (hchange : StorageOnly change) : (answers base old new).Keeps m change := by
  intro h hsees
  obtain ⟨disk, hdisk⟩ := hchange h
  show Sees base (m.tree old new) (change h)
  rw [hdisk]
  exact Sees.onDisk hsees disk

/-- A unit that was read is checked and signed. -/
theorem verdict_eq {m : Moment} (hunit : (m.tree old new).units.lookup path = some unit) :
    (answers base old new).verdict m path
      = (.known ((interfaceOf (m.tree old new).units path).signature
          (countsBy base.includeInferred)),
        checkContents (m.tree old new).units path unit.contents) := by
  simp only [Answers.verdict, hunit]

/-! ### Locality -/

variable (hcomparable : Tree.Comparable base.includeInferred old new)
include hcomparable

/-- The version of a unit determines its dependencies. -/
theorem versioned : (answers base old new).Versioned := by
  intro m m' source hsource source' hsource' hpath hversion
  obtain ⟨text, hfile, hsame⟩ :=
    Tree.unit?_snapshot.mp (Snapshot.unit?_eq_some_iff.mpr ⟨hsource, rfl⟩)
  obtain ⟨text', hfile', hsame'⟩ :=
    Tree.unit?_snapshot.mp (Snapshot.unit?_eq_some_iff.mpr ⟨hsource', hpath.symm⟩)
  rw [hsame, hsame', Tree.sourceOf, Tree.sourceOf, version_sourceUnit, version_sourceUnit]
    at hversion
  have htext : text = text' := by
    cases m with
    | before =>
        cases m' with
        | before => exact old.single _ _ _ hfile hfile'
        | after => exact hcomparable.text_eq hfile hfile' hversion
    | after =>
        cases m' with
        | before => exact (hcomparable.text_eq hfile' hfile hversion.symm).symm
        | after => exact new.single _ _ _ hfile hfile'
  rw [hsame, hsame', htext]

/-- Units in the same surroundings, as far as versions and signatures tell, are in the same
surroundings. -/
theorem framed_of_frames {U : UnitPath → Prop}
    (h : (answers base old new).Frames .before .after U) :
    Framed base.includeInferred old.units new.units U := by
  intro path hpath
  obtain ⟨source, source', hsource, hsource', hversion, hdeps⟩ := h path hpath
  obtain ⟨text, hfile, rfl⟩ := Tree.unit?_snapshot.mp hsource
  obtain ⟨text', hfile', rfl⟩ := Tree.unit?_snapshot.mp hsource'
  rw [Tree.sourceOf, Tree.sourceOf, version_sourceUnit, version_sourceUnit] at hversion
  cases hcomparable.text_eq hfile hfile' hversion
  refine ⟨LoadedUnit.ofText text, Tree.lookup_units.mpr ⟨text, hfile, rfl⟩,
    Tree.lookup_units.mpr ⟨text, hfile', rfl⟩, fun other hother => ?_⟩
  by_cases hnormal : UnitPath.normalize other = other
  · obtain ⟨dep, hdep, hdepPath⟩ := exists_dependency hother
    rw [hnormal] at hdepPath
    subst hdepPath
    rcases hdeps dep hdep with hin | ⟨hgone, hgone'⟩ | ⟨hsome, hsome', hash, hhash, hhash'⟩
    · exact Or.inl hin
    · exact Or.inr (Or.inl ⟨Tree.lookup_eq_none hgone, Tree.lookup_eq_none hgone'⟩)
    · have hhas : has old.units dep.path = true := Tree.isSome_unit?_snapshot.symm.trans hsome
      have hhas' : has new.units dep.path = true := Tree.isSome_unit?_snapshot.symm.trans hsome'
      obtain ⟨unit, hunit⟩ := Option.isSome_iff_exists.mp hhas
      obtain ⟨unit', hunit'⟩ := Option.isSome_iff_exists.mp hhas'
      rw [verdict_eq (m := .before) hunit] at hhash
      rw [verdict_eq (m := .after) hunit'] at hhash'
      refine Or.inr (Or.inr ⟨hhas, hhas', hcomparable.sameFaces hhas hhas' ?_⟩)
      exact (Signature.known.inj hhash).trans (Signature.known.inj hhash').symm
  · -- a path that is no key names nothing
    have hgone : ∀ tree : Tree, tree.units.lookup other = none := by
      intro tree
      rw [Option.eq_none_iff_forall_ne_some]
      intro unit hunit
      obtain ⟨text, hfile, _⟩ := Tree.lookup_units.mp hunit
      exact hnormal (tree.normal other text hfile)
    exact Or.inr (Or.inl ⟨hgone old, hgone new⟩)

/-- Units in the same surroundings have the same signatures before and after a change, and the same
diagnostics when signatures show what the unit reads. -/
theorem verdict_eq_of_frames {U : UnitPath → Prop}
    (h : (answers base old new).Frames .before .after U) (hpath : U path) :
    ((answers base old new).verdict .before path).1 = ((answers base old new).verdict .after path).1
      ∧ (base.includeInferred = true ∨ ReadsTold old.units new.units path →
        ((answers base old new).verdict .before path).2
          = ((answers base old new).verdict .after path).2) := by
  have hframed := framed_of_frames hcomparable h
  have hundisturbed : Undisturbed base.includeInferred old.units new.units path := ⟨U, hframed, hpath⟩
  obtain ⟨unit, hunit, hunit', _⟩ := hframed path hpath
  rw [verdict_eq (m := .before) hunit, verdict_eq (m := .after) hunit']
  refine ⟨?_, fun htold => ?_⟩
  · have hencoding := Interface.encoding_of_faces_perm (hcomparable.telling.sameFaces hundisturbed)
    exact congrArg (fun bytes => Signature.known (Digest.ofBytes bytes)) hencoding
  · exact hcomparable.telling.checkContents_eq htold hundisturbed hunit

/-- **A project host is local.**  Signatures are, and so are the diagnostics of a unit when signatures show
what it reads. -/
theorem localUpTo {β : Type} {observe : UnitPath → List Diagnostic → β}
    (hobserve : ∀ path, (base.includeInferred = true ∨ ReadsTold old.units new.units path)
      ∨ ∀ found found', observe path found = observe path found') :
    (answers base old new).LocalUpTo observe := by
  have hchange : ∀ U, (answers base old new).Frames .before .after U → ∀ path, U path →
      (answers base old new).Alike (observe path) .before .after path := by
    intro U h path hpath
    obtain ⟨hsignature, hdiagnostics⟩ := verdict_eq_of_frames hcomparable h hpath
    refine ⟨hsignature, ?_⟩
    rcases hobserve path with htold | hblind
    · rw [hdiagnostics htold]
    · exact hblind _ _
  intro m m' U h path hpath
  cases m with
  | before =>
      cases m' with
      | before => exact ⟨rfl, rfl⟩
      | after => exact hchange U h path hpath
  | after =>
      cases m' with
      | before =>
          obtain ⟨hsignature, hdiagnostics⟩ :=
            hchange U (h.symm (versioned hcomparable)) path hpath
          exact ⟨hsignature.symm, hdiagnostics.symm⟩
      | after => exact ⟨rfl, rfl⟩

end ProjectHost

end Rebuild
