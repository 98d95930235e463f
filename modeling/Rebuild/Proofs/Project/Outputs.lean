import Rebuild.Proofs.EmitQueue
import Rebuild.Proofs.Project.Answers

/-!
# Outputs of project units

An emit of a unit writes its declarations, and in full also its body.  Where a storage takes what is
written, this always succeeds, and no output is overwritten by another one.

* `ProjectHost.outputPath_inj`: different outputs are written to different paths;
* `Tree.textOf`: the text of an output;
* `ProjectHost.writeAll_eq`: writing several files;
* `ProjectHost.emitUnit_eq`: what an emit does to the outputs of all units.
-/

namespace Rebuild

/-! ### Paths of outputs -/

/-- The pieces of a text do not contain the separator. -/
theorem Text.not_mem_of_mem_splitOn {sep : Char} {cs piece : List Char}
    (h : piece ∈ splitOn sep cs) : sep ∉ piece := by
  induction cs generalizing piece with
  | nil =>
      rw [splitOn, List.mem_singleton] at h
      simp [h]
  | cons c rest ih =>
      rw [splitOn] at h
      split at h
      · rcases List.mem_cons.mp h with hfirst | hlater
        · simp [hfirst]
        · exact ih hlater
      · rename_i hc
        split at h
        · rw [List.mem_singleton] at h
          simp [h, Ne.symm hc]
        · rename_i first pieces hpieces
          rcases List.mem_cons.mp h with hfirst | hlater
          · rw [hfirst, List.mem_cons, not_or]
            exact ⟨Ne.symm hc, ih (hpieces ▸ List.mem_cons_self)⟩
          · exact ih (hpieces ▸ List.mem_cons_of_mem _ hlater)

/-- A key does not start with a slash. -/
theorem UnitPath.head?_toList_ne (raw : String) : (normalize raw).toList.head? ≠ some '/' := by
  rw [normalize, String.toList_ofList]
  cases hsegments : segments raw.toList with
  | nil => simp [Text.join]
  | cons first rest =>
      have hmem : first ∈ segments raw.toList := hsegments ▸ List.mem_cons_self
      obtain ⟨hpiece, hnaming⟩ := List.mem_filter.mp hmem
      have hslash := Text.not_mem_of_mem_splitOn hpiece
      cases first with
      | nil => simp [isNaming] at hnaming
      | cons c cs =>
          have hhead : (Text.join ['/'] ((c :: cs) :: rest)).head? = some c := by
            cases rest with
            | nil => rfl
            | cons second rest => rfl
          rw [hhead]
          intro hc
          exact hslash (Option.some.inj hc ▸ List.mem_cons_self)

/-- Below a directory, different relative paths are different. -/
theorem DiskPath.join_inj {base a b : DiskPath} (ha : isAbsolute a = false)
    (hb : isAbsolute b = false) (h : join base a = join base b) : a = b := by
  rw [join, join, ha, hb] at h
  split at h
  · exact h
  · split at h
    · exact (String.append_right_inj _).mp h
    · exact (String.append_right_inj _).mp h

namespace EmitKind

/-- The text that is put behind the path of a unit. -/
def extension : EmitKind → String
  | .full => ".js"
  | .types => ".d"

theorem append_extension_inj {a b : String} {kind kind' : EmitKind}
    (h : a ++ kind.extension = b ++ kind'.extension) : a = b ∧ kind = kind' := by
  have hend : ∀ (kind : EmitKind) (text : String),
      (text ++ kind.extension).toList.getLast? = kind.extension.toList.getLast? := by
    intro kind text
    rw [String.toList_append, List.getLast?_append]
    cases kind <;> rfl
  have hlast : kind.extension.toList.getLast? = kind'.extension.toList.getLast? := by
    rw [← hend kind a, h, hend kind' b]
  cases kind with
  | full =>
      cases kind' with
      | full => exact ⟨(String.append_left_inj _).mp h, rfl⟩
      | types => exact absurd hlast (by decide)
  | types =>
      cases kind' with
      | full => exact absurd hlast (by decide)
      | types => exact ⟨(String.append_left_inj _).mp h, rfl⟩

end EmitKind

namespace ProjectHost

variable {σ : Type} {h base : ProjectHost σ} {path path' : UnitPath} {kind kind' : EmitKind}

theorem outputPath_eq (h : ProjectHost σ) (path : UnitPath) (kind : EmitKind) :
    h.outputPath path kind
      = DiskPath.join (DiskPath.join h.root h.outDir) (path ++ kind.extension) := by
  cases kind <;> rfl

theorem Sees.outputPath_eq {tree : Tree} (hsees : Sees base tree h) :
    h.outputPath path kind = base.outputPath path kind := by
  obtain ⟨disk, rfl⟩ := hsees
  rfl

theorem isAbsolute_output (hpath : UnitPath.normalize path = path) (kind : EmitKind) :
    DiskPath.isAbsolute (path ++ kind.extension) = false := by
  have hhead := UnitPath.head?_toList_ne path
  rw [hpath] at hhead
  rw [DiskPath.isAbsolute, beq_eq_false_iff_ne, String.toList_append, List.head?_append]
  cases hfirst : path.toList.head? with
  | none => cases kind <;> decide
  | some c =>
      rw [hfirst] at hhead
      exact hhead

/-- Different outputs are written to different paths. -/
theorem outputPath_inj (hpath : UnitPath.normalize path = path)
    (hpath' : UnitPath.normalize path' = path')
    (hsame : h.outputPath path kind = h.outputPath path' kind') : path = path' ∧ kind = kind' := by
  rw [outputPath_eq, outputPath_eq] at hsame
  exact EmitKind.append_extension_inj
    (DiskPath.join_inj (isAbsolute_output hpath kind) (isAbsolute_output hpath' kind') hsame)

end ProjectHost

/-! ### Writing outputs -/

/-- The text of an output of a file: its body, or the declarations of the unit. -/
def Tree.textOf (tree : Tree) (file : UnitPath × String) : EmitKind → String
  | .full => ProjectHost.bodyText file.1 file.2
  | .types => ProjectHost.declarationText (ProjectHost.interfaceOf tree.units file.1)

namespace ProjectHost

variable {σ : Type} [Storage σ] {h base : ProjectHost σ} {tree : Tree} {file : UnitPath × String}
variable {good : σ → Prop} {files : DiskPath → Prop} {s : σ}

def output (h : ProjectHost σ) (path : UnitPath) (part : EmitKind) : Except Error (List UInt8) :=
  Storage.readBytes h.storage (h.outputPath path part)

def OutputIs (h : ProjectHost σ) (path : UnitPath) (part : EmitKind) (text : String) : Prop :=
  h.output path part = .ok (Text.Utf8.encode text)

/-- Where writes are accepted, several files can be written at once, and no other file is touched. -/
theorem writeAll_eq (haccepts : Storage.Accepts good files) (unit : UnitPath)
    {outputs : List (DiskPath × String)} (hfiles : ∀ output ∈ outputs, files output.1)
    (hnodup : (outputs.map (·.1)).Nodup) (hgood : good s) :
    ∃ s', writeAll unit outputs s = (.ok (outputs.map (·.1)), s') ∧ good s'
      ∧ (∀ output ∈ outputs, Storage.readBytes s' output.1 = .ok (Text.Utf8.encode output.2))
      ∧ ∀ other, files other → other ∉ outputs.map (·.1) → ∀ found,
        Storage.readBytes s other = .ok found → Storage.readBytes s' other = .ok found := by
  induction outputs generalizing s with
  | nil => exact ⟨s, rfl, hgood, by simp, fun _ _ _ _ hfound => hfound⟩
  | cons first rest ih =>
      obtain ⟨path, text⟩ := first
      rw [List.map_cons, List.nodup_cons] at hnodup
      obtain ⟨s₁, hwrite, hgood₁, hread, hothers⟩ :=
        haccepts s hgood path (hfiles _ List.mem_cons_self) (Text.Utf8.encode text)
      obtain ⟨s₂, hrest, hgood₂, hreads, hothers₂⟩ :=
        ih (fun output houtput => hfiles output (List.mem_cons_of_mem _ houtput)) hnodup.2 hgood₁
      refine ⟨s₂, ?_, hgood₂, fun output houtput => ?_, fun other hother hnot found hfound => ?_⟩
      · rw [writeAll, hwrite]
        simp only [hrest]
        rfl
      · rcases List.mem_cons.mp houtput with rfl | hlater
        · exact hothers₂ path (hfiles _ List.mem_cons_self) hnodup.1 _ hread
        · exact hreads output hlater
      · rw [List.map_cons, List.mem_cons, not_or] at hnot
        exact hothers₂ other hother hnot.2 found (hothers other hother hnot.1 found hfound)

omit [Storage σ] in
/-- The files that an emit writes, one for each of its parts. -/
theorem outputs_eq (hunits : h.units = tree.units) (file : UnitPath × String) (kind : EmitKind) :
    h.outputs file.1 (LoadedUnit.ofText file.2) kind
      = kind.parts.map fun part => (h.outputPath file.1 part, tree.textOf file part) := by
  cases kind with
  | full =>
      simp only [outputs, hunits, EmitKind.parts, List.map_cons, List.map_nil]
      rfl
  | types =>
      simp only [outputs, hunits, EmitKind.parts, List.map_cons, List.map_nil]
      rfl

/-- **Emits succeed.**  Where writes are accepted, an emit of a unit writes the outputs that it is for,
and leaves all other outputs alone. -/
theorem emitUnit_eq (haccepts : Storage.Accepts good files) (hgood : good h.storage)
    (hunits : h.units = tree.units) (hfile : file ∈ tree.files)
    (hfiles : ∀ part, files (h.outputPath file.1 part)) (kind : EmitKind) :
    ∃ disk, h.emitUnit file.1 kind
        = (.ok ⟨kind.parts.map (h.outputPath file.1), []⟩, h.onDisk disk)
      ∧ good disk
      ∧ (∀ part ∈ kind.parts, (h.onDisk disk).OutputIs file.1 part (tree.textOf file part))
      ∧ ∀ path part, UnitPath.normalize path = path → files (h.outputPath path part) →
        (path = file.1 → part ∉ kind.parts) → ∀ text, h.OutputIs path part text →
          (h.onDisk disk).OutputIs path part text := by
  have hnormal := tree.normal file.1 file.2 hfile
  have hreadable : h.readable file.1 = .ok (LoadedUnit.ofText file.2) := by
    rw [readable_eq hunits, Tree.lookup_units.mpr ⟨file.2, hfile, rfl⟩]
  have hpaths : ((kind.parts.map fun part => (h.outputPath file.1 part, tree.textOf file part)).map
      (·.1)) = kind.parts.map (h.outputPath file.1) := by
    rw [List.map_map]
    rfl
  have hnodup : (kind.parts.map (h.outputPath file.1)).Nodup := by
    cases kind with
    | full =>
        have hne : h.outputPath file.1 .full ≠ h.outputPath file.1 .types := by
          intro hsame
          cases (outputPath_inj hnormal hnormal hsame).2
        simp [EmitKind.parts, hne]
    | types => simp [EmitKind.parts]
  have houtputs : ∀ output ∈ kind.parts.map fun part => (h.outputPath file.1 part, tree.textOf file part),
      files output.1 := by
    intro output houtput
    obtain ⟨part, _, rfl⟩ := List.mem_map.mp houtput
    exact hfiles part
  obtain ⟨disk, hwrite, hgood', hwritten, hothers⟩ :=
    writeAll_eq haccepts file.1 houtputs (hpaths ▸ hnodup) hgood
  refine ⟨disk, ?_, hgood', fun part hpart => ?_, fun path part hpath hout hnot text htext => ?_⟩
  · rw [emitUnit, hreadable]
    simp only [outputs_eq hunits, hwrite, hpaths]
    rfl
  · exact hwritten _ (List.mem_map_of_mem hpart)
  · refine hothers _ hout ?_ _ htext
    rw [hpaths]
    intro hmem
    obtain ⟨part', hpart', hsame⟩ := List.mem_map.mp hmem
    obtain ⟨rfl, rfl⟩ := outputPath_inj hnormal hpath hsame
    exact hnot rfl hpart'

end ProjectHost

end Rebuild
