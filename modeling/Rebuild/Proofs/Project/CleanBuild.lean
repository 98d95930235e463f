import Rebuild.Proofs.Project.Delivery

/-!
# Incremental builds and clean builds

A project that is built, changed and built again has the outputs that a clean build of the changed
project writes.  There is one exception: signatures do not see the order of declarations, so that
declarations which are taken from another unit can keep the order that they had before the change.

* `ProjectHost.BuildsTo`: everything that a program has to do is pulled;
* `ProjectHost.BuildsTo.outputs`: what a build leaves;
* `project_outputs_match_clean`: outputs of incremental builds are those of clean builds, up to the order
  of declarations whose unit has the same text and the same signature as before;
* `project_outputs_reordered`: the order can be the old one.
-/

namespace Rebuild

namespace ProjectHost

/-- The line of a declaration in an output. -/
def declarationLine (d : Declaration) : String :=
  "export " ++ d.kind ++ " " ++ d.name ++ " " ++ d.shape ++ "\n"

/-- Interfaces that look the same are written with the same lines, up to their order. -/
theorem SameFaces.map_declarationLine {i j : Interface} (h : SameFaces true i j) :
    (i.map declarationLine).Perm (j.map declarationLine) := by
  have hlines : ∀ interface : Interface, interface.map declarationLine
      = (interface.faces (countsBy true)).map fun face =>
          "export " ++ face.1 ++ " " ++ face.2.1 ++ " " ++ face.2.2 ++ "\n" := by
    intro interface
    have hall : interface.filter (countsBy true) = interface :=
      List.filter_eq_self.mpr fun _ _ => rfl
    rw [Interface.faces, hall, List.map_map]
    rfl
  rw [hlines i, hlines j]
  exact List.Perm.map _ h

variable {σ : Type} [Storage σ] {base : ProjectHost σ} {good : σ → Prop} {files : DiskPath → Prop}
variable {earlier old new : Tree} {p q : Program (ProjectHost σ)} {m : Moment}
variable {file : UnitPath × String}

/-- A file that a build of one of two trees writes. -/
def IsOutput (h : ProjectHost σ) (old new : Tree) (output : DiskPath) : Prop :=
  ∃ file part, (file ∈ old.files ∨ file ∈ new.files) ∧ output = h.outputPath file.1 part

/-- A caller pulls all that a program has to do.  Meanwhile nobody else touches the host. -/
def BuildsTo (p q : Program (ProjectHost σ)) : Prop :=
  q.Settled ∧ ∃ calls, (∀ c ∈ calls, c.Inner) ∧ q = (Call.play calls p).2

theorem BuildsTo.drainsTo (h : BuildsTo p q) : DrainsTo p q := by
  obtain ⟨hsettled, calls, hcalls, hq⟩ := h
  exact ⟨hsettled.1, calls, fun c hc => (hcalls c hc).within _, hq⟩

theorem Builds.exists_buildsTo (hp : Builds base good earlier new p) : ∃ q, BuildsTo p q := by
  obtain ⟨calls, hcalls, hsettled⟩ := hp.orderly.exists_settled
  exact ⟨_, hsettled, calls, hcalls, rfl⟩

/-- At the end of a round of a run, units are compared with their signatures. -/
theorem known?_of_run (hcomparable : Tree.Comparable base.includeInferred old new)
    (hrun : Run (answers base old new) p m) (hfinished : p.Finished)
    (hfile : file ∈ (m.tree old new).files) :
    p.known? file.1 = some ((m.tree old new).signatureOf base.includeInferred file.1) := by
  have hversioned := versioned hcomparable
  have hlocal : (answers base old new).LocalUpTo fun _ _ => () :=
    localUpTo hcomparable fun _ => Or.inr fun _ _ => rfl
  have hsound := hrun.sound hversioned hlocal
  have hstores := stores_of_run hcomparable hfile (fun _ _ => ()) (fun _ => Or.inr fun _ _ => rfl) hrun
    hfinished
  rw [hsound.known?_eq (hsound.tidy.not_awaits_of_finished hfinished _) hstores,
    verdict_eq (Tree.lookup_units.mpr ⟨file.2, hfile, rfl⟩)]
  rfl

/-- Once everything was pulled, no emit remains, and units are compared with their signatures. -/
theorem BuildsTo.settled (hq : BuildsTo p q)
    (hcomparable : Tree.Comparable base.includeInferred old new)
    (haccepts : Storage.Accepts good (base.IsOutput old new))
    (hrun : Run (answers base old new) p m) (hp : Builds base good earlier (m.tree old new) p) :
    Builds base good earlier (m.tree old new) q ∧ q.pendingEmit.remaining = []
      ∧ ∀ file ∈ (m.tree old new).files,
        q.known? file.1 = some ((m.tree old new).signatureOf base.includeInferred file.1) := by
  have hfiles : ∀ file ∈ (m.tree old new).files, ∀ part,
      base.IsOutput old new (base.outputPath file.1 part) := by
    intro file hfile part
    refine ⟨file, part, ?_, rfl⟩
    cases m with
    | before => exact Or.inl hfile
    | after => exact Or.inr hfile
  have hknown : ∀ file ∈ (m.tree old new).files,
      q.known? file.1 = some ((m.tree old new).signatureOf base.includeInferred file.1) := by
    intro file hfile
    exact known?_of_run hcomparable (hq.drainsTo.run hrun) hq.1.1 hfile
  obtain ⟨hsettled, calls, hcalls, rfl⟩ := hq
  have hbuilds : Builds base good earlier (m.tree old new) (Call.play calls p).2 :=
    Call.play_induct (fun hp h => hp.action haccepts hfiles h) hcalls hp
  exact ⟨hbuilds, hbuilds.orderly.remaining_of_settled hsettled, hknown⟩

/-- **What a build leaves.**  Every output has its final text: that of the tree, or that of the tree which
was built earlier where declarations are retained. -/
theorem BuildsTo.outputs (hq : BuildsTo p q)
    (hcomparable : Tree.Comparable base.includeInferred old new)
    (haccepts : Storage.Accepts good (base.IsOutput old new))
    (hrun : Run (answers base old new) p m) (hp : Builds base good earlier (m.tree old new) p)
    (hfile : file ∈ (m.tree old new).files) :
    (∀ part, (part = .types → ¬ earlier.Retains base.includeInferred (m.tree old new) file.1) →
        q.host.OutputIs file.1 part ((m.tree old new).textOf file part))
      ∧ (earlier.Retains base.includeInferred (m.tree old new) file.1 →
        q.host.OutputIs file.1 .types (earlier.textOf file .types)) := by
  obtain ⟨hbuilds, hdone, hknown⟩ := hq.settled hcomparable haccepts hrun hp
  exact hbuilds.outputs hdone hfile (hknown file hfile)

/-- A program that built the old tree takes up the new one. -/
theorem BuildsTo.takeUp (hq : BuildsTo p q)
    (hcomparable : Tree.Comparable base.includeInferred old new)
    (haccepts : Storage.Accepts good (base.IsOutput old new))
    (hrun : Run (answers base old new) p .before) (hp : Builds base good Tree.empty old p)
    {disk : σ} (hgood : good disk) (hnew : (base.onDisk disk).Holds new)
    (hkept : ∀ file ∈ old.files, ∀ part text, q.host.OutputIs file.1 part text →
      (q.host.onDisk disk).OutputIs file.1 part text) (paths : List String) :
    ({ q with host := q.host.onDisk disk } : Program (ProjectHost σ)).reportChanged paths
        = (.ok (), informed q (q.host.onDisk disk) new)
      ∧ Run (answers base old new) (informed q (q.host.onDisk disk) new) .after
      ∧ Builds base good old new (informed q (q.host.onDisk disk) new) := by
  obtain ⟨hbuilds, hdone, hknown⟩ := hq.settled hcomparable haccepts hrun hp
  have hfaithful : Faithful (q.host.onDisk disk).units := by
    rw [(hbuilds.sees.onDisk disk).units_eq]
    exact faithful_units old
  have hreport := reportChanged_eq q (hbuilds.sees.holds hnew) hfaithful paths
  refine ⟨hreport, ?_, hbuilds.takeUp hdone hknown hcomparable hgood hkept⟩
  exact .report (hq.drainsTo.run hrun) hq.1.1 hreport rfl ((hbuilds.sees.onDisk disk).reread new)

/-- A new program starts to build the tree that the storage holds. -/
theorem start_builds (hcold : base.units = []) (old new : Tree) (m : Moment) {disk : σ} (hgood : good disk)
    (hholds : (base.onDisk disk).Holds (m.tree old new)) (options : Options)
    (hdeclares : options.emitDeclarations = true) :
    ∃ p, Program.start (base.onDisk disk) options none = .ok p ∧ Run (answers base old new) p m
      ∧ Builds base good Tree.empty (m.tree old new) p := by
  have hfaithful : Faithful (base.onDisk disk).units := by
    show Faithful base.units
    rw [hcold]
    exact faithful_nil
  have hstart := start_eq hholds hfaithful options
  exact ⟨_, hstart, .start hstart rfl ⟨disk, rfl⟩, builds_opened base hgood _ hdeclares⟩

end ProjectHost

/-- **Incremental builds write what clean builds write.**  Take a project whose storage takes what is
written, and that holds one tree and later another one, such that versions and signatures tell the two
apart.  A program builds the first tree; then the files are changed, and the program is told and builds
the second tree.  No request fails, and every build can be brought to its end.  Every file of the second
tree then has the outputs that a clean build writes, except for the declarations of a unit that has the
same text and the same signature in both trees: these are written as in the first build, with the same
lines as in a clean build, possibly in another order. -/
theorem project_outputs_match_clean {σ : Type} [Storage σ] (host : ProjectHost σ)
    (hcold : host.units = []) (hinferred : host.includeInferred = true) {old new : Tree}
    (hcomparable : Tree.Comparable host.includeInferred old new) {good : σ → Prop}
    (haccepts : Storage.Accepts good (host.IsOutput old new)) {disk disk₂ : σ}
    (hgood : good disk) (hold : (host.onDisk disk).Holds old)
    (hgood₂ : good disk₂) (hnew₂ : (host.onDisk disk₂).Holds new) (options options' : Options)
    (hdeclares : options.emitDeclarations = true) (hdeclares' : options'.emitDeclarations = true)
    (paths : List String) :
    ∃ first fresh, Program.start (host.onDisk disk) options none = .ok first
      ∧ Program.start (host.onDisk disk₂) options' none = .ok fresh
      ∧ (∃ p, ProjectHost.BuildsTo first p) ∧ (∃ r, ProjectHost.BuildsTo fresh r)
      ∧ ∀ p, ProjectHost.BuildsTo first p → ∀ disk₁, good disk₁ → (host.onDisk disk₁).Holds new →
        (∀ file ∈ old.files, ∀ part text, p.host.OutputIs file.1 part text →
          (p.host.onDisk disk₁).OutputIs file.1 part text) →
        ∃ second,
          ({ p with host := p.host.onDisk disk₁ } : Program (ProjectHost σ)).reportChanged paths
              = (.ok (), second)
            ∧ (∃ q, ProjectHost.BuildsTo second q)
            ∧ ∀ q r, ProjectHost.BuildsTo second q → ProjectHost.BuildsTo fresh r →
              ∀ file ∈ new.files,
                q.host.OutputIs file.1 .full (ProjectHost.bodyText file.1 file.2)
                  ∧ r.host.OutputIs file.1 .full (ProjectHost.bodyText file.1 file.2)
                  ∧ ∃ interface,
                    q.host.OutputIs file.1 .types (ProjectHost.declarationText interface)
                      ∧ r.host.OutputIs file.1 .types (ProjectHost.declarationText
                          (ProjectHost.interfaceOf new.units file.1))
                      ∧ (interface.map ProjectHost.declarationLine).Perm
                          ((ProjectHost.interfaceOf new.units file.1).map ProjectHost.declarationLine)
                      ∧ (old.Retains host.includeInferred new file.1 →
                        interface = ProjectHost.interfaceOf old.units file.1)
                      ∧ (¬ old.Retains host.includeInferred new file.1 →
                        interface = ProjectHost.interfaceOf new.units file.1) := by
  obtain ⟨first, hstart, hrun, hfirst⟩ :=
    ProjectHost.start_builds hcold old new .before hgood hold options hdeclares
  obtain ⟨fresh, hstart', hrun', hfresh⟩ :=
    ProjectHost.start_builds hcold old new .after hgood₂ hnew₂ options' hdeclares'
  refine ⟨first, fresh, hstart, hstart', hfirst.exists_buildsTo, hfresh.exists_buildsTo,
    fun p hp disk₁ hgood₁ hnew₁ hkept => ?_⟩
  obtain ⟨hreport, hrun₁, hsecond⟩ :=
    hp.takeUp hcomparable haccepts hrun hfirst hgood₁ hnew₁ hkept paths
  refine ⟨_, hreport, hsecond.exists_buildsTo, fun q r hq hr file hfile => ?_⟩
  obtain ⟨hwritten, hretained⟩ := hq.outputs hcomparable haccepts hrun₁ hsecond hfile
  obtain ⟨hclean, _⟩ := hr.outputs hcomparable haccepts hrun' hfresh hfile
  have hnone := Tree.not_retains_empty host.includeInferred hfile
  refine ⟨hwritten .full (by simp), hclean .full (by simp), ?_⟩
  by_cases hretains : old.Retains host.includeInferred new file.1
  · refine ⟨_, hretained hretains, hclean .types fun _ => hnone, ?_, fun _ => rfl,
      fun hnot => absurd hretains hnot⟩
    have hlookup := Tree.lookup_units.mpr ⟨file.2, hfile, rfl⟩
    have hfaces := hcomparable.sameFaces (by rw [hretains.1, hlookup]; rfl) (by rw [hlookup]; rfl)
      hretains.2
    rw [hinferred] at hfaces
    exact hfaces.map_declarationLine
  · exact ⟨_, hwritten .types fun _ => hretains, hclean .types fun _ => hnone, List.Perm.refl _,
      fun hkeeps => absurd hkeeps hretains, fun _ => rfl⟩

/-! ### A project with re-exported declarations -/

namespace Reordered

/-- A file that offers what another one offers. -/
def offers : String := "export * from \"u\""

def ascending : String := "export fn f int\nexport fn g int"

/-- The same declarations in the other order. -/
def descending : String := "export fn g int\nexport fn f int"

/-- A file with some text, and one that offers the same. -/
def files (text : String) : List (UnitPath × String) :=
  [("d", offers), ("u", text)]

theorem single_files (text : String) :
    ∀ path first second, (path, first) ∈ files text → (path, second) ∈ files text → first = second := by
  intro path first second hfirst hsecond
  simp only [files, List.mem_cons, List.not_mem_nil, or_false, Prod.mk.injEq] at hfirst hsecond
  grind

theorem normal_files (text : String) :
    ∀ path found, (path, found) ∈ files text → UnitPath.normalize path = path := by
  intro path found h
  have hnormal : ∀ path ∈ ["d", "u"], UnitPath.normalize path = path := by
    decide
  have hpath : path ∈ (files text).map (·.1) := List.mem_map_of_mem h
  exact hnormal path hpath

def tree (text : String) : Tree where
  files := files text
  single := single_files text
  normal := normal_files text

def disk (text : String) : FileTable :=
  (tree text).files.foldl
    (fun table file => table.addFile (DiskPath.join "p" file.1) (Text.Utf8.encode file.2)) {}

/-- A new host of that directory, with outputs in another one. -/
def host : ProjectHost FileTable where
  storage := {}
  root := "p"
  matcher := ⟨[[.many]], none⟩
  outDir := "/out"
  includeInferred := true

/-- The outputs of a build of the tree in which the order is that of the names. -/
def outputs : List (DiskPath × String) :=
  (tree ascending).files.flatMap fun file =>
    [EmitKind.full, .types].map fun part => (host.outputPath file.1 part, (tree ascending).textOf file part)

/-- The directory after such a build, when the order was changed. -/
def changed : FileTable :=
  (ProjectHost.writeAll "" outputs (disk descending)).2

theorem accepts :
    Storage.Accepts (fun _ : FileTable => True)
      (host.IsOutput (tree ascending) (tree descending)) := by
  have hkeys : ∀ path ∈ ["d", "u"], ∀ part ∈ [EmitKind.full, .types], ∀ path' ∈ ["d", "u"],
      ∀ part' ∈ [EmitKind.full, .types],
        FileTable.key (host.outputPath path part) = FileTable.key (host.outputPath path' part') →
          host.outputPath path part = host.outputPath path' part' := by
    decide
  have hcases : ∀ output, host.IsOutput (tree ascending) (tree descending) output →
      ∃ path ∈ ["d", "u"], ∃ part ∈ [EmitKind.full, .types], output = host.outputPath path part := by
    intro output houtput
    obtain ⟨file, part, hfile, rfl⟩ := houtput
    refine ⟨file.1, ?_, part, by cases part <;> simp, rfl⟩
    rcases hfile with hold | hnew
    · exact List.mem_map_of_mem hold
    · exact List.mem_map_of_mem hnew
  refine FileTable.accepts fun output other houtput hother hsame => ?_
  obtain ⟨path, hpath, part, hpart, rfl⟩ := hcases output houtput
  obtain ⟨path', hpath', part', hpart', rfl⟩ := hcases other hother
  exact hkeys path hpath part hpart path' hpath' part' hpart' hsame

theorem holds {text : String} {table : FileTable}
    (h : (text, table) ∈ [(ascending, disk ascending), (descending, disk descending),
      (descending, changed)]) : (host.onDisk table).Holds (tree text) := by
  have hfound : ∀ state ∈ [(ascending, disk ascending), (descending, disk descending),
        (descending, changed)],
      let h := host.onDisk state.2
      h.matcher.scanFrom h.storage h.root (Storage.entryCount h.storage + 1) [h.root] []
          = .ok ((tree state.1).files.map (·.1))
        ∧ ((tree state.1).files.map (·.1)).Pairwise (· ≤ ·)
        ∧ ∀ file ∈ (tree state.1).files,
          Storage.readText h.storage (DiskPath.join h.root file.1) = .ok file.2 := by
    decide +kernel
  obtain ⟨hscan, hsorted, hread⟩ := hfound _ h
  exact .of_sorted hscan hsorted hread

theorem holds_ascending : (host.onDisk (disk ascending)).Holds (tree ascending) :=
  holds (by simp)

theorem holds_descending : (host.onDisk (disk descending)).Holds (tree descending) :=
  holds (by simp)

theorem holds_changed : (host.onDisk changed).Holds (tree descending) :=
  holds (by simp)

/-! The declarations of both files. -/

def function (name : String) : Declaration :=
  ⟨"fn", name, "int", false⟩

def declarations (text : String) : Interface :=
  if text = ascending then [function "f", function "g"] else [function "g", function "f"]

variable {text : String}

theorem takes_cases (htext : text ∈ [ascending, descending]) {a b : UnitPath}
    (h : ProjectHost.Takes (tree text).units a b) : a = "d" ∧ b = "u" := by
  have hfrom : ∀ text ∈ [ascending, descending], ∀ file ∈ (tree text).files,
      ∀ source ∈ (LoadedUnit.ofText file.2).takesFrom, file.1 = "d" ∧ source = "u" := by
    decide
  obtain ⟨unit, hunit, hsource⟩ := h
  obtain ⟨found, hfile, rfl⟩ := Tree.lookup_units.mp hunit
  exact hfrom text htext (a, found) hfile b hsource

theorem not_onCycle (htext : text ∈ [ascending, descending]) (path : UnitPath) :
    ¬ ProjectHost.OnCycle (tree text).units path := by
  intro hcycle
  obtain ⟨_, hfirst, _⟩ := Relation.TransGen.head'_iff.mp hcycle
  obtain ⟨_, _, hlast⟩ := Relation.TransGen.tail'_iff.mp hcycle
  have hd := (takes_cases htext hfirst).1
  have hu := (takes_cases htext hlast).2
  exact absurd (hd.symm.trans hu) (by decide)

/-- Both files have the declarations of the second one. -/
theorem interfaceOf_eq (htext : text ∈ [ascending, descending]) {file : UnitPath × String}
    (hfile : file ∈ (tree text).files) :
    ProjectHost.interfaceOf (tree text).units file.1 = declarations text := by
  have hall : ∀ text ∈ [ascending, descending], ∀ file ∈ (tree text).files,
      ProjectHost.declarationsBy (fun _ => declarations text) (LoadedUnit.ofText file.2)
        = declarations text := by
    decide
  -- a file has these declarations when those have them that it takes from
  have hof : ∀ file ∈ (tree text).files,
      (∀ source ∈ (LoadedUnit.ofText file.2).takesFrom,
        ProjectHost.interfaceOf (tree text).units source = declarations text) →
      ProjectHost.interfaceOf (tree text).units file.1 = declarations text := by
    intro file hfile hsources
    have hunit := Tree.lookup_units.mpr ⟨file.2, hfile, rfl⟩
    rw [ProjectHost.interfaceOf_of_not_onCycle hunit (not_onCycle htext _),
      ProjectHost.declarationsBy_congr hsources]
    exact hall text htext file hfile
  have hlast : ("u", text) ∈ (tree text).files := List.mem_cons_of_mem _ List.mem_cons_self
  have hsource : ProjectHost.interfaceOf (tree text).units "u" = declarations text := by
    refine hof ("u", text) hlast fun source hsource => ?_
    have htakes := takes_cases htext ⟨_, Tree.lookup_units.mpr ⟨text, hlast, rfl⟩, hsource⟩
    exact absurd htakes.1 (by decide)
  refine hof file hfile fun source htaken => ?_
  obtain ⟨_, rfl⟩ := takes_cases htext ⟨_, Tree.lookup_units.mpr ⟨file.2, hfile, rfl⟩, htaken⟩
  exact hsource

/-- The order makes no difference to a signature. -/
theorem encoding_declarations (htext : text ∈ [ascending, descending]) :
    (declarations text).encoding (ProjectHost.countsBy true)
      = Interface.declarationBytes (function "f") ++ Interface.declarationBytes (function "g") := by
  have hsorted : [function "f", function "g"].mergeSort Declaration.le = [function "f", function "g"] :=
    List.mergeSort_of_pairwise (by decide)
  have hascending : (declarations ascending).encoding (ProjectHost.countsBy true)
      = Interface.declarationBytes (function "f") ++ Interface.declarationBytes (function "g") := by
    rw [Interface.encoding, Interface.visible]
    show ([function "f", function "g"].mergeSort Declaration.le).flatMap _ = _
    rw [hsorted, List.flatMap_cons, List.flatMap_cons, List.flatMap_nil, List.append_nil]
  have hperm : ∀ text ∈ [ascending, descending],
      ((declarations text).faces (ProjectHost.countsBy true)).Perm
        ((declarations ascending).faces (ProjectHost.countsBy true)) := by
    decide
  rw [Interface.encoding_of_faces_perm (hperm text htext), hascending]

theorem comparable : Tree.Comparable true (tree ascending) (tree descending) where
  short := by
    have hshort : ∀ text ∈ [ascending, descending], ∀ file ∈ (tree text).files,
        ∀ e ∈ (Source.Contents.parse file.2).exports, ∀ text ∈ e.texts,
          (Text.Utf8.encode text).length < 2 ^ 64 := by
      decide
    exact ⟨hshort ascending (by simp), hshort descending (by simp)⟩
  digests := by
    -- the texts, and the one encoding of both orders
    let hashed := [offers, ascending, descending].map Text.Utf8.encode
      ++ [Interface.declarationBytes (function "f") ++ Interface.declarationBytes (function "g")]
    have hnodup : (hashed.map Digest.ofBytes).Nodup := by
      decide +kernel
    have htexts : ∀ text ∈ [ascending, descending], ∀ file ∈ (tree text).files,
        file.2 ∈ [offers, ascending, descending] := by
      decide
    have hmem : ∀ text ∈ [ascending, descending], ∀ x ∈ (tree text).hashed true, x ∈ hashed := by
      intro text htext x hx
      rcases List.mem_append.mp hx with hversion | hsignature
      · obtain ⟨file, hfile, rfl⟩ := List.mem_map.mp hversion
        exact List.mem_append_left _ (List.mem_map_of_mem (htexts text htext file hfile))
      · obtain ⟨file, hfile, rfl⟩ := List.mem_map.mp hsignature
        rw [interfaceOf_eq htext hfile, encoding_declarations htext]
        exact List.mem_append_right _ List.mem_cons_self
    intro x hx y hy hsame
    exact List.inj_on_of_nodup_map hnodup (hmem _ (by simp) x hx) (hmem _ (by simp) y hy) hsame
  telling := by
    have hnone : ∀ file ∈ (tree descending).files,
        (Source.Contents.parse file.2).inferredReads = [] := by
      decide
    refine ProjectHost.telling_of_cyclesKept (fun path hcycle => ?_) fun _ path unit hunit read hread => ?_
    · rcases hcycle with hcycle | hcycle
      · exact absurd hcycle (not_onCycle (by simp) path)
      · exact absurd hcycle (not_onCycle (by simp) path)
    · obtain ⟨found, hfile, rfl⟩ := Tree.lookup_units.mp hunit
      exact absurd ((hnone _ hfile).symm ▸ hread) List.not_mem_nil

/-! Building the project. -/

theorem readBytes_changed {file : UnitPath × String} (hfile : file ∈ (tree ascending).files)
    (part : EmitKind) :
    Storage.readBytes changed (host.outputPath file.1 part)
      = .ok (Text.Utf8.encode ((tree ascending).textOf file part)) := by
  have hmem : ∀ file ∈ (tree ascending).files, ∀ part,
      (host.outputPath file.1 part, (tree ascending).textOf file part) ∈ outputs := by
    intro file hfile part
    refine List.mem_flatMap.mpr ⟨file, hfile, List.mem_map_of_mem ?_⟩
    cases part <;> simp
  have houtputs : ∀ output ∈ outputs,
      host.IsOutput (tree ascending) (tree descending) output.1 := by
    intro output houtput
    obtain ⟨file, hfile, houtput⟩ := List.mem_flatMap.mp houtput
    obtain ⟨part, _, rfl⟩ := List.mem_map.mp houtput
    exact ⟨file, part, Or.inl hfile, rfl⟩
  have hnodup : (outputs.map (·.1)).Nodup := by
    decide
  have hwrites := ProjectHost.writeAll_eq accepts "" (s := disk descending) houtputs hnodup trivial
  obtain ⟨table, hwrite, _, hread, _⟩ := hwrites
  have htable : changed = table := congrArg Prod.snd hwrite
  rw [htable]
  exact hread (host.outputPath file.1 part, (tree ascending).textOf file part) (hmem file hfile part)

/-- A new program starts to build one of the trees. -/
theorem exists_start (m : Moment) {table : FileTable}
    (hholds : (host.onDisk table).Holds (m.tree (tree ascending) (tree descending))) :
    ∃ p, Program.start (host.onDisk table) {} none = .ok p
      ∧ Run (host.answers (tree ascending) (tree descending)) p m
      ∧ host.Builds (fun _ => True) Tree.empty (m.tree (tree ascending) (tree descending)) p :=
  ProjectHost.start_builds rfl (tree ascending) (tree descending) m trivial hholds {} rfl

/-- What a build of the first tree leaves is in the changed directory. -/
theorem output_changed {first p : Program (ProjectHost FileTable)}
    (hstart : Program.start (host.onDisk (disk ascending)) {} none = .ok first)
    (hp : ProjectHost.BuildsTo first p) :
    ∀ file ∈ (tree ascending).files, ∀ part,
      (p.host.onDisk changed).output file.1 part = p.host.output file.1 part := by
  obtain ⟨_, hopened, hrun, hbuilds⟩ := exists_start .before holds_ascending
  cases hstart.symm.trans hopened
  intro file hfile part
  have hsees := (hp.settled comparable accepts hrun hbuilds).1.sees.onDisk changed
  have hwritten := (hp.outputs comparable accepts hrun hbuilds hfile).1 part
    fun _ => Tree.not_retains_empty _ hfile
  rw [show p.host.output file.1 part = _ from hwritten, ProjectHost.output, hsees.outputPath_eq]
  exact readBytes_changed hfile part

/-- The first file has the same text and the same signature in both trees. -/
theorem retains : (tree ascending).Retains true (tree descending) "d" := by
  have hsignature : ∀ text ∈ [ascending, descending],
      (tree text).signatureOf true "d"
        = Digest.ofBytes (Interface.declarationBytes (function "f")
          ++ Interface.declarationBytes (function "g")) := by
    intro text htext
    have hfile : ("d", offers) ∈ (tree text).files := List.mem_cons_self
    rw [Tree.signatureOf, interfaceOf_eq htext hfile, Interface.signature,
      encoding_declarations htext]
  refine ⟨?_, (hsignature ascending (by simp)).trans (hsignature descending (by simp)).symm⟩
  have hlookup : ∀ text, (tree text).units.lookup "d" = some (LoadedUnit.ofText offers) :=
    fun text => Tree.lookup_units.mpr ⟨offers, List.mem_cons_self, rfl⟩
  rw [hlookup, hlookup]

/-- The declarations of the first file, as they are written. -/
theorem textOf_types :
    (tree ascending).textOf ("d", offers) .types = "export fn f int\nexport fn g int\n"
      ∧ (tree descending).textOf ("d", offers) .types = "export fn g int\nexport fn f int\n" := by
  have hall : ∀ text ∈ [ascending, descending], (tree text).textOf ("d", offers) .types
      = ProjectHost.declarationText (declarations text) := by
    intro text htext
    have hfile : ("d", offers) ∈ (tree text).files := List.mem_cons_self
    rw [Tree.textOf, interfaceOf_eq htext hfile]
  rw [hall ascending (by simp), hall descending (by simp)]
  decide

end Reordered

/-- After the order was changed, both files are built again as by a clean build, but for the order of the
declarations that are offered again. -/
theorem project_outputs_match_clean_reordered :
    ∃ first p second q fresh r,
      Program.start (Reordered.host.onDisk (Reordered.disk Reordered.ascending)) {} none = .ok first
        ∧ ProjectHost.BuildsTo first p
        ∧ ({ p with host := p.host.onDisk Reordered.changed }
            : Program (ProjectHost FileTable)).reportChanged ["u"] = (.ok (), second)
        ∧ ProjectHost.BuildsTo second q
        ∧ Program.start (Reordered.host.onDisk (Reordered.disk Reordered.descending)) {} none
            = .ok fresh
        ∧ ProjectHost.BuildsTo fresh r
        ∧ q.host.OutputIs "u" .full (ProjectHost.bodyText "u" Reordered.descending)
        ∧ r.host.OutputIs "u" .full (ProjectHost.bodyText "u" Reordered.descending)
        ∧ ∃ interface interface',
          q.host.OutputIs "d" .types (ProjectHost.declarationText interface)
            ∧ r.host.OutputIs "d" .types (ProjectHost.declarationText interface')
            ∧ (interface.map ProjectHost.declarationLine).Perm
                (interface'.map ProjectHost.declarationLine) := by
  obtain ⟨first, fresh, hfirst, hfresh, ⟨p, hp⟩, ⟨r, hr⟩, hchange⟩ :=
    project_outputs_match_clean Reordered.host rfl rfl Reordered.comparable Reordered.accepts trivial
      Reordered.holds_ascending trivial Reordered.holds_descending {} {} rfl rfl ["u"]
  have hkept : ∀ file ∈ (Reordered.tree Reordered.ascending).files, ∀ part text,
      p.host.OutputIs file.1 part text →
        (p.host.onDisk Reordered.changed).OutputIs file.1 part text := by
    intro file hfile part text htext
    exact (Reordered.output_changed hfirst hp file hfile part).trans htext
  obtain ⟨second, hsecond, ⟨q, hq⟩, houtputs⟩ :=
    hchange p hp Reordered.changed trivial Reordered.holds_changed hkept
  obtain ⟨_, _, interface, hqd, hrd, hperm, _⟩ := houtputs q r hq hr ("d", Reordered.offers)
    List.mem_cons_self
  obtain ⟨hqu, hru, _⟩ := houtputs q r hq hr ("u", Reordered.descending)
    (List.mem_cons_of_mem _ List.mem_cons_self)
  exact ⟨first, p, second, q, fresh, r, hfirst, hp, hsecond, hq, hfresh, hr, hqu, hru, interface, _,
    hqd, hrd, hperm⟩

/-- **Declarations can keep their old order.**  When two declarations change places, the file that offers
them again is not written again, because its signature is the same.  A clean build writes them in the new
order. -/
theorem project_outputs_reordered :
    ∃ first p second q fresh r,
      Program.start (Reordered.host.onDisk (Reordered.disk Reordered.ascending)) {} none = .ok first
        ∧ ProjectHost.BuildsTo first p
        ∧ (∀ file ∈ (Reordered.tree Reordered.ascending).files, ∀ part,
          (p.host.onDisk Reordered.changed).output file.1 part = p.host.output file.1 part)
        ∧ ({ p with host := p.host.onDisk Reordered.changed }
            : Program (ProjectHost FileTable)).reportChanged ["u"] = (.ok (), second)
        ∧ ProjectHost.BuildsTo second q
        ∧ Program.start (Reordered.host.onDisk (Reordered.disk Reordered.descending)) {} none
            = .ok fresh
        ∧ ProjectHost.BuildsTo fresh r
        ∧ q.host.OutputIs "d" .types "export fn f int\nexport fn g int\n"
        ∧ r.host.OutputIs "d" .types "export fn g int\nexport fn f int\n"
        ∧ q.host.output "d" .types ≠ r.host.output "d" .types := by
  obtain ⟨first, hfirst, hrun, hbuilds⟩ := Reordered.exists_start .before Reordered.holds_ascending
  obtain ⟨p, hp⟩ := hbuilds.exists_buildsTo
  have hkept := Reordered.output_changed hfirst hp
  obtain ⟨hsecond, hrun₁, hbuilds₁⟩ :=
    hp.takeUp Reordered.comparable Reordered.accepts hrun hbuilds trivial Reordered.holds_changed
      (fun file hfile part text htext => (hkept file hfile part).trans htext) ["u"]
  obtain ⟨q, hq⟩ := hbuilds₁.exists_buildsTo
  obtain ⟨fresh, hfresh, hrun₂, hbuilds₂⟩ :=
    Reordered.exists_start .after Reordered.holds_descending
  obtain ⟨r, hr⟩ := hbuilds₂.exists_buildsTo
  have hfile : ("d", Reordered.offers) ∈ (Reordered.tree Reordered.descending).files :=
    List.mem_cons_self
  obtain ⟨hascending, hdescending⟩ := Reordered.textOf_types
  have hqd : q.host.OutputIs "d" .types
      ((Reordered.tree Reordered.ascending).textOf ("d", Reordered.offers) .types) :=
    (hq.outputs Reordered.comparable Reordered.accepts hrun₁ hbuilds₁ hfile).2 Reordered.retains
  have hrd : r.host.OutputIs "d" .types
      ((Reordered.tree Reordered.descending).textOf ("d", Reordered.offers) .types) :=
    (hr.outputs Reordered.comparable Reordered.accepts hrun₂ hbuilds₂ hfile).1 .types
      fun _ => Tree.not_retains_empty _ hfile
  rw [hascending] at hqd
  rw [hdescending] at hrd
  refine ⟨first, p, _, q, fresh, r, hfirst, hp, hkept, hsecond, hq, hfresh, hr, hqd, hrd, ?_⟩
  intro hsame
  have hbytes := Except.ok.inj ((hqd.symm.trans hsame).trans hrd)
  exact absurd (Text.Utf8.encode_inj hbytes) (by decide)

end Rebuild
