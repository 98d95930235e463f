import Rebuild.Proofs.Drain
import Rebuild.Proofs.Project.Answers
import Rebuild.Proofs.Soundness
import Rebuild.Storage.FileTable

/-!
# Incremental builds of projects

A program over a project that went through a change agrees with a new program over the changed
project.

* `ProjectHost.start_eq`, `ProjectHost.reportChanged_eq`: programs see the tree that a storage holds;
* `ProjectHost.stores_of_run`: what a program stores at the end of a round;
* `project_incremental_eq_fresh`: after a change, every unit has the signature that a new program
  finds, and the diagnostics when what the unit reads is visible in signatures;
* `project_incremental_stale`: where inferred declarations are left out of signatures, the
  diagnostics of a unit that uses one can be out of date.
-/

namespace Rebuild

def Program.Signs {η : Type} (p : Program η) (path : UnitPath) (signature : Signature) : Prop :=
  (p.state.infoOf? path).map (·.signature) = some signature

theorem Program.Stores.signs {η β : Type} {p : Program η} {observe : List Diagnostic → β}
    {path : UnitPath} {verdict : Signature × List Diagnostic}
    (h : p.Stores observe path verdict) : p.Signs path verdict.1 := by
  obtain ⟨r, found, hr, hsignature, _, _⟩ := h
  rw [Signs, State.infoOf?, hr, ← hsignature]
  rfl

namespace ProjectHost

variable {σ : Type} [Storage σ] {h base : ProjectHost σ} {tree old new : Tree}

/-- A new program over a host that has just read a tree. -/
def opened (h : ProjectHost σ) (tree : Tree) (options : Options) : Program (ProjectHost σ) :=
  (Program.blank { h with units := tree.units } options).update tree.snapshot

/-- A program after a report, over a host that has just read a tree. -/
def informed (p : Program (ProjectHost σ)) (h : ProjectHost σ) (tree : Tree) :
    Program (ProjectHost σ) :=
  { p with host := { h with units := tree.units } }.update tree.snapshot

theorem start_eq (hholds : h.Holds tree) (hknown : Faithful h.units) (options : Options) :
    Program.start h options none = .ok (h.opened tree options) := by
  have hsnapshot : Host.snapshot h [] = (.ok tree.snapshot, { h with units := tree.units }) :=
    takeSnapshot_eq hholds hknown
  rw [Program.start, hsnapshot]
  rfl

theorem reportChanged_eq (p : Program (ProjectHost σ)) (hholds : h.Holds tree)
    (hknown : Faithful h.units) (paths : List String) :
    ({ p with host := h } : Program (ProjectHost σ)).reportChanged paths
      = (.ok (), informed p h tree) := by
  have hsnapshot : Host.snapshot h (paths.map UnitPath.normalize)
      = (.ok tree.snapshot, { h with units := tree.units }) := takeSnapshot_eq hholds hknown
  rw [Program.reportChanged, hsnapshot]
  rfl

theorem within_keeps {c : Call (ProjectHost σ)} {m : Moment} (hc : c.Within StorageOnly) :
    c.Within ((answers base old new).Keeps m) := by
  cases c with
  | edit change => exact keeps_of_storageOnly hc
  | _ => trivial

variable {p q : Program (ProjectHost σ)} {m : Moment}

/-- A caller takes a program to the end of its round, while nothing changes around the host but the
storage. -/
def DrainsTo (p q : Program (ProjectHost σ)) : Prop :=
  q.Finished ∧ ∃ calls, (∀ c ∈ calls, c.Within StorageOnly) ∧ q = (Call.play calls p).2

theorem DrainsTo.run (hdrains : DrainsTo p q) (hrun : Run (answers base old new) p m) :
    Run (answers base old new) q m := by
  obtain ⟨_, calls, hcalls, rfl⟩ := hdrains
  exact hrun.play fun c hc => within_keeps (hcalls c hc)

/-- Every round of a run can be finished. -/
theorem exists_drainsTo (hrun : Run (answers base old new) p m) : ∃ q, DrainsTo p q := by
  obtain ⟨calls, hcalls, hfinished⟩ := hrun.here.1.exists_finished
  exact ⟨_, hfinished, calls, fun c hc => hcalls c hc _, rfl⟩

variable (hcomparable : Tree.Comparable base.includeInferred old new)
variable {file : UnitPath × String} (hfile : file ∈ (m.tree old new).files)
include hcomparable hfile

/-- What a program stores at the end of a round, as far as `observe` can tell. -/
theorem stores_of_run {β : Type} (observe : UnitPath → List Diagnostic → β)
    (hobserve : ∀ path, (base.includeInferred = true ∨ ReadsTold old.units new.units path)
      ∨ ∀ found found', observe path found = observe path found')
    (hrun : Run (answers base old new) p m) (hfinished : p.Finished) :
    p.Stores (observe file.1) file.1 ((answers base old new).verdict m file.1) := by
  refine hrun.exact (versioned hcomparable) (localUpTo hcomparable hobserve) hfinished ?_
  rw [Tree.unit?_snapshot.mpr ⟨file.2, hfile, rfl⟩]
  rfl

/-- At the end of a round, every unit has its signature. -/
theorem signs_of_run (hrun : Run (answers base old new) p m) (hfinished : p.Finished) :
    p.Signs file.1 ((answers base old new).verdict m file.1).1 :=
  (stores_of_run hcomparable hfile (fun _ _ => ()) (fun _ => Or.inr fun _ _ => rfl) hrun
    hfinished).signs

/-- At the end of a round, a unit has its diagnostics too, when signatures show what it reads. -/
theorem holds_of_run (htold : base.includeInferred = true ∨ ReadsTold old.units new.units file.1)
    (hrun : Run (answers base old new) p m) (hfinished : p.Finished) :
    p.Holds file.1 ((answers base old new).verdict m file.1).1
      ((answers base old new).verdict m file.1).2 := by
  -- the diagnostics of this unit, and nothing of the other ones
  let observe (path : UnitPath) (found : List Diagnostic) : List Diagnostic :=
    if path = file.1 then found else []
  have hobserve : ∀ path, (base.includeInferred = true ∨ ReadsTold old.units new.units path)
      ∨ ∀ found found', observe path found = observe path found' := by
    intro path
    by_cases hpath : path = file.1
    · exact Or.inl (hpath ▸ htold)
    · exact Or.inr fun _ _ => (if_neg hpath).trans (if_neg hpath).symm
  have hown : observe file.1 = id := by
    funext found
    exact if_pos rfl
  have hstores := stores_of_run hcomparable hfile observe hobserve hrun hfinished
  rw [hown] at hstores
  exact hstores.holds

end ProjectHost

/-- **Project builds are sound.**  Take a project whose storage holds one tree and later another one,
such that versions and signatures tell the two apart.  A program that finished a round on the first
tree, was told of the change and finished another round, has for every file of the second tree the
signature that a new program finds.  It has the diagnostics that a new program finds as well, when
inferred declarations enter signatures, or no member that the file reads comes or goes in a unit that
looks the same without them.  No request fails, and every round can be finished. -/
theorem project_incremental_eq_fresh {σ : Type} [Storage σ] (host : ProjectHost σ)
    (hcold : host.units = []) {old new : Tree}
    (hcomparable : Tree.Comparable host.includeInferred old new) {disk disk₁ disk₂ : σ}
    (hold : (host.onDisk disk).Holds old) (hnew : (host.onDisk disk₁).Holds new)
    (hnew' : (host.onDisk disk₂).Holds new) (options options' : Options) (paths : List String) :
    ∃ first fresh, Program.start (host.onDisk disk) options none = .ok first
      ∧ Program.start (host.onDisk disk₂) options' none = .ok fresh
      ∧ (∃ p, ProjectHost.DrainsTo first p) ∧ (∃ r, ProjectHost.DrainsTo fresh r)
      ∧ ∀ p, ProjectHost.DrainsTo first p → ∃ second,
        ({ p with host := p.host.onDisk disk₁ } : Program (ProjectHost σ)).reportChanged paths
            = (.ok (), second)
          ∧ (∃ q, ProjectHost.DrainsTo second q)
          ∧ ∀ q r, ProjectHost.DrainsTo second q → ProjectHost.DrainsTo fresh r →
            ∀ file ∈ new.files, ∃ signature, q.Signs file.1 signature ∧ r.Signs file.1 signature
              ∧ (host.includeInferred = true ∨ ProjectHost.ReadsTold old.units new.units file.1 →
                ∃ diagnostics, q.Holds file.1 signature diagnostics
                  ∧ r.Holds file.1 signature diagnostics) := by
  have hempty : ProjectHost.Faithful host.units := by
    rw [hcold]
    exact ProjectHost.faithful_nil
  have hstart := ProjectHost.start_eq hold hempty options
  have hstart' := ProjectHost.start_eq hnew' hempty options'
  have hfirst : Run (host.answers old new) _ .before :=
    .start hstart rfl ⟨disk, rfl⟩
  have hfresh : Run (host.answers old new) _ .after :=
    .start hstart' rfl ⟨disk₂, rfl⟩
  refine ⟨_, _, hstart, hstart', ProjectHost.exists_drainsTo hfirst,
    ProjectHost.exists_drainsTo hfresh, fun p hp => ?_⟩
  -- when the change is reported, the host has its settings still, and knows the old tree
  have hdrained := hp.run hfirst
  have hsees : ProjectHost.Sees host old p.host := hdrained.here.2
  have hknown : ProjectHost.Faithful (p.host.onDisk disk₁).units := by
    rw [(hsees.onDisk disk₁).units_eq]
    exact ProjectHost.faithful_units old
  have hreport := ProjectHost.reportChanged_eq p (hsees.holds hnew) hknown paths
  have hsecond : Run (host.answers old new) _ .after :=
    .report hdrained hp.1 hreport rfl ((hsees.onDisk disk₁).reread new)
  refine ⟨_, hreport, ProjectHost.exists_drainsTo hsecond,
    fun q r hq hr file hfile => ?_⟩
  have hfile' : file ∈ (Moment.after.tree old new).files := hfile
  refine ⟨_, ProjectHost.signs_of_run hcomparable hfile' (hq.run hsecond) hq.1,
    ProjectHost.signs_of_run hcomparable hfile' (hr.run hfresh) hr.1, fun htold => ?_⟩
  exact ⟨_, ProjectHost.holds_of_run hcomparable hfile' htold (hq.run hsecond) hq.1,
    ProjectHost.holds_of_run hcomparable hfile' htold (hr.run hfresh) hr.1⟩

/-! ### A project with a cycle -/

namespace Circular

/-- A use of a member of another file, in a file that republishes a third one. -/
def uses : String := "import \"a\"\nuse \"a\".f\nexport * from \"d\""

/-- The third file, which republishes that one. -/
def republishes : String := "export * from \"b\""

/-- The same with another line in front. -/
def edited : String := "let x = 1\nexport * from \"b\""

/-- A file with some text, the one that uses a member of it, and the third one. -/
def tree (text third : String) : Tree where
  files := [("a", text), ("b", uses), ("d", third)]
  single := by
    intro path first second hfirst hsecond
    simp only [List.mem_cons, List.not_mem_nil, or_false, Prod.mk.injEq] at hfirst hsecond
    grind
  normal := by
    intro path found h
    simp only [List.mem_cons, List.not_mem_nil, or_false, Prod.mk.injEq] at h
    have hnormal : ∀ path ∈ ["a", "b", "d"], UnitPath.normalize path = path := by decide +kernel
    exact hnormal path (by grind)

def declares : String := "export fn f int"

/-- A member that is inferred from a unit which is not there. -/
def infers : String := "export let f = \"c\".f"

def disk (tree : Tree) : FileTable :=
  tree.files.foldl
    (fun table file => table.addFile (DiskPath.join "p" file.1) (Text.Utf8.encode file.2)) {}

/-- A new host of that directory. -/
def host (inferred : Bool) : ProjectHost FileTable where
  storage := {}
  root := "p"
  matcher := ⟨[[.many]], none⟩
  outDir := "out"
  includeInferred := inferred

def texts : List String := [declares, infers, ""]

theorem holds (inferred : Bool) {text third : String} (htext : text ∈ texts)
    (hthird : third ∈ [republishes, edited]) :
    ((host inferred).onDisk (disk (tree text third))).Holds (tree text third) := by
  have hfound : ∀ inferred, ∀ text ∈ texts, ∀ third ∈ [republishes, edited],
      let h := (host inferred).onDisk (disk (tree text third))
      h.matcher.scanFrom h.storage h.root (Storage.entryCount h.storage + 1) [h.root] []
          = .ok ((tree text third).files.map (·.1))
        ∧ ((tree text third).files.map (·.1)).Pairwise (· ≤ ·)
        ∧ ∀ file ∈ (tree text third).files,
          Storage.readText h.storage (DiskPath.join h.root file.1) = .ok file.2 := by
    decide +kernel
  obtain ⟨hscan, hsorted, hread⟩ := hfound inferred text htext third hthird
  exact .of_sorted hscan hsorted hread

/-- The second and the third file take declarations from each other, and nothing else is taken. -/
theorem takes {text third : String} (htext : text ∈ [declares, ""])
    (hthird : third ∈ [republishes, edited]) {path source : UnitPath}
    (h : ProjectHost.Takes (tree text third).units path source) :
    path ∈ ["b", "d"] ∧ source ∈ ["b", "d"] := by
  have hall : ∀ text ∈ [declares, ""], ∀ third ∈ [republishes, edited],
      ∀ file ∈ (tree text third).files, ∀ source ∈ (LoadedUnit.ofText file.2).takesFrom,
        file.1 ∈ ["b", "d"] ∧ source ∈ ["b", "d"] := by
    decide +kernel
  obtain ⟨unit, hunit, hsource⟩ := h
  obtain ⟨found, hfile, rfl⟩ := Tree.lookup_units.mp hunit
  exact hall text htext third hthird (path, found) hfile source hsource

theorem mem_of_reachable {text third : String} (htext : text ∈ [declares, ""])
    (hthird : third ∈ [republishes, edited]) {path other : UnitPath}
    (hcycle : ProjectHost.OnCycle (tree text third).units path)
    {text' third' : String} (htext' : text' ∈ [declares, ""]) (hthird' : third' ∈ [republishes, edited])
    (h : Relation.ReflTransGen (ProjectHost.Takes (tree text' third').units) path other) :
    other ∈ ["b", "d"] := by
  obtain ⟨_, hfirst, _⟩ := Relation.TransGen.head'_iff.mp hcycle
  rcases h.cases_tail with rfl | ⟨_, _, hlast⟩
  · exact (takes htext hthird hfirst).1
  · exact (takes htext' hthird' hlast).2

/-- The edit leaves what the third file republishes. -/
theorem cyclesKept :
    ProjectHost.CyclesKept (tree declares republishes).units (tree "" edited).units := by
  have hmem : ∀ path,
      ProjectHost.OnCycle (tree declares republishes).units path
          ∨ ProjectHost.OnCycle (tree "" edited).units path →
        ∀ other, Relation.ReflTransGen (ProjectHost.Takes (tree declares republishes).units) path other →
          other ∈ ["b", "d"] := by
    intro path hcycle other hreach
    rcases hcycle with hcycle | hcycle
    · exact mem_of_reachable (by simp) (by simp) hcycle (by simp) (by simp) hreach
    · exact mem_of_reachable (by simp) (by simp) hcycle (by simp) (by simp) hreach
  have hlines :
      ((LoadedUnit.ofText republishes).contents.exports.map (·.unnumbered)
          = (LoadedUnit.ofText edited).contents.exports.map (·.unnumbered))
        ∧ ((LoadedUnit.ofText republishes).contents.imports.filter (·.reexport)).map (·.path)
          = ((LoadedUnit.ofText edited).contents.imports.filter (·.reexport)).map (·.path) := by
    decide +kernel
  intro path hcycle other hreach
  have hother := hmem path hcycle other hreach
  simp only [List.mem_cons, List.not_mem_nil, or_false] at hother
  rcases hother with rfl | rfl
  · have hfile : ∀ text third : String, (tree text third).units.lookup "b" = some (.ofText uses) :=
      fun text third => Tree.lookup_units.mpr ⟨uses, by simp [tree], rfl⟩
    rw [hfile, hfile]
    exact .some (.refl _)
  · have hfile : ∀ text third : String, (tree text third).units.lookup "d" = some (.ofText third) :=
      fun text third => Tree.lookup_units.mpr ⟨third, by simp [tree], rfl⟩
    rw [hfile, hfile]
    exact .some (.of_lines hlines.1 hlines.2)

theorem unambiguous : ProjectHost.Unambiguous (tree "" edited).units := by
  have hnone : ∀ file ∈ (tree "" edited).files,
      (LoadedUnit.ofText file.2).contents.inferredReads = [] := by
    decide +kernel
  intro path unit hunit read hread
  obtain ⟨found, hfile, rfl⟩ := Tree.lookup_units.mp hunit
  rw [hnone _ hfile] at hread
  cases hread

theorem comparable : Tree.Comparable true (tree declares republishes) (tree "" edited) where
  short := by
    have hshort : ∀ found ∈ [tree declares republishes, tree "" edited], ∀ file ∈ found.files,
        ∀ e ∈ (Source.Contents.parse file.2).exports, ∀ text ∈ e.texts,
          (Text.Utf8.encode text).length < 2 ^ 64 := by
      decide +kernel
    exact ⟨hshort _ (by simp), hshort _ (by simp)⟩
  digests := by
    have hdigests : ∀ x ∈ (tree declares republishes).hashed true, ∀ y ∈ (tree "" edited).hashed true,
        x = y ∨ Digest.ofBytes x ≠ Digest.ofBytes y := by
      decide +kernel
    intro x hx y hy hsame
    exact (hdigests x hx y hy).resolve_right fun hne => hne hsame
  telling := ProjectHost.telling_of_cyclesKept cyclesKept fun _ => unambiguous

/-- A new program. -/
def opened (inferred : Bool) (tree : Tree) : Program (ProjectHost FileTable) :=
  ((host inferred).onDisk (disk tree)).opened tree {}

/-- A program after three pulls. -/
def pulled (p : Program (ProjectHost FileTable)) : Program (ProjectHost FileTable) :=
  (Call.play [.check, .check, .check] p).2

/-- A new program that pulled three times, and was then told of another tree. -/
def changed (inferred : Bool) (old new : Tree) : Program (ProjectHost FileTable) :=
  ProjectHost.informed (pulled (opened inferred old))
    ((pulled (opened inferred old)).host.onDisk (disk new)) new

theorem drainsTo_pulled {p : Program (ProjectHost FileTable)} (h : (pulled p).Finished) :
    ProjectHost.DrainsTo p (pulled p) :=
  ⟨h, [.check, .check, .check], by simp [Call.Within], rfl⟩

theorem start_opened (inferred : Bool) {text : String} (htext : text ∈ texts) :
    Program.start ((host inferred).onDisk (disk (tree text republishes))) {} none
      = .ok (opened inferred (tree text republishes)) :=
  ProjectHost.start_eq (holds inferred htext (by simp)) ProjectHost.faithful_nil {}

theorem report_changed (inferred : Bool) {text text' : String} (htext : text ∈ texts)
    (htext' : text' ∈ texts)
    (h : (pulled (opened inferred (tree text republishes))).Finished) :
    ({ pulled (opened inferred (tree text republishes)) with
        host := (pulled (opened inferred (tree text republishes))).host.onDisk
          (disk (tree text' republishes)) } : Program (ProjectHost FileTable)).reportChanged ["a"]
      = (.ok (), changed inferred (tree text republishes) (tree text' republishes)) := by
  have hrun : Run ((host inferred).answers (tree text republishes) (tree text' republishes))
      (opened inferred (tree text republishes)) .before :=
    .start (start_opened inferred htext) rfl ⟨_, rfl⟩
  have hsees : ProjectHost.Sees (host inferred) (tree text republishes)
      (pulled (opened inferred (tree text republishes))).host :=
    ((drainsTo_pulled h).run hrun).here.2
  have hknown : ProjectHost.Faithful
      ((pulled (opened inferred (tree text republishes))).host.onDisk
        (disk (tree text' republishes))).units := by
    rw [(hsees.onDisk (disk (tree text' republishes))).units_eq]
    exact ProjectHost.faithful_units (tree text republishes)
  exact ProjectHost.reportChanged_eq (pulled (opened inferred (tree text republishes)))
    (hsees.holds (holds inferred htext' (by simp))) hknown ["a"]

end Circular

/-- When a member is removed while an implementation line on a cycle is edited, the unit that uses the
member is found out as by a new program. -/
theorem project_incremental_eq_fresh_circular :
    ∃ first p second q fresh r,
      Program.start ((Circular.host true).onDisk
          (Circular.disk (Circular.tree Circular.declares Circular.republishes))) {} none = .ok first
        ∧ ProjectHost.DrainsTo first p
        ∧ ({ p with host := p.host.onDisk (Circular.disk (Circular.tree "" Circular.edited)) }
            : Program (ProjectHost FileTable)).reportChanged ["a", "d"] = (.ok (), second)
        ∧ ProjectHost.DrainsTo second q
        ∧ Program.start ((Circular.host true).onDisk
            (Circular.disk (Circular.tree "" Circular.edited))) {} none = .ok fresh
        ∧ ProjectHost.DrainsTo fresh r
        ∧ ∃ signature diagnostics,
          q.Holds "b" signature diagnostics ∧ r.Holds "b" signature diagnostics := by
  have hold : ((Circular.host true).onDisk
      (Circular.disk (Circular.tree Circular.declares Circular.republishes))).Holds
        (Circular.tree Circular.declares Circular.republishes) :=
    Circular.holds true (by simp [Circular.texts]) (by simp)
  have hnew : ((Circular.host true).onDisk
      (Circular.disk (Circular.tree "" Circular.edited))).Holds (Circular.tree "" Circular.edited) :=
    Circular.holds true (by simp [Circular.texts]) (by simp)
  have hfile : ("b", Circular.uses) ∈ (Circular.tree "" Circular.edited).files :=
    List.mem_cons_of_mem _ List.mem_cons_self
  obtain ⟨first, fresh, hfirst, hfresh, ⟨p, hp⟩, ⟨r, hr⟩, hchange⟩ :=
    project_incremental_eq_fresh (Circular.host true) rfl Circular.comparable hold hnew hnew
      {} {} ["a", "d"]
  obtain ⟨second, hsecond, ⟨q, hq⟩, hagree⟩ := hchange p hp
  obtain ⟨signature, _, _, hholds⟩ := hagree q r hq hr ("b", Circular.uses) hfile
  obtain ⟨diagnostics, hqb, hrb⟩ := hholds (Or.inl rfl)
  exact ⟨first, p, second, q, fresh, r, hfirst, hp, hsecond, hq, hfresh, hr, signature, diagnostics,
    hqb, hrb⟩

/-- **Inferred members can go unnoticed.**  Where inferred declarations do not enter signatures, a
unit that uses one is not rechecked when it is removed, and its diagnostics are out of date. -/
theorem project_incremental_stale :
    ∃ first p second q fresh r,
      Program.start ((Circular.host false).onDisk
          (Circular.disk (Circular.tree Circular.infers Circular.republishes))) {} none = .ok first
        ∧ ProjectHost.DrainsTo first p
        ∧ ({ p with host := p.host.onDisk (Circular.disk (Circular.tree "" Circular.republishes)) }
            : Program (ProjectHost FileTable)).reportChanged ["a"] = (.ok (), second)
        ∧ ProjectHost.DrainsTo second q
        ∧ Program.start ((Circular.host false).onDisk
            (Circular.disk (Circular.tree "" Circular.republishes))) {} none = .ok fresh
        ∧ ProjectHost.DrainsTo fresh r
        ∧ q.cache.get? "b" = some []
        ∧ r.cache.get? "b" = some [ProjectHost.noMember "b" "a" "f" 2] := by
  have hvalues :
      let old := Circular.tree Circular.infers Circular.republishes
      let new := Circular.tree "" Circular.republishes
      (Circular.pulled (Circular.opened false old)).Finished
        ∧ (Circular.pulled (Circular.changed false old new)).Finished
        ∧ (Circular.pulled (Circular.opened false new)).Finished
        ∧ (Circular.pulled (Circular.changed false old new)).cache.get? "b" = some []
        ∧ (Circular.pulled (Circular.opened false new)).cache.get? "b"
          = some [ProjectHost.noMember "b" "a" "f" 2] := by
    decide +kernel
  obtain ⟨hp, hq, hr, hqb, hrb⟩ := hvalues
  have hinfers : Circular.infers ∈ Circular.texts := by simp [Circular.texts]
  have hempty : "" ∈ Circular.texts := by simp [Circular.texts]
  exact ⟨_, _, _, _, _, _, Circular.start_opened false hinfers, Circular.drainsTo_pulled hp,
    Circular.report_changed false hinfers hempty hp, Circular.drainsTo_pulled hq,
    Circular.start_opened false hempty, Circular.drainsTo_pulled hr, hqb, hrb⟩

end Rebuild
