import Mathlib.Data.List.Perm.Basic
import Mathlib.Logic.Relation
import Rebuild.Proofs.Project.Interface

/-!
# Units in the same surroundings

What a signature shows of the units that a unit mentions determines what it shows of the unit itself, and what
a check of it finds.  There are three exceptions: a unit on a cycle of taken declarations is read while others
are being visited, so that a part of what it declares is cut off; an inferred export reads the first of
several declarations with one name; and inferred declarations may be left out of signatures while checks still
see their names.

* `ProjectHost.SameFaces`: two interfaces that a signature cannot tell apart;
* `ProjectHost.Framed`, `ProjectHost.Undisturbed`: units with the same texts and the same surroundings in two
  tables;
* `ProjectHost.Telling`: where undisturbed units read, equal signatures tell that nothing changed;
* `ProjectHost.Telling.sameFaces`: the interfaces of undisturbed units look the same to a signature;
* `ProjectHost.Telling.checkContents_eq`: their checks find the same;
* `ProjectHost.telling_of_cyclesKept`: signatures tell enough when cycles offer the same and no inferred
  export can read two shapes.
-/

namespace Rebuild

/-! ### What a unit reads -/

namespace Source

/-- The member of another unit that an inferred export reads. -/
def Export.read? : Export → Option (UnitPath × String)
  | .declared .. => none
  | .inferred _ source member _ => some (source, member)

namespace Contents

/-- The units that a unit text names. -/
def mentions (contents : Contents) : List UnitPath :=
  contents.imports.map (·.path) ++ contents.exports.filterMap (·.source?)

/-- The members of other units that the inferred exports of a unit text read. -/
def inferredReads (contents : Contents) : List (UnitPath × String) :=
  contents.exports.filterMap (·.read?)

/-- The members of other units that a unit text reads. -/
def reads (contents : Contents) : List (UnitPath × String) :=
  contents.inferredReads ++ contents.uses.map fun site => (site.source, site.member)

theorem source_mem_of_mem_inferredReads {contents : Contents} {read : UnitPath × String}
    (h : read ∈ contents.inferredReads) : read.1 ∈ contents.exports.filterMap (·.source?) := by
  obtain ⟨e, he, hread⟩ := List.mem_filterMap.mp h
  refine List.mem_filterMap.mpr ⟨e, he, ?_⟩
  cases e with
  | declared kind name shape line => cases hread
  | inferred name source member line =>
      cases hread
      rfl

end Contents

end Source

/-- The units whose declarations show in the signature of a unit: those that it re-exports, and the sources of
its inferred exports if inferred declarations enter signatures. -/
def LoadedUnit.shownFrom (inferred : Bool) (unit : LoadedUnit) : List UnitPath :=
  (unit.contents.imports.filter (·.reexport)).map (·.path)
    ++ if inferred then unit.contents.exports.filterMap (·.source?) else []

/-- The shape of the first declaration with a name. -/
def Interface.shapeOf? (interface : Interface) (name : String) : Option String :=
  (interface.find? fun d => d.name == name).map (·.shape)

namespace ProjectHost

variable {units units' : Units} {visiting : List UnitPath} {path a b : UnitPath} {unit : LoadedUnit}
variable {inferred : Bool}

theorem mem_mentions_of_mem_takesFrom (h : path ∈ unit.takesFrom) :
    path ∈ unit.contents.mentions := by
  rcases List.mem_append.mp h with himport | hsource
  · obtain ⟨i, hi, rfl⟩ := List.mem_map.mp himport
    exact List.mem_append_left _ (List.mem_map_of_mem (List.mem_filter.mp hi).1)
  · exact List.mem_append_right _ hsource

theorem mem_takesFrom_of_mem_shownFrom (h : path ∈ unit.shownFrom inferred) : path ∈ unit.takesFrom := by
  rcases List.mem_append.mp h with himport | hsource
  · exact List.mem_append_left _ himport
  · cases inferred with
    | false => cases hsource
    | true => exact List.mem_append_right _ hsource

theorem mem_shownFrom_of_read {read : UnitPath × String} (h : read ∈ unit.contents.inferredReads) :
    read.1 ∈ unit.shownFrom true :=
  List.mem_append_right _ (Source.Contents.source_mem_of_mem_inferredReads h)

/-! ### What a signature shows -/

/-- Whether a declaration enters signatures, when inferred ones do and when they do not. -/
def countsBy (inferred : Bool) (d : Declaration) : Bool :=
  inferred || !d.inferred

/-- A signature cannot tell two interfaces apart. -/
def SameFaces (inferred : Bool) (i j : Interface) : Prop :=
  (i.faces (countsBy inferred)).Perm (j.faces (countsBy inferred))

namespace SameFaces

variable {i j : Interface}

theorem refl (inferred : Bool) (i : Interface) : SameFaces inferred i i :=
  List.Perm.refl _

theorem symm (h : SameFaces inferred i j) : SameFaces inferred j i :=
  List.Perm.symm h

/-- What is visible in one of the interfaces has its like in the other. -/
theorem exists_face (h : SameFaces inferred i j) {d : Declaration} (hd : d ∈ i)
    (hcounts : countsBy inferred d = true) : ∃ e ∈ j, e.face = d.face := by
  have hface : d.face ∈ i.faces (countsBy inferred) :=
    List.mem_map_of_mem (List.mem_filter.mpr ⟨hd, hcounts⟩)
  obtain ⟨e, he, hsame⟩ := List.mem_map.mp (h.mem_iff.mp hface)
  exact ⟨e, (List.mem_filter.mp he).1, hsame⟩

/-- Where a name has one shape only, the first declaration with that name has it. -/
theorem shapeOf?_eq (h : SameFaces true i j) {member : String}
    (hone : ∀ d ∈ j, ∀ e ∈ j, d.name = member → e.name = member → d.shape = e.shape) :
    i.shapeOf? member = j.shapeOf? member := by
  rw [Interface.shapeOf?, Interface.shapeOf?]
  cases hi : i.find? fun d => d.name == member with
  | none =>
      cases hj : j.find? fun d => d.name == member with
      | none => rfl
      | some e =>
          obtain ⟨d, hd, hface⟩ := h.symm.exists_face (List.mem_of_find?_eq_some hj) rfl
          have hname : e.name = member := by simpa using List.find?_some hj
          have hother := List.find?_eq_none.mp hi d hd
          simp only [Declaration.face, Prod.mk.injEq] at hface
          rw [hface.2.1, hname] at hother
          simp at hother
  | some d =>
      obtain ⟨e, he, hface⟩ := h.exists_face (List.mem_of_find?_eq_some hi) rfl
      have hname : d.name = member := by simpa using List.find?_some hi
      simp only [Declaration.face, Prod.mk.injEq] at hface
      have hsome : (j.find? fun d => d.name == member).isSome = true := by
        rw [List.find?_isSome]
        exact ⟨e, he, by simp [hface.2.1, hname]⟩
      obtain ⟨first, hfirst⟩ := Option.isSome_iff_exists.mp hsome
      have hfirstName : first.name = member := by simpa using List.find?_some hfirst
      have hshape := hone e he first (List.mem_of_find?_eq_some hfirst)
        (hface.2.1.trans hname) hfirstName
      rw [hfirst, Option.map_some, Option.map_some, ← hshape, hface.2.2]

/-- Where inferred declarations are visible, interfaces that look the same declare the same names. -/
theorem any_name_eq (h : SameFaces true i j) (name : String) :
    (i.any fun d => d.name == name) = j.any fun d => d.name == name := by
  have hnames : ∀ {i j : Interface}, SameFaces true i j → (∃ d ∈ i, d.name = name) → ∃ d ∈ j, d.name = name := by
    rintro i j h ⟨d, hd, rfl⟩
    obtain ⟨e, he, hface⟩ := h.exists_face hd rfl
    exact ⟨e, he, congrArg (fun face => face.2.1) hface⟩
  rw [Bool.eq_iff_iff]
  simp only [List.any_eq_true, beq_iff_eq]
  exact ⟨hnames h, hnames h.symm⟩

end SameFaces

/-- **What is taken determines what is offered.**  A signature cannot tell the declarations of a unit
apart when it cannot tell those apart that the unit shows, and the inferred exports read the same shapes. -/
theorem sameFaces_declarationsBy {interface interface' : UnitPath → Interface}
    (h : ∀ source ∈ unit.shownFrom inferred, SameFaces inferred (interface source) (interface' source))
    (hreads : inferred = true → ∀ read ∈ unit.contents.inferredReads,
      (interface read.1).shapeOf? read.2 = (interface' read.1).shapeOf? read.2) :
    SameFaces inferred (declarationsBy interface unit) (declarationsBy interface' unit) := by
  rw [SameFaces, Interface.faces, Interface.faces, declarationsBy, declarationsBy,
    List.filter_append, List.filter_append, List.map_append, List.map_append]
  refine List.Perm.append ?_ ?_
  · -- an own export has the same face in both, or is not visible
    have hown : ∀ e ∈ unit.contents.exports,
        countsBy inferred (declarationBy interface e) = countsBy inferred (declarationBy interface' e)
          ∧ (countsBy inferred (declarationBy interface' e) = true →
            (declarationBy interface e).face = (declarationBy interface' e).face) := by
      intro e he
      cases e with
      | declared kind name shape line => exact ⟨rfl, fun _ => rfl⟩
      | inferred name source member line =>
          refine ⟨rfl, fun hcounts => ?_⟩
          have hon : inferred = true := by simpa [countsBy, declarationBy] using hcounts
          have hshape := hreads hon (source, member) (List.mem_filterMap.mpr ⟨_, he, rfl⟩)
          rw [Interface.shapeOf?, Interface.shapeOf?] at hshape
          rw [declarationBy, declarationBy, hshape]
    rw [List.filter_map, List.filter_map, List.map_map, List.map_map]
    have hkept : unit.contents.exports.filter (countsBy inferred ∘ declarationBy interface)
        = unit.contents.exports.filter (countsBy inferred ∘ declarationBy interface') :=
      List.filter_congr fun e he => (hown e he).1
    rw [hkept]
    refine List.Perm.of_eq (List.map_congr_left fun e he => ?_)
    obtain ⟨hmem, hcounts⟩ := List.mem_filter.mp he
    exact (hown e hmem).2 hcounts
  · rw [List.filter_flatMap, List.filter_flatMap, List.map_flatMap, List.map_flatMap]
    refine List.Perm.flatMap_left _ fun i hi => ?_
    exact h i.path (List.mem_append_left _ (List.mem_map_of_mem hi))

/-! ### Surroundings -/

/-- The units of `U` are the same in both tables, and each unit that they mention is in `U`, or in
neither table, or in both with interfaces that a signature cannot tell apart. -/
def Framed (inferred : Bool) (units units' : Units) (U : UnitPath → Prop) : Prop :=
  ∀ path, U path → ∃ unit, units.lookup path = some unit ∧ units'.lookup path = some unit
    ∧ ∀ other ∈ unit.contents.mentions, U other
      ∨ (units.lookup other = none ∧ units'.lookup other = none)
      ∨ (has units other = true ∧ has units' other = true
        ∧ SameFaces inferred (interfaceOf units other) (interfaceOf units' other))

/-- Nothing that texts and signatures show of two tables is a reason to recheck the unit. -/
def Undisturbed (inferred : Bool) (units units' : Units) (path : UnitPath) : Prop :=
  ∃ U, Framed inferred units units' U ∧ U path

theorem framed_undisturbed (inferred : Bool) (units units' : Units) :
    Framed inferred units units' (Undisturbed inferred units units') := by
  rintro path ⟨U, hframed, hpath⟩
  obtain ⟨unit, hunit, hunit', hmentions⟩ := hframed path hpath
  exact ⟨unit, hunit, hunit', fun other hother => (hmentions other hother).imp_left fun hin => ⟨U, hframed, hin⟩⟩

/-- An undisturbed unit shows declarations of another one. -/
def Leads (inferred : Bool) (units units' : Units) (a b : UnitPath) : Prop :=
  Undisturbed inferred units units' a ∧ ∃ unit, units.lookup a = some unit ∧ b ∈ unit.shownFrom inferred

/-- A unit is visited from an undisturbed one, through undisturbed units that show declarations of one another.
The list has the units that are being visited then, the last one first. -/
inductive OnTheWay (inferred : Bool) (units units' : Units) : List UnitPath → UnitPath → Prop
  | start (path : UnitPath) : OnTheWay inferred units units' [] path
  | step {visiting : List UnitPath} {a b : UnitPath} (way : OnTheWay inferred units units' visiting a)
      (fresh : a ∉ visiting) (leads : Leads inferred units units' a b) :
      OnTheWay inferred units units' (a :: visiting) b

/-- All units that are being visited lead to the one that is visited now. -/
theorem OnTheWay.leads (h : OnTheWay inferred units units' visiting path) :
    ∀ other ∈ visiting, Relation.TransGen (Leads inferred units units') other path := by
  induction h with
  | start path =>
      intro other hother
      cases hother
  | step way fresh leads ih =>
      intro other hother
      rcases List.mem_cons.mp hother with rfl | hbefore
      · exact .single leads
      · exact (ih other hbefore).tail leads

/-- **Equal signatures tell enough.**  What the signatures of two tables leave open makes no difference to
undisturbed units. -/
structure Telling (inferred : Bool) (units units' : Units) : Prop where
  /-- A unit that looks the same as a whole looks the same where it is visited through undisturbed units, so
  that a cycle is cut off. -/
  cut : ∀ visiting path, OnTheWay inferred units units' visiting path →
    SameFaces inferred (interfaceOf units path) (interfaceOf units' path) →
      SameFaces inferred (interfaceFrom units visiting path) (interfaceFrom units' visiting path)
  /-- An inferred export of an undisturbed unit finds the same shape first, where its source looks the same. -/
  first : inferred = true → ∀ visiting reader unit, OnTheWay inferred units units' visiting reader →
    reader ∉ visiting → Undisturbed inferred units units' reader → units.lookup reader = some unit →
    ∀ read ∈ unit.contents.inferredReads,
      SameFaces true (interfaceFrom units (reader :: visiting) read.1)
        (interfaceFrom units' (reader :: visiting) read.1) →
      (interfaceFrom units (reader :: visiting) read.1).shapeOf? read.2
        = (interfaceFrom units' (reader :: visiting) read.1).shapeOf? read.2

namespace Telling

/-- Undisturbed units look the same, also where a cycle is cut off. -/
theorem sameFaces_from (h : Telling inferred units units') (hway : OnTheWay inferred units units' visiting path)
    (hpath : Undisturbed inferred units units' path) :
    SameFaces inferred (interfaceFrom units visiting path) (interfaceFrom units' visiting path) := by
  -- by induction on the number of units that are not being visited
  induction hsize : unvisited units visiting using Nat.strongRecOn generalizing visiting path with
  | ind size ih =>
      by_cases hmem : path ∈ visiting
      · rw [interfaceFrom_of_mem hmem, interfaceFrom_of_mem hmem]
        exact SameFaces.refl _ _
      · obtain ⟨unit, hunit, hunit', hmentions⟩ := framed_undisturbed inferred units units' path hpath
        have hsources : ∀ source ∈ unit.shownFrom inferred,
            SameFaces inferred (interfaceFrom units (path :: visiting) source)
              (interfaceFrom units' (path :: visiting) source) := by
          intro source hsource
          have hbelow : OnTheWay inferred units units' (path :: visiting) source :=
            .step hway hmem ⟨hpath, unit, hunit, hsource⟩
          rcases hmentions source (mem_mentions_of_mem_takesFrom (mem_takesFrom_of_mem_shownFrom hsource))
            with hin | ⟨hgone, hgone'⟩ | ⟨_, _, hsame⟩
          · have hless := unvisited_cons_lt hunit hmem
            rw [hsize] at hless
            exact ih _ hless hbelow hin rfl
          · rw [interfaceFrom_of_none hgone, interfaceFrom_of_none hgone']
            exact SameFaces.refl _ _
          · exact h.cut _ _ hbelow hsame
        rw [interfaceFrom_of_fresh hunit hmem, interfaceFrom_of_fresh hunit' hmem]
        refine sameFaces_declarationsBy hsources fun hon read hread => ?_
        have hsource := mem_shownFrom_of_read hread
        rw [← hon] at hsource
        have hsame := hsources read.1 hsource
        rw [hon] at hsame
        exact h.first hon visiting path unit hway hmem hpath hunit read hread hsame

/-- **Signatures do not see beyond the surroundings.**  Units with the same texts and the same
surroundings have interfaces that a signature cannot tell apart. -/
theorem sameFaces (h : Telling inferred units units') (hpath : Undisturbed inferred units units' path) :
    SameFaces inferred (interfaceOf units path) (interfaceOf units' path) :=
  h.sameFaces_from (.start path) hpath

end Telling

/-! ### Checks -/

theorem checkExports_congr {exports : List Source.Export} {names : List String}
    (hhas : ∀ source ∈ exports.filterMap (·.source?), has units source = has units' source)
    (hreads : ∀ read ∈ exports.filterMap (·.read?),
      exportsMember units read.1 read.2 = exportsMember units' read.1 read.2) :
    checkExports units path names exports = checkExports units' path names exports := by
  induction exports generalizing names with
  | nil => rfl
  | cons e exports ih =>
      cases e with
      | declared kind name shape line => simp only [checkExports, ih hhas hreads]
      | inferred name source member line =>
          have hsource := hhas source List.mem_cons_self
          have hmember := hreads (source, member) List.mem_cons_self
          have hrest : ∀ names, checkExports units path names exports
              = checkExports units' path names exports := fun names =>
            ih (fun other hother => hhas other (List.mem_cons_of_mem _ hother))
              fun read hread => hreads read (List.mem_cons_of_mem _ hread)
          simp only [checkExports, hrest, hsource, hmember]

/-- **A check depends on what it reads**: which of the units that are mentioned are there, and which of the
members that are read they export. -/
theorem checkContents_congr {contents : Source.Contents}
    (hhas : ∀ other ∈ contents.mentions, has units other = has units' other)
    (hreads : ∀ read ∈ contents.reads, read.1 ∈ contents.mentions →
      exportsMember units read.1 read.2 = exportsMember units' read.1 read.2) :
    checkContents units path contents = checkContents units' path contents := by
  have himports : contents.imports.flatMap (checkImport units path)
      = contents.imports.flatMap (checkImport units' path) := by
    rw [List.flatMap_def, List.flatMap_def]
    congr 1
    refine List.map_congr_left fun i hi => ?_
    rw [checkImport, checkImport, hhas i.path (List.mem_append_left _ (List.mem_map_of_mem hi))]
  have hexports : checkExports units path [] contents.exports
      = checkExports units' path [] contents.exports := by
    refine checkExports_congr (fun source hsource => hhas source (List.mem_append_right _ hsource))
      fun read hread => hreads read (List.mem_append_left _ hread) ?_
    exact List.mem_append_right _ (Source.Contents.source_mem_of_mem_inferredReads hread)
  have huses : contents.uses.flatMap (checkUse units path contents)
      = contents.uses.flatMap (checkUse units' path contents) := by
    rw [List.flatMap_def, List.flatMap_def]
    congr 1
    refine List.map_congr_left fun site hsite => ?_
    rw [checkUse, checkUse]
    cases hreferences : contents.references site.source with
    | false => rfl
    | true =>
        -- a use of a unit that is not mentioned never gets here
        have hmention : site.source ∈ contents.mentions := by
          simp only [Source.Contents.references, Bool.or_eq_true, List.any_eq_true, beq_iff_eq]
            at hreferences
          rcases hreferences with ⟨i, hi, hpath⟩ | ⟨e, he, hsource⟩
          · exact List.mem_append_left _ (List.mem_map.mpr ⟨i, hi, hpath⟩)
          · exact List.mem_append_right _ (List.mem_filterMap.mpr ⟨e, he, hsource⟩)
        have hread := hreads (site.source, site.member)
          (List.mem_append_right _ (List.mem_map_of_mem hsite)) hmention
        rw [hhas site.source hmention, hread]
  rw [checkContents, checkContents, himports, hexports, huses]

/-- No member that the unit reads appears or disappears in a unit that looks the same while inferred
declarations are not visible. -/
def ReadsTold (units units' : Units) (path : UnitPath) : Prop :=
  ∀ unit, units.lookup path = some unit → units'.lookup path = some unit →
    ∀ read ∈ unit.contents.reads, has units read.1 = true → has units' read.1 = true →
      SameFaces false (interfaceOf units read.1) (interfaceOf units' read.1) →
      exportsMember units read.1 read.2 = exportsMember units' read.1 read.2

/-- Undisturbed units have the same diagnostics, when inferred declarations enter signatures or the members
that the unit reads come and go with a new signature only. -/
theorem Telling.checkContents_eq (h : Telling inferred units units')
    (hnames : inferred = true ∨ ReadsTold units units' path)
    (hpath : Undisturbed inferred units units' path) (hunit : units.lookup path = some unit) :
    checkContents units path unit.contents = checkContents units' path unit.contents := by
  obtain ⟨found, hfound, hfound', hmentions⟩ := framed_undisturbed inferred units units' path hpath
  cases hfound.symm.trans hunit
  -- a unit that is mentioned is in neither table, or looks the same in both
  have hlooks : ∀ other ∈ unit.contents.mentions,
      (units.lookup other = none ∧ units'.lookup other = none)
        ∨ (has units other = true ∧ has units' other = true
          ∧ SameFaces inferred (interfaceOf units other) (interfaceOf units' other)) := by
    intro other hother
    rcases hmentions other hother with hin | hgone | hsame
    · obtain ⟨target, htarget, htarget', _⟩ := framed_undisturbed inferred units units' other hin
      refine Or.inr ⟨?_, ?_, h.sameFaces hin⟩
      · rw [has, htarget]
        rfl
      · rw [has, htarget']
        rfl
    · exact Or.inl hgone
    · exact Or.inr hsame
  refine checkContents_congr (fun other hother => ?_) fun read hread hmention => ?_
  · rcases hlooks other hother with ⟨hgone, hgone'⟩ | ⟨hhas, hhas', _⟩
    · rw [has, has, hgone, hgone']
    · rw [hhas, hhas']
  · rcases hlooks read.1 hmention with ⟨hgone, hgone'⟩ | ⟨hhas, hhas', hsame⟩
    · rw [exportsMember, exportsMember, interfaceOf_of_none hgone, interfaceOf_of_none hgone']
    · cases inferred with
      | true => exact hsame.any_name_eq read.2
      | false => exact (hnames.resolve_left (by simp)) unit hunit hfound' read hread hhas hhas' hsame

/-! ### Cycles -/

/-- A unit takes declarations from another one. -/
def Takes (units : Units) (a b : UnitPath) : Prop :=
  ∃ unit, units.lookup a = some unit ∧ b ∈ unit.takesFrom

def OnCycle (units : Units) (path : UnitPath) : Prop :=
  Relation.TransGen (Takes units) path path

/-- Whatever a unit takes from, directly or indirectly, is closed. -/
theorem closed_reachable (units : Units) (source : UnitPath) :
    Closed units (Relation.ReflTransGen (Takes units) source) :=
  fun _ unit hreach hunit _ hsource => hreach.tail ⟨unit, hunit, hsource⟩

/-- The interface of a unit that is on no cycle is made of whole interfaces. -/
theorem interfaceOf_of_not_onCycle (hunit : units.lookup path = some unit)
    (hcycle : ¬ OnCycle units path) :
    interfaceOf units path = declarationsBy (interfaceOf units) unit := by
  have hclosed : Closed units (Relation.TransGen (Takes units) path) :=
    fun a unit' ha hunit' source hsource => ha.tail ⟨unit', hunit', hsource⟩
  exact interfaceOf_eq hclosed hunit (fun source hsource => .single ⟨unit, hunit, hsource⟩) hcycle

/-- The units on cycles, and whatever they take declarations from, offer alike in two tables. -/
def CyclesKept (units units' : Units) : Prop :=
  ∀ path, OnCycle units path ∨ OnCycle units' path →
    ∀ other, Relation.ReflTransGen (Takes units) path other →
      Option.Rel OffersAlike (units.lookup other) (units'.lookup other)

/-- No inferred export can read two shapes. -/
def Unambiguous (units : Units) : Prop :=
  ∀ path unit, units.lookup path = some unit → ∀ read ∈ unit.contents.inferredReads,
    ∀ d ∈ interfaceOf units read.1, ∀ e ∈ interfaceOf units read.1,
      d.name = read.2 → e.name = read.2 → d.shape = e.shape

/-- An undisturbed unit takes declarations in both tables. -/
theorem Leads.takes (h : Leads inferred units units' a b) : Takes units a b ∧ Takes units' a b := by
  obtain ⟨hundisturbed, unit, hunit, hshown⟩ := h
  obtain ⟨found, hfound, hfound', _⟩ := framed_undisturbed inferred units units' a hundisturbed
  cases hfound.symm.trans hunit
  have htakes := mem_takesFrom_of_mem_shownFrom hshown
  exact ⟨⟨unit, hunit, htakes⟩, ⟨unit, hfound', htakes⟩⟩

/-- Where cycles are kept, a unit is read as a whole in both tables, or what is read of it is the same. -/
theorem CyclesKept.whole_or_same (h : CyclesKept units units')
    (hway : OnTheWay inferred units units' visiting path) :
    (interfaceFrom units visiting path = interfaceOf units path
        ∧ interfaceFrom units' visiting path = interfaceOf units' path)
      ∨ interfaceFrom units visiting path = interfaceFrom units' visiting path := by
  by_cases hback : ∃ other ∈ visiting,
      Relation.ReflTransGen (Takes units) path other ∨ Relation.ReflTransGen (Takes units') path other
  · obtain ⟨other, hother, hreaches⟩ := hback
    have hleads := hway.leads other hother
    have hcycle : OnCycle units path ∨ OnCycle units' path := by
      rcases hreaches with hreaches | hreaches
      · exact Or.inl (.trans_right hreaches (Relation.TransGen.mono (fun _ _ h => h.takes.1) _ _ hleads))
      · exact Or.inr (.trans_right hreaches (Relation.TransGen.mono (fun _ _ h => h.takes.2) _ _ hleads))
    right
    exact interfaceFrom_eq_of_offersAlike (closed_reachable units path) (h path hcycle) (fun _ _ => Iff.rfl) .refl
  · left
    constructor
    · exact interfaceFrom_eq_interfaceOf (closed_reachable units path)
        (fun other hother hreaches => hback ⟨other, hother, Or.inl hreaches⟩) .refl
    · exact interfaceFrom_eq_interfaceOf (closed_reachable units' path)
        (fun other hother hreaches => hback ⟨other, hother, Or.inr hreaches⟩) .refl

/-- **Signatures tell enough**, when the units on cycles and below them offer the same, and no inferred
export can read two shapes. -/
theorem telling_of_cyclesKept (hcycles : CyclesKept units units') (hone : inferred = true → Unambiguous units') :
    Telling inferred units units' where
  cut := by
    intro visiting path hway hsame
    rcases hcycles.whole_or_same hway with ⟨hwhole, hwhole'⟩ | hcut
    · rwa [hwhole, hwhole']
    · rw [hcut]
      exact SameFaces.refl _ _
  first := by
    intro hon visiting reader unit hway hfresh hreader hunit read hread hsame
    have hsource := mem_shownFrom_of_read hread
    rw [← hon] at hsource
    rcases hcycles.whole_or_same (.step hway hfresh ⟨hreader, unit, hunit, hsource⟩) with ⟨hwhole, hwhole'⟩ | hcut
    · obtain ⟨found, hfound, hfound', _⟩ := framed_undisturbed inferred units units' reader hreader
      cases hfound.symm.trans hunit
      rw [hwhole, hwhole'] at hsame ⊢
      exact hsame.shapeOf?_eq (hone hon reader unit hfound' read hread)
    · rw [hcut]

end ProjectHost

end Rebuild
