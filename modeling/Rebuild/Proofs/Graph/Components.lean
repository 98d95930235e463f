import Rebuild.Proofs.Graph.Search

/-!
# Import cycles

The units of a graph fall into groups that lead to each other along import edges.  The groups of two or
more units are reported, as sorted lists of paths in sorted order.  Such a report is determined by what it
has to say, in whatever way and order the groups were found.

* `Graph.Mutual`: two units lead to each other;
* `Graph.IsComponents`: a list of all groups, and `Graph.isComponents_components`: the one that is computed;
* `Graph.Reports`: what a report has to say, with `Graph.IsComponents.reports`: it is said of any such list,
  and `Graph.Reports.unique`: there is one such report;
* `Graph.importCycles_exact`: the report of import cycles.
-/

namespace Rebuild

namespace Graph

/-! ### The order of reports -/

theorem textLe_total (a b : String) : (textLe a b || textLe b a) = true := by
  rw [textLe, textLe, Bool.or_eq_true, decide_eq_true_iff, decide_eq_true_iff]
  exact String.le_total a b

theorem textLe_trans (a b c : String) (hab : textLe a b = true) (hbc : textLe b c = true) :
    textLe a c = true := by
  rw [textLe, decide_eq_true_iff] at *
  exact String.le_trans hab hbc

theorem textListLe_total (xs ys : List String) : (textListLe xs ys || textListLe ys xs) = true := by
  induction xs generalizing ys with
  | nil => rfl
  | cons x xs ih =>
      cases ys with
      | nil => rfl
      | cons y ys =>
          rw [textListLe, textListLe]
          by_cases hxy : x = y
          · rw [if_pos hxy, if_pos hxy.symm]
            exact ih ys
          · rw [if_neg hxy, if_neg (Ne.symm hxy)]
            exact textLe_total x y

theorem textListLe_trans (xs ys zs : List String) (hxy : textListLe xs ys = true)
    (hyz : textListLe ys zs = true) : textListLe xs zs = true := by
  induction xs generalizing ys zs with
  | nil => rfl
  | cons x xs ih =>
      cases ys with
      | nil => cases hxy
      | cons y ys =>
          cases zs with
          | nil => cases hyz
          | cons z zs =>
              rw [textListLe] at hxy hyz ⊢
              by_cases hsame : x = y
              · subst hsame
                rw [if_pos rfl] at hxy
                by_cases hlast : x = z
                · rw [if_pos hlast] at hyz ⊢
                  exact ih ys zs hxy hyz
                · rw [if_neg hlast] at hyz ⊢
                  exact hyz
              · rw [if_neg hsame] at hxy
                by_cases hlast : y = z
                · subst hlast
                  rw [if_neg hsame]
                  exact hxy
                · rw [if_neg hlast] at hyz
                  have hne : x ≠ z := by
                    rintro rfl
                    rw [textLe, decide_eq_true_iff] at hxy hyz
                    exact hsame (String.le_antisymm hxy hyz)
                  rw [if_neg hne]
                  exact textLe_trans x y z hxy hyz

/-- Lists in this order differ first where the earlier one has the smaller text. -/
theorem lex_of_textListLe {xs ys : List String} (h : textListLe xs ys = true) (hne : xs ≠ ys) :
    List.Lex (· < ·) xs ys := by
  induction xs generalizing ys with
  | nil =>
      cases ys with
      | nil => exact absurd rfl hne
      | cons y ys => exact List.Lex.nil
  | cons x xs ih =>
      cases ys with
      | nil => cases h
      | cons y ys =>
          rw [textListLe] at h
          by_cases hxy : x = y
          · subst hxy
            rw [if_pos rfl] at h
            exact List.Lex.cons (ih h fun hsame => hne (hsame ▸ rfl))
          · rw [if_neg hxy, textLe, decide_eq_true_iff] at h
            exact List.Lex.rel (Std.lt_of_le_of_ne h hxy)

/-! ### Groups -/

variable {g : Graph} {a b c : UnitId}

/-- A unit leads to another one along import edges. -/
def Leads (g : Graph) : UnitId → UnitId → Prop :=
  Relation.ReflTransGen fun a b => (a, b) ∈ g.dependencyEdges

def Mutual (g : Graph) (a b : UnitId) : Prop :=
  g.Leads a b ∧ g.Leads b a

/-- The groups of units that lead to each other, each unit in one of them. -/
structure IsComponents (g : Graph) (groups : List (List UnitId)) : Prop where
  cover : ∀ unit, unit ∈ groups.flatten ↔ unit < g.size
  nodup : groups.flatten.Nodup
  mem_iff : ∀ group ∈ groups, ∀ a ∈ group, ∀ b, b ∈ group ↔ g.Mutual a b

theorem Mutual.refl (g : Graph) (a : UnitId) : g.Mutual a a :=
  ⟨Relation.ReflTransGen.refl, Relation.ReflTransGen.refl⟩

theorem Mutual.symm (h : g.Mutual a b) : g.Mutual b a :=
  ⟨h.2, h.1⟩

theorem Mutual.trans (hab : g.Mutual a b) (hbc : g.Mutual b c) : g.Mutual a c :=
  ⟨Relation.ReflTransGen.trans hab.1 hbc.1, Relation.ReflTransGen.trans hbc.2 hab.2⟩

theorem mutual_congr (hab : g.Mutual a b) : g.Mutual a c ↔ g.Mutual b c :=
  ⟨hab.symm.trans, hab.trans⟩

theorem componentIn_eq (ha : a < g.size) :
    componentIn g.reachTable a
      = g.units.filter fun unit => (g.reach (targetsIn g.dependencyEdges) a).contains unit
          && (g.reach (targetsIn g.dependencyEdges) unit).contains a := by
  have hrow : g.reachTable[a]?.getD [] = g.reach (targetsIn g.dependencyEdges) a := by
    rw [reachTable, List.getElem?_map, units, List.getElem?_range ha]
    rfl
  have htable : g.reachTable.zipIdx
      = g.units.map fun unit => (g.reach (targetsIn g.dependencyEdges) unit, unit) :=
    Adjacency.zipIdx_map_range _
  rw [componentIn, hrow, htable, List.filter_map, List.map_map]
  exact List.map_id _

theorem mem_components {group : List UnitId} :
    group ∈ g.components
      ↔ ∃ id < g.size, (componentIn g.reachTable id).head? = some id
          ∧ componentIn g.reachTable id = group := by
  simp only [components, List.mem_filterMap, mem_units, Option.ite_none_right_eq_some, beq_iff_eq,
    Option.some.injEq]

namespace Made

variable (hg : g.Made)

include hg

/-- Along import edges a unit comes to its dependencies, if there are any import edges. -/
theorem targetsIn_dependencyEdges (unit : UnitId) :
    (targetsIn g.dependencyEdges unit).Nodup
      ∧ ∀ other ∈ targetsIn g.dependencyEdges unit, other < g.size := by
  cases hedges : g.edges with
  | none => simp [targetsIn, dependencyEdges, hedges]
  | some e =>
      have hsame : targetsIn g.dependencyEdges unit = g.dependenciesOf unit :=
        dependenciesOf_stored hedges hg.regular unit
      rw [hsame]
      exact ⟨hg.nodup_dependenciesOf unit,
        fun other hother => hg.regular.lt_size_of_mem_dependenciesOf hother⟩

/-- The table of what each unit reaches. -/
theorem contains_reach (ha : a < g.size) :
    (g.reach (targetsIn g.dependencyEdges) a).contains b = true ↔ g.Leads a b := by
  have hreaches : Reaches (targetsIn g.dependencyEdges) a b ↔ g.Leads a b := by
    rw [Reaches, Leads]
    simp only [mem_targetsIn]
  rw [List.contains_iff_mem, ← hreaches]
  exact (explored_reach (fun unit => (hg.targetsIn_dependencyEdges unit).1)
    (fun unit => (hg.targetsIn_dependencyEdges unit).2) ha).1.mem_iff

theorem lt_size_of_leads (ha : a < g.size) (h : g.Leads a b) : b < g.size := by
  cases h with
  | refl => exact ha
  | tail _ hb => exact (hg.regular.lt_size_of_mem (List.mem_append_left _ hb)).2

theorem contains_reach_both (ha : a < g.size) (hb : b < g.size) :
    ((g.reach (targetsIn g.dependencyEdges) a).contains b
      && (g.reach (targetsIn g.dependencyEdges) b).contains a) = true ↔ g.Mutual a b := by
  rw [Bool.and_eq_true, hg.contains_reach ha, hg.contains_reach hb]
  rfl

/-- The group of a unit. -/
theorem mem_componentIn (ha : a < g.size) : b ∈ componentIn g.reachTable a ↔ g.Mutual a b := by
  rw [componentIn_eq ha, List.mem_filter, mem_units]
  constructor
  · rintro ⟨hb, h⟩
    exact (hg.contains_reach_both ha hb).mp h
  · intro h
    have hb := hg.lt_size_of_leads ha h.1
    exact ⟨hb, (hg.contains_reach_both ha hb).mpr h⟩

/-- Units that lead to each other have one group. -/
theorem componentIn_congr (ha : a < g.size) (h : g.Mutual a b) :
    componentIn g.reachTable a = componentIn g.reachTable b := by
  have hb := hg.lt_size_of_leads ha h.1
  rw [componentIn_eq ha, componentIn_eq hb]
  refine List.filter_congr fun other hother => ?_
  have hother := mem_units.mp hother
  rw [Bool.eq_iff_iff, hg.contains_reach_both ha hother, hg.contains_reach_both hb hother,
    mutual_congr h]

/-- **The computed groups** are the groups of units that lead to each other. -/
theorem isComponents_components : g.IsComponents g.components where
  cover := by
    intro unit
    rw [List.mem_flatten]
    constructor
    · rintro ⟨group, hgroup, hunit⟩
      obtain ⟨id, hid, -, rfl⟩ := mem_components.mp hgroup
      exact hg.lt_size_of_leads hid ((hg.mem_componentIn hid).mp hunit).1
    · intro hunit
      -- the group is taken at its first unit, whose group it is too
      have hself := (hg.mem_componentIn hunit).mpr (Mutual.refl g unit)
      obtain ⟨first, rest, hgroup⟩ := List.exists_cons_of_ne_nil (List.ne_nil_of_mem hself)
      have hmutual : g.Mutual unit first :=
        (hg.mem_componentIn hunit).mp (hgroup ▸ List.mem_cons_self)
      have hsame := hg.componentIn_congr hunit hmutual
      have hfirst := hg.lt_size_of_leads hunit hmutual.1
      refine ⟨_, mem_components.mpr ⟨first, hfirst, ?_, hsame.symm⟩, hself⟩
      rw [← hsame, hgroup]
      rfl
  nodup := by
    rw [List.nodup_flatten]
    constructor
    · intro group hgroup
      obtain ⟨id, hid, -, rfl⟩ := mem_components.mp hgroup
      rw [componentIn_eq hid]
      exact g.nodup_units.filter _
    · rw [components, List.pairwise_filterMap]
      refine g.nodup_units.imp_of_mem fun {a b} ha hb hne group hgroup other hother => ?_
      rw [Option.ite_none_right_eq_some, beq_iff_eq] at hgroup hother
      obtain ⟨hfirst, rfl⟩ := hgroup.imp_right Option.some.inj
      obtain ⟨hfirst', rfl⟩ := hother.imp_right Option.some.inj
      rw [List.disjoint_left]
      intro unit hunit hunit'
      have hmutual := ((hg.mem_componentIn (mem_units.mp ha)).mp hunit).trans
        ((hg.mem_componentIn (mem_units.mp hb)).mp hunit').symm
      rw [hg.componentIn_congr (mem_units.mp ha) hmutual, hfirst'] at hfirst
      exact hne (Option.some.inj hfirst).symm
  mem_iff := by
    intro group hgroup a ha b
    obtain ⟨id, hid, -, rfl⟩ := mem_components.mp hgroup
    rw [hg.mem_componentIn hid] at ha ⊢
    exact mutual_congr ha

end Made

/-! ### Reports -/

/-- What a report of cycles has to say: which units lead to each other, in sorted lists of two or more
paths, themselves in sorted order, without repeats. -/
structure Reports (g : Graph) (report : List (List UnitPath)) : Prop where
  length : ∀ cycle ∈ report, 2 ≤ cycle.length
  sorted : ∀ cycle ∈ report, cycle.Pairwise (· < ·)
  ordered : report.Pairwise (List.Lex (· < ·))
  nodup : report.flatten.Nodup
  paths : report.flatten ⊆ g.paths
  same_iff : ∀ a b, a < g.size → b < g.size → a ≠ b →
    ((∃ cycle ∈ report, g.pathOf a ∈ cycle ∧ g.pathOf b ∈ cycle) ↔ g.Mutual a b)
  mem_iff : ∀ a, a < g.size →
    ((∃ cycle ∈ report, g.pathOf a ∈ cycle) ↔ ∃ b, b ≠ a ∧ g.Mutual a b)

def sortedPaths (g : Graph) (group : List UnitId) : List UnitPath :=
  (group.map g.pathOf).mergeSort textLe

theorem mem_sortedPaths {group : List UnitId} {path : UnitPath} :
    path ∈ g.sortedPaths group ↔ ∃ unit ∈ group, g.pathOf unit = path := by
  rw [sortedPaths, List.mem_mergeSort, List.mem_map]

theorem mem_cyclesOf {groups : List (List UnitId)} {cycle : List UnitPath} :
    cycle ∈ g.cyclesOf groups ↔ ∃ group ∈ groups, 1 < group.length ∧ g.sortedPaths group = cycle := by
  simp only [cyclesOf, sortedPaths, List.mem_mergeSort, List.mem_map, List.mem_filter,
    decide_eq_true_iff, and_assoc]

/-- The report lists the paths of the units in groups of two or more. -/
theorem flatten_cyclesOf_perm (g : Graph) (groups : List (List UnitId)) :
    (g.cyclesOf groups).flatten.Perm
      ((groups.filter fun group => decide (1 < group.length)).flatten.map g.pathOf) := by
  refine (List.mergeSort_perm _ _).flatten.trans ?_
  rw [List.map_flatten]
  refine List.Perm.flatten_congr ?_
  rw [List.forall₂_map_left_iff, List.forall₂_map_right_iff, List.forall₂_same]
  exact fun group _ => List.mergeSort_perm _ _

/-- Lists that are disjoint and not empty are different. -/
theorem nodup_of_nodup_flatten {report : List (List UnitPath)} (h : report.flatten.Nodup)
    (hne : ∀ cycle ∈ report, cycle ≠ []) : report.Nodup := by
  refine (List.nodup_flatten.mp h).2.imp_of_mem fun {x y} hx _ hdisjoint hxy => ?_
  obtain ⟨path, hpath⟩ := List.exists_mem_of_ne_nil x (hne x hx)
  exact hdisjoint hpath (hxy ▸ hpath)

namespace IsComponents

variable {groups : List (List UnitId)} {group : List UnitId}

theorem lt_size (h : g.IsComponents groups) (hgroup : group ∈ groups) (ha : a ∈ group) : a < g.size :=
  (h.cover a).mp (List.mem_flatten.mpr ⟨group, hgroup, ha⟩)

theorem nodup_group (h : g.IsComponents groups) (hgroup : group ∈ groups) : group.Nodup :=
  (List.nodup_flatten.mp h.nodup).1 group hgroup

/-- A unit is listed with its group. -/
theorem pathOf_mem_iff (h : g.IsComponents groups) (hpaths : g.paths.Nodup) (hgroup : group ∈ groups)
    (ha : a < g.size) : g.pathOf a ∈ g.sortedPaths group ↔ a ∈ group := by
  rw [mem_sortedPaths]
  constructor
  · rintro ⟨unit, hunit, hpath⟩
    rwa [← pathOf_inj hpaths (h.lt_size hgroup hunit) ha hpath]
  · exact fun hmem => ⟨a, hmem, rfl⟩

/-- The group of a unit that leads to another one and back is reported. -/
theorem exists_cycle (h : g.IsComponents groups) (ha : a < g.size) (hne : a ≠ b) (hmutual : g.Mutual a b) :
    ∃ group ∈ groups, g.sortedPaths group ∈ g.cyclesOf groups ∧ a ∈ group ∧ b ∈ group := by
  obtain ⟨group, hgroup, hmem⟩ := List.mem_flatten.mp ((h.cover a).mpr ha)
  have hother := (h.mem_iff group hgroup a hmem b).mpr hmutual
  have hlength : 1 < group.length :=
    (List.subperm_of_subset (List.nodup_cons.mpr ⟨by simpa using hne, List.nodup_singleton b⟩)
      (by simp [hmem, hother] : [a, b] ⊆ group)).length_le
  exact ⟨group, hgroup, mem_cyclesOf.mpr ⟨group, hgroup, hlength, rfl⟩, hmem, hother⟩

/-- No path is reported twice. -/
theorem nodup_flatten_cyclesOf (h : g.IsComponents groups) (hpaths : g.paths.Nodup) :
    (g.cyclesOf groups).flatten.Nodup := by
  rw [(flatten_cyclesOf_perm g groups).nodup_iff]
  have hsublist : (groups.filter fun group => decide (1 < group.length)).flatten.Sublist groups.flatten :=
    List.filter_sublist.flatten
  refine List.Nodup.map_on (fun a ha b hb hab => ?_) (h.nodup.sublist hsublist)
  exact pathOf_inj hpaths ((h.cover a).mp (hsublist.subset ha)) ((h.cover b).mp (hsublist.subset hb)) hab

theorem two_le_length_of_mem_cyclesOf {cycle : List UnitPath} (hcycle : cycle ∈ g.cyclesOf groups) :
    2 ≤ cycle.length := by
  obtain ⟨group, -, hlong, rfl⟩ := mem_cyclesOf.mp hcycle
  rw [sortedPaths, List.length_mergeSort, List.length_map]
  exact hlong

/-- A unit in a reported group is not alone. -/
theorem exists_other (h : g.IsComponents groups) (hgroup : group ∈ groups) (hlong : 1 < group.length)
    (a : UnitId) : ∃ b ∈ group, b ≠ a := by
  by_contra hnone
  have hsubset : group ⊆ [a] := fun b hb =>
    List.mem_singleton.mpr (by_contra fun hne => hnone ⟨b, hb, hne⟩)
  have hshort := (List.subperm_of_subset (h.nodup_group hgroup) hsubset).length_le
  exact absurd hlong (Nat.not_lt.mpr hshort)

/-- **Every list of the groups** makes a report that says what it has to. -/
theorem reports (h : g.IsComponents groups) (hpaths : g.paths.Nodup) : g.Reports (g.cyclesOf groups) where
  length := fun _ hcycle => two_le_length_of_mem_cyclesOf hcycle
  sorted := by
    intro cycle hcycle
    have hdifferent := (List.nodup_flatten.mp (h.nodup_flatten_cyclesOf hpaths)).1 cycle hcycle
    obtain ⟨group, -, -, rfl⟩ := mem_cyclesOf.mp hcycle
    have hsorted := List.pairwise_mergeSort textLe_trans textLe_total (group.map g.pathOf)
    refine hsorted.imp₂ (fun x y hle hne => ?_) hdifferent
    rw [textLe, decide_eq_true_iff] at hle
    exact Std.lt_of_le_of_ne hle hne
  ordered := by
    have hsorted : (g.cyclesOf groups).Pairwise fun x y => textListLe x y = true :=
      List.pairwise_mergeSort textListLe_trans textListLe_total _
    have hdifferent : (g.cyclesOf groups).Nodup := by
      refine nodup_of_nodup_flatten (h.nodup_flatten_cyclesOf hpaths) fun cycle hcycle hnil => ?_
      have htwo := two_le_length_of_mem_cyclesOf hcycle
      rw [hnil] at htwo
      exact absurd htwo (by decide)
    exact hsorted.imp₂ (fun x y hle hne => lex_of_textListLe hle hne) hdifferent
  nodup := h.nodup_flatten_cyclesOf hpaths
  paths := by
    intro path hpath
    obtain ⟨unit, hunit, rfl⟩ := List.mem_map.mp ((flatten_cyclesOf_perm g groups).mem_iff.mp hpath)
    have hlt := (h.cover unit).mp (List.filter_sublist.flatten.subset hunit)
    exact List.mem_of_getElem? (getElem?_paths_pathOf hlt)
  same_iff := by
    intro a b ha hb hne
    constructor
    · rintro ⟨cycle, hcycle, hamem, hbmem⟩
      obtain ⟨group, hgroup, -, rfl⟩ := mem_cyclesOf.mp hcycle
      rw [h.pathOf_mem_iff hpaths hgroup ha] at hamem
      rw [h.pathOf_mem_iff hpaths hgroup hb] at hbmem
      exact (h.mem_iff group hgroup a hamem b).mp hbmem
    · intro hmutual
      obtain ⟨group, hgroup, hcycle, hamem, hbmem⟩ := h.exists_cycle ha hne hmutual
      exact ⟨_, hcycle, mem_sortedPaths.mpr ⟨a, hamem, rfl⟩, mem_sortedPaths.mpr ⟨b, hbmem, rfl⟩⟩
  mem_iff := by
    intro a ha
    constructor
    · rintro ⟨cycle, hcycle, hamem⟩
      obtain ⟨group, hgroup, hlong, rfl⟩ := mem_cyclesOf.mp hcycle
      rw [h.pathOf_mem_iff hpaths hgroup ha] at hamem
      obtain ⟨b, hb, hne⟩ := h.exists_other hgroup hlong a
      exact ⟨b, hne, (h.mem_iff group hgroup a hamem b).mp hb⟩
    · rintro ⟨b, hne, hmutual⟩
      obtain ⟨group, hgroup, hcycle, hamem, -⟩ := h.exists_cycle ha hne.symm hmutual
      exact ⟨_, hcycle, mem_sortedPaths.mpr ⟨a, hamem, rfl⟩⟩

end IsComponents

namespace Reports

variable {report report' : List (List UnitPath)} {cycle cycle' : List UnitPath} {path : UnitPath}

theorem ne_nil (h : g.Reports report) (hcycle : cycle ∈ report) : cycle ≠ [] := by
  rintro rfl
  exact absurd (h.length [] hcycle) (by decide)

/-- A path is in one list at most. -/
theorem eq_of_mem (h : g.Reports report) (hcycle : cycle ∈ report) (hcycle' : cycle' ∈ report)
    (hpath : path ∈ cycle) (hpath' : path ∈ cycle') : cycle = cycle' := by
  have : Std.Symm (@List.Disjoint UnitPath) := ⟨fun _ _ hdisjoint => hdisjoint.symm⟩
  by_contra hne
  exact (List.nodup_flatten.mp h.nodup).2.forall hcycle hcycle' hne hpath hpath'

/-- The paths of a list belong to units. -/
theorem exists_unit (h : g.Reports report) (hcycle : cycle ∈ report) (hpath : path ∈ cycle) :
    ∃ unit < g.size, g.pathOf unit = path := by
  have hknown := h.paths (List.mem_flatten.mpr ⟨cycle, hcycle, hpath⟩)
  rw [← g.map_pathOf_units, List.mem_map] at hknown
  obtain ⟨unit, hunit, hname⟩ := hknown
  exact ⟨unit, mem_units.mp hunit, hname⟩

/-- What is listed together in one report is listed together in every other one. -/
theorem exists_together (h : g.Reports report) (h' : g.Reports report') (hcycle : cycle ∈ report)
    {first second : UnitPath} (hfirst : first ∈ cycle) (hsecond : second ∈ cycle) :
    ∃ cycle' ∈ report', first ∈ cycle' ∧ second ∈ cycle' := by
  obtain ⟨a, ha, rfl⟩ := h.exists_unit hcycle hfirst
  obtain ⟨b, hb, rfl⟩ := h.exists_unit hcycle hsecond
  by_cases hab : a = b
  · subst hab
    obtain ⟨cycle', hcycle', hmem⟩ := (h'.mem_iff a ha).mpr ((h.mem_iff a ha).mp ⟨cycle, hcycle, hfirst⟩)
    exact ⟨cycle', hcycle', hmem, hmem⟩
  · exact (h'.same_iff a b ha hb hab).mpr
      ((h.same_iff a b ha hb hab).mp ⟨cycle, hcycle, hfirst, hsecond⟩)

/-- A list of one report is part of a list of every other one. -/
theorem subset_of_mem (h : g.Reports report) (h' : g.Reports report') (hcycle : cycle ∈ report)
    (hcycle' : cycle' ∈ report') (hpath : path ∈ cycle) (hpath' : path ∈ cycle') : cycle ⊆ cycle' := by
  intro other hother
  obtain ⟨found, hfound, hboth, hmem⟩ := h.exists_together h' hcycle hpath hother
  rwa [h'.eq_of_mem hcycle' hfound hpath' hboth]

/-- Every list of one report is in every other one. -/
theorem subset (h : g.Reports report) (h' : g.Reports report') : report ⊆ report' := by
  intro cycle hcycle
  obtain ⟨path, hpath⟩ := List.exists_mem_of_ne_nil cycle (h.ne_nil hcycle)
  obtain ⟨cycle', hcycle', hpath', -⟩ := h.exists_together h' hcycle hpath hpath
  -- sorted lists with the same paths are equal
  have hperm : cycle.Perm cycle' := by
    rw [List.perm_ext_iff_of_nodup ((List.nodup_flatten.mp h.nodup).1 cycle hcycle)
      ((List.nodup_flatten.mp h'.nodup).1 cycle' hcycle')]
    exact fun other => ⟨fun hother => h.subset_of_mem h' hcycle hcycle' hpath hpath' hother,
      fun hother => h'.subset_of_mem h hcycle' hcycle hpath' hpath hother⟩
  have heq : cycle = cycle' := hperm.eq_of_pairwise
    (fun x y _ _ hxy hyx => absurd (String.lt_trans hxy hyx) (String.lt_irrefl x))
    (h.sorted cycle hcycle) (h'.sorted cycle' hcycle')
  rwa [heq]

theorem nodup_report (h : g.Reports report) : report.Nodup :=
  nodup_of_nodup_flatten h.nodup fun _ hcycle => h.ne_nil hcycle

/-- **There is one report.** -/
theorem unique (h : g.Reports report) (h' : g.Reports report') : report = report' := by
  have hperm : report.Perm report' := by
    rw [List.perm_ext_iff_of_nodup h.nodup_report h'.nodup_report]
    exact fun cycle => ⟨fun hcycle => h.subset h' hcycle, fun hcycle => h'.subset h hcycle⟩
  refine hperm.eq_of_pairwise (fun x y _ _ hxy hyx => ?_) h.ordered h'.ordered
  exact absurd hyx (List.lex_asymm String.lt_asymm hxy)

end Reports

/-- A graph without import edges has no cycles to report. -/
theorem Reports.eq_nil {report : List (List UnitPath)} (h : g.Reports report)
    (hedges : g.dependencyEdges = []) : report = [] := by
  refine List.eq_nil_iff_forall_not_mem.mpr fun cycle hcycle => ?_
  obtain ⟨path, hpath⟩ := List.exists_mem_of_ne_nil cycle (h.ne_nil hcycle)
  obtain ⟨a, ha, rfl⟩ := h.exists_unit hcycle hpath
  obtain ⟨b, hne, hto, -⟩ := (h.mem_iff a ha).mp ⟨cycle, hcycle, hpath⟩
  cases hto with
  | refl => exact hne rfl
  | tail _ hstep =>
      rw [hedges] at hstep
      cases hstep

/-- **Import cycles.**  In a graph with distinct paths the report says which units lead to each other, and
nothing else; it does not depend on how the groups of such units were found, and there is nothing to
report where dependencies are not tracked. -/
theorem importCycles_exact (hg : g.Made) (hpaths : g.paths.Nodup) :
    g.Reports g.importCycles
      ∧ (∀ groups, g.IsComponents groups → g.cyclesOf groups = g.importCycles)
      ∧ (g.tracking = false → g.importCycles = []) := by
  have hreports := hg.isComponents_components.reports hpaths
  refine ⟨hreports, fun groups hgroups => (hgroups.reports hpaths).unique hreports, fun htracking => ?_⟩
  refine hreports.eq_nil ?_
  rw [tracking, Option.isSome_eq_false_iff, Option.isNone_iff_eq_none] at htracking
  rw [dependencyEdges, htracking]

/-- Two units that import each other, and a stored edge from a unit to itself. -/
def looped : Graph :=
  ⟨["b", "a", "c", "d"], some ⟨[(0, 1), (1, 0), (2, 2), (2, 3), (3, 1)], []⟩⟩

theorem importCycles_exact_looped :
    looped.Made ∧ looped.paths.Nodup
      ∧ (∃ cycle ∈ looped.importCycles, "b" ∈ cycle ∧ "a" ∈ cycle)
      ∧ (∀ cycle ∈ looped.importCycles, "c" ∉ cycle)
      ∧ looped.cyclesOf [[3], [1, 0], [2]] = looped.importCycles := by
  have hstored : ofIndexed ["b", "a", "c", "d"] [(0, 1), (1, 0), (2, 2), (2, 3), (3, 1)] [] true
      = .ok looped := rfl
  have hmade : looped.Made := Made.stored hstored
  have hpaths : looped.paths.Nodup := by decide
  obtain ⟨hreports, hgroups, -⟩ := importCycles_exact hmade hpaths
  have hmutual : looped.Mutual 0 1 := (hmade.mem_componentIn (by decide)).mp (by decide)
  refine ⟨hmade, hpaths, (hreports.same_iff 0 1 (by decide) (by decide) (by decide)).mpr hmutual,
    fun cycle hcycle hmem => ?_, hgroups _ ⟨?_, ?_, ?_⟩⟩
  · obtain ⟨b, hne, hback⟩ := (hreports.mem_iff 2 (by decide)).mp ⟨cycle, hcycle, hmem⟩
    have hb := (hmade.mem_componentIn (by decide)).mpr hback
    have halone : componentIn looped.reachTable 2 = [2] := by decide
    rw [halone, List.mem_singleton] at hb
    exact hne hb
  · show ∀ unit : Nat, unit ∈ [3, 1, 0, 2] ↔ unit < 4
    intro unit
    simp only [List.mem_cons, List.not_mem_nil, or_false]
    omega
  · decide
  · intro group hgroup a ha b
    have htable : ∀ group ∈ [[3], [1, 0], [2]], ∀ a ∈ group,
        a < looped.size ∧ (componentIn looped.reachTable a).Perm group := by decide
    obtain ⟨hlt, hperm⟩ := htable group hgroup a ha
    rw [← hmade.mem_componentIn hlt, hperm.mem_iff]

end Graph

end Rebuild
