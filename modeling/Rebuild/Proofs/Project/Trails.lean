import Mathlib.Data.List.Chain
import Mathlib.Data.List.Nodup
import Rebuild.Proofs.Project.Compare

/-!
# Ways along republishing units

The declarations of a unit are collected along the units that it republishes, in all ways that meet no
unit twice.  Blocking the units on the way loses no name: a unit that can be reached at all can be reached
without meeting one twice.

* `ProjectHost.Republishes`, `ProjectHost.Trail`: a step, and a way that meets no unit twice;
* `ProjectHost.mem_interfaceFrom_iff`: every declaration is that of an export at the end of a trail;
* `ProjectHost.exists_trail`: whatever can be reached is at the end of a trail;
* `ProjectHost.collect`: the declarations as they are collected with one set of units being visited, which
  grows when a unit is entered and shrinks when it is left; `ProjectHost.collect_eq`: it comes to an end,
  with the same declarations and the set as it was;
* `ProjectHost.member_lookup`: looking up a member, from any set and to the end.
-/

namespace Rebuild.ProjectHost

variable {units : Units} {visiting rest : List UnitPath} {path next target : UnitPath}
variable {unit : LoadedUnit} {d : Declaration}

/-! ### Trails -/

/-- A unit republishes the declarations of another one. -/
def Republishes (units : Units) (a b : UnitPath) : Prop :=
  ∃ unit, units.lookup a = some unit ∧ ∃ i ∈ unit.contents.imports, i.reexport = true ∧ i.path = b

/-- What is republished is taken. -/
theorem Republishes.takes {a b : UnitPath} (h : Republishes units a b) : Takes units a b := by
  obtain ⟨unit, hunit, i, hi, hreexport, rfl⟩ := h
  exact ⟨unit, hunit, List.mem_append_left _ (List.mem_map_of_mem (List.mem_filter.mpr ⟨hi, hreexport⟩))⟩

/-- A way from `path` along republishing units, which goes on with `rest` and meets no unit twice and none
that is being visited. -/
structure Trail (units : Units) (visiting : List UnitPath) (path : UnitPath)
    (rest : List UnitPath) : Prop where
  chain : (path :: rest).IsChain (Republishes units)
  nodup : (path :: rest).Nodup
  fresh : ∀ other ∈ path :: rest, other ∉ visiting

theorem trail_nil_iff : Trail units visiting path [] ↔ path ∉ visiting := by
  refine ⟨fun h => h.fresh path List.mem_cons_self, fun h => ⟨?_, List.nodup_singleton path, ?_⟩⟩
  · exact List.isChain_singleton path
  · intro other hother
    rw [List.mem_singleton.mp hother]
    exact h

/-- A trail goes on while its first unit is being visited. -/
theorem trail_cons_iff : Trail units visiting path (next :: rest)
    ↔ path ∉ visiting ∧ Republishes units path next ∧ Trail units (path :: visiting) next rest := by
  constructor
  · intro h
    obtain ⟨hstep, hchain⟩ := List.isChain_cons_cons.mp h.chain
    obtain ⟨hpath, hnodup⟩ := List.nodup_cons.mp h.nodup
    refine ⟨h.fresh path List.mem_cons_self, hstep, hchain, hnodup, fun other hother hvisiting => ?_⟩
    rcases List.mem_cons.mp hvisiting with rfl | hold
    · exact hpath hother
    · exact h.fresh other (List.mem_cons_of_mem _ hother) hold
  · rintro ⟨hpath, hstep, h⟩
    refine ⟨List.isChain_cons_cons.mpr ⟨hstep, h.chain⟩, List.nodup_cons.mpr ⟨fun hmem => ?_, h.nodup⟩,
      fun other hother => ?_⟩
    · exact h.fresh path hmem List.mem_cons_self
    · rcases List.mem_cons.mp hother with rfl | hlater
      · exact hpath
      · exact fun hvisiting => h.fresh other hlater (List.mem_cons_of_mem _ hvisiting)

/-- A trail can be started one step earlier, cut short where it comes back to its new start.  Only units
that lead to the new start by republishing make a difference. -/
theorem Trail.exists_of_republishes (h : Trail units [] next rest)
    (hstep : Republishes units path next) :
    ∃ later, Trail units [] path later ∧ later.getLastD path = rest.getLastD next
      ∧ ∀ other, ¬ Relation.ReflTransGen (Republishes units) other path →
        (other ∈ path :: later ↔ other ∈ next :: rest) := by
  by_cases hmem : path ∈ next :: rest
  · obtain ⟨before, after, hsplit⟩ := List.append_of_mem hmem
    have hsuffix : (path :: after) <:+ (next :: rest) := ⟨before, hsplit.symm⟩
    refine ⟨after, ⟨h.chain.suffix hsuffix, h.nodup.sublist hsuffix.sublist,
      fun _ _ => List.not_mem_nil⟩, ?_, fun other hother => ?_⟩
    · have hend := congrArg List.getLast? hsplit
      rw [List.getLast?_append, List.getLast?_cons, List.getLast?_cons, Option.some_or,
        Option.some.injEq, ← List.getLastD_eq_getLast?, ← List.getLastD_eq_getLast?] at hend
      exact hend.symm
    · -- the units that were cut off lead to the new start
      have hpairs := List.isChain_iff_pairwise.mp
        ((hsplit ▸ h.chain).imp fun _ _ => Relation.TransGen.single)
      rw [hsplit, List.mem_append]
      refine ⟨Or.inr, fun hin => hin.resolve_left fun hbefore => hother ?_⟩
      exact ((List.pairwise_append.mp hpairs).2.2 other hbefore path List.mem_cons_self).to_reflTransGen
  · refine ⟨next :: rest, ⟨List.isChain_cons_cons.mpr ⟨hstep, h.chain⟩,
      List.nodup_cons.mpr ⟨hmem, h.nodup⟩, fun _ _ => List.not_mem_nil⟩, List.getLastD_cons .., ?_⟩
    intro other hother
    rw [List.mem_cons (b := path)]
    exact or_iff_right fun hsame => hother (hsame ▸ .refl)

/-- What can be reached is at the end of a trail. -/
theorem exists_trail (h : Relation.ReflTransGen (Republishes units) path target) :
    ∃ rest, Trail units [] path rest ∧ rest.getLastD path = target := by
  induction h using Relation.ReflTransGen.head_induction_on with
  | refl => exact ⟨[], trail_nil_iff.mpr List.not_mem_nil, rfl⟩
  | head hstep _ ih =>
      obtain ⟨rest, htrail, hlast⟩ := ih
      obtain ⟨later, hlater, hend, _⟩ := htrail.exists_of_republishes hstep
      exact ⟨later, hlater, hend.trans hlast⟩

/-- The end of a trail can be reached. -/
theorem Trail.reaches (h : Trail units visiting path rest) :
    Relation.ReflTransGen (Republishes units) path (rest.getLastD path) :=
  List.relationReflTransGen_of_exists_isChain_cons rest h.chain (List.getLast_eq_getLastD ..)

/-! ### Declarations at the ends of trails -/

/-- A declaration of a unit is one of its own or one of a unit that it republishes. -/
theorem mem_interfaceFrom : d ∈ interfaceFrom units visiting path
    ↔ path ∉ visiting ∧ ∃ unit, units.lookup path = some unit
      ∧ ((∃ e ∈ unit.contents.exports, declarationBy (interfaceFrom units (path :: visiting)) e = d)
        ∨ ∃ i ∈ unit.contents.imports, i.reexport = true
          ∧ d ∈ interfaceFrom units (path :: visiting) i.path) := by
  cases hunit : units.lookup path with
  | none => simp [interfaceFrom_of_none hunit]
  | some unit =>
      by_cases hmem : path ∈ visiting
      · simp [interfaceFrom_of_mem hmem, hmem]
      · rw [interfaceFrom_of_fresh hunit hmem, declarationsBy, List.mem_append, List.mem_map,
          List.mem_flatMap]
        simp only [List.mem_filter, hmem, not_false_eq_true, true_and, Option.some.injEq,
          exists_eq_left', and_assoc]

/-- **Every declaration has its trail.**  The declarations of a unit are those of the exports at the ends of
trails, as they are found while the units of the trail are being visited. -/
theorem mem_interfaceFrom_iff : d ∈ interfaceFrom units visiting path
    ↔ ∃ rest, Trail units visiting path rest ∧ ∃ unit, units.lookup (rest.getLastD path) = some unit
      ∧ ∃ e ∈ unit.contents.exports,
        declarationBy (interfaceFrom units ((path :: rest).reverse ++ visiting)) e = d := by
  constructor
  · -- by induction on the number of units that are not being visited
    induction hsize : unvisited units visiting using Nat.strongRecOn generalizing visiting path with
    | ind size ih =>
        intro h
        obtain ⟨hfresh, unit, hunit, ⟨e, he, hd⟩ | ⟨i, hi, hreexport, hd⟩⟩ := mem_interfaceFrom.mp h
        · exact ⟨[], trail_nil_iff.mpr hfresh, unit, hunit, e, he, hd⟩
        · have hless := unvisited_cons_lt hunit hfresh
          rw [hsize] at hless
          obtain ⟨rest, htrail, found, hfound, e, he, hd⟩ := ih _ hless rfl hd
          refine ⟨i.path :: rest, trail_cons_iff.mpr
            ⟨hfresh, ⟨unit, hunit, i, hi, hreexport, rfl⟩, htrail⟩, found, ?_, e, he, ?_⟩
          · rw [List.getLastD_cons]
            exact hfound
          · rw [List.reverse_cons, List.append_assoc]
            exact hd
  · rintro ⟨rest, htrail, unit, hunit, e, he, hd⟩
    induction rest generalizing path visiting with
    | nil => exact mem_interfaceFrom.mpr ⟨trail_nil_iff.mp htrail, unit, hunit, Or.inl ⟨e, he, hd⟩⟩
    | cons next rest ih =>
        obtain ⟨hfresh, ⟨first, hfirst, i, hi, hreexport, rfl⟩, hrest⟩ := trail_cons_iff.mp htrail
        refine mem_interfaceFrom.mpr ⟨hfresh, first, hfirst, Or.inr ⟨i, hi, hreexport, ?_⟩⟩
        refine ih hrest ?_ ?_
        · rw [List.getLastD_cons] at hunit
          exact hunit
        · rw [List.reverse_cons, List.append_assoc] at hd
          exact hd

/-- Where nothing is being visited to begin with, only the units of the trail are. -/
theorem mem_interfaceOf_iff : d ∈ interfaceOf units path
    ↔ ∃ rest, Trail units [] path rest ∧ ∃ unit, units.lookup (rest.getLastD path) = some unit
      ∧ ∃ e ∈ unit.contents.exports,
        declarationBy (interfaceFrom units (path :: rest).reverse) e = d := by
  rw [interfaceOf, mem_interfaceFrom_iff]
  simp only [List.append_nil]

@[simp] theorem name_declarationBy (interface : UnitPath → Interface) (e : Source.Export) :
    (declarationBy interface e).name = e.name := by
  cases e <;> rfl

/-- **A member is found where it can be reached.**  A unit exports a member exactly when it republishes, in
any number of steps, a unit with an export of that name. -/
theorem exportsMember_iff {member : String} : exportsMember units path member = true
    ↔ ∃ target unit, Relation.ReflTransGen (Republishes units) path target
      ∧ units.lookup target = some unit ∧ ∃ e ∈ unit.contents.exports, e.name = member := by
  simp only [exportsMember, List.any_eq_true, beq_iff_eq]
  constructor
  · rintro ⟨d, hd, rfl⟩
    obtain ⟨rest, htrail, unit, hunit, e, he, rfl⟩ := mem_interfaceOf_iff.mp hd
    exact ⟨_, unit, htrail.reaches, hunit, e, he, (name_declarationBy _ e).symm⟩
  · rintro ⟨target, unit, hreach, hunit, e, he, rfl⟩
    obtain ⟨rest, htrail, rfl⟩ := exists_trail hreach
    exact ⟨_, mem_interfaceOf_iff.mpr ⟨rest, htrail, unit, hunit, e, he, rfl⟩,
      name_declarationBy _ e⟩

/-! ### One set of units being visited -/

/-- The declaration of an export, where `collect` collects the declarations of other units. -/
def collectExport (collect : UnitPath → StateT (List UnitPath) Option Interface) :
    Source.Export → StateT (List UnitPath) Option Declaration
  | .declared kind name shape _ => return ⟨kind, name, shape, false⟩
  | .inferred name source member _ => do
      let declarations ← collect source
      let shape := (declarations.find? fun d => d.name == member).map (·.shape)
      return ⟨"let", name, shape.getD unresolvedShape, true⟩

/-- The declarations of a unit, collected with one set of units being visited: a unit is put into it when
it is entered and removed when it is left.  Nothing is found when more than `depth` units would have to be
entered within each other. -/
def collect (units : Units) : Nat → UnitPath → StateT (List UnitPath) Option Interface
  | 0, _ => failure
  | depth + 1, path =>
      match units.lookup path with
      | none => return []
      | some unit => do
          if path ∈ (← get) then
            return []
          else
            modify fun visiting => path :: visiting
            let own ← unit.contents.exports.mapM (collectExport (collect units depth))
            let theirs ← (unit.contents.imports.filter (·.reexport)).mapM fun i =>
              collect units depth i.path
            modify fun visiting => visiting.erase path
            return own ++ theirs.flatten

/-- Steps that leave the state alone leave it alone together. -/
theorem run_mapM_eq {α β σ : Type} {f : α → StateT σ Option β} {g : α → β} {s : σ} (xs : List α)
    (h : ∀ x ∈ xs, (f x).run s = some (g x, s)) : (xs.mapM f).run s = some (xs.map g, s) := by
  induction xs with
  | nil => rfl
  | cons x xs ih =>
      rw [List.mapM_cons, StateT.run_bind, h x List.mem_cons_self]
      simp [ih fun y hy => h y (List.mem_cons_of_mem _ hy)]

theorem run_collectExport_eq {collect : UnitPath → StateT (List UnitPath) Option Interface}
    {interface : UnitPath → Interface}
    (h : ∀ source, (collect source).run visiting = some (interface source, visiting))
    (e : Source.Export) :
    (collectExport collect e).run visiting = some (declarationBy interface e, visiting) := by
  cases e with
  | declared kind name shape line => rfl
  | inferred name source member line =>
      rw [collectExport, StateT.run_bind, h source]
      rfl

/-- **Collecting comes to an end.**  No more units are entered within each other than there are units that
are not being visited, and the set of units being visited is the same afterwards. -/
theorem collect_eq (units : Units) {depth : Nat} (visiting : List UnitPath) (path : UnitPath)
    (hdepth : unvisited units visiting < depth) :
    (collect units depth path).run visiting = some (interfaceFrom units visiting path, visiting) := by
  induction depth generalizing visiting path with
  | zero => exact absurd hdepth (Nat.not_lt_zero _)
  | succ depth ih =>
      rw [collect]
      cases hunit : units.lookup path with
      | none =>
          rw [interfaceFrom_of_none hunit]
          rfl
      | some unit =>
          by_cases hmem : path ∈ visiting
          · rw [interfaceFrom_of_mem hmem]
            simp [hmem]
          · -- every unit that is entered from here leaves the set with this one on top
            have hless := unvisited_cons_lt hunit hmem
            have hnext : ∀ source, (collect units depth source).run (path :: visiting)
                = some (interfaceFrom units (path :: visiting) source, path :: visiting) :=
              fun source => ih (path :: visiting) source (by omega)
            have hown := run_mapM_eq unit.contents.exports
              fun e _ => run_collectExport_eq hnext e
            have htheirs := run_mapM_eq (unit.contents.imports.filter (·.reexport))
              fun i _ => hnext i.path
            rw [interfaceFrom_of_fresh hunit hmem, declarationsBy, List.flatMap_def]
            simp [hmem, hown, htheirs]

/-- **Looking up a member.**  From any set of units being visited, collecting the declarations of a unit
comes to an end, however much deeper it might go, and returns the set as it was.  A unit exports a member
exactly when a unit with an export of that name, written out or inferred, can be reached from it by
republishing in zero or more steps. -/
theorem member_lookup (units : Units) :
    (∀ visiting path extra, (collect units (unvisited units visiting + 1 + extra) path).run visiting
        = some (interfaceFrom units visiting path, visiting))
      ∧ ∀ path member, exportsMember units path member = true
        ↔ ∃ target unit, Relation.ReflTransGen (Republishes units) path target
          ∧ units.lookup target = some unit ∧ ∃ e ∈ unit.contents.exports, e.name = member :=
  ⟨fun visiting path _ => collect_eq units visiting path (by omega), fun _ _ => exportsMember_iff⟩

end Rebuild.ProjectHost
