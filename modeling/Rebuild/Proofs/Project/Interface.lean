import Rebuild.Project.Host
import Rebuild.Proofs.Signature

/-!
# Interfaces of project units

The declarations of a unit are its own exports and what it republishes, cut off where a unit is
being visited already.

* `LoadedUnit.takesFrom`: the units that a unit takes declarations from;
* `ProjectHost.interfaceFrom_eq_of_offersAlike`: the interface of a unit depends on nothing but what the
  units offer that it takes declarations from, directly or indirectly;
* `ProjectHost.interfaceOf_eq`: where no cycle is in the way, the interface of a unit is made of
  the whole interfaces of the units that it takes declarations from;
* `ProjectHost.forall_interfaceOf`: what holds of every export holds of every interface.
-/

namespace Rebuild

/-- The units that a unit takes declarations from: those it re-exports, and the sources of its
inferred exports. -/
def LoadedUnit.takesFrom (unit : LoadedUnit) : List UnitPath :=
  (unit.contents.imports.filter (·.reexport)).map (·.path)
    ++ unit.contents.exports.filterMap (·.source?)

/-- An export, wherever it stands. -/
def Source.Export.unnumbered : Source.Export → Source.Export
  | .declared kind name shape _ => .declared kind name shape 0
  | .inferred name source member _ => .inferred name source member 0

namespace ProjectHost

variable {units units' : Units} {visiting visiting' : List UnitPath} {path : UnitPath}
variable {unit : LoadedUnit}

/-! ### One step -/

/-- The declaration of an export, where `interface` says what other units declare. -/
def declarationBy (interface : UnitPath → Interface) : Source.Export → Declaration
  | .declared kind name shape _ => ⟨kind, name, shape, false⟩
  | .inferred name source member _ =>
      let shape := ((interface source).find? fun d => d.name == member).map (·.shape)
      ⟨"let", name, shape.getD unresolvedShape, true⟩

/-- The declarations of a unit, where `interface` says what other units declare. -/
def declarationsBy (interface : UnitPath → Interface) (unit : LoadedUnit) : Interface :=
  unit.contents.exports.map (declarationBy interface)
    ++ (unit.contents.imports.filter (·.reexport)).flatMap fun i => interface i.path

theorem interfaceFrom_of_none (h : units.lookup path = none) :
    interfaceFrom units visiting path = [] := by
  rw [interfaceFrom]
  split
  · rfl
  · rename_i unit hfound
    rw [h] at hfound
    cases hfound

theorem interfaceFrom_of_mem (h : path ∈ visiting) : interfaceFrom units visiting path = [] := by
  rw [interfaceFrom]
  split
  · rfl
  · rw [dif_pos h]

theorem interfaceFrom_of_fresh (hunit : units.lookup path = some unit) (hfresh : path ∉ visiting) :
    interfaceFrom units visiting path
      = declarationsBy (interfaceFrom units (path :: visiting)) unit := by
  rw [interfaceFrom]
  split
  · rename_i hfound
    rw [hunit] at hfound
    cases hfound
  · rename_i found hfound
    rw [hunit] at hfound
    cases hfound
    rw [dif_neg hfresh, declarationsBy]
    rfl

/-- The declarations of a unit depend on what the units declare that it takes from. -/
theorem declarationsBy_congr {interface interface' : UnitPath → Interface}
    (h : ∀ source ∈ unit.takesFrom, interface source = interface' source) :
    declarationsBy interface unit = declarationsBy interface' unit := by
  rw [declarationsBy, declarationsBy]
  congr 1
  · refine List.map_congr_left fun e he => ?_
    cases e with
    | declared kind name shape line => rfl
    | inferred name source member line =>
        have hsource : source ∈ unit.takesFrom :=
          List.mem_append_right _ (List.mem_filterMap.mpr ⟨_, he, rfl⟩)
        rw [declarationBy, declarationBy, h source hsource]
  · rw [List.flatMap_def, List.flatMap_def]
    congr 1
    refine List.map_congr_left fun i hi => ?_
    exact h i.path (List.mem_append_left _ (List.mem_map_of_mem hi))

/-! ### Closed sets of units -/

/-- Whatever a unit of `C` takes declarations from is in `C`. -/
def Closed (units : Units) (C : UnitPath → Prop) : Prop :=
  ∀ path unit, C path → units.lookup path = some unit → ∀ source ∈ unit.takesFrom, C source

/-- Two units make the same declarations of what they take, and take from the same units. -/
structure OffersAlike (unit unit' : LoadedUnit) : Prop where
  takesFrom_eq : unit.takesFrom = unit'.takesFrom
  declarationsBy_eq : ∀ interface, declarationsBy interface unit = declarationsBy interface unit'

theorem OffersAlike.refl (unit : LoadedUnit) : OffersAlike unit unit :=
  ⟨rfl, fun _ => rfl⟩

/-- Units with the same export and re-export lines make the same declarations, wherever these lines stand. -/
theorem OffersAlike.of_lines {unit unit' : LoadedUnit}
    (hexports : unit.contents.exports.map (·.unnumbered) = unit'.contents.exports.map (·.unnumbered))
    (himports : (unit.contents.imports.filter (·.reexport)).map (·.path)
      = (unit'.contents.imports.filter (·.reexport)).map (·.path)) :
    OffersAlike unit unit' := by
  have hsources : ∀ exports : List Source.Export,
      exports.filterMap (·.source?) = (exports.map (·.unnumbered)).filterMap (·.source?) := by
    intro exports
    rw [List.filterMap_map]
    refine List.filterMap_congr fun e _ => ?_
    cases e <;> rfl
  have howns : ∀ interface (exports : List Source.Export),
      exports.map (declarationBy interface) = (exports.map (·.unnumbered)).map (declarationBy interface) := by
    intro interface exports
    rw [List.map_map]
    refine List.map_congr_left fun e _ => ?_
    cases e <;> rfl
  have hothers : ∀ (interface : UnitPath → Interface) (imports : List Source.Import),
      imports.flatMap (fun i => interface i.path) = (imports.map (·.path)).flatMap interface := by
    intro interface imports
    rw [List.flatMap_map]
  refine ⟨?_, fun interface => ?_⟩
  · rw [LoadedUnit.takesFrom, LoadedUnit.takesFrom, himports, hsources, hexports, ← hsources]
  · rw [declarationsBy, declarationsBy, howns, hexports, ← howns, hothers, himports, ← hothers]

/-- Units with the same contents make the same declarations. -/
theorem OffersAlike.of_contents {unit unit' : LoadedUnit} (h : unit.contents = unit'.contents) :
    OffersAlike unit unit' :=
  .of_lines (by rw [h]) (by rw [h])

/-- **Interfaces depend on what is offered.**  Interfaces agree on a closed set of which two tables have the
same paths, with units that offer alike, when the same units of the set are being visited. -/
theorem interfaceFrom_eq_of_offersAlike {C : UnitPath → Prop} (hclosed : Closed units C)
    (hoffers : ∀ path, C path → Option.Rel OffersAlike (units.lookup path) (units'.lookup path))
    (hvisiting : ∀ path, C path → (path ∈ visiting ↔ path ∈ visiting')) (hpath : C path) :
    interfaceFrom units visiting path = interfaceFrom units' visiting' path := by
  -- by induction on the number of units that are not being visited
  induction hsize : unvisited units visiting using Nat.strongRecOn
    generalizing visiting visiting' path with
  | ind size ih =>
      have hrel := hoffers path hpath
      cases hunit : units.lookup path with
      | none =>
          cases hunit' : units'.lookup path with
          | none => rw [interfaceFrom_of_none hunit, interfaceFrom_of_none hunit']
          | some unit' =>
              rw [hunit, hunit'] at hrel
              cases hrel
      | some unit =>
          cases hunit' : units'.lookup path with
          | none =>
              rw [hunit, hunit'] at hrel
              cases hrel
          | some unit' =>
              rw [hunit, hunit'] at hrel
              cases hrel with
              | some hsame =>
                  by_cases hmem : path ∈ visiting
                  · rw [interfaceFrom_of_mem hmem, interfaceFrom_of_mem ((hvisiting path hpath).mp hmem)]
                  · have hmem' : path ∉ visiting' := fun h => hmem ((hvisiting path hpath).mpr h)
                    rw [interfaceFrom_of_fresh hunit hmem, interfaceFrom_of_fresh hunit' hmem',
                      ← hsame.declarationsBy_eq]
                    refine declarationsBy_congr fun source hsource => ?_
                    have hless := unvisited_cons_lt hunit hmem
                    rw [hsize] at hless
                    refine ih _ hless (fun other hother => ?_)
                      (hclosed path unit hpath hunit source hsource) rfl
                    rw [List.mem_cons, List.mem_cons, hvisiting other hother]

/-- **Interfaces depend on what is taken.**  On a closed set of units that two tables have in common,
interfaces agree, when the same units of the set are being visited. -/
theorem interfaceFrom_congr {C : UnitPath → Prop} (hclosed : Closed units C)
    (hlookup : ∀ path, C path → units.lookup path = units'.lookup path)
    (hvisiting : ∀ path, C path → (path ∈ visiting ↔ path ∈ visiting')) (hpath : C path) :
    interfaceFrom units visiting path = interfaceFrom units' visiting' path := by
  refine interfaceFrom_eq_of_offersAlike hclosed (fun other hother => ?_) hvisiting hpath
  rw [hlookup other hother]
  cases units'.lookup other with
  | none => exact .none
  | some unit => exact .some (.refl unit)

/-- Where no unit of a closed set is being visited, interfaces are whole. -/
theorem interfaceFrom_eq_interfaceOf {C : UnitPath → Prop} (hclosed : Closed units C)
    (hvisiting : ∀ path ∈ visiting, ¬ C path) (hpath : C path) :
    interfaceFrom units visiting path = interfaceOf units path := by
  refine interfaceFrom_congr hclosed (fun _ _ => rfl) (fun other hother => ?_) hpath
  simpa using fun hmem => hvisiting other hmem hother

/-- The interface of a unit that takes from a closed set without being in it is made of the whole
interfaces of the units that it takes from. -/
theorem interfaceOf_eq {C : UnitPath → Prop} (hclosed : Closed units C)
    (hunit : units.lookup path = some unit) (hsources : ∀ source ∈ unit.takesFrom, C source)
    (hpath : ¬ C path) : interfaceOf units path = declarationsBy (interfaceOf units) unit := by
  rw [interfaceOf, interfaceFrom_of_fresh hunit (by simp)]
  refine declarationsBy_congr fun source hsource => ?_
  refine interfaceFrom_eq_interfaceOf hclosed (fun other hother => ?_) (hsources source hsource)
  rw [List.mem_singleton.mp hother]
  exact hpath

theorem interfaceOf_of_none (h : units.lookup path = none) : interfaceOf units path = [] :=
  interfaceFrom_of_none h

/-! ### All declarations -/

/-- What holds of every declaration that is written out or could be inferred holds of every
interface. -/
theorem forall_interfaceFrom {P : Declaration → Prop}
    (h : ∀ path unit, units.lookup path = some unit → ∀ interface : UnitPath → Interface,
      (∀ source, ∀ d ∈ interface source, P d) →
      ∀ e ∈ unit.contents.exports, P (declarationBy interface e)) :
    ∀ d ∈ interfaceFrom units visiting path, P d := by
  induction hsize : unvisited units visiting using Nat.strongRecOn generalizing visiting path with
  | ind size ih =>
      intro d hd
      cases hunit : units.lookup path with
      | none =>
          rw [interfaceFrom_of_none hunit] at hd
          simp at hd
      | some unit =>
          by_cases hmem : path ∈ visiting
          · rw [interfaceFrom_of_mem hmem] at hd
            simp at hd
          · have hless := unvisited_cons_lt hunit hmem
            rw [hsize] at hless
            rw [interfaceFrom_of_fresh hunit hmem] at hd
            rcases List.mem_append.mp hd with hown | htaken
            · obtain ⟨e, he, rfl⟩ := List.mem_map.mp hown
              exact h path unit hunit _ (fun source => ih _ hless rfl) e he
            · obtain ⟨i, _, hd⟩ := List.mem_flatMap.mp htaken
              exact ih _ hless rfl d hd

end ProjectHost

end Rebuild
