import Rebuild.Proofs.Obligation
import Rebuild.Proofs.Project.Incremental
import Rebuild.Proofs.Project.Outputs
import Rebuild.Proofs.Settled

/-!
# How outputs come about

While a program builds a tree, each output is asked for, or has its final text, or will be asked for
when its unit is rechecked.  A unit whose text and signature are those of the tree that was built before
is never asked for, so that its declarations stay as they are.

* `Tree.Retains`: a unit has the same text and the same signature in two trees;
* `ProjectHost.Builds`: the invariant of a build;
* `ProjectHost.Builds.action`: every action keeps it;
* `ProjectHost.builds_opened`, `ProjectHost.Builds.takeUp`: it holds when a program is started, and when
  it is told of a change after it was settled;
* `ProjectHost.Builds.outputs`: in a settled program, every output has its final text.
-/

namespace Rebuild

namespace Tree

def empty : Tree where
  files := []
  single := by simp
  normal := by simp

def signatureOf (inferred : Bool) (tree : Tree) (path : UnitPath) : String :=
  (ProjectHost.interfaceOf tree.units path).signature (ProjectHost.countsBy inferred)

/-- A unit has the same text and the same signature in two trees. -/
def Retains (inferred : Bool) (old new : Tree) (path : UnitPath) : Prop :=
  old.units.lookup path = new.units.lookup path
    ∧ old.signatureOf inferred path = new.signatureOf inferred path

variable {inferred : Bool} {old new : Tree} {file : UnitPath × String}

/-- A unit that is retained was a file of the old tree. -/
theorem Retains.mem (h : old.Retains inferred new file.1) (hfile : file ∈ new.files) :
    file ∈ old.files := by
  have hlookup := h.1.trans (lookup_units.mpr ⟨file.2, hfile, rfl⟩)
  obtain ⟨text, hold, hsame⟩ := lookup_units.mp hlookup
  have htext : file.2 = text := congrArg LoadedUnit.text hsame
  rw [← htext] at hold
  exact hold

theorem not_retains_empty (inferred : Bool) (hfile : file ∈ new.files) :
    ¬ empty.Retains inferred new file.1 := by
  intro h
  exact absurd (h.mem hfile) (by simp [empty])

end Tree

/-! ### What a recheck does to a unit -/

namespace Program

variable {η : Type} {p q : Program η} {unit : UnitId} {path : UnitPath}

/-- The text of a unit did not change in this round, but the next check of it does not find the
signature that it is compared with. -/
def Behind (p : Program η) (path : UnitPath) (hash : String) : Prop :=
  (∀ id, p.state.graph.idOf? path = some id → id ∉ p.changed) ∧ p.known? path ≠ some hash

variable [Host η]

/-- Right after a recheck, a unit is compared with what was found. -/
theorem Rechecks.known?_self (h : p.Rechecks unit q) (htidy : p.Tidy) :
    q.known? (p.state.graph.pathOf unit) = (p.found unit).1.hash? := by
  have hsome : (p.state.recordOf? (p.state.graph.pathOf unit)).isSome = true := by
    rw [State.recordOf?_isSome htidy.wellFormed, h.idOf?_pathOf htidy]
    rfl
  obtain ⟨r, hr⟩ := Option.isSome_iff_exists.mp hsome
  rw [known?, h.recordOf?_self htidy, hr]
  exact UnitRecord.knownHash?_sign r _

theorem Rechecks.known?_of_ne (h : p.Rechecks unit q) (hne : path ≠ p.state.graph.pathOf unit) :
    q.known? path = p.known? path := by
  rw [known?, known?, h.recordOf?_of_ne hne]

/-- A recheck that finds a signature moves it unless the unit is compared with this one. -/
theorem Rechecks.moved_iff (h : p.Rechecks unit q) (htidy : p.Tidy) {hash : String}
    (hfound : (p.found unit).1 = .known hash) :
    (p.recheckOf unit).moved = true ↔ p.known? (p.state.graph.pathOf unit) ≠ some hash := by
  have hsize := htidy.bounded unit h.awaited
  rw [← not_iff_not, Bool.not_eq_true, not_not]
  show p.state.moves unit (p.found unit).1 = false ↔ _
  rw [hfound, State.moves_eq_false_iff htidy.wellFormed hsize]
  constructor
  · intro hknown
    obtain ⟨other, hother, hsame⟩ := hknown
    cases hsame
    exact hother
  · intro hknown
    exact ⟨hash, hknown, rfl⟩

/-- The outputs that are asked for after a recheck. -/
theorem Commits.asks_iff {queued : List UnitId} (h : p.Commits unit queued q)
    (hqueue : p.pendingEmit.WellFormed) (hdeclares : p.options.emitDeclarations = true)
    {part : EmitKind} :
    EmitQueue.Asks q.pendingEmit.remaining path part
      ↔ (((p.recheckOf unit).moved = true ∧ unit ∉ p.changed)
          ∧ p.state.graph.pathOf unit = path ∧ part = .types)
        ∨ EmitQueue.Asks p.pendingEmit.remaining path part := by
  have hguard : ((p.recheckOf unit).moved && p.options.emitDeclarations && !p.changed.contains unit)
      = true ↔ (p.recheckOf unit).moved = true ∧ unit ∉ p.changed := by
    simp [hdeclares]
  rw [h.pendingEmit]
  split
  · rename_i hpush
    rw [EmitQueue.remaining_push hqueue, EmitQueue.asks_request]
    simp [EmitKind.parts, hguard.mp hpush]
  · rename_i hkeep
    rw [hguard] at hkeep
    simp [hkeep]

end Program

namespace ProjectHost

variable {σ : Type} [Storage σ] {base : ProjectHost σ} {good : σ → Prop} {files : DiskPath → Prop}
variable {old new tree : Tree} {p q : Program (ProjectHost σ)} {unit : UnitId} {path : UnitPath}
variable {file : UnitPath × String}

/-! ### Checks leave the host alone -/

theorem host_checkUnit (p : Program (ProjectHost σ)) (path : UnitPath) :
    (p.checkUnit path).2.host = p.host := by
  simp only [Program.checkUnit, Host.check]
  cases p.host.readable path with
  | error e => rfl
  | ok unit => rfl

theorem host_signUnit (p : Program (ProjectHost σ)) (path : UnitPath) :
    (p.signUnit path).2.host = p.host := by
  simp only [Program.signUnit, Host.interface]
  cases p.host.readable path with
  | error e => rfl
  | ok unit => rfl

theorem host_examine (p : Program (ProjectHost σ)) (path : UnitPath) :
    (p.examine path).2.host = p.host := by
  have hchecked := host_checkUnit p path
  rw [Program.examine]
  rcases hreply : p.checkUnit path with ⟨⟨found, passed⟩, q⟩
  rw [hreply] at hchecked
  cases passed with
  | false => exact hchecked
  | true => exact (host_signUnit q path).trans hchecked

theorem host_diagnosticsOf (p : Program (ProjectHost σ)) (unit : String) :
    (p.diagnosticsOf unit).2.host = p.host := by
  rw [Program.diagnosticsOf]
  cases p.cache.get? (UnitPath.normalize unit) with
  | some cached => rfl
  | none =>
      cases p.state.infoOf? (UnitPath.normalize unit) with
      | none => rfl
      | some info => exact host_checkUnit p _

/-- A recheck finds the signature that the unit has in the tree. -/
theorem found_eq (hsees : Sees base tree p.host) {text : String}
    (hfile : (p.state.graph.pathOf unit, text) ∈ tree.files) :
    (p.found unit).1
      = .known (tree.signatureOf base.includeInferred (p.state.graph.pathOf unit)) := by
  have hexamine := (Answers.examine_eq (A := answers base tree tree) (w := .before) hsees
    (p.state.graph.pathOf unit)).1
  have hunit : ((Moment.before).tree tree tree).units.lookup (p.state.graph.pathOf unit)
      = some (LoadedUnit.ofText text) := Tree.lookup_units.mpr ⟨text, hfile, rfl⟩
  rw [Program.found, hexamine, verdict_eq hunit]
  rfl

/-! ### The invariant of a build -/

/-- What holds while a program builds the tree `new`, after it built the tree `old`. -/
structure Builds (base : ProjectHost σ) (good : σ → Prop) (old new : Tree)
    (p : Program (ProjectHost σ)) : Prop where
  orderly : p.Orderly
  sees : Sees base new p.host
  view : p.snapshot = new.snapshot
  declares : p.options.emitDeclarations = true
  storage : good p.host.storage
  deferred : p.deferred = []
  /-- An output that is not retained is asked for, or is written, or the unit is behind. -/
  written : ∀ file ∈ new.files, ∀ part,
    (part = .types → ¬ old.Retains base.includeInferred new file.1) →
      EmitQueue.Asks p.pendingEmit.remaining file.1 part
        ∨ p.host.OutputIs file.1 part (new.textOf file part)
        ∨ (part = .types ∧ p.Behind file.1 (new.signatureOf base.includeInferred file.1))
  /-- Declarations that are retained are those of the old tree, and are not asked for. -/
  retained : ∀ file ∈ new.files, old.Retains base.includeInferred new file.1 →
    ¬ EmitQueue.Asks p.pendingEmit.remaining file.1 .types
      ∧ p.known? file.1 = some (new.signatureOf base.includeInferred file.1)
      ∧ p.host.OutputIs file.1 .types (old.textOf file .types)

namespace Builds

/-- A unit of the program is a file of the tree. -/
theorem exists_file (hp : Builds base good old new p) (hunit : p.state.graph.contains path = true) :
    ∃ text, (path, text) ∈ new.files := by
  rw [Graph.contains, hp.orderly.graph, Snapshot.idOf?_graph_isSome, hp.view] at hunit
  obtain ⟨source, hsource⟩ := Option.isSome_iff_exists.mp hunit
  obtain ⟨text, hfile, _⟩ := Tree.unit?_snapshot.mp hsource
  exact ⟨text, hfile⟩

/-- A recheck keeps the invariant: a unit that is behind is asked for, and one that is retained is
not. -/
theorem recheck {queued : List UnitId} (hp : Builds base good old new p)
    (h : p.Commits unit queued q) : Builds base good old new q := by
  have hsize := hp.orderly.tidy.bounded unit h.rechecks.awaited
  have hself := h.rechecks.idOf?_pathOf hp.orderly.tidy
  have hhost : q.host = p.host := h.rechecks.host.trans (host_examine p _)
  obtain ⟨_, hunit⟩ := hp.exists_file (Program.contains_of_mem_units hsize)
  have hsignature := found_eq hp.sees hunit
  have hknown := h.rechecks.known?_self hp.orderly.tidy
  rw [hsignature] at hknown
  have hmoved := h.rechecks.moved_iff hp.orderly.tidy hsignature
  refine ⟨h.orderly hp.orderly, ?_, ?_, ?_, ?_, ?_, fun file hfile part hpart => ?_,
    fun file hfile hretains => ?_⟩
  · rw [hhost]
    exact hp.sees
  · rw [h.rechecks.snapshot]
    exact hp.view
  · rw [h.options]
    exact hp.declares
  · rw [hhost]
    exact hp.storage
  · rw [h.deferred]
    exact hp.deferred
  · rw [h.asks_iff hp.orderly.queue hp.declares, hhost]
    rcases hp.written file hfile part hpart with hasked | hwritten | ⟨rfl, hfresh, hbehind⟩
    · exact Or.inl (Or.inr hasked)
    · exact Or.inr (Or.inl hwritten)
    · by_cases hsame : file.1 = p.state.graph.pathOf unit
      · rw [hsame] at hfresh hbehind
        exact Or.inl (Or.inl ⟨⟨hmoved.mpr hbehind, hfresh unit hself⟩, hsame.symm, rfl⟩)
      · refine Or.inr (Or.inr ⟨rfl, ?_, ?_⟩)
        · rw [h.rechecks.graph, h.changed]
          exact hfresh
        · rw [h.rechecks.known?_of_ne hsame]
          exact hbehind
  · obtain ⟨hcalm, hcompared, hwritten⟩ := hp.retained file hfile hretains
    rw [h.asks_iff hp.orderly.queue hp.declares, hhost]
    by_cases hsame : file.1 = p.state.graph.pathOf unit
    · rw [hsame] at hcompared
      have hstays : ¬ (p.recheckOf unit).moved = true := fun hmove => hmoved.mp hmove hcompared
      refine ⟨?_, ?_, hwritten⟩
      · simpa [hstays] using hcalm
      · rw [hsame]
        exact hknown
    · refine ⟨?_, ?_, hwritten⟩
      · simpa [Ne.symm hsame] using hcalm
      · rw [h.rechecks.known?_of_ne hsame]
        exact hcompared

/-- An emit keeps the invariant: it writes what was asked for, and leaves the other outputs alone. -/
theorem emit (haccepts : Storage.Accepts good files)
    (hfiles : ∀ file ∈ new.files, ∀ part, files (base.outputPath file.1 part))
    (hp : Builds base good old new p) {entry : PendingEmit} {queue : EmitQueue}
    (next : p.pendingEmit.next? = some (entry, queue)) :
    Builds base good old new
      ({ p with pendingEmit := queue, phase := .emitPending }.emit entry).2 := by
  have haction : Action False p _ _ := Action.emit next
  have horderly := haction.orderly hp.orderly
  obtain ⟨hremaining, _⟩ := EmitQueue.next?_eq_some next
  have hentry : entry ∈ p.pendingEmit.entries := by
    refine List.mem_of_mem_drop (i := p.pendingEmit.cursor) ?_
    rw [show p.pendingEmit.entries.drop _ = _ from hremaining]
    exact List.mem_cons_self
  obtain ⟨text, hunit⟩ := hp.exists_file (hp.orderly.known entry (Or.inl hentry))
  have hout : ∀ file ∈ new.files, ∀ part, files (p.host.outputPath file.1 part) := by
    intro file hfile part
    rw [hp.sees.outputPath_eq]
    exact hfiles file hfile part
  obtain ⟨disk, hemit, hgood, hwrites, hothers⟩ :=
    emitUnit_eq haccepts hp.storage hp.sees.units_eq hunit (hout _ hunit) entry.kind
  have hresult : ({ p with pendingEmit := queue, phase := .emitPending }
      : Program (ProjectHost σ)).emit entry
        = (⟨entry.unit, entry.kind, entry.kind.parts.map (p.host.outputPath entry.unit), []⟩,
          { p with pendingEmit := queue, phase := .emitPending, host := p.host.onDisk disk }) := by
    rw [Program.emit]
    simp only [Host.emit, hemit]
  rw [hresult] at horderly ⊢
  have hsees := hp.sees.onDisk disk
  refine ⟨horderly, hsees, hp.view, hp.declares, hgood, hp.deferred, fun file hfile part hpart => ?_,
    fun file hfile hretains => ?_⟩
  · have hnormal := new.normal file.1 file.2 hfile
    by_cases hnow : file.1 = entry.unit ∧ part ∈ entry.kind.parts
    · refine Or.inr (Or.inl ?_)
      have hsame : file = (entry.unit, text) :=
        Prod.ext hnow.1 (new.single _ _ _ (hnow.1 ▸ hfile) hunit)
      rw [hsame]
      exact hwrites part hnow.2
    · rcases hp.written file hfile part hpart with hasked | hwritten | hbehind
      · rw [hremaining, EmitQueue.asks_cons] at hasked
        rcases hasked with hfirst | hrest
        · exact absurd ⟨hfirst.1.symm, hfirst.2⟩ hnow
        · exact Or.inl hrest
      · refine Or.inr (Or.inl (hothers _ _ hnormal (hout file hfile part) ?_ _ hwritten))
        exact fun hsame hin => hnow ⟨hsame, hin⟩
      · exact Or.inr (Or.inr hbehind)
  · obtain ⟨hcalm, hcompared, hwritten⟩ := hp.retained file hfile hretains
    rw [hremaining, EmitQueue.asks_cons, not_or] at hcalm
    refine ⟨hcalm.2, hcompared, ?_⟩
    refine hothers _ _ (new.normal file.1 file.2 hfile) (hout file hfile _) (fun hsame => ?_) _ hwritten
    exact absurd ⟨hsame.symm, entry.kind.types_mem_parts⟩ hcalm.1

/-- Every action that nothing from outside takes part in keeps the invariant. -/
theorem action (haccepts : Storage.Accepts good files)
    (hfiles : ∀ file ∈ new.files, ∀ part, files (base.outputPath file.1 part))
    (hp : Builds base good old new p) {events : List HistoryEvent} (h : Action False p events q) :
    Builds base good old new q := by
  have horderly := h.orderly hp.orderly
  cases h with
  | recheck next =>
      obtain ⟨queued, hcommits⟩ := Program.commits_of_nextUnit hp.orderly.tidy next
      exact hp.recheck hcommits
  | exhaust phase next _ =>
      obtain ⟨_, rfl⟩ := Program.nextUnit_none hp.orderly.tidy next
      exact { hp with orderly := horderly }
  | emit next => exact hp.emit haccepts hfiles next
  | demand unit =>
      have hhost := host_diagnosticsOf p unit
      obtain ⟨host, cancelled, cache, hdemand, _⟩ := Program.demand_cases p unit
      rw [hdemand] at horderly hhost ⊢
      obtain rfl : host = p.host := hhost
      exact { hp with orderly := horderly }
  | surround host cancelled inside =>
      obtain rfl : host = p.host := inside.resolve_left id
      exact { hp with orderly := horderly }
  | switch _ given _ => exact given.elim
  | round _ _ _ _ given => exact given.elim

/-- In a settled program, every output has its final text: that of the tree, or that of the old tree
where declarations are retained. -/
theorem outputs (hp : Builds base good old new p) (hdone : p.pendingEmit.remaining = [])
    (hfile : file ∈ new.files)
    (hknown : p.known? file.1 = some (new.signatureOf base.includeInferred file.1)) :
    (∀ part, (part = .types → ¬ old.Retains base.includeInferred new file.1) →
        p.host.OutputIs file.1 part (new.textOf file part))
      ∧ (old.Retains base.includeInferred new file.1 →
        p.host.OutputIs file.1 .types (old.textOf file .types)) := by
  refine ⟨fun part hpart => ?_, fun hretains => (hp.retained file hfile hretains).2.2⟩
  rcases hp.written file hfile part hpart with hasked | hwritten | ⟨_, _, hbehind⟩
  · rw [hdone] at hasked
    obtain ⟨entry, hentry, _⟩ := hasked
    cases hentry
  · exact hwritten
  · exact absurd hknown hbehind

end Builds

/-! ### Rounds -/

section Rounds

variable {η : Type} {r : Program η} {s : Snapshot}

/-- A round asks for all outputs of the units that are new or have another version. -/
theorem asks_update_of_outdates {source : SourceUnit} (hsource : source ∈ s.units)
    (houtdates : r.state.Outdates source) (part : EmitKind) :
    EmitQueue.Asks (r.update s).pendingEmit.remaining source.path part := by
  rcases Program.owesFull_update_of_outdates hsource houtdates with hqueued | hdeferred
  · exact EmitQueue.asks_of_full_mem hqueued part
  · cases hdeferred

/-- A unit that has the version that is known of it is not changed in a round. -/
theorem not_mem_changed_update {source : SourceUnit} (hsource : s.unit? path = some source)
    (hversion : r.state.versionOf? path = some source.version) :
    ∀ id, (r.update s).state.graph.idOf? path = some id → id ∉ (r.update s).changed := by
  intro id hid hchanged
  obtain ⟨found, hfound, houtdates⟩ := State.mem_changed_ofSnapshot.mp hchanged
  have hid : (s.graph r.options.dependencyTracking).idOf? path = some id := hid
  rw [Snapshot.getElem?_units_of_idOf? hid, hsource] at hfound
  cases hfound
  rw [State.outdates_iff, (Snapshot.unit?_eq_some_iff.mp hsource).2] at houtdates
  exact houtdates hversion

/-- A round that nothing is carried over to asks for nothing else. -/
theorem not_asks_update (hremaining : r.pendingEmit.remaining = []) (hdeferred : r.deferred = [])
    (hcalm : r.forceAll = false) (part : EmitKind)
    (hfresh : ∀ id, (r.update s).state.graph.idOf? path = some id → id ∉ (r.update s).changed) :
    ¬ EmitQueue.Asks (r.update s).pendingEmit.remaining path part := by
  intro hasks
  have hnone : ∀ part, ¬ EmitQueue.Asks [] path part := by simp [EmitQueue.Asks]
  have hround : (r.update s).pendingEmit.remaining = _ := Program.remaining_roundEmits
  rw [hround, hremaining, hdeferred, EmitQueue.asks_requestAll, EmitQueue.asks_requestAll] at hasks
  rcases hasks with hfull | hnothing | hnothing
  · obtain ⟨entry, hentry, hunit, _⟩ := hfull
    rw [Program.fullEmits, hcalm] at hentry
    obtain ⟨id, hid, rfl⟩ := List.mem_map.mp hentry
    have hsize := State.lt_size_of_mem_changed_diff hid
    refine hfresh id ?_ hid
    rw [← hunit]
    exact Graph.idOf?_pathOf (Program.tidy_update r s).wellFormed.nodup hsize
  · exact hnone part hnothing
  · exact hnone part hnothing

end Rounds

theorem sourceOf_mem_snapshot (hfile : file ∈ tree.files) :
    Tree.sourceOf file ∈ tree.snapshot.units ∧ (Tree.sourceOf file).path = file.1 :=
  Snapshot.unit?_eq_some_iff.mp (Tree.unit?_snapshot.mpr ⟨file.2, hfile, rfl⟩)

/-- A new program asks for everything. -/
theorem builds_opened (base : ProjectHost σ) {disk : σ} (hgood : good disk) (tree : Tree)
    {options : Options} (hdeclares : options.emitDeclarations = true) :
    Builds base good Tree.empty tree ((base.onDisk disk).opened tree options) where
  orderly := by
    refine Program.orderly_update ?_ _
    exact List.Pairwise.nil
  sees := ⟨disk, rfl⟩
  view := rfl
  declares := hdeclares
  storage := hgood
  deferred := rfl
  written := by
    intro file hfile part _
    obtain ⟨hmem, hpath⟩ := sourceOf_mem_snapshot hfile
    refine Or.inl ?_
    rw [← hpath]
    refine asks_update_of_outdates hmem (fun info hinfo => ?_) part
    cases hinfo
  retained := fun file hfile hretains => absurd hretains (Tree.not_retains_empty _ hfile)

namespace Builds

/-- The version that is known of a unit is that of its text. -/
theorem mem_of_version (hp : Builds base good old tree p)
    (hcomparable : Tree.Comparable base.includeInferred tree new) (hfile : file ∈ new.files)
    (hversion : p.state.versionOf? file.1 = some (Rebuild.version file.2)) : file ∈ tree.files := by
  rw [hp.orderly.versions, hp.view] at hversion
  obtain ⟨source, hsource, hsame⟩ := Option.map_eq_some_iff.mp hversion
  obtain ⟨text, hold, rfl⟩ := Tree.unit?_snapshot.mp hsource
  rw [Tree.sourceOf, version_sourceUnit] at hsame
  have htext : text = file.2 := hcomparable.text_eq hold hfile hsame
  rw [htext] at hold
  exact hold

theorem versionOf?_eq (hp : Builds base good old tree p) (hfile : file ∈ tree.files) :
    p.state.versionOf? file.1 = some (Rebuild.version file.2) := by
  rw [hp.orderly.versions, hp.view, Tree.unit?_snapshot.mpr ⟨file.2, hfile, rfl⟩, Option.map_some,
    Tree.sourceOf, version_sourceUnit]

/-- **A change is taken up.**  When a settled program is told of another tree, what has to be written is
asked for, or will be when the unit is rechecked. -/
theorem takeUp (hp : Builds base good Tree.empty old p) (hdone : p.pendingEmit.remaining = [])
    (hknown : ∀ file ∈ old.files,
      p.known? file.1 = some (old.signatureOf base.includeInferred file.1))
    (hcomparable : Tree.Comparable base.includeInferred old new) {disk : σ} (hgood : good disk)
    (hkept : ∀ file ∈ old.files, ∀ part text, p.host.OutputIs file.1 part text →
      (p.host.onDisk disk).OutputIs file.1 part text) :
    Builds base good old new (informed p (p.host.onDisk disk) new) := by
  -- a file of both trees is not asked for, and its outputs are those of the old tree
  have hboth : ∀ file ∈ new.files, file ∈ old.files →
      (∀ id, (informed p (p.host.onDisk disk) new).state.graph.idOf? file.1 = some id →
        id ∉ (informed p (p.host.onDisk disk) new).changed)
      ∧ (informed p (p.host.onDisk disk) new).known? file.1
        = some (old.signatureOf base.includeInferred file.1)
      ∧ ∀ part, (informed p (p.host.onDisk disk) new).host.OutputIs file.1 part
        (old.textOf file part) := by
    intro file hfile hold
    have hsource := Tree.unit?_snapshot.mpr ⟨file.2, hfile, rfl⟩
    refine ⟨not_mem_changed_update hsource ?_, (Program.known?_update hsource).trans (hknown file hold),
      fun part => hkept file hold part _ ?_⟩
    · rw [Tree.sourceOf, version_sourceUnit]
      exact hp.versionOf?_eq hold
    · exact (hp.outputs hdone hold (hknown file hold)).1 part fun _ => Tree.not_retains_empty _ hold
  refine ⟨Program.orderly_update (by exact hp.orderly.sorted) _, (hp.sees.onDisk disk).reread new, rfl,
    hp.declares, hgood, rfl, fun file hfile part hpart => ?_, fun file hfile hretains => ?_⟩
  · by_cases hversion : p.state.versionOf? file.1 = some (Rebuild.version file.2)
    · have hold := hp.mem_of_version hcomparable hfile hversion
      obtain ⟨hfresh, hcompared, hwritten⟩ := hboth file hfile hold
      cases part with
      | full => exact Or.inr (Or.inl (hwritten .full))
      | types =>
          refine Or.inr (Or.inr ⟨rfl, hfresh, fun hsame => hpart rfl ⟨?_, ?_⟩⟩)
          · rw [Tree.lookup_units.mpr ⟨file.2, hold, rfl⟩, Tree.lookup_units.mpr ⟨file.2, hfile, rfl⟩]
          · exact Option.some.inj (hcompared.symm.trans hsame)
    · obtain ⟨hmem, hpath⟩ := sourceOf_mem_snapshot hfile
      refine Or.inl ?_
      rw [← hpath]
      refine asks_update_of_outdates hmem (State.outdates_iff.mpr ?_) part
      rw [hpath, Tree.sourceOf, version_sourceUnit]
      exact hversion
  · obtain ⟨hfresh, hcompared, hwritten⟩ := hboth file hfile (hretains.mem hfile)
    refine ⟨?_, ?_, hwritten .types⟩
    · exact not_asks_update (by exact hdone) (by exact hp.deferred) (by exact hp.orderly.calm) _ hfresh
    · rw [hcompared, hretains.2]

end Builds

end ProjectHost

end Rebuild
