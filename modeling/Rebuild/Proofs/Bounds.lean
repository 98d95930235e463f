import Rebuild.Proofs.Handout
import Rebuild.Proofs.Phases
import Rebuild.Proofs.Reads

/-!
# Rounds that stay within their tables

The operations of a round once more, with reads of tables that may fail.

* `Program.restore?`, `Program.update?`, `Program.pullCheck?`, `Program.pullEmit?`,
  `Program.drainChecks?`, `Program.drainEmits?`: the operations with reads that may fail.  A unit that is
  only named in a log is read too;
* `Program.InBounds`: every unit that may be read is one of the program, and the cursor is within the
  entries; `Program.InBounds.recheck`: a recheck keeps it so;
* `Program.InBounds.update?_eq`, `Program.InBounds.drainChecks?_eq`, `Program.InBounds.drainEmits?_eq`: no
  read fails, and the results are those of the operations.
-/

namespace Rebuild

/-! ### Passes -/

namespace Pass

variable {pass : Pass} {g : Graph} {isGlobal moved : Bool} {unit : UnitId}
variable {processed : List UnitId}

/-- Record the recheck of a unit whose rows are read. -/
def complete? (pass : Pass) (g : Graph) (isGlobal : Bool) (unit : UnitId) (signatureMoved : Bool)
    (processed : List UnitId) : Option (Pass × List UnitId) :=
  let pass := if pass.inFlight = some unit then { pass with inFlight := none } else pass
  let moved := pass.isMoved unit signatureMoved
  if pass.concernsAll g isGlobal unit moved then some (pass.enqueue g.units processed)
  else if moved then do
    let exporters ← g.row? g.exportersOf unit
    let dependents ← g.row? g.dependentsOf unit
    return { pass with leaking := pass.leaking ++ exporters }.enqueue dependents processed
  else some (pass, [])

theorem complete?_eq (h : unit < g.size) :
    pass.complete? g isGlobal unit moved processed
      = some (pass.complete g isGlobal unit moved processed) := by
  rw [complete?, complete, Graph.row?_eq _ h, Graph.row?_eq _ h]
  generalize (if pass.inFlight = some unit then ({ pass with inFlight := none } : Pass) else pass) = pass
  dsimp only
  split
  · rfl
  · split
    · rfl
    · rfl

/-- The pass keeps its root, and only units of the graph enter its queue. -/
theorem complete_within (hflight : pass.inFlight = some unit) :
    (pass.complete g isGlobal unit moved processed).1.root = pass.root
      ∧ ∀ id ∈ (pass.complete g isGlobal unit moved processed).2, id < g.size := by
  obtain ⟨candidates, leaking, hcomplete, hunits, _⟩ :=
    complete_cases pass g isGlobal unit moved processed hflight
  rw [hcomplete]
  exact ⟨rfl, fun id hid => Graph.mem_units.mp (hunits id (mem_snd_enqueue.mp hid).1)⟩

end Pass

namespace Program

variable {η : Type} {p q : Program η}

/-! ### Being in bounds -/

/-- Every unit at which a round may read a table is one of the program: those that wait, and the root of the
pass that is under way.  The cursor is not past the end of the entries. -/
structure InBounds (p : Program η) : Prop where
  phased : p.Phased
  root : ∀ pass, p.current = some pass → pass.root < p.state.graph.size

theorem inBounds_restore [Host η] (host : η) (options : Options) {d : BuildInfo.Document}
    {expected : String} {decoded : BuildInfo.Decoded} (hdecode : d.decode expected = .ok decoded) :
    ((Program.blank host options).restore decoded).InBounds where
  phased := phased_restore host options hdecode
  root := fun _ hpass => by cases hpass

theorem inBounds_update (p : Program η) (s : Snapshot) : (p.update s).InBounds where
  phased := phased_update p s
  root := fun _ hpass => by cases hpass

/-! ### Taking over a document -/

/-- The cache of stored diagnostics, each at the stored version of its unit. -/
def restoredCache? (decoded : BuildInfo.Decoded) : Option Cache :=
  decoded.diagnostics.foldlM (fun cache entry => do
    match ← decoded.state.lookup? entry.1 with
    | some r => return cache.commit entry.1 r.info.version entry.2
    | none => return cache) {}

theorem restoredCache?_eq {decoded : BuildInfo.Decoded} (h : decoded.state.WellFormed) :
    restoredCache? decoded = some (restoredCache decoded) := by
  refine Reads.foldlM_eq_some _ fun cache entry _ => ?_
  rw [State.lookup?_eq h, State.infoOf?]
  cases decoded.state.recordOf? entry.1 with
  | none => rfl
  | some r => rfl

/-- Take over the content of a document; the log counts the emits that remain. -/
def restore? [Host η] (p : Program η) (decoded : BuildInfo.Decoded) : Option (Program η) := do
  let cache ← restoredCache? decoded
  let _ ← decoded.pendingEmit.slice?
  return { p.restore decoded with cache }

/-- **No read fails when a document is taken over.** -/
theorem restore?_eq [Host η] {decoded : BuildInfo.Decoded} (hstate : decoded.state.WellFormed)
    (hqueue : decoded.pendingEmit.WellFormed) (p : Program η) :
    p.restore? decoded = some (p.restore decoded) := by
  rw [restore?, restoredCache?_eq hstate, hqueue.slice?_eq]
  rfl

/-! ### Starting a round -/

/-- The units still owed a recheck in this round, in the order in which they would come. -/
def pendingChecks? (p : Program η) : Option (List PendingCheck) :=
  p.pendingRoots.mapM fun root => do
    return ⟨← p.state.graph.path? root.unit, root.isGlobal⟩

def roundEmits? (g : Graph) (delta : Delta) (forced : Bool) (queue : EmitQueue)
    (deferred : List PendingEmit) : Option EmitQueue := do
  let full := if forced then g.units else delta.changed
  let queue ← queue.compact? g.contains
  let queue ← queue.pushAll? (deferred.filter fun entry => g.contains entry.unit)
  let paths ← full.mapM g.path?
  queue.pushAll? (paths.map fun path => ⟨path, .full⟩)

/-- Start a round from a new snapshot; the log counts the emits that remain. -/
def update? (p : Program η) (snapshot : Snapshot) : Option (Program η) := do
  let checks ← p.pendingChecks?
  let state ← State.ofSnapshot? snapshot p.options.dependencyTracking p.state
  let delta ← state.diff? p.state
  let roots := roundRoots state.graph delta p.forceAll (carriedRoots state.graph checks)
  let cache ← p.cache.retainCurrent? state
  let stale ← roots.mapM fun root => state.graph.path? root.unit
  let pendingEmit ← roundEmits? state.graph delta p.forceAll p.pendingEmit p.deferred
  let _ ← pendingEmit.slice?
  return { p with
    snapshot, state, roots, pendingEmit
    cache := cache.invalidateAll stale
    current := none
    processed := []
    changed := delta.changed
    deferred := []
    forceAll := false
    phase := .created }

theorem Tidy.pendingChecks?_eq (h : p.Tidy) : p.pendingChecks? = some p.pendingChecks := by
  refine Reads.mapM_eq_some fun root hroot => ?_
  have howed : p.Owed root.unit := mem_pendingRoots.mp (List.mem_map_of_mem hroot)
  rw [Graph.path?_eq (h.bounded root.unit howed.1)]
  rfl

theorem roundEmits?_eq {g : Graph} {delta : Delta} {queue : EmitQueue} (forced : Bool)
    (deferred : List PendingEmit) (hchanged : ∀ id ∈ delta.changed, id < g.size)
    (hqueue : queue.WellFormed) :
    roundEmits? g delta forced queue deferred = some (roundEmits g delta forced queue deferred) := by
  have hfull : ∀ id ∈ if forced then g.units else delta.changed, id < g.size := by
    split
    · exact fun id hid => Graph.mem_units.mp hid
    · exact hchanged
  have hkept := queue.wellFormed_compact g.contains
  have hdeferred := hkept.pushAll (deferred.filter fun entry => g.contains entry.unit)
  rw [roundEmits?, roundEmits, hqueue.compact?_eq]
  show Option.bind ((queue.compact g.contains).pushAll? _) _ = _
  rw [hkept.pushAll?_eq]
  show Option.bind (List.mapM g.path? _) _ = _
  rw [Graph.mapM_path?_eq hfull]
  show EmitQueue.pushAll? _ (List.map _ (List.map g.pathOf _)) = _
  rw [hdeferred.pushAll?_eq, List.map_map]
  rfl

/-- **No read fails when a round starts.** -/
theorem InBounds.update?_eq (h : p.InBounds) (s : Snapshot) : p.update? s = some (p.update s) := by
  have htidy := h.phased.tidy
  let state := State.ofSnapshot s p.options.dependencyTracking p.state
  let roots := roundRoots state.graph (state.diff p.state) p.forceAll
    (carriedRoots state.graph p.pendingChecks)
  have hstate : state.WellFormed := State.wellFormed_ofSnapshot
  have hroots : ∀ root ∈ roots, root.unit < state.graph.size := fun root hroot =>
    (tidy_update p s).bounded root.unit (List.mem_append_right _ (List.mem_map_of_mem hroot))
  have hstale : (roots.mapM fun root => state.graph.path? root.unit)
      = some (roots.map fun root => state.graph.pathOf root.unit) :=
    Reads.mapM_eq_some fun root hroot => Graph.path?_eq (hroots root hroot)
  have hchanged : ∀ id ∈ (state.diff p.state).changed, id < state.graph.size :=
    fun id hid => State.lt_size_of_mem_changed_diff hid
  have hemits := roundEmits?_eq p.forceAll p.deferred hchanged h.phased.queue
  rw [update?, htidy.pendingChecks?_eq, State.ofSnapshot?_eq htidy.wellFormed]
  show Option.bind (state.diff? p.state) _ = _
  rw [State.diff?_eq hstate htidy.wellFormed]
  show Option.bind (p.cache.retainCurrent? state) _ = _
  rw [Cache.retainCurrent?_eq hstate]
  show Option.bind (roots.mapM fun root => state.graph.path? root.unit) _ = _
  rw [hstale]
  show Option.bind (roundEmits? state.graph (state.diff p.state) p.forceAll p.pendingEmit p.deferred) _ = _
  rw [hemits]
  show Option.bind (EmitQueue.slice? _) _ = _
  rw [wellFormed_roundEmits.slice?_eq]
  rfl

/-! ### Choosing and rechecking a unit -/

/-- Start the pass of the first root that is not processed; the log names the root. -/
def nextRoot? (p : Program η) : Option (Option UnitId × Program η) :=
  match p.roots.dropWhile fun root => p.processed.contains root.unit with
  | [] => some p.nextRoot
  | root :: _ => do
      let _ ← p.state.graph.path? root.unit
      return p.nextRoot

/-- The next affected unit; the log names the root of a pass that has nothing left. -/
def nextUnit? (p : Program η) : Option (Option UnitId × Program η) :=
  match p.current with
  | none => p.nextRoot?
  | some pass =>
      match pass.next? p.processed with
      | (some unit, pass) => some (some unit, { p with current := some pass })
      | (none, _) => do
          let _ ← p.state.graph.path? pass.root
          p.nextRoot?

/-- Let the current pass go on after `unit` was rechecked. -/
def propagate? (p : Program η) (unit : UnitId) (isGlobal moved : Bool) : Option (Program η) :=
  match p.current with
  | none => some p
  | some pass => do
      let (pass, queued) ← pass.complete? p.state.graph isGlobal unit moved p.processed
      let stale ← queued.mapM p.state.graph.path?
      return { p with current := some pass, cache := p.cache.invalidateAll stale }

/-- Store what a recheck of `unit` found. -/
def record? (p : Program η) (unit : UnitId) (signature : Signature)
    (diagnostics : List Diagnostic) : Option (Program η) := do
  let path ← p.state.graph.path? unit
  let r ← p.state.record? unit
  let moved := r.moves signature
  let pendingEmit ←
    if moved && p.options.emitDeclarations && !p.changed.contains unit then
      p.pendingEmit.push? path .types
    else some p.pendingEmit
  propagate? { p with
    state := p.state.sign unit signature
    cache := p.cache.commit path r.info.version diagnostics
    processed := p.processed ++ [unit]
    pendingEmit } unit r.info.isGlobal moved

namespace InBounds

theorem nextRoot?_eq (h : p.InBounds) : p.nextRoot? = some p.nextRoot := by
  rw [nextRoot?]
  cases hroots : p.roots.dropWhile fun root => p.processed.contains root.unit with
  | nil => rfl
  | cons root rest =>
      have hwaits : root ∈ p.roots := by
        refine (List.dropWhile_sublist fun root => p.processed.contains root.unit).subset ?_
        rw [hroots]
        exact List.mem_cons_self
      have hroot : root.unit < p.state.graph.size :=
        h.phased.tidy.bounded root.unit (List.mem_append_right _ (List.mem_map_of_mem hwaits))
      dsimp only
      rw [Graph.path?_eq hroot]
      rfl

theorem nextUnit?_eq (h : p.InBounds) : p.nextUnit? = some p.nextUnit := by
  rw [nextUnit?, nextUnit]
  cases hcurrent : p.current with
  | none => exact h.nextRoot?_eq
  | some pass =>
      dsimp only
      rw [Graph.path?_eq (h.root pass hcurrent), h.nextRoot?_eq]
      rcases pass.next? p.processed with ⟨next, later⟩
      cases next with
      | none => rfl
      | some unit => rfl

end InBounds

theorem propagate?_eq {pass : Pass} {unit : UnitId} (hcurrent : p.current = some pass)
    (hflight : pass.inFlight = some unit) (hunit : unit < p.state.graph.size) (isGlobal moved : Bool) :
    p.propagate? unit isGlobal moved = some (p.propagate unit isGlobal moved) := by
  rw [propagate?, propagate, hcurrent]
  dsimp only
  rw [Pass.complete?_eq hunit]
  show Option.bind (List.mapM p.state.graph.path? _) _ = _
  rw [Graph.mapM_path?_eq (Pass.complete_within hflight).2]
  rfl

/-- No read fails when the recheck of the unit in flight is stored. -/
theorem Flying.record?_eq {pass : Pass} {unit : UnitId} (h : p.Flying pass unit)
    (hqueue : p.pendingEmit.WellFormed) (signature : Signature) (diagnostics : List Diagnostic) :
    p.record? unit signature diagnostics = some (p.record unit signature diagnostics) := by
  have hunit : unit < p.state.graph.size := h.bounded unit (h.mem_frontier.mpr (Or.inl rfl))
  obtain ⟨r, hr⟩ := h.wellFormed.exists_record hunit
  have hinfo : p.state.info? unit = some r.info := by rw [State.info?, hr]; rfl
  have hmoves : p.state.moves unit signature = r.moves signature := by rw [State.moves, hr]; rfl
  rw [record?, record, Graph.path?_eq hunit, hr, hinfo, hmoves]
  dsimp only [bind, Option.bind]
  rw [hqueue.push?_eq]
  split
  · exact propagate?_eq (by exact h.current) h.inFlight (by exact hunit) _ _
  · exact propagate?_eq (by exact h.current) h.inFlight (by exact hunit) _ _

/-! ### Loops -/

def pullAll? {α : Type} (pull? : Program η → Option (Except Error (Option α) × Program η)) :
    Nat → Program η → Option (Drained α × Program η)
  | 0, p => some ({}, p)
  | fuel + 1, p => do
      match ← pull? p with
      | (.error e, p) => return ({ stopped := some e }, p)
      | (.ok none, p) => return ({}, p)
      | (.ok (some result), p) =>
          let (drained, p) ← pullAll? pull? fuel p
          return (drained.after result, p)

/-- A loop that pulls stays in bounds when every pull does. -/
theorem pullAll?_eq {α : Type} {pull : Program η → Except Error (Option α) × Program η}
    {pull? : Program η → Option (Except Error (Option α) × Program η)}
    {loop : Nat → Program η → Drained α × Program η}
    (hpull : ∀ p : Program η, p.InBounds → pull? p = some (pull p) ∧ (pull p).2.InBounds)
    (hzero : ∀ p, loop 0 p = ({}, p))
    (hstopped : ∀ fuel p q e, pull p = (.error e, q) → loop (fuel + 1) p = ({ stopped := some e }, q))
    (hfinished : ∀ fuel p q, pull p = (.ok none, q) → loop (fuel + 1) p = ({}, q))
    (hpulled : ∀ fuel p q result, pull p = (.ok (some result), q) →
      loop (fuel + 1) p = ((loop fuel q).1.after result, (loop fuel q).2))
    (fuel : Nat) (h : p.InBounds) :
    pullAll? pull? fuel p = some (loop fuel p) ∧ (loop fuel p).2.InBounds := by
  induction fuel generalizing p with
  | zero =>
      rw [hzero]
      exact ⟨rfl, h⟩
  | succ fuel ih =>
      obtain ⟨hread, hlater⟩ := hpull p h
      rcases hnext : pull p with ⟨result, q⟩
      rw [hnext] at hread hlater
      rw [pullAll?, hread]
      cases result with
      | error e =>
          rw [hstopped fuel p q e hnext]
          exact ⟨rfl, hlater⟩
      | ok next =>
          cases next with
          | none =>
              rw [hfinished fuel p q hnext]
              exact ⟨rfl, hlater⟩
          | some result =>
              obtain ⟨hrest, hend⟩ := ih hlater
              rw [hpulled fuel p q result hnext]
              refine ⟨?_, hend⟩
              show Option.bind (pullAll? pull? fuel q) _ = _
              rw [hrest]
              rfl

variable [Host η]

def process? (p : Program η) (unit : UnitId) : Option (Checked × Program η) := do
  let path ← p.state.graph.path? unit
  let ((signature, diagnostics), p) := p.examine path
  let p ← p.record? unit signature diagnostics
  return (⟨path, diagnostics⟩, p)

/-- No read fails when the unit in flight is rechecked. -/
theorem Flying.process?_eq {pass : Pass} {unit : UnitId} (h : p.Flying pass unit)
    (hqueue : p.pendingEmit.WellFormed) : p.process? unit = some (p.process unit) := by
  have hunit : unit < p.state.graph.size := h.bounded unit (h.mem_frontier.mpr (Or.inl rfl))
  obtain ⟨host, cancelled, hframe⟩ := examine_frame p (p.state.graph.pathOf unit)
  have hflying : Flying { p with host, cancelled } pass unit :=
    ⟨h.wellFormed, h.current, h.inFlight, h.accounts, h.bounded, h.fresh⟩
  rw [process?, process, Graph.path?_eq hunit]
  dsimp only [bind, Option.bind]
  rw [hframe, hflying.record?_eq hqueue]
  rfl

/-! ### Pulls -/

def pullCheck? (p : Program η) : Option (Except Error (Option Checked) × Program η) :=
  if p.phase = .done then some (.ok none, p)
  else if p.cancelled then some (.error .cancelled, p)
  else do
    match ← p.nextUnit? with
    | (none, p) => return (.ok none, p.finishChecking)
    | (some unit, p) =>
        let (checked, p) ← { p with phase := .iterating }.process? unit
        return (.ok (some checked), p)

/-- Emit the next unit after at most `fuel` rechecks. -/
def emitLoop? : Nat → Program η → Option (Except Error (Option Emitted) × Program η)
  | 0, p => some (.ok none, p)
  | fuel + 1, p =>
      if p.phase = .done then some (.ok none, p)
      else if p.cancelled then some (.error .cancelled, p)
      else
        match p.pendingEmit.next? with
        | some (entry, queue) =>
            let (emitted, p) := { p with pendingEmit := queue, phase := .emitPending }.emit entry
            some (.ok (some emitted), p)
        | none => do
            match ← p.nextUnit? with
            | (none, p) => return (.ok none, { p with phase := .done })
            | (some unit, p) =>
                let (_, p) ← { p with phase := .iterating }.process? unit
                emitLoop? fuel p

/-- Emit the next unit, rechecking affected units as long as no emit is requested. -/
def pullEmit? (p : Program η) : Option (Except Error (Option Emitted) × Program η) :=
  emitLoop? (p.state.size + 1) p

namespace InBounds

/-- No read fails when the unit that is handed out next is rechecked. -/
theorem process?_eq {unit : UnitId} (h : p.InBounds) (hnext : p.nextUnit = (some unit, q)) :
    process? { q with phase := .iterating } unit = some (process { q with phase := .iterating } unit) := by
  have hout := nextUnit_some h.phased.tidy hnext
  obtain ⟨pass, hflying⟩ := hout.flying h.phased.tidy
  have hiterating : Flying { q with phase := .iterating } pass unit :=
    ⟨hflying.wellFormed, hflying.current, hflying.inFlight, hflying.accounts, hflying.bounded,
      hflying.fresh⟩
  refine hiterating.process?_eq ?_
  rw [hout.same]
  exact h.phased.queue

/-- The pass that is under way after a recheck has a unit of the program as its root. -/
theorem recheck {unit : UnitId} (h : p.InBounds) (hnext : p.nextUnit = (some unit, q)) :
    (q.afterRecheck unit).InBounds := by
  refine ⟨h.phased.recheck hnext, ?_⟩
  have hunit : unit < p.state.graph.size :=
    h.phased.tidy.bounded unit (rechecks_of_nextUnit h.phased.tidy hnext).1.awaited
  obtain ⟨pass, roots, hout, hflight, rfl⟩ := handedOut_of_nextUnit h.phased.tidy hnext
  have hroot : pass.root < p.state.graph.size := by
    rcases hout.origin h.phased.tidy with ⟨current, hcurrent, _, hsame, _⟩ | ⟨_, _, _, _, hnew, _⟩
    · rw [hsame]
      exact h.root current hcurrent
    · rw [hnew]
      exact hunit
  obtain ⟨_, _, hlater⟩ := afterRecheck_eq (p := { p with current := some pass, roots }) unit rfl
  rw [hlater]
  intro later hcurrent
  rw [← Option.some.inj hcurrent, (Pass.complete_within hflight).1]
  exact hroot

theorem pullCheck (h : p.InBounds) : p.pullCheck.2.InBounds := by
  refine ⟨h.phased.pullCheck, ?_⟩
  have hpull := pullsCheck p
  generalize p.pullCheck.1 = result, p.pullCheck.2 = q at hpull
  cases hpull with
  | done => exact h.root
  | refused => exact h.root
  | exhausted _ _ _ next =>
      rw [eq_of_nextUnit_none next]
      exact fun _ hpass => by cases hpass
  | rechecked _ _ next => exact (h.recheck next).root

theorem pullEmit (h : p.InBounds) : p.pullEmit.2.InBounds := by
  have hpull := h.phased.tidy.pullsEmit
  refine ⟨h.phased.pullEmit hpull, ?_⟩
  generalize emitLog (p.state.size + 1) p = log, p.pullEmit.1 = result, p.pullEmit.2 = q at hpull
  induction hpull with
  | done => exact h.root
  | refused => exact h.root
  | @emitted p entry queue _ _ _ =>
      obtain ⟨host, deferred, hframe⟩ :=
        emit_frame { p with pendingEmit := queue, phase := .emitPending } entry
      rw [hframe]
      exact h.root
  | exhausted _ _ _ next =>
      rw [eq_of_nextUnit_none next.eq_nextUnit.symm]
      exact fun _ hpass => by cases hpass
  | rechecked _ _ _ next _ ih => exact ih (h.recheck next.eq_nextUnit.symm)

theorem pullCheck?_eq (h : p.InBounds) : p.pullCheck? = some p.pullCheck := by
  rw [pullCheck?, Program.pullCheck]
  split
  · rfl
  · split
    · rfl
    · rw [h.nextUnit?_eq]
      rcases hnext : p.nextUnit with ⟨next, q⟩
      cases next with
      | none => rfl
      | some unit =>
          show Option.bind (process? { q with phase := .iterating } unit) _ = _
          rw [h.process?_eq hnext]
          rfl

theorem emitLoop?_eq (h : p.InBounds) (fuel : Nat) : emitLoop? fuel p = some (emitLoop fuel p) := by
  induction fuel generalizing p with
  | zero => rfl
  | succ fuel ih =>
      rw [emitLoop?, emitLoop]
      split
      · rfl
      · split
        · rfl
        · cases p.pendingEmit.next? with
          | some next => rfl
          | none =>
              dsimp only
              rw [h.nextUnit?_eq]
              rcases hnext : p.nextUnit with ⟨next, q⟩
              cases next with
              | none => rfl
              | some unit =>
                  show Option.bind (process? { q with phase := .iterating } unit) _ = _
                  rw [h.process?_eq hnext]
                  exact ih (h.recheck hnext)

theorem pullEmit?_eq (h : p.InBounds) : p.pullEmit? = some p.pullEmit :=
  h.emitLoop?_eq _

end InBounds

/-! ### Drains -/

def drainChecks? (p : Program η) : Option (Drained Checked × Program η) :=
  pullAll? pullCheck? (p.state.size + 1) p

def drainEmits? (p : Program η) : Option (Drained Emitted × Program η) :=
  pullAll? pullEmit? p.emitBound p

/-- **No read fails when all affected units are rechecked.** -/
theorem InBounds.drainChecks?_eq (h : p.InBounds) :
    p.drainChecks? = some p.drainChecks ∧ p.drainChecks.2.InBounds :=
  pullAll?_eq (fun _ hp => ⟨hp.pullCheck?_eq, hp.pullCheck⟩) (fun _ => rfl)
    (fun _ _ _ _ hpull => by rw [drainChecksLoop, hpull])
    (fun _ _ _ hpull => by rw [drainChecksLoop, hpull])
    (fun _ _ _ _ hpull => by rw [drainChecksLoop, hpull]) _ h

/-- **No read fails when everything is emitted.** -/
theorem InBounds.drainEmits?_eq (h : p.InBounds) :
    p.drainEmits? = some p.drainEmits ∧ p.drainEmits.2.InBounds :=
  pullAll?_eq (fun _ hp => ⟨hp.pullEmit?_eq, hp.pullEmit⟩) (fun _ => rfl)
    (fun _ _ _ _ hpull => by rw [drainEmitsLoop, hpull])
    (fun _ _ _ hpull => by rw [drainEmitsLoop, hpull])
    (fun _ _ _ _ hpull => by rw [drainEmitsLoop, hpull]) _ h

end Program

end Rebuild
