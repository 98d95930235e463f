import Rebuild.Program.Basic

/-!
# Pulls

Within a round, work is pulled from a program one unit at a time.

* `nextUnit`: choose the next affected unit;
* `examine`: ask the host to check and sign a unit;
* `process`: examine a unit, store its diagnostics and signature, request its emit and let the
  current pass propagate;
* `pullCheck`: recheck the next affected unit;
* `pullEmit`: emit the next unit, rechecking affected units as long as no emit is requested;
* `drainChecks`, `drainEmits`: pull until nothing is left or a pull fails;
* `checkAll`, `emitAll`: the same, where a failure loses the results;
* `diagnosticsOf`, `allDiagnostics`: diagnostics on demand, outside the order of the round.

A failing host never stops a round: a diagnostic stands in for what it did not deliver.  A
cancelled program refuses every pull, unless it is done.
-/

namespace Rebuild

structure Checked where
  unit : UnitPath
  diagnostics : List Diagnostic
  deriving Repr, DecidableEq

structure Emitted where
  unit : UnitPath
  kind : EmitKind
  writtenFiles : List String
  diagnostics : List Diagnostic
  deriving Repr, DecidableEq

/-- What pulling until nothing was left delivered, and the failure that stopped it early. -/
structure Drained (α : Type) where
  results : List α := []
  stopped : Option Error := none

namespace Drained

variable {α : Type}

def after (d : Drained α) (result : α) : Drained α :=
  { d with results := result :: d.results }

/-- All results, unless a failure stopped the pulling. -/
def complete (d : Drained α) : Except Error (List α) :=
  match d.stopped with
  | some e => .error e
  | none => .ok d.results

end Drained

namespace Program

variable {η : Type} [Host η]

/-! ### The next unit -/

/-- Start the pass of the first root that is not processed. -/
def nextRoot (p : Program η) : Option UnitId × Program η :=
  match p.roots.dropWhile fun root => p.processed.contains root.unit with
  | [] => (none, { p with current := none, roots := [] })
  | root :: rest =>
      let (unit, pass) := (Pass.start root.unit root.isGlobal).next? p.processed
      (unit, { p with current := some pass, roots := rest })

/-- The next affected unit: from the current pass, or else from the next root. -/
def nextUnit (p : Program η) : Option UnitId × Program η :=
  match p.current with
  | none => p.nextRoot
  | some pass =>
      match pass.next? p.processed with
      | (some unit, pass) => (some unit, { p with current := some pass })
      | (none, _) => p.nextRoot

/-! ### Rechecking a unit -/

/-- Check a unit with the host: its diagnostics, and whether the check went through. -/
def checkUnit (p : Program η) (path : UnitPath) : (List Diagnostic × Bool) × Program η :=
  let (reply, host) := Host.check p.host path
  let p := { p with host, cancelled := p.cancelled || reply.cancels }
  match reply.outcome with
  | .ok diagnostics => ((diagnostics, true), p)
  | .error e => (([Diagnostic.hostFailure path "check" e.message], false), p)

/-- The signature of a checked unit, and the diagnostics about it. -/
def signUnit (p : Program η) (path : UnitPath) : (Signature × List Diagnostic) × Program η :=
  match Host.interface p.host path with
  | (.ok interface, host) =>
      ((.known (interface.signature (Host.counts host)), []), { p with host })
  | (.error e, host) =>
      ((.unknown, [Diagnostic.hostFailure path "interface" e.message]), { p with host })

/-- Let the current pass go on after `unit` was rechecked, and forget the cached diagnostics of
the units that it puts into its queue. -/
def propagate (p : Program η) (unit : UnitId) (isGlobal moved : Bool) : Program η :=
  match p.current with
  | none => p
  | some pass =>
      let (pass, queued) := pass.complete p.state.graph isGlobal unit moved p.processed
      { p with
        current := some pass
        cache := p.cache.invalidateAll (queued.map p.state.graph.pathOf) }

/-- Store what a recheck of `unit` found: the signature, the diagnostics, and a request to emit
declarations when the signature of an unchanged text moved. -/
def record (p : Program η) (unit : UnitId) (signature : Signature)
    (diagnostics : List Diagnostic) : Program η :=
  let path := p.state.graph.pathOf unit
  let moved := p.state.moves unit signature
  let info := (p.state.info? unit).getD { version := "" }
  let p := { p with
    state := p.state.sign unit signature
    cache := p.cache.commit path info.version diagnostics
    processed := p.processed ++ [unit]
    pendingEmit :=
      if moved && p.options.emitDeclarations && !p.changed.contains unit then
        p.pendingEmit.push path .types
      else p.pendingEmit }
  p.propagate unit info.isGlobal moved

/-- Check and sign a unit: the signature that was found, and the diagnostics.  A unit whose check
failed is not signed. -/
def examine (p : Program η) (path : UnitPath) : (Signature × List Diagnostic) × Program η :=
  match p.checkUnit path with
  | ((found, true), p) =>
      let ((signature, about), p) := p.signUnit path
      ((signature, found ++ about), p)
  | ((found, false), p) => ((.unknown, found), p)

def process (p : Program η) (unit : UnitId) : Checked × Program η :=
  let path := p.state.graph.pathOf unit
  let ((signature, diagnostics), p) := p.examine path
  (⟨path, diagnostics⟩, p.record unit signature diagnostics)

/-! ### Pulling checks -/

/-- The phase after the affected units were found to be exhausted. -/
def finishChecking (p : Program η) : Program η :=
  match p.phase with
  | .created => { p with phase := if p.pendingEmit.isEmpty then .done else .fullyChecked }
  | .iterating => { p with phase := if p.pendingEmit.isEmpty then .done else .fullyChecked }
  | _ => p

/-- Recheck the next affected unit; `none` when there is none left in this round. -/
def pullCheck (p : Program η) : Except Error (Option Checked) × Program η :=
  if p.phase = .done then (.ok none, p)
  else if p.cancelled then (.error .cancelled, p)
  else
    match p.nextUnit with
    | (none, p) => (.ok none, p.finishChecking)
    | (some unit, p) =>
        let (checked, p) := { p with phase := .iterating }.process unit
        (.ok (some checked), p)

/-- Pull checks until there are none, at most `fuel` of them. -/
def drainChecksLoop : Nat → Program η → Drained Checked × Program η
  | 0, p => ({}, p)
  | fuel + 1, p =>
      match p.pullCheck with
      | (.error e, p) => ({ stopped := some e }, p)
      | (.ok none, p) => ({}, p)
      | (.ok (some checked), p) =>
          let (drained, p) := drainChecksLoop fuel p
          (drained.after checked, p)

/-- Recheck every affected unit of this round, or stop at a failure.  Each pull rechecks a unit that
was not rechecked before, so there are at most as many as units. -/
def drainChecks (p : Program η) : Drained Checked × Program η :=
  drainChecksLoop (p.state.size + 1) p

def checkAll (p : Program η) : Except Error (List Checked) × Program η :=
  let (drained, p) := p.drainChecks
  (drained.complete, p)

/-! ### Pulling emits -/

/-- Emit a unit; a failed emit is deferred to the next round. -/
def emit (p : Program η) (entry : PendingEmit) : Emitted × Program η :=
  match Host.emit p.host entry.unit entry.kind with
  | (.ok output, host) =>
      (⟨entry.unit, entry.kind, output.writtenFiles, output.diagnostics⟩, { p with host })
  | (.error e, host) =>
      (⟨entry.unit, entry.kind, [], [Diagnostic.hostFailure entry.unit "emit" e.message]⟩,
        { p with host, deferred := p.deferred ++ [entry] })

/-- Emit the next unit after at most `fuel` rechecks. -/
def emitLoop : Nat → Program η → Except Error (Option Emitted) × Program η
  | 0, p => (.ok none, p)
  | fuel + 1, p =>
      if p.phase = .done then (.ok none, p)
      else if p.cancelled then (.error .cancelled, p)
      else
        match p.pendingEmit.next? with
        | some (entry, queue) =>
            let (emitted, p) := { p with pendingEmit := queue, phase := .emitPending }.emit entry
            (.ok (some emitted), p)
        | none =>
            match p.nextUnit with
            | (none, p) => (.ok none, { p with phase := .done })
            | (some unit, p) => emitLoop fuel ({ p with phase := .iterating }.process unit).2

/-- Emit the next unit, rechecking affected units as long as no emit is requested; `none` when
nothing is left.  No unit is rechecked twice, which bounds the rechecks. -/
def pullEmit (p : Program η) : Except Error (Option Emitted) × Program η :=
  emitLoop (p.state.size + 1) p

/-- A bound on the emits of this round: what remains, and one for each unit that may still be
rechecked. -/
def emitBound (p : Program η) : Nat :=
  p.pendingEmit.remaining.length + p.state.size + 1

/-- Pull emits until there are none, at most `fuel` of them. -/
def drainEmitsLoop : Nat → Program η → Drained Emitted × Program η
  | 0, p => ({}, p)
  | fuel + 1, p =>
      match p.pullEmit with
      | (.error e, p) => ({ stopped := some e }, p)
      | (.ok none, p) => ({}, p)
      | (.ok (some emitted), p) =>
          let (drained, p) := drainEmitsLoop fuel p
          (drained.after emitted, p)

/-- Emit everything that is requested in this round, or stop at a failure. -/
def drainEmits (p : Program η) : Drained Emitted × Program η :=
  drainEmitsLoop p.emitBound p

def emitAll (p : Program η) : Except Error (List Emitted) × Program η :=
  let (drained, p) := p.drainEmits
  (drained.complete, p)

/-! ### Diagnostics on demand -/

/-- The diagnostics of a unit: from the cache, or else from a check that changes nothing but the
cache and the host. -/
def diagnosticsOf (p : Program η) (unit : String) :
    Except Error (List Diagnostic) × Program η :=
  let path := UnitPath.normalize unit
  match p.cache.get? path with
  | some cached => (.ok cached, p)
  | none =>
      match p.state.infoOf? path with
      | none => (.error (.unknownUnit path), p)
      | some info =>
          let ((diagnostics, _), p) := p.checkUnit path
          (.ok diagnostics, { p with cache := p.cache.commit path info.version diagnostics })

def diagnosticsOfAll : List UnitPath → Program η → Except Error (List Diagnostic) × Program η
  | [], p => (.ok [], p)
  | path :: paths, p =>
      match p.diagnosticsOf path with
      | (.error e, p) => (.error e, p)
      | (.ok diagnostics, p) =>
          match diagnosticsOfAll paths p with
          | (.error e, p) => (.error e, p)
          | (.ok rest, p) => (.ok (diagnostics ++ rest), p)

def allDiagnostics (p : Program η) : Except Error (List Diagnostic) × Program η :=
  diagnosticsOfAll p.state.graph.paths p

def cachedDiagnostics (p : Program η) (unit : String) : Option (List Diagnostic) :=
  p.cache.get? (UnitPath.normalize unit)

/-- A unit and its direct and indirect dependencies, breadth first. -/
def dependenciesOf (p : Program η) (unit : String) : Except Error (List UnitPath) :=
  let path := UnitPath.normalize unit
  match p.state.graph.idOf? path with
  | none => .error (.unknownUnit path)
  | some id => .ok ((p.state.graph.allDependenciesOf id).map p.state.graph.pathOf)

end Program

end Rebuild
