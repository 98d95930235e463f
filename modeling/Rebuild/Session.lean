import Rebuild.BuildInfo.Store
import Rebuild.Program.Basic
import Rebuild.Program.Pull

/-!
# Sessions

A session is a program together with the store of its build info document.

* `runCycle`: recheck what is affected, emit what is requested and store the document.  The document
  is stored whatever happened before, and a failure to store it comes first.  Cancellation is no
  failure: the report says that the cycle stopped early;
* `watch`: one cycle, then one for every batch of reported changes.  A batch is what is found queued
  when the session looks; a request to stop anywhere in it ends the session.  A batch whose snapshot
  fails is dropped.

What happens between two looks at the queue is given as a list of rounds.
-/

namespace Rebuild

structure CycleReport where
  checked : List Checked := []
  emitted : List Emitted := []
  /-- The cycle stopped early and left work for the next one. -/
  cancelled : Bool := false
  deriving Repr, DecidableEq

namespace CycleReport

/-- The diagnostics of the rechecked units, then those of the emits. -/
def diagnostics (r : CycleReport) : List Diagnostic :=
  r.checked.flatMap (·.diagnostics) ++ r.emitted.flatMap (·.diagnostics)

def errorCount (r : CycleReport) : Nat :=
  (r.diagnostics.filter (·.isError)).length

/-- The lines that tell about a cycle: its diagnostics and a summary. -/
def lines (r : CycleReport) : List String :=
  r.diagnostics.map Diagnostic.render
    ++ ["checked " ++ toString r.checked.length ++ " unit(s), emitted "
      ++ toString r.emitted.length ++ " unit(s), " ++ toString r.errorCount ++ " error(s)"
      ++ (if r.cancelled then " (cancelled)" else "")]

end CycleReport

/-- A message to a session. -/
inductive Event where
  /-- Some units changed. -/
  | changed (paths : List UnitPath)
  /-- The session has to end. -/
  | shutdown
  deriving Repr, DecidableEq

namespace Event

/-- All paths of a batch, in order; `none` when the batch asks to stop. -/
def merge? : List Event → Option (List UnitPath)
  | [] => some []
  | .shutdown :: _ => none
  | .changed paths :: rest => (merge? rest).map (paths ++ ·)

end Event

/-- What happens while a session waits: something changes, and then events arrive. -/
structure Round (η : Type) where
  /-- What changes. -/
  edit : Program η → Program η
  /-- What arrives. -/
  events : List Event

/-- A program with the store of its document. -/
structure Session (η τ : Type) where
  program : Program η
  store : τ

structure Watched (η τ : Type) where
  /-- The reports of all finished cycles, in order. -/
  cycles : List CycleReport
  /-- The last report, or the failure that ended the session. -/
  outcome : Except Error CycleReport
  session : Session η τ
  /-- The number of rounds that took place. -/
  roundsUsed : Nat

namespace Session

variable {η τ : Type} [Host η] [Store τ η]

/-- A short description: the phase and the number of units. -/
def describe (s : Session η τ) : String :=
  "Driver \x7b phase: " ++ s.program.phase.name ++ ", units: "
    ++ toString s.program.state.size ++ ", .. \x7d"

/-- Recheck, then emit, up to the first failure. -/
def drain (p : Program η) : (CycleReport × Option Error) × Program η :=
  match p.drainChecks with
  | (⟨checked, some e⟩, p) => (({ checked }, some e), p)
  | (⟨checked, none⟩, p) =>
      let (drained, p) := p.drainEmits
      (({ checked, emitted := drained.results }, drained.stopped), p)

def persist (s : Session η τ) : Except Error Unit × Session η τ :=
  let (outcome, store, host) := Store.save s.store s.program.host s.program.buildInfoText
  (outcome, ⟨{ s.program with host }, store⟩)

def runCycle (s : Session η τ) : Except Error CycleReport × Session η τ :=
  let ((report, stopped), program) := drain s.program
  match persist { s with program } with
  | (.error e, s) => (.error e, s)
  | (.ok (), s) =>
      match stopped with
      | none => (.ok report, s)
      | some .cancelled => (.ok { report with cancelled := true }, s)
      | some e => (.error e, s)

/-- Go through the rounds; `last` is the report of the latest cycle. -/
def watchRounds (s : Session η τ) (last : CycleReport) : List (Round η) → Watched η τ
  | [] => ⟨[], .ok last, s, 0⟩
  | round :: rounds =>
      let used := fun (w : Watched η τ) => { w with roundsUsed := w.roundsUsed + 1 }
      let s := { s with program := round.edit s.program }
      if round.events.isEmpty then used (s.watchRounds last rounds)
      else
        match Event.merge? round.events with
        | none => ⟨[], .ok last, s, 1⟩
        | some paths =>
            match s.program.reportChanged paths with
            | (.error _, program) => used (watchRounds { s with program } last rounds)
            | (.ok (), program) =>
                match runCycle { s with program } with
                | (.error e, s) => ⟨[], .error e, s, 1⟩
                | (.ok report, s) =>
                    if report.cancelled then ⟨[report], .ok report, s, 1⟩
                    else
                      let w := used (s.watchRounds report rounds)
                      { w with cycles := report :: w.cycles }

/-- Run one cycle and, when watching, one for every batch: first for the events that are queued
already, then for those of the rounds. -/
def watch (s : Session η τ) (watching : Bool) (queued : List Event) (rounds : List (Round η)) :
    Watched η τ :=
  match s.runCycle with
  | (.error e, s) => ⟨[], .error e, s, 0⟩
  | (.ok report, s) =>
      if !watching || report.cancelled then ⟨[report], .ok report, s, 0⟩
      else
        let w := s.watchRounds report (⟨id, queued⟩ :: rounds)
        { w with cycles := report :: w.cycles, roundsUsed := w.roundsUsed - 1 }

end Session

end Rebuild
