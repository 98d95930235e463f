import Rebuild.Proofs.Answers
import Rebuild.Proofs.Insist

/-!
# Recorded hosts

Every host can be wrapped into one that keeps a record of what it is asked.

* `Recorded`: a host with the requests that were made of it, and `Program.recorded`: a program over it,
  before any request;
* `Recorded.checks`, `Recorded.emits`: the units that it was asked to check and to emit;
* `Recorded.mirrors`: the record makes no difference to the program;
* `Program.Insists.recorded`: whatever a caller insists on can be recorded;
* `Answers.recorded`: a host still answers about its latest snapshot.
-/

namespace Rebuild

/-- A request that a program makes of its host. -/
inductive HostCall where
  | snapshot (changed : List UnitPath)
  | check (unit : UnitPath)
  | interface (unit : UnitPath)
  | emit (unit : UnitPath) (kind : EmitKind)
  deriving Repr, DecidableEq

/-- A host with the requests that were made of it, in order. -/
structure Recorded (η : Type) where
  host : η
  calls : List HostCall := []

namespace Recorded

variable {η : Type}

/-- The record after another request, which left the host in another state. -/
def asked (r : Recorded η) (call : HostCall) (host : η) : Recorded η :=
  ⟨host, r.calls ++ [call]⟩

def checks (r : Recorded η) : List UnitPath :=
  r.calls.filterMap fun call =>
    match call with
    | .check unit => some unit
    | _ => none

def emits (r : Recorded η) : List PendingEmit :=
  r.calls.filterMap fun call =>
    match call with
    | .emit unit kind => some ⟨unit, kind⟩
    | _ => none

variable [Host η]

instance : Host (Recorded η) where
  snapshot r changed :=
    ((Host.snapshot r.host changed).1, r.asked (.snapshot changed) (Host.snapshot r.host changed).2)
  check r unit := ((Host.check r.host unit).1, r.asked (.check unit) (Host.check r.host unit).2)
  interface r unit :=
    ((Host.interface r.host unit).1, r.asked (.interface unit) (Host.interface r.host unit).2)
  emit r unit kind :=
    ((Host.emit r.host unit kind).1, r.asked (.emit unit kind) (Host.emit r.host unit kind).2)
  counts r := Host.counts r.host
  policy r := Host.policy r.host

/-- The record makes no difference. -/
theorem mirrors : Mirrors (host : Recorded η → η) id where
  going := rfl
  outcome _ _ := rfl
  cancels _ _ _ := rfl
  checked _ _ := rfl
  interface _ _ := rfl
  emit _ _ _ := rfl
  counts _ := rfl

end Recorded

namespace Program

variable {η α : Type} {p q : Program η}

def recorded (p : Program η) : Program (Recorded η) :=
  p.image (fun host => ⟨host, []⟩) id

/-- The program without the record. -/
def plain (p : Program (Recorded η)) : Program η :=
  p.image Recorded.host id

@[simp] theorem plain_recorded (p : Program η) : p.recorded.plain = p := rfl

/-- Whatever a caller insists on can be recorded. -/
theorem Insists.recorded {attempt : Program η → Except Error α × Program η}
    {attempt' : Program (Recorded η) → Except Error α × Program (Recorded η)} (hgoes : GoesOn attempt')
    (hplain : ∀ r : Program (Recorded η), r.Tidy →
      attempt r.plain = ((attempt' r).1, (attempt' r).2.plain))
    {result : α} (h : Insists attempt p result q) {r : Program (Recorded η)} (htidy : r.Tidy)
    (hr : r.plain = p) : ∃ s, Insists attempt' r result s ∧ s.plain = q := by
  induction h generalizing r with
  | granted signal answer =>
      subst hr
      have hsame := hplain _ (htidy.token signal)
      rw [show ({ r with cancelled := signal } : Program (Recorded η)).plain = { r.plain with
        cancelled := signal } from rfl, answer] at hsame
      rcases hanswer : attempt' { r with cancelled := signal } with ⟨answer', s⟩
      rw [hanswer] at hsame
      cases hsame
      exact ⟨s, .granted signal hanswer, rfl⟩
  | refused signal answer _ ih =>
      subst hr
      have hsame := hplain _ (htidy.token signal)
      rw [show ({ r with cancelled := signal } : Program (Recorded η)).plain = { r.plain with
        cancelled := signal } from rfl, answer] at hsame
      have hadvances := (hgoes _ (htidy.token signal)).1
      rcases hanswer : attempt' { r with cancelled := signal } with ⟨answer', s⟩
      rw [hanswer] at hsame hadvances
      cases hsame
      obtain ⟨t, hagain, ht⟩ := ih hadvances.tidy rfl
      exact ⟨t, .refused signal hanswer hagain, ht⟩

variable [Host η]

theorem plain_pullCheck (p : Program (Recorded η)) :
    p.plain.pullCheck = (p.pullCheck.1, p.pullCheck.2.plain) := by
  rcases hpull : p.pullCheck with ⟨answer, q⟩
  cases answer with
  | ok result => exact Recorded.mirrors.pullCheck_of_ok hpull
  | error e =>
      obtain ⟨rfl, rfl, going, cancelled⟩ := pullCheck_of_error hpull
      exact pullCheck_of_cancelled (p := q.plain) going cancelled

theorem Tidy.plain_pullEmit {p : Program (Recorded η)} (htidy : p.Tidy) :
    p.plain.pullEmit = (p.pullEmit.1, p.pullEmit.2.plain) := by
  have hpull := htidy.pullsEmit
  rcases hanswer : p.pullEmit with ⟨answer, q⟩
  rw [hanswer] at hpull
  cases answer with
  | ok result => exact (htidy.image Recorded.host id).pullEmit_eq (hpull.image_of_ok Recorded.mirrors)
  | error e =>
      obtain ⟨rfl, going, cancelled⟩ := hpull.of_error
      have hrefused : q.plain.PullsEmit [] (.error .cancelled) q.plain := .refused going cancelled
      exact (htidy.image Recorded.host id).pullEmit_eq (hpull.image_of_error Recorded.mirrors hrefused)

end Program

/-- A host whose requests are recorded answers about its latest snapshot if it did so before. -/
def Answers.recorded {η : Type} [Host η] (A : Answers η) : Answers (Recorded η) where
  World := A.World
  view := A.view
  At r w := A.At r.host w
  check := A.check
  sign := A.sign
  check_at hat unit := A.check_at hat unit
  interface_at hat unit := A.interface_at hat unit
  emit_at hat unit kind := A.emit_at hat unit kind

end Rebuild
