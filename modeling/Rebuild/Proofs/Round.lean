import Rebuild.Program.Pull

/-!
# Rounds

A round is what happens between two updates of a program: checks and emits are pulled,
diagnostics are asked for, the host's surroundings change, the build is cancelled or resumed, and
options are switched that change no result.

* `Call`: what a caller can do within a round, and `Call.log`: the rechecks it causes, in order;
* `Step`: the elementary steps every call is made of, and `Steps`: several of them;
* `Steps.play`: what a caller does within a round is a sequence of elementary steps.
-/

namespace Rebuild

structure Recheck where
  unit : UnitId
  path : UnitPath
  /-- The signature moved. -/
  moved : Bool
  /-- The unit was recorded as global. -/
  isGlobal : Bool
  deriving Repr, DecidableEq

namespace Program

variable {η : Type} [Host η]

/-! ### Calls and their rechecks -/

/-- What the host has to say about a unit: its signature and its diagnostics. -/
def found (p : Program η) (unit : UnitId) : Signature × List Diagnostic :=
  (p.examine (p.state.graph.pathOf unit)).1

/-- The recheck of a unit that is about to be processed. -/
def recheckOf (p : Program η) (unit : UnitId) : Recheck where
  unit := unit
  path := p.state.graph.pathOf unit
  moved := p.state.moves unit (p.found unit).1
  isGlobal := (p.state.info? unit).any (·.isGlobal)

/-- The program after a unit that was handed out is rechecked. -/
def afterRecheck (p : Program η) (unit : UnitId) : Program η :=
  ({ p with phase := .iterating }.process unit).2

/-- The rechecks of a pull of a check: one, or none. -/
def checkLog (p : Program η) : List Recheck :=
  if p.phase = .done then []
  else if p.cancelled then []
  else
    match p.nextUnit with
    | (none, _) => []
    | (some unit, p) => [p.recheckOf unit]

/-- The rechecks of a pull of an emit, at most `fuel` of them. -/
def emitLog : Nat → Program η → List Recheck
  | 0, _ => []
  | fuel + 1, p =>
      if p.phase = .done then []
      else if p.cancelled then []
      else
        match p.pendingEmit.next? with
        | some _ => []
        | none =>
            match p.nextUnit with
            | (none, _) => []
            | (some unit, p) => p.recheckOf unit :: emitLog fuel (p.afterRecheck unit)

end Program

/-- What a caller can do within a round. -/
inductive Call (η : Type) where
  /-- Pull a check. -/
  | check
  /-- Pull an emit. -/
  | emit
  /-- Ask for the diagnostics of a unit. -/
  | demand (unit : String)
  /-- Ask for the diagnostics of every unit. -/
  | demandAll
  /-- Change the surroundings of the host. -/
  | edit (change : η → η)
  /-- Cancel the build, or resume it. -/
  | token (cancelled : Bool)
  /-- Switch to options that start no new round. -/
  | switch (options : Options)

namespace Call

variable {η : Type}

/-- The call changes the surroundings of the host in an allowed way, if at all. -/
def Within (allowed : (η → η) → Prop) : Call η → Prop
  | .edit change => allowed change
  | _ => True

theorem within_of_forall {allowed : (η → η) → Prop} (h : ∀ change, allowed change) (c : Call η) :
    c.Within allowed := by
  cases c with
  | edit change => exact h change
  | _ => trivial

variable [Host η]

def run : Call η → Program η → Program η
  | .check, p => p.pullCheck.2
  | .emit, p => p.pullEmit.2
  | .demand unit, p => (p.diagnosticsOf unit).2
  | .demandAll, p => p.allDiagnostics.2
  | .edit change, p => { p with host := change p.host }
  | .token cancelled, p => { p with cancelled }
  | .switch options, p => { p with options }

def log : Call η → Program η → List Recheck
  | .check, p => p.checkLog
  | .emit, p => Program.emitLog (p.state.size + 1) p
  | _, _ => []

def play : List (Call η) → Program η → List Recheck × Program η
  | [], p => ([], p)
  | call :: calls, p =>
      let rest := play calls (call.run p)
      (call.log p ++ rest.1, rest.2)

/-- What each of several calls keeps, all of them keep. -/
theorem play_keeps {motive : Program η → Prop} {given : Call η → Prop}
    (hcall : ∀ {p : Program η} {c : Call η}, motive p → given c → motive (c.run p))
    {calls : List (Call η)} (hcalls : ∀ c ∈ calls, given c) {p : Program η} (hp : motive p) :
    motive (play calls p).2 := by
  induction calls generalizing p with
  | nil => exact hp
  | cons c calls ih =>
      rw [List.forall_mem_cons] at hcalls
      exact ih hcalls.2 (hcall hp hcalls.1)

end Call

/-! ### Elementary steps -/

/-- An elementary step within a round, with the rechecks that it causes.  The surroundings of the
host change in the allowed ways only. -/
inductive Step {η : Type} [Host η] (allowed : (η → η) → Prop) :
    Program η → List Recheck → Program η → Prop
  /-- The next unit is rechecked. -/
  | recheck {p q : Program η} {unit : UnitId} (next : p.nextUnit = (some unit, q)) :
      Step allowed p [q.recheckOf unit] (q.afterRecheck unit)
  /-- No unit is left. -/
  | exhaust {p q : Program η} (phase : Phase) (next : p.nextUnit = (none, q)) :
      Step allowed p [] { q with phase }
  /-- A unit is emitted. -/
  | emit {p : Program η} (queue : EmitQueue) (entry : PendingEmit) :
      Step allowed p [] ({ p with pendingEmit := queue, phase := .emitPending }.emit entry).2
  /-- The diagnostics of a unit are asked for. -/
  | demand {p : Program η} (unit : String) : Step allowed p [] (p.diagnosticsOf unit).2
  /-- The surroundings of the host change. -/
  | edit {p : Program η} (change : η → η) (hallowed : allowed change) :
      Step allowed p [] { p with host := change p.host }
  /-- The build is cancelled or resumed. -/
  | token {p : Program η} (cancelled : Bool) : Step allowed p [] { p with cancelled }
  /-- Other options are in force. -/
  | switch {p : Program η} (options : Options) : Step allowed p [] { p with options }

/-- Several elementary steps, with the rechecks that they cause. -/
inductive Steps {η : Type} [Host η] (allowed : (η → η) → Prop) :
    Program η → List Recheck → Program η → Prop
  | refl (p : Program η) : Steps allowed p [] p
  | head {p q r : Program η} {log rest : List Recheck} :
      Step allowed p log q → Steps allowed q rest r → Steps allowed p (log ++ rest) r

namespace Steps

variable {η : Type} [Host η] {allowed : (η → η) → Prop} {p q r : Program η}
variable {log rest : List Recheck}

theorem single (h : Step allowed p log q) : Steps allowed p log q := by
  have hsteps := Steps.head h (Steps.refl q)
  rwa [List.append_nil] at hsteps

theorem trans (h : Steps allowed p log q) (hrest : Steps allowed q rest r) :
    Steps allowed p (log ++ rest) r := by
  induction h with
  | refl p => exact hrest
  | head hstep _ ih =>
      rw [List.append_assoc]
      exact Steps.head hstep (ih hrest)

/-- **What each step keeps, all steps keep.**  This may be said about the program and about everything that
was rechecked before. -/
theorem induct {motive : Program η → List Recheck → Prop}
    (hstep : ∀ {q r : Program η} {made more : List Recheck}, motive q made → Step allowed q more r →
      motive r (made ++ more))
    (made : List Recheck) (hp : motive p made) (h : Steps allowed p log q) : motive q (made ++ log) := by
  induction h generalizing made with
  | refl =>
      rw [List.append_nil]
      exact hp
  | head hfirst _ ih =>
      rw [← List.append_assoc]
      exact ih _ (hstep hp hfirst)

/-- What each step keeps of a program, all steps keep. -/
theorem keeps {motive : Program η → Prop}
    (hstep : ∀ {q r : Program η} {more : List Recheck}, motive q → Step allowed q more r → motive r)
    (hp : motive p) (h : Steps allowed p log q) : motive q :=
  Steps.induct (motive := fun q _ => motive q) hstep [] hp h

/-! ### Calls are made of steps -/

theorem pullCheck (p : Program η) : Steps allowed p p.checkLog p.pullCheck.2 := by
  rw [Program.checkLog, Program.pullCheck]
  split
  · exact Steps.refl p
  · split
    · exact Steps.refl p
    · cases hnext : p.nextUnit with
      | mk unit q =>
          cases unit with
          | none =>
              have hphase : ∃ phase, q.finishChecking = { q with phase } := by
                rw [Program.finishChecking]
                split
                · exact ⟨_, rfl⟩
                · exact ⟨_, rfl⟩
                · exact ⟨q.phase, rfl⟩
              obtain ⟨phase, hphase⟩ := hphase
              show Steps allowed p [] q.finishChecking
              rw [hphase]
              exact single (Step.exhaust phase hnext)
          | some unit => exact single (Step.recheck hnext)

theorem emitLoop (fuel : Nat) (p : Program η) :
    Steps allowed p (Program.emitLog fuel p) (Program.emitLoop fuel p).2 := by
  induction fuel generalizing p with
  | zero => exact Steps.refl p
  | succ fuel ih =>
      rw [Program.emitLog, Program.emitLoop]
      split
      · exact Steps.refl p
      · split
        · exact Steps.refl p
        · cases hemit : p.pendingEmit.next? with
          | some found =>
              obtain ⟨entry, queue⟩ := found
              exact single (Step.emit queue entry)
          | none =>
              cases hnext : p.nextUnit with
              | mk unit q =>
                  cases unit with
                  | none => exact single (Step.exhaust .done hnext)
                  | some unit => exact Steps.head (Step.recheck hnext) (ih _)

theorem diagnosticsOfAll (paths : List UnitPath) (p : Program η) :
    Steps allowed p [] (Program.diagnosticsOfAll paths p).2 := by
  induction paths generalizing p with
  | nil => exact Steps.refl p
  | cons path paths ih =>
      rw [Program.diagnosticsOfAll]
      have hfirst : Step allowed p [] (p.diagnosticsOf path).2 := Step.demand path
      cases hdemand : p.diagnosticsOf path with
      | mk result q =>
          rw [hdemand] at hfirst
          cases result with
          | error e => exact single hfirst
          | ok found =>
              have hrest := Steps.head hfirst (ih q)
              cases hall : Program.diagnosticsOfAll paths q with
              | mk results r =>
                  rw [hall] at hrest
                  simp only [hall]
                  cases results with
                  | error e => exact hrest
                  | ok rest => exact hrest

/-- Every call is a sequence of elementary steps, with the rechecks of its log. -/
theorem call {c : Call η} (hc : c.Within allowed) (p : Program η) :
    Steps allowed p (c.log p) (c.run p) := by
  cases c with
  | check => exact pullCheck p
  | emit => exact emitLoop _ p
  | demand unit => exact single (Step.demand unit)
  | demandAll => exact diagnosticsOfAll _ p
  | edit change => exact single (Step.edit change hc)
  | token cancelled => exact single (Step.token cancelled)
  | switch options => exact single (Step.switch options)

theorem play {calls : List (Call η)} (hcalls : ∀ c ∈ calls, c.Within allowed) (p : Program η) :
    Steps allowed p (Call.play calls p).1 (Call.play calls p).2 := by
  induction calls generalizing p with
  | nil => exact Steps.refl p
  | cons c calls ih =>
      refine trans (call (hcalls c List.mem_cons_self) p) (ih (fun other hother => ?_) _)
      exact hcalls other (List.mem_cons_of_mem _ hother)

end Steps

end Rebuild
