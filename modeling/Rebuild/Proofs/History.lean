import Rebuild.Proofs.Orderly

/-!
# Histories

The life of a program, from its start through any number of requests.  At any point it may be stored
and started again from the document of the moment.

* `Request`: what a caller can ask of a program, with `Request.run`, `Request.events` and `Request.play`;
* `Request.actions`: a request is a sequence of actions;
* `History`: how a program came about, with everything that is remembered;
* `History.orderly`: every program with a history is orderly.

Of the requests that a caller makes, reports and pulls have results.

* `Outcome`: the result of a request, and `Request.outcome?`;
* `Request.trace`: several requests, each with its result and the program after it;
* `Request.isInquiry`: the requests that ask for diagnostics, outside the order of the round;
* `Request.isPull`: the requests that look at the token;
* `Program.standing`: how the work of a round stands;
* `Request.account`: the results of the other requests, and how the work stands after each of them.
-/

namespace Rebuild

namespace Program

variable {η : Type}

/-- When no unit is left, the program is done if no emit remains. -/
theorem finishChecking_eq {p q : Program η} (hopen : p.phase ≠ .done) (hnext : p.nextUnit = (none, q)) :
    ∃ phase, q.finishChecking = { q with phase }
      ∧ (phase = .done → p.pendingEmit.remaining = []) := by
  obtain rfl := eq_of_nextUnit_none hnext
  have hempty : ∀ phase : Phase,
      (if p.pendingEmit.isEmpty then Phase.done else .fullyChecked) = phase → phase = .done →
        p.pendingEmit.remaining = [] := by
    intro phase hphase hdone
    by_cases hisEmpty : p.pendingEmit.isEmpty = true
    · exact List.isEmpty_iff.mp hisEmpty
    · rw [if_neg hisEmpty] at hphase
      cases hphase.trans hdone
  rw [finishChecking]
  split
  · exact ⟨_, rfl, hempty _ rfl⟩
  · exact ⟨_, rfl, hempty _ rfl⟩
  · exact ⟨p.phase, rfl, fun hdone => absurd hdone hopen⟩

variable [Host η]

/-- The demands that are made when the diagnostics of several units are asked for. -/
def demands : List UnitPath → Program η → List HistoryEvent
  | [], _ => []
  | path :: paths, p =>
      match p.diagnosticsOf path with
      | (.error _, _) => [.demanded]
      | (.ok _, p) => demands paths p ++ [.demanded]

/-- The program that a start takes its first snapshot with. -/
def prior (host : η) (options : Options) (document : Option String) : Program η :=
  match decoded? document with
  | some decoded => (blank host options).restore decoded
  | none => blank host options

/-- A start opens a round. -/
theorem start_eq_ok_iff {host : η} {options : Options} {document : Option String} {p : Program η} :
    start host options document = .ok p
      ↔ ∃ host' s, Host.snapshot host [] = (.ok s, host')
        ∧ p = (prior host' options document).update s := by
  rw [start]
  rcases Host.snapshot host [] with ⟨outcome, host'⟩
  cases outcome with
  | error e => simp
  | ok s =>
      simp only [Except.ok.injEq, Prod.mk.injEq]
      constructor
      · intro hp
        exact ⟨host', s, ⟨rfl, rfl⟩, hp.symm⟩
      · intro hp
        obtain ⟨_, _, ⟨rfl, rfl⟩, hp⟩ := hp
        exact hp.symm

theorem sorted_restoredCache (decoded : BuildInfo.Decoded) : (restoredCache decoded).Sorted := by
  rw [restoredCache]
  refine List.foldlRecOn _ _ List.Pairwise.nil fun cache hcache entry _ => ?_
  split
  · exact hcache.commit _ _ _
  · exact hcache

theorem sorted_cache_prior (host : η) (options : Options) (document : Option String) :
    (prior host options document).cache.Sorted := by
  rw [prior]
  split
  · exact sorted_restoredCache _
  · exact List.Pairwise.nil

theorem orderly_of_start {host : η} {options : Options} {document : Option String} {p : Program η}
    (h : start host options document = .ok p) : p.Orderly := by
  obtain ⟨host', s, _, rfl⟩ := start_eq_ok_iff.mp h
  exact orderly_update (sorted_cache_prior host' options document) s

end Program

/-! ### Requests -/

inductive Request (η : Type) where
  /-- Take over a snapshot. -/
  | update (s : Snapshot)
  /-- Report that some paths changed. -/
  | report (paths : List String)
  /-- Switch options. -/
  | setOptions (options : Options)
  /-- Recheck and emit everything. -/
  | rebuild
  /-- Pull a check. -/
  | check
  /-- Pull an emit. -/
  | emit
  /-- Ask for the diagnostics of a unit. -/
  | demand (unit : String)
  /-- Ask for the diagnostics of every unit. -/
  | demandAll
  /-- Change the surroundings of the host. -/
  | edit (change : η → η)
  /-- Cancel the build, or resume it. -/
  | token (cancelled : Bool)

namespace Request

variable {η : Type} [Host η]

def run : Request η → Program η → Program η
  | .update s, p => p.update s
  | .report paths, p => (p.reportChanged paths).2
  | .setOptions options, p => p.setOptions options
  | .rebuild, p => p.forceRebuild
  | .check, p => p.pullCheck.2
  | .emit, p => p.pullEmit.2
  | .demand unit, p => (p.diagnosticsOf unit).2
  | .demandAll, p => p.allDiagnostics.2
  | .edit change, p => { p with host := change p.host }
  | .token cancelled, p => { p with cancelled }

/-- What is remembered of a request.  A report whose snapshot fails and options with the same
fingerprint open no round. -/
def events : Request η → Program η → List HistoryEvent
  | .update s, p => p.opening s
  | .report paths, p =>
      match Host.snapshot p.host (paths.map UnitPath.normalize) with
      | (.ok s, _) => p.opening s
      | (.error _, _) => []
  | .setOptions options, p =>
      if ({ p with options } : Program η).optionsHash = p.optionsHash then []
      else p.opening p.snapshot
  | .rebuild, p => p.opening p.snapshot
  | .emit, p => (Program.written (p.state.size + 1) p).map .emitted
  | .demand _, _ => [.demanded]
  | .demandAll, p => Program.demands p.state.graph.paths p
  | .check, _ => []
  | .edit _, _ => []
  | .token _, _ => []

/-- Several requests: what is remembered of them, and the program afterwards. -/
def play : List (Request η) → Program η → List HistoryEvent × Program η
  | [], p => ([], p)
  | request :: requests, p =>
      let rest := play requests (request.run p)
      (rest.1 ++ request.events p, rest.2)

end Request

namespace Actions

variable {η : Type} [Host η] {outside : Prop} {p : Program η}

theorem pullCheck (p : Program η) : Actions outside p [] p.pullCheck.2 := by
  rw [Program.pullCheck]
  split
  · exact Actions.refl p
  · rename_i hopen
    split
    · exact Actions.refl p
    · rcases hnext : p.nextUnit with ⟨unit, q⟩
      cases unit with
      | none =>
          obtain ⟨phase, hphase, hquiet⟩ := Program.finishChecking_eq hopen hnext
          show Actions outside p [] q.finishChecking
          rw [hphase]
          exact single (Action.exhaust phase hnext hquiet)
      | some unit => exact single (Action.recheck hnext)

theorem emitLoop (fuel : Nat) (p : Program η) :
    Actions outside p ((Program.written fuel p).map .emitted) (Program.emitLoop fuel p).2 := by
  induction fuel generalizing p with
  | zero => exact Actions.refl p
  | succ fuel ih =>
      rw [Program.written, Program.emitLoop]
      split
      · exact Actions.refl p
      · split
        · exact Actions.refl p
        · cases hemit : p.pendingEmit.next? with
          | some found =>
              obtain ⟨entry, queue⟩ := found
              exact single (Action.emit hemit)
          | none =>
              rcases hnext : p.nextUnit with ⟨unit, q⟩
              cases unit with
              | none =>
                  refine single (Action.exhaust .done hnext fun _ => ?_)
                  exact EmitQueue.next?_eq_none_iff.mp hemit
              | some unit =>
                  have hrest := trans (single (Action.recheck hnext)) (ih (q.afterRecheck unit))
                  rw [List.append_nil] at hrest
                  exact hrest

theorem diagnosticsOfAll (paths : List UnitPath) (p : Program η) :
    Actions outside p (Program.demands paths p) (Program.diagnosticsOfAll paths p).2 := by
  induction paths generalizing p with
  | nil => exact Actions.refl p
  | cons path paths ih =>
      rw [Program.demands, Program.diagnosticsOfAll]
      have hfirst : Action outside p [.demanded] (p.diagnosticsOf path).2 := Action.demand path
      rcases hdemand : p.diagnosticsOf path with ⟨result, q⟩
      rw [hdemand] at hfirst
      cases result with
      | error e => exact single hfirst
      | ok found =>
          have hrest := trans (single hfirst) (ih q)
          rcases hall : Program.diagnosticsOfAll paths q with ⟨results, r⟩
          rw [hall] at hrest
          simp only [hall]
          cases results with
          | error e => exact hrest
          | ok rest => exact hrest

end Actions

/-- Every request is a sequence of actions, with what is remembered of it. -/
theorem Request.actions {η : Type} [Host η] (r : Request η) (p : Program η) :
    Actions True p (r.events p) (r.run p) := by
  cases r with
  | update s => exact Actions.single (Action.round p.host p.options p.forceAll s trivial)
  | report paths =>
      rw [Request.events, Request.run, Program.reportChanged]
      rcases Host.snapshot p.host (paths.map UnitPath.normalize) with ⟨outcome, host⟩
      cases outcome with
      | error e => exact Actions.single (Action.surround host p.cancelled (Or.inl trivial))
      | ok s => exact Actions.single (Action.round host p.options p.forceAll s trivial)
  | setOptions options =>
      rw [Request.events, Request.run, Program.setOptions]
      by_cases hsame : ({ p with options } : Program η).optionsHash = p.optionsHash
      · rw [if_pos hsame, if_pos hsame]
        exact Actions.single (Action.switch options trivial hsame)
      · rw [if_neg hsame, if_neg hsame]
        exact Actions.single (Action.round p.host options true p.snapshot trivial)
  | rebuild => exact Actions.single (Action.round p.host p.options true p.snapshot trivial)
  | check => exact Actions.pullCheck p
  | emit => exact Actions.emitLoop _ p
  | demand unit => exact Actions.single (Action.demand unit)
  | demandAll => exact Actions.diagnosticsOfAll _ p
  | edit change => exact Actions.single (Action.surround (change p.host) p.cancelled (Or.inl trivial))
  | token cancelled => exact Actions.single (Action.surround p.host cancelled (Or.inl trivial))

/-! ### Histories -/

/-- How a program came about, and what is remembered of it. -/
inductive History {η : Type} [Host η] : Program η → List HistoryEvent → Prop
  /-- The program is started, from nothing or from a document. -/
  | start {host : η} {options : Options} {document : Option String} {p : Program η}
      (hstart : Program.start host options document = .ok p) :
      History p ((Program.blank host options).opening p.snapshot ++ [.started document.isSome])
  /-- Something is asked of the program. -/
  | request {p : Program η} {log : List HistoryEvent} (h : History p log) (r : Request η) :
      History (r.run p) (r.events p ++ log)
  /-- The program is stored and started again, with any host and options. -/
  | restart {p q : Program η} {log : List HistoryEvent} (h : History p log) {host : η}
      {options : Options} (hstart : Program.start host options (some p.buildInfoText) = .ok q) :
      History q (p.opening q.snapshot ++ .restarted p.options.persistDiagnostics :: log)

namespace History

variable {η : Type} [Host η] {p : Program η} {log : List HistoryEvent}

theorem play (h : History p log) (requests : List (Request η)) :
    History (Request.play requests p).2 ((Request.play requests p).1 ++ log) := by
  induction requests generalizing p log with
  | nil => exact h
  | cons request requests ih =>
      have hrest := ih (h.request request)
      rw [← List.append_assoc] at hrest
      exact hrest

/-- Every program with a history is orderly. -/
theorem orderly (h : History p log) : p.Orderly := by
  induction h with
  | start hstart => exact Program.orderly_of_start hstart
  | @request p log h r ih =>
      exact Actions.induct (motive := fun p _ => p.Orderly)
        (fun hp haction => haction.orderly hp) log ih (r.actions p)
  | restart _ hstart _ => exact Program.orderly_of_start hstart

end History

/-! ### What a caller gets to see -/

inductive Outcome where
  | report (result : Except Error Unit)
  | check (result : Except Error (Option Checked))
  | emit (result : Except Error (Option Emitted))

/-- How the work of a round stands. -/
structure Standing where
  pendingChecks : List PendingCheck
  /-- The records of the units, with the signatures that are stored and those that were known last. -/
  state : State
  pendingEmit : EmitQueue
  deferred : List PendingEmit
  phase : Phase
  /-- The units that were processed, in order, with their cached diagnostics. -/
  checked : List (UnitPath × Option (List Diagnostic))

namespace Program

variable {η : Type}

/-- How the work of the round stands. -/
def standing (p : Program η) : Standing where
  pendingChecks := p.pendingChecks
  state := p.state
  pendingEmit := p.pendingEmit
  deferred := p.deferred
  phase := p.phase
  checked := p.processed.map fun id =>
    (p.state.graph.pathOf id, p.cache.get? (p.state.graph.pathOf id))

end Program

namespace Request

variable {η : Type} [Host η]

def outcome? : Request η → Program η → Option Outcome
  | .report paths, p => some (.report (p.reportChanged paths).1)
  | .check, p => some (.check p.pullCheck.1)
  | .emit, p => some (.emit p.pullEmit.1)
  | _, _ => none

/-- Several requests: the result of each, if it has one, and the program after it. -/
def trace : List (Request η) → Program η → List (Option Outcome × Program η)
  | [], _ => []
  | request :: requests, p => (request.outcome? p, request.run p) :: trace requests (request.run p)

omit [Host η] in
def isInquiry : Request η → Bool
  | .demand _ => true
  | .demandAll => true
  | _ => false

omit [Host η] in
/-- Whether something is pulled. -/
def isPull : Request η → Bool
  | .check => true
  | .emit => true
  | _ => false

/-- The result of each request other than an inquiry, and how the work stands after it. -/
def account : List (Request η) → Program η → List (Option Outcome × Standing)
  | [], _ => []
  | request :: requests, p =>
      if request.isInquiry then account requests (request.run p)
      else (request.outcome? p, (request.run p).standing) :: account requests (request.run p)

end Request

end Rebuild
