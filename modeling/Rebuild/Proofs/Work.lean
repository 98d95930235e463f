import Rebuild.Proofs.Recorded
import Rebuild.Proofs.Soundness

/-!
# The work of a round

Whoever pulls from a program, and in whatever order, makes it recheck and emit units.  What is left of a
pull is then the units that it rechecked and what it emitted.

* `Program.Works`: rechecks and emits in some order, with the build cancelled and resumed in between;
* `Program.works_checkLog`, `Program.PullsEmit.works`, `Program.works_checkAll`, `Program.works_emitAll`:
  pulls are made of these;
* `Program.Works.nodup_log`: no unit is rechecked twice;
* `Program.Works.remaining_requestAll`: what is owed after rechecks without emits;
* `Program.Works.asks`: what was emitted and what remains was there before or was requested meanwhile;
* `Program.Works.calls`: the requests that the host gets for it;
* `Program.core`, `Answers.Runs`: what decides on the rechecks to come;
* `Program.Works.agree`: two ways to finish a round make the same rechecks.
-/

namespace Rebuild

namespace Program

variable {η α : Type}

/-- Some rechecks and some emits, each kind in its order, and the program afterwards. -/
inductive Works [Host η] : Program η → List Recheck → List PendingEmit → Program η → Prop
  | rest (p : Program η) : Works p [] [] p
  | recheck {p q r : Program η} {unit : UnitId} {log : List Recheck} {emits : List PendingEmit}
      (next : p.nextUnit = (some unit, q)) (later : Works (q.afterRecheck unit) log emits r) :
      Works p (q.recheckOf unit :: log) emits r
  | exhaust {p q r : Program η} {log : List Recheck} {emits : List PendingEmit} (phase : Phase)
      (next : p.nextUnit = (none, q)) (later : Works { q with phase } log emits r) : Works p log emits r
  | emit {p r : Program η} {entry : PendingEmit} {queue : EmitQueue} {log : List Recheck}
      {emits : List PendingEmit} (next : p.pendingEmit.next? = some (entry, queue))
      (later : Works ({ p with pendingEmit := queue, phase := .emitPending }.emit entry).2 log emits r) :
      Works p log (entry :: emits) r
  | token {p r : Program η} {log : List Recheck} {emits : List PendingEmit} (signal : Bool)
      (later : Works { p with cancelled := signal } log emits r) : Works p log emits r

/-- The declarations that some rechecks request. -/
def requests (p : Program η) (log : List Recheck) : List PendingEmit :=
  (log.filter fun e => e.moved && p.options.emitDeclarations && !p.changed.contains e.unit).map
    fun e => ⟨e.path, .types⟩

theorem requests_append (p : Program η) (log more : List Recheck) :
    p.requests (log ++ more) = p.requests log ++ p.requests more := by
  rw [requests, List.filter_append, List.map_append]
  rfl

variable [Host η] {p q r : Program η} {log more : List Recheck} {emits others : List PendingEmit}

namespace Works

theorem trans (h : p.Works log emits q) (hrest : q.Works more others r) :
    p.Works (log ++ more) (emits ++ others) r := by
  induction h with
  | rest => exact hrest
  | recheck next _ ih => exact .recheck next (ih hrest)
  | exhaust phase next _ ih => exact .exhaust phase next (ih hrest)
  | emit next _ ih => exact .emit next (ih hrest)
  | token signal _ ih => exact .token signal (ih hrest)

/-- The work of a round is made of elementary steps, with the same rechecks. -/
theorem steps {allowed : (η → η) → Prop} (h : p.Works log emits q) : Steps allowed p log q := by
  induction h with
  | rest p => exact .refl p
  | recheck next _ ih => exact .head (.recheck next) ih
  | exhaust phase next _ ih => exact .head (.exhaust phase next) ih
  | @emit p _ entry queue _ _ _ _ ih => exact .head (.emit queue entry) ih
  | token signal _ ih => exact .head (.token signal) ih

theorem tidy (htidy : p.Tidy) (h : p.Works log emits q) : q.Tidy := by
  have hsteps : Steps (fun _ => True) p log q := h.steps
  exact hsteps.tidy htidy

end Works

/-! ### Pulls are made of rechecks and emits -/

/-- A pulled check is the recheck in its log, or does not recheck anything. -/
theorem works_checkLog (p : Program η) : p.Works p.checkLog [] p.pullCheck.2
    ∧ p.checkLog.map (·.path)
      = match p.pullCheck.1 with
        | .ok (some checked) => [checked.unit]
        | _ => [] := by
  rw [checkLog, pullCheck]
  split
  · exact ⟨.rest p, rfl⟩
  split
  · exact ⟨.rest p, rfl⟩
  rename_i hgoing _
  rcases hnext : p.nextUnit with ⟨next, q⟩
  cases next with
  | none =>
      obtain ⟨phase, hphase, _⟩ := finishChecking_eq hgoing hnext
      simp only [hphase]
      exact ⟨.exhaust phase hnext (.rest _), rfl⟩
  | some unit => exact ⟨.recheck hnext (.rest _), rfl⟩

theorem PullsEmit.works {result : Except Error (Option Emitted)} (h : p.PullsEmit log result q) :
    ∃ emits, p.Works log emits q := by
  induction h with
  | done => exact ⟨[], .rest _⟩
  | refused => exact ⟨[], .rest _⟩
  | emitted _ _ next => exact ⟨_, .emit next (.rest _)⟩
  | exhausted _ _ _ next => exact ⟨[], .exhaust .done next.eq_nextUnit.symm (.rest _)⟩
  | rechecked _ _ _ next _ ih =>
      obtain ⟨emits, hrest⟩ := ih
      exact ⟨emits, .recheck next.eq_nextUnit.symm hrest⟩

/-- A caller who insists on all checks makes the program recheck units, and emit none. -/
theorem works_checkAll {checks : List Checked} (htidy : p.Tidy) (h : Insists checkAll p checks q) :
    ∃ log, p.Works log [] q := by
  refine pullsAll_checkAll.relates (R := fun p q => ∃ log, p.Works log [] q)
    (fun p signal => ⟨[], .token signal (.rest _)⟩) (fun p _ => ⟨_, (works_checkLog p).1⟩) ?_ htidy h
  intro p q r hfirst hrest
  obtain ⟨log, hfirst⟩ := hfirst
  obtain ⟨more, hrest⟩ := hrest
  exact ⟨log ++ more, hfirst.trans hrest⟩

theorem works_emitAll {emitted : List Emitted} (htidy : p.Tidy) (h : Insists emitAll p emitted q) :
    ∃ log emits, p.Works log emits q := by
  refine pullsAll_emitAll.relates (R := fun p q => ∃ log emits, p.Works log emits q)
    (fun p signal => ⟨[], [], .token signal (.rest _)⟩) (fun p hp => ⟨_, hp.pullsEmit.works⟩) ?_ htidy h
  intro p q r hfirst hrest
  obtain ⟨log, emits, hfirst⟩ := hfirst
  obtain ⟨more, others, hrest⟩ := hrest
  exact ⟨log ++ more, emits ++ others, hfirst.trans hrest⟩

/-! ### What is emitted -/

/-- A recheck requests what its log says. -/
theorem Commits.remaining {unit : UnitId} {queued : List UnitId} (h : p.Commits unit queued q)
    (hqueue : p.pendingEmit.WellFormed) :
    q.pendingEmit.WellFormed ∧ q.pendingEmit.remaining
      = EmitQueue.requestAll (p.requests [p.recheckOf unit]) p.pendingEmit.remaining := by
  rw [h.pendingEmit]
  by_cases hrequest : ((p.recheckOf unit).moved && p.options.emitDeclarations
      && !p.changed.contains unit) = true
  · have hone : p.requests [p.recheckOf unit] = [⟨p.state.graph.pathOf unit, .types⟩] := by
      rw [requests, List.filter_cons_of_pos (by exact hrequest)]
      rfl
    rw [if_pos hrequest, hone]
    exact ⟨hqueue.push _ _, EmitQueue.remaining_push hqueue _ _⟩
  · have hnone : p.requests [p.recheckOf unit] = [] := by
      rw [requests, List.filter_cons_of_neg (by exact hrequest)]
      rfl
    rw [if_neg hrequest, hnone]
    exact ⟨hqueue, rfl⟩

theorem Commits.requests_eq {unit : UnitId} {queued : List UnitId} (h : p.Commits unit queued q)
    (log : List Recheck) : q.requests log = p.requests log := by
  rw [requests, requests, h.options, h.changed]

/-- No unit is rechecked twice, or after it was processed. -/
theorem Works.nodup_log (htidy : p.Tidy) (h : p.Works log emits q) :
    (log.map (·.unit)).Nodup ∧ ∀ e ∈ log, e.unit ∉ p.processed ∧ e.unit < p.state.graph.size
      ∧ e.path = p.state.graph.pathOf e.unit := by
  induction h with
  | rest p => exact ⟨List.nodup_nil, fun e he => absurd he List.not_mem_nil⟩
  | @recheck p q r unit log emits next _ ih =>
      obtain ⟨hrechecks, hsame⟩ := rechecks_of_nextUnit htidy next
      obtain ⟨hnodup, hlog⟩ := ih hrechecks.tidy
      rw [hrechecks.processed, hrechecks.graph] at hlog
      refine ⟨List.nodup_cons.mpr ⟨fun hmem => ?_, hnodup⟩, fun e he => ?_⟩
      · obtain ⟨e, he, htwice⟩ := List.mem_map.mp hmem
        have hunit : e.unit = unit := htwice
        exact (hlog e he).1 (List.mem_append_right _ (List.mem_singleton.mpr hunit))
      · rcases List.mem_cons.mp he with rfl | hlater
        · rw [hsame]
          exact ⟨hrechecks.fresh, htidy.bounded unit hrechecks.awaited, rfl⟩
        · obtain ⟨hfresh, hknown⟩ := hlog e hlater
          exact ⟨fun hold => hfresh (List.mem_append_left _ hold), hknown⟩
  | exhaust phase next _ ih =>
      have hexhausted := (Advances.exhaust htidy next phase).tidy
      obtain ⟨_, rfl⟩ := nextUnit_none htidy next
      exact ih hexhausted
  | @emit p r entry queue log emits next _ ih =>
      have hemitted := (Advances.emit htidy queue entry).tidy
      obtain ⟨host, deferred, hframe⟩ :=
        emit_frame { p with pendingEmit := queue, phase := .emitPending } entry
      rw [hframe] at ih hemitted
      exact ih hemitted
  | token signal _ ih => exact ih (htidy.token signal)

/-- Rechecks without emits merge their requests into what is owed. -/
theorem Works.remaining_requestAll (htidy : p.Tidy) (hqueue : p.pendingEmit.WellFormed)
    (h : p.Works log [] q) :
    q.pendingEmit.remaining = EmitQueue.requestAll (p.requests log) p.pendingEmit.remaining := by
  generalize hsilent : ([] : List PendingEmit) = emits at h
  induction h with
  | rest p => rfl
  | @recheck p q r unit log emits next _ ih =>
      obtain ⟨hrechecks, hsame⟩ := rechecks_of_nextUnit htidy next
      obtain ⟨queued, hcommits⟩ := commits_of_nextUnit htidy next
      obtain ⟨hlater, hremaining⟩ := hcommits.remaining hqueue
      have happend := requests_append p [p.recheckOf unit] log
      rw [ih hrechecks.tidy hlater hsilent, hcommits.requests_eq, hremaining, hsame,
        show p.requests (p.recheckOf unit :: log) = _ from happend, EmitQueue.requestAll_append]
  | exhaust phase next _ ih =>
      have hexhausted := (Advances.exhaust htidy next phase).tidy
      obtain ⟨_, rfl⟩ := nextUnit_none htidy next
      exact ih hexhausted hqueue hsilent
  | emit => cases hsilent
  | token signal _ ih => exact ih (htidy.token signal) hqueue hsilent

/-- What was emitted or remains was there before, or was requested by a recheck. -/
theorem Works.asks (htidy : p.Tidy) (hqueue : p.pendingEmit.WellFormed) (h : p.Works log emits q)
    (path : UnitPath) (part : EmitKind) :
    EmitQueue.Asks emits path part ∨ EmitQueue.Asks q.pendingEmit.remaining path part
      ↔ EmitQueue.Asks (p.requests log) path part
        ∨ EmitQueue.Asks p.pendingEmit.remaining path part := by
  induction h with
  | rest p => exact Iff.rfl
  | @recheck p q r unit log emits next _ ih =>
      obtain ⟨hrechecks, hsame⟩ := rechecks_of_nextUnit htidy next
      obtain ⟨queued, hcommits⟩ := commits_of_nextUnit htidy next
      obtain ⟨hlater, hremaining⟩ := hcommits.remaining hqueue
      have happend := requests_append p [p.recheckOf unit] log
      rw [ih hrechecks.tidy hlater, hcommits.requests_eq, hremaining, EmitQueue.asks_requestAll, hsame,
        show p.requests (p.recheckOf unit :: log) = _ from happend, EmitQueue.asks_append, or_left_comm,
        or_assoc]
  | exhaust phase next _ ih =>
      have hexhausted := (Advances.exhaust htidy next phase).tidy
      obtain ⟨_, rfl⟩ := nextUnit_none htidy next
      exact ih hexhausted hqueue
  | @emit p r entry queue log emits next _ ih =>
      obtain ⟨hremaining, hwellFormed⟩ := EmitQueue.next?_eq_some next
      have hemitted := (Advances.emit htidy queue entry).tidy
      obtain ⟨host, deferred, hframe⟩ :=
        emit_frame { p with pendingEmit := queue, phase := .emitPending } entry
      rw [hframe] at ih hemitted
      have hrest := ih hemitted hwellFormed
      rw [EmitQueue.asks_cons, or_assoc, hrest, hremaining, EmitQueue.asks_cons]
      exact or_left_comm
  | token signal _ ih => exact ih (htidy.token signal) hqueue

/-- When nothing is rechecked, the emits that remained are handed out one after another. -/
theorem Works.remaining_eq_append (h : p.Works [] emits q) :
    p.pendingEmit.remaining = emits ++ q.pendingEmit.remaining := by
  generalize hsilent : ([] : List Recheck) = log at h
  induction h with
  | rest => rfl
  | recheck => cases hsilent
  | exhaust phase next _ ih =>
      have hrest := ih hsilent
      obtain rfl := eq_of_nextUnit_none next
      exact hrest
  | @emit p _ entry queue _ _ next _ ih =>
      have hrest := ih hsilent
      obtain ⟨host, deferred, hframe⟩ :=
        emit_frame { p with pendingEmit := queue, phase := .emitPending } entry
      rw [hframe] at hrest
      rw [(EmitQueue.next?_eq_some next).1, List.cons_append]
      exact congrArg (List.cons entry) hrest
  | token signal _ ih => exact ih hsilent

end Program

/-! ### What the host is asked -/

namespace Recorded

variable {η : Type}

theorem checks_asked (r : Recorded η) (call : HostCall) (host : η) :
    (r.asked call host).checks = r.checks ++ (Recorded.mk host [call]).checks :=
  List.filterMap_append

theorem emits_asked (r : Recorded η) (call : HostCall) (host : η) :
    (r.asked call host).emits = r.emits ++ (Recorded.mk host [call]).emits :=
  List.filterMap_append

variable [Host η]

/-- Examining a unit is one check, and maybe a request for its interface. -/
theorem examine_calls (p : Program (Recorded η)) (path : UnitPath) :
    (p.examine path).2.host.checks = p.host.checks ++ [path]
      ∧ (p.examine path).2.host.emits = p.host.emits := by
  rw [Program.examine, Program.checkUnit]
  rcases hcheck : Host.check p.host path with ⟨⟨outcome, cancels⟩, host⟩
  obtain rfl : host = p.host.asked (.check path) (Host.check p.host.host path).2 :=
    (congrArg Prod.snd hcheck).symm
  have hchecks := checks_asked p.host (.check path) (Host.check p.host.host path).2
  have hemits := emits_asked p.host (.check path) (Host.check p.host.host path).2
  cases outcome with
  | error e => exact ⟨hchecks, hemits.trans (List.append_nil _)⟩
  | ok found =>
      simp only [Program.signUnit]
      rcases hinterface : Host.interface (p.host.asked (.check path) (Host.check p.host.host path).2) path
        with ⟨reply, host'⟩
      have hasked : host' = (p.host.asked (.check path) (Host.check p.host.host path).2).asked
          (.interface path) host'.host := by
        rw [← show _ = host' from congrArg Prod.snd hinterface]
        rfl
      have hboth : host'.checks = p.host.checks ++ [path] ∧ host'.emits = p.host.emits := by
        rw [hasked, checks_asked, emits_asked, hchecks, hemits]
        exact ⟨List.append_nil _, (List.append_nil _).trans (List.append_nil _)⟩
      cases reply with
      | error e => exact hboth
      | ok interface => exact hboth

/-- An emit is one request. -/
theorem emit_calls (p : Program (Recorded η)) (entry : PendingEmit) :
    (p.emit entry).2.host.checks = p.host.checks
      ∧ (p.emit entry).2.host.emits = p.host.emits ++ [entry] := by
  rw [Program.emit]
  rcases hemit : Host.emit p.host entry.unit entry.kind with ⟨outcome, host⟩
  obtain rfl : host = p.host.asked (.emit entry.unit entry.kind)
      (Host.emit p.host.host entry.unit entry.kind).2 := (congrArg Prod.snd hemit).symm
  have hchecks := checks_asked p.host (.emit entry.unit entry.kind)
    (Host.emit p.host.host entry.unit entry.kind).2
  have hemits := emits_asked p.host (.emit entry.unit entry.kind)
    (Host.emit p.host.host entry.unit entry.kind).2
  cases outcome with
  | error e => exact ⟨hchecks.trans (List.append_nil _), hemits⟩
  | ok output => exact ⟨hchecks.trans (List.append_nil _), hemits⟩

end Recorded

namespace Program

variable {η : Type} [Host η]

/-- The host is asked to check what is rechecked and to emit what is emitted, in this order each. -/
theorem Works.calls {p q : Program (Recorded η)} {log : List Recheck} {emits : List PendingEmit}
    (htidy : p.Tidy) (h : p.Works log emits q) :
    q.host.checks = p.host.checks ++ log.map (·.path) ∧ q.host.emits = p.host.emits ++ emits := by
  induction h with
  | rest p => exact ⟨(List.append_nil _).symm, (List.append_nil _).symm⟩
  | @recheck p q r unit log emits next _ ih =>
      obtain ⟨hrechecks, hsame⟩ := rechecks_of_nextUnit htidy next
      obtain ⟨hchecks, hemits⟩ := ih hrechecks.tidy
      obtain ⟨hcheck, hemit⟩ := Recorded.examine_calls p (p.state.graph.pathOf unit)
      rw [hrechecks.host, hcheck] at hchecks
      rw [hrechecks.host, hemit] at hemits
      rw [hchecks, hsame, List.append_assoc]
      exact ⟨rfl, hemits⟩
  | exhaust phase next _ ih =>
      have hexhausted := (Advances.exhaust htidy next phase).tidy
      obtain ⟨_, rfl⟩ := nextUnit_none htidy next
      exact ih hexhausted
  | @emit p r entry queue log emits next _ ih =>
      have hemitted := (Advances.emit htidy queue entry).tidy
      obtain ⟨hchecks, hemits⟩ := ih hemitted
      obtain ⟨hcheck, hemit⟩ :=
        Recorded.emit_calls { p with pendingEmit := queue, phase := .emitPending } entry
      rw [hcheck] at hchecks
      rw [hemit, List.append_assoc] at hemits
      exact ⟨hchecks, hemits⟩
  | token signal _ ih => exact ih (htidy.token signal)

end Program

/-! ### What decides on the rechecks -/

namespace Program

variable {η : Type} {p : Program η}

/-- A program without its host and its emits, which have no part in what is rechecked. -/
def core (p : Program η) : Program Unit :=
  { p with host := (), pendingEmit := {}, deferred := [], phase := .created, cancelled := false }

theorem core_nextUnit (p : Program η) : p.core.nextUnit = (p.nextUnit.1, p.nextUnit.2.core) := by
  refine (nextUnit_congr (p := p) (q := p.core) rfl rfl rfl).trans (congrArg (Prod.mk p.nextUnit.1) ?_)
  conv_rhs => rw [nextUnit_frame p]
  rfl

theorem core_record (p : Program η) (unit : UnitId) (signature : Signature)
    (diagnostics : List Diagnostic) :
    (p.record unit signature diagnostics).core = (p.core.record unit signature diagnostics).core := by
  simp only [record, propagate, core]
  cases p.current with
  | none => rfl
  | some pass => rfl

end Program

namespace Answers

variable {η : Type} [Host η] (A : Answers η) (w : A.World)

def recheck (c : Program Unit) (unit : UnitId) : Recheck where
  unit := unit
  path := c.state.graph.pathOf unit
  moved := c.state.moves unit (A.verdict w (c.state.graph.pathOf unit)).1
  isGlobal := (c.state.info? unit).any (·.isGlobal)

/-- What is left of a program after a recheck in a given world. -/
def turn (c : Program Unit) (unit : UnitId) : Program Unit :=
  (c.record unit (A.verdict w (c.state.graph.pathOf unit)).1
    (A.verdict w (c.state.graph.pathOf unit)).2).core

/-- One recheck after another, as the world has it. -/
inductive Runs : Program Unit → List Recheck → Program Unit → Prop
  | rest (c : Program Unit) : Runs c [] c
  | recheck {c d e : Program Unit} {unit : UnitId} {log : List Recheck}
      (next : c.nextUnit = (some unit, d)) (later : Runs (A.turn w d unit) log e) :
      Runs c (A.recheck w d unit :: log) e
  | exhaust {c d e : Program Unit} {log : List Recheck} (next : c.nextUnit = (none, d))
      (later : Runs d log e) : Runs c log e

variable {A w} {c d e : Program Unit} {log more : List Recheck}

/-- When nothing is left to recheck, nothing more happens. -/
theorem Runs.of_spent (hspent : c.nextUnit.1 = none) (h : A.Runs w c log d) :
    log = [] ∧ d.state = c.state ∧ d.cache = c.cache := by
  induction h with
  | rest c => exact ⟨rfl, rfl, rfl⟩
  | recheck next _ _ =>
      rw [next] at hspent
      cases hspent
  | @exhaust c d _ _ next _ ih =>
      have hnext : d = { c with current := none, roots := [] } := Program.eq_of_nextUnit_none next
      subst hnext
      have hagain : ({ c with current := none, roots := [] } : Program Unit).nextUnit.1 = none := by
        show (Program.nextRoot { c with current := none, roots := [] }).1 = none
        rw [Program.nextRoot_of_nil rfl rfl]
      exact ih hagain

/-- Which units are rechecked, and with which results, is decided by the program and the world. -/
theorem Runs.agree (h : A.Runs w c log d) (hspent : d.nextUnit.1 = none) (h' : A.Runs w c more e)
    (hspent' : e.nextUnit.1 = none) : log = more ∧ d.state = e.state ∧ d.cache = e.cache := by
  have hstop : ∀ {c d e : Program Unit} {log more : List Recheck}, c.nextUnit.1 = none →
      A.Runs w c log d → A.Runs w c more e → log = more ∧ d.state = e.state ∧ d.cache = e.cache := by
    intro c d e log more hnone h h'
    obtain ⟨rfl, hstate, hcache⟩ := h.of_spent hnone
    obtain ⟨rfl, hstate', hcache'⟩ := h'.of_spent hnone
    exact ⟨rfl, hstate.trans hstate'.symm, hcache.trans hcache'.symm⟩
  induction h generalizing more with
  | rest c => exact hstop hspent (.rest c) h'
  | recheck next later ih =>
      cases h' with
      | rest =>
          rw [next] at hspent'
          cases hspent'
      | recheck next' later' =>
          cases next.symm.trans next'
          obtain ⟨rfl, hsame⟩ := ih hspent later'
          exact ⟨rfl, hsame⟩
      | exhaust next' _ => cases next.symm.trans next'
  | exhaust next later _ => exact hstop (by rw [next]) (.exhaust next later) h'

end Answers

namespace Program

variable {η : Type} [Host η] {A : Answers η} {w : A.World} {p q r : Program η}
variable {log more : List Recheck} {emits others : List PendingEmit} {unit : UnitId}

theorem recheckOf_eq (hat : A.At p.host w) (unit : UnitId) :
    p.recheckOf unit = A.recheck w p.core unit := by
  rw [recheckOf, found, (Answers.examine_eq hat _).1]
  rfl

theorem core_afterRecheck (hat : A.At p.host w) (unit : UnitId) :
    (p.afterRecheck unit).core = A.turn w p.core unit := by
  obtain ⟨cancelled, hafter⟩ := afterRecheck_eq_record p unit
  rw [hafter, core_record, found, (Answers.examine_eq hat _).1]
  rfl

/-- The rechecks are as the world has them, whatever is emitted in between. -/
theorem Works.runs (htidy : p.Tidy) (hat : A.At p.host w) (h : p.Works log emits q) :
    A.Runs w p.core log q.core := by
  induction h with
  | rest p => exact .rest p.core
  | @recheck p q r unit log emits next _ ih =>
      have hstep : Step (A.Keeps w) p _ _ := Step.recheck next
      have hcore := core_nextUnit p
      rw [next] at hcore
      have hhost : q.host = p.host := by rw [(nextUnit_some htidy next).same]
      have hat' : A.At q.host w := by
        rw [hhost]
        exact hat
      have hruns := ih (hstep.tidy htidy) (hstep.here htidy hat)
      rw [core_afterRecheck hat'] at hruns
      rw [recheckOf_eq hat']
      exact .recheck hcore hruns
  | @exhaust p q r log emits phase next _ ih =>
      have hstep : Step (A.Keeps w) p _ _ := Step.exhaust phase next
      have hcore := core_nextUnit p
      rw [next] at hcore
      exact .exhaust hcore (ih (hstep.tidy htidy) (hstep.here htidy hat))
  | @emit p r entry queue log emits next _ ih =>
      have hstep : Step (A.Keeps w) p _ _ := Step.emit queue entry
      have hruns := ih (hstep.tidy htidy) (hstep.here htidy hat)
      obtain ⟨host, deferred, hframe⟩ :=
        emit_frame { p with pendingEmit := queue, phase := .emitPending } entry
      rw [hframe] at hruns
      exact hruns
  | token signal _ ih => exact ih (htidy.token signal) hat

/-- When everything that waits was processed, nothing is left to recheck. -/
theorem Tidy.nextUnit_eq_none (htidy : p.Tidy) (h : ∀ id ∈ p.frontier, id ∈ p.processed) :
    p.nextUnit.1 = none := by
  rcases hnext : p.nextUnit with ⟨next, q⟩
  cases next with
  | none => rfl
  | some unit =>
      obtain ⟨hrechecks, _⟩ := rechecks_of_nextUnit htidy hnext
      exact absurd (h unit hrechecks.awaited) hrechecks.fresh

/-- Two ways to finish the work of a round make the same rechecks in the same order, and leave the same
records and the same cache. -/
theorem Works.agree (htidy : p.Tidy) (hat : A.At p.host w) (h : p.Works log emits q)
    (hfinished : ∀ id ∈ q.frontier, id ∈ q.processed) (h' : p.Works more others r)
    (hfinished' : ∀ id ∈ r.frontier, id ∈ r.processed) :
    log = more ∧ q.state = r.state ∧ q.cache = r.cache := by
  have hspent : ∀ q : Program η, q.Tidy → (∀ id ∈ q.frontier, id ∈ q.processed) →
      q.core.nextUnit.1 = none := by
    intro q hq hdone
    rw [core_nextUnit]
    exact hq.nextUnit_eq_none hdone
  exact (h.runs htidy hat).agree (hspent q (h.tidy htidy) hfinished) (h'.runs htidy hat)
    (hspent r (h'.tidy htidy) hfinished')

end Program

end Rebuild
