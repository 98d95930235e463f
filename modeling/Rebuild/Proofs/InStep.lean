import Rebuild.Proofs.EmitDriven
import Rebuild.Proofs.Pair
import Rebuild.ScriptedHost

/-!
# A session and its store

A session stores the document of its program at the end of every cycle, and while it waits its program
does not change.  So whenever it ends without a failure, the store holds the document of its program.  Only
the policy of the host can be another one by then: the document carries the fingerprint of the policy that
was in force when it was made.

* `Program.DrainsAmid`: pulling until nothing is left, while others interfere between any two pulls;
* `Session.Runs`: the runs of a session, with any events and any interference;
* `Store.Keeps`: a store that gives back what it was given last, as `MemoryStore` does;
* `Session.InStep`: the store holds the document of the program;
* `Session.Runs.inStep`: so it does at the end of every run without a failure;
* `Session.runs_watch`: watching is such a run.
-/

namespace Rebuild

namespace Program

variable {η α : Type} {p q : Program η}

/-! ### Interference -/

/-- Pulling until nothing is left or a pull fails.  Between any two pulls others may change the host and
cancel the build, or resume it. -/
inductive DrainsAmid (pull : Program η → Except Error (Option α) × Program η) :
    Program η → Drained α → Program η → Prop
  | stopped {p q : Program η} {e : Error} (failed : pull p = (.error e, q)) :
      DrainsAmid pull p { stopped := some e } q
  | finished {p q : Program η} (last : pull p = (.ok none, q)) : DrainsAmid pull p {} q
  | pulled {p q r : Program η} {result : α} {drained : Drained α}
      (next : pull p = (.ok (some result), q)) (rest : DrainsAmid pull q drained r) :
      DrainsAmid pull p (drained.after result) r
  | amid {p r : Program η} {drained : Drained α} (host : η) (cancelled : Bool)
      (rest : DrainsAmid pull { p with host, cancelled } drained r) : DrainsAmid pull p drained r

/-- Nobody has to interfere. -/
theorem Drains.amid {pull : Program η → Except Error (Option α) × Program η} {drained : Drained α}
    (h : Drains pull p drained q) : DrainsAmid pull p drained q := by
  induction h with
  | stopped failed => exact .stopped failed
  | finished last => exact .finished last
  | pulled next _ ih => exact .pulled next ih

/-- The host and the token have no part in the phase. -/
theorem Phased.surround (h : p.Phased) (host : η) (cancelled : Bool) :
    Phased { p with host, cancelled } :=
  h.frame ⟨h.tidy.wellFormed, h.tidy.landed, h.tidy.accounts, h.tidy.bounded, h.tidy.finished⟩
    rfl rfl rfl rfl

/-- What every pull keeps is kept until nothing is left, and then the last pull found nothing. -/
theorem DrainsAmid.phased {pull : Program η → Except Error (Option α) × Program η}
    (hpull : ∀ p : Program η, p.Phased → (pull p).2.Phased) {drained : Drained α} (hp : p.Phased)
    (h : DrainsAmid pull p drained q) :
    q.Phased ∧ (drained.stopped = none → ∃ r : Program η, r.Phased ∧ pull r = (.ok none, q)) := by
  induction h with
  | @stopped p q e failed =>
      have hone := hpull p hp
      rw [failed] at hone
      exact ⟨hone, fun hnone => by cases hnone⟩
  | @finished p q last =>
      have hone := hpull p hp
      rw [last] at hone
      exact ⟨hone, fun _ => ⟨p, hp, last⟩⟩
  | @pulled p q r result drained next _ ih =>
      have hone := hpull p hp
      rw [next] at hone
      exact ih hone
  | amid host cancelled _ ih => exact ih (hp.surround host cancelled)

variable [Host η]

/-- All checks are pulled and then, unless that was stopped, all emits: what was done, and what stopped it. -/
inductive Sweeps : Program η → CycleReport × Option Error → Program η → Prop
  | checking {p q : Program η} {checked : Drained Checked} {e : Error}
      (checks : DrainsAmid pullCheck p checked q) (stopped : checked.stopped = some e) :
      Sweeps p ({ checked := checked.results }, some e) q
  | emitting {p q r : Program η} {checked : Drained Checked} {emitted : Drained Emitted}
      (checks : DrainsAmid pullCheck p checked q) (finished : checked.stopped = none)
      (emits : DrainsAmid pullEmit q emitted r) :
      Sweeps p ({ checked := checked.results, emitted := emitted.results }, emitted.stopped) r

/-- Draining a program is the sweep with which nobody interferes. -/
theorem Phased.sweeps_drain (hp : p.Phased) : p.Sweeps (Session.drain p).1 (Session.drain p).2 := by
  have hchecking := hp.tidy.drains_checks.1.amid
  have hmiddle := (hchecking.phased (fun p hp => hp.pullCheck) hp).1
  have hemitting := hmiddle.tidy.drains_emits.amid
  rw [Session.drain]
  rcases hchecks : p.drainChecks with ⟨⟨results, stopped⟩, q⟩
  rw [hchecks] at hchecking hemitting
  cases stopped with
  | some e => exact .checking hchecking rfl
  | none => exact .emitting hchecking rfl hemitting

theorem Sweeps.phased {swept : CycleReport × Option Error} (hp : p.Phased) (h : p.Sweeps swept q) :
    q.Phased := by
  cases h with
  | checking checks _ => exact (checks.phased (fun p hp => hp.pullCheck) hp).1
  | emitting checks _ emits =>
      have hmiddle := (checks.phased (fun p hp => hp.pullCheck) hp).1
      exact (emits.phased (fun p hp => hp.pullEmit hp.tidy.pullsEmit) hmiddle).1

/-- A sweep that nothing stopped leaves nothing to check and nothing to emit. -/
theorem Sweeps.exhausted {report : CycleReport} (hp : p.Phased) (h : p.Sweeps (report, none) q) :
    q.pendingChecks = [] ∧ q.pendingEmit.remaining = [] := by
  generalize hswept : (report, none) = swept at h
  cases h with
  | checking => cases hswept
  | emitting checks _ emits =>
      have hmiddle := (checks.phased (fun p hp => hp.pullCheck) hp).1
      obtain ⟨hlast, hfinished⟩ :=
        emits.phased (fun p hp => hp.pullEmit hp.tidy.pullsEmit) hmiddle
      obtain ⟨r, hr, hnothing⟩ := hfinished (congrArg Prod.snd hswept).symm
      have hpull := hr.tidy.pullsEmit
      rw [hnothing] at hpull
      have hdone := hpull.phase_done rfl
      exact ⟨pendingChecks_eq_nil (hlast.tidy.finished hdone), hlast.emits hdone⟩

end Program

/-! ### Stores -/

/-- A store that gives back what was saved last, when the surroundings of the host change in the ways of
`env` and when a snapshot fails. -/
structure Store.Keeps (τ : Type) {η : Type} [Host η] [Store τ η] (env : η → η → Prop) : Prop where
  saved : ∀ {store store' : τ} {host host' : η} {document : String},
    Store.save store host document = (.ok (), store', host') →
      Store.load store' host' = .ok (some document)
  surrounded : ∀ {store : τ} {host host' : η}, env host host' →
    Store.load store host' = Store.load store host
  snapshot : ∀ {store : τ} {host host' : η} {paths : List UnitPath} {e : Error},
    Host.snapshot host paths = (.error e, host') → Store.load store host' = Store.load store host

/-- A store in memory does not depend on the surroundings. -/
theorem MemoryStore.keeps {η : Type} [Host η] (env : η → η → Prop) :
    Store.Keeps MemoryStore env where
  saved h := by
    cases h
    rfl
  surrounded _ := rfl
  snapshot _ := rfl

namespace Session

variable {η τ : Type} [Host η] [Store τ η]

/-! ### Runs -/

/-- How a cycle ends after its sweep: the document is stored, and that it was cancelled is no failure. -/
def conclude (s : Session η τ) (swept : CycleReport × Option Error) :
    Except Error CycleReport × Session η τ :=
  match persist s with
  | (.error e, s) => (.error e, s)
  | (.ok (), s) =>
      match swept.2 with
      | none => (.ok swept.1, s)
      | some .cancelled => (.ok { swept.1 with cancelled := true }, s)
      | some e => (.error e, s)

theorem runCycle_eq_conclude (s : Session η τ) :
    s.runCycle = conclude { s with program := (drain s.program).2 } (drain s.program).1 := rfl

/-- What happens to a program that waits: the surroundings of its host change in the ways of `env`, and the
build is cancelled or resumed. -/
structure Surrounds (env : η → η → Prop) (p q : Program η) : Prop where
  frame : q = { p with host := q.host, cancelled := q.cancelled }
  host : q.host = p.host ∨ env p.host q.host

/-- The runs of a session.  A session that waits holds the report of its last cycle, and the host as it was
when the document was made.  It may stop waiting at any time; a report of changes whose snapshot fails is
dropped, and any other one leads to a cycle. -/
inductive Runs (env : η → η → Prop) : Session η τ → Option (CycleReport × η) →
    Except Error (CycleReport × η) → Session η τ → Prop
  | fails {s t : Session η τ} {swept : CycleReport × Option Error} {q : Program η} {e : Error}
      (sweep : s.program.Sweeps swept q)
      (concluded : conclude { s with program := q } swept = (.error e, t)) :
      Runs env s none (.error e) t
  | cycle {s t u : Session η τ} {swept : CycleReport × Option Error} {q : Program η}
      {report : CycleReport} {outcome : Except Error (CycleReport × η)}
      (sweep : s.program.Sweeps swept q)
      (concluded : conclude { s with program := q } swept = (.ok report, t))
      (rest : Runs env t (some (report, q.host)) outcome u) : Runs env s none outcome u
  | ends {s : Session η τ} {last : CycleReport × η} : Runs env s (some last) (.ok last) s
  | surround {s u : Session η τ} {last : CycleReport × η} {q : Program η}
      {outcome : Except Error (CycleReport × η)} (change : Surrounds env s.program q)
      (rest : Runs env { s with program := q } (some last) outcome u) : Runs env s (some last) outcome u
  | drop {s u : Session η τ} {last : CycleReport × η} {q : Program η} {paths : List String} {e : Error}
      {outcome : Except Error (CycleReport × η)}
      (failed : s.program.reportChanged paths = (.error e, q))
      (rest : Runs env { s with program := q } (some last) outcome u) : Runs env s (some last) outcome u
  | take {s u : Session η τ} {last : CycleReport × η} {q : Program η} {paths : List String}
      {outcome : Except Error (CycleReport × η)} (taken : s.program.reportChanged paths = (.ok (), q))
      (rest : Runs env { s with program := q } none outcome u) : Runs env s (some last) outcome u

/-! ### In step -/

/-- The store holds the document of the program as it was over the host `saved`, and after a cycle that was
not cancelled nothing is left to check or to emit. -/
structure InStep (s : Session η τ) (report : CycleReport) (saved : η) : Prop where
  stored : Store.load s.store s.program.host
    = .ok (some { s.program with host := saved }.buildInfoText)
  drained : report.cancelled = false →
    s.program.pendingChecks = [] ∧ s.program.pendingEmit.remaining = []

variable {env : η → η → Prop} {s t : Session η τ} {report : CycleReport} {saved : η}

/-- Storing the document changes the host at most. -/
theorem conclude_frame (s : Session η τ) (swept : CycleReport × Option Error) :
    ∃ host, (conclude s swept).2.program = { s.program with host } := by
  rw [conclude, persist]
  rcases Store.save s.store s.program.host s.program.buildInfoText with ⟨outcome, store, host⟩
  refine ⟨host, ?_⟩
  cases outcome with
  | error e => rfl
  | ok done =>
      cases swept.2 with
      | none => rfl
      | some e => cases e <;> rfl

theorem phased_of_concluded (hp : s.program.Phased) {swept : CycleReport × Option Error}
    {q : Program η} {outcome : Except Error CycleReport} (sweep : s.program.Sweeps swept q)
    (concluded : conclude { s with program := q } swept = (outcome, t)) : t.program.Phased := by
  obtain ⟨host, hframe⟩ := conclude_frame { s with program := q } swept
  rw [concluded] at hframe
  rw [show t.program = { q with host } from hframe]
  exact (sweep.phased hp).surround host q.cancelled

/-- A cycle that ends without a failure leaves program and store in step. -/
theorem inStep_of_concluded (hstore : Store.Keeps τ env) (hp : s.program.Phased)
    {swept : CycleReport × Option Error} {q : Program η} (sweep : s.program.Sweeps swept q)
    (concluded : conclude { s with program := q } swept = (.ok report, t)) :
    t.InStep report q.host := by
  rw [conclude, persist] at concluded
  rcases hsave : Store.save s.store q.host q.buildInfoText with ⟨outcome, store, host⟩
  simp only [hsave] at concluded
  cases outcome with
  | error e => cases concluded
  | ok done =>
      have hload := hstore.saved hsave
      obtain ⟨found, stopped⟩ := swept
      cases stopped with
      | none =>
          have hexhausted := sweep.exhausted hp
          cases concluded
          exact ⟨hload, fun _ => hexhausted⟩
      | some e =>
          cases e with
          | cancelled =>
              cases concluded
              exact ⟨hload, fun hcalm => by cases hcalm⟩
          | _ => cases concluded

/-- What happens while a session waits keeps program and store in step. -/
theorem InStep.waits (h : s.InStep report saved) (hp : s.program.Phased) {q : Program η}
    (hframe : q = { s.program with host := q.host, cancelled := q.cancelled })
    (hload : Store.load s.store q.host = Store.load s.store s.program.host) :
    InStep { s with program := q } report saved ∧ q.Phased := by
  refine ⟨⟨?_, ?_⟩, ?_⟩
  · show Store.load s.store q.host = _
    rw [hload, h.stored, hframe]
    rfl
  · rw [hframe]
    exact h.drained
  · rw [hframe]
    exact hp.surround _ _

/-- A failed snapshot changes the host only. -/
theorem reportChanged_error {p q : Program η} {paths : List String} {e : Error}
    (h : p.reportChanged paths = (.error e, q)) :
    q = { p with host := q.host }
      ∧ Host.snapshot p.host (paths.map UnitPath.normalize) = (.error e, q.host) := by
  rw [Program.reportChanged] at h
  rcases hsnapshot : Host.snapshot p.host (paths.map UnitPath.normalize) with ⟨outcome, host⟩
  rw [hsnapshot] at h
  cases outcome with
  | error e' =>
      cases h
      exact ⟨rfl, rfl⟩
  | ok snapshot => cases h

/-- A snapshot that is taken starts a round. -/
theorem phased_of_reportChanged {p q : Program η} {paths : List String}
    (h : p.reportChanged paths = (.ok (), q)) : q.Phased := by
  rw [Program.reportChanged] at h
  rcases hsnapshot : Host.snapshot p.host (paths.map UnitPath.normalize) with ⟨reply, host⟩
  rw [hsnapshot] at h
  cases reply with
  | error e => cases h
  | ok snapshot =>
      cases h
      exact Program.phased_update _ _

/-- **A session never leaves its store behind.**  However a run comes to an end without a failure, the store
holds the document of its program as it was made over the host `saved`, and nothing is left to check or to
emit unless the last cycle was cancelled. -/
theorem Runs.inStep (hstore : Store.Keeps τ env) {kept : Option (CycleReport × η)}
    {outcome : Except Error (CycleReport × η)} (hp : s.program.Phased)
    (hkept : ∀ last, kept = some last → s.InStep last.1 last.2) (h : Runs env s kept outcome t)
    (houtcome : outcome = .ok (report, saved)) : t.InStep report saved := by
  induction h with
  | fails => cases houtcome
  | cycle sweep concluded _ ih =>
      refine ih (phased_of_concluded hp sweep concluded) (fun last hlast => ?_) houtcome
      cases hlast
      exact inStep_of_concluded hstore hp sweep concluded
  | @ends s last =>
      cases houtcome
      exact hkept _ rfl
  | @surround s _ last q _ change _ ih =>
      have hload : Store.load s.store q.host = Store.load s.store s.program.host := by
        rcases change.host with hsame | henv
        · rw [hsame]
        · exact hstore.surrounded henv
      obtain ⟨hstep, hlater⟩ := (hkept last rfl).waits hp change.frame hload
      refine ih hlater (fun last' hlast => ?_) houtcome
      cases hlast
      exact hstep
  | @drop s _ last q _ _ _ failed _ ih =>
      obtain ⟨hframe, hsnapshot⟩ := reportChanged_error failed
      have hwaits : q = { s.program with host := q.host, cancelled := q.cancelled } := by
        rw [hframe]
      obtain ⟨hstep, hlater⟩ := (hkept last rfl).waits hp hwaits (hstore.snapshot hsnapshot)
      refine ih hlater (fun last' hlast => ?_) houtcome
      cases hlast
      exact hstep
  | take taken _ ih =>
      exact ih (phased_of_reportChanged taken) (fun last' hlast => by cases hlast) houtcome

/-! ### Watching -/

theorem phased_runCycle (hp : s.program.Phased) : s.runCycle.2.program.Phased :=
  phased_of_concluded hp hp.sweeps_drain (runCycle_eq_conclude s).symm

/-- What happens in the rounds of a session that watches is a run. -/
theorem runs_watchRounds (hp : s.program.Phased) (last : CycleReport) (saved : η)
    {rounds : List (Round η)}
    (hrounds : ∀ round ∈ rounds, ∀ p, Surrounds env p (round.edit p)) :
    ∃ outcome, Runs env s (some (last, saved)) outcome (s.watchRounds last rounds).session
      ∧ outcome.map Prod.fst = (s.watchRounds last rounds).outcome := by
  induction rounds generalizing s last saved with
  | nil => exact ⟨_, .ends, rfl⟩
  | cons round rounds ih =>
      have hchange := hrounds round List.mem_cons_self s.program
      have hrest : ∀ other ∈ rounds, ∀ p, Surrounds env p (other.edit p) := fun other hother =>
        hrounds other (List.mem_cons_of_mem _ hother)
      have hedited : (round.edit s.program).Phased := by
        rw [hchange.frame]
        exact hp.surround _ _
      rw [watchRounds]
      simp only
      split
      · obtain ⟨outcome, hruns, hsame⟩ := ih (s := { s with program := round.edit s.program }) hedited last saved hrest
        exact ⟨outcome, .surround hchange hruns, hsame⟩
      · split
        · exact ⟨_, .surround hchange .ends, rfl⟩
        · rename_i paths _
          rcases hreport : (round.edit s.program).reportChanged paths with ⟨reply, q⟩
          cases reply with
          | error e =>
              obtain ⟨hframe, _⟩ := reportChanged_error hreport
              have hdropped : q.Phased := by
                rw [hframe]
                exact hedited.surround _ _
              obtain ⟨outcome, hruns, hsame⟩ :=
                ih (s := { s with program := q }) hdropped last saved hrest
              exact ⟨outcome, .surround hchange (.drop hreport hruns), hsame⟩
          | ok done =>
              have hq := phased_of_reportChanged hreport
              have hlater := phased_runCycle (s := { s with program := q }) hq
              have hsweep := hq.sweeps_drain
              rcases hcycle : runCycle { s with program := q } with ⟨answer, t⟩
              rw [hcycle] at hlater
              simp only [hcycle]
              cases answer with
              | error e => exact ⟨_, .surround hchange (.take hreport (.fails hsweep hcycle)), rfl⟩
              | ok report =>
                  simp only
                  split
                  · exact ⟨_, .surround hchange (.take hreport (.cycle hsweep hcycle .ends)), rfl⟩
                  · obtain ⟨outcome, hruns, hsame⟩ := ih hlater report (Session.drain q).2.host hrest
                    exact ⟨outcome, .surround hchange (.take hreport (.cycle hsweep hcycle hruns)), hsame⟩

/-- **Watching is a run**, when the rounds change nothing but the surroundings of the host and the token. -/
theorem runs_watch (hp : s.program.Phased) (watching : Bool) (queued : List Event)
    {rounds : List (Round η)}
    (hrounds : ∀ round ∈ rounds, ∀ p, Surrounds env p (round.edit p)) :
    ∃ outcome, Runs env s none outcome (s.watch watching queued rounds).session
      ∧ outcome.map Prod.fst = (s.watch watching queued rounds).outcome := by
  have hlater := phased_runCycle hp
  have hsweep := hp.sweeps_drain
  rw [watch]
  rcases hcycle : s.runCycle with ⟨answer, t⟩
  rw [hcycle] at hlater
  cases answer with
  | error e => exact ⟨_, .fails hsweep hcycle, rfl⟩
  | ok report =>
      simp only
      split
      · exact ⟨_, .cycle hsweep hcycle .ends, rfl⟩
      · have hall : ∀ round ∈ (⟨id, queued⟩ : Round η) :: rounds, ∀ p, Surrounds env p (round.edit p) :=
          List.forall_mem_cons.mpr ⟨fun p => ⟨rfl, .inl rfl⟩, hrounds⟩
        obtain ⟨outcome, hruns, hsame⟩ := runs_watchRounds hlater report (drain s.program).2.host hall
        exact ⟨outcome, .cycle hsweep hcycle hruns, hsame⟩

end Session

/-! ### The document of a program -/

/-- Documents with one text carry one fingerprint. -/
theorem BuildInfo.Document.optionsHash_of_text {d e : Document} (h : d.text = e.text) :
    d.optionsHash = e.optionsHash := by
  have hfield : ∀ d : Document,
      Json.fields? ["optionsHash"] d.toJson = some [d.optionsHash.map Json.text] := by
    intro d
    exact Json.fields?_single d.fields?_toJson (List.mem_cons_of_mem _ List.mem_cons_self)
  have hjson : d.toJson = e.toJson := by
    have hparsed := congrArg Json.parse? h
    rw [text, text, Json.parse?_pretty d.plain_toJson, Json.parse?_pretty e.plain_toJson] at hparsed
    exact Option.some.inj hparsed
  have hsame := hfield d
  rw [hjson, hfield e] at hsame
  have htexts : e.optionsHash.map Json.text = d.optionsHash.map Json.text := by simpa using hsame
  exact (Option.map_injective (fun _ _ htext => Json.text.inj htext) htexts).symm

/-- The host has a part in the document through the fingerprint only. -/
theorem Program.buildInfoText_eq_iff {η : Type} [Host η] {p : Program η} {host : η} :
    { p with host }.buildInfoText = p.buildInfoText
      ↔ optionsHash { p with host } = p.optionsHash := by
  constructor
  · intro h
    exact Option.some.inj (BuildInfo.Document.optionsHash_of_text h)
  · intro hhash
    have hcontent : content { p with host } = p.content := by
      rw [content, content, hhash]
      rfl
    rw [buildInfoText, buildInfoText, buildInfo, buildInfo, hcontent]

namespace Session

/-- **Program and store are in step when a session ends.**  Take a store that gives back what was saved
last, and a program that may have come about in any way.  However many cycles, dropped reports and waits a
run has, and whenever the build is cancelled, if it ends without a failure, the store holds the document of
its program as it was made over the host of the last cycle.  This is the document of the program itself,
unless the policy of the host gives it another fingerprint by now.  If the last cycle was not cancelled, no
check is pending and no emit remains.  Watching, with any batches of events, is such a run. -/
theorem store_in_step {η τ : Type} [Host η] [Store τ η] {env : η → η → Prop}
    (hstore : Store.Keeps τ env) (s : Session η τ) (hs : s.program.Reachable) :
    (∀ (t : Session η τ) (report : CycleReport) (saved : η), Runs env s none (.ok (report, saved)) t →
      Store.load t.store t.program.host = .ok (some { t.program with host := saved }.buildInfoText)
        ∧ (Store.load t.store t.program.host = .ok (some t.program.buildInfoText)
          ↔ Program.optionsHash { t.program with host := saved } = t.program.optionsHash)
        ∧ (report.cancelled = false →
          t.program.pendingChecks = [] ∧ t.program.pendingEmit.remaining = []))
      ∧ ∀ (watching : Bool) (queued : List Event) (rounds : List (Round η)),
        (∀ round ∈ rounds, ∀ p, Surrounds env p (round.edit p)) →
        ∃ outcome, Runs env s none outcome (s.watch watching queued rounds).session
          ∧ outcome.map Prod.fst = (s.watch watching queued rounds).outcome := by
  have hphased := hs.phased
  refine ⟨fun t report saved hruns => ?_, fun watching queued rounds hrounds => ?_⟩
  · have hstep := hruns.inStep hstore hphased (fun last hlast => by cases hlast) rfl
    refine ⟨hstep.stored, ?_, hstep.drained⟩
    rw [hstep.stored, Except.ok.injEq, Option.some.injEq, Program.buildInfoText_eq_iff]
  · exact runs_watch hphased watching queued hrounds

/-- A session over two units that waits for two rounds: a report of changes, and then nothing. -/
theorem store_in_step_pair :
    let s : Session Pair MemoryStore := ⟨Pair.fresh ⟨"int", "int"⟩, {}⟩
    let rounds : List (Round Pair) :=
      [⟨fun p => { p with host := ⟨"int", "str"⟩ }, [.changed ["right"], .changed []]⟩, ⟨id, []⟩]
    let w := s.watch true [] rounds
    (∃ report, w.outcome = .ok report ∧ report.cancelled = false)
      ∧ Store.load w.session.store w.session.program.host
        = .ok (some w.session.program.buildInfoText)
      ∧ w.session.program.pendingChecks = [] ∧ w.session.program.pendingEmit.remaining = [] := by
  intro s rounds w
  have hs : s.program.Reachable := Program.reachable_of_start (Pair.start_fresh _)
  obtain ⟨hruns, hwatch⟩ := store_in_step (MemoryStore.keeps fun _ _ => True) s hs
  have hrounds : ∀ round ∈ rounds, ∀ p, Surrounds (fun _ _ => True) p (round.edit p) :=
    List.forall_mem_cons.mpr ⟨fun p => ⟨rfl, .inr trivial⟩,
      List.forall_mem_cons.mpr ⟨fun p => ⟨rfl, .inl rfl⟩, fun _ h => absurd h List.not_mem_nil⟩⟩
  obtain ⟨outcome, hrun, hsame⟩ := hwatch true [] rounds hrounds
  have hcalm : (w.outcome.map fun report => report.cancelled).toOption = some false := by
    decide +kernel
  change Runs _ s none outcome w.session at hrun
  change outcome.map Prod.fst = w.outcome at hsame
  clear_value w
  rw [← hsame] at hcalm ⊢
  cases outcome with
  | error e => cases hcalm
  | ok last =>
      have hgoing : last.1.cancelled = false := Option.some.inj hcalm
      obtain ⟨_, hstored, hdrained⟩ := hruns _ last.1 last.2 hrun
      have hpolicy : Host.policy last.2 = Host.policy w.session.program.host := by
        generalize w.session.program.host = host
        rfl
      have hhash : Program.optionsHash { w.session.program with host := last.2 }
          = w.session.program.optionsHash := congrArg w.session.program.options.fingerprint hpolicy
      exact ⟨⟨last.1, rfl, hgoing⟩, hstored.mpr hhash, hdrained hgoing⟩

/-- A cycle over a store in memory that is not cancelled stores the document of what it leaves. -/
theorem runCycle_memory {η : Type} [Host η] {s : Session η MemoryStore}
    (hcalm : (drain s.program).1.2 = none) :
    s.runCycle = (.ok (drain s.program).1.1,
      ⟨(drain s.program).2, ⟨some (drain s.program).2.buildInfoText⟩⟩) := by
  rw [runCycle_eq_conclude, conclude, hcalm]
  rfl

/-- Watching through a round whose only report is dropped ends with the first cycle. -/
theorem watch_of_dropped {η τ : Type} [Host η] [Store τ η] {s t : Session η τ} {report : CycleReport}
    (edit : Program η → Program η) {paths : List UnitPath} {e : Error} {q : Program η}
    (hcycle : s.runCycle = (.ok report, t)) (hgoing : report.cancelled = false)
    (hdropped : (edit t.program).reportChanged paths = (.error e, q)) :
    (s.watch true [] [⟨edit, [.changed paths]⟩]).outcome = .ok report
      ∧ (s.watch true [] [⟨edit, [.changed paths]⟩]).session = ⟨q, t.store⟩ := by
  have hmerged : Event.merge? [.changed paths] = some paths := by
    simp [Event.merge?]
  simp [watch, watchRounds, hcycle, hgoing, hmerged, hdropped]

/-- The policy may change while the session waits, and a failed snapshot then leads to no cycle: the document
in the store has the fingerprint of the policy that was in force when it was made. -/
theorem store_behind_policy :
    let host : ScriptedHost := { units := [("a.ts", { body := "a" })] }
    let s : Session ScriptedHost MemoryStore :=
      ⟨(Program.blank host {}).update
        (Snapshot.ofUnits [ScriptedHost.sourceUnit "a.ts" { body := "a" }]), {}⟩
    let edit : Program ScriptedHost → Program ScriptedHost := fun p =>
      { p with host := { p.host with includeInferred := false, failingSnapshots := 1 } }
    let w := s.watch true [] [⟨edit, [.changed ["a.ts"]]⟩]
    s.program.Reachable ∧ w.outcome.isOk = true
      ∧ Store.load w.session.store w.session.program.host
        ≠ .ok (some w.session.program.buildInfoText) := by
  intro host s edit w
  have hreachable : s.program.Reachable := .update (.blank _ _) _
  let stricter : ScriptedHost → ScriptedHost := fun host =>
    { host with includeInferred := false, failingSnapshots := 0, snapshots := host.snapshots + 1 }
  have hfirst : (drain s.program).1.2 = none ∧ (drain s.program).1.1.cancelled = false
      ∧ (drain s.program).2.options = {}
      ∧ Host.policy (drain s.program).2.host = "include_inferred=true" := by decide +kernel
  obtain ⟨hcalm, hgoing, hoptions, hpolicy⟩ := hfirst
  have hcycle := runCycle_memory hcalm
  generalize (drain s.program).2 = p at hcycle hoptions hpolicy
  have hhash : p.optionsHash ≠ Program.optionsHash { p with host := stricter p.host } := by
    have hpolicy' : Host.policy (stricter p.host) = "include_inferred=false" := rfl
    rw [Program.optionsHash, Program.optionsHash, hoptions, hpolicy, hpolicy']
    decide +kernel
  have hdropped : (edit p).reportChanged ["a.ts"]
      = (.error (.other "project scan failed"), { p with host := stricter p.host }) := rfl
  obtain ⟨houtcome, hsession⟩ := watch_of_dropped edit hcycle hgoing hdropped
  refine ⟨hreachable, ?_, ?_⟩
  · rw [show w.outcome = _ from houtcome]
    rfl
  · rw [show w.session = _ from hsession]
    intro hsame
    have htext : p.buildInfoText = Program.buildInfoText { p with host := stricter p.host } :=
      Option.some.inj (Except.ok.inj hsame)
    exact hhash (Program.buildInfoText_eq_iff.mp htext.symm).symm

end Session

end Rebuild
