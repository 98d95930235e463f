import Rebuild.Proofs.Leak

/-!
# Rechecks are called for

A pass keeps no account of why it took a unit into its queue.  The account is in the order of the rechecks,
once it is known which pass each of them belongs to.

* `Call.traceAll`: something about each recheck of a round, read off when it is handed out, and
  `Call.traceAll_induct`: what rechecks and all other steps keep;
* `Visit`: a recheck with the root of its pass, and `passLog`: the rechecks of one pass;
* `CalledFor`: a recheck of the pass called for a unit;
* `Program.Explained`: in the middle of a round, every recheck and every unit in the queue was called for;
* `recheck_justified`: every recheck of a round is of a root or was called for.
-/

namespace Rebuild

/-! ### Traces of a round -/

namespace Program

variable {η α : Type} [Host η]

/-- What is observed when a check is pulled: something about the unit that is handed out, if one is. -/
def checkTrace (observe : Program η → UnitId → α) (p : Program η) : List α :=
  if p.phase = .done then []
  else if p.cancelled then []
  else
    match p.nextUnit with
    | (none, _) => []
    | (some unit, p) => [observe p unit]

/-- What is observed when an emit is pulled, after at most `fuel` rechecks. -/
def emitTrace (observe : Program η → UnitId → α) : Nat → Program η → List α
  | 0, _ => []
  | fuel + 1, p =>
      if p.phase = .done then []
      else if p.cancelled then []
      else
        match p.pendingEmit.next? with
        | some _ => []
        | none =>
            match p.nextUnit with
            | (none, _) => []
            | (some unit, p) => observe p unit :: emitTrace observe fuel (p.afterRecheck unit)

end Program

theorem Steps.induct_idle {η : Type} [Host η] {allowed : (η → η) → Prop} {p q : Program η}
    {log : List Recheck} {motive : Program η → Prop}
    (hidle : ∀ {p q : Program η}, motive p → Step allowed p [] q → motive q)
    (h : Steps allowed p log q) (hlog : log = []) (hp : motive p) : motive q := by
  induction h with
  | refl => exact hp
  | head hstep _ ih =>
      obtain ⟨rfl, rfl⟩ := List.append_eq_nil_iff.mp hlog
      exact ih rfl (hidle hp hstep)

namespace Call

variable {η α : Type} [Host η]

def trace (observe : Program η → UnitId → α) : Call η → Program η → List α
  | .check, p => p.checkTrace observe
  | .emit, p => Program.emitTrace observe (p.state.size + 1) p
  | _, _ => []

def traceAll (observe : Program η → UnitId → α) : List (Call η) → Program η → List α
  | [], _ => []
  | call :: calls, p => call.trace observe p ++ traceAll observe calls (call.run p)

section Log

variable {observe : Program η → UnitId → α} {recheck : α → Recheck}

/-- The rechecks of a trace are those of the log. -/
theorem map_trace (hrecheck : ∀ p unit, recheck (observe p unit) = p.recheckOf unit) (call : Call η)
    (p : Program η) : (call.trace observe p).map recheck = call.log p := by
  cases call with
  | check =>
      show (p.checkTrace observe).map recheck = p.checkLog
      rw [Program.checkTrace, Program.checkLog]
      split
      · rfl
      · split
        · rfl
        · rcases p.nextUnit with ⟨next, q⟩
          cases next with
          | none => rfl
          | some unit => exact congrArg (fun e => [e]) (hrecheck q unit)
  | emit =>
      have hloop : ∀ fuel p, (Program.emitTrace observe fuel p).map recheck
          = Program.emitLog fuel p := by
        intro fuel
        induction fuel with
        | zero => exact fun _ => rfl
        | succ fuel ih =>
            intro p
            rw [Program.emitTrace, Program.emitLog]
            split
            · rfl
            · split
              · rfl
              · cases p.pendingEmit.next? with
                | some found => rfl
                | none =>
                    rcases p.nextUnit with ⟨next, q⟩
                    cases next with
                    | none => rfl
                    | some unit =>
                        show recheck (observe q unit) :: List.map recheck _ = _
                        rw [hrecheck, ih]
      exact hloop _ p
  | _ => rfl

theorem map_traceAll (hrecheck : ∀ p unit, recheck (observe p unit) = p.recheckOf unit)
    (calls : List (Call η)) (p : Program η) :
    (traceAll observe calls p).map recheck = (play calls p).1 := by
  induction calls generalizing p with
  | nil => rfl
  | cons call calls ih =>
      rw [traceAll, List.map_append, map_trace hrecheck, ih]
      rfl

end Log

section Induct

variable {observe : Program η → UnitId → α} {motive : List α → Program η → Prop}
  (hrecheck : ∀ {trace : List α} {p q : Program η} {unit : UnitId}, motive trace p →
    p.nextUnit = (some unit, q) → motive (trace ++ [observe q unit]) (q.afterRecheck unit))
  (hidle : ∀ {trace : List α} {p q : Program η}, motive trace p →
    Step (fun _ => True) p [] q → motive trace q)
include hrecheck hidle

theorem checkTrace_induct {before : List α} {p : Program η} (hp : motive before p) :
    motive (before ++ p.checkTrace observe) p.pullCheck.2 := by
  have hsteps : Steps (fun _ => True) p p.checkLog p.pullCheck.2 := Steps.pullCheck p
  rw [Program.checkLog] at hsteps
  rw [Program.checkTrace]
  split
  · rename_i hdone
    rw [if_pos hdone] at hsteps
    rw [List.append_nil]
    exact hsteps.induct_idle hidle rfl hp
  · rename_i hgoing
    rw [if_neg hgoing] at hsteps
    split
    · rename_i hcancelled
      rw [if_pos hcancelled] at hsteps
      rw [List.append_nil]
      exact hsteps.induct_idle hidle rfl hp
    · rename_i hallowed
      rw [if_neg hallowed] at hsteps
      rcases hnext : p.nextUnit with ⟨next, q⟩
      rw [hnext] at hsteps
      cases next with
      | none =>
          rw [List.append_nil]
          exact hsteps.induct_idle hidle rfl hp
      | some unit =>
          have hpull : p.pullCheck.2 = q.afterRecheck unit := by
            rw [Program.pullCheck, if_neg hgoing, if_neg hallowed, hnext]
            rfl
          rw [hpull]
          exact hrecheck hp hnext

theorem emitTrace_induct {fuel : Nat} {before : List α} {p : Program η} (hp : motive before p) :
    motive (before ++ Program.emitTrace observe fuel p) (Program.emitLoop fuel p).2 := by
  induction fuel generalizing before p with
  | zero =>
      rw [Program.emitTrace, List.append_nil]
      exact hp
  | succ fuel ih =>
      rw [Program.emitTrace, Program.emitLoop]
      split
      · rw [List.append_nil]
        exact hp
      · split
        · rw [List.append_nil]
          exact hp
        · cases p.pendingEmit.next? with
          | some found =>
              obtain ⟨entry, queue⟩ := found
              rw [List.append_nil]
              exact hidle hp (Step.emit queue entry)
          | none =>
              rcases hnext : p.nextUnit with ⟨next, q⟩
              cases next with
              | none =>
                  rw [List.append_nil]
                  exact hidle hp (Step.exhaust .done hnext)
              | some unit =>
                  have hrest := ih (hrecheck hp hnext)
                  rw [List.append_assoc] at hrest
                  exact hrest

/-- **What rechecks and all other steps keep holds along a trace.** -/
theorem traceAll_induct (calls : List (Call η)) {before : List α} {p : Program η}
    (hp : motive before p) : motive (before ++ traceAll observe calls p) (play calls p).2 := by
  induction calls generalizing before p with
  | nil =>
      rw [traceAll, List.append_nil]
      exact hp
  | cons call calls ih =>
      have hcall : motive (before ++ call.trace observe p) (call.run p) := by
        have hidles : call.log p = [] → call.trace observe p = [] →
            motive (before ++ call.trace observe p) (call.run p) := by
          intro hlog htrace
          have hwithin : call.Within fun _ => True := call.within_of_forall fun _ => trivial
          rw [htrace, List.append_nil]
          exact (Steps.call hwithin p).induct_idle hidle hlog hp
        cases call with
        | check => exact checkTrace_induct (motive := motive) hrecheck hidle hp
        | emit => exact emitTrace_induct (motive := motive) hrecheck hidle hp
        | _ => exact hidles rfl rfl
      rw [traceAll, ← List.append_assoc]
      exact ih hcall

end Induct

end Call

/-! ### Passes of a round -/

/-- A recheck, and the root of the pass that it belongs to. -/
structure Visit where
  recheck : Recheck
  root : UnitId
  deriving Repr, DecidableEq

/-- The rechecks of the pass with a root, in order.  No two passes of a round have the same root. -/
def passLog (visits : List Visit) (root : UnitId) : List Recheck :=
  (visits.filter fun v => v.root == root).map (·.recheck)

/-- A recheck of the pass called for a unit: dependencies are not tracked, or the recheck is of the root,
which has to reach every unit, or it counts as moved and concerns every unit or the dependents of its
unit. -/
def CalledFor (g : Graph) (roots : List Root) (root : UnitId) (log : List Recheck) (id : UnitId) : Prop :=
  ∃ w ∈ log, g.tracking = false ∨ (w.unit = root ∧ Root.Flags roots root)
    ∨ (w ∈ movers g log ∧ (w.isGlobal = true ∨ id ∈ g.dependentsOf w.unit))

section PassLog

variable {visits : List Visit} {v : Visit} {root id : UnitId} {g : Graph} {roots : List Root}
  {log : List Recheck}

theorem passLog_append_self (visits : List Visit) (v : Visit) :
    passLog (visits ++ [v]) v.root = passLog visits v.root ++ [v.recheck] := by
  simp [passLog]

theorem passLog_eq_nil (h : ∀ v ∈ visits, v.root ≠ root) : passLog visits root = [] := by
  rw [passLog, List.map_eq_nil_iff, List.filter_eq_nil_iff]
  intro v hv hroot
  exact h v hv (beq_iff_eq.mp hroot)

/-- The last of several visits, or one of those before. -/
theorem split_append_singleton {before after : List Visit} {last : Visit}
    (h : visits ++ [last] = before ++ v :: after) :
    (visits = before ∧ last = v) ∨ ∃ rest, visits = before ++ v :: rest := by
  rcases List.eq_nil_or_concat after with rfl | ⟨rest, final, rfl⟩
  · obtain ⟨hvisits, hlast⟩ := List.append_inj' h rfl
    exact Or.inl ⟨hvisits, List.head_eq_of_cons_eq hlast⟩
  · rw [List.concat_eq_append, ← List.cons_append, ← List.append_assoc] at h
    exact Or.inr ⟨rest, (List.append_inj' h rfl).1⟩

theorem CalledFor.append (h : CalledFor g roots root log id) (e : Recheck) :
    CalledFor g roots root (log ++ [e]) id := by
  obtain ⟨w, hw, hreason⟩ := h
  refine ⟨w, List.mem_append_left _ hw, ?_⟩
  rcases hreason with hoff | hroot | ⟨hmover, hcalled⟩
  · exact Or.inl hoff
  · exact Or.inr (Or.inl hroot)
  · exact Or.inr (Or.inr ⟨mem_movers_append _ hmover, hcalled⟩)

theorem movers_eq_nil (h : ∀ e ∈ log, e.moved = false) : movers g log = [] := by
  induction log using List.reverseRecOn with
  | nil => rfl
  | append_singleton log e ih =>
      have hnone := ih fun d hd => h d (List.mem_append_left _ hd)
      have hstays := h e (List.mem_append_right _ List.mem_cons_self)
      rw [movers_append_singleton, hnone, Recheck.counts, hstays]
      rfl

end PassLog

/-- The visit of a unit that was handed out. -/
def Program.visitOf {η : Type} [Host η] (p : Program η) (unit : UnitId) : Visit where
  recheck := p.recheckOf unit
  root := (p.current.map (·.root)).getD unit

/-- The visits of several calls. -/
def Call.visits {η : Type} [Host η] (calls : List (Call η)) (p : Program η) : List Visit :=
  Call.traceAll Program.visitOf calls p

namespace Program

variable {η : Type} {p q r : Program η} {g : Graph} {roots : List Root} {visits : List Visit}

/-- The middle of a round over the graph `g` that started with `roots`, after these visits. -/
structure Explained (g : Graph) (roots : List Root) (visits : List Visit) (q : Program η) : Prop where
  tidy : q.Tidy
  graph : q.state.graph = g
  /-- No root is added. -/
  rest : q.roots.Sublist roots
  rooted : ∀ v ∈ visits, v.root ∈ q.processed
  begun : ∀ pass, q.current = some pass →
    pass.root ∈ q.processed ∧ passLog visits pass.root ≠ []
  /-- A pass that has to reach every unit has a flagged root. -/
  flagged : ∀ pass, q.current = some pass → pass.isGlobal = true → Root.Flags roots pass.root
  /-- What leaks in the pass under way republishes a mover of it. -/
  leaking : ∀ pass, q.current = some pass → ∀ id ∈ pass.leaking,
    ∃ d ∈ movers g (passLog visits pass.root), id ∈ g.exportersOf d.unit
  /-- What waits in the pass under way was called for in it. -/
  queued : ∀ pass, q.current = some pass → ∀ id ∈ pass.queue,
    CalledFor g roots pass.root (passLog visits pass.root) id
  /-- Every pass starts with its root and has no other root. -/
  first : ∀ before v after, visits = before ++ v :: after →
    (passLog before v.root = [] ↔ v.recheck.unit = v.root)
  /-- What was rechecked is a root, or was called for in its pass. -/
  justified : ∀ before v after, visits = before ++ v :: after → v.recheck.unit ∈ roots.map (·.unit)
    ∨ CalledFor g roots v.root (passLog before v.root) v.recheck.unit

namespace Explained

/-- At the start of a round there is no pass. -/
theorem start (p : Program η) (s : Snapshot) :
    (p.update s).Explained (s.graph p.options.dependencyTracking) (p.update s).roots [] where
  tidy := tidy_update p s
  graph := rfl
  rest := List.Sublist.refl _
  rooted := by simp
  begun := by simp [update]
  flagged := by simp [update]
  leaking := by simp [update]
  queued := by simp [update]
  first := by simp
  justified := by simp

theorem idles (h : q.Explained g roots visits) (hidles : q.Idles r) (htidy : r.Tidy)
    (hstate : r.state = q.state) (hprocessed : r.processed = q.processed) :
    r.Explained g roots visits := by
  have hsame : ∀ pass, r.current = some pass → q.current = some pass := by
    intro pass hpass
    rcases hidles with ⟨hcurrent, _⟩ | ⟨hnone, _, _⟩
    · rw [← hcurrent, hpass]
    · rw [hnone] at hpass
      cases hpass
  have hrest : r.roots.Sublist q.roots := by
    rcases hidles with ⟨_, hroots⟩ | ⟨_, hnone, _⟩
    · rw [hroots]
    · rw [hnone]
      exact List.nil_sublist _
  refine ⟨htidy, by rw [hstate]; exact h.graph, hrest.trans h.rest, ?_, ?_, ?_, ?_, ?_, h.first,
    h.justified⟩
  · rw [hprocessed]
    exact h.rooted
  · rw [hprocessed]
    exact fun pass hpass => h.begun pass (hsame pass hpass)
  · exact fun pass hpass => h.flagged pass (hsame pass hpass)
  · exact fun pass hpass => h.leaking pass (hsame pass hpass)
  · exact fun pass hpass => h.queued pass (hsame pass hpass)

/-- What is known about the pass that hands out a unit: it goes on, or starts with the unit. -/
structure Handing (g : Graph) (roots : List Root) (visits : List Visit) (q : Program η)
    (unit : UnitId) (pass : Pass) : Prop where
  begun : (pass.root ∈ q.processed ∧ passLog visits pass.root ≠ [])
    ∨ (pass.root = unit ∧ passLog visits pass.root = [])
  flagged : pass.isGlobal = true → Root.Flags roots pass.root
  leaking : ∀ id ∈ pass.leaking, ∃ d ∈ movers g (passLog visits pass.root), id ∈ g.exportersOf d.unit
  queued : ∀ id ∈ pass.queue, CalledFor g roots pass.root (passLog visits pass.root) id
  justified : unit ∈ roots.map (·.unit) ∨ CalledFor g roots pass.root (passLog visits pass.root) unit

theorem handing (h : q.Explained g roots visits) {unit : UnitId} {pass : Pass} {left : List Root}
    (hfresh : unit ∉ q.processed) (hhanded : q.HandedOut unit pass left) :
    Handing g roots visits q unit pass := by
  cases hhanded with
  | @byPass current rest hcurrent hqueue =>
      have hwaits : ∀ id ∈ unit :: rest, id ∈ current.queue := by
        rw [← hqueue]
        exact fun id hid => (List.dropWhile_sublist _).subset hid
      refine ⟨Or.inl (h.begun current hcurrent), h.flagged current hcurrent,
        h.leaking current hcurrent, fun id hid => ?_, Or.inr ?_⟩
      · exact h.queued current hcurrent id (hwaits id (List.mem_cons_of_mem _ hid))
      · exact h.queued current hcurrent unit (hwaits unit List.mem_cons_self)
  | @asRoot root rest _ hroots hunit =>
      have hmem : root ∈ roots := by
        have hhead : root ∈ q.roots.dropWhile fun root => q.processed.contains root.unit := by
          rw [hroots]
          exact List.mem_cons_self
        exact h.rest.subset ((List.dropWhile_sublist _).subset hhead)
      -- no pass had this root, since it was not processed
      have hnone : passLog visits unit = [] := by
        refine passLog_eq_nil fun v hv hroot => hfresh ?_
        rw [← hroot]
        exact h.rooted v hv
      refine ⟨Or.inr ⟨rfl, hnone⟩, fun hglobal => ⟨root, hmem, hunit, hglobal⟩, ?_, ?_, Or.inl ?_⟩
      · simp [Pass.start]
      · simp
      · rw [← hunit]
        exact List.mem_map_of_mem hmem

variable [Host η] {unit : UnitId} {pass : Pass}

/-- A unit that its pass takes for moved counts as moved among the rechecks of the pass. -/
theorem Handing.counts (h : Handing g roots visits q unit pass)
    (hmoved : pass.isMoved unit (q.recheckOf unit).moved = true) :
    (q.recheckOf unit).counts g (movers g (passLog visits pass.root)) = true := by
  rw [Pass.isMoved, Bool.or_eq_true] at hmoved
  rcases hmoved with hsignature | hleaks
  · rw [Recheck.counts, hsignature, Bool.true_or]
  · obtain ⟨d, hd, hexports⟩ := h.leaking unit (by simpa using hleaks)
    exact counts_of_exporter hd hexports

/-- What the recheck calls for, it calls for in its pass. -/
theorem Handing.calledFor (h : Handing g roots visits q unit pass) (hgraph : q.state.graph = g)
    {id : UnitId} (hid : id ∈ q.calls unit pass) :
    CalledFor g roots pass.root (passLog visits pass.root ++ [q.recheckOf unit]) id := by
  refine ⟨q.recheckOf unit, List.mem_append_right _ List.mem_cons_self, ?_⟩
  rw [calls, hgraph] at hid
  rcases Pass.calls_cases hid with hconcerns | ⟨hmoved, hdepends⟩
  · simp only [Pass.concernsAll, Pass.marksEverything, Bool.or_eq_true, Bool.and_eq_true,
      Bool.not_eq_true', beq_iff_eq] at hconcerns
    rcases hconcerns with (hoff | ⟨hglobal, hroot⟩) | ⟨hmoved, hglobal⟩
    · exact Or.inl hoff
    · exact Or.inr (Or.inl ⟨hroot, h.flagged hglobal⟩)
    · exact Or.inr (Or.inr ⟨mem_movers_of_counts (h.counts hmoved), Or.inl hglobal⟩)
  · exact Or.inr (Or.inr ⟨mem_movers_of_counts (h.counts hmoved), Or.inr hdepends⟩)

/-- **A recheck keeps the account.** -/
theorem visit (h : q.Explained g roots visits) (hvisits : q.Visits unit pass r) :
    r.Explained g roots (visits ++ [⟨q.recheckOf unit, pass.root⟩]) := by
  have hhanding := h.handing hvisits.fresh hvisits.handed
  have hlog : passLog (visits ++ [⟨q.recheckOf unit, pass.root⟩]) pass.root
      = passLog visits pass.root ++ [q.recheckOf unit] :=
    passLog_append_self visits ⟨q.recheckOf unit, pass.root⟩
  have hroot : pass.root ∈ r.processed := by
    rcases hhanding.begun with ⟨hdone, _⟩ | ⟨hunit, _⟩
    · exact hvisits.mem_processed hdone
    · rw [hunit]
      exact hvisits.unit_mem_processed
  have hcurrent : ∀ later, r.current = some later →
      later = ((q.landed unit pass).enqueue (q.calls unit pass) r.processed).1 := by
    intro later hlater
    exact Option.some.inj (hlater.symm.trans hvisits.current)
  refine ⟨hvisits.tidy, hvisits.graph.trans h.graph,
    hvisits.handed.roots_sublist.trans h.rest, ?_, ?_, ?_, ?_, ?_, ?_, ?_⟩
  · intro v hv
    rcases List.mem_append.mp hv with hold | hnew
    · exact hvisits.mem_processed (h.rooted v hold)
    · rw [List.mem_singleton.mp hnew]
      exact hroot
  · intro later hlater
    obtain rfl := hcurrent later hlater
    refine ⟨hroot, ?_⟩
    show passLog _ pass.root ≠ []
    rw [hlog]
    simp
  · intro later hlater hglobal
    obtain rfl := hcurrent later hlater
    exact hhanding.flagged hglobal
  · intro later hlater id hid
    obtain rfl := hcurrent later hlater
    show ∃ d ∈ movers g (passLog _ pass.root), id ∈ g.exportersOf d.unit
    rw [hlog]
    rcases Pass.leakingAfter_cases hid with hold | ⟨hmoved, hnew⟩
    · obtain ⟨d, hd, hexports⟩ := hhanding.leaking id hold
      exact ⟨d, mem_movers_append _ hd, hexports⟩
    · refine ⟨_, mem_movers_of_counts (hhanding.counts hmoved), ?_⟩
      rw [← h.graph]
      exact hnew
  · intro later hlater id hid
    obtain rfl := hcurrent later hlater
    show CalledFor g roots pass.root (passLog _ pass.root) id
    rw [hlog]
    rcases Pass.mem_queue_enqueue.mp hid with hold | hnew
    · exact (hhanding.queued id hold).append _
    · exact hhanding.calledFor h.graph (Pass.mem_snd_enqueue.mp hnew).1
  · intro before v after hsplit
    rcases split_append_singleton hsplit with ⟨rfl, rfl⟩ | ⟨rest, hsplit⟩
    · rcases hhanding.begun with ⟨hdone, hbegun⟩ | ⟨hunit, hnone⟩
      · refine iff_of_false hbegun fun hunit => hvisits.fresh ?_
        rw [show unit = pass.root from hunit]
        exact hdone
      · exact iff_of_true hnone hunit.symm
    · exact h.first before v rest hsplit
  · intro before v after hsplit
    rcases split_append_singleton hsplit with ⟨rfl, rfl⟩ | ⟨rest, hsplit⟩
    · exact hhanding.justified
    · exact h.justified before v rest hsplit

/-- The account is kept at every moment of a round. -/
theorem play (p : Program η) (s : Snapshot) (calls : List (Call η)) :
    (Call.play calls (p.update s)).2.Explained (s.graph p.options.dependencyTracking)
      (p.update s).roots (Call.visits calls (p.update s)) := by
  have hround : Explained _ _ ([] ++ Call.traceAll visitOf calls (p.update s)) _ :=
    Call.traceAll_induct (motive := fun visits q =>
      Explained (s.graph p.options.dependencyTracking) (p.update s).roots visits q)
      ?_ ?_ calls (start p s)
  · exact hround
  · intro visits q next unit h hnext
    obtain ⟨pass, hpass, hvisits⟩ := visits_of_nextUnit h.tidy hnext
    obtain ⟨_, hsame⟩ := rechecks_of_nextUnit h.tidy hnext
    have hvisit : next.visitOf unit = ⟨q.recheckOf unit, pass.root⟩ := by
      rw [visitOf, hsame, hpass]
      rfl
    rw [hvisit]
    exact h.visit hvisits
  · intro visits q next h hstep
    rcases hstep.visits h.tidy with ⟨_, _, hlog, _⟩ | ⟨_, hrests, hidles⟩
    · cases hlog
    · exact h.idles hidles hrests.tidy hrests.state hrests.processed

end Explained

/-- Where the roots are not flagged and no signature moves, only roots are rechecked. -/
theorem Explained.mem_roots_of_still (h : q.Explained g roots visits)
    (hflags : ∀ root ∈ roots, root.isGlobal = false) (htracking : g.tracking = true)
    (hstill : ∀ v ∈ visits, v.recheck.moved = false) {v : Visit} (hv : v ∈ visits) :
    v.recheck.unit ∈ roots.map (·.unit) := by
  obtain ⟨before, after, hsplit⟩ := List.append_of_mem hv
  refine (h.justified before v after hsplit).resolve_right fun hcalled => ?_
  have hnone : movers g (passLog before v.root) = [] := by
    refine movers_eq_nil fun e he => ?_
    obtain ⟨w, hw, rfl⟩ := List.mem_map.mp he
    apply hstill w
    rw [hsplit]
    exact List.mem_append_left _ (List.mem_filter.mp hw).1
  obtain ⟨w, _, hoff | ⟨_, root, hroot, _, hglobal⟩ | ⟨hmover, _⟩⟩ := hcalled
  · rw [htracking] at hoff
    cases hoff
  · rw [hflags root hroot] at hglobal
    cases hglobal
  · rw [hnone] at hmover
    cases hmover

end Program

open Program in
/-- **No recheck without a reason.**  Every recheck of a round is of a root, that is of a unit that the
snapshot calls for, or an earlier recheck of the same pass called for it.  Each pass begins with its root.
So a finished round in which dependencies are tracked, no root is flagged and no signature moves rechecks
exactly its roots. -/
theorem recheck_justified {η : Type} [Host η] {p : Program η} (hp : p.Reachable) (s : Snapshot)
    (calls : List (Call η)) :
    (Call.visits calls (p.update s)).map (·.recheck) = (Call.play calls (p.update s)).1
      ∧ (∀ before v after, Call.visits calls (p.update s) = before ++ v :: after →
        (passLog before v.root = [] ↔ v.recheck.unit = v.root)
          ∧ ((∃ unit, s.units[v.recheck.unit]? = some unit ∧ (p.StartsOver s ∨ p.Calls s unit))
            ∨ CalledFor (s.graph p.options.dependencyTracking) (p.update s).roots v.root
              (passLog before v.root) v.recheck.unit))
      ∧ ((∀ root ∈ (p.update s).roots, root.isGlobal = false) →
        p.options.dependencyTracking = true →
        (∀ v ∈ Call.visits calls (p.update s), v.recheck.moved = false) →
        (Call.play calls (p.update s)).2.Finished →
        ∀ id, id ∈ (Call.visits calls (p.update s)).map (·.recheck.unit)
          ↔ id ∈ (p.update s).roots.map (·.unit)) := by
  have hexplained := Explained.play p s calls
  have hlog : (Call.visits calls (p.update s)).map (·.recheck) = (Call.play calls (p.update s)).1 :=
    Call.map_traceAll (fun _ _ => rfl) calls (p.update s)
  have hround : p.Propagates s (Call.play calls (p.update s)).1 (Call.play calls (p.update s)).2 := by
    have hcalls : ∀ c ∈ calls, c.Within fun _ => True :=
      fun c _ => c.within_of_forall fun _ => trivial
    have hsteps := (Propagates.start p s).steps (Steps.play hcalls (p.update s))
    rwa [List.nil_append] at hsteps
  refine ⟨hlog, fun before v after hsplit => ⟨hexplained.first before v after hsplit, ?_⟩, ?_⟩
  · rcases hexplained.justified before v after hsplit with hroot | hcalled
    · have hsize : v.recheck.unit < s.units.length := by
        have hwaits : v.recheck.unit ∈ (p.update s).frontier := hroot
        simpa using (tidy_update p s).bounded _ hwaits
      have hunit := List.getElem?_eq_getElem hsize
      exact Or.inl ⟨_, hunit, (mem_frontier_update_iff hp.tidy.wellFormed hunit).mp hroot⟩
    · exact Or.inr hcalled
  · intro hflags htracking hstill hfinished id
    constructor
    · intro hid
      obtain ⟨v, hv, rfl⟩ := List.mem_map.mp hid
      have htracked : (s.graph p.options.dependencyTracking).tracking = true := by
        rw [Snapshot.graph_tracking, htracking]
      exact hexplained.mem_roots_of_still hflags htracked hstill hv
    · intro hid
      have hcovered := hround.roots id (Or.inr hid)
      have hdone := hround.tidy.processed_of_finished hfinished hcovered
      rw [hround.processed, ← hlog, List.map_map] at hdone
      exact hdone

/-- Only `u` has a new text.  It is rechecked first; `e` republishes it, so that `e` calls for `d` although
its own signature stays. -/
theorem recheck_justified_chain :
    Call.visits [.check, .check, .check]
        ((Stub.chainedAt "one" "two").update (Stub.chain "one" "two").snapshot)
        = [⟨⟨2, "u", true, false⟩, 2⟩, ⟨⟨1, "e", false, false⟩, 2⟩, ⟨⟨0, "d", true, false⟩, 2⟩]
      ∧ CalledFor ((Stub.chain "one" "two").snapshot.graph true)
        ((Stub.chainedAt "one" "two").update (Stub.chain "one" "two").snapshot).roots 2
        [⟨2, "u", true, false⟩, ⟨1, "e", false, false⟩] 0 := by
  have hvisits : Call.visits [.check, .check, .check]
      ((Stub.chainedAt "one" "two").update (Stub.chain "one" "two").snapshot)
        = [⟨⟨2, "u", true, false⟩, 2⟩, ⟨⟨1, "e", false, false⟩, 2⟩, ⟨⟨0, "d", true, false⟩, 2⟩] := by
    decide +kernel
  have hreachable := Stub.reachable_chainedAt "one" "two"
  refine ⟨hvisits, ?_⟩
  have hlast := (recheck_justified hreachable (Stub.chain "one" "two").snapshot
    [.check, .check, .check]).2.1 [⟨⟨2, "u", true, false⟩, 2⟩, ⟨⟨1, "e", false, false⟩, 2⟩]
      ⟨⟨0, "d", true, false⟩, 2⟩ [] hvisits
  refine hlast.2.resolve_left ?_
  -- `d` is no root of the round
  rintro ⟨unit, hunit, hroot⟩
  have hwaits := (Program.mem_frontier_update_iff hreachable.tidy.wellFormed hunit).mpr hroot
  revert hwaits
  decide +kernel

end Rebuild
