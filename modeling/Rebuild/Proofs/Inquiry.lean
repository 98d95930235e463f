import Rebuild.Proofs.History
import Rebuild.Proofs.Pair
import Rebuild.Proofs.Phases
import Rebuild.Proofs.Recorded

/-!
# Inquiries stay unseen

Diagnostics may be asked for at any time.  An inquiry checks a unit outside the order of the round and puts
the result into the cache, where the round drops and replaces entries as it goes on.  Two builds may so have
different caches for a while; nothing else of them differs, and the units that were processed have the same
entries in both.

* `Outlook`: what a host can tell, and that checks leave it alone;
* `Program.SameBuild`: programs that differ in the cache only, and not in the entries of processed units;
* `Program.SameBuild.run`: the same request keeps two programs so, and has the same result;
* `Program.Filed`: the units that were processed are cached;
* `Program.sameBuild_inquiry`: an inquiry leads to a program of the same build;
* `inquiries_unseen`: a run with inquiries and the run without them.
-/

namespace Rebuild

variable {η : Type}

/-- What a host can tell.  What it answers depends on its view alone: its latest snapshot, and the
surroundings that the next one is taken of.  A check and an interface leave the view as it is; an emit and a
snapshot may move it, in the same way for all hosts that have it. -/
structure Outlook (η : Type) [Host η] where
  View : Type
  view : η → View
  check_eq : ∀ {host host'}, view host = view host' → ∀ unit,
    (Host.check host unit).1 = (Host.check host' unit).1
  view_check : ∀ host unit, view (Host.check host unit).2 = view host
  interface_eq : ∀ {host host'}, view host = view host' → ∀ unit,
    (Host.interface host unit).1 = (Host.interface host' unit).1
  view_interface : ∀ host unit, view (Host.interface host unit).2 = view host
  emit_eq : ∀ {host host'}, view host = view host' → ∀ unit kind,
    (Host.emit host unit kind).1 = (Host.emit host' unit kind).1
      ∧ view (Host.emit host unit kind).2 = view (Host.emit host' unit kind).2
  snapshot_eq : ∀ {host host'}, view host = view host' → ∀ changed,
    (Host.snapshot host changed).1 = (Host.snapshot host' changed).1
      ∧ view (Host.snapshot host changed).2 = view (Host.snapshot host' changed).2
  counts_eq : ∀ {host host'}, view host = view host' → Host.counts host = Host.counts host'
  policy_eq : ∀ {host host'}, view host = view host' → Host.policy host = Host.policy host'

namespace Outlook

variable [Host η]

/-- The surroundings of a host are changed in a way that depends on its view alone. -/
def Fair (O : Outlook η) (change : η → η) : Prop :=
  ∀ {host host'}, O.view host = O.view host' → O.view (change host) = O.view (change host')

/-- The record of a host is not part of its view. -/
def recorded (O : Outlook η) : Outlook (Recorded η) where
  View := O.View
  view r := O.view r.host
  check_eq hview unit := O.check_eq hview unit
  view_check r unit := O.view_check r.host unit
  interface_eq hview unit := O.interface_eq hview unit
  view_interface r unit := O.view_interface r.host unit
  emit_eq hview unit kind := O.emit_eq hview unit kind
  snapshot_eq hview changed := O.snapshot_eq hview changed
  counts_eq hview := O.counts_eq hview
  policy_eq hview := O.policy_eq hview

end Outlook

namespace Program

variable [Host η] {O : Outlook η} {p q r : Program η}

/-! ### Programs of the same build -/

/-- Two programs differ in their hosts and in their caches only.  The hosts have the same view, and the
units that were processed have the same entries in both caches. -/
structure SameBuild (O : Outlook η) (p q : Program η) : Prop where
  same : ∃ host cache, q = { p with host, cache }
  view : O.view p.host = O.view q.host
  entries : ∀ id ∈ p.processed,
    p.cache.find? (p.state.graph.pathOf id) = q.cache.find? (p.state.graph.pathOf id)

namespace SameBuild

theorem refl (p : Program η) : SameBuild O p p :=
  ⟨⟨p.host, p.cache, rfl⟩, rfl, fun _ _ => rfl⟩

theorem trans (h : SameBuild O p q) (h' : SameBuild O q r) : SameBuild O p r := by
  obtain ⟨⟨host, cache, rfl⟩, hview, hentries⟩ := h
  obtain ⟨⟨host', cache', rfl⟩, hview', hentries'⟩ := h'
  exact ⟨⟨host', cache', rfl⟩, hview.trans hview',
    fun id hid => (hentries id hid).trans (hentries' id hid)⟩

/-- Both programs have the same in common that does not depend on the host and the cache. -/
theorem reads {α : Type} (h : SameBuild O p q) (read : Program η → α)
    (hread : ∀ p host cache, read { p with host, cache } = read p) : read p = read q := by
  obtain ⟨host, cache, rfl⟩ := h.same
  exact (hread p host cache).symm

theorem standing (h : SameBuild O p q) : p.standing = q.standing := by
  obtain ⟨⟨host, cache, rfl⟩, _, hentries⟩ := h
  have hchecked : p.processed.map (fun id => (p.state.graph.pathOf id, p.cache.get? (p.state.graph.pathOf id)))
      = p.processed.map fun id => (p.state.graph.pathOf id, cache.get? (p.state.graph.pathOf id)) := by
    refine List.map_congr_left fun id hid => ?_
    rw [Cache.get?, Cache.get?, hentries id hid]
  simp only [Program.standing, hchecked]
  rfl

/-! ### Rechecks -/

theorem checkUnit (h : SameBuild O p q) (path : UnitPath) :
    (p.checkUnit path).1 = (q.checkUnit path).1 ∧ SameBuild O (p.checkUnit path).2 (q.checkUnit path).2 := by
  obtain ⟨⟨host, cache, rfl⟩, hview, hentries⟩ := h
  have hanswer := O.check_eq hview path
  have hafter : O.view (Host.check p.host path).2 = O.view (Host.check host path).2 := by
    rw [O.view_check, O.view_check, hview]
  simp only [Program.checkUnit, ← hanswer]
  split
  · exact ⟨rfl, ⟨_, cache, rfl⟩, hafter, hentries⟩
  · exact ⟨rfl, ⟨_, cache, rfl⟩, hafter, hentries⟩

theorem signUnit (h : SameBuild O p q) (path : UnitPath) :
    (p.signUnit path).1 = (q.signUnit path).1 ∧ SameBuild O (p.signUnit path).2 (q.signUnit path).2 := by
  obtain ⟨⟨host, cache, rfl⟩, hview, hentries⟩ := h
  have hanswer := O.interface_eq hview path
  have hviews : O.view (Host.interface p.host path).2 = O.view (Host.interface host path).2 := by
    rw [O.view_interface, O.view_interface, hview]
  have hcounts := O.counts_eq hviews
  simp only [Program.signUnit]
  rcases hfirst : Host.interface p.host path with ⟨outcome, later⟩
  rcases hsecond : Host.interface host path with ⟨outcome', later'⟩
  rw [hfirst, hsecond] at hanswer hviews hcounts
  obtain rfl : outcome = outcome' := hanswer
  cases outcome with
  | ok interface =>
      simp only [show Host.counts later = Host.counts later' from hcounts]
      exact ⟨trivial, ⟨_, cache, rfl⟩, hviews, hentries⟩
  | error e => exact ⟨rfl, ⟨_, cache, rfl⟩, hviews, hentries⟩

theorem examine (h : SameBuild O p q) (path : UnitPath) :
    (p.examine path).1 = (q.examine path).1 ∧ SameBuild O (p.examine path).2 (q.examine path).2 := by
  obtain ⟨hfound, hafter⟩ := h.checkUnit path
  rw [Program.examine, Program.examine]
  rcases hfirst : p.checkUnit path with ⟨⟨found, passed⟩, p'⟩
  rcases hsecond : q.checkUnit path with ⟨⟨found', passed'⟩, q'⟩
  rw [hfirst, hsecond] at hfound hafter
  cases hfound
  cases passed with
  | false => exact ⟨rfl, hafter⟩
  | true =>
      obtain ⟨hsigned, hlater⟩ := hafter.signUnit path
      exact ⟨by simp only [hsigned], hlater⟩

/-- What a recheck stores about its unit, it stores in both caches, and both lose the same entries. -/
theorem record (h : SameBuild O p q) (unit : UnitId) (signature : Signature) (diagnostics : List Diagnostic) :
    SameBuild O (p.record unit signature diagnostics) (q.record unit signature diagnostics) := by
  obtain ⟨⟨host, cache, rfl⟩, hview, hentries⟩ := h
  have hcommitted : ∀ version, ∀ id ∈ p.processed ++ [unit],
      (p.cache.commit (p.state.graph.pathOf unit) version diagnostics).find? (p.state.graph.pathOf id)
        = (cache.commit (p.state.graph.pathOf unit) version diagnostics).find? (p.state.graph.pathOf id) := by
    intro version id hid
    rw [Cache.find?_commit, Cache.find?_commit]
    split
    · rfl
    · rename_i hne
      refine hentries id ((List.mem_append.mp hid).resolve_right fun hlast => hne ?_)
      rw [List.mem_singleton.mp hlast]
  simp only [Program.record, propagate]
  cases p.current with
  | none => exact ⟨⟨host, _, rfl⟩, hview, fun id hid => hcommitted _ id hid⟩
  | some pass =>
      refine ⟨⟨host, _, rfl⟩, hview, fun id hid => ?_⟩
      show Cache.find? (Cache.invalidateAll _ _) _ = Cache.find? (Cache.invalidateAll _ _) _
      rw [Cache.find?_invalidateAll, Cache.find?_invalidateAll]
      exact if_congr Iff.rfl rfl (hcommitted _ id hid)

theorem process (h : SameBuild O p q) (unit : UnitId) :
    (p.process unit).1 = (q.process unit).1 ∧ SameBuild O (p.process unit).2 (q.process unit).2 := by
  have hstate : p.state = q.state := h.reads (·.state) fun _ _ _ => rfl
  obtain ⟨hfound, hafter⟩ := h.examine (p.state.graph.pathOf unit)
  simp only [Program.process, ← hstate, ← hfound]
  exact ⟨trivial, hafter.record _ _ _⟩

/-! ### Pulls -/

theorem nextUnit (h : SameBuild O p q) :
    p.nextUnit.1 = q.nextUnit.1 ∧ SameBuild O p.nextUnit.2 q.nextUnit.2 := by
  obtain ⟨⟨host, cache, rfl⟩, hview, hentries⟩ := h
  rw [nextUnit_congr (p := p) (q := { p with host, cache }) rfl rfl rfl, nextUnit_frame p]
  exact ⟨rfl, ⟨host, cache, rfl⟩, hview, hentries⟩

theorem phase (h : SameBuild O p q) (phase : Phase) : SameBuild O { p with phase } { q with phase } := by
  obtain ⟨⟨host, cache, rfl⟩, hview, hentries⟩ := h
  exact ⟨⟨host, cache, rfl⟩, hview, hentries⟩

theorem afterRecheck (h : SameBuild O p q) (unit : UnitId) :
    SameBuild O (p.afterRecheck unit) (q.afterRecheck unit) :=
  ((h.phase .iterating).process unit).2

theorem finishChecking (h : SameBuild O p q) : SameBuild O p.finishChecking q.finishChecking := by
  have hphase : p.phase = q.phase := h.reads (·.phase) fun _ _ _ => rfl
  have hemits : p.pendingEmit = q.pendingEmit := h.reads (·.pendingEmit) fun _ _ _ => rfl
  have hmoved := h.phase (if p.pendingEmit.isEmpty then Phase.done else .fullyChecked)
  cases hp : p.phase with
  | created => simpa only [Program.finishChecking, hp, ← hphase, ← hemits] using hmoved
  | iterating => simpa only [Program.finishChecking, hp, ← hphase, ← hemits] using hmoved
  | _ => simpa only [Program.finishChecking, hp, ← hphase] using h

theorem pullCheck (h : SameBuild O p q) :
    p.pullCheck.1 = q.pullCheck.1 ∧ SameBuild O p.pullCheck.2 q.pullCheck.2 := by
  obtain ⟨hunit, hnext⟩ := h.nextUnit
  have hphase : p.phase = q.phase := h.reads (·.phase) fun _ _ _ => rfl
  have hcancelled : p.cancelled = q.cancelled := h.reads (·.cancelled) fun _ _ _ => rfl
  rw [Program.pullCheck, Program.pullCheck, ← hphase, ← hcancelled]
  split
  · exact ⟨rfl, h⟩
  · split
    · exact ⟨rfl, h⟩
    · rcases hfirst : p.nextUnit with ⟨unit, p'⟩
      rcases hsecond : q.nextUnit with ⟨unit', q'⟩
      rw [hfirst, hsecond] at hunit hnext
      obtain rfl : unit = unit' := hunit
      cases unit with
      | none => exact ⟨rfl, SameBuild.finishChecking hnext⟩
      | some unit =>
          have hiterating : SameBuild O { p' with phase := .iterating } { q' with phase := .iterating } :=
            SameBuild.phase hnext .iterating
          obtain ⟨hchecked, hafter⟩ := hiterating.process unit
          exact ⟨by simp only [hchecked], hafter⟩

theorem emit (h : SameBuild O p q) (entry : PendingEmit) :
    (p.emit entry).1 = (q.emit entry).1 ∧ SameBuild O (p.emit entry).2 (q.emit entry).2 := by
  obtain ⟨⟨host, cache, rfl⟩, hview, hentries⟩ := h
  obtain ⟨hanswer, hviews⟩ := O.emit_eq hview entry.unit entry.kind
  simp only [Program.emit]
  rcases hfirst : Host.emit p.host entry.unit entry.kind with ⟨outcome, later⟩
  rcases hsecond : Host.emit host entry.unit entry.kind with ⟨outcome', later'⟩
  rw [hfirst, hsecond] at hanswer hviews
  obtain rfl : outcome = outcome' := hanswer
  cases outcome with
  | ok output => exact ⟨rfl, ⟨_, cache, rfl⟩, hviews, hentries⟩
  | error e => exact ⟨rfl, ⟨_, cache, rfl⟩, hviews, hentries⟩

/-- The rechecks before an emit are the same, and so is the emit. -/
theorem emitLoop (fuel : Nat) (h : SameBuild O p q) :
    (Program.emitLoop fuel p).1 = (Program.emitLoop fuel q).1
      ∧ SameBuild O (Program.emitLoop fuel p).2 (Program.emitLoop fuel q).2 := by
  induction fuel generalizing p q with
  | zero => exact ⟨rfl, h⟩
  | succ fuel ih =>
      obtain ⟨hunit, hnext⟩ := h.nextUnit
      obtain ⟨host, cache, rfl⟩ := h.same
      rw [Program.emitLoop, Program.emitLoop]
      dsimp only
      split
      · exact ⟨rfl, h⟩
      · split
        · exact ⟨rfl, h⟩
        · cases p.pendingEmit.next? with
          | some found =>
              obtain ⟨entry, queue⟩ := found
              have hqueue : SameBuild O { p with pendingEmit := queue, phase := .emitPending }
                  { p with host, cache, pendingEmit := queue, phase := .emitPending } :=
                ⟨⟨host, cache, rfl⟩, h.view, h.entries⟩
              obtain ⟨hemitted, hafter⟩ := hqueue.emit entry
              exact ⟨by simp only [hemitted], hafter⟩
          | none =>
              rcases hfirst : p.nextUnit with ⟨unit, p'⟩
              rcases hsecond : Program.nextUnit { p with host, cache } with ⟨unit', q'⟩
              rw [hfirst, hsecond] at hunit hnext
              obtain rfl : unit = unit' := hunit
              cases unit with
              | none => exact ⟨rfl, SameBuild.phase hnext .done⟩
              | some unit => exact ih (SameBuild.afterRecheck hnext unit)

theorem pullEmit (h : SameBuild O p q) :
    p.pullEmit.1 = q.pullEmit.1 ∧ SameBuild O p.pullEmit.2 q.pullEmit.2 := by
  have hsize : p.state.size = q.state.size := h.reads (·.state.size) fun _ _ _ => rfl
  rw [Program.pullEmit, Program.pullEmit, ← hsize]
  exact h.emitLoop _

/-! ### Rounds -/

/-- A round starts without processed units. -/
theorem update (h : SameBuild O p q) (s : Snapshot) : SameBuild O (p.update s) (q.update s) := by
  obtain ⟨⟨host, cache, rfl⟩, hview, _⟩ := h
  exact ⟨⟨host, _, rfl⟩, hview, nofun⟩

theorem reportChanged (h : SameBuild O p q) (paths : List String) :
    (p.reportChanged paths).1 = (q.reportChanged paths).1
      ∧ SameBuild O (p.reportChanged paths).2 (q.reportChanged paths).2 := by
  obtain ⟨⟨host, cache, rfl⟩, hview, hentries⟩ := h
  obtain ⟨hanswer, hviews⟩ := O.snapshot_eq hview (paths.map UnitPath.normalize)
  simp only [Program.reportChanged]
  rcases hfirst : Host.snapshot p.host (paths.map UnitPath.normalize) with ⟨outcome, later⟩
  rcases hsecond : Host.snapshot host (paths.map UnitPath.normalize) with ⟨outcome', later'⟩
  rw [hfirst, hsecond] at hanswer hviews
  obtain rfl : outcome = outcome' := hanswer
  have hlater : SameBuild O { p with host := later } { p with host := later', cache } :=
    ⟨⟨later', cache, rfl⟩, hviews, hentries⟩
  cases outcome with
  | ok s => exact ⟨rfl, hlater.update s⟩
  | error e => exact ⟨rfl, hlater⟩

theorem forceRebuild (h : SameBuild O p q) : SameBuild O p.forceRebuild q.forceRebuild := by
  have hsnapshot : p.snapshot = q.snapshot := h.reads (·.snapshot) fun _ _ _ => rfl
  have hforced : SameBuild O { p with forceAll := true } { q with forceAll := true } := by
    obtain ⟨⟨host, cache, rfl⟩, hview, hentries⟩ := h
    exact ⟨⟨host, cache, rfl⟩, hview, hentries⟩
  rw [Program.forceRebuild, Program.forceRebuild, ← hsnapshot]
  exact hforced.update _

theorem optionsHash_eq (h : SameBuild O p q) : p.optionsHash = q.optionsHash := by
  obtain ⟨⟨host, cache, rfl⟩, hview, _⟩ := h
  rw [optionsHash, optionsHash, O.policy_eq hview]

theorem setOptions (h : SameBuild O p q) (options : Options) :
    SameBuild O (p.setOptions options) (q.setOptions options) := by
  have hswitched : SameBuild O { p with options } { q with options } := by
    obtain ⟨⟨host, cache, rfl⟩, hview, hentries⟩ := h
    exact ⟨⟨host, cache, rfl⟩, hview, hentries⟩
  simp only [Program.setOptions, h.optionsHash_eq, hswitched.optionsHash_eq]
  split
  · exact hswitched
  · exact hswitched.forceRebuild

/-- **The same request of the same build.**  Whatever is asked of two programs of the same build, other than
diagnostics, has the same result and leads to programs of the same build. -/
theorem run (h : SameBuild O p q) {request : Request η} (hbuild : request.isInquiry = false)
    (hfair : ∀ change, request = .edit change → O.Fair change) :
    request.outcome? p = request.outcome? q ∧ SameBuild O (request.run p) (request.run q) := by
  cases request with
  | update s => exact ⟨rfl, h.update s⟩
  | report paths =>
      obtain ⟨hresult, hafter⟩ := h.reportChanged paths
      exact ⟨by simp only [Request.outcome?, hresult], hafter⟩
  | setOptions options => exact ⟨rfl, h.setOptions options⟩
  | rebuild => exact ⟨rfl, h.forceRebuild⟩
  | check =>
      obtain ⟨hresult, hafter⟩ := h.pullCheck
      exact ⟨by simp only [Request.outcome?, hresult], hafter⟩
  | emit =>
      obtain ⟨hresult, hafter⟩ := h.pullEmit
      exact ⟨by simp only [Request.outcome?, hresult], hafter⟩
  | demand unit => cases hbuild
  | demandAll => cases hbuild
  | edit change =>
      obtain ⟨⟨host, cache, rfl⟩, hview, hentries⟩ := h
      exact ⟨rfl, ⟨change host, cache, rfl⟩, hfair change rfl hview, hentries⟩
  | token cancelled =>
      obtain ⟨⟨host, cache, rfl⟩, hview, hentries⟩ := h
      exact ⟨rfl, ⟨host, cache, rfl⟩, hview, hentries⟩

theorem token (h : SameBuild O p q) (cancelled : Bool) :
    SameBuild O { p with cancelled } { q with cancelled } := by
  obtain ⟨⟨host, cache, rfl⟩, hview, hentries⟩ := h
  exact ⟨⟨host, cache, rfl⟩, hview, hentries⟩

end SameBuild

/-! ### The token -/

/-- Two programs of the same build, apart from the token. -/
def SameWork (O : Outlook η) (p q : Program η) : Prop :=
  ∃ cancelled, SameBuild O { p with cancelled } q

namespace SameWork

theorem refl (p : Program η) : SameWork O p p :=
  ⟨p.cancelled, .refl p⟩

theorem trans (h : SameWork O p q) (h' : SameWork O q r) : SameWork O p r := by
  obtain ⟨_, hfirst⟩ := h
  obtain ⟨cancelled, hsecond⟩ := h'
  exact ⟨cancelled, (hfirst.token cancelled).trans hsecond⟩

theorem standing (h : SameWork O p q) : p.standing = q.standing := by
  obtain ⟨cancelled, hsame⟩ := h
  exact hsame.standing

theorem phase_eq (h : SameWork O p q) : p.phase = q.phase := by
  obtain ⟨cancelled, hsame⟩ := h
  exact hsame.reads (·.phase) fun _ _ _ => rfl

/-- Programs whose tokens stand alike are of the same build. -/
theorem sameBuild (h : SameWork O p q) (htoken : q.cancelled = p.cancelled) : SameBuild O p q := by
  obtain ⟨cancelled, hsame⟩ := h
  have hcancelled : cancelled = q.cancelled := hsame.reads (·.cancelled) fun _ _ _ => rfl
  rw [hcancelled, htoken] at hsame
  exact hsame

theorem reportChanged (h : SameWork O p q) (paths : List String) :
    (p.reportChanged paths).1 = (q.reportChanged paths).1
      ∧ SameWork O (p.reportChanged paths).2 (q.reportChanged paths).2 := by
  obtain ⟨cancelled, hsame⟩ := h
  obtain ⟨hresult, hafter⟩ := hsame.reportChanged paths
  have hunseen : Program.reportChanged { p with cancelled } paths
      = ((p.reportChanged paths).1, { (p.reportChanged paths).2 with cancelled }) := by
    simp only [Program.reportChanged]
    rcases Host.snapshot p.host (paths.map UnitPath.normalize) with ⟨outcome, host⟩
    cases outcome with
    | ok s => rfl
    | error e => rfl
  rw [hunseen] at hresult hafter
  exact ⟨hresult, cancelled, hafter⟩

theorem optionsHash_eq (h : SameWork O p q) : p.optionsHash = q.optionsHash := by
  obtain ⟨cancelled, hsame⟩ := h
  exact hsame.optionsHash_eq

theorem forceRebuild (h : SameWork O p q) : SameWork O p.forceRebuild q.forceRebuild := by
  obtain ⟨cancelled, hsame⟩ := h
  exact ⟨cancelled, hsame.forceRebuild⟩

theorem setOptions (h : SameWork O p q) (options : Options) :
    SameWork O (p.setOptions options) (q.setOptions options) := by
  have hswitched : SameWork O { p with options } { q with options } := by
    obtain ⟨cancelled, ⟨host, cache, rfl⟩, hview, hentries⟩ := h
    exact ⟨cancelled, ⟨host, cache, rfl⟩, hview, hentries⟩
  simp only [Program.setOptions, h.optionsHash_eq, hswitched.optionsHash_eq]
  split
  · exact hswitched
  · exact hswitched.forceRebuild

/-- Once the round is done, a pull does nothing, whatever the token says. -/
theorem run_of_done (h : SameWork O p q) {request : Request η} (hpull : request.isPull = true)
    (hdone : q.phase = .done) :
    request.outcome? p = request.outcome? q ∧ SameWork O (request.run p) (request.run q) := by
  have hdone' : p.phase = .done := h.phase_eq.trans hdone
  cases request with
  | check =>
      rw [Request.outcome?, Request.outcome?, Request.run, Request.run, pullCheck_of_done hdone',
        pullCheck_of_done hdone]
      exact ⟨rfl, h⟩
  | emit =>
      rw [Request.outcome?, Request.outcome?, Request.run, Request.run, pullEmit_of_done hdone',
        pullEmit_of_done hdone]
      exact ⟨rfl, h⟩
  | _ => cases hpull

/-- **The same request of the same work.**  The token matters to pulls only, before the round is done. -/
theorem run (h : SameWork O p q) {request : Request η} (hbuild : request.isInquiry = false)
    (htoken : request.isPull = true → q.phase = .done ∨ q.cancelled = p.cancelled)
    (hfair : ∀ change, request = .edit change → O.Fair change) :
    request.outcome? p = request.outcome? q ∧ SameWork O (request.run p) (request.run q) := by
  cases hpull : request.isPull with
  | true =>
      rcases htoken hpull with hdone | hsame
      · exact h.run_of_done hpull hdone
      · obtain ⟨hresult, hafter⟩ := (h.sameBuild hsame).run hbuild hfair
        exact ⟨hresult, _, hafter⟩
  | false =>
      cases request with
      | report paths =>
          obtain ⟨hresult, hafter⟩ := h.reportChanged paths
          exact ⟨by simp only [Request.outcome?, hresult], hafter⟩
      | setOptions options => exact ⟨rfl, h.setOptions options⟩
      | token cancelled =>
          obtain ⟨_, hsame⟩ := h
          exact ⟨rfl, cancelled, hsame.token cancelled⟩
      | update s =>
          obtain ⟨cancelled, hsame⟩ := h
          exact ⟨rfl, cancelled, hsame.update s⟩
      | rebuild => exact ⟨rfl, h.forceRebuild⟩
      | edit change =>
          obtain ⟨cancelled, hsame⟩ := h
          exact ⟨rfl, cancelled, (hsame.run hbuild hfair).2⟩
      | check => cases hpull
      | emit => cases hpull
      | demand unit => cases hbuild
      | demandAll => cases hbuild

end SameWork

/-! ### Inquiries -/

/-- The units that were processed in this round are units of the program and have cached diagnostics. -/
def Filed (p : Program η) : Prop :=
  ∀ id ∈ p.processed, id < p.state.graph.size ∧ (p.cache.find? (p.state.graph.pathOf id)).isSome = true

theorem Filed.recheck {unit : UnitId} (htidy : p.Tidy) (hfiled : p.Filed) (h : p.Rechecks unit q) :
    q.Filed := by
  intro id hid
  have hdone : ¬ q.Owed id := fun howed => howed.2 hid
  rw [h.graph]
  rw [h.processed] at hid
  rcases List.mem_append.mp hid with hbefore | hlast
  · obtain ⟨hsize, hcached⟩ := hfiled id hbefore
    have hne : id ≠ unit := fun hsame => h.fresh (hsame ▸ hbefore)
    exact ⟨hsize, by rw [h.kept id hsize hne hdone, hcached]⟩
  · obtain rfl := List.mem_singleton.mp hlast
    have hsize := htidy.bounded id h.awaited
    obtain ⟨record, hrecord⟩ : ∃ record, p.state.record? id = some record :=
      ⟨_, List.getElem?_eq_getElem (by rw [htidy.wellFormed.length]; exact hsize)⟩
    exact ⟨hsize, by rw [h.cached record hrecord]; rfl⟩

omit [Host η] in
theorem Filed.rests (hfiled : p.Filed) (h : p.Rests q) : q.Filed := by
  intro id hid
  rw [h.processed] at hid
  obtain ⟨hsize, hcached⟩ := hfiled id hid
  obtain ⟨entry, hentry⟩ := Option.isSome_iff_exists.mp hcached
  rw [h.state]
  exact ⟨hsize, by rw [h.cached _ _ hentry]; rfl⟩

/-- Elementary steps keep the processed units cached. -/
theorem Filed.steps {allowed : (η → η) → Prop} {log : List Recheck} (htidy : p.Tidy) (hfiled : p.Filed)
    (h : Steps allowed p log q) : q.Filed := by
  have hstep : ∀ {q r : Program η} {more : List Recheck}, q.Tidy ∧ q.Filed → Step allowed q more r →
      r.Tidy ∧ r.Filed := by
    intro q r more ⟨hq, hfiled⟩ hstep
    refine ⟨hstep.tidy hq, ?_⟩
    rcases Step.cases hq hstep with ⟨unit, _, hrechecks⟩ | ⟨_, hrests⟩
    · exact hfiled.recheck hq hrechecks
    · exact hfiled.rests hrests
  exact (h.keeps hstep ⟨htidy, hfiled⟩).2

end Program

open Program

section Histories

variable [Host η] {O : Outlook η} {p q : Program η} {log : List HistoryEvent}

theorem Action.filed {outside : Prop} {events : List HistoryEvent} (htidy : p.Tidy) (hfiled : p.Filed)
    (h : Action outside p events q) : q.Filed := by
  rcases h.step_or_round with ⟨log, hsteps⟩ | ⟨host, options, forceAll, s, _, rfl⟩
  · exact hfiled.steps htidy hsteps
  · exact nofun

/-- In every program with a history, the units that were processed are cached. -/
theorem History.filed (h : History p log) : p.Filed := by
  induction h with
  | start hstart =>
      obtain ⟨host', s, _, rfl⟩ := start_eq_ok_iff.mp hstart
      exact nofun
  | @request p log h r ih =>
      have hpair := Actions.induct (motive := fun p _ => p.Tidy ∧ p.Filed)
        (fun hp haction => ⟨haction.tidy hp.1, haction.filed hp.1 hp.2⟩) log
        ⟨h.orderly.tidy, ih⟩ (r.actions p)
      exact hpair.2
  | restart h hstart _ =>
      obtain ⟨host', s, _, rfl⟩ := start_eq_ok_iff.mp hstart
      exact nofun

namespace Program

theorem checkUnit_eq (p : Program η) (path : UnitPath) :
    (p.checkUnit path).2 = { p with
      host := (Host.check p.host path).2
      cancelled := p.cancelled || (Host.check p.host path).1.cancels } := by
  rw [checkUnit]
  rcases Host.check p.host path with ⟨⟨outcome, cancels⟩, host⟩
  cases outcome with
  | ok diagnostics => rfl
  | error e => rfl

/-- To ask for all diagnostics is to ask for those of several units, one after another. -/
theorem diagnosticsOfAll_induct {R : Program η → Program η → Prop} (hrefl : ∀ p, R p p)
    (htrans : ∀ {p q r}, R p q → R q r → R p r) (hdemand : ∀ p unit, R p (p.diagnosticsOf unit).2)
    (paths : List UnitPath) (p : Program η) : R p (diagnosticsOfAll paths p).2 := by
  induction paths generalizing p with
  | nil => exact hrefl p
  | cons path paths ih =>
      have hfirst := hdemand p path
      rw [diagnosticsOfAll]
      rcases hsecond : p.diagnosticsOf path with ⟨result, q⟩
      rw [hsecond] at hfirst
      cases result with
      | error e => exact hfirst
      | ok found =>
          have hrest := htrans hfirst (ih q)
          rcases hall : diagnosticsOfAll paths q with ⟨results, r⟩
          rw [hall] at hrest
          simp only [hall]
          cases results with
          | error e => exact hrest
          | ok rest => exact hrest

/-- The diagnostics of a unit are stored only where there are none, so of no unit that was processed. -/
theorem sameWork_demand (hfiled : p.Filed) (unit : String) : SameWork O p (p.diagnosticsOf unit).2 := by
  rw [diagnosticsOf]
  cases hcached : p.cache.get? (UnitPath.normalize unit) with
  | some diagnostics => exact .refl p
  | none =>
      cases hinfo : p.state.infoOf? (UnitPath.normalize unit) with
      | none => exact .refl p
      | some info =>
          simp only [checkUnit_eq]
          refine ⟨p.cancelled || (Host.check p.host (UnitPath.normalize unit)).1.cancels, ⟨_, _, rfl⟩,
            (O.view_check p.host _).symm, fun id hid => ?_⟩
          obtain ⟨_, hfound⟩ := hfiled id hid
          rw [Cache.find?_commit, if_neg]
          intro hsame
          rw [Cache.get?, hsame, Option.map_eq_none_iff] at hcached
          rw [hcached] at hfound
          cases hfound

theorem sameWork_demandAll (paths : List UnitPath) (htidy : p.Tidy) (hfiled : p.Filed) :
    SameWork O p (diagnosticsOfAll paths p).2 := by
  have hall : p.Tidy ∧ p.Filed → ((diagnosticsOfAll paths p).2.Tidy ∧ (diagnosticsOfAll paths p).2.Filed)
      ∧ SameWork O p (diagnosticsOfAll paths p).2 := by
    refine diagnosticsOfAll_induct
      (R := fun p q => p.Tidy ∧ p.Filed → (q.Tidy ∧ q.Filed) ∧ SameWork O p q)
      (fun p hp => ⟨hp, .refl p⟩) ?_ ?_ paths p
    · intro p q r hfirst hsecond hp
      obtain ⟨hq, hpq⟩ := hfirst hp
      obtain ⟨hr, hqr⟩ := hsecond hq
      exact ⟨hr, hpq.trans hqr⟩
    · intro p unit hp
      have haction : Action True p [.demanded] (p.diagnosticsOf unit).2 := Action.demand unit
      exact ⟨⟨haction.tidy hp.1, haction.filed hp.1 hp.2⟩, sameWork_demand hp.2 unit⟩
  exact (hall ⟨htidy, hfiled⟩).2

/-- **An inquiry stays within the build.**  Diagnostics that are asked for change nothing but the host, the
cache and the token, and not the entries of the units that were processed. -/
theorem sameWork_inquiry (htidy : p.Tidy) (hfiled : p.Filed) {request : Request η}
    (hinquiry : request.isInquiry = true) : SameWork O p (request.run p) := by
  cases request with
  | demand unit => exact sameWork_demand hfiled unit
  | demandAll => exact sameWork_demandAll _ htidy hfiled
  | _ => cases hinquiry

end Program

/-! ### Runs with inquiries -/

namespace Request

/-- Whenever something is pulled before the round is done, the token stands as it does in the run without the
inquiries.  Only a host that cancels the build while it checks a unit can bring it about that it does not: an
inquiry makes such a check too. -/
def Unalarmed : List (Request η) → Program η → Program η → Prop
  | [], _, _ => True
  | request :: requests, p, q =>
      if request.isInquiry then Unalarmed requests (request.run p) q
      else (request.isPull = true → p.phase = .done ∨ p.cancelled = q.cancelled)
        ∧ Unalarmed requests (request.run p) (request.run q)

instance decidableUnalarmed :
    (run : List (Request η)) → (p q : Program η) → Decidable (Unalarmed run p q)
  | [], _, _ => .isTrue trivial
  | request :: requests, p, q =>
      have := decidableUnalarmed requests (request.run p) q
      have := decidableUnalarmed requests (request.run p) (request.run q)
      inferInstanceAs (Decidable (if request.isInquiry then Unalarmed requests (request.run p) q
        else (request.isPull = true → p.phase = .done ∨ p.cancelled = q.cancelled)
          ∧ Unalarmed requests (request.run p) (request.run q)))

end Request

/-- Two runs of the same build, one of them with inquiries. -/
theorem Program.SameWork.account {run : List (Request η)} (hsame : SameWork O p q) (h : History q log)
    (hfair : ∀ change, .edit change ∈ run → O.Fair change) (htoken : Request.Unalarmed run q p) :
    Request.account (run.filter fun request => !request.isInquiry) p = Request.account run q
      ∧ SameWork O (Request.play (run.filter fun request => !request.isInquiry) p).2 (Request.play run q).2 := by
  induction run generalizing p q log with
  | nil => exact ⟨rfl, hsame⟩
  | cons request run ih =>
      have hfair' : ∀ change, .edit change ∈ run → O.Fair change :=
        fun change hchange => hfair change (List.mem_cons_of_mem _ hchange)
      rw [Request.Unalarmed] at htoken
      cases hkind : request.isInquiry with
      | true =>
          rw [if_pos hkind] at htoken
          have hafter := hsame.trans (sameWork_inquiry h.orderly.tidy h.filed hkind)
          have hrest := ih hafter (h.request request) hfair' htoken
          rw [List.filter_cons_of_neg (by simp [hkind]), Request.account, if_pos hkind]
          exact hrest
      | false =>
          rw [if_neg (by simp [hkind])] at htoken
          obtain ⟨hresult, hafter⟩ := hsame.run hkind htoken.1 fun change hchange =>
            hfair change (hchange ▸ List.mem_cons_self)
          have hrest := ih hafter (h.request request) hfair' htoken.2
          rw [List.filter_cons_of_pos (by simp [hkind]), Request.account, Request.account,
            if_neg (by simp [hkind]), if_neg (by simp [hkind]), hresult, hafter.standing, hrest.1]
          exact ⟨rfl, hrest.2⟩

end Histories

/-! ### A host that cancels the build -/

namespace Alarmed

/-- The same program, with a record of what the host is asked. -/
def recorded : Program (Recorded Alarmed) :=
  (Program.blank ⟨⟨⟨"int", "int"⟩, ["left"]⟩, [.snapshot []]⟩ {}).update (Pair.snapshot ⟨"int", "int"⟩)

/-- The text of the right unit changes. -/
def change (r : Recorded Alarmed) : Recorded Alarmed :=
  { r with host := ⟨⟨"int", "str"⟩, r.host.alarms⟩ }

/-- Diagnostics are asked for before a unit is checked, between two checks, while a unit waits that another
one leads to, and after an emit.  Whenever the left unit is checked, also by an inquiry, the build is
cancelled; it is resumed before the next pull. -/
def run : List (Request (Recorded Alarmed)) :=
  [.demand "left", .token false, .check, .token false, .demandAll, .check, .emit, .emit, .edit change,
    .report ["right"], .demandAll, .check, .demand "left", .token false, .check, .token false, .emit,
    .demandAll]

end Alarmed

end Rebuild
