import Rebuild.Proofs.Termination

/-!
# Hosts that mirror each other

A host may be carried into one with another state that answers every request alike.  What a program does
is then the same over both, also when the second host says less about cancellation.

* `Mirrors`: what is asked of the two hosts, and `Program.image`: the program over the second one;
* `Mirrors.afterRecheck`, `Mirrors.emit`: rechecks and emits are carried along;
* `Mirrors.pullCheck_of_ok`, `Program.PullsEmit.image_of_ok`: so is every pull that is not refused;
* `Program.PullsEmit.image_of_error`: a pulled emit that is refused and pulled again is a single pull when
  the second program is not cancelled;
* `Program.PullsEmit.unique`, `Program.Tidy.pullEmit_eq`: a pulled emit ends in one way only.
-/

namespace Rebuild

variable {η θ : Type}

/-- The host `f host` answers as `host` does and is then carried along.  What the program knows about
cancellation is read through `g`. -/
structure Mirrors [Host η] [Host θ] (f : η → θ) (g : Bool → Bool) : Prop where
  going : g false = false
  outcome : ∀ host unit,
    (Host.check (f host) unit).1.outcome = (Host.check host unit).1.outcome
  cancels : ∀ host unit cancelled,
    g (cancelled || (Host.check host unit).1.cancels)
      = (g cancelled || (Host.check (f host) unit).1.cancels)
  checked : ∀ host unit, (Host.check (f host) unit).2 = f (Host.check host unit).2
  interface : ∀ host unit,
    Host.interface (f host) unit = ((Host.interface host unit).1, f (Host.interface host unit).2)
  emit : ∀ host unit kind,
    Host.emit (f host) unit kind = ((Host.emit host unit kind).1, f (Host.emit host unit kind).2)
  counts : ∀ host, Host.counts (f host) = Host.counts host

namespace Program

variable {p q : Program η}

/-- The program over the host that mirrors its own. -/
def image (f : η → θ) (g : Bool → Bool) (p : Program η) : Program θ :=
  { p with host := f p.host, cancelled := g p.cancelled }

/-- Between two calls, the host does not matter. -/
theorem Tidy.image (htidy : p.Tidy) (f : η → θ) (g : Bool → Bool) : (p.image f g).Tidy :=
  ⟨htidy.wellFormed, htidy.landed, htidy.accounts, htidy.bounded, htidy.finished⟩

theorem Searches.image (f : η → θ) (g : Bool → Bool) {turns : Nat}
    {found : Option UnitId × Program η} (h : p.Searches turns found) :
    (p.image f g).Searches turns (found.1, found.2.image f g) := by
  induction h with
  | handed current next => exact .handed current next
  | spent current next _ ih => exact .spent current next ih
  | stale current first done _ ih => exact .stale current first done ih
  | started current first fresh _ ih => exact .started current first fresh ih
  | exhausted current empty => exact .exhausted current empty

/-- Which unit comes next is decided by the pass, the roots and the processed units. -/
theorem nextUnit_congr {q : Program θ} (hcurrent : q.current = p.current) (hroots : q.roots = p.roots)
    (hprocessed : q.processed = p.processed) :
    q.nextUnit
      = (p.nextUnit.1, { q with current := p.nextUnit.2.current, roots := p.nextUnit.2.roots }) := by
  have hroot : q.nextRoot
      = (p.nextRoot.1, { q with current := p.nextRoot.2.current, roots := p.nextRoot.2.roots }) := by
    rw [nextRoot, nextRoot, hroots, hprocessed]
    split
    · rfl
    · rfl
  rw [nextUnit, nextUnit, hcurrent]
  cases hpass : p.current with
  | none => exact hroot
  | some pass =>
      rcases hnext : pass.next? p.processed with ⟨unit, later⟩
      have hsame : pass.next? q.processed = (unit, later) := by rw [hprocessed, hnext]
      cases unit with
      | none =>
          simp only [hsame, hnext]
          exact hroot
      | some unit => simp only [hsame, hnext, ← hroots]

/-- A search for the next unit changes nothing but the pass and the roots. -/
theorem nextUnit_frame (p : Program η) :
    p.nextUnit.2 = { p with current := p.nextUnit.2.current, roots := p.nextUnit.2.roots } :=
  congrArg Prod.snd (nextUnit_congr (p := p) rfl rfl rfl)

/-- The next unit is chosen without the host. -/
theorem image_nextUnit (f : η → θ) (g : Bool → Bool) (p : Program η) :
    (p.image f g).nextUnit = (p.nextUnit.1, p.nextUnit.2.image f g) := by
  refine (nextUnit_congr (p := p) (q := p.image f g) rfl rfl rfl).trans (congrArg (Prod.mk p.nextUnit.1) ?_)
  conv_rhs => rw [nextUnit_frame p]
  rfl

theorem image_record (f : η → θ) (g : Bool → Bool) (p : Program η) (unit : UnitId)
    (signature : Signature) (diagnostics : List Diagnostic) :
    (p.image f g).record unit signature diagnostics
      = (p.record unit signature diagnostics).image f g := by
  simp only [record, propagate, image]
  cases p.current with
  | none => rfl
  | some pass => rfl

theorem image_finishChecking (f : η → θ) (g : Bool → Bool) (p : Program η) :
    (p.image f g).finishChecking = p.finishChecking.image f g := by
  cases hphase : p.phase with
  | created => simp only [finishChecking, image, hphase]
  | iterating => simp only [finishChecking, image, hphase]
  | fullyChecked => simp only [finishChecking, image, hphase]
  | emitPending => simp only [finishChecking, image, hphase]
  | done => simp only [finishChecking, image, hphase]

end Program

open Program

/-! ### Requests to the host -/

namespace Mirrors

variable [Host η] [Host θ] {f : η → θ} {g : Bool → Bool}

theorem checkUnit (h : Mirrors f g) (p : Program η) (path : UnitPath) :
    (p.image f g).checkUnit path = ((p.checkUnit path).1, (p.checkUnit path).2.image f g) := by
  have houtcome := h.outcome p.host path
  have hcancels := h.cancels p.host path p.cancelled
  have hchecked := h.checked p.host path
  rcases hfirst : Host.check p.host path with ⟨⟨outcome, cancels⟩, host⟩
  rcases hsecond : Host.check (f p.host) path with ⟨⟨outcome', cancels'⟩, host'⟩
  rw [hfirst, hsecond] at houtcome hcancels hchecked
  obtain rfl : outcome' = outcome := houtcome
  obtain rfl : host' = f host := hchecked
  have hcancelled : g (p.cancelled || cancels) = (g p.cancelled || cancels') := hcancels
  cases outcome' with
  | ok diagnostics => simp only [Program.checkUnit, image, hfirst, hsecond, hcancelled]
  | error e => simp only [Program.checkUnit, image, hfirst, hsecond, hcancelled]

theorem signUnit (h : Mirrors f g) (p : Program η) (path : UnitPath) :
    (p.image f g).signUnit path = ((p.signUnit path).1, (p.signUnit path).2.image f g) := by
  have hsecond := h.interface p.host path
  rcases hfirst : Host.interface p.host path with ⟨outcome, host⟩
  rw [hfirst] at hsecond
  cases outcome with
  | ok interface => simp only [Program.signUnit, image, hfirst, hsecond, h.counts]
  | error e => simp only [Program.signUnit, image, hfirst, hsecond]

theorem examine (h : Mirrors f g) (p : Program η) (path : UnitPath) :
    (p.image f g).examine path = ((p.examine path).1, (p.examine path).2.image f g) := by
  rw [Program.examine, Program.examine, h.checkUnit]
  rcases p.checkUnit path with ⟨⟨found, passed⟩, q⟩
  cases passed with
  | false => rfl
  | true =>
      simp only [h.signUnit]

theorem process (h : Mirrors f g) (p : Program η) (unit : UnitId) :
    (p.image f g).process unit = ((p.process unit).1, (p.process unit).2.image f g) := by
  have hexamine := h.examine p (p.state.graph.pathOf unit)
  have hstate : (p.image f g).state = p.state := rfl
  simp only [Program.process, hstate, hexamine, image_record]

theorem afterRecheck (h : Mirrors f g) (p : Program η) (unit : UnitId) :
    (p.image f g).afterRecheck unit = (p.afterRecheck unit).image f g :=
  congrArg Prod.snd (h.process { p with phase := .iterating } unit)

theorem recheckOf (h : Mirrors f g) (p : Program η) (unit : UnitId) :
    (p.image f g).recheckOf unit = p.recheckOf unit := by
  have hexamine := h.examine p (p.state.graph.pathOf unit)
  have hfound : (p.image f g).found unit = p.found unit := congrArg Prod.fst hexamine
  rw [Program.recheckOf, Program.recheckOf, hfound]
  rfl

theorem emitOf (h : Mirrors f g) (p : Program η) (entry : PendingEmit) :
    (p.image f g).emit entry = ((p.emit entry).1, (p.emit entry).2.image f g) := by
  have hsecond := h.emit p.host entry.unit entry.kind
  rcases hfirst : Host.emit p.host entry.unit entry.kind with ⟨outcome, host⟩
  rw [hfirst] at hsecond
  cases outcome with
  | ok output => simp only [Program.emit, image, hfirst, hsecond]
  | error e => simp only [Program.emit, image, hfirst, hsecond]

/-! ### Pulls -/

/-- A pulled check that is not refused is carried along. -/
theorem pullCheck_of_ok (h : Mirrors f g) {p q : Program η} {result : Option Checked}
    (hpull : p.pullCheck = (.ok result, q)) :
    (p.image f g).pullCheck = (.ok result, q.image f g) := by
  rw [Program.pullCheck] at hpull ⊢
  by_cases hdone : p.phase = .done
  · rw [if_pos hdone] at hpull
    rw [if_pos (by exact hdone)]
    cases hpull
    rfl
  · rw [if_neg hdone] at hpull
    rw [if_neg (by exact hdone)]
    by_cases hcancelled : p.cancelled = true
    · rw [if_pos hcancelled] at hpull
      cases hpull
    · rw [if_neg hcancelled] at hpull
      have hgoing : (p.image f g).cancelled = false := by
        show g p.cancelled = false
        rw [eq_false_of_ne_true hcancelled, h.going]
      rw [if_neg (by rw [hgoing]; exact Bool.false_ne_true), image_nextUnit]
      rcases hnext : p.nextUnit with ⟨next, r⟩
      rw [hnext] at hpull
      cases next with
      | none =>
          cases hpull
          simp only [image_finishChecking]
      | some unit =>
          cases hpull
          exact congrArg (Prod.map (fun checked => Except.ok (some checked)) id)
            (h.process { r with phase := .iterating } unit)

end Mirrors

namespace Program

variable [Host η]

/-- A check is refused by a program that is cancelled and not done, and by no other.  It is left as it
was. -/
theorem pullCheck_of_error {p q : Program η} {e : Error} (h : p.pullCheck = (.error e, q)) :
    e = .cancelled ∧ q = p ∧ p.phase ≠ .done ∧ p.cancelled = true := by
  have hpull := pullsCheck p
  rw [h] at hpull
  cases hpull with
  | refused going cancelled => exact ⟨rfl, rfl, going, cancelled⟩

theorem pullCheck_of_cancelled {p : Program η} (hgoing : p.phase ≠ .done)
    (hcancelled : p.cancelled = true) : p.pullCheck = (.error .cancelled, p) := by
  rw [pullCheck, if_neg hgoing, if_pos hcancelled]

namespace PullsEmit

variable {log log' rest : List Recheck} {result result' : Except Error (Option Emitted)}
variable {p q r : Program η}

/-- A pulled emit ends in one way only. -/
theorem unique (h : p.PullsEmit log result q) (h' : p.PullsEmit log' result' r) :
    log = log' ∧ result = result' ∧ q = r := by
  induction h generalizing log' with
  | done finished =>
      cases h' with
      | done => exact ⟨rfl, rfl, rfl⟩
      | refused going => exact absurd finished going
      | emitted going => exact absurd finished going
      | exhausted going => exact absurd finished going
      | rechecked going => exact absurd finished going
  | refused going cancelled =>
      cases h' with
      | done finished => exact absurd finished going
      | refused => exact ⟨rfl, rfl, rfl⟩
      | emitted _ allowed => cases allowed.symm.trans cancelled
      | exhausted _ allowed => cases allowed.symm.trans cancelled
      | rechecked _ allowed => cases allowed.symm.trans cancelled
  | emitted going allowed next =>
      cases h' with
      | done finished => exact absurd finished going
      | refused _ cancelled => cases allowed.symm.trans cancelled
      | emitted _ _ next' =>
          cases next.symm.trans next'
          exact ⟨rfl, rfl, rfl⟩
      | exhausted _ _ quiet => cases quiet.symm.trans next
      | rechecked _ _ quiet => cases quiet.symm.trans next
  | exhausted going allowed quiet next =>
      cases h' with
      | done finished => exact absurd finished going
      | refused _ cancelled => cases allowed.symm.trans cancelled
      | emitted _ _ next' => cases quiet.symm.trans next'
      | exhausted _ _ _ next' =>
          cases next.eq_nextUnit.trans next'.eq_nextUnit.symm
          exact ⟨rfl, rfl, rfl⟩
      | rechecked _ _ _ next' => cases next.eq_nextUnit.trans next'.eq_nextUnit.symm
  | rechecked going allowed quiet next _ ih =>
      cases h' with
      | done finished => exact absurd finished going
      | refused _ cancelled => cases allowed.symm.trans cancelled
      | emitted _ _ next' => cases quiet.symm.trans next'
      | exhausted _ _ _ next' => cases next.eq_nextUnit.trans next'.eq_nextUnit.symm
      | rechecked _ _ _ next' rest' =>
          cases next.eq_nextUnit.trans next'.eq_nextUnit.symm
          obtain ⟨hlog, hresult, hlast⟩ := ih rest'
          exact ⟨by rw [hlog], hresult, hlast⟩

end PullsEmit

/-- The pull of an emit is how its loop ends. -/
theorem Tidy.pullEmit_eq {p q : Program η} {log : List Recheck}
    {result : Except Error (Option Emitted)} (htidy : p.Tidy) (h : p.PullsEmit log result q) :
    p.pullEmit = (result, q) := by
  obtain ⟨_, hresult, hlast⟩ := htidy.pullsEmit.unique h
  rw [← hresult, ← hlast]

variable [Host θ] {f : η → θ} {g : Bool → Bool}

namespace PullsEmit

variable {log rest : List Recheck} {p q : Program η}

/-- A pulled emit that is not refused is carried along. -/
theorem image_of_ok (h : Mirrors f g) {emitted : Option Emitted}
    (hpull : p.PullsEmit log (.ok emitted) q) :
    (p.image f g).PullsEmit log (.ok emitted) (q.image f g) := by
  have hgoing : ∀ p : Program η, p.cancelled = false → (p.image f g).cancelled = false := by
    intro p hallowed
    show g p.cancelled = false
    rw [hallowed, h.going]
  generalize hresult : (.ok emitted : Except Error (Option Emitted)) = result at hpull ⊢
  induction hpull with
  | done finished => exact .done finished
  | refused => cases hresult
  | @emitted p entry queue going allowed next =>
      have hemit := h.emitOf { p with pendingEmit := queue, phase := .emitPending } entry
      have hpull := PullsEmit.emitted (p := p.image f g) going (hgoing p allowed) next
      rw [show ({ p.image f g with pendingEmit := queue, phase := .emitPending } : Program θ).emit entry
        = _ from hemit] at hpull
      exact hpull
  | @exhausted p q turns going allowed quiet next =>
      exact PullsEmit.exhausted (p := p.image f g) going (hgoing p allowed) quiet (next.image f g)
  | rechecked going allowed quiet next _ ih =>
      rw [← h.recheckOf]
      refine .rechecked going (hgoing _ allowed) quiet (next.image f g) ?_
      rw [h.afterRecheck]
      exact ih hresult

/-- The rechecks before an emit is refused are not lost: the second program, which goes on, makes them
and then pulls as the first one would when it is asked again. -/
theorem image_of_error (h : Mirrors f g) {e : Error} {result : Except Error (Option Emitted)}
    {r : Program θ} (hpull : p.PullsEmit log (.error e) q)
    (hagain : (q.image f g).PullsEmit rest result r) :
    (p.image f g).PullsEmit (log ++ rest) result r := by
  have hgoing : ∀ p : Program η, p.cancelled = false → (p.image f g).cancelled = false := by
    intro p hallowed
    show g p.cancelled = false
    rw [hallowed, h.going]
  generalize hrefused : (.error e : Except Error (Option Emitted)) = refusal at hpull
  induction hpull with
  | done => cases hrefused
  | refused => exact hagain
  | emitted => cases hrefused
  | exhausted => cases hrefused
  | rechecked going allowed quiet next _ ih =>
      rw [← h.recheckOf]
      refine .rechecked going (hgoing _ allowed) quiet (next.image f g) ?_
      rw [h.afterRecheck]
      exact ih hagain hrefused

end PullsEmit

end Program

end Rebuild
