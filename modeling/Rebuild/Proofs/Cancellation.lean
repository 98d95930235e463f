import Rebuild.Proofs.Pair
import Rebuild.Proofs.Recorded

/-!
# Cancellation

A build may be cancelled and resumed at any time, also by the host while it checks a unit.  A caller who
repeats each pull that is refused is none the worse for it.

* `Muted`: a host that answers as another but never cancels the build, and `Program.calm`: the program over
  it, which is not cancelled;
* `Pull`, `Pull.play`: what is pulled from a program, one pull after another;
* `Persists`: a caller who repeats each pull until it is granted;
* `Program.Insists.calm`: what is granted in the end is what a calm program grants at once;
* `cancellation_transparent`: so the results, the requests to the host and the program are the same.
-/

namespace Rebuild

/-! ### Calm programs -/

/-- A host that answers as another one but never cancels the build. -/
structure Muted (η : Type) where
  host : η

namespace Muted

variable {η : Type} [Host η]

instance : Host (Muted η) where
  snapshot m changed := ((Host.snapshot m.host changed).1, ⟨(Host.snapshot m.host changed).2⟩)
  check m unit :=
    ({ outcome := (Host.check m.host unit).1.outcome }, ⟨(Host.check m.host unit).2⟩)
  interface m unit := ((Host.interface m.host unit).1, ⟨(Host.interface m.host unit).2⟩)
  emit m unit kind := ((Host.emit m.host unit kind).1, ⟨(Host.emit m.host unit kind).2⟩)
  counts m := Host.counts m.host
  policy m := Host.policy m.host

end Muted

/-- The same record, for a host that never cancels the build. -/
def Recorded.muted {η : Type} (r : Recorded η) : Recorded (Muted η) :=
  ⟨⟨r.host⟩, r.calls⟩

/-- Such a host gives the same answers to the same requests. -/
theorem Recorded.mirrors_muted {η : Type} [Host η] :
    Mirrors (Recorded.muted : Recorded η → Recorded (Muted η)) (fun _ => false) where
  going := rfl
  outcome _ _ := rfl
  cancels _ _ _ := rfl
  checked _ _ := rfl
  interface _ _ := rfl
  emit _ _ _ := rfl
  counts _ := rfl

/-- The program without anything that cancels it. -/
def Program.calm {η : Type} (p : Program η) : Program (Muted η) :=
  p.image Muted.mk fun _ => false

/-! ### Pulls -/

inductive Pull where
  | check
  | emit
  deriving Repr, DecidableEq

inductive Pulled where
  | checked (found : Option Checked)
  | emitted (found : Option Emitted)
  deriving Repr, DecidableEq

namespace Pull

variable {η : Type} [Host η]

def run : Pull → Program η → Except Error Pulled × Program η
  | .check, p => (p.pullCheck.1.map .checked, p.pullCheck.2)
  | .emit, p => (p.pullEmit.1.map .emitted, p.pullEmit.2)

def play : List Pull → Program η → List (Except Error Pulled) × Program η
  | [], p => ([], p)
  | pull :: pulls, p =>
      let rest := play pulls (pull.run p).2
      ((pull.run p).1 :: rest.1, rest.2)

end Pull

/-- Several pulls, each repeated until it is granted, with the build cancelled and resumed in between. -/
inductive Persists {η : Type} [Host η] : List Pull → Program η → List Pulled → Program η → Prop
  | nil (p : Program η) : Persists [] p [] p
  | cons {p q r : Program η} {pull : Pull} {pulls : List Pull} {result : Pulled} {results : List Pulled}
      (first : p.Insists pull.run result q) (rest : Persists pulls q results r) :
      Persists (pull :: pulls) p (result :: results) r

namespace Program

variable {η : Type} [Host η] {p q : Program η}

theorem goesOn_run (pull : Pull) : GoesOn (pull.run : Program η → Except Error Pulled × Program η) := by
  have hmap : ∀ {α β : Type} {answer : Except Error α} {f : α → β} {e : Error},
      answer.map f = .error e → answer = .error e := by
    intro α β answer f e h
    cases answer with
    | error e' =>
        cases h
        rfl
    | ok result => cases h
  intro p htidy
  cases pull with
  | check =>
      obtain ⟨hadvances, hrefused⟩ := goesOn_pullCheck p htidy
      exact ⟨hadvances, fun e he => hrefused e (hmap he)⟩
  | emit =>
      obtain ⟨hadvances, hrefused⟩ := goesOn_pullEmit p htidy
      exact ⟨hadvances, fun e he => hrefused e (hmap he)⟩

/-! ### Insisting on one pull -/

/-- A check that is refused is granted later as if nothing had happened. -/
theorem Insists.calm_check {θ : Type} [Host θ] {f : η → θ} (hf : Mirrors f fun _ => false)
    {result : Pulled} (h : Insists Pull.check.run p result q) :
    Pull.check.run (p.image f fun _ => false) = (.ok result, q.image f fun _ => false) := by
  induction h with
  | @granted p q result signal answer =>
      rcases hpull : Program.pullCheck { p with cancelled := signal } with ⟨found, q'⟩
      rw [Pull.run, hpull] at answer
      cases found with
      | error e => cases answer
      | ok found =>
          cases answer
          have hcalm := hf.pullCheck_of_ok hpull
          rw [Pull.run]
          exact congrArg (fun pulled => (pulled.1.map Pulled.checked, pulled.2)) hcalm
  | @refused p q r result e signal answer _ ih =>
      rcases hpull : Program.pullCheck { p with cancelled := signal } with ⟨found, q'⟩
      rw [Pull.run, hpull] at answer
      cases found with
      | ok found => cases answer
      | error e' =>
          obtain ⟨_, hsame, _⟩ := pullCheck_of_error hpull
          obtain rfl : q = { p with cancelled := signal } := (congrArg Prod.snd answer).symm.trans hsame
          exact ih

/-- An emit that is refused may have rechecked units; when it is asked for again, it goes on from there. -/
theorem Insists.calm_emit {θ : Type} [Host θ] {f : η → θ} (hf : Mirrors f fun _ => false)
    {result : Pulled} (htidy : p.Tidy) (h : Insists Pull.emit.run p result q) :
    Pull.emit.run (p.image f fun _ => false) = (.ok result, q.image f fun _ => false) := by
  induction h with
  | @granted p q result signal answer =>
      have hloop := (htidy.token signal).pullsEmit
      rcases hpull : Program.pullEmit { p with cancelled := signal } with ⟨found, q'⟩
      rw [Pull.run, hpull] at answer
      rw [hpull] at hloop
      cases found with
      | error e => cases answer
      | ok found =>
          cases answer
          have hcalm := (htidy.image f fun _ => false).pullEmit_eq (hloop.image_of_ok hf)
          rw [Pull.run]
          exact congrArg (fun pulled => (pulled.1.map Pulled.emitted, pulled.2)) hcalm
  | @refused p q r result e signal answer _ ih =>
      have hloop := (htidy.token signal).pullsEmit
      rcases hpull : Program.pullEmit { p with cancelled := signal } with ⟨found, q'⟩
      rw [Pull.run, hpull] at answer
      rw [hpull] at hloop
      cases found with
      | ok found => cases answer
      | error e' =>
          obtain rfl : q' = q := congrArg Prod.snd answer
          have hadvances := hloop.advances (htidy.token signal)
          have hrest := (hadvances.tidy.image f fun _ => false).pullsEmit
          have hwhole := (htidy.image f fun _ => false).pullEmit_eq (hloop.image_of_error hf hrest)
          rw [Pull.run, hwhole]
          exact ih hadvances.tidy

/-- What is granted in the end is what a calm program grants at once. -/
theorem Insists.calm {θ : Type} [Host θ] {f : η → θ} (hf : Mirrors f fun _ => false) {pull : Pull}
    {result : Pulled} (htidy : p.Tidy) (h : Insists pull.run p result q) :
    pull.run (p.image f fun _ => false) = (.ok result, q.image f fun _ => false) := by
  cases pull with
  | check => exact h.calm_check hf
  | emit => exact h.calm_emit hf htidy

theorem Tidy.plain_run {p : Program (Recorded η)} (htidy : p.Tidy) (pull : Pull) :
    pull.run p.plain = ((pull.run p).1, (pull.run p).2.plain) := by
  cases pull with
  | check => rw [Pull.run, plain_pullCheck]; rfl
  | emit => rw [Pull.run, htidy.plain_pullEmit]; rfl

end Program

open Program

namespace Persists

variable {η : Type} [Host η] {p q : Program η} {pulls : List Pull} {results : List Pulled}

/-- A caller who resumes the build before each attempt gets through. -/
theorem exists_of_tidy (htidy : p.Tidy) (pulls : List Pull) :
    ∃ results q, Persists pulls p results q := by
  induction pulls generalizing p with
  | nil => exact ⟨[], p, .nil p⟩
  | cons pull pulls ih =>
      obtain ⟨result, q, hfirst⟩ := (goesOn_run pull).exists_insists htidy
      obtain ⟨results, r, hrest⟩ := ih ((goesOn_run pull).tidy_of_insists htidy hfirst)
      exact ⟨result :: results, r, .cons hfirst hrest⟩

/-- Whatever such a caller does can be recorded. -/
theorem recorded (h : Persists pulls p results q) {r : Program (Recorded η)} (htidy : r.Tidy)
    (hr : r.plain = p) : ∃ s, Persists pulls r results s ∧ s.plain = q := by
  induction h generalizing r with
  | nil p => exact ⟨r, .nil r, hr⟩
  | @cons p q _ pull _ _ _ first _ ih =>
      obtain ⟨s, hfirst, hs⟩ :=
        first.recorded (goesOn_run pull) (fun r hr => hr.plain_run pull) htidy hr
      obtain ⟨t, hrest, ht⟩ := ih ((goesOn_run pull).tidy_of_insists htidy hfirst) hs
      exact ⟨t, .cons hfirst hrest, ht⟩

/-- What is granted in the end is what a calm program grants at once. -/
theorem calm {θ : Type} [Host θ] {f : η → θ} (hf : Mirrors f fun _ => false) (htidy : p.Tidy)
    (h : Persists pulls p results q) :
    Pull.play pulls (p.image f fun _ => false) = (results.map .ok, q.image f fun _ => false) := by
  induction h with
  | nil p => rfl
  | @cons _ _ _ pull _ _ _ first _ ih =>
      have hfirst := first.calm hf htidy
      have hrest := ih ((goesOn_run pull).tidy_of_insists htidy first)
      rw [Pull.play, hfirst]
      simp only [hrest, List.map_cons]

end Persists

/-- **Cancellation is transparent.**  However the build is cancelled and resumed, also by the host while it
checks a unit, a caller who repeats each pull that is refused gets through, and obtains the same results by
the same requests to the host and ends with the same program as a caller who is never cancelled.  A check
that is refused leaves the program as it was. -/
theorem cancellation_transparent {η : Type} [Host η] {p : Program η} (hp : p.Reachable)
    (pulls : List Pull) :
    (∃ results q, Persists pulls p results q)
      ∧ (∀ results q, Persists pulls p results q →
        ∃ (recorded : Program (Recorded η)) (calm : Program (Recorded (Muted η))),
          (Persists pulls p.recorded results recorded ∧ recorded.plain = q)
            ∧ (Pull.play pulls p.calm.recorded = (results.map .ok, calm) ∧ calm.plain = q.calm)
            ∧ recorded.host.calls = calm.host.calls)
      ∧ ∀ e q, p.pullCheck = (.error e, q) → e = .cancelled ∧ q = p := by
  refine ⟨Persists.exists_of_tidy hp.tidy pulls, fun results q h => ?_, fun e q h => ?_⟩
  · have htidy : p.recorded.Tidy := hp.tidy.image _ id
    obtain ⟨recorded, hrecorded, rfl⟩ := h.recorded htidy (plain_recorded p)
    have hcalm := hrecorded.calm Recorded.mirrors_muted htidy
    exact ⟨recorded, recorded.image Recorded.muted fun _ => false, ⟨hrecorded, rfl⟩, ⟨hcalm, rfl⟩, rfl⟩
  · obtain ⟨he, hq, _⟩ := pullCheck_of_error h
    exact ⟨he, hq⟩

/-- The third emit is cancelled after it has rechecked one of two units.  A caller who repeats it makes no
request twice. -/
theorem cancellation_transparent_alarm :
    let pulls : List Pull := [.emit, .emit, .emit]
    (Pull.play pulls Alarmed.fresh).1.getLast? = some (.error .cancelled)
      ∧ ∃ results q, Persists pulls Alarmed.fresh results q
        ∧ ∃ recorded, Persists pulls Alarmed.fresh.recorded results recorded ∧ recorded.plain = q
          ∧ recorded.host.calls = [.emit "left" .full, .emit "right" .full, .check "left",
            .interface "left", .check "right", .interface "right"] := by
  intro pulls
  have hreachable : Alarmed.fresh.Reachable := .update (.blank _ _) _
  obtain ⟨⟨results, q, hpersists⟩, htransparent, _⟩ := cancellation_transparent hreachable pulls
  obtain ⟨recorded, calm, ⟨hrecorded, hplain⟩, ⟨hcalm, _⟩, hcalls⟩ := htransparent results q hpersists
  refine ⟨by decide +kernel, results, q, hpersists, recorded, hrecorded, hplain, ?_⟩
  rw [hcalls, ← show (Pull.play pulls Alarmed.fresh.calm.recorded).2 = calm by rw [hcalm]]
  decide +kernel

end Rebuild
