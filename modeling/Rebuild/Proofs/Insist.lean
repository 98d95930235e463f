import Rebuild.Proofs.Mirror

/-!
# Callers who insist

A program that is cancelled refuses what is asked of it.  A caller may ask again until it is granted, while
others cancel and resume the build.

* `Program.Insists`: asking again until it is granted;
* `Program.Advances`: an attempt never loses a recheck, and it rechecks something before it is cancelled;
* `Program.GoesOn`: so do pulls (`Program.goesOn_pullCheck`, `Program.goesOn_pullEmit`);
* `Program.PullsAll`: an attempt that pulls until nothing is left, as all checks and all emits do
  (`Program.pullsAll_checkAll`, `Program.pullsAll_emitAll`);
* `Program.GoesOn.exists_insists`: a caller who resumes the build before each attempt is granted one.
-/

namespace Rebuild

/-- The results are lost exactly when the pulling was stopped. -/
theorem Drained.stopped_eq {α : Type} (drained : Drained α) :
    drained.stopped = match drained.complete with
      | .ok _ => none
      | .error e => some e := by
  rw [complete]
  cases drained.stopped with
  | none => rfl
  | some e => rfl

namespace Program

variable {η α : Type}

/-- What is asked of the program is asked again until it is granted.  Before each attempt the build may have
been cancelled or resumed, by the caller or by others. -/
inductive Insists (attempt : Program η → Except Error α × Program η) :
    Program η → α → Program η → Prop
  | granted {p q : Program η} {result : α} (signal : Bool)
      (answer : attempt { p with cancelled := signal } = (.ok result, q)) : Insists attempt p result q
  | refused {p q r : Program η} {result : α} {e : Error} (signal : Bool)
      (answer : attempt { p with cancelled := signal } = (.error e, q))
      (again : Insists attempt q result r) : Insists attempt p result r

variable {p q r : Program η} {unit : UnitId}

/-- A caller whose first attempt is granted need not insist. -/
theorem Insists.of_isOk {attempt : Program η → Except Error α × Program η}
    (h : (attempt p).1.isOk = true) : ∃ result, Insists attempt p result (attempt p).2 := by
  rcases hanswer : attempt p with ⟨answer, q⟩
  rw [hanswer] at h
  cases answer with
  | error e => cases h
  | ok result => exact ⟨result, .granted p.cancelled hanswer⟩

/-! ### Advancing -/

/-- The program went on.  If it was cancelled meanwhile, then by a recheck. -/
structure Advances (p q : Program η) : Prop where
  tidy : q.Tidy
  le : q.unprocessed ≤ p.unprocessed
  cancelled : q.cancelled = true → p.cancelled = true ∨ q.unprocessed < p.unprocessed

/-- The build may be cancelled or resumed at any time. -/
theorem Tidy.token (htidy : p.Tidy) (signal : Bool) : Tidy { p with cancelled := signal } :=
  ⟨htidy.wellFormed, htidy.landed, htidy.accounts, htidy.bounded, htidy.finished⟩

namespace Advances

theorem refl (htidy : p.Tidy) : p.Advances p :=
  ⟨htidy, Nat.le_refl _, Or.inl⟩

theorem trans (h : p.Advances q) (hrest : q.Advances r) : p.Advances r := by
  refine ⟨hrest.tidy, Nat.le_trans hrest.le h.le, fun hcancelled => ?_⟩
  rcases hrest.cancelled hcancelled with hmiddle | hless
  · rcases h.cancelled hmiddle with hfirst | hless
    · exact Or.inl hfirst
    · exact Or.inr (Nat.lt_of_le_of_lt hrest.le hless)
  · exact Or.inr (Nat.lt_of_lt_of_le hless h.le)

variable [Host η]

theorem recheck (htidy : p.Tidy) (h : p.nextUnit = (some unit, q)) : p.Advances (q.afterRecheck unit) := by
  obtain ⟨hrechecks, _⟩ := rechecks_of_nextUnit htidy h
  have hless := hrechecks.unprocessed_lt htidy
  exact ⟨hrechecks.tidy, Nat.le_of_lt hless, fun _ => Or.inr hless⟩

theorem exhaust (htidy : p.Tidy) (h : p.nextUnit = (none, q)) (phase : Phase) :
    p.Advances { q with phase } := by
  have hstep : Step (fun _ => True) p [] { q with phase } := Step.exhaust phase h
  obtain ⟨_, rfl⟩ := nextUnit_none htidy h
  exact ⟨hstep.tidy htidy, Nat.le_refl _, Or.inl⟩

theorem emit (htidy : p.Tidy) (queue : EmitQueue) (entry : PendingEmit) :
    p.Advances ({ p with pendingEmit := queue, phase := .emitPending }.emit entry).2 := by
  have hstep : Step (fun _ => True) p [] _ := Step.emit queue entry
  have hemitted := hstep.tidy htidy
  obtain ⟨host, deferred, hframe⟩ :=
    emit_frame { p with pendingEmit := queue, phase := .emitPending } entry
  rw [hframe] at hemitted ⊢
  exact ⟨hemitted, Nat.le_refl _, Or.inl⟩

end Advances

/-! ### Attempts -/

/-- Every attempt goes on, and one that is refused leaves a cancelled program. -/
def GoesOn (attempt : Program η → Except Error α × Program η) : Prop :=
  ∀ p : Program η, p.Tidy → p.Advances (attempt p).2
    ∧ ∀ e, (attempt p).1 = .error e → (attempt p).2.cancelled = true

/-- Pulling until nothing is left goes on as each pull does. -/
theorem GoesOn.drains {pull : Program η → Except Error (Option α) × Program η} (hpull : GoesOn pull)
    {drained : Drained α} (htidy : p.Tidy) (h : Drains pull p drained q) :
    p.Advances q ∧ ∀ e, drained.stopped = some e → q.cancelled = true := by
  induction h with
  | @stopped p q e failed =>
      have hone := hpull p htidy
      rw [failed] at hone
      exact ⟨hone.1, fun _ _ => hone.2 e rfl⟩
  | @finished p q last =>
      have hone := hpull p htidy
      rw [last] at hone
      exact ⟨hone.1, fun _ hnone => by cases hnone⟩
  | @pulled p q _ _ _ next _ ih =>
      have hone := hpull p htidy
      rw [next] at hone
      obtain ⟨hrest, hstopped⟩ := ih hone.1.tidy
      exact ⟨hone.1.trans hrest, hstopped⟩

/-- A caller who resumes the build before each attempt is granted one in the end: an attempt that is
refused nonetheless was cancelled by a recheck, and no unit is rechecked twice. -/
theorem GoesOn.exists_insists {attempt : Program η → Except Error α × Program η}
    (h : GoesOn attempt) (htidy : p.Tidy) : ∃ result q, Insists attempt p result q := by
  induction hsize : p.unprocessed using Nat.strongRecOn generalizing p with
  | ind size ih =>
      obtain ⟨hadvances, hrefused⟩ := h { p with cancelled := false } (htidy.token false)
      rcases hanswer : attempt { p with cancelled := false } with ⟨answer, q⟩
      rw [hanswer] at hadvances hrefused
      cases answer with
      | ok result => exact ⟨result, q, .granted false hanswer⟩
      | error e =>
          rcases hadvances.cancelled (hrefused e rfl) with hcancelled | hless
          · cases hcancelled
          · obtain ⟨result, r, hagain⟩ := ih q.unprocessed (hsize ▸ hless) hadvances.tidy rfl
            exact ⟨result, r, .refused false hanswer hagain⟩

/-- The attempt that is granted is made by a tidy program. -/
theorem GoesOn.exists_granted {attempt : Program η → Except Error α × Program η} {result : α}
    (h : GoesOn attempt) (htidy : p.Tidy) (hinsists : Insists attempt p result q) :
    ∃ r : Program η, r.Tidy ∧ attempt r = (.ok result, q) := by
  induction hinsists with
  | granted signal answer => exact ⟨_, htidy.token signal, answer⟩
  | refused signal answer _ ih =>
      have hone := h _ (htidy.token signal)
      rw [answer] at hone
      exact ih hone.1.tidy

theorem GoesOn.tidy_of_insists {attempt : Program η → Except Error α × Program η} {result : α}
    (h : GoesOn attempt) (htidy : p.Tidy) (hinsists : Insists attempt p result q) : q.Tidy := by
  obtain ⟨r, hr, hgranted⟩ := h.exists_granted htidy hinsists
  have hone := h r hr
  rw [hgranted] at hone
  exact hone.1.tidy

/-! ### Relations that hold of every attempt -/

section Relates

variable {R : Program η → Program η → Prop}

/-- What relates a program to the one after a pull relates it to the one after all pulls. -/
theorem GoesOn.relates_drains {pull : Program η → Except Error (Option α) × Program η}
    (hpull : GoesOn pull) (hone : ∀ p : Program η, p.Tidy → R p (pull p).2)
    (htrans : ∀ {p q r : Program η}, R p q → R q r → R p r) {drained : Drained α} (htidy : p.Tidy)
    (h : Drains pull p drained q) : R p q := by
  induction h with
  | @stopped p q e failed =>
      have hfirst := hone p htidy
      rwa [failed] at hfirst
  | @finished p q last =>
      have hfirst := hone p htidy
      rwa [last] at hfirst
  | @pulled p q _ _ _ next _ ih =>
      have hfirst := hone p htidy
      have hgoes := hpull p htidy
      rw [next] at hfirst hgoes
      exact htrans hfirst (ih hgoes.1.tidy)

/-- What relates a program to the one after an attempt, and ignores cancellation, relates it to the one
after a caller has insisted. -/
theorem GoesOn.relates_insists {attempt : Program η → Except Error α × Program η} (h : GoesOn attempt)
    (htoken : ∀ (p : Program η) (signal : Bool), R p { p with cancelled := signal })
    (hone : ∀ p : Program η, p.Tidy → R p (attempt p).2)
    (htrans : ∀ {p q r : Program η}, R p q → R q r → R p r) {result : α} (htidy : p.Tidy)
    (hinsists : Insists attempt p result q) : R p q := by
  induction hinsists with
  | granted signal answer =>
      have hfirst := hone _ (htidy.token signal)
      rw [answer] at hfirst
      exact htrans (htoken _ signal) hfirst
  | refused signal answer _ ih =>
      have hfirst := hone _ (htidy.token signal)
      have hgoes := h _ (htidy.token signal)
      rw [answer] at hfirst hgoes
      exact htrans (htrans (htoken _ signal) hfirst) (ih hgoes.1.tidy)

end Relates

/-! ### Everything at once -/

/-- An attempt that pulls until nothing is left, and loses the results when the pulling was stopped. -/
structure PullsAll (pull : Program η → Except Error (Option α) × Program η)
    (attempt : Program η → Except Error (List α) × Program η) : Prop where
  goesOn : GoesOn pull
  drains : ∀ p : Program η, p.Tidy → ∃ drained : Drained α,
    Drains pull p drained (attempt p).2 ∧ (attempt p).1 = drained.complete

namespace PullsAll

variable {pull : Program η → Except Error (Option α) × Program η}
variable {attempt : Program η → Except Error (List α) × Program η} {results : List α}

theorem goesOn_attempt (h : PullsAll pull attempt) : GoesOn attempt := by
  intro p htidy
  obtain ⟨drained, hdrains, hcomplete⟩ := h.drains p htidy
  obtain ⟨hadvances, hstopped⟩ := h.goesOn.drains htidy hdrains
  refine ⟨hadvances, fun e he => hstopped e ?_⟩
  rw [Drained.stopped_eq, ← hcomplete, he]

/-- The attempt that is granted pulled to the end. -/
theorem exists_drains (h : PullsAll pull attempt) (htidy : p.Tidy) (hinsists : Insists attempt p results q) :
    ∃ (r : Program η) (drained : Drained α), r.Tidy ∧ Drains pull r drained q ∧ drained.stopped = none := by
  obtain ⟨r, hr, hgranted⟩ := h.goesOn_attempt.exists_granted htidy hinsists
  obtain ⟨drained, hdrains, hcomplete⟩ := h.drains r hr
  rw [hgranted] at hdrains hcomplete
  refine ⟨r, drained, hr, hdrains, ?_⟩
  rw [Drained.stopped_eq, ← hcomplete]

/-- What relates a program to the one after a pull, and ignores cancellation, relates it to the one after
a caller has insisted on everything. -/
theorem relates {R : Program η → Program η → Prop} (h : PullsAll pull attempt)
    (htoken : ∀ (p : Program η) (signal : Bool), R p { p with cancelled := signal })
    (hone : ∀ p : Program η, p.Tidy → R p (pull p).2)
    (htrans : ∀ {p q r : Program η}, R p q → R q r → R p r) (htidy : p.Tidy)
    (hinsists : Insists attempt p results q) : R p q := by
  refine h.goesOn_attempt.relates_insists htoken (fun p hp => ?_) htrans htidy hinsists
  obtain ⟨_, hdrains, _⟩ := h.drains p hp
  exact h.goesOn.relates_drains hone htrans hp hdrains

end PullsAll

/-! ### What can be asked of a program -/

variable [Host η]

theorem goesOn_pullCheck : GoesOn (@pullCheck η _) := by
  intro p htidy
  have hpull := pullsCheck p
  rcases hanswer : p.pullCheck with ⟨answer, q⟩
  rw [hanswer] at hpull
  refine ⟨?_, fun e he => ?_⟩
  · cases hpull with
    | done => exact .refl htidy
    | refused => exact .refl htidy
    | exhausted phase _ _ next => exact .exhaust htidy next phase
    | rechecked _ _ next => exact .recheck htidy next
  · obtain rfl : answer = .error e := he
    obtain ⟨_, rfl, _, hcancelled⟩ := pullCheck_of_error hanswer
    exact hcancelled

theorem PullsEmit.advances {log : List Recheck} {result : Except Error (Option Emitted)}
    (htidy : p.Tidy) (h : p.PullsEmit log result q) : p.Advances q := by
  induction h with
  | done => exact .refl htidy
  | refused => exact .refl htidy
  | @emitted p entry queue _ _ _ => exact .emit htidy queue entry
  | exhausted _ _ _ next => exact .exhaust htidy next.eq_nextUnit.symm .done
  | rechecked _ _ _ next _ ih =>
      have hfirst := Advances.recheck htidy next.eq_nextUnit.symm
      exact hfirst.trans (ih hfirst.tidy)

/-- An emit is refused by a program that is cancelled and not done. -/
theorem PullsEmit.of_error {log : List Recheck} {e : Error} (h : p.PullsEmit log (.error e) q) :
    e = .cancelled ∧ q.phase ≠ .done ∧ q.cancelled = true := by
  generalize hresult : (.error e : Except Error (Option Emitted)) = result at h
  induction h with
  | done => cases hresult
  | refused going cancelled =>
      cases hresult
      exact ⟨rfl, going, cancelled⟩
  | emitted => cases hresult
  | exhausted => cases hresult
  | rechecked _ _ _ _ _ ih => exact ih hresult

theorem goesOn_pullEmit : GoesOn (@pullEmit η _) := by
  intro p htidy
  have hpull := htidy.pullsEmit
  refine ⟨hpull.advances htidy, fun e he => ?_⟩
  rw [he] at hpull
  exact hpull.of_error.2.2

theorem pullsAll_checkAll : PullsAll (@pullCheck η _) checkAll where
  goesOn := goesOn_pullCheck
  drains p htidy := ⟨p.drainChecks.1, htidy.drains_checks.1, rfl⟩

theorem pullsAll_emitAll : PullsAll (@pullEmit η _) emitAll where
  goesOn := goesOn_pullEmit
  drains p htidy := ⟨p.drainEmits.1, htidy.drains_emits, rfl⟩

theorem goesOn_checkAll : GoesOn (@checkAll η _) :=
  pullsAll_checkAll.goesOn_attempt

theorem goesOn_emitAll : GoesOn (@emitAll η _) :=
  pullsAll_emitAll.goesOn_attempt

end Program

end Rebuild
