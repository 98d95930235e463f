import Rebuild.BuildInfo.Layout
import Rebuild.Program.Basic
import Rebuild.Proofs.BuildInfo.Document
import Rebuild.Proofs.Recheck
import Rebuild.Proofs.Update

/-!
# Reachable programs

A program comes from nothing or from a stored document, and then goes through rounds: snapshots are
taken, and calls are made within each round.

* `Program.Reachable`: the programs that can come about;
* `Program.reachable_of_start`, `Program.Reachable.of_reportChanged`,
  `Program.Reachable.setOptions`: everything that a caller can get is reachable;
* `Program.Reachable.tidy`: reachable programs are tidy.
-/

namespace Rebuild

theorem Steps.tidy {η : Type} [Host η] {allowed : (η → η) → Prop} {p q : Program η}
    {log : List Recheck} (htidy : p.Tidy) (h : Steps allowed p log q) : q.Tidy :=
  h.keeps (fun hq hstep => hstep.tidy hq) htidy

/-- What is read from a stored text is the content of an accepted document. -/
theorem BuildInfo.Document.exists_decode {expected stored : String} {decoded : Decoded}
    (h : read expected stored = .ok decoded) : ∃ d : Document, d.decode expected = .ok decoded := by
  rw [read] at h
  split at h
  · cases h
  · split at h
    · cases h
    · split at h
      · cases h
      · split at h
        · cases h
        · exact ⟨_, h⟩

namespace Program

variable {η : Type} [Host η]

/-- The programs that can come about.  A forced round is one that starts with `forceAll`. -/
inductive Reachable : Program η → Prop
  | blank (host : η) (options : Options) : Reachable (blank host options)
  | restore (host : η) (options : Options) {stored : String} {decoded : BuildInfo.Decoded}
      (hread : BuildInfo.Document.read BuildInfo.toolVersion stored = .ok decoded) :
      Reachable ((Program.blank host options).restore decoded)
  | force {p : Program η} (h : Reachable p) : Reachable { p with forceAll := true }
  | update {p : Program η} (h : Reachable p) (s : Snapshot) : Reachable (p.update s)
  | call {p : Program η} (h : Reachable p) (c : Call η) : Reachable (c.run p)

variable {p q : Program η}

/-- A program that takes over an accepted document is tidy. -/
theorem tidy_restore (host : η) (options : Options) {d : BuildInfo.Document} {expected : String}
    {decoded : BuildInfo.Decoded} (hdecode : d.decode expected = .ok decoded) :
    ((Program.blank host options).restore decoded).Tidy := by
  refine ⟨BuildInfo.Document.wellFormed_of_decode hdecode, ?_, ?_, ?_, ?_⟩
  · simp [Program.restore, Program.blank]
  · simp [Program.restore, Program.blank]
  · intro id hid
    have hcarried : id ∈ (carriedRoots decoded.state.graph decoded.pendingCheck).map (·.unit) := by
      simpa [Program.restore, Program.blank, frontier] using hid
    obtain ⟨path, _, hpath⟩ := mem_carriedRoots.mp hcarried
    exact Graph.lt_size_of_idOf? hpath
  · simp [Program.restore, Program.blank]

theorem decoded?_eq_some {document : Option String} {decoded : BuildInfo.Decoded}
    (h : decoded? document = some decoded) :
    ∃ stored, document = some stored
      ∧ BuildInfo.Document.read BuildInfo.toolVersion stored = .ok decoded := by
  obtain ⟨stored, rfl, hread⟩ := Option.bind_eq_some_iff.mp h
  refine ⟨stored, rfl, ?_⟩
  cases hcontent : BuildInfo.Document.read BuildInfo.toolVersion stored with
  | error e =>
      rw [hcontent] at hread
      cases hread
  | ok content =>
      rw [hcontent] at hread
      cases hread
      rfl

theorem reachable_of_start {host : η} {options : Options} {document : Option String}
    (h : start host options document = .ok p) : p.Reachable := by
  rw [start] at h
  split at h
  · cases h
  · cases h
    refine .update ?_ _
    split
    · rename_i decoded hdecoded
      obtain ⟨stored, _, hread⟩ := decoded?_eq_some hdecoded
      exact .restore _ options hread
    · exact .blank _ options

namespace Reachable

theorem of_reportChanged (h : p.Reachable) {paths : List String} {reply : Except Error Unit}
    (hreport : p.reportChanged paths = (reply, q)) : q.Reachable := by
  rw [reportChanged] at hreport
  split at hreport
  · cases hreport
    exact h.call (.edit fun _ => _)
  · cases hreport
    exact (h.call (.edit fun _ => _)).update _

theorem setOptions (h : p.Reachable) (options : Options) : (p.setOptions options).Reachable := by
  rw [Program.setOptions]
  split
  · exact h.call (.switch options)
  · exact (h.call (.switch options)).force.update _

theorem play (h : p.Reachable) (calls : List (Call η)) : (Call.play calls p).2.Reachable :=
  Call.play_keeps (fun hp _ => hp.call _) (fun _ _ => trivial) h

/-- Reachable programs are tidy. -/
theorem tidy (h : p.Reachable) : p.Tidy := by
  induction h with
  | blank host options =>
      refine ⟨⟨List.nodup_nil, rfl⟩, ?_, ?_, ?_, ?_⟩
      · simp [Program.blank]
      · simp [Program.blank]
      · simp [Program.blank, frontier]
      · simp [Program.blank]
  | @restore host options stored decoded hread =>
      obtain ⟨d, hdecode⟩ := BuildInfo.Document.exists_decode hread
      exact tidy_restore host options hdecode
  | force _ ih => exact ⟨ih.wellFormed, ih.landed, ih.accounts, ih.bounded, ih.finished⟩
  | update _ s _ => exact tidy_update _ s
  | @call p _ c ih =>
      have hcall : c.Within fun _ => True := c.within_of_forall fun _ => trivial
      exact (Steps.call hcall p).tidy ih

end Reachable

end Program

end Rebuild
