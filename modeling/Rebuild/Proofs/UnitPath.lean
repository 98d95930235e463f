import Mathlib.Logic.Function.Iterate
import Rebuild.Program.Pull
import Rebuild.Proofs.Project.Keys

/-!
# Keys of keys

A path is normalized wherever it is taken, so that most keys are normalized more than once.  Blanks are
dropped at the ends of the whole text only, before its segments are looked at.  So a blank that stood behind
a dropped segment ends up at the end of the key, and is dropped when the key is normalized again.

* `Text.trim_eq_self_iff`: the texts that keep their ends;
* `UnitPath.length_normalize_le`: normalizing makes nothing longer;
* `UnitPath.Flush`: the paths whose first and last naming segment have no blank at the outer end;
* `UnitPath.normalize_normalize_iff`: a key is its own key exactly for these, and in any case after finitely
  many turns;
* `UnitPath.key_moves`: the key of another path is none.
-/

namespace Rebuild

/-! ### Texts -/

namespace Text

variable {sep cs : List Char} {c : Char} {pieces more : List (List Char)}

theorem trim_sublist (cs : List Char) : (trim cs).Sublist cs := by
  have hend : (trim cs).Sublist (trimStart cs) := by
    have hdrop := (List.dropWhile_sublist isBlank (l := (trimStart cs).reverse)).reverse
    rwa [List.reverse_reverse] at hdrop
  exact hend.trans (List.dropWhile_sublist isBlank)

/-- A text keeps its ends when they are not blank. -/
theorem trim_eq_self_iff :
    trim cs = cs ↔ (∀ c ∈ cs.head?, isBlank c = false) ∧ ∀ c ∈ cs.getLast?, isBlank c = false := by
  refine ⟨fun htrim => ?_, fun hends => trim_eq_self hends.1 hends.2⟩
  have hstart : trimStart cs = cs := by
    refine (List.dropWhile_sublist isBlank).eq_of_length_le ?_
    have hend := (List.dropWhile_sublist isBlank (l := (trimStart cs).reverse)).length_le
    have hlength := congrArg List.length htrim
    rw [trim, trimEnd, List.length_reverse] at hlength
    rw [List.length_reverse] at hend
    exact hlength ▸ hend
  have hend : cs.reverse.dropWhile isBlank = cs.reverse := by
    rw [trim, hstart, trimEnd] at htrim
    rw [← List.reverse_inj, List.reverse_reverse, htrim]
  -- what is dropped from the front is not blank
  have hfirst : ∀ cs : List Char, cs.dropWhile isBlank = cs → ∀ c ∈ cs.head?, isBlank c = false := by
    intro cs hcs c hc
    have hhead := List.head?_dropWhile_not isBlank cs
    rw [hcs, hc] at hhead
    simpa using hhead
  refine ⟨hfirst cs hstart, fun c hc => hfirst cs.reverse hend c ?_⟩
  rwa [List.head?_reverse]

theorem join_splitOn (mark : Char) (cs : List Char) : join [mark] (splitOn mark cs) = cs := by
  induction cs with
  | nil => rfl
  | cons c cs ih =>
      obtain ⟨piece, pieces, hpieces⟩ := List.exists_cons_of_ne_nil (splitOn_ne_nil mark cs)
      rw [hpieces] at ih
      rw [splitOn, hpieces]
      split
      · rename_i hmark
        rw [join_cons_cons, ih, hmark]
        rfl
      · show join [mark] ((c :: piece) :: pieces) = c :: cs
        rw [← ih]
        cases pieces with
        | nil => rfl
        | cons second pieces => rfl

/-- With fewer pieces, less is joined. -/
theorem join_sublist (h : pieces.Sublist more) : (join sep pieces).Sublist (join sep more) := by
  induction h with
  | slnil => exact List.Sublist.refl _
  | @cons pieces more piece hsub ih =>
      cases more with
      | nil =>
          rw [List.sublist_nil.mp hsub]
          exact List.nil_sublist _
      | cons second more => exact ih.trans (List.sublist_append_right _ _)
  | @cons_cons pieces more piece hsub ih =>
      cases more with
      | nil =>
          rw [List.sublist_nil.mp hsub]
      | cons second more =>
          cases pieces with
          | nil =>
              rw [join_cons_cons, List.append_assoc]
              exact List.sublist_append_left _ _
          | cons first pieces =>
              rw [join_cons_cons, join_cons_cons]
              exact (List.Sublist.refl _).append ih

theorem head?_join (hpieces : ∀ piece ∈ pieces, piece ≠ []) :
    (join sep pieces).head? = pieces.head?.bind List.head? := by
  cases pieces with
  | nil => rfl
  | cons piece pieces =>
      cases pieces with
      | nil => rfl
      | cons second pieces =>
          rw [join_cons_cons, List.append_assoc, List.head?_append_of_ne_nil _ (hpieces piece List.mem_cons_self)]
          rfl

theorem getLast?_join (hpieces : ∀ piece ∈ pieces, piece ≠ []) :
    (join sep pieces).getLast? = pieces.getLast?.bind List.getLast? := by
  induction pieces with
  | nil => rfl
  | cons piece pieces ih =>
      rw [List.forall_mem_cons] at hpieces
      cases pieces with
      | nil => rfl
      | cons second pieces =>
          have hrest : join sep (second :: pieces) ≠ [] := by
            intro hnil
            have hhead : (join sep (second :: pieces)).head? = _ := head?_join hpieces.2
            rw [hnil] at hhead
            exact hpieces.2 second List.mem_cons_self (List.head?_eq_none_iff.mp hhead.symm)
          rw [join_cons_cons, List.getLast?_append_of_ne_nil _ hrest, ih hpieces.2, List.getLast?_cons_cons]

/-- What is joined is made of the pieces and what is put between them. -/
theorem mem_join (hc : c ∈ join sep pieces) : c ∈ sep ∨ ∃ piece ∈ pieces, c ∈ piece := by
  induction pieces with
  | nil => cases hc
  | cons piece pieces ih =>
      cases pieces with
      | nil => exact Or.inr ⟨piece, List.mem_cons_self, hc⟩
      | cons second pieces =>
          rw [join_cons_cons, List.mem_append, List.mem_append] at hc
          rcases hc with (hpiece | hsep) | hrest
          · exact Or.inr ⟨piece, List.mem_cons_self, hpiece⟩
          · exact Or.inl hsep
          · exact (ih hrest).imp_right fun ⟨other, hother, hmem⟩ => ⟨other, List.mem_cons_of_mem _ hother, hmem⟩

theorem mem_of_mem_splitOn {mark : Char} {piece : List Char} (hpiece : piece ∈ splitOn mark cs) (hc : c ∈ piece) :
    c ∈ cs := by
  have hsub : (join [mark] [piece]).Sublist (join [mark] (splitOn mark cs)) :=
    join_sublist (List.singleton_sublist.mpr hpiece)
  rw [join_splitOn] at hsub
  exact hsub.subset hc

end Text

/-! ### Keys -/

namespace UnitPath

variable {raw : String} {piece : List Char}

/-- What the first naming segment begins with and the last one ends with is not blank. -/
structure Flush (raw : String) : Prop where
  first : ∀ c ∈ (segments raw.toList).head?.bind List.head?, Text.isBlank c = false
  last : ∀ c ∈ (segments raw.toList).getLast?.bind List.getLast?, Text.isBlank c = false

instance (raw : String) : Decidable (Flush raw) :=
  decidable_of_iff
    (((segments raw.toList).head?.bind List.head?).all (fun c => !Text.isBlank c) = true
      ∧ ((segments raw.toList).getLast?.bind List.getLast?).all (fun c => !Text.isBlank c) = true)
    (by
      simp only [Option.all_eq_true, Bool.not_eq_true']
      exact ⟨fun h => ⟨h.1, h.2⟩, fun h => ⟨h.first, h.last⟩⟩)

theorem toList_normalize (raw : String) :
    (normalize raw).toList = Text.join ['/'] (segments raw.toList) := by
  rw [normalize, String.toList_ofList]

theorem mem_segments {cs : List Char} (hpiece : piece ∈ segments cs) :
    isNaming piece = true ∧ '/' ∉ piece ∧ '\\' ∉ piece := by
  obtain ⟨hsplit, hnaming⟩ := List.mem_filter.mp hpiece
  refine ⟨hnaming, Text.not_mem_of_mem_splitOn hsplit, fun hbackslash => ?_⟩
  obtain ⟨c, _, hc⟩ := List.mem_map.mp (Text.mem_of_mem_splitOn hsplit hbackslash)
  rw [slash] at hc
  split at hc
  · cases hc
  · exact absurd hc ‹_›

theorem ne_nil_of_mem_segments {cs : List Char} (hpiece : piece ∈ segments cs) : piece ≠ [] := by
  have hnaming := (mem_segments hpiece).1
  rw [isNaming, Bool.and_eq_true, Bool.not_eq_true', List.isEmpty_eq_false_iff] at hnaming
  exact hnaming.1

theorem backslash_notMem_normalize (raw : String) : '\\' ∉ (normalize raw).toList := by
  rw [toList_normalize]
  intro hmem
  rcases Text.mem_join hmem with hsep | ⟨piece, hpiece, hbackslash⟩
  · exact absurd hsep (by decide)
  · exact (mem_segments hpiece).2.2 hbackslash

/-- Normalizing makes nothing longer than the text without the blanks at its ends. -/
theorem length_normalize_le (raw : String) : (normalize raw).toList.length ≤ (Text.trim raw.toList).length := by
  have hjoin : (Text.join ['/'] (segments raw.toList)).Sublist ((Text.trim raw.toList).map slash) := by
    have hsub : (Text.join ['/'] (segments raw.toList)).Sublist
        (Text.join ['/'] (Text.splitOn '/' ((Text.trim raw.toList).map slash))) :=
      Text.join_sublist List.filter_sublist
    rwa [Text.join_splitOn] at hsub
  have hlength := hjoin.length_le
  rwa [List.length_map, ← toList_normalize] at hlength

/-- A key that keeps its ends keeps its segments too. -/
theorem normalize_normalize_of_trim (htrim : Text.trim (normalize raw).toList = (normalize raw).toList) :
    normalize (normalize raw) = normalize raw := by
  have hbackslash := backslash_notMem_normalize raw
  rw [toList_normalize] at htrim hbackslash
  exact normalize_join (fun piece hpiece => ⟨(mem_segments hpiece).1, (mem_segments hpiece).2.1⟩) hbackslash htrim

/-- A key that does not gets shorter. -/
theorem length_normalize_normalize_lt (htrim : Text.trim (normalize raw).toList ≠ (normalize raw).toList) :
    (normalize (normalize raw)).toList.length < (normalize raw).toList.length := by
  refine (length_normalize_le _).trans_lt ?_
  rw [Nat.lt_iff_le_and_ne]
  exact ⟨(Text.trim_sublist _).length_le, fun hlength => htrim ((Text.trim_sublist _).eq_of_length hlength)⟩

theorem flush_iff : Flush raw ↔ Text.trim (normalize raw).toList = (normalize raw).toList := by
  have hpieces : ∀ piece ∈ segments raw.toList, piece ≠ [] := fun piece => ne_nil_of_mem_segments
  rw [Text.trim_eq_self_iff, toList_normalize, Text.head?_join hpieces, Text.getLast?_join hpieces]
  exact ⟨fun h => ⟨h.first, h.last⟩, fun h => ⟨h.1, h.2⟩⟩

/-- Keys settle: no key changes more often than it has characters. -/
theorem exists_settled (raw : String) : ∃ n ≤ (normalize raw).toList.length,
    normalize (normalize^[n] (normalize raw)) = normalize^[n] (normalize raw) := by
  induction hlength : (normalize raw).toList.length using Nat.strongRecOn generalizing raw with
  | ind length ih =>
      by_cases htrim : Text.trim (normalize raw).toList = (normalize raw).toList
      · exact ⟨0, Nat.zero_le _, normalize_normalize_of_trim htrim⟩
      · have hlt := length_normalize_normalize_lt htrim
        obtain ⟨n, hn, hsettled⟩ := ih _ (hlength ▸ hlt) (normalize raw) rfl
        exact ⟨n + 1, by omega, hsettled⟩

/-! ### Paths that are keys for good -/

/-- A path and its key are one unit wherever a path is taken: as the path of a unit, as a dependency, and
where a program is asked for diagnostics. -/
structure Interchangeable (raw : String) : Prop where
  ofText : ∀ text, SourceUnit.ofText (normalize raw) text = SourceUnit.ofText raw text
  addDependency : ∀ (unit : SourceUnit) (reexported : Bool),
    unit.addDependency ⟨normalize raw, reexported⟩ = unit.addDependency ⟨raw, reexported⟩
  diagnosticsOf : ∀ {η : Type} [Host η] (p : Program η), p.diagnosticsOf (normalize raw) = p.diagnosticsOf raw

theorem interchangeable_iff : Interchangeable raw ↔ normalize (normalize raw) = normalize raw := by
  constructor
  · intro h
    have hunit := h.ofText ""
    rw [SourceUnit.ofText, SourceUnit.ofText, SourceUnit.mk.injEq] at hunit
    exact hunit.1
  · intro hsame
    refine ⟨fun text => ?_, fun unit reexported => ?_, fun p => ?_⟩
    · rw [SourceUnit.ofText, SourceUnit.ofText, hsame]
    · rw [SourceUnit.addDependency, SourceUnit.addDependency, hsame]
    · rw [Program.diagnosticsOf, Program.diagnosticsOf, hsame]

/-- **Normalizing a key.**  The key of a path is its own key exactly when the first segment that names
something does not begin with a blank and the last one does not end with one; and exactly then the path and
its key are one unit wherever a path is taken.  Other keys get shorter when they are normalized again, and
after finitely many turns every key is its own. -/
theorem normalize_normalize_iff (raw : String) :
    (normalize (normalize raw) = normalize raw ↔ Flush raw)
      ∧ (Interchangeable raw ↔ Flush raw)
      ∧ ((normalize (normalize raw)).toList.length < (normalize raw).toList.length ↔ ¬ Flush raw)
      ∧ ∃ n ≤ (normalize raw).toList.length,
          normalize (normalize^[n] (normalize raw)) = normalize^[n] (normalize raw) := by
  have hiff : normalize (normalize raw) = normalize raw ↔ Flush raw := by
    constructor
    · intro hsame
      by_contra hflush
      have hlt := length_normalize_normalize_lt (fun htrim => hflush (flush_iff.mpr htrim))
      rw [hsame] at hlt
      exact lt_irrefl _ hlt
    · intro hflush
      exact normalize_normalize_of_trim (flush_iff.mp hflush)
  refine ⟨hiff, interchangeable_iff.trans hiff, ⟨fun hlt hflush => ?_, fun hflush => ?_⟩, exists_settled raw⟩
  · rw [hiff.mpr hflush] at hlt
    exact lt_irrefl _ hlt
  · exact length_normalize_normalize_lt fun htrim => hflush (flush_iff.mpr htrim)

/-- **A key that is not its own.**  A dot and a slash before a blank are dropped, and then the blank is at the
front.  A unit that imports such a path is on record with one key, and depends on another. -/
theorem key_moves :
    normalize "./ a" = " a" ∧ normalize " a" = "a"
      ∧ (Source.Contents.parse "import \"./ a\"").imports.map (·.path) = [" a"]
      ∧ ((SourceUnit.ofText "b" "").addDependency ⟨" a", false⟩).dependencies = [⟨"a", false⟩] := by
  decide +kernel

end UnitPath

end Rebuild
