import Rebuild.Storage.FileTable

/-!
# Storages that take what is written

What a builder relies on when it writes its outputs: a write succeeds, the file has the new content
afterwards, and other files keep theirs.

* `Storage.Accepts`: this holds for several files, in all states that matter;
* `FileTable.content?_addFile_of_ne`: writing a file leaves the other files of a table alone;
* `FileTable.accepts`: a table accepts every write to files with different keys.
-/

namespace Rebuild

/-- Entries with other keys make no difference to a look-up. -/
theorem lookup_filter_ne {κ β : Type} [DecidableEq κ] [BEq κ] [LawfulBEq κ] (entries : List (κ × β))
    (key k : κ) :
    (entries.filter (·.1 != key)).lookup k = if k = key then none else entries.lookup k := by
  induction entries with
  | nil => simp
  | cons first entries ih =>
      obtain ⟨other, value⟩ := first
      by_cases hother : other = key
      · subst hother
        rw [List.filter_cons_of_neg (by simp), ih, List.lookup_cons]
        by_cases hk : k = other
        · simp [hk]
        · simp [hk, beq_eq_false_iff_ne.mpr hk]
      · rw [List.filter_cons_of_pos (by simpa using hother), List.lookup_cons, List.lookup_cons, ih]
        by_cases hk : k = other
        · subst hk
          simp [hother]
        · simp [beq_eq_false_iff_ne.mpr hk]

/-- In every state that `good` accepts, writing to one of the files succeeds and leads to such a state.
The file has the new content then, and the other files keep the contents that they have. -/
def Storage.Accepts {σ : Type} [Storage σ] (good : σ → Prop) (files : DiskPath → Prop) : Prop :=
  ∀ s, good s → ∀ path, files path → ∀ content, ∃ s',
    Storage.write s path content = (.ok (), s') ∧ good s' ∧ Storage.readBytes s' path = .ok content
      ∧ ∀ other, files other → other ≠ path → ∀ found,
        Storage.readBytes s other = .ok found → Storage.readBytes s' other = .ok found

/-! ### File tables -/

namespace FileTable

variable {t : FileTable} {k k' : List Component} {content : List UInt8}

theorem get?_put (t : FileTable) (k : List Component) (entry : TableEntry) (k' : List Component) :
    (t.put k entry).get? k' = if k' = k then some entry else t.get? k' := by
  rw [get?, put, List.lookup_cons, lookup_filter_ne]
  by_cases hk : k' = k
  · simp [hk]
  · simp [hk, beq_eq_false_iff_ne.mpr hk, get?]

/-- Adding a name to a directory leaves the files alone. -/
theorem get?_link (h : t.get? k = some (.file content)) (parent child : List Component) :
    (t.link parent child).get? k = some (.file content) := by
  rw [link]
  split
  · rename_i children name hparent _
    split
    · exact h
    · rw [get?_put, if_neg, h]
      intro hk
      rw [hk, hparent] at h
      cases h
  · exact h

/-- Creating directories leaves the files alone. -/
theorem get?_ensureDir (h : t.get? k = some (.file content)) (above : List Component) :
    (t.ensureDir above).get? k = some (.file content) := by
  -- a directory is put where nothing was
  have hput : ∀ {t : FileTable} {k' : List Component}, t.get? k = some (.file content) →
      ¬ (t.get? k').isSome = true → (t.put k' (.dir [])).get? k = some (.file content) := by
    intro t k' h hfree
    rw [get?_put, if_neg, h]
    intro hk
    rw [← hk, h] at hfree
    exact hfree rfl
  induction above generalizing t with
  | nil =>
      rw [ensureDir]
      split
      · exact h
      · rename_i hfree
        exact hput h hfree
  | cons c above ih =>
      rw [ensureDir]
      dsimp only
      split
      · exact h
      · rename_i hfree
        split
        · exact hput h hfree
        · exact get?_link (ih (hput h hfree)) _ _

theorem content?_eq_some_iff {path : DiskPath} :
    t.content? path = some content ↔ t.get? (key path) = some (.file content) := by
  rw [content?]
  split
  · rename_i found hfound
    rw [hfound, Option.some.injEq, Option.some.injEq, TableEntry.file.injEq]
  · rename_i hnone
    constructor
    · intro h
      cases h
    · intro h
      exact absurd h (hnone content)

/-- A file is in the table after a write when it was put there or was there before. -/
theorem get?_addFile {path : DiskPath} {written : List UInt8}
    (h : (t.put (key path) (.file written)).get? k = some (.file content)) :
    (t.addFile path written).get? k = some (.file content) := by
  rw [addFile]
  split
  · exact get?_link (get?_ensureDir h _) _ _
  · exact h

theorem content?_addFile_self (t : FileTable) (path : DiskPath) (written : List UInt8) :
    (t.addFile path written).content? path = some written := by
  refine content?_eq_some_iff.mpr (get?_addFile ?_)
  rw [get?_put, if_pos rfl]

/-- Writing a file leaves the other files alone. -/
theorem content?_addFile_of_ne {path other : DiskPath} (hne : key other ≠ key path)
    (h : t.content? other = some content) (written : List UInt8) :
    (t.addFile path written).content? other = some content := by
  refine content?_eq_some_iff.mpr (get?_addFile ?_)
  rw [get?_put, if_neg hne]
  exact content?_eq_some_iff.mp h

theorem readBytes_eq_ok_iff {path : DiskPath} :
    Storage.readBytes t path = .ok content ↔ t.content? path = some content := by
  rw [Storage.readBytes]
  cases hfound : t.content? path with
  | none => simp [Storage.openFile, hfound]
  | some found => simp [Storage.openFile, hfound]

/-- A table takes whatever is written to files with different keys. -/
theorem accepts {files : DiskPath → Prop}
    (hkeys : ∀ path other, files path → files other → key path = key other → path = other) :
    Storage.Accepts (fun _ : FileTable => True) files := by
  intro t _ path hpath content
  refine ⟨t.addFile path content, rfl, trivial, ?_, ?_⟩
  · exact readBytes_eq_ok_iff.mpr (t.content?_addFile_self path content)
  · intro other hother hne found hfound
    refine readBytes_eq_ok_iff.mpr (content?_addFile_of_ne ?_ (readBytes_eq_ok_iff.mp hfound) content)
    intro hsame
    exact hne (hkeys other path hother hpath hsame)

end FileTable

end Rebuild
