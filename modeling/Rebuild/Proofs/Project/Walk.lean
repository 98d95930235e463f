import Mathlib.Logic.Relation
import Rebuild.Project.Matcher

/-!
# The walk of a scan

A scan walks through the directories below the root, and fails where it comes to one that cannot be listed.

* `Storage.Walk`, `Storage.Visits`: the walk through the directories below another one;
* `Storage.Bounded`: the walk ends after no more visits than there are entries;
* `Storage.visits_or_fails`: a bounded walk comes to every directory, or fails before;
* `Matcher.scan_eq_error_iff`: a scan fails where the walk comes to a directory that cannot be listed;
* `Matcher.exists_scan_eq_error_iff`: where walks are bounded, it succeeds only if all directories can be
  listed.
-/

namespace Rebuild

/-! ### The walk -/

namespace Storage

variable {σ : Type} [Storage σ] {s : σ} {root dir : DiskPath} {pending later : List DiskPath} {n : Nat}

/-- The directories that are left after visiting some of several directories, the first one next: each visit
lists a directory and puts those that are in it in front. -/
inductive Walk (s : σ) : List DiskPath → Nat → List DiskPath → Prop
  | rest (pending : List DiskPath) : Walk s pending 0 pending
  | visit {dir : DiskPath} {pending paths later : List DiskPath} {n : Nat}
      (listed : list s dir = .ok paths)
      (walk : Walk s ((paths.filter (isDir s)).reverse ++ pending) n later) :
      Walk s (dir :: pending) (n + 1) later

/-- The walk through a directory comes to another one, after no more visits than there are entries. -/
def Visits (s : σ) (root dir : DiskPath) : Prop :=
  ∃ n ≤ entryCount s, ∃ pending, Walk s [root] n (dir :: pending)

/-- A directory lies in another one, or below it. -/
def Below (s : σ) : DiskPath → DiskPath → Prop :=
  Relation.ReflTransGen fun dir sub => ∃ paths, list s dir = .ok paths ∧ sub ∈ paths ∧ isDir s sub = true

/-- The walk through a directory comes to none after more visits than there are entries. -/
def Bounded (s : σ) (root : DiskPath) : Prop :=
  ∀ n dir pending, Walk s [root] n (dir :: pending) → n ≤ entryCount s

/-- A walk does not leave a directory that cannot be listed. -/
theorem bounded_of_error {e : Error} (hfails : list s root = .error e) : Bounded s root := by
  intro n dir pending hwalk
  cases hwalk with
  | rest => exact Nat.zero_le _
  | visit listed _ =>
      rw [hfails] at listed
      cases listed

theorem Walk.eq_nil (h : Walk s [] n later) : later = [] := by
  cases h with
  | rest => rfl

theorem Walk.visitLast {rest paths : List DiskPath} (h : Walk s pending n (dir :: rest))
    (hlisted : list s dir = .ok paths) :
    Walk s pending (n + 1) ((paths.filter (isDir s)).reverse ++ rest) := by
  generalize hlater : dir :: rest = later at h
  induction h with
  | rest pending =>
      subst hlater
      exact .visit hlisted (.rest _)
  | visit listed _ ih => exact .visit listed (ih hlater)

/-- A walk that has come to its end came to everything below the directories that it started with. -/
theorem Walk.exists_visit (h : Walk s pending n []) {start : DiskPath} (hstart : start ∈ pending)
    (hbelow : Below s start dir) : ∃ k < n, ∃ rest, Walk s pending k (dir :: rest) := by
  generalize hlater : ([] : List DiskPath) = later at h
  induction h generalizing start with
  | rest pending =>
      subst hlater
      cases hstart
  | @visit first pending paths later n listed walk ih =>
      have hlast : ∀ {next : DiskPath}, next ∈ (paths.filter (isDir s)).reverse ++ pending →
          Below s next dir → ∃ k < n + 1, ∃ rest, Walk s (first :: pending) k (dir :: rest) := by
        intro next hnext hbelow
        obtain ⟨k, hk, rest, hwalk⟩ := ih hnext hbelow hlater
        exact ⟨k + 1, Nat.succ_lt_succ hk, rest, .visit listed hwalk⟩
      rcases List.mem_cons.mp hstart with rfl | hpending
      · rcases Relation.ReflTransGen.cases_head hbelow with rfl | ⟨sub, ⟨paths', hlisted, hmem, hdir⟩, hrest⟩
        · exact ⟨0, Nat.succ_pos n, pending, .rest _⟩
        · rw [listed] at hlisted
          cases hlisted
          have hnext := List.mem_reverse.mpr (List.mem_filter.mpr ⟨hmem, hdir⟩)
          exact hlast (List.mem_append_left _ hnext) hrest
      · exact hlast (List.mem_append_right _ hpending) hbelow

/-- The walk stays below the directories that it started with. -/
theorem Walk.exists_below (h : Walk s pending n later) {next : DiskPath} (hnext : next ∈ later) :
    ∃ start ∈ pending, Below s start next := by
  induction h with
  | rest pending => exact ⟨next, hnext, .refl⟩
  | @visit first pending paths later n listed _ ih =>
      obtain ⟨start, hstart, hbelow⟩ := ih hnext
      rcases List.mem_append.mp hstart with hsub | hpending
      · obtain ⟨hmem, hdir⟩ := List.mem_filter.mp (List.mem_reverse.mp hsub)
        exact ⟨first, List.mem_cons_self, .head ⟨paths, listed, hmem, hdir⟩ hbelow⟩
      · exact ⟨start, List.mem_cons_of_mem _ hpending, hbelow⟩

theorem Visits.below (h : Visits s root dir) : Below s root dir := by
  obtain ⟨_, _, _, hwalk⟩ := h
  obtain ⟨start, hstart, hbelow⟩ := hwalk.exists_below List.mem_cons_self
  exact List.mem_singleton.mp hstart ▸ hbelow

/-- **The walk comes everywhere.**  Where walks are bounded, the walk comes to each directory below the one
that it started in, unless it fails before. -/
theorem visits_or_fails (hbounded : Bounded s root) (hbelow : Below s root dir) :
    Visits s root dir ∨ ∃ other e, Visits s root other ∧ list s other = .error e := by
  by_cases hfails : ∃ other e, Visits s root other ∧ list s other = .error e
  · exact .inr hfails
  · left
    -- no visit fails, so a walk of any length goes on until it ends
    have hgoes : ∀ n, (∃ m, Walk s [root] m []) ∨ ∃ next rest, Walk s [root] n (next :: rest) := by
      intro n
      induction n with
      | zero => exact .inr ⟨root, [], .rest _⟩
      | succ n ih =>
          rcases ih with hended | ⟨next, rest, hwalk⟩
          · exact .inl hended
          · cases hlisted : list s next with
            | error e => exact absurd ⟨next, e, ⟨n, hbounded _ _ _ hwalk, rest, hwalk⟩, hlisted⟩ hfails
            | ok paths =>
                have hnext := hwalk.visitLast hlisted
                cases hlater : (paths.filter (isDir s)).reverse ++ rest with
                | nil =>
                    rw [hlater] at hnext
                    exact .inl ⟨_, hnext⟩
                | cons later rest =>
                    rw [hlater] at hnext
                    exact .inr ⟨later, rest, hnext⟩
    rcases hgoes (entryCount s + 1) with ⟨m, hended⟩ | ⟨next, rest, hwalk⟩
    · obtain ⟨k, _, rest, hwalk⟩ := hended.exists_visit List.mem_cons_self hbelow
      exact ⟨k, hbounded _ _ _ hwalk, rest, hwalk⟩
    · exact absurd (hbounded _ _ _ hwalk) (Nat.not_succ_le_self _)

end Storage

namespace Matcher

variable {σ : Type} [Storage σ] {s : σ} {root : DiskPath} {e : Error}

theorem scanFrom_eq_error_iff (m : Matcher) (fuel : Nat) (pending : List DiskPath) (found : List UnitPath) :
    m.scanFrom s root fuel pending found = .error e
      ↔ ∃ n < fuel, ∃ dir rest, Storage.Walk s pending n (dir :: rest) ∧ Storage.list s dir = .error e := by
  induction fuel generalizing pending found with
  | zero => simp [scanFrom]
  | succ fuel ih =>
      cases pending with
      | nil =>
          constructor
          · intro h
            cases h
          · rintro ⟨n, _, dir, rest, hwalk, _⟩
            cases hwalk.eq_nil
      | cons dir pending =>
          cases hlist : Storage.list s dir with
          | error e' =>
              rw [scanFrom, hlist]
              constructor
              · intro h
                cases h
                exact ⟨0, Nat.succ_pos fuel, dir, pending, .rest _, hlist⟩
              · rintro ⟨n, _, dir', rest, hwalk, hfails⟩
                cases hwalk with
                | rest => exact hlist.symm.trans hfails
                | visit listed _ =>
                    rw [hlist] at listed
                    cases listed
          | ok paths =>
              rw [scanFrom, hlist]
              refine (ih _ _).trans ?_
              constructor
              · rintro ⟨n, hn, dir', rest, hwalk, hfails⟩
                exact ⟨n + 1, Nat.succ_lt_succ hn, dir', rest, .visit hlist hwalk, hfails⟩
              · rintro ⟨n, hn, dir', rest, hwalk, hfails⟩
                cases hwalk with
                | rest =>
                    rw [hlist] at hfails
                    cases hfails
                | visit listed walk =>
                    rw [hlist] at listed
                    cases listed
                    exact ⟨_, Nat.lt_of_succ_lt_succ hn, dir', rest, walk, hfails⟩

/-- **Where a scan fails.**  The failure is that of the directory that the walk comes to and cannot list. -/
theorem scan_eq_error_iff (m : Matcher) :
    m.scan s root = .error e ↔ ∃ dir, Storage.Visits s root dir ∧ Storage.list s dir = .error e := by
  have hmap : m.scan s root = .error e
      ↔ m.scanFrom s root (Storage.entryCount s + 1) [root] [] = .error e := by
    rw [scan]
    cases m.scanFrom s root (Storage.entryCount s + 1) [root] [] with
    | error e' => simp [Except.map]
    | ok units => simp [Except.map]
  rw [hmap, scanFrom_eq_error_iff]
  constructor
  · rintro ⟨n, hn, dir, rest, hwalk, hfails⟩
    exact ⟨dir, ⟨n, Nat.le_of_lt_succ hn, rest, hwalk⟩, hfails⟩
  · rintro ⟨dir, ⟨n, hn, rest, hwalk⟩, hfails⟩
    exact ⟨n, Nat.lt_succ_of_le hn, dir, rest, hwalk, hfails⟩

/-- **A scan fails at any depth.**  Where walks are bounded, it succeeds only if all directories below the
root can be listed. -/
theorem exists_scan_eq_error_iff (m : Matcher) (hbounded : Storage.Bounded s root) :
    (∃ e, m.scan s root = .error e) ↔ ∃ dir e, Storage.Below s root dir ∧ Storage.list s dir = .error e := by
  simp only [scan_eq_error_iff]
  constructor
  · rintro ⟨e, dir, hvisit, hlist⟩
    exact ⟨dir, e, hvisit.below, hlist⟩
  · rintro ⟨dir, e, hbelow, hlist⟩
    rcases Storage.visits_or_fails hbounded hbelow with hvisit | ⟨other, e', hvisit, hfails⟩
    · exact ⟨e, dir, hvisit, hlist⟩
    · exact ⟨e', other, hvisit, hfails⟩

end Matcher

end Rebuild
