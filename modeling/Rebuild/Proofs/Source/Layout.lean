import Rebuild.Proofs.Source.Lines

/-!
# The layout of a line

Which blanks stand between the parts of an export makes no difference to what it says, and neither does a
semicolon at its end.

* `Source.Alike`: two texts that differ in their layout only;
* `Source.Alike.declared?_eq`: a declared export is read from both or from neither;
* `Source.Alike.classify_iff`: and so it is as a line.
-/

namespace Rebuild

/-! ### Blanks -/

namespace Text

variable {c : Char} {cs xs ys : List Char}

theorem trimStart_cons_of_blank (hc : isBlank c = true) (cs : List Char) : trimStart (c :: cs) = trimStart cs := by
  rw [trimStart, List.dropWhile_cons_of_pos hc, trimStart]

theorem trimStart_cons_of_not_blank (hc : isBlank c = false) (cs : List Char) : trimStart (c :: cs) = c :: cs := by
  rw [trimStart, List.dropWhile_cons_of_neg (by simp [hc])]

theorem trimStart_trimStart (cs : List Char) : trimStart (trimStart cs) = trimStart cs := by
  induction cs with
  | nil => rfl
  | cons c cs ih =>
      cases hc : isBlank c with
      | true => rw [trimStart_cons_of_blank hc, ih]
      | false => rw [trimStart_cons_of_not_blank hc, trimStart_cons_of_not_blank hc]

theorem isEmpty_trimStart (cs : List Char) : (trimStart cs).isEmpty = cs.all isBlank := by
  induction cs with
  | nil => rfl
  | cons c cs ih =>
      cases hc : isBlank c with
      | true => rw [trimStart_cons_of_blank hc, ih, List.all_cons, hc, Bool.true_and]
      | false => rw [trimStart_cons_of_not_blank hc, List.all_cons, hc]; rfl

theorem trimStart_append_of_blank (hcs : ∀ c ∈ cs, isBlank c = true) (ys : List Char) :
    trimStart (cs ++ ys) = trimStart ys := by
  rw [trimStart, List.dropWhile_append_of_pos hcs, trimStart]

/-- Blanks at the end stay when there is something before them. -/
theorem trimEnd_cons (c : Char) (cs : List Char) :
    trimEnd (c :: cs) = if isBlank c && (trimEnd cs).isEmpty then [] else c :: trimEnd cs := by
  rw [trimEnd, trimEnd, List.reverse_cons, List.dropWhile_append]
  cases hrest : cs.reverse.dropWhile isBlank with
  | nil => cases hc : isBlank c <;> simp [hc]
  | cons d ds => simp

theorem trimEnd_eq_nil_iff : trimEnd cs = [] ↔ cs.all isBlank = true := by
  induction cs with
  | nil => exact Iff.intro (fun _ => rfl) fun _ => rfl
  | cons c cs ih =>
      rw [trimEnd_cons]
      split
      · rename_i hboth
        rw [Bool.and_eq_true, List.isEmpty_iff] at hboth
        rw [List.all_cons, Bool.and_eq_true, ← ih]
        exact Iff.intro (fun _ => hboth) fun _ => rfl
      · rename_i hsome
        rw [Bool.and_eq_true, List.isEmpty_iff] at hsome
        rw [List.all_cons, Bool.and_eq_true, ← ih]
        exact Iff.intro nofun fun hboth => absurd hboth hsome

theorem wordsFrom_cons_of_blank {word : List Char} (hc : isBlank c = true) (cs : List Char) :
    wordsFrom word (c :: cs) = if word.isEmpty then wordsFrom [] cs else word.reverse :: wordsFrom [] cs := by
  rw [wordsFrom, if_pos hc]

/-- Blanks are no part of a word. -/
theorem wordsFrom_of_blank {word : List Char} (hcs : ∀ c ∈ cs, isBlank c = true) :
    wordsFrom word cs = wordsFrom word [] := by
  induction cs generalizing word with
  | nil => rfl
  | cons c cs ih =>
      have hnone : wordsFrom [] cs = wordsFrom [] [] := ih fun d hd => hcs d (List.mem_cons_of_mem _ hd)
      rw [wordsFrom_cons_of_blank (hcs c List.mem_cons_self), hnone]
      cases word <;> rfl

end Text

namespace Source

open Text (isBlank trimStart trimEnd words wordsFrom)

variable {c : Char} {w cs xs ys run run' : List Char}

/-! ### The end of a line -/

theorem dropSemicolon_cons_of_ne (hc : c ≠ ';') (cs : List Char) : dropSemicolon (c :: cs) = c :: cs := by
  rw [dropSemicolon.eq_def]
  split
  · rename_i heq
    exact absurd (List.cons.inj heq).1 hc
  · rfl

theorem isLineEnd_trimStart (cs : List Char) : isLineEnd (trimStart cs) = isLineEnd cs := by
  rw [isLineEnd, isLineEnd, Text.trimStart_trimStart]

theorem isLineEnd_cons_of_blank (hc : isBlank c = true) (cs : List Char) : isLineEnd (c :: cs) = isLineEnd cs := by
  rw [isLineEnd, Text.trimStart_cons_of_blank hc, isLineEnd]

theorem isLineEnd_cons_of_not_blank (hc : isBlank c = false) (cs : List Char) :
    isLineEnd (c :: cs) = (c == ';' && cs.all isBlank) := by
  rw [isLineEnd, Text.trimStart_cons_of_not_blank hc]
  by_cases hsemicolon : c = ';'
  · rw [hsemicolon, dropSemicolon, Text.isEmpty_trimStart]
    rfl
  · rw [dropSemicolon_cons_of_ne hsemicolon, Text.trimStart_cons_of_not_blank hc,
      beq_eq_false_iff_ne.mpr hsemicolon]
    rfl

/-- What the end of a line starts with. -/
theorem head_of_isLineEnd (hend : isLineEnd (c :: cs) = true) : isBlank c = true ∨ c = ';' := by
  cases hc : isBlank c with
  | true => exact .inl rfl
  | false =>
      rw [isLineEnd_cons_of_not_blank hc, Bool.and_eq_true, beq_iff_eq] at hend
      exact .inr hend.1

/-! ### Texts that differ in their layout -/

/-- Two texts that differ in their layout only: runs of blanks are made of different blanks, and there may be
more or fewer blanks at the end, or a semicolon. -/
inductive Alike : List Char → List Char → Prop
  | ends {xs ys : List Char} (hxs : isLineEnd xs = true) (hys : isLineEnd ys = true) : Alike xs ys
  | same {c : Char} {xs ys : List Char} (hc : isBlank c = false) (hxs : isLineEnd (c :: xs) = false)
      (hys : isLineEnd (c :: ys) = false) (rest : Alike xs ys) : Alike (c :: xs) (c :: ys)
  | blanks {b b' : Char} {xs ys : List Char} (hb : isBlank b = true) (hb' : isBlank b' = true)
      (hxs : isLineEnd (b :: xs) = false) (hys : isLineEnd (b' :: ys) = false)
      (rest : Alike (trimStart xs) (trimStart ys)) : Alike (b :: xs) (b' :: ys)

namespace Alike

theorem isLineEnd_eq (h : Alike xs ys) : isLineEnd xs = isLineEnd ys := by
  cases h with
  | ends hxs hys => rw [hxs, hys]
  | same _ hxs hys _ => rw [hxs, hys]
  | blanks _ _ hxs hys _ => rw [hxs, hys]

theorem trimStart (h : Alike xs ys) : Alike (trimStart xs) (trimStart ys) := by
  cases h with
  | ends hxs hys => exact .ends (by rw [isLineEnd_trimStart, hxs]) (by rw [isLineEnd_trimStart, hys])
  | same hc hxs hys rest =>
      rw [Text.trimStart_cons_of_not_blank hc, Text.trimStart_cons_of_not_blank hc]
      exact .same hc hxs hys rest
  | blanks hb hb' _ _ rest => rwa [Text.trimStart_cons_of_blank hb, Text.trimStart_cons_of_blank hb']

/-- The same character in front leaves texts alike, unless it makes an end of a line of one of them. -/
theorem cons (h : Alike xs ys) (hends : isLineEnd (c :: xs) = isLineEnd (c :: ys)) : Alike (c :: xs) (c :: ys) := by
  cases hxs : isLineEnd (c :: xs) with
  | true => exact .ends hxs (hends ▸ hxs)
  | false =>
      have hys : isLineEnd (c :: ys) = false := hends ▸ hxs
      cases hc : isBlank c with
      | true => exact .blanks hc hc hxs hys h.trimStart
      | false => exact .same hc hxs hys h

theorem refl (xs : List Char) : Alike xs xs := by
  induction xs with
  | nil => exact .ends rfl rfl
  | cons c xs ih => exact ih.cons rfl

/-- In front of texts that have the same blanks or not, a character makes an end of a line of both or none. -/
theorem cons_of_all_eq (h : Alike xs ys) (hall : xs.all isBlank = ys.all isBlank) :
    Alike (c :: xs) (c :: ys) := by
  refine h.cons ?_
  cases hc : isBlank c with
  | true => rw [isLineEnd_cons_of_blank hc, isLineEnd_cons_of_blank hc, h.isLineEnd_eq]
  | false => rw [isLineEnd_cons_of_not_blank hc, isLineEnd_cons_of_not_blank hc, hall]

/-- **Other blanks.** -/
theorem replace_blanks (before after : List Char) (hrun : run ≠ []) (hrun' : run' ≠ [])
    (hblank : ∀ c ∈ run, isBlank c = true) (hblank' : ∀ c ∈ run', isBlank c = true) :
    Alike (before ++ run ++ after) (before ++ run' ++ after) := by
  induction before with
  | nil =>
      obtain ⟨b, r, rfl⟩ := List.exists_cons_of_ne_nil hrun
      obtain ⟨b', r', rfl⟩ := List.exists_cons_of_ne_nil hrun'
      rw [List.forall_mem_cons] at hblank hblank'
      have hend : isLineEnd (b :: (r ++ after)) = isLineEnd after := by
        rw [isLineEnd_cons_of_blank hblank.1, ← isLineEnd_trimStart, Text.trimStart_append_of_blank hblank.2,
          isLineEnd_trimStart]
      have hend' : isLineEnd (b' :: (r' ++ after)) = isLineEnd after := by
        rw [isLineEnd_cons_of_blank hblank'.1, ← isLineEnd_trimStart, Text.trimStart_append_of_blank hblank'.2,
          isLineEnd_trimStart]
      show Alike (b :: (r ++ after)) (b' :: (r' ++ after))
      cases hafter : isLineEnd after with
      | true => exact .ends (hend.trans hafter) (hend'.trans hafter)
      | false =>
          refine .blanks hblank.1 hblank'.1 (hend.trans hafter) (hend'.trans hafter) ?_
          rw [Text.trimStart_append_of_blank hblank.2, Text.trimStart_append_of_blank hblank'.2]
          exact refl _
  | cons c before ih =>
      refine ih.cons_of_all_eq ?_
      simp only [List.all_append, List.all_eq_true.mpr hblank, List.all_eq_true.mpr hblank']

/-- **More blanks at the end.** -/
theorem append_blanks (xs : List Char) (hblank : ∀ c ∈ run, isBlank c = true) : Alike xs (xs ++ run) := by
  induction xs with
  | nil =>
      refine .ends rfl ?_
      rw [List.nil_append, ← List.append_nil run, ← isLineEnd_trimStart, Text.trimStart_append_of_blank hblank]
      rfl
  | cons c xs ih =>
      refine ih.cons_of_all_eq ?_
      rw [List.all_append, List.all_eq_true.mpr hblank, Bool.and_true]

/-- **A semicolon at the end**, where there is none, with blanks around it. -/
theorem append_semicolon (xs : List Char) (hnone : (trimEnd xs).getLast? ≠ some ';')
    (hblank : ∀ c ∈ run, isBlank c = true) (hblank' : ∀ c ∈ run', isBlank c = true) :
    Alike xs (xs ++ run ++ ';' :: run') := by
  have hsemicolon : isBlank ';' = false := by decide
  rw [List.append_assoc]
  induction xs with
  | nil =>
      refine .ends rfl ?_
      rw [List.nil_append, ← isLineEnd_trimStart, Text.trimStart_append_of_blank hblank, isLineEnd_trimStart,
        isLineEnd_cons_of_not_blank hsemicolon, List.all_eq_true.mpr hblank']
      rfl
  | cons c xs ih =>
      have hrest : (trimEnd xs).getLast? ≠ some ';' := by
        intro hlast
        refine hnone ?_
        rw [Text.trimEnd_cons]
        cases hxs : trimEnd xs with
        | nil => rw [hxs] at hlast; cases hlast
        | cons d ds =>
            rw [hxs] at hlast
            simpa [List.getLast?_cons_cons] using hlast
      refine (ih hrest).cons ?_
      cases hc : isBlank c with
      | true => rw [isLineEnd_cons_of_blank hc, isLineEnd_cons_of_blank hc, (ih hrest).isLineEnd_eq]
      | false =>
          have hmore : (xs ++ (run ++ ';' :: run')).all isBlank = false := by
            simp only [List.all_append, List.all_cons, hsemicolon, Bool.false_and, Bool.and_false]
          rw [isLineEnd_cons_of_not_blank hc, isLineEnd_cons_of_not_blank hc, hmore, Bool.and_false]
          -- a semicolon with nothing but blanks behind it is one at the end
          refine Bool.eq_false_iff.mpr fun hend => hnone ?_
          rw [Bool.and_eq_true, beq_iff_eq] at hend
          obtain ⟨rfl, hxs⟩ := hend
          rw [Text.trimEnd_cons, hc, Text.trimEnd_eq_nil_iff.mpr hxs]
          rfl

end Alike

/-! ### Reading texts that are alike -/

theorem isNamePart_eq_false (hc : isBlank c = true ∨ c = ';') : isNamePart c = false := by
  have hbounds : ('a'.val.toNat = 97 ∧ 'z'.val.toNat = 122) ∧ ('A'.val.toNat = 65 ∧ 'Z'.val.toNat = 90)
      ∧ '0'.val.toNat = 48 ∧ '9'.val.toNat = 57 := by decide
  rcases hc with hblank | rfl
  · refine Bool.eq_false_iff.mpr fun hpart => ?_
    simp only [isNamePart, isNameStart, Bool.or_eq_true, Bool.and_eq_true, decide_eq_true_eq, beq_iff_eq,
      Char.le_def, UInt32.le_iff_toNat_le] at hpart
    have hunderscore : c ≠ '_' := by
      rintro rfl
      exact absurd hblank (by decide)
    simp only [isBlank, Text.inRanges, Text.blankRanges, List.any_cons, List.any_nil, Bool.or_eq_true,
      Bool.and_eq_true, decide_eq_true_eq, Char.toNat, Bool.false_eq_true, or_false] at hblank
    rcases hpart with ((hlower | hupper) | hother) | hdigit
    · omega
    · omega
    · exact hunderscore hother
    · omega
  · rfl

theorem isNameStart_eq_false (hc : isBlank c = true ∨ c = ';') : isNameStart c = false := by
  have hpart := isNamePart_eq_false hc
  rw [isNamePart, Bool.or_eq_false_iff] at hpart
  exact hpart.1

/-- A word without blanks and semicolons. -/
def Solid (w : List Char) : Prop :=
  ∀ c ∈ w, isBlank c = false ∧ c ≠ ';'

theorem solid_of_all (hall : w.all (fun c => !isBlank c && c != ';') = true) : Solid w := by
  simpa [Solid] using hall

/-- No word starts at the end of a line. -/
theorem word?_of_isLineEnd (hc : isBlank c = false ∧ c ≠ ';') (hend : isLineEnd cs = true) :
    word? (c :: w) cs = none := by
  cases cs with
  | nil => rfl
  | cons d cs =>
      rw [word?, if_neg]
      rintro rfl
      rcases head_of_isLineEnd hend with hblank | hsemicolon
      · rw [hc.1] at hblank
        cases hblank
      · exact hc.2 hsemicolon

theorem span_of_isLineEnd {p : Char → Bool} (hp : ∀ c, isBlank c = true ∨ c = ';' → p c = false)
    (hend : isLineEnd cs = true) : cs.takeWhile p = [] ∧ cs.dropWhile p = cs := by
  cases cs with
  | nil => exact ⟨rfl, rfl⟩
  | cons c cs =>
      have hc := hp c (head_of_isLineEnd hend)
      rw [List.takeWhile_cons_of_neg (by simp [hc]), List.dropWhile_cons_of_neg (by simp [hc])]
      exact ⟨rfl, rfl⟩

theorem kind?_of_isLineEnd (hend : isLineEnd cs = true) : kind? cs = none := by
  rw [kind?, (span_of_isLineEnd (fun _ => isNameStart_eq_false) hend).1]
  rfl

theorem name?_of_isLineEnd (hend : isLineEnd cs = true) : name? cs = none := by
  cases cs with
  | nil => rfl
  | cons c cs => rw [name?, isNameStart_eq_false (head_of_isLineEnd hend)]; rfl

theorem dropWhile_quote_cons (c : Char) (cs : List Char) :
    (c :: cs).dropWhile (· != '"') = if c = '"' then c :: cs else cs.dropWhile (· != '"') := by
  by_cases hc : c = '"'
  · rw [if_pos hc, hc]
    rfl
  · rw [if_neg hc, List.dropWhile_cons, if_pos (by simpa using hc)]

theorem dropWhile_quote_trimStart (cs : List Char) :
    (trimStart cs).dropWhile (· != '"') = cs.dropWhile (· != '"') := by
  induction cs with
  | nil => rfl
  | cons c cs ih =>
      cases hc : isBlank c with
      | false => rw [Text.trimStart_cons_of_not_blank hc]
      | true =>
          have hquote : c ≠ '"' := by
            rintro rfl
            exact absurd hc (by decide)
          rw [Text.trimStart_cons_of_blank hc, ih, dropWhile_quote_cons, if_neg hquote]

/-- There is no quote at the end of a line. -/
theorem dropWhile_quote_of_isLineEnd (hend : isLineEnd cs = true) : cs.dropWhile (· != '"') = [] := by
  have hblank : ∀ cs : List Char, cs.all isBlank = true → cs.dropWhile (· != '"') = [] := by
    intro cs hcs
    rw [← dropWhile_quote_trimStart, List.isEmpty_iff.mp ((Text.isEmpty_trimStart cs).trans hcs)]
    rfl
  induction cs with
  | nil => rfl
  | cons c cs ih =>
      cases hc : isBlank c with
      | true =>
          rw [isLineEnd_cons_of_blank hc] at hend
          rw [← dropWhile_quote_trimStart, Text.trimStart_cons_of_blank hc, dropWhile_quote_trimStart, ih hend]
      | false =>
          rw [isLineEnd_cons_of_not_blank hc, Bool.and_eq_true, beq_iff_eq] at hend
          rw [dropWhile_quote_cons, hend.1, if_neg (by decide), hblank cs hend.2]

/-- What is read from both of two texts, after something else. -/
theorem rel_bind {α β : Type} {r : α → α → Prop} {q : β → β → Prop} {x y : Option α} {f g : α → Option β}
    (h : Option.Rel r x y) (hfg : ∀ a b, r a b → Option.Rel q (f a) (g b)) :
    Option.Rel q (x.bind f) (y.bind g) := by
  cases h with
  | some hab => exact hfg _ _ hab
  | none => exact .none

theorem eq_of_rel {α : Type} {x y : Option α} (h : Option.Rel Eq x y) : x = y := by
  cases h with
  | some heq => rw [heq]
  | none => rfl

theorem isSome_eq_of_rel {α β : Type} {r : α → β → Prop} {x : Option α} {y : Option β} (h : Option.Rel r x y) :
    x.isSome = y.isSome := by
  cases h with
  | some _ => rfl
  | none => rfl

/-- The same is read, and what is left is alike. -/
def SameRest (p q : List Char × List Char) : Prop :=
  p.1 = q.1 ∧ Alike p.2 q.2

namespace Alike

theorem word? (hw : Solid w) (h : Alike xs ys) :
    Option.Rel Alike (word? w xs) (word? w ys) := by
  induction w generalizing xs ys with
  | nil => exact .some h
  | cons d w ih =>
      rw [Solid, List.forall_mem_cons] at hw
      cases h with
      | ends hxs hys =>
          rw [word?_of_isLineEnd hw.1 hxs, word?_of_isLineEnd hw.1 hys]
          exact .none
      | @same c xs ys _ _ _ rest =>
          rw [Source.word?, Source.word?]
          split
          · exact ih hw.2 rest
          · exact .none
      | @blanks b b' xs ys hb hb' _ _ _ =>
          have hne : ∀ {b}, isBlank b = true → d ≠ b := by
            rintro b hb rfl
            rw [hw.1.1] at hb
            cases hb
          rw [Source.word?, Source.word?, if_neg (hne hb), if_neg (hne hb')]
          exact .none

/-- Nothing that is read behind blanks starts at the end of a line. -/
theorem blanks?_bind {α : Type} {q : α → α → Prop} {f : List Char → Option α}
    (hend : ∀ cs, isLineEnd cs = true → f cs = none)
    (hf : ∀ xs ys, Alike xs ys → Option.Rel q (f xs) (f ys)) (h : Alike xs ys) :
    Option.Rel q ((blanks? xs).bind f) ((blanks? ys).bind f) := by
  have hnone : ∀ cs, isLineEnd cs = true → (blanks? cs).bind f = none := by
    intro cs hcs
    cases cs with
    | nil => rfl
    | cons c cs =>
        rw [blanks?]
        split
        · rename_i hc
          rw [isLineEnd_cons_of_blank hc, ← isLineEnd_trimStart] at hcs
          exact hend _ hcs
        · rfl
  cases h with
  | ends hxs hys =>
      rw [hnone _ hxs, hnone _ hys]
      exact .none
  | same hc _ _ _ =>
      rw [blanks?, blanks?, if_neg (by simp [hc]), if_neg (by simp [hc])]
      exact .none
  | blanks hb hb' _ _ rest =>
      rw [blanks?, blanks?, if_pos hb, if_pos hb']
      exact hf _ _ rest

theorem span {p : Char → Bool} (hp : ∀ c, isBlank c = true ∨ c = ';' → p c = false) (h : Alike xs ys) :
    xs.takeWhile p = ys.takeWhile p ∧ Alike (xs.dropWhile p) (ys.dropWhile p) := by
  induction h with
  | ends hxs hys =>
      obtain ⟨htake, hdrop⟩ := span_of_isLineEnd hp hxs
      obtain ⟨htake', hdrop'⟩ := span_of_isLineEnd hp hys
      rw [htake, htake', hdrop, hdrop']
      exact ⟨rfl, .ends hxs hys⟩
  | @same c xs ys hc hxs hys rest ih =>
      cases hpc : p c with
      | true =>
          simp only [List.takeWhile_cons_of_pos hpc, List.dropWhile_cons_of_pos hpc, ih.1]
          exact ⟨trivial, ih.2⟩
      | false =>
          have hneg : ¬ p c = true := by simp [hpc]
          simp only [List.takeWhile_cons_of_neg hneg, List.dropWhile_cons_of_neg hneg]
          exact ⟨trivial, .same hc hxs hys rest⟩
  | @blanks b b' xs ys hb hb' hxs hys rest _ =>
      have hneg : ¬ p b = true := by simp [hp b (.inl hb)]
      have hneg' : ¬ p b' = true := by simp [hp b' (.inl hb')]
      rw [List.takeWhile_cons_of_neg hneg, List.takeWhile_cons_of_neg hneg', List.dropWhile_cons_of_neg hneg,
        List.dropWhile_cons_of_neg hneg']
      exact ⟨rfl, .blanks hb hb' hxs hys rest⟩

theorem kind? (h : Alike xs ys) : Option.Rel SameRest (kind? xs) (kind? ys) := by
  obtain ⟨htake, hdrop⟩ := h.span fun _ => isNameStart_eq_false
  rw [Source.kind?, Source.kind?, htake]
  split
  · exact .none
  · exact .some ⟨rfl, hdrop⟩

theorem name? (h : Alike xs ys) : Option.Rel SameRest (name? xs) (name? ys) := by
  cases h with
  | ends hxs hys =>
      rw [name?_of_isLineEnd hxs, name?_of_isLineEnd hys]
      exact .none
  | @same c xs ys _ _ _ rest =>
      obtain ⟨htake, hdrop⟩ := rest.span fun _ => isNamePart_eq_false
      rw [Source.name?, Source.name?, htake]
      split
      · exact .some ⟨rfl, hdrop⟩
      · exact .none
  | blanks hb hb' _ _ _ =>
      rw [Source.name?, Source.name?, isNameStart_eq_false (.inl hb), isNameStart_eq_false (.inl hb')]
      exact .none

/-- Quoted texts may differ in their blanks, but they end at the same place. -/
theorem dropWhile_quote (h : Alike xs ys) :
    Alike (xs.dropWhile (· != '"')) (ys.dropWhile (· != '"')) := by
  induction h with
  | ends hxs hys =>
      rw [dropWhile_quote_of_isLineEnd hxs, dropWhile_quote_of_isLineEnd hys]
      exact refl _
  | @same c xs ys hc hxs hys rest ih =>
      rw [dropWhile_quote_cons, dropWhile_quote_cons]
      split
      · exact .same hc hxs hys rest
      · exact ih
  | @blanks b b' xs ys hb hb' _ _ _ ih =>
      rwa [← dropWhile_quote_trimStart (b :: xs), ← dropWhile_quote_trimStart (b' :: ys),
        Text.trimStart_cons_of_blank hb, Text.trimStart_cons_of_blank hb']

/-- Both quoted texts are empty, or none is. -/
theorem isEmpty_takeWhile_quote (h : Alike xs ys) (hxs : isLineEnd xs = false) :
    (xs.takeWhile (· != '"')).isEmpty = (ys.takeWhile (· != '"')).isEmpty := by
  have hquote : ∀ {b}, isBlank b = true → (b != '"') = true := by
    intro b hb
    rw [bne_iff_ne]
    rintro rfl
    exact absurd hb (by decide)
  cases h with
  | ends hxs' _ => exact absurd hxs' (by simp [hxs])
  | @same c xs ys _ _ _ _ =>
      rw [List.takeWhile_cons, List.takeWhile_cons]
      split
      · rfl
      · rfl
  | @blanks b b' xs ys hb hb' _ _ _ =>
      rw [List.takeWhile_cons, List.takeWhile_cons, if_pos (hquote hb), if_pos (hquote hb')]
      rfl

theorem quoted? (h : Alike xs ys) :
    Option.Rel (fun p q => Alike p.2 q.2) (quoted? xs) (quoted? ys) := by
  have hquote : Solid ['"'] := solid_of_all rfl
  refine rel_bind (h.word? hquote) fun xs ys hinner => ?_
  cases hxs : isLineEnd xs with
  | true =>
      have hys : isLineEnd ys = true := hinner.isLineEnd_eq ▸ hxs
      simp only [dropWhile_quote_of_isLineEnd hxs, dropWhile_quote_of_isLineEnd hys]
      exact .none
  | false =>
      refine rel_bind (hinner.dropWhile_quote.word? hquote) fun rest rest' hrest => ?_
      rw [hinner.isEmpty_takeWhile_quote hxs]
      split
      · exact .none
      · exact .some hrest

end Alike

/-! ### Shapes -/

/-- The rest of a declared export without blanks and a semicolon at its end. -/
def body (cs : List Char) : List Char :=
  (dropSemicolon (trimEnd cs).reverse).reverse

theorem shapeOf_eq (cs : List Char) : shapeOf cs = Text.join [' '] (words (body cs)) := rfl

theorem dropSemicolon_append (hcs : cs ≠ []) (xs : List Char) :
    dropSemicolon (cs ++ xs) = dropSemicolon cs ++ xs := by
  obtain ⟨c, cs, rfl⟩ := List.exists_cons_of_ne_nil hcs
  by_cases hc : c = ';'
  · rw [hc]
    rfl
  · rw [List.cons_append, dropSemicolon_cons_of_ne hc, dropSemicolon_cons_of_ne hc]
    rfl

/-- A character before something else stays. -/
theorem body_cons_of_trimEnd_ne (hrest : trimEnd cs ≠ []) (c : Char) : body (c :: cs) = c :: body cs := by
  have hends : (isBlank c && (trimEnd cs).isEmpty) = false := by
    rw [List.isEmpty_eq_false_iff.mpr hrest, Bool.and_false]
  rw [body, body, Text.trimEnd_cons, hends, if_neg Bool.false_ne_true, List.reverse_cons,
    dropSemicolon_append (by simpa using hrest), List.reverse_append]
  rfl

theorem body_of_trimEnd_eq_nil (hcs : trimEnd cs = []) : body cs = [] := by
  rw [body, hcs]
  rfl

theorem body_cons (hend : isLineEnd (c :: cs) = false) : body (c :: cs) = c :: body cs := by
  by_cases hrest : trimEnd cs = []
  · have hall := Text.trimEnd_eq_nil_iff.mp hrest
    have hblank : isBlank c = false := by
      refine Bool.eq_false_iff.mpr fun hc => ?_
      rw [isLineEnd_cons_of_blank hc, isLineEnd,
        List.isEmpty_iff.mp ((Text.isEmpty_trimStart cs).trans hall)] at hend
      cases hend
    rw [isLineEnd_cons_of_not_blank hblank, hall, Bool.and_true, beq_eq_false_iff_ne] at hend
    rw [body_of_trimEnd_eq_nil hrest, body, Text.trimEnd_cons, hblank, hrest, Bool.false_and,
      if_neg Bool.false_ne_true, List.reverse_singleton, dropSemicolon_cons_of_ne hend]
    rfl
  · exact body_cons_of_trimEnd_ne hrest c

/-- Nothing but blanks is before a semicolon that ends a line. -/
theorem blank_of_mem_body (hend : isLineEnd cs = true) : ∀ c ∈ body cs, isBlank c = true := by
  induction cs with
  | nil => nofun
  | cons c cs ih =>
      cases hc : isBlank c with
      | true =>
          rw [isLineEnd_cons_of_blank hc] at hend
          by_cases hrest : trimEnd cs = []
          · have hnil : trimEnd (c :: cs) = [] := by rw [Text.trimEnd_cons, hc, hrest]; rfl
            rw [body_of_trimEnd_eq_nil hnil]
            nofun
          · rw [body_cons_of_trimEnd_ne hrest, List.forall_mem_cons]
            exact ⟨hc, ih hend⟩
      | false =>
          rw [isLineEnd_cons_of_not_blank hc, Bool.and_eq_true, beq_iff_eq] at hend
          rw [body, Text.trimEnd_cons, hc, Text.trimEnd_eq_nil_iff.mpr hend.2, hend.1]
          nofun

theorem words_body_trimStart (cs : List Char) : words (body (trimStart cs)) = words (body cs) := by
  induction cs with
  | nil => rfl
  | cons c cs ih =>
      cases hc : isBlank c with
      | false => rw [Text.trimStart_cons_of_not_blank hc]
      | true =>
          rw [Text.trimStart_cons_of_blank hc, ih]
          by_cases hrest : trimEnd cs = []
          · have hnil : trimEnd (c :: cs) = [] := by rw [Text.trimEnd_cons, hc, hrest]; rfl
            rw [body_of_trimEnd_eq_nil hrest, body_of_trimEnd_eq_nil hnil]
          · rw [body_cons_of_trimEnd_ne hrest, words, words, Text.wordsFrom_cons_of_blank hc]
            rfl

namespace Alike

theorem wordsFrom_body_eq (h : Alike xs ys) (word : List Char) :
    wordsFrom word (body xs) = wordsFrom word (body ys) := by
  induction h generalizing word with
  | ends hxs hys =>
      rw [Text.wordsFrom_of_blank (blank_of_mem_body hxs), Text.wordsFrom_of_blank (blank_of_mem_body hys)]
  | same hc hxs hys _ ih =>
      rw [body_cons hxs, body_cons hys, wordsFrom, wordsFrom, if_neg (by simp [hc]), if_neg (by simp [hc])]
      exact ih _
  | @blanks b b' xs ys hb hb' hxs hys _ ih =>
      have hrest : wordsFrom [] (body xs) = wordsFrom [] (body ys) :=
        (words_body_trimStart xs).symm.trans ((ih []).trans (words_body_trimStart ys))
      rw [body_cons hxs, body_cons hys, Text.wordsFrom_cons_of_blank hb, Text.wordsFrom_cons_of_blank hb', hrest]

theorem shapeOf_eq (h : Alike xs ys) : shapeOf xs = shapeOf ys := by
  rw [Source.shapeOf_eq, Source.shapeOf_eq]
  exact congrArg _ (h.wordsFrom_body_eq [])

/-! ### Exports -/

theorem export?_bind {α : Type} {q : α → α → Prop} {f : List Char → Option α}
    (hend : ∀ cs, isLineEnd cs = true → f cs = none)
    (hf : ∀ xs ys, Alike xs ys → Option.Rel q (f xs) (f ys)) (h : Alike xs ys) :
    Option.Rel q ((export? xs).bind f) ((export? ys).bind f) := by
  have hexport : Solid "export".toList := solid_of_all rfl
  rw [export?, export?, Option.bind_eq_bind, Option.bind_assoc, Option.bind_assoc]
  exact rel_bind (h.trimStart.word? hexport) fun xs ys hrest => hrest.blanks?_bind hend hf

/-- **The same declared export** is read from texts that are alike. -/
theorem declared?_eq (h : Alike xs ys) : declared? xs = declared? ys := by
  have hrel : Option.Rel Eq (declared? xs) (declared? ys) := by
    refine h.export?_bind (fun cs hcs => by rw [kind?_of_isLineEnd hcs]; rfl) fun xs ys h => ?_
    refine rel_bind h.kind? ?_
    rintro ⟨kind, rest⟩ ⟨_, rest'⟩ ⟨rfl, hrest⟩
    refine hrest.blanks?_bind (fun cs hcs => by rw [name?_of_isLineEnd hcs]; rfl) fun xs ys h => ?_
    refine rel_bind h.name? ?_
    rintro ⟨name, rest⟩ ⟨_, rest'⟩ ⟨rfl, hrest⟩
    refine .some ?_
    show Line.declared _ _ (String.ofList (shapeOf rest)) = Line.declared _ _ (String.ofList (shapeOf rest'))
    rw [hrest.shapeOf_eq]
  exact eq_of_rel hrel

/-- An inferred export is read from both of two texts that are alike, or from none. -/
theorem isSome_inferred? (h : Alike xs ys) : (inferred? xs).isSome = (inferred? ys).isSome := by
  have hlet : Solid "let".toList := solid_of_all rfl
  have hequals : Solid ['='] := solid_of_all rfl
  have hdot : Solid ['.'] := solid_of_all rfl
  have hrel : Option.Rel (fun _ _ => True) (inferred? xs) (inferred? ys) := by
    have hnone : ∀ cs, isLineEnd cs = true → Source.word? "let".toList cs = none :=
      fun _ => word?_of_isLineEnd (by decide)
    refine h.export?_bind (fun cs hcs => by rw [hnone cs hcs]; rfl) fun xs ys h => ?_
    refine rel_bind (h.word? hlet) fun xs ys h => ?_
    refine h.blanks?_bind (fun cs hcs => by rw [name?_of_isLineEnd hcs]; rfl) fun xs ys h => ?_
    refine rel_bind h.name? fun name name' hname => ?_
    refine rel_bind (hname.2.trimStart.word? hequals) fun xs ys h => ?_
    refine rel_bind h.trimStart.quoted? fun path path' hpath => ?_
    refine rel_bind (hpath.word? hdot) fun xs ys h => ?_
    refine rel_bind h.name? ?_
    rintro ⟨member, rest⟩ ⟨_, rest'⟩ ⟨rfl, hrest⟩
    dsimp only
    rw [hrest.isLineEnd_eq]
    split
    · exact .some trivial
    · exact .none
  exact isSome_eq_of_rel hrel

end Alike

/-! ### Declared exports as lines -/

variable {kind name shape : String}

/-- What starts like a declared export is none of what is tried before, an inferred export apart. -/
theorem earlier_of_declared? {found : Line} (hfound : declared? cs = some found) :
    directive? cs = none ∧ import? cs = none ∧ reexport? cs = none := by
  rw [declared?, Option.bind_eq_bind, Option.bind_eq_some_iff] at hfound
  obtain ⟨rest, hexport, hfound⟩ := hfound
  have hstar : word? ['*'] rest = none := by
    rw [Option.eq_none_iff_forall_ne_some]
    intro after hafter
    rw [word?_eq_some_iff.mp hafter] at hfound
    cases hfound
  have hstart : ∃ after, trimStart cs = "export".toList ++ after := by
    rw [export?, Option.bind_eq_bind, Option.bind_eq_some_iff] at hexport
    obtain ⟨after, hword, _⟩ := hexport
    exact ⟨after, word?_eq_some_iff.mp hword⟩
  obtain ⟨after, hstart⟩ := hstart
  refine ⟨?_, ?_, ?_⟩
  · rw [directive?, hstart]
    rfl
  · rw [import?, hstart]
    rfl
  · rw [reexport?, hexport, Option.bind_eq_bind, Option.bind_some, hstar]
    rfl

/-- A line is a declared export when one is read and no inferred one is. -/
theorem classify_eq_declared_iff :
    classify cs = .declared kind name shape
      ↔ inferred? cs = none ∧ declared? cs = some (.declared kind name shape) := by
  constructor
  · intro hline
    cases hchain : (directive? cs).or ((import? cs).or ((reexport? cs).or ((inferred? cs).or
        ((declared? cs).or (globalScope? cs))))) with
    | none =>
        rw [classify, hchain] at hline
        cases hline
    | some found =>
        rw [classify, hchain, Option.getD_some] at hline
        rw [hline] at hchain
        simp only [Option.or_eq_some_iff] at hchain
        rcases hchain with h | ⟨_, h | ⟨_, h | ⟨_, h | ⟨hinferred, h | ⟨_, h⟩⟩⟩⟩⟩
        · obtain ⟨_, category, message, hother⟩ := isDirective_of_directive? h
          cases hother
        · simp only [import?, Option.bind_eq_bind, Option.bind_eq_some_iff, Option.ite_none_right_eq_some,
            Option.some.injEq, reduceCtorEq, and_false, exists_false] at h
        · simp only [reexport?, Option.bind_eq_bind, Option.bind_eq_some_iff, Option.ite_none_right_eq_some,
            Option.some.injEq, reduceCtorEq, and_false, exists_false] at h
        · simp only [inferred?, Option.bind_eq_bind, Option.bind_eq_some_iff, Option.ite_none_right_eq_some,
            Option.some.injEq, reduceCtorEq, and_false, exists_false] at h
        · exact ⟨hinferred, h⟩
        · simp only [globalScope?, Option.bind_eq_bind, Option.bind_eq_some_iff, Option.ite_none_right_eq_some,
            Option.some.injEq, reduceCtorEq, and_false, exists_false] at h
  · rintro ⟨hinferred, hdeclared⟩
    obtain ⟨hdirective, himport, hreexport⟩ := earlier_of_declared? hdeclared
    rw [classify, hdirective, himport, hreexport, hinferred, hdeclared]
    rfl

/-- **The layout of a declared export** says nothing: of two lines that are alike, both say that it is
declared or none does. -/
theorem Alike.classify_iff (h : Alike xs ys) :
    classify xs = .declared kind name shape ↔ classify ys = .declared kind name shape := by
  rw [classify_eq_declared_iff, classify_eq_declared_iff, h.declared?_eq, ← Option.isNone_iff_eq_none,
    ← Option.isNone_iff_eq_none, ← Option.not_isSome, ← Option.not_isSome, h.isSome_inferred?]

end Source

end Rebuild
