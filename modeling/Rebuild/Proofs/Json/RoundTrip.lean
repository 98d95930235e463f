import Rebuild.Json.Value
import Rebuild.Json.Reader

/-!
# Reading what was written

The pretty layout of a value is read back as the value, if it is *plain*: it has only natural numbers,
and all its strings and keys spell texts.

The reader goes through the text one character at a time.  After a value it is between tokens, or at
the end of a word that the next character ends.  Both are covered by `Reader.settled`, the builder
once a pending word is taken.

* `Json.Plain`: the values that are read back;
* `Json.wordValue?_natText`: a natural number is read from its digits;
* `Json.foldlM_escaped`: a text is read from its escaped form;
* `Json.settled_value`, `Json.settled_items`, `Json.settled_fields`: what is read from the layout of a
  value, of further items and of further fields;
* `Json.parse?_pretty`: the text of a plain value is read as the value.
-/

namespace Rebuild.Json

/-! ### Plain values -/

mutual

/-- All numbers are natural numbers, and all strings and keys spell texts. -/
def Plain : Json → Prop
  | .null => True
  | .bool _ => True
  | .nat _ => True
  | .number _ => False
  | .text _ => True
  | .broken => False
  | .list items => PlainItems items
  | .object fields => PlainFields fields

def PlainItems : List Json → Prop
  | [] => True
  | item :: items => Plain item ∧ PlainItems items

def PlainFields : List (Option String × Json) → Prop
  | [] => True
  | field :: fields => field.1.isSome = true ∧ Plain field.2 ∧ PlainFields fields

end

theorem plainItems_iff {items : List Json} : PlainItems items ↔ ∀ item ∈ items, Plain item := by
  induction items with
  | nil => simp [PlainItems]
  | cons item items ih => simp [PlainItems, ih]

theorem plainFields_iff {fields : List (Option String × Json)} :
    PlainFields fields ↔ ∀ field ∈ fields, field.1.isSome = true ∧ Plain field.2 := by
  induction fields with
  | nil => simp [PlainFields]
  | cons field fields ih => simp [PlainFields, ih, and_assoc]

theorem plain_list {items : List Json} : Plain (.list items) ↔ ∀ item ∈ items, Plain item :=
  plainItems_iff

theorem plain_map {α : Type} {write : α → Json} (h : ∀ x, (write x).Plain) (xs : List α) :
    Plain (.list (xs.map write)) := by
  rw [plain_list, List.forall_mem_map]
  exact fun x _ => h x

theorem plain_record {fields : List (String × Json)} :
    Plain (record fields) ↔ ∀ field ∈ fields, Plain field.2 := by
  show PlainFields _ ↔ _
  rw [plainFields_iff, List.forall_mem_map]
  simp

/-! ### Words -/

theorem head?_toDigits {n : Nat} (h : 0 < n) : (Nat.toDigits 10 n).head? ≠ some '0' := by
  induction n using Nat.strongRecOn with
  | ind n ih =>
      rw [Nat.toDigits_eq_if (by omega)]
      split
      · rename_i hsmall
        have hdigit : ∀ d < 10, 0 < d → [Nat.digitChar d].head? ≠ some '0' := by decide
        exact hdigit n hsmall h
      · rename_i hlarge
        have hfirst := ih (n / 10) (by omega) (by omega)
        cases hdigits : Nat.toDigits 10 (n / 10) with
        | nil => exact absurd hdigits Nat.toDigits_ne_nil
        | cons c rest =>
            rw [hdigits] at hfirst
            exact hfirst

theorem isInteger_natText (n : Nat) : isInteger (natText n) = true := by
  have hdigits : isDigits (natText n) = true := by
    rw [isDigits, Bool.and_eq_true, List.all_eq_true]
    refine ⟨by simp [natText, Nat.toDigits_ne_nil], fun c hc => ?_⟩
    exact Nat.isDigit_of_mem_toDigits (by omega) (by omega) hc
  rw [isInteger, hdigits, Bool.true_and, Bool.or_eq_true]
  rcases Nat.eq_zero_or_pos n with rfl | hpos
  · exact Or.inl (by decide)
  · refine Or.inr ?_
    simpa [natText] using head?_toDigits hpos

/-- A natural number is read from its digits. -/
theorem wordValue?_natText (n : Nat) : wordValue? (natText n) = some (.nat n) := by
  have hdigit : ∀ c ∈ natText n, c.isDigit = true := fun c hc =>
    Nat.isDigit_of_mem_toDigits (by omega) (by omega) hc
  have hvalue : digitsValue (natText n) = n :=
    (Nat.ofDigitChars_eq_foldl).symm.trans Nat.ofDigitChars_ten_toDigits
  -- a literal starts with a letter
  have hne : ∀ c rest, c.isDigit = false → natText n ≠ c :: rest := by
    intro c rest hletter heq
    have hmem : c ∈ natText n := by
      rw [heq]
      exact List.mem_cons_self
    rw [hdigit c hmem] at hletter
    cases hletter
  unfold wordValue?
  rw [if_neg (hne _ _ (by decide)), if_neg (hne _ _ (by decide)),
    if_neg (hne _ _ (by decide)), if_pos (isInteger_natText n), hvalue]

/-! ### Settled readers -/

namespace Reader

/-- The builder between two tokens, once a pending word is taken. -/
def settled (r : Reader) : Option Builder :=
  match r.mode with
  | .gap => some r.builder
  | .str _ => none
  | .word chars => endWord r.builder chars

def isDelimiter (c : Char) : Bool :=
  isSpace c || c == '"' || (punctuation? c).isSome

/-- A delimiter is taken by the settled builder. -/
theorem step_delimiter {r : Reader} {b : Builder} {c : Char} (h : r.settled = some b)
    (hc : isDelimiter c = true) : r.step c = stepGap b c := by
  obtain ⟨mode, builder⟩ := r
  cases mode with
  | gap =>
      cases h
      rfl
  | str p => cases h
  | word chars =>
      have hend : endWord builder chars = some b := h
      show (if isDelimiter c then (endWord builder chars).bind fun b => stepGap b c else _) = _
      rw [if_pos hc, hend]
      rfl

/-- Punctuation after a settled reader is a token for its builder. -/
theorem step_punctuation {r : Reader} {b : Builder} {c : Char} {token : Token}
    (h : r.settled = some b) (hc : punctuation? c = some token) (hspace : isSpace c = false)
    (hquote : c ≠ '"') : r.step c = (b.step token).map fun b => ⟨.gap, b⟩ := by
  rw [step_delimiter h (by simp [isDelimiter, hc]), stepGap, hspace, if_neg (by simp),
    if_neg hquote, hc]

/-- Spaces change nothing. -/
theorem foldlM_spaces {r : Reader} {b : Builder} (h : r.settled = some b) {c : Char}
    {spaces : List Char} (hspaces : ∀ d ∈ c :: spaces, isSpace d = true) :
    (c :: spaces).foldlM step r = some ⟨.gap, b⟩ := by
  induction spaces generalizing r c with
  | nil =>
      have hc := hspaces c List.mem_cons_self
      rw [List.foldlM_cons, step_delimiter h (by simp [isDelimiter, hc]), stepGap, if_pos hc]
      rfl
  | cons d spaces ih =>
      have hc := hspaces c List.mem_cons_self
      rw [List.foldlM_cons, step_delimiter h (by simp [isDelimiter, hc]), stepGap, if_pos hc]
      exact ih rfl fun d hd => hspaces d (List.mem_cons_of_mem _ hd)

theorem foldlM_newline {r : Reader} {b : Builder} (h : r.settled = some b) (depth : Nat) :
    (newline depth).foldlM step r = some ⟨.gap, b⟩ := by
  refine foldlM_spaces h fun d hd => ?_
  rcases List.mem_cons.mp hd with rfl | hd
  · rfl
  · rw [(List.mem_replicate.mp hd).2]
    rfl

/-- A word is pending once its characters are read. -/
theorem foldlM_word {b : Builder} {chars word : List Char}
    (hword : ∀ c ∈ word, isDelimiter c = false) :
    word.foldlM step ⟨.word chars, b⟩ = some ⟨.word (word.reverse ++ chars), b⟩ := by
  induction word generalizing chars with
  | nil => rfl
  | cons c word ih =>
      have hc := hword c List.mem_cons_self
      have hstep : step ⟨.word chars, b⟩ c = some ⟨.word (c :: chars), b⟩ := by
        show (if isDelimiter c then _ else _) = _
        rw [hc]
        rfl
      rw [List.foldlM_cons, hstep]
      show word.foldlM step ⟨.word (c :: chars), b⟩ = _
      rw [ih fun d hd => hword d (List.mem_cons_of_mem _ hd)]
      simp

/-- A word that is a value is taken as the value. -/
theorem settled_word {b : Builder} (hb : b.wantsValue = true) {word : List Char} {value : Json}
    (hvalue : wordValue? word = some value) (hne : word ≠ [])
    (hword : ∀ c ∈ word, isDelimiter c = false) :
    ∃ r, word.foldlM step ⟨.gap, b⟩ = some r ∧ r.settled = some (b.accept value) := by
  cases word with
  | nil => exact absurd rfl hne
  | cons c word =>
      have hc := hword c List.mem_cons_self
      have hstep : step ⟨.gap, b⟩ c = some ⟨.word [c], b⟩ := by
        simp only [isDelimiter, Bool.or_eq_false_iff, beq_eq_false_iff_ne] at hc
        show stepGap b c = _
        rw [stepGap, hc.1.1, if_neg (by simp), if_neg hc.1.2]
        rw [Option.isSome_eq_false_iff, Option.isNone_iff_eq_none] at hc
        rw [hc.2]
      refine ⟨⟨.word (word.reverse ++ [c]), b⟩, ?_, ?_⟩
      · rw [List.foldlM_cons, hstep]
        exact foldlM_word fun d hd => hword d (List.mem_cons_of_mem _ hd)
      · show endWord b (word.reverse ++ [c]) = _
        rw [endWord, List.reverse_append, List.reverse_reverse]
        show (wordValue? (c :: word)).bind _ = _
        rw [hvalue]
        show b.step (.leaf value) = _
        rw [Builder.step, if_pos hb]

end Reader

/-! ### Strings -/

/-- A string that is being read, with these characters so far, last first. -/
def reading (chars : List Char) (b : Builder) : Reader :=
  ⟨.str { chars }, b⟩

/-- A control character is read from its numeric escape. -/
theorem foldlM_numeric (chars : List Char) (b : Builder) {n : Nat} (hn : n < 32) :
    ['\\', 'u', '0', '0', Nat.digitChar (n / 16), Nat.digitChar (n % 16)].foldlM Reader.step
        (reading chars b)
      = some (reading (Char.ofNat n :: chars) b) := by
  have hhex : ∀ m < 32, hexValue? (Nat.digitChar (m / 16)) = some (m / 16)
      ∧ hexValue? (Nat.digitChar (m % 16)) = some (m % 16) := by decide
  obtain ⟨hhigh, hlow⟩ := hhex n hn
  have hvalue : 16 * (n / 16) + n % 16 = n := Nat.div_add_mod n 16
  have hunit : PartialString.pushUnit { chars } n = { chars := Char.ofNat n :: chars } := by
    have hnotHigh : ¬ 0xD800 ≤ n := by omega
    have hnotLow : ¬ 0xDC00 ≤ n := by omega
    simp [PartialString.pushUnit, PartialString.push, hnotHigh, hnotLow]
  have hthird : Reader.step ⟨.str { chars, escape := .numeric 2 0 }, b⟩ (Nat.digitChar (n / 16))
      = some ⟨.str { chars, escape := .numeric 3 (n / 16) }, b⟩ := by
    show (hexValue? _).map _ = _
    rw [hhigh]
    simp
  have hfourth : Reader.step ⟨.str { chars, escape := .numeric 3 (n / 16) }, b⟩
      (Nat.digitChar (n % 16)) = some (reading (Char.ofNat n :: chars) b) := by
    show (hexValue? _).map _ = _
    rw [hlow, Option.map_some, hvalue, if_pos rfl]
    have hsame : PartialString.pushUnit { chars, escape := .numeric 3 (n / 16) } n
        = PartialString.pushUnit { chars } n := rfl
    rw [hsame, hunit]
    rfl
  show (Reader.step ⟨.str { chars, escape := .numeric 2 0 }, b⟩ (Nat.digitChar (n / 16))).bind
    (fun r => (r.step (Nat.digitChar (n % 16))).bind some) = _
  rw [hthird]
  show (Reader.step _ _).bind some = _
  rw [hfourth]
  rfl

/-- A character is read from its escaped form. -/
theorem foldlM_escapeChar (chars : List Char) (b : Builder) (c : Char) :
    (escapeChar c).foldlM Reader.step (reading chars b) = some (reading (c :: chars) b) := by
  rw [escapeChar]
  split
  · rename_i hc
    subst hc
    rfl
  · rename_i hquote
    split
    · rename_i hc
      subst hc
      rfl
    · rename_i hbackslash
      split
      · rename_i hc
        subst hc
        rfl
      · split
        · rename_i hc
          subst hc
          rfl
        · split
          · rename_i hc
            subst hc
            rfl
          · split
            · rename_i hc
              rw [← Char.ofNat_toNat c, hc]
              rfl
            · split
              · rename_i hc
                rw [← Char.ofNat_toNat c, hc]
                rfl
              · split
                · rename_i hcontrol
                  rw [foldlM_numeric chars b hcontrol, Char.ofNat_toNat]
                · rename_i hplain
                  have hstep : Reader.step (reading chars b) c = some (reading (c :: chars) b) := by
                    show Reader.stepString b { chars } c = _
                    rw [Reader.stepString, if_neg hquote, if_neg hbackslash, if_neg hplain]
                    rfl
                  rw [List.foldlM_cons, hstep]
                  rfl

/-- A text is read from its escaped form. -/
theorem foldlM_escaped (text chars : List Char) (b : Builder) :
    (text.flatMap escapeChar).foldlM Reader.step (reading chars b)
      = some (reading (text.reverse ++ chars) b) := by
  induction text generalizing chars with
  | nil => rfl
  | cons c text ih =>
      rw [List.flatMap_cons, List.foldlM_append, foldlM_escapeChar]
      show (text.flatMap escapeChar).foldlM Reader.step (reading (c :: chars) b) = _
      rw [ih]
      simp

/-- A string in quotes is a token for the builder. -/
theorem foldlM_quoted (s : String) (b : Builder) :
    (quoted s).foldlM Reader.step ⟨.gap, b⟩
      = (b.step (.str (some s))).map fun b => ⟨.gap, b⟩ := by
  have hopen : Reader.step ⟨.gap, b⟩ '"' = some (reading [] b) := rfl
  have hclose : Reader.step (reading (s.toList.reverse ++ []) b) '"'
      = (b.step (.str (some s))).map fun b => ⟨.gap, b⟩ := by
    show (b.step (.str (some (String.ofList (s.toList.reverse ++ []).reverse)))).map _ = _
    rw [List.append_nil, List.reverse_reverse, String.ofList_toList]
  rw [quoted, List.cons_append, List.foldlM_cons, hopen]
  show (s.toList.flatMap escapeChar ++ ['"']).foldlM Reader.step (reading [] b) = _
  rw [List.foldlM_append, foldlM_escaped]
  show ['"'].foldlM Reader.step (reading (s.toList.reverse ++ []) b) = _
  rw [List.foldlM_cons, hclose]
  cases b.step (.str (some s)) with
  | none => rfl
  | some b => rfl

/-! ### Values -/

/-- From `r`, the characters lead to a reader that settles with `b`. -/
def Settles (chars : List Char) (r : Reader) (b : Builder) : Prop :=
  ∃ r', chars.foldlM Reader.step r = some r' ∧ r'.settled = some b

theorem Settles.append {first second : List Char} {r : Reader} {b b' : Builder}
    (hfirst : Settles first r b) (hsecond : ∀ r', r'.settled = some b → Settles second r' b') :
    Settles (first ++ second) r b' := by
  obtain ⟨middle, hmiddle, hsettled⟩ := hfirst
  obtain ⟨last, hlast, hdone⟩ := hsecond middle hsettled
  refine ⟨last, ?_, hdone⟩
  rw [List.foldlM_append, hmiddle]
  exact hlast

/-- One character that leads between two tokens. -/
theorem settles_of_step {c : Char} {r : Reader} {b : Builder} (h : r.step c = some ⟨.gap, b⟩) :
    Settles [c] r b := by
  refine ⟨⟨.gap, b⟩, ?_, rfl⟩
  rw [List.foldlM_cons, h]
  rfl

theorem settles_newline {r : Reader} {b : Builder} (h : r.settled = some b) (depth : Nat) :
    Settles (newline depth) r b :=
  ⟨⟨.gap, b⟩, Reader.foldlM_newline h depth, rfl⟩

/-- A new line makes room for a value. -/
theorem settles_newline_value {chars : List Char} {r : Reader} {b b' : Builder}
    (h : r.settled = some b) (depth : Nat) (hvalue : Settles chars ⟨.gap, b⟩ b') :
    Settles (newline depth ++ chars) r b' := by
  obtain ⟨last, hlast, hdone⟩ := hvalue
  refine ⟨last, ?_, hdone⟩
  rw [List.foldlM_append, Reader.foldlM_newline h depth]
  exact hlast

theorem settles_word {b : Builder} (hb : b.wantsValue = true) {word : List Char} {value : Json}
    (hvalue : wordValue? word = some value) (hne : word ≠ [])
    (hword : ∀ c ∈ word, Reader.isDelimiter c = false) :
    Settles word ⟨.gap, b⟩ (b.accept value) :=
  Reader.settled_word hb hvalue hne hword

theorem settles_natText {b : Builder} (hb : b.wantsValue = true) (n : Nat) :
    Settles (natText n) ⟨.gap, b⟩ (b.accept (.nat n)) := by
  refine settles_word hb (wordValue?_natText n) Nat.toDigits_ne_nil fun c hc => ?_
  have hdigit : c.isDigit = true := Nat.isDigit_of_mem_toDigits (by omega) (by omega) hc
  have hne : ∀ d : Char, d.isDigit = false → c ≠ d := by
    rintro d hd rfl
    rw [hdigit] at hd
    cases hd
  simp [Reader.isDelimiter, Reader.isSpace, Reader.punctuation?, hne ' ' rfl, hne '\n' rfl,
    hne '\t' rfl, hne '\r' rfl, hne '"' rfl, hne '\x7b' rfl, hne '\x7d' rfl, hne '[' rfl,
    hne ']' rfl, hne ':' rfl, hne ',' rfl]

theorem settles_text {b : Builder} (hb : b.wantsValue = true) (s : String) :
    Settles (quoted s) ⟨.gap, b⟩ (b.accept (.text s)) := by
  have hstep : b.step (.str (some s)) = some (b.accept (.text s)) := by
    obtain ⟨stack, expect⟩ := b
    cases expect with
    | value => rfl
    | valueOrClose => rfl
    | _ => cases hb
  refine ⟨⟨.gap, b.accept (.text s)⟩, ?_, rfl⟩
  rw [foldlM_quoted, hstep]
  rfl

/-- A key and its value join the fields of the innermost object. -/
theorem settles_field {chars : List Char} (fields : List (Option String × Json))
    (waiting : Option String) (stack : List Frame) {expect : Expect}
    (hexpect : expect = .key ∨ expect = .keyOrClose) (key : String) (value : Json)
    (hvalue : ∀ b : Builder, b.wantsValue = true → Settles chars ⟨.gap, b⟩ (b.accept value)) :
    Settles (quoted key ++ ':' :: ' ' :: chars) ⟨.gap, ⟨.object fields waiting :: stack, expect⟩⟩
      ⟨.object ((some key, value) :: fields) none :: stack, .more⟩ := by
  have hkey : Settles (quoted key) ⟨.gap, ⟨.object fields waiting :: stack, expect⟩⟩
      ⟨.object fields (some key) :: stack, .colon⟩ := by
    refine ⟨⟨.gap, ⟨.object fields (some key) :: stack, .colon⟩⟩, ?_, rfl⟩
    rw [foldlM_quoted]
    rcases hexpect with rfl | rfl
    · rfl
    · rfl
  refine hkey.append fun r hr => ?_
  obtain ⟨last, hlast, hdone⟩ := hvalue ⟨.object fields (some key) :: stack, .value⟩ rfl
  refine ⟨last, ?_, hdone⟩
  have hcolon : r.step ':' = some ⟨.gap, ⟨.object fields (some key) :: stack, .value⟩⟩ := by
    rw [Reader.step_punctuation hr rfl rfl (by decide)]
    rfl
  rw [List.foldlM_cons, hcolon]
  exact hlast

mutual

/-- A value is read from its layout. -/
theorem settles_value (depth : Nat) : ∀ (j : Json), Plain j → ∀ b : Builder, b.wantsValue = true →
    Settles (prettyChars depth j) ⟨.gap, b⟩ (b.accept j)
  | .null, _, b, hb => by
      show Settles ['n', 'u', 'l', 'l'] _ _
      exact settles_word hb rfl (by simp)
        (by simp [Reader.isDelimiter, Reader.isSpace, Reader.punctuation?])
  | .bool true, _, b, hb => by
      show Settles ['t', 'r', 'u', 'e'] _ _
      exact settles_word hb rfl (by simp)
        (by simp [Reader.isDelimiter, Reader.isSpace, Reader.punctuation?])
  | .bool false, _, b, hb => by
      show Settles ['f', 'a', 'l', 's', 'e'] _ _
      exact settles_word hb rfl (by simp)
        (by simp [Reader.isDelimiter, Reader.isSpace, Reader.punctuation?])
  | .nat n, _, b, hb => settles_natText hb n
  | .number _, hplain, _, _ => False.elim hplain
  | .text s, _, b, hb => settles_text hb s
  | .broken, hplain, _, _ => False.elim hplain
  | .list [], _, b, hb => by
      refine ⟨⟨.gap, b.accept (.list [])⟩, ?_, rfl⟩
      have hopen : Reader.step ⟨.gap, b⟩ '[' = some ⟨.gap, ⟨.list [] :: b.stack, .valueOrClose⟩⟩ := by
        rw [Reader.step_punctuation rfl rfl rfl (by decide), Builder.step, if_pos hb]
        rfl
      show (Reader.step ⟨.gap, b⟩ '[').bind _ = _
      rw [hopen]
      rfl
  | .list (item :: items), hplain, b, hb => by
      have hopen : Settles ['['] ⟨.gap, b⟩ ⟨.list [] :: b.stack, .valueOrClose⟩ := by
        apply settles_of_step
        rw [Reader.step_punctuation rfl rfl rfl (by decide), Builder.step, if_pos hb]
        rfl
      have hitem := settles_value (depth + 1) item hplain.1 ⟨.list [] :: b.stack, .valueOrClose⟩ rfl
      have htext : prettyChars depth (.list (item :: items))
          = ['['] ++ ((newline (depth + 1) ++ prettyChars (depth + 1) item)
            ++ (prettyItems (depth + 1) items ++ (newline depth ++ [']']))) := by
        simp [prettyChars]
      rw [htext]
      refine hopen.append fun r hr => ?_
      refine (settles_newline_value hr _ hitem).append fun r hr => ?_
      refine (settles_items (depth + 1) items hplain.2 r hr).append fun r hr => ?_
      refine (settles_newline hr depth).append fun r hr => settles_of_step ?_
      rw [Reader.step_punctuation hr rfl rfl (by decide)]
      show some _ = _
      simp
      rfl
  | .object [], _, b, hb => by
      refine ⟨⟨.gap, b.accept (.object [])⟩, ?_, rfl⟩
      have hopen : Reader.step ⟨.gap, b⟩ '\x7b'
          = some ⟨.gap, ⟨.object [] none :: b.stack, .keyOrClose⟩⟩ := by
        rw [Reader.step_punctuation rfl rfl rfl (by decide), Builder.step, if_pos hb]
        rfl
      show (Reader.step ⟨.gap, b⟩ '\x7b').bind _ = _
      rw [hopen]
      rfl
  | .object ((none, value) :: fields), hplain, _, _ => by
      cases hplain.1
  | .object ((some key, value) :: fields), hplain, b, hb => by
      have hopen : Settles ['\x7b'] ⟨.gap, b⟩ ⟨.object [] none :: b.stack, .keyOrClose⟩ := by
        apply settles_of_step
        rw [Reader.step_punctuation rfl rfl rfl (by decide), Builder.step, if_pos hb]
        rfl
      have hfield := settles_field [] none b.stack (Or.inr rfl) key value
        (settles_value (depth + 1) value hplain.2.1)
      have htext : prettyChars depth (.object ((some key, value) :: fields))
          = ['\x7b'] ++ ((newline (depth + 1)
              ++ (quoted key ++ ':' :: ' ' :: prettyChars (depth + 1) value))
            ++ (prettyFields (depth + 1) fields ++ (newline depth ++ ['\x7d']))) := by
        simp [prettyChars, keyText]
      rw [htext]
      refine hopen.append fun r hr => ?_
      refine (settles_newline_value hr _ hfield).append fun r hr => ?_
      refine (settles_fields (depth + 1) fields hplain.2.2 r hr).append fun r hr => ?_
      refine (settles_newline hr depth).append fun r hr => settles_of_step ?_
      rw [Reader.step_punctuation hr rfl rfl (by decide)]
      show some _ = _
      simp
      rfl

/-- Further items join those of the innermost list. -/
theorem settles_items (depth : Nat) : ∀ (items : List Json), PlainItems items →
    ∀ (r : Reader) {before : List Json} {stack : List Frame},
      r.settled = some ⟨.list before :: stack, .more⟩ →
      Settles (prettyItems depth items) r ⟨.list (items.reverse ++ before) :: stack, .more⟩
  | [], _, r, _, _, hr => ⟨r, rfl, hr⟩
  | item :: items, hplain, r, before, stack, hr => by
      have hcomma : Settles [','] r ⟨.list before :: stack, .value⟩ := by
        apply settles_of_step
        rw [Reader.step_punctuation hr rfl rfl (by decide)]
        rfl
      have hitem := settles_value depth item hplain.1 ⟨.list before :: stack, .value⟩ rfl
      have htext : prettyItems depth (item :: items)
          = [','] ++ ((newline depth ++ prettyChars depth item) ++ prettyItems depth items) := by
        simp [prettyItems]
      rw [htext]
      refine hcomma.append fun r hr => ?_
      refine (settles_newline_value hr _ hitem).append fun r hr => ?_
      have hrest := settles_items depth items hplain.2 r hr
      simpa using hrest

/-- Further fields join those of the innermost object. -/
theorem settles_fields (depth : Nat) : ∀ (fields : List (Option String × Json)), PlainFields fields →
    ∀ (r : Reader) {before : List (Option String × Json)} {stack : List Frame},
      r.settled = some ⟨.object before none :: stack, .more⟩ →
      Settles (prettyFields depth fields) r ⟨.object (fields.reverse ++ before) none :: stack, .more⟩
  | [], _, r, _, _, hr => ⟨r, rfl, hr⟩
  | (none, _) :: _, hplain, _, _, _, _ => by
      cases hplain.1
  | (some key, value) :: fields, hplain, r, before, stack, hr => by
      have hcomma : Settles [','] r ⟨.object before none :: stack, .key⟩ := by
        apply settles_of_step
        rw [Reader.step_punctuation hr rfl rfl (by decide)]
        rfl
      have hfield := settles_field before none stack (Or.inl rfl) key value
        (settles_value depth value hplain.2.1)
      have htext : prettyFields depth ((some key, value) :: fields)
          = [','] ++ ((newline depth ++ (quoted key ++ ':' :: ' ' :: prettyChars depth value))
            ++ prettyFields depth fields) := by
        simp [prettyFields, keyText]
      rw [htext]
      refine hcomma.append fun r hr => ?_
      refine (settles_newline_value hr _ hfield).append fun r hr => ?_
      have hrest := settles_fields depth fields hplain.2.2 r hr
      simpa using hrest

end

/-- **The text of a plain value is read as the value.** -/
theorem parse?_pretty {j : Json} (h : j.Plain) : parse? j.pretty = some j := by
  obtain ⟨r, hr, hsettled⟩ := settles_value 0 j h {} rfl
  rw [parse?, pretty, String.toList_ofList, hr]
  show r.settled.bind _ = _
  rw [hsettled]
  rfl

end Rebuild.Json
