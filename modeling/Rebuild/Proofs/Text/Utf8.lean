import Rebuild.Text.Utf8

/-!
# UTF-8 is read back

The bytes of a text decode to the text.

* `Text.Utf8.front_one`, `front_two`, `front_three`, `front_four`: the front of a byte sequence that starts
  with a character of one, two, three or four bytes;
* `Text.Utf8.decodeFrom_append`: a character is read, and decoding goes on behind it;
* `Text.Utf8.decode_encode`: the whole text.
-/

namespace Rebuild.Text.Utf8

variable {v : Nat}

theorem toNat_ofNat (h : v < 256) : (UInt8.ofNat v).toNat = v := by
  rw [UInt8.toNat_ofNat', Nat.mod_eq_of_lt h]

theorem within_iff {a b c : UInt8} :
    within a c b = true ↔ a.toNat ≤ b.toNat ∧ b.toNat ≤ c.toNat := by
  rw [within, Bool.and_eq_true, decide_eq_true_iff, decide_eq_true_iff, UInt8.le_iff_toNat_le,
    UInt8.le_iff_toNat_le]

theorem isTail_ofNat (h : v < 64) : isTail (UInt8.ofNat (v + 128)) = true := by
  rw [isTail, within_iff, toNat_ofNat (by omega)]
  show 128 ≤ v + 128 ∧ v + 128 ≤ 191
  omega

theorem payload_ofNat (h : v < 64) : payload (UInt8.ofNat (v + 128)) = v := by
  rw [payload, toNat_ofNat (by omega)]
  omega

/-! ### One character -/

theorem front_one (h : v ≤ 0x7F) (rest : List UInt8) :
    front (UInt8.ofNat v) rest = .char (Char.ofNat v) 1 := by
  have hfirst : UInt8.ofNat v < 0x80 := by
    rw [UInt8.lt_iff_toNat_lt, toNat_ofNat (by omega)]
    show v < 128
    omega
  simp only [front, if_pos hfirst, toNat_ofNat (show v < 256 by omega)]

theorem front_two (hlow : 0x80 ≤ v) (hhigh : v ≤ 0x7FF) (rest : List UInt8) :
    front (UInt8.ofNat (v / 64 % 32 + 192)) (UInt8.ofNat (v % 64 + 128) :: rest)
      = .char (Char.ofNat v) 2 := by
  have hbyte := toNat_ofNat (v := v / 64 % 32 + 192) (by omega)
  have hsmall : ¬ UInt8.ofNat (v / 64 % 32 + 192) < 0x80 := by
    rw [UInt8.lt_iff_toNat_lt, hbyte]
    show ¬ v / 64 % 32 + 192 < 128
    omega
  have htwo : within 0xC2 0xDF (UInt8.ofNat (v / 64 % 32 + 192)) = true := by
    rw [within_iff, hbyte]
    show 194 ≤ v / 64 % 32 + 192 ∧ v / 64 % 32 + 192 ≤ 223
    omega
  have htail : v % 64 < 64 := Nat.mod_lt v (by omega)
  simp only [front, if_neg hsmall, if_pos htwo, isTail_ofNat htail, if_true, payload_ofNat htail, hbyte]
  congr 2
  omega

theorem front_three (hlow : 0x800 ≤ v) (hhigh : v ≤ 0xFFFF) (hvalid : v < 0xD800 ∨ 0xDFFF < v)
    (rest : List UInt8) :
    front (UInt8.ofNat (v / 4096 % 16 + 224))
        (UInt8.ofNat (v / 64 % 64 + 128) :: UInt8.ofNat (v % 64 + 128) :: rest)
      = .char (Char.ofNat v) 3 := by
  have hbyte := toNat_ofNat (v := v / 4096 % 16 + 224) (by omega)
  have hsmall : ¬ UInt8.ofNat (v / 4096 % 16 + 224) < 0x80 := by
    rw [UInt8.lt_iff_toNat_lt, hbyte]
    show ¬ v / 4096 % 16 + 224 < 128
    omega
  have htwo : ¬ within 0xC2 0xDF (UInt8.ofNat (v / 4096 % 16 + 224)) = true := by
    rw [within_iff, hbyte]
    show ¬ (194 ≤ v / 4096 % 16 + 224 ∧ v / 4096 % 16 + 224 ≤ 223)
    omega
  have hthree : within 0xE0 0xEF (UInt8.ofNat (v / 4096 % 16 + 224)) = true := by
    rw [within_iff, hbyte]
    show 224 ≤ v / 4096 % 16 + 224 ∧ v / 4096 % 16 + 224 ≤ 239
    omega
  have hmiddle : v / 64 % 64 < 64 := Nat.mod_lt _ (by omega)
  have htail : v % 64 < 64 := Nat.mod_lt v (by omega)
  -- the second byte excludes numbers with a shorter form, and the surrogates
  have hsecond : secondOfThree (UInt8.ofNat (v / 4096 % 16 + 224)) (UInt8.ofNat (v / 64 % 64 + 128))
      = true := by
    rw [secondOfThree]
    split
    · rename_i hfirst
      have hsame : v / 4096 % 16 + 224 = 224 := hbyte.symm.trans (congrArg UInt8.toNat hfirst)
      rw [within_iff, toNat_ofNat (by omega)]
      show 160 ≤ v / 64 % 64 + 128 ∧ v / 64 % 64 + 128 ≤ 191
      omega
    · split
      · rename_i _ hfirst
        have hsame : v / 4096 % 16 + 224 = 237 := hbyte.symm.trans (congrArg UInt8.toNat hfirst)
        rw [within_iff, toNat_ofNat (by omega)]
        show 128 ≤ v / 64 % 64 + 128 ∧ v / 64 % 64 + 128 ≤ 159
        omega
      · exact isTail_ofNat hmiddle
  simp only [front, if_neg hsmall, if_neg htwo, if_pos hthree, hsecond, isTail_ofNat htail, if_true,
    payload_ofNat hmiddle, payload_ofNat htail, hbyte]
  congr 2
  omega

theorem front_four (hlow : 0x10000 ≤ v) (hhigh : v < 0x110000) (rest : List UInt8) :
    front (UInt8.ofNat (v / 262144 % 8 + 240))
        (UInt8.ofNat (v / 4096 % 64 + 128) :: UInt8.ofNat (v / 64 % 64 + 128)
          :: UInt8.ofNat (v % 64 + 128) :: rest)
      = .char (Char.ofNat v) 4 := by
  have hbyte := toNat_ofNat (v := v / 262144 % 8 + 240) (by omega)
  have hsmall : ¬ UInt8.ofNat (v / 262144 % 8 + 240) < 0x80 := by
    rw [UInt8.lt_iff_toNat_lt, hbyte]
    show ¬ v / 262144 % 8 + 240 < 128
    omega
  have htwo : ¬ within 0xC2 0xDF (UInt8.ofNat (v / 262144 % 8 + 240)) = true := by
    rw [within_iff, hbyte]
    show ¬ (194 ≤ v / 262144 % 8 + 240 ∧ v / 262144 % 8 + 240 ≤ 223)
    omega
  have hthree : ¬ within 0xE0 0xEF (UInt8.ofNat (v / 262144 % 8 + 240)) = true := by
    rw [within_iff, hbyte]
    show ¬ (224 ≤ v / 262144 % 8 + 240 ∧ v / 262144 % 8 + 240 ≤ 239)
    omega
  have hfour : within 0xF0 0xF4 (UInt8.ofNat (v / 262144 % 8 + 240)) = true := by
    rw [within_iff, hbyte]
    show 240 ≤ v / 262144 % 8 + 240 ∧ v / 262144 % 8 + 240 ≤ 244
    omega
  have hthird : v / 64 % 64 < 64 := Nat.mod_lt _ (by omega)
  have htail : v % 64 < 64 := Nat.mod_lt v (by omega)
  have hmiddle : v / 4096 % 64 < 64 := Nat.mod_lt _ (by omega)
  -- the second byte excludes numbers with a shorter form, and those past the last character
  have hsecond : secondOfFour (UInt8.ofNat (v / 262144 % 8 + 240)) (UInt8.ofNat (v / 4096 % 64 + 128))
      = true := by
    rw [secondOfFour]
    split
    · rename_i hfirst
      have hsame : v / 262144 % 8 + 240 = 240 := hbyte.symm.trans (congrArg UInt8.toNat hfirst)
      rw [within_iff, toNat_ofNat (by omega)]
      show 144 ≤ v / 4096 % 64 + 128 ∧ v / 4096 % 64 + 128 ≤ 191
      omega
    · split
      · rename_i _ hfirst
        have hsame : v / 262144 % 8 + 240 = 244 := hbyte.symm.trans (congrArg UInt8.toNat hfirst)
        rw [within_iff, toNat_ofNat (by omega)]
        show 128 ≤ v / 4096 % 64 + 128 ∧ v / 4096 % 64 + 128 ≤ 143
        omega
      · exact isTail_ofNat hmiddle
  simp only [front, if_neg hsmall, if_neg htwo, if_neg hthree, if_pos hfour, hsecond,
    isTail_ofNat hthird, isTail_ofNat htail, if_true, payload_ofNat hmiddle, payload_ofNat hthird,
    payload_ofNat htail, hbyte]
  congr 2
  omega

/-! ### Texts -/

theorem decodeFrom_of_front {a : UInt8} {rest : List UInt8} {c : Char} {size : Nat}
    (h : front a rest = .char c size) (index : Nat) :
    decodeFrom index 0 (a :: rest) = (decodeFrom (index + size) (size - 1) rest).map (c :: ·) := by
  simp only [decodeFrom, h]

/-- A character is read, and decoding goes on behind it. -/
theorem decodeFrom_append (c : Char) (rest : List UInt8) (index : Nat) :
    ∃ later, decodeFrom index 0 (String.utf8EncodeChar c ++ rest)
      = (decodeFrom later 0 rest).map (c :: ·) := by
  have hchar : Char.ofNat c.val.toNat = c := Char.ofNat_toNat c
  have hvalid : c.val.toNat < 0xD800 ∨ 0xDFFF < c.val.toNat ∧ c.val.toNat < 0x110000 := c.valid
  rw [String.utf8EncodeChar]
  split
  · rename_i hone
    have hfront := front_one hone rest
    rw [hchar] at hfront
    exact ⟨index + 1, decodeFrom_of_front hfront index⟩
  · split
    · rename_i hone htwo
      have hfront := front_two (by omega) htwo rest
      rw [hchar] at hfront
      exact ⟨index + 2, decodeFrom_of_front hfront index⟩
    · split
      · rename_i hone htwo hthree
        have hfront := front_three (by omega) hthree (by omega) rest
        rw [hchar] at hfront
        exact ⟨index + 3, decodeFrom_of_front hfront index⟩
      · rename_i hone htwo hthree
        have hfront := front_four (v := c.val.toNat) (by omega) (by omega) rest
        rw [hchar] at hfront
        exact ⟨index + 4, decodeFrom_of_front hfront index⟩

theorem decodeFrom_flatMap (text : List Char) (index : Nat) :
    decodeFrom index 0 (text.flatMap String.utf8EncodeChar) = .ok text := by
  induction text generalizing index with
  | nil => rfl
  | cons c text ih =>
      obtain ⟨later, hchar⟩ := decodeFrom_append c (text.flatMap String.utf8EncodeChar) index
      rw [List.flatMap_cons, hchar, ih]
      rfl

/-- The bytes of a text decode to the text. -/
theorem decode_encode (s : String) : decode (encode s) = .ok s := by
  rw [decode, encode, decodeFrom_flatMap]
  exact congrArg Except.ok String.ofList_toList

end Rebuild.Text.Utf8
