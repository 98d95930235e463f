import Mathlib.Algebra.Group.Nat.Defs
import Mathlib.Data.Multiset.Defs
import Rebuild.Signature

/-!
# What a signature says

The bytes that a signature is the digest of determine the visible declarations up to their order,
and nothing else.

* `Text.Utf8.encode_inj`: different texts have different bytes;
* `Declaration.face`: what a signature sees of a declaration;
* `Interface.faces`: the faces of the visible declarations, in the order of the interface;
* `Interface.faces_perm_of_encoding`: equal encodings have the same faces, up to order;
* `Interface.encoding_of_faces_perm`: the same faces, in any order, have equal encodings;
* `Interface.encoding_faithful`: both together.

Lengths are written with eight bytes, so this is about fields shorter than `2 ^ 64` bytes.
-/

namespace Rebuild

/-- Different texts have different bytes. -/
theorem Text.Utf8.encode_inj {a b : String} (h : encode a = encode b) : a = b := by
  have hbytes : a.toList.utf8Encode = b.toList.utf8Encode := by
    rw [List.utf8Encode, List.utf8Encode]
    exact congrArg List.toByteArray h
  have hsame : String.ofList a.toList = String.ofList b.toList := by
    rw [← String.toByteArray_inj, String.toByteArray_ofList, String.toByteArray_ofList, hbytes]
  rwa [String.ofList_toList, String.ofList_toList] at hsame

namespace Declaration

variable {a b c : Declaration}

/-- What a signature sees of a declaration: its kind, name and shape. -/
def face (d : Declaration) : String × String × String :=
  (d.kind, d.name, d.shape)

/-- The length of every field can be written with eight bytes. -/
structure Short (d : Declaration) : Prop where
  kind : (Text.Utf8.encode d.kind).length < 2 ^ 64
  name : (Text.Utf8.encode d.name).length < 2 ^ 64
  shape : (Text.Utf8.encode d.shape).length < 2 ^ 64

/-! ### The order of declarations -/

theorem le_iff : a.le b = true ↔ a.name < b.name
    ∨ (a.name = b.name ∧ (a.kind < b.kind ∨ (a.kind = b.kind ∧ a.shape ≤ b.shape))) := by
  rw [le]
  split
  · rename_i hname
    simp [hname]
  · rename_i hname
    have hname : a.name = b.name := Classical.not_not.mp hname
    split
    · rename_i hkind
      simp [hname, hkind]
    · rename_i hkind
      have hkind : a.kind = b.kind := Classical.not_not.mp hkind
      simp [hname, hkind]

theorem le_total (a b : Declaration) : (a.le b || b.le a) = true := by
  rw [Bool.or_eq_true, le_iff, le_iff]
  grind

theorem le_trans (a b c : Declaration) (hab : a.le b = true) (hbc : b.le c = true) :
    a.le c = true := by
  rw [le_iff] at hab hbc ⊢
  grind

theorem face_eq_of_le (hab : a.le b = true) (hba : b.le a = true) : a.face = b.face := by
  rw [le_iff] at hab hba
  rw [face, face]
  grind

end Declaration

namespace Interface

/-! ### Reading the encoding -/

@[simp] theorem length_lengthBytes (n : Nat) : (lengthBytes n).length = 8 := by
  simp [lengthBytes]

/-- A number is determined by as many bytes as it needs. -/
theorem eq_of_bytes {k m n : Nat} (hm : m < 256 ^ k) (hn : n < 256 ^ k)
    (h : ∀ i < k, m / 256 ^ i % 256 = n / 256 ^ i % 256) : m = n := by
  induction k generalizing m n with
  | zero =>
      rw [Nat.pow_zero] at hm hn
      omega
  | succ k ih =>
      have hlow : m % 256 = n % 256 := by
        have hzero := h 0 (Nat.succ_pos k)
        rwa [Nat.pow_zero, Nat.div_one, Nat.div_one] at hzero
      have hhigh : m / 256 = n / 256 := by
        refine ih ?_ ?_ fun i hi => ?_
        · exact Nat.div_lt_of_lt_mul (by rw [Nat.pow_succ] at hm; omega)
        · exact Nat.div_lt_of_lt_mul (by rw [Nat.pow_succ] at hn; omega)
        · have hnext := h (i + 1) (Nat.succ_lt_succ hi)
          rwa [Nat.pow_succ, Nat.mul_comm, ← Nat.div_div_eq_div_mul, ← Nat.div_div_eq_div_mul]
            at hnext
      omega

/-- A number below `2 ^ 64` is determined by its eight bytes. -/
theorem lengthBytes_inj {m n : Nat} (hm : m < 2 ^ 64) (hn : n < 2 ^ 64)
    (h : lengthBytes m = lengthBytes n) : m = n := by
  refine eq_of_bytes (show m < 256 ^ 8 from hm) hn fun i hi => ?_
  have hget := congrArg (fun bytes => (bytes[i]?).map UInt8.toNat) h
  simpa [lengthBytes, hi] using hget

/-- A field ends where its length says. -/
theorem field_append_inj {a b : String} {as bs : List UInt8}
    (ha : (Text.Utf8.encode a).length < 2 ^ 64) (hb : (Text.Utf8.encode b).length < 2 ^ 64)
    (h : field a ++ as = field b ++ bs) : a = b ∧ as = bs := by
  simp only [field, List.append_assoc] at h
  obtain ⟨hlengths, hrest⟩ := List.append_inj h (by simp)
  have hlength := lengthBytes_inj ha hb hlengths
  obtain ⟨hbytes, hrest⟩ := List.append_inj hrest hlength
  exact ⟨Text.Utf8.encode_inj hbytes, hrest⟩

theorem declarationBytes_append_inj {d e : Declaration} {as bs : List UInt8} (hd : d.Short)
    (he : e.Short) (h : declarationBytes d ++ as = declarationBytes e ++ bs) :
    d.face = e.face ∧ as = bs := by
  simp only [declarationBytes, List.append_assoc] at h
  obtain ⟨hkind, h⟩ := field_append_inj hd.kind he.kind h
  obtain ⟨hname, h⟩ := field_append_inj hd.name he.name h
  obtain ⟨hshape, h⟩ := field_append_inj hd.shape he.shape h
  exact ⟨by rw [Declaration.face, Declaration.face, hkind, hname, hshape], h⟩

theorem declarationBytes_ne_nil (d : Declaration) (as : List UInt8) :
    declarationBytes d ++ as ≠ [] := by
  intro h
  have hlength := congrArg List.length h
  simp only [declarationBytes, field, List.length_append, length_lengthBytes, List.length_nil]
    at hlength
  omega

/-- The bytes of several declarations determine their faces. -/
theorem map_face_of_flatMap {xs ys : List Declaration} (hxs : ∀ d ∈ xs, d.Short)
    (hys : ∀ d ∈ ys, d.Short) (h : xs.flatMap declarationBytes = ys.flatMap declarationBytes) :
    xs.map (·.face) = ys.map (·.face) := by
  induction xs generalizing ys with
  | nil =>
      cases ys with
      | nil => rfl
      | cons y ys =>
          rw [List.flatMap_nil, List.flatMap_cons] at h
          exact absurd h.symm (declarationBytes_ne_nil y _)
  | cons x xs ih =>
      cases ys with
      | nil =>
          rw [List.flatMap_nil, List.flatMap_cons] at h
          exact absurd h (declarationBytes_ne_nil x _)
      | cons y ys =>
          rw [List.flatMap_cons, List.flatMap_cons] at h
          obtain ⟨hface, hrest⟩ :=
            declarationBytes_append_inj (hxs x List.mem_cons_self) (hys y List.mem_cons_self) h
          rw [List.map_cons, List.map_cons, hface, ih
            (fun d hd => hxs d (List.mem_cons_of_mem _ hd))
            (fun d hd => hys d (List.mem_cons_of_mem _ hd)) hrest]

/-! ### Faces -/

/-- The faces of the visible declarations, in the order of the interface. -/
def faces (counts : Declaration → Bool) (interface : Interface) : List (String × String × String) :=
  (interface.filter counts).map (·.face)

theorem visible_perm (counts : Declaration → Bool) (interface : Interface) :
    ((visible counts interface).map (·.face)).Perm (faces counts interface) :=
  (List.mergeSort_perm _ _).map _

theorem mem_visible {counts : Declaration → Bool} {i : Interface} {d : Declaration} :
    d ∈ visible counts i ↔ d ∈ i ∧ counts d = true := by
  rw [visible, List.mem_mergeSort, List.mem_filter]

/-- **Equal encodings have the same faces**, up to their order, whatever counts as visible. -/
theorem faces_perm_of_encoding {counts counts' : Declaration → Bool} {i j : Interface}
    (hi : ∀ d ∈ i, counts d = true → d.Short) (hj : ∀ d ∈ j, counts' d = true → d.Short)
    (h : encoding counts i = encoding counts' j) : (faces counts i).Perm (faces counts' j) := by
  have hsorted : (visible counts i).map (·.face) = (visible counts' j).map (·.face) := by
    refine map_face_of_flatMap (fun d hd => ?_) (fun d hd => ?_) h
    · exact hi d (mem_visible.mp hd).1 (mem_visible.mp hd).2
    · exact hj d (mem_visible.mp hd).1 (mem_visible.mp hd).2
  have hperm := visible_perm counts' j
  rw [← hsorted] at hperm
  exact (visible_perm counts i).symm.trans hperm

def faceBytes (f : String × String × String) : List UInt8 :=
  field f.1 ++ field f.2.1 ++ field f.2.2

theorem encoding_eq_flatMap (counts : Declaration → Bool) (i : Interface) :
    encoding counts i = ((visible counts i).map (·.face)).flatMap faceBytes := by
  rw [encoding, List.flatMap_map]
  rfl

/-- **The same faces have equal encodings**, whatever their order. -/
theorem encoding_of_faces_perm {counts counts' : Declaration → Bool} {i j : Interface}
    (h : (faces counts i).Perm (faces counts' j)) : encoding counts i = encoding counts' j := by
  let faceLe : String × String × String → String × String × String → Prop := fun f g =>
    Declaration.le ⟨f.1, f.2.1, f.2.2, false⟩ ⟨g.1, g.2.1, g.2.2, false⟩ = true
  have hsorted : ∀ (counts : Declaration → Bool) (k : Interface),
      ((visible counts k).map (·.face)).Pairwise faceLe := by
    intro counts k
    rw [List.pairwise_map]
    exact List.pairwise_mergeSort Declaration.le_trans Declaration.le_total _
  have hfaces : (visible counts i).map (·.face) = (visible counts' j).map (·.face) := by
    refine List.Perm.eq_of_pairwise (fun f g _ _ hfg hgf => ?_) (hsorted counts i) (hsorted counts' j)
      ((visible_perm counts i).trans (h.trans (visible_perm counts' j).symm))
    exact Declaration.face_eq_of_le hfg hgf
  rw [encoding_eq_flatMap, encoding_eq_flatMap, hfaces]

/-- **Signatures see the faces of what is visible.**  The bytes that a signature is the digest of are equal
exactly when the visible declarations have the same faces, each as often; the order of the declarations,
whether they were inferred, and those that do not count leave no trace. -/
theorem encoding_faithful {counts counts' : Declaration → Bool} {i j : Interface}
    (hi : ∀ d ∈ i, counts d = true → d.Short) (hj : ∀ d ∈ j, counts' d = true → d.Short) :
    (encoding counts i = encoding counts' j
        ↔ (faces counts i : Multiset (String × String × String)) = faces counts' j)
      ∧ ((faces counts i : Multiset (String × String × String)) = faces counts' j →
        signature counts i = signature counts' j) := by
  rw [Multiset.coe_eq_coe]
  refine ⟨⟨faces_perm_of_encoding hi hj, encoding_of_faces_perm⟩, fun h => ?_⟩
  rw [signature, signature, encoding_of_faces_perm h]

def mixed : Interface :=
  [⟨"fn", "f", "int", true⟩, ⟨"fn", "g", "str", false⟩]

/-- The same declarations written out, in the other order, and an inferred one. -/
def spelledOut : Interface :=
  [⟨"fn", "g", "str", false⟩, ⟨"let", "h", "int", true⟩, ⟨"fn", "f", "int", false⟩]

theorem encoding_faithful_mixed :
    (∀ d ∈ mixed, d.Short) ∧ (∀ d ∈ spelledOut, d.Short)
      ∧ signature (fun _ => true) mixed = signature (fun d => !d.inferred) spelledOut
      ∧ encoding (fun _ => true) mixed ≠ encoding (fun _ => true) spelledOut := by
  have hmixed : ∀ d ∈ mixed, d.Short := by
    simp only [mixed, List.forall_mem_cons]
    exact ⟨⟨by decide, by decide, by decide⟩, ⟨by decide, by decide, by decide⟩, fun _ hd => by cases hd⟩
  have hspelledOut : ∀ d ∈ spelledOut, d.Short := by
    simp only [spelledOut, List.forall_mem_cons]
    exact ⟨⟨by decide, by decide, by decide⟩, ⟨by decide, by decide, by decide⟩,
      ⟨by decide, by decide, by decide⟩, fun _ hd => by cases hd⟩
  refine ⟨hmixed, hspelledOut, ?_, fun hsame => ?_⟩
  · refine (encoding_faithful (fun d hd _ => hmixed d hd) fun d hd _ => hspelledOut d hd).2 ?_
    decide
  · have hfaces := (encoding_faithful (fun d hd _ => hmixed d hd) fun d hd _ => hspelledOut d hd).1.mp hsame
    exact absurd (congrArg Multiset.card hfaces) (by decide)

end Interface

end Rebuild
