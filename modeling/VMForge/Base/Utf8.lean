import Mathlib.Data.List.Basic

namespace VMForge.Utf8

-- The bytes of a text, and the text that bytes are, if they are one.
def encode (cs : List Char) : List UInt8 := cs.flatMap String.utf8EncodeChar

def decode (bytes : List UInt8) : Option (List Char) :=
  bytes.toByteArray.utf8Decode?.map Array.toList

section Codec

theorem toByteArray_encode (cs : List Char) : (encode cs).toByteArray = cs.utf8Encode := rfl

@[simp] theorem encode_nil : encode [] = [] := rfl

@[simp] theorem encode_append (xs ys : List Char) : encode (xs ++ ys) = encode xs ++ encode ys :=
  List.flatMap_append ..

theorem encode_cons (c : Char) (cs : List Char) :
    encode (c :: cs) = String.utf8EncodeChar c ++ encode cs := List.flatMap_cons ..

theorem decode_encode (cs : List Char) : decode (encode cs) = some cs := by
  unfold decode
  rw [toByteArray_encode, List.utf8Decode?_utf8Encode]
  rfl

theorem decode_iff {bytes : List UInt8} {cs : List Char} : decode bytes = some cs ↔ bytes = encode cs := by
  constructor
  · intro h
    obtain ⟨chars, hchars, rfl⟩ := Option.map_eq_some_iff.mp h
    have hsome : bytes.toByteArray.utf8Decode?.isSome = true := by
      rw [hchars]
      rfl
    have hback := @ByteArray.utf8Encode_get_utf8Decode? bytes.toByteArray hsome
    simp only [hchars, Option.get_some] at hback
    rw [← List.toByteArray_inj, toByteArray_encode, hback]
  · rintro rfl
    exact decode_encode cs

theorem encode_inj {cs cs' : List Char} (h : encode cs = encode cs') : cs = cs' := by
  have hdecode := decode_encode cs
  rw [h, decode_encode] at hdecode
  exact (Option.some.inj hdecode).symm

theorem prefix_of_encode {mark cs : List Char} {back : List UInt8}
    (h : encode cs = encode mark ++ back) : mark <+: cs := by
  apply List.isPrefix_of_utf8Encode_append_eq_utf8Encode back.toByteArray
  rw [← toByteArray_encode, ← toByteArray_encode, h, List.toByteArray_append]

end Codec

section Boundaries

-- A text begins with the first byte of a character, and no other byte of a character is one.
theorem firstByte_of_encode {cs : List Char} {b : UInt8} {rest : List UInt8}
    (h : encode cs = b :: rest) : b.IsUTF8FirstByte := by
  cases cs with
  | nil => cases h
  | cons c cs =>
      have hfirst := @UInt8.isUTF8FirstByte_getElem_zero_utf8EncodeChar c
      rw [encode_cons] at h
      cases hbytes : String.utf8EncodeChar c with
      | nil => exact absurd hbytes String.utf8EncodeChar_ne_nil
      | cons b' bytes =>
          rw [hbytes] at h
          simp only [hbytes, List.getElem_cons_zero] at hfirst
          obtain ⟨rfl, -⟩ := List.cons.inj h
          exact hfirst

theorem not_firstByte {c : Char} {b : UInt8} {front back : List UInt8} (hfront : front ≠ [])
    (h : String.utf8EncodeChar c = front ++ b :: back) : ¬b.IsUTF8FirstByte := by
  have hpos := List.length_pos_iff.mpr hfront
  have hlen : front.length < (String.utf8EncodeChar c).length := by
    rw [h, List.length_append, List.length_cons]
    omega
  have hget : (String.utf8EncodeChar c)[front.length] = b := by
    simp only [h, List.getElem_append_right (Nat.le_refl _), Nat.sub_self, List.getElem_cons_zero]
  rw [← hget, UInt8.isUTF8FirstByte_getElem_utf8EncodeChar]
  omega

-- What a text ends with is a text only from a character on.
theorem suffix_of_encode {cs back : List Char} {front : List UInt8}
    (h : encode cs = front ++ encode back) : ∃ before, cs = before ++ back ∧ encode before = front := by
  induction cs generalizing front with
  | nil =>
      obtain ⟨rfl, hback⟩ := List.append_eq_nil_iff.mp h.symm
      cases back with
      | nil => exact ⟨[], rfl, rfl⟩
      | cons c back =>
          rw [encode_cons, List.append_eq_nil_iff] at hback
          exact absurd hback.1 String.utf8EncodeChar_ne_nil
  | cons c cs ih =>
      rw [encode_cons] at h
      obtain ⟨front', rfl, hrest⟩ | ⟨rest, hc, hrest⟩ := List.append_eq_append_iff.mp h
      · obtain ⟨before, rfl, hbefore⟩ := ih hrest
        exact ⟨c :: before, rfl, by rw [encode_cons, hbefore]⟩
      · by_cases hfront : front = []
        · subst hfront
          have hwhole : encode (c :: cs) = encode back := by
            rw [encode_cons]
            exact h
          exact ⟨[], encode_inj hwhole, rfl⟩
        · cases rest with
          | nil =>
              obtain rfl := encode_inj hrest
              refine ⟨[c], rfl, ?_⟩
              rw [encode_cons, hc, encode_nil, List.append_nil, List.append_nil]
          | cons b rest => exact absurd (firstByte_of_encode hrest) (not_firstByte hfront hc)

end Boundaries

section Lines

theorem encode_newline : String.utf8EncodeChar '\n' = [10] := by decide

-- A byte below 128 is found in no character but its own.
theorem code_of_mem {b : UInt8} {c : Char} (hb : b.toNat < 128) (h : b ∈ String.utf8EncodeChar c) :
    c.toNat = b.toNat := by
  unfold String.utf8EncodeChar at h
  dsimp only at h
  show c.val.toNat = b.toNat
  split_ifs at h with hone htwo hthree
  all_goals
    simp only [List.mem_cons, List.not_mem_nil, or_false, ← UInt8.toNat_inj,
      UInt8.toNat_ofNat'] at h
    omega

theorem char_of_mem {a c : Char} {b : UInt8} (hb : b.toNat < 128) (hcode : a.toNat = b.toNat)
    (h : b ∈ String.utf8EncodeChar c) : c = a := by
  apply Char.ext
  apply UInt32.toNat_inj.mp
  exact (code_of_mem hb h).trans hcode.symm

theorem newline_of_mem {c : Char} (h : (10 : UInt8) ∈ String.utf8EncodeChar c) : c = '\n' :=
  char_of_mem (by decide) (by decide) h

-- The bytes of ASCII are where their characters are.
theorem mem_of_mem_encode {a : Char} {b : UInt8} (hb : b.toNat < 128) (hcode : a.toNat = b.toNat)
    {cs : List Char} (h : b ∈ encode cs) : a ∈ cs := by
  obtain ⟨c, hc, hbyte⟩ := List.mem_flatMap.mp h
  rw [← char_of_mem hb hcode hbyte]
  exact hc

-- A newline byte stands for a newline.
theorem encode_split {cs : List Char} {front back : List UInt8} (h : encode cs = front ++ 10 :: back) :
    ∃ xs ys, cs = xs ++ '\n' :: ys ∧ encode xs = front ∧ encode ys = back := by
  induction cs generalizing front with
  | nil => exact absurd (congrArg List.length h) (by simp)
  | cons c cs ih =>
      rw [encode_cons] at h
      obtain ⟨front', rfl, hrest⟩ | ⟨rest, hc, hrest⟩ := List.append_eq_append_iff.mp h
      · obtain ⟨xs, ys, rfl, hxs, hys⟩ := ih hrest
        exact ⟨c :: xs, ys, rfl, by rw [encode_cons, hxs], hys⟩
      · cases rest with
        | nil =>
            obtain ⟨xs, ys, rfl, hxs, hys⟩ := @ih [] hrest.symm
            refine ⟨c :: xs, ys, rfl, ?_, hys⟩
            rw [encode_cons, hxs, hc, List.append_nil, List.append_nil]
        | cons b rest =>
            obtain ⟨rfl, hback⟩ := List.cons.inj hrest
            obtain rfl := @newline_of_mem c (by rw [hc]; simp)
            have hfront : front = [] ∧ rest = [] := by
              have hlen := congrArg List.length hc
              rw [encode_newline] at hlen
              simp only [List.length_append, List.length_cons, List.length_nil] at hlen
              exact ⟨List.length_eq_zero_iff.mp (by omega), List.length_eq_zero_iff.mp (by omega)⟩
            obtain ⟨rfl, rfl⟩ := hfront
            exact ⟨[], cs, rfl, rfl, hback.symm⟩

theorem newline_notMem {cs : List Char} (h : '\n' ∉ cs) : (10 : UInt8) ∉ encode cs := by
  intro hmem
  exact h (mem_of_mem_encode (by decide) (by decide) hmem)

theorem count_encode (cs : List Char) : (encode cs).count 10 = cs.count '\n' := by
  induction cs with
  | nil => rfl
  | cons c cs ih =>
      rw [encode_cons, List.count_append, ih]
      by_cases hc : c = '\n'
      · subst hc
        rw [encode_newline, List.count_cons_self, List.count_cons_self, List.count_nil]
        omega
      · have hnone : (String.utf8EncodeChar c).count 10 = 0 :=
          List.count_eq_zero.mpr fun h => hc (newline_of_mem h)
        rw [hnone, List.count_cons_of_ne hc]
        omega

end Lines

section Ascii

theorem encode_ascii {b : UInt8} (h : b.toNat < 128) :
    String.utf8EncodeChar (Char.ofNat b.toNat) = [b] := by
  have hvalid : b.toNat.isValidChar := Or.inl (by omega)
  have hval : (Char.ofNat b.toNat).val.toNat = b.toNat := by
    unfold Char.ofNat
    rw [dif_pos hvalid]
    rfl
  unfold String.utf8EncodeChar
  dsimp only
  rw [hval, if_pos (by omega), UInt8.ofNat_toNat]

-- Bytes below 128 are a text, one character each.
theorem exists_encode {bytes : List UInt8} (h : ∀ b ∈ bytes, b.toNat < 128) : ∃ cs, bytes = encode cs := by
  induction bytes with
  | nil => exact ⟨[], rfl⟩
  | cons b bytes ih =>
      obtain ⟨cs, hcs⟩ := ih fun a ha => h a (List.mem_cons_of_mem b ha)
      refine ⟨Char.ofNat b.toNat :: cs, ?_⟩
      rw [encode_cons, encode_ascii (h b List.mem_cons_self), ← hcs]
      rfl

end Ascii

end VMForge.Utf8
