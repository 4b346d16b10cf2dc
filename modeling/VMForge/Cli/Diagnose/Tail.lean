import VMForge.Cli.Diagnose

namespace VMForge.Cli

open Text

section Tail

-- The characters of a text that lie in its last bytes. A character that is cut in two is left out.
def wholeTail (bytes : Nat) : List Char → List Char
  | [] => []
  | c :: cs => if byteLen (c :: cs) ≤ bytes then c :: cs else wholeTail bytes cs

-- The last lines of a text, each with its end.
def lastLines (text : List Char) : List Char :=
  ['\n'].intercalate ((lines text).drop ((lines text).length - logTailLines)) ++ ['\n']

theorem wholeTail_short {bytes : Nat} {cs : List Char} (h : byteLen cs ≤ bytes) :
    wholeTail bytes cs = cs := by
  cases cs with
  | nil => rfl
  | cons c cs => exact if_pos h

-- A character that begins where the last bytes begin is the first one of them.
theorem wholeTail_append {bytes : Nat} {front back : List Char} (h : byteLen back = bytes) :
    wholeTail bytes (front ++ back) = back := by
  induction front with
  | nil => exact wholeTail_short (Nat.le_of_eq h)
  | cons c front ih =>
      have hlen : byteLen (c :: front ++ back) = c.utf8Size + byteLen front + byteLen back := by
        rw [byteLen_append]
        rfl
      have hpos := c.utf8Size_pos
      have hlong : ¬byteLen (c :: (front ++ back)) ≤ bytes := by
        show ¬byteLen (c :: front ++ back) ≤ bytes
        omega
      show (if byteLen (c :: (front ++ back)) ≤ bytes then _ else wholeTail bytes (front ++ back)) = _
      rw [if_neg hlong, ih]

-- What is read of the end of a text is a text where a character begins.
theorem decode_drop (cs : List Char) (n : Nat) (back : List Char) :
    Utf8.decode ((Utf8.encode cs).drop n) = some back ↔
      ∃ front, cs = front ++ back ∧ (Utf8.encode front).length = min n (Utf8.encode cs).length := by
  rw [Utf8.decode_iff]
  constructor
  · intro h
    have hsplit : Utf8.encode cs = (Utf8.encode cs).take n ++ Utf8.encode back := by
      rw [← h, List.take_append_drop]
    obtain ⟨front, rfl, hfront⟩ := Utf8.suffix_of_encode hsplit
    exact ⟨front, rfl, by rw [hfront, List.length_take]⟩
  · rintro ⟨front, rfl, hlen⟩
    rw [Utf8.encode_append] at hlen ⊢
    rw [List.length_append] at hlen
    by_cases hn : n ≤ (Utf8.encode front).length + (Utf8.encode back).length
    · rw [Nat.min_eq_left hn] at hlen
      exact List.drop_left' hlen
    · have hback : (Utf8.encode back).length = 0 := by omega
      rw [List.eq_nil_of_length_eq_zero hback, List.append_nil]
      exact List.drop_eq_nil_of_le (by omega)

-- A long text whose last bytes do not begin with a character is not read.
theorem tailFile_dropped {cs : List Char} (hlong : logTailBytes < byteLen cs)
    (hcut : ¬∃ front back, cs = front ++ back ∧ byteLen back = logTailBytes) :
    tailFile (Utf8.encode cs) = none := by
  apply tailFile_none
  by_contra hsome
  obtain ⟨back, hback⟩ := Option.ne_none_iff_exists'.mp hsome
  obtain ⟨front, rfl, hlen⟩ := (decode_drop cs _ back).mp hback
  refine hcut ⟨front, back, rfl, ?_⟩
  rw [length_encode, length_encode] at hlen
  rw [byteLen_append] at hlen hlong
  omega

theorem tailFile_some {cs back : List Char}
    (h : Utf8.decode ((Utf8.encode cs).drop ((Utf8.encode cs).length - logTailBytes)) = some back) :
    tailFile (Utf8.encode cs) = some (lastLines back) := by
  unfold tailFile
  rw [h]
  rfl

-- The log is left out where a character of it is cut in two, and is the end of the file elsewhere.
theorem tailFile_iff (cs : List Char) :
    tailFile (Utf8.encode cs) = some (lastLines (wholeTail logTailBytes cs)) ↔
      byteLen cs ≤ logTailBytes ∨ ∃ front back, cs = front ++ back ∧ byteLen back = logTailBytes := by
  by_cases hshort : byteLen cs ≤ logTailBytes
  · refine iff_of_true (tailFile_some ?_) (Or.inl hshort)
    rw [wholeTail_short hshort, length_encode, Nat.sub_eq_zero_of_le hshort, List.drop_zero,
      Utf8.decode_encode]
  · by_cases hcut : ∃ front back, cs = front ++ back ∧ byteLen back = logTailBytes
    · refine iff_of_true ?_ (Or.inr hcut)
      obtain ⟨front, back, rfl, hlen⟩ := hcut
      rw [wholeTail_append hlen]
      refine tailFile_some ((decode_drop _ _ back).mpr ⟨front, rfl, ?_⟩)
      rw [length_encode, length_encode, byteLen_append]
      omega
    · refine iff_of_false ?_ fun h => h.elim hshort hcut
      rw [tailFile_dropped (Nat.not_le.mp hshort) hcut]
      intro h
      cases h

theorem byteLen_replicate (n : Nat) : byteLen (List.replicate n 'a') = n := by
  have hascii : ∀ c ∈ List.replicate n 'a', c.toNat < 128 := by
    intro c hc
    rw [List.eq_of_mem_replicate hc]
    decide
  rw [byteLen_of_ascii hascii, List.length_replicate]

-- The byte that is left out cuts a first character of two bytes.
theorem tailFile_accent {n : Nat} (hn : n + 1 = logTailBytes) :
    tailFile (Utf8.encode ('é' :: List.replicate n 'a')) = none := by
  have hrest := byteLen_replicate n
  have hwhole : byteLen ('é' :: List.replicate n 'a') = 2 + byteLen (List.replicate n 'a') := rfl
  apply tailFile_dropped
  · omega
  · rintro ⟨front, back, hsplit, hlen⟩
    cases front with
    | nil =>
        rw [← hsplit.trans (List.nil_append back)] at hlen
        omega
    | cons c front =>
        have hback : byteLen (List.replicate n 'a') = byteLen (front ++ back) :=
          congrArg byteLen (List.cons.inj hsplit).2
        rw [byteLen_append] at hback
        omega

theorem tailFile_cut : tailFile (Utf8.encode ('é' :: List.replicate 262_143 'a')) = none :=
  tailFile_accent rfl

end Tail

end VMForge.Cli
