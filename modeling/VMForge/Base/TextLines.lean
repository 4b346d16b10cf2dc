import VMForge.Base.Text
import VMForge.Base.Utf8

namespace VMForge.Text

-- A line without the carriage return at its end.
def strip (line : List Char) : List Char :=
  if line.getLast? = some '\r' then line.dropLast else line

section Lines

theorem lines_nil : lines [] = [] := by decide

theorem splitOn_newline (text : List Char) : ∀ line ∈ text.splitOn '\n', '\n' ∉ line :=
  fun _ hline => notMem_of_splitOn rfl hline

-- The pieces between newlines; an empty last one is no line.
theorem lines_eq (text : List Char) : ∃ front last, text.splitOn '\n' = front ++ [last] ∧
    lines text = front.map strip ++ if last = [] then [] else [last] := by
  obtain hnil | ⟨front, last, hsplit⟩ := List.eq_nil_or_concat (text.splitOn '\n')
  · exact absurd hnil (List.splitOn_ne_nil '\n' text)
  · rw [List.concat_eq_append] at hsplit
    refine ⟨front, last, hsplit, ?_⟩
    have hstrip : (fun line : List Char => if line.getLast? = some '\r' then line.dropLast else line) =
        strip := rfl
    unfold lines
    simp only [hstrip]
    rw [hsplit, List.dropLast_concat, List.getLast?_concat]
    simp only
    split
    · rw [List.append_nil]
    · rfl

-- What is before a newline, and what is behind it.
theorem lines_append (xs ys : List Char) :
    lines (xs ++ '\n' :: ys) = (xs.splitOn '\n').map strip ++ lines ys := by
  obtain ⟨front, last, hsplit, hlines⟩ := lines_eq (xs ++ '\n' :: ys)
  obtain ⟨front', last', hsplit', hlines'⟩ := lines_eq ys
  rw [List.splitOn_append_cons_self, hsplit', ← List.append_assoc] at hsplit
  obtain ⟨rfl, hlast⟩ := List.append_inj' hsplit rfl
  obtain rfl := (List.cons.inj hlast).1
  rw [hlines, hlines', List.map_append, List.append_assoc]

theorem lines_ended (xs : List Char) : lines (xs ++ ['\n']) = (xs.splitOn '\n').map strip := by
  rw [lines_append, lines_nil, List.append_nil]

-- A text that is nothing, or ends its last line.
def Whole (text : List Char) : Prop := text = [] ∨ ∃ front, text = front ++ ['\n']

theorem lines_whole {xs : List Char} (h : Whole xs) (ys : List Char) :
    lines (xs ++ ys) = lines xs ++ lines ys := by
  obtain rfl | ⟨front, rfl⟩ := h
  · rw [lines_nil]
    rfl
  · rw [lines_ended, List.append_assoc]
    exact lines_append front ys

theorem strip_notMem {line : List Char} (h : '\n' ∉ line) : '\n' ∉ strip line := by
  unfold strip
  split
  · exact fun hmem => h ((List.dropLast_sublist line).subset hmem)
  · exact h

theorem lines_mem_newline {text : List Char} : ∀ line ∈ lines text, '\n' ∉ line := by
  obtain ⟨front, last, hsplit, hlines⟩ := lines_eq text
  have hpieces := splitOn_newline text
  rw [hsplit] at hpieces
  intro line hline
  rw [hlines] at hline
  obtain hline | hline := List.mem_append.mp hline
  · obtain ⟨piece, hpiece, rfl⟩ := List.mem_map.mp hline
    exact strip_notMem (hpieces piece (List.mem_append_left _ hpiece))
  · split at hline
    · cases hline
    · rw [List.mem_singleton.mp hline]
      exact hpieces last (by simp)

-- Lines that are put together again come back without a carriage return at their ends.
theorem lines_intercalate {ls : List (List Char)} (hne : ls ≠ []) (hls : ∀ line ∈ ls, '\n' ∉ line) :
    lines (['\n'].intercalate ls ++ ['\n']) = ls.map strip := by
  rw [lines_ended, List.splitOn_intercalate '\n' hls hne]

-- As many lines as newlines, and one more if the last one has no end.
def lineCount (bytes : List UInt8) : Nat :=
  bytes.count 10 + if bytes = [] ∨ bytes.getLast? = some 10 then 0 else 1

theorem encode_eq_nil {text : List Char} : Utf8.encode text = [] ↔ text = [] := by
  cases text with
  | nil => simp
  | cons c text =>
      rw [Utf8.encode_cons, List.append_eq_nil_iff]
      constructor
      · exact fun h => absurd h.1 String.utf8EncodeChar_ne_nil
      · exact fun h => absurd h (List.cons_ne_nil c text)

theorem length_encode (text : List Char) : (Utf8.encode text).length = byteLen text := by
  induction text with
  | nil => rfl
  | cons c text ih =>
      have hlen : byteLen (c :: text) = c.utf8Size + byteLen text := rfl
      rw [Utf8.encode_cons, List.length_append, String.length_utf8EncodeChar, ih, hlen]

-- Nothing is behind the last newline of a text that ends its last line.
theorem last_nil_iff {text last : List Char} {front : List (List Char)}
    (hsplit : text.splitOn '\n' = front ++ [last]) :
    last = [] ↔ Utf8.encode text = [] ∨ (Utf8.encode text).getLast? = some 10 := by
  have hback := @List.intercalate_splitOn _ text _ _ '\n'
  have hlast : '\n' ∉ last := splitOn_newline text last (by rw [hsplit]; simp)
  have hbytes := Utf8.newline_notMem hlast
  have hgetLast : (Utf8.encode last).getLast? ≠ some 10 := fun h => hbytes (List.mem_of_getLast? h)
  rw [hsplit] at hback
  by_cases hfront : front = []
  · rw [hfront, List.nil_append, List.intercalate_singleton] at hback
    rw [← hback, encode_eq_nil]
    exact ⟨Or.inl, fun h => h.resolve_right hgetLast⟩
  · rw [intercalate_append ['\n'] hfront (List.cons_ne_nil last []), List.intercalate_singleton] at hback
    rw [← hback, Utf8.encode_append, Utf8.encode_append, Utf8.encode_cons, Utf8.encode_newline]
    constructor
    · rintro rfl
      right
      simp
    · rintro (h | h)
      · exact absurd (congrArg List.length h) (by simp)
      · by_contra hne
        rw [List.getLast?_append_of_ne_nil _ fun h => hne (encode_eq_nil.mp h)] at h
        exact hgetLast h

theorem length_lines (text : List Char) : (lines text).length = lineCount (Utf8.encode text) := by
  obtain ⟨front, last, hsplit, hlines⟩ := lines_eq text
  have hcount := length_splitOn '\n' text
  rw [hsplit, List.length_append, List.length_singleton] at hcount
  rw [hlines, List.length_append, List.length_map, lineCount, Utf8.count_encode]
  have hend := last_nil_iff hsplit
  split
  · rename_i hlast
    rw [if_pos (hend.mp hlast), List.length_nil]
    omega
  · rename_i hlast
    rw [if_neg fun h => hlast (hend.mpr h), List.length_singleton]
    omega

end Lines

section Ends

-- Bytes that are nothing, or end their last line.
def Ended (bytes : List UInt8) : Prop := bytes = [] ∨ bytes.getLast? = some 10

variable {front back : List UInt8} {text : List Char}

theorem Ended.of_drop (h : Ended front) (n : Nat) : Ended (front.drop n) := by
  by_cases hn : front.length ≤ n
  · exact Or.inl (List.drop_eq_nil_iff.mpr hn)
  · right
    rw [List.getLast?_drop, if_neg hn]
    refine h.resolve_left fun hnil => hn ?_
    rw [hnil]
    exact Nat.zero_le n

theorem Ended.of_append (hback : back.getLast? = some 10) : Ended (front ++ back) := by
  right
  rw [List.getLast?_append, hback]
  rfl

theorem Ended.lineCount (h : Ended front) : lineCount front = front.count 10 := by
  unfold Text.lineCount
  exact congrArg (front.count 10 + ·) (if_pos h)

theorem lineCount_pos (h : front ≠ []) : 0 < lineCount front := by
  unfold Text.lineCount
  split
  · rename_i hend
    have hmem : (10 : UInt8) ∈ front := List.mem_of_getLast? (hend.resolve_left h)
    have hcount := List.count_pos_iff.mpr hmem
    omega
  · omega

-- The end of a text has no more lines than the text.
theorem lineCount_drop (front : List UInt8) (n : Nat) : lineCount (front.drop n) ≤ lineCount front := by
  have hcount := (List.drop_sublist n front).count_le 10
  by_cases hn : front.length ≤ n
  · rw [List.drop_eq_nil_iff.mpr hn]
    exact Nat.zero_le _
  · have hne : front.drop n ≠ [] := fun hnil => hn (List.drop_eq_nil_iff.mp hnil)
    have hfront : front ≠ [] := by
      rintro rfl
      exact hne List.drop_nil
    have hlast : (front.drop n).getLast? = front.getLast? := by
      rw [List.getLast?_drop, if_neg hn]
    unfold Text.lineCount
    rw [hlast]
    simp only [hne, hfront, false_or]
    omega

-- A text is cut behind the end of a line into two texts.
theorem decode_append (h : Ended front) (htext : Utf8.decode (front ++ back) = some text) :
    ∃ xs ys, front = Utf8.encode xs ∧ back = Utf8.encode ys ∧ text = xs ++ ys ∧ Whole xs := by
  have hcode := Utf8.decode_iff.mp htext
  obtain rfl | hlast := h
  · exact ⟨[], text, rfl, hcode, rfl, Or.inl rfl⟩
  · obtain ⟨line, rfl⟩ := List.getLast?_eq_some_iff.mp hlast
    rw [List.append_assoc, List.singleton_append] at hcode
    obtain ⟨xs, ys, rfl, rfl, rfl⟩ := Utf8.encode_split hcode.symm
    refine ⟨xs ++ ['\n'], ys, ?_, rfl, by simp, Or.inr ⟨xs, rfl⟩⟩
    rw [Utf8.encode_append, Utf8.encode_cons, Utf8.encode_newline]
    simp

theorem splitOn_of_notMem {line : List Char} (h : '\n' ∉ line) : line.splitOn '\n' = [line] := by
  have hall : ∀ l ∈ [line], '\n' ∉ l := fun l hl => by
    rw [List.mem_singleton.mp hl]
    exact h
  have hback := List.splitOn_intercalate '\n' hall (List.cons_ne_nil line [])
  rwa [List.intercalate_singleton] at hback

-- The lines of bytes that are put together of lines.
theorem lines_block {body : List (List UInt8)} (hbody : ∀ line ∈ body, 10 ∉ line)
    (h : Utf8.encode text = body.flatMap (· ++ [10])) :
    ∃ texts : List (List Char), texts.map Utf8.encode = body ∧ lines text = texts.map strip := by
  induction body generalizing text with
  | nil =>
      rw [encode_eq_nil.mp h]
      exact ⟨[], rfl, lines_nil⟩
  | cons line body ih =>
      rw [List.flatMap_cons, List.append_assoc, List.singleton_append] at h
      obtain ⟨xs, ys, rfl, rfl, hys⟩ := Utf8.encode_split h
      obtain ⟨texts, rfl, hlines⟩ := ih (fun l hl => hbody l (List.mem_cons_of_mem _ hl)) hys
      have hxs : '\n' ∉ xs := fun hmem =>
        hbody _ List.mem_cons_self (List.mem_flatMap.mpr ⟨'\n', hmem, by decide⟩)
      refine ⟨xs :: texts, rfl, ?_⟩
      rw [lines_append, splitOn_of_notMem hxs, hlines]
      rfl

end Ends

section Stripped

theorem trimMatches_append_of {p : Char → Bool} {c : Char} (h : p c = true) (cs : List Char) :
    trimMatches p (cs ++ [c]) = trimMatches p cs := by
  unfold trimMatches trimStart
  rw [List.dropWhile_append]
  split
  · rename_i hnil
    rw [List.isEmpty_iff.mp hnil, List.dropWhile_cons_of_pos h]
    rfl
  · unfold trimEnd
    rw [List.reverse_append, List.reverse_singleton, List.singleton_append,
      List.dropWhile_cons_of_pos h]

theorem trim_strip (line : List Char) : trim (strip line) = trim line := by
  unfold strip
  split
  · rename_i hlast
    obtain ⟨front, rfl⟩ := List.getLast?_eq_some_iff.mp hlast
    rw [List.dropLast_concat]
    exact (trimMatches_append_of (by decide) front).symm
  · rfl

-- What begins a line without a blank at either of its ends is kept.
theorem prefix_trim {mark cs : List Char} {first last : Char} (hfirst : mark.head? = some first)
    (hlast : mark.getLast? = some last) (hf : isWhitespace first = false)
    (hl : isWhitespace last = false) : mark <+: trim (mark ++ cs) := by
  obtain ⟨mark', rfl⟩ : ∃ mark', mark = first :: mark' := List.head?_eq_some_iff.mp hfirst
  obtain ⟨back, hback, hall⟩ := trimEnd_append isWhitespace (first :: mark' ++ cs)
  have htrim : trim (first :: mark' ++ cs) = trimEnd isWhitespace (first :: mark' ++ cs) := by
    unfold trim trimMatches trimStart
    rw [List.cons_append, List.dropWhile_cons_of_neg (by simp [hf])]
  rw [htrim]
  obtain ⟨tail, htail, -⟩ | ⟨short, hmark, hrest⟩ := List.append_eq_append_iff.mp hback
  · exact ⟨tail, htail.symm⟩
  · obtain rfl | ⟨c, hc⟩ : short = [] ∨ ∃ c, short.getLast? = some c := by
      cases h : short.getLast? with
      | none => exact Or.inl (List.getLast?_eq_none_iff.mp h)
      | some c => exact Or.inr ⟨c, rfl⟩
    · rw [List.append_nil] at hmark
      exact ⟨[], (List.append_nil _).trans hmark⟩
    · rw [hmark, List.getLast?_append, hc] at hlast
      obtain rfl := Option.some.inj hlast
      rw [hall c (by rw [hrest]; exact List.mem_append_left _ (List.mem_of_getLast? hc))] at hl
      cases hl

end Stripped

end VMForge.Text
