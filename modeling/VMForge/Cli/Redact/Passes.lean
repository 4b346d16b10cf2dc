import VMForge.Cli.Redact.Twice

namespace VMForge.Cli

open Text

-- A line outside of the blocks that a second pass does not change: its last character is no carriage
-- return, which would be taken for a part of the line end.
def Stable (line : List Char) : Prop :=
  (firstSensitive line = true ∨
      line.getLast? ≠ some '\r' ∧ uncovers false [] (line.splitOn ' ') = false) ∧
    steady false false ((kept line).splitOn ' ') = true

section Returns

theorem getLast_redactWord (word : List Char) :
    (redactWord word).getLast? = some '\r' ↔ word.getLast? = some '\r' := by
  by_cases htoken : isTokenish word = true
  · obtain ⟨front, back, hword, hout, -, -⟩ := redactWord_eq htoken
    have hcore := core_of_tokenish htoken
    rw [hout]
    generalize core word = token at hword hcore
    rw [hword]
    by_cases hnil : back = []
    · subst hnil
      obtain ⟨token, c, rfl⟩ : ∃ token' c, token = token' ++ [c] := by
        obtain rfl | ⟨token', c, rfl⟩ := List.eq_nil_or_concat token
        · exact absurd hcore.1 (by decide)
        · exact ⟨token', c, List.concat_eq_append⟩
      have hc := hcore.2 c (by simp)
      rw [List.append_nil, List.append_nil, ← List.append_assoc, List.getLast?_append,
        List.getLast?_append]
      constructor
      · intro h
        have h : some ']' = some '\r' := h
        exact absurd (Option.some.inj h) (by decide)
      · intro h
        have h : some c = some '\r' := h
        rw [Option.some.inj h] at hc
        exact absurd hc (by decide)
    · rw [List.getLast?_append_of_ne_nil _ hnil, List.getLast?_append_of_ne_nil _ hnil]
  · rw [redactWord_of_not htoken]

theorem getLast_passWord (armed : Bool) (word : List Char) :
    (passWord armed word).getLast? = some '\r' ↔ word.getLast? = some '\r' := by
  by_cases hlong : armed = true ∧ 8 ≤ byteLen (word.takeWhile visible)
  · obtain ⟨rfl, hlong⟩ := hlong
    rw [passWord_long hlong]
    have hsplit := @List.takeWhile_append_dropWhile _ visible word
    by_cases hnil : word.dropWhile visible = []
    · rw [hnil, List.append_nil] at hsplit
      rw [hnil, List.append_nil]
      constructor
      · intro h
        have h : some ']' = some '\r' := h
        exact absurd (Option.some.inj h) (by decide)
      · intro h
        have hmem : '\r' ∈ word.takeWhile visible := by
          rw [hsplit]
          exact List.mem_of_getLast? h
        exact absurd (List.mem_takeWhile_imp hmem) (by decide)
    · have hword := List.getLast?_append_of_ne_nil (word.takeWhile visible) hnil
      rw [hsplit] at hword
      rw [List.getLast?_append_of_ne_nil _ hnil, hword]
  · rw [passWord_short hlong]
    exact getLast_redactWord word

theorem getLast_pass (armed : Bool) (words : List (List Char)) :
    ([' '].intercalate ((schemeWords armed words).map redactWord)).getLast? = some '\r' ↔
      ([' '].intercalate words).getLast? = some '\r' := by
  induction words generalizing armed with
  | nil => cases armed <;> exact Iff.rfl
  | cons word rest ih =>
      rw [pass_cons, intercalate_cons, intercalate_cons]
      cases rest with
      | nil =>
          rw [if_pos rfl, if_pos (by cases behindWord armed word <;> rfl), List.append_nil,
            List.append_nil]
          exact getLast_passWord armed word
      | cons next rest =>
          have hcons : (schemeWords (behindWord armed word) (next :: rest)).map redactWord ≠ [] := by
            rw [pass_cons]
            exact List.cons_ne_nil _ _
          have hlast : ∀ front back : List Char, (front ++ ' ' :: back).getLast? = some '\r' ↔
              back.getLast? = some '\r' := by
            intro front back
            rw [List.getLast?_append, List.getLast?_cons]
            cases back with
            | nil => exact ⟨fun h => absurd (Option.some.inj h) (by decide), fun h => by cases h⟩
            | cons c back =>
                rw [List.getLast?_cons]
                exact Iff.rfl
          rw [if_neg hcons, if_neg (List.cons_ne_nil next rest), hlast, hlast]
          exact ih _

theorem getLast_redactLine (line : List Char) :
    (redactLine line).getLast? = some '\r' ↔
      firstSensitive line = false ∧ line.getLast? = some '\r' := by
  rw [redactLine_words, getLast_pass, List.intercalate_splitOn]
  by_cases hsensitive : firstSensitive line = true
  · simp only [hsensitive, Bool.true_eq_false, false_and, iff_false]
    intro hlast
    unfold firstSensitive at hsensitive
    unfold redactKeyValue at hlast
    cases hrest : line.dropWhile fun c => !isSeparator c with
    | nil =>
        rw [hrest] at hsensitive
        cases hsensitive
    | cons ch rest =>
        rw [hrest] at hsensitive hlast
        simp only at hsensitive hlast
        rw [if_pos hsensitive, List.getLast?_append] at hlast
        have hlast : some ']' = some '\r' := hlast
        exact absurd (Option.some.inj hlast) (by decide)
  · rw [Bool.not_eq_true] at hsensitive
    rw [redactKeyValue_of_not hsensitive]
    simp only [hsensitive, true_and]

-- A carriage return at the end of a line does not come back.
theorem redactLine_strip (line : List Char) :
    redactLine (strip (redactLine line)) = redactLine line ↔
      (redactLine line).getLast? ≠ some '\r' ∧ redactLine (redactLine line) = redactLine line := by
  unfold strip
  by_cases hlast : (redactLine line).getLast? = some '\r'
  · rw [if_pos hlast]
    simp only [hlast, ne_eq, not_true_eq_false, false_and, iff_false]
    intro heq
    have hsplit := List.dropLast_append_getLast? '\r' hlast
    have hcount := @count_redactLine '\r' (by decide) (redactLine line).dropLast
    rw [heq, ← hsplit, List.count_append, List.dropLast_append_of_ne_nil (List.cons_ne_nil _ _)]
      at hcount
    simp at hcount
  · rw [if_neg hlast]
    simp only [ne_eq, hlast, not_false_eq_true, true_and]

theorem stable_iff (line : List Char) :
    redactLine (strip (redactLine line)) = redactLine line ↔ Stable line := by
  rw [redactLine_strip, redactLine_again, ne_eq, getLast_redactLine]
  unfold Stable
  by_cases hsensitive : firstSensitive line = true
  · simp [hsensitive]
  · rw [Bool.not_eq_true] at hsensitive
    simp [hsensitive, and_assoc]

end Returns

section Begins

def beginMark : List Char := "-----BEGIN".toList

theorem begins_iff (line : List Char) :
    begins line = true ↔ ∃ x y, line = x ++ (beginMark ++ y) ∧ ∀ c ∈ x, isWhitespace c = true := by
  unfold begins
  rw [List.isPrefixOf_iff_prefix]
  constructor
  · rintro ⟨y, hy⟩
    obtain ⟨front, back, hline, hfront, -⟩ := trimMatches_append isWhitespace line
    have htrim : trimMatches isWhitespace line = beginMark ++ y := hy.symm
    refine ⟨front, y ++ back, ?_, hfront⟩
    rw [htrim, List.append_assoc, List.append_assoc] at hline
    exact hline
  · rintro ⟨x, y, rfl, hx⟩
    have htrim : trim (x ++ (beginMark ++ y)) = trim (beginMark ++ y) := by
      unfold trim trimMatches trimStart
      rw [List.dropWhile_append_of_pos hx]
    rw [htrim]
    exact @prefix_trim _ y '-' 'N' (by decide) (by decide) (by decide) (by decide)

theorem begins_append {x : List Char} (hx : ∀ c ∈ x, isWhitespace c = true) (cs : List Char) :
    begins (x ++ cs) = begins cs := by
  unfold begins trim trimMatches trimStart
  rw [List.dropWhile_append_of_pos hx]

-- The marker of a block is not written by rule 4, nor before a replacement.
theorem begins_redactWord {word x y : List Char} (hx : ∀ c ∈ x, isWhitespace c = true)
    (h : redactWord word = x ++ (beginMark ++ y)) : redactWord word = word := by
  by_cases htoken : isTokenish word = true
  · obtain ⟨front, back, -, hout, hfront, -⟩ := redactWord_eq htoken
    have hnot : '[' ∉ beginMark := by decide
    have hsplit : front ++ '[' :: ("REDACTED]".toList ++ back) = x ++ (beginMark ++ y) := by
      rw [← h, hout, List.append_assoc]
      rfl
    obtain ⟨x', rfl, -⟩ | ⟨y', -, hmark⟩ := append_around hnot hsplit
    · exact absurd (hx '[' (by simp)) (by decide)
    · have hb : 'B' ∈ beginMark := by decide
      rw [hmark] at hfront
      exact absurd (hfront 'B' (List.mem_append_right x (List.mem_append_left y' hb))) (by decide)
  · exact redactWord_of_not htoken

theorem redactWord_whitespace {word : List Char} (h : ∀ c ∈ word, isWhitespace c = true) :
    redactWord word = word := by
  apply redactWord_of_not
  intro htoken
  obtain ⟨c, hc, halphanum⟩ := exists_digit htoken
  obtain ⟨front, back, hword, -⟩ := redactWord_eq htoken
  have hshown := visible_of_range (by have hc' := (alphanum_ascii halphanum).2; omega)
    (alphanum_ascii halphanum).1
  unfold visible at hshown
  rw [h c (by rw [hword]; simp [hc])] at hshown
  cases hshown

theorem redacted_visible {word : List Char} (h : ∀ c ∈ redactWord word, isWhitespace c = true) :
    redactWord word = word := by
  by_cases htoken : isTokenish word = true
  · obtain ⟨front, back, -, hout, -, -⟩ := redactWord_eq htoken
    have hopen : '[' ∈ redacted := by decide
    rw [hout] at h
    exact absurd (h '[' (List.mem_append_left back (List.mem_append_right front hopen))) (by decide)
  · exact redactWord_of_not htoken

theorem behindWord_whitespace {word : List Char} (h : ∀ c ∈ word, isWhitespace c = true) :
    behindWord false word = false := by
  obtain rfl | ⟨front, c, rfl⟩ := List.eq_nil_or_concat word
  · decide
  · rw [List.concat_eq_append] at h ⊢
    rw [Bool.eq_false_iff]
    intro hends
    have hletter := endsKeyword_last hends
    have hshown := visible_of_range (by have hc' := (alphanum_ascii hletter).2; omega)
      (alphanum_ascii hletter).1
    unfold visible at hshown
    rw [h c (by simp)] at hshown
    cases hshown

theorem begins_pass {words : List (List Char)} (hwords : ∀ word ∈ words, ' ' ∉ word)
    (h : begins ([' '].intercalate ((schemeWords false words).map redactWord)) = true) :
    begins ([' '].intercalate words) = true := by
  induction words with
  | nil => exact h
  | cons word rest ih =>
      have hrest : ∀ word ∈ rest, ' ' ∉ word := fun w hw => hwords w (List.mem_cons_of_mem _ hw)
      rw [pass_cons, passWord_short (by simp), intercalate_cons] at h
      rw [intercalate_cons]
      by_cases hall : ∀ c ∈ word, isWhitespace c = true
      · rw [redactWord_whitespace hall, behindWord_whitespace hall, begins_append hall] at h
        rw [begins_append hall]
        cases rest with
        | nil => exact h
        | cons next rest =>
            have hblank : ∀ c ∈ [' '], isWhitespace c = true := by decide
            have hcons : (schemeWords false (next :: rest)).map redactWord ≠ [] := by
              rw [pass_cons]
              exact List.cons_ne_nil _ _
            rw [if_neg hcons, ← List.singleton_append, begins_append hblank] at h
            rw [if_neg (List.cons_ne_nil next rest), ← List.singleton_append, begins_append hblank]
            exact ih hrest h
      · obtain ⟨x, y, heq, hx⟩ := (begins_iff _).mp h
        obtain ⟨y', hword⟩ : ∃ y', redactWord word = x ++ (beginMark ++ y') := by
          split at heq
          · exact ⟨y, by rw [← heq, List.append_nil]⟩
          · obtain ⟨x', rfl, -⟩ | ⟨y', -, hword⟩ := append_around (by decide) heq
            · have hout : ∀ c ∈ redactWord word, isWhitespace c = true :=
                fun c hc => hx c (List.mem_append_left _ hc)
              rw [redacted_visible hout] at hout
              exact absurd hout hall
            · exact ⟨y', hword⟩
        rw [begins_redactWord hx hword] at hword
        generalize (if rest = [] then [] else ' ' :: [' '].intercalate rest) = tail
        rw [begins_iff]
        refine ⟨x, y' ++ tail, ?_, hx⟩
        rw [hword, List.append_assoc, List.append_assoc]

theorem begins_redactKeyValue {line : List Char} (h : begins (redactKeyValue line) = true) :
    begins line = true := by
  unfold redactKeyValue at h
  have hsplit := @List.takeWhile_append_dropWhile _ (fun c => !isSeparator c) line
  have hnot := List.head?_dropWhile_not (fun c => !isSeparator c) line
  cases hrest : line.dropWhile fun c => !isSeparator c with
  | nil =>
      rw [hrest] at h
      exact h
  | cons ch rest =>
      rw [hrest] at h hsplit hnot
      simp only at h
      split at h
      · have hch : isSeparator ch = true := by simpa using hnot
        have hmark : ch ∉ beginMark := by
          intro hmem
          have hnone : ∀ c ∈ beginMark, isSeparator c = false := by decide
          rw [hnone ch hmem] at hch
          cases hch
        obtain ⟨x, y, heq, hx⟩ := (begins_iff _).mp h
        obtain ⟨x', rfl, -⟩ | ⟨y', -, hbefore⟩ := append_around hmark heq
        · have hblank := hx ch (by simp)
          unfold isSeparator at hch
          simp only [Bool.or_eq_true, beq_iff_eq] at hch
          obtain rfl | rfl := hch
          all_goals exact absurd hblank (by decide)
        · rw [begins_iff]
          refine ⟨x, y' ++ ch :: rest, ?_, hx⟩
          rw [← hsplit, hbefore, List.append_assoc, List.append_assoc]
      · exact h

-- No redacted line opens a block.
theorem begins_redactLine {line : List Char} (h : begins line = false) :
    begins (strip (redactLine line)) = false := by
  have hstrip : begins (strip (redactLine line)) = begins (redactLine line) := by
    unfold begins
    rw [trim_strip]
  rw [hstrip, Bool.eq_false_iff]
  intro hbegins
  rw [redactLine_words] at hbegins
  have hwhole := begins_pass (splitOn_blank (redactKeyValue line)) hbegins
  rw [List.intercalate_splitOn] at hwhole
  rw [begins_redactKeyValue hwhole] at h
  cases h

end Begins

section Passes

theorem splitOn_ended {ls : List (List Char)} (hls : ∀ line ∈ ls, '\n' ∉ line) :
    (ls.flatMap (· ++ ['\n'])).splitOn '\n' = ls ++ [[]] := by
  induction ls with
  | nil => rfl
  | cons line ls ih =>
      rw [List.flatMap_cons, List.append_assoc, List.singleton_append,
        List.splitOn_append_cons_self_of_not_mem (hls line List.mem_cons_self),
        ih fun l hl => hls l (List.mem_cons_of_mem _ hl)]
      rfl

theorem lines_flatMap {ls : List (List Char)} (hls : ∀ line ∈ ls, '\n' ∉ line) :
    lines (ls.flatMap (· ++ ['\n'])) = ls.map strip := by
  obtain ⟨front, last, hsplit, hlines⟩ := lines_eq (ls.flatMap (· ++ ['\n']))
  rw [splitOn_ended hls] at hsplit
  obtain ⟨rfl, hlast⟩ := List.append_inj' hsplit rfl
  obtain rfl := (List.cons.inj hlast).1
  rw [hlines, if_pos rfl, List.append_nil]

theorem flatMap_ended {ls ls' : List (List Char)} (hls : ∀ line ∈ ls, '\n' ∉ line)
    (hls' : ∀ line ∈ ls', '\n' ∉ line) :
    ls.flatMap (· ++ ['\n']) = ls'.flatMap (· ++ ['\n']) ↔ ls = ls' := by
  constructor
  · intro h
    have hpieces := congrArg (List.splitOn '\n') h
    rw [splitOn_ended hls, splitOn_ended hls'] at hpieces
    exact List.append_cancel_right hpieces
  · exact congrArg _

-- The line that a segment leaves in the output.
def Segment.line : Segment → List Char
  | .outside line => redactLine line
  | .block _ _ _ => marker

theorem flatMap_shown (segs : List Segment) :
    segs.flatMap Segment.shown = (segs.map Segment.line).flatMap (· ++ ['\n']) := by
  rw [List.flatMap_map]
  congr 1
  funext seg
  cases seg <;> rfl

theorem Cut.mem_lines {ls : List (List Char)} {segs : List Segment} (h : Cut ls segs)
    {line : List Char} (hline : Segment.outside line ∈ segs) : line ∈ ls ∧ begins line = false := by
  induction h with
  | done => cases hline
  | outside hbegins hrest ih =>
      obtain heq | hline := List.mem_cons.mp hline
      · obtain rfl := Segment.outside.inj heq
        exact ⟨List.mem_cons_self, hbegins⟩
      · exact ⟨List.mem_cons_of_mem _ (ih hline).1, (ih hline).2⟩
  | block hfirst hbody hlast hrest ih =>
      obtain heq | hline := List.mem_cons.mp hline
      · cases heq
      · exact ⟨by simp [(ih hline).1], (ih hline).2⟩
  | unended hfirst hbody =>
      rw [List.mem_singleton] at hline
      cases hline

theorem cut_outside {ls : List (List Char)} (h : ∀ line ∈ ls, begins line = false) :
    Cut ls (ls.map Segment.outside) := by
  induction ls with
  | nil => exact .done
  | cons line ls ih =>
      exact .outside (h line List.mem_cons_self) (ih fun l hl => h l (List.mem_cons_of_mem _ hl))

-- What a second pass makes of a text cut into segments.
theorem Cut.redactText_twice {text : List Char} {segs : List Segment} (h : Cut (lines text) segs) :
    redactText (redactText text) = redactText text ↔
      ∀ seg ∈ segs, redactLine (strip seg.line) = seg.line := by
  have hnewline : ∀ line ∈ segs.map Segment.line, '\n' ∉ line := by
    intro line hline
    obtain ⟨seg, hseg, rfl⟩ := List.mem_map.mp hline
    cases seg with
    | outside line => exact newline_notMem_redactLine (lines_mem_newline line (h.mem_lines hseg).1)
    | block first body last =>
        have hmarker : '\n' ∉ Segment.marker := by decide
        exact hmarker
  have hbegins : ∀ line ∈ (segs.map Segment.line).map strip, begins line = false := by
    intro line hline
    obtain ⟨left, hleft, rfl⟩ := List.mem_map.mp hline
    obtain ⟨seg, hseg, rfl⟩ := List.mem_map.mp hleft
    cases seg with
    | outside line => exact begins_redactLine (h.mem_lines hseg).2
    | block first body last =>
        have hmarker : begins (strip Segment.marker) = false := by decide
        exact hmarker
  have hfirst : redactText text = (segs.map Segment.line).flatMap (· ++ ['\n']) :=
    h.written_eq.trans (flatMap_shown segs)
  have hlines : lines (redactText text) = (segs.map Segment.line).map strip := by
    rw [hfirst, lines_flatMap hnewline]
  have hsecond : redactText (redactText text) =
      (((segs.map Segment.line).map strip).map redactLine).flatMap (· ++ ['\n']) := by
    have hcut := cut_outside hbegins
    rw [← hlines] at hcut
    refine hcut.written_eq.trans ?_
    rw [flatMap_shown, List.map_map, hlines]
    rfl
  have hclean : ∀ line ∈ ((segs.map Segment.line).map strip).map redactLine, '\n' ∉ line := by
    intro line hline
    obtain ⟨left, hleft, rfl⟩ := List.mem_map.mp hline
    rw [← hlines] at hleft
    exact newline_notMem_redactLine (lines_mem_newline left hleft)
  rw [hsecond, hfirst, flatMap_ended hclean hnewline, List.map_map, List.map_map]
  exact List.map_inj_left

end Passes

end VMForge.Cli
