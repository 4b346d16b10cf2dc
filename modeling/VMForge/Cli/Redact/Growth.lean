import VMForge.Cli.Diagnose
import VMForge.Cli.Redact.Slices
import VMForge.Cli.Redact.Tokens

namespace VMForge.Cli

open Text

section Line

theorem byteLen_redacted : byteLen redacted = 10 := by decide

theorem byteLen_redactKeyValue (line : List Char) : byteLen (redactKeyValue line) ≤ byteLen line + 11 := by
  unfold redactKeyValue
  simp only
  split
  · exact Nat.le_add_right _ _
  · rename_i ch rest hrest
    split
    · have hline : line = line.takeWhile (fun c => !isSeparator c) ++ ch :: rest := by
        rw [← hrest, List.takeWhile_append_dropWhile]
      have hlen := congrArg byteLen hline
      have hblank : ' '.utf8Size = 1 := by decide
      rw [byteLen_append, byteLen_cons] at hlen
      rw [byteLen_append, byteLen_cons, byteLen_cons, byteLen_redacted, hblank]
      omega
    · exact Nat.le_add_right _ _

-- A value that is replaced has eight bytes at least.
theorem Copied.byteLen_le {text out : List Char} (h : Copied text out) : byteLen out ≤ 2 * byteLen text := by
  induction h with
  | nil => exact Nat.zero_le _
  | keep c h ih =>
      rw [byteLen_cons, byteLen_cons]
      omega
  | value hkey hlong hvalue h ih =>
      simp only [byteLen_append, byteLen_redacted]
      omega

theorem byteLen_redactWord (word : List Char) : byteLen (redactWord word) ≤ byteLen word := by
  by_cases htoken : isTokenish word = true
  · obtain ⟨front, back, hword, hredacted, -, -⟩ := redactWord_eq htoken
    have hlong := (core_of_tokenish htoken).1
    have hcore := length_le_byteLen (core word)
    have hlen := congrArg byteLen hword
    rw [byteLen_append, byteLen_append] at hlen
    rw [hredacted, byteLen_append, byteLen_append, byteLen_redacted]
    omega
  · rw [redactWord_of_not htoken]

theorem byteLen_redactLongTokens (line : List Char) : byteLen (redactLongTokens line) ≤ byteLen line := by
  obtain ⟨n, hn⟩ : ∃ n, n = line.length := ⟨_, rfl⟩
  induction n using Nat.strongRecOn generalizing line with
  | ind n ih =>
      by_cases hblank : ' ' ∈ line
      · obtain ⟨word, rest, rfl, hword⟩ := exists_word hblank
        have hrest := ih rest.length (by simp at hn; omega) rest rfl
        have hfirst := byteLen_redactWord word
        rw [redactLongTokens_append, redactLongTokens_word hword, byteLen_append, byteLen_append,
          byteLen_cons, byteLen_cons]
        omega
      · rw [redactLongTokens_word hblank]
        exact byteLen_redactWord line

theorem byteLen_redactLine (line : List Char) : byteLen (redactLine line) ≤ 2 * byteLen line + 22 := by
  have hkey := byteLen_redactKeyValue line
  have hscheme := (redactAuthSchemes_copied (redactKeyValue line)).byteLen_le
  have htokens := byteLen_redactLongTokens (redactAuthSchemes (redactKeyValue line))
  unfold redactLine
  omega

end Line

section Texts

-- The bytes of some lines, each with its end.
def linesLen (ls : List (List Char)) : Nat := (ls.map fun line => byteLen line + 1).sum

theorem linesLen_cons (line : List Char) (ls : List (List Char)) :
    linesLen (line :: ls) = byteLen line + 1 + linesLen ls := rfl

theorem linesLen_append (ls ls' : List (List Char)) : linesLen (ls ++ ls') = linesLen ls + linesLen ls' := by
  simp only [linesLen, List.map_append, List.sum_append]

theorem linesLen_intercalate {ls : List (List Char)} (hne : ls ≠ []) :
    byteLen (['\n'].intercalate ls) + 1 = linesLen ls := by
  have hnewline : '\n'.utf8Size = 1 := by decide
  induction ls with
  | nil => exact absurd rfl hne
  | cons line rest ih =>
      cases rest with
      | nil => simp [List.intercalate, linesLen]
      | cons line' rest =>
          have hrest := ih (by simp)
          have hcons : ['\n'].intercalate (line :: line' :: rest) =
              line ++ '\n' :: ['\n'].intercalate (line' :: rest) := by
            simp [List.intercalate, List.intersperse]
          rw [hcons, byteLen_append, byteLen_cons, linesLen_cons, ← hrest, hnewline]
          omega

theorem linesLen_strip (ls : List (List Char)) : linesLen (ls.map strip) ≤ linesLen ls := by
  induction ls with
  | nil => exact Nat.le_refl _
  | cons line ls ih =>
      have hline : byteLen (strip line) ≤ byteLen line := by
        unfold strip
        split
        · have hsplit := List.dropLast_append_getLast? '\r' (by assumption)
          rw [← congrArg byteLen hsplit, byteLen_append]
          exact Nat.le_add_right _ _
        · exact Nat.le_refl _
      rw [List.map_cons, linesLen_cons, linesLen_cons]
      omega

-- The lines of a text are no longer than the text.
theorem linesLen_lines (text : List Char) : linesLen (lines text) ≤ byteLen text + 1 := by
  obtain ⟨front, last, hsplit, hlines⟩ := lines_eq text
  have htext : byteLen text + 1 = linesLen (text.splitOn '\n') := by
    rw [← linesLen_intercalate (List.splitOn_ne_nil '\n' text), List.intercalate_splitOn]
  have hlast : linesLen (if last = [] then [] else [last]) ≤ linesLen [last] := by
    split
    · exact Nat.zero_le _
    · exact Nat.le_refl _
  have hfront := linesLen_strip front
  rw [htext, hsplit, hlines, linesLen_append, linesLen_append]
  omega

theorem byteLen_redactLines (inside : Bool) (ls : List (List Char)) :
    byteLen ((redactLines inside ls).flatMap fun
      | none => []
      | some line => line ++ ['\n']) ≤ 31 * linesLen ls := by
  have hnewline : byteLen ['\n'] = 1 := by decide
  induction ls generalizing inside with
  | nil => cases inside <;> exact Nat.zero_le _
  | cons line ls ih =>
      rw [linesLen_cons]
      cases inside with
      | true =>
          have hrest := ih (!"-----END".toList.isPrefixOf (trim line))
          rw [redactLines, List.flatMap_cons, byteLen_append]
          have hnone : byteLen ([] : List Char) = 0 := rfl
          simp only [hnone]
          omega
      | false =>
          rw [redactLines]
          split
          · have hrest := ih true
            have hmark : byteLen (redacted ++ " (PEM block removed)".toList) = 30 := by decide
            rw [List.flatMap_cons, byteLen_append]
            simp only [byteLen_append _ ['\n'], hmark, hnewline]
            omega
          · have hrest := ih false
            have hline := byteLen_redactLine line
            rw [List.flatMap_cons, byteLen_append]
            simp only [byteLen_append _ ['\n'], hnewline]
            omega

theorem byteLen_redactText (text : List Char) : byteLen (redactText text) ≤ 31 * (byteLen text + 1) := by
  have hlines := linesLen_lines text
  exact Nat.le_trans (byteLen_redactLines false (lines text)) (Nat.mul_le_mul_left 31 hlines)

-- What is kept of a log is bounded.
theorem byteLen_excerpt {content : List UInt8} {text : List Char} (h : excerpt content = some text) :
    byteLen text < 8 ^ 11 := by
  unfold excerpt tailFile at h
  obtain ⟨tail, htail, rfl⟩ := Option.map_eq_some_iff.mp h
  obtain ⟨buf, hbuf, htail⟩ := Option.bind_eq_some_iff.mp htail
  obtain rfl := Option.some.inj htail
  have hread : byteLen buf ≤ logTailBytes := by
    rw [← length_encode, ← Utf8.decode_iff.mp hbuf, List.length_drop]
    omega
  have hnewline : byteLen ['\n'] = 1 := by decide
  have hkept : linesLen ((lines buf).drop ((lines buf).length - logTailLines)) ≤ byteLen buf + 1 := by
    have hall := linesLen_lines buf
    have hsplit := congrArg linesLen (List.take_append_drop ((lines buf).length - logTailLines) (lines buf))
    rw [linesLen_append] at hsplit
    omega
  have htail : byteLen (['\n'].intercalate ((lines buf).drop ((lines buf).length - logTailLines)) ++ ['\n']) ≤
      byteLen buf + 1 := by
    rw [byteLen_append, hnewline]
    cases hls : (lines buf).drop ((lines buf).length - logTailLines) with
    | nil => exact Nat.le_add_left 1 _
    | cons line rest =>
        rw [hls] at hkept
        rw [linesLen_intercalate (by simp)]
        exact hkept
  have hbound := byteLen_redactText
    (['\n'].intercalate ((lines buf).drop ((lines buf).length - logTailLines)) ++ ['\n'])
  have hmax : logTailBytes = 262144 := rfl
  have hpow : 8 ^ 11 = 8589934592 := rfl
  omega

end Texts

end VMForge.Cli
