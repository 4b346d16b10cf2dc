import VMForge.Cli.Redact.LongTokens
import VMForge.Cli.Redact.Pem

namespace VMForge.Cli

open Text

-- A line outside of the blocks, or a block with the line that ends it, if there is one.
inductive Segment where
  | outside (line : List Char)
  | block (first : List Char) (body : List (List Char)) (last : Option (List Char))

-- A block goes from its first line to the first later line with an end marker, or to the end.
inductive Cut : List (List Char) → List Segment → Prop where
  | done : Cut [] []
  | outside {line : List Char} {ls : List (List Char)} {segs : List Segment}
      (hline : begins line = false) (hrest : Cut ls segs) : Cut (line :: ls) (.outside line :: segs)
  | block {first last : List Char} {body ls : List (List Char)} {segs : List Segment}
      (hfirst : begins first = true) (hbody : ∀ line ∈ body, ends line = false)
      (hlast : ends last = true) (hrest : Cut ls segs) :
      Cut (first :: (body ++ last :: ls)) (.block first body (some last) :: segs)
  | unended {first : List Char} {body : List (List Char)}
      (hfirst : begins first = true) (hbody : ∀ line ∈ body, ends line = false) :
      Cut (first :: body) [.block first body none]

namespace Segment

def marker : List Char := redacted ++ " (PEM block removed)".toList

-- What a segment leaves in the output.
def shown : Segment → List Char
  | .outside line => redactLine line ++ ['\n']
  | .block _ _ _ => marker ++ ['\n']

-- A segment without what is in its block.
def outline : Segment → Option (List Char)
  | .outside line => some line
  | .block _ _ _ => none

end Segment

section Cuts

variable {ls : List (List Char)} {segs : List Segment}

-- Behind a first line, the lines up to an end marker.
theorem exists_end (ls : List (List Char)) :
    (∃ body last rest, ls = body ++ last :: rest ∧ (∀ line ∈ body, ends line = false) ∧
      ends last = true) ∨ ∀ line ∈ ls, ends line = false := by
  induction ls with
  | nil => exact Or.inr (List.forall_mem_nil _)
  | cons line ls ih =>
      by_cases hline : ends line = true
      · exact Or.inl ⟨[], line, ls, rfl, List.forall_mem_nil _, hline⟩
      · rw [Bool.not_eq_true] at hline
        obtain ⟨body, last, rest, rfl, hbody, hlast⟩ | hnone := ih
        · exact Or.inl ⟨line :: body, last, rest, rfl, List.forall_mem_cons.mpr ⟨hline, hbody⟩, hlast⟩
        · exact Or.inr (List.forall_mem_cons.mpr ⟨hline, hnone⟩)

theorem exists_cut (ls : List (List Char)) : ∃ segs, Cut ls segs := by
  induction hn : ls.length using Nat.strong_induction_on generalizing ls with
  | h n ih =>
      cases ls with
      | nil => exact ⟨[], .done⟩
      | cons line ls =>
          rw [List.length_cons] at hn
          by_cases hline : begins line = true
          · obtain ⟨body, last, rest, rfl, hbody, hlast⟩ | hnone := exists_end ls
            · rw [List.length_append, List.length_cons] at hn
              obtain ⟨segs, hsegs⟩ := ih rest.length (by omega) rest rfl
              exact ⟨_, .block hline hbody hlast hsegs⟩
            · exact ⟨_, .unended hline hnone⟩
          · rw [Bool.not_eq_true] at hline
            obtain ⟨segs, hsegs⟩ := ih ls.length (by omega) ls rfl
            exact ⟨_, .outside hline hsegs⟩

theorem body_inj {body body' rest rest' : List (List Char)} {last last' : List Char}
    (hbody : ∀ line ∈ body, ends line = false) (hlast : ends last = true)
    (hbody' : ∀ line ∈ body', ends line = false) (hlast' : ends last' = true)
    (h : body ++ last :: rest = body' ++ last' :: rest') :
    body = body' ∧ last = last' ∧ rest = rest' := by
  induction body generalizing body' with
  | nil =>
      cases body' with
      | nil =>
          obtain ⟨rfl, rfl⟩ := List.cons.inj h
          exact ⟨rfl, rfl, rfl⟩
      | cons line body' =>
          obtain ⟨rfl, -⟩ := List.cons.inj h
          rw [hbody' last List.mem_cons_self] at hlast
          cases hlast
  | cons line body ih =>
      cases body' with
      | nil =>
          obtain ⟨rfl, -⟩ := List.cons.inj h
          rw [hbody line List.mem_cons_self] at hlast'
          cases hlast'
      | cons line' body' =>
          obtain ⟨rfl, htail⟩ := List.cons.inj h
          obtain ⟨rfl, hrest⟩ := ih (fun l hl => hbody l (List.mem_cons_of_mem _ hl))
            (fun l hl => hbody' l (List.mem_cons_of_mem _ hl)) htail
          exact ⟨rfl, hrest⟩

theorem Cut.unique {segs' : List Segment} (h : Cut ls segs) (h' : Cut ls segs') : segs = segs' := by
  induction h generalizing segs' with
  | done =>
      cases h'
      rfl
  | outside hline hrest ih =>
      cases h' with
      | outside hline' hrest' => rw [ih hrest']
      | block hfirst hbody hlast hrest' =>
          rw [hline] at hfirst
          cases hfirst
      | unended hfirst hbody =>
          rw [hline] at hfirst
          cases hfirst
  | @block first last body ls segs hfirst hbody hlast hrest ih =>
      generalize heq : first :: (body ++ last :: ls) = lines at h'
      cases h' with
      | done => cases heq
      | outside hline' hrest' =>
          obtain ⟨rfl, -⟩ := List.cons.inj heq
          rw [hline'] at hfirst
          cases hfirst
      | block hfirst' hbody' hlast' hrest' =>
          obtain ⟨rfl, htail⟩ := List.cons.inj heq
          obtain ⟨rfl, rfl, rfl⟩ := body_inj hbody hlast hbody' hlast' htail
          rw [ih hrest']
      | unended hfirst' hbody' =>
          obtain ⟨rfl, rfl⟩ := List.cons.inj heq
          rw [hbody' last (by simp)] at hlast
          cases hlast
  | @unended first body hfirst hbody =>
      generalize heq : first :: body = lines at h'
      cases h' with
      | done => cases heq
      | outside hline' hrest' =>
          obtain ⟨rfl, -⟩ := List.cons.inj heq
          rw [hline'] at hfirst
          cases hfirst
      | @block _ last _ _ _ hfirst' hbody' hlast' hrest' =>
          obtain ⟨rfl, rfl⟩ := List.cons.inj heq
          rw [hbody last (by simp)] at hlast'
          cases hlast'
      | unended hfirst' hbody' =>
          obtain ⟨rfl, rfl⟩ := List.cons.inj heq
          rfl

-- What a list of output lines comes to.
def written (outs : List (Option (List Char))) : List Char :=
  outs.flatMap fun
    | none => []
    | some line => line ++ ['\n']

theorem written_append (outs outs' : List (Option (List Char))) :
    written (outs ++ outs') = written outs ++ written outs' := List.flatMap_append

theorem written_inside {body : List (List Char)} (h : ∀ line ∈ body, ends line = false) :
    written (redactLines true body) = [] := by
  rw [(redactLines_inside h).1]
  induction body.length with
  | zero => rfl
  | succ n ih => exact ih

theorem redactLines_begins {line : List Char} (h : begins line = true) (ls : List (List Char)) :
    redactLines false (line :: ls) = some Segment.marker :: redactLines true ls := by
  rw [redactLines]
  exact if_pos h

theorem Cut.written_eq (h : Cut ls segs) :
    written (redactLines false ls) = segs.flatMap Segment.shown := by
  induction h with
  | done => rfl
  | @outside line ls segs hline hrest ih =>
      have hnot : ¬"-----BEGIN".toList.isPrefixOf (trim line) = true := by
        rw [Bool.not_eq_true]
        exact hline
      rw [redactLines, if_neg hnot, List.flatMap_cons, ← ih]
      rfl
  | @block first last body ls segs hfirst hbody hlast hrest ih =>
      have hend : redactLines true (last :: ls) = none :: redactLines false ls := by
        unfold ends at hlast
        rw [redactLines, hlast]
        rfl
      have htail : written (redactLines true (body ++ last :: ls)) = segs.flatMap Segment.shown := by
        rw [redactLines_append, (redactLines_inside hbody).2, hend, written_append,
          written_inside hbody, ← ih]
        rfl
      rw [redactLines_begins hfirst, List.flatMap_cons, ← htail]
      rfl
  | @unended first body hfirst hbody =>
      have hcons : written (some Segment.marker :: redactLines true body) =
          Segment.marker ++ ['\n'] ++ written (redactLines true body) := rfl
      rw [redactLines_begins hfirst, hcons, written_inside hbody, List.append_nil,
        List.flatMap_singleton]
      rfl

end Cuts

section Newlines

variable {c : Char}

-- A character that no replacement has is not more often in a redacted line than in the line.
theorem count_redactKeyValue (hc : c ∉ ' ' :: redacted) (line : List Char) :
    (redactKeyValue line).count c ≤ line.count c := by
  have hsplit := congrArg (List.count c)
    (@List.takeWhile_append_dropWhile _ (fun c => !isSeparator c) line)
  rw [List.count_append] at hsplit
  have hnone := List.count_eq_zero.mpr hc
  unfold redactKeyValue
  cases hrest : line.dropWhile fun c => !isSeparator c with
  | nil => exact Nat.le_refl _
  | cons ch rest =>
      rw [hrest, List.count_cons] at hsplit
      simp only
      split
      · rw [List.count_append, List.count_cons, hnone]
        omega
      · exact Nat.le_refl _

theorem count_masked (hc : c ∉ redacted) (run : List Char) : (masked run).count c ≤ run.count c := by
  unfold masked
  split
  · rw [List.count_eq_zero.mpr hc]
    exact Nat.zero_le _
  · exact Nat.le_refl _

theorem count_schemeWords (hc : c ∉ redacted) (armed : Bool) (words : List (List Char)) :
    ((schemeWords armed words).map (List.count c)).sum ≤ (words.map (List.count c)).sum := by
  induction words generalizing armed with
  | nil => cases armed <;> exact Nat.le_refl _
  | cons word rest ih =>
      have hsplit := congrArg (List.count c) (@List.takeWhile_append_dropWhile _ visible word)
      have hrun := count_masked hc (word.takeWhile visible)
      rw [List.count_append] at hsplit
      rw [schemeWords_cons, List.map_cons, List.sum_cons, List.map_cons, List.sum_cons]
      apply Nat.add_le_add _ (ih _)
      split
      · rw [List.count_append]
        omega
      · exact Nat.le_refl _

theorem count_redactWord (hc : c ∉ redacted) (word : List Char) :
    (redactWord word).count c ≤ word.count c := by
  by_cases htoken : isTokenish word = true
  · obtain ⟨front, back, hword, hout, -, -⟩ := redactWord_eq htoken
    have hcount := congrArg (List.count c) hword
    have hnone := List.count_eq_zero.mpr hc
    rw [hout]
    simp only [List.count_append] at hcount ⊢
    omega
  · rw [redactWord_of_not htoken]

theorem count_redactLine (hc : c ∉ ' ' :: redacted) (line : List Char) :
    (redactLine line).count c ≤ line.count c := by
  have hne : c ≠ ' ' := fun heq => hc (heq ▸ List.mem_cons_self)
  have hout : c ∉ redacted := fun hmem => hc (List.mem_cons_of_mem _ hmem)
  have hwords : ∀ words : List (List Char),
      ((words.map redactWord).map (List.count c)).sum ≤ (words.map (List.count c)).sum := by
    intro words
    induction words with
    | nil => exact Nat.le_refl _
    | cons word rest ih => exact Nat.add_le_add (count_redactWord hout word) ih
  rw [redactLine_words, count_intercalate hne]
  calc
    _ ≤ ((schemeWords false ((redactKeyValue line).splitOn ' ')).map (List.count c)).sum := hwords _
    _ ≤ (((redactKeyValue line).splitOn ' ').map (List.count c)).sum := count_schemeWords hout _ _
    _ = (redactKeyValue line).count c := count_splitOn hne _
    _ ≤ line.count c := count_redactKeyValue hc line

theorem newline_notMem_redactLine {line : List Char} (h : '\n' ∉ line) : '\n' ∉ redactLine line := by
  have hle := @count_redactLine '\n' (by decide) line
  rw [List.count_eq_zero.mpr h] at hle
  exact List.count_eq_zero.mp (Nat.le_zero.mp hle)

theorem lines_redactLine {line : List Char} (h : '\n' ∉ line) :
    lines (redactLine line ++ ['\n']) = [strip (redactLine line)] := by
  rw [lines_ended, splitOn_of_notMem (newline_notMem_redactLine h)]
  rfl

end Newlines

-- The blocks go and everything else is redacted line by line, whatever is in the blocks.
theorem blocks_removed :
    (∀ text, ∃! segs, Cut (lines text) segs) ∧
    (∀ text segs, Cut (lines text) segs → redactText text = segs.flatMap Segment.shown) ∧
    (∀ text text' segs segs', Cut (lines text) segs → Cut (lines text') segs' →
      segs.map Segment.outline = segs'.map Segment.outline → redactText text = redactText text') ∧
    ∀ line, '\n' ∉ line → (lines (redactLine line ++ ['\n'])).length = 1 := by
  have hshown : ∀ text segs, Cut (lines text) segs → redactText text = segs.flatMap Segment.shown :=
    fun text segs h => h.written_eq
  refine ⟨fun text => ?_, hshown, ?_, ?_⟩
  · obtain ⟨segs, hsegs⟩ := exists_cut (lines text)
    exact ⟨segs, hsegs, fun segs' h => h.unique hsegs⟩
  · intro text text' segs segs' hcut hcut' houtline
    have hout : ∀ segs : List Segment, segs.flatMap Segment.shown =
        (segs.map Segment.outline).flatMap fun line =>
          (line.elim Segment.marker redactLine) ++ ['\n'] := by
      intro segs
      rw [List.flatMap_map]
      congr 1
      funext seg
      cases seg <;> rfl
    rw [hshown text segs hcut, hshown text' segs' hcut', hout, hout, houtline]
  · intro line h
    rw [lines_redactLine h]
    rfl

theorem blocks_removed_key :
    redactText "a\n-----BEGIN X\nb\n-----END X\nc".toList =
      "a\n[REDACTED] (PEM block removed)\nc\n".toList := by
  have hlines : lines "a\n-----BEGIN X\nb\n-----END X\nc".toList =
      ["a".toList, "-----BEGIN X".toList, "b".toList, "-----END X".toList, "c".toList] := by
    decide
  have hcut : Cut ["a".toList, "-----BEGIN X".toList, "b".toList, "-----END X".toList, "c".toList]
      [.outside "a".toList, .block "-----BEGIN X".toList ["b".toList] (some "-----END X".toList),
        .outside "c".toList] := by
    refine .outside (by decide) ?_
    refine @Cut.block _ _ ["b".toList] _ _ (by decide) ?_ (by decide) ?_
    · decide
    · exact .outside (by decide) .done
  rw [blocks_removed.2.1 _ _ (hlines ▸ hcut)]
  decide

end VMForge.Cli
