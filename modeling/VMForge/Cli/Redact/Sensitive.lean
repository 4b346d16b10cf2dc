import VMForge.Cli.Redact.Schemes

namespace VMForge.Cli

open Text

section Pieces

variable {p : Char → Bool} {k cs : List Char}

theorem contains_iff {pat : List Char} : contains cs pat = true ↔ pat <:+: cs := by
  unfold contains
  induction cs with
  | nil =>
      rw [find_nil, List.infix_nil]
      split
      · rename_i h
        exact iff_of_true rfl h
      · rename_i h
        exact iff_of_false (by simp) h
  | cons c cs ih =>
      rw [find_cons, List.infix_cons_iff, ← ih]
      by_cases hprefix : pat.isPrefixOf (c :: cs) = true
      · rw [if_pos hprefix]
        exact iff_of_true rfl (Or.inl (List.isPrefixOf_iff_prefix.mp hprefix))
      · rw [if_neg hprefix, Option.isSome_map, or_iff_right]
        exact fun h => hprefix (List.isPrefixOf_iff_prefix.mpr h)

-- A piece without separators is in the last word if nothing behind it separates.
theorem infix_lastPiece (hk : ∀ c ∈ k, p c = false) :
    k <:+: lastPiece p cs ↔ ∃ x y, cs = x ++ (k ++ y) ∧ ∀ c ∈ y, p c = false := by
  unfold lastPiece
  constructor
  · rintro ⟨a, b, hpiece⟩
    obtain ⟨front, hfront⟩ : (cs.reverse.takeWhile fun c => !p c).reverse <:+ cs := by
      rw [← List.reverse_prefix, List.reverse_reverse]
      exact List.takeWhile_prefix _
    refine ⟨front ++ a, b, ?_, fun c hc => ?_⟩
    · rw [← hfront, ← hpiece]
      simp
    · have hmem : c ∈ (cs.reverse.takeWhile fun c => !p c).reverse := by
        rw [← hpiece]
        exact List.mem_append_right _ hc
      simpa using List.mem_takeWhile_imp (List.mem_reverse.mp hmem)
  · rintro ⟨x, y, rfl, hy⟩
    have hfree : ∀ c ∈ (k ++ y).reverse, (!p c) = true := by
      intro c hc
      obtain hc | hc := List.mem_append.mp (List.mem_reverse.mp hc)
      · rw [hk c hc]
        rfl
      · rw [hy c hc]
        rfl
    rw [List.reverse_append, List.takeWhile_append_of_pos hfree, List.reverse_append,
      List.reverse_reverse]
    exact ⟨_, y, by rw [List.append_assoc]⟩

theorem trimEnd_mid {c : Char} (hc : p c = false) (front back : List Char) :
    trimEnd p (front ++ c :: back) = front ++ c :: trimEnd p back := by
  have hkeep : ((c :: front.reverse).dropWhile p) = c :: front.reverse :=
    List.dropWhile_cons_of_neg (by rw [hc]; exact Bool.false_ne_true)
  unfold trimEnd
  rw [List.reverse_append, List.reverse_cons, List.append_assoc, List.singleton_append,
    List.dropWhile_append, hkeep]
  split
  · rename_i hnil
    rw [List.isEmpty_iff.mp hnil]
    simp
  · simp

theorem trimStart_mid {c : Char} (hc : p c = false) (front back : List Char) :
    trimStart p (front ++ c :: back) = trimStart p front ++ c :: back := by
  have hkeep : ((c :: back).dropWhile p) = c :: back :=
    List.dropWhile_cons_of_neg (by rw [hc]; exact Bool.false_ne_true)
  unfold trimStart
  rw [List.dropWhile_append, hkeep]
  split
  · rename_i hnil
    rw [List.isEmpty_iff.mp hnil]
    rfl
  · rfl

theorem trimEnd_all {back : List Char} (hback : ∀ c ∈ back, p c = true) (front : List Char) :
    trimEnd p (front ++ back) = trimEnd p front := by
  unfold trimEnd
  rw [List.reverse_append, List.dropWhile_append_of_pos]
  exact fun c hc => hback c (List.mem_reverse.mp hc)

theorem trimEnd_trimEnd (cs : List Char) : trimEnd p (trimEnd p cs) = trimEnd p cs := by
  obtain ⟨back, hback, hall⟩ := trimEnd_append p cs
  have h := trimEnd_all hall (trimEnd p cs)
  rw [← hback] at h
  exact h.symm

-- Trimming keeps a piece that it does not apply to, and trims what is behind it.
theorem exists_trimMatches (hne : k ≠ []) (hk : ∀ c ∈ k, p c = false) (P : List Char → Prop) :
    (∃ x y, trimMatches p cs = x ++ (k ++ y) ∧ P y) ↔
      ∃ x y, cs = x ++ (k ++ y) ∧ P (trimEnd p y) := by
  have hend : ∀ x y, trimEnd p (x ++ (k ++ y)) = x ++ (k ++ trimEnd p y) := by
    intro x y
    obtain ⟨front, last, rfl⟩ := List.eq_nil_or_concat k |>.resolve_left hne
    have hlast := hk last (by simp)
    have h := trimEnd_mid hlast (x ++ front) y
    simpa using h
  constructor
  · rintro ⟨x, y, htrim, hy⟩
    obtain ⟨front, back, hcs, -, hback⟩ := trimMatches_append p cs
    have hfixed : y = trimEnd p y := by
      have h := trimEnd_trimEnd (p := p) (trimStart p cs)
      have htrim' : trimEnd p (trimStart p cs) = x ++ (k ++ y) := htrim
      rw [htrim', hend] at h
      exact (List.append_cancel_left (List.append_cancel_left h)).symm
    refine ⟨front ++ x, y ++ back, ?_, ?_⟩
    · rw [hcs, htrim]
      simp
    · rw [trimEnd_all hback, ← hfixed]
      exact hy
  · rintro ⟨x, y, rfl, hy⟩
    obtain ⟨first, rest, rfl⟩ := List.exists_cons_of_ne_nil hne
    refine ⟨trimStart p x, trimEnd p y, ?_, hy⟩
    have hstart : trimStart p (x ++ (first :: rest ++ y)) = trimStart p x ++ (first :: rest ++ y) :=
      trimStart_mid (hk first List.mem_cons_self) x (rest ++ y)
    unfold trimMatches
    rw [hstart, hend]

end Pieces

section Keys

variable {d : Char} {front back : List Char}

-- What counts of what stands between a key and a separator.
def closing (behind : List Char) : List Char :=
  trimEnd (· == '\'') (trimEnd (· == '"') (trimEnd isWhitespace behind))

theorem key_chars {k : String} (hk : k ∈ sensitiveKeys) :
    k.toList ≠ [] ∧ ∀ c ∈ k.toList, isWhitespace c = false ∧ (c == '"') = false ∧
      (c == '\'') = false ∧ endsWord c = false ∧ c ≠ ' ' ∧ c ≠ '[' ∧ c ≠ ']' := by
  unfold sensitiveKeys at hk
  simp only [List.mem_cons, List.not_mem_nil, or_false] at hk
  obtain rfl | rfl | rfl | rfl | rfl | rfl | rfl | rfl | rfl | rfl | rfl | rfl | rfl | rfl | rfl |
    rfl | rfl | rfl | rfl | rfl | rfl | rfl := hk
  all_goals decide

-- A key is sensitive where one of the words is followed by nothing that ends a word.
theorem isSensitive_iff (before : List Char) :
    isSensitive before = true ↔ ∃ k ∈ sensitiveKeys, ∃ x y,
      lower before = x ++ (k.toList ++ y) ∧ ∀ c ∈ closing y, endsWord c = false := by
  unfold isSensitive
  rw [List.any_eq_true]
  have hiff : ∀ k ∈ sensitiveKeys, contains (lastWord before) k.toList = true ↔ ∃ x y,
      lower before = x ++ (k.toList ++ y) ∧ ∀ c ∈ closing y, endsWord c = false := by
    intro k hk
    obtain ⟨hne, hchars⟩ := key_chars hk
    have hsingle : ∀ c ∈ k.toList, (c == '\'') = false := fun c hc => (hchars c hc).2.2.1
    have hdouble : ∀ c ∈ k.toList, (c == '"') = false := fun c hc => (hchars c hc).2.1
    have hblank : ∀ c ∈ k.toList, isWhitespace c = false := fun c hc => (hchars c hc).1
    have hends : ∀ c ∈ k.toList, endsWord c = false := fun c hc => (hchars c hc).2.2.2.1
    unfold lastWord closing trim
    rw [contains_iff, infix_lastPiece hends]
    rw [exists_trimMatches hne hsingle fun y => ∀ c ∈ y, endsWord c = false]
    rw [exists_trimMatches hne hdouble fun y => ∀ c ∈ trimEnd (· == '\'') y, endsWord c = false]
    rw [exists_trimMatches hne hblank
      fun y => ∀ c ∈ trimEnd (· == '\'') (trimEnd (· == '"') y), endsWord c = false]
  constructor
  · rintro ⟨k, hk, hcontains⟩
    exact ⟨k, hk, (hiff k hk).mp hcontains⟩
  · rintro ⟨k, hk, hfound⟩
    exact ⟨k, hk, (hiff k hk).mpr hfound⟩

-- A character that no trimming takes keeps what stands before it.
theorem closing_mid (hd : isWhitespace d = false ∧ (d == '"') = false ∧ (d == '\'') = false) :
    closing (front ++ d :: back) = front ++ d :: closing back := by
  unfold closing
  rw [trimEnd_mid hd.1, @trimEnd_mid (· == '"') _ hd.2.1, @trimEnd_mid (· == '\'') _ hd.2.2]

theorem lower_mid (front : List Char) (c : Char) (back : List Char) :
    lower (front ++ c :: back) = lower front ++ c.toLower :: lower back := by
  unfold lower
  rw [List.map_append, List.map_cons]

-- No key starts with a character that is neither a letter nor a digit.
theorem key_behind {plain text x y : List Char} {k : String} (hk : k ∈ sensitiveKeys)
    (hplain : ∀ c ∈ plain, c.isAlphanum = false)
    (h : lower plain ++ lower text = x ++ (k.toList ++ y)) :
    ∃ x', lower text = x' ++ (k.toList ++ y) := by
  obtain ⟨first, rest, hkey⟩ := List.exists_cons_of_ne_nil (key_chars hk).1
  obtain ⟨m, -, htext⟩ | ⟨m, hm, htext⟩ := List.append_eq_append_iff.mp h
  · exact ⟨m, htext⟩
  · cases m with
    | nil => exact ⟨[], htext.symm⟩
    | cons c m =>
        rw [hkey] at htext
        obtain ⟨rfl, -⟩ := List.cons.inj htext
        have hletter : ∀ k ∈ sensitiveKeys, k.toList.head?.any Char.isAlphanum = true := by decide
        have hfirst := hletter k hk
        rw [hkey] at hfirst
        obtain ⟨d, hd, hlower⟩ : ∃ d ∈ plain, d.toLower = first :=
          List.mem_map.mp (by rw [show plain.map Char.toLower = lower plain from rfl, hm]; simp)
        have hnot := hplain d hd
        obtain hsame | ⟨hlow, hhigh, -⟩ := toLower_cases d
        · rw [hsame] at hlower
          rw [hlower] at hnot
          have hyes : first.isAlphanum = true := hfirst
          rw [hyes] at hnot
          cases hnot
        · have hyes : d.isAlphanum = true := by
            rw [isAlphanum_iff]
            omega
          rw [hyes] at hnot
          cases hnot

theorem isSensitive_plain {plain : List Char} (hplain : ∀ c ∈ plain, c.isAlphanum = false)
    (text : List Char) : isSensitive (plain ++ text) = isSensitive text := by
  rw [Bool.eq_iff_iff, isSensitive_iff, isSensitive_iff]
  have hlower : lower (plain ++ text) = lower plain ++ lower text := List.map_append ..
  rw [hlower]
  constructor
  · rintro ⟨k, hk, x, y, heq, hy⟩
    obtain ⟨x', htext⟩ := key_behind hk hplain heq
    exact ⟨k, hk, x', y, htext, hy⟩
  · rintro ⟨k, hk, x, y, heq, hy⟩
    refine ⟨k, hk, lower plain ++ x, y, ?_, hy⟩
    rw [heq, List.append_assoc]

-- Behind a blank and an opening bracket only what comes then counts.
theorem isSensitive_bracket {plain : List Char} (hplain : ∀ c ∈ plain, c.isAlphanum = false)
    (front back : List Char) :
    isSensitive (front ++ ' ' :: (plain ++ '[' :: back)) = isSensitive ('[' :: back) := by
  rw [Bool.eq_iff_iff, isSensitive_iff, isSensitive_iff]
  have hlower : lower (front ++ ' ' :: (plain ++ '[' :: back)) =
      lower front ++ ' ' :: (lower plain ++ lower ('[' :: back)) := by
    simp [lower]
  rw [hlower]
  constructor
  · rintro ⟨k, hk, x, y, heq, hy⟩
    have hnot : ' ' ∉ k.toList := fun h => ((key_chars hk).2 ' ' h).2.2.2.2.1 rfl
    obtain ⟨x', -, hback⟩ | ⟨y', rfl, -⟩ := append_around hnot heq
    · obtain ⟨x'', htext⟩ := key_behind hk hplain hback
      exact ⟨k, hk, x'', y, htext, hy⟩
    · have hclosing : closing (y' ++ ' ' :: (lower plain ++ lower ('[' :: back))) =
          (y' ++ ' ' :: lower plain) ++ '[' :: closing (lower back) := by
        rw [← closing_mid (by decide), List.append_assoc]
        rfl
      have hblank := hy ' ' (by rw [hclosing]; simp)
      exact absurd hblank (by decide)
  · rintro ⟨k, hk, x, y, heq, hy⟩
    refine ⟨k, hk, lower front ++ ' ' :: (lower plain ++ x), y, ?_, hy⟩
    rw [heq]
    simp

-- There is no key in the replacement.
theorem isSensitive_redacted (back : List Char) :
    isSensitive (redacted ++ back) = isSensitive back := by
  rw [Bool.eq_iff_iff, isSensitive_iff, isSensitive_iff]
  have hlower : lower (redacted ++ back) = "[redacted".toList ++ ']' :: lower back :=
    lower_mid "[REDACTED".toList ']' back
  rw [hlower]
  constructor
  · rintro ⟨k, hk, x, y, heq, hy⟩
    have hnot : ']' ∉ k.toList := fun h => ((key_chars hk).2 ']' h).2.2.2.2.2.2 rfl
    obtain ⟨x', -, hback⟩ | ⟨y', -, hfront⟩ := append_around hnot heq
    · exact ⟨k, hk, x', y, hback, hy⟩
    · have hnone : ∀ k ∈ sensitiveKeys, ¬k.toList <:+: "[redacted".toList := by decide
      exact absurd ⟨x, y', by rw [hfront, List.append_assoc]⟩ (hnone k hk)
  · rintro ⟨k, hk, x, y, heq, hy⟩
    refine ⟨k, hk, "[redacted".toList ++ ']' :: x, y, ?_, hy⟩
    rw [heq]
    simp

-- A replacement hides the keys before it: it stands behind a blank, or at the start of the line, and
-- no letters or digits are between.
theorem isSensitive_behind {front plain : List Char} (hfront : front ≠ [] → front.getLast? = some ' ')
    (hplain : ∀ c ∈ plain, c.isAlphanum = false) (back : List Char) :
    isSensitive (front ++ (plain ++ (redacted ++ back))) = isSensitive back := by
  obtain rfl | ⟨front, c, rfl⟩ := List.eq_nil_or_concat front
  · rw [List.nil_append, isSensitive_plain hplain, isSensitive_redacted]
  · rw [List.concat_eq_append] at hfront ⊢
    obtain rfl : c = ' ' := by simpa using hfront (by simp)
    rw [← isSensitive_redacted back, List.append_assoc]
    exact isSensitive_bracket hplain front ("REDACTED]".toList ++ back)

end Keys

end VMForge.Cli
