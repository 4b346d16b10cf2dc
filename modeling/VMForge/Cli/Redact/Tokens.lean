import VMForge.Cli.Redact

namespace VMForge.Cli

open Text

section Words

-- What rule 4 does to a word: its core is replaced.
theorem redactWord_eq {word : List Char} (h : isTokenish word = true) :
    ∃ front back, word = front ++ core word ++ back ∧
      redactWord word = front ++ redacted ++ back ∧ (∀ c ∈ front, c.isAlphanum = false) ∧
      (∀ c ∈ back, c.isAlphanum = false) := by
  obtain ⟨front, back, hword, hfront, hback⟩ :=
    trimMatches_append (fun c => !c.isAlphanum) word
  have hfront' : ∀ c ∈ front, c.isAlphanum = false := by simpa using hfront
  have hback' : ∀ c ∈ back, c.isAlphanum = false := by simpa using hback
  refine ⟨front, back, hword, ?_, hfront', hback'⟩
  unfold redactWord
  rw [if_pos h]
  cases hcore : core word with
  | nil =>
      unfold isTokenish at h
      rw [hcore] at h
      cases h
  | cons a pat =>
      have ha : a.isAlphanum = true := by
        have hhead := trimMatches_cons hcore
        simpa using hhead
      have hnot : ∀ cs : List Char, (∀ c ∈ cs, c.isAlphanum = false) → a ∉ cs := by
        intro cs hcs hmem
        rw [hcs a hmem] at ha
        cases ha
      have hsplit : word = front ++ a :: pat ++ back := by
        rw [← hcore]
        exact hword
      have honce := @replace_once a pat redacted _ _ _ (hnot front hfront') (hnot back hback')
        (Nat.le_refl _)
      rw [← hsplit] at honce
      exact honce

theorem redactWord_of_not {word : List Char} (h : ¬isTokenish word = true) :
    redactWord word = word := if_neg h

theorem alphanum_ascii {c : Char} (h : c.isAlphanum = true) : c.toNat < 128 ∧ ¬c.toNat ≤ 32 := by
  rw [isAlphanum_iff] at h
  omega

theorem tokenChar_ascii {c : Char} (h : isTokenChar c = true) : c.toNat < 128 ∧ ¬c.toNat ≤ 32 := by
  unfold isTokenChar at h
  rw [Bool.or_eq_true] at h
  obtain h | h := h
  · exact alphanum_ascii h
  · simp only [List.mem_cons, List.not_mem_nil, or_false, decide_eq_true_eq] at h
    obtain rfl | rfl | rfl | rfl := h
    all_goals decide

-- The core of a word that rule 4 replaces is long, and of the alphabet of tokens.
theorem core_of_tokenish {word : List Char} (h : isTokenish word = true) :
    40 ≤ (core word).length ∧ ∀ c ∈ core word, isTokenChar c = true := by
  unfold isTokenish at h
  simp only [Bool.and_eq_true, decide_eq_true_eq, List.all_eq_true] at h
  obtain ⟨⟨⟨hlen, hall⟩, -⟩, -⟩ := h
  rw [byteLen_of_ascii fun c hc => (tokenChar_ascii (hall c hc)).1] at hlen
  exact ⟨hlen, hall⟩

end Words

section Lines

theorem redactLongTokens_word {word : List Char} (h : ' ' ∉ word) :
    redactLongTokens word = redactWord word := by
  unfold redactLongTokens
  rw [List.splitOn_eq_singleton h]
  exact List.intercalate_singleton

-- Rule 4 takes one word at a time.
theorem redactLongTokens_append (xs ys : List Char) :
    redactLongTokens (xs ++ ' ' :: ys) = redactLongTokens xs ++ ' ' :: redactLongTokens ys := by
  unfold redactLongTokens
  rw [List.splitOn_append_cons_self, List.map_append, intercalate_append]
  · simp
  · simp
  · simp

-- A text with a blank has a first word.
theorem exists_word {cs : List Char} (h : ' ' ∈ cs) :
    ∃ word rest, cs = word ++ ' ' :: rest ∧ ' ' ∉ word := by
  induction cs with
  | nil => exact absurd h List.not_mem_nil
  | cons c cs ih =>
      by_cases hc : c = ' '
      · exact ⟨[], cs, by rw [hc]; rfl, List.not_mem_nil⟩
      · obtain ⟨word, rest, rfl, hword⟩ := ih ((List.mem_cons.mp h).resolve_left (Ne.symm hc))
        refine ⟨c :: word, rest, rfl, ?_⟩
        simp only [List.mem_cons, not_or]
        exact ⟨Ne.symm hc, hword⟩

end Lines

end VMForge.Cli
