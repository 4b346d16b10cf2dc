import VMForge.Cli.Redact.Blocks
import VMForge.Cli.Redact.Keys

namespace VMForge.Cli

open Text

-- The run at the start of a word is not, or not again, replaced behind a keyword.
def spared (word : List Char) : Bool :=
  byteLen (word.takeWhile visible) < 8 || word.takeWhile visible == redacted ||
    (isTokenish word && core word == word.takeWhile visible)

-- A second pass of rules 2 and 4 changes nothing: `first` and `second` say which of the two passes
-- take a word for a value. A keyword at the end of a token is one for the first pass only, and then
-- the second pass may see another one in a short value.
def steady : Bool → Bool → List (List Char) → Bool
  | _, _, [] => true
  | first, second, word :: rest =>
      (first || !second || spared word) &&
        steady (behindWord first word)
          (if replaces first word = true then behindWord true word
            else behindWord second word && !isTokenish word) rest

section Words

theorem isTokenish_redactWord (word : List Char) : isTokenish (redactWord word) = false := by
  by_cases htoken : isTokenish word = true
  · rw [Bool.eq_false_iff]
    intro hagain
    obtain ⟨front, back, -, hout, hfront, hback⟩ := redactWord_eq htoken
    obtain ⟨front', back', hword', -, -, -⟩ := redactWord_eq hagain
    obtain ⟨hlong, hcore⟩ := core_of_tokenish hagain
    obtain ⟨c, hc, halphanum⟩ := exists_digit hagain
    have hnot : ∀ d, isTokenChar d = false → d ∉ core (redactWord word) := by
      intro d hd hmem
      rw [hcore d hmem] at hd
      cases hd
    have hplain : ∀ text : List Char, (∀ d ∈ text, d.isAlphanum = false) →
        ¬core (redactWord word) <:+: text := by
      intro text htext hinside
      rw [htext c (hinside.subset hc)] at halphanum
      cases halphanum
    have hinfix : core (redactWord word) <:+:
        front ++ '[' :: ("REDACTED".toList ++ ']' :: back) := by
      refine ⟨front', back', ?_⟩
      rw [← hword', hout, List.append_assoc]
      rfl
    rw [infix_append_cons (hnot '[' (by decide)), infix_append_cons (hnot ']' (by decide))]
      at hinfix
    obtain hinfix | hinfix | hinfix := hinfix
    · exact hplain front hfront hinfix
    · have hlen := hinfix.length_le
      have height : "REDACTED".toList.length = 8 := by decide
      omega
    · exact hplain back hback hinfix
  · rw [redactWord_of_not htoken, Bool.not_eq_true] at *
    exact htoken

theorem redactWord_redactWord (word : List Char) : redactWord (redactWord word) = redactWord word :=
  redactWord_of_not (by rw [isTokenish_redactWord]; exact Bool.false_ne_true)

-- The run at the start of a word that rule 4 hides a token in: it is before the token, or the token
-- is in it.
theorem token_run {word : List Char} (h : isTokenish word = true) :
    ((redactWord word).takeWhile visible = word.takeWhile visible ∧
        core word ≠ word.takeWhile visible) ∨
      8 ≤ byteLen (word.takeWhile visible) ∧ 8 ≤ byteLen ((redactWord word).takeWhile visible) ∧
        word.takeWhile visible ≠ redacted ∧
        ((redactWord word).takeWhile visible = redacted ↔ core word = word.takeWhile visible) := by
  obtain ⟨front, back, hword, hout, hfront, -⟩ := redactWord_eq h
  obtain ⟨hlen, hcore⟩ := core_of_tokenish h
  obtain ⟨c, hc, halphanum⟩ := exists_digit h
  have hshown : ∀ c ∈ core word, visible c = true := fun c hc =>
    visible_of_range (by have hc' := (tokenChar_ascii (hcore c hc)).2; omega)
      (tokenChar_ascii (hcore c hc)).1
  have hten : redacted.length = 10 := rfl
  have hrun : ∀ middle : List Char, (∀ c ∈ middle, visible c = true) →
      (front ++ middle ++ back).takeWhile visible =
        if (front.takeWhile visible).length = front.length then
          front ++ (middle ++ back.takeWhile visible)
        else front.takeWhile visible := by
    intro middle hmiddle
    rw [List.append_assoc, List.takeWhile_append, List.takeWhile_append_of_pos hmiddle]
  rw [hout]
  generalize core word = token at hword hlen hcore hshown hc ⊢
  rw [hword, hrun token hshown, hrun redacted (by decide)]
  generalize back.takeWhile visible = run
  by_cases hall : (front.takeWhile visible).length = front.length
  · rw [if_pos hall, if_pos hall]
    right
    have hlength : ∀ middle : List Char, (front ++ (middle ++ run)).length =
        front.length + (middle.length + run.length) := by
      intro middle
      rw [List.length_append, List.length_append]
    have hbytes := length_le_byteLen (front ++ (token ++ run))
    have hbytes' := length_le_byteLen (front ++ (redacted ++ run))
    rw [hlength] at hbytes hbytes'
    have hnil : ∀ middle : List Char, front ++ (middle ++ run) = middle ↔ front = [] ∧ run = [] := by
      intro middle
      constructor
      · intro heq
        have heq := congrArg List.length heq
        rw [hlength] at heq
        rw [← List.length_eq_zero_iff, ← List.length_eq_zero_iff]
        omega
      · rintro ⟨rfl, rfl⟩
        simp
    refine ⟨by omega, by omega, fun heq => ?_, ?_⟩
    · have heq := congrArg List.length heq
      rw [hlength] at heq
      omega
    · rw [hnil redacted, @eq_comm _ token, hnil token]
  · rw [if_neg hall, if_neg hall]
    left
    refine ⟨rfl, ?_⟩
    rintro rfl
    rw [hfront c ((List.takeWhile_prefix visible).subset hc)] at halphanum
    cases halphanum

theorem spared_iff (word : List Char) : spared word = true ↔
    byteLen ((redactWord word).takeWhile visible) < 8 ∨
      (redactWord word).takeWhile visible = redacted := by
  unfold spared
  simp only [Bool.or_eq_true, Bool.and_eq_true, decide_eq_true_eq, beq_iff_eq]
  by_cases htoken : isTokenish word = true
  · obtain ⟨hrun, hcore⟩ | ⟨hlong, hlong', hne, hiff⟩ := token_run htoken
    · rw [hrun]
      simp only [hcore, and_false, or_false]
    · rw [hiff]
      constructor
      · rintro ((h | h) | h)
        · omega
        · exact absurd h hne
        · exact Or.inr h.2
      · rintro (h | h)
        · omega
        · exact Or.inr ⟨htoken, h⟩
  · rw [redactWord_of_not htoken]
    simp [htoken]

theorem endsKeyword_suffix {back cs : List Char} (h : back <:+ cs) (hends : endsKeyword back = true) :
    endsKeyword cs = true := by
  obtain ⟨front, rfl⟩ := h
  have hlower : lower (front ++ back) = lower front ++ lower back := List.map_append ..
  unfold endsKeyword at hends ⊢
  rw [List.any_eq_true] at hends ⊢
  obtain ⟨k, hk, hsuffix⟩ := hends
  rw [List.isSuffixOf_iff_suffix] at hsuffix
  refine ⟨k, hk, ?_⟩
  rw [List.isSuffixOf_iff_suffix, hlower]
  exact hsuffix.trans (List.suffix_append _ _)

-- Rule 4 hides a keyword, wherever the second pass looks for it.
theorem behindWord_redactWord (armed : Bool) (word : List Char) :
    behindWord armed (redactWord word) = (behindWord armed word && !isTokenish word) := by
  unfold behindWord
  cases armed with
  | false => exact endsKeyword_redactWord word
  | true =>
      simp only [if_true]
      by_cases htoken : isTokenish word = true
      · rw [htoken, Bool.not_true, Bool.and_false, Bool.eq_false_iff]
        intro hends
        have hwhole := endsKeyword_suffix (List.dropWhile_suffix visible) hends
        rw [endsKeyword_redactWord, htoken] at hwhole
        simp at hwhole
      · rw [redactWord_of_not htoken]
        simp [htoken]

theorem run_masked (word : List Char) :
    (masked (word.takeWhile visible) ++ word.dropWhile visible).takeWhile visible =
      masked (word.takeWhile visible) := by
  apply takeWhile_value
  · unfold masked
    split
    · decide
    · exact fun c hc => List.mem_takeWhile_imp hc
  · intro c hc
    have hhead := List.head?_dropWhile_not visible word
    rw [hc] at hhead
    simpa [visible] using hhead

-- A word that comes out is taken for a value and kept.
theorem passWord_kept {word : List Char} (h : redactWord word = word) :
    passWord true word = word ↔
      byteLen (word.takeWhile visible) < 8 ∨ word.takeWhile visible = redacted := by
  by_cases hlong : 8 ≤ byteLen (word.takeWhile visible)
  · rw [passWord_long hlong]
    constructor
    · intro heq
      have hsplit := @List.takeWhile_append_dropWhile _ visible word
      exact Or.inr (List.append_cancel_right (heq.trans hsplit.symm)).symm
    · rintro (hshort | hredacted)
      · omega
      · rw [← hredacted, List.takeWhile_append_dropWhile]
  · rw [passWord_short fun hboth => hlong hboth.2, h]
    exact iff_of_true rfl (Or.inl (by omega))

theorem passWord_again (first second : Bool) (word : List Char) :
    passWord second (passWord first word) = passWord first word ↔
      (first || !second || spared word) = true := by
  have hout : redactWord (passWord first word) = passWord first word := redactWord_redactWord _
  cases second with
  | false =>
      rw [passWord_short (by simp), hout]
      simp
  | true =>
      rw [passWord_kept hout]
      by_cases hlong : first = true ∧ 8 ≤ byteLen (word.takeWhile visible)
      · obtain ⟨rfl, hlong⟩ := hlong
        have hrun := run_masked word
        rw [masked, if_pos hlong] at hrun
        rw [passWord_long hlong, hrun]
        simp
      · rw [passWord_short hlong, ← spared_iff]
        cases first with
        | false => simp
        | true =>
            have hshort : byteLen (word.takeWhile visible) < 8 := by
              have hnot : ¬8 ≤ byteLen (word.takeWhile visible) := fun h => hlong ⟨rfl, h⟩
              omega
            have hspared : spared word = true := by simp [spared, hshort]
            simp [hspared]

-- Behind the replacement of a value comes what came behind the value.
theorem behindWord_redacted (armed : Bool) (word : List Char) :
    behindWord armed (redacted ++ word.dropWhile visible) = behindWord true word := by
  have hboundary := List.head?_dropWhile_not visible word
  unfold behindWord
  rw [if_pos rfl]
  cases hafter : word.dropWhile visible with
  | nil => cases armed <;> decide
  | cons d rest =>
      rw [hafter] at hboundary
      have hd : visible d = false := by simpa using hboundary
      cases armed with
      | true =>
          rw [if_pos rfl, List.dropWhile_append_of_pos (by decide), List.dropWhile_cons_of_neg]
          rw [hd]
          exact Bool.false_ne_true
      | false => exact endsKeyword_append redacted List.mem_cons_self hd

theorem behindWord_again (first second : Bool) (word : List Char) :
    behindWord second (passWord first word) =
      if replaces first word = true then behindWord true word
      else behindWord second word && !isTokenish word := by
  unfold replaces
  by_cases hlong : first = true ∧ 8 ≤ byteLen (word.takeWhile visible)
  · rw [if_pos (by simpa using hlong)]
    obtain ⟨rfl, hlong⟩ := hlong
    rw [passWord_long hlong]
    exact behindWord_redacted second word
  · rw [if_neg (by simpa using hlong), passWord_short hlong, behindWord_redactWord]

-- Rules 2 and 4 twice.
theorem pass_again (first second : Bool) (words : List (List Char)) :
    (schemeWords second ((schemeWords first words).map redactWord)).map redactWord =
      (schemeWords first words).map redactWord ↔ steady first second words = true := by
  induction words generalizing first second with
  | nil => cases first <;> cases second <;> exact iff_of_true rfl rfl
  | cons word rest ih =>
      rw [pass_cons, pass_cons, List.cons.injEq, passWord_again, ih, behindWord_again, steady]
      exact Bool.and_eq_true_iff.symm

end Words

end VMForge.Cli
