import VMForge.Cli.Redact.Credentials

namespace VMForge.Cli

open Text

-- What rule 4 is about: 40 or more characters of its alphabet, between letters or digits, with
-- one of each.
structure Token (run : List Char) : Prop where
  long : 40 ≤ run.length
  alphabet : ∀ c ∈ run, isTokenChar c = true
  first : ∀ c, run.head? = some c → c.isAlphanum = true
  last : ∀ c, run.getLast? = some c → c.isAlphanum = true
  digit : ∃ c ∈ run, c.isDigit = true
  letter : ∃ c ∈ run, c.isAlpha = true

-- A token that no character of the alphabet stands next to.
def TokenRun (line run : List Char) : Prop :=
  Token run ∧ ∃ before after, line = before ++ run ++ after ∧
    (∀ c, before.getLast? = some c → isTokenChar c = false) ∧
    (∀ c, after.head? = some c → isTokenChar c = false)

-- What rules 2 and 4 make of a word.
def passWord (armed : Bool) (word : List Char) : List Char :=
  redactWord (if armed = true then masked (word.takeWhile visible) ++ word.dropWhile visible else word)

-- Whether a word with a run in it loses the run: rule 4 takes the word for a token, or the word stands
-- directly behind a keyword and has the run only in its value.
def hides (run : List Char) (armed : Bool) (word : List Char) : Bool :=
  isTokenish word && !replaces armed word || armed && !decide (run <:+: word.dropWhile visible)

-- Whether all words with the run lose it.
def hidden (run : List Char) : Bool → List (List Char) → Bool
  | _, [] => true
  | armed, word :: rest =>
      (!decide (run <:+: word) || hides run armed word) && hidden run (behindWord armed word) rest

section Passes

theorem pass_cons (armed : Bool) (word : List Char) (rest : List (List Char)) :
    (schemeWords armed (word :: rest)).map redactWord =
      passWord armed word :: (schemeWords (behindWord armed word) rest).map redactWord := by
  rw [schemeWords_cons]
  rfl

-- A word that is taken for a value, if the value is long, and one that is not, or has a short one.
theorem passWord_long {word : List Char} (h : 8 ≤ byteLen (word.takeWhile visible)) :
    passWord true word = redacted ++ word.dropWhile visible := by
  unfold passWord
  rw [if_pos rfl, masked, if_pos h]
  exact redactWord_of_not (by rw [not_isTokenish_redacted]; exact Bool.false_ne_true)

theorem passWord_short {armed : Bool} {word : List Char}
    (h : ¬(armed = true ∧ 8 ≤ byteLen (word.takeWhile visible))) :
    passWord armed word = redactWord word := by
  unfold passWord
  cases armed with
  | false => rfl
  | true =>
      have hshort : ¬8 ≤ byteLen (word.takeWhile visible) := fun hlong => h ⟨rfl, hlong⟩
      rw [if_pos rfl, masked, if_neg hshort, List.takeWhile_append_dropWhile]

theorem intercalate_cons (word : List Char) (words : List (List Char)) :
    [' '].intercalate (word :: words) =
      word ++ if words = [] then [] else ' ' :: [' '].intercalate words := by
  by_cases hnil : words = []
  · rw [if_pos hnil, hnil, List.append_nil, List.intercalate_singleton]
  · rw [if_neg hnil, List.intercalate_cons_of_ne_nil hnil, List.append_assoc]
    rfl

end Passes

section Tokens

variable {run : List Char}

theorem Token.ne_nil (h : Token run) : run ≠ [] := by
  intro hnil
  have hlong := h.long
  rw [hnil] at hlong
  exact absurd hlong (by decide)

theorem Token.notMem (h : Token run) {c : Char} (hc : isTokenChar c = false) : c ∉ run := by
  intro hmem
  rw [h.alphabet c hmem] at hc
  cases hc

theorem Token.not_infix_short (h : Token run) {text : List Char} (hshort : text.length < 40) :
    ¬run <:+: text := by
  intro hinfix
  have hlong := h.long
  have hle := hinfix.length_le
  omega

-- There is no token outside letters and digits.
theorem Token.not_infix_plain (h : Token run) {text : List Char}
    (hplain : ∀ c ∈ text, c.isAlphanum = false) : ¬run <:+: text := by
  intro hinfix
  obtain ⟨c, cs, hrun⟩ := List.exists_cons_of_ne_nil h.ne_nil
  have hc := h.first c (by rw [hrun]; rfl)
  have hmem : c ∈ text := hinfix.subset (by rw [hrun]; exact List.mem_cons_self)
  rw [hplain c hmem] at hc
  cases hc

-- What has no brackets and no part of the replacement stands before or behind one.
theorem infix_redacted (hopen : '[' ∉ run) (hclose : ']' ∉ run) (hword : ¬run <:+: "REDACTED".toList)
    (front back : List Char) :
    run <:+: front ++ redacted ++ back ↔ run <:+: front ∨ run <:+: back := by
  have hsplit : front ++ redacted ++ back = front ++ '[' :: ("REDACTED".toList ++ ']' :: back) := by
    rw [List.append_assoc]
    rfl
  rw [hsplit, infix_append_cons hopen, infix_append_cons hclose]
  simp only [hword, false_or]

theorem Token.infix_redacted (h : Token run) (front back : List Char) :
    run <:+: front ++ redacted ++ back ↔ run <:+: front ∨ run <:+: back :=
  Cli.infix_redacted (h.notMem (by decide)) (h.notMem (by decide)) (h.not_infix_short (by decide))
    front back

theorem Token.infix_redactWord (h : Token run) (word : List Char) :
    run <:+: redactWord word ↔ ¬isTokenish word = true ∧ run <:+: word := by
  by_cases htoken : isTokenish word = true
  · obtain ⟨front, back, -, hout, hfront, hback⟩ := redactWord_eq htoken
    rw [hout, h.infix_redacted]
    simp only [h.not_infix_plain hfront, h.not_infix_plain hback, htoken, or_self, not_true_eq_false,
      false_and]
  · rw [redactWord_of_not htoken]
    exact ⟨fun hinfix => ⟨htoken, hinfix⟩, fun hinfix => hinfix.2⟩

-- Behind a keyword a token is left only past the first run of the word.
theorem Token.infix_masked (h : Token run) (word : List Char) :
    run <:+: masked (word.takeWhile visible) ++ word.dropWhile visible ↔
      run <:+: word.dropWhile visible := by
  have hmasked : ¬run <:+: masked (word.takeWhile visible) := by
    apply h.not_infix_short
    unfold masked
    split
    · decide
    · rename_i hshort
      have hlen := length_le_byteLen (word.takeWhile visible)
      omega
  cases hrest : word.dropWhile visible with
  | nil =>
      rw [List.append_nil, List.infix_nil]
      simp only [hmasked, h.ne_nil]
  | cons d rest =>
      have hspace : visible d = false := by
        have hhead := List.head?_dropWhile_not visible word
        rw [hrest] at hhead
        simpa using hhead
      have hd : d ∉ run := by
        apply h.notMem
        rw [Bool.eq_false_iff]
        intro hchar
        obtain ⟨hhigh, hlow⟩ := tokenChar_ascii hchar
        rw [visible_of_range (by omega) hhigh] at hspace
        cases hspace
      have hcons := @infix_append_cons _ _ _ [] rest hd
      rw [List.nil_append, List.infix_nil] at hcons
      rw [infix_append_cons hd, hcons]
      simp only [hmasked, h.ne_nil, false_or]

end Tokens

section Words

variable {run : List Char}

theorem Token.infix_output (h : Token run) (armed : Bool) (word : List Char) :
    run <:+: passWord armed word ↔ run <:+: word ∧ hides run armed word = false := by
  unfold passWord
  cases armed with
  | false =>
      rw [if_neg Bool.false_ne_true, h.infix_redactWord]
      simp [hides, replaces, and_comm]
  | true =>
      have hsuffix : run <:+: word.dropWhile visible → run <:+: word := fun hinfix =>
        hinfix.trans (List.dropWhile_suffix visible).isInfix
      have hshort : replaces true word = !decide (byteLen (word.takeWhile visible) < 8) := by
        rw [replaces, Bool.true_and, ← decide_not]
        exact decide_eq_decide.mpr Nat.not_lt.symm
      rw [if_pos rfl, h.infix_redactWord, h.infix_masked, isTokenish_masked]
      unfold hides
      rw [hshort, Bool.not_not, Bool.and_comm (isTokenish word)]
      simp only [Bool.or_eq_false_iff, Bool.true_and, Bool.not_eq_false', decide_eq_true_eq,
        Bool.not_eq_true]
      constructor
      · rintro ⟨htoken, hinfix⟩
        exact ⟨hsuffix hinfix, htoken, hinfix⟩
      · rintro ⟨-, htoken, hinfix⟩
        exact ⟨htoken, hinfix⟩

-- One word after the other: what comes out has the token exactly if a word does not lose it.
theorem Token.infix_words (h : Token run) (armed : Bool) (words : List (List Char)) :
    (∃ word ∈ (schemeWords armed words).map redactWord, run <:+: word) ↔
      hidden run armed words = false := by
  induction words generalizing armed with
  | nil => cases armed <;> simp [schemeWords, hidden]
  | cons word rest ih =>
      rw [pass_cons, List.exists_mem_cons_iff, h.infix_output, ih, hidden, Bool.and_eq_false_iff,
        Bool.or_eq_false_iff, Bool.not_eq_false', decide_eq_true_eq]

-- Rule 1 writes no token, and the words before its replacement stay the words they are.
theorem Token.hidden_append (h : Token run) (armed : Bool) (words : List (List Char)) :
    hidden run armed (words ++ [redacted]) = hidden run armed words := by
  induction words generalizing armed with
  | nil =>
      have hnot : decide (run <:+: redacted) = false :=
        decide_eq_false (h.not_infix_short (by decide))
      rw [List.nil_append, hidden, hidden, hidden, hnot]
      rfl
  | cons word rest ih => rw [List.cons_append, hidden, hidden, ih]

theorem Token.hidden_kept (h : Token run) (line : List Char) :
    hidden run false ((redactKeyValue line).splitOn ' ') =
      hidden run false ((kept line).splitOn ' ') := by
  unfold redactKeyValue kept
  cases line.dropWhile fun c => !isSeparator c with
  | nil => rfl
  | cons ch rest =>
      by_cases hsensitive : isSensitive (line.takeWhile fun c => !isSeparator c) = true
      · simp only [if_pos hsensitive]
        have hblank : ' ' ∉ redacted := by decide
        rw [List.append_cons, List.splitOn_append_cons_self, List.splitOn_eq_singleton hblank,
          h.hidden_append]
      · simp only [if_neg hsensitive]

end Words

theorem redactLine_words (line : List Char) :
    redactLine line =
      [' '].intercalate ((schemeWords false ((redactKeyValue line).splitOn ' ')).map redactWord) := by
  unfold redactLine
  have hwords := splitOn_blank (redactKeyValue line)
  have hne : schemeWords false ((redactKeyValue line).splitOn ' ') ≠ [] := by
    obtain ⟨word, rest, hcons⟩ :=
      List.exists_cons_of_ne_nil (List.splitOn_ne_nil ' ' (redactKeyValue line))
    rw [hcons]
    exact List.cons_ne_nil _ _
  have hrule2 := redactAuthSchemes_words hwords
  rw [List.intercalate_splitOn] at hrule2
  rw [hrule2, redactLongTokens_words (schemeWords_blank hwords false) hne]

-- A token is gone from a redacted line exactly if all words of what rule 1 keeps lose it.
theorem token_gone_iff (line run : List Char) (h : TokenRun line run) :
    ¬run <:+: redactLine line ↔ hidden run false ((kept line).splitOn ' ') = true := by
  rw [redactLine_words, infix_intercalate h.1.ne_nil (h.1.notMem (by decide)), h.1.infix_words,
    h.1.hidden_kept, Bool.not_eq_false]

theorem token_hex : Token "0123456789abcdef0123456789abcdef01234567".toList := by
  refine ⟨by decide, by decide, ?_, ?_, ⟨'0', by decide, by decide⟩, ⟨'a', by decide, by decide⟩⟩
  all_goals
    intro c hc
    obtain rfl := Option.some.inj hc
    decide

-- In quotes and before a comma it is replaced.
theorem token_gone_quoted :
    ¬"0123456789abcdef0123456789abcdef01234567".toList <:+:
      redactLine "saw \"0123456789abcdef0123456789abcdef01234567\", twice".toList := by
  apply (token_gone_iff _ _ _).mpr
  · decide
  · refine ⟨token_hex, "saw \"".toList, "\", twice".toList, by decide, ?_, ?_⟩
    all_goals
      intro c hc
      obtain rfl := Option.some.inj hc
      decide

-- Behind a key that is not a sensitive one it stays.
theorem token_kept :
    TokenRun "id=0123456789abcdef0123456789abcdef01234567".toList
        "0123456789abcdef0123456789abcdef01234567".toList ∧
      "0123456789abcdef0123456789abcdef01234567".toList <:+:
        redactLine "id=0123456789abcdef0123456789abcdef01234567".toList := by
  constructor
  · refine ⟨token_hex, "id=".toList, [], by decide, ?_, ?_⟩
    · intro c hc
      obtain rfl := Option.some.inj hc
      decide
    · intro c hc
      cases hc
  · exact ⟨"id=".toList, [], by decide +kernel⟩

end VMForge.Cli
