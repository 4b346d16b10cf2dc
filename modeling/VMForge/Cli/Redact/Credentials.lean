import VMForge.Cli.Redact.Words

namespace VMForge.Cli

open Text

-- An authorization value in a line: the word `bearer` or `basic`, blanks, and a run of at least
-- eight characters that is not the replacement.
def Leaks (line : List Char) : Prop :=
  ∃ before word blanks value after, line = before ++ (word ++ blanks ++ value ++ after) ∧
    lower word ∈ ["bearer".toList, "basic".toList] ∧
    blanks ≠ [] ∧ (∀ c ∈ blanks, c = ' ') ∧
    8 ≤ value.length ∧ (∀ c ∈ value, visible c = true) ∧
    (∀ c, after.head? = some c → isWhitespace c = true) ∧ value ≠ redacted

-- The line without the value of its first key, if that is a sensitive one.
def kept (line : List Char) : List Char :=
  match line.dropWhile fun c => !isSeparator c with
  | [] => line
  | ch :: _ =>
      let before := line.takeWhile fun c => !isSeparator c
      if isSensitive before = true then before ++ [ch] else line

-- Whether a word starts with a run that is an authorization value behind a keyword.
def isValue (word : List Char) : Bool :=
  8 ≤ (word.takeWhile visible).length && word.takeWhile visible != redacted

-- Whether rule 4 replaces the whole of that run.
def isHidden (word : List Char) : Bool := isTokenish word && core word == word.takeWhile visible

-- What a word stands behind: no keyword, one whose value the loop of rule 2 takes it for, or, with
-- nothing but blanks between, one that the loop is past.
inductive Place where
  | free
  | value (shown : Bool)
  | past
  deriving DecidableEq

-- The place behind a word; rule 4 may take a keyword out of the line.
def Place.next : Place → List Char → Place
  | .value true, [] => .past
  | .value false, [] => .free
  | .past, [] => .past
  | .value _, word =>
      let rest := word.dropWhile visible
      if rest = [] then if byteLen word < 8 ∧ endsKeyword word = true then .past else .free
      else if endsKeyword rest = true then
        .value (8 ≤ byteLen (word.takeWhile visible) || !isTokenish word)
      else .free
  | _, word => if endsKeyword word = true then .value (!isTokenish word) else .free

-- The loop passes over an authorization value, and rule 4 leaves it.
def passed : Place → List (List Char) → Bool
  | _, [] => false
  | place, word :: rest =>
      (place == .past && isValue word && !isHidden word) || passed (place.next word) rest

section Places

-- An authorization value at the start of a text, or behind blanks.
def Follows (cs : List Char) : Prop :=
  ∃ blanks value after, cs = blanks ++ (value ++ after) ∧ (∀ c ∈ blanks, c = ' ') ∧
    8 ≤ value.length ∧ (∀ c ∈ value, visible c = true) ∧
    (∀ c, after.head? = some c → isWhitespace c = true) ∧ value ≠ redacted

theorem leaks_iff {line : List Char} :
    Leaks line ↔ ∃ before word rest, line = before ++ (word ++ ' ' :: rest) ∧
      lower word ∈ ["bearer".toList, "basic".toList] ∧ Follows rest := by
  constructor
  · rintro ⟨before, word, blanks, value, after, hline, hword, hne, hblanks, hvalue⟩
    obtain ⟨c, blanks, rfl⟩ := List.exists_cons_of_ne_nil hne
    obtain rfl := hblanks c List.mem_cons_self
    refine ⟨before, word, blanks ++ (value ++ after), ?_, hword, blanks, value, after, rfl,
      fun d hd => hblanks d (List.mem_cons_of_mem _ hd), hvalue⟩
    rw [hline]
    simp
  · rintro ⟨before, word, rest, hline, hword, blanks, value, after, rfl, hblanks, hvalue⟩
    refine ⟨before, word, ' ' :: blanks, value, after, ?_, hword, List.cons_ne_nil _ _, ?_, hvalue⟩
    · rw [hline]
      simp
    · intro c hc
      obtain rfl | hc := List.mem_cons.mp hc
      · rfl
      · exact hblanks c hc

theorem not_leaks_last {word : List Char} (hword : ' ' ∉ word) : ¬Leaks word := by
  intro h
  obtain ⟨before, keyword, rest, rfl, -, -⟩ := leaks_iff.mp h
  exact hword (List.mem_append_right _ (List.mem_append_right _ List.mem_cons_self))

-- A word and a blank before a text.
theorem leaks_word {word : List Char} (hword : ' ' ∉ word) (rest : List Char) :
    Leaks (word ++ ' ' :: rest) ↔ endsKeyword word = true ∧ Follows rest ∨ Leaks rest := by
  induction word with
  | nil =>
      have hends : endsKeyword [] = false := by decide
      rw [hends, leaks_iff, leaks_iff]
      constructor
      · rintro ⟨before, keyword, after, heq, hkeyword, hfollows⟩
        right
        cases before with
        | nil =>
            have hblank : ' ' ∉ keyword := fun h => absurd (visible_word hkeyword ' ' h) (by decide)
            obtain ⟨rfl, -⟩ := append_blank List.not_mem_nil hblank heq
            exact absurd hkeyword (by decide)
        | cons c before =>
            exact ⟨before, keyword, after, (List.cons.inj heq).2, hkeyword, hfollows⟩
      · rintro (⟨h, -⟩ | ⟨before, keyword, after, rfl, hkeyword, hfollows⟩)
        · cases h
        · exact ⟨' ' :: before, keyword, after, rfl, hkeyword, hfollows⟩
  | cons c word ih =>
      have ih' := ih fun h => hword (List.mem_cons_of_mem c h)
      rw [endsKeyword_cons, Bool.or_eq_true, or_and_right, or_assoc, ← ih']
      constructor
      · intro h
        obtain ⟨before, keyword, after, heq, hkeyword, hfollows⟩ := leaks_iff.mp h
        cases before with
        | nil =>
            have hblank : ' ' ∉ keyword := fun h => absurd (visible_word hkeyword ' ' h) (by decide)
            obtain ⟨rfl, rfl⟩ := append_blank hword hblank heq
            exact Or.inl ⟨by simpa [isKeyword] using hkeyword, hfollows⟩
        | cons d before =>
            exact Or.inr (leaks_iff.mpr
              ⟨before, keyword, after, (List.cons.inj heq).2, hkeyword, hfollows⟩)
      · rintro (⟨hkeyword, hfollows⟩ | h)
        · exact leaks_iff.mpr
            ⟨[], c :: word, rest, rfl, by simpa [isKeyword] using hkeyword, hfollows⟩
        · obtain ⟨before, keyword, after, heq, hkeyword, hfollows⟩ := leaks_iff.mp h
          exact leaks_iff.mpr
            ⟨c :: before, keyword, after, by rw [List.cons_append, heq]; rfl, hkeyword, hfollows⟩

theorem not_follows_nil : ¬Follows [] := by
  rintro ⟨blanks, value, after, heq, -, hlen, -⟩
  have hnil := (List.append_eq_nil_iff.mp (List.append_eq_nil_iff.mp heq.symm).2).1
  rw [hnil] at hlen
  exact absurd hlen (by decide)

theorem follows_blank (rest : List Char) : Follows (' ' :: rest) ↔ Follows rest := by
  constructor
  · rintro ⟨_ | ⟨c, blanks⟩, value, after, heq, hblanks, hlen, hvalue, hafter⟩
    · cases value with
      | nil => exact absurd hlen (by decide)
      | cons c value =>
          obtain ⟨rfl, -⟩ := List.cons.inj heq
          exact absurd (hvalue ' ' List.mem_cons_self) (by decide)
    · exact ⟨blanks, value, after, (List.cons.inj heq).2,
        fun d hd => hblanks d (List.mem_cons_of_mem _ hd), hlen, hvalue, hafter⟩
  · rintro ⟨blanks, value, after, rfl, hblanks, hvalue⟩
    refine ⟨' ' :: blanks, value, after, rfl, ?_, hvalue⟩
    intro c hc
    obtain rfl | hc := List.mem_cons.mp hc
    · rfl
    · exact hblanks c hc

theorem takeWhile_value {value after : List Char} (hvalue : ∀ c ∈ value, visible c = true)
    (hafter : ∀ c, after.head? = some c → isWhitespace c = true) :
    (value ++ after).takeWhile visible = value := by
  rw [List.takeWhile_append_of_pos hvalue]
  cases after with
  | nil => rw [List.takeWhile_nil, List.append_nil]
  | cons c after =>
      have hc : ¬visible c = true := by
        rw [visible, hafter c rfl]
        decide
      rw [List.takeWhile_cons_of_neg hc, List.append_nil]

-- The run is at the start of the next word that has characters.
theorem follows_word {word tail : List Char} (hword : ' ' ∉ word) (hne : word ≠ [])
    (hrun : (word ++ tail).takeWhile visible = word.takeWhile visible)
    (hrest : (word ++ tail).dropWhile visible = word.dropWhile visible ++ tail) :
    Follows (word ++ tail) ↔ isValue word = true := by
  unfold isValue
  rw [Bool.and_eq_true, decide_eq_true_eq, bne_iff_ne, ne_eq]
  constructor
  · rintro ⟨blanks, value, after, heq, hblanks, hlen, hvalue, hafter, hnot⟩
    have hnil : blanks = [] := by
      cases blanks with
      | nil => rfl
      | cons c blanks =>
          obtain ⟨d, word, rfl⟩ := List.exists_cons_of_ne_nil hne
          obtain ⟨hd, -⟩ := List.cons.inj heq
          rw [hblanks c List.mem_cons_self] at hd
          exact absurd (hd ▸ List.mem_cons_self) hword
    rw [hnil, List.nil_append] at heq
    rw [← hrun, heq, takeWhile_value hvalue hafter]
    exact ⟨hlen, hnot⟩
  · rintro ⟨hlen, hnot⟩
    refine ⟨[], word.takeWhile visible, (word ++ tail).dropWhile visible, ?_, ?_, hlen, ?_, ?_, hnot⟩
    · rw [List.nil_append, ← hrun, List.takeWhile_append_dropWhile]
    · intro c hc
      cases hc
    · intro c hc
      exact List.mem_takeWhile_imp hc
    · intro c hc
      have hhead := List.head?_dropWhile_not visible (word ++ tail)
      rw [hc] at hhead
      simpa [visible] using hhead

end Places

section Words

-- Over the words of a text: whether one that is behind a keyword and blanks starts with a value.
def leaksWords : Bool → List (List Char) → Bool
  | _, [] => false
  | behind, word :: rest =>
      (behind && isValue word) || leaksWords (endsKeyword word || (word == [] && behind)) rest

theorem isValue_nil : isValue [] = false := by decide

theorem leaksWords_iff {words : List (List Char)} (hwords : ∀ word ∈ words, ' ' ∉ word)
    (behind : Bool) :
    leaksWords behind words = true ↔
      behind = true ∧ Follows ([' '].intercalate words) ∨ Leaks ([' '].intercalate words) := by
  induction words generalizing behind with
  | nil =>
      rw [List.intercalate_nil]
      simp [leaksWords, not_follows_nil, not_leaks_last]
  | cons word rest ih =>
      have hword := hwords word List.mem_cons_self
      unfold leaksWords
      rw [Bool.or_eq_true, Bool.and_eq_true, ih fun w hw => hwords w (List.mem_cons_of_mem word hw)]
      cases rest with
      | nil =>
          have hfollows : Follows word ↔ isValue word = true := by
            cases word with
            | nil => simp [not_follows_nil, isValue_nil]
            | cons c word =>
                have h := @follows_word (c :: word) [] hword (List.cons_ne_nil _ _)
                rw [List.append_nil, List.append_nil] at h
                exact h rfl rfl
          rw [List.intercalate_singleton, List.intercalate_nil, hfollows]
          simp [not_follows_nil, not_leaks_last hword, not_leaks_last List.not_mem_nil]
      | cons next rest =>
          rw [List.intercalate_cons_of_ne_nil (List.cons_ne_nil next rest), List.append_assoc,
            List.singleton_append, leaks_word hword]
          generalize [' '].intercalate (next :: rest) = text
          cases word with
          | nil =>
              have hends : endsKeyword [] = false := by decide
              rw [List.nil_append, follows_blank]
              simp [isValue_nil, hends]
          | cons c word =>
              rw [follows_word hword (List.cons_ne_nil _ _) (takeWhile_blank _ _)
                (dropWhile_blank _ _)]
              simp

end Words

section Tokens

theorem isAlphanum_of_toLower {c : Char} (h : c.toLower = 'r' ∨ c.toLower = 'c') :
    c.isAlphanum = true := by
  obtain hsame | ⟨hlow, hhigh, -⟩ := toLower_cases c
  · rw [hsame] at h
    obtain rfl | rfl := h
    all_goals decide
  · exact isAlphanum_iff.mpr (Or.inl (Or.inl ⟨hlow, hhigh⟩))

-- A word with a keyword at its end ends with a letter.
theorem endsKeyword_last {word : List Char} {c : Char} (h : endsKeyword (word ++ [c]) = true) :
    c.isAlphanum = true := by
  apply isAlphanum_of_toLower
  have hlower : lower (word ++ [c]) = lower word ++ [c.toLower] := List.map_append ..
  simp only [endsKeyword, List.any_cons, List.any_nil, Bool.or_false, Bool.or_eq_true,
    List.isSuffixOf_iff_suffix, hlower] at h
  obtain ⟨front, h⟩ | ⟨front, h⟩ := h
  · left
    have hsplit : front ++ "beare".toList ++ ['r'] = lower word ++ [c.toLower] := by
      rw [← h, List.append_assoc]
      rfl
    exact (List.cons.inj (List.append_inj' hsplit rfl).2).1.symm
  · right
    have hsplit : front ++ "basi".toList ++ ['c'] = lower word ++ [c.toLower] := by
      rw [← h, List.append_assoc]
      rfl
    exact (List.cons.inj (List.append_inj' hsplit rfl).2).1.symm

-- What rule 4 puts in place of a token does not end a keyword.
theorem endsKeyword_redactWord (word : List Char) :
    endsKeyword (redactWord word) = (endsKeyword word && !isTokenish word) := by
  by_cases htoken : isTokenish word = true
  · obtain ⟨front, back, -, hout, -, hback⟩ := redactWord_eq htoken
    rw [htoken, Bool.not_true, Bool.and_false, hout, Bool.eq_false_iff]
    intro hends
    obtain rfl | ⟨back, c, rfl⟩ := List.eq_nil_or_concat back
    · have hlast : front ++ redacted ++ [] = front ++ "[REDACTED".toList ++ [']'] := by
        rw [List.append_nil, List.append_assoc]
        rfl
      rw [hlast] at hends
      exact absurd (endsKeyword_last hends) (by decide)
    · rw [List.concat_eq_append, ← List.append_assoc] at hends
      have hc := hback c (by simp)
      rw [endsKeyword_last hends] at hc
      cases hc
  · rw [redactWord_of_not htoken, Bool.not_eq_true] at *
    rw [htoken, Bool.not_false, Bool.and_true]

theorem redactWord_eq_nil {word : List Char} : redactWord word = [] ↔ word = [] := by
  by_cases htoken : isTokenish word = true
  · obtain ⟨front, back, hword, hout, -, -⟩ := redactWord_eq htoken
    have hcore := (core_of_tokenish htoken).1
    have hne : redacted ≠ [] := by decide
    constructor
    · intro hnil
      rw [hout] at hnil
      simp [hne] at hnil
    · intro hnil
      rw [hword] at hnil
      simp only [List.append_eq_nil_iff] at hnil
      rw [hnil.1.2] at hcore
      exact absurd hcore (by decide)
  · rw [redactWord_of_not htoken]

theorem redactWord_blank {word : List Char} (hword : ' ' ∉ word) : ' ' ∉ redactWord word := by
  by_cases htoken : isTokenish word = true
  · obtain ⟨front, back, hsplit, hout, -, -⟩ := redactWord_eq htoken
    have hblank : ' ' ∉ redacted := by decide
    rw [hsplit] at hword
    simp only [List.mem_append, not_or] at hword
    rw [hout]
    simp only [List.mem_append, not_or]
    exact ⟨⟨hword.1.1, hblank⟩, hword.2⟩
  · rw [redactWord_of_not htoken]
    exact hword

-- What begins with the replacement is no token.
theorem not_isTokenish_redacted (rest : List Char) : isTokenish (redacted ++ rest) = false := by
  rw [Bool.eq_false_iff]
  intro htoken
  obtain ⟨front, back, hword, -, hfront, -⟩ := redactWord_eq htoken
  obtain ⟨hlen, hcore⟩ := core_of_tokenish htoken
  generalize core (redacted ++ rest) = token at hword hlen hcore
  have hone : (redacted ++ rest)[1]? = some 'R' := rfl
  have hnine : (redacted ++ rest)[9]? = some ']' := rfl
  rw [hword, List.append_assoc] at hone hnine
  by_cases hshort : front.length ≤ 1
  · rw [List.getElem?_append_right (by omega), List.getElem?_append_left (by omega)] at hnine
    exact absurd (hcore ']' (List.mem_of_getElem? hnine)) (by decide)
  · rw [List.getElem?_append_left (by omega)] at hone
    exact absurd (hfront 'R' (List.mem_of_getElem? hone)) (by decide)

theorem exists_digit {word : List Char} (h : isTokenish word = true) :
    ∃ c ∈ core word, c.isAlphanum = true := by
  unfold isTokenish at h
  simp only [Bool.and_eq_true, List.any_eq_true] at h
  obtain ⟨⟨-, c, hc, hdigit⟩, -⟩ := h
  exact ⟨c, hc, by rw [Char.isAlphanum, hdigit, Bool.or_true]⟩

-- Rule 4 hides a value exactly if the run is one token.
theorem isValue_redactWord (word : List Char) :
    isValue (redactWord word) = (isValue word && !isHidden word) := by
  by_cases htoken : isTokenish word = true
  · obtain ⟨front, back, hword, hout, hfront, -⟩ := redactWord_eq htoken
    obtain ⟨hlen, hcore⟩ := core_of_tokenish htoken
    obtain ⟨c, hc, halphanum⟩ := exists_digit htoken
    have hshown : ∀ c ∈ core word, visible c = true := fun c hc =>
      visible_of_range (by have hc' := (tokenChar_ascii (hcore c hc)).2; omega)
        (tokenChar_ascii (hcore c hc)).1
    have hredacted : ∀ c ∈ redacted, visible c = true := by decide
    have hten : redacted.length = 10 := rfl
    have hrun : ∀ middle : List Char, (∀ c ∈ middle, visible c = true) →
        (front ++ middle ++ back).takeWhile visible =
          if (front.takeWhile visible).length = front.length then
            front ++ (middle ++ back.takeWhile visible)
          else front.takeWhile visible := by
      intro middle hmiddle
      rw [List.append_assoc, List.takeWhile_append, List.takeWhile_append_of_pos hmiddle]
    unfold isHidden isValue
    rw [htoken, Bool.true_and, hout]
    generalize core word = token at hword hlen hcore hshown hc ⊢
    rw [hword, hrun token hshown, hrun redacted hredacted]
    generalize back.takeWhile visible = run
    by_cases hall : (front.takeWhile visible).length = front.length
    · rw [if_pos hall, if_pos hall]
      by_cases hempty : front = [] ∧ run = []
      · obtain ⟨rfl, rfl⟩ := hempty
        simp
      · have hmore : 0 < front.length + run.length := by
          rw [← List.length_eq_zero_iff, ← List.length_eq_zero_iff] at hempty
          omega
        have hne : ∀ xs ys : List Char, xs.length ≠ ys.length → (xs == ys) = false := by
          intro xs ys hlength
          rw [beq_eq_false_iff_ne]
          rintro rfl
          exact hlength rfl
        have hlength : ∀ middle : List Char, (front ++ (middle ++ run)).length =
            front.length + (middle.length + run.length) := by
          intro middle
          rw [List.length_append, List.length_append]
        simp only [bne, hlength]
        rw [hne _ redacted (by rw [hlength]; omega), hne _ redacted (by rw [hlength]; omega),
          hne token _ (by rw [hlength]; omega), Bool.not_false, Bool.and_true, Bool.and_true,
          Bool.and_true, decide_eq_decide]
        omega
    · rw [if_neg hall, if_neg hall]
      have hother : (token == front.takeWhile visible) = false := by
        rw [beq_eq_false_iff_ne]
        rintro rfl
        rw [hfront c ((List.takeWhile_prefix visible).subset hc)] at halphanum
        cases halphanum
      rw [hother, Bool.not_false, Bool.and_true]
  · have hhidden : isHidden word = false := by
      unfold isHidden
      rw [Bool.not_eq_true] at htoken
      rw [htoken, Bool.false_and]
    rw [redactWord_of_not htoken, hhidden, Bool.not_false, Bool.and_true]

end Tokens

section Steps

-- The next word is a value for the loop.
def Place.armed : Place → Bool
  | .value _ => true
  | _ => false

-- A keyword and blanks are before the next word in what comes out.
def Place.behind : Place → Bool
  | .free => false
  | .value shown => shown
  | .past => true

-- What rules 2 and 4 make of a word.
def Place.output (place : Place) (word : List Char) : List Char :=
  redactWord (if place.armed = true then masked (word.takeWhile visible) ++ word.dropWhile visible
    else word)

theorem schemeWords_cons (armed : Bool) (word : List Char) (rest : List (List Char)) :
    schemeWords armed (word :: rest) =
      (if armed = true then masked (word.takeWhile visible) ++ word.dropWhile visible else word) ::
        schemeWords (endsKeyword (if armed = true then word.dropWhile visible else word)) rest := by
  cases armed <;> rfl

-- A value that the loop has taken is short, or the replacement.
theorem not_isValue_masked (word : List Char) :
    isValue (masked (word.takeWhile visible) ++ word.dropWhile visible) = false := by
  have hmasked : ∀ c ∈ masked (word.takeWhile visible), visible c = true := by
    unfold masked
    split
    · decide
    · intro c hc
      exact List.mem_takeWhile_imp hc
  have hafter : ∀ c, (word.dropWhile visible).head? = some c → isWhitespace c = true := by
    intro c hc
    have hhead := List.head?_dropWhile_not visible word
    rw [hc] at hhead
    simpa [visible] using hhead
  unfold isValue
  rw [takeWhile_value hmasked hafter]
  unfold masked
  split
  · simp
  · rename_i hshort
    have hlen := length_le_byteLen (word.takeWhile visible)
    rw [decide_eq_false (by omega), Bool.false_and]

theorem isValue_output (place : Place) (word : List Char) :
    (place.behind && isValue (place.output word)) =
      (place == .past && isValue word && !isHidden word) := by
  cases place with
  | free => rfl
  | value shown =>
      show (shown && isValue (redactWord (masked (word.takeWhile visible) ++
        word.dropWhile visible))) = false
      rw [isValue_redactWord, not_isValue_masked, Bool.false_and, Bool.and_false]
  | past =>
      show isValue (redactWord word) = (isValue word && !isHidden word)
      exact isValue_redactWord word

-- A keyword has no whitespace in it.
theorem endsKeyword_append (value : List Char) {rest : List Char} {d : Char}
    (hd : d ∈ rest) (hspace : visible d = false) :
    endsKeyword (value ++ rest) = endsKeyword rest := by
  induction value with
  | nil => rfl
  | cons c value ih =>
      have hkey : isKeyword (c :: value ++ rest) = false := by
        rw [Bool.eq_false_iff]
        intro hkey
        have hshown := @visible_word (c :: value ++ rest) (by simpa [isKeyword] using hkey) d
          (List.mem_append_right _ hd)
        rw [hspace] at hshown
        cases hshown
      rw [List.cons_append] at hkey ⊢
      rw [endsKeyword_cons, hkey, Bool.false_or, ih]

theorem not_isTokenish_short {word : List Char} (h : byteLen word < 8) : isTokenish word = false := by
  rw [Bool.eq_false_iff]
  intro htoken
  obtain ⟨front, back, hword, -⟩ := redactWord_eq htoken
  have hcore := (core_of_tokenish htoken).1
  have hlen := length_le_byteLen word
  have hsplit := congrArg List.length hword
  simp only [List.length_append] at hsplit
  omega

theorem next_free (word : List Char) :
    Place.free.next word =
      if endsKeyword word = true then .value (!isTokenish word) else .free := by
  cases word <;> rfl

theorem next_past (c : Char) (word : List Char) :
    Place.past.next (c :: word) =
      if endsKeyword (c :: word) = true then .value (!isTokenish (c :: word)) else .free := rfl

theorem next_value {word : List Char} (hne : word ≠ []) (shown : Bool) :
    (Place.value shown).next word =
      if word.dropWhile visible = [] then
        if byteLen word < 8 ∧ endsKeyword word = true then .past else .free
      else if endsKeyword (word.dropWhile visible) = true then
        .value (8 ≤ byteLen (word.takeWhile visible) || !isTokenish word)
      else .free := by
  obtain ⟨c, word, rfl⟩ := List.exists_cons_of_ne_nil hne
  cases shown <;> rfl

theorem armed_next (place : Place) (word : List Char) :
    (place.next word).armed =
      endsKeyword (if place.armed = true then word.dropWhile visible else word) := by
  cases place with
  | free =>
      show _ = endsKeyword word
      rw [next_free]
      cases endsKeyword word <;> rfl
  | past =>
      show _ = endsKeyword word
      cases word with
      | nil => decide
      | cons c word =>
          rw [next_past]
          cases endsKeyword (c :: word) <;> rfl
  | value shown =>
      show _ = endsKeyword (word.dropWhile visible)
      by_cases hne : word = []
      · subst hne
        cases shown <;> decide
      · rw [next_value hne]
        by_cases hrest : word.dropWhile visible = []
        · rw [if_pos hrest, hrest]
          split <;> decide
        · rw [if_neg hrest]
          cases endsKeyword (word.dropWhile visible) <;> rfl

theorem isTokenish_masked (word : List Char) :
    isTokenish (masked (word.takeWhile visible) ++ word.dropWhile visible) =
      (decide (byteLen (word.takeWhile visible) < 8) && isTokenish word) := by
  unfold masked
  by_cases hlong : 8 ≤ byteLen (word.takeWhile visible)
  · rw [if_pos hlong, not_isTokenish_redacted, decide_eq_false (by omega), Bool.false_and]
  · rw [if_neg hlong, List.takeWhile_append_dropWhile, decide_eq_true (by omega), Bool.true_and]

-- The word that the loop takes for a value, as it comes out.
theorem behind_value {word : List Char} (hne : word ≠ []) (shown : Bool) :
    endsKeyword (redactWord (masked (word.takeWhile visible) ++ word.dropWhile visible)) =
      ((Place.value shown).next word).behind := by
  have hsplit : word.takeWhile visible ++ word.dropWhile visible = word :=
    List.takeWhile_append_dropWhile
  rw [next_value hne, endsKeyword_redactWord]
  by_cases hrest : word.dropWhile visible = []
  · rw [hrest, List.append_nil] at hsplit
    rw [if_pos hrest, hrest, List.append_nil, hsplit]
    by_cases hlong : 8 ≤ byteLen word
    · have hredacted : endsKeyword redacted = false := by decide
      rw [masked, if_pos hlong, hredacted, if_neg (by omega)]
      rfl
    · rw [masked, if_neg hlong, not_isTokenish_short (by omega), Bool.not_false, Bool.and_true]
      cases hends : endsKeyword word with
      | false => rw [if_neg (by simp)]; rfl
      | true => rw [if_pos ⟨by omega, rfl⟩]; rfl
  · obtain ⟨d, rest, hcons⟩ := List.exists_cons_of_ne_nil hrest
    have hspace : visible d = false := by
      have hhead := List.head?_dropWhile_not visible word
      rw [hcons] at hhead
      simpa using hhead
    have hd : d ∈ word.dropWhile visible := by
      rw [hcons]
      exact List.mem_cons_self
    rw [if_neg hrest, endsKeyword_append _ hd hspace]
    rw [isTokenish_masked]
    cases endsKeyword (word.dropWhile visible) with
    | false => rfl
    | true =>
        show (!(decide (byteLen (word.takeWhile visible) < 8) && isTokenish word)) =
          (decide (8 ≤ byteLen (word.takeWhile visible)) || !isTokenish word)
        rw [Bool.not_and, ← decide_not]
        simp only [not_lt]

theorem behind_next (place : Place) (word : List Char) :
    (place.next word).behind =
      (endsKeyword (place.output word) || (place.output word == [] && place.behind)) := by
  cases place with
  | free =>
      show _ = (endsKeyword (redactWord word) || (_ && false))
      rw [Bool.and_false, Bool.or_false, endsKeyword_redactWord, next_free]
      cases endsKeyword word <;> rfl
  | past =>
      cases word with
      | nil => decide
      | cons c word =>
          have hne : (redactWord (c :: word) == []) = false := by
            rw [beq_eq_false_iff_ne, ne_eq, redactWord_eq_nil]
            exact List.cons_ne_nil c word
          show _ = (endsKeyword (redactWord (c :: word)) || (redactWord (c :: word) == [] && true))
          rw [hne, Bool.false_and, Bool.or_false, endsKeyword_redactWord, next_past]
          cases endsKeyword (c :: word) <;> rfl
  | value shown =>
      by_cases hnil : word = []
      · subst hnil
        cases shown <;> decide
      · have hne : (redactWord (masked (word.takeWhile visible) ++ word.dropWhile visible) == []) =
            false := by
          rw [beq_eq_false_iff_ne, ne_eq, redactWord_eq_nil, List.append_eq_nil_iff]
          rintro ⟨hrun, hrest⟩
          have hsplit : word.takeWhile visible ++ word.dropWhile visible = word :=
            List.takeWhile_append_dropWhile
          rw [hrest, List.append_nil] at hsplit
          rw [hsplit] at hrun
          unfold masked at hrun
          split at hrun
          · exact absurd hrun (by decide)
          · exact hnil hrun
        show _ = (endsKeyword (redactWord (masked (word.takeWhile visible) ++
          word.dropWhile visible)) || (redactWord (masked (word.takeWhile visible) ++
            word.dropWhile visible) == [] && shown))
        rw [hne, Bool.false_and, Bool.or_false, behind_value hnil]

-- One word after the other: a value comes out exactly if the loop passes over it.
theorem leaksWords_output (place : Place) (words : List (List Char)) :
    leaksWords place.behind ((schemeWords place.armed words).map redactWord) =
      passed place words := by
  induction words generalizing place with
  | nil => cases place <;> rfl
  | cons word rest ih =>
      rw [schemeWords_cons, List.map_cons]
      show ((place.behind && isValue (place.output word)) ||
        leaksWords (endsKeyword (place.output word) || (place.output word == [] && place.behind))
          ((schemeWords (endsKeyword _) rest).map redactWord)) = passed place (word :: rest)
      rw [isValue_output, ← behind_next, ← armed_next, ih]
      rfl

end Steps

section Lines

theorem splitOn_blank (cs : List Char) : ∀ word ∈ cs.splitOn ' ', ' ' ∉ word := by
  induction hn : cs.length using Nat.strongRecOn generalizing cs with
  | ind n ih =>
      by_cases hcs : ' ' ∈ cs
      · obtain ⟨word, rest, rfl, hword⟩ := exists_word hcs
        rw [List.splitOn_append_cons_self_of_not_mem hword]
        intro other hother
        obtain rfl | hother := List.mem_cons.mp hother
        · exact hword
        · rw [List.length_append, List.length_cons] at hn
          exact ih rest.length (by omega) rest rfl other hother
      · rw [List.splitOn_eq_singleton hcs]
        intro word hword
        rw [List.mem_singleton.mp hword]
        exact hcs

theorem redactLongTokens_words {words : List (List Char)} (hwords : ∀ word ∈ words, ' ' ∉ word)
    (hne : words ≠ []) :
    redactLongTokens ([' '].intercalate words) = [' '].intercalate (words.map redactWord) := by
  unfold redactLongTokens
  rw [List.splitOn_intercalate ' ' hwords hne]

-- Rules 2 and 4 leave a value in a text exactly if the loop passes over one.
theorem leaks_redacted (text : List Char) :
    Leaks (redactLongTokens (redactAuthSchemes text)) ↔ passed .free (text.splitOn ' ') = true := by
  have hwords := splitOn_blank text
  have hscheme := schemeWords_blank hwords false
  have hne : schemeWords false (text.splitOn ' ') ≠ [] := by
    obtain ⟨word, rest, hcons⟩ := List.exists_cons_of_ne_nil (List.splitOn_ne_nil ' ' text)
    rw [hcons]
    exact List.cons_ne_nil _ _
  have hblank : ∀ word ∈ (schemeWords false (text.splitOn ' ')).map redactWord, ' ' ∉ word := by
    intro word hword
    obtain ⟨source, hsource, rfl⟩ := List.mem_map.mp hword
    exact redactWord_blank (hscheme source hsource)
  have hrule2 := redactAuthSchemes_words hwords
  rw [List.intercalate_splitOn] at hrule2
  rw [hrule2, redactLongTokens_words hscheme hne]
  have hiff := leaksWords_iff hblank false
  simp only [Bool.false_eq_true, false_and, false_or] at hiff
  rw [← hiff]
  exact Bool.eq_iff_iff.mp (leaksWords_output .free (text.splitOn ' '))

theorem passed_append (place : Place) (front back : List (List Char)) :
    passed place (front ++ back) =
      (passed place front || passed (front.foldl Place.next place) back) := by
  induction front generalizing place with
  | nil => rfl
  | cons word front ih =>
      rw [List.cons_append, List.foldl_cons, passed, passed, ih, Bool.or_assoc]

-- The replacement that rule 1 writes is no value.
theorem passed_kept (line : List Char) :
    passed .free ((redactKeyValue line).splitOn ' ') = passed .free ((kept line).splitOn ' ') := by
  unfold redactKeyValue kept
  cases line.dropWhile fun c => !isSeparator c with
  | nil => rfl
  | cons ch rest =>
      by_cases hsensitive : isSensitive (line.takeWhile fun c => !isSeparator c) = true
      · simp only [if_pos hsensitive]
        have hblank : ' ' ∉ redacted := by decide
        have hvalue : isValue redacted = false := by decide
        rw [List.append_cons, List.splitOn_append_cons_self, List.splitOn_eq_singleton hblank,
          passed_append]
        simp [passed, hvalue]
      · simp only [if_neg hsensitive]

end Lines

-- A redacted line has an authorization value in it exactly if, in the words of what rule 1 keeps,
-- the loop of rule 2 passes over one that rule 4 does not hide.
theorem leaks_redactLine (line : List Char) :
    Leaks (redactLine line) ↔ passed .free ((kept line).splitOn ' ') = true := by
  unfold redactLine
  rw [leaks_redacted, passed_kept]

end VMForge.Cli
