import VMForge.Cli.Redact.Again
import VMForge.Cli.Redact.Sensitive

namespace VMForge.Cli

open Text

-- One more word, which is the replacement or a token as a whole.
def endsReplaced : List (List Char) → Bool
  | [word] => word == redacted || (isTokenish word && core word == word)
  | _ => false

-- The first pass uncovers a key for rule 1: the first separator that is in no replaced value follows
-- a sensitive key, behind the last value or token before it and in no token itself, and has more than
-- the replacement, or what becomes the replacement, behind it. `since` is what comes behind the last
-- value or token.
def uncovers : Bool → List Char → List (List Char) → Bool
  | _, _, [] => false
  | armed, since, word :: rest =>
      let since := if replaces armed word = true then [] else since
      let shown := if replaces armed word = true then word.dropWhile visible else word
      let token := isTokenish word && !replaces armed word
      let key := shown.takeWhile fun c => !isSeparator c
      if shown.any isSeparator = true then
        isSensitive (since ++ key) && !(token && key.any Char.isAlphanum) &&
          !((shown.dropWhile fun c => !isSeparator c).length == 1 && endsReplaced rest)
      else
        uncovers (behindWord armed word) (if token = true then [] else since ++ shown ++ [' ']) rest

-- What the first pass leaves of a word, behind the replacement of a value.
def remnant (armed : Bool) (word : List Char) : List Char :=
  if replaces armed word = true then word.dropWhile visible else redactWord word

-- The same over what the first pass leaves.
def uncoversLeft : Bool → List Char → List (List Char) → Bool
  | _, _, [] => false
  | armed, since, word :: rest =>
      let since := if replaces armed word = true then [] else since
      let left := remnant armed word
      if left.any isSeparator = true then
        isSensitive (since ++ left.takeWhile fun c => !isSeparator c) &&
          !((left.dropWhile fun c => !isSeparator c).length == 1 && rest.map redactWord == [redacted])
      else uncoversLeft (behindWord armed word) (since ++ left ++ [' ']) rest

-- Behind some text, rule 1 finds nothing to replace, or what it writes.
def Settled (acc cs : List Char) : Prop :=
  ∀ ch tail, (cs.dropWhile fun c => !isSeparator c) = ch :: tail →
    isSensitive (acc ++ cs.takeWhile fun c => !isSeparator c) = true → tail = ' ' :: redacted

section Separators

variable {front cs : List Char} {ch : Char}

theorem exists_separator (h : cs.any isSeparator = true) : ∃ front ch back, cs = front ++ ch :: back ∧
    (∀ c ∈ front, (!isSeparator c) = true) ∧ isSeparator ch = true := by
  have hsplit := @List.takeWhile_append_dropWhile _ (fun c => !isSeparator c) cs
  have hnot := List.head?_dropWhile_not (fun c => !isSeparator c) cs
  cases hrest : cs.dropWhile fun c => !isSeparator c with
  | nil =>
      obtain ⟨c, hc, hsep⟩ := List.any_eq_true.mp h
      have hfree := List.dropWhile_eq_nil_iff.mp hrest c hc
      rw [hsep] at hfree
      cases hfree
  | cons ch back =>
      rw [hrest] at hsplit hnot
      have hfront : ∀ c ∈ cs.takeWhile fun c => !isSeparator c, (!isSeparator c) = true := by
        intro c hc
        exact @List.mem_takeWhile_imp _ (fun c => !isSeparator c) _ _ hc
      exact ⟨_, ch, back, hsplit.symm, hfront, by simpa using hnot⟩

theorem takeWhile_separator (hfront : ∀ c ∈ front, (!isSeparator c) = true)
    (hch : isSeparator ch = true) (back : List Char) :
    (front ++ ch :: back).takeWhile (fun c => !isSeparator c) = front := by
  have hnil : (ch :: back).takeWhile (fun c => !isSeparator c) = [] :=
    List.takeWhile_cons_of_neg (by rw [hch]; exact Bool.false_ne_true)
  rw [List.takeWhile_append_of_pos hfront, hnil, List.append_nil]

theorem dropWhile_separator (hfront : ∀ c ∈ front, (!isSeparator c) = true)
    (hch : isSeparator ch = true) (back : List Char) :
    (front ++ ch :: back).dropWhile (fun c => !isSeparator c) = ch :: back := by
  rw [List.dropWhile_append_of_pos hfront]
  exact List.dropWhile_cons_of_neg (by rw [hch]; exact Bool.false_ne_true)

end Separators

section Settled

variable {acc word cs : List Char}

theorem redactKeyValue_settled (cs : List Char) : redactKeyValue cs = cs ↔ Settled [] cs := by
  have hsplit := @List.takeWhile_append_dropWhile _ (fun c => !isSeparator c) cs
  unfold redactKeyValue Settled
  cases hrest : cs.dropWhile fun c => !isSeparator c with
  | nil => exact iff_of_true rfl fun ch tail h => by cases h
  | cons ch tail =>
      rw [hrest] at hsplit
      by_cases hsensitive : isSensitive (cs.takeWhile fun c => !isSeparator c) = true
      · simp only [if_pos hsensitive]
        constructor
        · intro heq ch' tail' hcons _
          obtain ⟨rfl, rfl⟩ := List.cons.inj hcons
          exact (List.cons.inj (List.append_cancel_left (heq.trans hsplit.symm))).2.symm
        · intro h
          rw [← h ch tail rfl hsensitive]
          exact hsplit
      · simp only [if_neg hsensitive]
        exact iff_of_true trivial fun ch' tail' _ h => absurd h hsensitive

theorem Sealed.settled (h : Sealed cs) : Settled [] cs := by
  intro ch tail hrest _
  have hsplit := @List.takeWhile_append_dropWhile _ (fun c => !isSeparator c) cs
  have hnot := List.head?_dropWhile_not (fun c => !isSeparator c) cs
  rw [hrest] at hsplit hnot
  exact h _ ch tail hsplit.symm (by simpa using hnot)

theorem settled_free (hword : ¬word.any isSeparator = true) :
    Settled acc (word ++ cs) ↔ Settled (acc ++ word) cs := by
  have hfree : ∀ c ∈ word, (!isSeparator c) = true := by
    intro c hc
    rw [Bool.not_eq_true']
    exact Bool.eq_false_iff.mpr fun h => hword (List.any_eq_true.mpr ⟨c, hc, h⟩)
  unfold Settled
  rw [List.dropWhile_append_of_pos hfree, List.takeWhile_append_of_pos hfree, List.append_assoc]

-- A word with a separator decides.
theorem settled_word (hword : word.any isSeparator = true) :
    Settled acc (word ++ cs) ↔
      (isSensitive (acc ++ word.takeWhile fun c => !isSeparator c) = true →
        (word.dropWhile fun c => !isSeparator c).tail ++ cs = ' ' :: redacted) := by
  obtain ⟨front, ch, back, rfl, hfront, hch⟩ := exists_separator hword
  unfold Settled
  rw [List.append_assoc, List.cons_append, takeWhile_separator hfront hch,
    dropWhile_separator hfront hch, takeWhile_separator hfront hch, dropWhile_separator hfront hch,
    List.tail_cons]
  constructor
  · intro h
    exact h ch (back ++ cs) rfl
  · intro h ch' tail hcons hsensitive
    obtain ⟨-, rfl⟩ := List.cons.inj hcons
    exact h hsensitive

end Settled

section Words

variable {armed : Bool} {word : List Char} {words : List (List Char)}

theorem passWord_remnant (armed : Bool) (word : List Char) :
    passWord armed word =
      (if replaces armed word = true then redacted else []) ++ remnant armed word := by
  unfold remnant replaces
  by_cases hlong : armed = true ∧ 8 ≤ byteLen (word.takeWhile visible)
  · rw [if_pos (by simpa using hlong), if_pos (by simpa using hlong)]
    obtain ⟨rfl, hlong⟩ := hlong
    exact passWord_long hlong
  · rw [if_neg (by simpa using hlong), if_neg (by simpa using hlong), List.nil_append]
    exact passWord_short hlong

theorem endsKeyword_separator {ch : Char} (hch : isSeparator ch = true) (front : List Char) :
    endsKeyword (front ++ [ch]) = false := by
  rw [Bool.eq_false_iff]
  intro hends
  have hletter := endsKeyword_last hends
  unfold isSeparator at hch
  simp only [Bool.or_eq_true, beq_iff_eq] at hch
  obtain rfl | rfl := hch
  all_goals exact absurd hletter (by decide)

-- A word that a separator ends is no keyword.
theorem behindWord_separator {front : List Char} {ch : Char} (hch : isSeparator ch = true)
    (h : remnant armed word = front ++ [ch]) : behindWord armed word = false := by
  have hnot : ¬endsKeyword (front ++ [ch]) = true := by
    rw [endsKeyword_separator hch]
    exact Bool.false_ne_true
  rw [Bool.eq_false_iff]
  intro hbehind
  unfold remnant replaces at h
  by_cases hlong : armed = true ∧ 8 ≤ byteLen (word.takeWhile visible)
  · rw [if_pos (by simpa using hlong)] at h
    unfold behindWord at hbehind
    rw [if_pos hlong.1, h] at hbehind
    exact hnot hbehind
  · rw [if_neg (by simpa using hlong)] at h
    have hends : endsKeyword word = true := by
      unfold behindWord at hbehind
      split at hbehind
      · exact endsKeyword_suffix (List.dropWhile_suffix visible) hbehind
      · exact hbehind
    by_cases htoken : isTokenish word = true
    · obtain ⟨front', back, hword, hout, -, -⟩ := redactWord_eq htoken
      have hlast := congrArg List.getLast? (hout.symm.trans h)
      rw [List.getLast?_append, List.getLast?_append, List.getLast?_append] at hlast
      obtain hnil | ⟨back, d, rfl⟩ := List.eq_nil_or_concat back
      · rw [hnil] at hlast
        have hlast : some ']' = some ch := hlast
        obtain rfl := Option.some.inj hlast
        exact absurd hch (by decide)
      · rw [List.concat_eq_append, List.getLast?_append] at hlast
        have hlast : some d = some ch := hlast
        obtain rfl := Option.some.inj hlast
        rw [hword, List.concat_eq_append, ← List.append_assoc, endsKeyword_separator hch] at hends
        cases hends
    · rw [redactWord_of_not htoken] at h
      rw [h] at hends
      exact hnot hends

theorem pass_blank (hwords : ∀ word ∈ words, ' ' ∉ word) (armed : Bool) :
    ∀ word ∈ (schemeWords armed words).map redactWord, ' ' ∉ word := by
  intro word hword
  obtain ⟨source, hsource, rfl⟩ := List.mem_map.mp hword
  exact redactWord_blank (schemeWords_blank hwords armed source hsource)

theorem pass_redacted (words : List (List Char)) :
    (schemeWords false words).map redactWord = [redacted] ↔ words.map redactWord = [redacted] := by
  cases words with
  | nil => exact Iff.rfl
  | cons word rest =>
      rw [pass_cons, passWord_short (by simp), List.map_cons, List.cons.injEq, List.cons.injEq]
      cases rest with
      | nil => exact Iff.rfl
      | cons next rest =>
          rw [pass_cons, List.map_cons]
          simp

theorem intercalate_redacted (hwords : ∀ word ∈ words, ' ' ∉ word) (hne : words ≠ []) :
    [' '].intercalate words = redacted ↔ words = [redacted] := by
  constructor
  · intro h
    rw [← List.splitOn_intercalate ' ' hwords hne, h]
    exact List.splitOn_eq_singleton (by decide)
  · rintro rfl
    exact List.intercalate_singleton

-- What comes behind the separator of a word is what rule 1 writes.
theorem behind_separator {rest : List (List Char)} (hleft : ' ' ∉ remnant armed word)
    (hsep : (remnant armed word).any isSeparator = true) (hrest : ∀ word ∈ rest, ' ' ∉ word) :
    (((remnant armed word).dropWhile fun c => !isSeparator c).tail ++
        if (schemeWords (behindWord armed word) rest).map redactWord = [] then []
        else ' ' :: [' '].intercalate ((schemeWords (behindWord armed word) rest).map redactWord)) =
          ' ' :: redacted ↔
      ((remnant armed word).dropWhile fun c => !isSeparator c).length = 1 ∧
        rest.map redactWord = [redacted] := by
  have hsplit := @List.takeWhile_append_dropWhile _ (fun c => !isSeparator c) (remnant armed word)
  have hnot := List.head?_dropWhile_not (fun c => !isSeparator c) (remnant armed word)
  have hpass := pass_blank hrest (behindWord armed word)
  cases hdrop : (remnant armed word).dropWhile fun c => !isSeparator c with
  | nil =>
      obtain ⟨c, hc, hch⟩ := List.any_eq_true.mp hsep
      have hfree := List.dropWhile_eq_nil_iff.mp hdrop c hc
      rw [hch] at hfree
      cases hfree
  | cons ch tail =>
      rw [hdrop] at hsplit hnot
      have hch : isSeparator ch = true := by simpa using hnot
      have hend : tail = [] → behindWord armed word = false := by
        rintro rfl
        exact behindWord_separator hch hsplit.symm
      rw [List.tail_cons]
      constructor
      · intro h
        cases tail with
        | cons d tail =>
            obtain ⟨rfl, -⟩ := List.cons.inj h
            exact absurd (by rw [← hsplit]; simp) hleft
        | nil =>
            rw [hend rfl] at h hpass
            rw [List.nil_append] at h
            split at h
            · cases h
            · rename_i hne
              have hwords := (intercalate_redacted hpass hne).mp (List.cons.inj h).2
              exact ⟨rfl, (pass_redacted rest).mp hwords⟩
      · rintro ⟨hlength, hredacted⟩
        have htail : tail = [] := by
          rw [List.length_cons] at hlength
          exact List.length_eq_zero_iff.mp (by omega)
        rw [hend htail, htail, (pass_redacted rest).mpr hredacted, if_neg (List.cons_ne_nil _ _),
          List.intercalate_singleton, List.nil_append]

-- Behind a replaced value the keys before it no longer count.
theorem sensitive_remnant {acc since : List Char}
    (hacc : ∀ text, isSensitive (acc ++ text) = isSensitive (since ++ text))
    (harmed : armed = true → ∃ front, acc = front ++ [' ']) (word text : List Char) :
    isSensitive (acc ++ (if replaces armed word = true then redacted else []) ++ text) =
      isSensitive ((if replaces armed word = true then [] else since) ++ text) := by
  by_cases hlong : replaces armed word = true
  · rw [if_pos hlong, if_pos hlong]
    obtain ⟨front, rfl⟩ := harmed (Bool.and_eq_true_iff.mp hlong).1
    have hblank : front ++ [' '] ≠ [] → (front ++ [' ']).getLast? = some ' ' := by simp
    rw [List.append_assoc]
    exact @isSensitive_behind (front ++ [' ']) [] hblank (by simp) text
  · rw [if_neg hlong, if_neg hlong, List.append_nil]
    exact hacc text

-- Word by word, with what the first pass makes of the words before.
theorem uncoversLeft_iff {acc since : List Char} (hne : words ≠ []) (hwords : ∀ word ∈ words, ' ' ∉ word)
    (hacc : ∀ text, isSensitive (acc ++ text) = isSensitive (since ++ text))
    (harmed : armed = true → ∃ front, acc = front ++ [' ']) :
    uncoversLeft armed since words = false ↔
      Settled acc ([' '].intercalate ((schemeWords armed words).map redactWord)) := by
  induction words generalizing armed acc since with
  | nil => exact absurd rfl hne
  | cons word rest ih =>
      have hrest : ∀ word ∈ rest, ' ' ∉ word := fun w hw => hwords w (List.mem_cons_of_mem _ hw)
      have hout : ' ' ∉ passWord armed word := by
        refine pass_blank hwords armed (passWord armed word) ?_
        rw [pass_cons]
        exact List.mem_cons_self
      have hpre : ¬(if replaces armed word = true then redacted else []).any isSeparator = true := by
        split <;> decide
      have hsince := sensitive_remnant hacc harmed word
      rw [passWord_remnant] at hout
      rw [pass_cons, intercalate_cons, passWord_remnant, List.append_assoc, settled_free hpre,
        uncoversLeft]
      by_cases hsep : (remnant armed word).any isSeparator = true
      · rw [if_pos hsep, settled_word hsep, hsince,
          behind_separator (fun h => hout (List.mem_append_right _ h)) hsep hrest]
        rw [Bool.and_eq_false_iff, Bool.not_eq_false', Bool.and_eq_true, beq_iff_eq, beq_iff_eq,
          ← Bool.not_eq_true, ← Decidable.imp_iff_not_or]
      · rw [if_neg hsep, settled_free hsep]
        cases rest with
        | nil =>
            refine iff_of_true rfl ?_
            intro ch tail h
            cases h
        | cons next rest =>
            have hcons : (schemeWords (behindWord armed word) (next :: rest)).map redactWord ≠ [] := by
              rw [pass_cons]
              exact List.cons_ne_nil _ _
            have hblank : ¬[' '].any isSeparator = true := by decide
            have hsettled := fun acc cs => @settled_free acc [' '] cs hblank
            rw [if_neg hcons]
            refine Iff.trans ?_ (hsettled _ _).symm
            apply ih (List.cons_ne_nil next rest) hrest
            · intro text
              have hlonger := hsince (remnant armed word ++ ([' '] ++ text))
              simpa only [List.append_assoc] using hlonger
            · exact fun _ => ⟨_, rfl⟩

end Words

section Tokens

variable {word since sinceLeft : List Char}

theorem endsReplaced_iff (rest : List (List Char)) :
    endsReplaced rest = (rest.map redactWord == [redacted]) := by
  match rest with
  | [] => rfl
  | [word] =>
      rw [Bool.eq_iff_iff, endsReplaced, List.map_singleton, beq_iff_eq, List.cons.injEq]
      simp only [Bool.or_eq_true, Bool.and_eq_true, beq_iff_eq, and_true]
      by_cases htoken : isTokenish word = true
      · obtain ⟨front, back, hword, hout, -, -⟩ := redactWord_eq htoken
        have hnot : word ≠ redacted := by
          rintro rfl
          exact absurd htoken (by decide)
        rw [hout]
        generalize core word = token at hword
        subst hword
        simp only [hnot, htoken, true_and, false_or]
        constructor
        · intro htoken
          have hlen := congrArg List.length htoken
          simp only [List.length_append] at hlen
          have hfront : front = [] := List.length_eq_zero_iff.mp (by omega)
          have hback : back = [] := List.length_eq_zero_iff.mp (by omega)
          rw [hfront, hback]
          rfl
        · intro hredacted
          have hlen := congrArg List.length hredacted
          simp only [List.length_append] at hlen
          have hfront : front = [] := List.length_eq_zero_iff.mp (by omega)
          have hback : back = [] := List.length_eq_zero_iff.mp (by omega)
          rw [hfront, hback]
          simp
      · rw [redactWord_of_not htoken]
        simp only [htoken, false_and, or_false, Bool.false_eq_true]
  | first :: second :: rest =>
      rw [List.map_cons, List.map_cons]
      exact (beq_false_of_ne (by simp)).symm

theorem separator_of_tokenChar {c : Char} (h : isTokenChar c = true) : isSeparator c = false := by
  rw [Bool.eq_false_iff]
  intro hsep
  unfold isSeparator at hsep
  simp only [Bool.or_eq_true, beq_iff_eq] at hsep
  obtain rfl | rfl := hsep
  all_goals exact absurd h (by decide)

theorem any_separator {middle : List Char} (hmiddle : ∀ c ∈ middle, isSeparator c = false)
    (front back : List Char) :
    (front ++ middle ++ back).any isSeparator = (front.any isSeparator || back.any isSeparator) := by
  have hnone : middle.any isSeparator = false := by
    rw [List.any_eq_false]
    intro c hc
    rw [hmiddle c hc]
    exact Bool.false_ne_true
  rw [List.any_append, List.any_append, hnone, Bool.or_false]

-- A word that rule 4 takes for a token, with a separator before the token or behind it.
theorem uncovers_token (htoken : isTokenish word = true)
    (hsince : ∀ text, isSensitive (sinceLeft ++ text) = isSensitive (since ++ text))
    (hblank : sinceLeft ≠ [] → sinceLeft.getLast? = some ' ') :
    (redactWord word).any isSeparator = word.any isSeparator ∧
      (word.any isSeparator = true → ∀ last,
        (isSensitive (sinceLeft ++ (redactWord word).takeWhile fun c => !isSeparator c) &&
            !(((redactWord word).dropWhile fun c => !isSeparator c).length == 1 && last)) =
          (isSensitive (since ++ word.takeWhile fun c => !isSeparator c) &&
            !(word.takeWhile fun c => !isSeparator c).any Char.isAlphanum &&
            !((word.dropWhile fun c => !isSeparator c).length == 1 && last))) ∧
      ∀ text, isSensitive (sinceLeft ++ redactWord word ++ [' '] ++ text) = isSensitive text := by
  obtain ⟨front, back, hword, hout, hfront, hback⟩ := redactWord_eq htoken
  obtain ⟨hlen, hchars⟩ := core_of_tokenish htoken
  obtain ⟨digit, hdigit, halphanum⟩ := exists_digit htoken
  have hcore : ∀ c ∈ core word, isSeparator c = false := fun c hc => separator_of_tokenChar (hchars c hc)
  generalize core word = token at hword hlen hcore hdigit
  have hbehind : ∀ (text plain : List Char), (∀ c ∈ plain, c.isAlphanum = false) →
      isSensitive (sinceLeft ++ (front ++ redacted ++ plain ++ text)) = isSensitive text := by
    intro text plain hplain
    rw [List.append_assoc, List.append_assoc, isSensitive_behind hblank hfront]
    exact isSensitive_plain hplain text
  rw [hout]
  subst hword
  refine ⟨?_, fun hsep last => ?_, fun text => ?_⟩
  · rw [any_separator (by decide), any_separator hcore]
  · by_cases hbefore : front.any isSeparator = true
    · -- the separator stands before the token
      obtain ⟨front, ch, middle, rfl, hfree, hch⟩ := exists_separator hbefore
      have hplain : front.any Char.isAlphanum = false := by
        rw [List.any_eq_false]
        intro c hc
        rw [hfront c (List.mem_append_left _ hc)]
        exact Bool.false_ne_true
      have hten : redacted.length = 10 := rfl
      simp only [List.append_assoc, List.cons_append]
      rw [takeWhile_separator hfree hch, dropWhile_separator hfree hch, takeWhile_separator hfree hch,
        dropWhile_separator hfree hch, hsince, hplain]
      have hmore : ∀ cs : List Char, 0 < cs.length → ((ch :: (middle ++ (cs ++ back))).length == 1) = false := by
        intro cs hcs
        rw [beq_eq_false_iff_ne, List.length_cons, List.length_append, List.length_append]
        omega
      rw [hmore redacted (by decide), hmore token (by omega)]
      simp
    · -- it stands behind the token
      rw [Bool.not_eq_true] at hbefore
      rw [any_separator hcore, hbefore, Bool.false_or] at hsep
      obtain ⟨plain, ch, rest, rfl, hfree, hch⟩ := exists_separator hsep
      have hkey : ∀ middle : List Char, (∀ c ∈ middle, isSeparator c = false) →
          ∀ c ∈ front ++ middle ++ plain, (!isSeparator c) = true := by
        intro middle hmiddle c hc
        rw [List.any_eq_false] at hbefore
        rw [Bool.not_eq_true']
        obtain hc | hc := List.mem_append.mp hc
        · obtain hc | hc := List.mem_append.mp hc
          · exact Bool.not_eq_true _ |>.mp (hbefore c hc)
          · exact hmiddle c hc
        · simpa using hfree c hc
      have hnone := hbehind [] plain fun c hc => hback c (List.mem_append_left _ hc)
      have hany : (front ++ token ++ plain).any Char.isAlphanum = true :=
        List.any_eq_true.mpr ⟨digit, by simp [hdigit], halphanum⟩
      have hempty : isSensitive [] = false := by decide
      rw [← List.append_assoc, ← List.append_assoc, takeWhile_separator (hkey redacted (by decide)) hch,
        takeWhile_separator (hkey token hcore) hch, hany]
      rw [List.append_nil, hempty] at hnone
      rw [hnone]
      simp
  · have hplain : ∀ c ∈ back ++ [' '], c.isAlphanum = false := by
      intro c hc
      obtain hc | hc := List.mem_append.mp hc
      · exact hback c hc
      · rw [List.mem_singleton.mp hc]
        decide
    have hhidden := hbehind text (back ++ [' ']) hplain
    simpa only [List.append_assoc] using hhidden

-- What the first pass leaves uncovers a key exactly if the line does.
theorem uncovers_eq {armed : Bool} {words : List (List Char)}
    (hsince : ∀ text, isSensitive (sinceLeft ++ text) = isSensitive (since ++ text))
    (hblank : sinceLeft ≠ [] → sinceLeft.getLast? = some ' ') :
    uncoversLeft armed sinceLeft words = uncovers armed since words := by
  induction words generalizing armed sinceLeft since with
  | nil => rfl
  | cons word rest ih =>
      rw [uncoversLeft, uncovers, ← endsReplaced_iff]
      unfold remnant
      have hlonger : ∀ front text : List Char, (∀ text, isSensitive (front ++ text) =
          isSensitive (since ++ text)) → isSensitive (front ++ word ++ [' '] ++ text) =
            isSensitive (since ++ word ++ [' '] ++ text) := by
        intro front text hfront
        have hwhole := hfront (word ++ ([' '] ++ text))
        simpa only [List.append_assoc] using hwhole
      by_cases hreplaces : replaces armed word = true
      · simp only [hreplaces, Bool.not_true, Bool.and_false, Bool.false_and, Bool.not_false,
          Bool.and_true, Bool.false_eq_true, if_false, if_true]
        rw [ih (fun _ => rfl) (by simp)]
      · rw [Bool.not_eq_true] at hreplaces
        simp only [hreplaces, Bool.false_eq_true, if_false, Bool.not_false, Bool.and_true]
        by_cases htoken : isTokenish word = true
        · obtain ⟨hany, hkey, hbehind⟩ := uncovers_token htoken hsince hblank
          simp only [htoken, if_true, Bool.true_and]
          rw [hany, @ih [] _ _ hbehind (by simp)]
          by_cases hsep : word.any isSeparator = true
          · rw [if_pos hsep, if_pos hsep]
            exact hkey hsep (endsReplaced rest)
          · rw [if_neg hsep, if_neg hsep]
        · have hplain := redactWord_of_not htoken
          rw [Bool.not_eq_true] at htoken
          simp only [htoken, Bool.false_eq_true, if_false, Bool.false_and, Bool.not_false,
            Bool.and_true]
          rw [hplain, hsince, ih (fun text => hlonger sinceLeft text hsince) (by simp)]

end Tokens

section Lines

theorem steady_append_redacted (first second : Bool) (words : List (List Char)) :
    steady first second (words ++ [redacted]) = steady first second words := by
  induction words generalizing first second with
  | nil =>
      have hspared : spared redacted = true := by decide
      rw [List.nil_append, steady, steady, steady, hspared, Bool.or_true]
      rfl
  | cons word rest ih =>
      rw [List.cons_append, steady, steady, ih]

theorem steady_kept (line : List Char) :
    steady false false ((redactKeyValue line).splitOn ' ') =
      steady false false ((kept line).splitOn ' ') := by
  unfold redactKeyValue kept
  cases line.dropWhile fun c => !isSeparator c with
  | nil => rfl
  | cons ch rest =>
      by_cases hsensitive : isSensitive (line.takeWhile fun c => !isSeparator c) = true
      · simp only [if_pos hsensitive]
        have hblank : ' ' ∉ redacted := by decide
        rw [List.append_cons, List.splitOn_append_cons_self, List.splitOn_eq_singleton hblank,
          steady_append_redacted]
      · simp only [if_neg hsensitive]

theorem splitOn_redactLine (line : List Char) :
    (redactLine line).splitOn ' ' =
      (schemeWords false ((redactKeyValue line).splitOn ' ')).map redactWord := by
  have hwords := splitOn_blank (redactKeyValue line)
  rw [redactLine_words]
  apply List.splitOn_intercalate ' ' (pass_blank hwords false)
  obtain ⟨word, rest, hcons⟩ :=
    List.exists_cons_of_ne_nil (List.splitOn_ne_nil ' ' (redactKeyValue line))
  rw [hcons, pass_cons]
  exact List.cons_ne_nil _ _

-- Nothing is left to redact if rule 1 leaves the line and the other rules leave its words.
theorem redactLine_settled {line : List Char} (h : Settled [] (redactLine line)) :
    redactLine (redactLine line) = redactLine line ↔
      steady false false ((kept line).splitOn ' ') = true := by
  have hkeep := (redactKeyValue_settled (redactLine line)).mpr h
  rw [← steady_kept, ← pass_again]
  constructor
  · intro heq
    have hwords := congrArg (List.splitOn ' ') heq
    rw [splitOn_redactLine, hkeep, splitOn_redactLine] at hwords
    exact hwords
  · intro hwords
    rw [redactLine_words, hkeep, splitOn_redactLine, hwords, ← redactLine_words]

theorem redactLine_sealed {line : List Char} (h : firstSensitive line = true) :
    Sealed (redactLine line) :=
  (redactKeyValue_sealed h).redactAuthSchemes.redactLongTokens

-- A line that comes out again has nothing for rule 1.
theorem settled_of_again {line : List Char} (h : redactLine line = line) : Settled [] line := by
  by_cases hsensitive : firstSensitive line = true
  · have hsealed := redactLine_sealed hsensitive
    rw [h] at hsealed
    exact hsealed.settled
  · rw [Bool.not_eq_true] at hsensitive
    exact (redactKeyValue_settled line).mp (redactKeyValue_of_not hsensitive)

theorem settled_redactLine {line : List Char} (h : firstSensitive line = false) :
    Settled [] (redactLine line) ↔ uncovers false [] (line.splitOn ' ') = false := by
  have hleft := @uncovers_eq [] [] false (line.splitOn ' ') (fun _ => rfl) fun hne => absurd rfl hne
  rw [redactLine_words, redactKeyValue_of_not h, ← hleft]
  refine (uncoversLeft_iff (List.splitOn_ne_nil ' ' line) (splitOn_blank line) (fun _ => rfl) ?_).symm
  intro harmed
  cases harmed

theorem redactLine_again (line : List Char) :
    redactLine (redactLine line) = redactLine line ↔
      (firstSensitive line = true ∨ uncovers false [] (line.splitOn ' ') = false) ∧
        steady false false ((kept line).splitOn ' ') = true := by
  by_cases hsensitive : firstSensitive line = true
  · rw [redactLine_settled (redactLine_sealed hsensitive).settled]
    simp only [hsensitive, true_or, true_and]
  · rw [Bool.not_eq_true] at hsensitive
    simp only [hsensitive, Bool.false_eq_true, false_or]
    rw [← settled_redactLine hsensitive]
    constructor
    · intro heq
      have hsettled := settled_of_again heq
      exact ⟨hsettled, (redactLine_settled hsettled).mp heq⟩
    · rintro ⟨hsettled, hsteady⟩
      exact (redactLine_settled hsettled).mpr hsteady

end Lines

end VMForge.Cli
