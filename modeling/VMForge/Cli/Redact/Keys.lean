import VMForge.Cli.Redact.LongTokens
import VMForge.Cli.Redact.Pem

namespace VMForge.Cli

open Text

def isQuote (c : Char) : Bool := c == '"' || c == '\''

-- The last word before a separator, from its first character on that is no quote.
def keyOn (before : List Char) : List Char :=
  trimStart isQuote (lastPiece endsWord (trimEnd isWhitespace before))

-- An assignment to a sensitive key, anywhere in a line.
structure Assignment (line : List Char) where
  before : List Char
  separator : Char
  blanks : List Char
  value : List Char
  after : List Char
  parts : line = before ++ separator :: (blanks ++ value ++ after)
  separates : isSeparator separator = true
  blank : ∀ c ∈ blanks, isWhitespace c = true
  shown : ∀ c ∈ value, visible c = true
  sensitive : ∃ k ∈ sensitiveKeys, contains (lower (trimEnd isQuote (keyOn before))) k.toList = true
  secret : ¬value <+: redacted

-- The key, the separator and the value as they stand in the line.
def Assignment.text {line : List Char} (a : Assignment line) : List Char :=
  keyOn a.before ++ a.before.drop (trimEnd isWhitespace a.before).length ++
    a.separator :: (a.blanks ++ a.value)

-- Whether the first separator of a line follows a sensitive key.
def firstSensitive (line : List Char) : Bool :=
  match line.dropWhile fun c => !isSeparator c with
  | [] => false
  | _ => isSensitive (line.takeWhile fun c => !isSeparator c)

-- The stretches of a line between the values and the tokens in it that rules 2 and 4 replace, word by
-- word: `since` is what comes behind the last of them.
def stretches : Bool → List Char → List (List Char) → List (List Char)
  | _, since, [] => [since]
  | armed, since, word :: rest =>
      let blank := if rest = [] then [] else [' ']
      if replaces armed word = true then
        since :: stretches (behindWord armed word) (word.dropWhile visible ++ blank) rest
      else if isTokenish word = true then
        (since ++ word.takeWhile fun c => !c.isAlphanum) ::
          stretches (behindWord armed word) (lastPiece Char.isAlphanum word ++ blank) rest
      else stretches (behindWord armed word) (since ++ word ++ blank) rest

-- Nothing but the replacement comes after a separator.
def Sealed (cs : List Char) : Prop :=
  ∀ front ch back, cs = front ++ ch :: back → isSeparator ch = true → back = ' ' :: redacted

section Sealed

theorem sealed_of_free {cs : List Char} (h : ∀ c ∈ cs, isSeparator c = false) : Sealed cs := by
  rintro front ch back rfl hch
  rw [h ch (by simp)] at hch
  cases hch

theorem Sealed.suffix (front : List Char) {back : List Char} (h : Sealed (front ++ back)) :
    Sealed back := by
  rintro front' ch back' rfl hch
  exact h (front ++ front') ch back' (by simp) hch

theorem sealed_append {front back : List Char} (hfront : ∀ c ∈ front, isSeparator c = false)
    (hback : Sealed back) : Sealed (front ++ back) := by
  intro front' ch back' heq hch
  obtain ⟨m, hm, hmback⟩ | ⟨m, hm, hmback⟩ := List.append_eq_append_iff.mp heq
  · exact hback m ch back' hmback hch
  · cases m with
    | nil => exact hback [] ch back' hmback.symm hch
    | cons d m =>
        obtain ⟨rfl, -⟩ := List.cons.inj hmback
        rw [hfront ch (by rw [hm]; simp)] at hch
        cases hch

-- Rule 1 cuts the line behind its first key, if that is a sensitive one.
theorem redactKeyValue_sealed {line : List Char} (h : firstSensitive line = true) :
    Sealed (redactKeyValue line) := by
  unfold firstSensitive at h
  unfold redactKeyValue
  cases hrest : line.dropWhile fun c => !isSeparator c with
  | nil =>
      rw [hrest] at h
      cases h
  | cons ch rest =>
      rw [hrest] at h
      simp only at h ⊢
      rw [if_pos h]
      apply sealed_append
      · intro c hc
        simpa using List.mem_takeWhile_imp hc
      · intro front c back heq hc
        cases front with
        | nil =>
            obtain ⟨-, rfl⟩ := List.cons.inj heq
            rfl
        | cons d front =>
            obtain ⟨-, heq⟩ := List.cons.inj heq
            have hfree : ∀ c ∈ ' ' :: redacted, isSeparator c = false := by decide
            rw [hfree c (by rw [heq]; simp)] at hc
            cases hc

theorem redactKeyValue_of_not {line : List Char} (h : firstSensitive line = false) :
    redactKeyValue line = line := by
  unfold firstSensitive at h
  unfold redactKeyValue
  cases hrest : line.dropWhile fun c => !isSeparator c with
  | nil => rfl
  | cons ch rest =>
      rw [hrest] at h
      simp only at h ⊢
      rw [h]
      rfl

theorem keyword_free {cs : List Char} {n : Nat} (h : keywordAt cs = some n) :
    ∀ c ∈ cs.take n, isSeparator c = false := by
  intro c hc
  have hmem := mem_keyword h hc
  cases hsep : isSeparator c with
  | false => rfl
  | true =>
      unfold isSeparator at hsep
      simp only [Bool.or_eq_true, beq_iff_eq] at hsep
      obtain rfl | rfl := hsep
      all_goals exact absurd hmem (by decide)

theorem Sealed.value_end {value rest : List Char} (h : Sealed (value ++ rest))
    (hvalue : ' ' ∉ value) (hsep : ¬∀ c ∈ value, isSeparator c = false) :
    rest = ' ' :: redacted := by
  obtain ⟨ch, hmem, hch⟩ : ∃ c ∈ value, isSeparator c = true := by simpa using hsep
  obtain ⟨front, back, rfl⟩ := List.append_of_mem hmem
  have hback := h front ch (back ++ rest) (by simp) hch
  cases back with
  | nil => exact hback
  | cons d back =>
      obtain ⟨rfl, -⟩ := List.cons.inj hback
      exact absurd (by simp) hvalue

theorem redactAuthSchemes_tail : redactAuthSchemes (' ' :: redacted) = ' ' :: redacted := by
  decide

-- Rule 2 leaves the end of a sealed line alone.
theorem Sealed.redactAuthSchemes {cs : List Char} (h : Sealed cs) :
    Sealed (redactAuthSchemes cs) := by
  induction hn : cs.length using Nat.strongRecOn generalizing cs with
  | ind n ih =>
      cases cs with
      | nil =>
          rw [redactAuthSchemes_nil]
          exact h
      | cons c cs =>
          cases hkey : keywordAt (c :: cs) with
          | none =>
              rw [redactAuthSchemes_cons hkey]
              have hrest : Sealed (Cli.redactAuthSchemes cs) :=
                ih cs.length (by rw [← hn]; exact Nat.lt_succ_self _) (h.suffix [c]) rfl
              rintro (_ | ⟨d, front⟩) ch back heq hch
              · obtain ⟨rfl, rfl⟩ := List.cons.inj heq
                rw [h [] c cs rfl hch]
                exact redactAuthSchemes_tail
              · obtain ⟨-, heq⟩ := List.cons.inj heq
                exact hrest front ch back heq hch
          | some k =>
              obtain ⟨hk, hle⟩ := keywordAt_le hkey
              rw [redactAuthSchemes_keyword hkey, List.append_assoc]
              apply sealed_append (keyword_free hkey)
              have hdrop : Sealed ((c :: cs).drop k) := by
                rw [← List.take_append_drop k (c :: cs)] at h
                exact h.suffix _
              have hshort := length_dropWhile_drop (c :: cs) hk hle
              generalize (c :: cs).drop k = tail at hdrop hshort
              rw [← List.takeWhile_append_dropWhile (p := visible) (l := tail)] at hdrop
              have hvalue : ' ' ∉ tail.takeWhile visible :=
                fun hmem => absurd (List.mem_takeWhile_imp hmem) (by decide)
              generalize tail.takeWhile visible = value at hdrop hvalue ⊢
              generalize tail.dropWhile visible = rest at hdrop hshort ⊢
              by_cases hfree : ∀ d ∈ value, isSeparator d = false
              · apply sealed_append
                · unfold masked
                  split
                  · decide
                  · exact hfree
                · exact ih rest.length (by rw [← hn]; exact hshort) (hdrop.suffix _) rfl
              · -- the key's separator is part of the value, and the line ends behind it
                have hend := hdrop.value_end hvalue hfree
                rw [hend, redactAuthSchemes_tail, ← hend]
                unfold masked
                split
                · rw [hend]
                  exact sealed_of_free (by decide)
                · exact hdrop

theorem redactWord_free {word : List Char} (h : ∀ c ∈ word, isSeparator c = false) :
    ∀ c ∈ redactWord word, isSeparator c = false := by
  by_cases htoken : isTokenish word = true
  · obtain ⟨front, back, hword, hredact, -⟩ := redactWord_eq htoken
    rw [hredact]
    rw [hword] at h
    intro c hc
    simp only [List.mem_append] at hc h
    obtain (hc | hc) | hc := hc
    · exact h c (Or.inl (Or.inl hc))
    · revert hc
      revert c
      decide
    · exact h c (Or.inr hc)
  · rw [redactWord_of_not htoken]
    exact h

theorem Sealed.redactWord {word rest : List Char} (h : Sealed (word ++ rest)) (hword : ' ' ∉ word) :
    Sealed (redactWord word ++ rest) := by
  by_cases htoken : isTokenish word = true
  · obtain ⟨front, back, heq, hredact, -⟩ := redactWord_eq htoken
    have hlen := (core_of_tokenish htoken).1
    rw [hredact]
    rw [heq, List.append_assoc, List.append_assoc] at h
    rw [List.append_assoc, List.append_assoc]
    apply sealed_append
    · -- behind a separator before the core there would be no room for the core
      by_contra hsep
      have hfront : ' ' ∉ front := by
        rw [heq] at hword
        simp only [List.mem_append, not_or] at hword
        exact hword.1.1
      have hend := congrArg List.length (h.value_end hfront hsep)
      simp only [List.length_append] at hend
      have htail : (' ' :: redacted).length = 11 := by decide
      omega
    · exact sealed_append (by decide) ((h.suffix front).suffix (core word))
  · rw [redactWord_of_not htoken]
    exact h

-- So does rule 4.
theorem Sealed.redactLongTokens {cs : List Char} (h : Sealed cs) :
    Sealed (redactLongTokens cs) := by
  induction hn : cs.length using Nat.strongRecOn generalizing cs with
  | ind n ih =>
      by_cases hblank : ' ' ∈ cs
      · obtain ⟨word, rest, rfl, hword⟩ := exists_word hblank
        rw [redactLongTokens_append, redactLongTokens_word hword]
        by_cases hfree : ∀ c ∈ word, isSeparator c = false
        · apply sealed_append (redactWord_free hfree)
          have hrest : Sealed rest := (h.suffix word).suffix [' ']
          have hshort : rest.length < n := by
            rw [← hn, List.length_append, List.length_cons]
            omega
          have htail := ih rest.length hshort hrest rfl
          have hfree' : ∀ c ∈ [' '], isSeparator c = false := by decide
          exact sealed_append hfree' htail
        · have hend := h.value_end hword hfree
          obtain rfl := (List.cons.inj hend).2
          have htail : Cli.redactLongTokens redacted = redacted := by decide
          rw [htail]
          exact h.redactWord hword
      · rw [redactLongTokens_word hblank]
        rw [← List.append_nil cs] at h
        have hword := h.redactWord hblank
        rw [List.append_nil] at hword
        exact hword

end Sealed

-- Where only the replacement comes after a separator, no key stands with its value.
theorem Sealed.replaced {line out : List Char} (h : Sealed out) (a : Assignment line) :
    ¬a.text <:+: out := by
  rintro ⟨front, back, heq⟩
  unfold Assignment.text at heq
  have hend := h (front ++ (keyOn a.before ++
    a.before.drop (trimEnd isWhitespace a.before).length)) a.separator
    (a.blanks ++ a.value ++ back) (by rw [← heq]; simp) a.separates
  have hblank := a.blank
  cases hb : a.blanks with
  | nil =>
      rw [hb, List.nil_append] at hend
      cases hv : a.value with
      | nil => exact a.secret (by rw [hv]; exact List.nil_prefix)
      | cons c value =>
          rw [hv] at hend
          obtain ⟨rfl, -⟩ := List.cons.inj hend
          exact absurd (a.shown ' ' (by rw [hv]; exact List.mem_cons_self)) (by decide)
  | cons c blanks =>
      rw [hb] at hend hblank
      obtain ⟨-, hend⟩ := List.cons.inj hend
      cases blanks with
      | nil => exact a.secret ⟨back, hend⟩
      | cons d blanks =>
          have hopen : redacted = '[' :: redacted.tail := rfl
          rw [hopen] at hend
          obtain ⟨rfl, -⟩ := List.cons.inj hend
          exact absurd (hblank '[' (by simp)) (by decide)

theorem keyOn_suffix (before : List Char) :
    ∃ front, before = front ++ (keyOn before ++
      before.drop (trimEnd isWhitespace before).length) := by
  obtain ⟨blanks, hblanks, -⟩ := trimEnd_append isWhitespace before
  have hdrop : before.drop (trimEnd isWhitespace before).length = blanks := by
    have hlen := congrArg (List.drop (trimEnd isWhitespace before).length) hblanks
    rw [List.drop_left] at hlen
    exact hlen
  have hpiece : lastPiece endsWord (trimEnd isWhitespace before) <:+ trimEnd isWhitespace before := by
    unfold lastPiece
    rw [← List.reverse_prefix, List.reverse_reverse]
    exact List.takeWhile_prefix _
  have hkey : keyOn before <:+ trimEnd isWhitespace before :=
    (List.dropWhile_suffix _).trans hpiece
  obtain ⟨front, hfront⟩ := hkey
  exact ⟨front, by rw [hdrop, ← List.append_assoc, hfront]; exact hblanks⟩

theorem Assignment.inLine {line : List Char} (a : Assignment line) : a.text <:+: line := by
  obtain ⟨front, hfront⟩ := keyOn_suffix a.before
  refine ⟨front, a.after, ?_⟩
  have hparts := a.parts
  rw [hfront] at hparts
  refine Eq.trans ?_ hparts.symm
  simp [Assignment.text]

-- What becomes of a line that is not dropped.
theorem mem_redactLines {inPem : Bool} {ls : List (List Char)} {line out : List Char}
    (h : (line, some out) ∈ ls.zip (redactLines inPem ls)) :
    "-----BEGIN".toList.isPrefixOf (trim line) = true ∧
        out = redacted ++ " (PEM block removed)".toList ∨
      "-----BEGIN".toList.isPrefixOf (trim line) = false ∧ out = redactLine line := by
  induction ls generalizing inPem with
  | nil => exact absurd h List.not_mem_nil
  | cons l ls ih =>
      cases inPem with
      | true =>
          rw [redactLines, List.zip_cons_cons] at h
          obtain heq | h := List.mem_cons.mp h
          · cases heq
          · exact ih h
      | false =>
          rw [redactLines] at h
          split at h
          · rename_i hbegin
            rw [List.zip_cons_cons] at h
            obtain heq | h := List.mem_cons.mp h
            · cases heq
              exact Or.inl ⟨hbegin, rfl⟩
            · exact ih h
          · rename_i hbegin
            rw [List.zip_cons_cons] at h
            obtain heq | h := List.mem_cons.mp h
            · cases heq
              exact Or.inr ⟨Bool.eq_false_iff.mpr hbegin, rfl⟩
            · exact ih h

section Stretches

variable {run : List Char}

-- What stands before the first letter or digit of a word and behind the last one.
theorem redactWord_ends {word : List Char} (h : isTokenish word = true) :
    redactWord word =
      (word.takeWhile fun c => !c.isAlphanum) ++ redacted ++ lastPiece Char.isAlphanum word := by
  obtain ⟨front, back, hword, hout, hfront, hback⟩ := redactWord_eq h
  obtain ⟨hlen, -⟩ := core_of_tokenish h
  have hfirst : ∀ c rest, core word = c :: rest → c.isAlphanum = true := by
    intro c rest hcore
    simpa using trimMatches_cons hcore
  have hlast : ∀ c rest, core word = rest ++ [c] → c.isAlphanum = true := by
    intro c rest hcore
    simpa using trimMatches_concat hcore
  generalize core word = token at hword hlen hfirst hlast
  have hne : token ≠ [] := by
    rintro rfl
    exact absurd hlen (by decide)
  have hhead : (word.takeWhile fun c => !c.isAlphanum) = front := by
    obtain ⟨c, rest, rfl⟩ := List.exists_cons_of_ne_nil hne
    have hc := hfirst c rest rfl
    rw [hword, List.append_assoc, List.takeWhile_append_of_pos (by simpa using hfront),
      List.cons_append, List.takeWhile_cons_of_neg (by simpa using hc), List.append_nil]
  have hfoot : lastPiece Char.isAlphanum word = back := by
    obtain ⟨rest, c, rfl⟩ := List.eq_nil_or_concat token |>.resolve_left hne
    rw [List.concat_eq_append] at hword hlast
    have hc := hlast c rest rfl
    have hback' : ∀ d ∈ back.reverse, (!d.isAlphanum) = true := by
      intro d hd
      rw [hback d (List.mem_reverse.mp hd)]
      rfl
    rw [lastPiece, hword, List.reverse_append, List.takeWhile_append_of_pos hback']
    simp [hc]
  rw [hhead, hfoot]
  exact hout

-- The output, from the end of the last replacement on.
def tailFrom (armed : Bool) (since : List Char) (words : List (List Char)) : List Char :=
  since ++ [' '].intercalate ((schemeWords armed words).map redactWord)

theorem tailFrom_cons (armed : Bool) (since word : List Char) (rest : List (List Char)) :
    tailFrom armed since (word :: rest) =
      since ++ passWord armed word ++
        tailFrom (behindWord armed word) (if rest = [] then [] else [' ']) rest := by
  unfold tailFrom
  rw [pass_cons, intercalate_cons]
  cases rest with
  | nil => cases behindWord armed word <;> simp [schemeWords]
  | cons next rest => simp [pass_cons]

-- A word with a replacement ends a stretch.
theorem stretches_cons (armed : Bool) (since word : List Char) (rest : List (List Char)) :
    (∃ before behind, stretches armed since (word :: rest) =
        before :: stretches (behindWord armed word) behind rest ∧
      tailFrom armed since (word :: rest) =
        before ++ redacted ++ tailFrom (behindWord armed word) behind rest) ∨
    ∃ longer, stretches armed since (word :: rest) =
        stretches (behindWord armed word) longer rest ∧
      tailFrom armed since (word :: rest) = tailFrom (behindWord armed word) longer rest := by
  rw [tailFrom_cons, stretches]
  by_cases hlong : armed = true ∧ 8 ≤ byteLen (word.takeWhile visible)
  · have hreplaces : replaces armed word = true := by simpa [replaces] using hlong
    rw [if_pos hreplaces]
    obtain ⟨rfl, hlong⟩ := hlong
    refine Or.inl ⟨_, _, rfl, ?_⟩
    rw [passWord_long hlong]
    simp [tailFrom]
  · have hreplaces : ¬replaces armed word = true := by simpa [replaces] using hlong
    rw [if_neg hreplaces, passWord_short hlong]
    by_cases htoken : isTokenish word = true
    · rw [if_pos htoken, redactWord_ends htoken]
      refine Or.inl ⟨_, _, rfl, ?_⟩
      simp [tailFrom]
    · rw [if_neg htoken, redactWord_of_not htoken]
      refine Or.inr ⟨_, rfl, ?_⟩
      simp [tailFrom]

-- The stretches of a line are in what comes out.
theorem stretch_part {armed : Bool} {since stretch : List Char} {words : List (List Char)}
    (h : stretch ∈ stretches armed since words) : stretch <:+: tailFrom armed since words := by
  induction words generalizing armed since with
  | nil =>
      rw [stretches, List.mem_singleton] at h
      rw [h]
      exact (List.prefix_append since _).isInfix
  | cons word rest ih =>
      obtain ⟨before, behind, hstretches, htail⟩ | ⟨longer, hstretches, htail⟩ :=
        stretches_cons armed since word rest
      · rw [hstretches] at h
        rw [htail]
        obtain rfl | h := List.mem_cons.mp h
        · rw [List.append_assoc]
          exact (List.prefix_append _ _).isInfix
        · exact List.infix_append_of_infix_right (ih h)
      · rw [hstretches] at h
        rw [htail]
        exact ih h

-- What has no brackets is in what comes out only in a stretch.
theorem infix_stretch (hopen : '[' ∉ run) (hclose : ']' ∉ run) (hword : ¬run <:+: "REDACTED".toList)
    {armed : Bool} {since : List Char} {words : List (List Char)}
    (h : run <:+: tailFrom armed since words) :
    ∃ stretch ∈ stretches armed since words, run <:+: stretch := by
  induction words generalizing armed since with
  | nil =>
      have hnil : tailFrom armed since [] = since := by
        cases armed <;> exact List.append_nil since
      rw [hnil] at h
      exact ⟨since, List.mem_singleton.mpr rfl, h⟩
  | cons word rest ih =>
      obtain ⟨before, behind, hstretches, htail⟩ | ⟨longer, hstretches, htail⟩ :=
        stretches_cons armed since word rest
      · rw [htail, infix_redacted hopen hclose hword] at h
        rw [hstretches]
        obtain h | h := h
        · exact ⟨before, List.mem_cons_self, h⟩
        · obtain ⟨stretch, hmem, hpart⟩ := ih h
          exact ⟨stretch, List.mem_cons_of_mem before hmem, hpart⟩
      · rw [htail] at h
        rw [hstretches]
        exact ih h

end Stretches

-- The assignment stands as it is in a stretch of the line that rules 2 and 4 leave.
def Assignment.Spared {line : List Char} (a : Assignment line) : Prop :=
  ∃ stretch ∈ stretches false [] (line.splitOn ' '), a.text <:+: stretch

section Assignments

variable {line : List Char} (a : Assignment line)

theorem Assignment.separator_mem : a.separator ∈ a.text := by simp [Assignment.text]

theorem Assignment.not_infix_free {text : List Char} (h : ∀ c ∈ text, isSeparator c = false) :
    ¬a.text <:+: text := by
  intro hpart
  have hfree := h a.separator (hpart.subset a.separator_mem)
  rw [a.separates] at hfree
  cases hfree

-- Where rule 1 finds nothing, the stretches decide.
theorem Assignment.spared_infix (hfirst : firstSensitive line = false) (h : a.Spared) :
    a.text <:+: redactLine line := by
  obtain ⟨stretch, hmem, hpart⟩ := h
  rw [redactLine_words, redactKeyValue_of_not hfirst]
  exact hpart.trans (stretch_part hmem)

theorem Assignment.infix_spared (hfirst : firstSensitive line = false) (hopen : '[' ∉ a.text)
    (hclose : ']' ∉ a.text) (h : a.text <:+: redactLine line) : a.Spared := by
  rw [redactLine_words, redactKeyValue_of_not hfirst] at h
  exact infix_stretch hopen hclose (a.not_infix_free (by decide)) h

end Assignments

namespace Sample

def member : List Char := "\x7b\"token\": \"abc\", \"port\": 1\x7d".toList

def stamped : List Char := "10:00 password=hunter2".toList

-- A member of an object that has another one.
def inObject : Assignment member where
  before := "\x7b\"token\"".toList
  separator := ':'
  blanks := [' ']
  value := "\"abc\"".toList
  after := ", \"port\": 1\x7d".toList
  parts := by decide
  separates := rfl
  blank := by decide
  shown := by decide
  sensitive := ⟨"token", by decide, by decide⟩
  secret := by decide

-- An assignment behind a time.
def behindTime : Assignment stamped where
  before := "10:00 password".toList
  separator := '='
  blanks := []
  value := "hunter2".toList
  after := []
  parts := by decide
  separates := rfl
  blank := by decide
  shown := by decide
  sensitive := ⟨"password", by decide, by decide⟩
  secret := by decide

end Sample

end VMForge.Cli
