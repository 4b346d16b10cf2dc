import VMForge.Cli.Redact.Schemes
import VMForge.Cli.Redact.Tokens

namespace VMForge.Cli

open Text

-- Whether a word is one of the two in front of an authorization value.
def isKeyword (word : List Char) : Bool :=
  lower word = "bearer".toList ∨ lower word = "basic".toList

def endsKeyword (word : List Char) : Bool :=
  ["bearer".toList, "basic".toList].any fun k => k.isSuffixOf (lower word)

-- Rule 2, word by word: behind a keyword the first run of a word is its value.
def schemeWords : Bool → List (List Char) → List (List Char)
  | _, [] => []
  | false, word :: rest => word :: schemeWords (endsKeyword word) rest
  | true, word :: rest =>
      (masked (word.takeWhile visible) ++ word.dropWhile visible) ::
        schemeWords (endsKeyword (word.dropWhile visible)) rest

-- Whether the next word stands directly behind a keyword. A word that does so itself counts only from
-- its first whitespace on.
def behindWord (armed : Bool) (word : List Char) : Bool :=
  endsKeyword (if armed = true then word.dropWhile visible else word)

-- Whether the first run of a word is replaced.
def replaces (armed : Bool) (word : List Char) : Bool :=
  armed && 8 ≤ byteLen (word.takeWhile visible)

section Keywords

theorem visible_of_range {c : Char} (hlow : 32 < c.toNat) (hhigh : c.toNat < 128) :
    visible c = true := by
  unfold visible isWhitespace
  simp only [List.mem_cons, List.not_mem_nil, or_false, Bool.not_eq_true', Bool.or_eq_false_iff,
    Bool.and_eq_false_imp, decide_eq_true_eq, decide_eq_false_iff_not]
  omega

theorem toLower_eq_blank {c : Char} (h : c.toLower = ' ') : c = ' ' := by
  obtain hsame | ⟨hlow, -, hnat⟩ := toLower_cases c
  · rw [← hsame, h]
  · rw [h] at hnat
    have hblank : ' '.toNat = 32 := rfl
    omega

theorem visible_word {word : List Char} (h : lower word ∈ ["bearer".toList, "basic".toList]) :
    ∀ c ∈ word, visible c = true := by
  intro c hc
  have hmem : c.toLower ∈ lower word := List.mem_map_of_mem hc
  have hletter : c.toLower ∈ "bearerbasic".toList := by
    simp only [List.mem_cons, List.not_mem_nil, or_false] at h
    obtain h | h := h
    · rw [h] at hmem
      exact List.mem_append_left "basic".toList hmem
    · rw [h] at hmem
      exact List.mem_append_right "bearer".toList hmem
  have hrange : ∀ d ∈ "bearerbasic".toList, 96 < d.toNat ∧ d.toNat < 128 := by decide
  obtain ⟨hlow, hhigh⟩ := hrange _ hletter
  obtain hsame | ⟨hlow', hhigh', -⟩ := toLower_cases c
  · rw [hsame] at hlow hhigh
    exact visible_of_range (by omega) hhigh
  · exact visible_of_range (by omega) (by omega)

-- Two texts with the same first word.
theorem append_blank {word word' rest rest' : List Char} (hword : ' ' ∉ word) (hword' : ' ' ∉ word')
    (h : word ++ ' ' :: rest = word' ++ ' ' :: rest') : word = word' ∧ rest = rest' := by
  have hrun := congrArg (List.takeWhile (· != ' ')) h
  have hall : ∀ w : List Char, ' ' ∉ w → ∀ c ∈ w, (c != ' ') = true := by
    intro w hw c hc
    simp only [bne_iff_ne, ne_eq]
    rintro rfl
    exact hw hc
  rw [List.takeWhile_append_of_pos (hall word hword), List.takeWhile_append_of_pos (hall word' hword')]
    at hrun
  have hsame : word = word' := by simpa using hrun
  subst hsame
  exact ⟨rfl, (List.cons.inj (List.append_cancel_left h)).2⟩

-- A keyword is one of two words, and a blank.
theorem keywordAt_split {cs : List Char} {n : Nat} (h : keywordAt cs = some n) :
    ∃ word rest, cs = word ++ ' ' :: rest ∧ n = word.length + 1 ∧
      lower word ∈ ["bearer".toList, "basic".toList] := by
  have hword : ∀ k : List Char, lower (cs.take n) = k ++ [' '] → k.length + 1 = n →
      ∃ word rest, cs = word ++ ' ' :: rest ∧ n = word.length + 1 ∧ lower word = k := by
    intro k hlower hn
    obtain ⟨word, last, htake, hk, hlast⟩ := List.map_eq_append_iff.mp hlower
    obtain ⟨c, rfl⟩ : ∃ c, last = [c] := by
      cases last with
      | nil => cases hlast
      | cons c last =>
          simp only [List.map_cons, List.cons.injEq, List.map_eq_nil_iff] at hlast
          exact ⟨c, by rw [hlast.2]⟩
    simp only [List.map_cons, List.map_nil, List.cons.injEq, and_true] at hlast
    obtain rfl := toLower_eq_blank hlast
    refine ⟨word, cs.drop n, ?_, ?_, hk⟩
    · rw [List.append_cons, ← htake, List.take_append_drop]
    · rw [← hn, ← hk, List.length_map]
  obtain ⟨hlower, rfl⟩ | ⟨hlower, rfl⟩ := keywordAt_lower h
  · obtain ⟨word, rest, hcs, hn, hk⟩ := hword "bearer".toList hlower rfl
    exact ⟨word, rest, hcs, hn, by simp [hk]⟩
  · obtain ⟨word, rest, hcs, hn, hk⟩ := hword "basic".toList hlower rfl
    exact ⟨word, rest, hcs, hn, by simp [hk]⟩

theorem keywordAt_append {word : List Char} (rest : List Char)
    (h : lower word ∈ ["bearer".toList, "basic".toList]) :
    keywordAt (word ++ ' ' :: rest) = some (word.length + 1) := by
  have hlower : lower (word ++ ' ' :: rest) = lower word ++ ' ' :: lower rest := by
    simp [lower]
  have hlen : (lower word).length = word.length := List.length_map ..
  unfold keywordAt
  rw [hlower]
  simp only [List.mem_cons, List.not_mem_nil, or_false] at h
  obtain h | h := h
  · rw [h] at hlen ⊢
    rw [if_pos (by simp [List.isPrefixOf]), ← hlen]
    rfl
  · rw [h] at hlen ⊢
    rw [if_neg (by simp [List.isPrefixOf]), if_pos (by simp [List.isPrefixOf]), ← hlen]
    rfl

theorem isKeyword_iff {word : List Char} :
    isKeyword word = true ↔ lower word = "bearer".toList ∨ lower word = "basic".toList := by
  rw [isKeyword, decide_eq_true_iff]

theorem endsKeyword_cons (c : Char) (word : List Char) :
    endsKeyword (c :: word) = (isKeyword (c :: word) || endsKeyword word) := by
  rw [Bool.eq_iff_iff]
  simp only [endsKeyword, List.any_cons, List.any_nil, Bool.or_false, Bool.or_eq_true, isKeyword_iff,
    List.isSuffixOf_iff_suffix, lower_cons, List.suffix_cons_iff]
  constructor
  · rintro ((h | h) | (h | h))
    · exact Or.inl (Or.inl h.symm)
    · exact Or.inr (Or.inl h)
    · exact Or.inl (Or.inr h.symm)
    · exact Or.inr (Or.inr h)
  · rintro ((h | h) | (h | h))
    · exact Or.inl (Or.inl h.symm)
    · exact Or.inr (Or.inl h.symm)
    · exact Or.inl (Or.inr h)
    · exact Or.inr (Or.inr h)

-- A keyword is a whole word.
theorem keywordAt_word {word : List Char} (hword : ' ' ∉ word) (rest : List Char) :
    keywordAt (word ++ ' ' :: rest) = if isKeyword word = true then some (word.length + 1) else none := by
  by_cases hkey : isKeyword word = true
  · rw [if_pos hkey]
    exact keywordAt_append rest (by simpa [isKeyword] using hkey)
  · rw [if_neg hkey]
    cases hat : keywordAt (word ++ ' ' :: rest) with
    | none => rfl
    | some n =>
        obtain ⟨word', rest', heq, -, hword'⟩ := keywordAt_split hat
        have hblank : ' ' ∉ word' := fun h => absurd (visible_word hword' ' ' h) (by decide)
        obtain ⟨rfl, -⟩ := append_blank hword hblank heq
        exact absurd (by simpa [isKeyword] using hword') hkey

theorem keywordAt_last {word : List Char} (hword : ' ' ∉ word) : keywordAt word = none := by
  cases hat : keywordAt word with
  | none => rfl
  | some n =>
      obtain ⟨front, rest, rfl, -, -⟩ := keywordAt_split hat
      exact absurd (List.mem_append_right front List.mem_cons_self) hword

end Keywords

section Words

-- Where the loop goes on: at a value if a keyword stands before.
def goOn (armed : Bool) (cs : List Char) : List Char :=
  if armed = true then masked (cs.takeWhile visible) ++ redactAuthSchemes (cs.dropWhile visible)
  else redactAuthSchemes cs

theorem takeWhile_blank (word rest : List Char) :
    (word ++ ' ' :: rest).takeWhile visible = word.takeWhile visible := by
  induction word with
  | nil => rfl
  | cons c word ih => simp only [List.cons_append, List.takeWhile_cons, ih]

theorem dropWhile_blank (word rest : List Char) :
    (word ++ ' ' :: rest).dropWhile visible = word.dropWhile visible ++ ' ' :: rest := by
  induction word with
  | nil => rfl
  | cons c word ih =>
      simp only [List.cons_append, List.dropWhile_cons, ih]
      split <;> rfl

theorem redactAuthSchemes_last {word : List Char} (hword : ' ' ∉ word) :
    redactAuthSchemes word = word := by
  induction word with
  | nil => exact redactAuthSchemes_nil
  | cons c word ih =>
      rw [redactAuthSchemes_cons (keywordAt_last hword), ih fun h => hword (List.mem_cons_of_mem c h)]

theorem redactAuthSchemes_word {word : List Char} (hword : ' ' ∉ word) (rest : List Char) :
    redactAuthSchemes (word ++ ' ' :: rest) = word ++ ' ' :: goOn (endsKeyword word) rest := by
  induction word with
  | nil =>
      have hkey : keywordAt (' ' :: rest) = none := by
        rw [← List.nil_append (' ' :: rest), keywordAt_word List.not_mem_nil]
        rfl
      rw [List.nil_append, redactAuthSchemes_cons hkey]
      rfl
  | cons c word ih =>
      have hkey := keywordAt_word hword rest
      by_cases hword' : isKeyword (c :: word) = true
      · have htake : (c :: word ++ ' ' :: rest).take ((c :: word).length + 1) = c :: word ++ [' '] := by
          rw [List.append_cons]
          exact List.take_left' (by simp)
        have hdrop : (c :: word ++ ' ' :: rest).drop ((c :: word).length + 1) = rest := by
          rw [List.append_cons]
          exact List.drop_left' (by simp)
        rw [if_pos hword'] at hkey
        rw [redactAuthSchemes_keyword hkey, htake, hdrop, endsKeyword_cons, hword']
        simp [goOn]
      · rw [if_neg hword'] at hkey
        rw [Bool.not_eq_true] at hword'
        rw [List.cons_append] at hkey ⊢
        rw [redactAuthSchemes_cons hkey, endsKeyword_cons, hword', Bool.false_or,
          ih fun h => hword (List.mem_cons_of_mem c h)]
        rfl

theorem goOn_words (armed : Bool) {words : List (List Char)} (hwords : ∀ word ∈ words, ' ' ∉ word) :
    goOn armed ([' '].intercalate words) = [' '].intercalate (schemeWords armed words) := by
  induction words generalizing armed with
  | nil => cases armed <;> decide
  | cons word rest ih =>
      have hword := hwords word List.mem_cons_self
      have hafter : ' ' ∉ word.dropWhile visible := fun h =>
        hword ((List.dropWhile_suffix visible).subset h)
      cases rest with
      | nil =>
          rw [List.intercalate_singleton]
          cases armed with
          | false =>
              show redactAuthSchemes word = [' '].intercalate [word]
              rw [List.intercalate_singleton, redactAuthSchemes_last hword]
          | true =>
              show masked (word.takeWhile visible) ++ redactAuthSchemes (word.dropWhile visible) =
                [' '].intercalate [masked (word.takeWhile visible) ++ word.dropWhile visible]
              rw [List.intercalate_singleton, redactAuthSchemes_last hafter]
      | cons next rest =>
          have hrest := fun armed => ih armed fun w hw => hwords w (List.mem_cons_of_mem word hw)
          have hne : ∀ armed, schemeWords armed (next :: rest) ≠ [] := by
            intro armed
            cases armed <;> exact List.cons_ne_nil _ _
          rw [List.intercalate_cons_of_ne_nil (List.cons_ne_nil next rest), List.append_assoc,
            List.singleton_append]
          cases armed with
          | false =>
              show redactAuthSchemes (word ++ ' ' :: [' '].intercalate (next :: rest)) =
                [' '].intercalate (word :: schemeWords (endsKeyword word) (next :: rest))
              rw [redactAuthSchemes_word hword, hrest, List.intercalate_cons_of_ne_nil (hne _),
                List.append_assoc, List.singleton_append]
          | true =>
              show masked (List.takeWhile visible (word ++ ' ' :: [' '].intercalate (next :: rest))) ++
                  redactAuthSchemes
                    (List.dropWhile visible (word ++ ' ' :: [' '].intercalate (next :: rest))) =
                [' '].intercalate ((masked (word.takeWhile visible) ++ word.dropWhile visible) ::
                  schemeWords (endsKeyword (word.dropWhile visible)) (next :: rest))
              rw [takeWhile_blank, dropWhile_blank, redactAuthSchemes_word hafter, hrest,
                List.intercalate_cons_of_ne_nil (hne _)]
              simp

-- Rule 2 takes one word at a time.
theorem redactAuthSchemes_words {words : List (List Char)} (hwords : ∀ word ∈ words, ' ' ∉ word) :
    redactAuthSchemes ([' '].intercalate words) = [' '].intercalate (schemeWords false words) :=
  goOn_words false hwords

theorem schemeWords_blank {words : List (List Char)} (hwords : ∀ word ∈ words, ' ' ∉ word)
    (armed : Bool) : ∀ word ∈ schemeWords armed words, ' ' ∉ word := by
  induction words generalizing armed with
  | nil =>
      intro word hword
      cases armed <;> cases hword
  | cons first rest ih =>
      have hrest := fun armed => ih (fun w hw => hwords w (List.mem_cons_of_mem first hw)) armed
      have hfirst := hwords first List.mem_cons_self
      intro word hword
      cases armed with
      | false =>
          obtain rfl | hword := List.mem_cons.mp hword
          · exact hfirst
          · exact hrest _ word hword
      | true =>
          obtain rfl | hword := List.mem_cons.mp hword
          · rw [List.mem_append, not_or]
            constructor
            · unfold masked
              split
              · decide
              · exact fun h => hfirst ((List.takeWhile_prefix visible).subset h)
            · exact fun h => hfirst ((List.dropWhile_suffix visible).subset h)
          · exact hrest _ word hword

end Words

end VMForge.Cli
