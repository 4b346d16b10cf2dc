import VMForge.Cli.Redact

namespace VMForge.Cli

open Text

-- The length of the keyword that a text starts with.
def keywordAt (cs : List Char) : Option Nat :=
  if "bearer ".toList.isPrefixOf (lower cs) = true then some 7
  else if "basic ".toList.isPrefixOf (lower cs) = true then some 6
  else none

-- What stands for the value of a keyword.
def masked (value : List Char) : List Char := if 8 ≤ byteLen value then redacted else value

section Find

theorem find_nil (pat : List Char) : find pat [] = if pat = [] then some 0 else none := rfl

theorem find_cons (pat : List Char) (c : Char) (cs : List Char) :
    find pat (c :: cs) =
      if pat.isPrefixOf (c :: cs) = true then some 0 else (find pat cs).map (· + 1) := rfl

theorem lower_cons (c : Char) (cs : List Char) : lower (c :: cs) = c.toLower :: lower cs := rfl

-- A place found lies in the text.
theorem find_le {pat cs : List Char} {i : Nat} (h : find pat cs = some i) :
    i + pat.length ≤ cs.length := by
  induction cs generalizing i with
  | nil =>
      rw [find_nil] at h
      split at h
      · rename_i hpat
        cases h
        rw [hpat]
        exact Nat.le_refl 0
      · cases h
  | cons c cs ih =>
      rw [find_cons] at h
      split at h
      · rename_i hprefix
        cases h
        rw [Nat.zero_add]
        exact (List.isPrefixOf_iff_prefix.mp hprefix).length_le
      · obtain ⟨j, hj, rfl⟩ := Option.map_eq_some_iff.mp h
        have hle := ih hj
        rw [List.length_cons]
        omega

end Find

section Hits

-- The better of two hits.
theorem hit_eq (rest : List Char) :
    hit rest =
      match find "bearer ".toList (lower rest), find "basic ".toList (lower rest) with
      | none, none => none
      | some i, none => some (i, 7)
      | none, some j => some (j, 6)
      | some i, some j => if j < i ∨ j = i then some (j, 6) else some (i, 7) := by
  unfold hit
  simp only [keywords, List.filterMap_cons, List.filterMap_nil]
  cases find "bearer ".toList (lower rest) <;> cases find "basic ".toList (lower rest)
  all_goals simp [String.length]

theorem not_both (cs : List Char) (h : "bearer ".toList.isPrefixOf cs = true) :
    ¬"basic ".toList.isPrefixOf cs = true := by
  intro hbasic
  obtain ⟨t, ht⟩ := List.isPrefixOf_iff_prefix.mp h
  obtain ⟨t', ht'⟩ := List.isPrefixOf_iff_prefix.mp hbasic
  rw [← ht'] at ht
  simp at ht

-- The first keyword is where a keyword starts first.
theorem hit_cons (c : Char) (cs : List Char) :
    hit (c :: cs) =
      match keywordAt (c :: cs) with
      | some n => some (0, n)
      | none => (hit cs).map fun h => (h.1 + 1, h.2) := by
  rw [hit_eq, hit_eq, lower_cons, find_cons, find_cons]
  unfold keywordAt
  rw [lower_cons]
  by_cases hbearer : "bearer ".toList.isPrefixOf (c.toLower :: lower cs) = true
  · have hbasic := not_both _ hbearer
    simp only [if_pos hbearer, if_neg hbasic]
    cases find "basic ".toList (lower cs) <;> simp
  · by_cases hbasic : "basic ".toList.isPrefixOf (c.toLower :: lower cs) = true
    · simp only [if_neg hbearer, if_pos hbasic]
      cases find "bearer ".toList (lower cs) <;> simp
    · simp only [if_neg hbearer, if_neg hbasic]
      cases find "bearer ".toList (lower cs) <;> cases find "basic ".toList (lower cs)
      · rfl
      · rfl
      · rfl
      · rename_i i j
        simp only [Option.map_some]
        by_cases hij : j < i ∨ j = i
        · rw [if_pos hij, if_pos (by omega), Option.map_some]
        · rw [if_neg hij, if_neg (by omega), Option.map_some]

theorem hit_nil : hit [] = none := by decide

theorem keywordAt_le {cs : List Char} {n : Nat} (h : keywordAt cs = some n) :
    0 < n ∧ n ≤ cs.length := by
  unfold keywordAt at h
  have hlen : (lower cs).length = cs.length := List.length_map ..
  split at h
  · rename_i hprefix
    cases h
    have hle := (List.isPrefixOf_iff_prefix.mp hprefix).length_le
    rw [hlen] at hle
    exact ⟨by decide, hle⟩
  · split at h
    · rename_i hprefix
      cases h
      have hle := (List.isPrefixOf_iff_prefix.mp hprefix).length_le
      rw [hlen] at hle
      exact ⟨by decide, hle⟩
    · cases h

theorem keywordAt_lower {cs : List Char} {n : Nat} (h : keywordAt cs = some n) :
    lower (cs.take n) = "bearer ".toList ∧ n = 7 ∨ lower (cs.take n) = "basic ".toList ∧ n = 6 := by
  unfold keywordAt at h
  split at h
  · rename_i hprefix
    cases h
    left
    have htake := List.prefix_iff_eq_take.mp (List.isPrefixOf_iff_prefix.mp hprefix)
    exact ⟨by rw [lower, List.map_take]; exact htake.symm, rfl⟩
  · split at h
    · rename_i hprefix
      cases h
      right
      have htake := List.prefix_iff_eq_take.mp (List.isPrefixOf_iff_prefix.mp hprefix)
      exact ⟨by rw [lower, List.map_take]; exact htake.symm, rfl⟩
    · cases h

-- The characters of a keyword are letters and a blank.
theorem mem_keyword {cs : List Char} {n : Nat} (h : keywordAt cs = some n) {c : Char}
    (hc : c ∈ cs.take n) : c.toLower ∈ "bearer basic ".toList := by
  have hmem : c.toLower ∈ lower (cs.take n) := List.mem_map_of_mem hc
  obtain ⟨hlower, -⟩ | ⟨hlower, -⟩ := keywordAt_lower h
  all_goals
    rw [hlower] at hmem
    revert hmem
    generalize c.toLower = d
    revert d
    simp

theorem hit_le {rest : List Char} {i n : Nat} (h : hit rest = some (i, n)) :
    0 < n ∧ i + n ≤ rest.length := by
  induction rest generalizing i with
  | nil =>
      rw [hit_nil] at h
      cases h
  | cons c cs ih =>
      rw [hit_cons] at h
      cases hkey : keywordAt (c :: cs) with
      | some m =>
          rw [hkey] at h
          cases h
          have hle := keywordAt_le hkey
          omega
      | none =>
          rw [hkey] at h
          obtain ⟨⟨j, m⟩, hj, he⟩ := Option.map_eq_some_iff.mp h
          cases he
          have hle := ih hj
          rw [List.length_cons]
          omega

end Hits

section Loop

-- What the loop does at its first hit.
theorem authLoop_succ (fuel : Nat) (rest : List Char) :
    authLoop (fuel + 1) rest =
      match hit rest with
      | some (i, n) =>
          rest.take (i + n) ++ masked ((rest.drop (i + n)).takeWhile visible) ++
            authLoop fuel ((rest.drop (i + n)).dropWhile visible)
      | none => rest := by
  rw [authLoop]
  cases hit rest with
  | none => rfl
  | some h =>
      obtain ⟨i, n⟩ := h
      simp only [masked]
      split <;> rfl

-- With enough fuel it does not matter how much.
theorem authLoop_fuel {fuel fuel' : Nat} {rest : List Char} (h : rest.length < fuel)
    (h' : rest.length < fuel') : authLoop fuel rest = authLoop fuel' rest := by
  induction fuel generalizing fuel' rest with
  | zero => exact absurd h (Nat.not_lt_zero _)
  | succ fuel ih =>
      cases fuel' with
      | zero => exact absurd h' (Nat.not_lt_zero _)
      | succ fuel' =>
          rw [authLoop_succ, authLoop_succ]
          cases hhit : hit rest with
          | none => rfl
          | some p =>
              obtain ⟨i, n⟩ := p
              obtain ⟨hn, hle⟩ := hit_le hhit
              have hshort : ((rest.drop (i + n)).dropWhile visible).length < rest.length := by
                have hdrop := (List.dropWhile_suffix (l := rest.drop (i + n)) visible).length_le
                rw [List.length_drop] at hdrop
                omega
              have hrec : authLoop fuel ((rest.drop (i + n)).dropWhile visible) =
                  authLoop fuel' ((rest.drop (i + n)).dropWhile visible) :=
                ih (by omega) (by omega)
              simp only [hrec]

theorem redactAuthSchemes_eq {fuel : Nat} {rest : List Char} (h : rest.length < fuel) :
    authLoop fuel rest = redactAuthSchemes rest := authLoop_fuel h (Nat.lt_succ_self _)

theorem length_dropWhile_drop (cs : List Char) {n : Nat} (hn : 0 < n) (hle : n ≤ cs.length) :
    ((cs.drop n).dropWhile visible).length < cs.length := by
  have hdrop := (List.dropWhile_suffix (l := cs.drop n) visible).length_le
  rw [List.length_drop] at hdrop
  omega

theorem redactAuthSchemes_hit {rest : List Char} {i n : Nat} (h : hit rest = some (i, n)) :
    redactAuthSchemes rest =
      rest.take (i + n) ++ masked ((rest.drop (i + n)).takeWhile visible) ++
        redactAuthSchemes ((rest.drop (i + n)).dropWhile visible) := by
  obtain ⟨hn, hle⟩ := hit_le h
  unfold redactAuthSchemes
  rw [authLoop_succ, h]
  simp only
  rw [redactAuthSchemes_eq (length_dropWhile_drop rest (by omega) hle)]
  rfl

theorem redactAuthSchemes_none {rest : List Char} (h : hit rest = none) :
    redactAuthSchemes rest = rest := by
  unfold redactAuthSchemes
  rw [authLoop_succ, h]

theorem redactAuthSchemes_nil : redactAuthSchemes [] = [] := redactAuthSchemes_none hit_nil

theorem redactAuthSchemes_keyword {cs : List Char} {n : Nat} (h : keywordAt cs = some n) :
    redactAuthSchemes cs =
      cs.take n ++ masked ((cs.drop n).takeWhile visible) ++
        redactAuthSchemes ((cs.drop n).dropWhile visible) := by
  cases cs with
  | nil => exact absurd (keywordAt_le h) (by simp; omega)
  | cons c cs =>
      have hhit : hit (c :: cs) = some (0, n) := by rw [hit_cons, h]
      have hloop := redactAuthSchemes_hit hhit
      rw [Nat.zero_add] at hloop
      exact hloop

-- Without a keyword here the loop goes on with the next character.
theorem redactAuthSchemes_cons {c : Char} {cs : List Char} (h : keywordAt (c :: cs) = none) :
    redactAuthSchemes (c :: cs) = c :: redactAuthSchemes cs := by
  have hhit := hit_cons c cs
  rw [h] at hhit
  cases hnext : hit cs with
  | none =>
      rw [hnext] at hhit
      rw [redactAuthSchemes_none hhit, redactAuthSchemes_none hnext]
  | some p =>
      obtain ⟨i, n⟩ := p
      rw [hnext] at hhit
      have hshift : i + 1 + n = (i + n) + 1 := by omega
      rw [redactAuthSchemes_hit hhit, redactAuthSchemes_hit hnext]
      simp only [hshift, List.take_succ_cons, List.drop_succ_cons, List.cons_append]

end Loop

end VMForge.Cli
