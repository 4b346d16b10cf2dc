import VMForge.Base.TextLines
import VMForge.Cli.Redact

namespace VMForge.Cli

open Text

def begins (line : List Char) : Bool := "-----BEGIN".toList.isPrefixOf (trim line)

def ends (line : List Char) : Bool := "-----END".toList.isPrefixOf (trim line)

-- Whether a block is still open behind some lines.
def pemAfter (inPem : Bool) (ls : List (List Char)) : Bool :=
  ls.foldl (fun inside line => if inside = true then !ends line else begins line) inPem

section Blocks

variable {inPem : Bool} {ls pre mid post : List (List Char)}

theorem redactLines_append (inPem : Bool) (xs ys : List (List Char)) :
    redactLines inPem (xs ++ ys) = redactLines inPem xs ++ redactLines (pemAfter inPem xs) ys := by
  induction xs generalizing inPem with
  | nil => cases inPem <;> rfl
  | cons x xs ih =>
      cases inPem with
      | true => exact congrArg (none :: ·) (ih _)
      | false =>
          by_cases hbegin : begins x = true
          · have hafter : pemAfter false (x :: xs) = pemAfter true xs := by
              simp [pemAfter, hbegin]
            simp only [begins] at hbegin
            rw [List.cons_append, redactLines, redactLines, if_pos hbegin, if_pos hbegin, ih, hafter]
            rfl
          · have hafter : pemAfter false (x :: xs) = pemAfter false xs := by
              simp [pemAfter, hbegin]
            simp only [begins] at hbegin
            rw [List.cons_append, redactLines, redactLines, if_neg hbegin, if_neg hbegin, ih, hafter]
            rfl

theorem length_redactLines (inPem : Bool) (ls : List (List Char)) :
    (redactLines inPem ls).length = ls.length := by
  induction ls generalizing inPem with
  | nil => cases inPem <;> rfl
  | cons line ls ih =>
      cases inPem with
      | true => exact congrArg (· + 1) (ih _)
      | false =>
          rw [redactLines]
          split <;> exact congrArg (· + 1) (ih _)

-- Inside of a block nothing is put out, and only the end marker closes it.
theorem redactLines_inside (h : ∀ line ∈ ls, ends line = false) :
    redactLines true ls = List.replicate ls.length none ∧ pemAfter true ls = true := by
  induction ls with
  | nil => exact ⟨rfl, rfl⟩
  | cons line ls ih =>
      obtain ⟨hout, hafter⟩ := ih fun l hl => h l (List.mem_cons_of_mem _ hl)
      have hline := h line List.mem_cons_self
      constructor
      · simp only [ends] at hline
        rw [redactLines, hline, Bool.not_false, hout]
        rfl
      · unfold pemAfter
        rw [List.foldl_cons, if_pos rfl, hline]
        exact hafter

-- Outside of one every line leaves something.
theorem redactLines_outside {line : List Char} :
    ∃ out rest, redactLines false (line :: ls) = some out :: rest := by
  rw [redactLines]
  split
  · exact ⟨_, _, rfl⟩
  · exact ⟨_, _, rfl⟩

-- No line has both markers.
theorem begins_not_ends {line : List Char} (h : begins line = true) : ends line = false := by
  obtain ⟨rest, hrest⟩ := List.isPrefixOf_iff_prefix.mp h
  unfold ends
  rw [← hrest]
  rfl

theorem pemAfter_begins {line : List Char} (h : begins line = true) (inPem : Bool)
    (xs : List (List Char)) : pemAfter inPem (xs ++ [line]) = true := by
  unfold pemAfter
  rw [List.foldl_append, List.foldl_cons, List.foldl_nil]
  split
  · rw [begins_not_ends h]
    rfl
  · exact h

-- The lines of a block, counted from the end of a text of which only the last lines are there: all
-- of them are dropped if none is there, or if what is before them has left a block open.
theorem inside_dropped {n r : Nat} (hpost : post.length ≤ r)
    (hr : post.length < r → pre = [] ∧ mid = []) (hmid : mid.length ≤ n)
    (hn : pre ≠ [] → mid.length = n) (hends : pre ≠ [] → ∀ line ∈ mid, ends line = false) :
    (∀ out ∈ ((redactLines false (pre ++ mid ++ post)).reverse.drop r).take n, out = none) ↔
      mid = [] ∨ pemAfter false pre = true := by
  by_cases hlt : post.length < r
  · obtain ⟨rfl, rfl⟩ := hr hlt
    have hnone : (redactLines false ([] ++ [] ++ post)).reverse.drop r = [] := by
      rw [List.drop_eq_nil_iff, List.length_reverse, length_redactLines]
      exact hpost
    rw [hnone, List.take_nil]
    exact ⟨fun _ => Or.inl rfl, fun _ out hout => absurd hout List.not_mem_nil⟩
  · have hlen : r = ((redactLines (pemAfter false (pre ++ mid)) post).reverse).length := by
      rw [List.length_reverse, length_redactLines]
      omega
    have hslice : ((redactLines false (pre ++ mid ++ post)).reverse.drop r).take n =
        (redactLines (pemAfter false pre) mid).reverse := by
      rw [redactLines_append, redactLines_append, List.reverse_append, List.reverse_append, hlen,
        List.drop_left]
      by_cases hpre : pre = []
      · subst hpre
        have hnil : redactLines false [] = [] := rfl
        rw [hnil, List.reverse_nil, List.append_nil]
        apply List.take_of_length_le
        rw [List.length_reverse, length_redactLines]
        exact hmid
      · have hsize : n = (redactLines (pemAfter false pre) mid).reverse.length := by
          rw [List.length_reverse, length_redactLines, hn hpre]
        rw [hsize, List.take_left]
    rw [hslice]
    simp only [List.mem_reverse]
    cases hin : pemAfter false pre with
    | true =>
        have hpre : pre ≠ [] := by
          rintro rfl
          cases hin
        rw [(redactLines_inside (hends hpre)).1]
        exact ⟨fun _ => Or.inr rfl, fun _ out hout => List.eq_of_mem_replicate hout⟩
    | false =>
        cases mid with
        | nil => exact ⟨fun _ => Or.inl rfl, fun _ out hout => absurd hout List.not_mem_nil⟩
        | cons line mid =>
            obtain ⟨out, rest, hout⟩ := @redactLines_outside mid line
            rw [hout]
            refine ⟨fun h => ?_, ?_⟩
            · cases h (some out) List.mem_cons_self
            · rintro (h | h)
              · cases h
              · cases h

end Blocks

end VMForge.Cli
