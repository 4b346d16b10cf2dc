import VMForge.Base.Text

namespace VMForge.Text

-- A text cut at a byte. No cut is made beyond its end, or within a character.
def splitAtByte : Nat → List Char → Option (List Char × List Char)
  | 0, cs => some ([], cs)
  | _ + 1, [] => none
  | i + 1, c :: cs =>
      if c.utf8Size ≤ i + 1 then
        (splitAtByte (i + 1 - c.utf8Size) cs).map fun p => (c :: p.1, p.2)
      else none

-- `&s[..i]` and `&s[i..]`. None is a panic.
def sliceTo (i : Nat) (cs : List Char) : Option (List Char) := (splitAtByte i cs).map Prod.fst

def sliceFrom (i : Nat) (cs : List Char) : Option (List Char) := (splitAtByte i cs).map Prod.snd

-- `char_indices`, from a byte on.
def charIndices : Nat → List Char → List (Nat × Char)
  | _, [] => []
  | i, c :: cs => (i, c) :: charIndices (i + c.utf8Size) cs

-- The byte at which a pattern starts first.
def findByte (pat : List Char) : List Char → Option Nat
  | [] => if pat = [] then some 0 else none
  | c :: cs => if pat.isPrefixOf (c :: cs) then some 0 else (findByte pat cs).map (· + c.utf8Size)

-- The byte at which the first character of a kind starts.
def findCharByte (p : Char → Bool) (cs : List Char) : Option Nat :=
  ((charIndices 0 cs).find? fun q => p q.2).map Prod.fst

section Slices

-- Where a prefix ends a text can be cut, and nowhere else.
theorem splitAtByte_iff {i : Nat} {cs front back : List Char} :
    splitAtByte i cs = some (front, back) ↔ cs = front ++ back ∧ byteLen front = i := by
  induction cs generalizing i front back with
  | nil =>
      cases i with
      | zero =>
          constructor
          · intro h
            cases h
            exact ⟨rfl, rfl⟩
          · rintro ⟨hsplit, -⟩
            obtain ⟨rfl, rfl⟩ := List.append_eq_nil_iff.mp hsplit.symm
            rfl
      | succ i =>
          constructor
          · intro h
            cases h
          · rintro ⟨hsplit, hlen⟩
            obtain ⟨rfl, rfl⟩ := List.append_eq_nil_iff.mp hsplit.symm
            cases hlen
  | cons c cs ih =>
      have hpos := c.utf8Size_pos
      cases i with
      | zero =>
          constructor
          · intro h
            cases h
            exact ⟨rfl, rfl⟩
          · rintro ⟨hsplit, hlen⟩
            cases front with
            | nil =>
                subst hsplit
                rfl
            | cons d front =>
                have hd := d.utf8Size_pos
                rw [byteLen_cons] at hlen
                omega
      | succ i =>
          have hstep : splitAtByte (i + 1) (c :: cs) = if c.utf8Size ≤ i + 1 then
              (splitAtByte (i + 1 - c.utf8Size) cs).map fun p => (c :: p.1, p.2) else none := rfl
          rw [hstep]
          constructor
          · intro h
            split at h
            · obtain ⟨⟨front', back'⟩, hrest, heq⟩ := Option.map_eq_some_iff.mp h
              obtain ⟨rfl, hlen⟩ := ih.mp hrest
              cases heq
              refine ⟨rfl, ?_⟩
              rw [byteLen_cons, hlen]
              omega
            · cases h
          · rintro ⟨hsplit, hlen⟩
            cases front with
            | nil => cases hlen
            | cons d front =>
                obtain ⟨rfl, rfl⟩ := List.cons.inj hsplit
                rw [byteLen_cons] at hlen
                rw [if_pos (by omega), ih.mpr ⟨rfl, by omega⟩]
                rfl

theorem sliceTo_append (front back : List Char) : sliceTo (byteLen front) (front ++ back) = some front := by
  unfold sliceTo
  rw [splitAtByte_iff.mpr ⟨rfl, rfl⟩]
  rfl

theorem sliceFrom_append (front back : List Char) : sliceFrom (byteLen front) (front ++ back) = some back := by
  unfold sliceFrom
  rw [splitAtByte_iff.mpr ⟨rfl, rfl⟩]
  rfl

end Slices

section Finding

-- The first character of a kind starts where those before it end.
theorem find_charIndices (p : Char → Bool) (i : Nat) (cs : List Char) :
    (charIndices i cs).find? (fun q => p q.2) =
      (cs.dropWhile fun c => !p c).head?.map fun c => (i + byteLen (cs.takeWhile fun c => !p c), c) := by
  induction cs generalizing i with
  | nil => rfl
  | cons c cs ih =>
      have hstep : charIndices i (c :: cs) = (i, c) :: charIndices (i + c.utf8Size) cs := rfl
      rw [hstep]
      by_cases hc : p c = true
      · rw [List.dropWhile_cons_of_neg (by simp [hc]), List.takeWhile_cons_of_neg (by simp [hc])]
        simp only [List.find?_cons, hc]
        rfl
      · rw [List.dropWhile_cons_of_pos (by simp [hc]), List.takeWhile_cons_of_pos (by simp [hc])]
        simp only [List.find?_cons, hc, ih, byteLen_cons, Nat.add_assoc]

theorem findByte_eq (pat cs : List Char) :
    findByte pat cs = (find pat cs).map fun i => byteLen (cs.take i) := by
  induction cs with
  | nil =>
      unfold findByte find
      split
      · rfl
      · rfl
  | cons c cs ih =>
      have hstep : findByte pat (c :: cs) =
          if pat.isPrefixOf (c :: cs) then some 0 else (findByte pat cs).map (· + c.utf8Size) := rfl
      have hfind : find pat (c :: cs) =
          if pat.isPrefixOf (c :: cs) then some 0 else (find pat cs).map (· + 1) := rfl
      rw [hstep, hfind, ih]
      split
      · rfl
      · cases find pat cs with
        | none => rfl
        | some i =>
            simp only [Option.map_some, List.take_succ_cons, byteLen_cons]
            rw [Nat.add_comm]

-- A longer prefix takes more bytes.
theorem byteLen_take_lt {cs : List Char} {i j : Nat} (hij : i < j) (hj : j ≤ cs.length) :
    byteLen (cs.take i) < byteLen (cs.take j) := by
  have hsplit : cs.take j = cs.take i ++ (cs.take j).drop i := by
    rw [List.drop_take, ← List.take_add, Nat.add_sub_cancel' (Nat.le_of_lt hij)]
  have hlen := length_le_byteLen ((cs.take j).drop i)
  rw [List.length_drop, List.length_take] at hlen
  rw [hsplit, byteLen_append]
  omega

end Finding

end VMForge.Text
