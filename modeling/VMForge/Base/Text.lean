import VMForge.Base.Decimal
import Mathlib.Algebra.GroupWithZero.Nat
import Mathlib.Data.List.Infix

namespace VMForge.Text

-- What Rust's `char::is_whitespace` accepts: the characters with the property White_Space.
def isWhitespace (c : Char) : Bool :=
  (9 ≤ c.toNat && c.toNat ≤ 13) || c.toNat ∈ [0x20, 0x85, 0xA0, 0x1680, 0x2028, 0x2029, 0x202F,
    0x205F, 0x3000] || (0x2000 ≤ c.toNat && c.toNat ≤ 0x200A)

def trimStart (p : Char → Bool) (cs : List Char) : List Char := cs.dropWhile p

def trimEnd (p : Char → Bool) (cs : List Char) : List Char := (cs.reverse.dropWhile p).reverse

-- `trim_matches`
def trimMatches (p : Char → Bool) (cs : List Char) : List Char := trimEnd p (trimStart p cs)

def trim (cs : List Char) : List Char := trimMatches isWhitespace cs

-- `to_ascii_lowercase`
def lower (cs : List Char) : List Char := cs.map Char.toLower

-- The length in UTF-8.
def byteLen (cs : List Char) : Nat := (cs.map Char.utf8Size).sum

-- Where a pattern starts first.
def find (pat : List Char) : List Char → Option Nat
  | [] => if pat = [] then some 0 else none
  | c :: cs => if pat.isPrefixOf (c :: cs) then some 0 else (find pat cs).map (· + 1)

def contains (cs pat : List Char) : Bool := (find pat cs).isSome

-- `replace` of a pattern that is not empty.
def replace (pat new : List Char) : Nat → List Char → List Char
  | 0, cs => cs
  | _ + 1, [] => []
  | fuel + 1, c :: cs =>
      if pat.isPrefixOf (c :: cs) then new ++ replace pat new fuel ((c :: cs).drop pat.length)
      else c :: replace pat new fuel cs

-- `rsplit(p).next()`: what follows the last separator.
def lastPiece (p : Char → Bool) (cs : List Char) : List Char :=
  (cs.reverse.takeWhile fun c => !p c).reverse

-- `str::lines`
def lines (text : List Char) : List (List Char) :=
  let pieces := text.splitOn '\n'
  let ended := pieces.dropLast.map fun line =>
    if line.getLast? = some '\r' then line.dropLast else line
  match pieces.getLast? with
  | none => ended
  | some last => if last = [] then ended else ended ++ [last]

theorem trimEnd_eq_nil {p : Char → Bool} {cs : List Char} :
    trimEnd p cs = [] ↔ ∀ c ∈ cs, p c = true := by
  unfold trimEnd
  rw [List.reverse_eq_nil_iff, List.dropWhile_eq_nil_iff]
  simp only [List.mem_reverse]

-- Only a blank text trims to nothing.
theorem trimMatches_eq_nil {p : Char → Bool} {cs : List Char} :
    trimMatches p cs = [] ↔ ∀ c ∈ cs, p c = true := by
  unfold trimMatches
  rw [trimEnd_eq_nil]
  constructor
  · intro h
    have hhead : cs.dropWhile p = [] := by
      cases hdrop : cs.dropWhile p with
      | nil => rfl
      | cons c rest =>
          have hc : p c = true := h c (by rw [trimStart, hdrop]; exact List.mem_cons_self)
          have hnot := List.head?_dropWhile_not p cs
          rw [hdrop] at hnot
          simp [hc] at hnot
    exact List.dropWhile_eq_nil_iff.mp hhead
  · exact fun h c hc => h c ((List.dropWhile_sublist p).subset hc)

section Trimming

variable {p : Char → Bool} {cs : List Char}

theorem trimEnd_append (p : Char → Bool) (cs : List Char) :
    ∃ back, cs = trimEnd p cs ++ back ∧ ∀ c ∈ back, p c = true := by
  refine ⟨(cs.reverse.takeWhile p).reverse, ?_, ?_⟩
  · unfold trimEnd
    rw [← List.reverse_append, List.takeWhile_append_dropWhile, List.reverse_reverse]
  · intro c hc
    exact List.mem_takeWhile_imp (List.mem_reverse.mp hc)

-- What is trimmed stands in the text between characters that match.
theorem trimMatches_append (p : Char → Bool) (cs : List Char) :
    ∃ front back, cs = front ++ trimMatches p cs ++ back ∧ (∀ c ∈ front, p c = true) ∧
      ∀ c ∈ back, p c = true := by
  obtain ⟨back, hback, hall⟩ := trimEnd_append p (cs.dropWhile p)
  refine ⟨cs.takeWhile p, back, ?_, fun c hc => List.mem_takeWhile_imp hc, hall⟩
  have hrest : cs.dropWhile p = trimMatches p cs ++ back := hback
  calc cs = cs.takeWhile p ++ cs.dropWhile p := List.takeWhile_append_dropWhile.symm
    _ = cs.takeWhile p ++ (trimMatches p cs ++ back) := by rw [hrest]
    _ = cs.takeWhile p ++ trimMatches p cs ++ back := (List.append_assoc ..).symm

theorem trimEnd_concat {front : List Char} {c : Char} (h : trimEnd p cs = front ++ [c]) :
    p c = false := by
  have hhead := List.head?_dropWhile_not p cs.reverse
  have hrev : cs.reverse.dropWhile p = c :: front.reverse := by
    have hr := congrArg List.reverse h
    unfold trimEnd at hr
    rw [List.reverse_reverse, List.reverse_append] at hr
    exact hr
  rw [hrev] at hhead
  simpa using hhead

theorem trimMatches_concat {front : List Char} {c : Char}
    (h : trimMatches p cs = front ++ [c]) : p c = false := trimEnd_concat h

theorem trimMatches_cons {rest : List Char} {c : Char} (h : trimMatches p cs = c :: rest) :
    p c = false := by
  obtain ⟨back, hback, -⟩ := trimEnd_append p (cs.dropWhile p)
  have htrim : trimEnd p (cs.dropWhile p) = c :: rest := h
  rw [htrim, List.cons_append] at hback
  have hhead := List.head?_dropWhile_not p cs
  rw [hback] at hhead
  simpa using hhead

end Trimming

section Lengths

theorem byteLen_cons (c : Char) (cs : List Char) : byteLen (c :: cs) = c.utf8Size + byteLen cs := rfl

theorem byteLen_append (xs ys : List Char) : byteLen (xs ++ ys) = byteLen xs + byteLen ys := by
  unfold byteLen
  rw [List.map_append, List.sum_append]

theorem length_le_byteLen (cs : List Char) : cs.length ≤ byteLen cs := by
  induction cs with
  | nil => exact Nat.le_refl _
  | cons c cs ih =>
      have hc := c.utf8Size_pos
      rw [byteLen_cons, List.length_cons]
      omega

theorem utf8Size_ascii {c : Char} (h : c.toNat < 128) : c.utf8Size = 1 := by
  have hle : c.val ≤ 0x7f := by
    rw [UInt32.le_iff_toNat_le]
    exact Nat.le_of_lt_succ h
  unfold Char.utf8Size
  simp [hle]

theorem byteLen_of_ascii {cs : List Char} (h : ∀ c ∈ cs, c.toNat < 128) :
    byteLen cs = cs.length := by
  induction cs with
  | nil => rfl
  | cons c cs ih =>
      rw [byteLen_cons, utf8Size_ascii (h c List.mem_cons_self), ih fun d hd => h d (List.mem_cons_of_mem _ hd), List.length_cons]
      omega

-- Only letters of ASCII are made lower, and they stay in ASCII.
theorem toLower_cases (c : Char) :
    c.toLower = c ∨ 65 ≤ c.toNat ∧ c.toNat ≤ 90 ∧ c.toLower.toNat = c.toNat + 32 := by
  unfold Char.toLower
  split
  · rename_i hupper
    obtain ⟨hlow, hhigh⟩ := hupper
    rw [ge_iff_le, UInt32.le_iff_toNat_le] at hlow
    rw [UInt32.le_iff_toNat_le] at hhigh
    simp only [Char.reduceVal, UInt32.reduceToNat] at hlow hhigh
    have hval : c.val.toNat = c.toNat := rfl
    right
    refine ⟨hlow, hhigh, ?_⟩
    show (c.val + ('a'.val - 'A'.val)).toNat = c.toNat + 32
    rw [UInt32.toNat_add]
    simp only [Char.reduceVal, UInt32.reduceSub, UInt32.reduceToNat]
    omega
  · exact Or.inl rfl

theorem utf8Size_toLower (c : Char) : c.toLower.utf8Size = c.utf8Size := by
  obtain hsame | ⟨-, hhigh, hcode⟩ := toLower_cases c
  · rw [hsame]
  · rw [utf8Size_ascii (by omega), utf8Size_ascii (by omega)]

theorem byteLen_lower (cs : List Char) : byteLen (lower cs) = byteLen cs := by
  induction cs with
  | nil => rfl
  | cons c cs ih =>
      have hlower : lower (c :: cs) = c.toLower :: lower cs := rfl
      rw [hlower, byteLen_cons, byteLen_cons, ih, utf8Size_toLower]

end Lengths

-- Words with a separator between two of them.
theorem intercalate_append {α : Type} (sep : List α) {xs ys : List (List α)} (hx : xs ≠ [])
    (hy : ys ≠ []) :
    sep.intercalate (xs ++ ys) = sep.intercalate xs ++ sep ++ sep.intercalate ys := by
  induction xs with
  | nil => exact absurd rfl hx
  | cons x xs ih =>
      cases xs with
      | nil =>
          rw [List.singleton_append, List.intercalate_cons_of_ne_nil hy, List.intercalate_singleton]
      | cons x' xs =>
          rw [List.cons_append, List.intercalate_cons_of_ne_nil (by simp),
            List.intercalate_cons_of_ne_nil (by simp), ih (by simp)]
          simp

section Pieces

variable {sep : Char}

-- One piece more than separators.
theorem length_splitOn (sep : Char) (text : List Char) :
    (text.splitOn sep).length = text.count sep + 1 := by
  induction text with
  | nil => rfl
  | cons c text ih =>
      rw [List.splitOn_cons_eq_if_modifyHead]
      split
      · rename_i hc
        rw [beq_iff_eq.mp hc, List.length_cons, ih, List.count_cons_self]
      · rename_i hc
        rw [List.length_modifyHead, ih, List.count_cons_of_ne]
        exact fun heq => hc (beq_iff_eq.mpr heq)

-- Pieces that are joined are cut where they were, and where they have separators themselves.
theorem splitOn_flatMap {pieces : List (List Char)} (hne : pieces ≠ []) :
    ([sep].intercalate pieces).splitOn sep = pieces.flatMap (List.splitOn sep) := by
  induction pieces with
  | nil => exact absurd rfl hne
  | cons piece rest ih =>
      cases rest with
      | nil => rw [List.intercalate_singleton, List.flatMap_cons, List.flatMap_nil, List.append_nil]
      | cons next rest =>
          rw [List.intercalate_cons_of_ne_nil (List.cons_ne_nil next rest), List.append_assoc,
            List.singleton_append, List.splitOn_append_cons_self, ih (List.cons_ne_nil next rest)]
          rfl

-- Where the pieces are known, so is the text.
theorem eq_of_splitOn {text : List Char} {pieces : List (List Char)}
    (h : text.splitOn sep = pieces) : [sep].intercalate pieces = text := by
  rw [← h]
  exact List.intercalate_splitOn sep

theorem notMem_of_splitOn {text piece : List Char} {pieces : List (List Char)}
    (h : text.splitOn sep = pieces) (hpiece : piece ∈ pieces) : sep ∉ piece := by
  induction text generalizing pieces piece with
  | nil =>
      subst h
      rw [List.splitOn_nil, List.mem_singleton] at hpiece
      rw [hpiece]
      exact List.not_mem_nil
  | cons c text ih =>
      subst h
      rw [List.splitOn_cons_eq_if_modifyHead] at hpiece
      split at hpiece
      · obtain rfl | hpiece := List.mem_cons.mp hpiece
        · exact List.not_mem_nil
        · exact ih rfl hpiece
      · rename_i hc
        obtain ⟨first, rest, hsplit⟩ := List.exists_cons_of_ne_nil (List.splitOn_ne_nil sep text)
        rw [hsplit, List.modifyHead_cons] at hpiece
        obtain rfl | hpiece := List.mem_cons.mp hpiece
        · rw [List.mem_cons, not_or]
          refine ⟨fun heq => hc (beq_iff_eq.mpr heq.symm), ih hsplit List.mem_cons_self⟩
        · exact ih hsplit (List.mem_cons_of_mem _ hpiece)

end Pieces

section Infix

variable {α : Type} {run : List α} {c : α}

-- Around a character that a piece does not have, the piece stands behind or before it.
theorem append_around {front back x y : List α} (hc : c ∉ run)
    (h : front ++ c :: back = x ++ (run ++ y)) :
    (∃ x', x = front ++ c :: x' ∧ back = x' ++ (run ++ y)) ∨
      ∃ y', y = y' ++ c :: back ∧ front = x ++ (run ++ y') := by
  obtain ⟨m, hm, hrest⟩ | ⟨m, hm, hrest⟩ := List.append_eq_append_iff.mp h
  · cases m with
    | nil =>
        cases run with
        | nil => exact Or.inr ⟨[], hrest.symm, by simpa using hm.symm⟩
        | cons e run =>
            obtain ⟨rfl, -⟩ := List.cons.inj hrest
            exact absurd List.mem_cons_self hc
    | cons e m =>
        obtain ⟨rfl, hback⟩ := List.cons.inj hrest
        exact Or.inl ⟨m, hm, hback⟩
  · obtain ⟨n, hn, hback⟩ | ⟨n, hn, hback⟩ := List.append_eq_append_iff.mp hrest
    · exact Or.inr ⟨n, hback, by rw [hm, hn]⟩
    · cases n with
      | nil => exact Or.inr ⟨[], hback.symm, by rw [hm, hn, List.append_nil, List.append_nil]⟩
      | cons e n =>
          obtain ⟨rfl, -⟩ := List.cons.inj hback
          exact absurd (by rw [hn]; simp) hc

-- A piece without a character lies on one side of it.
theorem infix_append_cons {xs ys : List α} (hc : c ∉ run) :
    run <:+: xs ++ c :: ys ↔ run <:+: xs ∨ run <:+: ys := by
  constructor
  · rintro ⟨x, y, h⟩
    rw [List.append_assoc] at h
    obtain ⟨x', -, hys⟩ | ⟨y', -, hxs⟩ := append_around hc h.symm
    · exact Or.inr ⟨x', y, by rw [hys, List.append_assoc]⟩
    · exact Or.inl ⟨x, y', by rw [hxs, List.append_assoc]⟩
  · rintro (h | h)
    · exact List.infix_append_of_infix_left h
    · exact List.infix_append_of_infix_right (List.infix_cons h)

theorem infix_intercalate {words : List (List α)} (hne : run ≠ []) (hc : c ∉ run) :
    run <:+: [c].intercalate words ↔ ∃ word ∈ words, run <:+: word := by
  induction words with
  | nil => simp [List.intercalate_nil, hne]
  | cons word rest ih =>
      cases rest with
      | nil => simp [List.intercalate_singleton]
      | cons next rest =>
          rw [List.intercalate_cons_of_ne_nil (List.cons_ne_nil next rest), List.append_assoc,
            List.singleton_append, infix_append_cons hc, ih]
          exact (List.exists_mem_cons_iff _ _ _).symm

end Infix

-- A character other than the separator is in one of the pieces.
theorem mem_intercalate {sep c : Char} {pieces : List (List Char)} (hc : c ≠ sep) :
    c ∈ [sep].intercalate pieces ↔ ∃ piece ∈ pieces, c ∈ piece := by
  have hnot : sep ∉ [c] := by simpa using hc.symm
  rw [← List.singleton_infix_iff, infix_intercalate (List.cons_ne_nil c []) hnot]
  simp only [List.singleton_infix_iff]

theorem mem_splitOn {sep c : Char} {text : List Char} (hc : c ≠ sep) :
    c ∈ text ↔ ∃ piece ∈ text.splitOn sep, c ∈ piece := by
  rw [← mem_intercalate hc, List.intercalate_splitOn]

theorem count_intercalate {sep c : Char} (hc : c ≠ sep) (pieces : List (List Char)) :
    ([sep].intercalate pieces).count c = (pieces.map (List.count c)).sum := by
  induction pieces with
  | nil => rfl
  | cons piece rest ih =>
      cases rest with
      | nil => simp [List.intercalate_singleton]
      | cons next rest =>
          rw [List.intercalate_cons_of_ne_nil (List.cons_ne_nil next rest), List.append_assoc,
            List.singleton_append, List.count_append, List.count_cons_of_ne hc.symm, ih]
          rfl

theorem count_splitOn {sep c : Char} (hc : c ≠ sep) (text : List Char) :
    ((text.splitOn sep).map (List.count c)).sum = text.count c := by
  rw [← count_intercalate hc, List.intercalate_splitOn]

section Replace

variable {a : Char} {pat new : List Char}

theorem replace_of_notMem {cs : List Char} (h : a ∉ cs) (fuel : Nat) :
    replace (a :: pat) new fuel cs = cs := by
  induction fuel generalizing cs with
  | zero => rfl
  | succ fuel ih =>
      cases cs with
      | nil => rfl
      | cons c cs =>
          simp only [List.mem_cons, not_or] at h
          have hne : ¬(a :: pat).isPrefixOf (c :: cs) = true := by
            simp [List.isPrefixOf, h.1]
          rw [replace, if_neg hne, ih h.2]

-- A pattern whose first character is nowhere else is replaced where it stands.
theorem replace_once {front back : List Char} {fuel : Nat} (hfront : a ∉ front)
    (hback : a ∉ back) (hfuel : (front ++ a :: pat ++ back).length ≤ fuel) :
    replace (a :: pat) new fuel (front ++ a :: pat ++ back) = front ++ new ++ back := by
  induction front generalizing fuel with
  | nil =>
      cases fuel with
      | zero => simp at hfuel
      | succ fuel =>
          have hprefix : (a :: pat).isPrefixOf (a :: (pat ++ back)) = true :=
            List.isPrefixOf_iff_prefix.mpr ⟨back, rfl⟩
          simp only [List.nil_append, List.cons_append]
          rw [replace, if_pos hprefix]
          simp only [List.length_cons, List.drop_succ_cons, List.drop_left]
          rw [replace_of_notMem hback]
  | cons c front ih =>
      cases fuel with
      | zero => simp at hfuel
      | succ fuel =>
          simp only [List.mem_cons, not_or] at hfront
          have hne : ¬(a :: pat).isPrefixOf (c :: (front ++ a :: pat ++ back)) = true := by
            simp [List.isPrefixOf, hfront.1]
          have hrest := @ih fuel hfront.2 (by simpa using hfuel)
          simp only [List.cons_append, List.append_assoc] at hne hrest ⊢
          rw [replace, if_neg hne, hrest]

end Replace

end VMForge.Text
