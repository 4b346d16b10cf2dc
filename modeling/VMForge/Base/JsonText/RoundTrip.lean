import VMForge.Base.JsonText

namespace VMForge.JsonText

section Strings

theorem hexValue_hexDigit : ∀ d < 16, hexValue (hexDigit d) = some d := by decide

theorem unhex_hex {n : Nat} (hn : n < 65536) :
    unhex (hexDigit (n / 4096 % 16)) (hexDigit (n / 256 % 16)) (hexDigit (n / 16 % 16))
      (hexDigit (n % 16)) = some n := by
  unfold unhex
  rw [hexValue_hexDigit _ (Nat.mod_lt _ (by decide)), hexValue_hexDigit _ (Nat.mod_lt _ (by decide)),
    hexValue_hexDigit _ (Nat.mod_lt _ (by decide)), hexValue_hexDigit _ (Nat.mod_lt _ (by decide))]
  simp only [Option.some.injEq]
  omega

-- A code point that is written as it is, or behind a backslash.
def Plain (p : Nat) : Prop := p ∈ [8, 9, 10, 12, 13] ∨ 32 ≤ p ∧ p ≤ 126

instance (p : Nat) : Decidable (Plain p) :=
  inferInstanceAs (Decidable (p ∈ [8, 9, 10, 12, 13] ∨ 32 ≤ p ∧ p ≤ 126))

-- What a code point is written as.
def pieces (p : Nat) : List Piece :=
  if Plain p then [.point p]
  else if p < 0x10000 then [.escape p]
  else [.escape (0xD800 + (p - 0x10000) / 1024), .escape (0xDC00 + (p - 0x10000) % 1024)]

-- A `\u` escape is read as the number it stands for.
theorem scanPieces_hex {n : Nat} (hn : n < 65536) (rest : List Nat) :
    scanPieces (points "\\u" ++ hex n ++ rest) =
      (scanPieces rest).map fun (ps, rest) => (.escape n :: ps, rest) := by
  have htext : points "\\u" ++ hex n ++ rest = 92 :: 117 :: (hex n ++ rest) := rfl
  rw [htext]
  simp only [hex, List.cons_append, List.nil_append]
  rw [scanPieces.eq_def]
  simp only [Char.reduceToNat, Nat.reduceEqDiff, if_false, if_true, unhex_hex hn]
  cases scanPieces rest <;> rfl

theorem scanPieces_simple {e n : Nat} (he : unescape e = some n) (hu : e ≠ 'u') (rest : List Nat) :
    scanPieces (92 :: e :: rest) = (scanPieces rest).map fun (ps, rest) => (.point n :: ps, rest) := by
  rw [scanPieces.eq_def]
  simp only [Char.reduceToNat] at hu ⊢
  simp only [Nat.reduceEqDiff, if_false, if_true, if_neg hu, he]
  cases scanPieces rest <;> rfl

theorem scanPieces_escape {p : Nat} (hp : p < 0x110000) (rest : List Nat) :
    scanPieces (escape p ++ rest) = (scanPieces rest).map fun (ps, rest) => (pieces p ++ ps, rest) := by
  by_cases hquote : p = '"'
  · subst hquote
    exact scanPieces_simple rfl (by decide) rest
  by_cases hslash : p = '\\'
  · subst hslash
    exact scanPieces_simple rfl (by decide) rest
  by_cases hn : p = '\n'
  · subst hn
    exact scanPieces_simple rfl (by decide) rest
  by_cases hr : p = '\r'
  · subst hr
    exact scanPieces_simple rfl (by decide) rest
  by_cases ht : p = '\t'
  · subst ht
    exact scanPieces_simple rfl (by decide) rest
  by_cases hf : p = '\x0c'
  · subst hf
    exact scanPieces_simple rfl (by decide) rest
  by_cases hb : p = '\x08'
  · subst hb
    exact scanPieces_simple rfl (by decide) rest
  unfold escape
  rw [if_neg hquote, if_neg hslash, if_neg hn, if_neg hr, if_neg ht, if_neg hf, if_neg hb]
  by_cases hprint : 32 ≤ p ∧ p ≤ 126
  · have hpieces : pieces p = [.point p] := if_pos (Or.inr hprint)
    rw [if_pos hprint, hpieces, List.singleton_append, scanPieces.eq_def]
    simp only [if_neg hquote, if_neg hslash]
    rw [if_neg (by omega)]
    rfl
  · have hplain : ¬Plain p := by
      rintro (hmem | hrange)
      · simp only [Char.reduceToNat] at hn hr ht hf hb
        simp only [List.mem_cons, List.not_mem_nil, or_false] at hmem
        omega
      · exact hprint hrange
    rw [if_neg hprint, pieces, if_neg hplain]
    by_cases hlow : p < 0x10000
    · rw [if_pos hlow, if_pos hlow]
      exact scanPieces_hex hlow rest
    · rw [if_neg hlow, if_neg hlow, List.append_assoc, scanPieces_hex (by omega),
        scanPieces_hex (by omega), Option.map_map]
      cases scanPieces rest <;> rfl

theorem scanPieces_escapes {ps : List Nat} (hps : ∀ p ∈ ps, p < 0x110000) (rest : List Nat) :
    scanPieces (ps.flatMap escape ++ 34 :: rest) = some (ps.flatMap pieces, rest) := by
  induction ps with
  | nil =>
      rw [List.flatMap_nil, List.nil_append, scanPieces.eq_def]
      rfl
  | cons p ps ih =>
      rw [List.flatMap_cons, List.append_assoc, scanPieces_escape (hps p List.mem_cons_self),
        ih fun q hq => hps q (List.mem_cons_of_mem _ hq), List.flatMap_cons]
      rfl

-- An escape that is no first half of a pair is a character of its own.
theorem join_escape {n : Nat} {ps : List Piece}
    (h : ∀ m rest, ps = .escape m :: rest → ¬(isHigh n = true ∧ isLow m = true)) :
    join (.escape n :: ps) = n :: join ps := by
  cases ps with
  | nil => rfl
  | cons q ps =>
      cases q with
      | point p => rfl
      | escape m =>
          have hpair : ¬(isHigh n && isLow m) = true := by
            rw [Bool.and_eq_true]
            exact h m ps rfl
          rw [join, if_neg hpair]

-- What a code point is written as starts with a second half only if it is one.
theorem pieces_head {p m : Nat} {more rest : List Piece} (hp : p < 0x110000)
    (hlow : isLow m = true) (h : pieces p ++ more = .escape m :: rest) : p = m := by
  unfold pieces at h
  split at h
  · cases h
  · split at h
    · cases h
      rfl
    · simp only [List.cons_append, List.cons.injEq, Piece.escape.injEq] at h
      unfold isLow at hlow
      rw [Bool.and_eq_true, decide_eq_true_eq, decide_eq_true_eq] at hlow
      omega

theorem join_pieces {ps : List Nat} (hps : ∀ p ∈ ps, p < 0x110000)
    (hchain : ps.IsChain fun p q => ¬(isHigh p = true ∧ isLow q = true)) :
    join (ps.flatMap pieces) = ps := by
  induction ps with
  | nil => rfl
  | cons p ps ih =>
      have hp := hps p List.mem_cons_self
      have hrest : join (ps.flatMap pieces) = ps :=
        ih (fun q hq => hps q (List.mem_cons_of_mem _ hq)) hchain.tail
      rw [List.flatMap_cons]
      by_cases hplain : Plain p
      · rw [pieces, if_pos hplain, List.singleton_append, join]
        exact congrArg _ hrest
      · rw [pieces, if_neg hplain]
        by_cases hlow : p < 0x10000
        · rw [if_pos hlow, List.singleton_append, join_escape]
          · exact congrArg _ hrest
          · rintro m rest hhead ⟨hfirst, hsecond⟩
            -- the next code point would be the second half
            cases ps with
            | nil => cases hhead
            | cons q ps =>
                rw [List.flatMap_cons] at hhead
                have hqm := pieces_head (hps q (by simp)) hsecond hhead
                subst hqm
                exact (List.isChain_cons_cons.mp hchain).1 ⟨hfirst, hsecond⟩
        · rw [if_neg hlow, List.cons_append, List.singleton_append, join]
          have hhigh : isHigh (0xD800 + (p - 0x10000) / 1024) = true := by
            unfold isHigh
            rw [Bool.and_eq_true, decide_eq_true_eq, decide_eq_true_eq]
            omega
          have hsecond : isLow (0xDC00 + (p - 0x10000) % 1024) = true := by
            unfold isLow
            rw [Bool.and_eq_true, decide_eq_true_eq, decide_eq_true_eq]
            omega
          have hback : 0x10000 + (0xD800 + (p - 0x10000) / 1024 - 0xD800) * 1024 +
              (0xDC00 + (p - 0x10000) % 1024 - 0xDC00) = p := by omega
          rw [hhigh, hsecond, Bool.and_self, if_pos rfl, hback]
          exact congrArg _ hrest

theorem scanString_escapes {s : PyStr} (hs : s.Joined) (rest : List Nat) :
    scanString (s.codes.flatMap escape ++ 34 :: rest) = some (s, rest) := by
  unfold scanString
  rw [scanPieces_escapes hs.1, Option.map_some]
  simp only [join_pieces hs.1 hs.2]

end Strings
section Numbers

theorem isDigit_iff {c : Nat} : isDigit c = true ↔ 48 ≤ c ∧ c ≤ 57 := by
  unfold isDigit
  rw [Bool.and_eq_true, decide_eq_true_eq, decide_eq_true_eq]

-- The digits of a number.
def decimal (n : Nat) : List Nat := (Nat.toDigits 10 n).map Char.toNat

theorem decimal_ne_nil (n : Nat) : decimal n ≠ [] := fun h => Nat.toDigits_ne_nil (List.map_eq_nil_iff.mp h)

theorem isDigit_of_mem_decimal {n c : Nat} (hc : c ∈ decimal n) : isDigit c = true := by
  obtain ⟨d, hd, rfl⟩ := List.mem_map.mp hc
  have hdigit : d.isDigit = true := Nat.isDigit_of_mem_toDigits (by decide) (by decide) hd
  exact isDigit_iff.mpr (Char.isDigit_iff_toNat.mp hdigit)

theorem ofDigitChars_decimal (n : Nat) :
    Nat.ofDigitChars 10 ((decimal n).map Char.ofNat) 0 = n := by
  have hback : ∀ cs : List Char, (cs.map Char.toNat).map Char.ofNat = cs := by
    intro cs
    rw [List.map_map]
    exact List.map_id'' (fun c => Char.ofNat_toNat c) cs
  rw [decimal, hback, Nat.ofDigitChars_ten_toDigits]

theorem takeWhile_digits_of_ends {ds rest : List Nat} (hds : ∀ c ∈ ds, isDigit c = true)
    (hrest : Ends rest) : (ds ++ rest).takeWhile isDigit = ds := by
  rw [List.takeWhile_append_of_pos hds]
  cases rest with
  | nil => simp
  | cons c rest => simp [(hrest c rfl).1]

-- No positive number starts with a zero.
theorem toDigits_head {n : Nat} (hn : 0 < n) : ∃ c cs, Nat.toDigits 10 n = c :: cs ∧ c ≠ '0' := by
  induction n using Nat.strongRecOn with
  | ind n ih =>
      by_cases hsmall : n < 10
      · rw [Nat.toDigits_of_lt_base hsmall]
        refine ⟨_, [], rfl, ?_⟩
        have hall : ∀ d < 10, 0 < d → Nat.digitChar d ≠ '0' := by decide
        exact hall n hsmall hn
      · rw [Nat.toDigits_of_base_le (by decide) (by omega)]
        obtain ⟨c, cs, hcs, hc⟩ := ih (n / 10) (by omega) (by omega)
        exact ⟨c, cs ++ [Nat.digitChar (n % 10)], by rw [hcs]; rfl, hc⟩

theorem scanDigits_decimal (n : Nat) {rest : List Nat} (hrest : Ends rest) :
    scanDigits (decimal n ++ rest) = decimal n := by
  by_cases hn : n = 0
  · subst hn
    rfl
  · obtain ⟨c, cs, hcs, hc⟩ := toDigits_head (Nat.pos_of_ne_zero hn)
    have hdecimal : decimal n = c.toNat :: cs.map Char.toNat := by rw [decimal, hcs, List.map_cons]
    have hzero : c.toNat ≠ '0'.toNat := fun h => hc (Char.toNat_inj.mp h)
    rw [hdecimal, List.cons_append, scanDigits, if_neg hzero, ← List.cons_append, ← hdecimal]
    exact takeWhile_digits_of_ends (fun _ => isDigit_of_mem_decimal) hrest

theorem scanFraction_of_ends {rest : List Nat} (h : Ends rest) : scanFraction rest = [] := by
  cases rest with
  | nil => rfl
  | cons c rest =>
      have hdot : c ≠ '.'.toNat := by
        rintro rfl
        exact (h _ rfl).2 (by decide)
      rw [scanFraction, if_neg hdot]

theorem scanExponent_of_ends {rest : List Nat} (h : Ends rest) : scanExponent rest = [] := by
  unfold scanExponent
  split
  · rename_i e s rest'
    have he := (h e rfl).2
    rw [if_neg]
    rintro (rfl | rfl)
    · exact he (by decide)
    · exact he (by decide)
  · rfl

theorem splitNumber_writeInt (i : Int) {rest : List Nat} (hrest : Ends rest) :
    splitNumber (writeInt i ++ rest) =
      (if i < 0 then [('-' : Nat)] else [], decimal i.natAbs, [], rest) := by
  have hbody : ∀ n : Nat, (decimal n ++ rest).drop (scanDigits (decimal n ++ rest)).length = rest := by
    intro n
    rw [scanDigits_decimal n hrest, List.drop_left]
  cases i with
  | ofNat n =>
      have hwrite : writeInt (.ofNat n) = decimal n := rfl
      have hhead : (decimal n ++ rest).head? ≠ some '-'.toNat := by
        obtain ⟨c, cs, hcs⟩ := List.exists_cons_of_ne_nil (decimal_ne_nil n)
        rw [hcs]
        have hdigit : isDigit c = true :=
          isDigit_of_mem_decimal (n := n) (by rw [hcs]; exact List.mem_cons_self)
        rintro h
        cases h
        cases hdigit
      have hneg : ¬Int.ofNat n < 0 := by simp
      simp only [splitNumber, hwrite, hhead, if_false, List.length_nil, List.drop_zero, hneg]
      rw [hbody, scanFraction_of_ends hrest, List.length_nil, List.drop_zero,
        scanExponent_of_ends hrest, scanDigits_decimal n hrest]
      rfl
  | negSucc n =>
      have hwrite : writeInt (.negSucc n) = '-'.toNat :: decimal (n + 1) := rfl
      have hneg : Int.negSucc n < 0 := Int.negSucc_lt_zero n
      simp only [splitNumber, hwrite, List.cons_append, List.head?_cons, if_true,
        List.length_singleton, List.drop_succ_cons, List.drop_zero, hneg]
      rw [hbody, scanFraction_of_ends hrest, List.length_nil, List.drop_zero,
        scanExponent_of_ends hrest, scanDigits_decimal (n + 1) hrest]
      rfl

end Numbers

variable {φ : Type} (F : Floats φ) {digits : Option Nat}

theorem scanNumber_writeInt {i : Int} (hi : fewDigits digits (Nat.toDigits 10 i.natAbs).length = true)
    {rest : List Nat} (hrest : Ends rest) :
    scanNumber F digits (writeInt i ++ rest) = .ok (.int i, rest) := by
  have hlen : (decimal i.natAbs).length = (Nat.toDigits 10 i.natAbs).length := List.length_map _
  unfold scanNumber
  rw [splitNumber_writeInt i hrest]
  simp only [decimal_ne_nil, if_false, if_true, hlen, hi, ofDigitChars_decimal]
  by_cases hneg : i < 0
  · rw [if_pos hneg, if_neg (List.cons_ne_nil _ _)]
    have hval : -(i.natAbs : Int) = i := by omega
    rw [hval]
  · rw [if_neg hneg, if_pos rfl]
    have hval : (i.natAbs : Int) = i := by omega
    rw [hval]

section Heads

theorem scanDigits_head {cs : List Nat} (h : scanDigits cs ≠ []) :
    ∃ c rest, cs = c :: rest ∧ isDigit c = true := by
  cases cs with
  | nil => exact absurd rfl h
  | cons c rest =>
      refine ⟨c, rest, rfl, ?_⟩
      by_cases hc : c = '0'
      · subst hc
        rfl
      · rw [scanDigits, if_neg hc] at h
        by_contra hdigit
        apply h
        simp [hdigit]

-- A number starts with a digit, or with a sign and a digit.
theorem splitNumber_head {cs sign ds tail rest : List Nat}
    (h : splitNumber cs = (sign, ds, tail, rest)) (hne : ds ≠ []) :
    ∃ c cs', (cs = c :: cs' ∨ cs = '-'.toNat :: c :: cs') ∧ isDigit c = true := by
  simp only [splitNumber, Prod.mk.injEq] at h
  obtain ⟨-, hdigits, -⟩ := h
  rw [← hdigits] at hne
  obtain ⟨c, cs', hcs, hc⟩ := scanDigits_head hne
  refine ⟨c, cs', ?_, hc⟩
  by_cases hneg : cs.head? = some '-'.toNat
  · rw [if_pos hneg] at hcs
    cases cs with
    | nil => cases hneg
    | cons d ds =>
        obtain rfl := Option.some.inj hneg
        exact Or.inr (congrArg _ hcs)
  · rw [if_neg hneg] at hcs
    exact Or.inl hcs

theorem strip_none {word cs : List Nat} {w c : Nat} (hw : word.head? = some w)
    (hc : cs.head? = some c) (hne : w ≠ c) : strip word cs = none := by
  cases word with
  | nil => cases hw
  | cons w' word =>
      cases cs with
      | nil => cases hc
      | cons c' cs =>
          obtain rfl := Option.some.inj hw
          obtain rfl := Option.some.inj hc
          unfold strip
          rw [if_neg]
          simp [hne]

-- No constant starts like a number.
theorem scanConstant_digit {c : Nat} (hc : isDigit c = true) (cs : List Nat) :
    scanConstant F (c :: cs) = none ∧ scanConstant F ('-'.toNat :: c :: cs) = none := by
  have hne : ∀ w : Nat, isDigit w = false → w ≠ c := by
    rintro w hw rfl
    rw [hc] at hw
    cases hw
  have hplain : ∀ word : List Nat, ∀ w, word.head? = some w → isDigit w = false →
      strip word (c :: cs) = none := fun word w hw hd => strip_none hw rfl (hne w hd)
  have hsign : ∀ word : List Nat, ∀ w, word.head? = some w → w ≠ '-'.toNat →
      strip word ('-'.toNat :: c :: cs) = none := fun word w hw hd => strip_none hw rfl hd
  have hminus : strip (points "-Infinity") ('-'.toNat :: c :: cs) = none := by
    have hI := hne 'I'.toNat (by decide)
    have hword : points "-Infinity" = '-'.toNat :: 'I'.toNat :: points "nfinity" := rfl
    unfold strip
    rw [hword, if_neg]
    simp only [List.isPrefixOf_cons_cons, BEq.rfl, Bool.true_and, Bool.and_eq_true, beq_iff_eq]
    exact fun h => hI h.1
  constructor
  · simp only [scanConstant, constants, List.map_cons, List.map_nil, List.cons_append,
      List.nil_append, List.findSome?_cons, List.findSome?_nil]
    rw [hplain (points "null") 'n' rfl (by decide), hplain (points "true") 't' rfl (by decide),
      hplain (points "false") 'f' rfl (by decide), hplain (points "NaN") 'N' rfl (by decide),
      hplain (points "Infinity") 'I' rfl (by decide),
      hplain (points "-Infinity") '-' rfl (by decide)]
    rfl
  · simp only [scanConstant, constants, List.map_cons, List.map_nil, List.cons_append,
      List.nil_append, List.findSome?_cons, List.findSome?_nil]
    rw [hsign (points "null") 'n' rfl (by decide), hsign (points "true") 't' rfl (by decide),
      hsign (points "false") 'f' rfl (by decide), hsign (points "NaN") 'N' rfl (by decide),
      hsign (points "Infinity") 'I' rfl (by decide), hminus]
    rfl

end Heads

-- What is neither a string nor an array nor an object is a constant or a number.
theorem scan_atom {c : Nat} (cs : List Nat) (fuel : Nat) (room : Option Nat)
    (hc : c ∉ points "\"[\x7b") :
    scan F digits (fuel + 1) room (c :: cs) =
      match scanConstant F (c :: cs) with
      | some r => .ok r
      | none => scanNumber F digits (c :: cs) := by
  have hpoints : points "\"[\x7b" = ['"'.toNat, '['.toNat, '{'.toNat] := rfl
  rw [hpoints] at hc
  simp only [List.mem_cons, List.not_mem_nil, or_false, not_or] at hc
  unfold scan
  rw [if_neg hc.1, if_neg hc.2.1]
  exact if_neg hc.2.2

theorem scan_number {cs sign ds tail rest : List Nat} (fuel : Nat) (room : Option Nat)
    (h : splitNumber cs = (sign, ds, tail, rest)) (hne : ds ≠ []) :
    scan F digits (fuel + 1) room cs = scanNumber F digits cs := by
  obtain ⟨c, cs', hcs, hc⟩ := splitNumber_head h hne
  have hdigit : ∀ w : Nat, isDigit w = false → c ≠ w := by
    rintro w hw rfl
    rw [hc] at hw
    cases hw
  obtain ⟨hplain, hsign⟩ := scanConstant_digit F hc cs'
  obtain rfl | rfl := hcs
  · have hatom : c ∉ points "\"[\x7b" := by
      have hpoints : points "\"[\x7b" = [34, 91, 123] := rfl
      rw [hpoints]
      simp [hdigit 34 (by decide), hdigit 91 (by decide), hdigit 123 (by decide)]
    rw [scan_atom F _ _ _ hatom, hplain]
  · rw [scan_atom F _ _ _ (by decide), hsign]

theorem scan_writeInt {i : Int} (hi : fewDigits digits (Nat.toDigits 10 i.natAbs).length = true)
    (fuel : Nat) (room : Option Nat) {rest : List Nat} (hrest : Ends rest) :
    scan F digits (fuel + 1) room (writeInt i ++ rest) = .ok (.int i, rest) := by
  rw [scan_number F fuel room (splitNumber_writeInt i hrest) (decimal_ne_nil _)]
  exact scanNumber_writeInt F hi hrest

theorem scan_write (x : φ) (fuel : Nat) (room : Option Nat) {rest : List Nat} (hrest : Ends rest) :
    scan F digits (fuel + 1) room (F.write x ++ rest) = .ok (.float x, rest) := by
  have hread := F.read_write x
  obtain hconstant | ⟨sign, ds, tail, hwrite, hdigits, htail, hsplit⟩ := F.number x
  · simp only [List.mem_cons, List.not_mem_nil, or_false] at hconstant
    obtain hx | hx | hx := hconstant
    · rw [hx] at hread ⊢
      rw [show points "NaN" ++ rest = 'N'.toNat :: (points "aN" ++ rest) from rfl,
        scan_atom F _ _ _ (by decide)]
      have hconst : scanConstant F ('N'.toNat :: (points "aN" ++ rest)) =
          some (.float (F.read (points "NaN")), rest) := rfl
      rw [hconst, hread]
    · rw [hx] at hread ⊢
      rw [show points "Infinity" ++ rest = 'I'.toNat :: (points "nfinity" ++ rest) from rfl,
        scan_atom F _ _ _ (by decide)]
      have hconst : scanConstant F ('I'.toNat :: (points "nfinity" ++ rest)) =
          some (.float (F.read (points "Infinity")), rest) := rfl
      rw [hconst, hread]
    · rw [hx] at hread ⊢
      rw [show points "-Infinity" ++ rest = '-'.toNat :: (points "Infinity" ++ rest) from rfl,
        scan_atom F _ _ _ (by decide)]
      have hconst : scanConstant F ('-'.toNat :: (points "Infinity" ++ rest)) =
          some (.float (F.read (points "-Infinity")), rest) := rfl
      rw [hconst, hread]
  · rw [scan_number F fuel room (hsplit rest hrest) hdigits]
    unfold scanNumber
    rw [hsplit rest hrest]
    simp only [if_neg hdigits, if_neg htail, ← hwrite, hread]

section Documents

theorem ends_of_head {c : Nat} (rest : List Nat) (hdigit : isDigit c = false)
    (hc : c ∉ points ".eE") : Ends (c :: rest) := by
  intro d hd
  obtain rfl := Option.some.inj hd
  exact ⟨hdigit, hc⟩

theorem ends_nil : Ends [] := fun _ h => nomatch h

-- A document starts with a character that is neither a space nor a closing bracket.
theorem dumps_head (v : Value φ) :
    ∃ c cs, dumps F v = c :: cs ∧ isSpace c = false ∧ c ≠ ']' := by
  have hnumber : ∀ {cs sign ds tail rest : List Nat},
      splitNumber cs = (sign, ds, tail, rest) → ds ≠ [] →
      ∃ c cs', cs = c :: cs' ∧ isSpace c = false ∧ c ≠ ']' := by
    intro cs sign ds tail rest h hne
    obtain ⟨c, cs', hcs, hc⟩ := splitNumber_head h hne
    have hdigit : ∀ w : Nat, isDigit w = false → c ≠ w := by
      rintro w hw rfl
      rw [hc] at hw
      cases hw
    obtain rfl | rfl := hcs
    · refine ⟨c, cs', rfl, ?_, hdigit ']' (by decide)⟩
      simp only [isSpace, Bool.or_eq_false_iff, beq_eq_false_iff_ne]
      exact ⟨⟨⟨hdigit ' ' (by decide), hdigit '\t' (by decide)⟩, hdigit '\n' (by decide)⟩,
        hdigit '\r' (by decide)⟩
    · exact ⟨'-'.toNat, c :: cs', rfl, rfl, by decide⟩
  cases v with
  | null => exact ⟨'n'.toNat, _, rfl, rfl, by decide⟩
  | bool b => cases b <;> exact ⟨_, _, rfl, rfl, by decide⟩
  | int i =>
      have h := splitNumber_writeInt i ends_nil
      rw [List.append_nil] at h
      exact hnumber h (decimal_ne_nil _)
  | float x =>
      rw [dumps]
      obtain hx | ⟨sign, ds, tail, hwrite, hdigits, htail, hsplit⟩ := F.number x
      · simp only [List.mem_cons, List.not_mem_nil, or_false] at hx
        obtain hx | hx | hx := hx <;> rw [hx] <;> exact ⟨_, _, rfl, rfl, by decide⟩
      · have h := hsplit [] ends_nil
        rw [List.append_nil] at h
        exact hnumber h hdigits
  | str s => exact ⟨'"'.toNat, _, by rw [dumps, writeString]; rfl, rfl, by decide⟩
  | arr items => exact ⟨'['.toNat, _, by rw [dumps]; rfl, rfl, by decide⟩
  | obj fields => exact ⟨'{'.toNat, _, by rw [dumps]; rfl, rfl, by decide⟩

theorem dumps_length (v : Value φ) : 0 < (dumps F v).length := by
  obtain ⟨c, cs, h, -⟩ := dumps_head F v
  rw [h]
  exact Nat.succ_pos _

theorem skipSpace_dumps (v : Value φ) (rest : List Nat) :
    skipSpace (dumps F v ++ rest) = dumps F v ++ rest := by
  obtain ⟨c, cs, h, hc, -⟩ := dumps_head F v
  rw [h, List.cons_append, skipSpace, List.dropWhile_cons_of_neg (by simp [hc])]

theorem dumpsItems_head (v : Value φ) (vs : List (Value φ)) :
    ∃ c cs, dumpsItems F (v :: vs) = c :: cs ∧ isSpace c = false ∧ c ≠ ']' := by
  obtain ⟨c, cs, h, hc⟩ := dumps_head F v
  cases vs with
  | nil => exact ⟨c, cs, by rw [dumpsItems, h], hc⟩
  | cons w vs => exact ⟨c, _, by rw [dumpsItems, h, List.cons_append], hc⟩

theorem dumpsFields_head (k : PyStr) (v : Value φ) (fs : List (PyStr × Value φ)) :
    ∃ cs, dumpsFields F ((k, v) :: fs) = '"'.toNat :: cs := by
  cases fs with
  | nil => exact ⟨_, by rw [dumpsFields, writeString]; rfl⟩
  | cons f fs => exact ⟨_, by rw [dumpsFields, writeString]; rfl⟩

theorem put_of_notMem {κ α : Type} [DecidableEq κ] {d : List (κ × α)} {k : κ}
    (hk : k ∉ d.map Prod.fst) (v : α) : put d k v = d ++ [(k, v)] := by
  induction d with
  | nil => rfl
  | cons m d ih =>
      obtain ⟨k', v'⟩ := m
      simp only [List.map_cons, List.mem_cons, not_or] at hk
      rw [put, if_neg (Ne.symm hk.1), ih hk.2]
      rfl

-- Members of distinct names are the dictionary they make.
theorem dict_of_nodup {κ α : Type} [DecidableEq κ] {members : List (κ × α)}
    (h : (members.map Prod.fst).Nodup) : dict members = members := by
  have hall : ∀ d ms : List (κ × α), ((d ++ ms).map Prod.fst).Nodup →
      ms.foldl (fun d m => put d m.1 m.2) d = d ++ ms := by
    intro d ms
    induction ms generalizing d with
    | nil => simp
    | cons m ms ih =>
        intro hnodup
        have hm : m.1 ∉ d.map Prod.fst := by
          rw [List.map_append, List.map_cons] at hnodup
          exact fun hmem => (List.disjoint_of_nodup_append hnodup hmem List.mem_cons_self)
        rw [List.foldl_cons, put_of_notMem hm, ih, List.append_assoc]
        · rfl
        · rw [List.append_assoc]
          exact hnodup
  exact hall [] members h

end Documents

-- A string in front of a text, from its opening quote on.
theorem writeString_append (s : PyStr) (rest : List Nat) :
    writeString s ++ rest = 34 :: (s.codes.flatMap escape ++ 34 :: rest) := by
  have hquote : points "\"" = [34] := rfl
  rw [writeString, hquote, List.append_assoc, List.append_assoc]
  rfl

theorem scan_string {s : PyStr} (hs : s.Joined) (fuel : Nat) (room : Option Nat) (rest : List Nat) :
    scan F digits (fuel + 1) room (writeString s ++ rest) = .ok (.str s, rest) := by
  rw [writeString_append, scan, if_pos (by decide), scanString_escapes hs]

mutual

-- Scanning what `dumps` writes gives the document back, and stops where it ends.
theorem scan_dumps : ∀ (v : Value φ), Proper v → ∀ (fuel : Nat), (dumps F v).length ≤ fuel →
    ∀ (room : Option Nat), fits digits room v = true → ∀ (rest : List Nat), Ends rest →
      scan F digits fuel room (dumps F v ++ rest) = .ok (v, rest)
  | v, _, 0, hfuel, _, _, _, _ => absurd (dumps_length F v) (by omega)
  | .null, _, fuel + 1, _, room, _, rest, _ => by
      rw [dumps, show points "null" ++ rest = 'n'.toNat :: (points "ull" ++ rest) from rfl,
        scan_atom F _ _ _ (by decide)]
      rfl
  | .bool true, _, fuel + 1, _, room, _, rest, _ => by
      rw [dumps, show points "true" ++ rest = 't'.toNat :: (points "rue" ++ rest) from rfl,
        scan_atom F _ _ _ (by decide)]
      rfl
  | .bool false, _, fuel + 1, _, room, _, rest, _ => by
      rw [dumps, show points "false" ++ rest = 'f'.toNat :: (points "alse" ++ rest) from rfl,
        scan_atom F _ _ _ (by decide)]
      rfl
  | .int i, _, fuel + 1, _, room, hfits, rest, hrest => by
      rw [dumps]
      rw [fits] at hfits
      exact scan_writeInt F hfits fuel room hrest
  | .float x, _, fuel + 1, _, room, _, rest, hrest => by
      rw [dumps]
      exact scan_write F x fuel room hrest
  | .str s, hv, fuel + 1, _, room, _, rest, _ => by
      have hs : s.Joined := by
        cases hv with
        | str _ h => exact h
      rw [dumps]
      exact scan_string F hs fuel room rest
  | .arr [], _, fuel + 1, _, room, hfits, rest, _ => by
      have htext : dumps F (.arr []) ++ rest = 91 :: 93 :: rest := rfl
      rw [htext, scan, if_neg (by decide), if_pos (by decide)]
      rw [fits] at hfits
      cases hroom : enter room with
      | none =>
          rw [hroom] at hfits
          cases hfits
      | some room => rfl
  | .arr (v :: vs), hv, fuel + 1, hfuel, room, hfits, rest, _ => by
      obtain ⟨c, cs, hc, hspace, hclose⟩ := dumpsItems_head F v vs
      have hitems : ∀ w ∈ v :: vs, Proper w := by
        cases hv with
        | arr _ h => exact h
      have htext : dumps F (.arr (v :: vs)) ++ rest = 91 :: (dumpsItems F (v :: vs) ++ 93 :: rest) := by
        rw [dumps, show points "[" = [91] from rfl, show points "]" = [93] from rfl,
          List.append_assoc, List.append_assoc]
        rfl
      have hlen : (dumpsItems F (v :: vs)).length + 1 ≤ fuel := by
        rw [dumps, show points "[" = [91] from rfl, show points "]" = [93] from rfl,
          List.length_append, List.length_append, List.length_singleton, List.length_singleton]
          at hfuel
        omega
      have hskip : skipSpace (dumpsItems F (v :: vs) ++ 93 :: rest) =
          dumpsItems F (v :: vs) ++ 93 :: rest := by
        rw [hc, List.cons_append, skipSpace, List.dropWhile_cons_of_neg (by simp [hspace])]
      rw [htext, scan, if_neg (by decide), if_pos (by decide), hskip]
      rw [fits] at hfits
      cases hroom : enter room with
      | none =>
          rw [hroom] at hfits
          cases hfits
      | some room =>
          rw [hroom] at hfits
          have hscan := scanItems_dumps v vs hitems fuel hlen room hfits rest
          rw [hc, List.cons_append] at hscan ⊢
          simp only [if_neg hclose, hscan, Except.map]
  | .obj [], _, fuel + 1, _, room, hfits, rest, _ => by
      have htext : dumps F (.obj []) ++ rest = 123 :: 125 :: rest := rfl
      rw [htext, scan, if_neg (by decide), if_neg (by decide), if_pos (by decide)]
      rw [fits] at hfits
      cases hroom : enter room with
      | none =>
          rw [hroom] at hfits
          cases hfits
      | some room => rfl
  | .obj ((k, v) :: fs), hv, fuel + 1, hfuel, room, hfits, rest, _ => by
      obtain ⟨cs, hcs⟩ := dumpsFields_head F k v fs
      have hfields : ∀ f ∈ (k, v) :: fs, f.1.Joined ∧ Proper f.2 := by
        cases hv with
        | obj _ _ hjoined h => exact fun f hf => ⟨hjoined f hf, h f hf⟩
      have hkeys : (((k, v) :: fs).map Prod.fst).Nodup := by
        cases hv with
        | obj _ h _ _ => exact h
      have htext : dumps F (.obj ((k, v) :: fs)) ++ rest =
          123 :: (dumpsFields F ((k, v) :: fs) ++ 125 :: rest) := by
        rw [dumps, show points "\x7b" = [123] from rfl, show points "\x7d" = [125] from rfl,
          List.append_assoc, List.append_assoc]
        rfl
      have hlen : (dumpsFields F ((k, v) :: fs)).length + 1 ≤ fuel := by
        rw [dumps, show points "\x7b" = [123] from rfl, show points "\x7d" = [125] from rfl,
          List.length_append, List.length_append, List.length_singleton, List.length_singleton]
          at hfuel
        omega
      have hskip : skipSpace (dumpsFields F ((k, v) :: fs) ++ 125 :: rest) =
          dumpsFields F ((k, v) :: fs) ++ 125 :: rest := by
        rw [hcs, List.cons_append, skipSpace, List.dropWhile_cons_of_neg (by decide)]
      rw [htext, scan, if_neg (by decide), if_neg (by decide), if_pos (by decide), hskip]
      rw [fits] at hfits
      cases hroom : enter room with
      | none =>
          rw [hroom] at hfits
          cases hfits
      | some room =>
          rw [hroom] at hfits
          have hscan := scanFields_dumps k v fs hfields fuel hlen room hfits rest
          rw [hcs, List.cons_append] at hscan ⊢
          simp only [hscan, Except.map, dict_of_nodup hkeys]
          rfl

theorem scanItems_dumps : ∀ (v : Value φ) (vs : List (Value φ)), (∀ w ∈ v :: vs, Proper w) →
    ∀ (fuel : Nat), (dumpsItems F (v :: vs)).length + 1 ≤ fuel → ∀ (room : Option Nat),
      fitsItems digits room (v :: vs) = true → ∀ (rest : List Nat),
        scanItems F digits fuel room (dumpsItems F (v :: vs) ++ 93 :: rest) = .ok (v :: vs, rest)
  | _, _, _, 0, hfuel, _, _, _ => absurd hfuel (by omega)
  | v, [], hvs, fuel + 1, hfuel, room, hfits, rest => by
      have hends : Ends (93 :: rest) := ends_of_head rest (by decide) (by decide)
      rw [fitsItems, Bool.and_eq_true] at hfits
      rw [dumpsItems] at hfuel ⊢
      rw [scanItems, scan_dumps v (hvs v List.mem_cons_self) fuel (by omega) room hfits.1 _ hends]
      rfl
  | v, w :: vs, hvs, fuel + 1, hfuel, room, hfits, rest => by
      obtain ⟨c, cs, hc, hspace, -⟩ := dumpsItems_head F w vs
      have hcomma : points ", " = [44, 32] := rfl
      have hends : Ends (44 :: 32 :: (dumpsItems F (w :: vs) ++ 93 :: rest)) :=
        ends_of_head _ (by decide) (by decide)
      have hskip : skipSpace (32 :: (dumpsItems F (w :: vs) ++ 93 :: rest)) =
          dumpsItems F (w :: vs) ++ 93 :: rest := by
        rw [skipSpace, List.dropWhile_cons_of_pos (by decide), hc, List.cons_append,
          List.dropWhile_cons_of_neg (by simp [hspace])]
      rw [fitsItems, Bool.and_eq_true] at hfits
      rw [dumpsItems, hcomma, List.length_append, List.length_append, List.length_cons] at hfuel
      rw [dumpsItems, hcomma, List.append_assoc, List.append_assoc, List.cons_append,
        List.cons_append, List.nil_append, scanItems,
        scan_dumps v (hvs v List.mem_cons_self) fuel (by omega) room hfits.1 _ hends]
      have hnext : skipSpace (44 :: 32 :: (dumpsItems F (w :: vs) ++ 93 :: rest)) =
          44 :: 32 :: (dumpsItems F (w :: vs) ++ 93 :: rest) :=
        List.dropWhile_cons_of_neg (by decide)
      simp only [hnext, Char.reduceToNat, Nat.reduceEqDiff, if_false, if_true, hskip]
      rw [scanItems_dumps w vs (fun x hx => hvs x (List.mem_cons_of_mem _ hx)) fuel (by omega) room
        hfits.2 rest]
      rfl

theorem scanFields_dumps : ∀ (k : PyStr) (v : Value φ) (fs : List (PyStr × Value φ)),
    (∀ f ∈ (k, v) :: fs, f.1.Joined ∧ Proper f.2) → ∀ (fuel : Nat),
      (dumpsFields F ((k, v) :: fs)).length + 1 ≤ fuel → ∀ (room : Option Nat),
      fitsFields digits room ((k, v) :: fs) = true → ∀ (rest : List Nat),
        scanFields F digits fuel room (dumpsFields F ((k, v) :: fs) ++ 125 :: rest) =
          .ok ((k, v) :: fs, rest)
  | _, _, _, _, 0, hfuel, _, _, _ => absurd hfuel (by omega)
  | k, v, [], hfs, fuel + 1, hfuel, room, hfits, rest => by
      obtain ⟨hk, hv⟩ := hfs (k, v) List.mem_cons_self
      have hcolon : points ": " = [58, 32] := rfl
      have hends : Ends (125 :: rest) := ends_of_head rest (by decide) (by decide)
      rw [fitsFields, Bool.and_eq_true] at hfits
      rw [dumpsFields, hcolon, List.length_append, List.length_append, List.length_cons] at hfuel
      rw [dumpsFields, hcolon, List.append_assoc, List.append_assoc, writeString_append, scanFields,
        if_neg (by simp), scanString_escapes hk]
      have hnext : skipSpace ([58, 32] ++ (dumps F v ++ 125 :: rest)) =
          58 :: 32 :: (dumps F v ++ 125 :: rest) := List.dropWhile_cons_of_neg (by decide)
      have hskip : skipSpace (32 :: (dumps F v ++ 125 :: rest)) = dumps F v ++ 125 :: rest := by
        rw [skipSpace, List.dropWhile_cons_of_pos (by decide)]
        exact skipSpace_dumps F v _
      simp only [hnext, Char.reduceToNat, ne_eq, not_true_eq_false, if_false, hskip]
      rw [scan_dumps v hv fuel (by omega) room hfits.1 _ hends]
      rfl
  | k, v, f :: fs, hfs, fuel + 1, hfuel, room, hfits, rest => by
      obtain ⟨k', v'⟩ := f
      obtain ⟨hk, hv⟩ := hfs (k, v) List.mem_cons_self
      obtain ⟨cs, hcs⟩ := dumpsFields_head F k' v' fs
      have hcolon : points ": " = [58, 32] := rfl
      have hcomma : points ", " = [44, 32] := rfl
      have hends : Ends (44 :: 32 :: (dumpsFields F ((k', v') :: fs) ++ 125 :: rest)) :=
        ends_of_head _ (by decide) (by decide)
      rw [fitsFields, Bool.and_eq_true] at hfits
      rw [dumpsFields, hcolon, hcomma] at hfuel
      simp only [List.length_append, List.length_cons] at hfuel
      rw [dumpsFields, hcolon, hcomma]
      simp only [List.append_assoc]
      rw [writeString_append, scanFields, if_neg (by simp), scanString_escapes hk]
      have hnext : ∀ more, skipSpace ([58, 32] ++ (dumps F v ++ more)) =
          58 :: 32 :: (dumps F v ++ more) := fun more => List.dropWhile_cons_of_neg (by decide)
      have hskip : ∀ more, skipSpace (32 :: (dumps F v ++ more)) = dumps F v ++ more := by
        intro more
        rw [skipSpace, List.dropWhile_cons_of_pos (by decide)]
        exact skipSpace_dumps F v _
      have hcommas : skipSpace (44 :: 32 :: (dumpsFields F ((k', v') :: fs) ++ 125 :: rest)) =
          44 :: 32 :: (dumpsFields F ((k', v') :: fs) ++ 125 :: rest) :=
        List.dropWhile_cons_of_neg (by decide)
      have hfields : skipSpace (32 :: (dumpsFields F ((k', v') :: fs) ++ 125 :: rest)) =
          dumpsFields F ((k', v') :: fs) ++ 125 :: rest := by
        rw [skipSpace, List.dropWhile_cons_of_pos (by decide), hcs, List.cons_append,
          List.dropWhile_cons_of_neg (by decide)]
      simp only [hnext, Char.reduceToNat, ne_eq, not_true_eq_false, if_false, hskip]
      rw [List.cons_append, List.cons_append, List.nil_append,
        scan_dumps v hv fuel (by omega) room hfits.1 _ hends]
      simp only [hcommas, Nat.reduceEqDiff, if_false, if_true, hfields]
      rw [scanFields_dumps k' v' fs (fun x hx => hfs x (List.mem_cons_of_mem _ hx)) fuel (by omega)
        room hfits.2 rest]
      rfl

end

-- What `dumps` writes is read back as it was.
theorem loads_dumps {limits : Limits} {v : Value φ} (hv : Proper v)
    (hfits : fits limits.digits limits.readDepth v = true) :
    loads F limits (dumps F v) = .ok v := by
  have hskip := skipSpace_dumps F v []
  have hscan := scan_dumps F v hv ((dumps F v).length + 1) (Nat.le_succ _) limits.readDepth hfits []
    ends_nil
  rw [List.append_nil] at hskip hscan
  unfold loads
  rw [hskip, hscan]
  rfl

section Printable

-- Characters that are neither control characters nor beyond ASCII.
def Printable (cs : List Nat) : Prop := ∀ c ∈ cs, 32 ≤ c ∧ c < 127

instance (cs : List Nat) : Decidable (Printable cs) :=
  inferInstanceAs (Decidable (∀ c ∈ cs, 32 ≤ c ∧ c < 127))

theorem printable_append {cs cs' : List Nat} :
    Printable (cs ++ cs') ↔ Printable cs ∧ Printable cs' := by
  constructor
  · intro h
    exact ⟨fun c hc => h c (List.mem_append_left _ hc), fun c hc => h c (List.mem_append_right _ hc)⟩
  · rintro ⟨h, h'⟩ c hc
    exact (List.mem_append.mp hc).elim (h c) (h' c)

theorem printable_cons {c : Nat} {cs : List Nat} :
    Printable (c :: cs) ↔ (32 ≤ c ∧ c < 127) ∧ Printable cs := by
  simp only [Printable, List.mem_cons, forall_eq_or_imp]

theorem printable_nil : Printable [] := fun _ h => nomatch h

theorem printable_hex (n : Nat) : Printable (hex n) := by
  have hdigit : ∀ d < 16, 32 ≤ hexDigit d ∧ hexDigit d < 127 := by decide
  simp only [hex, printable_cons]
  exact ⟨hdigit _ (Nat.mod_lt _ (by decide)), hdigit _ (Nat.mod_lt _ (by decide)),
    hdigit _ (Nat.mod_lt _ (by decide)), hdigit _ (Nat.mod_lt _ (by decide)), printable_nil⟩

theorem printable_escape (p : Nat) : Printable (escape p) := by
  unfold escape
  repeat' split
  · decide
  · decide
  · decide
  · decide
  · decide
  · decide
  · decide
  · rename_i hprint
    rw [printable_cons]
    exact ⟨⟨hprint.1, by omega⟩, printable_nil⟩
  · rw [printable_append]
    exact ⟨by decide, printable_hex _⟩
  · simp only [printable_append]
    exact ⟨⟨by decide, printable_hex _⟩, by decide, printable_hex _⟩

theorem printable_writeString (s : PyStr) : Printable (writeString s) := by
  simp only [writeString, printable_append]
  refine ⟨by decide, fun c hc => ?_, by decide⟩
  obtain ⟨d, -, hd⟩ := List.mem_flatMap.mp hc
  exact printable_escape d c hd

theorem printable_decimal (n : Nat) : Printable (decimal n) := by
  intro c hc
  have hdigit := isDigit_iff.mp (isDigit_of_mem_decimal hc)
  omega

mutual

theorem printable_dumps : ∀ v : Value φ, Printable (dumps F v)
  | .null => by rw [dumps]; decide
  | .bool true => by rw [dumps]; decide
  | .bool false => by rw [dumps]; decide
  | .int (.ofNat n) => by
      rw [dumps]
      exact printable_decimal n
  | .int (.negSucc n) => by
      rw [dumps, writeInt, printable_cons]
      exact ⟨by decide, printable_decimal (n + 1)⟩
  | .float x => by
      rw [dumps]
      exact fun c hc => ⟨by have := F.printed x c hc; omega, (F.printed x c hc).2⟩
  | .str s => by
      rw [dumps]
      exact printable_writeString s
  | .arr items => by
      simp only [dumps, printable_append]
      exact ⟨by decide, printable_dumpsItems items, by decide⟩
  | .obj fields => by
      simp only [dumps, printable_append]
      exact ⟨by decide, printable_dumpsFields fields, by decide⟩

theorem printable_dumpsItems : ∀ items : List (Value φ), Printable (dumpsItems F items)
  | [] => printable_nil
  | [v] => by
      rw [dumpsItems]
      exact printable_dumps v
  | v :: w :: vs => by
      simp only [dumpsItems, printable_append]
      exact ⟨printable_dumps v, by decide, printable_dumpsItems (w :: vs)⟩

theorem printable_dumpsFields : ∀ fields : List (PyStr × Value φ), Printable (dumpsFields F fields)
  | [] => printable_nil
  | [(k, v)] => by
      simp only [dumpsFields, printable_append]
      exact ⟨printable_writeString k, by decide, printable_dumps v⟩
  | (k, v) :: f :: fs => by
      simp only [dumpsFields, printable_append]
      exact ⟨printable_writeString k, by decide, printable_dumps v, by decide,
        printable_dumpsFields (f :: fs)⟩

end

end Printable

end VMForge.JsonText
