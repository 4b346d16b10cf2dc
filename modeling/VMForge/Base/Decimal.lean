import Mathlib.Data.List.TakeWhile
import Mathlib.Data.String.Basic

namespace VMForge

-- A statement about the characters of a text is decided by looking at these alone.
instance (priority := 2000) decidableForallMem (p : Char → Prop) [DecidablePred p]
    (cs : List Char) : Decidable (∀ c ∈ cs, p c) := List.decidableBAll p cs

theorem isUpper_iff {c : Char} : c.isUpper = true ↔ 65 ≤ c.toNat ∧ c.toNat ≤ 90 := by
  have hupper : c.isUpper = decide (c.val ≥ 'A'.val ∧ c.val ≤ 'Z'.val) := rfl
  rw [hupper, decide_eq_true_eq, ge_iff_le, UInt32.le_iff_toNat_le, UInt32.le_iff_toNat_le]
  rfl

theorem isLower_iff {c : Char} : c.isLower = true ↔ 97 ≤ c.toNat ∧ c.toNat ≤ 122 := by
  have hlower : c.isLower = (decide (c.val ≥ 'a'.val) && decide (c.val ≤ 'z'.val)) := rfl
  rw [hlower, Bool.and_eq_true, decide_eq_true_eq, decide_eq_true_eq, ge_iff_le,
    UInt32.le_iff_toNat_le, UInt32.le_iff_toNat_le]
  rfl

-- The letters and digits of ASCII by their codes.
theorem isAlphanum_iff {c : Char} : c.isAlphanum = true ↔
    (65 ≤ c.toNat ∧ c.toNat ≤ 90 ∨ 97 ≤ c.toNat ∧ c.toNat ≤ 122) ∨
      48 ≤ c.toNat ∧ c.toNat ≤ 57 := by
  have hparts : c.isAlphanum = (c.isUpper || c.isLower || c.isDigit) := rfl
  rw [hparts, Bool.or_eq_true, Bool.or_eq_true, isUpper_iff, isLower_iff, Char.isDigit_iff_toNat]
  rfl

theorem toDigits_inj {m n : Nat} (h : Nat.toDigits 10 m = Nat.toDigits 10 n) : m = n := by
  have hm := Nat.ofDigitChars_ten_toDigits (n := m)
  rw [h, Nat.ofDigitChars_ten_toDigits] at hm
  exact hm.symm

-- Digits behind a number, each a power of ten more.
theorem ofDigitChars_lt {cs : List Char} (h : ∀ c ∈ cs, c.isDigit = true) (init : Nat) :
    Nat.ofDigitChars 10 cs init < (init + 1) * 10 ^ cs.length := by
  induction cs generalizing init with
  | nil => simp
  | cons c cs ih =>
      have hdigit := Char.isDigit_iff_toNat.mp (h c List.mem_cons_self)
      have hzero : '0'.toNat = 48 := rfl
      have hnine : '9'.toNat = 57 := rfl
      have hrest := ih (fun d hd => h d (List.mem_cons_of_mem c hd)) (10 * init + (c.toNat - '0'.toNat))
      rw [Nat.ofDigitChars_cons, List.length_cons, Nat.pow_succ]
      calc
        Nat.ofDigitChars 10 cs (10 * init + (c.toNat - '0'.toNat))
            < (10 * init + (c.toNat - '0'.toNat) + 1) * 10 ^ cs.length := hrest
        _ ≤ (10 * (init + 1)) * 10 ^ cs.length := Nat.mul_le_mul_right _ (by omega)
        _ = (init + 1) * (10 ^ cs.length * 10) := by
          rw [Nat.mul_comm 10, Nat.mul_assoc, Nat.mul_comm 10]

theorem takeWhile_digits (n : Nat) {c : Char} (hc : c.isDigit = false) (rest : List Char) :
    (Nat.toDigits 10 n ++ c :: rest).takeWhile Char.isDigit = Nat.toDigits 10 n := by
  have hall : ∀ d ∈ Nat.toDigits 10 n, d.isDigit = true := fun d hd =>
    Nat.isDigit_of_mem_toDigits (by decide) (by decide) hd
  rw [List.takeWhile_append_of_pos hall]
  simp [hc]

-- A number ends where the digits end.
theorem digits_append_inj {m n : Nat} {c c' : Char} {rest rest' : List Char}
    (hc : c.isDigit = false) (hc' : c'.isDigit = false)
    (h : Nat.toDigits 10 m ++ c :: rest = Nat.toDigits 10 n ++ c' :: rest') :
    m = n ∧ c :: rest = c' :: rest' := by
  have ht := congrArg (List.takeWhile Char.isDigit) h
  rw [takeWhile_digits m hc, takeWhile_digits n hc'] at ht
  obtain rfl := toDigits_inj ht
  exact ⟨rfl, List.append_cancel_left h⟩

end VMForge
