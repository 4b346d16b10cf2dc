import VMForge.Base.Decimal

namespace VMForge

-- A number in digits, with zeros before it up to a width: `{value:0width$}` and `{value:0width$o}`.
def padded (base width value : Nat) : List Char := (Nat.toDigits base value).leftpad width '0'

def isDigitOf (base : Nat) (c : Char) : Bool := '0'.toNat ≤ c.toNat && c.toNat < '0'.toNat + base

section Padded

variable {base : Nat}

theorem isDigitOf_digitChar (hbase : base ≤ 10) {n : Nat} (hn : n < base) :
    isDigitOf base n.digitChar = true := by
  have hcode : n.digitChar.toNat = 48 + n := Nat.toNat_digitChar_of_lt_ten (by omega)
  have hzero : '0'.toNat = 48 := rfl
  unfold isDigitOf
  rw [Bool.and_eq_true, decide_eq_true_eq, decide_eq_true_eq]
  omega

theorem isDigitOf_of_mem_toDigits (hbase : 1 < base) (hten : base ≤ 10) {c : Char} (n : Nat)
    (hc : c ∈ Nat.toDigits base n) : isDigitOf base c = true := by
  induction n using Nat.strongRecOn with
  | ind n ih =>
      rw [Nat.toDigits_eq_if hbase] at hc
      split at hc
      · rename_i hlt
        rw [List.mem_singleton.mp hc]
        exact isDigitOf_digitChar hten hlt
      · rename_i hle
        obtain hc | hc := List.mem_append.mp hc
        · exact ih (n / base) (Nat.div_lt_self (by omega) hbase) hc
        · rw [List.mem_singleton.mp hc]
          exact isDigitOf_digitChar hten (Nat.mod_lt n (by omega))

theorem isDigitOf_of_mem_padded (hbase : 1 < base) (hten : base ≤ 10) {width value : Nat} {c : Char}
    (hc : c ∈ padded base width value) : isDigitOf base c = true := by
  unfold padded List.leftpad at hc
  obtain hc | hc := List.mem_append.mp hc
  · rw [List.eq_of_mem_replicate hc]
    unfold isDigitOf
    rw [Bool.and_eq_true, decide_eq_true_eq, decide_eq_true_eq]
    omega
  · exact isDigitOf_of_mem_toDigits hbase hten value hc

-- The width is only the least one: a number takes more digits where it needs them.
theorem length_padded (width value : Nat) :
    (padded base width value).length = max width (Nat.toDigits base value).length := by
  unfold padded List.leftpad
  rw [List.length_append, List.length_replicate]
  omega

theorem length_padded_iff (hbase : 1 < base) {width value : Nat} (hwidth : 0 < width) :
    (padded base width value).length = width ↔ value < base ^ width := by
  rw [length_padded, ← Nat.length_toDigits_le_iff hbase hwidth]
  omega

theorem ofDigitChars_padded (hbase : 1 < base) (hten : base ≤ 10) (width value : Nat) :
    Nat.ofDigitChars base (padded base width value) 0 = value := by
  unfold padded List.leftpad
  rw [Nat.ofDigitChars_append, Nat.ofDigitChars_replicate_zero, Nat.mul_zero]
  exact Nat.ofDigitChars_toDigits hbase hten

theorem padded_ne_nil (width value : Nat) : padded base width value ≠ [] := by
  unfold padded List.leftpad
  intro h
  exact Nat.toDigits_ne_nil (List.append_eq_nil_iff.mp h).2

theorem isDigitOf_code {c : Char} (h : isDigitOf base c = true) :
    48 ≤ c.toNat ∧ c.toNat < 48 + base := by
  unfold isDigitOf at h
  rw [Bool.and_eq_true, decide_eq_true_eq, decide_eq_true_eq] at h
  exact h

end Padded

end VMForge
