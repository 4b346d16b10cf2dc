import VMForge.Base.Text

namespace VMForge.IpText

open Text

-- The texts that the standard library reads as IP addresses.
def isOctet (text : List Char) : Bool :=
  text ≠ [] && text.length ≤ 3 && text.all Char.isDigit &&
    (text.length = 1 || text.head? ≠ some '0') && Nat.ofDigitChars 10 text 0 < 256

def isIpv4 (text : List Char) : Bool :=
  match text.splitOn '.' with
  | [a, b, c, d] => isOctet a && isOctet b && isOctet c && isOctet d
  | _ => false

def isHexDigit (c : Char) : Bool :=
  c.isDigit || ('a' ≤ c && c ≤ 'f') || ('A' ≤ c && c ≤ 'F')

def isGroup (text : List Char) : Bool :=
  text ≠ [] && text.length ≤ 4 && text.all isHexDigit

-- How many groups of 16 bits some pieces stand for; an IPv4 address at their end stands for two.
def groups (embeds : Bool) : List (List Char) → Option Nat
  | [] => some 0
  | [piece] =>
      if isGroup piece = true then some 1
      else if (embeds && isIpv4 piece) = true then some 2
      else none
  | piece :: rest => if isGroup piece = true then (groups embeds rest).map (· + 1) else none

def side (embeds : Bool) (text : List Char) : Option Nat :=
  if text = [] then some 0 else groups embeds (text.splitOn ':')

-- Whether `::` stands at a place of a text for what is missing to eight groups.
def elides (text : List Char) (i : Nat) : Bool :=
  "::".toList.isPrefixOf (text.drop i) &&
    match side false (text.take i), side true (text.drop (i + 2)) with
    | some m, some n => m + n ≤ 7
    | _, _ => false

def isIpv6 (text : List Char) : Bool :=
  side true text == some 8 || (List.range text.length).any (elides text)

def isIpAddr (text : List Char) : Bool := isIpv4 text || isIpv6 text

theorem notMem_octet {text : List Char} (h : isOctet text = true) {c : Char}
    (hc : c.isDigit = false) : c ∉ text := by
  simp only [isOctet, Bool.and_eq_true, List.all_eq_true] at h
  intro hmem
  rw [h.1.1.2 c hmem] at hc
  cases hc

-- An IPv4 address has digits and dots.
theorem notMem_ipv4 {text : List Char} (h : isIpv4 text = true) {c : Char}
    (hc : c.isDigit = false) (hdot : c ≠ '.') : c ∉ text := by
  intro hmem
  obtain ⟨piece, hpiece, hin⟩ := (mem_splitOn hdot).mp hmem
  unfold isIpv4 at h
  split at h
  · rename_i w x y z hsplit
    rw [hsplit] at hpiece
    simp only [Bool.and_eq_true] at h
    have hoctet : isOctet piece = true := by
      simp only [List.mem_cons, List.not_mem_nil, or_false] at hpiece
      obtain rfl | rfl | rfl | rfl := hpiece
      · exact h.1.1.1
      · exact h.1.1.2
      · exact h.1.2
      · exact h.2
    exact notMem_octet hoctet hc hin
  · cases h

theorem groups_le {embeds : Bool} {pieces : List (List Char)} {n : Nat}
    (h : groups embeds pieces = some n) : n ≤ pieces.length + 1 := by
  induction pieces generalizing n with
  | nil =>
      cases h
      exact Nat.zero_le _
  | cons piece rest ih =>
      cases rest with
      | nil =>
          unfold groups at h
          split at h
          · cases h
            simp
          · split at h
            · cases h
              simp
            · cases h
      | cons next rest =>
          unfold groups at h
          split at h
          · obtain ⟨m, hm, rfl⟩ := Option.map_eq_some_iff.mp h
            have hle := ih hm
            rw [List.length_cons]
            omega
          · cases h

-- An IPv6 address has two colons at least.
theorem colons_ipv6 {text : List Char} (h : isIpv6 text = true) : 2 ≤ text.count ':' := by
  unfold isIpv6 at h
  rw [Bool.or_eq_true, beq_iff_eq, List.any_eq_true] at h
  obtain h | ⟨i, -, h⟩ := h
  · unfold side at h
    split at h
    · cases h
    · have hle := groups_le h
      rw [length_splitOn] at hle
      omega
  · unfold elides at h
    rw [Bool.and_eq_true] at h
    obtain ⟨rest, hrest⟩ := List.isPrefixOf_iff_prefix.mp h.1
    have htext : text = text.take i ++ ("::".toList ++ rest) := by
      rw [hrest, List.take_append_drop]
    have hcolons : "::".toList.count ':' = 2 := by decide
    rw [htext, List.count_append, List.count_append, hcolons]
    omega

theorem not_ipv6 {text : List Char} (h : ':' ∉ text) : isIpv6 text = false := by
  rw [Bool.eq_false_iff]
  intro hsix
  have hcolons := colons_ipv6 hsix
  rw [List.count_eq_zero_of_not_mem h] at hcolons
  omega

-- Without a colon it is an IPv4 address.
theorem isIpAddr_of_notMem {text : List Char} (h : ':' ∉ text) : isIpAddr text = isIpv4 text := by
  rw [isIpAddr, not_ipv6 h, Bool.or_false]

example : isIpv6 "fe80::1:127.0.0.1".toList = true ∧ isIpv6 "1::2::3".toList = false := by
  decide

end VMForge.IpText
