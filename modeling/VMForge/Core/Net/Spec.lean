import VMForge.Base.IpText
import VMForge.Core.Forwards

namespace VMForge.Core

open Text IpText

deriving instance DecidableEq for PortForward

namespace PortForward

def parseProto (text : List Char) : Option Proto :=
  if text = "tcp".toList then some .tcp else if text = "udp".toList then some .udp else none

-- `s.parse::<u16>()`, which reads a plus sign before the digits.
def parseU16 : List Char → Option Nat
  | '+' :: digits => Qemu.parseNumber 65536 digits
  | text => Qemu.parseNumber 65536 text

def parsePort (text : List Char) : Option Nat := (parseU16 text).filter (· ≠ 0)

-- The address and the ports, after the dispatch on the number of pieces.
def build (proto : Proto) (hostIp : Option (List Char)) (hostPort guestPort : List Char) :
    Option PortForward :=
  if hostIp.all isIpAddr = true then
    match parsePort hostPort, parsePort guestPort with
    | some hp, some gp => some ⟨proto, hostIp.map String.ofList, hp.toUInt16, gp.toUInt16⟩
    | _, _ => none
  else none

def parsePieces (spec : List Char) : Option PortForward :=
  match spec.splitOn ':' with
  | [hp, gp] => build .tcp none hp gp
  | [proto, hp, gp] => (parseProto proto).bind fun proto => build proto none hp gp
  | [proto, ip, hp, gp] => (parseProto proto).bind fun proto => build proto (some ip) hp gp
  | _ => none

-- Every failure has the same error.
def parse (spec : String) : Except HvError PortForward :=
  match parsePieces spec.toList with
  | some fwd => .ok fwd
  | none => .error (.engine
      s!"invalid forward spec '{spec}' (expected [tcp|udp:][HOSTIP:]HOSTPORT:GUESTPORT)")

end PortForward

-- `[tcp|udp:][HOSTIP:]HOSTPORT:GUESTPORT`, as it is documented.
structure Spec where
  proto : Option Proto
  hostIp : Option (List Char)
  hostPort : List Char
  guestPort : List Char

-- Decimal digits for a number from 1 to 65535.
def IsPort (text : List Char) : Prop :=
  text ≠ [] ∧ (∀ c ∈ text, c.isDigit = true) ∧
    0 < Nat.ofDigitChars 10 text 0 ∧ Nat.ofDigitChars 10 text 0 < 65536

instance (text : List Char) : Decidable (IsPort text) := inferInstanceAs (Decidable (_ ∧ _))

namespace Spec

def parts (s : Spec) : List (List Char) :=
  (s.proto.map fun p => p.asStr.toList).toList ++ s.hostIp.toList ++ [s.hostPort, s.guestPort]

def text (s : Spec) : List Char := [':'].intercalate s.parts

structure Documented (s : Spec) : Prop where
  address : ∀ ip ∈ s.hostIp, isIpAddr ip = true
  host : IsPort s.hostPort
  guest : IsPort s.guestPort

def forward (s : Spec) : PortForward where
  proto := s.proto.getD .tcp
  hostIp := s.hostIp.map String.ofList
  hostPort := (Nat.ofDigitChars 10 s.hostPort 0).toUInt16
  guestPort := (Nat.ofDigitChars 10 s.guestPort 0).toUInt16

end Spec

-- A spec of the documented grammar, and the rule it stands for.
def Matches (spec : String) (fwd : PortForward) : Prop :=
  ∃ s : Spec, s.Documented ∧ s.text = spec.toList ∧ s.forward = fwd

-- A port with a plus sign.
def IsSigned (text : List Char) : Prop := ∃ digits, text = '+' :: digits ∧ IsPort digits

namespace Spec

-- The host address has a form that the dispatch on the number of pieces can tell.
def Placed (s : Spec) : Prop := ∀ ip ∈ s.hostIp, isIpv4 ip = true ∧ s.proto ≠ none

-- A documented spec that is turned down: a host address without a protocol, or with colons in it.
def Refused (s : Spec) : Prop :=
  s.Documented ∧ ∃ ip ∈ s.hostIp, s.proto = none ∨ isIpv4 ip = false

-- A spec with a plus sign before a port that is let through.
def Signed (s : Spec) : Prop :=
  s.Placed ∧ (IsPort s.hostPort ∧ IsSigned s.guestPort ∨
    IsSigned s.hostPort ∧ (IsPort s.guestPort ∨ IsSigned s.guestPort))

end Spec

section Ports

theorem parseNumber_eq_some {limit n : Nat} {text : List Char} :
    Qemu.parseNumber limit text = some n ↔
      text ≠ [] ∧ (∀ c ∈ text, c.isDigit = true) ∧ n < limit ∧ Nat.ofDigitChars 10 text 0 = n := by
  unfold Qemu.parseNumber
  simp only [List.all_eq_true]
  split
  · rename_i h
    rw [Option.some_inj]
    constructor
    · rintro rfl
      exact ⟨h.1, h.2.1, h.2.2, rfl⟩
    · exact fun h' => h'.2.2.2
  · rename_i h
    constructor
    · intro hnone
      cases hnone
    · rintro ⟨hne, hdigits, hlt, rfl⟩
      exact absurd ⟨hne, hdigits, hlt⟩ h

theorem IsPort.notMem {text : List Char} (h : IsPort text) {c : Char} (hc : c.isDigit = false) :
    c ∉ text := by
  intro hmem
  rw [h.2.1 c hmem] at hc
  cases hc

theorem IsSigned.notMem {text : List Char} (h : IsSigned text) {c : Char} (hc : c.isDigit = false)
    (hplus : c ≠ '+') : c ∉ text := by
  obtain ⟨digits, rfl, hdigits⟩ := h
  rw [List.mem_cons, not_or]
  exact ⟨hplus, hdigits.notMem hc⟩

theorem IsSigned.not_port {text : List Char} (h : IsSigned text) : ¬IsPort text := by
  obtain ⟨digits, rfl, -⟩ := h
  exact fun hport => hport.notMem (by decide) List.mem_cons_self

theorem parsePort_eq_some {text : List Char} {n : Nat} : PortForward.parsePort text = some n ↔
    (IsPort text ∧ Nat.ofDigitChars 10 text 0 = n) ∨
      ∃ digits, text = '+' :: digits ∧ IsPort digits ∧ Nat.ofDigitChars 10 digits 0 = n := by
  have hport : ∀ digits, ((Qemu.parseNumber 65536 digits).filter (· ≠ 0)) = some n ↔
      IsPort digits ∧ Nat.ofDigitChars 10 digits 0 = n := by
    intro digits
    rw [Option.filter_eq_some_iff, parseNumber_eq_some, decide_eq_true_eq]
    constructor
    · rintro ⟨⟨hne, hdigits, hlt, rfl⟩, hpos⟩
      exact ⟨⟨hne, hdigits, Nat.pos_of_ne_zero hpos, hlt⟩, rfl⟩
    · rintro ⟨⟨hne, hdigits, hpos, hlt⟩, rfl⟩
      exact ⟨⟨hne, hdigits, hlt, rfl⟩, Nat.pos_iff_ne_zero.mp hpos⟩
  unfold PortForward.parsePort PortForward.parseU16
  split
  · rename_i digits
    rw [hport]
    constructor
    · exact fun h => Or.inr ⟨digits, rfl, h⟩
    · rintro (h | ⟨digits', heq, h⟩)
      · exact absurd List.mem_cons_self (h.1.notMem (by decide))
      · obtain ⟨-, rfl⟩ := List.cons.inj heq
        exact h
  · rename_i hnot
    rw [hport]
    constructor
    · exact Or.inl
    · rintro (h | ⟨digits, rfl, -⟩)
      · exact h
      · exact absurd rfl (hnot digits)

end Ports

section Pieces

theorem parts_ne_nil (s : Spec) : s.parts ≠ [] := by simp [Spec.parts]

theorem notMem_proto {c : Char} (hc : c = ':') (p : Proto) : c ∉ p.asStr.toList := by
  rw [hc]
  cases p <;> decide

-- Only a host address can have colons of its own.
theorem splitOn_text {s : Spec} (hhost : ':' ∉ s.hostPort) (hguest : ':' ∉ s.guestPort) :
    s.text.splitOn ':' = (s.proto.map fun p => p.asStr.toList).toList ++
      s.hostIp.toList.flatMap (List.splitOn ':') ++ [s.hostPort, s.guestPort] := by
  have hproto : ∀ proto : Option Proto,
      (proto.map fun p => p.asStr.toList).toList.flatMap (List.splitOn ':') =
        (proto.map fun p => p.asStr.toList).toList := by
    intro proto
    cases proto with
    | none => rfl
    | some p => simp [List.splitOn_eq_singleton (notMem_proto rfl p)]
  unfold Spec.text
  rw [splitOn_flatMap (parts_ne_nil s), Spec.parts, List.flatMap_append, List.flatMap_append, hproto]
  simp [List.splitOn_eq_singleton hhost, List.splitOn_eq_singleton hguest]

-- The ports are the last two pieces.
theorem ports_of_text {s t : Spec} (hs : ':' ∉ s.hostPort ∧ ':' ∉ s.guestPort)
    (ht : ':' ∉ t.hostPort ∧ ':' ∉ t.guestPort) (h : s.text = t.text) :
    s.hostPort = t.hostPort ∧ s.guestPort = t.guestPort := by
  have hpieces := splitOn_text hs.1 hs.2
  rw [h, splitOn_text ht.1 ht.2] at hpieces
  have hlast := (List.append_inj' hpieces rfl).2
  simp only [List.cons.injEq, and_true] at hlast
  exact ⟨hlast.1.symm, hlast.2.symm⟩

theorem splitOn_placed {s : Spec} (h : s.Placed) (hhost : ':' ∉ s.hostPort)
    (hguest : ':' ∉ s.guestPort) : s.text.splitOn ':' = s.parts := by
  rw [splitOn_text hhost hguest, Spec.parts]
  cases hip : s.hostIp with
  | none => rfl
  | some ip =>
      have hcolon := notMem_ipv4 (h ip hip).1 (by decide : (':').isDigit = false) (by decide)
      simp [List.splitOn_eq_singleton hcolon]

theorem parseProto_text (p : Proto) : PortForward.parseProto p.asStr.toList = some p := by
  cases p <;> rfl

theorem parseProto_eq_some {text : List Char} {p : Proto}
    (h : PortForward.parseProto text = some p) : text = p.asStr.toList := by
  unfold PortForward.parseProto at h
  split at h
  · rename_i htcp
    cases h
    exact htcp
  · split at h
    · rename_i hudp
      cases h
      exact hudp
    · cases h

theorem build_eq_some {proto : Proto} {hostIp : Option (List Char)} {hostPort guestPort : List Char}
    {fwd : PortForward} : PortForward.build proto hostIp hostPort guestPort = some fwd ↔
      (∀ ip ∈ hostIp, isIpAddr ip = true) ∧
      ∃ hp gp, PortForward.parsePort hostPort = some hp ∧ PortForward.parsePort guestPort = some gp ∧
        fwd = ⟨proto, hostIp.map String.ofList, hp.toUInt16, gp.toUInt16⟩ := by
  unfold PortForward.build
  simp only [Option.all_eq_true]
  split
  · rename_i haddress
    cases hhp : PortForward.parsePort hostPort with
    | none => simp
    | some hp =>
        cases hgp : PortForward.parsePort guestPort with
        | none => simp
        | some gp =>
            simp only [Option.some.injEq]
            constructor
            · rintro rfl
              exact ⟨haddress, hp, gp, rfl, rfl, rfl⟩
            · rintro ⟨-, hp', gp', rfl, rfl, rfl⟩
              rfl
  · rename_i hnot
    constructor
    · intro h
      cases h
    · exact fun h => absurd h.1 hnot

end Pieces

section Grammar

variable {spec : String} {fwd : PortForward} {s : Spec}

theorem parse_eq_ok : PortForward.parse spec = .ok fwd ↔
    PortForward.parsePieces spec.toList = some fwd := by
  unfold PortForward.parse
  split
  · rename_i hpieces
    rw [hpieces, Except.ok.injEq, Option.some_inj]
  · rename_i hpieces
    rw [hpieces]
    exact ⟨fun h => (by cases h), fun h => (by cases h)⟩

-- What the dispatch reads: a protocol or none, and behind a protocol a host address or none.
theorem parsePieces_placed (h : s.Placed) (hhost : ':' ∉ s.hostPort) (hguest : ':' ∉ s.guestPort) :
    PortForward.parsePieces s.text =
      PortForward.build (s.proto.getD .tcp) s.hostIp s.hostPort s.guestPort := by
  unfold PortForward.parsePieces
  rw [splitOn_placed h hhost hguest, Spec.parts]
  cases hproto : s.proto with
  | none =>
      cases hip : s.hostIp with
      | none => rfl
      | some ip => exact absurd hproto (h ip hip).2
  | some p =>
      cases hip : s.hostIp with
      | none => simp [parseProto_text]
      | some ip => simp [parseProto_text]

theorem placed_of_parsePieces {cs : List Char} (h : PortForward.parsePieces cs = some fwd) :
    ∃ s : Spec, s.text = cs ∧ s.Placed ∧ ':' ∉ s.hostPort ∧ ':' ∉ s.guestPort := by
  unfold PortForward.parsePieces at h
  split at h
  · rename_i hp gp hsplit
    refine ⟨⟨none, none, hp, gp⟩, eq_of_splitOn hsplit, ?_, ?_, ?_⟩
    · exact fun ip hip => by cases hip
    · exact notMem_of_splitOn hsplit (by simp)
    · exact notMem_of_splitOn hsplit (by simp)
  · rename_i proto hp gp hsplit
    obtain ⟨p, hproto, -⟩ := Option.bind_eq_some_iff.mp h
    obtain rfl := parseProto_eq_some hproto
    refine ⟨⟨some p, none, hp, gp⟩, eq_of_splitOn hsplit, ?_, ?_, ?_⟩
    · exact fun ip hip => by cases hip
    · exact notMem_of_splitOn hsplit (by simp)
    · exact notMem_of_splitOn hsplit (by simp)
  · rename_i proto ip hp gp hsplit
    obtain ⟨p, hproto, hbuild⟩ := Option.bind_eq_some_iff.mp h
    obtain rfl := parseProto_eq_some hproto
    refine ⟨⟨some p, some ip, hp, gp⟩, eq_of_splitOn hsplit, ?_, ?_, ?_⟩
    · intro ip' hip
      obtain rfl := Option.some_inj.mp hip
      have hcolon : ':' ∉ ip := notMem_of_splitOn hsplit (by simp)
      have haddress := (build_eq_some.mp hbuild).1 ip rfl
      rw [isIpAddr_of_notMem hcolon] at haddress
      exact ⟨haddress, Option.some_ne_none p⟩
    · exact notMem_of_splitOn hsplit (by simp)
    · exact notMem_of_splitOn hsplit (by simp)
  · cases h

-- The pieces of a host address that is not placed are too many, or the first of them is read as a
-- protocol.
theorem parsePieces_refused (h : s.Refused) : PortForward.parsePieces s.text = none := by
  obtain ⟨hdoc, ip, hip, hwrong⟩ := h
  have hcolon : (':').isDigit = false := by decide
  have hsplit := splitOn_text (hdoc.host.notMem hcolon) (hdoc.guest.notMem hcolon)
  rw [hip] at hsplit
  unfold PortForward.parsePieces
  by_cases hfour : isIpv4 ip = true
  · have hnone : s.proto = none := by
      obtain hnone | hnot := hwrong
      · exact hnone
      · rw [hfour] at hnot
        cases hnot
    have hsingle := List.splitOn_eq_singleton (notMem_ipv4 hfour hcolon (by decide))
    have hproto : PortForward.parseProto ip = none := by
      cases hp : PortForward.parseProto ip with
      | none => rfl
      | some p =>
          obtain rfl := parseProto_eq_some hp
          have hp' : 'p' ∈ p.asStr.toList ∨ 'd' ∈ p.asStr.toList := by cases p <;> decide
          obtain hmem | hmem := hp'
          · exact absurd hmem (notMem_ipv4 hfour (by decide) (by decide))
          · exact absurd hmem (notMem_ipv4 hfour (by decide) (by decide))
    have hpieces : s.text.splitOn ':' = [ip, s.hostPort, s.guestPort] := by
      rw [hsplit, hnone]
      simp [hsingle]
    rw [hpieces]
    simp [hproto]
  · have hsix : isIpv6 ip = true := by
      have haddress := hdoc.address ip hip
      unfold isIpAddr at haddress
      rw [Bool.or_eq_true] at haddress
      exact haddress.resolve_left hfour
    have hmany : 5 ≤ (s.text.splitOn ':').length := by
      have hcount := colons_ipv6 hsix
      rw [hsplit]
      simp only [List.length_append, Option.toList_some, List.flatMap_cons, List.flatMap_nil,
        List.append_nil, List.length_cons, List.length_nil, length_splitOn]
      omega
    split
    · rename_i heq
      rw [heq] at hmany
      simp at hmany
    · rename_i heq
      rw [heq] at hmany
      simp at hmany
    · rename_i heq
      rw [heq] at hmany
      simp at hmany
    · rfl

theorem forward_of_documented (hdoc : s.Documented) :
    PortForward.build (s.proto.getD .tcp) s.hostIp s.hostPort s.guestPort = some s.forward :=
  build_eq_some.mpr ⟨hdoc.address, _, _, parsePort_eq_some.mpr (Or.inl ⟨hdoc.host, rfl⟩),
    parsePort_eq_some.mpr (Or.inl ⟨hdoc.guest, rfl⟩), rfl⟩

theorem port_kinds {text : List Char} {n : Nat} (h : PortForward.parsePort text = some n) :
    IsPort text ∨ IsSigned text := by
  obtain h | ⟨digits, rfl, h, -⟩ := parsePort_eq_some.mp h
  · exact Or.inl h.1
  · exact Or.inr ⟨digits, rfl, h⟩

theorem Spec.Placed.documented (h : s.Placed) (hhost : IsPort s.hostPort)
    (hguest : IsPort s.guestPort) : s.Documented where
  address ip hip := by
    unfold isIpAddr
    rw [(h ip hip).1]
    rfl
  host := hhost
  guest := hguest

theorem placed_of_not_refused (hdoc : s.Documented) (h : ¬s.Refused) : s.Placed := by
  intro ip hip
  have hnot : ¬(s.proto = none ∨ isIpv4 ip = false) := fun hwrong => h ⟨hdoc, ip, hip, hwrong⟩
  rw [not_or, Bool.not_eq_false] at hnot
  exact ⟨hnot.2, hnot.1⟩

-- With a plus sign a spec is let through, and it is none of the grammar.
theorem signed_accepted (h : s.Signed) : ∃ fwd, PortForward.parsePieces s.text = some fwd := by
  obtain ⟨hplaced, hports⟩ := h
  have hread : ∀ text, IsPort text ∨ IsSigned text →
      ∃ n, PortForward.parsePort text = some n ∧ ':' ∉ text := by
    rintro text (hport | hsigned)
    · exact ⟨_, parsePort_eq_some.mpr (Or.inl ⟨hport, rfl⟩), hport.notMem (by decide)⟩
    · have hcolon := hsigned.notMem (by decide : (':').isDigit = false) (by decide)
      obtain ⟨digits, rfl, hdigits⟩ := hsigned
      exact ⟨_, parsePort_eq_some.mpr (Or.inr ⟨digits, rfl, hdigits, rfl⟩), hcolon⟩
  obtain ⟨hp, hhp, hhost⟩ := hread s.hostPort (by tauto)
  obtain ⟨gp, hgp, hguest⟩ := hread s.guestPort (by tauto)
  rw [parsePieces_placed hplaced hhost hguest]
  refine ⟨_, build_eq_some.mpr ⟨fun ip hip => ?_, hp, gp, hhp, hgp, rfl⟩⟩
  unfold isIpAddr
  rw [(hplaced ip hip).1]
  rfl

theorem signed_unmatched (h : s.Signed) {t : Spec} (ht : t.Documented) : s.text ≠ t.text := by
  intro heq
  have hcolon : (':').isDigit = false := by decide
  have hplain : ':' ∉ s.hostPort ∧ ':' ∉ s.guestPort := by
    obtain ⟨-, ⟨hh, hg⟩ | ⟨hh, hg | hg⟩⟩ := h
    · exact ⟨hh.notMem hcolon, hg.notMem hcolon (by decide)⟩
    · exact ⟨hh.notMem hcolon (by decide), hg.notMem hcolon⟩
    · exact ⟨hh.notMem hcolon (by decide), hg.notMem hcolon (by decide)⟩
  obtain ⟨hhost, hguest⟩ :=
    ports_of_text hplain ⟨ht.host.notMem hcolon, ht.guest.notMem hcolon⟩ heq
  obtain ⟨-, hsigned | hsigned⟩ := h
  · exact hsigned.2.not_port (hguest ▸ ht.guest)
  · exact hsigned.1.not_port (hhost ▸ ht.host)

-- The specs that are read as documented: all but those with a plus sign before a port, and those
-- with a host address that has colons or no protocol before it.
theorem parse_documented_iff (spec : String) :
    (∀ fwd, PortForward.parse spec = .ok fwd ↔ Matches spec fwd) ↔
      ∀ s : Spec, s.text = spec.toList → ¬s.Refused ∧ ¬s.Signed := by
  simp only [parse_eq_ok]
  constructor
  · intro h s htext
    constructor
    · intro hrefused
      have hmatch := (h s.forward).mpr ⟨s, hrefused.1, htext, rfl⟩
      rw [← htext, parsePieces_refused hrefused] at hmatch
      cases hmatch
    · intro hsigned
      obtain ⟨fwd, hfwd⟩ := signed_accepted hsigned
      rw [htext] at hfwd
      obtain ⟨t, ht, htext', -⟩ := (h fwd).mp hfwd
      exact signed_unmatched hsigned ht (htext.trans htext'.symm)
  · intro h fwd
    constructor
    · intro hparse
      obtain ⟨s, htext, hplaced, hhost, hguest⟩ := placed_of_parsePieces hparse
      rw [← htext, parsePieces_placed hplaced hhost hguest] at hparse
      obtain ⟨-, hp, gp, hhp, hgp, -⟩ := build_eq_some.mp hparse
      have hsigned := (h s htext).2
      have hports : IsPort s.hostPort ∧ IsPort s.guestPort := by
        have hhost := port_kinds hhp
        have hguest := port_kinds hgp
        unfold Spec.Signed at hsigned
        tauto
      have hdoc := hplaced.documented hports.1 hports.2
      rw [forward_of_documented hdoc, Option.some_inj] at hparse
      exact ⟨s, hdoc, htext, hparse⟩
    · rintro ⟨s, hdoc, htext, rfl⟩
      have hcolon : (':').isDigit = false := by decide
      have hplaced := placed_of_not_refused hdoc (h s htext).1
      rw [← htext, parsePieces_placed hplaced (hdoc.host.notMem hcolon) (hdoc.guest.notMem hcolon)]
      exact forward_of_documented hdoc

-- A documented spec: all host interfaces, without a protocol.
theorem address_refused :
    ¬∀ (spec : String) (fwd : PortForward), PortForward.parse spec = .ok fwd ↔ Matches spec fwd := by
  intro h
  have hdoc : (⟨none, some "0.0.0.0".toList, "8080".toList, "80".toList⟩ : Spec).Documented :=
    ⟨by decide, by decide, by decide⟩
  have hparse := (h "0.0.0.0:8080:80" _).mpr ⟨_, hdoc, by decide, rfl⟩
  revert hparse
  decide

end Grammar

end VMForge.Core
