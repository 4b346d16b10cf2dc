import VMForge.Core.Net.Spec

namespace VMForge.Core

open Text IpText

-- The fields of a hostfwd rule: what is between its colons, without the dash of the host port.
def readHostfwd (text : List Char) : Option (Proto × List Char × Nat × Nat) :=
  match text.splitOn ':' with
  | [proto, host, ports, guestPort] =>
      match ports.splitOn '-' with
      | [hostPort, []] =>
          match PortForward.parseProto proto, Qemu.parseNumber 65536 hostPort,
              Qemu.parseNumber 65536 guestPort with
          | some proto, some hostPort, some guestPort => some (proto, host, hostPort, guestPort)
          | _, _, _ => none
      | _ => none
  | _ => none

namespace PortForward

-- The address that a rule binds.
def host (fwd : PortForward) : String := fwd.hostIp.getD "127.0.0.1"

def fields (fwd : PortForward) : Proto × List Char × Nat × Nat :=
  (fwd.proto, fwd.host.toList, fwd.hostPort.toNat, fwd.guestPort.toNat)

-- The rule with its address written out.
def explicit (fwd : PortForward) : PortForward := { fwd with hostIp := some fwd.host }

-- `proto:[ip:]hostport:guestport`
def specText (fwd : PortForward) : String :=
  let address := match fwd.hostIp with
    | some ip => s!"{ip}:"
    | none => ""
  s!"{fwd.proto.asStr}:{address}{fwd.hostPort.toNat}:{fwd.guestPort.toNat}"

def pieces (fwd : PortForward) : List (List Char) :=
  [fwd.proto.asStr.toList, fwd.host.toList, Nat.toDigits 10 fwd.hostPort.toNat ++ ['-'],
    Nat.toDigits 10 fwd.guestPort.toNat]

theorem toHostfwd_pieces (fwd : PortForward) :
    fwd.toHostfwd.toList = [':'].intercalate fwd.pieces := by
  simp [toHostfwd, pieces, host, toString, List.intercalate_cons_of_ne_nil,
    List.intercalate_singleton]

theorem splitOn_toHostfwd {fwd : PortForward} (h : ':' ∉ fwd.host.toList) :
    fwd.toHostfwd.toList.splitOn ':' = fwd.pieces := by
  have hdigits : ∀ n, ':' ∉ Nat.toDigits 10 n := notMem_toDigits (by decide)
  have hne : fwd.pieces ≠ [] := List.cons_ne_nil _ _
  rw [toHostfwd_pieces, splitOn_flatMap hne]
  have hports : ':' ∉ Nat.toDigits 10 fwd.hostPort.toNat ++ ['-'] := by
    simp [hdigits]
  simp [pieces, List.splitOn_eq_singleton h, List.splitOn_eq_singleton hports,
    List.splitOn_eq_singleton (hdigits _), List.splitOn_eq_singleton (notMem_proto rfl fwd.proto)]

-- Cutting the rule at its colons gives back what it is made of.
theorem readHostfwd_toHostfwd {fwd : PortForward} (h : ':' ∉ fwd.host.toList) :
    readHostfwd fwd.toHostfwd.toList = some fwd.fields := by
  have hdash : '-' ∉ Nat.toDigits 10 fwd.hostPort.toNat := notMem_toDigits (by decide) _
  unfold readHostfwd
  rw [splitOn_toHostfwd h]
  simp only [pieces, List.splitOn_append_cons_self_of_not_mem hdash, List.splitOn_nil, parseProto_text,
    parseNumber_toDigits (UInt16.toNat_lt _)]
  rfl

theorem fields_inj {f g : PortForward} (h : f.fields = g.fields) : f.explicit = g.explicit := by
  obtain ⟨hproto, hhost, hhp, hgp⟩ := by simpa [fields, Prod.mk.injEq] using h
  unfold explicit
  rw [hproto, String.toList_inj.mp hhost, UInt16.toNat_inj.mp hhp, UInt16.toNat_inj.mp hgp]

theorem toHostfwd_explicit (fwd : PortForward) : fwd.explicit.toHostfwd = fwd.toHostfwd := rfl

end PortForward

section RoundTrip

variable {spec : String} {fwd : PortForward}

-- A host address that is read is an IPv4 address.
theorem address_of_parse (h : PortForward.parse spec = .ok fwd) :
    ∀ ip ∈ fwd.hostIp, isIpv4 ip.toList = true := by
  rw [parse_eq_ok] at h
  obtain ⟨s, htext, hplaced, hhost, hguest⟩ := placed_of_parsePieces h
  rw [← htext, parsePieces_placed hplaced hhost hguest] at h
  obtain ⟨-, hp, gp, -, -, rfl⟩ := build_eq_some.mp h
  intro ip hip
  obtain ⟨cs, hcs, rfl⟩ := Option.map_eq_some_iff.mp hip
  rw [String.toList_ofList]
  exact (hplaced cs hcs).1

theorem colon_notMem_host (h : ∀ ip ∈ fwd.hostIp, isIpv4 ip.toList = true) :
    ':' ∉ fwd.host.toList := by
  unfold PortForward.host
  cases hip : fwd.hostIp with
  | none => decide
  | some ip => exact notMem_ipv4 (h ip hip) (by decide) (by decide)

theorem isPort_toDigits {n : Nat} (hpos : 0 < n) (hlt : n < 65536) : IsPort (Nat.toDigits 10 n) := by
  unfold IsPort
  rw [Nat.ofDigitChars_ten_toDigits]
  exact ⟨Nat.toDigits_ne_nil, fun c hc => digit_of_mem hc, hpos, hlt⟩

-- The spec that a rule is written as.
def PortForward.asSpec (fwd : PortForward) : Spec :=
  ⟨some fwd.proto, fwd.hostIp.map String.toList, Nat.toDigits 10 fwd.hostPort.toNat,
    Nat.toDigits 10 fwd.guestPort.toNat⟩

theorem specText_toList (fwd : PortForward) : fwd.specText.toList = fwd.asSpec.text := by
  unfold PortForward.specText PortForward.asSpec Spec.text Spec.parts
  cases fwd.hostIp with
  | none => simp [toString, List.intercalate_cons_of_ne_nil, List.intercalate_singleton]
  | some ip => simp [toString, List.intercalate_cons_of_ne_nil, List.intercalate_singleton]

theorem parse_specText (hhost : fwd.hostPort ≠ 0) (hguest : fwd.guestPort ≠ 0)
    (haddress : ∀ ip ∈ fwd.hostIp, isIpv4 ip.toList = true) :
    PortForward.parse fwd.specText = .ok fwd := by
  have hpos : ∀ n : UInt16, n ≠ 0 → 0 < n.toNat := by
    intro n hn
    rw [Nat.pos_iff_ne_zero]
    exact fun h => hn (UInt16.toNat_inj.mp h)
  have hports : IsPort fwd.asSpec.hostPort ∧ IsPort fwd.asSpec.guestPort :=
    ⟨isPort_toDigits (hpos _ hhost) (UInt16.toNat_lt _),
      isPort_toDigits (hpos _ hguest) (UInt16.toNat_lt _)⟩
  have hplaced : fwd.asSpec.Placed := by
    intro cs hcs
    obtain ⟨ip, hip, rfl⟩ := Option.map_eq_some_iff.mp hcs
    exact ⟨haddress ip hip, Option.some_ne_none _⟩
  have hcolon : (':').isDigit = false := by decide
  have hforward : fwd.asSpec.forward = fwd := by
    unfold Spec.forward PortForward.asSpec
    simp only [Nat.ofDigitChars_ten_toDigits, Option.getD_some, Option.map_map]
    cases fwd with
    | mk proto hostIp hostPort guestPort =>
        cases hostIp <;> simp
  rw [parse_eq_ok, specText_toList,
    parsePieces_placed hplaced (hports.1.notMem hcolon) (hports.2.notMem hcolon),
    forward_of_documented (hplaced.documented hports.1 hports.2), hforward]

-- Rules go through their texts and back.
theorem forwards_round_trip :
    (∀ fwd : PortForward, fwd.hostPort ≠ 0 → fwd.guestPort ≠ 0 →
      (∀ ip ∈ fwd.hostIp, isIpv4 ip.toList = true) → PortForward.parse fwd.specText = .ok fwd) ∧
    (∀ s t f g, PortForward.parse s = .ok f → PortForward.parse t = .ok g →
      (f.toHostfwd = g.toHostfwd ↔ f.explicit = g.explicit)) ∧
    ∀ s f, PortForward.parse s = .ok f → readHostfwd f.toHostfwd.toList = some f.fields := by
  have hread : ∀ s f, PortForward.parse s = .ok f → readHostfwd f.toHostfwd.toList = some f.fields :=
    fun s f h => PortForward.readHostfwd_toHostfwd (colon_notMem_host (address_of_parse h))
  refine ⟨fun fwd hhost hguest haddress => parse_specText hhost hguest haddress, ?_, hread⟩
  intro s t f g hf hg
  constructor
  · intro htext
    have hfields := hread s f hf
    rw [htext, hread t g hg, Option.some_inj] at hfields
    exact PortForward.fields_inj hfields.symm
  · intro hexplicit
    rw [← f.toHostfwd_explicit, hexplicit, g.toHostfwd_explicit]

theorem forwards_round_trip_local :
    PortForward.parse (PortForward.specText ⟨.udp, some "10.0.0.1", 5353, 53⟩) =
      .ok ⟨.udp, some "10.0.0.1", 5353, 53⟩ :=
  forwards_round_trip.1 _ (by decide) (by decide) (by decide)

end RoundTrip

end VMForge.Core
