import VMForge.Base.OptionText
import VMForge.Core.Net.Hostfwd
import Mathlib.Algebra.Order.BigOperators.Group.List

namespace VMForge.Core

open Text IpText OptionText

inductive NetMode where
  | nat

structure NicConfig where
  id : String
  mode : NetMode
  model : String
  mac : Option String
  portForwards : List PortForward

def NicConfig.nat (id : String) : NicConfig := ⟨id, .nat, "virtio-net-pci", none, []⟩

-- Six octets of two hexadecimal digits.
def isMac (mac : List Char) : Bool :=
  (mac.splitOn ':').length = 6 &&
    (mac.splitOn ':').all fun o => byteLen o = 2 && o.all isHexDigit

namespace UserNetBackend

def validate (nic : NicConfig) : Except HvError Unit :=
  if wellFormedId nic.id = true then
    match nic.mac with
    | some mac =>
        if isMac mac.toList = true then .ok ()
        else .error (.engine s!"invalid MAC address '{mac}'")
    | none => .ok ()
  else .error (.engine s!"invalid netdev id '{nic.id}'")

def netdev (nic : NicConfig) : String :=
  nic.portForwards.foldl (fun text fwd => text ++ s!",hostfwd={fwd.toHostfwd}") s!"user,id={nic.id}"

def device (nic : NicConfig) : String :=
  match nic.mac with
  | some mac => s!"{nic.model},netdev={nic.id},mac={mac}"
  | none => s!"{nic.model},netdev={nic.id}"

def qemuArgs (nic : NicConfig) : Except HvError (List String) :=
  match validate nic with
  | .ok () => .ok ["-netdev", netdev nic, "-device", device nic]
  | .error e => .error e

end UserNetBackend

namespace NicConfig

def option (key : String) (value : List Char) : Setting := ⟨key.toList, some value⟩

-- The netdev argument, read as options: the user backend, the id, one forward after the other.
def NetdevMeans (nic : NicConfig) (argument : String) : Prop :=
  ∃ values : List (List Char), settings (some "type".toList) argument.toList =
      option "type" "user".toList :: option "id" nic.id.toList :: values.map (option "hostfwd") ∧
    values.map readHostfwd = nic.portForwards.map fun fwd => some fwd.fields

def DeviceMeans (nic : NicConfig) (argument : String) : Prop :=
  settings (some "driver".toList) argument.toList =
    option "driver" nic.model.toList :: option "netdev" nic.id.toList ::
      (nic.mac.map fun mac => option "mac" mac.toList).toList

-- The arguments hold what the configuration holds, and nothing else.
def Means (nic : NicConfig) (args : List String) : Prop :=
  ∃ netdev device, args = ["-netdev", netdev, "-device", device] ∧
    nic.NetdevMeans netdev ∧ nic.DeviceMeans device

end NicConfig

section Texts

theorem notMem_id {id : String} (h : wellFormedId id = true) {c : Char} (hc : c.isAlphanum = false)
    (hother : c ∉ ['_', '.', '-']) : c ∉ id.toList := by
  unfold wellFormedId at h
  cases hcs : id.toList with
  | nil => exact List.not_mem_nil
  | cons d ds =>
      simp only [hcs, Bool.and_eq_true, List.all_eq_true] at h
      intro hmem
      obtain rfl | hmem := List.mem_cons.mp hmem
      · have halpha : c.isAlphanum = true := by
          unfold Char.isAlphanum
          rw [h.1]
          rfl
        rw [halpha] at hc
        cases hc
      · have hd := h.2 c hmem
        rw [hc, Bool.false_or, decide_eq_true_eq] at hd
        exact hother hd

theorem comma_notMem_mac {mac : List Char} (h : isMac mac = true) : ',' ∉ mac := by
  unfold isMac at h
  rw [Bool.and_eq_true, List.all_eq_true] at h
  obtain ⟨-, hall⟩ := h
  intro hmem
  obtain ⟨piece, hpiece, hcomma⟩ := (mem_splitOn (by decide : ',' ≠ ':')).mp hmem
  have hdigits := hall piece hpiece
  rw [Bool.and_eq_true, List.all_eq_true] at hdigits
  exact absurd (hdigits.2 _ hcomma) (by decide)

-- The forwards behind the id.
def forwardsText (fwds : List PortForward) : List Char :=
  fwds.flatMap fun fwd => ',' :: plain "hostfwd".toList fwd.toHostfwd.toList

theorem netdev_toList (nic : NicConfig) : (UserNetBackend.netdev nic).toList =
    "user".toList ++ ',' :: (plain "id".toList nic.id.toList ++ forwardsText nic.portForwards) := by
  have hfold : ∀ (fwds : List PortForward) (text : String),
      (fwds.foldl (fun text fwd => text ++ s!",hostfwd={fwd.toHostfwd}") text).toList =
        text.toList ++ forwardsText fwds := by
    intro fwds
    induction fwds with
    | nil =>
        intro text
        exact (List.append_nil _).symm
    | cons fwd fwds ih =>
        intro text
        rw [List.foldl_cons, ih]
        simp [forwardsText, plain, toString]
  unfold UserNetBackend.netdev
  rw [hfold]
  simp [plain, toString]

theorem device_toList (nic : NicConfig) : (UserNetBackend.device nic).toList =
    nic.model.toList ++ ',' :: (plain "netdev".toList nic.id.toList ++
      (nic.mac.elim [] fun mac => ',' :: plain "mac".toList mac.toList)) := by
  unfold UserNetBackend.device
  cases nic.mac with
  | none => simp [plain, toString]
  | some mac => simp [plain, toString]

theorem qemuArgs_eq_ok {nic : NicConfig} {args : List String}
    (h : UserNetBackend.qemuArgs nic = .ok args) :
    args = ["-netdev", UserNetBackend.netdev nic, "-device", UserNetBackend.device nic] ∧
      ',' ∉ nic.id.toList ∧ ∀ mac ∈ nic.mac, ',' ∉ mac.toList := by
  unfold UserNetBackend.qemuArgs at h
  split at h
  · rename_i hvalid
    cases h
    unfold UserNetBackend.validate at hvalid
    split at hvalid
    · rename_i hid
      refine ⟨rfl, notMem_id hid (by decide) (by decide), fun mac hmac => ?_⟩
      rw [hmac] at hvalid
      simp only at hvalid
      split at hvalid
      · rename_i hismac
        exact comma_notMem_mac hismac
      · cases hvalid
    · cases hvalid
  · cases h

end Texts

section Meaning

variable {nic : NicConfig}

theorem length_toDigits_le {limit n : Nat} {text : List Char}
    (h : Qemu.parseNumber limit text = some n) : (Nat.toDigits 10 n).length ≤ text.length := by
  obtain ⟨hne, hdigits, -, rfl⟩ := parseNumber_eq_some.mp h
  rw [Nat.length_toDigits_le_iff (by decide) (List.length_pos_iff.mpr hne)]
  have hlt := ofDigitChars_lt hdigits 0
  omega

theorem comma_notMem_toHostfwd {fwd : PortForward} (h : ',' ∉ fwd.host.toList) :
    ',' ∉ fwd.toHostfwd.toList := by
  have hdigits : ∀ n, ',' ∉ Nat.toDigits 10 n := notMem_toDigits (by decide)
  have hproto : ',' ∉ fwd.proto.asStr.toList := by cases fwd.proto <;> decide
  rw [PortForward.toHostfwd_pieces]
  simp [PortForward.pieces, List.intercalate_cons_of_ne_nil, List.intercalate_singleton, h, hdigits,
    hproto]

-- No text with the fields of a rule is shorter than the rule, and only the address can hold commas.
theorem readHostfwd_fields {value : List Char} {fwd : PortForward}
    (h : readHostfwd value = some fwd.fields) :
    fwd.toHostfwd.toList.length ≤ value.length ∧ ':' ∉ fwd.host.toList ∧
      (',' ∈ fwd.host.toList → ',' ∈ value) := by
  unfold readHostfwd at h
  split at h
  · rename_i proto host ports guest hsplit
    split at h
    · rename_i hostPort hports
      split at h
      · rename_i p hp gp hproto hhp hgp
        have hjoin := eq_of_splitOn hsplit
        obtain rfl := parseProto_eq_some hproto
        obtain rfl := eq_of_splitOn hports
        simp only [PortForward.fields, Option.some.injEq, Prod.mk.injEq] at h
        obtain ⟨rfl, rfl, rfl, rfl⟩ := h
        have hlen := length_toDigits_le hhp
        have hlen' := length_toDigits_le hgp
        refine ⟨?_, notMem_of_splitOn hsplit (by simp), fun hcomma => ?_⟩
        · rw [← hjoin, PortForward.toHostfwd_pieces]
          simp [PortForward.pieces, List.intercalate_cons_of_ne_nil, List.intercalate_singleton]
          omega
        · rw [← hjoin]
          simp [List.intercalate_cons_of_ne_nil, List.intercalate_singleton, hcomma]
      · cases h
    · cases h
  · cases h

theorem settings_forwards {key value : List Char} (hkey : ∀ c ∈ key, inKey c = true)
    (hvalue : ',' ∉ value) {fwds : List PortForward} (h : ∀ fwd ∈ fwds, ',' ∉ fwd.toHostfwd.toList) :
    settings none (plain key value ++ forwardsText fwds) =
      ⟨key, some value⟩ :: fwds.map fun fwd => NicConfig.option "hostfwd" fwd.toHostfwd.toList := by
  induction fwds generalizing key value with
  | nil =>
      have hnil : forwardsText [] = [] := rfl
      rw [hnil, List.append_nil, settings_plain hkey hvalue]
      rfl
  | cons fwd fwds ih =>
      have hcons : forwardsText (fwd :: fwds) =
          ',' :: (plain "hostfwd".toList fwd.toHostfwd.toList ++ forwardsText fwds) := by
        simp [forwardsText]
      rw [hcons, settings_plain_comma hkey hvalue (by simp [plain]),
        ih (by decide) (h fwd List.mem_cons_self) fun f hf => h f (List.mem_cons_of_mem _ hf)]
      rfl

-- The values weigh as much as the rules that they stand for, and their commas besides.
theorem weight_forwards {values : List (List Char)} {fwds : List PortForward}
    (h : values.map readHostfwd = fwds.map fun fwd => some fwd.fields) :
    (forwardsText fwds).length + (values.map (List.count ',')).sum ≤
      weight (values.map (NicConfig.option "hostfwd")) := by
  induction fwds generalizing values with
  | nil =>
      obtain rfl := List.map_eq_nil_iff.mp h
      exact Nat.le_refl 0
  | cons fwd fwds ih =>
      obtain ⟨value, rest, rfl, hvalue, hrest⟩ := List.map_eq_cons_iff.mp h
      have hlen := (readHostfwd_fields hvalue).1
      have hkey : "hostfwd".toList.length = 7 := by decide
      have ih := ih hrest
      simp only [forwardsText, List.flatMap_cons, List.length_append, List.length_cons, plain,
        List.map_cons, List.sum_cons, weight, NicConfig.option, Option.elim_some] at ih ⊢
      omega

theorem netdev_means_iff (hid : ',' ∉ nic.id.toList) :
    nic.NetdevMeans (UserNetBackend.netdev nic) ↔
      ∀ fwd ∈ nic.portForwards, ',' ∉ fwd.host.toList ∧ ':' ∉ fwd.host.toList := by
  have huser : ∀ rest : List Char, (("user".toList ++ ',' :: rest).dropWhile inKey).head? ≠ some '=' := by
    intro rest
    rw [List.dropWhile_append_of_pos (by decide)]
    exact fun h => absurd (Option.some.inj h) (by decide)
  unfold NicConfig.NetdevMeans
  rw [netdev_toList]
  constructor
  · rintro ⟨values, hsettings, hvalues⟩
    have hweight := weight_understood hsettings (huser _)
    have hforwards := weight_forwards hvalues
    have hcount := List.count_eq_zero.mpr hid
    have hnone : (values.map (List.count ',')).sum = 0 := by
      simp only [weight, NicConfig.option, Option.elim_some, hcount, plain, List.length_append,
        List.length_cons] at hweight hforwards
      omega
    have hplain : ∀ value ∈ values, ',' ∉ value := by
      intro value hvalue
      have hle := List.le_sum_of_mem (@List.mem_map_of_mem _ _ _ _ (List.count ',') hvalue)
      exact List.count_eq_zero.mp (by omega)
    intro fwd hfwd
    have hmem : some fwd.fields ∈ values.map readHostfwd := by
      rw [hvalues]
      exact List.mem_map_of_mem hfwd
    obtain ⟨value, hvalue, hread⟩ := List.mem_map.mp hmem
    obtain ⟨-, hcolon, hcomma⟩ := readHostfwd_fields hread
    exact ⟨fun h => hplain value hvalue (hcomma h), hcolon⟩
  · intro h
    have hcomma : ∀ fwd ∈ nic.portForwards, ',' ∉ fwd.toHostfwd.toList :=
      fun fwd hfwd => comma_notMem_toHostfwd (h fwd hfwd).1
    refine ⟨nic.portForwards.map fun fwd => fwd.toHostfwd.toList, ?_, ?_⟩
    · rw [settings_understood_comma (by decide) (by decide) (by simp [plain]),
        settings_forwards (by decide) hid hcomma, List.map_map]
      rfl
    · rw [List.map_map]
      apply List.map_congr_left
      exact fun fwd hfwd => PortForward.readHostfwd_toHostfwd (h fwd hfwd).2

-- The settings behind the driver.
theorem settings_device (hid : ',' ∉ nic.id.toList) (hmac : ∀ mac ∈ nic.mac, ',' ∉ mac.toList) :
    settings none (plain "netdev".toList nic.id.toList ++
        (nic.mac.elim [] fun mac => ',' :: plain "mac".toList mac.toList)) =
      NicConfig.option "netdev" nic.id.toList ::
        (nic.mac.map fun mac => NicConfig.option "mac" mac.toList).toList := by
  cases hnone : nic.mac with
  | none =>
      rw [Option.elim_none, List.append_nil, settings_plain (by decide) hid]
      rfl
  | some mac =>
      rw [Option.elim_some, settings_plain_comma (by decide) hid (by simp [plain]),
        settings_plain (by decide) (hmac mac hnone)]
      rfl

theorem device_means_iff (hid : ',' ∉ nic.id.toList) (hmac : ∀ mac ∈ nic.mac, ',' ∉ mac.toList) :
    nic.DeviceMeans (UserNetBackend.device nic) ↔
      ',' ∉ nic.model.toList ∧ '=' ∉ nic.model.toList := by
  have hsettings := settings_device hid hmac
  have hlength : weight (NicConfig.option "netdev" nic.id.toList ::
      (nic.mac.map fun mac => NicConfig.option "mac" mac.toList).toList) =
      (plain "netdev".toList nic.id.toList ++
        (nic.mac.elim [] fun mac => ',' :: plain "mac".toList mac.toList)).length + 1 := by
    have hcount := List.count_eq_zero.mpr hid
    cases hnone : nic.mac with
    | none => simp [weight, NicConfig.option, plain, hcount]; omega
    | some mac =>
        have hcount' := List.count_eq_zero.mpr (hmac mac hnone)
        simp [weight, NicConfig.option, plain, hcount, hcount']
        omega
  have hhead : (plain "netdev".toList nic.id.toList ++
      (nic.mac.elim [] fun mac => ',' :: plain "mac".toList mac.toList)).head? ≠ some ',' := by
    simp [plain]
  unfold NicConfig.DeviceMeans
  rw [device_toList]
  generalize plain "netdev".toList nic.id.toList ++
    (nic.mac.elim [] fun mac => ',' :: plain "mac".toList mac.toList) = tail at hsettings hlength hhead ⊢
  generalize NicConfig.option "netdev" nic.id.toList ::
    (nic.mac.map fun mac => NicConfig.option "mac" mac.toList).toList = rest at hsettings hlength ⊢
  constructor
  · intro h
    have hkey : ((nic.model.toList ++ ',' :: tail).dropWhile inKey).head? ≠ some '=' := by
      intro hkey
      rw [settings_of_key hkey] at h
      have hweight := weight_settings (nic.model.toList ++ ',' :: tail)
      rw [h] at hweight
      simp [weight, NicConfig.option] at hweight
      omega
    have hweight := weight_understood h hkey
    have hcomma : ',' ∉ nic.model.toList := by
      rw [← List.count_eq_zero]
      rw [List.length_append, List.length_cons] at hweight
      omega
    exact ⟨hcomma, fun hequals => absurd (dropWhile_equals hcomma hequals _) hkey⟩
  · rintro ⟨hcomma, hequals⟩
    rw [settings_understood_comma hequals hcomma hhead, hsettings]
    rfl

-- The arguments mean the configuration exactly if no text in it that is not checked has in it what
-- the option syntax or the forward syntax gives a meaning to.
theorem qemuArgs_means_iff (nic : NicConfig) (args : List String)
    (h : UserNetBackend.qemuArgs nic = .ok args) :
    nic.Means args ↔ (',' ∉ nic.model.toList ∧ '=' ∉ nic.model.toList) ∧
      ∀ fwd ∈ nic.portForwards, ',' ∉ fwd.host.toList ∧ ':' ∉ fwd.host.toList := by
  obtain ⟨rfl, hid, hmac⟩ := qemuArgs_eq_ok h
  rw [← device_means_iff hid hmac, ← netdev_means_iff hid]
  constructor
  · rintro ⟨netdev, device, hargs, hnetdev, hdevice⟩
    simp only [List.cons.injEq, and_true, true_and] at hargs
    obtain ⟨rfl, rfl⟩ := hargs
    exact ⟨hdevice, hnetdev⟩
  · rintro ⟨hdevice, hnetdev⟩
    exact ⟨_, _, rfl, hnetdev, hdevice⟩

def webNic : NicConfig :=
  { NicConfig.nat "net0" with portForwards := [⟨.tcp, none, 2222, 22⟩, ⟨.udp, some "0.0.0.0", 5353, 53⟩] }

theorem qemuArgs_means_web :
    webNic.Means ["-netdev", UserNetBackend.netdev webNic, "-device", UserNetBackend.device webNic] :=
  (qemuArgs_means_iff webNic _ (by decide)).mpr (by decide)

-- A model with an option behind a comma.
theorem model_injects :
    ¬∀ (nic : NicConfig) (args : List String), UserNetBackend.qemuArgs nic = .ok args →
      nic.Means args := by
  intro h
  have hmeans := h { NicConfig.nat "net0" with model := "e1000,romfile=x" } _ rfl
  obtain ⟨netdev, device, hargs, -, hdevice⟩ := hmeans
  simp only [List.cons.injEq, and_true, true_and] at hargs
  obtain ⟨-, rfl⟩ := hargs
  revert hdevice
  unfold NicConfig.DeviceMeans
  decide

end Meaning

end VMForge.Core
