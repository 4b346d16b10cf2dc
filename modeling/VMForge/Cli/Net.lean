import VMForge.Core.Net.Nic

namespace VMForge.Cli

open VMForge.Core

structure NetOpts where
  forwards : List PortForward
  id : String
  model : Option String
  mac : Option String
  json : Bool
  hostPort : Option UInt16
  user : Option String

-- `die(msg, code)`
structure Death where
  message : String
  code : Nat

def netUsage : String :=
  "usage: vmforge net <args|ssh-command> [options]  (EXPERIMENTAL)

  vmforge net args [--forward SPEC]... [--id ID] [--model MODEL] [--mac MAC] [--json]
      Print the QEMU argv fragment for one user-mode (SLIRP) NIC.
      SPEC: [tcp|udp:][HOSTIP:]HOSTPORT:GUESTPORT   e.g. --forward 2222:22

  vmforge net ssh-command [--forward SPEC]... [--host-port PORT] [--user USER]
      Print the ssh invocation that reaches a guest's port 22 through a
      forward (convenience helper for UAT-6)."

-- The text of an error.
def errorText : HvError → String
  | .invalidTransition source op => s!"invalid lifecycle transition: {op} from {source.debug}"
  | .vmNotFound id => s!"VM not found: {id}"
  | .snapshotNotFound id => s!"snapshot not found: {id}"
  | .unsupported backend reason => s!"backend '{backend}' not supported on this host: {reason}"
  | .engine message => s!"engine error: {message}"
  | .io message => message

namespace NetOpts

def default : NetOpts := ⟨[], "net0", none, none, false, none, none⟩

-- The options that take a value.
inductive Valued where
  | forward
  | id
  | model
  | mac
  | hostPort
  | user
deriving DecidableEq

inductive Flag where
  | json
  | valued (name : Valued)
deriving DecidableEq

def Valued.text : Valued → String
  | .forward => "--forward"
  | .id => "--id"
  | .model => "--model"
  | .mac => "--mac"
  | .hostPort => "--host-port"
  | .user => "--user"

def Flag.text : Flag → String
  | .json => "--json"
  | .valued name => name.text

def flagOf (arg : String) : Option Flag :=
  if arg = "--forward" then some (.valued .forward)
  else if arg = "--id" then some (.valued .id)
  else if arg = "--model" then some (.valued .model)
  else if arg = "--mac" then some (.valued .mac)
  else if arg = "--json" then some .json
  else if arg = "--host-port" then some (.valued .hostPort)
  else if arg = "--user" then some (.valued .user)
  else none

-- What the value of an option sets.
def set (opts : NetOpts) (name : Valued) (value : String) : Except Death NetOpts :=
  match name with
  | .forward =>
      match PortForward.parse value with
      | .ok f => .ok { opts with forwards := opts.forwards ++ [f] }
      | .error e => .error ⟨errorText e, 2⟩
  | .id => .ok { opts with id := value }
  | .model => .ok { opts with model := some value }
  | .mac => .ok { opts with mac := some value }
  | .hostPort =>
      match PortForward.parsePort value.toList with
      | some p => .ok { opts with hostPort := some p.toUInt16 }
      | none => .error ⟨s!"invalid --host-port '{value}'", 2⟩
  | .user => .ok { opts with user := some value }

-- `while let Some(flag) = it.next()`
def parseFrom : NetOpts → List String → Except Death NetOpts
  | opts, [] => .ok opts
  | opts, arg :: rest =>
      match flagOf arg with
      | none => .error ⟨s!"unknown option: {arg}\n\n{netUsage}", 2⟩
      | some .json => parseFrom { opts with json := true } rest
      | some (.valued name) =>
          match rest with
          | [] => .error ⟨s!"{arg} requires a value\n\n{netUsage}", 2⟩
          | value :: rest =>
              match opts.set name value with
              | .ok opts => parseFrom opts rest
              | .error death => .error death

-- `parse_net_opts`
def parse (args : List String) : Except Death NetOpts := parseFrom default args

-- `nic_from_opts`
def nic (opts : NetOpts) : NicConfig :=
  { NicConfig.nat opts.id with
    model := opts.model.getD (NicConfig.nat opts.id).model
    mac := opts.mac
    portForwards := opts.forwards }

-- What is printed: the arguments with the configuration, as JSON, or a line.
inductive Printed where
  | json (nic : NicConfig) (args : List String)
  | line (text : String)

-- `net_args`
def netArgs (opts : NetOpts) : Except Death Printed :=
  match UserNetBackend.qemuArgs opts.nic with
  | .ok args => .ok (if opts.json then .json opts.nic args else .line (" ".intercalate args))
  | .error e => .error ⟨errorText e, 1⟩

-- The host port of `net_ssh_command`
def sshPort (opts : NetOpts) : Option UInt16 :=
  opts.hostPort.or ((opts.forwards.find? fun f => f.guestPort = 22).map PortForward.hostPort)

-- `net_ssh_command`
def netSshCommand (opts : NetOpts) : Except Death String :=
  let user := opts.user.getD "root"
  match opts.sshPort with
  | some port => .ok s!"ssh -p {port.toNat} {user}@127.0.0.1"
  | none => .error ⟨"no SSH forward found: pass --host-port PORT or a --forward mapping guest port 22", 2⟩

-- One option as it is written, and what it says.
inductive Written where
  | json
  | forward (spec : String) (f : PortForward)
  | id (value : String)
  | model (value : String)
  | mac (value : String)
  | hostPort (value : String) (port : Nat)
  | user (value : String)

namespace Written

def args : Written → List String
  | .json => ["--json"]
  | .forward spec _ => ["--forward", spec]
  | .id value => ["--id", value]
  | .model value => ["--model", value]
  | .mac value => ["--mac", value]
  | .hostPort value _ => ["--host-port", value]
  | .user value => ["--user", value]

-- A forward is written as a spec of it, and a port in digits.
def Valid : Written → Prop
  | .forward spec f => PortForward.parse spec = .ok f
  | .hostPort value port => PortForward.parsePort value.toList = some port
  | _ => True

def forward? : Written → Option PortForward
  | .forward _ f => some f
  | _ => none

def id? : Written → Option String
  | .id value => some value
  | _ => none

def model? : Written → Option String
  | .model value => some value
  | _ => none

def mac? : Written → Option String
  | .mac value => some value
  | _ => none

def hostPort? : Written → Option UInt16
  | .hostPort _ port => some port.toUInt16
  | _ => none

def user? : Written → Option String
  | .user value => some value
  | _ => none

def isJson : Written → Bool
  | .json => true
  | _ => false

end Written

-- What a list of options says on top of `opts`: forwards add up, and of the others the last one counts.
def saying (opts : NetOpts) (written : List Written) : NetOpts where
  forwards := opts.forwards ++ written.filterMap Written.forward?
  id := (written.filterMap Written.id?).getLast?.getD opts.id
  model := (written.filterMap Written.model?).getLast?.or opts.model
  mac := (written.filterMap Written.mac?).getLast?.or opts.mac
  json := opts.json || written.any Written.isJson
  hostPort := (written.filterMap Written.hostPort?).getLast?.or opts.hostPort
  user := (written.filterMap Written.user?).getLast?.or opts.user

-- What one of them says.
def say (opts : NetOpts) : Written → NetOpts
  | .json => { opts with json := true }
  | .forward _ f => { opts with forwards := opts.forwards ++ [f] }
  | .id value => { opts with id := value }
  | .model value => { opts with model := some value }
  | .mac value => { opts with mac := some value }
  | .hostPort _ port => { opts with hostPort := some port.toUInt16 }
  | .user value => { opts with user := some value }

section Parsing

variable {opts opts' : NetOpts} {w : Written} {written : List Written} {args rest : List String}

theorem getLast_cons {α : Type} (a : α) (as : List α) (o : Option α) :
    (a :: as).getLast?.or o = as.getLast?.or (some a) := by
  cases h : as.getLast? <;> simp [List.getLast?_cons, h]

theorem getLastD_cons {α : Type} (a b : α) (as : List α) :
    (a :: as).getLast?.getD b = as.getLast?.getD a := by
  rw [List.getLast?_cons, Option.getD_some]

theorem saying_nil : saying opts [] = opts := by
  simp [saying]

theorem saying_cons (w : Written) (written : List Written) :
    saying opts (w :: written) = saying (say opts w) written := by
  unfold saying
  cases w with
  | json =>
      simp only [say, List.filterMap_cons, Written.forward?, Written.id?, Written.model?, Written.mac?,
        Written.hostPort?, Written.user?, List.any_cons, Written.isJson, Bool.true_or, Bool.or_true]
  | forward spec f =>
      simp only [say, List.filterMap_cons, Written.forward?, Written.id?, Written.model?, Written.mac?,
        Written.hostPort?, Written.user?, List.any_cons, Written.isJson, Bool.false_or,
        List.append_assoc, List.singleton_append]
  | id value =>
      simp only [say, List.filterMap_cons, Written.forward?, Written.id?, Written.model?, Written.mac?,
        Written.hostPort?, Written.user?, List.any_cons, Written.isJson, Bool.false_or, getLastD_cons]
  | model value | mac value | hostPort value port | user value =>
      simp only [say, List.filterMap_cons, Written.forward?, Written.id?, Written.model?, Written.mac?,
        Written.hostPort?, Written.user?, List.any_cons, Written.isJson, Bool.false_or, getLast_cons]

-- One option is read as it is written.
theorem parseFrom_written (h : w.Valid) :
    parseFrom opts (w.args ++ rest) = parseFrom (say opts w) rest := by
  cases w with
  | forward spec f =>
      have hf : PortForward.parse spec = .ok f := h
      simp [Written.args, parseFrom, flagOf, set, hf, say]
  | hostPort value port =>
      have hport : PortForward.parsePort value.toList = some port := h
      simp [Written.args, parseFrom, flagOf, set, hport, say]
  | json | id value | model value | mac value | user value =>
      simp [Written.args, parseFrom, flagOf, set, say]

theorem parseFrom_all (h : ∀ w ∈ written, w.Valid) :
    parseFrom opts (written.flatMap Written.args) = .ok (saying opts written) := by
  induction written generalizing opts with
  | nil => exact congrArg Except.ok saying_nil.symm
  | cons w written ih =>
      obtain ⟨hw, hrest⟩ := List.forall_mem_cons.mp h
      rw [List.flatMap_cons, parseFrom_written hw, ih hrest, saying_cons]

theorem flagOf_text {arg : String} {flag : Flag} (h : flagOf arg = some flag) : arg = flag.text := by
  unfold flagOf at h
  repeat' split at h
  all_goals first | (obtain rfl := Option.some.inj h; assumption) | cases h

-- What an option with a value has set.
theorem set_eq_ok {name : Valued} {value : String} (h : opts.set name value = .ok opts') :
    ∃ w : Written, w.Valid ∧ w.args = [name.text, value] ∧ opts' = say opts w := by
  cases name with
  | forward =>
      rw [set] at h
      cases hf : PortForward.parse value with
      | error e =>
          rw [hf] at h
          cases h
      | ok f =>
          rw [hf] at h
          obtain rfl := Except.ok.inj h
          exact ⟨.forward value f, hf, rfl, rfl⟩
  | hostPort =>
      rw [set] at h
      cases hport : PortForward.parsePort value.toList with
      | none =>
          rw [hport] at h
          cases h
      | some port =>
          rw [hport] at h
          obtain rfl := Except.ok.inj h
          exact ⟨.hostPort value port, hport, rfl, rfl⟩
  | id => exact ⟨.id value, trivial, rfl, (Except.ok.inj h).symm⟩
  | model => exact ⟨.model value, trivial, rfl, (Except.ok.inj h).symm⟩
  | mac => exact ⟨.mac value, trivial, rfl, (Except.ok.inj h).symm⟩
  | user => exact ⟨.user value, trivial, rfl, (Except.ok.inj h).symm⟩

theorem written_of_parseFrom (h : parseFrom opts args = .ok opts') :
    ∃ written : List Written, (∀ w ∈ written, w.Valid) ∧ args = written.flatMap Written.args ∧
      opts' = saying opts written := by
  fun_induction parseFrom opts args with
  | case1 opts =>
      obtain rfl := Except.ok.inj h
      exact ⟨[], List.forall_mem_nil _, rfl, saying_nil.symm⟩
  | case2 => cases h
  | case3 opts arg rest hflag ih =>
      obtain ⟨written, hvalid, rfl, rfl⟩ := ih h
      refine ⟨.json :: written, List.forall_mem_cons.mpr ⟨trivial, hvalid⟩, ?_,
        (@saying_cons opts .json written).symm⟩
      rw [flagOf_text hflag]
      rfl
  | case4 => cases h
  | case5 opts arg name hflag value rest opts₁ hset ih =>
      obtain ⟨written, hvalid, rfl, rfl⟩ := ih h
      obtain ⟨w, hw, hargs, rfl⟩ := set_eq_ok hset
      refine ⟨w :: written, List.forall_mem_cons.mpr ⟨hw, hvalid⟩, ?_, (saying_cons _ _).symm⟩
      rw [flagOf_text hflag, List.flatMap_cons, hargs]
      rfl
  | case6 => cases h

end Parsing

theorem code_of_error {opts : NetOpts} {args : List String} {death : Death}
    (h : parseFrom opts args = .error death) : death.code = 2 := by
  fun_induction parseFrom opts args with
  | case1 => cases h
  | case2 =>
      obtain rfl := Except.error.inj h
      rfl
  | case3 _ _ _ _ ih => exact ih h
  | case4 =>
      obtain rfl := Except.error.inj h
      rfl
  | case5 _ _ _ _ _ _ _ _ ih => exact ih h
  | case6 opts arg name hflag value rest death' hset =>
      obtain rfl := Except.error.inj h
      unfold set at hset
      split at hset
      · split at hset
        · cases hset
        · obtain rfl := Except.error.inj hset
          rfl
      · cases hset
      · cases hset
      · cases hset
      · split at hset
        · cases hset
        · obtain rfl := Except.error.inj hset
          rfl
      · cases hset

-- The option lists that are accepted are those of options written one after the other, with a spec of
-- a rule behind `--forward` and a port behind `--host-port`. Forwards add up in their order, and of any
-- other option the last one counts. All other lists end the process with a usage error.
theorem parse_iff (args : List String) :
    (∀ opts, NetOpts.parse args = .ok opts ↔ ∃ written : List Written, (∀ w ∈ written, w.Valid) ∧
        args = written.flatMap Written.args ∧ opts = saying default written) ∧
      ∀ death, NetOpts.parse args = .error death → death.code = 2 := by
  refine ⟨fun opts => ⟨written_of_parseFrom, ?_⟩, fun death => code_of_error⟩
  rintro ⟨written, hvalid, rfl, rfl⟩
  exact parseFrom_all hvalid

section Printing

variable {opts : NetOpts} {nic : NicConfig} {args : List String} {text : String}

theorem notMem_mac {mac : List Char} (h : isMac mac = true) {c : Char} (hc : IpText.isHexDigit c = false)
    (hcolon : c ≠ ':') : c ∉ mac := by
  unfold isMac at h
  rw [Bool.and_eq_true, List.all_eq_true] at h
  intro hmem
  obtain ⟨piece, hpiece, hin⟩ := (Text.mem_splitOn hcolon).mp hmem
  have hdigits := h.2 piece hpiece
  rw [Bool.and_eq_true, List.all_eq_true] at hdigits
  rw [hdigits.2 c hin] at hc
  cases hc

theorem qemuArgs_valid (h : UserNetBackend.qemuArgs nic = .ok args) :
    wellFormedId nic.id = true ∧ ∀ mac ∈ nic.mac, isMac mac.toList = true := by
  unfold UserNetBackend.qemuArgs at h
  split at h
  · rename_i hvalid
    unfold UserNetBackend.validate at hvalid
    split at hvalid
    · rename_i hid
      refine ⟨hid, fun mac hmac => ?_⟩
      rw [hmac] at hvalid
      simp only at hvalid
      split at hvalid
      · assumption
      · cases hvalid
    · cases hvalid
  · cases h

theorem notMem_plain {c : Char} {key value : List Char} (hkey : c ∉ key) (hc : c ≠ '=')
    (hvalue : c ∉ value) : c ∉ OptionText.plain key value := by
  simp [OptionText.plain, hkey, hc, hvalue]

theorem blank_notMem_hostfwd {fwd : PortForward} (h : ' ' ∉ fwd.host.toList) :
    ' ' ∉ fwd.toHostfwd.toList := by
  have hdigits : ∀ n, ' ' ∉ Nat.toDigits 10 n := notMem_toDigits (by decide)
  have hproto : ' ' ∉ fwd.proto.asStr.toList := by cases fwd.proto <;> decide
  rw [PortForward.toHostfwd_pieces]
  simp [PortForward.pieces, List.intercalate_cons_of_ne_nil, List.intercalate_singleton, h, hdigits,
    hproto]

theorem blank_notMem_netdev (hid : wellFormedId nic.id = true)
    (hfwds : ∀ fwd ∈ nic.portForwards, ' ' ∉ fwd.host.toList) :
    ' ' ∉ (UserNetBackend.netdev nic).toList := by
  have hplain := notMem_plain (by decide : ' ' ∉ "id".toList) (by decide)
    (notMem_id hid (by decide) (by decide))
  have hforwards : ' ' ∉ forwardsText nic.portForwards := by
    intro hmem
    obtain ⟨fwd, hfwd, hin⟩ := List.mem_flatMap.mp hmem
    obtain heq | hin := List.mem_cons.mp hin
    · exact absurd heq (by decide)
    · exact notMem_plain (by decide) (by decide) (blank_notMem_hostfwd (hfwds fwd hfwd)) hin
  rw [netdev_toList, List.mem_append, List.mem_cons, List.mem_append, not_or, not_or, not_or]
  exact ⟨by decide, by decide, hplain, hforwards⟩

-- Nothing but the model brings a blank into the device argument.
theorem blank_mem_device (hid : wellFormedId nic.id = true) (hmac : ∀ mac ∈ nic.mac, isMac mac.toList = true) :
    ' ' ∈ (UserNetBackend.device nic).toList ↔ ' ' ∈ nic.model.toList := by
  have hplain := notMem_plain (by decide : ' ' ∉ "netdev".toList) (by decide)
    (notMem_id hid (by decide) (by decide))
  have hrest : ' ' ∉ nic.mac.elim [] fun mac => ',' :: OptionText.plain "mac".toList mac.toList := by
    cases hsome : nic.mac with
    | none => exact List.not_mem_nil
    | some mac =>
        rw [Option.elim_some, List.mem_cons, not_or]
        exact ⟨by decide, notMem_plain (by decide) (by decide) (notMem_mac (hmac mac hsome) rfl (by decide))⟩
  have hcomma : ' ' ≠ ',' := by decide
  rw [device_toList, List.mem_append, List.mem_cons, List.mem_append]
  simp only [hplain, hrest, hcomma, or_false]

-- The forwards of options that were accepted bind addresses.
theorem forwards_of_parse (h : NetOpts.parse args = .ok opts) :
    ∀ fwd ∈ opts.nic.portForwards, ∀ ip ∈ fwd.hostIp, IpText.isIpv4 ip.toList = true := by
  obtain ⟨written, hvalid, -, rfl⟩ := written_of_parseFrom h
  intro fwd hfwd
  change fwd ∈ [] ++ written.filterMap Written.forward? at hfwd
  obtain ⟨w, hw, hsome⟩ := List.mem_filterMap.mp hfwd
  cases w with
  | forward spec f =>
      obtain rfl := Option.some.inj hsome
      exact address_of_parse (hvalid _ hw)
  | json | id | model | mac | hostPort | user => cases hsome

theorem notMem_host {fwd : PortForward} (h : ∀ ip ∈ fwd.hostIp, IpText.isIpv4 ip.toList = true) {c : Char}
    (hc : c.isDigit = false) (hdot : c ≠ '.') : c ∉ fwd.host.toList := by
  unfold PortForward.host
  cases hip : fwd.hostIp with
  | none => exact IpText.notMem_ipv4 (by decide) hc hdot
  | some ip => exact IpText.notMem_ipv4 (h ip hip) hc hdot

theorem netArgs_eq_line (h : opts.netArgs = .ok (.line text)) :
    ∃ words, UserNetBackend.qemuArgs opts.nic = .ok words ∧ text = " ".intercalate words := by
  unfold netArgs at h
  cases hargs : UserNetBackend.qemuArgs opts.nic with
  | error e =>
      rw [hargs] at h
      cases h
  | ok words =>
      rw [hargs] at h
      have hprinted := Except.ok.inj h
      split at hprinted
      · cases hprinted
      · exact ⟨words, rfl, (Printed.line.inj hprinted).symm⟩

-- The words of a line: those of the device argument count on their own.
theorem words_of_line {netdev device : String} (hnetdev : ' ' ∉ netdev.toList) :
    (" ".intercalate ["-netdev", netdev, "-device", device]).toList.splitOn ' ' =
      "-netdev".toList :: netdev.toList :: "-device".toList :: device.toList.splitOn ' ' := by
  rw [String.toList_intercalate, List.map_cons]
  change ([' '].intercalate _).splitOn ' ' = _
  rw [Text.splitOn_flatMap (List.cons_ne_nil _ _)]
  have hfirst : ' ' ∉ "-netdev".toList := by decide
  have hthird : ' ' ∉ "-device".toList := by decide
  simp only [List.map_cons, List.map_nil, List.flatMap_cons, List.flatMap_nil, List.append_nil,
    List.splitOn_eq_singleton hfirst, List.splitOn_eq_singleton hnetdev, List.splitOn_eq_singleton hthird,
    List.singleton_append]

-- What the shell makes of the line of `vmforge net args`: cut at its blanks, it is a command line that
-- means the NIC the options ask for just when the model is a plain word.
theorem line_means_iff (args : List String) (opts : NetOpts) (text : String)
    (hparse : NetOpts.parse args = .ok opts) (hline : opts.netArgs = .ok (.line text)) :
    opts.nic.Means ((text.toList.splitOn ' ').map String.ofList) ↔
      ∀ c ∈ [' ', ',', '='], c ∉ opts.nic.model.toList := by
  obtain ⟨words, hwords, rfl⟩ := netArgs_eq_line hline
  obtain ⟨hid, hmac⟩ := qemuArgs_valid hwords
  obtain ⟨rfl, hcomma, hmaccomma⟩ := qemuArgs_eq_ok hwords
  have haddress := forwards_of_parse hparse
  have hblank := blank_notMem_netdev hid fun fwd hfwd => notMem_host (haddress fwd hfwd) rfl (by decide)
  rw [words_of_line hblank]
  have hnetdev := (netdev_means_iff hcomma).mpr fun fwd hfwd =>
    ⟨notMem_host (haddress fwd hfwd) rfl (by decide), notMem_host (haddress fwd hfwd) rfl (by decide)⟩
  have hchars : (∀ c ∈ [' ', ',', '='], c ∉ opts.nic.model.toList) ↔
      ' ' ∉ (UserNetBackend.device opts.nic).toList ∧ opts.nic.DeviceMeans (UserNetBackend.device opts.nic) := by
    rw [device_means_iff hcomma hmaccomma, blank_mem_device hid hmac]
    simp only [List.forall_mem_cons, List.not_mem_nil, false_implies, implies_true, and_true]
  rw [hchars]
  simp only [List.map_cons, String.ofList_toList]
  constructor
  · rintro ⟨netdev, device, hargs, -, hdevice⟩
    simp only [List.cons.injEq, true_and] at hargs
    obtain ⟨rfl, hlast⟩ := hargs
    -- A device argument with a blank falls into at least two words.
    obtain ⟨word, hword⟩ := List.map_eq_singleton_iff.mp hlast
    have hcount := Text.length_splitOn ' ' (UserNetBackend.device opts.nic).toList
    rw [hword.1, List.length_singleton] at hcount
    have hnone : ' ' ∉ (UserNetBackend.device opts.nic).toList := List.count_eq_zero.mp (by omega)
    refine ⟨hnone, ?_⟩
    rw [List.splitOn_eq_singleton hnone, List.map_singleton, String.ofList_toList] at hlast
    rwa [(List.cons.inj hlast).1]
  · rintro ⟨hnone, hdevice⟩
    rw [List.splitOn_eq_singleton hnone, List.map_singleton, String.ofList_toList]
    exact ⟨_, _, rfl, hnetdev, hdevice⟩

def sshOpts : NetOpts := { default with forwards := [⟨.tcp, none, 2222, 22⟩] }

def sshLine : String :=
  "-netdev user,id=net0,hostfwd=tcp:127.0.0.1:2222-:22 -device virtio-net-pci,netdev=net0"

theorem line_means_iff_ssh : sshOpts.nic.Means ((sshLine.toList.splitOn ' ').map String.ofList) :=
  (line_means_iff ["--forward", "2222:22"] sshOpts sshLine rfl rfl).mpr (by decide)

-- An ssh command is found for the options that name a port, or forward one to the guest's port 22.
theorem netSshCommand_isOk_iff (written : List Written) :
    (∃ command, (saying default written).netSshCommand = .ok command) ↔
      ∃ w ∈ written, w.hostPort?.isSome = true ∨ ∃ f, w.forward? = some f ∧ f.guestPort = 22 := by
  have hport : (∃ command, (saying default written).netSshCommand = .ok command) ↔
      (saying default written).sshPort.isSome = true := by
    unfold netSshCommand
    cases (saying default written).sshPort with
    | none => simp
    | some port => simp
  have hgiven : (written.filterMap Written.hostPort?).getLast?.isSome = true ↔
      ∃ w ∈ written, w.hostPort?.isSome = true := by
    simp [Option.isSome_iff_ne_none]
  have hfound : ((written.filterMap Written.forward?).find? fun f => f.guestPort = 22).isSome = true ↔
      ∃ w ∈ written, ∃ f, w.forward? = some f ∧ f.guestPort = 22 := by
    simp only [List.find?_isSome, List.mem_filterMap, decide_eq_true_eq]
    constructor
    · rintro ⟨f, ⟨w, hw, hf⟩, hguest⟩
      exact ⟨w, hw, f, hf, hguest⟩
    · rintro ⟨w, hw, f, hf, hguest⟩
      exact ⟨f, ⟨w, hw, hf⟩, hguest⟩
  rw [hport, sshPort, Option.isSome_or, Option.isSome_map, Bool.or_eq_true]
  simp only [saying, default, Option.or_none, List.nil_append, hgiven, hfound]
  constructor
  · rintro (⟨w, hw, hsome⟩ | ⟨w, hw, hf⟩)
    · exact ⟨w, hw, .inl hsome⟩
    · exact ⟨w, hw, .inr hf⟩
  · rintro ⟨w, hw, hsome | hf⟩
    · exact .inl ⟨w, hw, hsome⟩
    · exact .inr ⟨w, hw, hf⟩

end Printing

end NetOpts

end VMForge.Cli
