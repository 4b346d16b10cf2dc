import VMForge.Core.State
import VMForge.Base.Text
import VMForge.Base.Run
import VMForge.Base.Decimal

namespace VMForge.Core

-- The transport protocol of a port forward.
inductive Proto where
  | tcp
  | udp
deriving DecidableEq

def Proto.asStr : Proto → String
  | .tcp => "tcp"
  | .udp => "udp"

-- A rule for forwarding a host port; without a host address it binds 127.0.0.1.
structure PortForward where
  proto : Proto
  hostIp : Option String
  hostPort : UInt16
  guestPort : UInt16

-- `proto:hostip:hostport-:guestport`
def PortForward.toHostfwd (self : PortForward) : String :=
  let host := self.hostIp.getD "127.0.0.1"
  s!"{self.proto.asStr}:{host}:{self.hostPort.toNat}-:{self.guestPort.toNat}"

-- What the backend needs of a QMP connection: HMP commands, answered by a text.
structure QmpConn (σ : Type) where
  humanMonitorCommand : String → σ → Except HvError String × σ

namespace UserNetBackend

variable {σ : Type} (qmp : QmpConn σ)

-- Any text is taken for an error.
def outcome (command : String) : Except HvError String → Except HvError Unit
  | .error e => .error e
  | .ok out =>
      let text := Text.trim out.toList
      if text = [] then .ok ()
      else .error (.engine s!"{command} failed: {String.ofList text}")

def hostfwdAdd (nicId : String) (fwd : PortForward) (s : σ) : Except HvError Unit × σ :=
  let (out, s) := qmp.humanMonitorCommand s!"hostfwd_add {nicId} {fwd.toHostfwd}" s
  (outcome "hostfwd_add" out, s)

-- `proto:hostip:hostport`
def removeKey (fwd : PortForward) : String :=
  let host := fwd.hostIp.getD "127.0.0.1"
  s!"{fwd.proto.asStr}:{host}:{fwd.hostPort.toNat}"

def hostfwdRemove (nicId : String) (fwd : PortForward) (s : σ) : Except HvError Unit × σ :=
  let (out, s) := qmp.humanMonitorCommand s!"hostfwd_remove {nicId} {removeKey fwd}" s
  (outcome "hostfwd_remove" out, s)

end UserNetBackend

-- An IPv4 address.
structure Ipv4 where
  a : UInt8
  b : UInt8
  c : UInt8
  d : UInt8
deriving DecidableEq

def Ipv4.text (ip : Ipv4) : String := s!"{ip.a.toNat}.{ip.b.toNat}.{ip.c.toNat}.{ip.d.toNat}"

-- A forward that QEMU has set up.
structure Forward where
  netdev : List Char
  proto : Proto
  host : Ipv4
  hostPort : Nat
  guestPort : Nat
deriving DecidableEq

-- What decides over a new forward besides the table of forwards (the netdevs, the sockets of the
-- host), and the error text for one that is refused.
structure Qemu where
  admits : List Forward → Forward → Bool
  complaint : List Char → String
  visible : ∀ rule, ∃ c ∈ (complaint rule).toList, Text.isWhitespace c = false

namespace Qemu

def parseProto (text : List Char) : Option Proto :=
  if text = "tcp".toList then some .tcp else if text = "udp".toList then some .udp else none

def parseNumber (limit : Nat) (text : List Char) : Option Nat :=
  let n := Nat.ofDigitChars 10 text 0
  if text ≠ [] ∧ text.all Char.isDigit = true ∧ n < limit then some n else none

def parseHost (text : List Char) : Option Ipv4 :=
  match text.splitOn '.' with
  | [a, b, c, d] =>
      match parseNumber 256 a, parseNumber 256 b, parseNumber 256 c, parseNumber 256 d with
      | some a, some b, some c, some d =>
          some ⟨a.toUInt8, b.toUInt8, c.toUInt8, d.toUInt8⟩
      | _, _, _, _ => none
  | _ => none

-- The rule of `hostfwd_add`, with the guest's default address.
def parseRule (netdev rule : List Char) : Option Forward :=
  match rule.splitOn ':' with
  | [proto, host, ports, guestPort] =>
      match ports.splitOn '-' with
      | [hostPort, []] =>
          match parseProto proto, parseHost host, parseNumber 65536 hostPort,
              parseNumber 65536 guestPort with
          | some proto, some host, some hostPort, some guestPort =>
              some ⟨netdev, proto, host, hostPort, guestPort⟩
          | _, _, _, _ => none
      | _ => none
  | _ => none

-- The rule of `hostfwd_remove`: which forwards it is about.
def parseKey (netdev rule : List Char) : Option (Forward → Bool) :=
  match rule.splitOn ':' with
  | [proto, host, hostPort] =>
      match parseProto proto, parseHost host, parseNumber 65536 hostPort with
      | some proto, some host, some hostPort =>
          some fun f => f.netdev = netdev ∧ f.proto = proto ∧ f.host = host ∧ f.hostPort = hostPort
      | _, _, _ => none
  | _ => none

variable (Q : Qemu)

-- The monitor.
def command (line : String) (table : List Forward) : String × List Forward :=
  match line.toList.splitOn ' ' with
  | [verb, netdev, rule] =>
      if verb = "hostfwd_add".toList then
        match parseRule netdev rule with
        | some f => if Q.admits table f = true then ("", table ++ [f]) else (Q.complaint rule, table)
        | none => (Q.complaint rule, table)
      else if verb = "hostfwd_remove".toList then
        match parseKey netdev rule with
        | some key =>
            if table.any key = true then
              (s!"host forwarding rule for {String.ofList rule} removed\r\n", table.eraseP key)
            else (s!"host forwarding rule for {String.ofList rule} not found\r\n", table)
        | none => (s!"invalid host forwarding rule '{String.ofList rule}'\r\n", table)
      else (Q.complaint rule, table)
  | _ => (Q.complaint [], table)

def monitor : QmpConn (List Forward) where
  humanMonitorCommand line table := (.ok (Q.command line table).1, (Q.command line table).2)

end Qemu

end VMForge.Core
