import VMForge.Base.Exec
import VMForge.Base.Path
import VMForge.Base.Overlay
import VMForge.Core.State
import Mathlib.Logic.Function.Basic

namespace VMForge.Engine

open VMForge.Core

-- What a path leads to. The RAM and device state of a guest is `none` while it is being
-- written. A backing file is given by its path.
inductive Item (ρ : Type) where
  | dir
  | image (layer : Layer Path)
  | ram (state : Option ρ)
  | other

abbrev Files (ρ : Type) := Path → Option (Item ρ)

-- What the backend finds on its host: the working directory, `VMFORGE_HOME`, the program and
-- the firmware it starts, what the RAM of a fresh guest holds, and the hash of a saved state
-- with its overlay paths.
structure Site (ρ : Type) where
  cwd : Path
  home : String
  binary : String
  firmware : String
  blank : ρ
  digest : ρ → List String → String

inductive RunState where
  | prelaunch
  | running
  | paused
  | inmigrate
  | postmigrate
  | internalError
deriving DecidableEq

-- What `query-status` calls it.
def RunState.text : RunState → String
  | .prelaunch => "prelaunch"
  | .running => "running"
  | .paused => "paused"
  | .inmigrate => "inmigrate"
  | .postmigrate => "postmigrate"
  | .internalError => "internal-error"

-- The outgoing migration, and what `query-migrate` calls it.
inductive Migration where
  | none
  | active (stateFile : String)
  | completed
  | failed
  | cancelled
deriving DecidableEq

def Migration.text : Migration → String
  | .none => ""
  | .active _ => "active"
  | .completed => "completed"
  | .failed => "failed"
  | .cancelled => "cancelled"

-- A block node and the file it keeps its data in.
structure Block where
  node : String
  file : String
deriving DecidableEq

-- The chain of a disk: the node the guest writes to, and the nodes that back it.
structure Disk where
  top : Block
  below : List Block
deriving DecidableEq

-- What QEMU answers to a command: the `status` of what it returns, which is empty where there is
-- none, or an error.
inductive QmpReply where
  | returns (status : String)
  | error (err : String)
deriving DecidableEq

-- A QEMU process, and the replies on its connection that no command has taken yet.
structure Qemu (ρ : Type) where
  alive : Bool
  runState : RunState
  disks : List Disk
  migration : Migration
  ram : ρ
  unread : List QmpReply

inductive Command where
  | cont
  | stop
  | queryStatus
  | blockdevSnapshotSync (nodeName snapshotFile snapshotNodeName : String)
  | migrate (stateFile : String)
  | queryMigrate
  | migrateIncoming (stateFile : String)
  | quit
deriving DecidableEq

def Command.text : Command → String
  | .cont => "cont"
  | .stop => "stop"
  | .queryStatus => "query-status"
  | .blockdevSnapshotSync .. => "blockdev-snapshot-sync"
  | .migrate _ => "migrate"
  | .queryMigrate => "query-migrate"
  | .migrateIncoming _ => "migrate-incoming"
  | .quit => "quit"

-- The places where a call waits for the host or for QEMU. A step that a call can come to
-- several times is numbered.
inductive Step where
  | createDir (depth : Nat)
  | createOverlay (disk : Nat)
  | spawn
  | handshake
  | cont
  | stop
  | queryStatus (poll : Nat)
  | sync (disk : Nat)
  | migrate
  | queryMigrate (poll : Nat)
  | readState
  | incoming
  | quit
  | wait
deriving DecidableEq

-- How a step ends: as asked, without effect and with an error, or with an error that comes of
-- waiting in vain, with its effect or without.
inductive Answer where
  | done
  | refused
  | lost
  | missed
deriving DecidableEq

namespace Answer

-- The step has its effect.
def acts (a : Answer) : Bool := a = .done ∨ a = .lost

-- Its end is heard of.
def heard (a : Answer) : Bool := a = .done ∨ a = .refused

end Answer

-- What a process does of its own accord.
inductive Act (ρ : Type) where
  | write (disk offset : Nat) (byte : UInt8)
  | ram (state : ρ)
  | exit

-- How an outgoing migration stands when it is asked about.
inductive Poll where
  | active
  | completed
  | failed
  | cancelled
deriving DecidableEq

-- How the loading of a saved state stands when it is asked about.
inductive Load where
  | loading
  | loaded
  | failed
deriving DecidableEq

-- All that a call meets: how its steps end and why, what QEMU does before each of them, and
-- what it finds each time it asks, up to the deadline, about a migration or about the loading
-- of a state.
structure Env (ρ : Type) where
  answer : Step → Answer
  why : Step → String
  acts : Step → List (Act ρ)
  polls : List Poll
  loads : List Load

-- A device of the command line: `-blockdev` and its `virtio-blk-pci`, or any other.
inductive Arg where
  | flag (name : String)
  | opt (name value : String)
  | disk (nodeName filename : String)
deriving DecidableEq

-- The words of the command line an argument stands for.
def Arg.words : Arg → List String
  | .flag name => [name]
  | .opt name value => [name, value]
  | .disk nodeName filename =>
      ["-blockdev", "driver=qcow2,node-name=" ++ nodeName ++ ",file.driver=file,file.filename="
        ++ filename, "-device", "virtio-blk-pci,drive=" ++ nodeName]

structure Invocation where
  binary : String
  args : List Arg
  qmpSocket : String
deriving DecidableEq

namespace Invocation

def withIncomingDefer (inv : Invocation) : Invocation :=
  { inv with args := inv.args ++ [.opt "-incoming" "defer"] }

-- The disks QEMU opens, in order.
def disks (inv : Invocation) : List Disk :=
  inv.args.filterMap fun
    | .disk nodeName filename => some ⟨⟨nodeName, filename⟩, []⟩
    | _ => none

def incomingDefer (inv : Invocation) : Bool := inv.args.contains (.opt "-incoming" "defer")

end Invocation

-- What a call did to its surroundings, and what it found there when it did it.
inductive Event (ρ : Type) where
  | spawned (inv : Invocation)
  | command (step : Step) (command : Command) (qemu : Qemu ρ) (files : Files ρ)
  | createdOverlay (base overlay : String) (files : Files ρ)

structure World (ρ : Type) where
  files : Files ρ
  log : List (Event ρ)

-- A QEMU process and its surroundings. The process lives as long as the `QemuVm` that owns
-- it: quitting and dropping end it.
structure Session (ρ : Type) where
  qemu : Qemu ρ
  world : World ρ

variable {ρ : Type}

def Files.layer (fs : Files ρ) (p : Path) : Option (Layer Path) :=
  match fs p with
  | some (.image l) => some l
  | _ => none

def Site.locate (site : Site ρ) (s : String) : Path := Path.ofString site.cwd s

namespace World

def put (w : World ρ) (p : Path) (x : Item ρ) : World ρ :=
  { w with files := Function.update w.files p (some x) }

def note (w : World ρ) (e : Event ρ) : World ρ := { w with log := w.log ++ [e] }

-- Write one byte of the layer at `p`.
def poke (w : World ρ) (p : Path) (offset : Nat) (byte : UInt8) : World ρ :=
  match w.files.layer p with
  | some l =>
      if offset < l.size then
        w.put p (.image { l with data := Function.update l.data offset (some byte) })
      else w
  | none => w

end World

-- A layer that holds nothing itself.
def hollow (size : Nat) (backing : Path) : Layer Path := ⟨size, fun _ => none, some backing⟩

namespace Qemu

-- A process as it comes up: paused, with one node for each disk.
def start (site : Site ρ) (inv : Invocation) : Qemu ρ where
  alive := true
  runState := if inv.incomingDefer then .inmigrate else .prelaunch
  disks := inv.disks
  migration := .none
  ram := site.blank
  unread := []

-- The files that take the guest's writes, disk by disk.
def tops (q : Qemu ρ) : List String := q.disks.map (·.top.file)

def vcpusRunning (q : Qemu ρ) : Bool := q.runState == .running

-- The `status` of what a command returns.
def status (q : Qemu ρ) : Command → String
  | .queryStatus => q.runState.text
  | .queryMigrate => q.migration.text
  | _ => ""

end Qemu

-- Put `new` on top of the chain whose top is `node`. A node that backs another is no top, and
-- QEMU refuses it.
def switchTop (node : String) (new : Block) : List Disk → Option (Block × List Disk)
  | [] => none
  | d :: ds =>
      if d.top.node = node then some (d.top, ⟨new, d.top :: d.below⟩ :: ds)
      else (switchTop node new ds).map fun r => (r.1, d :: r.2)

namespace Session

def setUnread (s : Session ρ) (unread : List QmpReply) : Session ρ :=
  { s with qemu := { s.qemu with unread := unread } }

def act (site : Site ρ) (s : Session ρ) : Act ρ → Session ρ
  | .write disk offset byte =>
      if s.qemu.alive && s.qemu.vcpusRunning then
        match s.qemu.tops[disk]? with
        | some file => { s with world := s.world.poke (site.locate file) offset byte }
        | none => s
      else s
  | .ram state =>
      if s.qemu.alive && s.qemu.vcpusRunning then { s with qemu := { s.qemu with ram := state } }
      else s
  | .exit => { s with qemu := { s.qemu with alive := false } }

def during (site : Site ρ) (s : Session ρ) (acts : List (Act ρ)) : Session ρ :=
  acts.foldl (act site) s

-- The outgoing migration ends. Only one that has completed leaves the guest halted.
def endMigration (site : Site ρ) (s : Session ρ) (poll : Poll) : Session ρ :=
  match s.qemu.migration, poll with
  | .active file, .completed =>
      { qemu := { s.qemu with migration := .completed, runState := .postmigrate }
        world := s.world.put (site.locate file) (.ram (some s.qemu.ram)) }
  | .active _, .failed => { s with qemu := { s.qemu with migration := .failed } }
  | .active _, .cancelled => { s with qemu := { s.qemu with migration := .cancelled } }
  | _, _ => s

-- The loading of a saved state goes on. A guest started with `-S` is paused after it.
def load (site : Site ρ) (s : Session ρ) (stateFile : String) : Load → Session ρ
  | .loading => s
  | .loaded =>
      match s.world.files (site.locate stateFile) with
      | some (.ram (some state)) =>
          { s with qemu := { s.qemu with ram := state, runState := .paused } }
      | _ => { s with qemu := { s.qemu with runState := .internalError } }
  | .failed => { s with qemu := { s.qemu with runState := .internalError } }

-- What QEMU does on a command. It refuses what it cannot do and then does nothing.
def carryOut (site : Site ρ) (s : Session ρ) : Command → Option (Session ρ)
  | .cont => some { s with qemu := { s.qemu with runState := .running } }
  | .stop =>
      if s.qemu.vcpusRunning then some { s with qemu := { s.qemu with runState := .paused } }
      else some s
  | .blockdevSnapshotSync nodeName snapshotFile snapshotNodeName =>
      match switchTop nodeName ⟨snapshotNodeName, snapshotFile⟩ s.qemu.disks with
      | none => none
      | some (old, disks) =>
          let below := site.locate old.file
          let size := ((s.world.files.layer below).map (·.size)).getD 0
          some
            { qemu := { s.qemu with disks := disks }
              world := s.world.put (site.locate snapshotFile) (.image (hollow size below)) }
  | .migrate stateFile =>
      match s.qemu.migration with
      | .active _ => none
      | _ =>
          some
            { qemu := { s.qemu with migration := .active stateFile }
              world := s.world.put (site.locate stateFile) (.ram none) }
  | .migrateIncoming _ => if s.qemu.runState = .inmigrate then some s else none
  | .quit => some { s with qemu := { s.qemu with alive := false } }
  | .queryStatus => some s
  | .queryMigrate => some s

end Session

end VMForge.Engine
