import VMForge.Engine.Vm
import VMForge.Engine.Invocation

namespace VMForge.Hvf

open VMForge.Core Engine Exec

variable {ρ : Type}

-- What is on disk for one snapshot: the layers that were active when it was taken, and the
-- saved RAM and device state.
structure SnapshotArtifacts where
  diskBases : List String
  stateFile : String
  parent : Option SnapshotId
deriving DecidableEq

structure VmEntry (ρ : Type) where
  config : VmConfig
  state : VmState
  runtime : Option (Qemu ρ)
  dir : String
  -- A `u64`: no VM lives to see 2^64 snapshots and restores.
  snapshotSeq : Nat
  activeDisks : List String
  snapshots : SnapshotId → Option SnapshotArtifacts

namespace VmEntry

def setState (e : VmEntry ρ) (state : VmState) : VmEntry ρ := { e with state := state }

def setRuntime (e : VmEntry ρ) (runtime : Option (Qemu ρ)) : VmEntry ρ :=
  { e with runtime := runtime }

-- `entry.snapshot_seq += 1`
def nextSeq (e : VmEntry ρ) : VmEntry ρ := { e with snapshotSeq := e.snapshotSeq + 1 }

def setActiveDisks (e : VmEntry ρ) (disks : List String) : VmEntry ρ :=
  { e with activeDisks := disks }

-- `entry.snapshots.insert(id, artifacts)`
def insertSnapshot (e : VmEntry ρ) (id : SnapshotId) (artifacts : SnapshotArtifacts) : VmEntry ρ :=
  { e with snapshots := Function.update e.snapshots id (some artifacts) }

end VmEntry

-- One session of the backend, and the world around it.
structure HvfBackend (ρ : Type) where
  accel : Accel
  vms : String → Option (VmEntry ρ)
  world : World ρ

-- A VM while a call has its entry.
structure Machine (ρ : Type) where
  entry : VmEntry ρ
  world : World ρ

namespace Machine

def modify (f : VmEntry ρ → VmEntry ρ) : Exec (Machine ρ) HvError Unit := fun m =>
  (.ok (), { m with entry := f m.entry })

def onWorld {α : Type} (x : Exec (World ρ) HvError α) : Exec (Machine ρ) HvError α := fun m =>
  let (r, w) := x m.world
  (r, { m with world := w })

-- `entry.runtime.as_mut().ok_or(..)?.x()`
def onRuntime {α : Type} (x : Exec (Session ρ) HvError α) : Exec (Machine ρ) HvError α := fun m =>
  match m.entry.runtime with
  | none => (.error (.engine "VM has no running QEMU process"), m)
  | some qemu =>
      let (r, s) := x ⟨qemu, m.world⟩
      (r, ⟨m.entry.setRuntime (some s.qemu), s.world⟩)

-- Work on a process that a variable of the call owns: an error drops it.
def onOwned (qemu : Qemu ρ) (x : Exec (Session ρ) HvError Unit) :
    Exec (Machine ρ) HvError (Qemu ρ) := fun m =>
  match x ⟨qemu, m.world⟩ with
  | (.ok _, s) => (.ok s.qemu, { m with world := s.world })
  | (.error e, s) => (.error e, { m with world := s.world })

-- `if let Some(qemu) = entry.runtime.take() { qemu.quit()?; }`
def takeAndQuit (site : Site ρ) (env : Env ρ) : Exec (Machine ρ) HvError Unit := fun m =>
  match m.entry.runtime with
  | none => (.ok (), m)
  | some qemu =>
      let (r, s) := QemuVm.quit site env ⟨qemu, m.world⟩
      (r, ⟨m.entry.setRuntime none, s.world⟩)

-- `HvfBackend::transition`
def transition (op : VmOp) : Exec (Machine ρ) HvError Unit := do
  let m ← read
  match ← ofExcept (m.entry.state.transition op) with
  | some state => modify (·.setState state)
  | none => pure ()

end Machine

open Machine

section Operations

variable (site : Site ρ) (env : Env ρ) (accel : Accel)

def invocationFor (entry : VmEntry ρ) : Except HvError Invocation :=
  buildAarch64Virt site { entry.config with disks := entry.activeDisks } accel
    (join entry.dir "qmp.sock")

-- A relative backing path starts from the overlay's directory.
def backingOf (base overlay : String) : Path :=
  Path.ofString (site.locate overlay).dropLast base

-- `qemu-img create -f qcow2 -F qcow2 -b base overlay`. It opens the backing file for its size.
def createOverlay (disk : Nat) (base overlay : String) : Exec (World ρ) HvError Unit := fun w =>
  let w' := w.note (.createdOverlay base overlay w.files)
  let backing := backingOf site base overlay
  match env.answer (.createOverlay disk), w.files.layer backing with
  | .done, some l => (.ok (), w'.put (site.locate overlay) (.image (hollow l.size backing)))
  | .lost, some l =>
      (.error (.engine s!"qemu-img create overlay failed: {env.why (.createOverlay disk)}"),
        w'.put (site.locate overlay) (.image (hollow l.size backing)))
  | _, _ =>
      (.error (.engine s!"qemu-img create overlay failed: {env.why (.createOverlay disk)}"), w')

def boot : Exec (Machine ρ) HvError Unit := do
  let m ← read
  let _ ← ofExcept (m.entry.state.transition .boot)
  let inv ← ofExcept (invocationFor site accel m.entry)
  let qemu ← onWorld (QemuVm.spawn site env inv)
  let qemu ← onOwned qemu (QemuVm.cont site env)
  modify (·.setRuntime (some qemu))
  transition .boot

def pause : Exec (Machine ρ) HvError Unit := do
  let m ← read
  let _ ← ofExcept (m.entry.state.transition .pause)
  onRuntime (QemuVm.pause site env)
  transition .pause

def resume : Exec (Machine ρ) HvError Unit := do
  let m ← read
  let _ ← ofExcept (m.entry.state.transition .resume)
  onRuntime (QemuVm.cont site env)
  transition .resume

def stop : Exec (Machine ρ) HvError Unit := do
  let m ← read
  let _ ← ofExcept (m.entry.state.transition .stop)
  takeAndQuit site env
  transition .stop

def snapTag (seq : Nat) : String := s!"snap{seq}"

def branchTag (seq : Nat) : String := s!"branch{seq}"

def overlayPath (entry : VmEntry ρ) (tag : String) (disk : Nat) : String :=
  join entry.dir (QemuVm.overlayName tag (nodeName disk))

def statePath (entry : VmEntry ρ) (tag : String) : String :=
  join entry.dir (QemuVm.stateName tag)

def diskNodes (entry : VmEntry ρ) : List String :=
  (List.range entry.config.disks.length).map nodeName

-- A parent that is given has to be known.
def checkParent (parent : Option SnapshotId) : Exec (Machine ρ) HvError Unit := do
  let m ← read
  match parent with
  | some p => raiseIf (m.entry.snapshots p).isNone (.snapshotNotFound p.text)
  | none => pure ()

def snapshot (parent : Option SnapshotId) : Exec (Machine ρ) HvError SnapshotId := do
  checkParent parent
  let prior := (← read).entry.state
  transition .snapshotBegin
  modify VmEntry.nextSeq
  let entry := (← read).entry
  let tag := snapTag entry.snapshotSeq
  let nodes := diskNodes entry
  let diskBases := entry.activeDisks
  let result ← attempt (onRuntime (QemuVm.snapshot site env nodes entry.dir tag))
  transition (.snapshotEnd prior)
  let id ← ofExcept result
  modify (·.setActiveDisks (nodes.map fun node => join entry.dir (QemuVm.overlayName tag node)))
  modify (·.insertSnapshot id ⟨diskBases, statePath entry tag, parent⟩)
  pure id

-- One overlay for each frozen layer of a snapshot.
def createOverlays (entry : VmEntry ρ) (branch : String) (diskBases : List String) :
    Exec (World ρ) HvError (List String) :=
  mapEach diskBases.zipIdx fun (base, i) => do
    let overlay := overlayPath entry branch i
    createOverlay site env i base overlay
    pure overlay

-- Start a process from a saved state.
def launch (inv : Invocation) (stateFile : String) : Exec (Machine ρ) HvError (Qemu ρ) := do
  let qemu ← onWorld (QemuVm.spawn site env inv.withIncomingDefer)
  onOwned qemu do
    QemuVm.restoreIncoming site env stateFile
    QemuVm.cont site env

def restore (snapshot : SnapshotId) : Exec (Machine ρ) HvError Unit := do
  let m ← read
  let _ ← ofExcept (m.entry.state.transition .restore)
  match m.entry.snapshots snapshot with
  | none => raise (.snapshotNotFound snapshot.text)
  | some artifacts => do
    takeAndQuit site env
    modify VmEntry.nextSeq
    let entry := (← read).entry
    let branch := branchTag entry.snapshotSeq
    let overlays ← onWorld (createOverlays site env entry branch artifacts.diskBases)
    modify (·.setActiveDisks overlays)
    let m ← read
    let inv ← ofExcept (invocationFor site accel m.entry)
    let qemu ← launch site env inv artifacts.stateFile
    modify (·.setRuntime (some qemu))
    transition .restore

end Operations

-- `std::fs::create_dir`, where a directory that is there will do.
def createDir (env : Env ρ) (depth : Nat) (p : Path) : Exec (World ρ) HvError Unit := fun w =>
  match w.files p, (env.answer (.createDir depth)).acts with
  | some .dir, _ => (.ok (), w)
  | none, true => (.ok (), w.put p .dir)
  | _, _ => (.error (.io (env.why (.createDir depth))), w)

-- Each name is a directory in the one before it, also where `..` leaves it again.
def createDirs (env : Env ρ) : List String → Path → Nat → Exec (World ρ) HvError Unit
  | [], _, _ => pure ()
  | n :: names, here, depth =>
      if n = ".." then createDirs env names here.dropLast (depth + 1)
      else do
        createDir env depth (here ++ [n])
        createDirs env names (here ++ [n]) (depth + 1)

-- `std::fs::create_dir_all`
def createDirAll (site : Site ρ) (env : Env ρ) (s : String) : Exec (World ρ) HvError Unit :=
  if '\x00' ∈ s.toList then raise (.io "file name contained an unexpected NUL byte")
  else createDirs env (Path.parts s) (if Path.isAbsolute s then [] else Path.resolve site.cwd) 0

inductive Call where
  | create (config : VmConfig)
  | boot (vm : String)
  | pause (vm : String)
  | resume (vm : String)
  | stop (vm : String)
  | snapshot (vm : String) (parent : Option SnapshotId)
  | restore (vm : String) (snapshot : SnapshotId)
  | delete (vm : String)
  | state (vm : String)
deriving DecidableEq

inductive Reply where
  | unit
  | handle (vm : String)
  | snapshot (id : SnapshotId)
  | state (state : VmState)
deriving DecidableEq

namespace HvfBackend

-- `vms.get_mut(&vm.id).ok_or(VmNotFound)?`, and the entry at the end of the call.
def withVm {α : Type} (vm : String) (x : Exec (Machine ρ) HvError α) :
    Exec (HvfBackend ρ) HvError α := fun b =>
  match b.vms vm with
  | none => (.error (.vmNotFound vm), b)
  | some entry =>
      let (r, m) := x ⟨entry, b.world⟩
      (r, { b with vms := Function.update b.vms vm (some m.entry), world := m.world })

def onWorld {α : Type} (x : Exec (World ρ) HvError α) : Exec (HvfBackend ρ) HvError α := fun b =>
  let (r, w) := x b.world
  (r, { b with world := w })

variable (site : Site ρ) (env : Env ρ)

def vmDir (name : String) : String := join site.home name

def newEntry (config : VmConfig) : VmEntry ρ where
  config := config
  state := .defined
  runtime := none
  dir := vmDir site config.name
  snapshotSeq := 0
  activeDisks := config.disks
  snapshots _ := none

def create (config : VmConfig) : Exec (HvfBackend ρ) HvError String := do
  let b ← read
  raiseIf (b.vms config.name).isSome (.engine s!"VM '{config.name}' already exists")
  let dir := vmDir site config.name
  onWorld (createDirAll site env dir)
  let _ ← ofExcept (buildAarch64Virt site config b.accel (join dir "qmp.sock"))
  let b ← read
  put { b with vms := Function.update b.vms config.name (some (newEntry site config)) }
  pure config.name

def delete (vm : String) : Exec (HvfBackend ρ) HvError Unit := do
  let b ← read
  match b.vms vm with
  | none => raise (.vmNotFound vm)
  | some entry => do
    let _ ← ofExcept (entry.state.transition .delete)
    put { b with vms := Function.update b.vms vm none }

def state (vm : String) : Exec (HvfBackend ρ) HvError VmState := do
  let b ← read
  match b.vms vm with
  | none => raise (.vmNotFound vm)
  | some entry => pure entry.state

def run : Call → Exec (HvfBackend ρ) HvError Reply
  | .create config => do
      let vm ← create site env config
      pure (.handle vm)
  | .boot vm => do
      let b ← read
      withVm vm (Hvf.boot site env b.accel)
      pure .unit
  | .pause vm => do
      withVm vm (Hvf.pause site env)
      pure .unit
  | .resume vm => do
      withVm vm (Hvf.resume site env)
      pure .unit
  | .stop vm => do
      withVm vm (Hvf.stop site env)
      pure .unit
  | .snapshot vm parent => do
      let id ← withVm vm (Hvf.snapshot site env parent)
      pure (.snapshot id)
  | .restore vm snapshot => do
      let b ← read
      withVm vm (Hvf.restore site env b.accel snapshot)
      pure .unit
  | .delete vm => do
      delete vm
      pure .unit
  | .state vm => do
      let s ← state vm
      pure (.state s)

end HvfBackend

-- What can happen next: a call, something a guest does, the end of a migration that no call
-- waits for any more, and a new session, which finds the files of the old one.
inductive Turn (ρ : Type) where
  | call (c : Call) (env : Env ρ)
  | guest (vm : String) (acts : List (Act ρ))
  | migrationEnds (vm : String) (poll : Poll)
  | session (accel : Accel)

namespace HvfBackend

-- What a process does while no call is running.
def idle (f : Session ρ → Session ρ) (vm : String) : Exec (HvfBackend ρ) HvError Unit :=
  withVm vm (onRuntime (update f))

def turn (site : Site ρ) (b : HvfBackend ρ) : Turn ρ → HvfBackend ρ
  | .call c env => (run site env c b).2
  | .guest vm acts => (idle (·.during site acts) vm b).2
  | .migrationEnds vm poll => (idle (·.endMigration site poll) vm b).2
  | .session accel => ⟨accel, fun _ => none, b.world⟩

-- A new backend on a home directory with anything in it.
def new (accel : Accel) (files : Files ρ) : HvfBackend ρ := ⟨accel, fun _ => none, ⟨files, []⟩⟩

end HvfBackend

-- A host with one disk image of four bytes, and calls whose steps end well but for those named.
namespace Sample

def site : Site Nat where
  cwd := ["work"]
  home := "/srv"
  binary := "qemu-system-aarch64"
  firmware := "edk2-aarch64-code.fd"
  blank := 0
  digest := fun state overlays => toString state ++ String.join overlays

def files : Files Nat := fun p =>
  if p = ["data", "root.qcow2"] then some (.image ⟨4, fun _ => some 0, none⟩)
  else if p = [] ∨ p = ["srv"] then some .dir
  else none

def config : VmConfig where
  name := "web"
  arch := .aarch64
  vcpus := 1
  memoryMib := 512
  disks := ["/data/root.qcow2"]
  gpu3d := false

def envBut (failing : List (Step × Answer)) : Env Nat where
  answer step := ((failing.find? fun (s, _) => s = step).map (·.2)).getD .done
  why _ := ""
  acts _ := []
  polls := [.completed]
  loads := [.loaded]

def calls (cs : List (Call × List (Step × Answer))) : List (Turn Nat) :=
  cs.map fun (c, failing) => .call c (envBut failing)

end Sample

end VMForge.Hvf
