import VMForge.Engine.Qemu

namespace VMForge.Engine

open VMForge.Core Exec

variable {ρ : Type}

-- `PathBuf::join`
def join (dir name : String) : String :=
  if Path.isAbsolute name then name
  else if dir = "" ∨ dir.toList.getLast? = some '/' then dir ++ name
  else dir ++ "/" ++ name

-- How the client reads a reply.
def QmpReply.verdict (command : String) : QmpReply → Except HvError String
  | .returns status => .ok status
  | .error err => .error (.engine s!"QMP command '{command}' failed: {err}")

-- The end of the wait for a reply: reading fails, or the oldest reply is taken.
def receive (command : String) (failed : Option String) (replies : List QmpReply) :
    Except HvError String × List QmpReply :=
  match failed, replies with
  | none, r :: rest => (r.verdict command, rest)
  | none, [] => (.error (.engine "QMP connection closed by QEMU"), [])
  | some why, _ => (.error (.io why), replies)

namespace QemuVm

variable (site : Site ρ) (env : Env ρ)

-- What a command meets when it reaches QEMU.
def issue (step : Step) (c : Command) (s : Session ρ) : Session ρ :=
  let s := s.during site (env.acts step)
  { s with world := s.world.note (.command step c s.qemu s.world.files) }

-- What QEMU makes of a command, and its reply.
def respond (step : Step) (c : Command) (s : Session ρ) : QmpReply × Session ρ :=
  match (env.answer step).acts, s.carryOut site c with
  | true, some s' => (.returns (s'.qemu.status c), s')
  | _, _ => (.error (env.why step), s)

-- `QmpClient::execute`. The client takes the oldest reply for the one to its command, and when it
-- waits in vain all of them stay unread. A process that is gone does not get the command.
def execute (step : Step) (c : Command) : Exec (Session ρ) HvError String := fun s =>
  let s := issue site env step c s
  if s.qemu.alive then
    let (reply, s') := respond site env step c s
    let (r, unread) :=
      receive c.text (if (env.answer step).heard then none else some (env.why step))
        (s'.qemu.unread ++ [reply])
    (r, s'.setUnread unread)
  else (.error (.io "Broken pipe (os error 32)"), s)

-- The guest is left paused.
def spawn (inv : Invocation) : Exec (World ρ) HvError (Qemu ρ) := fun w =>
  let w := w.note (.spawned inv)
  if env.answer .spawn ≠ .done then
    (.error (.engine s!"failed to spawn {inv.binary}: {env.why .spawn}"), w)
  else if env.answer .handshake ≠ .done then
    (.error (.engine s!"QEMU failed to come up: {env.why .handshake}; stderr: "), w)
  else (.ok (Qemu.start site inv), w)

-- A command whose result does not matter.
def order (step : Step) (c : Command) : Exec (Session ρ) HvError Unit := do
  let _ ← execute site env step c
  pure ()

def status (poll : Nat) : Exec (Session ρ) HvError String :=
  execute site env (.queryStatus poll) .queryStatus

def cont : Exec (Session ρ) HvError Unit := order site env .cont .cont

def pause : Exec (Session ρ) HvError Unit := order site env .stop .stop

def queryMigrate (poll : Nat) : Exec (Session ρ) HvError String :=
  execute site env (.queryMigrate poll) .queryMigrate

-- The end of `wait_migration`'s loop: `none` goes round again.
def migrationVerdict (status : String) : Option (Except HvError Unit) :=
  if status = "completed" then some (.ok ())
  else if status = "failed" ∨ status = "cancelled" then
    some (.error (.engine s!"state migration failed: {status}"))
  else none

-- Each poll finds the migration as the environment says; after the last the deadline has passed.
def waitMigration : List Poll → Nat → Exec (Session ρ) HvError Unit
  | [], poll => do
      let status ← queryMigrate site env poll
      match migrationVerdict status with
      | some verdict => ofExcept verdict
      | none => raise (.engine "state migration timed out")
  | p :: polls, poll => do
      let s ← read
      put (s.endMigration site p)
      let status ← queryMigrate site env poll
      match migrationVerdict status with
      | some verdict => ofExcept verdict
      | none => waitMigration polls (poll + 1)

-- `std::fs::read` of the state file.
def readState (stateFile : String) : Exec (Session ρ) HvError ρ := fun s =>
  match env.answer .readState, s.world.files (site.locate stateFile) with
  | .done, some (.ram (some state)) => (.ok state, s)
  | _, _ => (.error (.io (env.why .readState)), s)

def overlayName (tag node : String) : String := s!"{tag}-{node}.qcow2"

def stateName (tag : String) : String := s!"{tag}-state.bin"

-- One `blockdev-snapshot-sync` for each block node.
def syncDisks (diskNodes : List String) (stateDir tag : String) :
    Exec (Session ρ) HvError (List String) :=
  mapEach diskNodes.zipIdx fun (node, i) => do
    let overlay := join stateDir (overlayName tag node)
    order site env (.sync i) (.blockdevSnapshotSync node overlay s!"{tag}-{node}")
    pure overlay

def snapshot (diskNodes : List String) (stateDir tag : String) :
    Exec (Session ρ) HvError SnapshotId := do
  let wasRunning := (← status site env 0) == "running"
  runIf wasRunning (pause site env)
  let overlays ← syncDisks site env diskNodes stateDir tag
  let stateFile := join stateDir (stateName tag)
  order site env .migrate (.migrate stateFile)
  waitMigration site env env.polls 0
  runIf wasRunning (cont site env)
  let state ← readState site env stateFile
  pure ⟨site.digest state overlays⟩

-- The end of `restore_incoming`'s loop: `none` goes round again.
def incomingVerdict (status : String) : Option (Except HvError Unit) :=
  if status = "inmigrate" then none
  else if status = "internal-error" ∨ status = "io-error" then
    some (.error (.engine "incoming state load failed"))
  else some (.ok ())

def waitIncoming (stateFile : String) : List Load → Nat → Exec (Session ρ) HvError Unit
  | [], poll => do
      let status ← status site env poll
      match incomingVerdict status with
      | some verdict => ofExcept verdict
      | none => raise (.engine "incoming state load timed out")
  | l :: loads, poll => do
      let s ← read
      put (s.load site stateFile l)
      let status ← status site env poll
      match incomingVerdict status with
      | some verdict => ofExcept verdict
      | none => waitIncoming stateFile loads (poll + 1)

def restoreIncoming (stateFile : String) : Exec (Session ρ) HvError Unit := do
  order site env .incoming (.migrateIncoming stateFile)
  waitIncoming site env stateFile env.loads 0

-- QEMU is asked to quit and killed when it does not. Only waiting for it can fail.
def quit : Exec (Session ρ) HvError Unit := do
  tryExcept (order site env .quit .quit) fun _ => pure ()
  raiseIf (env.answer .wait != .done) (.io (env.why .wait))

end QemuVm

end VMForge.Engine
