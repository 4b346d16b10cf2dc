import VMForge.Storage.Platform

namespace VMForge.Storage

open Exec

structure ImageInfo where
  format : String
  virtualSize : Nat
  actualSize : Nat
  backingFile : Option Path
  backingFormat : Option String

structure CheckResult where
  ok : Bool
  corruptions : Nat
  leaks : Nat

section

variable {β : Type} (host : Host β)

-- Arguments of a process cannot hold null characters.
def hasNull (s : String) : Bool := s.toList.contains '\x00'

-- What the command wrote into its target. Nothing is written where no file can be.
def writeTarget (c : Command) : Option β → Run β Unit
  | none => pure ()
  | some b => do
      let w ← read
      raiseIf (createFault w.fs c.target).isSome (.qemuImgError c.args 1 "")
      record (.qemuImg c.target) (·.put c.target (.file ⟨b, modeAt w.fs c.target⟩))

def finish (c : Command) : Option QemuFailure → Run β Unit
  | none => pure ()
  | some failure => raise (.qemuImgError c.args failure.returncode failure.stderr)

def runQemuImg (c : Command) : Run β Unit := do
  raiseIf (c.args.any hasNull) .valueError
  let w ← read
  let reply := host.qemuImg.exec w c
  writeTarget c reply.content
  finish c reply.failure

-- `qemu_img.info(path)[0]`
def info (path : Path) : Run β ImageInfo := do
  let w ← read
  match host.qemuImg.info w path with
  | .error failure =>
      raise (.qemuImgError ["info", "--output=json", "--force-share", Path.toString path]
        failure.returncode failure.stderr)
  | .ok entry =>
      pure {
        format := entry.format
        virtualSize := entry.virtualSize
        actualSize := entry.actualSize
        backingFile := entry.backing.map Path.resolve
        backingFormat := entry.backingFormat }

def preallocationModes : List String := ["off", "metadata", "falloc", "full"]

def createQcow2 (path : Path) (size : Option String) (backing : Option (List String × String))
    (preallocation : String) (clusterSize : Option String) : Run β Unit := do
  raiseIf (!preallocationModes.contains preallocation) .valueError
  raiseIf (size.isNone && backing.isNone) .valueError
  runQemuImg host (.create path size backing preallocation
    (clusterSize.filter fun s => s != ""))

def resize (path : Path) (newSize : String) (shrink : Bool) : Run β Unit :=
  runQemuImg host (.resize path newSize shrink)

def convert (src dst : Path) (srcFormat : Option String) (compress : Bool) : Run β Unit :=
  runQemuImg host (.convert src dst (srcFormat.filter fun s => s != "") "qcow2" compress)

def rebase (path : Path) (newBacking : Option (List String)) (isUnsafe : Bool) : Run β Unit :=
  runQemuImg host (.rebase path (newBacking.map fun file => (file, "qcow2")) isUnsafe)

-- `qemu_img.check(path)`: exit code 1 or no output raises, 2 and 3 report damage.
def check (path : Path) : Run β CheckResult := do
  let w ← read
  match host.qemuImg.check w path with
  | .error failure =>
      raise (.qemuImgError ["check", "--output=json", "--force-share", Path.toString path]
        failure.returncode failure.stderr)
  | .ok report =>
      pure {
        ok := report.returncode == 0
        corruptions := report.corruptions
        leaks := report.leaks }

end

end VMForge.Storage
