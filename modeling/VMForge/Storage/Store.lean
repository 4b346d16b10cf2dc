import VMForge.Storage.QemuImg

namespace VMForge.Storage

open Exec

def isNameStart (c : Char) : Bool := c.isAlphanum

def isNameChar (c : Char) : Bool := c.isAlphanum || c == '.' || c == '_' || c == '-'

-- `[A-Za-z0-9._-]*$`: the dollar sign also matches before one final newline.
def nameTailMatches : List Char → Bool
  | [] => true
  | c :: cs => if isNameChar c then nameTailMatches cs else c == '\n' && cs.isEmpty

-- `_NAME_RE.match(name)`
def nameMatches (name : String) : Bool :=
  match name.toList with
  | [] => false
  | c :: cs => isNameStart c && nameTailMatches cs

structure Snapshot where
  name : String
  path : Path
  parent : Option String
  children : List String
  current : Bool
  virtualSize : Nat
  actualSize : Nat

-- A store is opened on a resolved path.
structure DiskStore where
  home : Path
  legal : ∀ n ∈ home, Path.isComponent n = true

section

variable {β : Type}

def validateName (kind name : String) : Run β String := do
  raiseIf (!nameMatches name) (.storageError
    [.text "invalid ", .text kind, .text " name ", .repr (.str name),
      .text ": use letters, digits, '.', '_', '-'"] .invalidConfig)
  pure name

namespace DiskStore

variable (store : DiskStore) (host : Host β)

-- The layout without the checks on the names.
def imagesDir : Path := store.home ++ ["images"]

def imageFile (image : String) : Path := store.imagesDir ++ [image ++ ".qcow2"]

def vmsDir : Path := store.home ++ ["vms"]

def vmRoot (vm : String) : Path := store.vmsDir ++ [vm]

def disksDir (vm : String) : Path := store.vmRoot vm ++ ["disks"]

def diskFile (vm disk : String) : Path := store.disksDir vm ++ [disk ++ ".qcow2"]

def snapshotsDir (vm disk : String) : Path := store.vmRoot vm ++ ["snapshots", disk]

def snapshotFile (vm disk name : String) : Path :=
  store.snapshotsDir vm disk ++ [name ++ ".qcow2"]

def vmDir (vm : String) : Run β Path := do
  let vm ← validateName "vm" vm
  pure (store.vmRoot vm)

def diskPath (vm disk : String) : Run β Path := do
  let _ ← store.vmDir vm
  let disk ← validateName "disk" disk
  pure (store.diskFile vm disk)

def snapshotDir (vm disk : String) : Run β Path := do
  let _ ← store.vmDir vm
  let disk ← validateName "disk" disk
  pure (store.snapshotsDir vm disk)

def snapshotPath (vm disk name : String) : Run β Path := do
  let _ ← store.snapshotDir vm disk
  let name ← validateName "snapshot" name
  pure (store.snapshotFile vm disk name)

def requireDisk (vm disk : String) : Run β Path := do
  let path ← store.diskPath vm disk
  let found ← exists_ path
  raiseIf (!found) (.storageError [.text "disk not found: ", .path path] .notFound)
  pure path

def createDisk (vm disk size preallocation : String) (clusterSize : Option String) :
    Run β Path := do
  let path ← store.diskPath vm disk
  let found ← exists_ path
  raiseIf found (.storageError [.text "disk already exists: ", .path path] .alreadyExists)
  mkdirs path.dropLast
  createQcow2 host path (some size) none preallocation clusterSize
  pure path

def resizeDisk (vm disk newSize : String) (shrink : Bool) : Run β Unit := do
  let path ← store.requireDisk vm disk
  resize host path newSize shrink

def importImage (src name : String) (srcFormat : Option String) (compress : Bool) :
    Run β Path := do
  let srcPath := Path.ofString host.cwd src
  let found ← exists_ srcPath
  raiseIf (!found) (.storageError [.text "source image not found: ", .text src] .notFound)
  let name ← validateName "image" name
  let dst := store.imageFile name
  let taken ← exists_ dst
  raiseIf taken (.storageError [.text "image already exists: ", .path dst] .alreadyExists)
  mkdirs store.imagesDir
  convert host srcPath dst srcFormat compress
  pure dst

def importDisk (src vm disk : String) (srcFormat : Option String) : Run β Path := do
  let srcPath := Path.ofString host.cwd src
  let found ← exists_ srcPath
  raiseIf (!found) (.storageError [.text "source image not found: ", .text src] .notFound)
  let dst ← store.diskPath vm disk
  let taken ← exists_ dst
  raiseIf taken (.storageError [.text "disk already exists: ", .path dst] .alreadyExists)
  mkdirs dst.dropLast
  convert host srcPath dst srcFormat false
  pure dst

-- `images_dir / f"{base}.qcow2"`
def imageCandidate (base : String) : Path :=
  Path.ofString store.imagesDir (base ++ ".qcow2")

-- The file a clone is based on: `base` as a path, else as the name of an image.
def clonePath (base : String) : Run β Path := do
  let basePath := Path.ofString host.cwd base
  let found ← exists_ basePath
  if found then pure basePath
  else do
    let candidate := store.imageCandidate base
    let found ← exists_ candidate
    raiseIf (!found) (.storageError [.text "base image not found: ", .text base] .notFound)
    pure candidate

def cloneDisk (base vm disk : String) (size : Option String) : Run β Path := do
  let basePath ← store.clonePath host base
  let baseInfo ← info host basePath
  let dst ← store.diskPath vm disk
  let taken ← exists_ dst
  raiseIf taken (.storageError [.text "disk already exists: ", .path dst] .alreadyExists)
  mkdirs dst.dropLast
  createQcow2 host dst size (some (basePath, baseInfo.format)) "off" none
  pure dst

def deleteDisk (vm disk : String) (force : Bool) : Run β Unit := do
  let path ← store.requireDisk vm disk
  let snapDir ← store.snapshotDir vm disk
  let hasDir ← exists_ snapDir
  let names ← if hasDir then iterdir snapDir else pure []
  raiseIf (!names.isEmpty && !force) (.storageError
    [.text "disk ", .repr (.str disk),
      .text " has snapshots; delete them first or use force"] .invalidState)
  unlink path
  let hasDir ← exists_ snapDir
  runIf hasDir (rmtree snapDir)

def checkDisk (vm disk : String) : Run β CheckResult := do
  let path ← store.requireDisk vm disk
  check host path

-- `_snapshot_name_for` on the resolved snapshot directory
def nameIn (snapDir path : Path) : Option String :=
  if path.dropLast = snapDir ∧ Path.suffix (Path.name path) = ".qcow2" then
    some (Path.stem (Path.name path))
  else none

def snapshotNameFor (vm disk : String) (path : Path) : Run β (Option String) := do
  let snapDir ← store.snapshotDir vm disk
  pure (nameIn snapDir path)

-- The `Optional[str]` of `_snapshot_name_for(...) if backing else None`
def backingName (vm disk : String) : Option Path → Run β (Option String)
  | none => pure none
  | some backing => store.snapshotNameFor vm disk backing

def snapshotCreate (vm disk name : String) : Run β Snapshot := do
  let active ← store.requireDisk vm disk
  let snapPath ← store.snapshotPath vm disk name
  let taken ← exists_ snapPath
  raiseIf taken (.storageError [.text "snapshot already exists: ", .path snapPath] .alreadyExists)
  mkdirs snapPath.dropLast
  let activeInfo ← info host active
  rename active snapPath
  chmod snapPath 0o444
  tryExcept (createQcow2 host active none (some (snapPath, "qcow2")) "off" none) fun e => do
    chmod snapPath 0o644
    rename snapPath active
    raise e
  let parent ← store.backingName vm disk activeInfo.backingFile
  pure {
    name := name
    path := snapPath
    parent := parent
    children := []
    current := true
    virtualSize := activeInfo.virtualSize
    actualSize := activeInfo.actualSize }

-- The entry of one snapshot file, without its children.
def snapshotEntry (vm disk : String) (currentParent : Option String) (fileName : String) :
    Run β Snapshot := do
  let path := store.snapshotsDir vm disk ++ [fileName]
  let inf ← info host path
  let parent ← store.backingName vm disk inf.backingFile
  pure {
    name := Path.stem fileName
    path := path
    parent := parent
    children := []
    current := some (Path.stem fileName) == currentParent
    virtualSize := inf.virtualSize
    actualSize := inf.actualSize }

-- `snapshots[snap.name] = snap`
def insertSnapshot : List Snapshot → Snapshot → List Snapshot
  | [], snap => [snap]
  | head :: rest, snap =>
      if head.name = snap.name then snap :: rest else head :: insertSnapshot rest snap

def childrenOf (snaps : List Snapshot) (name : String) : List String :=
  (snaps.filter fun snap => snap.parent = some name ∧ name ≠ "").map Snapshot.name

def withChildren (snaps : List Snapshot) : List Snapshot :=
  snaps.map fun snap => { snap with children := childrenOf snaps snap.name }

def snapshotFileNames (fs : FileSystem β) (snapDir : Path) : List String :=
  if fs.exists_ snapDir then (fs.children snapDir).filter Path.isQcow2Name else []

def snapshotList (vm disk : String) : Run β (List Snapshot) := do
  let active ← store.requireDisk vm disk
  let snapDir ← store.snapshotDir vm disk
  let activeInfo ← info host active
  let currentParent ← store.backingName vm disk activeInfo.backingFile
  let w ← read
  let entries ← mapEach (snapshotFileNames w.fs snapDir)
    (store.snapshotEntry host vm disk currentParent)
  pure (withChildren (entries.foldl insertSnapshot []))

def getSnapshot (vm disk name : String) : Run β Snapshot := do
  let snaps ← store.snapshotList host vm disk
  match snaps.find? fun snap => snap.name = name with
  | some snap => pure snap
  | none => raise (.storageError
      [.text "snapshot not found: ", .repr (.str name), .text " (disk ", .repr (.str disk),
        .text ", vm ", .repr (.str vm), .text ")"] .notFound)

-- `active.with_suffix(".qcow2.reverting")`
def revertingPath (active : Path) : Path :=
  active.dropLast ++ [Path.stem (Path.name active) ++ ".qcow2.reverting"]

def snapshotRevert (vm disk name : String) : Run β Unit := do
  let active ← store.requireDisk vm disk
  let snap ← store.getSnapshot host vm disk name
  let tmp := revertingPath active
  createQcow2 host tmp none (some (snap.path, "qcow2")) "off" none
  rename tmp active

-- `self._get_snapshot(vm, disk, snap.parent).path if snap.parent else None`
def parentPath (vm disk : String) (parent : Option String) : Run β (Option Path) :=
  match parent.filter fun name => name != "" with
  | none => pure none
  | some name => do
      let snap ← store.getSnapshot host vm disk name
      pure (some snap.path)

-- The one child takes over the data of `snap` and is put on the parent of `snap`.
def squashInto (vm disk : String) (snap : Snapshot) (childName : String) : Run β Unit := do
  let child ← store.getSnapshot host vm disk childName
  let grandparent ← store.parentPath host vm disk snap.parent
  chmod child.path 0o644
  rebase host child.path grandparent false
  chmod child.path 0o444

def snapshotDelete (vm disk name : String) : Run β Unit := do
  let snap ← store.getSnapshot host vm disk name
  raiseIf snap.current (.storageError
    [.text "snapshot ", .repr (.str name),
      .text " is the base of the active disk; revert to another snapshot first"] .invalidState)
  match snap.children with
  | [] => pure ()
  | [childName] => store.squashInto host vm disk snap childName
  | _ => raise (.storageError
      [.text "snapshot ", .repr (.str name), .text " has multiple children (",
        .text (", ".intercalate snap.children), .text "); delete or merge them first"]
      .invalidState)
  chmod snap.path 0o644
  unlink snap.path

end DiskStore

end

end VMForge.Storage
