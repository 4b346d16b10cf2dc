import VMForge.Storage.Manifest
import Mathlib.Algebra.GroupWithZero.Nat

namespace VMForge.Storage

open Exec

structure BackupResult where
  bundle : Path
  vm : String
  disks : List String
  files : Nat
  totalBytes : Nat

-- The logical parent of a layer.
inductive ParentRef where
  | snapshot (name : String)
  | image (path : String)
deriving DecidableEq

-- `_file_record`
structure FileRecord where
  path : String
  sha256 : String
  size : Nat

structure LayerRecord where
  file : FileRecord
  parent : Option ParentRef

structure SnapshotRecord where
  name : String
  layer : LayerRecord

structure DiskEntry where
  active : Option LayerRecord
  current : Option String
  snapshots : List SnapshotRecord

structure Manifest where
  vm : String
  created : String
  disks : List (String × DiskEntry)
  images : List FileRecord
  config : List FileRecord

def jsonOfOption : Option String → Json
  | some s => .str s
  | none => .null

def ParentRef.toJson : Option ParentRef → Json
  | none => .null
  | some (.snapshot name) => .obj [("snapshot", .str name)]
  | some (.image path) => .obj [("image", .str path)]

def FileRecord.toJson (r : FileRecord) : Json :=
  .obj [("path", .str r.path), ("sha256", .str r.sha256), ("size", .int r.size)]

-- `{"path", "parent"}` updated with the file record
def LayerRecord.toJson (r : LayerRecord) : Json :=
  .obj [("path", .str r.file.path), ("parent", ParentRef.toJson r.parent),
    ("sha256", .str r.file.sha256), ("size", .int r.file.size)]

-- `{"name", "path", "parent"}` updated with the file record
def SnapshotRecord.toJson (r : SnapshotRecord) : Json :=
  .obj [("name", .str r.name), ("path", .str r.layer.file.path),
    ("parent", ParentRef.toJson r.layer.parent),
    ("sha256", .str r.layer.file.sha256), ("size", .int r.layer.file.size)]

def DiskEntry.toJson (e : DiskEntry) : Json :=
  .obj [("active", (e.active.map LayerRecord.toJson).getD .null),
    ("current", jsonOfOption e.current),
    ("snapshots", .arr (e.snapshots.map SnapshotRecord.toJson))]

def Manifest.toJson (m : Manifest) : Json :=
  .obj [("schema_version", .int 1), ("contract_version", .int 1), ("vm", .str m.vm),
    ("created", .str m.created),
    ("disks", .obj (m.disks.map fun d => (d.1, d.2.toJson))),
    ("images", .arr (m.images.map FileRecord.toJson)),
    ("config", .arr (m.config.map FileRecord.toJson))]

-- `d[k] = path` for the dictionaries `sources` and `images`
def setPath : List (String × Path) → String → Path → List (String × Path)
  | [], k, path => [(k, path)]
  | (k', path') :: rest, k, path =>
      if k' = k then (k, path) :: rest else (k', path') :: setPath rest k path

def getPath : List (String × Path) → String → Option Path
  | [], _ => none
  | (k', path) :: rest, k => if k' = k then some path else getPath rest k

-- The dictionaries that `backup` fills: archive path to source file, and image file name
-- to source path.
structure Collected where
  sources : List (String × Path)
  images : List (String × Path)

def Collected.addSource (c : Collected) (arc : String) (path : Path) : Collected :=
  { c with sources := setPath c.sources arc path }

def Collected.addImage (c : Collected) (name : String) (path : Path) : Collected :=
  { c with images := setPath c.images name path }

-- A layer as `_collect_disk` describes it, before its file record is known.
structure PendingLayer where
  arc : String
  parent : Option ParentRef

structure PendingDisk where
  active : Option PendingLayer
  current : Option String
  snapshots : List (String × PendingLayer)

-- The `while` loop over the ancestors of a snapshot. It stops at a name that is not listed;
-- `fuel` bounds its turns, and running out of it stands for a loop that never ends.
def ancestorWalk (snaps : List Snapshot) : Nat → String → Option (List String)
  | 0, _ => none
  | fuel + 1, cursor =>
      match snaps.find? fun snap => snap.name = cursor with
      | none => some [cursor]
      | some snap =>
          match snap.parent with
          | none => some [cursor]
          | some parent =>
              if snaps.any fun other => other.name = parent then
                (ancestorWalk snaps fuel parent).map (cursor :: ·)
              else some [cursor]

section

variable {β : Type} (host : Host β) (store : DiskStore)

-- `_backing_ref`
def backingRef (path : Path) (snaps : List Snapshot) (only : List String) (acc : Collected) :
    Run β (Option ParentRef × Collected) := do
  let inf ← info host path
  match inf.backingFile with
  | none => pure (none, acc)
  | some backing =>
      match snaps.find? fun snap => snap.path = backing with
      | some snap => do
          raiseIf (!only.contains snap.name) (.storageError
            [.text "layer ", .text (Path.name path), .text " is backed by snapshot ",
              .repr (.str snap.name), .text " which is outside the exported chain"]
            .invalidState)
          pure (some (.snapshot snap.name), acc)
      | none => do
          let imageName := Path.name backing
          let clash := (getPath acc.images imageName).any fun known => known ≠ backing
          raiseIf clash (.storageError
            [.text "two distinct base images share the file name ", .repr (.str imageName)]
            .invalidState)
          pure (some (.image ("images/" ++ imageName)), acc.addImage imageName backing)

-- One turn of the loop over the snapshots of a disk that are to be exported.
def collectSnapshot (disk : String) (snaps : List Snapshot) (only : List String)
    (acc : List (String × PendingLayer) × Collected) (name : String) :
    Run β (List (String × PendingLayer) × Collected) := do
  match snaps.find? fun snap => snap.name = name with
  | none => raise .keyError
  | some snap => do
      let arc := "snapshots/" ++ disk ++ "/" ++ name ++ ".qcow2"
      let (parent, collected) ← backingRef host snap.path snaps only
        (acc.2.addSource arc snap.path)
      pure (acc.1 ++ [(name, ⟨arc, parent⟩)], collected)

-- Which snapshots a backup of a disk exports, and which of them becomes current.
def selectSnapshots (vm disk : String) (snapshot : Option String) (snaps : List Snapshot) :
    Run β (List String × Bool × Option String) :=
  match snapshot with
  | none => pure (snaps.map Snapshot.name, true, (snaps.find? Snapshot.current).map Snapshot.name)
  | some name => do
      raiseIf (!snaps.any fun snap => snap.name = name) (.storageError
        [.text "snapshot not found: ", .repr (.str name), .text " (disk ", .repr (.str disk),
          .text ", vm ", .repr (.str vm), .text ")"] .notFound)
      match ancestorWalk snaps (snaps.length + 1) name with
      | none => raise (.other "never returns")
      | some wanted => pure (wanted, false, some name)

-- `_collect_disk`
def collectDisk (vm : String) (snapshot : Option String)
    (acc : List (String × PendingDisk) × Collected) (disk : String) :
    Run β (List (String × PendingDisk) × Collected) := do
  let active ← store.diskPath vm disk
  let snaps ← store.snapshotList host vm disk
  let (only, withActive, current) ← selectSnapshots vm disk snapshot snaps
  let (layers, collected) ← foldEach (only.dedup.insertionSort (· ≤ ·)) ([], acc.2)
    (collectSnapshot host disk snaps only)
  if withActive then do
    let arc := "disks/" ++ disk ++ ".qcow2"
    let (parent, collected) ← backingRef host active snaps only (collected.addSource arc active)
    pure (acc.1 ++ [(disk, ⟨some ⟨arc, parent⟩, current, layers⟩)], collected)
  else pure (acc.1 ++ [(disk, ⟨none, current, layers⟩)], collected)

def fileRecord (arc : String) (src : Path) : Run β FileRecord := do
  let b ← readBytes src
  pure ⟨arc, host.sha256 b, host.byteSize b⟩

-- The record of a bundled image, and of a config file, with its source added.
def recordImage (acc : List FileRecord × Collected) (image : String × Path) :
    Run β (List FileRecord × Collected) := do
  let arc := "images/" ++ image.1
  let r ← fileRecord host arc image.2
  pure (acc.1 ++ [r], acc.2.addSource arc image.2)

def recordConfig (vmDir : Path) (acc : List FileRecord × Collected) (name : String) :
    Run β (List FileRecord × Collected) := do
  let path := vmDir ++ [name]
  let w ← read
  if w.fs.isFile path then do
    let arc := "config/" ++ name
    let r ← fileRecord host arc path
    pure (acc.1 ++ [r], acc.2.addSource arc path)
  else pure acc

-- `layer.update(self._file_record(arc, sources[arc]))`
def finishLayer (sources : List (String × Path)) (layer : PendingLayer) : Run β LayerRecord :=
  match getPath sources layer.arc with
  | none => raise .keyError
  | some src => do
      let r ← fileRecord host layer.arc src
      pure ⟨r, layer.parent⟩

def finishSnapshot (sources : List (String × Path)) (snap : String × PendingLayer) :
    Run β SnapshotRecord := do
  let layer ← finishLayer host sources snap.2
  pure ⟨snap.1, layer⟩

def finishActive (sources : List (String × Path)) : Option PendingLayer →
    Run β (Option LayerRecord)
  | none => pure none
  | some layer => do
      let r ← finishLayer host sources layer
      pure (some r)

def finishDisk (sources : List (String × Path)) (disk : String × PendingDisk) :
    Run β (String × DiskEntry) := do
  let active ← finishActive host sources disk.2.active
  let snapshots ← mapEach disk.2.snapshots (finishSnapshot host sources)
  pure (disk.1, ⟨active, disk.2.current, snapshots⟩)

-- `sorted(d.items())` for the dictionaries of paths
def sortedPaths (d : List (String × Path)) : List (String × Path) :=
  d.insertionSort fun a b => a.1 ≤ b.1

def addMember (source : String × Path) : Run β (String × β) := do
  let b ← readBytes source.2
  pure (source.1, b)

-- Everything of `backup` up to the writing of the archive.
def collectVm (vm : String) (snapshot : Option String) (diskNames : List String) :
    Run β (Manifest × List (String × Path)) := do
  let w ← read
  let (disks, c₁) ← foldEach diskNames ([], ⟨[], []⟩) (collectDisk host store vm snapshot)
  let (images, c₂) ← foldEach (sortedPaths c₁.images) ([], c₁) (recordImage host)
  let vmRoot := store.vmRoot vm
  let (config, c₃) ← foldEach (w.fs.children vmRoot) ([], c₂) (recordConfig host vmRoot)
  let entries ← mapEach disks (finishDisk host c₃.sources)
  pure (⟨vm, host.isoNow w, entries, images, config⟩, c₃.sources)

-- `sorted(p.stem for p in disks_dir.glob("*.qcow2")) if disks_dir.exists() else []`
def diskNamesOf (fs : FileSystem β) (disksDir : Path) : List String :=
  if fs.exists_ disksDir then
    (((fs.children disksDir).filter Path.isQcow2Name).map Path.stem).insertionSort (· ≤ ·)
  else []

-- `name.endswith((".tar.gz", ".tgz"))`
def isCompressed (path : Path) : Bool :=
  let name := (Path.name path).toList
  ".tar.gz".toList.isSuffixOf name || ".tgz".toList.isSuffixOf name

def backup (vm : String) (bundlePath : Path) (snapshot : Option String) :
    Run β BackupResult := do
  let vm ← validateName "vm" vm
  let vmRoot := store.vmRoot vm
  let present ← exists_ vmRoot
  raiseIf (!present) (.storageError [.text "vm not found: ", .path vmRoot] .notFound)
  let taken ← exists_ bundlePath
  raiseIf taken (.storageError [.text "bundle already exists: ", .path bundlePath] .alreadyExists)
  let w ← read
  let diskNames := diskNamesOf w.fs (store.disksDir vm)
  raiseIf diskNames.isEmpty (.storageError
    [.text "vm ", .repr (.str vm), .text " has no disks"] .notFound)
  raiseIf (snapshot.isSome && diskNames.length > 1) (.storageError
    [.text "--snapshot requires a VM with exactly one disk (vm ", .repr (.str vm),
      .text " has ", .number diskNames.length, .text ")"] .invalidState)
  let (manifest, sources) ← collectVm host store vm snapshot diskNames
  mkdirs bundlePath.dropLast
  let members ← mapEach (sortedPaths sources) addMember
  writeBytes bundlePath (host.tarWrite (isCompressed bundlePath)
    (("manifest.json", host.jsonDumps manifest.toJson) :: members))
  pure {
    bundle := bundlePath
    vm := vm
    disks := diskNames
    files := sources.length + 1
    totalBytes := (members.map fun m => host.byteSize m.2).sum }

end

end VMForge.Storage
