import VMForge.Storage.Manifest
import Mathlib.Algebra.GroupWithZero.Nat

namespace VMForge.Storage

open Exec

structure RestoreResult where
  vm : String
  home : Path
  disks : List String
  snapshots : Nat
  checks : List (String × Bool)

-- `dir / s`
def joinStr (dir : Path) (s : String) : Path :=
  if Path.isAbsolute s then Path.parts s else dir ++ Path.parts s

-- `dir / Path(s).name`
def joinName (dir : Path) (s : String) : Path :=
  let name := Path.name (Path.parts s)
  if name = "" then dir else dir ++ [name]

-- The archive path of a record, when it is a relative path without "..".
def safeArc (record : Json) : Except PyError String := do
  let arc ← pyGet record "path"
  let refused := corrupt [.text "unsafe archive path ", .repr arc]
  match arc with
  | .str s =>
      if Path.isAbsolute s || (Path.parts s).contains ".." then .error refused else .ok s
  | _ => .error refused

section

variable {β : Type} (host : Host β)

-- The size and the digest of `data` against those of the record.
def matchesRecord (data : β) (record : Json) : Except PyError Bool := do
  let size ← pyGet record "size"
  let digest ← pyGet record "sha256"
  .ok (Json.eqInt (host.byteSize data) size && Json.eqStr (host.sha256 data) digest)

-- One turn of the loop of `_extract_verified`.
def extractRecord (tar : Archive β) (staging : Path) (record : Json) : Run β Unit := do
  let arc ← ofExcept (safeArc record)
  let opened ← ofExcept (orRaise (tar.openMember arc) isMissingMember
    (corrupt [.text "missing archive member ", .repr (.str arc)]))
  let dst := joinStr staging arc
  mkdirs dst.dropLast
  writeBytes dst opened.1
  match opened.2 with
  | some e => raise e
  | none => do
      let verified ← ofExcept (matchesRecord host opened.1 record)
      raiseIf (!verified) (corrupt [.text "checksum mismatch for ", .repr (.str arc)])

def extractVerified (tar : Archive β) (manifest : Json) (staging : Path) : Run β Unit := do
  let files ← ofExcept (manifestFiles manifest)
  forEach files (extractRecord host tar staging)

-- `_sha256(path)`
def sha256File (path : Path) : Run β String := do
  let b ← readBytes path
  pure (host.sha256 b)

variable (store : DiskStore)

-- One turn of the loop of `_place_images`.
def placeImage (staging : Path) (record : Json) : Run β Unit := do
  let arc ← ofExcept (pyIndex record "path" >>= pyStr)
  let dst := joinName store.imagesDir arc
  let present ← exists_ dst
  if present then do
    let digest ← sha256File host dst
    let expected ← ofExcept (pyIndex record "sha256")
    raiseIf (!Json.eqStr digest expected) (.storageError
      [.text "existing base image ", .path dst,
        .text " differs from the bundled copy; refusing to overwrite a shared image"]
      .invalidState)
  else do
    mkdirs store.imagesDir
    move (joinStr staging arc) dst

def placeImages (manifest : Json) (staging : Path) : Run β Unit := do
  let images ← ofExcept (pyGetList manifest "images" >>= pyIter)
  forEach images (placeImage host store staging)

-- `store.snapshot_path(vm, disk, name)` for a value read from the manifest.
def snapshotPathOf (vm disk : String) (name : Json) : Run β Path := do
  let _ ← store.snapshotDir vm disk
  let name ← ofExcept (pyStr name)
  store.snapshotPath vm disk name

def resolveParent (vm disk : String) (parent : Json) : Run β (Option (List String)) :=
  if Json.isNone parent then pure none
  else do
    let isSnapshot ← ofExcept (pyContains parent "snapshot")
    if isSnapshot then do
      let name ← ofExcept (pyIndex parent "snapshot")
      let path ← snapshotPathOf store vm disk name
      pure (some path)
    else do
      let isImage ← ofExcept (pyContains parent "image")
      if isImage then do
        let image ← ofExcept (pyIndex parent "image" >>= pyStr)
        pure (some (joinName store.imagesDir image))
      else raise (corrupt [.text "unrecognized parent record ", .repr parent])

-- First loop over the snapshots of a disk: move the staged layer into place.
def moveSnapshot (vm disk : String) (staging : Path) (snap : Json) : Run β Unit := do
  let name ← ofExcept (pyIndex snap "name" >>= pyStr)
  let _ ← validateName "snapshot" name
  let dst ← store.snapshotPath vm disk name
  mkdirs dst.dropLast
  let arc ← ofExcept (pyIndex snap "path" >>= pyStr)
  move (joinStr staging arc) dst

-- Second loop: point the layer at its parent and freeze it.
def rebaseSnapshot (vm disk : String) (snap : Json) : Run β Unit := do
  let name ← ofExcept (pyIndex snap "name")
  let dst ← snapshotPathOf store vm disk name
  let parent ← ofExcept (pyGet snap "parent")
  let parentPath ← resolveParent store vm disk parent
  rebase host dst parentPath true
  chmod dst 0o444

-- The active overlay at `path`: the bundled one, or a fresh one on the current snapshot.
def fillActive (vm disk : String) (staging path : Path) (diskSection : Json) : Run β Unit := do
  let active ← ofExcept (pyGet diskSection "active")
  if !Json.isNone active then do
    let arc ← ofExcept (pyIndex active "path" >>= pyStr)
    move (joinStr staging arc) path
    let parent ← ofExcept (pyGet active "parent")
    let parentPath ← resolveParent store vm disk parent
    rebase host path parentPath true
  else do
    let current ← ofExcept (pyGet diskSection "current")
    raiseIf (Json.isNone current) (corrupt [.text "disk ", .repr (.str disk),
      .text " has neither an active overlay nor a current snapshot"])
    let backing ← snapshotPathOf store vm disk current
    createQcow2 host path none (some (backing, "qcow2")) "off" none

def placeActive (vm disk : String) (staging : Path) (diskSection : Json) : Run β Unit := do
  let path ← store.diskPath vm disk
  mkdirs path.dropLast
  fillActive host store vm disk staging path diskSection

-- One turn of the loop over the disks; it returns the number of its snapshots.
def assembleDisk (vm : String) (staging : Path) (item : String × Json) : Run β Nat := do
  let disk ← validateName "disk" item.1
  let snaps ← ofExcept (pyGetList item.2 "snapshots" >>= pyIter)
  forEach snaps (moveSnapshot store vm disk staging)
  forEach snaps (rebaseSnapshot host store vm disk)
  placeActive host store vm disk staging item.2
  pure snaps.length

def moveConfig (vm : String) (staging : Path) (record : Json) : Run β Unit := do
  let arc ← ofExcept (pyIndex record "path" >>= pyStr)
  move (joinStr staging arc) (joinName (store.vmRoot vm) arc)

def checkRestored (vm disk : String) : Run β (String × Bool) := do
  let result ← store.checkDisk host vm disk
  raiseIf (!result.ok) (.storageError
    [.text "restored disk ", .text vm, .text "/", .text disk,
      .text " failed the qcow2 health check (corruptions=", .number result.corruptions,
      .text " leaks=", .number result.leaks, .text ")"] .invalidState)
  pure (disk, result.ok)

-- The config files and the health checks.
def finishVm (vm : String) (manifest : Json) (staging : Path) (items : Json.Dict)
    (counts : List Nat) : Run β RestoreResult := do
  let config ← ofExcept (pyGetList manifest "config" >>= pyIter)
  forEach config (moveConfig store vm staging)
  let checks ← mapEach (items.map Prod.fst) (checkRestored host store vm)
  pure {
    vm := vm
    home := store.home
    disks := items.map Prod.fst
    snapshots := counts.sum
    checks := checks }

def assembleVm (vm : String) (manifest : Json) (staging : Path) : Run β RestoreResult := do
  let _ ← store.vmDir vm
  let items ← ofExcept (pyIndex manifest "disks" >>= pySortedItems)
  let counts ← mapEach items (assembleDisk host store vm staging)
  finishVm host store vm manifest staging items counts

-- The body of the `try` block of `restore`.
def restoreBody (tar : Archive β) (vm : String) (manifest : Json) (staging : Path) :
    Run β RestoreResult := do
  extractVerified host tar manifest staging
  placeImages host store manifest staging
  let present ← exists_ (store.vmRoot vm)
  runIf present (rmtree (store.vmRoot vm))
  assembleVm host store vm manifest staging

-- Its `except BaseException` clause.
def discardVm {α : Type} (vm : String) (e : PyError) : Run β α := do
  let present ← exists_ (store.vmRoot vm)
  runIf present (rmtreeIgnoring (store.vmRoot vm))
  raise e

-- `as_vm or manifest["vm"]`
def targetName (asVm : Option String) (manifest : Json) : Except PyError String :=
  match asVm.filter fun s => s != "" with
  | some vm => .ok vm
  | none => pyIndex manifest "vm" >>= pyStr

-- What `restore` settles before it changes anything: the archive, the manifest and the
-- name of the VM.
def openBundle (bundlePath : Path) (asVm : Option String) :
    Run β (Archive β × Json × String) := do
  let w ← read
  raiseIf (!w.fs.exists_ bundlePath)
    (.storageError [.text "bundle not found: ", .path bundlePath] .notFound)
  let tar ← ofExcept (openTar host (w.fs.node bundlePath))
  let manifest ← ofExcept (readManifest host tar)
  let target ← ofExcept (targetName asVm manifest)
  let vm ← validateName "vm" target
  pure (tar, manifest, vm)

def restore (bundlePath : Path) (asVm : Option String) (force : Bool) :
    Run β RestoreResult := do
  let (tar, manifest, vm) ← openBundle host bundlePath asVm
  let taken ← exists_ (store.vmRoot vm)
  raiseIf (taken && !force) (.storageError
    [.text "vm already exists: ", .path (store.vmRoot vm),
      .text " (use --force to overwrite)"] .alreadyExists)
  mkdirs store.home
  let staging ← mkdtemp host (".restore-" ++ vm ++ "-") store.home
  tryFinally
    (tryExcept (restoreBody host store tar vm manifest staging) (discardVm store vm))
    (rmtreeIgnoring staging)

end

end VMForge.Storage
