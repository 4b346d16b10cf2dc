import VMForge.Storage.Cli
import VMForge.Storage.Store.Calls
import VMForge.Storage.Store.Tree

namespace VMForge.Storage.Cli

open Exec

-- The parsed arguments of the subcommands that work on a store.
inductive Request where
  | create (vm disk size preallocation : String) (clusterSize : Option String)
  | resize (vm disk size : String) (shrink : Bool)
  | importFile (src : String) (name vm disk format : Option String) (compress : Bool)
  | clone (base vm disk : String) (size : Option String)
  | delete (vm disk : String) (force : Bool)
  | snapshotCreate (vm disk name : String)
  | snapshotList (vm disk : String)
  | snapshotRevert (vm disk name : String)
  | snapshotDelete (vm disk name : String)

-- What `_print` is given for machines: `{"path": …}`, `{"ok": true}`, or snapshots.
inductive Output where
  | path (p : Path)
  | done
  | snapshot (snap : Snapshot)
  | snapshots (snaps : List Snapshot)

-- `a or b`, for a string that may be missing
def orElse (a : Option String) (b : String) : String := (a.filter fun s => s != "").getD b

-- `Path(src).stem`
def stemOf (src : String) : String := Path.stem (Path.name (Path.parts src))

section Options

-- The zeros of the decimal digits, which stand in a row each.
def decimalZeros : List Nat :=
  [0x30, 0x660, 0x6F0, 0x7C0, 0x966, 0x9E6, 0xA66, 0xAE6, 0xB66, 0xBE6, 0xC66, 0xCE6, 0xD66,
    0xDE6, 0xE50, 0xED0, 0xF20, 0x1040, 0x1090, 0x17E0, 0x1810, 0x1946, 0x19D0, 0x1A80, 0x1A90,
    0x1B50, 0x1BB0, 0x1C40, 0x1C50, 0xA620, 0xA8D0, 0xA900, 0xA9D0, 0xA9F0, 0xAA50, 0xABF0,
    0xFF10, 0x104A0, 0x10D30, 0x11066, 0x110F0, 0x11136, 0x111D0, 0x112F0, 0x11450, 0x114D0,
    0x11650, 0x116C0, 0x11730, 0x118E0, 0x11950, 0x11C50, 0x11D50, 0x11DA0, 0x16A60, 0x16AC0,
    0x16B50, 0x1D7CE, 0x1D7D8, 0x1D7E2, 0x1D7EC, 0x1D7F6, 0x1E140, 0x1E2F0, 0x1E950, 0x1FBF0]

def isDecimal (c : Char) : Bool := decimalZeros.any fun z => z ≤ c.toNat && c.toNat ≤ z + 9

-- `-\d+$|-\d*\.\d+$` behind the dash; `$` lets a last newline be.
def isNumber (cs : List Char) : Bool :=
  let cs := if cs.getLast? = some '\n' then cs.dropLast else cs
  let behind := cs.dropWhile isDecimal
  !cs.isEmpty && behind.isEmpty ||
    (behind.head? = some '.' && 1 < behind.length && behind.tail.all isDecimal)

def importOptions : List String :=
  ["--help", "--name", "--vm", "--disk", "--format", "--compress"]

-- Whether an argument with a blank names an option: `-h`, or one that a text before `=` abbreviates.
def namesOption (src : List Char) : Bool :=
  "-h".toList.isPrefixOf src ||
    src.contains '=' && importOptions.any fun option =>
      (src.takeWhile (· != '=')).isPrefixOf option.toList

-- Whether `parse_args` takes the source of an import for what it is, and not for an option.
def isPositional (src : String) : Bool :=
  match src.toList with
  | '-' :: rest =>
      rest.isEmpty || isNumber rest || (rest.contains ' ' && !namesOption ('-' :: rest))
  | _ => true

end Options

-- `parse_args` on the argument lists the engine makes.
def parse : List String → Option Request
  | ["import", src, "--name", name] =>
      if isPositional src = true then some (.importFile src (some name) none none none false) else none
  | ["create", vm, disk, size] => some (.create vm disk size "off" none)
  | ["clone", base, vm, disk] => some (.clone base vm disk none)
  | ["clone", base, vm, disk, "--size", size] => some (.clone base vm disk (some size))
  | ["resize", vm, disk, size] => some (.resize vm disk size false)
  | ["snapshot", "create", vm, disk, name] => some (.snapshotCreate vm disk name)
  | ["snapshot", "revert", vm, disk, name] => some (.snapshotRevert vm disk name)
  | ["snapshot", "delete", vm, disk, name] => some (.snapshotDelete vm disk name)
  | ["tree", vm, disk] => some (.snapshotList vm disk)
  | ["delete", vm, disk, "--force"] => some (.delete vm disk true)
  | _ => none

section

variable {β : Type} (host : Host β) (store : DiskStore)

def cmdImport (src : String) (name vm disk format : Option String) (compress : Bool) :
    Run β Output := do
  let path ← match vm.filter fun s => s != "" with
    | some vm => store.importDisk host src vm (orElse disk (stemOf src)) format
    | none => store.importImage host src (orElse name (stemOf src)) format compress
  pure (.path path)

-- The tree is drawn whether it is printed or not.
def cmdSnapshotList (vm disk : String) : Run β Output := do
  let snaps ← store.snapshotList host vm disk
  let _ ← store.snapshotTree host vm disk
  pure (.snapshots snaps)

-- `args.func(args)`, up to `_print`
def Request.func : Request → Run β Output
  | .create vm disk size preallocation clusterSize => do
      let path ← store.createDisk host vm disk size preallocation clusterSize
      pure (.path path)
  | .resize vm disk size shrink => do
      store.resizeDisk host vm disk size shrink
      pure .done
  | .importFile src name vm disk format compress =>
      cmdImport host store src name vm disk format compress
  | .clone base vm disk size => do
      let path ← store.cloneDisk host base vm disk size
      pure (.path path)
  | .delete vm disk force => do
      store.deleteDisk vm disk force
      pure .done
  | .snapshotCreate vm disk name => do
      let snap ← store.snapshotCreate host vm disk name
      pure (.snapshot snap)
  | .snapshotList vm disk => cmdSnapshotList host store vm disk
  | .snapshotRevert vm disk name => do
      store.snapshotRevert host vm disk name
      pure .done
  | .snapshotDelete vm disk name => do
      store.snapshotDelete host vm disk name
      pure .done

-- How the process ends: with a value on stdout, with an error on stderr, or with text there that is
-- no JSON.
inductive Ended where
  | printed (out : Output)
  | failed (error : ErrorJson)
  | crashed (status : Nat)

def endedBy : Except PyError Output → Ended
  | .ok out => .printed out
  | .error e =>
      match errorJson e with
      | some error => .failed error
      | none => .crashed 1

-- `vmforge-storage --home <home> --json <argv>`
def invoke (argv : List String) (w : World β) : Ended × World β :=
  match parse argv with
  | none => (.crashed 2, w)
  | some request => (endedBy (request.func host store w).1, (request.func host store w).2)

end

section

variable {β : Type} {host : Host β} {store : DiskStore}

-- How a process ends that makes a disk.
def ended : Exit → Ended
  | .printed path => .printed (.path path)
  | .failed error => .failed error
  | .crashed status => .crashed status

theorem endedBy_path (x : Run β Path) (w : World β) :
    (endedBy ((x >>= fun path => pure (.path path)) w).1,
        ((x >>= fun path => pure (Output.path path)) w).2) =
      (ended (exitOf (x w).1), (x w).2) := by
  rcases hx : x w with ⟨e | path, w'⟩
  · rw [bind_of_error hx]
    simp only [endedBy, exitOf]
    cases errorJson e <;> rfl
  · rw [bind_of_ok hx]
    rfl

-- Where a disk is made, the process ends as `main` does.
theorem invoke_eq_main {argv : List String} {args : Args} (h : parseArgs argv = some args)
    (w : World β) :
    invoke host store argv w = (ended (main host store argv w).1, (main host store argv w).2) := by
  unfold main
  rw [h]
  unfold parseArgs at h
  split at h
  · obtain rfl := Option.some.inj h
    exact endedBy_path _ w
  · obtain rfl := Option.some.inj h
    exact endedBy_path _ w
  · obtain rfl := Option.some.inj h
    exact endedBy_path _ w
  · cases h

end

end VMForge.Storage.Cli
