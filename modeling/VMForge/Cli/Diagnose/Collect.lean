import VMForge.Base.FileSystem
import VMForge.Cli.Diagnose

namespace VMForge.Cli

open Text

-- What diagnose is run on. `storageCli` is what the storage command line prints for some arguments
-- when it is there and succeeds. The size of a directory is what the system says it is.
structure Machine where
  fs : FileSystem (List UInt8)
  home : Path
  storageCli : List String → Option (List Char)
  dirSize : Path → Nat

structure VmLog where
  fileName : String
  excerpt : List Char

structure VmReport where
  name : String
  body : List Char
  logs : List VmLog

section Files

variable (fs : FileSystem (List UInt8))

-- `fs::read_dir`, where it succeeds.
def entriesOf (dir : Path) : List String := if fs.isDir dir then fs.children dir else []

-- `fs::read_to_string`
def readToString (p : Path) : Option (List Char) := (fs.blob p).bind Utf8.decode

-- `trim_end_matches`: the pattern goes as often as it stands at the end.
def trimEndMatches (pat : List Char) : Nat → List Char → List Char
  | 0, cs => cs
  | fuel + 1, cs =>
      if pat.isSuffixOf cs then trimEndMatches pat fuel (cs.take (cs.length - pat.length)) else cs

def trimQcow2 (n : String) : String :=
  String.ofList (trimEndMatches ".qcow2".toList n.toList.length n.toList)

def listQcow2 (dir : Path) : List String :=
  (((entriesOf fs dir).filter Path.isQcow2Name).map trimQcow2).insertionSort (· ≤ ·)

-- The last lines of the logs, and where they are taken from.
def logsPerVm : Nat := 8

def isLogName (n : String) : Bool := Path.suffix n == ".log"

def logFiles (vmDir : Path) : List Path :=
  [vmDir ++ ["logs"], vmDir].flatMap fun dir =>
    ((entriesOf fs dir).map fun n => dir ++ [n]).filter fun p => fs.isFile p && isLogName (Path.name p)

def collectLog (p : Path) : Option VmLog :=
  ((fs.blob p).bind excerpt).map fun text => ⟨Path.name p, text⟩

def collectLogs (vmDir : Path) : List VmLog :=
  (((logFiles fs vmDir).insertionSort (· ≤ ·)).take logsPerVm).filterMap (collectLog fs)

-- What a pidfile says of a process, if there is a pidfile.
def pidStatus (pidfile : Path) : Option (List Char) :=
  (readToString fs pidfile).map fun contents =>
    let pid := trim contents
    if pid ≠ [] ∧ fs.exists_ (Path.ofString [] ("/proc/" ++ String.ofList pid)) = true then
      "running (qemu pid ".toList ++ pid ++ [')']
    else "stopped (stale pidfile)".toList

def vmStatus (vmDir : Path) : List Char :=
  (([vmDir ++ ["run", "qemu.pid"], vmDir ++ ["qemu.pid"]].findSome? (pidStatus fs)).getD
    "not running (no pidfile)".toList)

end Files

-- Every line two blanks in.
def indent (text : List Char) : List Char := (lines text).flatMap fun l => ' ' :: ' ' :: l ++ ['\n']

def networkFiles : List String := ["network.json", "network.toml", "net.json"]

def networkInfo (fs : FileSystem (List UInt8)) (vmDir : Path) : List Char :=
  (networkFiles.findSome? fun name => (readToString fs (vmDir ++ [name])).map fun contents =>
    "network (".toList ++ name.toList ++ ", redacted):\n".toList ++ indent (redactText contents)).getD
      "network: no per-VM network config recorded\n".toList

section Vms

variable (machine : Machine)

def fsDiskSummary (vmDir : Path) (disk : String) : List Char :=
  let path := vmDir ++ ["disks", disk ++ ".qcow2"]
  let shown := (Path.toString path).toList
  match machine.fs.node path with
  | some (.file f) => shown ++ " on-disk=".toList ++ Nat.toDigits 10 f.blob.length ++ " bytes\n".toList
  | some .dir => shown ++ " on-disk=".toList ++ Nat.toDigits 10 (machine.dirSize path) ++ " bytes\n".toList
  | none => shown ++ ": unreadable\n".toList

def fsSnapshotSummary (vmDir : Path) (disk : String) : List Char :=
  let snaps := listQcow2 machine.fs (vmDir ++ ["snapshots", disk])
  if snaps = [] then "none\n".toList
  else (", ".intercalate snaps).toList ++ " (from snapshot files; tree unavailable)\n".toList

-- The lines about one disk: those of the storage command line, or of the files.
def diskLines (vmDir : Path) (name disk : String) : List Char :=
  "disk: ".toList ++ disk.toList ++ ['\n'] ++
    indent ((machine.storageCli ["info", name, disk]).getD (fsDiskSummary machine vmDir disk)) ++
    "  snapshots:\n".toList ++
    indent (indent ((machine.storageCli ["snapshot", "list", name, disk]).getD
      (fsSnapshotSummary machine vmDir disk)))

def logsLine (logs : List VmLog) : List Char :=
  if logs = [] then "logs: none\n".toList
  else "logs: ".toList ++ (", ".intercalate (logs.map VmLog.fileName)).toList ++ ['\n']

-- The body of a report before it is redacted as a whole.
def vmLines (name : String) (logs : List VmLog) : List Char :=
  let vmDir := machine.home ++ ["vms", name]
  let disks := listQcow2 machine.fs (vmDir ++ ["disks"])
  "status: ".toList ++ vmStatus machine.fs vmDir ++ ['\n'] ++
    (if disks = [] then "disks: none\n".toList else []) ++
    disks.flatMap (diskLines machine vmDir name) ++ networkInfo machine.fs vmDir ++ logsLine logs

def collectVm (name : String) : VmReport :=
  let logs := collectLogs machine.fs (machine.home ++ ["vms", name])
  { name := name
    body := redactText (vmLines machine name logs)
    logs := logs }

-- The names of the directories under `vms`.
def vmNames : List String :=
  let vmsDir := machine.home ++ ["vms"]
  ((entriesOf machine.fs vmsDir).filter fun n => machine.fs.isDir (vmsDir ++ [n])).insertionSort (· ≤ ·)

def notFoundText (wanted : String) (names : List String) : List Char :=
  "vm '".toList ++ wanted.toList ++ "' not found under ".toList ++
    (Path.toString (machine.home ++ ["vms"])).toList ++ " (known: ".toList ++
    (if names = [] then "none".toList else (", ".intercalate names).toList) ++ [')']

def collectVms (filter : Option String) : Except (List Char) (List VmReport) :=
  let names := vmNames machine
  match filter with
  | none => .ok (names.map (collectVm machine))
  | some wanted =>
      if wanted ∈ names then .ok ((names.filter (· = wanted)).map (collectVm machine))
      else .error (notFoundText machine wanted names)

end Vms

end VMForge.Cli
