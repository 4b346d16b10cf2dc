import VMForge.Base.Exec
import VMForge.Base.FileSystem
import VMForge.Base.Json

namespace VMForge.Storage

open Exec

inductive ErrorCode where
  | notFound
  | alreadyExists
  | invalidConfig
  | invalidState
deriving DecidableEq

-- The pieces of an f-string: text, an interpolated path or number, the `repr` of a value,
-- and the text of the exception being handled.
inductive Piece where
  | text (s : String)
  | path (p : List String)
  | number (n : Nat)
  | repr (v : Json)
  | exc

abbrev Message := List Piece

inductive Errno where
  | noEntry
  | alreadyExists
  | notDirectory
  | isDirectory
deriving DecidableEq

-- The exceptions the storage code raises itself or lets through.
inductive PyError where
  | storageError (message : Message) (code : ErrorCode)
  | qemuImgError (cmd : List String) (returncode : Int) (stderr : String)
  | osError (errno : Errno)
  | tarError
  | jsonDecodeError
  | keyError
  | typeError
  | attributeError
  | valueError
  | other (name : String)

-- What a mutating system call did. The log of events is a ghost: no code reads it.
inductive Event (β : Type) where
  | mkdir (p : Path)
  | wrote (p : Path)
  | moved (src dst : Path) (blob : β)
  | removed (p : Path)
  | chmod (p : Path)
  | qemuImg (p : Path)

-- The paths an event created, changed or deleted.
def Event.Touches {β : Type} : Event β → Path → Prop
  | .mkdir p, q => q = p
  | .wrote p, q => q = p
  | .moved src dst _, q => q = src ∨ q = dst
  | .removed p, q => p <+: q
  | .chmod p, q => q = p
  | .qemuImg p, q => q = p

structure World (β : Type) where
  fs : FileSystem β
  log : List (Event β)

abbrev Run (β α : Type) := Exec (World β) PyError α

-- A qemu-img command that writes. `target` is the one file it is told to write.
inductive Command where
  | create (path : Path) (size : Option String) (backing : Option (List String × String))
      (preallocation : String) (clusterSize : Option String)
  | resize (path : Path) (newSize : String) (shrink : Bool)
  | convert (src dst : Path) (srcFormat : Option String) (dstFormat : String) (compress : Bool)
  | rebase (path : Path) (newBacking : Option (List String × String)) (isUnsafe : Bool)

def Command.target : Command → Path
  | .create path _ _ _ _ => path
  | .resize path _ _ => path
  | .convert _ dst _ _ _ => dst
  | .rebase path _ _ => path

def Command.args : Command → List String
  | .create path size backing preallocation clusterSize =>
      ["create", "-f", "qcow2", "-o",
        ",".intercalate (("preallocation=" ++ preallocation) ::
          (clusterSize.map ("cluster_size=" ++ ·)).toList)] ++
      (match backing with
        | some (file, format) => ["-b", Path.toString file, "-F", format]
        | none => []) ++ [Path.toString path] ++ size.toList
  | .resize path newSize shrink =>
      "resize" :: (if shrink then ["--shrink"] else []) ++ [Path.toString path, newSize]
  | .convert src dst srcFormat dstFormat compress =>
      ["convert", "-O", dstFormat] ++ (if compress then ["-c"] else []) ++
        (match srcFormat with
          | some format => ["-f", format]
          | none => []) ++ [Path.toString src, Path.toString dst]
  | .rebase path newBacking isUnsafe =>
      "rebase" :: (if isUnsafe then ["-u"] else []) ++
        (match newBacking with
          | some (file, format) => ["-b", Path.toString file, "-F", format]
          | none => ["-b", ""]) ++ [Path.toString path]

structure QemuFailure where
  returncode : Int
  stderr : String

-- How a writing command ended, and what it left in its target when it wrote there.
structure Reply (β : Type) where
  failure : Option QemuFailure
  content : Option β

-- One entry of `qemu-img info --output=json`.
structure InfoEntry where
  format : String
  virtualSize : Nat
  actualSize : Nat
  backing : Option (List String)
  backingFormat : Option String

structure CheckReport where
  returncode : Int
  corruptions : Nat
  leaks : Nat

-- qemu-img, not part of the repository. It sees the whole world, so it may fail whenever
-- it likes.
structure QemuImg (β : Type) where
  exec : World β → Command → Reply β
  info : World β → Path → Except QemuFailure InfoEntry
  check : World β → Path → Except QemuFailure CheckReport

-- What `tarfile` gives for one member: the data, a read that breaks off, no file at all,
-- or an exception while a link is followed.
inductive Payload (β : Type) where
  | file (data : β)
  | broken (head : β) (e : PyError)
  | notFile
  | badLink (e : PyError)

structure Member (β : Type) where
  name : String
  payload : Payload β

-- An opened archive; `fault` is what reading its index raises.
structure Archive (β : Type) where
  members : List (Member β)
  fault : Option PyError

-- The parts of the platform that the storage code calls. `mkdtempSuffix` is what
-- `tempfile.mkdtemp` appends to a name to get one that is still free.
structure Host (β : Type) where
  cwd : Path
  byteSize : β → Nat
  sha256 : β → String
  tarOpen : β → Except PyError (Archive β)
  tarWrite : Bool → List (String × β) → β
  jsonLoads : β → Except PyError Json
  jsonDumps : Json → β
  isoNow : World β → String
  qemuImg : QemuImg β
  mkdtempSuffix : World β → Path → String → String
  mkdtemp_fresh : ∀ w dir stem, Path.isComponent stem = true →
    Path.isComponent (stem ++ mkdtempSuffix w dir stem) = true ∧
      w.fs.node (dir ++ [stem ++ mkdtempSuffix w dir stem]) = none

section SystemCalls

variable {β : Type}

def record (e : Event β) (f : FileSystem β → FileSystem β) : Run β Unit :=
  fun w => (.ok (), { fs := f w.fs, log := w.log ++ [e] })

-- What the kernel answers when a file is to be created at `p`.
def createFault (fs : FileSystem β) (p : Path) : Option PyError :=
  if !Path.isComponent (Path.name p) then some .valueError
  else if fs.isDir p then some (.osError .isDirectory)
  else if fs.isDir p.dropLast then none
  else if fs.exists_ p.dropLast then some (.osError .notDirectory)
  else some (.osError .noEntry)

-- The permission bits a write leaves: those of the file, or those of a new one.
def modeAt (fs : FileSystem β) (p : Path) : Nat :=
  match fs.node p with
  | some (.file f) => f.mode
  | _ => 0o644

def exists_ (p : Path) : Run β Bool := do
  let w ← read
  pure (w.fs.exists_ p)

-- `os.mkdir(p)` where an existing directory is no error; `isLast` says that `p` is the
-- path asked for and not one of its parents.
def ensureDir (p : Path) (isLast : Bool) : Run β Unit := do
  let w ← read
  if w.fs.isDir p then pure ()
  else if w.fs.exists_ p then
    raise (.osError (if isLast then .alreadyExists else .notDirectory))
  else
    match createFault w.fs p with
    | some e => raise e
    | none => record (.mkdir p) (·.put p .dir)

-- `path.mkdir(parents=True, exist_ok=True)` below a directory `base`
def mkdirsFrom (base : Path) : List String → Run β Unit
  | [] => pure ()
  | n :: rest => do
      ensureDir (base ++ [n]) rest.isEmpty
      mkdirsFrom (base ++ [n]) rest

def mkdirs (p : Path) : Run β Unit := mkdirsFrom [] p

-- `path.open("wb")` and one write
def writeBytes (p : Path) (b : β) : Run β Unit := do
  let w ← read
  match createFault w.fs p with
  | some e => raise e
  | none => record (.wrote p) (·.put p (.file ⟨b, modeAt w.fs p⟩))

def readBytes (p : Path) : Run β β := do
  let w ← read
  match w.fs.node p with
  | some (.file f) => pure f.blob
  | some .dir => raise (.osError .isDirectory)
  | none => raise (.osError .noEntry)

-- `os.rename` of a regular file. Every caller's source is one or is missing.
def rename (src dst : Path) : Run β Unit := do
  let w ← read
  match w.fs.node src with
  | none => raise (.osError .noEntry)
  | some .dir => raise (.osError .isDirectory)
  | some (.file f) =>
      match createFault w.fs dst with
      | some e => raise e
      | none => record (.moved src dst f.blob) fun fs => (fs.prune src).put dst (.file f)

-- `shutil.move`: into `dst` when that is a directory. A failed rename falls back to a
-- copy, which fails for the same reason.
def move (src dst : Path) : Run β Unit := do
  let w ← read
  if w.fs.isDir dst then do
    let realDst := dst ++ [Path.name src]
    raiseIf (w.fs.exists_ realDst) (.osError .alreadyExists)
    rename src realDst
  else rename src dst

-- `path.iterdir()`
def iterdir (p : Path) : Run β (List String) := do
  let w ← read
  match w.fs.node p with
  | some .dir => pure (w.fs.children p)
  | some (.file _) => raise (.osError .notDirectory)
  | none => raise (.osError .noEntry)

def unlink (p : Path) : Run β Unit := do
  let w ← read
  match w.fs.node p with
  | none => raise (.osError .noEntry)
  | some .dir => raise (.osError .isDirectory)
  | some (.file _) => record (.removed p) (·.prune p)

def chmod (p : Path) (mode : Nat) : Run β Unit := do
  let w ← read
  match w.fs.node p with
  | none => raise (.osError .noEntry)
  | some .dir => record (.chmod p) id
  | some (.file f) => record (.chmod p) (·.put p (.file ⟨f.blob, mode⟩))

-- `shutil.rmtree(p)`
def rmtree (p : Path) : Run β Unit := do
  let w ← read
  match w.fs.node p with
  | none => raise (.osError .noEntry)
  | some (.file _) => raise (.osError .notDirectory)
  | some .dir => record (.removed p) (·.prune p)

-- `shutil.rmtree(p, ignore_errors=True)`
def rmtreeIgnoring (p : Path) : Run β Unit := do
  let w ← read
  if w.fs.isDir p then record (.removed p) (·.prune p) else pure ()

variable (host : Host β)

-- `tempfile.mkdtemp(prefix=stem, dir=dir)`
def mkdtemp (stem : String) (dir : Path) : Run β Path := do
  let w ← read
  let p := dir ++ [stem ++ host.mkdtempSuffix w dir stem]
  ensureDir p true
  pure p

end SystemCalls

end VMForge.Storage
