import VMForge.Storage.Store

namespace VMForge.Storage

def ErrorCode.text : ErrorCode → String
  | .notFound => "not_found"
  | .alreadyExists => "already_exists"
  | .invalidConfig => "invalid_config"
  | .invalidState => "invalid_state"

-- `str(exc)` of the exceptions that `main` takes.
inductive ErrorText where
  | storage (message : Message)
  | qemuImg (cmd : List String) (returncode : Int) (stderr : String)

-- `{"error": {"code": …, "message": …, "details": {"stderr": …, "returncode": …}}}`
structure ErrorJson where
  code : String
  message : ErrorText
  details : Option (String × Int)

-- `_error_json(exc)`, for an exception that `main` takes.
def errorJson : PyError → Option ErrorJson
  | .storageError message code => some ⟨code.text, .storage message, none⟩
  | .qemuImgError cmd returncode stderr =>
      some ⟨"backend", .qemuImg cmd returncode stderr, some (stderr, returncode)⟩
  | _ => none

-- The arguments of `create` and of `clone`.
inductive Args where
  | create (vm disk size preallocation : String) (clusterSize : Option String)
  | clone (base vm disk : String) (size : Option String)

-- `parse_args` on the argument lists the engine makes, whose names never start with a dash.
def parseArgs : List String → Option Args
  | ["create", vm, disk, size] => some (.create vm disk size "off" none)
  | ["clone", base, vm, disk] => some (.clone base vm disk none)
  | ["clone", base, vm, disk, "--size", size] => some (.clone base vm disk (some size))
  | _ => none

-- How the process ends: with the path on stdout, with an error on stderr, or with text there
-- that is no JSON, a usage message or a traceback.
inductive Exit where
  | printed (path : Path)
  | failed (error : ErrorJson)
  | crashed (status : Nat)

def exitOf : Except PyError Path → Exit
  | .ok path => .printed path
  | .error e =>
      match errorJson e with
      | some error => .failed error
      | none => .crashed 1

section

variable {β : Type} (host : Host β) (store : DiskStore)

-- `cmd_create` and `cmd_clone`, up to `_print`
def Args.func : Args → Run β Path
  | .create vm disk size preallocation clusterSize =>
      store.createDisk host vm disk size preallocation clusterSize
  | .clone base vm disk size => store.cloneDisk host base vm disk size

-- `vmforge-storage --home <home> --json <argv>`
def main (argv : List String) (w : World β) : Exit × World β :=
  match parseArgs argv with
  | none => (.crashed 2, w)
  | some args => (exitOf (args.func host store w).1, (args.func host store w).2)

end

end VMForge.Storage
