import VMForge.Storage.Store

namespace VMForge.Storage

def corrupt (message : Message) : PyError :=
  .storageError (.text "corrupt bundle: " :: message) .invalidState

-- `v.get(k)`
def pyGet (v : Json) (k : String) : Except PyError Json :=
  match v with
  | .obj fields => .ok ((Json.get (Json.dict fields) k).getD .null)
  | _ => .error .attributeError

-- `v.get(k, [])`
def pyGetList (v : Json) (k : String) : Except PyError Json :=
  match v with
  | .obj fields => .ok ((Json.get (Json.dict fields) k).getD (.arr []))
  | _ => .error .attributeError

-- `v[k]` for a string `k`
def pyIndex (v : Json) (k : String) : Except PyError Json :=
  match v with
  | .obj fields =>
      match Json.get (Json.dict fields) k with
      | some x => .ok x
      | none => .error .keyError
  | _ => .error .typeError

-- The values a `for` loop over `v` runs through.
def pyIter : Json → Except PyError (List Json)
  | .arr items => .ok items
  | .obj fields => .ok ((Json.dict fields).map fun field => .str field.1)
  | .str s => .ok (s.toList.map fun c => .str (String.ofList [c]))
  | _ => .error .typeError

-- `v.values()`
def pyValues : Json → Except PyError (List Json)
  | .obj fields => .ok ((Json.dict fields).map Prod.snd)
  | _ => .error .attributeError

-- `sorted(v.items())`
def pySortedItems : Json → Except PyError Json.Dict
  | .obj fields => .ok (Json.sortedItems (Json.dict fields))
  | _ => .error .attributeError

-- `k in v` for a string `k`
def pyContains (v : Json) (k : String) : Except PyError Bool :=
  match v with
  | .obj fields => .ok (Json.get (Json.dict fields) k).isSome
  | .arr items => .ok (items.any (Json.eqStr k))
  | .str s => .ok (decide (k.toList <:+: s.toList))
  | _ => .error .typeError

-- A value used where only a string will do: `Path(v)` and `_NAME_RE.match(v)`.
def pyStr : Json → Except PyError String
  | .str s => .ok s
  | _ => .error .typeError

-- `_read_manifest` on the parsed value.
def checkManifest (manifest : Json) : Except PyError Json := do
  let version ← pyGet manifest "schema_version"
  if !Json.eqInt 1 version then
    .error (.storageError [.text "unsupported bundle schema_version ", .repr version,
      .text " (this tool supports 1)"] .invalidConfig)
  else
    let vm ← pyGet manifest "vm"
    let disks ← pyGet manifest "disks"
    match vm, disks with
    | .str _, .obj _ => .ok manifest
    | _, _ => .error (corrupt [.text "manifest is missing required fields"])

-- The file records of one disk section.
def sectionFiles (diskSection : Json) : Except PyError (List Json) := do
  let active ← pyGet diskSection "active"
  let snapshots ← pyGetList diskSection "snapshots"
  let records ← pyIter snapshots
  if Json.isNone active then .ok records else .ok (active :: records)

-- `_manifest_files`
def manifestFiles (manifest : Json) : Except PyError (List Json) := do
  let disks ← pyIndex manifest "disks"
  let sections ← pyValues disks
  let perDisk ← sections.mapM sectionFiles
  let images ← pyGetList manifest "images"
  let imageRecords ← pyIter images
  let config ← pyGetList manifest "config"
  let configRecords ← pyIter config
  .ok (perDisk.flatten ++ imageRecords ++ configRecords)

section

variable {β : Type}

-- `name.rstrip("/")`
def rstripSlash (name : String) : String :=
  String.ofList ((name.toList.reverse.dropWhile (· = '/')).reverse)

-- `tar.getmember(name)`: the last member of that name.
def Archive.getMember (tar : Archive β) (name : String) : Except PyError (Member β) :=
  match tar.fault with
  | some e => .error e
  | none =>
      match tar.members.reverse.find? fun member => member.name = rstripSlash name with
      | some member => .ok member
      | none => .error .keyError

-- `tar.extractfile(member)`, where no file at all counts as a missing key.
def extractFile (member : Member β) : Except PyError (β × Option PyError) :=
  match member.payload with
  | .file data => .ok (data, none)
  | .broken head e => .ok (head, some e)
  | .notFile => .error .keyError
  | .badLink e => .error e

def Archive.openMember (tar : Archive β) (name : String) :
    Except PyError (β × Option PyError) := do
  let member ← tar.getMember name
  extractFile member

-- `except (KeyError, tarfile.TarError)`
def isMissingMember : PyError → Bool
  | .keyError => true
  | .tarError => true
  | _ => false

-- `except (KeyError, tarfile.TarError, json.JSONDecodeError)`
def isUnreadableManifest : PyError → Bool
  | .keyError => true
  | .tarError => true
  | .jsonDecodeError => true
  | _ => false

-- `except (tarfile.TarError, OSError)`
def isUnreadableTar : PyError → Bool
  | .tarError => true
  | .osError _ => true
  | _ => false

-- An `except` clause that turns the exceptions it names into `e'`.
def orRaise {α : Type} (x : Except PyError α) (caught : PyError → Bool) (e' : PyError) :
    Except PyError α :=
  match x with
  | .ok a => .ok a
  | .error e => if caught e then .error e' else .error e

variable (host : Host β)

-- `json.load(fh)`
def loadManifest (tar : Archive β) : Except PyError Json := do
  let (data, fault) ← tar.openMember "manifest.json"
  match fault with
  | some e => .error e
  | none => host.jsonLoads data

def readManifest (tar : Archive β) : Except PyError Json := do
  let manifest ← orRaise (loadManifest host tar) isUnreadableManifest
    (corrupt [.text "missing or unreadable manifest.json"])
  checkManifest manifest

-- `tarfile.open(bundle_path, "r:*")`
def openTar (x : Option (Node β)) : Except PyError (Archive β) :=
  orRaise (match x with
    | some (.file f) => host.tarOpen f.blob
    | some .dir => .error (.osError .isDirectory)
    | none => .error (.osError .noEntry))
    isUnreadableTar (corrupt [.text "not a readable tar archive (", .exc, .text ")"])

end

end VMForge.Storage
