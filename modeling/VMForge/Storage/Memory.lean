import VMForge.Storage.Layers
import Mathlib.Algebra.Order.BigOperators.Group.List
import Mathlib.Algebra.GroupWithZero.Nat

namespace VMForge.Storage

-- A platform in memory: its files are what they hold, already parsed.
inductive Blob where
  | text (s : String)
  | json (v : Json)
  | archive (members : List (Member Blob))
  | qcow2 (size : Nat) (data : List (Nat × UInt8)) (backing : Option ImageRef)

namespace Blob

def members : Blob → Except PyError (Archive Blob)
  | archive members => .ok ⟨members, none⟩
  | _ => .error .tarError

def parsed : Blob → Except PyError Json
  | json v => .ok v
  | _ => .error .jsonDecodeError

-- Stands in for SHA-256: it tells texts and the sizes and backing files of images apart.
def digest : Blob → String
  | text s => "text " ++ s
  | json _ => "json"
  | archive _ => "archive"
  | qcow2 size _ backing =>
      "qcow2 " ++ String.ofList (List.replicate size 'x') ++
        (backing.map fun b => " " ++ Path.toString b.1).getD ""

def bytes : Blob → Nat
  | text s => s.length
  | _ => 1

def format : Blob → String
  | qcow2 _ _ _ => "qcow2"
  | _ => "raw"

-- What the driver of a format finds in a file.
def decode (format : String) : Blob → Option (Layer ImageRef)
  | text s =>
      if format = "raw" then
        some ⟨s.length, fun o => s.toList[o]?.map fun c => UInt8.ofNat c.toNat, none⟩
      else none
  | qcow2 size data backing =>
      if format = "qcow2" then
        some ⟨size, fun o => (data.find? fun entry => entry.1 = o).map Prod.snd,
          backing.map fun b => (Path.resolve b.1, b.2)⟩
      else none
  | _ => none

end Blob

def memoryFormats : Formats Blob where
  probe := Blob.format
  decode := Blob.decode
  probe_qcow2 := by
    intro b l h
    cases b <;> simp_all [Blob.decode, Blob.format]

namespace Memory

-- What is read through a chain of at most `fuel` layers.
def readChain (fs : FileSystem Blob) : Nat → ImageRef → Option Content
  | 0, _ => none
  | fuel + 1, r =>
      match memoryFormats.layerAt fs r with
      | none => none
      | some l =>
          match l.backing with
          | none => some (l.onto .empty)
          | some b => (readChain fs fuel b).map l.onto

def content (fs : FileSystem Blob) (r : ImageRef) : Option Content :=
  readChain fs (fs.listing.length + 1) r

-- The bytes of `c`, one by one.
def dump (c : Content) : List (Nat × UInt8) := (List.range c.size).map fun o => (o, c.byte o)

def ok (b : Blob) : Reply Blob := ⟨none, some b⟩

def fail (stderr : String) : Reply Blob := ⟨some ⟨1, stderr⟩, none⟩

-- The backing file of an image to be written, when it can be opened.
def opened (fs : FileSystem Blob) : Option (List String × String) → Option (Option Content)
  | none => some none
  | some backing => (content fs (refOf backing)).map some

def exec (w : World Blob) : Command → Reply Blob
  | .create _ size backing _ _ =>
      match opened w.fs backing with
      | none => fail "Could not open backing file"
      | some c =>
          match size with
          | some s =>
              match s.toNat? with
              | some n => ok (.qcow2 n [] (backing.map refOf))
              | none => fail "Invalid image size specified"
          | none => ok (.qcow2 (c.elim 0 Content.size) [] (backing.map refOf))
  | .resize path newSize _ =>
      match w.fs.blob path, newSize.toNat? with
      | some (.qcow2 _ data backing), some n => ok (.qcow2 n data backing)
      | _, _ => fail "Could not open image"
  | .convert src _ srcFormat _ _ =>
      match w.fs.blob src with
      | none => fail "Could not open image"
      | some b =>
          match content w.fs (src, srcFormat.getD b.format) with
          | some c => ok (.qcow2 c.size (dump c) none)
          | none => fail "Could not open image"
  | .rebase path newBacking isUnsafe =>
      match w.fs.blob path with
      | some (.qcow2 size data _) =>
          if isUnsafe then ok (.qcow2 size data (newBacking.map refOf))
          else
            match content w.fs (path, "qcow2"), opened w.fs newBacking with
            | some c, some _ => ok (.qcow2 size (dump c) (newBacking.map refOf))
            | _, _ => fail "Could not open backing file"
      | _ => fail "Could not open image"

def info (w : World Blob) (path : Path) : Except QemuFailure InfoEntry :=
  match w.fs.blob path with
  | none => .error ⟨1, "Could not open image"⟩
  | some b =>
      match b.decode b.format with
      | some l => .ok ⟨b.format, l.size, 0, l.backing.map Prod.fst, l.backing.map Prod.snd⟩
      | none => .error ⟨1, "Could not open image"⟩

def check (w : World Blob) (path : Path) : Except QemuFailure CheckReport :=
  match content w.fs (path, "qcow2") with
  | some _ => .ok ⟨0, 0, 0⟩
  | none => .error ⟨1, "Could not open image"⟩

-- A string longer than every name in use.
def freshSuffix (w : World Blob) : String :=
  String.ofList (List.replicate ((w.fs.listing.map fun p => (Path.name p).length).sum + 1) 'x')

theorem freshSuffix_fresh (w : World Blob) (dir : Path) (stem : String)
    (hstem : Path.isComponent stem = true) :
    Path.isComponent (stem ++ freshSuffix w) = true ∧
      w.fs.node (dir ++ [stem ++ freshSuffix w]) = none := by
  have hlen : (freshSuffix w).length =
      (w.fs.listing.map fun p => (Path.name p).length).sum + 1 := by
    simp [freshSuffix]
  constructor
  · obtain ⟨hne, -, -, hslash, hnull⟩ := (Path.isComponent_iff stem).mp hstem
    have hx : ∀ c ∈ (freshSuffix w).toList, c = 'x' := by
      simp [freshSuffix]
    have hend : 'x' ∈ (stem ++ freshSuffix w).toList := by
      simp [freshSuffix]
    rw [Path.isComponent_iff]
    refine ⟨?_, ?_, ?_, ?_, ?_⟩
    · intro he
      simp [he] at hend
    · intro he
      simp [he] at hend
    · intro he
      simp [he] at hend
    · intro hc
      rcases List.mem_append.mp (by simpa using hc) with hc | hc
      · exact hslash hc
      · exact absurd (hx _ hc) (by decide)
    · intro hc
      rcases List.mem_append.mp (by simpa using hc) with hc | hc
      · exact hnull hc
      · exact absurd (hx _ hc) (by decide)
  · by_contra hn
    have hmem := w.fs.listed _ hn
    have hle : (stem ++ freshSuffix w).length ≤
        (w.fs.listing.map fun p => (Path.name p).length).sum :=
      List.le_sum_of_mem (List.mem_map.mpr ⟨_, hmem, by simp⟩)
    rw [String.length_append] at hle
    omega

-- A file tree with nothing in it, and one with the given entries, parents first.
def bare : FileSystem Blob where
  node p := if p = [] then some .dir else none
  listing := [[]]
  root := rfl
  parent p n h := by simp at h
  legal p n h := by simp at h
  listed p h := by
    by_cases hp : p = []
    · simp [hp]
    · simp [hp] at h

def tree (entries : List (Path × Node Blob)) : FileSystem Blob :=
  entries.foldl (fun fs entry => fs.put entry.1 entry.2) bare

def world (entries : List (Path × Node Blob)) : World Blob := ⟨tree entries, []⟩

-- A file with the permissions of a new one.
def plain (b : Blob) : Node Blob := .file ⟨b, 0o644⟩

end Memory

-- The platform in memory, with the working directory `cwd`.
def memoryHost (cwd : Path) : Host Blob where
  cwd := cwd
  byteSize := Blob.bytes
  sha256 := Blob.digest
  tarOpen := Blob.members
  tarWrite _ members := .archive (members.map fun m => ⟨m.1, .file m.2⟩)
  jsonLoads := Blob.parsed
  jsonDumps := .json
  isoNow _ := "2024-01-01T00:00:00+00:00"
  qemuImg := ⟨Memory.exec, Memory.info, Memory.check⟩
  mkdtempSuffix w _ _ := Memory.freshSuffix w
  mkdtemp_fresh := Memory.freshSuffix_fresh

end VMForge.Storage
