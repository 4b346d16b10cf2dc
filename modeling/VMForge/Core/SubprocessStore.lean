import VMForge.Core.Names
import VMForge.Storage.Cli
import VMForge.Storage.Memory.Disks
import VMForge.Storage.Store.Clones

namespace VMForge.Core

open Storage Exec

def ErrorKind.fromCode (code : String) : ErrorKind :=
  match code with
  | "not_found" => .notFound
  | "already_exists" => .alreadyExists
  | "invalid_config" => .invalidConfig
  | "invalid_state" => .invalidState
  | "timeout" => .timeout
  | "io" => .io
  | _ => .backend

-- The message and the details of an error: those of the report, or the exit status and the text
-- on stderr.
inductive Report where
  | json (message : ErrorText) (details : Option (String × Int))
  | exited (status : Nat)

structure StoreError where
  kind : ErrorKind
  report : Report

structure DiskInfo where
  vm : VmName
  disk : DiskName
  path : Path

-- The store that runs the storage command line on a home.
structure SubprocessStore where
  home : DiskStore

section

variable {β : Type}

namespace SubprocessStore

variable (store : SubprocessStore) (host : Host β)

def run (args : List String) : Exec (World β) StoreError Path := fun w =>
  match main host store.home args w with
  | (.printed path, w') => (.ok path, w')
  | (.failed error, w') => (.error ⟨.fromCode error.code, .json error.message error.details⟩, w')
  | (.crashed status, w') => (.error ⟨.backend, .exited status⟩, w')

def attachPath (vm : VmName) (disk : DiskName) : Path := store.home.diskFile vm.text disk.text

-- The arguments of `clone`
def cloneArgs (vm : VmName) (disk : DiskName) (sizeBytes : UInt64) (image : ImageName) :
    List String :=
  ["clone", image.text, vm.text, disk.text] ++
    if sizeBytes > 0 then ["--size", toString sizeBytes] else []

def createDisk (vm : VmName) (disk : DiskName) (sizeBytes : UInt64) (base : Option ImageName) :
    Exec (World β) StoreError DiskInfo := do
  let _ ← match base with
    | none => store.run host ["create", vm.text, disk.text, toString sizeBytes]
    | some image => store.run host (cloneArgs vm disk sizeBytes image)
  pure ⟨vm, disk, store.attachPath vm disk⟩

end SubprocessStore

-- What it is to make a disk of a named image: the disk is an overlay on the file of the image,
-- a missing file is reported so, and nothing else is taken for it.
structure ClonesImage (F : Formats β) (host : Host β) (store : SubprocessStore) (vm : VmName)
    (disk : DiskName) (sizeBytes : UInt64) (image : ImageName) (w : World β) : Prop where
  overlay : ∀ info w', store.createDisk host vm disk sizeBytes (some image) w = (.ok info, w') →
    info.path = store.home.diskFile vm.text disk.text ∧
      Backs F w'.fs info.path (store.home.imageFile image.text)
  missing : (∃ e w', store.createDisk host vm disk sizeBytes (some image) w = (.error e, w') ∧
    e.kind = .notFound) ↔ w.fs.node (store.home.imageFile image.text) = none
  base : ∀ path, (store.home.clonePath host image.text w).1 = .ok path →
    path = store.home.imageFile image.text

theorem fromCode_text {code : ErrorCode} :
    ErrorKind.fromCode code.text = .notFound ↔ code = .notFound := by
  cases code <;> decide

theorem Name.nameMatches {type : NameType} (n : Name type) : nameMatches n.text = true :=
  nameMatches_iff.mpr (Or.inl (validName_iff.mp n.valid))

-- The size that reaches the store.
def cloneSize (sizeBytes : UInt64) : Option String :=
  if sizeBytes > 0 then some (toString sizeBytes) else none

section

variable {F : Formats β} {host : Host β} {store : SubprocessStore} {vm : VmName} {disk : DiskName}
  {sizeBytes : UInt64} {image : ImageName} {w w' : World β}

-- The error that an exception of the store becomes.
def errorOf (e : PyError) : StoreError :=
  match errorJson e with
  | some error => ⟨.fromCode error.code, .json error.message error.details⟩
  | none => ⟨.backend, .exited 1⟩

theorem errorOf_kind_iff {e : PyError} :
    (errorOf e).kind = .notFound ↔ ∃ message, e = .storageError message .notFound := by
  constructor
  · intro h
    match e with
    | .storageError message code =>
        obtain rfl := fromCode_text.mp h
        exact ⟨message, rfl⟩
    | .qemuImgError _ _ _ => exact absurd h (by decide : ErrorKind.fromCode "backend" ≠ .notFound)
    | .osError _ | .tarError | .jsonDecodeError | .keyError | .typeError | .attributeError
    | .valueError | .other _ => cases h
  · rintro ⟨message, rfl⟩
    exact fromCode_text.mpr rfl

theorem parseArgs_clone : parseArgs (SubprocessStore.cloneArgs vm disk sizeBytes image) =
    some (.clone image.text vm.text disk.text (cloneSize sizeBytes)) := by
  unfold SubprocessStore.cloneArgs cloneSize
  split
  · rfl
  · rfl

theorem run_clone : store.run host (SubprocessStore.cloneArgs vm disk sizeBytes image) w =
    let clone := store.home.cloneDisk host image.text vm.text disk.text (cloneSize sizeBytes) w
    (clone.1.mapError errorOf, clone.2) := by
  simp only [SubprocessStore.run, main, parseArgs_clone, Args.func]
  rcases store.home.cloneDisk host image.text vm.text disk.text (cloneSize sizeBytes) w
    with ⟨e | dst, w'⟩
  · simp only [exitOf, errorOf, Except.mapError]
    cases errorJson e <;> rfl
  · rfl

theorem createDisk_ok {info : DiskInfo}
    (h : store.createDisk host vm disk sizeBytes (some image) w = (.ok info, w')) :
    info.path = store.home.diskFile vm.text disk.text ∧ ∃ dst,
      store.home.cloneDisk host image.text vm.text disk.text (cloneSize sizeBytes) w =
        (.ok dst, w') := by
  unfold SubprocessStore.createDisk at h
  rw [bind_eq_ok] at h
  obtain ⟨path, w₁, hrun, hinfo⟩ := h
  obtain ⟨rfl, rfl⟩ := pure_eq_ok.mp hinfo
  refine ⟨rfl, ?_⟩
  simp only [run_clone] at hrun
  rcases hclone : store.home.cloneDisk host image.text vm.text disk.text (cloneSize sizeBytes) w
    with ⟨e | dst, w₂⟩
  · rw [hclone] at hrun
    cases hrun
  · rw [hclone] at hrun
    obtain ⟨-, rfl⟩ := Prod.mk.inj hrun
    exact ⟨dst, rfl⟩

theorem createDisk_notFound_iff :
    (∃ e w', store.createDisk host vm disk sizeBytes (some image) w = (.error e, w') ∧
        e.kind = .notFound) ↔
      ∃ message w', store.home.cloneDisk host image.text vm.text disk.text (cloneSize sizeBytes) w =
        (.error (.storageError message .notFound), w') := by
  rcases hclone : store.home.cloneDisk host image.text vm.text disk.text (cloneSize sizeBytes) w
    with ⟨e | dst, w₁⟩
  · have hrun : store.createDisk host vm disk sizeBytes (some image) w = (.error (errorOf e), w₁) :=
      bind_of_error (by simp only [run_clone, hclone, Except.mapError])
    rw [hrun]
    constructor
    · rintro ⟨_, _, heq, hkind⟩
      obtain ⟨herror, -⟩ := Prod.mk.inj heq
      obtain rfl := Except.error.inj herror
      obtain ⟨message, rfl⟩ := errorOf_kind_iff.mp hkind
      exact ⟨message, w₁, rfl⟩
    · rintro ⟨message, _, heq⟩
      obtain ⟨herror, -⟩ := Prod.mk.inj heq
      obtain rfl := Except.error.inj herror
      exact ⟨_, w₁, rfl, errorOf_kind_iff.mpr ⟨message, rfl⟩⟩
  · have hrun : store.createDisk host vm disk sizeBytes (some image) w =
        (.ok ⟨vm, disk, store.attachPath vm disk⟩, w₁) :=
      bind_of_ok (a := dst) (by simp only [run_clone, hclone, Except.mapError])
    rw [hrun]
    constructor
    · rintro ⟨_, _, heq, -⟩
      cases heq
    · rintro ⟨_, _, heq⟩
      cases heq

-- An image is cloned by its name as long as the working directory holds nothing of that name.
theorem createDisk_clones_iff (hq : Creates F host.qemuImg) :
    ClonesImage F host store vm disk sizeBytes image w ↔
      w.fs.node (Path.ofString host.cwd image.text) = none := by
  have hpath := @clonePath_run _ host store.home image.text w
  rw [imageCandidate_eq store.home image.nameMatches] at hpath
  constructor
  · intro hclones
    by_contra hthere
    rw [if_pos ((FileSystem.exists_iff w.fs).mpr hthere)] at hpath
    -- the entry of that name is the base, and no image has its name
    have hbase := congrArg Path.name (hclones.base _ (by rw [hpath]))
    rw [Path.ofString_of_isComponent _ (isComponent_of_valid image.nameMatches), Path.name_concat,
      DiskStore.imageFile, Path.name_concat] at hbase
    have hlen := congrArg String.length hbase
    rw [String.length_append] at hlen
    exact absurd hlen (by simp)
  · intro hnone
    rw [if_neg (by simpa using hnone)] at hpath
    have hbase : ∀ path, (store.home.clonePath host image.text w).1 = .ok path →
        path = store.home.imageFile image.text := by
      intro path h
      rw [hpath] at h
      split at h
      · exact (Except.ok.inj h).symm
      · cases h
    refine ⟨fun info w' h => ?_, ?_, hbase⟩
    · obtain ⟨hinfo, dst, hclone⟩ := createDisk_ok h
      obtain ⟨basePath, hbasePath, hbacks⟩ := cloneDisk_ok hq hclone
      obtain rfl := hbase basePath hbasePath
      rw [imageFile_resolve _ image.nameMatches] at hbacks
      exact ⟨hinfo, hinfo ▸ hbacks⟩
    · rw [createDisk_notFound_iff]
      by_cases himage : w.fs.node (store.home.imageFile image.text) = none
      · rw [if_neg (by simpa using himage)] at hpath
        exact iff_of_true ⟨_, w, bind_of_error hpath⟩ himage
      · refine iff_of_false ?_ himage
        rintro ⟨message, w', hclone⟩
        rw [if_pos ((FileSystem.exists_iff w.fs).mpr himage)] at hpath
        exact cloneDisk_notMissing (by rw [hpath]) hclone message rfl

end

end

section Work

-- A home with one image, and what the working directory holds.
def workWorld (entries : List (String × Blob)) : World Blob :=
  Memory.world ([(["srv"], .dir), (["srv", "images"], .dir),
    (imagePath "base", Memory.plain (.qcow2 1 [] none)), (["work"], .dir)] ++
    entries.map fun entry => (["work", entry.1], Memory.plain entry.2))

def webVm : VmName := ⟨"web", by decide⟩

def dataDisk : DiskName := ⟨"data", by decide⟩

def baseImage : ImageName := ⟨"base", by decide⟩

theorem createDisk_clones_base :
    ClonesImage memoryFormats (memoryHost ["work"]) ⟨treeStore⟩ webVm dataDisk 0 baseImage
      (workWorld [("base.qcow2", .text "notes")]) :=
  (createDisk_clones_iff (Memory.creates ["work"])).mpr (by decide)

-- A file of the name of the image.
theorem createDisk_takes_stray :
    let stray := workWorld [("base", .text "notes")]
    let run := SubprocessStore.createDisk ⟨treeStore⟩ (memoryHost ["work"]) webVm dataDisk 0
      (some baseImage) stray
    run.1.isOk = true ∧
      pointer memoryFormats run.2.fs (treeStore.diskFile "web" "data") = some ["work", "base"] ∧
      ¬ClonesImage memoryFormats (memoryHost ["work"]) ⟨treeStore⟩ webVm dataDisk 0 baseImage stray := by
  intro stray run
  have hpointer : pointer memoryFormats run.2.fs (treeStore.diskFile "web" "data") =
      some ["work", "base"] := by decide
  refine ⟨by decide, hpointer, fun h => ?_⟩
  obtain ⟨info, hrun⟩ := eq_ok_of_isOk (x := run) (by decide)
  obtain ⟨hpath, hbacks⟩ := h.overlay info run.2 hrun
  rw [hpath] at hbacks
  have himage := hpointer.symm.trans (backs_iff_pointer.mp hbacks)
  exact absurd himage (by decide)

end Work

end VMForge.Core
