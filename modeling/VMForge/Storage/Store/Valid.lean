import VMForge.Storage.Store.Reachable

namespace VMForge.Storage

open Exec

-- No name was rejected.
def NotRejected (e : PyError) : Prop := ∀ message, e ≠ .storageError message .invalidConfig

-- The names that a call hands over are valid.
def Call.Valid : Call → Prop
  | .createDisk vm disk _ _ _ | .resizeDisk vm disk _ _ | .importDisk _ vm disk _
  | .cloneDisk _ vm disk _ | .deleteDisk vm disk _ => nameMatches vm = true ∧ nameMatches disk = true
  | .importImage _ name _ _ => nameMatches name = true
  | .snapshotCreate vm disk name => nameMatches vm = true ∧ nameMatches disk = true ∧ nameMatches name = true
  | .snapshotRevert vm disk _ | .snapshotDelete vm disk _ =>
      nameMatches vm = true ∧ nameMatches disk = true

section

variable {β : Type} {host : Host β} {store : DiskStore} {vm disk : String} {α : Type}

theorem notRejected_of_notStorage {x : Run β α} (h : Raises NotStorage x) : Raises NotRejected x :=
  h.mono fun _ he message => he message .invalidConfig

theorem notRejected_of_system {x : Run β α} (h : Raises IsSystem x) : Raises NotRejected x :=
  notRejected_of_notStorage (notStorage_of_system h)

theorem notRejected_storage (message : Message) {code : ErrorCode} (hcode : code ≠ .invalidConfig) :
    NotRejected (.storageError message code) := by
  rintro message' he
  exact hcode (PyError.storageError.inj he).2

theorem exists_notRejected (p : Path) : Raises NotRejected (exists_ p : Run β Bool) :=
  .of_ok fun w => ⟨_, w, exists_eq_ok.mpr ⟨rfl, rfl⟩⟩

theorem raiseIf_notRejected (c : Bool) (message : Message) {code : ErrorCode}
    (hcode : code ≠ .invalidConfig) :
    Raises NotRejected (raiseIf c (.storageError message code) : Run β Unit) :=
  .raiseIf fun _ => notRejected_storage message hcode

theorem mapEach_raises {γ : Type} {E : PyError → Prop} {as : List γ} {body : γ → Run β α}
    (h : ∀ a, Raises E (body a)) : Raises E (mapEach as body) := by
  induction as with
  | nil => exact .pure _
  | cons a as ih => exact .bind (h a) fun _ => .bind ih fun _ => .pure _

-- Where a name is valid the check of it raises nothing.
theorem validateName_valid {E : PyError → Prop} {kind name : String} (h : nameMatches name = true) :
    Raises E (validateName kind name : Run β String) :=
  .bind (.raiseIf fun hbad => by rw [h] at hbad; cases hbad) fun _ => .pure _

section Names

variable (hvm : nameMatches vm = true) (hdisk : nameMatches disk = true)

include hvm hdisk

theorem diskPath_valid {E : PyError → Prop} : Raises E (store.diskPath vm disk : Run β Path) :=
  .bind (.bind (validateName_valid hvm) fun _ => .pure _) fun _ =>
    .bind (validateName_valid hdisk) fun _ => .pure _

theorem snapshotDir_valid {E : PyError → Prop} : Raises E (store.snapshotDir vm disk : Run β Path) :=
  .bind (.bind (validateName_valid hvm) fun _ => .pure _) fun _ =>
    .bind (validateName_valid hdisk) fun _ => .pure _

theorem snapshotPath_valid {E : PyError → Prop} {n : String} (hn : nameMatches n = true) :
    Raises E (store.snapshotPath vm disk n : Run β Path) :=
  .bind (snapshotDir_valid hvm hdisk) fun _ => .bind (validateName_valid hn) fun _ => .pure _

theorem requireDisk_notRejected : Raises NotRejected (store.requireDisk vm disk : Run β Path) :=
  .bind (diskPath_valid hvm hdisk) fun _ => .bind (exists_notRejected _) fun _ =>
    .bind (raiseIf_notRejected _ _ nofun) fun _ => .pure _

theorem backingName_valid {E : PyError → Prop} (backing : Option Path) :
    Raises E (store.backingName vm disk backing : Run β (Option String)) := by
  cases backing with
  | none => exact .pure _
  | some path => exact .bind (snapshotDir_valid hvm hdisk) fun _ => .pure _

theorem snapshotList_notRejected : Raises NotRejected (store.snapshotList host vm disk) := by
  refine .bind (requireDisk_notRejected hvm hdisk) fun _ => .bind (snapshotDir_valid hvm hdisk) fun _ =>
    .bind (notRejected_of_notStorage (info_notStorage _)) fun _ =>
      .bind (backingName_valid hvm hdisk _) fun current => .read_bind fun _ => .bind ?_ fun _ => .pure _
  exact mapEach_raises fun _ => .bind (notRejected_of_notStorage (info_notStorage _)) fun _ =>
    .bind (backingName_valid hvm hdisk _) fun _ => .pure _

theorem getSnapshot_notRejected (n : String) : Raises NotRejected (store.getSnapshot host vm disk n) := by
  refine .bind (snapshotList_notRejected hvm hdisk) fun snaps => ?_
  split
  · exact .pure _
  · exact .raise (notRejected_storage _ nofun)

theorem squashInto_notRejected (snap : Snapshot) (child : String) :
    Raises NotRejected (store.squashInto host vm disk snap child) := by
  refine .bind (getSnapshot_notRejected hvm hdisk _) fun _ => .bind ?_ fun _ =>
    .bind (notRejected_of_system (chmod_system _ _)) fun _ =>
      .bind (notRejected_of_notStorage (runQemuImg_notStorage _)) fun _ =>
        notRejected_of_system (chmod_system _ _)
  unfold DiskStore.parentPath
  split
  · exact .pure _
  · exact .bind (getSnapshot_notRejected hvm hdisk _) fun _ => .pure _

theorem snapshotCreate_notRejected {n : String} (hn : nameMatches n = true) :
    Raises NotRejected (store.snapshotCreate host vm disk n) := by
  refine .bind (requireDisk_notRejected hvm hdisk) fun _ => .bind (snapshotPath_valid hvm hdisk hn) fun _ =>
    .bind (exists_notRejected _) fun _ => .bind (raiseIf_notRejected _ _ nofun) fun _ =>
      .bind (notRejected_of_system (mkdirs_system _)) fun _ =>
        .bind (notRejected_of_notStorage (info_notStorage _)) fun _ =>
          .bind (notRejected_of_system (rename_system _ _)) fun _ =>
            .bind (notRejected_of_system (chmod_system _ _)) fun _ =>
              .bind ?_ fun _ => .bind (backingName_valid hvm hdisk _) fun _ => .pure _
  -- the exception is raised again once the way back is gone
  exact .tryExcept (notRejected_of_notStorage createQcow2_notStorage) fun e he =>
    .bind (notRejected_of_system (chmod_system _ _)) fun _ =>
      .bind (notRejected_of_system (rename_system _ _)) fun _ => .raise he

theorem snapshotRevert_notRejected (n : String) :
    Raises NotRejected (store.snapshotRevert host vm disk n) :=
  .bind (requireDisk_notRejected hvm hdisk) fun _ => .bind (getSnapshot_notRejected hvm hdisk _) fun _ =>
    .bind (notRejected_of_notStorage createQcow2_notStorage) fun _ =>
      notRejected_of_system (rename_system _ _)

theorem snapshotDelete_notRejected (n : String) :
    Raises NotRejected (store.snapshotDelete host vm disk n) := by
  refine .bind (getSnapshot_notRejected hvm hdisk _) fun snap =>
    .bind (raiseIf_notRejected _ _ nofun) fun _ => ?_
  have hdiscard : ∀ p, Raises NotRejected (chmod p 0o644 >>= fun _ => unlink p : Run β Unit) := fun p =>
    .bind (notRejected_of_system (chmod_system _ _)) fun _ => notRejected_of_system (unlink_system _)
  split
  · exact hdiscard _
  · exact .bind (squashInto_notRejected hvm hdisk _ _) fun _ => hdiscard _
  · exact .bind (.raise (notRejected_storage _ nofun)) fun _ => hdiscard _

end Names

-- The operations that make a file reject nothing either, once the name is valid.
theorem make_notRejected {p dst : Path} {x : Run β Unit} (hx : Raises NotStorage x) :
    Raises NotRejected (mkdirs p >>= fun _ => x >>= fun _ => pure dst) :=
  notRejected_of_notStorage (make_notStorage hx)

theorem vacant_notRejected {γ : Type} (p : Path) {message : Message} {x : Run β γ}
    (hx : Raises NotRejected x) :
    Raises NotRejected (exists_ p >>= fun taken =>
      raiseIf taken (.storageError message .alreadyExists) >>= fun _ => x) :=
  .bind (exists_notRejected _) fun _ => .bind (raiseIf_notRejected _ _ nofun) fun _ => hx

theorem clonePath_notRejected (base : String) : Raises NotRejected (store.clonePath host base : Run β Path) := by
  refine .bind (exists_notRejected _) fun found => ?_
  split
  · exact .pure _
  · exact .bind (exists_notRejected _) fun _ => .bind (raiseIf_notRejected _ _ nofun) fun _ => .pure _

theorem dropResult_raises {E : PyError → Prop} {x : Run β α} (h : Raises E x) :
    Raises E (dropResult x) := .bind h fun _ => .pure _

-- A call with valid names is never rejected because of a name.
theorem Call.notRejected {c : Call} (h : c.Valid) : Raises NotRejected (c.run host store) := by
  cases c with
  | createDisk vm disk size preallocation clusterSize =>
      exact dropResult_raises (.bind (diskPath_valid h.1 h.2) fun _ =>
        vacant_notRejected _ (make_notRejected createQcow2_notStorage))
  | resizeDisk vm disk newSize shrink =>
      exact .bind (requireDisk_notRejected h.1 h.2) fun _ =>
        notRejected_of_notStorage (runQemuImg_notStorage _)
  | importImage src name srcFormat compress =>
      exact dropResult_raises (.bind (exists_notRejected _) fun _ =>
        .bind (raiseIf_notRejected _ _ nofun) fun _ => .bind (validateName_valid h) fun _ =>
          vacant_notRejected _ (make_notRejected (runQemuImg_notStorage _)))
  | importDisk src vm disk srcFormat =>
      exact dropResult_raises (.bind (exists_notRejected _) fun _ =>
        .bind (raiseIf_notRejected _ _ nofun) fun _ => .bind (diskPath_valid h.1 h.2) fun _ =>
          vacant_notRejected _ (make_notRejected (runQemuImg_notStorage _)))
  | cloneDisk base vm disk size =>
      exact dropResult_raises (.bind (clonePath_notRejected base) fun _ =>
        .bind (notRejected_of_notStorage (info_notStorage _)) fun _ =>
          .bind (diskPath_valid h.1 h.2) fun _ =>
            vacant_notRejected _ (make_notRejected createQcow2_notStorage))
  | deleteDisk vm disk force =>
      refine .bind (requireDisk_notRejected h.1 h.2) fun path =>
        .bind (snapshotDir_valid h.1 h.2) fun snapDir => .bind (exists_notRejected _) fun hasDir => ?_
      have hrest : ∀ names : List String, Raises NotRejected (do
          raiseIf (!names.isEmpty && !force) (.storageError
            [.text "disk ", .repr (.str disk),
              .text " has snapshots; delete them first or use force"] .invalidState)
          unlink path
          let hasDir ← exists_ snapDir
          runIf hasDir (rmtree snapDir) : Run β Unit) := fun names =>
        .bind (raiseIf_notRejected _ _ nofun) fun _ => .bind (notRejected_of_system (unlink_system _)) fun _ =>
          .bind (exists_notRejected _) fun _ => notRejected_of_system (runIf_system (rmtree_system _))
      cases hasDir with
      | true => exact .bind (notRejected_of_system (iterdir_system _)) hrest
      | false => exact hrest []
  | snapshotCreate vm disk name => exact dropResult_raises (snapshotCreate_notRejected h.1 h.2.1 h.2.2)
  | snapshotRevert vm disk name => exact snapshotRevert_notRejected h.1 h.2 name
  | snapshotDelete vm disk name => exact snapshotDelete_notRejected h.1 h.2 name

end

end VMForge.Storage
