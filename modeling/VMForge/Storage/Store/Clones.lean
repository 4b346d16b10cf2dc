import VMForge.Storage.Store.Calls
import VMForge.Storage.Store.Forest

namespace VMForge.Storage

open Exec

section

variable {β : Type} {host : Host β} {store : DiskStore} {w w' : World β}

-- An exception that does not say that something was not found.
def NotMissing (e : PyError) : Prop := ∀ message, e ≠ .storageError message .notFound

theorem createFault_notMissing {fs : FileSystem β} {p : Path} {e : PyError}
    (h : createFault fs p = some e) : NotMissing e := by
  intro message he
  subst he
  simp only [createFault] at h
  split at h
  · cases h
  split at h
  · cases h
  split at h
  · cases h
  split at h
  · cases h
  · cases h

theorem mkdirs_raises (p : Path) : Raises NotMissing (mkdirs p : Run β Unit) := by
  have hfrom : ∀ (rest : List String) (base : Path),
      Raises NotMissing (mkdirsFrom base rest : Run β Unit) := by
    intro rest
    induction rest with
    | nil => exact fun base => .pure _
    | cons n rest ih =>
        intro base
        refine .bind (.read_bind fun w => ?_) fun _ => ih _
        split
        · exact .pure _
        split
        · exact .raise fun message he => by cases he
        split
        · rename_i e he
          exact .raise (createFault_notMissing he)
        · exact .of_ok fun w => ⟨(), _, rfl⟩
  exact hfrom p []

theorem runQemuImg_raises (c : Command) : Raises NotMissing (runQemuImg host c) := by
  refine .bind (.raiseIf fun _ message he => by cases he) fun _ => .read_bind fun w => ?_
  refine .bind ?_ fun _ => ?_
  · cases (host.qemuImg.exec w c).content with
    | none => exact .pure _
    | some b =>
        refine .read_bind fun w => .bind (.raiseIf fun _ message he => by cases he) fun _ => ?_
        exact .of_ok fun w => ⟨(), _, rfl⟩
  · cases (host.qemuImg.exec w c).failure with
    | none => exact .pure _
    | some failure => exact .raise fun message he => by cases he

theorem createQcow2_raises {path : Path} {size : Option String}
    {backing : Option (List String × String)} {preallocation : String}
    {clusterSize : Option String} :
    Raises NotMissing (createQcow2 host path size backing preallocation clusterSize) := by
  refine .bind (.raiseIf fun _ message he => by cases he) fun _ => ?_
  exact .bind (.raiseIf fun _ message he => by cases he) fun _ => runQemuImg_raises _

theorem info_raises (path : Path) : Raises NotMissing (info host path) := by
  refine .read_bind fun w => ?_
  split
  · exact .raise fun message he => by cases he
  · exact .pure _

theorem diskPath_raises (vm disk : String) :
    Raises NotMissing (store.diskPath vm disk : Run β Path) := by
  have hname : ∀ kind name, Raises NotMissing (validateName kind name : Run β String) :=
    fun kind name => .bind (.raiseIf fun _ message he => by cases he) fun _ => .pure _
  exact .bind (.bind (hname _ _) fun _ => .pure _) fun _ => .bind (hname _ _) fun _ => .pure _

theorem imagesDir_resolve (store : DiskStore) : Path.resolve store.imagesDir = store.imagesDir := by
  refine Path.resolve_of_notMem (Path.dotdot_notMem_of_isComponent fun n hn => ?_)
  simp only [DiskStore.imagesDir, List.mem_append, List.mem_singleton] at hn
  rcases hn with hn | rfl
  · exact store.legal n hn
  · decide

-- An image name has the file of that name in the directory of images.
theorem imageCandidate_eq (store : DiskStore) {base : String} (hbase : nameMatches base = true) :
    store.imageCandidate base = store.imageFile base := by
  rw [DiskStore.imageCandidate, Path.ofString_of_isComponent _ (isComponent_qcow2 hbase),
    imagesDir_resolve, DiskStore.imageFile]

theorem imageFile_resolve (store : DiskStore) {base : String} (hbase : nameMatches base = true) :
    Path.resolve (store.imageFile base) = store.imageFile base := by
  have hdots := ((Path.isComponent_iff _).mp (isComponent_qcow2 hbase)).2.2.1
  rw [DiskStore.imageFile, Path.resolve_concat _ hdots, imagesDir_resolve]

-- The base of a clone: what is in the working directory, then the image.
theorem clonePath_run (base : String) (w : World β) :
    store.clonePath host base w =
      (if w.fs.exists_ (Path.ofString host.cwd base) then .ok (Path.ofString host.cwd base)
      else if w.fs.exists_ (store.imageCandidate base) then .ok (store.imageCandidate base)
      else .error (.storageError [.text "base image not found: ", .text base] .notFound), w) := by
  unfold DiskStore.clonePath
  rw [bind_of_ok (exists_eq_ok.mpr ⟨rfl, rfl⟩)]
  by_cases hcwd : w.fs.exists_ (Path.ofString host.cwd base) = true
  · rw [if_pos hcwd, if_pos hcwd]
    rfl
  rw [if_neg hcwd, if_neg hcwd, bind_of_ok (exists_eq_ok.mpr ⟨rfl, rfl⟩)]
  by_cases himage : w.fs.exists_ (store.imageCandidate base) = true
  · rw [himage]
    rfl
  · rw [Bool.not_eq_true] at himage
    rw [himage]
    rfl

-- What a clone that was made is put on.
theorem cloneDisk_ok {F : Formats β} (hq : Creates F host.qemuImg) {base vm disk : String}
    {size : Option String} {dst : Path}
    (h : store.cloneDisk host base vm disk size w = (.ok dst, w')) :
    ∃ basePath, (store.clonePath host base w).1 = .ok basePath ∧
      Backs F w'.fs (store.diskFile vm disk) (Path.resolve basePath) := by
  unfold DiskStore.cloneDisk at h
  rw [bind_eq_ok] at h
  obtain ⟨basePath, w₁, hbase, h⟩ := h
  simp only [bind_eq_ok, DiskStore.diskPath_eq_ok, exists_eq_ok, raiseIf_eq_ok, pure_eq_ok] at h
  obtain ⟨baseInfo, w₂, -, _, _, ⟨-, -, rfl, rfl⟩, _, _, ⟨-, rfl⟩, _, _, ⟨-, rfl⟩, _, w₃, -, _, w₄,
    hcreate, -, rfl⟩ := h
  obtain ⟨b, l, hnode, hl, hbacking, -⟩ := createQcow2_ok hq hcreate
  refine ⟨basePath, by rw [hbase], l, baseInfo.format, layerAt_eq_some.mpr ⟨b, ?_, hl⟩, hbacking⟩
  exact FileSystem.blob_eq_some _ |>.mpr ⟨_, hnode⟩

-- Nothing but a missing base is reported as not found.
theorem cloneDisk_notMissing {base vm disk : String} {size : Option String} {basePath : Path}
    {e : PyError} (hbase : (store.clonePath host base w).1 = .ok basePath)
    (h : store.cloneDisk host base vm disk size w = (.error e, w')) : NotMissing e := by
  have hrest : Raises NotMissing (do
      let baseInfo ← info host basePath
      let dst ← store.diskPath vm disk
      let taken ← exists_ dst
      raiseIf taken (.storageError [.text "disk already exists: ", .path dst] .alreadyExists)
      mkdirs dst.dropLast
      createQcow2 host dst size (some (basePath, baseInfo.format)) "off" none
      pure dst) := by
    refine .bind (info_raises _) fun baseInfo => .bind (diskPath_raises _ _) fun dst => ?_
    refine .bind (.of_ok fun w => ⟨_, w, exists_eq_ok.mpr ⟨rfl, rfl⟩⟩) fun taken => ?_
    refine .bind (.raiseIf fun _ message he => by cases he) fun _ => ?_
    exact .bind (mkdirs_raises _) fun _ => .bind createQcow2_raises fun _ => .pure _
  have hrun : store.clonePath host base w = (.ok basePath, w) :=
    Prod.ext hbase (clonePath_quiet base w)
  unfold DiskStore.cloneDisk at h
  rw [bind_of_ok hrun] at h
  exact hrest w e w' h

end

end VMForge.Storage
