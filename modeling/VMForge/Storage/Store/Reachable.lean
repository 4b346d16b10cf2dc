import VMForge.Storage.Store.History

namespace VMForge.Storage

open Exec

-- A call was refused: it raised an exception, but no `StorageError` after it had begun to write.
section Refusals

variable {β : Type} {host : Host β} {store : DiskStore} {vm disk : String} {w w' : World β}
  {α γ : Type}

def NotStorage (e : PyError) : Prop := ∀ message code, e ≠ .storageError message code

-- A `StorageError` says that nothing was done.
def Refuses (x : Run β α) (w : World β) : Prop :=
  ∀ message code w', x w = (.error (.storageError message code), w') → w' = w

namespace Refuses

theorem of_raises {x : Run β α} (h : Raises NotStorage x) : Refuses x w := fun message code _ hx =>
  absurd rfl (h _ _ _ hx message code)

theorem look {x : Run β γ} {f : γ → Run β α} (hx : Quiet x)
    (hf : ∀ a, x w = (.ok a, w) → Refuses (f a) w) : Refuses (x >>= f) w := by
  intro message code w' h
  rcases hx.bind_cases h with ⟨e, -, rfl⟩ | ⟨a, hrun, h⟩
  · rfl
  · exact hf a hrun message code w' h

theorem dropResult {x : Run β α} (h : Refuses x w) : Refuses (Storage.dropResult x) w := by
  intro message code w' hrun
  rcases hx : x w with ⟨e | a, w₁⟩
  · rw [Storage.dropResult, bind_of_error hx] at hrun
    obtain ⟨he, rfl⟩ := Prod.mk.inj hrun
    rw [Except.error.inj he] at hx
    exact h message code _ hx
  · rw [Storage.dropResult, bind_of_ok hx] at hrun
    cases (Prod.mk.inj hrun).1

end Refuses

theorem IsSystem.notStorage {e : PyError} (h : IsSystem e) : NotStorage e := by
  rcases h with ⟨errno, rfl⟩ | rfl
  · exact nofun
  · exact nofun

theorem notStorage_of_system {x : Run β α} (h : Raises IsSystem x) : Raises NotStorage x :=
  h.mono fun _ he => he.notStorage

theorem runQemuImg_notStorage (c : Command) : Raises NotStorage (runQemuImg host c) := by
  refine .bind (.raiseIf fun _ => nofun) fun _ => .read_bind fun w => .bind ?_ fun _ => ?_
  · cases (host.qemuImg.exec w c).content with
    | none => exact .pure _
    | some b =>
        refine .read_bind fun w => .bind (.raiseIf fun _ => nofun) fun _ => ?_
        exact .of_ok fun w => ⟨(), _, rfl⟩
  · cases (host.qemuImg.exec w c).failure with
    | none => exact .pure _
    | some failure => exact .raise nofun

theorem createQcow2_notStorage {path : Path} {size : Option String}
    {backing : Option (List String × String)} {preallocation : String} {clusterSize : Option String} :
    Raises NotStorage (createQcow2 host path size backing preallocation clusterSize) :=
  .bind (.raiseIf fun _ => nofun) fun _ => .bind (.raiseIf fun _ => nofun) fun _ =>
    runQemuImg_notStorage _

theorem info_notStorage (path : Path) : Raises NotStorage (info host path) := by
  refine .read_bind fun w => ?_
  split
  · exact .raise nofun
  · exact .pure _

-- To make a file in a directory that is made.
theorem make_notStorage {p dst : Path} {x : Run β Unit} (hx : Raises NotStorage x) :
    Raises NotStorage (mkdirs p >>= fun _ => x >>= fun _ => pure dst) :=
  .bind (notStorage_of_system (mkdirs_system p)) fun _ => .bind hx fun _ => .pure _

theorem createDisk_refuses {size preallocation : String} {clusterSize : Option String} :
    Refuses (store.createDisk host vm disk size preallocation clusterSize) w :=
  .look (store.diskPath_quiet vm disk) fun _ _ => .look (.exists_ _) fun _ _ =>
    .look (.raiseIf _ _) fun _ _ => .of_raises (make_notStorage createQcow2_notStorage)

theorem importImage_refuses {src name : String} {srcFormat : Option String} {compress : Bool} :
    Refuses (store.importImage host src name srcFormat compress) w :=
  .look (.exists_ _) fun _ _ => .look (.raiseIf _ _) fun _ _ =>
    .look (validateName_quiet _ _) fun _ _ => .look (.exists_ _) fun _ _ =>
      .look (.raiseIf _ _) fun _ _ => .of_raises (make_notStorage (runQemuImg_notStorage _))

theorem importDisk_refuses {src : String} {srcFormat : Option String} :
    Refuses (store.importDisk host src vm disk srcFormat) w :=
  .look (.exists_ _) fun _ _ => .look (.raiseIf _ _) fun _ _ =>
    .look (store.diskPath_quiet vm disk) fun _ _ => .look (.exists_ _) fun _ _ =>
      .look (.raiseIf _ _) fun _ _ => .of_raises (make_notStorage (runQemuImg_notStorage _))

theorem cloneDisk_refuses {base : String} {size : Option String} :
    Refuses (store.cloneDisk host base vm disk size) w :=
  .look (clonePath_quiet base) fun _ _ => .look (info_quiet _) fun _ _ =>
    .look (store.diskPath_quiet vm disk) fun _ _ => .look (.exists_ _) fun _ _ =>
      .look (.raiseIf _ _) fun _ _ => .of_raises (make_notStorage createQcow2_notStorage)

theorem deleteDisk_refuses {force : Bool} : Refuses (store.deleteDisk vm disk force : Run β Unit) w := by
  refine .look (store.requireDisk_quiet vm disk) fun path _ => ?_
  refine .look (store.snapshotDir_quiet vm disk) fun snapDir _ => .look (.exists_ _) fun hasDir _ => ?_
  have hrest : ∀ names : List String, Refuses (do
      raiseIf (!names.isEmpty && !force) (.storageError [.text "disk ", .repr (.str disk),
        .text " has snapshots; delete them first or use force"] .invalidState)
      unlink path
      let hasDir ← exists_ snapDir
      runIf hasDir (rmtree snapDir) : Run β Unit) w := fun names =>
    .look (.raiseIf _ _) fun _ _ => .of_raises (notStorage_of_system (.bind (unlink_system path) fun _ =>
      .bind (.of_ok fun w => ⟨_, w, rfl⟩) fun _ => runIf_system (rmtree_system snapDir)))
  split
  · exact .look (.iterdir _) fun names _ => hrest names
  · exact hrest []

theorem snapshotCreate_refuses {n : String} : Refuses (store.snapshotCreate host vm disk n) w := by
  refine .look (store.requireDisk_quiet vm disk) fun active hrun => ?_
  obtain ⟨hvm, hdisk, -⟩ := store.requireDisk_eq_ok.mp hrun
  refine .look (store.snapshotPath_quiet vm disk n) fun snapPath _ => .look (.exists_ _) fun taken _ => ?_
  refine .look (.raiseIf _ _) fun _ _ => .of_raises ?_
  refine .bind (notStorage_of_system (mkdirs_system _)) fun _ => .bind (info_notStorage _) fun inf => ?_
  refine .bind (notStorage_of_system (rename_system _ _)) fun _ => .bind (notStorage_of_system (chmod_system _ _)) fun _ => .bind ?_ fun _ => ?_
  · intro w e w' h
    rcases hcreate : createQcow2 host active none (some (snapPath, "qcow2")) "off" none w with ⟨e' | u, w₁⟩
    · rw [tryExcept_of_error hcreate] at h
      have hback : Raises NotStorage (chmod snapPath 0o644 >>= fun _ => rename snapPath active >>= fun _ =>
          raise e' : Run β Unit) :=
        .bind (notStorage_of_system (chmod_system _ _)) fun _ => .bind (notStorage_of_system (rename_system _ _)) fun _ =>
          .raise (createQcow2_notStorage _ _ _ hcreate)
      exact hback _ _ _ h
    · rw [tryExcept_of_ok hcreate] at h
      cases (Prod.mk.inj h).1
  · -- the names are valid by now
    exact .bind (.of_ok fun w => ⟨_, w, backingName_run hvm hdisk _⟩) fun _ => .pure _

theorem snapshotRevert_refuses {n : String} : Refuses (store.snapshotRevert host vm disk n) w :=
  .look (store.requireDisk_quiet vm disk) fun _ _ => .look (getSnapshot_quiet n) fun _ _ =>
    .of_raises (.bind createQcow2_notStorage fun _ => notStorage_of_system (rename_system _ _))

theorem snapshotDelete_refuses {n : String} : Refuses (store.snapshotDelete host vm disk n) w := by
  intro message code w' h
  cases snapshotDelete_end h with
  | refused => rfl
  | unrebased _ _ _ _ _ _ hrebase => exact absurd rfl (runQemuImg_notStorage _ _ _ _ hrebase message code)
  | leaf _ _ _ hdiscard => exact absurd rfl (notStorage_of_system (discard_system _) _ _ _ hdiscard message code)
  | squashed _ _ _ _ _ _ _ _ hdiscard =>
      exact absurd rfl (notStorage_of_system (discard_system _) _ _ _ hdiscard message code)

-- A call that is refused changes nothing.
theorem Call.refuses (c : Call) (w : World β) : Refuses (c.run host store) w := by
  cases c with
  | createDisk => exact createDisk_refuses.dropResult
  | resizeDisk =>
      exact .look (store.requireDisk_quiet _ _) fun _ _ => .of_raises (runQemuImg_notStorage _)
  | importImage => exact importImage_refuses.dropResult
  | importDisk => exact importDisk_refuses.dropResult
  | cloneDisk => exact cloneDisk_refuses.dropResult
  | deleteDisk => exact deleteDisk_refuses
  | snapshotCreate => exact snapshotCreate_refuses.dropResult
  | snapshotRevert => exact snapshotRevert_refuses
  | snapshotDelete => exact snapshotDelete_refuses

end Refusals

-- Every disk that is there can be read.
def Readable {β : Type} (F : Formats β) (store : DiskStore) (fs : FileSystem β) : Prop :=
  ∀ vm disk, fs.node (store.diskFile vm disk) ≠ none →
    (F.layerAt fs (activeRef store vm disk)).isSome = true

-- The call returned, or was refused.
def Call.Settled {β : Type} (host : Host β) (store : DiskStore) (w : World β) (c : Call) : Prop :=
  match (c.run host store w).1 with
  | .ok _ => True
  | .error e => ∃ message code, e = .storageError message code

section Disks

variable {β : Type} {F : Formats β} {host : Host β} {store : DiskStore} {vm disk n : String}
  {w w' : World β} {fs fs' : FileSystem β}

theorem Readable.of_disks (h : Readable F store fs)
    (hdisks : ∀ vm disk, fs'.node (store.diskFile vm disk) = fs.node (store.diskFile vm disk) ∨
      fs'.node (store.diskFile vm disk) = none ∨
      (F.layerAt fs' (activeRef store vm disk)).isSome = true) : Readable F store fs' := by
  intro vm disk hn
  rcases hdisks vm disk with hsame | hnone | hl
  · have hlayer : F.layerAt fs' (activeRef store vm disk) = F.layerAt fs (activeRef store vm disk) :=
      layerAt_same hsame
    rw [hlayer]
    exact h vm disk (hsame ▸ hn)
  · exact absurd hnone hn
  · exact hl

theorem Readable.of_disk (h : Readable F store fs)
    (hbut : SameBut store (· = store.diskFile vm disk) fs fs')
    (hl : (F.layerAt fs' (activeRef store vm disk)).isSome = true) : Readable F store fs' := by
  refine h.of_disks fun vm' disk' => ?_
  by_cases he : store.diskFile vm' disk' = store.diskFile vm disk
  · obtain ⟨rfl, rfl⟩ := diskFile_eq_iff.mp he
    exact Or.inr (Or.inr hl)
  · exact Or.inl (hbut _ (.disk vm' disk') he)

-- What a command wrote that gives every target a layer.
theorem layerAt_of_ok {c : Command} {path : Path} {u : Unit} (htarget : c.target = path)
    (hwhole : (host.qemuImg.exec w c).failure = none →
      ∃ b, (host.qemuImg.exec w c).content = some b ∧ (F.decode "qcow2" b).isSome = true)
    (h : runQemuImg host c w = (.ok u, w')) : (F.layerAt w'.fs (path, "qcow2")).isSome = true := by
  obtain ⟨hok, hwrote⟩ := runQemuImg_ok h
  obtain ⟨b, hb, hl⟩ := hwhole hok
  obtain ⟨hnode, -⟩ := hwrote b hb
  rw [htarget] at hnode
  rwa [layerAt_written hnode]

theorem Made.readable {c : Command} (h : Readable F store w.fs) (hmade : Made host store c w true w')
    (htarget : c.target = store.diskFile vm disk)
    (hwhole : ∀ w₁, (host.qemuImg.exec w₁ c).failure = none →
      ∃ b, (host.qemuImg.exec w₁ c).content = some b ∧ (F.decode "qcow2" b).isSome = true) :
    Readable F store w'.fs := by
  obtain ⟨w₁, r, hsame, hrun, hr⟩ := hmade.ran
  cases r with
  | error e => cases hr
  | ok u =>
      have hbut := hsame.but (runQemuImg_but hrun)
      rw [htarget] at hbut
      exact h.of_disk hbut (layerAt_of_ok htarget (hwhole w₁) hrun)

section

variable (hq : Lawful F host.qemuImg)

include hq

-- A command that makes an image makes a readable one.
theorem create_whole (w₁ : World β) {path : Path} {size : Option String}
    {backing : Option (List String × String)} {preallocation : String} {clusterSize : Option String}
    (hok : (host.qemuImg.exec w₁ (.create path size backing preallocation clusterSize)).failure = none) :
    ∃ b, (host.qemuImg.exec w₁ (.create path size backing preallocation clusterSize)).content = some b ∧
      (F.decode "qcow2" b).isSome = true := by
  obtain ⟨b, l, hb, hl, -⟩ := hq.creates w₁ path size backing preallocation clusterSize hok
  exact ⟨b, hb, Option.isSome_iff_exists.mpr ⟨l, hl⟩⟩

variable (hread : Readable F store w.fs)

include hread

theorem createDisk_readable {size preallocation : String} {clusterSize : Option String} {p : Path}
    (h : store.createDisk host vm disk size preallocation clusterSize w = (.ok p, w')) :
    Readable F store w'.fs := by
  rcases createDisk_cases h with ⟨hbad, -⟩ | ⟨-, -, hmade⟩
  · cases hbad
  · exact hmade.readable hread rfl fun w₁ => create_whole hq w₁

theorem importDisk_readable {src : String} {srcFormat : Option String} {p : Path}
    (h : store.importDisk host src vm disk srcFormat w = (.ok p, w')) : Readable F store w'.fs := by
  rcases importDisk_cases h with ⟨hbad, -⟩ | ⟨-, -, srcPath, hmade⟩
  · cases hbad
  · exact hmade.readable hread rfl fun w₁ => hq.convertedWhole w₁ _ _ _ _

theorem cloneDisk_readable {base : String} {size : Option String} {p : Path}
    (h : store.cloneDisk host base vm disk size w = (.ok p, w')) : Readable F store w'.fs := by
  rcases cloneDisk_cases h with ⟨hbad, -⟩ | ⟨-, -, basePath, inf, -, -, hmade⟩
  · cases hbad
  · exact hmade.readable hread rfl fun w₁ => create_whole hq w₁

theorem snapshotCreate_readable {snap : Snapshot}
    (h : store.snapshotCreate host vm disk n w = (.ok snap, w')) : Readable F store w'.fs := by
  cases snapshotCreate_end h with
  | @taken f inf w₁ w₂ _ _ hvm hdisk hname hmk hactive hfree hinfo hfrozen hcreate =>
      obtain ⟨b, l, hnode, hl, -, -, hother⟩ := createQcow2_ok hq.creates hcreate
      have hsame := mkdirs_snapshots_same hmk
      refine hread.of_disks fun vm' disk' => ?_
      by_cases he : store.diskFile vm' disk' = store.diskFile vm disk
      · obtain ⟨rfl, rfl⟩ := diskFile_eq_iff.mp he
        rw [activeRef, layerAt_written hnode, hl]
        exact Or.inr (Or.inr rfl)
      · rw [hother _ he, hfrozen, if_neg disk_ne_snapshot, if_neg he, hsame _ (.disk vm' disk')]
        exact Or.inl rfl

theorem resizeDisk_readable {newSize : String} {shrink : Bool} {u : Unit}
    (h : store.resizeDisk host vm disk newSize shrink w = (.ok u, w')) : Readable F store w'.fs := by
  rw [DiskStore.resizeDisk, bind_eq_ok] at h
  obtain ⟨path, _, hrun, h⟩ := h
  obtain ⟨-, -, rfl, -, rfl⟩ := store.requireDisk_eq_ok.mp hrun
  refine hread.of_disks fun vm' disk' => ?_
  by_cases he : store.diskFile vm' disk' = store.diskFile vm disk
  · obtain ⟨rfl, rfl⟩ := diskFile_eq_iff.mp he
    rcases runQemuImg_wrote h with hkept | ⟨-, b, hb, hnode⟩
    · exact Or.inl hkept
    · rw [Command.target] at hnode
      rw [activeRef, layerAt_written hnode]
      exact Or.inr (Or.inr (hq.resizedWhole _ _ _ _ _ (runQemuImg_ok h).1 hb))
  · exact Or.inl (runQemuImg_but h _ (.disk vm' disk') he)

theorem snapshotRevert_readable (hs : Sound F store w.fs) {u : Unit}
    (h : store.snapshotRevert host vm disk n w = (.ok u, w')) : Readable F store w'.fs := by
  rcases snapshotRevert_cases hq hs h with ⟨hbad, -⟩ | ⟨-, -, -, hbut, l, hl, -⟩
  · cases hbad
  · exact hread.of_disk hbut (Option.isSome_iff_exists.mpr ⟨l, hl⟩)

end

theorem importImage_readable (hread : Readable F store w.fs) {src name : String}
    {srcFormat : Option String} {compress : Bool} {p : Path}
    (h : store.importImage host src name srcFormat compress w = (.ok p, w')) :
    Readable F store w'.fs := by
  rcases importImage_cases h with ⟨hbad, -⟩ | ⟨srcPath, hmade⟩
  · cases hbad
  · obtain ⟨w₁, r, hsame, hrun, -⟩ := hmade.ran
    refine hread.of_disks fun vm disk => Or.inl ?_
    exact hsame.but (runQemuImg_but hrun) _ (.disk vm disk) diskFile_ne_imageFile

theorem deleteDisk_readable (hread : Readable F store w.fs) {force : Bool} {u : Unit}
    (h : store.deleteDisk vm disk force w = (.ok u, w')) : Readable F store w'.fs := by
  rcases deleteDisk_cases h with ⟨hbad, -⟩ | ⟨-, hdropped⟩
  · cases hbad
  · refine hread.of_disks fun vm' disk' => ?_
    by_cases hne : (vm', disk') = (vm, disk)
    · obtain ⟨rfl, rfl⟩ := Prod.mk.inj hne
      exact Or.inr (Or.inl hdropped.disk_gone)
    · exact Or.inl (hdropped.disk_other hne)

-- A deletion writes files of the directory of the snapshots only.
theorem snapshotDelete_disks {r : Except PyError Unit}
    (h : store.snapshotDelete host vm disk n w = (r, w')) (vm' disk' : String) :
    w'.fs.node (store.diskFile vm' disk') = w.fs.node (store.diskFile vm' disk') := by
  have hne : ∀ {name : String} {snap : Snapshot}, store.getSnapshot host vm disk name w = (.ok snap, w) →
      store.diskFile vm' disk' ≠ snap.path := fun hget => by
    obtain ⟨⟨fileName, hpath⟩, -⟩ := getSnapshot_file hget
    rw [hpath]
    exact diskFile_ne_entry
  cases snapshotDelete_end h with
  | refused => rfl
  | unrebased hget _ _ hchild _ hthaw hrebase =>
      obtain ⟨-, -, -, hother⟩ := chmod_ok hthaw
      rw [rebase_other hrebase (hne hchild), hother _ (hne hchild)]
  | leaf hget _ _ hdiscard => exact (discard_node hdiscard).2 _ (hne hget)
  | squashed hget _ _ hchild _ hthaw hrebase hfreeze hdiscard =>
      obtain ⟨-, -, -, hother⟩ := chmod_ok hthaw
      obtain ⟨-, -, -, hother'⟩ := chmod_ok hfreeze
      rw [(discard_node hdiscard).2 _ (hne hget), hother' _ (hne hchild),
        rebase_other hrebase (hne hchild), hother _ (hne hchild)]

theorem dropResult_eq_ok {α : Type} {x : Run β α} {u : Unit} (h : dropResult x w = (.ok u, w')) :
    ∃ a, x w = (.ok a, w') := by
  rw [dropResult, bind_eq_ok] at h
  obtain ⟨a, w₁, hx, h⟩ := h
  obtain ⟨-, rfl⟩ := pure_eq_ok.mp h
  exact ⟨a, hx⟩

-- A call that returns, or is refused, leaves every disk readable.
theorem Call.readable (hq : Lawful F host.qemuImg) (hs : Sound F store w.fs)
    (hread : Readable F store w.fs) (c : Call) (hsettled : c.Settled host store w) :
    Readable F store (c.run host store w).2.fs := by
  rw [Call.Settled] at hsettled
  rcases hrun : c.run host store w with ⟨e | u, w'⟩
  · rw [hrun] at hsettled
    obtain ⟨message, code, rfl⟩ := hsettled
    rw [c.refuses w message code w' hrun]
    exact hread
  · cases c with
    | createDisk =>
        obtain ⟨p, h⟩ := dropResult_eq_ok hrun
        exact createDisk_readable hq hread h
    | resizeDisk => exact resizeDisk_readable hq hread hrun
    | importImage =>
        obtain ⟨p, h⟩ := dropResult_eq_ok hrun
        exact importImage_readable hread h
    | importDisk =>
        obtain ⟨p, h⟩ := dropResult_eq_ok hrun
        exact importDisk_readable hq hread h
    | cloneDisk =>
        obtain ⟨p, h⟩ := dropResult_eq_ok hrun
        exact cloneDisk_readable hq hread h
    | deleteDisk => exact deleteDisk_readable hread hrun
    | snapshotCreate =>
        obtain ⟨snap, h⟩ := dropResult_eq_ok hrun
        exact snapshotCreate_readable hq hread h
    | snapshotRevert => exact snapshotRevert_readable hq hread hs hrun
    | snapshotDelete =>
        exact hread.of_disks fun vm disk => Or.inl (snapshotDelete_disks hrun vm disk)

theorem guestWrite_readable (hread : Readable F store w.fs) {b : β}
    (hproper : (Deed.guest vm disk b).Proper F host store w) :
    Readable F store (guestWrite store vm disk b w).fs := by
  obtain ⟨l, l', -, -, hl', hbut⟩ := guestWrite_layer hproper
  exact hread.of_disk hbut (Option.isSome_iff_exists.mpr ⟨l', hl'⟩)

end Disks

section Reports

variable {β : Type} (F : Formats β) (host : Host β) (store : DiskStore)

-- A listing has every file of the directory of the snapshots once, and its parents, children and
-- current snapshot are what the backing pointers say.
structure Reported (fs : FileSystem β) (vm disk : String) (snaps : List Snapshot) : Prop where
  once : (snaps.map Snapshot.name).Nodup
  every : ∀ m, fs.node (store.snapshotsDir vm disk ++ [m]) ≠ none ↔
    ∃ snap ∈ snaps, m = snap.name ++ ".qcow2"
  parent : ∀ snap ∈ snaps, ∀ p, snap.parent = some p ↔
    BackedBy (F.layerAt fs) (snapRef store vm disk snap.name) (snapRef store vm disk p)
  children : ∀ snap ∈ snaps, snap.children.Nodup ∧ ∀ c, c ∈ snap.children ↔
    ∃ child ∈ snaps, child.name = c ∧ child.parent = some snap.name
  current : ∀ snap ∈ snaps, snap.current = true ↔
    BackedBy (F.layerAt fs) (activeRef store vm disk) (snapRef store vm disk snap.name)
  single : ∀ snap ∈ snaps, ∀ other ∈ snaps, snap.current = true → other.current = true → snap = other

-- The snapshots of a disk are a forest, every backing pointer leads to a file that is a snapshot of
-- the disk or an image, and the listing reports that.
structure Arranged (w : World β) (vm disk : String) : Prop where
  acyclic : ∀ n, ¬Relation.TransGen (BackedBy (F.layerAt w.fs)) (snapRef store vm disk n)
    (snapRef store vm disk n)
  snapshots : ∀ n r, BackedBy (F.layerAt w.fs) (snapRef store vm disk n) r →
    w.fs.isFile r.1 = true ∧ Grounded F store w.fs vm disk r
  active : ∀ r, BackedBy (F.layerAt w.fs) (activeRef store vm disk) r →
    w.fs.isFile r.1 = true ∧ Grounded F store w.fs vm disk r
  listed : ∃ snaps, store.snapshotList host vm disk w = (.ok snaps, w) ∧
    Reported F store w.fs vm disk snaps

variable {F host store} {vm disk : String} {w : World β} {snaps : List Snapshot}

theorem Listed.reported (hs : Sound F store w.fs) (hlisted : Listed F store w.fs vm disk snaps)
    (hactive : (F.layerAt w.fs (activeRef store vm disk)).isSome = true) :
    Reported F store w.fs vm disk snaps := by
  have hcurrent : ∀ snap ∈ snaps, snap.current = true ↔
      BackedBy (F.layerAt w.fs) (activeRef store vm disk) (snapRef store vm disk snap.name) :=
    fun snap hsnap => ⟨fun hcur => by
      obtain ⟨l, hl⟩ := Option.isSome_iff_exists.mp hactive
      obtain ⟨r, hr, hin⟩ := Option.bind_eq_some_iff.mp ((hlisted.current l hl snap hsnap).mp hcur)
      obtain ⟨-, rfl⟩ := hs.named_in (hs.active vm disk r ⟨l, hl, hr⟩) hin
      exact ⟨l, hl, hr⟩, hlisted.current_of_backed hsnap⟩
  refine ⟨hlisted.nodup, fun m => ⟨fun hm => ?_, ?_⟩, fun snap hsnap p => ⟨fun hp => ?_, fun hb => ?_⟩,
    fun snap hsnap => ⟨?_, fun c => ?_⟩, hcurrent, fun snap hsnap other hother hcur hcur' => ?_⟩
  · obtain ⟨n, -, rfl⟩ := hs.named vm disk m hm
    obtain ⟨snap, hsnap, rfl⟩ := hlisted.complete n hm
    exact ⟨snap, hsnap, rfl⟩
  · rintro ⟨snap, hsnap, rfl⟩
    obtain ⟨-, -, l, hl, -⟩ := hlisted.sound snap hsnap
    exact node_of_layerAt (r := snapRef store vm disk snap.name) (Option.isSome_iff_exists.mpr ⟨l, hl⟩)
  · exact (hs.backed_of_parent hlisted hsnap hp).2
  · obtain ⟨-, -, l, hl, hparent, -⟩ := hlisted.sound snap hsnap
    obtain ⟨m, hm, hname⟩ := hs.named vm disk (p ++ ".qcow2") (hs.there (hs.backed vm disk snap.name _ hb))
    obtain rfl := append_qcow2_inj hname
    obtain ⟨l', hl', hback⟩ := hb
    obtain rfl := Option.some.inj (hl.symm.trans hl')
    rw [hparent, hback]
    exact nameIn_snapshotFile (nameMatches_ne_empty hm)
  · rw [hlisted.children snap hsnap, DiskStore.childrenOf]
    exact hlisted.nodup.sublist (List.filter_sublist.map _)
  · rw [hlisted.mem_children hsnap, parentOf_eq_some hlisted.nodup]
  · obtain ⟨l, hl, hb⟩ := (hcurrent snap hsnap).mp hcur
    obtain ⟨l', hl', hb'⟩ := (hcurrent other hother).mp hcur'
    obtain rfl := Option.some.inj (hl.symm.trans hl')
    have hname := snapshotFile_inj (Prod.mk.inj (Option.some.inj (hb.symm.trans hb'))).1
    exact List.inj_on_of_nodup_map hlisted.nodup hsnap hother hname

theorem Sound.arranged (hq : Describes F host.qemuImg) (hs : Sound F store w.fs)
    (hread : Readable F store w.fs) (hthere : w.fs.node (store.diskFile vm disk) ≠ none) :
    Arranged F host store w vm disk := by
  have hactive := hread vm disk hthere
  obtain ⟨hvm, hdisk⟩ := hs.disks vm disk hthere
  obtain ⟨snaps, hlist⟩ := snapshotList_returns hq hvm hdisk hactive (hs.tidy vm disk)
  have hlisted := (snapshotList_listed hq (hs.tidy vm disk) hlist).2
  refine ⟨fun n hcycle => ?_, fun n r hr => ?_, fun r hr => ?_, snaps, hlist,
    hlisted.reported hs hactive⟩
  · obtain ⟨b, ⟨l, hl, -⟩, -⟩ := Relation.TransGen.head'_iff.mp hcycle
    obtain ⟨c, hc⟩ := hs.snapshots vm disk n
      (node_of_layerAt (r := snapRef store vm disk n) (Option.isSome_iff_exists.mpr ⟨l, hl⟩))
    exact hc.acyclic hcycle
  · exact ⟨hs.isFile_of_grounded (hs.backed vm disk n r hr), hs.backed vm disk n r hr⟩
  · exact ⟨hs.isFile_of_grounded (hs.active vm disk r hr), hs.active vm disk r hr⟩

end Reports

section Runs

variable {β : Type} {F : Formats β} {host : Host β} {store : DiskStore} {vm disk : String}
  {w : World β}

-- Whatever has the name of the base in the working directory is an image of the store.
def Call.Unshadowed (host : Host β) (store : DiskStore) (w : World β) : Call → Prop
  | .cloneDisk base _ _ _ => nameMatches base = true ∧
      (w.fs.exists_ (Path.ofString host.cwd base) = true →
        ∃ i, nameMatches i = true ∧ Path.ofString host.cwd base = store.imageFile i)
  | _ => True

-- A call that ends well and clones no stray file, or a guest that writes to its disk.
def Deed.Tame (F : Formats β) (host : Host β) (store : DiskStore) (w : World β) : Deed β → Prop
  | .call c => c.Settled host store w ∧ c.Unshadowed host store w
  | .guest vm disk b => (Deed.guest vm disk b).Proper F host store w

theorem Call.Unshadowed.proper {c : Call} (h : c.Unshadowed host store w) :
    (Deed.call c).Proper F host store w := by
  cases c with
  | createDisk | resizeDisk | importImage | importDisk | deleteDisk | snapshotCreate | snapshotRevert
  | snapshotDelete => trivial
  | cloneDisk base vm disk size =>
      obtain ⟨hbase, hshadow⟩ := h
      intro p hp
      rw [clonePath_run] at hp
      by_cases hcwd : w.fs.exists_ (Path.ofString host.cwd base) = true
      · obtain ⟨i, hi, hpath⟩ := hshadow hcwd
        simp only [hcwd, ite_true, Except.ok.injEq] at hp
        exact ⟨i, hi, hp.symm.trans hpath⟩
      · rw [if_neg hcwd] at hp
        split at hp
        · exact ⟨base, hbase, (Except.ok.inj hp).symm.trans (imageCandidate_eq store hbase)⟩
        · cases hp

theorem Deed.Tame.proper {d : Deed β} (h : d.Tame F host store w) : d.Proper F host store w := by
  cases d with
  | call c => exact h.2.proper
  | guest vm disk b => exact h

theorem Deed.Tame.readable (hq : Lawful F host.qemuImg) (hs : Sound F store w.fs)
    (hread : Readable F store w.fs) {d : Deed β} (h : d.Tame F host store w) :
    Readable F store (deed host store w d).fs := by
  cases d with
  | call c => exact c.readable hq hs hread h.1
  | guest vm disk b => exact @guestWrite_readable _ F host store vm disk w hread b h

-- The snapshots of every disk are arranged in a forest in every state that is reached by calls that
-- return or are refused, if no clone takes a stray file for its base.
theorem run_arranged (hq : Lawful F host.qemuImg) (hempty : EmptyHome store w.fs)
    {deeds : List (Deed β)}
    (hrun : Along (deed host store) (fun w d => d.Tame F host store w) w deeds)
    (hthere : (after (deed host store) w deeds).fs.node (store.diskFile vm disk) ≠ none) :
    Arranged F host store (after (deed host store) w deeds) vm disk := by
  have hinv := hrun.invariant (fun w => Sound F store w.fs ∧ Readable F store w.fs)
    ⟨.of_empty hempty, fun vm disk hn => absurd (hempty _ (spot_below store (.disk vm disk))) hn⟩
    fun w d ⟨hs, hread⟩ htame =>
      ⟨(deed_refined hq hs d htame.proper).sound, htame.readable hq hs hread⟩
  exact hinv.1.arranged hq.describes hinv.2 hthere

theorem run_arranged_clone :
    Arranged memoryFormats (memoryHost []) treeStore
      (after (deed (memoryHost []) treeStore) freshHome cloneDeeds) "web" "root" := by
  refine run_arranged (Memory.lawful []) freshHome_empty ?_ (by decide)
  exact ⟨⟨trivial, trivial⟩, ⟨trivial, by decide, fun h => absurd h (by decide)⟩,
    ⟨_, _, rfl, rfl, rfl, rfl⟩, ⟨trivial, trivial⟩, trivial⟩

-- A home with nothing in it, and a working directory with a file that is named like an image.
def strayHome : World Blob :=
  Memory.world [(["srv"], .dir), (["disk.img"], Memory.plain (.text "data")), (["work"], .dir),
    (["work", "base"], Memory.plain (.text "stray"))]

def strayCalls : List Call :=
  [.importImage "/disk.img" "base" none false, .cloneDisk "base" "web" "root" none]

-- The calls return, and the disk is on a file that is no image and no snapshot.
theorem run_strays :
    (∀ q, Below treeStore.home q → strayHome.fs.node q = none) ∧
      Along (deed (memoryHost ["work"]) treeStore)
        (fun w d => ∃ c, d = .call c ∧ (c.run (memoryHost ["work"]) treeStore w).1 = .ok ())
        strayHome (strayCalls.map .call) ∧
      ¬∀ vm disk, (after (deed (memoryHost ["work"]) treeStore) strayHome
          (strayCalls.map .call)).fs.node (treeStore.diskFile vm disk) ≠ none →
        Arranged memoryFormats (memoryHost ["work"]) treeStore
          (after (deed (memoryHost ["work"]) treeStore) strayHome (strayCalls.map .call)) vm disk := by
  refine ⟨?_, ⟨⟨_, rfl, rfl⟩, ⟨_, rfl, rfl⟩, trivial⟩, fun h => ?_⟩
  · rintro q ⟨hq, hne⟩
    by_contra hn
    have hmem : q ∈ [["work", "base"], ["work"], ["disk.img"], ["srv"], []] := strayHome.fs.listed q hn
    simp only [List.mem_cons, List.not_mem_nil, or_false] at hmem
    obtain rfl | rfl | rfl | rfl | rfl := hmem
    · exact absurd hq (by decide)
    · exact absurd hq (by decide)
    · exact absurd hq (by decide)
    · exact hne rfl
    · exact absurd hq (by decide)
  · obtain ⟨-, hgrounded⟩ := (h "web" "root" (by decide)).active (["work", "base"], "raw")
      ⟨_, rfl, rfl⟩
    -- what the store keeps lies under its home
    have habove : ∀ p : Path, Spot treeStore p → p ≠ ["work", "base"] := by
      rintro p hp rfl
      exact absurd (spot_below treeStore hp).1 (by decide)
    rcases hgrounded with ⟨n, hr, -⟩ | ⟨i, format, hr, -⟩
    · exact habove _ (.snapshot treeStore "web" "root" n) (congrArg Prod.fst hr).symm
    · exact habove _ (.image i) (congrArg Prod.fst hr).symm

end Runs

end VMForge.Storage
