import VMForge.Storage.Layers
import VMForge.Storage.Store.Calls

namespace VMForge.Storage

open Exec

-- Among the snapshots of some disk.
def InSnapshots (store : DiskStore) (q : Path) : Prop :=
  ∃ vm disk, Below (store.snapshotsDir vm disk) q

-- The files of the snapshots are read-only.
def Frozen {β : Type} (store : DiskStore) (fs : FileSystem β) : Prop :=
  ∀ q f, InSnapshots store q → fs.node q = some (.file f) → f.mode = 0o444

section

variable {store : DiskStore} {vm disk : String} {q : Path}

theorem inSnapshots_file (store : DiskStore) (vm disk fileName : String) :
    InSnapshots store (store.snapshotsDir vm disk ++ [fileName]) :=
  ⟨vm, disk, below_append _ _ []⟩

theorem inSnapshots_snapshotFile (store : DiskStore) (vm disk name : String) :
    InSnapshots store (store.snapshotFile vm disk name) :=
  inSnapshots_file store vm disk (name ++ ".qcow2")

-- They lie deep enough to tell them from the directories that lead to them.
theorem InSnapshots.length (h : InSnapshots store q) : store.home.length + 5 ≤ q.length := by
  obtain ⟨vm, disk, hq, hne⟩ := h
  have hlen := hq.length_le
  have hlt : (store.snapshotsDir vm disk).length ≠ q.length := fun he => hne (hq.eq_of_length he).symm
  simp only [DiskStore.snapshotsDir, DiskStore.vmRoot, DiskStore.vmsDir, List.length_append,
    List.length_cons, List.length_nil] at hlen hlt
  omega

theorem InSnapshots.below_vms (h : InSnapshots store q) : ∃ vm disk,
    store.home ++ ["vms", vm, "snapshots", disk] <+: q := by
  obtain ⟨vm, disk, hq, -⟩ := h
  refine ⟨vm, disk, ?_⟩
  simpa [DiskStore.snapshotsDir, DiskStore.vmRoot, DiskStore.vmsDir, List.append_assoc] using hq

theorem not_inSnapshots_of_entry {n : String} {rest : Path} (hn : n ≠ "vms")
    (hq : store.home ++ n :: rest <+: q) : ¬InSnapshots store q := fun h => by
  obtain ⟨vm, disk, hvms⟩ := h.below_vms
  exact hn (entry_eq hq hvms)

theorem not_inSnapshots_of_vm {n : String} {rest : Path} (hn : n ≠ "snapshots")
    (hq : store.vmRoot vm ++ n :: rest <+: q) : ¬InSnapshots store q := fun h => by
  obtain ⟨vm', disk, hvms⟩ := h.below_vms
  have hroot : store.home ++ ["vms"] ++ vm :: n :: rest <+: q := by
    simpa [DiskStore.vmRoot, DiskStore.vmsDir, List.append_assoc] using hq
  have hroot' : store.home ++ ["vms"] ++ vm' :: ["snapshots", disk] <+: q := by
    simpa [List.append_assoc] using hvms
  obtain rfl := entry_eq hroot hroot'
  have hbelow : store.home ++ ["vms", vm] ++ n :: rest <+: q := by
    simpa [List.append_assoc] using hroot
  have hbelow' : store.home ++ ["vms", vm] ++ "snapshots" :: [disk] <+: q := by
    simpa [List.append_assoc] using hroot'
  exact hn (entry_eq hbelow hbelow')

theorem not_inSnapshots_disks (hq : store.disksDir vm <+: q) : ¬InSnapshots store q :=
  @not_inSnapshots_of_vm store vm q "disks" [] (by decide) hq

theorem not_inSnapshots_diskFile (vm disk : String) : ¬InSnapshots store (store.diskFile vm disk) :=
  not_inSnapshots_disks (List.prefix_append _ _)

theorem not_inSnapshots_reverting (vm disk : String) :
    ¬InSnapshots store (DiskStore.revertingPath (store.diskFile vm disk)) := by
  refine @not_inSnapshots_disks store vm _ ?_
  rw [DiskStore.revertingPath, diskFile_dropLast, DiskStore.disksDir]
  exact List.prefix_append _ _

theorem not_inSnapshots_images (hq : store.imagesDir <+: q) : ¬InSnapshots store q :=
  @not_inSnapshots_of_entry store q "images" [] (by decide) hq

-- The directories above.
theorem not_inSnapshots_above {p : Path} (hp : p.length ≤ store.home.length + 4) (hq : q <+: p) :
    ¬InSnapshots store q := fun h => by
  have hle := hq.length_le
  have hlen := h.length
  omega

theorem not_inSnapshots_above_disks (hq : q <+: store.disksDir vm) : ¬InSnapshots store q :=
  not_inSnapshots_above (by simp [DiskStore.disksDir, DiskStore.vmRoot, DiskStore.vmsDir]) hq

theorem not_inSnapshots_above_snapshots (hq : q <+: store.snapshotsDir vm disk) :
    ¬InSnapshots store q :=
  not_inSnapshots_above (by simp [DiskStore.snapshotsDir, DiskStore.vmRoot, DiskStore.vmsDir]) hq

theorem not_inSnapshots_above_images (hq : q <+: store.imagesDir) : ¬InSnapshots store q :=
  not_inSnapshots_above (by simp [DiskStore.imagesDir]) hq

end

-- Among the snapshots things may only disappear.
def outside (β : Type) (store : DiskStore) : Room β where
  free q := ¬InSnapshots store q
  gone _ := True
  fresh _ _ := False

section

variable {β : Type} {host : Host β} {store : DiskStore} {vm disk : String} {w w' : World β}

theorem Frozen.of_node {fs fs' : FileSystem β} (h : Frozen store fs)
    (hnode : ∀ q f, InSnapshots store q → fs'.node q = some (.file f) → fs.node q = some (.file f) ∨
      f.mode = 0o444) : Frozen store fs' := by
  intro q f hq hf
  rcases hnode q f hq hf with hsame | hmode
  · exact h q f hq hsame
  · exact hmode

theorem Frozen.of_confined (h : Frozen store w.fs) (hw : Confined (outside β store) w w') :
    Frozen store w'.fs := by
  refine h.of_node fun q f hq hf => Or.inl ?_
  rcases hw.same_or_none (fun hfree => hfree hq) fun _ hfresh => hfresh with hsame | hnone
  · rw [← hsame, hf]
  · rw [hnone] at hf
    cases hf

-- One place among the snapshots is written, and its file is read-only or gone then.
theorem Frozen.of_place (h : Frozen store w.fs) {p : Path}
    (hp : ∀ f, w'.fs.node p = some (.file f) → f.mode = 0o444)
    (hother : ∀ q, q ≠ p → InSnapshots store q → w'.fs.node q = w.fs.node q) :
    Frozen store w'.fs := by
  refine h.of_node fun q f hq hf => ?_
  by_cases he : q = p
  · subst he
    exact Or.inr (hp f hf)
  · exact Or.inl ((hother q he hq).symm.trans hf)

theorem ne_diskFile_of_inSnapshots {q : Path} (hq : InSnapshots store q) :
    q ≠ store.diskFile vm disk := by
  rintro rfl
  exact not_inSnapshots_diskFile vm disk hq

theorem mkdirs_frozen (h : Frozen store w.fs) {p : Path} (hp : ∀ q, q <+: p → ¬InSnapshots store q)
    {r : Except PyError Unit} (hmk : mkdirs p w = (r, w')) : Frozen store w'.fs := by
  have htouch : TouchesOnly (outside β store) (mkdirs p) w := .mkdirs fun q hq _ => Or.inl (hp q hq)
  exact h.of_confined (htouch.confined hmk)

theorem snapshotCreate_frozen (h : Frozen store w.fs) {name : String} {r : Except PyError Snapshot}
    (hrun : store.snapshotCreate host vm disk name w = (r, w')) : Frozen store w'.fs := by
  cases snapshotCreate_end hrun with
  | refused => exact h
  | stopped hmk => exact mkdirs_frozen h (fun q hq => not_inSnapshots_above_snapshots hq) hmk
  | rolledBack hmk _ _ _ _ hnode =>
      have h₁ := mkdirs_frozen h (fun q hq => not_inSnapshots_above_snapshots hq) hmk
      refine h₁.of_node fun q f hq hf => Or.inl ?_
      rwa [hnode, if_neg (ne_diskFile_of_inSnapshots hq)] at hf
  | @taken f inf w₁ w₂ _ _ _ _ _ hmk _ _ _ hfrozen hcreate =>
      have h₁ := mkdirs_frozen h (fun q hq => not_inSnapshots_above_snapshots hq) hmk
      have hsame : ∀ q, InSnapshots store q → w'.fs.node q = w₂.fs.node q := fun q hq =>
        createQcow2_other hcreate (ne_diskFile_of_inSnapshots hq)
      refine @Frozen.of_place _ _ w₁ w' h₁ (store.snapshotFile vm disk name) (fun f' hf' => ?_)
        fun q hne hq => ?_
      · rw [hsame _ (inSnapshots_snapshotFile store vm disk name), hfrozen, if_pos rfl] at hf'
        rw [← Node.file.inj (Option.some.inj hf')]
      · rw [hsame q hq, hfrozen, if_neg hne, if_neg (ne_diskFile_of_inSnapshots hq)]

-- A deletion gets as far as the rebase of the one child, and qemu-img fails it.
def RebaseFails (host : Host β) (store : DiskStore) (vm disk name : String) (w : World β) : Prop :=
  ∃ snap c child grandparent w₁, store.getSnapshot host vm disk name w = (.ok snap, w) ∧
    snap.current = false ∧ snap.children = [c] ∧
    store.getSnapshot host vm disk c w = (.ok child, w) ∧
    store.parentPath host vm disk snap.parent w = (.ok grandparent, w) ∧
    w.fs.isFile child.path = true ∧ chmod child.path 0o644 w = (.ok (), w₁) ∧
    (host.qemuImg.exec w₁ (.rebase child.path (grandparent.map fun file => (file, "qcow2"))
      false)).failure ≠ none

theorem parentPath_legal {parent : Option String} {file : Path}
    (h : store.parentPath host vm disk parent w = (.ok (some file), w')) :
    ∀ n ∈ file, Path.isComponent n = true := by
  rcases hname : parent.filter (fun name => name != "") with _ | name
  · simp only [DiskStore.parentPath, hname] at h
    cases (pure_eq_ok.mp h).1
  · simp only [DiskStore.parentPath, hname] at h
    obtain ⟨snap, _, hget, hpure⟩ := bind_eq_ok.mp h
    obtain ⟨hfile, -⟩ := pure_eq_ok.mp hpure
    rw [← Option.some.inj hfile]
    exact (getSnapshot_file hget).2

-- The file of a child that was written is read-only again, and the file of the snapshot is gone.
theorem discard_frozen (h : Frozen store w.fs) {p : Path} {r : Except PyError Unit}
    (hdiscard : (chmod p 0o644 >>= fun _ => unlink p) w = (r, w')) : Frozen store w'.fs := by
  obtain ⟨hnone, hother⟩ := discard_node hdiscard
  exact h.of_place (fun f hf => absurd hf (hnone f)) fun q hq _ => hother q hq

theorem snapshotDelete_frozen (h : Frozen store w.fs) {name : String} {r : Except PyError Unit}
    (hok : ¬RebaseFails host store vm disk name w)
    (hrun : store.snapshotDelete host vm disk name w = (r, w')) : Frozen store w'.fs := by
  cases snapshotDelete_end hrun with
  | refused => exact h
  | @unrebased e snap c child grandparent w₁ _ hget hcurrent hchildren hchild hparent hthaw hrebase =>
      obtain ⟨⟨fileName, hpath⟩, hlegal⟩ := getSnapshot_file hchild
      obtain ⟨hex, hfile, hdir, hother⟩ := chmod_ok hthaw
      have hsame : ∀ q, q ≠ child.path → w'.fs.node q = w.fs.node q := fun q hq => by
        rw [rebase_other hrebase hq, hother q hq]
      rcases hn : w.fs.node child.path with _ | _ | f
      · exact absurd hn hex
      · -- no file is there to be written
        refine h.of_place (fun f hf => ?_) fun q hq _ => hsame q hq
        rcases runQemuImg_target hrebase with hkept | ⟨hfault, -⟩
        · rw [Command.target, hdir hn] at hkept
          rw [hkept] at hf
          cases hf
        · exact absurd (hdir hn) (createFault_none_iff.mp hfault).2.1
      · have hfault : createFault w₁.fs child.path = none := by
          have hthere : w₁.fs.node (store.snapshotsDir vm disk ++ [fileName]) ≠ none := by
            simp [← hpath, hfile f hn]
          refine createFault_none_iff.mpr ⟨?_, by simp [hfile f hn], ?_⟩
          · simpa [hpath] using w₁.fs.legal _ _ hthere
          · simpa [hpath] using w₁.fs.parent _ _ hthere
        by_contra hwritable
        refine hok ⟨snap, c, child, grandparent, w₁, hget, hcurrent, hchildren, hchild, hparent,
          (FileSystem.isFile_iff _).mpr ⟨f, hn⟩, hthaw, fun hsound => ?_⟩
        obtain ⟨w₂, hreturns⟩ := rebase_returns hlegal (fun file hfile => by
          subst hfile
          exact parentPath_legal hparent) hfault hsound
        cases (Prod.mk.inj (hreturns.symm.trans hrebase)).1
  | leaf hget hcurrent hchildren hdiscard => exact discard_frozen h hdiscard
  | @squashed r snap c child grandparent w₁ w₂ w₃ _ hget hcurrent hchildren hchild hparent hthaw hrebase
      hfreeze hdiscard =>
      obtain ⟨-, -, -, hother⟩ := chmod_ok hthaw
      obtain ⟨hex, hfile, hdir, hother'⟩ := chmod_ok hfreeze
      refine discard_frozen (@Frozen.of_place _ _ w w₃ h child.path (fun f hf => ?_) fun q hq _ => ?_)
        hdiscard
      · rcases hn : w₂.fs.node child.path with _ | _ | f'
        · exact absurd hn hex
        · rw [hdir hn] at hf
          cases hf
        · rw [hfile f' hn] at hf
          rw [← Node.file.inj (Option.some.inj hf)]
      · rw [hother' q hq, rebase_other hrebase hq, hother q hq]

-- A child whose rebase fails stays writable.
theorem snapshotDelete_thawed {name : String} {r : Except PyError Unit}
    (hfails : RebaseFails host store vm disk name w)
    (hrun : store.snapshotDelete host vm disk name w = (r, w')) : ¬Frozen store w'.fs := by
  obtain ⟨snap, c, child, grandparent, w₁, hget, hcurrent, hchildren, hchild, hparent, hisFile, hthaw,
    hfailure⟩ := hfails
  obtain ⟨f, hf⟩ := (FileSystem.isFile_iff _).mp hisFile
  obtain ⟨-, hfile, -, -⟩ := chmod_ok hthaw
  rcases hrebase : rebase host child.path grandparent false w₁ with ⟨e | _, w₂⟩
  · have hw' : w' = w₂ := by
      rw [DiskStore.snapshotDelete, bind_of_ok hget, hcurrent, raiseIf, if_neg Bool.false_ne_true,
        bind_of_ok pure_run] at hrun
      simp only [hchildren, DiskStore.squashInto] at hrun
      rw [bind_of_error (by rw [bind_of_ok hchild, bind_of_ok hparent, bind_of_ok hthaw,
        bind_of_error hrebase])] at hrun
      exact (Prod.mk.inj hrun).2.symm
    subst hw'
    intro hfrozen
    have hin : InSnapshots store child.path := by
      obtain ⟨⟨fileName, hpath⟩, -⟩ := getSnapshot_file hchild
      exact hpath ▸ inSnapshots_file store vm disk fileName
    have hwritable : ∃ b, w'.fs.node child.path = some (.file ⟨b, 0o644⟩) := by
      rcases runQemuImg_target hrebase with hsame | ⟨-, b, hb⟩
      · exact ⟨f.blob, hsame.trans (hfile f hf)⟩
      · refine ⟨b, hb.trans ?_⟩
        simp only [Command.target, modeAt, hfile f hf]
    obtain ⟨b, hb⟩ := hwritable
    have hmode : (0o644 : Nat) = 0o444 := hfrozen _ _ hin hb
    exact absurd hmode (by decide)
  · exact absurd (runQemuImg_ok hrebase).1 hfailure

-- The call makes or deletes a snapshot.
def Call.onSnapshots : Call → Bool
  | .snapshotCreate _ _ _ => true
  | .snapshotDelete _ _ _ => true
  | _ => false

-- Every other call only takes away among the snapshots.
theorem Call.confined_outside {c : Call} (hc : c.onSnapshots = false) :
    Confined (outside β store) w (c.run host store w).2 := by
  have hdisks : ∀ vm q, q <+: store.disksDir vm → w.fs.node q = none →
      (outside β store).free q ∨ (outside β store).fresh q .dir :=
    fun vm q hq _ => Or.inl (not_inSnapshots_above_disks hq)
  cases c with
  | createDisk vm disk size preallocation clusterSize =>
      rw [Call.run, dropResult_world]
      exact createDisk_touches (hdisks vm) (not_inSnapshots_diskFile vm disk)
  | resizeDisk vm disk newSize shrink =>
      exact resizeDisk_touches (not_inSnapshots_diskFile vm disk)
  | importImage src name srcFormat compress =>
      rw [Call.run, dropResult_world]
      exact importImage_touches (fun q hq _ => Or.inl (not_inSnapshots_above_images hq))
        (not_inSnapshots_images (List.prefix_append _ _))
  | importDisk src vm disk srcFormat =>
      rw [Call.run, dropResult_world]
      exact importDisk_touches (hdisks vm) (not_inSnapshots_diskFile vm disk)
  | cloneDisk base vm disk size =>
      rw [Call.run, dropResult_world]
      exact cloneDisk_touches (hdisks vm) (not_inSnapshots_diskFile vm disk)
  | deleteDisk vm disk force =>
      exact deleteDisk_touches (fun _ _ => Or.inr trivial) fun _ _ => Or.inr trivial
  | snapshotRevert vm disk name =>
      exact snapshotRevert_touches (not_inSnapshots_reverting vm disk)
        (not_inSnapshots_diskFile vm disk)
  | snapshotCreate | snapshotDelete => cases hc

-- The call is a deletion whose rebase fails.
def Call.Thaws (host : Host β) (store : DiskStore) (w : World β) : Call → Prop
  | .snapshotDelete vm disk name => RebaseFails host store vm disk name w
  | _ => False

-- The snapshots stay read-only in every call but that.
theorem Call.frozen_iff (h : Frozen store w.fs) (c : Call) :
    Frozen store (c.run host store w).2.fs ↔ ¬c.Thaws host store w := by
  cases c with
  | snapshotCreate vm disk name =>
      rw [Call.run, dropResult_world]
      exact iff_of_true (snapshotCreate_frozen h rfl) id
  | snapshotDelete vm disk name =>
      rcases hrun : store.snapshotDelete host vm disk name w with ⟨r, w'⟩
      rw [Call.run, hrun]
      exact ⟨fun hfrozen hfails => snapshotDelete_thawed hfails hrun hfrozen,
        fun hok => snapshotDelete_frozen h hok hrun⟩
  | createDisk | resizeDisk | importImage | importDisk | cloneDisk | deleteDisk | snapshotRevert =>
      exact iff_of_true (h.of_confined (Call.confined_outside rfl)) id

end

end VMForge.Storage
