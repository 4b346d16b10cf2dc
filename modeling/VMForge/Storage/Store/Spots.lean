import VMForge.Storage.Store.Frozen

namespace VMForge.Storage

open Exec

-- The places where the store looks for layers: disks, entries of a directory of snapshots, images.
inductive Spot (store : DiskStore) : Path → Prop where
  | disk (vm disk : String) : Spot store (store.diskFile vm disk)
  | entry (vm disk m : String) : Spot store (store.snapshotsDir vm disk ++ [m])
  | image (i : String) : Spot store (store.imageFile i)

section Paths

variable {store : DiskStore} {vm disk vm' disk' n n' m m' i i' : String} {q : Path}

theorem diskFile_eq (store : DiskStore) (vm disk : String) :
    store.diskFile vm disk = store.home ++ ["vms", vm, "disks", disk ++ ".qcow2"] := by
  simp [DiskStore.diskFile, DiskStore.disksDir, DiskStore.vmRoot, DiskStore.vmsDir]

theorem entry_path_eq (store : DiskStore) (vm disk m : String) :
    store.snapshotsDir vm disk ++ [m] = store.home ++ ["vms", vm, "snapshots", disk, m] := by
  simp [DiskStore.snapshotsDir, DiskStore.vmRoot, DiskStore.vmsDir]

theorem imageFile_eq (store : DiskStore) (i : String) :
    store.imageFile i = store.home ++ ["images", i ++ ".qcow2"] := by
  simp [DiskStore.imageFile, DiskStore.imagesDir]

theorem Spot.snapshot (store : DiskStore) (vm disk n : String) :
    Spot store (store.snapshotFile vm disk n) :=
  .entry vm disk (n ++ ".qcow2")

theorem diskFile_eq_iff :
    store.diskFile vm disk = store.diskFile vm' disk' ↔ vm = vm' ∧ disk = disk' := by
  rw [diskFile_eq, diskFile_eq, List.append_cancel_left_eq]
  constructor
  · intro h
    simp only [List.cons.injEq, true_and, and_true] at h
    exact ⟨h.1, append_qcow2_inj h.2⟩
  · rintro ⟨rfl, rfl⟩
    rfl

theorem entry_eq_iff : store.snapshotsDir vm disk ++ [m] = store.snapshotsDir vm' disk' ++ [m'] ↔
    vm = vm' ∧ disk = disk' ∧ m = m' := by
  rw [entry_path_eq, entry_path_eq, List.append_cancel_left_eq]
  simp only [List.cons.injEq, true_and, and_true]

theorem snapshotFile_eq_iff : store.snapshotFile vm disk n = store.snapshotFile vm' disk' n' ↔
    vm = vm' ∧ disk = disk' ∧ n = n' := by
  rw [DiskStore.snapshotFile, DiskStore.snapshotFile, entry_eq_iff, String.append_left_inj]

theorem imageFile_eq_iff : store.imageFile i = store.imageFile i' ↔ i = i' := by
  rw [imageFile_eq, imageFile_eq, List.append_cancel_left_eq]
  constructor
  · intro h
    simp only [List.cons.injEq, true_and, and_true] at h
    exact append_qcow2_inj h
  · rintro rfl
    rfl

theorem diskFile_ne_entry : store.diskFile vm disk ≠ store.snapshotsDir vm' disk' ++ [m] := by
  rw [diskFile_eq, entry_path_eq, ne_eq, List.append_cancel_left_eq]
  simp

theorem diskFile_ne_imageFile : store.diskFile vm disk ≠ store.imageFile i := by
  rw [diskFile_eq, imageFile_eq, ne_eq, List.append_cancel_left_eq]
  simp

theorem entry_ne_imageFile : store.snapshotsDir vm disk ++ [m] ≠ store.imageFile i := by
  rw [entry_path_eq, imageFile_eq, ne_eq, List.append_cancel_left_eq]
  simp

theorem disk_ne_snapshot : store.diskFile vm disk ≠ store.snapshotFile vm' disk' n :=
  diskFile_ne_entry

theorem snapshot_ne_image : store.snapshotFile vm disk n ≠ store.imageFile i :=
  entry_ne_imageFile

-- The directories that lead to a spot are none.
theorem not_spot_above_disks (hq : q <+: store.disksDir vm) : ¬Spot store q := by
  have hdir : store.disksDir vm = store.home ++ ["vms", vm, "disks"] := by
    simp [DiskStore.disksDir, DiskStore.vmRoot, DiskStore.vmsDir]
  rw [hdir] at hq
  intro h
  cases h with
  | disk vm' d =>
      have hlen := hq.length_le
      simp [diskFile_eq] at hlen
  | entry vm' d m =>
      have hlen := hq.length_le
      rw [entry_path_eq] at hlen
      simp at hlen
  | image i =>
      rw [imageFile_eq, List.prefix_append_right_inj, List.cons_prefix_cons] at hq
      exact absurd hq.1 (by decide)

theorem not_spot_above_snapshots (hq : q <+: store.snapshotsDir vm disk) : ¬Spot store q := by
  have hdir : store.snapshotsDir vm disk = store.home ++ ["vms", vm, "snapshots", disk] := by
    simp [DiskStore.snapshotsDir, DiskStore.vmRoot, DiskStore.vmsDir]
  rw [hdir] at hq
  intro h
  cases h with
  | disk vm' d =>
      rw [diskFile_eq, List.prefix_append_right_inj, List.cons_prefix_cons, List.cons_prefix_cons,
        List.cons_prefix_cons] at hq
      exact absurd hq.2.2.1 (by decide)
  | entry vm' d m =>
      have hlen := hq.length_le
      rw [entry_path_eq] at hlen
      simp at hlen
  | image i =>
      rw [imageFile_eq, List.prefix_append_right_inj, List.cons_prefix_cons] at hq
      exact absurd hq.1 (by decide)

theorem not_spot_above_images (hq : q <+: store.imagesDir) : ¬Spot store q := by
  intro h
  have hlen := hq.length_le
  cases h with
  | disk vm' d => simp [diskFile_eq, DiskStore.imagesDir] at hlen
  | entry vm' d m =>
      rw [entry_path_eq] at hlen
      simp [DiskStore.imagesDir] at hlen
  | image i => simp [imageFile_eq, DiskStore.imagesDir] at hlen

-- What a revert writes first is none either.
theorem not_spot_reverting (vm disk : String) :
    ¬Spot store (DiskStore.revertingPath (store.diskFile vm disk)) := by
  have hpath : DiskStore.revertingPath (store.diskFile vm disk) = store.home ++
      ["vms", vm, "disks", Path.stem (Path.name (store.diskFile vm disk)) ++ ".qcow2.reverting"] := by
    rw [DiskStore.revertingPath, diskFile_dir]
    simp [DiskStore.disksDir, DiskStore.vmRoot, DiskStore.vmsDir]
  rw [hpath]
  generalize Path.stem (Path.name (store.diskFile vm disk)) = stem
  generalize hp : store.home ++ ["vms", vm, "disks", stem ++ ".qcow2.reverting"] = p
  intro h
  cases h with
  | disk vm' d =>
      rw [diskFile_eq, List.append_cancel_left_eq] at hp
      simp only [List.cons.injEq, true_and, and_true] at hp
      -- the names end differently
      have hends := congrArg (fun s : String => s.toList.getLast?) hp.2
      simp only [String.toList_append, List.getLast?_append] at hends
      exact absurd hends (by simp)
  | entry vm' d m =>
      rw [entry_path_eq, List.append_cancel_left_eq] at hp
      simp at hp
  | image i =>
      rw [imageFile_eq, List.append_cancel_left_eq] at hp
      simp at hp

theorem spot_below_snapshots (h : Spot store q) (hq : store.snapshotsDir vm disk <+: q) :
    ∃ m, q = store.snapshotsDir vm disk ++ [m] := by
  have hdir : store.snapshotsDir vm disk = store.home ++ ["vms", vm, "snapshots", disk] := by
    simp [DiskStore.snapshotsDir, DiskStore.vmRoot, DiskStore.vmsDir]
  cases h with
  | disk vm' d =>
      rw [hdir, diskFile_eq, List.prefix_append_right_inj, List.cons_prefix_cons,
        List.cons_prefix_cons, List.cons_prefix_cons] at hq
      exact absurd hq.2.2.1 (by decide)
  | entry vm' d m =>
      rw [hdir, entry_path_eq, List.prefix_append_right_inj, List.cons_prefix_cons,
        List.cons_prefix_cons, List.cons_prefix_cons, List.cons_prefix_cons] at hq
      obtain ⟨-, rfl, -, rfl, -⟩ := hq
      exact ⟨m, rfl⟩
  | image i =>
      have hlen := hq.length_le
      simp [hdir, imageFile_eq] at hlen

end Paths

section Sames

variable {β : Type} {store : DiskStore} {P Q : Path → Prop} {fs fs' fs'' : FileSystem β}

-- The spots hold what they held, but for those of `P`.
def SameBut (store : DiskStore) (P : Path → Prop) (fs fs' : FileSystem β) : Prop :=
  ∀ q, Spot store q → ¬P q → fs'.node q = fs.node q

-- The spots hold what they held.
def Same (store : DiskStore) (fs fs' : FileSystem β) : Prop :=
  ∀ q, Spot store q → fs'.node q = fs.node q

theorem Same.refl (fs : FileSystem β) : Same store fs fs := fun _ _ => rfl

theorem Same.trans (h : Same store fs fs') (h' : Same store fs' fs'') : Same store fs fs'' :=
  fun q hq => (h' q hq).trans (h q hq)

theorem Same.but (h : Same store fs fs') (h' : SameBut store P fs' fs'') : SameBut store P fs fs'' :=
  fun q hq hP => (h' q hq hP).trans (h q hq)

theorem SameBut.snapshot (h : SameBut store P fs fs') {vm disk n : String}
    (hP : ¬P (store.snapshotFile vm disk n)) :
    fs'.node (store.snapshotFile vm disk n) = fs.node (store.snapshotFile vm disk n) :=
  h _ (.snapshot store vm disk n) hP

-- Off the spots, and at those of `P`, anything may happen.
def offSpots (β : Type) (store : DiskStore) (P : Path → Prop) : Room β where
  free q := Spot store q → P q
  gone _ := False
  fresh _ _ := False

theorem SameBut.of_confined {w w' : World β} (h : Confined (offSpots β store P) w w') :
    SameBut store P w.fs w'.fs :=
  fun _ hq hP => h.same (fun hfree => hP (hfree hq)) id fun _ => id

theorem SameBut.of_touches {α : Type} {x : Run β α} {w w' : World β} {r : Except PyError α}
    (h : TouchesOnly (offSpots β store P) x w) (hrun : x w = (r, w')) :
    SameBut store P w.fs w'.fs :=
  .of_confined (h.confined hrun)

theorem mkdirs_same {p : Path} {w w' : World β} {r : Except PyError Unit}
    (hp : ∀ q, q <+: p → ¬Spot store q) (h : mkdirs p w = (r, w')) : Same store w.fs w'.fs := by
  have htouch : TouchesOnly (offSpots β store fun _ => False) (mkdirs p) w :=
    .mkdirs fun q hq _ => Or.inl fun hspot => absurd hspot (hp q hq)
  exact fun q hq => SameBut.of_touches htouch h q hq id

end Sames

end VMForge.Storage
