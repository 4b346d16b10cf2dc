import VMForge.Storage.Layers
import VMForge.Storage.Store.Layout

namespace VMForge.Storage

open Exec

-- A loop whose turns only look gives the list of their results.
theorem mapEach_quiet_ok {β α γ : Type} {body : γ → Run β α} (hbody : ∀ a, Quiet (body a))
    {as : List γ} {bs : List α} {w w' : World β} (h : mapEach as body w = (.ok bs, w')) :
    List.Forall₂ (fun a b => body a w = (.ok b, w)) as bs := by
  induction as generalizing bs with
  | nil =>
      obtain ⟨rfl, -⟩ := pure_eq_ok.mp h
      exact .nil
  | cons a as ih =>
      simp only [mapEach_cons, bind_eq_ok, pure_eq_ok] at h
      obtain ⟨b, t, hb, bs', _, hrest, rfl, rfl⟩ := h
      obtain rfl := (hbody a).eq_of_run hb
      exact .cons hb (ih hrest)

theorem mapEach_quiet_returns {β α γ : Type} {body : γ → Run β α} {as : List γ} {w : World β}
    (h : ∀ a ∈ as, ∃ b, body a w = (.ok b, w)) : ∃ bs, mapEach as body w = (.ok bs, w) := by
  induction as with
  | nil => exact ⟨[], rfl⟩
  | cons a as ih =>
      obtain ⟨b, hb⟩ := h a List.mem_cons_self
      obtain ⟨bs, hbs⟩ := ih fun a' ha' => h a' (List.mem_cons_of_mem _ ha')
      refine ⟨b :: bs, ?_⟩
      rw [mapEach_cons, bind_of_ok hb, bind_of_ok hbs]
      rfl

namespace DiskStore

-- Snapshots with distinct names are inserted one after the other.
theorem insertSnapshot_new {snaps : List Snapshot} {snap : Snapshot}
    (h : ∀ other ∈ snaps, other.name ≠ snap.name) :
    insertSnapshot snaps snap = snaps ++ [snap] := by
  induction snaps with
  | nil => rfl
  | cons head rest ih =>
      rw [insertSnapshot, if_neg (h head List.mem_cons_self),
        ih fun other ho => h other (List.mem_cons_of_mem _ ho)]
      rfl

theorem foldl_insertSnapshot {snaps acc : List Snapshot}
    (h : ((acc ++ snaps).map Snapshot.name).Nodup) :
    snaps.foldl insertSnapshot acc = acc ++ snaps := by
  induction snaps generalizing acc with
  | nil => simp
  | cons snap snaps ih =>
      have hnew : ∀ other ∈ acc, other.name ≠ snap.name := by
        intro other ho he
        rw [List.map_append, List.map_cons, List.nodup_append] at h
        exact h.2.2 _ (List.mem_map_of_mem ho) _ List.mem_cons_self he
      rw [List.foldl_cons, insertSnapshot_new hnew, ih (by simpa using h)]
      simp

end DiskStore

section

variable {β : Type} {F : Formats β} {host : Host β} {store : DiskStore} {vm disk : String}
  {w w' : World β}

theorem nameIn_snapshotFile {n : String} (hn : n ≠ "") :
    DiskStore.nameIn (store.snapshotsDir vm disk) (store.snapshotFile vm disk n) = some n := by
  simp [DiskStore.nameIn, DiskStore.snapshotFile, Path.suffix_append_qcow2 hn,
    Path.stem_append_qcow2 hn]

-- The layer of a snapshot, of the active overlay, and of an image.
def snapRef (store : DiskStore) (vm disk name : String) : ImageRef :=
  (store.snapshotFile vm disk name, "qcow2")

def activeRef (store : DiskStore) (vm disk : String) : ImageRef := (store.diskFile vm disk, "qcow2")

-- The directory of the snapshots holds layers with valid names, and nothing else.
structure Tidy (F : Formats β) (store : DiskStore) (fs : FileSystem β) (vm disk : String) : Prop where
  named : ∀ m, fs.node (store.snapshotsDir vm disk ++ [m]) ≠ none →
    ∃ n, nameMatches n = true ∧ m = n ++ ".qcow2"
  layered : ∀ n, fs.node (store.snapshotFile vm disk n) ≠ none →
    (F.layerAt fs (snapRef store vm disk n)).isSome = true

-- What `snapshot_list` reports.
structure Listed (F : Formats β) (store : DiskStore) (fs : FileSystem β) (vm disk : String)
    (snaps : List Snapshot) : Prop where
  nodup : (snaps.map Snapshot.name).Nodup
  complete : ∀ n, fs.node (store.snapshotFile vm disk n) ≠ none → ∃ snap ∈ snaps, snap.name = n
  sound : ∀ snap ∈ snaps, nameMatches snap.name = true ∧
    snap.path = store.snapshotFile vm disk snap.name ∧
    ∃ l, F.layerAt fs (snapRef store vm disk snap.name) = some l ∧
      snap.parent = l.backing.bind (fun r => DiskStore.nameIn (store.snapshotsDir vm disk) r.1) ∧
      snap.virtualSize = l.size
  current : ∀ l, F.layerAt fs (activeRef store vm disk) = some l → ∀ snap ∈ snaps,
    snap.current = true ↔
      l.backing.bind (fun r => DiskStore.nameIn (store.snapshotsDir vm disk) r.1) = some snap.name
  children : ∀ snap ∈ snaps, snap.children = DiskStore.childrenOf snaps snap.name

theorem nameMatches_ne_empty {n : String} (h : nameMatches n = true) : n ≠ "" := by
  rintro rfl
  simp [nameMatches] at h

theorem append_qcow2_inj {n m : String} (h : n ++ ".qcow2" = m ++ ".qcow2") : n = m :=
  (String.append_left_inj _).mp h

theorem backingName_run (hvm : nameMatches vm = true) (hdisk : nameMatches disk = true)
    (o : Option Path) : store.backingName vm disk o w =
      (.ok (o.bind (DiskStore.nameIn (store.snapshotsDir vm disk))), w) := by
  cases o with
  | none => rfl
  | some backing =>
      rw [DiskStore.backingName, DiskStore.snapshotNameFor,
        bind_of_ok ((store.snapshotDir_eq_ok).mpr ⟨hvm, hdisk, rfl, rfl⟩)]
      rfl

theorem backingName_quiet (o : Option Path) : Quiet (store.backingName vm disk o : Run β _) := by
  cases o with
  | none => exact .pure _
  | some backing => exact .bind (store.snapshotDir_quiet vm disk) fun _ => .pure _

theorem snapshotEntry_quiet (currentParent : Option String) (fileName : String) :
    Quiet (store.snapshotEntry host vm disk currentParent fileName) :=
  .bind (info_quiet _) fun _ => .bind (backingName_quiet _) fun _ => .pure _

theorem snapshotList_quiet (vm disk : String) : Quiet (store.snapshotList host vm disk) :=
  .bind (store.requireDisk_quiet vm disk) fun _ => .bind (store.snapshotDir_quiet vm disk) fun _ =>
    .bind (info_quiet _) fun _ => .bind (backingName_quiet _) fun _ => .read_bind fun _ =>
      .bind (.mapEach fun _ => snapshotEntry_quiet _ _) fun _ => .pure _

theorem mem_insertSnapshot {snaps : List Snapshot} {snap other : Snapshot}
    (h : other ∈ DiskStore.insertSnapshot snaps snap) : other = snap ∨ other ∈ snaps := by
  induction snaps with
  | nil => exact Or.inl (List.mem_singleton.mp h)
  | cons head rest ih =>
      rw [DiskStore.insertSnapshot] at h
      split at h
      · exact (List.mem_cons.mp h).imp id (List.mem_cons_of_mem _)
      · rcases List.mem_cons.mp h with rfl | h
        · exact Or.inr List.mem_cons_self
        · exact (ih h).imp id (List.mem_cons_of_mem _)

theorem mem_foldl_insertSnapshot {snaps acc : List Snapshot} {other : Snapshot}
    (h : other ∈ snaps.foldl DiskStore.insertSnapshot acc) : other ∈ acc ∨ other ∈ snaps := by
  induction snaps generalizing acc with
  | nil => exact Or.inl h
  | cons snap snaps ih =>
      rcases ih h with h | h
      · rcases mem_insertSnapshot h with rfl | h
        · exact Or.inr List.mem_cons_self
        · exact Or.inl h
      · exact Or.inr (List.mem_cons_of_mem _ h)

-- What `snapshot_list` reports is made from the files of the directory of the snapshots.
theorem snapshotList_ok {snaps : List Snapshot}
    (h : store.snapshotList host vm disk w = (.ok snaps, w')) :
    nameMatches vm = true ∧ nameMatches disk = true ∧
      w.fs.node (store.diskFile vm disk) ≠ none ∧
      ∃ inf entries, info host (store.diskFile vm disk) w = (.ok inf, w) ∧
        List.Forall₂ (fun fileName entry => store.snapshotEntry host vm disk
            (inf.backingFile.bind (DiskStore.nameIn (store.snapshotsDir vm disk))) fileName w =
              (.ok entry, w))
          (DiskStore.snapshotFileNames w.fs (store.snapshotsDir vm disk)) entries ∧
        snaps = DiskStore.withChildren (entries.foldl DiskStore.insertSnapshot []) := by
  simp only [DiskStore.snapshotList, bind_eq_ok, DiskStore.requireDisk_eq_ok,
    DiskStore.snapshotDir_eq_ok, read_eq_ok, pure_eq_ok] at h
  obtain ⟨_, _, ⟨hvm, hdisk, rfl, hthere, rfl⟩, _, _, ⟨-, -, rfl, rfl⟩, inf, t, hinfo, currentParent, t',
    hname, _, _, ⟨rfl, rfl⟩, entries, t'', hentries, rfl, rfl⟩ := h
  obtain rfl := (info_quiet _).eq_of_run hinfo
  rw [backingName_run hvm hdisk] at hname
  obtain ⟨hparent, rfl⟩ := Prod.mk.inj hname
  obtain rfl := Except.ok.inj hparent
  exact ⟨hvm, hdisk, hthere, inf, entries, hinfo,
    mapEach_quiet_ok (fun _ => snapshotEntry_quiet _ _) hentries, rfl⟩

theorem snapshotEntry_ok (hvm : nameMatches vm = true) (hdisk : nameMatches disk = true)
    {currentParent : Option String} {fileName : String} {entry : Snapshot}
    (h : store.snapshotEntry host vm disk currentParent fileName w = (.ok entry, w')) :
    ∃ inf, info host (store.snapshotsDir vm disk ++ [fileName]) w = (.ok inf, w) ∧ entry = {
      name := Path.stem fileName
      path := store.snapshotsDir vm disk ++ [fileName]
      parent := inf.backingFile.bind (DiskStore.nameIn (store.snapshotsDir vm disk))
      children := []
      current := some (Path.stem fileName) == currentParent
      virtualSize := inf.virtualSize
      actualSize := inf.actualSize } := by
  simp only [DiskStore.snapshotEntry, bind_eq_ok, pure_eq_ok] at h
  obtain ⟨inf, t, hinfo, parent, t', hname, rfl, rfl⟩ := h
  obtain rfl := (info_quiet _).eq_of_run hinfo
  rw [backingName_run hvm hdisk] at hname
  obtain ⟨hparent, rfl⟩ := Prod.mk.inj hname
  obtain rfl := Except.ok.inj hparent
  exact ⟨inf, hinfo, rfl⟩

theorem forall₂_mem_right {α γ : Type} {R : α → γ → Prop} {as : List α} {bs : List γ}
    (h : List.Forall₂ R as bs) {b : γ} (hb : b ∈ bs) : ∃ a ∈ as, R a b := by
  induction h with
  | nil => cases hb
  | cons hr _ ih =>
      rcases List.mem_cons.mp hb with rfl | hb
      · exact ⟨_, List.mem_cons_self, hr⟩
      · obtain ⟨a, ha, hab⟩ := ih hb
        exact ⟨a, List.mem_cons_of_mem _ ha, hab⟩

-- A listed snapshot is described by its file.
theorem snapshotList_entry {snaps : List Snapshot} {snap : Snapshot}
    (h : store.snapshotList host vm disk w = (.ok snaps, w')) (hsnap : snap ∈ snaps) :
    ∃ fileName ∈ DiskStore.snapshotFileNames w.fs (store.snapshotsDir vm disk),
      snap.name = Path.stem fileName ∧ snap.path = store.snapshotsDir vm disk ++ [fileName] ∧
      ∃ inf, info host snap.path w = (.ok inf, w) ∧
        snap.parent = inf.backingFile.bind (DiskStore.nameIn (store.snapshotsDir vm disk)) := by
  obtain ⟨hvm, hdisk, -, inf, entries, -, hentries, rfl⟩ := snapshotList_ok h
  obtain ⟨entry, hentry, rfl⟩ := List.mem_map.mp hsnap
  have hmem : entry ∈ entries := (mem_foldl_insertSnapshot hentry).resolve_left List.not_mem_nil
  obtain ⟨fileName, hfile, hrun⟩ := forall₂_mem_right hentries hmem
  obtain ⟨inf', hinfo, rfl⟩ := snapshotEntry_ok hvm hdisk hrun
  exact ⟨fileName, hfile, rfl, rfl, inf', hinfo, rfl⟩

-- It is named after it.
theorem snapshotList_file {snaps : List Snapshot} {snap : Snapshot}
    (h : store.snapshotList host vm disk w = (.ok snaps, w')) (hsnap : snap ∈ snaps) :
    ∃ fileName, Path.isComponent fileName = true ∧ Path.isQcow2Name fileName = true ∧
      snap.name = Path.stem fileName ∧ snap.path = store.snapshotsDir vm disk ++ [fileName] := by
  obtain ⟨fileName, hfile, hname, hpath, -⟩ := snapshotList_entry h hsnap
  rw [DiskStore.snapshotFileNames] at hfile
  split at hfile
  · obtain ⟨hchild, hqcow2⟩ := List.mem_filter.mp hfile
    exact ⟨fileName, w.fs.legal _ _ (FileSystem.mem_children w.fs |>.mp hchild), hqcow2, hname, hpath⟩
  · cases hfile

end

end VMForge.Storage
