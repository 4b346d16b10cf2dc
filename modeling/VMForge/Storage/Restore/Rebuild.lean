import VMForge.Storage.Backup.Outline
import VMForge.Storage.Restore.Assemble
import VMForge.Storage.Restore.Verified

namespace VMForge.Storage

open Exec

-- The parts of the paths that the layers of a disk have in a bundle.
inductive LayerParts (disk : String) : Path → Prop where
  | active : LayerParts disk ["disks", disk ++ ".qcow2"]
  | snapshot (n) : LayerParts disk ["snapshots", disk, n ++ ".qcow2"]

theorem LayerParts.unique {disk disk' : String} {p : Path} (h : LayerParts disk p)
    (h' : LayerParts disk' p) : disk = disk' := by
  generalize hp : p = p' at h'
  cases h with
  | active =>
      cases h' with
      | active =>
          rw [List.cons.injEq, List.cons.injEq] at hp
          exact append_qcow2_inj hp.2.1
      | snapshot n => simp at hp
  | snapshot n =>
      cases h' with
      | active => simp at hp
      | snapshot n' =>
          rw [List.cons.injEq, List.cons.injEq] at hp
          exact hp.2.1

theorem LayerParts.head {disk : String} {p : Path} (h : LayerParts disk p) :
    p.head? = some "disks" ∨ p.head? = some "snapshots" := by
  cases h <;> simp

-- A disk as `backup` records it: its snapshots are distinct, and each layer is on a snapshot of the
-- disk, on one of the images, or on nothing.
structure DiskEntry.Fits {β : Type} (F : Formats β) (data : String → Option β) (images : List String)
    (disk : String) (e : DiskEntry) : Prop where
  named : nameMatches disk = true
  distinct : (e.snapshots.map SnapshotRecord.name).Nodup
  snapshots : ∀ s ∈ e.snapshots, s.Fits F data disk
  active : ∃ r, e.active = some r ∧ r.Fits F data disk
  known : ∀ r ∈ e.active.toList ++ e.snapshots.map SnapshotRecord.layer,
    (∀ n, r.parent = some (.snapshot n) → n ∈ e.snapshots.map SnapshotRecord.name) ∧
      ∀ arc, r.parent = some (.image arc) → arc ∈ images

-- What assembling a disk changes.
def DiskMoves (store : DiskStore) (vm : String) (staging : Path) (disk : String) (e : DiskEntry)
    (q : Path) : Prop :=
  q <+: store.disksDir vm ∨ (e.snapshots ≠ [] ∧ q <+: store.snapshotsDir vm disk) ∨
    (∃ l ∈ e.layers store vm disk, q = l.1) ∨ ∃ p, LayerParts disk p ∧ q = staging ++ p

-- No file is in the way of the directories of a VM.
def Roomy {β : Type} (store : DiskStore) (vm : String) (fs : FileSystem β) : Prop :=
  ∀ q f, (q <+: store.disksDir vm ∨ ∃ disk, q <+: store.snapshotsDir vm disk) →
    fs.node q ≠ some (.file f)

section

variable {β : Type} {F : Formats β} {undamaged : β → Prop} {host : Host β} {store : DiskStore}
  {vm disk disk' : String} {staging q : Path} {data : String → Option β} {images : List String}
  {e e' : DiskEntry} {w w' : World β}

-- The file of a layer: that of the active overlay, or that of a snapshot.
theorem layer_file {l : Path × LayerRecord} (hl : l ∈ e.layers store vm disk) :
    l.1 = store.diskFile vm disk ∨ ∃ s ∈ e.snapshots, l.1 = store.snapshotFile vm disk s.name := by
  rcases List.mem_append.mp hl with hl | hl
  · obtain ⟨r, -, rfl⟩ := List.mem_map.mp hl
    exact Or.inl rfl
  · obtain ⟨s, hs, rfl⟩ := List.mem_map.mp hl
    exact Or.inr ⟨s, hs, rfl⟩

theorem layer_below {l : Path × LayerRecord} (hl : l ∈ e.layers store vm disk) :
    Below (store.vmRoot vm) l.1 := by
  rcases layer_file hl with he | ⟨s, -, he⟩
  · exact he ▸ diskFile_below store vm disk
  · exact he ▸ snapshotFile_below store vm disk s.name

theorem layer_vms {l : Path × LayerRecord} (hl : l ∈ e.layers store vm disk) :
    store.vmRoot vm <+: l.1 :=
  (layer_below hl).1

-- Its record is one of the manifest.
theorem record_of_layer {m : Manifest} {d : String × DiskEntry} (hd : d ∈ m.disks) {l : Path × LayerRecord}
    (hl : l ∈ d.2.layers store vm d.1) : l.2.file ∈ m.records := by
  simp only [Manifest.records, DiskEntry.records, List.mem_append, List.mem_flatMap, List.mem_map]
  refine Or.inl (Or.inl ⟨d, hd, l.2, ?_, rfl⟩)
  rcases List.mem_append.mp hl with hl | hl
  · obtain ⟨r, hr, rfl⟩ := List.mem_map.mp hl
    exact Or.inl hr
  · obtain ⟨s, hs, rfl⟩ := List.mem_map.mp hl
    exact Or.inr ⟨s, hs, rfl⟩

theorem vmsDir_prefix_disksDir : store.vmsDir <+: store.disksDir vm := by
  simp [DiskStore.disksDir, DiskStore.vmRoot, List.append_assoc]

theorem vmsDir_prefix_snapshotsDir : store.vmsDir <+: store.snapshotsDir vm disk := by
  simp [DiskStore.snapshotsDir, DiskStore.vmRoot, List.append_assoc]

-- A layer of one disk is not concerned by another disk.
theorem layer_unmoved (hne : disk ≠ disk') {l : Path × LayerRecord}
    (hl : l ∈ e.layers store vm disk)
    (hout : ∀ q, store.imagesDir <+: q ∨ store.vmsDir <+: q → ¬staging <+: q) :
    ¬DiskMoves store vm staging disk' e' l.1 := by
  have hvms : store.vmsDir <+: l.1 := (List.prefix_append _ _).trans (layer_vms hl)
  rintro (hc | ⟨-, hc⟩ | ⟨l', hl', hc⟩ | ⟨p, -, hc⟩)
  · rcases layer_file hl with he | ⟨s, -, he⟩
    · exact not_concat_below _ _ (he ▸ hc)
    · rw [he] at hc
      have hlen := hc.length_le
      simp [DiskStore.snapshotFile, DiskStore.snapshotsDir, DiskStore.disksDir] at hlen
  · rcases layer_file hl with he | ⟨s, -, he⟩
    · rw [he] at hc
      have hdisks : store.vmRoot vm ++ ["disks", disk ++ ".qcow2"] <+: store.diskFile vm disk := by
        simp [DiskStore.diskFile, DiskStore.disksDir, List.append_assoc]
      have hsnaps : store.vmRoot vm ++ ["snapshots", disk'] <+: store.snapshotsDir vm disk' :=
        List.prefix_rfl
      exact absurd (entry_eq (hdisks.trans hc) hsnaps) (by decide)
    · rw [he] at hc
      have hlen := hc.length_le
      simp [DiskStore.snapshotFile, DiskStore.snapshotsDir] at hlen
  · rcases layer_file hl with he | ⟨s, -, he⟩ <;> rcases layer_file hl' with he' | ⟨s', -, he'⟩
    · exact hne (diskFile_eq_iff.mp (he.symm.trans (hc.trans he'))).2
    · exact disk_ne_snapshot (he.symm.trans (hc.trans he'))
    · exact disk_ne_snapshot (he'.symm.trans (hc.symm.trans he))
    · exact hne (snapshotFile_eq_iff.mp (he.symm.trans (hc.trans he'))).2.1
  · exact hout _ (Or.inr hvms) (hc ▸ List.prefix_append _ _)

-- Nor is what is staged for a disk.
theorem staged_unmoved (hne : disk ≠ disk') {p : Path} (hp : LayerParts disk p)
    (hout : ∀ q, store.imagesDir <+: q ∨ store.vmsDir <+: q → ¬staging <+: q) :
    ¬DiskMoves store vm staging disk' e' (staging ++ p) := by
  rintro (hc | ⟨-, hc⟩ | ⟨l, hl, hc⟩ | ⟨p', hp', hc⟩)
  · exact hout _ (Or.inr vmsDir_prefix_disksDir) ((List.prefix_append _ _).trans hc)
  · exact hout _ (Or.inr vmsDir_prefix_snapshotsDir) ((List.prefix_append _ _).trans hc)
  · exact hout _ (Or.inr ((List.prefix_append _ _).trans (layer_vms hl)))
      (hc ▸ List.prefix_append _ _)
  · obtain rfl := List.append_cancel_left hc
    exact hne (hp.unique hp')

-- Nor are the images.
theorem image_unmoved {p : Path} (hp : store.imagesDir <+: p)
    (hout : ∀ q, store.imagesDir <+: q ∨ store.vmsDir <+: q → ¬staging <+: q) :
    ¬DiskMoves store vm staging disk e p := by
  have hentry : store.home ++ ["images"] <+: p := hp
  have hvms : ∀ q, store.vmsDir <+: q → ¬p <+: q := by
    intro q hq hc
    have hother : store.home ++ ["vms"] <+: q := hq
    exact absurd (entry_eq (hentry.trans hc) hother) (by decide)
  rintro (hc | ⟨-, hc⟩ | ⟨l, hl, hc⟩ | ⟨p', -, hc⟩)
  · exact hvms _ vmsDir_prefix_disksDir hc
  · exact hvms _ vmsDir_prefix_snapshotsDir hc
  · exact hvms _ ((List.prefix_append _ _).trans (layer_vms hl)) (hc ▸ List.prefix_rfl)
  · exact hout _ (Or.inl hp) (hc ▸ List.prefix_append _ _)

-- No layer and nothing that is staged is on the way to the directories of a VM.
theorem way_apart (disk : String) (hq : q <+: store.disksDir vm ∨ ∃ d, q <+: store.snapshotsDir vm d)
    (hout : ∀ q, store.imagesDir <+: q ∨ store.vmsDir <+: q → ¬staging <+: q) :
    q ≠ store.diskFile vm disk ∧ (∀ n, q ≠ store.snapshotFile vm disk n) ∧ ¬staging <+: q := by
  refine ⟨?_, fun n => ?_, fun hc => ?_⟩
  · rintro rfl
    rcases hq with hq | ⟨d, hq⟩
    · exact not_concat_below _ _ hq
    · have hdisks : store.vmRoot vm ++ ["disks", disk ++ ".qcow2"] <+: store.diskFile vm disk := by
        simp [DiskStore.diskFile, DiskStore.disksDir, List.append_assoc]
      have hsnaps : store.vmRoot vm ++ ["snapshots", d] <+: store.snapshotsDir vm d := List.prefix_rfl
      exact absurd (entry_eq (hdisks.trans hq) hsnaps) (by decide)
  · rintro rfl
    rcases hq with hq | ⟨d, hq⟩
    · have hlen := hq.length_le
      simp [DiskStore.snapshotFile, DiskStore.snapshotsDir, DiskStore.disksDir] at hlen
    · have hlen := hq.length_le
      simp [DiskStore.snapshotFile, DiskStore.snapshotsDir] at hlen
  · rcases hq with hq | ⟨d, hq⟩
    · exact hout _ (Or.inr vmsDir_prefix_disksDir) (hc.trans hq)
    · exact hout _ (Or.inr vmsDir_prefix_snapshotsDir) (hc.trans hq)

-- The parent of a layer is there when the snapshots of the disk and the images are.
theorem DiskEntry.Fits.lands (he : e.Fits F data images disk) {fs : FileSystem β} {r : LayerRecord}
    (hr : r ∈ e.active.toList ++ e.snapshots.map SnapshotRecord.layer)
    (hsnaps : ∀ s ∈ e.snapshots,
      (F.layerAt fs (store.snapshotFile vm disk s.name, "qcow2")).isSome = true)
    (himages : ∀ arc ∈ images, (F.layerAt fs (joinName store.imagesDir arc, "qcow2")).isSome = true) :
    Lands F store vm disk fs r.parent := by
  obtain ⟨hsnapshot, himage⟩ := he.known r hr
  intro t ht
  cases hp : r.parent with
  | none =>
      rw [hp] at ht
      cases ht
  | some ref =>
      rw [hp] at ht
      cases ref with
      | snapshot n =>
          obtain rfl := Option.some.inj ht
          obtain ⟨s, hs, rfl⟩ := List.mem_map.mp (hsnapshot n hp)
          exact hsnaps s hs
      | image arc =>
          obtain rfl := Option.some.inj ht
          exact himages arc (himage arc hp)

theorem prefix_joinName (p : Path) (arc : String) : p <+: joinName p arc := by
  rcases joinName_cases p arc with he | ⟨n, he⟩
  · rw [he]
  · rw [he]
    exact List.prefix_append _ _

-- An image that is there stays there.
theorem images_kept (hmoved : Within (DiskMoves store vm staging disk e) w w')
    (himages : ∀ arc ∈ images, (F.layerAt w.fs (joinName store.imagesDir arc, "qcow2")).isSome = true)
    (hout : ∀ q, store.imagesDir <+: q ∨ store.vmsDir <+: q → ¬staging <+: q) :
    ∀ arc ∈ images, (F.layerAt w'.fs (joinName store.imagesDir arc, "qcow2")).isSome = true := by
  intro arc harc
  have hsame := layerAt_same (F := F) (r := (joinName store.imagesDir arc, "qcow2"))
    (hmoved _ (image_unmoved (prefix_joinName _ arc) hout))
  rw [hsame]
  exact himages arc harc

theorem diskMoves_of_snapshot (he : e.Fits F data images disk) {s : SnapshotRecord}
    (hs : s ∈ e.snapshots) (hq : SnapshotMoves store vm disk staging s q) :
    DiskMoves store vm staging disk e q := by
  rcases hq with hq | hq | hq
  · exact Or.inr (Or.inl ⟨List.ne_nil_of_mem hs, hq⟩)
  · exact Or.inr (Or.inr (Or.inl ⟨(store.snapshotFile vm disk s.name, s.layer),
      List.mem_append_right _ (List.mem_map_of_mem hs), hq⟩))
  · refine Or.inr (Or.inr (Or.inr ⟨_, ?_, hq⟩))
    rw [(he.snapshots s hs).parts he.named]
    exact .snapshot s.name

-- The snapshots of a disk are moved, and put on their parents.
theorem placeSnapshots_run (hq : Faithful F undamaged host.qemuImg) (hvm : nameMatches vm = true)
    (he : e.Fits F data images disk) (hroomy : Roomy store vm w.fs)
    (hheld : ∀ s ∈ e.snapshots,
      Holds data w.fs s.layer.file.path (staging ++ Path.parts s.layer.file.path))
    (hfree : ∀ s ∈ e.snapshots, w.fs.node (store.snapshotFile vm disk s.name) = none)
    (himages : ∀ arc ∈ images, (F.layerAt w.fs (joinName store.imagesDir arc, "qcow2")).isSome = true)
    (hout : ∀ q, store.imagesDir <+: q ∨ store.vmsDir <+: q → ¬staging <+: q) :
    ∃ t w', forEach (e.snapshots.map SnapshotRecord.toJson) (moveSnapshot store vm disk staging) w =
        (.ok (), t) ∧
      forEach (e.snapshots.map SnapshotRecord.toJson) (rebaseSnapshot host store vm disk) t =
        (.ok (), w') ∧
      (∀ s ∈ e.snapshots, Rebuilt F undamaged data w'.fs s.layer.file.path
        (ParentRef.file store vm disk s.layer.parent) (store.snapshotFile vm disk s.name)) ∧
      Roomy store vm w'.fs ∧
      Within (fun q => ∃ s ∈ e.snapshots, SnapshotMoves store vm disk staging s q) w w' := by
  obtain ⟨t, hmove, hclear, hheld', hmoved⟩ := moveSnapshots_run hvm he.named he.distinct he.snapshots
    (fun q f hq' => hroomy q f (Or.inr ⟨disk, hq'⟩)) hheld hfree fun q hq' => hout q (Or.inr hq')
  have hlayers : ∀ s ∈ e.snapshots,
      (F.layerAt t.fs (store.snapshotFile vm disk s.name, "qcow2")).isSome = true := by
    intro s hs
    obtain ⟨b, hb, hnode⟩ := hheld' s hs
    obtain ⟨b', l, hb', hl⟩ := (he.snapshots s hs).layer
    obtain rfl := Option.some.inj (hb.symm.trans hb')
    rw [layerAt_of_node hnode hl]
    rfl
  have himages' := images_kept
    (hmoved.mono fun q hq' => by
      obtain ⟨s, hs, hq'⟩ := hq'
      exact diskMoves_of_snapshot he hs hq') himages hout
  obtain ⟨w', hrebase, hbuilt, hput⟩ := rebaseSnapshots_run hvm he.named hq he.distinct
    he.snapshots hheld' fun s hs =>
      he.lands (List.mem_append_right _ (List.mem_map_of_mem hs)) hlayers himages'
  refine ⟨t, w', hmove, hrebase, hbuilt, fun q f hway => ?_, hmoved.trans (hput.mono fun q hq' => ?_)⟩
  · obtain ⟨-, hne, hstaging⟩ := way_apart disk hway hout
    rw [hput q fun hc => by
      obtain ⟨s, -, hc⟩ := hc
      exact hne _ hc]
    by_cases hq' : q <+: store.snapshotsDir vm disk
    · exact hclear q f hq'
    · rw [hmoved q fun hc => ?_]
      · exact hroomy q f hway
      · obtain ⟨s, -, hc | hc | hc⟩ := hc
        · exact hq' hc
        · exact hne _ hc
        · exact hstaging (hc ▸ List.prefix_append _ _)
  · obtain ⟨s, hs, hq'⟩ := hq'
    exact ⟨s, hs, Or.inr (Or.inl hq')⟩

-- The active overlay is not concerned by that, staged or put in place.
theorem active_unmoved (hdisk : nameMatches disk = true) {s : SnapshotRecord} {r : LayerRecord}
    (hs : s.Fits F data disk) (hr : r.Fits F data disk)
    (hout : ∀ q, store.imagesDir <+: q ∨ store.vmsDir <+: q → ¬staging <+: q) :
    ¬SnapshotMoves store vm disk staging s (store.diskFile vm disk) ∧
      ¬SnapshotMoves store vm disk staging s (staging ++ Path.parts r.file.path) := by
  constructor
  · rintro (hc | hc | hc)
    · exact (way_apart disk (Or.inr ⟨disk, hc⟩) hout).1 rfl
    · exact disk_ne_snapshot hc
    · exact hout _ (Or.inr ((List.prefix_append _ _).trans (diskFile_below store vm disk).1))
        (hc ▸ List.prefix_append _ _)
  · rintro (hc | hc | hc)
    · exact (way_apart disk (Or.inr ⟨disk, hc⟩) hout).2.2 (List.prefix_append _ _)
    · exact hout _ (Or.inr ((List.prefix_append _ _).trans
        (snapshotFile_below store vm disk s.name).1)) (hc ▸ List.prefix_append _ _)
    · rw [hs.parts hdisk, hr.parts hdisk] at hc
      simp at hc

theorem assembleDisk_run (hq : Faithful F undamaged host.qemuImg) (hvm : nameMatches vm = true)
    (he : e.Fits F data images disk) (hroomy : Roomy store vm w.fs)
    (hheld : ∀ l ∈ e.layers store vm disk,
      Holds data w.fs l.2.file.path (staging ++ Path.parts l.2.file.path))
    (hfree : ∀ l ∈ e.layers store vm disk, w.fs.node l.1 = none)
    (himages : ∀ arc ∈ images, (F.layerAt w.fs (joinName store.imagesDir arc, "qcow2")).isSome = true)
    (hout : ∀ q, store.imagesDir <+: q ∨ store.vmsDir <+: q → ¬staging <+: q) :
    ∃ w', assembleDisk host store vm staging (disk, e.toJson) w = (.ok e.snapshots.length, w') ∧
      Roomy store vm w'.fs ∧
      (∀ l ∈ e.layers store vm disk, Rebuilt F undamaged data w'.fs l.2.file.path
        (ParentRef.file store vm disk l.2.parent) l.1) ∧
      Within (DiskMoves store vm staging disk e) w w' := by
  obtain ⟨r, hactive, hr⟩ := he.active
  have hsnap : ∀ s ∈ e.snapshots, (store.snapshotFile vm disk s.name, s.layer) ∈
      e.layers store vm disk := fun s hs => List.mem_append_right _ (List.mem_map_of_mem hs)
  have hdisk : (store.diskFile vm disk, r) ∈ e.layers store vm disk :=
    List.mem_append_left _ (by simp [hactive])
  obtain ⟨t, t', hmove, hrebase, hbuilt, hroomy', hmoved⟩ := placeSnapshots_run hq hvm he hroomy
    (fun s hs => hheld _ (hsnap s hs)) (fun s hs => hfree _ (hsnap s hs)) himages hout
  have hmoved' : Within (DiskMoves store vm staging disk e) w t' := hmoved.mono fun q hq' => by
    obtain ⟨s, hs, hq'⟩ := hq'
    exact diskMoves_of_snapshot he hs hq'
  have hlands : Lands F store vm disk t'.fs r.parent := he.lands
    (List.mem_append_left _ (by simp [hactive])) (fun s hs => (hbuilt s hs).layer) (images_kept hmoved' himages hout)
  have hheld' : Holds data t'.fs r.file.path (staging ++ Path.parts r.file.path) := by
    obtain ⟨b, hb, hnode⟩ := hheld _ hdisk
    refine ⟨b, hb, (hmoved _ ?_).trans hnode⟩
    rintro ⟨s, hs, hc⟩
    exact (active_unmoved he.named (he.snapshots s hs) hr hout).2 hc
  have hfree' : t'.fs.node (store.diskFile vm disk) = none := by
    refine (hmoved _ ?_).trans (hfree _ hdisk)
    rintro ⟨s, hs, hc⟩
    exact (active_unmoved he.named (he.snapshots s hs) hr hout).1 hc
  obtain ⟨w', hplace, hbuilt', hdirs, hput⟩ := placeActive_run hvm he.named hq hactive hr
    (fun q f hq' => hroomy' q f (Or.inl hq')) hheld' hfree' hlands hout
  refine ⟨w', ?_, fun q f hway => ?_, fun l hl => ?_, hmoved'.trans (hput.mono fun q hq' => ?_)⟩
  · have hsnaps : (pyGetList e.toJson "snapshots" >>= pyIter) =
        .ok (e.snapshots.map SnapshotRecord.toJson) := rfl
    rw [assembleDisk, bind_of_ok (validateName_eq_ok.mpr ⟨he.named, rfl, rfl⟩),
      bind_of_ok (ofExcept_eq_ok.mpr ⟨hsnaps, rfl⟩), bind_of_ok hmove, bind_of_ok hrebase,
      bind_of_ok hplace, pure_run, List.length_map]
  · obtain ⟨hne, -, hstaging⟩ := way_apart disk hway hout
    by_cases hq' : q <+: store.disksDir vm
    · simp [hdirs q hq']
    · rw [hput q fun hc => ?_]
      · exact hroomy' q f hway
      · rcases hc with hc | hc | hc
        · exact hq' hc
        · exact hne hc
        · exact hstaging (hc ▸ List.prefix_append _ _)
  · rcases List.mem_append.mp hl with hl | hl
    · simp only [hactive, Option.toList_some, List.map_cons, List.map_nil, List.mem_singleton] at hl
      rw [hl]
      exact hbuilt'
    · obtain ⟨s, hs, rfl⟩ := List.mem_map.mp hl
      refine (hbuilt s hs).congr (hput _ ?_)
      rintro (hc | hc | hc)
      · exact (way_apart disk (Or.inl hc) hout).2.1 s.name rfl
      · exact disk_ne_snapshot hc.symm
      · exact hout _ (Or.inr ((List.prefix_append _ _).trans
          (snapshotFile_below store vm disk s.name).1)) (hc ▸ List.prefix_append _ _)
  · rcases hq' with hq' | hq' | hq'
    · exact Or.inl hq'
    · exact Or.inr (Or.inr (Or.inl ⟨_, hdisk, hq'⟩))
    · exact Or.inr (Or.inr (Or.inr ⟨_, .active, hq'⟩))

theorem DiskEntry.Fits.layer_parts (he : e.Fits F data images disk) {l : Path × LayerRecord}
    (hl : l ∈ e.layers store vm disk) : LayerParts disk (Path.parts l.2.file.path) := by
  obtain ⟨r, hactive, hr⟩ := he.active
  rcases List.mem_append.mp hl with hl | hl
  · simp only [hactive, Option.toList_some, List.map_cons, List.map_nil, List.mem_singleton] at hl
    rw [hl, hr.parts he.named]
    exact .active
  · obtain ⟨s, hs, rfl⟩ := List.mem_map.mp hl
    rw [(he.snapshots s hs).parts he.named]
    exact .snapshot s.name

-- The loop over the disks.
theorem assembleDisks_run (hq : Faithful F undamaged host.qemuImg) (hvm : nameMatches vm = true)
    {ds : List (String × DiskEntry)} (hnodup : (ds.map Prod.fst).Nodup)
    (hds : ∀ d ∈ ds, d.2.Fits F data images d.1) (hroomy : Roomy store vm w.fs)
    (hheld : ∀ d ∈ ds, ∀ l ∈ d.2.layers store vm d.1,
      Holds data w.fs l.2.file.path (staging ++ Path.parts l.2.file.path))
    (hfree : ∀ d ∈ ds, ∀ l ∈ d.2.layers store vm d.1, w.fs.node l.1 = none)
    (himages : ∀ arc ∈ images, (F.layerAt w.fs (joinName store.imagesDir arc, "qcow2")).isSome = true)
    (hout : ∀ q, store.imagesDir <+: q ∨ store.vmsDir <+: q → ¬staging <+: q) :
    ∃ w', mapEach (ds.map fun d => (d.1, d.2.toJson)) (assembleDisk host store vm staging) w =
        (.ok (ds.map fun d => d.2.snapshots.length), w') ∧
      (∀ d ∈ ds, ∀ l ∈ d.2.layers store vm d.1, Rebuilt F undamaged data w'.fs l.2.file.path
        (ParentRef.file store vm d.1 l.2.parent) l.1) ∧
      Within (fun q => ∃ d ∈ ds, DiskMoves store vm staging d.1 d.2 q) w w' := by
  have hne : ds.Pairwise fun d d' => d.1 ≠ d'.1 := List.pairwise_map.mp hnodup
  rw [mapEach_map]
  obtain ⟨w', hrun, -, hbuilt, hmoved⟩ := mapEach_within (fun d => d.2.snapshots.length)
    (fun d => DiskMoves store vm staging d.1 d.2)
    (fun fs => Roomy store vm fs ∧
      ∀ arc ∈ images, (F.layerAt fs (joinName store.imagesDir arc, "qcow2")).isSome = true)
    (fun d fs => ∀ l ∈ d.2.layers store vm d.1,
      Holds data fs l.2.file.path (staging ++ Path.parts l.2.file.path) ∧ fs.node l.1 = none)
    (fun d fs => ∀ l ∈ d.2.layers store vm d.1, Rebuilt F undamaged data fs l.2.file.path
      (ParentRef.file store vm d.1 l.2.parent) l.1)
    (fun d hd t hinv hpre => by
      obtain ⟨t', hrun, hroomy', hbuilt, hstep⟩ := assembleDisk_run hq hvm (hds d hd) hinv.1
        (fun l hl => (hpre l hl).1) (fun l hl => (hpre l hl).2) hinv.2 hout
      exact ⟨t', hrun, ⟨hroomy', images_kept hstep hinv.2 hout⟩, hbuilt, hstep⟩)
    (hne.imp_of_mem fun ha hb hab t t' hstep hpre l hl => by
      obtain ⟨⟨b, hb', hnode⟩, hnone⟩ := hpre l hl
      have hparts := (hds _ hb).layer_parts hl
      exact ⟨⟨b, hb', (hstep _ (staged_unmoved hab.symm hparts hout)).trans hnode⟩,
        (hstep _ (layer_unmoved hab.symm hl hout)).trans hnone⟩)
    (hne.imp fun hab t t' hstep hpost l hl => (hpost l hl).congr (hstep _ (layer_unmoved hab hl hout)))
    ⟨hroomy, himages⟩ fun d hd l hl => ⟨hheld d hd l hl, hfree d hd l hl⟩
  exact ⟨w', hrun, hbuilt, hmoved⟩

end

end VMForge.Storage
