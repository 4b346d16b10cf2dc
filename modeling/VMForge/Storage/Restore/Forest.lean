import VMForge.Storage.Memory.Lemmas
import VMForge.Storage.Restore.Slots
import VMForge.Storage.Restore.Verified
import VMForge.Storage.Store.Forest

namespace VMForge.Storage

open Exec

section

variable {β : Type} (F : Formats β) (store : DiskStore) (vm disk : String)

-- A link leads to a snapshot of the same section, or to an image that is there or bundled.
def LinkLands (fs : FileSystem β) (images snaps : List Json) : ParentLink → Prop
  | .root => True
  | .snapshot name => ∃ r ∈ snaps, recordName r = some name
  | .image path => fs.isFile (Path.resolve (joinName store.imagesDir path)) = true ∨
      ∃ r ∈ images, ∃ arc, pyIndex r "path" = .ok (.str arc) ∧
        joinName store.imagesDir arc = Path.resolve (joinName store.imagesDir path)

-- The parent of a snapshot, by the last record of its name.
def RecordParent (snaps : List Json) (n m : String) : Prop :=
  ∃ r, lastWith recordName snaps n = some r ∧ recordLink r = some (.snapshot m)

-- A disk section describes a forest.
structure Rooted (fs : FileSystem β) (images : List Json) (diskSection : Json) : Prop where
  snapshots : ∀ snaps, recordsAt diskSection "snapshots" = .ok snaps → ∀ n r link,
    lastWith recordName snaps n = some r → recordLink r = some link →
    LinkLands store fs images snaps link
  active : ∀ snaps link, recordsAt diskSection "snapshots" = .ok snaps →
    activeLink diskSection = some link → LinkLands store fs images snaps link
  acyclic : ∀ snaps, recordsAt diskSection "snapshots" = .ok snaps →
    ∀ n, ¬Relation.TransGen (RecordParent snaps) n n

end

section

variable {β : Type} {F : Formats β} {host : Host β} {store : DiskStore} {vm : String}
  {staging : Path} {tar : Archive β} {manifest : Json} {result : RestoreResult}
  {w w₂ wa wb wc w₃ w' : World β}

theorem PointsAt.backs_iff {fs : FileSystem β} {path target : Path} {o : Option Path}
    (h : PointsAt F fs path o) : Backs F fs path target ↔ o = some target := by
  obtain ⟨l, hl, hb⟩ := h
  constructor
  · rintro ⟨l', format, hl', hb'⟩
    obtain rfl := Option.some.inj (hl.symm.trans hl')
    rw [hb, Option.map_eq_some_iff] at hb'
    obtain ⟨a, rfl, he⟩ := hb'
    rw [(Prod.mk.inj he).1]
  · rintro rfl
    exact ⟨l, "qcow2", hl, hb⟩

theorem PointsAt.isFile {fs : FileSystem β} {path : Path} {o : Option Path}
    (h : PointsAt F fs path o) : fs.isFile path = true := by
  obtain ⟨l, hl, -⟩ := h
  obtain ⟨b, hb, -⟩ := layerAt_eq_some.mp hl
  obtain ⟨m, hf⟩ := (FileSystem.blob_eq_some _).mp hb
  exact (FileSystem.isFile_iff _).mpr ⟨_, hf⟩

-- Where the link of an image leads.
theorem image_target (store : DiskStore) (path : String) :
    Path.resolve (joinName store.imagesDir path) <+: store.imagesDir ∨
      ∃ n, Path.resolve (joinName store.imagesDir path) = store.imagesDir ++ [n] := by
  have hhome : ".." ∉ store.home := Path.dotdot_notMem_of_isComponent store.legal
  have himages : ".." ∉ store.imagesDir := by
    simp [DiskStore.imagesDir, hhome]
  rcases joinName_cases store.imagesDir path with he | ⟨n, he⟩
  · rw [he, Path.resolve_of_notMem himages]
    exact Or.inl List.prefix_rfl
  · rw [he]
    by_cases hn : n = ".."
    · subst hn
      rw [Path.resolve_concat_dotdot himages]
      exact Or.inl (List.dropLast_prefix _)
    · refine Or.inr ⟨n, Path.resolve_of_notMem ?_⟩
      simp [himages, Ne.symm hn]

-- No image is in the place of a snapshot.
theorem image_target_ne_snapshotFile (store : DiskStore) (path vm disk n : String) :
    Path.resolve (joinName store.imagesDir path) ≠ store.snapshotFile vm disk n := by
  intro he
  have hvms : store.home ++ ["vms", vm, "snapshots", disk, n ++ ".qcow2"] <+:
      store.snapshotFile vm disk n := by
    simp [DiskStore.snapshotFile, DiskStore.snapshotsDir, DiskStore.vmRoot, DiskStore.vmsDir]
  rcases image_target store path with hc | ⟨m, hc⟩
  · rw [he] at hc
    have himages : store.home ++ ["images"] <+: store.imagesDir := List.prefix_rfl
    exact absurd (entry_eq himages (hvms.trans hc)) (by decide)
  · have himages : store.home ++ ["images", m] <+: store.snapshotFile vm disk n := by
      rw [← he, hc]
      simp [DiskStore.imagesDir]
    exact absurd (entry_eq himages hvms) (by decide)

namespace Completed

variable (h : Completed host store tar vm manifest staging result w w₂ wa wb wc w₃ w')

include h

-- A layer of the VM stays as it was when the VM was assembled.
theorem layer_after {q : Path} (hq : store.vmRoot vm <+: q) : w'.fs.node q = w₃.fs.node q :=
  h.cleaning.same (h.prepared.disjoint_vms ((List.prefix_append _ _).trans hq)) id fun _ => id

theorem valid : nameMatches vm = true := by
  have hasm := h.assembled
  simp only [assembleVm, bind_eq_ok, store.vmDir_eq_ok] at hasm
  obtain ⟨_, _, ⟨hvm, -⟩, -⟩ := hasm
  exact hvm

theorem keys_nodup {items : List (String × Json)}
    (hitems : (pyIndex manifest "disks" >>= pySortedItems) = .ok items) :
    (items.map Prod.fst).Nodup := by
  obtain ⟨files, hfiles, -⟩ := extractVerified_ok h.prepared.dir h.prepared.empty h.extracted
  obtain ⟨items', hitems', hnodup, -⟩ := (manifestFiles_spec hfiles).disks
  obtain rfl := Except.ok.inj (hitems.symm.trans hitems')
  exact hnodup

section

variable {items : List (String × Json)} {item : String × Json} {snaps : List Json}
  (hitems : (pyIndex manifest "disks" >>= pySortedItems) = .ok items) (hitem : item ∈ items)

include hitems hitem

theorem snapshot_points (hq : Repoints F host.qemuImg)
    (hl : recordsAt item.2 "snapshots" = .ok snaps) {n : String} {r : Json}
    (hr : lastWith recordName snaps n = some r) :
    ∃ link, recordLink r = some link ∧
      PointsAt F w'.fs (store.snapshotFile vm item.1 n) (link.target store vm item.1) := by
  obtain ⟨k, t, t', -, ht, hturn, hlater⟩ := assembleVm_disk h.prepared h.records h.dir_cleared
    h.assembled hitems (h.keys_nodup hitems) hitem
  obtain ⟨hactive, hsnaps⟩ := h.records.disks _ hitems item hitem
  obtain ⟨link, hlink, hpoints⟩ :=
    assembleDisk_points hq h.prepared h.valid ht hactive hsnaps hturn hl hr
  refine ⟨link, hlink, hpoints.congr (FileSystem.blob_congr _ ?_)⟩
  rw [h.layer_after (snapshotFile_below _ vm item.1 n).1,
    snapshotFile_kept h.prepared hlater (not_elsewhere_snapshotFile n)]

theorem active_points (hq : Repoints F host.qemuImg) (hc : Creates F host.qemuImg) :
    ∃ link, activeLink item.2 = some link ∧
      PointsAt F w'.fs (store.diskFile vm item.1) (link.target store vm item.1) := by
  obtain ⟨k, t, t', -, ht, hturn, hlater⟩ := assembleVm_disk h.prepared h.records h.dir_cleared
    h.assembled hitems (h.keys_nodup hitems) hitem
  obtain ⟨link, hlink, hpoints⟩ := assembleDisk_active_points hq hc h.valid hturn
  refine ⟨link, hlink, hpoints.congr (FileSystem.blob_congr _ ?_)⟩
  rw [h.layer_after (diskFile_below _ vm item.1).1,
    diskFile_kept h.prepared hlater not_elsewhere_diskFile]

-- Only the listed snapshots are there.
theorem snapshot_missing (hl : recordsAt item.2 "snapshots" = .ok snaps) {n : String}
    (hn : ∀ r ∈ snaps, recordName r ≠ some n) :
    w'.fs.node (store.snapshotFile vm item.1 n) = none := by
  obtain ⟨k, t, t', hearlier, ht, hturn, hlater⟩ := assembleVm_disk h.prepared h.records
    h.dir_cleared h.assembled hitems (h.keys_nodup hitems) hitem
  obtain ⟨hactive, hsnaps⟩ := h.records.disks _ hitems item hitem
  have hown : TouchesOnly (slotRoom β store vm staging (DiskSlots store vm item.1 snaps))
      (assembleDisk host store vm staging item) t := by
    refine assembleDisk_slots (stages_slotRoom ht (diskSlots_not_staging h.prepared)) hactive hsnaps
      fun snaps' hl' q hq => ?_
    obtain rfl := Except.ok.inj (hl.symm.trans hl')
    exact hq
  have hnot : ¬DiskSlots store vm item.1 snaps (store.snapshotFile vm item.1 n) := by
    rintro (⟨r, hr, n', hn', hq⟩ | hq)
    · obtain ⟨-, rfl⟩ := snapshotFile_below_iff.mp hq
      exact hn r hr hn'
    · exact diskFile_not_below_snapshotFile hq
  have hroot := (snapshotFile_below store vm item.1 n).1
  rw [h.layer_after hroot, snapshotFile_kept h.prepared hlater (not_elsewhere_snapshotFile n),
    snapshotFile_kept h.prepared (hown.confined hturn) hnot,
    snapshotFile_kept h.prepared hearlier (not_elsewhere_snapshotFile n), h.cleared, if_pos hroot]

end

-- Which images are there at the end.
theorem image_there_iff {bundlePath : Path} {asVm : Option String} {force : Bool}
    (hopen : Opens host bundlePath asVm w.fs tar manifest vm)
    (hrestore : restore host store bundlePath asVm force w = (.ok result, w'))
    {images : List Json} (himages : recordsAt manifest "images" = .ok images) (path : String) :
    w'.fs.isFile (Path.resolve (joinName store.imagesDir path)) = true ↔
      w.fs.isFile (Path.resolve (joinName store.imagesDir path)) = true ∨
        ∃ r ∈ images, ∃ arc, pyIndex r "path" = .ok (.str arc) ∧
          joinName store.imagesDir arc = Path.resolve (joinName store.imagesDir path) := by
  have hplace := h.records.images _ himages
  have hentry : ∀ {r arc}, r ∈ images → pyIndex r "path" = .ok (.str arc) →
      ∃ n, joinName store.imagesDir arc = store.imagesDir ++ [n] := fun hr harc =>
    (hplace _ hr).joinName (pyIndexStr_eq_ok.mpr harc) store.imagesDir
  rcases image_target store path with hq | ⟨n, hq⟩
  · -- no image is a file on the way to the images
    have hconf : Confined (restoreRoom store vm w) w w' :=
      TouchesOnly.confined (restore_touches hopen) hrestore
    have hnot : ¬(restoreRoom store vm w).free (Path.resolve (joinName store.imagesDir path)) := by
      rintro (hc | ⟨s, hc, -⟩)
      · simpa [DiskStore.vmRoot, DiskStore.vmsDir, DiskStore.imagesDir] using
          (hc.trans hq).length_le
      · exact staging_disjoint "images" [] (by decide) List.prefix_rfl (hc.trans hq)
    rw [or_iff_left]
    · rcases hconf.node _ hnot with he | ⟨hc, -⟩ | ⟨hc | hnone, x, hx, hfresh⟩
      · simp only [FileSystem.isFile, he]
      · exact hc.elim
      · exact hc.elim
      · rcases hfresh with ⟨-, rfl⟩ | ⟨n, f, hn, -⟩
        · simp [FileSystem.isFile, hx, hnone, Node.isDir]
        · rw [hn] at hq
          exact absurd hq (not_concat_below _ _)
    · rintro ⟨r, hr, arc, harc, he⟩
      obtain ⟨n, hn⟩ := hentry hr harc
      rw [← he, hn] at hq
      exact not_concat_below _ _ hq
  · rw [hq]
    have hloop := (placeImages_eq himages).symm.trans h.placed
    constructor
    · intro hfile
      by_contra hc
      simp only [not_or, not_exists, not_and] at hc
      have hsame : wb.fs.node (store.imagesDir ++ [n]) = wa.fs.node (store.imagesDir ++ [n]) := by
        refine (forEach_turns (fun u u' : World β => u'.fs.node (store.imagesDir ++ [n]) =
          u.fs.node (store.imagesDir ++ [n])) (fun _ => rfl) (fun h h' => h'.trans h) hloop
          fun r hr u u' _ hbody => ?_).1
        obtain ⟨arc, f, harc, -, hother, -⟩ := placeImage_entry h.prepared (hplace r hr) hbody
        exact hother n fun he => hc.2 r hr arc harc he.symm
      refine hc.1 ?_
      simpa only [FileSystem.isFile, h.image_after, hsame, h.image_before] using hfile
    · rintro (hfile | ⟨r, hr, arc, harc, he⟩)
      · have hkeep : wb.fs.node (store.imagesDir ++ [n]) = wa.fs.node (store.imagesDir ++ [n]) := by
          refine h.placing.keep id
            (fun hc => h.prepared.disjoint_images (List.prefix_append _ _) hc.1) ?_
          obtain ⟨f, hf⟩ := (FileSystem.isFile_iff _).mp hfile
          simp [h.image_before, hf]
        simpa only [FileSystem.isFile, h.image_after, hkeep, h.image_before] using hfile
      · obtain ⟨before, after, rfl⟩ := List.append_of_mem hr
        obtain ⟨-, ⟨⟨arc', f, digest, harc', hf, -⟩, -⟩ | ⟨-, arc', f, harc', -, hf⟩⟩ :=
          h.images_met himages
        · obtain rfl := Json.str.inj (Except.ok.inj (harc.symm.trans (pyIndexStr_eq_ok.mp harc')))
          rw [← he]
          exact (FileSystem.isFile_iff _).mpr ⟨f, hf⟩
        · obtain rfl := Json.str.inj (Except.ok.inj (harc.symm.trans harc'))
          rw [← he]
          exact (FileSystem.isFile_iff _).mpr ⟨f, hf⟩

end Completed

-- For one disk, given where its layers point and which snapshots are there.
theorem forest_iff_rooted {item : String × Json} {images snaps : List Json} {fs : FileSystem β}
    (hl : recordsAt item.2 "snapshots" = .ok snaps)
    (hsnap : ∀ n r, lastWith recordName snaps n = some r → ∃ link, recordLink r = some link ∧
      PointsAt F w'.fs (store.snapshotFile vm item.1 n) (link.target store vm item.1))
    (hmissing : ∀ n, (∀ r ∈ snaps, recordName r ≠ some n) →
      w'.fs.node (store.snapshotFile vm item.1 n) = none)
    (hactive : ∃ link, activeLink item.2 = some link ∧
      PointsAt F w'.fs (store.diskFile vm item.1) (link.target store vm item.1))
    (himage : ∀ path, w'.fs.isFile (Path.resolve (joinName store.imagesDir path)) = true ↔
      fs.isFile (Path.resolve (joinName store.imagesDir path)) = true ∨
        ∃ r ∈ images, ∃ arc, pyIndex r "path" = .ok (.str arc) ∧
          joinName store.imagesDir arc = Path.resolve (joinName store.imagesDir path)) :
    Forest F store vm item.1 w'.fs ↔ Rooted store fs images item.2 := by
  have hthere : ∀ n, w'.fs.isFile (store.snapshotFile vm item.1 n) = true ↔
      ∃ r ∈ snaps, recordName r = some n := by
    intro n
    constructor
    · intro hfile
      by_contra hc
      simp only [not_exists, not_and] at hc
      simp [FileSystem.isFile, hmissing n hc] at hfile
    · rintro ⟨r, hr, hn⟩
      cases hlast : lastWith recordName snaps n with
      | none => exact absurd hn (lastWith_eq_none.mp hlast r hr)
      | some r' =>
          obtain ⟨link, -, hpoints⟩ := hsnap n r' hlast
          exact hpoints.isFile
  have hlands : ∀ link, LinkLands store fs images snaps link ↔
      ∀ target, link.target store vm item.1 = some target → w'.fs.isFile target = true := by
    intro link
    cases link with
    | root => simp [LinkLands, ParentLink.target]
    | snapshot name => simp [LinkLands, ParentLink.target, hthere]
    | image path => simp [LinkLands, ParentLink.target, himage]
  have hbacks : ∀ n target, Backs F w'.fs (store.snapshotFile vm item.1 n) target ↔
      ∃ r link, lastWith recordName snaps n = some r ∧ recordLink r = some link ∧
        link.target store vm item.1 = some target := by
    intro n target
    constructor
    · intro hb
      cases hlast : lastWith recordName snaps n with
      | none =>
          obtain ⟨l, format, hlayer, -⟩ := hb
          obtain ⟨b, hblob, -⟩ := layerAt_eq_some.mp hlayer
          rw [FileSystem.blob, hmissing n (lastWith_eq_none.mp hlast)] at hblob
          cases hblob
      | some r =>
          obtain ⟨link, hlink, hpoints⟩ := hsnap n r hlast
          exact ⟨r, link, rfl, hlink, hpoints.backs_iff.mp hb⟩
    · rintro ⟨r, link, hlast, hlink, htarget⟩
      obtain ⟨link', hlink', hpoints⟩ := hsnap n r hlast
      obtain rfl := Option.some.inj (hlink.symm.trans hlink')
      exact hpoints.backs_iff.mpr htarget
  have hparent : (fun n m => Backs F w'.fs (store.snapshotFile vm item.1 n)
      (store.snapshotFile vm item.1 m)) = RecordParent snaps := by
    funext n m
    rw [hbacks, RecordParent, eq_iff_iff]
    refine exists_congr fun r => ?_
    constructor
    · rintro ⟨link, hlast, hlink, htarget⟩
      cases link with
      | root => cases htarget
      | snapshot name =>
          have he : store.snapshotFile vm item.1 name <+: store.snapshotFile vm item.1 m :=
            (Option.some.inj htarget) ▸ List.prefix_rfl
          obtain ⟨-, rfl⟩ := snapshotFile_below_iff.mp he
          exact ⟨hlast, hlink⟩
      | image path =>
          exact absurd (Option.some.inj htarget) (image_target_ne_snapshotFile store path vm _ m)
    · rintro ⟨hlast, hlink⟩
      exact ⟨.snapshot m, hlast, hlink, rfl⟩
  obtain ⟨link, hlink, hpoints⟩ := hactive
  constructor
  · intro hforest
    refine ⟨fun snaps' hl' n r link' hlast hlink' => ?_, fun snaps' link' hl' hlink' => ?_,
      fun snaps' hl' => ?_⟩
    · obtain rfl := Except.ok.inj (hl.symm.trans hl')
      exact (hlands link').mpr fun target htarget =>
        hforest.snapshots n target ((hbacks n target).mpr ⟨r, link', hlast, hlink', htarget⟩)
    · obtain rfl := Except.ok.inj (hl.symm.trans hl')
      obtain rfl := Option.some.inj (hlink.symm.trans hlink')
      exact (hlands link).mpr fun target htarget =>
        hforest.active target (hpoints.backs_iff.mpr htarget)
    · obtain rfl := Except.ok.inj (hl.symm.trans hl')
      exact hparent ▸ hforest.acyclic
  · intro hroot
    refine ⟨fun n target hb => ?_, fun target hb => ?_, hparent ▸ hroot.acyclic snaps hl⟩
    · obtain ⟨r, link', hlast, hlink', htarget⟩ := (hbacks n target).mp hb
      exact (hlands link').mp (hroot.snapshots snaps hl n r link' hlast hlink') target htarget
    · exact (hlands link).mp (hroot.active snaps link hl hlink) target (hpoints.backs_iff.mp hb)

-- A restore that returns has made a forest of every disk exactly when every section of the
-- manifest describes one.
theorem restore_forest_iff (hq : Repoints F host.qemuImg) (hc : Creates F host.qemuImg)
    {bundlePath : Path} {asVm : Option String} {force : Bool}
    (hrestore : restore host store bundlePath asVm force w = (.ok result, w')) :
    ∃ tar manifest vm items images, Opens host bundlePath asVm w.fs tar manifest vm ∧
      (pyIndex manifest "disks" >>= pySortedItems) = .ok items ∧
      recordsAt manifest "images" = .ok images ∧ result.disks = items.map Prod.fst ∧
      ((∀ disk ∈ result.disks, Forest F store vm disk w'.fs) ↔
        ∀ item ∈ items, Rooted store w.fs images item.2) := by
  rcases openBundle_error_or_opens host bundlePath asVm w with
    ⟨e, hclosed⟩ | ⟨tar, manifest, vm, hopen⟩
  · rw [restore_of_closed hclosed] at hrestore
    cases hrestore
  obtain ⟨staging, w₂, wa, wb, wc, w₃, h⟩ := restore_completed hopen hrestore
  obtain ⟨files, hfiles, -⟩ := extractVerified_ok h.prepared.dir h.prepared.empty h.extracted
  obtain ⟨images, himages, -⟩ := (manifestFiles_spec hfiles).images
  obtain ⟨items, counts, config, checks, t, hitems, -, -, -, -, rfl⟩ := assembleVm_ok h.assembled
  refine ⟨tar, manifest, vm, items, images, hopen, hitems, himages, rfl, ?_⟩
  simp only [List.forall_mem_map]
  refine forall₂_congr fun item hitem => ?_
  obtain ⟨items', hitems', -, hsections⟩ := (manifestFiles_spec hfiles).disks
  obtain rfl := Except.ok.inj (hitems.symm.trans hitems')
  obtain ⟨active, snaps, -, hl, -⟩ := hsections item hitem
  exact forest_iff_rooted hl (fun n r hr => h.snapshot_points hitems hitem hq hl hr)
    (fun n hn => h.snapshot_missing hitems hitem hl hn) (h.active_points hitems hitem hq hc)
    (h.image_there_iff hopen hrestore himages)

end

theorem backs_of_bind {β : Type} {F : Formats β} {fs : FileSystem β} {path target : Path}
    (format : String)
    (h : (F.layerAt fs (path, "qcow2")).bind Layer.backing = some (target, format)) :
    Backs F fs path target := by
  obtain ⟨l, hl, hb⟩ := Option.bind_eq_some_iff.mp h
  exact ⟨l, format, hl, hb⟩

-- A disk with two snapshots, each the parent of the other, and an active overlay without one.
def cyclicLayer : Blob := .qcow2 1 [] none

def cyclicRecord (path : String) (fields : List (String × Json)) : Json :=
  .obj ([("path", .str path), ("size", .int 1), ("sha256", .str cyclicLayer.digest)] ++ fields)

def cyclicManifest : Json :=
  .obj [("schema_version", .int 1), ("vm", .str "web"), ("disks", .obj [("root", .obj [
    ("active", cyclicRecord "disks/root.qcow2" [("parent", .null)]),
    ("current", .null),
    ("snapshots", .arr [
      cyclicRecord "snapshots/root/a.qcow2"
        [("name", .str "a"), ("parent", .obj [("snapshot", .str "b")])],
      cyclicRecord "snapshots/root/b.qcow2"
        [("name", .str "b"), ("parent", .obj [("snapshot", .str "a")])]])])])]

def cyclicWorld : World Blob :=
  Memory.world [(["b.tar"], Memory.plain (.archive [⟨"manifest.json", .file (.json cyclicManifest)⟩,
    ⟨"disks/root.qcow2", .file cyclicLayer⟩, ⟨"snapshots/root/a.qcow2", .file cyclicLayer⟩,
    ⟨"snapshots/root/b.qcow2", .file cyclicLayer⟩])), (["srv"], .dir)]

-- Only the chain of the active overlay is checked, and it is sound.
theorem restore_cyclic_makes_cycle :
    let run := restore (memoryHost []) demoStore ["b.tar"] none false cyclicWorld
    run.1.isOk = true ∧ ¬Forest memoryFormats demoStore "web" "root" run.2.fs := by
  refine ⟨by decide +kernel, fun h => ?_⟩
  have hab : Backs memoryFormats
      (restore (memoryHost []) demoStore ["b.tar"] none false cyclicWorld).2.fs
      (demoStore.snapshotFile "web" "root" "a") (demoStore.snapshotFile "web" "root" "b") :=
    backs_of_bind "qcow2" (by decide +kernel)
  have hba : Backs memoryFormats
      (restore (memoryHost []) demoStore ["b.tar"] none false cyclicWorld).2.fs
      (demoStore.snapshotFile "web" "root" "b") (demoStore.snapshotFile "web" "root" "a") :=
    backs_of_bind "qcow2" (by decide +kernel)
  exact h.acyclic "a" (.tail (.single hab) hba)

theorem restore_forest_cyclic :
    ∃ tar manifest vm items images,
      Opens (memoryHost []) ["b.tar"] none cyclicWorld.fs tar manifest vm ∧
      (pyIndex manifest "disks" >>= pySortedItems) = .ok items ∧
      recordsAt manifest "images" = .ok images ∧
      ["root"] = items.map Prod.fst ∧
      ((∀ disk ∈ ["root"], Forest memoryFormats demoStore vm disk
          (restore (memoryHost []) demoStore ["b.tar"] none false cyclicWorld).2.fs) ↔
        ∀ item ∈ items, Rooted demoStore cyclicWorld.fs images item.2) := by
  obtain ⟨result, hresult⟩ := eq_ok_of_isOk
    (x := restore (memoryHost []) demoStore ["b.tar"] none false cyclicWorld) (by decide +kernel)
  have hdisks : result.disks = ["root"] := by
    have hrun : (restore (memoryHost []) demoStore ["b.tar"] none false cyclicWorld).1.toOption.map
        RestoreResult.disks = some ["root"] := by decide +kernel
    rw [hresult] at hrun
    exact Option.some.inj hrun
  rw [← hdisks]
  exact restore_forest_iff (Memory.repoints []) (Memory.creates []) hresult

end VMForge.Storage
