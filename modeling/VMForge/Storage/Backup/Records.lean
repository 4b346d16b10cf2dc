import VMForge.Storage.Backup.Outline

namespace VMForge.Storage

open Exec

-- What the manifest of a VM says about its images and its config files.
structure Manifest.Recounts {β : Type} (store : DiskStore) (fs : FileSystem β) (m : Manifest)
    (sources : List (String × Path)) : Prop where
  images : (m.images.map FileRecord.path).Nodup
  used : ∀ r ∈ m.images, ∃ d ∈ m.disks, ∃ l ∈ d.2.layers store m.vm d.1,
    l.2.parent = some (.image r.path)
  config : m.config.map FileRecord.path = ((fs.children (store.vmRoot m.vm)).filter fun n =>
    fs.isFile (store.vmRoot m.vm ++ [n])).map configArc
  files : ∀ n, fs.isFile (store.vmRoot m.vm ++ [n]) = true →
    getPath sources (configArc n) = some (store.vmRoot m.vm ++ [n])

section

variable {β : Type} {host : Host β} {store : DiskStore} {vm disk : String} {w w' : World β}
  {snaps : List Snapshot} {only : List String} {acc acc' : Collected} {snapshot : Option String}
  {diskNames : List String}

-- An image is collected for the layer that is on it.
theorem backingRef_images {path : Path} {ref : Option ParentRef}
    (h : backingRef host path snaps only acc w = (.ok (ref, acc'), w')) :
    ∀ image ∈ acc'.images, image ∈ acc.images ∨ ref = some (.image (imageArc image)) := by
  simp only [backingRef, bind_eq_ok] at h
  obtain ⟨inf, t, -, h⟩ := h
  cases hb : inf.backingFile with
  | none =>
      simp only [hb, pure_eq_ok, Prod.mk.injEq] at h
      obtain ⟨⟨-, rfl⟩, -⟩ := h
      exact fun image hi => Or.inl hi
  | some backing =>
      simp only [hb] at h
      cases hfind : snaps.find? fun snap => snap.path = backing with
      | some snap =>
          simp only [hfind, bind_eq_ok, pure_eq_ok, Prod.mk.injEq] at h
          obtain ⟨_, _, -, ⟨-, rfl⟩, -⟩ := h
          exact fun image hi => Or.inl hi
      | none =>
          simp only [hfind, bind_eq_ok, pure_eq_ok, Prod.mk.injEq] at h
          obtain ⟨_, _, -, ⟨rfl, rfl⟩, -⟩ := h
          intro image hi
          rcases mem_setPath hi with rfl | hi
          · exact Or.inr rfl
          · exact Or.inl hi

theorem collectSnapshot_images {b b' : List (String × PendingLayer) × Collected} {name : String}
    (hb : ∀ image ∈ b.2.images, image ∈ acc.images ∨
      ∃ s ∈ b.1, s.2.parent = some (.image (imageArc image)))
    (h : collectSnapshot host disk snaps only b name w = (.ok b', w')) :
    ∀ image ∈ b'.2.images, image ∈ acc.images ∨
      ∃ s ∈ b'.1, s.2.parent = some (.image (imageArc image)) := by
  rw [collectSnapshot] at h
  cases hfind : snaps.find? fun snap => snap.name = name with
  | none => simp [hfind] at h
  | some snap =>
      simp only [hfind, bind_eq_ok, pure_eq_ok] at h
      obtain ⟨⟨parent, collected⟩, t, href, rfl, rfl⟩ := h
      intro image hi
      rcases backingRef_images href image hi with hold | hnew
      · rcases hb image hold with hin | ⟨s, hs, hp⟩
        · exact Or.inl hin
        · exact Or.inr ⟨s, List.mem_append_left _ hs, hp⟩
      · exact Or.inr ⟨_, List.mem_append_right _ (List.mem_singleton_self _), hnew⟩

theorem backingRef_quiet (path : Path) :
    Quiet (backingRef host path snaps only acc : Run β (Option ParentRef × Collected)) := by
  refine .bind (info_quiet path) fun inf => ?_
  split
  · exact .pure _
  · split
    · exact .bind (.raiseIf _ _) fun _ => .pure _
    · exact .bind (.raiseIf _ _) fun _ => .pure _

theorem collectSnapshot_quiet (b : List (String × PendingLayer) × Collected) (name : String) :
    Quiet (collectSnapshot host disk snaps only b name) := by
  rw [collectSnapshot]
  split
  · exact .raise _
  · exact .bind (backingRef_quiet _) fun _ => .pure _

theorem collectDisk_images {a a' : List (String × PendingDisk) × Collected}
    (h : collectDisk host store vm snapshot a disk w = (.ok a', w')) :
    w' = w ∧ ∃ d, a'.1 = a.1 ++ [(disk, d)] ∧ ∀ image ∈ a'.2.images, image ∈ a.2.images ∨
      ∃ l ∈ d.outline store vm disk, l.2.2 = some (.image (imageArc image)) := by
  simp only [collectDisk, bind_eq_ok] at h
  obtain ⟨active, t₀, hactive, snaps, t, hsnaps, ⟨only, withActive, current⟩, t', hsel,
    ⟨layers, c⟩, t'', hloop, h⟩ := h
  obtain ⟨-, -, rfl, rfl⟩ := (store.diskPath_eq_ok).mp hactive
  obtain rfl := (snapshotList_quiet vm disk).eq_of_run hsnaps
  obtain rfl := (selectSnapshots_quiet snapshot snaps).eq_of_run hsel
  obtain ⟨rfl, hlayers⟩ := foldEach_quiet_ok (fun _ b => ∀ image ∈ b.2.images, image ∈ a.2.images ∨
      ∃ s ∈ b.1, s.2.parent = some (.image (imageArc image))) hloop
    (fun _ name _ b _ _ _ hI hb =>
      ⟨(collectSnapshot_quiet b name).eq_of_run hb, collectSnapshot_images hI hb⟩)
    fun image hi => Or.inl hi
  have hsnap : ∀ (d : PendingDisk), d.snapshots = layers → ∀ s ∈ layers,
      snapshotOutline store vm disk s ∈ d.outline store vm disk := fun d hd s hs =>
    List.mem_append_right _ (hd ▸ List.mem_map_of_mem hs)
  cases withActive with
  | false =>
      obtain ⟨rfl, rfl⟩ := pure_eq_ok.mp h
      refine ⟨rfl, _, rfl, fun image hi => (hlayers image hi).imp id ?_⟩
      rintro ⟨s, hs, hp⟩
      exact ⟨_, hsnap _ rfl s hs, hp⟩
  | true =>
      simp only [ite_true, bind_eq_ok, pure_eq_ok] at h
      obtain ⟨⟨parent, collected⟩, t, href, rfl, rfl⟩ := h
      refine ⟨(backingRef_quiet _).eq_of_run href, _, rfl, fun image hi => ?_⟩
      rcases backingRef_images href image hi with hold | hnew
      · refine (hlayers image hold).imp id ?_
        rintro ⟨s, hs, hp⟩
        exact ⟨_, hsnap _ rfl s hs, hp⟩
      · exact Or.inr ⟨_, List.mem_append_left _ (List.mem_singleton_self _), hnew⟩

theorem collectDisks_images {a : List (String × PendingDisk) × Collected}
    (h : foldEach diskNames ([], ⟨[], []⟩) (collectDisk host store vm snapshot) w = (.ok a, w')) :
    ∀ image ∈ a.2.images, ∃ d ∈ a.1, ∃ l ∈ d.2.outline store vm d.1,
      l.2.2 = some (.image (imageArc image)) := by
  refine (foldEach_quiet_ok (fun _ a => ∀ image ∈ a.2.images, ∃ d ∈ a.1,
    ∃ l ∈ d.2.outline store vm d.1, l.2.2 = some (.image (imageArc image))) h
    (fun done disk rest b b' t _ hI hb => ?_) fun image hi => absurd hi List.not_mem_nil).2
  obtain ⟨rfl, d, hd, hall⟩ := collectDisk_images hb
  refine ⟨rfl, fun image hi => ?_⟩
  rw [hd]
  rcases hall image hi with hold | hnew
  · obtain ⟨d', hd', hl⟩ := hI image hold
    exact ⟨d', List.mem_append_left _ hd', hl⟩
  · exact ⟨_, List.mem_append_right _ (List.mem_singleton_self _), hnew⟩

-- The config files are recorded in their order.
theorem recordConfigs_files {b : List FileRecord × Collected} {vmRoot : Path} {names : List String}
    (hnodup : names.Nodup)
    (h : foldEach names ([], acc) (recordConfig host vmRoot) w = (.ok b, w')) :
    b.1.map FileRecord.path =
        (names.filter fun n => w.fs.isFile (vmRoot ++ [n])).map configArc ∧
      ∀ n ∈ names, w.fs.isFile (vmRoot ++ [n]) = true →
        getPath b.2.sources (configArc n) = some (vmRoot ++ [n]) := by
  refine (foldEach_quiet_ok (fun done b => b.1.map FileRecord.path =
        (done.filter fun n => w.fs.isFile (vmRoot ++ [n])).map configArc ∧
      ∀ n ∈ done, w.fs.isFile (vmRoot ++ [n]) = true →
        getPath b.2.sources (configArc n) = some (vmRoot ++ [n])) h
    (fun done name rest c c' t has hI hb => ?_) ⟨rfl, fun _ hn => absurd hn List.not_mem_nil⟩).2
  rw [recordConfig, read_bind] at hb
  split at hb
  · rename_i hfile
    simp only [bind_eq_ok, pure_eq_ok] at hb
    obtain ⟨r, t', hr, rfl, rfl⟩ := hb
    obtain ⟨rfl, hpath, -⟩ := fileRecord_ok hr
    refine ⟨rfl, by simp [hI.1, hpath, hfile, configArc], fun n hn hn' => ?_⟩
    refine (getPath_setPath c.2.sources (configArc name) (configArc n) (vmRoot ++ [name])).trans ?_
    rcases List.mem_append.mp hn with hold | hnew
    · rw [if_neg fun he => ?_]
      · exact hI.2 n hold hn'
      · have hkeys : (names.map id).Nodup := by simpa using hnodup
        exact key_ne_of_nodup hkeys has n hold ((String.append_right_inj _).mp he).symm
    · obtain rfl := List.mem_singleton.mp hnew
      exact if_pos rfl
  · rename_i hfile
    obtain ⟨rfl, rfl⟩ := pure_eq_ok.mp hb
    refine ⟨rfl, by simp [hI.1, hfile], fun n hn hn' => ?_⟩
    rcases List.mem_append.mp hn with hold | hnew
    · exact hI.2 n hold hn'
    · obtain rfl := List.mem_singleton.mp hnew
      exact absurd hn' hfile

theorem collectVm_recounts {m : Manifest} {sources : List (String × Path)}
    (h : collectVm host store vm snapshot diskNames w = (.ok (m, sources), w')) :
    m.Recounts store w.fs sources := by
  rw [collectVm, read_bind] at h
  simp only [bind_eq_ok, pure_eq_ok, Prod.mk.injEq] at h
  obtain ⟨⟨disks, c₁⟩, t₁, hdisks, ⟨images, c₂⟩, t₂, himages, ⟨config, c₃⟩, t₃, hconfig,
    entries, t₄, hentries, ⟨rfl, rfl⟩, rfl⟩ := h
  obtain ⟨rfl, hc₁⟩ := foldEach_quiet_ok (fun _ acc => Gathered acc.2) hdisks
    (fun _ _ _ _ _ _ _ hI hb => collectDisk_ok hI hb) gathered_empty
  have hsorted := List.perm_insertionSort (fun a b : String × Path => a.1 ≤ b.1) c₁.images
  have hnodup := (hsorted.map Prod.fst).nodup_iff.mpr hc₁.images
  obtain ⟨rfl, hc₂⟩ := recordImages_ok (sortedPaths c₁.images) hc₁ hsorted.subset hnodup himages
  obtain ⟨rfl, -⟩ := recordConfigs_ok hc₂.gathered hconfig
  have hpaths := recordImages_paths himages
  obtain ⟨hconfigs, hfiles⟩ := recordConfigs_files (FileSystem.children_nodup _ _) hconfig
  have hentry := mapEach_quiet_ok (finishDisk_quiet c₃.sources) hentries
  refine ⟨?_, fun r hr => ?_, hconfigs, fun n hn => ?_⟩
  · have hmap : (sortedPaths c₁.images).map imageArc =
        ((sortedPaths c₁.images).map Prod.fst).map ("images/" ++ ·) := by
      simp [imageArc, Function.comp_def]
    rw [hpaths, hmap]
    exact hnodup.map fun n m he => (String.append_right_inj _).mp he
  · have hr' : r.path ∈ images.map FileRecord.path := List.mem_map_of_mem hr
    rw [hpaths] at hr'
    obtain ⟨image, himage, hpath⟩ := List.mem_map.mp hr'
    obtain ⟨d, hd, o, ho, hparent⟩ := collectDisks_images hdisks image (hsorted.subset himage)
    obtain ⟨e, he, hrun⟩ := forall₂_mem_left hentry hd
    obtain ⟨hname, -, hout⟩ := finishDisk_same hrun
    rw [← hout, ← hname] at ho
    obtain ⟨l, hl, rfl⟩ := List.mem_map.mp ho
    exact ⟨e, he, l, hl, hpath ▸ hparent⟩
  · refine hfiles n ((FileSystem.mem_children _).mpr fun hnone => ?_) hn
    simp [FileSystem.isFile, hnone] at hn

end

end VMForge.Storage
