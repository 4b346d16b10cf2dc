import VMForge.Storage.Store.Steps

namespace VMForge.Storage

open Exec

-- What a call does to the disks and snapshots, as a reader sees it.
noncomputable def Call.act {β : Type} (F : Formats β) (store : DiskStore) (good : Bool)
    (fs' : FileSystem β) : Call → Versions.Act (String × String) String Content
  | .createDisk vm disk _ _ _ | .resizeDisk vm disk _ _ | .importDisk _ vm disk _
  | .cloneDisk _ vm disk _ => .write (vm, disk) ((view F store fs').current (vm, disk))
  | .importImage _ _ _ _ => .idle
  | .deleteDisk vm disk _ => if good then .drop (vm, disk) else .idle
  | .snapshotCreate vm disk name => if good then .save (vm, disk) name else .idle
  | .snapshotRevert vm disk name => if good then .reload (vm, disk) name else .idle
  | .snapshotDelete vm disk name => if good then .forget (vm, disk) name else .idle

section

variable {β : Type} {F : Formats β} {host : Host β} {store : DiskStore} {vm disk : String}
  {w w' : World β}

-- What was written, as a layer.
theorem layerAt_written {f : File β} {path : Path} {fs : FileSystem β}
    (hnode : fs.node path = some (.file f)) (format : String) :
    F.layerAt fs (path, format) = F.decode format f.blob := by
  have hblob : fs.blob path = some f.blob := (FileSystem.blob_eq_some fs).mpr ⟨f.mode, hnode⟩
  simp only [Formats.layerAt, hblob, Option.bind_some]

-- A disk that a command was to make is put on what the command names, or on nothing.
theorem Made.refined (hs : Sound F store w.fs) {c : Command} {good : Bool}
    (h : Made host store c w good w') (htarget : c.target = store.diskFile vm disk)
    (hvm : nameMatches vm = true) (hdisk : nameMatches disk = true)
    (hlayer : ∀ w₁ b l, (host.qemuImg.exec w₁ c).content = some b → F.decode "qcow2" b = some l →
      ∀ r, l.backing = some r → Grounded F store w.fs vm disk r) :
    Refined F store w.fs w'.fs (.write (vm, disk) ((view F store w'.fs).current (vm, disk))) := by
  obtain ⟨w₁, r, hsame, hrun, -⟩ := h.ran
  have hbut : SameBut store (· = store.diskFile vm disk) w.fs w'.fs := by
    rw [← htarget]
    exact hsame.but (runQemuImg_but hrun)
  refine .write hs hbut (fun _ => ⟨hvm, hdisk⟩) fun r hr => ?_
  obtain ⟨l, hl, hlb⟩ := hr
  rcases runQemuImg_wrote hrun with hkept | ⟨-, b, hb, hnode⟩
  · -- nothing was written, and there was nothing
    have hnone : w'.fs.node (store.diskFile vm disk) = none := by
      rw [← htarget, hkept, htarget, hsame _ (.disk vm disk), ← htarget, h.free]
    rw [layerAt_of_none hnone] at hl
    cases hl
  · rw [htarget] at hnode
    rw [activeRef, layerAt_written hnode] at hl
    exact hlayer w₁ b l hb hl r hlb

theorem Made.refined_image (hs : Sound F store w.fs) {c : Command} {good : Bool} {i : String}
    (h : Made host store c w good w') (htarget : c.target = store.imageFile i)
    (hlayer : ∀ w₁ b format l, (host.qemuImg.exec w₁ c).content = some b →
      F.decode format b = some l → l.backing = none) : Refined F store w.fs w'.fs .idle := by
  obtain ⟨w₁, r, hsame, hrun, -⟩ := h.ran
  have hbut : SameBut store (· = store.imageFile i) w.fs w'.fs := by
    rw [← htarget]
    exact hsame.but (runQemuImg_but hrun)
  have hfree : w.fs.node (store.imageFile i) = none := htarget ▸ h.free
  refine (Grows.of_image hbut hfree fun format l hl => ?_).refined_idle hs
    (fun vm disk => layerAt_same (hbut _ (.disk vm disk) diskFile_ne_imageFile))
    fun vm disk n => hbut.snapshot snapshot_ne_image
  rcases runQemuImg_wrote hrun with hkept | ⟨-, b, hb, hnode⟩
  · have hnone : w'.fs.node (store.imageFile i) = none := by
      rw [← htarget, hkept, htarget, hsame _ (.image i), hfree]
    rw [layerAt_of_none hnone] at hl
    cases hl
  · rw [htarget] at hnode
    rw [layerAt_written hnode] at hl
    exact hlayer w₁ b format l hb hl

section

variable (hq : Lawful F host.qemuImg) (hs : Sound F store w.fs)

include hq hs

theorem createDisk_refined {size preallocation : String} {clusterSize : Option String}
    {r : Except PyError Path}
    (h : store.createDisk host vm disk size preallocation clusterSize w = (r, w')) :
    Refined F store w.fs w'.fs (.write (vm, disk) ((view F store w'.fs).current (vm, disk))) := by
  rcases createDisk_cases h with ⟨-, hsame⟩ | ⟨hvm, hdisk, hmade⟩
  · exact .write_of_same hs hsame
  · refine hmade.refined hs rfl hvm hdisk fun w₁ b l hb hl r hr => ?_
    rcases hq.created _ _ _ _ _ _ _ _ hb hl with hnone | hnone
    · rw [hnone] at hr
      cases hr
    · rw [hnone] at hr
      cases hr

theorem importDisk_refined {src : String} {srcFormat : Option String} {r : Except PyError Path}
    (h : store.importDisk host src vm disk srcFormat w = (r, w')) :
    Refined F store w.fs w'.fs (.write (vm, disk) ((view F store w'.fs).current (vm, disk))) := by
  rcases importDisk_cases h with ⟨-, hsame⟩ | ⟨hvm, hdisk, srcPath, hmade⟩
  · exact .write_of_same hs hsame
  · refine hmade.refined hs rfl hvm hdisk fun w₁ b l hb hl r hr => ?_
    rw [hq.converted _ _ _ _ _ _ _ _ hb hl] at hr
    cases hr

theorem importImage_refined {src name : String} {srcFormat : Option String} {compress : Bool}
    {r : Except PyError Path}
    (h : store.importImage host src name srcFormat compress w = (r, w')) :
    Refined F store w.fs w'.fs .idle := by
  rcases importImage_cases h with ⟨-, hsame⟩ | ⟨srcPath, hmade⟩
  · exact .of_same hs hsame
  · exact hmade.refined_image hs rfl fun w₁ b format l hb hl =>
      hq.converted _ _ _ _ _ _ _ _ hb hl

-- A clone of an image.
theorem cloneDisk_refined {base : String} {size : Option String} {r : Except PyError Path}
    (hbase : ∀ p, (store.clonePath host base w).1 = .ok p →
      ∃ i, nameMatches i = true ∧ p = store.imageFile i)
    (h : store.cloneDisk host base vm disk size w = (r, w')) :
    Refined F store w.fs w'.fs (.write (vm, disk) ((view F store w'.fs).current (vm, disk))) := by
  rcases cloneDisk_cases h with ⟨-, hsame⟩ | ⟨hvm, hdisk, basePath, inf, hpath, hinfo, hmade⟩
  · exact .write_of_same hs hsame
  · obtain ⟨i, hi, rfl⟩ := hbase basePath (by rw [hpath])
    obtain ⟨-, b₀, l₀, hb₀, hl₀, hformat, -⟩ := info_ok hq.describes hinfo
    refine hmade.refined hs rfl hvm hdisk fun w₁ b l hb hl r hr => ?_
    rcases hq.created _ _ _ _ _ _ _ _ hb hl with hnone | hbacking
    · rw [hnone] at hr
      cases hr
    · rw [hbacking, Option.map_some, Option.some.injEq] at hr
      refine Or.inr ⟨i, inf.format, ?_, ?_⟩
      · rw [← hr, refOf, imageFile_resolve store hi]
      · rw [← hr, refOf, imageFile_resolve store hi, hformat]
        exact Option.isSome_iff_exists.mpr ⟨l₀, layerAt_eq_some.mpr ⟨b₀, hb₀, hl₀⟩⟩

theorem resizeDisk_refined {newSize : String} {shrink : Bool} {r : Except PyError Unit}
    (h : store.resizeDisk host vm disk newSize shrink w = (r, w')) :
    Refined F store w.fs w'.fs (.write (vm, disk) ((view F store w'.fs).current (vm, disk))) := by
  rw [DiskStore.resizeDisk] at h
  rcases (store.requireDisk_quiet vm disk).bind_cases h with ⟨e, rfl, rfl⟩ | ⟨path, hrun, h⟩
  · exact .write_of_same hs (.refl _)
  obtain ⟨hvm, hdisk, rfl, -, -⟩ := store.requireDisk_eq_ok.mp hrun
  refine .write hs (runQemuImg_but h) (fun _ => ⟨hvm, hdisk⟩) fun r hr => ?_
  rcases runQemuImg_wrote h with hkept | ⟨-, b, hb, hnode⟩
  · exact hs.active vm disk r ((backedBy_congr (layerAt_same hkept)).mp hr)
  · obtain ⟨l', hl', hlb⟩ := hr
    rw [Command.target] at hnode
    rw [activeRef, layerAt_written hnode] at hl'
    obtain ⟨l, hl, hbacking⟩ := hq.resized _ _ _ _ _ _ hb hl'
    exact hs.active vm disk r ⟨l, hl, hbacking.symm.trans hlb⟩

end

section Dropping

variable {fs fs' : FileSystem β} (h : Dropped store vm disk fs fs')

include h

theorem Dropped.other {q : Path} (hspot : Spot store q) (hdisk : q ≠ store.diskFile vm disk)
    (hentry : ∀ m, q ≠ store.snapshotsDir vm disk ++ [m]) : fs'.node q = fs.node q := by
  refine (h q).trans (if_neg ?_)
  rintro (he | hbelow)
  · exact hdisk he
  · obtain ⟨m, hm⟩ := spot_below_snapshots hspot hbelow
    exact hentry m hm

theorem Dropped.disk_gone : fs'.node (store.diskFile vm disk) = none := (h _).trans (if_pos (Or.inl rfl))

theorem Dropped.entry_gone (m : String) : fs'.node (store.snapshotsDir vm disk ++ [m]) = none :=
  (h _).trans (if_pos (Or.inr (List.prefix_append _ _)))

theorem Dropped.disk_other {vm' disk' : String} (hne : (vm', disk') ≠ (vm, disk)) :
    fs'.node (store.diskFile vm' disk') = fs.node (store.diskFile vm' disk') := by
  refine h.other (.disk vm' disk') (fun he => hne ?_) fun m => diskFile_ne_entry
  obtain ⟨rfl, rfl⟩ := diskFile_eq_iff.mp he
  rfl

theorem Dropped.entry_other {vm' disk' : String} (hne : (vm', disk') ≠ (vm, disk)) (m : String) :
    fs'.node (store.snapshotsDir vm' disk' ++ [m]) = fs.node (store.snapshotsDir vm' disk' ++ [m]) := by
  refine h.other (.entry vm' disk' m) (fun he => diskFile_ne_entry he.symm) fun m' he => hne ?_
  obtain ⟨rfl, rfl, -⟩ := entry_eq_iff.mp he
  rfl

theorem Dropped.shrinks (hs : Sound F store fs) : Shrinks F store fs fs' := by
  refine ⟨fun vm' disk' => ?_, fun vm' disk' m => ?_, fun i => ?_, fun vm' disk' n m hn hb => ?_,
    fun vm' disk' m hn hb => ?_⟩
  · by_cases hne : (vm', disk') = (vm, disk)
    · obtain ⟨rfl, rfl⟩ := Prod.mk.inj hne
      exact Or.inr h.disk_gone
    · exact Or.inl (h.disk_other hne)
  · by_cases hne : (vm', disk') = (vm, disk)
    · obtain ⟨rfl, rfl⟩ := Prod.mk.inj hne
      exact Or.inr (h.entry_gone m)
    · exact Or.inl (h.entry_other hne m)
  · exact h.other (.image i) (fun he => diskFile_ne_imageFile he.symm) fun m he => entry_ne_imageFile he.symm
  · by_cases hne : (vm', disk') = (vm, disk)
    · obtain ⟨rfl, rfl⟩ := Prod.mk.inj hne
      exact absurd (h.entry_gone _) hn
    · rw [DiskStore.snapshotFile, h.entry_other hne]
      exact hs.there (hs.backed vm' disk' n _ hb)
  · by_cases hne : (vm', disk') = (vm, disk)
    · obtain ⟨rfl, rfl⟩ := Prod.mk.inj hne
      exact absurd h.disk_gone hn
    · rw [DiskStore.snapshotFile, h.entry_other hne]
      exact hs.there (hs.active vm' disk' _ hb)

end Dropping

theorem deleteDisk_refined (hs : Sound F store w.fs) {force good : Bool} {r : Except PyError Unit}
    (h : store.deleteDisk vm disk force w = (r, w')) (hr : r.isOk = good) :
    Refined F store w.fs w'.fs (if good then .drop (vm, disk) else .idle) := by
  rcases deleteDisk_cases h with ⟨hbad, rfl⟩ | ⟨hok, hdropped⟩
  · rw [hbad] at hr
    rw [← hr, if_neg Bool.false_ne_true]
    exact .of_same hs (.refl _)
  · rw [hok] at hr
    rw [← hr, if_pos rfl]
    have hshrinks := hdropped.shrinks hs
    refine ⟨hshrinks.sound hs, trivial, Versions.eq_drop ?_ (fun n => ?_) (fun d hd => ?_)
      fun d n hd => ?_⟩
    · exact contentAt_of_none (layerAt_of_none hdropped.disk_gone)
    · exact contentAt_of_none (layerAt_of_none (hdropped.entry_gone _))
    · exact hshrinks.current_eq hs (hdropped.disk_other hd)
    · exact hshrinks.saved_eq hs (hdropped.entry_other hd _)

section Freezing

variable {fs fs₂ fs' : FileSystem β} {n : String} {l : Layer ImageRef}

-- The disk becomes a snapshot.
theorem Grows.of_frozen (hs : Sound F store fs)
    (hbut : SameBut store (fun q => q = store.snapshotFile vm disk n ∨ q = store.diskFile vm disk) fs fs₂)
    (hname : nameMatches n = true) (hfree : fs.node (store.snapshotFile vm disk n) = none)
    (hsnap : F.layerAt fs₂ (snapRef store vm disk n) = F.layerAt fs (activeRef store vm disk))
    (hl : F.layerAt fs (activeRef store vm disk) = some l)
    (hgone : fs₂.node (store.diskFile vm disk) = none) : Grows F store fs fs₂ where
  disks := by
    intro vm' disk'
    by_cases he : store.diskFile vm' disk' = store.diskFile vm disk
    · obtain ⟨rfl, rfl⟩ := diskFile_eq_iff.mp he
      refine Or.inr ⟨fun hn => absurd hgone hn, ?_⟩
      rintro r ⟨l', hl', -⟩
      rw [layerAt_of_none (r := activeRef store vm' disk') hgone] at hl'
      cases hl'
    · exact Or.inl (hbut _ (.disk vm' disk') fun hP => hP.elim disk_ne_snapshot he)
  entries := by
    intro vm' disk' m
    by_cases he : store.snapshotsDir vm' disk' ++ [m] = store.snapshotFile vm disk n
    · obtain ⟨rfl, rfl, rfl⟩ := entry_eq_iff.mp he
      refine Or.inr ⟨hfree, n, l, rfl, hname, hsnap.trans hl, fun r hr => ?_⟩
      exact hs.active vm' disk' r ⟨l, hl, hr⟩
    · exact Or.inl (hbut _ (.entry vm' disk' m) fun hP => hP.elim he fun he => diskFile_ne_entry he.symm)
  images := fun i => Or.inl (hbut _ (.image i) fun hP =>
    hP.elim (fun he => snapshot_ne_image he.symm) fun he => diskFile_ne_imageFile he.symm)

-- The disk becomes a snapshot, and an overlay on it that holds nothing the disk.
theorem refined_save (hs : Sound F store fs)
    (hbut : SameBut store (fun q => q = store.snapshotFile vm disk n ∨ q = store.diskFile vm disk) fs fs₂)
    (hvm : nameMatches vm = true) (hdisk : nameMatches disk = true) (hname : nameMatches n = true)
    (hfree : fs.node (store.snapshotFile vm disk n) = none)
    (hsnap : F.layerAt fs₂ (snapRef store vm disk n) = F.layerAt fs (activeRef store vm disk))
    (hgone : fs₂.node (store.diskFile vm disk) = none)
    (hbut' : SameBut store (· = store.diskFile vm disk) fs₂ fs')
    (hl : F.layerAt fs' (activeRef store vm disk) = some l)
    (hback : l.backing = some (snapRef store vm disk n))
    (hhollow : (∀ o, l.data o = none) ∧ (F.layerAt fs₂ (snapRef store vm disk n)).isSome = true ∧
      ∀ c, Resolves (F.layerAt fs₂) (snapRef store vm disk n) c → l.size = c.size) :
    Refined F store fs fs' (.save (vm, disk) n) := by
  obtain ⟨hdata, hsome, hsize⟩ := hhollow
  obtain ⟨l₀, hl₀⟩ := Option.isSome_iff_exists.mp (hsnap ▸ hsome)
  have hgrows := Grows.of_frozen hs hbut hname hfree hsnap hl₀ hgone
  have hs₂ := hgrows.sound hs
  have hthere : fs₂.node (store.snapshotFile vm disk n) ≠ none := node_of_layerAt hsome
  have hgrows' : Grows F store fs₂ fs' := by
    refine .of_disk hbut' (fun _ => ⟨hvm, hdisk⟩) ?_
    rintro r ⟨l', hl', hr⟩
    obtain rfl := Option.some.inj (hl.symm.trans hl')
    obtain rfl := Option.some.inj (hback.symm.trans hr)
    exact .snapshot hthere
  -- what the disk read is what the snapshot reads, and what the overlay on it reads
  obtain ⟨c, hc⟩ := hs.resolves_active hl₀
  have hc₂ : Resolves (F.layerAt fs₂) (snapRef store vm disk n) c :=
    hgrows.reads hs hsnap (hs.active vm disk) hc
  have hc' : Resolves (F.layerAt fs') (activeRef store vm disk) c := by
    rw [← l.onto_eq_of_hollow c hdata (hsize c hc₂)]
    exact .onto hl hback (hgrows'.resolves hs₂ (.snapshot hthere) hc₂)
  have hcurrent : (view F store fs).current (vm, disk) = some c := contentAt_eq_some.mpr hc
  have hsaved : ∀ d m, (view F store fs').saved d m = (view F store fs₂).saved d m := fun d m =>
    hgrows'.saved_eq hs₂ (layerAt_same (hbut'.snapshot fun he => disk_ne_snapshot he.symm))
  refine ⟨hgrows'.sound hs₂, ⟨contentAt_of_none (layerAt_of_none hfree), by simp [hcurrent]⟩,
    Versions.eq_save ?_ ?_ fun d m hne => ?_⟩
  · funext d
    by_cases hd : d = (vm, disk)
    · rw [hd, hcurrent]
      exact contentAt_eq_some.mpr hc'
    · have hne : store.diskFile d.1 d.2 ≠ store.diskFile vm disk := fun he =>
        hd (Prod.ext (diskFile_eq_iff.mp he).1 (diskFile_eq_iff.mp he).2)
      refine (hgrows'.current_eq hs₂ (layerAt_same (hbut' _ (.disk d.1 d.2) hne))).trans ?_
      exact hgrows.current_eq hs (layerAt_same (hbut _ (.disk d.1 d.2) fun hP =>
        hP.elim disk_ne_snapshot hne))
  · rw [hsaved, hcurrent]
    exact contentAt_eq_some.mpr hc₂
  · rw [hsaved]
    refine hgrows.saved_eq hs (layerAt_same (hbut _ (.snapshot store d.1 d.2 m) ?_))
    rintro (he | he)
    · obtain ⟨hvm', hdisk', rfl⟩ := snapshotFile_eq_iff.mp he
      exact hne (Prod.ext (Prod.ext hvm' hdisk') rfl)
    · exact disk_ne_snapshot he.symm

end Freezing

-- Making directories on the way to the snapshots changes no spot.
theorem mkdirs_snapshots_same {r : Except PyError Unit}
    (h : mkdirs (store.snapshotsDir vm disk) w = (r, w')) : Same store w.fs w'.fs :=
  mkdirs_same (fun _ hq => not_spot_above_snapshots hq) h

theorem snapshotCreate_refined (hq : Lawful F host.qemuImg) (hs : Sound F store w.fs) {n : String}
    {good : Bool} {r : Except PyError Snapshot}
    (h : store.snapshotCreate host vm disk n w = (r, w')) (hr : r.isOk = good) :
    Refined F store w.fs w'.fs (if good then .save (vm, disk) n else .idle) := by
  cases snapshotCreate_end h with
  | refused =>
      rw [← hr]
      exact .of_same hs (.refl _)
  | stopped hmk =>
      rw [← hr]
      exact .of_same hs (mkdirs_snapshots_same hmk)
  | @rolledBack e f w₁ w₂ w₃ _ hmk hactive hfree hfrozen hcreate hnode =>
      rw [← hr]
      have hsame := mkdirs_snapshots_same hmk
      have hbut : SameBut store (· = store.diskFile vm disk) w.fs w'.fs := fun q hq hne => by
        rw [hnode, if_neg hne, hsame q hq]
      -- the disk is back, with other permissions
      have hlayer : F.layerAt w'.fs (activeRef store vm disk) =
          F.layerAt w.fs (activeRef store vm disk) := by
        have hnode' := hnode (store.diskFile vm disk)
        rw [if_pos rfl] at hnode'
        rw [activeRef, layerAt_written hnode', layerAt_written hactive]
      refine (Grows.of_disk hbut (fun _ => hs.disks vm disk (by simp [hactive])) fun r hr =>
        hs.active vm disk r ((backedBy_congr hlayer).mp hr)).refined_idle hs (fun vm' disk' => ?_)
        fun vm' disk' m => hbut.snapshot fun he => disk_ne_snapshot he.symm
      by_cases he : store.diskFile vm' disk' = store.diskFile vm disk
      · obtain ⟨rfl, rfl⟩ := diskFile_eq_iff.mp he
        exact hlayer
      · exact layerAt_same (hbut _ (.disk vm' disk') he)
  | @taken f inf w₁ w₂ _ _ hvm hdisk hname hmk hactive hfree hinfo hfrozen hcreate =>
      rw [← hr]
      have hsame := mkdirs_snapshots_same hmk
      have hne := diskFile_ne_snapshotFile store vm disk disk n
      obtain ⟨b, l, hnode, hl, hbacking, hover, hother⟩ := createQcow2_ok hq.creates hcreate
      have hback : l.backing = some (snapRef store vm disk n) := by
        rw [hbacking, Option.map_some, refOf, snapshotFile_resolve hvm hdisk hname]
        rfl
      obtain ⟨hdata, hsome, hsize⟩ := hover _ hback
      have hsnap : w₂.fs.node (store.snapshotFile vm disk n) = some (.file ⟨f.blob, 0o444⟩) := by
        rw [hfrozen, if_pos rfl]
      refine @refined_save _ F store vm disk w.fs w₂.fs w'.fs n l hs (fun q hq hP => ?_) hvm hdisk hname
        hfree ?_ ?_ (fun q _ hne => hother q hne) ?_ hback ⟨hdata, hsome, hsize rfl⟩
      · rw [not_or] at hP
        rw [hfrozen, if_neg hP.1, if_neg hP.2, hsame q hq]
      · rw [snapRef, activeRef, layerAt_written hsnap, layerAt_written hactive]
      · rw [hfrozen, if_neg hne, if_pos rfl]
      · rw [activeRef, layerAt_written hnode, hl]

section Reverting

variable {n : String}

-- How a call of `snapshot_revert` ends: with every layer as it was, or with a new overlay in the
-- place of the disk.
theorem snapshotRevert_cases (hq : Lawful F host.qemuImg) (hs : Sound F store w.fs)
    {r : Except PyError Unit} (h : store.snapshotRevert host vm disk n w = (r, w')) :
    r.isOk = false ∧ Same store w.fs w'.fs ∨
      r.isOk = true ∧ nameMatches vm = true ∧ nameMatches disk = true ∧
        SameBut store (· = store.diskFile vm disk) w.fs w'.fs ∧
        ∃ l, F.layerAt w'.fs (activeRef store vm disk) = some l ∧
          l.backing = some (snapRef store vm disk n) ∧ (∀ o, l.data o = none) ∧
          (F.layerAt w.fs (snapRef store vm disk n)).isSome = true ∧
          ∀ c, Resolves (F.layerAt w.fs) (snapRef store vm disk n) c → l.size = c.size := by
  rw [DiskStore.snapshotRevert] at h
  rcases (store.requireDisk_quiet vm disk).bind_cases h with ⟨e, rfl, rfl⟩ | ⟨active, hrun, h⟩
  · exact Or.inl ⟨rfl, .refl _⟩
  obtain ⟨hvm, hdisk, rfl, -, -⟩ := store.requireDisk_eq_ok.mp hrun
  rcases (getSnapshot_quiet n).bind_cases h with ⟨e, rfl, rfl⟩ | ⟨snap, hget, hdo⟩
  · exact Or.inl ⟨rfl, .refl _⟩
  obtain ⟨snaps, hlist, hmem, rfl⟩ := getSnapshot_ok hget
  obtain ⟨-, hlisted⟩ := snapshotList_listed hq.describes (hs.tidy vm disk) hlist
  obtain ⟨hname, hpath, -⟩ := hlisted.sound snap hmem
  rw [hpath] at hdo
  have hspot : ¬Spot store (DiskStore.revertingPath (store.diskFile vm disk)) :=
    not_spot_reverting vm disk
  rcases hcreate : createQcow2 host (DiskStore.revertingPath (store.diskFile vm disk)) none
      (some (store.snapshotFile vm disk snap.name, "qcow2")) "off" none w with ⟨e | _, w₁⟩
  · rw [bind_of_error hcreate] at hdo
    obtain ⟨rfl, rfl⟩ := Prod.mk.inj hdo
    exact Or.inl ⟨rfl, fun q hq => createQcow2_other hcreate fun he => hspot (he ▸ hq)⟩
  have hsame : Same store w.fs w₁.fs := fun q hq => createQcow2_other hcreate fun he => hspot (he ▸ hq)
  rw [bind_of_ok hcreate] at hdo
  rcases r with e | _
  · rw [rename_error hdo]
    exact Or.inl ⟨rfl, hsame⟩
  obtain ⟨b, l, hnode, hl, hbacking, hover, -⟩ := createQcow2_ok hq.creates hcreate
  have hback : l.backing = some (snapRef store vm disk snap.name) := by
    rw [hbacking, Option.map_some, refOf, snapshotFile_resolve hvm hdisk hname]
    rfl
  obtain ⟨hdata, hsome, hsize⟩ := hover _ hback
  obtain ⟨f, hf, -, -, hmoved⟩ := rename_ok hdo
  obtain rfl := Node.file.inj (Option.some.inj (hnode.symm.trans hf))
  have hactive := hmoved (store.diskFile vm disk)
  rw [if_pos rfl] at hactive
  refine Or.inr ⟨rfl, hvm, hdisk, fun q hq hne => ?_, l, ?_, hback, hdata, hsome, hsize rfl⟩
  · have htmp : q ≠ DiskStore.revertingPath (store.diskFile vm disk) := fun he => hspot (he ▸ hq)
    rw [hmoved, if_neg hne, if_neg htmp, hsame q hq]
  · rw [activeRef, layerAt_written hactive, hl]

theorem snapshotRevert_refined (hq : Lawful F host.qemuImg) (hs : Sound F store w.fs) {good : Bool}
    {r : Except PyError Unit} (h : store.snapshotRevert host vm disk n w = (r, w'))
    (hr : r.isOk = good) :
    Refined F store w.fs w'.fs (if good then .reload (vm, disk) n else .idle) := by
  rcases snapshotRevert_cases hq hs h with ⟨hbad, hsame⟩ |
    ⟨hok, hvm, hdisk, hbut, l, hl, hback, hdata, hsome, hsize⟩
  · rw [hbad] at hr
    rw [← hr, if_neg Bool.false_ne_true]
    exact .of_same hs hsame
  rw [hok] at hr
  rw [← hr, if_pos rfl]
  have hthere : w.fs.node (store.snapshotFile vm disk n) ≠ none := node_of_layerAt hsome
  have hgrows : Grows F store w.fs w'.fs := by
    refine .of_disk hbut (fun _ => ⟨hvm, hdisk⟩) ?_
    rintro r ⟨l', hl', hr⟩
    obtain rfl := Option.some.inj (hl.symm.trans hl')
    obtain rfl := Option.some.inj (hback.symm.trans hr)
    exact .snapshot hthere
  obtain ⟨c, hc⟩ := hs.snapshots vm disk n hthere
  have hsaved : (view F store w.fs).saved (vm, disk) n = some c := contentAt_eq_some.mpr hc
  have hc' : Resolves (F.layerAt w'.fs) (activeRef store vm disk) c := by
    rw [← l.onto_eq_of_hollow c hdata (hsize c hc)]
    exact .onto hl hback (hgrows.resolves hs (.snapshot hthere) hc)
  refine ⟨hgrows.sound hs, by simp [Versions.Act.Enabled, hsaved], Versions.eq_reload ?_
    (fun d hd => ?_) (hgrows.saved_same hs fun vm' disk' m => hbut.snapshot fun he => disk_ne_snapshot he.symm)⟩
  · rw [hsaved]
    exact contentAt_eq_some.mpr hc'
  · refine hgrows.current_eq hs (layerAt_same (hbut _ (.disk d.1 d.2) fun he => hd ?_))
    exact Prod.ext (diskFile_eq_iff.mp he).1 (diskFile_eq_iff.mp he).2

end Reverting

section Deleting

variable {snaps : List Snapshot} {snap : Snapshot} {n p c : String} {fs fs' : FileSystem β}

-- What a layer is put on, when it lies in the directory of the snapshots.
theorem Sound.named_in (hs : Sound F store fs) {r : ImageRef} (hr : Grounded F store fs vm disk r)
    (hin : DiskStore.nameIn (store.snapshotsDir vm disk) r.1 = some p) :
    nameMatches p = true ∧ r = snapRef store vm disk p := by
  rcases hr with ⟨m, rfl, hm⟩ | ⟨i, format, rfl, -⟩
  · obtain ⟨m', hm', hname⟩ := hs.named vm disk (m ++ ".qcow2") hm
    obtain rfl := append_qcow2_inj hname
    have hfile : DiskStore.nameIn (store.snapshotsDir vm disk) (store.snapshotFile vm disk m) = some m :=
      nameIn_snapshotFile (nameMatches_ne_empty hm')
    obtain rfl := Option.some.inj (hfile.symm.trans hin)
    exact ⟨hm', rfl⟩
  · -- an image lies in no directory of snapshots
    unfold DiskStore.nameIn at hin
    split at hin
    · rename_i hdir
      have hlen := congrArg List.length hdir.1
      simp [DiskStore.imageFile, DiskStore.imagesDir, DiskStore.snapshotsDir, DiskStore.vmRoot,
        DiskStore.vmsDir] at hlen
    · cases hin

-- A listed parent is what the snapshot is put on.
theorem Sound.backed_of_parent (hs : Sound F store fs) (hlisted : Listed F store fs vm disk snaps)
    (hsnap : snap ∈ snaps) (hparent : snap.parent = some p) : nameMatches p = true ∧
      BackedBy (F.layerAt fs) (snapRef store vm disk snap.name) (snapRef store vm disk p) := by
  obtain ⟨-, -, l, hl, hbacking, -⟩ := hlisted.sound snap hsnap
  rw [hbacking, Option.bind_eq_some_iff] at hparent
  obtain ⟨r, hr, hin⟩ := hparent
  obtain ⟨hp, rfl⟩ := hs.named_in (hs.backed vm disk snap.name r ⟨l, hl, hr⟩) hin
  exact ⟨hp, l, hl, hr⟩

theorem Sound.backed_of_child (hs : Sound F store fs) (hlisted : Listed F store fs vm disk snaps)
    (hsnap : snap ∈ snaps) (hc : c ∈ snap.children) :
    BackedBy (F.layerAt fs) (snapRef store vm disk c) (snapRef store vm disk snap.name) := by
  obtain ⟨child, hmem, rfl, hparent⟩ :=
    (parentOf_eq_some hlisted.nodup).mp ((hlisted.mem_children hsnap).mp hc)
  exact (hs.backed_of_parent hlisted hmem hparent).2

-- What is put on a listed snapshot is one of its children.
theorem Listed.child_of_backed (hlisted : Listed F store fs vm disk snaps) (hsnap : snap ∈ snaps)
    (hb : BackedBy (F.layerAt fs) (snapRef store vm disk c) (snapRef store vm disk snap.name)) :
    c ∈ snap.children := by
  obtain ⟨l, hl, hback⟩ := hb
  have hthere : fs.node (store.snapshotFile vm disk c) ≠ none :=
    node_of_layerAt (r := snapRef store vm disk c) (Option.isSome_iff_exists.mpr ⟨l, hl⟩)
  obtain ⟨child, hmem, rfl⟩ := hlisted.complete c hthere
  obtain ⟨-, -, l', hl', hparent, -⟩ := hlisted.sound child hmem
  obtain rfl := Option.some.inj (hl.symm.trans hl')
  refine (hlisted.mem_children hsnap).mpr ((parentOf_eq_some hlisted.nodup).mpr ⟨child, hmem, rfl, ?_⟩)
  rw [hparent, hback]
  exact nameIn_snapshotFile (nameMatches_ne_empty (hlisted.sound snap hsnap).1)

theorem Listed.current_of_backed (hlisted : Listed F store fs vm disk snaps) (hsnap : snap ∈ snaps)
    (hb : BackedBy (F.layerAt fs) (activeRef store vm disk) (snapRef store vm disk snap.name)) :
    snap.current = true := by
  obtain ⟨l, hl, hback⟩ := hb
  rw [hlisted.current l hl snap hsnap, hback]
  exact nameIn_snapshotFile (nameMatches_ne_empty (hlisted.sound snap hsnap).1)

-- A snapshot that nothing is put on goes.
theorem refined_forget (hs : Sound F store fs)
    (hbut : SameBut store (· = store.snapshotFile vm disk n) fs fs')
    (hgone : fs'.node (store.snapshotFile vm disk n) = none)
    (hfree : ∀ m, m ≠ n →
      ¬BackedBy (F.layerAt fs) (snapRef store vm disk m) (snapRef store vm disk n))
    (hactive : ¬BackedBy (F.layerAt fs) (activeRef store vm disk) (snapRef store vm disk n)) :
    Refined F store fs fs' (.forget (vm, disk) n) := by
  have hdisk : ∀ vm' disk', fs'.node (store.diskFile vm' disk') = fs.node (store.diskFile vm' disk') :=
    fun vm' disk' => hbut _ (.disk vm' disk') disk_ne_snapshot
  -- what a layer of a disk is put on is still there
  have hkept : ∀ vm' disk' m, (store.snapshotFile vm' disk' m ≠ store.snapshotFile vm disk n) →
      Grounded F store fs vm' disk' (snapRef store vm' disk' m) →
      fs'.node (store.snapshotFile vm' disk' m) ≠ none := fun vm' disk' m hne hg => by
    rw [hbut.snapshot hne]
    exact hs.there hg
  have hshrinks : Shrinks F store fs fs' := by
    refine ⟨fun vm' disk' => Or.inl (hdisk vm' disk'), fun vm' disk' m => ?_, fun i => ?_,
      fun vm' disk' k m hk hb => ?_, fun vm' disk' m _ hb => ?_⟩
    · by_cases he : store.snapshotsDir vm' disk' ++ [m] = store.snapshotFile vm disk n
      · exact Or.inr (he ▸ hgone)
      · exact Or.inl (hbut _ (.entry vm' disk' m) he)
    · exact hbut _ (.image i) fun he => snapshot_ne_image he.symm
    · by_cases he : store.snapshotFile vm' disk' m = store.snapshotFile vm disk n
      · obtain ⟨rfl, rfl, rfl⟩ := snapshotFile_eq_iff.mp he
        refine absurd hb (hfree k ?_)
        rintro rfl
        exact hk hgone
      · exact hkept vm' disk' m he (hs.backed vm' disk' k _ hb)
    · by_cases he : store.snapshotFile vm' disk' m = store.snapshotFile vm disk n
      · obtain ⟨rfl, rfl, rfl⟩ := snapshotFile_eq_iff.mp he
        exact absurd hb hactive
      · exact hkept vm' disk' m he (hs.active vm' disk' _ hb)
  refine ⟨hshrinks.sound hs, trivial, Versions.eq_forget ?_ ?_ fun d m hne => ?_⟩
  · funext d
    exact hshrinks.current_eq hs (hdisk d.1 d.2)
  · exact contentAt_of_none (layerAt_of_none (r := snapRef store vm disk n) hgone)
  · refine hshrinks.saved_eq hs (hbut.snapshot fun he => hne ?_)
    obtain ⟨hvm, hdisk', rfl⟩ := snapshotFile_eq_iff.mp he
    exact Prod.ext (Prod.ext hvm hdisk') rfl

-- A file that is there can be removed.
theorem discard_returns {path : Path} {f : File β} {r : Except PyError Unit}
    (hf : w.fs.node path = some (.file f))
    (h : (chmod path 0o644 >>= fun _ => unlink path) w = (r, w')) :
    r.isOk = true ∧ w'.fs.node path = none ∧ ∀ q, q ≠ path → w'.fs.node q = w.fs.node q := by
  obtain ⟨w₁, hthaw⟩ := chmod_returns (p := path) 0o644 (w := w) (by simp [hf])
  obtain ⟨-, hfile, -, hother⟩ := chmod_ok hthaw
  obtain ⟨w₂, hunlink⟩ := unlink_returns (hfile f hf)
  rw [bind_of_ok hthaw, hunlink] at h
  obtain ⟨rfl, rfl⟩ := Prod.mk.inj h
  obtain ⟨-, hnode⟩ := unlink_ok hunlink
  refine ⟨rfl, by rw [hnode, if_pos rfl], fun q hq => ?_⟩
  rw [hnode, if_neg hq, hother q hq]

theorem Sound.snapshot_file (hs : Sound F store fs)
    (hn : fs.node (store.snapshotFile vm disk n) ≠ none) :
    ∃ f, fs.node (store.snapshotFile vm disk n) = some (.file f) :=
  (FileSystem.isFile_iff fs).mp (hs.isFile_of_grounded (.snapshot hn))

-- A child is put on what its parent is put on, or stays as it is.
theorem Rebased.of_rebase (hq : Lawful F host.qemuImg) (hs : Sound F store w.fs)
    (hlisted : Listed F store w.fs vm disk snaps) (hsnap : snap ∈ snaps) (hc : c ∈ snap.children)
    (hvm : nameMatches vm = true) (hdisk : nameMatches disk = true) {w₁ : World β}
    {r : Except PyError Unit}
    (hthaw : chmod (store.snapshotFile vm disk c) 0o644 w = (.ok (), w₁))
    (hrebase : rebase host (store.snapshotFile vm disk c)
      (snap.parent.map (store.snapshotFile vm disk)) false w₁ = (r, w')) :
    Rebased F store vm disk c w.fs w'.fs := by
  have hbacked := hs.backed_of_child hlisted hsnap hc
  obtain ⟨l, hl, hback⟩ := hbacked
  obtain ⟨-, -, -, hother⟩ := chmod_ok hthaw
  have hlayers : F.layerAt w₁.fs = F.layerAt w.fs := by
    funext r
    exact layerAt_congr (chmod_blob hthaw r.1)
  refine ⟨fun q _ hne => (rebase_other hrebase hne).trans (hother q hne),
    node_of_layerAt (r := snapRef store vm disk c) (Option.isSome_iff_exists.mpr ⟨l, hl⟩), ?_⟩
  rcases runQemuImg_wrote hrebase with hkept | ⟨-, b, hb, hnode⟩
  · rw [Command.target] at hkept
    have hl' : F.layerAt w'.fs (snapRef store vm disk c) = some l := by
      rw [show F.layerAt w'.fs (snapRef store vm disk c) =
        F.layerAt w₁.fs (snapRef store vm disk c) from layerAt_same hkept, hlayers, hl]
    refine ⟨l, hl', fun r hr => .single ⟨l, hl, hr⟩, fun content hres => hres.onto_eq hl⟩
  · rw [Command.target] at hnode
    obtain ⟨l₀, l', hl₀, hl', hback', hreads⟩ := hq.rebased _ _ _ _ hb
    rw [hlayers] at hl₀ hreads
    obtain rfl := Option.some.inj (hl.symm.trans hl₀)
    have hwritten : F.layerAt w'.fs (snapRef store vm disk c) = some l' := by
      rw [snapRef, layerAt_written hnode, hl']
    refine ⟨l', hwritten, fun r hr => ?_, hreads⟩
    rcases hback' with hold | hnew
    · exact .single ⟨l, hl, hold.symm.trans hr⟩
    · rw [hnew] at hr
      cases hparent : snap.parent with
      | none =>
          rw [hparent] at hr
          cases hr
      | some p =>
          obtain ⟨hp, hup⟩ := hs.backed_of_parent hlisted hsnap hparent
          rw [hparent] at hr
          obtain rfl := Option.some.inj hr
          rw [refOf, snapshotFile_resolve hvm hdisk hp]
          exact .head ⟨l, hl, hback⟩ (.single hup)

-- Permissions are not seen by a reader.
theorem Rebased.chmod {w₂ w₃ : World β} {mode : Nat} (h : Rebased F store vm disk c w.fs w₂.fs)
    (hchmod : Storage.chmod (store.snapshotFile vm disk c) mode w₂ = (.ok (), w₃)) :
    Rebased F store vm disk c w.fs w₃.fs := by
  obtain ⟨-, -, -, hother⟩ := chmod_ok hchmod
  obtain ⟨l, hl, hlayer⟩ := h.layer
  refine ⟨fun q hq hne => (hother q hne).trans (h.same q hq hne), h.there, l, ?_, hlayer⟩
  rw [layerAt_congr (chmod_blob hchmod _), hl]

-- What `_get_snapshot` gives is listed.
theorem getSnapshot_listed (hq : Describes F host.qemuImg) (hs : Sound F store w.fs)
    (h : store.getSnapshot host vm disk n w = (.ok snap, w)) :
    ∃ snaps, store.snapshotList host vm disk w = (.ok snaps, w) ∧ Listed F store w.fs vm disk snaps ∧
      snap ∈ snaps ∧ snap.name = n ∧ nameMatches vm = true ∧ nameMatches disk = true := by
  obtain ⟨snaps, hlist, hmem, hname⟩ := getSnapshot_ok h
  obtain ⟨hvm, hdisk, -⟩ := snapshotList_ok hlist
  exact ⟨snaps, hlist, (snapshotList_listed hq (hs.tidy vm disk) hlist).2, hmem, hname, hvm, hdisk⟩

-- A snapshot that is on another one is not that one.
theorem Sound.ne_of_backed (hs : Sound F store fs)
    (hb : BackedBy (F.layerAt fs) (snapRef store vm disk c) (snapRef store vm disk n)) : c ≠ n := by
  rintro rfl
  obtain ⟨l, hl, -⟩ := id hb
  have hthere : fs.node (store.snapshotFile vm disk c) ≠ none :=
    node_of_layerAt (r := snapRef store vm disk c) (Option.isSome_iff_exists.mpr ⟨l, hl⟩)
  obtain ⟨content, hres⟩ := hs.snapshots vm disk c hthere
  exact hres.acyclic (.single hb)

theorem snapshotDelete_refined (hq : Lawful F host.qemuImg) (hs : Sound F store w.fs) {good : Bool}
    {r : Except PyError Unit} (h : store.snapshotDelete host vm disk n w = (r, w'))
    (hr : r.isOk = good) :
    Refined F store w.fs w'.fs (if good then .forget (vm, disk) n else .idle) := by
  cases snapshotDelete_end h with
  | refused =>
      rw [← hr]
      exact .of_same hs (.refl _)
  | @unrebased e snap c child grandparent w₁ _ hget hcurrent hchildren hchild hparent hthaw hrebase =>
      rw [← hr]
      obtain ⟨snaps, hlist, hlisted, hsnap, rfl, hvm, hdisk⟩ := getSnapshot_listed hq.describes hs hget
      obtain ⟨snaps', hlist', -, hmem, rfl, -, -⟩ := getSnapshot_listed hq.describes hs hchild
      obtain rfl := Except.ok.inj (Prod.mk.inj (hlist.symm.trans hlist')).1
      obtain ⟨-, rfl⟩ := parentPath_ok hq.describes (hs.tidy vm disk) (fun he =>
        nameMatches_ne_empty (hs.backed_of_parent hlisted hsnap he).1 rfl) hparent
      rw [(hlisted.sound child hmem).2.1] at hthaw hrebase
      have hrebased := Rebased.of_rebase hq hs hlisted hsnap (hchildren ▸ List.mem_cons_self) hvm hdisk
        hthaw hrebase
      exact ⟨hrebased.sound hs, trivial, hrebased.view_eq hs⟩
  | @leaf _ snap _ hget hcurrent hchildren hdiscard =>
      obtain ⟨snaps, -, hlisted, hsnap, rfl, -, -⟩ := getSnapshot_listed hq.describes hs hget
      obtain ⟨-, hpath, l, hl, -⟩ := hlisted.sound snap hsnap
      rw [hpath] at hdiscard
      obtain ⟨f, hf⟩ := hs.snapshot_file (node_of_layerAt (r := snapRef store vm disk snap.name)
        (Option.isSome_iff_exists.mpr ⟨l, hl⟩))
      obtain ⟨hok, hgone, hother⟩ := discard_returns hf hdiscard
      rw [hok] at hr
      rw [← hr, if_pos rfl]
      refine refined_forget hs (fun q _ hne => hother q hne) hgone (fun m _ hb => ?_) fun hb => ?_
      · have hmem := hlisted.child_of_backed hsnap hb
        rw [hchildren] at hmem
        cases hmem
      · rw [hlisted.current_of_backed hsnap hb] at hcurrent
        cases hcurrent
  | @squashed _ snap c child grandparent w₁ w₂ w₃ _ hget hcurrent hchildren hchild hparent hthaw
      hrebase hfreeze hdiscard =>
      obtain ⟨snaps, hlist, hlisted, hsnap, rfl, hvm, hdisk⟩ := getSnapshot_listed hq.describes hs hget
      obtain ⟨snaps', hlist', -, hmem, rfl, -, -⟩ := getSnapshot_listed hq.describes hs hchild
      obtain rfl := Except.ok.inj (Prod.mk.inj (hlist.symm.trans hlist')).1
      obtain ⟨-, rfl⟩ := parentPath_ok hq.describes (hs.tidy vm disk) (fun he =>
        nameMatches_ne_empty (hs.backed_of_parent hlisted hsnap he).1 rfl) hparent
      obtain ⟨-, hpath, l, hl, -⟩ := hlisted.sound snap hsnap
      rw [(hlisted.sound child hmem).2.1] at hthaw hrebase hfreeze
      rw [hpath] at hdiscard
      have hchild := hs.backed_of_child hlisted hsnap (c := child.name) (hchildren ▸ List.mem_cons_self)
      have hne := hs.ne_of_backed hchild
      have hrebased := Rebased.of_rebase hq hs hlisted hsnap (hchildren ▸ List.mem_cons_self) hvm hdisk
        hthaw hrebase
      have hrebased₃ := hrebased.chmod hfreeze
      have hs₃ := hrebased₃.sound hs
      have hthere : w₃.fs.node (store.snapshotFile vm disk snap.name) ≠ none :=
        (hrebased₃.there_iff _).mpr (node_of_layerAt (r := snapRef store vm disk snap.name)
          (Option.isSome_iff_exists.mpr ⟨l, hl⟩))
      obtain ⟨f, hf⟩ := hs₃.snapshot_file hthere
      obtain ⟨hok, hgone, hother⟩ := discard_returns hf hdiscard
      rw [hok] at hr
      rw [← hr, if_pos rfl]
      have hlast := refined_forget hs₃ (fun q _ hne => hother q hne) hgone (fun m _ hb => ?_) fun hb => ?_
      · exact ⟨hlast.sound, trivial, by rw [hlast.view_eq, hrebased₃.view_eq hs]⟩
      · by_cases hm : m = child.name
        · -- the child is on what the snapshot was on
          subst hm
          obtain ⟨b, l', hnode, hl', hback, -⟩ := rebase_ok hq.rebases hrebase
          obtain ⟨-, hfile, -, -⟩ := chmod_ok hfreeze
          obtain ⟨l'', hl'', hlb⟩ := hb
          rw [snapRef, layerAt_written (hfile _ hnode), hl'] at hl''
          obtain rfl := Option.some.inj hl''
          rw [hback] at hlb
          cases hparent' : snap.parent with
          | none =>
              rw [hparent'] at hlb
              cases hlb
          | some p =>
              obtain ⟨hp, hup⟩ := hs.backed_of_parent hlisted hsnap hparent'
              rw [hparent', Option.map_some, Option.map_some, snapshotFile_resolve hvm hdisk hp,
                Option.some.injEq, Prod.mk.injEq] at hlb
              exact hs.ne_of_backed hup (snapshotFile_inj hlb.1).symm
        · have hsame : F.layerAt w₃.fs (snapRef store vm disk m) = F.layerAt w.fs (snapRef store vm disk m) :=
            layerAt_same (hrebased₃.same _ (.snapshot store vm disk m) fun he => hm (snapshotFile_inj he))
          have hmem := hlisted.child_of_backed hsnap ((backedBy_congr hsame).mp hb)
          rw [hchildren, List.mem_singleton] at hmem
          exact hm hmem
      · have hsame : F.layerAt w₃.fs (activeRef store vm disk) = F.layerAt w.fs (activeRef store vm disk) :=
          layerAt_same (hrebased₃.disk_node vm disk)
        rw [hlisted.current_of_backed hsnap ((backedBy_congr hsame).mp hb)] at hcurrent
        cases hcurrent

end Deleting

end

end VMForge.Storage
