import VMForge.Storage.Store.Changes
import VMForge.Storage.Store.Clones
import VMForge.Storage.Store.Contraction

namespace VMForge.Storage

open Exec

-- What the store relies on in qemu-img. A command that fails may leave a part of its file, but
-- puts it on nothing that it was not told to put it on, and a rebase loses nothing.
structure Lawful {β : Type} (F : Formats β) (q : QemuImg β) : Prop where
  creates : Creates F q
  describes : Describes F q
  rebases : Rebases F q
  created : ∀ w path size backing preallocation clusterSize b l,
    (q.exec w (.create path size backing preallocation clusterSize)).content = some b →
      F.decode "qcow2" b = some l → l.backing = none ∨ l.backing = backing.map refOf
  converted : ∀ w src dst srcFormat compress b format l,
    (q.exec w (.convert src dst srcFormat "qcow2" compress)).content = some b →
      F.decode format b = some l → l.backing = none
  convertedWhole : ∀ w src dst srcFormat compress,
    (q.exec w (.convert src dst srcFormat "qcow2" compress)).failure = none →
      ∃ b, (q.exec w (.convert src dst srcFormat "qcow2" compress)).content = some b ∧
        (F.decode "qcow2" b).isSome = true
  resized : ∀ w path newSize shrink b l',
    (q.exec w (.resize path newSize shrink)).content = some b → F.decode "qcow2" b = some l' →
      ∃ l, F.layerAt w.fs (path, "qcow2") = some l ∧ l'.backing = l.backing
  resizedWhole : ∀ w path newSize shrink b, (q.exec w (.resize path newSize shrink)).failure = none →
    (q.exec w (.resize path newSize shrink)).content = some b → (F.decode "qcow2" b).isSome = true
  rebased : ∀ w path backing b, (q.exec w (.rebase path backing false)).content = some b →
    ∃ l l', F.layerAt w.fs (path, "qcow2") = some l ∧ F.decode "qcow2" b = some l' ∧
      (l'.backing = l.backing ∨ l'.backing = backing.map refOf) ∧
      ∀ c, Resolves (F.layerAt w.fs) (path, "qcow2") c →
        (l'.backing = none → l'.onto .empty = c) ∧
          ∀ r below, l'.backing = some r → Resolves (F.layerAt w.fs) r below → l'.onto below = c

-- Seen from a reader, the files have taken one step.
structure Refined {β : Type} (F : Formats β) (store : DiskStore) (fs fs' : FileSystem β)
    (a : Versions.Act (String × String) String Content) : Prop where
  sound : Sound F store fs'
  enabled : a.Enabled (view F store fs)
  view_eq : view F store fs' = a.apply (view F store fs)

section

variable {β : Type} {F : Formats β} {store : DiskStore} {fs fs' : FileSystem β} {vm disk n : String}

-- Only one disk is written, and put on what there is.
theorem Grows.of_disk (hsame : SameBut store (· = store.diskFile vm disk) fs fs')
    (hvalid : fs'.node (store.diskFile vm disk) ≠ none → nameMatches vm = true ∧ nameMatches disk = true)
    (hback : ∀ r, BackedBy (F.layerAt fs') (activeRef store vm disk) r →
      Grounded F store fs vm disk r) : Grows F store fs fs' where
  disks := by
    intro vm' disk'
    by_cases he : store.diskFile vm' disk' = store.diskFile vm disk
    · obtain ⟨rfl, rfl⟩ := diskFile_eq_iff.mp he
      exact Or.inr ⟨hvalid, hback⟩
    · exact Or.inl (hsame _ (.disk vm' disk') he)
  entries := fun vm' disk' m => Or.inl (hsame _ (.entry vm' disk' m) fun he => diskFile_ne_entry he.symm)
  images := fun i => Or.inl (hsame _ (.image i) fun he => diskFile_ne_imageFile he.symm)

theorem Grows.of_image {i : String} (hsame : SameBut store (· = store.imageFile i) fs fs')
    (hfree : fs.node (store.imageFile i) = none)
    (hflat : ∀ format l, F.layerAt fs' (store.imageFile i, format) = some l → l.backing = none) :
    Grows F store fs fs' where
  disks := fun vm' disk' => Or.inl (hsame _ (.disk vm' disk') diskFile_ne_imageFile)
  entries := fun vm' disk' m => Or.inl (hsame _ (.entry vm' disk' m) entry_ne_imageFile)
  images := by
    intro i'
    by_cases he : store.imageFile i' = store.imageFile i
    · obtain rfl := imageFile_eq_iff.mp he
      exact Or.inr ⟨hfree, hflat⟩
    · exact Or.inl (hsame _ (.image i') he)

theorem Grows.of_same (hsame : Same store fs fs') : Grows F store fs fs' where
  disks := fun vm disk => Or.inl (hsame _ (.disk vm disk))
  entries := fun vm disk m => Or.inl (hsame _ (.entry vm disk m))
  images := fun i => Or.inl (hsame _ (.image i))

theorem Grows.saved_same (h : Grows F store fs fs') (hs : Sound F store fs)
    (hsame : ∀ vm disk n, fs'.node (store.snapshotFile vm disk n) =
      fs.node (store.snapshotFile vm disk n)) :
    (view F store fs').saved = (view F store fs).saved := by
  funext d n
  exact h.saved_eq hs (layerAt_same (hsame d.1 d.2 n))

-- One disk reads something else.
theorem Refined.write (hs : Sound F store fs)
    (hsame : SameBut store (· = store.diskFile vm disk) fs fs')
    (hvalid : fs'.node (store.diskFile vm disk) ≠ none → nameMatches vm = true ∧ nameMatches disk = true)
    (hback : ∀ r, BackedBy (F.layerAt fs') (activeRef store vm disk) r →
      Grounded F store fs vm disk r) :
    Refined F store fs fs' (.write (vm, disk) ((view F store fs').current (vm, disk))) where
  sound := (Grows.of_disk hsame hvalid hback).sound hs
  enabled := trivial
  view_eq := by
    have hgrows := Grows.of_disk hsame hvalid hback
    refine Versions.eq_write (fun d hd => ?_) (hgrows.saved_same hs fun vm' disk' n => ?_)
    · refine hgrows.current_eq hs (layerAt_same (hsame _ (.disk d.1 d.2) fun he => hd ?_))
      obtain ⟨hvm, hdisk⟩ := diskFile_eq_iff.mp he
      exact Prod.ext hvm hdisk
    · exact hsame.snapshot fun he => disk_ne_snapshot he.symm

-- No disk and no snapshot reads anything else.
theorem Grows.refined_idle (h : Grows F store fs fs') (hs : Sound F store fs)
    (hdisks : ∀ vm disk, F.layerAt fs' (activeRef store vm disk) = F.layerAt fs (activeRef store vm disk))
    (hsame : ∀ vm disk n, fs'.node (store.snapshotFile vm disk n) =
      fs.node (store.snapshotFile vm disk n)) : Refined F store fs fs' .idle where
  sound := h.sound hs
  enabled := trivial
  view_eq := by
    apply Versions.ext
    · funext d
      exact h.current_eq hs (hdisks d.1 d.2)
    · exact h.saved_same hs hsame

theorem Refined.of_same (hs : Sound F store fs) (hsame : Same store fs fs') :
    Refined F store fs fs' .idle :=
  (Grows.of_same hsame).refined_idle hs (fun vm disk => layerAt_same (hsame _ (.disk vm disk)))
    fun vm disk n => hsame _ (.snapshot store vm disk n)

-- To write a disk whose spot is as it was is to do nothing.
theorem Refined.write_of_same (hs : Sound F store fs) (hsame : Same store fs fs') :
    Refined F store fs fs' (.write (vm, disk) ((view F store fs').current (vm, disk))) :=
  .write hs (fun q hq _ => hsame q hq) (fun hn => hs.disks vm disk (hsame _ (.disk vm disk) ▸ hn))
    fun r hr => hs.active vm disk r
      ((backedBy_congr (layerAt_same (hsame _ (.disk vm disk)))).mp hr)

end

section Commands

variable {β : Type} {F : Formats β} {host : Host β} {store : DiskStore} {vm disk : String}
  {w w' : World β}

theorem runQemuImg_but {c : Command} {r : Except PyError Unit} (h : runQemuImg host c w = (r, w')) :
    SameBut store (· = c.target) w.fs w'.fs :=
  .of_touches (runQemuImg_touches fun _ => rfl) h

-- Nothing was done, or a command was run.
theorem createQcow2_cases {path : Path} {size : Option String}
    {backing : Option (List String × String)} {preallocation : String} {clusterSize : Option String}
    {r : Except PyError Unit}
    (h : createQcow2 host path size backing preallocation clusterSize w = (r, w')) :
    r.isOk = false ∧ w' = w ∨ runQemuImg host (.create path size backing preallocation
      (clusterSize.filter fun s => s != "")) w = (r, w') := by
  rw [createQcow2] at h
  rcases Quiet.bind_cases (.raiseIf _ _) h with ⟨e, rfl, rfl⟩ | ⟨_, -, h⟩
  · exact Or.inl ⟨rfl, rfl⟩
  rcases Quiet.bind_cases (.raiseIf _ _) h with ⟨e, rfl, rfl⟩ | ⟨_, -, h⟩
  · exact Or.inl ⟨rfl, rfl⟩
  exact Or.inr h

-- A command was run to make a file at a spot that had none.
structure Made (host : Host β) (store : DiskStore) (c : Command) (w : World β) (good : Bool)
    (w' : World β) : Prop where
  free : w.fs.node c.target = none
  ran : ∃ w₁ r, Same store w.fs w₁.fs ∧ runQemuImg host c w₁ = (r, w') ∧ r.isOk = good

theorem make_cases {γ : Type} {p : Path} {x : Run β Unit} {a : γ} {r : Except PyError γ}
    (hp : ∀ q, q <+: p → ¬Spot store q)
    (h : (mkdirs p >>= fun _ => x >>= fun _ => pure a) w = (r, w')) :
    r.isOk = false ∧ Same store w.fs w'.fs ∨
      ∃ w₁ r', Same store w.fs w₁.fs ∧ x w₁ = (r', w') ∧ r'.isOk = r.isOk := by
  rcases hmk : mkdirs p w with ⟨e | _, w₁⟩
  · rw [bind_of_error hmk] at h
    obtain ⟨rfl, rfl⟩ := Prod.mk.inj h
    exact Or.inl ⟨rfl, mkdirs_same hp hmk⟩
  · rw [bind_of_ok hmk] at h
    refine Or.inr ⟨w₁, (x w₁).1, mkdirs_same hp hmk, ?_⟩
    rcases hx : x w₁ with ⟨e | _, w₂⟩
    · rw [bind_of_error hx] at h
      obtain ⟨rfl, rfl⟩ := Prod.mk.inj h
      exact ⟨rfl, rfl⟩
    · rw [bind_of_ok hx] at h
      obtain ⟨rfl, rfl⟩ := Prod.mk.inj h
      exact ⟨rfl, rfl⟩

-- A file is to be made for a disk: the names are valid and the disk has none.
theorem vacant_cases {γ : Type} {e : Path → PyError} {f : Path → Run β γ} {r : Except PyError γ}
    (h : (store.diskPath vm disk >>= fun dst => exists_ dst >>= fun taken =>
      raiseIf taken (e dst) >>= fun _ => f dst) w = (r, w')) :
    r.isOk = false ∧ w' = w ∨ nameMatches vm = true ∧ nameMatches disk = true ∧
      w.fs.node (store.diskFile vm disk) = none ∧ f (store.diskFile vm disk) w = (r, w') := by
  rcases (store.diskPath_quiet vm disk).bind_cases h with ⟨e, rfl, rfl⟩ | ⟨path, hrun, h⟩
  · exact Or.inl ⟨rfl, rfl⟩
  obtain ⟨hvm, hdisk, rfl, -⟩ := store.diskPath_eq_ok.mp hrun
  rcases Quiet.bind_cases (.exists_ _) h with ⟨e, rfl, rfl⟩ | ⟨taken, htaken, h⟩
  · exact Or.inl ⟨rfl, rfl⟩
  rcases Quiet.bind_cases (.raiseIf _ _) h with ⟨e, rfl, rfl⟩ | ⟨_, hraise, h⟩
  · exact Or.inl ⟨rfl, rfl⟩
  refine Or.inr ⟨hvm, hdisk, ?_, h⟩
  rw [← (exists_eq_ok.mp htaken).1] at hraise
  simpa [FileSystem.exists_] using (raiseIf_eq_ok.mp hraise).1

variable {r : Except PyError Path}

theorem createDisk_cases {size preallocation : String} {clusterSize : Option String}
    (h : store.createDisk host vm disk size preallocation clusterSize w = (r, w')) :
    r.isOk = false ∧ Same store w.fs w'.fs ∨ nameMatches vm = true ∧ nameMatches disk = true ∧
      Made host store (.create (store.diskFile vm disk) (some size) none preallocation
        (clusterSize.filter fun s => s != "")) w r.isOk w' := by
  rw [DiskStore.createDisk] at h
  rcases vacant_cases h with ⟨hbad, rfl⟩ | ⟨hvm, hdisk, hfree, h⟩
  · exact Or.inl ⟨hbad, .refl _⟩
  rw [diskFile_dir] at h
  rcases make_cases (fun q hq => not_spot_above_disks hq) h with hrefused | ⟨w₁, r', hsame, hx, hr⟩
  · exact Or.inl hrefused
  rcases createQcow2_cases hx with ⟨hbad, rfl⟩ | hrun
  · exact Or.inl ⟨hr.symm.trans hbad, hsame⟩
  · exact Or.inr ⟨hvm, hdisk, hfree, w₁, r', hsame, hrun, hr⟩

theorem importImage_cases {src name : String} {srcFormat : Option String} {compress : Bool}
    (h : store.importImage host src name srcFormat compress w = (r, w')) :
    r.isOk = false ∧ Same store w.fs w'.fs ∨ ∃ srcPath,
      Made host store (.convert srcPath (store.imageFile name) (srcFormat.filter fun s => s != "")
        "qcow2" compress) w r.isOk w' := by
  rw [DiskStore.importImage] at h
  rcases Quiet.bind_cases (.exists_ _) h with ⟨e, rfl, rfl⟩ | ⟨found, -, h⟩
  · exact Or.inl ⟨rfl, .refl _⟩
  rcases Quiet.bind_cases (.raiseIf _ _) h with ⟨e, rfl, rfl⟩ | ⟨_, -, h⟩
  · exact Or.inl ⟨rfl, .refl _⟩
  rcases (validateName_quiet "image" name).bind_cases h with ⟨e, rfl, rfl⟩ | ⟨image, hrun, h⟩
  · exact Or.inl ⟨rfl, .refl _⟩
  obtain ⟨-, rfl, -⟩ := validateName_eq_ok.mp hrun
  rcases Quiet.bind_cases (.exists_ _) h with ⟨e, rfl, rfl⟩ | ⟨taken, htaken, h⟩
  · exact Or.inl ⟨rfl, .refl _⟩
  rcases Quiet.bind_cases (.raiseIf _ _) h with ⟨e, rfl, rfl⟩ | ⟨_, hraise, h⟩
  · exact Or.inl ⟨rfl, .refl _⟩
  have hfree : w.fs.node (store.imageFile name) = none := by
    rw [← (exists_eq_ok.mp htaken).1] at hraise
    simpa [FileSystem.exists_] using (raiseIf_eq_ok.mp hraise).1
  rcases make_cases (fun q hq => not_spot_above_images hq) h with hrefused | ⟨w₁, r', hsame, hx, hr⟩
  · exact Or.inl hrefused
  · exact Or.inr ⟨_, hfree, w₁, r', hsame, hx, hr⟩

theorem importDisk_cases {src : String} {srcFormat : Option String}
    (h : store.importDisk host src vm disk srcFormat w = (r, w')) :
    r.isOk = false ∧ Same store w.fs w'.fs ∨ nameMatches vm = true ∧ nameMatches disk = true ∧
      ∃ srcPath, Made host store (.convert srcPath (store.diskFile vm disk)
        (srcFormat.filter fun s => s != "") "qcow2" false) w r.isOk w' := by
  rw [DiskStore.importDisk] at h
  rcases Quiet.bind_cases (.exists_ _) h with ⟨e, rfl, rfl⟩ | ⟨found, -, h⟩
  · exact Or.inl ⟨rfl, .refl _⟩
  rcases Quiet.bind_cases (.raiseIf _ _) h with ⟨e, rfl, rfl⟩ | ⟨_, -, h⟩
  · exact Or.inl ⟨rfl, .refl _⟩
  rcases vacant_cases h with ⟨hbad, rfl⟩ | ⟨hvm, hdisk, hfree, h⟩
  · exact Or.inl ⟨hbad, .refl _⟩
  rw [diskFile_dir] at h
  rcases make_cases (fun q hq => not_spot_above_disks hq) h with hrefused | ⟨w₁, r', hsame, hx, hr⟩
  · exact Or.inl hrefused
  · exact Or.inr ⟨hvm, hdisk, _, hfree, w₁, r', hsame, hx, hr⟩

theorem cloneDisk_cases {base : String} {size : Option String}
    (h : store.cloneDisk host base vm disk size w = (r, w')) :
    r.isOk = false ∧ Same store w.fs w'.fs ∨ nameMatches vm = true ∧ nameMatches disk = true ∧
      ∃ basePath inf, store.clonePath host base w = (.ok basePath, w) ∧
        info host basePath w = (.ok inf, w) ∧
        Made host store (.create (store.diskFile vm disk) size (some (basePath, inf.format)) "off"
          none) w r.isOk w' := by
  rw [DiskStore.cloneDisk] at h
  rcases (clonePath_quiet base).bind_cases h with ⟨e, rfl, rfl⟩ | ⟨basePath, hbase, h⟩
  · exact Or.inl ⟨rfl, .refl _⟩
  rcases (info_quiet _).bind_cases h with ⟨e, rfl, rfl⟩ | ⟨inf, hinfo, h⟩
  · exact Or.inl ⟨rfl, .refl _⟩
  rcases vacant_cases h with ⟨hbad, rfl⟩ | ⟨hvm, hdisk, hfree, h⟩
  · exact Or.inl ⟨hbad, .refl _⟩
  rw [diskFile_dir] at h
  rcases make_cases (fun q hq => not_spot_above_disks hq) h with hrefused | ⟨w₁, r', hsame, hx, hr⟩
  · exact Or.inl hrefused
  rcases createQcow2_cases hx with ⟨hbad, rfl⟩ | hrun
  · exact Or.inl ⟨hr.symm.trans hbad, hsame⟩
  · exact Or.inr ⟨hvm, hdisk, basePath, inf, hbase, hinfo, hfree, w₁, r', hsame, hrun, hr⟩

-- The disk and its snapshots are gone.
def Dropped (store : DiskStore) (vm disk : String) (fs fs' : FileSystem β) : Prop :=
  ∀ q, fs'.node q = if q = store.diskFile vm disk ∨ store.snapshotsDir vm disk <+: q then none
    else fs.node q

-- Only the disk can fail to be removed.
theorem removeDisk_cases {r : Except PyError Unit}
    (hdir : w.fs.node (store.snapshotsDir vm disk) ≠ none →
      w.fs.node (store.snapshotsDir vm disk) = some .dir)
    (h : (unlink (store.diskFile vm disk) >>= fun _ => exists_ (store.snapshotsDir vm disk) >>=
      fun hasDir => runIf hasDir (rmtree (store.snapshotsDir vm disk))) w = (r, w')) :
    r.isOk = false ∧ w' = w ∨ r.isOk = true ∧ Dropped store vm disk w.fs w'.fs := by
  rcases hunlink : unlink (store.diskFile vm disk) w with ⟨e | _, w₁⟩
  · rw [bind_of_error hunlink, unlink_error hunlink] at h
    obtain ⟨rfl, rfl⟩ := Prod.mk.inj h
    exact Or.inl ⟨rfl, rfl⟩
  obtain ⟨-, hnode⟩ := unlink_ok hunlink
  have hne : store.snapshotsDir vm disk ≠ store.diskFile vm disk := fun he =>
    not_spot_above_snapshots (List.prefix_refl _) (he ▸ Spot.disk vm disk)
  have hkept : w₁.fs.node (store.snapshotsDir vm disk) = w.fs.node (store.snapshotsDir vm disk) := by
    rw [hnode, if_neg hne]
  rw [bind_of_ok hunlink, bind_of_ok (exists_eq_ok.mpr ⟨rfl, rfl⟩)] at h
  refine Or.inr ?_
  by_cases hn : w₁.fs.node (store.snapshotsDir vm disk) = none
  · rw [(FileSystem.exists_eq_false_iff _).mpr hn, runIf, if_neg Bool.false_ne_true] at h
    obtain ⟨rfl, rfl⟩ := Prod.mk.inj h
    refine ⟨rfl, fun q => ?_⟩
    by_cases hbelow : store.snapshotsDir vm disk <+: q
    · rw [if_pos (Or.inr hbelow)]
      exact w₁.fs.none_of_below hbelow hn
    · rw [hnode]
      simp only [hbelow, or_false]
  · have hdir₁ : w₁.fs.node (store.snapshotsDir vm disk) = some .dir := by
      rw [hkept]
      exact hdir (hkept ▸ hn)
    rw [(FileSystem.exists_iff _).mpr hn, runIf, if_pos rfl, rmtree, read_bind, hdir₁] at h
    obtain ⟨rfl, rfl⟩ := Prod.mk.inj h
    refine ⟨rfl, fun q => ?_⟩
    rw [FileSystem.prune_node _ (by simp [DiskStore.snapshotsDir]), hnode]
    by_cases hbelow : store.snapshotsDir vm disk <+: q
    · rw [if_pos hbelow, if_pos (Or.inr hbelow)]
    · rw [if_neg hbelow]
      simp only [hbelow, or_false]

theorem deleteDisk_cases {force : Bool} {r : Except PyError Unit}
    (h : store.deleteDisk vm disk force w = (r, w')) :
    r.isOk = false ∧ w' = w ∨ r.isOk = true ∧ Dropped store vm disk w.fs w'.fs := by
  rw [DiskStore.deleteDisk] at h
  rcases (store.requireDisk_quiet vm disk).bind_cases h with ⟨e, rfl, rfl⟩ | ⟨path, hrun, h⟩
  · exact Or.inl ⟨rfl, rfl⟩
  obtain ⟨-, -, rfl, -, -⟩ := store.requireDisk_eq_ok.mp hrun
  rcases (store.snapshotDir_quiet vm disk).bind_cases h with ⟨e, rfl, rfl⟩ | ⟨snapDir, hrun, h⟩
  · exact Or.inl ⟨rfl, rfl⟩
  obtain ⟨-, -, rfl, -⟩ := store.snapshotDir_eq_ok.mp hrun
  rcases Quiet.bind_cases (.exists_ _) h with ⟨e, rfl, rfl⟩ | ⟨hasDir, hfound, h⟩
  · exact Or.inl ⟨rfl, rfl⟩
  cases hasDir with
  | true =>
      rw [if_pos rfl] at h
      rcases Quiet.bind_cases (.iterdir _) h with ⟨e, rfl, rfl⟩ | ⟨names, hnames, h⟩
      · exact Or.inl ⟨rfl, rfl⟩
      rcases Quiet.bind_cases (.raiseIf _ _) h with ⟨e, rfl, rfl⟩ | ⟨_, -, h⟩
      · exact Or.inl ⟨rfl, rfl⟩
      refine removeDisk_cases (fun _ => ?_) h
      -- only a directory is listed
      rw [iterdir, read_bind] at hnames
      rcases hn : w.fs.node (store.snapshotsDir vm disk) with _ | _ | f
      · simp [hn] at hnames
      · rfl
      · simp [hn] at hnames
  | false =>
      rw [if_neg Bool.false_ne_true, bind_of_ok pure_run] at h
      rcases Quiet.bind_cases (.raiseIf _ _) h with ⟨e, rfl, rfl⟩ | ⟨_, -, h⟩
      · exact Or.inl ⟨rfl, rfl⟩
      refine removeDisk_cases (fun hn => ?_) h
      exact absurd ((FileSystem.exists_eq_false_iff _).mp (exists_eq_ok.mp hfound).1) hn

end Commands

end VMForge.Storage
