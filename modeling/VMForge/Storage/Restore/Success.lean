import VMForge.Storage.Restore.Rebuild

namespace VMForge.Storage

open Exec

-- A file record of the bundle directory `dir`, with the digest of its file.
structure FileRecord.Fits {β : Type} (host : Host β) (data : String → Option β) (dir : String)
    (r : FileRecord) : Prop where
  place : ∃ n, BundlePath r.path [dir, n]
  sum : ∃ b, data r.path = some b ∧ r.sha256 = host.sha256 b

-- The file of a record is at `dst`.
def Arrived {β : Type} (data : String → Option β) (fs : FileSystem β) (r : FileRecord)
    (dst : Path) : Prop :=
  ∃ f, fs.node dst = some (.file f) ∧ data r.path = some f.blob

section

variable {β : Type} {host : Host β} {store : DiskStore} {vm : String} {staging q : Path}
  {data : String → Option β} {dir : String} {r r' : FileRecord} {w : World β}

theorem BundlePath.relative {arc : String} {p : Path} (h : BundlePath arc p) :
    Path.isAbsolute arc = false := by
  cases h <;> simp [Path.isAbsolute]

theorem FileRecord.Fits.joined (h : r.Fits host data dir) :
    joinStr staging r.path = staging ++ Path.parts r.path := by
  obtain ⟨n, hn⟩ := h.place
  exact joinStr_of_not_absolute staging hn.relative

-- Where a record goes in a directory.
theorem FileRecord.Fits.entry (h : r.Fits host data dir) :
    ∃ n, Path.isComponent n = true ∧ ∀ q, joinName q r.path = q ++ [n] := by
  obtain ⟨n, hn⟩ := h.place
  exact ⟨n, hn.legal n (by simp), hn.joinName⟩

-- Two records of a directory go to different places.
theorem FileRecord.Fits.apart (h : r.Fits host data dir) (h' : r'.Fits host data dir)
    (hne : r.path ≠ r'.path) : Path.parts r.path ≠ Path.parts r'.path ∧
      joinName q r.path ≠ joinName q r'.path := by
  obtain ⟨n, hn⟩ := h.place
  obtain ⟨n', hn'⟩ := h'.place
  have hdiff : n ≠ n' := by
    rintro rfl
    exact hne (hn.unique hn' rfl)
  rw [hn.parts, hn'.parts, hn.joinName, hn'.joinName]
  simp [hdiff]

-- What moving a file into a directory changes.
def EntryMoves (dir staging : Path) (r : FileRecord) (q : Path) : Prop :=
  q = joinName dir r.path ∨ q = staging ++ Path.parts r.path

theorem entryMoves_apart {p : Path} (h : r.Fits host data dir) (h' : r'.Fits host data dir)
    (hne : r.path ≠ r'.path) (hout : ∀ n, ¬staging <+: p ++ [n]) :
    ¬EntryMoves p staging r (joinName p r'.path) ∧
      ¬EntryMoves p staging r (staging ++ Path.parts r'.path) := by
  obtain ⟨hparts, hjoin⟩ := h.apart (q := p) h' hne
  obtain ⟨n, -, hn⟩ := h.entry
  obtain ⟨n', -, hn'⟩ := h'.entry
  constructor
  · rintro (hc | hc)
    · exact hjoin hc.symm
    · exact hout n' (hn' p ▸ hc ▸ List.prefix_append _ _)
  · rintro (hc | hc)
    · exact hout n (hn p ▸ hc ▸ List.prefix_append _ _)
    · exact hparts (List.append_cancel_left hc).symm

-- A config file is moved next to the disks.
theorem moveConfig_run (hr : r.Fits host data "config") (hroot : w.fs.node (store.vmRoot vm) = some .dir)
    (hheld : Holds data w.fs r.path (staging ++ Path.parts r.path))
    (hfree : w.fs.node (joinName (store.vmRoot vm) r.path) = none)
    (hout : ∀ q, store.vmsDir <+: q → ¬staging <+: q) :
    ∃ w', moveConfig store vm staging r.toJson w = (.ok (), w') ∧
      w'.fs.node (store.vmRoot vm) = some .dir ∧
      Arrived data w'.fs r (joinName (store.vmRoot vm) r.path) ∧
      Within (EntryMoves (store.vmRoot vm) staging r) w w' := by
  obtain ⟨n, hn, hjoin⟩ := hr.entry
  obtain ⟨b, hb, hsrc⟩ := hheld
  rw [hjoin] at hfree
  obtain ⟨w', hmove, hdst, hmoved⟩ := move_within hsrc
    (by rwa [Path.name_concat]) (by rwa [List.dropLast_concat]) hfree
  refine ⟨w', ?_, ?_, ⟨_, by rw [hjoin]; exact hdst, hb⟩, hmoved.mono fun q hq => ?_⟩
  · have hpath : (pyIndex r.toJson "path" >>= pyStr) = .ok r.path := rfl
    rw [moveConfig, bind_of_ok (ofExcept_eq_ok.mpr ⟨hpath, rfl⟩), hr.joined, hjoin]
    exact hmove
  · rw [hmoved _ ?_, hroot]
    rintro (hc | hc)
    · exact hout _ (List.prefix_append _ _) (hc ▸ List.prefix_append _ _)
    · exact not_concat_below (store.vmRoot vm) n (hc ▸ List.prefix_rfl)
  · rw [EntryMoves, hjoin]
    exact hq.symm

theorem moveConfigs_run {rs : List FileRecord} (hnodup : (rs.map FileRecord.path).Nodup)
    (hrs : ∀ r ∈ rs, r.Fits host data "config") (hroot : w.fs.node (store.vmRoot vm) = some .dir)
    (hheld : ∀ r ∈ rs, Holds data w.fs r.path (staging ++ Path.parts r.path))
    (hfree : ∀ r ∈ rs, w.fs.node (joinName (store.vmRoot vm) r.path) = none)
    (hout : ∀ q, store.vmsDir <+: q → ¬staging <+: q) :
    ∃ w', forEach (rs.map FileRecord.toJson) (moveConfig store vm staging) w = (.ok (), w') ∧
      (∀ r ∈ rs, Arrived data w'.fs r (joinName (store.vmRoot vm) r.path)) ∧
      Within (fun q => ∃ r ∈ rs, EntryMoves (store.vmRoot vm) staging r q) w w' := by
  have hentry : ∀ n, ¬staging <+: store.vmRoot vm ++ [n] := fun n =>
    hout _ ((List.prefix_append _ _).trans (List.prefix_append _ _))
  have hne : rs.Pairwise fun a b => a.path ≠ b.path := List.pairwise_map.mp hnodup
  rw [forEach_map]
  obtain ⟨w', hrun, -, harrived, hmoved⟩ := forEach_within (EntryMoves (store.vmRoot vm) staging)
    (fun fs => fs.node (store.vmRoot vm) = some .dir)
    (fun r fs => Holds data fs r.path (staging ++ Path.parts r.path) ∧
      fs.node (joinName (store.vmRoot vm) r.path) = none)
    (fun r fs => Arrived data fs r (joinName (store.vmRoot vm) r.path))
    (fun r hr t hroot hpre => moveConfig_run (hrs r hr) hroot hpre.1 hpre.2 hout)
    (hne.imp_of_mem fun ha hb hab t t' hstep hpre => by
      obtain ⟨⟨b, hb', hnode⟩, hnone⟩ := hpre
      obtain ⟨hjoin, hparts⟩ := entryMoves_apart (hrs _ ha) (hrs _ hb) hab hentry
      exact ⟨⟨b, hb', (hstep _ hparts).trans hnode⟩, (hstep _ hjoin).trans hnone⟩)
    (hne.imp_of_mem fun ha hb hab t t' hstep hpost => by
      obtain ⟨f, hf, hdata⟩ := hpost
      exact ⟨f, (hstep _ (entryMoves_apart (hrs _ hb) (hrs _ ha) hab.symm hentry).1).trans hf, hdata⟩)
    hroot fun r hr => ⟨hheld r hr, hfree r hr⟩
  exact ⟨w', hrun, harrived, hmoved⟩

-- What is in the place of an image already is the same file.
def Agrees {β : Type} (data : String → Option β) (store : DiskStore) (fs : FileSystem β)
    (r : FileRecord) : Prop :=
  ∀ x, fs.node (joinName store.imagesDir r.path) = some x →
    ∃ f, x = .file f ∧ data r.path = some f.blob

-- What placing an image changes.
def ImageMoves (store : DiskStore) (staging : Path) (r : FileRecord) (q : Path) : Prop :=
  q <+: store.imagesDir ∨ EntryMoves store.imagesDir staging r q

theorem imageMoves_apart (h : r.Fits host data "images") (h' : r'.Fits host data "images")
    (hne : r.path ≠ r'.path) (hout : ∀ q, store.imagesDir <+: q → ¬staging <+: q) :
    ¬ImageMoves store staging r (joinName store.imagesDir r'.path) ∧
      ¬ImageMoves store staging r (staging ++ Path.parts r'.path) := by
  obtain ⟨hjoin, hparts⟩ := entryMoves_apart h h' hne fun n => hout _ (List.prefix_append _ _)
  obtain ⟨n', -, hn'⟩ := h'.entry
  refine ⟨not_or.mpr ⟨fun hc => ?_, hjoin⟩, not_or.mpr ⟨fun hc => ?_, hparts⟩⟩
  · exact not_concat_below store.imagesDir n' (hn' store.imagesDir ▸ hc)
  · exact hout _ List.prefix_rfl ((List.prefix_append _ _).trans hc)

theorem placeImage_run (hr : r.Fits host data "images")
    (hclear : ∀ q f, q <+: store.imagesDir → w.fs.node q ≠ some (.file f))
    (hheld : Holds data w.fs r.path (staging ++ Path.parts r.path)) (hsame : Agrees data store w.fs r) :
    ∃ w', placeImage host store staging r.toJson w = (.ok (), w') ∧
      (∀ q f, q <+: store.imagesDir → w'.fs.node q ≠ some (.file f)) ∧
      Arrived data w'.fs r (joinName store.imagesDir r.path) ∧
      Within (ImageMoves store staging r) w w' := by
  have hpath : (pyIndex r.toJson "path" >>= pyStr) = .ok r.path := rfl
  cases hnode : w.fs.node (joinName store.imagesDir r.path) with
  | some x =>
      obtain ⟨f, rfl, hdata⟩ := hsame x hnode
      obtain ⟨b, hb, hsum⟩ := hr.sum
      obtain rfl := Option.some.inj (hdata.symm.trans hb)
      have hset : Settled host store w.fs r.toJson :=
        ⟨r.path, f, .str r.sha256, hpath, hnode, rfl, by simp [hsum, Json.eqStr]⟩
      exact ⟨w, placeImage_settled hset, hclear, ⟨f, hnode, hdata⟩, .refl _ _⟩
  | none =>
      obtain ⟨n, hn, hjoin⟩ := hr.entry
      obtain ⟨b, hb, hsrc⟩ := hheld
      obtain ⟨t, hmk, hdirs, hkeep, hmade⟩ := mkdirs_within (DiskStore_imagesDir_legal store) hclear
      have hsrc' := (hkeep _ (by simp [hsrc])).trans hsrc
      have hfree : t.fs.node (store.imagesDir ++ [n]) = none := by
        rw [hmade _ (not_concat_below _ _), ← hjoin, hnode]
      obtain ⟨w', hmove, hdst, hmoved⟩ := move_within hsrc' (by rwa [Path.name_concat])
        (by rw [List.dropLast_concat]; exact hdirs _ List.prefix_rfl) hfree
      refine ⟨w', ?_, fun q f hq => ?_, ⟨_, by rw [hjoin]; exact hdst, hb⟩, ?_⟩
      · have hlook : exists_ (joinName store.imagesDir r.path) w = (.ok false, w) := by
          simp [FileSystem.exists_, hnode]
        rw [placeImage, bind_of_ok (ofExcept_eq_ok.mpr ⟨hpath, rfl⟩), bind_of_ok hlook,
          if_neg Bool.false_ne_true, bind_of_ok hmk, hr.joined, hjoin]
        exact hmove
      · rw [hmoved q, hdirs q hq]
        · simp
        · rintro (rfl | rfl)
          · rw [hdirs _ hq] at hsrc'
            cases hsrc'
          · exact not_concat_below _ _ hq
      · refine (hmade.mono fun q hq => Or.inl hq).trans (hmoved.mono fun q hq => Or.inr ?_)
        rw [EntryMoves, hjoin]
        exact hq.symm

theorem placeImages_run {rs : List FileRecord} (hnodup : (rs.map FileRecord.path).Nodup)
    (hrs : ∀ r ∈ rs, r.Fits host data "images")
    (hclear : ∀ q f, q <+: store.imagesDir → w.fs.node q ≠ some (.file f))
    (hheld : ∀ r ∈ rs, Holds data w.fs r.path (staging ++ Path.parts r.path))
    (hsame : ∀ r ∈ rs, Agrees data store w.fs r)
    (hout : ∀ q, store.imagesDir <+: q → ¬staging <+: q) :
    ∃ w', forEach (rs.map FileRecord.toJson) (placeImage host store staging) w = (.ok (), w') ∧
      (∀ q f, q <+: store.imagesDir → w'.fs.node q ≠ some (.file f)) ∧
      (∀ r ∈ rs, Arrived data w'.fs r (joinName store.imagesDir r.path)) ∧
      Within (fun q => ∃ r ∈ rs, ImageMoves store staging r q) w w' := by
  have hne : rs.Pairwise fun a b => a.path ≠ b.path := List.pairwise_map.mp hnodup
  rw [forEach_map]
  exact forEach_within (ImageMoves store staging)
    (fun fs => ∀ q f, q <+: store.imagesDir → fs.node q ≠ some (.file f))
    (fun r fs => Holds data fs r.path (staging ++ Path.parts r.path) ∧ Agrees data store fs r)
    (fun r fs => Arrived data fs r (joinName store.imagesDir r.path))
    (fun r hr t hclear hpre => placeImage_run (hrs r hr) hclear hpre.1 hpre.2)
    (hne.imp_of_mem fun ha hb hab t t' hstep hpre => by
      obtain ⟨⟨b, hb', hnode⟩, hagrees⟩ := hpre
      obtain ⟨hjoin, hparts⟩ := imageMoves_apart (hrs _ ha) (hrs _ hb) hab hout
      exact ⟨⟨b, hb', (hstep _ hparts).trans hnode⟩, fun x hx => hagrees x (hstep _ hjoin ▸ hx)⟩)
    (hne.imp_of_mem fun ha hb hab t t' hstep hpost => by
      obtain ⟨f, hf, hdata⟩ := hpost
      exact ⟨f, (hstep _ (imageMoves_apart (hrs _ hb) (hrs _ ha) hab.symm hout).1).trans hf, hdata⟩)
    hclear fun r hr => ⟨hheld r hr, hsame r hr⟩

end

-- A manifest as `backup` writes it, with what the bundle has under the paths of its records.
structure Manifest.Fits {β : Type} (host : Host β) (F : Formats β) (data : String → Option β)
    (m : Manifest) : Prop where
  sorted : (m.disks.map Prod.fst).Pairwise (· ≤ ·)
  distinct : (m.disks.map Prod.fst).Nodup
  nonempty : m.disks ≠ []
  disks : ∀ d ∈ m.disks, d.2.Fits F data (m.images.map FileRecord.path) d.1
  images : ∀ r ∈ m.images, r.Fits host data "images"
  imagePaths : (m.images.map FileRecord.path).Nodup
  bases : ∀ r ∈ m.images, ∀ b, data r.path = some b → ∃ l, F.decode "qcow2" b = some l
  config : ∀ r ∈ m.config, r.Fits host data "config"
  configPaths : (m.config.map FileRecord.path).Nodup
  apart : ∀ r ∈ m.config, ∀ n, Path.parts r.path = ["config", n] → n ≠ "disks" ∧
    ∀ d ∈ m.disks, d.2.snapshots ≠ [] → n ≠ "snapshots"

-- The VM of a manifest, put together from the files of the bundle.
structure Reassembled {β : Type} (F : Formats β) (undamaged : β → Prop) (data : String → Option β)
    (store : DiskStore) (vm : String) (m : Manifest) (fs : FileSystem β) : Prop where
  layers : ∀ d ∈ m.disks, ∀ l ∈ d.2.layers store vm d.1, Rebuilt F undamaged data fs l.2.file.path
    (ParentRef.file store vm d.1 l.2.parent) l.1
  images : ∀ r ∈ m.images, Arrived data fs r (joinName store.imagesDir r.path)
  config : ∀ r ∈ m.config, Arrived data fs r (joinName (store.vmRoot vm) r.path)

section

variable {β : Type} {F : Formats β} {undamaged : β → Prop} {host : Host β} {store : DiskStore}
  {vm : String} {staging : Path} {data : String → Option β} {m : Manifest} {w w' : World β}

theorem Arrived.layer {r : FileRecord} {fs : FileSystem β} {dst : Path} (h : Arrived data fs r dst)
    (hbase : ∀ b, data r.path = some b → ∃ l, F.decode "qcow2" b = some l) :
    (F.layerAt fs (dst, "qcow2")).isSome = true := by
  obtain ⟨⟨b, mode⟩, hf, hdata⟩ := h
  obtain ⟨l, hl⟩ := hbase b hdata
  rw [layerAt_of_node hf hl]
  rfl

theorem Manifest.Fits.items (hm : m.Fits host F data) :
    (pyIndex m.toJson "disks" >>= pySortedItems) = .ok (m.disks.map fun d => (d.1, d.2.toJson)) := by
  have hdict : Json.dict (m.disks.map fun d => (d.1, d.2.toJson)) =
      m.disks.map fun d => (d.1, d.2.toJson) :=
    Json.dict_of_nodup (by simpa [Function.comp_def] using hm.distinct)
  have hsorted : Json.sortedItems (m.disks.map fun d => (d.1, d.2.toJson)) =
      m.disks.map fun d => (d.1, d.2.toJson) :=
    List.Pairwise.insertionSort_eq (List.pairwise_map.mpr (List.pairwise_map.mp hm.sorted))
  change Except.ok _ = _
  rw [hdict, hsorted]

-- The file of a config record is not concerned while the disks are assembled.
theorem config_unmoved (hm : m.Fits host F data) {r : FileRecord} (hr : r ∈ m.config)
    {d : String × DiskEntry} (hd : d ∈ m.disks)
    (hout : ∀ q, store.imagesDir <+: q ∨ store.vmsDir <+: q → ¬staging <+: q) :
    ¬DiskMoves store vm staging d.1 d.2 (joinName (store.vmRoot vm) r.path) ∧
      ¬DiskMoves store vm staging d.1 d.2 (staging ++ Path.parts r.path) := by
  obtain ⟨n, hn⟩ := (hm.config r hr).place
  obtain ⟨hdisks, hsnaps⟩ := hm.apart r hr n hn.parts
  rw [hn.joinName, hn.parts]
  have hlayer : ∀ l ∈ d.2.layers store vm d.1, (store.vmRoot vm).length + 1 < l.1.length := by
    intro l hl
    rcases layer_file hl with he | ⟨s, -, he⟩ <;> rw [he] <;>
      simp [DiskStore.diskFile, DiskStore.disksDir, DiskStore.snapshotFile, DiskStore.snapshotsDir]
  constructor
  · rintro (hc | ⟨hne, hc⟩ | ⟨l, hl, hc⟩ | ⟨p, -, hc⟩)
    · exact hdisks (entry_eq hc (List.prefix_rfl (l := store.vmRoot vm ++ ["disks"])))
    · exact hsnaps d hd hne (entry_eq hc (List.prefix_rfl (l := store.vmRoot vm ++ ["snapshots", d.1])))
    · have hlen := hlayer l hl
      rw [← hc] at hlen
      simp at hlen
    · refine hout (store.vmRoot vm ++ [n])
        (Or.inr ((List.prefix_append _ _).trans (List.prefix_append _ _))) ?_
      rw [hc]
      exact List.prefix_append _ _
  · rintro (hc | ⟨-, hc⟩ | ⟨l, hl, hc⟩ | ⟨p, hp, hc⟩)
    · exact hout _ (Or.inr vmsDir_prefix_disksDir) ((List.prefix_append _ _).trans hc)
    · exact hout _ (Or.inr vmsDir_prefix_snapshotsDir) ((List.prefix_append _ _).trans hc)
    · exact hout _ (Or.inr ((List.prefix_append _ _).trans (layer_vms hl)))
        (hc ▸ List.prefix_append _ _)
    · obtain rfl := List.append_cancel_left hc
      rcases hp.head with hhead | hhead <;> simp at hhead

theorem checkRestored_run (hq : Faithful F undamaged host.qemuImg) (hvm : nameMatches vm = true)
    {disk : String} (hdisk : nameMatches disk = true) {b : β} {c : Content}
    (hb : w.fs.blob (store.diskFile vm disk) = some b) (hsound : undamaged b)
    (hc : Resolves (F.layerAt w.fs) (activeRef store vm disk) c) :
    ∃ r, checkRestored host store vm disk w = (.ok r, w) := by
  obtain ⟨report, hreport, hcode⟩ := hq.accepts w _ b c hb hsound hc
  have hthere : w.fs.node (store.diskFile vm disk) ≠ none := by
    obtain ⟨mode, hnode⟩ := w.fs.blob_eq_some.mp hb
    simp [hnode]
  have hcheck : store.checkDisk host vm disk w = (.ok ⟨true, report.corruptions, report.leaks⟩, w) := by
    rw [DiskStore.checkDisk, bind_of_ok (store.requireDisk_eq_ok.mpr ⟨hvm, hdisk, rfl, hthere, rfl⟩),
      check, read_bind, hreport]
    simp [hcode, pure_run]
  rw [checkRestored, bind_of_ok hcheck]
  exact ⟨_, rfl⟩

theorem assembleVm_run (hq : Faithful F undamaged host.qemuImg) (hvm : nameMatches vm = true)
    (hm : m.Fits host F data) (hroomy : Roomy store vm w.fs)
    (hbare : ∀ q, Below (store.vmRoot vm) q → w.fs.node q = none)
    (himages : ∀ r ∈ m.images, Arrived data w.fs r (joinName store.imagesDir r.path))
    (hlayers : ∀ d ∈ m.disks, ∀ l ∈ d.2.layers store vm d.1,
      Holds data w.fs l.2.file.path (staging ++ Path.parts l.2.file.path))
    (hconfig : ∀ r ∈ m.config, Holds data w.fs r.path (staging ++ Path.parts r.path))
    (hout : ∀ q, store.imagesDir <+: q ∨ store.vmsDir <+: q → ¬staging <+: q)
    (hsound : ∀ d ∈ m.disks, ∀ r, d.2.active = some r → ∀ b, data r.file.path = some b → undamaged b)
    (hreads : ∀ fs, Reassembled F undamaged data store vm m fs → ∀ d ∈ m.disks,
      ∃ c, Resolves (F.layerAt fs) (activeRef store vm d.1) c) :
    ∃ result w', assembleVm host store vm m.toJson staging w = (.ok result, w') ∧
      Reassembled F undamaged data store vm m w'.fs ∧
      Within (fun q => (∃ d ∈ m.disks, DiskMoves store vm staging d.1 d.2 q) ∨
        ∃ r ∈ m.config, EntryMoves (store.vmRoot vm) staging r q) w w' := by
  -- the disks
  obtain ⟨t, hdisks, hbuilt, hmoved⟩ := assembleDisks_run hq hvm hm.distinct hm.disks hroomy hlayers
    (fun d _ l hl => hbare _ (layer_below hl))
    (fun arc harc => by
      obtain ⟨r, hr, rfl⟩ := List.mem_map.mp harc
      exact (himages r hr).layer (hm.bases r hr)) hout
  have hunmoved : ∀ r ∈ m.config, ∀ q, q = joinName (store.vmRoot vm) r.path ∨
      q = staging ++ Path.parts r.path → t.fs.node q = w.fs.node q := by
    intro r hr q hq'
    refine hmoved q ?_
    rintro ⟨d, hd, hc⟩
    rcases hq' with rfl | rfl
    · exact (config_unmoved hm hr hd hout).1 hc
    · exact (config_unmoved hm hr hd hout).2 hc
  -- the config files
  have hroot : t.fs.node (store.vmRoot vm) = some .dir := by
    obtain ⟨d, hd⟩ := List.exists_mem_of_ne_nil _ hm.nonempty
    obtain ⟨r, hactive, -⟩ := (hm.disks d hd).active
    have hmem : (store.diskFile vm d.1, r) ∈ d.2.layers store vm d.1 :=
      List.mem_append_left _ (by simp [hactive])
    have hbelow := diskFile_below store vm d.1
    have hdir := t.fs.isDir_of_below hbelow.1 hbelow.2.symm (node_of_layerAt (hbuilt d hd _ hmem).layer)
    exact hdir
  obtain ⟨w', hmoves, harrived, hmoved'⟩ := moveConfigs_run hm.configPaths hm.config hroot
    (fun r hr => by
      obtain ⟨b, hb, hnode⟩ := hconfig r hr
      exact ⟨b, hb, (hunmoved r hr _ (Or.inr rfl)).trans hnode⟩)
    (fun r hr => by
      obtain ⟨n, -, hjoin⟩ := (hm.config r hr).entry
      rw [hunmoved r hr _ (Or.inl rfl), hjoin]
      exact hbare _ (below_append _ n [])) fun q hq' => hout q (Or.inr hq')
  have hall : Reassembled F undamaged data store vm m w'.fs := by
    refine ⟨fun d hd l hl => (hbuilt d hd l hl).congr (hmoved' _ ?_), fun r hr => ?_, harrived⟩
    · rintro ⟨r, hr, hc | hc⟩
      · exact (config_unmoved hm hr hd hout).1 (Or.inr (Or.inr (Or.inl ⟨l, hl, hc.symm⟩)))
      · exact hout _ (Or.inr ((List.prefix_append _ _).trans (layer_vms hl)))
          (hc ▸ List.prefix_append _ _)
    · obtain ⟨f, hf, hdata⟩ := himages r hr
      refine ⟨f, ?_, hdata⟩
      have himage := prefix_joinName store.imagesDir r.path
      rw [hmoved' _ ?_, hmoved _ ?_, hf]
      · rintro ⟨d, hd, hc⟩
        exact image_unmoved himage hout hc
      · rintro ⟨r', hr', hc | hc⟩
        · obtain ⟨n, -, hjoin⟩ := (hm.config r' hr').entry
          have hvms : store.home ++ ["vms"] <+: store.vmRoot vm ++ [n] :=
            (List.prefix_append _ _).trans (List.prefix_append _ _)
          rw [hc, hjoin] at himage
          exact absurd (entry_eq himage hvms) (by decide)
        · exact hout _ (Or.inl himage) (hc ▸ List.prefix_append _ _)
  -- and the checks
  have hchecks : ∀ disk ∈ (m.disks.map fun d => (d.1, d.2.toJson)).map Prod.fst,
      ∃ r, checkRestored host store vm disk w' = (.ok r, w') := by
    intro disk hdisk
    simp only [List.map_map, List.mem_map, Function.comp_apply] at hdisk
    obtain ⟨d, hd, rfl⟩ := hdisk
    obtain ⟨r, hactive, -⟩ := (hm.disks d hd).active
    have hmem : (store.diskFile vm d.1, r) ∈ d.2.layers store vm d.1 :=
      List.mem_append_left _ (by simp [hactive])
    obtain ⟨b, b', l, mode, hb, -, hnode, -, hkeeps⟩ := hall.layers d hd _ hmem
    obtain ⟨c, hc⟩ := hreads _ hall d hd
    exact checkRestored_run hq hvm (hm.disks d hd).named (w'.fs.blob_eq_some.mpr ⟨mode, hnode⟩)
      (hkeeps (hsound d hd r hactive b hb)) hc
  obtain ⟨checks, hchecked⟩ := mapEach_quiet_returns hchecks
  refine ⟨⟨vm, store.home, (m.disks.map fun d => (d.1, d.2.toJson)).map Prod.fst,
    (m.disks.map fun d => d.2.snapshots.length).sum, checks⟩, w', ?_, hall,
    (hmoved.mono fun q hq' => Or.inl hq').trans (hmoved'.mono fun q hq' => Or.inr hq')⟩
  have hrecords : (pyGetList m.toJson "config" >>= pyIter) =
      .ok (m.config.map FileRecord.toJson) := rfl
  rw [assembleVm, bind_of_ok (store.vmDir_eq_ok.mpr ⟨hvm, rfl, rfl⟩),
    bind_of_ok (ofExcept_eq_ok.mpr ⟨hm.items, rfl⟩), bind_of_ok hdisks, finishVm,
    bind_of_ok (ofExcept_eq_ok.mpr ⟨hrecords, rfl⟩), bind_of_ok hmoves, bind_of_ok hchecked]
  rfl

-- In the directories of the VM there is nothing but what the manifest records.
structure OnlyRecorded (store : DiskStore) (vm : String) (m : Manifest) (fs : FileSystem β) : Prop where
  disks : ∀ n, fs.node (store.disksDir vm ++ [n]) ≠ none → ∃ d ∈ m.disks, n = d.1 ++ ".qcow2"
  snapshots : ∀ d ∈ m.disks, ∀ n, fs.node (store.snapshotsDir vm d.1 ++ [n]) ≠ none →
    ∃ s ∈ d.2.snapshots, n = s.name ++ ".qcow2"
  config : ∀ n f, fs.node (store.vmRoot vm ++ [n]) = some (.file f) →
    ∃ r ∈ m.config, joinName (store.vmRoot vm) r.path = store.vmRoot vm ++ [n]

-- A path that was touched is on the way to a layer, or a config file.
theorem touched_of_moves (hm : m.Fits host F data)
    (hbare : ∀ q, Below (store.vmRoot vm) q → w.fs.node q = none)
    (hmoved : Within (fun q => (∃ d ∈ m.disks, DiskMoves store vm staging d.1 d.2 q) ∨
      ∃ r ∈ m.config, EntryMoves (store.vmRoot vm) staging r q) w w')
    (hout : ∀ q, store.imagesDir <+: q ∨ store.vmsDir <+: q → ¬staging <+: q) {q : Path}
    (hq : Below (store.vmRoot vm) q) (hthere : w'.fs.node q ≠ none) :
    (∃ d ∈ m.disks, ∃ l ∈ d.2.layers store vm d.1, q <+: l.1) ∨
      ∃ r ∈ m.config, q = joinName (store.vmRoot vm) r.path := by
  have hstaging : ∀ p, q ≠ staging ++ p := fun p hc =>
    hout q (Or.inr ((List.prefix_append _ _).trans hq.1)) (hc ▸ List.prefix_append _ _)
  by_contra hc
  rw [not_or] at hc
  refine hthere ((hmoved q ?_).trans (hbare q hq))
  rintro (⟨d, hd, hdisk⟩ | ⟨r, hr, hconfig | hconfig⟩)
  · obtain ⟨r, hactive, -⟩ := (hm.disks d hd).active
    rcases hdisk with hway | ⟨hne, hway⟩ | ⟨l, hl, rfl⟩ | ⟨p, -, hp⟩
    · exact hc.1 ⟨d, hd, (store.diskFile vm d.1, r), List.mem_append_left _ (by simp [hactive]),
        hway.trans (List.prefix_append _ _)⟩
    · obtain ⟨s, hs⟩ := List.exists_mem_of_ne_nil _ hne
      exact hc.1 ⟨d, hd, (store.snapshotFile vm d.1 s.name, s.layer),
        List.mem_append_right _ (List.mem_map_of_mem hs), hway.trans (List.prefix_append _ _)⟩
    · exact hc.1 ⟨d, hd, l, hl, List.prefix_rfl⟩
    · exact hstaging p hp
  · exact hc.2 ⟨r, hr, hconfig⟩
  · exact hstaging _ hconfig

theorem onlyRecorded_of_moves (hm : m.Fits host F data)
    (hall : Reassembled F undamaged data store vm m w'.fs)
    (hbare : ∀ q, Below (store.vmRoot vm) q → w.fs.node q = none)
    (hmoved : Within (fun q => (∃ d ∈ m.disks, DiskMoves store vm staging d.1 d.2 q) ∨
      ∃ r ∈ m.config, EntryMoves (store.vmRoot vm) staging r q) w w')
    (hout : ∀ q, store.imagesDir <+: q ∨ store.vmsDir <+: q → ¬staging <+: q) :
    OnlyRecorded store vm m w'.fs := by
  have hdisks : ∀ rest, store.vmRoot vm ++ "disks" :: rest = store.disksDir vm ++ rest := fun rest => by
    simp [DiskStore.disksDir]
  have hsnaps : ∀ d rest, store.vmRoot vm ++ "snapshots" :: d :: rest =
      store.snapshotsDir vm d ++ rest := fun d rest => by
    simp [DiskStore.snapshotsDir]
  have hname : ∀ r ∈ m.config, ∃ n, joinName (store.vmRoot vm) r.path = store.vmRoot vm ++ [n] :=
    fun r hr => by
      obtain ⟨n, -, hjoin⟩ := (hm.config r hr).entry
      exact ⟨n, hjoin _⟩
  refine ⟨fun n hn => ?_, fun d hd n hn => ?_, fun n f hf => ?_⟩
  · rw [← hdisks] at hn
    rcases touched_of_moves hm hbare hmoved hout (below_append _ _ _) hn with
      ⟨d, hd, l, hl, hq⟩ | ⟨r, hr, hq⟩
    · rcases layer_file hl with he | ⟨s, -, he⟩
      · rw [he, hdisks] at hq
        have hsame := hq.eq_of_length (by simp [DiskStore.diskFile])
        exact ⟨d, hd, by simpa [DiskStore.diskFile] using hsame⟩
      · rw [he, DiskStore.snapshotFile, ← hsnaps] at hq
        exact absurd (entry_eq hq List.prefix_rfl) (by decide)
    · obtain ⟨n', hn'⟩ := hname r hr
      rw [hn'] at hq
      simp at hq
  · rw [← hsnaps] at hn
    rcases touched_of_moves hm hbare hmoved hout (below_append _ _ _) hn with
      ⟨d', hd', l, hl, hq⟩ | ⟨r, hr, hq⟩
    · rcases layer_file hl with he | ⟨s, hs, he⟩
      · rw [he, DiskStore.diskFile, ← hdisks] at hq
        exact absurd (entry_eq hq List.prefix_rfl) (by decide)
      · rw [he, hsnaps] at hq
        have hsame := hq.eq_of_length (by simp [DiskStore.snapshotFile, DiskStore.snapshotsDir])
        obtain ⟨-, hdisk, rfl⟩ := entry_eq_iff.mp hsame
        obtain rfl := List.inj_on_of_nodup_map hm.distinct hd hd' hdisk
        exact ⟨s, hs, rfl⟩
    · obtain ⟨n', hn'⟩ := hname r hr
      rw [hn'] at hq
      simp at hq
  · have hthere : w'.fs.node (store.vmRoot vm ++ [n]) ≠ none := by simp [hf]
    rcases touched_of_moves hm hbare hmoved hout (below_append _ n []) hthere with
      ⟨d, hd, l, hl, hq⟩ | ⟨r, hr, hq⟩
    · have hlen : store.vmRoot vm ++ [n] ≠ l.1 := by
        intro hc
        have hlen := congrArg List.length hc
        rcases layer_file hl with he | ⟨s, -, he⟩ <;> rw [he] at hlen <;>
          simp [DiskStore.diskFile, DiskStore.disksDir, DiskStore.snapshotFile,
            DiskStore.snapshotsDir] at hlen
      have hdir := w'.fs.isDir_of_below hq hlen (node_of_layerAt (hall.layers d hd l hl).layer)
      cases hdir.symm.trans hf
    · exact ⟨r, hr, hq.symm⟩

end

end VMForge.Storage
