import VMForge.Storage.Memory.Lemmas
import VMForge.Storage.Restore.Complete
import VMForge.Storage.Restore.Portable
import VMForge.Storage.Store.Forest

namespace VMForge.Storage

open Exec

-- What the list of the snapshots says of one of them, wherever the VM is.
def Snapshot.outline (snap : Snapshot) : String × Option String × Bool × Nat :=
  (snap.name, snap.parent, snap.current, snap.virtualSize)

-- The VM `vm'` of one store is what `vm` is in another: it has the same disks with the same
-- snapshots, they all read the same, and so do the config files.
structure Alike {β : Type} (F : Formats β) (host : Host β) (store : DiskStore) (vm : String)
    (w : World β) (store' : DiskStore) (vm' : String) (w' : World β) : Prop where
  disks : diskNamesOf w'.fs (store'.disksDir vm') = diskNamesOf w.fs (store.disksDir vm)
  snapshots : ∀ disk ∈ diskNamesOf w.fs (store.disksDir vm), ∃ snaps snaps',
    store.snapshotList host vm disk w = (.ok snaps, w) ∧
    store'.snapshotList host vm' disk w' = (.ok snaps', w') ∧
    (snaps'.map Snapshot.outline).Perm (snaps.map Snapshot.outline)
  actives : ∀ disk ∈ diskNamesOf w.fs (store.disksDir vm), ∃ c,
    Resolves (F.layerAt w.fs) (activeRef store vm disk) c ∧
      Resolves (F.layerAt w'.fs) (activeRef store' vm' disk) c
  contents : ∀ disk ∈ diskNamesOf w.fs (store.disksDir vm), ∀ n,
    w.fs.node (store.snapshotFile vm disk n) ≠ none → ∃ c,
      Resolves (F.layerAt w.fs) (snapRef store vm disk n) c ∧
        Resolves (F.layerAt w'.fs) (snapRef store' vm' disk n) c
  config : ∀ n, w'.fs.blob (store'.vmRoot vm' ++ [n]) = w.fs.blob (store.vmRoot vm ++ [n])

-- The layers of a VM, and those of the VM that is put together from its bundle.
inductive Twin {β : Type} (F : Formats β) (store store' : DiskStore) (vm' : String)
    (fs : FileSystem β) (m : Manifest) (data : String → Option β) : ImageRef → ImageRef → Prop where
  | active {d r} (hd : d ∈ m.disks) (hr : d.2.active = some r) :
      Twin F store store' vm' fs m data (activeRef store m.vm d.1) (activeRef store' vm' d.1)
  | snapshot {d s} (hd : d ∈ m.disks) (hs : s ∈ d.2.snapshots) :
      Twin F store store' vm' fs m data (snapRef store m.vm d.1 s.name) (snapRef store' vm' d.1 s.name)
  | image {r q l} (hr : r ∈ m.images) (hl : F.layerAt fs (q, "qcow2") = some l)
      (hflat : l.backing = none) (hdata : data r.path = fs.blob q) :
      Twin F store store' vm' fs m data (q, "qcow2") (joinName store'.imagesDir r.path, "qcow2")

section

variable {β : Type} {F : Formats β} {undamaged : β → Prop} {host : Host β} {store store' : DiskStore}
  {vm' : String} {fs fs' : FileSystem β} {m : Manifest} {sources images : List (String × Path)}

-- The name of no snapshot is made of a base image, or of an image in the store.
theorem nameIn_base (hn : WellNamed store fs) {vm disk : String} {q : Path} (hthere : fs.node q ≠ none)
    (hne : ∀ n, q ≠ store.snapshotFile vm disk n) :
    DiskStore.nameIn (store.snapshotsDir vm disk) q = none := by
  rw [DiskStore.nameIn, if_neg]
  rintro ⟨hdir, -⟩
  have hq : q ≠ [] := by
    rintro rfl
    exact absurd hdir (by simp [DiskStore.snapshotsDir])
  have hpath : q = store.snapshotsDir vm disk ++ [Path.name q] := by
    rw [← hdir, Path.name, List.getLast?_eq_some_getLast hq]
    exact (List.dropLast_append_getLast hq).symm
  obtain ⟨n, -, hname⟩ := hn vm disk _ (hpath ▸ hthere)
  exact hne n (hpath.trans (by rw [hname]; rfl))

theorem nameIn_image {vm disk n : String} :
    DiskStore.nameIn (store.snapshotsDir vm disk) (store.imagesDir ++ [n]) = none := by
  rw [DiskStore.nameIn, if_neg]
  rintro ⟨hdir, -⟩
  rw [List.dropLast_concat] at hdir
  have hlen := congrArg List.length hdir
  simp [DiskStore.imagesDir, DiskStore.snapshotsDir, DiskStore.vmRoot, DiskStore.vmsDir] at hlen

-- What a layer is on, and what it is put on.
theorem onParent_alike (hm : m.Accounts host F store fs sources images) (hn : WellNamed store fs)
    {d : String × DiskEntry} (hd : d ∈ m.disks) {backing : Option ImageRef}
    {parent : Option ParentRef}
    (hknown : ∀ arc, parent = some (.image arc) → arc ∈ m.images.map FileRecord.path)
    (h : OnParent F store fs m.vm d.1 (d.2.snapshots.map SnapshotRecord.name) (archived fs sources)
      backing parent) :
    let backing' := (ParentRef.file store' vm' d.1 parent).map fun t => (t, "qcow2")
    Option.Rel (Twin F store store' vm' fs m (archived fs sources)) backing backing' ∧
      backing'.bind (fun r => DiskStore.nameIn (store'.snapshotsDir vm' d.1) r.1) =
        backing.bind (fun r => DiskStore.nameIn (store.snapshotsDir m.vm d.1) r.1) := by
  cases h with
  | flat => exact ⟨.none, rfl⟩
  | snapshot hn =>
      obtain ⟨s, hs, rfl⟩ := List.mem_map.mp hn
      have hne := nameMatches_ne_empty (hm.named_snapshot hd hs).1
      refine ⟨.some (.snapshot hd hs), ?_⟩
      simp only [ParentRef.file, Option.map_some, Option.bind_some, nameIn_snapshotFile hne]
  | @image q l hbase hne hl hflat hdata =>
      obtain ⟨r, hr, harc⟩ := List.mem_map.mp (hknown _ rfl)
      obtain ⟨b, hb, -⟩ := layerAt_eq_some.mp hl
      have hb : fs.blob q = some b := hb
      obtain ⟨mode, hnode⟩ := fs.blob_eq_some.mp hb
      refine ⟨?_, ?_⟩
      · rw [← harc] at hdata ⊢
        exact .some (.image hr hl hflat hdata)
      · simp only [ParentRef.file, Option.map_some, Option.bind_some,
          (BundlePath.image (isComponent_of_blob hb)).joinName, nameIn_image,
          nameIn_base hn (by simp [hnode]) hne]

-- A layer is rebuilt with what it holds, on what stands for its backing file.
theorem rebuilt_alike (hm : m.Accounts host F store fs sources images) (hn : WellNamed store fs)
    (hp : Portable F undamaged store fs m.vm) {d : String × DiskEntry} (hd : d ∈ m.disks)
    {p p' : Path} {r : LayerRecord} (hl : (p, r) ∈ d.2.layers store m.vm d.1)
    (hbuilt : Rebuilt F undamaged (archived fs sources) fs' r.file.path
      (ParentRef.file store' vm' d.1 r.parent) p')
    {l : Layer ImageRef} (hlayer : F.layerAt fs (p, "qcow2") = some l) :
    ∃ l', F.layerAt fs' (p', "qcow2") = some l' ∧ l'.size = l.size ∧ l'.data = l.data ∧
      Option.Rel (Twin F store store' vm' fs m (archived fs sources)) l.backing l'.backing ∧
      l'.backing.bind (fun r => DiskStore.nameIn (store'.snapshotsDir vm' d.1) r.1) =
        l.backing.bind (fun r => DiskStore.nameIn (store.snapshotsDir m.vm d.1) r.1) := by
  obtain ⟨b, b', x, mode, hb, hx, hnode, hx', -⟩ := hbuilt
  obtain ⟨-, hdata, -⟩ := hm.layer hd hl
  obtain ⟨b₀, hb₀, hdecode⟩ := layerAt_eq_some.mp hlayer
  obtain rfl := Option.some.inj (hb.symm.trans (hdata.trans hb₀))
  obtain rfl := Option.some.inj (hx.symm.trans hdecode)
  obtain ⟨y, hy, hon⟩ := hm.onParent hp hd hl
  obtain rfl := Option.some.inj (hlayer.symm.trans hy)
  exact ⟨_, layerAt_of_node hnode hx', rfl, rfl, onParent_alike hm hn hd (hm.known hd hl).2 hon⟩

theorem twin_alike (hm : m.Accounts host F store fs sources images) (hn : WellNamed store fs)
    (hp : Portable F undamaged store fs m.vm)
    (hall : Reassembled F undamaged (archived fs sources) store' vm' m fs') {r r' : ImageRef}
    {l : Layer ImageRef} (h : Twin F store store' vm' fs m (archived fs sources) r r')
    (hl : F.layerAt fs r = some l) :
    ∃ l', F.layerAt fs' r' = some l' ∧ l'.size = l.size ∧ l'.data = l.data ∧
      Option.Rel (Twin F store store' vm' fs m (archived fs sources)) l.backing l'.backing := by
  cases h with
  | @active d r hd hr =>
      have hmem : ∀ (store : DiskStore) vm, (store.diskFile vm d.1, r) ∈ d.2.layers store vm d.1 :=
        fun store vm => List.mem_append_left _ (by simp [hr])
      obtain ⟨l', hl', hsize, hdata, hrel, -⟩ :=
        rebuilt_alike hm hn hp hd (hmem _ _) (hall.layers d hd _ (hmem _ _)) hl
      exact ⟨l', hl', hsize, hdata, hrel⟩
  | @snapshot d s hd hs =>
      have hmem : ∀ (store : DiskStore) vm,
          (store.snapshotFile vm d.1 s.name, s.layer) ∈ d.2.layers store vm d.1 :=
        fun store vm => List.mem_append_right _ (List.mem_map_of_mem hs)
      obtain ⟨l', hl', hsize, hdata, hrel, -⟩ :=
        rebuilt_alike hm hn hp hd (hmem _ _) (hall.layers d hd _ (hmem _ _)) hl
      exact ⟨l', hl', hsize, hdata, hrel⟩
  | @image r q x hr hx hflat hdata =>
      obtain rfl := Option.some.inj (hl.symm.trans hx)
      obtain ⟨⟨b, mode⟩, hnode, hb⟩ := hall.images r hr
      obtain ⟨b', hb', hdecode⟩ := layerAt_eq_some.mp hx
      obtain rfl := Option.some.inj (hb.symm.trans (hdata.trans hb'))
      exact ⟨l, layerAt_of_node hnode hdecode, rfl, rfl, by rw [hflat]; exact .none⟩

-- So the layers of the VM read what they read.
theorem twin_resolves (hm : m.Accounts host F store fs sources images) (hn : WellNamed store fs)
    (hp : Portable F undamaged store fs m.vm)
    (hall : Reassembled F undamaged (archived fs sources) store' vm' m fs') {r r' : ImageRef}
    {c : Content} (h : Twin F store store' vm' fs m (archived fs sources) r r')
    (hc : Resolves (F.layerAt fs) r c) : Resolves (F.layerAt fs') r' c :=
  hc.transport (fun _ _ _ hr hl => twin_alike hm hn hp hall hr hl) h

section Restored

variable (hm : m.Accounts host F store fs sources images) (hn : WellNamed store fs)
  (hp : Portable F undamaged store fs m.vm)
  (hall : Reassembled F undamaged (archived fs sources) store' vm' m fs')
  (honly : OnlyRecorded store' vm' m fs')

include hm hall honly

theorem restored_disks : diskNamesOf fs' (store'.disksDir vm') = diskNamesOf fs (store.disksDir m.vm) := by
  have hmem : ∀ n, n ∈ diskNamesOf fs' (store'.disksDir vm') ↔ n ∈ m.disks.map Prod.fst := by
    intro n
    rw [mem_diskNamesOf]
    constructor
    · rintro ⟨file, hthere, -, rfl⟩
      obtain ⟨d, hd, rfl⟩ := honly.disks file hthere
      rw [Path.stem_append_qcow2 (nameMatches_ne_empty (hm.named_disk hd).1)]
      exact List.mem_map_of_mem hd
    · intro hn
      obtain ⟨d, hd, rfl⟩ := List.mem_map.mp hn
      obtain ⟨hnamed, r, hr, -⟩ := hm.named_disk hd
      have hbuilt := hall.layers d hd (store'.diskFile vm' d.1, r)
        (List.mem_append_left _ (by simp [hr]))
      exact ⟨d.1 ++ ".qcow2", node_of_layerAt hbuilt.layer, Path.isQcow2Name_append _,
        Path.stem_append_qcow2 (nameMatches_ne_empty hnamed)⟩
  have hnamed : ∀ n ∈ m.disks.map Prod.fst, nameMatches n = true := by
    intro n hn
    obtain ⟨d, hd, rfl⟩ := List.mem_map.mp hn
    exact (hm.named_disk hd).1
  refine List.Perm.eq_of_pairwise' (r := (· ≤ ·)) diskNamesOf_sorted diskNamesOf_sorted ?_
  refine (List.perm_ext_iff_of_nodup (diskNamesOf_nodup fun n hn => hnamed n ((hmem n).mp hn))
    (diskNamesOf_nodup fun n hn => hnamed n (hm.disks ▸ hn))).mpr fun n => ?_
  rw [hmem, hm.disks]

theorem restored_config (n : String) :
    fs'.blob (store'.vmRoot vm' ++ [n]) = fs.blob (store.vmRoot m.vm ++ [n]) := by
  have hplace : ∀ (r : FileRecord) n, r.path = configArc n → Path.isComponent n = true →
      joinName (store'.vmRoot vm') r.path = store'.vmRoot vm' ++ [n] := by
    intro r n hpath hn
    rw [hpath]
    exact (BundlePath.config hn).joinName _
  cases hb : fs.blob (store.vmRoot m.vm ++ [n]) with
  | some b =>
      obtain ⟨mode, hnode⟩ := fs.blob_eq_some.mp hb
      have hfile : configArc n ∈ m.config.map FileRecord.path := by
        rw [hm.recounts.config]
        refine List.mem_map_of_mem (List.mem_filter.mpr ⟨(FileSystem.mem_children _).mpr ?_, ?_⟩)
        · simp [hnode]
        · simp [FileSystem.isFile, hnode, Node.isDir]
      obtain ⟨r, hr, hpath⟩ := List.mem_map.mp hfile
      obtain ⟨n', b', hpath', hn', hb', hdata, -⟩ := hm.config_file hr
      obtain rfl : n = n' := (String.append_right_inj _).mp (hpath.symm.trans hpath')
      obtain ⟨⟨b'', mode'⟩, hf, hdata'⟩ := hall.config r hr
      rw [hplace r n hpath hn'] at hf
      obtain rfl := Option.some.inj (hdata.symm.trans hdata')
      rw [← hb, hb']
      exact fs'.blob_eq_some.mpr ⟨mode', hf⟩
  | none =>
      cases hb' : fs'.blob (store'.vmRoot vm' ++ [n]) with
      | none => rfl
      | some b' =>
          obtain ⟨mode, hnode⟩ := fs'.blob_eq_some.mp hb'
          obtain ⟨r, hr, hjoin⟩ := honly.config n _ hnode
          obtain ⟨n', b, hpath, hn', hblob, -⟩ := hm.config_file hr
          rw [hplace r n' hpath hn'] at hjoin
          obtain rfl : n' = n := by simpa using hjoin
          cases hb.symm.trans hblob

theorem restored_tidy {d : String × DiskEntry} (hd : d ∈ m.disks) : Tidy F store' fs' vm' d.1 := by
  have hnamed : ∀ file, fs'.node (store'.snapshotsDir vm' d.1 ++ [file]) ≠ none →
      ∃ s ∈ d.2.snapshots, file = s.name ++ ".qcow2" := honly.snapshots d hd
  refine ⟨fun file hthere => ?_, fun n hthere => ?_⟩
  · obtain ⟨s, hs, rfl⟩ := hnamed file hthere
    exact ⟨s.name, (hm.named_snapshot hd hs).1, rfl⟩
  · obtain ⟨s, hs, hname⟩ := hnamed _ hthere
    obtain rfl := append_qcow2_inj hname
    exact (hall.layers d hd (store'.snapshotFile vm' d.1 s.name, s.layer)
      (List.mem_append_right _ (List.mem_map_of_mem hs))).layer

omit hm hall honly in
include hn hp in
theorem portable_tidy {disk : String} (hdisk : disk ∈ diskNamesOf fs (store.disksDir m.vm)) :
    Tidy F store fs m.vm disk := by
  refine ⟨hn m.vm disk, fun n hthere => ?_⟩
  obtain ⟨c, hc⟩ := hp.chained disk hdisk _ (Or.inr ⟨n, rfl, hthere⟩)
  obtain ⟨l, hl⟩ := hc.layer_eq
  exact Option.isSome_of_eq_some hl

omit hall honly in
-- The snapshots that are recorded are those that are there.
theorem snapshot_there_iff {d : String × DiskEntry} (hd : d ∈ m.disks) (n : String) :
    fs.node (store.snapshotFile m.vm d.1 n) ≠ none ↔ ∃ s ∈ d.2.snapshots, s.name = n := by
  constructor
  · intro hthere
    obtain ⟨o, ho, hfile⟩ := (hm.outlined d hd).start _ (Or.inr ⟨n, rfl, hthere⟩)
    obtain ⟨l, hl, rfl⟩ := List.mem_map.mp ho
    have hfile : l.1 = store.snapshotFile m.vm d.1 n := hfile
    rcases layer_file hl with he | ⟨s, hs, he⟩
    · exact absurd (he.symm.trans hfile) (diskFile_ne_snapshotFile _ _ _ _ _)
    · exact ⟨s, hs, (snapshotFile_eq_iff.mp (he.symm.trans hfile)).2.2⟩
  · rintro ⟨s, hs, rfl⟩
    obtain ⟨-, -, ⟨b, hb⟩, -⟩ := hm.layer hd (l := (store.snapshotFile m.vm d.1 s.name, s.layer))
      (List.mem_append_right _ (List.mem_map_of_mem hs))
    obtain ⟨mode, hnode⟩ := fs.blob_eq_some.mp hb
    simp [hnode]

omit honly in
include hn hp in
-- A snapshot is listed as it was.
theorem outline_alike {d : String × DiskEntry} (hd : d ∈ m.disks) {snaps snaps' : List Snapshot}
    (h : Listed F store fs m.vm d.1 snaps) (h' : Listed F store' fs' vm' d.1 snaps')
    {s : SnapshotRecord} (hs : s ∈ d.2.snapshots) {snap snap' : Snapshot} (hsnap : snap ∈ snaps)
    (hsnap' : snap' ∈ snaps') (hname : snap.name = s.name) (hname' : snap'.name = s.name) :
    snap'.outline = snap.outline := by
  have hsnapshot : ∀ (store : DiskStore) vm,
      (store.snapshotFile vm d.1 s.name, s.layer) ∈ d.2.layers store vm d.1 :=
    fun store vm => List.mem_append_right _ (List.mem_map_of_mem hs)
  obtain ⟨-, r, hr, -⟩ := hm.named_disk hd
  have hactive : ∀ (store : DiskStore) vm, (store.diskFile vm d.1, r) ∈ d.2.layers store vm d.1 :=
    fun store vm => List.mem_append_left _ (by simp [hr])
  -- its layer
  obtain ⟨-, -, l, hl, hparent, hsize⟩ := h.sound snap hsnap
  obtain ⟨-, -, l', hl', hparent', hsize'⟩ := h'.sound snap' hsnap'
  rw [hname] at hl
  rw [hname'] at hl'
  obtain ⟨y, hy, hysize, -, -, hyparent⟩ := rebuilt_alike hm hn hp hd (hsnapshot _ _)
    (hall.layers d hd _ (hsnapshot _ _)) hl
  obtain rfl := Option.some.inj (hy.symm.trans hl')
  -- and the active overlay
  obtain ⟨x, hx, -⟩ := hm.onParent hp hd (hactive store m.vm)
  obtain ⟨x', hx', -, -, -, hxparent⟩ := rebuilt_alike hm hn hp hd (hactive _ _)
    (hall.layers d hd _ (hactive _ _)) hx
  have hcurrent : snap'.current = snap.current := by
    rw [Bool.eq_iff_iff, h'.current x' hx' snap' hsnap', h.current x hx snap hsnap, hxparent, hname,
      hname']
  rw [Snapshot.outline, Snapshot.outline, hname, hname', hparent, hparent', hyparent, hcurrent,
    hsize, hsize', hysize]

include hn hp in
theorem listed_alike {d : String × DiskEntry} (hd : d ∈ m.disks) {snaps snaps' : List Snapshot}
    (h : Listed F store fs m.vm d.1 snaps) (h' : Listed F store' fs' vm' d.1 snaps') :
    (snaps'.map Snapshot.outline).Perm (snaps.map Snapshot.outline) := by
  have hnodup : ∀ {l : List Snapshot}, (l.map Snapshot.name).Nodup →
      (l.map Snapshot.outline).Nodup := fun {l} hl =>
    List.Nodup.of_map Prod.fst (by rwa [List.map_map])
  have hthere : ∀ snap ∈ snaps, ∃ s ∈ d.2.snapshots, s.name = snap.name := by
    intro snap hsnap
    obtain ⟨-, -, l, hl, -⟩ := h.sound snap hsnap
    exact (snapshot_there_iff hm hd snap.name).mp (node_of_layerAt (Option.isSome_of_eq_some hl))
  have hthere' : ∀ snap' ∈ snaps', ∃ s ∈ d.2.snapshots, s.name = snap'.name := by
    intro snap' hsnap'
    obtain ⟨-, -, l', hl', -⟩ := h'.sound snap' hsnap'
    obtain ⟨s, hs, hname⟩ := honly.snapshots d hd _ (node_of_layerAt (Option.isSome_of_eq_some hl'))
    exact ⟨s, hs, (append_qcow2_inj hname).symm⟩
  refine (List.perm_ext_iff_of_nodup (hnodup h'.nodup) (hnodup h.nodup)).mpr fun o => ?_
  simp only [List.mem_map]
  constructor
  · rintro ⟨snap', hsnap', rfl⟩
    obtain ⟨s, hs, hname'⟩ := hthere' snap' hsnap'
    obtain ⟨snap, hsnap, hname⟩ := h.complete s.name ((snapshot_there_iff hm hd s.name).mpr ⟨s, hs, rfl⟩)
    exact ⟨snap, hsnap, (outline_alike hm hn hp hall hd h h' hs hsnap hsnap' hname hname'.symm).symm⟩
  · rintro ⟨snap, hsnap, rfl⟩
    obtain ⟨s, hs, hname⟩ := hthere snap hsnap
    have hbuilt := hall.layers d hd (store'.snapshotFile vm' d.1 s.name, s.layer)
      (List.mem_append_right _ (List.mem_map_of_mem hs))
    obtain ⟨snap', hsnap', hname'⟩ := h'.complete s.name (node_of_layerAt hbuilt.layer)
    exact ⟨snap', hsnap', outline_alike hm hn hp hall hd h h' hs hsnap hsnap' hname.symm hname'⟩

end Restored

theorem alike_of_restored {w w' : World β} (hq : Describes F host.qemuImg)
    (hvm : nameMatches m.vm = true) (hvm' : nameMatches vm' = true)
    (hm : m.Accounts host F store w.fs sources images) (hn : WellNamed store w.fs)
    (hp : Portable F undamaged store w.fs m.vm)
    (hall : Reassembled F undamaged (archived w.fs sources) store' vm' m w'.fs)
    (honly : OnlyRecorded store' vm' m w'.fs) : Alike F host store m.vm w store' vm' w' := by
  have hentry : ∀ disk ∈ diskNamesOf w.fs (store.disksDir m.vm), ∃ d ∈ m.disks, d.1 = disk :=
    fun disk hdisk => List.mem_map.mp (hm.disks ▸ hdisk)
  constructor
  case disks => exact restored_disks hm hall honly
  case config => exact restored_config hm hall honly
  case snapshots =>
    intro disk hdisk
    obtain ⟨d, hd, rfl⟩ := hentry disk hdisk
    obtain ⟨hnamed, r, hr, -⟩ := hm.named_disk hd
    have htidy := portable_tidy hn hp hdisk
    have htidy' := restored_tidy hm hall honly hd
    obtain ⟨c, hc⟩ := hp.chained d.1 hdisk _ (Or.inl rfl)
    obtain ⟨l, hl⟩ := hc.layer_eq
    obtain ⟨snaps, hsnaps⟩ := snapshotList_returns hq hvm hnamed (Option.isSome_of_eq_some hl) htidy
    obtain ⟨snaps', hsnaps'⟩ := snapshotList_returns hq hvm' hnamed
      (hall.layers d hd (store'.diskFile vm' d.1, r) (List.mem_append_left _ (by simp [hr]))).layer htidy'
    exact ⟨snaps, snaps', hsnaps, hsnaps', listed_alike hm hn hp hall honly hd
      (snapshotList_listed hq htidy hsnaps).2 (snapshotList_listed hq htidy' hsnaps').2⟩
  case actives =>
    intro disk hdisk
    obtain ⟨d, hd, rfl⟩ := hentry disk hdisk
    obtain ⟨-, r, hr, -⟩ := hm.named_disk hd
    obtain ⟨c, hc⟩ := hp.chained d.1 hdisk _ (Or.inl rfl)
    exact ⟨c, hc, twin_resolves hm hn hp hall (.active hd hr) hc⟩
  case contents =>
    intro disk hdisk n hthere
    obtain ⟨d, hd, rfl⟩ := hentry disk hdisk
    obtain ⟨s, hs, rfl⟩ := (snapshot_there_iff hm hd n).mp hthere
    obtain ⟨c, hc⟩ := hp.chained d.1 hdisk _ (Or.inr ⟨s.name, rfl, hthere⟩)
    exact ⟨c, hc, twin_resolves hm hn hp hall (.snapshot hd hs) hc⟩

end

theorem BundleOf.opens {β : Type} {host : Host β} {m : Manifest} {members : List (String × β)}
    (hm : BundleOf host m members) (htar : KeepsArchives host) (hjson : KeepsManifests host)
    {fs : FileSystem β} {path : Path} {compressed : Bool} {asVm : Option String}
    (hblob : fs.blob path = some (host.tarWrite compressed
      (("manifest.json", host.jsonDumps m.toJson) :: members)))
    (hname : nameMatches (restoredName asVm m.vm) = true) :
    Opens host path asVm fs (bundleArchive (host.jsonDumps m.toJson) members) m.toJson
      (restoredName asVm m.vm) := by
  obtain ⟨mode, hnode⟩ := fs.blob_eq_some.mp hblob
  refine ⟨⟨_, hnode, hm.tarOpen htar compressed⟩, ?_, targetName_toJson asVm m, hname⟩
  have hload : loadManifest host (bundleArchive (host.jsonDumps m.toJson) members) = .ok m.toJson := by
    rw [loadManifest, hm.openManifest]
    exact hjson m
  rw [Storage.readManifest, hload]
  rfl

-- A backup of a VM that can be moved is restored as the VM it was, in any store in which there is
-- room for it and no other image has the name of one of its base images.
theorem backup_restore_round_trip {β : Type} {F : Formats β} {undamaged : β → Prop} {host : Host β}
    (htar : KeepsArchives host) (hjson : KeepsManifests host)
    (hq : Faithful F undamaged host.qemuImg) {store store' : DiskStore} {vm : String}
    {bundlePath path : Path} {asVm : Option String} {force : Bool} {result : BackupResult}
    {w₀ w₁ w : World β} (hn : WellNamed store w₀.fs) (hp : Portable F undamaged store w₀.fs vm)
    (hbackup : backup host store vm bundlePath none w₀ = (.ok result, w₁))
    (hcopy : w.fs.blob path = w₁.fs.blob bundlePath)
    (hname : nameMatches (restoredName asVm vm) = true)
    (hfree : w.fs.node (store'.vmRoot (restoredName asVm vm)) = none)
    (hhome : Homely store' w.fs)
    (himages : ∀ q, BaseOf F store w₀.fs vm q → ∀ x,
      w.fs.node (store'.imagesDir ++ [Path.name q]) = some x →
        ∃ f, x = .file f ∧ w₀.fs.blob q = some f.blob) :
    ∃ r w', restore host store' path asVm force w = (.ok r, w') ∧
      Alike F host store vm w₀ store' (restoredName asVm vm) w' := by
  obtain ⟨m, sources, images, members, rfl, hvm, hm, hbundle, hdata, hblob⟩ :=
    backup_accounts hq.describes hn hbackup
  have hopen := hbundle.opens htar hjson (hcopy.trans hblob) hname
  obtain ⟨r, w', hrun, hall, honly⟩ := restore_run hq hopen (hm.fits hp) hbundle hdata hfree hhome
    (fun r hr x hx => by
      obtain ⟨q, l, hpath, hbase, hl, -, hq'⟩ := hm.base_image hp hr
      obtain ⟨b, hb, -⟩ := layerAt_eq_some.mp hl
      rw [hpath, (BundlePath.image (isComponent_of_blob hb)).joinName] at hx
      rw [hq']
      exact himages q hbase x hx)
    (fun d hd r hr b hb => by
      have hdisk : d.1 ∈ diskNamesOf w₀.fs (store.disksDir m.vm) := hm.disks ▸ List.mem_map_of_mem hd
      have hl : (store.diskFile m.vm d.1, r) ∈ d.2.layers store m.vm d.1 :=
        List.mem_append_left _ (by simp [hr])
      exact hp.sound d.1 hdisk b ((hm.layer hd hl).2.1.symm.trans hb))
    (fun fs hall d hd => by
      have hdisk : d.1 ∈ diskNamesOf w₀.fs (store.disksDir m.vm) := hm.disks ▸ List.mem_map_of_mem hd
      obtain ⟨-, r, hr, -⟩ := hm.named_disk hd
      obtain ⟨c, hc⟩ := hp.chained d.1 hdisk _ (Or.inl rfl)
      exact ⟨c, twin_resolves hm hn hp hall (.active hd hr) hc⟩)
  exact ⟨r, w', hrun, alike_of_restored hq.describes hvm hname hm hn hp hall honly⟩

-- The platform in memory.
theorem memory_faithful (cwd : Path) :
    Faithful memoryFormats (fun _ => True) (memoryHost cwd).qemuImg where
  describes := Memory.describes cwd
  repoints := Memory.repoints cwd
  returns := by
    intro w path backing b l hnode hl _
    have hblob := w.fs.blob_eq_some.mpr ⟨_, hnode⟩
    have hl : Blob.decode "qcow2" b = some l := hl
    change (Memory.exec w (.rebase path backing true)).failure = none
    cases b with
    | qcow2 size bytes backing' => simp [Memory.exec, hblob, Memory.ok]
    | text s => simp [Blob.decode] at hl
    | json v => cases hl
    | archive members => cases hl
  keeps := fun _ _ _ _ _ _ _ _ => trivial
  accepts := by
    intro w path b c _ _ hc
    refine ⟨⟨0, 0, 0⟩, ?_, rfl⟩
    change Memory.check w path = _
    rw [Memory.check, Memory.content_of_resolves hc]

-- The VM with two branches of snapshots, a second disk and a config file.
def movedDeeds : List (Deed Blob) :=
  branchedDeeds ++ [.call (.importDisk "/disk.img" "web" "data" none)]

def movedHome : World Blob :=
  let w := after (deed (memoryHost []) treeStore) freshHome movedDeeds
  ⟨w.fs.put ["srv", "vms", "web", "vm.json"] (Memory.plain (.text "cpus")), w.log⟩

theorem movedHome_named : WellNamed treeStore movedHome.fs := by
  have hrun : WellNamed treeStore (after (deed (memoryHost []) treeStore) freshHome movedDeeds).fs :=
    run_named freshHome_empty movedDeeds
  refine hrun.of_node fun q hq hthere => ?_
  have hne : q ≠ ["srv", "vms", "web", "vm.json"] := by
    rintro rfl
    exact absurd hq (@not_inSnapshots_of_vm treeStore "web" _ "vm.json" [] (by decide) List.prefix_rfl)
  exact FileSystem.put_node_of_ne _ hne ▸ hthere

theorem movedHome_disks : diskNamesOf movedHome.fs (treeStore.disksDir "web") = ["data", "root"] := by
  decide

theorem movedHome_layers {disk : String} (hdisk : disk ∈ ["data", "root"]) {p : Path}
    (h : Exported treeStore movedHome.fs "web" none disk p) :
    ∃ c, Resolves (memoryFormats.layerAt movedHome.fs) (p, "qcow2") c := by
  have hread : (Memory.content movedHome.fs (p, "qcow2")).isSome = true := by
    rcases h with rfl | ⟨n, rfl, hthere⟩
    · have hall : ∀ disk ∈ ["data", "root"], (Memory.content movedHome.fs
          (treeStore.diskFile "web" disk, "qcow2")).isSome = true := by
        decide
      exact hall disk hdisk
    · have hall : ∀ disk ∈ ["data", "root"], ∀ p ∈ movedHome.fs.listing,
          p.dropLast = treeStore.snapshotsDir "web" disk →
            (Memory.content movedHome.fs (p, "qcow2")).isSome = true := by
        decide
      exact hall disk hdisk _ (movedHome.fs.listed _ hthere) (List.dropLast_concat ..)
  obtain ⟨c, hc⟩ := Option.isSome_iff_exists.mp hread
  exact ⟨c, Memory.resolves_of_content hc⟩

theorem movedHome_backing {disk : String} (hdisk : disk ∈ ["data", "root"]) {p : Path}
    (h : Exported treeStore movedHome.fs "web" none disk p) {r : ImageRef}
    (hr : BackedBy (memoryFormats.layerAt movedHome.fs) (p, "qcow2") r) :
    r = (treeStore.snapshotFile "web" disk "s1", "qcow2") ∨ r = (imagePath "base", "qcow2") := by
  have hall : ∀ disk ∈ ["data", "root"], ∀ p ∈ movedHome.fs.listing,
      p = treeStore.diskFile "web" disk ∨ p.dropLast = treeStore.snapshotsDir "web" disk →
        ∀ r ∈ (memoryFormats.layerAt movedHome.fs (p, "qcow2")).bind Layer.backing,
          r = (treeStore.snapshotFile "web" disk "s1", "qcow2") ∨ r = (imagePath "base", "qcow2") := by
    decide
  obtain ⟨l, hl, hb⟩ := hr
  refine hall disk hdisk p (movedHome.fs.listed p ?_) ?_ r (by simp [hl, hb])
  · exact node_of_layerAt (Option.isSome_of_eq_some hl)
  · rcases h with rfl | ⟨n, rfl, -⟩
    · exact Or.inl rfl
    · exact Or.inr (List.dropLast_concat ..)

theorem movedHome_portable : Portable memoryFormats (fun _ => True) treeStore movedHome.fs "web" := by
  have hflat : ((memoryFormats.layerAt movedHome.fs (imagePath "base", "qcow2")).any fun l =>
      l.backing.isNone) = true := by
    decide
  refine ⟨fun disk hdisk p hp => ?_, fun disk hdisk p hp r hr => ?_, fun _ _ _ _ => trivial⟩
  · exact movedHome_layers (movedHome_disks ▸ hdisk) hp
  · rcases movedHome_backing (movedHome_disks ▸ hdisk) hp hr with rfl | rfl
    · exact ⟨rfl, Or.inl ⟨"s1", rfl⟩⟩
    · obtain ⟨l, hl, hb⟩ := (Option.any_eq_true _ _).mp hflat
      exact ⟨rfl, Or.inr ⟨l, hl, Option.isNone_iff_eq_none.mp hb⟩⟩

-- It is restored next to itself.
theorem backup_restore_round_trip_copy : ∃ r w',
    restore (memoryHost []) treeStore ["b.tar"] (some "copy") false
        (backup (memoryHost []) treeStore "web" ["b.tar"] none movedHome).2 = (.ok r, w') ∧
      Alike memoryFormats (memoryHost []) treeStore "web" movedHome treeStore "copy" w' := by
  obtain ⟨result, hbackup⟩ :=
    eq_ok_of_isOk (x := backup (memoryHost []) treeStore "web" ["b.tar"] none movedHome) (by decide)
  refine backup_restore_round_trip (fun _ _ _ => rfl) (fun _ => rfl) (memory_faithful []) movedHome_named
    movedHome_portable hbackup rfl (by decide) (by decide) ?_ ?_
  · have hdirs : ∀ q ∈ treeStore.imagesDir.inits ++ treeStore.vmsDir.inits,
        (backup (memoryHost []) treeStore "web" ["b.tar"] none movedHome).2.fs.isDir q = true := by
      decide
    intro q f hq hf
    have hdir := (FileSystem.isDir_iff _).mp (hdirs q (List.mem_append.mpr (by simpa using hq)))
    cases hdir.symm.trans hf
  · rintro q ⟨disk, hdisk, p, hp, hpoints, hne⟩ x hx
    obtain ⟨c, hc⟩ := movedHome_layers (movedHome_disks ▸ hdisk) hp
    obtain ⟨l, hl⟩ := hc.layer_eq
    obtain ⟨r, hr, rfl⟩ := Option.map_eq_some_iff.mp ((backingAt_of_layer hl).symm.trans hpoints)
    rcases movedHome_backing (movedHome_disks ▸ hdisk) hp ⟨l, hl, hr⟩ with rfl | rfl
    · exact absurd rfl (hne "s1")
    · -- the image is there already
      have hthere : (movedHome.fs.blob (imagePath "base")).isSome = true := by decide
      obtain ⟨b, hb⟩ := Option.isSome_iff_exists.mp hthere
      obtain ⟨mode, hnode⟩ := movedHome.fs.blob_eq_some.mp hb
      have hsame : (backup (memoryHost []) treeStore "web" ["b.tar"] none movedHome).2.fs.node
          (imagePath "base") = movedHome.fs.node (imagePath "base") := rfl
      exact ⟨_, Option.some.inj (hx.symm.trans (hsame.trans hnode)), hb⟩

end VMForge.Storage
