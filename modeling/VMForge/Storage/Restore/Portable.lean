import VMForge.Storage.Backup.Closed
import VMForge.Storage.Backup.Records
import VMForge.Storage.Restore.Success

namespace VMForge.Storage

open Exec

section DiskNames

variable {β : Type} {fs : FileSystem β} {dir : Path} {n : String}

theorem mem_diskNamesOf : n ∈ diskNamesOf fs dir ↔
    ∃ m, fs.node (dir ++ [m]) ≠ none ∧ Path.isQcow2Name m = true ∧ Path.stem m = n := by
  rw [diskNamesOf]
  split
  · simp only [List.mem_insertionSort, List.mem_map, List.mem_filter, FileSystem.mem_children,
      and_assoc]
  · rename_i hdir
    refine ⟨fun h => absurd h List.not_mem_nil, fun ⟨m, hm, _⟩ => absurd ?_ hdir⟩
    rw [FileSystem.exists_iff, fs.parent _ _ hm]
    simp

theorem diskNamesOf_sorted : (diskNamesOf fs dir).Pairwise (· ≤ ·) := by
  rw [diskNamesOf]
  split
  · exact List.pairwise_insertionSort _ _
  · exact .nil

-- Disks that are properly named are listed once.
theorem diskNamesOf_nodup (h : ∀ n ∈ diskNamesOf fs dir, nameMatches n = true) :
    (diskNamesOf fs dir).Nodup := by
  have hall := h
  rw [diskNamesOf] at hall ⊢
  split
  · rename_i hdir
    rw [if_pos hdir] at hall
    refine (List.perm_insertionSort _ _).nodup_iff.mpr ?_
    refine (fs.children_nodup dir).filter _ |>.map_on fun a ha b hb hab => ?_
    have hname : ∀ m ∈ (fs.children dir).filter Path.isQcow2Name, m = Path.stem m ++ ".qcow2" := by
      intro m hm
      refine Path.eq_stem_append_of_isQcow2Name (List.mem_filter.mp hm).2 ?_
      rintro rfl
      exact absurd (hall _ ((List.mem_insertionSort _).mpr (List.mem_map_of_mem hm))) (by decide)
    rw [hname a ha, hname b hb, hab]
  · exact .nil

end DiskNames

-- A VM of which each layer is a qcow2 file on nothing, on a snapshot of its disk, or on a qcow2
-- image that is on nothing, and of which no disk is damaged.
structure Portable {β : Type} (F : Formats β) (undamaged : β → Prop) (store : DiskStore)
    (fs : FileSystem β) (vm : String) : Prop where
  chained : ∀ disk ∈ diskNamesOf fs (store.disksDir vm), ∀ p, Exported store fs vm none disk p →
    ∃ c, Resolves (F.layerAt fs) (p, "qcow2") c
  based : ∀ disk ∈ diskNamesOf fs (store.disksDir vm), ∀ p, Exported store fs vm none disk p →
    ∀ r, BackedBy (F.layerAt fs) (p, "qcow2") r → r.2 = "qcow2" ∧
      ((∃ n, r.1 = store.snapshotFile vm disk n) ∨ ∃ l, F.layerAt fs r = some l ∧ l.backing = none)
  sound : ∀ disk ∈ diskNamesOf fs (store.disksDir vm), ∀ b,
    fs.blob (store.diskFile vm disk) = some b → undamaged b

-- `q` is a base image of the VM.
def BaseOf {β : Type} (F : Formats β) (store : DiskStore) (fs : FileSystem β) (vm : String)
    (q : Path) : Prop :=
  ∃ disk ∈ diskNamesOf fs (store.disksDir vm), ∃ p, Exported store fs vm none disk p ∧
    F.PointsTo fs p q ∧ ∀ n, q ≠ store.snapshotFile vm disk n

-- The recorded parent of a layer of a VM and what the layer is on.
inductive OnParent {β : Type} (F : Formats β) (store : DiskStore) (fs : FileSystem β) (vm disk : String)
    (names : List String) (data : String → Option β) : Option ImageRef → Option ParentRef → Prop where
  | flat : OnParent F store fs vm disk names data none none
  | snapshot {n} (hn : n ∈ names) : OnParent F store fs vm disk names data
      (some (store.snapshotFile vm disk n, "qcow2")) (some (.snapshot n))
  | image {q l} (hbase : BaseOf F store fs vm q) (hne : ∀ n, q ≠ store.snapshotFile vm disk n) (hl : F.layerAt fs (q, "qcow2") = some l)
      (hflat : l.backing = none) (hdata : data ("images/" ++ Path.name q) = fs.blob q) :
      OnParent F store fs vm disk names data (some (q, "qcow2"))
        (some (.image ("images/" ++ Path.name q)))

section

variable {β : Type} {F : Formats β} {undamaged : β → Prop} {host : Host β} {store : DiskStore}
  {fs : FileSystem β} {vm disk : String} {names : List String} {data : String → Option β}
  {images : List (String × Path)} {p : Path} {parent : Option ParentRef}

theorem backingAt_of_layer {l : Layer ImageRef} (hl : F.layerAt fs (p, "qcow2") = some l) :
    F.backingAt fs p = l.backing.map Prod.fst := by
  obtain ⟨b, hb, hdecode⟩ := layerAt_eq_some.mp hl
  have hblob : fs.blob p = some b := hb
  simp [Formats.backingAt, hblob, F.probe_qcow2 b l hdecode, hdecode]

theorem Refers.onParent (hp : Portable F undamaged store fs vm)
    (hdisk : disk ∈ diskNamesOf fs (store.disksDir vm)) (hexp : Exported store fs vm none disk p)
    (hdata : ∀ n q, getPath images n = some q → data ("images/" ++ n) = fs.blob q)
    (h : Refers F store fs vm disk names images p parent) {l : Layer ImageRef}
    (hl : F.layerAt fs (p, "qcow2") = some l) :
    OnParent F store fs vm disk names data l.backing parent := by
  have hback := backingAt_of_layer hl
  cases hb : l.backing with
  | none =>
      rw [hb, Option.map_none] at hback
      cases h with
      | flat => exact .flat
      | snapshot _ h => cases hback.symm.trans h
      | image h => cases hback.symm.trans h
  | some r =>
      rw [hb, Option.map_some] at hback
      have hbacked : BackedBy (F.layerAt fs) (p, "qcow2") r := ⟨l, hl, hb⟩
      obtain ⟨q, format⟩ := r
      obtain ⟨rfl, hbase⟩ := hp.based disk hdisk p hexp _ hbacked
      cases h with
      | flat h => cases hback.symm.trans h
      | @snapshot n hn h =>
          obtain rfl : q = _ := Option.some.inj (hback.symm.trans h)
          exact .snapshot hn
      | @image q' h hout hi =>
          obtain rfl : q = q' := Option.some.inj (hback.symm.trans h)
          obtain ⟨c, hc⟩ := hp.chained disk hdisk p hexp
          obtain ⟨c', hc'⟩ := hc.backing hbacked
          obtain ⟨below, hbelow⟩ := hc'.layer_eq
          obtain ⟨b, hblob, -⟩ := layerAt_eq_some.mp hbelow
          have hne : ∀ n, q ≠ store.snapshotFile vm disk n := fun n hn => by
            obtain ⟨mode, hnode⟩ := fs.blob_eq_some.mp hblob
            cases (hout n hn).symm.trans hnode
          obtain ⟨n, hn⟩ | ⟨base, hbase, hflat⟩ := hbase
          · exact absurd hn (hne n)
          · exact .image ⟨disk, hdisk, p, hexp, h, hne⟩ hne hbase hflat (hdata _ _ hi)

end

-- What `backup` has collected of a VM.
structure Manifest.Accounts {β : Type} (host : Host β) (F : Formats β) (store : DiskStore)
    (fs : FileSystem β) (m : Manifest) (sources images : List (String × Path)) : Prop where
  disks : m.disks.map Prod.fst = diskNamesOf fs (store.disksDir m.vm)
  nonempty : diskNamesOf fs (store.disksDir m.vm) ≠ []
  outlined : ∀ d ∈ m.disks, Outlined F store fs m.vm none ⟨sources, images⟩ d.1
    (d.2.snapshots.map SnapshotRecord.name) (d.2.outline store m.vm d.1)
  images : ∀ n q, getPath images n = some q → getPath sources ("images/" ++ n) = some q ∧
    "images/" ++ n ∈ m.images.map FileRecord.path
  recounts : m.Recounts store fs sources
  collects : Collects host fs m sources

-- The file that is archived under a path.
def archived {β : Type} (fs : FileSystem β) (sources : List (String × Path)) (arc : String) :
    Option β :=
  (getPath sources arc).bind fs.blob

namespace Manifest.Accounts

variable {β : Type} {F : Formats β} {undamaged : β → Prop} {host : Host β} {store : DiskStore}
  {fs : FileSystem β} {m : Manifest} {sources images : List (String × Path)}
  {d : String × DiskEntry} {l : Path × LayerRecord} {r : FileRecord}

theorem archived_of_get {arc : String} {src : Path} (h : getPath sources arc = some src) :
    archived fs sources arc = fs.blob src := by
  rw [archived, h]
  rfl

theorem recorded (h : m.Accounts host F store fs sources images) (hr : r ∈ m.records) :
    ∃ src b, getPath sources r.path = some src ∧ fs.blob src = some b ∧
      archived fs sources r.path = some b ∧ r.sha256 = host.sha256 b := by
  obtain ⟨src, b, hsrc, hb, hsum, -⟩ := h.collects.records r hr
  exact ⟨src, b, hsrc, hb, (archived_of_get hsrc).trans hb, hsum⟩

-- A layer is archived from its file.
theorem layer (h : m.Accounts host F store fs sources images) (hd : d ∈ m.disks)
    (hl : l ∈ d.2.layers store m.vm d.1) :
    LayerArc store m.vm d.1 l.2.file.path l.1 ∧ archived fs sources l.2.file.path = fs.blob l.1 ∧
      (∃ b, fs.blob l.1 = some b) ∧ Exported store fs m.vm none d.1 l.1 := by
  obtain ⟨harc, hsrc, -⟩ := outlined_layer h.outlined (show (d.1, d.2) ∈ m.disks from hd) hl
  obtain ⟨src, b, hsrc', hb, -⟩ := h.recorded (record_of_layer hd hl)
  obtain rfl := Option.some.inj (hsrc.symm.trans hsrc')
  refine ⟨harc, archived_of_get hsrc, ⟨b, hb⟩, ?_⟩
  obtain ⟨mode, hnode⟩ := fs.blob_eq_some.mp hb
  rcases layer_file hl with he | ⟨s, -, he⟩
  · exact Or.inl he
  · exact Or.inr ⟨s.name, he, by simp [hnode]⟩

theorem named_disk (h : m.Accounts host F store fs sources images) (hd : d ∈ m.disks) :
    nameMatches d.1 = true ∧ ∃ r, d.2.active = some r ∧
      r.file.path = "disks/" ++ d.1 ++ ".qcow2" := by
  obtain ⟨o, ho, hfile⟩ := (h.outlined d hd).start _ (Or.inl rfl)
  obtain ⟨l, hl, rfl⟩ := List.mem_map.mp ho
  have hfile : l.1 = store.diskFile m.vm d.1 := hfile
  obtain ⟨harc, -⟩ := h.layer hd hl
  rcases List.mem_append.mp hl with hl | hl
  · obtain ⟨r, hr, rfl⟩ := List.mem_map.mp hl
    generalize harc' : (store.diskFile m.vm d.1, r).2.file.path = arc at harc
    generalize hp : (store.diskFile m.vm d.1, r).1 = p at harc
    cases harc with
    | active hdisk => exact ⟨hdisk, r, Option.mem_toList.mp hr, harc'⟩
    | snapshot hdisk hn => exact absurd hp (diskFile_ne_snapshotFile _ _ _ _ _)
  · obtain ⟨s, -, rfl⟩ := List.mem_map.mp hl
    exact absurd hfile.symm (diskFile_ne_snapshotFile _ _ _ _ _)

theorem named_snapshot (h : m.Accounts host F store fs sources images) (hd : d ∈ m.disks)
    {s : SnapshotRecord} (hs : s ∈ d.2.snapshots) : nameMatches s.name = true ∧
      s.layer.file.path = "snapshots/" ++ d.1 ++ "/" ++ s.name ++ ".qcow2" := by
  have hl : (store.snapshotFile m.vm d.1 s.name, s.layer) ∈ d.2.layers store m.vm d.1 :=
    List.mem_append_right _ (List.mem_map_of_mem hs)
  obtain ⟨harc, -⟩ := h.layer hd hl
  generalize harc' : s.layer.file.path = arc at harc
  generalize hp : store.snapshotFile m.vm d.1 s.name = p at harc
  cases harc with
  | active hdisk => exact absurd hp.symm (diskFile_ne_snapshotFile _ _ _ _ _)
  | snapshot hdisk hn =>
      obtain ⟨-, -, rfl⟩ := snapshotFile_eq_iff.mp hp
      exact ⟨hn, rfl⟩

theorem onParent (h : m.Accounts host F store fs sources images)
    (hp : Portable F undamaged store fs m.vm) (hd : d ∈ m.disks)
    (hl : l ∈ d.2.layers store m.vm d.1) : ∃ x, F.layerAt fs (l.1, "qcow2") = some x ∧
      OnParent F store fs m.vm d.1 (d.2.snapshots.map SnapshotRecord.name) (archived fs sources)
        x.backing l.2.parent := by
  have hdisk : d.1 ∈ diskNamesOf fs (store.disksDir m.vm) := h.disks ▸ List.mem_map_of_mem hd
  obtain ⟨-, -, -, hexp⟩ := h.layer hd hl
  obtain ⟨c, hc⟩ := hp.chained d.1 hdisk l.1 hexp
  obtain ⟨x, hx⟩ := hc.layer_eq
  obtain ⟨-, -, hrefers⟩ := outlined_layer h.outlined (show (d.1, d.2) ∈ m.disks from hd) hl
  exact ⟨x, hx, hrefers.onParent hp hdisk hexp (fun n q hi => archived_of_get (h.images n q hi).1) hx⟩

-- The parents of the layers are in the bundle.
theorem known (h : m.Accounts host F store fs sources images) (hd : d ∈ m.disks)
    (hl : l ∈ d.2.layers store m.vm d.1) :
    (∀ n, l.2.parent = some (.snapshot n) → n ∈ d.2.snapshots.map SnapshotRecord.name) ∧
      ∀ arc, l.2.parent = some (.image arc) → arc ∈ m.images.map FileRecord.path := by
  obtain ⟨-, -, hrefers⟩ := outlined_layer h.outlined (show (d.1, d.2) ∈ m.disks from hd) hl
  generalize l.2.parent = parent at hrefers
  constructor
  · rintro n rfl
    cases hrefers with
    | snapshot hn => exact hn
  · rintro arc rfl
    cases hrefers with
    | image _ _ hi => exact (h.images _ _ hi).2

theorem named_parent (h : m.Accounts host F store fs sources images)
    (hp : Portable F undamaged store fs m.vm) (hd : d ∈ m.disks)
    (hl : l ∈ d.2.layers store m.vm d.1) : ParentRef.Named l.2.parent := by
  obtain ⟨x, -, hon⟩ := h.onParent hp hd hl
  generalize l.2.parent = parent at hon
  generalize x.backing = backing at hon
  cases hon with
  | flat => exact .root
  | snapshot hn =>
      obtain ⟨s, hs, rfl⟩ := List.mem_map.mp hn
      exact .snapshot (h.named_snapshot hd hs).1
  | image _ _ hl =>
      obtain ⟨b, hb, -⟩ := layerAt_eq_some.mp hl
      exact .image (isComponent_of_blob hb)

theorem decoded (h : m.Accounts host F store fs sources images)
    (hp : Portable F undamaged store fs m.vm) (hd : d ∈ m.disks)
    (hl : l ∈ d.2.layers store m.vm d.1) : ∃ b x,
      archived fs sources l.2.file.path = some b ∧ F.decode "qcow2" b = some x := by
  obtain ⟨x, hx, -⟩ := h.onParent hp hd hl
  obtain ⟨b, hb, hdecode⟩ := layerAt_eq_some.mp hx
  exact ⟨b, x, (h.layer hd hl).2.1.trans hb, hdecode⟩

theorem fits_disk (h : m.Accounts host F store fs sources images)
    (hp : Portable F undamaged store fs m.vm) (hd : d ∈ m.disks) :
    d.2.Fits F (archived fs sources) (m.images.map FileRecord.path) d.1 := by
  obtain ⟨hnamed, r, hr, hpath⟩ := h.named_disk hd
  have hactive : (store.diskFile m.vm d.1, r) ∈ d.2.layers store m.vm d.1 :=
    List.mem_append_left _ (by simp [hr])
  have hsnap : ∀ s ∈ d.2.snapshots,
      (store.snapshotFile m.vm d.1 s.name, s.layer) ∈ d.2.layers store m.vm d.1 := fun s hs =>
    List.mem_append_right _ (List.mem_map_of_mem hs)
  refine ⟨hnamed, (h.outlined d hd).distinct, fun s hs => ?_, ⟨r, hr, hpath, h.decoded hp hd hactive,
    h.named_parent hp hd hactive⟩, fun r' hr' => ?_⟩
  · obtain ⟨hname, hpath'⟩ := h.named_snapshot hd hs
    exact ⟨hname, hpath', h.decoded hp hd (hsnap s hs), h.named_parent hp hd (hsnap s hs)⟩
  · rcases List.mem_append.mp hr' with hr' | hr'
    · rw [hr, Option.toList_some, List.mem_singleton] at hr'
      exact hr' ▸ h.known hd hactive
    · obtain ⟨s, hs, rfl⟩ := List.mem_map.mp hr'
      exact h.known hd (hsnap s hs)

-- An image is the base of a layer.
theorem base_image (h : m.Accounts host F store fs sources images)
    (hp : Portable F undamaged store fs m.vm) (hr : r ∈ m.images) :
    ∃ q x, r.path = "images/" ++ Path.name q ∧ BaseOf F store fs m.vm q ∧
      F.layerAt fs (q, "qcow2") = some x ∧ x.backing = none ∧
      archived fs sources r.path = fs.blob q := by
  obtain ⟨d, hd, l, hl, hparent⟩ := h.recounts.used r hr
  obtain ⟨x, -, hon⟩ := h.onParent hp hd hl
  rw [hparent] at hon
  generalize harc : r.path = arc at hon
  generalize x.backing = backing at hon
  cases hon with
  | image hbase _ hl hflat hdata => exact ⟨_, _, rfl, hbase, hl, hflat, hdata⟩

theorem fits_image (h : m.Accounts host F store fs sources images)
    (hp : Portable F undamaged store fs m.vm) (hr : r ∈ m.images) :
    r.Fits host (archived fs sources) "images" := by
  obtain ⟨q, x, hpath, -, hl, -, -⟩ := h.base_image hp hr
  obtain ⟨-, b, -, -, hdata, hsum⟩ := h.recorded (r := r) (by simp [Manifest.records, hr])
  obtain ⟨b', hb', -⟩ := layerAt_eq_some.mp hl
  exact ⟨⟨Path.name q, by rw [hpath]; exact .image (isComponent_of_blob hb')⟩, b, hdata, hsum⟩

theorem config_file (h : m.Accounts host F store fs sources images) (hr : r ∈ m.config) :
    ∃ n b, r.path = configArc n ∧ Path.isComponent n = true ∧
      fs.blob (store.vmRoot m.vm ++ [n]) = some b ∧ archived fs sources r.path = some b ∧
      r.sha256 = host.sha256 b := by
  have hr' : r.path ∈ m.config.map FileRecord.path := List.mem_map_of_mem hr
  rw [h.recounts.config] at hr'
  obtain ⟨n, hn, hpath⟩ := List.mem_map.mp hr'
  obtain ⟨src, b, hsrc, hb, hdata, hsum⟩ := h.recorded (r := r) (by simp [Manifest.records, hr])
  have hfile := h.recounts.files n (List.mem_filter.mp hn).2
  rw [hpath] at hfile
  obtain rfl := Option.some.inj (hfile.symm.trans hsrc)
  have hname := isComponent_of_blob hb
  rw [Path.name_concat] at hname
  exact ⟨n, b, hpath.symm, hname, hb, hdata, hsum⟩

theorem fits (h : m.Accounts host F store fs sources images)
    (hp : Portable F undamaged store fs m.vm) : m.Fits host F (archived fs sources) := by
  have hnames : ∀ n ∈ diskNamesOf fs (store.disksDir m.vm), nameMatches n = true := by
    intro n hn
    obtain ⟨d, hd, rfl⟩ := List.mem_map.mp (h.disks ▸ hn)
    exact (h.named_disk hd).1
  constructor
  case sorted => exact h.disks ▸ diskNamesOf_sorted
  case distinct => exact h.disks ▸ diskNamesOf_nodup hnames
  case nonempty =>
    intro hnil
    exact h.nonempty (h.disks ▸ by simp [hnil])
  case disks => exact fun d hd => h.fits_disk hp hd
  case images => exact fun r hr => h.fits_image hp hr
  case imagePaths => exact h.recounts.images
  case bases =>
    intro r hr b hb
    obtain ⟨q, x, -, -, hx, -, hdata⟩ := h.base_image hp hr
    obtain ⟨b', hb', hdecode⟩ := layerAt_eq_some.mp hx
    obtain rfl := Option.some.inj (hb.symm.trans (hdata.trans hb'))
    exact ⟨x, hdecode⟩
  case config =>
    intro r hr
    obtain ⟨n, b, hpath, hn, -, hdata, hsum⟩ := h.config_file hr
    exact ⟨⟨n, by rw [hpath]; exact .config hn⟩, b, hdata, hsum⟩
  case configPaths =>
    rw [h.recounts.config]
    exact ((fs.children_nodup _).filter _).map fun n m he => (String.append_right_inj _).mp he
  case apart =>
    intro r hr n hn
    obtain ⟨n', b, hpath, hn', hb, -⟩ := h.config_file hr
    have hparts : Path.parts r.path = ["config", n'] := hpath ▸ (BundlePath.config hn').parts
    obtain rfl : n' = n := by simpa [hparts] using hn
    -- what a layer lies below is no file
    have hdir : ∀ d ∈ m.disks, ∀ l ∈ d.2.layers store m.vm d.1,
        ¬Below (store.vmRoot m.vm ++ [n']) l.1 := by
      intro d hd l hl hbelow
      obtain ⟨mode, hnode⟩ := fs.blob_eq_some.mp hb
      obtain ⟨-, -, ⟨b', hb'⟩, -⟩ := h.layer hd hl
      obtain ⟨mode', hnode'⟩ := fs.blob_eq_some.mp hb'
      cases (fs.isDir_of_below hbelow.1 hbelow.2.symm (by simp [hnode'])).symm.trans hnode
    constructor
    · rintro rfl
      obtain ⟨n, hn⟩ := List.exists_mem_of_ne_nil _ h.nonempty
      obtain ⟨d, hd, rfl⟩ := List.mem_map.mp (h.disks ▸ hn)
      obtain ⟨-, r, hr, -⟩ := h.named_disk hd
      refine hdir d hd (store.diskFile m.vm d.1, r) (List.mem_append_left _ (by simp [hr])) ?_
      exact below_append (store.disksDir m.vm) _ []
    · rintro d hd hne rfl
      obtain ⟨s, hs⟩ := List.exists_mem_of_ne_nil _ hne
      refine hdir d hd _ (List.mem_append_right _ (List.mem_map_of_mem hs)) ?_
      have hfile : store.snapshotFile m.vm d.1 s.name =
          store.vmRoot m.vm ++ ["snapshots"] ++ d.1 :: [s.name ++ ".qcow2"] := by
        simp [DiskStore.snapshotFile, DiskStore.snapshotsDir]
      rw [hfile]
      exact below_append _ _ _

end Manifest.Accounts

-- The bundle of a backup that returned.
theorem backup_accounts {β : Type} {F : Formats β} {host : Host β} {store : DiskStore} {vm : String}
    {bundlePath : Path} {result : BackupResult} {w w' : World β} (hq : Describes F host.qemuImg)
    (hn : WellNamed store w.fs)
    (h : backup host store vm bundlePath none w = (.ok result, w')) :
    ∃ m sources images members, m.vm = vm ∧ nameMatches vm = true ∧
      m.Accounts host F store w.fs sources images ∧
      BundleOf host m members ∧
      (∀ arc b, (arc, b) ∈ members → archived w.fs sources arc = some b) ∧
      w'.fs.blob bundlePath = some (host.tarWrite (isCompressed bundlePath)
        (("manifest.json", host.jsonDumps m.toJson) :: members)) := by
  obtain ⟨m, sources, t, members, hvm, hnames, hcollect, hmk, hmembers, hblob⟩ := backup_end h
  obtain ⟨-, rfl, hcollects⟩ := collectVm_ok hcollect
  obtain ⟨hdisks, images, himages, hout⟩ := collectVm_outlined hq hn hcollect
  obtain ⟨-, hbundle⟩ := addMembers_ok hcollects (fun _ _ hq => mkdirs_blob hmk hq) hmembers
  refine ⟨m, sources, images, members, rfl, hvm,
    ⟨hdisks, hnames, hout, himages, collectVm_recounts hcollect, hcollects⟩, hbundle,
    fun arc b hmem => ?_, hblob⟩
  obtain ⟨s, hs, hadd⟩ := forall₂_mem_right (mapEach_quiet_ok addMember_quiet hmembers) hmem
  obtain ⟨rfl, -⟩ := addMember_ok hadd
  have hget := getPath_of_mem hcollects.nodup ((List.perm_insertionSort _ _).subset hs)
  obtain ⟨b', hmem', hb'⟩ := addMembers_held hmk hmembers hget
  have hsame := List.inj_on_of_nodup_map hbundle.nodup hmem hmem' rfl
  rw [Manifest.Accounts.archived_of_get hget, hb', (Prod.mk.inj hsame).2]

end VMForge.Storage
