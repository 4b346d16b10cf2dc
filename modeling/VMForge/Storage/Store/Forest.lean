import VMForge.Base.Ancestry
import VMForge.Storage.Store.Snapshots

namespace VMForge.Storage

open Exec

section

variable {β : Type} (F : Formats β) (store : DiskStore) (vm disk : String)

-- The backing pointer of the layer at `path` leads to `target`.
def Backs (fs : FileSystem β) (path target : Path) : Prop :=
  ∃ l format, F.layerAt fs (path, "qcow2") = some l ∧ l.backing = some (target, format)

-- The snapshots of a disk are a forest by their backing pointers, and every pointer of a snapshot
-- or of the active overlay leads to a file.
structure Forest (fs : FileSystem β) : Prop where
  snapshots : ∀ n target, Backs F fs (store.snapshotFile vm disk n) target →
    fs.isFile target = true
  active : ∀ target, Backs F fs (store.diskFile vm disk) target → fs.isFile target = true
  acyclic : ∀ n, ¬Relation.TransGen
    (fun n m => Backs F fs (store.snapshotFile vm disk n) (store.snapshotFile vm disk m)) n n

end

section

variable {β : Type} {F : Formats β} {host : Host β} {store : DiskStore} {vm disk : String}
  {w w' : World β} {snaps : List Snapshot}

-- A disk whose snapshots are a forest of layers.
structure Healthy (F : Formats β) (store : DiskStore) (fs : FileSystem β) (vm disk : String) :
    Prop where
  vm_valid : nameMatches vm = true
  disk_valid : nameMatches disk = true
  active : (F.layerAt fs (activeRef store vm disk)).isSome = true
  tidy : Tidy F store fs vm disk
  forest : Forest F store vm disk fs

theorem node_of_layerAt {fs : FileSystem β} {r : ImageRef}
    (h : (F.layerAt fs r).isSome = true) : fs.node r.1 ≠ none := by
  obtain ⟨l, hl⟩ := Option.isSome_iff_exists.mp h
  obtain ⟨b, hb, -⟩ := layerAt_eq_some.mp hl
  obtain ⟨m, hm⟩ := (FileSystem.blob_eq_some fs).mp hb
  rw [hm]
  exact fun h => by cases h

theorem mem_snapshotFileNames {fs : FileSystem β} {snapDir : Path} {m : String} :
    m ∈ DiskStore.snapshotFileNames fs snapDir ↔
      fs.node (snapDir ++ [m]) ≠ none ∧ Path.isQcow2Name m = true := by
  rw [DiskStore.snapshotFileNames]
  split
  · rw [List.mem_filter, FileSystem.mem_children]
  · rename_i hdir
    refine ⟨fun h => absurd h List.not_mem_nil, fun h => absurd ?_ hdir⟩
    rw [FileSystem.exists_iff, fs.parent _ _ h.1]
    exact fun h => by cases h

theorem snapshotFileNames_nodup {fs : FileSystem β} {snapDir : Path} :
    (DiskStore.snapshotFileNames fs snapDir).Nodup := by
  rw [DiskStore.snapshotFileNames]
  split
  · exact (fs.children_nodup snapDir).filter _
  · exact List.nodup_nil

-- A file that is listed is the layer of a snapshot.
theorem Tidy.file (h : Tidy F store w.fs vm disk) {m : String}
    (hm : m ∈ DiskStore.snapshotFileNames w.fs (store.snapshotsDir vm disk)) :
    ∃ n l, nameMatches n = true ∧ m = n ++ ".qcow2" ∧
      F.layerAt w.fs (snapRef store vm disk n) = some l := by
  obtain ⟨hnode, -⟩ := mem_snapshotFileNames.mp hm
  obtain ⟨n, hn, rfl⟩ := h.named m hnode
  obtain ⟨l, hl⟩ := Option.isSome_iff_exists.mp (h.layered n hnode)
  exact ⟨n, l, hn, rfl, hl⟩

theorem childrenOf_withChildren (snaps : List Snapshot) (n : String) :
    DiskStore.childrenOf (DiskStore.withChildren snaps) n = DiskStore.childrenOf snaps n := by
  unfold DiskStore.childrenOf DiskStore.withChildren
  rw [List.filter_map, List.map_map]
  rfl

theorem names_withChildren (snaps : List Snapshot) :
    (DiskStore.withChildren snaps).map Snapshot.name = snaps.map Snapshot.name := by
  unfold DiskStore.withChildren
  rw [List.map_map]
  rfl

theorem snapshotList_returns (hq : Describes F host.qemuImg) (hvm : nameMatches vm = true)
    (hdisk : nameMatches disk = true)
    (hactive : (F.layerAt w.fs (activeRef store vm disk)).isSome = true)
    (htidy : Tidy F store w.fs vm disk) :
    ∃ snaps, store.snapshotList host vm disk w = (.ok snaps, w) := by
  obtain ⟨l, hl⟩ := Option.isSome_iff_exists.mp hactive
  obtain ⟨inf, hinfo⟩ := info_returns hq hl
  have hentries : ∀ m ∈ DiskStore.snapshotFileNames w.fs (store.snapshotsDir vm disk),
      ∃ entry, store.snapshotEntry host vm disk
        (inf.backingFile.bind (DiskStore.nameIn (store.snapshotsDir vm disk))) m w =
          (.ok entry, w) := by
    intro m hm
    obtain ⟨n, l', hn, rfl, hl'⟩ := htidy.file hm
    obtain ⟨inf', hinfo'⟩ := info_returns hq hl'
    have hpath : store.snapshotsDir vm disk ++ [n ++ ".qcow2"] = store.snapshotFile vm disk n := rfl
    rw [DiskStore.snapshotEntry, hpath, bind_of_ok hinfo', bind_of_ok (backingName_run hvm hdisk _)]
    exact ⟨_, rfl⟩
  obtain ⟨entries, hrun⟩ := mapEach_quiet_returns hentries
  have hthere : w.fs.node (store.diskFile vm disk) ≠ none := node_of_layerAt hactive
  rw [DiskStore.snapshotList,
    bind_of_ok (store.requireDisk_eq_ok.mpr ⟨hvm, hdisk, rfl, hthere, rfl⟩),
    bind_of_ok (store.snapshotDir_eq_ok.mpr ⟨hvm, hdisk, rfl, rfl⟩), bind_of_ok hinfo,
    bind_of_ok (backingName_run hvm hdisk _), read_bind, bind_of_ok hrun]
  exact ⟨_, rfl⟩

-- The entry of a file says what its layer says.
theorem snapshotEntry_layer (hq : Describes F host.qemuImg) (hvm : nameMatches vm = true)
    (hdisk : nameMatches disk = true) (htidy : Tidy F store w.fs vm disk)
    {currentParent : Option String} {m : String} {entry : Snapshot}
    (hm : m ∈ DiskStore.snapshotFileNames w.fs (store.snapshotsDir vm disk))
    (h : store.snapshotEntry host vm disk currentParent m w = (.ok entry, w)) :
    nameMatches entry.name = true ∧ m = entry.name ++ ".qcow2" ∧
      entry.path = store.snapshotFile vm disk entry.name ∧
      (entry.current = true ↔ currentParent = some entry.name) ∧
      ∃ l, F.layerAt w.fs (snapRef store vm disk entry.name) = some l ∧
        entry.parent = l.backing.bind (fun r => DiskStore.nameIn (store.snapshotsDir vm disk) r.1) ∧
        entry.virtualSize = l.size := by
  obtain ⟨n, l, hn, rfl, hl⟩ := htidy.file hm
  obtain ⟨inf, hinfo, rfl⟩ := snapshotEntry_ok hvm hdisk h
  obtain ⟨hsize, hbacking⟩ := info_layer hq hl hinfo
  have hstem : Path.stem (n ++ ".qcow2") = n := Path.stem_append_qcow2 (nameMatches_ne_empty hn)
  rw [hstem]
  refine ⟨hn, rfl, rfl, ?_, l, hl, ?_, hsize⟩
  · rw [beq_iff_eq]
    exact eq_comm
  · rw [hbacking, Option.bind_map]
    rfl

theorem forall₂_mem_left {α γ : Type} {R : α → γ → Prop} {as : List α} {bs : List γ}
    (h : List.Forall₂ R as bs) {a : α} (ha : a ∈ as) : ∃ b ∈ bs, R a b := by
  obtain ⟨b, hb, hab⟩ := forall₂_mem_right (List.Forall₂.flip h) ha
  exact ⟨b, hb, hab⟩

theorem map_eq_of_forall₂ {α γ δ : Type} {R : α → γ → Prop} {f : α → δ} {g : γ → δ} {as : List α}
    {bs : List γ} (h : List.Forall₂ R as bs) (hR : ∀ a ∈ as, ∀ b, R a b → f a = g b) :
    as.map f = bs.map g := by
  induction h with
  | nil => rfl
  | @cons a b as bs hab _ ih =>
      rw [List.map_cons, List.map_cons, hR a List.mem_cons_self b hab,
        ih fun a' ha' => hR a' (List.mem_cons_of_mem _ ha')]

-- A listing is a listing of the layers.
theorem snapshotList_listed (hq : Describes F host.qemuImg) (htidy : Tidy F store w.fs vm disk)
    (h : store.snapshotList host vm disk w = (.ok snaps, w')) :
    w' = w ∧ Listed F store w.fs vm disk snaps := by
  obtain rfl := (snapshotList_quiet vm disk).eq_of_run h
  obtain ⟨hvm, hdisk, -, inf, entries, hinfo, hentries, rfl⟩ := snapshotList_ok h
  have hlayer := fun m hm entry hrun => @snapshotEntry_layer _ F host store vm disk w' hq hvm hdisk
    htidy (inf.backingFile.bind (DiskStore.nameIn (store.snapshotsDir vm disk))) m entry hm hrun
  have hnames : (DiskStore.snapshotFileNames w'.fs (store.snapshotsDir vm disk)).map id =
      entries.map fun entry => entry.name ++ ".qcow2" :=
    map_eq_of_forall₂ hentries fun m hm entry hrun => (hlayer m hm entry hrun).2.1
  rw [List.map_id] at hnames
  have hnodup : (entries.map Snapshot.name).Nodup := by
    have hfiles := @snapshotFileNames_nodup _ w'.fs (store.snapshotsDir vm disk)
    have hmap : entries.map (fun entry => entry.name ++ ".qcow2") =
        (entries.map Snapshot.name).map (· ++ ".qcow2") := by
      rw [List.map_map]
      rfl
    rw [hnames, hmap] at hfiles
    exact List.Nodup.of_map _ hfiles
  have hfold : entries.foldl DiskStore.insertSnapshot [] = entries :=
    DiskStore.foldl_insertSnapshot hnodup
  rw [hfold]
  have hsame : ∀ snap ∈ DiskStore.withChildren entries, ∃ entry ∈ entries, snap.name = entry.name ∧
      snap.path = entry.path ∧ snap.parent = entry.parent ∧ snap.current = entry.current ∧
      snap.virtualSize = entry.virtualSize := by
    intro snap hsnap
    obtain ⟨entry, hentry, rfl⟩ := List.mem_map.mp hsnap
    exact ⟨entry, hentry, rfl, rfl, rfl, rfl, rfl⟩
  refine ⟨rfl, ?_, ?_, ?_, ?_, ?_⟩
  · rw [names_withChildren]
    exact hnodup
  · intro n hn
    have hm : n ++ ".qcow2" ∈ DiskStore.snapshotFileNames w'.fs (store.snapshotsDir vm disk) :=
      mem_snapshotFileNames.mpr ⟨hn, Path.isQcow2Name_append n⟩
    obtain ⟨entry, hentry, hrun⟩ := forall₂_mem_left hentries hm
    refine ⟨_, List.mem_map_of_mem hentry, ?_⟩
    exact (append_qcow2_inj (hlayer _ hm entry hrun).2.1).symm
  · intro snap hsnap
    obtain ⟨entry, hentry, hname, hpath, hparent, -, hsize⟩ := hsame snap hsnap
    obtain ⟨m, hm, hrun⟩ := forall₂_mem_right hentries hentry
    obtain ⟨hvalid, -, hfile, -, hl⟩ := hlayer m hm entry hrun
    rw [hname, hpath, hparent, hsize]
    exact ⟨hvalid, hfile, hl⟩
  · intro l hl snap hsnap
    obtain ⟨entry, hentry, hname, -, -, hcurrent, -⟩ := hsame snap hsnap
    obtain ⟨m, hm, hrun⟩ := forall₂_mem_right hentries hentry
    obtain ⟨-, -, -, hcur, -⟩ := hlayer m hm entry hrun
    rw [hcurrent, hname, hcur, (info_layer hq hl hinfo).2, Option.bind_map]
    rfl
  · intro snap hsnap
    obtain ⟨entry, hentry, rfl⟩ := List.mem_map.mp hsnap
    rw [childrenOf_withChildren]

-- A file of the directory of the snapshots is the file of the snapshot it is named after.
theorem nameIn_file {fs : FileSystem β} (htidy : Tidy F store fs vm disk) {path : Path} {p : String}
    (hthere : fs.node path ≠ none)
    (h : DiskStore.nameIn (store.snapshotsDir vm disk) path = some p) :
    nameMatches p = true ∧ path = store.snapshotFile vm disk p := by
  unfold DiskStore.nameIn at h
  split at h
  · rename_i hin
    have hne : path ≠ [] := by
      rintro rfl
      exact absurd hin.1 (by simp [DiskStore.snapshotsDir])
    have hpath : path = store.snapshotsDir vm disk ++ [Path.name path] := by
      rw [← hin.1, Path.name, List.getLast?_eq_some_getLast hne]
      exact (List.dropLast_append_getLast hne).symm
    obtain ⟨n, hn, hname⟩ := htidy.named _ (hpath ▸ hthere)
    obtain rfl := Option.some.inj h
    rw [hname, Path.stem_append_qcow2 (nameMatches_ne_empty hn)]
    refine ⟨hn, ?_⟩
    rw [hpath, hname]
    rfl
  · cases h

-- The parent that a listing gives to a name.
def parentOf (snaps : List Snapshot) (n : String) : Option String :=
  (snaps.find? fun snap => snap.name = n).bind Snapshot.parent

theorem find_name {snap : Snapshot} (hnodup : (snaps.map Snapshot.name).Nodup) (hsnap : snap ∈ snaps) :
    (snaps.find? fun other => other.name = snap.name) = some snap := by
  induction snaps with
  | nil => cases hsnap
  | cons head rest ih =>
      rw [List.map_cons, List.nodup_cons] at hnodup
      obtain rfl | hmem := List.mem_cons.mp hsnap
      · rw [List.find?_cons_of_pos (by simp)]
      · have hne : head.name ≠ snap.name := fun heq =>
          hnodup.1 (heq ▸ List.mem_map_of_mem hmem)
        rw [List.find?_cons_of_neg (by simpa using hne)]
        exact ih hnodup.2 hmem

theorem parentOf_eq_some {n p : String} (hnodup : (snaps.map Snapshot.name).Nodup) :
    parentOf snaps n = some p ↔ ∃ snap ∈ snaps, snap.name = n ∧ snap.parent = some p := by
  unfold parentOf
  rw [Option.bind_eq_some_iff]
  constructor
  · rintro ⟨snap, hfind, hparent⟩
    exact ⟨snap, List.mem_of_find?_eq_some hfind, by simpa using List.find?_some hfind, hparent⟩
  · rintro ⟨snap, hsnap, rfl, hparent⟩
    exact ⟨snap, find_name hnodup hsnap, hparent⟩

namespace Listed

variable {fs : FileSystem β}

-- The parent of a snapshot backs it.
theorem backs (h : Listed F store fs vm disk snaps) (htidy : Tidy F store fs vm disk)
    (hforest : Forest F store vm disk fs) {snap : Snapshot} (hsnap : snap ∈ snaps) {p : String}
    (hparent : snap.parent = some p) :
    Backs F fs (store.snapshotFile vm disk snap.name) (store.snapshotFile vm disk p) ∧
      ∃ parent ∈ snaps, parent.name = p := by
  obtain ⟨-, -, l, hl, hbacking, -⟩ := h.sound snap hsnap
  rw [hbacking, Option.bind_eq_some_iff] at hparent
  obtain ⟨r, hr, hname⟩ := hparent
  have hbacks : Backs F fs (store.snapshotFile vm disk snap.name) r.1 := ⟨l, r.2, hl, hr⟩
  have hfile := hforest.snapshots snap.name r.1 hbacks
  have hthere : fs.node r.1 ≠ none := by
    obtain ⟨f, hf⟩ := (FileSystem.isFile_iff fs).mp hfile
    rw [hf]
    exact fun h => by cases h
  obtain ⟨-, hpath⟩ := nameIn_file htidy hthere hname
  rw [hpath] at hbacks hthere
  exact ⟨hbacks, h.complete p hthere⟩

-- The snapshots of a healthy disk are finitely many trees.
theorem wooded (h : Listed F store fs vm disk snaps) (htidy : Tidy F store fs vm disk)
    (hforest : Forest F store vm disk fs) :
    Ancestry.Wooded (parentOf snaps) (snaps.map Snapshot.name) where
  nodup := h.nodup
  closed := by
    intro n _ p hp
    obtain ⟨snap, hsnap, -, hparent⟩ := (parentOf_eq_some h.nodup).mp hp
    obtain ⟨-, parent, hmem, rfl⟩ := h.backs htidy hforest hsnap hparent
    exact List.mem_map_of_mem hmem
  acyclic := by
    intro n hn
    refine hforest.acyclic n (Relation.TransGen.mono (fun x p hp => ?_) n n hn)
    obtain ⟨snap, hsnap, rfl, hparent⟩ := (parentOf_eq_some h.nodup).mp hp
    exact (h.backs htidy hforest hsnap hparent).1

theorem mem_children (h : Listed F store fs vm disk snaps) {snap : Snapshot} (hsnap : snap ∈ snaps)
    {c : String} : c ∈ snap.children ↔ parentOf snaps c = some snap.name := by
  have hne := nameMatches_ne_empty (h.sound snap hsnap).1
  rw [h.children snap hsnap, parentOf_eq_some h.nodup]
  unfold DiskStore.childrenOf
  simp only [List.mem_map, List.mem_filter, decide_eq_true_eq, hne, ne_eq, not_false_eq_true,
    and_true]
  constructor
  · rintro ⟨child, ⟨hchild, hparent⟩, rfl⟩
    exact ⟨child, hchild, rfl, hparent⟩
  · rintro ⟨child, hchild, rfl, hparent⟩
    exact ⟨child, ⟨hchild, hparent⟩, rfl⟩

end Listed

end

end VMForge.Storage
