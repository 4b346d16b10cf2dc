import VMForge.Storage.Backup.Outline

namespace VMForge.Storage

open Exec

section

variable {β : Type} (F : Formats β) (store : DiskStore) (fs : FileSystem β) (m : Manifest)

-- The manifest records the member `arc'` as the parent of the member `arc`.
inductive Manifest.ParentOf (arc : String) : String → Prop where
  | snapshot {disk e l s} (he : (disk, e) ∈ m.disks) (hl : l ∈ e.layers store m.vm disk)
      (harc : l.2.file.path = arc) (hs : s ∈ e.snapshots)
      (hp : l.2.parent = some (.snapshot s.name)) : ParentOf arc s.layer.file.path
  | image {disk e l path} (he : (disk, e) ∈ m.disks) (hl : l ∈ e.layers store m.vm disk)
      (harc : l.2.file.path = arc) (hp : l.2.parent = some (.image path)) : ParentOf arc path

-- In the chain of a bundled layer the member `arc` takes the place of the file `p`.
inductive Manifest.StandsFor : String → Path → Prop where
  | layer {disk e l} (he : (disk, e) ∈ m.disks) (hl : l ∈ e.layers store m.vm disk) :
      StandsFor l.2.file.path l.1
  | parent {arc arc' p q} (h : StandsFor arc p) (hq : F.PointsTo fs p q)
      (hp : m.ParentOf store arc arc') : StandsFor arc' q

-- Every file that backing pointers lead to from a bundled layer is a member of the bundle, and
-- the parent of each is recorded.
structure SelfContained (members : List (String × β)) : Prop where
  held : ∀ arc p, m.StandsFor F store fs arc p → ∃ b, (arc, b) ∈ members ∧ fs.blob p = some b
  recorded : ∀ arc p q, m.StandsFor F store fs arc p → F.PointsTo fs p q →
    ∃ arc', m.ParentOf store arc arc'

-- Of the files under the layers of a VM that are exported, only snapshots of the same disk have a
-- backing file.
def FlatBases (vm : String) (snapshot : Option String) : Prop :=
  ∀ disk ∈ diskNamesOf fs (store.disksDir vm), ∀ p, Exported store fs vm snapshot disk p →
    ∀ q, Relation.TransGen (F.PointsTo fs) p q →
      (∃ n, q = store.snapshotFile vm disk n) ∨ F.backingAt fs q = none

-- What stands for what: a layer of a disk, or the file under one.
inductive TakesPlace (images : List (String × Path)) (disk : String) : String → Path → Prop where
  | layer {e l} (he : (disk, e) ∈ m.disks) (hl : l ∈ e.layers store m.vm disk) :
      TakesPlace images disk l.2.file.path l.1
  | base {e l q} (he : (disk, e) ∈ m.disks) (hl : l ∈ e.layers store m.vm disk)
      (hq : F.PointsTo fs l.1 q) (hout : ∀ n, q = store.snapshotFile m.vm disk n → fs.node q = none)
      (hi : getPath images (Path.name q) = some q) :
      TakesPlace images disk ("images/" ++ Path.name q) q

end

section

variable {β : Type} {F : Formats β} {host : Host β} {store : DiskStore} {fs : FileSystem β}
  {m : Manifest} {members : List (String × β)} {snapshot : Option String}
  {sources images : List (String × Path)}

-- There is nothing that pointers lead to from a bundled layer but what members stand for.
theorem SelfContained.reached (h : SelfContained F store fs m members) {disk : String} {e : DiskEntry}
    {l : Path × LayerRecord} (he : (disk, e) ∈ m.disks) (hl : l ∈ e.layers store m.vm disk) {q : Path}
    (hq : Relation.ReflTransGen (F.PointsTo fs) l.1 q) :
    ∃ arc b, m.StandsFor F store fs arc q ∧ (arc, b) ∈ members ∧ fs.blob q = some b := by
  have hstands : ∃ arc, m.StandsFor F store fs arc q := by
    induction hq with
    | refl => exact ⟨_, .layer he hl⟩
    | tail _ hstep ih =>
        obtain ⟨arc, harc⟩ := ih
        obtain ⟨arc', hparent⟩ := h.recorded _ _ _ harc hstep
        exact ⟨arc', .parent harc hstep hparent⟩
  obtain ⟨arc, harc⟩ := hstands
  obtain ⟨b, hb⟩ := h.held arc q harc
  exact ⟨arc, b, harc, hb⟩

section Outlines

variable (hout : ∀ d ∈ m.disks, Outlined F store fs m.vm snapshot ⟨sources, images⟩ d.1
  (d.2.snapshots.map SnapshotRecord.name) (d.2.outline store m.vm d.1))

include hout

theorem outlined_layer {disk : String} {e : DiskEntry} {l : Path × LayerRecord}
    (he : (disk, e) ∈ m.disks) (hl : l ∈ e.layers store m.vm disk) :
    LayerArc store m.vm disk l.2.file.path l.1 ∧ getPath sources l.2.file.path = some l.1 ∧
      Refers F store fs m.vm disk (e.snapshots.map SnapshotRecord.name) images l.1 l.2.parent :=
  (hout (disk, e) he).layers (l.1, l.2.file.path, l.2.parent) (List.mem_map_of_mem hl)

-- The parent of a layer is recorded where the layer has a backing file.
theorem layer_recorded {disk : String} {e : DiskEntry} {l : Path × LayerRecord}
    (he : (disk, e) ∈ m.disks) (hl : l ∈ e.layers store m.vm disk) {q : Path}
    (hq : F.PointsTo fs l.1 q) : ∃ arc, m.ParentOf store l.2.file.path arc := by
  obtain ⟨-, -, hrefers⟩ := outlined_layer hout he hl
  generalize hp : l.2.parent = parent at hrefers
  cases hrefers with
  | flat hflat => cases hflat.symm.trans hq
  | snapshot hn hb =>
      obtain ⟨s, hs, rfl⟩ := List.mem_map.mp hn
      exact ⟨_, .snapshot he hl rfl hs hp⟩
  | image hb hbase hi => exact ⟨_, .image he hl rfl hp⟩

-- No parent is recorded for an image.
theorem image_unrecorded {n arc : String} : ¬m.ParentOf store ("images/" ++ n) arc := by
  intro h
  cases h with
  | snapshot he hl harc => exact (outlined_layer hout he hl).1.ne_image harc
  | image he hl harc => exact (outlined_layer hout he hl).1.ne_image harc

-- The parent that is recorded stands for the backing file: a snapshot or an image.
theorem TakesPlace.parent {disk arc arc' : String} {p q : Path}
    (h : TakesPlace F store fs m images disk arc p) (hq : F.PointsTo fs p q)
    (hparent : m.ParentOf store arc arc') : TakesPlace F store fs m images disk arc' q ∧
      ((∃ n, q = store.snapshotFile m.vm disk n) ∨ ∃ n, arc' = "images/" ++ n) := by
  cases h with
  | base => exact absurd hparent (image_unrecorded hout)
  | @layer e l he hl =>
      have harc := (outlined_layer hout he hl).1
      cases hparent with
      | @snapshot disk' e' l' s he' hl' harc' hs hp =>
          obtain ⟨hunique, -, hrefers⟩ := outlined_layer hout he' hl'
          obtain ⟨rfl, hfile⟩ := (harc' ▸ hunique).unique harc
          rw [hp, hfile] at hrefers
          cases hrefers with
          | snapshot hn hb =>
              obtain rfl := Option.some.inj (hq.symm.trans hb)
              exact ⟨.layer (l := (store.snapshotFile m.vm disk' s.name, s.layer)) he'
                (List.mem_append_right _ (List.mem_map_of_mem hs)), Or.inl ⟨_, rfl⟩⟩
      | @image disk' e' l' path he' hl' harc' hp =>
          obtain ⟨hunique, -, hrefers⟩ := outlined_layer hout he' hl'
          obtain ⟨rfl, hfile⟩ := (harc' ▸ hunique).unique harc
          rw [hp, hfile] at hrefers
          cases hrefers with
          | image hb hbase hi =>
              obtain rfl := Option.some.inj (hq.symm.trans hb)
              exact ⟨.base he hl hb hbase hi, Or.inr ⟨_, rfl⟩⟩

theorem StandsFor.takesPlace {arc : String} {p : Path} (h : m.StandsFor F store fs arc p) :
    ∃ disk, TakesPlace F store fs m images disk arc p := by
  induction h with
  | layer he hl => exact ⟨_, .layer he hl⟩
  | parent _ hq hparent ih =>
      obtain ⟨disk, hs⟩ := ih
      exact ⟨disk, (hs.parent hout hq hparent).1⟩

theorem selfContained_iff
    (himages : ∀ n q, getPath images n = some q → getPath sources ("images/" ++ n) = some q)
    (hheld : ∀ arc p, getPath sources arc = some p → ∃ b, (arc, b) ∈ members ∧ fs.blob p = some b)
    (hdisks : m.disks.map Prod.fst = diskNamesOf fs (store.disksDir m.vm)) :
    SelfContained F store fs m members ↔ FlatBases F store fs m.vm snapshot := by
  constructor
  · intro h disk hdisk p hp q hq
    obtain ⟨⟨disk, e⟩, he, rfl⟩ := List.mem_map.mp (hdisks ▸ hdisk)
    obtain ⟨o, ho, rfl⟩ := (hout _ he).start p hp
    obtain ⟨l, hl, rfl⟩ := List.mem_map.mp ho
    -- what stands for the files along the chain belongs to this disk
    have hchain : ∀ x, Relation.ReflTransGen (F.PointsTo fs) l.1 x →
        ∃ arc, m.StandsFor F store fs arc x ∧ TakesPlace F store fs m images disk arc x := by
      intro x hx
      induction hx with
      | refl => exact ⟨_, .layer he hl, .layer he hl⟩
      | tail _ hstep ih =>
          obtain ⟨arc, hfor, hstands⟩ := ih
          obtain ⟨arc', hparent⟩ := h.recorded _ _ _ hfor hstep
          exact ⟨arc', .parent hfor hstep hparent, (hstands.parent hout hstep hparent).1⟩
    obtain ⟨c, hc, hstep⟩ := Relation.TransGen.tail'_iff.mp hq
    obtain ⟨arc, hfor, hstands⟩ := hchain c hc
    obtain ⟨arc', hparent⟩ := h.recorded _ _ _ hfor hstep
    rcases (hstands.parent hout hstep hparent).2 with hsnap | ⟨n, rfl⟩
    · exact Or.inl hsnap
    · right
      cases hb : F.backingAt fs q with
      | none => rfl
      | some next =>
          obtain ⟨_, himage⟩ := h.recorded _ _ _ (.parent hfor hstep hparent) hb
          exact absurd himage (image_unrecorded hout)
  · intro hflat
    refine ⟨fun arc p hfor => ?_, fun arc p q hfor hq => ?_⟩
    · obtain ⟨disk, hstands⟩ := StandsFor.takesPlace hout hfor
      cases hstands with
      | layer he hl => exact hheld _ _ (outlined_layer hout he hl).2.1
      | base he hl hb hbase hi => exact hheld _ _ (himages _ _ hi)
    · obtain ⟨disk, hstands⟩ := StandsFor.takesPlace hout hfor
      cases hstands with
      | layer he hl => exact layer_recorded hout he hl hq
      | @base e l _ he hl hb hbase hi =>
          obtain ⟨p₀, hp₀, hreached⟩ := (hout _ he).reached (l.1, l.2.file.path, l.2.parent)
            (List.mem_map_of_mem hl)
          have hdisk : disk ∈ diskNamesOf fs (store.disksDir m.vm) :=
            hdisks ▸ List.mem_map_of_mem he
          rcases hflat disk hdisk p₀ hp₀ p (.tail' hreached hb) with ⟨n, hn⟩ | hnone
          · obtain ⟨b, -, hblob⟩ := hheld _ _ (himages _ _ hi)
            obtain ⟨mode, hnode⟩ := fs.blob_eq_some.mp hblob
            cases (hbase n hn).symm.trans hnode
          · cases hnone.symm.trans hq

end Outlines

-- Every source is a member with the content it had when it was collected.
theorem addMembers_held {w t : World β} {p : Path} (hmk : mkdirs p w = (.ok (), t))
    (h : mapEach (sortedPaths sources) addMember t = (.ok members, t)) {arc : String} {src : Path}
    (hsrc : getPath sources arc = some src) : ∃ b, (arc, b) ∈ members ∧ w.fs.blob src = some b := by
  have hsorted := List.perm_insertionSort (fun a b : String × Path => a.1 ≤ b.1) sources
  obtain ⟨⟨name, b⟩, hmem, hadd⟩ := forall₂_mem_left (mapEach_quiet_ok addMember_quiet h)
    (hsorted.symm.subset (mem_of_getPath hsrc))
  obtain ⟨rfl, hblob⟩ := addMember_ok hadd
  refine ⟨b, hmem, ?_⟩
  obtain ⟨hmade, hother⟩ := mkdirs_ok hmk
  by_cases hdir : src <+: p
  · obtain ⟨mode, hnode⟩ := t.fs.blob_eq_some.mp hblob
    cases (hmade src hdir).symm.trans hnode
  · rwa [← FileSystem.blob_congr w.fs (hother src hdir)]

variable {w w' : World β} {vm : String} {bundlePath : Path} {result : BackupResult}

theorem backup_selfContained (hq : Describes F host.qemuImg) (hn : WellNamed store w.fs)
    (h : backup host store vm bundlePath snapshot w = (.ok result, w')) :
    ∃ m members, m.vm = vm ∧
      w'.fs.blob bundlePath = some (host.tarWrite (isCompressed bundlePath)
        (("manifest.json", host.jsonDumps m.toJson) :: members)) ∧
      (SelfContained F store w.fs m members ↔ FlatBases F store w.fs vm snapshot) := by
  obtain ⟨m, sources, t, members, -, -, hcollect, hmk, hmembers, hblob⟩ := backup_end h
  obtain ⟨-, rfl, -⟩ := collectVm_ok hcollect
  obtain ⟨hdisks, images, himages, hout⟩ := collectVm_outlined hq hn hcollect
  exact ⟨m, members, rfl, hblob,
    selfContained_iff hout (fun n q hi => (himages n q hi).1) (fun _ _ hsrc => addMembers_held hmk hmembers hsrc) hdisks⟩

-- In every state that the store reaches, a bundle carries all that its layers stand on exactly if no
-- base has a backing file.
theorem bundle_closed_iff (hq : Describes F host.qemuImg) (hempty : EmptyHome store w.fs)
    (deeds : List (Deed β))
    (h : backup host store vm bundlePath snapshot (after (deed host store) w deeds) =
      (.ok result, w')) :
    ∃ m members, m.vm = vm ∧
      w'.fs.blob bundlePath = some (host.tarWrite (isCompressed bundlePath)
        (("manifest.json", host.jsonDumps m.toJson) :: members)) ∧
      (SelfContained F store (after (deed host store) w deeds).fs m members ↔
        FlatBases F store (after (deed host store) w deeds).fs vm snapshot) :=
  backup_selfContained hq (run_named hempty deeds) h

end

-- An image, and a clone of it with two branches of snapshots.
def branchedDeeds : List (Deed Blob) :=
  [.call (.importImage "/disk.img" "base" none false), .call (.cloneDisk "base" "web" "root" none),
    .call (.snapshotCreate "web" "root" "s1"), .call (.snapshotCreate "web" "root" "s2"),
    .call (.snapshotRevert "web" "root" "s1")]

def branchedHome : World Blob := after (deed (memoryHost []) treeStore) freshHome branchedDeeds

theorem branched_points {p q : Path} (h : memoryFormats.PointsTo branchedHome.fs p q) :
    q = snapPath "s1" ∨ q = imagePath "base" := by
  have hall : ∀ p ∈ branchedHome.fs.listing, ∀ q ∈ memoryFormats.backingAt branchedHome.fs p,
      q = snapPath "s1" ∨ q = imagePath "base" := by
    decide
  refine hall p (branchedHome.fs.listed p fun hnone => ?_) q h
  simp [Formats.PointsTo, Formats.backingAt, FileSystem.blob, hnone] at h

theorem bundle_closed_branched : ∃ m members,
    (backup (memoryHost []) treeStore "web" ["b.tar"] none branchedHome).2.fs.blob ["b.tar"] =
        some ((memoryHost []).tarWrite false
          (("manifest.json", (memoryHost []).jsonDumps m.toJson) :: members)) ∧
      SelfContained memoryFormats treeStore branchedHome.fs m members := by
  obtain ⟨result, hbackup⟩ :=
    eq_ok_of_isOk (x := backup (memoryHost []) treeStore "web" ["b.tar"] none branchedHome) (by decide)
  obtain ⟨m, members, -, hblob, hiff⟩ :=
    bundle_closed_iff (Memory.describes []) freshHome_empty branchedDeeds hbackup
  refine ⟨m, members, hblob, hiff.mpr fun disk hdisk p _ q hq => ?_⟩
  have hnames : diskNamesOf branchedHome.fs (treeStore.disksDir "web") = ["root"] := by decide
  obtain rfl := List.mem_singleton.mp (hnames ▸ hdisk)
  obtain ⟨c, -, hstep⟩ := Relation.TransGen.tail'_iff.mp hq
  rcases branched_points hstep with rfl | rfl
  · exact Or.inl ⟨"s1", rfl⟩
  · exact Or.inr (by decide)

-- A clone of a disk that is itself a clone.
def twinDeeds : List (Deed Blob) :=
  [.call (.importImage "/disk.img" "base" none false), .call (.cloneDisk "base" "web" "root" none),
    .call (.cloneDisk "/srv/vms/web/disks/root.qcow2" "twin" "root" none)]

def twinHome : World Blob := after (deed (memoryHost []) treeStore) freshHome twinDeeds

-- The bundle of its VM has the disk it was cloned from, but not the image under that one.
theorem bundle_open : EmptyHome treeStore freshHome.fs ∧ ∃ result w' m members,
    backup (memoryHost []) treeStore "twin" ["b.tar"] none twinHome = (.ok result, w') ∧
      w'.fs.blob ["b.tar"] = some ((memoryHost []).tarWrite false
        (("manifest.json", (memoryHost []).jsonDumps m.toJson) :: members)) ∧
      ¬SelfContained memoryFormats treeStore twinHome.fs m members := by
  obtain ⟨result, hbackup⟩ :=
    eq_ok_of_isOk (x := backup (memoryHost []) treeStore "twin" ["b.tar"] none twinHome) (by decide)
  have hnamed : WellNamed treeStore twinHome.fs := run_named freshHome_empty twinDeeds
  obtain ⟨m, members, -, hblob, hiff⟩ :=
    backup_selfContained (Memory.describes []) hnamed hbackup
  refine ⟨freshHome_empty, result, _, m, members, hbackup, hblob, fun hclosed => ?_⟩
  rcases hiff.mp hclosed "root" (by decide) (treeStore.diskFile "twin" "root") (Or.inl rfl)
    (treeStore.diskFile "web" "root") (.single rfl) with ⟨n, hn⟩ | hnone
  · exact absurd hn diskFile_ne_entry
  · exact absurd hnone (by decide)

end VMForge.Storage
