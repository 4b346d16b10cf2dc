import VMForge.Storage.Backup.Lemmas
import VMForge.Storage.Store.Named
import VMForge.Storage.Store.Places

namespace VMForge.Storage

open Exec

section

variable {β : Type} (F : Formats β) (store : DiskStore)

-- The backing file of an image, as qemu-img takes the image.
def Formats.backingAt (fs : FileSystem β) (p : Path) : Option Path :=
  (fs.blob p).bind fun b => ((F.decode (F.probe b) b).bind Layer.backing).map Prod.fst

-- From an image to its backing file.
def Formats.PointsTo (fs : FileSystem β) (p q : Path) : Prop := F.backingAt fs p = some q

-- The first layers of a disk that a backup takes: everything the disk has, or a snapshot.
def Exported (fs : FileSystem β) (vm : String) (snapshot : Option String) (disk : String)
    (p : Path) : Prop :=
  match snapshot with
  | none => p = store.diskFile vm disk ∨ ∃ n, p = store.snapshotFile vm disk n ∧ fs.node p ≠ none
  | some n => p = store.snapshotFile vm disk n

-- What is recorded as the parent of the layer in the file `p`, when the snapshots `names` are
-- exported and `images` are the images taken along.
inductive Refers (fs : FileSystem β) (vm disk : String) (names : List String)
    (images : List (String × Path)) (p : Path) : Option ParentRef → Prop where
  | flat (h : F.backingAt fs p = none) : Refers fs vm disk names images p none
  | snapshot {n} (hn : n ∈ names) (h : F.backingAt fs p = some (store.snapshotFile vm disk n)) :
      Refers fs vm disk names images p (some (.snapshot n))
  | image {q} (h : F.backingAt fs p = some q)
      (hout : ∀ n, q = store.snapshotFile vm disk n → fs.node q = none)
      (hi : getPath images (Path.name q) = some q) :
      Refers fs vm disk names images p (some (.image ("images/" ++ Path.name q)))

-- The paths of the layers in an archive, with the disk and the file each of them is for.
inductive LayerArc (vm : String) : String → String → Path → Prop where
  | active {disk} (hdisk : nameMatches disk = true) :
      LayerArc vm disk ("disks/" ++ disk ++ ".qcow2") (store.diskFile vm disk)
  | snapshot {disk n} (hdisk : nameMatches disk = true) (hn : nameMatches n = true) :
      LayerArc vm disk ("snapshots/" ++ disk ++ "/" ++ n ++ ".qcow2")
        (store.snapshotFile vm disk n)

-- The layers of a disk that are collected, and those of a manifest: the file of each, its path in
-- the archive, and its parent.
def snapshotOutline (vm disk : String) (s : String × PendingLayer) :
    Path × String × Option ParentRef :=
  (store.snapshotFile vm disk s.1, s.2.arc, s.2.parent)

def PendingDisk.outline (vm disk : String) (d : PendingDisk) :
    List (Path × String × Option ParentRef) :=
  (d.active.toList.map fun l => (store.diskFile vm disk, l.arc, l.parent)) ++
    d.snapshots.map (snapshotOutline store vm disk)

def DiskEntry.layers (vm disk : String) (e : DiskEntry) : List (Path × LayerRecord) :=
  (e.active.toList.map fun r => (store.diskFile vm disk, r)) ++
    e.snapshots.map fun s => (store.snapshotFile vm disk s.name, s.layer)

def DiskEntry.outline (vm disk : String) (e : DiskEntry) : List (Path × String × Option ParentRef) :=
  (e.layers store vm disk).map fun l => (l.1, l.2.file.path, l.2.parent)

-- A disk of which the snapshots `names` are exported.
structure Outlined (fs : FileSystem β) (vm : String) (snapshot : Option String) (acc : Collected)
    (disk : String) (names : List String) (outline : List (Path × String × Option ParentRef)) :
    Prop where
  layers : ∀ l ∈ outline, LayerArc store vm disk l.2.1 l.1 ∧ getPath acc.sources l.2.1 = some l.1 ∧
    Refers F store fs vm disk names acc.images l.1 l.2.2
  start : ∀ p, Exported store fs vm snapshot disk p → ∃ l ∈ outline, l.1 = p
  reached : ∀ l ∈ outline, ∃ p, Exported store fs vm snapshot disk p ∧
    Relation.ReflTransGen (F.PointsTo fs) p l.1
  distinct : names.Nodup

end

section Arcs

variable {store : DiskStore} {vm disk disk' arc n : String} {p p' : Path}

theorem arc_split {d d' n n' : String} (hd : Path.isComponent d = true)
    (hd' : Path.isComponent d' = true) (h : d ++ "/" ++ n = d' ++ "/" ++ n') : d = d' ∧ n = n' := by
  have hlist := congrArg String.toList h
  simp only [String.toList_append] at hlist
  have hslash : "/".toList = ['/'] := by decide
  rw [hslash, List.append_assoc, List.append_assoc] at hlist
  have hsplit := congrArg Path.splitSlash hlist
  rw [List.singleton_append, List.singleton_append,
    Path.splitSlash_append_slash _ _ ((Path.isComponent_iff d).mp hd).2.2.2.1,
    Path.splitSlash_append_slash _ _ ((Path.isComponent_iff d').mp hd').2.2.2.1] at hsplit
  obtain rfl := String.toList_inj.mp (List.cons.inj hsplit).1
  exact ⟨rfl, String.toList_inj.mp (List.append_cancel_left (List.append_cancel_left hlist))⟩

-- A path in the archive is for one disk and one file.
theorem LayerArc.unique (h : LayerArc store vm disk arc p) (h' : LayerArc store vm disk' arc p') :
    disk = disk' ∧ p = p' := by
  generalize harc : arc = arc' at h'
  have hheads : ∀ d d' n' : String, "disks/" ++ d ++ ".qcow2" ≠
      "snapshots/" ++ d' ++ "/" ++ n' ++ ".qcow2" := by
    intro d d' n' he
    have hhead := congrArg (fun s : String => s.toList.head?) he
    simp at hhead
  cases h with
  | active hdisk =>
      cases h' with
      | active hdisk' =>
          obtain rfl := (String.append_right_inj _).mp (append_qcow2_inj harc)
          exact ⟨rfl, rfl⟩
      | snapshot hdisk' hn' => exact absurd harc (hheads _ _ _)
  | snapshot hdisk hn =>
      cases h' with
      | active hdisk' => exact absurd harc.symm (hheads _ _ _)
      | snapshot hdisk' hn' =>
          have hinner := append_qcow2_inj harc
          simp only [String.append_assoc] at hinner
          have hrest := (String.append_right_inj _).mp hinner
          simp only [← String.append_assoc] at hrest
          obtain ⟨rfl, rfl⟩ := arc_split (isComponent_of_valid hdisk) (isComponent_of_valid hdisk') hrest
          exact ⟨rfl, rfl⟩

theorem LayerArc.ne_image (h : LayerArc store vm disk arc p) : arc ≠ "images/" ++ n := by
  intro he
  have hhead := congrArg (fun s : String => s.toList.head?) he
  cases h <;> simp at hhead

theorem LayerArc.ne_config (h : LayerArc store vm disk arc p) : arc ≠ "config/" ++ n := by
  intro he
  have hhead := congrArg (fun s : String => s.toList.head?) he
  cases h <;> simp at hhead

end Arcs

section Listing

variable {β : Type} {F : Formats β} {host : Host β} {store : DiskStore} {vm disk : String}
  {w w' : World β} {snaps : List Snapshot}

theorem info_backing (hq : Describes F host.qemuImg) {path : Path} {inf : ImageInfo}
    (h : info host path w = (.ok inf, w')) : inf.backingFile = F.backingAt w.fs path := by
  obtain ⟨-, b, l, hb, hl, -, -, hbacking, -⟩ := info_ok hq h
  simp [Formats.backingAt, hb, hl, hbacking]

theorem name_mem_insertSnapshot {n : String} {snaps : List Snapshot} {snap : Snapshot}
    (h : n = snap.name ∨ n ∈ snaps.map Snapshot.name) :
    n ∈ (DiskStore.insertSnapshot snaps snap).map Snapshot.name := by
  induction snaps with
  | nil => simpa [DiskStore.insertSnapshot] using h
  | cons head rest ih =>
      rw [DiskStore.insertSnapshot]
      split
      · rename_i hname
        rw [List.map_cons, List.mem_cons] at h ⊢
        rw [hname] at h
        exact h.elim Or.inl id
      · rw [List.map_cons, List.mem_cons] at h ⊢
        rcases h with h | h | h
        · exact Or.inr (ih (Or.inl h))
        · exact Or.inl h
        · exact Or.inr (ih (Or.inr h))

theorem name_mem_foldl_insertSnapshot {n : String} {entries acc : List Snapshot}
    (h : n ∈ acc.map Snapshot.name ∨ n ∈ entries.map Snapshot.name) :
    n ∈ (entries.foldl DiskStore.insertSnapshot acc).map Snapshot.name := by
  induction entries generalizing acc with
  | nil => exact h.resolve_right List.not_mem_nil
  | cons entry entries ih =>
      rw [List.map_cons, List.mem_cons] at h
      refine ih ?_
      rcases h with h | h | h
      · exact Or.inl (name_mem_insertSnapshot (Or.inr h))
      · exact Or.inl (name_mem_insertSnapshot (Or.inl h))
      · exact Or.inr h

-- What the list of the snapshots says, whatever the images are.
structure Lists (F : Formats β) (store : DiskStore) (fs : FileSystem β) (vm disk : String)
    (snaps : List Snapshot) : Prop where
  named : ∀ snap ∈ snaps, nameMatches snap.name = true ∧
    snap.path = store.snapshotFile vm disk snap.name ∧ fs.node snap.path ≠ none
  parent : ∀ snap ∈ snaps, snap.parent =
    (F.backingAt fs snap.path).bind (DiskStore.nameIn (store.snapshotsDir vm disk))
  complete : ∀ n, fs.node (store.snapshotFile vm disk n) ≠ none → ∃ snap ∈ snaps, snap.name = n

theorem snapshotList_lists (hq : Describes F host.qemuImg) (hn : WellNamed store w.fs)
    (h : store.snapshotList host vm disk w = (.ok snaps, w')) : Lists F store w.fs vm disk snaps := by
  refine ⟨fun snap hsnap => ?_, fun snap hsnap => ?_, fun n hthere => ?_⟩
  · obtain ⟨fileName, hfile, hname, hpath, -⟩ := snapshotList_entry h hsnap
    have hnode := (mem_snapshotFileNames.mp hfile).1
    obtain ⟨n, hvalid, rfl⟩ := hn vm disk fileName hnode
    rw [Path.stem_append_qcow2 (nameMatches_ne_empty hvalid)] at hname
    rw [hname, hpath]
    exact ⟨hvalid, rfl, hnode⟩
  · obtain ⟨fileName, -, -, -, inf, hinfo, hparent⟩ := snapshotList_entry h hsnap
    rw [hparent, info_backing hq hinfo]
  · obtain ⟨n', hvalid, hsame⟩ := hn vm disk (n ++ ".qcow2") hthere
    obtain rfl := append_qcow2_inj hsame
    obtain ⟨hvm, hdisk, -, inf, entries, -, hentries, rfl⟩ := snapshotList_ok h
    obtain ⟨entry, hentry, hrun⟩ := forall₂_mem_left hentries
      (mem_snapshotFileNames.mpr ⟨hthere, Path.isQcow2Name_append n⟩)
    obtain ⟨inf', -, rfl⟩ := snapshotEntry_ok hvm hdisk hrun
    have hmem : _ ∈ (entries.foldl DiskStore.insertSnapshot []).map Snapshot.name :=
      name_mem_foldl_insertSnapshot (Or.inr (List.mem_map_of_mem hentry))
    rw [Path.stem_append_qcow2 (nameMatches_ne_empty hvalid), ← names_withChildren] at hmem
    exact List.mem_map.mp hmem

-- The walk up from a snapshot follows the backing files.
theorem ancestorWalk_reached (hl : Lists F store w.fs vm disk snaps) {fuel : Nat} {cursor : String}
    {wanted : List String} (h : ancestorWalk snaps fuel cursor = some wanted) :
    cursor ∈ wanted ∧ ∀ n ∈ wanted, Relation.ReflTransGen (F.PointsTo w.fs)
      (store.snapshotFile vm disk cursor) (store.snapshotFile vm disk n) := by
  induction fuel generalizing cursor wanted with
  | zero => cases h
  | succ fuel ih =>
      have halone : cursor ∈ [cursor] ∧ ∀ n ∈ [cursor], Relation.ReflTransGen (F.PointsTo w.fs)
          (store.snapshotFile vm disk cursor) (store.snapshotFile vm disk n) := by
        refine ⟨List.mem_singleton_self _, fun n hn => ?_⟩
        obtain rfl := List.mem_singleton.mp hn
        exact .refl
      rw [ancestorWalk] at h
      cases hfind : snaps.find? fun snap => snap.name = cursor with
      | none =>
          simp only [hfind, Option.some.injEq] at h
          exact h ▸ halone
      | some snap =>
          have hsnap := List.mem_of_find?_eq_some hfind
          have hname : snap.name = cursor := by simpa using List.find?_some hfind
          cases hparent : snap.parent with
          | none =>
              simp only [hfind, hparent, Option.some.injEq] at h
              exact h ▸ halone
          | some parent =>
              simp only [hfind, hparent] at h
              split at h
              · rename_i hany
                obtain ⟨rest, hrest, rfl⟩ := Option.map_eq_some_iff.mp h
                obtain ⟨other, hother, hothername⟩ := List.any_eq_true.mp hany
                have hne : parent ≠ "" := by
                  rw [← of_decide_eq_true hothername]
                  exact nameMatches_ne_empty (hl.named other hother).1
                have hstep : F.PointsTo w.fs (store.snapshotFile vm disk cursor)
                    (store.snapshotFile vm disk parent) := by
                  have hbind := (hl.parent snap hsnap).symm.trans hparent
                  rw [(hl.named snap hsnap).2.1, hname, Option.bind_eq_some_iff] at hbind
                  obtain ⟨q, hbacking, hin⟩ := hbind
                  rwa [(nameIn_iff hne).mp hin] at hbacking
                refine ⟨List.mem_cons_self, fun n hn => ?_⟩
                rcases List.mem_cons.mp hn with rfl | hn
                · exact .refl
                · exact .head hstep ((ih hrest).2 n hn)
              · rw [Option.some.injEq] at h
                exact h ▸ halone

end Listing

-- What is collected stays so.
structure Collected.Extends (acc acc' : Collected) : Prop where
  sources : ∀ k p, getPath acc.sources k = some p → getPath acc'.sources k = some p
  images : ∀ k p, getPath acc.images k = some p → getPath acc'.images k = some p

-- While the disks are collected the sources are layers.
def Placed (store : DiskStore) (vm : String) (acc : Collected) : Prop :=
  ∀ arc p, getPath acc.sources arc = some p → ∃ disk, LayerArc store vm disk arc p

section Collecting

variable {β : Type} {F : Formats β} {host : Host β} {store : DiskStore} {vm disk : String}
  {w w' : World β} {snaps : List Snapshot} {acc acc' acc'' : Collected} {snapshot : Option String}

theorem Collected.Extends.refl (acc : Collected) : acc.Extends acc :=
  ⟨fun _ _ h => h, fun _ _ h => h⟩

theorem Collected.Extends.trans (h : acc.Extends acc') (h' : acc'.Extends acc'') :
    acc.Extends acc'' :=
  ⟨fun k p hk => h'.sources k p (h.sources k p hk), fun k p hk => h'.images k p (h.images k p hk)⟩

theorem Refers.mono {fs : FileSystem β} {names names' : List String}
    {images images' : List (String × Path)} {p : Path} {ref : Option ParentRef}
    (h : Refers F store fs vm disk names images p ref) (hnames : names ⊆ names')
    (himages : ∀ k q, getPath images k = some q → getPath images' k = some q) :
    Refers F store fs vm disk names' images' p ref := by
  cases h with
  | flat h => exact .flat h
  | snapshot hn h => exact .snapshot (hnames hn) h
  | image h hout hi => exact .image h hout (himages _ _ hi)

-- A layer is added under its path.
theorem Placed.addSource {arc : String} {p : Path} (h : Placed store vm acc)
    (harc : LayerArc store vm disk arc p) : Placed store vm (acc.addSource arc p) ∧
      acc.Extends (acc.addSource arc p) ∧ getPath (acc.addSource arc p).sources arc = some p := by
  have hget : ∀ k, getPath (acc.addSource arc p).sources k =
      if arc = k then some p else getPath acc.sources k :=
    fun k => getPath_setPath acc.sources arc k p
  refine ⟨fun k q hk => ?_, ⟨fun k q hk => ?_, fun _ _ hk => hk⟩, ?_⟩
  · rw [hget] at hk
    split at hk
    · rename_i heq
      obtain rfl := Option.some.inj hk
      exact heq ▸ ⟨disk, harc⟩
    · exact h k q hk
  · rw [hget]
    split
    · rename_i heq
      obtain ⟨disk', hold⟩ := h k q hk
      rw [(harc.unique (heq ▸ hold)).2]
    · exact hk
  · rw [hget, if_pos rfl]

theorem backingRef_refers (hq : Describes F host.qemuImg) (hl : Lists F store w.fs vm disk snaps)
    {path : Path} {only : List String} {ref : Option ParentRef}
    (h : backingRef host path snaps only acc w = (.ok (ref, acc'), w')) :
    w' = w ∧ acc'.sources = acc.sources ∧ acc.Extends acc' ∧
      Refers F store w.fs vm disk only acc'.images path ref := by
  simp only [backingRef, bind_eq_ok] at h
  obtain ⟨inf, t, hinfo, h⟩ := h
  obtain rfl := (info_quiet _).eq_of_run hinfo
  have hbacking := info_backing hq hinfo
  cases hb : inf.backingFile with
  | none =>
      simp only [hb, pure_eq_ok, Prod.mk.injEq] at h
      obtain ⟨⟨rfl, rfl⟩, rfl⟩ := h
      exact ⟨rfl, rfl, .refl _, .flat (hbacking.symm.trans hb)⟩
  | some backing =>
      rw [hb] at hbacking
      simp only [hb] at h
      cases hfind : snaps.find? fun snap => snap.path = backing with
      | some snap =>
          simp only [hfind, bind_eq_ok, raiseIf_eq_ok, pure_eq_ok, Prod.mk.injEq] at h
          obtain ⟨_, _, ⟨hin, rfl⟩, ⟨rfl, rfl⟩, rfl⟩ := h
          obtain ⟨-, hpath, -⟩ := hl.named snap (List.mem_of_find?_eq_some hfind)
          have hat : snap.path = backing := by simpa using List.find?_some hfind
          refine ⟨rfl, rfl, .refl _, .snapshot (by simpa using hin) ?_⟩
          rw [← hbacking, ← hat, hpath]
      | none =>
          simp only [hfind, bind_eq_ok, raiseIf_eq_ok, pure_eq_ok, Prod.mk.injEq] at h
          obtain ⟨_, _, ⟨hclash, rfl⟩, ⟨rfl, rfl⟩, rfl⟩ := h
          have hget : ∀ k, getPath (acc.addImage (Path.name backing) backing).images k =
              if Path.name backing = k then some backing else getPath acc.images k :=
            fun k => getPath_setPath acc.images _ k backing
          refine ⟨rfl, rfl, ⟨fun _ _ hk => hk, fun k q hk => ?_⟩, .image hbacking.symm (fun n hn => ?_) ?_⟩
          · rw [hget]
            split
            · rename_i hname
              rw [← hname] at hk
              have hsame : q = backing := by simpa [hk] using hclash
              rw [hsame]
            · exact hk
          · by_contra hthere
            obtain ⟨snap, hsnap, rfl⟩ := hl.complete n (hn ▸ hthere)
            have hnot := List.find?_eq_none.mp hfind snap hsnap
            rw [(hl.named snap hsnap).2.1] at hnot
            exact hnot (by simpa using hn.symm)
          · rw [hget, if_pos rfl]

-- The layers of the snapshots that are collected so far.
structure Gathering (F : Formats β) (store : DiskStore) (fs : FileSystem β) (vm disk : String)
    (only : List String) (acc : Collected) (done : List String)
    (b : List (String × PendingLayer) × Collected) : Prop where
  names : b.1.map Prod.fst = done
  placed : Placed store vm b.2
  extends_ : acc.Extends b.2
  layers : ∀ s ∈ b.1, LayerArc store vm disk s.2.arc (store.snapshotFile vm disk s.1) ∧
    getPath b.2.sources s.2.arc = some (store.snapshotFile vm disk s.1) ∧
    Refers F store fs vm disk only b.2.images (store.snapshotFile vm disk s.1) s.2.parent

theorem collectSnapshot_gathers (hq : Describes F host.qemuImg) (hl : Lists F store w.fs vm disk snaps)
    (hdisk : nameMatches disk = true) {only done : List String} {name : String}
    {b b' : List (String × PendingLayer) × Collected}
    (hb : Gathering F store w.fs vm disk only acc done b)
    (h : collectSnapshot host disk snaps only b name w = (.ok b', w')) :
    w' = w ∧ Gathering F store w.fs vm disk only acc (done ++ [name]) b' := by
  rw [collectSnapshot] at h
  cases hfind : snaps.find? fun snap => snap.name = name with
  | none => simp [hfind] at h
  | some snap =>
      have hname : snap.name = name := by simpa using List.find?_some hfind
      obtain ⟨hvalid, hpath, -⟩ := hl.named snap (List.mem_of_find?_eq_some hfind)
      rw [hname] at hvalid hpath
      simp only [hfind, bind_eq_ok, pure_eq_ok] at h
      obtain ⟨⟨parent, collected⟩, t, href, rfl, rfl⟩ := h
      rw [hpath] at href
      have harc : LayerArc store vm disk ("snapshots/" ++ disk ++ "/" ++ name ++ ".qcow2")
          (store.snapshotFile vm disk name) := .snapshot hdisk hvalid
      obtain ⟨hplaced, hadd, hget⟩ := hb.placed.addSource harc
      obtain ⟨rfl, hsources, hmore, hrefers⟩ := backingRef_refers hq hl href
      refine ⟨rfl, by simp [hb.names], fun arc p hp => hplaced arc p (hsources ▸ hp),
        hb.extends_.trans (hadd.trans hmore), fun s hs => ?_⟩
      rcases List.mem_append.mp hs with hs | hs
      · obtain ⟨hold, hheld, hparent⟩ := hb.layers s hs
        exact ⟨hold, hmore.sources _ _ (hadd.sources _ _ hheld),
          hparent.mono (List.Subset.refl _) fun k q hk => hmore.images k q (hadd.images k q hk)⟩
      · obtain rfl := List.mem_singleton.mp hs
        exact ⟨harc, hmore.sources _ _ hget, hrefers⟩

-- The snapshots that are selected are those the first layers stand on.
theorem selectSnapshots_exports (hl : Lists F store w.fs vm disk snaps) {only : List String}
    {withActive : Bool} {current : Option String}
    (h : selectSnapshots vm disk snapshot snaps w = (.ok (only, withActive, current), w')) :
    (withActive = true → snapshot = none) ∧
      (∀ n ∈ only, ∃ p, Exported store w.fs vm snapshot disk p ∧
        Relation.ReflTransGen (F.PointsTo w.fs) p (store.snapshotFile vm disk n)) ∧
      ∀ p, Exported store w.fs vm snapshot disk p →
        (withActive = true ∧ p = store.diskFile vm disk) ∨
          ∃ n ∈ only, p = store.snapshotFile vm disk n := by
  cases snapshot with
  | none =>
      simp only [selectSnapshots, pure_eq_ok, Prod.mk.injEq] at h
      obtain ⟨⟨rfl, rfl, -⟩, rfl⟩ := h
      refine ⟨fun _ => rfl, fun n hn => ?_, fun p hp => ?_⟩
      · obtain ⟨snap, hsnap, rfl⟩ := List.mem_map.mp hn
        obtain ⟨-, hpath, hthere⟩ := hl.named snap hsnap
        exact ⟨_, Or.inr ⟨snap.name, rfl, hpath ▸ hthere⟩, .refl⟩
      · rcases hp with rfl | ⟨n, rfl, hthere⟩
        · exact Or.inl ⟨rfl, rfl⟩
        · obtain ⟨snap, hsnap, rfl⟩ := hl.complete n hthere
          exact Or.inr ⟨_, List.mem_map_of_mem hsnap, rfl⟩
  | some name =>
      simp only [selectSnapshots, bind_eq_ok, raiseIf_eq_ok] at h
      obtain ⟨_, _, ⟨-, rfl⟩, h⟩ := h
      cases hwalk : ancestorWalk snaps (snaps.length + 1) name with
      | none => simp [hwalk] at h
      | some wanted =>
          simp only [hwalk, pure_eq_ok, Prod.mk.injEq] at h
          obtain ⟨⟨rfl, rfl, -⟩, rfl⟩ := h
          obtain ⟨hname, hreached⟩ := ancestorWalk_reached hl hwalk
          refine ⟨fun hfalse => ?_, fun n hn => ⟨_, rfl, hreached n hn⟩,
            fun p hp => Or.inr ⟨name, hname, hp⟩⟩
          cases hfalse

theorem Outlined.mono {fs : FileSystem β} {names : List String}
    {outline : List (Path × String × Option ParentRef)}
    (h : Outlined F store fs vm snapshot acc disk names outline) (hadd : acc.Extends acc') :
    Outlined F store fs vm snapshot acc' disk names outline :=
  ⟨fun l hl => ⟨(h.layers l hl).1, hadd.sources _ _ (h.layers l hl).2.1,
    (h.layers l hl).2.2.mono (List.Subset.refl _) hadd.images⟩, h.start, h.reached, h.distinct⟩

-- A disk is collected with every layer under it, up to the first file that is none of its snapshots.
theorem collectDisk_outlined (hq : Describes F host.qemuImg) (hn : WellNamed store w.fs)
    {a a' : List (String × PendingDisk) × Collected} (ha : Placed store vm a.2)
    (h : collectDisk host store vm snapshot a disk w = (.ok a', w')) :
    w' = w ∧ Placed store vm a'.2 ∧ a.2.Extends a'.2 ∧ ∃ d, a'.1 = a.1 ++ [(disk, d)] ∧
      Outlined F store w.fs vm snapshot a'.2 disk (d.snapshots.map Prod.fst)
        (d.outline store vm disk) := by
  simp only [collectDisk, bind_eq_ok, DiskStore.diskPath_eq_ok] at h
  obtain ⟨active, _, ⟨-, hdisk, rfl, rfl⟩, snaps, t, hsnaps, ⟨only, withActive, current⟩, t', hsel,
    ⟨layers, c⟩, t'', hloop, h⟩ := h
  obtain rfl := (snapshotList_quiet vm disk).eq_of_run hsnaps
  obtain rfl := (selectSnapshots_quiet snapshot snaps).eq_of_run hsel
  have hl := snapshotList_lists hq hn hsnaps
  obtain ⟨hall, hreached, hstart⟩ := selectSnapshots_exports hl hsel
  obtain ⟨rfl, hg⟩ := foldEach_quiet_ok (Gathering F store t'.fs vm disk only a.2) hloop
    (fun _ _ _ _ _ _ _ hI hb => collectSnapshot_gathers hq hl hdisk hI hb)
    ⟨rfl, ha, .refl _, fun _ hs => absurd hs List.not_mem_nil⟩
  have hmem : ∀ n, n ∈ layers.map Prod.fst ↔ n ∈ only := fun n => by
    rw [hg.names, List.mem_insertionSort, List.mem_dedup]
  have hdistinct : (layers.map Prod.fst).Nodup := by
    rw [hg.names]
    exact (List.perm_insertionSort _ _).nodup_iff.mpr (List.nodup_dedup _)
  -- the snapshots, whatever is collected after them
  have hsnapshots : ∀ acc', c.Extends acc' → ∀ l ∈ layers.map (snapshotOutline store vm disk),
      LayerArc store vm disk l.2.1 l.1 ∧ getPath acc'.sources l.2.1 = some l.1 ∧
        Refers F store t''.fs vm disk (layers.map Prod.fst) acc'.images l.1 l.2.2 := by
    intro acc' hadd l hl
    obtain ⟨s, hs, rfl⟩ := List.mem_map.mp hl
    obtain ⟨harc, hheld, hparent⟩ := hg.layers s hs
    exact ⟨harc, hadd.sources _ _ hheld, hparent.mono (fun n hn => (hmem n).mpr hn) hadd.images⟩
  have hfrom : ∀ l ∈ layers.map (snapshotOutline store vm disk), ∃ p,
      Exported store t''.fs vm snapshot disk p ∧
        Relation.ReflTransGen (F.PointsTo t''.fs) p l.1 := by
    intro l hl
    obtain ⟨s, hs, rfl⟩ := List.mem_map.mp hl
    exact hreached s.1 ((hmem s.1).mp (List.mem_map_of_mem hs))
  have hbegin : ∀ n ∈ only, ∃ l ∈ layers.map (snapshotOutline store vm disk),
      l.1 = store.snapshotFile vm disk n := by
    intro n hn
    obtain ⟨s, hs, rfl⟩ := List.mem_map.mp ((hmem n).mpr hn)
    exact ⟨_, List.mem_map_of_mem hs, rfl⟩
  cases withActive with
  | false =>
      obtain ⟨rfl, rfl⟩ := pure_eq_ok.mp h
      refine ⟨rfl, hg.placed, hg.extends_, _, rfl, hsnapshots _ (.refl _), fun p hp => ?_, hfrom,
        hdistinct⟩
      obtain ⟨hfalse, -⟩ | ⟨n, hn, rfl⟩ := hstart p hp
      · cases hfalse
      · exact hbegin n hn
  | true =>
      simp only [ite_true, bind_eq_ok, pure_eq_ok] at h
      obtain ⟨⟨parent, collected⟩, t, href, rfl, rfl⟩ := h
      have harc : LayerArc store vm disk ("disks/" ++ disk ++ ".qcow2") (store.diskFile vm disk) :=
        .active hdisk
      obtain ⟨hplaced, hadd, hget⟩ := hg.placed.addSource harc
      obtain ⟨rfl, hsources, hmore, hrefers⟩ := backingRef_refers hq hl href
      refine ⟨rfl, fun arc p hp => hplaced arc p (hsources ▸ hp), hg.extends_.trans (hadd.trans hmore),
        _, rfl, fun l hin => ?_, fun p hp => ?_, fun l hin => ?_, hdistinct⟩
      · rcases List.mem_cons.mp hin with rfl | hin
        · exact ⟨harc, hmore.sources _ _ hget,
            hrefers.mono (fun n hn => (hmem n).mpr hn) fun _ _ hk => hk⟩
        · exact hsnapshots _ (hadd.trans hmore) l hin
      · obtain ⟨-, rfl⟩ | ⟨n, hn, rfl⟩ := hstart p hp
        · exact ⟨_, List.mem_cons_self, rfl⟩
        · obtain ⟨l, hl, he⟩ := hbegin n hn
          exact ⟨l, List.mem_cons_of_mem _ hl, he⟩
      · rcases List.mem_cons.mp hin with rfl | hin
        · obtain rfl := hall rfl
          exact ⟨_, Or.inl rfl, .refl⟩
        · exact hfrom l hin

theorem collectDisks_outlined (hq : Describes F host.qemuImg) (hn : WellNamed store w.fs)
    {diskNames : List String} {a : List (String × PendingDisk) × Collected}
    (h : foldEach diskNames ([], ⟨[], []⟩) (collectDisk host store vm snapshot) w = (.ok a, w')) :
    w' = w ∧ Placed store vm a.2 ∧ a.1.map Prod.fst = diskNames ∧ ∀ d ∈ a.1,
      Outlined F store w.fs vm snapshot a.2 d.1 (d.2.snapshots.map Prod.fst)
        (d.2.outline store vm d.1) := by
  refine foldEach_quiet_ok (fun done a => Placed store vm a.2 ∧ a.1.map Prod.fst = done ∧ ∀ d ∈ a.1,
      Outlined F store w.fs vm snapshot a.2 d.1 (d.2.snapshots.map Prod.fst)
        (d.2.outline store vm d.1)) h (fun done disk rest b b' t _ hI hb => ?_) ⟨nofun, rfl, nofun⟩
  obtain ⟨hplaced, hnames, hdone⟩ := hI
  obtain ⟨rfl, hplaced', hadd, d, hd, houtlined⟩ := collectDisk_outlined hq hn hplaced hb
  refine ⟨rfl, hplaced', by simp [hd, hnames], fun d' hd' => ?_⟩
  rw [hd] at hd'
  rcases List.mem_append.mp hd' with hold | hnew
  · exact (hdone d' hold).mono hadd
  · obtain rfl := List.mem_singleton.mp hnew
    exact houtlined

end Collecting

section Finishing

variable {β : Type} {F : Formats β} {host : Host β} {store : DiskStore} {vm disk : String}
  {w w' : World β} {acc : Collected} {snapshot : Option String} {sources : List (String × Path)}

theorem finishLayer_same {layer : PendingLayer} {r : LayerRecord}
    (h : finishLayer host sources layer w = (.ok r, w')) :
    r.file.path = layer.arc ∧ r.parent = layer.parent := by
  rw [finishLayer] at h
  cases hsrc : getPath sources layer.arc with
  | none => simp [hsrc] at h
  | some src =>
      simp only [hsrc, bind_eq_ok, pure_eq_ok] at h
      obtain ⟨file, t, hfile, rfl, -⟩ := h
      exact ⟨(fileRecord_ok hfile).2.1, rfl⟩

-- A disk is finished as it was collected.
theorem finishDisk_same {disk : String × PendingDisk} {entry : String × DiskEntry}
    (h : finishDisk host sources disk w = (.ok entry, w')) :
    entry.1 = disk.1 ∧ entry.2.snapshots.map SnapshotRecord.name = disk.2.snapshots.map Prod.fst ∧
      ∀ (store : DiskStore) (vm name : String),
        entry.2.outline store vm name = disk.2.outline store vm name := by
  simp only [finishDisk, bind_eq_ok, pure_eq_ok] at h
  obtain ⟨active, t, hactive, snapshots, t', hsnaps, rfl, rfl⟩ := h
  have hall := mapEach_quiet_ok (finishSnapshot_quiet sources) hsnaps
  have hsame : ∀ s r, finishSnapshot host sources s t = (.ok r, t) →
      r.name = s.1 ∧ r.layer.file.path = s.2.arc ∧ r.layer.parent = s.2.parent := by
    intro s r hrun
    simp only [finishSnapshot, bind_eq_ok, pure_eq_ok] at hrun
    obtain ⟨l, _, hl, rfl, -⟩ := hrun
    exact ⟨rfl, finishLayer_same hl⟩
  refine ⟨rfl, (map_eq_of_forall₂ hall fun s _ r hrun => (hsame s r hrun).1.symm).symm,
    fun store vm name => ?_⟩
  rw [DiskEntry.outline, DiskEntry.layers, PendingDisk.outline, List.map_append, List.map_map,
    List.map_map]
  congr 1
  · cases hpending : disk.2.active with
    | none =>
        rw [hpending] at hactive
        obtain ⟨rfl, -⟩ := pure_eq_ok.mp hactive
        rfl
    | some layer =>
        rw [hpending] at hactive
        simp only [finishActive, bind_eq_ok, pure_eq_ok] at hactive
        obtain ⟨r, _, hr, rfl, -⟩ := hactive
        obtain ⟨hpath, hparent⟩ := finishLayer_same hr
        simp [hpath, hparent]
  · refine (map_eq_of_forall₂ hall fun s _ r hrun => ?_).symm
    obtain ⟨hname, hpath, hparent⟩ := hsame s r hrun
    simp [snapshotOutline, hname, hpath, hparent]

-- The images are recorded in their order.
theorem recordImages_paths {b : List FileRecord × Collected} {images : List (String × Path)}
    (h : foldEach images ([], acc) (recordImage host) w = (.ok b, w')) :
    b.1.map FileRecord.path = images.map imageArc := by
  refine (foldEach_quiet_ok (fun done b => b.1.map FileRecord.path = done.map imageArc) h
    (fun done image rest c c' t _ hI hb => ?_) rfl).2
  simp only [recordImage, bind_eq_ok, pure_eq_ok] at hb
  obtain ⟨r, t', hr, rfl, rfl⟩ := hb
  obtain ⟨rfl, hpath, -⟩ := fileRecord_ok hr
  exact ⟨rfl, by simp [hI, hpath, imageArc]⟩

-- Under the path of a collected image is that image, and the sources under other paths are left alone.
theorem recordImages_sources {b : List FileRecord × Collected} {images : List (String × Path)}
    (hnodup : (images.map Prod.fst).Nodup)
    (h : foldEach images ([], acc) (recordImage host) w = (.ok b, w')) :
    (∀ image ∈ images, getPath b.2.sources ("images/" ++ image.1) = some image.2) ∧
      ∀ k, (∀ n, k ≠ "images/" ++ n) → getPath b.2.sources k = getPath acc.sources k := by
  refine (foldEach_quiet_ok (fun done b =>
    (∀ image ∈ done, getPath b.2.sources ("images/" ++ image.1) = some image.2) ∧
      ∀ k, (∀ n, k ≠ "images/" ++ n) → getPath b.2.sources k = getPath acc.sources k) h
    (fun done image rest c c' t has hI hb => ?_) ⟨nofun, fun _ _ => rfl⟩).2
  simp only [recordImage, bind_eq_ok, pure_eq_ok] at hb
  obtain ⟨r, t', hr, rfl, rfl⟩ := hb
  obtain ⟨rfl, -⟩ := fileRecord_ok hr
  have hget : ∀ k, getPath (c.2.addSource ("images/" ++ image.1) image.2).sources k =
      if "images/" ++ image.1 = k then some image.2 else getPath c.2.sources k :=
    fun k => getPath_setPath c.2.sources _ k image.2
  refine ⟨rfl, fun other hother => ?_, fun k hk => ?_⟩
  · rw [hget]
    rcases List.mem_append.mp hother with hold | hnew
    · have hne := key_ne_of_nodup hnodup has other hold
      rw [if_neg fun he => hne ((String.append_right_inj _).mp he).symm]
      exact hI.1 other hold
    · obtain rfl := List.mem_singleton.mp hnew
      exact if_pos rfl
  · rw [hget, if_neg fun he => hk _ he.symm]
    exact hI.2 k hk

theorem recordConfigs_sources {b : List FileRecord × Collected} {vmRoot : Path}
    {names : List String} (h : foldEach names ([], acc) (recordConfig host vmRoot) w = (.ok b, w')) :
    ∀ k, (∀ n, k ≠ "config/" ++ n) → getPath b.2.sources k = getPath acc.sources k := by
  refine (foldEach_quiet_ok (fun _ b => ∀ k, (∀ n, k ≠ "config/" ++ n) →
    getPath b.2.sources k = getPath acc.sources k) h
    (fun done name rest c c' t _ hI hb => ?_) fun _ _ => rfl).2
  rw [recordConfig, read_bind] at hb
  split at hb
  · simp only [bind_eq_ok, pure_eq_ok] at hb
    obtain ⟨r, t', hr, rfl, rfl⟩ := hb
    obtain ⟨rfl, -⟩ := fileRecord_ok hr
    refine ⟨rfl, fun k hk => ?_⟩
    have hget := getPath_setPath c.2.sources ("config/" ++ name) k (vmRoot ++ [name])
    rw [if_neg fun he => hk _ he.symm] at hget
    exact hget.trans (hI k hk)
  · obtain ⟨rfl, rfl⟩ := pure_eq_ok.mp hb
    exact ⟨rfl, hI⟩

-- What the manifest of a VM says about its disks.
theorem collectVm_outlined (hq : Describes F host.qemuImg) (hn : WellNamed store w.fs)
    {diskNames : List String} {m : Manifest}
    (h : collectVm host store vm snapshot diskNames w = (.ok (m, sources), w')) :
    m.disks.map Prod.fst = diskNames ∧ ∃ images,
      (∀ n q, getPath images n = some q → getPath sources ("images/" ++ n) = some q ∧
        "images/" ++ n ∈ m.images.map FileRecord.path) ∧
      ∀ d ∈ m.disks, Outlined F store w.fs vm snapshot ⟨sources, images⟩ d.1
        (d.2.snapshots.map SnapshotRecord.name) (d.2.outline store vm d.1) := by
  rw [collectVm, read_bind] at h
  simp only [bind_eq_ok, pure_eq_ok, Prod.mk.injEq] at h
  obtain ⟨⟨disks, c₁⟩, t₁, hdisks, ⟨images, c₂⟩, t₂, himages, ⟨config, c₃⟩, t₃, hconfig,
    entries, t₄, hentries, ⟨rfl, rfl⟩, rfl⟩ := h
  obtain ⟨rfl, hc₁⟩ := foldEach_quiet_ok (fun _ acc => Gathered acc.2) hdisks
    (fun _ _ _ _ _ _ _ hI hb => collectDisk_ok hI hb) gathered_empty
  obtain ⟨-, hplaced, hnames, houtlined⟩ := collectDisks_outlined hq hn hdisks
  have hsorted := List.perm_insertionSort (fun a b : String × Path => a.1 ≤ b.1) c₁.images
  have hnodup := (hsorted.map Prod.fst).nodup_iff.mpr hc₁.images
  obtain ⟨rfl, hc₂⟩ := recordImages_ok (sortedPaths c₁.images) hc₁ hsorted.subset hnodup himages
  obtain ⟨rfl, -⟩ := recordConfigs_ok hc₂.gathered hconfig
  obtain ⟨hat, hother⟩ := recordImages_sources hnodup himages
  have hother' := recordConfigs_sources hconfig
  have hentry := mapEach_quiet_ok (finishDisk_quiet c₃.sources) hentries
  have hkept : c₁.Extends ⟨c₃.sources, c₁.images⟩ := by
    refine ⟨fun k p hk => ?_, fun _ _ hk => hk⟩
    obtain ⟨disk, harc⟩ := hplaced k p hk
    exact (hother' k fun n => harc.ne_config).trans ((hother k fun n => harc.ne_image).trans hk)
  refine ⟨?_, c₁.images, fun n q hi => ?_, fun e he => ?_⟩
  · rw [← hnames]
    exact (map_eq_of_forall₂ hentry fun d _ e hrun => (finishDisk_same hrun).1.symm).symm
  · have hmem : (n, q) ∈ sortedPaths c₁.images := hsorted.symm.subset (mem_of_getPath hi)
    refine ⟨?_, ?_⟩
    · rw [hother' _ fun n' hc => ?_]
      · exact hat (n, q) hmem
      · have hhead := congrArg (fun s : String => s.toList.head?) hc
        simp at hhead
    · rw [recordImages_paths himages]
      exact List.mem_map_of_mem (f := imageArc) hmem
  · obtain ⟨d, hd, hrun⟩ := forall₂_mem_right hentry he
    obtain ⟨hname, hsnaps, hout⟩ := finishDisk_same hrun
    rw [hname, hsnaps, hout]
    exact (houtlined d hd).mono hkept

end Finishing

end VMForge.Storage
