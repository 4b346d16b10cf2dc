import VMForge.Storage.Memory.Lemmas
import VMForge.Storage.Store.Forest

namespace VMForge.Storage

section

variable {β : Type} {F : Formats β} {store : DiskStore} {fs : FileSystem β} {vm disk : String}

-- The file that a layer's pointer leads to.
def pointer (F : Formats β) (fs : FileSystem β) (path : Path) : Option Path :=
  ((F.layerAt fs (path, "qcow2")).bind Layer.backing).map Prod.fst

theorem backs_iff_pointer {path target : Path} :
    Backs F fs path target ↔ pointer F fs path = some target := by
  unfold pointer
  simp only [Option.map_eq_some_iff, Option.bind_eq_some_iff]
  constructor
  · rintro ⟨l, format, hl, hb⟩
    exact ⟨(target, format), ⟨l, hl, hb⟩, rfl⟩
  · rintro ⟨r, ⟨l, hl, hb⟩, rfl⟩
    exact ⟨l, r.2, hl, hb⟩

-- A disk is healthy if each of its snapshots is put on one that comes earlier, or on another file.
theorem healthy_of_files {names : List String} (hvm : nameMatches vm = true)
    (hdisk : nameMatches disk = true)
    (hactive : (F.layerAt fs (activeRef store vm disk)).isSome = true)
    (hfiles : fs.children (store.snapshotsDir vm disk) = names.map (· ++ ".qcow2"))
    (hnames : ∀ n ∈ names, nameMatches n = true)
    (hlayers : ∀ n ∈ names, (F.layerAt fs (snapRef store vm disk n)).isSome = true)
    (hland : ∀ n ∈ names, ∀ target, pointer F fs (store.snapshotFile vm disk n) = some target →
      fs.isFile target = true)
    (hlandActive : ∀ target, pointer F fs (store.diskFile vm disk) = some target →
      fs.isFile target = true)
    (rank : String → Nat) (hrank : ∀ n ∈ names, ∀ m ∈ names,
      pointer F fs (store.snapshotFile vm disk n) = some (store.snapshotFile vm disk m) →
        rank m < rank n) :
    Healthy F store fs vm disk := by
  have hnamed : ∀ m, fs.node (store.snapshotsDir vm disk ++ [m]) ≠ none →
      ∃ n ∈ names, m = n ++ ".qcow2" := by
    intro m hm
    have hmem := fs.mem_children.mpr hm
    rw [hfiles] at hmem
    obtain ⟨n, hn, rfl⟩ := List.mem_map.mp hmem
    exact ⟨n, hn, rfl⟩
  have hname : ∀ n, fs.node (store.snapshotFile vm disk n) ≠ none → n ∈ names := by
    intro n hn
    obtain ⟨n', hn', heq⟩ := hnamed _ hn
    rwa [append_qcow2_inj heq]
  have hbacks : ∀ n target, Backs F fs (store.snapshotFile vm disk n) target → n ∈ names := by
    rintro n target ⟨l, _, hl, -⟩
    exact hname n (node_of_layerAt (Option.isSome_iff_exists.mpr ⟨l, hl⟩))
  refine ⟨hvm, hdisk, hactive, ⟨?_, fun n hn => hlayers n (hname n hn)⟩, ⟨?_, ?_, ?_⟩⟩
  · intro m hm
    obtain ⟨n, hn, rfl⟩ := hnamed m hm
    exact ⟨n, hnames n hn, rfl⟩
  · exact fun n target h => hland n (hbacks n target h) target (backs_iff_pointer.mp h)
  · exact fun target h => hlandActive target (backs_iff_pointer.mp h)
  · -- along the pointers the rank goes down
    intro n hn
    have hdown : ∀ a b, Relation.TransGen (fun n m =>
        Backs F fs (store.snapshotFile vm disk n) (store.snapshotFile vm disk m)) a b →
          b ∈ names → rank b < rank a := by
      intro a b hab hb
      induction hab using Relation.TransGen.head_induction_on with
      | single hac => exact hrank _ (hbacks _ _ hac) _ hb (backs_iff_pointer.mp hac)
      | head hac hcb ih =>
          obtain ⟨d, hcd, -⟩ := Relation.TransGen.head'_iff.mp hcb
          have hstep := hrank _ (hbacks _ _ hac) _ (hbacks _ _ hcd) (backs_iff_pointer.mp hac)
          omega
    obtain ⟨m, hnm, -⟩ := Relation.TransGen.head'_iff.mp hn
    exact absurd (hdown n n hn (hbacks _ _ hnm)) (Nat.lt_irrefl _)

end

section Worlds

theorem treeHome_legal : ∀ n ∈ ["srv"], Path.isComponent n = true := by
  decide

def treeStore : DiskStore := ⟨["srv"], treeHome_legal⟩

-- A home with one disk.
def treeWorld (active : Blob) (snapshots images : List (String × Blob)) : World Blob :=
  Memory.world ([(["srv"], .dir), (["srv", "vms"], .dir), (["srv", "vms", "web"], .dir),
    (["srv", "vms", "web", "disks"], .dir),
    (["srv", "vms", "web", "disks", "root.qcow2"], Memory.plain active),
    (["srv", "vms", "web", "snapshots"], .dir), (["srv", "vms", "web", "snapshots", "root"], .dir)] ++
    snapshots.map (fun snap =>
      (["srv", "vms", "web", "snapshots", "root", snap.1 ++ ".qcow2"], .file ⟨snap.2, 0o444⟩)) ++
    (["srv", "images"], .dir) :: images.map fun image =>
      (["srv", "images", image.1 ++ ".qcow2"], Memory.plain image.2))

def snapPath (name : String) : Path := ["srv", "vms", "web", "snapshots", "root", name ++ ".qcow2"]

def imagePath (name : String) : Path := ["srv", "images", name ++ ".qcow2"]

end Worlds

end VMForge.Storage
