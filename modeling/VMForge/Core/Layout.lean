import VMForge.Core.SubprocessStore
import VMForge.Storage.Store.Places

namespace VMForge.Core

open Storage Exec

-- `PathBuf::join`: an absolute path takes the place of what it is joined to.
def joinPath (p : Path) (s : String) : Path :=
  if Path.isAbsolute s then Path.parts s else p ++ Path.parts s

theorem joinPath_component (p : Path) {n : String} (hn : Path.isComponent n = true) :
    joinPath p n = p ++ [n] := by
  rw [joinPath, Path.isAbsolute_of_isComponent hn, if_neg Bool.false_ne_true, Path.parts_of_isComponent hn]

-- The path as `attach_path` joins it.
def SubprocessStore.attachJoined (store : SubprocessStore) (vm : VmName) (disk : DiskName) : Path :=
  joinPath (joinPath (joinPath (joinPath store.home.home "vms") vm.text) "disks") (disk.text ++ ".qcow2")

theorem attachJoined_eq (store : SubprocessStore) (vm : VmName) (disk : DiskName) :
    store.attachJoined vm disk = store.home.diskFile vm.text disk.text := by
  have hvms : Path.isComponent "vms" = true := by decide
  have hdisks : Path.isComponent "disks" = true := by decide
  unfold SubprocessStore.attachJoined
  rw [joinPath_component _ hvms, joinPath_component _ (isComponent_of_valid vm.nameMatches),
    joinPath_component _ hdisks, joinPath_component _ (isComponent_qcow2 disk.nameMatches)]
  rfl

-- The layout: no two places share a file, all lie below the home, each is named after what it is
-- kept for, a snapshot is known by its path, and both languages attach the same disk.
theorem layout_shared {β : Type} (store : SubprocessStore) :
    Function.Injective (Place.path store.home) ∧
      (∀ p : Place, Below store.home.home (p.path store.home) ∧ ".." ∉ p.path store.home) ∧
      (∀ p : Place, Path.stem (Path.name (p.path store.home)) = p.name) ∧
      (∀ (vm disk name : StoreName) (path : Path) (w : World β),
        store.home.snapshotNameFor vm disk path w = (.ok (some name.1), w) ↔
          path = store.home.snapshotFile vm disk name) ∧
      ∀ (vm : VmName) (disk : DiskName) (w : World β),
        store.home.diskPath vm.text disk.text w = (.ok (store.attachJoined vm disk), w) := by
  refine ⟨Place.path_injective _, Place.path_confined _, Place.stem_path _, ?_, ?_⟩
  · intro vm disk name path w
    have hrun := @backingName_run _ store.home vm disk w vm.2 disk.2 (some path)
    rw [DiskStore.backingName, Option.bind_some] at hrun
    rw [hrun, ← nameIn_iff (nameMatches_ne_empty name.2)]
    simp
  · intro vm disk w
    exact store.home.diskPath_eq_ok.mpr
      ⟨vm.nameMatches, disk.nameMatches, (attachJoined_eq store vm disk).symm, rfl⟩

end VMForge.Core
