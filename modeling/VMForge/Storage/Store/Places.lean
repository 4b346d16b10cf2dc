import VMForge.Storage.Store.Clones

namespace VMForge.Storage

open Exec

-- A name that the store takes.
abbrev StoreName := { n : String // nameMatches n = true }

-- What the store keeps a file for.
inductive Place where
  | disk (vm disk : StoreName)
  | snapshot (vm disk name : StoreName)
  | image (image : StoreName)
deriving DecidableEq

namespace Place

def path (store : DiskStore) : Place → Path
  | disk vm d => store.diskFile vm d
  | snapshot vm d n => store.snapshotFile vm d n
  | image i => store.imageFile i

-- The name that the file is called by.
def name : Place → String
  | disk _ d => d
  | snapshot _ _ n => n
  | image i => i

variable (store : DiskStore)

-- The file of a place lies under the home, by directories of its own.
def below : Place → List String
  | disk vm d => ["vms", vm, "disks", d.1 ++ ".qcow2"]
  | snapshot vm d n => ["vms", vm, "snapshots", d, n.1 ++ ".qcow2"]
  | image i => ["images", i.1 ++ ".qcow2"]

theorem path_eq (p : Place) : p.path store = store.home ++ p.below := by
  cases p with
  | disk vm d => simp [path, below, DiskStore.diskFile, DiskStore.disksDir, DiskStore.vmRoot, DiskStore.vmsDir]
  | snapshot vm d n =>
      simp [path, below, DiskStore.snapshotFile, DiskStore.snapshotsDir, DiskStore.vmRoot, DiskStore.vmsDir]
  | image i => simp [path, below, DiskStore.imageFile, DiskStore.imagesDir]

theorem below_injective : Function.Injective below := by
  intro p q h
  cases p with
  | disk vm d =>
      cases q with
      | disk vm' d' =>
          simp only [below, List.cons.injEq, true_and, and_true] at h
          rw [Subtype.ext h.1, Subtype.ext (append_qcow2_inj h.2)]
      | snapshot vm' d' n' => simp [below] at h
      | image i' => simp [below] at h
  | snapshot vm d n =>
      cases q with
      | disk vm' d' => simp [below] at h
      | snapshot vm' d' n' =>
          simp only [below, List.cons.injEq, true_and, and_true] at h
          rw [Subtype.ext h.1, Subtype.ext h.2.1, Subtype.ext (append_qcow2_inj h.2.2)]
      | image i' => simp [below] at h
  | image i =>
      cases q with
      | disk vm' d' => simp [below] at h
      | snapshot vm' d' n' => simp [below] at h
      | image i' =>
          simp only [below, List.cons.injEq, true_and, and_true] at h
          rw [Subtype.ext (append_qcow2_inj h)]

-- No two places share a file.
theorem path_injective : Function.Injective (path store) := by
  intro p q h
  rw [path_eq, path_eq] at h
  exact below_injective (List.append_cancel_left h)

theorem below_legal (p : Place) : ∀ n ∈ p.below, Path.isComponent n = true := by
  cases p with
  | disk vm d =>
      simp only [below, List.forall_mem_cons, List.not_mem_nil, false_implies, implies_true, and_true]
      exact ⟨by decide, isComponent_of_valid vm.2, by decide, isComponent_qcow2 d.2⟩
  | snapshot vm d n =>
      simp only [below, List.forall_mem_cons, List.not_mem_nil, false_implies, implies_true, and_true]
      exact ⟨by decide, isComponent_of_valid vm.2, by decide, isComponent_of_valid d.2,
        isComponent_qcow2 n.2⟩
  | image i =>
      simp only [below, List.forall_mem_cons, List.not_mem_nil, false_implies, implies_true, and_true]
      exact ⟨by decide, isComponent_qcow2 i.2⟩

theorem path_legal (p : Place) : ∀ n ∈ p.path store, Path.isComponent n = true := by
  intro n hn
  rw [path_eq] at hn
  obtain hn | hn := List.mem_append.mp hn
  · exact store.legal n hn
  · exact p.below_legal n hn

theorem path_confined (p : Place) : Below store.home (p.path store) ∧ ".." ∉ p.path store := by
  refine ⟨?_, Path.dotdot_notMem_of_isComponent (p.path_legal store)⟩
  rw [path_eq]
  cases p with
  | disk vm d => exact below_append _ _ _
  | snapshot vm d n => exact below_append _ _ _
  | image i => exact below_append _ _ _

theorem name_path (p : Place) : Path.name (p.path store) = p.name ++ ".qcow2" := by
  cases p with
  | disk vm d => exact Path.name_concat _ _
  | snapshot vm d n => exact Path.name_concat _ _
  | image i => exact Path.name_concat _ _

theorem stem_path (p : Place) : Path.stem (Path.name (p.path store)) = p.name := by
  have hne : p.name ≠ "" := by
    cases p with
    | disk vm d => exact nameMatches_ne_empty d.2
    | snapshot vm d n => exact nameMatches_ne_empty n.2
    | image i => exact nameMatches_ne_empty i.2
  rw [name_path, Path.stem_append_qcow2 hne]

end Place

section Names

variable {store : DiskStore} {vm disk : String}

-- A name is what it is cut into.
theorem splitSuffix_append (cs : List Char) : (Path.splitSuffix cs).1 ++ (Path.splitSuffix cs).2 = cs := by
  unfold Path.splitSuffix
  split
  · rename_i c base hdrop
    simp only
    split
    · exact List.append_nil cs
    · -- the character that stops the search is a dot
      have hdot : c = '.' := by
        have hhead := List.head?_dropWhile_not (· ≠ '.') cs.reverse
        rw [hdrop] at hhead
        simpa using hhead
      have hsplit := List.takeWhile_append_dropWhile (p := (· ≠ '.')) (l := cs.reverse)
      rw [hdrop, hdot] at hsplit
      have hcs := congrArg List.reverse hsplit
      simpa using hcs
  · simp

theorem stem_append_suffix (n : String) : Path.stem n ++ Path.suffix n = n := by
  apply String.toList_inj.mp
  simp only [Path.stem, Path.suffix, String.toList_append, String.toList_ofList, splitSuffix_append]

-- A path is taken for a snapshot if it is that snapshot's file.
theorem nameIn_iff {path : Path} {n : String} (hn : n ≠ "") :
    DiskStore.nameIn (store.snapshotsDir vm disk) path = some n ↔
      path = store.snapshotFile vm disk n := by
  constructor
  · intro h
    unfold DiskStore.nameIn at h
    split at h
    · rename_i hin
      have hne : path ≠ [] := by
        rintro rfl
        exact absurd hin.1 (by simp [DiskStore.snapshotsDir])
      have hname : Path.name path = n ++ ".qcow2" := by
        rw [← stem_append_suffix (Path.name path), hin.2, Option.some.inj h]
      have hpath : path.dropLast ++ [Path.name path] = path := by
        rw [Path.name, List.getLast?_eq_some_getLast hne]
        exact List.dropLast_append_getLast hne
      rw [← hpath, hin.1, hname]
      rfl
    · cases h
  · rintro rfl
    exact nameIn_snapshotFile hn

end Names

end VMForge.Storage
