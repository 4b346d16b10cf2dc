import VMForge.Storage.Store.Lemmas

namespace VMForge.Storage

-- What lies below two entries of one directory lies below one entry.
theorem entry_eq {p q rest rest' : Path} {a b : String} (h : p ++ a :: rest <+: q)
    (h' : p ++ b :: rest' <+: q) : a = b := by
  obtain ⟨t, rfl⟩ := h
  obtain ⟨t', ht'⟩ := h'
  rw [List.append_assoc, List.append_assoc] at ht'
  exact (List.cons.inj (List.append_cancel_left ht')).1.symm

theorem not_concat_below (p : Path) (n : String) : ¬p ++ [n] <+: p := fun hc => by
  simpa using hc.length_le

-- Strictly below.
def Below (p q : Path) : Prop := p <+: q ∧ q ≠ p

theorem below_append (p : Path) (n : String) (rest : List String) : Below p (p ++ n :: rest) :=
  ⟨List.prefix_append _ _, by simp⟩

section

variable {store : DiskStore} {vm disk : String}

theorem snapshotFile_below (store : DiskStore) (vm disk name : String) :
    Below (store.vmRoot vm) (store.snapshotFile vm disk name) := by
  simpa [DiskStore.snapshotFile, DiskStore.snapshotsDir, List.append_assoc] using
    below_append (store.vmRoot vm) "snapshots" [disk, name ++ ".qcow2"]

theorem diskFile_below (store : DiskStore) (vm disk : String) :
    Below (store.vmRoot vm) (store.diskFile vm disk) := by
  simpa [DiskStore.diskFile, DiskStore.disksDir, List.append_assoc] using
    below_append (store.vmRoot vm) "disks" [disk ++ ".qcow2"]

theorem snapshotFile_dropLast (vm disk name : String) :
    (store.snapshotFile vm disk name).dropLast = store.vmRoot vm ++ ["snapshots", disk] := by
  simp [DiskStore.snapshotFile, DiskStore.snapshotsDir]

theorem diskFile_dropLast (vm disk : String) :
    (store.diskFile vm disk).dropLast = store.vmRoot vm ++ ["disks"] := by
  simp [DiskStore.diskFile, DiskStore.disksDir]

theorem snapshotFile_dir (vm disk name : String) :
    (store.snapshotFile vm disk name).dropLast = store.snapshotsDir vm disk :=
  List.dropLast_concat

theorem diskFile_dir (vm disk : String) :
    (store.diskFile vm disk).dropLast = store.disksDir vm :=
  List.dropLast_concat

theorem disksDir_ne_diskFile (vm disk : String) : store.disksDir vm ≠ store.diskFile vm disk := by
  simp [DiskStore.diskFile]

theorem disksDir_ne_snapshotFile (vm vm' disk name : String) :
    store.disksDir vm ≠ store.snapshotFile vm' disk name := fun h => by
  have hlen := congrArg List.length h
  simp [DiskStore.disksDir, DiskStore.snapshotFile, DiskStore.snapshotsDir, DiskStore.vmRoot] at hlen

theorem snapshotsDir_legal (store : DiskStore) (hvm : nameMatches vm = true)
    (hdisk : nameMatches disk = true) :
    ∀ n ∈ store.snapshotsDir vm disk, Path.isComponent n = true := by
  intro n hn
  simp only [DiskStore.snapshotsDir, DiskStore.vmRoot, DiskStore.vmsDir, List.mem_append,
    List.mem_cons, List.not_mem_nil, or_false] at hn
  rcases hn with ((hn | rfl) | rfl) | rfl | rfl
  · exact store.legal n hn
  · decide
  · exact isComponent_of_valid hvm
  · decide
  · exact isComponent_of_valid hdisk

theorem snapshotFile_resolve (hvm : nameMatches vm = true) (hdisk : nameMatches disk = true)
    {n : String} (hn : nameMatches n = true) :
    Path.resolve (store.snapshotFile vm disk n) = store.snapshotFile vm disk n := by
  refine Path.resolve_of_notMem (Path.dotdot_notMem_of_isComponent fun m hm => ?_)
  rcases List.mem_append.mp hm with hm | hm
  · exact snapshotsDir_legal store hvm hdisk m hm
  · obtain rfl := List.mem_singleton.mp hm
    exact isComponent_qcow2 hn

-- Different layers have different places, and none is on the way to another.
theorem snapshotFile_below_iff {d d' n n' : String} :
    store.snapshotFile vm d n <+: store.snapshotFile vm d' n' ↔ d = d' ∧ n = n' := by
  constructor
  · intro h
    have he := h.eq_of_length (by simp [DiskStore.snapshotFile, DiskStore.snapshotsDir])
    simp only [DiskStore.snapshotFile, DiskStore.snapshotsDir, List.append_assoc,
      List.append_cancel_left_eq, List.cons_append, List.nil_append, List.cons.injEq,
      true_and, and_true] at he
    exact ⟨he.1, String.append_left_inj _ |>.mp he.2⟩
  · rintro ⟨rfl, rfl⟩
    exact List.prefix_rfl

theorem diskFile_not_below_snapshotFile {d d' n : String} :
    ¬store.diskFile vm d <+: store.snapshotFile vm d' n := by
  intro h
  have hd : store.vmRoot vm ++ ["disks", d ++ ".qcow2"] <+: store.snapshotFile vm d' n := by
    simpa [DiskStore.diskFile, DiskStore.disksDir] using h
  have hs : store.vmRoot vm ++ ["snapshots", d', n ++ ".qcow2"] <+: store.snapshotFile vm d' n := by
    simp [DiskStore.snapshotFile, DiskStore.snapshotsDir]
  exact absurd (entry_eq hd hs) (by decide)

theorem diskFile_ne_snapshotFile (store : DiskStore) (vm disk disk' n : String) :
    store.diskFile vm disk ≠ store.snapshotFile vm disk' n := fun h =>
  diskFile_not_below_snapshotFile ⟨[], (List.append_nil _).trans h⟩

theorem snapshotFile_not_below_diskFile {d d' n : String} :
    ¬store.snapshotFile vm d n <+: store.diskFile vm d' := by
  intro h
  have hlen := h.length_le
  simp [DiskStore.snapshotFile, DiskStore.snapshotsDir, DiskStore.diskFile, DiskStore.disksDir] at hlen

theorem diskFile_below_iff {d d' : String} :
    store.diskFile vm d <+: store.diskFile vm d' ↔ d = d' := by
  constructor
  · intro h
    have he := h.eq_of_length (by simp [DiskStore.diskFile, DiskStore.disksDir])
    simp only [DiskStore.diskFile, List.append_cancel_left_eq, List.cons.injEq, and_true] at he
    exact String.append_left_inj _ |>.mp he
  · rintro rfl
    exact List.prefix_rfl

end

end VMForge.Storage
