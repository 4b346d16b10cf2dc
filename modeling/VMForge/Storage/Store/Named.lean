import VMForge.Storage.Store.Frozen
import VMForge.Storage.Store.History

namespace VMForge.Storage

open Exec

-- What lies in the directory of the snapshots of a disk is called after a snapshot.
def WellNamed {β : Type} (store : DiskStore) (fs : FileSystem β) : Prop :=
  ∀ vm disk m, fs.node (store.snapshotsDir vm disk ++ [m]) ≠ none →
    ∃ n, nameMatches n = true ∧ m = n ++ ".qcow2"

section

variable {β : Type} {host : Host β} {store : DiskStore} {vm disk : String} {w w' : World β}

-- Nothing new appears there.
theorem WellNamed.of_node {fs fs' : FileSystem β} (h : WellNamed store fs)
    (hnode : ∀ q, InSnapshots store q → fs'.node q ≠ none → fs.node q ≠ none) :
    WellNamed store fs' :=
  fun vm disk m hm => h vm disk m (hnode _ (inSnapshots_file store vm disk m) hm)

theorem WellNamed.of_confined (h : WellNamed store w.fs) (hw : Confined (outside β store) w w') :
    WellNamed store w'.fs := by
  refine h.of_node fun q hq hthere => ?_
  rcases hw.same_or_none (fun hfree => hfree hq) fun _ hfresh => hfresh with hsame | hnone
  · rwa [hsame] at hthere
  · exact absurd hnone hthere

theorem mkdirs_named (h : WellNamed store w.fs) {r : Except PyError Unit}
    (hmk : mkdirs (store.snapshotsDir vm disk) w = (r, w')) : WellNamed store w'.fs := by
  have htouch : TouchesOnly (outside β store) (mkdirs (store.snapshotsDir vm disk)) w :=
    .mkdirs fun q hq _ => Or.inl (not_inSnapshots_above_snapshots hq)
  exact h.of_confined (htouch.confined hmk)

-- The file of a new snapshot is called after it.
theorem snapshotCreate_named (h : WellNamed store w.fs) {name : String} {r : Except PyError Snapshot}
    (hrun : store.snapshotCreate host vm disk name w = (r, w')) : WellNamed store w'.fs := by
  cases snapshotCreate_end hrun with
  | refused => exact h
  | stopped hmk => exact mkdirs_named h hmk
  | rolledBack hmk _ _ _ _ hnode =>
      refine (mkdirs_named h hmk).of_node fun q hq hthere => ?_
      rwa [hnode, if_neg (ne_diskFile_of_inSnapshots hq)] at hthere
  | taken _ _ hname hmk _ _ _ hfrozen hcreate =>
      intro vm' disk' m hm
      have hq := inSnapshots_file store vm' disk' m
      rw [createQcow2_other hcreate (ne_diskFile_of_inSnapshots hq), hfrozen] at hm
      by_cases hnew : store.snapshotsDir vm' disk' ++ [m] = store.snapshotFile vm disk name
      · exact ⟨name, hname, (entry_eq_iff.mp hnew).2.2⟩
      · rw [if_neg hnew, if_neg (ne_diskFile_of_inSnapshots hq)] at hm
        exact mkdirs_named h hmk vm' disk' m hm

-- What a call finds among the snapshots is there.
theorem getSnapshot_there {name : String} {snap : Snapshot} {t : World β}
    (h : store.getSnapshot host vm disk name w = (.ok snap, t)) : w.fs.node snap.path ≠ none := by
  obtain ⟨snaps, hlist, hsnap, -⟩ := getSnapshot_ok h
  obtain ⟨fileName, hfile, -, hpath, -⟩ := snapshotList_entry hlist hsnap
  rw [hpath]
  exact (mem_snapshotFileNames.mp hfile).1

theorem discard_new {p q : Path} {r : Except PyError Unit} (hp : w.fs.node p ≠ none)
    (h : (chmod p 0o644 >>= fun _ => unlink p) w = (r, w')) (hq : w'.fs.node q ≠ none) :
    w.fs.node q ≠ none := by
  by_cases he : q = p
  · exact he ▸ hp
  · rwa [(discard_node h).2 q he] at hq

theorem snapshotDelete_named (h : WellNamed store w.fs) {name : String} {r : Except PyError Unit}
    (hrun : store.snapshotDelete host vm disk name w = (r, w')) : WellNamed store w'.fs := by
  refine h.of_node fun q _ hthere => ?_
  cases snapshotDelete_end hrun with
  | refused => exact hthere
  | @unrebased e snap c child grandparent w₁ _ _ _ _ hchild _ hthaw hrebase =>
      by_cases he : q = child.path
      · exact he ▸ getSnapshot_there hchild
      · rwa [rebase_other hrebase he, (chmod_ok hthaw).2.2.2 q he] at hthere
  | leaf hget _ _ hdiscard => exact discard_new (getSnapshot_there hget) hdiscard hthere
  | @squashed r snap c child grandparent w₁ w₂ w₃ _ hget _ _ hchild _ hthaw hrebase hfreeze hdiscard =>
      have hback : ∀ q, q ≠ child.path → w₃.fs.node q = w.fs.node q := fun q hq => by
        rw [(chmod_ok hfreeze).2.2.2 q hq, rebase_other hrebase hq, (chmod_ok hthaw).2.2.2 q hq]
      by_cases he : q = child.path
      · exact he ▸ getSnapshot_there hchild
      · by_cases he' : q = snap.path
        · exact he' ▸ getSnapshot_there hget
        · rwa [(discard_node hdiscard).2 q he', hback q he] at hthere

theorem Call.named (h : WellNamed store w.fs) (c : Call) : WellNamed store (c.run host store w).2.fs := by
  cases c with
  | snapshotCreate vm disk name =>
      rw [Call.run, dropResult_world]
      exact snapshotCreate_named h rfl
  | snapshotDelete vm disk name => exact snapshotDelete_named h rfl
  | createDisk | resizeDisk | importImage | importDisk | cloneDisk | deleteDisk | snapshotRevert =>
      exact h.of_confined (Call.confined_outside rfl)

theorem guestWrite_named (h : WellNamed store w.fs) (b : β) :
    WellNamed store (guestWrite store vm disk b w).fs := by
  refine h.of_node fun q hq hthere => ?_
  unfold guestWrite at hthere
  split at hthere
  · rwa [FileSystem.put_node_of_ne _ (ne_diskFile_of_inSnapshots hq)] at hthere
  · exact hthere

-- So it is in every state that a store reaches, whatever is called and whatever guests write.
theorem run_named (hempty : EmptyHome store w.fs) (deeds : List (Deed β)) :
    WellNamed store (after (deed host store) w deeds).fs := by
  refine invariant_of_steps (fun w : World β => WellNamed store w.fs) deeds (fun vm disk m hm => ?_)
    fun w d h => ?_
  · exact absurd (hempty _ (spot_below store (.entry vm disk m))) hm
  · cases d with
    | call c => exact c.named h
    | guest vm disk b => exact guestWrite_named h b

end

end VMForge.Storage
