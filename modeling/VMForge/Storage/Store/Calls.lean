import VMForge.Storage.Store.Layout
import VMForge.Storage.Store.Snapshots

namespace VMForge.Storage

open Exec

-- A call of an operation that may change the store.
inductive Call where
  | createDisk (vm disk size preallocation : String) (clusterSize : Option String)
  | resizeDisk (vm disk newSize : String) (shrink : Bool)
  | importImage (src name : String) (srcFormat : Option String) (compress : Bool)
  | importDisk (src vm disk : String) (srcFormat : Option String)
  | cloneDisk (base vm disk : String) (size : Option String)
  | deleteDisk (vm disk : String) (force : Bool)
  | snapshotCreate (vm disk name : String)
  | snapshotRevert (vm disk name : String)
  | snapshotDelete (vm disk name : String)

section

variable {β : Type} (host : Host β) (store : DiskStore)

-- What is left of an operation when its result is not looked at.
def dropResult {α : Type} (x : Run β α) : Run β Unit := x >>= fun _ => pure ()

def Call.run : Call → Run β Unit
  | .createDisk vm disk size preallocation clusterSize =>
      dropResult (store.createDisk host vm disk size preallocation clusterSize)
  | .resizeDisk vm disk newSize shrink => store.resizeDisk host vm disk newSize shrink
  | .importImage src name srcFormat compress =>
      dropResult (store.importImage host src name srcFormat compress)
  | .importDisk src vm disk srcFormat => dropResult (store.importDisk host src vm disk srcFormat)
  | .cloneDisk base vm disk size => dropResult (store.cloneDisk host base vm disk size)
  | .deleteDisk vm disk force => store.deleteDisk vm disk force
  | .snapshotCreate vm disk name => dropResult (store.snapshotCreate host vm disk name)
  | .snapshotRevert vm disk name => store.snapshotRevert host vm disk name
  | .snapshotDelete vm disk name => store.snapshotDelete host vm disk name

end

section

variable {β : Type} {host : Host β} {store : DiskStore} {vm disk : String} {R : Room β}
  {w w' : World β}

theorem dropResult_world {α : Type} (x : Run β α) (w : World β) : (dropResult x w).2 = (x w).2 := by
  rcases hx : x w with ⟨e | a, w'⟩
  · rw [dropResult, bind_of_error hx]
  · rw [dropResult, bind_of_ok hx]
    rfl

theorem dropResult_isOk {α : Type} (x : Run β α) (w : World β) :
    (dropResult x w).1.isOk = (x w).1.isOk := by
  rcases hx : x w with ⟨e | a, w'⟩
  · rw [dropResult, bind_of_error hx]
    rfl
  · rw [dropResult, bind_of_ok hx]
    rfl

theorem getSnapshot_quiet (name : String) : Quiet (store.getSnapshot host vm disk name) := by
  refine .bind (snapshotList_quiet vm disk) fun snaps => ?_
  split
  · exact .pure _
  · exact .raise _

theorem getSnapshot_ok {n : String} {snap : Snapshot}
    (h : store.getSnapshot host vm disk n w = (.ok snap, w')) :
    ∃ snaps, store.snapshotList host vm disk w = (.ok snaps, w') ∧ snap ∈ snaps ∧ snap.name = n := by
  rw [DiskStore.getSnapshot, bind_eq_ok] at h
  obtain ⟨snaps, w₁, hlist, h⟩ := h
  cases hfind : snaps.find? fun snap => snap.name = n with
  | none => simp [hfind] at h
  | some found =>
      simp only [hfind, pure_eq_ok] at h
      obtain ⟨rfl, rfl⟩ := h
      exact ⟨snaps, hlist, List.mem_of_find?_eq_some hfind, by simpa using List.find?_some hfind⟩

-- A snapshot that is found has a file of a legal name.
theorem getSnapshot_file {n : String} {snap : Snapshot}
    (h : store.getSnapshot host vm disk n w = (.ok snap, w')) :
    (∃ fileName, snap.path = store.snapshotsDir vm disk ++ [fileName]) ∧
      ∀ n ∈ snap.path, Path.isComponent n = true := by
  obtain ⟨snaps, hlist, hsnap, -⟩ := getSnapshot_ok h
  obtain ⟨hvm, hdisk, -⟩ := snapshotList_ok hlist
  obtain ⟨fileName, hlegal, -, -, hpath⟩ := snapshotList_file hlist hsnap
  refine ⟨⟨fileName, hpath⟩, fun m hm => ?_⟩
  rcases List.mem_append.mp (hpath ▸ hm) with hm | hm
  · exact snapshotsDir_legal store hvm hdisk m hm
  · obtain rfl := List.mem_singleton.mp hm
    exact hlegal

theorem parentPath_quiet (parent : Option String) :
    Quiet (store.parentPath host vm disk parent) := by
  unfold DiskStore.parentPath
  split
  · exact .pure _
  · exact .bind (getSnapshot_quiet _) fun _ => .pure _

theorem clonePath_quiet (base : String) : Quiet (store.clonePath host base : Run β Path) := by
  refine .bind (.exists_ _) fun found => ?_
  split
  · exact .pure _
  · exact .bind (.exists_ _) fun _ => .bind (.raiseIf _ _) fun _ => .pure _

-- Where each operation writes.
section Touches

variable (hdirs : ∀ q, q <+: store.disksDir vm → w.fs.node q = none → R.free q ∨ R.fresh q .dir)

include hdirs in
theorem createDisk_touches {size preallocation : String} {clusterSize : Option String}
    (hdst : R.free (store.diskFile vm disk)) :
    TouchesOnly R (store.createDisk host vm disk size preallocation clusterSize) w := by
  refine .look (store.diskPath_quiet _ _) fun path hrun => ?_
  obtain ⟨-, -, rfl, -⟩ := store.diskPath_eq_ok.mp hrun
  refine .look (.exists_ _) fun found _ => .look (.raiseIf _ _) fun _ _ => ?_
  rw [diskFile_dropLast]
  exact .bind (.mkdirs hdirs) fun _ _ _ _ => .bind (createQcow2_touches hdst) fun _ _ _ _ => .pure _

include hdirs in
theorem importDisk_touches {src : String} {srcFormat : Option String}
    (hdst : R.free (store.diskFile vm disk)) :
    TouchesOnly R (store.importDisk host src vm disk srcFormat) w := by
  refine .look (.exists_ _) fun found _ => .look (.raiseIf _ _) fun _ _ => ?_
  refine .look (store.diskPath_quiet _ _) fun path hrun => ?_
  obtain ⟨-, -, rfl, -⟩ := store.diskPath_eq_ok.mp hrun
  refine .look (.exists_ _) fun taken _ => .look (.raiseIf _ _) fun _ _ => ?_
  rw [diskFile_dropLast]
  exact .bind (.mkdirs hdirs) fun _ _ _ _ => .bind (convert_touches hdst) fun _ _ _ _ => .pure _

include hdirs in
theorem cloneDisk_touches {base : String} {size : Option String}
    (hdst : R.free (store.diskFile vm disk)) :
    TouchesOnly R (store.cloneDisk host base vm disk size) w := by
  refine .look (clonePath_quiet _) fun basePath _ => .look (info_quiet _) fun baseInfo _ => ?_
  refine .look (store.diskPath_quiet _ _) fun path hrun => ?_
  obtain ⟨-, -, rfl, -⟩ := store.diskPath_eq_ok.mp hrun
  refine .look (.exists_ _) fun taken _ => .look (.raiseIf _ _) fun _ _ => ?_
  rw [diskFile_dropLast]
  exact .bind (.mkdirs hdirs) fun _ _ _ _ => .bind (createQcow2_touches hdst) fun _ _ _ _ => .pure _

end Touches

theorem importImage_touches {src name : String} {srcFormat : Option String} {compress : Bool}
    (hdirs : ∀ q, q <+: store.imagesDir → w.fs.node q = none → R.free q ∨ R.fresh q .dir)
    (hdst : R.free (store.imageFile name)) :
    TouchesOnly R (store.importImage host src name srcFormat compress) w := by
  refine .look (.exists_ _) fun found _ => .look (.raiseIf _ _) fun _ _ => ?_
  refine .look (validateName_quiet _ _) fun image hrun => ?_
  obtain ⟨-, rfl, -⟩ := validateName_eq_ok.mp hrun
  refine .look (.exists_ _) fun taken _ => .look (.raiseIf _ _) fun _ _ => ?_
  exact .bind (.mkdirs hdirs) fun _ _ _ _ => .bind (convert_touches hdst) fun _ _ _ _ => .pure _

theorem resizeDisk_touches {newSize : String} {shrink : Bool}
    (hdst : R.free (store.diskFile vm disk)) :
    TouchesOnly R (store.resizeDisk host vm disk newSize shrink) w := by
  refine .look (store.requireDisk_quiet _ _) fun path hrun => ?_
  obtain ⟨-, -, rfl, -⟩ := store.requireDisk_eq_ok.mp hrun
  exact resize_touches hdst

theorem deleteDisk_touches {force : Bool}
    (hactive : ∀ q, store.diskFile vm disk <+: q → R.free q ∨ R.gone q)
    (hsnaps : ∀ q, store.snapshotsDir vm disk <+: q → R.free q ∨ R.gone q) :
    TouchesOnly R (store.deleteDisk vm disk force : Run β Unit) w := by
  refine .look (store.requireDisk_quiet _ _) fun path hrun => ?_
  obtain ⟨-, -, rfl, -⟩ := store.requireDisk_eq_ok.mp hrun
  refine .look (store.snapshotDir_quiet _ _) fun snapDir hrun => ?_
  obtain ⟨-, -, rfl, -⟩ := store.snapshotDir_eq_ok.mp hrun
  have hrest : ∀ names : List String, TouchesOnly R (do
      raiseIf (!names.isEmpty && !force) (.storageError [.text "disk ", .repr (.str disk),
        .text " has snapshots; delete them first or use force"] .invalidState)
      unlink (store.diskFile vm disk)
      let hasDir ← exists_ (store.snapshotsDir vm disk)
      runIf hasDir (rmtree (store.snapshotsDir vm disk))) w := fun names => by
    refine .look (.raiseIf _ _) fun _ _ => .bind (.unlink hactive) fun _ _ _ _ => ?_
    exact .look (.exists_ _) fun hasDir _ => .runIf fun _ => .rmtree hsnaps
  refine .look (.exists_ _) fun hasDir _ => ?_
  split
  · exact .look (.iterdir _) fun names _ => hrest names
  · exact hrest []

theorem snapshotRevert_touches {name : String} (htmp : R.free (DiskStore.revertingPath
    (store.diskFile vm disk))) (hactive : R.free (store.diskFile vm disk)) :
    TouchesOnly R (store.snapshotRevert host vm disk name) w := by
  refine .look (store.requireDisk_quiet _ _) fun path hrun => ?_
  obtain ⟨-, -, rfl, -⟩ := store.requireDisk_eq_ok.mp hrun
  refine .look (getSnapshot_quiet _) fun snap _ => ?_
  exact .bind (createQcow2_touches htmp) fun _ _ _ _ => .rename (fun _ => Or.inl htmp) (Or.inl hactive)

-- How a call of `snapshot_create` ends: with nothing done but directories made, with the overlay
-- back in its place, or with the overlay frozen and a new one on top of it.
inductive CreateEnd (host : Host β) (store : DiskStore) (vm disk name : String) (w : World β) :
    Except PyError Snapshot → World β → Prop where
  | refused {e} : CreateEnd host store vm disk name w (.error e) w
  | stopped {e w₁} (hmk : mkdirs (store.snapshotsDir vm disk) w = (.ok (), w₁)) :
      CreateEnd host store vm disk name w (.error e) w₁
  | rolledBack {e f w₁ w₂ w₃ w'} (hmk : mkdirs (store.snapshotsDir vm disk) w = (.ok (), w₁))
      (hactive : w.fs.node (store.diskFile vm disk) = some (.file f))
      (hfree : w.fs.node (store.snapshotFile vm disk name) = none)
      (hfrozen : ∀ q, w₂.fs.node q = if q = store.snapshotFile vm disk name then
        some (.file ⟨f.blob, 0o444⟩) else if q = store.diskFile vm disk then none else w₁.fs.node q)
      (hcreate : createQcow2 host (store.diskFile vm disk) none
        (some (store.snapshotFile vm disk name, "qcow2")) "off" none w₂ = (.error e, w₃))
      (hnode : ∀ q, w'.fs.node q = if q = store.diskFile vm disk then
        some (.file ⟨f.blob, 0o644⟩) else w₁.fs.node q) :
      CreateEnd host store vm disk name w (.error e) w'
  | taken {f inf w₁ w₂ w' snap} (hvm : nameMatches vm = true) (hdisk : nameMatches disk = true)
      (hname : nameMatches name = true) (hmk : mkdirs (store.snapshotsDir vm disk) w = (.ok (), w₁))
      (hactive : w.fs.node (store.diskFile vm disk) = some (.file f))
      (hfree : w.fs.node (store.snapshotFile vm disk name) = none)
      (hinfo : info host (store.diskFile vm disk) w₁ = (.ok inf, w₁))
      (hfrozen : ∀ q, w₂.fs.node q = if q = store.snapshotFile vm disk name then
        some (.file ⟨f.blob, 0o444⟩) else if q = store.diskFile vm disk then none else w₁.fs.node q)
      (hcreate : createQcow2 host (store.diskFile vm disk) none
        (some (store.snapshotFile vm disk name, "qcow2")) "off" none w₂ = (.ok (), w')) :
      CreateEnd host store vm disk name w (.ok snap) w'

-- The overlay, renamed and frozen.
theorem freeze_returns {active snapPath : Path} {u : Unit}
    (h : rename active snapPath w = (.ok u, w')) : ∃ f w₂, w.fs.node active = some (.file f) ∧
      chmod snapPath 0o444 w' = (.ok (), w₂) ∧ ∀ q, w₂.fs.node q =
        if q = snapPath then some (.file ⟨f.blob, 0o444⟩)
        else if q = active then none else w.fs.node q := by
  obtain ⟨f, hf, -, -, hmoved⟩ := rename_ok h
  have hsnap : w'.fs.node snapPath = some (.file f) := by
    rw [hmoved, if_pos rfl]
  obtain ⟨w₂, hchmod⟩ := @chmod_returns _ w' snapPath 0o444 (by simp [hsnap])
  obtain ⟨-, hfile, -, hother⟩ := chmod_ok hchmod
  refine ⟨f, w₂, hf, hchmod, fun q => ?_⟩
  split
  · rename_i hq
    rw [hq, hfile f hsnap]
  · rename_i hq
    rw [hother q hq, hmoved, if_neg hq]

-- A file that was frozen can be put back.
theorem rollBack_returns {active snapPath : Path} {f : File β} (e : PyError)
    (hsnap : w.fs.node snapPath = some (.file f)) (hne : active ≠ snapPath)
    (hactive : w.fs.node active ≠ some .dir) (hname : Path.isComponent (Path.name active) = true)
    (hdir : w.fs.node active.dropLast = some .dir) (hapart : active.dropLast ≠ snapPath) :
    ∃ w', (do
        chmod snapPath 0o644
        rename snapPath active
        raise e : Run β Unit) w = (.error e, w') ∧
      ∀ q, w'.fs.node q = if q = active then some (.file ⟨f.blob, 0o644⟩)
        else if q = snapPath then none else w.fs.node q := by
  obtain ⟨w₁, hchmod⟩ := @chmod_returns _ w snapPath 0o644 (by simp [hsnap])
  obtain ⟨-, hfile, -, hother⟩ := chmod_ok hchmod
  have hfault : createFault w₁.fs active = none :=
    createFault_none_iff.mpr ⟨hname, by rwa [hother _ hne], by rwa [hother _ hapart]⟩
  obtain ⟨w₂, hrename⟩ := rename_returns (hfile f hsnap) hfault
  obtain ⟨f', hf', -, -, hnode⟩ := rename_ok hrename
  obtain rfl : _ = f' := Node.file.inj (Option.some.inj ((hfile f hsnap).symm.trans hf'))
  refine ⟨w₂, ?_, fun q => ?_⟩
  · rw [bind_of_ok hchmod, bind_of_ok hrename]
    rfl
  · rw [hnode]
    split
    · rfl
    · split
      · rfl
      · rename_i hq
        exact hother q hq

-- When the new overlay cannot be made, the old one is put back.
theorem create_rolledBack {name : String} {f : File β} {e : PyError} {w₁ w₂ w₃ : World β}
    (hmk : mkdirs (store.snapshotsDir vm disk) w = (.ok (), w₁))
    (hactive : w.fs.node (store.diskFile vm disk) = some (.file f))
    (hfree : w.fs.node (store.snapshotFile vm disk name) = none)
    (hfrozen : ∀ q, w₂.fs.node q = if q = store.snapshotFile vm disk name then
      some (.file ⟨f.blob, 0o444⟩) else if q = store.diskFile vm disk then none else w₁.fs.node q)
    (hcreate : createQcow2 host (store.diskFile vm disk) none
      (some (store.snapshotFile vm disk name, "qcow2")) "off" none w₂ = (.error e, w₃)) :
    ∃ w', (do
        chmod (store.snapshotFile vm disk name) 0o644
        rename (store.snapshotFile vm disk name) (store.diskFile vm disk)
        raise e : Run β Unit) w₃ = (.error e, w') ∧
      ∀ q, w'.fs.node q = if q = store.diskFile vm disk then some (.file ⟨f.blob, 0o644⟩)
        else w₁.fs.node q := by
  have hthere : w.fs.node (store.diskFile vm disk) ≠ none := by simp [hactive]
  have hne := diskFile_ne_snapshotFile store vm disk disk name
  have hkept : ∀ q, q ≠ store.diskFile vm disk → q ≠ store.snapshotFile vm disk name →
      w₃.fs.node q = w₁.fs.node q := fun q hq hq' => by
    rw [createQcow2_other hcreate hq, hfrozen, if_neg hq', if_neg hq]
  have hsnap : w₃.fs.node (store.snapshotFile vm disk name) = some (.file ⟨f.blob, 0o444⟩) := by
    rw [createQcow2_other hcreate hne.symm, hfrozen, if_pos rfl]
  have hdir : w₃.fs.node (store.disksDir vm) = some .dir := by
    have hold : w.fs.node (store.disksDir vm) = some .dir := w.fs.parent _ _ hthere
    rw [hkept _ (disksDir_ne_diskFile vm disk) (disksDir_ne_snapshotFile vm vm disk name),
      mkdirs_keep hmk (by simp [hold]), hold]
  have hnotdir : w₃.fs.node (store.diskFile vm disk) ≠ some .dir := by
    have hgone : w₂.fs.node (store.diskFile vm disk) = none := by
      rw [hfrozen, if_neg hne, if_pos rfl]
    rcases createQcow2_target hcreate with hsame | ⟨-, b, hb⟩
    · simp [hsame, hgone]
    · simp [hb]
  have hlegal : Path.isComponent (Path.name (store.diskFile vm disk)) = true := by
    simpa [DiskStore.diskFile] using w.fs.legal _ _ hthere
  obtain ⟨w', hback, hnode⟩ := rollBack_returns e hsnap hne hnotdir hlegal
    (by rwa [diskFile_dir]) (by rw [diskFile_dir]; exact disksDir_ne_snapshotFile vm vm disk name)
  refine ⟨w', hback, fun q => ?_⟩
  rw [hnode]
  split
  · rfl
  · rename_i hq
    split
    · rename_i hq'
      rw [hq']
      exact (((mkdirs_ok hmk).2 _ (not_concat_below _ _)).trans hfree).symm
    · rename_i hq'
      exact hkept q hq hq'

theorem snapshotCreate_end {name : String} {r : Except PyError Snapshot}
    (h : store.snapshotCreate host vm disk name w = (r, w')) :
    CreateEnd host store vm disk name w r w' := by
  rw [DiskStore.snapshotCreate] at h
  rcases (store.requireDisk_quiet vm disk).bind_cases h with ⟨e, rfl, rfl⟩ | ⟨active, hrun, h⟩
  · exact .refused
  obtain ⟨hvm, hdisk, rfl, hthere, -⟩ := store.requireDisk_eq_ok.mp hrun
  rcases (store.snapshotPath_quiet vm disk name).bind_cases h with ⟨e, rfl, rfl⟩ | ⟨snapPath, hrun, h⟩
  · exact .refused
  obtain ⟨-, -, hname, rfl, -⟩ := store.snapshotPath_eq_ok.mp hrun
  rcases Quiet.bind_cases (.exists_ _) h with ⟨e, rfl, rfl⟩ | ⟨taken, htaken, h⟩
  · exact .refused
  rcases Quiet.bind_cases (.raiseIf _ _) h with ⟨e, rfl, rfl⟩ | ⟨_, hraise, h⟩
  · exact .refused
  have hfree : w.fs.node (store.snapshotFile vm disk name) = none := by
    rw [← (exists_eq_ok.mp htaken).1] at hraise
    simpa [FileSystem.exists_] using (raiseIf_eq_ok.mp hraise).1
  rw [snapshotFile_dir] at h
  rcases hmk : mkdirs (store.snapshotsDir vm disk) w with ⟨e | _, w₁⟩
  · obtain ⟨rfl, -⟩ := mkdirs_error (snapshotsDir_legal store hvm hdisk) hmk
    rw [bind_of_error hmk] at h
    obtain ⟨rfl, rfl⟩ := Prod.mk.inj h
    exact .refused
  rw [bind_of_ok hmk] at h
  rcases (info_quiet _).bind_cases h with ⟨e, rfl, rfl⟩ | ⟨inf, hinfo, h⟩
  · exact .stopped hmk
  rcases hrename : rename (store.diskFile vm disk) (store.snapshotFile vm disk name) w₁ with
    ⟨e | _, wr⟩
  · rw [bind_of_error hrename] at h
    obtain ⟨rfl, rfl⟩ := Prod.mk.inj h
    rw [rename_error hrename]
    exact .stopped hmk
  obtain ⟨f, w₂, hf, hchmod, hfrozen⟩ := freeze_returns hrename
  rw [bind_of_ok hrename, bind_of_ok hchmod] at h
  have hactive : w.fs.node (store.diskFile vm disk) = some (.file f) := by
    rw [← mkdirs_keep hmk hthere, hf]
  rcases hcreate : createQcow2 host (store.diskFile vm disk) none
      (some (store.snapshotFile vm disk name, "qcow2")) "off" none w₂ with ⟨e | _, w₃⟩
  · obtain ⟨w₄, hback, hnode⟩ := create_rolledBack hmk hactive hfree hfrozen hcreate
    rw [bind_of_error ((tryExcept_of_error hcreate).trans hback)] at h
    obtain ⟨rfl, rfl⟩ := Prod.mk.inj h
    exact .rolledBack hmk hactive hfree hfrozen hcreate hnode
  · rw [bind_of_ok (tryExcept_of_ok hcreate), bind_of_ok (backingName_run hvm hdisk _)] at h
    obtain ⟨rfl, rfl⟩ := Prod.mk.inj h
    exact .taken hvm hdisk hname hmk hactive hfree hinfo hfrozen hcreate

-- How a call of `snapshot_delete` ends: with nothing done, at the rebase of the one child, or with
-- an attempt to remove the file.
inductive DeleteEnd (host : Host β) (store : DiskStore) (vm disk name : String) (w : World β) :
    Except PyError Unit → World β → Prop where
  | refused {e} : DeleteEnd host store vm disk name w (.error e) w
  | unrebased {e snap c child grandparent w₁ w'}
      (hget : store.getSnapshot host vm disk name w = (.ok snap, w))
      (hcurrent : snap.current = false) (hchildren : snap.children = [c])
      (hchild : store.getSnapshot host vm disk c w = (.ok child, w))
      (hparent : store.parentPath host vm disk snap.parent w = (.ok grandparent, w))
      (hthaw : chmod child.path 0o644 w = (.ok (), w₁))
      (hrebase : rebase host child.path grandparent false w₁ = (.error e, w')) :
      DeleteEnd host store vm disk name w (.error e) w'
  | leaf {r snap w'} (hget : store.getSnapshot host vm disk name w = (.ok snap, w))
      (hcurrent : snap.current = false) (hchildren : snap.children = [])
      (hdiscard : (chmod snap.path 0o644 >>= fun _ => unlink snap.path) w = (r, w')) :
      DeleteEnd host store vm disk name w r w'
  | squashed {r snap c child grandparent w₁ w₂ w₃ w'}
      (hget : store.getSnapshot host vm disk name w = (.ok snap, w))
      (hcurrent : snap.current = false) (hchildren : snap.children = [c])
      (hchild : store.getSnapshot host vm disk c w = (.ok child, w))
      (hparent : store.parentPath host vm disk snap.parent w = (.ok grandparent, w))
      (hthaw : chmod child.path 0o644 w = (.ok (), w₁))
      (hrebase : rebase host child.path grandparent false w₁ = (.ok (), w₂))
      (hfreeze : chmod child.path 0o444 w₂ = (.ok (), w₃))
      (hdiscard : (chmod snap.path 0o644 >>= fun _ => unlink snap.path) w₃ = (r, w')) :
      DeleteEnd host store vm disk name w r w'

theorem snapshotDelete_end {name : String} {r : Except PyError Unit}
    (h : store.snapshotDelete host vm disk name w = (r, w')) :
    DeleteEnd host store vm disk name w r w' := by
  rw [DiskStore.snapshotDelete] at h
  rcases (getSnapshot_quiet name).bind_cases h with ⟨e, rfl, rfl⟩ | ⟨snap, hget, h⟩
  · exact .refused
  rcases Quiet.bind_cases (.raiseIf _ _) h with ⟨e, rfl, rfl⟩ | ⟨_, hraise, h⟩
  · exact .refused
  have hcurrent : snap.current = false := (raiseIf_eq_ok.mp hraise).1
  rcases hchildren : snap.children with _ | ⟨c, _ | ⟨c', rest⟩⟩
  · simp only [hchildren] at h
    exact .leaf hget hcurrent hchildren h
  · simp only [hchildren, DiskStore.squashInto, Exec.bind_assoc] at h
    rcases (getSnapshot_quiet c).bind_cases h with ⟨e, rfl, rfl⟩ | ⟨child, hchild, h⟩
    · exact .refused
    rcases (parentPath_quiet _).bind_cases h with ⟨e, rfl, rfl⟩ | ⟨grandparent, hparent, h⟩
    · exact .refused
    rcases hthaw : chmod child.path 0o644 w with ⟨e | _, w₁⟩
    · rw [bind_of_error hthaw, (chmod_error hthaw).1] at h
      obtain ⟨rfl, rfl⟩ := Prod.mk.inj h
      exact .refused
    rw [bind_of_ok hthaw] at h
    rcases hrebase : rebase host child.path grandparent false w₁ with ⟨e | _, w₂⟩
    · rw [bind_of_error hrebase] at h
      obtain ⟨rfl, rfl⟩ := Prod.mk.inj h
      exact .unrebased hget hcurrent hchildren hchild hparent hthaw hrebase
    rw [bind_of_ok hrebase] at h
    obtain ⟨w₃, hfreeze⟩ := @chmod_returns _ w₂ child.path 0o444 (rebase_keeps hrebase (chmod_keeps hthaw))
    rw [bind_of_ok hfreeze] at h
    exact .squashed hget hcurrent hchildren hchild hparent hthaw hrebase hfreeze h
  · simp only [hchildren] at h
    obtain ⟨rfl, rfl⟩ := Prod.mk.inj h
    exact .refused

theorem discard_system (p : Path) :
    Raises IsSystem (chmod p 0o644 >>= fun _ => unlink p : Run β Unit) :=
  .bind (chmod_system _ _) fun _ => unlink_system _

-- Removing a file leaves none in its place.
theorem discard_node {p : Path} {r : Except PyError Unit}
    (h : (chmod p 0o644 >>= fun _ => unlink p) w = (r, w')) :
    (∀ f, w'.fs.node p ≠ some (.file f)) ∧ ∀ q, q ≠ p → w'.fs.node q = w.fs.node q := by
  rcases hthaw : chmod p 0o644 w with ⟨e | _, w₁⟩
  · rw [bind_of_error hthaw] at h
    obtain ⟨-, rfl⟩ := Prod.mk.inj h
    obtain ⟨rfl, hnone⟩ := chmod_error hthaw
    simp [hnone]
  rw [bind_of_ok hthaw] at h
  obtain ⟨hex, hfile, hdir, hother⟩ := chmod_ok hthaw
  rcases hn : w.fs.node p with _ | _ | f
  · exact absurd hn hex
  · -- no directory is removed so
    rcases r with e | _
    · rw [unlink_error h]
      exact ⟨fun f => by simp [hdir hn], hother⟩
    · obtain ⟨⟨f, hf⟩, -⟩ := unlink_ok h
      rw [hdir hn] at hf
      cases hf
  · obtain ⟨w₂, hunlink⟩ := unlink_returns (hfile f hn)
    obtain ⟨-, rfl⟩ := Prod.mk.inj (hunlink.symm.trans h)
    obtain ⟨-, hnode⟩ := unlink_ok hunlink
    refine ⟨fun f => by simp [hnode], fun q hq => ?_⟩
    rw [hnode, if_neg hq, hother q hq]

end

end VMForge.Storage
