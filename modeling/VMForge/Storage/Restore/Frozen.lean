import VMForge.Storage.Memory.Disks
import VMForge.Storage.Restore.Forest
import VMForge.Storage.Store.Frozen
import VMForge.Storage.Store.Tree
import VMForge.Base.Run

namespace VMForge.Storage

open Exec

section

variable {β : Type} {host : Host β} {store : DiskStore} {vm disk : String} {staging : Path}
  {tar : Archive β} {manifest : Json} {w w' : World β} {P : Path → Prop}

-- Among the snapshots of a VM that is being assembled there are only files, and they are read-only
-- but in the places `P`.
def FrozenBut (store : DiskStore) (vm : String) (P : Path → Prop) (fs : FileSystem β) : Prop :=
  ∀ q, InSnapshots store q → store.vmRoot vm <+: q → fs.node q ≠ none →
    ∃ f, fs.node q = some (.file f) ∧ (f.mode = 0o444 ∨ P q)

-- The places of the snapshots that `records` stand for.
def slotsOf (store : DiskStore) (vm disk : String) (records : List Json) (q : Path) : Prop :=
  ∃ r ∈ records, ∃ n, recordName r = some n ∧ q = store.snapshotFile vm disk n

theorem FrozenBut.of_confined (h : FrozenBut store vm P w.fs)
    (hw : Confined (outside β store) w w') : FrozenBut store vm P w'.fs := by
  intro q hq hroot hthere
  rcases hw.same_or_none (fun hfree => hfree hq) fun _ hfresh => hfresh with hsame | hnone
  · rw [hsame] at hthere ⊢
    exact h q hq hroot hthere
  · exact absurd hnone hthere

theorem FrozenBut.not_dir (h : FrozenBut store vm P w.fs) {q : Path} (hq : InSnapshots store q)
    (hroot : store.vmRoot vm <+: q) : w.fs.node q ≠ some .dir := by
  intro hd
  obtain ⟨f, hf, -⟩ := h q hq hroot (by simp [hd])
  rw [hd] at hf
  cases hf

-- A layer is moved into its place.
theorem moveSnapshot_frozen (h : FrozenBut store vm P w.fs) {snap : Json} {u : Unit}
    (hP : ∀ q, slotsOf store vm disk [snap] q → P q)
    (hmove : moveSnapshot store vm disk staging snap w = (.ok u, w')) :
    FrozenBut store vm P w'.fs := by
  obtain ⟨name, arc, t, hname, -, -, hmk, hmove⟩ := moveSnapshot_ok hmove
  rw [snapshotFile_dir] at hmk
  have hmade : TouchesOnly (outside β store) (mkdirs (store.snapshotsDir vm disk)) w :=
    .mkdirs fun q hq _ => Or.inl (not_inSnapshots_above_snapshots hq)
  have ht := h.of_confined (hmade.confined hmk)
  obtain ⟨f, -, -, -, hnode⟩ := move_ok hmove
  have hin := inSnapshots_snapshotFile store vm disk name
  rw [moveTarget_of_not_dir (ht.not_dir hin (snapshotFile_below store vm disk name).1)] at hnode
  intro q hq hroot hthere
  rw [hnode] at hthere ⊢
  by_cases hdst : q = store.snapshotFile vm disk name
  · rw [if_pos hdst]
    exact ⟨f, rfl, Or.inr (hP q ⟨snap, List.mem_cons_self, name, recordName_eq_some.mpr hname, hdst⟩)⟩
  · rw [if_neg hdst] at hthere ⊢
    by_cases hsrc : q = joinStr staging arc
    · exact absurd (if_pos hsrc) hthere
    · rw [if_neg hsrc] at hthere ⊢
      exact ht q hq hroot hthere

-- The layer is pointed at its parent and frozen.
theorem rebaseSnapshot_frozen {Q : Path → Prop} (h : FrozenBut store vm P w.fs) {snap : Json}
    {u : Unit} (hP : ∀ q, P q → slotsOf store vm disk [snap] q ∨ Q q)
    (hrebase : rebaseSnapshot host store vm disk snap w = (.ok u, w')) :
    FrozenBut store vm Q w'.fs := by
  obtain ⟨name, parent, parentPath, t, hname, -, -, -, hrebase, hchmod⟩ := rebaseSnapshot_ok hrebase
  obtain ⟨hex, hfile, hdir, hother⟩ := chmod_ok hchmod
  have hin := inSnapshots_snapshotFile store vm disk name
  have hnotdir : t.fs.node (store.snapshotFile vm disk name) ≠ some .dir := by
    rcases runQemuImg_target hrebase with hsame | ⟨-, b, hb⟩
    · intro hd
      exact h.not_dir hin (snapshotFile_below store vm disk name).1 (hsame.symm.trans hd)
    · intro hd
      cases hb.symm.trans hd
  intro q hq hroot hthere
  by_cases hdst : q = store.snapshotFile vm disk name
  · subst hdst
    rcases hn : t.fs.node (store.snapshotFile vm disk name) with _ | _ | f
    · exact absurd hn hex
    · exact absurd hn hnotdir
    · exact ⟨_, hfile f hn, Or.inl rfl⟩
  · rw [hother q hdst, rebase_other hrebase hdst] at hthere ⊢
    obtain ⟨f, hf, hmode | hp⟩ := h q hq hroot hthere
    · exact ⟨f, hf, Or.inl hmode⟩
    · rcases hP q hp with ⟨r, hr, n, hn, hqn⟩ | hq'
      · obtain rfl := List.mem_singleton.mp hr
        obtain rfl := Option.some.inj ((recordName_eq_some.mpr hname).symm.trans hn)
        exact absurd hqn hdst
      · exact ⟨f, hf, Or.inr hq'⟩

-- The loop over the snapshots of a disk leaves none of its places open.
theorem rebaseSnapshots_frozen {snaps : List Json} {u : Unit}
    (h : FrozenBut store vm (slotsOf store vm disk snaps) w.fs)
    (hloop : forEach snaps (rebaseSnapshot host store vm disk) w = (.ok u, w')) :
    FrozenBut store vm (fun _ => False) w'.fs := by
  induction snaps generalizing w with
  | nil =>
      obtain ⟨-, rfl⟩ := pure_eq_ok.mp hloop
      intro q hq hroot hthere
      obtain ⟨f, hf, hmode | ⟨r, hr, -⟩⟩ := h q hq hroot hthere
      · exact ⟨f, hf, Or.inl hmode⟩
      · cases hr
  | cons snap snaps ih =>
      rw [forEach_cons, bind_eq_ok] at hloop
      obtain ⟨_, t, hturn, hrest⟩ := hloop
      refine ih (rebaseSnapshot_frozen h (fun q hq => ?_) hturn) hrest
      obtain ⟨r, hr, n, hn, hqn⟩ := hq
      rcases List.mem_cons.mp hr with rfl | hr
      · exact Or.inl ⟨r, List.mem_cons_self, n, hn, hqn⟩
      · exact Or.inr ⟨r, hr, n, hn, hqn⟩

theorem outside_move {src dst : Path} (hdst : ¬InSnapshots store dst)
    (hin : ∀ n, ¬InSnapshots store (dst ++ [n])) : TouchesOnly (outside β store) (move src dst) w :=
  .move (fun _ => Or.inr trivial) (fun _ => Or.inl hdst) fun _ => hin _

theorem placeActive_outside {diskSection : Json} : TouchesOnly (outside β store)
    (placeActive host store vm disk staging diskSection) w := by
  refine .look (store.diskPath_quiet _ _) fun path hrun => ?_
  obtain ⟨-, -, rfl, -⟩ := store.diskPath_eq_ok.mp hrun
  have hdst : (outside β store).free (store.diskFile vm disk) := not_inSnapshots_diskFile vm disk
  rw [diskFile_dir]
  refine .bind (.mkdirs fun q hq _ => Or.inl (not_inSnapshots_above_disks hq)) fun _ w₁ _ _ => ?_
  refine .look (.ofExcept _) fun active _ => ?_
  split
  · refine .look (.ofExcept _) fun arc _ => .bind (outside_move hdst fun n => ?_) fun _ _ _ _ => ?_
    · rw [DiskStore.diskFile, List.append_assoc]
      exact not_inSnapshots_disks (List.prefix_append _ _)
    · refine .look (.ofExcept _) fun _ _ => .look (resolveParent_quiet _ _ _) fun _ _ => ?_
      exact rebase_touches hdst
  · refine .look (.ofExcept _) fun _ _ => .look (.raiseIf _ _) fun _ _ => ?_
    exact .look (snapshotPathOf_quiet _ _ _) fun _ _ => createQcow2_touches hdst

-- The config files are not as deep as the snapshots.
theorem moveConfig_outside {r : Json} :
    TouchesOnly (outside β store) (moveConfig store vm staging r) w := by
  refine .look (.ofExcept _) fun arc _ => ?_
  have hshallow : ∀ rest : Path, rest.length ≤ 2 → ¬InSnapshots store (store.vmRoot vm ++ rest) := by
    intro rest hrest h
    have hlen := h.length
    simp only [DiskStore.vmRoot, DiskStore.vmsDir, List.length_append, List.length_cons,
      List.length_nil] at hlen
    omega
  rcases joinName_cases (store.vmRoot vm) arc with he | ⟨n, he⟩
  · rw [he]
    exact outside_move (by simpa using hshallow [] (by simp)) fun m => hshallow [m] (by simp)
  · rw [he]
    refine outside_move (hshallow [n] (by simp)) fun m => ?_
    rw [List.append_assoc]
    exact hshallow [n, m] (by simp)

theorem assembleDisk_frozen (h : FrozenBut store vm (fun _ => False) w.fs) {item : String × Json}
    {k : Nat} (hrun : assembleDisk host store vm staging item w = (.ok k, w')) :
    FrozenBut store vm (fun _ => False) w'.fs := by
  obtain ⟨-, snaps, t₁, t₂, -, hmoves, hrebases, hactive, -⟩ := assembleDisk_ok hrun
  have h₀ : FrozenBut store vm (slotsOf store vm item.1 snaps) w.fs := by
    intro q hq hroot hthere
    obtain ⟨f, hf, hmode⟩ := h q hq hroot hthere
    exact ⟨f, hf, Or.inl (hmode.resolve_right id)⟩
  obtain ⟨hmoved, -⟩ := forEach_turns
    (fun t t' : World β => FrozenBut store vm (slotsOf store vm item.1 snaps) t.fs →
      FrozenBut store vm (slotsOf store vm item.1 snaps) t'.fs)
    (fun _ => id) (fun hab hbc ha => hbc (hab ha)) hmoves fun r hr t t' _ hturn ht => by
      refine moveSnapshot_frozen ht (fun q hq => ?_) hturn
      obtain ⟨r', hr', hrest⟩ := hq
      obtain rfl := List.mem_singleton.mp hr'
      exact ⟨r', hr, hrest⟩
  exact (rebaseSnapshots_frozen (hmoved h₀) hrebases).of_confined
    (placeActive_outside.confined hactive)

theorem assembleVm_frozen (h : FrozenBut store vm (fun _ => False) w.fs) {result : RestoreResult}
    (hrun : assembleVm host store vm manifest staging w = (.ok result, w')) :
    FrozenBut store vm (fun _ => False) w'.fs := by
  obtain ⟨items, counts, config, checks, t, -, hdisks, -, hmoves, -⟩ := assembleVm_ok hrun
  obtain ⟨hall, -⟩ := mapEach_turns
    (fun t t' : World β => FrozenBut store vm (fun _ => False) t.fs →
      FrozenBut store vm (fun _ => False) t'.fs)
    (fun _ => id) (fun hab hbc ha => hbc (hab ha)) hdisks fun item _ k t t' _ hturn ht =>
      assembleDisk_frozen ht hturn
  have hconfig : TouchesOnly (outside β store) (forEach config (moveConfig store vm staging)) t :=
    .forEach fun r _ _ _ => moveConfig_outside
  exact (hall h).of_confined (hconfig.confined hmoves)

theorem restore_frozen (h : Frozen store w.fs) {bundlePath : Path} {asVm : Option String}
    {force : Bool} {r : Except PyError RestoreResult}
    (hrun : restore host store bundlePath asVm force w = (r, w')) : Frozen store w'.fs := by
  rcases openBundle_error_or_opens host bundlePath asVm w with
    ⟨e, hclosed⟩ | ⟨tar, manifest, vm, hopen⟩
  · rw [restore_of_closed hclosed] at hrun
    obtain ⟨-, rfl⟩ := Prod.mk.inj hrun
    exact h
  refine h.of_node fun q f hq hf => ?_
  by_cases hroot : store.vmRoot vm <+: q
  · rcases r with e | result
    · -- after a failure a directory that was to be replaced is gone
      rw [root_after_failure hopen hrun hroot] at hf
      split at hf
      · cases hf
      · exact Or.inl hf
    · obtain ⟨staging, w₂, wa, wb, wc, w₃, hdone⟩ := restore_completed hopen hrun
      have hcleared : FrozenBut store vm (fun _ => False) wc.fs := by
        intro q _ hroot hthere
        rw [hdone.cleared, if_pos hroot] at hthere
        exact absurd rfl hthere
      rw [hdone.layer_after hroot] at hf
      obtain ⟨f', hf', hmode⟩ := assembleVm_frozen hcleared hdone.assembled q hq hroot (by simp [hf])
      rw [hf] at hf'
      rw [Node.file.inj (Option.some.inj hf')]
      exact Or.inr (hmode.resolve_right id)
  · -- other VMs are not touched
    left
    obtain ⟨vm', disk, hbelow⟩ := hq
    have hvm' : store.vmRoot vm' <+: q := (List.prefix_append _ _).trans hbelow.1
    have hne : vm' ≠ vm := by
      rintro rfl
      exact hroot hvm'
    obtain ⟨hfree, hfresh⟩ := restoreRoom_other_vm w hne hvm'
    rw [← ((restore_touches hopen).confined hrun).same hfree id hfresh, hf]

end

section

variable {β : Type}

-- `check_disk(vm, disk, repair=True)`. What qemu-img makes of the overlay is not known beforehand.
def repairDisk (store : DiskStore) (vm disk : String) (reply : Reply β) : Run β Unit := do
  let path ← store.requireDisk vm disk
  let w ← read
  match w.fs.node path, reply.content with
  | some (.file f), some b => record (.qemuImg path) (·.put path (.file ⟨b, f.mode⟩))
  | _, _ => pure ()
  match reply.failure with
  | none => pure ()
  | some failure => raise (.qemuImgError ["check", "--output=json", "-r", "all", Path.toString path]
      failure.returncode failure.stderr)

-- One turn of a run: a call of the store, or a restore.
inductive Turn (β : Type) where
  | call (c : Call)
  | list (vm disk : String)
  | tree (vm disk : String)
  | check (vm disk : String)
  | repair (vm disk : String) (reply : Reply β)
  | restore (bundlePath : Path) (asVm : Option String) (force : Bool)

variable (host : Host β) (store : DiskStore)

def Turn.run : Turn β → Run β Unit
  | .call c => c.run host store
  | .list vm disk => dropResult (store.snapshotList host vm disk)
  | .tree vm disk => dropResult (store.snapshotTree host vm disk)
  | .check vm disk => dropResult (store.checkDisk host vm disk)
  | .repair vm disk reply => repairDisk store vm disk reply
  | .restore bundlePath asVm force => dropResult (Storage.restore host store bundlePath asVm force)

-- The state a turn leaves, whether it returns or raises.
def turn (w : World β) (t : Turn β) : World β := (t.run host store w).2

-- The turn is a deletion whose rebase fails.
def Turn.Thaws (w : World β) : Turn β → Prop
  | .call c => c.Thaws host store w
  | _ => False

variable {host : Host β} {store : DiskStore} {w : World β}

theorem repairDisk_outside {vm disk : String} {reply : Reply β} :
    TouchesOnly (outside β store) (repairDisk store vm disk reply) w := by
  refine .look (store.requireDisk_quiet _ _) fun path hrun => ?_
  obtain ⟨-, -, rfl, -⟩ := store.requireDisk_eq_ok.mp hrun
  apply TouchesOnly.read_bind
  have hend : ∀ w', TouchesOnly (outside β store) (match reply.failure with
      | none => pure ()
      | some failure => raise (.qemuImgError ["check", "--output=json", "-r", "all",
          Path.toString (store.diskFile vm disk)] failure.returncode failure.stderr)) w' := by
    intro w'
    cases reply.failure with
    | none => exact .pure _
    | some failure => exact .raise _
  rcases hn : w.fs.node (store.diskFile vm disk) with _ | _ | f
  · exact hend w
  · exact hend w
  · rcases hb : reply.content with _ | b
    · exact hend w
    · refine .bind (.put (fun _ => Iff.rfl) (by simp) (Or.inl (not_inSnapshots_diskFile vm disk)))
        fun _ w' _ _ => hend w'

theorem turn_frozen_iff (h : Frozen store w.fs) (t : Turn β) :
    Frozen store (turn host store w t).fs ↔ ¬t.Thaws host store w := by
  cases t with
  | call c => exact c.frozen_iff h
  | list vm disk =>
      rw [turn, Turn.run, dropResult_world, snapshotList_quiet]
      exact iff_of_true h id
  | tree vm disk =>
      rw [turn, Turn.run, dropResult_world, snapshotTree_quiet]
      exact iff_of_true h id
  | check vm disk =>
      rw [turn, Turn.run, dropResult_world, DiskStore.checkDisk_quiet]
      exact iff_of_true h id
  | repair vm disk reply => exact iff_of_true (h.of_confined repairDisk_outside) id
  | restore bundlePath asVm force =>
      rw [turn, Turn.run, dropResult_world]
      exact iff_of_true (restore_frozen h rfl) id

-- The snapshots are read-only in every state of a run exactly if no deletion has its rebase failed.
theorem run_frozen_iff (hstart : Frozen store w.fs) (turns : List (Turn β)) :
    (∀ pre, pre <+: turns → Frozen store (after (turn host store) w pre).fs) ↔
      Along (turn host store) (fun w t => ¬t.Thaws host store w) w turns :=
  forall_prefix_iff_along (fun w : World β => Frozen store w.fs) turns hstart fun _ t h => turn_frozen_iff h t

end

section Runs

-- An empty home, and an imported disk with two snapshots of which the first is deleted.
def emptyHome : World Blob :=
  Memory.world [(["srv"], .dir), (["disk.img"], Memory.plain (.text "data"))]

def squashTurns : List (Turn Blob) :=
  [.call (.importDisk "/disk.img" "web" "root" none), .call (.snapshotCreate "web" "root" "s1"),
    .call (.snapshotCreate "web" "root" "s2"), .call (.snapshotDelete "web" "root" "s1")]

theorem emptyHome_frozen : Frozen treeStore emptyHome.fs := by
  intro q f hq hf
  obtain ⟨vm, disk, hvms⟩ := hq.below_vms
  have hnone : emptyHome.fs.node ["srv", "vms"] = none := by decide
  have hbelow : ["srv", "vms"] <+: q := List.IsPrefix.trans ⟨[vm, "snapshots", disk], rfl⟩ hvms
  rw [emptyHome.fs.none_of_below hbelow hnone] at hf
  cases hf

theorem run_frozen_squash :
    (∀ pre, pre <+: squashTurns →
        Frozen treeStore (after (turn (memoryHost []) treeStore) emptyHome pre).fs) ↔
      Along (turn (memoryHost []) treeStore) (fun w t => ¬t.Thaws (memoryHost []) treeStore w)
        emptyHome squashTurns :=
  run_frozen_iff emptyHome_frozen squashTurns

-- A qemu-img that cannot rebase.
def noRebase : Host Blob :=
  { memoryHost [] with
    qemuImg := ⟨fun w c =>
      match c with
      | .rebase _ _ _ => Memory.fail "No space left on device"
      | c => Memory.exec w c, Memory.info, Memory.check⟩ }

-- The snapshot that was to take over the data stays writable.
theorem run_thaws_squash :
    Frozen treeStore emptyHome.fs ∧
      ¬Frozen treeStore (after (turn noRebase treeStore) emptyHome squashTurns).fs := by
  refine ⟨emptyHome_frozen, fun h => ?_⟩
  have hfile : (after (turn noRebase treeStore) emptyHome squashTurns).fs.isFile (snapPath "s2") = true ∧
      modeAt (after (turn noRebase treeStore) emptyHome squashTurns).fs (snapPath "s2") = 0o644 := by
    decide
  obtain ⟨f, hf⟩ := (FileSystem.isFile_iff _).mp hfile.1
  have hmode := h (snapPath "s2") f (inSnapshots_snapshotFile treeStore "web" "root" "s2") hf
  have hmode' := hfile.2
  rw [modeAt, hf] at hmode'
  exact absurd (hmode'.symm.trans hmode) (by decide)

end Runs

end VMForge.Storage
