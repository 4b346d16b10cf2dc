import VMForge.Storage.Memory
import VMForge.Storage.Restore.Phases

namespace VMForge.Storage

open Exec

section

variable {β : Type} {host : Host β} {store : DiskStore} {bundlePath : Path}
  {asVm : Option String} {force : Bool} {tar : Archive β} {vm : String} {manifest : Json}
  {w w' : World β}

theorem openBundle_error_or_opens (host : Host β) (bundlePath : Path) (asVm : Option String)
    (w : World β) : (∃ e, openBundle host bundlePath asVm w = (.error e, w)) ∨
      ∃ tar manifest vm, Opens host bundlePath asVm w.fs tar manifest vm := by
  rcases hrun : openBundle host bundlePath asVm w with ⟨e | ⟨tar, manifest, vm⟩, w'⟩
  · obtain rfl := (openBundle_quiet bundlePath asVm).eq_of_run hrun
    exact Or.inl ⟨e, rfl⟩
  · exact Or.inr ⟨tar, manifest, vm, (openBundle_eq_ok.mp hrun).1⟩

theorem bodyRoom_le {staging : Path} {w₂ : World β} (hp : Prepared store vm staging w w₂)
    (q : Path) (h : (bodyRoom β store vm staging).free q) : (restoreRoom store vm w).free q := by
  obtain ⟨s, hs⟩ := hp.name
  rcases h with h | h
  · exact Or.inr ⟨s, hs ▸ h.1, hs ▸ hp.new⟩
  · exact Or.inl h

theorem restore_touches (hopen : Opens host bundlePath asVm w.fs tar manifest vm) :
    TouchesOnly (restoreRoom store vm w) (restore host store bundlePath asVm force) w := by
  have hvm := hopen.valid
  refine .look (openBundle_quiet _ _) fun opened hrun => ?_
  obtain rfl : opened = (tar, manifest, vm) := by
    simpa [openBundle_eq_ok.mpr ⟨hopen, rfl⟩] using hrun.symm
  refine .look (.exists_ _) fun taken _ => .look (.raiseIf _ _) fun _ _ => ?_
  refine .bind (.mkdirs fun q hq _ => ?_) fun _ w₁ hhome hw₁ => ?_
  · exact Or.inr (Or.inl ⟨Or.inl (hq.trans (List.prefix_append _ _)), rfl⟩)
  refine .bind (.mkdtemp host fun n hn => ?_) fun staging w₂ htemp _ => ?_
  · exact Or.inl (Or.inr ⟨n, List.prefix_rfl,
      ((mkdirs_ok hhome).2 _ (not_concat_below _ _)).symm.trans hn⟩)
  have hp := prepared_of_run hvm hhome htemp
  have hbody : TouchesOnly (bodyRoom β store vm staging)
      (restoreBody host store tar vm manifest staging) w₂ := restoreBody_touches hp
  refine .tryFinally (.tryExcept (hbody.mono (bodyRoom_le hp) (fun _ h => h.elim) fun _ _ h => Or.inr h)
    fun e _ _ _ => ?_) fun _ _ => .rmtreeIgnoring fun q hq => ?_
  · refine .look (.exists_ _) fun present _ => ?_
    exact .bind (.runIf fun _ => .rmtreeIgnoring fun _ hq => Or.inl (Or.inl hq)) fun _ _ _ _ => .raise _
  · obtain ⟨s, hs⟩ := hp.name
    exact Or.inl (Or.inr ⟨s, hs ▸ hq, hs ▸ hp.new⟩)

theorem restore_of_closed {e : PyError} (hopen : openBundle host bundlePath asVm w = (.error e, w)) :
    restore host store bundlePath asVm force w = (.error e, w) :=
  bind_of_error hopen

-- Whatever is in the bundle and however the call ends, `restore` changes nothing, or nothing
-- but what `restoreRoom` has room for.
theorem restore_confined (host : Host β) (store : DiskStore) (bundlePath : Path)
    (asVm : Option String) (force : Bool) (w : World β) :
    (restore host store bundlePath asVm force w).2 = w ∨
      ∃ tar manifest vm, Opens host bundlePath asVm w.fs tar manifest vm ∧
        Confined (restoreRoom store vm w) w (restore host store bundlePath asVm force w).2 := by
  rcases openBundle_error_or_opens host bundlePath asVm w with ⟨e, hopen⟩ | ⟨tar, manifest, vm, hopen⟩
  · exact Or.inl (by rw [restore_of_closed hopen])
  · exact Or.inr ⟨tar, manifest, vm, hopen, restore_touches hopen⟩

end

-- A bundle of a VM without disks, restored to a home whose parent is missing.
def emptyManifest : Json :=
  .obj [("schema_version", .int 1), ("vm", .str "web"), ("disks", .obj [])]

def emptyBundle : Blob := .archive [⟨"manifest.json", .file (.json emptyManifest)⟩]

def deepStore : DiskStore := ⟨["srv", "vmforge"], by decide⟩

-- The parent of the home is none of the directories a restore is said to make.
theorem restore_makes_parent_of_home :
    let w := Memory.world [(["b.tar"], Memory.plain emptyBundle)]
    let w' := (restore (memoryHost []) deepStore ["b.tar"] none false w).2
    w.fs.exists_ ["srv"] = false ∧ w'.fs.exists_ ["srv"] = true ∧
      ¬deepStore.home <+: ["srv"] := by
  decide

section

variable {β : Type} {host : Host β} {store : DiskStore} {bundlePath : Path}
  {asVm : Option String} {force : Bool} {vm vm' : String} {w w' : World β}

theorem restoreRoom_other_vm (w : World β) (hne : vm' ≠ vm) {q : Path} (hq : store.vmRoot vm' <+: q) :
    ¬(restoreRoom store vm w).free q ∧ ∀ x, ¬(restoreRoom store vm w).fresh q x := by
  have hvms : store.home ++ ["vms", vm'] <+: q := by
    simpa [DiskStore.vmRoot, DiskStore.vmsDir, List.append_assoc] using hq
  constructor
  · rintro (hc | ⟨s, hc, -⟩)
    · exact hne (entry_eq hq hc)
    · exact stagingStem_ne (by decide) (entry_eq hc hvms)
  · rintro x (⟨hc | hc, -⟩ | ⟨n, f, rfl, -⟩)
    · simpa [DiskStore.imagesDir] using (hvms.trans hc).length_le
    · simpa [DiskStore.vmsDir] using (hvms.trans hc).length_le
    · have himages : store.home ++ ["images", n] <+: store.imagesDir ++ [n] := by
        simp [DiskStore.imagesDir]
      exact absurd (entry_eq himages hvms) (by decide)

section

variable {staging : Path} {wa wb wc w₂ w₃ : World β} {tar : Archive β} {manifest : Json}

-- Up to the removal of the old VM, the directories of the VMs are as before the call.
theorem extract_keeps_vms {r : Except PyError Unit} (hp : Prepared store vm staging w w₂)
    (hx : extractVerified host tar manifest staging w₂ = (r, wa)) {q : Path}
    (hq : store.vmsDir <+: q) : wa.fs.node q = w₂.fs.node q :=
  ((extractVerified_touches hp.dir tar manifest).confined hx).same
    (fun hc => hp.disjoint_vms hq hc.1) id fun _ hc => hc

theorem extract_keeps_staging (hp : Prepared store vm staging w w₂)
    (hx : extractVerified host tar manifest staging w₂ = (.ok (), wa)) :
    wa.fs.node staging = some .dir :=
  ((stages_stagingRoom hp.dir).step
    ((extractVerified_touches hp.dir tar manifest).confined hx)).dir

theorem images_keep_vms {r : Except PyError Unit} (hp : Prepared store vm staging w w₂)
    (hx : extractVerified host tar manifest staging w₂ = (.ok (), wa))
    (hi : placeImages host store manifest staging wa = (r, wb)) {q : Path}
    (hq : store.vmsDir <+: q) : wb.fs.node q = w₂.fs.node q := by
  have hrec := placeableRecords_of_extract hp.dir hx
  have hdir := extract_keeps_staging hp hx
  rw [← extract_keeps_vms hp hx hq]
  refine ((placeImages_touches hdir hrec.images).confined hi).same id
    (fun hc => hp.disjoint_vms hq hc.1) ?_
  rintro x (⟨hc, -⟩ | ⟨n, f, rfl, -⟩)
  · have himages : store.home ++ ["images"] <+: store.imagesDir := List.prefix_rfl
    exact absurd (entry_eq himages (hq.trans hc)) (by decide)
  · have himages : store.home ++ ["images", n] <+: store.imagesDir ++ [n] := by
      simp [DiskStore.imagesDir]
    exact absurd (entry_eq himages hq) (by decide)

-- What is left in the place of the VM when the body raises.
theorem root_after_body {e : PyError} (hp : Prepared store vm staging w w₂)
    (hend : BodyEnd host store tar vm manifest staging w₂ (.error e) w₃) :
    (∀ q, store.vmRoot vm <+: q → w₃.fs.node q = w₂.fs.node q) ∨
      (∀ f, w₂.fs.node (store.vmRoot vm) ≠ some (.file f)) ∧
        ∀ f, w₃.fs.node (store.vmRoot vm) ≠ some (.file f) := by
  have hvms : store.vmsDir <+: store.vmRoot vm := List.prefix_append _ _
  cases hend with
  | extracting hx => exact Or.inl fun q hq => extract_keeps_vms hp hx (hvms.trans hq)
  | placing hx hi => exact Or.inl fun q hq => images_keep_vms hp hx hi (hvms.trans hq)
  | blocked hx hi _ => exact Or.inl fun q hq => images_keep_vms hp hx hi (hvms.trans hq)
  | @assembling r wa wb wc w' hx hi hroot hclear hasm =>
      refine Or.inr ⟨fun f hf => hroot f ?_, fun f hf => ?_⟩
      · rw [images_keep_vms hp hx hi hvms, hf]
      · have hrec := placeableRecords_of_extract hp.dir hx
        have hdir : wc.fs.node staging = some .dir := by
          rw [hclear, if_neg hp.not_above_root]
          have hi' : TouchesOnly (imagesRoom β store staging)
              (placeImages host store manifest staging) _ :=
            placeImages_touches (extract_keeps_staging hp hx) hrec.images
          exact ((stages_imagesRoom (extract_keeps_staging hp hx)).step (hi'.confined hi)).dir
        have hasm' := (assembleVm_touches (stages_vmRoom hdir hp.not_above_root) hrec).confined hasm
        -- the directory of the VM is only ever made
        rcases hasm'.node _ fun hc => hc.2 rfl with he | ⟨-, hn⟩ | ⟨-, x, hx, -, rfl⟩
        · simp [he, hclear] at hf
        · simp [hn] at hf
        · simp [hx] at hf

end

-- After a failure nothing is left of a directory in the place of the VM, and anything else
-- is as it was.
theorem root_after_failure {e : PyError} {tar : Archive β} {manifest : Json} {q : Path}
    (hopen : Opens host bundlePath asVm w.fs tar manifest vm)
    (h : restore host store bundlePath asVm force w = (.error e, w'))
    (hq : store.vmRoot vm <+: q) :
    w'.fs.node q = if force = true ∧ w.fs.isDir (store.vmRoot vm) = true then none
      else w.fs.node q := by
  have hvms : store.vmsDir <+: store.vmRoot vm := List.prefix_append _ _
  cases restore_end hopen h with
  | refused _ hforce => simp [hforce]
  | homeless hfree _ _ => simp [FileSystem.isDir, hfree]
  | @raised staging w₂ w₃ w' e hforce hp hbody hend =>
      have hsame : ∀ q, store.vmRoot vm <+: q → w₂.fs.node q = w.fs.node q := by
        intro q hq
        refine hp.same q (fun hc => ?_) ?_
        · simpa [DiskStore.vmRoot, DiskStore.vmsDir] using (hq.trans hc).length_le
        · rintro rfl
          exact hp.not_above_root hq
      rw [hend, FileSystem.prune_node_of_not_below _ (hp.disjoint_vms (hvms.trans hq)),
        discarded_node]
      rcases hroot : w.fs.node (store.vmRoot vm) with _ | _ | f
      · have hnone := w.fs.none_of_below hq hroot
        rcases root_after_body hp (body_end hbody) with hkept | ⟨-, hnot⟩
        · simp [hkept q hq, hsame q hq, hnone]
        · rcases hw₃ : w₃.fs.node (store.vmRoot vm) with _ | _ | f
          · simp [w₃.fs.none_of_below hq hw₃, hnone]
          · simp [FileSystem.isDir, hw₃, Node.isDir, hq, hnone]
          · exact absurd hw₃ (hnot f)
      · have hf := hforce (by simp [hroot])
        rcases root_after_body hp (body_end hbody) with hkept | ⟨-, hnot⟩
        · simp [FileSystem.isDir, hkept _ List.prefix_rfl, hsame _ List.prefix_rfl, hroot,
            Node.isDir, hq, hf]
        · rcases hw₃ : w₃.fs.node (store.vmRoot vm) with _ | _ | f
          · simp [FileSystem.isDir, hroot, Node.isDir, hf, w₃.fs.none_of_below hq hw₃]
          · simp [FileSystem.isDir, hw₃, hroot, Node.isDir, hq, hf]
          · exact absurd hw₃ (hnot f)
      · rcases root_after_body hp (body_end hbody) with hkept | ⟨hnot, -⟩
        · simp [FileSystem.isDir, hkept _ List.prefix_rfl, hsame _ List.prefix_rfl, hroot,
            Node.isDir, hkept q hq, hsame q hq]
        · exact absurd ((hsame _ List.prefix_rfl).trans hroot) (hnot f)

-- A failed call spares the directory of a VM exactly when it was not asked to replace it, or
-- there was none.
theorem restore_failure_spares_vm_iff {e : PyError} (vm : String)
    (h : restore host store bundlePath asVm force w = (.error e, w')) :
    (∀ q, store.vmRoot vm <+: q → w'.fs.node q = w.fs.node q) ↔
      ¬(force = true ∧ w.fs.isDir (store.vmRoot vm) = true ∧
        ∃ tar manifest, Opens host bundlePath asVm w.fs tar manifest vm) := by
  rcases openBundle_error_or_opens host bundlePath asVm w with ⟨e, hclosed⟩ | ⟨tar, manifest, vm', hopen⟩
  · rw [restore_of_closed hclosed] at h
    obtain ⟨-, rfl⟩ := Prod.mk.inj h
    refine iff_of_true (fun _ _ => rfl) ?_
    rintro ⟨-, -, tar, manifest, hopen⟩
    rw [openBundle_eq_ok.mpr ⟨hopen, rfl⟩] at hclosed
    cases hclosed
  by_cases hvm : vm = vm'
  · subst hvm
    constructor
    · rintro hsame ⟨hforce, hdir, -⟩
      have hroot := hsame _ List.prefix_rfl
      rw [root_after_failure hopen h List.prefix_rfl, if_pos ⟨hforce, hdir⟩] at hroot
      simp [FileSystem.isDir, ← hroot] at hdir
    · intro hcond q hq
      rw [root_after_failure hopen h hq, if_neg]
      exact fun hc => hcond ⟨hc.1, hc.2, tar, manifest, hopen⟩
  · constructor
    · rintro - ⟨-, -, tar', manifest', hopen'⟩
      have heq := (openBundle_eq_ok.mpr ⟨hopen', rfl⟩).symm.trans
        (openBundle_eq_ok.mpr ⟨hopen, rfl⟩)
      simp only [Prod.mk.injEq, Except.ok.injEq] at heq
      exact hvm heq.1.2.2
    · intro _ q hq
      obtain ⟨hfree, hfresh⟩ := restoreRoom_other_vm w hvm hq
      exact ((restore_touches hopen).confined h).same hfree id hfresh

end

-- A home with the VM `web`, and a bundle of `web` with a damaged config file.
def demoStore : DiskStore := ⟨["srv"], by decide⟩

def damagedManifest : Json :=
  .obj [("schema_version", .int 1), ("vm", .str "web"), ("disks", .obj []),
    ("config", .arr [.obj [("path", .str "config/vm.json"), ("size", .int 2),
      ("sha256", .str "text {}")]])]

def damagedBundle : Blob :=
  .archive [⟨"manifest.json", .file (.json damagedManifest)⟩, ⟨"config/vm.json", .file (.text "??")⟩]

def demoWorld : World Blob :=
  Memory.world [(["b.tar"], Memory.plain damagedBundle), (["srv"], .dir), (["srv", "vms"], .dir),
    (["srv", "vms", "web"], .dir), (["srv", "vms", "web", "disks"], .dir),
    (["srv", "vms", "web", "disks", "root.qcow2"], Memory.plain (.qcow2 8 [] none))]

-- The checksum of the bundle is refused, and the VM that was to be replaced is gone.
theorem restore_force_damaged_removes_vm :
    let run := restore (memoryHost []) demoStore ["b.tar"] none true demoWorld
    run.1.isOk = false ∧ demoWorld.fs.exists_ (demoStore.diskFile "web" "root") = true ∧
      run.2.fs.exists_ (demoStore.vmRoot "web") = false := by
  decide

theorem restore_failure_spares_vm_unforced :
    (restore (memoryHost []) demoStore ["b.tar"] none false demoWorld).2.fs.node
        (demoStore.vmRoot "web") =
      demoWorld.fs.node (demoStore.vmRoot "web") := by
  obtain ⟨e, he⟩ := eq_error_of_isOk
    (x := restore (memoryHost []) demoStore ["b.tar"] none false demoWorld) (by decide)
  exact (restore_failure_spares_vm_iff "web" he).mpr (fun hc => Bool.false_ne_true hc.1) _
    (List.prefix_refl _)

end VMForge.Storage
