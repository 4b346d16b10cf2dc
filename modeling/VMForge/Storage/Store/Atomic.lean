import VMForge.Storage.Store.Reachable

namespace VMForge.Storage

open Exec

-- The store has the files it had, each with the layer it had, and what is read through them is what
-- was read.
structure Intact {β : Type} (F : Formats β) (store : DiskStore) (fs fs' : FileSystem β) : Prop where
  recognised : ∀ q, Spot store q → (fs'.node q ≠ none ↔ fs.node q ≠ none)
  layers : ∀ q, Spot store q → ∀ format, F.layerAt fs' (q, format) = F.layerAt fs (q, format)
  reads : ∀ r c, (∀ s, Relation.ReflTransGen (BackedBy (F.layerAt fs)) r s → Spot store s.1) →
    Resolves (F.layerAt fs) r c → Resolves (F.layerAt fs') r c

section

variable {β : Type} {F : Formats β} {store : DiskStore} {fs fs' : FileSystem β}

theorem Intact.of_layers (hrecognised : ∀ q, Spot store q → (fs'.node q ≠ none ↔ fs.node q ≠ none))
    (hlayers : ∀ q, Spot store q → ∀ format, F.layerAt fs' (q, format) = F.layerAt fs (q, format)) :
    Intact F store fs fs' := by
  refine ⟨hrecognised, hlayers, fun r c hspots hc => ?_⟩
  refine hc.of_closed (S := fun s => Relation.ReflTransGen (BackedBy (F.layerAt fs)) r s) .refl
    (fun s b hs hb => hs.tail hb) fun s hs => ?_
  exact hlayers s.1 (hspots s hs) s.2

theorem Intact.of_same (h : Same store fs fs') : Intact F store fs fs' :=
  .of_layers (fun q hq => by rw [h q hq]) fun q hq format => layerAt_same (h q hq)

-- One file is another, with the same layers.
theorem Intact.of_but {p : Path} (h : SameBut store (· = p) fs fs')
    (hthere : fs'.node p ≠ none ↔ fs.node p ≠ none)
    (hlayers : ∀ format, F.layerAt fs' (p, format) = F.layerAt fs (p, format)) :
    Intact F store fs fs' := by
  refine .of_layers (fun q hq => ?_) fun q hq format => ?_
  · by_cases he : q = p
    · rw [he]
      exact hthere
    · rw [h q hq he]
  · by_cases he : q = p
    · rw [he]
      exact hlayers format
    · exact layerAt_same (h q hq he)

end

-- A qemu-img command failed.
def IsQemu (e : PyError) : Prop := ∃ cmd returncode stderr, e = .qemuImgError cmd returncode stderr

-- A rebase that fails leaves in its file what it held.
def KeepsUnrebased {β : Type} (F : Formats β) (q : QemuImg β) : Prop :=
  ∀ w path backing isUnsafe b, (q.exec w (.rebase path backing isUnsafe)).failure ≠ none →
    (q.exec w (.rebase path backing isUnsafe)).content = some b →
      ∀ format, F.decode format b = F.layerAt w.fs (path, format)

section

variable {β : Type} (host : Host β) (store : DiskStore)

-- The command that makes the file a call is to make, if the call gets that far.
def Call.making (w : World β) : Call → Option Command
  | .createDisk vm disk size preallocation clusterSize =>
      some (.create (store.diskFile vm disk) (some size) none preallocation
        (clusterSize.filter fun s => s != ""))
  | .importImage src name srcFormat compress =>
      some (.convert (Path.ofString host.cwd src) (store.imageFile name)
        (srcFormat.filter fun s => s != "") "qcow2" compress)
  | .importDisk src vm disk srcFormat =>
      some (.convert (Path.ofString host.cwd src) (store.diskFile vm disk)
        (srcFormat.filter fun s => s != "") "qcow2" false)
  | .cloneDisk base vm disk size =>
      match (store.clonePath host base w).1 with
      | .ok basePath =>
          match (info host basePath w).1 with
          | .ok inf => some (.create (store.diskFile vm disk) size (some (basePath, inf.format)) "off" none)
          | .error _ => none
      | .error _ => none
  | _ => none

-- The command of a call that makes a file leaves none behind. It is run where the directory of the
-- file has been made.
def Call.LeavesNothing (w : World β) (c : Call) : Prop :=
  ∀ cmd, c.making host store w = some cmd →
    (host.qemuImg.exec (mkdirs cmd.target.dropLast w).2 cmd).content = none

-- A command was run for a file that was not there, in a directory that was made.
structure Attempted (w : World β) (cmd : Command) (e : PyError) (w' : World β) : Prop where
  free : w.fs.node cmd.target = none
  spot : Spot store cmd.target
  legal : Path.isComponent (Path.name cmd.target) = true
  above : ∀ q, q <+: cmd.target.dropLast → ¬Spot store q
  ran : ∃ w₁, mkdirs cmd.target.dropLast w = (.ok (), w₁) ∧ runQemuImg host cmd w₁ = (.error e, w')

end

section

variable {β : Type} {F : Formats β} {host : Host β} {store : DiskStore} {vm disk n : String}
  {w w' : World β} {e : PyError}

def NotQemu (e : PyError) : Prop := ¬IsQemu e

theorem notQemu_of_system {α : Type} {x : Run β α} (h : Raises IsSystem x) : Raises NotQemu x := by
  refine h.mono fun e he => ?_
  rcases he with ⟨errno, rfl⟩ | rfl
  · rintro ⟨cmd, code, stderr, h⟩
    cases h
  · rintro ⟨cmd, code, stderr, h⟩
    cases h

theorem notQemu_storage (message : Message) (code : ErrorCode) : NotQemu (.storageError message code) := by
  rintro ⟨cmd, returncode, stderr, h⟩
  cases h

theorem validateName_notQemu (kind name : String) : Raises NotQemu (validateName kind name : Run β String) :=
  .bind (.raiseIf fun _ => notQemu_storage _ _) fun _ => .pure _

theorem diskPath_notQemu (vm disk : String) : Raises NotQemu (store.diskPath vm disk : Run β Path) :=
  .bind (.bind (validateName_notQemu _ _) fun _ => .pure _) fun _ =>
    .bind (validateName_notQemu _ _) fun _ => .pure _

theorem exists_raises {E : PyError → Prop} (p : Path) : Raises E (exists_ p : Run β Bool) :=
  .of_ok fun w => ⟨_, w, exists_eq_ok.mpr ⟨rfl, rfl⟩⟩

theorem not_notQemu (he : IsQemu e) : ¬NotQemu e := not_not_intro he

-- A file that is to be made where there is none, and is not made because a command fails.
theorem make_attempted {γ : Type} {cmd : Command} {a : γ} (he : IsQemu e) (hspot : Spot store cmd.target)
    (hfree : w.fs.node cmd.target = none) (hlegal : Path.isComponent (Path.name cmd.target) = true)
    (habove : ∀ q, q <+: cmd.target.dropLast → ¬Spot store q)
    (h : (mkdirs cmd.target.dropLast >>= fun _ => runQemuImg host cmd >>= fun _ => pure a) w =
      (.error e, w')) : Attempted host store w cmd e w' := by
  obtain ⟨_, w₁, hmk, h⟩ := (notQemu_of_system (mkdirs_system _)).past (not_notQemu he) h
  refine ⟨hfree, hspot, hlegal, habove, w₁, hmk, ?_⟩
  rcases bind_eq_error h with h | ⟨_, _, _, h⟩
  · exact h
  · cases (Prod.mk.inj h).1

theorem vacant_attempted {γ : Type} {g : Path → PyError} {f : Path → Run β γ} (he : IsQemu e)
    (hg : ∀ p, NotQemu (g p))
    (h : (store.diskPath vm disk >>= fun dst => exists_ dst >>= fun taken =>
      raiseIf taken (g dst) >>= fun _ => f dst) w = (.error e, w')) :
    nameMatches disk = true ∧ w.fs.node (store.diskFile vm disk) = none ∧
      f (store.diskFile vm disk) w = (.error e, w') := by
  obtain ⟨path, _, hrun, h⟩ := (diskPath_notQemu vm disk).past (not_notQemu he) h
  obtain ⟨-, hdisk, rfl, rfl⟩ := store.diskPath_eq_ok.mp hrun
  obtain ⟨taken, _, htaken, h⟩ := (exists_raises _).past (not_notQemu he) h
  obtain ⟨rfl, rfl⟩ := exists_eq_ok.mp htaken
  obtain ⟨_, _, hraise, h⟩ := (Raises.raiseIf fun _ => hg _).past (not_notQemu he) h
  obtain ⟨hfree, rfl⟩ := raiseIf_eq_ok.mp hraise
  exact ⟨hdisk, by simpa [FileSystem.exists_] using hfree, h⟩

-- What `create_qcow2` raises itself is no failure of a command.
theorem createQcow2_attempted {γ : Type} {a : γ} {dst dir : Path} {size : Option String}
    {backing : Option (List String × String)} {preallocation : String} {clusterSize : Option String}
    (he : IsQemu e)
    (h : (mkdirs dir >>= fun _ => createQcow2 host dst size backing preallocation clusterSize >>=
      fun _ => pure a) w = (.error e, w')) :
    (mkdirs dir >>= fun _ => runQemuImg host (.create dst size backing preallocation
      (clusterSize.filter fun s => s != "")) >>= fun _ => pure a) w = (.error e, w') := by
  have hvalue : NotQemu .valueError := by
    rintro ⟨cmd, code, stderr, h⟩
    cases h
  obtain ⟨_, w₁, hmk, h⟩ := (notQemu_of_system (mkdirs_system _)).past (not_notQemu he) h
  rw [bind_of_ok hmk]
  rw [createQcow2, Exec.bind_assoc] at h
  obtain ⟨_, _, hraise, h⟩ := (Raises.raiseIf fun _ => hvalue).past (not_notQemu he) h
  obtain ⟨-, rfl⟩ := raiseIf_eq_ok.mp hraise
  rw [Exec.bind_assoc] at h
  obtain ⟨_, _, hraise, h⟩ := (Raises.raiseIf fun _ => hvalue).past (not_notQemu he) h
  obtain ⟨-, rfl⟩ := raiseIf_eq_ok.mp hraise
  exact h

theorem dropResult_eq_error {α : Type} {x : Run β α} (h : dropResult x w = (.error e, w')) :
    x w = (.error e, w') := by
  rw [dropResult] at h
  rcases bind_eq_error h with h | ⟨_, _, _, h⟩
  · exact h
  · cases (Prod.mk.inj h).1

theorem diskFile_legal (hdisk : nameMatches disk = true) :
    Path.isComponent (Path.name (store.diskFile vm disk)) = true := by
  simpa [DiskStore.diskFile, Path.name] using isComponent_qcow2 hdisk

theorem disk_above (vm disk : String) :
    ∀ q, q <+: (store.diskFile vm disk).dropLast → ¬Spot store q := by
  rw [diskFile_dir]
  exact fun q hq => not_spot_above_disks hq

theorem clone_making {base : String} {size : Option String} {cmd : Command}
    (h : (Call.cloneDisk base vm disk size).making host store w = some cmd) :
    ∃ basePath inf, store.clonePath host base w = (.ok basePath, w) ∧
      info host basePath w = (.ok inf, w) ∧
      cmd = .create (store.diskFile vm disk) size (some (basePath, inf.format)) "off" none := by
  rw [Call.making] at h
  rcases hbase : store.clonePath host base w with ⟨_ | basePath, w₁⟩
  · simp only [hbase] at h
    cases h
  obtain rfl := (clonePath_quiet base).eq_of_run hbase
  rcases hinfo : info host basePath w₁ with ⟨_ | inf, w₂⟩
  · simp only [hbase, hinfo] at h
    cases h
  obtain rfl := (info_quiet _).eq_of_run hinfo
  simp only [hbase, hinfo] at h
  exact ⟨basePath, inf, rfl, hinfo, (Option.some.inj h).symm⟩

-- A call that is to make a file, and fails because of a command, has run that command.
theorem making_attempted {c : Call} {cmd : Command} (he : IsQemu e)
    (hmaking : c.making host store w = some cmd) (h : c.run host store w = (.error e, w')) :
    Attempted host store w cmd e w' := by
  have hstorage := fun message code => notQemu_storage message code
  cases c with
  | createDisk vm disk size preallocation clusterSize =>
      obtain rfl := Option.some.inj hmaking
      obtain ⟨hdisk, hfree, h⟩ := vacant_attempted he (fun _ => hstorage _ _) (dropResult_eq_error h)
      exact make_attempted he (.disk vm disk) hfree (diskFile_legal hdisk) (disk_above vm disk)
        (createQcow2_attempted he h)
  | importDisk src vm disk srcFormat =>
      obtain rfl := Option.some.inj hmaking
      obtain ⟨_, _, hfound, h⟩ := (exists_raises _).past (not_notQemu he) (dropResult_eq_error h)
      obtain ⟨-, rfl⟩ := exists_eq_ok.mp hfound
      obtain ⟨_, _, hraise, h⟩ := (Raises.raiseIf fun _ => hstorage _ _).past (not_notQemu he) h
      obtain ⟨-, rfl⟩ := raiseIf_eq_ok.mp hraise
      obtain ⟨hdisk, hfree, h⟩ := vacant_attempted he (fun _ => hstorage _ _) h
      exact make_attempted he (.disk vm disk) hfree (diskFile_legal hdisk) (disk_above vm disk) h
  | importImage src name srcFormat compress =>
      obtain rfl := Option.some.inj hmaking
      obtain ⟨_, _, hfound, h⟩ := (exists_raises _).past (not_notQemu he) (dropResult_eq_error h)
      obtain ⟨-, rfl⟩ := exists_eq_ok.mp hfound
      obtain ⟨_, _, hraise, h⟩ := (Raises.raiseIf fun _ => hstorage _ _).past (not_notQemu he) h
      obtain ⟨-, rfl⟩ := raiseIf_eq_ok.mp hraise
      obtain ⟨image, _, hrun, h⟩ := (validateName_notQemu _ _).past (not_notQemu he) h
      obtain ⟨hname, rfl, rfl⟩ := validateName_eq_ok.mp hrun
      obtain ⟨taken, _, htaken, h⟩ := (exists_raises _).past (not_notQemu he) h
      obtain ⟨rfl, rfl⟩ := exists_eq_ok.mp htaken
      obtain ⟨_, _, hraise, h⟩ := (Raises.raiseIf fun _ => hstorage _ _).past (not_notQemu he) h
      obtain ⟨hfree, rfl⟩ := raiseIf_eq_ok.mp hraise
      have hdir : (store.imageFile name).dropLast = store.imagesDir := List.dropLast_concat
      have hnone : w.fs.node (store.imageFile name) = none := by
        simpa [FileSystem.exists_] using hfree
      refine make_attempted he (.image name) hnone ?_ ?_ (by rwa [Command.target, hdir])
      · simpa [Command.target, DiskStore.imageFile, Path.name] using isComponent_qcow2 hname
      · rw [Command.target, hdir]
        exact fun q hq => not_spot_above_images hq
  | cloneDisk base vm disk size =>
      obtain ⟨basePath, inf, hbase, hinfo, rfl⟩ := clone_making hmaking
      have hrun := dropResult_eq_error h
      rw [DiskStore.cloneDisk, bind_of_ok hbase, bind_of_ok hinfo] at hrun
      obtain ⟨hdisk, hfree, hdo⟩ := vacant_attempted he (fun _ => hstorage _ _) hrun
      have hcreate := createQcow2_attempted he hdo
      rw [Option.filter_none] at hcreate
      exact make_attempted he (.disk vm disk) hfree (diskFile_legal hdisk) (disk_above vm disk) hcreate
  | resizeDisk | deleteDisk | snapshotCreate | snapshotRevert | snapshotDelete => cases hmaking

-- Nothing has changed exactly if the command left no file.
theorem Attempted.intact_iff {cmd : Command} (he : IsQemu e) (h : Attempted host store w cmd e w') :
    Intact F store w.fs w'.fs ↔
      (host.qemuImg.exec (mkdirs cmd.target.dropLast w).2 cmd).content = none := by
  obtain ⟨w₁, hmk, hrun⟩ := h.ran
  have hsame := mkdirs_same h.above hmk
  rw [hmk]
  constructor
  · intro hintact
    cases hb : (host.qemuImg.exec w₁ cmd).content with
    | none => rfl
    | some b =>
        have hfault : createFault w₁.fs cmd.target = none := by
          have hnode := hsame _ h.spot
          rw [h.free] at hnode
          exact createFault_none_iff.mpr ⟨h.legal, by simp [hnode],
            (mkdirs_ok hmk).1 _ (List.prefix_refl _)⟩
        have hnull : cmd.args.any hasNull = false := by
          by_contra hnull
          rw [runQemuImg, raiseIf, if_pos (by simpa using hnull)] at hrun
          obtain ⟨_, _, _, rfl⟩ := he
          cases (Prod.mk.inj hrun).1
        have hnode := runQemuImg_writes hnull hfault hb hrun
        exact absurd h.free ((hintact.recognised _ h.spot).mp (by simp [hnode]))
  · intro hnone
    refine .of_same (hsame.trans fun q hq => ?_)
    by_cases hne : q = cmd.target
    · rcases runQemuImg_wrote hrun with hkept | ⟨-, b, hb, -⟩
      · rw [hne, hkept]
      · rw [hnone] at hb
        cases hb
    · exact runQemuImg_but hrun q hq hne

-- To take a snapshot or not to take it: what is renamed is renamed back.
theorem snapshotCreate_intact (h : store.snapshotCreate host vm disk n w = (.error e, w')) :
    Intact F store w.fs w'.fs := by
  cases snapshotCreate_end h with
  | refused => exact .of_same (.refl _)
  | stopped hmk => exact .of_same (mkdirs_snapshots_same hmk)
  | @rolledBack _ f w₁ w₂ w₃ _ hmk hactive hfree hfrozen hcreate hnode =>
      have hsame := mkdirs_snapshots_same hmk
      have hback := hnode (store.diskFile vm disk)
      rw [if_pos rfl] at hback
      refine @Intact.of_but _ F store _ _ (store.diskFile vm disk) (fun q hq hne => ?_) ?_ fun format => ?_
      · rw [hnode, if_neg hne, hsame q hq]
      · rw [hback, hactive]
        simp
      · rw [layerAt_written hback, layerAt_written hactive]

-- What a revert writes first is no file of the store.
theorem snapshotRevert_intact (h : store.snapshotRevert host vm disk n w = (.error e, w')) :
    Intact F store w.fs w'.fs := by
  rw [DiskStore.snapshotRevert] at h
  rcases (store.requireDisk_quiet vm disk).bind_cases h with ⟨_, -, rfl⟩ | ⟨active, hrun, h⟩
  · exact .of_same (.refl _)
  obtain ⟨-, -, rfl, -⟩ := store.requireDisk_eq_ok.mp hrun
  rcases (getSnapshot_quiet n).bind_cases h with ⟨_, -, rfl⟩ | ⟨snap, -, h⟩
  · exact .of_same (.refl _)
  have hkept : ∀ {r : Except PyError Unit} {w₁ : World β},
      createQcow2 host (DiskStore.revertingPath (store.diskFile vm disk)) none
        (some (snap.path, "qcow2")) "off" none w = (r, w₁) → Intact F store w.fs w₁.fs := fun hcreate =>
    .of_same fun q hq => createQcow2_other hcreate fun he => not_spot_reverting vm disk (he ▸ hq)
  rcases bind_eq_error h with h | ⟨_, w₁, hcreate, h⟩
  · exact hkept h
  · rw [rename_error h]
    exact hkept hcreate

-- A deletion fails at the rebase, if it fails because of a command.
theorem snapshotDelete_intact (hq : KeepsUnrebased F host.qemuImg) (he : IsQemu e)
    (h : store.snapshotDelete host vm disk n w = (.error e, w')) : Intact F store w.fs w'.fs := by
  cases snapshotDelete_end h with
  | refused => exact .of_same (.refl _)
  | leaf _ _ _ hdiscard => exact absurd he (notQemu_of_system (discard_system _) _ _ _ hdiscard)
  | squashed _ _ _ _ _ _ _ _ hdiscard =>
      exact absurd he (notQemu_of_system (discard_system _) _ _ _ hdiscard)
  | @unrebased _ snap c child grandparent w₁ _ _ _ _ hchild _ hthaw hrebase =>
      obtain ⟨hex, -, -, hother⟩ := chmod_ok hthaw
      refine @Intact.of_but _ F store _ _ child.path (fun q hq hne => ?_) ?_ fun format => ?_
      · rw [rebase_other hrebase hne, hother q hne]
      · exact iff_of_true (rebase_keeps hrebase (chmod_keeps hthaw)) hex
      · have hthawed : F.layerAt w₁.fs (child.path, format) = F.layerAt w.fs (child.path, format) :=
          layerAt_congr (chmod_blob hthaw _)
        rw [← hthawed]
        rcases runQemuImg_wrote hrebase with hkept | ⟨-, b, hb, hnode⟩
        · exact layerAt_same hkept
        · by_cases hok : (host.qemuImg.exec w₁ (.rebase child.path
              (grandparent.map fun file => (file, "qcow2")) false)).failure = none
          · rw [runQemuImg_stopped hok hrebase]
          · rw [Command.target] at hnode
            rw [layerAt_written hnode]
            exact hq _ _ _ _ b hok hb format

-- A call that fails because of a command changes nothing exactly if no file is left by a command that
-- was to make one. To resize a disk is another matter.
theorem failed_intact_iff (hq : KeepsUnrebased F host.qemuImg) {c : Call}
    (hresize : ∀ vm disk newSize shrink, c ≠ .resizeDisk vm disk newSize shrink) (he : IsQemu e)
    (h : c.run host store w = (.error e, w')) :
    Intact F store w.fs w'.fs ↔ c.LeavesNothing host store w := by
  cases hmaking : c.making host store w with
  | some cmd =>
      rw [(making_attempted he hmaking h).intact_iff he]
      constructor
      · intro hnone cmd' hmaking'
        obtain rfl := Option.some.inj (hmaking.symm.trans hmaking')
        exact hnone
      · exact fun hleaves => hleaves cmd hmaking
  | none =>
      refine iff_of_true ?_ fun cmd hcmd => by rw [hmaking] at hcmd; cases hcmd
      cases c with
      | createDisk | importImage | importDisk => cases hmaking
      | resizeDisk vm disk newSize shrink => exact absurd rfl (hresize vm disk newSize shrink)
      | deleteDisk =>
          rcases deleteDisk_cases h with ⟨-, rfl⟩ | ⟨hok, -⟩
          · exact .of_same (.refl _)
          · cases hok
      | snapshotCreate => exact snapshotCreate_intact (dropResult_eq_error h)
      | snapshotRevert => exact snapshotRevert_intact h
      | snapshotDelete => exact snapshotDelete_intact hq he h
      | cloneDisk base vm disk size =>
          -- the base was not found, or could not be opened
          have hrun := dropResult_eq_error h
          rw [DiskStore.cloneDisk] at hrun
          rcases (clonePath_quiet base).bind_cases hrun with ⟨_, -, rfl⟩ | ⟨basePath, hbase, hrun⟩
          · exact .of_same (.refl _)
          rcases (info_quiet _).bind_cases hrun with ⟨_, -, rfl⟩ | ⟨inf, hinfo, -⟩
          · exact .of_same (.refl _)
          · rw [Call.making] at hmaking
            simp only [hbase, hinfo] at hmaking
            cases hmaking

end

section Runs

namespace Memory

theorem keepsUnrebased (cwd : Path) : KeepsUnrebased memoryFormats (memoryHost cwd).qemuImg := by
  intro w path backing isUnsafe b hbad hb
  change (exec w _).failure ≠ none at hbad
  change (exec w _).content = some b at hb
  refine absurd ?_ hbad
  revert hb
  simp only [exec]
  split
  · split
    · exact fun _ => rfl
    · split
      · exact fun _ => rfl
      · exact fun hb => by cases hb
  · exact fun hb => by cases hb

end Memory

-- A file that is no image, a call to import it, and what is raised.
def brokenHome : World Blob :=
  Memory.world [(["srv"], .dir), (["disk.img"], Memory.plain (.archive []))]

def brokenCall : Call := .importDisk "/disk.img" "web" "root" none

def brokenError : PyError :=
  .qemuImgError (Command.convert ["disk.img"] (treeStore.diskFile "web" "root") none "qcow2" false).args 1
    "Could not open image"

theorem failed_intact_broken :
    Intact memoryFormats treeStore brokenHome.fs
        (brokenCall.run (memoryHost []) treeStore brokenHome).2.fs ↔
      brokenCall.LeavesNothing (memoryHost []) treeStore brokenHome :=
  @failed_intact_iff _ memoryFormats (memoryHost []) treeStore brokenHome _ brokenError
    (Memory.keepsUnrebased []) brokenCall nofun ⟨_, _, _, rfl⟩ rfl

-- A qemu-img that leaves a part of a file it cannot finish.
def partialHost : Host Blob :=
  { memoryHost [] with
    qemuImg := ⟨fun w c =>
      match c with
      | .rebase path backing isUnsafe => Memory.exec w (.rebase path backing isUnsafe)
      | c => { Memory.exec w c with content := some ((Memory.exec w c).content.getD (.text "part")) },
      Memory.info, Memory.check⟩ }

-- The part is there as a disk.
theorem failed_leaves_part :
    KeepsUnrebased memoryFormats partialHost.qemuImg ∧
      (∃ e, IsQemu e ∧ (brokenCall.run partialHost treeStore brokenHome).1 = .error e) ∧
      ¬Intact memoryFormats treeStore brokenHome.fs
        (brokenCall.run partialHost treeStore brokenHome).2.fs := by
  refine ⟨fun w path backing isUnsafe b => Memory.keepsUnrebased [] w path backing isUnsafe b,
    ⟨brokenError, ⟨_, _, _, rfl⟩, rfl⟩, fun h => ?_⟩
  have hnew : (brokenCall.run partialHost treeStore brokenHome).2.fs.node
      (treeStore.diskFile "web" "root") ≠ none := by
    decide
  exact (h.recognised _ (.disk "web" "root")).mp hnew (by decide)

end Runs

end VMForge.Storage
