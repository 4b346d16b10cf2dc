import VMForge.Storage.Restore.Confined

namespace VMForge.Storage

open Exec

section

variable {β : Type} {host : Host β} {store : DiskStore} {vm : String} {staging : Path}
  {w w₁ w₂ w₃ w' : World β}

-- The bundle is a readable archive with an acceptable manifest, and it is to become `vm`.
structure Opens (host : Host β) (bundlePath : Path) (asVm : Option String) (fs : FileSystem β)
    (tar : Archive β) (manifest : Json) (vm : String) : Prop where
  file : ∃ f, fs.node bundlePath = some (.file f) ∧ host.tarOpen f.blob = .ok tar
  accepted : readManifest host tar = .ok manifest
  target : targetName asVm manifest = .ok vm
  valid : nameMatches vm = true

theorem openTar_eq_ok {x : Option (Node β)} {tar : Archive β} :
    openTar host x = .ok tar ↔ ∃ f, x = some (.file f) ∧ host.tarOpen f.blob = .ok tar := by
  rcases x with _ | _ | f <;> simp [openTar, orRaise_eq_ok]

theorem openBundle_eq_ok {bundlePath : Path} {asVm : Option String} {tar : Archive β}
    {manifest : Json} :
    openBundle host bundlePath asVm w = (.ok (tar, manifest, vm), w') ↔
      Opens host bundlePath asVm w.fs tar manifest vm ∧ w = w' := by
  rw [openBundle, read_bind]
  simp only [bind_eq_ok, raiseIf_eq_ok, ofExcept_eq_ok, openTar_eq_ok, validateName_eq_ok,
    pure_eq_ok, Prod.mk.injEq]
  constructor
  · rintro ⟨_, _, ⟨-, rfl⟩, _, _, ⟨hfile, rfl⟩, _, _, ⟨hman, rfl⟩, _, _, ⟨htarget, rfl⟩, _, _,
      ⟨hvalid, rfl, rfl⟩, ⟨rfl, rfl, rfl⟩, rfl⟩
    exact ⟨⟨hfile, hman, htarget, hvalid⟩, rfl⟩
  · rintro ⟨⟨hfile, hman, htarget, hvalid⟩, rfl⟩
    have hex : w.fs.exists_ bundlePath = true := by
      obtain ⟨f, hf, -⟩ := hfile
      simp [FileSystem.exists_, hf]
    exact ⟨(), w, ⟨by simp [hex], rfl⟩, tar, w, ⟨hfile, rfl⟩, manifest, w, ⟨hman, rfl⟩, vm, w,
      ⟨htarget, rfl⟩, vm, w, ⟨hvalid, rfl, rfl⟩, ⟨rfl, rfl, rfl⟩, rfl⟩

-- The name stem of the staging directory.
def stagingStem (vm : String) : String := ".restore-" ++ vm ++ "-"

theorem stagingStem_isComponent (hvm : nameMatches vm = true) :
    Path.isComponent (stagingStem vm) = true :=
  isComponent_of_nameMatches hvm ".restore-" "-" (by decide)

-- The staging directory is a new entry of the home.
theorem mkdtemp_ok (hvm : nameMatches vm = true) {dir : Path}
    (h : mkdtemp host (stagingStem vm) dir w = (.ok staging, w')) :
    ∃ s, staging = dir ++ [stagingStem vm ++ s] ∧ w.fs.node staging = none ∧
      w'.fs.node staging = some .dir ∧ ∀ q, q ≠ staging → w'.fs.node q = w.fs.node q := by
  rw [mkdtemp, read_bind] at h
  simp only [bind_eq_ok, pure_eq_ok] at h
  obtain ⟨_, t, hdir, rfl, rfl⟩ := h
  have hfresh := host.mkdtemp_fresh w dir (stagingStem vm) (stagingStem_isComponent hvm)
  exact ⟨_, rfl, hfresh.2, ensureDir_ok hdir⟩

-- What `restore` may create, change or delete when it restores to `vm` from `w`: the directory
-- of the VM, its staging directory, which is new, new files under `images`, and missing
-- directories on the way to `images` and `vms`.
def restoreRoom (store : DiskStore) (vm : String) (w : World β) : Room β where
  free q := store.vmRoot vm <+: q ∨ ∃ s, store.home ++ [stagingStem vm ++ s] <+: q ∧
    w.fs.node (store.home ++ [stagingStem vm ++ s]) = none
  gone _ := False
  fresh q x := ((q <+: store.imagesDir ∨ q <+: store.vmsDir) ∧ x = .dir) ∨
    ∃ n f, q = store.imagesDir ++ [n] ∧ x = .file f

-- What it has done to that end when its body starts: the staging directory, and missing
-- directories on the way to the home.
def homeRoom (β : Type) (store : DiskStore) (vm : String) : Room β where
  free q := ∃ s, store.home ++ [stagingStem vm ++ s] <+: q
  gone _ := False
  fresh q x := q <+: store.home ∧ x = .dir

-- The state in which the body of `restore` starts, when the call started in `w`.
structure Prepared (store : DiskStore) (vm : String) (staging : Path) (w w₂ : World β) : Prop where
  name : ∃ s, staging = store.home ++ [stagingStem vm ++ s]
  new : w.fs.node staging = none
  dir : w₂.fs.node staging = some .dir
  home : ∀ q, q <+: store.home → w₂.fs.node q = some .dir
  same : ∀ q, ¬q <+: store.home → q ≠ staging → w₂.fs.node q = w.fs.node q
  empty : ∀ q, Below staging q → w₂.fs.node q = none
  confined : Confined (homeRoom β store vm) w w₂

theorem prepared_of_run (hvm : nameMatches vm = true)
    (hhome : mkdirs store.home w = (.ok (), w₁))
    (htemp : mkdtemp host (stagingStem vm) store.home w₁ = (.ok staging, w₂)) :
    Prepared store vm staging w w₂ := by
  obtain ⟨hdirs, hsame⟩ := mkdirs_ok hhome
  obtain ⟨s, rfl, hnew, hdir, hother⟩ := mkdtemp_ok hvm htemp
  have hnot := not_concat_below store.home (stagingStem vm ++ s)
  have hnew' := (hsame _ hnot).symm.trans hnew
  refine ⟨⟨s, rfl⟩, hnew', hdir, fun q hq => ?_, fun q hq hne => ?_, fun q hq => ?_, ?_⟩
  · rw [hother q (by rintro rfl; exact hnot hq), hdirs q hq]
  · rw [hother q hne, hsame q hq]
  · rw [hother q hq.2, w₁.fs.none_of_below hq.1 hnew]
  · have hmk : TouchesOnly (homeRoom β store vm) (mkdirs store.home) w :=
      .mkdirs fun q hq _ => Or.inr ⟨hq, rfl⟩
    have htp : TouchesOnly (homeRoom β store vm) (mkdtemp host (stagingStem vm) store.home) w₁ :=
      .mkdtemp host fun n _ => Or.inl ⟨n, List.prefix_rfl⟩
    exact (hmk.confined hhome).trans (htp.confined htemp)

-- A staging directory can always be made in an existing home.
theorem mkdtemp_returns (host : Host β) (hvm : nameMatches vm = true) {dir : Path}
    (hdir : w.fs.node dir = some .dir) :
    ∃ p w', mkdtemp host (stagingStem vm) dir w = (.ok p, w') := by
  obtain ⟨hc, hfree⟩ := host.mkdtemp_fresh w dir (stagingStem vm) (stagingStem_isComponent hvm)
  have hfault : createFault w.fs (dir ++ [stagingStem vm ++ host.mkdtempSuffix w dir
      (stagingStem vm)]) = none :=
    createFault_none_iff.mpr ⟨by simpa using hc, by simp [hfree], by simpa using hdir⟩
  exact ⟨_, _, bind_of_ok (ensureDir_new hfree hfault)⟩

theorem stagingStem_ne {s n : String} (hn : ¬".restore-".toList <+: n.toList) :
    stagingStem vm ++ s ≠ n := by
  rintro rfl
  exact hn (by simp [stagingStem, List.append_assoc])

-- Nothing of the home but its own entry is below a staging directory.
theorem staging_disjoint {s : String} {q : Path} (n : String) (rest : Path)
    (hn : ¬".restore-".toList <+: n.toList)
    (hq : store.home ++ n :: rest <+: q) : ¬store.home ++ [stagingStem vm ++ s] <+: q :=
  fun hc => stagingStem_ne hn (entry_eq hc hq)

namespace Prepared

theorem disjoint (h : Prepared store vm staging w w₂) {q rest : Path} {n : String}
    (hn : ¬".restore-".toList <+: n.toList) (hq : store.home ++ n :: rest <+: q) :
    ¬staging <+: q := by
  obtain ⟨s, rfl⟩ := h.name
  exact staging_disjoint n rest hn hq

theorem disjoint_images (h : Prepared store vm staging w w₂) {q : Path}
    (hq : store.imagesDir <+: q) : ¬staging <+: q :=
  h.disjoint (by decide) hq

theorem disjoint_vms (h : Prepared store vm staging w w₂) {q : Path}
    (hq : store.vmsDir <+: q) : ¬staging <+: q :=
  h.disjoint (by decide) hq

theorem off_home (h : Prepared store vm staging w w₂) {q : Path} (hq : q <+: store.home) :
    ¬staging <+: q := by
  obtain ⟨s, rfl⟩ := h.name
  exact fun hc => not_concat_below _ _ (hc.trans hq)

theorem not_above_root (h : Prepared store vm staging w w₂) : ¬store.vmRoot vm <+: staging := by
  obtain ⟨s, rfl⟩ := h.name
  intro hc
  simpa [DiskStore.vmRoot, DiskStore.vmsDir] using hc.length_le

end Prepared

-- The file system after the clean-up for a failure.
def discarded (fs : FileSystem β) (vmRoot : Path) : FileSystem β :=
  if fs.isDir vmRoot then fs.prune vmRoot else fs

theorem discarded_node (fs : FileSystem β) (q : Path) :
    (discarded fs (store.vmRoot vm)).node q =
      if fs.isDir (store.vmRoot vm) = true ∧ store.vmRoot vm <+: q then none else fs.node q := by
  have hr : store.vmRoot vm ≠ [] := by simp [DiskStore.vmRoot]
  by_cases hd : fs.isDir (store.vmRoot vm) = true
  · simp [discarded, hd, FileSystem.prune_node _ hr]
  · simp [discarded, hd]

theorem discardVm_eq {α : Type} (e : PyError) (w : World β) :
    ∃ es, (discardVm store vm e : Run β α) w =
      (.error e, ⟨discarded w.fs (store.vmRoot vm), w.log ++ es⟩) := by
  obtain ⟨es, hes⟩ := rmtreeIgnoring_eq (w := w) (store.vmRoot vm)
  have hlook : exists_ (store.vmRoot vm) w = (.ok (w.fs.exists_ (store.vmRoot vm)), w) := rfl
  rw [discardVm, bind_of_ok hlook]
  by_cases hex : w.fs.exists_ (store.vmRoot vm) = true
  · refine ⟨es, ?_⟩
    rw [hex, runIf, if_pos rfl, bind_of_ok hes]
    rfl
  · refine ⟨[], ?_⟩
    have hd : w.fs.isDir (store.vmRoot vm) = false := by
      simp only [FileSystem.exists_iff, not_not] at hex
      simp [FileSystem.isDir, hex]
    rw [runIf, if_neg hex, discarded, hd]
    simp [Bind.bind, Pure.pure, raise]

-- How a call of `restore` on an opened bundle ends: refused, without a home, or after its
-- body, with the staging directory removed.
inductive RestoreEnd (host : Host β) (store : DiskStore) (force : Bool) (tar : Archive β)
    (vm : String) (manifest : Json) (w : World β) :
    Except PyError RestoreResult → World β → Prop where
  | refused {e} (hvm : w.fs.node (store.vmRoot vm) ≠ none) (hforce : force = false) :
      RestoreEnd host store force tar vm manifest w (.error e) w
  | homeless {e q f} (hfree : w.fs.node (store.vmRoot vm) = none) (hq : q <+: store.home)
      (hf : w.fs.node q = some (.file f)) :
      RestoreEnd host store force tar vm manifest w (.error e) w
  | returned {staging w₂ w₃ w' result} (hforce : w.fs.node (store.vmRoot vm) ≠ none → force = true)
      (hp : Prepared store vm staging w w₂)
      (hbody : restoreBody host store tar vm manifest staging w₂ = (.ok result, w₃))
      (hend : w'.fs = w₃.fs.prune staging) (hlog : w'.log = w₃.log ++ [.removed staging]) :
      RestoreEnd host store force tar vm manifest w (.ok result) w'
  | raised {staging w₂ w₃ w' e} (hforce : w.fs.node (store.vmRoot vm) ≠ none → force = true)
      (hp : Prepared store vm staging w w₂)
      (hbody : restoreBody host store tar vm manifest staging w₂ = (.error e, w₃))
      (hend : w'.fs = (discarded w₃.fs (store.vmRoot vm)).prune staging) :
      RestoreEnd host store force tar vm manifest w (.error e) w'

-- How the body ends: while the archive is extracted, while the images are placed, at a file in
-- the place of the VM directory, or while the VM is assembled, with the old VM gone.
inductive BodyEnd (host : Host β) (store : DiskStore) (tar : Archive β) (vm : String)
    (manifest : Json) (staging : Path) (w : World β) :
    Except PyError RestoreResult → World β → Prop where
  | extracting {e w'} (hx : extractVerified host tar manifest staging w = (.error e, w')) :
      BodyEnd host store tar vm manifest staging w (.error e) w'
  | placing {e wa w'} (hx : extractVerified host tar manifest staging w = (.ok (), wa))
      (hi : placeImages host store manifest staging wa = (.error e, w')) :
      BodyEnd host store tar vm manifest staging w (.error e) w'
  | blocked {e wa w' f} (hx : extractVerified host tar manifest staging w = (.ok (), wa))
      (hi : placeImages host store manifest staging wa = (.ok (), w'))
      (hroot : w'.fs.node (store.vmRoot vm) = some (.file f)) :
      BodyEnd host store tar vm manifest staging w (.error e) w'
  | assembling {r wa wb wc w'} (hx : extractVerified host tar manifest staging w = (.ok (), wa))
      (hi : placeImages host store manifest staging wa = (.ok (), wb))
      (hroot : ∀ f, wb.fs.node (store.vmRoot vm) ≠ some (.file f))
      (hclear : ∀ q, wc.fs.node q = if store.vmRoot vm <+: q then none else wb.fs.node q)
      (hasm : assembleVm host store vm manifest staging wc = (r, w')) :
      BodyEnd host store tar vm manifest staging w r w'

theorem body_end {tar : Archive β} {manifest : Json} {r : Except PyError RestoreResult}
    (h : restoreBody host store tar vm manifest staging w = (r, w')) :
    BodyEnd host store tar vm manifest staging w r w' := by
  have hr : store.vmRoot vm ≠ [] := by simp [DiskStore.vmRoot]
  rw [restoreBody] at h
  rcases hx : extractVerified host tar manifest staging w with ⟨e | _, wa⟩
  · rw [bind_of_error hx] at h
    obtain ⟨rfl, rfl⟩ := Prod.mk.inj h
    exact .extracting hx
  rw [bind_of_ok hx] at h
  rcases hi : placeImages host store manifest staging wa with ⟨e | _, wb⟩
  · rw [bind_of_error hi] at h
    obtain ⟨rfl, rfl⟩ := Prod.mk.inj h
    exact .placing hx hi
  rw [bind_of_ok hi] at h
  have hlook : exists_ (store.vmRoot vm) wb = (.ok (wb.fs.exists_ (store.vmRoot vm)), wb) := rfl
  rw [bind_of_ok hlook] at h
  rcases hroot : wb.fs.node (store.vmRoot vm) with _ | _ | f
  · rw [FileSystem.exists_, hroot, runIf, if_neg (by simp), bind_of_ok pure_run] at h
    refine .assembling hx hi (by simp [hroot]) (fun q => ?_) h
    split
    · rename_i hq
      exact wb.fs.none_of_below hq hroot
    · rfl
  · have hrm : rmtree (store.vmRoot vm) wb =
        (.ok (), ⟨wb.fs.prune (store.vmRoot vm), wb.log ++ [.removed (store.vmRoot vm)]⟩) := by
      rw [rmtree, read_bind]
      simp only [hroot]
      rfl
    rw [FileSystem.exists_, hroot, runIf, if_pos Option.isSome_some, bind_of_ok hrm] at h
    exact .assembling hx hi (by simp [hroot]) (fun q => FileSystem.prune_node _ hr) h
  · have hrm : rmtree (store.vmRoot vm) wb = (.error (.osError .notDirectory), wb) := by
      rw [rmtree, read_bind]
      simp only [hroot]
      rfl
    rw [FileSystem.exists_, hroot, runIf, if_pos Option.isSome_some, bind_of_error hrm] at h
    obtain ⟨rfl, rfl⟩ := Prod.mk.inj h
    exact .blocked hx hi hroot

-- What the body as a whole may do. The staging directory itself stays.
def bodyRoom (β : Type) (store : DiskStore) (vm : String) (staging : Path) : Room β where
  free q := Below staging q ∨ store.vmRoot vm <+: q
  gone _ := False
  fresh q x := ((q <+: store.imagesDir ∨ q <+: store.vmsDir) ∧ x = .dir) ∨
    ∃ n f, q = store.imagesDir ++ [n] ∧ x = .file f

theorem stagingRoom_le (q : Path) (h : (stagingRoom β staging).free q) :
    (bodyRoom β store vm staging).free q :=
  Or.inl h

theorem vmRoom_fresh_le (q : Path) (x : Node β) (h : (vmRoom β store vm staging).fresh q x) :
    (bodyRoom β store vm staging).free q ∨ (bodyRoom β store vm staging).fresh q x := by
  obtain ⟨hq, rfl⟩ := h
  rcases List.prefix_concat_iff.mp hq with rfl | hq
  · exact Or.inl (Or.inr List.prefix_rfl)
  · exact Or.inr (Or.inl ⟨Or.inr hq, rfl⟩)

theorem restoreBody_touches {tar : Archive β} {manifest : Json}
    (hp : Prepared store vm staging w w₂) :
    TouchesOnly (bodyRoom β store vm staging) (restoreBody host store tar vm manifest staging)
      w₂ := by
  have hx : TouchesOnly (stagingRoom β staging) (extractVerified host tar manifest staging) w₂ :=
    extractVerified_touches hp.dir tar manifest
  refine .bind (hx.mono stagingRoom_le (fun _ h => h.elim) fun _ _ h => h.elim)
    fun _ wa hrun _ => ?_
  have hrec := placeableRecords_of_extract hp.dir hrun
  have hdir := ((stages_stagingRoom hp.dir).step (hx.confined hrun)).dir
  have hi : TouchesOnly (imagesRoom β store staging) (placeImages host store manifest staging) wa :=
    placeImages_touches hdir hrec.images
  refine .bind (hi.mono (fun _ h => h.elim) (fun _ h => Or.inl (Or.inl h)) fun q x h => Or.inr ?_)
    fun _ wb hrun _ => ?_
  · exact h.imp (fun h => ⟨Or.inl h.1, h.2⟩) id
  have hdir := ((stages_imagesRoom hdir).step (hi.confined hrun)).dir
  refine .look (.exists_ _) fun present _ => ?_
  refine .bind (.runIf fun _ => .rmtree fun _ hq => Or.inl (Or.inr hq)) fun _ wc _ hwc => ?_
  have hdir' : wc.fs.node staging = some .dir := by
    refine (hwc.keep (fun hc => hc.elim (fun hc => hc.2 rfl) hp.not_above_root) id ?_).trans hdir
    simp [hdir]
  exact (assembleVm_touches (stages_vmRoom hdir' hp.not_above_root) hrec).mono
    (fun _ h => Or.inr h.1) (fun _ h => Or.inl (Or.inl h)) vmRoom_fresh_le

-- Clean-up after the body finds the staging directory.
theorem Prepared.dir_after (h : Prepared store vm staging w w₂) {tar : Archive β}
    {manifest : Json} {r : Except PyError RestoreResult}
    (hbody : restoreBody host store tar vm manifest staging w₂ = (r, w₃)) :
    w₃.fs.node staging = some .dir := by
  have hc := (restoreBody_touches h).confined hbody
  rw [hc.keep (fun hc => hc.elim (fun hc => hc.2 rfl) h.not_above_root) id (by simp [h.dir]),
    h.dir]

theorem restore_end {bundlePath : Path} {asVm : Option String} {force : Bool} {tar : Archive β}
    {manifest : Json} {r : Except PyError RestoreResult}
    (hopen : Opens host bundlePath asVm w.fs tar manifest vm)
    (h : restore host store bundlePath asVm force w = (r, w')) :
    RestoreEnd host store force tar vm manifest w r w' := by
  have hvm := hopen.valid
  have hlook : exists_ (store.vmRoot vm) w = (.ok (w.fs.exists_ (store.vmRoot vm)), w) := rfl
  rw [restore, bind_of_ok (openBundle_eq_ok.mpr ⟨hopen, rfl⟩)] at h
  simp only [] at h
  rw [bind_of_ok hlook] at h
  by_cases hrefuse : (w.fs.exists_ (store.vmRoot vm) && !force) = true
  · rw [hrefuse, raiseIf, if_pos rfl] at h
    obtain ⟨rfl, rfl⟩ := Prod.mk.inj h
    simp only [Bool.and_eq_true, FileSystem.exists_iff, Bool.not_eq_true'] at hrefuse
    exact .refused hrefuse.1 hrefuse.2
  have hforce : w.fs.node (store.vmRoot vm) ≠ none → force = true := by
    simpa using hrefuse
  rw [raiseIf, if_neg hrefuse, bind_of_ok pure_run] at h
  rcases hhome : mkdirs store.home w with ⟨e | _, w₁⟩
  · rw [bind_of_error hhome] at h
    obtain ⟨rfl, rfl⟩ := Prod.mk.inj h
    obtain ⟨rfl, q, f, hq, hf⟩ := mkdirs_error store.legal hhome
    refine .homeless ?_ hq hf
    refine FileSystem.none_of_below_file _ (hq.trans ?_) ?_ hf
    · simp [DiskStore.vmRoot, DiskStore.vmsDir, List.append_assoc]
    · rintro rfl
      simpa [DiskStore.vmRoot, DiskStore.vmsDir] using hq.length_le
  rw [bind_of_ok hhome] at h
  obtain ⟨staging, w₂, htemp⟩ := mkdtemp_returns host hvm
    ((mkdirs_ok hhome).1 store.home List.prefix_rfl)
  have hp := prepared_of_run hvm hhome htemp
  rw [stagingStem] at htemp
  rw [bind_of_ok htemp] at h
  rcases hbody : restoreBody host store tar vm manifest staging w₂ with ⟨e | result, w₃⟩
  · obtain ⟨es, hdiscard⟩ : ∃ es, (discardVm store vm e : Run β RestoreResult) w₃ = _ :=
      discardVm_eq e w₃
    have hdir : (discarded w₃.fs (store.vmRoot vm)).isDir staging = true := by
      rw [FileSystem.isDir_iff, discarded_node, if_neg, hp.dir_after hbody]
      exact fun hc => hp.not_above_root hc.2
    obtain ⟨es', hclean⟩ := rmtreeIgnoring_eq
      (w := ⟨discarded w₃.fs (store.vmRoot vm), w₃.log ++ es⟩) staging
    simp only [Exec.tryFinally, Exec.tryExcept, hbody, hdiscard, hclean, hdir, ite_true] at h
    obtain ⟨rfl, rfl⟩ := Prod.mk.inj h
    exact .raised hforce hp hbody rfl
  · have hdir := (FileSystem.isDir_iff w₃.fs).mpr (hp.dir_after hbody)
    have hclean := rmtreeIgnoring_dir (w := w₃) hdir
    simp only [Exec.tryFinally, Exec.tryExcept, hbody, hclean] at h
    obtain ⟨rfl, rfl⟩ := Prod.mk.inj h
    exact .returned hforce hp hbody rfl rfl

end

end VMForge.Storage
