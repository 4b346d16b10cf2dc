import VMForge.Storage.Restore.Extract
import VMForge.Storage.Restore.Steps
import VMForge.Storage.Restore.Theorems

namespace VMForge.Storage

open Exec

section

variable {β : Type} {host : Host β} {store : DiskStore} {vm : String} {staging : Path}
  {tar : Archive β} {manifest r : Json} {w w' : World β}

theorem placeImage_settled (h : Settled host store w.fs r) :
    placeImage host store staging r w = (.ok (), w) := by
  obtain ⟨arc, f, digest, harc, hf, hd, heq⟩ := h
  have hlook : exists_ (joinName store.imagesDir arc) w = (.ok true, w) := by
    simp [FileSystem.exists_, hf]
  have hsum : sha256File host (joinName store.imagesDir arc) w = (.ok (host.sha256 f.blob), w) := by
    simp [sha256File, readBytes_ok, FileSystem.blob, hf]
  rw [placeImage, bind_of_ok (ofExcept_eq_ok.mpr ⟨harc, rfl⟩), bind_of_ok hlook, if_pos rfl,
    bind_of_ok hsum, bind_of_ok (ofExcept_eq_ok.mpr ⟨hd, rfl⟩), heq]
  rfl

theorem DiskStore_imagesDir_legal (store : DiskStore) :
    ∀ n ∈ store.imagesDir, Path.isComponent n = true := by
  intro n hn
  rcases List.mem_append.mp hn with hn | hn
  · exact store.legal n hn
  · rw [List.mem_singleton] at hn
    subst hn
    decide

-- A record is refused when its file is there and differs, and when there can be no directory
-- for a new one. Nothing happens then.
theorem placeImage_refused (hset : ¬Settled host store w.fs r)
    (hnew : NewImage store w.fs r → ∃ f, w.fs.node store.imagesDir = some (.file f)) :
    ∃ e, placeImage host store staging r w = (.error e, w) := by
  rw [placeImage]
  rcases harc : (pyIndex r "path" >>= pyStr) with e | arc
  · exact ⟨e, rfl⟩
  rw [bind_of_ok (ofExcept_eq_ok.mpr ⟨rfl, rfl⟩)]
  rcases hnode : w.fs.node (joinName store.imagesDir arc) with _ | _ | f
  · have hlook : exists_ (joinName store.imagesDir arc) w = (.ok false, w) := by
      simp [FileSystem.exists_, hnode]
    obtain ⟨f, hf⟩ := hnew ⟨arc, harc, hnode⟩
    rw [bind_of_ok hlook, if_neg Bool.false_ne_true]
    rcases hmk : mkdirs store.imagesDir w with ⟨e | _, w'⟩
    · obtain ⟨rfl, -⟩ := mkdirs_error (DiskStore_imagesDir_legal store) hmk
      exact ⟨e, bind_of_error hmk⟩
    · have hdir := (mkdirs_ok hmk).1 store.imagesDir List.prefix_rfl
      rw [mkdirs_keep hmk (by simp [hf]), hf] at hdir
      cases hdir
  · have hlook : exists_ (joinName store.imagesDir arc) w = (.ok true, w) := by
      simp [FileSystem.exists_, hnode]
    have hread : readBytes (joinName store.imagesDir arc) w =
        (.error (.osError .isDirectory), w) := by
      rw [readBytes, read_bind]
      simp only [hnode]
      rfl
    rw [bind_of_ok hlook, if_pos rfl]
    exact ⟨_, bind_of_error (bind_of_error hread)⟩
  · have hlook : exists_ (joinName store.imagesDir arc) w = (.ok true, w) := by
      simp [FileSystem.exists_, hnode]
    have hsum : sha256File host (joinName store.imagesDir arc) w =
        (.ok (host.sha256 f.blob), w) := by
      simp [sha256File, readBytes_ok, FileSystem.blob, hnode]
    rw [bind_of_ok hlook, if_pos rfl, bind_of_ok hsum]
    rcases hd : pyIndex r "sha256" with e | digest
    · exact ⟨e, rfl⟩
    rw [bind_of_ok (ofExcept_eq_ok.mpr ⟨rfl, rfl⟩)]
    rcases heq : Json.eqStr (host.sha256 f.blob) digest with _ | _
    · exact ⟨_, rfl⟩
    · exact absurd ⟨arc, f, digest, harc, hnode, hd, heq⟩ hset

-- A new image is put there.
theorem placeImage_new {p : Path} {data : β} {f : File β} (hr : RecordVerified host tar r p data)
    (hsrc : w.fs.node (staging ++ p) = some (.file f)) (hhome : w.fs.node store.home = some .dir)
    (hfree : ∀ f, w.fs.node store.imagesDir ≠ some (.file f)) (hnew : NewImage store w.fs r) :
    ∃ w' n, placeImage host store staging r w = (.ok (), w') ∧
      w.fs.node (store.imagesDir ++ [n]) = none ∧ w'.fs.node (store.imagesDir ++ [n]) ≠ none := by
  obtain ⟨arc, hsafe, rfl, -⟩ := hr.member
  obtain ⟨hpath, habs, -⟩ := safeArc_eq_ok.mp hsafe
  obtain ⟨arc', harc, hnone⟩ := hnew
  have hpath' : (pyIndex r "path" >>= pyStr) = .ok arc := by
    simp [hpath, pyStr]
  obtain rfl := Except.ok.inj (hpath'.symm.trans harc)
  cases hp : Path.parts arc using List.reverseRecOn with
  | nil => exact absurd hp hr.named
  | append_singleton p₀ n =>
      have hcomp : Path.isComponent n = true := hr.legal n (by simp [hp])
      have hname : joinName store.imagesDir arc = store.imagesDir ++ [n] :=
        joinName_of_parts hp ((Path.isComponent_iff n).mp hcomp).1
      rw [hname] at hnone
      have hlook : exists_ (store.imagesDir ++ [n]) w = (.ok false, w) := by
        simp [FileSystem.exists_, hnone]
      have hclear : ∀ q f, q <+: store.imagesDir → w.fs.node q ≠ some (.file f) := by
        intro q f hq hf
        rcases List.prefix_concat_iff.mp hq with rfl | hq
        · exact hfree f hf
        · by_cases he : q = store.home
          · rw [he, hhome] at hf
            cases hf
          · rw [w.fs.isDir_of_below hq he (by simp [hhome])] at hf
            cases hf
      obtain ⟨t, hmk⟩ := mkdirs_returns (DiskStore_imagesDir_legal store) hclear
      have htnone := ((mkdirs_ok hmk).2 _ (not_concat_below store.imagesDir n)).trans hnone
      have hfault : createFault t.fs (store.imagesDir ++ [n]) = none :=
        createFault_none_iff.mpr ⟨by simpa using hcomp, by simp [htnone],
          by simpa using (mkdirs_ok hmk).1 _ List.prefix_rfl⟩
      have htsrc := (mkdirs_keep hmk (by simp [hsrc])).trans hsrc
      obtain ⟨w', hmove⟩ := move_returns htsrc hfault
      refine ⟨w', n, ?_, hnone, ?_⟩
      · rw [placeImage, bind_of_ok (ofExcept_eq_ok.mpr ⟨hpath', rfl⟩), hname, bind_of_ok hlook,
          if_neg Bool.false_ne_true, bind_of_ok hmk, joinStr_of_not_absolute staging habs]
        exact hmove
      · obtain ⟨f', -, -, -, hnode⟩ := move_ok hmove
        rw [hnode, moveTarget_of_not_dir (by simp [htnone]), if_pos rfl]
        simp

-- A disk whose name is valid, and so is the name of its first snapshot, if any: `restore` gets
-- as far as making a directory for it.
def Named (item : String × Json) : Prop :=
  nameMatches item.1 = true ∧ ∃ snaps, recordsAt item.2 "snapshots" = .ok snaps ∧
    ∀ snap ∈ snaps.head?, ∃ name, (pyIndex snap "name" >>= pyStr) = .ok name ∧
      nameMatches name = true

def FirstDiskNamed (manifest : Json) : Prop :=
  ∃ item rest, (pyIndex manifest "disks" >>= pySortedItems) = .ok (item :: rest) ∧ Named item

theorem validateName_refused (kind : String) (w : World β) {name : String} (h : nameMatches name ≠ true) :
    ∃ e, (validateName kind name : Run β String) w = (.error e, w) := by
  have hf : nameMatches name = false := by simpa using h
  rw [validateName, hf]
  exact ⟨_, rfl⟩

theorem assembleDisk_refused {item : String × Json} (h : ¬Named item) :
    ∃ e, assembleDisk host store vm staging item w = (.error e, w) := by
  rw [assembleDisk]
  by_cases hdisk : nameMatches item.1 = true
  · rw [bind_of_ok (validateName_eq_ok.mpr ⟨hdisk, rfl, rfl⟩)]
    rcases hsnaps : (pyGetList item.2 "snapshots" >>= pyIter) with e | snaps
    · exact ⟨e, rfl⟩
    rw [bind_of_ok (ofExcept_eq_ok.mpr ⟨rfl, rfl⟩)]
    rcases snaps with _ | ⟨snap, snaps⟩
    · exact absurd ⟨hdisk, [], hsnaps, by simp⟩ h
    have hmove : ∃ e, moveSnapshot store vm item.1 staging snap w = (.error e, w) := by
      rw [moveSnapshot]
      rcases hname : (pyIndex snap "name" >>= pyStr) with e | name
      · exact ⟨e, rfl⟩
      rw [bind_of_ok (ofExcept_eq_ok.mpr ⟨rfl, rfl⟩)]
      by_cases hvalid : nameMatches name = true
      · refine absurd ⟨hdisk, _, hsnaps, ?_⟩ h
        intro snap' hsnap
        obtain rfl : snap = snap' := by simpa using hsnap
        exact ⟨name, hname, hvalid⟩
      · obtain ⟨e, he⟩ := validateName_refused "snapshot" w hvalid
        exact ⟨e, bind_of_error he⟩
    obtain ⟨e, he⟩ := hmove
    exact ⟨e, by rw [forEach_cons, bind_of_error (bind_of_error he)]⟩
  · obtain ⟨e, he⟩ := validateName_refused "disk" w hdisk
    exact ⟨e, bind_of_error he⟩

-- Without a directory for the VM no config file can be moved.
theorem moveConfig_homeless (hr : Placeable r) (hroot : w.fs.node (store.vmRoot vm) = none)
    {x : Except PyError Unit} (h : moveConfig store vm staging r w = (x, w')) :
    w' = w ∧ ∃ e, x = .error e := by
  cases x with
  | ok u =>
      simp only [moveConfig, bind_eq_ok, ofExcept_eq_ok] at h
      obtain ⟨arc, _, ⟨harc, rfl⟩, hmove⟩ := h
      obtain ⟨n, hname⟩ := hr.joinName harc (store.vmRoot vm)
      rw [hname] at hmove
      obtain ⟨f, -, hfault, -⟩ := move_ok hmove
      have hnone : w.fs.node (store.vmRoot vm ++ [n]) = none :=
        w.fs.none_of_below (List.prefix_append _ _) hroot
      rw [moveTarget_of_not_dir (by simp [hnone])] at hfault
      have hparent := (createFault_none_iff.mp hfault).2.2
      simp [hroot] at hparent
  | error e =>
      rcases Quiet.error_bind (.ofExcept _) h with hw | ⟨arc, -, hmove⟩
      · exact ⟨hw, e, rfl⟩
      · exact ⟨move_error hmove, e, rfl⟩

-- When the first disk or its first snapshot is badly named, or there is no disk, a failure
-- comes before anything is done.
theorem assembleVm_refused {e : PyError} (hrec : PlaceableRecords manifest)
    (hroot : w.fs.node (store.vmRoot vm) = none) (hfirst : ¬FirstDiskNamed manifest)
    (h : assembleVm host store vm manifest staging w = (.error e, w')) : w' = w := by
  rcases Quiet.error_bind (store.vmDir_quiet vm) h with hw | ⟨_, -, h⟩
  · exact hw
  rcases Quiet.error_bind (.ofExcept _) h with hw | ⟨items, hitems, h⟩
  · exact hw
  replace hitems := (ofExcept_eq_ok.mp hitems).1
  rcases items with _ | ⟨item, rest⟩
  · rw [mapEach_nil, bind_of_ok pure_run] at h
    rcases Quiet.error_bind (.ofExcept _) h with hw | ⟨config, hconfig, h⟩
    · exact hw
    have hplace := hrec.config config (ofExcept_eq_ok.mp hconfig).1
    rcases config with _ | ⟨r, config⟩
    · rw [forEach_nil, bind_of_ok pure_run] at h
      cases h
    · rcases hmove : moveConfig store vm staging r w with ⟨x, t⟩
      obtain ⟨rfl, e', rfl⟩ := moveConfig_homeless (hplace r List.mem_cons_self) hroot hmove
      rw [forEach_cons, bind_of_error (bind_of_error hmove)] at h
      exact (Prod.mk.inj h).2.symm
  · obtain ⟨e', he'⟩ : ∃ e', assembleDisk host store vm staging item w = (.error e', w) :=
      assembleDisk_refused fun hn => hfirst ⟨item, rest, hitems, hn⟩
    rw [mapEach_cons, bind_of_error (bind_of_error he')] at h
    exact (Prod.mk.inj h).2.symm

-- The first directory made for a disk is `vms`.
theorem mkdirs_makes_vms (hvm : nameMatches vm = true) (hhome : w.fs.node store.home = some .dir)
    (hnone : w.fs.node store.vmsDir = none) (dirs : List String)
    (hdirs : ∀ n ∈ dirs, Path.isComponent n = true) :
    Leaves store.vmsDir (mkdirs (store.vmRoot vm ++ dirs)) w := by
  have hlegal : ∀ n ∈ store.vmRoot vm ++ dirs, Path.isComponent n = true := by
    intro n hn
    simp only [DiskStore.vmRoot, DiskStore.vmsDir, List.mem_append, List.mem_singleton] at hn
    rcases hn with ((hn | rfl) | rfl) | hn
    · exact store.legal n hn
    · decide
    · exact isComponent_of_valid hvm
    · exact hdirs n hn
  have hvms : store.vmsDir <+: store.vmRoot vm ++ dirs := by
    simp [DiskStore.vmRoot, List.append_assoc]
  have hclear : ∀ q f, q <+: store.vmRoot vm ++ dirs → w.fs.node q ≠ some (.file f) := by
    intro q f hq hf
    rcases List.prefix_or_prefix_of_prefix hq hvms with hqv | hqv
    · rcases List.prefix_concat_iff.mp hqv with he | hqh
      · rw [show q = store.vmsDir from he, hnone] at hf
        cases hf
      · by_cases he : q = store.home
        · simp [he, hhome] at hf
        · simp [w.fs.isDir_of_below hqh he (by simp [hhome])] at hf
    · simp [w.fs.none_of_below hqv hnone] at hf
  obtain ⟨w', hmk⟩ := mkdirs_returns hlegal hclear
  simp [Leaves, hmk, (mkdirs_ok hmk).1 _ hvms]

-- Otherwise there is a directory for VMs from then on.
theorem assembleVm_makes_vms (host : Host β) (hvm : nameMatches vm = true) (hrec : PlaceableRecords manifest)
    (hdir : w.fs.node staging = some .dir) (hstaging : ¬store.vmRoot vm <+: staging)
    (hvms : ¬staging <+: store.vmsDir) (hhome : w.fs.node store.home = some .dir)
    (hnone : w.fs.node store.vmsDir = none) (hfirst : FirstDiskNamed manifest) :
    Leaves store.vmsDir (assembleVm host store vm manifest staging) w := by
  obtain ⟨item, rest, hitems, hdisk, snaps, hsnaps, hhead⟩ := hfirst
  obtain ⟨hactive, hplace⟩ := hrec.disks _ hitems item List.mem_cons_self
  have hsnap := hplace snaps hsnaps
  have hstages : Stages (vmRoom β store vm staging) staging w := stages_vmRoom hdir hstaging
  have hfree : ¬(vmRoom β store vm staging).free store.vmsDir := fun hc => by
    simpa [DiskStore.vmRoot] using hc.1.length_le
  have hgone : ¬(vmRoom β store vm staging).gone store.vmsDir := fun hc => hvms hc.1
  have hmk := fun dirs => mkdirs_makes_vms hvm hhome hnone dirs
  refine .look (a := store.vmRoot vm) (store.vmDir_eq_ok.mpr ⟨hvm, rfl, rfl⟩) ?_
  refine .look (a := item :: rest) (ofExcept_eq_ok.mpr ⟨hitems, rfl⟩) ?_
  refine .bind hfree hgone ?_ fun counts t hrun => ?_
  · rw [mapEach_cons]
    refine .bind hfree hgone ?_ fun count t hrun => ?_
    · refine .look (a := item.1) (validateName_eq_ok.mpr ⟨hdisk, rfl, rfl⟩) ?_
      refine .look (a := snaps) (ofExcept_eq_ok.mpr ⟨hsnaps, rfl⟩) ?_
      cases snaps with
      | nil =>
          refine .look (a := ()) rfl (.look (a := ()) rfl (.bind hfree hgone ?_ fun _ _ _ => .pure _))
          refine .look (a := store.diskFile vm item.1)
            (store.diskPath_eq_ok.mpr ⟨hvm, hdisk, rfl, rfl⟩) ?_
          rw [diskFile_dropLast]
          refine .bind hfree hgone (hmk _ (by decide)) fun _ t hrun => ?_
          exact fillActive_touches (hstages.step ((vmRoom_mkdirs _).confined hrun)) hactive
      | cons snap snaps =>
          obtain ⟨name, hname, hvalid⟩ := hhead snap rfl
          refine .bind hfree hgone ?_ fun _ t hrun => ?_
          · rw [forEach_cons]
            refine .bind hfree hgone ?_ fun _ t hrun => ?_
            · refine .look (a := name) (ofExcept_eq_ok.mpr ⟨hname, rfl⟩) ?_
              refine .look (a := name) (validateName_eq_ok.mpr ⟨hvalid, rfl, rfl⟩) ?_
              refine .look (a := store.snapshotFile vm item.1 name)
                (store.snapshotPath_eq_ok.mpr ⟨hvm, hdisk, hvalid, rfl, rfl⟩) ?_
              rw [snapshotFile_dropLast]
              refine .bind hfree hgone (hmk _ (by simp [isComponent_of_valid hdisk]; decide))
                fun _ t hrun => .look (.ofExcept _) fun arc harc => ?_
              exact vmRoom_move (hstages.step ((vmRoom_mkdirs _).confined hrun))
                (hsnap snap List.mem_cons_self) (ofExcept_eq_ok.mp harc).1 (snapshotFile_below _ _ _ _)
            · have ht := hstages.step
                ((moveSnapshot_touches hstages (hsnap snap List.mem_cons_self)).confined hrun)
              exact .forEach fun r hm _ hw =>
                moveSnapshot_touches (ht.step hw) (hsnap r (List.mem_cons_of_mem _ hm))
          · have hmoves : TouchesOnly (vmRoom β store vm staging)
                (forEach (snap :: snaps) (moveSnapshot store vm item.1 staging)) w :=
              .forEach fun r hm _ hw => moveSnapshot_touches (hstages.step hw) (hsnap r hm)
            have ht := hstages.step (hmoves.confined hrun)
            refine .bind (.forEach fun r hm _ hw => rebaseSnapshot_touches) fun _ _ _ hw₂ => ?_
            exact .bind (placeActive_touches (ht.step hw₂) hactive) fun _ _ _ _ => .pure _
    · have ht := hstages.step ((assembleDisk_touches hstages hactive hplace).confined hrun)
      refine .bind (assembleDisks_touches ht fun item' hm => ?_) fun _ _ _ _ => .pure _
      exact hrec.disks _ hitems item' (List.mem_cons_of_mem _ hm)
  · have ht := hstages.step ((assembleDisks_touches hstages (hrec.disks _ hitems)).confined hrun)
    exact finishVm_touches ht hrec

end

section

variable {β : Type} {host : Host β} {store : DiskStore} {bundlePath : Path}
  {asVm : Option String} {force : Bool} {vm : String} {staging : Path} {tar : Archive β}
  {manifest : Json} {w w' w₂ w₃ wa wb wc : World β}

-- Outside the directories of the target VMs, `images`, `vms` and the entries of the home are
-- as they were.
structure LeavesNothing (store : DiskStore) (target : String → Prop) (w w' : World β) : Prop where
  images : ∀ q, Below store.imagesDir q → w'.fs.node q = w.fs.node q
  vms : ∀ q, Below store.vmsDir q → (∀ vm, target vm → ¬store.vmRoot vm <+: q) →
    w'.fs.node q = w.fs.node q
  entries : ∀ n, w'.fs.exists_ (store.home ++ [n]) = w.fs.exists_ (store.home ++ [n])

-- The bundle is verified and the call is free to go on.
structure Accepted (host : Host β) (store : DiskStore) (bundlePath : Path) (asVm : Option String)
    (force : Bool) (fs : FileSystem β) (tar : Archive β) (manifest : Json) (vm : String)
    (files : List Json) : Prop where
  opens : Opens host bundlePath asVm fs tar manifest vm
  allowed : fs.node (store.vmRoot vm) ≠ none → force = true
  home : ∀ q f, q <+: store.home → fs.node q ≠ some (.file f)
  listed : manifestFiles manifest = .ok files
  verified : Verifies host tar files

-- A new image comes before any image that is in conflict with the home.
def PlacesImage (host : Host β) (store : DiskStore) (fs : FileSystem β) (images : List Json) :
    Prop :=
  (∀ f, fs.node store.imagesDir ≠ some (.file f)) ∧ ∃ done r rest, images = done ++ r :: rest ∧
    (∀ d ∈ done, Settled host store fs d) ∧ NewImage store fs r

-- Every image is there already, and the first VM of the home is about to be assembled.
def MakesVms (host : Host β) (store : DiskStore) (fs : FileSystem β) (images : List Json)
    (manifest : Json) : Prop :=
  (∀ r ∈ images, Settled host store fs r) ∧ fs.node store.vmsDir = none ∧ FirstDiskNamed manifest

def Litters (host : Host β) (store : DiskStore) (bundlePath : Path) (asVm : Option String)
    (force : Bool) (fs : FileSystem β) : Prop :=
  ∃ tar manifest vm files images,
    Accepted host store bundlePath asVm force fs tar manifest vm files ∧
    recordsAt manifest "images" = .ok images ∧
    (PlacesImage host store fs images ∨ MakesVms host store fs images manifest)

theorem Opens.unique {tar' : Archive β} {manifest' : Json} {vm' : String}
    (h : Opens host bundlePath asVm w.fs tar manifest vm)
    (h' : Opens host bundlePath asVm w.fs tar' manifest' vm') :
    tar = tar' ∧ manifest = manifest' ∧ vm = vm' := by
  have heq := (openBundle_eq_ok.mpr ⟨h, rfl⟩).symm.trans (openBundle_eq_ok.mpr ⟨h', rfl⟩)
  simpa using heq

theorem leavesNothing_refl (target : String → Prop) (w : World β) :
    LeavesNothing store target w w :=
  ⟨fun _ _ => rfl, fun _ _ _ => rfl, fun _ => rfl⟩

-- Away from the staging directory, the VM and the way to the home.
structure Outside (store : DiskStore) (vm : String) (staging q : Path) : Prop where
  staging : ¬staging <+: q
  root : ¬store.vmRoot vm <+: q
  home : ¬q <+: store.home

theorem outside_images (hp : Prepared store vm staging w w₂) {q : Path}
    (hq : store.imagesDir <+: q) : Outside store vm staging q := by
  refine ⟨hp.disjoint_images hq, fun hc => ?_, fun hc => ?_⟩
  · have himages : store.home ++ ["images"] <+: q := hq
    have hvms : store.home ++ ["vms", vm] <+: q := by
      simpa [DiskStore.vmRoot, DiskStore.vmsDir, List.append_assoc] using hc
    exact absurd (entry_eq himages hvms) (by decide)
  · simpa [DiskStore.imagesDir] using (hq.trans hc).length_le

theorem outside_vmsDir (hp : Prepared store vm staging w w₂) :
    Outside store vm staging store.vmsDir := by
  refine ⟨hp.disjoint_vms List.prefix_rfl, fun hc => ?_, not_concat_below _ _⟩
  simpa [DiskStore.vmRoot] using hc.length_le

theorem node_after_failure (hend : w'.fs = (discarded w₃.fs (store.vmRoot vm)).prune staging)
    {q : Path} (hq : Outside store vm staging q) : w'.fs.node q = w₃.fs.node q := by
  rw [hend, FileSystem.prune_node_of_not_below _ hq.staging, discarded_node,
    if_neg fun hc => hq.root hc.2]

theorem leavesNothing_of_outside {target : String → Prop} (hvm : target vm)
    (hp : Prepared store vm staging w w₂)
    (hend : w'.fs = (discarded w₃.fs (store.vmRoot vm)).prune staging)
    (hsame : ∀ q, Outside store vm staging q → w₃.fs.node q = w.fs.node q) :
    LeavesNothing store target w w' := by
  have hnode : ∀ q, Outside store vm staging q → w'.fs.node q = w.fs.node q := fun q hq =>
    (node_after_failure hend hq).trans (hsame q hq)
  refine ⟨fun q hq => hnode q (outside_images hp hq.1), fun q hq hnot => ?_, fun n => ?_⟩
  · refine hnode q ⟨hp.disjoint_vms hq.1, hnot vm hvm, fun hc => ?_⟩
    simpa [DiskStore.vmsDir] using (hq.1.trans hc).length_le
  · by_cases hn : staging = store.home ++ [n]
    · subst hn
      have hne : store.home ++ [n] ≠ [] := by simp
      simp only [FileSystem.exists_, hp.new, hend, FileSystem.prune_node_of_below _ hne
        List.prefix_rfl]
    · have hout : Outside store vm staging (store.home ++ [n]) := by
        obtain ⟨s, hs⟩ := hp.name
        refine ⟨fun hc => hn (hc.eq_of_length ?_), fun hc => ?_, not_concat_below _ _⟩
        · simp [hs]
        · simpa [DiskStore.vmRoot, DiskStore.vmsDir] using hc.length_le
      simp only [FileSystem.exists_, hnode _ hout]

-- Nothing outside has changed when the archive is extracted.
theorem extract_outside {x : Except PyError Unit} (hp : Prepared store vm staging w w₂)
    (hx : extractVerified host tar manifest staging w₂ = (x, wa)) {q : Path}
    (hq : Outside store vm staging q) : wa.fs.node q = w.fs.node q := by
  have hext := (extractVerified_touches hp.dir tar manifest).confined hx
  rw [hext.same (fun hc => hq.staging hc.1) id fun _ hc => hc]
  exact hp.same q hq.home fun he => hq.staging (he ▸ List.prefix_rfl)

-- Assembling leaves everything outside alone, once there is a directory for VMs.
theorem assemble_outside {x : Except PyError RestoreResult} (hp : Prepared store vm staging w w₂)
    (hrec : PlaceableRecords manifest) (hdir : wb.fs.node staging = some .dir)
    (hclear : ∀ q, wc.fs.node q = if store.vmRoot vm <+: q then none else wb.fs.node q)
    (hasm : assembleVm host store vm manifest staging wc = (x, w₃)) {q : Path}
    (hstaging : ¬staging <+: q) (hroot : ¬store.vmRoot vm <+: q)
    (hvms : q <+: store.vmsDir → wb.fs.node q ≠ none) : w₃.fs.node q = wb.fs.node q := by
  have hdir' : wc.fs.node staging = some .dir := by
    rw [hclear, if_neg hp.not_above_root, hdir]
  have hc := (assembleVm_touches (stages_vmRoom hdir' hp.not_above_root) hrec).confined hasm
  have hq : wc.fs.node q = wb.fs.node q := by rw [hclear, if_neg hroot]
  rw [← hq]
  by_cases hv : q <+: store.vmsDir
  · exact hc.keep (fun hb => hroot hb.1) (fun hb => hstaging hb.1) (hq ▸ hvms hv)
  · refine hc.same (fun hb => hroot hb.1) (fun hb => hstaging hb.1) fun x hx => ?_
    rcases List.prefix_concat_iff.mp hx.1 with he | hb
    · exact hroot (he ▸ List.prefix_rfl)
    · exact hv hb

theorem first_failure {γ : Type} (P : γ → Prop) (l : List γ) :
    (∀ a ∈ l, P a) ∨ ∃ done a rest, l = done ++ a :: rest ∧ (∀ d ∈ done, P d) ∧ ¬P a := by
  induction l with
  | nil => simp
  | cons a l ih =>
      by_cases ha : P a
      · rcases ih with hall | ⟨done, b, rest, rfl, hdone, hb⟩
        · exact Or.inl (by simpa using ⟨ha, hall⟩)
        · exact Or.inr ⟨a :: done, b, rest, rfl, by simpa using ⟨ha, hdone⟩, hb⟩
      · exact Or.inr ⟨[], a, l, rfl, by simp, ha⟩

-- What the body has done to a path outside when it raises after extraction.
theorem body_after_images {e : PyError} {x : Except PyError Unit}
    (hp : Prepared store vm staging w w₂)
    (hx : extractVerified host tar manifest staging w₂ = (.ok (), wa))
    (hi : placeImages host store manifest staging wa = (x, wb))
    (hbody : restoreBody host store tar vm manifest staging w₂ = (.error e, w₃)) {q : Path}
    (hstaging : ¬staging <+: q) (hroot : ¬store.vmRoot vm <+: q)
    (hvms : q <+: store.vmsDir → wb.fs.node q ≠ none) : w₃.fs.node q = wb.fs.node q := by
  have hrec := placeableRecords_of_extract hp.dir hx
  have hdir := extract_keeps_staging hp hx
  have hdirb : wb.fs.node staging = some .dir :=
    ((stages_imagesRoom hdir).step ((placeImages_touches hdir hrec.images).confined hi)).dir
  cases body_end hbody with
  | extracting hx' =>
      rw [hx] at hx'
      cases hx'
  | placing hx' hi' =>
      obtain rfl := (Prod.mk.inj (hx.symm.trans hx')).2
      rw [(Prod.mk.inj (hi.symm.trans hi')).2]
  | blocked hx' hi' _ =>
      obtain rfl := (Prod.mk.inj (hx.symm.trans hx')).2
      rw [(Prod.mk.inj (hi.symm.trans hi')).2]
  | assembling hx' hi' _ hclear hasm =>
      obtain rfl := (Prod.mk.inj (hx.symm.trans hx')).2
      obtain rfl := (Prod.mk.inj (hi.symm.trans hi')).2
      exact assemble_outside hp hrec hdirb hclear hasm hstaging hroot hvms

-- The images of a bundle, as the loop over them meets them after extraction.
structure ImagesMet (host : Host β) (store : DiskStore) (tar : Archive β) (staging : Path)
    (w wa : World β) (images : List Json) : Prop where
  placeable : ∀ r ∈ images, Placeable r
  staged : ∀ r ∈ images, ∃ p data f, RecordVerified host tar r p data ∧
    wa.fs.node (staging ++ p) = some (.file f)
  home : wa.fs.node store.home = some .dir
  dir : wa.fs.node staging = some .dir
  same : ∀ q, store.imagesDir <+: q → wa.fs.node q = w.fs.node q
  apart : ∀ q, store.imagesDir <+: q → ¬staging <+: q

theorem imagesMet_of_extract {images : List Json} (hp : Prepared store vm staging w w₂)
    (hx : extractVerified host tar manifest staging w₂ = (.ok (), wa))
    (himages : recordsAt manifest "images" = .ok images) :
    ImagesMet host store tar staging w wa images := by
  obtain ⟨files, hfiles, -, hext⟩ := extractVerified_ok hp.dir hp.empty hx
  obtain ⟨images', himages', hsub⟩ := (manifestFiles_spec hfiles).images
  obtain rfl := Except.ok.inj (himages.symm.trans himages')
  refine ⟨(placeableRecords_of_extract hp.dir hx).images _ himages,
    fun r hr => hext.present r (hsub hr), ?_, hext.dir,
    fun q hq => extract_outside hp hx (outside_images hp hq), fun q hq => hp.disjoint_images hq⟩
  have hnot : ¬staging <+: store.home := by
    obtain ⟨s, hs⟩ := hp.name
    exact hs ▸ not_concat_below _ _
  rw [((extractVerified_touches hp.dir tar manifest).confined hx).same (fun hc => hnot hc.1) id
    fun _ hc => hc]
  exact hp.home _ List.prefix_rfl

theorem ImagesMet.same_image {images : List Json}
    (h : ImagesMet host store tar staging w wa images) (n : String) :
    wa.fs.node (store.imagesDir ++ [n]) = w.fs.node (store.imagesDir ++ [n]) :=
  h.same _ (List.prefix_append _ _)

theorem placeImages_eq {images : List Json} (himages : recordsAt manifest "images" = .ok images) :
    placeImages host store manifest staging w =
      forEach images (placeImage host store staging) w :=
  bind_of_ok (ofExcept_eq_ok.mpr ⟨himages, rfl⟩)

theorem placeImages_settled {images : List Json}
    (h : ImagesMet host store tar staging w wa images)
    (himages : recordsAt manifest "images" = .ok images)
    (hset : ∀ r ∈ images, Settled host store w.fs r) :
    placeImages host store manifest staging wa = (.ok (), wa) := by
  rw [placeImages_eq himages]
  exact forEach_idle fun r hr =>
    placeImage_settled ((hset r hr).congr (h.placeable r hr) h.same_image)

-- Without a new image before the first conflict, the loop does nothing.
theorem placeImages_refused {images done rest : List Json} {r : Json}
    (h : ImagesMet host store tar staging w wa images)
    (himages : recordsAt manifest "images" = .ok images) (hsplit : images = done ++ r :: rest)
    (hdone : ∀ d ∈ done, Settled host store w.fs d) (hset : ¬Settled host store w.fs r)
    (hplaces : ¬PlacesImage host store w.fs images) :
    ∃ e, placeImages host store manifest staging wa = (.error e, wa) := by
  have hmem : ∀ d ∈ done, d ∈ images := fun d hd => by simp [hsplit, hd]
  have hr : Placeable r := h.placeable r (by simp [hsplit])
  have hidle : forEach done (placeImage host store staging) wa = (.ok (), wa) :=
    forEach_idle fun d hd =>
      placeImage_settled ((hdone d hd).congr (h.placeable d (hmem d hd)) h.same_image)
  have hback : ∀ n, w.fs.node (store.imagesDir ++ [n]) = wa.fs.node (store.imagesDir ++ [n]) :=
    fun n => (h.same_image n).symm
  obtain ⟨e, he⟩ : ∃ e, placeImage host store staging r wa = (.error e, wa) := by
    refine placeImage_refused (fun hc => hset (hc.congr hr hback)) fun hnew => ?_
    by_contra hc
    refine hplaces ⟨fun f hf => hc ⟨f, ?_⟩, done, r, rest, hsplit, hdone, hnew.congr hr hback⟩
    rw [h.same _ List.prefix_rfl, hf]
  refine ⟨e, ?_⟩
  rw [placeImages_eq himages, hsplit, forEach_append, bind_of_ok hidle, forEach_cons,
    bind_of_error he]

theorem placeImages_places {images : List Json}
    (h : ImagesMet host store tar staging w wa images)
    (himages : recordsAt manifest "images" = .ok images)
    (hplaces : PlacesImage host store w.fs images) :
    ∃ n, w.fs.node (store.imagesDir ++ [n]) = none ∧
      Leaves (store.imagesDir ++ [n]) (placeImages host store manifest staging) wa := by
  obtain ⟨hfree, done, r, rest, hsplit, hdone, hnew⟩ := hplaces
  have hmem : ∀ d ∈ done, d ∈ images := fun d hd => by simp [hsplit, hd]
  have hr : r ∈ images := by simp [hsplit]
  have hidle : forEach done (placeImage host store staging) wa = (.ok (), wa) :=
    forEach_idle fun d hd =>
      placeImage_settled ((hdone d hd).congr (h.placeable d (hmem d hd)) h.same_image)
  obtain ⟨p, data, f, hv, hf⟩ := h.staged r hr
  obtain ⟨t, n, hplace, hnone, hsome⟩ := placeImage_new hv hf h.home
    (fun f hf => hfree f (by rw [← h.same _ List.prefix_rfl, hf]))
    (hnew.congr (h.placeable r hr) h.same_image)
  refine ⟨n, by rw [← h.same_image, hnone], ?_⟩
  have hdirt := ((stages_imagesRoom h.dir).step
    ((placeImage_touches h.dir (h.placeable r hr)).confined hplace)).dir
  have hrest : TouchesOnly (imagesRoom β store staging)
      (forEach rest (placeImage host store staging)) t :=
    .forEach fun r' hr' _ hw => placeImage_touches ((stages_imagesRoom hdirt).step hw).dir
      (h.placeable r' (by simp [hsplit, hr']))
  rw [Leaves, placeImages_eq himages, hsplit, forEach_append, bind_of_ok hidle, forEach_cons,
    bind_of_ok hplace, Confined.keep hrest id (fun hc => ?_) hsome]
  · exact hsome
  · exact h.apart _ (List.prefix_append _ _) hc.1

-- In a home without the VM, the body goes straight to assembling it.
theorem restoreBody_eq (hx : extractVerified host tar manifest staging w₂ = (.ok (), wa))
    (hi : placeImages host store manifest staging wa = (.ok (), wb))
    (hroot : wb.fs.node (store.vmRoot vm) = none) :
    restoreBody host store tar vm manifest staging w₂ =
      assembleVm host store vm manifest staging wb := by
  have hlook : exists_ (store.vmRoot vm) wb = (.ok false, wb) := by
    simp [FileSystem.exists_, hroot]
  rw [restoreBody, bind_of_ok hx, bind_of_ok hi, bind_of_ok hlook]
  rfl

-- A home that could be made is below no file.
theorem Prepared.home_clear (hp : Prepared store vm staging w w₂) (q : Path) (f : File β)
    (hq : q <+: store.home) : w.fs.node q ≠ some (.file f) := by
  intro hf
  have hkeep := hp.confined.keep (q := q) ?_ id (by simp [hf])
  · rw [hp.home q hq, hf] at hkeep
    cases hkeep
  · rintro ⟨s, hc⟩
    exact not_concat_below _ _ (hc.trans hq)

-- A failed call leaves nothing behind outside its VM exactly when it did not get as far as
-- placing a new image or making the first VM directory of the home.
theorem restore_failure_leaves_nothing_iff {e : PyError}
    (h : restore host store bundlePath asVm force w = (.error e, w')) :
    LeavesNothing store (fun vm => ∃ tar manifest, Opens host bundlePath asVm w.fs tar manifest vm)
        w w' ↔
      ¬Litters host store bundlePath asVm force w.fs := by
  rcases openBundle_error_or_opens host bundlePath asVm w with
    ⟨e, hclosed⟩ | ⟨tar, manifest, vm, hopen⟩
  · rw [restore_of_closed hclosed] at h
    obtain ⟨-, rfl⟩ := Prod.mk.inj h
    refine iff_of_true (leavesNothing_refl _ _) ?_
    rintro ⟨tar, manifest, vm, files, images, hacc, -⟩
    rw [openBundle_eq_ok.mpr ⟨hacc.opens, rfl⟩] at hclosed
    cases hclosed
  have htarget : ∃ tar manifest, Opens host bundlePath asVm w.fs tar manifest vm :=
    ⟨tar, manifest, hopen⟩
  cases restore_end hopen h with
  | refused hvm hforce =>
      refine iff_of_true (leavesNothing_refl _ _) ?_
      rintro ⟨tar', manifest', vm', files, images, hacc, -⟩
      obtain ⟨-, -, rfl⟩ := hopen.unique hacc.opens
      rw [hacc.allowed hvm] at hforce
      cases hforce
  | homeless hfree hq hf =>
      refine iff_of_true (leavesNothing_refl _ _) ?_
      rintro ⟨tar', manifest', vm', files, images, hacc, -⟩
      exact hacc.home _ _ hq hf
  | @raised staging w₂ w₃ w' e hforce hp hbody hend =>
      rcases hx : extractVerified host tar manifest staging w₂ with ⟨e' | _, wa⟩
      · -- the bundle is not verified
        have hw₃ : w₃ = wa := by
          rw [restoreBody, bind_of_error hx] at hbody
          exact (Prod.mk.inj hbody).2.symm
        subst hw₃
        refine iff_of_true
          (leavesNothing_of_outside htarget hp hend fun q hq => extract_outside hp hx hq) ?_
        rintro ⟨tar', manifest', vm', files, images, hacc, -⟩
        obtain ⟨rfl, rfl, rfl⟩ := hopen.unique hacc.opens
        obtain ⟨t, ht⟩ := extractVerified_returns hp.dir hp.empty hacc.listed hacc.verified
        rw [hx] at ht
        cases ht
      obtain ⟨files, hfiles, hver, -⟩ := extractVerified_ok hp.dir hp.empty hx
      obtain ⟨images, himages, -⟩ := (manifestFiles_spec hfiles).images
      have hacc : Accepted host store bundlePath asVm force w.fs tar manifest vm files :=
        ⟨hopen, hforce, hp.home_clear, hfiles, hver⟩
      have hmet := imagesMet_of_extract hp hx himages
      have hwa : ∀ q, Outside store vm staging q → wa.fs.node q = w.fs.node q := fun q hq =>
        extract_outside hp hx hq
      by_cases hplaces : PlacesImage host store w.fs images
      · refine iff_of_false (fun hleft => ?_) fun hc =>
          hc ⟨tar, manifest, vm, files, images, hacc, himages, Or.inl hplaces⟩
        obtain ⟨n, hnone, hleaves⟩ := placeImages_places hmet himages hplaces
        rcases hi : placeImages host store manifest staging wa with ⟨x, wb⟩
        have hsome : wb.fs.node (store.imagesDir ++ [n]) ≠ none := by
          simpa only [Leaves, hi] using hleaves
        have hout := outside_images hp (List.prefix_append store.imagesDir [n])
        have hw₃ := body_after_images hp hx hi hbody hout.staging hout.root fun _ => hsome
        have hsame := hleft.images _ (below_append store.imagesDir n [])
        rw [node_after_failure hend hout, hw₃, hnone] at hsame
        exact hsome hsame
      rcases first_failure (Settled host store w.fs) images with
        hset | ⟨done, r, rest, hsplit, hdone, hr⟩
      · have hi := placeImages_settled hmet himages hset
        by_cases hvms : w.fs.node store.vmsDir = none
        · have hnone := (hwa _ (outside_vmsDir hp)).trans hvms
          have hroot := wa.fs.none_of_below (List.prefix_append store.vmsDir [vm]) hnone
          rw [restoreBody_eq hx hi hroot] at hbody
          have hrec := placeableRecords_of_extract hp.dir hx
          by_cases hfirst : FirstDiskNamed manifest
          · refine iff_of_false (fun hleft => ?_) fun hc =>
              hc ⟨tar, manifest, vm, files, images, hacc, himages, Or.inr ⟨hset, hvms, hfirst⟩⟩
            have hleaves := assembleVm_makes_vms host hopen.valid hrec hmet.dir
              hp.not_above_root (hp.disjoint_vms List.prefix_rfl) hmet.home hnone hfirst
            have hsome : w₃.fs.node store.vmsDir ≠ none := by
              simpa only [Leaves, hbody] using hleaves
            have hentry := hleft.entries "vms"
            rw [FileSystem.exists_, FileSystem.exists_, show store.home ++ ["vms"] = store.vmsDir
              from rfl, node_after_failure hend (outside_vmsDir hp), hvms] at hentry
            exact hsome (by simpa using hentry)
          · obtain rfl := assembleVm_refused hrec hroot hfirst hbody
            refine iff_of_true (leavesNothing_of_outside htarget hp hend hwa) ?_
            rintro ⟨tar', manifest', vm', files', images', hacc', himages', hcase⟩
            obtain ⟨rfl, rfl, rfl⟩ := hopen.unique hacc'.opens
            obtain rfl := Except.ok.inj (himages.symm.trans himages')
            exact hcase.elim hplaces fun hc => hfirst hc.2.2
        · refine iff_of_true (leavesNothing_of_outside htarget hp hend fun q hq => ?_) ?_
          · rw [body_after_images hp hx hi hbody hq.staging hq.root fun hv => ?_, hwa q hq]
            rw [hwa q hq]
            rcases List.prefix_concat_iff.mp hv with he | hb
            · exact he ▸ hvms
            · exact absurd hb hq.home
          · rintro ⟨tar', manifest', vm', files', images', hacc', himages', hcase⟩
            obtain ⟨rfl, rfl, rfl⟩ := hopen.unique hacc'.opens
            obtain rfl := Except.ok.inj (himages.symm.trans himages')
            exact hcase.elim hplaces fun hc => hvms hc.2.1
      · obtain ⟨e', hi⟩ := placeImages_refused hmet himages hsplit hdone hr hplaces
        have hw₃ : w₃ = wa := by
          rw [restoreBody, bind_of_ok hx, bind_of_error hi] at hbody
          exact (Prod.mk.inj hbody).2.symm
        subst hw₃
        refine iff_of_true (leavesNothing_of_outside htarget hp hend hwa) ?_
        rintro ⟨tar', manifest', vm', files', images', hacc', himages', hcase⟩
        obtain ⟨rfl, rfl, rfl⟩ := hopen.unique hacc'.opens
        obtain rfl := Except.ok.inj (himages.symm.trans himages')
        rcases hcase with hc | ⟨hc, -⟩
        · exact hplaces hc
        · exact hr (hc r (by simp [hsplit]))

end

-- A bundle with a base image, and with a disk that has neither an overlay nor a snapshot.
def baselessManifest : Json :=
  .obj [("schema_version", .int 1), ("vm", .str "web"),
    ("disks", .obj [("root", .obj [("active", .null), ("current", .null), ("snapshots", .arr [])])]),
    ("images", .arr [.obj [("path", .str "images/base.qcow2"), ("size", .int 4),
      ("sha256", .str "text base")]])]

def baselessWorld : World Blob :=
  Memory.world [(["b.tar"], Memory.plain (.archive [⟨"manifest.json", .file (.json baselessManifest)⟩,
    ⟨"images/base.qcow2", .file (.text "base")⟩])), (["srv"], .dir)]

-- The disk is refused when its image is already in place, and the image stays there.
theorem restore_baseless_leaves_image :
    let run := restore (memoryHost []) demoStore ["b.tar"] none false baselessWorld
    run.1.isOk = false ∧ baselessWorld.fs.exists_ (demoStore.imageFile "base") = false ∧
      run.2.fs.exists_ (demoStore.imageFile "base") = true := by
  decide +kernel

theorem restore_failure_leaves_nothing_baseless :
    LeavesNothing demoStore
        (fun vm => ∃ tar manifest,
          Opens (memoryHost []) ["b.tar"] none baselessWorld.fs tar manifest vm)
        baselessWorld (restore (memoryHost []) demoStore ["b.tar"] none false baselessWorld).2 ↔
      ¬Litters (memoryHost []) demoStore ["b.tar"] none false baselessWorld.fs := by
  obtain ⟨e, he⟩ := eq_error_of_isOk
    (x := restore (memoryHost []) demoStore ["b.tar"] none false baselessWorld) (by decide +kernel)
  exact restore_failure_leaves_nothing_iff he

end VMForge.Storage
