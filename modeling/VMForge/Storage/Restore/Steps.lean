import VMForge.Storage.Restore.Phases

namespace VMForge.Storage

open Exec

-- What the steps of `restore` did when they returned normally.
section

variable {β : Type} {host : Host β} {store : DiskStore} {vm disk : String} {staging : Path}
  {tar : Archive β} {manifest : Json} {w w' : World β}

theorem body_ok {result : RestoreResult}
    (h : restoreBody host store tar vm manifest staging w = (.ok result, w')) :
    ∃ wa wb wc, extractVerified host tar manifest staging w = (.ok (), wa) ∧
      placeImages host store manifest staging wa = (.ok (), wb) ∧
      runIf (wb.fs.exists_ (store.vmRoot vm)) (rmtree (store.vmRoot vm)) wb = (.ok (), wc) ∧
      assembleVm host store vm manifest staging wc = (.ok result, w') := by
  simp only [restoreBody, bind_eq_ok, exists_eq_ok] at h
  obtain ⟨_, wa, hx, _, wb, hi, _, _, ⟨rfl, rfl⟩, _, wc, hrm, hasm⟩ := h
  exact ⟨wa, wb, wc, hx, hi, hrm, hasm⟩

-- What may happen once the archive is extracted.
def placingRoom (β : Type) (store : DiskStore) (vm : String) (staging : Path) : Room β where
  free q := store.vmRoot vm <+: q
  gone q := Below staging q
  fresh q x := ((q <+: store.imagesDir ∨ q <+: store.vmsDir) ∧ x = .dir) ∨
    ∃ n f, q = store.imagesDir ++ [n] ∧ x = .file f

theorem imagesRoom_le (h : Confined (imagesRoom β store staging) w w') :
    Confined (placingRoom β store vm staging) w w' :=
  h.mono (fun _ hc => hc.elim) (fun _ hc => Or.inr hc) fun _ _ hc =>
    Or.inr (hc.imp (fun hc => ⟨Or.inl hc.1, hc.2⟩) id)

theorem vmRoom_le (h : Confined (vmRoom β store vm staging) w w') :
    Confined (placingRoom β store vm staging) w w' := by
  refine h.mono (fun _ hc => hc.1) (fun _ hc => Or.inr hc) fun q x hc => ?_
  rcases List.prefix_concat_iff.mp hc.1 with rfl | hq
  · exact Or.inl List.prefix_rfl
  · exact Or.inr (Or.inl ⟨Or.inr hq, hc.2⟩)

-- The old VM is gone then.
theorem runIf_rmtree_ok
    (h : runIf (w.fs.exists_ (store.vmRoot vm)) (rmtree (store.vmRoot vm)) w = (.ok (), w')) :
    ∀ q, w'.fs.node q = if store.vmRoot vm <+: q then none else w.fs.node q := by
  have hr : store.vmRoot vm ≠ [] := by simp [DiskStore.vmRoot]
  intro q
  cases hpresent : w.fs.exists_ (store.vmRoot vm) with
  | false =>
      rw [hpresent] at h
      obtain ⟨-, rfl⟩ := pure_eq_ok.mp h
      have hnone : w.fs.node (store.vmRoot vm) = none := by
        simpa [FileSystem.exists_] using hpresent
      split
      · rename_i hq
        exact w.fs.none_of_below hq hnone
      · rfl
  | true =>
      rw [hpresent, runIf, if_pos rfl] at h
      rw [(rmtree_ok h).2, FileSystem.prune_node _ hr]

-- A call of `restore` on an opened bundle that returned, with the worlds between its phases.
structure Completed (host : Host β) (store : DiskStore) (tar : Archive β) (vm : String)
    (manifest : Json) (staging : Path) (result : RestoreResult) (w w₂ wa wb wc w₃ w' : World β) :
    Prop where
  prepared : Prepared store vm staging w w₂
  extracted : extractVerified host tar manifest staging w₂ = (.ok (), wa)
  placed : placeImages host store manifest staging wa = (.ok (), wb)
  cleared : ∀ q, wc.fs.node q = if store.vmRoot vm <+: q then none else wb.fs.node q
  clearing : Confined (placingRoom β store vm staging) wb wc
  assembled : assembleVm host store vm manifest staging wc = (.ok result, w₃)
  pruned : w'.fs = w₃.fs.prune staging
  logged : w'.log = w₃.log ++ [.removed staging]

theorem restore_completed {bundlePath : Path} {asVm : Option String} {force : Bool}
    {result : RestoreResult} (hopen : Opens host bundlePath asVm w.fs tar manifest vm)
    (h : restore host store bundlePath asVm force w = (.ok result, w')) :
    ∃ staging w₂ wa wb wc w₃,
      Completed host store tar vm manifest staging result w w₂ wa wb wc w₃ w' := by
  cases restore_end hopen h with
  | @returned staging w₂ w₃ w' result hforce hp hbody hend hlog =>
      obtain ⟨wa, wb, wc, hx, hi, hrm, hasm⟩ := body_ok hbody
      have hclear : TouchesOnly (placingRoom β store vm staging)
          (runIf (wb.fs.exists_ (store.vmRoot vm)) (rmtree (store.vmRoot vm))) wb :=
        .runIf fun _ => .rmtree fun _ hq => Or.inl hq
      exact ⟨staging, w₂, wa, wb, wc, w₃, hp, hx, hi, runIf_rmtree_ok hrm, hclear.confined hrm, hasm,
        hend, hlog⟩

namespace Completed

variable {result : RestoreResult} {w₂ wa wb wc w₃ : World β}
  (h : Completed host store tar vm manifest staging result w w₂ wa wb wc w₃ w')

include h

theorem records : PlaceableRecords manifest :=
  placeableRecords_of_extract h.prepared.dir h.extracted

theorem extracting : Confined (stagingRoom β staging) w₂ wa :=
  (extractVerified_touches h.prepared.dir tar manifest).confined h.extracted

theorem dir_extracted : wa.fs.node staging = some .dir :=
  ((stages_stagingRoom h.prepared.dir).step h.extracting).dir

theorem placing : Confined (imagesRoom β store staging) wa wb :=
  (placeImages_touches h.dir_extracted h.records.images).confined h.placed

theorem dir_placed : wb.fs.node staging = some .dir :=
  ((stages_imagesRoom h.dir_extracted).step h.placing).dir

theorem dir_cleared : wc.fs.node staging = some .dir := by
  rw [h.cleared, if_neg h.prepared.not_above_root, h.dir_placed]

theorem stages : Stages (vmRoom β store vm staging) staging wc :=
  stages_vmRoom h.dir_cleared h.prepared.not_above_root

theorem assembling : Confined (vmRoom β store vm staging) wc w₃ :=
  (assembleVm_touches h.stages h.records).confined h.assembled

theorem cleaning : Confined (⟨fun q => staging <+: q, fun _ => False, fun _ _ => False⟩ : Room β) w₃ w' := by
  refine ⟨⟨[.removed staging], h.logged, ?_, by simp⟩, fun q hq => Or.inl ?_⟩
  · intro e he q hq
    rw [List.mem_singleton] at he
    subst he
    exact Or.inl hq
  · rw [h.pruned, FileSystem.prune_node_of_not_below _ hq]

end Completed

theorem assembleVm_ok {result : RestoreResult}
    (h : assembleVm host store vm manifest staging w = (.ok result, w')) :
    ∃ items counts config checks t,
      (pyIndex manifest "disks" >>= pySortedItems) = .ok items ∧
      mapEach items (assembleDisk host store vm staging) w = (.ok counts, t) ∧
      recordsAt manifest "config" = .ok config ∧
      forEach config (moveConfig store vm staging) t = (.ok (), w') ∧
      mapEach (items.map Prod.fst) (checkRestored host store vm) w' = (.ok checks, w') ∧
      result = ⟨vm, store.home, items.map Prod.fst, counts.sum, checks⟩ := by
  simp only [assembleVm, finishVm, bind_eq_ok, ofExcept_eq_ok, store.vmDir_eq_ok, pure_eq_ok] at h
  obtain ⟨_, _, ⟨-, -, rfl⟩, items, _, ⟨hitems, rfl⟩, counts, t, hdisks, config, _, ⟨hconfig, rfl⟩,
    _, t', hmove, checks, _, hchecks, hresult, rfl⟩ := h
  obtain rfl := (Quiet.mapEach fun disk => checkRestored_quiet vm disk).eq_of_run hchecks
  exact ⟨items, counts, config, checks, t, hitems, hdisks, hconfig, hmove, hchecks, hresult.symm⟩

theorem assembleDisk_ok {item : String × Json} {n : Nat}
    (h : assembleDisk host store vm staging item w = (.ok n, w')) :
    nameMatches item.1 = true ∧ ∃ snaps t₁ t₂, recordsAt item.2 "snapshots" = .ok snaps ∧
      forEach snaps (moveSnapshot store vm item.1 staging) w = (.ok (), t₁) ∧
      forEach snaps (rebaseSnapshot host store vm item.1) t₁ = (.ok (), t₂) ∧
      placeActive host store vm item.1 staging item.2 t₂ = (.ok (), w') ∧ n = snaps.length := by
  simp only [assembleDisk, bind_eq_ok, ofExcept_eq_ok, validateName_eq_ok, pure_eq_ok] at h
  obtain ⟨_, _, ⟨hdisk, rfl, rfl⟩, snaps, _, ⟨hsnaps, rfl⟩, _, t₁, hmoves, _, t₂, hrebases, _, _,
    hactive, rfl, rfl⟩ := h
  exact ⟨hdisk, snaps, t₁, t₂, hsnaps, hmoves, hrebases, hactive, rfl⟩

theorem moveSnapshot_ok {snap : Json} {u : Unit}
    (h : moveSnapshot store vm disk staging snap w = (.ok u, w')) :
    ∃ name arc t, pyIndex snap "name" = .ok (.str name) ∧ nameMatches name = true ∧
      pyIndex snap "path" = .ok (.str arc) ∧
      mkdirs (store.snapshotFile vm disk name).dropLast w = (.ok (), t) ∧
      move (joinStr staging arc) (store.snapshotFile vm disk name) t = (.ok (), w') := by
  simp only [moveSnapshot, bind_eq_ok, ofExcept_eq_ok, except_bind_eq_ok, validateName_eq_ok,
    store.snapshotPath_eq_ok, pyStr_eq_ok] at h
  obtain ⟨name, _, ⟨⟨_, hname, rfl⟩, rfl⟩, _, _, ⟨hvalid, -, rfl⟩, _, _, ⟨-, -, -, rfl, rfl⟩, _, t,
    hmk, arc, _, ⟨⟨_, harc, rfl⟩, rfl⟩, hmove⟩ := h
  exact ⟨name, arc, t, hname, hvalid, harc, hmk, hmove⟩

theorem rebaseSnapshot_ok {snap : Json} {u : Unit}
    (h : rebaseSnapshot host store vm disk snap w = (.ok u, w')) :
    ∃ name parent parentPath t, pyIndex snap "name" = .ok (.str name) ∧
      nameMatches name = true ∧ pyGet snap "parent" = .ok parent ∧
      resolveParent store vm disk parent w = (.ok parentPath, w) ∧
      rebase host (store.snapshotFile vm disk name) parentPath true w = (.ok (), t) ∧
      chmod (store.snapshotFile vm disk name) 0o444 t = (.ok (), w') := by
  simp only [rebaseSnapshot, bind_eq_ok, ofExcept_eq_ok, snapshotPathOf_eq_ok] at h
  obtain ⟨_, _, ⟨hname, rfl⟩, _, _, ⟨name, rfl, -, -, hvalid, rfl, rfl⟩, parent, _, ⟨hparent, rfl⟩,
    parentPath, _, hresolve, _, t, hrebase, hchmod⟩ := h
  obtain rfl := (resolveParent_quiet _ _ _).eq_of_run hresolve
  exact ⟨name, parent, parentPath, t, hname, hvalid, hparent, hresolve, hrebase, hchmod⟩

-- The active overlay is the bundled one, or a fresh one on the current snapshot.
inductive Filled (host : Host β) (store : DiskStore) (vm disk : String) (staging : Path)
    (diskSection : Json) (w w' : World β) : Prop where
  | bundled {active parent arc parentPath t} (hactive : pyGet diskSection "active" = .ok active)
      (hsome : Json.isNone active = false) (harc : pyIndex active "path" = .ok (.str arc))
      (hmove : move (joinStr staging arc) (store.diskFile vm disk) w = (.ok (), t))
      (hparent : pyGet active "parent" = .ok parent)
      (hresolve : resolveParent store vm disk parent t = (.ok parentPath, t))
      (hrebase : rebase host (store.diskFile vm disk) parentPath true t = (.ok (), w'))
  | fresh {current} (hactive : pyGet diskSection "active" = .ok .null)
      (hcurrent : pyGet diskSection "current" = .ok (.str current))
      (hvalid : nameMatches current = true)
      (hcreate : createQcow2 host (store.diskFile vm disk) none
        (some (store.snapshotFile vm disk current, "qcow2")) "off" none w = (.ok (), w'))

theorem fillActive_ok {diskSection : Json} {u : Unit}
    (h : fillActive host store vm disk staging (store.diskFile vm disk) diskSection w =
      (.ok u, w')) : Filled host store vm disk staging diskSection w w' := by
  simp only [fillActive, bind_eq_ok, ofExcept_eq_ok] at h
  obtain ⟨active, _, ⟨hactive, rfl⟩, h⟩ := h
  by_cases hnone : Json.isNone active = true
  · rw [hnone] at h
    simp only [Bool.not_true, Bool.false_eq_true, ite_false, bind_eq_ok, ofExcept_eq_ok,
      raiseIf_eq_ok, snapshotPathOf_eq_ok] at h
    obtain ⟨_, _, ⟨hcurrent, rfl⟩, _, _, ⟨-, rfl⟩, _, _, ⟨current, rfl, -, -, hvalid, rfl, rfl⟩,
      hcreate⟩ := h
    obtain rfl : active = .null := by
      cases active <;> simp_all [Json.isNone]
    exact .fresh hactive hcurrent hvalid hcreate
  · simp only [Bool.not_eq_true] at hnone
    simp only [hnone, Bool.not_false, ite_true, bind_eq_ok, ofExcept_eq_ok, except_bind_eq_ok,
      pyStr_eq_ok] at h
    obtain ⟨arc, _, ⟨⟨_, harc, rfl⟩, rfl⟩, _, t, hmove, parent, _, ⟨hparent, rfl⟩, parentPath, _,
      hresolve, hrebase⟩ := h
    obtain rfl := (resolveParent_quiet _ _ _).eq_of_run hresolve
    exact .bundled hactive hnone harc hmove hparent hresolve hrebase

theorem placeActive_ok {diskSection : Json} {u : Unit}
    (h : placeActive host store vm disk staging diskSection w = (.ok u, w')) :
    ∃ t, mkdirs (store.diskFile vm disk).dropLast w = (.ok (), t) ∧
      Filled host store vm disk staging diskSection t w' := by
  simp only [placeActive, bind_eq_ok, store.diskPath_eq_ok] at h
  obtain ⟨_, _, ⟨-, -, rfl, rfl⟩, _, t, hmk, hfill⟩ := h
  exact ⟨t, hmk, fillActive_ok hfill⟩

theorem moveConfig_ok {r : Json} {u : Unit}
    (h : moveConfig store vm staging r w = (.ok u, w')) :
    ∃ arc, pyIndex r "path" = .ok (.str arc) ∧
      move (joinStr staging arc) (joinName (store.vmRoot vm) arc) w = (.ok (), w') := by
  simp only [moveConfig, bind_eq_ok, ofExcept_eq_ok, except_bind_eq_ok, pyStr_eq_ok] at h
  obtain ⟨arc, _, ⟨⟨_, harc, rfl⟩, rfl⟩, hmove⟩ := h
  exact ⟨arc, harc, hmove⟩

-- An image record whose file is already there, and whose file is missing.
def Settled (host : Host β) (store : DiskStore) (fs : FileSystem β) (r : Json) : Prop :=
  ∃ arc f digest, (pyIndex r "path" >>= pyStr) = .ok arc ∧
    fs.node (joinName store.imagesDir arc) = some (.file f) ∧
    pyIndex r "sha256" = .ok digest ∧ Json.eqStr (host.sha256 f.blob) digest = true

def NewImage (store : DiskStore) (fs : FileSystem β) (r : Json) : Prop :=
  ∃ arc, (pyIndex r "path" >>= pyStr) = .ok arc ∧ fs.node (joinName store.imagesDir arc) = none

theorem Settled.mono {r : Json} {fs fs' : FileSystem β} (hr : Placeable r)
    (hkeep : ∀ n, fs.node (store.imagesDir ++ [n]) ≠ none →
      fs'.node (store.imagesDir ++ [n]) = fs.node (store.imagesDir ++ [n]))
    (h : Settled host store fs r) : Settled host store fs' r := by
  obtain ⟨arc, f, digest, harc, hf, hd, heq⟩ := h
  obtain ⟨n, hname⟩ := hr.joinName harc store.imagesDir
  have hex : fs.node (store.imagesDir ++ [n]) ≠ none := by simp [← hname, hf]
  exact ⟨arc, f, digest, harc, by rw [hname, hkeep n hex, ← hname, hf], hd, heq⟩

theorem Settled.congr {r : Json} {fs fs' : FileSystem β} (hr : Placeable r)
    (hsame : ∀ n, fs'.node (store.imagesDir ++ [n]) = fs.node (store.imagesDir ++ [n]))
    (h : Settled host store fs r) : Settled host store fs' r :=
  h.mono hr fun n _ => hsame n

theorem NewImage.congr {r : Json} {fs fs' : FileSystem β} (hr : Placeable r)
    (hsame : ∀ n, fs'.node (store.imagesDir ++ [n]) = fs.node (store.imagesDir ++ [n]))
    (h : NewImage store fs r) : NewImage store fs' r := by
  obtain ⟨arc, harc, hn⟩ := h
  obtain ⟨n, hname⟩ := hr.joinName harc store.imagesDir
  exact ⟨arc, harc, by rw [hname, hsame, ← hname, hn]⟩

-- An image is in place already, or it is moved there.
theorem placeImage_ok {r : Json} (hr : Placeable r) {u : Unit}
    (h : placeImage host store staging r w = (.ok u, w')) :
    (Settled host store w.fs r ∧ w' = w) ∨
      (NewImage store w.fs r ∧ ∃ arc t, pyIndex r "path" = .ok (.str arc) ∧
        mkdirs store.imagesDir w = (.ok (), t) ∧
        move (joinStr staging arc) (joinName store.imagesDir arc) t = (.ok (), w')) := by
  simp only [placeImage, bind_eq_ok, ofExcept_eq_ok, exists_eq_ok] at h
  obtain ⟨arc, _, ⟨harc, rfl⟩, present, _, ⟨hpresent, rfl⟩, h⟩ := h
  obtain ⟨n, hname⟩ := hr.joinName harc store.imagesDir
  cases present with
  | false =>
      simp only [Bool.false_eq_true, ite_false, bind_eq_ok] at h
      obtain ⟨_, t, hmk, hmove⟩ := h
      simp only [except_bind_eq_ok, pyStr_eq_ok] at harc
      obtain ⟨_, harc, rfl⟩ := harc
      refine Or.inr ⟨⟨arc, by simp [harc, pyStr], ?_⟩, arc, t, harc, hmk, hmove⟩
      simpa [FileSystem.exists_] using hpresent
  | true =>
      simp only [ite_true, bind_eq_ok, sha256File, ofExcept_eq_ok, readBytes_ok, pure_eq_ok,
        raiseIf_eq_ok, Bool.not_eq_false'] at h
      obtain ⟨digest, _, ⟨b, _, ⟨hb, rfl⟩, rfl, rfl⟩, expected, _, ⟨hexpected, rfl⟩, heq, rfl⟩ := h
      obtain ⟨m, hf⟩ := (FileSystem.blob_eq_some _).mp hb
      exact Or.inl ⟨⟨arc, _, expected, harc, hf, hexpected, heq⟩, rfl⟩

end

end VMForge.Storage
