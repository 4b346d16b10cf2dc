import VMForge.Storage.Restore.Lemmas

namespace VMForge.Storage

open Exec

section Rooms

variable (β : Type) (store : DiskStore) (vm : String) (staging : Path)

-- What extraction may do.
def stagingRoom : Room β where
  free q := Below staging q
  gone _ := False
  fresh _ _ := False

-- What placing the images may do: take staged files, make the directory, and put new files
-- into it.
def imagesRoom : Room β where
  free _ := False
  gone q := Below staging q
  fresh q x := (q <+: store.imagesDir ∧ x = .dir) ∨ ∃ n f, q = store.imagesDir ++ [n] ∧ x = .file f

-- What assembling the VM may do. The directory of the VM is only ever made.
def vmRoom : Room β where
  free q := Below (store.vmRoot vm) q
  gone q := Below staging q
  fresh q x := q <+: store.vmRoot vm ∧ x = .dir

end Rooms

section

variable {β : Type} {host : Host β} {store : DiskStore} {vm : String} {staging : Path}
  {manifest : Json} {R : Room β} {w w' : World β}

-- A room in which the staging directory itself stays, and what it holds may go.
structure Stages (R : Room β) (staging : Path) (w : World β) : Prop where
  dir : w.fs.node staging = some .dir
  keeps : ¬R.free staging ∧ ¬R.gone staging
  staged : ∀ q, Below staging q → R.free q ∨ R.gone q

namespace Stages

theorem step (h : Stages R staging w) (hw : Confined R w w') : Stages R staging w' where
  dir := (hw.keep h.keeps.1 h.keeps.2 (by simp [h.dir])).trans h.dir
  keeps := h.keeps
  staged := h.staged

theorem of_not_dir (h : Stages R staging w) {q : Path} (hq : staging <+: q)
    (hn : w.fs.node q ≠ some .dir) : R.free q ∨ R.gone q :=
  h.staged q ⟨hq, fun he => hn (he ▸ h.dir)⟩

-- The source of every move is staged.
theorem move (h : Stages R staging w) {arc : String} {dst : Path}
    (habs : Path.isAbsolute arc = false)
    (hdst : w.fs.node dst ≠ some .dir →
      R.free dst ∨ (w.fs.node dst = none ∧ ∀ f, R.fresh dst (.file f)))
    (hin : w.fs.node dst = some .dir → ∀ n, R.free (dst ++ [n])) :
    TouchesOnly R (move (joinStr staging arc) dst) w := by
  rw [joinStr_of_not_absolute staging habs]
  exact .move (h.of_not_dir (List.prefix_append _ _)) hdst fun hd => hin hd _

end Stages

theorem stages_stagingRoom (hdir : w.fs.node staging = some .dir) :
    Stages (stagingRoom β staging) staging w :=
  ⟨hdir, ⟨fun hc => hc.2 rfl, id⟩, fun _ hq => Or.inl hq⟩

theorem stages_imagesRoom (hdir : w.fs.node staging = some .dir) :
    Stages (imagesRoom β store staging) staging w :=
  ⟨hdir, ⟨id, fun hc => hc.2 rfl⟩, fun _ hq => Or.inr hq⟩

theorem stages_vmRoom (hdir : w.fs.node staging = some .dir)
    (hroot : ¬store.vmRoot vm <+: staging) : Stages (vmRoom β store vm staging) staging w :=
  ⟨hdir, ⟨fun hc => hroot hc.1, fun hc => hc.2 rfl⟩, fun _ hq => Or.inr hq⟩

theorem stagingRoom_mkdirs (hdir : w.fs.node staging = some .dir) {p : Path}
    (hp : p <+: staging ∨ staging <+: p) :
    TouchesOnly (stagingRoom β staging) (mkdirs p) w := by
  refine .mkdirs fun q hq hnone => Or.inl ⟨?_, fun he => by simp [he, hdir] at hnone⟩
  by_contra hc
  have hqs : q <+: staging := by
    rcases hp with hp | hp
    · exact hq.trans hp
    · exact (List.prefix_or_prefix_of_prefix hq hp).resolve_right hc
  simp [w.fs.none_of_below hqs hnone] at hdir

theorem extractRecord_touches (hdir : w.fs.node staging = some .dir) (tar : Archive β)
    (r : Json) : TouchesOnly (stagingRoom β staging) (extractRecord host tar staging r) w := by
  have h := stages_stagingRoom hdir
  refine .look (.ofExcept _) fun arc hrun => ?_
  obtain ⟨-, habs, -⟩ := safeArc_eq_ok.mp (ofExcept_eq_ok.mp hrun).1
  refine .look (.ofExcept _) fun opened _ => ?_
  rw [joinStr_of_not_absolute staging habs]
  refine .bind (stagingRoom_mkdirs hdir ?_) fun _ w₁ _ hw₁ => .bind (.writeBytes ?_) fun _ _ _ _ => ?_
  · -- the directory above the member is above the staging directory for an empty path
    cases hp : Path.parts arc using List.reverseRecOn with
    | nil => exact Or.inl (by simpa using List.dropLast_prefix staging)
    | append_singleton p n =>
        rw [← List.append_assoc, List.dropLast_concat]
        exact Or.inr (List.prefix_append _ _)
  · exact fun hn => ((h.step hw₁).of_not_dir (List.prefix_append _ _) hn).resolve_right id
  · cases opened.2 with
    | some e => exact .raise _
    | none => exact .look (.ofExcept _) fun _ _ => .raiseIf _ _

theorem extractVerified_touches (hdir : w.fs.node staging = some .dir) (tar : Archive β)
    (manifest : Json) :
    TouchesOnly (stagingRoom β staging) (extractVerified host tar manifest staging) w :=
  .look (.ofExcept _) fun _ _ =>
    .forEach fun r _ _ hw => extractRecord_touches ((stages_stagingRoom hdir).step hw).dir tar r

-- What verification settles about the path of a record: it is relative and names a file.
def Placeable (r : Json) : Prop :=
  ∀ arc, (pyIndex r "path" >>= pyStr) = .ok arc → Path.isAbsolute arc = false ∧
    ∃ p n, Path.parts arc = p ++ [n] ∧ n ≠ ""

theorem Placeable.joinName {r : Json} (h : Placeable r) {arc : String}
    (harc : (pyIndex r "path" >>= pyStr) = .ok arc) (dir : Path) :
    ∃ n, joinName dir arc = dir ++ [n] := by
  obtain ⟨-, p, n, hp, hn⟩ := h arc harc
  exact ⟨n, joinName_of_parts hp hn⟩

theorem placeImage_touches (hdir : w.fs.node staging = some .dir) {r : Json} (hr : Placeable r) :
    TouchesOnly (imagesRoom β store staging) (placeImage host store staging r) w := by
  refine .look (.ofExcept _) fun arc hrun => ?_
  have harc := (ofExcept_eq_ok.mp hrun).1
  obtain ⟨n, hname⟩ := hr.joinName harc store.imagesDir
  rw [hname]
  refine .look (.exists_ _) fun present hrun => ?_
  have hpresent := (exists_eq_ok.mp hrun).1
  split
  · refine .look (.bind (.readBytes _) fun _ => .pure _) fun _ _ => ?_
    exact .look (.ofExcept _) fun _ _ => .raiseIf _ _
  · rename_i hfree
    have hnone : w.fs.node (store.imagesDir ++ [n]) = none := by
      simpa [← hpresent] using hfree
    refine .bind (.mkdirs fun q hq _ => Or.inr (Or.inl ⟨hq, rfl⟩)) fun _ w₁ hrun hw₁ => ?_
    have hsame := ((mkdirs_ok hrun).2 _ (not_concat_below store.imagesDir n)).trans hnone
    refine ((stages_imagesRoom hdir).step hw₁).move (hr arc harc).1 (fun _ => ?_) fun hd => ?_
    · exact Or.inr ⟨hsame, fun f => Or.inr ⟨n, f, rfl, rfl⟩⟩
    · simp [hsame] at hd

theorem placeImages_touches (hdir : w.fs.node staging = some .dir) {manifest : Json}
    (hr : ∀ images, recordsAt manifest "images" = .ok images → ∀ r ∈ images, Placeable r) :
    TouchesOnly (imagesRoom β store staging) (placeImages host store manifest staging) w := by
  refine .look (.ofExcept _) fun images hrun => ?_
  have hplace := hr images (ofExcept_eq_ok.mp hrun).1
  refine .forEach fun r hm w' hw => placeImage_touches ?_ (hplace r hm)
  exact ((stages_imagesRoom hdir).step hw).dir

theorem vmRoom_mkdirs (rest : List String) :
    TouchesOnly (vmRoom β store vm staging) (mkdirs (store.vmRoot vm ++ rest)) w := by
  refine .mkdirs fun q hq _ => ?_
  rcases List.prefix_or_prefix_of_prefix hq (List.prefix_append (store.vmRoot vm) rest)
    with hq | hq
  · exact Or.inr ⟨hq, rfl⟩
  · by_cases he : q = store.vmRoot vm
    · exact Or.inr ⟨he ▸ List.prefix_rfl, rfl⟩
    · exact Or.inl ⟨hq, he⟩

theorem vmRoom_move (h : Stages (vmRoom β store vm staging) staging w) {r : Json}
    (hr : Placeable r) {arc : String} (harc : (pyIndex r "path" >>= pyStr) = .ok arc) {dst : Path}
    (hdst : Below (store.vmRoot vm) dst) :
    TouchesOnly (vmRoom β store vm staging) (move (joinStr staging arc) dst) w := by
  refine h.move (hr arc harc).1 (fun _ => Or.inl hdst) fun _ n => ⟨?_, ?_⟩
  · exact hdst.1.trans (List.prefix_append _ _)
  · intro he
    have hlen := hdst.1.length_le
    rw [← he] at hlen
    simp at hlen

theorem moveSnapshot_touches (h : Stages (vmRoom β store vm staging) staging w) {disk : String}
    {snap : Json} (hr : Placeable snap) :
    TouchesOnly (vmRoom β store vm staging) (moveSnapshot store vm disk staging snap) w := by
  refine .look (.ofExcept _) fun name _ => .look (validateName_quiet _ _) fun _ _ => ?_
  refine .look (store.snapshotPath_quiet _ _ _) fun dst hrun => ?_
  obtain ⟨-, -, -, rfl, -⟩ := store.snapshotPath_eq_ok.mp hrun
  rw [snapshotFile_dropLast]
  refine .bind (vmRoom_mkdirs _) fun _ w₁ _ hw₁ => .look (.ofExcept _) fun arc hrun => ?_
  exact vmRoom_move (h.step hw₁) hr (ofExcept_eq_ok.mp hrun).1 (snapshotFile_below _ vm disk name)

theorem rebaseSnapshot_touches {disk : String} {snap : Json} :
    TouchesOnly (vmRoom β store vm staging) (rebaseSnapshot host store vm disk snap) w := by
  refine .look (.ofExcept _) fun name _ => .look (snapshotPathOf_quiet _ _ _) fun dst hrun => ?_
  obtain ⟨n, -, -, -, -, rfl, -⟩ := snapshotPathOf_eq_ok.mp hrun
  refine .look (.ofExcept _) fun parent _ => .look (resolveParent_quiet _ _ _) fun _ _ => ?_
  have hdst : (vmRoom β store vm staging).free (store.snapshotFile vm disk n) :=
    snapshotFile_below _ vm disk n
  exact .bind (rebase_touches hdst) fun _ _ _ _ => .chmod hdst

theorem fillActive_touches (h : Stages (vmRoom β store vm staging) staging w) {disk : String}
    {diskSection : Json} (hr : ∀ active, pyGet diskSection "active" = .ok active →
      Json.isNone active = false → Placeable active) :
    TouchesOnly (vmRoom β store vm staging)
      (fillActive host store vm disk staging (store.diskFile vm disk) diskSection) w := by
  have hdst : (vmRoom β store vm staging).free (store.diskFile vm disk) :=
    diskFile_below _ vm disk
  refine .look (.ofExcept _) fun active hrun => ?_
  have hactive := (ofExcept_eq_ok.mp hrun).1
  split
  · rename_i hsome
    refine .look (.ofExcept _) fun arc hrun => ?_
    refine .bind (vmRoom_move h (hr active hactive (by simpa using hsome))
      (ofExcept_eq_ok.mp hrun).1 (diskFile_below _ vm disk)) fun _ _ _ _ => ?_
    refine .look (.ofExcept _) fun _ _ => .look (resolveParent_quiet _ _ _) fun _ _ => ?_
    exact rebase_touches hdst
  · refine .look (.ofExcept _) fun _ _ => .look (.raiseIf _ _) fun _ _ => ?_
    exact .look (snapshotPathOf_quiet _ _ _) fun _ _ => createQcow2_touches hdst

theorem placeActive_touches (h : Stages (vmRoom β store vm staging) staging w) {disk : String}
    {diskSection : Json} (hr : ∀ active, pyGet diskSection "active" = .ok active →
      Json.isNone active = false → Placeable active) :
    TouchesOnly (vmRoom β store vm staging) (placeActive host store vm disk staging diskSection)
      w := by
  refine .look (store.diskPath_quiet _ _) fun path hrun => ?_
  obtain ⟨-, -, rfl, -⟩ := store.diskPath_eq_ok.mp hrun
  rw [diskFile_dropLast]
  exact .bind (vmRoom_mkdirs _) fun _ w₁ _ hw₁ => fillActive_touches (h.step hw₁) hr

-- Every record that `restore` moves has been verified.
structure PlaceableRecords (manifest : Json) : Prop where
  images : ∀ images, recordsAt manifest "images" = .ok images → ∀ r ∈ images, Placeable r
  config : ∀ config, recordsAt manifest "config" = .ok config → ∀ r ∈ config, Placeable r
  disks : ∀ items, (pyIndex manifest "disks" >>= pySortedItems) = .ok items → ∀ item ∈ items,
    (∀ active, pyGet item.2 "active" = .ok active → Json.isNone active = false →
      Placeable active) ∧
    ∀ snaps, recordsAt item.2 "snapshots" = .ok snaps → ∀ r ∈ snaps, Placeable r

theorem assembleDisk_touches (h : Stages (vmRoom β store vm staging) staging w)
    {item : String × Json}
    (hactive : ∀ active, pyGet item.2 "active" = .ok active → Json.isNone active = false →
      Placeable active)
    (hsnaps : ∀ snaps, recordsAt item.2 "snapshots" = .ok snaps → ∀ r ∈ snaps, Placeable r) :
    TouchesOnly (vmRoom β store vm staging) (assembleDisk host store vm staging item) w := by
  refine .look (validateName_quiet _ _) fun disk _ => .look (.ofExcept _) fun snaps hrun => ?_
  have hplace := hsnaps snaps (ofExcept_eq_ok.mp hrun).1
  refine .bind (.forEach fun r hm _ hw => moveSnapshot_touches (h.step hw) (hplace r hm))
    fun _ _ _ hw₁ => ?_
  refine .bind (.forEach fun r hm _ hw => rebaseSnapshot_touches) fun _ _ _ hw₂ => ?_
  exact .bind (placeActive_touches ((h.step hw₁).step hw₂) hactive) fun _ _ _ _ => .pure _

theorem moveConfig_touches (h : Stages (vmRoom β store vm staging) staging w) {r : Json}
    (hr : Placeable r) :
    TouchesOnly (vmRoom β store vm staging) (moveConfig store vm staging r) w := by
  refine .look (.ofExcept _) fun arc hrun => ?_
  have harc := (ofExcept_eq_ok.mp hrun).1
  obtain ⟨n, hname⟩ := hr.joinName harc (store.vmRoot vm)
  rw [hname]
  exact vmRoom_move h hr harc (below_append _ _ _)

theorem checkRestored_quiet (vm disk : String) : Quiet (checkRestored host store vm disk) :=
  .bind (store.checkDisk_quiet host _ _) fun _ => .bind (.raiseIf _ _) fun _ => .pure _

-- What is left to do when the disks are in place.
theorem finishVm_touches (h : Stages (vmRoom β store vm staging) staging w) (hr : PlaceableRecords manifest)
    {items : List (String × Json)} {counts : List Nat} :
    TouchesOnly (vmRoom β store vm staging) (finishVm host store vm manifest staging items counts)
      w := by
  refine .look (.ofExcept _) fun config hrun => ?_
  have hconfig := hr.config config (ofExcept_eq_ok.mp hrun).1
  refine .bind (.forEach fun r hm _ hw => moveConfig_touches (h.step hw) (hconfig r hm))
    fun _ _ _ _ => ?_
  exact .look (.mapEach fun disk => checkRestored_quiet vm disk) fun _ _ => .pure _

theorem assembleDisks_touches (h : Stages (vmRoom β store vm staging) staging w)
    {items : List (String × Json)}
    (hitems : ∀ item ∈ items, (∀ active, pyGet item.2 "active" = .ok active →
        Json.isNone active = false → Placeable active) ∧
      ∀ snaps, recordsAt item.2 "snapshots" = .ok snaps → ∀ r ∈ snaps, Placeable r) :
    TouchesOnly (vmRoom β store vm staging)
      (mapEach items (assembleDisk host store vm staging)) w :=
  .mapEach fun item hm _ hw =>
    assembleDisk_touches (h.step hw) (hitems item hm).1 (hitems item hm).2

theorem assembleVm_touches (h : Stages (vmRoom β store vm staging) staging w)
    (hr : PlaceableRecords manifest) :
    TouchesOnly (vmRoom β store vm staging) (assembleVm host store vm manifest staging) w := by
  refine .look (store.vmDir_quiet _) fun _ _ => .look (.ofExcept _) fun items hrun => ?_
  refine .bind (assembleDisks_touches h (hr.disks items (ofExcept_eq_ok.mp hrun).1))
    fun counts w₁ _ hw₁ => ?_
  exact finishVm_touches (h.step hw₁) hr

-- An extracted record is a file strictly below the staging directory.
theorem placeable_of_extractRecord {tar : Archive β} {r : Json} {u : Unit}
    (hdir : w.fs.node staging = some .dir)
    (h : extractRecord host tar staging r w = (.ok u, w')) : Placeable r := by
  intro arc harc
  simp only [extractRecord, bind_eq_ok, ofExcept_eq_ok] at h
  obtain ⟨arc', _, ⟨hsafe, rfl⟩, opened, _, ⟨-, rfl⟩, _, t, hmk, _, _, hwrite, -⟩ := h
  obtain ⟨hpath, habs, -⟩ := safeArc_eq_ok.mp hsafe
  simp only [except_bind_eq_ok, hpath, Except.ok.injEq, exists_eq_left', pyStr] at harc
  subst harc
  rw [joinStr_of_not_absolute staging habs] at hmk hwrite
  obtain ⟨hname, hnot, -⟩ := createFault_none_iff.mp (writeBytes_ok hwrite).1
  refine ⟨habs, ?_⟩
  cases hp : Path.parts arc' using List.reverseRecOn with
  | nil =>
      -- the staging directory itself is no place for a file
      rw [hp, List.append_nil] at hmk hnot
      have hstages := stages_stagingRoom hdir
      have hmoved := (stagingRoom_mkdirs hdir (Or.inl (List.dropLast_prefix _))).confined hmk
      exact absurd (hstages.step hmoved).dir hnot
  | append_singleton p n =>
      refine ⟨p, n, rfl, ?_⟩
      rw [hp, ← List.append_assoc, Path.name_concat] at hname
      exact ((Path.isComponent_iff n).mp hname).1

theorem placeableRecords_of_extract {tar : Archive β} {manifest : Json} {u : Unit}
    (hdir : w.fs.node staging = some .dir)
    (h : extractVerified host tar manifest staging w = (.ok u, w')) :
    PlaceableRecords manifest := by
  simp only [extractVerified, bind_eq_ok, ofExcept_eq_ok] at h
  obtain ⟨files, _, ⟨hfiles, rfl⟩, hloop⟩ := h
  have hplace : ∀ r ∈ files, Placeable r := by
    have hstages := stages_stagingRoom (β := β) hdir
    obtain ⟨-, hturns⟩ := forEach_turns (Confined (stagingRoom β staging)) (.refl _) .trans hloop
      fun r _ t t' ht hbody =>
        (extractRecord_touches (hstages.step ht).dir tar r).confined hbody
    intro r hr
    obtain ⟨t, t', ht, hbody, -⟩ := hturns r hr
    exact placeable_of_extractRecord (hstages.step ht).dir hbody
  obtain ⟨⟨images, himages, hsub⟩, ⟨config, hconfig, hsub'⟩, ⟨items, hitems, -, hdisks⟩⟩ :=
    manifestFiles_spec hfiles
  refine ⟨fun l hl r hr => ?_, fun l hl r hr => ?_, fun l hl item hitem => ?_⟩
  · obtain rfl := Except.ok.inj (himages.symm.trans hl)
    exact hplace r (hsub hr)
  · obtain rfl := Except.ok.inj (hconfig.symm.trans hl)
    exact hplace r (hsub' hr)
  · obtain rfl := Except.ok.inj (hitems.symm.trans hl)
    obtain ⟨active, snaps, hactive, hsnaps, hsnapsub, hactivesub⟩ := hdisks item hitem
    refine ⟨fun a ha hsome => ?_, fun l hl r hr => ?_⟩
    · obtain rfl := Except.ok.inj (hactive.symm.trans ha)
      exact hplace _ (hactivesub hsome)
    · obtain rfl := Except.ok.inj (hsnaps.symm.trans hl)
      exact hplace r (hsnapsub hr)

theorem openBundle_quiet (bundlePath : Path) (asVm : Option String) :
    Quiet (openBundle host bundlePath asVm) := by
  refine .read_bind fun w => .bind (.raiseIf _ _) fun _ => ?_
  refine .bind (.ofExcept _) fun _ => .bind (.ofExcept _) fun _ => .bind (.ofExcept _) fun _ => ?_
  exact .bind (validateName_quiet _ _) fun _ => .pure _

end

end VMForge.Storage
