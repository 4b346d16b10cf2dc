import VMForge.Storage.Layers
import VMForge.Storage.Restore.Steps

namespace VMForge.Storage

open Exec

-- The name a snapshot record gives.
def recordName (r : Json) : Option String :=
  match pyIndex r "name" with
  | .ok (.str n) => some n
  | _ => none

-- What a parent record stands for.
inductive ParentLink where
  | root
  | snapshot (name : String)
  | image (path : String)

def parentLink (parent : Json) : Option ParentLink :=
  if Json.isNone parent then some .root
  else
    match pyIndex parent "snapshot" with
    | .ok (.str name) => some (.snapshot name)
    | .ok _ => none
    | .error _ =>
        match pyIndex parent "image" with
        | .ok (.str path) => some (.image path)
        | _ => none

-- The link of a snapshot record, and that of the active overlay of a disk section.
def recordLink (r : Json) : Option ParentLink :=
  match pyGet r "parent" with
  | .ok parent => parentLink parent
  | .error _ => none

def activeLink (diskSection : Json) : Option ParentLink :=
  match pyGet diskSection "active", pyGet diskSection "current" with
  | .ok .null, .ok (.str current) => some (.snapshot current)
  | .ok .null, _ => none
  | .ok active, _ => recordLink active
  | .error _, _ => none

-- The file a link leads to.
def ParentLink.target (store : DiskStore) (vm disk : String) : ParentLink → Option Path
  | .root => none
  | .snapshot name => some (store.snapshotFile vm disk name)
  | .image path => some (Path.resolve (joinName store.imagesDir path))

theorem recordName_eq_some {r : Json} {n : String} :
    recordName r = some n ↔ pyIndex r "name" = .ok (.str n) := by
  unfold recordName
  split <;> simp_all

section

variable {β : Type} {host : Host β} {store : DiskStore} {vm disk : String} {staging : Path}
  {w w' : World β}

theorem resolveParent_eq_ok (hvm : nameMatches vm = true) (hdisk : nameMatches disk = true)
    {parent : Json} {path : Option (List String)}
    (h : resolveParent store vm disk parent w = (.ok path, w')) :
    ∃ link, parentLink parent = some link ∧
      path.map Path.resolve = link.target store vm disk := by
  unfold resolveParent at h
  split at h
  · rename_i hnone
    obtain ⟨rfl, -⟩ := pure_eq_ok.mp h
    exact ⟨.root, by simp [parentLink, hnone], rfl⟩
  · rename_i hsome
    simp only [Bool.not_eq_true] at hsome
    simp only [bind_eq_ok, ofExcept_eq_ok] at h
    obtain ⟨isSnapshot, _, ⟨hsnap, rfl⟩, h⟩ := h
    cases isSnapshot with
    | true =>
        simp only [ite_true, bind_eq_ok, ofExcept_eq_ok, snapshotPathOf_eq_ok, pure_eq_ok] at h
        obtain ⟨_, _, ⟨hname, rfl⟩, _, _, ⟨name, rfl, -, -, hvalid, rfl, rfl⟩, rfl, -⟩ := h
        refine ⟨.snapshot name, by simp [parentLink, hsome, hname], ?_⟩
        simp [ParentLink.target, snapshotFile_resolve hvm hdisk hvalid]
    | false =>
        simp only [Bool.false_eq_true, ite_false, bind_eq_ok, ofExcept_eq_ok] at h
        obtain ⟨isImage, _, ⟨himage, rfl⟩, h⟩ := h
        cases isImage with
        | false => simp at h
        | true =>
            simp only [ite_true, bind_eq_ok, ofExcept_eq_ok, pyIndexStr_eq_ok, pure_eq_ok] at h
            obtain ⟨image, _, ⟨hpath, rfl⟩, rfl, -⟩ := h
            obtain ⟨fields, rfl, -⟩ := pyIndex_eq_ok.mp hpath
            have hmissing : pyIndex (.obj fields) "snapshot" = .error .keyError := by
              simp only [pyContains, Except.ok.injEq, Option.isSome_eq_false_iff,
                Option.isNone_iff_eq_none] at hsnap
              simp [pyIndex, hsnap]
            refine ⟨.image image, ?_, rfl⟩
            simp [parentLink, hsome, hmissing, hpath]

-- The places of the layers of a disk that `records` stand for.
def ownedBy (store : DiskStore) (vm disk : String) (records : List Json) (q : Path) : Prop :=
  ∃ r ∈ records, ∃ n, recordName r = some n ∧ store.snapshotFile vm disk n <+: q

-- Assembling, where only the places `P` are written.
def slotRoom (β : Type) (store : DiskStore) (vm : String) (staging : Path) (P : Path → Prop) :
    Room β where
  free := P
  gone q := Below staging q
  fresh q x := x = .dir ∧
    ((∃ d, q <+: store.vmRoot vm ++ ["snapshots", d]) ∨ q <+: store.vmRoot vm ++ ["disks"])

section

variable {P Q : Path → Prop}

theorem slotRoom_mkdirs_snapshots (d : String) :
    TouchesOnly (slotRoom β store vm staging P) (mkdirs (store.vmRoot vm ++ ["snapshots", d])) w :=
  .mkdirs fun _ hq _ => Or.inr ⟨rfl, Or.inl ⟨d, hq⟩⟩

theorem slotRoom_mkdirs_disks :
    TouchesOnly (slotRoom β store vm staging P) (mkdirs (store.vmRoot vm ++ ["disks"])) w :=
  .mkdirs fun _ hq _ => Or.inr ⟨rfl, Or.inr hq⟩

-- A room for what a step of assembling may do, with the staging directory in its place.
theorem stages_slotRoom (hdir : w.fs.node staging = some .dir) (hP : ¬P staging) :
    Stages (slotRoom β store vm staging P) staging w :=
  ⟨hdir, ⟨hP, fun hc => hc.2 rfl⟩, fun _ hq => Or.inr hq⟩

theorem slotRoom_move (hst : Stages (slotRoom β store vm staging P) staging w) {r : Json}
    (hr : Placeable r) {arc : String} (harc : (pyIndex r "path" >>= pyStr) = .ok arc) {dst : Path}
    (hdst : ∀ q, dst <+: q → P q) :
    TouchesOnly (slotRoom β store vm staging P) (move (joinStr staging arc) dst) w :=
  hst.move (hr arc harc).1 (fun _ => Or.inl (hdst _ List.prefix_rfl)) fun _ _ =>
    hdst _ (List.prefix_append _ _)

theorem moveSnapshot_slots (hst : Stages (slotRoom β store vm staging P) staging w) {snap : Json}
    (hr : Placeable snap) (hP : ∀ q, ownedBy store vm disk [snap] q → P q) :
    TouchesOnly (slotRoom β store vm staging P) (moveSnapshot store vm disk staging snap) w := by
  refine .look (.ofExcept _) fun name hrun => .look (validateName_quiet _ _) fun _ _ => ?_
  have hname := pyIndexStr_eq_ok.mp (ofExcept_eq_ok.mp hrun).1
  refine .look (store.snapshotPath_quiet _ _ _) fun dst hrun => ?_
  obtain ⟨-, -, -, rfl, -⟩ := store.snapshotPath_eq_ok.mp hrun
  rw [snapshotFile_dropLast]
  refine .bind (slotRoom_mkdirs_snapshots _) fun _ w₁ _ hw₁ => .look (.ofExcept _) fun arc hrun => ?_
  refine slotRoom_move (hst.step hw₁) hr (ofExcept_eq_ok.mp hrun).1 fun q hq => hP q ?_
  exact ⟨snap, List.mem_cons_self, name, recordName_eq_some.mpr hname, hq⟩

theorem rebaseSnapshot_slots {snap : Json} (hP : ∀ q, ownedBy store vm disk [snap] q → P q) :
    TouchesOnly (slotRoom β store vm staging P) (rebaseSnapshot host store vm disk snap) w := by
  refine .look (.ofExcept _) fun name hrun => ?_
  have hname := (ofExcept_eq_ok.mp hrun).1
  refine .look (snapshotPathOf_quiet _ _ _) fun dst hrun => ?_
  obtain ⟨n, rfl, -, -, -, rfl, -⟩ := snapshotPathOf_eq_ok.mp hrun
  refine .look (.ofExcept _) fun parent _ => .look (resolveParent_quiet _ _ _) fun _ _ => ?_
  have hdst : (slotRoom β store vm staging P).free (store.snapshotFile vm disk n) :=
    hP _ ⟨snap, List.mem_cons_self, n, recordName_eq_some.mpr hname, List.prefix_rfl⟩
  exact .bind (rebase_touches hdst) fun _ _ _ _ => .chmod hdst

theorem placeActive_slots (hst : Stages (slotRoom β store vm staging P) staging w)
    {diskSection : Json} (hr : ∀ active, pyGet diskSection "active" = .ok active →
      Json.isNone active = false → Placeable active)
    (hP : ∀ q, store.diskFile vm disk <+: q → P q) :
    TouchesOnly (slotRoom β store vm staging P) (placeActive host store vm disk staging diskSection)
      w := by
  refine .look (store.diskPath_quiet _ _) fun path hrun => ?_
  obtain ⟨-, -, rfl, -⟩ := store.diskPath_eq_ok.mp hrun
  have hdst : (slotRoom β store vm staging P).free (store.diskFile vm disk) :=
    hP _ List.prefix_rfl
  rw [diskFile_dropLast]
  refine .bind slotRoom_mkdirs_disks fun _ w₁ _ hw₁ => ?_
  refine .look (.ofExcept _) fun active hrun => ?_
  have hactive := (ofExcept_eq_ok.mp hrun).1
  split
  · rename_i hsome
    refine .look (.ofExcept _) fun arc hrun => ?_
    refine .bind (slotRoom_move (hst.step hw₁) (hr active hactive (by simpa using hsome))
      (ofExcept_eq_ok.mp hrun).1 hP) fun _ _ _ _ => ?_
    refine .look (.ofExcept _) fun _ _ => .look (resolveParent_quiet _ _ _) fun _ _ => ?_
    exact rebase_touches hdst
  · refine .look (.ofExcept _) fun _ _ => .look (.raiseIf _ _) fun _ _ => ?_
    exact .look (snapshotPathOf_quiet _ _ _) fun _ _ => createQcow2_touches hdst

-- The places of the layers of a disk.
def DiskSlots (store : DiskStore) (vm disk : String) (snaps : List Json) (q : Path) : Prop :=
  ownedBy store vm disk snaps q ∨ store.diskFile vm disk <+: q

theorem ownedBy_mono {snaps snaps' : List Json} (hsub : snaps ⊆ snaps') {q : Path}
    (h : ownedBy store vm disk snaps q) : ownedBy store vm disk snaps' q := by
  obtain ⟨r, hr, hrest⟩ := h
  exact ⟨r, hsub hr, hrest⟩

theorem assembleDisk_slots (hst : Stages (slotRoom β store vm staging P) staging w)
    {item : String × Json}
    (hactive : ∀ active, pyGet item.2 "active" = .ok active → Json.isNone active = false →
      Placeable active)
    (hsnaps : ∀ snaps, recordsAt item.2 "snapshots" = .ok snaps → ∀ r ∈ snaps, Placeable r)
    (hP : ∀ snaps, recordsAt item.2 "snapshots" = .ok snaps →
      ∀ q, DiskSlots store vm item.1 snaps q → P q) :
    TouchesOnly (slotRoom β store vm staging P) (assembleDisk host store vm staging item) w := by
  refine .look (validateName_quiet _ _) fun disk hrun => .look (.ofExcept _) fun snaps hrun' => ?_
  obtain ⟨-, rfl, -⟩ := validateName_eq_ok.mp hrun
  have hl := (ofExcept_eq_ok.mp hrun').1
  have hone : ∀ r ∈ snaps, ∀ q, ownedBy store vm item.1 [r] q → P q := fun r hr q hq =>
    hP snaps hl q (Or.inl (ownedBy_mono (by simpa using hr) hq))
  refine .bind (.forEach fun r hr _ hw => moveSnapshot_slots (hst.step hw) (hsnaps snaps hl r hr)
    (hone r hr)) fun _ _ _ hw₁ => ?_
  refine .bind (.forEach fun r hr _ _ => rebaseSnapshot_slots (hone r hr)) fun _ _ _ hw₂ => ?_
  refine .bind (placeActive_slots ((hst.step hw₁).step hw₂) hactive fun q hq => ?_)
    fun _ _ _ _ => .pure _
  exact hP snaps hl q (Or.inr hq)

theorem diskSlots_below {snaps : List Json} {q : Path} (h : DiskSlots store vm disk snaps q) :
    store.vmRoot vm <+: q := by
  rcases h with ⟨r, -, n, -, hq⟩ | hq
  · exact (snapshotFile_below _ vm disk n).1.trans hq
  · exact (diskFile_below _ vm disk).1.trans hq

theorem diskSlots_not_staging {snaps : List Json} {w₀ w₂ : World β}
    (hp : Prepared store vm staging w₀ w₂) : ¬DiskSlots store vm disk snaps staging :=
  fun hc => hp.not_above_root (diskSlots_below hc)

-- A layer that is not written stays as it is.
theorem snapshotFile_kept {w₀ w₂ : World β} (hp : Prepared store vm staging w₀ w₂) {n : String}
    (h : Confined (slotRoom β store vm staging P) w w') (hP : ¬P (store.snapshotFile vm disk n)) :
    w'.fs.node (store.snapshotFile vm disk n) = w.fs.node (store.snapshotFile vm disk n) := by
  have hroot := (snapshotFile_below store vm disk n).1
  refine h.same hP (fun hc => hp.disjoint_vms ((List.prefix_append _ _).trans hroot) hc.1) ?_
  rintro x ⟨-, ⟨d, hc⟩ | hc⟩
  · simpa [DiskStore.snapshotFile, DiskStore.snapshotsDir] using hc.length_le
  · simpa [DiskStore.snapshotFile, DiskStore.snapshotsDir] using hc.length_le

theorem diskFile_kept {w₀ w₂ : World β} (hp : Prepared store vm staging w₀ w₂)
    (h : Confined (slotRoom β store vm staging P) w w') (hP : ¬P (store.diskFile vm disk)) :
    w'.fs.node (store.diskFile vm disk) = w.fs.node (store.diskFile vm disk) := by
  have hroot := (diskFile_below store vm disk).1
  refine h.same hP (fun hc => hp.disjoint_vms ((List.prefix_append _ _).trans hroot) hc.1) ?_
  rintro x ⟨-, ⟨d, hc⟩ | hc⟩
  · simp [DiskStore.diskFile, DiskStore.disksDir] at hc
  · simpa [DiskStore.diskFile, DiskStore.disksDir] using hc.length_le

-- The layer at `path` points at `target`.
def PointsAt (F : Formats β) (fs : FileSystem β) (path : Path) (target : Option Path) : Prop :=
  ∃ l, F.layerAt fs (path, "qcow2") = some l ∧
    l.backing = target.map fun file => (file, "qcow2")

theorem PointsAt.congr {F : Formats β} {fs fs' : FileSystem β} {path : Path} {target : Option Path}
    (h : PointsAt F fs path target) (hsame : fs'.blob path = fs.blob path) :
    PointsAt F fs' path target := by
  obtain ⟨l, hl, hb⟩ := h
  exact ⟨l, (layerAt_congr hsame).trans hl, hb⟩

variable {F : Formats β}

theorem rebase_points (hq : Repoints F host.qemuImg) {path : Path} {backing : Option (List String)}
    {u : Unit} (h : rebase host path backing true w = (.ok u, w')) :
    PointsAt F w'.fs path (backing.map Path.resolve) := by
  obtain ⟨b, b', l, -, hnode, -, hl', -⟩ := rebaseUnsafe_ok hq h
  refine ⟨_, layerAt_eq_some.mpr ⟨b', (FileSystem.blob_eq_some _).mpr ⟨_, hnode⟩, hl'⟩, ?_⟩
  rw [Option.map_map]
  rfl

theorem rebaseSnapshot_points (hq : Repoints F host.qemuImg) (hvm : nameMatches vm = true)
    (hdisk : nameMatches disk = true) {snap : Json} {n : String} {u : Unit}
    (hn : recordName snap = some n) (h : rebaseSnapshot host store vm disk snap w = (.ok u, w')) :
    ∃ link, recordLink snap = some link ∧
      PointsAt F w'.fs (store.snapshotFile vm disk n) (link.target store vm disk) := by
  obtain ⟨name, parent, path, t, hname, -, hparent, hresolve, hrebase, hchmod⟩ :=
    rebaseSnapshot_ok h
  obtain rfl := Json.str.inj (Except.ok.inj ((recordName_eq_some.mp hn).symm.trans hname))
  obtain ⟨link, hlink, htarget⟩ := resolveParent_eq_ok hvm hdisk hresolve
  refine ⟨link, by simp [recordLink, hparent, hlink], ?_⟩
  rw [← htarget]
  exact (rebase_points hq hrebase).congr (chmod_blob hchmod _)

theorem assembleDisk_dir {w₀ w₂ t₁ t₂ : World β} (hp : Prepared store vm staging w₀ w₂)
    (hdir : w.fs.node staging = some .dir) {snaps : List Json} (hsnaps : ∀ r ∈ snaps, Placeable r)
    {u u' : Unit} (hmoves : forEach snaps (moveSnapshot store vm disk staging) w = (.ok u, t₁))
    (hrebases : forEach snaps (rebaseSnapshot host store vm disk) t₁ = (.ok u', t₂)) :
    t₂.fs.node staging = some .dir := by
  have hst : Stages (vmRoom β store vm staging) staging w := stages_vmRoom hdir hp.not_above_root
  have h₁ : TouchesOnly (vmRoom β store vm staging)
      (forEach snaps (moveSnapshot store vm disk staging)) w :=
    .forEach fun r hr _ hw => moveSnapshot_touches (hst.step hw) (hsnaps r hr)
  have h₂ : TouchesOnly (vmRoom β store vm staging)
      (forEach snaps (rebaseSnapshot host store vm disk)) t₁ :=
    .forEach fun _ _ _ _ => rebaseSnapshot_touches
  exact ((hst.step (h₁.confined hmoves)).step (h₂.confined hrebases)).dir

-- After a disk is assembled, each snapshot points where the last record of its name says.
theorem assembleDisk_points {w₀ w₂ : World β} (hq : Repoints F host.qemuImg)
    (hp : Prepared store vm staging w₀ w₂) (hvm : nameMatches vm = true)
    {item : String × Json} {k : Nat}
    (hdir : w.fs.node staging = some .dir)
    (hactive : ∀ active, pyGet item.2 "active" = .ok active → Json.isNone active = false →
      Placeable active)
    (hsnaps : ∀ snaps, recordsAt item.2 "snapshots" = .ok snaps → ∀ r ∈ snaps, Placeable r)
    (h : assembleDisk host store vm staging item w = (.ok k, w')) {snaps : List Json}
    (hl : recordsAt item.2 "snapshots" = .ok snaps) {n : String} {r : Json}
    (hr : lastWith recordName snaps n = some r) :
    ∃ link, recordLink r = some link ∧
      PointsAt F w'.fs (store.snapshotFile vm item.1 n) (link.target store vm item.1) := by
  obtain ⟨hdisk, snaps', t₁, t₂, hl', hmoves, hrebases, hplace, -⟩ := assembleDisk_ok h
  obtain rfl := Except.ok.inj (hl.symm.trans hl')
  obtain ⟨hn, before, after, rfl, hafter⟩ := lastWith_split hr
  rw [forEach_append, bind_eq_ok] at hrebases
  obtain ⟨_, t, hbefore, hrebases⟩ := hrebases
  rw [forEach_cons, bind_eq_ok] at hrebases
  obtain ⟨_, t', hturn, hrest⟩ := hrebases
  obtain ⟨link, hlink, hpoints⟩ := rebaseSnapshot_points hq hvm hdisk hn hturn
  refine ⟨link, hlink, hpoints.congr ?_⟩
  -- neither the later rebases nor the active overlay touch the file
  have hlater : Confined (slotRoom β store vm staging (ownedBy store vm item.1 after)) t' t₂ := by
    have htouch : TouchesOnly (slotRoom β store vm staging (ownedBy store vm item.1 after))
        (forEach after (rebaseSnapshot host store vm item.1)) t' :=
      .forEach fun r' hr' _ _ => rebaseSnapshot_slots fun q hq => ownedBy_mono (by simpa using hr') hq
    exact htouch.confined hrest
  have hdir₂ := assembleDisk_dir hp hdir (hsnaps _ hl) hmoves (by
    rw [forEach_append, bind_of_ok hbefore, forEach_cons, bind_of_ok hturn, hrest])
  have hactive' := (placeActive_slots (P := fun q => store.diskFile vm item.1 <+: q)
    (stages_slotRoom hdir₂ fun hc => hp.not_above_root ((diskFile_below _ vm item.1).1.trans hc))
    hactive fun _ hq => hq).confined hplace
  rw [FileSystem.blob_congr _ (snapshotFile_kept hp hactive' diskFile_not_below_snapshotFile),
    FileSystem.blob_congr _ (snapshotFile_kept hp hlater ?_)]
  rintro ⟨r', hr', n', hn', hq⟩
  obtain ⟨-, rfl⟩ := snapshotFile_below_iff.mp hq
  exact hafter r' hr' hn'

-- So does the active overlay.
theorem assembleDisk_active_points (hq : Repoints F host.qemuImg)
    (hc : Creates F host.qemuImg) (hvm : nameMatches vm = true) {item : String × Json} {k : Nat}
    (h : assembleDisk host store vm staging item w = (.ok k, w')) :
    ∃ link, activeLink item.2 = some link ∧
      PointsAt F w'.fs (store.diskFile vm item.1) (link.target store vm item.1) := by
  obtain ⟨hdisk, snaps, t₁, t₂, -, -, -, hplace, -⟩ := assembleDisk_ok h
  obtain ⟨t, -, hfill⟩ := placeActive_ok hplace
  cases hfill with
  | @bundled active parent arc path t₃ hactive hsome harc hmove hparent hresolve hrebase =>
      obtain ⟨link, hlink, htarget⟩ := resolveParent_eq_ok hvm hdisk hresolve
      refine ⟨link, ?_, htarget ▸ rebase_points hq hrebase⟩
      have hrecord : recordLink active = some link := by simp [recordLink, hparent, hlink]
      cases active with
      | null => cases hsome
      | _ => simpa [activeLink, hactive] using hrecord
  | @fresh current hactive hcurrent hvalid hcreate =>
      refine ⟨.snapshot current, by simp [activeLink, hactive, hcurrent], ?_⟩
      obtain ⟨b, l, hnode, hl, hbacking, -⟩ := createQcow2_ok hc hcreate
      refine ⟨l, layerAt_eq_some.mpr ⟨b, (FileSystem.blob_eq_some _).mpr ⟨_, hnode⟩, hl⟩, ?_⟩
      simp [hbacking, refOf, ParentLink.target, snapshotFile_resolve hvm hdisk hvalid]

-- Where assembling writes apart from the layers of `disk`: the layers of other disks, and the
-- config files, or their places in a directory of the same name.
def Elsewhere (store : DiskStore) (vm disk : String) (q : Path) : Prop :=
  (∃ d, d ≠ disk ∧ ((∃ n, store.snapshotFile vm d n <+: q) ∨ store.diskFile vm d <+: q)) ∨
    ∃ n, q = store.vmRoot vm ++ [n] ∨ q = store.vmRoot vm ++ [n, n]

theorem not_elsewhere_snapshotFile (n : String) :
    ¬Elsewhere store vm disk (store.snapshotFile vm disk n) := by
  rintro (⟨d, hd, ⟨n', hc⟩ | hc⟩ | ⟨n', hc | hc⟩)
  · exact hd (snapshotFile_below_iff.mp hc).1
  · exact diskFile_not_below_snapshotFile hc
  · simpa [DiskStore.snapshotFile, DiskStore.snapshotsDir] using congrArg List.length hc
  · simpa [DiskStore.snapshotFile, DiskStore.snapshotsDir] using congrArg List.length hc

theorem not_elsewhere_diskFile : ¬Elsewhere store vm disk (store.diskFile vm disk) := by
  rintro (⟨d, hd, ⟨n', hc⟩ | hc⟩ | ⟨n', hc | hc⟩)
  · exact snapshotFile_not_below_diskFile hc
  · exact hd (diskFile_below_iff.mp hc)
  · simpa [DiskStore.diskFile, DiskStore.disksDir] using congrArg List.length hc
  · simp only [DiskStore.diskFile, DiskStore.disksDir, List.append_assoc,
      List.append_cancel_left_eq, List.cons_append, List.nil_append, List.cons.injEq,
      and_true] at hc
    obtain ⟨rfl, hc⟩ := hc
    have hlen := congrArg String.length hc
    rw [String.length_append, show ".qcow2".length = 6 by decide,
      show "disks".length = 5 by decide] at hlen
    omega

theorem elsewhere_below {q : Path} (h : Elsewhere store vm disk q) : store.vmRoot vm <+: q := by
  rcases h with ⟨d, -, ⟨n, hq⟩ | hq⟩ | ⟨n, rfl | rfl⟩
  · exact (snapshotFile_below _ vm d n).1.trans hq
  · exact (diskFile_below _ vm d).1.trans hq
  · exact List.prefix_append _ _
  · exact List.prefix_append _ _

theorem moveConfig_elsewhere
    (hst : Stages (slotRoom β store vm staging (Elsewhere store vm disk)) staging w) {r : Json}
    (hr : Placeable r) :
    TouchesOnly (slotRoom β store vm staging (Elsewhere store vm disk))
      (moveConfig store vm staging r) w := by
  refine .look (.ofExcept _) fun arc hrun => ?_
  obtain ⟨habs, p, n, hp, hn⟩ := hr arc (ofExcept_eq_ok.mp hrun).1
  rw [joinName_of_parts hp hn, joinStr_of_not_absolute staging habs, hp]
  refine .move (fun hsrc => hst.of_not_dir (List.prefix_append _ _) hsrc)
    (fun _ => Or.inl (Or.inr ⟨n, Or.inl rfl⟩)) fun _ => Or.inr ⟨n, Or.inr ?_⟩
  rw [← List.append_assoc, Path.name_concat, List.append_assoc]
  rfl

-- What the rest of assembling does to the layers of one disk: nothing.
theorem assembleVm_disk {w₀ w₂ : World β} {manifest : Json} {result : RestoreResult}
    (hp : Prepared store vm staging w₀ w₂) (hrec : PlaceableRecords manifest)
    (hdir : w.fs.node staging = some .dir)
    (h : assembleVm host store vm manifest staging w = (.ok result, w'))
    {items : List (String × Json)}
    (hitems : (pyIndex manifest "disks" >>= pySortedItems) = .ok items)
    (hnodup : (items.map Prod.fst).Nodup) {item : String × Json} (hitem : item ∈ items) :
    ∃ k t t', Confined (slotRoom β store vm staging (Elsewhere store vm item.1)) w t ∧
      t.fs.node staging = some .dir ∧ assembleDisk host store vm staging item t = (.ok k, t') ∧
      Confined (slotRoom β store vm staging (Elsewhere store vm item.1)) t' w' := by
  obtain ⟨items', counts, config, checks, te, hitems', hdisks, hconfig, hmoves, -⟩ :=
    assembleVm_ok h
  obtain rfl := Except.ok.inj (hitems.symm.trans hitems')
  have hrecords := hrec.disks _ hitems
  obtain ⟨before, after, rfl⟩ := List.append_of_mem hitem
  have hst : Stages (vmRoom β store vm staging) staging w := stages_vmRoom hdir hp.not_above_root
  have hnot : ¬Elsewhere store vm item.1 staging := fun hc => hp.not_above_root (elsewhere_below hc)
  -- the turns of other disks
  have hothers : ∀ {l : List (String × Json)} {t : World β}, (∀ i ∈ l, i ∈ before ++ item :: after) →
      (∀ i ∈ l, i.1 ≠ item.1) → t.fs.node staging = some .dir →
      TouchesOnly (slotRoom β store vm staging (Elsewhere store vm item.1))
        (mapEach l (assembleDisk host store vm staging)) t := by
    intro l t hsub hne ht
    refine .mapEach fun i hi t' ht' => ?_
    refine assembleDisk_slots ((stages_slotRoom ht hnot).step ht') (hrecords i (hsub i hi)).1
      (hrecords i (hsub i hi)).2 fun snaps hl q hq => Or.inl ⟨i.1, hne i hi, ?_⟩
    rcases hq with ⟨r, -, n, -, hq⟩ | hq
    · exact Or.inl ⟨n, hq⟩
    · exact Or.inr hq
  have hne : (∀ i ∈ before, i.1 ≠ item.1) ∧ ∀ i ∈ after, i.1 ≠ item.1 := by
    rw [List.map_append, List.map_cons, List.nodup_middle, List.nodup_cons] at hnodup
    simp only [List.mem_append, List.mem_map, not_or, not_exists, not_and] at hnodup
    exact hnodup.1
  obtain ⟨_, _, t, hbefore, hrest, -⟩ := mapEach_append_ok hdisks
  simp only [mapEach_cons, bind_eq_ok, pure_eq_ok] at hrest
  obtain ⟨k, t', hturn, _, _, hafter, -, rfl⟩ := hrest
  have h₁ := (hothers (by simp +contextual) hne.1 hdir).confined hbefore
  have ht := ((stages_slotRoom hdir hnot).step h₁).dir
  have ht' : t'.fs.node staging = some .dir := by
    have hturn' : TouchesOnly (vmRoom β store vm staging) (assembleDisk host store vm staging item) t :=
      assembleDisk_touches (stages_vmRoom ht hp.not_above_root) (hrecords item hitem).1
        (hrecords item hitem).2
    exact ((stages_vmRoom ht hp.not_above_root).step (hturn'.confined hturn)).dir
  have h₂ := (hothers (by simp +contextual) hne.2 ht').confined hafter
  have hte := ((stages_slotRoom ht' hnot).step h₂).dir
  have h₃ : TouchesOnly (slotRoom β store vm staging (Elsewhere store vm item.1))
      (forEach config (moveConfig store vm staging)) _ :=
    .forEach fun r hr _ hw =>
      moveConfig_elsewhere ((stages_slotRoom hte hnot).step hw) (hrec.config _ hconfig r hr)
  exact ⟨k, t, t', h₁, ht, hturn, h₂.trans (h₃.confined hmoves)⟩

end

end

end VMForge.Storage
