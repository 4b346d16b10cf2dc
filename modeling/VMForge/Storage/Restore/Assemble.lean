import VMForge.Storage.Restore.Failure
import VMForge.Storage.Restore.Genuine
import VMForge.Storage.Store.Sound
import VMForge.Storage.Store.Spots

namespace VMForge.Storage

open Exec

-- What a restore counts on: qemu-img reads and repoints layers, puts a qcow2 file that can be
-- written on any other one that is there, and finds no fault with an undamaged one.
structure Faithful {β : Type} (F : Formats β) (undamaged : β → Prop) (q : QemuImg β) : Prop where
  describes : Describes F q
  repoints : Repoints F q
  returns : ∀ w path backing b l, w.fs.node path = some (.file ⟨b, 0o644⟩) →
    F.decode "qcow2" b = some l →
    (∀ file, backing = some file → (F.layerAt w.fs (refOf file)).isSome = true) →
    (q.exec w (.rebase path backing true)).failure = none
  keeps : ∀ w path backing b b', w.fs.blob path = some b → undamaged b →
    (q.exec w (.rebase path backing true)).content = some b' → undamaged b'
  accepts : ∀ w path b c, w.fs.blob path = some b → undamaged b →
    Resolves (F.layerAt w.fs) (path, "qcow2") c →
    ∃ report, q.check w path = .ok report ∧ report.returncode = 0

-- The file that a recorded parent stands for in the store.
def ParentRef.file (store : DiskStore) (vm disk : String) : Option ParentRef → Option Path
  | none => none
  | some (.snapshot n) => some (store.snapshotFile vm disk n)
  | some (.image arc) => some (joinName store.imagesDir arc)

-- A parent as `backup` records it.
inductive ParentRef.Named : Option ParentRef → Prop where
  | root : Named none
  | snapshot {n} (hn : nameMatches n = true) : Named (some (.snapshot n))
  | image {n} (hn : Path.isComponent n = true) : Named (some (.image ("images/" ++ n)))

section

variable {β : Type} {w w' w'' : World β}

-- Nothing changes but at the paths `T`.
def Within (T : Path → Prop) (w w' : World β) : Prop :=
  ∀ q, ¬T q → w'.fs.node q = w.fs.node q

namespace Within

variable {T T' : Path → Prop}

theorem refl (T : Path → Prop) (w : World β) : Within T w w := fun _ _ => rfl

theorem mono (h : Within T w w') (hT : ∀ q, T q → T' q) : Within T' w w' :=
  fun q hq => h q fun hc => hq (hT q hc)

theorem trans (h : Within T w w') (h' : Within T w' w'') : Within T w w'' :=
  fun q hq => (h' q hq).trans (h q hq)

end Within

-- A loop whose turns do not change what the others need, or what they have done.
theorem mapEach_within {α γ : Type} {as : List γ} {body : γ → Run β α} (f : γ → α)
    (T : γ → Path → Prop) (Inv : FileSystem β → Prop) (Pre Post : γ → FileSystem β → Prop)
    (hbody : ∀ a ∈ as, ∀ t, Inv t.fs → Pre a t.fs →
      ∃ t', body a t = (.ok (f a), t') ∧ Inv t'.fs ∧ Post a t'.fs ∧ Within (T a) t t')
    (hpre : as.Pairwise fun a b => ∀ t t', Within (T a) t t' → Pre b t.fs → Pre b t'.fs)
    (hpost : as.Pairwise fun a b => ∀ t t', Within (T b) t t' → Post a t.fs → Post a t'.fs)
    (hinv : Inv w.fs) (hstart : ∀ a ∈ as, Pre a w.fs) :
    ∃ w', mapEach as body w = (.ok (as.map f), w') ∧ Inv w'.fs ∧ (∀ a ∈ as, Post a w'.fs) ∧
      Within (fun q => ∃ a ∈ as, T a q) w w' := by
  obtain ⟨w', hrun, hend, hall, hkept⟩ := mapEach_each f (fun a => Within (T a))
    (fun t : World β => Inv t.fs) (fun a t => Pre a t.fs) (fun a t => Post a t.fs) hbody hpre hpost
    hinv hstart
  refine ⟨w', hrun, hend, hall, hkept (Within _ w) (fun a ha t t' hstep ht => ?_) (.refl _ _)⟩
  exact ht.trans (hstep.mono fun q hq => ⟨a, ha, hq⟩)

theorem forEach_within {γ : Type} {as : List γ} {body : γ → Run β Unit} (T : γ → Path → Prop)
    (Inv : FileSystem β → Prop) (Pre Post : γ → FileSystem β → Prop)
    (hbody : ∀ a ∈ as, ∀ t, Inv t.fs → Pre a t.fs →
      ∃ t', body a t = (.ok (), t') ∧ Inv t'.fs ∧ Post a t'.fs ∧ Within (T a) t t')
    (hpre : as.Pairwise fun a b => ∀ t t', Within (T a) t t' → Pre b t.fs → Pre b t'.fs)
    (hpost : as.Pairwise fun a b => ∀ t t', Within (T b) t t' → Post a t.fs → Post a t'.fs)
    (hinv : Inv w.fs) (hstart : ∀ a ∈ as, Pre a w.fs) :
    ∃ w', forEach as body w = (.ok (), w') ∧ Inv w'.fs ∧ (∀ a ∈ as, Post a w'.fs) ∧
      Within (fun q => ∃ a ∈ as, T a q) w w' := by
  obtain ⟨w', hrun, hend⟩ := mapEach_within (fun _ => ()) T Inv Pre Post hbody hpre hpost
    hinv hstart
  exact ⟨w', forEach_of_mapEach hrun, hend⟩

theorem mkdirs_within {p : Path} (hp : ∀ n ∈ p, Path.isComponent n = true)
    (hclear : ∀ q f, q <+: p → w.fs.node q ≠ some (.file f)) :
    ∃ w', mkdirs p w = (.ok (), w') ∧ (∀ q, q <+: p → w'.fs.node q = some .dir) ∧
      (∀ q, w.fs.node q ≠ none → w'.fs.node q = w.fs.node q) ∧ Within (· <+: p) w w' := by
  obtain ⟨w', hmk⟩ := mkdirs_returns hp hclear
  obtain ⟨hdirs, hother⟩ := mkdirs_ok hmk
  exact ⟨w', hmk, hdirs, fun q hq => mkdirs_keep hmk hq, hother⟩

theorem move_within {src dst : Path} {f : File β} (hsrc : w.fs.node src = some (.file f))
    (hname : Path.isComponent (Path.name dst) = true) (hdir : w.fs.node dst.dropLast = some .dir)
    (hfree : w.fs.node dst = none) :
    ∃ w', move src dst w = (.ok (), w') ∧ w'.fs.node dst = some (.file f) ∧
      Within (fun q => q = src ∨ q = dst) w w' := by
  have hfault : createFault w.fs dst = none :=
    createFault_none_iff.mpr ⟨hname, by simp [hfree], hdir⟩
  obtain ⟨w', hmove⟩ := move_returns hsrc hfault
  obtain ⟨f', hf', -, -, hnode⟩ := move_ok hmove
  obtain rfl := Node.file.inj (Option.some.inj (hsrc.symm.trans hf'))
  rw [moveTarget_of_not_dir (by simp [hfree])] at hnode
  refine ⟨w', hmove, by rw [hnode, if_pos rfl], fun q hq => ?_⟩
  rw [not_or] at hq
  rw [hnode, if_neg hq.2, if_neg hq.1]

theorem createFault_of_file {fs : FileSystem β} {p : Path} {f : File β}
    (h : fs.node p = some (.file f)) : createFault fs p = none := by
  obtain ⟨hne, hdir, hname, -⟩ := (FileSystem.admits_iff fs).mp (admits_of_exists h (.file f))
  exact createFault_none_iff.mpr ⟨hname, by simp [h], hdir⟩

end

section

variable {β : Type} {F : Formats β} {undamaged : β → Prop} {host : Host β} {store : DiskStore}
  {vm disk : String} {staging : Path} {data : String → Option β} {w w' : World β}

theorem rebase_within (hq : Faithful F undamaged host.qemuImg) {path : Path} {target : Option Path}
    {b : β} {l : Layer ImageRef} (hpath : ∀ n ∈ path, Path.isComponent n = true)
    (htarget : ∀ t, target = some t → ∀ n ∈ t, Path.isComponent n = true)
    (hnode : w.fs.node path = some (.file ⟨b, 0o644⟩)) (hl : F.decode "qcow2" b = some l)
    (hthere : ∀ t, target = some t → (F.layerAt w.fs (t, "qcow2")).isSome = true) :
    ∃ w' b', rebase host path target true w = (.ok (), w') ∧
      w'.fs.node path = some (.file ⟨b', 0o644⟩) ∧
      F.decode "qcow2" b' = some { l with backing := target.map fun t => (t, "qcow2") } ∧
      (undamaged b → undamaged b') ∧ Within (· = path) w w' := by
  have hresolve : ∀ t, target = some t → Path.resolve t = t := fun t ht =>
    Path.resolve_of_notMem (Path.dotdot_notMem_of_isComponent (htarget t ht))
  have hok := hq.returns w path (target.map fun file => (file, "qcow2")) b l hnode hl (by
    intro file hfile
    obtain ⟨t, ht, rfl⟩ := Option.map_eq_some_iff.mp hfile
    rw [refOf, hresolve t ht]
    exact hthere t ht)
  obtain ⟨w', hrun⟩ := rebase_returns hpath htarget (createFault_of_file hnode) hok
  obtain ⟨hfail, hwrote⟩ := runQemuImg_ok hrun
  obtain ⟨b₀, b', l', hb₀, hb', hl₀, hl'⟩ := hq.repoints w path _ hok
  have hblob := (FileSystem.blob_eq_some _).mpr ⟨_, hnode⟩
  obtain rfl := Option.some.inj (hblob.symm.trans hb₀)
  obtain rfl := Option.some.inj (hl.symm.trans hl₀)
  obtain ⟨hnew, hother⟩ := hwrote b' hb'
  refine ⟨w', b', hrun, ?_, ?_, fun hsound => hq.keeps w path _ b b' hblob hsound hb', hother⟩
  · have hmode : modeAt w.fs path = 0o644 := by simp [modeAt, hnode]
    rw [← hmode]
    exact hnew
  · rw [hl', Option.map_map]
    cases target with
    | none => rfl
    | some t => simp [refOf, hresolve t rfl]

theorem resolveParent_toJson (hvm : nameMatches vm = true) (hdisk : nameMatches disk = true)
    {parent : Option ParentRef} (hp : ParentRef.Named parent) :
    resolveParent store vm disk (ParentRef.toJson parent) w =
      (.ok (ParentRef.file store vm disk parent), w) := by
  cases hp with
  | root => rfl
  | @snapshot n hn =>
      have hpath : (snapshotPathOf store vm disk (.str n) : Run β Path) w =
          (.ok (store.snapshotFile vm disk n), w) :=
        snapshotPathOf_eq_ok.mpr ⟨n, rfl, hvm, hdisk, hn, rfl, rfl⟩
      change (snapshotPathOf store vm disk (.str n) >>= fun path => pure (some path)) w = _
      rw [bind_of_ok hpath]
      rfl
  | image hn => rfl

theorem ParentRef.Named.file_legal (hvm : nameMatches vm = true) (hdisk : nameMatches disk = true)
    {parent : Option ParentRef} (hp : ParentRef.Named parent) {t : Path}
    (ht : ParentRef.file store vm disk parent = some t) :
    (∀ n ∈ t, Path.isComponent n = true) ∧ (store.imagesDir <+: t ∨ store.vmsDir <+: t) := by
  cases hp with
  | root => cases ht
  | @snapshot n hn =>
      obtain rfl := Option.some.inj ht
      refine ⟨fun m hm => ?_, Or.inr ?_⟩
      · rcases List.mem_append.mp hm with hm | hm
        · exact snapshotsDir_legal store hvm hdisk m hm
        · obtain rfl := List.mem_singleton.mp hm
          exact isComponent_qcow2 hn
      · exact (List.prefix_append _ _).trans (snapshotFile_below store vm disk n).1
  | @image n hn =>
      obtain rfl := Option.some.inj ht
      rw [(BundlePath.image hn).joinName store.imagesDir]
      refine ⟨fun m hm => ?_, Or.inl (List.prefix_append _ _)⟩
      rcases List.mem_append.mp hm with hm | hm
      · exact DiskStore_imagesDir_legal store m hm
      · obtain rfl := List.mem_singleton.mp hm
        exact hn

-- `path` has the file that the bundle has under `arc`.
def Holds (data : String → Option β) (fs : FileSystem β) (arc : String) (path : Path) : Prop :=
  ∃ b, data arc = some b ∧ fs.node path = some (.file ⟨b, 0o644⟩)

-- `path` has the layer that the bundle has under `arc`, put on `target`.
def Rebuilt (F : Formats β) (undamaged : β → Prop) (data : String → Option β) (fs : FileSystem β)
    (arc : String) (target : Option Path) (path : Path) : Prop :=
  ∃ b b' l mode, data arc = some b ∧ F.decode "qcow2" b = some l ∧
    fs.node path = some (.file ⟨b', mode⟩) ∧
    F.decode "qcow2" b' = some { l with backing := target.map fun t => (t, "qcow2") } ∧
    (undamaged b → undamaged b')

theorem Rebuilt.congr {fs fs' : FileSystem β} {arc : String} {target : Option Path} {path : Path}
    (h : Rebuilt F undamaged data fs arc target path) (hsame : fs'.node path = fs.node path) :
    Rebuilt F undamaged data fs' arc target path := by
  obtain ⟨b, b', l, mode, hb, hl, hnode, rest⟩ := h
  exact ⟨b, b', l, mode, hb, hl, hsame.trans hnode, rest⟩

theorem layerAt_of_node {fs : FileSystem β} {path : Path} {b : β} {mode : Nat} {l : Layer ImageRef}
    (hnode : fs.node path = some (.file ⟨b, mode⟩)) (hl : F.decode "qcow2" b = some l) :
    F.layerAt fs (path, "qcow2") = some l :=
  layerAt_eq_some.mpr ⟨b, (FileSystem.blob_eq_some _).mpr ⟨mode, hnode⟩, hl⟩

theorem Rebuilt.layer {fs : FileSystem β} {arc : String} {target : Option Path} {path : Path}
    (h : Rebuilt F undamaged data fs arc target path) :
    (F.layerAt fs (path, "qcow2")).isSome = true := by
  obtain ⟨b, b', l, mode, -, -, hnode, hl', -⟩ := h
  rw [layerAt_of_node hnode hl']
  rfl

-- The parent of a layer is there.
def Lands (F : Formats β) (store : DiskStore) (vm disk : String) (fs : FileSystem β)
    (parent : Option ParentRef) : Prop :=
  ∀ t, ParentRef.file store vm disk parent = some t → (F.layerAt fs (t, "qcow2")).isSome = true

theorem Lands.step {fs fs' : FileSystem β} {parent : Option ParentRef}
    (h : Lands F store vm disk fs parent)
    (hsame : ∀ t, ParentRef.file store vm disk parent = some t →
      fs'.node t = fs.node t ∨ (F.layerAt fs' (t, "qcow2")).isSome = true) :
    Lands F store vm disk fs' parent := by
  intro t ht
  rcases hsame t ht with he | hlayer
  · have hlayer := layerAt_same (F := F) (r := (t, "qcow2")) he
    rw [hlayer]
    exact h t ht
  · exact hlayer

-- A snapshot as `backup` records it.
structure SnapshotRecord.Fits (F : Formats β) (data : String → Option β) (disk : String)
    (s : SnapshotRecord) : Prop where
  named : nameMatches s.name = true
  path : s.layer.file.path = "snapshots/" ++ disk ++ "/" ++ s.name ++ ".qcow2"
  layer : ∃ b l, data s.layer.file.path = some b ∧ F.decode "qcow2" b = some l
  parent : ParentRef.Named s.layer.parent

theorem SnapshotRecord.Fits.parts {s : SnapshotRecord} (h : s.Fits F data disk)
    (hdisk : nameMatches disk = true) :
    Path.parts s.layer.file.path = ["snapshots", disk, s.name ++ ".qcow2"] := by
  rw [h.path]
  exact (BundlePath.snapshot hdisk h.named).parts

theorem SnapshotRecord.Fits.joined {s : SnapshotRecord} (h : s.Fits F data disk) :
    joinStr staging s.layer.file.path = staging ++ Path.parts s.layer.file.path := by
  refine joinStr_of_not_absolute staging ?_
  rw [h.path]
  simp [Path.isAbsolute]

-- What moving a snapshot into place changes.
def SnapshotMoves (store : DiskStore) (vm disk : String) (staging : Path) (s : SnapshotRecord)
    (q : Path) : Prop :=
  q <+: store.snapshotsDir vm disk ∨ q = store.snapshotFile vm disk s.name ∨
    q = staging ++ Path.parts s.layer.file.path

variable (hvm : nameMatches vm = true) (hdisk : nameMatches disk = true)

include hvm hdisk

theorem moveSnapshot_run {s : SnapshotRecord} (hs : s.Fits F data disk)
    (hclear : ∀ q f, q <+: store.snapshotsDir vm disk → w.fs.node q ≠ some (.file f))
    (hheld : Holds data w.fs s.layer.file.path (staging ++ Path.parts s.layer.file.path))
    (hfree : w.fs.node (store.snapshotFile vm disk s.name) = none) :
    ∃ w', moveSnapshot store vm disk staging s.toJson w = (.ok (), w') ∧
      (∀ q f, q <+: store.snapshotsDir vm disk → w'.fs.node q ≠ some (.file f)) ∧
      Holds data w'.fs s.layer.file.path (store.snapshotFile vm disk s.name) ∧
      Within (SnapshotMoves store vm disk staging s) w w' := by
  obtain ⟨b, hb, hsrc⟩ := hheld
  obtain ⟨t, hmk, hdirs, hkeep, hmade⟩ := mkdirs_within (snapshotsDir_legal store hvm hdisk) hclear
  have hsrc' := (hkeep _ (by simp [hsrc])).trans hsrc
  have hfree' : t.fs.node (store.snapshotFile vm disk s.name) = none :=
    (hmade _ (not_concat_below _ _)).trans hfree
  have hname : Path.isComponent (Path.name (store.snapshotFile vm disk s.name)) = true := by
    rw [DiskStore.snapshotFile, Path.name_concat]
    exact isComponent_qcow2 hs.named
  have hdir : t.fs.node (store.snapshotFile vm disk s.name).dropLast = some .dir := by
    rw [snapshotFile_dir]
    exact hdirs _ List.prefix_rfl
  obtain ⟨w', hmove, hdst, hmoved⟩ := move_within hsrc' hname hdir hfree'
  refine ⟨w', ?_, fun q f hq => ?_, ⟨b, hb, hdst⟩, ?_⟩
  · have hindex : (pyIndex s.toJson "name" >>= pyStr) = .ok s.name := rfl
    have hpath : (pyIndex s.toJson "path" >>= pyStr) = .ok s.layer.file.path := rfl
    rw [moveSnapshot, bind_of_ok (ofExcept_eq_ok.mpr ⟨hindex, rfl⟩),
      bind_of_ok (validateName_eq_ok.mpr ⟨hs.named, rfl, rfl⟩),
      bind_of_ok (store.snapshotPath_eq_ok.mpr ⟨hvm, hdisk, hs.named, rfl, rfl⟩), snapshotFile_dir,
      bind_of_ok hmk, bind_of_ok (ofExcept_eq_ok.mpr ⟨hpath, rfl⟩), hs.joined]
    exact hmove
  · rw [hmoved q, hdirs q hq]
    · simp
    · rintro (rfl | rfl)
      · rw [hdirs _ hq] at hsrc'
        cases hsrc'
      · exact not_concat_below _ _ hq
  · exact (hmade.mono fun q hq => Or.inl hq).trans (hmoved.mono fun q hq => Or.inr hq.symm)

omit hvm in
-- What is moved for one snapshot is not what is moved for another one.
theorem snapshotMoves_apart {s s' : SnapshotRecord} (hs : s.Fits F data disk) (hs' : s'.Fits F data disk)
    (hne : s.name ≠ s'.name) (hout : ∀ q, store.vmsDir <+: q → ¬staging <+: q) :
    ¬SnapshotMoves store vm disk staging s (store.snapshotFile vm disk s'.name) ∧
      ¬SnapshotMoves store vm disk staging s (staging ++ Path.parts s'.layer.file.path) := by
  have hfile : ∀ n p, staging ++ p ≠ store.snapshotFile vm disk n := fun n p hc =>
    hout _ ((List.prefix_append _ _).trans (snapshotFile_below store vm disk n).1)
      (hc ▸ List.prefix_append _ _)
  constructor
  · rintro (hc | hc | hc)
    · exact not_concat_below _ _ hc
    · exact hne (snapshotFile_eq_iff.mp hc).2.2.symm
    · exact hfile _ _ hc.symm
  · rintro (hc | hc | hc)
    · refine hout (store.snapshotsDir vm disk) ?_ ((List.prefix_append _ _).trans hc)
      simp [DiskStore.snapshotsDir, DiskStore.vmRoot, List.append_assoc]
    · exact hfile _ _ hc
    · rw [hs.parts hdisk, hs'.parts hdisk] at hc
      simp only [List.append_cancel_left_eq, List.cons.injEq, true_and, and_true] at hc
      exact hne (append_qcow2_inj hc).symm

-- The loop over the snapshots of a disk.
theorem moveSnapshots_run {ss : List SnapshotRecord} (hnodup : (ss.map SnapshotRecord.name).Nodup)
    (hs : ∀ s ∈ ss, s.Fits F data disk)
    (hclear : ∀ q f, q <+: store.snapshotsDir vm disk → w.fs.node q ≠ some (.file f))
    (hheld : ∀ s ∈ ss,
      Holds data w.fs s.layer.file.path (staging ++ Path.parts s.layer.file.path))
    (hfree : ∀ s ∈ ss, w.fs.node (store.snapshotFile vm disk s.name) = none)
    (hout : ∀ q, store.vmsDir <+: q → ¬staging <+: q) :
    ∃ w', forEach (ss.map SnapshotRecord.toJson) (moveSnapshot store vm disk staging) w = (.ok (), w') ∧
      (∀ q f, q <+: store.snapshotsDir vm disk → w'.fs.node q ≠ some (.file f)) ∧
      (∀ s ∈ ss, Holds data w'.fs s.layer.file.path (store.snapshotFile vm disk s.name)) ∧
      Within (fun q => ∃ s ∈ ss, SnapshotMoves store vm disk staging s q) w w' := by
  have hapart : ss.Pairwise fun a b =>
      (¬SnapshotMoves store vm disk staging a (store.snapshotFile vm disk b.name) ∧
        ¬SnapshotMoves store vm disk staging a (staging ++ Path.parts b.layer.file.path)) ∧
      ¬SnapshotMoves store vm disk staging b (store.snapshotFile vm disk a.name) :=
    (List.pairwise_map.mp hnodup).imp_of_mem fun ha hb hne =>
      ⟨snapshotMoves_apart hdisk (hs _ ha) (hs _ hb) hne hout,
        (snapshotMoves_apart hdisk (hs _ hb) (hs _ ha) hne.symm hout).1⟩
  rw [forEach_map]
  refine forEach_within (SnapshotMoves store vm disk staging)
    (fun fs => ∀ q f, q <+: store.snapshotsDir vm disk → fs.node q ≠ some (.file f))
    (fun s fs => Holds data fs s.layer.file.path (staging ++ Path.parts s.layer.file.path) ∧
      fs.node (store.snapshotFile vm disk s.name) = none)
    (fun s fs => Holds data fs s.layer.file.path (store.snapshotFile vm disk s.name))
    (fun s hmem t hinv hpre => moveSnapshot_run hvm hdisk (hs s hmem) hinv hpre.1 hpre.2)
    (hapart.imp fun hab t t' hstep hpre => ?_) (hapart.imp fun hab t t' hstep hpost => ?_)
    hclear fun s hmem => ⟨hheld s hmem, hfree s hmem⟩
  · obtain ⟨⟨b, hb, hnode⟩, hnone⟩ := hpre
    exact ⟨⟨b, hb, (hstep _ hab.1.2).trans hnode⟩, (hstep _ hab.1.1).trans hnone⟩
  · obtain ⟨b, hb, hnode⟩ := hpost
    exact ⟨b, hb, (hstep _ hab.2).trans hnode⟩

theorem rebaseSnapshot_run (hq : Faithful F undamaged host.qemuImg) {s : SnapshotRecord}
    (hs : s.Fits F data disk)
    (hheld : Holds data w.fs s.layer.file.path (store.snapshotFile vm disk s.name))
    (hlands : Lands F store vm disk w.fs s.layer.parent) :
    ∃ w', rebaseSnapshot host store vm disk s.toJson w = (.ok (), w') ∧
      Rebuilt F undamaged data w'.fs s.layer.file.path
        (ParentRef.file store vm disk s.layer.parent) (store.snapshotFile vm disk s.name) ∧
      Within (· = store.snapshotFile vm disk s.name) w w' := by
  obtain ⟨b, hb, hnode⟩ := hheld
  obtain ⟨b₀, l, hb₀, hl⟩ := hs.layer
  obtain rfl := Option.some.inj (hb.symm.trans hb₀)
  have hlegal : ∀ n ∈ store.snapshotFile vm disk s.name, Path.isComponent n = true := by
    intro n hn
    rcases List.mem_append.mp hn with hn | hn
    · exact snapshotsDir_legal store hvm hdisk n hn
    · obtain rfl := List.mem_singleton.mp hn
      exact isComponent_qcow2 hs.named
  obtain ⟨t, b', hrebase, hnew, hl', hsound, hother⟩ := rebase_within hq hlegal
    (fun t ht => (hs.parent.file_legal hvm hdisk ht).1) hnode hl hlands
  obtain ⟨w', hchmod⟩ := chmod_returns 0o444 (p := store.snapshotFile vm disk s.name) (w := t)
    (by simp [hnew])
  obtain ⟨-, hfile, -, hother'⟩ := chmod_ok hchmod
  refine ⟨w', ?_, ⟨b, b', l, 0o444, hb, hl, hfile _ hnew, hl', hsound⟩, fun q hq => ?_⟩
  · have hname : pyIndex s.toJson "name" = .ok (.str s.name) := rfl
    have hparent : pyGet s.toJson "parent" = .ok (ParentRef.toJson s.layer.parent) := rfl
    rw [rebaseSnapshot, bind_of_ok (ofExcept_eq_ok.mpr ⟨hname, rfl⟩),
      bind_of_ok (snapshotPathOf_eq_ok.mpr ⟨s.name, rfl, hvm, hdisk, hs.named, rfl, rfl⟩),
      bind_of_ok (ofExcept_eq_ok.mpr ⟨hparent, rfl⟩),
      bind_of_ok (resolveParent_toJson hvm hdisk hs.parent), bind_of_ok hrebase]
    exact hchmod
  · exact (hother' q hq).trans (hother q hq)

theorem rebaseSnapshots_run (hq : Faithful F undamaged host.qemuImg) {ss : List SnapshotRecord}
    (hnodup : (ss.map SnapshotRecord.name).Nodup) (hs : ∀ s ∈ ss, s.Fits F data disk)
    (hheld : ∀ s ∈ ss, Holds data w.fs s.layer.file.path (store.snapshotFile vm disk s.name))
    (hlands : ∀ s ∈ ss, Lands F store vm disk w.fs s.layer.parent) :
    ∃ w', forEach (ss.map SnapshotRecord.toJson) (rebaseSnapshot host store vm disk) w = (.ok (), w') ∧
      (∀ s ∈ ss, Rebuilt F undamaged data w'.fs s.layer.file.path
        (ParentRef.file store vm disk s.layer.parent) (store.snapshotFile vm disk s.name)) ∧
      Within (fun q => ∃ s ∈ ss, q = store.snapshotFile vm disk s.name) w w' := by
  have hne : ss.Pairwise fun a b =>
      store.snapshotFile vm disk a.name ≠ store.snapshotFile vm disk b.name :=
    (List.pairwise_map.mp hnodup).imp fun hne hc => hne (snapshotFile_eq_iff.mp hc).2.2
  rw [forEach_map]
  obtain ⟨w', hrun, -, hbuilt, hmoved⟩ := forEach_within
    (fun s q => q = store.snapshotFile vm disk s.name)
    (fun fs => ∀ s ∈ ss, Lands F store vm disk fs s.layer.parent)
    (fun s fs => Holds data fs s.layer.file.path (store.snapshotFile vm disk s.name))
    (fun s fs => Rebuilt F undamaged data fs s.layer.file.path
      (ParentRef.file store vm disk s.layer.parent) (store.snapshotFile vm disk s.name))
    (fun s hmem t hlands hheld => by
      obtain ⟨t', hturn, hdone, hstep⟩ :=
        rebaseSnapshot_run hvm hdisk hq (hs s hmem) hheld (hlands s hmem)
      refine ⟨t', hturn, fun s' hs' => (hlands s' hs').step fun p _ => ?_, hdone, hstep⟩
      by_cases hp : p = store.snapshotFile vm disk s.name
      · exact Or.inr (hp ▸ hdone.layer)
      · exact Or.inl (hstep p hp))
    (hne.imp fun hab t t' hstep hpre => by
      obtain ⟨b, hb, hnode⟩ := hpre
      exact ⟨b, hb, (hstep _ fun hc => hab hc.symm).trans hnode⟩)
    (hne.imp fun hab t t' hstep hpost => hpost.congr (hstep _ hab)) hlands hheld
  exact ⟨w', hrun, hbuilt, hmoved⟩

-- An active overlay as `backup` records it.
structure LayerRecord.Fits (F : Formats β) (data : String → Option β) (disk : String)
    (r : LayerRecord) : Prop where
  path : r.file.path = "disks/" ++ disk ++ ".qcow2"
  layer : ∃ b l, data r.file.path = some b ∧ F.decode "qcow2" b = some l
  parent : ParentRef.Named r.parent

omit hvm in
theorem LayerRecord.Fits.parts {r : LayerRecord} (h : r.Fits F data disk) :
    Path.parts r.file.path = ["disks", disk ++ ".qcow2"] := by
  rw [h.path]
  exact (BundlePath.disk hdisk).parts

omit hvm hdisk in
theorem LayerRecord.Fits.joined {r : LayerRecord} (h : r.Fits F data disk) :
    joinStr staging r.file.path = staging ++ Path.parts r.file.path := by
  refine joinStr_of_not_absolute staging ?_
  rw [h.path]
  simp [Path.isAbsolute]

-- What putting the active overlay into place changes.
def ActiveMoves (store : DiskStore) (vm disk : String) (staging : Path) (q : Path) : Prop :=
  q <+: store.disksDir vm ∨ q = store.diskFile vm disk ∨
    q = staging ++ ["disks", disk ++ ".qcow2"]

theorem placeActive_run (hq : Faithful F undamaged host.qemuImg) {e : DiskEntry} {r : LayerRecord}
    (hactive : e.active = some r) (hr : r.Fits F data disk)
    (hclear : ∀ q f, q <+: store.disksDir vm → w.fs.node q ≠ some (.file f))
    (hheld : Holds data w.fs r.file.path (staging ++ Path.parts r.file.path))
    (hfree : w.fs.node (store.diskFile vm disk) = none)
    (hlands : Lands F store vm disk w.fs r.parent)
    (hout : ∀ q, store.imagesDir <+: q ∨ store.vmsDir <+: q → ¬staging <+: q) :
    ∃ w', placeActive host store vm disk staging e.toJson w = (.ok (), w') ∧
      Rebuilt F undamaged data w'.fs r.file.path (ParentRef.file store vm disk r.parent)
        (store.diskFile vm disk) ∧
      (∀ q, q <+: store.disksDir vm → w'.fs.node q = some .dir) ∧
      Within (ActiveMoves store vm disk staging) w w' := by
  obtain ⟨b, hb, hsrc⟩ := hheld
  obtain ⟨b₀, l, hb₀, hl⟩ := hr.layer
  obtain rfl := Option.some.inj (hb.symm.trans hb₀)
  have hparts := hr.parts hdisk
  have hlegal : ∀ n ∈ store.disksDir vm, Path.isComponent n = true := by
    intro n hn
    simp only [DiskStore.disksDir, DiskStore.vmRoot, DiskStore.vmsDir, List.mem_append,
      List.mem_singleton] at hn
    rcases hn with ((hn | rfl) | rfl) | rfl
    · exact store.legal n hn
    · decide
    · exact isComponent_of_valid hvm
    · decide
  obtain ⟨t, hmk, hdirs, hkeep, hmade⟩ := mkdirs_within hlegal hclear
  have hsrc' := (hkeep _ (by simp [hsrc])).trans hsrc
  have hfree' : t.fs.node (store.diskFile vm disk) = none :=
    (hmade _ (not_concat_below _ _)).trans hfree
  have hname : Path.isComponent (Path.name (store.diskFile vm disk)) = true := by
    rw [DiskStore.diskFile, Path.name_concat]
    exact isComponent_qcow2 hdisk
  have hdir : t.fs.node (store.diskFile vm disk).dropLast = some .dir := by
    rw [diskFile_dir]
    exact hdirs _ List.prefix_rfl
  obtain ⟨t', hmove, hdst, hmoved⟩ := move_within hsrc' hname hdir hfree'
  -- the parent is neither staged nor in the place of the overlay
  have hlands' : Lands F store vm disk t'.fs r.parent := by
    refine hlands.step fun p hp => Or.inl ?_
    have hthere : w.fs.node p ≠ none := by
      intro hc
      have hlayer := hlands p hp
      rw [layerAt_of_none (F := F) (r := (p, "qcow2")) hc] at hlayer
      cases hlayer
    rw [hmoved p, hkeep p hthere]
    rintro (rfl | rfl)
    · exact hout _ (hr.parent.file_legal hvm hdisk hp).2 (List.prefix_append _ _)
    · exact hthere hfree
  have hlegal' : ∀ n ∈ store.diskFile vm disk, Path.isComponent n = true := by
    intro n hn
    rcases List.mem_append.mp hn with hn | hn
    · exact hlegal n hn
    · obtain rfl := List.mem_singleton.mp hn
      exact isComponent_qcow2 hdisk
  obtain ⟨w', b', hrebase, hnew, hl', hsound, hother⟩ := rebase_within hq hlegal'
    (fun t ht => (hr.parent.file_legal hvm hdisk ht).1) hdst hl hlands'
  refine ⟨w', ?_, ⟨b, b', l, 0o644, hb, hl, hnew, hl', hsound⟩, fun q hq => ?_, ?_⟩
  · have hget : pyGet e.toJson "active" = .ok r.toJson := by
      obtain ⟨active, current, snapshots⟩ := e
      obtain rfl : active = some r := hactive
      rfl
    have hindex : (pyIndex r.toJson "path" >>= pyStr) = .ok r.file.path := rfl
    have hparent : pyGet r.toJson "parent" = .ok (ParentRef.toJson r.parent) := rfl
    have hsome : Json.isNone r.toJson = false := rfl
    rw [placeActive, bind_of_ok (store.diskPath_eq_ok.mpr ⟨hvm, hdisk, rfl, rfl⟩), diskFile_dir,
      bind_of_ok hmk, fillActive, bind_of_ok (ofExcept_eq_ok.mpr ⟨hget, rfl⟩), hsome,
      Bool.not_false, if_pos rfl, bind_of_ok (ofExcept_eq_ok.mpr ⟨hindex, rfl⟩), hr.joined,
      bind_of_ok hmove, bind_of_ok (ofExcept_eq_ok.mpr ⟨hparent, rfl⟩),
      bind_of_ok (resolveParent_toJson hvm hdisk hr.parent)]
    exact hrebase
  · rw [hother q, hmoved q, hdirs q hq]
    · rintro (rfl | rfl)
      · rw [hdirs _ hq] at hsrc'
        cases hsrc'
      · exact not_concat_below _ _ hq
    · rintro rfl
      exact not_concat_below _ _ hq
  · refine ((hmade.mono fun q hq => Or.inl hq).trans (hmoved.mono ?_)).trans (hother.mono ?_)
    · rintro q (rfl | rfl)
      · exact Or.inr (Or.inr (by rw [hparts]))
      · exact Or.inr (Or.inl rfl)
    · rintro q rfl
      exact Or.inr (Or.inl rfl)

end

end VMForge.Storage
