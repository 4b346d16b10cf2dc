import VMForge.Storage.Restore.Failure

namespace VMForge.Storage

open Exec

-- Where the records of a manifest go, those of the images apart.
inductive Destination (store : DiskStore) (vm : String) (manifest : Json) : Json → Path → Prop where
  | active {items item r} (hitems : (pyIndex manifest "disks" >>= pySortedItems) = .ok items)
      (hitem : item ∈ items) (hactive : pyGet item.2 "active" = .ok r)
      (hsome : Json.isNone r = false) :
      Destination store vm manifest r (store.diskFile vm item.1)
  | snapshot {items item snaps r name}
      (hitems : (pyIndex manifest "disks" >>= pySortedItems) = .ok items) (hitem : item ∈ items)
      (hsnaps : recordsAt item.2 "snapshots" = .ok snaps) (hr : r ∈ snaps)
      (hname : pyIndex r "name" = .ok (.str name)) :
      Destination store vm manifest r (store.snapshotFile vm item.1 name)
  | config {config r arc} (hconfig : recordsAt manifest "config" = .ok config) (hr : r ∈ config)
      (harc : pyIndex r "path" = .ok (.str arc)) :
      Destination store vm manifest r (joinName (store.vmRoot vm) arc)

-- The place of a record below the staging directory.
def recordPath (r : Json) : Option Path :=
  match pyIndex r "path" with
  | .ok (.str arc) => some (Path.parts arc)
  | _ => none

-- The last of the records staged at `p`, which decides what is there.
def lastStaged (files : List Json) (p : Path) : Option Json := lastWith recordPath files p

-- `r` bears the digest of the record that its staged file was last written for.
def OwnDigest (files : List Json) (r : Json) : Prop :=
  ∀ p last, recordPath r = some p → lastStaged files p = some last →
    pyIndex r "sha256" = pyIndex last "sha256"

-- An image record whose file is missing when its turn comes.
def FirstImage {β : Type} (store : DiskStore) (fs : FileSystem β) (before : List Json) (r : Json) :
    Prop :=
  NewImage store fs r ∧
    ∀ r' ∈ before, ∀ arc arc', pyIndex r "path" = .ok (.str arc) →
      pyIndex r' "path" = .ok (.str arc') →
      joinName store.imagesDir arc' ≠ joinName store.imagesDir arc

-- The records whose staged files are put in place.
def PlacedRecord {β : Type} (store : DiskStore) (vm : String) (manifest : Json)
    (fs : FileSystem β) (r : Json) : Prop :=
  (∃ dst, Destination store vm manifest r dst) ∨
    ∃ before after, recordsAt manifest "images" = .ok (before ++ r :: after) ∧
      FirstImage store fs before r

-- `src` is moved to `dst`, or into it when it is a directory, and holds `b` then.
def Arrives {β : Type} (w w' : World β) (src dst : Path) (b : β) : Prop :=
  ∃ target, (target = dst ∨ target = dst ++ [Path.name src]) ∧
    Happened (.moved src target b) w w'

-- Every file that a call from `w` to `w'` put in place, or found there, has the digest of its
-- own record.
structure PlacesVerified {β : Type} (host : Host β) (store : DiskStore) (vm : String)
    (manifest : Json) (w w' : World β) : Prop where
  moved : ∃ s, w.fs.node (store.home ++ [stagingStem vm ++ s]) = none ∧
    ∀ r dst, Destination store vm manifest r dst → ∃ p b, recordPath r = some p ∧
      Arrives w w' (store.home ++ [stagingStem vm ++ s] ++ p) dst b ∧
      pyIndex r "sha256" = .ok (.str (host.sha256 b))
  images : ∀ images, recordsAt manifest "images" = .ok images →
    ∀ r ∈ images, Settled host store w'.fs r

section

variable {β : Type} {host : Host β} {store : DiskStore} {vm : String} {staging : Path}
  {tar : Archive β} {manifest : Json} {w w₂ w' : World β}

theorem recordPath_eq_some {r : Json} {p : Path} :
    recordPath r = some p ↔ ∃ arc, pyIndex r "path" = .ok (.str arc) ∧ Path.parts arc = p := by
  unfold recordPath
  split <;> simp_all

theorem RecordVerified.recordPath {r : Json} {p : Path} {data : β}
    (h : RecordVerified host tar r p data) : recordPath r = some p := by
  obtain ⟨arc, hsafe, rfl, -⟩ := h.member
  exact recordPath_eq_some.mpr ⟨arc, (safeArc_eq_ok.mp hsafe).1, rfl⟩

theorem RecordVerified.digest {r : Json} {p : Path} {data : β}
    (h : RecordVerified host tar r p data) :
    pyIndex r "sha256" = .ok (.str (host.sha256 data)) := by
  have hsound := h.sound
  simp only [matchesRecord, except_bind_eq_ok, Except.ok.injEq, Bool.and_eq_true,
    Json.eqStr_iff] at hsound
  obtain ⟨size, -, digest, hdigest, -, rfl⟩ := hsound
  exact pyIndex_of_pyGet hdigest rfl

-- The staged file of a record has the digest of the record exactly when it was last written for
-- a record with that digest.
theorem ownDigest_iff {files : List Json} {wa : World β}
    (hver : Verifies host tar files) (hext : Extracted host tar staging files wa) {r : Json}
    {p : Path} {b : β} (hr : recordPath r = some p) (hb : wa.fs.blob (staging ++ p) = some b) :
    pyIndex r "sha256" = .ok (.str (host.sha256 b)) ↔ OwnDigest files r := by
  obtain ⟨m, hf⟩ := (FileSystem.blob_eq_some _).mp hb
  obtain ⟨before, last, after, rfl, hlast, hafter⟩ := hext.files p _ hf
  have hstaged : lastStaged (before ++ last :: after) p = some last := by
    refine lastWith_of_split hlast.recordPath fun r' hr' hc => ?_
    obtain ⟨p', data, hv⟩ := hver.records r' (by simp [hr'])
    obtain rfl := Option.some.inj (hv.recordPath.symm.trans hc)
    exact hafter r' hr' data hv
  rw [← hlast.digest]
  constructor
  · intro h p' last' hp' hlast'
    obtain rfl := Option.some.inj (hr.symm.trans hp')
    obtain rfl := Option.some.inj (hstaged.symm.trans hlast')
    exact h
  · exact fun h => h p last hr hstaged

-- Staged files are neither made nor changed while the images and the VM are put in place.
theorem Prepared.staged_images (hp : Prepared store vm staging w w₂) {q : Path}
    (hq : staging <+: q) :
    ¬(imagesRoom β store staging).free q ∧ ∀ x, ¬(imagesRoom β store staging).fresh q x := by
  refine ⟨id, ?_⟩
  rintro x (⟨hc, -⟩ | ⟨n, f, rfl, -⟩)
  · exact hp.disjoint_images List.prefix_rfl (hq.trans hc)
  · exact hp.disjoint_images (List.prefix_append _ _) hq

theorem Prepared.staged_vm (hp : Prepared store vm staging w w₂) {q : Path}
    (hq : staging <+: q) :
    ¬(vmRoom β store vm staging).free q ∧ ∀ x, ¬(vmRoom β store vm staging).fresh q x := by
  have hroot : store.vmsDir <+: store.vmRoot vm := List.prefix_append _ _
  refine ⟨fun hc => hp.disjoint_vms (hroot.trans hc.1) hq, fun x hc => ?_⟩
  exact hp.disjoint_vms hroot (hq.trans hc.1)

theorem arrives_of_move (hp : Prepared store vm staging w w₂) {t t₁ t₂ t' : World β} {arc : String}
    {dst : Path} (h₁ : Confined (vmRoom β store vm staging) t t₁)
    (habs : Path.isAbsolute arc = false)
    (hmove : move (joinStr staging arc) dst t₁ = (.ok (), t₂))
    (h₂ : Confined (vmRoom β store vm staging) t₂ t') :
    ∃ b, t.fs.blob (staging ++ Path.parts arc) = some b ∧
      Arrives t t' (staging ++ Path.parts arc) dst b := by
  rw [joinStr_of_not_absolute staging habs] at hmove
  obtain ⟨f, hf, -, hlog, -⟩ := move_ok hmove
  obtain ⟨hfree, hfresh⟩ := hp.staged_vm (List.prefix_append staging (Path.parts arc))
  have hblob : t₁.fs.blob (staging ++ Path.parts arc) = some f.blob :=
    (FileSystem.blob_eq_some _).mpr ⟨f.mode, hf⟩
  have hb := ((h₁.blob_before hblob).resolve_left hfree).resolve_left fun ⟨x, hx⟩ => hfresh x hx
  refine ⟨f.blob, hb, moveTarget t₁.fs (staging ++ Path.parts arc) dst, ?_, ?_⟩
  · unfold moveTarget
    split
    · exact Or.inr rfl
    · exact Or.inl rfl
  · exact Happened.within ⟨_, hlog, by simp⟩ h₁.later h₂.later

theorem disk_turn {result : RestoreResult} (hst : Stages (vmRoom β store vm staging) staging w)
    (hrec : PlaceableRecords manifest)
    (h : assembleVm host store vm manifest staging w = (.ok result, w'))
    {items : List (String × Json)}
    (hitems : (pyIndex manifest "disks" >>= pySortedItems) = .ok items) {item : String × Json}
    (hitem : item ∈ items) :
    ∃ n t t', Confined (vmRoom β store vm staging) w t ∧
      assembleDisk host store vm staging item t = (.ok n, t') ∧
      Confined (vmRoom β store vm staging) t' w' := by
  obtain ⟨items', counts, config, checks, t, hitems', hdisks, hconfig, hmoves, -⟩ :=
    assembleVm_ok h
  obtain rfl := Except.ok.inj (hitems.symm.trans hitems')
  obtain ⟨ht, hturns⟩ := mapEach_turns (Confined (vmRoom β store vm staging)) (.refl _) .trans
    hdisks fun i hi _ t t' ht hbody =>
      (assembleDisk_touches (hst.step ht) (hrec.disks _ hitems i hi).1
        (hrec.disks _ hitems i hi).2).confined hbody
  obtain ⟨n, t₁, t₂, h₁, hbody, h₂⟩ := hturns item hitem
  have hconf : TouchesOnly (vmRoom β store vm staging) (forEach config (moveConfig store vm staging))
      t := .forEach fun r hr _ hw =>
    moveConfig_touches ((hst.step ht).step hw) (hrec.config _ hconfig r hr)
  exact ⟨n, t₁, t₂, h₁, hbody, h₂.trans (hconf.confined hmoves)⟩

theorem Placeable.not_absolute {r : Json} (h : Placeable r) {arc : String}
    (harc : pyIndex r "path" = .ok (.str arc)) : Path.isAbsolute arc = false :=
  (h arc (by simp [harc, pyStr])).1

theorem snapshot_turn {item : String × Json} {n : Nat}
    (hst : Stages (vmRoom β store vm staging) staging w)
    (hactive : ∀ active, pyGet item.2 "active" = .ok active → Json.isNone active = false →
      Placeable active)
    {snaps : List Json} (hl : recordsAt item.2 "snapshots" = .ok snaps)
    (hsnaps : ∀ r ∈ snaps, Placeable r)
    (h : assembleDisk host store vm staging item w = (.ok n, w')) {r : Json} (hr : r ∈ snaps) :
    ∃ name arc t t', pyIndex r "name" = .ok (.str name) ∧ pyIndex r "path" = .ok (.str arc) ∧
      Confined (vmRoom β store vm staging) w t ∧
      move (joinStr staging arc) (store.snapshotFile vm item.1 name) t = (.ok (), t') ∧
      Confined (vmRoom β store vm staging) t' w' := by
  obtain ⟨-, snaps', t₁, t₂, hl', hmoves, hrebases, hplace, -⟩ := assembleDisk_ok h
  obtain rfl := Except.ok.inj (hl.symm.trans hl')
  obtain ⟨h₁, hturns⟩ := forEach_turns (Confined (vmRoom β store vm staging)) (.refl _) .trans
    hmoves fun r hr t t' ht hbody =>
      (moveSnapshot_touches (hst.step ht) (hsnaps r hr)).confined hbody
  obtain ⟨t, t', ht, hbody, ht'⟩ := hturns r hr
  have h₂ : TouchesOnly (vmRoom β store vm staging)
      (forEach snaps (rebaseSnapshot host store vm item.1)) t₁ :=
    .forEach fun _ _ _ _ => rebaseSnapshot_touches
  have h₂' := h₂.confined hrebases
  have h₃ := (placeActive_touches ((hst.step h₁).step h₂') hactive).confined hplace
  obtain ⟨name, arc, t₀, hname, -, harc, hmk, hmove⟩ := moveSnapshot_ok hbody
  rw [snapshotFile_dropLast] at hmk
  exact ⟨name, arc, t₀, t', hname, harc, ht.trans ((vmRoom_mkdirs _).confined hmk), hmove,
    ht'.trans (h₂'.trans h₃)⟩

theorem active_turn {item : String × Json} {n : Nat} {active : Json}
    (hst : Stages (vmRoom β store vm staging) staging w)
    (hsnaps : ∀ snaps, recordsAt item.2 "snapshots" = .ok snaps → ∀ r ∈ snaps, Placeable r)
    (h : assembleDisk host store vm staging item w = (.ok n, w'))
    (hactive : pyGet item.2 "active" = .ok active) (hsome : Json.isNone active = false) :
    ∃ arc t t', pyIndex active "path" = .ok (.str arc) ∧
      Confined (vmRoom β store vm staging) w t ∧
      move (joinStr staging arc) (store.diskFile vm item.1) t = (.ok (), t') ∧
      Confined (vmRoom β store vm staging) t' w' := by
  obtain ⟨-, snaps, t₁, t₂, hl, hmoves, hrebases, hplace, -⟩ := assembleDisk_ok h
  have h₁ : TouchesOnly (vmRoom β store vm staging)
      (forEach snaps (moveSnapshot store vm item.1 staging)) w :=
    .forEach fun r hr _ ht => moveSnapshot_touches (hst.step ht) (hsnaps snaps hl r hr)
  have h₂ : TouchesOnly (vmRoom β store vm staging)
      (forEach snaps (rebaseSnapshot host store vm item.1)) t₁ :=
    .forEach fun _ _ _ _ => rebaseSnapshot_touches
  obtain ⟨t₃, hmk, hfill⟩ := placeActive_ok hplace
  rw [diskFile_dropLast] at hmk
  have h₃ := ((h₁.confined hmoves).trans (h₂.confined hrebases)).trans
    ((vmRoom_mkdirs _).confined hmk)
  cases hfill with
  | @bundled _ _ arc parentPath t₄ hactive' _ harc hmove _ _ hrebase =>
      obtain rfl := Except.ok.inj (hactive.symm.trans hactive')
      have h₄ : TouchesOnly (vmRoom β store vm staging)
          (rebase host (store.diskFile vm item.1) parentPath true) t₄ :=
        rebase_touches (diskFile_below _ vm item.1)
      exact ⟨arc, t₃, t₄, harc, h₃, hmove, h₄.confined hrebase⟩
  | fresh hactive' _ _ _ =>
      obtain rfl := Except.ok.inj (hactive.symm.trans hactive')
      cases hsome

-- Every record arrives at its destination with the content staged for it.
theorem assembleVm_arrives {result : RestoreResult} {w₀ : World β}
    (hp : Prepared store vm staging w₀ w₂) (hrec : PlaceableRecords manifest)
    (hdir : w.fs.node staging = some .dir)
    (h : assembleVm host store vm manifest staging w = (.ok result, w')) {r : Json} {dst : Path}
    (hd : Destination store vm manifest r dst) :
    ∃ p b, recordPath r = some p ∧ w.fs.blob (staging ++ p) = some b ∧
      Arrives w w' (staging ++ p) dst b := by
  have hst : Stages (vmRoom β store vm staging) staging w := stages_vmRoom hdir hp.not_above_root
  have hturn : ∀ {arc : String} {t₁ t₂ : World β}, Placeable r →
      pyIndex r "path" = .ok (.str arc) → Confined (vmRoom β store vm staging) w t₁ →
      move (joinStr staging arc) dst t₁ = (.ok (), t₂) →
      Confined (vmRoom β store vm staging) t₂ w' → ∃ p b, recordPath r = some p ∧
        w.fs.blob (staging ++ p) = some b ∧ Arrives w w' (staging ++ p) dst b := by
    intro arc t₁ t₂ hplace harc h₁ hmove h₂
    obtain ⟨b, hb, harrives⟩ := arrives_of_move hp h₁ (hplace.not_absolute harc) hmove h₂
    exact ⟨_, b, recordPath_eq_some.mpr ⟨arc, harc, rfl⟩, hb, harrives⟩
  cases hd with
  | config hconfig hr harc =>
      obtain ⟨items, counts, config', checks, t, hitems, hdisks, hconfig', hmoves, -⟩ :=
        assembleVm_ok h
      obtain rfl := Except.ok.inj (hconfig.symm.trans hconfig')
      have ht := (assembleDisks_touches hst (hrec.disks items hitems)).confined hdisks
      obtain ⟨-, hturns⟩ := forEach_turns (Confined (vmRoom β store vm staging)) (.refl _) .trans
        hmoves fun r hr t₁ t₂ h₁ hbody =>
          (moveConfig_touches ((hst.step ht).step h₁) (hrec.config _ hconfig r hr)).confined hbody
      obtain ⟨t₁, t₂, h₁, hbody, h₂⟩ := hturns r hr
      obtain ⟨arc', harc', hmove⟩ := moveConfig_ok hbody
      obtain rfl := Json.str.inj (Except.ok.inj (harc.symm.trans harc'))
      exact hturn (hrec.config _ hconfig r hr) harc (ht.trans h₁) hmove h₂
  | @active items item _ hitems hitem hactive hsome =>
      obtain ⟨n, t, t', ht, hbody, ht'⟩ := disk_turn hst hrec h hitems hitem
      obtain ⟨hplace, hsnaps⟩ := hrec.disks _ hitems _ hitem
      obtain ⟨arc, t₁, t₂, harc, h₁, hmove, h₂⟩ :=
        active_turn (hst.step ht) hsnaps hbody hactive hsome
      exact hturn (hplace _ hactive hsome) harc (ht.trans h₁) hmove (h₂.trans ht')
  | @snapshot items item snaps _ name hitems hitem hl hr hname =>
      obtain ⟨n, t, t', ht, hbody, ht'⟩ := disk_turn hst hrec h hitems hitem
      obtain ⟨hplace, hsnaps⟩ := hrec.disks _ hitems _ hitem
      obtain ⟨name', arc, t₁, t₂, hname', harc, h₁, hmove, h₂⟩ :=
        snapshot_turn (hst.step ht) hplace hl (hsnaps snaps hl) hbody hr
      obtain rfl := Json.str.inj (Except.ok.inj (hname.symm.trans hname'))
      exact hturn (hsnaps snaps hl r hr) harc (ht.trans h₁) hmove (h₂.trans ht')

-- One turn of the loop over the images, seen in their directory.
theorem placeImage_entry {w₀ : World β} (hp : Prepared store vm staging w₀ w₂) {r : Json}
    (hr : Placeable r) {u : Unit} (h : placeImage host store staging r w = (.ok u, w')) :
    ∃ arc f, pyIndex r "path" = .ok (.str arc) ∧
      w'.fs.node (joinName store.imagesDir arc) = some (.file f) ∧
      (∀ n, store.imagesDir ++ [n] ≠ joinName store.imagesDir arc →
        w'.fs.node (store.imagesDir ++ [n]) = w.fs.node (store.imagesDir ++ [n])) ∧
      (Settled host store w.fs r ∧ w' = w ∨
        NewImage store w.fs r ∧ w.fs.node (staging ++ Path.parts arc) = some (.file f)) := by
  rcases placeImage_ok hr h with ⟨hset, rfl⟩ | ⟨hnew, arc, t, harc, hmk, hmove⟩
  · obtain ⟨arc, f, digest, harc, hf, -⟩ := id hset
    simp only [except_bind_eq_ok, pyStr_eq_ok] at harc
    obtain ⟨_, harc, rfl⟩ := harc
    exact ⟨arc, f, harc, hf, fun _ _ => rfl, Or.inl ⟨hset, rfl⟩⟩
  · have harc' : (pyIndex r "path" >>= pyStr) = .ok arc := by simp [harc, pyStr]
    obtain ⟨n, hname⟩ := hr.joinName harc' store.imagesDir
    obtain ⟨arc', harc'', hnone⟩ := id hnew
    obtain rfl := Except.ok.inj (harc'.symm.trans harc'')
    rw [joinStr_of_not_absolute staging (hr.not_absolute harc)] at hmove
    have hentry : ∀ m, t.fs.node (store.imagesDir ++ [m]) = w.fs.node (store.imagesDir ++ [m]) :=
      fun m => (mkdirs_ok hmk).2 _ (not_concat_below _ _)
    have htarget : moveTarget t.fs (staging ++ Path.parts arc) (joinName store.imagesDir arc) =
        joinName store.imagesDir arc := by
      apply moveTarget_of_not_dir
      rw [hname, hentry, ← hname, hnone]
      simp
    obtain ⟨f, hf, -, -, hnode⟩ := move_ok hmove
    rw [htarget] at hnode
    have hsrc : w.fs.node (staging ++ Path.parts arc) = some (.file f) := by
      have hnot : ¬staging ++ Path.parts arc <+: store.imagesDir := fun hc =>
        hp.disjoint_images List.prefix_rfl ((List.prefix_append _ _).trans hc)
      rw [← (mkdirs_ok hmk).2 _ hnot, hf]
    refine ⟨arc, f, harc, by rw [hnode, if_pos rfl], fun m hm => ?_, Or.inr ⟨hnew, hsrc⟩⟩
    have hne : store.imagesDir ++ [m] ≠ staging ++ Path.parts arc := fun he =>
      hp.disjoint_images (List.prefix_append _ [m]) (he ▸ List.prefix_append _ _)
    rw [hnode, if_neg hm, if_neg hne, hentry]

-- An image that was in place has its own digest; one that was not has the staged content.
theorem placeImages_met {before after : List Json} {r : Json} {w₀ : World β}
    (hp : Prepared store vm staging w₀ w₂) (hdir : w.fs.node staging = some .dir)
    (hplace : ∀ r' ∈ before ++ r :: after, Placeable r')
    (h : forEach (before ++ r :: after) (placeImage host store staging) w = (.ok (), w')) :
    (Settled host store w'.fs r ∧ ¬FirstImage store w.fs before r) ∨
      (FirstImage store w.fs before r ∧ ∃ arc f, pyIndex r "path" = .ok (.str arc) ∧
        w.fs.blob (staging ++ Path.parts arc) = some f.blob ∧
        w'.fs.node (joinName store.imagesDir arc) = some (.file f)) := by
  have hst : Stages (imagesRoom β store staging) staging w := stages_imagesRoom hdir
  have htouch : ∀ {t : World β} {records : List Json}, (∀ r' ∈ records, Placeable r') →
      Confined (imagesRoom β store staging) w t →
      TouchesOnly (imagesRoom β store staging) (forEach records (placeImage host store staging)) t :=
    fun hsub ht => .forEach fun r' hr' _ hw =>
      placeImage_touches ((hst.step ht).step hw).dir (hsub r' hr')
  rw [forEach_append, bind_eq_ok] at h
  obtain ⟨_, t, hbefore, h⟩ := h
  rw [forEach_cons, bind_eq_ok] at h
  obtain ⟨_, t', hturn, hafter⟩ := h
  have hr : Placeable r := hplace r (by simp)
  have hpb : ∀ r' ∈ before, Placeable r' := fun r' hr' => hplace r' (by simp [hr'])
  have hpa : ∀ r' ∈ after, Placeable r' := fun r' hr' => hplace r' (by simp [hr'])
  have ht := (htouch hpb (.refl _ _)).confined hbefore
  have ht' := (placeImage_touches (hst.step ht).dir hr).confined hturn
  have hw' := (htouch hpa (ht.trans ht')).confined hafter
  -- what is in the directory stays there
  have hkeep : ∀ {u u' : World β} {n : String}, Confined (imagesRoom β store staging) u u' →
      u.fs.node (store.imagesDir ++ [n]) ≠ none →
      u'.fs.node (store.imagesDir ++ [n]) = u.fs.node (store.imagesDir ++ [n]) :=
    fun hu hn => hu.keep id (fun hc => hp.disjoint_images (List.prefix_append _ _) hc.1) hn
  obtain ⟨arc, f, harc, hfile, -, hcase⟩ := placeImage_entry hp hr hturn
  have harc' : (pyIndex r "path" >>= pyStr) = .ok arc := by simp [harc, pyStr]
  obtain ⟨n, hname⟩ := hr.joinName harc' store.imagesDir
  rcases hcase with ⟨hset, rfl⟩ | ⟨hnew, hsrc⟩
  · refine Or.inl ⟨hset.mono hr fun m => hkeep hw', fun hfirstNew => ?_⟩
    obtain ⟨⟨arc', harc'', hnone⟩, hfirst⟩ := hfirstNew
    obtain rfl := Except.ok.inj (harc'.symm.trans harc'')
    have hsame : t'.fs.node (store.imagesDir ++ [n]) = w.fs.node (store.imagesDir ++ [n]) := by
      refine (forEach_turns (fun u u' : World β => u'.fs.node (store.imagesDir ++ [n]) =
        u.fs.node (store.imagesDir ++ [n])) (fun _ => rfl) (fun h h' => h'.trans h) hbefore
        fun r' hr' u u' _ hbody => ?_).1
      obtain ⟨arc'', f', harc'', -, hother, -⟩ := placeImage_entry hp (hpb r' hr') hbody
      exact hother n fun he => hfirst r' hr' arc arc'' harc harc'' (he.symm.trans hname.symm)
    rw [hname, hsame, ← hname, hnone] at hfile
    cases hfile
  · obtain ⟨arc', harc'', hnone⟩ := id hnew
    obtain rfl := Except.ok.inj (harc'.symm.trans harc'')
    rw [hname] at hnone
    have hnew' : NewImage store w.fs r := by
      refine ⟨arc, harc', ?_⟩
      by_contra hc
      rw [hname] at hc
      rw [hkeep ht hc] at hnone
      exact hc hnone
    have hblob : w.fs.blob (staging ++ Path.parts arc) = some f.blob := by
      obtain ⟨hfree, hfresh⟩ := hp.staged_images (List.prefix_append staging (Path.parts arc))
      have hb := (FileSystem.blob_eq_some _).mpr ⟨f.mode, hsrc⟩
      apply ((ht.blob_before hb).resolve_left hfree).resolve_left
      rintro ⟨x, hx⟩
      exact hfresh x hx
    refine Or.inr ⟨⟨hnew', fun r' hr' arc₁ arc' harc₁ hr'arc he => ?_⟩, arc, f, harc, hblob, ?_⟩
    · obtain rfl := Json.str.inj (Except.ok.inj (harc.symm.trans harc₁))
      obtain ⟨-, hturns⟩ := forEach_turns (Confined (imagesRoom β store staging)) (.refl _) .trans
        hbefore fun r' hr' u u' hu hbody =>
          (placeImage_touches (hst.step hu).dir (hpb r' hr')).confined hbody
      obtain ⟨u, u', -, hbody, hu'⟩ := hturns r' hr'
      obtain ⟨arc₂, f', harc₂, hf', -⟩ := placeImage_entry hp (hpb r' hr') hbody
      obtain rfl := Json.str.inj (Except.ok.inj (hr'arc.symm.trans harc₂))
      rw [he, hname] at hf'
      rw [hkeep hu' (by simp [hf']), hf'] at hnone
      cases hnone
    · rw [hname] at hfile ⊢
      rw [hkeep hw' (by simp [hfile]), hfile]

section

variable {result : RestoreResult} {wa wb wc w₃ : World β}
  (h : Completed host store tar vm manifest staging result w w₂ wa wb wc w₃ w')

include h

theorem Completed.assembling_all : Confined (placingRoom β store vm staging) wa w₃ :=
  (imagesRoom_le h.placing).trans (h.clearing.trans (vmRoom_le h.assembling))

-- What was moved into the VM from anything called like a staging directory is what the archive
-- held.
theorem Completed.moved_staged {s : String} {p target : Path} {b : β}
    (hmove : Happened (.moved (store.home ++ [stagingStem vm ++ s] ++ p) target b) w w')
    (htarget : store.vmRoot vm <+: target) :
    wa.fs.blob (store.home ++ [stagingStem vm ++ s] ++ p) = some b := by
  have hvms : store.home ++ ["vms", vm] <+: target := by
    simpa [DiskStore.vmRoot, DiskStore.vmsDir, List.append_assoc] using htarget
  have hto : (Event.moved (store.home ++ [stagingStem vm ++ s] ++ p) target b).Touches target :=
    Or.inr rfl
  have hhome : ¬target <+: store.home := fun hc => by
    simpa using (hvms.trans hc).length_le
  have hout : ¬staging <+: target := fun hc =>
    h.prepared.disjoint_vms ((List.prefix_append _ _).trans htarget) hc
  -- nothing is moved into the VM before the archive is extracted
  have hafter : Happened (.moved (store.home ++ [stagingStem vm ++ s] ++ p) target b) wa w' := by
    have hlater := h.assembling_all.later.trans h.cleaning.later
    rcases hmove.split h.prepared.confined.later (h.extracting.later.trans hlater) with hm | hm
    · rcases hm.touched h.prepared.confined hto with ⟨s', hc⟩ | hc | ⟨-, x, hc, -⟩
      · exact absurd hc (staging_disjoint "vms" [vm] (by decide) hvms)
      · exact hc.elim
      · exact absurd hc hhome
    · refine (hm.split h.extracting.later hlater).resolve_left fun hm => ?_
      rcases hm.touched h.extracting hto with hc | hc | ⟨-, x, hc⟩
      · exact hout hc.1
      · exact hc
      · exact hc
  -- nor after the VM is assembled
  have hbody : Happened (.moved (store.home ++ [stagingStem vm ++ s] ++ p) target b) wa w₃ := by
    refine (hafter.split h.assembling_all.later h.cleaning.later).resolve_right fun hm => ?_
    rcases hm.touched h.cleaning hto with hc | hc | ⟨-, x, hc⟩
    · exact hout hc
    · exact hc
    · exact hc
  have hsrc : store.home ++ [stagingStem vm ++ s] <+: store.home ++ [stagingStem vm ++ s] ++ p :=
    List.prefix_append _ _
  rcases hbody.moved_blob h.assembling_all with hc | ⟨x, hc⟩ | hb
  · refine absurd hsrc (staging_disjoint "vms" [vm] (by decide) ?_)
    simpa [placingRoom, DiskStore.vmRoot, DiskStore.vmsDir, List.append_assoc] using hc
  · have himages : ∀ q, store.imagesDir <+: q → ¬store.home ++ [stagingStem vm ++ s] <+: q :=
      fun q hq => staging_disjoint "images" [] (by decide) hq
    rcases hc with ⟨hc | hc, -⟩ | ⟨n, f, hc, -⟩
    · exact absurd (hsrc.trans hc) (himages _ List.prefix_rfl)
    · exact absurd (hsrc.trans hc)
        (staging_disjoint "vms" [] (by decide) List.prefix_rfl)
    · exact absurd hsrc (hc ▸ himages _ (List.prefix_append _ _))
  · exact hb

-- A staging directory with something in it is the one of the call.
theorem Completed.staging_eq {s : String} {p : Path} {b : β}
    (hnew : w.fs.node (store.home ++ [stagingStem vm ++ s]) = none)
    (hb : wa.fs.blob (store.home ++ [stagingStem vm ++ s] ++ p) = some b) :
    store.home ++ [stagingStem vm ++ s] = staging := by
  by_contra hne
  have hsome : wa.fs.node (store.home ++ [stagingStem vm ++ s]) ≠ none := by
    intro hc
    have hbelow := wa.fs.none_of_below (List.prefix_append _ p) hc
    rw [FileSystem.blob, hbelow] at hb
    cases hb
  refine hsome ?_
  have hnot : ¬Below staging (store.home ++ [stagingStem vm ++ s]) := by
    obtain ⟨s', rfl⟩ := h.prepared.name
    exact fun hc => hne (hc.1.eq_of_length (by simp)).symm
  rw [h.extracting.same hnot id fun _ hc => hc,
    h.prepared.same _ (not_concat_below _ _) hne, hnew]

omit h in
theorem Destination.below {r : Json} {dst : Path} (hd : Destination store vm manifest r dst) :
    store.vmRoot vm <+: dst := by
  cases hd with
  | active => exact (diskFile_below _ vm _).1
  | snapshot => exact (snapshotFile_below _ vm _ _).1
  | config =>
      rename_i arc _ _ _
      rcases joinName_cases (store.vmRoot vm) arc with hc | ⟨n, hc⟩
      · rw [hc]
      · rw [hc]
        exact List.prefix_append _ _

-- An image stays as it was when the images were placed.
theorem Completed.image_after (n : String) :
    w'.fs.node (store.imagesDir ++ [n]) = wb.fs.node (store.imagesDir ++ [n]) := by
  have hout := outside_images h.prepared (List.prefix_append store.imagesDir [n])
  have hroot : ¬store.imagesDir ++ [n] <+: store.vmRoot vm := by
    intro hc
    have himages : store.home ++ ["images", n] <+: store.vmRoot vm := by
      simpa [DiskStore.imagesDir] using hc
    have hvms : store.home ++ ["vms", vm] <+: store.vmRoot vm := by
      simp [DiskStore.vmRoot, DiskStore.vmsDir]
    exact absurd (entry_eq himages hvms) (by decide)
  rw [h.cleaning.same hout.staging id fun _ => id, h.assembling.same (fun hc => hout.root hc.1)
    (fun hc => hout.staging hc.1) fun _ hc => hroot hc.1, h.cleared, if_neg hout.root]

theorem Completed.image_before (n : String) :
    wa.fs.node (store.imagesDir ++ [n]) = w.fs.node (store.imagesDir ++ [n]) :=
  extract_outside h.prepared h.extracted
    (outside_images h.prepared (List.prefix_append store.imagesDir [n]))

theorem Completed.images_met {before after : List Json} {r : Json}
    (himages : recordsAt manifest "images" = .ok (before ++ r :: after)) :
    Placeable r ∧ ((Settled host store w'.fs r ∧ ¬FirstImage store w.fs before r) ∨
      (FirstImage store w.fs before r ∧ ∃ arc f, pyIndex r "path" = .ok (.str arc) ∧
        wa.fs.blob (staging ++ Path.parts arc) = some f.blob ∧
        w'.fs.node (joinName store.imagesDir arc) = some (.file f))) := by
  have hplace := h.records.images _ himages
  have hr : Placeable r := hplace r (by simp)
  have hloop := (placeImages_eq himages).symm.trans h.placed
  have hfirst : FirstImage store wa.fs before r ↔ FirstImage store w.fs before r :=
    and_congr_left' ⟨.congr hr fun n => (h.image_before n).symm, .congr hr h.image_before⟩
  rw [← hfirst]
  rcases placeImages_met h.prepared h.dir_extracted hplace hloop with ⟨hset, hnot⟩ |
    ⟨hnew, arc, f, harc, hblob, hfile⟩
  · exact ⟨hr, Or.inl ⟨hset.congr hr h.image_after, hnot⟩⟩
  · obtain ⟨n, hname⟩ := hr.joinName (pyIndexStr_eq_ok.mpr harc) store.imagesDir
    refine ⟨hr, Or.inr ⟨hnew, arc, f, harc, hblob, ?_⟩⟩
    rw [hname] at hfile ⊢
    rw [h.image_after, hfile]

-- From what arrived, to the records.
theorem Completed.ownDigest_of_placed {files : List Json} (hver : Verifies host tar files)
    (hext : Extracted host tar staging files wa)
    (hplaces : PlacesVerified host store vm manifest w w') {r : Json}
    (hr : PlacedRecord store vm manifest w.fs r) : OwnDigest files r := by
  rcases hr with ⟨dst, hd⟩ | ⟨before, after, himages, hfirst⟩
  · obtain ⟨s, hnew, hmoved⟩ := hplaces.moved
    obtain ⟨p, b, hp, ⟨target, htarget, hhappened⟩, hdigest⟩ := hmoved r dst hd
    have hbelow : store.vmRoot vm <+: target := by
      rcases htarget with rfl | rfl
      · exact hd.below
      · exact hd.below.trans (List.prefix_append _ _)
    have hb := h.moved_staged hhappened hbelow
    rw [h.staging_eq hnew hb] at hb
    exact (ownDigest_iff hver hext hp hb).mp hdigest
  · obtain ⟨-, ⟨-, hnot⟩ | ⟨-, arc, f, harc, hblob, hfile⟩⟩ := h.images_met himages
    · exact absurd hfirst hnot
    · obtain ⟨arc', f', digest, harc', hf', hdigest, heq⟩ := hplaces.images _ himages r (by simp)
      obtain rfl := Json.str.inj (Except.ok.inj (harc.symm.trans (pyIndexStr_eq_ok.mp harc')))
      obtain rfl := Node.file.inj (Option.some.inj (hf'.symm.trans hfile))
      rw [Json.eqStr_iff.mp heq] at hdigest
      exact (ownDigest_iff hver hext (recordPath_eq_some.mpr ⟨arc, harc, rfl⟩) hblob).mp hdigest

-- From the records, to what arrives.
theorem Completed.placed_of_ownDigest {files : List Json} (hver : Verifies host tar files)
    (hext : Extracted host tar staging files wa)
    (hown : ∀ r, PlacedRecord store vm manifest w.fs r → OwnDigest files r) :
    PlacesVerified host store vm manifest w w' := by
  refine ⟨?_, fun images himages r hr => ?_⟩
  · obtain ⟨s, hs⟩ := h.prepared.name
    refine ⟨s, hs ▸ h.prepared.new, fun r dst hd => ?_⟩
    obtain ⟨p, b, hp, hb, target, htarget, hhappened⟩ :=
      assembleVm_arrives h.prepared h.records h.dir_cleared h.assembled hd
    have hba : wa.fs.blob (staging ++ p) = some b := by
      have hq : staging <+: staging ++ p := List.prefix_append _ _
      obtain ⟨hfree, hfresh⟩ := h.prepared.staged_images hq
      have hbb : wb.fs.blob (staging ++ p) = some b := by
        have hnot : ¬store.vmRoot vm <+: staging ++ p := fun hc =>
          h.prepared.disjoint_vms ((List.prefix_append _ [vm]).trans hc) hq
        rw [← hb]
        exact FileSystem.blob_congr _ (by rw [h.cleared, if_neg hnot])
      exact ((h.placing.blob_before hbb).resolve_left hfree).resolve_left fun ⟨x, hx⟩ => hfresh x hx
    refine ⟨p, b, hp, ⟨target, hs ▸ htarget, ?_⟩,
      (ownDigest_iff hver hext hp hba).mpr (hown r (Or.inl ⟨dst, hd⟩))⟩
    rw [← hs]
    refine hhappened.within ?_ h.cleaning.later
    exact h.prepared.confined.later.trans (h.extracting.later.trans
      (h.placing.later.trans h.clearing.later))
  · obtain ⟨before, after, rfl⟩ := List.append_of_mem hr
    obtain ⟨hplace, ⟨hset, -⟩ | ⟨hfirst, arc, f, harc, hblob, hfile⟩⟩ := h.images_met himages
    · exact hset
    · have hdigest := (ownDigest_iff hver hext (recordPath_eq_some.mpr ⟨arc, harc, rfl⟩) hblob).mpr
        (hown r (Or.inr ⟨before, after, himages, hfirst⟩))
      exact ⟨arc, f, _, pyIndexStr_eq_ok.mpr harc, hfile, hdigest, Json.eqStr_iff.mpr rfl⟩

end

-- A restore that returns has put every file in place with the digest of its own record exactly
-- when no record it places was staged over by a later record with another digest.
theorem restore_verified_iff {bundlePath : Path} {asVm : Option String} {force : Bool}
    {result : RestoreResult}
    (h : restore host store bundlePath asVm force w = (.ok result, w')) :
    ∃ tar manifest vm files, Opens host bundlePath asVm w.fs tar manifest vm ∧
      manifestFiles manifest = .ok files ∧
      (PlacesVerified host store vm manifest w w' ↔
        ∀ r, PlacedRecord store vm manifest w.fs r → OwnDigest files r) := by
  rcases openBundle_error_or_opens host bundlePath asVm w with
    ⟨e, hclosed⟩ | ⟨tar, manifest, vm, hopen⟩
  · rw [restore_of_closed hclosed] at h
    cases h
  obtain ⟨staging, w₂, wa, wb, wc, w₃, hrun⟩ := restore_completed hopen h
  obtain ⟨files, hfiles, hver, hext⟩ :=
    extractVerified_ok hrun.prepared.dir hrun.prepared.empty hrun.extracted
  exact ⟨tar, manifest, vm, files, hopen, hfiles,
    fun hplaces r hr => hrun.ownDigest_of_placed hver hext hplaces hr,
    hrun.placed_of_ownDigest hver hext⟩

end

-- Two image records for one path below the staging directory, in two spellings.
def restagedRecord (path text : String) : Json :=
  .obj [("path", .str path), ("size", .int text.length), ("sha256", .str ("text " ++ text))]

def restagedManifest : Json :=
  .obj [("schema_version", .int 1), ("vm", .str "web"), ("disks", .obj []),
    ("images", .arr [restagedRecord "base.qcow2" "old", restagedRecord "./base.qcow2" "new"])]

def restagedWorld : World Blob :=
  Memory.world [(["b.tar"], Memory.plain (.archive [⟨"manifest.json", .file (.json restagedManifest)⟩,
    ⟨"base.qcow2", .file (.text "old")⟩, ⟨"./base.qcow2", .file (.text "new")⟩])), (["srv"], .dir)]

-- The second record is verified over the first, and the first one's image is put in place with
-- the content of the second.
theorem restore_restaged_places_other :
    let run := restore (memoryHost []) demoStore ["b.tar"] none false restagedWorld
    run.1.isOk = true ∧
      ¬PlacesVerified (memoryHost []) demoStore "web" restagedManifest restagedWorld run.2 := by
  refine ⟨by decide, fun h => ?_⟩
  have himages : recordsAt restagedManifest "images" =
    .ok [restagedRecord "base.qcow2" "old", restagedRecord "./base.qcow2" "new"] := rfl
  obtain ⟨arc, f, digest, harc, hf, hdigest, heq⟩ := h.images _ himages _ List.mem_cons_self
  have harc' : (pyIndex (restagedRecord "base.qcow2" "old") "path" >>= pyStr) = .ok "base.qcow2" :=
    rfl
  have hdigest' : pyIndex (restagedRecord "base.qcow2" "old") "sha256" = .ok (.str "text old") :=
    rfl
  obtain rfl := Except.ok.inj (harc'.symm.trans harc)
  obtain rfl := Except.ok.inj (hdigest'.symm.trans hdigest)
  have hplaced : ((restore (memoryHost []) demoStore ["b.tar"] none false restagedWorld).2.fs.blob
      (joinName demoStore.imagesDir "base.qcow2")).map (memoryHost []).sha256 = some "text new" := by
    decide
  rw [FileSystem.blob, hf] at hplaced
  have hnew : (memoryHost []).sha256 f.blob = "text new" := Option.some.inj hplaced
  have hold := Json.eqStr_iff.mp heq
  rw [hnew] at hold
  exact absurd (Json.str.inj hold) (by decide)

theorem restore_verified_restaged :
    ∃ tar manifest vm files,
      Opens (memoryHost []) ["b.tar"] none restagedWorld.fs tar manifest vm ∧
        manifestFiles manifest = .ok files ∧
        (PlacesVerified (memoryHost []) demoStore vm manifest restagedWorld
            (restore (memoryHost []) demoStore ["b.tar"] none false restagedWorld).2 ↔
          ∀ r, PlacedRecord demoStore vm manifest restagedWorld.fs r → OwnDigest files r) := by
  obtain ⟨result, hresult⟩ := eq_ok_of_isOk
    (x := restore (memoryHost []) demoStore ["b.tar"] none false restagedWorld) (by decide)
  exact restore_verified_iff hresult

end VMForge.Storage
