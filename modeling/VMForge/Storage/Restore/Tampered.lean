import VMForge.Storage.Backup.Lemmas
import VMForge.Storage.Memory
import VMForge.Storage.Restore.Extract
import VMForge.Storage.Restore.Theorems

namespace VMForge.Storage

open Exec

-- What `restore` reads of a record.
structure Stands (j : Json) (r : FileRecord) : Prop where
  path : pyGet j "path" = .ok (.str r.path)
  sha256 : pyGet j "sha256" = .ok (.str r.sha256)
  size : pyGet j "size" = .ok (.int r.size)

theorem stands_file (r : FileRecord) : Stands r.toJson r := ⟨rfl, rfl, rfl⟩

theorem stands_layer (r : LayerRecord) : Stands r.toJson r.file := ⟨rfl, rfl, rfl⟩

theorem stands_snapshot (r : SnapshotRecord) : Stands r.toJson r.layer.file := ⟨rfl, rfl, rfl⟩

theorem sectionFiles_toJson {e : DiskEntry} {files : List Json}
    (h : sectionFiles e.toJson = .ok files) : ∀ j ∈ files, ∃ r ∈ e.records, Stands j r := by
  obtain ⟨active, snaps, hactive, hsnaps, rfl⟩ := sectionFiles_eq_ok h
  have hactive' : (e.active.map LayerRecord.toJson).getD .null = active := Except.ok.inj hactive
  have hsnaps' : e.snapshots.map SnapshotRecord.toJson = snaps := Except.ok.inj hsnaps
  have hsnap : ∀ j ∈ snaps, ∃ r ∈ e.records, Stands j r := by
    intro j hj
    rw [← hsnaps'] at hj
    obtain ⟨snap, hmem, rfl⟩ := List.mem_map.mp hj
    refine ⟨snap.layer.file, ?_, stands_snapshot snap⟩
    exact List.mem_map_of_mem (List.mem_append_right _ (List.mem_map_of_mem hmem))
  intro j hj
  split at hj
  · exact hsnap j hj
  · rename_i hnone
    rcases List.mem_cons.mp hj with rfl | hj
    · cases hlayer : e.active with
      | none =>
          rw [hlayer] at hactive'
          subst hactive'
          exact absurd rfl hnone
      | some layer =>
          rw [hlayer] at hactive'
          subst hactive'
          refine ⟨layer.file, ?_, stands_layer layer⟩
          exact List.mem_map_of_mem (List.mem_append_left _ (by simp [hlayer]))
    · exact hsnap j hj

-- The records `restore` verifies are those `backup` has made.
theorem manifestFiles_toJson {m : Manifest} {files : List Json}
    (h : manifestFiles m.toJson = .ok files) : ∀ j ∈ files, ∃ r ∈ m.records, Stands j r := by
  simp only [manifestFiles, except_bind_eq_ok, Except.ok.injEq] at h
  obtain ⟨disks, hdisks, sections, hsections, perDisk, hper, imagesList, hil, images, hi,
    configList, hcl, config, hc, rfl⟩ := h
  obtain rfl : Json.obj (m.disks.map fun d => (d.1, d.2.toJson)) = disks := Except.ok.inj hdisks
  obtain rfl : Json.arr (m.images.map FileRecord.toJson) = imagesList := Except.ok.inj hil
  obtain rfl : m.images.map FileRecord.toJson = images := Except.ok.inj hi
  obtain rfl : Json.arr (m.config.map FileRecord.toJson) = configList := Except.ok.inj hcl
  obtain rfl : m.config.map FileRecord.toJson = config := Except.ok.inj hc
  obtain rfl := Except.ok.inj hsections
  intro j hj
  simp only [List.mem_append, List.mem_flatten] at hj
  rcases hj with (⟨files, hfiles, hj⟩ | hj) | hj
  · obtain ⟨diskSection, hsec, hrun⟩ := forall₂_mem_right (mapM_eq_ok hper) hfiles
    obtain ⟨field, hfield, rfl⟩ := List.mem_map.mp hsec
    obtain ⟨d, hd, rfl⟩ := List.mem_map.mp (Json.mem_dict hfield)
    obtain ⟨r, hr, hstands⟩ := sectionFiles_toJson hrun j hj
    refine ⟨r, ?_, hstands⟩
    simp only [Manifest.records, List.mem_append, List.mem_flatMap]
    exact Or.inl (Or.inl ⟨d, hd, hr⟩)
  · obtain ⟨r, hr, rfl⟩ := List.mem_map.mp hj
    exact ⟨r, by simp [Manifest.records, hr], stands_file r⟩
  · obtain ⟨r, hr, rfl⟩ := List.mem_map.mp hj
    exact ⟨r, by simp [Manifest.records, hr], stands_file r⟩

section

variable {β : Type}

-- `tarfile` reads back the files it has written, under names that a member can have.
def KeepsArchives (host : Host β) : Prop :=
  ∀ compressed members, (∀ m ∈ members, Path.isAbsolute m.1 = false ∧ '\x00' ∉ m.1.toList) →
    host.tarOpen (host.tarWrite compressed members) =
      .ok ⟨members.map fun m => ⟨m.1, .file m.2⟩, none⟩

-- `json` reads back a manifest it has written.
def KeepsManifests (host : Host β) : Prop :=
  ∀ m : Manifest, host.jsonLoads (host.jsonDumps m.toJson) = .ok m.toJson

-- No two different files that the archives have under one name have the same digest.
def CollisionFree (host : Host β) (tar tar' : Archive β) : Prop :=
  ∀ arc data data', tar.openMember arc = .ok (data, none) → tar'.openMember arc = .ok (data', none) →
    host.sha256 data = host.sha256 data' → data = data'

-- A bundle as `restore` opens it.
def bundleArchive (manifest : β) (members : List (String × β)) : Archive β :=
  ⟨(("manifest.json", manifest) :: members).map fun m => ⟨m.1, .file m.2⟩, none⟩

section

variable {host : Host β} {m : Manifest} {members : List (String × β)} {manifest : β}

theorem openMember_unique {all : List (String × β)} {k : String} {b : β}
    (hnodup : (all.map Prod.fst).Nodup) (hmem : (k, b) ∈ all) (hk : rstripSlash k = k) :
    (⟨all.map fun m => ⟨m.1, .file m.2⟩, none⟩ : Archive β).openMember k = .ok (b, none) := by
  have hfind : (all.map fun m : String × β => (⟨m.1, .file m.2⟩ : Member β)).reverse.find?
      (fun member => member.name = rstripSlash k) = some ⟨k, .file b⟩ := by
    rw [hk, ← List.map_reverse, List.find?_map]
    cases hx : all.reverse.find? ((fun member : Member β => decide (member.name = k)) ∘
        fun m => ⟨m.1, .file m.2⟩) with
    | none =>
        have hnone := List.find?_eq_none.mp hx (k, b) (List.mem_reverse.mpr hmem)
        simp at hnone
    | some x =>
        have hname : x.1 = k := by simpa using List.find?_some hx
        have hx' := List.mem_reverse.mp (List.mem_of_find?_eq_some hx)
        obtain rfl := List.inj_on_of_nodup_map hnodup hx' hmem hname
        rfl
  simp only [Archive.openMember, Archive.getMember, hfind]
  rfl

theorem BundleOf.names_nodup (h : BundleOf host m members) (manifest : β) :
    ((("manifest.json", manifest) :: members).map Prod.fst).Nodup := by
  rw [List.map_cons, List.nodup_cons]
  refine ⟨fun hc => ?_, h.nodup⟩
  obtain ⟨member, hmem, he⟩ := List.mem_map.mp hc
  exact (h.bundled member hmem).ne_manifest he

theorem BundleOf.openMember (h : BundleOf host m members) (head : β) {r : FileRecord}
    (hr : r ∈ m.records) :
    ∃ b, (bundleArchive head members).openMember r.path = .ok (b, none) ∧
      r.sha256 = host.sha256 b ∧ r.size = host.byteSize b := by
  obtain ⟨b, hmem, hsum⟩ := h.records r hr
  exact ⟨b, openMember_unique (h.names_nodup head) (List.mem_cons_of_mem _ hmem)
    (h.bundled _ hmem).trimmed, hsum⟩

theorem BundleOf.openManifest (h : BundleOf host m members) :
    (bundleArchive manifest members).openMember "manifest.json" = .ok (manifest, none) :=
  openMember_unique (h.names_nodup manifest) List.mem_cons_self (by decide)

theorem BundleOf.tarOpen (h : BundleOf host m members) (htar : KeepsArchives host)
    (compressed : Bool) : host.tarOpen (host.tarWrite compressed
      (("manifest.json", manifest) :: members)) = .ok (bundleArchive manifest members) := by
  refine htar compressed _ fun member hmem => ?_
  rcases List.mem_cons.mp hmem with rfl | hmem
  · have habs : Path.isAbsolute "manifest.json" = false := by decide
    have hnull : '\x00' ∉ "manifest.json".toList := by decide
    exact ⟨habs, hnull⟩
  · exact ⟨(h.bundled member hmem).relative, (h.bundled member hmem).plain⟩

end

section

variable {host : Host β} {store : DiskStore} {staging : Path} {tar tar' : Archive β}
  {manifest : Json} {w w' : World β}

-- A turn depends on the archive by the member it opens alone.
theorem extractRecord_congr {j : Json} {arc : String} (harc : pyGet j "path" = .ok (.str arc))
    (hopen : tar.openMember arc = tar'.openMember arc) :
    extractRecord host tar staging j = extractRecord host tar' staging j := by
  have hsafe : ∀ a, safeArc j = .ok a → a = arc := by
    intro a ha
    have hpath := pyGet_of_pyIndex (safeArc_eq_ok.mp ha).1
    simpa [harc] using hpath.symm
  funext w
  rw [extractRecord, extractRecord]
  cases hs : safeArc j with
  | error e => rfl
  | ok a =>
      obtain rfl := hsafe a hs
      simp only [bind_of_ok ofExcept_ok, hopen]

-- A member that passes is the genuine one.
theorem extractRecord_genuine {j : Json} {r : FileRecord} {b : β} (hj : Stands j r)
    (hsha : CollisionFree host tar tar') (hopen : tar'.openMember r.path = .ok (b, none))
    (hsum : r.sha256 = host.sha256 b) {u : Unit}
    (h : extractRecord host tar staging j w = (.ok u, w')) :
    extractRecord host tar staging j = extractRecord host tar' staging j := by
  simp only [extractRecord, bind_eq_ok, ofExcept_eq_ok] at h
  obtain ⟨arc, _, ⟨hsafe, rfl⟩, ⟨data, fault⟩, _, ⟨hmember, rfl⟩, _, t, -, _, t', -, hend⟩ := h
  obtain rfl : arc = r.path := by
    have hpath := pyGet_of_pyIndex (safeArc_eq_ok.mp hsafe).1
    simpa [hj.path] using hpath.symm
  have hmember' := orRaise_eq_ok.mp hmember
  cases fault with
  | some e => simp at hend
  | none =>
      simp only [bind_eq_ok, ofExcept_eq_ok, raiseIf_eq_ok] at hend
      obtain ⟨verified, _, ⟨hsound, rfl⟩, htrue, -⟩ := hend
      have hdigest : host.sha256 data = r.sha256 := by
        simp only [matchesRecord, hj.sha256, hj.size, except_bind_eq_ok, Except.ok.injEq] at hsound
        obtain ⟨_, rfl, _, rfl, hv⟩ := hsound
        simp_all [Json.eqStr]
      obtain rfl := hsha _ data b hmember' hopen (hdigest.trans hsum)
      exact extractRecord_congr hj.path (hmember'.trans hopen.symm)

theorem forEach_same {γ : Type} {as : List γ} {body body' : γ → Run β Unit}
    (hbody : ∀ a ∈ as, ∀ t t', body a t = (.ok (), t') → body a = body' a) {u : Unit}
    (h : forEach as body w = (.ok u, w')) : forEach as body' w = (.ok u, w') := by
  induction as generalizing w with
  | nil => exact h
  | cons a as ih =>
      simp only [forEach_cons, bind_eq_ok] at h
      obtain ⟨_, t, ha, hrest⟩ := h
      rw [forEach_cons, ← hbody a List.mem_cons_self w t ha, bind_of_ok ha]
      exact ih (fun c hc => hbody c (List.mem_cons_of_mem _ hc)) hrest

theorem extractVerified_genuine {m : Manifest} {members : List (String × β)} {head : β}
    (hm : BundleOf host m members)
    (hsha : CollisionFree host tar (bundleArchive head members)) {u : Unit}
    (h : extractVerified host tar m.toJson staging w = (.ok u, w')) :
    extractVerified host (bundleArchive head members) m.toJson staging w = (.ok u, w') := by
  simp only [extractVerified, bind_eq_ok, ofExcept_eq_ok] at h
  obtain ⟨files, _, ⟨hfiles, rfl⟩, hloop⟩ := h
  rw [extractVerified, bind_of_ok (ofExcept_eq_ok.mpr ⟨hfiles, rfl⟩)]
  refine forEach_same (fun j hj t t' hrun => ?_) hloop
  obtain ⟨r, hr, hstands⟩ := manifestFiles_toJson hfiles j hj
  obtain ⟨b, hopen, hsum, -⟩ := hm.openMember head hr
  exact extractRecord_genuine hstands hsha hopen hsum hrun

theorem restoreBody_genuine {m : Manifest} {members : List (String × β)} {head : β} {vm : String}
    {result : RestoreResult} (hm : BundleOf host m members)
    (hsha : CollisionFree host tar (bundleArchive head members))
    (h : restoreBody host store tar vm m.toJson staging w = (.ok result, w')) :
    restoreBody host store (bundleArchive head members) vm m.toJson staging w = (.ok result, w') := by
  rw [restoreBody, bind_eq_ok] at h
  obtain ⟨_, t, hx, hrest⟩ := h
  rw [restoreBody, bind_of_ok (extractVerified_genuine hm hsha hx)]
  exact hrest

-- The calls on an opened bundle, from the making of the staging directory on.
theorem restore_genuine {m : Manifest} {members : List (String × β)} {head : β} {vm : String}
    {asVm : Option String} {force : Bool} {bundlePath bundlePath' : Path} {result : RestoreResult}
    (hm : BundleOf host m members) (hsha : CollisionFree host tar (bundleArchive head members))
    (hopen : Opens host bundlePath asVm w.fs tar m.toJson vm)
    (hopen' : Opens host bundlePath' asVm w.fs (bundleArchive head members) m.toJson vm)
    (h : restore host store bundlePath asVm force w = (.ok result, w')) :
    restore host store bundlePath' asVm force w = (.ok result, w') := by
  rw [restore, bind_of_ok (openBundle_eq_ok.mpr ⟨hopen, rfl⟩)] at h
  rw [restore, bind_of_ok (openBundle_eq_ok.mpr ⟨hopen', rfl⟩)]
  simp only [bind_eq_ok, tryFinally_eq_ok, tryExcept_eq_ok] at h ⊢
  obtain ⟨taken, t, htaken, _, t₁, hraise, _, t₂, hhome, staging, t₃, htemp, t₄, hbody, hclean⟩ := h
  refine ⟨taken, t, htaken, (), t₁, hraise, (), t₂, hhome, staging, t₃, htemp, t₄, ?_, hclean⟩
  rcases hbody with hbody | ⟨e, t₅, -, hdiscard⟩
  · exact Or.inl (restoreBody_genuine hm hsha hbody)
  · obtain ⟨es, he⟩ : ∃ es, (discardVm store vm e : Run β RestoreResult) t₅ = _ := discardVm_eq e t₅
    rw [he] at hdiscard
    cases hdiscard

end

theorem checkManifest_ok {manifest manifest' : Json}
    (h : checkManifest manifest = .ok manifest') : manifest' = manifest := by
  simp only [checkManifest, except_bind_eq_ok] at h
  obtain ⟨version, -, h⟩ := h
  split at h
  · cases h
  · simp only [except_bind_eq_ok] at h
    obtain ⟨vm, -, disks, -, h⟩ := h
    split at h
    · exact (Except.ok.inj h).symm
    · cases h

-- The manifest is read from the member of its name alone.
theorem readManifest_congr {host : Host β} {tar tar' : Archive β}
    (h : tar.openMember "manifest.json" = tar'.openMember "manifest.json") :
    readManifest host tar = readManifest host tar' := by
  simp only [readManifest, loadManifest, h]

theorem BundleOf.readManifest {host : Host β} {m : Manifest} {members : List (String × β)}
    (hm : BundleOf host m members) (hjson : KeepsManifests host) {manifest : Json}
    (h : readManifest host (bundleArchive (host.jsonDumps m.toJson) members) = .ok manifest) :
    manifest = m.toJson := by
  simp only [Storage.readManifest, except_bind_eq_ok, orRaise_eq_ok, loadManifest] at h
  obtain ⟨loaded, ⟨⟨data, fault⟩, hopen, hloads⟩, hcheck⟩ := h
  obtain ⟨rfl, rfl⟩ := Prod.mk.inj (Except.ok.inj (hopen.symm.trans hm.openManifest))
  obtain rfl := Except.ok.inj (hloads.symm.trans (hjson m))
  exact checkManifest_ok hcheck

-- The name under which a bundle of `vm` is restored.
def restoredName (asVm : Option String) (vm : String) : String :=
  (asVm.filter fun s => s != "").getD vm

theorem targetName_toJson (asVm : Option String) (m : Manifest) :
    targetName asVm m.toJson = .ok (restoredName asVm m.vm) := by
  rw [targetName, restoredName]
  cases asVm.filter fun s => s != "" <;> rfl

-- An archive with the manifest of a genuine bundle and other members is refused, and leaves no
-- VM, or does exactly what the bundle does.
theorem restore_detects_tampering {host : Host β} (htar : KeepsArchives host)
    (hjson : KeepsManifests host) {store₀ store : DiskStore} {vm : String}
    {bundlePath path path' : Path} {snapshot asVm : Option String} {force : Bool}
    {result₀ : BackupResult} {w₀ w₀' w : World β} {genuine tampered : β} {tar tar' : Archive β}
    (hbackup : backup host store₀ vm bundlePath snapshot w₀ = (.ok result₀, w₀'))
    (hwritten : w₀'.fs.blob bundlePath = some genuine)
    (hgenuine : w.fs.blob path' = some genuine) (htampered : w.fs.blob path = some tampered)
    (hopened' : host.tarOpen genuine = .ok tar') (hopened : host.tarOpen tampered = .ok tar)
    (hsame : tar.openMember "manifest.json" = tar'.openMember "manifest.json")
    (hsha : CollisionFree host tar tar')
    (hfree : w.fs.node (store.vmRoot (restoredName asVm vm)) = none) :
    (∃ e w', restore host store path asVm force w = (.error e, w') ∧
      ∀ q, store.vmRoot (restoredName asVm vm) <+: q → w'.fs.node q = none) ∨
    ∃ result w', restore host store path asVm force w = (.ok result, w') ∧
      restore host store path' asVm force w = (.ok result, w') := by
  obtain ⟨m, members, rfl, hm, hblob⟩ := backup_ok hbackup
  obtain rfl := Option.some.inj (hwritten.symm.trans hblob)
  obtain rfl := Except.ok.inj (hopened'.symm.trans (hm.tarOpen htar _))
  rcases openBundle_error_or_opens host path asVm w with ⟨e, hclosed⟩ | ⟨tar₁, manifest, vm, hopen⟩
  · exact Or.inl ⟨e, w, restore_of_closed hclosed, fun q hq => w.fs.none_of_below hq hfree⟩
  obtain rfl : tar = tar₁ := by
    obtain ⟨f, hf, htar₁⟩ := hopen.file
    obtain ⟨mode, hmode⟩ := w.fs.blob_eq_some.mp htampered
    obtain rfl := Node.file.inj (Option.some.inj (hmode.symm.trans hf))
    exact Except.ok.inj (hopened.symm.trans htar₁)
  have hread := hopen.accepted
  rw [readManifest_congr hsame] at hread
  obtain rfl := hm.readManifest hjson hread
  obtain rfl : restoredName asVm m.vm = vm :=
    Except.ok.inj ((targetName_toJson asVm m).symm.trans hopen.target)
  rcases hrun : restore host store path asVm force w with ⟨e | result, w'⟩
  · refine Or.inl ⟨e, w', rfl, fun q hq => ?_⟩
    rw [root_after_failure hopen hrun hq]
    split
    · rfl
    · exact w.fs.none_of_below hq hfree
  · refine Or.inr ⟨result, w', rfl, restore_genuine hm hsha hopen ?_ hrun⟩
    obtain ⟨mode, hmode⟩ := w.fs.blob_eq_some.mp hgenuine
    exact ⟨⟨_, hmode, hm.tarOpen htar _⟩, hread, hopen.target, hopen.valid⟩

end

-- A VM with one disk and one config file, and its bundle with a config file of that text.
def webLayer : Blob := .qcow2 1 [] none

def webWorld : World Blob :=
  Memory.world [(["srv"], .dir), (["srv", "vms"], .dir), (["srv", "vms", "web"], .dir),
    (["srv", "vms", "web", "disks"], .dir),
    (["srv", "vms", "web", "disks", "root.qcow2"], Memory.plain webLayer),
    (["srv", "vms", "web", "notes"], Memory.plain (.text "keep"))]

def webManifest : Manifest where
  vm := "web"
  created := "2024-01-01T00:00:00+00:00"
  disks := [("root", {
    active := some ⟨⟨"disks/root.qcow2", "qcow2 x", 1⟩, none⟩
    current := none
    snapshots := [] })]
  images := []
  config := [⟨"config/notes", "text keep", 4⟩]

def webMembers (notes : String) : List (Member Blob) :=
  [⟨"manifest.json", .file (.json webManifest.toJson)⟩, ⟨"config/notes", .file (.text notes)⟩,
    ⟨"disks/root.qcow2", .file webLayer⟩]

def webBundle (notes : String) : Blob := .archive (webMembers notes)

theorem webBundle_openMember {arc notes : String} {data : Blob}
    (h : (⟨webMembers notes, none⟩ : Archive Blob).openMember arc = .ok (data, none)) :
    rstripSlash arc = "disks/root.qcow2" ∧ data = webLayer ∨
      rstripSlash arc = "config/notes" ∧ data = .text notes ∨
      rstripSlash arc = "manifest.json" ∧ data = .json webManifest.toJson := by
  simp only [Archive.openMember, Archive.getMember, webMembers, List.reverse_cons,
    List.reverse_nil, List.nil_append, List.cons_append, List.find?_cons, List.find?_nil] at h
  by_cases h₁ : rstripSlash arc = "disks/root.qcow2"
  · simp [h₁, extractFile, bind, Except.bind] at h
    simp [h₁, h]
  by_cases h₂ : rstripSlash arc = "config/notes"
  · simp [h₂, extractFile, bind, Except.bind] at h
    simp [h₂, h]
  by_cases h₃ : rstripSlash arc = "manifest.json"
  · simp [h₃, extractFile, bind, Except.bind] at h
    simp [h₃, h]
  simp [Ne.symm h₁, Ne.symm h₂, Ne.symm h₃, bind, Except.bind] at h

-- A bundle whose config file was changed.
theorem restore_detects_tampering_web :
    let w := Memory.world [(["a.tar"], Memory.plain (webBundle "keep")),
      (["b.tar"], Memory.plain (webBundle "kept"))]
    (∃ e w', restore (memoryHost []) demoStore ["b.tar"] none false w = (.error e, w') ∧
      ∀ q, demoStore.vmRoot "web" <+: q → w'.fs.node q = none) ∨
    ∃ result w', restore (memoryHost []) demoStore ["b.tar"] none false w = (.ok result, w') ∧
      restore (memoryHost []) demoStore ["a.tar"] none false w = (.ok result, w') := by
  intro w
  obtain ⟨result₀, hbackup⟩ :=
    eq_ok_of_isOk (x := backup (memoryHost []) demoStore "web" ["a.tar"] none webWorld)
      (by decide)
  have hwritten : (backup (memoryHost []) demoStore "web" ["a.tar"] none webWorld).2.fs.blob
      ["a.tar"] = some (webBundle "keep") := rfl
  have hopened : ∀ notes, (memoryHost []).tarOpen (webBundle notes) =
      .ok ⟨webMembers notes, none⟩ := fun _ => rfl
  refine restore_detects_tampering (fun _ _ _ => rfl) (fun _ => rfl) hbackup hwritten rfl rfl
    (hopened "keep") (hopened "kept") rfl ?_ (by decide)
  intro arc data data' h h' hsum
  rcases webBundle_openMember h with ⟨ha, rfl⟩ | ⟨ha, rfl⟩ | ⟨ha, rfl⟩ <;>
    rcases webBundle_openMember h' with ⟨ha', rfl⟩ | ⟨ha', rfl⟩ | ⟨ha', rfl⟩
  all_goals first | rfl | exact absurd (ha.symm.trans ha') (by decide) | exact absurd hsum (by decide)

end VMForge.Storage
