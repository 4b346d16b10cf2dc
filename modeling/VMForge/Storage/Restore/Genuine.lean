import VMForge.Storage.Restore.Tampered

namespace VMForge.Storage

open Exec

-- The paths of the files in a bundle, and their parts.
inductive BundlePath : String → Path → Prop where
  | disk {disk} (hdisk : nameMatches disk = true) :
      BundlePath ("disks/" ++ disk ++ ".qcow2") ["disks", disk ++ ".qcow2"]
  | snapshot {disk n} (hdisk : nameMatches disk = true) (hn : nameMatches n = true) :
      BundlePath ("snapshots/" ++ disk ++ "/" ++ n ++ ".qcow2") ["snapshots", disk, n ++ ".qcow2"]
  | image {n} (hn : Path.isComponent n = true) : BundlePath ("images/" ++ n) ["images", n]
  | config {n} (hn : Path.isComponent n = true) : BundlePath ("config/" ++ n) ["config", n]

theorem parts_entry (dir : String) {n : String} (hdir : Path.isComponent dir = true)
    (hn : Path.isComponent n = true) : Path.parts (dir ++ "/" ++ n) = [dir, n] := by
  rw [Path.parts_concat dir hn, Path.parts_of_isComponent hdir]
  rfl

namespace BundlePath

variable {arc arc' : String} {p p' : Path}

theorem parts (h : BundlePath arc p) : Path.parts arc = p := by
  cases h with
  | @disk disk hdisk =>
      have hentry := parts_entry "disks" (by decide) (isComponent_qcow2 hdisk)
      rwa [← String.append_assoc] at hentry
  | @snapshot disk n hdisk hn =>
      have hrest := Path.parts_concat ("snapshots" ++ "/" ++ disk) (isComponent_qcow2 hn)
      rw [parts_entry _ (by decide) (isComponent_of_valid hdisk), ← String.append_assoc] at hrest
      exact hrest
  | @image n hn => exact parts_entry "images" (by decide) hn
  | @config n hn => exact parts_entry "config" (by decide) hn

theorem legal (h : BundlePath arc p) : ∀ n ∈ p, Path.isComponent n = true := by
  cases h with
  | disk hdisk =>
      simp only [List.forall_mem_cons, List.not_mem_nil, false_implies, implies_true, and_true]
      exact ⟨by decide, isComponent_qcow2 hdisk⟩
  | snapshot hdisk hn =>
      simp only [List.forall_mem_cons, List.not_mem_nil, false_implies, implies_true, and_true]
      exact ⟨by decide, isComponent_of_valid hdisk, isComponent_qcow2 hn⟩
  | image hn =>
      simp only [List.forall_mem_cons, List.not_mem_nil, false_implies, implies_true, and_true]
      exact ⟨by decide, hn⟩
  | config hn =>
      simp only [List.forall_mem_cons, List.not_mem_nil, false_implies, implies_true, and_true]
      exact ⟨by decide, hn⟩

theorem ne_nil (h : BundlePath arc p) : p ≠ [] := by
  cases h <;> simp

theorem joinName {dir n : String} (h : BundlePath arc [dir, n]) (q : Path) :
    joinName q arc = q ++ [n] :=
  joinName_of_parts (p := [dir]) h.parts ((Path.isComponent_iff n).mp (h.legal n (by simp))).1

-- No file of a bundle is in the way of another one.
theorem apart (h : BundlePath arc p) (h' : BundlePath arc' p') : ¬Below p p' := by
  rintro ⟨hpre, hne⟩
  cases h <;> cases h' <;> simp_all [List.cons_prefix_cons]

theorem unique (h : BundlePath arc p) (h' : BundlePath arc' p') (he : p = p') : arc = arc' := by
  cases h <;> cases h' <;> simp_all

end BundlePath

-- The records `restore` lists for a disk, and for a bundle.
theorem sectionFiles_entry (e : DiskEntry) : sectionFiles e.toJson = .ok
    (e.active.toList.map LayerRecord.toJson ++ e.snapshots.map SnapshotRecord.toJson) := by
  obtain ⟨active, current, snapshots⟩ := e
  cases active <;> rfl

theorem manifestFiles_eq {m : Manifest} (hdisks : (m.disks.map Prod.fst).Nodup) :
    manifestFiles m.toJson = .ok (m.disks.flatMap (fun d =>
      d.2.active.toList.map LayerRecord.toJson ++ d.2.snapshots.map SnapshotRecord.toJson) ++
        m.images.map FileRecord.toJson ++ m.config.map FileRecord.toJson) := by
  have hdict : Json.dict (m.disks.map fun d => (d.1, d.2.toJson)) =
      m.disks.map fun d => (d.1, d.2.toJson) :=
    Json.dict_of_nodup (by simpa [Function.comp_def] using hdisks)
  have hsections : (m.disks.map fun d => d.2.toJson).mapM sectionFiles = .ok (m.disks.map fun d =>
      d.2.active.toList.map LayerRecord.toJson ++ d.2.snapshots.map SnapshotRecord.toJson) := by
    induction m.disks with
    | nil => rfl
    | cons d ds ih => simp [sectionFiles_entry, ih]
  have hvalues : (pyIndex m.toJson "disks" >>= pyValues) = .ok (m.disks.map fun d => d.2.toJson) := by
    change Except.ok _ = _
    rw [hdict, List.map_map]
    rfl
  simp only [except_bind_eq_ok] at hvalues
  obtain ⟨disks, hindex, hvalues⟩ := hvalues
  simp only [manifestFiles, except_bind_eq_ok]
  exact ⟨disks, hindex, _, hvalues, _, hsections, _, rfl, _, rfl, _, rfl, _, rfl, by
    rw [List.flatMap_def]⟩

-- All that `backup` recorded is listed.
theorem manifestFiles_complete {m : Manifest} (hdisks : (m.disks.map Prod.fst).Nodup) {files : List Json}
    (h : manifestFiles m.toJson = .ok files) : ∀ r ∈ m.records, ∃ j ∈ files, Stands j r := by
  obtain rfl := Except.ok.inj ((manifestFiles_eq hdisks).symm.trans h)
  intro r hr
  simp only [Manifest.records, DiskEntry.records, List.mem_append, List.mem_flatMap,
    List.mem_map] at hr ⊢
  rcases hr with (⟨d, hd, layer, hlayer | ⟨snap, hsnap, rfl⟩, rfl⟩ | hr) | hr
  · exact ⟨_, Or.inl (Or.inl ⟨d, hd, Or.inl ⟨layer, hlayer, rfl⟩⟩), stands_layer layer⟩
  · exact ⟨_, Or.inl (Or.inl ⟨d, hd, Or.inr ⟨snap, hsnap, rfl⟩⟩), stands_snapshot snap⟩
  · exact ⟨_, Or.inl (Or.inr ⟨r, hr, rfl⟩), stands_file r⟩
  · exact ⟨_, Or.inr ⟨r, hr, rfl⟩, stands_file r⟩

section

variable {β : Type} {host : Host β} {staging : Path} {tar : Archive β} {w w' : World β}

theorem writeBytes_mode {p : Path} {b : β} (h : writeBytes p b w = (.ok (), w')) :
    w'.fs.node p = some (.file ⟨b, modeAt w.fs p⟩) := by
  have hfault := (writeBytes_ok h).1
  rw [writeBytes, read_bind] at h
  simp only [hfault] at h
  exact (put_ok (admits_of_createFault hfault _) h).1

-- Staged files are new, with the permissions of new files.
def AllNew (staging : Path) (w : World β) : Prop :=
  ∀ q f, staging <+: q → w.fs.node q = some (.file f) → f.mode = 0o644

theorem extractRecord_new {r : Json} (hw : AllNew staging w) {u : Unit}
    (h : extractRecord host tar staging r w = (.ok u, w')) : AllNew staging w' := by
  simp only [extractRecord, bind_eq_ok, ofExcept_eq_ok] at h
  obtain ⟨arc, _, ⟨-, rfl⟩, ⟨data, fault⟩, _, ⟨-, rfl⟩, _, t, hmk, _, t', hwrite, hend⟩ := h
  have hmade : AllNew staging t := by
    intro q f hq hf
    obtain ⟨hdirs, hother⟩ := mkdirs_ok hmk
    by_cases hpre : q <+: (joinStr staging arc).dropLast
    · rw [hdirs q hpre] at hf
      cases hf
    · exact hw q f hq ((hother q hpre).symm.trans hf)
  have hwritten : AllNew staging t' := by
    intro q f hq hf
    by_cases he : q = joinStr staging arc
    · subst he
      obtain rfl := Node.file.inj (Option.some.inj ((writeBytes_mode hwrite).symm.trans hf))
      unfold modeAt
      split
      · rename_i f' hf'
        exact hmade _ f' hq hf'
      · rfl
    · obtain ⟨-, m, -, hother⟩ := writeBytes_ok hwrite
      exact hmade q f hq ((hother q he).symm.trans hf)
  cases fault with
  | some e => simp at hend
  | none =>
      simp only [bind_eq_ok, ofExcept_eq_ok, raiseIf_eq_ok] at hend
      obtain ⟨verified, _, ⟨-, rfl⟩, -, rfl⟩ := hend
      exact hwritten

-- What the bundle holds under the path of a record lies in the staging directory.
theorem BundleOf.staged {m : Manifest} {members : List (String × β)} {head : β}
    {data : String → Option β} (hm : BundleOf host m members)
    (hdata : ∀ arc b, (arc, b) ∈ members → data arc = some b)
    (hpaths : ∀ r ∈ m.records, ∃ p, BundlePath r.path p) (hdisks : (m.disks.map Prod.fst).Nodup)
    (hdir : w.fs.node staging = some .dir) (hempty : ∀ q, Below staging q → w.fs.node q = none) :
    ∃ w', extractVerified host (bundleArchive head members) m.toJson staging w = (.ok (), w') ∧
      ∀ r ∈ m.records, ∃ b, data r.path = some b ∧
        w'.fs.node (staging ++ Path.parts r.path) = some (.file ⟨b, 0o644⟩) := by
  have hfiles := manifestFiles_eq hdisks
  have hcomplete := manifestFiles_complete hdisks hfiles
  have hsound := manifestFiles_toJson hfiles
  generalize hall : m.disks.flatMap (fun d => d.2.active.toList.map LayerRecord.toJson ++
    d.2.snapshots.map SnapshotRecord.toJson) ++ m.images.map FileRecord.toJson ++
      m.config.map FileRecord.toJson = files at hfiles hcomplete hsound
  -- every record passes
  have hpass : ∀ j ∈ files, ∃ r ∈ m.records, ∃ p b, BundlePath r.path p ∧ data r.path = some b ∧
      RecordVerified host (bundleArchive head members) j p b := by
    intro j hj
    obtain ⟨r, hr, hstands⟩ := hsound j hj
    obtain ⟨p, hp⟩ := hpaths r hr
    obtain ⟨b, hmem, hsha, hsize⟩ := hm.records r hr
    obtain ⟨b', hopen, hsha', -⟩ := hm.openMember head hr
    have hb := openMember_unique (hm.names_nodup head) (List.mem_cons_of_mem _ hmem)
      (hm.bundled _ hmem).trimmed
    obtain rfl := (Prod.mk.inj (Except.ok.inj (hopen.symm.trans hb))).1
    refine ⟨r, hr, p, b', hp, hdata _ _ hmem, ⟨r.path, ?_, hp.parts, hopen⟩, ?_, hp.ne_nil, hp.legal⟩
    · refine safeArc_eq_ok.mpr ⟨pyIndex_of_pyGet hstands.path rfl, (hm.bundled _ hmem).relative, ?_⟩
      rw [hp.parts]
      exact Path.dotdot_notMem_of_isComponent hp.legal
    · simp [matchesRecord, hstands.size, hstands.sha256, hsha, hsize, Json.eqInt, Json.eqStr, bind,
        Except.bind]
  have hverifies : Verifies host (bundleArchive head members) files := by
    refine ⟨fun j hj => ?_, fun j hj j' hj' p b p' b' hv hv' => ?_⟩
    · obtain ⟨r, -, p, b, -, -, hv⟩ := hpass j hj
      exact ⟨p, b, hv⟩
    · obtain ⟨r, -, q, c, hq, -, hc⟩ := hpass j hj
      obtain ⟨r', -, q', c', hq', -, hc'⟩ := hpass j' hj'
      obtain ⟨rfl, -⟩ := hv.unique hc
      obtain ⟨rfl, -⟩ := hv'.unique hc'
      exact hq.apart hq'
  obtain ⟨w', hrun⟩ := extractVerified_returns hdir hempty hfiles hverifies
  obtain ⟨files', hfiles', -, hextracted⟩ := extractVerified_ok hdir hempty hrun
  obtain rfl := Except.ok.inj (hfiles.symm.trans hfiles')
  have hnew : AllNew staging w' := by
    simp only [extractVerified, bind_eq_ok, ofExcept_eq_ok] at hrun
    obtain ⟨files', _, ⟨hfiles', rfl⟩, hloop⟩ := hrun
    obtain rfl := Except.ok.inj (hfiles.symm.trans hfiles')
    have hstart : AllNew staging w := by
      intro q f hq hf
      by_cases he : q = staging
      · rw [he, hdir] at hf
        cases hf
      · rw [hempty q ⟨hq, he⟩] at hf
        cases hf
    have hwp : wp (forEach files (extractRecord host (bundleArchive head members) staging))
        (fun _ t => AllNew staging t) (fun _ _ => True) w :=
      wp_forEach (fun _ _ t => AllNew staging t) files
        (fun _ _ _ _ _ ht => wp_intro (fun _ _ hrun => extractRecord_new ht hrun) fun _ _ _ => trivial)
        (fun _ ht => ht) hstart
    have hend := wp_ok hwp hloop
    exact hend
  refine ⟨w', hrun, fun r hr => ?_⟩
  obtain ⟨j, hj, hstands⟩ := hcomplete r hr
  obtain ⟨p, b, f, hv, hf⟩ := hextracted.present j hj
  obtain ⟨r', hr', q, c, hq, hc, hv'⟩ := hpass j hj
  obtain ⟨rfl, rfl⟩ := hv.unique hv'
  -- the last record staged at the path has the content of all records of that path
  obtain ⟨before, j', after, rfl, hlast, -⟩ := hextracted.files p f hf
  obtain ⟨r'', hr'', q', c', hq', hc', hv''⟩ := hpass j' (by simp)
  obtain ⟨rfl, hblob⟩ := hlast.unique hv''
  obtain ⟨arc, hsafe, hparts, -⟩ := hv.member
  obtain rfl : r.path = arc := by
    have hpath := pyGet_of_pyIndex (safeArc_eq_ok.mp hsafe).1
    simpa [hstands.path] using hpath
  obtain ⟨p', hp'⟩ := hpaths r hr
  have harc : r''.path = r.path := hq'.unique hp' (by rw [← hparts, hp'.parts])
  refine ⟨c', harc ▸ hc', ?_⟩
  rw [hparts, hf, ← hblob, ← hnew _ f (List.prefix_append _ _) hf]

end

end VMForge.Storage
