import VMForge.Storage.Backup
import VMForge.Storage.Store.Snapshots

namespace VMForge.Storage

open Exec

theorem mem_setPath {d : List (String × Path)} {k : String} {path : Path} {s : String × Path}
    (h : s ∈ setPath d k path) : s = (k, path) ∨ s ∈ d := by
  induction d with
  | nil => exact Or.inl (List.mem_singleton.mp h)
  | cons head rest ih =>
      rw [setPath] at h
      split at h
      · exact (List.mem_cons.mp h).imp id (List.mem_cons_of_mem _)
      · rcases List.mem_cons.mp h with he | hr
        · exact Or.inr (he ▸ List.mem_cons_self)
        · exact (ih hr).imp id (List.mem_cons_of_mem _)

theorem setPath_nodup {d : List (String × Path)} (h : (d.map Prod.fst).Nodup) (k : String)
    (path : Path) : ((setPath d k path).map Prod.fst).Nodup := by
  induction d with
  | nil => simp [setPath]
  | cons head rest ih =>
      rw [List.map_cons, List.nodup_cons] at h
      rw [setPath]
      split
      · rename_i hk
        rw [List.map_cons, List.nodup_cons]
        exact ⟨fun hc => h.1 (hk ▸ hc), h.2⟩
      · rename_i hk
        rw [List.map_cons, List.nodup_cons]
        refine ⟨fun hc => ?_, ih h.2⟩
        obtain ⟨s, hs, he⟩ := List.mem_map.mp hc
        rcases mem_setPath hs with rfl | hr
        · exact hk he.symm
        · exact h.1 (he ▸ List.mem_map_of_mem hr)

theorem getPath_setPath (d : List (String × Path)) (k j : String) (path : Path) :
    getPath (setPath d k path) j = if k = j then some path else getPath d j := by
  induction d with
  | nil => rfl
  | cons head rest ih =>
      rw [setPath]
      by_cases hk : head.1 = k
      · by_cases hj : k = j <;> simp [getPath, hk, hj]
      · by_cases hj : k = j
        · subst hj
          simp [getPath, hk, ih]
        · simp [getPath, hk, ih, hj]

theorem mem_of_getPath {d : List (String × Path)} {k : String} {path : Path}
    (h : getPath d k = some path) : (k, path) ∈ d := by
  induction d with
  | nil => cases h
  | cons head rest ih =>
      rw [getPath] at h
      split at h
      · rename_i hk
        obtain rfl := Option.some.inj h
        exact hk ▸ List.mem_cons_self
      · exact List.mem_cons_of_mem _ (ih h)

theorem getPath_of_mem {d : List (String × Path)} (hnodup : (d.map Prod.fst).Nodup) {s : String × Path}
    (h : s ∈ d) : getPath d s.1 = some s.2 := by
  induction d with
  | nil => cases h
  | cons head rest ih =>
      rw [List.map_cons, List.nodup_cons] at hnodup
      rw [getPath]
      rcases List.mem_cons.mp h with rfl | hr
      · exact if_pos rfl
      · have hne : head.1 ≠ s.1 := fun he => hnodup.1 (he ▸ List.mem_map_of_mem hr)
        rw [if_neg hne]
        exact ih hnodup.2 hr

-- The names `backup` gives to files in the archive: relative paths of at least two parts.
structure Bundled (arc : String) : Prop where
  relative : Path.isAbsolute arc = false
  plain : '\x00' ∉ arc.toList
  trimmed : rstripSlash arc = arc
  nested : '/' ∈ arc.toList

theorem rstripSlash_of_entry (dir : String) {n : String} (hn : Path.isComponent n = true) :
    rstripSlash (dir ++ "/" ++ n) = dir ++ "/" ++ n := by
  obtain ⟨hne, -, -, hslash, -⟩ := (Path.isComponent_iff n).mp hn
  have hlist : n.toList.reverse ≠ [] := by
    rw [ne_eq, List.reverse_eq_nil_iff, String.toList_eq_nil_iff]
    exact hne
  obtain ⟨c, cs, hcs⟩ := List.exists_cons_of_ne_nil hlist
  have hc : c ≠ '/' := by
    rintro rfl
    exact hslash (List.mem_reverse.mp (hcs ▸ List.mem_cons_self))
  rw [rstripSlash, String.toList_append, List.reverse_append, hcs, List.cons_append,
    List.dropWhile_cons_of_neg (by simpa using hc), ← List.cons_append, ← hcs,
    ← List.reverse_append, List.reverse_reverse, ← String.toList_append, String.ofList_toList]

theorem bundled_entry (top rest : String) {n : String} (htop : Path.isComponent top = true)
    (hrest : '\x00' ∉ rest.toList) (hn : Path.isComponent n = true) :
    Bundled (top ++ rest ++ "/" ++ n) := by
  obtain ⟨hne, -, -, hslash, hnull⟩ := (Path.isComponent_iff top).mp htop
  obtain ⟨-, -, -, -, hnull'⟩ := (Path.isComponent_iff n).mp hn
  refine ⟨?_, ?_, rstripSlash_of_entry _ hn, by simp⟩
  · obtain ⟨c, cs, hcs⟩ := List.exists_cons_of_ne_nil fun h => hne (String.toList_eq_nil_iff.mp h)
    have hc : c ≠ '/' := by
      rintro rfl
      exact hslash (hcs ▸ List.mem_cons_self)
    simp [Path.isAbsolute, hcs, hc]
  · simp [hnull, hrest, hnull']

theorem Bundled.ne_manifest {arc : String} (h : Bundled arc) : arc ≠ "manifest.json" := by
  rintro rfl
  exact absurd h.nested (by decide)

-- A loop whose turns only look.
theorem foldEach_quiet_ok {β α γ : Type} {body : α → γ → Run β α} (I : List γ → α → Prop)
    {as : List γ} {acc acc' : α} {w w' : World β} (h : foldEach as acc body w = (.ok acc', w'))
    (hstep : ∀ done a rest b b' t, as = done ++ a :: rest → I done b →
      body b a w = (.ok b', t) → t = w ∧ I (done ++ [a]) b')
    (hstart : I [] acc) : w' = w ∧ I as acc' := by
  have hrun : wp (foldEach as acc body) (fun b t => t = w ∧ I as b) (fun _ _ => True) w := by
    refine wp_foldEach (fun done b t => t = w ∧ I done b) as (fun done a rest b t has ht => ?_)
      (fun _ _ ht => ht) ⟨rfl, hstart⟩
    obtain ⟨rfl, hI⟩ := ht
    exact wp_intro (fun b' t' hb => hstep done a rest b b' t' has hI hb) fun _ _ _ => trivial
  have hend := wp_ok hrun h
  exact hend

-- What holds of the dictionaries while they are filled.
structure Gathered (c : Collected) : Prop where
  sources : (c.sources.map Prod.fst).Nodup
  images : (c.images.map Prod.fst).Nodup
  bundled : ∀ s ∈ c.sources, Bundled s.1
  named : ∀ image ∈ c.images, image.1 = Path.name image.2

theorem gathered_empty : Gathered ⟨[], []⟩ := by
  constructor <;> simp

theorem Gathered.addSource {c : Collected} (h : Gathered c) {arc : String} (harc : Bundled arc)
    (path : Path) : Gathered (c.addSource arc path) := by
  refine ⟨setPath_nodup h.sources arc path, h.images, fun s hs => ?_, h.named⟩
  rcases mem_setPath hs with rfl | hs
  · exact harc
  · exact h.bundled s hs

theorem Gathered.addImage {c : Collected} (h : Gathered c) (path : Path) :
    Gathered (c.addImage (Path.name path) path) := by
  refine ⟨h.sources, setPath_nodup h.images _ path, h.bundled, fun image hi => ?_⟩
  rcases mem_setPath hi with rfl | hi
  · rfl
  · exact h.named image hi

section

variable {β : Type} {host : Host β} {store : DiskStore} {vm disk : String} {w w' : World β}

theorem backingRef_ok {path : Path} {snaps : List Snapshot} {only : List String}
    {acc acc' : Collected} {ref : Option ParentRef} (hacc : Gathered acc)
    (h : backingRef host path snaps only acc w = (.ok (ref, acc'), w')) :
    w' = w ∧ Gathered acc' := by
  simp only [backingRef, bind_eq_ok] at h
  obtain ⟨inf, t, hinfo, h⟩ := h
  obtain rfl := (info_quiet _).eq_of_run hinfo
  cases hb : inf.backingFile with
  | none =>
      simp only [hb, pure_eq_ok, Prod.mk.injEq] at h
      obtain ⟨⟨-, rfl⟩, rfl⟩ := h
      exact ⟨rfl, hacc⟩
  | some backing =>
      simp only [hb] at h
      cases hfind : snaps.find? fun snap => snap.path = backing with
      | some snap =>
          simp only [hfind, bind_eq_ok, raiseIf_eq_ok, pure_eq_ok, Prod.mk.injEq] at h
          obtain ⟨_, _, ⟨-, rfl⟩, ⟨-, rfl⟩, rfl⟩ := h
          exact ⟨rfl, hacc⟩
      | none =>
          simp only [hfind, bind_eq_ok, raiseIf_eq_ok, pure_eq_ok, Prod.mk.injEq] at h
          obtain ⟨_, _, ⟨-, rfl⟩, ⟨-, rfl⟩, rfl⟩ := h
          exact ⟨rfl, hacc.addImage backing⟩

theorem isComponent_stem {fileName : String} (h : Path.isComponent fileName = true)
    (hq : Path.isQcow2Name fileName = true) :
    Path.isComponent (Path.stem fileName ++ ".qcow2") = true := by
  by_cases he : fileName = ".qcow2"
  · subst he
    decide
  · rwa [← Path.eq_stem_append_of_isQcow2Name hq he]

theorem collectSnapshot_ok {snaps : List Snapshot} {only : List String}
    {acc acc' : List (String × PendingLayer) × Collected} {name : String}
    (hdisk : nameMatches disk = true)
    (hnamed : ∀ snap ∈ snaps, Path.isComponent (snap.name ++ ".qcow2") = true)
    (hacc : Gathered acc.2)
    (h : collectSnapshot host disk snaps only acc name w = (.ok acc', w')) :
    w' = w ∧ Gathered acc'.2 := by
  rw [collectSnapshot] at h
  cases hfind : snaps.find? fun snap => snap.name = name with
  | none => simp [hfind] at h
  | some snap =>
      have hname : snap.name = name := by
        simpa using List.find?_some hfind
      have hcomp := hnamed snap (List.mem_of_find?_eq_some hfind)
      rw [hname] at hcomp
      have hdisk' : '\x00' ∉ ("/" ++ disk).toList := by
        have hnull := ((Path.isComponent_iff disk).mp (isComponent_of_valid hdisk)).2.2.2.2
        simpa using hnull
      have harc : Bundled ("snapshots/" ++ disk ++ "/" ++ name ++ ".qcow2") := by
        have hsplit : "snapshots/" = "snapshots" ++ "/" := rfl
        have hb := bundled_entry "snapshots" ("/" ++ disk) (by decide) hdisk' hcomp
        rwa [← String.append_assoc, ← String.append_assoc, ← hsplit] at hb
      simp only [hfind, bind_eq_ok, pure_eq_ok] at h
      obtain ⟨⟨parent, collected⟩, t, href, rfl, rfl⟩ := h
      exact backingRef_ok (hacc.addSource harc snap.path) href

theorem selectSnapshots_quiet (snapshot : Option String) (snaps : List Snapshot) :
    Quiet (selectSnapshots vm disk snapshot snaps : Run β _) := by
  cases snapshot with
  | none => exact .pure _
  | some name =>
      refine .bind (.raiseIf _ _) fun _ => ?_
      split
      · exact .raise _
      · exact .pure _

theorem collectDisk_ok {snapshot : Option String} {acc acc' : List (String × PendingDisk) × Collected}
    (hacc : Gathered acc.2)
    (h : collectDisk host store vm snapshot acc disk w = (.ok acc', w')) :
    w' = w ∧ Gathered acc'.2 := by
  simp only [collectDisk, bind_eq_ok, DiskStore.diskPath_eq_ok] at h
  obtain ⟨active, _, ⟨-, hdisk, rfl, rfl⟩, snaps, t, hsnaps, ⟨only, withActive, current⟩, t', hsel,
    ⟨layers, collected⟩, t'', hloop, h⟩ := h
  obtain rfl := (snapshotList_quiet vm disk).eq_of_run hsnaps
  obtain rfl := (selectSnapshots_quiet snapshot snaps).eq_of_run hsel
  have hnamed : ∀ snap ∈ snaps, Path.isComponent (snap.name ++ ".qcow2") = true := by
    intro snap hsnap
    obtain ⟨fileName, hcomp, hq, hname, -⟩ := snapshotList_file hsnaps hsnap
    rw [hname]
    exact isComponent_stem hcomp hq
  obtain ⟨rfl, hgathered⟩ := foldEach_quiet_ok (fun _ acc => Gathered acc.2) hloop
    (fun _ _ _ _ _ _ _ hI hb => collectSnapshot_ok hdisk hnamed hI hb) hacc
  cases withActive with
  | false =>
      obtain ⟨rfl, rfl⟩ := pure_eq_ok.mp h
      exact ⟨rfl, hgathered⟩
  | true =>
      simp only [if_true, bind_eq_ok, pure_eq_ok] at h
      obtain ⟨⟨parent, collected'⟩, t₁, href, rfl, rfl⟩ := h
      have harc : Bundled ("disks/" ++ disk ++ ".qcow2") := by
        have hb := bundled_entry "disks" "" (by decide) (by simp) (isComponent_qcow2 hdisk)
        rwa [← String.append_assoc] at hb
      exact backingRef_ok (hgathered.addSource harc _) href

-- The file that goes into the archive under the path of a record is the one it describes.
def Recorded (host : Host β) (fs : FileSystem β) (sources : List (String × Path))
    (r : FileRecord) : Prop :=
  ∃ src b, getPath sources r.path = some src ∧ fs.blob src = some b ∧
    r.sha256 = host.sha256 b ∧ r.size = host.byteSize b

theorem Recorded.setPath {fs : FileSystem β} {sources : List (String × Path)} {r : FileRecord}
    (h : Recorded host fs sources r) {arc : String} (harc : r.path ≠ arc) (path : Path) :
    Recorded host fs (setPath sources arc path) r := by
  obtain ⟨src, b, hsrc, rest⟩ := h
  refine ⟨src, b, ?_, rest⟩
  rw [getPath_setPath, if_neg (Ne.symm harc), hsrc]

theorem fileRecord_ok {arc : String} {src : Path} {r : FileRecord}
    (h : fileRecord host arc src w = (.ok r, w')) :
    w' = w ∧ r.path = arc ∧
      ∃ b, w.fs.blob src = some b ∧ r.sha256 = host.sha256 b ∧ r.size = host.byteSize b := by
  simp only [fileRecord, bind_eq_ok, readBytes_ok, pure_eq_ok] at h
  obtain ⟨b, _, ⟨hb, rfl⟩, rfl, rfl⟩ := h
  exact ⟨rfl, rfl, b, hb, rfl, rfl⟩

-- A loop over `as` that records files under the paths `key` gives them.
structure Recording {γ : Type} (host : Host β) (fs : FileSystem β) (key : γ → String)
    (acc : Collected) (done : List γ) (b : List FileRecord × Collected) : Prop where
  gathered : Gathered b.2
  records : ∀ r ∈ b.1, Recorded host fs b.2.sources r ∧ ∃ a ∈ done, r.path = key a
  kept : ∀ r, Recorded host fs acc.sources r → (∀ a ∈ done, r.path ≠ key a) →
    Recorded host fs b.2.sources r

theorem recording_nil {γ : Type} {fs : FileSystem β} {key : γ → String} {acc : Collected}
    (h : Gathered acc) : Recording host fs key acc [] ([], acc) :=
  ⟨h, by simp, fun _ hr _ => hr⟩

theorem Recording.skip {γ : Type} {fs : FileSystem β} {key : γ → String} {acc : Collected}
    {done : List γ} {b : List FileRecord × Collected} (h : Recording host fs key acc done b)
    (a : γ) : Recording host fs key acc (done ++ [a]) b := by
  refine ⟨h.gathered, fun r hr => ?_, fun r hr hne => h.kept r hr fun c hc => hne c (by simp [hc])⟩
  obtain ⟨hrec, c, hc, hpath⟩ := h.records r hr
  exact ⟨hrec, c, by simp [hc], hpath⟩

theorem Recording.add {γ : Type} {fs : FileSystem β} {key : γ → String} {acc : Collected}
    {done : List γ} {b : List FileRecord × Collected} (h : Recording host fs key acc done b)
    {a : γ} (hnew : ∀ c ∈ done, key c ≠ key a) (hkey : Bundled (key a)) {src : Path} {data : β}
    {r : FileRecord} (hpath : r.path = key a) (hdata : fs.blob src = some data)
    (hsum : r.sha256 = host.sha256 data ∧ r.size = host.byteSize data) :
    Recording host fs key acc (done ++ [a]) (b.1 ++ [r], b.2.addSource (key a) src) := by
  refine ⟨h.gathered.addSource hkey src, fun r' hr' => ?_, fun r' hr' hne => ?_⟩
  · rcases List.mem_append.mp hr' with hr' | hr'
    · obtain ⟨hrec, c, hc, hpath'⟩ := h.records r' hr'
      exact ⟨hrec.setPath (hpath' ▸ hnew c hc) src, c, by simp [hc], hpath'⟩
    · rw [List.mem_singleton] at hr'
      subst hr'
      refine ⟨⟨src, data, ?_, hdata, hsum⟩, a, by simp, hpath⟩
      show getPath (Storage.setPath b.2.sources (key a) src) r'.path = some src
      rw [getPath_setPath, if_pos hpath.symm]
  · exact (h.kept r' hr' fun c hc => hne c (by simp [hc])).setPath (hne a (by simp)) src

theorem key_ne_of_nodup {γ : Type} {key : γ → String} {as done rest : List γ} {a : γ}
    (hnodup : (as.map key).Nodup) (has : as = done ++ a :: rest) : ∀ c ∈ done, key c ≠ key a := by
  intro c hc he
  rw [has, List.map_append, List.map_cons, List.nodup_append] at hnodup
  exact hnodup.2.2 _ (List.mem_map_of_mem hc) _ List.mem_cons_self he

theorem isComponent_of_blob {fs : FileSystem β} {p : Path} {b : β} (h : fs.blob p = some b) :
    Path.isComponent (Path.name p) = true := by
  obtain ⟨m, hm⟩ := fs.blob_eq_some.mp h
  cases p using List.reverseRecOn with
  | nil => simp [fs.root] at hm
  | append_singleton p n =>
      rw [Path.name_concat]
      exact fs.legal p n (by simp [hm])

def imageArc (image : String × Path) : String := "images/" ++ image.1

def configArc (name : String) : String := "config/" ++ name

theorem bundled_imageArc {image : String × Path} (h : Path.isComponent image.1 = true) :
    Bundled (imageArc image) :=
  bundled_entry "images" "" (by decide) (by simp) h

theorem bundled_configArc {name : String} (h : Path.isComponent name = true) :
    Bundled (configArc name) :=
  bundled_entry "config" "" (by decide) (by simp) h

theorem recordImages_ok {acc : Collected} {b : List FileRecord × Collected}
    (images : List (String × Path)) (hacc : Gathered acc) (hsub : images ⊆ acc.images)
    (hnodup : (images.map Prod.fst).Nodup)
    (h : foldEach images ([], acc) (recordImage host) w = (.ok b, w')) :
    w' = w ∧ Recording host w.fs imageArc acc images b := by
  have hkeys : (images.map imageArc).Nodup := by
    have hmap : images.map imageArc = (images.map Prod.fst).map ("images/" ++ ·) := by
      simp [imageArc, Function.comp_def]
    rw [hmap]
    exact hnodup.map fun n m he => (String.append_right_inj _).mp he
  refine foldEach_quiet_ok (fun done b => Recording host w.fs imageArc acc done b) h
    (fun done a rest c c' t has hI hb => ?_) (recording_nil hacc)
  simp only [recordImage, bind_eq_ok, pure_eq_ok] at hb
  obtain ⟨r, t', hr, rfl, rfl⟩ := hb
  obtain ⟨rfl, hpath, data, hdata, hsum⟩ := fileRecord_ok hr
  have hcomp : Path.isComponent a.1 = true := by
    rw [hacc.named a (hsub (by simp [has]))]
    exact isComponent_of_blob hdata
  exact ⟨rfl, hI.add (key_ne_of_nodup hkeys has) (bundled_imageArc hcomp) hpath hdata hsum⟩

theorem recordConfigs_ok {acc : Collected} {b : List FileRecord × Collected} {vmRoot : Path}
    (hacc : Gathered acc)
    (h : foldEach (w.fs.children vmRoot) ([], acc) (recordConfig host vmRoot) w = (.ok b, w')) :
    w' = w ∧ Recording host w.fs configArc acc (w.fs.children vmRoot) b := by
  have hkeys : ((w.fs.children vmRoot).map configArc).Nodup :=
    (w.fs.children_nodup vmRoot).map fun n m he => (String.append_right_inj _).mp he
  refine foldEach_quiet_ok (fun done b => Recording host w.fs configArc acc done b) h
    (fun done a rest c c' t has hI hb => ?_) (recording_nil hacc)
  rw [recordConfig, read_bind] at hb
  split at hb
  · simp only [bind_eq_ok, pure_eq_ok] at hb
    obtain ⟨r, t', hr, rfl, rfl⟩ := hb
    obtain ⟨rfl, hpath, data, hdata, hsum⟩ := fileRecord_ok hr
    have hcomp := isComponent_of_blob hdata
    rw [Path.name_concat] at hcomp
    exact ⟨rfl, hI.add (key_ne_of_nodup hkeys has) (bundled_configArc hcomp) hpath hdata hsum⟩
  · obtain ⟨rfl, rfl⟩ := pure_eq_ok.mp hb
    exact ⟨rfl, hI.skip a⟩

theorem finishLayer_ok {sources : List (String × Path)} {layer : PendingLayer} {r : LayerRecord}
    (h : finishLayer host sources layer w = (.ok r, w')) :
    w' = w ∧ Recorded host w.fs sources r.file := by
  rw [finishLayer] at h
  cases hsrc : getPath sources layer.arc with
  | none => simp [hsrc] at h
  | some src =>
      simp only [hsrc, bind_eq_ok, pure_eq_ok] at h
      obtain ⟨file, t, hfile, rfl, rfl⟩ := h
      obtain ⟨rfl, hpath, data, hdata, hsum⟩ := fileRecord_ok hfile
      refine ⟨rfl, src, data, ?_, hdata, hsum⟩
      rw [hpath, hsrc]

-- The file records of a manifest.
def DiskEntry.records (e : DiskEntry) : List FileRecord :=
  (e.active.toList ++ e.snapshots.map SnapshotRecord.layer).map LayerRecord.file

def Manifest.records (m : Manifest) : List FileRecord :=
  (m.disks.flatMap fun d => d.2.records) ++ m.images ++ m.config

theorem finishActive_ok {sources : List (String × Path)} {layer : Option PendingLayer}
    {r : Option LayerRecord} (h : finishActive host sources layer w = (.ok r, w')) :
    w' = w ∧ ∀ l ∈ r, Recorded host w.fs sources l.file := by
  cases layer with
  | none =>
      obtain ⟨rfl, rfl⟩ := pure_eq_ok.mp h
      exact ⟨rfl, by simp⟩
  | some layer =>
      simp only [finishActive, bind_eq_ok, pure_eq_ok] at h
      obtain ⟨l, t, hl, rfl, rfl⟩ := h
      obtain ⟨rfl, hrec⟩ := finishLayer_ok hl
      refine ⟨rfl, fun l' hl' => ?_⟩
      obtain rfl := Option.some.inj hl'
      exact hrec

theorem finishLayer_quiet (sources : List (String × Path)) (layer : PendingLayer) :
    Quiet (finishLayer host sources layer) := by
  rw [finishLayer]
  split
  · exact .raise _
  · exact .bind (.bind (.readBytes _) fun _ => .pure _) fun _ => .pure _

theorem finishSnapshot_quiet (sources : List (String × Path)) (snap : String × PendingLayer) :
    Quiet (finishSnapshot host sources snap) :=
  .bind (finishLayer_quiet sources snap.2) fun _ => .pure _

theorem finishDisk_quiet (sources : List (String × Path)) (disk : String × PendingDisk) :
    Quiet (finishDisk host sources disk) := by
  refine .bind ?_ fun _ => .bind (.mapEach (finishSnapshot_quiet sources)) fun _ => .pure _
  cases disk.2.active with
  | none => exact .pure _
  | some layer => exact .bind (finishLayer_quiet sources layer) fun _ => .pure _

theorem finishDisk_ok {sources : List (String × Path)} {disk : String × PendingDisk}
    {entry : String × DiskEntry} (h : finishDisk host sources disk w = (.ok entry, w')) :
    w' = w ∧ ∀ r ∈ entry.2.records, Recorded host w.fs sources r := by
  simp only [finishDisk, bind_eq_ok, pure_eq_ok] at h
  obtain ⟨active, t, hactive, snapshots, t', hsnaps, rfl, rfl⟩ := h
  obtain ⟨rfl, hrec⟩ := finishActive_ok hactive
  obtain rfl := (Quiet.mapEach (finishSnapshot_quiet sources)).eq_of_run hsnaps
  refine ⟨rfl, fun r hr => ?_⟩
  simp only [DiskEntry.records, List.map_append, List.map_map, List.mem_append, List.mem_map,
    Option.mem_toList] at hr
  rcases hr with ⟨l, hl, rfl⟩ | ⟨snap, hsnap, rfl⟩
  · exact hrec l hl
  · obtain ⟨pending, -, hrun⟩ :=
      forall₂_mem_right (mapEach_quiet_ok (finishSnapshot_quiet sources) hsnaps) hsnap
    simp only [finishSnapshot, bind_eq_ok, pure_eq_ok] at hrun
    obtain ⟨l, t, hl, rfl, -⟩ := hrun
    exact (finishLayer_ok hl).2

-- What is collected of a VM: every record of the manifest is about the file that goes into
-- the archive under its path.
structure Collects (host : Host β) (fs : FileSystem β) (m : Manifest)
    (sources : List (String × Path)) : Prop where
  nodup : (sources.map Prod.fst).Nodup
  bundled : ∀ s ∈ sources, Bundled s.1
  records : ∀ r ∈ m.records, Recorded host fs sources r

theorem collectVm_ok {snapshot : Option String} {diskNames : List String} {m : Manifest}
    {sources : List (String × Path)}
    (h : collectVm host store vm snapshot diskNames w = (.ok (m, sources), w')) :
    w' = w ∧ m.vm = vm ∧ Collects host w.fs m sources := by
  rw [collectVm, read_bind] at h
  simp only [bind_eq_ok, pure_eq_ok, Prod.mk.injEq] at h
  obtain ⟨⟨disks, c₁⟩, t₁, hdisks, ⟨images, c₂⟩, t₂, himages, ⟨config, c₃⟩, t₃, hconfig,
    entries, t₄, hentries, ⟨rfl, rfl⟩, rfl⟩ := h
  obtain ⟨rfl, hc₁⟩ := foldEach_quiet_ok (fun _ acc => Gathered acc.2) hdisks
    (fun _ _ _ _ _ _ _ hI hb => collectDisk_ok hI hb) gathered_empty
  have hsorted := List.perm_insertionSort (fun a b : String × Path => a.1 ≤ b.1) c₁.images
  obtain ⟨rfl, hc₂⟩ := recordImages_ok (sortedPaths c₁.images) hc₁ hsorted.subset
    (hsorted.map Prod.fst |>.nodup_iff.mpr hc₁.images) himages
  obtain ⟨rfl, hc₃⟩ := recordConfigs_ok hc₂.gathered hconfig
  obtain rfl := (Quiet.mapEach (finishDisk_quiet c₃.sources)).eq_of_run hentries
  refine ⟨rfl, rfl, hc₃.gathered.sources, hc₃.gathered.bundled, fun r hr => ?_⟩
  simp only [Manifest.records, List.mem_append, List.mem_flatMap] at hr
  rcases hr with (⟨entry, hentry, hr⟩ | hr) | hr
  · obtain ⟨disk, -, hrun⟩ := forall₂_mem_right
      (mapEach_quiet_ok (finishDisk_quiet c₃.sources) hentries) hentry
    exact (finishDisk_ok hrun).2 r hr
  · obtain ⟨hrec, image, -, hpath⟩ := hc₂.records r hr
    -- no config file has the path of an image
    refine hc₃.kept r hrec fun name _ he => ?_
    have hhead := congrArg (fun s : String => s.toList.head?) (hpath.symm.trans he)
    simp [imageArc, configArc] at hhead
  · exact (hc₃.records r hr).1

-- The members of a bundle but for the manifest: one for every record.
structure BundleOf (host : Host β) (m : Manifest) (members : List (String × β)) : Prop where
  nodup : (members.map Prod.fst).Nodup
  bundled : ∀ member ∈ members, Bundled member.1
  records : ∀ r ∈ m.records, ∃ b, (r.path, b) ∈ members ∧ r.sha256 = host.sha256 b ∧
    r.size = host.byteSize b

theorem addMember_ok {source : String × Path} {member : String × β}
    (h : addMember source w = (.ok member, w')) :
    member.1 = source.1 ∧ w.fs.blob source.2 = some member.2 := by
  simp only [addMember, bind_eq_ok, readBytes_ok, pure_eq_ok] at h
  obtain ⟨b, _, ⟨hb, rfl⟩, rfl, rfl⟩ := h
  exact ⟨rfl, hb⟩

theorem addMember_quiet (source : String × Path) : Quiet (addMember source : Run β _) :=
  .bind (.readBytes _) fun _ => .pure _

theorem addMembers_ok {fs : FileSystem β} {m : Manifest} {sources : List (String × Path)}
    {members : List (String × β)} (hm : Collects host fs m sources)
    (hkept : ∀ q b, fs.blob q = some b → w.fs.blob q = some b)
    (h : mapEach (sortedPaths sources) addMember w = (.ok members, w')) :
    w' = w ∧ BundleOf host m members := by
  have hsorted := List.perm_insertionSort (fun a b : String × Path => a.1 ≤ b.1) sources
  have hrun := mapEach_quiet_ok addMember_quiet h
  obtain rfl := (Quiet.mapEach addMember_quiet).eq_of_run h
  have hkeys : members.map Prod.fst = (sortedPaths sources).map Prod.fst := by
    clear h
    generalize sortedPaths sources = listed at hrun
    induction hrun with
    | nil => rfl
    | cons hfirst _ ih => rw [List.map_cons, List.map_cons, ih, (addMember_ok hfirst).1]
  refine ⟨rfl, ?_, fun member hmem => ?_, fun r hr => ?_⟩
  · rw [hkeys]
    exact (hsorted.map Prod.fst).nodup_iff.mpr hm.nodup
  · obtain ⟨s, hs, hadd⟩ := forall₂_mem_right hrun hmem
    rw [(addMember_ok hadd).1]
    exact hm.bundled s (hsorted.subset hs)
  · obtain ⟨src, b, hsrc, hb, hsum⟩ := hm.records r hr
    obtain ⟨member, hmem, hadd⟩ :=
      forall₂_mem_right hrun.flip (hsorted.symm.subset (mem_of_getPath hsrc))
    obtain ⟨hname, hdata⟩ := addMember_ok hadd
    refine ⟨b, ?_, hsum⟩
    have heq : member = (r.path, b) :=
      Prod.ext hname (Option.some.inj (hdata.symm.trans (hkept src b hb)))
    exact heq ▸ hmem

theorem mkdirs_blob {p q : Path} {b : β} {r : Except PyError Unit} (h : mkdirs p w = (r, w'))
    (hq : w.fs.blob q = some b) : w'.fs.blob q = some b := by
  obtain ⟨m, hm⟩ := w.fs.blob_eq_some.mp hq
  exact w'.fs.blob_eq_some.mpr ⟨m, (mkdirs_keep h (by simp [hm])).trans hm⟩

-- What a backup that returned has done.
theorem backup_end {bundlePath : Path} {snapshot : Option String} {result : BackupResult}
    (h : backup host store vm bundlePath snapshot w = (.ok result, w')) :
    ∃ m sources t members, nameMatches vm = true ∧ diskNamesOf w.fs (store.disksDir vm) ≠ [] ∧
      collectVm host store vm snapshot (diskNamesOf w.fs (store.disksDir vm)) w =
        (.ok (m, sources), w) ∧
      mkdirs bundlePath.dropLast w = (.ok (), t) ∧
      mapEach (sortedPaths sources) addMember t = (.ok members, t) ∧
      w'.fs.blob bundlePath = some (host.tarWrite (isCompressed bundlePath)
        (("manifest.json", host.jsonDumps m.toJson) :: members)) := by
  rw [backup] at h
  -- the checks
  obtain ⟨_, _, hname, h⟩ := bind_eq_ok.mp h
  obtain ⟨hvm, rfl, rfl⟩ := validateName_eq_ok.mp hname
  obtain ⟨_, _, hpresent, h⟩ := bind_eq_ok.mp h
  obtain ⟨-, rfl⟩ := exists_eq_ok.mp hpresent
  obtain ⟨_, _, hcheck, h⟩ := bind_eq_ok.mp h
  obtain ⟨-, rfl⟩ := raiseIf_eq_ok.mp hcheck
  obtain ⟨_, _, htaken, h⟩ := bind_eq_ok.mp h
  obtain ⟨-, rfl⟩ := exists_eq_ok.mp htaken
  obtain ⟨_, _, hcheck, h⟩ := bind_eq_ok.mp h
  obtain ⟨-, rfl⟩ := raiseIf_eq_ok.mp hcheck
  obtain ⟨_, _, hread, h⟩ := bind_eq_ok.mp h
  obtain ⟨rfl, rfl⟩ := read_eq_ok.mp hread
  obtain ⟨_, _, hcheck, h⟩ := bind_eq_ok.mp h
  obtain ⟨hdisks, rfl⟩ := raiseIf_eq_ok.mp hcheck
  obtain ⟨_, _, hcheck, h⟩ := bind_eq_ok.mp h
  obtain ⟨-, rfl⟩ := raiseIf_eq_ok.mp hcheck
  -- the work
  obtain ⟨⟨m, sources⟩, t, hcollect, h⟩ := bind_eq_ok.mp h
  obtain ⟨_, t', hmk, h⟩ := bind_eq_ok.mp h
  obtain ⟨members, t'', hmembers, h⟩ := bind_eq_ok.mp h
  obtain ⟨_, _, hwrite, h⟩ := bind_eq_ok.mp h
  obtain ⟨-, rfl⟩ := pure_eq_ok.mp h
  obtain ⟨rfl, -, -⟩ := collectVm_ok hcollect
  obtain rfl := (Quiet.mapEach addMember_quiet).eq_of_run hmembers
  obtain ⟨-, mode, hfile, -⟩ := writeBytes_ok hwrite
  exact ⟨m, sources, _, members, hvm, by simpa using hdisks, hcollect, hmk, hmembers,
    (FileSystem.blob_eq_some _).mpr ⟨mode, hfile⟩⟩

-- Its bundle.
theorem backup_ok {bundlePath : Path} {snapshot : Option String} {result : BackupResult}
    (h : backup host store vm bundlePath snapshot w = (.ok result, w')) :
    ∃ m members, m.vm = vm ∧ BundleOf host m members ∧
      w'.fs.blob bundlePath = some (host.tarWrite (isCompressed bundlePath)
        (("manifest.json", host.jsonDumps m.toJson) :: members)) := by
  obtain ⟨m, sources, t, members, -, -, hcollect, hmk, hmembers, hblob⟩ := backup_end h
  obtain ⟨-, hvm, hm⟩ := collectVm_ok hcollect
  exact ⟨m, members, hvm, (addMembers_ok hm (fun _ _ hq => mkdirs_blob hmk hq) hmembers).2, hblob⟩

end

end VMForge.Storage
