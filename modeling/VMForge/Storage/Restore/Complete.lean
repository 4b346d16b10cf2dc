import VMForge.Storage.Restore.Success

namespace VMForge.Storage

open Exec

-- No file is where a home has its directories.
def Homely {β : Type} (store : DiskStore) (fs : FileSystem β) : Prop :=
  ∀ q f, q <+: store.imagesDir ∨ q <+: store.vmsDir → fs.node q ≠ some (.file f)

section

variable {β : Type} {F : Formats β} {undamaged : β → Prop} {host : Host β} {store : DiskStore}
  {vm : String} {staging : Path} {data : String → Option β} {m : Manifest} {head : β}
  {members : List (String × β)} {w w₂ w₃ wa wb w' : World β}

-- The records of a manifest are about files of the bundle.
theorem Manifest.Fits.paths (hm : m.Fits host F data) : ∀ r ∈ m.records, ∃ p, BundlePath r.path p := by
  intro r hr
  simp only [Manifest.records, DiskEntry.records, List.mem_append, List.mem_flatMap, List.mem_map,
    Option.mem_toList] at hr
  rcases hr with (⟨d, hd, l, hl | ⟨s, hs, rfl⟩, rfl⟩ | hr) | hr
  · obtain ⟨r, hactive, hr⟩ := (hm.disks d hd).active
    obtain rfl := Option.some.inj (hactive.symm.trans hl)
    exact ⟨_, by rw [hr.path]; exact .disk (hm.disks d hd).named⟩
  · have hs' := (hm.disks d hd).snapshots s hs
    exact ⟨_, by rw [hs'.path]; exact .snapshot (hm.disks d hd).named hs'.named⟩
  · obtain ⟨n, hn⟩ := (hm.images r hr).place
    exact ⟨_, hn⟩
  · obtain ⟨n, hn⟩ := (hm.config r hr).place
    exact ⟨_, hn⟩

-- What is staged for a layer or a config file is not concerned while the images are placed.
theorem staged_kept {r : FileRecord} (hr : r.Fits host data "images") {p : Path}
    (hp : p.head? ≠ some "images") (hout : ∀ q, store.imagesDir <+: q → ¬staging <+: q) :
    ¬ImageMoves store staging r (staging ++ p) := by
  rintro (hc | hc | hc)
  · exact hout _ List.prefix_rfl ((List.prefix_append _ _).trans hc)
  · exact hout _ (prefix_joinName store.imagesDir r.path) (hc ▸ List.prefix_append _ _)
  · obtain ⟨n, hn⟩ := hr.place
    obtain rfl := List.append_cancel_left hc
    rw [hn.parts] at hp
    exact hp rfl

-- Placing the images does not concern the VMs.
theorem vms_unplaced {r : FileRecord} (hr : r.Fits host data "images") {q : Path}
    (hq : store.vmsDir <+: q) (hout : ∀ q, store.vmsDir <+: q → ¬staging <+: q) :
    ¬ImageMoves store staging r q := by
  obtain ⟨n, -, hjoin⟩ := hr.entry
  have hvms : store.home ++ ["vms"] <+: q := hq
  rintro (hc | hc | hc)
  · have hlen : store.home ++ ["vms"] = store.home ++ ["images"] :=
      (hvms.trans hc).eq_of_length (by simp [DiskStore.imagesDir])
    simp at hlen
  · have himage : store.home ++ ["images", n] <+: q := by
      rw [hc, hjoin]
      simp [DiskStore.imagesDir]
    exact absurd (entry_eq himage hvms) (by decide)
  · exact hout q hq (hc ▸ List.prefix_append _ _)

-- Where a VM is to be, there is room for it.
theorem roomy_of_free {fs : FileSystem β}
    (hclear : ∀ q f, q <+: store.vmsDir → fs.node q ≠ some (.file f))
    (hfree : fs.node (store.vmRoot vm) = none) : Roomy store vm fs := by
  rintro q f hq hf
  have hroot : ∃ p, q <+: store.vmRoot vm ++ p := by
    rcases hq with hq | ⟨disk, hq⟩
    · exact ⟨_, hq⟩
    · exact ⟨_, hq⟩
  obtain ⟨p, hp⟩ := hroot
  rcases List.prefix_or_prefix_of_prefix hp (List.prefix_append _ _) with hc | hc
  · rcases List.prefix_concat_iff.mp hc with rfl | hc
    · cases hfree.symm.trans hf
    · exact hclear q f hc hf
  · cases (fs.none_of_below hc hfree).symm.trans hf

-- The extraction leaves the way to the images and the VMs free.
theorem Prepared.way_clear (hp : Prepared store vm staging w w₂)
    (hkeep : ∀ q, ¬staging <+: q → wa.fs.node q = w₂.fs.node q) (hhome : Homely store w.fs) :
    Homely store wa.fs := by
  intro q f hq hf
  by_cases habove : q <+: store.home
  · rw [hkeep q (hp.off_home habove), hp.home q habove] at hf
    cases hf
  · have hout : ¬staging <+: q := by
      rcases hq with hc | hc
      · have he : q = store.imagesDir := (List.prefix_concat_iff.mp hc).resolve_right habove
        exact hp.disjoint_images (he ▸ List.prefix_rfl)
      · have he : q = store.vmsDir := (List.prefix_concat_iff.mp hc).resolve_right habove
        exact hp.disjoint_vms (he ▸ List.prefix_rfl)
    rw [hkeep q hout, hp.same q habove fun hc => hout (hc ▸ List.prefix_rfl)] at hf
    exact hhome q f hq hf

theorem restoreBody_run (hq : Faithful F undamaged host.qemuImg) (hvm : nameMatches vm = true)
    (hm : m.Fits host F data) (hbundle : BundleOf host m members)
    (hdata : ∀ arc b, (arc, b) ∈ members → data arc = some b)
    (hp : Prepared store vm staging w w₂) (hfree : w.fs.node (store.vmRoot vm) = none)
    (hhome : Homely store w.fs)
    (hagrees : ∀ r ∈ m.images, Agrees data store w.fs r)
    (hsound : ∀ d ∈ m.disks, ∀ r, d.2.active = some r → ∀ b, data r.file.path = some b → undamaged b)
    (hreads : ∀ fs, Reassembled F undamaged data store vm m fs → ∀ d ∈ m.disks,
      ∃ c, Resolves (F.layerAt fs) (activeRef store vm d.1) c) :
    ∃ result w₃, restoreBody host store (bundleArchive head members) vm m.toJson staging w₂ =
        (.ok result, w₃) ∧
      Reassembled F undamaged data store vm m w₃.fs ∧ OnlyRecorded store vm m w₃.fs := by
  have hout : ∀ q, store.imagesDir <+: q ∨ store.vmsDir <+: q → ¬staging <+: q := by
    rintro q (hq | hq)
    · exact hp.disjoint_images hq
    · exact hp.disjoint_vms hq
  -- the archive is extracted into the staging directory alone
  obtain ⟨wa, hextract, hheld⟩ : ∃ wa,
      extractVerified host (bundleArchive head members) m.toJson staging w₂ = (.ok (), wa) ∧
        ∀ r ∈ m.records, Holds data wa.fs r.path (staging ++ Path.parts r.path) :=
    hbundle.staged hdata hm.paths hm.distinct hp.dir hp.empty
  have hkeep : ∀ q, ¬staging <+: q → wa.fs.node q = w₂.fs.node q := fun q hq =>
    ((extractVerified_touches hp.dir (bundleArchive head members) m.toJson).confined hextract).same
      (fun hc => hq hc.1) id fun _ hc => hc
  have hsame : ∀ q, ¬staging <+: q → ¬q <+: store.home → wa.fs.node q = w.fs.node q := fun q hq hq' =>
    (hkeep q hq).trans (hp.same q hq' fun hc => hq (hc ▸ List.prefix_rfl))
  have hway := hp.way_clear hkeep hhome
  -- then the images are placed
  obtain ⟨wb, himages, hclear, harrived, hplaced⟩ := placeImages_run hm.imagePaths hm.images
    (fun q f hq' => hway q f (Or.inl hq'))
    (fun r hr => hheld r (by simp [Manifest.records, hr]))
    (fun r hr x hx => hagrees r hr x (by
      have himage := prefix_joinName store.imagesDir r.path
      rwa [hsame _ (hout _ (Or.inl himage)) fun hc => by
        simpa [DiskStore.imagesDir] using (himage.trans hc).length_le] at hx))
    fun q hq' => hout q (Or.inl hq')
  have hunplaced : ∀ q, store.vmsDir <+: q → wb.fs.node q = wa.fs.node q := by
    intro q hq'
    refine hplaced q ?_
    rintro ⟨r, hr, hc⟩
    exact vms_unplaced (hm.images r hr) hq' (fun q hq => hout q (Or.inr hq)) hc
  have hroot : store.vmsDir <+: store.vmRoot vm := List.prefix_append _ _
  have hfreeb : wb.fs.node (store.vmRoot vm) = none := by
    rw [hunplaced _ hroot, hsame _ (hout _ (Or.inr hroot)) fun hc => by
      simpa [DiskStore.vmRoot, DiskStore.vmsDir] using hc.length_le, hfree]
  have hheld' : ∀ r ∈ m.records, (Path.parts r.path).head? ≠ some "images" →
      Holds data wb.fs r.path (staging ++ Path.parts r.path) := by
    intro r hr hne
    obtain ⟨b, hb, hnode⟩ := hheld r hr
    refine ⟨b, hb, (hplaced _ ?_).trans hnode⟩
    rintro ⟨r', hr', hc⟩
    exact staged_kept (hm.images r' hr') hne (fun q hq => hout q (Or.inl hq)) hc
  -- there is room for the VM
  have hroomy : Roomy store vm wb.fs := by
    refine roomy_of_free (fun q f hq' hf => ?_) hfreeb
    by_cases habove : q <+: store.home
    · exact hclear q f (habove.trans (List.prefix_append _ _)) hf
    · have he : q = store.vmsDir := (List.prefix_concat_iff.mp hq').resolve_right habove
      rw [hunplaced q (he ▸ List.prefix_rfl)] at hf
      exact hway q f (Or.inr hq') hf
  have hbare : ∀ q, Below (store.vmRoot vm) q → wb.fs.node q = none := fun q hq' =>
    wb.fs.none_of_below hq'.1 hfreeb
  obtain ⟨result, w₃, hassembled, hall, hmoved⟩ := assembleVm_run hq hvm hm hroomy hbare harrived
    (fun d hd l hl => hheld' _ (record_of_layer hd hl) (by
      obtain hhead | hhead := ((hm.disks d hd).layer_parts hl).head <;> simp [hhead]))
    (fun r hr => hheld' r (by simp [Manifest.records, hr]) (by
      obtain ⟨n, hn⟩ := (hm.config r hr).place
      simp [hn.parts])) hout hsound hreads
  refine ⟨result, w₃, ?_, hall, onlyRecorded_of_moves hm hall hbare hmoved hout⟩
  have hlook : exists_ (store.vmRoot vm) wb = (.ok false, wb) := by
    simp [FileSystem.exists_, hfreeb]
  have hrecords : recordsAt m.toJson "images" = .ok (m.images.map FileRecord.toJson) := rfl
  rw [restoreBody, bind_of_ok hextract, bind_of_ok ((placeImages_eq hrecords).trans himages),
    bind_of_ok hlook, runIf, if_neg Bool.false_ne_true, bind_of_ok pure_run]
  exact hassembled

-- The clean-up does not concern the images and the VMs.
theorem Reassembled.congr {fs fs' : FileSystem β} (h : Reassembled F undamaged data store vm m fs)
    (hsame : ∀ q, store.imagesDir <+: q ∨ store.vmsDir <+: q → fs'.node q = fs.node q) :
    Reassembled F undamaged data store vm m fs' := by
  have hvms : ∀ q, store.vmRoot vm <+: q → fs'.node q = fs.node q := fun q hq =>
    hsame q (Or.inr ((List.prefix_append _ _).trans hq))
  refine ⟨fun d hd l hl => (h.layers d hd l hl).congr (hvms _ (layer_vms hl)), fun r hr => ?_,
    fun r hr => ?_⟩
  · obtain ⟨f, hf, hdata⟩ := h.images r hr
    exact ⟨f, (hsame _ (Or.inl (prefix_joinName store.imagesDir r.path))).trans hf, hdata⟩
  · obtain ⟨f, hf, hdata⟩ := h.config r hr
    exact ⟨f, (hvms _ (prefix_joinName _ r.path)).trans hf, hdata⟩

theorem OnlyRecorded.congr {fs fs' : FileSystem β} (h : OnlyRecorded store vm m fs)
    (hsame : ∀ q, store.vmRoot vm <+: q → fs'.node q = fs.node q) : OnlyRecorded store vm m fs' := by
  have hdisks : store.vmRoot vm <+: store.disksDir vm := List.prefix_append _ _
  have hsnaps : ∀ disk, store.vmRoot vm <+: store.snapshotsDir vm disk := fun _ =>
    List.prefix_append _ _
  refine ⟨fun n hn => h.disks n ?_, fun d hd n hn => h.snapshots d hd n ?_, fun n f hf => h.config n f ?_⟩
  · rwa [← hsame _ (hdisks.trans (List.prefix_append _ _))]
  · rwa [← hsame _ ((hsnaps d.1).trans (List.prefix_append _ _))]
  · rwa [← hsame _ (List.prefix_append _ _)]

-- A bundle of a VM that can be moved is restored where there is room for it.
theorem restore_run {bundlePath : Path} {asVm : Option String} {force : Bool}
    (hq : Faithful F undamaged host.qemuImg)
    (hopen : Opens host bundlePath asVm w.fs (bundleArchive head members) m.toJson vm)
    (hm : m.Fits host F data) (hbundle : BundleOf host m members)
    (hdata : ∀ arc b, (arc, b) ∈ members → data arc = some b)
    (hfree : w.fs.node (store.vmRoot vm) = none)
    (hhome : Homely store w.fs)
    (hagrees : ∀ r ∈ m.images, Agrees data store w.fs r)
    (hsound : ∀ d ∈ m.disks, ∀ r, d.2.active = some r → ∀ b, data r.file.path = some b → undamaged b)
    (hreads : ∀ fs, Reassembled F undamaged data store vm m fs → ∀ d ∈ m.disks,
      ∃ c, Resolves (F.layerAt fs) (activeRef store vm d.1) c) :
    ∃ result w', restore host store bundlePath asVm force w = (.ok result, w') ∧
      Reassembled F undamaged data store vm m w'.fs ∧ OnlyRecorded store vm m w'.fs := by
  rcases hrun : restore host store bundlePath asVm force w with ⟨r, w'⟩
  have hbody : ∀ {staging w₂}, Prepared store vm staging w w₂ → ∃ result w₃,
      restoreBody host store (bundleArchive head members) vm m.toJson staging w₂ =
        (.ok result, w₃) ∧
      Reassembled F undamaged data store vm m w₃.fs ∧ OnlyRecorded store vm m w₃.fs := fun hp =>
    restoreBody_run hq hopen.valid hm hbundle hdata hp hfree hhome hagrees hsound hreads
  cases restore_end hopen hrun with
  | refused hthere => exact absurd hfree hthere
  | homeless _ hq' hf => exact absurd hf (hhome _ _ (Or.inl (hq'.trans (List.prefix_append _ _))))
  | raised _ hp hraised =>
      obtain ⟨result, w₃, hok, -⟩ := hbody hp
      cases hraised.symm.trans hok
  | returned _ hp hreturned hend =>
      obtain ⟨result, w₃, hok, hall, honly⟩ := hbody hp
      obtain ⟨-, he⟩ := Prod.mk.inj (hreturned.symm.trans hok)
      rw [he] at hend
      have hkept : ∀ q, store.imagesDir <+: q ∨ store.vmsDir <+: q → w'.fs.node q = w₃.fs.node q := by
        intro q hq'
        rw [hend, FileSystem.prune_node_of_not_below]
        exact hq'.elim hp.disjoint_images hp.disjoint_vms
      exact ⟨_, w', rfl, hall.congr hkept, honly.congr fun q hq' =>
        hkept q (Or.inr ((List.prefix_append _ _).trans hq'))⟩

end

end VMForge.Storage
