import VMForge.Base.Run
import VMForge.Storage.Store.Refinement

namespace VMForge.Storage

open Exec

-- What happens to a store: a call, or a guest that writes to its disk.
inductive Deed (β : Type) where
  | call (c : Call)
  | guest (vm disk : String) (b : β)

section

variable {β : Type} (F : Formats β) (host : Host β) (store : DiskStore)

-- A guest replaces the bytes of the file of a disk.
def guestWrite (vm disk : String) (b : β) (w : World β) : World β :=
  match w.fs.node (store.diskFile vm disk) with
  | some (.file f) => { w with fs := w.fs.put (store.diskFile vm disk) (.file ⟨b, f.mode⟩) }
  | _ => w

def deed (w : World β) : Deed β → World β
  | .call c => (c.run host store w).2
  | .guest vm disk b => guestWrite store vm disk b w

-- A clone is made from an image of the store, and a guest leaves the size and the backing pointer of
-- its disk alone.
def Deed.Proper (w : World β) : Deed β → Prop
  | .call (.cloneDisk base _ _ _) => ∀ p, (store.clonePath host base w).1 = .ok p →
      ∃ i, nameMatches i = true ∧ p = store.imageFile i
  | .call _ => True
  | .guest vm disk b => ∃ l l', F.layerAt w.fs (activeRef store vm disk) = some l ∧
      F.decode "qcow2" b = some l' ∧ l'.size = l.size ∧ l'.backing = l.backing

-- What a reader sees of it.
noncomputable def Deed.act (w : World β) :
    Deed β → Versions.Act (String × String) String Content
  | .call c => c.act F store (c.run host store w).1.isOk (c.run host store w).2.fs
  | .guest vm disk b =>
      .write (vm, disk) ((view F store (guestWrite store vm disk b w).fs).current (vm, disk))

-- What a reader sees of a run.
noncomputable def history : World β → List (Deed β) → List (Versions.Act (String × String) String Content)
  | _, [] => []
  | w, d :: deeds => d.act F host store w :: history (deed host store w d) deeds

-- Nothing is kept under the home.
def EmptyHome (fs : FileSystem β) : Prop := ∀ q, Below store.home q → fs.node q = none

-- No deed deletes the snapshot `n`, or its disk.
def Deed.Spares (vm disk n : String) (w : World β) : Deed β → Prop
  | .call (.snapshotDelete vm' disk' n') =>
      vm' = vm ∧ disk' = disk ∧ n' = n → (store.snapshotDelete host vm disk n w).1.isOk = false
  | .call (.deleteDisk vm' disk' force) =>
      vm' = vm ∧ disk' = disk → (store.deleteDisk vm disk force w).1.isOk = false
  | _ => True

end

section

variable {β : Type} {F : Formats β} {host : Host β} {store : DiskStore} {vm disk n : String}
  {w w' : World β}

theorem spot_below (store : DiskStore) {q : Path} (h : Spot store q) : Below store.home q := by
  cases h with
  | disk vm disk =>
      rw [diskFile_eq]
      exact below_append _ _ _
  | entry vm disk m =>
      rw [entry_path_eq]
      exact below_append _ _ _
  | image i =>
      rw [imageFile_eq]
      exact below_append _ _ _

theorem Sound.of_empty {fs : FileSystem β} (h : EmptyHome store fs) : Sound F store fs := by
  have hnone : ∀ q, Spot store q → fs.node q = none := fun q hq => h q (spot_below store hq)
  have hlayer : ∀ r : ImageRef, Spot store r.1 → F.layerAt fs r = none := fun r hr =>
    layerAt_of_none (hnone r.1 hr)
  refine ⟨fun vm disk hn => absurd (hnone _ (.disk vm disk)) hn,
    fun vm disk m hm => absurd (hnone _ (.entry vm disk m)) hm, fun i format l hl => ?_,
    fun vm disk n hn => absurd (hnone _ (.snapshot store vm disk n)) hn, ?_, ?_⟩
  · rw [hlayer _ (.image i)] at hl
    cases hl
  · rintro vm disk n r ⟨l, hl, -⟩
    rw [hlayer _ (.snapshot store vm disk n)] at hl
    cases hl
  · rintro vm disk r ⟨l, hl, -⟩
    rw [hlayer _ (.disk vm disk)] at hl
    cases hl

-- Every call is a step of what the store is for.
theorem Call.refined (hq : Lawful F host.qemuImg) (hs : Sound F store w.fs) (c : Call)
    (hproper : (Deed.call c).Proper F host store w) :
    Refined F store w.fs (c.run host store w).2.fs
      (c.act F store (c.run host store w).1.isOk (c.run host store w).2.fs) := by
  cases c with
  | createDisk vm disk size preallocation clusterSize =>
      simp only [Call.run, dropResult_world]
      exact createDisk_refined hq hs rfl
  | resizeDisk vm disk newSize shrink => exact resizeDisk_refined hq hs rfl
  | importImage src name srcFormat compress =>
      simp only [Call.run, dropResult_world]
      exact importImage_refined hq hs rfl
  | importDisk src vm disk srcFormat =>
      simp only [Call.run, dropResult_world]
      exact importDisk_refined hq hs rfl
  | cloneDisk base vm disk size =>
      simp only [Call.run, dropResult_world]
      exact cloneDisk_refined hq hs hproper rfl
  | deleteDisk vm disk force => exact deleteDisk_refined hs rfl rfl
  | snapshotCreate vm disk name =>
      simp only [Call.run, dropResult_world, dropResult_isOk]
      exact snapshotCreate_refined hq hs rfl rfl
  | snapshotRevert vm disk name => exact snapshotRevert_refined hq hs rfl rfl
  | snapshotDelete vm disk name => exact snapshotDelete_refined hq hs rfl rfl

-- A guest that writes replaces one layer by another that is put on the same.
theorem guestWrite_layer {b : β} (h : (Deed.guest vm disk b).Proper F host store w) :
    ∃ l l', F.layerAt w.fs (activeRef store vm disk) = some l ∧ l'.backing = l.backing ∧
      F.layerAt (guestWrite store vm disk b w).fs (activeRef store vm disk) = some l' ∧
      SameBut store (· = store.diskFile vm disk) w.fs (guestWrite store vm disk b w).fs := by
  obtain ⟨l, l', hl, hl', -, hback⟩ := h
  obtain ⟨b₀, hb₀, -⟩ := layerAt_eq_some.mp hl
  obtain ⟨m, hf⟩ : ∃ m, w.fs.node (store.diskFile vm disk) = some (.file ⟨b₀, m⟩) :=
    (FileSystem.blob_eq_some w.fs).mp hb₀
  have hrun : (guestWrite store vm disk b w).fs = w.fs.put (store.diskFile vm disk) (.file ⟨b, m⟩) := by
    rw [guestWrite, hf]
  rw [hrun]
  refine ⟨l, l', hl, hback, ?_, fun q _ hne => FileSystem.put_node_of_ne _ hne⟩
  rw [activeRef, layerAt_written (FileSystem.put_node_self _ (admits_of_exists hf _)), hl']

-- Only the disk reads what its guest writes.
theorem guestWrite_refined (hs : Sound F store w.fs) {b : β}
    (hproper : (Deed.guest vm disk b).Proper F host store w) :
    Refined F store w.fs (guestWrite store vm disk b w).fs (.write (vm, disk)
      ((view F store (guestWrite store vm disk b w).fs).current (vm, disk))) := by
  obtain ⟨l, l', hl, hback, hl', hbut⟩ := guestWrite_layer hproper
  have hthere : w.fs.node (store.diskFile vm disk) ≠ none :=
    node_of_layerAt (r := activeRef store vm disk) (Option.isSome_iff_exists.mpr ⟨l, hl⟩)
  refine .write hs hbut (fun _ => hs.disks vm disk hthere) ?_
  rintro r ⟨l'', hl'', hr⟩
  obtain rfl := Option.some.inj (hl'.symm.trans hl'')
  exact hs.active vm disk r ⟨l, hl, hback.symm.trans hr⟩

theorem deed_refined (hq : Lawful F host.qemuImg) (hs : Sound F store w.fs) (d : Deed β)
    (hproper : d.Proper F host store w) :
    Refined F store w.fs (deed host store w d).fs (d.act F host store w) := by
  cases d with
  | call c => exact c.refined hq hs hproper
  | guest vm disk b => exact guestWrite_refined hs hproper

-- A deed that spares a snapshot does not erase it.
theorem Deed.not_erases {d : Deed β} (h : d.Spares host store vm disk n w) :
    ¬(d.act F host store w).Erases (vm, disk) n := by
  cases d with
  | guest vm' disk' b => exact id
  | call c =>
      cases c with
      | createDisk | resizeDisk | importImage | importDisk | cloneDisk => exact id
      | snapshotCreate vm' disk' n' =>
          simp only [Deed.act, Call.act]
          split <;> exact id
      | snapshotRevert vm' disk' n' =>
          simp only [Deed.act, Call.act]
          split <;> exact id
      | deleteDisk vm' disk' force =>
          simp only [Deed.act, Call.act]
          split
          · rename_i hok
            intro he
            obtain ⟨rfl, rfl⟩ := Prod.mk.inj he
            rw [Call.run, h ⟨rfl, rfl⟩] at hok
            cases hok
          · exact id
      | snapshotDelete vm' disk' n' =>
          simp only [Deed.act, Call.act]
          split
          · rename_i hok
            rintro ⟨he, rfl⟩
            obtain ⟨rfl, rfl⟩ := Prod.mk.inj he
            rw [Call.run, h ⟨rfl, rfl, rfl⟩] at hok
            cases hok
          · exact id

section Runs

variable {deeds : List (Deed β)}

theorem run_sound (hq : Lawful F host.qemuImg) (hs : Sound F store w.fs)
    (hrun : Along (deed host store) (fun w d => d.Proper F host store w) w deeds) :
    Sound F store (after (deed host store) w deeds).fs :=
  hrun.invariant (fun w => Sound F store w.fs) hs fun _ d hs hproper =>
    (deed_refined hq hs d hproper).sound

-- A snapshot that is spared reads in the end what it read in the beginning.
theorem run_keeps (hq : Lawful F host.qemuImg) (hs : Sound F store w.fs) {c : Content}
    (hsaved : Resolves (F.layerAt w.fs) (snapRef store vm disk n) c)
    (hrun : Along (deed host store)
      (fun w d => d.Proper F host store w ∧ d.Spares host store vm disk n w) w deeds) :
    Resolves (F.layerAt (after (deed host store) w deeds).fs) (snapRef store vm disk n) c := by
  have hkept := hrun.invariant
    (fun w => Sound F store w.fs ∧ (view F store w.fs).saved (vm, disk) n = some c)
    ⟨hs, contentAt_eq_some.mpr hsaved⟩ fun w d ⟨hs, hsaved⟩ ⟨hproper, hspares⟩ => by
      have hstep := deed_refined hq hs d hproper
      refine ⟨hstep.sound, ?_⟩
      rw [hstep.view_eq]
      exact Versions.Act.keeps_saved hsaved hstep.enabled (Deed.not_erases hspares)
  exact contentAt_eq_some.mp hkept.2

-- The run does to disks and snapshots what its history says, and saves and reloads only what is there.
theorem run_view (hq : Lawful F host.qemuImg) (hs : Sound F store w.fs)
    (hrun : Along (deed host store) (fun w d => d.Proper F host store w) w deeds) :
    view F store (after (deed host store) w deeds).fs =
        after (fun v a => a.apply v) (view F store w.fs) (history F host store w deeds) ∧
      Along (fun v a => Versions.Act.apply a v) (fun v a => a.Enabled v) (view F store w.fs)
        (history F host store w deeds) := by
  induction deeds generalizing w with
  | nil => exact ⟨rfl, trivial⟩
  | cons d deeds ih =>
      have hstep := deed_refined hq hs d hrun.1
      obtain ⟨hview, halong⟩ := ih hstep.sound hrun.2
      rw [hstep.view_eq] at hview halong
      exact ⟨hview, hstep.enabled, halong⟩

end Runs

section Once

variable {c : Content} {vm' disk' : String}

theorem Refined.reads {a : Versions.Act (String × String) String Content}
    (h : Refined F store w.fs w'.fs a)
    (ha : (a.apply (view F store w.fs)).current (vm', disk') = (view F store w.fs).current (vm', disk'))
    (hc : Resolves (F.layerAt w.fs) (activeRef store vm' disk') c) :
    Resolves (F.layerAt w'.fs) (activeRef store vm' disk') c := by
  have hcurrent := contentAt_eq_some.mpr hc
  rw [← h.view_eq] at ha
  exact contentAt_eq_some.mp (ha.trans hcurrent)

-- To take a snapshot changes nothing that a disk reads, and neither does to delete one.
theorem snapshotCreate_reads (hq : Lawful F host.qemuImg) (hs : Sound F store w.fs)
    {r : Except PyError Snapshot} (h : store.snapshotCreate host vm disk n w = (r, w'))
    (hc : Resolves (F.layerAt w.fs) (activeRef store vm' disk') c) :
    Resolves (F.layerAt w'.fs) (activeRef store vm' disk') c := by
  refine (snapshotCreate_refined hq hs h rfl).reads ?_ hc
  split <;> rfl

theorem snapshotDelete_reads (hq : Lawful F host.qemuImg) (hs : Sound F store w.fs)
    {r : Except PyError Unit} (h : store.snapshotDelete host vm disk n w = (r, w'))
    (hc : Resolves (F.layerAt w.fs) (activeRef store vm' disk') c) :
    Resolves (F.layerAt w'.fs) (activeRef store vm' disk') c := by
  refine (snapshotDelete_refined hq hs h rfl).reads ?_ hc
  split <;> rfl

-- A new snapshot reads what the disk reads.
theorem snapshotCreate_saves (hq : Lawful F host.qemuImg) (hs : Sound F store w.fs) {snap : Snapshot}
    (h : store.snapshotCreate host vm disk n w = (.ok snap, w')) :
    ∃ c, Resolves (F.layerAt w.fs) (activeRef store vm disk) c ∧
      Resolves (F.layerAt w'.fs) (snapRef store vm disk n) c := by
  have hstep : Refined F store w.fs w'.fs (.save (vm, disk) n) := snapshotCreate_refined hq hs h rfl
  obtain ⟨c, hc⟩ := Option.ne_none_iff_exists'.mp hstep.enabled.2
  have hsaved : (view F store w'.fs).saved (vm, disk) n = some c := by
    rw [hstep.view_eq, Versions.Act.save_saved, hc]
  exact ⟨c, contentAt_eq_some.mp hc, contentAt_eq_some.mp hsaved⟩

theorem snapshotRevert_reloads (hq : Lawful F host.qemuImg) (hs : Sound F store w.fs) {u : Unit}
    (h : store.snapshotRevert host vm disk n w = (.ok u, w'))
    (hc : Resolves (F.layerAt w.fs) (snapRef store vm disk n) c) :
    Resolves (F.layerAt w'.fs) (activeRef store vm disk) c := by
  have hstep : Refined F store w.fs w'.fs (.reload (vm, disk) n) := snapshotRevert_refined hq hs h rfl
  have hcurrent : (view F store w'.fs).current (vm, disk) = some c := by
    rw [hstep.view_eq, Versions.Act.reload_current]
    exact contentAt_eq_some.mpr hc
  exact contentAt_eq_some.mp hcurrent

end Once

-- A snapshot that is taken reads what the disk reads, for as long as it is not deleted, and a revert
-- brings that back. No disk reads anything else because a snapshot was taken or deleted.
structure Immutable (F : Formats β) (host : Host β) (store : DiskStore) (t : World β) : Prop where
  taken : ∀ vm disk n snap t₁, store.snapshotCreate host vm disk n t = (.ok snap, t₁) →
    ∃ c, Resolves (F.layerAt t.fs) (activeRef store vm disk) c ∧
      ∀ later, Along (deed host store)
          (fun w d => d.Proper F host store w ∧ d.Spares host store vm disk n w) t₁ later →
        Resolves (F.layerAt (after (deed host store) t₁ later).fs) (snapRef store vm disk n) c ∧
          ∀ t₂, store.snapshotRevert host vm disk n (after (deed host store) t₁ later) = (.ok (), t₂) →
            Resolves (F.layerAt t₂.fs) (activeRef store vm disk) c
  undisturbed : ∀ vm disk n vm' disk' c, Resolves (F.layerAt t.fs) (activeRef store vm' disk') c →
    Resolves (F.layerAt (store.snapshotCreate host vm disk n t).2.fs) (activeRef store vm' disk') c ∧
      Resolves (F.layerAt (store.snapshotDelete host vm disk n t).2.fs) (activeRef store vm' disk') c

-- In every state that a run reaches the snapshots are immutable points in time.
theorem snapshots_immutable (hq : Lawful F host.qemuImg) (hempty : EmptyHome store w.fs)
    {deeds : List (Deed β)}
    (hrun : Along (deed host store) (fun w d => d.Proper F host store w) w deeds) :
    Immutable F host store (after (deed host store) w deeds) := by
  have hs := run_sound hq (.of_empty hempty) hrun
  refine ⟨fun vm disk n snap t₁ htaken => ?_, fun vm disk n vm' disk' c hc =>
    ⟨snapshotCreate_reads hq hs rfl hc, snapshotDelete_reads hq hs rfl hc⟩⟩
  obtain ⟨c, hc, hsnap⟩ := snapshotCreate_saves hq hs htaken
  have hs₁ : Sound F store t₁.fs := (snapshotCreate_refined hq hs htaken rfl).sound
  refine ⟨c, hc, fun later hlater => ?_⟩
  have hkept := run_keeps hq hs₁ hsnap hlater
  have hsound := run_sound hq hs₁ (hlater.strengthen (fun w => Sound F store w.fs) hs₁
    (fun w d hs h => (deed_refined hq hs d h.1).sound) fun _ _ _ h => h.1)
  exact ⟨hkept, fun t₂ hrevert => snapshotRevert_reloads hq hsound hrevert hkept⟩

end

section Runs

namespace Memory

-- What a command left, and what a driver finds in it.
theorem layerAt_qcow2 {fs : FileSystem Blob} {path : Path} {size : Nat} {data : List (Nat × UInt8)}
    {backing : Option ImageRef} (hb : fs.blob path = some (.qcow2 size data backing)) :
    memoryFormats.layerAt fs (path, "qcow2") =
      some (written size data (backing.map fun b => (Path.resolve b.1, b.2))) := by
  simp only [Formats.layerAt, hb, Option.bind_some]
  rfl

theorem lawful (cwd : Path) : Lawful memoryFormats (memoryHost cwd).qemuImg where
  creates := creates cwd
  describes := describes cwd
  rebases := rebases cwd
  created := by
    intro w path size backing preallocation clusterSize b l hb hl
    change (exec w _).content = some b at hb
    have hwritten : ∃ n, b = .qcow2 n [] (backing.map refOf) := by
      simp only [exec] at hb
      split at hb
      · cases hb
      · split at hb
        · split at hb
          · exact ⟨_, (Option.some.inj hb).symm⟩
          · cases hb
        · exact ⟨_, (Option.some.inj hb).symm⟩
    obtain ⟨n, rfl⟩ := hwritten
    rw [decode_written] at hl
    rw [← Option.some.inj hl]
    exact Or.inr rfl
  converted := by
    intro w src dst srcFormat compress b format l hb hl
    change (exec w _).content = some b at hb
    simp only [exec] at hb
    split at hb
    · cases hb
    · split at hb
      · obtain rfl := Option.some.inj hb
        simp only [memoryFormats, Blob.decode] at hl
        split at hl
        · rw [← Option.some.inj hl]
          rfl
        · cases hl
      · cases hb
  convertedWhole := by
    intro w src dst srcFormat compress h
    change (exec w _).failure = none at h
    change ∃ b, (exec w _).content = some b ∧ _
    cases hsrc : w.fs.blob src with
    | none => simp [exec, hsrc, fail] at h
    | some b =>
        cases hc : content w.fs (src, srcFormat.getD b.format) with
        | none => simp [exec, hsrc, hc, fail] at h
        | some c =>
            simp only [exec, hsrc, hc]
            exact ⟨_, rfl, rfl⟩
  resized := by
    intro w path newSize shrink b l' hb hl'
    change (exec w _).content = some b at hb
    simp only [exec] at hb
    split at hb
    · rename_i size data backing n hold hn
      obtain rfl := Option.some.inj hb
      refine ⟨_, layerAt_qcow2 hold, ?_⟩
      rw [← Option.some.inj hl']
      rfl
    · cases hb
  resizedWhole := by
    intro w path newSize shrink b _ hb
    change (exec w _).content = some b at hb
    simp only [exec] at hb
    split at hb
    · obtain rfl := Option.some.inj hb
      rfl
    · cases hb
  rebased := by
    intro w path backing b hb
    change (exec w _).content = some b at hb
    have hok : ((memoryHost cwd).qemuImg.exec w (.rebase path backing false)).failure = none := by
      change (exec w _).failure = none
      revert hb
      simp only [exec, Bool.false_eq_true, ite_false]
      split
      · split
        · exact fun _ => rfl
        · exact fun hb => by cases hb
      · exact fun hb => by cases hb
    obtain ⟨b', l', hb', hl', hback, hreads⟩ := rebases cwd w path backing hok
    obtain rfl := Option.some.inj (hb.symm.trans hb')
    simp only [exec, Bool.false_eq_true, ite_false] at hb
    split at hb
    · rename_i size data old hold
      exact ⟨_, l', layerAt_qcow2 hold, hl', Or.inr hback, hreads⟩
    · cases hb

end Memory

-- A home with nothing in it, and a file to import.
def freshHome : World Blob :=
  Memory.world [(["srv"], .dir), (["disk.img"], Memory.plain (.text "data"))]

theorem freshHome_empty : EmptyHome treeStore freshHome.fs := by
  rintro q ⟨hq, hne⟩
  by_contra hn
  have hmem : q ∈ [["disk.img"], ["srv"], []] := freshHome.fs.listed q hn
  simp only [List.mem_cons, List.not_mem_nil, or_false] at hmem
  obtain rfl | rfl | rfl := hmem
  · exact absurd hq (by decide)
  · exact hne rfl
  · exact absurd hq (by decide)

-- An image, a clone of it that a guest writes to, and a snapshot.
def cloneDeeds : List (Deed Blob) :=
  [.call (.importImage "/disk.img" "base" none false), .call (.cloneDisk "base" "web" "root" none),
    .guest "web" "root" (.qcow2 4 [(1, 7)] (some (imagePath "base", "qcow2"))),
    .call (.snapshotCreate "web" "root" "s1")]

theorem cloneDeeds_proper : Along (deed (memoryHost []) treeStore)
    (fun w d => d.Proper memoryFormats (memoryHost []) treeStore w) freshHome cloneDeeds := by
  refine ⟨trivial, fun p hp => ⟨"base", by decide, ?_⟩, ⟨_, _, rfl, rfl, rfl, rfl⟩, trivial, trivial⟩
  exact (Except.ok.inj hp).symm

theorem snapshots_immutable_clone :
    Immutable memoryFormats (memoryHost []) treeStore
      (after (deed (memoryHost []) treeStore) freshHome cloneDeeds) :=
  snapshots_immutable (Memory.lawful []) freshHome_empty cloneDeeds_proper

end Runs

end VMForge.Storage
