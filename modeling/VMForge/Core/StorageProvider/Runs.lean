import VMForge.Core.StorageProvider
import VMForge.Storage.Store.Valid

namespace VMForge.Core.StorageProvider

open Storage Exec

-- What happens to the store while the engine uses it: a call, or a guest that writes to its disk.
inductive EngineDeed (β : Type) where
  | call (c : EngineCall)
  | guest (vm : VmName) (disk : DiskName) (b : β)

def EngineDeed.deed {β : Type} : EngineDeed β → Deed β
  | .call c => .call c.call
  | .guest vm disk b => .guest vm.text disk.text b

section

variable {β : Type} (F : Formats β) (host : Host β) (store : SubprocessStore)

def engineDeed (w : World β) : EngineDeed β → World β
  | .call c => (c.run host store w).2
  | .guest vm disk b => guestWrite store.home vm.text disk.text b w

-- The working directory holds nothing of the name of the image.
def EngineCall.Unshadowed (w : World β) : EngineCall → Prop
  | .createDisk _ _ _ (some image) => w.fs.node (Path.ofString host.cwd image.text) = none
  | _ => True

def EngineDeed.Proper (w : World β) : EngineDeed β → Prop
  | .call c => c.Sendable ∧ c.Unshadowed host w
  | .guest vm disk b => (Deed.guest vm.text disk.text b).Proper F host store.home w

-- No deed deletes the snapshot, or its disk.
def EngineDeed.Spares (vm : VmName) (disk : DiskName) (name : SnapshotName) (w : World β) :
    EngineDeed β → Prop
  | .call (.deleteSnapshot vm' disk' name') =>
      vm' = vm ∧ disk' = disk ∧ name' = name →
        ((EngineCall.deleteSnapshot vm' disk' name').run host store w).1.isOk = false
  | .call (.deleteDisk vm' disk') =>
      vm' = vm ∧ disk' = disk → ((EngineCall.deleteDisk vm' disk').run host store w).1.isOk = false
  | _ => True

end

section

variable {β : Type} {F : Formats β} {host : Host β} {store : SubprocessStore} {w w' : World β}

-- The names of the engine are names of the store.
theorem EngineCall.valid (c : EngineCall) : c.call.Valid := by
  cases c with
  | importImage src name => exact name.nameMatches
  | createDisk vm disk sizeBytes base =>
      cases base with
      | none => exact ⟨vm.nameMatches, disk.nameMatches⟩
      | some image => exact ⟨vm.nameMatches, disk.nameMatches⟩
  | resizeDisk vm disk sizeBytes => exact ⟨vm.nameMatches, disk.nameMatches⟩
  | snapshot vm disk name => exact ⟨vm.nameMatches, disk.nameMatches, name.nameMatches⟩
  | revert vm disk name => exact ⟨vm.nameMatches, disk.nameMatches⟩
  | deleteSnapshot vm disk name => exact ⟨vm.nameMatches, disk.nameMatches⟩
  | deleteDisk vm disk => exact ⟨vm.nameMatches, disk.nameMatches⟩

section Kinds

-- What an exception of the store is reported as.
theorem errorOf_kind (e : PyError) :
    (∃ message code, e = .storageError message code ∧
        (errorOf e).kind = ErrorKind.fromCode code.text) ∨ (errorOf e).kind = .backend := by
  cases e with
  | storageError message code => exact Or.inl ⟨message, code, rfl, rfl⟩
  | _ => exact Or.inr rfl

theorem errorOf_kind_of_valid {e : PyError} (h : NotRejected e) :
    (errorOf e).kind ∈ [.notFound, .alreadyExists, .invalidState, .backend] := by
  rcases errorOf_kind e with ⟨message, code, rfl, hkind⟩ | hkind
  · rw [hkind]
    cases code with
    | notFound => decide
    | alreadyExists => decide
    | invalidConfig => exact absurd rfl (h message)
    | invalidState => decide
  · rw [hkind]
    decide

theorem EngineCall.kind {c : EngineCall} {f : Failure} (h : (c.run host store w).1 = .error f) :
    f.kind ∈ [.notFound, .alreadyExists, .invalidState, .backend] := by
  by_cases hsend : c.Sendable
  · have hconveys := @EngineCall.conveys _ host store c hsend w
    rcases hcall : c.call.run host store.home w with ⟨e | u, w'⟩
    · rw [hconveys.error e (by rw [hcall])] at h
      rw [← Except.error.inj h]
      exact errorOf_kind_of_valid (Storage.Call.notRejected c.valid _ _ _ hcall)
    · rcases hconveys.ok (by rw [hcall]) with hok | ⟨-, hodd⟩
      · rw [hok] at h
        cases h
      · rw [hodd] at h
        rw [← Except.error.inj h]
        decide
  · cases c with
    | importImage src name =>
        have hparse : Cli.parse ["import", src, "--name", name.text] = none := if_neg hsend
        have hrun : StorageProvider.run store host ["import", src, "--name", name.text] w =
            (.error (.reported ⟨.backend, .exited 2⟩), w) := by
          unfold StorageProvider.run Cli.invoke
          simp only [hparse]
        rw [EngineCall.run, StorageProvider.importImage, forget_bind, bind_of_error hrun] at h
        rw [← Except.error.inj h]
        decide
    | createDisk | resizeDisk | snapshot | revert | deleteSnapshot | deleteDisk =>
        exact absurd trivial hsend

theorem snapshotTree_notRejected {vm disk : String} (hvm : nameMatches vm = true)
    (hdisk : nameMatches disk = true) : Raises NotRejected (store.home.snapshotTree host vm disk) := by
  refine .bind (snapshotList_notRejected hvm hdisk) fun snaps => ?_
  split
  · exact .raise nofun
  · exact .pure _
  · exact .pure _

theorem tree_kind {vm : VmName} {disk : DiskName} {f : Failure}
    (h : (tree store host vm disk w).1 = .error f) :
    f.kind ∈ [.notFound, .alreadyExists, .invalidState, .backend] := by
  have hparse : Cli.parse ["tree", vm.text, disk.text] = some (.snapshotList vm.text disk.text) := rfl
  have hfunc : Raises NotRejected ((Cli.Request.snapshotList vm.text disk.text).func host store.home) :=
    .bind (snapshotList_notRejected vm.nameMatches disk.nameMatches) fun _ =>
      .bind (snapshotTree_notRejected vm.nameMatches disk.nameMatches) fun _ => .pure _
  have hunread : ∀ {e : Failure}, Failure.unexpected "tree output" = e →
      e.kind ∈ [.notFound, .alreadyExists, .invalidState, .backend] := by
    rintro e rfl
    decide
  rcases hrun : run store host ["tree", vm.text, disk.text] w with ⟨e | value, w'⟩
  · rw [tree, bind_of_error hrun] at h
    rw [← Except.error.inj h]
    rw [run_request hparse] at hrun
    rcases hlist : (Cli.Request.snapshotList vm.text disk.text).func host store.home w with ⟨e' | out, w₁⟩
    · rw [hlist] at hrun
      rw [← Except.error.inj (Prod.mk.inj hrun).1]
      exact errorOf_kind_of_valid (hfunc _ _ _ hlist)
    · rw [hlist] at hrun
      cases (Prod.mk.inj hrun).1
  · rw [tree, bind_of_ok hrun] at h
    cases value with
    | snapshots snaps =>
        simp only at h
        cases hread : snaps.mapM readSnapshot with
        | some infos =>
            simp only [hread] at h
            cases h
        | none =>
            simp only [hread] at h
            exact hunread (Except.error.inj h)
    | path | done | snapshot => exact hunread (Except.error.inj h)

-- The engine is never told that what it asked for is ill formed: its names and sizes pass the checks of
-- the store. What fails is missing, there already, in the wrong state, or fails behind the store.
theorem engine_kinds (host : Host β) (store : SubprocessStore) (w : World β) :
    (∀ (c : EngineCall) (f : Failure), (c.run host store w).1 = .error f →
      f.kind ∈ [.notFound, .alreadyExists, .invalidState, .backend]) ∧
    ∀ (vm : VmName) (disk : DiskName) (f : Failure), (tree store host vm disk w).1 = .error f →
      f.kind ∈ [.notFound, .alreadyExists, .invalidState, .backend] :=
  ⟨fun _ _ h => EngineCall.kind h, fun _ _ _ h => tree_kind h⟩

end Kinds

section Steps

theorem EngineDeed.deed_proper {d : EngineDeed β} (h : d.Proper F host store w) :
    d.deed.Proper F host store.home w := by
  cases d with
  | guest vm disk b => exact h
  | call c =>
      cases c with
      | createDisk vm disk sizeBytes base =>
          cases base with
          | none => exact trivial
          | some image =>
              intro p hp
              have hpath := @clonePath_run _ host store.home image.text w
              rw [imageCandidate_eq store.home image.nameMatches] at hpath
              have hnone : w.fs.node (Path.ofString host.cwd image.text) = none := h.2
              rw [if_neg (by simpa using hnone)] at hpath
              refine ⟨image.text, image.nameMatches, ?_⟩
              rw [hpath] at hp
              split at hp
              · exact (Except.ok.inj hp).symm
              · cases hp
      | importImage | resizeDisk | snapshot | revert | deleteSnapshot | deleteDisk => exact trivial

theorem engineDeed_call {c : EngineCall} (hsend : c.Sendable) :
    engineDeed host store w (.call c) = deed host store.home w (.call c.call) :=
  (c.conveys hsend w).world

theorem engineDeed_eq {d : EngineDeed β} (h : d.Proper F host store w) :
    engineDeed host store w d = deed host store.home w d.deed := by
  cases d with
  | guest vm disk b => rfl
  | call c => exact engineDeed_call h.1

-- Where the engine is told of no success, there was none.
theorem EngineCall.failed {c : EngineCall} (hsend : c.Sendable) (hc : ∀ vm disk name, c ≠ .snapshot vm disk name)
    (h : (c.run host store w).1.isOk = false) : (c.call.run host store.home w).1.isOk = false := by
  rcases hcall : (c.call.run host store.home w).1 with e | u
  · rfl
  · rcases (c.conveys hsend w).ok hcall with hok | ⟨⟨vm, disk, name, rfl⟩, -⟩
    · rw [hok] at h
      cases h
    · exact absurd rfl (hc vm disk name)

theorem EngineDeed.deed_spares {vm : VmName} {disk : DiskName} {name : SnapshotName} {d : EngineDeed β}
    (h : d.Spares host store vm disk name w) : d.deed.Spares host store.home vm.text disk.text name.text w := by
  have hname : ∀ {type : NameType} {n n' : Name type}, n'.text = n.text → n' = n := by
    rintro type ⟨_, _⟩ ⟨_, _⟩ rfl
    rfl
  cases d with
  | guest vm' disk' b => exact trivial
  | call c =>
      cases c with
      | deleteSnapshot vm' disk' name' =>
          rintro ⟨hvm, hdisk, hn⟩
          obtain rfl := hname hvm
          obtain rfl := hname hdisk
          obtain rfl := hname hn
          exact EngineCall.failed (c := .deleteSnapshot vm' disk' name') trivial nofun (h ⟨rfl, rfl, rfl⟩)
      | deleteDisk vm' disk' =>
          rintro ⟨hvm, hdisk⟩
          obtain rfl := hname hvm
          obtain rfl := hname hdisk
          exact EngineCall.failed (c := .deleteDisk vm' disk') trivial nofun (h ⟨rfl, rfl⟩)
      | createDisk vm' disk' sizeBytes base => cases base <;> exact trivial
      | importImage | resizeDisk | snapshot | revert => exact trivial

end Steps

section Histories

variable {deeds : List (EngineDeed β)}

-- A run of the engine is a run of the store.
theorem after_deeds {C : World β → EngineDeed β → Prop} (hC : ∀ w d, C w d → d.Proper F host store w)
    (h : Along (engineDeed host store) C w deeds) :
    after (engineDeed host store) w deeds = after (deed host store.home) w (deeds.map EngineDeed.deed) := by
  induction deeds generalizing w with
  | nil => rfl
  | cons d deeds ih =>
      rw [after_cons, ih h.2, List.map_cons, after_cons, engineDeed_eq (hC w d h.1)]

theorem along_deeds {C : World β → EngineDeed β → Prop} {D : World β → Deed β → Prop}
    (hD : ∀ w d, C w d → D w d.deed) (hC : ∀ w d, C w d → d.Proper F host store w)
    (h : Along (engineDeed host store) C w deeds) :
    Along (deed host store.home) D w (deeds.map EngineDeed.deed) := by
  induction deeds generalizing w with
  | nil => trivial
  | cons d deeds ih =>
      refine ⟨hD w d h.1, ?_⟩
      have hrest := h.2
      rw [engineDeed_eq (hC w d h.1)] at hrest
      exact ih hrest

theorem snapshot_ok {vm : VmName} {disk : DiskName} {name : SnapshotName} {inf : SnapshotInfo}
    (h : snapshot store host vm disk name w = (.ok inf, w')) :
    ∃ snap, store.home.snapshotCreate host vm.text disk.text name.text w = (.ok snap, w') := by
  have hparse : Cli.parse ["snapshot", "create", vm.text, disk.text, name.text] =
      some (.snapshotCreate vm.text disk.text name.text) := rfl
  rcases hcreate : store.home.snapshotCreate host vm.text disk.text name.text w with ⟨e | snap, w₁⟩
  · rw [snapshot, bind_of_error (run_error hparse (bind_of_error hcreate))] at h
    cases (Prod.mk.inj h).1
  · rw [snapshot, bind_of_ok (run_ok hparse (bind_of_ok hcreate))] at h
    simp only at h
    cases hread : readSnapshot snap with
    | none =>
        rw [hread] at h
        cases (Prod.mk.inj h).1
    | some inf' =>
        rw [hread] at h
        obtain ⟨-, rfl⟩ := pure_eq_ok.mp h
        exact ⟨snap, rfl⟩

theorem revert_ok {vm : VmName} {disk : DiskName} {name : SnapshotName}
    (h : revert store host vm disk name w = (.ok (), w')) :
    store.home.snapshotRevert host vm.text disk.text name.text w = (.ok (), w') := by
  have hparse : Cli.parse ["snapshot", "revert", vm.text, disk.text, name.text] =
      some (.snapshotRevert vm.text disk.text name.text) := rfl
  rcases hrevert : store.home.snapshotRevert host vm.text disk.text name.text w with ⟨e | u, w₁⟩
  · rw [revert, bind_of_error (run_error hparse (bind_of_error hrevert))] at h
    cases (Prod.mk.inj h).1
  · rw [revert, bind_of_ok (run_ok hparse (bind_of_ok hrevert))] at h
    obtain ⟨-, rfl⟩ := pure_eq_ok.mp h
    rfl

end Histories

-- What the engine snapshots it gets back: however the engine and the guests go on, as long as the
-- snapshot is not deleted, a revert to it makes the disk read what it read when it was taken.
theorem revert_restores (hq : Lawful F host.qemuImg) (hempty : EmptyHome store.home w.fs)
    {before later : List (EngineDeed β)} {vm : VmName} {disk : DiskName} {name : SnapshotName}
    {inf : SnapshotInfo} {w₁ w₂ : World β}
    (hbefore : Along (engineDeed host store) (fun w d => d.Proper F host store w) w before)
    (htaken : snapshot store host vm disk name (after (engineDeed host store) w before) = (.ok inf, w₁))
    (hlater : Along (engineDeed host store)
      (fun w d => d.Proper F host store w ∧ d.Spares host store vm disk name w) w₁ later)
    (hrevert : revert store host vm disk name (after (engineDeed host store) w₁ later) = (.ok (), w₂)) :
    ∃ c, Resolves (F.layerAt (after (engineDeed host store) w before).fs)
        (activeRef store.home vm.text disk.text) c ∧
      Resolves (F.layerAt w₂.fs) (activeRef store.home vm.text disk.text) c := by
  rw [after_deeds (fun _ _ h => h) hbefore] at htaken ⊢
  have hproper : ∀ (w : World β) (d : EngineDeed β),
      d.Proper F host store w ∧ d.Spares host store vm disk name w → d.Proper F host store w :=
    fun _ _ h => h.1
  have hrun : Along (deed host store.home) (fun w d => d.Proper F host store.home w) w
      (before.map EngineDeed.deed) :=
    along_deeds (fun _ _ h => EngineDeed.deed_proper h) (fun _ _ h => h) hbefore
  have hs := run_sound hq (.of_empty hempty) hrun
  obtain ⟨snap, hcreate⟩ := snapshot_ok htaken
  obtain ⟨c, hc, hsnap⟩ := snapshotCreate_saves hq hs hcreate
  have hs₁ : Sound F store.home w₁.fs := (snapshotCreate_refined hq hs hcreate rfl).sound
  -- the snapshot is kept, and the files stay sound
  have hspared : Along (deed host store.home) (fun w d => d.Proper F host store.home w ∧
      d.Spares host store.home vm.text disk.text name.text w) w₁ (later.map EngineDeed.deed) :=
    along_deeds (fun _ _ h => ⟨EngineDeed.deed_proper h.1, EngineDeed.deed_spares h.2⟩) hproper hlater
  have hkept := run_keeps hq hs₁ hsnap hspared
  have hs₂ := run_sound hq hs₁
    (along_deeds (fun _ _ h => EngineDeed.deed_proper h.1) hproper hlater)
  rw [after_deeds hproper hlater] at hrevert
  exact ⟨c, hc, snapshotRevert_reloads hq hs₂ (revert_ok hrevert) hkept⟩

end

section Session

def rootDisk : DiskName := ⟨"root", by decide⟩

def firstSnapshot : SnapshotName := ⟨"s1", by decide⟩

-- An image, a disk made of it, and a guest that writes to the disk.
def sessionBefore : List (EngineDeed Blob) :=
  [.call (.importImage "/disk.img" baseImage), .call (.createDisk webVm rootDisk 0 (some baseImage)),
    .guest webVm rootDisk (.qcow2 4 [(1, 7)] (some (imagePath "base", "qcow2")))]

-- The guest writes over what it wrote.
def sessionLater : List (EngineDeed Blob) :=
  [.guest webVm rootDisk (.qcow2 4 [(1, 9)] (some (snapPath "s1", "qcow2")))]

theorem sessionBefore_proper : Along (engineDeed (memoryHost []) ⟨treeStore⟩)
    (fun w d => d.Proper memoryFormats (memoryHost []) ⟨treeStore⟩ w) freshHome sessionBefore := by
  have hsend : (EngineCall.importImage "/disk.img" baseImage).Sendable := show _ = true by decide
  refine ⟨⟨hsend, trivial⟩, ?_⟩
  rw [engineDeed_call hsend]
  refine ⟨⟨trivial, rfl⟩, ?_⟩
  rw [@engineDeed_call _ _ _ _ (.createDisk webVm rootDisk 0 (some baseImage)) trivial]
  exact ⟨⟨_, _, rfl, rfl, rfl, rfl⟩, trivial⟩

theorem revert_restores_session :
    let host := memoryHost []
    let store : SubprocessStore := ⟨treeStore⟩
    let taken := snapshot store host webVm rootDisk firstSnapshot
      (after (engineDeed host store) freshHome sessionBefore)
    let reverted := revert store host webVm rootDisk firstSnapshot
      (after (engineDeed host store) taken.2 sessionLater)
    taken.1.isOk = true ∧ reverted.1.isOk = true ∧
      ∃ c, Resolves (memoryFormats.layerAt (after (engineDeed host store) freshHome sessionBefore).fs)
          (activeRef treeStore "web" "root") c ∧
        Resolves (memoryFormats.layerAt reverted.2.fs) (activeRef treeStore "web" "root") c := by
  intro host store taken reverted
  have hrun := after_deeds (fun _ _ h => h) sessionBefore_proper
  have htaken : taken.1.isOk = true := by
    simp only [taken, host, store, hrun]
    decide +kernel
  have hreverted : reverted.1.isOk = true := by
    simp only [reverted, taken, host, store, hrun]
    decide +kernel
  obtain ⟨inf, hsnap⟩ := eq_ok_of_isOk htaken
  obtain ⟨_, hrevert⟩ := eq_ok_of_isOk hreverted
  have hlater : Along (engineDeed host store) (fun w d => d.Proper memoryFormats host store w ∧
      d.Spares host store webVm rootDisk firstSnapshot w) taken.2 sessionLater := by
    refine ⟨⟨?_, trivial⟩, trivial⟩
    simp only [taken, host, store, hrun]
    exact ⟨_, _, rfl, rfl, rfl, rfl⟩
  exact ⟨htaken, hreverted,
    revert_restores (Memory.lawful []) freshHome_empty sessionBefore_proper hsnap hlater hrevert⟩

end Session

end VMForge.Core.StorageProvider
