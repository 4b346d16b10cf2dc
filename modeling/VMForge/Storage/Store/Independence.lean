import VMForge.Storage.Store.Reachable

namespace VMForge.Storage

open Exec

section

variable {β : Type}

-- The disk that a deed is about.
def Deed.disk : Deed β → Option (String × String)
  | .call (.createDisk vm disk _ _ _) | .call (.resizeDisk vm disk _ _)
  | .call (.importDisk _ vm disk _) | .call (.cloneDisk _ vm disk _) | .call (.deleteDisk vm disk _)
  | .call (.snapshotCreate vm disk _) | .call (.snapshotRevert vm disk _)
  | .call (.snapshotDelete vm disk _) | .guest vm disk _ => some (vm, disk)
  | .call (.importImage _ _ _ _) => none

variable (host : Host β) (store : DiskStore)

-- A call raised a `StorageError`.
def Deed.isRefused (w : World β) : Deed β → Bool
  | .call c =>
      match (c.run host store w).1 with
      | .error (.storageError _ _) => true
      | _ => false
  | .guest _ _ _ => false

-- A run without the calls that were refused.
def accepted : World β → List (Deed β) → List (Deed β)
  | _, [] => []
  | w, d :: deeds =>
      if d.isRefused host store w then accepted (deed host store w d) deeds
      else d :: accepted (deed host store w d) deeds

end

section

variable {β : Type} {F : Formats β} {host : Host β} {store : DiskStore} {vm disk n : String}
  {w : World β} {deeds : List (Deed β)}

-- A refused call has done nothing.
theorem deed_of_refused {d : Deed β} (h : d.isRefused host store w = true) : deed host store w d = w := by
  cases d with
  | guest vm disk b => cases h
  | call c =>
      rcases hrun : c.run host store w with ⟨e | u, w'⟩
      · simp only [Deed.isRefused, hrun] at h
        cases e with
        | storageError message code =>
            rw [deed, hrun]
            exact Call.refuses c w message code w' hrun
        | _ => cases h
      · simp only [Deed.isRefused, hrun] at h
        cases h

theorem after_accepted : after (deed host store) w (accepted host store w deeds) =
    after (deed host store) w deeds := by
  induction deeds generalizing w with
  | nil => rfl
  | cons d deeds ih =>
      rw [accepted, after_cons]
      split
      · rename_i hrefused
        rw [deed_of_refused hrefused]
        exact ih
      · rw [after_cons, ih]

theorem accepted_nothing_refused :
    Along (deed host store) (fun w d => d.isRefused host store w = false) w (accepted host store w deeds) := by
  induction deeds generalizing w with
  | nil => trivial
  | cons d deeds ih =>
      rw [accepted]
      split
      · rename_i hrefused
        have hrest := @ih (deed host store w d)
        rwa [deed_of_refused hrefused] at hrest ⊢
      · rename_i hkept
        exact ⟨by simpa using hkept, ih⟩

-- A `StorageError` says that nothing was done: a run ends as it does without the calls that raised
-- one, and without them none of its calls raises one.
theorem refused_without_trace (host : Host β) (store : DiskStore) (w : World β) (deeds : List (Deed β)) :
    after (deed host store) w (accepted host store w deeds) = after (deed host store) w deeds ∧
      Along (deed host store) (fun w d => d.isRefused host store w = false) w
        (accepted host store w deeds) :=
  ⟨after_accepted, accepted_nothing_refused⟩

-- What a reader sees of a deed is about the disk that the deed is about.
theorem Deed.disk_of_about {d : Deed β} (h : (d.act F host store w).About (vm, disk)) :
    d.disk = some (vm, disk) := by
  cases d with
  | guest vm' disk' b => exact congrArg some h
  | call c =>
      cases c with
      | importImage src name srcFormat compress => exact h.elim
      | createDisk | resizeDisk | importDisk | cloneDisk => exact congrArg some h
      | deleteDisk | snapshotCreate | snapshotRevert | snapshotDelete =>
          simp only [Deed.act, Call.act] at h
          split at h
          · exact congrArg some h
          · exact h.elim

-- Nothing is about a disk in the history of a run that leaves it alone.
theorem history_about
    (hrun : Along (deed host store) (fun _ d => d.disk ≠ some (vm, disk)) w deeds) :
    (history F host store w deeds).filter (fun a => a.About (vm, disk)) = [] := by
  induction deeds generalizing w with
  | nil => rfl
  | cons d deeds ih =>
      rw [history, List.filter_cons_of_neg]
      · exact ih hrun.2
      · intro habout
        exact hrun.1 (Deed.disk_of_about (of_decide_eq_true habout))

-- Disks are apart: in every state that a run reaches, whatever is done to other disks, their snapshots
-- and their images, however it fails, what a disk reads stays, and what its snapshots read.
theorem others_spared (hq : Lawful F host.qemuImg) (hempty : EmptyHome store w.fs)
    {before : List (Deed β)}
    (hbefore : Along (deed host store) (fun w d => d.Proper F host store w) w before)
    (hrun : Along (deed host store) (fun w d => d.Proper F host store w ∧ d.disk ≠ some (vm, disk))
      (after (deed host store) w before) deeds) :
    (∀ c, Resolves (F.layerAt (after (deed host store) w (before ++ deeds)).fs) (activeRef store vm disk) c ↔
        Resolves (F.layerAt (after (deed host store) w before).fs) (activeRef store vm disk) c) ∧
      ∀ n c, Resolves (F.layerAt (after (deed host store) w (before ++ deeds)).fs) (snapRef store vm disk n) c ↔
        Resolves (F.layerAt (after (deed host store) w before).fs) (snapRef store vm disk n) c := by
  have hs := run_sound hq (.of_empty hempty) hbefore
  have hproper : Along (deed host store) (fun w d => d.Proper F host store w)
      (after (deed host store) w before) deeds :=
    hrun.strengthen (fun _ => True) trivial (fun _ _ _ _ => trivial) fun _ _ _ h => h.1
  have hapart : Along (deed host store) (fun _ d => d.disk ≠ some (vm, disk))
      (after (deed host store) w before) deeds :=
    hrun.strengthen (fun _ => True) trivial (fun _ _ _ _ => trivial) fun _ _ _ h => h.2
  have hagree := (Versions.AgreeAt.mk (v := view F store (after (deed host store) w before).fs)
    (d := (vm, disk)) rfl rfl).after (history F host store (after (deed host store) w before) deeds)
  rw [history_about hapart, after_nil, ← (run_view hq hs hproper).1, ← after_append] at hagree
  refine ⟨fun c => ?_, fun n c => ?_⟩
  · rw [← contentAt_eq_some, ← contentAt_eq_some]
    exact iff_of_eq (congrArg (· = some c) hagree.current)
  · rw [← contentAt_eq_some, ← contentAt_eq_some]
    exact iff_of_eq (congrArg (· = some c) (congrFun hagree.saved n))

-- Nothing is read of an empty home.
theorem view_empty (hempty : EmptyHome store w.fs) :
    view F store w.fs = ⟨fun _ => none, fun _ _ => none⟩ := by
  have hnone : ∀ r : ImageRef, Spot store r.1 → contentAt (F.layerAt w.fs) r = none := by
    intro r hr
    exact contentAt_of_none (layerAt_of_none (hempty r.1 (spot_below store hr)))
  apply Versions.ext
  · funext d
    exact hnone _ (.disk d.1 d.2)
  · funext d n
    exact hnone _ (.snapshot store d.1 d.2 n)

-- The store is a store of versions: a run from an empty home, failures and all, leaves in each disk and
-- each snapshot what the acts of its history leave in it, and none of these acts saves over a version
-- or reloads one that is not there.
theorem run_refines (hq : Lawful F host.qemuImg) (hempty : EmptyHome store w.fs)
    (hrun : Along (deed host store) (fun w d => d.Proper F host store w) w deeds) :
    view F store (after (deed host store) w deeds).fs =
        after (fun v a => a.apply v) ⟨fun _ => none, fun _ _ => none⟩ (history F host store w deeds) ∧
      Along (fun v a => Versions.Act.apply a v) (fun v a => a.Enabled v) ⟨fun _ => none, fun _ _ => none⟩
        (history F host store w deeds) := by
  have hview := run_view hq (.of_empty hempty) hrun
  rwa [view_empty hempty] at hview

end

section Session

-- What is done to another disk, and what of it is refused.
def otherDeeds : List (Deed Blob) :=
  [.call (.cloneDisk "base" "web" "data" none), .call (.snapshotCreate "web" "data" "s1"),
    .call (.createDisk "web" "data" "4G" "off" none), .call (.deleteDisk "web" "data" true)]

theorem others_spared_clone :
    let w := after (deed (memoryHost []) treeStore) freshHome cloneDeeds
    let w' := after (deed (memoryHost []) treeStore) freshHome (cloneDeeds ++ otherDeeds)
    (∀ c, Resolves (memoryFormats.layerAt w'.fs) (activeRef treeStore "web" "root") c ↔
        Resolves (memoryFormats.layerAt w.fs) (activeRef treeStore "web" "root") c) ∧
      ∀ n c, Resolves (memoryFormats.layerAt w'.fs) (snapRef treeStore "web" "root" n) c ↔
        Resolves (memoryFormats.layerAt w.fs) (snapRef treeStore "web" "root" n) c := by
  refine others_spared (Memory.lawful []) freshHome_empty cloneDeeds_proper
    ⟨⟨fun p hp => ⟨"base", by decide, ?_⟩, by decide⟩, ⟨trivial, by decide⟩, ⟨trivial, by decide⟩,
      ⟨trivial, by decide⟩, trivial⟩
  exact (Except.ok.inj hp).symm

theorem run_refines_clone :
    view memoryFormats treeStore (after (deed (memoryHost []) treeStore) freshHome cloneDeeds).fs =
        after (fun v a => a.apply v) ⟨fun _ => none, fun _ _ => none⟩
          (history memoryFormats (memoryHost []) treeStore freshHome cloneDeeds) ∧
      Along (fun v a => Versions.Act.apply a v) (fun v a => a.Enabled v) ⟨fun _ => none, fun _ _ => none⟩
        (history memoryFormats (memoryHost []) treeStore freshHome cloneDeeds) :=
  run_refines (Memory.lawful []) freshHome_empty cloneDeeds_proper

end Session

end VMForge.Storage
