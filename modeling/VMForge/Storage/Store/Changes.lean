import VMForge.Storage.Store.Sound

namespace VMForge.Storage

open Exec

section

variable {β : Type} (F : Formats β) (store : DiskStore)

-- Layers go: disks and snapshots, none of which a layer that stays is put on.
structure Shrinks (fs fs' : FileSystem β) : Prop where
  disks : ∀ vm disk, fs'.node (store.diskFile vm disk) = fs.node (store.diskFile vm disk) ∨
    fs'.node (store.diskFile vm disk) = none
  entries : ∀ vm disk m, fs'.node (store.snapshotsDir vm disk ++ [m]) =
      fs.node (store.snapshotsDir vm disk ++ [m]) ∨
    fs'.node (store.snapshotsDir vm disk ++ [m]) = none
  images : ∀ i, fs'.node (store.imageFile i) = fs.node (store.imageFile i)
  backed : ∀ vm disk n m, fs'.node (store.snapshotFile vm disk n) ≠ none →
    BackedBy (F.layerAt fs) (snapRef store vm disk n) (snapRef store vm disk m) →
      fs'.node (store.snapshotFile vm disk m) ≠ none
  active : ∀ vm disk m, fs'.node (store.diskFile vm disk) ≠ none →
    BackedBy (F.layerAt fs) (activeRef store vm disk) (snapRef store vm disk m) →
      fs'.node (store.snapshotFile vm disk m) ≠ none

-- One snapshot is written. It reads as before through what it was put on, directly or not.
structure Rebased (vm disk n : String) (fs fs' : FileSystem β) : Prop where
  same : SameBut store (· = store.snapshotFile vm disk n) fs fs'
  there : fs.node (store.snapshotFile vm disk n) ≠ none
  layer : ∃ l, F.layerAt fs' (snapRef store vm disk n) = some l ∧
    (∀ r, l.backing = some r →
      Relation.TransGen (BackedBy (F.layerAt fs)) (snapRef store vm disk n) r) ∧
    ∀ c, Resolves (F.layerAt fs) (snapRef store vm disk n) c →
      (l.backing = none → l.onto .empty = c) ∧
        ∀ r below, l.backing = some r → Resolves (F.layerAt fs) r below → l.onto below = c

end

namespace Shrinks

variable {β : Type} {F : Formats β} {store : DiskStore} {fs fs' : FileSystem β} {vm disk n : String}
  {r b : ImageRef} {c : Content}

-- A thing to put a layer on that is still there.
def Left (F : Formats β) (store : DiskStore) (fs fs' : FileSystem β) (vm disk : String) (r : ImageRef) :
    Prop :=
  Grounded F store fs vm disk r ∧ fs'.node r.1 ≠ none

variable (h : Shrinks F store fs fs')

include h

theorem disk_of_there (hn : fs'.node (store.diskFile vm disk) ≠ none) :
    fs'.node (store.diskFile vm disk) = fs.node (store.diskFile vm disk) :=
  (h.disks vm disk).resolve_right hn

theorem entry_of_there {m : String} (hm : fs'.node (store.snapshotsDir vm disk ++ [m]) ≠ none) :
    fs'.node (store.snapshotsDir vm disk ++ [m]) = fs.node (store.snapshotsDir vm disk ++ [m]) :=
  (h.entries vm disk m).resolve_right hm

theorem layer (hr : Left F store fs fs' vm disk r) : F.layerAt fs' r = F.layerAt fs r := by
  obtain ⟨⟨n, rfl, -⟩ | ⟨i, format, rfl, -⟩, hthere⟩ := hr
  · exact layerAt_same (h.entry_of_there hthere)
  · exact layerAt_same (h.images i)

theorem image_left {i format : String} (hl : (F.layerAt fs (store.imageFile i, format)).isSome = true) :
    Left F store fs fs' vm disk (store.imageFile i, format) := by
  refine ⟨Or.inr ⟨i, format, rfl, hl⟩, ?_⟩
  rw [h.images i]
  exact node_of_layerAt hl

theorem grounded (hr : Left F store fs fs' vm disk r) : Grounded F store fs' vm disk r := by
  have hlayer := h.layer hr
  obtain ⟨⟨n, rfl, -⟩ | ⟨i, format, rfl, hl⟩, hthere⟩ := hr
  · exact .snapshot hthere
  · exact Or.inr ⟨i, format, rfl, by rwa [hlayer]⟩

variable (hs : Sound F store fs)

include hs

theorem left_of_backed (hn : fs'.node (store.snapshotFile vm disk n) ≠ none)
    (hb : BackedBy (F.layerAt fs) (snapRef store vm disk n) b) : Left F store fs fs' vm disk b := by
  rcases hs.backed vm disk n b hb with ⟨m, rfl, hm⟩ | ⟨i, format, rfl, hl⟩
  · exact ⟨.snapshot hm, h.backed vm disk n m hn hb⟩
  · exact h.image_left hl

theorem left_of_active (hn : fs'.node (store.diskFile vm disk) ≠ none)
    (hb : BackedBy (F.layerAt fs) (activeRef store vm disk) b) : Left F store fs fs' vm disk b := by
  rcases hs.active vm disk b hb with ⟨m, rfl, hm⟩ | ⟨i, format, rfl, hl⟩
  · exact ⟨.snapshot hm, h.active vm disk m hn hb⟩
  · exact h.image_left hl

theorem closed (hr : Left F store fs fs' vm disk r) (hb : BackedBy (F.layerAt fs) r b) :
    Left F store fs fs' vm disk b := by
  obtain ⟨⟨n, rfl, -⟩ | ⟨i, format, rfl, -⟩, hthere⟩ := hr
  · exact h.left_of_backed hs hthere hb
  · obtain ⟨l, hl, hlb⟩ := hb
    rw [hs.flat i format l hl] at hlb
    cases hlb

theorem resolves (hr : Left F store fs fs' vm disk r) (hc : Resolves (F.layerAt fs) r c) :
    Resolves (F.layerAt fs') r c :=
  hc.of_closed hr (fun _ _ hr hb => h.closed hs hr hb) fun _ hr => h.layer hr

theorem reads (hl : F.layerAt fs' r = F.layerAt fs r)
    (hb : ∀ b, BackedBy (F.layerAt fs) r b → Left F store fs fs' vm disk b)
    (hc : Resolves (F.layerAt fs) r c) : Resolves (F.layerAt fs') r c :=
  hc.of_top hl fun b _ hrb hbc => h.resolves hs (hb b hrb) hbc

theorem sound : Sound F store fs' where
  disks := fun vm disk hn => hs.disks vm disk (h.disk_of_there hn ▸ hn)
  named := fun vm disk m hm => hs.named vm disk m (h.entry_of_there hm ▸ hm)
  flat := by
    intro i format l hl
    rw [layerAt_same (h.images i)] at hl
    exact hs.flat i format l hl
  snapshots := by
    intro vm disk n hn
    have hold : fs.node (store.snapshotFile vm disk n) ≠ none := fun hnone =>
      hn ((h.entry_of_there hn).trans hnone)
    obtain ⟨c, hc⟩ := hs.snapshots vm disk n hold
    exact ⟨c, h.resolves hs ⟨.snapshot hold, hn⟩ hc⟩
  backed := by
    intro vm disk n r hr
    obtain ⟨l, hl, -⟩ := id hr
    have hn := node_of_layerAt (Option.isSome_iff_exists.mpr ⟨l, hl⟩)
    have hlayer : F.layerAt fs' (snapRef store vm disk n) = F.layerAt fs (snapRef store vm disk n) :=
      layerAt_same (h.entry_of_there hn)
    exact h.grounded (h.left_of_backed hs hn ((backedBy_congr hlayer).mp hr))
  active := by
    intro vm disk r hr
    obtain ⟨l, hl, -⟩ := id hr
    have hn := node_of_layerAt (Option.isSome_iff_exists.mpr ⟨l, hl⟩)
    have hlayer : F.layerAt fs' (activeRef store vm disk) = F.layerAt fs (activeRef store vm disk) :=
      layerAt_same (h.disk_of_there hn)
    exact h.grounded (h.left_of_active hs hn ((backedBy_congr hlayer).mp hr))

theorem saved_eq (hn : fs'.node (store.snapshotFile vm disk n) =
    fs.node (store.snapshotFile vm disk n)) :
    (view F store fs').saved (vm, disk) n = (view F store fs).saved (vm, disk) n := by
  have hlayer : F.layerAt fs' (snapRef store vm disk n) = F.layerAt fs (snapRef store vm disk n) :=
    layerAt_same hn
  refine contentAt_congr (fun c hc => ?_) fun hno => layerAt_of_none (hn.trans (hs.snapshot_unread hno))
  obtain ⟨l, hl⟩ := hc.layer_eq
  have hthere : fs'.node (store.snapshotFile vm disk n) ≠ none :=
    node_of_layerAt (r := snapRef store vm disk n) (Option.isSome_iff_exists.mpr ⟨l, hlayer.trans hl⟩)
  exact h.reads hs hlayer (fun b hb => h.left_of_backed hs hthere hb) hc

theorem current_eq (hn : fs'.node (store.diskFile vm disk) = fs.node (store.diskFile vm disk)) :
    (view F store fs').current (vm, disk) = (view F store fs).current (vm, disk) := by
  have hlayer : F.layerAt fs' (activeRef store vm disk) = F.layerAt fs (activeRef store vm disk) :=
    layerAt_same hn
  refine contentAt_congr (fun c hc => ?_) fun hno => hlayer.trans (hs.active_unread hno)
  obtain ⟨l, hl⟩ := hc.layer_eq
  have hthere : fs'.node (store.diskFile vm disk) ≠ none :=
    node_of_layerAt (r := activeRef store vm disk) (Option.isSome_iff_exists.mpr ⟨l, hlayer.trans hl⟩)
  exact h.reads hs hlayer (fun b hb => h.left_of_active hs hthere hb) hc

end Shrinks

namespace Rebased

variable {β : Type} {F : Formats β} {store : DiskStore} {fs fs' : FileSystem β}
  {vm disk n vm' disk' n' : String} {r b : ImageRef} {c : Content}

section

variable (h : Rebased F store vm disk n fs fs')

include h

theorem disk_node (vm' disk' : String) :
    fs'.node (store.diskFile vm' disk') = fs.node (store.diskFile vm' disk') :=
  h.same _ (.disk vm' disk') disk_ne_snapshot

theorem image_node (i : String) : fs'.node (store.imageFile i) = fs.node (store.imageFile i) :=
  h.same _ (.image i) fun he => snapshot_ne_image he.symm

-- The other layers to put one on are as they were.
theorem layer_other (hr : Grounded F store fs vm' disk' r) (hne : r ≠ snapRef store vm disk n) :
    F.layerAt fs' r = F.layerAt fs r := by
  rcases hr with ⟨m, rfl, -⟩ | ⟨i, format, rfl, -⟩
  · refine layerAt_same (h.same _ (.snapshot store vm' disk' m) fun he => hne ?_)
    exact congrArg (·, "qcow2") he
  · exact layerAt_same (h.image_node i)

theorem there_iff (m : String) : fs'.node (store.snapshotsDir vm' disk' ++ [m]) ≠ none ↔
    fs.node (store.snapshotsDir vm' disk' ++ [m]) ≠ none := by
  by_cases he : store.snapshotsDir vm' disk' ++ [m] = store.snapshotFile vm disk n
  · obtain ⟨l, hl, -⟩ := h.layer
    rw [he]
    exact iff_of_true (node_of_layerAt (r := snapRef store vm disk n)
      (Option.isSome_iff_exists.mpr ⟨l, hl⟩)) h.there
  · rw [h.same _ (.entry vm' disk' m) he]

theorem grounded (hr : Grounded F store fs vm' disk' r) : Grounded F store fs' vm' disk' r := by
  rcases hr with ⟨m, rfl, hm⟩ | ⟨i, format, rfl, hl⟩
  · exact .snapshot ((h.there_iff _).mpr hm)
  · refine Or.inr ⟨i, format, rfl, ?_⟩
    rwa [layerAt_same (h.image_node i)]

end

variable (h : Rebased F store vm disk n fs fs') (hs : Sound F store fs)

include h hs

theorem resolves_self (hc : Resolves (F.layerAt fs) (snapRef store vm disk n) c) :
    Resolves (F.layerAt fs') (snapRef store vm disk n) c := by
  obtain ⟨l, hl, hbelow, hreads⟩ := h.layer
  exact hc.repointed hl (hreads c hc).1 (hreads c hc).2 hbelow fun t hne ht =>
    h.layer_other (hs.grounded_under ht) hne

theorem resolves (hr : Grounded F store fs vm' disk' r) (hc : Resolves (F.layerAt fs) r c) :
    Resolves (F.layerAt fs') r c := by
  refine hc.of_kept hr (fun _ _ hr hb => hs.closed hr hb) fun s hs' => ?_
  by_cases hne : s = snapRef store vm disk n
  · subst hne
    exact Or.inr fun c hc => h.resolves_self hs hc
  · exact Or.inl (h.layer_other hs' hne)

theorem sound : Sound F store fs' where
  disks := fun vm' disk' hn => hs.disks vm' disk' (h.disk_node vm' disk' ▸ hn)
  named := fun vm' disk' m hm => hs.named vm' disk' m ((h.there_iff m).mp hm)
  flat := by
    intro i format l hl
    rw [layerAt_same (h.image_node i)] at hl
    exact hs.flat i format l hl
  snapshots := by
    intro vm' disk' m hm
    have hold := (h.there_iff _).mp hm
    obtain ⟨c, hc⟩ := hs.snapshots vm' disk' m hold
    exact ⟨c, h.resolves hs (.snapshot hold) hc⟩
  backed := by
    intro vm' disk' m r hr
    by_cases hne : snapRef store vm' disk' m = snapRef store vm disk n
    · obtain ⟨rfl, rfl, rfl⟩ := snapshotFile_eq_iff.mp (Prod.mk.inj hne).1
      obtain ⟨l, hl, hbelow, -⟩ := h.layer
      obtain ⟨l', hl', hlb⟩ := hr
      obtain rfl := Option.some.inj (hl.symm.trans hl')
      exact h.grounded (hs.grounded_under (hbelow r hlb))
    · have hlayer : F.layerAt fs' (snapRef store vm' disk' m) =
          F.layerAt fs (snapRef store vm' disk' m) :=
        layerAt_same (h.same _ (.snapshot store vm' disk' m) fun he => hne (congrArg (·, "qcow2") he))
      exact h.grounded (hs.backed vm' disk' m r ((backedBy_congr hlayer).mp hr))
  active := by
    intro vm' disk' r hr
    have hlayer : F.layerAt fs' (activeRef store vm' disk') = F.layerAt fs (activeRef store vm' disk') :=
      layerAt_same (h.disk_node vm' disk')
    exact h.grounded (hs.active vm' disk' r ((backedBy_congr hlayer).mp hr))

-- To a reader nothing has changed.
theorem view_eq : view F store fs' = view F store fs := by
  apply Versions.ext
  · funext d
    have hlayer : F.layerAt fs' (activeRef store d.1 d.2) = F.layerAt fs (activeRef store d.1 d.2) :=
      layerAt_same (h.disk_node d.1 d.2)
    refine contentAt_congr (fun c hc => ?_) fun hno => hlayer.trans (hs.active_unread hno)
    exact hc.of_top hlayer fun b _ hb hbc => h.resolves hs (hs.active d.1 d.2 b hb) hbc
  · funext d m
    refine contentAt_congr (fun c hc => ?_) fun hno => layerAt_of_none ?_
    · obtain ⟨l, hl⟩ := hc.layer_eq
      have hold := node_of_layerAt (Option.isSome_iff_exists.mpr ⟨l, hl⟩)
      exact h.resolves hs (.snapshot hold) hc
    · by_contra hn
      exact (h.there_iff (m ++ ".qcow2")).mp hn (hs.snapshot_unread hno)

end Rebased

end VMForge.Storage
