import VMForge.Base.Versions
import VMForge.Storage.Store.Forest
import VMForge.Storage.Store.Spots

namespace VMForge.Storage

open Exec

section

variable {β : Type} (F : Formats β) (store : DiskStore)

-- What a layer of a disk may be put on: a snapshot of the disk, or an image.
def Grounded (fs : FileSystem β) (vm disk : String) (r : ImageRef) : Prop :=
  (∃ n, r = snapRef store vm disk n ∧ fs.node (store.snapshotFile vm disk n) ≠ none) ∨
    ∃ i format, r = (store.imageFile i, format) ∧ (F.layerAt fs r).isSome = true

-- What holds of the files between two calls: names are valid, images are put on nothing, every
-- snapshot can be read to the end of its chain, and chains do not leave the disk but for an image.
structure Sound (fs : FileSystem β) : Prop where
  disks : ∀ vm disk, fs.node (store.diskFile vm disk) ≠ none →
    nameMatches vm = true ∧ nameMatches disk = true
  named : ∀ vm disk m, fs.node (store.snapshotsDir vm disk ++ [m]) ≠ none →
    ∃ n, nameMatches n = true ∧ m = n ++ ".qcow2"
  flat : ∀ i format l, F.layerAt fs (store.imageFile i, format) = some l → l.backing = none
  snapshots : ∀ vm disk n, fs.node (store.snapshotFile vm disk n) ≠ none →
    ∃ c, Resolves (F.layerAt fs) (snapRef store vm disk n) c
  backed : ∀ vm disk n r, BackedBy (F.layerAt fs) (snapRef store vm disk n) r →
    Grounded F store fs vm disk r
  active : ∀ vm disk r, BackedBy (F.layerAt fs) (activeRef store vm disk) r →
    Grounded F store fs vm disk r

-- The store as what it is for: each disk reads something now, and so does each of its snapshots.
noncomputable def view (fs : FileSystem β) : Versions (String × String) String Content where
  current d := contentAt (F.layerAt fs) (activeRef store d.1 d.2)
  saved d n := contentAt (F.layerAt fs) (snapRef store d.1 d.2 n)

end

section

variable {β : Type} {F : Formats β} {store : DiskStore} {fs fs' : FileSystem β} {vm disk n : String}
  {r b : ImageRef} {c : Content}

theorem layerAt_same (h : fs'.node r.1 = fs.node r.1) : F.layerAt fs' r = F.layerAt fs r :=
  layerAt_congr (FileSystem.blob_congr _ h)

theorem layerAt_of_none (h : fs.node r.1 = none) : F.layerAt fs r = none := by
  cases hl : F.layerAt fs r with
  | none => rfl
  | some l => exact absurd h (node_of_layerAt (Option.isSome_iff_exists.mpr ⟨l, hl⟩))

theorem backedBy_congr (h : F.layerAt fs' r = F.layerAt fs r) :
    BackedBy (F.layerAt fs') r b ↔ BackedBy (F.layerAt fs) r b := by
  unfold BackedBy
  rw [h]

theorem Grounded.snapshot (h : fs.node (store.snapshotFile vm disk n) ≠ none) :
    Grounded F store fs vm disk (snapRef store vm disk n) :=
  Or.inl ⟨n, rfl, h⟩

namespace Sound

variable (h : Sound F store fs)

include h

theorem resolves (hr : Grounded F store fs vm disk r) : ∃ c, Resolves (F.layerAt fs) r c := by
  rcases hr with ⟨n, rfl, hn⟩ | ⟨i, format, rfl, hl⟩
  · exact h.snapshots vm disk n hn
  · obtain ⟨l, hl⟩ := Option.isSome_iff_exists.mp hl
    exact ⟨_, .flat hl (h.flat i format l hl)⟩

-- What a layer is put on is put on such a thing again.
theorem closed (hr : Grounded F store fs vm disk r) (hb : BackedBy (F.layerAt fs) r b) :
    Grounded F store fs vm disk b := by
  rcases hr with ⟨n, rfl, -⟩ | ⟨i, format, rfl, -⟩
  · exact h.backed vm disk n b hb
  · obtain ⟨l, hl, hlb⟩ := hb
    rw [h.flat i format l hl] at hlb
    cases hlb

-- What is below a snapshot.
theorem grounded_under (hr : Relation.TransGen (BackedBy (F.layerAt fs)) (snapRef store vm disk n) r) :
    Grounded F store fs vm disk r := by
  induction hr with
  | single hb => exact h.backed vm disk n _ hb
  | tail _ hb ih => exact h.closed ih hb

theorem resolves_active {l : Layer ImageRef} (hl : F.layerAt fs (activeRef store vm disk) = some l) :
    ∃ c, Resolves (F.layerAt fs) (activeRef store vm disk) c := by
  cases hb : l.backing with
  | none => exact ⟨_, .flat hl hb⟩
  | some b =>
      obtain ⟨c, hc⟩ := h.resolves (h.active vm disk b ⟨l, hl, hb⟩)
      exact ⟨_, .onto hl hb hc⟩

theorem active_unread (hno : ∀ c, ¬Resolves (F.layerAt fs) (activeRef store vm disk) c) :
    F.layerAt fs (activeRef store vm disk) = none := by
  cases hl : F.layerAt fs (activeRef store vm disk) with
  | none => rfl
  | some l =>
      obtain ⟨c, hc⟩ := h.resolves_active hl
      exact absurd hc (hno c)

theorem snapshot_unread (hno : ∀ c, ¬Resolves (F.layerAt fs) (snapRef store vm disk n) c) :
    fs.node (store.snapshotFile vm disk n) = none := by
  by_contra hn
  obtain ⟨c, hc⟩ := h.snapshots vm disk n hn
  exact hno c hc

-- What a layer is put on is there.
theorem there (hr : Grounded F store fs vm disk (snapRef store vm disk n)) :
    fs.node (store.snapshotFile vm disk n) ≠ none := by
  obtain ⟨c, hc⟩ := h.resolves hr
  obtain ⟨l, hl⟩ := hc.layer_eq
  exact node_of_layerAt (r := snapRef store vm disk n) (Option.isSome_iff_exists.mpr ⟨l, hl⟩)

-- Layers are the same wherever one may be put on them.
theorem resolves_of_grounded (hsame : ∀ r, Grounded F store fs vm disk r →
    F.layerAt fs' r = F.layerAt fs r) (hr : Grounded F store fs vm disk r)
    (hc : Resolves (F.layerAt fs) r c) : Resolves (F.layerAt fs') r c :=
  hc.of_closed hr (fun _ _ hs hb => h.closed hs hb) hsame

theorem tidy (vm disk : String) : Tidy F store fs vm disk where
  named := h.named vm disk
  layered := by
    intro n hn
    obtain ⟨c, hc⟩ := h.snapshots vm disk n hn
    obtain ⟨l, hl⟩ := hc.layer_eq
    exact Option.isSome_iff_exists.mpr ⟨l, hl⟩

theorem isFile_of_grounded (hr : Grounded F store fs vm disk r) : fs.isFile r.1 = true := by
  obtain ⟨c, hc⟩ := h.resolves hr
  obtain ⟨l, hl⟩ := hc.layer_eq
  obtain ⟨b, hb, -⟩ := layerAt_eq_some.mp hl
  obtain ⟨m, hm⟩ := (FileSystem.blob_eq_some fs).mp hb
  exact (FileSystem.isFile_iff fs).mpr ⟨_, hm⟩

end Sound

end

-- Layers are added: a snapshot or an image where there was none, a disk put on what there is.
structure Grows {β : Type} (F : Formats β) (store : DiskStore) (fs fs' : FileSystem β) : Prop where
  disks : ∀ vm disk, fs'.node (store.diskFile vm disk) = fs.node (store.diskFile vm disk) ∨
    (fs'.node (store.diskFile vm disk) ≠ none → nameMatches vm = true ∧ nameMatches disk = true) ∧
      ∀ r, BackedBy (F.layerAt fs') (activeRef store vm disk) r → Grounded F store fs vm disk r
  entries : ∀ vm disk m, fs'.node (store.snapshotsDir vm disk ++ [m]) =
      fs.node (store.snapshotsDir vm disk ++ [m]) ∨
    fs.node (store.snapshotsDir vm disk ++ [m]) = none ∧
      ∃ n l, m = n ++ ".qcow2" ∧ nameMatches n = true ∧
        F.layerAt fs' (snapRef store vm disk n) = some l ∧
        ∀ r, l.backing = some r → Grounded F store fs vm disk r
  images : ∀ i, fs'.node (store.imageFile i) = fs.node (store.imageFile i) ∨
    fs.node (store.imageFile i) = none ∧
      ∀ format l, F.layerAt fs' (store.imageFile i, format) = some l → l.backing = none

namespace Grows

variable {β : Type} {F : Formats β} {store : DiskStore} {fs fs' : FileSystem β} {vm disk n : String}
  {r : ImageRef} {c : Content}

theorem kept (h : Grows F store fs fs') (hn : fs.node (store.snapshotFile vm disk n) ≠ none) :
    fs'.node (store.snapshotFile vm disk n) = fs.node (store.snapshotFile vm disk n) := by
  rcases h.entries vm disk (n ++ ".qcow2") with hsame | ⟨hnone, -⟩
  · exact hsame
  · exact absurd hnone hn

theorem layer (h : Grows F store fs fs') (hr : Grounded F store fs vm disk r) :
    F.layerAt fs' r = F.layerAt fs r := by
  rcases hr with ⟨n, rfl, hn⟩ | ⟨i, format, rfl, hl⟩
  · exact layerAt_same (h.kept hn)
  · rcases h.images i with hsame | ⟨hnone, -⟩
    · exact layerAt_same hsame
    · exact absurd hnone (node_of_layerAt hl)

theorem grounded (h : Grows F store fs fs') (hr : Grounded F store fs vm disk r) :
    Grounded F store fs' vm disk r := by
  have hlayer := h.layer hr
  rcases hr with ⟨n, rfl, hn⟩ | ⟨i, format, rfl, hl⟩
  · exact .snapshot (by rwa [h.kept hn])
  · exact Or.inr ⟨i, format, rfl, by rwa [hlayer]⟩

variable (h : Grows F store fs fs') (hs : Sound F store fs)

include h hs

theorem resolves (hr : Grounded F store fs vm disk r) (hc : Resolves (F.layerAt fs) r c) :
    Resolves (F.layerAt fs') r c :=
  hs.resolves_of_grounded (fun _ hr => h.layer hr) hr hc

-- A layer that is there as it was reads as it did.
theorem reads {s : ImageRef} (hl : F.layerAt fs' s = F.layerAt fs r)
    (hb : ∀ b, BackedBy (F.layerAt fs) r b → Grounded F store fs vm disk b)
    (hc : Resolves (F.layerAt fs) r c) : Resolves (F.layerAt fs') s c :=
  hc.of_top hl fun b _ hrb hbc => h.resolves hs (hb b hrb) hbc

theorem sound : Sound F store fs' where
  disks := by
    intro vm disk hn
    rcases h.disks vm disk with hsame | ⟨hvalid, -⟩
    · exact hs.disks vm disk (hsame ▸ hn)
    · exact hvalid hn
  named := by
    intro vm disk m hm
    rcases h.entries vm disk m with hsame | ⟨-, n, -, rfl, hn, -⟩
    · exact hs.named vm disk m (hsame ▸ hm)
    · exact ⟨n, hn, rfl⟩
  flat := by
    intro i format l hl
    rcases h.images i with hsame | ⟨-, hflat⟩
    · rw [layerAt_same hsame] at hl
      exact hs.flat i format l hl
    · exact hflat format l hl
  snapshots := by
    intro vm disk n hn
    rcases h.entries vm disk (n ++ ".qcow2") with hsame | ⟨-, n', l, hname, -, hl, hb⟩
    · have hold : fs.node (store.snapshotFile vm disk n) ≠ none := fun hnone => hn (hsame.trans hnone)
      obtain ⟨c, hc⟩ := hs.snapshots vm disk n hold
      exact ⟨c, h.resolves hs (.snapshot hold) hc⟩
    · obtain rfl := append_qcow2_inj hname
      cases hlb : l.backing with
      | none => exact ⟨_, .flat hl hlb⟩
      | some r =>
          obtain ⟨c, hc⟩ := hs.resolves (hb r hlb)
          exact ⟨_, .onto hl hlb (h.resolves hs (hb r hlb) hc)⟩
  backed := by
    intro vm disk n r hr
    rcases h.entries vm disk (n ++ ".qcow2") with hsame | ⟨-, n', l, hname, -, hl, hb⟩
    · have hlayer : F.layerAt fs' (snapRef store vm disk n) = F.layerAt fs (snapRef store vm disk n) :=
        layerAt_same hsame
      exact h.grounded (hs.backed vm disk n r ((backedBy_congr hlayer).mp hr))
    · obtain rfl := append_qcow2_inj hname
      obtain ⟨l', hl', hlb⟩ := hr
      obtain rfl := Option.some.inj (hl.symm.trans hl')
      exact h.grounded (hb r hlb)
  active := by
    intro vm disk r hr
    rcases h.disks vm disk with hsame | ⟨-, hback⟩
    · have hlayer : F.layerAt fs' (activeRef store vm disk) = F.layerAt fs (activeRef store vm disk) :=
        layerAt_same hsame
      exact h.grounded (hs.active vm disk r ((backedBy_congr hlayer).mp hr))
    · exact h.grounded (hback r hr)

-- What has the layer it had reads as it did.
theorem saved_eq (hlayer : F.layerAt fs' (snapRef store vm disk n) =
    F.layerAt fs (snapRef store vm disk n)) :
    (view F store fs').saved (vm, disk) n = (view F store fs).saved (vm, disk) n := by
  refine contentAt_congr (fun c hc => h.reads hs hlayer (hs.backed vm disk n) hc) fun hno => ?_
  exact hlayer.trans (layerAt_of_none (hs.snapshot_unread hno))

theorem current_eq (hlayer : F.layerAt fs' (activeRef store vm disk) =
    F.layerAt fs (activeRef store vm disk)) :
    (view F store fs').current (vm, disk) = (view F store fs).current (vm, disk) := by
  refine contentAt_congr (fun c hc => h.reads hs hlayer (hs.active vm disk) hc) fun hno => ?_
  exact hlayer.trans (hs.active_unread hno)

end Grows

end VMForge.Storage
