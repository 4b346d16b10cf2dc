import VMForge.Storage.Memory.Disks
import VMForge.Storage.Store.Calls

namespace VMForge.Storage

open Exec

section

variable {β : Type} {F : Formats β} {host : Host β} {store : DiskStore} {vm disk : String}
  {w w' : World β} {snaps : List Snapshot}

theorem parentPath_ok (hq : Describes F host.qemuImg) (htidy : Tidy F store w.fs vm disk)
    {parent : Option String} (hparent : parent ≠ some "") {o : Option Path}
    (h : store.parentPath host vm disk parent w = (.ok o, w')) :
    w' = w ∧ o = parent.map (store.snapshotFile vm disk) := by
  unfold DiskStore.parentPath at h
  cases parent with
  | none =>
      obtain ⟨rfl, rfl⟩ := pure_eq_ok.mp h
      exact ⟨rfl, rfl⟩
  | some p =>
      have hp : p ≠ "" := fun hp => hparent (congrArg some hp)
      have hkeep : (some p).filter (fun name => name != "") = some p := by
        rw [Option.filter_some, if_pos (by simpa using hp)]
      rw [hkeep] at h
      simp only [bind_eq_ok, pure_eq_ok] at h
      obtain ⟨snap, w₁, hget, rfl, rfl⟩ := h
      obtain ⟨snaps, hlist, hmem, rfl⟩ := getSnapshot_ok hget
      obtain ⟨rfl, hlisted⟩ := snapshotList_listed hq htidy hlist
      exact ⟨rfl, congrArg some (hlisted.sound snap hmem).2.1⟩

-- The steps of a deletion that succeeds.
theorem snapshotDelete_ok {n : String} {u : Unit}
    (h : store.snapshotDelete host vm disk n w = (.ok u, w')) :
    ∃ snap w₀ w₁, store.getSnapshot host vm disk n w = (.ok snap, w₀) ∧ snap.current = false ∧
      (snap.children = [] ∧ w₁ = w₀ ∨
        ∃ c, snap.children = [c] ∧ store.squashInto host vm disk snap c w₀ = (.ok (), w₁)) ∧
      ∀ q, w'.fs.node q = if q = snap.path then none else w₁.fs.node q := by
  simp only [DiskStore.snapshotDelete, bind_eq_ok, raiseIf_eq_ok] at h
  obtain ⟨snap, w₀, hget, _, _, ⟨hcurrent, rfl⟩, h⟩ := h
  have hgone : ∀ {w₁ : World β}, ((chmod snap.path 0o644 >>= fun _ => unlink snap.path) w₁ =
      (.ok u, w')) → ∀ q, w'.fs.node q = if q = snap.path then none else w₁.fs.node q := by
    intro w₁ hrun q
    obtain ⟨_, w₂, hchmod, hunlink⟩ := bind_eq_ok.mp hrun
    obtain ⟨-, hnode⟩ := unlink_ok hunlink
    obtain ⟨-, -, -, hother⟩ := chmod_ok hchmod
    rw [hnode q]
    split
    · rfl
    · rename_i hq
      exact hother q hq
  rcases hchildren : snap.children with _ | ⟨c, _ | ⟨d, rest⟩⟩
  · simp only [hchildren] at h
    exact ⟨snap, w₀, w₀, hget, hcurrent, Or.inl ⟨hchildren, rfl⟩, hgone h⟩
  · simp only [hchildren] at h
    obtain ⟨_, w₁, hsquash, hrest⟩ := bind_eq_ok.mp h
    exact ⟨snap, w₀, w₁, hget, hcurrent, Or.inr ⟨c, hchildren, hsquash⟩, hgone hrest⟩
  · simp only [hchildren] at h
    obtain ⟨_, _, hraise, -⟩ := bind_eq_ok.mp h
    cases hraise

-- What is written to a snapshot's file stays in it.
theorem layerAt_eq_of_node {fs : FileSystem β} {path : Path} {b : β} {mode : Nat} {l : Layer ImageRef}
    (hnode : fs.node path = some (.file ⟨b, mode⟩)) (hl : F.decode "qcow2" b = some l) :
    F.layerAt fs (path, "qcow2") = some l :=
  layerAt_eq_some.mpr ⟨b, (FileSystem.blob_eq_some fs).mpr ⟨mode, hnode⟩, hl⟩

-- The one child is put on the parent, and nothing else changes.
theorem squashInto_ok (hq : Describes F host.qemuImg) (hr : Rebases F host.qemuImg)
    (hhealthy : Healthy F store w.fs vm disk) {snap : Snapshot} {c : String} {u : Unit}
    (hparent : ∀ p, snap.parent = some p → nameMatches p = true)
    (h : store.squashInto host vm disk snap c w = (.ok u, w')) :
    ∃ b l, w'.fs.node (store.snapshotFile vm disk c) = some (.file ⟨b, 0o444⟩) ∧
      F.decode "qcow2" b = some l ∧
      l.backing = snap.parent.map (fun p => (store.snapshotFile vm disk p, "qcow2")) ∧
      ∀ q, q ≠ store.snapshotFile vm disk c → w'.fs.node q = w.fs.node q := by
  simp only [DiskStore.squashInto, bind_eq_ok] at h
  obtain ⟨child, w₁, hget, grandparent, w₂, hpath, _, w₃, hwrite, _, w₄, hrebase, hfreeze⟩ := h
  obtain ⟨snaps, hlist, hmem, rfl⟩ := getSnapshot_ok hget
  obtain ⟨rfl, hlisted⟩ := snapshotList_listed hq hhealthy.tidy hlist
  have hne : snap.parent ≠ some "" := fun he => nameMatches_ne_empty (hparent "" he) rfl
  obtain ⟨rfl, rfl⟩ := parentPath_ok hq hhealthy.tidy hne hpath
  rw [(hlisted.sound child hmem).2.1] at hwrite hrebase hfreeze
  obtain ⟨-, -, -, hother⟩ := chmod_ok hwrite
  obtain ⟨b, l, hnode, hl, hbacking, -, hother'⟩ := rebase_ok hr hrebase
  obtain ⟨-, hfile, -, hother''⟩ := chmod_ok hfreeze
  refine ⟨b, l, hfile _ hnode, hl, ?_, fun q hq' => ?_⟩
  · rw [hbacking, Option.map_map]
    refine Option.map_congr fun p hp => ?_
    exact congrArg (·, "qcow2")
      (snapshotFile_resolve hhealthy.vm_valid hhealthy.disk_valid (hparent p hp))
  · rw [hother'' q hq', hother' q hq', hother q hq']

-- No snapshot backs itself.
theorem Healthy.not_self (hhealthy : Healthy F store w.fs vm disk) (n : String) :
    ¬Backs F w.fs (store.snapshotFile vm disk n) (store.snapshotFile vm disk n) := fun h =>
  hhealthy.forest.acyclic n (Relation.TransGen.single h)

section Children

variable (hhealthy : Healthy F store w.fs vm disk) (hlisted : Listed F store w.fs vm disk snaps)

include hhealthy hlisted

-- The listing gives a snapshot the parent that backs it.
theorem Healthy.parentOf_iff {c p : String} : parentOf snaps c = some p ↔
    Backs F w.fs (store.snapshotFile vm disk c) (store.snapshotFile vm disk p) := by
  constructor
  · intro h
    obtain ⟨snap, hsnap, rfl, hparent⟩ := (parentOf_eq_some hlisted.nodup).mp h
    exact (hlisted.backs hhealthy.tidy hhealthy.forest hsnap hparent).1
  · rintro ⟨l, format, hl, hb⟩
    have hthere := node_of_layerAt (Option.isSome_iff_exists.mpr ⟨l, hl⟩)
    obtain ⟨snap, hsnap, rfl⟩ := hlisted.complete c hthere
    obtain ⟨-, -, l', hl', hparent, -⟩ := hlisted.sound snap hsnap
    obtain rfl := Option.some.inj (hl.symm.trans hl')
    have hfile := hhealthy.forest.snapshots snap.name _ ⟨l, format, hl, hb⟩
    obtain ⟨f, hf⟩ := (FileSystem.isFile_iff w.fs).mp hfile
    obtain ⟨n, hn, hname⟩ := hhealthy.tidy.named (p ++ ".qcow2") (by
      intro hnone
      rw [DiskStore.snapshotFile, hnone] at hf
      cases hf)
    obtain rfl := append_qcow2_inj hname
    rw [parentOf, find_name hlisted.nodup hsnap, Option.bind_some, hparent, hb, Option.bind_some,
      nameIn_snapshotFile (nameMatches_ne_empty hn)]

theorem Healthy.mem_children_iff {snap : Snapshot} (hsnap : snap ∈ snaps) {c : String} :
    c ∈ snap.children ↔
      Backs F w.fs (store.snapshotFile vm disk c) (store.snapshotFile vm disk snap.name) :=
  (hlisted.mem_children hsnap).trans (hhealthy.parentOf_iff hlisted)

end Children

theorem snapshotFile_inj {n m : String}
    (h : store.snapshotFile vm disk n = store.snapshotFile vm disk m) : n = m :=
  (snapshotFile_below_iff.mp ⟨[], (List.append_nil _).trans h⟩).2

-- What a deletion that succeeds does to the files.
theorem snapshotDelete_files (hq : Describes F host.qemuImg) (hr : Rebases F host.qemuImg)
    (hhealthy : Healthy F store w.fs vm disk) {n : String} {u : Unit}
    (h : store.snapshotDelete host vm disk n w = (.ok u, w')) :
    ∃ snaps snap, Listed F store w.fs vm disk snaps ∧ snap ∈ snaps ∧ snap.name = n ∧
      snap.current = false ∧
      w'.fs.node (store.snapshotFile vm disk n) = none ∧
      (snap.children = [] ∧
          (∀ q, q ≠ store.snapshotFile vm disk n → w'.fs.node q = w.fs.node q) ∨
        ∃ c b l, snap.children = [c] ∧
          w'.fs.node (store.snapshotFile vm disk c) = some (.file ⟨b, 0o444⟩) ∧
          F.decode "qcow2" b = some l ∧
          l.backing = snap.parent.map (fun p => (store.snapshotFile vm disk p, "qcow2")) ∧
          ∀ q, q ≠ store.snapshotFile vm disk n → q ≠ store.snapshotFile vm disk c →
            w'.fs.node q = w.fs.node q) := by
  obtain ⟨snap, w₀, w₁, hget, hcurrent, hchildren, hgone⟩ := snapshotDelete_ok h
  obtain ⟨snaps, hlist, hsnap, rfl⟩ := getSnapshot_ok hget
  obtain ⟨rfl, hlisted⟩ := snapshotList_listed hq hhealthy.tidy hlist
  rw [(hlisted.sound snap hsnap).2.1] at hgone
  refine ⟨snaps, snap, hlisted, hsnap, rfl, hcurrent, by rw [hgone, if_pos rfl], ?_⟩
  obtain ⟨hnil, rfl⟩ | ⟨c, hone, hsquash⟩ := hchildren
  · exact Or.inl ⟨hnil, fun q hne => by rw [hgone, if_neg hne]⟩
  · have hparent : ∀ p, snap.parent = some p → nameMatches p = true := by
      intro p hp
      obtain ⟨-, parent, hmem, rfl⟩ := hlisted.backs hhealthy.tidy hhealthy.forest hsnap hp
      exact (hlisted.sound parent hmem).1
    obtain ⟨b, l, hnode, hl, hbacking, hother⟩ := squashInto_ok hq hr hhealthy hparent hsquash
    have hne : store.snapshotFile vm disk c ≠ store.snapshotFile vm disk snap.name := by
      intro heq
      obtain rfl := snapshotFile_inj heq
      refine hhealthy.not_self snap.name ?_
      rw [← hhealthy.mem_children_iff hlisted hsnap, hone]
      exact List.mem_cons_self
    exact Or.inr ⟨c, b, l, hone, by rw [hgone, if_neg hne, hnode], hl, hbacking,
      fun q hn hc => by rw [hgone, if_neg hn, hother q hc]⟩

-- The backing file of the layer at `path`, if it has one.
def backingFile (F : Formats β) (fs : FileSystem β) (path : Path) : Option (Option Path) :=
  (F.layerAt fs (path, "qcow2")).map fun l => l.backing.map Prod.fst

-- A snapshot is gone, what it backed is backed by what backed it, and no other layer has another
-- backing file.
structure Contracted (F : Formats β) (store : DiskStore) (vm disk n : String)
    (fs fs' : FileSystem β) : Prop where
  gone : fs'.node (store.snapshotFile vm disk n) = none
  child : ∀ c, Backs F fs (store.snapshotFile vm disk c) (store.snapshotFile vm disk n) →
    backingFile F fs' (store.snapshotFile vm disk c) =
      backingFile F fs (store.snapshotFile vm disk n)
  others : ∀ m, m ≠ n →
    ¬Backs F fs (store.snapshotFile vm disk m) (store.snapshotFile vm disk n) →
    backingFile F fs' (store.snapshotFile vm disk m) =
      backingFile F fs (store.snapshotFile vm disk m)
  active : backingFile F fs' (store.diskFile vm disk) = backingFile F fs (store.diskFile vm disk)

theorem backingFile_congr {fs fs' : FileSystem β} {path : Path}
    (h : fs'.node path = fs.node path) : backingFile F fs' path = backingFile F fs path :=
  congrArg _ (layerAt_congr (FileSystem.blob_congr fs h))

-- A deletion contracts the forest if the snapshot backs no other one, or is itself backed by
-- nothing or by a snapshot. A base image is not put below its child.
theorem snapshotDelete_contracts_iff (hq : Describes F host.qemuImg) (hr : Rebases F host.qemuImg)
    (hhealthy : Healthy F store w.fs vm disk) {n : String} {u : Unit}
    (h : store.snapshotDelete host vm disk n w = (.ok u, w')) :
    Contracted F store vm disk n w.fs w'.fs ↔
      (∀ c, ¬Backs F w.fs (store.snapshotFile vm disk c) (store.snapshotFile vm disk n)) ∨
        ∀ target, Backs F w.fs (store.snapshotFile vm disk n) target →
          ∃ p, target = store.snapshotFile vm disk p := by
  obtain ⟨snaps, snap, hlisted, hsnap, rfl, -, hgone, hfiles⟩ :=
    snapshotDelete_files hq hr hhealthy h
  have hkids := fun c => @Healthy.mem_children_iff _ F store vm disk w snaps hhealthy hlisted snap
    hsnap c
  obtain ⟨-, -, l, hl, hparent, -⟩ := hlisted.sound snap hsnap
  obtain ⟨hnil, hother⟩ | ⟨c, b, l', hone, hnode, hl', hbacking, hother⟩ := hfiles
  · -- a leaf
    have hleaf : ∀ c, ¬Backs F w.fs (store.snapshotFile vm disk c)
        (store.snapshotFile vm disk snap.name) := by
      intro c hc
      rw [← hkids, hnil] at hc
      cases hc
    refine ⟨fun _ => Or.inl hleaf, fun _ => ⟨hgone, fun c hc => absurd hc (hleaf c), ?_, ?_⟩⟩
    · exact fun m hm _ => backingFile_congr (hother _ fun heq => hm (snapshotFile_inj heq))
    · exact backingFile_congr (hother _ (diskFile_ne_snapshotFile _ _ _ _ _))
  · have hchild : Backs F w.fs (store.snapshotFile vm disk c)
        (store.snapshotFile vm disk snap.name) := by
      rw [← hkids, hone]
      exact List.mem_cons_self
    have hafter : backingFile F w'.fs (store.snapshotFile vm disk c) =
        some (snap.parent.map (store.snapshotFile vm disk)) := by
      rw [backingFile, layerAt_eq_of_node hnode hl', Option.map_some, hbacking, Option.map_map]
      rfl
    have hbefore : backingFile F w.fs (store.snapshotFile vm disk snap.name) =
        some (l.backing.map Prod.fst) := congrArg (Option.map _) hl
    constructor
    · intro hcon
      right
      rintro target ⟨l₁, format, hl₁, hb⟩
      obtain rfl := Option.some.inj (hl.symm.trans hl₁)
      have hsame := hcon.child c hchild
      rw [hafter, hbefore, hb] at hsame
      obtain ⟨p, -, hp⟩ := Option.map_eq_some_iff.mp (Option.some.inj hsame)
      exact ⟨p, hp.symm⟩
    · rintro (hleaf | hsnapshot)
      · exact absurd hchild (hleaf c)
      · refine ⟨hgone, ?_, ?_, ?_⟩
        · intro c' hc'
          rw [← hkids, hone, List.mem_singleton] at hc'
          obtain rfl := hc'
          rw [hafter, hbefore, hparent]
          cases hb : l.backing with
          | none => rfl
          | some r =>
              obtain ⟨p, hp⟩ := hsnapshot r.1 ⟨l, r.2, hl, hb⟩
              have hbacks : Backs F w.fs (store.snapshotFile vm disk snap.name)
                  (store.snapshotFile vm disk p) := ⟨l, r.2, hl, by rw [hb, ← hp]⟩
              have hof := (hhealthy.parentOf_iff hlisted).mpr hbacks
              rw [parentOf, find_name hlisted.nodup hsnap, Option.bind_some, hparent, hb] at hof
              rw [hof, Option.map_some, Option.map_some, hp]
        · intro m hm hnot
          refine backingFile_congr (hother _ (fun heq => hm (snapshotFile_inj heq)) fun heq => ?_)
          rw [snapshotFile_inj heq] at hnot
          exact hnot hchild
        · exact backingFile_congr (hother _ (diskFile_ne_snapshotFile _ _ _ _ _)
            (diskFile_ne_snapshotFile _ _ _ _ _))

end

section Clones

-- The disk of a clone: `s1` is on the base image, `s2` on `s1`, and the overlay on `s2`. And a disk
-- that is no clone.
def cloneDisk (base : Option ImageRef) : World Blob :=
  treeWorld (.qcow2 1 [] (some (snapPath "s2", "qcow2")))
    [("s1", .qcow2 1 [] base), ("s2", .qcow2 1 [] (some (snapPath "s1", "qcow2")))]
    [("base", .qcow2 1 [] none)]

def onImage : World Blob := cloneDisk (some (imagePath "base", "qcow2"))

def onNothing : World Blob := cloneDisk none

-- The order of the two.
def second (n : String) : Nat := if n = "s2" then 1 else 0

theorem onImage_healthy : Healthy memoryFormats treeStore onImage.fs "web" "root" := by
  refine @healthy_of_files _ _ _ _ "web" "root" ["s1", "s2"] (by decide) (by decide)
    (by decide) (by decide) (by decide) (by decide) ?_ ?_ second
    (by decide)
  · intro n hn target h
    obtain rfl | rfl : n = "s1" ∨ n = "s2" := by simpa using hn
    · obtain rfl := Option.some.inj h
      decide
    · obtain rfl := Option.some.inj h
      decide
  · intro target h
    obtain rfl := Option.some.inj h
    decide

theorem onNothing_healthy : Healthy memoryFormats treeStore onNothing.fs "web" "root" := by
  refine @healthy_of_files _ _ _ _ "web" "root" ["s1", "s2"] (by decide) (by decide)
    (by decide) (by decide) (by decide) (by decide) ?_ ?_ second
    (by decide)
  · intro n hn target h
    obtain rfl | rfl : n = "s1" ∨ n = "s2" := by simpa using hn
    · cases h
    · obtain rfl := Option.some.inj h
      decide
  · intro target h
    obtain rfl := Option.some.inj h
    decide

theorem snapshotDelete_contracts_onNothing :
    Contracted memoryFormats treeStore "web" "root" "s1" onNothing.fs
      (treeStore.snapshotDelete (memoryHost []) "web" "root" "s1" onNothing).2.fs := by
  obtain ⟨u, hrun⟩ := eq_ok_of_isOk
    (x := treeStore.snapshotDelete (memoryHost []) "web" "root" "s1" onNothing) (by decide)
  refine (snapshotDelete_contracts_iff (Memory.describes []) (Memory.rebases []) onNothing_healthy
    hrun).mpr (Or.inr ?_)
  rintro target ⟨l, format, hl, hb⟩
  obtain rfl : l = Memory.written 1 [] none := Option.some.inj (hl.symm.trans rfl)
  cases hb

-- The clone's only other layer has no backing file any more.
theorem snapshotDelete_drops_image :
    let run := treeStore.snapshotDelete (memoryHost []) "web" "root" "s1" onImage
    run.1.isOk = true ∧ Healthy memoryFormats treeStore onImage.fs "web" "root" ∧
      ¬Contracted memoryFormats treeStore "web" "root" "s1" onImage.fs run.2.fs := by
  refine ⟨by decide, onImage_healthy, fun h => ?_⟩
  have hchild := h.child "s2" (backs_iff_pointer.mpr rfl)
  exact absurd hchild (by decide)

end Clones

end VMForge.Storage
