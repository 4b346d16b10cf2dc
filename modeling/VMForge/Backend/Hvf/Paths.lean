import VMForge.Backend.Hvf.Chains

namespace VMForge.Hvf

open VMForge.Core Engine Exec HvfBackend

variable {ρ : Type} {site : Site ρ} {env : Env ρ} {accel : Accel}

-- The path of a generated file of a VM.
def generatedPath (e : VmEntry ρ) (g : Generated) : String := join e.dir g.name

-- One generated layer for each disk of a VM.
def layersOf (e : VmEntry ρ) (g : Nat → Generated) : List String :=
  (List.range e.config.disks.length).map fun i => generatedPath e (g i)

theorem locate_generated (site : Site ρ) (e : VmEntry ρ) (g : Generated) :
    site.locate (generatedPath e g) = site.locate e.dir ++ [g.name] :=
  locate_join site e.dir g.isComponent_name

-- Generated files of one directory are told apart by their names.
theorem locate_generated_inj (e e' : VmEntry ρ) (g g' : Generated)
    (h : site.locate (generatedPath e g) = site.locate (generatedPath e' g')) :
    site.locate e.dir = site.locate e'.dir ∧ g = g' := by
  rw [locate_generated, locate_generated] at h
  obtain ⟨hdir, hname⟩ := List.append_inj' h rfl
  exact ⟨hdir, Generated.name_injective (List.cons.inj hname).1⟩

-- What a disk reads through the layer at a path.
def Reads (site : Site ρ) (files : Files ρ) (file : String) (c : Content) : Prop :=
  Resolves files.layer (site.locate file) c

-- What a disk reads depends on the layers below it alone.
theorem Reads.of_same {files files' : Files ρ} {file : String} {c : Content}
    (h : Reads site files file c)
    (hsame : ∀ q, Relation.ReflTransGen (BackedBy files.layer) (site.locate file) q →
      files' q = files q) : Reads site files' file c := by
  refine h.of_closed (S := Relation.ReflTransGen (BackedBy files.layer) (site.locate file))
    Relation.ReflTransGen.refl (fun _ _ hs hb => hs.tail hb) fun q hq => ?_
  simp only [Files.layer, hsame q hq]

theorem capturedDisks_eq (e : VmEntry ρ) :
    capturedDisks e = layersOf e (.snapDisk (e.snapshotSeq + 1)) := by
  rw [capturedDisks, diskNodes_eq, List.map_map]
  rfl

theorem statePath_eq (e : VmEntry ρ) :
    statePath e (snapTag (e.snapshotSeq + 1)) = generatedPath e (.snapState (e.snapshotSeq + 1)) :=
  rfl

theorem overlayPath_branchTag (e : VmEntry ρ) (seq disk : Nat) :
    overlayPath e (branchTag seq) disk = generatedPath e (.branchDisk seq disk) := by
  rw [overlayPath, generatedPath, Generated.name]

theorem overlayBlock_snapTag (e : VmEntry ρ) (seq disk : Nat) :
    (overlayBlock e.dir (snapTag seq) disk).file = generatedPath e (.snapDisk seq disk) := by
  rw [overlayBlock, generatedPath, Generated.name]

theorem stateName_snapTag (e : VmEntry ρ) (seq : Nat) :
    join e.dir (QemuVm.stateName (snapTag seq)) = generatedPath e (.snapState seq) := by
  rw [generatedPath, Generated.name]

-- The files of one capture are different files.
theorem snapState_apart (site : Site ρ) (e : VmEntry ρ) (seq i : Nat) :
    site.locate (join e.dir (QemuVm.stateName (snapTag seq))) ≠
      site.locate (overlayBlock e.dir (snapTag seq) i).file := by
  rw [stateName_snapTag, overlayBlock_snapTag]
  intro hsame
  cases (locate_generated_inj e e _ _ hsame).2

theorem snapDisk_inj (site : Site ρ) (e : VmEntry ρ) (seq i j : Nat)
    (hsame : site.locate (overlayBlock e.dir (snapTag seq) i).file =
      site.locate (overlayBlock e.dir (snapTag seq) j).file) : i = j := by
  rw [overlayBlock_snapTag, overlayBlock_snapTag] at hsame
  exact (Generated.snapDisk.inj (locate_generated_inj e e _ _ hsame).2).2

-- The layers of a VM after one of its captures or restores.
def Made (e : VmEntry ρ) (disks : List String) : Prop :=
  ∃ k ≤ e.snapshotSeq, disks = layersOf e (.snapDisk k) ∨ disks = layersOf e (.branchDisk k)

-- What an entry says about its files: its layers are the configured ones until its first capture,
-- and generated ones from there on; so are the layers its snapshots have frozen, and each of them
-- has a state file of its own name.
structure Named (e : VmEntry ρ) : Prop where
  active : e.activeDisks = e.config.disks ∨ Made e e.activeDisks
  made : ∀ id a, e.snapshots id = some a → Made e e.activeDisks
  bases : ∀ id a, e.snapshots id = some a → a.diskBases = e.config.disks ∨ Made e a.diskBases
  states : ∀ id a, e.snapshots id = some a →
    ∃ k ≤ e.snapshotSeq, a.stateFile = generatedPath e (.snapState k)

namespace Named

variable {e : VmEntry ρ}

theorem of_new (config : VmConfig) : Named (newEntry site config) where
  active := Or.inl rfl
  made _ _ h := nomatch h
  bases _ _ h := nomatch h
  states _ _ h := nomatch h

theorem setRuntime (h : Named e) (runtime : Option (Qemu ρ)) : Named (e.setRuntime runtime) :=
  ⟨h.active, h.made, h.bases, h.states⟩

theorem setState (h : Named e) (n : VmState) : Named (e.setState n) :=
  ⟨h.active, h.made, h.bases, h.states⟩

end Named

theorem Made.nextSeq {e : VmEntry ρ} {disks : List String} (h : Made e disks) :
    Made e.nextSeq disks := by
  obtain ⟨k, hk, hdisks⟩ := h
  exact ⟨k, Nat.le_succ_of_le hk, hdisks⟩

theorem Named.nextSeq {e : VmEntry ρ} (h : Named e) : Named e.nextSeq where
  active := h.active.imp id Made.nextSeq
  made id a ha := (h.made id a ha).nextSeq
  bases id a ha := (h.bases id a ha).imp (fun hb => hb) Made.nextSeq
  states id a ha := by
    obtain ⟨k, hk, hstate⟩ := h.states id a ha
    exact ⟨k, Nat.le_succ_of_le hk, hstate⟩

-- The layers of a restore.
theorem overlays_eq {e : VmEntry ρ} (hshape : Shaped e) {id : SnapshotId} {a : SnapshotArtifacts}
    {overlays : List String} {w w' : World ρ} (ha : e.snapshots id = some a)
    (hbranch : createOverlays site env e (branchTag (e.snapshotSeq + 1)) a.diskBases w =
      (.ok overlays, w')) : overlays = layersOf e (.branchDisk (e.snapshotSeq + 1)) := by
  rw [createOverlays_ok hbranch, hshape.bases id a ha]
  rfl

theorem Named.branched {e : VmEntry ρ} (h : Named e) {overlays : List String}
    (hoverlays : overlays = layersOf e (.branchDisk (e.snapshotSeq + 1))) :
    Named (branched e overlays) := by
  have hmade : Made (Hvf.branched e overlays) overlays :=
    ⟨e.snapshotSeq + 1, le_refl _, Or.inr hoverlays⟩
  refine ⟨Or.inr hmade, fun _ _ _ => hmade, fun id a ha => ?_, fun id a ha => ?_⟩
  · exact (h.bases id a ha).imp (fun hb => hb) Made.nextSeq
  · exact h.nextSeq.states id a ha

theorem Named.recordCapture {e : VmEntry ρ} (h : Named e) (parent : Option SnapshotId)
    (id : SnapshotId) : Named (recordCapture e parent id) := by
  have hmade : Made (Hvf.recordCapture e parent id) (capturedDisks e) :=
    ⟨e.snapshotSeq + 1, le_refl _, Or.inl (capturedDisks_eq e)⟩
  refine ⟨Or.inr hmade, fun _ _ _ => hmade, fun id' a ha => ?_, fun id' a ha => ?_⟩
  · obtain hold | rfl := recordCapture_snapshots ha
    · exact (h.bases id' a hold).imp (fun hb => hb) Made.nextSeq
    · exact h.active.imp (fun hb => hb) Made.nextSeq
  · obtain hold | rfl := recordCapture_snapshots ha
    · exact h.nextSeq.states id' a hold
    · exact ⟨e.snapshotSeq + 1, le_refl _, statePath_eq e⟩

theorem Moved.named {e : VmEntry ρ} {w : World ρ} {m : Machine ρ} {vm : String} {t : Turn ρ}
    (h : Named e) (hs : Shaped e) (hmove : Moved site accel vm e w t m) : Named m.entry := by
  cases hmove with
  | idle _ => exact h
  | acted acts q hq => exact h.setRuntime _
  | migrated poll q hq => exact h.setRuntime _
  | boot _ hspec =>
      cases hspec with
      | rejected _ _ | uninvocable _ _ | unspawned _ _ _ _ _ | dropped _ _ _ _ _ _ _ _ => exact h
      | done _ _ _ _ _ _ _ _ => exact (h.setRuntime _).setState _
  | pause _ hspec | resume _ hspec =>
      cases hspec with
      | rejected _ _ | absent _ _ => exact h
      | failed _ _ _ _ _ _ _ => exact h.setRuntime _
      | done _ _ _ _ _ _ => exact (h.setRuntime _).setState _
  | stop _ hspec =>
      cases hspec with
      | rejected _ _ => exact h
      | failed _ _ _ _ => exact h.setRuntime _
      | done _ _ _ => exact (h.setRuntime _).setState _
  | snapshot _ parent hspec =>
      cases hspec with
      | orphaned _ _ _ | rejected _ _ => exact h
      | absent _ _ _ => exact h.nextSeq
      | failed _ _ _ _ _ _ _ => exact h.nextSeq.setRuntime _
      | done q id s _ _ _ _ => exact (h.recordCapture parent id).setRuntime _
  | restore _ id hspec =>
      cases hspec with
      | rejected _ _ | unknown _ => exact h
      | unquit _ _ _ _ _ _ => exact h.setRuntime _
      | unbranched _ _ _ _ _ _ _ _ => exact (h.setRuntime _).nextSeq
      | uninvocable a overlays err w₁ w₂ _ ha _ hbranch _ =>
          exact h.branched (overlays_eq hs ha hbranch)
      | unlaunched a overlays inv err w₁ w₂ w₃ _ ha _ hbranch _ _ =>
          exact h.branched (overlays_eq hs ha hbranch)
      | done a overlays inv q w₁ w₂ w₃ _ ha _ hbranch _ _ =>
          exact ((h.branched (overlays_eq hs ha hbranch)).setRuntime _).setState _

theorem named_turn {b : HvfBackend ρ} (t : Turn ρ) (hshape : ∀ vm e, b.vms vm = some e → Shaped e)
    (hb : ∀ vm e, b.vms vm = some e → Named e) :
    ∀ vm e, (b.turn site t).vms vm = some e → Named e :=
  entries_turn hb (fun config _ => Named.of_new config) fun vm e _ he hmove =>
    hmove.named (hb vm e he) (hshape vm e he)

end VMForge.Hvf
