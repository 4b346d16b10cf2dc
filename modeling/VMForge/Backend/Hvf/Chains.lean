import VMForge.Backend.Hvf.Lemmas
import VMForge.Backend.Hvf.Names
import VMForge.Engine.Chains

namespace VMForge.Hvf

open VMForge.Core Engine Exec Machine HvfBackend

variable {ρ : Type} {site : Site ρ} {env : Env ρ} {accel : Accel}

theorem spawn_ok {inv : Invocation} {w w' : World ρ} {q : Qemu ρ}
    (h : QemuVm.spawn site env inv w = (.ok q, w')) :
    q = Qemu.start site inv ∧ w' = w.note (.spawned inv) := by
  unfold QemuVm.spawn at h
  split at h
  · cases h
  · split at h
    · cases h
    · cases h
      exact ⟨rfl, rfl⟩

-- The chains of a process started on `files`.
theorem chains_plain {ds : List Disk} {files : List String}
    (h : ds = files.zipIdx.map fun (file, i) => ⟨⟨nodeName i, file⟩, []⟩) :
    Plain files.length ds ∧ ds.map (·.top.file) = files := by
  subst h
  refine ⟨⟨by simp, fun i d hd => ?_⟩, ?_⟩
  · rw [List.getElem?_map, List.getElem?_zipIdx] at hd
    cases hf : files[i]? with
    | none => simp [hf] at hd
    | some file =>
        simp only [hf, Option.map_some, Option.some.injEq, Nat.zero_add] at hd
        subst hd
        exact ⟨rfl, rfl⟩
  · rw [List.map_map]
    exact List.zipIdx_map_fst 0 files

theorem invocation_disks {e : VmEntry ρ} {inv : Invocation}
    (h : invocationFor site accel e = .ok inv) :
    inv.disks = e.activeDisks.zipIdx.map fun (file, i) => ⟨⟨nodeName i, file⟩, []⟩ :=
  buildAarch64Virt_disks h

theorem cont_disks {s s' : Session ρ} {r : Except HvError Unit}
    (h : QemuVm.cont site env s = (r, s')) : s'.qemu.disks = s.qemu.disks := by
  have hkeeps : Keeps SameDisks (QemuVm.cont site env) :=
    (sameDisks_frame site).order trivial fun s s' h => carryOut_disks (by simp) h
  have hs := hkeeps s
  rwa [h] at hs

theorem pause_disks {s s' : Session ρ} {r : Except HvError Unit}
    (h : QemuVm.pause site env s = (r, s')) : s'.qemu.disks = s.qemu.disks := by
  have hkeeps : Keeps SameDisks (QemuVm.pause site env) :=
    (sameDisks_frame site).order trivial fun s s' h => carryOut_disks (by simp) h
  have hs := hkeeps s
  rwa [h] at hs

theorem restoreIncoming_disks {s s' : Session ρ} {f : String} {r : Except HvError Unit}
    (h : QemuVm.restoreIncoming site env f s = (r, s')) : s'.qemu.disks = s.qemu.disks := by
  have hkeeps : Keeps SameDisks (QemuVm.restoreIncoming site env f) :=
    (sameDisks_frame site).restoreIncoming trivial trivial
      (fun s s' h => carryOut_disks (by simp) h) fun s l => load_disks s f l
  have hs := hkeeps s
  rwa [h] at hs

-- A process that runs after `boot` or `restore` has the chains it was started with.
theorem booted_disks {e : VmEntry ρ} {inv : Invocation} {q : Qemu ρ} {w w' : World ρ}
    {s : Session ρ} (hinv : invocationFor site accel e = .ok inv)
    (hspawn : QemuVm.spawn site env inv w = (.ok q, w'))
    (h : QemuVm.cont site env ⟨q, w'⟩ = (.ok (), s)) :
    Plain e.activeDisks.length s.qemu.disks ∧ s.qemu.tops = e.activeDisks := by
  have hdisks : s.qemu.disks = inv.disks := by
    rw [cont_disks h, (spawn_ok hspawn).1]
    rfl
  exact chains_plain (hdisks.trans (invocation_disks hinv))

theorem launched_disks {e : VmEntry ρ} {inv : Invocation} {f : String} {q : Qemu ρ}
    {w w' : World ρ} (hinv : invocationFor site accel e = .ok inv)
    (h : Launched site env inv f w (.ok q) w') :
    Plain e.activeDisks.length q.disks ∧ q.tops = e.activeDisks := by
  cases h with
  | done q₀ w₀ s s' hspawn hload hcont =>
      have hdisks : s'.qemu.disks = inv.disks := by
        rw [cont_disks hcont, restoreIncoming_disks hload, (spawn_ok hspawn).1]
        exact withIncomingDefer_disks inv
      exact chains_plain (hdisks.trans (invocation_disks hinv))

-- The overlays a restore made, in the order of the frozen layers.
theorem createOverlays_ok {e : VmEntry ρ} {tag : String} {bases overlays : List String}
    {w w' : World ρ} (h : createOverlays site env e tag bases w = (.ok overlays, w')) :
    overlays = (List.range bases.length).map (overlayPath e tag) := by
  have hmap : overlays = bases.zipIdx.map fun p => overlayPath e tag p.2 :=
    mapEach_ok_map (fun p t o t' ho => by
      obtain ⟨_, _, -, hpure⟩ := bind_eq_ok.mp ho
      exact (pure_eq_ok.mp hpure).1.symm) h
  rw [hmap]
  apply List.ext_getElem?
  intro i
  rw [List.getElem?_map, List.getElem?_zipIdx, List.getElem?_map]
  by_cases hi : i < bases.length
  · simp [hi]
  · simp [hi]

-- What every entry of a registry is like: one active layer for each configured disk, as many
-- frozen layers in each snapshot, and a process that is as it was started or has its first disk
-- switched. Where a reply is late, nothing is known of the process any more.
structure Shaped (e : VmEntry ρ) : Prop where
  arch : e.config.arch = .aarch64
  arity : e.activeDisks.length = e.config.disks.length
  bases : ∀ id a, e.snapshots id = some a → a.diskBases.length = e.config.disks.length
  chains : ∀ q, e.runtime = some q → q.unread = [] →
    Plain e.config.disks.length q.disks ∨ Covered e.config.disks.length q.disks

namespace Shaped

variable {e : VmEntry ρ}

theorem of_new (config : VmConfig) (harch : config.arch = .aarch64) :
    Shaped (newEntry site config) where
  arch := harch
  arity := rfl
  bases _ _ h := nomatch h
  chains _ h := nomatch h

-- A process with other chains, none at all or the same entry under another state.
theorem setRuntime (h : Shaped e) {runtime : Option (Qemu ρ)}
    (hq : ∀ q, runtime = some q → q.unread = [] →
      Plain e.config.disks.length q.disks ∨ Covered e.config.disks.length q.disks) :
    Shaped (e.setRuntime runtime) :=
  ⟨h.arch, h.arity, h.bases, hq⟩

theorem setState (h : Shaped e) (n : VmState) : Shaped (e.setState n) :=
  ⟨h.arch, h.arity, h.bases, h.chains⟩

theorem nextSeq (h : Shaped e) : Shaped e.nextSeq := ⟨h.arch, h.arity, h.bases, h.chains⟩

theorem branched (h : Shaped e) {overlays : List String}
    (hlen : overlays.length = e.config.disks.length) : Shaped (branched e overlays) :=
  ⟨h.arch, hlen, h.bases, fun _ hq => nomatch hq⟩

theorem withoutRuntime (h : Shaped e) : Shaped (e.setRuntime none) :=
  h.setRuntime fun _ hq => nomatch hq

end Shaped

theorem diskNodes_eq (e : VmEntry ρ) :
    diskNodes e = (List.range e.config.disks.length).map nodeName := rfl

-- What a capture makes of the chains of a VM's process.
theorem capture_chains {e : VmEntry ρ} (hshape : Shaped e) {q : Qemu ρ} {w : World ρ}
    {s : Session ρ} {r : Except HvError SnapshotId} (hq : e.runtime = some q)
    (hread : q.unread = []) (h : capture site env e ⟨q, w⟩ = (r, s)) :
    Plain e.config.disks.length s.qemu.disks ∨ Covered e.config.disks.length s.qemu.disks := by
  have htag : ∀ i j, s!"{snapTag (e.snapshotSeq + 1)}-{nodeName i}" ≠ nodeName j :=
    snapNode_ne_nodeName _
  obtain hplain | hcovered := hshape.chains q hq hread
  · obtain ⟨j, hj, hdisks, -⟩ := snapshot_disks (n := e.config.disks.length) htag hplain hread h
    cases j with
    | zero =>
        rw [hdisks, switched_zero]
        exact Or.inl hplain
    | succ j =>
        rw [hdisks]
        exact Or.inr (switched_covered htag hplain (by omega) (by omega))
  · rw [(snapshot_covered hcovered hread h).1]
    exact Or.inr hcovered

theorem capture_piles {e : VmEntry ρ} {q : Qemu ρ} {w : World ρ} {s : Session ρ}
    {r : Except HvError SnapshotId} (h : capture site env e ⟨q, w⟩ = (r, s)) :
    Piles ⟨q, w⟩ s := by
  have hkeeps := snapshot_piles site env (diskNodes e) e.dir (snapTag (e.snapshotSeq + 1)) ⟨q, w⟩
  rw [capture] at h
  rwa [h] at hkeeps

-- The process of a VM whose capture has returned writes to the overlays of the capture.
theorem captured_tops {e : VmEntry ρ} {q : Qemu ρ} {s : Session ρ} (hplain : Plain e.config.disks.length q.disks)
    (hdisks : s.qemu.disks =
      switched e.dir (snapTag (e.snapshotSeq + 1)) e.config.disks.length q.disks) :
    s.qemu.tops = capturedDisks e := by
  rw [Qemu.tops, hdisks, ← hplain.1, switched_tops, hplain.1, capturedDisks, diskNodes,
    List.map_map]
  rfl

section Moves

variable {e : VmEntry ρ} {w : World ρ} {m : Machine ρ} (h : Shaped e)
include h

-- A process with the chains it had.
theorem Shaped.sameDisks {q : Qemu ρ} {s : Session ρ} (hq : e.runtime = some q)
    (hs : s.qemu.disks = q.disks) (hunread : s.qemu.unread = [] → q.unread = []) :
    Shaped (e.setRuntime (some s.qemu)) := by
  refine h.setRuntime fun q' hq' hread => ?_
  cases hq'
  rw [hs]
  exact h.chains q hq (hunread hread)

theorem Booted.shaped {r : Except HvError Unit} (hspec : Booted site env accel e w r m) :
    Shaped m.entry := by
  cases hspec with
  | rejected _ _ | uninvocable _ _ | unspawned _ _ _ _ _ | dropped _ _ _ _ _ _ _ _ => exact h
  | done inv q w' s _ hinv hspawn hcont =>
      refine (h.setRuntime fun q' hq' _ => ?_).setState _
      cases hq'
      rw [← h.arity]
      exact Or.inl (booted_disks hinv hspawn hcont).1

theorem Commanded.shaped {op : VmOp} {x : Exec (Session ρ) HvError Unit} {r : Except HvError Unit}
    (hx : ∀ s s' r, x s = (r, s') → s'.qemu.disks = s.qemu.disks) (hpiles : Keeps Piles x)
    (hspec : Commanded op x e w r m) : Shaped m.entry := by
  cases hspec with
  | rejected _ _ | absent _ _ => exact h
  | failed n q err s _ hq hrun => exact h.sameDisks hq (hx _ _ _ hrun) (hpiles.error hrun)
  | done n q s _ hq hrun => exact (h.sameDisks hq (hx _ _ _ hrun) (hpiles.ok hrun)).setState n

theorem Stopped.shaped {r : Except HvError Unit} (hspec : Stopped site env e w r m) :
    Shaped m.entry := by
  cases hspec with
  | rejected _ _ => exact h
  | failed _ _ _ _ => exact h.withoutRuntime
  | done _ _ _ => exact h.withoutRuntime.setState _

theorem Captured.shaped {parent : Option SnapshotId} {r : Except HvError SnapshotId}
    (hspec : Captured site env parent e w r m) : Shaped m.entry := by
  cases hspec with
  | orphaned _ _ _ | rejected _ _ => exact h
  | absent _ _ _ => exact h.nextSeq
  | failed q err s _ _ hq hrun =>
      refine h.nextSeq.setRuntime fun q' hq' hread => ?_
      cases hq'
      exact capture_chains h hq (capture_piles hrun hread) hrun
  | done q id s _ _ hq hrun =>
      refine ⟨h.arch, by simp [recordCapture, capturedDisks, diskNodes], ?_, ?_⟩
      · intro id' a ha
        by_cases hid : id' = id
        · subst hid
          simp only [recordCapture, VmEntry.setRuntime_snapshots, VmEntry.insertSnapshot_snapshots,
            Function.update_self, Option.some.injEq] at ha
          subst ha
          exact h.arity
        · refine h.bases id' a ?_
          simpa [recordCapture, VmEntry.insertSnapshot_snapshots, hid] using ha
      · intro q' hq' hread
        cases hq'
        exact capture_chains h hq (capture_piles hrun hread) hrun

-- As many overlays as the VM has disks.
theorem Shaped.overlays_length {id : SnapshotId} {a : SnapshotArtifacts} {tag : String}
    {overlays : List String} {w w' : World ρ} (ha : e.snapshots id = some a)
    (hbranch : createOverlays site env e tag a.diskBases w = (.ok overlays, w')) :
    overlays.length = e.config.disks.length := by
  rw [createOverlays_ok hbranch, List.length_map, List.length_range, h.bases id a ha]

theorem Restored.shaped {id : SnapshotId} {r : Except HvError Unit}
    (hspec : Restored site env accel id e w r m) : Shaped m.entry := by
  cases hspec with
  | rejected _ _ | unknown _ => exact h
  | unquit _ _ _ _ _ _ => exact h.withoutRuntime
  | unbranched _ _ _ _ _ _ _ _ => exact h.withoutRuntime.nextSeq
  | uninvocable a overlays err w₁ w₂ _ ha _ hbranch _ => exact h.branched (h.overlays_length ha hbranch)
  | unlaunched a overlays inv err w₁ w₂ w₃ _ ha _ hbranch _ _ =>
      exact h.branched (h.overlays_length ha hbranch)
  | done a overlays inv q w₁ w₂ w₃ _ ha _ hbranch hinv hlaunch =>
      have hlen := h.overlays_length ha hbranch
      refine ((h.branched hlen).setRuntime fun q' hq' _ => ?_).setState _
      cases hq'
      have hplain := (launched_disks hinv hlaunch).1
      simp only [branched, VmEntry.setActiveDisks_activeDisks, hlen] at hplain
      exact Or.inl hplain

theorem Moved.shaped {vm : String} {t : Turn ρ} (hmove : Moved site accel vm e w t m) :
    Shaped m.entry := by
  cases hmove with
  | idle _ => exact h
  | acted acts q hq =>
      exact h.sameDisks hq (Session.during_disks site _ acts)
        (Session.during_unread site _ acts).symm.trans
  | migrated poll q hq =>
      exact h.sameDisks hq (endMigration_disks _ poll) (endMigration_unread site _ poll).symm.trans
  | boot _ hspec => exact hspec.shaped h
  | pause _ hspec => exact hspec.shaped h (fun _ _ _ => pause_disks) (order_piles site _ _ _)
  | resume _ hspec => exact hspec.shaped h (fun _ _ _ => cont_disks) (order_piles site _ _ _)
  | stop _ hspec => exact hspec.shaped h
  | snapshot _ _ hspec => exact hspec.shaped h
  | restore _ _ hspec => exact hspec.shaped h

end Moves

theorem shaped_turn {b : HvfBackend ρ} (t : Turn ρ) (hb : ∀ vm e, b.vms vm = some e → Shaped e) :
    ∀ vm e, (b.turn site t).vms vm = some e → Shaped e :=
  entries_turn hb Shaped.of_new fun vm e _ he hmove => hmove.shaped (hb vm e he)

end VMForge.Hvf
