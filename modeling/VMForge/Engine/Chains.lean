import VMForge.Engine.Lemmas
import VMForge.Engine.Invocation

namespace VMForge.Engine

open VMForge.Core Exec

variable {ρ : Type} {site : Site ρ} {env : Env ρ}

-- The chain whose top bears the name is the first such chain.
theorem switchTop_at {node : String} {new : Block} {ds : List Disk} {k : Nat} {d : Disk}
    (hk : ds[k]? = some d) (hnode : d.top.node = node)
    (hfirst : ∀ j d', j < k → ds[j]? = some d' → d'.top.node ≠ node) :
    switchTop node new ds = some (d.top, ds.set k ⟨new, d.top :: d.below⟩) := by
  induction ds generalizing k with
  | nil => simp at hk
  | cons d₀ ds ih =>
      cases k with
      | zero =>
          simp only [List.getElem?_cons_zero, Option.some.injEq] at hk
          subst hk
          simp [switchTop, hnode]
      | succ k =>
          have hne := hfirst 0 d₀ (by omega) rfl
          have htail := ih (by simpa using hk) fun j d' hj hd' =>
            hfirst (j + 1) d' (by omega) (by simpa using hd')
          simp [switchTop, hne, htail]

-- A name that no chain has at its top is refused.
theorem switchTop_none {node : String} {new : Block} {ds : List Disk}
    (h : ∀ d ∈ ds, d.top.node ≠ node) : switchTop node new ds = none := by
  induction ds with
  | nil => rfl
  | cons d ds ih =>
      have hd := h d List.mem_cons_self
      simp [switchTop, hd, ih fun d' hd' => h d' (List.mem_cons_of_mem _ hd')]

-- The node and the file of the overlay a capture puts on disk `i`.
def overlayBlock (stateDir tag : String) (i : Nat) : Block :=
  ⟨s!"{tag}-{nodeName i}", join stateDir (QemuVm.overlayName tag (nodeName i))⟩

-- The chains once the first `k` disks have their overlays.
def switched (stateDir tag : String) (k : Nat) (ds : List Disk) : List Disk :=
  ds.mapIdx fun i d => if i < k then ⟨overlayBlock stateDir tag i, d.top :: d.below⟩ else d

-- The chains as QEMU starts with them: nothing below the node the command line names.
def Plain (n : Nat) (ds : List Disk) : Prop :=
  ds.length = n ∧ ∀ i d, ds[i]? = some d → d.below = [] ∧ d.top.node = nodeName i

-- The first disk has been switched, so that its node is no top any more.
def Covered (n : Nat) (ds : List Disk) : Prop :=
  ds.length = n ∧ 0 < n ∧ ∀ d ∈ ds, d.top.node ≠ nodeName 0

-- The first disk writes to the node the command line names.
def OnBase (q : Qemu ρ) : Prop := ∀ d ∈ q.disks[0]?, d.top.node = nodeName 0

instance (q : Qemu ρ) : Decidable (OnBase q) :=
  inferInstanceAs (Decidable (∀ d ∈ q.disks[0]?, d.top.node = nodeName 0))

theorem Covered.not_onBase {n : Nat} {q : Qemu ρ} (h : Covered n q.disks) : ¬OnBase q := by
  obtain ⟨hlen, hpos, hcovered⟩ := h
  intro hbase
  have hd : q.disks[0]? = some (q.disks.get ⟨0, by omega⟩) := List.getElem?_eq_getElem _
  exact hcovered _ (List.get_mem _ _) (hbase _ hd)

section Switched

variable {stateDir tag : String} {ds : List Disk} {k n : Nat}

@[simp] theorem switched_zero : switched stateDir tag 0 ds = ds := by
  apply List.ext_getElem?
  intro i
  simp [switched]

@[simp] theorem switched_length : (switched stateDir tag k ds).length = ds.length := by
  simp [switched]

theorem switched_getElem? (i : Nat) : (switched stateDir tag k ds)[i]? =
    ds[i]?.map fun d => if i < k then ⟨overlayBlock stateDir tag i, d.top :: d.below⟩ else d := by
  simp [switched]

theorem switched_succ {d : Disk} (hk : ds[k]? = some d) :
    (switched stateDir tag k ds).set k ⟨overlayBlock stateDir tag k, d.top :: d.below⟩ =
      switched stateDir tag (k + 1) ds := by
  apply List.ext_getElem?
  intro i
  have hlen : k < ds.length := (List.getElem?_eq_some_iff.mp hk).1
  rw [List.getElem?_set, switched_getElem?, switched_getElem?]
  by_cases hi : k = i
  · subst hi
    rw [hk]
    simp [hlen]
  · rw [if_neg hi]
    have hiff : i < k ↔ i < k + 1 := by omega
    simp only [hiff]

-- The files that take the writes once all disks are switched.
theorem switched_tops : (switched stateDir tag ds.length ds).map (·.top.file) =
    (List.range ds.length).map fun i => (overlayBlock stateDir tag i).file := by
  apply List.ext_getElem?
  intro i
  rw [List.getElem?_map, switched_getElem?, List.getElem?_map]
  by_cases hi : i < ds.length
  · simp [hi]
  · simp [hi]

-- Overlay nodes never bear the name of a node of the command line.
variable (htag : ∀ i j, s!"{tag}-{nodeName i}" ≠ nodeName j)
include htag

theorem switchTop_switched (stateDir : String) (hplain : Plain n ds) (hk : k < n) :
    ∃ d, ds[k]? = some d ∧ switchTop (nodeName k) (overlayBlock stateDir tag k)
      (switched stateDir tag k ds) = some (d.top, switched stateDir tag (k + 1) ds) := by
  obtain ⟨hlen, htops⟩ := hplain
  have hd : ds[k]? = some (ds.get ⟨k, by omega⟩) := List.getElem?_eq_getElem _
  refine ⟨_, hd, ?_⟩
  rw [← switched_succ hd]
  refine switchTop_at ?_ (htops k _ hd).2 ?_
  · rw [switched_getElem?, hd]
    simp
  · intro j d' hj hd'
    rw [switched_getElem?] at hd'
    obtain ⟨d'', -, rfl⟩ := Option.map_eq_some_iff.mp hd'
    simp only [hj, if_true]
    exact htag j k

-- Once the first disk is switched its old name is at no top.
theorem switched_covered (hplain : Plain n ds) (hk : 0 < k) (hn : 0 < n) : Covered n (switched stateDir tag k ds) := by
  refine ⟨by simp [hplain.1], hn, fun d hd => ?_⟩
  obtain ⟨i, hi⟩ := List.mem_iff_getElem?.mp hd
  rw [switched_getElem?] at hi
  obtain ⟨d', hd', rfl⟩ := Option.map_eq_some_iff.mp hi
  by_cases hik : i < k
  · simp only [hik, if_true]
    exact htag i 0
  · simp only [hik, if_false]
    rw [(hplain.2 i d' hd').2]
    intro he
    have hi := nodeName_inj he
    omega

end Switched

-- What a capture asks of the first disks of a VM, in order.
def syncDisk (site : Site ρ) (env : Env ρ) (stateDir tag : String) (i : Nat) :
    Exec (Session ρ) HvError String := do
  QemuVm.order site env (.sync i)
    (.blockdevSnapshotSync (nodeName i) (overlayBlock stateDir tag i).file
      (overlayBlock stateDir tag i).node)
  pure (overlayBlock stateDir tag i).file

theorem syncDisks_eq (n : Nat) (stateDir tag : String) :
    QemuVm.syncDisks site env ((List.range n).map nodeName) stateDir tag =
      mapEach (List.range n) (syncDisk site env stateDir tag) := by
  have hzip : ((List.range n).map nodeName).zipIdx = (List.range n).map fun i => (nodeName i, i) := by
    apply List.ext_getElem?
    intro i
    rw [List.getElem?_zipIdx, List.getElem?_map, List.getElem?_map]
    by_cases hi : i < n
    · simp [hi]
    · simp [hi]
  rw [QemuVm.syncDisks, hzip]
  induction List.range n with
  | nil => rfl
  | cons i is ih =>
      simp only [List.map_cons, mapEach_cons, ih]
      rfl

-- A capture up to the first overlay: is the guest running, and if it is, halt it.
def beginCapture (site : Site ρ) (env : Env ρ) : Exec (Session ρ) HvError Bool := do
  let status ← QemuVm.status site env 0
  runIf (status == "running") (QemuVm.pause site env)
  pure (status == "running")

-- A capture from the last overlay on.
def finishCapture (site : Site ρ) (env : Env ρ) (stateFile : String) (wasRunning : Bool)
    (overlays : List String) : Exec (Session ρ) HvError SnapshotId := do
  QemuVm.order site env .migrate (.migrate stateFile)
  QemuVm.waitMigration site env env.polls 0
  runIf wasRunning (QemuVm.cont site env)
  let state ← QemuVm.readState site env stateFile
  pure ⟨site.digest state overlays⟩

theorem snapshot_eq (n : Nat) (stateDir tag : String) :
    QemuVm.snapshot site env ((List.range n).map nodeName) stateDir tag =
      (beginCapture site env >>= fun wasRunning =>
        mapEach (List.range n) (syncDisk site env stateDir tag) >>= fun overlays =>
          finishCapture site env (join stateDir (QemuVm.stateName tag)) wasRunning overlays) := by
  have hpure : ∀ (b : Bool) (f : Bool → Exec (Session ρ) HvError SnapshotId),
      ((pure b : Exec (Session ρ) HvError Bool) >>= f) = f b := fun _ _ => rfl
  simp only [QemuVm.snapshot, beginCapture, finishCapture, syncDisks_eq, Exec.bind_assoc, hpure]

theorem beginCapture_keeps (env : Env ρ) {allowed : Command → Prop} {R : Session ρ → Session ρ → Prop}
    (F : Frame site allowed R) (hstatus : allowed .queryStatus) (hstop : allowed .stop)
    (hdo : ∀ s s', s.carryOut site .stop = some s' → R s s') :
    Keeps R (beginCapture site env) :=
  keeps_bind F.trans (F.status hstatus 0) fun _ =>
    keeps_bind F.trans (keeps_runIf F.refl (F.order hstop hdo)) fun _ => keeps_pure F.refl _

theorem finishCapture_keeps (env : Env ρ) {allowed : Command → Prop} {R : Session ρ → Session ρ → Prop}
    (F : Frame site allowed R) (stateFile : String) (hmigrate : allowed (.migrate stateFile))
    (hquery : allowed .queryMigrate) (hcont : allowed .cont)
    (hdo : ∀ s s', s.carryOut site (.migrate stateFile) = some s' → R s s')
    (hend : ∀ s p, R s (s.endMigration site p))
    (hdo' : ∀ s s', s.carryOut site .cont = some s' → R s s') (wasRunning : Bool)
    (overlays : List String) : Keeps R (finishCapture site env stateFile wasRunning overlays) := by
  unfold finishCapture
  refine keeps_bind F.trans (F.order hmigrate hdo) fun _ => ?_
  refine keeps_bind F.trans (F.waitMigration hquery hend _ _) fun _ => ?_
  refine keeps_bind F.trans (keeps_runIf F.refl (F.order hcont hdo')) fun _ => ?_
  exact keeps_bind F.trans (F.readState _ _) fun _ => keeps_pure F.refl _

theorem hears_beginCapture : Hears (beginCapture site env) :=
  hears_bind hears_execute fun _ => hears_bind (hears_runIf hears_order) fun _ => hears_pure _

theorem hears_syncDisk {stateDir tag : String} (i : Nat) :
    Hears (syncDisk site env stateDir tag i) :=
  hears_bind hears_order fun _ => hears_pure _

section Captures

variable {stateDir tag : String} {ds : List Disk} {n : Nat} {s s' : Session ρ}
  (htag : ∀ i j, s!"{tag}-{nodeName i}" ≠ nodeName j)
include htag

-- One `blockdev-snapshot-sync` on chains that are switched as far as the disk before: it
-- switches one disk more, or nothing.
theorem syncDisk_disks (hplain : Plain n ds) {k : Nat} (hk : k < n) (hread : s.qemu.unread = [])
    (hs : s.qemu.disks = switched stateDir tag k ds) {r : Except HvError String}
    (h : syncDisk site env stateDir tag k s = (r, s')) :
    s'.qemu.disks = switched stateDir tag (k + 1) ds ∨
      s'.qemu.disks = switched stateDir tag k ds ∧ ∃ e, r = .error e := by
  obtain ⟨d, hd, hswitch⟩ := switchTop_switched htag stateDir hplain hk
  have hdo : ∀ {s₁ s₂ : Session ρ}, s₁.qemu.disks = switched stateDir tag k ds →
      s₁.carryOut site (.blockdevSnapshotSync (nodeName k) (overlayBlock stateDir tag k).file
        (overlayBlock stateDir tag k).node) = some s₂ →
      s₂.qemu.disks = switched stateDir tag (k + 1) ds := by
    intro s₁ s₂ hs₁ hdo
    have hnew : (⟨(overlayBlock stateDir tag k).node, (overlayBlock stateDir tag k).file⟩ : Block) =
        overlayBlock stateDir tag k := rfl
    simp only [Session.carryOut, hs₁, hnew, hswitch, Option.some.injEq] at hdo
    subst hdo
    rfl
  unfold syncDisk at h
  cases hx : QemuVm.order site env (.sync k) (.blockdevSnapshotSync (nodeName k)
      (overlayBlock stateDir tag k).file (overlayBlock stateDir tag k).node) s with
  | mk rx sx =>
      cases order_cases hread hx with
      | done _ _ _ hcarry _ =>
          rw [bind_of_ok hx] at h
          cases h
          exact Or.inl (hdo (by rw [issue_disks, hs]) hcarry)
      | lost e t us _ _ hcarry =>
          rw [bind_of_error hx] at h
          cases h
          exact Or.inl ((t.setUnread_disks us).trans (hdo (by rw [issue_disks, hs]) hcarry))
      | refused e _ _ =>
          rw [bind_of_error hx] at h
          obtain ⟨rfl, rfl⟩ := Prod.mk.inj h
          exact Or.inr ⟨by rw [Session.setUnread_disks, issue_disks, hs], e, rfl⟩

-- The loop over the disks switches some of them from the first on, and all when it returns.
theorem syncDisks_disks (hplain : Plain n ds) (m : Nat) : ∀ (k : Nat) (s : Session ρ),
    k + m = n → s.qemu.unread = [] → s.qemu.disks = switched stateDir tag k ds →
    ∀ {r : Except HvError (List String)} {s' : Session ρ},
      mapEach (List.range' k m) (syncDisk site env stateDir tag) s = (r, s') →
      ∃ j, k ≤ j ∧ j ≤ n ∧ s'.qemu.disks = switched stateDir tag j ds ∧
        ∀ overlays, r = .ok overlays → j = n := by
  induction m with
  | zero =>
      intro k s hkm hread hs r s' h
      cases h
      exact ⟨k, le_refl k, by omega, hs, fun _ _ => by omega⟩
  | succ m ih =>
      intro k s hkm hread hs r s' h
      rw [List.range'_succ, mapEach_cons] at h
      rcases hx : syncDisk site env stateDir tag k s with ⟨e | overlay, t⟩
      · rw [bind_of_error hx] at h
        cases h
        obtain hnext | ⟨hsame, -⟩ := syncDisk_disks htag hplain (by omega) hread hs hx
        · exact ⟨k + 1, by omega, by omega, hnext, fun _ he => nomatch he⟩
        · exact ⟨k, le_refl k, by omega, hsame, fun _ he => nomatch he⟩
      · rw [bind_of_ok hx] at h
        have hnext : t.qemu.disks = switched stateDir tag (k + 1) ds := by
          obtain hnext | ⟨-, e, he⟩ := syncDisk_disks htag hplain (by omega) hread hs hx
          · exact hnext
          · cases he
        rcases hrest : mapEach (List.range' (k + 1) m) (syncDisk site env stateDir tag) t
          with ⟨e | overlays, t'⟩
        · rw [bind_of_error hrest] at h
          cases h
          obtain ⟨j, hj, hjn, hdisks, -⟩ := ih (k + 1) t (by omega) (hears_syncDisk k hread hx) hnext hrest
          exact ⟨j, by omega, hjn, hdisks, fun _ he => nomatch he⟩
        · rw [bind_of_ok hrest] at h
          cases h
          obtain ⟨j, hj, hjn, hdisks, hend⟩ := ih (k + 1) t (by omega) (hears_syncDisk k hread hx) hnext hrest
          exact ⟨j, by omega, hjn, hdisks, fun _ _ => hend overlays rfl⟩

-- A capture of a process as it was started switches some disks from the first on, and all of
-- them when it returns.
theorem snapshot_disks (hplain : Plain n s.qemu.disks) (hread : s.qemu.unread = []) {r : Except HvError SnapshotId}
    (h : QemuVm.snapshot site env ((List.range n).map nodeName) stateDir tag s = (r, s')) :
    ∃ j ≤ n, s'.qemu.disks = switched stateDir tag j s.qemu.disks ∧
      ∀ id, r = .ok id → j = n := by
  rw [snapshot_eq] at h
  have hbegin := beginCapture_keeps env (sameDisks_frame site) trivial trivial
    (fun s s' h => carryOut_disks (by simp) h)
  rcases hx : beginCapture site env s with ⟨e | wasRunning, t⟩
  · rw [bind_of_error hx] at h
    cases h
    exact ⟨0, by omega, by rw [switched_zero]; exact hbegin.error hx, fun _ he => nomatch he⟩
  · rw [bind_of_ok hx, List.range_eq_range'] at h
    have hread' := hears_beginCapture hread hx
    have ht : t.qemu.disks = switched stateDir tag 0 s.qemu.disks := by
      rw [switched_zero]
      exact hbegin.ok hx
    rcases hloop : mapEach (List.range' 0 n) (syncDisk site env stateDir tag) t
      with ⟨e | overlays, t'⟩
    · rw [bind_of_error hloop] at h
      cases h
      obtain ⟨j, -, hj, hdisks, -⟩ := syncDisks_disks htag hplain n 0 t (by omega) hread' ht hloop
      exact ⟨j, hj, hdisks, fun _ he => nomatch he⟩
    · rw [bind_of_ok hloop] at h
      obtain ⟨j, -, hj, hdisks, hend⟩ := syncDisks_disks htag hplain n 0 t (by omega) hread' ht hloop
      have hfinish : SameDisks t' s' := by
        have hkeeps := finishCapture_keeps env (sameDisks_frame site)
          (join stateDir (QemuVm.stateName tag)) trivial trivial trivial
          (fun s s' h => carryOut_disks (by simp) h) endMigration_disks
          (fun s s' h => carryOut_disks (by simp) h) wasRunning overlays t'
        rwa [h] at hkeeps
      exact ⟨j, hj, hfinish.trans hdisks, fun _ _ => hend overlays rfl⟩

end Captures

-- A process whose first disk is covered refuses every capture before anything is switched.
theorem snapshot_covered {n : Nat} {stateDir tag : String} {s s' : Session ρ}
    (hcovered : Covered n s.qemu.disks) (hread : s.qemu.unread = []) {r : Except HvError SnapshotId}
    (h : QemuVm.snapshot site env ((List.range n).map nodeName) stateDir tag s = (r, s')) :
    s'.qemu.disks = s.qemu.disks ∧ ∃ e, r = .error e := by
  rw [snapshot_eq] at h
  have hbegin := beginCapture_keeps env (sameDisks_frame site) trivial trivial
    (fun s s' h => carryOut_disks (by simp) h)
  rcases hx : beginCapture site env s with ⟨e | wasRunning, t⟩
  · rw [bind_of_error hx] at h
    cases h
    exact ⟨hbegin.error hx, e, rfl⟩
  · rw [bind_of_ok hx] at h
    have ht : t.qemu.disks = s.qemu.disks := hbegin.ok hx
    obtain ⟨n, rfl⟩ : ∃ m, n = m + 1 := ⟨n - 1, by have := hcovered.2.1; omega⟩
    rw [List.range_succ_eq_map, mapEach_cons] at h
    have hread' := hears_beginCapture hread hx
    cases hsync : QemuVm.order site env (.sync 0) (.blockdevSnapshotSync (nodeName 0)
        (overlayBlock stateDir tag 0).file (overlayBlock stateDir tag 0).node) t with
    | mk rx sx =>
        have hnone : ∀ {s₁ : Session ρ}, s₁.qemu.disks = s.qemu.disks →
            s₁.carryOut site (.blockdevSnapshotSync (nodeName 0)
              (overlayBlock stateDir tag 0).file (overlayBlock stateDir tag 0).node) = none := by
          intro s₁ hs₁
          simp only [Session.carryOut, hs₁, switchTop_none hcovered.2.2]
        have hissue := (issue_disks site env (.sync 0) (.blockdevSnapshotSync (nodeName 0)
          (overlayBlock stateDir tag 0).file (overlayBlock stateDir tag 0).node) t).trans ht
        cases order_cases hread' hsync with
        | done _ _ _ hcarry _ => simp [hnone hissue] at hcarry
        | lost _ _ _ _ _ hcarry => simp [hnone hissue] at hcarry
        | refused e _ _ =>
            rw [bind_of_error (bind_of_error (by rw [syncDisk, bind_of_error hsync]))] at h
            obtain ⟨rfl, rfl⟩ := Prod.mk.inj h
            exact ⟨hissue, e, rfl⟩

end VMForge.Engine
