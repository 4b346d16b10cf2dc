import VMForge.Backend.Hvf.Runtime

namespace VMForge.Hvf

open VMForge.Core Engine Exec HvfBackend

variable {ρ : Type} {site : Site ρ} {env : Env ρ} {accel : Accel}

-- An overlay that was made had its frozen layer, and is a layer more.
theorem createOverlay_returned {w w' : World ρ} {i : Nat} {base overlay : String} {u : Unit}
    (h : createOverlay site env i base overlay w = (.ok u, w')) :
    env.answer (.createOverlay i) = .done ∧
      (w.files.layer (backingOf site base overlay)).isSome = true ∧
      ∀ p, p ≠ site.locate overlay → w'.files p = w.files p := by
  unfold createOverlay at h
  simp only at h
  split at h
  · rename_i l hanswer hl
    cases h
    exact ⟨hanswer, by rw [hl]; rfl, fun p hp => World.put_files_of_ne _ _ hp⟩
  · cases h
  · cases h

-- Overlays that were all made could all be made.
theorem createOverlays_returned {e : VmEntry ρ} {files : Files ρ} (bases : List String) :
    ∀ (k : Nat) (w : World ρ),
    (∀ p, (w.files.layer p).isSome = true → (files.layer p).isSome = true ∨
      ∃ j < k, site.locate (overlayPath e (branchTag (e.snapshotSeq + 1)) j) = p) →
    ∀ {overlays : List String} {w' : World ρ},
      mapEach (bases.zipIdx k) (branchDisk site env e (branchTag (e.snapshotSeq + 1))) w =
        (.ok overlays, w') →
      ∀ p ∈ bases.zipIdx k, Branches site env files e p.1 p.2 := by
  induction bases with
  | nil => exact fun _ _ _ _ _ _ _ hp => nomatch hp
  | cons base bases ih =>
      intro k w hkept overlays w' h
      rw [List.zipIdx_cons] at h ⊢
      rw [mapEach_cons] at h
      obtain ⟨o, w₁, hfirst, hrest⟩ := bind_eq_ok.mp h
      obtain ⟨u, w₂, hcreate, hpure⟩ := bind_eq_ok.mp hfirst
      obtain ⟨rfl, rfl⟩ := pure_eq_ok.mp hpure
      obtain ⟨os, w₃, hloop, -⟩ := bind_eq_ok.mp hrest
      obtain ⟨hanswer, hthere, hframe⟩ := createOverlay_returned hcreate
      intro p hp
      obtain rfl | hp := List.mem_cons.mp hp
      · exact ⟨hanswer, hkept _ hthere⟩
      · refine ih (k + 1) w₂ (fun q hq => ?_) hloop p hp
        by_cases hsame : q = site.locate (overlayPath e (branchTag (e.snapshotSeq + 1)) k)
        · exact Or.inr ⟨k, Nat.lt_succ_self k, hsame.symm⟩
        · simp only [Files.layer, hframe q hsame] at hq
          obtain hold | ⟨j, hj, hj'⟩ := hkept q hq
          · exact Or.inl hold
          · exact Or.inr ⟨j, Nat.lt_succ_of_lt hj, hj'⟩

-- Overlays only change their own files, however the call ends.
theorem createOverlays_frame (site : Site ρ) (env : Env ρ) (e : VmEntry ρ) (tag : String)
    (p : Path) (bases : List String) : ∀ (k : Nat) (w : World ρ),
    (∀ i, k ≤ i → i < k + bases.length → p ≠ site.locate (overlayPath e tag i)) →
    (mapEach (bases.zipIdx k) (branchDisk site env e tag) w).2.files p = w.files p := by
  have hone : ∀ (i : Nat) (base : String) (w : World ρ),
      p ≠ site.locate (overlayPath e tag i) →
      (branchDisk site env e tag (base, i) w).2.files p = w.files p := by
    intro i base w hp
    have hcreate : (createOverlay site env i base (overlayPath e tag i) w).2.files p = w.files p := by
      unfold createOverlay
      dsimp only
      split
      · exact World.put_files_of_ne _ _ hp
      · exact World.put_files_of_ne _ _ hp
      · rfl
    unfold branchDisk
    rcases hx : createOverlay site env i base (overlayPath e tag i) w with ⟨err | u, w'⟩
    · rw [bind_of_error hx]
      rw [hx] at hcreate
      exact hcreate
    · rw [bind_of_ok hx]
      rw [hx] at hcreate
      exact hcreate
  induction bases with
  | nil => exact fun _ _ _ => rfl
  | cons base bases ih =>
      intro k w hp
      rw [List.zipIdx_cons, mapEach_cons]
      have hfirst := hone k base w (hp k (le_refl k) (by simp))
      rcases hx : branchDisk site env e tag (base, k) w with ⟨err | o, w₁⟩
      · rw [bind_of_error hx]
        rw [hx] at hfirst
        exact hfirst
      · rw [hx] at hfirst
        have hrest := ih (k + 1) w₁ fun i hk hi =>
          hp i (by omega) (by simp only [List.length_cons]; omega)
        rw [bind_of_ok hx]
        rcases hy : mapEach (bases.zipIdx (k + 1)) (branchDisk site env e tag) w₁ with ⟨err | os, w₂⟩
        · rw [bind_of_error hy]
          rw [hy] at hrest
          exact hrest.trans hfirst
        · rw [bind_of_ok hy]
          rw [hy] at hrest
          exact hrest.trans hfirst

-- A restore fails before it records its overlays, or has none to record.
def FailsEarly (site : Site ρ) (env : Env ρ) (files : Files ρ) (e : VmEntry ρ) (id : SnapshotId) :
    Prop :=
  e.config.disks = [] ∨ (e.state.transition .restore).isOk = false ∨ e.snapshots id = none ∨
    (e.runtime.isSome = true ∧ env.answer .wait ≠ .done) ∨
    ∃ a, e.snapshots id = some a ∧ ∃ p ∈ a.diskBases.zipIdx, ¬Branches site env files e p.1 p.2

instance (site : Site ρ) (env : Env ρ) (files : Files ρ) (e : VmEntry ρ) (id : SnapshotId) :
    Decidable (FailsEarly site env files e id) :=
  inferInstanceAs (Decidable (_ ∨ _ ∨ _ ∨ (_ ∧ _) ∨
    ∃ a ∈ e.snapshots id, ∃ p ∈ a.diskBases.zipIdx, ¬Branches site env files e p.1 p.2))

-- Two sets of generated layers of a VM with disks are told apart by their first.
theorem layersOf_inj (site : Site ρ) {e : VmEntry ρ} {g g' : Nat → Generated}
    (hdisks : e.config.disks ≠ []) (h : layersOf e g = layersOf e g') : g 0 = g' 0 := by
  obtain ⟨n, hn⟩ : ∃ n, e.config.disks.length = n + 1 :=
    ⟨e.config.disks.length - 1, by have := List.length_pos_iff.mpr hdisks; omega⟩
  unfold layersOf at h
  rw [hn, List.range_succ_eq_map, List.map_cons, List.map_cons] at h
  have hpath := congrArg site.locate (List.cons.inj h).1
  exact (locate_generated_inj e e (g 0) (g' 0) hpath).2

-- The layers of a restore are none a VM has had before.
theorem Made.ne_branch (site : Site ρ) {e : VmEntry ρ} {disks : List String} (h : Made e disks)
    (hdisks : e.config.disks ≠ []) : disks ≠ layersOf e (.branchDisk (e.snapshotSeq + 1)) := by
  obtain ⟨k, hk, rfl | rfl⟩ := h
  · intro hsame
    cases layersOf_inj site hdisks hsame
  · intro hsame
    have hseq := layersOf_inj site hdisks hsame
    injection hseq with hseq
    omega

-- A VM that is not live has no process.
def Vacant (e : VmEntry ρ) : Prop := e.state.isLive = false → e.runtime = none

theorem vacant_turn {b : HvfBackend ρ} (t : Turn ρ) (hb : ∀ vm e, b.vms vm = some e → Vacant e) :
    ∀ vm e, (b.turn site t).vms vm = some e → Vacant e := by
  refine entries_turn hb (fun _ _ _ => rfl) fun vm e m he hmove => ?_
  have h := hb vm e he
  have hkeep : ∀ {q q' : Qemu ρ}, e.runtime = some q → Vacant (e.setRuntime (some q')) := by
    intro q q' hq hdead
    have hnone := h hdead
    rw [hq] at hnone
    cases hnone
  cases hmove with
  | idle _ => exact h
  | acted acts q hq => exact hkeep hq
  | migrated poll q hq => exact hkeep hq
  | boot _ hspec =>
      cases hspec with
      | rejected _ _ | uninvocable _ _ | unspawned _ _ _ _ _ | dropped _ _ _ _ _ _ _ _ => exact h
      | done _ _ _ _ _ _ _ _ => exact fun hdead => nomatch hdead
  | pause _ hspec =>
      cases hspec with
      | rejected _ _ | absent _ _ => exact h
      | failed n q err s _ hq _ => exact hkeep hq
      | done n q s hstate hq _ =>
          obtain ⟨-, hn⟩ := VmState.transition_pause.mp hstate
          obtain rfl := Option.some.inj hn
          exact fun hdead => nomatch hdead
  | resume _ hspec =>
      cases hspec with
      | rejected _ _ | absent _ _ => exact h
      | failed n q err s _ hq _ => exact hkeep hq
      | done n q s hstate hq _ =>
          obtain ⟨-, hn⟩ := VmState.transition_resume.mp hstate
          obtain rfl := Option.some.inj hn
          exact fun hdead => nomatch hdead
  | stop _ hspec =>
      cases hspec with
      | rejected _ _ => exact h
      | failed _ _ _ _ => exact fun _ => rfl
      | done _ _ _ => exact fun _ => rfl
  | snapshot _ _ hspec =>
      cases hspec with
      | orphaned _ _ _ | rejected _ _ => exact h
      | absent _ _ hq => exact fun _ => hq
      | failed q err s _ _ hq _ => exact hkeep hq
      | done q id s _ _ hq _ => exact hkeep hq
  | restore _ _ hspec =>
      cases hspec with
      | rejected _ _ | unknown _ => exact h
      | unquit _ _ _ _ _ _ | unbranched _ _ _ _ _ _ _ _ | uninvocable _ _ _ _ _ _ _ _ _ _
      | unlaunched _ _ _ _ _ _ _ _ _ _ _ _ _ => exact fun _ => rfl
      | done _ _ _ _ _ _ _ _ _ _ _ _ _ => exact fun hdead => nomatch hdead

section Errors

variable {e : VmEntry ρ} {w : World ρ} {m : Machine ρ} {id : SnapshotId} {err : HvError}

theorem Quitted.fails {w' : World ρ} (h : Quitted site env e w (.error err) w') :
    e.runtime.isSome = true ∧ env.answer .wait ≠ .done := by
  cases h with
  | quit q r s hq hrun =>
      refine ⟨by rw [hq]; rfl, fun hwait => ?_⟩
      have hreturns := quit_returns site ⟨q, w⟩ hwait
      rw [hrun] at hreturns
      cases hreturns

-- A process that has quit was waited for.
theorem Quitted.waited {w' : World ρ} (h : Quitted site env e w (.ok ()) w')
    (hsome : e.runtime.isSome = true) : env.answer .wait = .done := by
  cases h with
  | absent hq =>
      rw [hq] at hsome
      cases hsome
  | quit q r s _ hrun =>
      unfold QemuVm.quit at hrun
      obtain ⟨u, t, -, hwait⟩ := bind_eq_ok.mp hrun
      obtain ⟨hanswer, -⟩ := raiseIf_eq_ok.mp hwait
      simpa using hanswer

-- With disks to record, a restore that has its overlays does not fail early.
theorem not_failsEarly {a : SnapshotArtifacts} {overlays : List String} {w₁ w₂ : World ρ}
    (hdisks : e.config.disks ≠ []) (hstate : e.state.transition .restore = .ok (some .running))
    (ha : e.snapshots id = some a) (hquit : Quitted site env e w (.ok ()) w₁)
    (hbranch : createOverlays site env e (branchTag (e.snapshotSeq + 1)) a.diskBases w₁ =
      (.ok overlays, w₂)) : ¬FailsEarly site env w.files e id := by
  rintro (hnone | hrejected | hunknown | ⟨hsome, hwait⟩ | ⟨a', ha', p, hp, hnot⟩)
  · exact hdisks hnone
  · rw [hstate] at hrejected
    cases hrejected
  · rw [ha] at hunknown
    cases hunknown
  · exact hwait (hquit.waited hsome)
  · obtain rfl := Option.some.inj (ha.symm.trans ha')
    refine hnot (createOverlays_returned a.diskBases 0 w₁ (fun q hq => Or.inl ?_) hbranch p hp)
    rw [hquit.poked.layer_isSome] at hq
    exact hq

-- A restore that fails leaves the record of the disks alone exactly when it fails early.
theorem Restored.keeps_iff (hshape : Shaped e) (hnamed : Named e)
    (hspec : Restored site env accel id e w (.error err) m) :
    (m.entry.activeDisks = e.activeDisks ∧ m.entry.snapshots = e.snapshots) ↔
      FailsEarly site env w.files e id := by
  cases hspec with
  | rejected _ hstate =>
      refine iff_of_true ⟨rfl, rfl⟩ (Or.inr (Or.inl ?_))
      rw [hstate]
      rfl
  | unknown hid => exact iff_of_true ⟨rfl, rfl⟩ (Or.inr (Or.inr (Or.inl hid)))
  | unquit a _ w₁ _ _ hquit =>
      exact iff_of_true ⟨rfl, rfl⟩ (Or.inr (Or.inr (Or.inr (Or.inl hquit.fails))))
  | unbranched a _ w₁ w₂ _ ha hquit hbranch =>
      refine iff_of_true ⟨rfl, rfl⟩ (Or.inr (Or.inr (Or.inr (Or.inr ⟨a, ha, ?_⟩))))
      by_contra hnone
      have hall : ∀ p ∈ a.diskBases.zipIdx, Branches site env w.files e p.1 p.2 := by
        intro p hp
        by_contra hp'
        exact hnone ⟨p, hp, hp'⟩
      obtain ⟨overlays, w', hok, -⟩ := restore_branches hall hquit
      rw [hok] at hbranch
      cases hbranch
  | uninvocable a overlays _ w₁ w₂ _ ha _ hbranch hinv =>
      obtain ⟨inv, hok⟩ :=
        invocable site accel (hshape.branched (hshape.overlays_length ha hbranch))
      rw [hok] at hinv
      cases hinv
  | unlaunched a overlays inv _ w₁ w₂ w₃ hstate ha hquit hbranch _ _ =>
      by_cases hdisks : e.config.disks = []
      · refine iff_of_true ⟨?_, rfl⟩ (Or.inl hdisks)
        have hactive : e.activeDisks = [] := by
          rw [← List.length_eq_zero_iff, hshape.arity, hdisks]
          rfl
        have hoverlays : overlays = [] := by
          rw [← List.length_eq_zero_iff, hshape.overlays_length ha hbranch, hdisks]
          rfl
        rw [hactive]
        exact hoverlays
      · refine iff_of_false ?_ (not_failsEarly hdisks hstate ha hquit hbranch)
        rintro ⟨hsame, -⟩
        have hnew : e.activeDisks = layersOf e (.branchDisk (e.snapshotSeq + 1)) :=
          hsame.symm.trans (overlays_eq hshape ha hbranch)
        exact (hnamed.made id a ha).ne_branch site hdisks hnew

-- Of a VM without a process such a call changes no file but those of the overlays it makes.
theorem Restored.keeps_files (hvacant : e.runtime = none) (hshape : Shaped e) {p : Path}
    (hp : ∀ i < e.config.disks.length,
      p ≠ site.locate (overlayPath e (branchTag (e.snapshotSeq + 1)) i))
    (hearly : FailsEarly site env w.files e id) (hdisks : e.config.disks ≠ [])
    (hspec : Restored site env accel id e w (.error err) m) : m.world.files p = w.files p := by
  have hquitted : ∀ {r : Except HvError Unit} {w' : World ρ}, Quitted site env e w r w' → w' = w := by
    intro r w' hquit
    cases hquit with
    | absent _ => rfl
    | quit q _ _ hq _ =>
        rw [hvacant] at hq
        cases hq
  cases hspec with
  | rejected _ _ | unknown _ => rfl
  | unquit a _ w₁ _ _ hquit => rw [hquitted hquit]
  | unbranched a _ w₁ w₂ _ ha hquit hbranch =>
      obtain rfl := hquitted hquit
      have hframe := createOverlays_frame site env e (branchTag (e.snapshotSeq + 1)) p a.diskBases
        0 w₁ fun i _ hi => hp i (by rw [hshape.bases id a ha] at hi; omega)
      rw [← createOverlays_eq, hbranch] at hframe
      exact hframe
  | uninvocable a overlays _ w₁ w₂ _ ha _ hbranch hinv =>
      obtain ⟨inv, hok⟩ :=
        invocable site accel (hshape.branched (hshape.overlays_length ha hbranch))
      rw [hok] at hinv
      cases hinv
  | unlaunched a overlays inv _ w₁ w₂ w₃ hstate ha hquit hbranch hinv hlaunch =>
      exact absurd hearly (not_failsEarly hdisks hstate ha hquit hbranch)

end Errors

-- A `restore` call that fails does to its VM what its machine does.
theorem restore_failed {b b' : HvfBackend ρ} {vm : String} {id : SnapshotId} {e : VmEntry ρ}
    {err : HvError} (he : b.vms vm = some e)
    (h : run site env (.restore vm id) b = (.error err, b')) :
    ∃ m, Restored site env b.accel id e b.world (.error err) m ∧ b'.vms vm = some m.entry ∧
      b'.world = m.world := by
  have hspec := restore_spec site env b.accel id e b.world
  simp only [run, read_bind] at h
  rcases hx : restore site env b.accel id ⟨e, b.world⟩ with ⟨err' | u, m⟩
  · have hcall := withVm_some (x := restore site env b.accel id) he
    rw [hx] at hcall hspec
    rw [bind_of_error hcall] at h
    cases h
    exact ⟨m, hspec, Function.update_self .., rfl⟩
  · have hcall := withVm_some (x := restore site env b.accel id) he
    rw [hx] at hcall
    rw [bind_of_ok hcall] at h
    cases h

-- In every state a run reaches, a restore that fails leaves the record of the disks alone exactly
-- when it fails early. The disks of a VM that was not live then read as before, unless one of
-- their layers has the path of an overlay of this call.
theorem failed_restore_keeps_disks (site : Site ρ) (env : Env ρ) (accel : Accel)
    (files : Files ρ) (turns : List (Turn ρ)) {b b' : HvfBackend ρ} {vm : String}
    {id : SnapshotId} {e : VmEntry ρ} {err : HvError}
    (hb : b = after (turn site) (new accel files) turns) (he : b.vms vm = some e)
    (hrun : run site env (.restore vm id) b = (.error err, b')) :
    ∃ e', b'.vms vm = some e' ∧
      ((e'.activeDisks = e.activeDisks ∧ e'.snapshots = e.snapshots) ↔
        FailsEarly site env b.world.files e id) ∧
      (FailsEarly site env b.world.files e id → e.state.isLive = false →
        ∀ file ∈ e.activeDisks, ∀ c,
          (∀ q, Relation.ReflTransGen (BackedBy b.world.files.layer) (site.locate file) q →
            ∀ i < e.config.disks.length,
              q ≠ site.locate (overlayPath e (branchTag (e.snapshotSeq + 1)) i)) →
          Reads site b.world.files file c → Reads site b'.world.files file c) := by
  have hinv : (∀ vm e, b.vms vm = some e → Shaped e) ∧ (∀ vm e, b.vms vm = some e → Named e) ∧
      ∀ vm e, b.vms vm = some e → Vacant e := by
    rw [hb]
    exact invariant_of_steps
      (fun b : HvfBackend ρ => (∀ vm e, b.vms vm = some e → Shaped e) ∧
        (∀ vm e, b.vms vm = some e → Named e) ∧
        ∀ vm e, b.vms vm = some e → Vacant e) turns
      ⟨fun _ _ he => (nomatch he), fun _ _ he => (nomatch he), fun _ _ he => (nomatch he)⟩
      fun b t hb => ⟨shaped_turn t hb.1, named_turn t hb.1 hb.2.1, vacant_turn t hb.2.2⟩
  obtain ⟨m, hspec, hentry, hworld⟩ := restore_failed he hrun
  have hshape := hinv.1 vm e he
  refine ⟨m.entry, hentry, hspec.keeps_iff hshape (hinv.2.1 vm e he), ?_⟩
  intro hearly hdead file hfile c hapart hreads
  have hdisks : e.config.disks ≠ [] := by
    intro hnone
    have hlen := hshape.arity
    rw [hnone, List.length_nil, List.length_eq_zero_iff] at hlen
    rw [hlen] at hfile
    cases hfile
  refine hreads.of_same fun q hq => ?_
  rw [hworld]
  exact hspec.keeps_files (hinv.2.2 vm e he hdead) hshape (hapart q hq) hearly hdisks

-- A VM that is stopped after its first snapshot, and a restore of it.
def Sample.stopped : HvfBackend Nat :=
  after (turn Sample.site) (new .tcg Sample.files) (Sample.calls
    [(.create Sample.config, []), (.boot "web", []), (.snapshot "web" none, []), (.stop "web", [])])

def Sample.restored (failing : List (Step × Answer)) : Except HvError Reply × HvfBackend Nat :=
  run Sample.site (Sample.envBut failing) (.restore "web" ⟨"0/srv/web/snap1-disk0.qcow2"⟩)
    Sample.stopped

theorem failed_restore_keeps_disks_unmade :
    ∃ e ∈ Sample.stopped.vms "web",
      ∃ e' ∈ (Sample.restored [(.createOverlay 0, .refused)]).2.vms "web",
        e'.activeDisks = e.activeDisks := by
  obtain ⟨e, he, hearly⟩ : ∃ e ∈ Sample.stopped.vms "web", FailsEarly Sample.site
      (Sample.envBut [(.createOverlay 0, .refused)]) Sample.stopped.world.files e
      ⟨"0/srv/web/snap1-disk0.qcow2"⟩ := by
    decide +kernel
  have hfails : (Sample.restored [(.createOverlay 0, .refused)]).1.isOk = false := by
    decide +kernel
  rcases hrun : Sample.restored [(.createOverlay 0, .refused)] with ⟨err | r, b'⟩
  · obtain ⟨e', he', hkeeps, -⟩ := failed_restore_keeps_disks (b := Sample.stopped) Sample.site
      (Sample.envBut [(.createOverlay 0, .refused)]) .tcg Sample.files _ rfl he hrun
    exact ⟨e, he, e', he', (hkeeps.mpr hearly).1⟩
  · rw [hrun] at hfails
    cases hfails

-- A restore that cannot start QEMU has already recorded its overlays.
theorem failed_restore_loses_disks :
    (Sample.restored [(.spawn, .refused)]).1.isOk = false ∧
      ∃ e ∈ Sample.stopped.vms "web", ∃ e' ∈ (Sample.restored [(.spawn, .refused)]).2.vms "web",
        e'.activeDisks ≠ e.activeDisks := by
  decide +kernel

end VMForge.Hvf
