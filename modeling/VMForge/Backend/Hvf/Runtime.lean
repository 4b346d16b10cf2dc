import VMForge.Backend.Hvf.Paths
import VMForge.Engine.Loading

namespace VMForge.Hvf

open VMForge.Core Engine Exec HvfBackend

variable {ρ : Type} {site : Site ρ} {env : Env ρ} {accel : Accel}

-- A live VM has a process, and no other VM does.
def Manned (e : VmEntry ρ) : Prop := e.runtime.isSome = e.state.isLive

-- The overlay for one frozen layer can be made: qemu-img does as asked, and the layer is there, or
-- is an overlay that is made before.
def Branches (site : Site ρ) (env : Env ρ) (files : Files ρ) (e : VmEntry ρ) (base : String)
    (i : Nat) : Prop :=
  env.answer (.createOverlay i) = .done ∧
    ((files.layer (backingOf site base (overlayPath e (branchTag (e.snapshotSeq + 1)) i))).isSome =
        true ∨
      ∃ j < i, site.locate (overlayPath e (branchTag (e.snapshotSeq + 1)) j) =
        backingOf site base (overlayPath e (branchTag (e.snapshotSeq + 1)) i))

instance (site : Site ρ) (env : Env ρ) (files : Files ρ) (e : VmEntry ρ) (base : String) (i : Nat) :
    Decidable (Branches site env files e base i) :=
  inferInstanceAs (Decidable (_ ∧ (_ ∨ _)))

-- All that a restore of a paused VM needs to succeed.
structure Restorable (site : Site ρ) (env : Env ρ) (files : Files ρ) (e : VmEntry ρ)
    (a : SnapshotArtifacts) : Prop where
  quit : env.answer .wait = .done
  branches : ∀ p ∈ a.diskBases.zipIdx, Branches site env files e p.1 p.2
  spawn : env.answer .spawn = .done
  handshake : env.answer .handshake = .done
  incoming : env.Serves .incoming
  state : (files.savedState (site.locate a.stateFile)).isSome = true
  loads : env.LoadsPass env.loads 0
  cont : env.Serves .cont

instance (site : Site ρ) (env : Env ρ) (files : Files ρ) (e : VmEntry ρ) (a : SnapshotArtifacts) :
    Decidable (Restorable site env files e a) :=
  decidable_of_iff
    (env.answer .wait = .done ∧ (∀ p ∈ a.diskBases.zipIdx, Branches site env files e p.1 p.2) ∧
      env.answer .spawn = .done ∧ env.answer .handshake = .done ∧ env.Serves .incoming ∧
      (files.savedState (site.locate a.stateFile)).isSome = true ∧ env.LoadsPass env.loads 0 ∧
      env.Serves .cont)
    ⟨fun ⟨h₁, h₂, h₃, h₄, h₅, h₆, h₇, h₈⟩ => ⟨h₁, h₂, h₃, h₄, h₅, h₆, h₇, h₈⟩,
      fun ⟨h₁, h₂, h₃, h₄, h₅, h₆, h₇, h₈⟩ => ⟨h₁, h₂, h₃, h₄, h₅, h₆, h₇, h₈⟩⟩

-- `stop` and `restore` of a live VM, which let go of its process first, come to their end.
def LetsGo (site : Site ρ) (b : HvfBackend ρ) : Turn ρ → Prop
  | .call (.stop vm) env => ∀ e ∈ b.vms vm, e.state.isLive = true → env.answer .wait = .done
  | .call (.restore vm id) env =>
      ∀ e ∈ b.vms vm, e.state = .paused → ∀ a ∈ e.snapshots id,
        Restorable site env b.world.files e a
  | _ => True

instance (site : Site ρ) (b : HvfBackend ρ) : DecidablePred (LetsGo site b)
  | .call (.stop vm) env =>
      inferInstanceAs (Decidable (∀ e ∈ b.vms vm, e.state.isLive = true → env.answer .wait = .done))
  | .call (.restore vm id) env =>
      inferInstanceAs (Decidable (∀ e ∈ b.vms vm, e.state = .paused → ∀ a ∈ e.snapshots id,
        Restorable site env b.world.files e a))
  | .call (.create _) _ | .call (.boot _) _ | .call (.pause _) _ | .call (.resume _) _
  | .call (.snapshot _ _) _ | .call (.delete _) _ | .call (.state _) _ | .guest _ _
  | .migrationEnds _ _ | .session _ => isTrue trivial

-- Quitting only fails while the call waits for the process to end.
theorem quit_returns (site : Site ρ) (s : Session ρ) (h : env.answer .wait = .done) :
    (QemuVm.quit site env s).1 = .ok () := by
  unfold QemuVm.quit
  rcases htry : tryExcept (QemuVm.order site env .quit .quit) (fun _ => pure ()) s with ⟨err | u, t⟩
  · exfalso
    unfold tryExcept at htry
    rcases hx : QemuVm.order site env .quit .quit s with ⟨e | u, t'⟩
    · rw [hx] at htry
      cases htry
    · rw [hx] at htry
      cases htry
  · rw [bind_of_ok htry, raiseIf_run, h]
    rfl

theorem Quitted.returns {e : VmEntry ρ} {w w' : World ρ} {r : Except HvError Unit}
    (h : Quitted site env e w r w') (hwait : env.answer .wait = .done) : r = .ok () := by
  cases h with
  | absent _ => rfl
  | quit q r s _ hrun =>
      have hreturns := quit_returns site ⟨q, w⟩ hwait
      rw [hrun] at hreturns
      exact hreturns

-- What a process does while it quits is what its guest writes.
theorem Quitted.poked {e : VmEntry ρ} {w w' : World ρ} {r : Except HvError Unit}
    (h : Quitted site env e w r w') : World.Poked w w' := by
  cases h with
  | absent _ => exact World.Poked.of_eq rfl
  | quit q r s _ hrun =>
      have hkeeps : Keeps Pokes (QemuVm.quit site env) :=
        (pokes_frame site).quit trivial fun _ _ => carryOut_pokes rfl
      have hpokes := hkeeps ⟨q, w⟩
      rw [hrun] at hpokes
      exact hpokes

-- An overlay that can be made is made: a layer more, and no other file changes.
theorem createOverlay_returns {w : World ρ} {i : Nat} {base overlay : String}
    (hanswer : env.answer (.createOverlay i) = .done)
    (hbase : (w.files.layer (backingOf site base overlay)).isSome = true) :
    ∃ w', createOverlay site env i base overlay w = (.ok (), w') ∧
      (w'.files.layer (site.locate overlay)).isSome = true ∧
      ∀ p, p ≠ site.locate overlay → w'.files p = w.files p := by
  obtain ⟨l, hl⟩ := Option.isSome_iff_exists.mp hbase
  refine ⟨(w.note (.createdOverlay base overlay w.files)).put (site.locate overlay)
    (.image (hollow l.size (backingOf site base overlay))), ?_, ?_, ?_⟩
  · simp only [createOverlay, hanswer, hl]
  · simp only [Files.layer, World.put_files_self, Option.isSome_some]
  · intro p hp
    exact World.put_files_of_ne _ _ hp

theorem createOverlays_returns {e : VmEntry ρ} {files : Files ρ} (bases : List String) :
    ∀ (k : Nat) (w : World ρ),
    (∀ p, (files.layer p).isSome = true → (w.files.layer p).isSome = true) →
    (∀ j < k, (w.files.layer
      (site.locate (overlayPath e (branchTag (e.snapshotSeq + 1)) j))).isSome = true) →
    (∀ p ∈ bases.zipIdx k, Branches site env files e p.1 p.2) →
    ∃ overlays w', mapEach (bases.zipIdx k) (branchDisk site env e (branchTag (e.snapshotSeq + 1))) w =
        (.ok overlays, w') ∧
      ∀ p, (∀ i, p ≠ site.locate (overlayPath e (branchTag (e.snapshotSeq + 1)) i)) →
        w'.files p = w.files p := by
  induction bases with
  | nil =>
      intro k w _ _ _
      exact ⟨[], w, rfl, fun _ _ => rfl⟩
  | cons base bases ih =>
      intro k w hkept hmade hall
      rw [List.zipIdx_cons] at hall ⊢
      obtain ⟨hanswer, hbase⟩ := hall _ List.mem_cons_self
      have hthere : (w.files.layer (backingOf site base
          (overlayPath e (branchTag (e.snapshotSeq + 1)) k))).isSome = true := by
        obtain hthere | ⟨j, hj, hsame⟩ := hbase
        · exact hkept _ hthere
        · rw [← hsame]
          exact hmade j hj
      obtain ⟨w₁, hcreate, hnew, hframe⟩ := createOverlay_returns hanswer hthere
      have hgrow : ∀ p, (w.files.layer p).isSome = true → (w₁.files.layer p).isSome = true := by
        intro p hp
        by_cases hsame : p = site.locate (overlayPath e (branchTag (e.snapshotSeq + 1)) k)
        · rw [hsame]
          exact hnew
        · simp only [Files.layer, hframe p hsame]
          exact hp
      obtain ⟨overlays, w', hrest, hframe'⟩ := ih (k + 1) w₁ (fun p hp => hgrow p (hkept p hp))
        (fun j hj => by
          obtain hlt | rfl := Nat.lt_succ_iff_lt_or_eq.mp hj
          · exact hgrow _ (hmade j hlt)
          · exact hnew)
        fun p hp => hall p (List.mem_cons_of_mem _ hp)
      have hfirst : branchDisk site env e (branchTag (e.snapshotSeq + 1)) (base, k) w =
          (.ok (overlayPath e (branchTag (e.snapshotSeq + 1)) k), w₁) := bind_of_ok hcreate
      refine ⟨overlayPath e (branchTag (e.snapshotSeq + 1)) k :: overlays, w', ?_,
        fun p hp => (hframe' p hp).trans (hframe p (hp k))⟩
      rw [mapEach_cons, bind_of_ok hfirst, bind_of_ok hrest]
      rfl

-- With its state complete, and all it waits for, a launch returns.
theorem Launched.returns {inv : Invocation} {file : String} {w w' : World ρ}
    {r : Except HvError (Qemu ρ)} (h : Launched site env inv file w r w')
    (hspawn : env.answer .spawn = .done) (hhandshake : env.answer .handshake = .done)
    (hincoming : env.Serves .incoming)
    (hstate : (w.files.savedState (site.locate file)).isSome = true)
    (hloads : env.LoadsPass env.loads 0) (hcont : env.Serves .cont) : ∃ q, r = .ok q := by
  obtain ⟨state, hsaved⟩ := Option.isSome_iff_exists.mp hstate
  have hstart : QemuVm.spawn site env inv.withIncomingDefer w =
      (.ok (Qemu.start site inv.withIncomingDefer), w.note (.spawned inv.withIncomingDefer)) := by
    simp [QemuVm.spawn, hspawn, hhandshake]
  obtain ⟨s, hload, halive⟩ := restoreIncoming_served
    (s := ⟨Qemu.start site inv.withIncomingDefer, w.note (.spawned inv.withIncomingDefer)⟩)
    rfl rfl (start_waits site inv) hsaved hincoming hloads
  cases h with
  | unspawned err w' hrun =>
      rw [hstart] at hrun
      cases hrun
  | unloaded q w₁ err s' hrun hfail =>
      rw [hstart] at hrun
      cases hrun
      rw [hload] at hfail
      cases hfail
  | halted q w₁ s₁ err s' hrun hok hfail =>
      rw [hstart] at hrun
      cases hrun
      rw [hload] at hok
      cases hok
      have hreturns : QemuVm.cont site env s = (.ok (), _) :=
        (order_served site .cont halive (hears_restoreIncoming rfl hload) hcont rfl).1
      rw [hreturns] at hfail
      cases hfail
  | done q w₁ s₁ s' _ _ _ => exact ⟨_, rfl⟩

-- A VM for this backend has an invocation, whatever its layers.
theorem invocable {e : VmEntry ρ} (site : Site ρ) (accel : Accel) (h : Shaped e) :
    ∃ inv, invocationFor site accel e = .ok inv :=
  buildAarch64Virt_ok_iff.mpr h.arch

-- A restore makes the overlays that can be made once the process has quit, and changes no other
-- file.
theorem restore_branches {e : VmEntry ρ} {w w₁ : World ρ} {a : SnapshotArtifacts}
    (hall : ∀ p ∈ a.diskBases.zipIdx, Branches site env w.files e p.1 p.2)
    (hquit : Quitted site env e w (.ok ()) w₁) :
    ∃ overlays w₂, createOverlays site env e (branchTag (e.snapshotSeq + 1)) a.diskBases w₁ =
        (.ok overlays, w₂) ∧
      ∀ p, (∀ i, p ≠ site.locate (overlayPath e (branchTag (e.snapshotSeq + 1)) i)) →
        w₂.files p = w₁.files p := by
  rw [createOverlays_eq]
  refine createOverlays_returns a.diskBases 0 w₁ (fun p hp => ?_) (fun j hj => ?_) hall
  · rw [hquit.poked.layer_isSome]
    exact hp
  · exact absurd hj (Nat.not_lt_zero j)

theorem restore_state {e : VmEntry ρ} (hnamed : Named e) {id : SnapshotId} {a : SnapshotArtifacts}
    (ha : e.snapshots id = some a) {w w₁ w₂ : World ρ} (hready : Restorable site env w.files e a)
    (hquit : Quitted site env e w (.ok ()) w₁)
    (hframe : ∀ p, (∀ i, p ≠ site.locate (overlayPath e (branchTag (e.snapshotSeq + 1)) i)) →
      w₂.files p = w₁.files p) :
    (w₂.files.savedState (site.locate a.stateFile)).isSome = true := by
  obtain ⟨k, -, hfile⟩ := hnamed.states id a ha
  have hapart : ∀ i, site.locate a.stateFile ≠
      site.locate (overlayPath e (branchTag (e.snapshotSeq + 1)) i) := by
    intro i hsame
    rw [hfile] at hsame
    have hname := (locate_generated_inj e e _ (.branchDisk (e.snapshotSeq + 1) i) hsame).2
    cases hname
  obtain ⟨state, hstate⟩ := Option.isSome_iff_exists.mp hready.state
  have hsaved : w₂.files (site.locate a.stateFile) = some (.ram (some state)) := by
    rw [hframe _ hapart]
    exact hquit.poked.ram (savedState_eq_some.mp hstate)
  rw [savedState_eq_some.mpr hsaved]
  rfl

section Moves

variable {e : VmEntry ρ} {w : World ρ} {m : Machine ρ} (h : Manned e)
include h

theorem Manned.absent (hq : e.runtime = none) : e.state.isLive = false := by
  unfold Manned at h
  rw [hq] at h
  exact h.symm

theorem Manned.present {q : Qemu ρ} (hq : e.runtime = some q) : e.state.isLive = true := by
  unfold Manned at h
  rw [hq] at h
  exact h.symm

theorem Manned.keep {q q' : Qemu ρ} (hq : e.runtime = some q) :
    Manned (e.setRuntime (some q')) := (h.present hq).symm

-- Only a VM that is not live is booted, and only one that is not running is restored.
theorem Booted.manned {r : Except HvError Unit} (hspec : Booted site env accel e w r m) :
    Manned m.entry := by
  cases hspec with
  | rejected _ _ | uninvocable _ _ | unspawned _ _ _ _ _ | dropped _ _ _ _ _ _ _ _ => exact h
  | done _ _ _ _ _ _ _ _ => rfl

theorem Commanded.manned {op : VmOp} {x : Exec (Session ρ) HvError Unit} {r : Except HvError Unit}
    (hop : ∀ n, e.state.transition op = .ok (some n) → n.isLive = true)
    (hspec : Commanded op x e w r m) : Manned m.entry := by
  cases hspec with
  | rejected _ _ | absent _ _ => exact h
  | failed n q err s _ hq _ => exact h.keep hq
  | done n q s hstate hq _ => exact (hop n hstate).symm

theorem Captured.manned {parent : Option SnapshotId} {r : Except HvError SnapshotId}
    (hspec : Captured site env parent e w r m) : Manned m.entry := by
  cases hspec with
  | orphaned _ _ _ | rejected _ _ => exact h
  | absent _ _ _ => exact h
  | failed q err s _ _ hq _ => exact h.keep hq
  | done q id s _ _ hq _ => exact h.keep hq

theorem Stopped.manned {r : Except HvError Unit}
    (ht : e.state.isLive = true → env.answer .wait = .done)
    (hspec : Stopped site env e w r m) : Manned m.entry := by
  cases hspec with
  | rejected _ _ => exact h
  | failed err w' hstate hquit =>
      have hlive : e.state.isLive = true := by
        obtain ⟨hs | hs, -⟩ := VmState.transition_stop.mp hstate <;> rw [hs] <;> rfl
      have hok := hquit.returns (ht hlive)
      cases hok
  | done _ _ _ => rfl

-- A failing restore of a VM without a process leaves it without one.
theorem Restored.manned (hshape : Shaped e) (hnamed : Named e) {id : SnapshotId}
    {r : Except HvError Unit}
    (ht : e.state = .paused → ∀ a ∈ e.snapshots id, Restorable site env w.files e a)
    (hspec : Restored site env accel id e w r m) : Manned m.entry := by
  by_cases hpaused : e.state = .paused
  · have ht := ht hpaused
    cases hspec with
    | rejected _ _ | unknown _ => exact h
    | done _ _ _ _ _ _ _ _ _ _ _ _ _ => rfl
    | unquit a err w₁ _ ha hquit =>
        have hok := hquit.returns (ht a ha).quit
        cases hok
    | unbranched a err w₁ w₂ _ ha hquit hbranch =>
        obtain ⟨overlays, w', hall, -⟩ := restore_branches (ht a ha).branches hquit
        rw [hall] at hbranch
        cases hbranch
    | uninvocable a overlays err w₁ w₂ _ ha hquit hbranch hinv =>
        obtain ⟨inv, hok⟩ := invocable site accel (hshape.branched (hshape.overlays_length ha hbranch))
        rw [hok] at hinv
        cases hinv
    | unlaunched a overlays inv err w₁ w₂ w₃ _ ha hquit hbranch _ hlaunch =>
        obtain ⟨overlays', w', hall, hframe⟩ := restore_branches (ht a ha).branches hquit
        rw [hall] at hbranch
        cases hbranch
        have hready := ht a ha
        have hstate := restore_state hnamed ha hready hquit hframe
        obtain ⟨q, hq⟩ := hlaunch.returns hready.spawn hready.handshake hready.incoming hstate
          hready.loads hready.cont
        cases hq
  · have hidle : e.state.transition .restore = .ok (some .running) → e.state.isLive = false := by
      intro hstate
      obtain ⟨hs | hs | hs, -⟩ := VmState.transition_restore.mp hstate
      · rw [hs]
        rfl
      · rw [hs]
        rfl
      · exact absurd hs hpaused
    cases hspec with
    | rejected _ _ | unknown _ => exact h
    | done _ _ _ _ _ _ _ _ _ _ _ _ _ => rfl
    | unquit _ _ _ hstate _ _ => exact (hidle hstate).symm
    | unbranched _ _ _ _ hstate _ _ _ => exact (hidle hstate).symm
    | uninvocable _ _ _ _ _ hstate _ _ _ _ => exact (hidle hstate).symm
    | unlaunched _ _ _ _ _ _ _ hstate _ _ _ _ _ => exact (hidle hstate).symm

end Moves

theorem manned_turn {b : HvfBackend ρ} {t : Turn ρ} (hshape : ∀ vm e, b.vms vm = some e → Shaped e)
    (hnamed : ∀ vm e, b.vms vm = some e → Named e) (hb : ∀ vm e, b.vms vm = some e → Manned e)
    (ht : LetsGo site b t) : ∀ vm e, (b.turn site t).vms vm = some e → Manned e := by
  refine entries_turn hb (fun _ _ => rfl) fun vm e m he hmove => ?_
  have h := hb vm e he
  cases hmove with
  | idle _ => exact h
  | acted acts q hq => exact h.keep hq
  | migrated poll q hq => exact h.keep hq
  | boot _ hspec => exact hspec.manned h
  | pause _ hspec =>
      refine hspec.manned h fun n hn => ?_
      obtain ⟨-, hn⟩ := VmState.transition_pause.mp hn
      obtain rfl := Option.some.inj hn
      rfl
  | resume _ hspec =>
      refine hspec.manned h fun n hn => ?_
      obtain ⟨-, hn⟩ := VmState.transition_resume.mp hn
      obtain rfl := Option.some.inj hn
      rfl
  | stop _ hspec => exact hspec.manned h (ht e he)
  | snapshot _ _ hspec => exact hspec.manned h
  | restore _ _ hspec => exact hspec.manned h (hshape vm e he) (hnamed vm e he) (ht e he)

-- In every run in which each `stop` and `restore` of a live VM comes to its end, the live VMs are
-- those with a process.
theorem runtime_iff_live (site : Site ρ) (accel : Accel) (files : Files ρ)
    (turns : List (Turn ρ)) (h : Along (turn site) (LetsGo site) (new accel files) turns) :
    ∀ vm e, (after (turn site) (new accel files) turns).vms vm = some e →
      e.runtime.isSome = e.state.isLive := by
  have hinv := h.invariant
    (fun b => (∀ vm e, b.vms vm = some e → Shaped e) ∧ (∀ vm e, b.vms vm = some e → Named e) ∧
      ∀ vm e, b.vms vm = some e → Manned e)
    ⟨fun _ _ he => (nomatch he), fun _ _ he => (nomatch he), fun _ _ he => (nomatch he)⟩
    fun b t hb ht =>
      ⟨shaped_turn t hb.1, named_turn t hb.1 hb.2.1, manned_turn hb.1 hb.2.1 hb.2.2 ht⟩
  exact hinv.2.2

theorem runtime_iff_live_restored :
    ∃ e ∈ (after (turn Sample.site) (new .tcg Sample.files) (Sample.calls
      [(.create Sample.config, []), (.boot "web", []), (.snapshot "web" none, []),
        (.pause "web", []), (.restore "web" ⟨"0/srv/web/snap1-disk0.qcow2"⟩, []),
        (.stop "web", [])])).vms "web",
      e.runtime.isSome = e.state.isLive := by
  have hthere : ((after (turn Sample.site) (new .tcg Sample.files) (Sample.calls
      [(.create Sample.config, []), (.boot "web", []), (.snapshot "web" none, []),
        (.pause "web", []), (.restore "web" ⟨"0/srv/web/snap1-disk0.qcow2"⟩, []),
        (.stop "web", [])])).vms "web").isSome = true := by
    decide +kernel
  obtain ⟨e, he⟩ := Option.isSome_iff_exists.mp hthere
  exact ⟨e, he, runtime_iff_live Sample.site .tcg Sample.files _ (by decide +kernel) "web" e he⟩

-- A restore whose QEMU does not come up leaves a paused VM without a process.
theorem runtime_lost :
    ¬∀ vm e, (after (turn Sample.site) (new .tcg Sample.files) (Sample.calls
      [(.create Sample.config, []), (.boot "web", []), (.snapshot "web" none, []),
        (.pause "web", []),
        (.restore "web" ⟨"0/srv/web/snap1-disk0.qcow2"⟩, [(.spawn, .refused)])])).vms vm = some e →
      e.runtime.isSome = e.state.isLive := by
  intro h
  have hlost : ∃ e ∈ (after (turn Sample.site) (new .tcg Sample.files) (Sample.calls
      [(.create Sample.config, []), (.boot "web", []), (.snapshot "web" none, []),
        (.pause "web", []),
        (.restore "web" ⟨"0/srv/web/snap1-disk0.qcow2"⟩, [(.spawn, .refused)])])).vms "web",
      e.runtime.isSome ≠ e.state.isLive := by
    decide +kernel
  obtain ⟨e, he, hne⟩ := hlost
  exact hne (h "web" e he)

end VMForge.Hvf
