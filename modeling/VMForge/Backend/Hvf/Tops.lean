import VMForge.Backend.Hvf.Aimed

namespace VMForge.Engine

open VMForge.Core Exec

variable {ρ : Type} {site : Site ρ} {env : Env ρ} {s s' : Session ρ}

section Captures

variable {stateDir tag : String} {n : Nat} {wasRunning : Bool} {overlays : List String}

-- A capture ends once QEMU goes on and the saved state can be read.
theorem endCapture_passes {file : String} (halive : s.qemu.alive = true)
    (hheard : s.qemu.unread = []) (hhalted : s.qemu.vcpusRunning = false) {state : ρ}
    (hstate : s.world.files (site.locate file) = some (.ram (some state)))
    (h : env.Passes (if wasRunning then [.cont] else []) (env.answer .readState = .done))
    {r : Except HvError SnapshotId}
    (hrun : endCapture site env file wasRunning overlays s = (r, s')) :
    s'.qemu.alive = false ∨ ∃ id, r = .ok id := by
  unfold endCapture at hrun
  have hread : ∀ {t : Session ρ}, env.answer .readState = .done →
      t.world.files (site.locate file) = some (.ram (some state)) →
      QemuVm.readState site env file t = (.ok state, t) := by
    intro t hanswer ht
    simp only [QemuVm.readState, hanswer, ht]
  cases wasRunning with
  | false =>
      rw [bind_of_ok (show (runIf false (QemuVm.cont site env)) s = (.ok (), s) from rfl),
        bind_of_ok (hread h hstate)] at hrun
      cases hrun
      exact Or.inr ⟨_, rfl⟩
  | true =>
      cases hleaves : env.leaves .cont with
      | true =>
          obtain ⟨e, t, hcont, hdead⟩ := order_left site .cont s hleaves
          have hrunIf : runIf true (QemuVm.cont site env) s = (.error e, t) := hcont
          rw [bind_of_error hrunIf] at hrun
          cases hrun
          exact Or.inl hdead
      | false =>
          obtain hleft | ⟨hanswer, hdone⟩ := h
          · rw [hleaves] at hleft
            cases hleft
          · have hrunIf := (order_served site .cont halive hheard ⟨hleaves, hanswer⟩ rfl).1
            have hfiles := issue_files site env .cont .cont s
            rw [(Session.during_halted site _ hhalted).1] at hfiles
            rw [bind_of_ok (show runIf true (QemuVm.cont site env) s = _ from hrunIf),
              bind_of_ok (hread hdone (by exact (congrFun hfiles _).trans hstate))] at hrun
            cases hrun
            exact Or.inr ⟨_, rfl⟩

-- What brings a capture of a process as it was started to its end, or to the exit of QEMU.
def Completes (env : Env ρ) (n : Nat) (q : Qemu ρ) : Prop :=
  GoesThrough env n q
    (env.Passes (if q.vcpusRunning then [.cont] else []) (env.answer .readState = .done))

instance (env : Env ρ) (n : Nat) (q : Qemu ρ) : Decidable (Completes env n q) :=
  inferInstanceAs (Decidable (GoesThrough env n q _))

variable (htag : ∀ i j, s!"{tag}-{nodeName i}" ≠ nodeName j)
include htag

theorem snapshot_completes (hplain : Plain n s.qemu.disks) (hread : s.qemu.unread = [])
    (hbegins : Begins env s.qemu) (h : Completes env n s.qemu) {r : Except HvError SnapshotId}
    (hrun : QemuVm.snapshot site env ((List.range n).map nodeName) stateDir tag s = (r, s')) :
    s'.qemu.alive = false ∨ ∃ id, r = .ok id := by
  rw [snapshot_phases] at hrun
  obtain ⟨t, hx⟩ := beginCapture_served site hread hbegins
  obtain ⟨-, -, hthere, -⟩ := beginCapture_returned hread hx
  have hread' : t.qemu.unread = [] := hears_beginCapture hread hx
  rw [bind_of_ok hx] at hrun
  have hdisks : t.qemu.disks = s.qemu.disks :=
    (beginCapture_keeps env (sameDisks_frame site) trivial trivial
      fun _ _ h => carryOut_disks (by simp) h).ok hx
  have hmigration : t.qemu.migration = s.qemu.migration :=
    (beginCapture_keeps env (sameMigration_frame site) trivial trivial
      fun _ _ h => carryOut_migration (by simp) h).ok hx
  have hgoes : GoesThrough env n t.qemu
      (env.Passes (if s.qemu.vcpusRunning then [.cont] else []) (env.answer .readState = .done)) := by
    unfold GoesThrough
    rw [hmigration]
    exact h
  rcases hfreeze : freeze site env n stateDir tag t with ⟨e | overlays, t'⟩
  · rw [bind_of_error hfreeze] at hrun
    cases hrun
    obtain hdead | ⟨⟨os, hos⟩, -⟩ := freeze_passes htag (hdisks ▸ hplain) hthere hread' hgoes hfreeze
    · exact Or.inl hdead
    · cases hos
  · rw [bind_of_ok hfreeze] at hrun
    obtain hdead | ⟨-, hrest, hthere', hhalted, state, hstate⟩ :=
      freeze_passes htag (hdisks ▸ hplain) hthere hread' hgoes hfreeze
    · have hgone := endCapture_keeps (staysDead_frame site) env
        (join stateDir (QemuVm.stateName tag)) trivial
        (fun _ _ => carryOut_dead) s.qemu.vcpusRunning overlays t' hdead
      rw [hrun] at hgone
      exact Or.inl hgone
    · exact endCapture_passes hthere' (hears_freeze hread' hfreeze) hhalted hstate hrest hrun

end Captures

-- A capture whose first overlay is not made switches nothing.
theorem snapshot_refused {stateDir tag : String} {n : Nat} (hn : 0 < n)
    (hread : s.qemu.unread = []) (hanswer : (env.answer (.sync 0)).acts = false)
    {r : Except HvError SnapshotId}
    (hrun : QemuVm.snapshot site env ((List.range n).map nodeName) stateDir tag s = (r, s')) :
    s'.qemu.disks = s.qemu.disks := by
  rw [snapshot_eq] at hrun
  have hbegin := beginCapture_keeps env (sameDisks_frame site) trivial trivial
    fun _ _ h => carryOut_disks (by simp) h
  rcases hx : beginCapture site env s with ⟨e | wasRunning, t⟩
  · rw [bind_of_error hx] at hrun
    cases hrun
    exact hbegin.error hx
  · rw [bind_of_ok hx] at hrun
    obtain ⟨n, rfl⟩ : ∃ m, n = m + 1 := ⟨n - 1, by omega⟩
    rw [List.range_succ_eq_map, mapEach_cons] at hrun
    cases hsync : QemuVm.order site env (.sync 0) (.blockdevSnapshotSync (nodeName 0)
        (overlayBlock stateDir tag 0).file (overlayBlock stateDir tag 0).node) t with
    | mk rx sx =>
        cases order_cases (hears_beginCapture hread hx) hsync with
        | done _ _ hdone _ _ =>
            rw [hdone] at hanswer
            cases hanswer
        | lost _ _ _ _ hlost _ =>
            rw [hlost] at hanswer
            cases hanswer
        | refused e _ _ =>
            rw [bind_of_error (bind_of_error (by rw [syncDisk, bind_of_error hsync]))] at hrun
            cases hrun
            exact (issue_disks site env _ _ t).trans (hbegin.ok hx)

-- A capture that does not come to its first overlay switches nothing.
theorem snapshot_unbegun_disks {stateDir tag : String} {n : Nat} (hread : s.qemu.unread = [])
    (hbegins : ¬Begins env s.qemu) {r : Except HvError SnapshotId}
    (hrun : QemuVm.snapshot site env ((List.range n).map nodeName) stateDir tag s = (r, s')) :
    s'.qemu.disks = s.qemu.disks := by
  rw [snapshot_eq] at hrun
  rcases hx : beginCapture site env s with ⟨e | wasRunning, t⟩
  · rw [bind_of_error hx] at hrun
    cases hrun
    exact (beginCapture_keeps env (sameDisks_frame site) trivial trivial
      fun _ _ h => carryOut_disks (by simp) h).error hx
  · exact absurd (beginCapture_returned hread hx).1 hbegins

-- A process without disks gets none.
def StaysBare (s s' : Session ρ) : Prop := s.qemu.disks = [] → s'.qemu.disks = []

theorem staysBare_frame (site : Site ρ) : Frame site (fun _ => True) (StaysBare (ρ := ρ)) where
  refl _ h := h
  trans _ _ _ h h' hs := h' (h hs)
  act s a hs := (s.act_disks a).trans hs
  note _ _ _ _ hs := hs
  unread _ _ hs := hs

theorem carryOut_bare {c : Command} (h : s.carryOut site c = some s') : StaysBare s s' := by
  intro hs
  cases c with
  | blockdevSnapshotSync node file snap =>
      simp only [Session.carryOut, hs, switchTop] at h
      cases h
  | cont | stop | queryStatus | queryMigrate | quit | migrate _ | migrateIncoming _ =>
      exact (carryOut_disks (by simp) h).trans hs

theorem snapshot_bare {nodes : List String} {stateDir tag : String}
    {r : Except HvError SnapshotId}
    (hrun : QemuVm.snapshot site env nodes stateDir tag s = (r, s')) : StaysBare s s' := by
  have hkeeps := (staysBare_frame site).snapshot env nodes stateDir tag (fun _ => trivial)
    (fun _ _ _ => carryOut_bare) (fun s p hs => (endMigration_disks s p).trans hs) s
  rwa [hrun] at hkeeps

theorem snapshot_dead {nodes : List String} {stateDir tag : String}
    {r : Except HvError SnapshotId}
    (hrun : QemuVm.snapshot site env nodes stateDir tag s = (r, s')) : StaysDead s s' := by
  have hkeeps := (staysDead_frame site).snapshot env nodes stateDir tag (fun _ => trivial) (fun _ _ _ => carryOut_dead)
    endMigration_dead s
  rwa [hrun] at hkeeps

end VMForge.Engine

namespace VMForge.Hvf

open VMForge.Core Engine Exec HvfBackend

variable {ρ : Type} {site : Site ρ} {env : Env ρ} {accel : Accel}

-- The recorded layers are those a process that is there writes to.
def Recorded (e : VmEntry ρ) : Prop :=
  ∀ q, e.runtime = some q → q.alive = true → q.tops = e.activeDisks

-- A capture of a VM with disks finds no reply to an earlier command unread and, once it comes to its
-- first overlay, gets none there or completes.
def Records (b : HvfBackend ρ) : Turn ρ → Prop
  | .call (.snapshot vm parent) env =>
      ∀ e ∈ b.vms vm, Admits e parent → e.config.disks ≠ [] →
        ∀ q ∈ e.runtime, q.unread = [] ∧ (Begins env q → OnBase q →
          (env.answer (.sync 0)).acts = false ∨ Completes env e.config.disks.length q)
  | _ => True

instance (b : HvfBackend ρ) : DecidablePred (Records b)
  | .call (.snapshot vm parent) env =>
      inferInstanceAs (Decidable (∀ e ∈ b.vms vm, Admits e parent → e.config.disks ≠ [] →
        ∀ q ∈ e.runtime, q.unread = [] ∧ (Begins env q → OnBase q →
          (env.answer (.sync 0)).acts = false ∨ Completes env e.config.disks.length q)))
  | .call (.create _) _ | .call (.boot _) _ | .call (.pause _) _ | .call (.resume _) _
  | .call (.stop _) _ | .call (.restore _ _) _ | .call (.delete _) _ | .call (.state _) _
  | .guest _ _ | .migrationEnds _ _ | .session _ => isTrue trivial

section Moves

variable {e : VmEntry ρ} {w : World ρ} {m : Machine ρ} (h : Recorded e)
include h

theorem Recorded.keep {q : Qemu ρ} {s : Session ρ} (hq : e.runtime = some q)
    (hdisks : s.qemu.disks = q.disks) (hdead : StaysDead ⟨q, w⟩ s) :
    Recorded (e.setRuntime (some s.qemu)) := by
  intro q' hq' halive
  cases hq'
  have hthere : q.alive = true := hdead.there halive
  show s.qemu.disks.map (·.top.file) = e.activeDisks
  rw [hdisks]
  exact h q hq hthere

omit h in
theorem Recorded.gone (e : VmEntry ρ) (hq : e.runtime = none) : Recorded e := by
  intro q hq' _
  rw [hq] at hq'
  cases hq'

theorem Booted.recorded {r : Except HvError Unit} (hspec : Booted site env accel e w r m) :
    Recorded m.entry := by
  cases hspec with
  | rejected _ _ | uninvocable _ _ | unspawned _ _ _ _ _ | dropped _ _ _ _ _ _ _ _ => exact h
  | done inv q w' s _ hinv hspawn hcont =>
      intro q' hq' _
      cases hq'
      exact (booted_disks hinv hspawn hcont).2

theorem Commanded.recorded {op : VmOp} {x : Exec (Session ρ) HvError Unit}
    {r : Except HvError Unit} (hx : ∀ s s' r, x s = (r, s') → s'.qemu.disks = s.qemu.disks)
    (hdead : Keeps StaysDead x) (hspec : Commanded op x e w r m) : Recorded m.entry := by
  cases hspec with
  | rejected _ _ | absent _ _ => exact h
  | failed n q err s _ hq hrun => exact h.keep hq (hx _ _ _ hrun) (hdead.error hrun)
  | done n q s _ hq hrun => exact h.keep hq (hx _ _ _ hrun) (hdead.ok hrun)

theorem Stopped.recorded {r : Except HvError Unit} (hspec : Stopped site env e w r m) :
    Recorded m.entry := by
  cases hspec with
  | rejected _ _ => exact h
  | failed _ _ _ _ => exact Recorded.gone _ rfl
  | done _ _ _ => exact Recorded.gone _ rfl

theorem Restored.recorded {id : SnapshotId} {r : Except HvError Unit}
    (hspec : Restored site env accel id e w r m) : Recorded m.entry := by
  cases hspec with
  | rejected _ _ | unknown _ => exact h
  | unquit _ _ _ _ _ _ | unbranched _ _ _ _ _ _ _ _ | uninvocable _ _ _ _ _ _ _ _ _ _
  | unlaunched _ _ _ _ _ _ _ _ _ _ _ _ _ => exact Recorded.gone _ rfl
  | done a overlays inv q w₁ w₂ w₃ _ _ _ _ hinv hlaunch =>
      intro q' hq' _
      cases hq'
      exact (launched_disks hinv hlaunch).2

-- Without disks there is nothing to lose track of.
theorem Recorded.bare (hshape : Shaped e) (hnone : e.config.disks = []) {q : Qemu ρ}
    {s : Session ρ} (hq : e.runtime = some q) (hbare : StaysBare ⟨q, w⟩ s)
    (hdead : StaysDead ⟨q, w⟩ s) (halive : s.qemu.alive = true) : s.qemu.tops = [] := by
  have hactive : e.activeDisks = [] := by
    rw [← List.length_eq_zero_iff, hshape.arity, hnone]
    rfl
  have hthere : q.alive = true := hdead.there halive
  have htops : q.tops = [] := (h q hq hthere).trans hactive
  rw [Qemu.tops, hbare (List.map_eq_nil_iff.mp htops)]
  rfl

theorem Captured.recorded (hshape : Shaped e) {parent : Option SnapshotId}
    {r : Except HvError SnapshotId}
    (hrecords : Admits e parent → e.config.disks ≠ [] → ∀ q ∈ e.runtime, q.unread = [] ∧
      (Begins env q → OnBase q →
        (env.answer (.sync 0)).acts = false ∨ Completes env e.config.disks.length q))
    (hspec : Captured site env parent e w r m) : Recorded m.entry := by
  cases hspec with
  | orphaned _ _ _ | rejected _ _ => exact h
  | absent _ _ hq => exact Recorded.gone _ hq
  | failed q err s hstate hknown hq hrun =>
      have hkeep : s.qemu.disks = q.disks → Recorded (e.setRuntime (some s.qemu)) :=
        fun hdisks => h.keep hq hdisks (snapshot_dead hrun)
      by_cases hnone : e.config.disks = []
      · intro q' hq' halive
        cases hq'
        refine (h.bare hshape hnone hq (snapshot_bare hrun) (snapshot_dead hrun) halive).trans ?_
        exact (List.length_eq_zero_iff.mp (hshape.arity.trans (by rw [hnone]; rfl))).symm
      · obtain ⟨hread, hcompletes⟩ := hrecords (admits_of hstate hknown) hnone q hq
        by_cases hbegins : Begins env q
        · by_cases hbase : OnBase q
          · have hplain := hshape.plain hq hread hbase
            obtain hrefused | hcompletes := hcompletes hbegins hbase
            · have hpos : 0 < e.config.disks.length := List.length_pos_iff.mpr hnone
              exact hkeep (snapshot_refused hpos hread hrefused hrun)
            · obtain hdead | ⟨id, hid⟩ :=
                snapshot_completes (snapNode_ne_nodeName _) hplain hread hbegins hcompletes hrun
              · intro q' hq' halive
                cases hq'
                rw [hdead] at halive
                cases halive
              · cases hid
          · obtain hplain | hcovered := hshape.chains q hq hread
            · refine absurd (fun d hd => ?_) hbase
              exact (hplain.2 0 d hd).2
            · exact hkeep (snapshot_covered hcovered hread hrun).1
        · exact hkeep (snapshot_unbegun_disks hread hbegins hrun)
  | done q id s hstate hknown hq hrun =>
      intro q' hq' halive
      cases hq'
      by_cases hnone : e.config.disks = []
      · refine (h.bare hshape hnone hq (snapshot_bare hrun) (snapshot_dead hrun) halive).trans ?_
        simp [recordCapture, capturedDisks, diskNodes, hnone]
      · obtain ⟨hread, -⟩ := hrecords (admits_of hstate hknown) hnone q hq
        obtain hplain | hcovered := hshape.chains q hq hread
        · obtain ⟨j, -, hdisks, hend⟩ := snapshot_disks (snapNode_ne_nodeName _) hplain hread hrun
          obtain rfl := hend id rfl
          exact captured_tops hplain hdisks
        · obtain ⟨-, err, herr⟩ := snapshot_covered hcovered hread hrun
          cases herr

end Moves

theorem recorded_turn {b : HvfBackend ρ} {t : Turn ρ} (hshape : ∀ vm e, b.vms vm = some e → Shaped e)
    (hb : ∀ vm e, b.vms vm = some e → Recorded e) (ht : Records b t) :
    ∀ vm e, (b.turn site t).vms vm = some e → Recorded e := by
  refine entries_turn hb (fun _ _ => Recorded.gone _ rfl) fun vm e m he hmove => ?_
  have h := hb vm e he
  cases hmove with
  | idle _ => exact h
  | acted acts q hq =>
      exact h.keep hq (Session.during_disks site _ acts) fun hd => Session.during_dead site acts hd
  | migrated poll q hq =>
      exact h.keep hq (endMigration_disks _ poll) fun hd => endMigration_dead _ poll hd
  | boot _ hspec => exact hspec.recorded h
  | pause _ hspec =>
      exact hspec.recorded h (fun _ _ _ => pause_disks)
        ((staysDead_frame site).order trivial fun _ _ => carryOut_dead)
  | resume _ hspec =>
      exact hspec.recorded h (fun _ _ _ => cont_disks)
        ((staysDead_frame site).order trivial fun _ _ => carryOut_dead)
  | stop _ hspec => exact hspec.recorded h
  | snapshot _ _ hspec => exact hspec.recorded h (hshape vm e he) (ht e he)
  | restore _ _ hspec => exact hspec.recorded h

-- After a stop, a boot opens the recorded layers.
theorem stop_boot_tops {b b₁ b₂ : HvfBackend ρ} {vm : String} {e : VmEntry ρ} {env env' : Env ρ}
    {r r' : Reply} (he : b.vms vm = some e) (hstop : run site env (.stop vm) b = (.ok r, b₁))
    (hboot : run site env' (.boot vm) b₁ = (.ok r', b₂)) :
    ∃ e₂ q₂, b₂.vms vm = some e₂ ∧ e₂.runtime = some q₂ ∧ q₂.tops = e.activeDisks := by
  obtain ⟨u, m, hrun, -, rfl⟩ := withVm_returned he hstop
  have hstopped := stop_spec site env e b.world
  rw [hrun] at hstopped
  have hactive : m.entry.activeDisks = e.activeDisks := by
    cases hstopped with
    | done w' _ _ => rfl
  have he₁ : (Function.update b.vms vm (some m.entry)) vm = some m.entry := Function.update_self ..
  obtain ⟨u', m', hrun', -, rfl⟩ := withVm_returned he₁ hboot
  have hbooted := boot_spec site env' b.accel m.entry m.world
  rw [hrun'] at hbooted
  cases hbooted with
  | done inv q w' s _ hinv hspawn hcont =>
      refine ⟨_, s.qemu, Function.update_self .., rfl, ?_⟩
      rw [← hactive]
      exact (booted_disks hinv hspawn hcont).2

-- In every run whose captures read their own replies and get no overlay or complete, the recorded
-- layers are those QEMU puts the guest's writes on, and a stop and a boot go on with them.
theorem active_disks_recorded (site : Site ρ) (accel : Accel) (files : Files ρ)
    (turns : List (Turn ρ)) (h : Along (turn site) Records (new accel files) turns) :
    let b := after (turn site) (new accel files) turns
    ∀ vm e q, b.vms vm = some e → e.runtime = some q → q.alive = true →
      q.tops = e.activeDisks ∧
      ∀ env env' r r' b₁ b₂, run site env (.stop vm) b = (.ok r, b₁) →
        run site env' (.boot vm) b₁ = (.ok r', b₂) →
        ∃ e₂ q₂, b₂.vms vm = some e₂ ∧ e₂.runtime = some q₂ ∧ q₂.tops = q.tops := by
  intro b vm e q he hq halive
  have hinv := h.invariant
    (fun b => (∀ vm e, b.vms vm = some e → Shaped e) ∧ ∀ vm e, b.vms vm = some e → Recorded e)
    ⟨fun _ _ he => (nomatch he), fun _ _ he => (nomatch he)⟩ fun b t hb ht =>
      ⟨shaped_turn t hb.1, recorded_turn hb.1 hb.2 ht⟩
  have htops := hinv.2 vm e he q hq halive
  refine ⟨htops, fun env env' r r' b₁ b₂ hstop hboot => ?_⟩
  rw [htops]
  exact stop_boot_tops he hstop hboot

theorem active_disks_recorded_twice :
    let b := after (turn Sample.site) (new .tcg Sample.files) Sample.recaptured
    (b.vms "web").map (·.activeDisks) = some ["/srv/web/snap2-disk0.qcow2"] ∧
    ∀ vm e q, b.vms vm = some e → e.runtime = some q → q.alive = true →
      q.tops = e.activeDisks ∧
      ∀ env env' r r' b₁ b₂, run Sample.site env (.stop vm) b = (.ok r, b₁) →
        run Sample.site env' (.boot vm) b₁ = (.ok r', b₂) →
        ∃ e₂ q₂, b₂.vms vm = some e₂ ∧ e₂.runtime = some q₂ ∧ q₂.tops = q.tops :=
  ⟨by decide +kernel,
    active_disks_recorded Sample.site .tcg Sample.files Sample.recaptured (by decide +kernel)⟩

-- A refused migration leaves the guest on an overlay that is not recorded.
theorem active_disks_lost :
    ¬∀ vm e q, (after (turn Sample.site) (new .tcg Sample.files) (Sample.calls
      [(.create Sample.config, []), (.boot "web", []),
        (.snapshot "web" none, [(.migrate, .refused)])])).vms vm = some e →
      e.runtime = some q → q.alive = true → q.tops = e.activeDisks := by
  intro h
  have hlost : ∃ e ∈ (after (turn Sample.site) (new .tcg Sample.files) (Sample.calls
      [(.create Sample.config, []), (.boot "web", []),
        (.snapshot "web" none, [(.migrate, .refused)])])).vms "web",
      ∃ q ∈ e.runtime, q.alive = true ∧ q.tops ≠ e.activeDisks := by
    decide +kernel
  obtain ⟨e, he, q, hq, halive, hne⟩ := hlost
  exact hne (h "web" e q he hq halive)

-- So does a late reply: the refusal for the first disk is taken for the answer to the second one.
example :
    ∃ e ∈ (after (turn Sample.site) (new .tcg Sample.files) (Sample.calls
      [(.create { Sample.config with disks := ["/data/root.qcow2", "/data/root.qcow2"] }, []),
        (.boot "web", []), (.snapshot "web" none, [(.queryStatus 0, .lost)]),
        (.snapshot "web" none, [(.sync 0, .refused)])])).vms "web",
      ∃ q ∈ e.runtime, e.activeDisks = ["/data/root.qcow2", "/data/root.qcow2"] ∧
        q.tops = ["/data/root.qcow2", "/srv/web/snap2-disk1.qcow2"] := by
  decide +kernel

end VMForge.Hvf
