import VMForge.Backend.Hvf.Aimed

namespace VMForge.Engine

open VMForge.Core Exec

variable {ρ : Type} {site : Site ρ} {env : Env ρ} {s s' : Session ρ}

section Captures

variable {stateDir tag : String} {n : Nat}

-- A capture of a halted guest leaves it halted.
theorem snapshot_halted (hread : s.qemu.unread = []) (hhalted : s.qemu.vcpusRunning = false)
    {r : Except HvError SnapshotId}
    (hrun : QemuVm.snapshot site env ((List.range n).map nodeName) stateDir tag s = (r, s')) :
    s'.qemu.vcpusRunning = false := by
  rw [snapshot_phases] at hrun
  have hbegin := beginCapture_keeps env (staysHalted_frame site) trivial trivial
    (fun _ _ => carryOut_halted (by simp)) s hhalted
  rcases hx : beginCapture site env s with ⟨e | wasRunning, t⟩
  · rw [hx] at hbegin
    rw [bind_of_error hx] at hrun
    cases hrun
    exact hbegin
  · rw [hx] at hbegin
    rw [bind_of_ok hx] at hrun
    obtain ⟨-, hwas, -, -⟩ := beginCapture_returned hread hx
    rw [hwas, hhalted] at hrun
    have hfreeze := freeze_keeps (staysHalted_frame site) env n stateDir tag
      (fun _ _ _ => trivial) (fun _ => trivial) trivial (fun _ _ _ => carryOut_halted)
      endMigration_halted t hbegin
    rcases hf : freeze site env n stateDir tag t with ⟨e | overlays, t'⟩
    · rw [hf] at hfreeze
      rw [bind_of_error hf] at hrun
      cases hrun
      exact hfreeze
    · rw [hf] at hfreeze
      rw [bind_of_ok hf] at hrun
      have hstays := (staysHalted_frame site).readState env
        (join stateDir (QemuVm.stateName tag)) t' hfreeze
      unfold endCapture at hrun
      rw [bind_of_ok (show runIf false (QemuVm.cont site env) t' = (.ok (), t') from rfl)] at hrun
      rcases hstate : QemuVm.readState site env (join stateDir (QemuVm.stateName tag)) t'
        with ⟨e | state, t''⟩
      · rw [hstate] at hstays
        rw [bind_of_error hstate] at hrun
        cases hrun
        exact hstays
      · rw [hstate] at hstays
        rw [bind_of_ok hstate] at hrun
        cases hrun
        exact hstays

-- What has a capture of a running guest end with the guest running, or with QEMU gone.
def Resumes (env : Env ρ) (n : Nat) (q : Qemu ρ) : Prop :=
  env.Serves (.queryStatus 0) →
    env.leaves .stop = true ∨ (env.answer .stop).acts = false ∨
      (env.answer .stop = .done ∧ (OnBase q ∨ env.leaves (.sync 0) = true) ∧
        GoesThrough env n q (env.leaves .cont = true ∨ (env.answer .cont).acts = true))

instance (env : Env ρ) (n : Nat) (q : Qemu ρ) : Decidable (Resumes env n q) :=
  inferInstanceAs (Decidable (_ → _))

-- A `stop` without effect leaves the guest running.
theorem beginCapture_refused (hread : s.qemu.unread = []) (hrunning : s.qemu.vcpusRunning = true)
    (h : ¬env.Serves (.queryStatus 0) ∨ env.leaves .stop = true ∨ (env.answer .stop).acts = false)
    {r : Except HvError Bool} (hrun : beginCapture site env s = (r, s')) :
    (∃ e, r = .error e) ∧ (s'.qemu.alive = true → s'.qemu.vcpusRunning = true) := by
  unfold beginCapture at hrun
  have hquery : ∀ {r₁ s₁}, QemuVm.status site env 0 s = (r₁, s₁) →
      s₁.qemu.vcpusRunning = true := by
    intro r₁ s₁ h₁
    obtain ⟨t, us, ht, hend⟩ := execute_reaches site env (.queryStatus 0) .queryStatus s
    obtain rfl : s₁ = t.setUnread us := by rw [← hend, ← QemuVm.status, h₁]
    obtain rfl | hdo := ht
    · exact (issue_vcpusRunning site env _ _ s).trans hrunning
    · cases hdo
      exact (issue_vcpusRunning site env _ _ s).trans hrunning
  rcases hx : QemuVm.status site env 0 s with ⟨e | text, t⟩
  · rw [bind_of_error hx] at hrun
    cases hrun
    exact ⟨⟨e, rfl⟩, fun _ => hquery hx⟩
  · obtain ⟨halive, hserves, hdo, htext⟩ := execute_returned hread hx
    have ht : t.qemu.vcpusRunning = true := hquery hx
    have hwas : (text == "running") = true := by
      rw [htext, Qemu.status, text_running]
      exact ht
    rw [bind_of_ok hx, hwas] at hrun
    cases hstop : QemuVm.order site env .stop .stop t with
    | mk r₂ s₂ =>
        have hrunIf : runIf true (QemuVm.pause site env) t = (r₂, s₂) := hstop
        -- QEMU has not halted the guest: it is gone, or it has not carried the command out
        have hidle : ∀ {a : Answer}, (QemuVm.issue site env .stop .stop t).qemu.alive = true →
            env.answer .stop = a → a.acts = false := by
          intro a hthere hanswer
          rw [issue_alive, Bool.and_eq_true, Bool.not_eq_true'] at hthere
          obtain hno | hleft | hrefused := h
          · exact absurd hserves hno
          · rw [hthere.2] at hleft
            cases hleft
          · rw [← hanswer]
            exact hrefused
        cases order_cases (hears_execute hread hx) hstop with
        | done _ hthere hdone _ _ => cases hidle hthere hdone
        | lost _ _ _ hthere hlost _ => cases hidle hthere hlost
        | refused e us _ =>
            rw [bind_of_error hrunIf] at hrun
            cases hrun
            exact ⟨⟨e, rfl⟩, fun _ => (issue_vcpusRunning site env _ _ t).trans ht⟩

-- The guest runs again once `cont` has had its effect.
theorem endCapture_resumes {file : String} {overlays : List String} (hheard : s.qemu.unread = [])
    (h : env.leaves .cont = true ∨ (env.answer .cont).acts = true) {r : Except HvError SnapshotId}
    (hrun : endCapture site env file true overlays s = (r, s')) :
    s'.qemu.alive = true → s'.qemu.vcpusRunning = true := by
  unfold endCapture at hrun
  cases hcont : QemuVm.order site env .cont .cont s with
  | mk rc t =>
      have hrunIf : runIf true (QemuVm.cont site env) s = (rc, t) := hcont
      have ht : t.qemu.alive = true → t.qemu.vcpusRunning = true := by
        cases order_cases hheard hcont with
        | done _ _ _ hdo _ | lost _ _ _ _ _ hdo =>
            cases hdo
            exact fun _ => rfl
        | refused _ us hwhy =>
            intro hthere
            obtain hanswer | hno := hwhy hthere
            · rw [Session.setUnread_alive, issue_alive, Bool.and_eq_true,
                Bool.not_eq_true'] at hthere
              obtain hleft | hacts := h
              · rw [hthere.2] at hleft
                cases hleft
              · rw [hanswer] at hacts
                cases hacts
            · cases hno
      cases rc with
      | error e =>
          rw [bind_of_error hrunIf] at hrun
          cases hrun
          exact ht
      | ok u =>
          rw [bind_of_ok hrunIf] at hrun
          have hsame : ∀ {r₁ s₁}, QemuVm.readState site env file t = (r₁, s₁) → s₁ = t := by
            intro r₁ s₁ h₁
            unfold QemuVm.readState at h₁
            split at h₁ <;> (cases h₁; rfl)
          rcases hread : QemuVm.readState site env file t with ⟨e | state, t'⟩
          · rw [bind_of_error hread] at hrun
            cases hrun
            rw [hsame hread]
            exact ht
          · rw [bind_of_ok hread] at hrun
            cases hrun
            rw [hsame hread]
            exact ht

variable (htag : ∀ i j, s!"{tag}-{nodeName i}" ≠ nodeName j)
include htag

theorem snapshot_resumes (hread : s.qemu.unread = []) (hrunning : s.qemu.vcpusRunning = true)
    (hchains : Plain n s.qemu.disks ∨ Covered n s.qemu.disks) (h : Resumes env n s.qemu)
    {r : Except HvError SnapshotId}
    (hrun : QemuVm.snapshot site env ((List.range n).map nodeName) stateDir tag s = (r, s'))
    (halive : s'.qemu.alive = true) : s'.qemu.vcpusRunning = true := by
  rw [snapshot_phases] at hrun
  rcases hx : beginCapture site env s with ⟨e | wasRunning, t⟩
  · rw [bind_of_error hx] at hrun
    cases hrun
    by_cases hserves : env.Serves (.queryStatus 0)
    · obtain hleft | hrefused | ⟨hdone, -, -⟩ := h hserves
      · exact (beginCapture_refused hread hrunning (Or.inr (Or.inl hleft)) hx).2 halive
      · exact (beginCapture_refused hread hrunning (Or.inr (Or.inr hrefused)) hx).2 halive
      · -- nothing keeps the call from its first overlay but the exit of QEMU
        have hdead := beginCapture_keeps env (staysDead_frame site) trivial trivial
          (fun _ _ => carryOut_dead) s
        rw [hx] at hdead
        cases hthere : s.qemu.alive with
        | false =>
            rw [hdead hthere] at halive
            cases halive
        | true =>
            cases hleaves : env.leaves .stop with
            | true => exact (beginCapture_refused hread hrunning (Or.inr (Or.inl hleaves)) hx).2 halive
            | false =>
                obtain ⟨t', hx'⟩ :=
                  beginCapture_served site hread ⟨hthere, hserves, fun _ => ⟨hleaves, hdone⟩⟩
                rw [hx'] at hx
                cases hx
    · exact (beginCapture_refused hread hrunning (Or.inl hserves) hx).2 halive
  · rw [bind_of_ok hx] at hrun
    obtain ⟨⟨-, hserves, hstop⟩, rfl, hthere, -⟩ := beginCapture_returned hread hx
    obtain ⟨hstays, hdone⟩ := hstop hrunning
    have hgoes : (OnBase s.qemu ∨ env.leaves (.sync 0) = true) ∧
        GoesThrough env n s.qemu (env.leaves .cont = true ∨ (env.answer .cont).acts = true) := by
      obtain hleft | hrefused | ⟨-, hgoes⟩ := h hserves
      · rw [hstays] at hleft
        cases hleft
      · rw [hdone] at hrefused
        cases hrefused
      · exact hgoes
    have hread' : t.qemu.unread = [] := hears_beginCapture hread hx
    have hdisks : t.qemu.disks = s.qemu.disks :=
      (beginCapture_keeps env (sameDisks_frame site) trivial trivial
        fun _ _ h => carryOut_disks (by simp) h).ok hx
    have hmigration : t.qemu.migration = s.qemu.migration :=
      (beginCapture_keeps env (sameMigration_frame site) trivial trivial
        fun _ _ h => carryOut_migration (by simp) h).ok hx
    rw [hrunning] at hrun
    -- a process that is gone in the pause window stays away
    have hgone : ∀ {r₁ t₁}, freeze site env n stateDir tag t = (r₁, t₁) → t₁.qemu.alive = true := by
      intro r₁ t₁ hfreeze
      cases ha : t₁.qemu.alive with
      | true => rfl
      | false =>
          refine absurd halive ?_
          cases r₁ with
          | error e =>
              rw [bind_of_error hfreeze] at hrun
              cases hrun
              rw [ha]
              exact Bool.false_ne_true
          | ok overlays =>
              rw [bind_of_ok hfreeze] at hrun
              have hdead := endCapture_keeps (staysDead_frame site) env
                (join stateDir (QemuVm.stateName tag)) trivial (fun _ _ => carryOut_dead) true
                overlays t₁ ha
              rw [hrun] at hdead
              rw [hdead]
              exact Bool.false_ne_true
    obtain hplain | hcovered := hchains
    · have hgoes' : GoesThrough env n t.qemu
          (env.leaves .cont = true ∨ (env.answer .cont).acts = true) := by
        unfold GoesThrough
        rw [hmigration]
        exact hgoes.2
      rcases hfreeze : freeze site env n stateDir tag t with ⟨e | overlays, t'⟩
      · obtain hdead | ⟨⟨os, hos⟩, -⟩ := freeze_passes htag (hdisks ▸ hplain) hthere hread' hgoes' hfreeze
        · rw [hgone hfreeze] at hdead
          cases hdead
        · cases hos
      · obtain hdead | ⟨-, hcont, -⟩ := freeze_passes htag (hdisks ▸ hplain) hthere hread' hgoes' hfreeze
        · rw [hgone hfreeze] at hdead
          cases hdead
        · rw [bind_of_ok hfreeze] at hrun
          exact endCapture_resumes (hears_freeze hread' hfreeze) hcont hrun halive
    · obtain ⟨n, rfl⟩ : ∃ m, n = m + 1 := ⟨n - 1, by have := hcovered.2.1; omega⟩
      obtain hbase | hleft := hgoes.1
      · exact absurd hbase hcovered.not_onBase
      · obtain ⟨e, t', hsync, hdead⟩ := syncDisk_left site stateDir tag t hleft
        have hfreeze : freeze site env (n + 1) stateDir tag t = (.error e, t') := by
          unfold freeze
          rw [List.range_succ_eq_map, mapEach_cons]
          exact bind_of_error (bind_of_error hsync)
        rw [hgone hfreeze] at hdead
        cases hdead

end Captures

-- A command that fails without effect leaves the guest as it is.
theorem order_failed {step : Step} {c : Command} {e : HvError}
    (h : env.leaves step = true ∨ (s.qemu.unread = [] ∧ env.answer step ≠ .lost))
    (hrun : QemuVm.order site env step c s = (.error e, s')) :
    s'.qemu.alive = true → s'.qemu.vcpusRunning = s.qemu.vcpusRunning := by
  intro halive
  obtain hleft | ⟨hread, hnot⟩ := h
  · obtain ⟨e', t, hx, hdead⟩ := order_left site c s hleft
    obtain ⟨-, rfl⟩ := Prod.mk.inj (hx.symm.trans hrun)
    rw [hdead] at halive
    cases halive
  · cases order_cases hread hrun with
    | lost _ _ _ _ hlost _ => exact absurd hlost hnot
    | refused _ _ _ => exact issue_vcpusRunning site env step c s

-- A command that returns finds QEMU there, and is carried out if no other reply is taken for its own.
theorem order_carried {step : Step} {c : Command}
    (h : env.leaves step = true ∨ (s.qemu.unread = [] ∧ env.answer step ≠ .lost))
    (hrun : QemuVm.order site env step c s = (.ok (), s')) :
    (QemuVm.issue site env step c s).carryOut site c = some s' := by
  obtain hleft | ⟨hread, -⟩ := h
  · obtain ⟨e, t, hx, -⟩ := order_left site c s hleft
    cases hx.symm.trans hrun
  · exact (order_returned hread hrun).2.2

-- Only a migration that completes halts the guest.
theorem endMigration_running {q : Qemu ρ} {w : World ρ} {poll : Poll}
    (h : poll = .completed → q.migration.isActive = false) :
    (Session.endMigration site ⟨q, w⟩ poll).qemu.vcpusRunning = q.vcpusRunning := by
  unfold Session.endMigration
  split
  · rename_i file hactive
    have hidle := h rfl
    rw [show q.migration = .active file from hactive] at hidle
    cases hidle
  · rfl
  · rfl
  · rfl

end VMForge.Engine

namespace VMForge.Hvf

open VMForge.Core Engine Exec HvfBackend

variable {ρ : Type} {site : Site ρ} {env : Env ρ} {accel : Accel}

-- The vCPUs of a process that is there run exactly when `Running` is recorded, and are halted
-- exactly when `Paused` is.
def Agrees (e : VmEntry ρ) : Prop :=
  ∀ q, e.runtime = some q → q.alive = true →
    (q.vcpusRunning = true ↔ e.state = .running) ∧ (q.vcpusRunning = false ↔ e.state = .paused)

-- What a turn meets that keeps them in agreement: no reply to an earlier command is unread, `stop`
-- and `cont` do not fail after the fact, a capture of a running guest ends with the guest running or
-- before it is halted, and no migration of an earlier capture completes under a running guest.
def Truthful (b : HvfBackend ρ) : Turn ρ → Prop
  | .call (.pause vm) env =>
      ∀ e ∈ b.vms vm, e.state = .running → ∀ q ∈ e.runtime, q.alive = true →
        env.leaves .stop = true ∨ (q.unread = [] ∧ env.answer .stop ≠ .lost)
  | .call (.resume vm) env =>
      ∀ e ∈ b.vms vm, e.state = .paused → ∀ q ∈ e.runtime, q.alive = true →
        env.leaves .cont = true ∨ (q.unread = [] ∧ env.answer .cont ≠ .lost)
  | .call (.snapshot vm parent) env =>
      ∀ e ∈ b.vms vm, Admits e parent → ∀ q ∈ e.runtime, q.alive = true →
        q.unread = [] ∧ (e.state = .running → Resumes env e.config.disks.length q)
  | .migrationEnds vm poll =>
      poll = .completed → ∀ e ∈ b.vms vm, e.state = .running → ∀ q ∈ e.runtime,
        q.alive = true → q.migration.isActive = false
  | _ => True

instance (b : HvfBackend ρ) : DecidablePred (Truthful b)
  | .call (.pause vm) env =>
      inferInstanceAs (Decidable (∀ e ∈ b.vms vm, e.state = .running → ∀ q ∈ e.runtime,
        q.alive = true → env.leaves .stop = true ∨ (q.unread = [] ∧ env.answer .stop ≠ .lost)))
  | .call (.resume vm) env =>
      inferInstanceAs (Decidable (∀ e ∈ b.vms vm, e.state = .paused → ∀ q ∈ e.runtime,
        q.alive = true → env.leaves .cont = true ∨ (q.unread = [] ∧ env.answer .cont ≠ .lost)))
  | .call (.snapshot vm parent) env =>
      inferInstanceAs (Decidable (∀ e ∈ b.vms vm, Admits e parent → ∀ q ∈ e.runtime,
        q.alive = true → q.unread = [] ∧ (e.state = .running → Resumes env e.config.disks.length q)))
  | .migrationEnds vm poll =>
      inferInstanceAs (Decidable (poll = .completed → ∀ e ∈ b.vms vm, e.state = .running →
        ∀ q ∈ e.runtime, q.alive = true → q.migration.isActive = false))
  | .call (.create _) _ | .call (.boot _) _ | .call (.stop _) _ | .call (.restore _ _) _
  | .call (.delete _) _ | .call (.state _) _ | .guest _ _ | .session _ => isTrue trivial

section Moves

variable {e : VmEntry ρ} {w : World ρ} {m : Machine ρ} (h : Agrees e)
include h

omit h in
theorem Agrees.gone (e : VmEntry ρ) (hq : e.runtime = none) : Agrees e := by
  intro q hq' _
  rw [hq] at hq'
  cases hq'

-- A process that comes to run under `Running`.
omit h in
theorem Agrees.running {s : Session ρ} (e : VmEntry ρ) (hs : s.qemu.alive = true → s.qemu.vcpusRunning = true) :
    Agrees ((e.setRuntime (some s.qemu)).setState .running) := by
  intro q hq halive
  cases hq
  simp [hs halive]

omit h in
theorem Agrees.paused {s : Session ρ} (e : VmEntry ρ)
    (hs : s.qemu.alive = true → s.qemu.vcpusRunning = false) :
    Agrees ((e.setRuntime (some s.qemu)).setState .paused) := by
  intro q hq halive
  cases hq
  simp [hs halive]

-- A process that runs as it did.
theorem Agrees.keep {q : Qemu ρ} {s : Session ρ} (hq : e.runtime = some q)
    (hdead : StaysDead ⟨q, w⟩ s)
    (hs : s.qemu.alive = true → s.qemu.vcpusRunning = q.vcpusRunning) :
    Agrees (e.setRuntime (some s.qemu)) := by
  intro q' hq' halive
  cases hq'
  have hthere : q.alive = true := hdead.there halive
  rw [hs halive]
  exact h q hq hthere

omit h in
theorem cont_runs {s s' : Session ρ} (hread : s.qemu.unread = [])
    (hrun : QemuVm.cont site env s = (.ok (), s')) : s'.qemu.vcpusRunning = true := by
  obtain ⟨-, -, hdo⟩ := order_returned hread hrun
  cases hdo
  rfl

theorem Booted.agrees {r : Except HvError Unit} (hspec : Booted site env accel e w r m) :
    Agrees m.entry := by
  cases hspec with
  | rejected _ _ | uninvocable _ _ | unspawned _ _ _ _ _ | dropped _ _ _ _ _ _ _ _ => exact h
  | done inv q w' s _ _ hspawn hcont =>
      obtain ⟨rfl, -⟩ := spawn_ok hspawn
      exact Agrees.running e fun _ => cont_runs rfl hcont

theorem Stopped.agrees {r : Except HvError Unit} (hspec : Stopped site env e w r m) :
    Agrees m.entry := by
  cases hspec with
  | rejected _ _ => exact h
  | failed _ _ _ _ => exact Agrees.gone _ rfl
  | done _ _ _ => exact Agrees.gone _ rfl

theorem Restored.agrees {id : SnapshotId} {r : Except HvError Unit}
    (hspec : Restored site env accel id e w r m) : Agrees m.entry := by
  cases hspec with
  | rejected _ _ | unknown _ => exact h
  | unquit _ _ _ _ _ _ | unbranched _ _ _ _ _ _ _ _ | uninvocable _ _ _ _ _ _ _ _ _ _
  | unlaunched _ _ _ _ _ _ _ _ _ _ _ _ _ => exact Agrees.gone _ rfl
  | done a overlays inv q w₁ w₂ w₃ _ _ _ _ _ hlaunch =>
      cases hlaunch with
      | done q₀ w₀ s s' hspawn hload hcont =>
          obtain ⟨rfl, -⟩ := spawn_ok hspawn
          exact Agrees.running _ fun _ => cont_runs (hears_restoreIncoming rfl hload) hcont

theorem pause_agrees {r : Except HvError Unit}
    (ht : e.state = .running → ∀ q ∈ e.runtime, q.alive = true →
      env.leaves .stop = true ∨ (q.unread = [] ∧ env.answer .stop ≠ .lost))
    (hspec : Commanded .pause (QemuVm.pause site env) e w r m) : Agrees m.entry := by
  have hdead : Keeps StaysDead (QemuVm.pause site env) :=
    (staysDead_frame site).order trivial fun _ _ => carryOut_dead
  cases hspec with
  | rejected _ _ | absent _ _ => exact h
  | failed n q err s hstate hq hrun =>
      obtain ⟨hrunning, -⟩ := VmState.transition_pause.mp hstate
      refine h.keep hq (hdead.error hrun) fun halive => ?_
      have hthere : q.alive = true := (hdead.error hrun).there halive
      exact order_failed (ht hrunning q hq hthere) hrun halive
  | done n q s hstate hq hrun =>
      obtain ⟨hrunning, hn⟩ := VmState.transition_pause.mp hstate
      obtain rfl := Option.some.inj hn
      refine Agrees.paused e fun halive => ?_
      have hdo := order_carried (ht hrunning q hq ((hdead.ok hrun).there halive)) hrun
      simp only [Session.carryOut] at hdo
      split at hdo
      · cases hdo
        rfl
      · rename_i hhalted
        cases hdo
        exact Bool.eq_false_iff.mpr hhalted

theorem resume_agrees {r : Except HvError Unit}
    (ht : e.state = .paused → ∀ q ∈ e.runtime, q.alive = true →
      env.leaves .cont = true ∨ (q.unread = [] ∧ env.answer .cont ≠ .lost))
    (hspec : Commanded .resume (QemuVm.cont site env) e w r m) : Agrees m.entry := by
  have hdead : Keeps StaysDead (QemuVm.cont site env) :=
    (staysDead_frame site).order trivial fun _ _ => carryOut_dead
  cases hspec with
  | rejected _ _ | absent _ _ => exact h
  | failed n q err s hstate hq hrun =>
      obtain ⟨hpaused, -⟩ := VmState.transition_resume.mp hstate
      refine h.keep hq (hdead.error hrun) fun halive => ?_
      have hthere : q.alive = true := (hdead.error hrun).there halive
      exact order_failed (ht hpaused q hq hthere) hrun halive
  | done n q s hstate hq hrun =>
      obtain ⟨hpaused, hn⟩ := VmState.transition_resume.mp hstate
      obtain rfl := Option.some.inj hn
      refine Agrees.running e fun halive => ?_
      have hdo := order_carried (ht hpaused q hq ((hdead.ok hrun).there halive)) hrun
      cases hdo
      rfl

-- A capture leaves the vCPUs as it found them.
theorem capture_agrees (hshape : Shaped e) {q : Qemu ρ} {s : Session ρ}
    {r : Except HvError SnapshotId} (hq : e.runtime = some q)
    (ht : q.alive = true →
      q.unread = [] ∧ (e.state = .running → Resumes env e.config.disks.length q))
    (hrun : capture site env e ⟨q, w⟩ = (r, s)) : Agrees (e.setRuntime (some s.qemu)) := by
  have hdead : StaysDead ⟨q, w⟩ s := by
    have hkeeps := (staysDead_frame site).snapshot env (diskNodes e) e.dir
      (snapTag (e.snapshotSeq + 1)) (fun _ => trivial) (fun _ _ _ => carryOut_dead)
      endMigration_dead ⟨q, w⟩
    rw [capture] at hrun
    rwa [hrun] at hkeeps
  refine h.keep hq hdead fun halive => ?_
  have hthere : q.alive = true := hdead.there halive
  obtain ⟨hread, hresumes⟩ := ht hthere
  cases hv : q.vcpusRunning with
  | false => exact snapshot_halted (s := ⟨q, w⟩) hread hv hrun
  | true =>
      have hrunning : e.state = .running := ((h q hq hthere).1.mp hv)
      exact snapshot_resumes (s := ⟨q, w⟩) (snapNode_ne_nodeName _) hread hv
        (hshape.chains q hq hread) (hresumes hrunning) hrun halive

theorem Captured.agrees (hshape : Shaped e) {parent : Option SnapshotId}
    {r : Except HvError SnapshotId}
    (ht : Admits e parent → ∀ q ∈ e.runtime, q.alive = true →
      q.unread = [] ∧ (e.state = .running → Resumes env e.config.disks.length q))
    (hspec : Captured site env parent e w r m) : Agrees m.entry := by
  cases hspec with
  | orphaned _ _ _ | rejected _ _ => exact h
  | absent _ _ hq => exact Agrees.gone _ hq
  | failed q err s hstate hknown hq hrun =>
      exact capture_agrees h hshape hq (ht (admits_of hstate hknown) q hq) hrun
  | done q id s hstate hknown hq hrun =>
      exact capture_agrees h hshape hq (ht (admits_of hstate hknown) q hq) hrun

end Moves

theorem agrees_turn {b : HvfBackend ρ} {t : Turn ρ} (hshape : ∀ vm e, b.vms vm = some e → Shaped e)
    (hb : ∀ vm e, b.vms vm = some e → Agrees e) (ht : Truthful b t) :
    ∀ vm e, (b.turn site t).vms vm = some e → Agrees e := by
  refine entries_turn hb (fun _ _ => Agrees.gone _ rfl) fun vm e m he hmove => ?_
  have h := hb vm e he
  cases hmove with
  | idle _ => exact h
  | acted acts q hq =>
      exact h.keep hq (fun hd => Session.during_dead site acts hd) fun _ =>
        Session.during_vcpusRunning site _ acts
  | migrated poll q hq =>
      refine h.keep hq (fun hd => endMigration_dead _ poll hd) fun halive => ?_
      have hthere : q.alive = true := (endMigration_dead ⟨q, b.world⟩ poll).there halive
      cases hv : q.vcpusRunning with
      | false => exact endMigration_halted ⟨q, b.world⟩ poll hv
      | true =>
          have hrunning : e.state = .running := (h q hq hthere).1.mp hv
          exact (endMigration_running fun hp => ht hp e he hrunning q hq hthere).trans hv
  | boot _ hspec => exact hspec.agrees h
  | pause _ hspec => exact pause_agrees h (ht e he) hspec
  | resume _ hspec => exact resume_agrees h (ht e he) hspec
  | stop _ hspec => exact hspec.agrees h
  | snapshot _ _ hspec => exact hspec.agrees h (hshape vm e he) (ht e he)
  | restore _ _ hspec => exact hspec.agrees h

-- So does a late reply: the last capture takes the one to `cont` for the status of the guest.
example :
    ∃ e ∈ (after (turn Sample.site) (new .tcg Sample.files) (Sample.calls
      [(.create Sample.config, []), (.boot "web", []),
        (.snapshot "web" none, [(.queryStatus 0, .lost)]), (.pause "web", []),
        (.resume "web", []), (.snapshot "web" none, [])])).vms "web",
      ∃ q ∈ e.runtime, q.alive = true ∧ e.state = .running ∧ q.runState = .postmigrate := by
  decide +kernel

end VMForge.Hvf
