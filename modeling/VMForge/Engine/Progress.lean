import VMForge.Engine.Chains

namespace VMForge.Engine

open VMForge.Core Exec

variable {ρ : Type} {site : Site ρ} {env : Env ρ} {s s' : Session ρ}

def Act.isExit : Act ρ → Bool
  | .exit => true
  | _ => false

namespace Env

-- QEMU exits while a call waits for this step.
def leaves (env : Env ρ) (step : Step) : Bool := (env.acts step).any Act.isExit

-- QEMU stays, and does as asked.
def Serves (env : Env ρ) (step : Step) : Prop := env.leaves step = false ∧ env.answer step = .done

instance (env : Env ρ) (step : Step) : Decidable (env.Serves step) :=
  inferInstanceAs (Decidable (_ ∧ _))

-- The steps are done one after the other, to the last or until QEMU exits.
def Passes (env : Env ρ) : List Step → Prop → Prop
  | [], rest => rest
  | step :: steps, rest =>
      env.leaves step = true ∨ (env.answer step = .done ∧ env.Passes steps rest)

-- A migration is asked about until it has completed, or until QEMU exits.
def PollsPass (env : Env ρ) : List Poll → Nat → Prop → Prop
  | [], poll, _ => env.leaves (.queryMigrate poll) = true
  | p :: polls, poll, rest =>
      env.leaves (.queryMigrate poll) = true ∨
        (env.answer (.queryMigrate poll) = .done ∧
          match p with
          | .active => env.PollsPass polls (poll + 1) rest
          | .completed => rest
          | .failed => False
          | .cancelled => False)

-- The loading of a state is asked about until it is loaded.
def LoadsPass (env : Env ρ) : List Load → Nat → Prop
  | [], _ => False
  | l :: loads, poll =>
      env.Serves (.queryStatus poll) ∧
        match l with
        | .loading => env.LoadsPass loads (poll + 1)
        | .loaded => True
        | .failed => False

instance passesDecidable (env : Env ρ) : (steps : List Step) → (rest : Prop) → [Decidable rest] →
    Decidable (env.Passes steps rest)
  | [], _, h => h
  | _ :: steps, rest, _ =>
      have := passesDecidable env steps rest
      inferInstanceAs (Decidable (_ ∨ (_ ∧ env.Passes steps rest)))

instance pollsPassDecidable (env : Env ρ) : (polls : List Poll) → (poll : Nat) → (rest : Prop) →
    [Decidable rest] → Decidable (env.PollsPass polls poll rest)
  | [], _, _, _ => inferInstanceAs (Decidable (_ = true))
  | .active :: polls, poll, rest, _ =>
      have := pollsPassDecidable env polls (poll + 1) rest
      inferInstanceAs (Decidable (_ ∨ (_ ∧ env.PollsPass polls (poll + 1) rest)))
  | .completed :: _, _, rest, _ => inferInstanceAs (Decidable (_ ∨ (_ ∧ rest)))
  | .failed :: _, _, _, _ => inferInstanceAs (Decidable (_ ∨ (_ ∧ False)))
  | .cancelled :: _, _, _, _ => inferInstanceAs (Decidable (_ ∨ (_ ∧ False)))

instance loadsPassDecidable (env : Env ρ) : (loads : List Load) → (poll : Nat) →
    Decidable (env.LoadsPass loads poll)
  | [], _ => inferInstanceAs (Decidable False)
  | .loading :: loads, poll =>
      have := loadsPassDecidable env loads (poll + 1)
      inferInstanceAs (Decidable (_ ∧ env.LoadsPass loads (poll + 1)))
  | .loaded :: _, _ => inferInstanceAs (Decidable (_ ∧ True))
  | .failed :: _, _ => inferInstanceAs (Decidable (_ ∧ False))

theorem passes_append (env : Env ρ) (steps steps' : List Step) (rest : Prop) :
    env.Passes (steps ++ steps') rest ↔ env.Passes steps (env.Passes steps' rest) := by
  induction steps with
  | nil => exact Iff.rfl
  | cons step steps ih => simp only [List.cons_append, Passes, ih]

end Env

theorem Session.act_alive (a : Act ρ) :
    (s.act site a).qemu.alive = (s.qemu.alive && !a.isExit) := by
  cases a <;> simp only [act, Act.isExit] <;> (try split) <;> (try split) <;> simp

theorem Session.during_alive (s : Session ρ) (acts : List (Act ρ)) :
    (s.during site acts).qemu.alive = (s.qemu.alive && !acts.any Act.isExit) := by
  induction acts generalizing s with
  | nil => simp [during]
  | cons a acts ih =>
      have hstep : s.during site (a :: acts) = (s.act site a).during site acts := rfl
      rw [hstep, ih, act_alive, List.any_cons, Bool.not_or, Bool.and_assoc]

-- A process is there for a command unless it has exited before.
theorem issue_alive (step : Step) (c : Command) :
    (QemuVm.issue site env step c s).qemu.alive = (s.qemu.alive && !env.leaves step) :=
  s.during_alive _

-- A command that reaches QEMU and that QEMU can carry out returns.
theorem execute_served (site : Site ρ) {step : Step} (c : Command) (halive : s.qemu.alive = true)
    (hread : s.qemu.unread = []) (h : env.Serves step)
    (hdo : (QemuVm.issue site env step c s).carryOut site c = some s') :
    QemuVm.execute site env step c s = (.ok (s'.qemu.status c), s') ∧ s'.qemu.unread = [] := by
  have hissue : (QemuVm.issue site env step c s).qemu.alive = true := by
    rw [issue_alive, halive, h.1]
    rfl
  cases hx : QemuVm.execute site env step c s with
  | mk r t =>
      cases execute_cases hread hx with
      | done _ _ _ hdo' hread' =>
          obtain rfl := Option.some.inj (hdo.symm.trans hdo')
          exact ⟨rfl, hread'⟩
      | lost _ _ _ _ hanswer _ =>
          rw [h.2] at hanswer
          cases hanswer
      | refused _ _ hwhy =>
          obtain hidle | hnone := hwhy hissue
          · rw [h.2] at hidle
            cases hidle
          · rw [hnone] at hdo
            cases hdo

theorem order_served (site : Site ρ) {step : Step} (c : Command) (halive : s.qemu.alive = true)
    (hread : s.qemu.unread = []) (h : env.Serves step)
    (hdo : (QemuVm.issue site env step c s).carryOut site c = some s') :
    QemuVm.order site env step c s = (.ok (), s') ∧ s'.qemu.unread = [] := by
  obtain ⟨hx, hread'⟩ := execute_served site c halive hread h hdo
  exact ⟨bind_of_ok hx, hread'⟩

-- A command that finds QEMU gone fails, and QEMU stays away.
theorem execute_left (site : Site ρ) {step : Step} (c : Command) (s : Session ρ)
    (h : env.leaves step = true) :
    ∃ e s', QemuVm.execute site env step c s = (.error e, s') ∧ s'.qemu.alive = false := by
  have hissue : (QemuVm.issue site env step c s).qemu.alive = false := by
    rw [issue_alive, h]
    simp
  refine ⟨.io "Broken pipe (os error 32)", _, ?_, hissue⟩
  simp only [QemuVm.execute, hissue]
  rfl

theorem order_left (site : Site ρ) {step : Step} (c : Command) (s : Session ρ)
    (h : env.leaves step = true) :
    ∃ e s', QemuVm.order site env step c s = (.error e, s') ∧ s'.qemu.alive = false := by
  obtain ⟨e, s', hx, hdead⟩ := execute_left site c s h
  exact ⟨e, s', bind_of_error hx, hdead⟩

-- A command that returned found QEMU there and was done.
theorem execute_returned {step : Step} {c : Command} {a : String} (hread : s.qemu.unread = [])
    (h : QemuVm.execute site env step c s = (.ok a, s')) :
    s.qemu.alive = true ∧ env.Serves step ∧
      (QemuVm.issue site env step c s).carryOut site c = some s' ∧ a = s'.qemu.status c := by
  cases execute_cases hread h with
  | done _ halive hanswer hdo _ =>
      rw [issue_alive, Bool.and_eq_true, Bool.not_eq_true'] at halive
      exact ⟨halive.1, ⟨halive.2, hanswer⟩, hdo, rfl⟩

theorem order_returned {step : Step} {c : Command} {u : Unit} (hread : s.qemu.unread = [])
    (h : QemuVm.order site env step c s = (.ok u, s')) :
    s.qemu.alive = true ∧ env.Serves step ∧
      (QemuVm.issue site env step c s).carryOut site c = some s' := by
  obtain ⟨a, t, hx, hend⟩ := bind_eq_ok.mp h
  obtain ⟨-, rfl⟩ := pure_eq_ok.mp hend
  obtain ⟨halive, hserves, hdo, -⟩ := execute_returned hread hx
  exact ⟨halive, hserves, hdo⟩

theorem status_served {poll : Nat} (halive : s.qemu.alive = true) (hread : s.qemu.unread = [])
    (h : env.Serves (.queryStatus poll)) : QemuVm.status site env poll s =
      (.ok s.qemu.runState.text, QemuVm.issue site env (.queryStatus poll) .queryStatus s) := by
  unfold QemuVm.status
  rw [(execute_served site .queryStatus halive hread h rfl).1]
  simp only [Qemu.status, issue_runState]

theorem queryMigrate_served {poll : Nat} (halive : s.qemu.alive = true)
    (hread : s.qemu.unread = []) (h : env.Serves (.queryMigrate poll)) :
    QemuVm.queryMigrate site env poll s =
      (.ok s.qemu.migration.text, QemuVm.issue site env (.queryMigrate poll) .queryMigrate s) := by
  unfold QemuVm.queryMigrate
  rw [(execute_served site .queryMigrate halive hread h rfl).1]
  simp only [Qemu.status, issue_migration]

theorem text_running (r : RunState) : (r.text == "running") = (r == .running) := by
  cases r <;> decide

-- What a capture needs to come to its first overlay.
def Begins (env : Env ρ) (q : Qemu ρ) : Prop :=
  q.alive = true ∧ env.Serves (.queryStatus 0) ∧ (q.vcpusRunning = true → env.Serves .stop)

instance (env : Env ρ) (q : Qemu ρ) : Decidable (Begins env q) :=
  inferInstanceAs (Decidable (_ ∧ _ ∧ _))

-- A capture that comes to its first overlay has found out whether the guest is running, and has
-- halted it.
theorem beginCapture_returned {wasRunning : Bool} (hread : s.qemu.unread = [])
    (h : beginCapture site env s = (.ok wasRunning, s')) :
    Begins env s.qemu ∧ wasRunning = s.qemu.vcpusRunning ∧ s'.qemu.alive = true ∧
      s'.qemu.vcpusRunning = false := by
  unfold beginCapture at h
  obtain ⟨a, t, hquery, h⟩ := bind_eq_ok.mp h
  obtain ⟨halive, hserves, hdo, ha⟩ := execute_returned hread hquery
  have hread' : t.qemu.unread = [] := hears_execute hread hquery
  cases hdo
  have hstatus : (a == "running") = s.qemu.vcpusRunning := by
    rw [ha, Qemu.status, text_running, issue_runState]
    rfl
  have hthere : (QemuVm.issue site env (.queryStatus 0) .queryStatus s).qemu.alive = true := by
    rw [issue_alive, halive, hserves.1]
    rfl
  rw [hstatus] at h
  obtain ⟨u', t', hstop, hend⟩ := bind_eq_ok.mp h
  obtain ⟨rfl, rfl⟩ := pure_eq_ok.mp hend
  cases hr : s.qemu.vcpusRunning with
  | false =>
      rw [hr] at hstop
      obtain ⟨-, rfl⟩ := pure_eq_ok.mp hstop
      refine ⟨⟨halive, hserves, fun hv => ?_⟩, rfl, hthere, ?_⟩
      · rw [hr] at hv
        cases hv
      · rw [issue_vcpusRunning, hr]
  | true =>
      rw [hr] at hstop
      obtain ⟨-, hserves', hdo⟩ := order_returned hread' hstop
      have hstopped : t'.qemu.alive = true ∧ t'.qemu.vcpusRunning = false := by
        simp only [Session.carryOut, issue_vcpusRunning, hr, if_true, Option.some.injEq] at hdo
        subst hdo
        refine ⟨?_, rfl⟩
        show (QemuVm.issue site env .stop .stop _).qemu.alive = true
        rw [issue_alive, hthere, hserves'.1]
        rfl
      exact ⟨⟨halive, hserves, fun _ => hserves'⟩, rfl, hstopped⟩

-- Nothing but these steps can keep a capture from its first overlay.
theorem beginCapture_served (site : Site ρ) (hread : s.qemu.unread = []) (h : Begins env s.qemu) :
    ∃ t, beginCapture site env s = (.ok s.qemu.vcpusRunning, t) := by
  obtain ⟨halive, hstatus, hstop⟩ := h
  have hthere : (QemuVm.issue site env (.queryStatus 0) .queryStatus s).qemu.alive = true := by
    rw [issue_alive, halive, hstatus.1]
    rfl
  have hread' : (QemuVm.issue site env (.queryStatus 0) .queryStatus s).qemu.unread = [] :=
    (issue_unread site env _ _ s).trans hread
  unfold beginCapture
  have hrunning : (s.qemu.runState == .running) = s.qemu.vcpusRunning := rfl
  rw [bind_of_ok (status_served halive hread hstatus), text_running, hrunning]
  cases hr : s.qemu.vcpusRunning with
  | false => exact ⟨_, rfl⟩
  | true =>
      have hdo : ∃ t, (QemuVm.issue site env .stop .stop
          (QemuVm.issue site env (.queryStatus 0) .queryStatus s)).carryOut site .stop =
          some t := by
        simp only [Session.carryOut, issue_vcpusRunning, hr, if_true]
        exact ⟨_, rfl⟩
      obtain ⟨t, hcarry⟩ := hdo
      have hrun : runIf true (QemuVm.pause site env)
          (QemuVm.issue site env (.queryStatus 0) .queryStatus s) = (.ok (), t) :=
        (order_served site _ hthere hread' (hstop hr) hcarry).1
      exact ⟨t, by rw [bind_of_ok hrun]; rfl⟩

-- The pause window of a capture: the overlays, disk by disk, and the saved state.
def saveState (site : Site ρ) (env : Env ρ) (stateFile : String) : Exec (Session ρ) HvError Unit := do
  QemuVm.order site env .migrate (.migrate stateFile)
  QemuVm.waitMigration site env env.polls 0

def freeze (site : Site ρ) (env : Env ρ) (n : Nat) (stateDir tag : String) :
    Exec (Session ρ) HvError (List String) := do
  let overlays ← mapEach (List.range n) (syncDisk site env stateDir tag)
  saveState site env (join stateDir (QemuVm.stateName tag))
  pure overlays

-- The end of a capture: the guest goes on if it ran, and the saved state is hashed.
def endCapture (site : Site ρ) (env : Env ρ) (stateFile : String) (wasRunning : Bool)
    (overlays : List String) : Exec (Session ρ) HvError SnapshotId := do
  runIf wasRunning (QemuVm.cont site env)
  let state ← QemuVm.readState site env stateFile
  pure ⟨site.digest state overlays⟩

theorem snapshot_phases (n : Nat) (stateDir tag : String) :
    QemuVm.snapshot site env ((List.range n).map nodeName) stateDir tag =
      (beginCapture site env >>= fun wasRunning =>
        freeze site env n stateDir tag >>= fun overlays =>
          endCapture site env (join stateDir (QemuVm.stateName tag)) wasRunning overlays) := by
  have hpure : ∀ (os : List String) (f : List String → Exec (Session ρ) HvError SnapshotId),
      ((pure os : Exec (Session ρ) HvError (List String)) >>= f) = f os := fun _ _ => rfl
  rw [snapshot_eq]
  simp only [finishCapture, freeze, saveState, endCapture, Exec.bind_assoc, hpure]

theorem hears_saveState {file : String} : Hears (saveState site env file) :=
  hears_bind hears_order fun _ => hears_waitMigration _ _

theorem hears_freeze {n : Nat} {stateDir tag : String} : Hears (freeze site env n stateDir tag) :=
  hears_bind (hears_mapEach hears_syncDisk) fun _ =>
    hears_bind hears_saveState fun _ => hears_pure _

section Frames

variable {allowed : Command → Prop} {R : Session ρ → Session ρ → Prop} (F : Frame site allowed R)
  {stateDir tag : String}
include F

theorem syncLoop_keeps (hc : ∀ node file snap, allowed (.blockdevSnapshotSync node file snap))
    (hdo : ∀ node file snap s s',
      s.carryOut site (.blockdevSnapshotSync node file snap) = some s' → R s s')
    (disks : List Nat) : Keeps R (mapEach disks (syncDisk site env stateDir tag)) :=
  keeps_mapEach F.trans F.refl fun _ _ =>
    keeps_bind F.trans (F.order (hc _ _ _) (hdo _ _ _)) fun _ => keeps_pure F.refl _

theorem saveState_keeps {file : String} (hmigrate : allowed (.migrate file))
    (hquery : allowed .queryMigrate)
    (hdo : ∀ s s', s.carryOut site (.migrate file) = some s' → R s s')
    (hend : ∀ s p, R s (s.endMigration site p)) : Keeps R (saveState site env file) :=
  keeps_bind F.trans (F.order hmigrate hdo) fun _ => F.waitMigration hquery hend _ _

theorem freeze_keeps (env : Env ρ) (n : Nat) (stateDir tag : String)
    (hc : ∀ node file snap, allowed (.blockdevSnapshotSync node file snap))
    (hmigrate : ∀ file, allowed (.migrate file)) (hquery : allowed .queryMigrate)
    (hdo : ∀ c s s', c ≠ .cont → s.carryOut site c = some s' → R s s')
    (hend : ∀ s p, R s (s.endMigration site p)) : Keeps R (freeze site env n stateDir tag) :=
  keeps_bind F.trans (syncLoop_keeps F hc (fun _ _ _ _ _ => hdo _ _ _ (by simp)) _) fun _ =>
    keeps_bind F.trans
      (saveState_keeps F (hmigrate _) hquery (fun _ _ => hdo _ _ _ (by simp)) hend) fun _ =>
      keeps_pure F.refl _

theorem endCapture_keeps (env : Env ρ) (file : String) (hcont : allowed .cont)
    (hdo : ∀ s s', s.carryOut site .cont = some s' → R s s') (wasRunning : Bool)
    (overlays : List String) : Keeps R (endCapture site env file wasRunning overlays) :=
  keeps_bind F.trans (keeps_runIf F.refl (F.order hcont hdo)) fun _ =>
    keeps_bind F.trans (F.readState _ _) fun _ => keeps_pure F.refl _

end Frames

def Migration.isActive : Migration → Bool
  | .active _ => true
  | _ => false

-- What the pause window of a capture of `n` disks needs to come to its end, or to the exit of
-- QEMU: no other migration may be under way.
def GoesThrough (env : Env ρ) (n : Nat) (q : Qemu ρ) (rest : Prop) : Prop :=
  env.Passes ((List.range n).map .sync ++ [.migrate])
    (q.migration.isActive = false ∧ env.PollsPass env.polls 0 rest)

instance (env : Env ρ) (n : Nat) (q : Qemu ρ) (rest : Prop) [Decidable rest] :
    Decidable (GoesThrough env n q rest) :=
  inferInstanceAs (Decidable (env.Passes _ _))

section Passing

variable {rest : Prop} {stateDir tag : String} {ds : List Disk} {n : Nat}

theorem queryMigrate_left (site : Site ρ) {poll : Nat} (s : Session ρ)
    (h : env.leaves (.queryMigrate poll) = true) :
    ∃ e s', QemuVm.queryMigrate site env poll s = (.error e, s') ∧ s'.qemu.alive = false :=
  execute_left site .queryMigrate s h

theorem issue_stays {step : Step} {c : Command} (halive : s.qemu.alive = true)
    (h : env.leaves step = false) : (QemuVm.issue site env step c s).qemu.alive = true := by
  rw [issue_alive, halive, h]
  rfl

-- The wait for a migration that passes ends with the saved state, or with QEMU gone.
theorem waitMigration_passes {file : String} (polls : List Poll) : ∀ (poll : Nat)
    (s : Session ρ), s.qemu.alive = true → s.qemu.unread = [] → s.qemu.migration = .active file →
    env.PollsPass polls poll rest → ∀ {r : Except HvError Unit} {s' : Session ρ},
    QemuVm.waitMigration site env polls poll s = (r, s') →
    s'.qemu.alive = false ∨ (r = .ok () ∧ rest ∧ s'.qemu.alive = true ∧
      s'.qemu.vcpusRunning = false ∧
      ∃ state, s'.world.files (site.locate file) = some (.ram (some state))) := by
  induction polls with
  | nil =>
      intro poll s _ _ _ hpass r s' h
      obtain ⟨e, t, hquery, hdead⟩ := queryMigrate_left site s hpass
      rw [QemuVm.waitMigration, bind_of_error hquery] at h
      cases h
      exact Or.inl hdead
  | cons p polls ih =>
      intro poll s halive hread hactive hpass r s' h
      have hputs : ∀ (x : Exec (Session ρ) HvError Unit),
          ((do let s ← read; put (s.endMigration site p); x) : Exec (Session ρ) HvError Unit) s =
            x (s.endMigration site p) := fun _ => rfl
      rw [QemuVm.waitMigration, hputs] at h
      cases hleaves : env.leaves (.queryMigrate poll) with
      | true =>
          obtain ⟨e, t, hquery, hdead⟩ :=
            queryMigrate_left site (s.endMigration site p) hleaves
          rw [bind_of_error hquery] at h
          cases h
          exact Or.inl hdead
      | false =>
          obtain hleft | ⟨hanswer, hpoll⟩ := hpass
          · rw [hleaves] at hleft
            cases hleft
          · cases p with
            | failed | cancelled => exact absurd hpoll id
            | active =>
                have hsame : s.endMigration site .active = s := by
                  simp only [Session.endMigration, hactive]
                rw [hsame, bind_of_ok (queryMigrate_served halive hread ⟨hleaves, hanswer⟩),
                  hactive] at h
                exact ih (poll + 1) _ (issue_stays halive hleaves)
                  ((issue_unread site env _ _ s).trans hread)
                  ((issue_migration site env _ _ s).trans hactive) hpoll h
            | completed =>
                have hend : s.endMigration site .completed =
                    ⟨{ s.qemu with migration := .completed, runState := .postmigrate },
                      s.world.put (site.locate file) (.ram (some s.qemu.ram))⟩ := by
                  simp only [Session.endMigration, hactive]
                have hthere : (s.endMigration site .completed).qemu.alive = true := by
                  rw [hend]
                  exact halive
                have hhalted : (s.endMigration site .completed).qemu.vcpusRunning = false := by
                  rw [hend]
                  rfl
                have hcompleted : (s.endMigration site .completed).qemu.migration = .completed := by
                  rw [hend]
                have hread' := (endMigration_unread site s .completed).trans hread
                rw [bind_of_ok (queryMigrate_served hthere hread' ⟨hleaves, hanswer⟩),
                  hcompleted] at h
                cases h
                refine Or.inr ⟨rfl, hpoll, issue_stays hthere hleaves,
                  (issue_vcpusRunning site env _ _ _).trans hhalted, s.qemu.ram, ?_⟩
                rw [issue_files, (Session.during_halted site _ hhalted).1, hend]
                exact World.put_files_self _ _ _

theorem saveState_passes {file : String} (halive : s.qemu.alive = true)
    (hread : s.qemu.unread = [])
    (h : env.Passes [.migrate]
      (s.qemu.migration.isActive = false ∧ env.PollsPass env.polls 0 rest))
    {r : Except HvError Unit} (hrun : saveState site env file s = (r, s')) :
    s'.qemu.alive = false ∨ (r = .ok () ∧ rest ∧ s'.qemu.alive = true ∧
      s'.qemu.vcpusRunning = false ∧
      ∃ state, s'.world.files (site.locate file) = some (.ram (some state))) := by
  unfold saveState at hrun
  cases hleaves : env.leaves .migrate with
  | true =>
      obtain ⟨e, t, hmigrate, hdead⟩ :=
        order_left site (.migrate file) s hleaves
      rw [bind_of_error hmigrate] at hrun
      cases hrun
      exact Or.inl hdead
  | false =>
      obtain hleft | ⟨hanswer, hidle, hpolls⟩ := h
      · rw [hleaves] at hleft
        cases hleft
      · have hdo : (QemuVm.issue site env .migrate (.migrate file) s).carryOut site
            (.migrate file) = some
            ⟨{ (QemuVm.issue site env .migrate (.migrate file) s).qemu with migration := .active file },
              (QemuVm.issue site env .migrate (.migrate file) s).world.put (site.locate file)
                (.ram none)⟩ := by
          simp only [Session.carryOut, issue_migration]
          split
          · rename_i f hactive
            rw [hactive] at hidle
            cases hidle
          · rfl
        obtain ⟨hmigrate, hread'⟩ := order_served site _ halive hread ⟨hleaves, hanswer⟩ hdo
        rw [bind_of_ok hmigrate] at hrun
        have hthere : (QemuVm.issue site env .migrate (.migrate file) s).qemu.alive = true :=
          issue_stays halive hleaves
        refine waitMigration_passes env.polls 0 _ ?_ hread' rfl hpolls hrun
        exact hthere

theorem syncDisk_left (site : Site ρ) (stateDir tag : String) {k : Nat} (s : Session ρ)
    (h : env.leaves (.sync k) = true) :
    ∃ e s', syncDisk site env stateDir tag k s = (.error e, s') ∧ s'.qemu.alive = false := by
  obtain ⟨e, s', hx, hdead⟩ := order_left site (.blockdevSnapshotSync (nodeName k)
    (overlayBlock stateDir tag k).file (overlayBlock stateDir tag k).node) s h
  exact ⟨e, s', bind_of_error hx, hdead⟩

variable (htag : ∀ i j, s!"{tag}-{nodeName i}" ≠ nodeName j)
include htag

theorem syncDisk_served (hplain : Plain n ds) {k : Nat} (hk : k < n)
    (hs : s.qemu.disks = switched stateDir tag k ds) (halive : s.qemu.alive = true)
    (hread : s.qemu.unread = []) (h : env.Serves (.sync k)) : ∃ s', syncDisk site env stateDir tag k s =
      (.ok (overlayBlock stateDir tag k).file, s') ∧
      s'.qemu.alive = true ∧ s'.qemu.disks = switched stateDir tag (k + 1) ds := by
  obtain ⟨d, -, hswitch⟩ := switchTop_switched htag stateDir hplain hk
  have hdo : ∃ s', (QemuVm.issue site env (.sync k) (.blockdevSnapshotSync (nodeName k)
      (overlayBlock stateDir tag k).file (overlayBlock stateDir tag k).node) s).carryOut site
      (.blockdevSnapshotSync (nodeName k) (overlayBlock stateDir tag k).file
        (overlayBlock stateDir tag k).node) = some s' ∧
      s'.qemu.alive = true ∧ s'.qemu.disks = switched stateDir tag (k + 1) ds := by
    have hnew : (⟨(overlayBlock stateDir tag k).node, (overlayBlock stateDir tag k).file⟩ : Block) =
        overlayBlock stateDir tag k := rfl
    simp only [Session.carryOut, issue_disks, hs, hnew, hswitch]
    exact ⟨_, rfl, issue_stays halive h.1, rfl⟩
  obtain ⟨s', hcarry, hthere, hdisks⟩ := hdo
  refine ⟨s', ?_, hthere, hdisks⟩
  unfold syncDisk
  rw [bind_of_ok (order_served site _ halive hread h hcarry).1]
  rfl

theorem syncDisks_passes (hplain : Plain n ds) (m : Nat) : ∀ (k : Nat) (s : Session ρ),
    k + m = n → s.qemu.disks = switched stateDir tag k ds → s.qemu.alive = true →
    s.qemu.unread = [] → env.Passes ((List.range' k m).map .sync) rest →
    ∀ {r : Except HvError (List String)} {s' : Session ρ},
      mapEach (List.range' k m) (syncDisk site env stateDir tag) s = (r, s') →
      s'.qemu.alive = false ∨ ((∃ overlays, r = .ok overlays) ∧ rest ∧ s'.qemu.alive = true) := by
  induction m with
  | zero =>
      intro k s _ _ halive _ hpass r s' h
      cases h
      exact Or.inr ⟨⟨[], rfl⟩, hpass, halive⟩
  | succ m ih =>
      intro k s hkm hs halive hread hpass r s' h
      rw [List.range'_succ, mapEach_cons] at h
      rw [List.range'_succ, List.map_cons] at hpass
      cases hleaves : env.leaves (.sync k) with
      | true =>
          obtain ⟨e, t, hx, hdead⟩ := syncDisk_left site stateDir tag s hleaves
          rw [bind_of_error hx] at h
          cases h
          exact Or.inl hdead
      | false =>
          obtain hleft | ⟨hanswer, hnext⟩ := hpass
          · rw [hleaves] at hleft
            cases hleft
          · obtain ⟨t, hx, hthere, hdisks⟩ :=
              syncDisk_served htag hplain (by omega) hs halive hread ⟨hleaves, hanswer⟩
            have hread' := hears_syncDisk k hread hx
            rw [bind_of_ok hx] at h
            rcases hrest : mapEach (List.range' (k + 1) m) (syncDisk site env stateDir tag) t
              with ⟨e | overlays, t'⟩
            · rw [bind_of_error hrest] at h
              cases h
              obtain hdead | ⟨⟨os, hos⟩, -, -⟩ :=
                ih (k + 1) t (by omega) hdisks hthere hread' hnext hrest
              · exact Or.inl hdead
              · cases hos
            · rw [bind_of_ok hrest] at h
              cases h
              obtain hdead | ⟨-, hrest', hthere'⟩ :=
                ih (k + 1) t (by omega) hdisks hthere hread' hnext hrest
              · exact Or.inl hdead
              · exact Or.inr ⟨⟨_, rfl⟩, hrest', hthere'⟩

-- A capture that goes through ends its pause window with all disks switched, or with QEMU gone.
theorem freeze_passes (hplain : Plain n s.qemu.disks) (halive : s.qemu.alive = true)
    (hread : s.qemu.unread = []) (h : GoesThrough env n s.qemu rest) {r : Except HvError (List String)}
    (hrun : freeze site env n stateDir tag s = (r, s')) :
    s'.qemu.alive = false ∨ ((∃ overlays, r = .ok overlays) ∧ rest ∧ s'.qemu.alive = true ∧
      s'.qemu.vcpusRunning = false ∧ ∃ state,
        s'.world.files (site.locate (join stateDir (QemuVm.stateName tag))) =
          some (.ram (some state))) := by
  unfold freeze at hrun
  unfold GoesThrough at h
  rw [List.range_eq_range'] at hrun h
  rw [Env.passes_append] at h
  have hzero : s.qemu.disks = switched stateDir tag 0 s.qemu.disks := by rw [switched_zero]
  rcases hloop : mapEach (List.range' 0 n) (syncDisk site env stateDir tag) s
    with ⟨e | overlays, t⟩
  · rw [bind_of_error hloop] at hrun
    cases hrun
    obtain hdead | ⟨⟨os, hos⟩, -, -⟩ :=
      syncDisks_passes htag hplain n 0 s (by omega) hzero halive hread h hloop
    · exact Or.inl hdead
    · cases hos
  · rw [bind_of_ok hloop] at hrun
    obtain hdead | ⟨-, hnext, hthere⟩ :=
      syncDisks_passes htag hplain n 0 s (by omega) hzero halive hread h hloop
    · have hsaving : Keeps StaysDead (saveState site env (join stateDir (QemuVm.stateName tag))) :=
        saveState_keeps (staysDead_frame site) trivial trivial
          (fun _ _ => carryOut_dead) endMigration_dead
      have hgone := hsaving t hdead
      rcases hsave : saveState site env (join stateDir (QemuVm.stateName tag)) t with ⟨e | u, t'⟩
      · rw [hsave] at hgone
        rw [bind_of_error hsave] at hrun
        cases hrun
        exact Or.inl hgone
      · rw [hsave] at hgone
        rw [bind_of_ok hsave] at hrun
        cases hrun
        exact Or.inl hgone
    · have hidle : t.qemu.migration = s.qemu.migration :=
        (syncLoop_keeps (sameMigration_frame site) (fun _ _ _ => trivial)
          (fun _ _ _ _ _ => carryOut_migration (by simp)) _).ok hloop
      have hread' : t.qemu.unread = [] := hears_mapEach hears_syncDisk hread hloop
      rw [← hidle] at hnext
      rcases hsave : saveState site env (join stateDir (QemuVm.stateName tag)) t with ⟨e | u, t'⟩
      · rw [bind_of_error hsave] at hrun
        cases hrun
        obtain hdead | ⟨hok, -⟩ := saveState_passes hthere hread' hnext hsave
        · exact Or.inl hdead
        · cases hok
      · rw [bind_of_ok hsave] at hrun
        cases hrun
        obtain hdead | ⟨-, hrest⟩ := saveState_passes hthere hread' hnext hsave
        · exact Or.inl hdead
        · exact Or.inr ⟨⟨_, rfl⟩, hrest⟩

end Passing

end VMForge.Engine
