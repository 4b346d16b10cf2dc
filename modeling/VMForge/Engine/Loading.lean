import VMForge.Engine.Progress

namespace VMForge.Engine

open VMForge.Core Exec

variable {ρ : Type} {site : Site ρ} {env : Env ρ} {s s' : Session ρ}

-- The saved state a path leads to.
def Files.savedState (fs : Files ρ) (p : Path) : Option ρ :=
  match fs p with
  | some (.ram state) => state
  | _ => none

theorem savedState_eq_some {fs : Files ρ} {p : Path} {state : ρ} :
    fs.savedState p = some state ↔ fs p = some (.ram (some state)) := by
  unfold Files.savedState
  split
  · rename_i state' hp
    rw [hp]
    simp
  · rename_i hno
    constructor
    · intro h
      cases h
    · intro h
      exact absurd h (hno _)

-- A process that waits for a state is halted.
theorem inmigrate_halted {q : Qemu ρ} (h : q.runState = .inmigrate) : q.vcpusRunning = false := by
  rw [Qemu.vcpusRunning, h]
  rfl

theorem load_loaded {file : String} {state : ρ}
    (h : s.world.files.savedState (site.locate file) = some state) :
    s.load site file .loaded = ⟨{ s.qemu with ram := state, runState := .paused }, s.world⟩ := by
  simp only [Session.load, savedState_eq_some.mp h]

theorem load_unsaved {file : String} (h : s.world.files.savedState (site.locate file) = none) :
    s.load site file .loaded = ⟨{ s.qemu with runState := .internalError }, s.world⟩ := by
  simp only [Session.load]
  split
  · rename_i state hp
    rw [savedState_eq_some.mpr hp] at h
    cases h
  · rfl

section Waiting

variable {file : String}

-- One turn of the loop, told by the run state it finds.
theorem waitIncoming_cons (l : Load) (loads : List Load) (poll : Nat) (s : Session ρ) :
    QemuVm.waitIncoming site env file (l :: loads) poll s =
      (QemuVm.status site env poll >>= fun status =>
        match QemuVm.incomingVerdict status with
        | some verdict => ofExcept verdict
        | none => QemuVm.waitIncoming site env file loads (poll + 1)) (s.load site file l) := rfl

-- The wait for a state that passes ends with the state loaded.
theorem waitIncoming_served {state : ρ} (loads : List Load) : ∀ (poll : Nat) (s : Session ρ),
    s.qemu.alive = true → s.qemu.unread = [] → s.qemu.runState = .inmigrate →
    s.world.files.savedState (site.locate file) = some state → env.LoadsPass loads poll →
    ∃ s', QemuVm.waitIncoming site env file loads poll s = (.ok (), s') ∧
      s'.qemu.alive = true := by
  induction loads with
  | nil =>
      intro poll s _ _ _ _ h
      exact absurd h id
  | cons l loads ih =>
      intro poll s halive hread hwaits hstate ⟨hserves, hload⟩
      rw [waitIncoming_cons]
      cases l with
      | failed => exact absurd hload id
      | loading =>
          show ∃ s', (QemuVm.status site env poll >>= _) s = _ ∧ _
          rw [bind_of_ok (status_served halive hread hserves), hwaits]
          refine ih (poll + 1) _ (issue_stays halive hserves.1)
            ((issue_unread site env _ _ s).trans hread)
            ((issue_runState site env _ _ s).trans hwaits) ?_ hload
          rw [issue_files, (Session.during_halted site _ (inmigrate_halted hwaits)).1]
          exact hstate
      | loaded =>
          rw [load_loaded hstate]
          have hthere : (⟨{ s.qemu with ram := state, runState := .paused }, s.world⟩ :
              Session ρ).qemu.alive = true := halive
          rw [bind_of_ok (status_served hthere hread hserves)]
          exact ⟨_, rfl, issue_stays hthere hserves.1⟩

-- A wait that returned has loaded what the path led to all the while.
theorem waitIncoming_returned (loads : List Load) : ∀ (poll : Nat) (s : Session ρ),
    s.qemu.unread = [] → s.qemu.runState = .inmigrate → ∀ {u : Unit} {s' : Session ρ},
    QemuVm.waitIncoming site env file loads poll s = (.ok u, s') →
    s.world.files.savedState (site.locate file) = some s'.qemu.ram ∧
      s'.world.files = s.world.files ∧ s'.qemu.vcpusRunning = false := by
  have hstatus : ∀ {t : Session ρ} {poll : Nat} {a : String} {t' : Session ρ},
      t.qemu.unread = [] → QemuVm.status site env poll t = (.ok a, t') →
      a = t.qemu.runState.text ∧ t' = QemuVm.issue site env (.queryStatus poll) .queryStatus t := by
    intro t poll a t' hread h
    obtain ⟨-, -, hdo, ha⟩ := execute_returned hread h
    cases hdo
    exact ⟨ha.trans (congrArg RunState.text (issue_runState site env _ _ t)), rfl⟩
  induction loads with
  | nil =>
      intro poll s hread hwaits u s' h
      rw [QemuVm.waitIncoming] at h
      obtain ⟨a, t, hquery, hverdict⟩ := bind_eq_ok.mp h
      obtain ⟨rfl, -⟩ := hstatus hread hquery
      rw [hwaits] at hverdict
      cases hverdict
  | cons l loads ih =>
      intro poll s hread hwaits u s' h
      rw [waitIncoming_cons] at h
      obtain ⟨a, t, hquery, hverdict⟩ := bind_eq_ok.mp h
      obtain ⟨rfl, rfl⟩ := hstatus ((load_unread site s file l).trans hread) hquery
      cases l with
      | failed => cases hverdict
      | loading =>
          have hsame : s.load site file .loading = s := rfl
          rw [hsame, hwaits] at hverdict
          have hfiles : (QemuVm.issue site env (.queryStatus poll) .queryStatus s).world.files =
              s.world.files := by
            rw [issue_files, (Session.during_halted site _ (inmigrate_halted hwaits)).1]
          obtain ⟨hstate, hkept, hhalted⟩ := ih (poll + 1) _
            ((issue_unread site env _ _ s).trans hread) ((issue_runState site env _ _ s).trans hwaits) hverdict
          rw [hfiles] at hstate hkept
          exact ⟨hstate, hkept, hhalted⟩
      | loaded =>
          cases hstate : s.world.files.savedState (site.locate file) with
          | none =>
              rw [load_unsaved hstate] at hverdict
              cases hverdict
          | some state =>
              rw [load_loaded hstate] at hverdict
              cases hverdict
              have hhalted : (⟨{ s.qemu with ram := state, runState := .paused }, s.world⟩ :
                  Session ρ).qemu.vcpusRunning = false := rfl
              obtain ⟨hworld, hram⟩ := Session.during_halted site
                (env.acts (.queryStatus poll)) hhalted
              refine ⟨?_, ?_, ?_⟩
              · exact congrArg some hram.symm
              · rw [issue_files, hworld]
              · exact (issue_vcpusRunning site env _ _ _).trans hhalted

theorem restoreIncoming_served {state : ρ} (halive : s.qemu.alive = true)
    (hread : s.qemu.unread = [])
    (hwaits : s.qemu.runState = .inmigrate)
    (hstate : s.world.files.savedState (site.locate file) = some state)
    (hserves : env.Serves .incoming) (hloads : env.LoadsPass env.loads 0) :
    ∃ s', QemuVm.restoreIncoming site env file s = (.ok (), s') ∧ s'.qemu.alive = true := by
  have hissue : (QemuVm.issue site env .incoming (.migrateIncoming file) s).qemu.runState =
      .inmigrate := (issue_runState site env _ _ s).trans hwaits
  have hdo : (QemuVm.issue site env .incoming (.migrateIncoming file) s).carryOut site
      (.migrateIncoming file) = some (QemuVm.issue site env .incoming (.migrateIncoming file) s) := by
    simp only [Session.carryOut, hissue, if_true]
  have hstate' : (QemuVm.issue site env .incoming (.migrateIncoming file) s).world.files.savedState
      (site.locate file) = some state := by
    rw [issue_files, (Session.during_halted site _ (inmigrate_halted hwaits)).1]
    exact hstate
  unfold QemuVm.restoreIncoming
  obtain ⟨hincoming, hread'⟩ := order_served site _ halive hread hserves hdo
  rw [bind_of_ok hincoming]
  exact waitIncoming_served env.loads 0 _ (issue_stays halive hserves.1) hread' hissue hstate' hloads

theorem restoreIncoming_returned {u : Unit} (hread : s.qemu.unread = [])
    (hwaits : s.qemu.runState = .inmigrate)
    (h : QemuVm.restoreIncoming site env file s = (.ok u, s')) :
    s.world.files.savedState (site.locate file) = some s'.qemu.ram ∧
      s'.world.files = s.world.files ∧ s'.qemu.vcpusRunning = false := by
  unfold QemuVm.restoreIncoming at h
  obtain ⟨u', t, hincoming, hwait⟩ := bind_eq_ok.mp h
  obtain ⟨-, -, hdo⟩ := order_returned hread hincoming
  have hread' := hears_order hread hincoming
  have hissue : (QemuVm.issue site env .incoming (.migrateIncoming file) s).qemu.runState =
      .inmigrate := (issue_runState site env _ _ s).trans hwaits
  simp only [Session.carryOut, hissue, if_true, Option.some.injEq] at hdo
  subst hdo
  obtain ⟨hstate, hfiles, hhalted⟩ := waitIncoming_returned env.loads 0 _ hread' hissue hwait
  have hsame : (QemuVm.issue site env .incoming (.migrateIncoming file) s).world.files =
      s.world.files := by
    rw [issue_files, (Session.during_halted site _ (inmigrate_halted hwaits)).1]
  rw [hsame] at hstate hfiles
  exact ⟨hstate, hfiles, hhalted⟩

-- A process started to take in a state waits for it.
theorem start_waits (site : Site ρ) (inv : Invocation) :
    (Qemu.start site inv.withIncomingDefer).runState = .inmigrate := by
  have hdefer : inv.withIncomingDefer.incomingDefer = true := by
    simp [Invocation.withIncomingDefer, Invocation.incomingDefer]
  simp only [Qemu.start, hdefer, if_true]

end Waiting

end VMForge.Engine
