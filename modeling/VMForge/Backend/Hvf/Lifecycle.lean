import VMForge.Backend.Hvf.Lemmas

namespace VMForge.Hvf

open VMForge.Core Engine Exec Machine

variable {ρ : Type} {site : Site ρ} {env : Env ρ} {accel : Accel}

-- The lifecycle of every VM as `VmState::transition` alone knows it.
abbrev Ledger := String → Option VmState

namespace Ledger

-- One operation on one VM. Nothing follows where it is not permitted.
def apply (l : Ledger) (vm : String) (op : VmOp) : Option Ledger :=
  match l vm with
  | none => none
  | some s =>
    match s.transition op with
    | .ok n => some (Function.update l vm n)
    | .error _ => none

-- What a call that succeeded stands for. A capture begins and ends.
def record (l : Ledger) : Call → Option Ledger
  | .create config =>
      if l config.name = none then some (Function.update l config.name (some .defined)) else none
  | .boot vm => l.apply vm .boot
  | .pause vm => l.apply vm .pause
  | .resume vm => l.apply vm .resume
  | .stop vm => l.apply vm .stop
  | .snapshot vm _ =>
      (l vm).bind fun prior =>
        (l.apply vm .snapshotBegin).bind fun l' => l'.apply vm (.snapshotEnd prior)
  | .restore vm _ => l.apply vm .restore
  | .delete vm => l.apply vm .delete
  | .state _ => some l

end Ledger

-- The VM and the operation `VmState::transition` is asked about first.
def Call.op : Call → Option (String × VmOp)
  | .create _ => none
  | .boot vm => some (vm, .boot)
  | .pause vm => some (vm, .pause)
  | .resume vm => some (vm, .resume)
  | .stop vm => some (vm, .stop)
  | .snapshot vm _ => some (vm, .snapshotBegin)
  | .restore vm _ => some (vm, .restore)
  | .delete vm => some (vm, .delete)
  | .state _ => none

namespace HvfBackend

-- The recorded states.
def states (b : HvfBackend ρ) : Ledger := fun vm => (b.vms vm).map (·.state)

-- What a turn adds to the ledger: a call that succeeded, and a session that forgets all VMs.
def follow (site : Site ρ) (b : HvfBackend ρ) (l : Ledger) : Turn ρ → Option Ledger
  | .call c env => if (run site env c b).1.isOk then l.record c else some l
  | .session _ => some fun _ => none
  | _ => some l

-- The fold of `VmState::transition` over the calls of a run that succeeded.
def ledger (site : Site ρ) : HvfBackend ρ → Ledger → List (Turn ρ) → Option Ledger
  | _, l, [] => some l
  | b, l, t :: turns => (follow site b l t).bind fun l' => ledger site (b.turn site t) l' turns

end HvfBackend

section Entries

variable {e : VmEntry ρ} {w : World ρ} {m : Machine ρ}

-- What `op` does to a recorded state: the transition where the call succeeds, nothing elsewhere.
def Obeys {α : Type} (op : VmOp) (e : VmEntry ρ) (r : Except HvError α) (m : Machine ρ) : Prop :=
  match r with
  | .ok _ => e.state.transition op = .ok (some m.entry.state)
  | .error _ => m.entry.state = e.state

theorem Booted.obeys {r : Except HvError Unit} (h : Booted site env accel e w r m) :
    Obeys .boot e r m := by
  cases h with
  | done inv q w' s hstate _ _ _ => exact hstate
  | rejected _ _ | uninvocable _ _ | unspawned _ _ _ _ _ | dropped _ _ _ _ _ _ _ _ => rfl

theorem Commanded.obeys {op : VmOp} {x : Exec (Session ρ) HvError Unit} {r : Except HvError Unit}
    (h : Commanded op x e w r m) : Obeys op e r m := by
  cases h with
  | done n q s hstate _ _ => exact hstate
  | rejected _ _ | absent _ _ | failed _ _ _ _ _ _ _ => rfl

theorem Stopped.obeys {r : Except HvError Unit} (h : Stopped site env e w r m) :
    Obeys .stop e r m := by
  cases h with
  | done w' hstate _ => exact hstate
  | rejected _ _ | failed _ _ _ _ => rfl

theorem Restored.obeys {id : SnapshotId} {r : Except HvError Unit}
    (h : Restored site env accel id e w r m) : Obeys .restore e r m := by
  cases h with
  | done a overlays inv q w₁ w₂ w₃ hstate _ _ _ _ _ => exact hstate
  | rejected _ _ | unknown _ | unquit _ _ _ _ _ _ | unbranched _ _ _ _ _ _ _ _
  | uninvocable _ _ _ _ _ _ _ _ _ _ | unlaunched _ _ _ _ _ _ _ _ _ _ _ _ _ => rfl

-- A capture begins from a live state and leaves every state as it was.
theorem Captured.state {parent : Option SnapshotId} {r : Except HvError SnapshotId}
    (h : Captured site env parent e w r m) :
    m.entry.state = e.state ∧ ∀ id, r = .ok id → e.state = .running ∨ e.state = .paused := by
  cases h with
  | done q id s hstate _ _ _ =>
      exact ⟨rfl, fun _ _ => (VmState.transition_snapshotBegin.mp hstate).1⟩
  | orphaned _ _ _ | rejected _ _ | absent _ _ _ | failed _ _ _ _ _ _ _ =>
      exact ⟨rfl, fun id hid => nomatch hid⟩

end Entries

namespace HvfBackend

variable {b : HvfBackend ρ} {vm : String}

theorem states_update (e : VmEntry ρ) (w : World ρ) :
    states ⟨b.accel, Function.update b.vms vm (some e), w⟩ =
      Function.update b.states vm (some e.state) := by
  funext vm'
  by_cases h : vm' = vm
  · subst h
    simp [states]
  · simp [states, h]

theorem states_remove (w : World ρ) :
    states ⟨b.accel, Function.update b.vms vm none, w⟩ = Function.update b.states vm none := by
  funext vm'
  by_cases h : vm' = vm
  · subst h
    simp [states]
  · simp [states, h]

theorem states_same {e : VmEntry ρ} (he : b.vms vm = some e) :
    Function.update b.states vm (some e.state) = b.states := by
  rw [Function.update_eq_self_iff]
  simp [states, he]

-- What a finished call has to show: the ledger it stands for, or the one there was.
def Follows (b : HvfBackend ρ) (c : Call) (r : Except HvError Reply) (b' : HvfBackend ρ) : Prop :=
  match r with
  | .ok _ => b.states.record c = some b'.states
  | .error _ => b'.states = b.states

-- A call on one VM that obeys its operation follows the ledger.
theorem follows_withVm {α : Type} {c : Call} {op : VmOp} {x : Exec (Machine ρ) HvError α}
    (f : α → Reply) (hrecord : ∀ l : Ledger, l.record c = l.apply vm op)
    (hx : ∀ e, b.vms vm = some e →
      Obeys op e (x ⟨e, b.world⟩).1 (x ⟨e, b.world⟩).2) :
    Follows b c ((withVm vm x >>= fun a => pure (f a) : Exec (HvfBackend ρ) HvError Reply) b).1
      ((withVm vm x >>= fun a => pure (f a) : Exec (HvfBackend ρ) HvError Reply) b).2 := by
  cases he : b.vms vm with
  | none =>
      rw [bind_of_error (withVm_none he)]
      rfl
  | some e =>
      have hobeys := hx e he
      rcases hr : x ⟨e, b.world⟩ with ⟨err | a, m⟩
      · rw [hr] at hobeys
        rw [bind_of_error (by rw [withVm_some he, hr])]
        show states _ = b.states
        rw [states_update, show m.entry.state = e.state from hobeys, states_same he]
      · rw [hr] at hobeys
        rw [bind_of_ok (by rw [withVm_some he, hr]), pure_run]
        show b.states.record c = some (states _)
        have hstate : b.states vm = some e.state := by simp [states, he]
        have htrans : e.state.transition op = .ok (some m.entry.state) := hobeys
        rw [hrecord, states_update, Ledger.apply, hstate]
        simp only [htrans]

theorem follows_snapshot (parent : Option SnapshotId) :
    Follows b (.snapshot vm parent) (run site env (.snapshot vm parent) b).1
      (run site env (.snapshot vm parent) b).2 := by
  cases he : b.vms vm with
  | none =>
      simp only [run, bind_of_error (withVm_none he)]
      rfl
  | some e =>
      have hspec := snapshot_spec site env parent e b.world
      rcases hr : Hvf.snapshot site env parent ⟨e, b.world⟩ with ⟨err | id, m⟩
      · rw [hr] at hspec
        simp only [run]
        rw [bind_of_error (by rw [withVm_some he, hr])]
        show states _ = b.states
        rw [states_update, hspec.state.1, states_same he]
      · rw [hr] at hspec
        obtain ⟨hsame, hlive⟩ := hspec.state
        simp only [run]
        rw [bind_of_ok (by rw [withVm_some he, hr]), pure_run]
        show b.states.record (.snapshot vm parent) = some (states _)
        have hstate : b.states vm = some e.state := by simp [states, he]
        have hbegin : e.state.transition .snapshotBegin = .ok (some .snapshotting) :=
          VmState.transition_snapshotBegin.mpr ⟨hlive id rfl, rfl⟩
        have hend := VmState.transition_snapshotEnd (hlive id rfl)
        simp only [Ledger.record, Ledger.apply, hstate, hbegin, Option.bind_some,
          Function.update_self, hend, Function.update_idem]
        rw [states_update, hsame]

theorem follows_create (config : VmConfig) :
    Follows b (.create config) (run site env (.create config) b).1
      (run site env (.create config) b).2 := by
  simp only [run, create, Exec.bind_assoc, read_bind]
  cases hnew : b.vms config.name with
  | some e =>
      rw [bind_of_error raiseIf_run]
      rfl
  | none =>
      rw [bind_of_ok raiseIf_run]
      rcases hdir : createDirAll site env (vmDir site config.name) b.world with ⟨err | _, w⟩
      · rw [bind_of_error (onWorld_run hdir)]
        rfl
      · rw [bind_of_ok (onWorld_run hdir)]
        cases hinv : buildAarch64Virt site config b.accel
          (join (vmDir site config.name) "qmp.sock") with
        | error err => rfl
        | ok inv =>
            show b.states.record (.create config) = some (states ⟨b.accel, Function.update b.vms
              config.name (some (newEntry site config)), w⟩)
            have hstate : b.states config.name = none := by simp [states, hnew]
            simp only [Ledger.record, hstate, if_true]
            rw [states_update]
            rfl

theorem follows_delete (vm : String) :
    Follows b (.delete vm) (run site env (.delete vm) b).1 (run site env (.delete vm) b).2 := by
  simp only [run, delete, Exec.bind_assoc, read_bind]
  cases he : b.vms vm with
  | none => rfl
  | some e =>
      dsimp only
      cases hstate : e.state.transition .delete with
      | error err => rfl
      | ok n =>
          obtain ⟨-, rfl⟩ := VmState.transition_delete.mp hstate
          show b.states.record (.delete vm) =
            some (states ⟨b.accel, Function.update b.vms vm none, b.world⟩)
          have hvm : b.states vm = some e.state := by simp [states, he]
          rw [states_remove, Ledger.record, Ledger.apply, hvm]
          simp only [hstate]

-- Every call keeps to the state machine.
theorem run_follows (site : Site ρ) (env : Env ρ) (c : Call) (b : HvfBackend ρ) :
    Follows b c (run site env c b).1 (run site env c b).2 := by
  cases c with
  | create config => exact follows_create config
  | boot vm => exact follows_withVm _ (fun _ => rfl) fun e _ => (boot_spec site _ _ e b.world).obeys
  | pause vm => exact follows_withVm _ (fun _ => rfl) fun e _ => (pause_spec site _ e b.world).obeys
  | resume vm => exact follows_withVm _ (fun _ => rfl) fun e _ => (resume_spec site _ e b.world).obeys
  | stop vm => exact follows_withVm _ (fun _ => rfl) fun e _ => (stop_spec site _ e b.world).obeys
  | snapshot vm parent => exact follows_snapshot parent
  | restore vm id =>
      exact follows_withVm _ (fun _ => rfl) fun e _ => (restore_spec site _ _ id e b.world).obeys
  | delete vm => exact follows_delete vm
  | state vm =>
      simp only [run, state, Exec.bind_assoc, read_bind]
      cases b.vms vm <;> rfl

-- A call that fails changes no recorded state.
theorem run_error_states {c : Call} {err : HvError} {b b' : HvfBackend ρ}
    (h : run site env c b = (.error err, b')) : b'.states = b.states := by
  have hfollows := run_follows site env c b
  rwa [h] at hfollows

-- What a process does between two calls changes no recorded state.
theorem states_idle (f : Session ρ → Session ρ) (vm : String) (b : HvfBackend ρ) :
    (idle f vm b).2.states = b.states := by
  unfold idle
  cases he : b.vms vm with
  | none => rw [withVm_none he]
  | some e =>
      rw [withVm_some he, states_update]
      obtain ⟨-, hrun⟩ | ⟨q, -, hrun⟩ := onRuntime_update f e b.world
      · rw [hrun, states_same he]
      · rw [hrun, VmEntry.setRuntime_state, states_same he]

theorem follow_turn (b : HvfBackend ρ) (t : Turn ρ) :
    follow site b b.states t = some (b.turn site t).states := by
  cases t with
  | call c env =>
      have hfollows := run_follows site env c b
      simp only [follow, turn]
      rcases h : run site env c b with ⟨err | reply, b'⟩
      · rw [h] at hfollows
        exact congrArg some (show b'.states = b.states from hfollows).symm
      · rw [h] at hfollows
        exact hfollows
  | guest vm acts => exact congrArg some (states_idle _ vm b).symm
  | migrationEnds vm poll => exact congrArg some (states_idle _ vm b).symm
  | session accel => rfl

theorem ledger_eq (b : HvfBackend ρ) (turns : List (Turn ρ)) :
    ledger site b b.states turns = some (after (turn site) b turns).states := by
  induction turns generalizing b with
  | nil => rfl
  | cons t turns ih =>
      simp only [ledger, follow_turn, Option.bind_some, after_cons]
      exact ih _

-- No call leaves a VM in the middle of a capture.
theorem states_settled (accel : Accel) (files : Files ρ) (turns : List (Turn ρ)) (vm : String) :
    (after (turn site) (new accel files) turns).states vm ≠ some .snapshotting := by
  have hall : ∀ vm e, (after (turn site) (new accel files) turns).vms vm = some e →
      e.state ≠ .snapshotting :=
    invariant_of_steps
      (fun b : HvfBackend ρ => ∀ vm e, b.vms vm = some e → e.state ≠ .snapshotting) turns
      (fun _ _ he => by cases he) fun b t hb => ?_
  · intro h
    simp only [states, Option.map_eq_some_iff] at h
    obtain ⟨e, he, hstate⟩ := h
    exact hall vm e he hstate
  · refine entries_turn hb (fun config _ => by simp [newEntry]) fun vm e m he hmove => ?_
    have hsettled := hb vm e he
    have hobeys : ∀ {op : VmOp} {r : Except HvError Unit} {m : Machine ρ}, Obeys op e r m →
        op ≠ .snapshotBegin → m.entry.state ≠ .snapshotting := by
      intro op r m h hop hm
      cases r with
      | error err => exact hsettled ((show m.entry.state = e.state from h).symm.trans hm)
      | ok u =>
          have ht : e.state.transition op = .ok (some m.entry.state) := h
          rw [hm] at ht
          unfold VmState.transition at ht
          split at ht <;> simp_all
    cases hmove with
    | idle _ | acted _ _ _ | migrated _ _ _ => exact hsettled
    | boot _ h | pause _ h | resume _ h | stop _ h | restore _ _ h => exact hobeys h.obeys (by simp)
    | snapshot _ _ h =>
        rw [h.state.1]
        exact hsettled

-- A call whose operation is not permitted fails and touches nothing.
theorem run_rejected {c : Call} {op : VmOp} {e : VmEntry ρ} {err : HvError} (hop : c.op = some (vm, op))
    (he : b.vms vm = some e) (hstate : e.state.transition op = .error err) :
    (∃ err', (run site env c b).1 = .error err') ∧ (run site env c b).2 = b := by
  have hself : ∀ {α : Type} {x : Exec (Machine ρ) HvError α} {err' : HvError} (f : α → Reply),
      x ⟨e, b.world⟩ = (.error err', ⟨e, b.world⟩) →
      (withVm vm x >>= fun a => pure (f a) : Exec (HvfBackend ρ) HvError Reply) b =
        (.error err', b) := by
    intro α x err' f hx
    have hsame : Function.update b.vms vm (some e) = b.vms := by
      rw [Function.update_eq_self_iff, he]
    rw [bind_of_error (by rw [withVm_some he, hx]), hsame]
  cases c with
  | create _ => cases hop
  | state _ => cases hop
  | boot _ =>
      cases hop
      have hrun := hself (fun _ => Reply.unit) (boot_rejected site env b.accel b.world hstate)
      simp only [run, read_bind, hrun]
      exact ⟨⟨err, rfl⟩, trivial⟩
  | pause _ =>
      cases hop
      have hrun := hself (fun _ => Reply.unit) (pause_rejected site env b.world hstate)
      simp only [run, hrun]
      exact ⟨⟨err, rfl⟩, trivial⟩
  | resume _ =>
      cases hop
      have hrun := hself (fun _ => Reply.unit) (resume_rejected site env b.world hstate)
      simp only [run, hrun]
      exact ⟨⟨err, rfl⟩, trivial⟩
  | stop _ =>
      cases hop
      have hrun := hself (fun _ => Reply.unit) (stop_rejected site env b.world hstate)
      simp only [run, hrun]
      exact ⟨⟨err, rfl⟩, trivial⟩
  | snapshot _ parent =>
      cases hop
      obtain ⟨err', hsnap⟩ := snapshot_rejected site env parent b.world hstate
      simp only [run, hself Reply.snapshot hsnap]
      exact ⟨⟨err', rfl⟩, trivial⟩
  | restore _ id =>
      cases hop
      have hrun := hself (fun _ => Reply.unit) (restore_rejected site env b.accel id b.world hstate)
      simp only [run, read_bind, hrun]
      exact ⟨⟨err, rfl⟩, trivial⟩
  | delete _ =>
      cases hop
      have hrun : run site env (.delete vm) b = (.error err, b) := by
        simp only [run, delete, Exec.bind_assoc, read_bind, he, hstate]
        rfl
      rw [hrun]
      exact ⟨⟨err, rfl⟩, rfl⟩

-- The recorded states are the fold of `VmState::transition` over the calls that succeeded. A call
-- that fails changes none of them, no VM is found in the middle of a capture, and a call that
-- the state machine rejects fails and leaves everything as it was.
theorem lifecycle_refines (site : Site ρ) (accel : Accel) (files : Files ρ)
    (turns : List (Turn ρ)) :
    let b := after (turn site) (new accel files) turns
    ledger site (new accel files) (fun _ => none) turns = some b.states ∧
    (∀ vm, b.states vm ≠ some .snapshotting) ∧
    ∀ (c : Call) (env : Env ρ),
      (∀ err b', run site env c b = (.error err, b') → b'.states = b.states) ∧
      ∀ vm op e err, c.op = some (vm, op) → b.vms vm = some e →
        e.state.transition op = .error err →
        (∃ err', (run site env c b).1 = .error err') ∧ (run site env c b).2 = b := by
  intro b
  refine ⟨ledger_eq _ turns, states_settled accel files turns, fun c env => ⟨?_, ?_⟩⟩
  · intro err b' h
    exact run_error_states h
  · intro vm op e err hop he hstate
    exact run_rejected hop he hstate

end HvfBackend

end VMForge.Hvf
