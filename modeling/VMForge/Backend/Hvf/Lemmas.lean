import VMForge.Backend.Hvf
import VMForge.Base.Run
import VMForge.Engine.Lemmas

namespace VMForge.Hvf

open VMForge.Core Engine Exec Machine

variable {ρ : Type} {site : Site ρ} {env : Env ρ} {accel : Accel}

namespace VmEntry

variable (e : VmEntry ρ) (s : VmState) (q : Option (Qemu ρ)) (d : List String)

@[simp] theorem setState_state : (e.setState s).state = s := rfl

@[simp] theorem setState_runtime : (e.setState s).runtime = e.runtime := rfl

@[simp] theorem setState_config : (e.setState s).config = e.config := rfl

@[simp] theorem setState_dir : (e.setState s).dir = e.dir := rfl

@[simp] theorem setState_snapshotSeq : (e.setState s).snapshotSeq = e.snapshotSeq := rfl

@[simp] theorem setState_activeDisks : (e.setState s).activeDisks = e.activeDisks := rfl

@[simp] theorem setState_snapshots : (e.setState s).snapshots = e.snapshots := rfl

@[simp] theorem setRuntime_state : (e.setRuntime q).state = e.state := rfl

@[simp] theorem setRuntime_runtime : (e.setRuntime q).runtime = q := rfl

@[simp] theorem setRuntime_config : (e.setRuntime q).config = e.config := rfl

@[simp] theorem setRuntime_dir : (e.setRuntime q).dir = e.dir := rfl

@[simp] theorem setRuntime_snapshotSeq : (e.setRuntime q).snapshotSeq = e.snapshotSeq := rfl

@[simp] theorem setRuntime_activeDisks : (e.setRuntime q).activeDisks = e.activeDisks := rfl

@[simp] theorem setRuntime_snapshots : (e.setRuntime q).snapshots = e.snapshots := rfl

@[simp] theorem nextSeq_state : e.nextSeq.state = e.state := rfl

@[simp] theorem nextSeq_runtime : e.nextSeq.runtime = e.runtime := rfl

@[simp] theorem nextSeq_config : e.nextSeq.config = e.config := rfl

@[simp] theorem nextSeq_dir : e.nextSeq.dir = e.dir := rfl

@[simp] theorem nextSeq_snapshotSeq : e.nextSeq.snapshotSeq = e.snapshotSeq + 1 := rfl

@[simp] theorem nextSeq_activeDisks : e.nextSeq.activeDisks = e.activeDisks := rfl

@[simp] theorem nextSeq_snapshots : e.nextSeq.snapshots = e.snapshots := rfl

@[simp] theorem setActiveDisks_state : (e.setActiveDisks d).state = e.state := rfl

@[simp] theorem setActiveDisks_runtime : (e.setActiveDisks d).runtime = e.runtime := rfl

@[simp] theorem setActiveDisks_config : (e.setActiveDisks d).config = e.config := rfl

@[simp] theorem setActiveDisks_dir : (e.setActiveDisks d).dir = e.dir := rfl

@[simp] theorem setActiveDisks_snapshotSeq :
    (e.setActiveDisks d).snapshotSeq = e.snapshotSeq := rfl

@[simp] theorem setActiveDisks_activeDisks : (e.setActiveDisks d).activeDisks = d := rfl

@[simp] theorem setActiveDisks_snapshots : (e.setActiveDisks d).snapshots = e.snapshots := rfl

variable (id : SnapshotId) (a : SnapshotArtifacts)

@[simp] theorem insertSnapshot_state : (e.insertSnapshot id a).state = e.state := rfl

@[simp] theorem insertSnapshot_runtime : (e.insertSnapshot id a).runtime = e.runtime := rfl

@[simp] theorem insertSnapshot_config : (e.insertSnapshot id a).config = e.config := rfl

@[simp] theorem insertSnapshot_dir : (e.insertSnapshot id a).dir = e.dir := rfl

@[simp] theorem insertSnapshot_snapshotSeq :
    (e.insertSnapshot id a).snapshotSeq = e.snapshotSeq := rfl

@[simp] theorem insertSnapshot_activeDisks :
    (e.insertSnapshot id a).activeDisks = e.activeDisks := rfl

theorem insertSnapshot_snapshots :
    (e.insertSnapshot id a).snapshots = Function.update e.snapshots id (some a) := rfl

end VmEntry

section Machines

variable {e : VmEntry ρ} {w : World ρ}

@[simp] theorem modify_run (f : VmEntry ρ → VmEntry ρ) :
    modify f ⟨e, w⟩ = (.ok (), ⟨f e, w⟩) := rfl

theorem transition_ok {op : VmOp} {n : VmState} (h : e.state.transition op = .ok (some n)) :
    transition op ⟨e, w⟩ = (.ok (), ⟨e.setState n, w⟩) := by
  simp only [transition, read_bind, h]
  rfl

theorem transition_error {op : VmOp} {err : HvError} (h : e.state.transition op = .error err) :
    transition op ⟨e, w⟩ = (.error err, ⟨e, w⟩) := by
  simp only [transition, read_bind, h]
  rfl

theorem onWorld_run {α : Type} {x : Exec (World ρ) HvError α} {r : Except HvError α}
    {w' : World ρ} (h : x w = (r, w')) : onWorld x ⟨e, w⟩ = (r, ⟨e, w'⟩) := by
  simp only [onWorld, h]

theorem onRuntime_none {α : Type} {x : Exec (Session ρ) HvError α} (h : e.runtime = none) :
    onRuntime x ⟨e, w⟩ = (.error (.engine "VM has no running QEMU process"), ⟨e, w⟩) := by
  simp only [onRuntime, h]

theorem onRuntime_run {α : Type} {x : Exec (Session ρ) HvError α} {q : Qemu ρ}
    {r : Except HvError α} {s : Session ρ} (hq : e.runtime = some q) (h : x ⟨q, w⟩ = (r, s)) :
    onRuntime x ⟨e, w⟩ = (r, ⟨e.setRuntime (some s.qemu), s.world⟩) := by
  simp only [onRuntime, hq, h]

theorem onOwned_ok {q : Qemu ρ} {x : Exec (Session ρ) HvError Unit} {s : Session ρ}
    (h : x ⟨q, w⟩ = (.ok (), s)) : onOwned q x ⟨e, w⟩ = (.ok s.qemu, ⟨e, s.world⟩) := by
  simp only [onOwned, h]

theorem onOwned_error {q : Qemu ρ} {x : Exec (Session ρ) HvError Unit} {s : Session ρ}
    {err : HvError} (h : x ⟨q, w⟩ = (.error err, s)) :
    onOwned q x ⟨e, w⟩ = (.error err, ⟨e, s.world⟩) := by
  simp only [onOwned, h]

-- What a process does of its own accord leaves the rest of its VM alone.
theorem onRuntime_update (f : Session ρ → Session ρ) (e : VmEntry ρ) (w : World ρ) :
    (e.runtime = none ∧ (onRuntime (update f) ⟨e, w⟩).2 = ⟨e, w⟩) ∨
    ∃ q, e.runtime = some q ∧ (onRuntime (update f) ⟨e, w⟩).2 =
      ⟨e.setRuntime (some (f ⟨q, w⟩).qemu), (f ⟨q, w⟩).world⟩ := by
  cases hq : e.runtime with
  | none => exact Or.inl ⟨rfl, by rw [onRuntime_none hq]⟩
  | some q =>
      have hrun : onRuntime (update f) ⟨e, w⟩ =
          (.ok (), ⟨e.setRuntime (some (f ⟨q, w⟩).qemu), (f ⟨q, w⟩).world⟩) :=
        onRuntime_run hq rfl
      exact Or.inr ⟨q, rfl, by rw [hrun]⟩

theorem boot_rejected (site : Site ρ) (env : Env ρ) (accel : Accel) (w : World ρ) {err : HvError} (h : e.state.transition .boot = .error err) :
    boot site env accel ⟨e, w⟩ = (.error err, ⟨e, w⟩) := by
  simp only [boot, read_bind, h]
  rfl

theorem pause_rejected (site : Site ρ) (env : Env ρ) (w : World ρ) {err : HvError} (h : e.state.transition .pause = .error err) :
    pause site env ⟨e, w⟩ = (.error err, ⟨e, w⟩) := by
  simp only [pause, read_bind, h]
  rfl

theorem resume_rejected (site : Site ρ) (env : Env ρ) (w : World ρ) {err : HvError} (h : e.state.transition .resume = .error err) :
    resume site env ⟨e, w⟩ = (.error err, ⟨e, w⟩) := by
  simp only [resume, read_bind, h]
  rfl

theorem stop_rejected (site : Site ρ) (env : Env ρ) (w : World ρ) {err : HvError} (h : e.state.transition .stop = .error err) :
    stop site env ⟨e, w⟩ = (.error err, ⟨e, w⟩) := by
  simp only [stop, read_bind, h]
  rfl

theorem restore_rejected (site : Site ρ) (env : Env ρ) (accel : Accel) (id : SnapshotId)
    (w : World ρ) {err : HvError}
    (h : e.state.transition .restore = .error err) :
    restore site env accel id ⟨e, w⟩ = (.error err, ⟨e, w⟩) := by
  simp only [restore, read_bind, h]
  rfl

-- All that can come of `boot`.
inductive Booted (site : Site ρ) (env : Env ρ) (accel : Accel) (e : VmEntry ρ) (w : World ρ) :
    Except HvError Unit → Machine ρ → Prop where
  | rejected (err : HvError) (h : e.state.transition .boot = .error err) :
      Booted site env accel e w (.error err) ⟨e, w⟩
  | uninvocable (err : HvError) (h : invocationFor site accel e = .error err) :
      Booted site env accel e w (.error err) ⟨e, w⟩
  | unspawned (inv : Invocation) (err : HvError) (w' : World ρ)
      (hinv : invocationFor site accel e = .ok inv)
      (h : QemuVm.spawn site env inv w = (.error err, w')) :
      Booted site env accel e w (.error err) ⟨e, w'⟩
  | dropped (inv : Invocation) (q : Qemu ρ) (w' : World ρ) (err : HvError) (s : Session ρ)
      (hinv : invocationFor site accel e = .ok inv)
      (hspawn : QemuVm.spawn site env inv w = (.ok q, w'))
      (h : QemuVm.cont site env ⟨q, w'⟩ = (.error err, s)) :
      Booted site env accel e w (.error err) ⟨e, s.world⟩
  | done (inv : Invocation) (q : Qemu ρ) (w' : World ρ) (s : Session ρ)
      (hstate : e.state.transition .boot = .ok (some .running))
      (hinv : invocationFor site accel e = .ok inv)
      (hspawn : QemuVm.spawn site env inv w = (.ok q, w'))
      (h : QemuVm.cont site env ⟨q, w'⟩ = (.ok (), s)) :
      Booted site env accel e w (.ok ()) ⟨(e.setRuntime (some s.qemu)).setState .running, s.world⟩

theorem boot_spec (site : Site ρ) (env : Env ρ) (accel : Accel)
    (e : VmEntry ρ) (w : World ρ) :
    Booted site env accel e w (boot site env accel ⟨e, w⟩).1 (boot site env accel ⟨e, w⟩).2 := by
  simp only [boot, read_bind]
  cases hstate : e.state.transition .boot with
  | error err => exact .rejected err hstate
  | ok n =>
      obtain ⟨-, rfl⟩ := VmState.transition_boot.mp hstate
      rw [bind_of_ok ofExcept_ok]
      cases hinv : invocationFor site accel e with
      | error err => exact .uninvocable err hinv
      | ok inv =>
          rw [bind_of_ok ofExcept_ok]
          rcases hspawn : QemuVm.spawn site env inv w with ⟨err | q, w'⟩
          · rw [bind_of_error (onWorld_run hspawn)]
            exact .unspawned inv err w' hinv hspawn
          · rw [bind_of_ok (onWorld_run hspawn)]
            rcases hcont : QemuVm.cont site env ⟨q, w'⟩ with ⟨err | _, s⟩
            · rw [bind_of_error (onOwned_error hcont)]
              exact .dropped inv q w' err s hinv hspawn hcont
            · have hend : transition .boot (⟨e.setRuntime (some s.qemu), s.world⟩ : Machine ρ) =
                  (.ok (), ⟨(e.setRuntime (some s.qemu)).setState .running, s.world⟩) :=
                transition_ok hstate
              rw [bind_of_ok (onOwned_ok hcont), bind_of_ok (modify_run _), hend]
              exact .done inv q w' s hstate hinv hspawn hcont

-- All that can come of a call that sends the VM's process one command.
inductive Commanded (op : VmOp) (x : Exec (Session ρ) HvError Unit) (e : VmEntry ρ) (w : World ρ) :
    Except HvError Unit → Machine ρ → Prop where
  | rejected (err : HvError) (h : e.state.transition op = .error err) :
      Commanded op x e w (.error err) ⟨e, w⟩
  | absent (err : HvError) (h : e.runtime = none) : Commanded op x e w (.error err) ⟨e, w⟩
  | failed (n : VmState) (q : Qemu ρ) (err : HvError) (s : Session ρ)
      (hstate : e.state.transition op = .ok (some n)) (hq : e.runtime = some q)
      (h : x ⟨q, w⟩ = (.error err, s)) :
      Commanded op x e w (.error err) ⟨e.setRuntime (some s.qemu), s.world⟩
  | done (n : VmState) (q : Qemu ρ) (s : Session ρ)
      (hstate : e.state.transition op = .ok (some n)) (hq : e.runtime = some q)
      (h : x ⟨q, w⟩ = (.ok (), s)) :
      Commanded op x e w (.ok ()) ⟨(e.setRuntime (some s.qemu)).setState n, s.world⟩

theorem commanded_spec {op : VmOp} {x : Exec (Session ρ) HvError Unit}
    {y : Exec (Machine ρ) HvError Unit}
    (hop : ∀ (s : VmState) n, s.transition op = .ok n → ∃ n', n = some n')
    (hy : y = do
      let m ← read
      let _ ← ofExcept (m.entry.state.transition op)
      onRuntime x
      transition op)
    (e : VmEntry ρ) (w : World ρ) : Commanded op x e w (y ⟨e, w⟩).1 (y ⟨e, w⟩).2 := by
  subst hy
  simp only [read_bind]
  cases hstate : e.state.transition op with
  | error err => exact .rejected err hstate
  | ok n =>
      obtain ⟨n, rfl⟩ := hop _ _ hstate
      rw [bind_of_ok ofExcept_ok]
      cases hq : e.runtime with
      | none =>
          rw [bind_of_error (onRuntime_none hq)]
          exact .absent _ hq
      | some q =>
          rcases hx : x ⟨q, w⟩ with ⟨err | _, s⟩
          · rw [bind_of_error (onRuntime_run hq hx)]
            exact .failed n q err s hstate hq hx
          · have hend : transition op (⟨e.setRuntime (some s.qemu), s.world⟩ : Machine ρ) =
                (.ok (), ⟨(e.setRuntime (some s.qemu)).setState n, s.world⟩) :=
              transition_ok hstate
            rw [bind_of_ok (onRuntime_run hq hx), hend]
            exact .done n q s hstate hq hx

theorem pause_spec (site : Site ρ) (env : Env ρ)
    (e : VmEntry ρ) (w : World ρ) :
    Commanded .pause (QemuVm.pause site env) e w (pause site env ⟨e, w⟩).1
      (pause site env ⟨e, w⟩).2 :=
  commanded_spec (fun _ _ h => ⟨_, (VmState.transition_pause.mp h).2⟩) rfl e w

theorem resume_spec (site : Site ρ) (env : Env ρ)
    (e : VmEntry ρ) (w : World ρ) :
    Commanded .resume (QemuVm.cont site env) e w (resume site env ⟨e, w⟩).1
      (resume site env ⟨e, w⟩).2 :=
  commanded_spec (fun _ _ h => ⟨_, (VmState.transition_resume.mp h).2⟩) rfl e w

-- The world after the process of a VM, if it has one, has quit.
inductive Quitted (site : Site ρ) (env : Env ρ) (e : VmEntry ρ) (w : World ρ) :
    Except HvError Unit → World ρ → Prop where
  | absent (h : e.runtime = none) : Quitted site env e w (.ok ()) w
  | quit (q : Qemu ρ) (r : Except HvError Unit) (s : Session ρ) (hq : e.runtime = some q)
      (h : QemuVm.quit site env ⟨q, w⟩ = (r, s)) : Quitted site env e w r s.world

theorem takeAndQuit_spec (site : Site ρ) (env : Env ρ)
    (e : VmEntry ρ) (w : World ρ) : ∃ r w', Quitted site env e w r w' ∧
    takeAndQuit site env ⟨e, w⟩ = (r, ⟨e.setRuntime none, w'⟩) := by
  cases hq : e.runtime with
  | none =>
      refine ⟨.ok (), w, .absent hq, ?_⟩
      have he : e.setRuntime none = e := by rw [← hq]; rfl
      simp only [takeAndQuit, hq, he]
  | some q =>
      rcases hx : QemuVm.quit site env ⟨q, w⟩ with ⟨r, s⟩
      exact ⟨r, s.world, .quit q r s hq hx, by simp only [takeAndQuit, hq, hx]⟩

-- All that can come of `stop`.
inductive Stopped (site : Site ρ) (env : Env ρ) (e : VmEntry ρ) (w : World ρ) :
    Except HvError Unit → Machine ρ → Prop where
  | rejected (err : HvError) (h : e.state.transition .stop = .error err) :
      Stopped site env e w (.error err) ⟨e, w⟩
  | failed (err : HvError) (w' : World ρ)
      (hstate : e.state.transition .stop = .ok (some .stopped))
      (hquit : Quitted site env e w (.error err) w') :
      Stopped site env e w (.error err) ⟨e.setRuntime none, w'⟩
  | done (w' : World ρ) (hstate : e.state.transition .stop = .ok (some .stopped))
      (hquit : Quitted site env e w (.ok ()) w') :
      Stopped site env e w (.ok ()) ⟨(e.setRuntime none).setState .stopped, w'⟩

theorem stop_spec (site : Site ρ) (env : Env ρ)
    (e : VmEntry ρ) (w : World ρ) :
    Stopped site env e w (stop site env ⟨e, w⟩).1 (stop site env ⟨e, w⟩).2 := by
  simp only [stop, read_bind]
  cases hstate : e.state.transition .stop with
  | error err => exact .rejected err hstate
  | ok n =>
      obtain ⟨-, rfl⟩ := VmState.transition_stop.mp hstate
      rw [bind_of_ok ofExcept_ok]
      obtain ⟨r, w', hquit, hrun⟩ := takeAndQuit_spec site env e w
      cases r with
      | error err =>
          rw [bind_of_error hrun]
          exact .failed err w' hstate hquit
      | ok _ =>
          have hend : transition .stop (⟨e.setRuntime none, w'⟩ : Machine ρ) =
              (.ok (), ⟨(e.setRuntime none).setState .stopped, w'⟩) := transition_ok hstate
          rw [bind_of_ok hrun, hend]
          exact .done w' hstate hquit

-- What a capture of this VM asks of its process.
def capture (site : Site ρ) (env : Env ρ) (e : VmEntry ρ) : Exec (Session ρ) HvError SnapshotId :=
  QemuVm.snapshot site env (diskNodes e) e.dir (snapTag (e.snapshotSeq + 1))

-- The layers that take the writes after a capture.
def capturedDisks (e : VmEntry ρ) : List String :=
  (diskNodes e).map fun node => join e.dir (QemuVm.overlayName (snapTag (e.snapshotSeq + 1)) node)

-- The entry after a capture.
def recordCapture (e : VmEntry ρ) (parent : Option SnapshotId) (id : SnapshotId) : VmEntry ρ :=
  (e.nextSeq.setActiveDisks (capturedDisks e)).insertSnapshot id
    ⟨e.activeDisks, statePath e (snapTag (e.snapshotSeq + 1)), parent⟩

-- A snapshot recorded after a capture was there before, or is the one the capture has made.
theorem recordCapture_snapshots {e : VmEntry ρ} {parent : Option SnapshotId} {id id' : SnapshotId}
    {a : SnapshotArtifacts} (h : (recordCapture e parent id).snapshots id' = some a) :
    e.snapshots id' = some a ∨
      a = ⟨e.activeDisks, statePath e (snapTag (e.snapshotSeq + 1)), parent⟩ := by
  rw [recordCapture, VmEntry.insertSnapshot_snapshots] at h
  by_cases hid : id' = id
  · subst hid
    rw [Function.update_self] at h
    exact Or.inr (Option.some.inj h).symm
  · rw [Function.update_of_ne hid] at h
    exact Or.inl h

-- The checks of `snapshot` let the call through.
def Admits (e : VmEntry ρ) (parent : Option SnapshotId) : Prop :=
  e.state.isLive = true ∧ ∀ p ∈ parent, (e.snapshots p).isSome = true

instance (e : VmEntry ρ) (parent : Option SnapshotId) : Decidable (Admits e parent) :=
  inferInstanceAs (Decidable (_ ∧ _))

theorem admits_of {e : VmEntry ρ} {parent : Option SnapshotId}
    (hstate : e.state.transition .snapshotBegin = .ok (some .snapshotting))
    (hparent : ∀ p, parent = some p → e.snapshots p ≠ none) : Admits e parent :=
  ⟨VmState.isLive_of_snapshotBegin hstate, fun p hp => Option.isSome_iff_ne_none.mpr (hparent p hp)⟩

-- All that can come of `snapshot`.
inductive Captured (site : Site ρ) (env : Env ρ) (parent : Option SnapshotId) (e : VmEntry ρ)
    (w : World ρ) : Except HvError SnapshotId → Machine ρ → Prop where
  | orphaned (p : SnapshotId) (hparent : parent = some p) (h : e.snapshots p = none) :
      Captured site env parent e w (.error (.snapshotNotFound p.text)) ⟨e, w⟩
  | rejected (err : HvError) (h : e.state.transition .snapshotBegin = .error err) :
      Captured site env parent e w (.error err) ⟨e, w⟩
  | absent (err : HvError)
      (hstate : e.state.transition .snapshotBegin = .ok (some .snapshotting))
      (h : e.runtime = none) : Captured site env parent e w (.error err) ⟨e.nextSeq, w⟩
  | failed (q : Qemu ρ) (err : HvError) (s : Session ρ)
      (hstate : e.state.transition .snapshotBegin = .ok (some .snapshotting))
      (hparent : ∀ p, parent = some p → e.snapshots p ≠ none)
      (hq : e.runtime = some q) (h : capture site env e ⟨q, w⟩ = (.error err, s)) :
      Captured site env parent e w (.error err) ⟨e.nextSeq.setRuntime (some s.qemu), s.world⟩
  | done (q : Qemu ρ) (id : SnapshotId) (s : Session ρ)
      (hstate : e.state.transition .snapshotBegin = .ok (some .snapshotting))
      (hparent : ∀ p, parent = some p → e.snapshots p ≠ none)
      (hq : e.runtime = some q) (h : capture site env e ⟨q, w⟩ = (.ok id, s)) :
      Captured site env parent e w (.ok id)
        ⟨(recordCapture e parent id).setRuntime (some s.qemu), s.world⟩

theorem checkParent_cases (parent : Option SnapshotId) (e : VmEntry ρ) (w : World ρ) :
    (∃ p, parent = some p ∧ e.snapshots p = none ∧
      checkParent parent ⟨e, w⟩ = (.error (.snapshotNotFound p.text), ⟨e, w⟩)) ∨
    ((∀ p, parent = some p → e.snapshots p ≠ none) ∧
      checkParent parent ⟨e, w⟩ = (.ok (), ⟨e, w⟩)) := by
  cases parent with
  | none => exact Or.inr ⟨by simp, rfl⟩
  | some p =>
      cases hp : e.snapshots p with
      | none =>
          refine Or.inl ⟨p, rfl, hp, ?_⟩
          simp only [checkParent, read_bind, hp]
          rfl
      | some a =>
          refine Or.inr ⟨by simp [hp], ?_⟩
          simp only [checkParent, read_bind, hp]
          rfl

theorem snapshot_rejected (site : Site ρ) (env : Env ρ) (parent : Option SnapshotId)
    (w : World ρ) {err : HvError}
    (h : e.state.transition .snapshotBegin = .error err) :
    ∃ err', snapshot site env parent ⟨e, w⟩ = (.error err', ⟨e, w⟩) := by
  unfold snapshot
  obtain ⟨p, -, -, hcheck⟩ | ⟨-, hcheck⟩ := checkParent_cases parent e w
  · exact ⟨_, bind_of_error hcheck⟩
  · rw [bind_of_ok hcheck, read_bind]
    exact ⟨err, bind_of_error (transition_error h)⟩

theorem snapshot_spec (site : Site ρ) (env : Env ρ)
    (parent : Option SnapshotId) (e : VmEntry ρ) (w : World ρ) :
    Captured site env parent e w (snapshot site env parent ⟨e, w⟩).1
      (snapshot site env parent ⟨e, w⟩).2 := by
  unfold snapshot
  obtain ⟨p, hparent, hp, hcheck⟩ | ⟨hknown, hcheck⟩ := checkParent_cases parent e w
  · rw [bind_of_error hcheck]
    exact .orphaned p hparent hp
  · rw [bind_of_ok hcheck, read_bind]
    cases hstate : e.state.transition .snapshotBegin with
    | error err =>
        rw [bind_of_error (transition_error hstate)]
        exact .rejected err hstate
    | ok n =>
        obtain ⟨hprior, rfl⟩ := VmState.transition_snapshotBegin.mp hstate
        rw [bind_of_ok (transition_ok hstate), bind_of_ok (modify_run _), read_bind,
          bind_of_ok attempt_run]
        -- the state goes back whatever became of the capture
        have hback : ∀ (e' : VmEntry ρ) (w' : World ρ), e'.state = .snapshotting →
            transition (.snapshotEnd e.state) ⟨e', w'⟩ = (.ok (), ⟨e'.setState e.state, w'⟩) :=
          fun e' w' he => transition_ok (by rw [he]; exact VmState.transition_snapshotEnd hprior)
        cases hq : e.runtime with
        | none =>
            have hrun := onRuntime_none (e := (e.setState .snapshotting).nextSeq) (w := w)
              (x := capture site env e) hq
            have hcapture : QemuVm.snapshot site env
                (diskNodes (e.setState .snapshotting).nextSeq) e.dir
                (snapTag (e.snapshotSeq + 1)) = capture site env e := rfl
            simp only [VmEntry.nextSeq_dir, VmEntry.setState_dir, VmEntry.nextSeq_snapshotSeq,
              VmEntry.setState_snapshotSeq, hcapture, hrun]
            rw [bind_of_ok (hback _ _ rfl)]
            exact .absent _ hstate hq
        | some q =>
            rcases hx : capture site env e ⟨q, w⟩ with ⟨err | id, s⟩
            · have hrun := onRuntime_run (e := (e.setState .snapshotting).nextSeq) hq hx
              have hcapture : QemuVm.snapshot site env
                  (diskNodes (e.setState .snapshotting).nextSeq) e.dir
                  (snapTag (e.snapshotSeq + 1)) = capture site env e := rfl
              simp only [VmEntry.nextSeq_dir, VmEntry.setState_dir, VmEntry.nextSeq_snapshotSeq,
                VmEntry.setState_snapshotSeq, hcapture, hrun]
              rw [bind_of_ok (hback _ _ rfl)]
              exact .failed q err s hstate hknown hq hx
            · have hrun := onRuntime_run (e := (e.setState .snapshotting).nextSeq) hq hx
              have hcapture : QemuVm.snapshot site env
                  (diskNodes (e.setState .snapshotting).nextSeq) e.dir
                  (snapTag (e.snapshotSeq + 1)) = capture site env e := rfl
              simp only [VmEntry.nextSeq_dir, VmEntry.setState_dir, VmEntry.nextSeq_snapshotSeq,
                VmEntry.setState_snapshotSeq, hcapture, hrun]
              rw [bind_of_ok (hback _ _ rfl), bind_of_ok ofExcept_ok, bind_of_ok (modify_run _),
                bind_of_ok (modify_run _)]
              exact .done q id s hstate hknown hq hx

-- All that can come of starting a process from a saved state.
inductive Launched (site : Site ρ) (env : Env ρ) (inv : Invocation) (stateFile : String)
    (w : World ρ) : Except HvError (Qemu ρ) → World ρ → Prop where
  | unspawned (err : HvError) (w' : World ρ)
      (h : QemuVm.spawn site env inv.withIncomingDefer w = (.error err, w')) :
      Launched site env inv stateFile w (.error err) w'
  | unloaded (q : Qemu ρ) (w' : World ρ) (err : HvError) (s : Session ρ)
      (hspawn : QemuVm.spawn site env inv.withIncomingDefer w = (.ok q, w'))
      (h : QemuVm.restoreIncoming site env stateFile ⟨q, w'⟩ = (.error err, s)) :
      Launched site env inv stateFile w (.error err) s.world
  | halted (q : Qemu ρ) (w' : World ρ) (s : Session ρ) (err : HvError) (s' : Session ρ)
      (hspawn : QemuVm.spawn site env inv.withIncomingDefer w = (.ok q, w'))
      (hload : QemuVm.restoreIncoming site env stateFile ⟨q, w'⟩ = (.ok (), s))
      (h : QemuVm.cont site env s = (.error err, s')) :
      Launched site env inv stateFile w (.error err) s'.world
  | done (q : Qemu ρ) (w' : World ρ) (s s' : Session ρ)
      (hspawn : QemuVm.spawn site env inv.withIncomingDefer w = (.ok q, w'))
      (hload : QemuVm.restoreIncoming site env stateFile ⟨q, w'⟩ = (.ok (), s))
      (h : QemuVm.cont site env s = (.ok (), s')) :
      Launched site env inv stateFile w (.ok s'.qemu) s'.world

theorem launch_spec (site : Site ρ) (env : Env ρ)
    (inv : Invocation) (stateFile : String) (e : VmEntry ρ) (w : World ρ) :
    ∃ r w', Launched site env inv stateFile w r w' ∧
      launch site env inv stateFile ⟨e, w⟩ = (r, ⟨e, w'⟩) := by
  unfold launch
  rcases hspawn : QemuVm.spawn site env inv.withIncomingDefer w with ⟨err | q, w'⟩
  · exact ⟨_, _, .unspawned err w' hspawn, bind_of_error (onWorld_run hspawn)⟩
  · rw [bind_of_ok (onWorld_run hspawn)]
    rcases hload : QemuVm.restoreIncoming site env stateFile ⟨q, w'⟩ with ⟨err | _, s⟩
    · exact ⟨_, _, .unloaded q w' err s hspawn hload, onOwned_error (bind_of_error hload)⟩
    · rcases hcont : QemuVm.cont site env s with ⟨err | _, s'⟩
      · exact ⟨_, _, .halted q w' s err s' hspawn hload hcont,
          onOwned_error ((bind_of_ok hload).trans hcont)⟩
      · exact ⟨_, _, .done q w' s s' hspawn hload hcont,
          onOwned_ok ((bind_of_ok hload).trans hcont)⟩

-- The overlay for one frozen layer of a snapshot.
def branchDisk (site : Site ρ) (env : Env ρ) (e : VmEntry ρ) (tag : String) (p : String × Nat) :
    Exec (World ρ) HvError String := do
  createOverlay site env p.2 p.1 (overlayPath e tag p.2)
  pure (overlayPath e tag p.2)

theorem createOverlays_eq (site : Site ρ) (env : Env ρ) (e : VmEntry ρ) (tag : String)
    (bases : List String) : createOverlays site env e tag bases =
      mapEach bases.zipIdx (branchDisk site env e tag) := rfl

-- What is left of the entry when a restore starts its process.
def branched (e : VmEntry ρ) (overlays : List String) : VmEntry ρ :=
  ((e.setRuntime none).nextSeq).setActiveDisks overlays

-- All that can come of `restore`.
inductive Restored (site : Site ρ) (env : Env ρ) (accel : Accel) (id : SnapshotId)
    (e : VmEntry ρ) (w : World ρ) : Except HvError Unit → Machine ρ → Prop where
  | rejected (err : HvError) (h : e.state.transition .restore = .error err) :
      Restored site env accel id e w (.error err) ⟨e, w⟩
  | unknown (h : e.snapshots id = none) :
      Restored site env accel id e w (.error (.snapshotNotFound id.text)) ⟨e, w⟩
  | unquit (a : SnapshotArtifacts) (err : HvError) (w₁ : World ρ)
      (hstate : e.state.transition .restore = .ok (some .running)) (ha : e.snapshots id = some a)
      (h : Quitted site env e w (.error err) w₁) :
      Restored site env accel id e w (.error err) ⟨e.setRuntime none, w₁⟩
  | unbranched (a : SnapshotArtifacts) (err : HvError) (w₁ w₂ : World ρ)
      (hstate : e.state.transition .restore = .ok (some .running)) (ha : e.snapshots id = some a)
      (hquit : Quitted site env e w (.ok ()) w₁)
      (h : createOverlays site env e (branchTag (e.snapshotSeq + 1)) a.diskBases w₁ =
        (.error err, w₂)) :
      Restored site env accel id e w (.error err) ⟨(e.setRuntime none).nextSeq, w₂⟩
  | uninvocable (a : SnapshotArtifacts) (overlays : List String) (err : HvError) (w₁ w₂ : World ρ)
      (hstate : e.state.transition .restore = .ok (some .running)) (ha : e.snapshots id = some a)
      (hquit : Quitted site env e w (.ok ()) w₁)
      (hbranch : createOverlays site env e (branchTag (e.snapshotSeq + 1)) a.diskBases w₁ =
        (.ok overlays, w₂))
      (h : invocationFor site accel (branched e overlays) = .error err) :
      Restored site env accel id e w (.error err) ⟨branched e overlays, w₂⟩
  | unlaunched (a : SnapshotArtifacts) (overlays : List String) (inv : Invocation) (err : HvError)
      (w₁ w₂ w₃ : World ρ)
      (hstate : e.state.transition .restore = .ok (some .running)) (ha : e.snapshots id = some a)
      (hquit : Quitted site env e w (.ok ()) w₁)
      (hbranch : createOverlays site env e (branchTag (e.snapshotSeq + 1)) a.diskBases w₁ =
        (.ok overlays, w₂))
      (hinv : invocationFor site accel (branched e overlays) = .ok inv)
      (h : Launched site env inv a.stateFile w₂ (.error err) w₃) :
      Restored site env accel id e w (.error err) ⟨branched e overlays, w₃⟩
  | done (a : SnapshotArtifacts) (overlays : List String) (inv : Invocation) (q : Qemu ρ)
      (w₁ w₂ w₃ : World ρ)
      (hstate : e.state.transition .restore = .ok (some .running)) (ha : e.snapshots id = some a)
      (hquit : Quitted site env e w (.ok ()) w₁)
      (hbranch : createOverlays site env e (branchTag (e.snapshotSeq + 1)) a.diskBases w₁ =
        (.ok overlays, w₂))
      (hinv : invocationFor site accel (branched e overlays) = .ok inv)
      (h : Launched site env inv a.stateFile w₂ (.ok q) w₃) :
      Restored site env accel id e w (.ok ())
        ⟨((branched e overlays).setRuntime (some q)).setState .running, w₃⟩

theorem restore_spec (site : Site ρ) (env : Env ρ) (accel : Accel)
    (id : SnapshotId) (e : VmEntry ρ) (w : World ρ) :
    Restored site env accel id e w (restore site env accel id ⟨e, w⟩).1
      (restore site env accel id ⟨e, w⟩).2 := by
  unfold restore
  rw [read_bind]
  cases hstate : e.state.transition .restore with
  | error err => exact .rejected err hstate
  | ok n =>
      obtain ⟨-, rfl⟩ := VmState.transition_restore.mp hstate
      rw [bind_of_ok ofExcept_ok]
      cases ha : e.snapshots id with
      | none => exact .unknown ha
      | some a =>
          obtain ⟨r, w₁, hquit, hrun⟩ := takeAndQuit_spec site env e w
          cases r with
          | error err =>
              simp only [bind_of_error hrun]
              exact .unquit a err w₁ hstate ha hquit
          | ok _ =>
              simp only [bind_of_ok hrun, bind_of_ok (modify_run _), read_bind]
              have hsame : createOverlays site env (e.setRuntime none).nextSeq
                  (branchTag (e.setRuntime none).nextSeq.snapshotSeq) a.diskBases =
                  createOverlays site env e (branchTag (e.snapshotSeq + 1)) a.diskBases := rfl
              rcases hbranch : createOverlays site env e (branchTag (e.snapshotSeq + 1))
                a.diskBases w₁ with ⟨err | overlays, w₂⟩
              · rw [hsame, bind_of_error (onWorld_run hbranch)]
                exact .unbranched a err w₁ w₂ hstate ha hquit hbranch
              · rw [hsame, bind_of_ok (onWorld_run hbranch), bind_of_ok (modify_run _), read_bind]
                cases hinv : invocationFor site accel (branched e overlays) with
                | error err =>
                    rw [← branched, hinv]
                    exact .uninvocable a overlays err w₁ w₂ hstate ha hquit hbranch hinv
                | ok inv =>
                    obtain ⟨r, w₃, hlaunch, hrun⟩ := launch_spec site env inv
                      a.stateFile (branched e overlays) w₂
                    rw [← branched, hinv, bind_of_ok ofExcept_ok]
                    cases r with
                    | error err =>
                        rw [bind_of_error hrun]
                        exact .unlaunched a overlays inv err w₁ w₂ w₃ hstate ha hquit hbranch hinv
                          hlaunch
                    | ok q =>
                        have hend : transition .restore
                            (⟨(branched e overlays).setRuntime (some q), w₃⟩ : Machine ρ) =
                            (.ok (), ⟨((branched e overlays).setRuntime (some q)).setState .running,
                              w₃⟩) := transition_ok hstate
                        rw [bind_of_ok hrun, bind_of_ok (modify_run _), hend]
                        exact .done a overlays inv q w₁ w₂ w₃ hstate ha hquit hbranch hinv hlaunch

end Machines

-- What a turn does to the VM it is about.
def Turn.move (site : Site ρ) (accel : Accel) : Turn ρ → Option (String × (Machine ρ → Machine ρ))
  | .call (.boot vm) env => some (vm, fun m => (boot site env accel m).2)
  | .call (.pause vm) env => some (vm, fun m => (pause site env m).2)
  | .call (.resume vm) env => some (vm, fun m => (resume site env m).2)
  | .call (.stop vm) env => some (vm, fun m => (stop site env m).2)
  | .call (.snapshot vm parent) env => some (vm, fun m => (snapshot site env parent m).2)
  | .call (.restore vm id) env => some (vm, fun m => (restore site env accel id m).2)
  | .guest vm acts => some (vm, fun m => (onRuntime (update (·.during site acts)) m).2)
  | .migrationEnds vm poll =>
      some (vm, fun m => (onRuntime (update (·.endMigration site poll)) m).2)
  | _ => none

-- All that can come of a turn for the VM it is about.
inductive Moved (site : Site ρ) (accel : Accel) (vm : String) (e : VmEntry ρ) (w : World ρ) :
    Turn ρ → Machine ρ → Prop where
  | idle {t : Turn ρ} (h : e.runtime = none) : Moved site accel vm e w t ⟨e, w⟩
  | acted (acts : List (Act ρ)) (q : Qemu ρ) (hq : e.runtime = some q) :
      Moved site accel vm e w (.guest vm acts)
        ⟨e.setRuntime (some (Session.during site ⟨q, w⟩ acts).qemu),
          (Session.during site ⟨q, w⟩ acts).world⟩
  | migrated (poll : Poll) (q : Qemu ρ) (hq : e.runtime = some q) :
      Moved site accel vm e w (.migrationEnds vm poll)
        ⟨e.setRuntime (some (Session.endMigration site ⟨q, w⟩ poll).qemu),
          (Session.endMigration site ⟨q, w⟩ poll).world⟩
  | boot (env : Env ρ) {r : Except HvError Unit} {m : Machine ρ}
      (h : Booted site env accel e w r m) : Moved site accel vm e w (.call (.boot vm) env) m
  | pause (env : Env ρ) {r : Except HvError Unit} {m : Machine ρ}
      (h : Commanded .pause (QemuVm.pause site env) e w r m) :
      Moved site accel vm e w (.call (.pause vm) env) m
  | resume (env : Env ρ) {r : Except HvError Unit} {m : Machine ρ}
      (h : Commanded .resume (QemuVm.cont site env) e w r m) :
      Moved site accel vm e w (.call (.resume vm) env) m
  | stop (env : Env ρ) {r : Except HvError Unit} {m : Machine ρ}
      (h : Stopped site env e w r m) : Moved site accel vm e w (.call (.stop vm) env) m
  | snapshot (env : Env ρ) (parent : Option SnapshotId) {r : Except HvError SnapshotId}
      {m : Machine ρ} (h : Captured site env parent e w r m) :
      Moved site accel vm e w (.call (.snapshot vm parent) env) m
  | restore (env : Env ρ) (id : SnapshotId) {r : Except HvError Unit} {m : Machine ρ}
      (h : Restored site env accel id e w r m) :
      Moved site accel vm e w (.call (.restore vm id) env) m

theorem move_spec {t : Turn ρ} {vm : String} {f : Machine ρ → Machine ρ}
    (h : t.move site accel = some (vm, f)) (e : VmEntry ρ) (w : World ρ) :
    Moved site accel vm e w t (f ⟨e, w⟩) := by
  cases t with
  | session _ => cases h
  | guest _ acts =>
      cases h
      dsimp only
      obtain ⟨hq, hrun⟩ | ⟨q, hq, hrun⟩ := onRuntime_update (·.during site acts) e w
      · rw [hrun]
        exact .idle hq
      · rw [hrun]
        exact .acted acts q hq
  | migrationEnds _ poll =>
      cases h
      dsimp only
      obtain ⟨hq, hrun⟩ | ⟨q, hq, hrun⟩ := onRuntime_update (·.endMigration site poll) e w
      · rw [hrun]
        exact .idle hq
      · rw [hrun]
        exact .migrated poll q hq
  | call c env =>
      cases c with
      | create _ | delete _ | state _ => cases h
      | boot _ => cases h; exact .boot env (boot_spec site env accel e w)
      | pause _ => cases h; exact .pause env (pause_spec site env e w)
      | resume _ => cases h; exact .resume env (resume_spec site env e w)
      | stop _ => cases h; exact .stop env (stop_spec site env e w)
      | snapshot _ parent => cases h; exact .snapshot env parent (snapshot_spec site env parent e w)
      | restore _ id => cases h; exact .restore env id (restore_spec site env accel id e w)

-- All that can come of a turn.
inductive Turned (site : Site ρ) (b : HvfBackend ρ) : Turn ρ → HvfBackend ρ → Prop where
  | moved {t : Turn ρ} (vm : String) (e : VmEntry ρ) (m : Machine ρ) (he : b.vms vm = some e)
      (hmove : Moved site b.accel vm e b.world t m) :
      Turned site b t ⟨b.accel, Function.update b.vms vm (some m.entry), m.world⟩
  | same {t : Turn ρ} : Turned site b t b
  | made (config : VmConfig) (env : Env ρ) (r : Except HvError Unit) (w : World ρ)
      (hnew : b.vms config.name = none)
      (h : createDirAll site env (HvfBackend.vmDir site config.name) b.world = (r, w)) :
      Turned site b (.call (.create config) env) ⟨b.accel, b.vms, w⟩
  | created (config : VmConfig) (env : Env ρ) (w : World ρ) (hnew : b.vms config.name = none)
      (h : createDirAll site env (HvfBackend.vmDir site config.name) b.world = (.ok (), w))
      (harch : config.arch = .aarch64) :
      Turned site b (.call (.create config) env)
        ⟨b.accel, Function.update b.vms config.name (some (HvfBackend.newEntry site config)), w⟩
  | deleted (vm : String) (env : Env ρ) (e : VmEntry ρ) (he : b.vms vm = some e)
      (h : e.state.transition .delete = .ok none) :
      Turned site b (.call (.delete vm) env) ⟨b.accel, Function.update b.vms vm none, b.world⟩
  | renewed (accel : Accel) : Turned site b (.session accel) ⟨accel, fun _ => none, b.world⟩

namespace HvfBackend

variable {b : HvfBackend ρ} {vm : String}

theorem withVm_none {α : Type} {x : Exec (Machine ρ) HvError α} (h : b.vms vm = none) :
    withVm vm x b = (.error (.vmNotFound vm), b) := by
  simp only [withVm, h]

theorem withVm_some {α : Type} {x : Exec (Machine ρ) HvError α} {e : VmEntry ρ}
    (h : b.vms vm = some e) :
    withVm vm x b = ((x ⟨e, b.world⟩).1, ⟨b.accel,
      Function.update b.vms vm (some (x ⟨e, b.world⟩).2.entry), (x ⟨e, b.world⟩).2.world⟩) := by
  simp only [withVm, h]

-- What a call does to its VM is what is left of the session after it, whatever it returns.
theorem withVm_bind_snd {α β : Type} {x : Exec (Machine ρ) HvError α} (f : α → β) :
    ((withVm vm x >>= fun a => (pure (f a) : Exec (HvfBackend ρ) HvError β)) b).2 =
      (withVm vm x b).2 := by
  rcases h : withVm vm x b with ⟨e | a, b'⟩
  · rw [bind_of_error h]
  · rw [bind_of_ok h]
    rfl

-- A call that returned left behind what its operation made of the entry.
theorem withVm_returned {α : Type} {x : Exec (Machine ρ) HvError α} {f : α → Reply}
    {b' : HvfBackend ρ} {reply : Reply} {e : VmEntry ρ} (he : b.vms vm = some e)
    (h : (withVm vm x >>= fun a => pure (f a) : Exec (HvfBackend ρ) HvError Reply) b =
      (.ok reply, b')) :
    ∃ a m, x ⟨e, b.world⟩ = (.ok a, m) ∧ f a = reply ∧
      b' = ⟨b.accel, Function.update b.vms vm (some m.entry), m.world⟩ := by
  obtain ⟨a, b₁, hx, hpure⟩ := bind_eq_ok.mp h
  obtain ⟨hreply, rfl⟩ := pure_eq_ok.mp hpure
  rw [withVm_some he] at hx
  obtain ⟨hr, rfl⟩ := Prod.mk.inj hx
  exact ⟨a, _, Prod.ext hr rfl, hreply, rfl⟩

theorem moved_of_withVm {α : Type} {t : Turn ρ} {x : Exec (Machine ρ) HvError α}
    (hmove : t.move site b.accel = some (vm, fun m => (x m).2)) :
    Turned site b t (withVm vm x b).2 := by
  cases h : b.vms vm with
  | none =>
      rw [withVm_none h]
      exact .same
  | some e =>
      rw [withVm_some h]
      exact .moved vm e _ h (move_spec hmove e b.world)

theorem onWorld_run {α : Type} {x : Exec (World ρ) HvError α} {r : Except HvError α}
    {w : World ρ} (h : x b.world = (r, w)) :
    HvfBackend.onWorld x b = (r, ⟨b.accel, b.vms, w⟩) := by
  simp only [HvfBackend.onWorld, h]

theorem create_spec (site : Site ρ) (env : Env ρ) (config : VmConfig) (b : HvfBackend ρ) :
    Turned site b (.call (.create config) env) (run site env (.create config) b).2 := by
  simp only [run, create, Exec.bind_assoc, read_bind]
  cases hnew : b.vms config.name with
  | some e =>
      rw [bind_of_error raiseIf_run]
      exact .same
  | none =>
      rw [bind_of_ok raiseIf_run]
      rcases hdir : createDirAll site env (vmDir site config.name) b.world with ⟨err | _, w⟩
      · rw [bind_of_error (onWorld_run hdir)]
        exact .made config env _ w hnew hdir
      · rw [bind_of_ok (onWorld_run hdir)]
        cases hinv : buildAarch64Virt site config b.accel
          (join (vmDir site config.name) "qmp.sock") with
        | error err => exact .made config env _ w hnew hdir
        | ok inv => exact .created config env w hnew hdir (buildAarch64Virt_ok_iff.mp ⟨inv, hinv⟩)

theorem delete_spec (site : Site ρ) (env : Env ρ) (vm : String) (b : HvfBackend ρ) :
    Turned site b (.call (.delete vm) env) (run site env (.delete vm) b).2 := by
  simp only [run, delete, Exec.bind_assoc, read_bind]
  cases he : b.vms vm with
  | none =>
      dsimp only
      exact .same
  | some e =>
      dsimp only
      cases hstate : e.state.transition .delete with
      | error err => exact .same
      | ok n =>
          obtain ⟨-, rfl⟩ := VmState.transition_delete.mp hstate
          exact .deleted vm env e he hstate

theorem turn_spec (site : Site ρ) (b : HvfBackend ρ) (t : Turn ρ) : Turned site b t (b.turn site t) := by
  cases t with
  | session accel => exact .renewed accel
  | guest vm acts => exact moved_of_withVm rfl
  | migrationEnds vm poll => exact moved_of_withVm rfl
  | call c env =>
      cases c with
      | create config => exact create_spec site env config b
      | delete vm => exact delete_spec site env vm b
      | state vm =>
          have hsame : (run site env (.state vm) b).2 = b := by
            simp only [run, state, Exec.bind_assoc, read_bind]
            cases b.vms vm <;> rfl
          rw [turn, hsame]
          exact .same
      | boot vm =>
          simp only [turn, run, read_bind, withVm_bind_snd]
          exact moved_of_withVm rfl
      | pause vm =>
          simp only [turn, run, withVm_bind_snd]
          exact moved_of_withVm rfl
      | resume vm =>
          simp only [turn, run, withVm_bind_snd]
          exact moved_of_withVm rfl
      | stop vm =>
          simp only [turn, run, withVm_bind_snd]
          exact moved_of_withVm rfl
      | snapshot vm parent =>
          simp only [turn, run, withVm_bind_snd]
          exact moved_of_withVm rfl
      | restore vm id =>
          simp only [turn, run, read_bind, withVm_bind_snd]
          exact moved_of_withVm rfl

-- What a new entry meets and every turn keeps of the entry it is about holds of every entry.
theorem entries_turn {P : String → VmEntry ρ → Prop} {t : Turn ρ}
    (hb : ∀ vm e, b.vms vm = some e → P vm e)
    (hnew : ∀ config : VmConfig, config.arch = .aarch64 → P config.name (newEntry site config))
    (hmove : ∀ vm e m, b.vms vm = some e → Moved site b.accel vm e b.world t m → P vm m.entry) :
    ∀ vm e, (b.turn site t).vms vm = some e → P vm e := by
  intro vm e he
  have hspec := turn_spec site b t
  revert he
  generalize b.turn site t = b' at hspec
  intro he
  cases hspec with
  | same => exact hb vm e he
  | made _ _ _ _ _ _ => exact hb vm e he
  | renewed _ => cases he
  | moved vm' e' m he' hm =>
      by_cases hvm : vm = vm'
      · subst hvm
        simp only [Function.update_self, Option.some.injEq] at he
        exact he ▸ hmove vm e' m he' hm
      · exact hb vm e (by simpa [hvm] using he)
  | created config env w _ _ harch =>
      by_cases hvm : vm = config.name
      · subst hvm
        simp only [Function.update_self, Option.some.injEq] at he
        exact he ▸ hnew config harch
      · exact hb vm e (by simpa [hvm] using he)
  | deleted vm' _ _ _ _ =>
      by_cases hvm : vm = vm'
      · subst hvm
        simp at he
      · exact hb vm e (by simpa [hvm] using he)

end HvfBackend

end VMForge.Hvf
