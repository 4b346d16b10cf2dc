import Mathlib.Data.List.Basic

namespace VMForge.Core

-- The states of a VM's lifecycle.
inductive VmState where
  | defined
  | running
  | paused
  | stopped
  | snapshotting
deriving DecidableEq

-- What drives the lifecycle.
inductive VmOp where
  | boot
  | pause
  | resume
  | stop
  | snapshotBegin
  | snapshotEnd (prior : VmState)
  | restore
  | delete
deriving DecidableEq

-- A snapshot's name: a hash in hexadecimal.
structure SnapshotId where
  text : String
deriving DecidableEq

inductive HvError where
  | invalidTransition (source : VmState) (op : String)
  | vmNotFound (id : String)
  | snapshotNotFound (id : String)
  | unsupported (backend : String) (reason : String)
  | engine (message : String)
  | io (message : String)
deriving DecidableEq

-- The `{:?}` text of a state.
def VmState.debug : VmState → String
  | .defined => "Defined"
  | .running => "Running"
  | .paused => "Paused"
  | .stopped => "Stopped"
  | .snapshotting => "Snapshotting"

-- The `{:?}` text of an operation.
def VmOp.debug : VmOp → String
  | .boot => "Boot"
  | .pause => "Pause"
  | .resume => "Resume"
  | .stop => "Stop"
  | .snapshotBegin => "SnapshotBegin"
  | .snapshotEnd prior => s!"SnapshotEnd({prior.debug})"
  | .restore => "Restore"
  | .delete => "Delete"

namespace VmState

-- `Delete` leaves no state behind.
def transition (self : VmState) (op : VmOp) : Except HvError (Option VmState) :=
  match self, op with
  | .defined, .boot | .stopped, .boot => .ok (some .running)
  | .running, .pause => .ok (some .paused)
  | .paused, .resume => .ok (some .running)
  | .running, .stop | .paused, .stop => .ok (some .stopped)
  | .running, .snapshotBegin | .paused, .snapshotBegin => .ok (some .snapshotting)
  | .snapshotting, .snapshotEnd .running => .ok (some .running)
  | .snapshotting, .snapshotEnd .paused => .ok (some .paused)
  | .defined, .restore | .stopped, .restore | .paused, .restore => .ok (some .running)
  | .defined, .delete | .stopped, .delete => .ok none
  | source, op => .error (.invalidTransition source op.debug)

-- The states with a QEMU process.
def isLive : VmState → Bool
  | .running => true
  | .paused => true
  | _ => false

section Transitions

variable {s : VmState} {n : Option VmState}

theorem transition_boot : s.transition .boot = .ok n ↔
    (s = .defined ∨ s = .stopped) ∧ n = some .running := by
  cases s <;> simp [transition, eq_comm]

theorem transition_pause : s.transition .pause = .ok n ↔ s = .running ∧ n = some .paused := by
  cases s <;> simp [transition, eq_comm]

theorem transition_resume : s.transition .resume = .ok n ↔ s = .paused ∧ n = some .running := by
  cases s <;> simp [transition, eq_comm]

theorem transition_stop : s.transition .stop = .ok n ↔
    (s = .running ∨ s = .paused) ∧ n = some .stopped := by
  cases s <;> simp [transition, eq_comm]

theorem transition_snapshotBegin : s.transition .snapshotBegin = .ok n ↔
    (s = .running ∨ s = .paused) ∧ n = some .snapshotting := by
  cases s <;> simp [transition, eq_comm]

-- Only a live VM is captured.
theorem isLive_of_snapshotBegin (h : s.transition .snapshotBegin = .ok n) : s.isLive = true := by
  obtain ⟨rfl | rfl, -⟩ := transition_snapshotBegin.mp h <;> rfl

theorem transition_restore : s.transition .restore = .ok n ↔
    (s = .defined ∨ s = .stopped ∨ s = .paused) ∧ n = some .running := by
  cases s <;> simp [transition, eq_comm]

theorem transition_delete : s.transition .delete = .ok n ↔
    (s = .defined ∨ s = .stopped) ∧ n = none := by
  cases s <;> simp [transition, eq_comm]

-- A capture ends where it began.
theorem transition_snapshotEnd (h : s = .running ∨ s = .paused) :
    snapshotting.transition (.snapshotEnd s) = .ok (some s) := by
  rcases h with rfl | rfl <;> rfl

end Transitions

end VmState

end VMForge.Core
