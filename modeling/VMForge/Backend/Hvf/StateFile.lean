import VMForge.Backend.Hvf.Aimed
import VMForge.Backend.Hvf.Files
import VMForge.Engine.Uri

namespace VMForge.Hvf

open VMForge.Core Engine Exec HvfBackend

variable {ρ : Type} {site : Site ρ} {env : Env ρ}

-- A state file in the directory of a VM, for one of its snapshots.
def StatePath (site : Site ρ) (path : String) : Prop :=
  ∃ vm k, path = join (vmDir site vm) (QemuVm.stateName (snapTag k))

def Stated (site : Site ρ) : Event ρ → Prop
  | .command _ c _ _ => ∀ path, c.stateFile = some path → StatePath site path
  | _ => True

theorem quiet_stated : Quiet (Stated site) where
  spawned _ := trivial
  command _ c _ _ hfile hload := by
    intro path hpath
    cases c with
    | migrate _ => cases hfile
    | migrateIncoming _ => cases hload
    | cont | stop | queryStatus | queryMigrate | quit | blockdevSnapshotSync _ _ _ => cases hpath

theorem capture_stated {vm : String} {e : VmEntry ρ} (hdir : e.dir = vmDir site vm) :
    Keeps (Logs (Stated site)) (capture site env e) := by
  have hquiet := @quiet_stated ρ site
  refine (logs_frame site (Stated site)).snapshot_of env (diskNodes e) e.dir _
    (hquiet.allowed rfl rfl) (hquiet.allowed rfl rfl) ?_ ?_ (hquiet.allowed rfl rfl)
    (hquiet.allowed rfl rfl) (fun _ _ _ h => carryOut_logs h) fun s p => endMigration_logs s p
  · intro node file snap step q files path hpath
    cases hpath
  · intro step q files path hpath
    obtain rfl := Option.some.inj hpath
    exact ⟨vm, e.snapshotSeq + 1, by rw [hdir]⟩

theorem stated_turn {b : HvfBackend ρ} {t : Turn ρ} (hnamed : ∀ vm e, b.vms vm = some e → Named e)
    (hdir : ∀ vm e, b.vms vm = some e → e.dir = vmDir site vm) :
    World.Logs (Stated site) b.world (b.turn site t).world := by
  refine logs_turn fun vm e m he hmove => hmove.logs quiet_stated ?_ ?_ ?_
  · intro env parent q r s _ _ _ hrun
    have hkeeps := @capture_stated ρ site env vm e (hdir vm e he) ⟨q, b.world⟩
    rw [hrun] at hkeeps
    exact hkeeps
  · intro env id a w₁ r₂ w₂ _ _ _ hoverlays
    have hkeeps := createOverlays_logs (P := Stated site) site env
      (fun _ _ _ => trivial) e (branchTag (e.snapshotSeq + 1)) a.diskBases w₁
    rwa [hoverlays] at hkeeps
  · intro id a ha step q files path hpath
    obtain rfl := Option.some.inj hpath
    obtain ⟨k, -, hstate⟩ := (hnamed vm e he).states id a ha
    exact ⟨vm, k, by rw [hstate, generatedPath, hdir vm e he]; rfl⟩

-- The commands that the calls of a run have given to QEMU.
def commandsOf (w : World ρ) : List Command :=
  w.log.filterMap fun
    | .command _ c _ _ => some c
    | _ => none

theorem run_stated (site : Site ρ) (accel : Accel) (files : Files ρ) (turns : List (Turn ρ)) :
    ∀ ev ∈ (after (turn site) (new accel files) turns).world.log, Stated site ev := by
  have hinv := @invariant_of_steps _ _ (turn site) (new accel files)
    (fun b => (∀ vm e, b.vms vm = some e → Shaped e) ∧ (∀ vm e, b.vms vm = some e → Named e) ∧
      (∀ vm e, b.vms vm = some e → e.dir = vmDir site vm) ∧ ∀ ev ∈ b.world.log, Stated site ev)
    turns ?_ ?_
  · exact hinv.2.2.2
  · exact ⟨fun _ _ he => (by cases he), fun _ _ he => (by cases he), fun _ _ he => (by cases he),
      fun _ hev => (by cases hev)⟩
  · intro b t hb
    exact ⟨shaped_turn t hb.1, named_turn t hb.1 hb.2.1, dir_turn t hb.2.2.1,
      (stated_turn hb.2.1 hb.2.2.1).all hb.2.2.2⟩

-- Every state file that a run has QEMU write or load is one of a VM's directory, and the shell
-- gets it right exactly if it gives no character of the path a meaning.
theorem state_path_survives_iff (site : Site ρ) (accel : Accel) (files : Files ρ)
    (turns : List (Turn ρ)) (c : Command) (path : String)
    (hc : c ∈ commandsOf (after (turn site) (new accel files) turns).world)
    (hpath : c.stateFile = some path) : StatePath site path ∧ (c.Survives ↔ c.Spared) := by
  obtain ⟨ev, hev, heq⟩ := List.mem_filterMap.mp hc
  have hstated := run_stated site accel files turns ev hev
  cases ev with
  | command step c' q fs =>
      obtain rfl := Option.some.inj heq
      exact ⟨hstated path hpath, survives_iff c'⟩
  | spawned _ | createdOverlay _ _ _ => cases heq

def Sample.named (name : String) : VmConfig := { Sample.config with name := name }

-- A VM that is captured, resumed and restored.
def Sample.saved (name : String) : World Nat :=
  (after (turn Sample.site) (new .tcg Sample.files) (Sample.calls
    [(.create (Sample.named name), []), (.boot name, []), (.snapshot name none, []),
      (.stop name, []), (.restore name ⟨"0/srv/web/snap1-disk0.qcow2"⟩, [])])).world

theorem state_path_survives_web :
    StatePath Sample.site "/srv/web/snap1-state.bin" ∧
      (Command.migrate "/srv/web/snap1-state.bin").Survives ∧
      (Command.migrateIncoming "/srv/web/snap1-state.bin").Survives := by
  have hmigrate : Command.migrate "/srv/web/snap1-state.bin" ∈ commandsOf (Sample.saved "web") := by
    decide +kernel
  have hincoming : Command.migrateIncoming "/srv/web/snap1-state.bin" ∈
      commandsOf (Sample.saved "web") := by
    decide +kernel
  have hliteral : Shell.Literal "/srv/web/snap1-state.bin".toList :=
    ⟨by decide, by decide, by decide, by decide⟩
  obtain ⟨hpath, hwrite⟩ := state_path_survives_iff Sample.site .tcg Sample.files _ _ _ hmigrate rfl
  obtain ⟨-, hread⟩ := state_path_survives_iff Sample.site .tcg Sample.files _ _ _ hincoming rfl
  exact ⟨hpath, hwrite.mpr hliteral, hread.mpr ⟨hliteral, by decide, by decide⟩⟩

-- A blank in the name of a VM ends the target of the output.
theorem state_path_cut :
    Command.migrate "/srv/my vm/snap1-state.bin" ∈ commandsOf (Sample.saved "my vm") ∧
      Shell.read (migrateExec "/srv/my vm/snap1-state.bin") =
        some ⟨["cat".toList, "vm/snap1-state.bin".toList], ["/srv/my".toList]⟩ ∧
      ¬(Command.migrate "/srv/my vm/snap1-state.bin").Survives := by
  refine ⟨by decide +kernel, by decide, ?_⟩
  show ¬Shell.read _ = _
  decide

end VMForge.Hvf
