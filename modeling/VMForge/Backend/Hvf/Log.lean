import VMForge.Backend.Hvf.Lemmas
import VMForge.Engine.Chains

namespace VMForge.Engine

open VMForge.Core Exec

variable {ρ : Type} {site : Site ρ} {env : Env ρ}

-- A property of events that only the making of a file or the loading of a state can break.
structure Quiet (P : Event ρ → Prop) : Prop where
  spawned : ∀ inv, P (.spawned inv)
  command : ∀ step c q files, c.makesFile = false → c.loadsState = false → P (.command step c q files)

namespace Quiet

variable {P : Event ρ → Prop} (hP : Quiet P)
include hP

theorem allowed {c : Command} (hc : c.makesFile = false) (hload : c.loadsState = false) (step : Step)
    (q : Qemu ρ) (files : Files ρ) : P (.command step c q files) :=
  hP.command step c q files hc hload

theorem spawn {inv : Invocation} {w w' : World ρ} {r : Except HvError (Qemu ρ)}
    (h : QemuVm.spawn site env inv w = (r, w')) : World.Logs P w w' := by
  have hw : w' = w.note (.spawned inv) := by
    unfold QemuVm.spawn at h
    split at h
    · cases h
      rfl
    · split at h <;> (cases h; rfl)
  subst hw
  exact World.Logs.note w (hP.spawned inv)

theorem order {step : Step} {c : Command} (hc : c.makesFile = false) (hload : c.loadsState = false) :
    Keeps (Logs P) (QemuVm.order site env step c) :=
  (logs_frame site P).order (hP.allowed hc hload) fun _ _ h => carryOut_logs h

theorem cont : Keeps (Logs P) (QemuVm.cont (ρ := ρ) site env) := hP.order rfl rfl

theorem pause : Keeps (Logs P) (QemuVm.pause (ρ := ρ) site env) := hP.order rfl rfl

theorem quit (site : Site ρ) (env : Env ρ) : Keeps (Logs P) (QemuVm.quit site env) :=
  (logs_frame site P).quit (hP.allowed rfl rfl) fun _ _ h => carryOut_logs h

theorem restoreIncoming {stateFile : String}
    (hload : ∀ step q files, P (.command step (.migrateIncoming stateFile) q files)) :
    Keeps (Logs P) (QemuVm.restoreIncoming (ρ := ρ) site env stateFile) :=
  (logs_frame site P).restoreIncoming hload (hP.allowed rfl rfl)
    (fun _ _ h => carryOut_logs h) fun s l => load_logs s stateFile l

theorem beginCapture : Keeps (Logs P) (beginCapture (ρ := ρ) site env) :=
  beginCapture_keeps env (logs_frame site P) (hP.allowed rfl rfl) (hP.allowed rfl rfl)
    fun _ _ h => carryOut_logs h

end Quiet

end VMForge.Engine

namespace VMForge.Hvf

open VMForge.Core Engine Exec

variable {ρ : Type} {site : Site ρ} {env : Env ρ} {accel : Accel} {P : Event ρ → Prop}
  (hP : Quiet P) {e : VmEntry ρ} {w : World ρ} {m : Machine ρ}
include hP

theorem Booted.logs {r : Except HvError Unit} (h : Booted site env accel e w r m) :
    World.Logs P w m.world := by
  cases h with
  | rejected _ _ | uninvocable _ _ => exact World.Logs.of_eq rfl
  | unspawned inv err w' _ hspawn => exact hP.spawn hspawn
  | dropped inv q w' err s _ hspawn hcont => exact (hP.spawn hspawn).trans (hP.cont.error hcont)
  | done inv q w' s _ _ hspawn hcont => exact (hP.spawn hspawn).trans (hP.cont.ok hcont)

omit hP in
theorem Commanded.logs {op : VmOp} {x : Exec (Session ρ) HvError Unit} {r : Except HvError Unit}
    (hx : Keeps (Logs P) x) (h : Commanded op x e w r m) : World.Logs P w m.world := by
  cases h with
  | rejected _ _ | absent _ _ => exact World.Logs.of_eq rfl
  | failed n q err s _ _ hrun => exact hx.error hrun
  | done n q s _ _ hrun => exact hx.ok hrun

theorem Quitted.logs {r : Except HvError Unit} {w' : World ρ} (h : Quitted site env e w r w') :
    World.Logs P w w' := by
  cases h with
  | absent _ => exact World.Logs.of_eq rfl
  | quit q r s _ hrun =>
      have hkeeps := hP.quit site env ⟨q, w⟩
      rw [hrun] at hkeeps
      exact hkeeps

theorem Stopped.logs {r : Except HvError Unit} (h : Stopped site env e w r m) :
    World.Logs P w m.world := by
  cases h with
  | rejected _ _ => exact World.Logs.of_eq rfl
  | failed _ _ _ hquit => exact hquit.logs hP
  | done _ _ hquit => exact hquit.logs hP

theorem Launched.logs {inv : Invocation} {stateFile : String} {r : Except HvError (Qemu ρ)}
    {w' : World ρ} (hstate : ∀ step q files, P (.command step (.migrateIncoming stateFile) q files))
    (h : Launched site env inv stateFile w r w') : World.Logs P w w' := by
  cases h with
  | unspawned err w' hspawn => exact hP.spawn hspawn
  | unloaded q w₁ err s hspawn hload =>
      exact (hP.spawn hspawn).trans ((hP.restoreIncoming hstate).error hload)
  | halted q w₁ s err s' hspawn hload hcont =>
      exact (hP.spawn hspawn).trans
        (((hP.restoreIncoming hstate).ok hload).trans (hP.cont.error hcont))
  | done q w₁ s s' hspawn hload hcont =>
      exact (hP.spawn hspawn).trans
        (((hP.restoreIncoming hstate).ok hload).trans (hP.cont.ok hcont))

omit hP in
theorem createOverlays_logs (site : Site ρ) (env : Env ρ)
    (hP : ∀ base overlay fs, P (.createdOverlay base overlay fs)) (e : VmEntry ρ) (tag : String)
    (bases : List String) : Keeps (World.Logs P) (createOverlays site env e tag bases) := by
  refine keeps_mapEach (fun _ _ _ h h' => h.trans h') (fun _ => World.Logs.of_eq rfl) fun p _ => ?_
  refine keeps_bind (fun _ _ _ h h' => h.trans h') (fun w => ?_) fun _ =>
    keeps_pure (fun _ => World.Logs.of_eq rfl) _
  have hnote := World.Logs.note w (hP p.1 (overlayPath e tag p.2) w.files)
  unfold createOverlay
  dsimp only
  split
  · exact hnote.trans (World.Logs.of_eq rfl)
  · exact hnote.trans (World.Logs.of_eq rfl)
  · exact hnote

-- A restore logs what its overlays do, and nothing else of note.
theorem Restored.logs {id : SnapshotId} {r : Except HvError Unit}
    (hbranch : ∀ a w₁ r₂ w₂, e.snapshots id = some a → Quitted site env e w (.ok ()) w₁ →
      createOverlays site env e (branchTag (e.snapshotSeq + 1)) a.diskBases w₁ = (r₂, w₂) →
      World.Logs P w₁ w₂)
    (hload : ∀ a, e.snapshots id = some a →
      ∀ step q files, P (.command step (.migrateIncoming a.stateFile) q files))
    (h : Restored site env accel id e w r m) : World.Logs P w m.world := by
  cases h with
  | rejected _ _ | unknown _ => exact World.Logs.of_eq rfl
  | unquit a err w₁ _ _ hquit => exact hquit.logs hP
  | unbranched a err w₁ w₂ _ ha hquit hoverlays =>
      exact (hquit.logs hP).trans (hbranch a w₁ _ w₂ ha hquit hoverlays)
  | uninvocable a overlays err w₁ w₂ _ ha hquit hoverlays _ =>
      exact (hquit.logs hP).trans (hbranch a w₁ _ w₂ ha hquit hoverlays)
  | unlaunched a overlays inv err w₁ w₂ w₃ _ ha hquit hoverlays _ hlaunch =>
      exact (hquit.logs hP).trans ((hbranch a w₁ _ w₂ ha hquit hoverlays).trans (hlaunch.logs hP (hload a ha)))
  | done a overlays inv q w₁ w₂ w₃ _ ha hquit hoverlays _ hlaunch =>
      exact (hquit.logs hP).trans ((hbranch a w₁ _ w₂ ha hquit hoverlays).trans (hlaunch.logs hP (hload a ha)))

-- A capture logs what it asks of the process.
omit hP in
theorem Captured.logs {parent : Option SnapshotId} {r : Except HvError SnapshotId}
    (hcapture : ∀ q r s, e.runtime = some q → Admits e parent →
      capture site env e ⟨q, w⟩ = (r, s) → World.Logs P w s.world)
    (h : Captured site env parent e w r m) : World.Logs P w m.world := by
  cases h with
  | orphaned _ _ _ | rejected _ _ | absent _ _ _ => exact World.Logs.of_eq rfl
  | failed q err s hstate hknown hq hrun => exact hcapture q _ s hq (admits_of hstate hknown) hrun
  | done q id s hstate hknown hq hrun => exact hcapture q _ s hq (admits_of hstate hknown) hrun

-- What a turn logs is what it logs for the VM it is about, but for the calls that `hcapture` and
-- `hbranch` are about.
theorem Moved.logs {vm : String} {t : Turn ρ}
    (hcapture : ∀ env parent q r s, t = .call (.snapshot vm parent) env → e.runtime = some q →
      Admits e parent → capture site env e ⟨q, w⟩ = (r, s) → World.Logs P w s.world)
    (hbranch : ∀ env id a w₁ r₂ w₂, t = .call (.restore vm id) env → e.snapshots id = some a →
      Quitted site env e w (.ok ()) w₁ →
      createOverlays site env e (branchTag (e.snapshotSeq + 1)) a.diskBases w₁ = (r₂, w₂) →
      World.Logs P w₁ w₂)
    (hload : ∀ id a, e.snapshots id = some a →
      ∀ step q files, P (.command step (.migrateIncoming a.stateFile) q files))
    (h : Moved site accel vm e w t m) : World.Logs P w m.world := by
  cases h with
  | idle _ => exact World.Logs.of_eq rfl
  | acted acts q _ => exact World.Logs.of_eq (Session.during_log site _ acts)
  | migrated poll q _ => exact endMigration_logs _ poll
  | boot _ hspec => exact hspec.logs hP
  | pause _ hspec => exact hspec.logs hP.pause
  | resume _ hspec => exact hspec.logs hP.cont
  | stop _ hspec => exact hspec.logs hP
  | snapshot env parent hspec =>
      exact hspec.logs fun q r s hq hadmits hrun => hcapture env parent q r s rfl hq hadmits hrun
  | restore env id hspec =>
      exact hspec.logs hP
        (fun a w₁ r₂ w₂ ha hquit hoverlays => hbranch env id a w₁ r₂ w₂ rfl ha hquit hoverlays)
        (hload id)

omit hP in
theorem createDirs_log (env : Env ρ) (names : List String) (here : Path) (depth : Nat) :
    Keeps (fun w w' : World ρ => w'.log = w.log) (createDirs env names here depth) := by
  have htrans : ∀ w w' w'' : World ρ, w'.log = w.log → w''.log = w'.log → w''.log = w.log :=
    fun _ _ _ h h' => h'.trans h
  induction names generalizing here depth with
  | nil => exact fun _ => rfl
  | cons n names ih =>
      unfold createDirs
      split
      · exact ih _ _
      · refine keeps_bind htrans (fun w => ?_) fun _ => ih _ _
        unfold createDir
        split <;> rfl

omit hP in
theorem createDirAll_log {dir : String} {w' : World ρ} {r : Except HvError Unit}
    (h : createDirAll site env dir w = (r, w')) : w'.log = w.log := by
  have hkeeps := createDirs_log env (Path.parts dir)
    (if Path.isAbsolute dir then [] else Path.resolve site.cwd) 0 w
  unfold createDirAll at h
  split at h
  · cases h
    rfl
  · rwa [h] at hkeeps

omit hP in
theorem HvfBackend.logs_turn {b : HvfBackend ρ} {t : Turn ρ}
    (hmove : ∀ vm e m, b.vms vm = some e → Moved site b.accel vm e b.world t m →
      World.Logs P b.world m.world) : World.Logs P b.world (b.turn site t).world := by
  have hspec := turn_spec site b t
  revert hspec
  generalize b.turn site t = b'
  intro hspec
  cases hspec with
  | same | deleted _ _ _ _ _ | renewed _ => exact World.Logs.of_eq rfl
  | made _ _ _ _ _ hdir => exact World.Logs.of_eq (createDirAll_log hdir)
  | created _ _ _ _ hdir _ => exact World.Logs.of_eq (createDirAll_log hdir)
  | moved vm e m he hm => exact hmove vm e m he hm

end VMForge.Hvf
