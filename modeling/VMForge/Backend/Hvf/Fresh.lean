import VMForge.Backend.Hvf.Paths
import VMForge.Backend.Hvf.Log
import VMForge.Engine.Fresh
import Mathlib.Data.List.Infix
import Mathlib.Data.List.Nodup

namespace VMForge.Engine

open VMForge.Core Exec

variable {ρ : Type} {site : Site ρ} {env : Env ρ}

-- The world goes on without a new file.
def World.Steady (site : Site ρ) (w w' : World ρ) : Prop :=
  World.Logs (Event.Fresh site) w w' ∧ ∀ p, w'.files p = none ↔ w.files p = none

namespace World.Steady

variable {w w' w'' : World ρ}

theorem refl (w : World ρ) : World.Steady site w w := ⟨World.Logs.of_eq rfl, fun _ => Iff.rfl⟩

theorem trans (h : World.Steady site w w') (h' : World.Steady site w' w'') :
    World.Steady site w w'' :=
  ⟨h.1.trans h'.1, fun p => (h'.2 p).trans (h.2 p)⟩

end World.Steady

theorem Tame.steady {s s' : Session ρ} (h : Tame site s s') (hs : Saving site s) :
    World.Steady site s.world s'.world := (h hs).2

-- A process that has just come up saves nothing.
theorem Saving.of_start {inv : Invocation} (w : World ρ) : Saving site ⟨Qemu.start site inv, w⟩ :=
  fun _ h => nomatch h

theorem Saving.of_kept {q : Qemu ρ} {w w' : World ρ} (h : Saving site ⟨q, w⟩)
    (hkept : ∀ p, w'.files p = none → w.files p = none) : Saving site ⟨q, w'⟩ :=
  fun file hfile hnone => h file hfile (hkept _ hnone)

theorem tame_order {step : Step} {c : Command} (hc : c.makesFile = false) :
    Keeps (Tame site) (QemuVm.order site env step c) :=
  (tame_frame site).order hc fun _ _ h => carryOut_tame hc h

theorem tame_quit (site : Site ρ) (env : Env ρ) : Keeps (Tame site) (QemuVm.quit site env) :=
  (tame_frame site).quit rfl fun _ _ h => carryOut_tame rfl h

theorem tame_restoreIncoming (site : Site ρ) (env : Env ρ) (file : String) :
    Keeps (Tame site) (QemuVm.restoreIncoming site env file) :=
  (tame_frame site).restoreIncoming rfl rfl (fun _ _ h => carryOut_tame rfl h)
    fun s l => load_tame s file l

end VMForge.Engine

namespace VMForge.Hvf

open VMForge.Core Engine Exec HvfBackend

variable {ρ : Type} {site : Site ρ} {env : Env ρ} {accel : Accel}

-- The files that a VM has yet to make are not there.
def Unmade (site : Site ρ) (files : Files ρ) (e : VmEntry ρ) : Prop :=
  ∀ g : Generated, e.snapshotSeq < g.seq → files (site.locate (generatedPath e g)) = none

-- What a call does for its VM: the files it makes are those that were next in turn.
structure Took (site : Site ρ) (e : VmEntry ρ) (w : World ρ) (m : Machine ρ) : Prop where
  dir : m.entry.dir = e.dir
  seq : e.snapshotSeq ≤ m.entry.snapshotSeq
  saving : ∀ q, m.entry.runtime = some q → Saving site ⟨q, m.world⟩
  logs : World.Logs (Event.Fresh site) w m.world
  files : ∀ p, (∀ g : Generated, e.snapshotSeq < g.seq → g.seq ≤ m.entry.snapshotSeq →
    p ≠ site.locate (generatedPath e g)) → (m.world.files p = none ↔ w.files p = none)

section Moves

variable {e : VmEntry ρ} {w : World ρ} {m : Machine ρ}
  (hsaving : ∀ q, e.runtime = some q → Saving site ⟨q, w⟩)

-- Without a new file any entry for the same directory will do.
theorem Took.of_steady {w' : World ρ} {e' : VmEntry ρ} (hdir : e'.dir = e.dir)
    (hseq : e.snapshotSeq ≤ e'.snapshotSeq)
    (hsaving : ∀ q, e'.runtime = some q → Saving site ⟨q, w'⟩) (h : World.Steady site w w') :
    Took site e w ⟨e', w'⟩ :=
  ⟨hdir, hseq, hsaving, h.1, fun p _ => h.2 p⟩

include hsaving

-- The process the VM had, in a world without a new file.
theorem Took.of_kept {w' : World ρ} (h : World.Steady site w w') : Took site e w ⟨e, w'⟩ :=
  Took.of_steady rfl (le_refl _)
    (fun q hq => (hsaving q hq).of_kept fun p => (h.2 p).mp) h

-- The process the VM had has gone on.
theorem Took.of_tame {q : Qemu ρ} {s : Session ρ} (hq : e.runtime = some q)
    (h : Tame site ⟨q, w⟩ s) : Took site e w ⟨e.setRuntime (some s.qemu), s.world⟩ := by
  refine Took.of_steady rfl (le_refl _) (fun q' hq' => ?_) (h.steady (hsaving q hq))
  cases hq'
  exact (h (hsaving q hq)).1

omit hsaving in
theorem spawn_steady {inv : Invocation} {r : Except HvError (Qemu ρ)} {w' : World ρ}
    (h : QemuVm.spawn site env inv w = (r, w')) : World.Steady site w w' := by
  have hw : w' = w.note (.spawned inv) := by
    unfold QemuVm.spawn at h
    split at h
    · cases h
      rfl
    · split at h <;> (cases h; rfl)
  subst hw
  exact ⟨World.Logs.note w trivial, fun _ => Iff.rfl⟩

theorem Booted.took {r : Except HvError Unit} (h : Booted site env accel e w r m) :
    Took site e w m := by
  cases h with
  | rejected _ _ | uninvocable _ _ => exact Took.of_kept hsaving (World.Steady.refl w)
  | unspawned inv err w' _ hspawn => exact Took.of_kept hsaving (spawn_steady hspawn)
  | dropped inv q w' err s _ hspawn hcont =>
      obtain ⟨rfl, -⟩ := spawn_ok hspawn
      have htame := (tame_order rfl).error hcont
      exact Took.of_kept hsaving
        ((spawn_steady hspawn).trans (htame.steady (Saving.of_start w')))
  | done inv q w' s _ _ hspawn hcont =>
      obtain ⟨rfl, -⟩ := spawn_ok hspawn
      have htame := (tame_order rfl).ok hcont
      refine Took.of_steady rfl (le_refl _) (fun q hq => ?_)
        ((spawn_steady hspawn).trans (htame.steady (Saving.of_start w')))
      cases hq
      exact (htame (Saving.of_start w')).1

theorem Commanded.took {op : VmOp} {x : Exec (Session ρ) HvError Unit} {r : Except HvError Unit}
    (hx : Keeps (Tame site) x) (h : Commanded op x e w r m) : Took site e w m := by
  cases h with
  | rejected _ _ | absent _ _ => exact Took.of_kept hsaving (World.Steady.refl w)
  | failed n q err s _ hq hrun => exact Took.of_tame hsaving hq (hx.error hrun)
  | done n q s _ hq hrun =>
      obtain ⟨hdir, hseq, hruns, hlogs, hfiles⟩ := Took.of_tame hsaving hq (hx.ok hrun)
      exact ⟨hdir, hseq, hruns, hlogs, hfiles⟩

theorem Quitted.steady {r : Except HvError Unit} {w' : World ρ}
    (h : Quitted site env e w r w') : World.Steady site w w' := by
  cases h with
  | absent _ => exact World.Steady.refl w
  | quit q r s hq hrun =>
      have htame := tame_quit site env ⟨q, w⟩
      rw [hrun] at htame
      exact htame.steady (hsaving q hq)

theorem Stopped.took {r : Except HvError Unit} (h : Stopped site env e w r m) :
    Took site e w m := by
  cases h with
  | rejected _ _ => exact Took.of_kept hsaving (World.Steady.refl w)
  | failed _ _ _ hquit =>
      exact Took.of_steady rfl (le_refl _) (fun _ hq => nomatch hq) (hquit.steady hsaving)
  | done _ _ hquit =>
      exact Took.of_steady rfl (le_refl _) (fun _ hq => nomatch hq) (hquit.steady hsaving)

omit hsaving in
theorem Launched.steady {inv : Invocation} {file : String} {r : Except HvError (Qemu ρ)}
    {w' : World ρ} (h : Launched site env inv file w r w') :
    World.Steady site w w' ∧ ∀ q, r = .ok q → Saving site ⟨q, w'⟩ := by
  cases h with
  | unspawned err w' hspawn => exact ⟨spawn_steady hspawn, fun _ hr => nomatch hr⟩
  | unloaded q w₁ err s hspawn hload =>
      obtain ⟨rfl, -⟩ := spawn_ok hspawn
      have htame := (tame_restoreIncoming site env file).error hload
      exact ⟨(spawn_steady hspawn).trans (htame.steady (Saving.of_start w₁)),
        fun _ hr => nomatch hr⟩
  | halted q w₁ s err s' hspawn hload hcont =>
      obtain ⟨rfl, -⟩ := spawn_ok hspawn
      have htame := (tame_restoreIncoming site env file).ok hload
      have hcont := (tame_order rfl).error hcont
      have hs := (htame (Saving.of_start w₁)).1
      exact ⟨(spawn_steady hspawn).trans
        ((htame.steady (Saving.of_start w₁)).trans (hcont.steady hs)), fun _ hr => nomatch hr⟩
  | done q w₁ s s' hspawn hload hcont =>
      obtain ⟨rfl, -⟩ := spawn_ok hspawn
      have htame := (tame_restoreIncoming site env file).ok hload
      have hcont := (tame_order rfl).ok hcont
      have hs := (htame (Saving.of_start w₁)).1
      refine ⟨(spawn_steady hspawn).trans
        ((htame.steady (Saving.of_start w₁)).trans (hcont.steady hs)), fun q hq => ?_⟩
      cases hq
      exact (hcont hs).1

-- Generated files of different disks have different paths.
omit hsaving in
theorem generated_nodup (site : Site ρ) (e : VmEntry ρ) {g : Nat → Generated}
    (hg : Function.Injective g) (n : Nat) :
    ((List.range n).map fun i => site.locate (generatedPath e (g i))).Nodup :=
  List.Nodup.map (fun _ _ h => hg (locate_generated_inj e e _ _ h).2) List.nodup_range

omit hsaving in
theorem branchDisk_fresh (tag : String) (p : String × Nat) (w : World ρ)
    (hnone : w.files (site.locate (overlayPath e tag p.2)) = none) :
    True ∧ World.Logs (Event.Fresh site) w (branchDisk site env e tag p w).2 ∧
      ∀ q, q ≠ site.locate (overlayPath e tag p.2) →
        ((branchDisk site env e tag p w).2.files q = none ↔ w.files q = none) := by
  have hworld : (branchDisk site env e tag p w).2 =
      (createOverlay site env p.2 p.1 (overlayPath e tag p.2) w).2 := by
    unfold branchDisk
    rcases hx : createOverlay site env p.2 p.1 (overlayPath e tag p.2) w with ⟨err | u, w'⟩
    · rw [bind_of_error hx]
    · rw [bind_of_ok hx]
      rfl
  have hnote : World.Logs (Event.Fresh site) w
      (w.note (.createdOverlay p.1 (overlayPath e tag p.2) w.files)) :=
    World.Logs.note w hnone
  rw [hworld]
  unfold createOverlay
  dsimp only
  split
  · exact ⟨trivial, hnote.trans (World.Logs.of_eq rfl), fun q hq => by
      rw [World.put_files_of_ne _ _ hq, World.note_files]⟩
  · exact ⟨trivial, hnote.trans (World.Logs.of_eq rfl), fun q hq => by
      rw [World.put_files_of_ne _ _ hq, World.note_files]⟩
  · exact ⟨trivial, hnote, fun _ _ => Iff.rfl⟩

-- A restore makes its overlays where there is no file.
omit hsaving in
theorem createOverlays_fresh {k : Nat} {bases : List String} {r : Except HvError (List String)}
    {w' : World ρ}
    (hnone : ∀ i, w.files (site.locate (generatedPath e (.branchDisk k i))) = none)
    (h : createOverlays site env e (branchTag k) bases w = (r, w')) :
    World.Logs (Event.Fresh site) w w' ∧
      ∀ p, (∀ i, p ≠ site.locate (generatedPath e (.branchDisk k i))) →
        (w'.files p = none ↔ w.files p = none) := by
  rw [createOverlays_eq] at h
  have hnodup : (bases.zipIdx.map fun p => site.locate (overlayPath e (branchTag k) p.2)).Nodup := by
    have hsnd : (bases.zipIdx.map fun p => site.locate (overlayPath e (branchTag k) p.2)) =
        (List.range bases.length).map fun i => site.locate (generatedPath e (.branchDisk k i)) := by
      simp only [overlayPath_branchTag]
      rw [List.range_eq_range', ← List.zipIdx_map_snd 0 bases, List.map_map]
      simp only [Function.comp_def]
    rw [hsnd]
    exact generated_nodup site e (fun _ _ hij => (Generated.branchDisk.inj hij).2) _
  obtain ⟨-, hlogs, hframe⟩ := mapEach_takes (fun (w : World ρ) p => w.files p = none)
    (R := World.Logs (Event.Fresh site)) (fun _ => World.Logs.of_eq rfl)
    (fun _ _ _ h h' => h.trans h') _
    (fun p w (_ : True) hfree => branchDisk_fresh (branchTag k) p w hfree) bases.zipIdx hnodup w
    trivial fun p _ => hnone p.2
  rw [h] at hlogs hframe
  exact ⟨hlogs, fun p hp => hframe p fun a _ => hp a.2⟩

-- The overlays a restore has made, before its process starts.
theorem Quitted.took {a : SnapshotArtifacts} {w₁ w₂ : World ρ}
    {r : Except HvError (List String)} {e' : VmEntry ρ} (hunmade : Unmade site w.files e)
    (hdir : e'.dir = e.dir) (hseq : e'.snapshotSeq = e.snapshotSeq + 1)
    (hruntime : e'.runtime = none) (hquit : Quitted site env e w (.ok ()) w₁)
    (hbranch : createOverlays site env e (branchTag (e.snapshotSeq + 1)) a.diskBases w₁ = (r, w₂)) :
    Took site e w ⟨e', w₂⟩ := by
  have hsteady := hquit.steady hsaving
  obtain ⟨hlogs, hframe⟩ := createOverlays_fresh
    (fun i => (hsteady.2 _).mpr (hunmade (.branchDisk _ i) (Nat.lt_succ_self _))) hbranch
  refine ⟨hdir, by simp only [hseq]; omega, fun q hq => ?_, hsteady.1.trans hlogs, fun p hp => ?_⟩
  · rw [hruntime] at hq
    cases hq
  · refine (hframe p fun i => ?_).trans (hsteady.2 p)
    exact hp (.branchDisk _ i) (Nat.lt_succ_self _) (by simp only [hseq]; exact le_refl _)

-- What the process does that a restore starts.
omit hsaving in
theorem Took.launched {e' : VmEntry ρ} {w₂ w₃ : World ρ} {inv : Invocation} {file : String}
    {r : Except HvError (Qemu ρ)} (h : Took site e w ⟨e', w₂⟩)
    (hlaunch : Launched site env inv file w₂ r w₃) (runtime : Option (Qemu ρ))
    (hruntime : ∀ q, runtime = some q → r = .ok q) :
    Took site e w ⟨e'.setRuntime runtime, w₃⟩ := by
  obtain ⟨hsteady, hsaving⟩ := hlaunch.steady
  exact ⟨h.dir, h.seq, fun q hq => hsaving q (hruntime q hq), h.logs.trans hsteady.1,
    fun p hp => (hsteady.2 p).trans (h.files p hp)⟩

theorem Restored.took {id : SnapshotId} {r : Except HvError Unit}
    (hunmade : Unmade site w.files e) (h : Restored site env accel id e w r m) :
    Took site e w m := by
  cases h with
  | rejected _ _ | unknown _ => exact Took.of_kept hsaving (World.Steady.refl w)
  | unquit a err w₁ _ _ hquit =>
      exact Took.of_steady rfl (le_refl _) (fun _ hq => nomatch hq) (hquit.steady hsaving)
  | unbranched a err w₁ w₂ _ _ hquit hbranch =>
      exact hquit.took hsaving hunmade rfl rfl rfl hbranch
  | uninvocable a overlays err w₁ w₂ _ _ hquit hbranch _ =>
      exact hquit.took hsaving hunmade rfl rfl rfl hbranch
  | unlaunched a overlays inv err w₁ w₂ w₃ _ _ hquit hbranch _ hlaunch =>
      have htook : Took site e w ⟨branched e overlays, w₂⟩ :=
        hquit.took hsaving hunmade rfl rfl rfl hbranch
      exact htook.launched hlaunch none fun _ hq => nomatch hq
  | done a overlays inv q w₁ w₂ w₃ _ _ hquit hbranch _ hlaunch =>
      have htook : Took site e w ⟨branched e overlays, w₂⟩ :=
        hquit.took hsaving hunmade rfl rfl rfl hbranch
      obtain ⟨hdir, hseq, hruns, hlogs, hfiles⟩ :=
        htook.launched hlaunch (some q) fun _ hq => by rw [Option.some.inj hq]
      exact ⟨hdir, hseq, hruns, hlogs, hfiles⟩

-- A capture makes the files that are next in turn.
theorem capture_took {q : Qemu ρ} {s : Session ρ} {r : Except HvError SnapshotId} {e' : VmEntry ρ}
    (hunmade : Unmade site w.files e) (hdir : e'.dir = e.dir)
    (hseq : e'.snapshotSeq = e.snapshotSeq + 1) (hq : e.runtime = some q)
    (h : capture site env e ⟨q, w⟩ = (r, s)) :
    Took site e w ⟨e'.setRuntime (some s.qemu), s.world⟩ := by
  have hnext : ∀ g : Generated, g.seq = e.snapshotSeq + 1 →
      w.files (site.locate (generatedPath e g)) = none :=
    fun g hg => hunmade g (by rw [hg]; exact Nat.lt_succ_self _)
  have hfresh := fun hnodup hs hoverlays hstate =>
    snapshot_fresh hnodup (snapState_apart site e _) hs hoverlays hstate h
  simp only [overlayBlock_snapTag, stateName_snapTag] at hfresh
  obtain ⟨hruns, hlogs, hframe⟩ := hfresh
    (generated_nodup site e (fun _ _ hij => (Generated.snapDisk.inj hij).2) _) (hsaving q hq) (fun i => hnext (.snapDisk _ i) rfl) (hnext (.snapState _) rfl)
  refine ⟨hdir, by simp only [VmEntry.setRuntime_snapshotSeq, hseq]; omega, fun q' hq' => ?_,
    hlogs, fun p hp => ?_⟩
  · cases hq'
    exact hruns
  · have hapart : ∀ g : Generated, g.seq = e.snapshotSeq + 1 →
        p ≠ site.locate (generatedPath e g) := fun g hg =>
      hp g (by rw [hg]; exact Nat.lt_succ_self _)
        (by simp only [VmEntry.setRuntime_snapshotSeq, hseq, hg]; exact le_refl _)
    exact hframe p (fun i => hapart (.snapDisk _ i) rfl) (hapart (.snapState _) rfl)

theorem Captured.took {parent : Option SnapshotId} {r : Except HvError SnapshotId}
    (hunmade : Unmade site w.files e) (h : Captured site env parent e w r m) : Took site e w m := by
  cases h with
  | orphaned _ _ _ | rejected _ _ => exact Took.of_kept hsaving (World.Steady.refl w)
  | absent _ _ hq =>
      refine Took.of_steady rfl (Nat.le_succ _) (fun q hq' => ?_) (World.Steady.refl w)
      rw [VmEntry.nextSeq_runtime, hq] at hq'
      cases hq'
  | failed q err s _ _ hq hrun => exact capture_took hsaving hunmade rfl rfl hq hrun
  | done q id s _ _ hq hrun => exact capture_took hsaving hunmade rfl rfl hq hrun

theorem Moved.took {vm : String} {t : Turn ρ} (hunmade : Unmade site w.files e)
    (h : Moved site accel vm e w t m) : Took site e w m := by
  cases h with
  | idle _ => exact Took.of_kept hsaving (World.Steady.refl w)
  | acted acts q hq => exact Took.of_tame hsaving hq ((tame_frame site).during _ acts)
  | migrated poll q hq => exact Took.of_tame hsaving hq (endMigration_tame _ poll)
  | boot _ hspec => exact hspec.took hsaving
  | pause _ hspec => exact hspec.took hsaving (tame_order rfl)
  | resume _ hspec => exact hspec.took hsaving (tame_order rfl)
  | stop _ hspec => exact hspec.took hsaving
  | snapshot _ _ hspec => exact hspec.took hsaving hunmade
  | restore _ _ hspec => exact hspec.took hsaving hunmade

end Moves

-- A call takes no file away.
theorem Took.kept {e : VmEntry ρ} {w : World ρ} {m : Machine ρ} (h : Took site e w m)
    (hunmade : Unmade site w.files e) (p : Path) (hp : m.world.files p = none) :
    w.files p = none := by
  by_contra hthere
  refine hthere ((h.files p fun g hg _ hsame => ?_).mp hp)
  exact hthere (hsame ▸ hunmade g hg)

-- The places that `createDirs` comes to.
def waypoints : List String → Path → List Path
  | [], _ => []
  | n :: names, here =>
      if n = ".." then waypoints names here.dropLast
      else (here ++ [n]) :: waypoints names (here ++ [n])

def dirWaypoints (site : Site ρ) (dir : String) : List Path :=
  waypoints (Path.parts dir) (if Path.isAbsolute dir then [] else Path.resolve site.cwd)

-- Nothing but the places on its way gets a directory.
def World.Grows (places : List Path) (w w' : World ρ) : Prop :=
  (∀ q, w'.files q = none → w.files q = none) ∧ ∀ q ∉ places, w'.files q = w.files q

theorem createDir_grows (env : Env ρ) (depth : Nat) (p : Path) (w : World ρ) :
    World.Grows [p] w (createDir env depth p w).2 := by
  unfold createDir
  split
  · exact ⟨fun _ h => h, fun _ _ => rfl⟩
  · rename_i hnone _
    refine ⟨fun q hq => ?_, fun q hq => w.put_files_of_ne _ (List.mem_singleton.not.mp hq)⟩
    by_cases hsame : q = p
    · exact hsame ▸ hnone
    · rwa [w.put_files_of_ne _ hsame] at hq
  · exact ⟨fun _ h => h, fun _ _ => rfl⟩

theorem createDirs_grows (env : Env ρ) (names : List String) (here : Path) (depth : Nat)
    (w : World ρ) :
    World.Grows (waypoints names here) w (createDirs env names here depth w).2 := by
  induction names generalizing here depth w with
  | nil => exact ⟨fun _ h => h, fun _ _ => rfl⟩
  | cons n names ih =>
      unfold createDirs waypoints
      split
      · exact ih _ _ w
      · obtain ⟨hkept, hframe⟩ := createDir_grows env depth (here ++ [n]) w
        rcases hfirst : createDir env depth (here ++ [n]) w with ⟨e | u, w₁⟩
        · rw [hfirst] at hkept hframe
          rw [bind_of_error hfirst]
          exact ⟨hkept, fun q hq => hframe q fun h => hq (by simp [List.mem_singleton.mp h])⟩
        · rw [hfirst] at hkept hframe
          rw [bind_of_ok hfirst]
          obtain ⟨hkept', hframe'⟩ := ih (here ++ [n]) (depth + 1) w₁
          refine ⟨fun q hq => hkept q (hkept' q hq), fun q hq => ?_⟩
          rw [List.mem_cons, not_or] at hq
          exact (hframe' q hq.2).trans (hframe q (List.mem_singleton.not.mpr hq.1))

theorem createDirAll_grows {dir : String} {w w' : World ρ} {r : Except HvError Unit}
    (h : createDirAll site env dir w = (r, w')) : World.Grows (dirWaypoints site dir) w w' := by
  have hgrows := createDirs_grows env (Path.parts dir)
    (if Path.isAbsolute dir then [] else Path.resolve site.cwd) 0 w
  unfold createDirAll at h
  split at h
  · cases h
    exact ⟨fun _ hq => hq, fun _ _ => rfl⟩
  · rwa [h] at hgrows

-- Every VM of a session has a directory of its own, with room for the files it has yet to make.
structure Apart (site : Site ρ) (b : HvfBackend ρ) : Prop where
  unmade : ∀ vm e, b.vms vm = some e → Unmade site b.world.files e
  dirs : ∀ vm vm' e e', b.vms vm = some e → b.vms vm' = some e' →
    site.locate e.dir = site.locate e'.dir → vm = vm'
  saving : ∀ vm e q, b.vms vm = some e → e.runtime = some q → Saving site ⟨q, b.world⟩
  log : ∀ ev ∈ b.world.log, ev.Fresh site

-- A `create` makes no directory at the path of a file that a registered VM or its own has yet to
-- make. A VM it can register has a directory no other VM has, without a generated file in it, and
-- the shell that saves its states leaves their paths alone.
def Settles (site : Site ρ) (b : HvfBackend ρ) : Turn ρ → Prop
  | .call (.create config) _ =>
      b.vms config.name = none →
        (∀ vm e, b.vms vm = some e → ∀ g : Generated, e.snapshotSeq < g.seq →
          site.locate (generatedPath e g) ∉ dirWaypoints site (vmDir site config.name)) ∧
        (config.arch = .aarch64 →
          (∀ vm e, b.vms vm = some e → site.locate e.dir ≠ site.locate (vmDir site config.name)) ∧
          (∀ g : Generated, 0 < g.seq →
            b.world.files (site.locate (vmDir site config.name) ++ [g.name]) = none ∧
              site.locate (vmDir site config.name) ++ [g.name] ∉
                dirWaypoints site (vmDir site config.name)) ∧
          ∀ k, (Command.migrate (join (vmDir site config.name) (QemuVm.stateName (snapTag k)))).Spared)
  | _ => True

namespace Apart

variable {b : HvfBackend ρ} (hb : Apart site b)
include hb

theorem moved {vm : String} {e : VmEntry ρ} {m : Machine ρ} (he : b.vms vm = some e)
    (h : Took site e b.world m) :
    Apart site ⟨b.accel, Function.update b.vms vm (some m.entry), m.world⟩ := by
  have hunmade := hb.unmade vm e he
  -- any entry of the session afterwards is the one of this VM, or of another VM as it was
  have hentry : ∀ vm' e', Function.update b.vms vm (some m.entry) vm' = some e' →
      vm' = vm ∧ e' = m.entry ∨ vm' ≠ vm ∧ b.vms vm' = some e' := by
    intro vm' e' he'
    by_cases hvm : vm' = vm
    · subst hvm
      rw [Function.update_self] at he'
      exact Or.inl ⟨rfl, (Option.some.inj he').symm⟩
    · rw [Function.update_of_ne hvm] at he'
      exact Or.inr ⟨hvm, he'⟩
  refine ⟨fun vm' e' he' => ?_, fun vm₁ vm₂ e₁ e₂ h₁ h₂ hdir => ?_, fun vm' e' q he' hq => ?_,
    h.logs.all hb.log⟩
  · obtain ⟨rfl, rfl⟩ | ⟨hvm, he'⟩ := hentry vm' e' he'
    · intro g hg
      have hpath : generatedPath m.entry g = generatedPath e g := by
        unfold generatedPath
        rw [h.dir]
      rw [hpath]
      refine (h.files _ fun g' _ hg' hsame => ?_).mpr (hunmade g (lt_of_le_of_lt h.seq hg))
      obtain ⟨-, rfl⟩ := locate_generated_inj e e g g' hsame
      omega
    · intro g hg
      refine (h.files _ fun g' _ _ hsame => ?_).mpr (hb.unmade vm' e' he' g hg)
      exact hvm (hb.dirs vm' vm e' e he' he (locate_generated_inj e' e g g' hsame).1)
  · obtain ⟨rfl, rfl⟩ | ⟨-, hold₁⟩ := hentry vm₁ e₁ h₁
    · obtain ⟨rfl, rfl⟩ | ⟨-, hold₂⟩ := hentry vm₂ e₂ h₂
      · rfl
      · exact hb.dirs _ _ _ _ he hold₂ ((congrArg site.locate h.dir).symm.trans hdir)
    · obtain ⟨rfl, rfl⟩ | ⟨-, hold₂⟩ := hentry vm₂ e₂ h₂
      · exact hb.dirs _ _ _ _ hold₁ he (hdir.trans (congrArg site.locate h.dir))
      · exact hb.dirs _ _ _ _ hold₁ hold₂ hdir
  · obtain ⟨rfl, rfl⟩ | ⟨hvm, he'⟩ := hentry vm' e' he'
    · exact h.saving q hq
    · exact (hb.saving vm' e' q he' hq).of_kept (h.kept hunmade)

-- The directories of a new VM are no files that are yet to be made.
theorem made {config : VmConfig} {r : Except HvError Unit} {w : World ρ}
    (hdir : createDirAll site env (vmDir site config.name) b.world = (r, w))
    (h : ∀ vm e, b.vms vm = some e → ∀ g : Generated, e.snapshotSeq < g.seq →
      site.locate (generatedPath e g) ∉ dirWaypoints site (vmDir site config.name)) :
    Apart site ⟨b.accel, b.vms, w⟩ := by
  obtain ⟨hkept, hframe⟩ := createDirAll_grows hdir
  refine ⟨fun vm e he g hg => ?_, hb.dirs, fun vm e q he hq => ?_, ?_⟩
  · exact (hframe _ (h vm e he g hg)).trans (hb.unmade vm e he g hg)
  · exact (hb.saving vm e q he hq).of_kept hkept
  · rw [createDirAll_log hdir]
    exact hb.log

-- A new VM has yet to make all its files.
theorem registered {config : VmConfig}
    (hdirs : ∀ vm e, b.vms vm = some e → site.locate e.dir ≠ site.locate (vmDir site config.name))
    (hroom : ∀ g : Generated, 0 < g.seq →
      b.world.files (site.locate (vmDir site config.name) ++ [g.name]) = none) :
    Apart site ⟨b.accel, Function.update b.vms config.name (some (newEntry site config)), b.world⟩ := by
  have hentry : ∀ vm e, Function.update b.vms config.name (some (newEntry site config)) vm = some e →
      vm = config.name ∧ e = newEntry site config ∨ b.vms vm = some e := by
    intro vm e he
    by_cases hvm : vm = config.name
    · subst hvm
      rw [Function.update_self] at he
      exact Or.inl ⟨rfl, (Option.some.inj he).symm⟩
    · rw [Function.update_of_ne hvm] at he
      exact Or.inr he
  refine ⟨fun vm e he => ?_, fun vm₁ vm₂ e₁ e₂ h₁ h₂ hdir => ?_, fun vm e q he hq => ?_, hb.log⟩
  · obtain ⟨-, rfl⟩ | he := hentry vm e he
    · intro g hg
      rw [locate_generated]
      exact hroom g hg
    · exact hb.unmade vm e he
  · obtain ⟨rfl, rfl⟩ | hold₁ := hentry vm₁ e₁ h₁
    · obtain ⟨rfl, rfl⟩ | hold₂ := hentry vm₂ e₂ h₂
      · rfl
      · exact absurd hdir.symm (hdirs vm₂ e₂ hold₂)
    · obtain ⟨rfl, rfl⟩ | hold₂ := hentry vm₂ e₂ h₂
      · exact absurd hdir (hdirs vm₁ e₁ hold₁)
      · exact hb.dirs _ _ _ _ hold₁ hold₂ hdir
  · obtain ⟨-, rfl⟩ | he := hentry vm e he
    · cases hq
    · exact hb.saving vm e q he hq

theorem deleted (vm : String) :
    Apart site ⟨b.accel, Function.update b.vms vm none, b.world⟩ := by
  have hentry : ∀ vm' e, Function.update b.vms vm none vm' = some e → b.vms vm' = some e := by
    intro vm' e he
    by_cases hvm : vm' = vm
    · subst hvm
      rw [Function.update_self] at he
      cases he
    · rwa [Function.update_of_ne hvm] at he
  exact ⟨fun vm' e he => hb.unmade vm' e (hentry vm' e he),
    fun vm₁ vm₂ e₁ e₂ h₁ h₂ => hb.dirs vm₁ vm₂ e₁ e₂ (hentry vm₁ e₁ h₁) (hentry vm₂ e₂ h₂),
    fun vm' e q he => hb.saving vm' e q (hentry vm' e he), hb.log⟩

end Apart

theorem fresh_turn {b : HvfBackend ρ} {t : Turn ρ} (hb : Apart site b) (ht : Settles site b t) :
    Apart site (b.turn site t) := by
  have hspec := turn_spec site b t
  revert hspec
  generalize b.turn site t = b'
  intro hspec
  cases hspec with
  | same => exact hb
  | renewed _ => exact ⟨fun _ _ h => (nomatch h), fun _ _ _ _ h => (nomatch h),
      fun _ _ _ h => (nomatch h), hb.log⟩
  | moved vm e m he hmove =>
      exact hb.moved he (hmove.took (fun q => hb.saving vm e q he) (hb.unmade vm e he))
  | made config env r w hnew hdir => exact hb.made hdir (ht hnew).1
  | created config env w hnew hdir harch =>
      obtain ⟨hout, hsettled⟩ := ht hnew
      obtain ⟨hdirs, hroom, -⟩ := hsettled harch
      refine (hb.made hdir hout).registered hdirs fun g hg => ?_
      obtain ⟨hnone, hway⟩ := hroom g hg
      exact ((createDirAll_grows hdir).2 _ hway).trans hnone
  | deleted vm env e he _ => exact hb.deleted vm

-- Every overlay and state file that a snapshot or a restore chooses in a run is a new file, as long
-- as each VM is created with room for the files it makes and in the way of no other.
theorem overlays_fresh (site : Site ρ) (accel : Accel) (files : Files ρ) (turns : List (Turn ρ))
    (h : Along (turn site) (Settles site) (new accel files) turns) :
    ∀ ev ∈ (after (turn site) (new accel files) turns).world.log, ev.Fresh site := by
  have hinv := h.invariant (Apart site)
    ⟨fun _ _ he => (nomatch he), fun _ _ _ _ he => (nomatch he), fun _ _ _ he => (nomatch he),
      fun _ hev => (nomatch hev)⟩ fun b t hb ht => fresh_turn hb ht
  exact hinv.log

theorem overlays_fresh_once :
    (after (turn Sample.site) (new .tcg Sample.files) (Sample.calls
      [(.create Sample.config, []), (.boot "web", []), (.snapshot "web" none, []),
        (.stop "web", []), (.restore "web" ⟨"0/srv/web/snap1-disk0.qcow2"⟩, [])])).world.log ≠
        [] ∧
    ∀ ev ∈ (after (turn Sample.site) (new .tcg Sample.files) (Sample.calls
      [(.create Sample.config, []), (.boot "web", []), (.snapshot "web" none, []),
        (.stop "web", []), (.restore "web" ⟨"0/srv/web/snap1-disk0.qcow2"⟩, [])])).world.log,
      ev.Fresh Sample.site := by
  refine ⟨by decide +kernel, overlays_fresh Sample.site .tcg Sample.files _
    ⟨fun _ => ⟨?_, fun _ => ⟨?_, fun g _ => ⟨?_, ?_⟩, ?_⟩⟩, trivial, trivial, trivial, trivial,
      trivial⟩⟩
  · exact fun _ _ he => nomatch he
  · exact fun _ _ he => nomatch he
  · have hdir : Sample.site.locate (vmDir Sample.site "web") = ["srv", "web"] := by decide
    have hempty : Sample.files (["srv", "web"] ++ [g.name]) = none := by simp [Sample.files]
    exact (congrArg (fun p => Sample.files (p ++ [g.name])) hdir).trans hempty
  · have hway : dirWaypoints Sample.site (vmDir Sample.site "web") = [["srv"], ["srv", "web"]] := by
      decide
    have hdir : Sample.site.locate (vmDir Sample.site "web") = ["srv", "web"] := by decide
    exact (congrArg₂ (· ++ [g.name] ∉ ·) hdir hway).mpr (by simp)
  · have hliteral : Shell.Literal (vmDir Sample.site "web").toList :=
      ⟨by decide, by decide, by decide, by decide⟩
    exact spared_state hliteral

-- A VM that is created anew starts counting again, over the files of the one before.
theorem overlays_overwritten :
    ¬∀ ev ∈ (after (turn Sample.site) (new .tcg Sample.files) (Sample.calls
        [(.create Sample.config, []), (.boot "web", []), (.snapshot "web" none, [])] ++
      .session .tcg :: Sample.calls
        [(.create Sample.config, []), (.boot "web", []), (.snapshot "web" none, [])])).world.log,
      ev.Fresh Sample.site := by
  decide +kernel

end VMForge.Hvf
