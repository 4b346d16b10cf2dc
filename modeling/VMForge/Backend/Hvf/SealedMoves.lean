import VMForge.Backend.Hvf.Sealed

namespace VMForge.Engine

open VMForge.Core Exec

variable {ρ : Type} {site : Site ρ} {env : Env ρ} {s s' : Session ρ}

-- A halted process stays so and changes no file.
def Rests (s s' : Session ρ) : Prop :=
  s.qemu.vcpusRunning = false → s'.qemu.vcpusRunning = false ∧ s'.world.files = s.world.files

theorem rests_frame (site : Site ρ) : Frame site (fun _ => True) (Rests (ρ := ρ)) where
  refl _ hs := ⟨hs, rfl⟩
  trans _ _ _ h h' hs := by
    obtain ⟨hhalted, hfiles⟩ := h hs
    obtain ⟨hhalted', hfiles'⟩ := h' hhalted
    exact ⟨hhalted', hfiles'.trans hfiles⟩
  act s a hs := by
    refine ⟨?_, congrArg World.files (s.act_halted a hs).1⟩
    rw [Qemu.vcpusRunning, Session.act_runState]
    exact hs
  note _ _ _ _ hs := ⟨hs, rfl⟩
  unread _ _ hs := ⟨hs, rfl⟩

theorem restoreIncoming_rests (site : Site ρ) (env : Env ρ) (file : String) :
    Keeps Rests (QemuVm.restoreIncoming site env file) := by
  refine (rests_frame site).restoreIncoming trivial trivial (fun s s' hdo hs => ?_) fun s l hs => ?_
  · simp only [Session.carryOut] at hdo
    split at hdo
    · cases hdo
      exact ⟨hs, rfl⟩
    · cases hdo
  · refine ⟨?_, congrArg World.files (load_world s file l)⟩
    cases l with
    | loading => exact hs
    | failed => rfl
    | loaded =>
        simp only [Session.load]
        split <;> rfl

theorem restoreIncoming_migration (site : Site ρ) (env : Env ρ) (file : String) :
    Keeps SameMigration (QemuVm.restoreIncoming (ρ := ρ) site env file) := by
  refine (sameMigration_frame site).restoreIncoming trivial trivial
    (fun _ _ hdo => carryOut_migration (by simp) hdo) fun s l => ?_
  cases l with
  | loading | failed => rfl
  | loaded =>
      simp only [SameMigration, Session.load]
      split <;> rfl

theorem start_halted (site : Site ρ) (inv : Invocation) :
    (Qemu.start site inv).vcpusRunning = false := by
  simp only [Qemu.vcpusRunning, Qemu.start]
  split <;> rfl

theorem quit_writes (site : Site ρ) (env : Env ρ) : Keeps (Writes site) (QemuVm.quit site env) :=
  (writes_frame site).quit trivial fun _ _ hdo => carryOut_writes rfl hdo

theorem order_writes {step : Step} {c : Command} (hc : c.makesFile = false) :
    Keeps (Writes site) (QemuVm.order site env step c) :=
  (writes_frame site).order trivial fun _ _ hdo => carryOut_writes hc hdo

theorem order_migration {step : Step} {c : Command} (hc : ∀ file, c ≠ .migrate file) :
    Keeps SameMigration (QemuVm.order (ρ := ρ) site env step c) :=
  (sameMigration_frame site).order trivial fun _ _ hdo => carryOut_migration hc hdo

end VMForge.Engine

namespace VMForge.Hvf

open VMForge.Core Engine Exec HvfBackend

variable {ρ : Type} {site : Site ρ} {env : Env ρ} {accel : Accel} {e : VmEntry ρ} {w : World ρ}
  {m : Machine ρ}

theorem spawn_files {inv : Invocation} {r : Except HvError (Qemu ρ)} {w' : World ρ}
    (h : QemuVm.spawn site env inv w = (r, w')) : w'.files = w.files := by
  unfold QemuVm.spawn at h
  split at h
  · cases h
    rfl
  · split at h <;> (cases h; rfl)

-- A process that is started from a saved state changes no file before its guest runs.
theorem Launched.files {inv : Invocation} {file : String} {r : Except HvError (Qemu ρ)}
    {w' : World ρ} (h : Launched site env inv file w r w') : w'.files = w.files := by
  have hrests : ∀ {q : Qemu ρ} {w₁ : World ρ} {r : Except HvError Unit} {s : Session ρ},
      QemuVm.spawn site env inv.withIncomingDefer w = (.ok q, w₁) →
      QemuVm.restoreIncoming site env file ⟨q, w₁⟩ = (r, s) →
      s.qemu.vcpusRunning = false ∧ s.world.files = w.files := by
    intro q w₁ r s hspawn hload
    obtain ⟨rfl, -⟩ := spawn_ok hspawn
    have hkeeps := restoreIncoming_rests site env file
      ⟨Qemu.start site inv.withIncomingDefer, w₁⟩ (start_halted site inv.withIncomingDefer)
    rw [hload] at hkeeps
    exact ⟨hkeeps.1, hkeeps.2.trans (spawn_files hspawn)⟩
  cases h with
  | unspawned err w' hspawn => exact spawn_files hspawn
  | unloaded q w₁ err s hspawn hload => exact (hrests hspawn hload).2
  | halted q w₁ s err s' hspawn hload hcont =>
      obtain ⟨hhalted, hfiles⟩ := hrests hspawn hload
      exact (cont_halted hhalted hcont).2.1.trans hfiles
  | done q w₁ s s' hspawn hload hcont =>
      obtain ⟨hhalted, hfiles⟩ := hrests hspawn hload
      exact (cont_halted hhalted hcont).2.1.trans hfiles

-- A guest that has been started from a saved state has it, and its process saves nothing.
theorem Launched.loaded {inv : Invocation} {file : String} {q : Qemu ρ} {w' : World ρ}
    (h : Launched site env inv file w (.ok q) w') :
    w.files.savedState (site.locate file) = some q.ram ∧ q.migration = .none := by
  cases h with
  | done q₀ w₁ s s' hspawn hload hcont =>
      obtain ⟨rfl, -⟩ := spawn_ok hspawn
      obtain ⟨hstate, -, hhalted⟩ := restoreIncoming_returned rfl (start_waits site inv) hload
      obtain ⟨-, -, hram, hmigration, -⟩ := cont_halted hhalted hcont
      have hkeeps := (restoreIncoming_migration site env file).ok hload
      refine ⟨?_, hmigration.trans hkeeps⟩
      rw [hram, ← hstate, spawn_files hspawn]

-- What a guest writes while its process quits.
theorem Quitted.wrote {r : Except HvError Unit} {w' : World ρ} (h : Quitted site env e w r w')
    (p : Path) : w'.files p = w.files p ∨
      ∃ f, Writable e f ∧ p = site.locate f ∧ Rewritten (w.files p) (w'.files p) := by
  cases h with
  | absent _ => exact Or.inl rfl
  | quit q r s hq hrun =>
      have hwrites := quit_writes site env ⟨q, w⟩
      rw [hrun] at hwrites
      exact Writes.wrote hq hwrites p

-- An overlay that was made reads through to the layer it was made on.
theorem createOverlay_layer {w' : World ρ} {i : Nat} {base overlay : String} {u : Unit}
    (h : createOverlay site env i base overlay w = (.ok u, w')) :
    ∃ l, w.files.layer (backingOf site base overlay) = some l ∧
      w'.files (site.locate overlay) =
        some (.image (hollow l.size (backingOf site base overlay))) := by
  unfold createOverlay at h
  simp only at h
  split at h
  · rename_i l _ hl
    cases h
    exact ⟨l, hl, World.put_files_self _ _ _⟩
  · cases h
  · cases h

-- So do all the overlays of a restore, as long as none is made on another.
theorem createOverlays_layers {tag : String}
    (hpaths : ∀ i j, site.locate (overlayPath e tag i) = site.locate (overlayPath e tag j) → i = j)
    (bases : List String) : ∀ (k : Nat) (w : World ρ),
    (∀ p ∈ bases.zipIdx k, ∀ j < p.2,
      backingOf site p.1 (overlayPath e tag p.2) ≠ site.locate (overlayPath e tag j)) →
    ∀ {overlays : List String} {w' : World ρ},
      mapEach (bases.zipIdx k) (branchDisk site env e tag) w = (.ok overlays, w') →
      ∀ p ∈ bases.zipIdx k, ∃ l,
        w.files.layer (backingOf site p.1 (overlayPath e tag p.2)) = some l ∧
        w'.files (site.locate (overlayPath e tag p.2)) =
          some (.image (hollow l.size (backingOf site p.1 (overlayPath e tag p.2)))) := by
  induction bases with
  | nil => exact fun _ _ _ _ _ _ _ hp => nomatch hp
  | cons base bases ih =>
      intro k w hapart overlays w' h
      rw [List.zipIdx_cons] at h hapart ⊢
      rw [mapEach_cons] at h
      obtain ⟨o, w₁, hfirst, hrest⟩ := bind_eq_ok.mp h
      obtain ⟨u, w₂, hcreate, hpure⟩ := bind_eq_ok.mp hfirst
      obtain ⟨rfl, rfl⟩ := pure_eq_ok.mp hpure
      obtain ⟨os, w₃, hloop, hend⟩ := bind_eq_ok.mp hrest
      obtain ⟨-, rfl⟩ := pure_eq_ok.mp hend
      obtain ⟨-, -, hframe⟩ := createOverlay_returned hcreate
      intro p hp
      obtain rfl | hp := List.mem_cons.mp hp
      · obtain ⟨l, hl, hmade⟩ := createOverlay_layer hcreate
        refine ⟨l, hl, ?_⟩
        have hkept := createOverlays_frame site env e tag (site.locate (overlayPath e tag k)) bases
          (k + 1) w₂ fun i hi _ hsame => by
            have hki := hpaths k i hsame
            omega
        rw [hloop] at hkept
        exact hkept.trans hmade
      · obtain ⟨l, hl, hmade⟩ := ih (k + 1) w₂
          (fun p hp => hapart p (List.mem_cons_of_mem _ hp)) hloop p hp
        have hindex : k < p.2 := by
          have hle := List.le_snd_of_mem_zipIdx hp
          omega
        refine ⟨l, ?_, hmade⟩
        have hne := hapart p (List.mem_cons_of_mem _ hp) k hindex
        simpa only [Files.layer, hframe _ hne] using hl

section Moves

variable (hs : Sound site w.files e)
include hs

theorem Booted.stepped {r : Except HvError Unit} (h : Booted site env accel e w r m) :
    Stepped site e w m := by
  cases h with
  | rejected _ _ | uninvocable _ _ => exact Stepped.of_files hs rfl
  | unspawned inv err w' _ hspawn => exact Stepped.of_files hs (spawn_files hspawn)
  | dropped inv q w' err s _ hspawn hcont =>
      obtain ⟨rfl, -⟩ := spawn_ok hspawn
      exact Stepped.of_files hs
        ((cont_halted (start_halted site inv) hcont).2.1.trans (spawn_files hspawn))
  | done inv q w' s _ hinv hspawn hcont =>
      obtain ⟨hplain, htops⟩ := booted_disks hinv hspawn hcont
      obtain ⟨rfl, -⟩ := spawn_ok hspawn
      obtain ⟨-, hfiles, -, hmigration, -⟩ := cont_halted (start_halted site inv) hcont
      have hstep : Stepped site e w ⟨e.setRuntime (some s.qemu), s.world⟩ := by
        refine Stepped.of_record ⟨rfl, rfl, rfl, rfl, le_refl _⟩
          (fun p => Or.inl (congrFun (hfiles.trans (spawn_files hspawn)) p)) (fun q hq f hf => ?_)
          (fun q hq _ => ?_) fun q f hq hf => ?_
        · cases hq
          exact Or.inl (htops ▸ hf)
        · cases hq
          exact htops
        · cases hq
          rw [hmigration] at hf
          cases hf
      exact hstep.setState _

theorem Commanded.stepped {op : VmOp} {x : Exec (Session ρ) HvError Unit} {r : Except HvError Unit}
    (hwrites : Keeps (Writes site) x) (hmigration : Keeps SameMigration x)
    (h : Commanded op x e w r m) : Stepped site e w m := by
  cases h with
  | rejected _ _ | absent _ _ => exact Stepped.of_files hs rfl
  | failed n q err s _ hq hrun =>
      exact Stepped.of_writes hs hq (hwrites.error hrun) (hmigration.error hrun)
  | done n q s _ hq hrun =>
      exact (Stepped.of_writes hs hq (hwrites.ok hrun) (hmigration.ok hrun)).setState n

-- The VM has let go of its process, and may have made files.
theorem Quitted.stepped {r : Except HvError Unit} {w' : World ρ} {e' : VmEntry ρ}
    (hrecord : SameRecord e e') (hnone : e'.runtime = none) (h : Quitted site env e w r w') :
    Stepped site e w ⟨e', w'⟩ :=
  Stepped.of_runtime hs hrecord (Or.inr hnone) fun p =>
    (h.wrote p).imp (fun hsame => hsame) Or.inl

theorem Stopped.stepped {r : Except HvError Unit} (h : Stopped site env e w r m) :
    Stepped site e w m := by
  cases h with
  | rejected _ _ => exact Stepped.of_files hs rfl
  | failed _ _ _ hquit => exact hquit.stepped hs ⟨rfl, rfl, rfl, rfl, le_refl _⟩ rfl
  | done _ _ hquit => exact hquit.stepped hs ⟨rfl, rfl, rfl, rfl, le_refl _⟩ rfl

-- The layers of a snapshot are configured or generated ones.
theorem Sound.legible_base (hnamed : Named e) {id : SnapshotId} {a : SnapshotArtifacts}
    (ha : e.snapshots id = some a) {base : String} (hbase : base ∈ a.diskBases) :
    Legible site w.files e base := by
  refine hs.legible base ?_
  obtain hconfig | ⟨k, -, hmade | hmade⟩ := hnamed.bases id a ha
  · exact Or.inl (hconfig ▸ hbase)
  · rw [hmade] at hbase
    obtain ⟨i, -, rfl⟩ := List.mem_map.mp hbase
    exact Or.inr ⟨_, rfl⟩
  · rw [hmade] at hbase
    obtain ⟨i, -, rfl⟩ := List.mem_map.mp hbase
    exact Or.inr ⟨_, rfl⟩

omit hs in
theorem backingOf_overlay (site : Site ρ) (e : VmEntry ρ) (base : String) (k i : Nat) :
    backingOf site base (overlayPath e (branchTag k) i) = Path.ofString (site.locate e.dir) base := by
  rw [backingOf, overlayPath_branchTag, locate_generated, List.dropLast_concat]

-- The overlays of a restore read through to the layers of its snapshot.
theorem Sound.branched (hnamed : Named e) {id : SnapshotId} {a : SnapshotArtifacts}
    (ha : e.snapshots id = some a) {overlays : List String} {w₁ w₂ : World ρ}
    (hquit : Quitted site env e w (.ok ()) w₁)
    (hbranch : createOverlays site env e (branchTag (e.snapshotSeq + 1)) a.diskBases w₁ =
      (.ok overlays, w₂)) {i : Nat} {base : String} (hi : a.diskBases[i]? = some base) :
    ∃ l, w₁.files.layer (site.locate base) = some l ∧
      w₂.files (site.locate (generatedPath e (.branchDisk (e.snapshotSeq + 1) i))) =
        some (.image (hollow l.size (site.locate base))) := by
  have hseen : ∀ base ∈ a.diskBases, Path.ofString (site.locate e.dir) base = site.locate base ∨
      w₁.files.layer (Path.ofString (site.locate e.dir) base) = none ∧
        ∀ g : Generated, 0 < g.seq →
          Path.ofString (site.locate e.dir) base ≠ site.locate (generatedPath e g) := by
    intro base hbase
    refine (hs.legible_base hnamed ha hbase).imp (fun hsame => hsame) fun ⟨hnone, hother⟩ =>
      ⟨?_, hother⟩
    have hkept := hquit.poked.layer_isSome (Path.ofString (site.locate e.dir) base)
    rw [hnone] at hkept
    exact Option.not_isSome_iff_eq_none.mp (by rw [hkept]; simp)
  have hpaths : ∀ i j, site.locate (overlayPath e (branchTag (e.snapshotSeq + 1)) i) =
      site.locate (overlayPath e (branchTag (e.snapshotSeq + 1)) j) → i = j := by
    intro i j hsame
    rw [overlayPath_branchTag, overlayPath_branchTag] at hsame
    exact (Generated.branchDisk.inj (locate_generated_inj e e _ _ hsame).2).2
  have hmem : (base, i) ∈ a.diskBases.zipIdx := List.mk_mem_zipIdx_iff_getElem?.mpr hi
  have hapart : ∀ p ∈ a.diskBases.zipIdx, ∀ j < p.2,
      backingOf site p.1 (overlayPath e (branchTag (e.snapshotSeq + 1)) p.2) ≠
        site.locate (overlayPath e (branchTag (e.snapshotSeq + 1)) j) := by
    intro p hp j _ hsame
    have hbase : p.1 ∈ a.diskBases := List.fst_mem_of_mem_zipIdx hp
    rw [backingOf_overlay, overlayPath_branchTag] at hsame
    obtain hlocate | ⟨-, hother⟩ := hseen p.1 hbase
    · have hsettled := hs.settled p.1 (Or.inr ⟨id, a, ha, hbase⟩) _ Relation.ReflTransGen.refl
      have hseq : e.snapshotSeq + 1 ≤ e.snapshotSeq :=
        (hsettled (.branchDisk (e.snapshotSeq + 1) j) (Nat.succ_pos e.snapshotSeq)
          (hlocate.symm.trans hsame)).2
      omega
    · exact hother (.branchDisk (e.snapshotSeq + 1) j) (Nat.succ_pos _) hsame
  rw [createOverlays_eq] at hbranch
  obtain ⟨l, hl, hmade⟩ := createOverlays_layers hpaths a.diskBases 0 w₁ hapart hbranch _ hmem
  rw [backingOf_overlay] at hl hmade
  rw [overlayPath_branchTag] at hmade
  obtain hlocate | ⟨hnone, -⟩ := hseen base (List.mem_of_getElem? hi)
  · rw [hlocate] at hl hmade
    exact ⟨l, hl, hmade⟩
  · rw [hnone] at hl
    cases hl

-- A restore writes to the overlays it makes.
omit hs in
theorem branch_wrote {a : SnapshotArtifacts} {r : Except HvError Unit} {w₁ w₂ : World ρ} {os : Except HvError (List String)}
    (hquit : Quitted site env e w r w₁)
    (hbranch : createOverlays site env e (branchTag (e.snapshotSeq + 1)) a.diskBases w₁ =
      (os, w₂)) (p : Path) : w₂.files p = w.files p ∨
      (∃ f, Writable e f ∧ p = site.locate f ∧ Rewritten (w.files p) (w₂.files p)) ∨
      ∃ g : Generated, e.snapshotSeq < g.seq ∧ p = site.locate (generatedPath e g) := by
  by_cases hp : ∃ i, p = site.locate (generatedPath e (.branchDisk (e.snapshotSeq + 1) i))
  · obtain ⟨i, hi⟩ := hp
    exact Or.inr (Or.inr ⟨.branchDisk (e.snapshotSeq + 1) i, Nat.lt_succ_self _, hi⟩)
  · have hframe := createOverlays_frame site env e (branchTag (e.snapshotSeq + 1)) p a.diskBases 0
      w₁ fun i _ _ hi => hp ⟨i, by rw [← overlayPath_branchTag]; exact hi⟩
    rw [← createOverlays_eq, hbranch] at hframe
    rw [hframe]
    exact (hquit.wrote p).imp (fun hsame => hsame) Or.inl

theorem Restored.stepped (hshape : Shaped e) (hnamed : Named e) {id : SnapshotId}
    {r : Except HvError Unit} (h : Restored site env accel id e w r m) : Stepped site e w m := by
  -- the overlays that are recorded, and what the process started on them has
  have hrecorded : ∀ {a : SnapshotArtifacts} {overlays : List String} {w₁ w₂ w₃ : World ρ}
      {runtime : Option (Qemu ρ)}, e.snapshots id = some a →
      Quitted site env e w (.ok ()) w₁ →
      createOverlays site env e (branchTag (e.snapshotSeq + 1)) a.diskBases w₁ =
        (.ok overlays, w₂) → w₃.files = w₂.files →
      (∀ q, runtime = some q → q.tops = overlays ∧ q.migration = .none) →
      Stepped site e w ⟨(Hvf.branched e overlays).setRuntime runtime, w₃⟩ := by
    intro a overlays w₁ w₂ w₃ runtime ha hquit hbranch hfiles hruntime
    have hoverlays := overlays_eq hshape ha hbranch
    have hnew : ∀ f ∈ overlays, New site e ⟨(Hvf.branched e overlays).setRuntime runtime, w₃⟩ f := by
      intro f hf
      rw [hoverlays] at hf
      obtain ⟨i, hi, rfl⟩ := List.mem_map.mp hf
      refine ⟨.branchDisk (e.snapshotSeq + 1) i, trivial, Nat.lt_succ_self _, le_refl _, rfl, ?_⟩
      rintro b ⟨l', hl', hb⟩
      have hlen : i < a.diskBases.length := by
        rw [hshape.bases id a ha]
        exact List.mem_range.mp hi
      obtain ⟨l, -, hmade⟩ := hs.branched hnamed ha hquit hbranch (List.getElem?_eq_getElem hlen)
      simp only [Files.layer, hfiles, hmade, Option.some.injEq] at hl'
      subst hl'
      exact ⟨_, Or.inr ⟨id, a, ha, List.getElem_mem hlen⟩, (Option.some.inj hb).symm⟩
    refine ⟨⟨rfl, rfl, Nat.le_succ _, fun p => ?_⟩, ?_, ?_, ?_, ?_, ?_⟩
    · rw [hfiles]
      exact (branch_wrote hquit hbranch p).imp (fun hsame => hsame)
        (Or.imp (fun hwrite => hwrite) Or.inl)
    · rintro f (hf | ⟨q, hq, hf⟩)
      · exact Or.inr (hnew f hf)
      · exact Or.inr (hnew f ((hruntime q hq).1 ▸ hf))
    · exact fun f hf => Or.inl hf
    · exact fun q hq _ => (hruntime q hq).1
    · intro q f hq hf
      rw [(hruntime q hq).2] at hf
      cases hf
    · exact fun id a ha => Or.inl ha
  cases h with
  | rejected _ _ | unknown _ => exact Stepped.of_files hs rfl
  | unquit a err w₁ _ _ hquit => exact hquit.stepped hs ⟨rfl, rfl, rfl, rfl, le_refl _⟩ rfl
  | unbranched a err w₁ w₂ _ _ hquit hbranch =>
      exact Stepped.of_runtime hs ⟨rfl, rfl, rfl, rfl, Nat.le_succ _⟩ (Or.inr rfl) fun p =>
        (branch_wrote hquit hbranch p).imp (fun hsame => hsame)
          (Or.imp (fun hwrite => hwrite) Or.inl)
  | uninvocable a overlays err w₁ w₂ _ ha hquit hbranch _ =>
      exact hrecorded ha hquit hbranch rfl fun _ hq => by cases hq
  | unlaunched a overlays inv err w₁ w₂ w₃ _ ha hquit hbranch _ hlaunch =>
      exact hrecorded ha hquit hbranch hlaunch.files fun _ hq => by cases hq
  | done a overlays inv q w₁ w₂ w₃ _ ha hquit hbranch hinv hlaunch =>
      refine (hrecorded ha hquit hbranch hlaunch.files fun q' hq' => ?_).setState _
      obtain rfl := Option.some.inj hq'
      exact ⟨(launched_disks hinv hlaunch).2, hlaunch.loaded.2⟩

-- What a capture asks of the VM's process: the first `j` disks get the overlays that are next in
-- turn, all of them if it returns.
omit hs in
theorem capture_snapped (hshape : Shaped e) {q : Qemu ρ} {s : Session ρ}
    {r : Except HvError SnapshotId} (hq : e.runtime = some q) (hread : q.unread = [])
    (h : capture site env e ⟨q, w⟩ = (r, s)) : ∃ t, ∃ j ≤ e.config.disks.length,
      Snapped site e.dir (snapTag (e.snapshotSeq + 1)) e.config.disks.length ⟨q, w⟩ t j r s ∧
      (Plain e.config.disks.length q.disks ∨ j = 0 ∧ ∃ err, r = .error err) := by
  obtain hplain | hcovered := hshape.chains q hq hread
  · obtain ⟨t, j, hj, hsnapped⟩ := snapshot_snapped (snapState_apart site e _)
      (snapNode_ne_nodeName _) (snapDisk_inj site e _) hplain hread h
    exact ⟨t, j, hj, hsnapped, Or.inl hplain⟩
  · exact ⟨s, 0, Nat.zero_le _, snapshot_snapped_covered hcovered hread h,
      Or.inr ⟨rfl, (snapshot_covered hcovered hread h).2⟩⟩

-- A capture writes to the files it makes, and the guest to its layers until it is halted.
omit hs in
theorem Snapped.wrote {n j : Nat} {q : Qemu ρ} {t s : Session ρ} {r : Except HvError SnapshotId}
    (hq : e.runtime = some q)
    (h : Snapped site e.dir (snapTag (e.snapshotSeq + 1)) n ⟨q, w⟩ t j r s) (p : Path) :
    s.world.files p = w.files p ∨
      (∃ f, Writable e f ∧ p = site.locate f ∧ Rewritten (w.files p) (s.world.files p)) ∨
      ∃ g : Generated, e.snapshotSeq < g.seq ∧ p = site.locate (generatedPath e g) := by
  by_cases hdisk : ∃ i, p = site.locate (generatedPath e (.snapDisk (e.snapshotSeq + 1) i))
  · obtain ⟨i, hi⟩ := hdisk
    exact Or.inr (Or.inr ⟨.snapDisk (e.snapshotSeq + 1) i, Nat.lt_succ_self _, hi⟩)
  · by_cases hstate : p = site.locate (generatedPath e (.snapState (e.snapshotSeq + 1)))
    · exact Or.inr (Or.inr ⟨.snapState (e.snapshotSeq + 1), Nat.lt_succ_self _, hstate⟩)
    · rw [h.files p (fun i hi => hdisk ⟨i, by rw [← overlayBlock_snapTag]; exact hi⟩)
        (by rw [stateName_snapTag]; exact hstate)]
      exact (Writes.wrote hq h.began p).imp (fun hsame => hsame) Or.inl

-- A layer a process writes to after a capture is one it wrote to before, or a new overlay.
omit hs in
theorem Snapped.tops {n j : Nat} {q : Qemu ρ} {t s : Session ρ} {r : Except HvError SnapshotId}
    (e' : VmEntry ρ) (hq : e.runtime = some q)
    (h : Snapped site e.dir (snapTag (e.snapshotSeq + 1)) n ⟨q, w⟩ t j r s)
    (hseq : e'.snapshotSeq = e.snapshotSeq + 1) {i : Nat} {f : String}
    (hf : s.qemu.tops[i]? = some f) :
    (i < j → New site e ⟨e', s.world⟩ f) ∧ (j ≤ i → q.tops[i]? = some f) := by
  rw [Qemu.tops, h.disks, List.getElem?_map, switched_getElem?] at hf
  obtain ⟨d', hd', rfl⟩ := Option.map_eq_some_iff.mp hf
  obtain ⟨d, hd, rfl⟩ := Option.map_eq_some_iff.mp hd'
  refine ⟨fun hi => ?_, fun hi => ?_⟩
  · rw [if_pos hi]
    refine ⟨.snapDisk (e.snapshotSeq + 1) i, trivial, Nat.lt_succ_self _, le_of_eq hseq.symm, rfl,
      fun b hb => ?_⟩
    obtain ⟨l, hl, hbacking⟩ := h.layers i hi d hd
    obtain ⟨l', hl', hb⟩ := hb
    obtain rfl := Option.some.inj (hl.symm.trans hl')
    exact ⟨d.top.file, Or.inl (Or.inr ⟨q, hq, List.mem_map_of_mem (List.mem_of_getElem? hd)⟩),
      Option.some.inj (hb.symm.trans hbacking)⟩
  · rw [if_neg (Nat.not_lt.mpr hi), Qemu.tops, List.getElem?_map, hd]
    rfl

theorem Captured.stepped (hshape : Shaped e) {parent : Option SnapshotId}
    {r : Except HvError SnapshotId}
    (hread : Admits e parent → ∀ q, e.runtime = some q → q.unread = []) (h : Captured site env parent e w r m) :
    Stepped site e w m := by
  cases h with
  | orphaned _ _ _ | rejected _ _ => exact Stepped.of_files hs rfl
  | absent _ _ hnone =>
      exact Stepped.of_runtime hs ⟨rfl, rfl, rfl, rfl, Nat.le_succ _⟩ (Or.inl rfl)
        fun _ => Or.inl rfl
  | failed q err s hstate hknown hq hrun =>
      obtain ⟨t, j, hj, hsnapped, hchains⟩ :=
        capture_snapped hshape hq (hread (admits_of hstate hknown) q hq) hrun
      refine ⟨⟨rfl, rfl, Nat.le_succ _, fun p => ?_⟩, ?_, ?_, ?_, ?_, ?_⟩
      · exact (Snapped.wrote hq hsnapped p).imp (fun hsame => hsame)
          (Or.imp (fun hwrite => hwrite) Or.inl)
      · rintro f (hf | ⟨q', hq', hf⟩)
        · exact Or.inl (Or.inl hf)
        · obtain rfl := Option.some.inj hq'
          obtain ⟨i, hi⟩ := List.mem_iff_getElem?.mp hf
          obtain ⟨hnew, hold⟩ := Snapped.tops (e.nextSeq.setRuntime (some s.qemu)) hq hsnapped
            rfl hi
          obtain hlt | hle := Nat.lt_or_ge i j
          · exact Or.inr (hnew hlt)
          · exact Or.inl (Or.inr ⟨q, hq, List.mem_of_getElem? (hold hle)⟩)
      · exact fun f hf => Or.inl hf
      · intro q' hq' hstarted
        obtain rfl := Option.some.inj hq'
        obtain rfl | hpos := Nat.eq_zero_or_pos j
        · have hdisks : s.qemu.disks = q.disks := by rw [hsnapped.disks, switched_zero]
          rw [Qemu.tops, hdisks]
          exact hs.topped q hq (hdisks ▸ hstarted)
        · -- an overlay on the first disk tells the process from one that has just come up
          obtain hplain | ⟨rfl, -⟩ := hchains
          · have hcovered : Covered e.config.disks.length s.qemu.disks := by
              rw [hsnapped.disks]
              exact switched_covered (snapNode_ne_nodeName _) hplain hpos (by omega)
            exact absurd (fun d hd => (hstarted.2 0 d hd).2) hcovered.not_onBase
          · omega
      · intro q' f hq' hf
        obtain rfl := Option.some.inj hq'
        obtain hfile | hactive := hsnapped.active f hf
        · exact ⟨rfl, Or.inr ⟨rfl, hfile⟩⟩
        · exact ⟨rfl, Or.inl ⟨q, hq, hactive⟩⟩
      · exact fun id a ha => Or.inl ha
  | done q id s hstate hknown hq hrun =>
      obtain ⟨t, j, hj, hsnapped, hplain | ⟨-, err, herr⟩⟩ :=
        capture_snapped hshape hq (hread (admits_of hstate hknown) q hq) hrun
      · obtain ⟨rfl, hmigration, -⟩ := hsnapped.done id rfl
        have htops : s.qemu.tops = capturedDisks e := captured_tops hplain hsnapped.disks
        have hnew : ∀ f ∈ capturedDisks e,
            New site e ⟨(recordCapture e parent id).setRuntime (some s.qemu), s.world⟩ f := by
          intro f hf
          obtain ⟨i, hi⟩ := List.mem_iff_getElem?.mp hf
          have hlt : i < e.config.disks.length := by
            have hlen := (List.getElem?_eq_some_iff.mp hi).1
            simpa [capturedDisks, diskNodes] using hlen
          exact (Snapped.tops _ hq hsnapped rfl (htops ▸ hi)).1 hlt
        have hwritable : ∀ f, Writable ((recordCapture e parent id).setRuntime (some s.qemu)) f →
            New site e ⟨(recordCapture e parent id).setRuntime (some s.qemu), s.world⟩ f := by
          rintro f (hf | ⟨q', hq', hf⟩)
          · exact hnew f hf
          · obtain rfl := Option.some.inj hq'
            exact hnew f (htops ▸ hf)
        refine ⟨⟨rfl, rfl, Nat.le_succ _, fun p => ?_⟩, ?_, ?_, ?_, ?_, ?_⟩
        · exact (Snapped.wrote hq hsnapped p).imp (fun hsame => hsame)
            (Or.imp (fun hwrite => hwrite) Or.inl)
        · exact fun f hf => Or.inr (hwritable f hf)
        · rintro f ⟨id', a, ha, hf⟩
          obtain ha | rfl := recordCapture_snapshots ha
          · exact Or.inl ⟨id', a, ha, hf⟩
          · exact Or.inr ⟨Or.inl hf, hwritable⟩
        · intro q' hq' _
          obtain rfl := Option.some.inj hq'
          exact htops
        · intro q' f hq' hf
          obtain rfl := Option.some.inj hq'
          rw [hmigration] at hf
          cases hf
        · intro id' a ha
          obtain ha | rfl := recordCapture_snapshots ha
          · exact Or.inl ha
          · exact Or.inr ⟨rfl, rfl⟩
      · cases herr

-- Every move of a VM keeps what holds its snapshots in place.
theorem Moved.stepped (hshape : Shaped e) (hnamed : Named e) {vm : String} {t : Turn ρ}
    (hread : ∀ parent env, t = .call (.snapshot vm parent) env → Admits e parent →
      ∀ q, e.runtime = some q → q.unread = []) (h : Moved site accel vm e w t m) : Stepped site e w m := by
  cases h with
  | idle _ => exact Stepped.of_files hs rfl
  | acted acts q hq =>
      exact Stepped.of_writes hs hq ((writes_frame site).during _ acts)
        (Session.during_migration site _ acts)
  | migrated poll q hq => exact Stepped.of_endMigration hs hq poll
  | boot _ hspec => exact hspec.stepped hs
  | pause _ hspec | resume _ hspec =>
      exact hspec.stepped hs (order_writes rfl) (order_migration (by simp))
  | stop _ hspec => exact hspec.stepped hs
  | snapshot env parent hspec => exact hspec.stepped hs hshape (hread parent env rfl)
  | restore _ _ hspec => exact hspec.stepped hs hshape hnamed

end Moves

end VMForge.Hvf
