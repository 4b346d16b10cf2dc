import VMForge.Engine.Chains

namespace VMForge.Engine

open VMForge.Core Exec

variable {ρ : Type} {site : Site ρ} {env : Env ρ}

-- The overlay or state file that a command or qemu-img is told to make is none that exists.
def Event.Fresh (site : Site ρ) : Event ρ → Prop
  | .createdOverlay _ overlay files => files (site.locate overlay) = none
  | .command _ (.blockdevSnapshotSync _ file _) _ files => files (site.locate file) = none
  | .command _ (.migrate file) _ files => files (site.locate file) = none
  | _ => True

instance (site : Site ρ) : DecidablePred (Event.Fresh site)
  | .createdOverlay _ _ _ => decidable_of_iff _ Option.isNone_iff_eq_none
  | .command _ (.blockdevSnapshotSync _ _ _) _ _ => decidable_of_iff _ Option.isNone_iff_eq_none
  | .command _ (.migrate _) _ _ => decidable_of_iff _ Option.isNone_iff_eq_none
  | .command _ .cont _ _ | .command _ .stop _ _ | .command _ .queryStatus _ _
  | .command _ .queryMigrate _ _ | .command _ (.migrateIncoming _) _ _ | .command _ .quit _ _
  | .spawned _ => isTrue trivial

-- The file of a migration under way is there.
def Saving (site : Site ρ) (s : Session ρ) : Prop :=
  ∀ file, s.qemu.migration = .active file → s.world.files (site.locate file) ≠ none

-- What makes no file: what it logs is fresh, and the same paths lead somewhere.
def Tame (site : Site ρ) (s s' : Session ρ) : Prop :=
  Saving site s → Saving site s' ∧ Logs (Event.Fresh site) s s' ∧
    ∀ p, s'.world.files p = none ↔ s.world.files p = none

theorem Tame.of_same {s s' : Session ρ} (hmigration : s'.qemu.migration = s.qemu.migration)
    (hfiles : ∀ p, s'.world.files p = none ↔ s.world.files p = none)
    (hlogs : Logs (Event.Fresh site) s s') : Tame site s s' := by
  intro hs
  refine ⟨fun file hfile hnone => ?_, hlogs, hfiles⟩
  exact hs file (hmigration ▸ hfile) ((hfiles _).mp hnone)

theorem tame_frame (site : Site ρ) : Frame site (fun c => c.makesFile = false) (Tame site) where
  refl s := Tame.of_same rfl (fun _ => Iff.rfl) (World.Logs.of_eq rfl)
  trans _ _ _ h h' hs := by
    obtain ⟨hsaving, hlogs, hnone⟩ := h hs
    obtain ⟨hsaving', hlogs', hnone'⟩ := h' hsaving
    exact ⟨hsaving', hlogs.trans hlogs', fun p => (hnone' p).trans (hnone p)⟩
  act s a := Tame.of_same (s.act_migration a) (Session.act_files_none a)
    (World.Logs.of_eq (s.act_log a))
  unread _ _ := Tame.of_same rfl (fun _ => Iff.rfl) (World.Logs.of_eq rfl)
  note s step c hc := by
    refine Tame.of_same rfl (fun _ => Iff.rfl) (World.Logs.note _ ?_)
    cases c with
    | blockdevSnapshotSync _ _ _ | migrate _ => cases hc
    | _ => trivial

theorem carryOut_tame {c : Command} {s s' : Session ρ} (hc : c.makesFile = false)
    (h : s.carryOut site c = some s') : Tame site s s' := by
  have hmigration : s'.qemu.migration = s.qemu.migration := by
    refine carryOut_migration (fun file hfile => ?_) h
    rw [hfile] at hc
    cases hc
  refine Tame.of_same hmigration (fun p => ?_) (carryOut_logs h)
  rw [carryOut_world hc h]

-- The end of a migration writes a file that is there.
theorem endMigration_tame (s : Session ρ) (p : Poll) : Tame site s (s.endMigration site p) := by
  intro hs
  unfold Session.endMigration
  split
  · rename_i file hfile
    refine ⟨fun _ h => (nomatch h), World.Logs.of_eq rfl, fun q => ?_⟩
    by_cases hsame : q = site.locate file
    · subst hsame
      exact iff_of_false (by simp) (hs file hfile)
    · rw [World.put_files_of_ne _ _ hsame]
  · exact ⟨fun _ h => (nomatch h), World.Logs.of_eq rfl, fun _ => Iff.rfl⟩
  · exact ⟨fun _ h => (nomatch h), World.Logs.of_eq rfl, fun _ => Iff.rfl⟩
  · exact ⟨hs, World.Logs.of_eq rfl, fun _ => Iff.rfl⟩

theorem load_tame (s : Session ρ) (file : String) (l : Load) :
    Tame site s (s.load site file l) := by
  refine Tame.of_same ?_ (fun p => ?_) (load_logs s file l)
  · cases l with
    | loading | failed => rfl
    | loaded =>
        simp only [Session.load]
        split <;> rfl
  · rw [load_world]

-- A command that has QEMU make a file where there is none makes that file only.
theorem order_fresh {step : Step} {c : Command} {file : String} {s s' : Session ρ}
    {r : Except HvError Unit}
    (hfresh : ∀ q files, files (site.locate file) = none → (Event.command step c q files).Fresh site)
    (hdo : ∀ s₁ s₂ : Session ρ, s₁.carryOut site c = some s₂ → Saving site s₁ →
      Saving site s₂ ∧ ∀ p, p ≠ site.locate file → s₂.world.files p = s₁.world.files p)
    (hs : Saving site s) (hnone : s.world.files (site.locate file) = none)
    (h : QemuVm.order site env step c s = (r, s')) :
    Saving site s' ∧ Logs (Event.Fresh site) s s' ∧
      ∀ p, p ≠ site.locate file → (s'.world.files p = none ↔ s.world.files p = none) := by
  have hfiles : ∀ p, (QemuVm.issue site env step c s).world.files p = none ↔
      s.world.files p = none := fun p => Session.during_files_none site s (env.acts step) p
  have hissue : Saving site (QemuVm.issue site env step c s) := by
    intro f hf hf'
    rw [issue_migration] at hf
    exact hs f hf ((hfiles _).mp hf')
  have hlogs : Logs (Event.Fresh site) s (QemuVm.issue site env step c s) := by
    refine ⟨_, issue_log site env step c s, fun ev hev => ?_⟩
    rw [List.mem_singleton.mp hev]
    exact hfresh _ _ ((hfiles _).mpr hnone)
  obtain ⟨t, us, ht, hend⟩ := order_reaches site env step c s
  obtain rfl : s' = t.setUnread us := by rw [← hend, h]
  obtain rfl | hcarry := ht
  · exact ⟨hissue, hlogs, fun p _ => hfiles p⟩
  · obtain ⟨hsaving, hframe⟩ := hdo _ _ hcarry hissue
    have hlogs' : Logs (Event.Fresh site) s t := hlogs.trans (carryOut_logs hcarry)
    refine ⟨hsaving, hlogs', fun p hp => ?_⟩
    rw [Session.setUnread_world, hframe p hp]
    exact hfiles p

section Captures

variable {stateDir tag : String}

theorem syncDisk_fresh (i : Nat) (s : Session ρ) (hs : Saving site s)
    (hnone : s.world.files (site.locate (overlayBlock stateDir tag i).file) = none) :
    Saving site (syncDisk site env stateDir tag i s).2 ∧
      Logs (Event.Fresh site) s (syncDisk site env stateDir tag i s).2 ∧
      ∀ p, p ≠ site.locate (overlayBlock stateDir tag i).file →
        ((syncDisk site env stateDir tag i s).2.world.files p = none ↔ s.world.files p = none) := by
  have hdo : ∀ s₁ s₂ : Session ρ, s₁.carryOut site (.blockdevSnapshotSync (nodeName i)
      (overlayBlock stateDir tag i).file (overlayBlock stateDir tag i).node) = some s₂ →
      Saving site s₁ → Saving site s₂ ∧
        ∀ p, p ≠ site.locate (overlayBlock stateDir tag i).file →
          s₂.world.files p = s₁.world.files p := by
    intro s₁ s₂ hcarry hsaving
    simp only [Session.carryOut] at hcarry
    split at hcarry
    · cases hcarry
    · cases hcarry
      refine ⟨fun f hf hf' => ?_, fun p hp => World.put_files_of_ne _ _ hp⟩
      by_cases hsame : site.locate f = site.locate (overlayBlock stateDir tag i).file
      · rw [hsame, World.put_files_self] at hf'
        cases hf'
      · rw [World.put_files_of_ne _ _ hsame] at hf'
        exact hsaving f hf hf'
  unfold syncDisk
  rcases hx : QemuVm.order site env (.sync i) (.blockdevSnapshotSync (nodeName i)
      (overlayBlock stateDir tag i).file (overlayBlock stateDir tag i).node) s with ⟨e | u, s'⟩
  · rw [bind_of_error hx]
    exact order_fresh (fun _ _ h => by exact h) hdo hs hnone hx
  · rw [bind_of_ok hx]
    exact order_fresh (fun _ _ h => by exact h) hdo hs hnone hx

theorem migrate_fresh {file : String} {s s' : Session ρ} {r : Except HvError Unit}
    (hs : Saving site s) (hnone : s.world.files (site.locate file) = none)
    (h : QemuVm.order site env .migrate (.migrate file) s = (r, s')) :
    Saving site s' ∧ Logs (Event.Fresh site) s s' ∧
      ∀ p, p ≠ site.locate file → (s'.world.files p = none ↔ s.world.files p = none) := by
  refine order_fresh (fun _ _ h => by exact h) (fun s₁ s₂ hcarry _ => ?_) hs hnone h
  simp only [Session.carryOut] at hcarry
  split at hcarry
  · cases hcarry
  · cases hcarry
    refine ⟨fun f hf => ?_, fun p hp => World.put_files_of_ne _ _ hp⟩
    obtain rfl := Migration.active.inj hf
    rw [World.put_files_self]
    exact Option.some_ne_none _

-- What follows the order to save the state makes no file of its own.
theorem finishCapture_fresh {file : String} {s s' : Session ρ} {r : Except HvError SnapshotId}
    {wasRunning : Bool} {overlays : List String} (hs : Saving site s)
    (hnone : s.world.files (site.locate file) = none)
    (h : finishCapture site env file wasRunning overlays s = (r, s')) :
    Saving site s' ∧ Logs (Event.Fresh site) s s' ∧
      ∀ p, p ≠ site.locate file → (s'.world.files p = none ↔ s.world.files p = none) := by
  have F := tame_frame site
  have hrest : Keeps (Tame site) (QemuVm.waitMigration site env env.polls 0 >>= fun _ =>
      runIf wasRunning (QemuVm.cont site env) >>= fun _ =>
        QemuVm.readState site env file >>= fun state =>
          (pure ⟨site.digest state overlays⟩ : Exec (Session ρ) HvError SnapshotId)) := by
    refine keeps_bind F.trans (F.waitMigration rfl endMigration_tame _ _) fun _ => ?_
    refine keeps_bind F.trans
      (keeps_runIf F.refl (F.order rfl fun _ _ h => carryOut_tame rfl h)) fun _ => ?_
    exact keeps_bind F.trans (F.readState _ _) fun _ => keeps_pure F.refl _
  unfold finishCapture at h
  rcases hx : QemuVm.order site env .migrate (.migrate file) s with ⟨e | u, t⟩
  · rw [bind_of_error hx] at h
    cases h
    exact migrate_fresh hs hnone hx
  · rw [bind_of_ok hx] at h
    obtain ⟨hsaving, hlogs, hframe⟩ := migrate_fresh hs hnone hx
    have htame := hrest t
    rw [h] at htame
    obtain ⟨hsaving', hlogs', hnone'⟩ := htame hsaving
    exact ⟨hsaving', hlogs.trans hlogs', fun p hp => (hnone' p).trans (hframe p hp)⟩

-- A capture makes its overlays and its state file, each where there is no file.
theorem snapshot_fresh {n : Nat} {s s' : Session ρ} {r : Except HvError SnapshotId}
    (hnodup : ((List.range n).map fun i =>
      site.locate (overlayBlock stateDir tag i).file).Nodup)
    (hapart : ∀ i, site.locate (join stateDir (QemuVm.stateName tag)) ≠
      site.locate (overlayBlock stateDir tag i).file)
    (hs : Saving site s)
    (hoverlays : ∀ i, s.world.files (site.locate (overlayBlock stateDir tag i).file) = none)
    (hstate : s.world.files (site.locate (join stateDir (QemuVm.stateName tag))) = none)
    (h : QemuVm.snapshot site env ((List.range n).map nodeName) stateDir tag s = (r, s')) :
    Saving site s' ∧ Logs (Event.Fresh site) s s' ∧
      ∀ p, (∀ i, p ≠ site.locate (overlayBlock stateDir tag i).file) →
        p ≠ site.locate (join stateDir (QemuVm.stateName tag)) →
        (s'.world.files p = none ↔ s.world.files p = none) := by
  rw [snapshot_eq] at h
  have hbegin := beginCapture_keeps env (tame_frame site) rfl rfl fun _ _ h => carryOut_tame rfl h
  rcases hx : beginCapture site env s with ⟨e | wasRunning, t⟩
  · rw [bind_of_error hx] at h
    cases h
    obtain ⟨hsaving, hlogs, hnone⟩ := hbegin.error hx hs
    exact ⟨hsaving, hlogs, fun p _ _ => hnone p⟩
  · rw [bind_of_ok hx] at h
    obtain ⟨hsaving, hlogs, hnone⟩ := hbegin.ok hx hs
    obtain ⟨hsaving', hlogs', hnone'⟩ := mapEach_takes
      (fun (s : Session ρ) p => s.world.files p = none) (R := Logs (Event.Fresh site))
      (fun _ => World.Logs.of_eq rfl) (fun _ _ _ h h' => h.trans h')
      (fun i => site.locate (overlayBlock stateDir tag i).file)
      (fun i s hs hfree => syncDisk_fresh i s hs hfree) (List.range n) hnodup t hsaving
      fun i _ => (hnone _).mpr (hoverlays i)
    rcases hloop : mapEach (List.range n) (syncDisk site env stateDir tag) t with ⟨e | overlays, t'⟩
    · rw [bind_of_error hloop] at h
      cases h
      rw [hloop] at hsaving' hlogs' hnone'
      exact ⟨hsaving', hlogs.trans hlogs', fun p hp _ => (hnone' p fun i _ => hp i).trans (hnone p)⟩
    · rw [bind_of_ok hloop] at h
      rw [hloop] at hsaving' hlogs' hnone'
      obtain ⟨hsaving'', hlogs'', hnone''⟩ := finishCapture_fresh hsaving'
        ((hnone' _ fun i _ => hapart i).mpr ((hnone _).mpr hstate)) h
      exact ⟨hsaving'', hlogs.trans (hlogs'.trans hlogs''), fun p hp hp' =>
        (hnone'' p hp').trans ((hnone' p fun i _ => hp i).trans (hnone p))⟩

end Captures

end VMForge.Engine
