import VMForge.Engine.Progress

namespace VMForge.Engine

open VMForge.Core Exec

variable {ρ : Type} {site : Site ρ} {env : Env ρ} {s s' : Session ρ}

theorem World.put_layer_self (w : World ρ) (p : Path) (l : Layer Path) :
    (w.put p (.image l)).files.layer p = some l := by
  simp only [Files.layer, World.put_files_self]

-- The process goes on with its chains, and writes to their tops at most.
def Writes (site : Site ρ) (s s' : Session ρ) : Prop :=
  s'.qemu.disks = s.qemu.disks ∧ ∀ p, s'.world.files p = s.world.files p ∨
    ∃ file ∈ s.qemu.tops, p = site.locate file ∧ Rewritten (s.world.files p) (s'.world.files p)

theorem Writes.of_files (hdisks : s'.qemu.disks = s.qemu.disks)
    (hfiles : s'.world.files = s.world.files) : Writes site s s' :=
  ⟨hdisks, fun p => Or.inl (congrFun hfiles p)⟩

theorem writes_frame (site : Site ρ) : Frame site (fun _ => True) (Writes site) where
  refl _ := Writes.of_files rfl rfl
  trans s s' s'' h h' := by
    obtain ⟨hdisks, hfiles⟩ := h
    obtain ⟨hdisks', hfiles'⟩ := h'
    refine ⟨hdisks'.trans hdisks, fun p => ?_⟩
    have htops : s'.qemu.tops = s.qemu.tops := by rw [Qemu.tops, hdisks, Qemu.tops]
    obtain hsame | ⟨file, hfile, hp, hwrite⟩ := hfiles p
    · obtain hsame' | ⟨file, hfile, hp, hwrite⟩ := hfiles' p
      · exact Or.inl (hsame'.trans hsame)
      · exact Or.inr ⟨file, htops ▸ hfile, hp, hsame ▸ hwrite⟩
    · obtain hsame' | ⟨file', hfile', hp', hwrite'⟩ := hfiles' p
      · exact Or.inr ⟨file, hfile, hp, hsame' ▸ hwrite⟩
      · exact Or.inr ⟨file, hfile, hp, hwrite.trans hwrite'⟩
  act s a := by
    refine ⟨s.act_disks a, fun p => ?_⟩
    cases a with
    | write disk offset byte =>
        simp only [Session.act]
        split
        · split
          · rename_i file hfile
            obtain hsame | ⟨hp, hwrite⟩ := s.world.poke_rewrites (site.locate file) offset byte p
            · exact Or.inl hsame
            · exact Or.inr ⟨file, List.mem_of_getElem? hfile, hp, hwrite⟩
          · exact Or.inl rfl
        · exact Or.inl rfl
    | ram state =>
        simp only [Session.act]
        split <;> exact Or.inl rfl
    | exit => exact Or.inl rfl
  note _ _ _ _ := Writes.of_files rfl rfl
  unread _ _ := Writes.of_files rfl rfl

theorem carryOut_writes {c : Command} (hc : c.makesFile = false)
    (h : s.carryOut site c = some s') : Writes site s s' := by
  refine Writes.of_files (carryOut_disks (fun node file snap hsync => ?_) h)
    (congrArg World.files (carryOut_world hc h))
  rw [hsync] at hc
  cases hc

-- A command that reaches a halted guest finds everything as it was.
theorem issue_halted (site : Site ρ) (env : Env ρ) (step : Step) (c : Command)
    (h : s.qemu.vcpusRunning = false) :
    (QemuVm.issue site env step c s).world.files = s.world.files ∧
      (QemuVm.issue site env step c s).qemu.ram = s.qemu.ram := by
  obtain ⟨hworld, hram⟩ := Session.during_halted site (env.acts step) h
  exact ⟨(issue_files site env step c s).trans (congrArg World.files hworld), hram⟩

-- The order for the overlay of a disk, at the moment QEMU gets it: the disk still writes to the
-- layer it wrote to when the guest was halted, and no layer but the overlays has changed since.
def Event.Freezes (site : Site ρ) (stateDir tag : String) (t : Session ρ) (i : Nat)
    (ev : Event ρ) : Prop :=
  ∃ node q files, ev = .command (.sync i)
      (.blockdevSnapshotSync node (overlayBlock stateDir tag i).file
        (overlayBlock stateDir tag i).node) q files ∧
    q.tops[i]? = t.qemu.tops[i]? ∧
    ∀ p, (∀ i, p ≠ site.locate (overlayBlock stateDir tag i).file) →
      files p = t.world.files p

-- A capture that has put overlays on the first `k` disks of the process `t`.
structure Capturing (site : Site ρ) (stateDir tag : String) (t : Session ρ) (k : Nat)
    (s : Session ρ) : Prop where
  disks : s.qemu.disks = switched stateDir tag k t.qemu.disks
  halted : s.qemu.vcpusRunning = false
  migration : s.qemu.migration = t.qemu.migration
  files : ∀ p, (∀ i, p ≠ site.locate (overlayBlock stateDir tag i).file) →
    s.world.files p = t.world.files p
  layers : ∀ i < k, ∀ d, t.qemu.disks[i]? = some d →
    ∃ l, s.world.files.layer (site.locate (overlayBlock stateDir tag i).file) = some l ∧
      l.backing = some (site.locate d.top.file)
  events : ∃ events, s.world.log = t.world.log ++ events ∧
    ∀ i < k, ∃ ev ∈ events, ev.Freezes site stateDir tag t i

section Capturing

variable {stateDir tag : String} {t : Session ρ} {n k : Nat}
  (htag : ∀ i j, s!"{tag}-{nodeName i}" ≠ nodeName j)
  (hpaths : ∀ i j, site.locate (overlayBlock stateDir tag i).file =
    site.locate (overlayBlock stateDir tag j).file → i = j)

theorem Capturing.start (h : t.qemu.vcpusRunning = false) : Capturing site stateDir tag t 0 t where
  disks := switched_zero.symm
  halted := h
  migration := rfl
  files _ _ := rfl
  layers _ hi := absurd hi (Nat.not_lt_zero _)
  events := ⟨[], (List.append_nil _).symm, fun _ hi => absurd hi (Nat.not_lt_zero _)⟩

theorem Capturing.setUnread (h : Capturing site stateDir tag t k s) (us : List QmpReply) :
    Capturing site stateDir tag t k (s.setUnread us) :=
  ⟨h.disks, h.halted, h.migration, h.files, h.layers, h.events⟩

-- The order for the next overlay changes nothing by itself.
theorem Capturing.issue (h : Capturing site stateDir tag t k s) (hk : k < t.qemu.disks.length)
    (env : Env ρ) (node : String) : ∃ events,
      (QemuVm.issue site env (.sync k) (.blockdevSnapshotSync node (overlayBlock stateDir tag k).file
        (overlayBlock stateDir tag k).node) s).world.log = t.world.log ++ events ∧
      ∀ i < k + 1, ∃ ev ∈ events, ev.Freezes site stateDir tag t i := by
  obtain ⟨events, hlog, hall⟩ := h.events
  obtain ⟨hfiles, -⟩ := issue_halted site env (.sync k)
    (.blockdevSnapshotSync node (overlayBlock stateDir tag k).file
      (overlayBlock stateDir tag k).node) h.halted
  refine ⟨events ++ [_], by rw [issue_log, hlog, List.append_assoc], fun i hi => ?_⟩
  obtain hlt | rfl := Nat.lt_succ_iff_lt_or_eq.mp hi
  · obtain ⟨ev, hev, hfreezes⟩ := hall i hlt
    exact ⟨ev, List.mem_append_left _ hev, hfreezes⟩
  · refine ⟨_, List.mem_append_right _ (List.mem_singleton.mpr rfl), node, _, _, rfl, ?_,
      fun p hp => (congrFun hfiles p).trans (h.files p hp)⟩
    have hd := List.getElem?_eq_getElem hk
    simp only [Qemu.tops, Session.during_disks, h.disks, List.getElem?_map, switched_getElem?, hd,
      Option.map_some, Nat.lt_irrefl, if_false]

-- An order that QEMU does not carry out leaves the capture where it was.
theorem Capturing.refused (h : Capturing site stateDir tag t k s)
    (hk : k < t.qemu.disks.length) (node : String) :
    Capturing site stateDir tag t k (QemuVm.issue site env (.sync k)
      (.blockdevSnapshotSync node (overlayBlock stateDir tag k).file
        (overlayBlock stateDir tag k).node) s) := by
  obtain ⟨hfiles, -⟩ := issue_halted site env (.sync k)
    (.blockdevSnapshotSync node (overlayBlock stateDir tag k).file
      (overlayBlock stateDir tag k).node) h.halted
  obtain ⟨events, hlog, hall⟩ := h.issue hk env node
  refine ⟨by rw [issue_disks, h.disks], by rw [issue_vcpusRunning, h.halted],
    by rw [issue_migration, h.migration], fun p hp => (congrFun hfiles p).trans (h.files p hp),
    fun i hi d hd => ?_, events, hlog, fun i hi => hall i (Nat.lt_succ_of_lt hi)⟩
  obtain ⟨l, hl, hbacking⟩ := h.layers i hi d hd
  exact ⟨l, by simp only [Files.layer, hfiles]; exact hl, hbacking⟩

include htag hpaths

-- An order that QEMU carries out puts an overlay on one disk more.
theorem Capturing.step (h : Capturing site stateDir tag t k s) (hplain : Plain n t.qemu.disks)
    (hk : k < n)
    (hdo : (QemuVm.issue site env (.sync k) (.blockdevSnapshotSync (nodeName k)
      (overlayBlock stateDir tag k).file (overlayBlock stateDir tag k).node) s).carryOut site
      (.blockdevSnapshotSync (nodeName k) (overlayBlock stateDir tag k).file
        (overlayBlock stateDir tag k).node) = some s') :
    Capturing site stateDir tag t (k + 1) s' := by
  obtain ⟨d, hd, hswitch⟩ := switchTop_switched htag stateDir hplain hk
  have hlen : k < t.qemu.disks.length := by rw [hplain.1]; exact hk
  obtain ⟨hfiles, -⟩ := issue_halted site env (.sync k)
    (.blockdevSnapshotSync (nodeName k) (overlayBlock stateDir tag k).file
      (overlayBlock stateDir tag k).node) h.halted
  obtain ⟨events, hlog, hall⟩ := h.issue hlen env (nodeName k)
  have hnew : (⟨(overlayBlock stateDir tag k).node, (overlayBlock stateDir tag k).file⟩ : Block) =
      overlayBlock stateDir tag k := rfl
  simp only [Session.carryOut, issue_disks, h.disks, hnew, hswitch, Option.some.injEq] at hdo
  subst hdo
  refine ⟨rfl, ?_, ?_, fun p hp => ?_, fun i hi d' hd' => ?_, events, hlog, hall⟩
  · exact (issue_vcpusRunning site env _ _ s).trans h.halted
  · exact (issue_migration site env _ _ s).trans h.migration
  · exact (World.put_files_of_ne _ _ (hp k)).trans ((congrFun hfiles p).trans (h.files p hp))
  · obtain hlt | rfl := Nat.lt_succ_iff_lt_or_eq.mp hi
    · obtain ⟨l, hl, hbacking⟩ := h.layers i hlt d' hd'
      refine ⟨l, ?_, hbacking⟩
      have hne : site.locate (overlayBlock stateDir tag i).file ≠
          site.locate (overlayBlock stateDir tag k).file :=
        fun hsame => absurd (hpaths i k hsame) (Nat.ne_of_lt hlt)
      simp only [Files.layer, World.put_files_of_ne _ _ hne, hfiles]
      exact hl
    · obtain rfl := Option.some.inj (hd.symm.trans hd')
      exact ⟨_, World.put_layer_self _ _ _, rfl⟩

theorem syncDisk_capturing (h : Capturing site stateDir tag t k s)
    (hread : s.qemu.unread = []) (hplain : Plain n t.qemu.disks) (hk : k < n) {r : Except HvError String}
    (hrun : syncDisk site env stateDir tag k s = (r, s')) :
    Capturing site stateDir tag t (k + 1) s' ∨
      Capturing site stateDir tag t k s' ∧ ∃ e, r = .error e := by
  have hlen : k < t.qemu.disks.length := by rw [hplain.1]; exact hk
  unfold syncDisk at hrun
  cases hx : QemuVm.order site env (.sync k) (.blockdevSnapshotSync (nodeName k)
      (overlayBlock stateDir tag k).file (overlayBlock stateDir tag k).node) s with
  | mk rx sx =>
      cases order_cases hread hx with
      | done _ _ _ hdo _ =>
          rw [bind_of_ok hx] at hrun
          cases hrun
          exact Or.inl (h.step htag hpaths hplain hk hdo)
      | lost e _ us _ _ hdo =>
          rw [bind_of_error hx] at hrun
          cases hrun
          exact Or.inl ((h.step htag hpaths hplain hk hdo).setUnread us)
      | refused e us _ =>
          rw [bind_of_error hx] at hrun
          obtain ⟨rfl, rfl⟩ := Prod.mk.inj hrun
          exact Or.inr ⟨(h.refused hlen (nodeName k)).setUnread us, e, rfl⟩

theorem syncDisks_capturing (hplain : Plain n t.qemu.disks) (m : Nat) : ∀ (k : Nat) (s : Session ρ),
    k + m = n → s.qemu.unread = [] → Capturing site stateDir tag t k s →
    ∀ {r : Except HvError (List String)} {s' : Session ρ},
      mapEach (List.range' k m) (syncDisk site env stateDir tag) s = (r, s') →
      ∃ j ≤ n, Capturing site stateDir tag t j s' ∧ ∀ overlays, r = .ok overlays → j = n := by
  induction m with
  | zero =>
      intro k s hkm hread hs r s' h
      cases h
      exact ⟨k, by omega, hs, fun _ _ => by omega⟩
  | succ m ih =>
      intro k s hkm hread hs r s' h
      rw [List.range'_succ, mapEach_cons] at h
      rcases hx : syncDisk site env stateDir tag k s with ⟨e | overlay, u⟩
      · rw [bind_of_error hx] at h
        cases h
        obtain hnext | ⟨hsame, -⟩ := syncDisk_capturing htag hpaths hs hread hplain (by omega) hx
        · exact ⟨k + 1, by omega, hnext, fun _ he => nomatch he⟩
        · exact ⟨k, by omega, hsame, fun _ he => nomatch he⟩
      · rw [bind_of_ok hx] at h
        have hread' := hears_syncDisk k hread hx
        have hnext : Capturing site stateDir tag t (k + 1) u := by
          obtain hnext | ⟨-, e, he⟩ := syncDisk_capturing htag hpaths hs hread hplain (by omega) hx
          · exact hnext
          · cases he
        rcases hrest : mapEach (List.range' (k + 1) m) (syncDisk site env stateDir tag) u
          with ⟨e | overlays, u'⟩
        · rw [bind_of_error hrest] at h
          cases h
          obtain ⟨j, hjn, hj, -⟩ := ih (k + 1) u (by omega) hread' hnext hrest
          exact ⟨j, hjn, hj, fun _ he => nomatch he⟩
        · rw [bind_of_ok hrest] at h
          cases h
          obtain ⟨j, hjn, hj, hend⟩ := ih (k + 1) u (by omega) hread' hnext hrest
          exact ⟨j, hjn, hj, fun _ _ => hend overlays rfl⟩

end Capturing

-- A process that saves its state to `file` and does nothing else, since `u`.
structure Migrating (site : Site ρ) (file : String) (u s : Session ρ) : Prop where
  disks : s.qemu.disks = u.qemu.disks
  halted : s.qemu.vcpusRunning = false
  files : ∀ p, p ≠ site.locate file → s.world.files p = u.world.files p
  active : ∀ f, s.qemu.migration = .active f → f = file
  completed : s.qemu.migration = .completed →
    s.world.files (site.locate file) = some (.ram (some s.qemu.ram))
  log : ∃ events, s.world.log = u.world.log ++ events

section Migrating

variable {file : String} {u : Session ρ}

theorem migrating_frame (site : Site ρ) (file : String) (u : Session ρ) :
    Frame site (fun _ => True) (fun s s' => Migrating site file u s → Migrating site file u s') where
  refl _ h := h
  trans _ _ _ h h' hs := h' (h hs)
  act s a h := by
    obtain ⟨hworld, hram⟩ := s.act_halted a h.halted
    refine ⟨(s.act_disks a).trans h.disks, ?_, fun p hp => ?_, fun f hf => ?_, fun hc => ?_, ?_⟩
    · rw [Qemu.vcpusRunning, Session.act_runState]
      exact h.halted
    · rw [hworld]
      exact h.files p hp
    · rw [Session.act_migration] at hf
      exact h.active f hf
    · rw [Session.act_migration] at hc
      rw [hworld, hram]
      exact h.completed hc
    · rw [hworld]
      exact h.log
  note s step c _ h := by
    obtain ⟨events, hlog⟩ := h.log
    refine ⟨h.disks, h.halted, h.files, h.active, h.completed,
      events ++ [.command step c s.qemu s.world.files], ?_⟩
    rw [← List.append_assoc, ← hlog]
    rfl
  unread _ _ h := ⟨h.disks, h.halted, h.files, h.active, h.completed, h.log⟩

theorem Migrating.endMigration (h : Migrating site file u s) (p : Poll) :
    Migrating site file u (s.endMigration site p) := by
  unfold Session.endMigration
  split
  · rename_i f hf
    obtain rfl := h.active f hf
    refine ⟨h.disks, rfl, fun q hq => ?_, fun _ hn => (nomatch hn), fun _ => ?_, h.log⟩
    · exact (World.put_files_of_ne _ _ hq).trans (h.files q hq)
    · exact World.put_files_self _ _ _
  · exact ⟨h.disks, h.halted, h.files, fun _ hn => (nomatch hn), fun hn => (nomatch hn), h.log⟩
  · exact ⟨h.disks, h.halted, h.files, fun _ hn => (nomatch hn), fun hn => (nomatch hn), h.log⟩
  · exact h

theorem queryMigrate_returned {poll : Nat} {a : String} (hread : s.qemu.unread = [])
    (h : QemuVm.queryMigrate site env poll s = (.ok a, s')) : a = s'.qemu.migration.text :=
  (execute_returned hread h).2.2.2

-- Only a completed migration is the end of the wait.
theorem verdict_completed {m : Migration} (h : QemuVm.migrationVerdict m.text = some (.ok ())) :
    m = .completed := by
  cases m with
  | completed => rfl
  | none | active _ | failed | cancelled =>
      revert h
      simp [QemuVm.migrationVerdict, Migration.text]

theorem waitMigration_completed (polls : List Poll) : ∀ (poll : Nat) (s : Session ρ) {v : Unit}
    {s' : Session ρ}, s.qemu.unread = [] →
    QemuVm.waitMigration site env polls poll s = (.ok v, s') →
    s'.qemu.migration = .completed := by
  induction polls with
  | nil =>
      intro poll s v s' hread h
      rw [QemuVm.waitMigration] at h
      obtain ⟨a, t, hquery, hrest⟩ := bind_eq_ok.mp h
      have ha := queryMigrate_returned hread hquery
      subst ha
      cases hverdict : QemuVm.migrationVerdict t.qemu.migration.text with
      | none =>
          simp only [hverdict] at hrest
          cases hrest
      | some verdict =>
          simp only [hverdict] at hrest
          obtain ⟨hok, rfl⟩ := ofExcept_eq_ok.mp hrest
          exact verdict_completed (hok ▸ hverdict)
  | cons p polls ih =>
      intro poll s v s' hread h
      have hputs : ∀ (x : Exec (Session ρ) HvError Unit),
          ((do let s ← read; put (s.endMigration site p); x) : Exec (Session ρ) HvError Unit) s =
            x (s.endMigration site p) := fun _ => rfl
      rw [QemuVm.waitMigration, hputs] at h
      obtain ⟨a, t, hquery, hrest⟩ := bind_eq_ok.mp h
      have hread' := (endMigration_unread site s p).trans hread
      have ha := queryMigrate_returned hread' hquery
      subst ha
      cases hverdict : QemuVm.migrationVerdict t.qemu.migration.text with
      | none =>
          simp only [hverdict] at hrest
          exact ih (poll + 1) t (hears_execute hread' hquery) hrest
      | some verdict =>
          simp only [hverdict] at hrest
          obtain ⟨hok, rfl⟩ := ofExcept_eq_ok.mp hrest
          exact verdict_completed (hok ▸ hverdict)

-- What QEMU does on the order to save its state, told to a halted guest.
theorem carryOut_migrating (h : s.qemu.vcpusRunning = false)
    (hdo : (QemuVm.issue site env .migrate (.migrate file) s).carryOut site (.migrate file) =
      some s') : Migrating site file s s' := by
  obtain ⟨hfiles, -⟩ := issue_halted site env .migrate (.migrate file) h
  simp only [Session.carryOut, issue_migration] at hdo
  split at hdo
  · cases hdo
  · cases hdo
    refine ⟨issue_disks site env _ _ s, (issue_vcpusRunning site env _ _ s).trans h,
      fun p hp => ?_, fun f hf => (Migration.active.inj hf).symm, fun hc => (by cases hc),
      [_], issue_log site env _ _ s⟩
    exact (World.put_files_of_ne _ _ hp).trans (congrFun hfiles p)

-- The order to save the state, and the wait for it: it leaves a migration under way at most, and
-- when it returns it has saved the RAM of the halted guest.
theorem saveState_migrating (h : s.qemu.vcpusRunning = false) (hread : s.qemu.unread = []) {r : Except HvError Unit}
    (hrun : saveState site env file s = (r, s')) :
    s'.qemu.disks = s.qemu.disks ∧ s'.qemu.vcpusRunning = false ∧
      (∀ p, p ≠ site.locate file → s'.world.files p = s.world.files p) ∧
      (∀ f, s'.qemu.migration = .active f → f = file ∨ s.qemu.migration = .active f) ∧
      (∃ events, s'.world.log = s.world.log ++ events) ∧
      ∀ v, r = .ok v → s'.qemu.migration = .completed ∧
        s'.world.files (site.locate file) = some (.ram (some s'.qemu.ram)) := by
  have hsettle : ∀ {r : Except HvError Unit}, Migrating site file s s' →
      (∀ v, r = .ok v → s'.qemu.migration = .completed) →
      s'.qemu.disks = s.qemu.disks ∧ s'.qemu.vcpusRunning = false ∧
      (∀ p, p ≠ site.locate file → s'.world.files p = s.world.files p) ∧
      (∀ f, s'.qemu.migration = .active f → f = file ∨ s.qemu.migration = .active f) ∧
      (∃ events, s'.world.log = s.world.log ++ events) ∧
      ∀ v, r = .ok v → s'.qemu.migration = .completed ∧
        s'.world.files (site.locate file) = some (.ram (some s'.qemu.ram)) :=
    fun hm hok => ⟨hm.disks, hm.halted, hm.files, fun f hf => Or.inl (hm.active f hf), hm.log,
      fun v hv => ⟨hok v hv, hm.completed (hok v hv)⟩⟩
  unfold saveState at hrun
  rcases hx : QemuVm.order site env .migrate (.migrate file) s with ⟨e | v, t⟩
  · rw [bind_of_error hx] at hrun
    obtain ⟨rfl, rfl⟩ := Prod.mk.inj hrun
    cases order_cases hread hx with
    | lost _ t us _ _ hdo =>
        exact hsettle ((migrating_frame site file s).unread t us (carryOut_migrating h hdo))
          fun _ hv => nomatch hv
    | refused _ us _ =>
        obtain ⟨hfiles, -⟩ := issue_halted site env .migrate (.migrate file) h
        refine ⟨issue_disks site env _ _ s, (issue_vcpusRunning site env _ _ s).trans h,
          fun p _ => congrFun hfiles p, fun f hf => Or.inr ?_, ⟨_, issue_log site env _ _ s⟩,
          fun _ hv => nomatch hv⟩
        rwa [Session.setUnread_migration, issue_migration] at hf
  · rw [bind_of_ok hx] at hrun
    obtain ⟨-, -, hdo⟩ := order_returned hread hx
    have hkeeps : Keeps (fun s₁ s₂ => Migrating site file s s₁ → Migrating site file s s₂)
        (QemuVm.waitMigration site env env.polls 0) :=
      (migrating_frame site file s).waitMigration trivial (fun _ p hm => hm.endMigration p) _ _
    have hkeeps := hkeeps t
    rw [hrun] at hkeeps
    refine hsettle (hkeeps (carryOut_migrating h hdo)) fun v hv => ?_
    subst hv
    exact waitMigration_completed env.polls 0 t (hears_order hread hx) hrun

-- `cont` sets a halted guest going, and does nothing else.
theorem cont_halted (h : s.qemu.vcpusRunning = false) {r : Except HvError Unit}
    (hx : QemuVm.cont site env s = (r, s')) :
    s'.qemu.disks = s.qemu.disks ∧ s'.world.files = s.world.files ∧ s'.qemu.ram = s.qemu.ram ∧
      s'.qemu.migration = s.qemu.migration ∧ ∃ events, s'.world.log = s.world.log ++ events := by
  have hissue := issue_halted site env .cont .cont h
  have hdone : ∀ {t : Session ρ}, (QemuVm.issue site env .cont .cont s).carryOut site .cont = some t →
      t.qemu.disks = s.qemu.disks ∧ t.world.files = s.world.files ∧ t.qemu.ram = s.qemu.ram ∧
        t.qemu.migration = s.qemu.migration ∧ ∃ events, t.world.log = s.world.log ++ events := by
    intro t hdo
    cases hdo
    exact ⟨issue_disks site env _ _ s, hissue.1, hissue.2, issue_migration site env _ _ s,
      [_], issue_log site env _ _ s⟩
  obtain ⟨t, us, ht, hend⟩ := order_reaches site env .cont .cont s
  obtain rfl : s' = t.setUnread us := by rw [← hend, ← QemuVm.cont, hx]
  obtain rfl | hdo := ht
  · exact ⟨issue_disks site env _ _ s, hissue.1, hissue.2, issue_migration site env _ _ s,
      [_], issue_log site env _ _ s⟩
  · have hends := hdone hdo
    exact hends

-- The end of a capture sets the guest going again, at most.
theorem endCapture_cases {wasRunning : Bool} {overlays : List String}
    (h : s.qemu.vcpusRunning = false) {r : Except HvError SnapshotId}
    (hrun : endCapture site env file wasRunning overlays s = (r, s')) :
    s'.qemu.disks = s.qemu.disks ∧ s'.world.files = s.world.files ∧
      s'.qemu.ram = s.qemu.ram ∧ s'.qemu.migration = s.qemu.migration ∧
      ∃ events, s'.world.log = s.world.log ++ events := by
  have hcont : ∀ {r : Except HvError Unit} {t : Session ρ},
      runIf wasRunning (QemuVm.cont site env) s = (r, t) →
      t.qemu.disks = s.qemu.disks ∧ t.world.files = s.world.files ∧ t.qemu.ram = s.qemu.ram ∧
        t.qemu.migration = s.qemu.migration ∧ ∃ events, t.world.log = s.world.log ++ events := by
    intro r t hx
    cases wasRunning with
    | false =>
        cases hx
        exact ⟨rfl, rfl, rfl, rfl, [], (List.append_nil _).symm⟩
    | true => exact cont_halted h hx
  unfold endCapture at hrun
  rcases hx : runIf wasRunning (QemuVm.cont site env) s with ⟨e | v, t⟩
  · rw [bind_of_error hx] at hrun
    cases hrun
    exact hcont hx
  · rw [bind_of_ok hx] at hrun
    have hread : (QemuVm.readState site env file t).2 = t := by
      unfold QemuVm.readState
      split <;> rfl
    have hsame : s' = t := by
      rcases hy : QemuVm.readState site env file t with ⟨e | state, t'⟩
      · rw [bind_of_error hy] at hrun
        rw [hy] at hread
        cases hrun
        exact hread
      · rw [bind_of_ok hy] at hrun
        rw [hy] at hread
        cases hrun
        exact hread
    rw [hsame]
    exact hcont hx

end Migrating

-- All that a capture does: the guest writes until it is halted in `t`, the first `j` disks get
-- their overlays, and the state is saved.
structure Snapped (site : Site ρ) (stateDir tag : String) (n : Nat) (s t : Session ρ) (j : Nat)
    (r : Except HvError SnapshotId) (s' : Session ρ) : Prop where
  began : Writes site s t
  disks : s'.qemu.disks = switched stateDir tag j s.qemu.disks
  files : ∀ p, (∀ i, p ≠ site.locate (overlayBlock stateDir tag i).file) →
    p ≠ site.locate (join stateDir (QemuVm.stateName tag)) → s'.world.files p = t.world.files p
  layers : ∀ i < j, ∀ d, s.qemu.disks[i]? = some d →
    ∃ l, s'.world.files.layer (site.locate (overlayBlock stateDir tag i).file) = some l ∧
      l.backing = some (site.locate d.top.file)
  active : ∀ f, s'.qemu.migration = .active f →
    f = join stateDir (QemuVm.stateName tag) ∨ s.qemu.migration = .active f
  log : ∃ events, s'.world.log = s.world.log ++ events ∧
    ∀ i < j, ∃ ev ∈ events, ev.Freezes site stateDir tag t i
  done : ∀ id, r = .ok id → j = n ∧ s'.qemu.migration = .completed ∧
    s'.world.files (site.locate (join stateDir (QemuVm.stateName tag))) =
      some (.ram (some s'.qemu.ram))

section Captures

variable {stateDir tag : String} {t u : Session ρ} {n j : Nat} {r : Except HvError SnapshotId}
  (hapart : ∀ i, site.locate (join stateDir (QemuVm.stateName tag)) ≠
    site.locate (overlayBlock stateDir tag i).file)

include hapart in
-- What comes after the overlays touches the state file at most.
theorem Capturing.snapped (h : Capturing site stateDir tag t j u) (hbegan : Writes site s t)
    (hlog : ∃ events, t.world.log = s.world.log ++ events)
    (hmigration : t.qemu.migration = s.qemu.migration)
    (hdisks : s'.qemu.disks = u.qemu.disks)
    (hfiles : ∀ p, p ≠ site.locate (join stateDir (QemuVm.stateName tag)) →
      s'.world.files p = u.world.files p)
    (hactive : ∀ f, s'.qemu.migration = .active f →
      f = join stateDir (QemuVm.stateName tag) ∨ u.qemu.migration = .active f)
    (hlog' : ∃ events, s'.world.log = u.world.log ++ events)
    (hdone : ∀ id, r = .ok id → j = n ∧ s'.qemu.migration = .completed ∧
      s'.world.files (site.locate (join stateDir (QemuVm.stateName tag))) =
        some (.ram (some s'.qemu.ram))) : Snapped site stateDir tag n s t j r s' where
  began := hbegan
  disks := by rw [hdisks, h.disks, hbegan.1]
  files p hp hp' := (hfiles p hp').trans (h.files p hp)
  layers i hi d hd := by
    obtain ⟨l, hl, hbacking⟩ := h.layers i hi d (hbegan.1 ▸ hd)
    exact ⟨l, by simp only [Files.layer, hfiles _ (Ne.symm (hapart i))]; exact hl, hbacking⟩
  active f hf := (hactive f hf).imp id fun hold => by rwa [h.migration, hmigration] at hold
  log := by
    obtain ⟨began, hbegin⟩ := hlog
    obtain ⟨events, hevents, hall⟩ := h.events
    obtain ⟨ended, hend⟩ := hlog'
    refine ⟨began ++ events ++ ended, ?_, fun i hi => ?_⟩
    · rw [hend, hevents, hbegin]
      simp only [List.append_assoc]
    · obtain ⟨ev, hev, hfreezes⟩ := hall i hi
      exact ⟨ev, List.mem_append_left _ (List.mem_append_right _ hev), hfreezes⟩
  done := hdone

-- A capture up to its first overlay.
theorem beginCapture_writes {r : Except HvError Bool} (h : beginCapture site env s = (r, t)) :
    Writes site s t ∧ t.qemu.migration = s.qemu.migration ∧
      ∃ events, t.world.log = s.world.log ++ events := by
  have hwrites := beginCapture_keeps env (writes_frame site) trivial trivial
    (fun _ _ hdo => carryOut_writes rfl hdo) s
  have hmigration := beginCapture_keeps env (sameMigration_frame site) trivial trivial
    (fun _ _ hdo => carryOut_migration (by simp) hdo) s
  have hlogs := beginCapture_keeps env (logs_frame site fun _ => True) (fun _ _ _ => trivial)
    (fun _ _ _ => trivial) (fun _ _ hdo => carryOut_logs hdo) s
  rw [h] at hwrites hmigration hlogs
  obtain ⟨events, hlog, -⟩ := hlogs
  exact ⟨hwrites, hmigration, events, hlog⟩

-- A capture that ends before its first overlay.
theorem Snapped.of_begin (hwrites : Writes site s t) (hmigration : t.qemu.migration = s.qemu.migration)
    (hlog : ∃ events, t.world.log = s.world.log ++ events) (e : HvError) :
    Snapped site stateDir tag n s t 0 (.error e) t where
  began := hwrites
  disks := by rw [switched_zero, hwrites.1]
  files _ _ _ := rfl
  layers _ hi := absurd hi (Nat.not_lt_zero _)
  active f hf := Or.inr (hmigration ▸ hf)
  log := by
    obtain ⟨events, hlog⟩ := hlog
    exact ⟨events, hlog, fun _ hi => absurd hi (Nat.not_lt_zero _)⟩
  done _ hr := nomatch hr

include hapart

theorem snapshot_snapped (htag : ∀ i j, s!"{tag}-{nodeName i}" ≠ nodeName j)
    (hpaths : ∀ i j, site.locate (overlayBlock stateDir tag i).file =
      site.locate (overlayBlock stateDir tag j).file → i = j)
    (hplain : Plain n s.qemu.disks) (hread : s.qemu.unread = [])
    (h : QemuVm.snapshot site env ((List.range n).map nodeName) stateDir tag s = (r, s')) :
    ∃ t, ∃ j ≤ n, Snapped site stateDir tag n s t j r s' := by
  rw [snapshot_phases] at h
  rcases hx : beginCapture site env s with ⟨e | wasRunning, t⟩
  · rw [bind_of_error hx] at h
    cases h
    obtain ⟨hwrites, hmigration, hlog⟩ := beginCapture_writes hx
    exact ⟨_, 0, Nat.zero_le n, Snapped.of_begin hwrites hmigration hlog e⟩
  · rw [bind_of_ok hx] at h
    obtain ⟨hwrites, hmigration, hlog⟩ := beginCapture_writes hx
    obtain ⟨-, -, -, hhalted⟩ := beginCapture_returned hread hx
    have hread' : t.qemu.unread = [] := hears_beginCapture hread hx
    have hplain' : Plain n t.qemu.disks := hwrites.1 ▸ hplain
    have hsame : ∀ {v : Session ρ}, ∃ events, v.world.log = v.world.log ++ events :=
      ⟨[], (List.append_nil _).symm⟩
    rcases hfreeze : freeze site env n stateDir tag t with ⟨e | overlays, u⟩
    · rw [bind_of_error hfreeze] at h
      cases h
      unfold freeze at hfreeze
      rw [List.range_eq_range'] at hfreeze
      rcases hloop : mapEach (List.range' 0 n) (syncDisk site env stateDir tag) t
        with ⟨e' | overlays, v⟩
      · rw [bind_of_error hloop] at hfreeze
        cases hfreeze
        obtain ⟨j, hj, hcapturing, -⟩ := syncDisks_capturing htag hpaths hplain' n 0 t (by omega)
          hread' (Capturing.start hhalted) hloop
        exact ⟨t, j, hj, hcapturing.snapped hapart hwrites hlog hmigration rfl (fun _ _ => rfl)
          (fun _ hf => Or.inr hf) hsame fun _ hr => nomatch hr⟩
      · rw [bind_of_ok hloop] at hfreeze
        obtain ⟨j, hj, hcapturing, -⟩ := syncDisks_capturing htag hpaths hplain' n 0 t (by omega)
          hread' (Capturing.start hhalted) hloop
        rcases hsave : saveState site env (join stateDir (QemuVm.stateName tag)) v with ⟨e' | w, v'⟩
        · rw [bind_of_error hsave] at hfreeze
          cases hfreeze
          obtain ⟨hdisks, -, hfiles, hactive, hlog', -⟩ :=
            saveState_migrating hcapturing.halted (hears_mapEach hears_syncDisk hread' hloop) hsave
          exact ⟨t, j, hj, hcapturing.snapped hapart hwrites hlog hmigration hdisks hfiles hactive
            hlog' fun _ hr => nomatch hr⟩
        · rw [bind_of_ok hsave] at hfreeze
          cases hfreeze
    · rw [bind_of_ok hfreeze] at h
      unfold freeze at hfreeze
      rw [List.range_eq_range'] at hfreeze
      obtain ⟨os, v, hloop, hrest⟩ := bind_eq_ok.mp hfreeze
      obtain ⟨w, v', hsave, hpure⟩ := bind_eq_ok.mp hrest
      obtain ⟨rfl, rfl⟩ := pure_eq_ok.mp hpure
      obtain ⟨j, hj, hcapturing, hall⟩ := syncDisks_capturing htag hpaths hplain' n 0 t (by omega)
        hread' (Capturing.start hhalted) hloop
      obtain ⟨hdisks, hhalted', hfiles, hactive, ⟨events, hlog'⟩, hok⟩ :=
        saveState_migrating hcapturing.halted (hears_mapEach hears_syncDisk hread' hloop) hsave
      obtain ⟨hcompleted, hsaved⟩ := hok w rfl
      obtain ⟨hdisks', hfiles', hram, hmigration', ⟨events', hlog''⟩⟩ := endCapture_cases hhalted' h
      refine ⟨t, j, hj, hcapturing.snapped hapart hwrites hlog hmigration (hdisks'.trans hdisks)
        (fun p hp => (congrFun hfiles' p).trans (hfiles p hp)) (fun f hf => ?_)
        ⟨events ++ events', by rw [hlog'', hlog', List.append_assoc]⟩ fun id _ => ⟨hall _ rfl, ?_, ?_⟩⟩
      · exact hactive f (hmigration' ▸ hf)
      · exact hmigration'.trans hcompleted
      · rw [hfiles', hram]
        exact hsaved

end Captures

-- A process whose first disk is covered refuses a capture before it has changed anything.
theorem snapshot_snapped_covered {stateDir tag : String} {n : Nat} {r : Except HvError SnapshotId}
    (hcovered : Covered n s.qemu.disks) (hread : s.qemu.unread = [])
    (h : QemuVm.snapshot site env ((List.range n).map nodeName) stateDir tag s = (r, s')) :
    Snapped site stateDir tag n s s' 0 r s' := by
  rw [snapshot_eq] at h
  rcases hx : beginCapture site env s with ⟨e | wasRunning, t⟩
  · rw [bind_of_error hx] at h
    cases h
    obtain ⟨hwrites, hmigration, hlog⟩ := beginCapture_writes hx
    exact Snapped.of_begin hwrites hmigration hlog e
  · rw [bind_of_ok hx] at h
    obtain ⟨hwrites, hmigration, ⟨events, hlog⟩⟩ := beginCapture_writes hx
    obtain ⟨n, rfl⟩ : ∃ m, n = m + 1 := ⟨n - 1, by have := hcovered.2.1; omega⟩
    rw [List.range_succ_eq_map, mapEach_cons] at h
    cases hsync : QemuVm.order site env (.sync 0) (.blockdevSnapshotSync (nodeName 0)
        (overlayBlock stateDir tag 0).file (overlayBlock stateDir tag 0).node) t with
    | mk rx sx =>
        have hnone : (QemuVm.issue site env (.sync 0) (.blockdevSnapshotSync (nodeName 0)
            (overlayBlock stateDir tag 0).file (overlayBlock stateDir tag 0).node) t).carryOut site
            (.blockdevSnapshotSync (nodeName 0) (overlayBlock stateDir tag 0).file
              (overlayBlock stateDir tag 0).node) = none := by
          simp only [Session.carryOut, issue_disks, hwrites.1, switchTop_none hcovered.2.2]
        cases order_cases (hears_beginCapture hread hx) hsync with
        | done _ _ _ hcarry _ => simp [hnone] at hcarry
        | lost _ _ _ _ _ hcarry => simp [hnone] at hcarry
        | refused e us _ =>
            rw [bind_of_error (bind_of_error (by rw [syncDisk, bind_of_error hsync]))] at h
            obtain ⟨rfl, rfl⟩ := Prod.mk.inj h
            have F := writes_frame site
            refine Snapped.of_begin (F.trans _ _ _ hwrites
              (F.trans _ _ _ (F.issue env (.sync 0) trivial t) (F.unread _ us))) ?_ ?_ e
            · rw [Session.setUnread_migration, issue_migration, hmigration]
            · exact ⟨events ++ [_], by
                rw [Session.setUnread_world, issue_log, hlog, List.append_assoc]⟩

end VMForge.Engine
