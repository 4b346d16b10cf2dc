import VMForge.Backend.Hvf.SealedMoves

namespace VMForge.Engine

open VMForge.Core

-- The order for the overlay of disk `i`, which QEMU gets while the disk writes to `base` and the
-- files are as in `files`.
def Event.Orders {ρ : Type} (i : Nat) (base : String) (files : Files ρ) (ev : Event ρ) : Prop :=
  ∃ node file snap q, ev = .command (.sync i) (.blockdevSnapshotSync node file snap) q files ∧
    q.tops[i]? = some base

end VMForge.Engine

namespace VMForge.Hvf

open VMForge.Core Engine Exec HvfBackend

variable {ρ : Type} {site : Site ρ} {env : Env ρ} {accel : Accel}

-- A file reads the same where the layers below it are the same.
theorem Reads.congr {files files' : Files ρ} {file : String} {c : Content}
    (hsame : ∀ p, Below site files file p → files' p = files p) :
    Reads site files' file c ↔ Reads site files file c := by
  have hbelow : ∀ p, Below site files' file p → Below site files file p := by
    intro p hp
    induction hp with
    | refl => exact Relation.ReflTransGen.refl
    | tail _ hb ih =>
        obtain ⟨l, hl, hlb⟩ := hb
        simp only [Files.layer, hsame _ ih] at hl
        exact ih.tail ⟨l, hl, hlb⟩
  exact ⟨fun h => h.of_same fun p hp => (hsame p (hbelow p hp)).symm, fun h => h.of_same hsame⟩

theorem Reads.size {files : Files ρ} {file : String} {l : Layer Path} {c : Content}
    (h : Reads site files file c) (hl : files.layer (site.locate file) = some l) :
    c.size = l.size := by
  cases h with
  | flat hl' _ | onto hl' _ _ =>
      obtain rfl := Option.some.inj (hl.symm.trans hl')
      rfl

-- A hollow layer of its base's size reads what the base reads.
theorem reads_hollow {files : Files ρ} {top base : String} {l : Layer Path} {c : Content}
    (hbase : files.layer (site.locate base) = some l)
    (htop : files.layer (site.locate top) = some (hollow l.size (site.locate base))) :
    Reads site files top c ↔ Reads site files base c := by
  have honto : ∀ {c : Content}, Reads site files base c →
      (hollow l.size (site.locate base)).onto c = c := fun h =>
    Layer.onto_eq_of_hollow _ _ (fun _ => rfl) (h.size hbase).symm
  constructor
  · intro h
    cases h with
    | flat hl hb =>
        obtain rfl := Option.some.inj (htop.symm.trans hl)
        cases hb
    | onto hl hb hc =>
        obtain rfl := Option.some.inj (htop.symm.trans hl)
        obtain rfl := Option.some.inj hb
        rw [honto hc]
        exact hc
  · intro h
    have hread : Reads site files top ((hollow l.size (site.locate base)).onto c) :=
      Resolves.onto htop rfl h
    rwa [honto h] at hread

-- A new VM whose paths mean to qemu-img what they mean to the backend, and those of its state files
-- to the shell too, and whose disks are on no file that it makes.
structure Placed (site : Site ρ) (files : Files ρ) (e : VmEntry ρ) : Prop where
  legible : ∀ f, (f ∈ e.config.disks ∨ ∃ g, f = generatedPath e g) → Legible site files e f
  apart : ∀ f ∈ e.config.disks, ∀ p, Below site files f p →
    ∀ g : Generated, 0 < g.seq → p ≠ site.locate (generatedPath e g)
  spared : ∀ k, (Command.migrate (generatedPath e (.snapState k))).Spared ∧
    (Command.migrateIncoming (generatedPath e (.snapState k))).Spared

theorem Sound.of_new {files : Files ρ} {config : VmConfig}
    (h : Placed site files (newEntry site config)) : Sound site files (newEntry site config) where
  settled f hf p hp g hg hpath := by
    obtain (hf | ⟨_, hq, _⟩) | ⟨_, _, ha, _⟩ := hf
    · exact absurd hpath (h.apart f hf p hp g hg)
    · cases hq
    · cases ha
  apart _ hf := by
    obtain ⟨_, _, ha, _⟩ := hf
    cases ha
  topped _ hq := nomatch hq
  saves _ _ hq := nomatch hq
  states _ _ ha := nomatch ha
  legible := h.legible

-- The turns of a run of `boot`, `pause`, `resume`, `stop`, `snapshot` and `restore` on one VM, and
-- what its process does between them.
def Turn.isOn (vm : String) : Turn ρ → Prop
  | .call (.boot vm') _ | .call (.pause vm') _ | .call (.resume vm') _ | .call (.stop vm') _
  | .call (.snapshot vm' _) _ | .call (.restore vm' _) _ | .guest vm' _
  | .migrationEnds vm' _ => vm' = vm
  | .call (.create _) _ | .call (.delete _) _ | .call (.state _) _ | .session _ => False

-- A snapshot of a VM finds no reply to an earlier command of its process unread.
def Turn.hears (b : HvfBackend ρ) : Turn ρ → Prop
  | .call (.snapshot vm parent) _ =>
      ∀ e ∈ b.vms vm, Admits e parent → ∀ q ∈ e.runtime, q.unread = []
  | _ => True

instance (b : HvfBackend ρ) : DecidablePred (Turn.hears b)
  | .call (.snapshot vm parent) _ =>
      inferInstanceAs (Decidable
        (∀ e ∈ b.vms vm, Admits e parent → ∀ q ∈ e.runtime, q.unread = []))
  | .call (.create _) _ | .call (.boot _) _ | .call (.pause _) _ | .call (.resume _) _
  | .call (.stop _) _ | .call (.restore _ _) _ | .call (.delete _) _ | .call (.state _) _
  | .guest _ _ | .migrationEnds _ _ | .session _ => isTrue trivial

-- A snapshot call that returns `id`.
def Turn.captures (site : Site ρ) (b : HvfBackend ρ) (id : SnapshotId) : Turn ρ → Prop
  | .call (.snapshot vm parent) env => (run site env (.snapshot vm parent) b).1 = .ok (.snapshot id)
  | _ => False

section Turns

variable {b : HvfBackend ρ} {vm : String} {e : VmEntry ρ} {t : Turn ρ}

theorem turn_isOn (site : Site ρ) (he : b.vms vm = some e) (ht : t.isOn vm) :
    ∃ m, Moved site b.accel vm e b.world t m ∧
      b.turn site t = ⟨b.accel, Function.update b.vms vm (some m.entry), m.world⟩ := by
  cases t with
  | session _ => exact ht.elim
  | guest _ acts =>
      obtain rfl : _ = vm := ht
      refine ⟨_, move_spec rfl e b.world, ?_⟩
      rw [turn, idle, withVm_some he]
  | migrationEnds _ poll =>
      obtain rfl : _ = vm := ht
      refine ⟨_, move_spec rfl e b.world, ?_⟩
      rw [turn, idle, withVm_some he]
  | call c env =>
      cases c with
      | create _ | delete _ | state _ => exact ht.elim
      | boot _ | restore _ _ =>
          obtain rfl : _ = vm := ht
          refine ⟨_, move_spec rfl e b.world, ?_⟩
          simp only [turn, run, read_bind, withVm_bind_snd]
          rw [withVm_some he]
      | pause _ | resume _ | stop _ | snapshot _ _ =>
          obtain rfl : _ = vm := ht
          refine ⟨_, move_spec rfl e b.world, ?_⟩
          simp only [turn, run, withVm_bind_snd]
          rw [withVm_some he]

-- Only a capture touches the record of the snapshots.
theorem Moved.record {w : World ρ} {m : Machine ρ} (h : Moved site accel vm e w t m)
    (hne : ∀ parent env, t ≠ .call (.snapshot vm parent) env) :
    m.entry.snapshots = e.snapshots := by
  cases h with
  | idle _ | acted _ _ _ | migrated _ _ _ => rfl
  | boot _ hspec =>
      cases hspec with
      | rejected _ _ | uninvocable _ _ | unspawned _ _ _ _ _ | dropped _ _ _ _ _ _ _ _
      | done _ _ _ _ _ _ _ _ => rfl
  | pause _ hspec | resume _ hspec =>
      cases hspec with
      | rejected _ _ | absent _ _ | failed _ _ _ _ _ _ _ | done _ _ _ _ _ _ => rfl
  | stop _ hspec =>
      cases hspec with
      | rejected _ _ | failed _ _ _ _ | done _ _ _ => rfl
  | snapshot env parent _ => exact absurd rfl (hne parent env)
  | restore _ _ hspec =>
      cases hspec with
      | rejected _ _ | unknown _ | unquit _ _ _ _ _ _ | unbranched _ _ _ _ _ _ _ _
      | uninvocable _ _ _ _ _ _ _ _ _ _ | unlaunched _ _ _ _ _ _ _ _ _ _ _ _ _
      | done _ _ _ _ _ _ _ _ _ _ _ _ _ => rfl

-- A capture that returns another id, or fails, keeps the record of a snapshot.
theorem Captured.record {parent : Option SnapshotId} {r : Except HvError SnapshotId} {w : World ρ}
    {m : Machine ρ} (h : Captured site env parent e w r m) {id : SnapshotId} (hid : r ≠ .ok id) :
    m.entry.snapshots id = e.snapshots id := by
  cases h with
  | orphaned _ _ _ | rejected _ _ | absent _ _ _ | failed _ _ _ _ _ _ _ => rfl
  | done q id' s _ _ _ _ =>
      have hne : id ≠ id' := fun hsame => hid (congrArg Except.ok hsame.symm)
      show (recordCapture e parent id').snapshots id = e.snapshots id
      rw [recordCapture, VmEntry.insertSnapshot_snapshots, Function.update_of_ne hne]
      rfl

-- A `snapshot` call returns what its machine does.
theorem snapshot_run (site : Site ρ) (env : Env ρ) (parent : Option SnapshotId) (he : b.vms vm = some e) :
    ∃ r m, Captured site env parent e b.world r m ∧
      run site env (.snapshot vm parent) b = (r.map Reply.snapshot,
        ⟨b.accel, Function.update b.vms vm (some m.entry), m.world⟩) := by
  refine ⟨_, _, snapshot_spec site env parent e b.world, ?_⟩
  have hcall := withVm_some (x := Hvf.snapshot site env parent) he
  simp only [run]
  rcases hx : Hvf.snapshot site env parent ⟨e, b.world⟩ with ⟨err | id, m⟩
  · rw [hx] at hcall
    rw [bind_of_error hcall]
    rfl
  · rw [hx] at hcall
    rw [bind_of_ok hcall]
    rfl

theorem turn_record {e' : VmEntry ρ} {id : SnapshotId} (he : b.vms vm = some e) (ht : t.isOn vm)
    (hid : ¬t.captures site b id) (he' : (b.turn site t).vms vm = some e') :
    e'.snapshots id = e.snapshots id := by
  by_cases hsnap : ∃ parent env, t = .call (.snapshot vm parent) env
  · obtain ⟨parent, env, rfl⟩ := hsnap
    obtain ⟨r, m, hspec, hrun⟩ := snapshot_run site env parent he
    have hne : r ≠ .ok id := by
      rintro rfl
      refine hid ?_
      rw [Turn.captures, hrun]
      rfl
    rw [turn, hrun] at he'
    simp only [Function.update_self, Option.some.injEq] at he'
    rw [← he']
    exact hspec.record hne
  · obtain ⟨m, hmove, hturn⟩ := turn_isOn site he ht
    rw [hturn] at he'
    simp only [Function.update_self, Option.some.injEq] at he'
    rw [← he', hmove.record fun parent env hsame => hsnap ⟨parent, env, hsame⟩]

end Turns

-- The VM is there, in a state that keeps its snapshots as they are.
def Standing (site : Site ρ) (config : VmConfig) (b : HvfBackend ρ) : Prop :=
  ∃ e, b.vms config.name = some e ∧ e.config = config ∧ Shaped e ∧ Named e ∧
    Sound site b.world.files e

theorem Turn.hears.unread {b : HvfBackend ρ} {t : Turn ρ} (h : t.hears b) {vm : String}
    {e : VmEntry ρ} (he : b.vms vm = some e) (parent : Option SnapshotId) (env : Env ρ)
    (ht : t = .call (.snapshot vm parent) env) (hadmits : Admits e parent) :
    ∀ q, e.runtime = some q → q.unread = [] := by
  subst ht
  exact h e he hadmits

theorem standing_turn {b : HvfBackend ρ} {config : VmConfig} {t : Turn ρ}
    (h : Standing site config b) (ht : t.isOn config.name) (hears : t.hears b) :
    Standing site config (b.turn site t) := by
  obtain ⟨e, he, hconfig, hshape, hnamed, hsound⟩ := h
  obtain ⟨m, hmove, hturn⟩ := turn_isOn site he ht
  have hstepped := hmove.stepped hsound hshape hnamed (hears.unread he)
  rw [hturn]
  exact ⟨m.entry, Function.update_self .., hstepped.config.trans hconfig, hmove.shaped hshape,
    hmove.named hnamed hshape, hstepped.sound hsound⟩

-- The snapshot `id` is recorded as `a`, and its files are as in `files`.
def KeepsSnapshot (site : Site ρ) (vm : String) (id : SnapshotId) (a : SnapshotArtifacts)
    (files : Files ρ) (b : HvfBackend ρ) : Prop :=
  (∃ e, b.vms vm = some e ∧ e.snapshots id = some a) ∧
    (∀ base ∈ a.diskBases, ∀ p, Below site files base p → b.world.files p = files p) ∧
    b.world.files (site.locate a.stateFile) = files (site.locate a.stateFile)

-- Where the layers below a file are as they were, so are the paths below it.
theorem Below.of_same {files files' : Files ρ} {file : String} {p : Path}
    (hsame : ∀ q, Below site files file q → files' q = files q) (hp : Below site files file p) :
    Below site files' file p := by
  induction hp with
  | refl => exact Relation.ReflTransGen.refl
  | tail hq hb ih =>
      obtain ⟨l, hl, hlb⟩ := hb
      exact ih.tail ⟨l, by simp only [Files.layer, hsame _ hq]; exact hl, hlb⟩

theorem keeps_turn {b : HvfBackend ρ} {config : VmConfig} {t : Turn ρ} {id : SnapshotId}
    {a : SnapshotArtifacts} {files : Files ρ} (hstands : Standing site config b)
    (ht : t.isOn config.name) (hears : t.hears b) (hid : ¬t.captures site b id)
    (h : KeepsSnapshot site config.name id a files b) :
    KeepsSnapshot site config.name id a files (b.turn site t) := by
  obtain ⟨e, he, -, hshape, hnamed, hsound⟩ := hstands
  obtain ⟨⟨e', he', ha⟩, hbelow, hstate⟩ := h
  obtain rfl := Option.some.inj (he.symm.trans he')
  obtain ⟨m, hmove, hturn⟩ := turn_isOn site he ht
  have hstepped := (hmove.stepped hsound hshape hnamed (hears.unread he)).toWrote
  have hm : (b.turn site t).vms config.name = some m.entry := by
    rw [hturn]
    exact Function.update_self ..
  refine ⟨⟨m.entry, hm, (turn_record he ht hid hm).trans ha⟩, fun base hbase p hp => ?_, ?_⟩
  · have hp' := hp.of_same (hbelow base hbase)
    rw [hturn]
    exact (hstepped.keeps_frozen hsound ⟨id, a, ha, hbase⟩ hp').trans (hbelow base hbase p hp)
  · rw [hturn]
    exact (hstepped.keeps_state hsound ha).trans hstate

-- A capture that returned has recorded the layers its disks wrote to when they got their overlays,
-- and a file with the state of the guest.
theorem Captured.froze {e : VmEntry ρ} {w : World ρ} {m : Machine ρ} {parent : Option SnapshotId}
    {id : SnapshotId} (hs : Sound site w.files e) (hshape : Shaped e)
    (hread : Admits e parent → ∀ q, e.runtime = some q → q.unread = [])
    (h : Captured site env parent e w (.ok id) m) :
    ∃ a q events, m.entry.snapshots id = some a ∧ m.entry.runtime = some q ∧
      m.world.files (site.locate a.stateFile) = some (.ram (some q.ram)) ∧
      m.world.log = w.log ++ events ∧
      ∀ (i : Nat) base, a.diskBases[i]? = some base → ∃ ev ∈ events, ∃ files,
        ev.Orders i base files ∧ ∀ p, Below site m.world.files base p → files p = m.world.files p := by
  have hstepped := (h.stepped hs hshape hread).toWrote
  cases h with
  | done q id s hstate hknown hq hrun =>
      obtain ⟨t, j, -, hsnapped, hplain | ⟨-, err, herr⟩⟩ :=
        capture_snapped hshape hq (hread (admits_of hstate hknown) q hq) hrun
      · obtain ⟨rfl, -, hstate⟩ := hsnapped.done id rfl
        obtain ⟨events, hlog, hevents⟩ := hsnapped.log
        refine ⟨⟨e.activeDisks, statePath e (snapTag (e.snapshotSeq + 1)), parent⟩, s.qemu, events,
          Function.update_self .., rfl, hstate, hlog, fun i base hi => ?_⟩
        have hlt : i < e.config.disks.length := by
          rw [← hshape.arity]
          exact (List.getElem?_eq_some_iff.mp hi).1
        obtain ⟨ev, hev, node, q', files, rfl, htops, hfiles⟩ := hevents i hlt
        have hbase : q.tops[i]? = some base := by rw [hs.topped q hq hplain]; exact hi
        have hbegan : t.qemu.tops = q.tops := by rw [Qemu.tops, hsnapped.began.1, Qemu.tops]
        refine ⟨_, hev, files, ⟨node, _, _, q', rfl, ?_⟩, fun p hp => ?_⟩
        · rw [htops, hbegan, hbase]
        · -- the files of the capture are none of the layers below the disk
          have hwritable : Writable e base := Or.inl (List.mem_of_getElem? hi)
          have hsettled := hs.settled base (Or.inl hwritable) p
            (hstepped.below hs (Or.inl hwritable) hp)
          have hdisk : ∀ k, p ≠ site.locate (overlayBlock e.dir (snapTag (e.snapshotSeq + 1)) k).file := by
            intro k hk
            have hseq : e.snapshotSeq + 1 ≤ e.snapshotSeq :=
              (hsettled (.snapDisk (e.snapshotSeq + 1) k) (Nat.succ_pos e.snapshotSeq) hk).2
            omega
          have hfile : p ≠ site.locate (join e.dir (QemuVm.stateName (snapTag (e.snapshotSeq + 1)))) :=
            fun hp => (hsettled (.snapState (e.snapshotSeq + 1)) (Nat.succ_pos e.snapshotSeq) hp).1
          exact (hfiles p hdisk).trans (hsnapped.files p hdisk hfile).symm
      · cases herr

-- A restore that returned has started the guest from the saved state, on disks that read what the
-- recorded layers do.
theorem Restored.resumed {e : VmEntry ρ} {w : World ρ} {m : Machine ρ} {id : SnapshotId}
    {a : SnapshotArtifacts} (hs : Sound site w.files e) (hshape : Shaped e) (hnamed : Named e)
    (ha : e.snapshots id = some a) (h : Restored site env accel id e w (.ok ()) m) :
    ∃ q, m.entry.runtime = some q ∧
      w.files (site.locate a.stateFile) = some (.ram (some q.ram)) ∧
      ∀ (i : Nat) base, a.diskBases[i]? = some base → ∃ top, q.tops[i]? = some top ∧
        ∀ c, Reads site m.world.files top c ↔ Reads site w.files base c := by
  have hstepped := (h.stepped hs hshape hnamed).toWrote
  cases h with
  | done a' overlays inv q w₁ w₂ w₃ _ ha' hquit hbranch hinv hlaunch =>
      obtain rfl := Option.some.inj (ha.symm.trans ha')
      have hfiles := hlaunch.files
      refine ⟨q, rfl, ?_, fun i base hi => ?_⟩
      · have hstate : w₃.files (site.locate a.stateFile) = w.files (site.locate a.stateFile) :=
          hstepped.keeps_state hs ha
        rw [← hstate, hfiles]
        exact savedState_eq_some.mp hlaunch.loaded.1
      · have hbase : Frozen e base := ⟨id, a, ha, List.mem_of_getElem? hi⟩
        have hkept : ∀ p, Below site w.files base p → w₃.files p = w.files p := fun p hp =>
          hstepped.keeps_frozen hs hbase hp
        have htops : q.tops = overlays := (launched_disks hinv hlaunch).2
        have hlt : i < e.config.disks.length := by
          rw [← hshape.bases id a ha]
          exact (List.getElem?_eq_some_iff.mp hi).1
        obtain ⟨l, hl, hmade⟩ := hs.branched hnamed ha hquit hbranch hi
        have hquitted : w₁.files (site.locate base) = w₃.files (site.locate base) := by
          rw [hkept _ Relation.ReflTransGen.refl]
          obtain hsame | ⟨f, hf, hp, -⟩ := hquit.wrote (site.locate base)
          · exact hsame
          · exact absurd hp (hs.apart base hbase _ Relation.ReflTransGen.refl f hf)
        refine ⟨generatedPath e (.branchDisk (e.snapshotSeq + 1) i), ?_, fun c => ?_⟩
        · rw [htops, overlays_eq hshape ha hbranch, layersOf, List.getElem?_map,
            List.getElem?_range hlt]
          rfl
        · have hbelow : w₃.files.layer (site.locate base) = some l := by
            simp only [Files.layer, ← hquitted]
            exact hl
          have htop : w₃.files.layer
              (site.locate (generatedPath e (.branchDisk (e.snapshotSeq + 1) i))) =
              some (hollow l.size (site.locate base)) := by
            simp only [Files.layer, hfiles, hmade]
          exact (reads_hollow hbelow htop).trans (Reads.congr hkept)

-- A `create` that returned has registered a new VM.
theorem create_returned {b b' : HvfBackend ρ} {config : VmConfig} {reply : Reply}
    (h : run site env (.create config) b = (.ok reply, b')) :
    b'.vms config.name = some (newEntry site config) ∧ config.arch = .aarch64 := by
  simp only [run, create, Exec.bind_assoc, read_bind] at h
  obtain ⟨_, b₁, -, hfree⟩ := bind_eq_ok.mp h
  obtain ⟨_, b₂, -, hdir⟩ := bind_eq_ok.mp hfree
  obtain ⟨inv, b₃, hinv, hput⟩ := bind_eq_ok.mp hdir
  obtain ⟨hbuild, rfl⟩ := ofExcept_eq_ok.mp hinv
  cases hput
  exact ⟨Function.update_self .., buildAarch64Virt_ok_iff.mp ⟨inv, hbuild⟩⟩

-- A `restore` call that returned has done to its VM what its machine does.
theorem restore_returned {b b' : HvfBackend ρ} {vm : String} {id : SnapshotId} {e : VmEntry ρ}
    {reply : Reply} (he : b.vms vm = some e)
    (h : run site env (.restore vm id) b = (.ok reply, b')) :
    ∃ m, Restored site env b.accel id e b.world (.ok ()) m ∧ b'.vms vm = some m.entry ∧
      b'.world = m.world := by
  have hspec := restore_spec site env b.accel id e b.world
  obtain ⟨u, m, hrun, -, rfl⟩ := withVm_returned he h
  rw [hrun] at hspec
  exact ⟨m, hspec, Function.update_self .., rfl⟩

-- In every run on a VM whose disks are placed where QEMU and qemu-img find the same files, and whose
-- snapshots read their own replies, a snapshot keeps its layers and its state file, and every restore
-- of it that succeeds starts the guest from that state, on disks that read what they read when they
-- were captured.
theorem restore_resumes (site : Site ρ) {env₀ env : Env ρ} {config : VmConfig}
    {b b₀ b₂ : HvfBackend ρ} {reply : Reply} {pre mid : List (Turn ρ)}
    {parent : Option SnapshotId} {id : SnapshotId}
    (hcreate : run site env₀ (.create config) b = (.ok reply, b₀))
    (hplaced : Placed site b₀.world.files (newEntry site config))
    (hpre : Along (turn site) (fun b t => t.isOn config.name ∧ t.hears b) b₀ pre)
    (hread : (Turn.call (.snapshot config.name parent) env).hears (after (turn site) b₀ pre))
    (hsnapshot : run site env (.snapshot config.name parent) (after (turn site) b₀ pre) =
      (.ok (.snapshot id), b₂))
    (hmid : Along (turn site)
      (fun b t => (t.isOn config.name ∧ t.hears b) ∧ ¬t.captures site b id) b₂ mid) :
    ∃ a e₂ q₂ events, b₂.vms config.name = some e₂ ∧ e₂.runtime = some q₂ ∧
      b₂.world.log = (after (turn site) b₀ pre).world.log ++ events ∧
      b₂.world.files (site.locate a.stateFile) = some (.ram (some q₂.ram)) ∧
      KeepsSnapshot site config.name id a b₂.world.files (after (turn site) b₂ mid) ∧
      ∀ env' reply' b₄,
        run site env' (.restore config.name id) (after (turn site) b₂ mid) = (.ok reply', b₄) →
        ∃ e₄ q₄, b₄.vms config.name = some e₄ ∧ e₄.runtime = some q₄ ∧ q₄.ram = q₂.ram ∧
          ∀ i < config.disks.length, ∃ ev ∈ events, ∃ base files, ev.Orders i base files ∧
            ∃ top, q₄.tops[i]? = some top ∧
              ∀ c, Reads site b₄.world.files top c ↔ Reads site files base c := by
  obtain ⟨hnew, harch⟩ := create_returned hcreate
  have hstart : Standing site config b₀ :=
    ⟨_, hnew, rfl, Shaped.of_new config harch, Named.of_new config, Sound.of_new hplaced⟩
  obtain ⟨e₁, he₁, hconfig₁, hshape₁, hnamed₁, hsound₁⟩ :=
    hpre.invariant (Standing site config) hstart fun _ _ hb ht => standing_turn hb ht.1 ht.2
  have hstands := standing_turn (t := .call (.snapshot config.name parent) env)
    ⟨e₁, he₁, hconfig₁, hshape₁, hnamed₁, hsound₁⟩ rfl hread
  rw [turn, hsnapshot] at hstands
  obtain ⟨id', m, hrun, hid, hb₂⟩ := withVm_returned he₁ hsnapshot
  obtain rfl : id' = id := Reply.snapshot.inj hid
  have hcaptured := snapshot_spec site env parent e₁ (after (turn site) b₀ pre).world
  rw [hrun] at hcaptured
  obtain ⟨a, q₂, events, ha, hq₂, hstate, hlog, hevents⟩ := hcaptured.froze hsound₁ hshape₁ (hread e₁ he₁)
  have hm : b₂.vms config.name = some m.entry := by
    rw [hb₂]
    exact Function.update_self ..
  have hworld : m.world = b₂.world := by rw [hb₂]
  rw [hworld] at hstate hlog hevents
  -- the calls after the capture
  obtain ⟨⟨e₃, he₃, hconfig₃, hshape₃, hnamed₃, hsound₃⟩, hkeeps⟩ := hmid.invariant
    (fun b => Standing site config b ∧ KeepsSnapshot site config.name id' a b₂.world.files b)
    ⟨hstands, ⟨m.entry, hm, ha⟩, fun _ _ _ _ => rfl, rfl⟩
    fun _ _ hb ht =>
      ⟨standing_turn hb.1 ht.1.1 ht.1.2, keeps_turn hb.1 ht.1.1 ht.1.2 ht.2 hb.2⟩
  refine ⟨a, m.entry, q₂, events, hm, hq₂, hlog, hstate, hkeeps, fun env' reply' b₄ hrestore => ?_⟩
  obtain ⟨⟨e, he, ha₃⟩, hbelow, hfile⟩ := hkeeps
  obtain rfl := Option.some.inj (he₃.symm.trans he)
  obtain ⟨m₄, hrestored, hm₄, hworld₄⟩ := restore_returned he₃ hrestore
  obtain ⟨q₄, hq₄, hstate₄, hdisks⟩ := hrestored.resumed hsound₃ hshape₃ hnamed₃ ha₃
  refine ⟨m₄.entry, q₄, hm₄, hq₄, ?_, fun i hi => ?_⟩
  · have hsame := (hstate₄.symm.trans hfile).trans hstate
    injection hsame with hsame
    injection hsame with hsame
    exact Option.some.inj hsame
  · have hbase : a.diskBases[i]? = some (a.diskBases.get ⟨i, by
        rw [hshape₃.bases id' a ha₃, hconfig₃]
        exact hi⟩) := List.getElem?_eq_getElem _
    obtain ⟨ev, hev, files, horders, hfiles⟩ := hevents i _ hbase
    obtain ⟨top, htop, hreads⟩ := hdisks i _ hbase
    refine ⟨ev, hev, _, files, horders, top, htop, fun c => ?_⟩
    rw [hworld₄, hreads c, Reads.congr hfiles]
    exact Reads.congr (hbelow _ (List.mem_of_getElem? hbase))

def Sample.created (files : Files Nat) (config : VmConfig) :
    Except HvError Reply × HvfBackend Nat :=
  run Sample.site (Sample.envBut []) (.create config) (new .tcg files)

def Sample.captured (files : Files Nat) (config : VmConfig) :
    Except HvError Reply × HvfBackend Nat :=
  run Sample.site (Sample.envBut []) (.snapshot "web" none)
    (after (turn Sample.site) (Sample.created files config).2 (Sample.calls [(.boot "web", [])]))

def Sample.resumed (files : Files Nat) (config : VmConfig) :
    Except HvError Reply × HvfBackend Nat :=
  run Sample.site (Sample.envBut []) (.restore "web" ⟨"0/srv/web/snap1-disk0.qcow2"⟩)
    (after (turn Sample.site) (Sample.captured files config).2 (Sample.calls [(.stop "web", [])]))

theorem Sample.placed : Placed Sample.site (Sample.created Sample.files Sample.config).2.world.files
    (newEntry Sample.site Sample.config) := by
  have hdir : Sample.site.locate (newEntry Sample.site Sample.config).dir = ["srv", "web"] := by
    decide
  constructor
  · rintro f (hf | ⟨g, rfl⟩)
    · obtain rfl := List.mem_singleton.mp hf
      left
      rw [hdir]
      decide
    · left
      rw [locate_generated, hdir]
      exact locate_join { Sample.site with cwd := ["srv", "web"] } "/srv/web" g.isComponent_name
  · intro f hf p hp g _ hpath
    obtain rfl := List.mem_singleton.mp hf
    have hroot : Sample.site.locate "/data/root.qcow2" = ["data", "root.qcow2"] := by
      decide
    have hflat : ((Sample.created Sample.files Sample.config).2.world.files.layer
        ["data", "root.qcow2"]).bind (·.backing) = none := by decide +kernel
    rw [locate_generated, hdir] at hpath
    obtain rfl | ⟨b, ⟨l, hl, hb⟩, -⟩ := Relation.ReflTransGen.cases_head_iff.mp hp
    · rw [hroot] at hpath
      exact absurd (List.cons.inj hpath).1 (by decide)
    · rw [hroot] at hl
      rw [hl, Option.bind_some, hb] at hflat
      cases hflat
  · have hliteral : Shell.Literal (newEntry Sample.site Sample.config).dir.toList :=
      ⟨by decide, by decide, by decide, by decide⟩
    exact fun k => ⟨spared_state hliteral k,
      spared_state_incoming hliteral (by decide) (by decide) k⟩

theorem restore_resumes_once :
    ∃ e₂ ∈ (Sample.captured Sample.files Sample.config).2.vms "web", ∃ q₂ ∈ e₂.runtime,
      ∃ e₄ ∈ (Sample.resumed Sample.files Sample.config).2.vms "web", ∃ q₄ ∈ e₄.runtime,
        q₄.ram = q₂.ram := by
  have hplaced := Sample.placed
  have hsnapped : (Sample.captured Sample.files Sample.config).1 =
      .ok (.snapshot ⟨"0/srv/web/snap1-disk0.qcow2"⟩) := by decide +kernel
  have hheard : (Turn.call (.snapshot "web" none) (Sample.envBut [])).hears
      (after (turn Sample.site) (Sample.created Sample.files Sample.config).2
        (Sample.calls [(.boot "web", [])])) := by decide +kernel
  have hokay : (Sample.created Sample.files Sample.config).1.isOk = true ∧
      (Sample.resumed Sample.files Sample.config).1.isOk = true := by decide +kernel
  rcases hcreate : Sample.created Sample.files Sample.config with ⟨err | r₀, b₀⟩
  · rw [hcreate] at hokay
    cases hokay.1
  · rcases hsnapshot : Sample.captured Sample.files Sample.config with ⟨r, b₂⟩
    rcases hrestore : Sample.resumed Sample.files Sample.config with ⟨err | r₄, b₄⟩
    · rw [hrestore] at hokay
      cases hokay.2
    · rw [hcreate] at hplaced
      rw [hsnapshot] at hsnapped
      obtain rfl : r = .ok (.snapshot ⟨"0/srv/web/snap1-disk0.qcow2"⟩) := hsnapped
      rw [Sample.resumed, hsnapshot] at hrestore
      rw [Sample.captured, hcreate] at hsnapshot
      rw [hcreate] at hheard
      have hpre : Along (turn Sample.site) (fun b t => t.isOn Sample.config.name ∧ t.hears b) b₀
          (Sample.calls [(.boot "web", [])]) := ⟨⟨rfl, trivial⟩, trivial⟩
      have hmid : Along (turn Sample.site) (fun b t => (t.isOn Sample.config.name ∧ t.hears b) ∧
          ¬t.captures Sample.site b ⟨"0/srv/web/snap1-disk0.qcow2"⟩) b₂
          (Sample.calls [(.stop "web", [])]) := ⟨⟨⟨rfl, trivial⟩, fun h => h⟩, trivial⟩
      obtain ⟨a, e₂, q₂, events, he₂, hq₂, -, -, -, hall⟩ :=
        restore_resumes Sample.site hcreate hplaced hpre hheard hsnapshot hmid
      obtain ⟨e₄, q₄, he₄, hq₄, hram, -⟩ := hall _ _ _ hrestore
      exact ⟨e₂, he₂, q₂, hq₂, e₄, he₄, q₄, hq₄, hram⟩

-- Two images of one name, one where the backend works and one where the VM keeps its files.
def Sample.twoImages : Files Nat := fun p =>
  if p = ["work", "root.qcow2"] then some (.image ⟨4, fun _ => some 0, none⟩)
  else if p = ["srv", "web", "root.qcow2"] then some (.image ⟨8, fun _ => some 0, none⟩)
  else if p = [] ∨ p = ["srv"] ∨ p = ["srv", "web"] then some .dir
  else none

def Sample.relative : VmConfig := { Sample.config with disks := ["root.qcow2"] }

-- The size of the only layer of the first disk when it gets its overlay.
def Sample.sizeCaptured : Event Nat → Option Nat
  | .command (.sync 0) (.blockdevSnapshotSync ..) q files =>
      q.tops[0]?.bind fun base =>
        (files.layer (Sample.site.locate base)).bind fun l =>
          if l.backing.isNone then some l.size else none
  | _ => none

theorem Sample.sizeCaptured_eq {ev : Event Nat} {n : Nat} (h : Sample.sizeCaptured ev = some n) :
    ∃ base files c, ev.Orders 0 base files ∧ Reads Sample.site files base c ∧ c.size = n := by
  unfold Sample.sizeCaptured at h
  split at h
  · rename_i node file snap q files
    obtain ⟨base, hbase, hlayer⟩ := Option.bind_eq_some_iff.mp h
    obtain ⟨l, hl, hsize⟩ := Option.bind_eq_some_iff.mp hlayer
    split at hsize
    · rename_i hnone
      exact ⟨base, files, l.onto .empty, ⟨node, file, snap, q, rfl, hbase⟩,
        Resolves.flat hl (Option.isNone_iff_eq_none.mp hnone), Option.some.inj hsize⟩
    · cases hsize
  · cases h

-- The path of a disk means another image to qemu-img than it meant to QEMU, and the restored disk
-- is that image.
theorem restore_reads_another_image :
    (Sample.resumed Sample.twoImages Sample.relative).1 = .ok .unit ∧
      ∃ e ∈ (Sample.resumed Sample.twoImages Sample.relative).2.vms "web", ∃ q ∈ e.runtime,
        ∃ ev ∈ (Sample.captured Sample.twoImages Sample.relative).2.world.log, ∃ base files c,
          ev.Orders 0 base files ∧ Reads Sample.site files base c ∧
          ∃ top ∈ q.tops[0]?, ¬Reads Sample.site
            (Sample.resumed Sample.twoImages Sample.relative).2.world.files top c := by
  refine ⟨by decide +kernel, ?_⟩
  have hcaptured : ∃ ev ∈ (Sample.captured Sample.twoImages Sample.relative).2.world.log,
      Sample.sizeCaptured ev = some 4 := by decide +kernel
  have hresumed : ∃ e ∈ (Sample.resumed Sample.twoImages Sample.relative).2.vms "web",
      ∃ q ∈ e.runtime, ∃ top ∈ q.tops[0]?,
        ((Sample.resumed Sample.twoImages Sample.relative).2.world.files.layer
          (Sample.site.locate top)).map (·.size) = some 8 := by decide +kernel
  obtain ⟨ev, hev, hsize⟩ := hcaptured
  obtain ⟨base, files, c, horders, hreads, hc⟩ := Sample.sizeCaptured_eq hsize
  obtain ⟨e, he, q, hq, top, htop, hlayer⟩ := hresumed
  obtain ⟨l, hl, hl8⟩ := Option.map_eq_some_iff.mp hlayer
  refine ⟨e, he, q, hq, ev, hev, base, files, c, horders, hreads, top, htop, fun h => ?_⟩
  have hsame := h.size hl
  omega

end VMForge.Hvf
