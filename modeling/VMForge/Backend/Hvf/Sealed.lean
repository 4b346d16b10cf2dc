import VMForge.Backend.Hvf.FailedRestore
import VMForge.Engine.Captures

namespace VMForge.Hvf

open VMForge.Core Engine Exec HvfBackend

variable {ρ : Type} {site : Site ρ} {env : Env ρ} {accel : Accel}

def Generated.isDisk : Generated → Prop
  | .snapDisk _ _ => True
  | .snapState _ => False
  | .branchDisk _ _ => True

-- A layer that the guest of a VM may write to, now or once it is booted.
def Writable (e : VmEntry ρ) (f : String) : Prop :=
  f ∈ e.activeDisks ∨ ∃ q, e.runtime = some q ∧ f ∈ q.tops

-- A layer that a snapshot of the VM has recorded.
def Frozen (e : VmEntry ρ) (f : String) : Prop :=
  ∃ id a, e.snapshots id = some a ∧ f ∈ a.diskBases

-- The paths of a layer and of those below it.
def Below (site : Site ρ) (files : Files ρ) (f : String) : Path → Prop :=
  Relation.ReflTransGen (BackedBy files.layer) (site.locate f)

-- A path that is no state file of the VM, and no file that the VM has yet to make.
def Settled (site : Site ρ) (e : VmEntry ρ) (p : Path) : Prop :=
  ∀ g : Generated, 0 < g.seq → p = site.locate (generatedPath e g) →
    g.isDisk ∧ g.seq ≤ e.snapshotSeq

-- Seen from the VM's directory, a path means what it means to the backend, or nothing.
def Legible (site : Site ρ) (files : Files ρ) (e : VmEntry ρ) (f : String) : Prop :=
  Path.ofString (site.locate e.dir) f = site.locate f ∨
    files.layer (Path.ofString (site.locate e.dir) f) = none ∧
      ∀ g : Generated, 0 < g.seq →
        Path.ofString (site.locate e.dir) f ≠ site.locate (generatedPath e g)

-- What keeps the snapshots of a VM as they are: no layer below a recorded one is written to any
-- more, and the files to come are none that anything is recorded on.
structure Sound (site : Site ρ) (files : Files ρ) (e : VmEntry ρ) : Prop where
  settled : ∀ f, Writable e f ∨ Frozen e f → ∀ p, Below site files f p → Settled site e p
  apart : ∀ f, Frozen e f → ∀ p, Below site files f p → ∀ f', Writable e f' → p ≠ site.locate f'
  topped : ∀ q, e.runtime = some q → Plain e.config.disks.length q.disks → q.tops = e.activeDisks
  saves : ∀ q f, e.runtime = some q → q.migration = .active f →
    ∃ k, 0 < k ∧ k ≤ e.snapshotSeq ∧ f = generatedPath e (.snapState k) ∧
      ∀ id a, e.snapshots id = some a → a.stateFile ≠ f
  states : ∀ id a, e.snapshots id = some a →
    ∃ k, 0 < k ∧ k ≤ e.snapshotSeq ∧ a.stateFile = generatedPath e (.snapState k)
  legible : ∀ f, (f ∈ e.config.disks ∨ ∃ g, f = generatedPath e g) → Legible site files e f

-- A layer that a call has made, on one that was there before.
def New (site : Site ρ) (e : VmEntry ρ) (m : Machine ρ) (f : String) : Prop :=
  ∃ g : Generated, g.isDisk ∧ e.snapshotSeq < g.seq ∧ g.seq ≤ m.entry.snapshotSeq ∧
    f = generatedPath e g ∧
    ∀ b, BackedBy m.world.files.layer (site.locate f) b →
      ∃ f', (Writable e f' ∨ Frozen e f') ∧ b = site.locate f'

-- The files a call changes for its VM: layers that are written to, files that are next in turn,
-- and the file of a migration under way.
structure Wrote (site : Site ρ) (e : VmEntry ρ) (w : World ρ) (m : Machine ρ) : Prop where
  dir : m.entry.dir = e.dir
  config : m.entry.config = e.config
  seq : e.snapshotSeq ≤ m.entry.snapshotSeq
  files : ∀ p, m.world.files p = w.files p ∨
    (∃ f, Writable e f ∧ p = site.locate f ∧ Rewritten (w.files p) (m.world.files p)) ∨
    (∃ g : Generated, e.snapshotSeq < g.seq ∧ p = site.locate (generatedPath e g)) ∨
    ∃ q f, e.runtime = some q ∧ q.migration = .active f ∧ p = site.locate f

-- What a call does for its VM, as far as its snapshots are concerned.
structure Stepped (site : Site ρ) (e : VmEntry ρ) (w : World ρ) (m : Machine ρ) : Prop
    extends Wrote site e w m where
  writable : ∀ f, Writable m.entry f → Writable e f ∨ New site e m f
  frozen : ∀ f, Frozen m.entry f →
    Frozen e f ∨ Writable e f ∧ ∀ f', Writable m.entry f' → New site e m f'
  topped : ∀ q, m.entry.runtime = some q → Plain e.config.disks.length q.disks →
    q.tops = m.entry.activeDisks
  saves : ∀ q f, m.entry.runtime = some q → q.migration = .active f →
    m.entry.snapshots = e.snapshots ∧ ((∃ q', e.runtime = some q' ∧ q'.migration = .active f) ∨
      m.entry.snapshotSeq = e.snapshotSeq + 1 ∧
        f = generatedPath e (.snapState (e.snapshotSeq + 1)))
  states : ∀ id a, m.entry.snapshots id = some a → e.snapshots id = some a ∨
    m.entry.snapshotSeq = e.snapshotSeq + 1 ∧
      a.stateFile = generatedPath e (.snapState (e.snapshotSeq + 1))

theorem generatedPath_congr {e e' : VmEntry ρ} (h : e'.dir = e.dir) (g : Generated) :
    generatedPath e' g = generatedPath e g := by
  unfold generatedPath
  rw [h]

section Steps

variable {e : VmEntry ρ} {w : World ρ} {m : Machine ρ} (hs : Sound site w.files e)
include hs

-- The migration under way saves to a state file.
theorem Sound.saving {q : Qemu ρ} {f : String} (hq : e.runtime = some q)
    (hf : q.migration = .active f) : ¬Settled site e (site.locate f) := by
  obtain ⟨k, hk, -, rfl, -⟩ := hs.saves q f hq hf
  exact fun h => (h (.snapState k) hk rfl).1

-- A settled path keeps its place in a chain, whatever a call writes.
theorem Wrote.layer (h : Wrote site e w m) {p : Path} (hp : Settled site e p) {b : Path}
    (hb : BackedBy m.world.files.layer p b) : BackedBy w.files.layer p b := by
  obtain ⟨l, hl, hlb⟩ := hb
  obtain hsame | ⟨f, -, -, l₀, l₁, hl₀, hl₁, -, hbacking⟩ | ⟨g, hg, hpath⟩ | ⟨q, f, hq, hf, hpath⟩ :=
    h.files p
  · exact ⟨l, by simpa only [Files.layer, hsame] using hl, hlb⟩
  · simp only [Files.layer, hl₁, Option.some.injEq] at hl
    subst hl
    exact ⟨l₀, by simp only [Files.layer, hl₀], hbacking ▸ hlb⟩
  · have hseq := (hp g (by omega) hpath).2
    omega
  · exact absurd (hpath ▸ hp) (hs.saving hq hf)

-- The layers below one that was there before are those that were below it.
theorem Wrote.below (h : Wrote site e w m) {f : String} (hf : Writable e f ∨ Frozen e f) {p : Path}
    (hp : Below site m.world.files f p) : Below site w.files f p := by
  induction hp with
  | refl => exact Relation.ReflTransGen.refl
  | tail _ hb ih => exact ih.tail (h.layer hs (hs.settled f hf _ ih) hb)

-- Below a new layer are that layer and those below one that was there before.
theorem Wrote.below_new (h : Wrote site e w m) {f : String} (hf : New site e m f) {p : Path}
    (hp : Below site m.world.files f p) :
    p = site.locate f ∨ ∃ f', (Writable e f' ∨ Frozen e f') ∧ Below site w.files f' p := by
  obtain ⟨g, -, -, -, -, hbacking⟩ := hf
  obtain rfl | ⟨b, hb, hrest⟩ := Relation.ReflTransGen.cases_head_iff.mp hp
  · exact Or.inl rfl
  · obtain ⟨f', hf', rfl⟩ := hbacking b hb
    exact Or.inr ⟨f', hf', h.below hs hf' hrest⟩

-- A path that was settled stays so.
omit hs in
theorem Wrote.settled (h : Wrote site e w m) {p : Path} (hp : Settled site e p) :
    Settled site m.entry p := by
  intro g hg hpath
  rw [generatedPath_congr h.dir] at hpath
  obtain ⟨hdisk, hseq⟩ := hp g hg hpath
  exact ⟨hdisk, hseq.trans h.seq⟩

omit hs in
theorem Wrote.settled_new (h : Wrote site e w m) {f : String} (hf : New site e m f) :
    Settled site m.entry (site.locate f) := by
  obtain ⟨g, hdisk, -, hseq, rfl, -⟩ := hf
  intro g' _ hpath
  rw [generatedPath_congr h.dir] at hpath
  obtain ⟨-, rfl⟩ := locate_generated_inj e e g g' hpath
  exact ⟨hdisk, hseq⟩

-- No call changes a layer that a snapshot is on.
theorem Wrote.keeps_frozen (h : Wrote site e w m) {f : String} (hf : Frozen e f) {p : Path}
    (hp : Below site w.files f p) : m.world.files p = w.files p := by
  have hsettled := hs.settled f (Or.inr hf) p hp
  obtain hsame | ⟨f', hf', hpath, -⟩ | ⟨g, hg, hpath⟩ | ⟨q, f', hq, hf', hpath⟩ := h.files p
  · exact hsame
  · exact absurd hpath (hs.apart f hf p hp f' hf')
  · have hseq := (hsettled g (by omega) hpath).2
    omega
  · exact absurd (hpath ▸ hsettled) (hs.saving hq hf')

-- No call changes the saved state of a snapshot.
theorem Wrote.keeps_state (h : Wrote site e w m) {id : SnapshotId} {a : SnapshotArtifacts}
    (ha : e.snapshots id = some a) :
    m.world.files (site.locate a.stateFile) = w.files (site.locate a.stateFile) := by
  obtain ⟨k, hk, hseq, hfile⟩ := hs.states id a ha
  obtain hsame | ⟨f, hf, hpath, -⟩ | ⟨g, hg, hpath⟩ | ⟨q, f, hq, hf, hpath⟩ :=
    h.files (site.locate a.stateFile)
  · exact hsame
  · rw [hfile] at hpath
    have hsettled := hs.settled f (Or.inl hf) _ Relation.ReflTransGen.refl
    exact (hsettled (.snapState k) hk hpath.symm).1.elim
  · rw [hfile] at hpath
    obtain ⟨-, rfl⟩ := locate_generated_inj e e _ g hpath
    have hseq' : k ≤ e.snapshotSeq := hseq
    have hg' : e.snapshotSeq < k := hg
    omega
  · obtain ⟨k', -, -, rfl, hother⟩ := hs.saves q f hq hf
    rw [hfile] at hpath
    obtain ⟨-, hsame⟩ := locate_generated_inj e e _ (.snapState k') hpath
    rw [← hsame] at hother
    exact absurd hfile (hother id a ha)

-- A path that means nothing to qemu-img still does.
theorem Wrote.legible (h : Wrote site e w m) {f : String} (hf : Legible site w.files e f) :
    Legible site m.world.files m.entry f := by
  unfold Legible
  rw [h.dir]
  refine hf.imp (fun hsame => hsame) fun ⟨hnone, hapart⟩ => ⟨?_, fun g hg => ?_⟩
  · obtain hsame | ⟨-, -, -, l, l', hl, -, -, -⟩ | ⟨g, hg, hpath⟩ | ⟨q, f', hq, hf', hpath⟩ :=
      h.files (Path.ofString (site.locate e.dir) f)
    · simpa only [Files.layer, hsame] using hnone
    · simp only [Files.layer, hl] at hnone
      cases hnone
    · exact absurd hpath (hapart g (by omega))
    · obtain ⟨k, hk, -, rfl, -⟩ := hs.saves q f' hq hf'
      exact absurd hpath (hapart (.snapState k) hk)
  · rw [generatedPath_congr h.dir]
    exact hapart g hg

-- Every call keeps the snapshots of its VM as they are.
theorem Stepped.sound (h : Stepped site e w m) : Sound site m.world.files m.entry := by
  have hw := h.toWrote
  have hgen : ∀ g, generatedPath m.entry g = generatedPath e g := generatedPath_congr h.dir
  have hold : ∀ {f p}, Writable e f ∨ Frozen e f → Below site m.world.files f p →
      Settled site m.entry p := fun hf hp => hw.settled (hs.settled _ hf _ (hw.below hs hf hp))
  have hnew : ∀ {f p}, New site e m f → Below site m.world.files f p → Settled site m.entry p := by
    intro f p hf hp
    obtain rfl | ⟨f', hf', hp'⟩ := hw.below_new hs hf hp
    · exact hw.settled_new hf
    · exact hw.settled (hs.settled f' hf' p hp')
  -- a new layer is none of those that were there before
  have hfresh : ∀ {f p}, Settled site e p → New site e m f → p ≠ site.locate f := by
    intro f p hp ⟨g, _, hg, _, hf, _⟩ hsame
    have hseq := (hp g (by omega) (hf ▸ hsame)).2
    omega
  constructor
  · rintro f (hf | hf) p hp
    · obtain hf | hf := h.writable f hf
      · exact hold (Or.inl hf) hp
      · exact hnew hf hp
    · obtain hf | ⟨hf, -⟩ := h.frozen f hf
      · exact hold (Or.inr hf) hp
      · exact hold (Or.inl hf) hp
  · intro f hf p hp f' hf'
    obtain hf | ⟨hf, hall⟩ := h.frozen f hf
    · have hp' := hw.below hs (Or.inr hf) hp
      obtain hf' | hf' := h.writable f' hf'
      · exact hs.apart f hf p hp' f' hf'
      · exact hfresh (hs.settled f (Or.inr hf) p hp') hf'
    · exact hfresh (hs.settled f (Or.inl hf) p (hw.below hs (Or.inl hf) hp)) (hall f' hf')
  · rw [h.config]
    exact h.topped
  · intro q f hq hf
    obtain ⟨hsnapshots, ⟨q', hq', hf'⟩ | ⟨hseq, rfl⟩⟩ := h.saves q f hq hf
    · obtain ⟨k, hk, hle, hfile, hother⟩ := hs.saves q' f hq' hf'
      refine ⟨k, hk, hle.trans h.seq, by rw [hgen]; exact hfile, ?_⟩
      rw [hsnapshots]
      exact hother
    · refine ⟨e.snapshotSeq + 1, Nat.succ_pos _, by omega, (hgen _).symm, fun id a ha hfile => ?_⟩
      rw [hsnapshots] at ha
      obtain ⟨k, -, hle, hfile'⟩ := hs.states id a ha
      rw [hfile'] at hfile
      obtain ⟨-, hsame⟩ := locate_generated_inj e e (.snapState k) (.snapState (e.snapshotSeq + 1))
        (congrArg site.locate hfile)
      injection hsame with hsame
      omega
  · intro id a ha
    obtain ha | ⟨hseq, hfile⟩ := h.states id a ha
    · obtain ⟨k, hk, hle, hfile⟩ := hs.states id a ha
      exact ⟨k, hk, hle.trans h.seq, by rw [hgen]; exact hfile⟩
    · exact ⟨e.snapshotSeq + 1, Nat.succ_pos _, by omega, by rw [hgen]; exact hfile⟩
  · intro f hf
    refine hw.legible hs (hs.legible f ?_)
    rw [h.config] at hf
    simpa only [hgen] using hf

-- The same record of the VM's layers and snapshots, under another state, process or number.
structure SameRecord (e e' : VmEntry ρ) : Prop where
  dir : e'.dir = e.dir
  config : e'.config = e.config
  active : e'.activeDisks = e.activeDisks
  snapshots : e'.snapshots = e.snapshots
  seq : e.snapshotSeq ≤ e'.snapshotSeq

omit hs in
theorem SameRecord.refl (e : VmEntry ρ) : SameRecord e e := ⟨rfl, rfl, rfl, rfl, le_refl _⟩

omit hs in
-- A call that records nothing new, whose process writes to layers the VM wrote to before.
theorem Stepped.of_record {e' : VmEntry ρ} {w' : World ρ} (hrecord : SameRecord e e')
    (hfiles : ∀ p, w'.files p = w.files p ∨
      (∃ f, Writable e f ∧ p = site.locate f ∧ Rewritten (w.files p) (w'.files p)) ∨
      (∃ g : Generated, e.snapshotSeq < g.seq ∧ p = site.locate (generatedPath e g)) ∨
      ∃ q f, e.runtime = some q ∧ q.migration = .active f ∧ p = site.locate f)
    (htops : ∀ q, e'.runtime = some q → ∀ f ∈ q.tops, Writable e f)
    (htopped : ∀ q, e'.runtime = some q → Plain e.config.disks.length q.disks →
      q.tops = e.activeDisks)
    (hsaves : ∀ q f, e'.runtime = some q → q.migration = .active f →
      ∃ q', e.runtime = some q' ∧ q'.migration = .active f) : Stepped site e w ⟨e', w'⟩ where
  dir := hrecord.dir
  config := hrecord.config
  seq := hrecord.seq
  files := hfiles
  writable f hf := by
    obtain hf | ⟨q, hq, hf⟩ := hf
    · exact Or.inl (Or.inl (hrecord.active ▸ hf))
    · exact Or.inl (htops q hq f hf)
  frozen f hf := by
    obtain ⟨id, a, ha, hf⟩ := hf
    exact Or.inl ⟨id, a, hrecord.snapshots ▸ ha, hf⟩
  topped q hq hplain := (htopped q hq hplain).trans hrecord.active.symm
  saves q f hq hf := ⟨hrecord.snapshots, Or.inl (hsaves q f hq hf)⟩
  states id a ha := Or.inl (hrecord.snapshots ▸ ha)

omit hs in
theorem Stepped.setState {e' : VmEntry ρ} {w' : World ρ} (h : Stepped site e w ⟨e', w'⟩)
    (n : VmState) : Stepped site e w ⟨e'.setState n, w'⟩ :=
  ⟨⟨h.dir, h.config, h.seq, h.files⟩, h.writable, h.frozen, h.topped, h.saves, h.states⟩

-- The process is the one it was, or there is none any more.
theorem Stepped.of_runtime {e' : VmEntry ρ} {w' : World ρ} (hrecord : SameRecord e e')
    (hruntime : e'.runtime = e.runtime ∨ e'.runtime = none)
    (hfiles : ∀ p, w'.files p = w.files p ∨
      (∃ f, Writable e f ∧ p = site.locate f ∧ Rewritten (w.files p) (w'.files p)) ∨
      (∃ g : Generated, e.snapshotSeq < g.seq ∧ p = site.locate (generatedPath e g)) ∨
      ∃ q f, e.runtime = some q ∧ q.migration = .active f ∧ p = site.locate f) :
    Stepped site e w ⟨e', w'⟩ := by
  have hq' : ∀ q, e'.runtime = some q → e.runtime = some q := by
    intro q hq
    obtain hsame | hnone := hruntime
    · exact hsame ▸ hq
    · rw [hnone] at hq
      cases hq
  exact Stepped.of_record hrecord hfiles (fun q hq f hf => Or.inr ⟨q, hq' q hq, hf⟩)
    (fun q hq => hs.topped q (hq' q hq)) fun q f hq hf => ⟨q, hq' q hq, hf⟩

-- A call that leaves the files alone.
theorem Stepped.of_files {w' : World ρ} (hfiles : w'.files = w.files) :
    Stepped site e w ⟨e, w'⟩ :=
  Stepped.of_runtime hs (SameRecord.refl e) (Or.inl rfl) fun p => Or.inl (congrFun hfiles p)

omit hs in
-- What a guest writes while its process does something.
theorem Writes.wrote {q : Qemu ρ} {s : Session ρ} (hq : e.runtime = some q)
    (h : Writes site ⟨q, w⟩ s) (p : Path) : s.world.files p = w.files p ∨
      ∃ f, Writable e f ∧ p = site.locate f ∧ Rewritten (w.files p) (s.world.files p) :=
  (h.2 p).imp (fun hsame => hsame) fun ⟨f, hf, hp, hwrite⟩ => ⟨f, Or.inr ⟨q, hq, hf⟩, hp, hwrite⟩

-- The process has gone on with its chains.
theorem Stepped.of_writes {q : Qemu ρ} {s : Session ρ} (hq : e.runtime = some q)
    (h : Writes site ⟨q, w⟩ s) (hmigration : s.qemu.migration = q.migration) :
    Stepped site e w ⟨e.setRuntime (some s.qemu), s.world⟩ := by
  have htops : s.qemu.tops = q.tops := by rw [Qemu.tops, h.1, Qemu.tops]
  refine Stepped.of_record ⟨rfl, rfl, rfl, rfl, le_refl _⟩
    (fun p => (Writes.wrote hq h p).imp (fun hsame => hsame) Or.inl) (fun q' hq' f hf => ?_)
    (fun q' hq' hplain => ?_) fun q' f hq' hf => ?_
  · cases hq'
    exact Or.inr ⟨q, hq, htops ▸ hf⟩
  · cases hq'
    rw [htops]
    exact hs.topped q hq (h.1 ▸ hplain)
  · cases hq'
    exact ⟨q, hq, hmigration ▸ hf⟩

theorem Stepped.of_endMigration {q : Qemu ρ} (hq : e.runtime = some q) (poll : Poll) :
    Stepped site e w ⟨e.setRuntime (some (Session.endMigration site ⟨q, w⟩ poll).qemu),
      (Session.endMigration site ⟨q, w⟩ poll).world⟩ := by
  have hdisks : (Session.endMigration site ⟨q, w⟩ poll).qemu.disks = q.disks :=
    endMigration_disks _ poll
  have hactive : ∀ f, (Session.endMigration site ⟨q, w⟩ poll).qemu.migration = .active f →
      q.migration = .active f := by
    intro f hf
    unfold Session.endMigration at hf
    split at hf
    · cases hf
    · cases hf
    · cases hf
    · exact hf
  have hfiles : ∀ p, (Session.endMigration site ⟨q, w⟩ poll).world.files p = w.files p ∨
      ∃ f, q.migration = .active f ∧ p = site.locate f := by
    intro p
    unfold Session.endMigration
    split
    · rename_i f hf
      by_cases hp : p = site.locate f
      · exact Or.inr ⟨f, hf, hp⟩
      · exact Or.inl (World.put_files_of_ne _ _ hp)
    · exact Or.inl rfl
    · exact Or.inl rfl
    · exact Or.inl rfl
  have htops : (Session.endMigration site ⟨q, w⟩ poll).qemu.tops = q.tops := by
    rw [Qemu.tops, hdisks, Qemu.tops]
  refine Stepped.of_record ⟨rfl, rfl, rfl, rfl, le_refl _⟩ (fun p => ?_) (fun q' hq' f hf => ?_)
    (fun q' hq' hplain => ?_) fun q' f hq' hf => ?_
  · obtain hsame | ⟨f, hf, hp⟩ := hfiles p
    · exact Or.inl hsame
    · exact Or.inr (Or.inr (Or.inr ⟨q, f, hq, hf, hp⟩))
  · cases hq'
    exact Or.inr ⟨q, hq, htops ▸ hf⟩
  · cases hq'
    rw [htops]
    exact hs.topped q hq (hdisks ▸ hplain)
  · cases hq'
    exact ⟨q, hq, hactive f hf⟩

end Steps

end VMForge.Hvf
