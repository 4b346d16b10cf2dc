import VMForge.Backend.Hvf.Paths
import Mathlib.Logic.Relation

namespace VMForge.Engine

open VMForge.Core Exec

variable {ρ : Type} {site : Site ρ} {env : Env ρ}

theorem readState_ok {stateFile : String} {s s' : Session ρ} {state : ρ}
    (h : QemuVm.readState site env stateFile s = (.ok state, s')) :
    s' = s ∧ s.world.files (site.locate stateFile) = some (.ram (some state)) := by
  unfold QemuVm.readState at h
  split at h
  · rename_i hfile
    cases h
    exact ⟨rfl, hfile⟩
  · cases h

-- The id of a capture is the hash of the state in its state file and of its overlay paths.
theorem snapshot_hashes {n : Nat} {stateDir tag : String} {s s' : Session ρ} {id : SnapshotId}
    (h : QemuVm.snapshot site env ((List.range n).map nodeName) stateDir tag s = (.ok id, s')) :
    ∃ state, s'.world.files (site.locate (join stateDir (QemuVm.stateName tag))) =
        some (.ram (some state)) ∧
      id = ⟨site.digest state ((List.range n).map fun i => (overlayBlock stateDir tag i).file)⟩ := by
  rw [snapshot_eq] at h
  obtain ⟨wasRunning, s₁, -, h⟩ := bind_eq_ok.mp h
  obtain ⟨overlays, s₂, hsync, h⟩ := bind_eq_ok.mp h
  have hoverlays : overlays = (List.range n).map fun i => (overlayBlock stateDir tag i).file :=
    mapEach_ok_map (fun i t o t' ho => by
      obtain ⟨_, _, -, hpure⟩ := bind_eq_ok.mp ho
      exact (pure_eq_ok.mp hpure).1.symm) hsync
  unfold finishCapture at h
  obtain ⟨_, s₃, -, h⟩ := bind_eq_ok.mp h
  obtain ⟨_, s₄, -, h⟩ := bind_eq_ok.mp h
  obtain ⟨_, s₅, -, h⟩ := bind_eq_ok.mp h
  obtain ⟨state, s₆, hread, h⟩ := bind_eq_ok.mp h
  obtain ⟨rfl, rfl⟩ := pure_eq_ok.mp h
  obtain ⟨rfl, hfile⟩ := readState_ok hread
  exact ⟨state, hfile, by rw [hoverlays]⟩

end VMForge.Engine

namespace VMForge.Hvf

open VMForge.Core Engine Exec HvfBackend

variable {ρ : Type} {site : Site ρ} {env : Env ρ}

-- The parent edges of a VM's snapshots.
def ParentOf (e : VmEntry ρ) (id parent : SnapshotId) : Prop :=
  ∃ a, e.snapshots id = some a ∧ a.parent = some parent

-- The parent edges lead to recorded snapshots, and never back.
structure Forest (e : VmEntry ρ) : Prop where
  known : ∀ id parent, ParentOf e id parent → e.snapshots parent ≠ none
  acyclic : ∀ id, ¬Relation.TransGen (ParentOf e) id id

-- What a capture hashes.
structure Hashed (ρ : Type) where
  vm : String
  state : ρ
  overlays : List String
deriving DecidableEq

-- What goes into the id that a turn returns: the state that the capture leaves in its state file,
-- and the paths of its overlays.
def hashed (site : Site ρ) (b : HvfBackend ρ) : Turn ρ → Option (Hashed ρ)
  | .call (.snapshot vm parent) env =>
      match b.vms vm with
      | none => none
      | some e =>
          match snapshot site env parent ⟨e, b.world⟩ with
          | (.ok _, m) =>
              match m.world.files (site.locate (statePath e (snapTag (e.snapshotSeq + 1)))) with
              | some (.ram (some state)) => some ⟨vm, state, capturedDisks e⟩
              | _ => none
          | (.error _, _) => none
  | _ => none

-- All that the captures of a run hash.
def hashedAlong (site : Site ρ) : HvfBackend ρ → List (Turn ρ) → List (Hashed ρ)
  | _, [] => []
  | b, t :: turns => (hashed site b t).toList ++ hashedAlong site (b.turn site t) turns

-- A session, and what the captures have hashed of the VMs that are still there.
def remembering (site : Site ρ) (s : HvfBackend ρ × List (Hashed ρ)) (t : Turn ρ) :
    HvfBackend ρ × List (Hashed ρ) :=
  (s.1.turn site t,
    ((hashed site s.1 t).toList ++ s.2).filter fun x => ((s.1.turn site t).vms x.vm).isSome)

-- A capture of a VM without disks saves a state that no earlier capture of the VM has saved.
def Novel (site : Site ρ) (s : HvfBackend ρ × List (Hashed ρ)) (t : Turn ρ) : Prop :=
  ∀ x ∈ (hashed site s.1 t).toList, x.overlays = [] → x ∉ s.2

instance [DecidableEq ρ] (site : Site ρ) (s : HvfBackend ρ × List (Hashed ρ)) (t : Turn ρ) :
    Decidable (Novel site s t) :=
  inferInstanceAs (Decidable (∀ x ∈ (hashed site s.1 t).toList, x.overlays = [] → x ∉ s.2))

-- A snapshot that succeeds adds a node to the graph of its VM and keeps the others, and the graphs
-- are forests after every turn.
structure Grown (site : Site ρ) (b : HvfBackend ρ) (t : Turn ρ) : Prop where
  added : ∀ vm parent env id, t = .call (.snapshot vm parent) env →
    (run site env (.snapshot vm parent) b).1 = .ok (.snapshot id) →
    ∃ e e', b.vms vm = some e ∧ (b.turn site t).vms vm = some e' ∧ e.snapshots id = none ∧
      ∀ id' a, e.snapshots id' = some a → e'.snapshots id' = some a
  forest : ∀ vm e, (b.turn site t).vms vm = some e → Forest e

-- A path that ends elsewhere than at a node without predecessors never met it.
theorem transGen_of_fresh {α : Type*} {r r' : α → α → Prop} {c : α} (hinto : ∀ x, ¬r' x c)
    (hold : ∀ x y, r' x y → x ≠ c → r x y) {x y : α} (h : Relation.TransGen r' x y)
    (hx : x ≠ c) : Relation.TransGen r x y := by
  induction h with
  | single hxy => exact .single (hold _ _ hxy hx)
  | @tail m y hxm hmy ih =>
      have hm : m ≠ c := by
        rintro rfl
        obtain ⟨z, -, hz⟩ := Relation.TransGen.tail'_iff.mp hxm
        exact hinto z hz
      exact ih.tail (hold _ _ hmy hm)

theorem acyclic_of_fresh {α : Type*} {r r' : α → α → Prop} {c : α} (hinto : ∀ x, ¬r' x c)
    (hold : ∀ x y, r' x y → x ≠ c → r x y) (hacyclic : ∀ x, ¬Relation.TransGen r x x) (x : α) :
    ¬Relation.TransGen r' x x := by
  intro h
  by_cases hx : x = c
  · subst hx
    obtain ⟨z, -, hz⟩ := Relation.TransGen.tail'_iff.mp h
    exact hinto z hz
  · exact hacyclic x (transGen_of_fresh hinto hold h hx)

namespace Forest

theorem of_snapshots {e e' : VmEntry ρ} (h : Forest e) (hsame : e'.snapshots = e.snapshots) :
    Forest e' := by
  have hparent : ParentOf e' = ParentOf e := by
    funext id parent
    unfold ParentOf
    rw [hsame]
  refine ⟨fun id parent hp => ?_, fun id => ?_⟩
  · rw [hparent] at hp
    rw [hsame]
    exact h.known id parent hp
  · rw [hparent]
    exact h.acyclic id

theorem of_none {e : VmEntry ρ} (h : ∀ id, e.snapshots id = none) : Forest e := by
  have hno : ∀ id parent, ¬ParentOf e id parent := by
    rintro id parent ⟨a, ha, -⟩
    rw [h] at ha
    cases ha
  refine ⟨fun id parent hp => absurd hp (hno id parent), fun id hc => ?_⟩
  obtain ⟨z, -, hz⟩ := Relation.TransGen.tail'_iff.mp hc
  exact hno z id hz

-- A new node under a known one closes no cycle.
theorem recordCapture {e : VmEntry ρ} (h : Forest e) {parent : Option SnapshotId}
    {id : SnapshotId} (hparent : ∀ p, parent = some p → e.snapshots p ≠ none)
    (hnew : e.snapshots id = none) : Forest (recordCapture e parent id) := by
  have hself : (Hvf.recordCapture e parent id).snapshots id =
      some ⟨e.activeDisks, statePath e (snapTag (e.snapshotSeq + 1)), parent⟩ :=
    Function.update_self ..
  have hother : ∀ id', id' ≠ id → (Hvf.recordCapture e parent id).snapshots id' = e.snapshots id' :=
    fun id' hid => Function.update_of_ne hid ..
  -- every parent was known before the capture
  have hknown : ∀ id' p, ParentOf (Hvf.recordCapture e parent id) id' p → e.snapshots p ≠ none := by
    rintro id' p ⟨a, ha, hp⟩
    by_cases hid : id' = id
    · subst hid
      rw [hself] at ha
      cases ha
      exact hparent p hp
    · rw [hother id' hid] at ha
      exact h.known id' p ⟨a, ha, hp⟩
  refine ⟨fun id' p hp => ?_, fun x => ?_⟩
  · have hp' := hknown id' p hp
    have hne : p ≠ id := by
      rintro rfl
      exact hp' hnew
    rw [hother p hne]
    exact hp'
  · refine acyclic_of_fresh (c := id) (fun x hx => hknown x id hx hnew) ?_ h.acyclic x
    rintro x y ⟨a, ha, hy⟩ hx
    rw [hother x hx] at ha
    exact ⟨a, ha, hy⟩

end Forest

theorem capture_hashes {e : VmEntry ρ} {s s' : Session ρ} {id : SnapshotId}
    (h : capture site env e s = (.ok id, s')) :
    ∃ state, s'.world.files (site.locate (statePath e (snapTag (e.snapshotSeq + 1)))) =
        some (.ram (some state)) ∧ id = ⟨site.digest state (capturedDisks e)⟩ := by
  rw [capture, diskNodes_eq] at h
  obtain ⟨state, hfile, hid⟩ := snapshot_hashes h
  rw [capturedDisks_eq]
  exact ⟨state, hfile, hid⟩

-- The same graph, and a sequence number that has not gone back.
structure SameGraph (e e' : VmEntry ρ) : Prop where
  dir : e'.dir = e.dir
  config : e'.config = e.config
  seq : e.snapshotSeq ≤ e'.snapshotSeq
  snapshots : e'.snapshots = e.snapshots

-- All that a turn can do to the graphs of a session: nothing, but for VMs that come and go, or one
-- more node in one of them.
inductive Drawn (site : Site ρ) (b : HvfBackend ρ) (t : Turn ρ) : Prop
  | kept (hnone : hashed site b t = none)
      (hreply : ∀ vm parent env, t = .call (.snapshot vm parent) env →
        ∀ reply, (run site env (.snapshot vm parent) b).1 ≠ .ok reply)
      (hentries : ∀ vm e', (b.turn site t).vms vm = some e' →
        (∃ e, b.vms vm = some e ∧ SameGraph e e') ∨
          (b.vms vm = none ∧ ∀ id, e'.snapshots id = none))
  | captured (vm : String) (e : VmEntry ρ) (parent : Option SnapshotId) (env : Env ρ) (state : ρ)
      (runtime : Option (Qemu ρ)) (ht : t = .call (.snapshot vm parent) env)
      (he : b.vms vm = some e) (hparent : ∀ p, parent = some p → e.snapshots p ≠ none)
      (hhashed : hashed site b t = some ⟨vm, state, capturedDisks e⟩)
      (hreply : (run site env (.snapshot vm parent) b).1 =
        .ok (.snapshot ⟨site.digest state (capturedDisks e)⟩))
      (hturn : (b.turn site t).vms = Function.update b.vms vm
        (some ((recordCapture e parent ⟨site.digest state (capturedDisks e)⟩).setRuntime runtime)))

namespace SameGraph

variable {e e' : VmEntry ρ}

theorem refl (e : VmEntry ρ) : SameGraph e e := ⟨rfl, rfl, Nat.le_refl _, rfl⟩

theorem setRuntime (h : SameGraph e e') (runtime : Option (Qemu ρ)) :
    SameGraph e (e'.setRuntime runtime) := ⟨h.dir, h.config, h.seq, h.snapshots⟩

theorem setState (h : SameGraph e e') (n : VmState) : SameGraph e (e'.setState n) :=
  ⟨h.dir, h.config, h.seq, h.snapshots⟩

theorem nextSeq (h : SameGraph e e') : SameGraph e e'.nextSeq :=
  ⟨h.dir, h.config, Nat.le_succ_of_le h.seq, h.snapshots⟩

theorem branched (e : VmEntry ρ) (overlays : List String) : SameGraph e (branched e overlays) :=
  ⟨rfl, rfl, Nat.le_succ _, rfl⟩

end SameGraph

-- A capture that fails adds nothing.
theorem Captured.sameGraph {e : VmEntry ρ} {w : World ρ} {m : Machine ρ}
    {parent : Option SnapshotId} {err : HvError}
    (h : Captured site env parent e w (.error err) m) : SameGraph e m.entry := by
  cases h with
  | orphaned _ _ _ | rejected _ _ => exact SameGraph.refl e
  | absent _ _ _ => exact (SameGraph.refl e).nextSeq
  | failed _ _ _ _ _ _ _ => exact (SameGraph.refl e).nextSeq.setRuntime _

-- Only a capture adds a node.
theorem Moved.sameGraph {accel : Accel} {e : VmEntry ρ} {w : World ρ} {m : Machine ρ} {vm : String}
    {t : Turn ρ} (h : Moved site accel vm e w t m)
    (hnot : ∀ parent env, t ≠ .call (.snapshot vm parent) env) : SameGraph e m.entry := by
  cases h with
  | idle _ => exact SameGraph.refl e
  | acted _ _ _ | migrated _ _ _ => exact (SameGraph.refl e).setRuntime _
  | boot _ hspec =>
      cases hspec with
      | rejected _ _ | uninvocable _ _ | unspawned _ _ _ _ _ | dropped _ _ _ _ _ _ _ _ =>
          exact SameGraph.refl e
      | done _ _ _ _ _ _ _ _ => exact ((SameGraph.refl e).setRuntime _).setState _
  | pause _ hspec | resume _ hspec =>
      cases hspec with
      | rejected _ _ | absent _ _ => exact SameGraph.refl e
      | failed _ _ _ _ _ _ _ => exact (SameGraph.refl e).setRuntime _
      | done _ _ _ _ _ _ => exact ((SameGraph.refl e).setRuntime _).setState _
  | stop _ hspec =>
      cases hspec with
      | rejected _ _ => exact SameGraph.refl e
      | failed _ _ _ _ => exact (SameGraph.refl e).setRuntime _
      | done _ _ _ => exact ((SameGraph.refl e).setRuntime _).setState _
  | snapshot env parent _ => exact absurd rfl (hnot parent env)
  | restore _ id hspec =>
      cases hspec with
      | rejected _ _ | unknown _ => exact SameGraph.refl e
      | unquit _ _ _ _ _ _ => exact (SameGraph.refl e).setRuntime _
      | unbranched _ _ _ _ _ _ _ _ => exact ((SameGraph.refl e).setRuntime none).nextSeq
      | uninvocable _ overlays _ _ _ _ _ _ _ _ => exact SameGraph.branched e overlays
      | unlaunched _ overlays _ _ _ _ _ _ _ _ _ _ _ => exact SameGraph.branched e overlays
      | done _ overlays _ _ _ _ _ _ _ _ _ _ _ =>
          exact ((SameGraph.branched e overlays).setRuntime _).setState _

-- What a turn that is no capture does to the graphs.
theorem entries_kept (b : HvfBackend ρ) {t : Turn ρ}
    (hnot : ∀ vm parent env, t ≠ .call (.snapshot vm parent) env) :
    ∀ vm e', (b.turn site t).vms vm = some e' →
      (∃ e, b.vms vm = some e ∧ SameGraph e e') ∨
        (b.vms vm = none ∧ ∀ id, e'.snapshots id = none) := by
  intro vm e' he'
  have hsame : b.vms vm = some e' → (∃ e, b.vms vm = some e ∧ SameGraph e e') ∨
      (b.vms vm = none ∧ ∀ id, e'.snapshots id = none) :=
    fun he => Or.inl ⟨e', he, SameGraph.refl e'⟩
  have hspec := turn_spec site b t
  revert he'
  generalize b.turn site t = b' at hspec
  intro he'
  cases hspec with
  | same => exact hsame he'
  | made _ _ _ _ _ _ => exact hsame he'
  | renewed _ => cases he'
  | moved vm' e m he hm =>
      by_cases hvm : vm = vm'
      · subst hvm
        simp only [Function.update_self] at he'
        cases he'
        exact Or.inl ⟨e, he, hm.sameGraph (hnot vm)⟩
      · simp only [Function.update_of_ne hvm] at he'
        exact hsame he'
  | created config env w hnew _ _ =>
      by_cases hvm : vm = config.name
      · subst hvm
        simp only [Function.update_self] at he'
        cases he'
        exact Or.inr ⟨hnew, fun _ => rfl⟩
      · simp only [Function.update_of_ne hvm] at he'
        exact hsame he'
  | deleted vm' _ _ _ _ =>
      by_cases hvm : vm = vm'
      · subst hvm
        simp only [Function.update_self] at he'
        cases he'
      · simp only [Function.update_of_ne hvm] at he'
        exact hsame he'

theorem snapshot_drawn (site : Site ρ) (b : HvfBackend ρ) (vm : String)
    (parent : Option SnapshotId) (env : Env ρ) :
    Drawn site b (.call (.snapshot vm parent) env) := by
  cases he : b.vms vm with
  | none =>
      have hrun : run site env (.snapshot vm parent) b = (.error (.vmNotFound vm), b) :=
        bind_of_error (withVm_none he)
      refine .kept ?_ ?_ ?_
      · simp only [hashed, he]
      · intro vm' parent' env' ht reply
        cases ht
        rw [hrun]
        intro h
        cases h
      · intro vm' e' he'
        rw [turn, hrun] at he'
        exact Or.inl ⟨e', he', SameGraph.refl e'⟩
  | some e =>
      have hspec := snapshot_spec site env parent e b.world
      have hwith := withVm_some (x := snapshot site env parent) he
      rcases hx : snapshot site env parent ⟨e, b.world⟩ with ⟨err | id, m⟩
      · rw [hx] at hspec hwith
        have hrun := bind_of_error (f := fun id => pure (Reply.snapshot id)) hwith
        refine .kept ?_ ?_ ?_
        · simp only [hashed, he, hx]
        · intro vm' parent' env' ht reply
          cases ht
          rw [run, hrun]
          intro h
          cases h
        · intro vm' e' he'
          rw [turn, run, hrun] at he'
          by_cases hvm : vm' = vm
          · subst hvm
            simp only [Function.update_self] at he'
            cases he'
            exact Or.inl ⟨e, he, hspec.sameGraph⟩
          · simp only [Function.update_of_ne hvm] at he'
            exact Or.inl ⟨e', he', SameGraph.refl e'⟩
      · rw [hx] at hspec hwith
        have hrun := bind_of_ok (f := fun id => pure (Reply.snapshot id)) hwith
        cases hspec with
        | done q _ s _ hparent hq hcapture =>
            obtain ⟨state, hfile, rfl⟩ := capture_hashes hcapture
            refine .captured vm e parent env state (some s.qemu) rfl he hparent ?_ ?_ ?_
            · simp only [hashed, he, hx, hfile]
            · rw [run, hrun]
              rfl
            · rw [turn, run, hrun]
              rfl

theorem turn_drawn (site : Site ρ) (b : HvfBackend ρ) (t : Turn ρ) : Drawn site b t := by
  by_cases hcapture : ∃ vm parent env, t = .call (.snapshot vm parent) env
  · obtain ⟨vm, parent, env, rfl⟩ := hcapture
    exact snapshot_drawn site b vm parent env
  · have hnot : ∀ vm parent env, t ≠ .call (.snapshot vm parent) env :=
      fun vm parent env ht => hcapture ⟨vm, parent, env, ht⟩
    refine .kept ?_ (fun vm parent env ht => absurd ht (hnot vm parent env)) (entries_kept b hnot)
    unfold hashed
    split
    · exact absurd rfl (hnot _ _ _)
    · rfl

-- The hash is injective on what the captures hash.
def Separates (site : Site ρ) (inputs : List (Hashed ρ)) : Prop :=
  ∀ x ∈ inputs, ∀ y ∈ inputs, site.digest x.state x.overlays = site.digest y.state y.overlays →
    x.state = y.state ∧ x.overlays = y.overlays

instance [DecidableEq ρ] (site : Site ρ) (inputs : List (Hashed ρ)) :
    Decidable (Separates site inputs) :=
  inferInstanceAs (Decidable (∀ x ∈ inputs, ∀ y ∈ inputs,
    site.digest x.state x.overlays = site.digest y.state y.overlays →
      x.state = y.state ∧ x.overlays = y.overlays))

theorem Separates.mono {inputs inputs' : List (Hashed ρ)} (h : Separates site inputs)
    (hsub : inputs' ⊆ inputs) : Separates site inputs' :=
  fun x hx y hy => h x (hsub hx) y (hsub hy)

-- What is remembered of a session: the hashed inputs of the snapshots that its VMs have recorded.
structure Remembered (site : Site ρ) (s : HvfBackend ρ × List (Hashed ρ)) : Prop where
  known : ∀ vm e, s.1.vms vm = some e → ∀ id, e.snapshots id ≠ none ↔
    ∃ x ∈ s.2, x.vm = vm ∧ id = ⟨site.digest x.state x.overlays⟩
  overlays : ∀ vm e, s.1.vms vm = some e → ∀ x ∈ s.2, x.vm = vm →
    ∃ k ≤ e.snapshotSeq, x.overlays = layersOf e (.snapDisk k)
  alive : ∀ x ∈ s.2, s.1.vms x.vm ≠ none

theorem SameGraph.layersOf {e e' : VmEntry ρ} (h : SameGraph e e') (g : Nat → Generated) :
    layersOf e' g = layersOf e g := by
  unfold Hvf.layersOf generatedPath
  rw [h.dir, h.config]

namespace Remembered

variable {s : HvfBackend ρ × List (Hashed ρ)} (hs : Remembered site s)
include hs

theorem kept {t : Turn ρ} (hnone : hashed site s.1 t = none)
    (hentries : ∀ vm e', (s.1.turn site t).vms vm = some e' →
      (∃ e, s.1.vms vm = some e ∧ SameGraph e e') ∨
        (s.1.vms vm = none ∧ ∀ id, e'.snapshots id = none)) :
    Remembered site (remembering site s t) := by
  have hmem : ∀ x, x ∈ (remembering site s t).2 ↔
      x ∈ s.2 ∧ (s.1.turn site t).vms x.vm ≠ none := by
    intro x
    simp only [remembering, hnone, Option.toList_none, List.nil_append, List.mem_filter,
      Option.isSome_iff_ne_none]
  refine ⟨fun vm e' he' id => ?_, fun vm e' he' x hx hvm => ?_, fun x hx => ((hmem x).mp hx).2⟩
  · have hthere : (s.1.turn site t).vms vm ≠ none := by
      rw [show (s.1.turn site t).vms vm = some e' from he']
      exact fun h => nomatch h
    obtain ⟨e, he, hsame⟩ | ⟨hnew, hempty⟩ := hentries vm e' he'
    · rw [hsame.snapshots, hs.known vm e he id]
      constructor
      · rintro ⟨x, hx, rfl, hid⟩
        exact ⟨x, (hmem x).mpr ⟨hx, hthere⟩, rfl, hid⟩
      · rintro ⟨x, hx, hvm, hid⟩
        exact ⟨x, ((hmem x).mp hx).1, hvm, hid⟩
    · constructor
      · exact fun h => absurd (hempty id) h
      · rintro ⟨x, hx, rfl, -⟩
        exact absurd hnew (hs.alive x ((hmem x).mp hx).1)
  · have hx := ((hmem x).mp hx).1
    obtain ⟨e, he, hsame⟩ | ⟨hnew, -⟩ := hentries vm e' he'
    · obtain ⟨k, hk, hoverlays⟩ := hs.overlays vm e he x hx hvm
      exact ⟨k, Nat.le_trans hk hsame.seq, by rw [hoverlays, hsame.layersOf]⟩
    · rw [← hvm] at hnew
      exact absurd hnew (hs.alive x hx)

theorem captured {t : Turn ρ} {vm : String} {e : VmEntry ρ} {parent : Option SnapshotId}
    {state : ρ} {runtime : Option (Qemu ρ)} (he : s.1.vms vm = some e)
    (hhashed : hashed site s.1 t = some ⟨vm, state, capturedDisks e⟩)
    (hturn : (s.1.turn site t).vms = Function.update s.1.vms vm
      (some ((recordCapture e parent ⟨site.digest state (capturedDisks e)⟩).setRuntime runtime))) :
    Remembered site (remembering site s t) := by
  have halive : ∀ x : Hashed ρ, x.vm = vm ∨ s.1.vms x.vm ≠ none → (s.1.turn site t).vms x.vm ≠ none := by
    intro x hx
    rw [hturn]
    by_cases hvm : x.vm = vm
    · rw [hvm, Function.update_self]
      exact fun h => nomatch h
    · rw [Function.update_of_ne hvm]
      exact hx.resolve_left hvm
  have hmem : ∀ x, x ∈ (remembering site s t).2 ↔
      x = ⟨vm, state, capturedDisks e⟩ ∨ x ∈ s.2 := by
    intro x
    simp only [remembering, hhashed, Option.toList_some, List.cons_append, List.nil_append,
      List.mem_filter, List.mem_cons, Option.isSome_iff_ne_none]
    constructor
    · exact fun h => h.1
    · rintro (rfl | hx)
      · exact ⟨Or.inl rfl, halive _ (Or.inl rfl)⟩
      · exact ⟨Or.inr hx, halive x (Or.inr (hs.alive x hx))⟩
  refine ⟨fun vm' e' he' id => ?_, fun vm' e' he' x hx hvm => ?_, fun x hx => ?_⟩
  · have he' : (s.1.turn site t).vms vm' = some e' := he'
    rw [hturn] at he'
    by_cases hvm : vm' = vm
    · subst hvm
      rw [Function.update_self] at he'
      cases he'
      by_cases hid : id = ⟨site.digest state (capturedDisks e)⟩
      · subst hid
        refine ⟨fun _ => ⟨_, (hmem _).mpr (Or.inl rfl), rfl, rfl⟩, fun _ h => ?_⟩
        rw [VmEntry.setRuntime_snapshots, recordCapture, VmEntry.insertSnapshot_snapshots,
          Function.update_self] at h
        cases h
      · rw [VmEntry.setRuntime_snapshots, recordCapture, VmEntry.insertSnapshot_snapshots,
          Function.update_of_ne hid]
        refine (hs.known vm' e he id).trans ⟨?_, ?_⟩
        · rintro ⟨x, hx, hvm, hx'⟩
          exact ⟨x, (hmem x).mpr (Or.inr hx), hvm, hx'⟩
        · rintro ⟨x, hx, hvm, hx'⟩
          obtain rfl | hx := (hmem x).mp hx
          · exact absurd hx' hid
          · exact ⟨x, hx, hvm, hx'⟩
    · rw [Function.update_of_ne hvm] at he'
      refine (hs.known vm' e' he' id).trans ⟨?_, ?_⟩
      · rintro ⟨x, hx, hvm', hx'⟩
        exact ⟨x, (hmem x).mpr (Or.inr hx), hvm', hx'⟩
      · rintro ⟨x, hx, hvm', hx'⟩
        obtain rfl | hx := (hmem x).mp hx
        · exact absurd hvm'.symm hvm
        · exact ⟨x, hx, hvm', hx'⟩
  · have he' : (s.1.turn site t).vms vm' = some e' := he'
    rw [hturn] at he'
    by_cases hvm' : vm' = vm
    · subst hvm'
      rw [Function.update_self] at he'
      cases he'
      obtain rfl | hx := (hmem x).mp hx
      · exact ⟨e.snapshotSeq + 1, Nat.le_refl _, capturedDisks_eq e⟩
      · obtain ⟨k, hk, hoverlays⟩ := hs.overlays vm' e he x hx hvm
        exact ⟨k, Nat.le_succ_of_le hk, hoverlays⟩
    · rw [Function.update_of_ne hvm'] at he'
      obtain rfl | hx := (hmem x).mp hx
      · exact absurd hvm.symm hvm'
      · exact hs.overlays vm' e' he' x hx hvm
  · obtain rfl | hx := (hmem x).mp hx
    · exact halive _ (Or.inl rfl)
    · exact halive x (Or.inr (hs.alive x hx))

theorem turn (t : Turn ρ) : Remembered site (remembering site s t) := by
  cases turn_drawn site s.1 t with
  | kept hnone _ hentries => exact hs.kept hnone hentries
  | captured vm e parent env state runtime _ he _ hhashed _ hturn =>
      exact hs.captured he hhashed hturn

-- The id of a capture is new if the VM has a disk or the state is new.
theorem id_new {vm : String} {e : VmEntry ρ} {state : ρ} (he : s.1.vms vm = some e)
    (hinj : Separates site (⟨vm, state, capturedDisks e⟩ :: s.2))
    (hnovel : capturedDisks e = [] → (⟨vm, state, capturedDisks e⟩ : Hashed ρ) ∉ s.2) :
    e.snapshots ⟨site.digest state (capturedDisks e)⟩ = none := by
  by_contra hthere
  obtain ⟨x, hx, hvm, hid⟩ := (hs.known vm e he _).mp hthere
  obtain ⟨hstate, hoverlays⟩ := hinj _ List.mem_cons_self x (List.mem_cons_of_mem _ hx)
    (SnapshotId.mk.inj hid)
  dsimp only at hstate hoverlays
  obtain ⟨k, hk, hlayers⟩ := hs.overlays vm e he x hx hvm
  by_cases hdisks : capturedDisks e = []
  · have hsame : x = ⟨vm, state, capturedDisks e⟩ := by
      cases x
      simp only at hvm hstate hoverlays
      rw [hvm, hstate, hoverlays]
    exact hnovel hdisks (hsame ▸ hx)
  · -- the overlays of a capture bear its number
    have hsame : layersOf e (.snapDisk (e.snapshotSeq + 1)) = layersOf e (.snapDisk k) := by
      rw [← capturedDisks_eq, hoverlays, hlayers]
    have hpos : 0 < e.config.disks.length := by
      by_contra hzero
      apply hdisks
      have hlen : e.config.disks.length = 0 := by omega
      rw [capturedDisks_eq, Hvf.layersOf, hlen]
      rfl
    have hfirst := (List.map_inj_left.mp hsame) 0 (List.mem_range.mpr hpos)
    have hseq := (locate_generated_inj e e _ _ (congrArg site.locate hfirst)).2
    injection hseq with hseq
    omega

end Remembered

section Steps

variable {s : HvfBackend ρ × List (Hashed ρ)} {t : Turn ρ} (hs : Remembered site s)
  (hinj : Separates site (s.2 ++ (hashed site s.1 t).toList))
include hs hinj

theorem grown_of_novel (hforest : ∀ vm e, s.1.vms vm = some e → Forest e)
    (hnovel : Novel site s t) : Grown site s.1 t := by
  cases turn_drawn site s.1 t with
  | kept hnone hreply hentries =>
      refine ⟨fun vm parent env id ht hok => absurd hok (hreply vm parent env ht _), ?_⟩
      intro vm e' he'
      obtain ⟨e, he, hsame⟩ | ⟨-, hempty⟩ := hentries vm e' he'
      · exact (hforest vm e he).of_snapshots hsame.snapshots
      · exact Forest.of_none hempty
  | captured vm e parent env state runtime ht he hparent hhashed hreply hturn =>
      have hnew : e.snapshots ⟨site.digest state (capturedDisks e)⟩ = none := by
        refine hs.id_new he (hinj.mono fun x hx => ?_) ?_
        · rw [hhashed]
          obtain rfl | hx := List.mem_cons.mp hx
          · exact List.mem_append_right _ List.mem_cons_self
          · exact List.mem_append_left _ hx
        · exact fun hdisks => hnovel _ (by rw [hhashed]; exact List.mem_cons_self) hdisks
      refine ⟨fun vm' parent' env' id ht' hok => ?_, fun vm' e' he' => ?_⟩
      · rw [ht] at ht'
        cases ht'
        rw [hreply] at hok
        cases hok
        refine ⟨e, _, he, by rw [hturn, Function.update_self], hnew, fun id' a ha => ?_⟩
        rw [VmEntry.setRuntime_snapshots, recordCapture, VmEntry.insertSnapshot_snapshots,
          Function.update_of_ne]
        · exact ha
        · rintro rfl
          rw [hnew] at ha
          cases ha
      · rw [hturn] at he'
        by_cases hvm : vm' = vm
        · subst hvm
          rw [Function.update_self] at he'
          cases he'
          exact ((hforest vm' e he).recordCapture hparent hnew).of_snapshots rfl
        · rw [Function.update_of_ne hvm] at he'
          exact hforest vm' e' he'

omit hinj in
theorem novel_of_grown (hgrown : Grown site s.1 t) : Novel site s t := by
  cases turn_drawn site s.1 t with
  | kept hnone _ _ =>
      intro x hx
      rw [hnone] at hx
      cases hx
  | captured vm e parent env state runtime ht he hparent hhashed hreply hturn =>
      intro x hx _ hpast
      rw [hhashed] at hx
      obtain rfl := List.mem_singleton.mp hx
      obtain ⟨e', -, he', -, hnew, -⟩ := hgrown.added vm parent env _ ht hreply
      obtain rfl := Option.some.inj (he.symm.trans he')
      exact (hs.known vm e he _).mpr ⟨_, hpast, rfl, rfl⟩ hnew

end Steps

theorem grown_along (turns : List (Turn ρ)) {s : HvfBackend ρ × List (Hashed ρ)}
    (hs : Remembered site s) (hforest : ∀ vm e, s.1.vms vm = some e → Forest e)
    (hinj : Separates site (s.2 ++ hashedAlong site s.1 turns)) :
    Along (turn site) (Grown site) s.1 turns ↔ Along (remembering site) (Novel site) s turns := by
  induction turns generalizing s with
  | nil => exact Iff.rfl
  | cons t turns ih =>
      have hfirst : Separates site (s.2 ++ (hashed site s.1 t).toList) := by
        refine hinj.mono fun x hx => ?_
        rw [hashedAlong, ← List.append_assoc]
        exact List.mem_append_left _ hx
      have hrest : Separates site
          ((remembering site s t).2 ++ hashedAlong site (remembering site s t).1 turns) := by
        refine hinj.mono fun x hx => ?_
        rw [hashedAlong, ← List.append_assoc]
        obtain hx | hx := List.mem_append.mp hx
        · refine List.mem_append_left _ (List.mem_append.mpr ?_)
          exact (List.mem_append.mp (List.mem_filter.mp hx).1).symm
        · exact List.mem_append_right _ hx
      have hnext : Grown site s.1 t → (Along (turn site) (Grown site) (s.1.turn site t) turns ↔
          Along (remembering site) (Novel site) (remembering site s t) turns) :=
        fun hgrown => ih (hs.turn t) hgrown.forest hrest
      rw [along_cons, along_cons]
      constructor
      · rintro ⟨hgrown, hturns⟩
        exact ⟨novel_of_grown hs hgrown, (hnext hgrown).mp hturns⟩
      · rintro ⟨hnovel, hturns⟩
        have hgrown := grown_of_novel hs hfirst hforest hnovel
        exact ⟨hgrown, (hnext hgrown).mpr hturns⟩

namespace Sample

def once (disks : List String) : List (Turn Nat) :=
  calls [(.create { config with disks := disks }, []), (.boot "web", []),
    (.snapshot "web" none, [])]

-- A second snapshot, under the first, of a guest whose state is still the same.
def again (first : SnapshotId) : Turn Nat := .call (.snapshot "web" (some first)) (envBut [])

end Sample

-- A snapshot, and another one of the guest that goes on from it.
def Sample.branching : List (Turn Nat) :=
  Sample.once ["/data/root.qcow2"] ++ Sample.calls
    [(.stop "web", []), (.restore "web" ⟨"0/srv/web/snap1-disk0.qcow2"⟩, []),
      (.snapshot "web" (some ⟨"0/srv/web/snap1-disk0.qcow2"⟩), [])]

end VMForge.Hvf
