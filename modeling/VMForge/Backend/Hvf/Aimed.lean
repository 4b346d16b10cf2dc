import VMForge.Backend.Hvf.Chains
import VMForge.Backend.Hvf.Log
import VMForge.Engine.Progress

namespace VMForge.Engine

open VMForge.Core Exec

variable {ρ : Type} {site : Site ρ} {env : Env ρ}

-- The disk a step is about.
def Step.disk : Step → Option Nat
  | .sync i => some i
  | _ => none

-- A `blockdev-snapshot-sync` for a disk names the node at the top of the disk's chain.
def Event.Aimed : Event ρ → Prop
  | .command step (.blockdevSnapshotSync node _ _) q _ =>
      (step.disk.bind fun i => q.disks[i]?).map (·.top.node) = some node
  | _ => True

instance : DecidablePred (Event.Aimed (ρ := ρ))
  | .command step (.blockdevSnapshotSync node _ _) q _ =>
      inferInstanceAs (Decidable
        ((step.disk.bind fun i => q.disks[i]?).map (·.top.node) = some node))
  | .command _ .cont _ _ | .command _ .stop _ _ | .command _ .queryStatus _ _
  | .command _ (.migrate _) _ _ | .command _ .queryMigrate _ _
  | .command _ (.migrateIncoming _) _ _ | .command _ .quit _ _
  | .spawned _ | .createdOverlay _ _ _ => isTrue trivial

section Captures

variable {stateDir tag : String} {ds : List Disk} {n : Nat} {s s' : Session ρ}

-- Only `blockdev-snapshot-sync` can miss.
theorem quiet_aimed : Quiet (Event.Aimed (ρ := ρ)) where
  spawned _ := trivial
  command _ c _ _ hc _ := by
    cases c with
    | blockdevSnapshotSync _ _ _ => cases hc
    | _ => trivial

theorem finishCapture_aimed (site : Site ρ) (env : Env ρ) (stateFile : String) (wasRunning : Bool) (overlays : List String) :
    Keeps (Logs Event.Aimed) (finishCapture site env stateFile wasRunning overlays) :=
  finishCapture_keeps env (logs_frame site Event.Aimed) stateFile (fun _ _ _ => trivial) (fun _ _ _ => trivial)
    (fun _ _ _ => trivial) (fun _ _ h => carryOut_logs h) endMigration_logs
    (fun _ _ h => carryOut_logs h) wasRunning overlays

-- The overlay of the next disk goes on top of the disk's chain.
theorem syncDisk_aimed (hplain : Plain n ds) {k : Nat} (hk : k < n)
    (hs : s.qemu.disks = switched stateDir tag k ds) {r : Except HvError String}
    (h : syncDisk site env stateDir tag k s = (r, s')) : Logs Event.Aimed s s' := by
  have htop : ∀ files, (Event.command (.sync k) (.blockdevSnapshotSync (nodeName k)
      (overlayBlock stateDir tag k).file (overlayBlock stateDir tag k).node)
      (s.during site (env.acts (.sync k))).qemu files).Aimed := by
    intro files
    have hlen : k < ds.length := by rw [hplain.1]; exact hk
    have hd := List.getElem?_eq_getElem hlen
    simp only [Event.Aimed, Step.disk, Option.bind_some, Session.during_disks, hs,
      switched_getElem?, hd, Option.map_some, Nat.lt_irrefl, if_false]
    exact congrArg some (hplain.2 k _ hd).2
  have hissue : Logs Event.Aimed s (QemuVm.issue site env (.sync k)
      (.blockdevSnapshotSync (nodeName k) (overlayBlock stateDir tag k).file
        (overlayBlock stateDir tag k).node) s) := by
    refine ⟨_, issue_log site env _ _ s, fun ev hev => ?_⟩
    rw [List.mem_singleton.mp hev]
    exact htop _
  unfold syncDisk at h
  cases hx : QemuVm.order site env (.sync k) (.blockdevSnapshotSync (nodeName k)
      (overlayBlock stateDir tag k).file (overlayBlock stateDir tag k).node) s with
  | mk rx sx =>
      have hsx : Logs Event.Aimed s sx := by
        obtain ⟨t, us, ht, hend⟩ := order_reaches site env (.sync k) (.blockdevSnapshotSync
          (nodeName k) (overlayBlock stateDir tag k).file (overlayBlock stateDir tag k).node) s
        obtain rfl : sx = t.setUnread us := by rw [← hend, hx]
        obtain rfl | hdo := ht
        · exact hissue
        · exact hissue.trans (show Logs Event.Aimed _ t from carryOut_logs hdo)
      cases rx with
      | error e =>
          rw [bind_of_error hx] at h
          cases h
          exact hsx
      | ok u =>
          rw [bind_of_ok hx] at h
          cases h
          exact hsx

variable (htag : ∀ i j, s!"{tag}-{nodeName i}" ≠ nodeName j)
include htag

theorem syncDisks_aimed (hplain : Plain n ds) (m : Nat) : ∀ (k : Nat) (s : Session ρ),
    k + m = n → s.qemu.unread = [] → s.qemu.disks = switched stateDir tag k ds →
    ∀ {r : Except HvError (List String)} {s' : Session ρ},
      mapEach (List.range' k m) (syncDisk site env stateDir tag) s = (r, s') →
      Logs Event.Aimed s s' := by
  induction m with
  | zero =>
      intro k s _ _ _ r s' h
      cases h
      exact World.Logs.of_eq rfl
  | succ m ih =>
      intro k s hkm hread hs r s' h
      rw [List.range'_succ, mapEach_cons] at h
      rcases hx : syncDisk site env stateDir tag k s with ⟨e | overlay, t⟩
      · rw [bind_of_error hx] at h
        cases h
        exact syncDisk_aimed hplain (by omega) hs hx
      · rw [bind_of_ok hx] at h
        have hfirst : Logs Event.Aimed s t := syncDisk_aimed hplain (by omega) hs hx
        have hnext : t.qemu.disks = switched stateDir tag (k + 1) ds := by
          obtain hnext | ⟨-, e, he⟩ := syncDisk_disks htag hplain (by omega) hread hs hx
          · exact hnext
          · cases he
        have hread' := hears_syncDisk k hread hx
        rcases hrest : mapEach (List.range' (k + 1) m) (syncDisk site env stateDir tag) t
          with ⟨e | overlays, t'⟩
        · rw [bind_of_error hrest] at h
          cases h
          exact hfirst.trans (ih (k + 1) t (by omega) hread' hnext hrest)
        · rw [bind_of_ok hrest] at h
          cases h
          exact hfirst.trans (ih (k + 1) t (by omega) hread' hnext hrest)

-- A capture of a process as it was started aims at the tops of its chains.
theorem snapshot_aimed (hplain : Plain n s.qemu.disks) (hread : s.qemu.unread = [])
    {r : Except HvError SnapshotId}
    (h : QemuVm.snapshot site env ((List.range n).map nodeName) stateDir tag s = (r, s')) :
    Logs Event.Aimed s s' := by
  rw [snapshot_eq] at h
  rcases hx : beginCapture site env s with ⟨e | wasRunning, t⟩
  · rw [bind_of_error hx] at h
    cases h
    exact quiet_aimed.beginCapture.error hx
  · rw [bind_of_ok hx, List.range_eq_range'] at h
    have hread' := hears_beginCapture hread hx
    have hbegin : Logs Event.Aimed s t := quiet_aimed.beginCapture.ok hx
    have ht : t.qemu.disks = switched stateDir tag 0 s.qemu.disks := by
      rw [switched_zero]
      exact (beginCapture_keeps env (sameDisks_frame site) trivial trivial
        fun s s' h => carryOut_disks (by simp) h).ok hx
    rcases hloop : mapEach (List.range' 0 n) (syncDisk site env stateDir tag) t
      with ⟨e | overlays, t'⟩
    · rw [bind_of_error hloop] at h
      cases h
      exact hbegin.trans (syncDisks_aimed htag hplain n 0 t (by omega) hread' ht hloop)
    · rw [bind_of_ok hloop] at h
      have hsyncs := syncDisks_aimed htag hplain n 0 t (by omega) hread' ht hloop
      have hfinish := finishCapture_aimed site env
        (join stateDir (QemuVm.stateName tag)) wasRunning overlays t'
      rw [h] at hfinish
      exact hbegin.trans (hsyncs.trans hfinish)

end Captures

-- A capture that does not come to its first overlay asks for none.
theorem snapshot_unbegun {stateDir tag : String} {n : Nat} {s s' : Session ρ}
    (hbegin : ¬Begins env s.qemu) (hread : s.qemu.unread = []) {r : Except HvError SnapshotId}
    (h : QemuVm.snapshot site env ((List.range n).map nodeName) stateDir tag s = (r, s')) :
    Logs Event.Aimed s s' := by
  rw [snapshot_eq] at h
  rcases hx : beginCapture site env s with ⟨e | wasRunning, t⟩
  · rw [bind_of_error hx] at h
    cases h
    exact quiet_aimed.beginCapture.error hx
  · exact absurd (beginCapture_returned hread hx).1 hbegin

end VMForge.Engine

namespace VMForge.Hvf

open VMForge.Core Engine Exec HvfBackend

variable {ρ : Type} {site : Site ρ} {env : Env ρ}

theorem Shaped.plain {e : VmEntry ρ} (h : Shaped e) {q : Qemu ρ} (hq : e.runtime = some q)
    (hread : q.unread = []) (hbase : OnBase q) : Plain e.config.disks.length q.disks := by
  obtain hplain | hcovered := h.chains q hq hread
  · exact hplain
  · exact absurd hbase hcovered.not_onBase

-- A capture finds no reply to an earlier command unread, and once it comes to its first overlay the
-- process has the disks it was started on.
def Aims (b : HvfBackend ρ) : Turn ρ → Prop
  | .call (.snapshot vm parent) env =>
      ∀ e ∈ b.vms vm, Admits e parent → ∀ q ∈ e.runtime,
        q.unread = [] ∧ (Begins env q → OnBase q)
  | _ => True

instance (b : HvfBackend ρ) : DecidablePred (Aims b)
  | .call (.snapshot vm parent) env =>
      inferInstanceAs (Decidable (∀ e ∈ b.vms vm, Admits e parent → ∀ q ∈ e.runtime,
        q.unread = [] ∧ (Begins env q → OnBase q)))
  | .call (.create _) _ | .call (.boot _) _ | .call (.pause _) _ | .call (.resume _) _
  | .call (.stop _) _ | .call (.restore _ _) _ | .call (.delete _) _ | .call (.state _) _
  | .guest _ _ | .migrationEnds _ _ | .session _ => isTrue trivial

theorem aimed_turn {b : HvfBackend ρ} {t : Turn ρ} (hshape : ∀ vm e, b.vms vm = some e → Shaped e)
    (ht : Aims b t) : World.Logs Event.Aimed b.world (b.turn site t).world := by
  refine logs_turn fun vm e m he hmove => hmove.logs quiet_aimed ?_ ?_ fun _ _ _ _ _ _ => trivial
  · intro env parent q r s hturn hq hadmits hrun
    subst hturn
    obtain ⟨hread, hbase⟩ := ht e he hadmits q hq
    by_cases hbegin : Begins env q
    · have hplain := (hshape vm e he).plain hq hread (hbase hbegin)
      exact snapshot_aimed (snapNode_ne_nodeName _) hplain hread hrun
    · exact snapshot_unbegun hbegin hread hrun
  · intro env id a w₁ r₂ w₂ _ _ _ hoverlays
    have hkeeps := createOverlays_logs (P := Event.Aimed) site env
      (fun _ _ _ => trivial) e (branchTag (e.snapshotSeq + 1)) a.diskBases w₁
    rwa [hoverlays] at hkeeps

-- Every `blockdev-snapshot-sync` of a run names the node the guest writes to, as long as no capture
-- reads the reply to an earlier command, or comes to its first overlay on a process whose first
-- disk has been switched before.
theorem snapshots_aimed (site : Site ρ) (accel : Accel) (files : Files ρ) (turns : List (Turn ρ))
    (h : Along (turn site) Aims (new accel files) turns) :
    ∀ ev ∈ (after (turn site) (new accel files) turns).world.log, ev.Aimed := by
  have hinv := h.invariant
    (fun b => (∀ vm e, b.vms vm = some e → Shaped e) ∧ ∀ ev ∈ b.world.log, ev.Aimed)
    ⟨fun _ _ he => (nomatch he), fun _ hev => (nomatch hev)⟩ fun b t hb ht =>
      ⟨shaped_turn t hb.1, (aimed_turn hb.1 ht).all hb.2⟩
  exact hinv.2

-- One capture in each of two boots.
def Sample.recaptured : List (Turn Nat) :=
  Sample.calls [(.create Sample.config, []), (.boot "web", []), (.snapshot "web" none, []),
    (.stop "web", []), (.boot "web", []), (.pause "web", []), (.snapshot "web" none, [])]

theorem snapshots_aimed_twice :
    ((after (turn Sample.site) (new .tcg Sample.files) Sample.recaptured).vms "web").map
        (·.activeDisks) = some ["/srv/web/snap2-disk0.qcow2"] ∧
    ∀ ev ∈ (after (turn Sample.site) (new .tcg Sample.files) Sample.recaptured).world.log,
      ev.Aimed :=
  ⟨by decide +kernel, snapshots_aimed Sample.site .tcg Sample.files _ (by decide +kernel)⟩

-- The second capture of a process asks for an overlay on the node the first one froze.
theorem snapshots_twice_missed :
    ¬∀ ev ∈ (after (turn Sample.site) (new .tcg Sample.files) (Sample.calls
      [(.create Sample.config, []), (.boot "web", []), (.snapshot "web" none, []),
        (.snapshot "web" none, [])])).world.log, ev.Aimed := by
  decide +kernel

end VMForge.Hvf
