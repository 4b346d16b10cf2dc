import VMForge.Backend.Hvf.Paths

namespace VMForge.Hvf

open VMForge.Core Engine Exec HvfBackend

variable {ρ : Type} {site : Site ρ} {accel : Accel}

-- The runtime files that the next operation on a VM names: the socket of the process it starts,
-- the overlays and the saved state of a capture, and the overlays of a restore.
inductive RuntimeFile (e : VmEntry ρ) : String → Prop
  | socket : RuntimeFile e (join e.dir "qmp.sock")
  | overlay (i : Nat) (hi : i < e.config.disks.length) :
      RuntimeFile e (overlayPath e (snapTag e.nextSeq.snapshotSeq) i)
  | state : RuntimeFile e (statePath e (snapTag e.nextSeq.snapshotSeq))
  | branch (i : Nat) (hi : i < e.config.disks.length) :
      RuntimeFile e (overlayPath e (branchTag e.nextSeq.snapshotSeq) i)

-- The runtime files that operations on a VM can still name, whatever happens from here on.
def LaterFile (site : Site ρ) (b : HvfBackend ρ) (vm path : String) : Prop :=
  ∃ turns e, (after (turn site) b turns).vms vm = some e ∧ RuntimeFile e path

-- Two VMs share no runtime file, and theirs lie under the base directory.
def FilesApart (site : Site ρ) (b : HvfBackend ρ) (vm vm' : String) : Prop :=
  ∀ path path', LaterFile site b vm path → LaterFile site b vm' path' →
    site.locate path ≠ site.locate path' ∧
      site.locate site.home <+: site.locate path ∧ site.locate site.home <+: site.locate path'

-- The directories that two names stand for differ, and lie under the base directory.
def DirsApart (site : Site ρ) (vm vm' : String) : Prop :=
  site.locate (vmDir site vm) ≠ site.locate (vmDir site vm') ∧
    site.locate site.home <+: site.locate (vmDir site vm) ∧
    site.locate site.home <+: site.locate (vmDir site vm')

instance (site : Site ρ) (vm vm' : String) : Decidable (DirsApart site vm vm') :=
  inferInstanceAs (Decidable (_ ∧ _ ∧ _))

theorem runtimeFile_captured (e : VmEntry ρ) : ∀ path ∈ capturedDisks e, RuntimeFile e path := by
  intro path hpath
  rw [capturedDisks_eq] at hpath
  obtain ⟨i, hi, rfl⟩ := List.mem_map.mp hpath
  exact .overlay i (List.mem_range.mp hi)

theorem runtimeFile_branched {e : VmEntry ρ} {overlays : List String}
    (h : overlays = layersOf e (.branchDisk (e.snapshotSeq + 1))) :
    ∀ path ∈ overlays, RuntimeFile e path := by
  intro path hpath
  rw [h] at hpath
  obtain ⟨i, hi, rfl⟩ := List.mem_map.mp hpath
  exact .branch i (List.mem_range.mp hi)

-- The layers that an operation puts on top of a VM's disks are runtime files of the VM.
theorem Moved.layers {e : VmEntry ρ} {w : World ρ} {m : Machine ρ} {vm : String} {t : Turn ρ}
    (hs : Shaped e) (h : Moved site accel vm e w t m) :
    ∀ path ∈ m.entry.activeDisks, path ∈ e.activeDisks ∨ RuntimeFile e path := by
  cases h with
  | idle _ => exact fun _ => Or.inl
  | acted _ _ _ => exact fun _ => Or.inl
  | migrated _ _ _ => exact fun _ => Or.inl
  | boot _ hspec => cases hspec <;> exact fun _ => Or.inl
  | pause _ hspec | resume _ hspec => cases hspec <;> exact fun _ => Or.inl
  | stop _ hspec => cases hspec <;> exact fun _ => Or.inl
  | snapshot _ _ hspec =>
      cases hspec with
      | orphaned _ _ _ | rejected _ _ | absent _ _ _ => exact fun _ => Or.inl
      | failed _ _ _ _ _ _ _ => exact fun _ => Or.inl
      | done _ _ _ _ _ _ _ => exact fun path hpath => Or.inr (runtimeFile_captured e path hpath)
  | restore _ _ hspec =>
      cases hspec with
      | rejected _ _ | unknown _ => exact fun _ => Or.inl
      | unquit _ _ _ _ _ _ => exact fun _ => Or.inl
      | unbranched _ _ _ _ _ _ _ _ => exact fun _ => Or.inl
      | uninvocable a overlays err w₁ w₂ _ ha _ hbranch _ =>
          exact fun path hpath =>
            Or.inr (runtimeFile_branched (overlays_eq hs ha hbranch) path hpath)
      | unlaunched a overlays inv err w₁ w₂ w₃ _ ha _ hbranch _ _ =>
          exact fun path hpath =>
            Or.inr (runtimeFile_branched (overlays_eq hs ha hbranch) path hpath)
      | done a overlays inv q w₁ w₂ w₃ _ ha _ hbranch _ _ =>
          exact fun path hpath =>
            Or.inr (runtimeFile_branched (overlays_eq hs ha hbranch) path hpath)

-- Whatever happens to a VM, its directory stays the one it was created with.
theorem Moved.dir {e : VmEntry ρ} {w : World ρ} {m : Machine ρ} {vm : String} {t : Turn ρ}
    (h : Moved site accel vm e w t m) : m.entry.dir = e.dir := by
  cases h with
  | idle _ => rfl
  | acted _ _ _ => rfl
  | migrated _ _ _ => rfl
  | boot _ hspec => cases hspec <;> rfl
  | pause _ hspec | resume _ hspec => cases hspec <;> rfl
  | stop _ hspec => cases hspec <;> rfl
  | snapshot _ _ hspec => cases hspec <;> rfl
  | restore _ _ hspec => cases hspec <;> rfl

-- Every VM of a session works in the directory that its name stands for.
theorem dir_turn {b : HvfBackend ρ} (t : Turn ρ)
    (hb : ∀ vm e, b.vms vm = some e → e.dir = vmDir site vm) :
    ∀ vm e, (b.turn site t).vms vm = some e → e.dir = vmDir site vm :=
  entries_turn hb (fun _ _ => rfl) fun vm e _ he hmove => hmove.dir.trans (hb vm e he)

theorem dir_after (turns : List (Turn ρ)) {b : HvfBackend ρ}
    (hb : ∀ vm e, b.vms vm = some e → e.dir = vmDir site vm) :
    ∀ vm e, (after (turn site) b turns).vms vm = some e → e.dir = vmDir site vm :=
  invariant_of_steps (fun b : HvfBackend ρ => ∀ vm e, b.vms vm = some e → e.dir = vmDir site vm)
    turns hb fun _ t h => dir_turn t h

-- A runtime file is an entry of its VM's directory.
theorem RuntimeFile.located {e : VmEntry ρ} {path : String} (h : RuntimeFile e path) :
    ∃ n, site.locate path = site.locate e.dir ++ [n] := by
  cases h with
  | socket => exact ⟨_, locate_join site e.dir (by decide)⟩
  | overlay i hi => exact ⟨_, locate_generated site e (.snapDisk (e.snapshotSeq + 1) i)⟩
  | state => exact ⟨_, locate_generated site e (.snapState (e.snapshotSeq + 1))⟩
  | branch i hi => exact ⟨_, locate_generated site e (.branchDisk (e.snapshotSeq + 1) i)⟩

section Registry

variable {b : HvfBackend ρ} (hb : ∀ vm e, b.vms vm = some e → e.dir = vmDir site vm)
  {vm vm' : String}
include hb

theorem LaterFile.located {path : String} (h : LaterFile site b vm path) :
    ∃ n, site.locate path = site.locate (vmDir site vm) ++ [n] := by
  obtain ⟨turns, e, he, hfile⟩ := h
  rw [← dir_after turns hb vm e he]
  exact hfile.located

-- The next process of a VM listens in the VM's directory.
theorem laterFile_socket {e : VmEntry ρ} (he : b.vms vm = some e) :
    LaterFile site b vm (join (vmDir site vm) "qmp.sock") := by
  have hsocket : RuntimeFile e (join e.dir "qmp.sock") := .socket
  rw [hb vm e he] at hsocket
  exact ⟨[], e, he, hsocket⟩

-- A path below a directory and beside two of its files is the directory or below it.
omit hb in
theorem prefix_of_concat {p q : Path} {n n' : String} (hn : n ≠ n') (h : p <+: q ++ [n])
    (h' : p <+: q ++ [n']) : p <+: q := by
  obtain hlong | hshort := List.prefix_concat_iff.mp h
  · obtain hlong' | hshort' := List.prefix_concat_iff.mp h'
    · have hsame := List.append_cancel_left (hlong.symm.trans hlong')
      exact absurd (List.cons.inj hsame).1 hn
    · exact hshort'
  · exact hshort

-- The base directory is above a VM's directory if it is above all its runtime files.
theorem home_above {e : VmEntry ρ} (he : b.vms vm = some e)
    (h : ∀ path, LaterFile site b vm path → site.locate site.home <+: site.locate path) :
    site.locate site.home <+: site.locate (vmDir site vm) := by
  have hsocket := h _ (laterFile_socket hb he)
  have hstate := h _ ⟨[], e, he, .state⟩
  rw [locate_join site (vmDir site vm) (by decide)] at hsocket
  rw [VmEntry.nextSeq_snapshotSeq, statePath_eq, locate_generated, hb vm e he] at hstate
  refine prefix_of_concat (fun hsame => ?_) hsocket hstate
  have hl := congrArg String.toList hsame
  simp [Generated.name, stateName_toList] at hl

theorem filesApart_iff {e e' : VmEntry ρ} (he : b.vms vm = some e) (he' : b.vms vm' = some e') :
    FilesApart site b vm vm' ↔ DirsApart site vm vm' := by
  constructor
  · intro h
    have hsocket := laterFile_socket hb he
    have hsocket' := laterFile_socket hb he'
    refine ⟨fun hsame => ?_, ?_, ?_⟩
    · refine (h _ _ hsocket hsocket').1 ?_
      rw [locate_join site _ (by decide), locate_join site _ (by decide), hsame]
    · exact home_above hb he fun path hpath => (h path _ hpath hsocket').2.1
    · exact home_above hb he' fun path hpath => (h _ path hsocket hpath).2.2
  · rintro ⟨hdirs, habove, habove'⟩ path path' hpath hpath'
    obtain ⟨n, hn⟩ := hpath.located hb
    obtain ⟨n', hn'⟩ := hpath'.located hb
    rw [hn, hn']
    refine ⟨fun hsame => ?_, ?_, ?_⟩
    · exact hdirs (List.append_inj' hsame rfl).1
    · exact habove.trans (List.prefix_append _ _)
    · exact habove'.trans (List.prefix_append _ _)

end Registry

-- Names that are directory entries keep two VMs apart.
theorem dirsApart_of_isComponent (site : Site ρ) {vm vm' : String}
    (hvm : Path.isComponent vm = true) (hvm' : Path.isComponent vm' = true) (hne : vm ≠ vm') :
    DirsApart site vm vm' := by
  unfold DirsApart vmDir
  rw [locate_join site _ hvm, locate_join site _ hvm']
  refine ⟨fun hsame => ?_, List.prefix_append _ _, List.prefix_append _ _⟩
  exact hne (List.cons.inj (List.append_inj' hsame rfl).2).1

-- Two VMs of a session keep apart for ever exactly if their names, which nobody checks, stand for
-- two directories under the base directory.
theorem runtimeFiles_apart_iff (site : Site ρ) (accel : Accel) (files : Files ρ)
    (turns : List (Turn ρ)) {vm vm' : String} {e e' : VmEntry ρ}
    (he : (after (turn site) (new accel files) turns).vms vm = some e)
    (he' : (after (turn site) (new accel files) turns).vms vm' = some e') :
    FilesApart site (after (turn site) (new accel files) turns) vm vm' ↔ DirsApart site vm vm' :=
  filesApart_iff (dir_after (b := new accel files) turns fun _ _ h => nomatch h) he he'

-- A session with two VMs of the given names.
def Sample.pair (name name' : String) : HvfBackend Nat :=
  after (turn Sample.site) (new .tcg Sample.files) (Sample.calls
    [(.create { Sample.config with name := name }, []),
      (.create { Sample.config with name := name' }, [])])

theorem runtimeFiles_apart_pair :
    FilesApart Sample.site (Sample.pair "web" "db") "web" "db" := by
  have hweb : ((Sample.pair "web" "db").vms "web").isSome = true := by decide +kernel
  have hdb : ((Sample.pair "web" "db").vms "db").isSome = true := by decide +kernel
  obtain ⟨e, he⟩ := Option.isSome_iff_exists.mp hweb
  obtain ⟨e', he'⟩ := Option.isSome_iff_exists.mp hdb
  unfold Sample.pair at he he' ⊢
  exact (runtimeFiles_apart_iff Sample.site .tcg Sample.files _ he he').mpr
    (dirsApart_of_isComponent Sample.site (by decide) (by decide) (by decide))

-- "web" and "./web" are two VMs with one socket.
theorem runtimeFiles_shared :
    ¬∀ (turns : List (Turn Nat)) (vm vm' : String), vm ≠ vm' →
      ((after (turn Sample.site) (new .tcg Sample.files) turns).vms vm).isSome = true →
      ((after (turn Sample.site) (new .tcg Sample.files) turns).vms vm').isSome = true →
      FilesApart Sample.site (after (turn Sample.site) (new .tcg Sample.files) turns) vm vm' := by
  intro h
  have hweb : ((Sample.pair "web" "./web").vms "web").isSome = true := by decide +kernel
  have hdot : ((Sample.pair "web" "./web").vms "./web").isSome = true := by decide +kernel
  unfold Sample.pair at hweb hdot
  have hapart := h _ "web" "./web" (by decide) hweb hdot
  obtain ⟨e, he⟩ := Option.isSome_iff_exists.mp hweb
  obtain ⟨e', he'⟩ := Option.isSome_iff_exists.mp hdot
  have hdirs := (filesApart_iff (dir_after (b := new .tcg Sample.files) _ fun _ _ h => nomatch h)
    he he').mp hapart
  exact absurd hdirs (by decide)

end VMForge.Hvf
