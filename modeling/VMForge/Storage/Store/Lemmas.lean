import VMForge.Storage.QemuImg.Lemmas
import VMForge.Storage.Store

namespace VMForge.Storage

open Exec

theorem nameTailMatches_cases {cs : List Char} (h : nameTailMatches cs = true) :
    ∀ c ∈ cs, isNameChar c = true ∨ c = '\n' := by
  induction cs with
  | nil => simp
  | cons c cs ih =>
      intro c' hc'
      by_cases hc : isNameChar c = true
      · simp only [nameTailMatches, hc, ite_true] at h
        rcases List.mem_cons.mp hc' with rfl | hc'
        · exact Or.inl hc
        · exact ih h c' hc'
      · simp only [nameTailMatches, hc, Bool.false_eq_true, ite_false, Bool.and_eq_true,
          beq_iff_eq, List.isEmpty_iff] at h
        obtain ⟨rfl, rfl⟩ := h
        exact Or.inr (by simpa using hc')

theorem nameMatches_cases {n : String} (h : nameMatches n = true) :
    ∀ c ∈ n.toList, isNameChar c = true ∨ c = '\n' := by
  unfold nameMatches at h
  cases hn : n.toList with
  | nil => simp
  | cons c cs =>
      simp only [hn, Bool.and_eq_true] at h
      intro c' hc'
      rcases List.mem_cons.mp hc' with rfl | hc'
      · exact Or.inl (by simp_all [isNameChar, isNameStart])
      · exact nameTailMatches_cases h.2 c' hc'

theorem nameMatches_head {n : String} (h : nameMatches n = true) :
    ∃ c ∈ n.toList, isNameStart c = true := by
  unfold nameMatches at h
  cases hn : n.toList with
  | nil => simp [hn] at h
  | cons c cs =>
      simp only [hn, Bool.and_eq_true] at h
      exact ⟨c, List.mem_cons_self, h.1⟩

-- A valid name between two texts without slashes is a file name.
theorem isComponent_of_nameMatches {n : String} (h : nameMatches n = true) (before after : String)
    (hb : ∀ c ∈ before.toList ++ after.toList, c ≠ '/' ∧ c ≠ '\x00') :
    Path.isComponent (before ++ n ++ after) = true := by
  have hplain : ∀ c ∈ n.toList, c ≠ '/' ∧ c ≠ '\x00' := by
    intro c hc
    rcases nameMatches_cases h c hc with hc | rfl
    · constructor
      · rintro rfl
        exact absurd hc (by decide)
      · rintro rfl
        exact absurd hc (by decide)
    · decide
  have hall : ∀ c ∈ (before ++ n ++ after).toList, c ≠ '/' ∧ c ≠ '\x00' := by
    intro c hc
    simp only [String.toList_append, List.mem_append] at hc hb
    rcases hc with (hc | hc) | hc
    · exact hb c (Or.inl hc)
    · exact hplain c hc
    · exact hb c (Or.inr hc)
  -- a letter or digit tells it from the names that are not allowed
  obtain ⟨c, hc, hstart⟩ := nameMatches_head h
  have hc' : c ∈ (before ++ n ++ after).toList := by simp [hc]
  have hnot : ∀ s : String, (∀ c ∈ s.toList, isNameStart c = false) → before ++ n ++ after ≠ s := by
    rintro s hs rfl
    simp [hs c hc'] at hstart
  rw [Path.isComponent_iff]
  exact ⟨hnot "" (by decide), hnot "." (by decide), hnot ".." (by decide),
    fun hc => (hall _ hc).1 rfl, fun hc => (hall _ hc).2 rfl⟩

theorem isComponent_of_valid {n : String} (h : nameMatches n = true) :
    Path.isComponent n = true := by
  simpa using isComponent_of_nameMatches h "" "" (by simp)

theorem isComponent_qcow2 {n : String} (h : nameMatches n = true) :
    Path.isComponent (n ++ ".qcow2") = true := by
  simpa using isComponent_of_nameMatches h "" ".qcow2" (by decide)

section

variable {β : Type}

theorem validateName_quiet (kind name : String) : Quiet (validateName kind name : Run β String) :=
  .bind (.raiseIf _ _) fun _ => .pure _

variable {w w' : World β}

@[simp] theorem validateName_eq_ok {kind name n : String} :
    validateName kind name w = (.ok n, w') ↔ nameMatches name = true ∧ name = n ∧ w = w' := by
  simp [validateName]
  tauto

namespace DiskStore

variable (store : DiskStore) (host : Host β)

@[simp] theorem vmDir_eq_ok {vm : String} {p : Path} :
    store.vmDir vm w = (.ok p, w') ↔
      nameMatches vm = true ∧ store.vmRoot vm = p ∧ w = w' := by
  simp [vmDir]
  tauto

@[simp] theorem diskPath_eq_ok {vm disk : String} {p : Path} :
    store.diskPath vm disk w = (.ok p, w') ↔
      nameMatches vm = true ∧ nameMatches disk = true ∧ store.diskFile vm disk = p ∧ w = w' := by
  simp [diskPath]
  tauto

@[simp] theorem snapshotDir_eq_ok {vm disk : String} {p : Path} :
    store.snapshotDir vm disk w = (.ok p, w') ↔
      nameMatches vm = true ∧ nameMatches disk = true ∧ store.snapshotsDir vm disk = p ∧
        w = w' := by
  simp [snapshotDir]
  tauto

@[simp] theorem snapshotPath_eq_ok {vm disk name : String} {p : Path} :
    store.snapshotPath vm disk name w = (.ok p, w') ↔
      nameMatches vm = true ∧ nameMatches disk = true ∧ nameMatches name = true ∧
        store.snapshotFile vm disk name = p ∧ w = w' := by
  simp [snapshotPath]
  tauto

@[simp] theorem requireDisk_eq_ok {vm disk : String} {p : Path} :
    store.requireDisk vm disk w = (.ok p, w') ↔
      nameMatches vm = true ∧ nameMatches disk = true ∧ store.diskFile vm disk = p ∧
        w.fs.node p ≠ none ∧ w = w' := by
  simp only [requireDisk, bind_eq_ok, diskPath_eq_ok, exists_eq_ok, raiseIf_eq_ok, pure_eq_ok]
  constructor
  · rintro ⟨_, _, ⟨hvm, hdisk, rfl, rfl⟩, _, _, ⟨rfl, rfl⟩, _, _, ⟨hex, rfl⟩, rfl, rfl⟩
    exact ⟨hvm, hdisk, rfl, by simpa using hex, rfl⟩
  · rintro ⟨hvm, hdisk, rfl, hex, rfl⟩
    refine ⟨_, w, ⟨hvm, hdisk, rfl, rfl⟩, _, w, ⟨rfl, rfl⟩, (), w, ⟨?_, rfl⟩, rfl, rfl⟩
    simpa using hex

theorem vmDir_quiet (vm : String) : Quiet (store.vmDir vm : Run β Path) :=
  .bind (validateName_quiet _ _) fun _ => .pure _

theorem diskPath_quiet (vm disk : String) : Quiet (store.diskPath vm disk : Run β Path) :=
  .bind (store.vmDir_quiet vm) fun _ => .bind (validateName_quiet _ _) fun _ => .pure _

theorem snapshotDir_quiet (vm disk : String) : Quiet (store.snapshotDir vm disk : Run β Path) :=
  .bind (store.vmDir_quiet vm) fun _ => .bind (validateName_quiet _ _) fun _ => .pure _

theorem snapshotPath_quiet (vm disk name : String) :
    Quiet (store.snapshotPath vm disk name : Run β Path) :=
  .bind (store.snapshotDir_quiet vm disk) fun _ =>
    .bind (validateName_quiet _ _) fun _ => .pure _

theorem requireDisk_quiet (vm disk : String) : Quiet (store.requireDisk vm disk : Run β Path) :=
  .bind (store.diskPath_quiet vm disk) fun _ =>
    .bind (.exists_ _) fun _ => .bind (.raiseIf _ _) fun _ => .pure _

theorem checkDisk_quiet (vm disk : String) : Quiet (store.checkDisk host vm disk) :=
  .bind (store.requireDisk_quiet vm disk) fun _ => check_quiet _

end DiskStore

end

end VMForge.Storage
