import VMForge.Cli.Diagnose.Collect
import VMForge.Storage.Store.Forest

namespace VMForge.Cli

open Text Storage

section Trim

variable {pat cs : List Char} {fuel : Nat}

theorem trimEndMatches_of_not (h : ¬pat <:+ cs) : trimEndMatches pat fuel cs = cs := by
  cases fuel with
  | zero => rfl
  | succ fuel =>
      unfold trimEndMatches
      rw [if_neg (by rwa [List.isSuffixOf_iff_suffix])]

-- With enough fuel the pattern does not stand at the end any more.
theorem trimEndMatches_ended (hpat : pat ≠ []) (hfuel : cs.length ≤ fuel) :
    ¬pat <:+ trimEndMatches pat fuel cs := by
  induction fuel generalizing cs with
  | zero =>
      have hnil : cs = [] := List.eq_nil_of_length_eq_zero (Nat.le_zero.mp hfuel)
      rw [hnil]
      exact fun h => hpat (List.suffix_nil.mp h)
  | succ fuel ih =>
      by_cases hend : pat <:+ cs
      · have hlen := hend.length_le
        have hpos := List.length_pos_iff.mpr hpat
        unfold trimEndMatches
        rw [if_pos (by rwa [List.isSuffixOf_iff_suffix])]
        refine ih ?_
        rw [List.length_take]
        omega
      · rwa [trimEndMatches_of_not hend]

theorem trimEndMatches_append (hfuel : 0 < fuel) :
    trimEndMatches pat fuel (cs ++ pat) = trimEndMatches pat (fuel - 1) cs := by
  cases fuel with
  | zero => exact absurd hfuel (Nat.lt_irrefl 0)
  | succ fuel =>
      rw [trimEndMatches, if_pos (by simp), List.length_append, Nat.add_sub_cancel, List.take_left]
      rfl

end Trim

theorem qcow2_ne_nil : ".qcow2".toList ≠ [] := by decide

theorem isQcow2Name_iff {n : String} : Path.isQcow2Name n = true ↔ ".qcow2".toList <:+ n.toList := by
  rw [Path.isQcow2Name, List.isSuffixOf_iff_suffix]

theorem toList_trimQcow2 (n : String) :
    (trimQcow2 n).toList = trimEndMatches ".qcow2".toList n.toList.length n.toList :=
  String.toList_ofList

theorem trimQcow2_ended (n : String) : Path.isQcow2Name (trimQcow2 n) = false := by
  rw [← Bool.not_eq_true, isQcow2Name_iff, toList_trimQcow2]
  exact trimEndMatches_ended qcow2_ne_nil (Nat.le_refl _)

-- A name is got back from its file if it has no extension of its own, and never else.
theorem trimQcow2_append_iff (n : String) :
    trimQcow2 (n ++ ".qcow2") = n ↔ Path.isQcow2Name n = false := by
  constructor
  · intro h
    rw [← h]
    exact trimQcow2_ended _
  · intro hplain
    have hend : ¬".qcow2".toList <:+ n.toList := by
      rwa [← isQcow2Name_iff, Bool.not_eq_true]
    apply String.toList_inj.mp
    rw [toList_trimQcow2, String.toList_append, trimEndMatches_append (by simp),
      trimEndMatches_of_not hend]

section Listing

variable {fs : FileSystem (List UInt8)} {dir : Path} {names : List String}

theorem mem_entriesOf {n : String} : n ∈ entriesOf fs dir ↔ fs.node (dir ++ [n]) ≠ none := by
  unfold entriesOf
  split
  · exact FileSystem.mem_children fs
  · rename_i hdir
    refine iff_of_false List.not_mem_nil fun hthere => hdir ?_
    exact (FileSystem.isDir_iff fs).mpr (fs.parent _ _ hthere)

theorem mem_listQcow2 {n : String} : n ∈ listQcow2 fs dir ↔
    ∃ m, fs.node (dir ++ [m]) ≠ none ∧ Path.isQcow2Name m = true ∧ trimQcow2 m = n := by
  unfold listQcow2
  simp only [List.mem_insertionSort, List.mem_map, List.mem_filter, mem_entriesOf, and_assoc]

-- The files of some disks, or of some snapshots of a disk: each has one, and nothing else is a layer.
def FilesOf (fs : FileSystem (List UInt8)) (dir : Path) (names : List String) : Prop :=
  ∀ m, (fs.node (dir ++ [m]) ≠ none ∧ Path.isQcow2Name m = true) ↔ ∃ n ∈ names, m = n ++ ".qcow2"

theorem FilesOf.mem_listQcow2 (h : FilesOf fs dir names) {n : String} :
    n ∈ listQcow2 fs dir ↔ ∃ n' ∈ names, trimQcow2 (n' ++ ".qcow2") = n := by
  rw [Cli.mem_listQcow2]
  constructor
  · rintro ⟨m, hthere, hlayer, rfl⟩
    obtain ⟨n', hn', rfl⟩ := (h m).mp ⟨hthere, hlayer⟩
    exact ⟨n', hn', rfl⟩
  · rintro ⟨n', hn', rfl⟩
    obtain ⟨hthere, hlayer⟩ := (h _).mpr ⟨n', hn', rfl⟩
    exact ⟨_, hthere, hlayer, rfl⟩

-- The store lists the names its files were made for.
theorem FilesOf.stems (h : FilesOf fs dir names) (hnames : ∀ n ∈ names, nameMatches n = true)
    {n : String} : n ∈ (DiskStore.snapshotFileNames fs dir).map Path.stem ↔ n ∈ names := by
  have hstem : ∀ n ∈ names, Path.stem (n ++ ".qcow2") = n := fun n hn =>
    Path.stem_append_qcow2 (nameMatches_ne_empty (hnames n hn))
  simp only [List.mem_map, mem_snapshotFileNames]
  constructor
  · rintro ⟨m, hm, rfl⟩
    obtain ⟨n', hn', rfl⟩ := (h m).mp hm
    rwa [hstem n' hn']
  · intro hn
    exact ⟨n ++ ".qcow2", (h _).mpr ⟨n, hn, rfl⟩, hstem n hn⟩

-- Diagnose lists the names that the store lists if none of them ends like a layer's file itself.
theorem listQcow2_agrees_iff (h : FilesOf fs dir names) (hnames : ∀ n ∈ names, nameMatches n = true) :
    (∀ n, n ∈ (DiskStore.snapshotFileNames fs dir).map Path.stem ↔ n ∈ names) ∧
      ((∀ n, n ∈ listQcow2 fs dir ↔ n ∈ names) ↔ ∀ n ∈ names, Path.isQcow2Name n = false) := by
  refine ⟨fun n => h.stems hnames, ?_⟩
  constructor
  · intro hsame n hn
    obtain ⟨n', -, rfl⟩ := h.mem_listQcow2.mp ((hsame n).mpr hn)
    exact trimQcow2_ended _
  · intro hplain n
    rw [h.mem_listQcow2]
    constructor
    · rintro ⟨n', hn', rfl⟩
      rwa [(trimQcow2_append_iff n').mpr (hplain n' hn')]
    · exact fun hn => ⟨n, hn, (trimQcow2_append_iff n).mpr (hplain n hn)⟩

end Listing

section Files

def noFiles : FileSystem (List UInt8) where
  node p := if p = [] then some .dir else none
  listing := [[]]
  root := rfl
  parent p n h := by simp at h
  legal p n h := by simp at h
  listed p h := by
    by_cases hp : p = []
    · simp [hp]
    · simp [hp] at h

-- A directory of disks.
def disksOf (names : List String) : FileSystem (List UInt8) :=
  names.foldl (fun fs n => fs.put ["disks", n ++ ".qcow2"] (.file ⟨[], 0o644⟩)) (noFiles.put ["disks"] .dir)

-- One more file is one more name.
theorem FilesOf.put {fs : FileSystem (List UInt8)} {dir : Path} {names : List String} {n : String}
    {file : File (List UInt8)} (h : FilesOf fs dir names)
    (hadmits : fs.admits (dir ++ [n ++ ".qcow2"]) (.file file) = true) :
    FilesOf (fs.put (dir ++ [n ++ ".qcow2"]) (.file file)) dir (n :: names) := by
  intro m
  by_cases hm : m = n ++ ".qcow2"
  · subst hm
    rw [FileSystem.put_node_self fs hadmits]
    exact iff_of_true ⟨by simp, Path.isQcow2Name_append n⟩ ⟨n, List.mem_cons_self, rfl⟩
  · rw [FileSystem.put_node_of_ne fs (by simpa using hm), h m]
    simp [hm]

theorem filesOf_foldl {names done : List String} {fs : FileSystem (List UInt8)}
    (hdir : fs.node ["disks"] = some .dir) (hfiles : ∀ m, fs.node ["disks", m] ≠ some .dir)
    (hnames : ∀ n ∈ names, Path.isComponent (n ++ ".qcow2") = true)
    (h : FilesOf fs ["disks"] done) :
    FilesOf (names.foldl (fun fs n => fs.put ["disks", n ++ ".qcow2"] (.file ⟨[], 0o644⟩)) fs)
      ["disks"] (names.reverse ++ done) := by
  induction names generalizing fs done with
  | nil => exact h
  | cons n names ih =>
      have hadmits : fs.admits ["disks", n ++ ".qcow2"] (.file ⟨[], 0o644⟩) = true :=
        (FileSystem.admits_iff fs).mpr ⟨by simp, hdir, hnames n List.mem_cons_self,
          fun hthere => absurd hthere (hfiles _)⟩
      rw [List.foldl_cons, List.reverse_cons, List.append_assoc]
      refine ih ?_ (fun m => ?_) (fun n' hn' => hnames n' (List.mem_cons_of_mem _ hn'))
        (h.put hadmits)
      · rw [FileSystem.put_node_of_ne fs (by simp), hdir]
      · by_cases hm : m = n ++ ".qcow2"
        · rw [hm, FileSystem.put_node_self fs hadmits]
          simp
        · rw [FileSystem.put_node_of_ne fs (by simpa using hm)]
          exact hfiles m

theorem filesOf_disksOf {names : List String}
    (hnames : ∀ n ∈ names, Path.isComponent (n ++ ".qcow2") = true) :
    FilesOf (disksOf names) ["disks"] names := by
  have hnone : ∀ m, (noFiles.put ["disks"] .dir).node ["disks", m] = none := by
    intro m
    rw [FileSystem.put_node_of_ne _ (by simp)]
    rfl
  have hdir : (noFiles.put ["disks"] .dir).node ["disks"] = some .dir :=
    FileSystem.put_node_self _ (by decide)
  have hempty : FilesOf (noFiles.put ["disks"] .dir) ["disks"] [] := fun m => by simp [hnone m]
  have hfiles := filesOf_foldl hdir (fun m => by simp [hnone m]) hnames hempty
  intro m
  rw [disksOf, hfiles m]
  simp

theorem listQcow2_agrees_machine :
    (∀ n, n ∈ (DiskStore.snapshotFileNames (disksOf ["root", "data-1", "qcow2"]) ["disks"]).map
        Path.stem ↔ n ∈ ["root", "data-1", "qcow2"]) ∧
      ∀ n, n ∈ listQcow2 (disksOf ["root", "data-1", "qcow2"]) ["disks"] ↔
        n ∈ ["root", "data-1", "qcow2"] := by
  have h := listQcow2_agrees_iff (@filesOf_disksOf ["root", "data-1", "qcow2"] (by decide))
    (by decide)
  exact ⟨h.1, h.2.mpr (by decide)⟩

-- The disk `root.qcow2` is listed as `root`.
theorem listQcow2_strips_name : nameMatches "root.qcow2" = true ∧
    FilesOf (disksOf ["root.qcow2"]) ["disks"] ["root.qcow2"] ∧
    ¬∀ n, n ∈ listQcow2 (disksOf ["root.qcow2"]) ["disks"] ↔ n ∈ ["root.qcow2"] := by
  have hfiles := @filesOf_disksOf ["root.qcow2"] (by decide)
  refine ⟨by decide, hfiles, fun h => ?_⟩
  obtain ⟨n', -, heq⟩ := hfiles.mem_listQcow2.mp ((h "root.qcow2").mpr List.mem_cons_self)
  have hended := trimQcow2_ended (n' ++ ".qcow2")
  rw [heq] at hended
  exact absurd hended (by decide)

end Files

end VMForge.Cli
