import VMForge.Base.TreeText
import VMForge.Storage.Memory.Disks

namespace VMForge.Storage

open Exec

namespace DiskStore

-- `sorted(snaps[name].children)`
def sortedChildren (snaps : List Snapshot) (name : String) : List String :=
  ((snaps.find? fun snap => snap.name = name).elim [] Snapshot.children).insertionSort (· ≤ ·)

def label (snaps : List Snapshot) (name : String) : List Char :=
  if (snaps.find? fun snap => snap.name = name).any Snapshot.current = true then
    (name ++ " *").toList
  else name.toList

-- `sorted(s.name for s in snaps.values() if s.parent not in snaps)`
def roots (snaps : List Snapshot) : List String :=
  ((snaps.filter fun snap => !snap.parent.any fun p => snaps.any fun other => other.name = p).map
    Snapshot.name).insertionSort (· ≤ ·)

def noSnapshots : List Char := "(no snapshots)".toList

variable {β : Type} (store : DiskStore) (host : Host β)

-- The text of the tree. The recursion of `walk` is bounded by the number of snapshots; running out
-- of it stands for a recursion that never ends.
def snapshotTree (vm disk : String) : Run β (List Char) := do
  let snaps ← store.snapshotList host vm disk
  match TreeText.draw (sortedChildren snaps) (label snaps) (snaps.length + 1) (roots snaps) with
  | none => raise (.other "never returns")
  | some [] => pure noSnapshots
  | some ls => pure (['\n'].intercalate ls)

end DiskStore

section Reading

-- A name of `[A-Za-z0-9][A-Za-z0-9._-]*`.
def isPlainName (name : String) : Bool :=
  match name.toList with
  | [] => false
  | c :: cs => isNameStart c && cs.all isNameChar

-- A label is a name, and the mark of the current snapshot.
def readLabel (line : List Char) : String × Bool :=
  if " *".toList.isSuffixOf line = true then (String.ofList (line.take (line.length - 2)), true)
  else (String.ofList line, false)

-- The snapshots that lines show, each with its parent and whether it is the current one.
def readLines (ls : List (List Char)) : List (String × Option String × Bool) :=
  let entries := ls.map fun line =>
    ((TreeText.readLine line).1, readLabel (TreeText.readLine line).2)
  (TreeText.parents [] entries).map fun node => (node.1.1, node.2.map Prod.fst, node.1.2)

def readTree (text : List Char) : List (String × Option String × Bool) :=
  readLines (text.splitOn '\n')

-- What `snapshot_list` says of a snapshot.
def Snapshot.relation (snap : Snapshot) : String × Option String × Bool :=
  (snap.name, snap.parent, snap.current)

end Reading

section Names

theorem plain_toList {n : String} (h : isPlainName n = true) :
    ∃ c cs, n.toList = c :: cs ∧ isNameStart c = true ∧ ∀ d ∈ cs, isNameChar d = true := by
  unfold isPlainName at h
  cases hn : n.toList with
  | nil => simp [hn] at h
  | cons c cs =>
      simp only [hn, Bool.and_eq_true, List.all_eq_true] at h
      exact ⟨c, cs, rfl, h.1, h.2⟩

theorem nameStart_ne {c d : Char} (h : isNameStart c = true) (hd : isNameStart d = false) : c ≠ d := by
  rintro rfl
  rw [h] at hd
  cases hd

theorem nameChar_of_plain {n : String} (h : isPlainName n = true) :
    ∀ c ∈ n.toList, isNameChar c = true := by
  obtain ⟨c, cs, hn, hc, hcs⟩ := plain_toList h
  intro d hd
  rw [hn] at hd
  obtain rfl | hd := List.mem_cons.mp hd
  · simp [isNameChar, show d.isAlphanum = true from hc]
  · exact hcs d hd

theorem notMem_of_plain {n : String} {c : Char} (h : isPlainName n = true)
    (hc : isNameChar c = false) : c ∉ n.toList := by
  intro hmem
  rw [nameChar_of_plain h c hmem] at hc
  cases hc

-- The label of a name, with the mark or without it.
def labelOf (name : String) (current : Bool) : List Char :=
  if current = true then (name ++ " *").toList else name.toList

theorem labelOf_plain {n : String} (h : isPlainName n = true) (current : Bool) :
    TreeText.Plain (labelOf n current) := by
  obtain ⟨c, cs, hn, hc, -⟩ := plain_toList h
  have hhead : (labelOf n current).head? = some c := by
    unfold labelOf
    split
    · rw [String.toList_append, hn]
      rfl
    · rw [hn]
      rfl
  intro d hd
  obtain rfl := Option.some.inj (hhead.symm.trans hd)
  exact ⟨nameStart_ne hc (by decide), nameStart_ne hc (by decide), nameStart_ne hc (by decide)⟩

theorem labelOf_newline {n : String} (h : isPlainName n = true) (current : Bool) :
    '\n' ∉ labelOf n current := by
  have hname := notMem_of_plain h (c := '\n') (by decide)
  unfold labelOf
  split
  · rw [String.toList_append, List.mem_append]
    rintro (hmem | hmem)
    · exact hname hmem
    · exact absurd hmem (by decide)
  · exact hname

-- A name has no blank, so the mark is told from it.
theorem readLabel_labelOf {n : String} (h : isPlainName n = true) (current : Bool) :
    readLabel (labelOf n current) = (n, current) := by
  unfold readLabel
  cases current with
  | true =>
      have hmark : labelOf n true = n.toList ++ " *".toList := String.toList_append ..
      have hsuffix : " *".toList.isSuffixOf (labelOf n true) = true := by
        rw [hmark, List.isSuffixOf_iff_suffix]
        exact List.suffix_append _ _
      have hlen : (labelOf n true).length - 2 = n.toList.length := by
        rw [hmark, List.length_append]
        exact Nat.add_sub_cancel _ 2
      rw [if_pos hsuffix, hlen, hmark, List.take_left, String.ofList_toList]
  | false =>
      have hsuffix : ¬" *".toList.isSuffixOf (labelOf n false) = true := by
        rw [List.isSuffixOf_iff_suffix]
        intro hs
        exact notMem_of_plain h (c := ' ') (by decide) (hs.subset (by decide))
      rw [if_neg hsuffix]
      exact congrArg (·, false) String.ofList_toList

end Names

section Rendering

variable {β : Type} {F : Formats β} {host : Host β} {store : DiskStore} {vm disk : String}
  {w w' : World β} {fs : FileSystem β} {snaps : List Snapshot}

-- The snapshots of a disk have plain names.
def PlainNames (store : DiskStore) (fs : FileSystem β) (vm disk : String) : Prop :=
  ∀ n, fs.node (store.snapshotFile vm disk n) ≠ none → isPlainName n = true

def currentOf (snaps : List Snapshot) (n : String) : Bool :=
  (snaps.find? fun snap => snap.name = n).any Snapshot.current

namespace Listed

theorem plain (h : Listed F store fs vm disk snaps) (hplain : PlainNames store fs vm disk) {n : String}
    (hn : n ∈ snaps.map Snapshot.name) : isPlainName n = true := by
  obtain ⟨snap, hsnap, rfl⟩ := List.mem_map.mp hn
  obtain ⟨-, -, l, hl, -⟩ := h.sound snap hsnap
  refine hplain _ ?_
  exact node_of_layerAt (Option.isSome_iff_exists.mpr ⟨l, hl⟩)

theorem parentOf_mem (h : Listed F store fs vm disk snaps) {c a : String}
    (hp : parentOf snaps c = some a) : c ∈ snaps.map Snapshot.name := by
  obtain ⟨snap, hsnap, rfl, -⟩ := (parentOf_eq_some h.nodup).mp hp
  exact List.mem_map_of_mem hsnap

theorem sortedChildren_inverse (h : Listed F store fs vm disk snaps)
    (hwood : Ancestry.Wooded (parentOf snaps) (snaps.map Snapshot.name)) :
    TreeText.Inverse (parentOf snaps) (DiskStore.sortedChildren snaps) := by
  intro a c
  unfold DiskStore.sortedChildren
  rw [List.mem_insertionSort]
  constructor
  · intro hc
    cases hfind : snaps.find? fun snap => snap.name = a with
    | none =>
        rw [hfind] at hc
        cases hc
    | some snap =>
        rw [hfind] at hc
        have hname : snap.name = a := by simpa using List.find?_some hfind
        rw [(h.mem_children (List.mem_of_find?_eq_some hfind)).mp hc, hname]
  · intro hp
    obtain ⟨snap, hsnap, rfl⟩ := List.mem_map.mp (hwood.closed c (h.parentOf_mem hp) a hp)
    rw [find_name h.nodup hsnap]
    exact (h.mem_children hsnap).mpr hp

theorem sortedChildren_nodup (h : Listed F store fs vm disk snaps) (a : String) :
    (DiskStore.sortedChildren snaps a).Nodup := by
  unfold DiskStore.sortedChildren
  rw [(List.perm_insertionSort _ _).nodup_iff]
  cases hfind : snaps.find? fun snap => snap.name = a with
  | none => exact List.nodup_nil
  | some snap =>
      show snap.children.Nodup
      rw [h.children snap (List.mem_of_find?_eq_some hfind)]
      exact h.nodup.sublist (List.filter_sublist.map Snapshot.name)

theorem mem_roots (h : Listed F store fs vm disk snaps)
    (hwood : Ancestry.Wooded (parentOf snaps) (snaps.map Snapshot.name)) {r : String} :
    r ∈ DiskStore.roots snaps ↔ r ∈ snaps.map Snapshot.name ∧ parentOf snaps r = none := by
  unfold DiskStore.roots
  rw [List.mem_insertionSort, List.mem_map]
  constructor
  · rintro ⟨snap, hsnap, rfl⟩
    obtain ⟨hmem, hroot⟩ := List.mem_filter.mp hsnap
    refine ⟨List.mem_map_of_mem hmem, ?_⟩
    by_contra hp
    obtain ⟨p, hp⟩ := Option.ne_none_iff_exists'.mp hp
    obtain ⟨parent, hparent, rfl⟩ :=
      List.mem_map.mp (hwood.closed _ (List.mem_map_of_mem hmem) p hp)
    unfold parentOf at hp
    rw [find_name h.nodup hmem, Option.bind_some] at hp
    rw [hp] at hroot
    simp only [Option.any_some, Bool.not_eq_true', List.any_eq_false, decide_eq_true_eq] at hroot
    exact hroot parent hparent rfl
  · rintro ⟨hr, hroot⟩
    obtain ⟨snap, hmem, rfl⟩ := List.mem_map.mp hr
    refine ⟨snap, List.mem_filter.mpr ⟨hmem, ?_⟩, rfl⟩
    unfold parentOf at hroot
    rw [find_name h.nodup hmem, Option.bind_some] at hroot
    rw [hroot]
    rfl

-- Every snapshot stands once in the order of the lines.
theorem preorder_names (h : Listed F store fs vm disk snaps)
    (hwood : Ancestry.Wooded (parentOf snaps) (snaps.map Snapshot.name)) {es : List (Nat × String)}
    (hes : TreeText.Preorder (DiskStore.sortedChildren snaps) 0 (DiskStore.roots snaps) es) :
    (es.map Prod.snd).Perm (snaps.map Snapshot.name) := by
  have hkids := h.sortedChildren_inverse hwood
  have hroots : (DiskStore.roots snaps).Nodup := (List.perm_insertionSort _ _).nodup_iff.mpr
    (h.nodup.sublist (List.filter_sublist.map Snapshot.name))
  have hnodup := hes.nodup hwood hkids h.sortedChildren_nodup hroots
    fun r hr => ((h.mem_roots hwood).mp hr).2
  refine (List.perm_ext_iff_of_nodup hnodup h.nodup).mpr fun x => ?_
  rw [hes.mem_iff hkids]
  constructor
  · rintro ⟨r, hr, hxr⟩
    obtain rfl | ⟨a, ha, -⟩ := hxr.cases_head
    · exact ((h.mem_roots hwood).mp hr).1
    · exact h.parentOf_mem ha
  · intro hx
    obtain ⟨r, hr, hxr, hnone⟩ := hwood.exists_root hx
    exact ⟨r, (h.mem_roots hwood).mpr ⟨hr, hnone⟩, hxr⟩

theorem map_relation (h : Listed F store fs vm disk snaps) : snaps.map Snapshot.relation =
    (snaps.map Snapshot.name).map fun n => (n, parentOf snaps n, currentOf snaps n) := by
  rw [List.map_map]
  refine List.map_congr_left fun snap hsnap => ?_
  simp only [Function.comp, parentOf, currentOf, find_name h.nodup hsnap]
  rfl

-- Lines that show the snapshots are read back as the listing.
theorem readLines_perm (h : Listed F store fs vm disk snaps)
    (hwood : Ancestry.Wooded (parentOf snaps) (snaps.map Snapshot.name))
    (hplain : PlainNames store fs vm disk) {es : List (Nat × String)} {ls : List (List Char)}
    (hes : TreeText.Preorder (DiskStore.sortedChildren snaps) 0 (DiskStore.roots snaps) es)
    (hshows : TreeText.Shows (DiskStore.label snaps) ls es) :
    (readLines ls).Perm (snaps.map Snapshot.relation) := by
  have hnodes := h.preorder_names hwood hes
  have hplainEntry : ∀ e ∈ es, isPlainName e.2 = true := fun e he =>
    h.plain hplain (hnodes.subset (List.mem_map_of_mem he))
  have hentries : (ls.map fun line =>
      ((TreeText.readLine line).1, readLabel (TreeText.readLine line).2)) =
      es.map fun e => (e.1, (e.2, currentOf snaps e.2)) := by
    have hmap := congrArg (List.map fun p : Nat × List Char => (p.1, readLabel p.2)) hshows
    rw [List.map_map, List.map_map] at hmap
    refine hmap.trans (List.map_congr_left fun e he => ?_)
    exact congrArg (e.1, ·) (readLabel_labelOf (hplainEntry e he) (currentOf snaps e.2))
  have hparents := TreeText.parents_preorder (h.sortedChildren_inverse hwood) hes [] []
    fun r hr => ((h.mem_roots hwood).mp hr).2
  rw [List.append_nil, TreeText.parents, List.append_nil] at hparents
  have hmarked := TreeText.parents_map (fun n => (n, currentOf snaps n)) [] es
  rw [List.map_nil, hparents] at hmarked
  have hread : readLines ls =
      (es.map Prod.snd).map fun n => (n, parentOf snaps n, currentOf snaps n) := by
    unfold readLines
    dsimp only
    rw [hentries, hmarked]
    simp only [List.map_map]
    refine List.map_congr_left fun e _ => ?_
    cases hp : parentOf snaps e.2 <;> simp [hp]
  rw [hread, h.map_relation]
  exact hnodes.map _

-- What is drawn has one line for each snapshot, and is read back as the listing.
theorem draw_reads (h : Listed F store fs vm disk snaps)
    (hwood : Ancestry.Wooded (parentOf snaps) (snaps.map Snapshot.name))
    (hplain : PlainNames store fs vm disk) {ls : List (List Char)}
    (hdraw : TreeText.draw (DiskStore.sortedChildren snaps) (DiskStore.label snaps)
      (snaps.length + 1) (DiskStore.roots snaps) = some ls) :
    ls.length = snaps.length ∧ (∀ line ∈ ls, '\n' ∉ line) ∧
      (readLines ls).Perm (snaps.map Snapshot.relation) := by
  have hkids := h.sortedChildren_inverse hwood
  have hchild : ∀ a c, c ∈ DiskStore.sortedChildren snaps a → isPlainName c = true :=
    fun a c hc => h.plain hplain (h.parentOf_mem ((hkids a c).mp hc))
  have hroot : ∀ r ∈ DiskStore.roots snaps, isPlainName r = true :=
    fun r hr => h.plain hplain ((h.mem_roots hwood).mp hr).1
  obtain ⟨es, hes, hshows⟩ := TreeText.draw_shows
    (fun a c hc => labelOf_plain (hchild a c hc) _) (fun r hr => labelOf_plain (hroot r hr) _) hdraw
  have hnodes := h.preorder_names hwood hes
  refine ⟨?_, ?_, h.readLines_perm hwood hplain hes hshows⟩
  · have hlen := congrArg List.length hshows
    have hcount := hnodes.length_eq
    simp only [List.length_map] at hlen hcount
    omega
  · intro line hline hnewline
    have hread : TreeText.readLine line ∈ ls.map TreeText.readLine := List.mem_map_of_mem hline
    unfold TreeText.Shows at hshows
    rw [hshows] at hread
    obtain ⟨e, he, heq⟩ := List.mem_map.mp hread
    have hplainEntry := h.plain hplain (hnodes.subset (List.mem_map_of_mem he))
    obtain hc | hc := TreeText.readLine_mem hnewline
    · rw [← heq] at hc
      exact labelOf_newline hplainEntry _ hc
    · exact absurd hc (by decide)

end Listed

theorem snapshotTree_quiet (vm disk : String) : Quiet (store.snapshotTree host vm disk) := by
  refine .bind (snapshotList_quiet vm disk) fun snaps => ?_
  split
  · exact .raise _
  · exact .pure _
  · exact .pure _

-- The tree is drawn, and its lines say what the listing says.
theorem snapshotTree_spec (hq : Describes F host.qemuImg) (hhealthy : Healthy F store w.fs vm disk)
    (hplain : PlainNames store w.fs vm disk) :
    ∃ snaps text, store.snapshotList host vm disk w = (.ok snaps, w) ∧
      store.snapshotTree host vm disk w = (.ok text, w) ∧ Listed F store w.fs vm disk snaps ∧
      (snaps = [] → text = DiskStore.noSnapshots) ∧
      (snaps ≠ [] → (text.splitOn '\n').length = snaps.length ∧
        (readTree text).Perm (snaps.map Snapshot.relation)) := by
  obtain ⟨snaps, hlist⟩ := snapshotList_returns hq hhealthy.vm_valid hhealthy.disk_valid
    hhealthy.active hhealthy.tidy
  obtain ⟨-, hlisted⟩ := snapshotList_listed hq hhealthy.tidy hlist
  have hwood := hlisted.wooded hhealthy.tidy hhealthy.forest
  have hkids := hlisted.sortedChildren_inverse hwood
  obtain ⟨ls, hdraw⟩ := @TreeText.draw_isSome _ _ (DiskStore.label snaps) _ _ hwood hkids
    (fun a c hc => hlisted.parentOf_mem ((hkids a c).mp hc)) (DiskStore.roots snaps)
    fun r hr => ((hlisted.mem_roots hwood).mp hr).1
  rw [List.length_map] at hdraw
  obtain ⟨hlen, hnewline, hreads⟩ := hlisted.draw_reads hwood hplain hdraw
  cases ls with
  | nil =>
      have hnone : snaps = [] := List.length_eq_zero_iff.mp hlen.symm
      refine ⟨snaps, DiskStore.noSnapshots, hlist, ?_, hlisted, fun _ => rfl,
        fun hne => absurd hnone hne⟩
      rw [DiskStore.snapshotTree, bind_of_ok hlist]
      simp only [hdraw]
      rfl
  | cons line ls =>
      have hsplit := List.splitOn_intercalate '\n' hnewline (List.cons_ne_nil line ls)
      refine ⟨snaps, ['\n'].intercalate (line :: ls), hlist, ?_, hlisted, ?_, fun _ => ⟨?_, ?_⟩⟩
      · rw [DiskStore.snapshotTree, bind_of_ok hlist]
        simp only [hdraw]
        rfl
      · rintro rfl
        cases hlen
      · rw [hsplit, hlen]
      · unfold readTree
        rw [hsplit]
        exact hreads

-- No snapshot is shown by the text that says that there is none.
theorem readTree_noSnapshots : readTree DiskStore.noSnapshots = [("(no snapshots)", none, false)] := by
  decide

-- A disk with snapshots is drawn one line for each of them, from which the listing is read back, and
-- a disk without any is drawn as no other: two trees never have the same text.
theorem snapshotTree_reads {host' : Host β} {store' : DiskStore} {vm' disk' : String}
    (hq : Describes F host.qemuImg) (hhealthy : Healthy F store w.fs vm disk)
    (hplain : PlainNames store w.fs vm disk) :
    ∃ snaps text, store.snapshotList host vm disk w = (.ok snaps, w) ∧
      store.snapshotTree host vm disk w = (.ok text, w) ∧
      (snaps = [] → text = DiskStore.noSnapshots) ∧
      (snaps ≠ [] → (text.splitOn '\n').length = snaps.length ∧
        (snaps.map Snapshot.name).Nodup ∧ (readTree text).Perm (snaps.map Snapshot.relation)) ∧
      ∀ w' snaps', Describes F host'.qemuImg → Healthy F store' w'.fs vm' disk' →
        PlainNames store' w'.fs vm' disk' →
        store'.snapshotList host' vm' disk' w' = (.ok snaps', w') →
        store'.snapshotTree host' vm' disk' w' = (.ok text, w') →
        (snaps'.map Snapshot.relation).Perm (snaps.map Snapshot.relation) := by
  obtain ⟨snaps, text, hlist, htree, hlisted, hnone, hsome⟩ := snapshotTree_spec hq hhealthy hplain
  refine ⟨snaps, text, hlist, htree, hnone, fun hne => ⟨(hsome hne).1, hlisted.nodup, (hsome hne).2⟩,
    fun w' snaps' hq' hhealthy' hplain' hlist' htree' => ?_⟩
  obtain ⟨_, _, hl, ht, hlisted', hnone', hsome'⟩ := snapshotTree_spec hq' hhealthy' hplain'
  obtain rfl := Except.ok.inj (Prod.mk.inj (hlist'.symm.trans hl)).1
  obtain rfl := Except.ok.inj (Prod.mk.inj (htree'.symm.trans ht)).1
  -- the text of a disk without snapshots is not the text of one with snapshots
  have hclash : ∀ {store : DiskStore} {vm disk : String} {fs : FileSystem β} {snaps : List Snapshot},
      Listed F store fs vm disk snaps → PlainNames store fs vm disk →
      ¬(readTree DiskStore.noSnapshots).Perm (snaps.map Snapshot.relation) := by
    intro store vm disk fs snaps hl hp hperm
    rw [readTree_noSnapshots] at hperm
    obtain ⟨snap, hsnap, heq⟩ := List.mem_map.mp (hperm.subset List.mem_cons_self)
    have hname := hl.plain hp (List.mem_map_of_mem hsnap)
    have hbad : snap.name = "(no snapshots)" := (Prod.mk.inj heq).1
    rw [hbad] at hname
    exact absurd hname (by decide)
  by_cases h : snaps = []
  · by_cases h' : snaps' = []
    · rw [h, h']
    · have hperm := (hsome' h').2
      rw [hnone h] at hperm
      exact absurd hperm (hclash hlisted' hplain')
  · by_cases h' : snaps' = []
    · have hperm := (hsome h).2
      rw [hnone' h'] at hperm
      exact absurd hperm (hclash hlisted hplain)
    · exact (hsome' h').2.symm.trans (hsome h).2

end Rendering

section Disks

-- A disk without a snapshot, and one with two branches.
def bareDisk : World Blob := treeWorld (.qcow2 1 [] none) [] []

def branchedDisk : World Blob :=
  treeWorld (.qcow2 1 [] (some (snapPath "right", "qcow2")))
    [("base", .qcow2 1 [] none), ("left", .qcow2 1 [] (some (snapPath "base", "qcow2"))),
      ("deep", .qcow2 1 [] (some (snapPath "left", "qcow2"))),
      ("right", .qcow2 1 [] (some (snapPath "base", "qcow2")))] []

theorem bareDisk_healthy : Healthy memoryFormats treeStore bareDisk.fs "web" "root" := by
  refine @healthy_of_files _ _ _ _ "web" "root" [] (by decide) (by decide) (by decide)
    (by decide) (by decide) (by decide) ?_ ?_ (fun _ => 0) (by decide)
  · exact fun n hn => absurd hn List.not_mem_nil
  · intro target h
    cases h

theorem branchedDisk_healthy : Healthy memoryFormats treeStore branchedDisk.fs "web" "root" := by
  refine @healthy_of_files _ _ _ _ "web" "root" ["base", "deep", "left", "right"] (by decide)
    (by decide) (by decide) (by decide) (by decide) (by decide) ?_ ?_
    (fun n => if n = "base" then 0 else if n = "deep" then 2 else 1) (by decide)
  · intro n hn target h
    simp only [List.mem_cons, List.not_mem_nil, or_false] at hn
    rcases hn with rfl | rfl | rfl | rfl
    · cases h
    all_goals
      obtain rfl := Option.some.inj h
      decide
  · intro target h
    obtain rfl := Option.some.inj h
    decide

-- Four lines, of which two are on the first level and one is below one of these.
theorem snapshotTree_reads_branched : ∃ snaps text,
    treeStore.snapshotList (memoryHost []) "web" "root" branchedDisk = (.ok snaps, branchedDisk) ∧
      treeStore.snapshotTree (memoryHost []) "web" "root" branchedDisk = (.ok text, branchedDisk) ∧
      (text.splitOn '\n').length = 4 ∧
      (readTree text).Perm [("base", none, false), ("deep", some "left", false),
        ("left", some "base", false), ("right", some "base", true)] := by
  have hplain : PlainNames treeStore branchedDisk.fs "web" "root" := by
    intro n hn
    have hmem := branchedDisk.fs.mem_children.mpr hn
    have hfour : branchedDisk.fs.children (treeStore.snapshotsDir "web" "root") =
        ["base", "deep", "left", "right"].map (· ++ ".qcow2") := by decide
    rw [hfour] at hmem
    obtain ⟨n', hn', heq⟩ := List.mem_map.mp hmem
    rw [← append_qcow2_inj heq]
    have hall : ∀ n ∈ ["base", "deep", "left", "right"], isPlainName n = true := by decide
    exact hall n' hn'
  obtain ⟨snaps, text, hlist, htree, -, hsome, -⟩ := @snapshotTree_reads Blob memoryFormats
    (memoryHost []) treeStore "web" "root" branchedDisk (memoryHost []) treeStore "web" "root"
    (Memory.describes []) branchedDisk_healthy hplain
  have hfour : (treeStore.snapshotList (memoryHost []) "web" "root" branchedDisk).1.toOption.map
      (List.map Snapshot.relation) = some [("base", none, false), ("deep", some "left", false),
        ("left", some "base", false), ("right", some "base", true)] := by
    decide +kernel
  rw [hlist] at hfour
  have hrelations := Option.some.inj hfour
  have hne : snaps ≠ [] := by
    rintro rfl
    cases hrelations
  obtain ⟨hlen, -, hperm⟩ := hsome hne
  rw [hrelations] at hperm
  have hcount := congrArg List.length hrelations
  rw [List.length_map] at hcount
  exact ⟨snaps, text, hlist, htree, hlen.trans hcount, hperm⟩

-- A disk without a snapshot has a line all the same.
theorem snapshotTree_bare : Healthy memoryFormats treeStore bareDisk.fs "web" "root" ∧
    PlainNames treeStore bareDisk.fs "web" "root" ∧
    ∃ text, treeStore.snapshotTree (memoryHost []) "web" "root" bareDisk = (.ok text, bareDisk) ∧
      treeStore.snapshotList (memoryHost []) "web" "root" bareDisk = (.ok [], bareDisk) ∧
      (text.splitOn '\n').length = 1 ∧ readTree text = [("(no snapshots)", none, false)] := by
  have hfiles : ∀ n, bareDisk.fs.node (treeStore.snapshotFile "web" "root" n) = none := by
    intro n
    by_contra h
    have hmem := bareDisk.fs.mem_children.mpr h
    have hnone : bareDisk.fs.children (treeStore.snapshotsDir "web" "root") = [] := by
      decide
    rw [hnone] at hmem
    cases hmem
  refine ⟨bareDisk_healthy, fun n hn => absurd (hfiles n) hn, DiskStore.noSnapshots, ?_⟩
  obtain ⟨snaps, text, hlist, htree, hlisted, hnone, -⟩ := @snapshotTree_spec Blob memoryFormats
    (memoryHost []) treeStore "web" "root" bareDisk (Memory.describes []) bareDisk_healthy
    fun n hn => absurd (hfiles n) hn
  have hempty : snaps = [] := by
    cases snaps with
    | nil => rfl
    | cons snap snaps =>
        obtain ⟨-, -, l, hl, -⟩ := hlisted.sound snap List.mem_cons_self
        exact absurd (hfiles _) (node_of_layerAt (Option.isSome_iff_exists.mpr ⟨l, hl⟩))
  subst hempty
  rw [hnone rfl] at htree
  exact ⟨htree, hlist, by decide, readTree_noSnapshots⟩

end Disks

end VMForge.Storage
