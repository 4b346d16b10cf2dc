import VMForge.Base.Path
import Mathlib.Data.List.Dedup
import Mathlib.Data.List.Infix
import Mathlib.Data.List.Sort
import Mathlib.Logic.Function.Basic

namespace VMForge

-- A regular file: its bytes, kept abstract, and its permission bits.
structure File (β : Type) where
  blob : β
  mode : Nat
deriving DecidableEq

inductive Node (β : Type) where
  | dir
  | file (f : File β)
deriving DecidableEq

def Node.isDir {β : Type} : Node β → Bool
  | .dir => true
  | .file _ => false

-- A POSIX file tree without links. Every entry has a directory above it and a legal name.
-- `listing` bounds the entries so that directories can be listed.
structure FileSystem (β : Type) where
  node : Path → Option (Node β)
  listing : List Path
  root : node [] = some .dir
  parent : ∀ p n, node (p ++ [n]) ≠ none → node p = some .dir
  legal : ∀ p n, node (p ++ [n]) ≠ none → Path.isComponent n = true
  listed : ∀ p, node p ≠ none → p ∈ listing

namespace FileSystem

variable {β : Type} (fs : FileSystem β)

def exists_ (p : Path) : Bool := (fs.node p).isSome

def isDir (p : Path) : Bool := (fs.node p).any Node.isDir

def isFile (p : Path) : Bool := (fs.node p).any fun x => !x.isDir

def blob (p : Path) : Option β :=
  match fs.node p with
  | some (.file f) => some f.blob
  | _ => none

-- The entry names of a directory, sorted.
def children (p : Path) : List String :=
  ((fs.listing.filter fun q => fs.exists_ q ∧ q ≠ [] ∧ q.dropLast = p).map
    Path.name).dedup.insertionSort (· ≤ ·)

-- Where a node can be put: below a directory, under a legal name, and no file takes the
-- place of a directory.
def admits (p : Path) (x : Node β) : Bool :=
  p ≠ [] ∧ fs.isDir p.dropLast ∧ Path.isComponent (Path.name p) ∧ (fs.isDir p → x.isDir)

@[simp] theorem exists_iff {p : Path} : fs.exists_ p = true ↔ fs.node p ≠ none := by
  simp [exists_, Option.isSome_iff_ne_none]

@[simp] theorem exists_eq_false_iff {p : Path} : fs.exists_ p = false ↔ fs.node p = none := by
  simp [exists_]

theorem isDir_iff {p : Path} : fs.isDir p = true ↔ fs.node p = some .dir := by
  unfold isDir
  rcases fs.node p with _ | _ | f <;> simp [Node.isDir]

theorem isFile_iff {p : Path} : fs.isFile p = true ↔ ∃ f, fs.node p = some (.file f) := by
  unfold isFile
  rcases fs.node p with _ | _ | f <;> simp [Node.isDir]

theorem blob_eq_some {p : Path} {b : β} :
    fs.blob p = some b ↔ ∃ m, fs.node p = some (.file ⟨b, m⟩) := by
  unfold blob
  rcases fs.node p with _ | _ | ⟨b', m⟩ <;> simp

theorem blob_congr {fs' : FileSystem β} {p q : Path} (h : fs'.node p = fs.node q) :
    fs'.blob p = fs.blob q := by
  simp only [blob, h]

-- Above an entry there are only directories.
theorem isDir_of_below {p q : Path} (hpq : p <+: q) (hne : p ≠ q) (hq : fs.node q ≠ none) :
    fs.node p = some .dir := by
  obtain ⟨rest, rfl⟩ := hpq
  induction rest using List.reverseRecOn with
  | nil => simp at hne
  | append_singleton rest n ih =>
      rw [← List.append_assoc] at hq
      have hp := fs.parent _ _ hq
      cases rest with
      | nil => simpa using hp
      | cons m rest => exact ih (by simp) (by simp [hp])

theorem none_of_below {p q : Path} (hpq : p <+: q) (hp : fs.node p = none) :
    fs.node q = none := by
  by_contra hq
  by_cases he : p = q
  · exact hq (he ▸ hp)
  · simp [fs.isDir_of_below hpq he hq] at hp

theorem none_of_below_file {p q : Path} {f : File β} (hpq : p <+: q) (hne : p ≠ q)
    (hp : fs.node p = some (.file f)) : fs.node q = none := by
  by_contra hq
  simp [fs.isDir_of_below hpq hne hq] at hp

theorem admits_iff {p : Path} {x : Node β} :
    fs.admits p x = true ↔ p ≠ [] ∧ fs.node p.dropLast = some .dir ∧
      Path.isComponent (Path.name p) = true ∧ (fs.node p = some .dir → x = .dir) := by
  have hx : x.isDir = true ↔ x = .dir := by cases x <;> simp [Node.isDir]
  by_cases hd : fs.isDir p = true
  · simp [admits, isDir_iff, hx, (isDir_iff fs).mp hd]
  · have hn : fs.node p ≠ some .dir := fun h => hd ((isDir_iff fs).mpr h)
    simp [admits, isDir_iff, hn]

theorem name_eq_of_concat {p q : Path} {n : String} (h : q ++ [n] = p) :
    Path.name p = n ∧ p.dropLast = q := by
  subst h
  simp

-- Create or replace the node at `p`.
def put (p : Path) (x : Node β) : FileSystem β :=
  if h : fs.admits p x = true then
    have hp := (admits_iff fs).mp h
    { node := Function.update fs.node p (some x)
      listing := p :: fs.listing
      root := by rw [Function.update_of_ne (Ne.symm hp.1)]; exact fs.root
      parent := by
        intro q n hq
        by_cases he : q ++ [n] = p
        · obtain ⟨-, hd⟩ := name_eq_of_concat he
          rw [Function.update_of_ne (by rintro rfl; simp at he), ← hd]
          exact hp.2.1
        · rw [Function.update_of_ne he] at hq
          have hdir := fs.parent q n hq
          by_cases hqp : q = p
          · subst hqp
            simp [hp.2.2.2 hdir]
          · rwa [Function.update_of_ne hqp]
      legal := by
        intro q n hq
        by_cases he : q ++ [n] = p
        · obtain ⟨hn, -⟩ := name_eq_of_concat he
          exact hn ▸ hp.2.2.1
        · rw [Function.update_of_ne he] at hq
          exact fs.legal q n hq
      listed := by
        intro q hq
        by_cases hqp : q = p
        · simp [hqp]
        · rw [Function.update_of_ne hqp] at hq
          exact List.mem_cons_of_mem _ (fs.listed q hq) }
  else fs

-- Remove the node at `p` and everything below it.
def prune (p : Path) : FileSystem β :=
  if h : p = [] then fs
  else
    { node := fun q => if p <+: q then none else fs.node q
      listing := fs.listing
      root := by simp [h, fs.root]
      parent := by
        intro q n hq
        by_cases hpre : p <+: q ++ [n]
        · simp [hpre] at hq
        · have hpre' : ¬p <+: q := fun hc => hpre (hc.trans (List.prefix_append q [n]))
          simp only [hpre, hpre', ite_false] at hq ⊢
          exact fs.parent q n hq
      legal := by
        intro q n hq
        by_cases hpre : p <+: q ++ [n]
        · simp [hpre] at hq
        · simp only [hpre, ite_false] at hq
          exact fs.legal q n hq
      listed := by
        intro q hq
        by_cases hpre : p <+: q
        · simp [hpre] at hq
        · simp only [hpre, ite_false] at hq
          exact fs.listed q hq }

theorem put_node {p : Path} {x : Node β} (h : fs.admits p x = true) :
    (fs.put p x).node = Function.update fs.node p (some x) := by
  simp only [put, h, dite_true]

theorem put_node_of_ne {p q : Path} {x : Node β} (hne : q ≠ p) :
    (fs.put p x).node q = fs.node q := by
  by_cases h : fs.admits p x = true
  · rw [put_node fs h, Function.update_of_ne hne]
  · simp only [put, h]
    rfl

theorem put_node_self {p : Path} {x : Node β} (h : fs.admits p x = true) :
    (fs.put p x).node p = some x := by
  rw [put_node fs h, Function.update_self]

theorem prune_node {p q : Path} (hp : p ≠ []) :
    (fs.prune p).node q = if p <+: q then none else fs.node q := by
  simp only [prune, hp, dite_false]

theorem prune_node_of_not_below {p q : Path} (h : ¬p <+: q) :
    (fs.prune p).node q = fs.node q := by
  by_cases hp : p = []
  · simp [prune, hp]
  · rw [prune_node fs hp, if_neg h]

theorem prune_node_of_below {p q : Path} (hp : p ≠ []) (h : p <+: q) :
    (fs.prune p).node q = none := by
  rw [prune_node fs hp, if_pos h]

theorem mem_children {p : Path} {n : String} :
    n ∈ fs.children p ↔ fs.node (p ++ [n]) ≠ none := by
  simp only [children, List.mem_insertionSort, List.mem_dedup, List.mem_map, List.mem_filter]
  constructor
  · rintro ⟨q, ⟨-, hq⟩, rfl⟩
    simp only [exists_iff, decide_eq_true_eq] at hq
    obtain ⟨hex, hne, rfl⟩ := hq
    have hq' : q.dropLast ++ [Path.name q] = q := by
      rw [Path.name, List.getLast?_eq_some_getLast hne]
      exact List.dropLast_append_getLast hne
    rwa [hq']
  · intro h
    exact ⟨p ++ [n], ⟨fs.listed _ h, by simpa using h⟩, by simp⟩

theorem children_nodup (p : Path) : (fs.children p).Nodup :=
  (List.perm_insertionSort _ _).nodup_iff.mpr (List.nodup_dedup _)

end FileSystem

end VMForge
