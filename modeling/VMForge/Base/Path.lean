import VMForge.Base.Decimal

namespace VMForge

-- The components of an absolute path without symbolic links, from the root down.
abbrev Path := List String

namespace Path

-- What one directory entry can be called.
def isComponent (n : String) : Bool :=
  n != "" && n != "." && n != ".." && !n.toList.contains '/' && !n.toList.contains '\x00'

def splitSlash : List Char → List (List Char)
  | [] => [[]]
  | c :: cs =>
      if c = '/' then [] :: splitSlash cs
      else
        match splitSlash cs with
        | [] => [[c]]
        | head :: rest => (c :: head) :: rest

-- `PurePosixPath(s).parts` without the root: empty and "." components disappear.
def parts (s : String) : List String :=
  ((splitSlash s.toList).filter fun cs => cs ≠ [] && cs ≠ ['.']).map String.ofList

def isAbsolute (s : String) : Bool := s.toList.head? == some '/'

-- `PurePath.name`
def name (components : List String) : String := components.getLast?.getD ""

-- `Path.resolve()` where there are no symbolic links.
def resolveFrom (base : List String) : List String → List String
  | [] => base
  | n :: rest => if n = ".." then resolveFrom base.dropLast rest else resolveFrom (base ++ [n]) rest

def resolve (components : List String) : Path := resolveFrom [] components

-- `Path(s).resolve()` in the working directory `cwd`.
def ofString (cwd : Path) (s : String) : Path :=
  if isAbsolute s then resolve (parts s) else resolve (cwd ++ parts s)

def toString (p : Path) : String := "/" ++ String.intercalate "/" p

-- The name and the extension `PurePath.stem` and `PurePath.suffix` cut it into:
-- the last dot counts unless it starts or ends the name.
def splitSuffix (cs : List Char) : List Char × List Char :=
  match cs.reverse.dropWhile (· ≠ '.') with
  | _ :: base =>
      let ext := cs.reverse.takeWhile (· ≠ '.')
      if base = [] ∨ ext = [] then (cs, []) else (base.reverse, '.' :: ext.reverse)
  | [] => (cs, [])

def stem (n : String) : String := String.ofList (splitSuffix n.toList).1

def suffix (n : String) : String := String.ofList (splitSuffix n.toList).2

-- The names `glob("*.qcow2")` lists.
def isQcow2Name (n : String) : Bool := ".qcow2".toList.isSuffixOf n.toList

theorem splitSlash_append_slash (a b : List Char) (ha : '/' ∉ a) :
    splitSlash (a ++ '/' :: b) = a :: splitSlash b := by
  induction a with
  | nil => simp [splitSlash]
  | cons c a ih =>
      simp only [List.mem_cons, not_or] at ha
      simp [splitSlash, Ne.symm ha.1, ih ha.2]

theorem splitSlash_of_notMem (a : List Char) (ha : '/' ∉ a) : splitSlash a = [a] := by
  induction a with
  | nil => rfl
  | cons c a ih =>
      simp only [List.mem_cons, not_or] at ha
      simp [splitSlash, Ne.symm ha.1, ih ha.2]

theorem splitSlash_ne_nil (a : List Char) : splitSlash a ≠ [] := by
  cases a with
  | nil => simp [splitSlash]
  | cons c a =>
      simp only [splitSlash]
      split
      · simp
      · split <;> simp

theorem splitSlash_concat (a b : List Char) (hb : '/' ∉ b) :
    splitSlash (a ++ '/' :: b) = splitSlash a ++ [b] := by
  induction a with
  | nil => simp [splitSlash, splitSlash_of_notMem b hb]
  | cons c a ih =>
      by_cases hc : c = '/'
      · simp only [List.cons_append, splitSlash, hc, ite_true, ih]
      · simp only [List.cons_append, splitSlash, hc, ite_false, ih]
        cases h : splitSlash a with
        | nil => exact absurd h (splitSlash_ne_nil a)
        | cons head rest => rfl

theorem slash_notMem_of_mem_splitSlash (s : List Char) :
    ∀ cs ∈ splitSlash s, '/' ∉ cs := by
  induction s with
  | nil => simp [splitSlash]
  | cons c s ih =>
      intro cs hcs
      by_cases hc : c = '/'
      · simp only [splitSlash, hc, ite_true, List.mem_cons] at hcs
        rcases hcs with rfl | hcs
        · simp
        · exact ih cs hcs
      · simp only [splitSlash, hc, ite_false] at hcs
        cases hs : splitSlash s with
        | nil => simp_all [Ne.symm hc]
        | cons head rest =>
            simp only [hs, List.mem_cons] at hcs ih
            rcases hcs with rfl | hcs
            · simpa [Ne.symm hc] using ih head (Or.inl rfl)
            · exact ih cs (Or.inr hcs)

theorem isComponent_iff (n : String) :
    isComponent n = true ↔
      n ≠ "" ∧ n ≠ "." ∧ n ≠ ".." ∧ '/' ∉ n.toList ∧ '\x00' ∉ n.toList := by
  simp [isComponent, and_assoc]

theorem parts_of_isComponent {n : String} (hn : isComponent n = true) : parts n = [n] := by
  obtain ⟨hne, hdot, -, hslash, -⟩ := (isComponent_iff n).mp hn
  have h₁ : n.toList ≠ [] := fun h => hne (String.toList_inj.mp h)
  have h₂ : n.toList ≠ ['.'] := fun h => hdot (String.toList_inj.mp h)
  simp [parts, splitSlash_of_notMem _ hslash, h₁, h₂]

-- A component after a slash is the last part.
theorem parts_concat (s : String) {n : String} (hn : isComponent n = true) :
    parts (s ++ "/" ++ n) = parts s ++ [n] := by
  obtain ⟨hne, hdot, -, hslash, -⟩ := (isComponent_iff n).mp hn
  have h₁ : n.toList ≠ [] := fun h => hne (String.toList_inj.mp h)
  have h₂ : n.toList ≠ ['.'] := fun h => hdot (String.toList_inj.mp h)
  have hs : (s ++ "/" ++ n).toList = s.toList ++ '/' :: n.toList := by simp
  simp only [parts, hs, splitSlash_concat _ _ hslash]
  simp [h₁, h₂]

theorem parts_append_sep (s : String) : parts (s ++ "/") = parts s := by
  have hs : (s ++ "/").toList = s.toList ++ ['/'] := by simp
  simp only [parts, hs, splitSlash_concat s.toList [] (by simp)]
  simp

theorem isAbsolute_of_isComponent {n : String} (hn : isComponent n = true) :
    isAbsolute n = false := by
  obtain ⟨hne, -, -, hslash, -⟩ := (isComponent_iff n).mp hn
  cases hl : n.toList with
  | nil => exact absurd (String.toList_inj.mp hl) hne
  | cons c cs =>
      have hc : c ≠ '/' := by rintro rfl; simp [hl] at hslash
      simp [isAbsolute, hl, hc]

@[simp] theorem name_concat (p : List String) (n : String) : name (p ++ [n]) = n := by
  simp [name]

theorem resolveFrom_of_notMem (base components : List String) (h : ".." ∉ components) :
    resolveFrom base components = base ++ components := by
  induction components generalizing base with
  | nil => simp [resolveFrom]
  | cons n rest ih =>
      simp only [List.mem_cons, not_or] at h
      simp [resolveFrom, Ne.symm h.1, ih _ h.2]

theorem resolve_of_notMem {components : List String} (h : ".." ∉ components) :
    resolve components = components := by
  simpa [resolve] using resolveFrom_of_notMem [] components h

theorem resolveFrom_append (base components rest : List String) :
    resolveFrom base (components ++ rest) = resolveFrom (resolveFrom base components) rest := by
  induction components generalizing base with
  | nil => rfl
  | cons n components ih =>
      simp only [List.cons_append, resolveFrom]
      split
      · exact ih _
      · exact ih _

theorem resolve_concat (components : List String) {n : String} (hn : n ≠ "..") :
    resolve (components ++ [n]) = resolve components ++ [n] := by
  rw [resolve, resolveFrom_append]
  simp [resolveFrom, hn, resolve]

-- A text that names one more component leads one component further.
theorem ofString_concat {cwd : Path} {s t n : String} (habs : isAbsolute t = isAbsolute s)
    (hparts : parts t = parts s ++ [n]) (hn : n ≠ "..") :
    ofString cwd t = ofString cwd s ++ [n] := by
  simp only [ofString, habs, hparts]
  split
  · exact resolve_concat _ hn
  · rw [← List.append_assoc]
    exact resolve_concat _ hn

-- A name leads to the entry of that name.
theorem ofString_of_isComponent (cwd : Path) {n : String} (hn : isComponent n = true) :
    ofString cwd n = resolve cwd ++ [n] := by
  rw [ofString, isAbsolute_of_isComponent hn, parts_of_isComponent hn]
  exact resolve_concat cwd ((isComponent_iff n).mp hn).2.2.1

theorem resolve_concat_dotdot {components : List String} (h : ".." ∉ components) :
    resolve (components ++ [".."]) = components.dropLast := by
  have hres := resolve_of_notMem h
  rw [resolve] at hres
  rw [resolve, resolveFrom_append, hres]
  simp [resolveFrom]

theorem dotdot_notMem_resolveFrom {base : List String} (hbase : ".." ∉ base)
    (components : List String) : ".." ∉ resolveFrom base components := by
  induction components generalizing base with
  | nil => exact hbase
  | cons n rest ih =>
      simp only [resolveFrom]
      split
      · exact ih fun hc => hbase ((List.dropLast_sublist _).subset hc)
      · rename_i hn
        refine ih fun hc => ?_
        rcases List.mem_append.mp hc with hc | hc
        · exact hbase hc
        · exact hn (List.mem_singleton.mp hc).symm

@[simp] theorem resolve_resolve (components : List String) :
    resolve (resolve components) = resolve components :=
  resolve_of_notMem (dotdot_notMem_resolveFrom (by simp) components)

theorem dotdot_notMem_of_isComponent {p : Path} (h : ∀ n ∈ p, isComponent n = true) :
    ".." ∉ p :=
  fun hm => ((isComponent_iff _).mp (h _ hm)).2.2.1 rfl

theorem splitSuffix_append_qcow2 (cs : List Char) (h : cs ≠ []) :
    splitSuffix (cs ++ ".qcow2".toList) = (cs, ".qcow2".toList) := by
  simp [splitSuffix, List.dropWhile, List.takeWhile, h]

theorem stem_append_qcow2 {n : String} (h : n ≠ "") : stem (n ++ ".qcow2") = n := by
  have hl : n.toList ≠ [] := fun he => h (String.toList_inj.mp he)
  simp only [stem, String.toList_append, splitSuffix_append_qcow2 _ hl, String.ofList_toList]

theorem suffix_append_qcow2 {n : String} (h : n ≠ "") : suffix (n ++ ".qcow2") = ".qcow2" := by
  have hl : n.toList ≠ [] := fun he => h (String.toList_inj.mp he)
  simp only [suffix, String.toList_append, splitSuffix_append_qcow2 _ hl, String.ofList_toList]

@[simp] theorem isQcow2Name_append (n : String) : isQcow2Name (n ++ ".qcow2") = true := by
  simp [isQcow2Name]

-- A listed name whose stem is not the whole of it is the stem with the extension.
theorem eq_stem_append_of_isQcow2Name {n : String} (h : isQcow2Name n = true)
    (hne : n ≠ ".qcow2") : n = stem n ++ ".qcow2" := by
  rw [isQcow2Name, List.isSuffixOf_iff_suffix] at h
  obtain ⟨cs, hcs⟩ := h
  have hn : n = String.ofList cs ++ ".qcow2" := by
    apply String.toList_inj.mp
    simp [← hcs]
  have hcs' : String.ofList cs ≠ "" := by
    rintro he
    rw [he] at hn
    exact hne (by simpa using hn)
  rw [hn, stem_append_qcow2 hcs']

end Path

end VMForge
