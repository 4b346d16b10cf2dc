import VMForge.Backend.Hvf
import VMForge.Engine.Uri

namespace VMForge.Hvf

open Engine

@[simp] theorem snapTag_toList (k : Nat) :
    (snapTag k).toList = "snap".toList ++ Nat.toDigits 10 k := by
  simp [snapTag, toString, Nat.toList_repr]

@[simp] theorem branchTag_toList (k : Nat) :
    (branchTag k).toList = "branch".toList ++ Nat.toDigits 10 k := by
  simp [branchTag, toString, Nat.toList_repr]

theorem overlayName_toList (tag : String) (i : Nat) :
    (QemuVm.overlayName tag (nodeName i)).toList =
      tag.toList ++ '-' :: ("disk".toList ++ (Nat.toDigits 10 i ++ ".qcow2".toList)) := by
  simp [QemuVm.overlayName, toString]

theorem stateName_toList (tag : String) :
    (QemuVm.stateName tag).toList = tag.toList ++ '-' :: "state.bin".toList := by
  simp [QemuVm.stateName, toString]

-- An overlay node has another name than any disk.
theorem snapNode_ne_nodeName (k i j : Nat) : s!"{snapTag k}-{nodeName i}" ≠ nodeName j := by
  intro h
  have hl := congrArg String.toList h
  simp [toString] at hl

-- The files a VM's directory gets: the overlays and the saved state of a capture, and the
-- overlays of a restore.
inductive Generated where
  | snapDisk (seq disk : Nat)
  | snapState (seq : Nat)
  | branchDisk (seq disk : Nat)
deriving DecidableEq

namespace Generated

def name : Generated → String
  | .snapDisk seq disk => QemuVm.overlayName (snapTag seq) (nodeName disk)
  | .snapState seq => QemuVm.stateName (snapTag seq)
  | .branchDisk seq disk => QemuVm.overlayName (branchTag seq) (nodeName disk)

-- The number of the call that made the file.
def seq : Generated → Nat
  | .snapDisk seq _ => seq
  | .snapState seq => seq
  | .branchDisk seq _ => seq

theorem name_injective {g g' : Generated} (h : g.name = g'.name) : g = g' := by
  have hl := congrArg String.toList h
  cases g with
  | snapDisk k i =>
      cases g' with
      | snapDisk k' i' =>
          simp only [name, overlayName_toList, snapTag_toList, List.append_assoc] at hl
          obtain ⟨rfl, hrest⟩ :=
            digits_append_inj (by decide) (by decide) (List.append_cancel_left hl)
          have hi := List.append_cancel_left (List.cons.inj hrest).2
          have hdot : ".qcow2".toList = '.' :: "qcow2".toList := by decide
          rw [hdot] at hi
          obtain ⟨rfl, -⟩ := digits_append_inj (by decide) (by decide) hi
          rfl
      | snapState k' =>
          simp only [name, overlayName_toList, stateName_toList, snapTag_toList,
            List.append_assoc] at hl
          obtain ⟨-, hrest⟩ :=
            digits_append_inj (by decide) (by decide) (List.append_cancel_left hl)
          simp at hrest
      | branchDisk k' i' => simp [name, overlayName_toList] at hl
  | snapState k =>
      cases g' with
      | snapDisk k' i' =>
          simp only [name, overlayName_toList, stateName_toList, snapTag_toList,
            List.append_assoc] at hl
          obtain ⟨-, hrest⟩ :=
            digits_append_inj (by decide) (by decide) (List.append_cancel_left hl)
          simp at hrest
      | snapState k' =>
          simp only [name, stateName_toList, snapTag_toList, List.append_assoc] at hl
          obtain ⟨rfl, -⟩ :=
            digits_append_inj (by decide) (by decide) (List.append_cancel_left hl)
          rfl
      | branchDisk k' i' => simp [name, overlayName_toList, stateName_toList] at hl
  | branchDisk k i =>
      cases g' with
      | snapDisk k' i' => simp [name, overlayName_toList] at hl
      | snapState k' => simp [name, overlayName_toList, stateName_toList] at hl
      | branchDisk k' i' =>
          simp only [name, overlayName_toList, branchTag_toList, List.append_assoc] at hl
          obtain ⟨rfl, hrest⟩ :=
            digits_append_inj (by decide) (by decide) (List.append_cancel_left hl)
          have hi := List.append_cancel_left (List.cons.inj hrest).2
          have hdot : ".qcow2".toList = '.' :: "qcow2".toList := by decide
          rw [hdot] at hi
          obtain ⟨rfl, -⟩ := digits_append_inj (by decide) (by decide) hi
          rfl

theorem notMem_name (g : Generated) {c : Char} (hdigit : c.isDigit = false)
    (hc : c ∉ "snapbrchtedikqow2.-".toList) : c ∉ g.name.toList := by
  have hdigits : ∀ n, c ∉ Nat.toDigits 10 n := by
    intro n h
    have hd := Nat.isDigit_of_mem_toDigits (by decide) (by decide) h
    rw [hdigit] at hd
    exact Bool.false_ne_true hd
  simp only [String.reduceToList, List.mem_cons, List.not_mem_nil, or_false, not_or] at hc
  cases g with
  | snapDisk k i =>
      simp only [name, overlayName_toList, snapTag_toList]
      simp [hdigits, hc]
  | snapState k =>
      simp only [name, stateName_toList, snapTag_toList]
      simp [hdigits, hc]
  | branchDisk k i =>
      simp only [name, overlayName_toList, branchTag_toList]
      simp [hdigits, hc]

theorem isComponent_name (g : Generated) : Path.isComponent g.name = true := by
  have hhead : ∃ c cs, g.name.toList = c :: cs ∧ c ≠ '.' := by
    cases g with
    | snapDisk k i => exact ⟨_, _, by simp only [name, overlayName_toList, snapTag_toList]; rfl, by decide⟩
    | snapState k => exact ⟨_, _, by simp only [name, stateName_toList, snapTag_toList]; rfl, by decide⟩
    | branchDisk k i =>
        exact ⟨_, _, by simp only [name, overlayName_toList, branchTag_toList]; rfl, by decide⟩
  obtain ⟨c, cs, hl, hc⟩ := hhead
  refine (Path.isComponent_iff _).mpr ⟨?_, ?_, ?_, ?_, ?_⟩
  · intro h
    simp [h] at hl
  · intro h
    simp [h] at hl
    exact hc hl.1.symm
  · intro h
    simp [h] at hl
    exact hc hl.1.symm
  · exact g.notMem_name (by decide) (by decide)
  · exact g.notMem_name (by decide) (by decide)

-- The shell gives no character of a generated name a meaning.
theorem bare_name (g : Generated) :
    ∀ c ∈ g.name.toList, Shell.isBare c = true ∧ c ∉ ['*', '?', '['] := by
  have hspecial : ∀ c ∈ ['\\', '\x27', '\x22', '$', '\x60', ' ', '\t', '\n', '&', ';', '|', '<',
      '>', '(', ')'] ++ ['*', '?', '['],
      c.isDigit = false ∧ c ∉ "snapbrchtedikqow2.-".toList := by decide
  have hnone : ∀ c ∈ g.name.toList, c ∉ ['\\', '\x27', '\x22', '$', '\x60', ' ', '\t', '\n', '&',
      ';', '|', '<', '>', '(', ')'] ++ ['*', '?', '['] := by
    intro c hc hin
    obtain ⟨hdigit, hletter⟩ := hspecial c hin
    exact g.notMem_name hdigit hletter hc
  intro c hc
  obtain ⟨hbare, hpattern⟩ := not_or.mp (List.mem_append.not.mp (hnone c hc))
  exact ⟨by rw [Shell.isBare, decide_eq_true_eq]; exact hbare, hpattern⟩

end Generated

-- The shell leaves the path of a state file alone if it does so with the VM's directory.
theorem spared_state {dir : String} (hdir : Shell.Literal dir.toList) (k : Nat) :
    (Command.migrate (join dir (QemuVm.stateName (snapTag k)))).Spared :=
  spared_join hdir (fun c hc => ((Generated.snapState k).bare_name c hc).1)
    (Path.isAbsolute_of_isComponent (Generated.snapState k).isComponent_name)

theorem spared_state_incoming {dir : String} (hdir : Shell.Literal dir.toList)
    (hpattern : ∀ c ∈ dir.toList, c ∉ ['*', '?', '[']) (hdash : dir.toList.head? ≠ some '-')
    (k : Nat) : (Command.migrateIncoming (join dir (QemuVm.stateName (snapTag k)))).Spared :=
  spared_join_incoming hdir hpattern hdash (Generated.snapState k).bare_name
    (Path.isAbsolute_of_isComponent (Generated.snapState k).isComponent_name)

end VMForge.Hvf
