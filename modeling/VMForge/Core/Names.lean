import VMForge.Storage.Memory
import VMForge.Storage.Store

namespace VMForge.Core

open Storage Exec

inductive ErrorKind where
  | notFound
  | alreadyExists
  | invalidConfig
  | invalidState
  | backend
  | timeout
  | io
deriving DecidableEq

-- The pieces of a message: text, and the `{:?}` text of a string.
inductive Fragment where
  | text (s : String)
  | debug (s : String)

structure VmError where
  kind : ErrorKind
  message : List Fragment

def validName (s : String) : Bool :=
  match s.toList with
  | [] => false
  | c :: cs => c.isAlphanum && cs.all fun c => c.isAlphanum || c ∈ ['.', '_', '-']

-- The types that `name_type!` makes.
inductive NameType where
  | vmName
  | diskName
  | snapshotName
  | imageName

def NameType.ident : NameType → String
  | .vmName => "VmName"
  | .diskName => "DiskName"
  | .snapshotName => "SnapshotName"
  | .imageName => "ImageName"

structure Name (type : NameType) where
  text : String
  valid : validName text = true

abbrev VmName := Name .vmName

abbrev DiskName := Name .diskName

abbrev SnapshotName := Name .snapshotName

abbrev ImageName := Name .imageName

def Name.new (type : NameType) (s : String) : Except VmError (Name type) :=
  if h : validName s = true then .ok ⟨s, h⟩
  else .error ⟨.invalidConfig, [.text s!"invalid {type.ident}: ", .debug s]⟩

-- `[A-Za-z0-9]`
def Letter (c : Char) : Prop :=
  'A' ≤ c ∧ c ≤ 'Z' ∨ 'a' ≤ c ∧ c ≤ 'z' ∨ '0' ≤ c ∧ c ≤ '9'

-- `[A-Za-z0-9][A-Za-z0-9._-]*`, in full.
def FullMatch (s : String) : Prop :=
  ∃ c cs, s.toList = c :: cs ∧ Letter c ∧ ∀ d ∈ cs, Letter d ∨ d ∈ ['.', '_', '-']

section Classes

theorem letter_iff {c : Char} : Letter c ↔ c.isAlphanum = true := by
  rw [isAlphanum_iff]
  simp only [Letter, Char.le_def, UInt32.le_iff_toNat_le]
  have hcode : c.val.toNat = c.toNat := rfl
  have hA : 'A'.val.toNat = 65 := rfl
  have hZ : 'Z'.val.toNat = 90 := rfl
  have ha : 'a'.val.toNat = 97 := rfl
  have hz : 'z'.val.toNat = 122 := rfl
  have h0 : '0'.val.toNat = 48 := rfl
  have h9 : '9'.val.toNat = 57 := rfl
  omega

theorem isNameChar_iff {c : Char} : isNameChar c = true ↔ Letter c ∨ c ∈ ['.', '_', '-'] := by
  rw [letter_iff]
  simp [isNameChar, or_assoc]

theorem validName_iff {s : String} : validName s = true ↔ FullMatch s := by
  unfold validName FullMatch
  cases hs : s.toList with
  | nil => simp
  | cons c cs =>
      rw [Bool.and_eq_true, List.all_eq_true]
      constructor
      · rintro ⟨hc, hcs⟩
        refine ⟨c, cs, rfl, letter_iff.mpr hc, fun d hd => ?_⟩
        have hd := hcs d hd
        rw [Bool.or_eq_true, decide_eq_true_eq] at hd
        exact hd.imp_left letter_iff.mpr
      · rintro ⟨d, ds, heq, hd, hds⟩
        obtain ⟨rfl, rfl⟩ := List.cons.inj heq
        refine ⟨letter_iff.mp hd, fun e he => ?_⟩
        rw [Bool.or_eq_true, decide_eq_true_eq]
        exact (hds e he).imp_left letter_iff.mp

-- The dollar sign lets the regular expression of the store end before a newline.
theorem nameTailMatches_iff {cs : List Char} : nameTailMatches cs = true ↔
    (∀ c ∈ cs, isNameChar c = true) ∨
      ∃ front, cs = front ++ ['\n'] ∧ ∀ c ∈ front, isNameChar c = true := by
  induction cs with
  | nil => simp [nameTailMatches]
  | cons c cs ih =>
      have hnewline : isNameChar '\n' = false := by decide
      unfold nameTailMatches
      by_cases hc : isNameChar c = true
      · rw [if_pos hc, ih]
        constructor
        · rintro (h | ⟨front, rfl, hfront⟩)
          · exact Or.inl (List.forall_mem_cons.mpr ⟨hc, h⟩)
          · exact Or.inr ⟨c :: front, rfl, List.forall_mem_cons.mpr ⟨hc, hfront⟩⟩
        · rintro (h | ⟨front, heq, hfront⟩)
          · exact Or.inl (List.forall_mem_cons.mp h).2
          · cases front with
            | nil =>
                obtain ⟨rfl, -⟩ := List.cons.inj heq
                rw [hnewline] at hc
                cases hc
            | cons d front =>
                obtain ⟨-, rfl⟩ := List.cons.inj heq
                exact Or.inr ⟨front, rfl, (List.forall_mem_cons.mp hfront).2⟩
      · rw [if_neg hc, Bool.and_eq_true, beq_iff_eq, List.isEmpty_iff]
        constructor
        · rintro ⟨rfl, rfl⟩
          exact Or.inr ⟨[], rfl, List.forall_mem_nil _⟩
        · rintro (h | ⟨front, heq, hfront⟩)
          · exact absurd (h c List.mem_cons_self) hc
          · cases front with
            | nil => exact ⟨(List.cons.inj heq).1, (List.cons.inj heq).2⟩
            | cons d front =>
                obtain ⟨rfl, -⟩ := List.cons.inj heq
                exact absurd (hfront _ List.mem_cons_self) hc

theorem fullMatch_iff {s : String} : FullMatch s ↔
    ∃ c cs, s.toList = c :: cs ∧ isNameStart c = true ∧ ∀ d ∈ cs, isNameChar d = true := by
  unfold FullMatch isNameStart
  simp only [letter_iff, isNameChar_iff]

theorem nameMatches_iff {s : String} : nameMatches s = true ↔
    FullMatch s ∨ ∃ front, s = front ++ "\n" ∧ FullMatch front := by
  simp only [fullMatch_iff]
  unfold nameMatches
  constructor
  · intro h
    cases hs : s.toList with
    | nil =>
        rw [hs] at h
        cases h
    | cons c cs =>
        rw [hs] at h
        simp only [Bool.and_eq_true] at h
        obtain ⟨hc, htail⟩ := h
        obtain hall | ⟨front, rfl, hfront⟩ := nameTailMatches_iff.mp htail
        · exact Or.inl ⟨c, cs, rfl, hc, hall⟩
        · refine Or.inr ⟨String.ofList (c :: front), ?_, c, front, String.toList_ofList, hc, hfront⟩
          rw [← String.toList_inj, hs, String.toList_append, String.toList_ofList]
          rfl
  · rintro (⟨c, cs, hs, hc, hall⟩ | ⟨front, rfl, c, cs, hs, hc, hall⟩)
    · rw [hs]
      simp only [Bool.and_eq_true]
      exact ⟨hc, nameTailMatches_iff.mpr (Or.inl hall)⟩
    · rw [String.toList_append, hs]
      simp only [List.cons_append, Bool.and_eq_true]
      exact ⟨hc, nameTailMatches_iff.mpr (Or.inr ⟨cs, rfl, hall⟩)⟩

-- No name ends with a newline.
theorem not_fullMatch_newline (front : String) : ¬FullMatch (front ++ "\n") := by
  rw [fullMatch_iff]
  rintro ⟨c, cs, hs, hc, hcs⟩
  have hmem : '\n' ∈ c :: cs := by
    rw [← hs, String.toList_append]
    exact List.mem_append_right _ List.mem_cons_self
  obtain rfl | hmem := List.mem_cons.mp hmem
  · cases hc
  · exact absurd (hcs _ hmem) (by decide)

end Classes

theorem isOk_new (type : NameType) (s : String) : (Name.new type s).isOk = validName s := by
  unfold Name.new
  split
  · rename_i h
    rw [h]
    rfl
  · rename_i h
    rw [Bool.not_eq_true] at h
    rw [h]
    rfl

theorem isOk_validateName {β : Type} (kind s : String) (w : World β) :
    ((validateName kind s : Run β String) w).1.isOk = nameMatches s := by
  cases h : nameMatches s with
  | true => simp [validateName, raiseIf, h]; rfl
  | false => simp [validateName, raiseIf, h]; rfl

-- Both sides accept the documented names and no others, unless the text is such a name and a
-- newline: that one the store alone accepts.
theorem names_agree_iff {β : Type} (type : NameType) (kind s : String) (w : World β) :
    ((Name.new type s).isOk = ((validateName kind s : Run β String) w).1.isOk ∧
        ((Name.new type s).isOk = true ↔ FullMatch s) ∧
        (((validateName kind s : Run β String) w).1.isOk = true ↔ FullMatch s)) ↔
      ¬∃ front, s = front ++ "\n" ∧ FullMatch front := by
  rw [isOk_new, isOk_validateName, validName_iff, nameMatches_iff]
  constructor
  · rintro ⟨-, -, hstore⟩ ⟨front, rfl, hfront⟩
    exact not_fullMatch_newline front (hstore.mp (Or.inr ⟨front, rfl, hfront⟩))
  · intro hnone
    refine ⟨?_, Iff.rfl, ?_⟩
    · rw [Bool.eq_iff_iff, validName_iff, nameMatches_iff, or_iff_left hnone]
    · rw [or_iff_left hnone]

-- A disk name with a newline behind it.
theorem newline_accepted :
    ¬∀ (type : NameType) (kind s : String) (w : World Blob),
      (Name.new type s).isOk = ((validateName kind s : Run Blob String) w).1.isOk := by
  intro h
  have hroot := h .diskName "disk" "root\n" (Memory.world [])
  rw [isOk_new, isOk_validateName] at hroot
  exact absurd hroot (by decide)

end VMForge.Core
