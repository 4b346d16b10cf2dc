import Mathlib.Logic.Function.Basic
import VMForge.Base.Run

namespace VMForge

-- Cells with the value each holds now, and the values of it that were saved under names.
@[ext] structure Versions (δ ν γ : Type) where
  current : δ → Option γ
  saved : δ → ν → Option γ

namespace Versions

variable {δ ν γ : Type}

inductive Act (δ ν γ : Type) where
  | idle
  | write (d : δ) (x : Option γ)
  | save (d : δ) (n : ν)
  | reload (d : δ) (n : ν)
  | forget (d : δ) (n : ν)
  | drop (d : δ)

-- A saved value is never saved over, and only what is there is saved or reloaded.
def Act.Enabled : Act δ ν γ → Versions δ ν γ → Prop
  | .save d n, v => v.saved d n = none ∧ v.current d ≠ none
  | .reload d n, v => v.saved d n ≠ none
  | _, _ => True

-- The act takes the value away that was saved of `d` as `n`.
def Act.Erases (d : δ) (n : ν) : Act δ ν γ → Prop
  | .forget d' n' => d' = d ∧ n' = n
  | .drop d' => d' = d
  | _ => False

-- The act is one on the cell `d`.
def Act.About (d : δ) : Act δ ν γ → Prop
  | .idle => False
  | .write d' _ | .save d' _ | .reload d' _ | .forget d' _ | .drop d' => d' = d

-- Two states that agree on the cell `d`.
structure AgreeAt (d : δ) (v v' : Versions δ ν γ) : Prop where
  current : v.current d = v'.current d
  saved : v.saved d = v'.saved d

section Apply

variable [DecidableEq δ] [DecidableEq ν]

instance (d : δ) (a : Act δ ν γ) : Decidable (a.About d) := by
  unfold Act.About
  split <;> infer_instance

def Act.apply : Act δ ν γ → Versions δ ν γ → Versions δ ν γ
  | .idle, v => v
  | .write d x, v => { v with current := Function.update v.current d x }
  | .save d n, v =>
      { v with saved := Function.update v.saved d (Function.update (v.saved d) n (v.current d)) }
  | .reload d n, v => { v with current := Function.update v.current d (v.saved d n) }
  | .forget d n, v =>
      { v with saved := Function.update v.saved d (Function.update (v.saved d) n none) }
  | .drop d, v => ⟨Function.update v.current d none, Function.update v.saved d fun _ => none⟩

variable {a : Act δ ν γ} {v v' : Versions δ ν γ} {d : δ} {n : ν} {c : γ}

-- What was saved stays as it was saved, whatever is done but to erase it.
theorem Act.keeps_saved (hsaved : v.saved d n = some c) (ha : a.Enabled v) (hkeep : ¬a.Erases d n) :
    (a.apply v).saved d n = some c := by
  cases a with
  | idle => exact hsaved
  | write d' x => exact hsaved
  | reload d' n' => exact hsaved
  | save d' n' =>
      by_cases hd : d = d'
      · subst hd
        have hn : n ≠ n' := by
          rintro rfl
          rw [ha.1] at hsaved
          cases hsaved
        simp only [Act.apply, Function.update_self, Function.update_of_ne hn, hsaved]
      · simp only [Act.apply, Function.update_of_ne hd, hsaved]
  | forget d' n' =>
      by_cases hd : d = d'
      · subst hd
        have hn : n ≠ n' := fun hn => hkeep ⟨rfl, hn.symm⟩
        simp only [Act.apply, Function.update_self, Function.update_of_ne hn, hsaved]
      · simp only [Act.apply, Function.update_of_ne hd, hsaved]
  | drop d' =>
      have hd : d ≠ d' := fun hd => hkeep hd.symm
      simp only [Act.apply, Function.update_of_ne hd, hsaved]

theorem Act.save_saved : ((Act.save d n : Act δ ν γ).apply v).saved d n = v.current d := by
  simp only [Act.apply, Function.update_self]

theorem Act.reload_current : ((Act.reload d n : Act δ ν γ).apply v).current d = v.saved d n := by
  simp only [Act.apply, Function.update_self]

-- Where two states differ in one place, the later one is the earlier one with that place written.
theorem eq_write (hcurrent : ∀ d', d' ≠ d → v'.current d' = v.current d') (hsaved : v'.saved = v.saved) :
    v' = (Act.write d (v'.current d)).apply v := by
  apply Versions.ext
  · funext d'
    by_cases hd : d' = d
    · rw [hd]
      simp only [Act.apply, Function.update_self]
    · rw [hcurrent d' hd]
      simp only [Act.apply, Function.update_of_ne hd]
  · exact hsaved

theorem eq_saved (hcurrent : v'.current = v.current) {x : Option γ} (hn : v'.saved d n = x)
    (hother : ∀ d' n', (d', n') ≠ (d, n) → v'.saved d' n' = v.saved d' n') :
    v' = { v with saved := Function.update v.saved d (Function.update (v.saved d) n x) } := by
  apply Versions.ext
  · exact hcurrent
  · funext d' n'
    by_cases hd : d' = d
    · subst hd
      by_cases hn' : n' = n
      · subst hn'
        simp only [Function.update_self, hn]
      · rw [hother d' n' fun he => hn' (Prod.mk.inj he).2]
        simp only [Function.update_self, Function.update_of_ne hn']
    · rw [hother d' n' fun he => hd (Prod.mk.inj he).1]
      simp only [Function.update_of_ne hd]

theorem eq_save (hcurrent : v'.current = v.current) (hn : v'.saved d n = v.current d)
    (hother : ∀ d' n', (d', n') ≠ (d, n) → v'.saved d' n' = v.saved d' n') :
    v' = (Act.save d n).apply v :=
  eq_saved hcurrent hn hother

theorem eq_forget (hcurrent : v'.current = v.current) (hn : v'.saved d n = none)
    (hother : ∀ d' n', (d', n') ≠ (d, n) → v'.saved d' n' = v.saved d' n') :
    v' = (Act.forget d n).apply v :=
  eq_saved hcurrent hn hother

theorem eq_reload (hd : v'.current d = v.saved d n)
    (hcurrent : ∀ d', d' ≠ d → v'.current d' = v.current d') (hsaved : v'.saved = v.saved) :
    v' = (Act.reload d n).apply v := by
  have hwrite := eq_write hcurrent hsaved
  rwa [hd] at hwrite

theorem eq_drop (hd : v'.current d = none) (hn : ∀ n, v'.saved d n = none)
    (hcurrent : ∀ d', d' ≠ d → v'.current d' = v.current d')
    (hsaved : ∀ d' n', d' ≠ d → v'.saved d' n' = v.saved d' n') : v' = (Act.drop d).apply v := by
  apply Versions.ext
  · funext d'
    by_cases he : d' = d
    · rw [he, hd]
      simp only [Act.apply, Function.update_self]
    · rw [hcurrent d' he]
      simp only [Act.apply, Function.update_of_ne he]
  · funext d' n'
    by_cases he : d' = d
    · rw [he, hn]
      simp only [Act.apply, Function.update_self]
    · rw [hsaved d' n' he]
      simp only [Act.apply, Function.update_of_ne he]

-- An act on another cell leaves this one alone.
theorem agreeAt_apply_other (ha : ¬a.About d) : AgreeAt d (a.apply v) v := by
  cases a with
  | idle => exact ⟨rfl, rfl⟩
  | write d' x => exact ⟨Function.update_of_ne (Ne.symm ha) _ _, rfl⟩
  | save d' n => exact ⟨rfl, Function.update_of_ne (Ne.symm ha) _ _⟩
  | reload d' n => exact ⟨Function.update_of_ne (Ne.symm ha) _ _, rfl⟩
  | forget d' n => exact ⟨rfl, Function.update_of_ne (Ne.symm ha) _ _⟩
  | drop d' => exact ⟨Function.update_of_ne (Ne.symm ha) _ _, Function.update_of_ne (Ne.symm ha) _ _⟩

-- What an act does to a cell depends on that cell alone.
theorem AgreeAt.apply (h : AgreeAt d v v') : AgreeAt d (a.apply v) (a.apply v') := by
  by_cases ha : a.About d
  · cases a with
    | idle => exact h
    | write d' x =>
        obtain rfl : d' = d := ha
        exact ⟨by simp only [Act.apply, Function.update_self], h.saved⟩
    | save d' n =>
        obtain rfl : d' = d := ha
        exact ⟨h.current, by simp only [Act.apply, Function.update_self, h.saved, h.current]⟩
    | reload d' n =>
        obtain rfl : d' = d := ha
        exact ⟨by simp only [Act.apply, Function.update_self, h.saved], h.saved⟩
    | forget d' n =>
        obtain rfl : d' = d := ha
        exact ⟨h.current, by simp only [Act.apply, Function.update_self, h.saved]⟩
    | drop d' =>
        obtain rfl : d' = d := ha
        exact ⟨by simp only [Act.apply, Function.update_self],
          by simp only [Act.apply, Function.update_self]⟩
  · have hv : AgreeAt d (a.apply v) v := agreeAt_apply_other ha
    have hv' : AgreeAt d (a.apply v') v' := agreeAt_apply_other ha
    exact ⟨hv.current.trans (h.current.trans hv'.current.symm), hv.saved.trans (h.saved.trans hv'.saved.symm)⟩

-- Of a history, a cell sees what is about it.
theorem AgreeAt.after (h : AgreeAt d v v') (acts : List (Act δ ν γ)) :
    AgreeAt d (VMForge.after (fun v a => Act.apply a v) v acts)
      (VMForge.after (fun v a => Act.apply a v) v' (acts.filter fun a => a.About d)) := by
  induction acts generalizing v v' with
  | nil => exact h
  | cons a acts ih =>
      by_cases ha : a.About d
      · rw [List.filter_cons_of_pos (by simpa using ha)]
        exact ih h.apply
      · rw [List.filter_cons_of_neg (by simpa using ha)]
        have hv : AgreeAt d (a.apply v) v := agreeAt_apply_other ha
        exact ih ⟨hv.current.trans h.current, hv.saved.trans h.saved⟩

end Apply

end Versions

end VMForge
