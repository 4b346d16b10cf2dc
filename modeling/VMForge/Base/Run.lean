import Mathlib.Data.List.Basic

namespace VMForge

-- Runs of a system that takes one turn after another.
section Runs

variable {σ τ : Type} (step : σ → τ → σ)

-- The state a run reaches.
def after (s : σ) (turns : List τ) : σ := turns.foldl step s

-- Every turn of the run meets `C` in the state it starts from.
def Along (C : σ → τ → Prop) : σ → List τ → Prop
  | _, [] => True
  | s, t :: turns => C s t ∧ Along C (step s t) turns

instance alongDecidable {C : σ → τ → Prop} [∀ s t, Decidable (C s t)] :
    (s : σ) → (turns : List τ) → Decidable (Along step C s turns)
  | _, [] => isTrue trivial
  | s, t :: turns =>
      have := alongDecidable (C := C) (step s t) turns
      inferInstanceAs (Decidable (C s t ∧ Along step C (step s t) turns))

variable {step} {C D : σ → τ → Prop} {s : σ}

@[simp] theorem after_nil : after step s [] = s := rfl

@[simp] theorem after_cons {t : τ} {turns : List τ} :
    after step s (t :: turns) = after step (step s t) turns := rfl

theorem after_append {turns turns' : List τ} :
    after step s (turns ++ turns') = after step (after step s turns) turns' := by
  simp only [after, List.foldl_append]

theorem after_concat {turns : List τ} {t : τ} :
    after step s (turns ++ [t]) = step (after step s turns) t := by
  simp only [after, List.foldl_append, List.foldl_cons, List.foldl_nil]

@[simp] theorem along_nil : Along step C s [] := trivial

@[simp] theorem along_cons {t : τ} {turns : List τ} :
    Along step C s (t :: turns) ↔ C s t ∧ Along step C (step s t) turns := Iff.rfl

theorem along_append {turns turns' : List τ} :
    Along step C s (turns ++ turns') ↔
      Along step C s turns ∧ Along step C (after step s turns) turns' := by
  induction turns generalizing s with
  | nil => simp
  | cons t turns ih => simp only [List.cons_append, along_cons, after_cons, ih, and_assoc]

-- What one turn keeps, as long as it meets the condition, the whole run keeps.
theorem Along.invariant (Inv : σ → Prop) {turns : List τ} (h : Along step C s turns)
    (hstart : Inv s) (hstep : ∀ s t, Inv s → C s t → Inv (step s t)) :
    Inv (after step s turns) := by
  induction turns generalizing s with
  | nil => exact hstart
  | cons t turns ih => exact ih h.2 (hstep s t hstart h.1)

-- What the states of a run have in common holds along it.
theorem Along.strengthen (Inv : σ → Prop) {turns : List τ} (h : Along step C s turns)
    (hstart : Inv s) (hstep : ∀ s t, Inv s → C s t → Inv (step s t))
    (hD : ∀ s t, Inv s → C s t → D s t) : Along step D s turns := by
  induction turns generalizing s with
  | nil => trivial
  | cons t turns ih => exact ⟨hD s t hstart h.1, ih h.2 (hstep s t hstart h.1)⟩

theorem invariant_of_steps (Inv : σ → Prop) (turns : List τ) (hstart : Inv s)
    (hstep : ∀ s t, Inv s → Inv (step s t)) : Inv (after step s turns) := by
  have hall : Along step (fun _ _ => True) s turns := by
    induction turns generalizing s with
    | nil => trivial
    | cons t turns ih => exact ⟨trivial, ih (hstep s t hstart)⟩
  exact hall.invariant Inv hstart fun s t h _ => hstep s t h

-- Where a turn keeps the invariant exactly under the condition, the invariant holds in every state
-- of a run exactly if each of its turns meets the condition.
theorem forall_prefix_iff_along (Inv : σ → Prop) (turns : List τ) (hstart : Inv s)
    (hstep : ∀ s t, Inv s → (Inv (step s t) ↔ C s t)) :
    (∀ pre, pre <+: turns → Inv (after step s pre)) ↔ Along step C s turns := by
  induction turns generalizing s with
  | nil =>
      refine iff_of_true (fun pre hpre => ?_) trivial
      rw [List.prefix_nil.mp hpre]
      exact hstart
  | cons t turns ih =>
      rw [along_cons]
      constructor
      · intro h
        have hfirst : Inv (step s t) := h [t] ⟨turns, rfl⟩
        refine ⟨(hstep s t hstart).mp hfirst, (ih hfirst).mp fun pre hpre => ?_⟩
        exact h (t :: pre) (List.cons_prefix_cons.mpr ⟨rfl, hpre⟩)
      · rintro ⟨ht, hrest⟩ pre hpre
        have hfirst := (hstep s t hstart).mpr ht
        cases pre with
        | nil => exact hstart
        | cons t' pre =>
            obtain ⟨rfl, hpre'⟩ := List.cons_prefix_cons.mp hpre
            exact (ih hfirst).mpr hrest pre hpre'

end Runs

end VMForge
