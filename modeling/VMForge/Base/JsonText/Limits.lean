import VMForge.Base.JsonText

namespace VMForge.JsonText

variable {φ : Type} (F : Floats φ) {digits : Option Nat}

section Within

variable {α β : Type}

-- What `x` returns, `y` returns as well.
def Within (x y : Except LoadError α) : Prop := ∀ r, x = .ok r → y = .ok r

theorem Within.refl (x : Except LoadError α) : Within x x := fun _ h => h

theorem Within.error (e : LoadError) (y : Except LoadError α) : Within (.error e) y :=
  fun _ h => nomatch h

theorem Within.ite {c : Prop} [Decidable c] {x x' y y' : Except LoadError α} (h : c → Within x y)
    (h' : ¬c → Within x' y') : Within (if c then x else x') (if c then y else y') := by
  by_cases hc : c
  · rw [if_pos hc, if_pos hc]
    exact h hc
  · rw [if_neg hc, if_neg hc]
    exact h' hc

theorem Within.map {x y : Except LoadError α} (h : Within x y) (f : α → β) :
    Within (x.map f) (y.map f) := by
  cases x with
  | error e => exact .error e _
  | ok a =>
      rw [h a rfl]
      exact .refl _

end Within

theorem scanNumber_unlimited (cs : List Nat) :
    Within (scanNumber F digits cs) (scanNumber F none cs) := by
  unfold scanNumber
  split
  · refine .ite (fun _ => .error _ _) fun _ => .ite (fun _ => ?_) fun _ => .refl _
    rw [if_pos (show fewDigits none _ = true from rfl)]
    split
    · exact .refl _
    · exact .error _ _

-- A limit refuses texts, and changes none.
theorem scan_unlimited (fuel : Nat) :
    (∀ room cs, Within (scan F digits fuel room cs) (scan F none fuel none cs)) ∧
    (∀ room cs, Within (scanItems F digits fuel room cs) (scanItems F none fuel none cs)) ∧
    ∀ room cs, Within (scanFields F digits fuel room cs) (scanFields F none fuel none cs) := by
  induction fuel with
  | zero =>
      refine ⟨fun room cs => ?_, fun room cs => ?_, fun room cs => ?_⟩
      · rw [scan]
        exact .error _ _
      · rw [scanItems]
        exact .error _ _
      · rw [scanFields]
        exact .error _ _
  | succ fuel ih =>
      obtain ⟨ihscan, ihitems, ihfields⟩ := ih
      refine ⟨fun room cs => ?_, fun room cs => ?_, fun room cs => ?_⟩
      · cases cs with
        | nil => exact .refl _
        | cons c cs =>
            rw [scan, scan]
            refine .ite (fun _ => .refl _) fun _ => .ite (fun _ => ?_) fun _ =>
              .ite (fun _ => ?_) fun _ => ?_
            · cases enter room with
              | none => exact .error _ _
              | some room =>
                  cases skipSpace cs with
                  | nil => exact .error _ _
                  | cons d rest => exact .ite (fun _ => .refl _) fun _ => (ihitems _ _).map _
            · cases enter room with
              | none => exact .error _ _
              | some room =>
                  cases skipSpace cs with
                  | nil => exact .error _ _
                  | cons d rest => exact .ite (fun _ => .refl _) fun _ => (ihfields _ _).map _
            · cases scanConstant F (c :: cs) with
              | some r => exact .refl _
              | none => exact scanNumber_unlimited F _
      · rw [scanItems, scanItems]
        cases hscan : scan F digits fuel room cs with
        | error e => exact .error e _
        | ok p =>
            obtain ⟨v, rest⟩ := p
            rw [ihscan _ _ _ hscan]
            dsimp only
            cases skipSpace rest with
            | nil => exact .error _ _
            | cons c rest =>
                exact .ite (fun _ => .refl _) fun _ =>
                  .ite (fun _ => (ihitems _ _).map _) fun _ => .error _ _
      · cases cs with
        | nil => exact .refl _
        | cons q cs =>
            rw [scanFields, scanFields]
            refine .ite (fun _ => .error _ _) fun _ => ?_
            cases scanString cs with
            | none => exact .error _ _
            | some key =>
                obtain ⟨k, rest⟩ := key
                dsimp only
                cases skipSpace rest with
                | nil => exact .error _ _
                | cons c rest =>
                    refine .ite (fun _ => .error _ _) fun _ => ?_
                    cases hscan : scan F digits fuel room (skipSpace rest) with
                    | error e => exact .error e _
                    | ok p =>
                        obtain ⟨v, rest⟩ := p
                        rw [ihscan _ _ _ hscan]
                        dsimp only
                        cases skipSpace rest with
                        | nil => exact .error _ _
                        | cons c rest =>
                            exact .ite (fun _ => .refl _) fun _ =>
                              .ite (fun _ => (ihfields _ _).map _) fun _ => .error _ _

theorem loads_unlimited {limits : Limits} {cs : List Nat} {v : Value φ}
    (h : loads F limits cs = .ok v) : loads F .none cs = .ok v := by
  unfold loads at h ⊢
  cases hscan : scan F limits.digits (cs.length + 1) limits.readDepth (skipSpace cs) with
  | error e =>
      rw [hscan] at h
      cases h
  | ok p =>
      rw [hscan] at h
      have hfree : scan F Limits.none.digits (cs.length + 1) Limits.none.readDepth (skipSpace cs) =
          .ok p := (scan_unlimited F _).1 _ _ p hscan
      rw [hfree]
      exact h

mutual

-- Without limits every document can be written.
theorem fits_none : ∀ v : Value φ, fits none none v = true
  | .null => rfl
  | .bool _ => rfl
  | .int _ => rfl
  | .float _ => rfl
  | .str _ => rfl
  | .arr items => by
      rw [fits]
      exact fitsItems_none items
  | .obj fields => by
      rw [fits]
      exact fitsFields_none fields

theorem fitsItems_none : ∀ items : List (Value φ), fitsItems none none items = true
  | [] => rfl
  | v :: vs => by rw [fitsItems, fits_none v, fitsItems_none vs]; rfl

theorem fitsFields_none : ∀ fields : List (PyStr × Value φ), fitsFields none none fields = true
  | [] => rfl
  | (_, v) :: fs => by rw [fitsFields, fits_none v, fitsFields_none fs]; rfl

end

end VMForge.JsonText
