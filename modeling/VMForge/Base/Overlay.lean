import Mathlib.Logic.Basic
import Mathlib.Logic.Relation

namespace VMForge

-- What a reader of a block device sees: its size, and its bytes, zero from there on.
@[ext] structure Content where
  size : Nat
  byte : Nat → UInt8
  beyond : ∀ o, size ≤ o → byte o = 0

def Content.empty : Content := ⟨0, fun _ => 0, fun _ _ => rfl⟩

-- One copy-on-write layer: the bytes it holds itself, and the layer that provides the rest.
structure Layer (ρ : Type) where
  size : Nat
  data : Nat → Option UInt8
  backing : Option ρ

namespace Layer

variable {ρ : Type}

-- A layer on top of what its backing layer reads.
def onto (l : Layer ρ) (below : Content) : Content where
  size := l.size
  byte o := if o < l.size then (l.data o).getD (below.byte o) else 0
  beyond _ h := if_neg (Nat.not_lt.mpr h)

-- What a layer shows does not depend on how its backing layer is named.
theorem onto_congr {ρ' : Type} {l : Layer ρ} {l' : Layer ρ'} (hsize : l'.size = l.size)
    (hdata : l'.data = l.data) (below : Content) : l'.onto below = l.onto below := by
  apply Content.ext hsize
  funext o
  simp only [onto, hsize, hdata]

-- A layer that holds nothing and is as large as its backing layer is invisible.
theorem onto_eq_of_hollow (l : Layer ρ) (below : Content) (hdata : ∀ o, l.data o = none)
    (hsize : l.size = below.size) : l.onto below = below := by
  apply Content.ext hsize
  funext o
  simp only [onto, hdata, Option.getD_none, hsize]
  split
  · rfl
  · rename_i h
    exact (below.beyond o (Nat.not_lt.mp h)).symm

end Layer

-- The content a chain of layers shows, by following backing references to the end.
inductive Resolves {ρ : Type} (layer : ρ → Option (Layer ρ)) : ρ → Content → Prop where
  | flat {r l} (hl : layer r = some l) (hb : l.backing = none) :
      Resolves layer r (l.onto .empty)
  | onto {r l b c} (hl : layer r = some l) (hb : l.backing = some b)
      (hc : Resolves layer b c) : Resolves layer r (l.onto c)

-- `b` is the backing reference of `r`.
def BackedBy {ρ : Type} (layer : ρ → Option (Layer ρ)) (r b : ρ) : Prop :=
  ∃ l, layer r = some l ∧ l.backing = some b

namespace Resolves

variable {ρ : Type} {layer layer' : ρ → Option (Layer ρ)}

theorem layer_eq {r : ρ} {c : Content} (h : Resolves layer r c) : ∃ l, layer r = some l := by
  cases h with
  | flat hl _ => exact ⟨_, hl⟩
  | onto hl _ _ => exact ⟨_, hl⟩

theorem det {r : ρ} {c c' : Content} (h : Resolves layer r c) (h' : Resolves layer r c') :
    c = c' := by
  induction h generalizing c' with
  | flat hl hb =>
      cases h' with
      | flat hl' _ =>
          obtain rfl := Option.some.inj (hl.symm.trans hl')
          rfl
      | onto hl' hb' _ =>
          obtain rfl := Option.some.inj (hl.symm.trans hl')
          simp [hb] at hb'
  | onto hl hb _ ih =>
      cases h' with
      | flat hl' hb' =>
          obtain rfl := Option.some.inj (hl.symm.trans hl')
          simp [hb] at hb'
      | onto hl' hb' hc' =>
          obtain rfl := Option.some.inj (hl.symm.trans hl')
          obtain rfl := Option.some.inj (hb.symm.trans hb')
          rw [ih hc']

-- What a resolved layer shows, put together from what it is on.
theorem onto_eq {r : ρ} {l : Layer ρ} {c : Content} (h : Resolves layer r c) (hl : layer r = some l) :
    (l.backing = none → l.onto .empty = c) ∧
      ∀ s below, l.backing = some s → Resolves layer s below → l.onto below = c :=
  ⟨fun hb => det (.flat hl hb) h, fun _ _ hb hs => det (.onto hl hb hs) h⟩

-- The backing layer of a resolved layer is resolved too.
theorem backing {r b : ρ} {c : Content} (h : Resolves layer r c) (hb : BackedBy layer r b) :
    ∃ c', Resolves layer b c' := by
  obtain ⟨l, hl, hlb⟩ := hb
  cases h with
  | flat hl' hb' =>
      obtain rfl := Option.some.inj (hl.symm.trans hl')
      simp [hlb] at hb'
  | onto hl' hb' hc =>
      obtain rfl := Option.some.inj (hl.symm.trans hl')
      obtain rfl := Option.some.inj (hlb.symm.trans hb')
      exact ⟨_, hc⟩

-- What is read through a set of layers closed under backing depends on these alone.
theorem of_closed {S : ρ → Prop} {r : ρ} {c : Content} (h : Resolves layer r c)
    (hr : S r) (hclosed : ∀ s b, S s → BackedBy layer s b → S b)
    (hsame : ∀ s, S s → layer' s = layer s) : Resolves layer' r c := by
  induction h with
  | @flat r l hl hb => exact .flat ((hsame r hr).trans hl) hb
  | @onto r l b c hl hb hc ih =>
      exact .onto ((hsame r hr).trans hl) hb (ih (hclosed r b hr ⟨l, hl, hb⟩))

-- A resolved layer is on no cycle of backing references.
theorem acyclic {r : ρ} {c : Content} (h : Resolves layer r c) :
    ¬Relation.TransGen (BackedBy layer) r r := by
  induction h with
  | @flat r l hl hb =>
      intro hcycle
      obtain ⟨b, ⟨l', hl', hb'⟩, -⟩ := Relation.TransGen.head'_iff.mp hcycle
      obtain rfl := Option.some.inj (hl.symm.trans hl')
      simp [hb] at hb'
  | @onto r l b c hl hb hc ih =>
      intro hcycle
      obtain ⟨b', ⟨l', hl', hb'⟩, hrest⟩ := Relation.TransGen.head'_iff.mp hcycle
      obtain rfl := Option.some.inj (hl.symm.trans hl')
      obtain rfl := Option.some.inj (hb.symm.trans hb')
      exact ih (Relation.TransGen.tail' hrest ⟨l, hl, hb⟩)

-- What is read through a set of layers closed under backing stays, where each of them is the same or
-- still reads what it read.
theorem of_kept {S : ρ → Prop} {r : ρ} {c : Content} (h : Resolves layer r c) (hr : S r)
    (hclosed : ∀ s b, S s → BackedBy layer s b → S b)
    (hstep : ∀ s, S s → layer' s = layer s ∨ ∀ c, Resolves layer s c → Resolves layer' s c) :
    Resolves layer' r c := by
  induction h with
  | @flat r l hl hb =>
      rcases hstep r hr with he | hp
      · exact .flat (he.trans hl) hb
      · exact hp _ (.flat hl hb)
  | @onto r l b c hl hb hc ih =>
      rcases hstep r hr with he | hp
      · exact .onto (he.trans hl) hb (ih (hclosed r b hr ⟨l, hl, hb⟩))
      · exact hp _ (.onto hl hb hc)

-- The same layer, on what still reads as it did, reads as it did.
theorem of_top {r s : ρ} {c : Content} (h : Resolves layer r c) (hl : layer' s = layer r)
    (hb : ∀ b c, BackedBy layer r b → Resolves layer b c → Resolves layer' b c) :
    Resolves layer' s c := by
  cases h with
  | flat hl' hb' => exact .flat (hl.trans hl') hb'
  | onto hl' hb' hc => exact .onto (hl.trans hl') hb' (hb _ _ ⟨_, hl', hb'⟩ hc)

-- The layers under a resolved one are resolved.
theorem under {r s : ρ} {c : Content} (h : Resolves layer r c)
    (hrs : Relation.ReflTransGen (BackedBy layer) r s) : ∃ c', Resolves layer s c' := by
  induction hrs with
  | refl => exact ⟨c, h⟩
  | tail _ hb ih =>
      obtain ⟨c', hc'⟩ := ih
      exact hc'.backing hb

-- Layers that hold the same, on layers that are related, read the same.
theorem transport {ρ' : Type} {layer' : ρ' → Option (Layer ρ')} {R : ρ → ρ' → Prop}
    (hR : ∀ r r' l, R r r' → layer r = some l → ∃ l', layer' r' = some l' ∧ l'.size = l.size ∧
      l'.data = l.data ∧ Option.Rel R l.backing l'.backing)
    {r : ρ} {c : Content} (h : Resolves layer r c) {r' : ρ'} (hr : R r r') :
    Resolves layer' r' c := by
  induction h generalizing r' with
  | @flat r l hl hb =>
      obtain ⟨l', hl', hsize, hdata, hback⟩ := hR r r' l hr hl
      rw [hb] at hback
      generalize hb' : l'.backing = backing' at hback
      cases hback
      rw [← l.onto_congr hsize hdata]
      exact .flat hl' hb'
  | @onto r l b c hl hb hc ih =>
      obtain ⟨l', hl', hsize, hdata, hback⟩ := hR r r' l hr hl
      rw [hb] at hback
      generalize hb' : l'.backing = backing' at hback
      cases hback with
      | some hrel =>
          rw [← l.onto_congr hsize hdata]
          exact .onto hl' hb' (ih hrel)

-- A layer that is put on another one below it, and takes over what it loses by that, reads as before.
theorem repointed {s : ρ} {l' : Layer ρ} {c : Content} (h : Resolves layer s c)
    (hl' : layer' s = some l') (hflat : l'.backing = none → l'.onto .empty = c)
    (honto : ∀ r below, l'.backing = some r → Resolves layer r below → l'.onto below = c)
    (hbelow : ∀ r, l'.backing = some r → Relation.TransGen (BackedBy layer) s r)
    (hsame : ∀ t, t ≠ s → Relation.TransGen (BackedBy layer) s t → layer' t = layer t) :
    Resolves layer' s c := by
  cases hb : l'.backing with
  | none =>
      rw [← hflat hb]
      exact .flat hl' hb
  | some r =>
      have hsr := hbelow r hb
      obtain ⟨below, hr⟩ := h.under hsr.to_reflTransGen
      rw [← honto r below hb hr]
      refine .onto hl' hb (hr.of_closed (S := fun t => Relation.ReflTransGen (BackedBy layer) r t)
        .refl (fun t b ht hb => ht.tail hb) fun t ht => hsame t ?_ (hsr.trans_left ht))
      rintro rfl
      exact h.acyclic (hsr.trans_left ht)

end Resolves

section Contents

variable {ρ : Type} (layer : ρ → Option (Layer ρ))

open Classical in
-- What is read at `r`, if its chain of layers comes to an end.
noncomputable def contentAt (r : ρ) : Option Content :=
  if h : ∃ c, Resolves layer r c then some h.choose else none

variable {layer} {layer' : ρ → Option (Layer ρ)}

theorem contentAt_eq_some {r : ρ} {c : Content} : contentAt layer r = some c ↔ Resolves layer r c := by
  unfold contentAt
  constructor
  · intro h
    split at h
    · rename_i hex
      rw [← Option.some.inj h]
      exact hex.choose_spec
    · cases h
  · intro h
    have hex : ∃ c, Resolves layer r c := ⟨c, h⟩
    rw [dif_pos hex, hex.choose_spec.det h]

theorem contentAt_of_none {r : ρ} (h : layer r = none) : contentAt layer r = none := by
  cases hc : contentAt layer r with
  | none => rfl
  | some c =>
      obtain ⟨l, hl⟩ := (contentAt_eq_some.mp hc).layer_eq
      rw [h] at hl
      cases hl

-- A layer that reads what it read, or is missing as before.
theorem contentAt_congr {r : ρ} (h : ∀ c, Resolves layer r c → Resolves layer' r c)
    (hnone : (∀ c, ¬Resolves layer r c) → layer' r = none) :
    contentAt layer' r = contentAt layer r := by
  by_cases hex : ∃ c, Resolves layer r c
  · obtain ⟨c, hc⟩ := hex
    rw [contentAt_eq_some.mpr hc, contentAt_eq_some.mpr (h c hc)]
  · rw [not_exists] at hex
    rw [contentAt_of_none (hnone hex)]
    cases hc : contentAt layer r with
    | none => rfl
    | some c => exact absurd (contentAt_eq_some.mp hc) (hex c)

end Contents

end VMForge
