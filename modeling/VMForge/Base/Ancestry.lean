import Mathlib.Data.List.Perm.Subperm
import Mathlib.Logic.Relation

namespace VMForge.Ancestry

open Relation

section Trails

variable {α : Type} {R : α → α → Prop} {nodes path : List α} {x y : α}

-- The nodes that are passed on the way to `x`, each once.
structure Trail (R : α → α → Prop) (nodes path : List α) (x : α) : Prop where
  nodup : path.Nodup
  within : ∀ y ∈ path, y ∈ nodes
  reached : ∀ y ∈ path, ReflTransGen R y x

theorem Trail.single (hx : x ∈ nodes) : Trail R nodes [x] x where
  nodup := by simp
  within := by
    intro y hy
    rwa [List.mem_singleton.mp hy]
  reached := by
    intro y hy
    rw [List.mem_singleton.mp hy]

-- Without cycles a trail never comes back.
theorem Trail.step (hacyclic : ∀ x, ¬TransGen R x x) (t : Trail R nodes path x) (hxy : R x y)
    (hy : y ∈ nodes) : Trail R nodes (y :: path) y where
  nodup := by
    refine List.nodup_cons.mpr ⟨fun hmem => ?_, t.nodup⟩
    exact hacyclic y (TransGen.tail' (t.reached y hmem) hxy)
  within := by
    intro z hz
    obtain rfl | hz := List.mem_cons.mp hz
    · exact hy
    · exact t.within z hz
  reached := by
    intro z hz
    obtain rfl | hz := List.mem_cons.mp hz
    · exact ReflTransGen.refl
    · exact (t.reached z hz).tail hxy

theorem Trail.length_le (t : Trail R nodes path x) : path.length ≤ nodes.length :=
  (t.nodup.subperm t.within).length_le

end Trails

variable {α : Type} {up : α → Option α} {nodes : List α} {x y a : α}

-- `a` is the parent of `x`.
def Parent (up : α → Option α) (x a : α) : Prop := up x = some a

theorem parent_unique : Relator.RightUnique (Parent up) := fun _ _ _ h h' =>
  Option.some.inj (h.symm.trans h')

-- Finitely many nodes, with their parents among them and no cycle.
structure Wooded (up : α → Option α) (nodes : List α) : Prop where
  nodup : nodes.Nodup
  closed : ∀ x ∈ nodes, ∀ a, up x = some a → a ∈ nodes
  acyclic : ∀ x, ¬TransGen (Parent up) x x

namespace Wooded

variable (h : Wooded up nodes)

include h

theorem acyclic_down (x : α) : ¬TransGen (Function.swap (Parent up)) x x := fun hx =>
  h.acyclic x (transGen_swap.mp hx)

-- Every node hangs on a root.
theorem exists_root (hx : x ∈ nodes) :
    ∃ r ∈ nodes, ReflTransGen (Parent up) x r ∧ up r = none := by
  have hclimb : ∀ fuel path y, Trail (Parent up) nodes path y → y ∈ nodes →
      nodes.length < fuel + path.length → ReflTransGen (Parent up) x y →
      ∃ r ∈ nodes, ReflTransGen (Parent up) x r ∧ up r = none := by
    intro fuel
    induction fuel with
    | zero =>
        intro path y t _ hfuel _
        have hlen := t.length_le
        omega
    | succ fuel ih =>
        intro path y t hy hfuel hxy
        cases hup : up y with
        | none => exact ⟨y, hy, hxy, hup⟩
        | some a =>
            have ha := h.closed y hy a hup
            refine ih (a :: path) a (t.step h.acyclic hup ha) ha ?_ (hxy.tail hup)
            rw [List.length_cons]
            omega
  refine hclimb (nodes.length + 1) [x] x (Trail.single hx) hx ?_ ReflTransGen.refl
  omega

-- A node does not stand above one that has the same parent.
theorem eq_of_siblings (hup : up x = up y) (hxy : ReflTransGen (Parent up) x y) : x = y := by
  obtain rfl | ⟨a, ha, hay⟩ := hxy.cases_head
  · rfl
  · have hya : Parent up y a := hup.symm.trans ha
    exact absurd (TransGen.tail' hay hya) (h.acyclic a)

-- No node hangs on two of them.
theorem disjoint_of_siblings {z : α} (hup : up x = up y) (hzx : ReflTransGen (Parent up) z x)
    (hzy : ReflTransGen (Parent up) z y) : x = y := by
  obtain hxy | hyx := ReflTransGen.total_of_right_unique parent_unique hzx hzy
  · exact h.eq_of_siblings hup hxy
  · exact (h.eq_of_siblings hup.symm hyx).symm

end Wooded

end VMForge.Ancestry
