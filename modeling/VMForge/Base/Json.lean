import Mathlib.Data.List.Basic
import Mathlib.Data.List.Nodup
import Mathlib.Data.List.Sort
import Mathlib.Data.String.Basic

namespace VMForge

-- A JSON value as Python's `json` reads it. A float is known by the integer it equals, if
-- any. The fields of an object are in the order of the text, repeated keys included.
inductive Json where
  | null
  | bool (b : Bool)
  | int (i : Int)
  | float (integral : Option Int)
  | str (s : String)
  | arr (items : List Json)
  | obj (fields : List (String × Json))

namespace Json

abbrev Dict := List (String × Json)

-- `d[k] = v`
def setItem : Dict → String → Json → Dict
  | [], k, v => [(k, v)]
  | (k', v') :: rest, k, v =>
      if k' = k then (k, v) :: rest else (k', v') :: setItem rest k v

-- The dictionary of an object: a repeated key keeps its place and takes the later value.
def dict (fields : List (String × Json)) : Dict :=
  fields.foldl (fun d field => setItem d field.1 field.2) []

-- `d.get(k)`
def get : Dict → String → Option Json
  | [], _ => none
  | (k', v) :: rest, k => if k' = k then some v else get rest k

-- `sorted(d.items())`; the keys are distinct, so values are never compared.
def sortedItems (d : Dict) : Dict := d.insertionSort fun a b => a.1 ≤ b.1

-- `n == v` for an int `n`
def eqInt (n : Int) : Json → Bool
  | .bool b => n == (if b then 1 else 0)
  | .int i => n == i
  | .float integral => integral == some n
  | _ => false

-- `s == v` for a string `s`
def eqStr (s : String) : Json → Bool
  | .str t => s == t
  | _ => false

-- `v is None`
def isNone : Json → Bool
  | .null => true
  | _ => false

theorem eqStr_iff {s : String} {v : Json} : eqStr s v = true ↔ v = .str s := by
  cases v with
  | str t =>
      simp only [eqStr, beq_iff_eq, str.injEq]
      exact eq_comm
  | _ => simp [eqStr]

theorem mem_keys_setItem (d : Dict) (k j : String) (v : Json) :
    j ∈ (setItem d k v).map Prod.fst ↔ j = k ∨ j ∈ d.map Prod.fst := by
  induction d with
  | nil => simp [setItem]
  | cons kv rest ih =>
      obtain ⟨k', v'⟩ := kv
      by_cases hk : k' = k
      · subst hk
        simp [setItem]
      · simp only [setItem, hk, ite_false, List.map_cons, List.mem_cons, ih]
        tauto

theorem keys_setItem_nodup (d : Dict) (k : String) (v : Json)
    (h : (d.map Prod.fst).Nodup) : ((setItem d k v).map Prod.fst).Nodup := by
  induction d with
  | nil => simp [setItem]
  | cons kv rest ih =>
      obtain ⟨k', v'⟩ := kv
      simp only [List.map_cons, List.nodup_cons] at h
      by_cases hk : k' = k
      · subst hk
        simpa [setItem] using h
      · simp only [setItem, hk, ite_false, List.map_cons, List.nodup_cons]
        refine ⟨fun hm => ?_, ih h.2⟩
        rcases (mem_keys_setItem rest k k' v).mp hm with he | hm
        · exact hk he
        · exact h.1 hm

theorem keys_dict_nodup (fields : List (String × Json)) :
    ((dict fields).map Prod.fst).Nodup := by
  have hfold : ∀ (d : Dict), (d.map Prod.fst).Nodup →
      ((fields.foldl (fun d field => setItem d field.1 field.2) d).map Prod.fst).Nodup := by
    induction fields with
    | nil => exact fun _ h => h
    | cons field rest ih => exact fun d h => ih _ (keys_setItem_nodup d field.1 field.2 h)
  exact hfold [] (by simp)

theorem mem_setItem {d : Dict} {k : String} {v : Json} {kv : String × Json}
    (h : kv ∈ setItem d k v) : kv = (k, v) ∨ kv ∈ d := by
  induction d with
  | nil => exact Or.inl (List.mem_singleton.mp h)
  | cons head rest ih =>
      rw [setItem] at h
      split at h
      · exact (List.mem_cons.mp h).imp id (List.mem_cons_of_mem _)
      · rcases List.mem_cons.mp h with rfl | h
        · exact Or.inr List.mem_cons_self
        · exact (ih h).imp id (List.mem_cons_of_mem _)

theorem mem_dict {fields : List (String × Json)} {kv : String × Json} (h : kv ∈ dict fields) :
    kv ∈ fields := by
  have hfold : ∀ (rest d : Dict), kv ∈ rest.foldl (fun d field => setItem d field.1 field.2) d →
      kv ∈ d ∨ kv ∈ rest := by
    intro rest
    induction rest with
    | nil => exact fun _ h => Or.inl h
    | cons field rest ih =>
        intro d hmem
        rcases ih _ hmem with hd | hr
        · rcases mem_setItem hd with rfl | hd
          · exact Or.inr List.mem_cons_self
          · exact Or.inl hd
        · exact Or.inr (List.mem_cons_of_mem _ hr)
  exact (hfold fields [] h).resolve_left List.not_mem_nil

theorem setItem_of_notMem (d : Dict) (k : String) (v : Json) (h : k ∉ d.map Prod.fst) :
    setItem d k v = d ++ [(k, v)] := by
  induction d with
  | nil => rfl
  | cons kv rest ih =>
      obtain ⟨k', v'⟩ := kv
      simp only [List.map_cons, List.mem_cons, not_or] at h
      simp [setItem, Ne.symm h.1, ih h.2]

-- Fields of distinct keys are the dictionary they make.
theorem dict_of_nodup {fields : List (String × Json)} (h : (fields.map Prod.fst).Nodup) :
    dict fields = fields := by
  have hall : ∀ d rest : Dict, ((d ++ rest).map Prod.fst).Nodup →
      rest.foldl (fun d field => setItem d field.1 field.2) d = d ++ rest := by
    intro d rest
    induction rest generalizing d with
    | nil => simp
    | cons field rest ih =>
        intro hnodup
        have hnew : field.1 ∉ d.map Prod.fst := by
          rw [List.map_append, List.map_cons] at hnodup
          exact fun hmem => List.disjoint_of_nodup_append hnodup hmem List.mem_cons_self
        rw [List.foldl_cons, setItem_of_notMem d field.1 field.2 hnew, ih _ (by simpa using hnodup),
          List.append_assoc]
        rfl
  exact hall [] fields h

theorem mem_sortedItems {d : Dict} {kv : String × Json} : kv ∈ sortedItems d ↔ kv ∈ d :=
  List.mem_insertionSort _

theorem keys_sortedItems_nodup {d : Dict} (h : (d.map Prod.fst).Nodup) :
    ((sortedItems d).map Prod.fst).Nodup :=
  (((List.perm_insertionSort _ d).map Prod.fst).nodup_iff).mpr h

end Json

end VMForge
