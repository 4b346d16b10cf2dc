import VMForge.Core.Snapshot
import Mathlib.Data.List.Induction

namespace VMForge.Core.SnapshotStore

-- The nodes from `id` along the parents to a root.
inductive Ancestry (store : SnapshotStore) : SnapshotId → List SnapshotMeta → Prop where
  | root {id : SnapshotId} {node : SnapshotMeta} (hnode : store.nodes id = some node)
      (hroot : node.parent = none) : Ancestry store id [node]
  | child {id parent : SnapshotId} {node : SnapshotMeta} {rest : List SnapshotMeta}
      (hnode : store.nodes id = some node) (hparent : node.parent = some parent)
      (hrest : Ancestry store parent rest) : Ancestry store id (node :: rest)

-- Every node is stored under its own id.
def Keyed (store : SnapshotStore) : Prop := ∀ id node, store.nodes id = some node → node.id = id

variable {store store' : SnapshotStore} {id : SnapshotId} {node : SnapshotMeta}
  {l : List SnapshotMeta}

theorem Ancestry.loop (h : Ancestry store id l) (out : List SnapshotMeta) :
    store.lineageLoop l.length (some id) out = some (.ok (out ++ l)) := by
  induction h generalizing out with
  | root hnode hroot =>
      rw [List.length_singleton, lineageLoop]
      simp only [hnode, hroot]
      rw [lineageLoop]
  | child hnode hparent _ ih =>
      rw [List.length_cons, lineageLoop]
      simp only [hnode, hparent]
      rw [ih, List.append_assoc]
      rfl

-- A loop that has ended ends in the same way with more turns to take.
theorem lineageLoop_more {fuel : Nat} {cur : Option SnapshotId} {out : List SnapshotMeta}
    {r : Except HvError (List SnapshotMeta)} (h : store.lineageLoop fuel cur out = some r)
    (more : Nat) : store.lineageLoop (fuel + more) cur out = some r := by
  induction fuel generalizing cur out with
  | zero =>
      cases cur with
      | none =>
          rw [lineageLoop] at h ⊢
          exact h
      | some cid => cases h
  | succ fuel ih =>
      cases cur with
      | none =>
          rw [lineageLoop] at h ⊢
          exact h
      | some cid =>
          rw [Nat.succ_add, lineageLoop]
          rw [lineageLoop] at h
          cases hnode : store.nodes cid with
          | none =>
              simp only [hnode] at h ⊢
              exact h
          | some node =>
              simp only [hnode] at h ⊢
              exact ih h

theorem Lineage.unique {r r' : Except HvError (List SnapshotMeta)} (h : store.Lineage id r)
    (h' : store.Lineage id r') : r = r' := by
  obtain ⟨fuel, h⟩ := h
  obtain ⟨fuel', h'⟩ := h'
  have hmore := lineageLoop_more h fuel'
  have hmore' := lineageLoop_more h' fuel
  rw [Nat.add_comm] at hmore'
  exact Option.some.inj (hmore.symm.trans hmore')

theorem ancestry_of_loop {fuel : Nat} {out : List SnapshotMeta}
    (h : store.lineageLoop fuel (some id) out = some (.ok l)) :
    ∃ l', Ancestry store id l' ∧ l = out ++ l' := by
  induction fuel generalizing id out with
  | zero => cases h
  | succ fuel ih =>
      rw [lineageLoop] at h
      cases hnode : store.nodes id with
      | none => simp [hnode] at h
      | some node =>
          simp only [hnode] at h
          cases hparent : node.parent with
          | none =>
              rw [hparent, lineageLoop] at h
              exact ⟨[node], .root hnode hparent, (Except.ok.inj (Option.some.inj h)).symm⟩
          | some parent =>
              rw [hparent] at h
              obtain ⟨l', hl', rfl⟩ := ih h
              exact ⟨node :: l', .child hnode hparent hl', by simp⟩

-- `lineage` follows the parents up to a root, and returns when there is one.
theorem lineage_ok_iff : store.Lineage id (.ok l) ↔ Ancestry store id l := by
  constructor
  · rintro ⟨fuel, h⟩
    obtain ⟨l', hl', rfl⟩ := ancestry_of_loop h
    exact hl'
  · exact fun h => ⟨l.length, h.loop []⟩

theorem Ancestry.stored (h : Ancestry store id l) : l.head? = store.nodes id := by
  cases h with
  | root hnode _ => exact hnode.symm
  | child hnode _ _ => exact hnode.symm

theorem Ancestry.mono (h : Ancestry store id l)
    (hkept : ∀ id node, store.nodes id = some node → store'.nodes id = some node) :
    Ancestry store' id l := by
  induction h with
  | root hnode hroot => exact .root (hkept _ _ hnode) hroot
  | child hnode hparent _ ih => exact .child (hkept _ _ hnode) hparent ih

theorem Ancestry.unique {l' : List SnapshotMeta} (h : Ancestry store id l)
    (h' : Ancestry store id l') : l = l' :=
  Except.ok.inj ((lineage_ok_iff.mpr h).unique (lineage_ok_iff.mpr h'))

-- From every node of an ancestry on there is a shorter one.
theorem Ancestry.from_mem (hkeyed : Keyed store) (h : Ancestry store id l) (hnode : node ∈ l) :
    ∃ l', Ancestry store node.id l' ∧ l'.length ≤ l.length := by
  induction h with
  | @root id head hn hroot =>
      obtain rfl := List.mem_singleton.mp hnode
      refine ⟨[node], ?_, Nat.le_refl _⟩
      rw [hkeyed id node hn]
      exact .root hn hroot
  | @child id parent head rest hn hparent hrest ih =>
      rcases List.mem_cons.mp hnode with rfl | hm
      · refine ⟨node :: rest, ?_, Nat.le_refl _⟩
        rw [hkeyed id node hn]
        exact .child hn hparent hrest
      · obtain ⟨l', hl', hle⟩ := ih hm
        exact ⟨l', hl', by rw [List.length_cons]; omega⟩

theorem Ancestry.nodup (hkeyed : Keyed store) (h : Ancestry store id l) :
    (l.map SnapshotMeta.id).Nodup := by
  induction h with
  | root _ _ => simp
  | @child id parent node rest hn hparent hrest ih =>
      rw [List.map_cons, List.nodup_cons]
      refine ⟨fun hc => ?_, ih⟩
      -- otherwise the ancestry of this node would be longer than itself
      obtain ⟨other, hm, he⟩ := List.mem_map.mp hc
      obtain ⟨l', hl', hle⟩ := hrest.from_mem hkeyed hm
      rw [he, hkeyed _ _ hn] at hl'
      have hlen := congrArg List.length (hl'.unique (.child hn hparent hrest))
      rw [List.length_cons] at hlen
      omega

-- Each node but the last has the next one for its parent, and the last is a root.
theorem Ancestry.linked (hkeyed : Keyed store) (h : Ancestry store id l) :
    l.IsChain (fun a b => a.parent = some b.id) ∧
      ∀ last ∈ l.getLast?, last.parent = none := by
  induction h with
  | root _ hroot => simpa using hroot
  | @child id parent node rest hn hparent hrest ih =>
      have hhead := hrest.stored
      cases rest with
      | nil => cases hrest
      | cons next rest =>
          refine ⟨List.isChain_cons_cons.mpr ⟨?_, ih.1⟩, ?_⟩
          · rw [hparent, hkeyed _ _ hhead.symm]
          · simpa using ih.2

-- `node` puts no other metadata under an id that the store has.
def Conserves (store : SnapshotStore) (node : SnapshotMeta) : Prop :=
  (store.insert node).isOk = true → ∀ old, store.nodes node.id = some old → old = node

theorem turn_cases (store : SnapshotStore) (node : SnapshotMeta) :
    (store.insert node).isOk = false ∧ store.turn node = store ∨
      (store.insert node).isOk = true ∧ store.turn node = store.put node ∧
        ∀ parent, node.parent = some parent → store.nodes parent ≠ none := by
  rw [turn, insert]
  cases hparent : node.parent with
  | none => exact Or.inr ⟨rfl, rfl, by simp⟩
  | some parent =>
      cases hp : store.nodes parent with
      | none => simp [hp, Except.isOk, Except.toBool]
      | some _ =>
          refine Or.inr ⟨by simp [hp, Except.isOk, Except.toBool], by simp [hp], fun p he => ?_⟩
          obtain rfl := Option.some.inj he
          simp [hp]

theorem put_nodes (store : SnapshotStore) (node : SnapshotMeta) (id : SnapshotId) :
    (store.put node).nodes id = if id = node.id then some node else store.nodes id :=
  Function.update_apply store.nodes node.id (some node) id

-- Every node has an ancestry.
structure Grounded (store : SnapshotStore) : Prop where
  keyed : Keyed store
  ancestry : ∀ id node, store.nodes id = some node → ∃ l, Ancestry store id l

theorem grounded_new : Grounded new := ⟨fun _ _ h => (nomatch h), fun _ _ h => (nomatch h)⟩

theorem turn_keeps (hC : Conserves store node) (id : SnapshotId) (old : SnapshotMeta)
    (hold : store.nodes id = some old) : (store.turn node).nodes id = some old := by
  rcases turn_cases store node with ⟨-, hturn⟩ | ⟨hok, hturn, -⟩
  · rw [hturn, hold]
  · rw [hturn, put_nodes]
    split
    · rename_i he
      subst he
      rw [hC hok old hold]
    · exact hold

theorem turn_grounded (h : Grounded store) (hC : Conserves store node) :
    Grounded (store.turn node) := by
  have hkept := turn_keeps hC
  rcases turn_cases store node with ⟨-, hturn⟩ | ⟨hok, hturn, hparent⟩
  · rw [hturn]
    exact h
  · rw [hturn] at hkept ⊢
    refine ⟨fun id other hother => ?_, fun id other hother => ?_⟩
    · rw [put_nodes] at hother
      split at hother
      · rename_i he
        rw [he, Option.some.inj hother]
      · exact h.keyed id other hother
    · by_cases hold : ∃ old, store.nodes id = some old
      · obtain ⟨old, hold⟩ := hold
        obtain ⟨l, hl⟩ := h.ancestry id old hold
        exact ⟨l, hl.mono hkept⟩
      -- only the new node is left
      · rw [put_nodes] at hother
        split at hother
        · obtain rfl := Option.some.inj hother
          have hnode : (store.put node).nodes id = some node := by
            rw [put_nodes, if_pos ‹_›]
          cases hp : node.parent with
          | none => exact ⟨[node], .root hnode hp⟩
          | some parent =>
              obtain ⟨above, habove⟩ := Option.ne_none_iff_exists'.mp (hparent parent hp)
              obtain ⟨l, hl⟩ := h.ancestry parent above habove
              exact ⟨node :: l, .child hnode hp (hl.mono hkept)⟩
        · exact absurd ⟨other, hother⟩ hold

-- The lineages of a run of inserts, in the states it goes through.
structure LineagesKept (metas : List SnapshotMeta) : Prop where
  found : ∀ pre post, metas = pre ++ post → ∀ id node, (inserted pre).nodes id = some node →
    ∃ l, (inserted pre).Lineage id (.ok l) ∧ (l.map SnapshotMeta.id).Nodup ∧ l.head? = some node ∧
      l.IsChain (fun a b => a.parent = some b.id) ∧ ∀ last ∈ l.getLast?, last.parent = none
  kept : ∀ pre mid post, metas = pre ++ mid ++ post → ∀ id l,
    (inserted pre).Lineage id (.ok l) → (inserted (pre ++ mid)).Lineage id (.ok l)

theorem grounded_of_conserving {metas : List SnapshotMeta} (h : Along turn Conserves new metas) :
    Grounded (inserted metas) :=
  h.invariant Grounded grounded_new fun _ _ hs hC => turn_grounded hs hC

theorem kept_of_conserving {store : SnapshotStore} {metas : List SnapshotMeta}
    (h : Along turn Conserves store metas) (id : SnapshotId) (node : SnapshotMeta)
    (hnode : store.nodes id = some node) : (after turn store metas).nodes id = some node :=
  h.invariant (fun s => s.nodes id = some node) hnode fun _ _ hs hC => turn_keeps hC id node hs

-- The lineages of a run are finite and stay as they are exactly when no insert puts other
-- metadata under an id that is taken.
theorem lineages_kept_iff (metas : List SnapshotMeta) :
    LineagesKept metas ↔ Along turn Conserves new metas := by
  constructor
  · intro h
    induction metas using List.reverseRecOn with
    | nil => trivial
    | append_singleton metas node ih =>
        have hpre : LineagesKept metas := by
          refine ⟨fun pre post he => h.found pre (post ++ [node]) (by simp [he]), ?_⟩
          exact fun pre mid post he => h.kept pre mid (post ++ [node]) (by simp [he])
        have hall := ih hpre
        refine along_append.mpr ⟨hall, ?_, trivial⟩
        intro hok old hold
        obtain ⟨l, hl⟩ := (grounded_of_conserving hall).ancestry _ old hold
        have hl' := lineage_ok_iff.mp (h.kept metas [node] [] (by simp) _ l (lineage_ok_iff.mpr hl))
        -- the first node of the lineage is the one that is stored
        have hhead := hl'.stored.symm.trans hl.stored
        rw [inserted, after_concat] at hhead
        rcases turn_cases (after turn new metas) node with ⟨hrefused, -⟩ | ⟨-, hturn, -⟩
        · rw [hok] at hrefused
          cases hrefused
        · rw [hturn, put_nodes, if_pos rfl] at hhead
          exact Option.some.inj (hold.symm.trans hhead.symm)
  · intro h
    refine ⟨fun pre post he id node hnode => ?_, fun pre mid post he id l hl => ?_⟩
    · rw [he] at h
      have hgrounded := grounded_of_conserving (along_append.mp h).1
      obtain ⟨l, hl⟩ := hgrounded.ancestry id node hnode
      have hlinked := hl.linked hgrounded.keyed
      exact ⟨l, lineage_ok_iff.mpr hl, hl.nodup hgrounded.keyed, hl.stored.trans hnode, hlinked⟩
    · rw [he] at h
      obtain ⟨-, hmid⟩ := along_append.mp (along_append.mp h).1
      rw [inserted, after_append]
      exact lineage_ok_iff.mpr ((lineage_ok_iff.mp hl).mono (kept_of_conserving hmid))

-- A root that is inserted again under a child of its own.
def looped : List SnapshotMeta :=
  [⟨⟨"root"⟩, none, none, 0⟩, ⟨⟨"a"⟩, some ⟨"root"⟩, none, 0⟩, ⟨⟨"root"⟩, some ⟨"a"⟩, none, 0⟩]

theorem looped_nodes : (inserted looped).nodes ⟨"root"⟩ = some ⟨⟨"root"⟩, some ⟨"a"⟩, none, 0⟩ ∧
    (inserted looped).nodes ⟨"a"⟩ = some ⟨⟨"a"⟩, some ⟨"root"⟩, none, 0⟩ := by
  decide

-- Its lineage is never found.
theorem lineage_looped : (inserted looped).nodes ⟨"root"⟩ ≠ none ∧
    ∀ r, ¬(inserted looped).Lineage ⟨"root"⟩ r := by
  have hloop : ∀ fuel out, (inserted looped).lineageLoop fuel (some ⟨"root"⟩) out = none ∧
      (inserted looped).lineageLoop fuel (some ⟨"a"⟩) out = none := by
    intro fuel
    induction fuel with
    | zero => exact fun _ => ⟨rfl, rfl⟩
    | succ fuel ih =>
        intro out
        rw [lineageLoop, lineageLoop]
        simp only [looped_nodes]
        exact ⟨(ih _).2, (ih _).1⟩
  refine ⟨by rw [looped_nodes.1]; simp, ?_⟩
  rintro r ⟨fuel, h⟩
  rw [(hloop fuel []).1] at h
  cases h

end VMForge.Core.SnapshotStore
