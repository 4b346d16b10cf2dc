import VMForge.Base.Run
import VMForge.Core.State
import Mathlib.Logic.Function.Basic

namespace VMForge.Core

structure SnapshotMeta where
  id : SnapshotId
  parent : Option SnapshotId
  label : Option String
  createdUnix : Nat
deriving DecidableEq

-- The nodes of the snapshot DAG by their ids.
structure SnapshotStore where
  nodes : SnapshotId → Option SnapshotMeta

namespace SnapshotStore

def new : SnapshotStore := ⟨fun _ => none⟩

def put (store : SnapshotStore) (node : SnapshotMeta) : SnapshotStore :=
  ⟨Function.update store.nodes node.id (some node)⟩

def insert (store : SnapshotStore) (node : SnapshotMeta) : Except HvError SnapshotStore :=
  match node.parent with
  | some parent =>
      if (store.nodes parent).isNone then .error (.snapshotNotFound parent.text)
      else .ok (store.put node)
  | none => .ok (store.put node)

def get (store : SnapshotStore) (id : SnapshotId) : Option SnapshotMeta := store.nodes id

-- The `while` loop of `lineage`, with `cur` and `out`. `fuel` bounds its turns, and running out
-- of it stands for a loop that is still going.
def lineageLoop (store : SnapshotStore) :
    Nat → Option SnapshotId → List SnapshotMeta → Option (Except HvError (List SnapshotMeta))
  | _, none, out => some (.ok out)
  | 0, some _, _ => none
  | fuel + 1, some cid, out =>
      match store.nodes cid with
      | none => some (.error (.snapshotNotFound cid.text))
      | some node => lineageLoop store fuel node.parent (out ++ [node])

-- `lineage(id)` returns `r`.
def Lineage (store : SnapshotStore) (id : SnapshotId)
    (r : Except HvError (List SnapshotMeta)) : Prop :=
  ∃ fuel, store.lineageLoop fuel (some id) [] = some r

-- The store after a call of `insert`, however it ends.
def turn (store : SnapshotStore) (node : SnapshotMeta) : SnapshotStore :=
  match store.insert node with
  | .ok store' => store'
  | .error _ => store

-- The store after calls of `insert`, from the first on.
def inserted (metas : List SnapshotMeta) : SnapshotStore := after turn new metas

end SnapshotStore

end VMForge.Core
