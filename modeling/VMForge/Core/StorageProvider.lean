import VMForge.Core.SubprocessStore
import VMForge.Storage.Cli.Requests
import VMForge.Storage.Store.History

namespace VMForge.Core.StorageProvider

open Storage Exec

-- One snapshot of the tree, with its sizes in 64 bits.
structure SnapshotInfo where
  name : String
  parent : Option String
  children : List String
  current : Bool
  virtualSize : UInt64
  actualSize : UInt64

structure ImageInfo where
  name : ImageName
  path : Path

-- What an operation fails with: what the command line reports, or output of it that is not understood.
inductive Failure where
  | reported (e : StoreError)
  | unexpected (what : String)

def Failure.kind : Failure → ErrorKind
  | .reported e => e.kind
  | .unexpected _ => .backend

-- `serde_json::from_value::<SnapshotInfo>`: a size that is no `u64` is refused.
def readSnapshot (snap : Snapshot) : Option SnapshotInfo :=
  if snap.virtualSize < 2 ^ 64 ∧ snap.actualSize < 2 ^ 64 then
    some ⟨snap.name, snap.parent, snap.children, snap.current, .ofNat snap.virtualSize,
      .ofNat snap.actualSize⟩
  else none

-- `value.get("path")`
def outputPath : Cli.Output → Option Path
  | .path p => some p
  | .snapshot snap => some snap.path
  | _ => none

section

variable {β : Type} (store : SubprocessStore) (host : Host β)

abbrev Op (β α : Type) := Exec (World β) Failure α

def run (args : List String) : Op β Cli.Output := fun w =>
  match Cli.invoke host store.home args w with
  | (.printed out, w') => (.ok out, w')
  | (.failed error, w') =>
      (.error (.reported ⟨.fromCode error.code, .json error.message error.details⟩), w')
  | (.crashed status, w') => (.error (.reported ⟨.backend, .exited status⟩), w')

def importImage (src : String) (name : ImageName) : Op β ImageInfo := do
  let value ← run store host ["import", src, "--name", name.text]
  pure ⟨name, (outputPath value).getD (store.home.imageFile name.text)⟩

def createDisk (vm : VmName) (disk : DiskName) (sizeBytes : UInt64) (base : Option ImageName) :
    Op β DiskInfo := do
  let _ ← match base with
    | none => run store host ["create", vm.text, disk.text, toString sizeBytes]
    | some image => run store host (SubprocessStore.cloneArgs vm disk sizeBytes image)
  pure ⟨vm, disk, store.attachPath vm disk⟩

def resizeDisk (vm : VmName) (disk : DiskName) (sizeBytes : UInt64) : Op β Unit := do
  let _ ← run store host ["resize", vm.text, disk.text, toString sizeBytes]
  pure ()

def snapshot (vm : VmName) (disk : DiskName) (name : SnapshotName) : Op β SnapshotInfo := do
  let value ← run store host ["snapshot", "create", vm.text, disk.text, name.text]
  match value with
  | .snapshot snap =>
      match readSnapshot snap with
      | some inf => pure inf
      | none => raise (.unexpected "snapshot-create output")
  | _ => raise (.unexpected "snapshot-create output")

def revert (vm : VmName) (disk : DiskName) (name : SnapshotName) : Op β Unit := do
  let _ ← run store host ["snapshot", "revert", vm.text, disk.text, name.text]
  pure ()

def deleteSnapshot (vm : VmName) (disk : DiskName) (name : SnapshotName) : Op β Unit := do
  let _ ← run store host ["snapshot", "delete", vm.text, disk.text, name.text]
  pure ()

def tree (vm : VmName) (disk : DiskName) : Op β (List SnapshotInfo) := do
  let value ← run store host ["tree", vm.text, disk.text]
  match value with
  | .snapshots snaps =>
      match snaps.mapM readSnapshot with
      | some infos => pure infos
      | none => raise (.unexpected "tree output")
  | _ => raise (.unexpected "tree output")

def deleteDisk (vm : VmName) (disk : DiskName) : Op β Unit := do
  let _ ← run store host ["delete", vm.text, disk.text, "--force"]
  pure ()

end

-- A call of an operation of the trait that may change the store.
inductive EngineCall where
  | importImage (src : String) (name : ImageName)
  | createDisk (vm : VmName) (disk : DiskName) (sizeBytes : UInt64) (base : Option ImageName)
  | resizeDisk (vm : VmName) (disk : DiskName) (sizeBytes : UInt64)
  | snapshot (vm : VmName) (disk : DiskName) (name : SnapshotName)
  | revert (vm : VmName) (disk : DiskName) (name : SnapshotName)
  | deleteSnapshot (vm : VmName) (disk : DiskName) (name : SnapshotName)
  | deleteDisk (vm : VmName) (disk : DiskName)

-- The call of the store that it is to become.
def EngineCall.call : EngineCall → Storage.Call
  | .importImage src name => .importImage src name.text none false
  | .createDisk vm disk sizeBytes none =>
      .createDisk vm.text disk.text (toString sizeBytes) "off" none
  | .createDisk vm disk sizeBytes (some image) =>
      .cloneDisk image.text vm.text disk.text (cloneSize sizeBytes)
  | .resizeDisk vm disk sizeBytes => .resizeDisk vm.text disk.text (toString sizeBytes) false
  | .snapshot vm disk name => .snapshotCreate vm.text disk.text name.text
  | .revert vm disk name => .snapshotRevert vm.text disk.text name.text
  | .deleteSnapshot vm disk name => .snapshotDelete vm.text disk.text name.text
  | .deleteDisk vm disk => .deleteDisk vm.text disk.text true

-- A source is no option.
def EngineCall.Sendable : EngineCall → Prop
  | .importImage src _ => Cli.isPositional src = true
  | _ => True

section

variable {β : Type} (host : Host β) (store : SubprocessStore)

def forget {α : Type} (x : Op β α) : Op β Unit := x >>= fun _ => pure ()

def EngineCall.run : EngineCall → Op β Unit
  | .importImage src name => forget (StorageProvider.importImage store host src name)
  | .createDisk vm disk sizeBytes base => forget (StorageProvider.createDisk store host vm disk sizeBytes base)
  | .resizeDisk vm disk sizeBytes => StorageProvider.resizeDisk store host vm disk sizeBytes
  | .snapshot vm disk name => forget (StorageProvider.snapshot store host vm disk name)
  | .revert vm disk name => StorageProvider.revert store host vm disk name
  | .deleteSnapshot vm disk name => StorageProvider.deleteSnapshot store host vm disk name
  | .deleteDisk vm disk => StorageProvider.deleteDisk store host vm disk

end

section

variable {β : Type} {host : Host β} {store : SubprocessStore} {w w' : World β}

-- What the store did is what the engine is told: the files are the same, an exception is reported, and
-- success is success, unless `Unread` lets the output be one that is not understood.
structure Conveys (Unread : Prop) (x : Op β Unit) (y : Run β Unit) (w : World β) : Prop where
  world : (x w).2 = (y w).2
  error : ∀ e, (y w).1 = .error e → (x w).1 = .error (.reported (errorOf e))
  ok : (y w).1 = .ok () → (x w).1 = .ok () ∨
    Unread ∧ (x w).1 = .error (.unexpected "snapshot-create output")

-- What is run for a request that was understood.
theorem run_request {args : List String} {request : Cli.Request} (h : Cli.parse args = some request) :
    run store host args w =
      ((request.func host store.home w).1.mapError fun e => .reported (errorOf e),
        (request.func host store.home w).2) := by
  unfold run Cli.invoke
  simp only [h]
  rcases request.func host store.home w with ⟨e | out, w'⟩
  · simp only [Cli.endedBy, errorOf, Except.mapError]
    cases errorJson e <;> rfl
  · rfl

-- Where a disk is made, `SubprocessStore.run` ends in the same way.
theorem run_eq {args : List String} {parsed : Args} (h : parseArgs args = some parsed) :
    run store host args w =
      (((store.run host args w).1.map .path).mapError .reported, (store.run host args w).2) := by
  unfold run SubprocessStore.run
  rw [Cli.invoke_eq_main h]
  rcases main host store.home args w with ⟨path | error | status, w'⟩ <;> rfl

theorem createDisk_eq (vm : VmName) (disk : DiskName) (sizeBytes : UInt64) (base : Option ImageName)
    (w : World β) :
    createDisk store host vm disk sizeBytes base w =
      ((store.createDisk host vm disk sizeBytes base w).1.mapError .reported,
        (store.createDisk host vm disk sizeBytes base w).2) := by
  have hmake : ∀ {args : List String} {parsed : Args}, parseArgs args = some parsed →
      let make := store.run host args >>= fun _ =>
        pure (⟨vm, disk, store.attachPath vm disk⟩ : DiskInfo)
      (run store host args >>= fun _ => pure ⟨vm, disk, store.attachPath vm disk⟩ :
          Op β DiskInfo) w = ((make w).1.mapError .reported, (make w).2) := by
    intro args parsed h make
    have hrun := @run_eq _ host store w _ _ h
    rcases hstore : store.run host args w with ⟨e | path, w'⟩
    · rw [hstore] at hrun
      rw [bind_of_error hrun, show make w = _ from bind_of_error hstore]
      rfl
    · rw [hstore] at hrun
      rw [bind_of_ok hrun, show make w = _ from bind_of_ok hstore]
      rfl
  cases base with
  | none =>
      have hargs : parseArgs ["create", vm.text, disk.text, toString sizeBytes] =
          some (.create vm.text disk.text (toString sizeBytes) "off" none) := rfl
      exact hmake hargs
  | some image => exact hmake parseArgs_clone

theorem run_ok {args : List String} {request : Cli.Request} {out : Cli.Output}
    (h : Cli.parse args = some request) (hrun : request.func host store.home w = (.ok out, w')) :
    run store host args w = (.ok out, w') := by
  rw [run_request h, hrun]
  rfl

theorem run_error {args : List String} {request : Cli.Request} {e : PyError}
    (h : Cli.parse args = some request) (hrun : request.func host store.home w = (.error e, w')) :
    run store host args w = (.error (.reported (errorOf e)), w') := by
  rw [run_request h, hrun]
  rfl

-- An operation that runs one request and makes something of the output.
theorem Conveys.of_request {Unread : Prop} {α : Type} {args : List String} {request : Cli.Request} {x : Run β α}
    {next : Cli.Output → Op β Unit} (out : α → Cli.Output) (h : Cli.parse args = some request)
    (hfunc : request.func host store.home = x >>= fun a => pure (out a))
    (hnext : ∀ a w, next (out a) w = (.ok (), w) ∨
      Unread ∧ next (out a) w = (.error (.unexpected "snapshot-create output"), w)) :
    Conveys Unread (run store host args >>= next) (dropResult x) w := by
  rcases hx : x w with ⟨e | a, w'⟩
  · have hrun : request.func host store.home w = (.error e, w') := by
      rw [hfunc, bind_of_error hx]
    have hdrop : dropResult x w = (.error e, w') := bind_of_error hx
    have hsend : (run store host args >>= next) w = (.error (.reported (errorOf e)), w') :=
      bind_of_error (run_error h hrun)
    refine ⟨by rw [hsend, hdrop], fun e' he' => ?_, fun hok => ?_⟩
    · rw [hdrop] at he'
      rw [hsend, Except.error.inj he']
    · rw [hdrop] at hok
      cases hok
  · have hrun : request.func host store.home w = (.ok (out a), w') := by
      rw [hfunc, bind_of_ok hx]
      rfl
    have hdrop : dropResult x w = (.ok (), w') := bind_of_ok hx
    have hsend : (run store host args >>= next) w = next (out a) w' := bind_of_ok (run_ok h hrun)
    refine ⟨?_, fun e' he' => ?_, fun _ => ?_⟩
    · rw [hsend, hdrop]
      rcases hnext a w' with hn | ⟨-, hn⟩ <;> rw [hn]
    · rw [hdrop] at he'
      cases he'
    · rw [hsend]
      rcases hnext a w' with hn | ⟨hu, hn⟩
      · rw [hn]
        exact Or.inl rfl
      · rw [hn]
        exact Or.inr ⟨hu, rfl⟩

theorem dropResult_unit (x : Run β Unit) : dropResult x = x := by
  funext w
  rcases hx : x w with ⟨e | u, w'⟩
  · exact bind_of_error hx
  · exact bind_of_ok hx

theorem forget_bind {α γ : Type} (x : Op β γ) (f : γ → Op β α) :
    forget (x >>= f) = x >>= fun a => forget (f a) :=
  Exec.bind_assoc x f _

theorem orElse_name (n : ImageName) (b : String) : Cli.orElse (some n.text) b = n.text := by
  have hne : (n.text != "") = true := bne_iff_ne.mpr (nameMatches_ne_empty n.nameMatches)
  rw [Cli.orElse, Option.filter_some, if_pos hne, Option.getD_some]

-- Every operation of the trait is the operation of the store. Only a snapshot can have a size of more
-- than 64 bits.
theorem EngineCall.conveys (c : EngineCall) (hsend : c.Sendable) (w : World β) :
    Conveys (∃ vm disk name, c = .snapshot vm disk name) (c.run host store) (c.call.run host store.home) w := by
  cases c with
  | importImage src name =>
      have hparse : Cli.parse ["import", src, "--name", name.text] =
          some (.importFile src (some name.text) none none none false) := if_pos hsend
      rw [EngineCall.run, StorageProvider.importImage, forget_bind]
      refine .of_request Cli.Output.path hparse ?_ fun p w => Or.inl rfl
      simp only [Cli.Request.func, Cli.cmdImport, Option.filter_none, orElse_name]
  | createDisk vm disk sizeBytes base =>
      cases base with
      | none =>
          rw [EngineCall.run]
          simp only [StorageProvider.createDisk, forget_bind]
          exact .of_request Cli.Output.path rfl rfl fun _ w => Or.inl rfl
      | some image =>
          have hparse : Cli.parse (SubprocessStore.cloneArgs vm disk sizeBytes image) =
              some (.clone image.text vm.text disk.text (cloneSize sizeBytes)) := by
            unfold SubprocessStore.cloneArgs cloneSize
            split <;> rfl
          rw [EngineCall.run]
          simp only [StorageProvider.createDisk, forget_bind]
          exact .of_request Cli.Output.path hparse rfl fun _ w => Or.inl rfl
  | resizeDisk vm disk sizeBytes =>
      rw [EngineCall.call, Storage.Call.run, ← dropResult_unit (store.home.resizeDisk _ _ _ _ _)]
      exact .of_request (fun _ => Cli.Output.done) rfl rfl fun _ w => Or.inl rfl
  | snapshot vm disk name =>
      rw [EngineCall.run, StorageProvider.snapshot, forget_bind]
      refine .of_request Cli.Output.snapshot rfl rfl fun snap w => ?_
      cases hsnap : readSnapshot snap with
      | none =>
          refine Or.inr ⟨⟨vm, disk, name, rfl⟩, ?_⟩
          simp only [hsnap]
          rfl
      | some inf =>
          refine Or.inl ?_
          simp only [hsnap]
          rfl
  | revert vm disk name =>
      rw [EngineCall.call, Storage.Call.run, ← dropResult_unit (store.home.snapshotRevert _ _ _ _)]
      exact .of_request (fun _ => Cli.Output.done) rfl rfl fun _ w => Or.inl rfl
  | deleteSnapshot vm disk name =>
      rw [EngineCall.call, Storage.Call.run, ← dropResult_unit (store.home.snapshotDelete _ _ _ _)]
      exact .of_request (fun _ => Cli.Output.done) rfl rfl fun _ w => Or.inl rfl
  | deleteDisk vm disk =>
      rw [EngineCall.call, Storage.Call.run, ← dropResult_unit (store.home.deleteDisk _ _ _)]
      exact .of_request (fun _ => Cli.Output.done) rfl rfl fun _ w => Or.inl rfl

end

end VMForge.Core.StorageProvider
