import VMForge.Base.Text
import VMForge.Storage.Platform.Lemmas
import VMForge.Storage.QemuImg

namespace VMForge.Storage

open Exec

section

variable {β : Type} {host : Host β} {R : Room β} {w w' : World β}

theorem runQemuImg_touches {c : Command} (h : R.free c.target) :
    TouchesOnly R (runQemuImg host c) w := by
  refine TouchesOnly.bind (.raiseIf _ _) fun _ w₁ _ _ => ?_
  apply TouchesOnly.read_bind
  refine TouchesOnly.bind ?_ fun _ w₂ _ _ => ?_
  · cases (host.qemuImg.exec w₁ c).content with
    | none => exact .pure _
    | some b =>
        apply TouchesOnly.read_bind
        refine TouchesOnly.bind (.raiseIf _ _) fun _ _ _ _ => ?_
        exact .put (fun _ => Iff.rfl) nofun (Or.inl h)
  · cases (host.qemuImg.exec w₁ c).failure with
    | none => exact .pure _
    | some failure => exact .raise _

theorem finish_quiet (c : Command) (failure : Option QemuFailure) :
    Quiet (finish c failure : Run β Unit) := by
  intro w
  cases failure <;> rfl

theorem writeTarget_blocked {c : Command} (b : β) (hfault : createFault w.fs c.target ≠ none) :
    writeTarget c (some b) w = (.error (.qemuImgError c.args 1 ""), w) := by
  rw [writeTarget, read_bind, Option.isSome_iff_ne_none.mpr hfault]
  rfl

theorem writeTarget_written {c : Command} (b : β) (hfault : createFault w.fs c.target = none) :
    writeTarget c (some b) w = (.ok (), ⟨w.fs.put c.target (.file ⟨b, modeAt w.fs c.target⟩),
      w.log ++ [.qemuImg c.target]⟩) := by
  rw [writeTarget, read_bind, hfault]
  rfl

-- A command leaves its target alone, or writes there what qemu-img gave it.
theorem runQemuImg_wrote {c : Command} {r : Except PyError Unit}
    (h : runQemuImg host c w = (r, w')) : w'.fs.node c.target = w.fs.node c.target ∨
      createFault w.fs c.target = none ∧ ∃ b, (host.qemuImg.exec w c).content = some b ∧
        w'.fs.node c.target = some (.file ⟨b, modeAt w.fs c.target⟩) := by
  rw [runQemuImg] at h
  by_cases hnull : c.args.any hasNull = true
  · rw [hnull, raiseIf, if_pos rfl] at h
    obtain ⟨-, rfl⟩ := Prod.mk.inj h
    exact Or.inl rfl
  rw [raiseIf, if_neg hnull, bind_of_ok pure_run, read_bind] at h
  cases hcontent : (host.qemuImg.exec w c).content with
  | none =>
      rw [hcontent, writeTarget, bind_of_ok pure_run] at h
      rw [(finish_quiet c _).eq_of_run h]
      exact Or.inl rfl
  | some b =>
      rw [hcontent] at h
      by_cases hfault : createFault w.fs c.target = none
      · rw [bind_of_ok (writeTarget_written b hfault)] at h
        rw [(finish_quiet c _).eq_of_run h]
        exact Or.inr ⟨hfault, b, rfl, FileSystem.put_node_self _ (admits_of_createFault hfault _)⟩
      · rw [bind_of_error (writeTarget_blocked b hfault)] at h
        obtain ⟨-, rfl⟩ := Prod.mk.inj h
        exact Or.inl rfl

-- Where a command that qemu-img does not fail fails, nothing was written.
theorem runQemuImg_stopped {c : Command} {e : PyError} (hok : (host.qemuImg.exec w c).failure = none)
    (h : runQemuImg host c w = (.error e, w')) : w' = w := by
  rw [runQemuImg] at h
  by_cases hnull : c.args.any hasNull = true
  · rw [hnull, raiseIf, if_pos rfl] at h
    exact (Prod.mk.inj h).2.symm
  rw [raiseIf, if_neg hnull, bind_of_ok pure_run, read_bind, hok] at h
  cases hcontent : (host.qemuImg.exec w c).content with
  | none =>
      rw [hcontent, writeTarget, bind_of_ok pure_run] at h
      cases (Prod.mk.inj h).1
  | some b =>
      rw [hcontent] at h
      by_cases hfault : createFault w.fs c.target = none
      · rw [bind_of_ok (writeTarget_written b hfault)] at h
        cases (Prod.mk.inj h).1
      · rw [bind_of_error (writeTarget_blocked b hfault)] at h
        exact (Prod.mk.inj h).2.symm

-- What a command gave is written where it can be.
theorem runQemuImg_writes {c : Command} {r : Except PyError Unit} {b : β}
    (hnull : c.args.any hasNull = false) (hfault : createFault w.fs c.target = none)
    (hb : (host.qemuImg.exec w c).content = some b) (h : runQemuImg host c w = (r, w')) :
    w'.fs.node c.target = some (.file ⟨b, modeAt w.fs c.target⟩) := by
  rw [runQemuImg, hnull, raiseIf, if_neg Bool.false_ne_true, bind_of_ok pure_run, read_bind, hb,
    bind_of_ok (writeTarget_written b hfault)] at h
  rw [(finish_quiet c _).eq_of_run h]
  exact FileSystem.put_node_self _ (admits_of_createFault hfault _)

theorem runQemuImg_target {c : Command} {r : Except PyError Unit}
    (h : runQemuImg host c w = (r, w')) : w'.fs.node c.target = w.fs.node c.target ∨
      createFault w.fs c.target = none ∧
        ∃ b, w'.fs.node c.target = some (.file ⟨b, modeAt w.fs c.target⟩) := by
  rcases runQemuImg_wrote h with hsame | ⟨hfault, b, -, hb⟩
  · exact Or.inl hsame
  · exact Or.inr ⟨hfault, b, hb⟩

-- A command that qemu-img does not fail returns, if its target can be written.
theorem runQemuImg_returns {c : Command} (hnull : c.args.any hasNull = false)
    (hfault : createFault w.fs c.target = none) (hok : (host.qemuImg.exec w c).failure = none) :
    ∃ w', runQemuImg host c w = (.ok (), w') := by
  rw [runQemuImg, hnull, raiseIf, if_neg Bool.false_ne_true, bind_of_ok pure_run, read_bind, hok]
  cases (host.qemuImg.exec w c).content with
  | none => exact ⟨w, rfl⟩
  | some b =>
      rw [bind_of_ok (writeTarget_written b hfault)]
      exact ⟨_, rfl⟩

-- A path of legal names can be an argument.
theorem hasNull_toString {p : Path} (hp : ∀ n ∈ p, Path.isComponent n = true) :
    hasNull (Path.toString p) = false := by
  rw [hasNull, Bool.eq_false_iff, ne_eq, List.contains_iff_mem, Path.toString, String.toList_append,
    String.toList_intercalate, List.mem_append]
  rintro (h | h)
  · exact absurd h (by decide)
  · have hslash : "/".toList = ['/'] := by decide
    rw [hslash, ← List.singleton_infix_iff, Text.infix_intercalate (by decide) (by decide)] at h
    obtain ⟨n, hn, hin⟩ := h
    obtain ⟨m, hm, rfl⟩ := List.mem_map.mp hn
    exact ((Path.isComponent_iff m).mp (hp m hm)).2.2.2.2 ((List.singleton_infix_iff _ _).mp hin)

theorem createQcow2_touches {path : Path} {size : Option String}
    {backing : Option (List String × String)} {preallocation : String}
    {clusterSize : Option String} (h : R.free path) :
    TouchesOnly R (createQcow2 host path size backing preallocation clusterSize) w := by
  refine TouchesOnly.bind (.raiseIf _ _) fun _ _ _ _ => ?_
  exact TouchesOnly.bind (.raiseIf _ _) fun _ _ _ _ => runQemuImg_touches h

-- One file is written.
def onlyAt (β : Type) (p : Path) : Room β := ⟨(· = p), fun _ => False, fun _ _ => False⟩

theorem onlyAt_same {p q : Path} (h : Confined (onlyAt β p) w w') (hq : q ≠ p) :
    w'.fs.node q = w.fs.node q :=
  h.same hq id fun _ => id

theorem createQcow2_other {path q : Path} {size : Option String}
    {backing : Option (List String × String)} {preallocation : String}
    {clusterSize : Option String} {r : Except PyError Unit}
    (h : createQcow2 host path size backing preallocation clusterSize w = (r, w'))
    (hq : q ≠ path) : w'.fs.node q = w.fs.node q := by
  have htouch : TouchesOnly (onlyAt β path)
      (createQcow2 host path size backing preallocation clusterSize) w := createQcow2_touches rfl
  exact onlyAt_same (htouch.confined h) hq

theorem createQcow2_target {path : Path} {size : Option String}
    {backing : Option (List String × String)} {preallocation : String}
    {clusterSize : Option String} {r : Except PyError Unit}
    (h : createQcow2 host path size backing preallocation clusterSize w = (r, w')) :
    w'.fs.node path = w.fs.node path ∨ createFault w.fs path = none ∧
      ∃ b, w'.fs.node path = some (.file ⟨b, modeAt w.fs path⟩) := by
  rw [createQcow2] at h
  rcases Quiet.bind_cases (.raiseIf _ _) h with ⟨e, rfl, rfl⟩ | ⟨_, -, h⟩
  · exact Or.inl rfl
  rcases Quiet.bind_cases (.raiseIf _ _) h with ⟨e, rfl, rfl⟩ | ⟨_, -, h⟩
  · exact Or.inl rfl
  exact runQemuImg_target h

theorem rebase_touches {path : Path} {newBacking : Option (List String)} {isUnsafe : Bool}
    (h : R.free path) : TouchesOnly R (rebase host path newBacking isUnsafe) w :=
  runQemuImg_touches h

theorem rebase_other {path q : Path} {newBacking : Option (List String)} {isUnsafe : Bool}
    {r : Except PyError Unit} (h : rebase host path newBacking isUnsafe w = (r, w'))
    (hq : q ≠ path) : w'.fs.node q = w.fs.node q := by
  have htouch : TouchesOnly (onlyAt β path) (rebase host path newBacking isUnsafe) w :=
    rebase_touches rfl
  exact onlyAt_same (htouch.confined h) hq

theorem rebase_keeps {path : Path} {newBacking : Option (List String)} {isUnsafe : Bool}
    {r : Except PyError Unit} (h : rebase host path newBacking isUnsafe w = (r, w'))
    (hthere : w.fs.node path ≠ none) : w'.fs.node path ≠ none := by
  rcases runQemuImg_target h with hsame | ⟨-, b, hb⟩
  · exact fun hnone => hthere (hsame.symm.trans hnone)
  · exact fun hnone => by cases hb.symm.trans hnone

-- A rebase between legal paths fails only if qemu-img does.
theorem rebase_returns {path : Path} {newBacking : Option (List String)} {isUnsafe : Bool}
    (hpath : ∀ n ∈ path, Path.isComponent n = true)
    (hbacking : ∀ file, newBacking = some file → ∀ n ∈ file, Path.isComponent n = true)
    (hfault : createFault w.fs path = none)
    (hok : (host.qemuImg.exec w (.rebase path (newBacking.map fun file => (file, "qcow2"))
      isUnsafe)).failure = none) :
    ∃ w', rebase host path newBacking isUnsafe w = (.ok (), w') := by
  refine runQemuImg_returns ?_ hfault hok
  have hoptions : ((if isUnsafe then ["-u"] else []).any hasNull) = false := by
    cases isUnsafe <;> decide
  have hfixed : hasNull "rebase" = false ∧ hasNull "-b" = false ∧ hasNull "-F" = false ∧
      hasNull "qcow2" = false ∧ hasNull "" = false := by
    decide
  cases newBacking with
  | none => simp [Command.args, hoptions, hfixed, hasNull_toString hpath]
  | some file =>
      simp [Command.args, hoptions, hfixed, hasNull_toString hpath, hasNull_toString (hbacking file rfl)]

theorem resize_touches {path : Path} {newSize : String} {shrink : Bool} (h : R.free path) :
    TouchesOnly R (resize host path newSize shrink) w :=
  runQemuImg_touches h

theorem convert_touches {src dst : Path} {srcFormat : Option String} {compress : Bool}
    (h : R.free dst) : TouchesOnly R (convert host src dst srcFormat compress) w :=
  runQemuImg_touches h

theorem info_quiet (path : Path) : Quiet (info host path) := by
  refine .read_bind fun w => ?_
  split
  · exact .raise _
  · exact .pure _

theorem check_quiet (path : Path) : Quiet (check host path) := by
  refine .read_bind fun w => ?_
  split
  · exact .raise _
  · exact .pure _

end

end VMForge.Storage
