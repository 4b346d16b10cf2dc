import VMForge.Storage.Manifest.Lemmas
import VMForge.Storage.Restore
import VMForge.Storage.Store.Layout

namespace VMForge.Storage

open Exec

theorem joinStr_of_not_absolute (dir : Path) {s : String} (hs : Path.isAbsolute s = false) :
    joinStr dir s = dir ++ Path.parts s := by
  simp [joinStr, hs]

theorem joinName_of_parts {dir : Path} {s n : String} {p : List String}
    (hs : Path.parts s = p ++ [n]) (hn : n ≠ "") : joinName dir s = dir ++ [n] := by
  simp [joinName, hs, hn]

theorem joinName_cases (dir : Path) (s : String) :
    joinName dir s = dir ∨ ∃ n, joinName dir s = dir ++ [n] := by
  by_cases hn : Path.name (Path.parts s) = ""
  · exact Or.inl (by simp [joinName, hn])
  · exact Or.inr ⟨_, by simp only [joinName, hn, ite_false]; rfl⟩

theorem safeArc_eq_ok {r : Json} {arc : String} :
    safeArc r = .ok arc ↔ pyIndex r "path" = .ok (.str arc) ∧ Path.isAbsolute arc = false ∧
      ".." ∉ Path.parts arc := by
  constructor
  · intro h
    simp only [safeArc, except_bind_eq_ok] at h
    obtain ⟨v, hv, h⟩ := h
    cases v with
    | str s =>
        by_cases hs : (Path.isAbsolute s || (Path.parts s).contains "..") = true
        · simp only [hs, ite_true] at h
          cases h
        · simp only [hs, Bool.false_eq_true, ite_false, Except.ok.injEq] at h
          subst h
          refine ⟨pyIndex_of_pyGet hv rfl, ?_⟩
          simpa using hs
    | _ => cases h
  · rintro ⟨hpath, habs, hdots⟩
    simp [safeArc, pyGet_of_pyIndex hpath, habs, hdots, bind, Except.bind]

section

variable {β : Type} {store : DiskStore} {w w' : World β}

theorem snapshotPathOf_quiet (vm disk : String) (name : Json) :
    Quiet (snapshotPathOf store vm disk name : Run β Path) :=
  .bind (store.snapshotDir_quiet vm disk) fun _ =>
    .bind (.ofExcept _) fun _ => store.snapshotPath_quiet vm disk _

theorem snapshotPathOf_eq_ok {vm disk : String} {name : Json} {p : Path} :
    snapshotPathOf store vm disk name w = (.ok p, w') ↔
      ∃ n, name = .str n ∧ nameMatches vm = true ∧ nameMatches disk = true ∧
        nameMatches n = true ∧ store.snapshotFile vm disk n = p ∧ w = w' := by
  simp [snapshotPathOf, pyStr_eq_ok]
  tauto

theorem resolveParent_quiet (vm disk : String) (parent : Json) :
    Quiet (resolveParent store vm disk parent : Run β (Option (List String))) := by
  unfold resolveParent
  split
  · exact .pure _
  · refine .bind (.ofExcept _) fun isSnapshot => ?_
    split
    · exact .bind (.ofExcept _) fun _ => .bind (snapshotPathOf_quiet _ _ _) fun _ => .pure _
    · refine .bind (.ofExcept _) fun isImage => ?_
      split
      · exact .bind (.ofExcept _) fun _ => .pure _
      · exact .raise _

end

end VMForge.Storage
