import VMForge.Storage.Manifest
import VMForge.Storage.Platform.Lemmas

namespace VMForge.Storage

section Except

variable {ε α γ : Type}

@[simp] theorem except_bind_eq_ok {x : Except ε γ} {f : γ → Except ε α} {b : α} :
    (x >>= f) = .ok b ↔ ∃ a, x = .ok a ∧ f a = .ok b := by
  cases x <;> simp [bind, Except.bind]

theorem mapM_eq_ok {f : γ → Except ε α} {as : List γ} {bs : List α} (h : as.mapM f = .ok bs) :
    List.Forall₂ (fun a b => f a = .ok b) as bs := by
  induction as generalizing bs with
  | nil =>
      simp only [List.mapM_nil, pure, Except.pure, Except.ok.injEq] at h
      subst h
      exact .nil
  | cons a as ih =>
      simp only [List.mapM_cons, except_bind_eq_ok, pure, Except.pure, Except.ok.injEq] at h
      obtain ⟨b, hb, bs', hbs, rfl⟩ := h
      exact .cons hb (ih hbs)

theorem forall₂_exists {R : γ → α → Prop} {as : List γ} {bs : List α} (h : List.Forall₂ R as bs)
    {a : γ} (ha : a ∈ as) : ∃ b ∈ bs, R a b := by
  induction h with
  | nil => simp at ha
  | cons hr _ ih =>
      rcases List.mem_cons.mp ha with rfl | ha
      · exact ⟨_, List.mem_cons_self, hr⟩
      · obtain ⟨b, hb, hab⟩ := ih ha
        exact ⟨b, List.mem_cons_of_mem _ hb, hab⟩

theorem orRaise_eq_ok {x : Except PyError α} {caught : PyError → Bool} {e : PyError} {a : α} :
    orRaise x caught e = .ok a ↔ x = .ok a := by
  cases x with
  | ok b => simp [orRaise]
  | error e' =>
      simp only [orRaise]
      split <;> simp

end Except

theorem pyStr_eq_ok {v : Json} {s : String} : pyStr v = .ok s ↔ v = .str s := by
  cases v <;> simp [pyStr]

theorem pyIndex_eq_ok {v x : Json} {k : String} :
    pyIndex v k = .ok x ↔ ∃ fields, v = .obj fields ∧ Json.get (Json.dict fields) k = some x := by
  cases v with
  | obj fields =>
      simp only [pyIndex, Json.obj.injEq, exists_eq_left']
      cases Json.get (Json.dict fields) k <;> simp
  | _ => simp [pyIndex]

theorem pyIndexStr_eq_ok {v : Json} {k s : String} :
    (pyIndex v k >>= pyStr) = .ok s ↔ pyIndex v k = .ok (.str s) := by
  simp [pyStr_eq_ok]

theorem pyGet_eq_ok {v x : Json} {k : String} :
    pyGet v k = .ok x ↔
      ∃ fields, v = .obj fields ∧ (Json.get (Json.dict fields) k).getD .null = x := by
  cases v <;> simp [pyGet]

-- A value that `get` finds and that is not None is what indexing finds.
theorem pyIndex_of_pyGet {v x : Json} {k : String} (h : pyGet v k = .ok x)
    (hx : Json.isNone x = false) : pyIndex v k = .ok x := by
  obtain ⟨fields, rfl, hget⟩ := pyGet_eq_ok.mp h
  refine pyIndex_eq_ok.mpr ⟨fields, rfl, ?_⟩
  cases hg : Json.get (Json.dict fields) k with
  | none =>
      rw [hg] at hget
      subst hget
      simp [Json.isNone] at hx
  | some y =>
      rw [hg] at hget
      exact congrArg some hget

theorem pyGet_of_pyIndex {v x : Json} {k : String} (h : pyIndex v k = .ok x) :
    pyGet v k = .ok x := by
  obtain ⟨fields, rfl, hget⟩ := pyIndex_eq_ok.mp h
  exact pyGet_eq_ok.mpr ⟨fields, rfl, by simp [hget]⟩

-- What the loops of `restore` run over: the values at `k`, or nothing when there is no `k`.
def recordsAt (v : Json) (k : String) : Except PyError (List Json) := pyGetList v k >>= pyIter

-- The last record with the key `a`.
def lastWith {α : Type} [DecidableEq α] (key : Json → Option α) (records : List Json) (a : α) :
    Option Json :=
  records.reverse.find? fun r => key r = some a

section LastWith

variable {α : Type} [DecidableEq α] {key : Json → Option α} {records : List Json} {a : α}

theorem lastWith_of_split {before after : List Json} {r : Json} (hr : key r = some a)
    (hafter : ∀ r' ∈ after, key r' ≠ some a) :
    lastWith key (before ++ r :: after) a = some r := by
  have hnone : after.reverse.find? (fun r => decide (key r = some a)) = none := by
    simpa using hafter
  simp [lastWith, List.find?_append, hnone, hr]

theorem lastWith_split {r : Json} (h : lastWith key records a = some r) :
    key r = some a ∧ ∃ before after, records = before ++ r :: after ∧
      ∀ r' ∈ after, key r' ≠ some a := by
  obtain ⟨hr, after, before, hsplit, hafter⟩ := List.find?_eq_some_iff_append.mp h
  refine ⟨by simpa using hr, before.reverse, after.reverse, ?_, fun r' hr' => ?_⟩
  · have hrev := congrArg List.reverse hsplit
    simpa using hrev
  · simpa using hafter r' (List.mem_reverse.mp hr')

theorem lastWith_eq_none : lastWith key records a = none ↔ ∀ r ∈ records, key r ≠ some a := by
  simp [lastWith]

end LastWith

theorem sectionFiles_eq_ok {diskSection : Json} {files : List Json}
    (h : sectionFiles diskSection = .ok files) :
    ∃ active snaps, pyGet diskSection "active" = .ok active ∧
      recordsAt diskSection "snapshots" = .ok snaps ∧
      files = if Json.isNone active then snaps else active :: snaps := by
  simp only [sectionFiles, except_bind_eq_ok] at h
  obtain ⟨active, hactive, list, hlist, snaps, hsnaps, h⟩ := h
  refine ⟨active, snaps, hactive, ?_, ?_⟩
  · simp only [recordsAt, except_bind_eq_ok]
    exact ⟨list, hlist, hsnaps⟩
  · split at h <;> simp_all

-- Every record that `restore` uses later is among the verified ones.
structure ManifestFiles (manifest : Json) (files : List Json) : Prop where
  images : ∃ images, recordsAt manifest "images" = .ok images ∧ images ⊆ files
  config : ∃ config, recordsAt manifest "config" = .ok config ∧ config ⊆ files
  disks : ∃ items, (pyIndex manifest "disks" >>= pySortedItems) = .ok items ∧
    (items.map Prod.fst).Nodup ∧
    ∀ item ∈ items, ∃ active snaps, pyGet item.2 "active" = .ok active ∧
      recordsAt item.2 "snapshots" = .ok snaps ∧ snaps ⊆ files ∧
      (Json.isNone active = false → active ∈ files)

theorem manifestFiles_spec {manifest : Json} {files : List Json}
    (h : manifestFiles manifest = .ok files) : ManifestFiles manifest files := by
  simp only [manifestFiles, except_bind_eq_ok, Except.ok.injEq] at h
  obtain ⟨disks, hdisks, sections, hsections, perDisk, hper, imagesList, hil, images, hi,
    configList, hcl, config, hc, rfl⟩ := h
  refine ⟨⟨images, ?_, ?_⟩, ⟨config, ?_, ?_⟩, ?_⟩
  · simp only [recordsAt, except_bind_eq_ok]
    exact ⟨imagesList, hil, hi⟩
  · exact fun r hr => by simp [hr]
  · simp only [recordsAt, except_bind_eq_ok]
    exact ⟨configList, hcl, hc⟩
  · exact fun r hr => by simp [hr]
  · cases disks with
    | obj fields =>
        simp only [pyValues, Except.ok.injEq] at hsections
        subst hsections
        refine ⟨Json.sortedItems (Json.dict fields), ?_,
          Json.keys_sortedItems_nodup (Json.keys_dict_nodup fields), ?_⟩
        · simp only [except_bind_eq_ok]
          exact ⟨_, hdisks, rfl⟩
        · intro item hitem
          have hmem : item.2 ∈ (Json.dict fields).map Prod.snd :=
            List.mem_map_of_mem (Json.mem_sortedItems.mp hitem)
          obtain ⟨b, hb, hsec⟩ := forall₂_exists (mapM_eq_ok hper) hmem
          obtain ⟨active, snaps, hactive, hsnaps, rfl⟩ := sectionFiles_eq_ok hsec
          refine ⟨active, snaps, hactive, hsnaps, fun r hr => ?_, fun hn => ?_⟩
          · simp only [List.mem_append, List.mem_flatten]
            refine Or.inl (Or.inl ⟨_, hb, ?_⟩)
            split <;> simp [hr]
          · simp only [List.mem_append, List.mem_flatten]
            exact Or.inl (Or.inl ⟨_, hb, by simp [hn]⟩)
    | _ => simp [pyValues] at hsections

end VMForge.Storage
