import VMForge.Storage.Platform

namespace VMForge.Storage

open Exec

section

variable {β : Type}

theorem createFault_none_iff {fs : FileSystem β} {p : Path} :
    createFault fs p = none ↔ Path.isComponent (Path.name p) = true ∧ fs.node p ≠ some .dir ∧
      fs.node p.dropLast = some .dir := by
  rw [← FileSystem.isDir_iff, ne_eq, ← FileSystem.isDir_iff]
  unfold createFault
  by_cases hc : Path.isComponent (Path.name p) = true <;> by_cases h₁ : fs.isDir p = true <;>
    by_cases h₂ : fs.isDir p.dropLast = true <;> simp [hc, h₁, h₂]
  split <;> simp

theorem admits_of_createFault {fs : FileSystem β} {p : Path} (h : createFault fs p = none)
    (x : Node β) : fs.admits p x = true := by
  obtain ⟨hc, hd, hp⟩ := createFault_none_iff.mp h
  rw [FileSystem.admits_iff]
  refine ⟨?_, hp, hc, fun hdir => absurd hdir hd⟩
  rintro rfl
  simp [Path.name, Path.isComponent] at hc

theorem admits_of_exists {fs : FileSystem β} {p : Path} {f : File β}
    (h : fs.node p = some (.file f)) (x : Node β) : fs.admits p x = true := by
  have hne : p ≠ [] := by
    rintro rfl
    simp [fs.root] at h
  have hp : p.dropLast ++ [Path.name p] = p := by
    rw [Path.name, List.getLast?_eq_some_getLast hne]
    exact List.dropLast_append_getLast hne
  have hex : fs.node (p.dropLast ++ [Path.name p]) ≠ none := by simp [hp, h]
  rw [FileSystem.admits_iff]
  exact ⟨hne, fs.parent _ _ hex, fs.legal _ _ hex, by simp [h]⟩

-- A move between two places, seen from any path.
theorem prune_put_node {fs : FileSystem β} {src dst : Path} {f : File β}
    (hsrc : fs.node src = some (.file f)) (hdst : createFault fs dst = none) (q : Path) :
    ((fs.prune src).put dst (.file f)).node q =
      if q = dst then some (.file f) else if q = src then none else fs.node q := by
  have hsne : src ≠ [] := by
    rintro rfl
    simp [fs.root] at hsrc
  obtain ⟨hc, hd, hp⟩ := createFault_none_iff.mp hdst
  -- nothing is below a file, so pruning `src` takes away `src` alone
  have hprune : ∀ q, (fs.prune src).node q = if q = src then none else fs.node q := by
    intro q
    rw [FileSystem.prune_node fs hsne]
    by_cases hq : q = src
    · simp [hq]
    · by_cases hb : src <+: q
      · simp [hb, hq, fs.none_of_below_file hb (Ne.symm hq) hsrc]
      · simp [hb, hq]
  have hadm : (fs.prune src).admits dst (.file f) = true := by
    apply admits_of_createFault
    rw [createFault_none_iff, hprune, hprune]
    refine ⟨hc, ?_, ?_⟩
    · split <;> simp [hd]
    · rw [if_neg (by rintro he; simp [he, hsrc] at hp), hp]
  rw [FileSystem.put_node _ hadm]
  by_cases hq : q = dst
  · simp [hq]
  · rw [Function.update_of_ne hq, hprune, if_neg hq]

theorem prune_file_node {fs : FileSystem β} {p : Path} {f : File β}
    (hp : fs.node p = some (.file f)) (q : Path) :
    (fs.prune p).node q = if q = p then none else fs.node q := by
  have hne : p ≠ [] := by
    rintro rfl
    simp [fs.root] at hp
  rw [FileSystem.prune_node fs hne]
  by_cases hq : q = p
  · simp [hq]
  · by_cases hb : p <+: q
    · simp [hb, hq, fs.none_of_below_file hb (Ne.symm hq) hp]
    · simp [hb, hq]

-- Where a computation may leave its mark: at the `free` paths anyhow, at the `gone` paths by
-- taking away what is there, and at a path without a node with a new one that `fresh` admits.
structure Room (β : Type) where
  free : Path → Prop
  gone : Path → Prop
  fresh : Path → Node β → Prop

-- From one world to another, nothing but what `R` has room for happened on the way. What was
-- moved from a place that `R` cannot fill was there at the start.
structure Confined (R : Room β) (w w' : World β) : Prop where
  log : ∃ es, w'.log = w.log ++ es ∧
    (∀ e ∈ es, ∀ q, e.Touches q →
      R.free q ∨ R.gone q ∨ (w.fs.node q = none ∧ ∃ x, R.fresh q x)) ∧
    ∀ src dst b, Event.moved src dst b ∈ es →
      R.free src ∨ (∃ x, R.fresh src x) ∨ w.fs.blob src = some b
  node : ∀ q, ¬R.free q → w'.fs.node q = w.fs.node q ∨ (R.gone q ∧ w'.fs.node q = none) ∨
    ((R.gone q ∨ w.fs.node q = none) ∧ ∃ x, w'.fs.node q = some x ∧ R.fresh q x)

namespace Confined

variable {R S : Room β} {w w' w'' : World β}

theorem refl (R : Room β) (w : World β) : Confined R w w := ⟨⟨[], by simp⟩, fun _ _ => Or.inl rfl⟩

-- What is missing afterwards was missing before or could go.
theorem of_none (h : Confined R w w') {q : Path} (hq : w'.fs.node q = none) :
    R.free q ∨ R.gone q ∨ w.fs.node q = none := by
  by_cases hf : R.free q
  · exact Or.inl hf
  · rcases h.node q hf with he | ⟨hg, -⟩ | ⟨-, x, hx, -⟩
    · exact Or.inr (Or.inr (he.symm.trans hq))
    · exact Or.inr (Or.inl hg)
    · rw [hq] at hx
      cases hx

-- What was there before and can neither change nor go stays.
theorem keep (h : Confined R w w') {q : Path} (hf : ¬R.free q) (hg : ¬R.gone q)
    (hq : w.fs.node q ≠ none) : w'.fs.node q = w.fs.node q := by
  rcases h.node q hf with he | ⟨hc, -⟩ | ⟨hc | hn, -⟩
  · exact he
  · exact absurd hc hg
  · exact absurd hc hg
  · exact absurd hn hq

theorem same (h : Confined R w w') {q : Path} (hf : ¬R.free q) (hg : ¬R.gone q)
    (hn : ∀ x, ¬R.fresh q x) : w'.fs.node q = w.fs.node q := by
  rcases h.node q hf with he | ⟨hc, -⟩ | ⟨-, x, -, hx⟩
  · exact he
  · exact absurd hc hg
  · exact absurd hx (hn x)

theorem same_or_none (h : Confined R w w') {q : Path} (hf : ¬R.free q)
    (hn : ∀ x, ¬R.fresh q x) : w'.fs.node q = w.fs.node q ∨ w'.fs.node q = none := by
  rcases h.node q hf with he | ⟨-, hg⟩ | ⟨-, x, -, hx⟩
  · exact Or.inl he
  · exact Or.inr hg
  · exact absurd hx (hn x)

-- What is in a file afterwards was there before, or could be put there.
theorem blob_before (h : Confined R w w') {q : Path} {b : β} (hq : w'.fs.blob q = some b) :
    R.free q ∨ (∃ x, R.fresh q x) ∨ w.fs.blob q = some b := by
  by_cases hf : R.free q
  · exact Or.inl hf
  · rcases h.node q hf with he | ⟨-, hn⟩ | ⟨-, x, -, hx⟩
    · exact Or.inr (Or.inr ((FileSystem.blob_congr _ he).symm.trans hq))
    · simp [FileSystem.blob, hn] at hq
    · exact Or.inr (Or.inl ⟨x, hx⟩)

theorem trans (h : Confined R w w') (h' : Confined R w' w'') : Confined R w w'' := by
  obtain ⟨es, hes, ht, hm⟩ := h.log
  obtain ⟨es', hes', ht', hm'⟩ := h'.log
  refine ⟨⟨es ++ es', by simp [hes, hes'], fun e he q hq => ?_, fun src dst b he => ?_⟩,
    fun q hf => ?_⟩
  · rcases List.mem_append.mp he with he | he
    · exact ht e he q hq
    · rcases ht' e he q hq with hf | hg | ⟨hn, hx⟩
      · exact Or.inl hf
      · exact Or.inr (Or.inl hg)
      · exact (h.of_none hn).imp id fun hc => hc.imp id fun hn => ⟨hn, hx⟩
  · rcases List.mem_append.mp he with he | he
    · exact hm src dst b he
    · rcases hm' src dst b he with hf | hx | hb
      · exact Or.inl hf
      · exact Or.inr (Or.inl hx)
      · exact h.blob_before hb
  · rcases h'.node q hf with he | ⟨hg, hn⟩ | ⟨hn, x, hx, hfresh⟩
    · rw [he]
      exact h.node q hf
    · exact Or.inr (Or.inl ⟨hg, hn⟩)
    · refine Or.inr (Or.inr ⟨?_, x, hx, hfresh⟩)
      rcases hn with hg | hn
      · exact Or.inl hg
      · exact (h.of_none hn).resolve_left hf

theorem mono (h : Confined R w w') (hfree : ∀ q, R.free q → S.free q)
    (hgone : ∀ q, R.gone q → S.free q ∨ S.gone q)
    (hfresh : ∀ q x, R.fresh q x → S.free q ∨ S.fresh q x) : Confined S w w' := by
  obtain ⟨es, hes, ht, hm⟩ := h.log
  refine ⟨⟨es, hes, fun e he q hq => ?_, fun src dst b he => ?_⟩, fun q hq => ?_⟩
  · rcases ht e he q hq with hf | hg | ⟨hn, x, hx⟩
    · exact Or.inl (hfree q hf)
    · exact (hgone q hg).imp id Or.inl
    · exact (hfresh q x hx).imp id fun hx => Or.inr ⟨hn, x, hx⟩
  · rcases hm src dst b he with hf | ⟨x, hx⟩ | hb
    · exact Or.inl (hfree src hf)
    · exact (hfresh src x hx).imp id fun hx => Or.inl ⟨x, hx⟩
    · exact Or.inr (Or.inr hb)
  · rcases h.node q fun hc => hq (hfree q hc) with he | ⟨hg, hn⟩ | ⟨hn, x, hx, hf⟩
    · exact Or.inl he
    · exact Or.inr (Or.inl ⟨(hgone q hg).resolve_left hq, hn⟩)
    · refine Or.inr (Or.inr ⟨?_, x, hx, (hfresh q x hf).resolve_left hq⟩)
      exact hn.imp (fun hg => (hgone q hg).resolve_left hq) id

end Confined

theorem Confined.later {R : Room β} {w w' : World β} (h : Confined R w w') : w.log <+: w'.log := by
  obtain ⟨es, hes, -⟩ := h.log
  exact ⟨es, hes.symm⟩

-- `e` was logged on the way from `w` to `w'`.
def Happened (e : Event β) (w w' : World β) : Prop := ∃ es, w'.log = w.log ++ es ∧ e ∈ es

namespace Happened

variable {R : Room β} {e : Event β} {w w₁ w₂ w' : World β}

theorem within (h : Happened e w₁ w₂) (h₁ : w.log <+: w₁.log) (h₂ : w₂.log <+: w'.log) :
    Happened e w w' := by
  obtain ⟨es, hes, he⟩ := h
  obtain ⟨es₁, hes₁⟩ := h₁
  obtain ⟨es₂, hes₂⟩ := h₂
  exact ⟨es₁ ++ es ++ es₂, by simp [← hes₂, hes, ← hes₁], by simp [he]⟩

theorem split (h : Happened e w w') (h₁ : w.log <+: w₁.log) (h₂ : w₁.log <+: w'.log) :
    Happened e w w₁ ∨ Happened e w₁ w' := by
  obtain ⟨es, hes, he⟩ := h
  obtain ⟨es₁, hes₁⟩ := h₁
  obtain ⟨es₂, hes₂⟩ := h₂
  obtain rfl : es = es₁ ++ es₂ := by
    rw [← hes₂, ← hes₁, List.append_assoc] at hes
    exact (List.append_cancel_left hes).symm
  rw [List.mem_append] at he
  exact he.imp (fun he => ⟨es₁, hes₁.symm, he⟩) fun he => ⟨es₂, hes₂.symm, he⟩

theorem touched (h : Happened e w w') (hw : Confined R w w') {q : Path} (hq : e.Touches q) :
    R.free q ∨ R.gone q ∨ (w.fs.node q = none ∧ ∃ x, R.fresh q x) := by
  obtain ⟨es, hes, he⟩ := h
  obtain ⟨es', hes', ht, -⟩ := hw.log
  obtain rfl := List.append_cancel_left (hes.symm.trans hes')
  exact ht e he q hq

theorem moved_blob {src dst : Path} {b : β} (h : Happened (.moved src dst b) w w')
    (hw : Confined R w w') : R.free src ∨ (∃ x, R.fresh src x) ∨ w.fs.blob src = some b := by
  obtain ⟨es, hes, he⟩ := h
  obtain ⟨es', hes', -, hm⟩ := hw.log
  obtain rfl := List.append_cancel_left (hes.symm.trans hes')
  exact hm src dst b he

end Happened

-- Whatever its outcome, `x` run from `w` does nothing but what `R` has room for.
def TouchesOnly {α : Type} (R : Room β) (x : Run β α) (w : World β) : Prop :=
  Confined R w (x w).2

namespace TouchesOnly

variable {α γ : Type} {R S : Room β} {w : World β}

theorem confined {x : Run β α} (h : TouchesOnly R x w) {r : Except PyError α} {w' : World β}
    (hrun : x w = (r, w')) : Confined R w w' := by
  simpa only [TouchesOnly, hrun] using h

theorem mono {x : Run β α} (h : TouchesOnly R x w) (hfree : ∀ q, R.free q → S.free q)
    (hgone : ∀ q, R.gone q → S.free q ∨ S.gone q)
    (hfresh : ∀ q x, R.fresh q x → S.free q ∨ S.fresh q x) : TouchesOnly S x w :=
  Confined.mono h hfree hgone hfresh

theorem pure (a : α) : TouchesOnly R (Pure.pure a : Run β α) w := Confined.refl _ _

theorem raise (e : PyError) : TouchesOnly R (Exec.raise e : Run β α) w := Confined.refl _ _

theorem raiseIf (c : Bool) (e : PyError) : TouchesOnly R (Exec.raiseIf c e : Run β Unit) w := by
  cases c <;> exact Confined.refl _ _

theorem runIf {c : Bool} {x : Run β Unit} (hx : c = true → TouchesOnly R x w) :
    TouchesOnly R (Exec.runIf c x) w := by
  cases c
  · exact Confined.refl _ _
  · exact hx rfl

-- The next step may rely on what the first one returned and on what it left alone.
theorem bind {x : Run β γ} {f : γ → Run β α} (hx : TouchesOnly R x w)
    (hf : ∀ a w', x w = (.ok a, w') → Confined R w w' → TouchesOnly R (f a) w') :
    TouchesOnly R (x >>= f) w := by
  unfold TouchesOnly at hx ⊢
  rcases hxw : x w with ⟨_ | a, w'⟩ <;> simp only [Bind.bind, hxw] at hx ⊢
  · exact hx
  · exact hx.trans (hf a w' hxw hx)

theorem tryExcept {x : Run β α} {handler : PyError → Run β α} (hx : TouchesOnly R x w)
    (hh : ∀ e w', x w = (.error e, w') → Confined R w w' → TouchesOnly R (handler e) w') :
    TouchesOnly R (Exec.tryExcept x handler) w := by
  unfold TouchesOnly Exec.tryExcept at *
  rcases hxw : x w with ⟨e | a, w'⟩ <;> simp only [hxw] at hx ⊢
  · exact hx.trans (hh e w' hxw hx)
  · exact hx

theorem tryFinally {x : Run β α} {cleanup : Run β Unit} (hx : TouchesOnly R x w)
    (hc : ∀ w', Confined R w w' → TouchesOnly R cleanup w') :
    TouchesOnly R (Exec.tryFinally x cleanup) w := by
  unfold TouchesOnly Exec.tryFinally at *
  rcases hxw : x w with ⟨r, w'⟩
  simp only [hxw] at hx ⊢
  have hcw := hc w' hx
  rcases hcl : cleanup w' with ⟨_ | _, w''⟩ <;> simp only [hcl] at hcw ⊢ <;> exact hx.trans hcw

theorem forEach {as : List γ} {body : γ → Run β Unit}
    (h : ∀ a ∈ as, ∀ w', Confined R w w' → TouchesOnly R (body a) w') :
    TouchesOnly R (Exec.forEach as body) w := by
  induction as generalizing w with
  | nil => exact Confined.refl _ _
  | cons a rest ih =>
      refine bind (h a (by simp) w (Confined.refl _ _)) fun _ w' _ hw' => ih fun a' ha' w'' hw'' => ?_
      exact h a' (List.mem_cons_of_mem _ ha') w'' (hw'.trans hw'')

theorem mapEach {as : List γ} {body : γ → Run β α}
    (h : ∀ a ∈ as, ∀ w', Confined R w w' → TouchesOnly R (body a) w') :
    TouchesOnly R (Exec.mapEach as body) w := by
  induction as generalizing w with
  | nil => exact Confined.refl _ _
  | cons a rest ih =>
      refine bind (h a (by simp) w (Confined.refl _ _)) fun b w' _ hw' => ?_
      refine bind (ih fun a' ha' w'' hw'' => ?_) fun _ _ _ _ => pure _
      exact h a' (List.mem_cons_of_mem _ ha') w'' (hw'.trans hw'')

theorem record {e : Event β} {f : FileSystem β → FileSystem β}
    (he : ∀ q, e.Touches q → R.free q ∨ R.gone q ∨ (w.fs.node q = none ∧ ∃ x, R.fresh q x))
    (hf : ∀ q, ¬R.free q → (f w.fs).node q = w.fs.node q ∨
      (R.gone q ∧ (f w.fs).node q = none) ∨
      ((R.gone q ∨ w.fs.node q = none) ∧ ∃ x, (f w.fs).node q = some x ∧ R.fresh q x))
    (hm : ∀ src dst b, e = .moved src dst b → w.fs.blob src = some b) :
    TouchesOnly R (Storage.record e f) w := by
  refine ⟨⟨[e], rfl, fun e' he' q hq => ?_, fun src dst b he' => ?_⟩, hf⟩
  · rw [List.mem_singleton] at he'
    exact he q (he' ▸ hq)
  · rw [List.mem_singleton] at he'
    exact Or.inr (Or.inr (hm src dst b he'.symm))

theorem read_bind {f : World β → Run β α} (h : TouchesOnly R (f w) w) :
    TouchesOnly R (Exec.read >>= f) w := h

-- One node is put at a free path, or as a new one.
theorem put {e : Event β} {p : Path} {x : Node β} (he : ∀ q, e.Touches q ↔ q = p)
    (hm : ∀ src dst b, e ≠ .moved src dst b)
    (hp : R.free p ∨ (w.fs.node p = none ∧ R.fresh p x)) :
    TouchesOnly R (Storage.record e (·.put p x)) w := by
  refine record (fun q hq => ?_) (fun q hq => ?_) fun src dst b hc => absurd hc (hm src dst b)
  · obtain rfl := (he q).mp hq
    exact hp.imp id fun h => Or.inr ⟨h.1, x, h.2⟩
  · by_cases hqp : q = p
    · subst hqp
      by_cases hadm : w.fs.admits q x = true
      · obtain ⟨hn, hx⟩ := hp.resolve_left hq
        exact Or.inr (Or.inr ⟨Or.inr hn, x, FileSystem.put_node_self _ hadm, hx⟩)
      · exact Or.inl (by simp only [FileSystem.put, hadm]; rfl)
    · exact Or.inl (FileSystem.put_node_of_ne _ hqp)

theorem ensureDir {p : Path} {isLast : Bool}
    (h : w.fs.node p = none → R.free p ∨ R.fresh p .dir) :
    TouchesOnly R (Storage.ensureDir p isLast) w := by
  apply read_bind
  split
  · exact pure _
  · split
    · exact raise _
    · rename_i hnone
      have hn : w.fs.node p = none := by simpa [FileSystem.exists_] using hnone
      split
      · exact raise _
      · exact put (fun _ => Iff.rfl) (fun _ _ _ he => by cases he)
          ((h hn).imp id fun h => ⟨hn, h⟩)

theorem mkdirsFrom {base : Path} {rest : List String}
    (h : ∀ q, base <+: q → q ≠ base → q <+: base ++ rest → w.fs.node q = none →
      R.free q ∨ R.fresh q .dir) :
    TouchesOnly R (Storage.mkdirsFrom base rest) w := by
  induction rest generalizing base w with
  | nil => exact pure _
  | cons n rest ih =>
      refine bind (ensureDir (h _ (by simp) (by simp) (by simp))) fun _ w' hrun _ => ih ?_
      intro q hbq hne hqr hnone
      -- the directory just made is the only path that changed
      have hmade : Confined ⟨fun _ => False, fun _ => False, fun p _ => p = base ++ [n]⟩ w w' :=
        (ensureDir fun _ => Or.inr rfl : TouchesOnly _ _ w).confined hrun
      have hn := ((hmade.of_none hnone).resolve_left id).resolve_left id
      refine h q ((List.prefix_append base [n]).trans hbq) ?_ (by simpa using hqr) hn
      rintro rfl
      simpa using hbq.length_le

theorem mkdirs {p : Path} (h : ∀ q, q <+: p → w.fs.node q = none → R.free q ∨ R.fresh q .dir) :
    TouchesOnly R (Storage.mkdirs p) w :=
  mkdirsFrom fun q _ _ hq hnone => h q (by simpa using hq) hnone

theorem writeBytes {p : Path} {b : β} (h : w.fs.node p ≠ some .dir → R.free p) :
    TouchesOnly R (Storage.writeBytes p b) w := by
  apply read_bind
  split
  · exact raise _
  · rename_i hfault
    exact put (fun _ => Iff.rfl) nofun (Or.inl (h (createFault_none_iff.mp hfault).2.1))

theorem rename {src dst : Path} (hsrc : w.fs.node src ≠ some .dir → R.free src ∨ R.gone src)
    (hdst : R.free dst ∨ (w.fs.node dst = none ∧ ∀ f, R.fresh dst (.file f))) :
    TouchesOnly R (Storage.rename src dst) w := by
  apply read_bind
  split
  · exact raise _
  · exact raise _
  · rename_i f hf
    have hs := hsrc (by simp [hf])
    split
    · exact raise _
    · rename_i hfault
      refine record (fun q hq => ?_) (fun q hq => ?_) fun src' dst' b he => ?_
      · rcases hq with rfl | rfl
        · exact hs.imp id Or.inl
        · exact hdst.imp id fun h => Or.inr ⟨h.1, _, h.2 f⟩
      · rw [prune_put_node hf hfault]
        by_cases hqd : q = dst
        · subst hqd
          obtain ⟨hn, hx⟩ := hdst.resolve_left hq
          exact Or.inr (Or.inr ⟨Or.inr hn, _, if_pos rfl, hx f⟩)
        · rw [if_neg hqd]
          by_cases hqs : q = src
          · subst hqs
            exact Or.inr (Or.inl ⟨hs.resolve_left hq, if_pos rfl⟩)
          · exact Or.inl (if_neg hqs)
      · obtain ⟨rfl, -, rfl⟩ := Event.moved.inj he
        simp [FileSystem.blob, hf]

theorem move {src dst : Path} (hsrc : w.fs.node src ≠ some .dir → R.free src ∨ R.gone src)
    (hdst : w.fs.node dst ≠ some .dir →
      R.free dst ∨ (w.fs.node dst = none ∧ ∀ f, R.fresh dst (.file f)))
    (hin : w.fs.node dst = some .dir → R.free (dst ++ [Path.name src])) :
    TouchesOnly R (Storage.move src dst) w := by
  apply read_bind
  split
  · rename_i hd
    refine bind (raiseIf _ _) fun _ w' hrun _ => ?_
    obtain ⟨-, rfl⟩ := raiseIf_eq_ok.mp hrun
    exact rename hsrc (Or.inl (hin ((FileSystem.isDir_iff _).mp hd)))
  · rename_i hd
    exact rename hsrc (hdst fun hc => hd ((FileSystem.isDir_iff _).mpr hc))

-- What is removed may be written, or may go.
theorem removed {p : Path} (h : ∀ q, p <+: q → R.free q ∨ R.gone q) :
    TouchesOnly R (Storage.record (.removed p) (·.prune p)) w := by
  by_cases hp : p = []
  · subst hp
    refine record (fun q hq => (h q hq).imp id Or.inl) (fun q _ => Or.inl ?_)
      fun _ _ _ he => by cases he
    simp only [FileSystem.prune, dite_true]
  refine record (fun q hq => (h q hq).imp id Or.inl) (fun q hq => ?_)
    fun _ _ _ he => by cases he
  by_cases hpq : p <+: q
  · exact Or.inr (Or.inl ⟨(h q hpq).resolve_left hq, FileSystem.prune_node_of_below _ hp hpq⟩)
  · exact Or.inl (FileSystem.prune_node_of_not_below _ hpq)

theorem unlink {p : Path} (h : ∀ q, p <+: q → R.free q ∨ R.gone q) :
    TouchesOnly R (Storage.unlink p) w := by
  apply read_bind
  split
  · exact raise _
  · exact raise _
  · exact removed h

theorem rmtree {p : Path} (h : ∀ q, p <+: q → R.free q ∨ R.gone q) :
    TouchesOnly R (Storage.rmtree p) w := by
  apply read_bind
  split
  · exact raise _
  · exact raise _
  · exact removed h

theorem rmtreeIgnoring {p : Path} (h : ∀ q, p <+: q → R.free q ∨ R.gone q) :
    TouchesOnly R (Storage.rmtreeIgnoring p) w := by
  apply read_bind
  split
  · exact removed h
  · exact pure _

theorem chmod {p : Path} {mode : Nat} (h : R.free p) : TouchesOnly R (Storage.chmod p mode) w := by
  apply read_bind
  split
  · exact raise _
  · refine record (fun q hq => ?_) (fun _ _ => Or.inl rfl) nofun
    rw [Event.Touches] at hq
    exact Or.inl (hq ▸ h)
  · exact put (fun _ => Iff.rfl) nofun (Or.inl h)

theorem mkdtemp (host : Host β) {stem : String} {dir : Path}
    (h : ∀ n, w.fs.node (dir ++ [stem ++ n]) = none →
      R.free (dir ++ [stem ++ n]) ∨ R.fresh (dir ++ [stem ++ n]) .dir) :
    TouchesOnly R (Storage.mkdtemp host stem dir) w := by
  apply read_bind
  exact bind (ensureDir (h _)) fun _ _ _ _ => pure _

end TouchesOnly

-- A computation that only looks.
def Quiet {α : Type} (x : Run β α) : Prop := ∀ w, (x w).2 = w

namespace Quiet

variable {α γ : Type}

theorem eq_of_run {x : Run β α} (hx : Quiet x) {w w' : World β} {r : Except PyError α}
    (h : x w = (r, w')) : w' = w := by
  rw [← hx w, h]

theorem touchesOnly {x : Run β α} (hx : Quiet x) (R : Room β) (w : World β) :
    TouchesOnly R x w := by
  unfold TouchesOnly
  rw [hx w]
  exact Confined.refl R w

theorem pure (a : α) : Quiet (Pure.pure a : Run β α) := fun _ => rfl

theorem raise (e : PyError) : Quiet (Exec.raise e : Run β α) := fun _ => rfl

theorem ofExcept (x : Except PyError α) : Quiet (Exec.ofExcept x : Run β α) := by
  intro w
  cases x <;> rfl

theorem raiseIf (c : Bool) (e : PyError) : Quiet (Exec.raiseIf c e : Run β Unit) := by
  intro w
  cases c <;> rfl

theorem bind {x : Run β γ} {f : γ → Run β α} (hx : Quiet x) (hf : ∀ a, Quiet (f a)) :
    Quiet (x >>= f) := by
  intro w
  have hxw := hx w
  rcases hr : x w with ⟨_ | a, w'⟩ <;> simp only [Bind.bind, hr] at hxw ⊢
  · exact hxw
  · rw [hf a w', hxw]

theorem read_bind {f : World β → Run β α} (h : ∀ w, Quiet (f w)) : Quiet (Exec.read >>= f) :=
  fun w => h w w

theorem mapEach {as : List γ} {body : γ → Run β α} (h : ∀ a, Quiet (body a)) :
    Quiet (Exec.mapEach as body) := by
  induction as with
  | nil => exact pure []
  | cons a rest ih => exact bind (h a) fun b => bind ih fun bs => pure (b :: bs)

theorem exists_ (p : Path) : Quiet (Storage.exists_ p : Run β Bool) := fun _ => rfl

theorem readBytes (p : Path) : Quiet (Storage.readBytes p : Run β β) := by
  refine read_bind fun w => ?_
  split
  · exact pure _
  · exact raise _
  · exact raise _

theorem iterdir (p : Path) : Quiet (Storage.iterdir p : Run β (List String)) := by
  refine read_bind fun w => ?_
  split
  · exact pure _
  · exact raise _
  · exact raise _

end Quiet

-- Looking first either raises, or the rest runs in the same world.
theorem Quiet.bind_cases {α γ : Type} {w w' : World β} {x : Run β γ} {f : γ → Run β α}
    {r : Except PyError α} (hx : Quiet x) (h : (x >>= f) w = (r, w')) :
    (∃ e, r = .error e ∧ w' = w) ∨ ∃ a, x w = (.ok a, w) ∧ f a w = (r, w') := by
  rcases hrun : x w with ⟨e | a, t⟩
  · rw [bind_of_error hrun] at h
    obtain ⟨rfl, rfl⟩ := Prod.mk.inj h
    exact Or.inl ⟨e, rfl, hx.eq_of_run hrun⟩
  · rw [bind_of_ok hrun] at h
    obtain rfl := hx.eq_of_run hrun
    exact Or.inr ⟨a, rfl, h⟩

-- The world is the same after looking.
theorem TouchesOnly.look {α γ : Type} {R : Room β} {w : World β} {x : Run β γ}
    {f : γ → Run β α} (hx : Quiet x) (hf : ∀ a, x w = (.ok a, w) → TouchesOnly R (f a) w) :
    TouchesOnly R (x >>= f) w := by
  refine .bind (hx.touchesOnly R w) fun a w' hrun _ => ?_
  obtain rfl := hx.eq_of_run hrun
  exact hf a hrun

-- A failure after looking is a failure of what comes next, from the same world.
theorem Quiet.error_bind {α γ : Type} {w w' : World β} {x : Run β γ} {f : γ → Run β α}
    {e : PyError} (hx : Quiet x) (h : (x >>= f) w = (.error e, w')) :
    w' = w ∨ ∃ a, x w = (.ok a, w) ∧ f a w = (.error e, w') := by
  rcases bind_eq_error h with hrun | ⟨a, t, hrun, hnext⟩
  · exact Or.inl (hx.eq_of_run hrun)
  · obtain rfl := hx.eq_of_run hrun
    exact Or.inr ⟨a, hrun, hnext⟩

-- Whatever its outcome, `x` run from `w` leaves a node at `q`.
def Leaves {α : Type} (q : Path) (x : Run β α) (w : World β) : Prop := (x w).2.fs.node q ≠ none

namespace Leaves

variable {α γ : Type} {q : Path} {w : World β} {R : Room β}

theorem look {x : Run β γ} {f : γ → Run β α} {a : γ} (hx : x w = (.ok a, w))
    (hf : Leaves q (f a) w) : Leaves q (x >>= f) w := by
  rw [Leaves, bind_of_ok hx]
  exact hf

-- What comes next cannot take the node away.
theorem bind {x : Run β γ} {f : γ → Run β α} (hfree : ¬R.free q) (hgone : ¬R.gone q)
    (hx : Leaves q x w) (hf : ∀ a w', x w = (.ok a, w') → TouchesOnly R (f a) w') :
    Leaves q (x >>= f) w := by
  rcases hrun : x w with ⟨e | a, w'⟩
  · rw [Leaves, bind_of_error hrun]
    simpa only [Leaves, hrun] using hx
  · have hw' : w'.fs.node q ≠ none := by simpa only [Leaves, hrun] using hx
    rw [Leaves, bind_of_ok hrun, (hf a w' hrun).keep hfree hgone hw']
    exact hw'

end Leaves

-- What a system call that returned normally did.
section Returns

variable {w w' : World β}

@[simp] theorem exists_eq_ok {p : Path} {b : Bool} :
    exists_ p w = (.ok b, w') ↔ w.fs.exists_ p = b ∧ w = w' := by
  simp [exists_, read_bind]

theorem readBytes_ok {p : Path} {b : β} :
    readBytes p w = (.ok b, w') ↔ w.fs.blob p = some b ∧ w = w' := by
  rw [readBytes, read_bind]
  rcases hn : w.fs.node p with _ | _ | f <;> simp [FileSystem.blob, hn]

-- A move happens or it does not.
theorem rename_error {src dst : Path} {e : PyError} (h : rename src dst w = (.error e, w')) :
    w' = w := by
  rw [rename, read_bind] at h
  rcases hf : w.fs.node src with _ | _ | f
  · simp only [hf, raise, Prod.mk.injEq] at h
    exact h.2.symm
  · simp only [hf, raise, Prod.mk.injEq] at h
    exact h.2.symm
  · cases hfault : createFault w.fs dst with
    | some e =>
        simp only [hf, hfault, raise, Prod.mk.injEq] at h
        exact h.2.symm
    | none => simp [hf, hfault, record] at h

theorem move_error {src dst : Path} {e : PyError} (h : move src dst w = (.error e, w')) :
    w' = w := by
  rw [move, read_bind] at h
  by_cases hd : w.fs.isDir dst = true
  · simp only [hd, ite_true] at h
    cases hex : w.fs.exists_ (dst ++ [Path.name src]) with
    | true =>
        simp only [hex, raiseIf, ite_true, Bind.bind, raise, Prod.mk.injEq] at h
        exact h.2.symm
    | false => exact rename_error (by simpa [hex, raiseIf, Bind.bind, Pure.pure] using h)
  · simp only [hd] at h
    exact rename_error h

theorem put_ok {e : Event β} {p : Path} {x : Node β} (hadm : w.fs.admits p x = true)
    (h : record e (·.put p x) w = (.ok (), w')) :
    w'.fs.node p = some x ∧ ∀ q, q ≠ p → w'.fs.node q = w.fs.node q := by
  simp only [record, Prod.mk.injEq, true_and] at h
  subst h
  exact ⟨FileSystem.put_node_self _ hadm, fun q hq => FileSystem.put_node_of_ne _ hq⟩

-- Making directories changes nothing that is there.
theorem mkdirs_keep {p q : Path} {r : Except PyError Unit} (h : mkdirs p w = (r, w'))
    (hq : w.fs.node q ≠ none) : w'.fs.node q = w.fs.node q := by
  have hmk : TouchesOnly ⟨fun _ => False, fun _ => False, fun _ x => x = .dir⟩ (mkdirs p) w :=
    .mkdirs fun _ _ _ => Or.inr rfl
  exact (hmk.confined h).keep id id hq

theorem ensureDir_ok {p : Path} {isLast : Bool} (h : ensureDir p isLast w = (.ok (), w')) :
    w'.fs.node p = some .dir ∧ ∀ q, q ≠ p → w'.fs.node q = w.fs.node q := by
  rw [ensureDir, read_bind] at h
  by_cases hd : w.fs.isDir p = true
  · simp only [hd, ite_true, pure_eq_ok] at h
    obtain ⟨-, rfl⟩ := h
    exact ⟨(FileSystem.isDir_iff _).mp hd, fun _ _ => rfl⟩
  · by_cases hex : w.fs.exists_ p = true
    · simp [hd, hex] at h
    · cases hfault : createFault w.fs p with
      | some e => simp [hd, hex, hfault] at h
      | none =>
          simp only [hd, hex, hfault] at h
          exact put_ok (admits_of_createFault hfault _) h

theorem ensureDir_new {p : Path} {isLast : Bool} (hp : w.fs.node p = none)
    (hfault : createFault w.fs p = none) :
    ensureDir p isLast w = (.ok (), ⟨w.fs.put p .dir, w.log ++ [.mkdir p]⟩) := by
  rw [ensureDir, read_bind]
  simp only [FileSystem.isDir, FileSystem.exists_, hp, hfault, Option.any_none,
    Option.isSome_none, Bool.false_eq_true, ite_false]
  rfl

theorem mkdirsFrom_ok {base : Path} {rest : List String} (hbase : w.fs.node base = some .dir)
    (h : mkdirsFrom base rest w = (.ok (), w')) :
    (∀ q, base <+: q → q <+: base ++ rest → w'.fs.node q = some .dir) ∧
      ∀ q, ¬(base <+: q ∧ q <+: base ++ rest) → w'.fs.node q = w.fs.node q := by
  induction rest generalizing base w with
  | nil =>
      obtain ⟨-, rfl⟩ := pure_eq_ok.mp h
      refine ⟨fun q hbq hqb => ?_, fun _ _ => rfl⟩
      rw [List.append_nil] at hqb
      rw [hqb.eq_of_length_le hbq.length_le, hbase]
  | cons n rest ih =>
      simp only [mkdirsFrom, bind_eq_ok] at h
      obtain ⟨_, t, hd, hrest⟩ := h
      obtain ⟨hdir, hother⟩ := ensureDir_ok hd
      obtain ⟨hin, hout⟩ := ih hdir hrest
      have happ : base ++ [n] ++ rest = base ++ n :: rest := by simp
      rw [happ] at hin hout
      refine ⟨fun q hbq hqr => ?_, fun q hq => ?_⟩
      · by_cases hnq : base ++ [n] <+: q
        · exact hin q hnq hqr
        · -- between `base` and `base ++ [n]` there is only `base`
          have hqb : q = base := by
            rcases Nat.lt_or_ge base.length q.length with hl | hl
            · have hlen : (base ++ [n]).length ≤ q.length := by
                rw [List.length_append, List.length_singleton]
                omega
              exact absurd (List.prefix_of_prefix_length_le (by simp) hqr hlen) hnq
            · exact (hbq.eq_of_length_le hl).symm
          subst hqb
          rw [hout _ (fun hc => hnq hc.1), hother _ (by simp), hbase]
      · rw [hout q fun hc => hq ⟨(List.prefix_append base [n]).trans hc.1, hc.2⟩]
        refine hother q ?_
        rintro rfl
        exact hq ⟨by simp, by simp⟩

theorem mkdirs_ok {p : Path} (h : mkdirs p w = (.ok (), w')) :
    (∀ q, q <+: p → w'.fs.node q = some .dir) ∧
      ∀ q, ¬q <+: p → w'.fs.node q = w.fs.node q := by
  obtain ⟨hin, hout⟩ := mkdirsFrom_ok w.fs.root h
  refine ⟨fun q hq => hin q (by simp) (by simpa using hq), fun q hq => hout q fun hc => hq ?_⟩
  simpa using hc.2

-- A directory that cannot be made is below a file, and nothing was made on the way to it.
theorem mkdirsFrom_error {base : Path} {rest : List String} {e : PyError}
    (hbase : w.fs.node base = some .dir) (hrest : ∀ n ∈ rest, Path.isComponent n = true)
    (h : mkdirsFrom base rest w = (.error e, w')) :
    w' = w ∧ ∃ q f, base <+: q ∧ q <+: base ++ rest ∧ w.fs.node q = some (.file f) := by
  induction rest generalizing base w with
  | nil => simp [mkdirsFrom, Pure.pure] at h
  | cons n rest ih =>
      have hn := hrest n List.mem_cons_self
      have happ : base ++ [n] ++ rest = base ++ n :: rest := by simp
      rcases hd : ensureDir (base ++ [n]) rest.isEmpty w with ⟨e' | u, t⟩
      · simp only [mkdirsFrom, Bind.bind, hd, Prod.mk.injEq] at h
        obtain ⟨-, rfl⟩ := h
        rw [ensureDir, read_bind] at hd
        rcases hnode : w.fs.node (base ++ [n]) with _ | _ | f
        · have hfault : createFault w.fs (base ++ [n]) = none :=
            createFault_none_iff.mpr ⟨by simpa using hn, by simp [hnode], by simpa using hbase⟩
          simp [FileSystem.isDir, FileSystem.exists_, hnode, hfault, record] at hd
        · simp [FileSystem.isDir, hnode, Node.isDir, Pure.pure] at hd
        · simp only [FileSystem.isDir, FileSystem.exists_, hnode, Option.any_some, Node.isDir,
            Option.isSome_some, Bool.false_eq_true, ite_false, ite_true, raise, Prod.mk.injEq] at hd
          exact ⟨hd.2.symm, _, f, List.prefix_append _ _, by simp, hnode⟩
      · simp only [mkdirsFrom, Bind.bind, hd] at h
        obtain ⟨hdir, hother⟩ := ensureDir_ok hd
        obtain ⟨rfl, q, f, hbq, hq, hf⟩ := ih hdir (fun m hm => hrest m (List.mem_cons_of_mem _ hm)) h
        have hne : q ≠ base ++ [n] := by
          rintro rfl
          simp [hdir] at hf
        have hfw := (hother q hne).symm.trans hf
        refine ⟨?_, q, f, (List.prefix_append _ _).trans hbq, happ ▸ hq, hfw⟩
        have hold := w.fs.isDir_of_below hbq hne.symm (by simp [hfw])
        rw [ensureDir, read_bind] at hd
        simp only [FileSystem.isDir, hold, Option.any_some, Node.isDir, ite_true, pure_eq_ok] at hd
        exact hd.2.symm

theorem mkdirs_error {p : Path} {e : PyError} (hp : ∀ n ∈ p, Path.isComponent n = true)
    (h : mkdirs p w = (.error e, w')) :
    w' = w ∧ ∃ q f, q <+: p ∧ w.fs.node q = some (.file f) := by
  obtain ⟨hw, q, f, -, hq, hf⟩ := mkdirsFrom_error w.fs.root hp h
  exact ⟨hw, q, f, by simpa using hq, hf⟩

theorem mkdirs_returns {p : Path} (hp : ∀ n ∈ p, Path.isComponent n = true)
    (hfree : ∀ q f, q <+: p → w.fs.node q ≠ some (.file f)) : ∃ w', mkdirs p w = (.ok (), w') := by
  rcases h : mkdirs p w with ⟨e | _, w'⟩
  · obtain ⟨-, q, f, hq, hf⟩ := mkdirs_error hp h
    exact absurd hf (hfree q f hq)
  · exact ⟨w', rfl⟩

theorem writeBytes_ok {p : Path} {b : β} (h : writeBytes p b w = (.ok (), w')) :
    createFault w.fs p = none ∧ ∃ m, w'.fs.node p = some (.file ⟨b, m⟩) ∧
      ∀ q, q ≠ p → w'.fs.node q = w.fs.node q := by
  rw [writeBytes, read_bind] at h
  cases hfault : createFault w.fs p with
  | some e => simp [hfault] at h
  | none =>
      simp only [hfault] at h
      exact ⟨rfl, _, put_ok (admits_of_createFault hfault _) h⟩

theorem writeBytes_returns {p : Path} (b : β) (h : createFault w.fs p = none) :
    ∃ w', writeBytes p b w = (.ok (), w') := by
  rw [writeBytes, read_bind]
  simp only [h]
  exact ⟨_, rfl⟩

theorem rename_ok {src dst : Path} (h : rename src dst w = (.ok (), w')) :
    ∃ f, w.fs.node src = some (.file f) ∧ createFault w.fs dst = none ∧
      w'.log = w.log ++ [.moved src dst f.blob] ∧
      ∀ q, w'.fs.node q =
        if q = dst then some (.file f) else if q = src then none else w.fs.node q := by
  rw [rename, read_bind] at h
  rcases hf : w.fs.node src with _ | _ | f
  · simp [hf] at h
  · simp [hf] at h
  · cases hfault : createFault w.fs dst with
    | some e => simp [hf, hfault] at h
    | none =>
        simp only [hf, hfault, record, Prod.mk.injEq, true_and] at h
        subst h
        exact ⟨f, rfl, rfl, rfl, prune_put_node hf hfault⟩

theorem rename_returns {src dst : Path} {f : File β} (hsrc : w.fs.node src = some (.file f))
    (hdst : createFault w.fs dst = none) : ∃ w', rename src dst w = (.ok (), w') := by
  rw [rename, read_bind]
  simp only [hsrc, hdst]
  exact ⟨_, rfl⟩

theorem move_returns {src dst : Path} {f : File β} (hsrc : w.fs.node src = some (.file f))
    (hdst : createFault w.fs dst = none) : ∃ w', move src dst w = (.ok (), w') := by
  have hd : w.fs.isDir dst = false := by
    rw [Bool.eq_false_iff]
    exact fun hc => (createFault_none_iff.mp hdst).2.1 ((FileSystem.isDir_iff _).mp hc)
  rw [move, read_bind]
  simp only [hd, Bool.false_eq_true, ite_false]
  exact rename_returns hsrc hdst

-- Where `shutil.move` puts its source.
def moveTarget (fs : FileSystem β) (src dst : Path) : Path :=
  if fs.isDir dst then dst ++ [Path.name src] else dst

theorem moveTarget_of_not_dir {fs : FileSystem β} {src dst : Path} (h : fs.node dst ≠ some .dir) :
    moveTarget fs src dst = dst := by
  rw [moveTarget, if_neg fun hc => h ((FileSystem.isDir_iff _).mp hc)]

theorem move_ok {src dst : Path} (h : move src dst w = (.ok (), w')) :
    ∃ f, w.fs.node src = some (.file f) ∧ createFault w.fs (moveTarget w.fs src dst) = none ∧
      w'.log = w.log ++ [.moved src (moveTarget w.fs src dst) f.blob] ∧
      ∀ q, w'.fs.node q =
        if q = moveTarget w.fs src dst then some (.file f)
        else if q = src then none else w.fs.node q := by
  rw [move, read_bind] at h
  by_cases hd : w.fs.isDir dst = true
  · simp only [hd, ite_true, bind_eq_ok, raiseIf_eq_ok] at h
    obtain ⟨_, _, ⟨-, rfl⟩, h⟩ := h
    rw [moveTarget, if_pos hd]
    exact rename_ok h
  · simp only [hd] at h
    rw [moveTarget, if_neg hd]
    exact rename_ok h

theorem unlink_ok {p : Path} (h : unlink p w = (.ok (), w')) :
    (∃ f, w.fs.node p = some (.file f)) ∧
      ∀ q, w'.fs.node q = if q = p then none else w.fs.node q := by
  rw [unlink, read_bind] at h
  rcases hf : w.fs.node p with _ | _ | f
  · simp [hf] at h
  · simp [hf] at h
  · simp only [hf, record, Prod.mk.injEq, true_and] at h
    subst h
    exact ⟨⟨f, rfl⟩, prune_file_node hf⟩

theorem unlink_error {p : Path} {e : PyError} (h : unlink p w = (.error e, w')) : w' = w := by
  rw [unlink, read_bind] at h
  rcases hf : w.fs.node p with _ | _ | f
  · simp only [hf] at h
    exact (Prod.mk.inj h).2.symm
  · simp only [hf] at h
    exact (Prod.mk.inj h).2.symm
  · simp [hf, record] at h

theorem unlink_returns {p : Path} {f : File β} (hf : w.fs.node p = some (.file f)) :
    ∃ w', unlink p w = (.ok (), w') := by
  rw [unlink, read_bind]
  simp only [hf]
  exact ⟨_, rfl⟩

theorem rmtree_ok {p : Path} (h : rmtree p w = (.ok (), w')) :
    w.fs.node p = some .dir ∧ w'.fs = w.fs.prune p := by
  rw [rmtree, read_bind] at h
  rcases hd : w.fs.node p with _ | _ | f
  · simp [hd] at h
  · simp only [hd, record, Prod.mk.injEq, true_and] at h
    subst h
    exact ⟨rfl, rfl⟩
  · simp [hd] at h

-- Clean-up never raises.
theorem rmtreeIgnoring_eq (p : Path) :
    ∃ es, rmtreeIgnoring p w =
      (.ok (), ⟨if w.fs.isDir p then w.fs.prune p else w.fs, w.log ++ es⟩) := by
  rw [rmtreeIgnoring, read_bind]
  by_cases hd : w.fs.isDir p = true
  · exact ⟨[.removed p], by simp [record, hd]⟩
  · exact ⟨[], by simp [hd]⟩

theorem rmtreeIgnoring_dir {p : Path} (h : w.fs.isDir p = true) :
    rmtreeIgnoring p w = (.ok (), ⟨w.fs.prune p, w.log ++ [.removed p]⟩) := by
  rw [rmtreeIgnoring, read_bind, if_pos h]
  rfl

theorem chmod_ok {p : Path} {mode : Nat} (h : chmod p mode w = (.ok (), w')) :
    w.fs.node p ≠ none ∧ (∀ f, w.fs.node p = some (.file f) →
      w'.fs.node p = some (.file ⟨f.blob, mode⟩)) ∧
    (w.fs.node p = some .dir → w'.fs.node p = some .dir) ∧
    ∀ q, q ≠ p → w'.fs.node q = w.fs.node q := by
  rw [chmod, read_bind] at h
  rcases hn : w.fs.node p with _ | _ | f
  · simp [hn] at h
  · simp only [hn, record, Prod.mk.injEq, true_and] at h
    subst h
    simp [hn]
  · simp only [hn] at h
    obtain ⟨hp, hother⟩ := put_ok (admits_of_exists hn _) h
    exact ⟨by simp, fun f' hf' => by simp_all, by simp, hother⟩

theorem chmod_error {p : Path} {mode : Nat} {e : PyError} (h : chmod p mode w = (.error e, w')) :
    w' = w ∧ w.fs.node p = none := by
  rw [chmod, read_bind] at h
  rcases hn : w.fs.node p with _ | _ | f
  · simp only [hn] at h
    exact ⟨(Prod.mk.inj h).2.symm, rfl⟩
  · simp [hn, record] at h
  · simp [hn, record] at h

theorem chmod_keeps {p : Path} {mode : Nat} {u : Unit} (h : chmod p mode w = (.ok u, w')) :
    w'.fs.node p ≠ none := by
  obtain ⟨hex, hfile, hdir, -⟩ := chmod_ok h
  rcases hn : w.fs.node p with _ | _ | f
  · exact absurd hn hex
  · simp [hdir hn]
  · simp [hfile f hn]

theorem chmod_returns {p : Path} (mode : Nat) (hp : w.fs.node p ≠ none) :
    ∃ w', chmod p mode w = (.ok (), w') := by
  rw [chmod, read_bind]
  rcases hn : w.fs.node p with _ | _ | f
  · exact absurd hn hp
  · exact ⟨_, rfl⟩
  · exact ⟨_, rfl⟩

-- Changing permission bits changes no content.
theorem chmod_blob {p : Path} {mode : Nat} (h : chmod p mode w = (.ok (), w')) (q : Path) :
    w'.fs.blob q = w.fs.blob q := by
  obtain ⟨hex, hfile, hdir, hother⟩ := chmod_ok h
  by_cases hq : q = p
  · subst hq
    rcases hn : w.fs.node q with _ | _ | f
    · exact absurd hn hex
    · exact FileSystem.blob_congr _ (by rw [hdir hn, hn])
    · simp [FileSystem.blob, hfile f hn, hn]
  · exact FileSystem.blob_congr _ (hother q hq)

end Returns

end

section SystemErrors

variable {β : Type}

-- What a system call raises: an error of the kernel, or that a name holds a null character.
def IsSystem (e : PyError) : Prop := (∃ errno, e = .osError errno) ∨ e = .valueError

theorem IsSystem.os (errno : Errno) : IsSystem (.osError errno) := Or.inl ⟨errno, rfl⟩

theorem createFault_system {fs : FileSystem β} {p : Path} {e : PyError}
    (h : createFault fs p = some e) : IsSystem e := by
  simp only [createFault] at h
  split at h
  · exact Or.inr (Option.some.inj h).symm
  split at h
  · exact Or.inl ⟨_, (Option.some.inj h).symm⟩
  split at h
  · cases h
  split at h
  · exact Or.inl ⟨_, (Option.some.inj h).symm⟩
  · exact Or.inl ⟨_, (Option.some.inj h).symm⟩

theorem mkdirs_system (p : Path) : Raises IsSystem (mkdirs p : Run β Unit) := by
  have hfrom : ∀ (rest : List String) (base : Path),
      Raises IsSystem (mkdirsFrom base rest : Run β Unit) := by
    intro rest
    induction rest with
    | nil => exact fun base => .pure _
    | cons n rest ih =>
        intro base
        refine .bind (.read_bind fun w => ?_) fun _ => ih _
        split
        · exact .pure _
        split
        · exact .raise (.os _)
        split
        · rename_i e he
          exact .raise (createFault_system he)
        · exact .of_ok fun w => ⟨(), _, rfl⟩
  exact hfrom p []

theorem rename_system (src dst : Path) : Raises IsSystem (rename src dst : Run β Unit) := by
  refine .read_bind fun w => ?_
  split
  · exact .raise (.os _)
  · exact .raise (.os _)
  · split
    · rename_i e he
      exact .raise (createFault_system he)
    · exact .of_ok fun w => ⟨(), _, rfl⟩

theorem chmod_system (p : Path) (mode : Nat) : Raises IsSystem (chmod p mode : Run β Unit) := by
  refine .read_bind fun w => ?_
  split
  · exact .raise (.os _)
  · exact .of_ok fun w => ⟨(), _, rfl⟩
  · exact .of_ok fun w => ⟨(), _, rfl⟩

theorem unlink_system (p : Path) : Raises IsSystem (unlink p : Run β Unit) := by
  refine .read_bind fun w => ?_
  split
  · exact .raise (.os _)
  · exact .raise (.os _)
  · exact .of_ok fun w => ⟨(), _, rfl⟩

theorem rmtree_system (p : Path) : Raises IsSystem (rmtree p : Run β Unit) := by
  refine .read_bind fun w => ?_
  split
  · exact .raise (.os _)
  · exact .raise (.os _)
  · exact .of_ok fun w => ⟨(), _, rfl⟩

theorem iterdir_system (p : Path) : Raises IsSystem (iterdir p : Run β (List String)) := by
  refine .read_bind fun w => ?_
  split
  · exact .pure _
  · exact .raise (.os _)
  · exact .raise (.os _)

theorem runIf_system {c : Bool} {x : Run β Unit} (h : Raises IsSystem x) :
    Raises IsSystem (runIf c x) := by
  cases c with
  | false => exact .pure ()
  | true => exact h

end SystemErrors

end VMForge.Storage
