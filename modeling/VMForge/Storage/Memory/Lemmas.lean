import VMForge.Storage.Memory

namespace VMForge.Storage

-- The platform in memory does what is asked of qemu-img.
namespace Memory

theorem resolves_of_readChain {fs : FileSystem Blob} {fuel : Nat} {r : ImageRef} {c : Content}
    (h : readChain fs fuel r = some c) : Resolves (memoryFormats.layerAt fs) r c := by
  induction fuel generalizing r c with
  | zero => simp [readChain] at h
  | succ fuel ih =>
      rw [readChain] at h
      cases hl : memoryFormats.layerAt fs r with
      | none => simp [hl] at h
      | some l =>
          simp only [hl] at h
          cases hb : l.backing with
          | none =>
              simp only [hb, Option.some.injEq] at h
              subst h
              exact .flat hl hb
          | some b =>
              simp only [hb, Option.map_eq_some_iff] at h
              obtain ⟨c', hc', rfl⟩ := h
              exact .onto hl hb (ih hc')

theorem resolves_of_content {fs : FileSystem Blob} {r : ImageRef} {c : Content}
    (h : content fs r = some c) : Resolves (memoryFormats.layerAt fs) r c :=
  resolves_of_readChain h

-- An image is read in one format at most.
theorem format_unique {fs : FileSystem Blob} {p : Path} {format format' : String}
    (h : (memoryFormats.layerAt fs (p, format)).isSome = true)
    (h' : (memoryFormats.layerAt fs (p, format')).isSome = true) : format = format' := by
  obtain ⟨l, hl⟩ := Option.isSome_iff_exists.mp h
  obtain ⟨l', hl'⟩ := Option.isSome_iff_exists.mp h'
  obtain ⟨b, hb, hdecode⟩ := layerAt_eq_some.mp hl
  obtain ⟨b', hb', hdecode'⟩ := layerAt_eq_some.mp hl'
  obtain rfl := Option.some.inj (hb.symm.trans hb')
  have hraw : ∀ f, memoryFormats.decode f b = Blob.decode f b := fun _ => rfl
  rw [hraw] at hdecode hdecode'
  cases b <;> simp_all [Blob.decode]

-- The layers on the way down from a resolved one are distinct, and as many turns read it.
theorem readChain_of_resolves {fs : FileSystem Blob} {r : ImageRef} {c : Content}
    (h : Resolves (memoryFormats.layerAt fs) r c) :
    ∃ chain : List ImageRef, chain.Nodup ∧
      (∀ s ∈ chain, Relation.ReflTransGen (BackedBy (memoryFormats.layerAt fs)) r s ∧
        (memoryFormats.layerAt fs s).isSome = true) ∧
      ∀ fuel, chain.length ≤ fuel → readChain fs fuel r = some c := by
  induction h with
  | @flat r l hl hb =>
      refine ⟨[r], List.nodup_singleton r, fun s hs => ?_, fun fuel hfuel => ?_⟩
      · obtain rfl := List.mem_singleton.mp hs
        exact ⟨.refl, Option.isSome_of_eq_some hl⟩
      · obtain ⟨fuel, rfl⟩ : ∃ n, fuel = n + 1 := ⟨fuel - 1, by simp at hfuel; omega⟩
        simp only [readChain, hl, hb]
  | @onto r l b c hl hb hc ih =>
      obtain ⟨chain, hnodup, hdown, hread⟩ := ih
      have hstep : BackedBy (memoryFormats.layerAt fs) r b := ⟨l, hl, hb⟩
      refine ⟨r :: chain, List.nodup_cons.mpr ⟨fun hr => ?_, hnodup⟩, fun s hs => ?_, fun fuel hfuel => ?_⟩
      · exact (Resolves.onto hl hb hc).acyclic (.head' hstep (hdown r hr).1)
      · rcases List.mem_cons.mp hs with rfl | hs
        · exact ⟨.refl, Option.isSome_of_eq_some hl⟩
        · exact ⟨.head hstep (hdown s hs).1, (hdown s hs).2⟩
      · obtain ⟨fuel, rfl⟩ : ∃ n, fuel = n + 1 := ⟨fuel - 1, by simp at hfuel; omega⟩
        simp only [readChain, hl, hb, hread fuel (by simpa using hfuel), Option.map_some]

-- There are no more layers than files, so what can be read is read.
theorem content_of_resolves {fs : FileSystem Blob} {r : ImageRef} {c : Content}
    (h : Resolves (memoryFormats.layerAt fs) r c) : content fs r = some c := by
  obtain ⟨chain, hnodup, hdown, hread⟩ := readChain_of_resolves h
  refine hread _ (Nat.le_succ_of_le ?_)
  have hpaths : (chain.map Prod.fst).Nodup := by
    refine hnodup.map_on fun s hs t ht hst => ?_
    obtain ⟨p, format⟩ := s
    obtain ⟨q, format'⟩ := t
    obtain rfl : p = q := hst
    rw [format_unique (hdown _ hs).2 (hdown _ ht).2]
  have hsub : chain.map Prod.fst ⊆ fs.listing := by
    intro p hp
    obtain ⟨s, hs, rfl⟩ := List.mem_map.mp hp
    obtain ⟨l, hl⟩ := Option.isSome_iff_exists.mp (hdown s hs).2
    obtain ⟨b, hb, -⟩ := layerAt_eq_some.mp hl
    obtain ⟨mode, hnode⟩ := fs.blob_eq_some.mp hb
    exact fs.listed _ (by simp [hnode])
  simpa using (List.subperm_of_subset hpaths hsub).length_le

theorem opened_eq_some {fs : FileSystem Blob} {backing : List String × String}
    {c : Option Content} (h : opened fs (some backing) = some c) :
    ∃ c', c = some c' ∧ Resolves (memoryFormats.layerAt fs) (refOf backing) c' := by
  simp only [opened, Option.map_eq_some_iff] at h
  obtain ⟨c', hc', rfl⟩ := h
  exact ⟨c', rfl, resolves_of_content hc'⟩

-- What the driver finds in a file that a command wrote.
def written (n : Nat) (data : List (Nat × UInt8)) (backing : Option ImageRef) : Layer ImageRef :=
  ⟨n, fun o => (data.find? fun entry => entry.1 = o).map Prod.snd, backing⟩

theorem decode_written (n : Nat) (data : List (Nat × UInt8))
    (backing : Option (List String × String)) :
    memoryFormats.decode "qcow2" (.qcow2 n data (backing.map refOf)) =
      some (written n data (backing.map refOf)) := by
  have hres : ((fun b : ImageRef => (Path.resolve b.1, b.2)) ∘ refOf) = refOf := by
    funext b
    simp [refOf]
  simp [memoryFormats, Blob.decode, written, Option.map_map, hres]

theorem describes (cwd : Path) : Describes memoryFormats (memoryHost cwd).qemuImg where
  sound := by
    intro w path entry h
    change info w path = _ at h
    rw [info] at h
    cases hb : w.fs.blob path with
    | none => simp [hb] at h
    | some b =>
        cases hl : b.decode b.format with
        | none => simp [hb, hl] at h
        | some l =>
            simp only [hb, hl, Except.ok.injEq] at h
            subst h
            refine ⟨b, l, rfl, hl, rfl, rfl, ?_, rfl⟩
            -- the driver has resolved the path of the backing file
            cases b with
            | qcow2 size data backing =>
                simp only [Blob.decode, Blob.format, ite_true, Option.some.injEq] at hl
                subst hl
                cases backing <;> simp
            | text s =>
                simp only [Blob.decode, Blob.format, ite_true, Option.some.injEq] at hl
                subst hl
                rfl
            | json _ => simp [Blob.decode] at hl
            | archive _ => simp [Blob.decode] at hl
  returns := by
    intro w path b l hb hl
    change ∃ entry, info w path = _
    change b.decode b.format = some l at hl
    simp [info, hb, hl]

theorem creates (cwd : Path) : Creates memoryFormats (memoryHost cwd).qemuImg := by
  intro w path size backing preallocation clusterSize h
  change (exec w _).failure = none at h
  change ∃ b l, (exec w _).content = some b ∧ _
  cases ho : opened w.fs backing with
  | none => simp [exec, ho, fail] at h
  | some c =>
      -- whatever its size, the new file is an empty overlay
      have hlayer := fun n => decode_written n [] backing
      have hback : ∀ r, backing.map refOf = some r → ∃ c', c = some c' ∧
          Resolves (memoryFormats.layerAt w.fs) r c' := by
        intro r hr
        cases backing with
        | none => cases hr
        | some b =>
            obtain rfl := Option.some.inj hr
            exact opened_eq_some ho
      cases size with
      | none =>
          simp only [exec, ho, ok]
          refine ⟨_, _, rfl, hlayer _, rfl, fun r hr => ?_⟩
          obtain ⟨c', rfl, hres⟩ := hback r hr
          obtain ⟨l, hl⟩ := hres.layer_eq
          exact ⟨fun _ => rfl, by simp [hl], fun _ c hc => by rw [hc.det hres]; rfl⟩
      | some s =>
          cases hn : s.toNat? with
          | none => simp [exec, ho, hn, fail] at h
          | some n =>
              simp only [exec, ho, hn, ok]
              refine ⟨_, _, rfl, hlayer _, rfl, fun r hr => ?_⟩
              obtain ⟨c', rfl, hres⟩ := hback r hr
              obtain ⟨l, hl⟩ := hres.layer_eq
              exact ⟨fun _ => rfl, by simp [hl], fun hc => by cases hc⟩

theorem repoints (cwd : Path) : Repoints memoryFormats (memoryHost cwd).qemuImg := by
  intro w path backing h
  change (exec w _).failure = none at h
  change ∃ b b' l, w.fs.blob path = some b ∧ (exec w _).content = some b' ∧ _
  simp only [exec] at h ⊢
  split at h
  · rename_i size data old hb
    simp only [hb, ite_true, ok]
    exact ⟨_, _, _, rfl, rfl, rfl, decode_written size data backing⟩
  · simp [fail] at h

theorem find_dump (c : Content) (o : Nat) : ((dump c).find? fun entry => entry.1 = o).map Prod.snd =
    if o < c.size then some (c.byte o) else none := by
  unfold dump
  rw [List.find?_map, Option.map_map]
  split
  · rename_i h
    have hfind : (List.range c.size).find? ((fun entry : Nat × UInt8 => decide (entry.1 = o)) ∘
        fun o => (o, c.byte o)) = some o := by
      rw [List.find?_range_eq_some]
      refine ⟨by simp, List.mem_range.mpr h, fun j hj => ?_⟩
      simp only [Function.comp, Bool.not_eq_true', decide_eq_false_iff_not]
      omega
    rw [hfind]
    rfl
  · rename_i h
    have hfind : (List.range c.size).find? ((fun entry : Nat × UInt8 => decide (entry.1 = o)) ∘
        fun o => (o, c.byte o)) = none := by
      refine List.find?_eq_none.mpr fun j hj => ?_
      have hlt := List.mem_range.mp hj
      simp only [Function.comp, decide_eq_true_eq]
      omega
    rw [hfind]
    rfl

-- A file that holds all of a content shows it on top of everything.
theorem written_dump (c below : Content) (backing : Option ImageRef) :
    (written c.size (dump c) backing).onto below = c := by
  have hsize : ((written c.size (dump c) backing).onto below).size = c.size := rfl
  apply Content.ext hsize
  funext o
  simp only [Layer.onto, written]
  rw [find_dump]
  split
  · rfl
  · rename_i h
    exact (c.beyond o (Nat.not_lt.mp h)).symm

theorem rebases (cwd : Path) : Rebases memoryFormats (memoryHost cwd).qemuImg := by
  intro w path backing h
  change (exec w _).failure = none at h
  change ∃ b l, (exec w _).content = some b ∧ _
  simp only [exec, Bool.false_eq_true, ite_false] at h ⊢
  split at h
  · rename_i size data old hb
    cases hc : content w.fs (path, "qcow2") with
    | none => simp [hc, fail] at h
    | some c =>
        cases ho : opened w.fs backing with
        | none => simp [hc, ho, fail] at h
        | some o =>
            have hres := resolves_of_content hc
            have hsize : size = c.size := by
              obtain ⟨l, hl⟩ := hres.layer_eq
              obtain ⟨b, hb', hdecode⟩ := layerAt_eq_some.mp hl
              obtain rfl := Option.some.inj (hb.symm.trans hb')
              have hlayer : l.size = size := by
                obtain rfl := Option.some.inj hdecode
                rfl
              rw [← hlayer]
              cases hres with
              | flat hl' _ =>
                  obtain rfl := Option.some.inj (hl.symm.trans hl')
                  rfl
              | onto hl' _ _ =>
                  obtain rfl := Option.some.inj (hl.symm.trans hl')
                  rfl
            subst hsize
            refine ⟨_, _, rfl, decode_written c.size (dump c) backing, rfl, fun c' hc' => ?_⟩
            obtain rfl := hres.det hc'
            exact ⟨fun _ => written_dump _ _ _, fun r below _ _ => written_dump _ _ _⟩
  · simp [fail] at h

end Memory

end VMForge.Storage
