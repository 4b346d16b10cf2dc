import VMForge.Storage.Restore.Confined

namespace VMForge.Storage

open Exec

section

variable {β : Type} {host : Host β} {staging : Path} {tar : Archive β} {w w' : World β}

-- A record passes: its member is in the archive, unbroken, has the size and the digest of the
-- record, and `p` is a legal place for it.
structure RecordVerified (host : Host β) (tar : Archive β) (r : Json) (p : Path) (data : β) :
    Prop where
  member : ∃ arc, safeArc r = .ok arc ∧ Path.parts arc = p ∧
    tar.openMember arc = .ok (data, none)
  sound : matchesRecord host data r = .ok true
  named : p ≠ []
  legal : ∀ n ∈ p, Path.isComponent n = true

theorem RecordVerified.unique {r : Json} {p p' : Path} {data data' : β}
    (h : RecordVerified host tar r p data) (h' : RecordVerified host tar r p' data') :
    p = p' ∧ data = data' := by
  obtain ⟨arc, harc, rfl, hopen⟩ := h.member
  obtain ⟨arc', harc', rfl, hopen'⟩ := h'.member
  obtain rfl := Except.ok.inj (harc.symm.trans harc')
  have heq := Except.ok.inj (hopen.symm.trans hopen')
  exact ⟨rfl, (Prod.mk.inj heq).1⟩

-- One file is written, below directories that were made or were there.
theorem writeMember_ok {t : World β} {p : Path} {data : β} (hdir : w.fs.node staging = some .dir)
    (hmk : mkdirs (staging ++ p).dropLast w = (.ok (), t))
    (hwrite : writeBytes (staging ++ p) data t = (.ok (), w')) :
    p ≠ [] ∧ (∃ m, w'.fs.node (staging ++ p) = some (.file ⟨data, m⟩)) ∧
      (∀ q, Below q p → w'.fs.node (staging ++ q) = some .dir ∧
        ∀ f, w.fs.node (staging ++ q) ≠ some (.file f)) ∧
      ∀ q, ¬q <+: p → w'.fs.node (staging ++ q) = w.fs.node (staging ++ q) := by
  obtain ⟨hfault, m, hfile, hother⟩ := writeBytes_ok hwrite
  obtain ⟨hmade, hleft⟩ := mkdirs_ok hmk
  have hne : p ≠ [] := by
    rintro rfl
    have hdir' := (mkdirs_keep hmk (by simp [hdir])).trans hdir
    rw [List.append_nil] at hfault
    exact (createFault_none_iff.mp hfault).2.1 hdir'
  have hdrop : (staging ++ p).dropLast = staging ++ p.dropLast := List.dropLast_append_of_ne_nil hne
  refine ⟨hne, ⟨m, hfile⟩, fun q hq => ?_, fun q hq => ?_⟩
  · have habove : staging ++ q <+: (staging ++ p).dropLast := by
      rw [hdrop, List.prefix_append_right_inj]
      obtain ⟨rest, rfl⟩ := hq.1
      have hrest : rest ≠ [] := by
        rintro rfl
        exact hq.2 (by simp)
      rw [List.dropLast_append_of_ne_nil hrest]
      exact List.prefix_append _ _
    have hdirt := hmade _ habove
    refine ⟨?_, fun f hf => ?_⟩
    · rw [hother _ (fun he => hq.2 (List.append_cancel_left he).symm), hdirt]
    · rw [mkdirs_keep hmk (by simp [hf]), hf] at hdirt
      cases hdirt
  · have hnot : ¬staging ++ q <+: (staging ++ p).dropLast := by
      rw [hdrop, List.prefix_append_right_inj]
      exact fun hc => hq (hc.trans (List.dropLast_prefix p))
    have hqp : staging ++ q ≠ staging ++ p := fun he =>
      hq (by rw [List.append_cancel_left he])
    rw [hother _ hqp, hleft _ hnot]

theorem legal_of_exists {fs : FileSystem β} {dir p : Path} (h : fs.node (dir ++ p) ≠ none) :
    ∀ n ∈ p, Path.isComponent n = true := by
  intro n hn
  obtain ⟨a, b, rfl⟩ := List.append_of_mem hn
  refine fs.legal (dir ++ a) n fun hc => h (fs.none_of_below ?_ hc)
  exact ⟨b, by simp⟩

theorem extractRecord_ok {r : Json} {u : Unit} (hdir : w.fs.node staging = some .dir)
    (h : extractRecord host tar staging r w = (.ok u, w')) :
    ∃ p data m, RecordVerified host tar r p data ∧
      w'.fs.node (staging ++ p) = some (.file ⟨data, m⟩) ∧
      (∀ q, Below q p → w'.fs.node (staging ++ q) = some .dir ∧
        ∀ f, w.fs.node (staging ++ q) ≠ some (.file f)) ∧
      ∀ q, ¬q <+: p → w'.fs.node (staging ++ q) = w.fs.node (staging ++ q) := by
  simp only [extractRecord, bind_eq_ok, ofExcept_eq_ok] at h
  obtain ⟨arc, _, ⟨hsafe, rfl⟩, ⟨data, fault⟩, _, ⟨hopen, rfl⟩, _, t, hmk, _, t', hwrite, hend⟩ := h
  rw [joinStr_of_not_absolute staging (safeArc_eq_ok.mp hsafe).2.1] at hmk hwrite
  cases fault with
  | some e => simp at hend
  | none =>
      simp only [bind_eq_ok, ofExcept_eq_ok, raiseIf_eq_ok] at hend
      obtain ⟨verified, _, ⟨hsound, rfl⟩, htrue, rfl⟩ := hend
      obtain ⟨hne, ⟨m, hfile⟩, hdirs, hother⟩ := writeMember_ok hdir hmk hwrite
      refine ⟨Path.parts arc, data, m, ⟨⟨arc, hsafe, rfl, orRaise_eq_ok.mp hopen⟩, ?_, hne, ?_⟩,
        hfile, hdirs, hother⟩
      · simpa [hsound] using htrue
      · have hex : t'.fs.node (staging ++ Path.parts arc) ≠ none := by simp [hfile]
        exact legal_of_exists hex

theorem extractRecord_returns {r : Json} {p : Path} {data : β}
    (hdir : w.fs.node staging = some .dir) (hr : RecordVerified host tar r p data)
    (hfree : ∀ q f, Below q p → w.fs.node (staging ++ q) ≠ some (.file f))
    (hnot : w.fs.node (staging ++ p) ≠ some .dir) :
    ∃ w', extractRecord host tar staging r w = (.ok (), w') := by
  obtain ⟨arc, hsafe, rfl, hopen⟩ := hr.member
  have hlegal : ∀ n ∈ (staging ++ Path.parts arc).dropLast, Path.isComponent n = true := by
    intro n hn
    rcases List.mem_append.mp (List.mem_of_mem_dropLast hn) with hn | hn
    · have hex : w.fs.node ([] ++ staging) ≠ none := by simp [hdir]
      exact legal_of_exists hex n hn
    · exact hr.legal n hn
  have hdrop : (staging ++ Path.parts arc).dropLast = staging ++ (Path.parts arc).dropLast :=
    List.dropLast_append_of_ne_nil hr.named
  -- above the member there are only directories
  have hclear : ∀ q f, q <+: (staging ++ Path.parts arc).dropLast →
      w.fs.node q ≠ some (.file f) := by
    intro q f hq hf
    rw [hdrop] at hq
    rcases List.prefix_or_prefix_of_prefix hq (List.prefix_append staging _) with hqs | hqs
    · by_cases he : q = staging
      · rw [he, hdir] at hf
        cases hf
      · rw [w.fs.isDir_of_below hqs he (by simp [hdir])] at hf
        cases hf
    · obtain ⟨rest, rfl⟩ := hqs
      rw [List.prefix_append_right_inj] at hq
      refine hfree rest f ⟨hq.trans (List.dropLast_prefix _), fun he => ?_⟩ hf
      have hlen := hq.length_le
      rw [← he, List.length_dropLast] at hlen
      have hpos := List.length_pos_iff.mpr hr.named
      omega
  obtain ⟨t, hmk⟩ := mkdirs_returns hlegal hclear
  have hfault : createFault t.fs (staging ++ Path.parts arc) = none := by
    refine createFault_none_iff.mpr ⟨?_, ?_, (mkdirs_ok hmk).1 _ List.prefix_rfl⟩
    · rw [Path.name, List.getLast?_append_of_ne_nil _ hr.named,
        List.getLast?_eq_some_getLast hr.named]
      exact hr.legal _ (List.getLast_mem hr.named)
    · intro hd
      rcases hn : w.fs.node (staging ++ Path.parts arc) with _ | _ | f
      · have hleft : ¬staging ++ Path.parts arc <+: (staging ++ Path.parts arc).dropLast := by
          intro hc
          have hlen := hc.length_le
          have hpos := List.length_pos_iff.mpr hr.named
          rw [List.length_dropLast, List.length_append] at hlen
          omega
        rw [(mkdirs_ok hmk).2 _ hleft, hn] at hd
        cases hd
      · exact hnot hn
      · rw [mkdirs_keep hmk (by simp [hn]), hn] at hd
        cases hd
  obtain ⟨t', hwrite⟩ := writeBytes_returns data hfault
  rw [extractRecord, bind_of_ok (ofExcept_eq_ok.mpr ⟨hsafe, rfl⟩),
    bind_of_ok (ofExcept_eq_ok.mpr ⟨orRaise_eq_ok.mpr hopen, rfl⟩)]
  simp only [joinStr_of_not_absolute staging (safeArc_eq_ok.mp hsafe).2.1]
  rw [bind_of_ok hmk, bind_of_ok hwrite, bind_of_ok (ofExcept_eq_ok.mpr ⟨hr.sound, rfl⟩)]
  exact ⟨t', rfl⟩

-- The last record of that path decides what is staged there.
def StagedAs (host : Host β) (tar : Archive β) (files : List Json) (p : Path) (data : β) : Prop :=
  ∃ before r after, files = before ++ r :: after ∧ RecordVerified host tar r p data ∧
    ∀ r' ∈ after, ∀ data', ¬RecordVerified host tar r' p data'

theorem StagedAs.snoc_self {files : List Json} {r : Json} {p : Path} {data : β}
    (hr : RecordVerified host tar r p data) : StagedAs host tar (files ++ [r]) p data :=
  ⟨files, r, [], rfl, hr, by simp⟩

theorem StagedAs.snoc {files : List Json} {r : Json} {p p' : Path} {data data' : β}
    (h : StagedAs host tar files p data) (hr : RecordVerified host tar r p' data')
    (hne : p ≠ p') : StagedAs host tar (files ++ [r]) p data := by
  obtain ⟨before, r₀, after, rfl, hr₀, hlast⟩ := h
  refine ⟨before, r₀, after ++ [r], by simp, hr₀, fun r' hr' data'' hv => ?_⟩
  rcases List.mem_append.mp hr' with hr' | hr'
  · exact hlast r' hr' data'' hv
  · rw [List.mem_singleton] at hr'
    subst hr'
    exact hne (hv.unique hr).1

-- The staging directory holds what the records `done` put there.
structure Extracted (host : Host β) (tar : Archive β) (staging : Path) (done : List Json)
    (w : World β) : Prop where
  dir : w.fs.node staging = some .dir
  files : ∀ p f, w.fs.node (staging ++ p) = some (.file f) → StagedAs host tar done p f.blob
  dirs : ∀ p, p ≠ [] → w.fs.node (staging ++ p) = some .dir →
    ∃ r ∈ done, ∃ p' data, RecordVerified host tar r p' data ∧ Below p p'
  present : ∀ r ∈ done, ∃ p data f, RecordVerified host tar r p data ∧
    w.fs.node (staging ++ p) = some (.file f)

theorem extracted_nil (hdir : w.fs.node staging = some .dir)
    (hempty : ∀ q, Below staging q → w.fs.node q = none) :
    Extracted host tar staging [] w := by
  have hnone : ∀ p, p ≠ [] → w.fs.node (staging ++ p) = none := fun p hp =>
    hempty _ ⟨List.prefix_append _ _, by simpa using hp⟩
  refine ⟨hdir, fun p f hf => ?_, fun p hp hd => ?_, by simp⟩
  · by_cases hp : p = []
    · rw [hp, List.append_nil, hdir] at hf
      cases hf
    · rw [hnone p hp] at hf
      cases hf
  · rw [hnone p hp] at hd
    cases hd

theorem extracted_step {done : List Json} {r : Json} {u : Unit}
    (hw : Extracted host tar staging done w)
    (h : extractRecord host tar staging r w = (.ok u, w')) :
    Extracted host tar staging (done ++ [r]) w' := by
  obtain ⟨p, data, m, hr, hfile, hdirs, hother⟩ := extractRecord_ok hw.dir h
  have hbelow : ∀ q, q <+: p → q = p ∨ Below q p := fun q hq =>
    (Classical.em (q = p)).imp id fun hne => ⟨hq, fun he => hne he.symm⟩
  refine ⟨?_, fun q f hf => ?_, fun q hq hd => ?_, fun r' hr' => ?_⟩
  · have hnil := (hdirs [] ⟨List.nil_prefix, hr.named⟩).1
    simpa using hnil
  · by_cases hqp : q <+: p
    · rcases hbelow q hqp with rfl | hqp
      · obtain rfl := Node.file.inj (Option.some.inj (hfile.symm.trans hf))
        exact .snoc_self hr
      · rw [(hdirs q hqp).1] at hf
        cases hf
    · rw [hother q hqp] at hf
      exact (hw.files q f hf).snoc hr fun he => hqp (he ▸ List.prefix_rfl)
  · by_cases hqp : q <+: p
    · rcases hbelow q hqp with rfl | hqp
      · rw [hfile] at hd
        cases hd
      · exact ⟨r, by simp, p, data, hr, hqp⟩
    · rw [hother q hqp] at hd
      obtain ⟨r', hr', rest⟩ := hw.dirs q hq hd
      exact ⟨r', by simp [hr'], rest⟩
  · rcases List.mem_append.mp hr' with hr' | hr'
    · obtain ⟨q, data', f, hv, hf⟩ := hw.present r' hr'
      by_cases hqp : q <+: p
      · rcases hbelow q hqp with rfl | hqp
        · exact ⟨q, data', _, hv, hfile⟩
        · exact absurd hf ((hdirs q hqp).2 f)
      · exact ⟨q, data', f, hv, (hother q hqp).trans hf⟩
    · rw [List.mem_singleton] at hr'
      subst hr'
      exact ⟨p, data, _, hr, hfile⟩

-- The bundle passes: every record does, and no record's path runs through another's.
structure Verifies (host : Host β) (tar : Archive β) (files : List Json) : Prop where
  records : ∀ r ∈ files, ∃ p data, RecordVerified host tar r p data
  apart : ∀ r ∈ files, ∀ r' ∈ files, ∀ p data p' data', RecordVerified host tar r p data →
    RecordVerified host tar r' p' data' → ¬Below p p'

theorem extractVerified_ok {manifest : Json} {u : Unit} (hdir : w.fs.node staging = some .dir)
    (hempty : ∀ q, Below staging q → w.fs.node q = none)
    (h : extractVerified host tar manifest staging w = (.ok u, w')) :
    ∃ files, manifestFiles manifest = .ok files ∧ Verifies host tar files ∧
      Extracted host tar staging files w' := by
  simp only [extractVerified, bind_eq_ok, ofExcept_eq_ok] at h
  obtain ⟨files, _, ⟨hfiles, rfl⟩, hloop⟩ := h
  have hrun : wp (forEach files (extractRecord host tar staging))
      (fun _ => Extracted host tar staging files) (fun _ _ => True) w :=
    wp_forEach (fun done _ => Extracted host tar staging done) files
      (fun done r rest t _ ht => wp_intro (fun _ _ hrun => extracted_step ht hrun) fun _ _ _ => trivial)
      (fun _ ht => ht) (extracted_nil hdir hempty)
  have hw' := wp_ok hrun hloop
  refine ⟨files, hfiles, ⟨fun r hr => ?_, fun r hr r' hr' p data p' data' hv hv' hbelow => ?_⟩, hw'⟩
  · obtain ⟨p, data, f, hv, -⟩ := hw'.present r hr
    exact ⟨p, data, hv⟩
  · obtain ⟨q, _, f, hq, hf⟩ := hw'.present r hr
    obtain ⟨q', _, f', hq', hf'⟩ := hw'.present r' hr'
    obtain ⟨rfl, -⟩ := hv.unique hq
    obtain ⟨rfl, -⟩ := hv'.unique hq'
    have hpre : staging ++ p <+: staging ++ p' := (List.prefix_append_right_inj _).mpr hbelow.1
    have hne : staging ++ p ≠ staging ++ p' := fun he => hbelow.2 (List.append_cancel_left he).symm
    simp [w'.fs.none_of_below_file hpre hne hf] at hf'

theorem extractVerified_returns {manifest : Json} {files : List Json}
    (hdir : w.fs.node staging = some .dir)
    (hempty : ∀ q, Below staging q → w.fs.node q = none)
    (hfiles : manifestFiles manifest = .ok files) (hv : Verifies host tar files) :
    ∃ w', extractVerified host tar manifest staging w = (.ok (), w') := by
  have hrun : wp (forEach files (extractRecord host tar staging)) (fun _ _ => True)
      (fun _ _ => False) w := by
    refine wp_forEach (fun done _ => Extracted host tar staging done) files
      (fun done r rest t hsplit ht => ?_) (fun _ _ => trivial) (extracted_nil hdir hempty)
    have hmem : r ∈ files := by simp [hsplit]
    have hdone : ∀ r' ∈ done, r' ∈ files := fun r' hr' => by simp [hsplit, hr']
    obtain ⟨p, data, hr⟩ := hv.records r hmem
    obtain ⟨t', ht'⟩ := extractRecord_returns ht.dir hr
      (fun q f hq hf => by
        obtain ⟨before, r', after, rfl, hr', -⟩ := ht.files q f hf
        exact hv.apart r' (hdone r' (by simp)) r hmem _ _ _ _ hr' hr hq)
      (fun hd => by
        obtain ⟨r', hr', p', data', hv', hbelow⟩ := ht.dirs p hr.named hd
        exact hv.apart r hmem r' (hdone r' hr') _ _ _ _ hr hv' hbelow)
    rw [wp, ht']
    exact extracted_step ht ht'
  rw [extractVerified, bind_of_ok (ofExcept_eq_ok.mpr ⟨hfiles, rfl⟩)]
  rcases hloop : forEach files (extractRecord host tar staging) w with ⟨e | _, w'⟩
  · exact (wp_error hrun hloop).elim
  · exact ⟨w', rfl⟩

end

end VMForge.Storage
